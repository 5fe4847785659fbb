import Hengda.Library.Recency
import Mathlib.Data.List.AList

/-! The cache for printed numbers. A list holds its keys in the order of their use, and a table
finds the node of a key in this list. -/
namespace Hengda

open Recency

variable {K V : Type} [DecidableEq K]

/-- The nodes of the list stand behind their addresses, and `next` is the address of the next
node. -/
structure LruMap (K V : Type) where
  kv : AList fun _ : K => V
  ki : AList fun _ : K => Nat
  kl : List (Nat × K)
  capacity : Nat
  next : Nat

namespace LruMap

def new (capacity : Nat) : LruMap K V where
  kv := ∅
  ki := ∅
  kl := []
  capacity := if capacity > 0 then capacity else 1024
  next := 0

/-- The node is moved to the front. -/
def splice (node : Nat) (kl : List (Nat × K)) : Option (List (Nat × K)) := do
  let entry ← kl.find? fun entry => entry.1 = node
  some (entry :: kl.filter fun entry => entry.1 ≠ node)

/-- Nothing is returned where an iterator is used that belongs to no node. -/
def find (m : LruMap K V) (key : K) : Option (LruMap K V × Option V) :=
  match m.kv.lookup key with
  | none => some (m, none)
  | some value => do
      let front ← m.kl.head?
      if front.2 ≠ key then
        let node ← m.ki.lookup key
        let kl ← splice node m.kl
        let first ← kl.head?
        some ({ m with kl, ki := m.ki.insert key first.1 }, some value)
      else some (m, some value)

/-- The key is not inserted if it already exists. -/
def insert (m : LruMap K V) (key : K) (value : V) : Option (LruMap K V) :=
  if key ∈ m.kv then some m
  else
    let kv := m.kv.insert key value
    let kl := (m.next, key) :: m.kl
    let ki := m.ki.insert key m.next
    if kv.keys.length > m.capacity then do
      let last ← kl.getLast?
      let kl := kl.dropLast
      some { m with kv := kv.erase last.2, ki := ki.erase last.2, kl, next := m.next + 1 }
    else some { m with kv, ki, kl, next := m.next + 1 }

def erase (m : LruMap K V) (key : K) : Option (LruMap K V) :=
  if key ∈ m.kv then do
    let node ← m.ki.lookup key
    let entry ← m.kl.find? fun entry => entry.1 = node
    some { m with kl := m.kl.filter fun e => e.1 ≠ entry.1, ki := m.ki.erase key,
                  kv := m.kv.erase key }
  else some m

def clear (m : LruMap K V) : LruMap K V :=
  { m with kv := ∅, ki := ∅, kl := [] }

def use (m : LruMap K V) : Use K V → Option (LruMap K V × Option V)
  | .find key => m.find key
  | .insert key value => do some (← m.insert key value, none)
  | .erase key => do some (← m.erase key, none)
  | .clear => some (m.clear, none)

/-- The map after some uses, and the answers to them. -/
def run (m : LruMap K V) : List (Use K V) → Option (LruMap K V × List (Option V))
  | [] => some (m, [])
  | u :: uses => do
      let (m, answer) ← m.use u
      let (m, answers) ← m.run uses
      some (m, answer :: answers)

/-- The list has the keys in the order of the items, the tables have the values of the items and
the nodes of the list. -/
structure Linked (kv : K → Option V) (ki : K → Option Nat) (kl : List (Nat × K))
    (items : Items K V) : Prop where
  order : kl.map Prod.snd = keys items
  nodup : (keys items).Nodup
  values : ∀ k, kv k = items.lookup k
  nodes : ∀ k node, ki k = some node ↔ (node, k) ∈ kl
  addresses : (kl.map Prod.fst).Nodup

/-- The map holds the items in this order, and every key has its own node. -/
structure Holds (m : LruMap K V) (items : Items K V) : Prop where
  linked : Linked (fun k => m.kv.lookup k) (fun k => m.ki.lookup k) m.kl items
  fresh : ∀ entry ∈ m.kl, entry.1 < m.next
  bound : items.length ≤ m.capacity
  room : 0 < m.capacity

section Links

variable {kv kv' : K → Option V} {ki ki' : K → Option Nat} {kl : List (Nat × K)}
  {items : Items K V} {key : K} {value : V} {node : Nat}

/-- A key that is there has a node of its own. -/
theorem Linked.exists_node (hLinked : Linked kv ki kl items) (hMem : key ∈ keys items) :
    ∃ node, ki key = some node ∧ (node, key) ∈ kl := by
  rw [← hLinked.order] at hMem
  obtain ⟨⟨node, k⟩, hEntry, rfl⟩ := List.mem_map.mp hMem
  exact ⟨node, (hLinked.nodes k node).mpr hEntry, hEntry⟩

/-- The node is found by its address. -/
theorem Linked.find_node (hLinked : Linked kv ki kl items) (hEntry : (node, key) ∈ kl) :
    kl.find? (fun entry => entry.1 = node) = some (node, key) := by
  cases hFind : kl.find? fun entry => entry.1 = node with
  | none =>
      rw [List.find?_eq_none] at hFind
      exact absurd (decide_eq_true rfl) (hFind _ hEntry)
  | some entry =>
      have hFound := List.find?_some hFind
      have hSame : entry.1 = node := of_decide_eq_true hFound
      exact congrArg some
        (List.inj_on_of_nodup_map hLinked.addresses (List.mem_of_find?_eq_some hFind) hEntry hSame)

/-- The other nodes are those of the other keys. -/
theorem Linked.node_iff (hLinked : Linked kv ki kl items) (hEntry : (node, key) ∈ kl)
    {entry : Nat × K} (hMem : entry ∈ kl) : entry.1 = node ↔ entry.2 = key := by
  have hKeys : (kl.map Prod.snd).Nodup := by
    rw [hLinked.order]
    exact hLinked.nodup
  constructor
  · intro hNode
    exact congrArg Prod.snd (List.inj_on_of_nodup_map hLinked.addresses hMem hEntry hNode)
  · intro hKey
    exact congrArg Prod.fst (List.inj_on_of_nodup_map hKeys hMem hEntry hKey)

/-- A key is taken out of the list and out of both tables. -/
theorem Linked.remove (hLinked : Linked kv ki kl items) (hEntry : (node, key) ∈ kl)
    (hKv : ∀ k, kv' k = if k = key then none else kv k)
    (hKi : ∀ k, ki' k = if k = key then none else ki k) :
    Linked kv' ki' (kl.filter fun entry => entry.1 ≠ node) (without key items) := by
  have hFilter : (kl.filter fun entry => entry.1 ≠ node) =
      kl.filter fun entry => entry.2 ≠ key := by
    refine List.filter_congr fun entry hMem => ?_
    rw [decide_eq_decide]
    exact not_congr (hLinked.node_iff hEntry hMem)
  constructor
  · rw [hFilter, keys_without, ← hLinked.order, List.filter_map]
    rfl
  · rw [keys_without]
    exact hLinked.nodup.filter _
  · intro k
    rw [hKv]
    split
    · next hSame => rw [hSame, lookup_without_self]
    · next hOther => rw [lookup_without_ne hOther, hLinked.values]
  · intro k n
    rw [hKi, hFilter, List.mem_filter, decide_eq_true_eq]
    split
    · next hSame => simp [hSame]
    · next hOther => simp [hOther, hLinked.nodes]
  · exact hLinked.addresses.sublist (List.filter_sublist.map _)

/-- A new key is put in front. -/
theorem Linked.push (hLinked : Linked kv ki kl items) (hNode : node ∉ kl.map Prod.fst)
    (hKey : key ∉ keys items) (hKv : ∀ k, kv' k = if k = key then some value else kv k)
    (hKi : ∀ k, ki' k = if k = key then some node else ki k) :
    Linked kv' ki' ((node, key) :: kl) ((key, value) :: items) := by
  constructor
  · show key :: kl.map Prod.snd = key :: keys items
    rw [hLinked.order]
  · exact List.nodup_cons.mpr ⟨hKey, hLinked.nodup⟩
  · intro k
    rw [hKv]
    split
    · next hSame => rw [hSame, List.lookup_cons_self]
    · next hOther =>
        have hNe : (k == key) = false := beq_eq_false_iff_ne.mpr hOther
        rw [List.lookup_cons, hNe, hLinked.values]
  · intro k n
    rw [hKi, List.mem_cons, Prod.mk.injEq]
    split
    · next hSame =>
        have hAbsent : (n, key) ∉ kl := by
          intro hMem
          rw [← hLinked.order] at hKey
          exact hKey (List.mem_map_of_mem hMem)
        simp [hSame, hAbsent, eq_comm]
    · next hOther => simp [hOther, hLinked.nodes]
  · exact List.nodup_cons.mpr ⟨hNode, hLinked.addresses⟩

theorem erase_lookup {W : Type} (table : AList fun _ : K => W) (key k : K) :
    (table.erase key).lookup k = if k = key then none else table.lookup k := by
  split
  · next hSame => rw [hSame, AList.lookup_erase]
  · next hOther => rw [AList.lookup_erase_ne hOther]

theorem insert_lookup {W : Type} (table : AList fun _ : K => W) (key k : K) (w : W) :
    (table.insert key w).lookup k = if k = key then some w else table.lookup k := by
  split
  · next hSame => rw [hSame, AList.lookup_insert]
  · next hOther => rw [AList.lookup_insert_ne hOther]

theorem Linked.mem_iff {table : AList fun _ : K => V}
    (hLinked : Linked (fun k => table.lookup k) ki kl items) : key ∈ table ↔ key ∈ keys items := by
  rw [← AList.lookup_isSome, ← lookup_isSome, hLinked.values]

/-- The table has as many keys as there are items. -/
theorem Linked.size {table : AList fun _ : K => V}
    (hLinked : Linked (fun k => table.lookup k) ki kl items) :
    table.keys.length = items.length := by
  have hPerm : table.keys.Perm (keys items) := by
    refine (List.perm_ext_iff_of_nodup table.keys_nodup hLinked.nodup).mpr fun k => ?_
    rw [← AList.mem_keys, hLinked.mem_iff]
  rw [hPerm.length_eq, keys, List.length_map]

end Links

section Uses

variable {m : LruMap K V} {items : Items K V} {key : K} {value : V}

theorem new_holds (capacity : Nat) : (new capacity : LruMap K V).Holds [] := by
  constructor
  · constructor
    · rfl
    · exact List.nodup_nil
    · intro k
      rfl
    · intro k node
      constructor
      · intro hFound
        cases hFound
      · intro hMem
        cases hMem
    · exact List.nodup_nil
  · intro entry hMem
    cases hMem
  · exact Nat.zero_le _
  · show 0 < if capacity > 0 then capacity else 1024
    split
    · assumption
    · decide

theorem find_holds (hHolds : m.Holds items) (key : K) :
    ∃ m', m.find key = some (m', items.lookup key) ∧ m'.capacity = m.capacity ∧
      m'.Holds (step m.capacity items (.find key)) := by
  have hValue := hHolds.linked.values key
  rw [find, step]
  cases hFound : items.lookup key with
  | none =>
      rw [hFound] at hValue
      rw [hValue]
      exact ⟨m, rfl, rfl, hHolds⟩
  | some value =>
      rw [hFound] at hValue
      have hMem : key ∈ keys items := by
        rw [← lookup_isSome, hFound]
        rfl
      obtain ⟨node, hNode, hEntry⟩ := hHolds.linked.exists_node hMem
      obtain ⟨front, rest, hList⟩ := List.exists_cons_of_ne_nil (List.ne_nil_of_mem hEntry)
      rw [hValue]
      by_cases hFront : front.2 = key
      · -- The key stands in front already.
        have hItems : (key, value) :: without key items = items := by
          have hOrder := hHolds.linked.order
          have hNodup := hHolds.linked.nodup
          rw [hList] at hOrder
          cases items with
          | nil => cases hOrder
          | cons item items =>
              obtain ⟨k, v⟩ := item
              have hKey : k = key := (List.cons.inj hOrder).1.symm.trans hFront
              subst hKey
              rw [List.lookup_cons_self] at hFound
              rw [without_cons_self, without_of_not_mem (List.nodup_cons.mp hNodup).1,
                ← Option.some.inj hFound]
        refine ⟨m, ?_, rfl, ?_⟩
        · simp [hList, hFront]
        · show m.Holds ((key, value) :: without key items)
          rw [hItems]
          exact hHolds
      · have hSplice : splice node m.kl =
            some ((node, key) :: m.kl.filter fun entry => entry.1 ≠ node) := by
          rw [splice, hHolds.linked.find_node hEntry]
          rfl
        refine ⟨{ m with kl := (node, key) :: m.kl.filter fun entry => entry.1 ≠ node,
                         ki := m.ki.insert key node }, ?_, rfl, ?_⟩
        · have hHead : m.kl.head? = some front := by rw [hList, List.head?_cons]
          simp only [hHead, Option.bind_eq_bind, Option.bind_some, if_pos hFront, hNode, hSplice,
            List.head?_cons]
        · have hRemoved := hHolds.linked.remove hEntry (fun k => rfl) (fun k => rfl)
          constructor
          · refine hRemoved.push ?_ ?_ (fun k => ?_) (fun k => ?_)
            · intro hOther
              obtain ⟨entry, hMember, hSame⟩ := List.mem_map.mp hOther
              exact of_decide_eq_true (List.mem_filter.mp hMember).2 hSame
            · rw [← lookup_eq_none]
              exact lookup_without_self key items
            · show m.kv.lookup k = _
              by_cases hSame : k = key
              · rw [if_pos hSame, hSame, hValue]
              · rw [if_neg hSame, if_neg hSame]
            · show (m.ki.insert key node).lookup k = _
              rw [insert_lookup]
              by_cases hSame : k = key
              · rw [if_pos hSame, if_pos hSame]
              · rw [if_neg hSame, if_neg hSame, if_neg hSame]
          · intro entry hMember
            rcases List.mem_cons.mp hMember with rfl | hMember
            · exact hHolds.fresh _ hEntry
            · exact hHolds.fresh _ (List.mem_filter.mp hMember).1
          · exact (length_without hMem).trans_le hHolds.bound
          · exact hHolds.room

theorem insert_holds (hHolds : m.Holds items) (key : K) (value : V) :
    ∃ m', m.insert key value = some m' ∧ m'.capacity = m.capacity ∧
      m'.Holds (step m.capacity items (.insert key value)) := by
  rw [insert, step]
  by_cases hMem : key ∈ keys items
  · obtain ⟨w, hFound⟩ := Option.isSome_iff_exists.mp ((lookup_isSome key items).mpr hMem)
    rw [if_pos (hHolds.linked.mem_iff.mpr hMem), hFound]
    exact ⟨m, rfl, rfl, hHolds⟩
  · have hNew : m.next ∉ m.kl.map Prod.fst := by
      intro hOld
      obtain ⟨entry, hMember, hSame⟩ := List.mem_map.mp hOld
      exact absurd (hHolds.fresh entry hMember) (by omega)
    have hPushed := hHolds.linked.push hNew hMem (insert_lookup m.kv key · value)
      (insert_lookup m.ki key · m.next)
    have hFresh : ∀ entry ∈ (m.next, key) :: m.kl, entry.1 < m.next + 1 := by
      intro entry hMember
      rcases List.mem_cons.mp hMember with rfl | hMember
      · exact Nat.lt_succ_self _
      · exact (hHolds.fresh entry hMember).trans (Nat.lt_succ_self _)
    have hBound := hHolds.bound
    have hRoom := hHolds.room
    rw [if_neg (fun hThere => hMem (hHolds.linked.mem_iff.mp hThere)),
      (lookup_eq_none key items).mpr hMem]
    simp only [hPushed.size]
    by_cases hFull : ((key, value) :: items).length > m.capacity
    · -- The last key is dropped from the list and from both tables.
      have hLength : ((key, value) :: items).length = m.capacity + 1 := by
        rw [List.length_cons] at hFull ⊢
        omega
      obtain ⟨kept, ⟨oldest, w⟩, hItems⟩ : ∃ kept last, (key, value) :: items = kept ++ [last] :=
        ⟨_, _, (List.dropLast_append_getLast (List.cons_ne_nil (key, value) items)).symm⟩
      obtain ⟨list, ⟨node, k⟩, hList⟩ : ∃ list last, (m.next, key) :: m.kl = list ++ [last] :=
        ⟨_, _, (List.dropLast_append_getLast (List.cons_ne_nil (m.next, key) m.kl)).symm⟩
      have hCount : kept.length = m.capacity := by
        rw [hItems, List.length_append, List.length_singleton] at hLength
        omega
      rw [if_pos hFull]
      rw [hList] at hPushed hFresh ⊢
      rw [hItems] at hPushed ⊢
      have hOrder := hPushed.order
      have hNodup := hPushed.nodup
      have hAddresses := hPushed.addresses
      rw [List.map_append, keys, List.map_append] at hOrder
      rw [keys, List.map_append, List.nodup_append] at hNodup
      rw [List.map_append, List.nodup_append] at hAddresses
      have hOldest : k = oldest := (List.cons.inj (List.append_inj' hOrder rfl).2).1
      subst hOldest
      have hAbsent : k ∉ keys kept := fun hThere =>
        hNodup.2.2 k hThere k (List.mem_cons_self ..) rfl
      have hNode : node ∉ keys list := fun hThere =>
        hAddresses.2.2 node hThere node (List.mem_cons_self ..) rfl
      have hEntry : (node, k) ∈ list ++ [(node, k)] :=
        List.mem_append_right _ (List.mem_cons_self ..)
      have hRemoved := hPushed.remove hEntry (erase_lookup _ k) (erase_lookup _ k)
      rw [without_concat hAbsent] at hRemoved
      have hRest : (list ++ [(node, k)]).filter (fun entry => entry.1 ≠ node) = list :=
        without_concat hNode
      rw [hRest] at hRemoved
      rw [List.take_left' hCount, List.getLast?_concat, List.dropLast_concat]
      refine ⟨_, rfl, rfl, hRemoved, ?_, hCount.le, hRoom⟩
      exact fun entry hMember => hFresh entry (List.mem_append_left _ hMember)
    · rw [if_neg hFull]
      refine ⟨_, rfl, rfl, ?_, hFresh, ?_, hRoom⟩
      · rw [List.take_of_length_le (Nat.le_of_not_gt hFull)]
        exact hPushed
      · exact List.length_take_le _ _

end Uses

end LruMap

namespace Fast

/-- The text of a number as `snprintf` writes it into a buffer of 24 bytes; a longer one would be
copied from behind the buffer. -/
def printed (print : K → Option (List Char)) (m : LruMap K (List Char)) (v : K) :
    Option (LruMap K (List Char) × List Char) :=
  match print v with
  | some s => if s.length < 24 then do some (← m.insert v s, s) else none
  | none => some (m, [])

/-- The key of a number is its bits. The cache is made with the first number. -/
def dtoa (print : K → Option (List Char)) (cache : Option (LruMap K (List Char))) (v : K) :
    Option (LruMap K (List Char) × List Char) :=
  match cache with
  | some m => do
      let (m, found) ← m.find v
      match found with
      | some s => some (m, s)
      | none => printed print m v
  | none => printed print (.new 1024) v

def dtoaRun (print : K → Option (List Char)) (cache : Option (LruMap K (List Char))) :
    List K → Option (List (List Char))
  | [] => some []
  | v :: rest => do
      let (m, s) ← dtoa print cache v
      let texts ← dtoaRun print (some m) rest
      some (s :: texts)

section Cache

variable {print : K → Option (List Char)}

/-- The cache holds only what is printed for its keys. -/
def Caches (print : K → Option (List Char)) (m : LruMap K (List Char)) : Prop :=
  ∃ items, m.Holds items ∧ ∀ k s, (k, s) ∈ items → print k = some s

theorem printed_caches {m : LruMap K (List Char)} (hCaches : Caches print m) (v : K)
    (hBuffer : ∀ s, print v = some s → s.length < 24) :
    ∃ m', printed print m v = some (m', (print v).getD []) ∧ Caches print m' := by
  obtain ⟨items, hHolds, hTexts⟩ := hCaches
  rw [printed]
  cases hPrint : print v with
  | none => exact ⟨m, rfl, items, hHolds, hTexts⟩
  | some s =>
      obtain ⟨m', hInsert, -, hNext⟩ := LruMap.insert_holds hHolds v s
      refine ⟨m', ?_, _, hNext, ?_⟩
      · show (if s.length < 24 then _ else none) = _
        rw [if_pos (hBuffer s hPrint), hInsert]
        rfl
      · intro k t hMem
        rcases mem_step hMem with hOld | hNew
        · exact hTexts k t hOld
        · cases hNew
          exact hPrint

theorem dtoa_caches {cache : Option (LruMap K (List Char))}
    (hCaches : ∀ m, cache = some m → Caches print m) (v : K)
    (hBuffer : ∀ s, print v = some s → s.length < 24) :
    ∃ m', dtoa print cache v = some (m', (print v).getD []) ∧ Caches print m' := by
  cases cache with
  | none =>
      refine printed_caches ⟨[], LruMap.new_holds 1024, ?_⟩ v hBuffer
      exact fun k s hMem => absurd hMem List.not_mem_nil
  | some m =>
      obtain ⟨items, hHolds, hTexts⟩ := hCaches m rfl
      obtain ⟨m', hFind, -, hNext⟩ := LruMap.find_holds hHolds v
      have hCaches' : Caches print m' := by
        refine ⟨_, hNext, fun k s hMem => ?_⟩
        rcases mem_step hMem with hOld | hNew
        · exact hTexts k s hOld
        · cases hNew
      rw [dtoa, hFind]
      cases hFound : items.lookup v with
      | none => exact printed_caches hCaches' v hBuffer
      | some s =>
          rw [hTexts v s (mem_of_lookup hFound)]
          exact ⟨m', rfl, hCaches'⟩

/-- The cache cannot be seen: every number gets the text that is printed for it, also when its
key has been evicted or is there from an earlier number. -/
theorem dtoa_run (print : K → Option (List Char))
    (hBuffer : ∀ v s, print v = some s → s.length < 24) (vs : List K) :
    dtoaRun print none vs = some (vs.map fun v => (print v).getD []) := by
  have hRun : ∀ cache : Option (LruMap K (List Char)),
      (∀ m, cache = some m → Caches print m) →
      dtoaRun print cache vs = some (vs.map fun v => (print v).getD []) := by
    induction vs with
    | nil => exact fun cache hCaches => rfl
    | cons v vs ih =>
        intro cache hCaches
        obtain ⟨m, hText, hNext⟩ := dtoa_caches hCaches v (hBuffer v)
        rw [dtoaRun, hText]
        simp only [Option.bind_eq_bind, Option.bind_some]
        rw [ih (some m) (fun m' hSame => Option.some.inj hSame ▸ hNext)]
        rfl
  exact hRun none fun m hNone => nomatch hNone

theorem dtoa_run_sample :
    dtoaRun (fun bit : Bool => some [if bit then '1' else '0']) none [true, false, true] =
      some [['1'], ['0'], ['1']] := by
  refine dtoa_run _ (fun v s hPrint => ?_) [true, false, true]
  cases hPrint
  show 1 < 24
  decide

end Cache

end Fast

end Hengda
