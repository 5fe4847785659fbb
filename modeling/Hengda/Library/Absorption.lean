import Mathlib.Data.List.Forall2
import Mathlib.Data.List.Perm.Basic

/-! Items that are absorbed one after the other by a growing list of slots.
Each item either fills an open slot, which closes it, or brings a closed slot
of its own. Which open slot is taken is left to the caller, so the facts below
hold for every matching strategy. -/
namespace Absorption

structure Rules (Slot Item : Type*) where
  isOpen : Slot → Bool
  fill : Slot → Item → Slot
  fresh : Item → Slot
  fill_closed : ∀ slot item, isOpen (fill slot item) = false
  fresh_closed : ∀ item, isOpen (fresh item) = false

variable {Slot Item : Type*} (rules : Rules Slot Item)

inductive Absorbs (slots : List Slot) (item : Item) : List Slot → Prop where
  | fill {k : Nat} {slot : Slot} (position : slots[k]? = some slot)
      (isOpen : rules.isOpen slot = true) :
      Absorbs slots item (slots.set k (rules.fill slot item))
  | fresh : Absorbs slots item (slots ++ [rules.fresh item])

inductive AbsorbsAll : List Slot → List Item → List Slot → Prop where
  | nil (slots : List Slot) : AbsorbsAll slots [] slots
  | cons {start middle final : List Slot} {item : Item} {items : List Item}
      (first : Absorbs rules start item middle) (rest : AbsorbsAll middle items final) :
      AbsorbsAll start (item :: items) final

/-- Where one item ended up: in a slot that was open at the start, or in a
slot of its own behind the ones that were there. -/
def Placed (start final : List Slot) (item : Item) (k : Nat) : Prop :=
  (∃ slot, start[k]? = some slot ∧ rules.isOpen slot = true ∧
    final[k]? = some (rules.fill slot item)) ∨
  (start.length ≤ k ∧ final[k]? = some (rules.fresh item))

/-- The items occupy distinct positions and every other position is as it was
at the start. In particular no slot appears that no item asked for. -/
structure Placement (start : List Slot) (items : List Item) (final : List Slot)
    (place : List Nat) : Prop where
  nodup : place.Nodup
  placed : List.Forall₂ (Placed rules start final) items place
  others : ∀ k, k ∉ place → final[k]? = start[k]?

variable {rules}

theorem Absorbs.length_le {slots after : List Slot} {item : Item}
    (absorbed : Absorbs rules slots item after) : slots.length ≤ after.length := by
  cases absorbed with
  | fill => simp
  | fresh => simp

/-- One item takes one position, at which the slot is closed afterwards, and
leaves all other positions alone. -/
theorem Absorbs.position {slots after : List Slot} {item : Item}
    (absorbed : Absorbs rules slots item after) :
    ∃ k slot, after[k]? = some slot ∧ rules.isOpen slot = false ∧
      (∀ j, j ≠ k → after[j]? = slots[j]?) ∧
      ((∃ old, slots[k]? = some old ∧ rules.isOpen old = true ∧ slot = rules.fill old item) ∨
        (k = slots.length ∧ slot = rules.fresh item)) := by
  cases absorbed with
  | @fill k old position isOpen =>
      have hLength : k < slots.length := (List.getElem?_eq_some_iff.mp position).1
      refine ⟨k, rules.fill old item, by simp [hLength], rules.fill_closed _ _, ?_,
        Or.inl ⟨old, position, isOpen, rfl⟩⟩
      intro j hj
      exact List.getElem?_set_ne (Ne.symm hj)
  | fresh =>
      refine ⟨slots.length, rules.fresh item, by simp, rules.fresh_closed _, ?_,
        Or.inr ⟨rfl, rfl⟩⟩
      intro j hj
      by_cases hLess : j < slots.length
      · exact List.getElem?_append_left hLess
      · rw [List.getElem?_eq_none (by simp; omega), List.getElem?_eq_none (by omega)]

/-- A closed slot is never touched again. -/
theorem Placement.closed {start final : List Slot} {items : List Item} {place : List Nat}
    (placement : Placement rules start items final place) {k : Nat} {slot : Slot}
    (position : start[k]? = some slot) (closed : rules.isOpen slot = false) : k ∉ place := by
  intro mem
  obtain ⟨item, placed⟩ : ∃ item, Placed rules start final item k := by
    obtain ⟨n, hn, rfl⟩ := List.getElem_of_mem mem
    have hItem : n < items.length := by rw [placement.placed.length_eq]; exact hn
    exact ⟨items[n], (List.forall₂_iff_get.mp placement.placed).2 n hItem hn⟩
  rcases placed with ⟨old, hOld, isOpen, _⟩ | ⟨hLength, _⟩
  · rw [position] at hOld
    cases hOld
    rw [closed] at isOpen
    cases isOpen
  · rw [List.getElem?_eq_none hLength] at position
    cases position

/-- Absorbing a list of items is an injection from the items to the slots. -/
theorem AbsorbsAll.placement {start final : List Slot} {items : List Item}
    (absorbed : AbsorbsAll rules start items final) :
    ∃ place, Placement rules start items final place := by
  induction absorbed with
  | nil slots => exact ⟨[], by simp, .nil, fun _ _ => rfl⟩
  | @cons start middle final item items first rest ih =>
      obtain ⟨place, placement⟩ := ih
      obtain ⟨k, slot, hSlot, closed, hOthers, hKind⟩ := first.position
      have hNotMem : k ∉ place := placement.closed hSlot closed
      have hFinal : final[k]? = some slot := (placement.others k hNotMem).trans hSlot
      have hLength := first.length_le
      refine ⟨k :: place, List.nodup_cons.mpr ⟨hNotMem, placement.nodup⟩, ?_, ?_⟩
      · refine .cons ?_ ?_
        · rcases hKind with ⟨old, hOld, isOpen, rfl⟩ | ⟨rfl, rfl⟩
          · exact Or.inl ⟨old, hOld, isOpen, hFinal⟩
          · exact Or.inr ⟨Nat.le_refl _, hFinal⟩
        · refine List.forall₂_iff_get.mpr ⟨placement.placed.length_eq, ?_⟩
          intro n hItem hPlace
          have hNe : place[n] ≠ k := fun h => hNotMem (h ▸ List.getElem_mem hPlace)
          rcases (List.forall₂_iff_get.mp placement.placed).2 n hItem hPlace with
            ⟨old, hOld, isOpen, hFill⟩ | ⟨hBehind, hFresh⟩
          · exact Or.inl ⟨old, (hOthers _ hNe).symm.trans hOld, isOpen, hFill⟩
          · exact Or.inr ⟨Nat.le_trans hLength hBehind, hFresh⟩
      · intro j hj
        rw [List.mem_cons, not_or] at hj
        exact (placement.others j hj.2).trans (hOthers j hj.1)

/-- A slot that is closed at some point stays as it is from then on. -/
theorem AbsorbsAll.closed_stays {start final : List Slot} {items : List Item}
    (absorbed : AbsorbsAll rules start items final) {k : Nat} {slot : Slot}
    (position : start[k]? = some slot) (closed : rules.isOpen slot = false) :
    final[k]? = some slot := by
  obtain ⟨place, placement⟩ := absorbed.placement
  rw [placement.others k (placement.closed position closed)]
  exact position

section Keys

variable {Key : Type*} (slotKey : Slot → Key) (itemKey : Item → Key)

/-- The keys of the slots that are closed, in list order. -/
def closedKeys (rules : Rules Slot Item) (slots : List Slot) : List Key :=
  (slots.filter (fun slot => !rules.isOpen slot)).map slotKey

theorem Absorbs.closedKeys_perm (hFill : ∀ slot item, slotKey (rules.fill slot item) = itemKey item)
    (hFresh : ∀ item, slotKey (rules.fresh item) = itemKey item)
    {slots after : List Slot} {item : Item} (absorbed : Absorbs rules slots item after) :
    (closedKeys slotKey rules after).Perm (itemKey item :: closedKeys slotKey rules slots) := by
  cases absorbed with
  | @fill k old position isOpen =>
      obtain ⟨hLength, hGet⟩ := List.getElem?_eq_some_iff.mp position
      have hSplit : slots = slots.take k ++ old :: slots.drop (k + 1) := by
        rw [← hGet, List.getElem_cons_drop, List.take_append_drop]
      rw [List.set_eq_take_append_cons_drop, if_pos hLength]
      conv_rhs => rw [hSplit]
      simp only [closedKeys, List.filter_append, List.map_append, List.filter_cons, isOpen,
        rules.fill_closed, Bool.not_true, Bool.not_false, Bool.false_eq_true, if_true, if_false,
        List.map_cons, hFill]
      exact List.perm_middle
  | fresh =>
      simp only [closedKeys, List.filter_append, List.map_append, List.filter_cons,
        rules.fresh_closed, Bool.not_false, if_true, List.filter_nil, List.map_cons, List.map_nil,
        hFresh]
      exact List.perm_append_singleton _ _

/-- The closed slots at the end carry the keys of the items and of the slots
that were closed before, each exactly as often. -/
theorem AbsorbsAll.closedKeys_perm
    (hFill : ∀ slot item, slotKey (rules.fill slot item) = itemKey item)
    (hFresh : ∀ item, slotKey (rules.fresh item) = itemKey item)
    {start final : List Slot} {items : List Item} (absorbed : AbsorbsAll rules start items final) :
    (closedKeys slotKey rules final).Perm
      (items.map itemKey ++ closedKeys slotKey rules start) := by
  induction absorbed with
  | nil slots => exact List.Perm.refl _
  | cons first rest ih =>
      refine ih.trans
        (((first.closedKeys_perm slotKey itemKey hFill hFresh).append_left _).trans ?_)
      exact List.perm_middle

end Keys

section Counting

variable {p : Slot → Bool}

theorem Absorbs.countP_le {slots after : List Slot} {item : Item}
    (absorbed : Absorbs rules slots item after) :
    after.countP p ≤ slots.countP p + 1 := by
  cases absorbed with
  | @fill k old position isOpen =>
      obtain ⟨hLength, _⟩ := List.getElem?_eq_some_iff.mp position
      rw [List.countP_set hLength]
      split_ifs <;> omega
  | fresh =>
      rw [List.countP_append, List.countP_singleton]
      split_ifs <;> omega

/-- No property gains more slots than there are items. -/
theorem AbsorbsAll.countP_le {start final : List Slot} {items : List Item}
    (absorbed : AbsorbsAll rules start items final) :
    final.countP p ≤ start.countP p + items.length := by
  induction absorbed with
  | nil => simp
  | cons first _ ih =>
      have hFirst := first.countP_le (p := p)
      simp only [List.length_cons]
      omega

/-- A property that no absorbing slot has gains no slot at all. -/
theorem AbsorbsAll.countP_le_of_not (hFill : ∀ slot item, p (rules.fill slot item) = false)
    (hFresh : ∀ item, p (rules.fresh item) = false) {start final : List Slot} {items : List Item}
    (absorbed : AbsorbsAll rules start items final) : final.countP p ≤ start.countP p := by
  induction absorbed with
  | nil => exact Nat.le_refl _
  | @cons start middle final item items first _ ih =>
      refine Nat.le_trans ih ?_
      cases first with
      | @fill k old position isOpen =>
          obtain ⟨hLength, _⟩ := List.getElem?_eq_some_iff.mp position
          rw [List.countP_set hLength, hFill]
          simp
      | fresh => simp [List.countP_append, hFresh]

/-- What holds of every slot before and of every absorbing slot holds of every
slot afterwards. -/
theorem AbsorbsAll.forall_mem {motive : Slot → Prop} {start final : List Slot}
    {items : List Item} (absorbed : AbsorbsAll rules start items final)
    (initial : ∀ slot ∈ start, motive slot)
    (hFill : ∀ slot, motive slot → ∀ item ∈ items, motive (rules.fill slot item))
    (hFresh : ∀ item ∈ items, motive (rules.fresh item)) :
    ∀ slot ∈ final, motive slot := by
  induction absorbed with
  | nil => exact initial
  | @cons start middle final item items first _ ih =>
      refine ih ?_ (fun slot h other mem => hFill slot h other (List.mem_cons_of_mem _ mem))
        (fun other mem => hFresh other (List.mem_cons_of_mem _ mem))
      intro slot mem
      cases first with
      | @fill k old position isOpen =>
          rcases List.mem_or_eq_of_mem_set mem with mem | rfl
          · exact initial slot mem
          · exact hFill old (initial old (List.mem_of_getElem? position)) item (by simp)
      | fresh =>
          rcases List.mem_append.mp mem with mem | mem
          · exact initial slot mem
          · rw [List.mem_singleton.mp mem]
            exact hFresh item (by simp)

/-- Every slot at the end is one from the start, or an item in an open slot from
the start, or an item in a slot of its own. -/
theorem AbsorbsAll.origin {start final : List Slot} {items : List Item}
    (absorbed : AbsorbsAll rules start items final) {slot : Slot} (mem : slot ∈ final) :
    slot ∈ start ∨
      (∃ old ∈ start, rules.isOpen old = true ∧ ∃ item ∈ items, slot = rules.fill old item) ∨
      ∃ item ∈ items, slot = rules.fresh item := by
  induction absorbed with
  | nil => exact Or.inl mem
  | @cons start middle final item items first _ ih =>
      have hMiddle : ∀ other ∈ middle, other ∈ start ∨
          (rules.isOpen other = false ∧
            ((∃ old ∈ start, rules.isOpen old = true ∧ other = rules.fill old item) ∨
              other = rules.fresh item)) := by
        intro other hOther
        cases first with
        | @fill k old position isOpen =>
            rcases List.mem_or_eq_of_mem_set hOther with hOther | rfl
            · exact Or.inl hOther
            · exact Or.inr ⟨rules.fill_closed old item,
                Or.inl ⟨old, List.mem_of_getElem? position, isOpen, rfl⟩⟩
        | fresh =>
            rcases List.mem_append.mp hOther with hOther | hOther
            · exact Or.inl hOther
            · rw [List.mem_singleton.mp hOther]
              exact Or.inr ⟨rules.fresh_closed item, Or.inr rfl⟩
      rcases ih mem with hHere | ⟨old, hOld, hOpen, other, hItem, rfl⟩ | ⟨other, hItem, rfl⟩
      · rcases hMiddle slot hHere with hStart | ⟨_, ⟨old, hOld, hOpen, rfl⟩ | rfl⟩
        · exact Or.inl hStart
        · exact Or.inr (Or.inl ⟨old, hOld, hOpen, item, by simp, rfl⟩)
        · exact Or.inr (Or.inr ⟨item, by simp, rfl⟩)
      · rcases hMiddle old hOld with hStart | ⟨hClosed, _⟩
        · exact Or.inr (Or.inl ⟨old, hStart, hOpen, other, List.mem_cons_of_mem _ hItem, rfl⟩)
        · rw [hOpen] at hClosed
          cases hClosed
      · exact Or.inr (Or.inr ⟨other, List.mem_cons_of_mem _ hItem, rfl⟩)

/-- Slots that fall into `n` classes of at most `bound` members each. -/
theorem length_le_of_countP_le (key : Slot → Nat) {n bound : Nat} {slots : List Slot}
    (keys : ∀ slot ∈ slots, key slot < n)
    (classes : ∀ k < n, slots.countP (fun slot => key slot = k) ≤ bound) :
    slots.length ≤ n * bound := by
  induction n generalizing slots with
  | zero =>
      cases slots with
      | nil => exact Nat.zero_le _
      | cons slot rest => exact absurd (keys slot (by simp)) (Nat.not_lt_zero _)
  | succ n ih =>
      have hSplit : slots.length = slots.countP (fun slot => key slot = n) +
          slots.countP (fun slot => !decide (key slot = n)) := by
        rw [List.length_eq_countP_add_countP (fun slot => decide (key slot = n))]
        simp
      have hRest : (slots.filter (fun slot => !decide (key slot = n))).length ≤ n * bound := by
        apply ih
        · intro slot mem
          obtain ⟨mem, hNe⟩ := List.mem_filter.mp mem
          have hLess := keys slot mem
          have hNe : key slot ≠ n := by simpa using hNe
          omega
        · intro k hk
          rw [List.countP_filter]
          refine Nat.le_trans (List.countP_mono_left ?_) (classes k (Nat.lt_succ_of_lt hk))
          intro slot _ h
          exact (Bool.and_eq_true _ _ ▸ h : _ ∧ _).1
      have hLast := classes n (Nat.lt_succ_self n)
      rw [← List.countP_eq_length_filter] at hRest
      rw [Nat.succ_mul]
      omega

end Counting
end Absorption
