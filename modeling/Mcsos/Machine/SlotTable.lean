import Mathlib.Data.Finset.Card
import Mathlib.Data.List.Nodup

/-!
Owns arrays of slots that are taken and released in any order. A slot holds a
key or is free, and one search serves both: the first slot that holds a key,
and the first free one.

Nothing forbids a key in two slots. `AtMostOnce` says that a key has one, which
is what a release needs in order to remove the key.
-/

namespace Mcsos.Machine

variable {κ : Type} [DecidableEq κ]

/-- The first of `capacity` slots that holds this; `none` is the first free
slot. -/
def slotOf (slots : Nat → Option κ) (capacity : Nat) (held : Option κ) : Option Nat :=
  (List.range capacity).find? fun index => slots index = held

/-- At most one slot holds this. -/
def AtMostOnce (slots : Nat → Option κ) (capacity : Nat) (held : Option κ) : Prop :=
  ∀ first < capacity, ∀ second < capacity, slots first = held → slots second = held →
    first = second

/-- The slots in use. -/
def slotsInUse (slots : Nat → Option κ) (capacity : Nat) : Finset Nat :=
  (Finset.range capacity).filter fun index => slots index ≠ none

/-! ### The search -/

section

variable {slots : Nat → Option κ} {capacity index : Nat} {held : Option κ}

theorem slotOf_eq_some_iff :
    slotOf slots capacity held = some index ↔
      slots index = held ∧ index < capacity ∧ ∀ earlier < index, slots earlier ≠ held := by
  simp [slotOf, List.find?_range_eq_some]

theorem slotOf_eq_none_iff :
    slotOf slots capacity held = none ↔ ∀ index < capacity, slots index ≠ held := by
  simp [slotOf]

/-- A slot that neither held this nor holds it now does not matter to the
search. -/
theorem slotOf_update_other {replacement : Option κ} (before : slots index ≠ held)
    (after : replacement ≠ held) :
    slotOf (Function.update slots index replacement) capacity held = slotOf slots capacity held := by
  unfold slotOf
  congr 1
  funext position
  by_cases here : position = index
  · rw [here, Function.update_self, decide_eq_false after, decide_eq_false before]
  · rw [Function.update_of_ne here]

/-- The only slot that holds this is found. -/
theorem slotOf_update_self (absent : slotOf slots capacity held = none) (inside : index < capacity) :
    slotOf (Function.update slots index held) capacity held = some index := by
  rw [slotOf_eq_some_iff]
  refine ⟨Function.update_self .., inside, ?_⟩
  intro earlier before
  rw [Function.update_of_ne (Nat.ne_of_lt before)]
  exact slotOf_eq_none_iff.mp absent earlier (Nat.lt_trans before inside)

/-! ### Keys with one slot -/

theorem atMostOnce_of_absent (absent : slotOf slots capacity held = none) :
    AtMostOnce slots capacity held := by
  intro first inside _ _ holds _
  exact absurd holds (slotOf_eq_none_iff.mp absent first inside)

/-- Releasing the one slot of a key removes the key. -/
theorem AtMostOnce.slotOf_release (once : AtMostOnce slots capacity held)
    (found : slotOf slots capacity held = some index) {replacement : Option κ}
    (after : replacement ≠ held) :
    slotOf (Function.update slots index replacement) capacity held = none := by
  rcases slotOf_eq_some_iff.mp found with ⟨holds, inside, -⟩
  rw [slotOf_eq_none_iff]
  intro position below
  by_cases here : position = index
  · rw [here, Function.update_self]
    exact after
  · rw [Function.update_of_ne here]
    intro again
    exact here (once position below index inside again holds)

omit [DecidableEq κ] in
/-- A change that puts this into no further slot keeps it in at most one. -/
theorem AtMostOnce.update_other (once : AtMostOnce slots capacity held) {replacement : Option κ}
    (after : replacement ≠ held) :
    AtMostOnce (Function.update slots index replacement) capacity held := by
  have old : ∀ position, Function.update slots index replacement position = held →
      slots position = held := by
    intro position holds
    by_cases here : position = index
    · rw [here, Function.update_self] at holds
      exact absurd holds after
    · rwa [Function.update_of_ne here] at holds
  intro first firstInside second secondInside firstHolds secondHolds
  exact once first firstInside second secondInside (old first firstHolds) (old second secondHolds)

theorem atMostOnce_update_self (absent : slotOf slots capacity held = none) :
    AtMostOnce (Function.update slots index held) capacity held := by
  have only : ∀ position < capacity, Function.update slots index held position = held →
      position = index := by
    intro position inside holds
    by_contra elsewhere
    rw [Function.update_of_ne elsewhere] at holds
    exact slotOf_eq_none_iff.mp absent position inside holds
  intro first firstInside second secondInside firstHolds secondHolds
  rw [only first firstInside firstHolds, only second secondInside secondHolds]

/-! ### How many slots are in use -/

theorem slotOf_free_eq_none_iff :
    slotOf slots capacity none = none ↔ (slotsInUse slots capacity).card = capacity := by
  rw [slotOf_eq_none_iff]
  constructor
  · intro taken
    have all : slotsInUse slots capacity = Finset.range capacity :=
      Finset.filter_true_of_mem fun index inside => taken index (Finset.mem_range.mp inside)
    rw [all, Finset.card_range]
  · intro full index inside
    have all : slotsInUse slots capacity = Finset.range capacity :=
      Finset.eq_of_subset_of_card_le (Finset.filter_subset _ _) (by rw [full, Finset.card_range])
    have member : index ∈ slotsInUse slots capacity := by
      rw [all]
      exact Finset.mem_range.mpr inside
    exact (Finset.mem_filter.mp member).2

omit [DecidableEq κ] in
theorem slotsInUse_card_le (slots : Nat → Option κ) (capacity : Nat) :
    (slotsInUse slots capacity).card ≤ capacity := by
  have subset : (slotsInUse slots capacity).card ≤ (Finset.range capacity).card :=
    Finset.card_le_card (Finset.filter_subset _ _)
  rwa [Finset.card_range] at subset

omit [DecidableEq κ] in
theorem slotsInUse_take (free : slots index = none) (inside : index < capacity) (key : κ) :
    (slotsInUse (Function.update slots index (some key)) capacity).card =
      (slotsInUse slots capacity).card + 1 := by
  have inserted : slotsInUse (Function.update slots index (some key)) capacity =
      insert index (slotsInUse slots capacity) := by
    ext position
    by_cases here : position = index
    · simp [slotsInUse, here, inside]
    · simp [slotsInUse, here]
  have fresh : index ∉ slotsInUse slots capacity := by simp [slotsInUse, free]
  rw [inserted, Finset.card_insert_of_notMem fresh]

omit [DecidableEq κ] in
theorem slotsInUse_release (taken : slots index ≠ none) (inside : index < capacity) :
    (slotsInUse (Function.update slots index none) capacity).card + 1 =
      (slotsInUse slots capacity).card := by
  have erased : slotsInUse (Function.update slots index none) capacity =
      (slotsInUse slots capacity).erase index := by
    ext position
    by_cases here : position = index
    · simp [slotsInUse, here]
    · simp [slotsInUse, here]
  have member : index ∈ slotsInUse slots capacity := by simp [slotsInUse, inside, taken]
  rw [erased, Finset.card_erase_add_one member]

/-- Different keys are in different slots. -/
theorem card_le_slotsInUse {keys : Finset κ}
    (present : ∀ key ∈ keys, slotOf slots capacity (some key) ≠ none) :
    keys.card ≤ (slotsInUse slots capacity).card := by
  have covered : keys.image some ⊆ (slotsInUse slots capacity).image slots := by
    intro held member
    rcases Finset.mem_image.mp member with ⟨key, isKey, same⟩
    rcases Option.ne_none_iff_exists'.mp (present key isKey) with ⟨index, found⟩
    rcases slotOf_eq_some_iff.mp found with ⟨holds, inside, -⟩
    rw [Finset.mem_image]
    refine ⟨index, ?_, holds.trans same⟩
    simp [slotsInUse, inside, holds]
  calc
    keys.card = (keys.image some).card :=
      (Finset.card_image_of_injective keys (Option.some_injective κ)).symm
    _ ≤ ((slotsInUse slots capacity).image slots).card := Finset.card_le_card covered
    _ ≤ (slotsInUse slots capacity).card := Finset.card_image_le

end

end Mcsos.Machine
