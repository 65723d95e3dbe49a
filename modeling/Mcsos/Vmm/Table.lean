import Mcsos.Machine.SlotTable
import Mcsos.Vmm.Model

/-!
The mapping table as an array of slots that hold a page address or are free,
and what each operation does to it. The later modules use the descriptions
here and never the loops.
-/

namespace Mcsos.Vmm

open Mcsos.Machine

/-- What the entries hold, as far as the searches are concerned. -/
def held (mappings : Mappings) : Nat → Option UInt64 :=
  fun i => if (mappings i).used then some (mappings i).virt else none

/-- The pages that are mapped at most once. -/
def Single (mappings : Mappings) (virt : UInt64) : Prop :=
  AtMostOnce (held mappings) mappingCount (some virt)

/-- How many entries are in use. -/
def usedEntries (mappings : Mappings) : Nat := (slotsInUse (held mappings) mappingCount).card

/-- The address checks of `vmm_map_page`. -/
def Mappable (virt phys : UInt64) : Prop :=
  vmmIsCanonical virt = true ∧ virt &&& 0xFFF = 0 ∧ phys &&& 0xFFF = 0

instance (virt phys : UInt64) : Decidable (Mappable virt phys) :=
  inferInstanceAs (Decidable (_ ∧ _))

theorem freeEntry_eq (mappings : Mappings) :
    freeEntry mappings = slotOf (held mappings) mappingCount none := by
  unfold freeEntry slotOf
  congr 1
  funext i
  cases used : (mappings i).used <;> simp [held, used]

theorem entryOf_eq (mappings : Mappings) (virt : UInt64) :
    entryOf mappings virt = slotOf (held mappings) mappingCount (some virt) := by
  unfold entryOf slotOf
  congr 1
  funext i
  cases used : (mappings i).used with
  | false => simp [held, used]
  | true =>
      rw [Bool.true_and, Bool.eq_iff_iff, beq_iff_eq]
      simp [held, used]

theorem held_eq_some_iff {mappings : Mappings} {i : Nat} {virt : UInt64} :
    held mappings i = some virt ↔ (mappings i).used = true ∧ (mappings i).virt = virt := by
  unfold held
  split
  next used => simp [used]
  next unused => simp [unused]

/-- The table with an entry taken for a page. -/
def withPage (mappings : Mappings) (i : Nat) (virt : UInt64) (page : Page) : Mappings :=
  Function.update mappings i ⟨virt, page.phys, page.flags, true⟩

/-- The table with an entry given up. -/
def withoutEntry (mappings : Mappings) (i : Nat) : Mappings :=
  Function.update mappings i { mappings i with used := false }

theorem held_withPage (mappings : Mappings) (i : Nat) (virt : UInt64) (page : Page) :
    held (withPage mappings i virt page) = Function.update (held mappings) i (some virt) := by
  funext position
  by_cases here : position = i
  · simp [held, withPage, here]
  · simp [held, withPage, here]

theorem held_withoutEntry (mappings : Mappings) (i : Nat) :
    held (withoutEntry mappings i) = Function.update (held mappings) i none := by
  funext position
  by_cases here : position = i
  · simp [held, withoutEntry, here]
  · simp [held, withoutEntry, here]

/-! ### The operations, by cases -/

section

variable (space : Space) (virt phys flags : UInt64) (mappings : Mappings)

theorem vmmMapPage_refused (refused : ¬ (Mappable virt phys ∧ freeEntry mappings ≠ none)) :
    vmmMapPage space virt phys flags mappings = (false, mappings) := by
  unfold vmmMapPage
  split
  · rfl
  next canonical =>
    split
    · rfl
    next aligned =>
      split
      · rfl
      next physAligned =>
        have mappable : Mappable virt phys :=
          ⟨by simpa using canonical, not_not.mp aligned, not_not.mp physAligned⟩
        have full : freeEntry mappings = none := by
          by_contra space
          exact refused ⟨mappable, space⟩
        rw [full]

theorem vmmMapPage_accepted {i : Nat} (mappable : Mappable virt phys)
    (free : freeEntry mappings = some i) :
    vmmMapPage space virt phys flags mappings =
      (true, withPage mappings i virt ⟨phys, flags ||| vmmPresent⟩) := by
  obtain ⟨canonical, aligned, physAligned⟩ := mappable
  simp only [vmmMapPage, canonical, aligned, physAligned, free, withPage]
  rfl

/-- A page is mapped in a free entry, or nothing happens. -/
theorem vmmMapPage_cases :
    (¬ (Mappable virt phys ∧ freeEntry mappings ≠ none) ∧
        vmmMapPage space virt phys flags mappings = (false, mappings)) ∨
      ∃ i, Mappable virt phys ∧ freeEntry mappings = some i ∧
        vmmMapPage space virt phys flags mappings =
          (true, withPage mappings i virt ⟨phys, flags ||| vmmPresent⟩) := by
  by_cases refused : Mappable virt phys ∧ freeEntry mappings ≠ none
  · right
    obtain ⟨i, free⟩ := Option.ne_none_iff_exists'.mp refused.2
    exact ⟨i, refused.1, free, vmmMapPage_accepted space virt phys flags mappings refused.1 free⟩
  · left
    exact ⟨refused, vmmMapPage_refused space virt phys flags mappings refused⟩

/-- The first entry of a page is given up, or nothing happens. -/
theorem vmmUnmapPage_cases :
    (entryOf mappings virt = none ∧ vmmUnmapPage space virt mappings = (false, mappings)) ∨
      ∃ i, entryOf mappings virt = some i ∧
        vmmUnmapPage space virt mappings = (true, withoutEntry mappings i) := by
  unfold vmmUnmapPage
  cases found : entryOf mappings virt with
  | none => exact Or.inl ⟨rfl, rfl⟩
  | some i => exact Or.inr ⟨i, rfl, rfl⟩

theorem vmmQueryPage_eq_none_iff :
    vmmQueryPage space virt mappings = none ↔ entryOf mappings virt = none := by
  rw [vmmQueryPage, Option.map_eq_none_iff]

end

/-! ### What a change means to the queries -/

section

variable {mappings : Mappings} {i : Nat} {virt : UInt64}

theorem free_entry_facts (free : freeEntry mappings = some i) :
    held mappings i = none ∧ i < mappingCount := by
  rw [freeEntry_eq, slotOf_eq_some_iff] at free
  exact ⟨free.1, free.2.1⟩

theorem entry_facts (found : entryOf mappings virt = some i) :
    held mappings i = some virt ∧ i < mappingCount := by
  rw [entryOf_eq, slotOf_eq_some_iff] at found
  exact ⟨found.1, found.2.1⟩

/-- A change of an entry that is for another page before and after. -/
theorem query_update_other (space : Space) {other : UInt64} {mapping : VmmMapping}
    (before : held mappings i ≠ some other)
    (after : held (Function.update mappings i mapping) i ≠ some other) :
    vmmQueryPage space other (Function.update mappings i mapping) =
      vmmQueryPage space other mappings := by
  have view : held (Function.update mappings i mapping) =
      Function.update (held mappings) i (held (Function.update mappings i mapping) i) := by
    funext position
    by_cases here : position = i
    · rw [here, Function.update_self]
    · simp [held, Function.update_of_ne here]
  have search : entryOf (Function.update mappings i mapping) other = entryOf mappings other := by
    rw [entryOf_eq, entryOf_eq, view]
    exact slotOf_update_other before after
  rw [vmmQueryPage, vmmQueryPage, search]
  cases found : entryOf mappings other with
  | none => rfl
  | some j =>
      have elsewhere : j ≠ i := by
        intro same
        rw [← same] at before
        exact before (entry_facts found).1
      simp only [Option.map_some, Function.update_of_ne elsewhere]

theorem query_withPage_other (space : Space) {other : UInt64} (page : Page)
    (free : held mappings i = none) (different : other ≠ virt) :
    vmmQueryPage space other (withPage mappings i virt page) =
      vmmQueryPage space other mappings := by
  apply query_update_other
  · rw [free]
    simp
  · have own := congrFun (held_withPage mappings i virt page) i
    rw [withPage, Function.update_self] at own
    rw [own]
    simpa using different.symm

theorem query_withPage_self (space : Space) (page : Page) (inside : i < mappingCount)
    (absent : entryOf mappings virt = none) :
    vmmQueryPage space virt (withPage mappings i virt page) = some page := by
  have found : entryOf (withPage mappings i virt page) virt = some i := by
    rw [entryOf_eq] at absent ⊢
    rw [held_withPage]
    exact slotOf_update_self absent inside
  rw [vmmQueryPage, found, Option.map_some]
  simp [withPage, VmmMapping.page]

theorem query_withoutEntry_other (space : Space) {other : UInt64}
    (holds : held mappings i = some virt) (different : other ≠ virt) :
    vmmQueryPage space other (withoutEntry mappings i) = vmmQueryPage space other mappings := by
  apply query_update_other
  · rw [holds]
    simpa using different.symm
  · have own := congrFun (held_withoutEntry mappings i) i
    rw [withoutEntry, Function.update_self] at own
    rw [own]
    simp

theorem query_withoutEntry_self (space : Space) (single : Single mappings virt)
    (found : entryOf mappings virt = some i) :
    vmmQueryPage space virt (withoutEntry mappings i) = none := by
  rw [vmmQueryPage_eq_none_iff, entryOf_eq, held_withoutEntry]
  rw [entryOf_eq] at found
  exact single.slotOf_release found (by simp)

theorem Single.withPage_other {other : UInt64} (single : Single mappings other) (page : Page)
    (different : other ≠ virt) : Single (withPage mappings i virt page) other := by
  rw [Single, held_withPage]
  exact AtMostOnce.update_other single (by simpa using different.symm)

theorem single_withPage_self (absent : entryOf mappings virt = none) (page : Page) :
    Single (withPage mappings i virt page) virt := by
  rw [Single, held_withPage]
  rw [entryOf_eq] at absent
  exact atMostOnce_update_self absent

theorem Single.withoutEntry {other : UInt64} (single : Single mappings other) (i : Nat) :
    Single (withoutEntry mappings i) other := by
  rw [Single, held_withoutEntry]
  exact AtMostOnce.update_other single (by simp)

theorem usedEntries_withPage (free : freeEntry mappings = some i) (page : Page) :
    usedEntries (withPage mappings i virt page) = usedEntries mappings + 1 := by
  obtain ⟨unused, inside⟩ := free_entry_facts free
  rw [usedEntries, held_withPage]
  exact slotsInUse_take unused inside virt

theorem usedEntries_withoutEntry (found : entryOf mappings virt = some i) :
    usedEntries (withoutEntry mappings i) + 1 = usedEntries mappings := by
  obtain ⟨holds, inside⟩ := entry_facts found
  rw [usedEntries, held_withoutEntry]
  exact slotsInUse_release (by simp [holds]) inside

theorem freeEntry_ne_none_iff : freeEntry mappings ≠ none ↔ usedEntries mappings < mappingCount := by
  have bounded : usedEntries mappings ≤ mappingCount := slotsInUse_card_le _ _
  rw [Ne, freeEntry_eq, slotOf_free_eq_none_iff]
  show usedEntries mappings ≠ mappingCount ↔ _
  omega

end

end Mcsos.Vmm
