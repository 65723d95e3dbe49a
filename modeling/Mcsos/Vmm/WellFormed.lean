import Mcsos.Vmm.Refinement

/-!
Contract: which pages the mapping table answers queries for.

Paging compares the bits 63 to 47 of an address; `vmm_is_canonical` stops at
bit 48. A page on the wrong side of bit 47 is entered and found like any other;
every other page that is found is well formed, whatever the calls.
-/

namespace Mcsos.Vmm

open Mcsos.Machine

/-- The bits from `low` on, up to bit 63, are equal. -/
def EqualFrom (low : Nat) (word : UInt64) : Prop :=
  ∀ bit, low ≤ bit → bit < 64 → word.toNat.testBit bit = word.toNat.testBit 63

/-- A page that 48-bit paging can map. -/
structure WellFormed (virt : UInt64) (page : Page) : Prop where
  canonical : EqualFrom 47 virt
  virtAligned : virt.toNat % 4096 = 0
  physAligned : page.phys.toNat % 4096 = 0
  present : page.flags &&& vmmPresent = vmmPresent

/-- Queries succeed for well-formed pages only. -/
def OnlyWellFormed (mappings : Mappings) : Prop :=
  ∀ space virt page, vmmQueryPage space virt mappings = some page → WellFormed virt page

/-- The call enters a page whose bit 47 is not its bit 48: it is a map, it
passes the checks, and an entry is free. -/
def EntersBesideBit47 (mappings : Mappings) : VmmCall → Prop
  | .map _ virt phys _ =>
      Mappable virt phys ∧ freeEntry mappings ≠ none ∧
        virt.toNat.testBit 47 ≠ virt.toNat.testBit 48
  | _ => False

/-! ### Addresses -/

/-- The upper 16 bits as a number. -/
theorem upperBits_eq_iff (word : UInt64) {upper : UInt64} (small : upper.toNat < 2 ^ 16) :
    word >>> 48 = upper ↔
      ∀ bit < 16, word.toNat.testBit (48 + bit) = upper.toNat.testBit bit := by
  have bits : ∀ bit, (word >>> 48).toNat.testBit bit = word.toNat.testBit (48 + bit) := by
    intro bit
    rw [UInt64.toNat_shiftRight word 48]
    exact Nat.testBit_shiftRight word.toNat
  constructor
  · intro isUpper bit _
    rw [← bits, isUpper]
  · intro agree
    apply UInt64.toNat.inj
    apply Nat.eq_of_testBit_eq
    intro bit
    rw [bits]
    by_cases inside : bit < 16
    · exact agree bit inside
    · have outside : 2 ^ 16 ≤ 2 ^ bit := Nat.pow_le_pow_right (by decide) (by omega)
      have outsideWord : 2 ^ 64 ≤ 2 ^ (48 + bit) := Nat.pow_le_pow_right (by decide) (by omega)
      rw [Nat.testBit_lt_two_pow (lt_of_lt_of_le small outside),
        Nat.testBit_lt_two_pow (lt_of_lt_of_le word.toNat_lt outsideWord)]

theorem equalFrom_48_iff (word : UInt64) :
    EqualFrom 48 word ↔ word >>> 48 = 0 ∨ word >>> 48 = 0xFFFF := by
  have ones : ∀ bit < 16, ((0xFFFF : UInt64).toNat).testBit bit = true := by decide
  rw [upperBits_eq_iff word (by decide), upperBits_eq_iff word (by decide)]
  constructor
  · intro equal
    have copies : ∀ bit < 16, word.toNat.testBit (48 + bit) = word.toNat.testBit 63 :=
      fun bit inside => equal (48 + bit) (by omega) (by omega)
    cases top : word.toNat.testBit 63 with
    | false =>
        left
        intro bit inside
        rw [copies bit inside, top, UInt64.toNat_zero, Nat.zero_testBit]
    | true =>
        right
        intro bit inside
        rw [copies bit inside, top, ones bit inside]
  · intro upper bit low high
    obtain ⟨offset, rfl⟩ := Nat.exists_eq_add_of_le low
    have inside : offset < 16 := by omega
    rcases upper with zero | all
    · rw [zero offset inside, zero 15 (by decide), UInt64.toNat_zero, Nat.zero_testBit,
        Nat.zero_testBit]
    · rw [all offset inside, all 15 (by decide), ones offset inside, ones 15 (by decide)]

theorem vmmIsCanonical_iff (virt : UInt64) : vmmIsCanonical virt = true ↔ EqualFrom 48 virt := by
  rw [equalFrom_48_iff]
  simp [vmmIsCanonical]

/-- What the check leaves open. -/
theorem canonical_iff (virt : UInt64) :
    EqualFrom 47 virt ↔
      vmmIsCanonical virt = true ∧ virt.toNat.testBit 47 = virt.toNat.testBit 48 := by
  rw [vmmIsCanonical_iff]
  constructor
  · intro equal
    refine ⟨fun bit low high => equal bit (by omega) high, ?_⟩
    rw [equal 47 (by decide) (by decide), equal 48 (by decide) (by decide)]
  · intro upper bit low high
    rcases Nat.eq_or_lt_of_le low with rfl | above
    · rw [upper.2]
      exact upper.1 48 (by decide) (by decide)
    · exact upper.1 bit above high

theorem aligned_of_and {word : UInt64} (aligned : word &&& 0xFFF = 0) : word.toNat % 4096 = 0 := by
  have low := congrArg UInt64.toNat aligned
  rw [UInt64.toNat_and] at low
  rw [← Nat.and_two_pow_sub_one_eq_mod word.toNat 12]
  exact low

theorem or_present (flags : UInt64) : (flags ||| vmmPresent) &&& vmmPresent = vmmPresent := by
  apply UInt64.toNat.inj
  apply Nat.eq_of_testBit_eq
  intro bit
  rw [UInt64.toNat_and, UInt64.toNat_or, Nat.testBit_and, Nat.testBit_or]
  cases vmmPresent.toNat.testBit bit <;> simp

theorem Mappable.wellFormed_iff {virt phys : UInt64} (mappable : Mappable virt phys)
    (flags : UInt64) :
    WellFormed virt ⟨phys, flags ||| vmmPresent⟩ ↔
      virt.toNat.testBit 47 = virt.toNat.testBit 48 := by
  constructor
  · intro wellFormed
    exact ((canonical_iff virt).mp wellFormed.canonical).2
  · intro same
    exact ⟨(canonical_iff virt).mpr ⟨mappable.1, same⟩, aligned_of_and mappable.2.1,
      aligned_of_and mappable.2.2, or_present flags⟩

/-! ### Entries -/

/-- Every used entry holds a well-formed page. -/
def WellFormedEntries (mappings : Mappings) : Prop :=
  ∀ i, (mappings i).used = true → WellFormed (mappings i).virt (mappings i).page

theorem noMappings_wellFormed : WellFormedEntries noMappings := by
  intro i used
  cases used

section

variable {mappings : Mappings}

/-- A query answers with what some used entry holds. -/
theorem WellFormedEntries.onlyWellFormed (entries : WellFormedEntries mappings) :
    OnlyWellFormed mappings := by
  intro space virt page answer
  obtain ⟨i, found, rfl⟩ := Option.map_eq_some_iff.mp answer
  obtain ⟨used, rfl⟩ := held_eq_some_iff.mp (entry_facts found).1
  exact entries i used

theorem WellFormedEntries.enter (entries : WellFormedEntries mappings) (i : Nat)
    {virt : UInt64} {page : Page} (wellFormed : WellFormed virt page) :
    WellFormedEntries (withPage mappings i virt page) := by
  intro position
  by_cases here : position = i
  · subst here
    intro _
    simpa [withPage, VmmMapping.page] using wellFormed
  · rw [withPage, Function.update_of_ne here]
    exact entries position

theorem WellFormedEntries.leave (entries : WellFormedEntries mappings) (i : Nat) :
    WellFormedEntries (withoutEntry mappings i) := by
  intro position
  by_cases here : position = i
  · subst here
    intro used
    simp [withoutEntry] at used
  · rw [withoutEntry, Function.update_of_ne here]
    exact entries position

/-- A page that is entered is found, whatever it was before. -/
theorem query_withPage_isSome (mappings : Mappings) (space : Space) {i : Nat}
    (inside : i < mappingCount) (virt : UInt64) (page : Page) :
    ∃ found, vmmQueryPage space virt (withPage mappings i virt page) = some found := by
  apply Option.ne_none_iff_exists'.mp
  rw [Ne, vmmQueryPage_eq_none_iff, entryOf_eq, held_withPage, slotOf_eq_none_iff]
  intro absent
  exact absent i inside (Function.update_self i (some virt) (held mappings))

/-- A page is well formed with what a map enters it with, or bit 47 is wrong
and the page is found all the same. -/
theorem WellFormedEntries.map (entries : WellFormedEntries mappings) {virt phys : UInt64}
    (flags : UInt64) {i : Nat} (mappable : Mappable virt phys)
    (free : freeEntry mappings = some i) :
    (OnlyWellFormed (withPage mappings i virt ⟨phys, flags ||| vmmPresent⟩) ↔
        virt.toNat.testBit 47 = virt.toNat.testBit 48) ∧
      (virt.toNat.testBit 47 = virt.toNat.testBit 48 →
        WellFormedEntries (withPage mappings i virt ⟨phys, flags ||| vmmPresent⟩)) := by
  have kept : virt.toNat.testBit 47 = virt.toNat.testBit 48 →
      WellFormedEntries (withPage mappings i virt ⟨phys, flags ||| vmmPresent⟩) := by
    intro same
    exact entries.enter i ((mappable.wellFormed_iff flags).mpr same)
  refine ⟨⟨?_, fun same => (kept same).onlyWellFormed⟩, kept⟩
  intro only
  obtain ⟨page, found⟩ := query_withPage_isSome mappings 0 (free_entry_facts free).2 virt
    ⟨phys, flags ||| vmmPresent⟩
  exact ((canonical_iff virt).mp (only 0 virt page found).canonical).2

/-- A call keeps the entries well formed unless it enters a page beside bit 47,
and then that page is found. -/
theorem WellFormedEntries.step (entries : WellFormedEntries mappings) (call : VmmCall) :
    (OnlyWellFormed (call.run mappings) ↔ ¬ EntersBesideBit47 mappings call) ∧
      (OnlyWellFormed (call.run mappings) → WellFormedEntries (call.run mappings)) := by
  cases call with
  | map space virt phys flags =>
      simp only [VmmCall.run]
      rcases vmmMapPage_cases space virt phys flags mappings with
        ⟨refused, same⟩ | ⟨i, mappable, free, effect⟩
      · rw [same]
        refine ⟨⟨?_, fun _ => entries.onlyWellFormed⟩, fun _ => entries⟩
        intro _ enters
        exact refused ⟨enters.1, enters.2.1⟩
      · rw [effect]
        obtain ⟨agree, keeps⟩ := entries.map flags mappable free
        refine ⟨?_, fun only => keeps (agree.mp only)⟩
        rw [agree]
        simp [EntersBesideBit47, mappable, free]
  | unmap space virt =>
      have kept : WellFormedEntries (vmmUnmapPage space virt mappings).2 := by
        rcases vmmUnmapPage_cases space virt mappings with ⟨-, same⟩ | ⟨i, -, effect⟩
        · rw [same]
          exact entries
        · rw [effect]
          exact entries.leave i
      exact ⟨⟨fun _ => id, fun _ => kept.onlyWellFormed⟩, fun _ => kept⟩
  | query space virt => exact ⟨⟨fun _ => id, fun _ => entries.onlyWellFormed⟩, fun _ => entries⟩

end

/-! ### Whole runs -/

/-- Queries succeed for well-formed pages only, throughout a run, exactly where
no call of it enters a page beside bit 47. -/
theorem run_onlyWellFormed_iff (calls : List VmmCall) :
    (OnlyWellFormed noMappings ∧
        EveryCall VmmCall.run (fun mappings call => OnlyWellFormed (call.run mappings)) calls
          noMappings) ↔
      EveryCall VmmCall.run (fun mappings call => ¬ EntersBesideBit47 mappings call) calls
        noMappings := by
  have agree : EveryCall VmmCall.run (fun mappings call => OnlyWellFormed (call.run mappings)) calls
        noMappings ↔
      EveryCall VmmCall.run (fun mappings call => ¬ EntersBesideBit47 mappings call) calls
        noMappings :=
    everyCall_iff WellFormedEntries (fun _ call entries _ => entries.step call)
      noMappings_wellFormed (everyCall_true calls noMappings)
  rw [agree]
  exact and_iff_right noMappings_wellFormed.onlyWellFormed

/-- The address `0x0000800000000000` has bit 47 alone; it is mapped and found. -/
theorem bit47Page_found :
    ¬ ∀ calls : List VmmCall,
      EveryCall VmmCall.run (fun mappings call => OnlyWellFormed (call.run mappings)) calls
        noMappings := by
  intro always
  have only := (always [.map 0x1000 0x0000800000000000 0x200000 0]).1
  have found := only 0x1000 0x0000800000000000 ⟨0x200000, 1⟩ (by decide +kernel)
  exact absurd (found.canonical 47 (by decide) (by decide)) (by decide)

end Mcsos.Vmm
