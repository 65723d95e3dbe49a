import Mcsos.Journal.Replay

/-!
Contract: which bytes `m16_journal_replay` touches, for every content of the
journal.

The check of a target bounds every store to the disk. Nothing bounds the loop:
`entry_count` is taken as it is found, and only `m16_journal_fsck` compares it
with the length of the array. The module determines exactly which journals are
replayed inside their bounds.
-/

namespace Mcsos.Journal

open Mcsos.Machine
open Mcsos.Machine.Prog

/-- The replay reads entries of the array, writes blocks of the disk, and does
not accept a count that is too large. -/
structure StaysInBounds (m : JournalMachine) (diskBlockCount : UInt64) : Prop where
  entries : ∀ index, .loadEntry index ∈ (m16JournalReplay diskBlockCount).trace m → index < 32
  disk : ∀ offset value, .storeDisk offset value ∈ (m16JournalReplay diskBlockCount).trace m →
    offset < diskBlockCount.toNat * 512
  oversized : 32 < m.journal.entryCount.toNat →
    (m16JournalReplay diskBlockCount).result m = .ecorrupt

/-! ### The disk -/

/-- A block below the count lies on the disk. The product of the source is one
of 64 bits, and so is every offset when the count is larger than that. -/
theorem JournalEntry.block_le {entry : JournalEntry} {diskBlockCount : UInt64}
    (below : entry.targetBlock < diskBlockCount) :
    entry.blockOffset + 512 ≤ diskBlockCount.toNat * 512 := by
  have size : (512 : UInt64).toNat = 512 := rfl
  have small := UInt64.lt_iff_toNat_lt.mp below
  rw [blockOffset, UInt64.toNat_mul, size]
  omega

/-! ### The accesses of the loop -/

/-- What the loop looks at and stores. -/
def JournalAccess.OfReplay (journal : M16Journal) (diskBlockCount : UInt64) : JournalAccess → Prop
  | .loadEntry index => index < journal.entryCount.toNat ∧
      ∀ earlier < index, ¬ OutOfRange journal diskBlockCount earlier
  | .storeDisk offset _ => offset < diskBlockCount.toNat * 512
  | _ => False

theorem replayEntry_ofReplay {m : JournalMachine} {diskBlockCount : UInt64} {index : Nat}
    (looked : (JournalAccess.loadEntry index).OfReplay m.journal diskBlockCount) :
    (replayEntry diskBlockCount index).Issues
      (JournalAccess.OfReplay m.journal diskBlockCount) m := by
  have copied : ∀ s, (m.journal.entries index).targetBlock < diskBlockCount →
      (m16Memcpy (fun position => .storeDisk ((m.journal.entries index).blockOffset + position))
        (m.journal.entries index).data m16JournalBlockSize).Issues
        (JournalAccess.OfReplay m.journal diskBlockCount) s := by
    intro s below
    apply forLoop_emit_issues
    intro position _ inside
    have block := JournalEntry.block_le below
    rw [m16JournalBlockSize] at inside
    show (m.journal.entries index).blockOffset + position < diskBlockCount.toNat * 512
    omega
  simp only [replayEntry, issues_bind, issues_emit, issues_get, result_get, final_get, final_emit,
    issues_ite, issues_pure, true_and, implies_true]
  refine ⟨looked, ?_⟩
  intro _ notReached
  exact ⟨copied _ (UInt64.not_le.mp notReached), trivial⟩

/-- An entry that is not out of range lets the loop go on, with the journal as
it was. -/
theorem replayEntry_passes {m : JournalMachine} {diskBlockCount : UInt64} {index : Nat}
    (accepted : ¬ OutOfRange m.journal diskBlockCount index) :
    (replayEntry diskBlockCount index).result m = none ∧
      ((replayEntry diskBlockCount index).final m).journal = m.journal := by
  cases validity : (m.journal.entries index).valid with
  | false => simp [replayEntry, validity, Event.apply, JournalAccess.apply]
  | true =>
      have below : (m.journal.entries index).targetBlock < diskBlockCount :=
        UInt64.not_le.mp fun reaches => accepted ⟨validity, reaches⟩
      obtain ⟨answer, -, copied⟩ := replayEntry_copied validity below
      rw [copied]
      exact ⟨answer, rfl⟩

theorem replayLoop_ofReplay (m : JournalMachine) (diskBlockCount : UInt64) :
    (scanLoop 0 m.journal.entryCount.toNat (replayEntry diskBlockCount)).Issues
      (JournalAccess.OfReplay m.journal diskBlockCount) m := by
  refine scanLoop_issues 0 _ (replayEntry diskBlockCount) _ (fun index s => s.journal = m.journal ∧
    ∀ earlier < index, ¬ OutOfRange m.journal diskBlockCount earlier) ⟨rfl, by simp⟩ ?_
  rintro index s - used ⟨same, before⟩
  constructor
  · rw [← same]
    exact replayEntry_ofReplay ⟨by rw [same]; omega, by rw [same]; exact before⟩
  · intro goesOn
    have accepted : ¬ OutOfRange s.journal diskBlockCount index := by
      intro refused
      rw [(replayEntry_refused refused).1] at goesOn
      cases goesOn
    refine ⟨(replayEntry_passes accepted).2.trans same, ?_⟩
    intro earlier below
    by_cases here : earlier = index
    · rw [here, ← same]
      exact accepted
    · exact before earlier (by omega)

/-- Every entry in front of which none is out of range is looked at. -/
theorem replayLoop_loads {m : JournalMachine} {diskBlockCount : UInt64} {index : Nat}
    (looked : (JournalAccess.loadEntry index).OfReplay m.journal diskBlockCount) :
    .loadEntry index ∈
      (scanLoop 0 m.journal.entryCount.toNat (replayEntry diskBlockCount)).trace m := by
  obtain ⟨used, before⟩ := looked
  apply scanLoop_mem_trace 0 _ _ (Nat.zero_le index) (by omega) (fun s => s.journal = m.journal)
  · intro earlier s _ below same
    have accepted : ¬ OutOfRange s.journal diskBlockCount earlier := by
      rw [same]
      exact before earlier below
    obtain ⟨answer, kept⟩ := replayEntry_passes accepted
    exact ⟨answer, kept.trans same⟩
  · intro s _
    simp [replayEntry]
  · rfl

theorem m16JournalReplay_ofReplay (m : JournalMachine) (diskBlockCount : UInt64) :
    (m16JournalReplay diskBlockCount).Issues
      (JournalAccess.OfReplay m.journal diskBlockCount) m := by
  by_cases sealedJournal : Sealed m.journal
  · rw [Issues, (m16JournalReplay_of_sealed sealedJournal diskBlockCount).2.1]
    exact replayLoop_ofReplay m diskBlockCount
  · rw [Issues, m16JournalReplay_trace_of_not_sealed sealedJournal]
    simp

/-! ### Every journal -/

theorem staysInBounds_of_loads {m : JournalMachine} {diskBlockCount : UInt64}
    (entries : ∀ index, (JournalAccess.loadEntry index).OfReplay m.journal diskBlockCount →
      index < 32)
    (oversized : 32 < m.journal.entryCount.toNat →
      (m16JournalReplay diskBlockCount).result m = .ecorrupt) : StaysInBounds m diskBlockCount where
  entries := fun index issued => entries index (m16JournalReplay_ofReplay m diskBlockCount _ issued)
  disk := fun _ _ issued => m16JournalReplay_ofReplay m diskBlockCount _ issued
  oversized := oversized

/-- A replay stays in bounds exactly when it does not look at the entries, or
their count fits the array, or one of the first 32 makes it stop. -/
theorem m16JournalReplay_inBounds_iff (m : JournalMachine) (diskBlockCount : UInt64) :
    StaysInBounds m diskBlockCount ↔
      m.journal.magic ≠ m16JournalMagic ∨ m.journal.entryCount.toNat ≤ 32 ∨
        (m.journal.committed ≠ 0 ∧ ∃ index < 32, OutOfRange m.journal diskBlockCount index) := by
  constructor
  · intro inBounds
    by_contra neither
    push Not at neither
    obtain ⟨magic, oversized, noneStops⟩ := neither
    have refused := inBounds.oversized oversized
    by_cases committed : m.journal.committed = 0
    · simp [m16JournalReplay, magic, committed] at refused
    · -- nothing stops the loop in front of the entry behind the array
      have read : JournalAccess.loadEntry 32 ∈ _ :=
        replayLoop_loads ⟨oversized, noneStops committed⟩
      rw [← (m16JournalReplay_of_sealed ⟨magic, committed⟩ diskBlockCount).2.1] at read
      exact absurd (inBounds.entries 32 read) (by decide)
  · intro condition
    by_cases magic : m.journal.magic = m16JournalMagic
    · rcases condition with broken | fits | ⟨committed, stop, inArray, outOfRange⟩
      · exact absurd magic broken
      · apply staysInBounds_of_loads
        · intro index looked
          exact lt_of_lt_of_le looked.1 fits
        · intro oversized
          omega
      · apply staysInBounds_of_loads
        · intro index looked
          by_contra behind
          exact looked.2 stop (by omega) outOfRange
        · intro oversized
          exact Sealed.refused ⟨magic, committed⟩ (by omega) outOfRange
    · have silent := m16JournalReplay_trace_of_not_sealed
        (fun sealedJournal => magic sealedJournal.magic) diskBlockCount
      refine ⟨by simp [silent], by simp [silent], ?_⟩
      intro _
      simp [m16JournalReplay, magic]

/-- A journal whose count is one more than the array holds. -/
def oneTooMany : JournalMachine where
  journal :=
    { magic := m16JournalMagic
      committed := 1
      entryCount := 33
      entries := fun _ => ⟨0, fun _ => 0, false⟩ }
  disk := fun _ => 0

/-- The replay looks behind the array, and accepts the journal. -/
theorem oneTooMany_not_inBounds :
    .loadEntry 32 ∈ (m16JournalReplay 1).trace oneTooMany ∧
      (m16JournalReplay 1).result oneTooMany = .ok ∧ ¬ StaysInBounds oneTooMany 1 := by
  have read : .loadEntry 32 ∈ (m16JournalReplay 1).trace oneTooMany := by decide +kernel
  refine ⟨read, by decide +kernel, ?_⟩
  intro inBounds
  exact absurd (inBounds.entries 32 read) (by decide)

end Mcsos.Journal
