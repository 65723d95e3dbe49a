import Mcsos.Journal.Replay

/-!
Contract: a replay that finds every target on the disk applies the journal as
a log. Each block ends with the data of its last valid entry, all other blocks
stay, and a second replay finds nothing to do.
-/

namespace Mcsos.Journal

open Mcsos.Machine
open Mcsos.Machine.Prog

/-- The entry is the last valid one for the block among those in use. -/
structure LastFor (journal : M16Journal) (block : UInt64) (index : Nat) : Prop where
  used : index < journal.entryCount.toNat
  valid : (journal.entries index).valid = true
  target : (journal.entries index).targetBlock = block
  last : ∀ later, index < later → later < journal.entryCount.toNat →
    (journal.entries later).valid = true → (journal.entries later).targetBlock ≠ block

/-- The disk `after` is the disk `before` with the log applied to it, block by
block. -/
structure AppliesLog (journal : M16Journal) (before after : Nat → UInt8) : Prop where
  written : ∀ block index, LastFor journal block index → ∀ position < 512,
    after (block.toNat * 512 + position) = (journal.entries index).data position
  untouched : ∀ block : Nat, (∀ index < journal.entryCount.toNat,
      (journal.entries index).valid = true →
        (journal.entries index).targetBlock.toNat ≠ block) →
    ∀ position < 512, after (block * 512 + position) = before (block * 512 + position)

section

variable {journal : M16Journal} {diskBlockCount : UInt64}
  (onDisk : diskBlockCount.toNat * 512 ≤ 2 ^ 64)
  (inRange : ∀ index < journal.entryCount.toNat, (journal.entries index).valid = true →
    (journal.entries index).targetBlock < diskBlockCount)

/-- Blocks of a disk start where their numbers say. -/
theorem JournalEntry.blockOffset_eq_target {entry : JournalEntry}
    (onDisk : diskBlockCount.toNat * 512 ≤ 2 ^ 64) (below : entry.targetBlock < diskBlockCount) :
    entry.blockOffset = entry.targetBlock.toNat * 512 := by
  have size : (512 : UInt64).toNat = 512 := rfl
  have small := UInt64.lt_iff_toNat_lt.mp below
  rw [blockOffset, UInt64.toNat_mul, size]
  omega

include onDisk inRange

theorem LastFor.lastOfBlock {block : UInt64} {index : Nat} (last : LastFor journal block index) :
    LastOfBlock journal journal.entryCount.toNat index := by
  refine ⟨last.valid, ?_⟩
  intro later above used validity same
  rw [JournalEntry.blockOffset_eq_target onDisk (inRange later used validity),
    JournalEntry.blockOffset_eq_target onDisk (inRange index last.used last.valid)] at same
  apply last.last later above used validity
  rw [← last.target]
  apply UInt64.toNat.inj
  omega

theorem replayed_appliesLog (disk : Nat → UInt8) :
    AppliesLog journal disk (replayed journal disk journal.entryCount.toNat) := by
  constructor
  · intro block index last position inside
    have start := JournalEntry.blockOffset_eq_target onDisk (inRange index last.used last.valid)
    rw [← last.target, ← start]
    exact replayed_of_last last.used (last.lastOfBlock onDisk inRange) inside disk
  · intro block notTarget position inside
    rcases replayed_cases journal disk journal.entryCount.toNat (block * 512 + position) with
      same | ⟨index, used, offset, within, last, here⟩
    · exact same
    · rw [JournalEntry.blockOffset_eq_target onDisk (inRange index used last.1)] at here
      exact absurd (by omega) (notTarget index used last.1)

end

/-- What was replayed is replayed again without a change. -/
theorem replayed_idempotent (journal : M16Journal) (disk : Nat → UInt8) (count : Nat) :
    replayed journal (replayed journal disk count) count = replayed journal disk count := by
  rw [replayed_eq_iff]
  intro index used last position inside
  exact (replayed_of_last used last inside disk).symm

/-- Replay applies the log: it succeeds, leaves each block with the data of
the last valid entry for it and the others as they were, keeps the journal,
and changes nothing the second time. Without a commit it does nothing. -/
theorem m16JournalReplay_applies_log (m : JournalMachine) (diskBlockCount : UInt64)
    (magic : m.journal.magic = m16JournalMagic)
    (onDisk : diskBlockCount.toNat * 512 ≤ 2 ^ 64)
    (inRange : ∀ index < m.journal.entryCount.toNat, (m.journal.entries index).valid = true →
      (m.journal.entries index).targetBlock < diskBlockCount) :
    (m16JournalReplay diskBlockCount).result m = .ok ∧
      (m.journal.committed ≠ 0 →
        AppliesLog m.journal m.disk ((m16JournalReplay diskBlockCount).final m).disk) ∧
      (m.journal.committed = 0 → (m16JournalReplay diskBlockCount).final m = m) ∧
      ((m16JournalReplay diskBlockCount).final m).journal = m.journal ∧
      (m16JournalReplay diskBlockCount).final ((m16JournalReplay diskBlockCount).final m) =
        (m16JournalReplay diskBlockCount).final m := by
  by_cases committed : m.journal.committed = 0
  · have silent := m16JournalReplay_trace_of_not_sealed
      (fun sealedJournal => sealedJournal.committed committed) diskBlockCount
    have same : (m16JournalReplay diskBlockCount).final m = m := by
      rw [final, silent, applyAll_nil]
    rw [same]
    refine ⟨?_, fun contradicted => absurd committed contradicted, fun _ => rfl, rfl, same⟩
    simp [m16JournalReplay, magic, committed]
  · obtain ⟨status, left⟩ := Sealed.accepted ⟨magic, committed⟩ inRange
    refine ⟨status, ?_, fun uncommitted => absurd uncommitted committed,
      m16JournalReplay_journal m diskBlockCount, ?_⟩
    · intro _
      rw [left]
      exact replayed_appliesLog onDisk inRange m.disk
    · have again := (Sealed.accepted
        (m := ⟨m.journal, replayed m.journal m.disk m.journal.entryCount.toNat⟩)
        ⟨magic, committed⟩ inRange).2
      rw [left, again]
      simp only [replayed_idempotent]

/-- Two entries for one block with an invalid one between them. -/
def rewrittenBlock : JournalMachine where
  journal :=
    { magic := m16JournalMagic
      committed := 1
      entryCount := 3
      entries := fun index => ⟨1, fun _ => UInt8.ofNat index, index != 1⟩ }
  disk := fun _ => 0xFF

theorem m16JournalReplay_applies_log_rewrittenBlock :
    AppliesLog rewrittenBlock.journal rewrittenBlock.disk
      ((m16JournalReplay 2).final rewrittenBlock).disk :=
  (m16JournalReplay_applies_log rewrittenBlock 2 rfl (by decide) (by
    intro index _ _
    show (1 : UInt64) < 2
    decide)).2.1 (by decide)

end Mcsos.Journal
