import Mcsos.Journal.Model

/-!
Contract: what `m16_journal_replay` does to the disk, for every journal content.

The range check sits in the loop that writes, so a replay that is refused has
already applied the entries in front of the one it is refused for. `replayed`
is the disk after a number of entries; the module determines exactly when a
refused replay leaves the disk as it was.
-/

namespace Mcsos.Journal

open Mcsos.Machine
open Mcsos.Machine.Prog

/-- Where the block of an entry starts on the disk: the source multiplies in
64 bits. -/
def JournalEntry.blockOffset (entry : JournalEntry) : Nat := (entry.targetBlock * 512).toNat

/-- The disk after the first entries of the journal are replayed to it. -/
def replayed (journal : M16Journal) (disk : Nat → UInt8) : Nat → Nat → UInt8
  | 0 => disk
  | count + 1 =>
      if (journal.entries count).valid then
        writeRange (replayed journal disk count) (journal.entries count).blockOffset
          m16JournalBlockSize (journal.entries count).data
      else
        replayed journal disk count

/-- The entry makes the replay return `M16_JOURNAL_ECORRUPT`. -/
def OutOfRange (journal : M16Journal) (diskBlockCount : UInt64) (index : Nat) : Prop :=
  (journal.entries index).valid = true ∧ diskBlockCount ≤ (journal.entries index).targetBlock

/-- The entry at which the loop of the replay stops. -/
structure FirstOutOfRange (journal : M16Journal) (diskBlockCount : UInt64) (stop : Nat) : Prop where
  used : stop < journal.entryCount.toNat
  hit : OutOfRange journal diskBlockCount stop
  before : ∀ index < stop, ¬ OutOfRange journal diskBlockCount index

theorem FirstOutOfRange.unique {journal : M16Journal} {diskBlockCount : UInt64} {stop other : Nat}
    (first : FirstOutOfRange journal diskBlockCount stop)
    (second : FirstOutOfRange journal diskBlockCount other) : stop = other := by
  have notBelow : ¬ stop < other := fun below => second.before stop below first.hit
  have notAbove : ¬ other < stop := fun below => first.before other below second.hit
  omega

/-! ### One entry -/

theorem copyToDisk_final (m : JournalMachine) (dst size : Nat) (src : Nat → UInt8) :
    (m16Memcpy (fun position => .storeDisk (dst + position)) src size).final m =
      { m with disk := writeRange m.disk dst size src } := by
  apply forLoop_emit_writeRange
    (fun position => JournalAccess.storeDisk (dst + position) (src position))
    (fun disk => { m with disk := disk }) m.disk
  intro position _ memory
  rfl

theorem copyToDisk_trace (m : JournalMachine) (dst size : Nat) (src : Nat → UInt8) :
    (m16Memcpy (fun position => .storeDisk (dst + position)) src size).trace m =
      (List.range' 0 size).map fun position => .storeDisk (dst + position) (src position) :=
  forLoop_emit_trace 0 size _ m

/-- An entry that is out of range leaves the loop and stores nothing. -/
theorem replayEntry_refused {m : JournalMachine} {diskBlockCount : UInt64} {index : Nat}
    (refused : OutOfRange m.journal diskBlockCount index) :
    (replayEntry diskBlockCount index).result m = some .ecorrupt ∧
      (replayEntry diskBlockCount index).final m = m := by
  simp [replayEntry, refused.1, refused.2, Event.apply, JournalAccess.apply]

/-- The accesses a replay makes for an entry it copies. -/
def copyAccesses (entry : JournalEntry) (index : Nat) : List JournalAccess :=
  .loadEntry index :: (List.range' 0 m16JournalBlockSize).map fun position =>
    .storeDisk (entry.blockOffset + position) (entry.data position)

theorem replayEntry_copied {m : JournalMachine} {diskBlockCount : UInt64} {index : Nat}
    (validity : (m.journal.entries index).valid = true)
    (below : (m.journal.entries index).targetBlock < diskBlockCount) :
    (replayEntry diskBlockCount index).result m = none ∧
      (replayEntry diskBlockCount index).trace m = copyAccesses (m.journal.entries index) index ∧
      (replayEntry diskBlockCount index).final m =
        ⟨m.journal, writeRange m.disk (m.journal.entries index).blockOffset m16JournalBlockSize
          (m.journal.entries index).data⟩ := by
  have notReached : ¬ diskBlockCount ≤ (m.journal.entries index).targetBlock :=
    UInt64.not_le.mpr below
  simp [replayEntry, validity, notReached, copyAccesses, copyToDisk_final, copyToDisk_trace,
    Event.apply, JournalAccess.apply, JournalEntry.blockOffset]

/-- Any other entry is copied to its block, when it is valid, and the loop
goes on. -/
theorem replayEntry_accepted {journal : M16Journal} {diskBlockCount : UInt64} {index : Nat}
    (accepted : ¬ OutOfRange journal diskBlockCount index) (disk : Nat → UInt8) :
    (replayEntry diskBlockCount index).result ⟨journal, replayed journal disk index⟩ = none ∧
      (replayEntry diskBlockCount index).final ⟨journal, replayed journal disk index⟩ =
        ⟨journal, replayed journal disk (index + 1)⟩ := by
  cases validity : (journal.entries index).valid with
  | false =>
      simp [replayEntry, validity, replayed, Event.apply, JournalAccess.apply]
  | true =>
      have below : (journal.entries index).targetBlock < diskBlockCount :=
        UInt64.not_le.mp fun reaches => accepted ⟨validity, reaches⟩
      rcases replayEntry_copied (m := ⟨journal, replayed journal disk index⟩) validity below with
        ⟨answer, -, copied⟩
      rw [replayed, if_pos validity]
      exact ⟨answer, copied⟩

/-! ### The loop -/

/-- The loop ends with every entry replayed, or at the first entry that is out
of range with the entries in front of it replayed. -/
theorem replayLoop_spec (m : JournalMachine) (diskBlockCount : UInt64) :
    let loop := scanLoop 0 m.journal.entryCount.toNat (replayEntry diskBlockCount)
    (loop.result m = none ∧
        (∀ index < m.journal.entryCount.toNat, ¬ OutOfRange m.journal diskBlockCount index) ∧
        loop.final m = ⟨m.journal, replayed m.journal m.disk m.journal.entryCount.toNat⟩) ∨
      (loop.result m = some .ecorrupt ∧
        ∃ stop, FirstOutOfRange m.journal diskBlockCount stop ∧
          loop.final m = ⟨m.journal, replayed m.journal m.disk stop⟩) := by
  intro loop
  have outcome := scanLoop_invariant 0 m.journal.entryCount.toNat (replayEntry diskBlockCount)
    (fun index s => (∀ earlier < index, ¬ OutOfRange m.journal diskBlockCount earlier) ∧
      s = ⟨m.journal, replayed m.journal m.disk index⟩)
    (fun status s => status = .ecorrupt ∧ ∃ stop, FirstOutOfRange m.journal diskBlockCount stop ∧
      s = ⟨m.journal, replayed m.journal m.disk stop⟩)
    (show (∀ earlier < 0, ¬ OutOfRange m.journal diskBlockCount earlier) ∧ m = ⟨_, _⟩ from
      ⟨by simp, rfl⟩) ?_
  · rw [Nat.zero_add] at outcome
    cases answer : loop.result m with
    | none =>
        rw [answer] at outcome
        exact Or.inl ⟨rfl, outcome⟩
    | some status =>
        rw [answer] at outcome
        rw [outcome.1]
        exact Or.inr ⟨rfl, outcome.2⟩
  · intro index s _ upper holds
    rcases holds with ⟨before, rfl⟩
    by_cases refused : OutOfRange m.journal diskBlockCount index
    · rcases replayEntry_refused (m := ⟨m.journal, replayed m.journal m.disk index⟩) refused
        with ⟨answer, same⟩
      rw [answer]
      exact ⟨rfl, index, ⟨by omega, refused, before⟩, same⟩
    · rcases replayEntry_accepted refused m.disk with ⟨answer, copied⟩
      rw [answer]
      refine ⟨?_, copied⟩
      intro earlier below
      by_cases here : earlier = index
      · rw [here]
        exact refused
      · exact before earlier (by omega)

/-- A journal that the replay looks at. -/
structure Sealed (journal : M16Journal) : Prop where
  magic : journal.magic = m16JournalMagic
  committed : journal.committed ≠ 0

/-- A journal that is not sealed is left alone. -/
theorem m16JournalReplay_trace_of_not_sealed {m : JournalMachine}
    (unsealed : ¬ Sealed m.journal) (diskBlockCount : UInt64) :
    (m16JournalReplay diskBlockCount).trace m = [] := by
  by_cases magic : m.journal.magic = m16JournalMagic
  · have uncommitted : m.journal.committed = 0 := by
      by_contra committed
      exact unsealed ⟨magic, committed⟩
    simp [m16JournalReplay, magic, uncommitted]
  · simp [m16JournalReplay, magic]

theorem m16JournalReplay_of_sealed {m : JournalMachine} (sealedJournal : Sealed m.journal)
    (diskBlockCount : UInt64) :
    let loop := scanLoop 0 m.journal.entryCount.toNat (replayEntry diskBlockCount)
    (m16JournalReplay diskBlockCount).result m = (loop.result m).getD .ok ∧
      (m16JournalReplay diskBlockCount).trace m = loop.trace m ∧
      (m16JournalReplay diskBlockCount).final m = loop.final m := by
  simp [m16JournalReplay, sealedJournal.magic, sealedJournal.committed]

/-- A used entry that is out of range makes the replay fail. -/
theorem Sealed.refused {m : JournalMachine} (sealedJournal : Sealed m.journal)
    {diskBlockCount : UInt64} {index : Nat} (used : index < m.journal.entryCount.toNat)
    (outOfRange : OutOfRange m.journal diskBlockCount index) :
    (m16JournalReplay diskBlockCount).result m = .ecorrupt := by
  rw [(m16JournalReplay_of_sealed sealedJournal diskBlockCount).1]
  rcases replayLoop_spec m diskBlockCount with ⟨-, allInRange, -⟩ | ⟨answer, -⟩
  · exact absurd outOfRange (allInRange index used)
  · rw [answer]
    rfl

/-- A journal with every target in range is replayed to its end. -/
theorem Sealed.accepted {m : JournalMachine} (sealedJournal : Sealed m.journal)
    {diskBlockCount : UInt64}
    (inRange : ∀ index < m.journal.entryCount.toNat, (m.journal.entries index).valid = true →
      (m.journal.entries index).targetBlock < diskBlockCount) :
    (m16JournalReplay diskBlockCount).result m = .ok ∧
      (m16JournalReplay diskBlockCount).final m =
        ⟨m.journal, replayed m.journal m.disk m.journal.entryCount.toNat⟩ := by
  obtain ⟨status, -, left⟩ := m16JournalReplay_of_sealed sealedJournal diskBlockCount
  rw [status, left]
  rcases replayLoop_spec m diskBlockCount with ⟨answer, -, written⟩ | ⟨-, stop, first, -⟩
  · rw [answer, written]
    exact ⟨rfl, rfl⟩
  · have below := inRange stop first.used first.hit.1
    exact absurd first.hit.2 (UInt64.not_le.mpr below)

/-- A replay never stores to the journal. -/
theorem m16JournalReplay_journal (m : JournalMachine) (diskBlockCount : UInt64) :
    ((m16JournalReplay diskBlockCount).final m).journal = m.journal := by
  by_cases sealedJournal : Sealed m.journal
  · rw [(m16JournalReplay_of_sealed sealedJournal diskBlockCount).2.2]
    rcases replayLoop_spec m diskBlockCount with ⟨-, -, left⟩ | ⟨-, stop, -, left⟩
    · rw [left]
    · rw [left]
  · rw [final, m16JournalReplay_trace_of_not_sealed sealedJournal, applyAll_nil]

/-! ### What is left on the disk -/

theorem JournalEntry.blockOffset_aligned (entry : JournalEntry) : entry.blockOffset % 512 = 0 := by
  have size : (512 : UInt64).toNat = 512 := rfl
  rw [blockOffset, UInt64.toNat_mul, size]
  omega

/-- Blocks are aligned: two that share a byte are the same. -/
theorem JournalEntry.blockOffset_eq_of_shared {first second : JournalEntry} {address : Nat}
    (inFirst : first.blockOffset ≤ address ∧ address < first.blockOffset + 512)
    (inSecond : second.blockOffset ≤ address ∧ address < second.blockOffset + 512) :
    first.blockOffset = second.blockOffset := by
  have := first.blockOffset_aligned
  have := second.blockOffset_aligned
  omega

/-- No later entry among the first `count` is copied to the block of `index`. -/
def LastOfBlock (journal : M16Journal) (count index : Nat) : Prop :=
  (journal.entries index).valid = true ∧
    ∀ later, index < later → later < count → (journal.entries later).valid = true →
      (journal.entries later).blockOffset ≠ (journal.entries index).blockOffset

/-- The last entry of a block decides its bytes. -/
theorem replayed_of_last {journal : M16Journal} {count index position : Nat} (used : index < count)
    (last : LastOfBlock journal count index) (inside : position < 512) (disk : Nat → UInt8) :
    replayed journal disk count ((journal.entries index).blockOffset + position) =
      (journal.entries index).data position := by
  induction count with
  | zero => omega
  | succ count inductionHypothesis =>
      by_cases here : index = count
      · subst here
        rw [replayed, if_pos last.1]
        exact writeRange_inside _ _ _ inside
      · have earlier : LastOfBlock journal count index :=
          ⟨last.1, fun later above below => last.2 later above (by omega)⟩
        have kept := inductionHypothesis (by omega) earlier
        rw [replayed]
        split
        next copied =>
          rw [writeRange_outside, kept]
          by_contra shared
          refine last.2 count (by omega) (by omega) copied ?_
          simp only [m16JournalBlockSize] at shared
          have inLater : (journal.entries count).blockOffset ≤
                (journal.entries index).blockOffset + position ∧
              (journal.entries index).blockOffset + position <
                (journal.entries count).blockOffset + 512 := by omega
          exact JournalEntry.blockOffset_eq_of_shared inLater (by omega)
        next => exact kept

/-- Every byte is the old one or comes from the last entry of its block. -/
theorem replayed_cases (journal : M16Journal) (disk : Nat → UInt8) (count address : Nat) :
    replayed journal disk count address = disk address ∨
      ∃ index < count, ∃ position < 512, LastOfBlock journal count index ∧
        address = (journal.entries index).blockOffset + position := by
  induction count with
  | zero => exact Or.inl rfl
  | succ count inductionHypothesis =>
      by_cases covered : (journal.entries count).valid = true ∧
          (journal.entries count).blockOffset ≤ address ∧
          address < (journal.entries count).blockOffset + 512
      · right
        rcases covered with ⟨validity, lower, upper⟩
        refine ⟨count, by omega, address - (journal.entries count).blockOffset, by omega, ?_, by omega⟩
        exact ⟨validity, fun later above below => by omega⟩
      · have same : replayed journal disk (count + 1) address =
            replayed journal disk count address := by
          rw [replayed]
          split
          next validity =>
            apply writeRange_outside
            simp only [m16JournalBlockSize]
            by_contra inside
            exact covered ⟨validity, by omega⟩
          next => rfl
        rcases inductionHypothesis with untouched | ⟨index, used, position, inside, last, rfl⟩
        · exact Or.inl (same.trans untouched)
        · right
          refine ⟨index, by omega, position, inside, ⟨last.1, ?_⟩, rfl⟩
          intro later above below validity shared
          by_cases newest : later = count
          · subst newest
            exact covered ⟨validity, by omega⟩
          · exact last.2 later above (by omega) validity shared

/-- Replaying entries changes no byte exactly when the last entry of every
block repeats the bytes of the disk. -/
theorem replayed_eq_iff (journal : M16Journal) (disk : Nat → UInt8) (count : Nat) :
    replayed journal disk count = disk ↔
      ∀ index < count, LastOfBlock journal count index → ∀ position < 512,
        (journal.entries index).data position =
          disk ((journal.entries index).blockOffset + position) := by
  constructor
  · intro unchanged index used last position inside
    have written := replayed_of_last used last inside disk
    rw [unchanged] at written
    exact written.symm
  · intro repeated
    funext address
    rcases replayed_cases journal disk count address with
      same | ⟨index, used, position, inside, last, rfl⟩
    · exact same
    · rw [replayed_of_last used last inside]
      exact repeated index used last position inside

/-! ### Refused replays -/

/-- A replay that is refused leaves every byte of the disk as it was exactly
when the journal is not sealed, or the entries in front of the first one that
is out of range, each block's last entry among them, repeat what the disk
holds. In particular it does when there is no entry out of range, or no valid
entry in front of the first. -/
theorem m16JournalReplay_fail_closed_iff (m : JournalMachine) (diskBlockCount : UInt64) :
    ((m16JournalReplay diskBlockCount).result m = .ecorrupt →
        ((m16JournalReplay diskBlockCount).final m).disk = m.disk) ↔
      m.journal.magic ≠ m16JournalMagic ∨ m.journal.committed = 0 ∨
        ∀ stop, FirstOutOfRange m.journal diskBlockCount stop →
          ∀ index < stop, LastOfBlock m.journal stop index → ∀ position < 512,
            (m.journal.entries index).data position =
              m.disk ((m.journal.entries index).blockOffset + position) := by
  by_cases sealedJournal : Sealed m.journal
  · have notOpen : ¬ (m.journal.magic ≠ m16JournalMagic) := not_not.mpr sealedJournal.magic
    simp only [notOpen, sealedJournal.committed, false_or]
    simp only [← replayed_eq_iff]
    rcases m16JournalReplay_of_sealed sealedJournal diskBlockCount with ⟨status, -, left⟩
    rw [status, left]
    rcases replayLoop_spec m diskBlockCount with
      ⟨answer, allInRange, -⟩ | ⟨answer, stop, first, written⟩
    · rw [answer]
      refine ⟨fun _ stop first => absurd first.hit (allInRange stop first.used), ?_⟩
      intro _ refused
      exact absurd refused (by decide)
    · rw [answer, written]
      constructor
      · intro unchanged other otherFirst
        rw [otherFirst.unique first]
        exact unchanged rfl
      · intro repeated _
        exact repeated stop first
  · have silent := m16JournalReplay_trace_of_not_sealed sealedJournal diskBlockCount
    have same : (m16JournalReplay diskBlockCount).final m = m := by
      rw [final, silent, applyAll_nil]
    have opened : m.journal.magic ≠ m16JournalMagic ∨ m.journal.committed = 0 := by
      by_contra neither
      push Not at neither
      exact sealedJournal ⟨neither.1, neither.2⟩
    refine ⟨fun _ => or_assoc.mp (Or.inl opened), fun _ _ => by rw [same]⟩

/-- A journal that holds a block for a one-block disk and, behind it, one for
a block the disk does not have. -/
def halfInRange : JournalMachine where
  journal :=
    { magic := m16JournalMagic
      committed := 1
      entryCount := 2
      entries := fun index => ⟨UInt64.ofNat index, fun _ => 1, true⟩ }
  disk := fun _ => 0

theorem halfInRange_refused_and_written :
    halfInRange.journal.entryCount ≤ 32 ∧
      (m16JournalReplay 1).result halfInRange = .ecorrupt ∧
      ((m16JournalReplay 1).final halfInRange).disk 0 ≠ halfInRange.disk 0 := by
  decide +kernel

end Mcsos.Journal
