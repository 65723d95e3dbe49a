import Mcsos.Journal.Records

/-!
Contract: crash atomicity and durability of the journal protocol.

A machine runs transactions, each appended, committed, replayed and cleared,
and may stop between any two stores. Recovery replays the surviving journal,
may be stopped and restarted any number of times, and ends when one replay has
run through. `Recovers` is the invariant of all the states in between: it names
the disk that recovery will produce.
-/

namespace Mcsos.Journal

open Mcsos.Machine
open Mcsos.Machine.Prog

/-! ### What transactions are for -/

/-- The disk with the record's block replaced. -/
def JournalRecord.applyTo (disk : Nat → UInt8) (record : JournalRecord) : Nat → UInt8 :=
  writeRange disk (record.targetBlock.toNat * 512) 512 record.data

def applyRecords (records : List JournalRecord) (disk : Nat → UInt8) : Nat → UInt8 :=
  records.foldl JournalRecord.applyTo disk

/-- The disk after whole transactions, first one first. -/
def applyTransactions (transactions : List (List JournalRecord)) (disk : Nat → UInt8) :
    Nat → UInt8 :=
  transactions.foldl (fun disk records => applyRecords records disk) disk

/-! ### The protocol -/

def appendAll : List JournalRecord → JournalProg Unit
  | [] => pure ()
  | record :: rest => do
      let _ ← m16JournalAppend record.targetBlock record.data
      appendAll rest

def runTransaction (diskBlockCount : UInt64) (records : List JournalRecord) :
    JournalProg Unit := do
  appendAll records
  let _ ← m16JournalCommit
  let _ ← m16JournalReplay diskBlockCount
  m16JournalClear

def runTransactions (diskBlockCount : UInt64) : List (List JournalRecord) → JournalProg Unit
  | [] => pure ()
  | records :: rest => do
      runTransaction diskBlockCount records
      runTransactions diskBlockCount rest

/-- Recovery from a machine state can end with this disk: a replay runs
through, or stops after some of its accesses and recovery starts again. -/
inductive Recovered (diskBlockCount : UInt64) : JournalMachine → (Nat → UInt8) → Prop where
  | finished (m : JournalMachine) :
      Recovered diskBlockCount m ((m16JournalReplay diskBlockCount).final m).disk
  | stopped {m : JournalMachine} {done : List JournalAccess} {disk : Nat → UInt8}
      (isPrefix : done <+: (m16JournalReplay diskBlockCount).trace m)
      (restarted : Recovered diskBlockCount (applyAll done m) disk) :
      Recovered diskBlockCount m disk

/-- The number of commit stores among some accesses. -/
def commitStores (done : List JournalAccess) : Nat := done.count (.storeCommitted 1)

@[simp] theorem commitStores_append (first second : List JournalAccess) :
    commitStores (first ++ second) = commitStores first + commitStores second :=
  List.count_append

theorem commitStores_eq_zero {done : List JournalAccess}
    (other : ∀ access ∈ done, access ≠ .storeCommitted 1) : commitStores done = 0 :=
  List.count_eq_zero_of_not_mem fun member => other _ member rfl

/-! ### Records over a half-written disk -/

/-- The address lies in the block of one of the records. -/
def InBlocks (records : List JournalRecord) (address : Nat) : Prop :=
  ∃ record ∈ records,
    record.targetBlock.toNat * 512 ≤ address ∧ address < record.targetBlock.toNat * 512 + 512

/-- Records decide the bytes of their blocks, whatever was there. -/
theorem applyRecords_congr {records : List JournalRecord} {disk other : Nat → UInt8}
    (agree : ∀ address, ¬ InBlocks records address → disk address = other address) :
    applyRecords records disk = applyRecords records other := by
  induction records generalizing disk other with
  | nil =>
      funext address
      exact agree address (by simp [InBlocks])
  | cons record rest inductionHypothesis =>
      apply inductionHypothesis
      intro address outside
      by_cases here : record.targetBlock.toNat * 512 ≤ address ∧
          address < record.targetBlock.toNat * 512 + 512
      · simp [JournalRecord.applyTo, writeRange, here]
      · simp only [JournalRecord.applyTo, writeRange, here, if_false]
        apply agree
        intro inside
        rcases inside with ⟨found, member, covers⟩
        rcases List.mem_cons.mp member with rfl | inRest
        · exact here covers
        · exact outside ⟨found, inRest, covers⟩

/-! ### States that recover -/

section

variable {diskBlockCount : UInt64} (small : diskBlockCount.toNat * 512 < 2 ^ 64)

include small

/-- On a disk of less than `2 ^ 64` bytes the block of a record in range does
not wrap. -/
theorem blockOffset_eq {entry : JournalEntry} {record : JournalRecord} (is : entry.Is record)
    (inRange : record.targetBlock < diskBlockCount) :
    entry.blockOffset = record.targetBlock.toNat * 512 := by
  have size : (512 : UInt64).toNat = 512 := rfl
  have below : record.targetBlock.toNat < diskBlockCount.toNat := UInt64.lt_iff_toNat_lt.mp inRange
  rw [JournalEntry.blockOffset, is.targetBlock, UInt64.toNat_mul, size]
  omega

theorem Holds.replayed_eq {journal : M16Journal} {records : List JournalRecord}
    (holds : Holds journal records)
    (inRange : ∀ record ∈ records, record.targetBlock < diskBlockCount) (disk : Nat → UInt8) :
    replayed journal disk records.length = applyRecords records disk := by
  have upTo : ∀ count ≤ records.length,
      replayed journal disk count = applyRecords (records.take count) disk := by
    intro count
    induction count with
    | zero => intro _; rfl
    | succ count inductionHypothesis =>
        intro used
        have is := holds.entry count _ (List.getElem?_eq_getElem (by omega))
        have offset := blockOffset_eq small is (inRange _ (List.getElem_mem _))
        rw [replayed, if_pos is.valid, inductionHypothesis (by omega), offset,
          writeRange_congr _ _ is.data, List.take_succ_eq_append_getElem (by omega), applyRecords,
          applyRecords, List.foldl_append]
        rfl
  have all := upTo records.length le_rfl
  rwa [List.take_length] at all

/-- Recovery from the state produces this disk. Either the journal is not
looked at and the disk is there already, or the journal is committed and its
records lead to it from whatever part of them the disk has. -/
def Recovers (diskBlockCount : UInt64) (m : JournalMachine) (disk : Nat → UInt8) : Prop :=
  (¬ Sealed m.journal ∧ m.disk = disk) ∨
    ∃ records, Holds m.journal records ∧ m.journal.committed ≠ 0 ∧
      (∀ record ∈ records, record.targetBlock < diskBlockCount) ∧
      applyRecords records m.disk = disk

/-- The accesses of a replay: loads of entries, and stores into the blocks of
the records. -/
def JournalAccess.InReplay (records : List JournalRecord) : JournalAccess → Prop
  | .loadEntry _ => True
  | .storeDisk offset _ => InBlocks records offset
  | _ => False

theorem Holds.replay_issues {m : JournalMachine} {records : List JournalRecord}
    (holds : Holds m.journal records) (committed : m.journal.committed ≠ 0)
    (inRange : ∀ record ∈ records, record.targetBlock < diskBlockCount) :
    (m16JournalReplay diskBlockCount).Issues (JournalAccess.InReplay records) m := by
  intro access member
  rw [(holds.replay_accepted committed inRange).2.1, List.mem_flatMap] at member
  rcases member with ⟨index, range, member⟩
  have used : index < records.length := by
    rw [List.mem_range'_1] at range
    omega
  have is := holds.entry index _ (List.getElem?_eq_getElem used)
  rcases List.mem_cons.mp member with rfl | stored
  · trivial
  · rw [List.mem_map] at stored
    rcases stored with ⟨position, range, rfl⟩
    rw [List.mem_range'_1, m16JournalBlockSize] at range
    rw [blockOffset_eq small is (inRange _ (List.getElem_mem used))]
    exact ⟨_, List.getElem_mem used, by omega⟩

/-- A replay may stop anywhere without losing what recovery leads to. -/
theorem Recovers.replay_prefixInv {m : JournalMachine} {disk : Nat → UInt8}
    (recovers : Recovers diskBlockCount m disk) :
    (m16JournalReplay diskBlockCount).PrefixInv m (fun done s =>
      commitStores done = 0 ∧ Recovers diskBlockCount s disk) := by
  intro done isPrefix
  rcases recovers with ⟨unsealed, same⟩ | ⟨records, holds, committed, inRange, leads⟩
  · rw [m16JournalReplay_trace_of_not_sealed unsealed, List.prefix_nil] at isPrefix
    subst isPrefix
    exact ⟨rfl, Or.inl ⟨unsealed, same⟩⟩
  · have issued := (holds.replay_issues small committed inRange).prefixInv done isPrefix
    have journalSame : (applyAll done m).journal = m.journal := by
      apply applyAll_frame JournalMachine.journal
      intro access member s
      have inReplay := issued access member
      cases access with
      | loadEntry _ | storeDisk _ _ => rfl
      | _ => exact absurd inReplay id
    have diskSame : ∀ address, ¬ InBlocks records address →
        (applyAll done m).disk address = m.disk address := by
      intro address outside
      apply applyAll_frame (fun s : JournalMachine => s.disk address)
      intro access member s
      have inReplay := issued access member
      cases access with
      | loadEntry _ => rfl
      | storeDisk offset value =>
          have elsewhere : address ≠ offset := by
            intro here
            rw [here] at outside
            exact outside inReplay
          exact Function.update_of_ne elsewhere _ _
      | _ => exact absurd inReplay id
    refine ⟨commitStores_eq_zero ?_, Or.inr ⟨records, ?_, ?_, inRange, ?_⟩⟩
    · intro access member isCommit
      have inReplay := issued access member
      rw [isCommit] at inReplay
      exact inReplay
    · rw [journalSame]
      exact holds
    · rw [journalSame]
      exact committed
    · rw [applyRecords_congr diskSame]
      exact leads

theorem Recovers.replay_final {m : JournalMachine} {disk : Nat → UInt8}
    (recovers : Recovers diskBlockCount m disk) :
    ((m16JournalReplay diskBlockCount).final m).disk = disk := by
  rcases recovers with ⟨unsealed, same⟩ | ⟨records, holds, committed, inRange, leads⟩
  · rw [final, m16JournalReplay_trace_of_not_sealed unsealed]
    exact same
  · rw [(holds.replay_accepted committed inRange).2.2, ← leads]
    exact holds.replayed_eq small inRange m.disk

/-- However often recovery is stopped, it produces the disk the state recovers
to. -/
theorem Recovers.recovered {m : JournalMachine} {disk produced : Nat → UInt8}
    (recovers : Recovers diskBlockCount m disk) (recovered : Recovered diskBlockCount m produced) :
    produced = disk := by
  induction recovered with
  | finished m => exact recovers.replay_final small
  | stopped isPrefix _ inductionHypothesis =>
      exact inductionHypothesis (recovers.replay_prefixInv small _ isPrefix).2

end

/-! ### One transaction -/

/-- Between two transactions: nothing in the journal. -/
structure Idle (m : JournalMachine) : Prop where
  holds : Holds m.journal []
  uncommitted : m.journal.committed = 0

theorem appendAll_issues (records : List JournalRecord) (m : JournalMachine) :
    (appendAll records).Issues JournalAccess.InEntries m := by
  induction records generalizing m with
  | nil => exact issues_pure _ _ _
  | cons record rest inductionHypothesis =>
      rw [appendAll, issues_bind]
      exact ⟨m16JournalAppend_issues _ _ m, inductionHypothesis _⟩

/-- While records are appended the journal is uncommitted and the disk waits. -/
theorem appendAll_prefixInv (records : List JournalRecord) (m : JournalMachine) :
    (appendAll records).PrefixInv m (fun done s => commitStores done = 0 ∧
      s.journal.committed = m.journal.committed ∧ s.disk = m.disk) := by
  intro done isPrefix
  have issued := (appendAll_issues records m).prefixInv done isPrefix
  have kept : ((applyAll done m).journal.committed, (applyAll done m).disk) =
      (m.journal.committed, m.disk) := by
    apply applyAll_frame (fun s : JournalMachine => (s.journal.committed, s.disk))
    intro access member s
    have inEntries := issued access member
    cases access with
    | storeTargetBlock _ _ | storeValid _ _ | storeData _ _ _ | storeEntryCount _ => rfl
    | _ => exact absurd inEntries id
  refine ⟨commitStores_eq_zero ?_, (Prod.mk.inj kept).1, (Prod.mk.inj kept).2⟩
  intro access member isCommit
  have inEntries := issued access member
  rw [isCommit] at inEntries
  exact inEntries

theorem appendAll_holds {held records : List JournalRecord} {m : JournalMachine}
    (holds : Holds m.journal held) (space : held.length + records.length ≤ 32) :
    Holds ((appendAll records).final m).journal (held ++ records) := by
  induction records generalizing held m with
  | nil =>
      rw [List.append_nil]
      exact holds
  | cons record rest inductionHypothesis =>
      rw [List.length_cons] at space
      have added := holds.append (by omega) record
      have whole := inductionHypothesis added (by
        rw [List.length_append, List.length_singleton]
        omega)
      rw [appendAll, final_bind]
      rwa [List.append_assoc, List.singleton_append] at whole

theorem m16JournalCommit_stores (m : JournalMachine) :
    commitStores (m16JournalCommit.trace m) = 1 := by
  simp [m16JournalCommit, commitStores]

/-- A clear stores nothing to the disk, and no commit. -/
theorem m16JournalClear_issues (m : JournalMachine) :
    m16JournalClear.Issues (fun access => access ≠ .storeCommitted 1 ∧
      ∀ s, (Event.apply access s).disk = s.disk) m := by
  intro access member
  rw [m16JournalClear_trace, m16Memzero, forLoop_emit_trace, List.mem_append, List.mem_map,
    List.mem_singleton] at member
  rcases member with ⟨index, _, rfl⟩ | rfl
  · exact ⟨by simp, fun _ => rfl⟩
  · exact ⟨by simp, fun _ => rfl⟩

/-- From its first store on, a clear leaves a journal that is not looked at. -/
theorem m16JournalClear_prefixInv {diskBlockCount : UInt64} {m : JournalMachine}
    (magic : m.journal.magic = m16JournalMagic) (recovers : Recovers diskBlockCount m m.disk) :
    m16JournalClear.PrefixInv m (fun done s =>
      commitStores done = 0 ∧ Recovers diskBlockCount s m.disk) := by
  intro done isPrefix
  have issued := (m16JournalClear_issues m).prefixInv done isPrefix
  have sameDisk : (applyAll done m).disk = m.disk :=
    applyAll_frame JournalMachine.disk done (fun access member => (issued access member).2) m
  refine ⟨commitStores_eq_zero fun access member => (issued access member).1, ?_⟩
  rcases m16JournalClear_stops m done isPrefix with notBegun | finished | broken
  · rw [notBegun]
    exact recovers
  · rcases m16JournalClear_holds magic with ⟨-, uncommitted, same⟩
    have whole : applyAll (m16JournalClear.trace m) m = m16JournalClear.final m := rfl
    rw [finished, whole]
    exact Or.inl ⟨fun sealedJournal => sealedJournal.committed uncommitted, same⟩
  · exact Or.inl ⟨fun sealedJournal => broken sealedJournal.magic, sameDisk⟩

section

variable {diskBlockCount : UInt64} (small : diskBlockCount.toNat * 512 < 2 ^ 64)
  {records : List JournalRecord} (bounded : records.length ≤ 32)
  (inRange : ∀ record ∈ records, record.targetBlock < diskBlockCount)
  {m : JournalMachine} (idle : Idle m)

include bounded idle in
/-- After the commit store the journal holds the transaction and the disk is
the old one. -/
theorem committed_state :
    let committedState := m16JournalCommit.final ((appendAll records).final m)
    Holds committedState.journal records ∧ committedState.journal.committed = 1 ∧
      committedState.disk = m.disk := by
  have held : Holds ((appendAll records).final m).journal ([] ++ records) :=
    appendAll_holds idle.holds (by simpa using bounded)
  have waiting := appendAll_prefixInv records m _ (List.prefix_refl _)
  exact ⟨held.congr rfl rfl rfl, rfl, waiting.2.2⟩

include bounded inRange idle in
theorem committed_state_recovers :
    Recovers diskBlockCount (m16JournalCommit.final ((appendAll records).final m))
      (applyRecords records m.disk) := by
  rcases committed_state bounded idle with ⟨held, committed, same⟩
  refine Or.inr ⟨records, held, ?_, inRange, ?_⟩
  · rw [committed]
    decide
  · rw [same]

include small bounded inRange idle in
/-- After the replay the disk has the transaction too. -/
theorem replayed_state :
    let replayedState := (m16JournalReplay diskBlockCount).final
      (m16JournalCommit.final ((appendAll records).final m))
    replayedState.journal.magic = m16JournalMagic ∧
      replayedState.disk = applyRecords records m.disk ∧
      Recovers diskBlockCount replayedState (applyRecords records m.disk) := by
  have recovers := committed_state_recovers bounded inRange idle
  refine ⟨?_, recovers.replay_final small, ?_⟩
  · rw [m16JournalReplay_journal]
    exact (committed_state bounded idle).1.magic
  · exact (recovers.replay_prefixInv small _ (List.prefix_refl _)).2

include small bounded inRange idle in
/-- What a stop inside a transaction recovers to: nothing of it before the
commit store, all of it from there on. -/
theorem runTransaction_prefixInv :
    (runTransaction diskBlockCount records).PrefixInv m (fun done s =>
      (commitStores done = 0 ∧ Recovers diskBlockCount s m.disk) ∨
        (commitStores done = 1 ∧ Recovers diskBlockCount s (applyRecords records m.disk))) := by
  have waiting := appendAll_prefixInv records m
  have unsealed : ∀ s : JournalMachine, s.journal.committed = m.journal.committed →
      s.disk = m.disk → Recovers diskBlockCount s m.disk := by
    intro s same diskSame
    refine Or.inl ⟨fun sealedJournal => sealedJournal.committed ?_, diskSame⟩
    rw [same, idle.uncommitted]
  have appended := waiting _ (List.prefix_refl _)
  have recovers := committed_state_recovers bounded inRange idle
  rcases replayed_state small bounded inRange idle with ⟨magic, written, replayedRecovers⟩
  rw [← written] at replayedRecovers
  have replaying := recovers.replay_prefixInv small
  have replayed := replaying _ (List.prefix_refl _)
  -- The four calls in turn; every stop lies inside one of them.
  rw [runTransaction, prefixInv_bind, prefixInv_bind, prefixInv_bind]
  refine ⟨?_, ?_, ?_, ?_⟩
  · refine waiting.mono ?_
    intro done s holds
    exact Or.inl ⟨holds.1, unsealed s holds.2.1 holds.2.2⟩
  · rw [m16JournalCommit, prefixInv_bind, prefixInv_emit, prefixInv_pure]
    simp only [commitStores_append, appended.1]
    refine ⟨⟨Or.inl ⟨rfl, unsealed _ appended.2.1 appended.2.2⟩, ?_⟩, ?_⟩
    · exact Or.inr ⟨rfl, recovers⟩
    · exact Or.inr ⟨rfl, recovers⟩
  · refine replaying.mono ?_
    intro done s holds
    right
    rw [commitStores_append, commitStores_append, appended.1, m16JournalCommit_stores, holds.1]
    exact ⟨rfl, holds.2⟩
  · refine (m16JournalClear_prefixInv magic replayedRecovers).mono ?_
    intro done s holds
    right
    rw [commitStores_append, commitStores_append, commitStores_append, appended.1,
      m16JournalCommit_stores, replayed.1, holds.1, ← written]
    exact ⟨rfl, holds.2⟩

include small bounded inRange idle in
theorem runTransaction_final :
    Idle ((runTransaction diskBlockCount records).final m) ∧
      ((runTransaction diskBlockCount records).final m).disk = applyRecords records m.disk ∧
      commitStores ((runTransaction diskBlockCount records).trace m) = 1 := by
  have appended := appendAll_prefixInv records m _ (List.prefix_refl _)
  have recovers := committed_state_recovers bounded inRange idle
  have replayed := recovers.replay_prefixInv small _ (List.prefix_refl _)
  rcases replayed_state small bounded inRange idle with ⟨magic, written, replayedRecovers⟩
  rcases m16JournalClear_holds magic with ⟨holds, uncommitted, same⟩
  rw [← written] at replayedRecovers
  have clearing := m16JournalClear_prefixInv magic replayedRecovers _ (List.prefix_refl _)
  rw [runTransaction, final_bind, final_bind, final_bind, trace_bind, trace_bind, trace_bind]
  refine ⟨⟨holds, uncommitted⟩, same.trans written, ?_⟩
  rw [commitStores_append, commitStores_append, commitStores_append, appended.1,
    m16JournalCommit_stores, replayed.1, clearing.1]

end

/-! ### Any number of transactions -/

theorem runTransactions_prefixInv {diskBlockCount : UInt64}
    (small : diskBlockCount.toNat * 512 < 2 ^ 64) {transactions : List (List JournalRecord)}
    (bounded : ∀ records ∈ transactions, records.length ≤ 32)
    (inRange : ∀ records ∈ transactions, ∀ record ∈ records, record.targetBlock < diskBlockCount)
    {m : JournalMachine} (idle : Idle m) :
    (runTransactions diskBlockCount transactions).PrefixInv m (fun done s =>
      Recovers diskBlockCount s
        (applyTransactions (transactions.take (commitStores done)) m.disk)) := by
  induction transactions generalizing m with
  | nil =>
      rw [runTransactions, prefixInv_pure]
      exact Or.inl ⟨fun sealedJournal => sealedJournal.committed idle.uncommitted, rfl⟩
  | cons records rest inductionHypothesis =>
      have first := bounded records List.mem_cons_self
      have firstInRange := inRange records List.mem_cons_self
      rcases runTransaction_final small first firstInRange idle with ⟨idleAfter, written, stores⟩
      rw [runTransactions, prefixInv_bind]
      constructor
      · refine (runTransaction_prefixInv small first firstInRange idle).mono ?_
        intro done s holds
        rcases holds with ⟨none, recovers⟩ | ⟨one, recovers⟩
        · rw [none]
          exact recovers
        · rw [one]
          exact recovers
      · refine (inductionHypothesis
          (fun other member => bounded other (List.mem_cons_of_mem _ member))
          (fun other member => inRange other (List.mem_cons_of_mem _ member)) idleAfter).mono ?_
        intro done s recovers
        rw [commitStores_append, stores, Nat.add_comm, List.take_succ_cons]
        rw [written] at recovers
        exact recovers

/-- Crash atomicity and durability. Wherever the run of the transactions stops,
and however often recovery is stopped and restarted, recovery ends with the
disk of the transactions whose commit store had executed, and nothing of the
others. -/
theorem crash_recovery (memory : JournalMachine) (diskBlockCount : UInt64)
    (small : diskBlockCount.toNat * 512 < 2 ^ 64) (transactions : List (List JournalRecord))
    (bounded : ∀ records ∈ transactions, records.length ≤ 32)
    (inRange : ∀ records ∈ transactions, ∀ record ∈ records, record.targetBlock < diskBlockCount)
    (done : List JournalAccess)
    (stopped : done <+:
      (runTransactions diskBlockCount transactions).trace (m16JournalInit.final memory))
    (disk : Nat → UInt8)
    (recovered : Recovered diskBlockCount (applyAll done (m16JournalInit.final memory)) disk) :
    disk = applyTransactions (transactions.take (commitStores done)) memory.disk := by
  rcases m16JournalInit_holds memory with ⟨holds, uncommitted, same⟩
  have recovers := runTransactions_prefixInv small bounded inRange ⟨holds, uncommitted⟩ done stopped
  rw [same] at recovers
  exact recovers.recovered small recovered

/-- A block of sevens for the second block of a zeroed disk. -/
def sevens : JournalRecord := ⟨1, fun _ => 7⟩

/-- The accesses of a transaction up to its commit store. -/
def sevensCommitted : List JournalAccess :=
  (appendAll [sevens]).trace (m16JournalInit.final zeroedMachine) ++
    m16JournalCommit.trace ((appendAll [sevens]).final (m16JournalInit.final zeroedMachine))

theorem crash_recovery_sevens :
    sevensCommitted <+:
        (runTransactions 2 [[sevens]]).trace (m16JournalInit.final zeroedMachine) ∧
      ((m16JournalReplay 2).final
          (applyAll sevensCommitted (m16JournalInit.final zeroedMachine))).disk =
        applyTransactions ([[sevens]].take (commitStores sevensCommitted)) zeroedMachine.disk := by
  have stopped : sevensCommitted <+:
      (runTransactions 2 [[sevens]]).trace (m16JournalInit.final zeroedMachine) := by
    rw [runTransactions, trace_bind, runTransaction, trace_bind, trace_bind, sevensCommitted]
    simp only [List.append_assoc]
    rw [← List.append_assoc]
    exact List.prefix_append _ _
  refine ⟨stopped, ?_⟩
  exact crash_recovery zeroedMachine 2 (by decide) [[sevens]] (by simp)
    (by simp only [List.mem_singleton, forall_eq]; decide) sevensCommitted stopped _ (.finished _)

end Mcsos.Journal
