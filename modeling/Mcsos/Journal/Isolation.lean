import Mcsos.Journal.Records
import Mcsos.Machine.Run

/-!
Contract: which entries a replay applies, in every run of the journal calls.

The journal has one committed flag and no count of the entries the flag was
set for. `Ledger` is what the calls themselves say: the records appended since
the last `init` or `clear`, and how many of them the last `commit` sealed. A
replay is isolated when it writes sealed records only; the module determines
exactly which replays of a run are.
-/

namespace Mcsos.Journal

open Mcsos.Machine
open Mcsos.Machine.Prog

inductive JournalCall where
  | init
  | append (targetBlock : UInt64) (data : Nat → UInt8)
  | commit
  | replay (diskBlockCount : UInt64)
  | clear

/-- The call and its status; `init` and `clear` return none. -/
def JournalCall.exec : JournalCall → JournalProg (Option M16Status)
  | .init => do m16JournalInit; pure none
  | .append targetBlock data => do return some (← m16JournalAppend targetBlock data)
  | .commit => do return some (← m16JournalCommit)
  | .replay diskBlockCount => do return some (← m16JournalReplay diskBlockCount)
  | .clear => do m16JournalClear; pure none

/-- What a caller knows of a journal: the records whose append returned
`M16_JOURNAL_OK` since the last `init` or `clear`, and how many of them came
before the most recent `commit`, if there was one. -/
structure Ledger where
  appended : List JournalRecord
  sealedCount : Option Nat

def Ledger.empty : Ledger := ⟨[], none⟩

/-- The ledger after a call that returned `status`. -/
def Ledger.after (ledger : Ledger) (status : Option M16Status) : JournalCall → Ledger
  | .init | .clear => .empty
  | .append targetBlock data =>
      if status = some .ok then
        { ledger with appended := ledger.appended ++ [⟨targetBlock, data⟩] }
      else
        ledger
  | .commit => { ledger with sealedCount := some ledger.appended.length }
  | .replay _ => ledger

/-- The records the most recent commit covers. -/
def Ledger.sealedRecords (ledger : Ledger) : List JournalRecord :=
  ledger.appended.take (ledger.sealedCount.getD 0)

/-- The journal and what its caller knows of it. -/
structure Session where
  machine : JournalMachine
  ledger : Ledger

def Session.next (session : Session) (call : JournalCall) : Session where
  machine := call.exec.final session.machine
  ledger := session.ledger.after (call.exec.result session.machine) call

/-- A replay that succeeds stores sealed records to the disk, and nothing
else. -/
def Isolated (session : Session) : JournalCall → Prop
  | .replay diskBlockCount =>
      (m16JournalReplay diskBlockCount).result session.machine = .ok →
        (diskStores ((m16JournalReplay diskBlockCount).trace session.machine)).Sublist
          (session.ledger.sealedRecords.flatMap JournalRecord.stores)
  | _ => True

/-- There is nothing to isolate from a replay: no commit since the last `init`
or `clear`, no append since the last commit, or a record the replay will
refuse. -/
def NothingUnsealed (session : Session) : JournalCall → Prop
  | .replay diskBlockCount =>
      session.ledger.sealedCount = none ∨
        session.ledger.sealedCount = some session.ledger.appended.length ∨
        ∃ record ∈ session.ledger.appended, diskBlockCount ≤ record.targetBlock
  | _ => True

/-! ### The ledger describes the journal -/

/-- The journal holds the appended records, and is committed when the ledger
says so. -/
structure Ledger.Describes (ledger : Ledger) (m : JournalMachine) : Prop where
  holds : Holds m.journal ledger.appended
  committed : m.journal.committed ≠ 0 ↔ ledger.sealedCount ≠ none
  bounded : ∀ count, ledger.sealedCount = some count → count ≤ ledger.appended.length

theorem Ledger.empty_describes {m : JournalMachine} (holds : Holds m.journal [])
    (uncommitted : m.journal.committed = 0) : Ledger.empty.Describes m :=
  ⟨holds, by simp [uncommitted, Ledger.empty], by simp [Ledger.empty]⟩

/-- An append succeeds exactly while there is space. -/
theorem Ledger.Describes.append_status {ledger : Ledger} {m : JournalMachine}
    (describes : ledger.Describes m) (targetBlock : UInt64) (data : Nat → UInt8) :
    (JournalCall.append targetBlock data).exec.result m =
      if ledger.appended.length < 32 then some .ok else some .efull := by
  simp only [JournalCall.exec, result_bind, result_pure]
  split
  next space =>
    have countSmall : m.journal.entryCount.toNat < 32 := by
      rw [describes.holds.count]
      exact space
    rw [(m16JournalAppend_final countSmall targetBlock data).1]
  next noSpace =>
    have bounded := describes.holds.bounded
    rw [(m16JournalAppend_full describes.holds (by omega) targetBlock data).1]

/-- One call of any kind keeps the description. -/
theorem Ledger.Describes.after {ledger : Ledger} {m : JournalMachine}
    (describes : ledger.Describes m) (call : JournalCall) :
    (ledger.after (call.exec.result m) call).Describes (call.exec.final m) := by
  cases call with
  | init =>
      rcases m16JournalInit_holds m with ⟨holds, uncommitted, -⟩
      simp only [JournalCall.exec, final_bind, final_pure, Ledger.after]
      exact empty_describes holds uncommitted
  | clear =>
      rcases m16JournalClear_holds describes.holds.magic with ⟨holds, uncommitted, -⟩
      simp only [JournalCall.exec, final_bind, final_pure, Ledger.after]
      exact empty_describes holds uncommitted
  | append targetBlock data =>
      simp only [describes.append_status, Ledger.after]
      simp only [JournalCall.exec, final_bind, final_pure]
      by_cases space : ledger.appended.length < 32
      · have countSmall : m.journal.entryCount.toNat < 32 := by
          rw [describes.holds.count]
          exact space
        rw [if_pos space, if_pos rfl]
        refine ⟨describes.holds.append space ⟨targetBlock, data⟩, ?_, ?_⟩
        · rw [(m16JournalAppend_final countSmall targetBlock data).2]
          exact describes.committed
        · intro count sealedAt
          have earlier := describes.bounded count sealedAt
          simp only [List.length_append, List.length_singleton]
          omega
      · have full : ledger.appended.length = 32 := by
          have bounded := describes.holds.bounded
          omega
        rw [if_neg space, if_neg (by decide), final,
          (m16JournalAppend_full describes.holds full targetBlock data).2]
        exact describes
  | commit =>
      refine ⟨describes.holds.congr rfl rfl rfl, ?_, ?_⟩
      · show (1 : UInt32) ≠ 0 ↔ some ledger.appended.length ≠ none
        simp
      · intro count sealedAt
        exact (Option.some.inj sealedAt).ge
  | replay diskBlockCount =>
      simp only [JournalCall.exec, final_bind, final_pure, Ledger.after]
      have same := m16JournalReplay_journal m diskBlockCount
      refine ⟨?_, ?_, describes.bounded⟩
      · rw [same]
        exact describes.holds
      · rw [same]
        exact describes.committed

/-! ### Isolation -/

theorem JournalRecord.stores_length (record : JournalRecord) : record.stores.length = 512 := by
  simp [stores, m16JournalBlockSize]

theorem stores_flatMap_length (records : List JournalRecord) :
    (records.flatMap JournalRecord.stores).length = 512 * records.length := by
  simp [List.length_flatMap, JournalRecord.stores_length, Nat.mul_comm]

/-- A replay that is not refused stores every record, sealed or not: the flag
covers the whole journal. -/
theorem isolated_iff {ledger : Ledger} {m : JournalMachine} (describes : ledger.Describes m)
    (diskBlockCount : UInt64) :
    Isolated ⟨m, ledger⟩ (.replay diskBlockCount) ↔
      NothingUnsealed ⟨m, ledger⟩ (.replay diskBlockCount) := by
  simp only [Isolated, NothingUnsealed]
  by_cases committed : m.journal.committed = 0
  · have unsealed : ledger.sealedCount = none := by
      by_contra present
      exact describes.committed.mpr present committed
    have silent : (m16JournalReplay diskBlockCount).trace m = [] :=
      m16JournalReplay_trace_of_not_sealed (fun sealedJournal => sealedJournal.committed committed) _
    simp [unsealed, silent, diskStores]
  · rcases Option.ne_none_iff_exists'.mp (describes.committed.mp committed) with ⟨count, sealedAt⟩
    have bounded := describes.bounded count sealedAt
    by_cases refused : ∃ record ∈ ledger.appended, diskBlockCount ≤ record.targetBlock
    · rcases refused with ⟨record, member, outOfRange⟩
      have status := describes.holds.replay_refused committed member outOfRange
      refine iff_of_true ?_ (Or.inr (Or.inr ⟨record, member, outOfRange⟩))
      intro succeeded
      rw [status] at succeeded
      exact absurd succeeded (by decide)
    · have inRange : ∀ record ∈ ledger.appended, record.targetBlock < diskBlockCount := by
        intro record member
        exact UInt64.not_le.mp fun reaches => refused ⟨record, member, reaches⟩
      rcases describes.holds.replay_accepted committed inRange with ⟨status, issued, -⟩
      have stored : diskStores ((m16JournalReplay diskBlockCount).trace m) =
          ledger.appended.flatMap JournalRecord.stores := by
        rw [issued]
        apply diskStores_flatMap
        intro index record present
        rw [Nat.zero_add]
        exact describes.holds.entry index record present
      rw [status, stored]
      simp only [sealedAt, refused, or_false, reduceCtorEq, false_or, Option.some.injEq,
        forall_const, Ledger.sealedRecords, Option.getD_some]
      constructor
      · intro sublist
        have lengths := sublist.length_le
        rw [stores_flatMap_length, stores_flatMap_length, List.length_take] at lengths
        omega
      · intro all
        rw [all, List.take_length]

/-- The ledger of the session describes its journal. -/
def Session.Valid (session : Session) : Prop := session.ledger.Describes session.machine

theorem isolated_run_iff {session : Session} (valid : session.Valid) (calls : List JournalCall) :
    EveryCall Session.next Isolated calls session ↔
      EveryCall Session.next NothingUnsealed calls session := by
  refine everyCall_iff Session.Valid ?_ valid (everyCall_true calls session)
  intro session call describes _
  have kept : (session.next call).Valid := Ledger.Describes.after describes call
  refine ⟨?_, fun _ => kept⟩
  cases call with
  | replay diskBlockCount => exact isolated_iff describes diskBlockCount
  | _ => exact Iff.rfl

/-- The session right after `m16_journal_init`, whatever the memory was. -/
def initialised (memory : JournalMachine) : Session := ⟨m16JournalInit.final memory, .empty⟩

theorem initialised_describes (memory : JournalMachine) :
    Ledger.empty.Describes (m16JournalInit.final memory) := by
  rcases m16JournalInit_holds memory with ⟨holds, uncommitted, -⟩
  exact Ledger.empty_describes holds uncommitted

theorem initialised_valid (memory : JournalMachine) : (initialised memory).Valid := by
  simp only [Session.Valid, initialised]
  exact initialised_describes memory

/-- Every replay of a run applies sealed records only exactly when each of them
is made with nothing unsealed in the journal. -/
theorem every_replay_isolated_iff (memory : JournalMachine) (calls : List JournalCall) :
    EveryCall Session.next Isolated calls (initialised memory) ↔
      EveryCall Session.next NothingUnsealed calls (initialised memory) :=
  isolated_run_iff (initialised_valid memory) calls

/-- An entry appended after the commit, with no later commit. -/
def appendAfterCommit : List JournalCall :=
  [.append 0 fun _ => 1, .commit, .append 1 fun _ => 2, .replay 2]

/-- The replay writes the second entry, which no commit covers. -/
theorem appendAfterCommit_not_isolated :
    ¬ EveryCall Session.next Isolated appendAfterCommit (initialised zeroedMachine) := by
  intro isolated
  have started := initialised_describes zeroedMachine
  have firstStatus := started.append_status 0 fun _ => 1
  have second := (started.after (.append 0 fun _ => 1)).after .commit
  have secondStatus := second.append_status 1 fun _ => 2
  rcases (isolated_run_iff (initialised_valid zeroedMachine) _).mp isolated with
    ⟨-, -, -, unsealed, -⟩
  simp [Ledger.after, firstStatus, Ledger.empty] at secondStatus
  simp [NothingUnsealed, Session.next, Ledger.after, firstStatus, secondStatus, initialised,
    Ledger.empty] at unsealed

end Mcsos.Journal
