import Mcsos.Journal.Isolation

/-!
Contract: the representation invariant of the journal, over every run of its
calls with any disk at each of them.

`Holds` says what the used slots hold. Here the slots behind them join in: no
call leaves a valid entry there, since `init` and `clear` zero every byte of the
array and nothing but an append sets a flag.
-/

namespace Mcsos.Journal

open Mcsos.Machine
open Mcsos.Machine.Prog

/-- The slots of the array from `count` on are not valid. -/
def BlankFrom (journal : M16Journal) (count : Nat) : Prop :=
  ∀ index, count ≤ index → index < 32 → (journal.entries index).valid = false

/-! ### Init and clear blank the array -/

theorem JournalEntry.setByte_valid (entry : JournalEntry) (offset : Nat) :
    (entry.setByte offset 0).valid = if offset = 520 then false else entry.valid := by
  unfold JournalEntry.setByte
  split_ifs <;> first | rfl | omega

/-- The flags in the first `zeroed` bytes are off. -/
def FlagsOff (zeroed : Nat) (journal : M16Journal) : Prop :=
  ∀ index, entriesOffset + index * entrySize + 520 < zeroed → (journal.entries index).valid = false

theorem FlagsOff.setByte {zeroed : Nat} {journal : M16Journal} (off : FlagsOff zeroed journal) :
    FlagsOff (zeroed + 1) (journal.setByte zeroed 0) := by
  intro index inside
  simp only [entriesOffset, entrySize] at inside
  by_cases header : zeroed < 16
  · -- no flag lies in the bytes before the array
    omega
  · have inEntries : (journal.setByte zeroed 0).entries =
        Function.update journal.entries ((zeroed - 16) / 528)
          ((journal.entries ((zeroed - 16) / 528)).setByte ((zeroed - 16) % 528) 0) := by
      rw [M16Journal.setByte, if_neg (by omega), if_neg (by omega), if_neg (by omega),
        if_neg (by rw [entriesOffset]; omega)]
      rfl
    rw [inEntries]
    by_cases here : index = (zeroed - 16) / 528
    · rw [← here, Function.update_self, JournalEntry.setByte_valid]
      split_ifs with flag
      · rfl
      · apply off
        simp only [entriesOffset, entrySize]
        omega
    · rw [Function.update_of_ne here]
      apply off
      simp only [entriesOffset, entrySize]
      omega

theorem m16Memzero_flagsOff (m : JournalMachine) (size : Nat) :
    FlagsOff size ((m16Memzero .storeByte size).final m).journal := by
  have start : FlagsOff 0 m.journal := fun _ impossible => absurd impossible (Nat.not_lt_zero _)
  have loop := forLoop_invariant 0 size (fun index => emit (JournalAccess.storeByte index 0))
    (fun zeroed s => FlagsOff zeroed s.journal) start (fun _ _ _ _ off => off.setByte)
  rw [Nat.zero_add] at loop
  exact loop

theorem m16Memzero_blank (m : JournalMachine) :
    BlankFrom ((m16Memzero .storeByte journalSize).final m).journal 0 := by
  intro index _ slot
  apply m16Memzero_flagsOff m journalSize
  simp only [journalSize, entriesOffset, entrySize]
  omega

theorem BlankFrom.storeMagic {s : JournalMachine} {count : Nat} (blank : BlankFrom s.journal count)
    (value : UInt32) : BlankFrom (Event.apply (JournalAccess.storeMagic value) s).journal count :=
  blank

theorem m16JournalInit_blank (m : JournalMachine) :
    BlankFrom (m16JournalInit.final m).journal 0 := by
  rw [m16JournalInit, final_bind, final_emit]
  exact (m16Memzero_blank m).storeMagic _

theorem m16JournalClear_blank (m : JournalMachine) :
    BlankFrom (m16JournalClear.final m).journal 0 := by
  rw [m16JournalClear, final_bind, final_bind, final_emit, final_get, result_get]
  exact (m16Memzero_blank m).storeMagic _

/-! ### Accesses to the array -/

/-- The access is not to an entry behind the array. -/
def JournalAccess.InArray : JournalAccess → Prop
  | .loadEntry index | .storeTargetBlock index _ | .storeValid index _ | .storeData index _ _ =>
      index < 32
  | _ => True

theorem memcpy_issues {dst : Nat → UInt8 → JournalAccess} (inArray : ∀ position value,
    (dst position value).InArray) (src : Nat → UInt8) (size : Nat) (m : JournalMachine) :
    (m16Memcpy dst src size).Issues JournalAccess.InArray m :=
  forLoop_emit_issues 0 size _ m fun _ _ _ => inArray _ _

theorem memzero_issues (size : Nat) (m : JournalMachine) :
    (m16Memzero .storeByte size).Issues JournalAccess.InArray m :=
  forLoop_emit_issues 0 size _ m fun _ _ _ => trivial

theorem replayEntry_issues {index : Nat} (slot : index < 32) (diskBlockCount : UInt64)
    (m : JournalMachine) :
    (replayEntry diskBlockCount index).Issues JournalAccess.InArray m := by
  have copied : ∀ dst src s, (m16Memcpy (fun position => .storeDisk (dst + position)) src
      m16JournalBlockSize).Issues JournalAccess.InArray s := by
    intro dst src s
    apply memcpy_issues
    exact fun _ _ => trivial
  simp [replayEntry, issues_ite, copied, JournalAccess.InArray, slot]

/-- The replay indexes the entries below `entry_count` only. -/
theorem m16JournalReplay_issues {m : JournalMachine} (bounded : m.journal.entryCount.toNat ≤ 32)
    (diskBlockCount : UInt64) :
    (m16JournalReplay diskBlockCount).Issues JournalAccess.InArray m := by
  have loop : (scanLoop 0 m.journal.entryCount.toNat (replayEntry diskBlockCount)).Issues
      JournalAccess.InArray m := by
    refine scanLoop_issues 0 _ (replayEntry diskBlockCount) JournalAccess.InArray
      (fun _ _ => True) trivial ?_
    intro index s _ upper _
    exact ⟨replayEntry_issues (by omega) diskBlockCount s, fun _ => trivial⟩
  simp [m16JournalReplay, issues_ite, loop]

theorem m16JournalAppend_inArray (targetBlock : UInt64) (data : Nat → UInt8) (m : JournalMachine) :
    (m16JournalAppend targetBlock data).Issues JournalAccess.InArray m := by
  by_cases full : m.journal.entryCount ≥ m16JournalMaxEntries
  · simp [m16JournalAppend, full]
  · have slot : m.journal.entryCount.toNat < 32 := by
      rw [ge_iff_le, UInt32.le_iff_toNat_le] at full
      exact Nat.not_le.mp full
    have copied : ∀ s, (m16Memcpy (.storeData m.journal.entryCount.toNat) data
        m16JournalBlockSize).Issues JournalAccess.InArray s := by
      intro s
      apply memcpy_issues
      exact fun _ _ => slot
    simp [m16JournalAppend, full, copied, JournalAccess.InArray, slot]

/-! ### Whole runs -/

/-- A call, and the disk that a replay among the calls is given. -/
structure DiskCall where
  disk : Nat → UInt8
  call : JournalCall

/-- The session as the call finds it. -/
def Session.onDisk (session : Session) (disk : Nat → UInt8) : Session :=
  { session with machine := { session.machine with disk := disk } }

def Session.nextOn (session : Session) (on : DiskCall) : Session :=
  (session.onDisk on.disk).next on.call

/-- The representation invariant: the used entries are the records appended
since the last `init` or `clear`, and nothing behind them is valid. -/
structure Session.Intact (session : Session) : Prop where
  magic : session.machine.journal.magic = m16JournalMagic
  bounded : session.machine.journal.entryCount.toNat ≤ 32
  count : session.machine.journal.entryCount.toNat = session.ledger.appended.length
  entries : ∀ index record, session.ledger.appended[index]? = some record →
    (session.machine.journal.entries index).Is record
  rest : ∀ index, session.machine.journal.entryCount.toNat ≤ index → index < 32 →
    (session.machine.journal.entries index).valid = false
  fsck : m16JournalFsck.result session.machine = .ok

/-- An append is refused exactly when 32 entries are held, and then stores
nothing. -/
def Session.RefusesWhenFull (session : Session) : JournalCall → Prop
  | .append targetBlock data =>
      ((m16JournalAppend targetBlock data).result session.machine = .efull ↔
        session.ledger.appended.length = 32) ∧
      ((m16JournalAppend targetBlock data).result session.machine = .efull →
        ((m16JournalAppend targetBlock data).final session.machine).journal =
          session.machine.journal)
  | _ => True

/-- The journal is kept by the call. -/
structure Session.Keeps (session : Session) (on : DiskCall) : Prop where
  intact : (session.nextOn on).Intact
  inArray : ∀ access ∈ on.call.exec.trace (session.onDisk on.disk).machine, access.InArray
  full : (session.onDisk on.disk).RefusesWhenFull on.call

theorem fsck_ok {m : JournalMachine} {records : List JournalRecord} (holds : Holds m.journal records) :
    m16JournalFsck.result m = .ok := by
  have fits : ¬ m.journal.entryCount > m16JournalMaxEntries := by
    rw [gt_iff_lt, UInt32.lt_iff_toNat_lt, holds.count]
    have bounded := holds.bounded
    have max : m16JournalMaxEntries.toNat = 32 := rfl
    omega
  simp [m16JournalFsck, holds.magic, fits]

/-- What the calls keep. -/
structure Session.Kept (session : Session) : Prop where
  valid : session.Valid
  blank : BlankFrom session.machine.journal session.ledger.appended.length

theorem Session.Kept.intact {session : Session} (kept : session.Kept) : session.Intact := by
  have holds := kept.valid.holds
  refine ⟨holds.magic, ?_, holds.count, holds.entry, ?_, fsck_ok holds⟩
  · rw [holds.count]
    exact holds.bounded
  · rw [holds.count]
    exact kept.blank

theorem initialised_kept (memory : JournalMachine) : (initialised memory).Kept :=
  ⟨initialised_valid memory, m16JournalInit_blank memory⟩

theorem Session.Kept.next {session : Session} (kept : session.Kept) (call : JournalCall) :
    (session.next call).Kept := by
  have holds := kept.valid.holds
  refine ⟨Ledger.Describes.after kept.valid call, ?_⟩
  cases call with
  | init =>
      simp only [Session.next, JournalCall.exec, final_bind, final_pure]
      exact m16JournalInit_blank _
  | clear =>
      simp only [Session.next, JournalCall.exec, final_bind, final_pure]
      exact m16JournalClear_blank _
  | commit => exact kept.blank
  | replay diskBlockCount =>
      simp only [Session.next, JournalCall.exec, final_bind, final_pure, m16JournalReplay_journal]
      exact kept.blank
  | append targetBlock data =>
      simp only [Session.next, kept.valid.append_status, Ledger.after]
      simp only [JournalCall.exec, final_bind, final_pure]
      by_cases space : session.ledger.appended.length < 32
      · have countSmall : session.machine.journal.entryCount.toNat < 32 := by
          rw [holds.count]
          exact space
        rw [if_pos space, if_pos rfl, (m16JournalAppend_final countSmall targetBlock data).2]
        intro index behind slot
        rw [List.length_append, List.length_singleton] at behind
        show (Function.update session.machine.journal.entries _ _ index).valid = false
        rw [holds.count, Function.update_of_ne (by omega)]
        exact kept.blank index (by omega) slot
      · have full : session.ledger.appended.length = 32 := by
          have bounded := holds.bounded
          omega
        rw [if_neg space, if_neg (by decide), final,
          (m16JournalAppend_full holds full targetBlock data).2]
        exact kept.blank

theorem Session.Kept.inArray {session : Session} (kept : session.Kept) (call : JournalCall) :
    call.exec.Issues JournalAccess.InArray session.machine := by
  have holds := kept.valid.holds
  have bounded : session.machine.journal.entryCount.toNat ≤ 32 := by
    rw [holds.count]
    exact holds.bounded
  cases call with
  | init => simp [JournalCall.exec, m16JournalInit, memzero_issues, JournalAccess.InArray]
  | clear => simp [JournalCall.exec, m16JournalClear, memzero_issues, JournalAccess.InArray]
  | commit => simp [JournalCall.exec, m16JournalCommit, JournalAccess.InArray]
  | replay diskBlockCount => simp [JournalCall.exec, m16JournalReplay_issues bounded]
  | append targetBlock data => simp [JournalCall.exec, m16JournalAppend_inArray]

theorem Session.Kept.full {session : Session} (kept : session.Kept) (call : JournalCall) :
    session.RefusesWhenFull call := by
  cases call with
  | append targetBlock data =>
      have holds := kept.valid.holds
      by_cases space : session.ledger.appended.length < 32
      · have countSmall : session.machine.journal.entryCount.toNat < 32 := by
          rw [holds.count]
          exact space
        have notFull : session.ledger.appended.length ≠ 32 := by omega
        simp [Session.RefusesWhenFull, (m16JournalAppend_final countSmall targetBlock data).1,
          notFull]
      · have full : session.ledger.appended.length = 32 := by
          have bounded := holds.bounded
          omega
        obtain ⟨status, nothing⟩ := m16JournalAppend_full holds full targetBlock data
        have same : (m16JournalAppend targetBlock data).final session.machine =
            session.machine := by
          rw [final, nothing, applyAll_nil]
        simp only [Session.RefusesWhenFull, status, full, same, implies_true, and_self]
  | _ => trivial

theorem Session.Kept.onDisk {session : Session} (kept : session.Kept) (disk : Nat → UInt8) :
    (session.onDisk disk).Kept :=
  ⟨⟨kept.valid.holds, kept.valid.committed, kept.valid.bounded⟩, kept.blank⟩

/-- The representation invariant holds after `m16_journal_init` and is kept by
every run of the calls, with any disk at each of them. -/
theorem run_keeps_journal (memory : JournalMachine) (calls : List DiskCall) :
    (initialised memory).Intact ∧
      EveryCall Session.nextOn Session.Keeps calls (initialised memory) := by
  refine ⟨(initialised_kept memory).intact, ?_⟩
  refine everyCall_of_invariant Session.Kept ?_ (initialised_kept memory)
    (everyCall_true calls (initialised memory))
  intro session on kept _
  have found := kept.onDisk on.disk
  have after := found.next on.call
  exact ⟨⟨after.intact, found.inArray on.call, found.full on.call⟩, after⟩

end Mcsos.Journal
