import Mcsos.Journal.Replay
import Mcsos.Machine.Slots
import Mathlib.Tactic.IntervalCases

/-!
The records a journal holds, and what each operation does to them.

`Holds` is the representation invariant of a journal in use. Every operation
is described once against it: `append` adds a record, `commit` keeps them,
`init` and `clear` drop them, `replay` writes them to the disk. Inside the byte
loop of `init` and `clear` the journal holds nothing and its magic is broken.
-/

namespace Mcsos.Journal

open Mcsos.Machine
open Mcsos.Machine.Prog

/-- What one `m16_journal_append` is given: a block and its bytes. -/
structure JournalRecord where
  targetBlock : UInt64
  data : Nat → UInt8

/-- The entry holds the record. -/
structure JournalEntry.Is (entry : JournalEntry) (record : JournalRecord) : Prop where
  valid : entry.valid = true
  targetBlock : entry.targetBlock = record.targetBlock
  data : ∀ position < m16JournalBlockSize, entry.data position = record.data position

/-- The journal holds exactly these records, oldest first. -/
structure Holds (journal : M16Journal) (records : List JournalRecord) : Prop where
  magic : journal.magic = m16JournalMagic
  bounded : records.length ≤ 32
  count : journal.entryCount.toNat = records.length
  entry : ∀ index record, records[index]? = some record → (journal.entries index).Is record

theorem Holds.congr {journal other : M16Journal} {records : List JournalRecord}
    (holds : Holds journal records) (magic : other.magic = journal.magic)
    (count : other.entryCount = journal.entryCount) (entries : other.entries = journal.entries) :
    Holds other records where
  magic := magic.trans holds.magic
  bounded := holds.bounded
  count := by rw [count, holds.count]
  entry := by rw [entries]; exact holds.entry

/-! ### Append -/

theorem copyToEntry_final (m : JournalMachine) (index size : Nat) (src : Nat → UInt8) :
    (m16Memcpy (.storeData index) src size).final m =
      { m with journal := m.journal.modifyEntry index fun entry =>
          { entry with data := writeRange entry.data 0 size src } } := by
  have loop := forLoop_emit_writeRange
    (fun position => JournalAccess.storeData index position (src position))
    (fun data => { m with journal := m.journal.modifyEntry index ({ · with data := data }) })
    (m.journal.entries index).data 0 size src (by
      intro position _ memory
      simp [Event.apply, JournalAccess.apply, M16Journal.modifyEntry])
  simp only [M16Journal.modifyEntry, Function.update_eq_self] at loop
  exact loop

/-- An append to a full journal stores nothing. -/
theorem m16JournalAppend_full {m : JournalMachine} {records : List JournalRecord}
    (holds : Holds m.journal records) (full : records.length = 32) (targetBlock : UInt64)
    (data : Nat → UInt8) :
    (m16JournalAppend targetBlock data).result m = .efull ∧
      (m16JournalAppend targetBlock data).trace m = [] := by
  have reached : m16JournalMaxEntries ≤ m.journal.entryCount := by
    rw [UInt32.le_iff_toNat_le, holds.count, full]
    decide
  simp [m16JournalAppend, reached]

theorem m16JournalAppend_final {m : JournalMachine}
    (space : m.journal.entryCount.toNat < 32) (targetBlock : UInt64) (data : Nat → UInt8) :
    (m16JournalAppend targetBlock data).result m = .ok ∧
      (m16JournalAppend targetBlock data).final m =
        { m with journal :=
          { m.journal with
            entryCount := m.journal.entryCount + 1
            entries := Function.update m.journal.entries m.journal.entryCount.toNat
              ⟨targetBlock, writeRange
                (m.journal.entries m.journal.entryCount.toNat).data 0 m16JournalBlockSize data,
                true⟩ } } := by
  have notFull : ¬ m.journal.entryCount ≥ m16JournalMaxEntries := by
    rw [ge_iff_le, UInt32.le_iff_toNat_le]
    have max : m16JournalMaxEntries.toNat = 32 := rfl
    omega
  simp [m16JournalAppend, notFull, copyToEntry_final, Event.apply, JournalAccess.apply,
    M16Journal.modifyEntry]

/-- An append to a journal with space adds its record at the end. -/
theorem Holds.append {m : JournalMachine} {records : List JournalRecord}
    (holds : Holds m.journal records) (space : records.length < 32) (record : JournalRecord) :
    Holds ((m16JournalAppend record.targetBlock record.data).final m).journal
      (records ++ [record]) := by
  have countSmall : m.journal.entryCount.toNat < 32 := by rw [holds.count]; exact space
  rw [(m16JournalAppend_final countSmall _ _).2]
  refine ⟨holds.magic, by simp; omega, ?_, ?_⟩
  · have one : (1 : UInt32).toNat = 1 := rfl
    rw [UInt32.toNat_add, one, List.length_append, List.length_singleton, ← holds.count]
    omega
  · intro index found present
    show (Function.update m.journal.entries m.journal.entryCount.toNat _ index).Is found
    rw [holds.count]
    rcases getElem?_concat_cases present with ⟨old, present⟩ | ⟨newest, same⟩
    · rw [Function.update_of_ne (by omega)]
      exact holds.entry index found present
    · rw [newest, same, Function.update_self]
      refine ⟨rfl, rfl, ?_⟩
      intro position inside
      have copied := writeRange_inside (m.journal.entries records.length).data 0 record.data inside
      rwa [Nat.zero_add] at copied

/-- The stores an append makes. -/
def JournalAccess.InEntries : JournalAccess → Prop
  | .storeTargetBlock _ _ | .storeValid _ _ | .storeData _ _ _ | .storeEntryCount _ => True
  | _ => False

theorem m16JournalAppend_issues (targetBlock : UInt64) (data : Nat → UInt8) (m : JournalMachine) :
    (m16JournalAppend targetBlock data).Issues JournalAccess.InEntries m := by
  have copied : ∀ s index, (m16Memcpy (.storeData index) data m16JournalBlockSize).Issues
      JournalAccess.InEntries s := by
    intro s index
    exact forLoop_emit_issues 0 m16JournalBlockSize _ s fun _ _ _ => trivial
  simp [m16JournalAppend, issues_ite, copied, JournalAccess.InEntries]

/-! ### Init and clear -/

/-- The state inside `m16_memzero` over the journal: `zeroed` bytes are done.
A field whose low bytes are zero is a multiple of a power of 256. -/
structure ZeroedTo (m : JournalMachine) (zeroed : Nat) (s : JournalMachine) : Prop where
  disk : s.disk = m.disk
  magic : 0 < zeroed → s.journal.magic.toNat % 256 = 0
  committed : s.journal.committed.toNat % 256 ^ min (zeroed - 4) 4 = 0
  entryCount : s.journal.entryCount.toNat % 256 ^ min (zeroed - 8) 4 = 0

theorem zeroByte_toNat (word : UInt32) (position : Nat) :
    (UInt32.ofNat (replaceByte word.toNat position 0)).toNat =
      word.toNat - word.toNat / 256 ^ position % 256 * 256 ^ position := by
  have zero : (0 : UInt8).toNat = 0 := rfl
  rw [replaceByte, zero, Nat.zero_mul, Nat.add_zero]
  exact UInt32.toNat_ofNat_of_lt' (lt_of_le_of_lt (Nat.sub_le _ _) word.toNat_lt)

/-- Zeroing the bytes of a word from the low end clears it from the low end. -/
theorem zeroByte_clears (word : UInt32) {position : Nat} (inside : position < 4)
    (cleared : word.toNat % 256 ^ position = 0) :
    (UInt32.ofNat (replaceByte word.toNat position 0)).toNat % 256 ^ (position + 1) = 0 := by
  rw [zeroByte_toNat]
  interval_cases position <;> omega

theorem zeroByte_keeps_low (word : UInt32) {position : Nat} (inside : position < 4)
    (cleared : 0 < position → word.toNat % 256 = 0) :
    (UInt32.ofNat (replaceByte word.toNat position 0)).toNat % 256 = 0 := by
  rw [zeroByte_toNat]
  interval_cases position <;> omega

theorem zeroByte_step {m s : JournalMachine} {zeroed : Nat} (holds : ZeroedTo m zeroed s) :
    ZeroedTo m (zeroed + 1) (Event.apply (JournalAccess.storeByte zeroed 0) s) := by
  rcases holds with ⟨disk, magic, committed, entryCount⟩
  show ZeroedTo m (zeroed + 1) { s with journal := s.journal.setByte zeroed 0 }
  have committedSame : zeroed < 4 ∨ 8 ≤ zeroed →
      s.journal.committed.toNat % 256 ^ min (zeroed + 1 - 4) 4 = 0 := by
    intro outside
    have same : min (zeroed + 1 - 4) 4 = min (zeroed - 4) 4 := by omega
    rwa [same]
  have countSame : zeroed < 8 ∨ 12 ≤ zeroed →
      s.journal.entryCount.toNat % 256 ^ min (zeroed + 1 - 8) 4 = 0 := by
    intro outside
    have same : min (zeroed + 1 - 8) 4 = min (zeroed - 8) 4 := by omega
    rwa [same]
  -- One case for each field of the structure the byte can lie in.
  unfold M16Journal.setByte
  split_ifs with inMagic inCommitted inCount inPadding
  · exact ⟨disk, fun _ => zeroByte_keeps_low _ inMagic magic, committedSame (by omega),
      countSame (by omega)⟩
  · refine ⟨disk, fun _ => magic (by omega), ?_, countSame (by omega)⟩
    have next : min (zeroed + 1 - 4) 4 = zeroed - 4 + 1 := by omega
    have position : min (zeroed - 4) 4 = zeroed - 4 := by omega
    rw [position] at committed
    rw [next]
    exact zeroByte_clears _ (by omega) committed
  · refine ⟨disk, fun _ => magic (by omega), committedSame (by omega), ?_⟩
    have next : min (zeroed + 1 - 8) 4 = zeroed - 8 + 1 := by omega
    have position : min (zeroed - 8) 4 = zeroed - 8 := by omega
    rw [position] at entryCount
    rw [next]
    exact zeroByte_clears _ (by omega) entryCount
  · exact ⟨disk, fun _ => magic (by omega), committedSame (by omega), countSame (by omega)⟩
  · exact ⟨disk, fun _ => magic (by omega), committedSame (by omega), countSame (by omega)⟩

/-- Every state inside the byte loop. -/
theorem m16Memzero_zeroedTo (m : JournalMachine) (size : Nat) :
    ZeroedTo m size ((m16Memzero .storeByte size).final m) := by
  have loop := forLoop_invariant 0 size (fun index => emit (JournalAccess.storeByte index 0))
    (ZeroedTo m) ⟨rfl, fun impossible => absurd impossible (by omega), by simp [Nat.mod_one],
      by simp [Nat.mod_one]⟩
    (fun index s _ _ holds => zeroByte_step holds)
  rw [Nat.zero_add] at loop
  exact loop

theorem ZeroedTo.magic_broken {m s : JournalMachine} {zeroed : Nat} (holds : ZeroedTo m zeroed s)
    (started : 0 < zeroed) : s.journal.magic ≠ m16JournalMagic := by
  intro restored
  have low := holds.magic started
  rw [restored] at low
  exact absurd low (by decide)

theorem ZeroedTo.flags {m s : JournalMachine} (holds : ZeroedTo m journalSize s) :
    s.journal.committed = 0 ∧ s.journal.entryCount = 0 := by
  have clear : ∀ word : UInt32, word.toNat % 256 ^ 4 = 0 → word = 0 := by
    intro word low
    have small := word.toNat_lt
    apply UInt32.toNat_inj.mp
    show word.toNat = 0
    omega
  exact ⟨clear _ holds.committed, clear _ holds.entryCount⟩

/-- Zeroed memory and a store of the magic make an empty, uncommitted journal. -/
theorem ZeroedTo.holds {m s : JournalMachine} (zeroed : ZeroedTo m journalSize s) :
    let reset : JournalMachine := Event.apply (JournalAccess.storeMagic m16JournalMagic) s
    Holds reset.journal [] ∧ reset.journal.committed = 0 ∧ reset.disk = m.disk := by
  rcases zeroed.flags with ⟨committed, entryCount⟩
  refine ⟨⟨rfl, by simp, ?_, by simp⟩, committed, zeroed.disk⟩
  show s.journal.entryCount.toNat = 0
  rw [entryCount]
  rfl

theorem m16JournalInit_holds (m : JournalMachine) :
    Holds (m16JournalInit.final m).journal [] ∧ (m16JournalInit.final m).journal.committed = 0 ∧
      (m16JournalInit.final m).disk = m.disk := by
  rw [m16JournalInit, final_bind, final_emit]
  exact (m16Memzero_zeroedTo m journalSize).holds

theorem m16JournalClear_holds {m : JournalMachine} (magic : m.journal.magic = m16JournalMagic) :
    Holds (m16JournalClear.final m).journal [] ∧ (m16JournalClear.final m).journal.committed = 0 ∧
      (m16JournalClear.final m).disk = m.disk := by
  rw [m16JournalClear, final_bind, final_bind, final_emit, final_get, result_get, magic]
  exact (m16Memzero_zeroedTo m journalSize).holds

/-! ### Inside a clear -/

/-- A machine that stops inside a wipe of any length and the store of a magic
has not begun, or has finished, or has a broken magic. -/
theorem wipe_stops (m : JournalMachine) (magic : UInt32) {size : Nat} (nonempty : 0 < size) :
    (do m16Memzero .storeByte size; emit (.storeMagic magic) : JournalProg Unit).PrefixInv m
      (fun done s => done = [] ∨
        done = (m16Memzero .storeByte size).trace m ++ [.storeMagic magic] ∨
        s.journal.magic ≠ m16JournalMagic) := by
  have inLoop : ∀ zeroed, 0 < zeroed →
      ((m16Memzero .storeByte zeroed).final m).journal.magic ≠ m16JournalMagic :=
    fun zeroed started => (m16Memzero_zeroedTo m zeroed).magic_broken started
  rw [prefixInv_bind, prefixInv_emit]
  refine ⟨?_, ?_, ?_⟩
  · apply forLoop_emit_prefixInv
    intro zeroed _
    by_cases started : 0 < zeroed
    · exact Or.inr (Or.inr (inLoop zeroed started))
    · rw [Nat.eq_zero_of_not_pos started]
      exact Or.inl rfl
  · exact Or.inr (Or.inr (inLoop size nonempty))
  · exact Or.inr (Or.inl rfl)

theorem m16JournalClear_trace (m : JournalMachine) :
    m16JournalClear.trace m =
      (m16Memzero .storeByte journalSize).trace m ++ [.storeMagic m.journal.magic] := by
  simp only [m16JournalClear, trace_bind, trace_get, result_get, final_get, trace_emit,
    List.nil_append]

/-- The same of the clear, whose stores are the wipe and the magic. -/
theorem m16JournalClear_stops (m : JournalMachine) :
    m16JournalClear.PrefixInv m (fun done s => done = [] ∨ done = m16JournalClear.trace m ∨
      s.journal.magic ≠ m16JournalMagic) := by
  have wiped := wipe_stops m m.journal.magic (show 0 < journalSize by decide)
  rw [m16JournalClear_trace, m16JournalClear, prefixInv_bind, prefixInv_get]
  refine ⟨Or.inl rfl, ?_⟩
  simpa only [trace_get, result_get, final_get, List.nil_append] using wiped

/-- Memory that holds zeros only, journal and disk. -/
def zeroedMachine : JournalMachine where
  journal := ⟨0, 0, 0, fun _ => ⟨0, fun _ => 0, false⟩⟩
  disk := fun _ => 0

/-! ### Replay -/

/-- The bytes a replay stores to the disk for the record. -/
def JournalRecord.stores (record : JournalRecord) : List (Nat × UInt8) :=
  (List.range' 0 m16JournalBlockSize).map fun position =>
    ((record.targetBlock * 512).toNat + position, record.data position)

/-- The stores to the disk among some accesses. -/
def diskStores (accesses : List JournalAccess) : List (Nat × UInt8) :=
  accesses.filterMap fun access =>
    match access with
    | .storeDisk offset value => some (offset, value)
    | _ => none

theorem JournalEntry.Is.diskStores_copyAccesses {entry : JournalEntry} {record : JournalRecord}
    (is : entry.Is record) (index : Nat) :
    diskStores (copyAccesses entry index) = record.stores := by
  unfold diskStores copyAccesses JournalRecord.stores
  rw [List.filterMap_cons_none rfl, List.filterMap_map, ← List.filterMap_eq_map]
  apply List.filterMap_congr
  intro position member
  have inside : position < m16JournalBlockSize := by
    rw [List.mem_range'_1] at member
    omega
  simp [JournalEntry.blockOffset, is.targetBlock, is.data position inside]

theorem Holds.outOfRange_iff {journal : M16Journal} {records : List JournalRecord}
    (holds : Holds journal records) (diskBlockCount : UInt64) {index : Nat} {record : JournalRecord}
    (present : records[index]? = some record) :
    OutOfRange journal diskBlockCount index ↔ diskBlockCount ≤ record.targetBlock := by
  have is := holds.entry index record present
  simp [OutOfRange, is.valid, is.targetBlock]

/-- A replay is refused for a record that is out of range. -/
theorem Holds.replay_refused {m : JournalMachine} {records : List JournalRecord}
    (holds : Holds m.journal records) (committed : m.journal.committed ≠ 0)
    {diskBlockCount : UInt64} {record : JournalRecord} (member : record ∈ records)
    (outOfRange : diskBlockCount ≤ record.targetBlock) :
    (m16JournalReplay diskBlockCount).result m = .ecorrupt := by
  rcases List.mem_iff_getElem?.mp member with ⟨index, present⟩
  have used : index < m.journal.entryCount.toNat := by
    rw [holds.count]
    exact (List.getElem?_eq_some_iff.mp present).1
  exact Sealed.refused ⟨holds.magic, committed⟩ used
    ((holds.outOfRange_iff diskBlockCount present).mpr outOfRange)

/-- A replay of records that are all in range writes them and nothing else. -/
theorem Holds.replay_accepted {m : JournalMachine} {records : List JournalRecord}
    (holds : Holds m.journal records) (committed : m.journal.committed ≠ 0)
    {diskBlockCount : UInt64} (inRange : ∀ record ∈ records, record.targetBlock < diskBlockCount) :
    (m16JournalReplay diskBlockCount).result m = .ok ∧
      (m16JournalReplay diskBlockCount).trace m =
        (List.range' 0 records.length).flatMap
          (fun index => copyAccesses (m.journal.entries index) index) ∧
      (m16JournalReplay diskBlockCount).final m =
        ⟨m.journal, replayed m.journal m.disk records.length⟩ := by
  have entries : ∀ index < records.length, (m.journal.entries index).valid = true ∧
      (m.journal.entries index).targetBlock < diskBlockCount := by
    intro index used
    have is := holds.entry index _ (List.getElem?_eq_getElem used)
    rw [is.targetBlock]
    exact ⟨is.valid, inRange _ (List.getElem_mem used)⟩
  have below : ∀ index < m.journal.entryCount.toNat, (m.journal.entries index).valid = true →
      (m.journal.entries index).targetBlock < diskBlockCount := by
    intro index used _
    rw [holds.count] at used
    exact (entries index used).2
  have accepted := Sealed.accepted ⟨holds.magic, committed⟩ below
  rw [holds.count] at accepted
  refine ⟨accepted.1, ?_, accepted.2⟩
  rw [(m16JournalReplay_of_sealed ⟨holds.magic, committed⟩ diskBlockCount).2.1, holds.count]
  refine scanLoop_trace 0 _ _ _ (fun s => s.journal = m.journal) rfl ?_
  intro index s _ used same
  rcases entries index (by omega) with ⟨validity, below⟩
  rcases replayEntry_copied (m := s) (by rw [same]; exact validity)
    (by rw [same]; exact below) with ⟨answer, issued, left⟩
  exact ⟨answer, by rw [issued, same], by rw [left]; exact same⟩

theorem diskStores_append (first second : List JournalAccess) :
    diskStores (first ++ second) = diskStores first ++ diskStores second :=
  List.filterMap_append

/-- The disk stores of a run over entries that hold the records. -/
theorem diskStores_flatMap {entries : Nat → JournalEntry} {records : List JournalRecord}
    {start : Nat} (is : ∀ index record, records[index]? = some record →
      (entries (start + index)).Is record) :
    diskStores ((List.range' start records.length).flatMap fun index =>
      copyAccesses (entries index) index) = records.flatMap JournalRecord.stores := by
  induction records generalizing start with
  | nil => rfl
  | cons record rest inductionHypothesis =>
      have first : (entries start).Is record := is 0 record rfl
      have others : ∀ index other, rest[index]? = some other →
          (entries (start + 1 + index)).Is other := by
        intro index other present
        have shifted := is (index + 1) other present
        rwa [show start + (index + 1) = start + 1 + index by omega] at shifted
      rw [List.length_cons, List.range'_succ, List.flatMap_cons, diskStores_append,
        first.diskStores_copyAccesses, inductionHypothesis others, List.flatMap_cons]

end Mcsos.Journal
