import Mcsos.Machine.Bytes
import Mcsos.Machine.Trace

/-!
The write-ahead journal: `kernel/fs/m16_journal.c` over `m16_journal.h`.

The machine is the journal structure and the disk. Every store of the source
is one access, in program order, so that a machine may stop between any two of
them; a scalar store is atomic. `m16_journal_init` and `m16_journal_clear` zero
the structure byte by byte through a `uint8_t` pointer, for which the layout of
the structure on x86_64 is given once, in `M16Journal.setByte`.

Arrays are functions of their index: `disk` of the byte offset, `entries` of
the slot (slots 32 and up are the memory behind the array) and `data` of the
byte (512 of them belong to the entry). The null tests of the source have no
counterpart, since journal, disk and data are values here.
-/

namespace Mcsos.Journal

open Mcsos.Machine
open Mcsos.Machine.Prog

def m16JournalMagic : UInt32 := 0x4D31364A
def m16JournalMaxEntries : UInt32 := 32
def m16JournalBlockSize : Nat := 512

inductive M16Status where
  | ok
  | einval
  | efull
  | ecorrupt
deriving DecidableEq, Repr

/-- `m16_journal_entry_t`. -/
structure JournalEntry where
  targetBlock : UInt64
  data : Nat → UInt8
  valid : Bool

/-- `m16_journal_t`. -/
structure M16Journal where
  magic : UInt32
  committed : UInt32
  entryCount : UInt32
  entries : Nat → JournalEntry

/-- The journal and the disk it is replayed to. -/
structure JournalMachine where
  journal : M16Journal
  disk : Nat → UInt8

/-! ### Layout -/

/-- `sizeof(m16_journal_entry_t)`: block number, data, flag, padding. -/
def entrySize : Nat := 528

/-- Offset of `entries`: three words and padding. -/
def entriesOffset : Nat := 16

/-- `sizeof(m16_journal_t)`. -/
def journalSize : Nat := entriesOffset + 32 * entrySize

def JournalEntry.setByte (entry : JournalEntry) (offset : Nat) (byte : UInt8) : JournalEntry :=
  if offset < 8 then
    { entry with
      targetBlock := UInt64.ofNat (replaceByte entry.targetBlock.toNat offset byte) }
  else if offset < 520 then
    { entry with data := Function.update entry.data (offset - 8) byte }
  else if offset = 520 then
    { entry with valid := byte != 0 }
  else
    entry

/-- A byte store to the structure at an offset from its start. -/
def M16Journal.setByte (journal : M16Journal) (offset : Nat) (byte : UInt8) : M16Journal :=
  if offset < 4 then
    { journal with magic := UInt32.ofNat (replaceByte journal.magic.toNat offset byte) }
  else if offset < 8 then
    { journal with
      committed := UInt32.ofNat (replaceByte journal.committed.toNat (offset - 4) byte) }
  else if offset < 12 then
    { journal with
      entryCount := UInt32.ofNat (replaceByte journal.entryCount.toNat (offset - 8) byte) }
  else if offset < entriesOffset then
    journal
  else
    { journal with
      entries := Function.update journal.entries ((offset - entriesOffset) / entrySize)
        ((journal.entries ((offset - entriesOffset) / entrySize)).setByte
          ((offset - entriesOffset) % entrySize) byte) }

/-! ### Accesses -/

inductive JournalAccess where
  | loadEntry (index : Nat)
  | storeMagic (value : UInt32)
  | storeCommitted (value : UInt32)
  | storeEntryCount (value : UInt32)
  | storeTargetBlock (index : Nat) (value : UInt64)
  | storeValid (index : Nat) (value : Bool)
  | storeData (index position : Nat) (value : UInt8)
  | storeByte (offset : Nat) (value : UInt8)
  | storeDisk (offset : Nat) (value : UInt8)
deriving DecidableEq, Repr

def M16Journal.modifyEntry (journal : M16Journal) (index : Nat)
    (change : JournalEntry → JournalEntry) : M16Journal :=
  { journal with
    entries := Function.update journal.entries index (change (journal.entries index)) }

def JournalAccess.apply : JournalAccess → JournalMachine → JournalMachine
  | .loadEntry _, m => m
  | .storeMagic value, m => { m with journal := { m.journal with magic := value } }
  | .storeCommitted value, m => { m with journal := { m.journal with committed := value } }
  | .storeEntryCount value, m => { m with journal := { m.journal with entryCount := value } }
  | .storeTargetBlock index value, m =>
      { m with journal := m.journal.modifyEntry index fun entry =>
          { entry with targetBlock := value } }
  | .storeValid index value, m =>
      { m with journal := m.journal.modifyEntry index fun entry => { entry with valid := value } }
  | .storeData index position value, m =>
      { m with journal := m.journal.modifyEntry index fun entry =>
          { entry with data := Function.update entry.data position value } }
  | .storeByte offset value, m => { m with journal := m.journal.setByte offset value }
  | .storeDisk offset value, m => { m with disk := Function.update m.disk offset value }

instance : Event JournalAccess JournalMachine := ⟨JournalAccess.apply⟩

abbrev JournalProg := Prog JournalAccess JournalMachine

/-! ### Operations -/

/-- `m16_memcpy`; the destination is the store its pointer makes for a byte. -/
def m16Memcpy (dst : Nat → UInt8 → JournalAccess) (src : Nat → UInt8) (size : Nat) :
    JournalProg Unit :=
  forLoop 0 size fun index => emit (dst index (src index))

/-- `m16_memzero`, likewise. -/
def m16Memzero (dst : Nat → UInt8 → JournalAccess) (size : Nat) : JournalProg Unit :=
  forLoop 0 size fun index => emit (dst index 0)

def m16JournalInit : JournalProg Unit := do
  m16Memzero .storeByte journalSize
  emit (.storeMagic m16JournalMagic)

def m16JournalAppend (targetBlock : UInt64) (data : Nat → UInt8) : JournalProg M16Status := do
  let m ← get
  if m.journal.entryCount ≥ m16JournalMaxEntries then
    pure .efull
  else
    let index := m.journal.entryCount.toNat
    emit (.storeTargetBlock index targetBlock)
    emit (.storeValid index true)
    m16Memcpy (.storeData index) data m16JournalBlockSize
    emit (.storeEntryCount (m.journal.entryCount + 1))
    pure .ok

def m16JournalCommit : JournalProg M16Status := do
  emit (.storeCommitted 1)
  pure .ok

/-- One entry of the replay loop; `some` status is returned at once. -/
def replayEntry (diskBlockCount : UInt64) (index : Nat) : JournalProg (Option M16Status) := do
  emit (.loadEntry index)
  let m ← get
  let entry := m.journal.entries index
  if !entry.valid then
    pure none
  else if entry.targetBlock ≥ diskBlockCount then
    pure (some .ecorrupt)
  else
    let dst := (entry.targetBlock * 512).toNat
    m16Memcpy (fun position => .storeDisk (dst + position)) entry.data m16JournalBlockSize
    pure none

def m16JournalReplay (diskBlockCount : UInt64) : JournalProg M16Status := do
  let m ← get
  if m.journal.magic ≠ m16JournalMagic then
    pure .ecorrupt
  else if m.journal.committed = 0 then
    pure .ok
  else
    let stopped ← scanLoop 0 m.journal.entryCount.toNat (replayEntry diskBlockCount)
    pure (stopped.getD .ok)

def m16JournalFsck : JournalProg M16Status := do
  let m ← get
  if m.journal.magic ≠ m16JournalMagic then
    pure .ecorrupt
  else if m.journal.entryCount > m16JournalMaxEntries then
    pure .ecorrupt
  else
    pure .ok

def m16JournalClear : JournalProg Unit := do
  let m ← get
  m16Memzero .storeByte journalSize
  emit (.storeMagic m.journal.magic)

end Mcsos.Journal
