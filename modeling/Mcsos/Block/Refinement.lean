import Mcsos.Block.Model
import Mcsos.Machine.Run

/-!
Contract: the RAM block device is an array of blocks.

Block `lba` is the 512 bytes of the storage from `lba * 512` on. Every read
gives what the array holds, every write replaces one entry of it, and a call
past its end does nothing.
-/

namespace Mcsos.Block

open Mcsos.Machine
open Mcsos.Machine.Prog

/-! ### Copies between the storage and a buffer -/

theorem m14Memcpy_fromStorage (m : BlockMachine) (object offset : Nat) (size : UInt64) :
    (m14Memcpy (.buffer object 0) (.storage offset) size).final m =
      { m with
        buffers := Function.update m.buffers object
          (writeRange (m.buffers object) 0 size.toNat
            fun position => m.storage (offset + position)) } := by
  have copied := forLoop_copy_writeRange
    (fun position => BlockAccess.load (BytePtr.add (.storage offset) position))
    (fun position => BlockAccess.store (BytePtr.add (.buffer object 0) position))
    (fun s position => s.byteAt (BytePtr.add (.storage offset) position))
    (fun bytes => { m with buffers := Function.update m.buffers object bytes })
    (m.buffers object) 0 size.toNat (fun position => m.storage (offset + position))
    (fun _ _ _ => rfl) (fun _ _ _ => rfl) ?_
  · rw [Function.update_eq_self] at copied
    exact copied
  · intro position _ bytes
    simp [Event.apply, BlockAccess.apply, BlockMachine.setByte, BytePtr.add]

theorem m14Memcpy_toStorage (m : BlockMachine) (object offset : Nat) (size : UInt64) :
    (m14Memcpy (.storage offset) (.buffer object 0) size).final m =
      { m with storage := writeRange m.storage offset size.toNat (m.buffers object) } := by
  apply forLoop_copy_writeRange _
    (fun position => BlockAccess.store (BytePtr.add (.storage offset) position))
    (fun s position => s.byteAt (BytePtr.add (.buffer object 0) position))
    (fun bytes => { m with storage := bytes })
  · intro _ _ _
    rfl
  · intro position _ bytes
    simp [BlockMachine.byteAt, BytePtr.add]
  · intro _ _ _
    rfl

/-- Accesses to the storage are to bytes below `limit`. -/
def BlockAccess.StorageBelow (limit : Nat) : BlockAccess → Prop
  | .load (.storage offset) => offset < limit
  | .store (.storage offset) _ => offset < limit
  | _ => True

theorem m14Memcpy_storageBelow (limit : Nat) (dst src : BytePtr) (size : UInt64)
    (stored : ∀ position < size.toNat, ∀ value,
      (BlockAccess.store (dst.add position) value).StorageBelow limit)
    (loaded : ∀ position < size.toNat, (BlockAccess.load (src.add position)).StorageBelow limit)
    (m : BlockMachine) : (m14Memcpy dst src size).Issues (BlockAccess.StorageBelow limit) m := by
  apply forLoop_issues
  intro position s _ inside
  rw [Nat.zero_add] at inside
  simp only [issues_bind, issues_emit, issues_get, true_and]
  exact ⟨loaded position inside, stored position inside _⟩

/-! ### The array -/

/-- A call of a run. Between the calls of the interface a caller may store to
its buffers. -/
inductive BlockCall where
  | read (lba : UInt64) (buffer : Option Nat)
  | write (lba : UInt64) (buffer : Option Nat)
  | fill (object offset : Nat) (value : UInt8)

def BlockCall.prog : BlockCall → BlockProg McsBlockStatus
  | .read lba buffer => mcsBlockRead lba buffer
  | .write lba buffer => mcsBlockWrite lba buffer
  | .fill object offset value => do
      emit (.store (.buffer object offset) value)
      pure .ok

/-- The device, together with the array of blocks that it stands for. -/
structure Session where
  machine : BlockMachine
  blocks : Nat → Nat → UInt8

/-- A successful write replaces its block; no other call changes the array. -/
def Session.next (session : Session) (call : BlockCall) : Session where
  machine := call.prog.final session.machine
  blocks :=
    match call with
    | .write lba (some object) =>
        if lba < session.machine.dev.blockCount then
          Function.update session.blocks lba.toNat (session.machine.buffers object)
        else
          session.blocks
    | _ => session.blocks

/-- The device is bound, and the array holds what is in the storage. -/
def bound (m : BlockMachine) (totalBlocks : UInt64) : Session where
  machine := mcsBlockBindRamdev.final ((mcsRamBlockInit totalBlocks).final m)
  blocks lba position := m.storage (lba * 512 + position)

/-- `call` fails and changes nothing. -/
def Refused (call : BlockCall) (m : BlockMachine) : Prop :=
  call.prog.result m = .einval ∧ call.prog.final m = m

/-- What a call does, in terms of the array. -/
def Session.Answers (session : Session) (call : BlockCall) : Prop :=
  match call with
  | .read _ none => Refused call session.machine
  | .read lba (some object) =>
      if lba < session.machine.dev.blockCount then
        call.prog.result session.machine = .ok ∧
          (call.prog.final session.machine).storage = session.machine.storage ∧
          ∀ position < 512, (call.prog.final session.machine).buffers object position =
            session.blocks lba.toNat position
      else
        Refused call session.machine
  | .write _ none => Refused call session.machine
  | .write lba (some object) =>
      if lba < session.machine.dev.blockCount then
        call.prog.result session.machine = .ok ∧
          (∀ position < 512, (call.prog.final session.machine).storage (lba.toNat * 512 + position) =
            session.machine.buffers object position) ∧
          ∀ offset, offset < lba.toNat * 512 ∨ lba.toNat * 512 + 512 ≤ offset →
            (call.prog.final session.machine).storage offset = session.machine.storage offset
      else
        Refused call session.machine
  | .fill _ _ _ => (call.prog.final session.machine).storage = session.machine.storage

/-- A call in a session of a device of `totalBlocks` blocks. -/
structure Refines (totalBlocks : UInt64) (session : Session) (call : BlockCall) : Prop where
  blockCount : session.machine.dev.blockCount = totalBlocks
  answers : session.Answers call
  inStorage : call.prog.Issues (BlockAccess.StorageBelow (totalBlocks.toNat * 512)) session.machine

/-- The storage holds the array. -/
structure Session.Valid (totalBlocks : UInt64) (session : Session) : Prop where
  driver : session.machine.ramdev.totalBlocks = totalBlocks
  blockCount : session.machine.dev.blockCount = totalBlocks
  blocks : ∀ lba < totalBlocks.toNat, ∀ position < 512,
    session.machine.storage (lba * 512 + position) = session.blocks lba position

section

variable {totalBlocks : UInt64} {session : Session}

theorem bound_valid (m : BlockMachine) (totalBlocks : UInt64) :
    (bound m totalBlocks).Valid totalBlocks where
  driver := rfl
  blockCount := rfl
  blocks _ _ _ _ := rfl

/-- Where a block of the device begins. -/
theorem blockOffset_toNat (small : totalBlocks.toNat * 512 < 2 ^ 64) {lba : UInt64}
    (inside : lba < totalBlocks) : (lba * mcsBlockSize).toNat = lba.toNat * 512 := by
  have bound : lba.toNat < totalBlocks.toNat := UInt64.lt_iff_toNat_lt.mp inside
  show lba.toNat * 512 % 2 ^ 64 = lba.toNat * 512
  omega

/-- The bytes of a block of the device are bytes of the storage. -/
theorem block_below {lba count position : Nat} (inside : lba < count) (inBlock : position < 512) :
    lba * 512 + position < count * 512 := by
  omega

theorem mcsBlockSize_toNat : mcsBlockSize.toNat = 512 := rfl

/-! ### One call -/

/-- The driver refuses a null buffer and a block behind the last one, without
an access. -/
theorem read_refused {m : BlockMachine} {lba : UInt64} {buffer : Option Nat}
    (refused : buffer = none ∨ ¬ lba < m.ramdev.totalBlocks) :
    Refused (.read lba buffer) m ∧ (BlockCall.read lba buffer).prog.trace m = [] := by
  cases buffer with
  | none => simp [Refused, BlockCall.prog, mcsBlockRead, m14RamblkRead]
  | some object =>
      have outside : lba ≥ m.ramdev.totalBlocks := by simpa using refused
      simp [Refused, BlockCall.prog, mcsBlockRead, m14RamblkRead, outside]

theorem write_refused {m : BlockMachine} {lba : UInt64} {buffer : Option Nat}
    (refused : buffer = none ∨ ¬ lba < m.ramdev.totalBlocks) :
    Refused (.write lba buffer) m ∧ (BlockCall.write lba buffer).prog.trace m = [] := by
  cases buffer with
  | none => simp [Refused, BlockCall.prog, mcsBlockWrite, m14RamblkWrite]
  | some object =>
      have outside : lba ≥ m.ramdev.totalBlocks := by simpa using refused
      simp [Refused, BlockCall.prog, mcsBlockWrite, m14RamblkWrite, outside]

/-- Any other read copies one block of the storage. -/
theorem read_copies {m : BlockMachine} (small : m.ramdev.totalBlocks.toNat * 512 < 2 ^ 64)
    {lba : UInt64} (inside : lba < m.ramdev.totalBlocks) (object : Nat) :
    (BlockCall.read lba (some object)).prog.result m = .ok ∧
      (BlockCall.read lba (some object)).prog.final m =
        { m with
          buffers := Function.update m.buffers object
            (writeRange (m.buffers object) 0 512
              fun position => m.storage (lba.toNat * 512 + position)) } ∧
      (BlockCall.read lba (some object)).prog.Issues
        (BlockAccess.StorageBelow (m.ramdev.totalBlocks.toNat * 512)) m := by
  have reached : ¬ lba ≥ m.ramdev.totalBlocks := UInt64.not_le.mpr inside
  have inDevice : lba.toNat < m.ramdev.totalBlocks.toNat := UInt64.lt_iff_toNat_lt.mp inside
  have copied := m14Memcpy_fromStorage m object (lba.toNat * 512) mcsBlockSize
  have issued := m14Memcpy_storageBelow (m.ramdev.totalBlocks.toNat * 512)
    (.buffer object 0) (.storage (lba.toNat * 512)) mcsBlockSize (fun _ _ _ => trivial) ?_ m
  · simp [BlockCall.prog, mcsBlockRead, m14RamblkRead, reached, blockOffset_toNat small inside,
      copied, issued, mcsBlockSize_toNat]
  · intro position inBlock
    rw [mcsBlockSize_toNat] at inBlock
    exact block_below inDevice inBlock

/-- Any other write copies one block to the storage. -/
theorem write_copies {m : BlockMachine} (small : m.ramdev.totalBlocks.toNat * 512 < 2 ^ 64)
    {lba : UInt64} (inside : lba < m.ramdev.totalBlocks) (object : Nat) :
    (BlockCall.write lba (some object)).prog.result m = .ok ∧
      (BlockCall.write lba (some object)).prog.final m =
        { m with storage := writeRange m.storage (lba.toNat * 512) 512 (m.buffers object) } ∧
      (BlockCall.write lba (some object)).prog.Issues
        (BlockAccess.StorageBelow (m.ramdev.totalBlocks.toNat * 512)) m := by
  have reached : ¬ lba ≥ m.ramdev.totalBlocks := UInt64.not_le.mpr inside
  have inDevice : lba.toNat < m.ramdev.totalBlocks.toNat := UInt64.lt_iff_toNat_lt.mp inside
  have copied := m14Memcpy_toStorage m object (lba.toNat * 512) mcsBlockSize
  have issued := m14Memcpy_storageBelow (m.ramdev.totalBlocks.toNat * 512)
    (.storage (lba.toNat * 512)) (.buffer object 0) mcsBlockSize ?_ (fun _ _ => trivial) m
  · simp [BlockCall.prog, mcsBlockWrite, m14RamblkWrite, reached, blockOffset_toNat small inside,
      copied, issued, mcsBlockSize_toNat]
  · intro position inBlock _
    rw [mcsBlockSize_toNat] at inBlock
    exact block_below inDevice inBlock

/-! ### The array behind the storage -/

/-- A call that leaves the device and the storage alone leaves the array alone. -/
theorem Session.Valid.of_untouched (valid : session.Valid totalBlocks) {call : BlockCall}
    (ramdev : (call.prog.final session.machine).ramdev = session.machine.ramdev)
    (dev : (call.prog.final session.machine).dev = session.machine.dev)
    (storage : (call.prog.final session.machine).storage = session.machine.storage)
    (blocks : (session.next call).blocks = session.blocks) :
    (session.next call).Valid totalBlocks where
  driver := (congrArg McsRamBlockDevice.totalBlocks ramdev).trans valid.driver
  blockCount := (congrArg McsBlockDevice.blockCount dev).trans valid.blockCount
  blocks lba inside position inBlock := by
    rw [blocks]
    exact (congrFun storage _).trans (valid.blocks lba inside position inBlock)

theorem Session.Valid.refused (valid : session.Valid totalBlocks) {call : BlockCall}
    (refused : Refused call session.machine ∧ call.prog.trace session.machine = [])
    (answers : Refused call session.machine → session.Answers call)
    (blocks : (session.next call).blocks = session.blocks) :
    Refines totalBlocks session call ∧ (session.next call).Valid totalBlocks := by
  rcases refused with ⟨refused, silent⟩
  have same := refused.2
  refine ⟨⟨valid.blockCount, answers refused, ?_⟩, ?_⟩
  · simp [Issues, silent]
  · exact valid.of_untouched (by rw [same]) (by rw [same]) (by rw [same]) blocks

theorem Session.Valid.read (small : totalBlocks.toNat * 512 < 2 ^ 64)
    (valid : session.Valid totalBlocks) (lba : UInt64) (buffer : Option Nat) :
    Refines totalBlocks session (.read lba buffer) ∧
      (session.next (.read lba buffer)).Valid totalBlocks := by
  have counted := valid.blockCount
  have driver := valid.driver
  cases buffer with
  | none => exact valid.refused (read_refused (Or.inl rfl)) id rfl
  | some object =>
      by_cases inside : lba < totalBlocks
      · have inDevice : lba.toNat < totalBlocks.toNat := UInt64.lt_iff_toNat_lt.mp inside
        obtain ⟨answer, copied, issued⟩ :=
          read_copies (driver.symm ▸ small) (driver.symm ▸ inside) object
        rw [driver] at issued
        refine ⟨⟨counted, ?_, issued⟩, ?_⟩
        · simp only [Session.Answers, counted, inside, if_true, answer, copied, true_and]
          intro position inBlock
          rw [Function.update_self, ← valid.blocks _ inDevice position inBlock]
          simpa using writeRange_inside (session.machine.buffers object) 0 _ inBlock
        · exact valid.of_untouched (by rw [copied]) (by rw [copied]) (by rw [copied]) rfl
      · refine valid.refused (read_refused (Or.inr (driver.symm ▸ inside))) ?_ rfl
        simp only [Session.Answers, counted, inside, if_false, imp_self]

/-- A write leaves every other block of the storage as it is. -/
theorem writeRange_otherBlock (storage data : Nat → UInt8) {written lba position : Nat}
    (other : lba ≠ written) (inBlock : position < 512) :
    writeRange storage (written * 512) 512 data (lba * 512 + position) =
      storage (lba * 512 + position) :=
  writeRange_outside storage data (by omega)

theorem Session.Valid.write (small : totalBlocks.toNat * 512 < 2 ^ 64)
    (valid : session.Valid totalBlocks) (lba : UInt64) (buffer : Option Nat) :
    Refines totalBlocks session (.write lba buffer) ∧
      (session.next (.write lba buffer)).Valid totalBlocks := by
  have counted := valid.blockCount
  have driver := valid.driver
  cases buffer with
  | none => exact valid.refused (write_refused (Or.inl rfl)) id rfl
  | some object =>
      by_cases inside : lba < totalBlocks
      · obtain ⟨answer, copied, issued⟩ :=
          write_copies (driver.symm ▸ small) (driver.symm ▸ inside) object
        rw [driver] at issued
        refine ⟨⟨counted, ?_, issued⟩, ?_⟩
        · simp only [Session.Answers, counted, inside, if_true, answer, copied, true_and]
          constructor
          · intro position inBlock
            exact writeRange_inside _ _ _ inBlock
          · intro offset outside
            exact writeRange_outside _ _ outside
        · have machine : (session.next (.write lba (some object))).machine = _ := copied
          have blocks : (session.next (.write lba (some object))).blocks =
              Function.update session.blocks lba.toNat (session.machine.buffers object) := by
            simp [Session.next, counted, inside]
          refine ⟨by rw [machine]; exact driver, by rw [machine]; exact counted, ?_⟩
          intro other inDevice position inBlock
          rw [machine, blocks]
          by_cases same : other = lba.toNat
          · rw [same, Function.update_self]
            exact writeRange_inside _ _ _ inBlock
          · rw [Function.update_of_ne same]
            exact (writeRange_otherBlock _ _ same inBlock).trans
              (valid.blocks other inDevice position inBlock)
      · refine valid.refused (write_refused (Or.inr (driver.symm ▸ inside))) ?_ ?_
        · simp only [Session.Answers, counted, inside, if_false, imp_self]
        · simp [Session.next, counted, inside]

theorem Session.Valid.step (small : totalBlocks.toNat * 512 < 2 ^ 64)
    (valid : session.Valid totalBlocks) (call : BlockCall) :
    Refines totalBlocks session call ∧ (session.next call).Valid totalBlocks := by
  cases call with
  | read lba buffer => exact valid.read small lba buffer
  | write lba buffer => exact valid.write small lba buffer
  | fill object offset value =>
      refine ⟨⟨valid.blockCount, rfl, ?_⟩, valid.of_untouched rfl rfl rfl rfl⟩
      simp [BlockCall.prog, BlockAccess.StorageBelow]

end

/-- Every call of every run, with any block number and any buffer, does what
the array of blocks says and stays inside the storage. -/
theorem mcsBlock_refines_array (m : BlockMachine) (totalBlocks : UInt64)
    (small : totalBlocks.toNat * 512 < 2 ^ 64) (calls : List BlockCall) :
    EveryCall Session.next (Refines totalBlocks) calls (bound m totalBlocks) :=
  everyCall_of_invariant (Session.Valid totalBlocks)
    (fun _ call valid _ => valid.step small call) (bound_valid m totalBlocks)
    (everyCall_true calls _)

/-- Sixteen blocks of zeros, and a buffer of sevens. -/
def sixteenBlocks : BlockMachine where
  ramdev := ⟨0⟩
  dev := ⟨0, .m14RamblkRead, .m14RamblkWrite⟩
  storage := fun _ => 0
  buffers := fun object _ => if object = 1 then 7 else 0

/-- A block is written, read back into another buffer, and a block behind the
last one is read. -/
theorem mcsBlock_refines_array_sixteenBlocks :
    EveryCall Session.next (Refines 16) [.write 2 (some 1), .read 2 (some 2), .read 17 (some 2)]
      (bound sixteenBlocks 16) :=
  mcsBlock_refines_array sixteenBlocks 16 (by decide) _

end Mcsos.Block
