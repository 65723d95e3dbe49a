import Mcsos.Machine.Run
import Mcsos.Vfs.Nodes

/-!
The abstract file store: byte strings by path, and descriptors that are a path
and a position in it. It knows nothing of nodes, blocks or tables.

`FileStore.after` says what a call that returned `status` means to the store.
`Session` pairs a world with the store its calls have built up.
-/

namespace Mcsos.Vfs

open Mcsos.Machine
open Mcsos.Machine.Prog

inductive VfsCall where
  | seed (path : CString) (data : Nat → UInt8) (size : UInt64)
  | openFile (table : Nat) (path : CString) (flags : UInt32)
  | read (table : Nat) (fd : Int) (size : UInt64)
  | write (table : Nat) (fd : Int) (buffer : Nat → UInt8) (size : UInt64)
  | lseek (table : Nat) (fd : Int) (offset : Int64) (whence : Int)
  | close (table : Nat) (fd : Int)

/-- The call, its return value and the bytes it hands back. -/
def VfsCall.exec : VfsCall → VfsProg (Int × List UInt8)
  | .seed path data size => do return (← mcsRamfsSeedFile path data size, [])
  | .openFile table path flags => do return (← mcsVfsOpen table path flags, [])
  | .read table fd size => mcsVfsRead table fd size
  | .write table fd buffer size => do return (← mcsVfsWrite table fd buffer size, [])
  | .lseek table fd offset whence => do return (← mcsVfsLseek table fd offset whence, [])
  | .close table fd => do return (← mcsVfsClose table fd, [])

structure Descriptor where
  path : CString
  position : Nat
deriving DecidableEq

/-- A file that does not exist has no bytes; a descriptor that is not open is
none. -/
structure FileStore where
  contents : CString → List UInt8
  descriptors : Nat → Int → Option Descriptor

namespace FileStore

def empty : FileStore := ⟨fun _ => [], fun _ _ => none⟩

def setDescriptor (store : FileStore) (table : Nat) (fd : Int) (descriptor : Option Descriptor) :
    FileStore :=
  { store with
    descriptors := Function.update store.descriptors table
      (Function.update (store.descriptors table) fd descriptor) }

def setContents (store : FileStore) (path : CString) (bytes : List UInt8) : FileStore :=
  { store with contents := Function.update store.contents path bytes }

/-- The bytes at positions `[position, min (position + count) length)`. -/
def bytesAt (store : FileStore) (descriptor : Descriptor) (count : Nat) : List UInt8 :=
  ((store.contents descriptor.path).drop descriptor.position).take count

/-- Where a seek starts from. -/
def seekBase (store : FileStore) (descriptor : Descriptor) (whence : Int) : Int :=
  if whence = mcsSeekSet then 0
  else if whence = mcsSeekCur then descriptor.position
  else (store.contents descriptor.path).length

/-- The store after a call that returned `status`. -/
def after (store : FileStore) (status : Int) : VfsCall → FileStore
  | .seed path data size =>
      if status = mcsOk then store.setContents path ((List.range size.toNat).map data) else store
  | .openFile table path _ =>
      if 0 ≤ status then store.setDescriptor table status (some ⟨path, 0⟩) else store
  | .read table fd size =>
      match store.descriptors table fd with
      | none => store
      | some descriptor =>
          store.setDescriptor table fd (some
            { descriptor with
              position := descriptor.position + (store.bytesAt descriptor size.toNat).length })
  | .write table fd buffer size =>
      match store.descriptors table fd with
      | none => store
      | some descriptor =>
          if 0 ≤ status then
            let written := overwrite (store.contents descriptor.path) descriptor.position
              ((List.range size.toNat).map buffer)
            (store.setContents descriptor.path written).setDescriptor table fd (some
              { descriptor with position := descriptor.position + size.toNat })
          else
            store
  | .lseek table fd offset whence =>
      match store.descriptors table fd with
      | none => store
      | some descriptor =>
          if 0 ≤ status then
            store.setDescriptor table fd (some
              { descriptor with
                position := (store.seekBase descriptor whence + offset.toInt).toNat })
          else
            store
  | .close table fd => if status = mcsOk then store.setDescriptor table fd none else store

theorem setContents_self (store : FileStore) (path : CString) (bytes : List UInt8) :
    (store.setContents path bytes).contents path = bytes := by
  simp [setContents]

theorem setContents_other (store : FileStore) {path other : CString} (bytes : List UInt8)
    (different : other ≠ path) :
    (store.setContents path bytes).contents other = store.contents other := by
  simp [setContents, different]

theorem setDescriptor_self (store : FileStore) (table : Nat) (fd : Int)
    (descriptor : Option Descriptor) :
    (store.setDescriptor table fd descriptor).descriptors table fd = descriptor := by
  simp [setDescriptor]

theorem setDescriptor_other (store : FileStore) {table other : Nat} {fd otherFd : Int}
    (descriptor : Option Descriptor) (different : (other, otherFd) ≠ (table, fd)) :
    (store.setDescriptor table fd descriptor).descriptors other otherFd =
      store.descriptors other otherFd := by
  by_cases sameTable : other = table
  · subst sameTable
    have otherSlot : otherFd ≠ fd := fun same => different (by rw [same])
    simp [setDescriptor, Function.update_of_ne otherSlot]
  · simp [setDescriptor, Function.update_of_ne sameTable]

end FileStore

/-- The world and the store its calls have built up. -/
structure Session where
  world : VfsWorld
  store : FileStore

def Session.next (session : Session) (call : VfsCall) : Session where
  world := call.exec.final session.world
  store := session.store.after (call.exec.result session.world).1 call

/-- The path a call is about. -/
def VfsCall.path (store : FileStore) : VfsCall → Option CString
  | .seed path _ _ => some path
  | .openFile _ path _ => some path
  | .read table fd _ | .write table fd _ _ | .lseek table fd _ _ | .close table fd =>
      (store.descriptors table fd).map Descriptor.path

/-- The descriptor a call is made through. -/
def VfsCall.descriptor : VfsCall → Option (Nat × Int)
  | .seed _ _ _ | .openFile _ _ _ => none
  | .read table fd _ | .write table fd _ _ | .lseek table fd _ _ | .close table fd =>
      some (table, fd)

/-! ### What a call leaves alone -/

/-- A call changes the contents of its own path only. -/
theorem FileStore.after_contents_other (store : FileStore) (status : Int) {call : VfsCall}
    {path : CString} (other : call.path store ≠ some path) :
    (store.after status call).contents path = store.contents path := by
  cases call with
  | seed own data size =>
      simp only [after]
      split
      · exact store.setContents_other _ fun same => other (by rw [same]; rfl)
      · rfl
  | openFile table own flags =>
      simp only [after]
      split <;> rfl
  | read table fd size =>
      simp only [after]
      split <;> rfl
  | write table fd buffer size =>
      simp only [after]
      split
      · rfl
      next descriptor isOpen =>
        split
        · refine store.setContents_other _ fun same => other ?_
          rw [same, VfsCall.path, isOpen]
          rfl
        · rfl
  | lseek table fd offset whence =>
      simp only [after]
      split
      · rfl
      · split <;> rfl
  | close table fd =>
      simp only [after]
      split <;> rfl

/-- A call keeps every open descriptor but its own, as long as an open does
not hand out one that is open. -/
theorem FileStore.after_descriptor_other (store : FileStore) {status : Int} {call : VfsCall}
    {table : Nat} {fd : Int} {descriptor : Descriptor}
    (isOpen : store.descriptors table fd = some descriptor)
    (other : call.descriptor ≠ some (table, fd))
    (notTaken : ∀ own path flags, call = .openFile own path flags → (own, status) ≠ (table, fd)) :
    (store.after status call).descriptors table fd = some descriptor := by
  have different : ∀ {own : Nat} {ownFd : Int}, call.descriptor = some (own, ownFd) →
      (table, fd) ≠ (own, ownFd) :=
    fun concerns same => other (concerns.trans (congrArg some same.symm))
  rw [← isOpen]
  cases call with
  | seed own data size =>
      simp only [after]
      split <;> rfl
  | openFile own path flags =>
      simp only [after]
      split
      · exact store.setDescriptor_other _ (notTaken own path flags rfl).symm
      · rfl
  | read own ownFd size =>
      simp only [after]
      split
      · rfl
      · exact store.setDescriptor_other _ (different rfl)
  | write own ownFd buffer size =>
      simp only [after]
      split
      · rfl
      · split
        · exact setDescriptor_other _ _ (different rfl)
        · rfl
  | lseek own ownFd offset whence =>
      simp only [after]
      split
      · rfl
      · split
        · exact store.setDescriptor_other _ (different rfl)
        · rfl
  | close own ownFd =>
      simp only [after]
      split
      · exact store.setDescriptor_other _ (different rfl)
      · rfl

end Mcsos.Vfs
