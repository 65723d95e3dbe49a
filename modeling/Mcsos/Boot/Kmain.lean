import Mcsos.Irq.Pit
import Mcsos.Irq.Service
import Mcsos.Pmm.Boot
import Mcsos.Serial.Wire
import Mcsos.Sync.Lockdep
import Mcsos.Sync.Model
import Mcsos.Thread.Boot
import Mcsos.Trap.Gates
import Mcsos.Vmm.Table

/-!
`kmain` of `kernel/core/kmain.c`, up to the `thread_yield` behind `cpu_sti`.

The heap and the table of gates lie in one memory, and the other static
variables are values of their own. A step of `kmain` goes on, or it stops for
good: an assertion that fails ends in `kernel_panic_at`, and a call may not
return. Assertions on sizes that the compiler knows are left out.
-/

namespace Mcsos.Boot

open Mcsos.Machine
open Mcsos.Machine.Prog
open Mcsos.Kmem
open Mcsos.Log
open Mcsos.Pmm
open Mcsos.Serial
open Mcsos.Sync
open Mcsos.Thread
open Mcsos.Trap
open Mcsos.Vmm

/-! ### The machine -/

/-- Where the linker has put what `kmain` refers to. -/
structure KmainImage extends BootImage where
  kernelStart : UInt64
  kernelEnd : UInt64
  idt : UInt64
  exceptionStubs : Fin 48 → UInt64

structure KernelWorld where
  log : LogWorld
  uart : Uart
  kernelPmm : PmmState
  mappings : Mappings
  threads : ThreadWorld
  m12BootLock : McsSpinlock
  m12BootMutex : McsMutex
  m12BootCounter : UInt64
  m12LockDepth : UInt32
  idtr : X8664Idtr
  pics : Irq.PicPair
  timer : Irq.PitChannel
  cr3 : UInt64
  interrupts : Bool

/-- Why `kmain` does not go on. -/
inductive Stop where
  | assertion (expression : List UInt8)
  | hangs

abbrev Kernel : Type → Type := StateT KernelWorld (Except Stop)

/-- The world after some calls of the log. -/
def KernelWorld.logged (w : KernelWorld) (calls : List LogCall) : KernelWorld :=
  { w with
    log := (logCalls calls).final w.log
    uart := (drive ((logCalls calls).trace w.log)).final w.uart }

def logging (calls : List LogCall) : Kernel Unit := modify fun w => w.logged calls

/-- `KERNEL_ASSERT`. -/
def kernelAssert (expression : String) (holds : Bool) : Kernel Unit :=
  if holds then pure () else throw (.assertion (text expression))

/-- The answer of a call, if it returns. -/
def returned {α : Type} : Option α → Kernel α
  | some answer => pure answer
  | none => throw .hangs

/-- A program on a part of the world. -/
def onPart {ε σ α : Type} [Event ε σ] (view : KernelWorld → σ)
    (store : σ → KernelWorld → KernelWorld) (program : Prog ε σ α) : Kernel α :=
  fun w => .ok (program.result (view w), store (program.final (view w)) w)

def KernelWorld.withKmem (w : KernelWorld) (kmem : KmemWorld) : KernelWorld :=
  { w with threads := { w.threads with kmem := kmem } }

def onHeap {α : Type} (program : KmemProg α) : Kernel α :=
  onPart (fun w => w.threads.kmem) (fun kmem w => w.withKmem kmem) program

/-! ### The locks, where nobody else runs -/

/-- `mcs_spin_lock`: its loop ends with the first round or never. -/
def mcsSpinLock : Kernel Unit := do
  let w ← get
  set { w with m12BootLock := (mcsSpinTryLock w.m12BootLock).2 }
  if (mcsSpinTryLock w.m12BootLock).1 then pure () else throw .hangs

/-- `mcs_mutex_lock`, likewise. -/
def mcsMutexLock : Kernel Unit := do
  let w ← get
  set { w with m12BootMutex := (mcsMutexLockRound w.m12BootMutex).2 }
  if (mcsMutexLockRound w.m12BootMutex).1 then throw .hangs else pure ()

def countBoot : Kernel Unit := modify fun w => { w with m12BootCounter := w.m12BootCounter + 1 }

/-- An assertion on `m12_lockdep_depth()`. -/
def assertDepth (expression : String) (depth : UInt32) : Kernel Unit := do
  let w ← get
  kernelAssert expression (w.m12LockDepth == depth)

def m12SyncSelftest : Kernel Unit := do
  modify fun w => { w with m12BootLock := mcsSpinInit w.m12BootLock }
  modify fun w => { w with m12BootMutex := mcsMutexInit w.m12BootMutex }
  mcsSpinLock
  countBoot
  modify fun w => { w with m12BootLock := mcsSpinUnlock w.m12BootLock }
  mcsMutexLock
  countBoot
  modify fun w => { w with m12BootMutex := mcsMutexUnlock w.m12BootMutex }
  modify fun w => { w with m12LockDepth := m12LockdepAcquire w.m12LockDepth }
  assertDepth "m12_lockdep_depth() == 1" 1
  modify fun w => { w with m12LockDepth := m12LockdepRelease w.m12LockDepth }
  assertDepth "m12_lockdep_depth() == 0" 0
  logging [.writeln (text "[M12] sync selftest passed")]

/-! ### Memory -/

def pmmMaxPhysBytes : Nat := 64 * 1024 * 1024

def pmmBitmapBytes : Nat := pmmMaxPhysBytes / pmmPageSize / 8

def vmmWritable : UInt64 := 2

/-- `kmain` as far as the frames go. -/
def setUpPmm : Kernel Unit := do
  let pmmOk ← onPart KernelWorld.kernelPmm (fun pmm w => { w with kernelPmm := pmm })
    (pmmInitFromMap m6Regions pmmBitmapBytes pmmMaxPhysBytes)
  kernelAssert "pmm_ok" pmmOk
  logging [.writeln (text "[M6] pmm initialized")]

/-- And as far as the pages go; the space is never read. -/
def setUpVmm (kernelSpace : Space) : Kernel Unit := do
  let w ← get
  set { w with mappings := (vmmMapPage kernelSpace 0x400000 0x200000 vmmWritable w.mappings).2 }
  kernelAssert "map_ok" (vmmMapPage kernelSpace 0x400000 0x200000 vmmWritable w.mappings).1
  logging [.writeln (text "[M7] vmm map ok")]
  let w ← get
  let page := vmmQueryPage kernelSpace 0x400000 w.mappings
  kernelAssert "query_ok" page.isSome
  logging [.write (text "[M7] vmm phys="), .hex64 (page.elim 0 Page.phys), .writeln (text "")]
  logging [.write (text "[M7] cr3="), .hex64 w.cr3, .writeln (text "")]

def m8HeapBootstrap (image : KmainImage) : Kernel Unit := do
  onHeap (kmemInit image.m8BootHeap m8BootHeapSize)
  let answer ← onHeap (kmalloc 128)
  let probe ← returned answer
  kernelAssert "probe != 0" (probe != 0)
  onHeap (kfree probe)
  logging [.writeln (text "[M8] kmem initialized")]

/-! ### Threads -/

/-- `thread_create`, with the assertion on what it returns. -/
def createThread (entry : UInt64) (expression : String) : Kernel Unit := do
  let w ← get
  let (created, threads) ← returned (threadCreate entry w.threads)
  set { w with threads := threads }
  kernelAssert expression created.isSome

def setUpThreads (image : KmainImage) : Kernel Unit := do
  modify fun w => { w with threads := threadSystemInit w.threads }
  createThread image.threadA "ta != 0"
  createThread image.threadB "tb != 0"
  createThread image.threadC "tc != 0"
  createThread image.threadD "td != 0"
  logging [.writeln (text "[M9] scheduler initialized")]

/-! ### Traps and interrupts -/

/-- `x86_64_idt_init`, the table being part of the memory the heap is in. -/
def loadIdt (image : KmainImage) : Kernel Unit := do
  let w ← get
  let loaded := x8664IdtInit image.idt image.exceptionStubs w.threads.kmem.memory
  set { w.withKmem { w.threads.kmem with memory := loaded.1 } with idtr := loaded.2 }
  kernelAssert
    "idtr.limit == (uint16_t)((X86_64_IDT_VECTOR_COUNT * sizeof(x86_64_idt_entry_t)) - 1u)"
    (loaded.2.limit == 256 * 16 - 1)
  logging [.keyValueHex64 (text "idt_base") loaded.2.base,
    .keyValueHex64 (text "idt_limit") loaded.2.limit.toUInt64, .writeln (text "[M4] IDT loaded")]

def m5Selftest (image : KmainImage) : Kernel Unit := do
  let w ← get
  kernelAssert "__kernel_end > __kernel_start" (image.kernelEnd > image.kernelStart)
  kernelAssert "x86_64_idt_base_for_test() != 0u" (w.idtr.base != 0)
  kernelAssert "x86_64_idt_limit_for_test() == 4095u" (w.idtr.limit == 4095)
  logging [.writeln (text "[M5] selftest: IDT invariants passed")]

def setUpInterrupts : Kernel Unit := do
  onPart KernelWorld.pics (fun pics w => { w with pics := pics }) Irq.irqSetUp
  onPart KernelWorld.timer (fun timer w => { w with timer := timer }) (Irq.pitConfigureHz 100)
  logging [.writeln (text "[M5] sti: enabling interrupts")]
  modify fun w => { w with interrupts := true }

def kmain (image : KmainImage) (kernelSpace : Space) : Kernel Unit := do
  modify fun w => { w with interrupts := false }
  logging [.init]
  logging [.write (text "MCSOS"), .write (text " "), .write (text "260502"), .write (text " "),
    .write (text "M4"), .writeln (text " [M12] synchronization subsystem"),
    .keyValueHex64 (text "kernel_start") image.kernelStart,
    .keyValueHex64 (text "kernel_end") image.kernelEnd]
  setUpPmm
  setUpVmm kernelSpace
  m8HeapBootstrap image
  m12SyncSelftest
  setUpThreads image
  loadIdt image
  logging [.writeln (text "[M5] idt: loaded")]
  m5Selftest image
  setUpInterrupts

end Mcsos.Boot
