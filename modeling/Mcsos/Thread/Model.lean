import Mcsos.Kmem.Model

/-!
The threads of the kernel: `kernel/core/thread.c`, and the machine that runs
their entry functions.

`thread_yield` does not switch stacks. It calls the entry function of the next
thread, so the caller waits on the one kernel stack until that function
returns. The stack that `thread_create` allocates is stored and never used, and
`mcsos_context_switch` is referenced and never called.
-/

namespace Mcsos.Thread

open Mcsos.Machine
open Mcsos.Kmem

def threadStackSize : UInt64 := 4096

def maxThreads : Nat := 16

inductive ThreadState where
  | ready
  | running
deriving DecidableEq, Repr

/-- `struct thread`; pointers are addresses. -/
structure KThread where
  entry : UInt64
  stack : UInt64
  state : ThreadState
deriving DecidableEq, Repr

/-- The static variables of `thread.c`, and the heap it allocates from. -/
structure ThreadWorld where
  threads : Nat → KThread
  threadCount : Nat
  currentThread : Nat
  kmem : KmemWorld

/-! ### Operations -/

def threadSystemInit (w : ThreadWorld) : ThreadWorld :=
  { w with threadCount := 0, currentThread := 0 }

def ThreadWorld.setThread (w : ThreadWorld) (index : Nat) (thread : KThread) : ThreadWorld :=
  { w with threads := Function.update w.threads index thread }

/-- `thread_create`: the index of the thread it returns a pointer to, with
`none` for the null pointer. There is no answer where `kmalloc` does not
return. The entry is stored before the allocation can fail. -/
def threadCreate (entry : UInt64) (w : ThreadWorld) : Option (Option Nat × ThreadWorld) :=
  if entry = 0 then
    some (none, w)
  else if w.threadCount ≥ maxThreads then
    some (none, w)
  else
    let index := w.threadCount
    let t := { w.threads index with entry := entry }
    match (kmalloc threadStackSize).result w.kmem with
    | none => none
    | some stack =>
        let w := { w with kmem := (kmalloc threadStackSize).final w.kmem }
        if stack = 0 then
          some (none, w.setThread index { t with stack := stack })
        else
          let w := w.setThread index { t with stack := stack, state := .ready }
          some (some index, { w with threadCount := w.threadCount + 1 })

/-- A sequence of `thread_create`. -/
def createAll : List UInt64 → ThreadWorld → Option ThreadWorld
  | [], w => some w
  | entry :: rest, w =>
      match threadCreate entry w with
      | none => none
      | some (_, w) => createAll rest w

/-- `thread_yield`, up to its call: the thread whose entry it calls, if any.
Behind the call there is nothing but its own return. -/
def threadYield (w : ThreadWorld) : Option Nat × ThreadWorld :=
  if w.threadCount = 0 then
    (none, w)
  else
    let current := w.currentThread + 1
    let current := if current ≥ w.threadCount then 0 else current
    let w := { w with currentThread := current }
    if (w.threads current).entry ≠ 0 then (some current, w) else (none, w)

/-! ### Execution -/

/-- What a function does next: something that can change the heap but not the
threads, a call of `thread_yield`, or its return. -/
inductive Act where
  | work (heap : KmemWorld → KmemWorld)
  | yield
  | ret

/-- The acts of a function, by how many it has done before. -/
abbrev Code := Nat → Act

/-- `kmain` behind the creation of the threads: it yields once and halts. -/
def kmainCode : Code
  | 0 => .yield
  | _ + 1 => .work id

/-- The function an activation is of. -/
inductive Callee where
  | kmain
  | entry (thread : Nat) (function : UInt64)
deriving DecidableEq, Repr

/-- An activation on the stack, with the number of acts it has done. -/
structure Activation where
  callee : Callee
  done : Nat
deriving DecidableEq, Repr

/-- The machine: the stack has the running activation first; `calls` lists the
threads whose entry was called, the latest first; `yields` counts the calls of
`thread_yield`. -/
structure Machine where
  world : ThreadWorld
  stack : List Activation
  calls : List Nat
  yields : Nat

/-- The code of an activation, `program` being the code of the entry
functions. -/
def codeOf (program : UInt64 → Code) : Callee → Code
  | .kmain => kmainCode
  | .entry _ function => program function

/-- One act of the running activation. An entry function returns into
`thread_yield`, and with it to whoever yielded. -/
def Machine.step (program : UInt64 → Code) (machine : Machine) : Machine :=
  match machine.stack with
  | [] => machine
  | top :: below =>
      let resumed := { top with done := top.done + 1 }
      match codeOf program top.callee top.done with
      | .work heap =>
          { machine with
            world := { machine.world with kmem := heap machine.world.kmem }
            stack := resumed :: below }
      | .ret => { machine with stack := below }
      | .yield =>
          match threadYield machine.world with
          | (none, world) =>
              { machine with world := world, stack := resumed :: below, yields := machine.yields + 1 }
          | (some next, world) =>
              { world := world
                stack := ⟨.entry next (world.threads next).entry, 0⟩ :: resumed :: below
                calls := next :: machine.calls
                yields := machine.yields + 1 }

/-- So many acts. -/
def Machine.run (program : UInt64 → Code) : Nat → Machine → Machine
  | 0, machine => machine
  | steps + 1, machine => Machine.run program steps (machine.step program)

/-- `kmain` when the threads are created. -/
def booted (w : ThreadWorld) : Machine := ⟨w, [⟨.kmain, 0⟩], [], 0⟩

end Mcsos.Thread
