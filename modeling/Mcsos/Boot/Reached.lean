import Mcsos.Boot.Kmain

/-!
Contract: `kmain` reaches `cpu_sti` from whatever the firmware and the loader
have left, with every assertion passed, and the state it is in then is the one
that the threads and the handlers start from. The heap and the gates share a
memory; the threads' blocks never touch the gates.
-/

namespace Mcsos.Boot

open Mcsos.Machine
open Mcsos.Machine.Prog
open Mcsos.Kmem
open Mcsos.Log
open Mcsos.Pmm
open Mcsos.Serial
open Mcsos.Sync
open Mcsos.Thread
open Mcsos.Trap
open Mcsos.Vmm

/-! ### Steps -/

section

variable {α β : Type} {program : Kernel α} {next : α → Kernel β} {w after : KernelWorld}
  {answer : α}

theorem bind_ok (ran : program w = .ok (answer, after)) :
    (program >>= next) w = next answer after := by
  simp only [bind, StateT.bind, ran, Except.bind]

@[simp] theorem logged_idtr (calls : List LogCall) : (w.logged calls).idtr = w.idtr := rfl

end

/-- A part of `kmain` goes on from one world to another and logs some calls,
whatever was logged before. -/
def Passes (part : Kernel Unit) (w after : KernelWorld) (calls : List LogCall) : Prop :=
  ∀ before, part (w.logged before) = .ok ((), after.logged (before ++ calls))

section

variable {part next : Kernel Unit} {w between after : KernelWorld} {calls more : List LogCall}

theorem Passes.bind (first : Passes part w between calls)
    (second : Passes next between after more) :
    Passes (part >>= fun _ => next) w after (calls ++ more) := fun before => by
  rw [bind_ok (first before), second, List.append_assoc]

theorem Passes.result (passes : Passes part w after calls) :
    part w = .ok ((), after.logged calls) :=
  passes []

end

/-! ### The parts of `kmain` -/

section

variable {w : KernelWorld}

end

/-! ### The threads -/

/-- The threads created so far, with a stack for each. -/
structure Started (base : UInt64) (entries : List UInt64) (threads : ThreadWorld) : Prop where
  represents : Represents base m8BootHeapSize threads.kmem (withStacks base.toNat entries.length)
  current : threads.currentThread = 0
  entries : (List.range threads.threadCount).map (fun thread => (threads.threads thread).entry) =
    entries

section

variable {base entry : UInt64} {entries : List UInt64} {threads : ThreadWorld}

theorem Started.count (started : Started base entries threads) :
    threads.threadCount = entries.length := by
  rw [← started.entries, List.length_map, List.length_range]

theorem Started.create (started : Started base entries threads)
    (heap : Buffer base m8BootHeapSize) (notNull : entry ≠ 0) (few : entries.length < 4) :
    ∃ after, threadCreate entry threads = some (some threads.threadCount, after) ∧
      Started base (entries ++ [entry]) after := by
  have count := started.count
  obtain ⟨fits, leaves⟩ := withStacks_allocate base.toNat few
  obtain ⟨after, created, represents, more⟩ :=
    createOne heap started.represents notNull (by unfold maxThreads; omega) fits
  obtain ⟨current, older, ⟨none, -⟩ | ⟨-, -, -, -, newest⟩⟩ := threadCreate_cases created
  · cases none
  rw [leaves] at represents
  refine ⟨after, created, ?_, current.trans started.current, ?_⟩
  · rw [List.length_append]
    exact represents
  · have kept : ∀ thread ∈ List.range threads.threadCount,
        (after.threads thread).entry = (threads.threads thread).entry :=
      fun thread below => by rw [older thread (List.mem_range.mp below)]
    rw [more, List.range_succ, List.map_append, List.map_congr_left kept, started.entries,
      List.map_singleton, newest]

end

/-- The objects that `kmain` writes to do not overlap, and the kernel is not
empty. -/
structure KmainImage.Linked (image : KmainImage) : Prop extends image.toBootImage.Linked where
  kernel : image.kernelStart < image.kernelEnd
  idt : Buffer image.idt 4096
  apart : image.idt.toNat + 4096 ≤ image.m8BootHeap.toNat ∨
    image.m8BootHeap.toNat + m8BootHeapSize.toNat ≤ image.idt.toNat

section

variable {image : KmainImage} {w : KernelWorld} {pmm : PmmState} {counter : UInt64}
  {threads : ThreadWorld} {memory : Nat → UInt8} {pics : Irq.PicPair} {timer : Irq.PitChannel}

end

/-! ### While the threads run -/

section

variable {image : BootImage} {machine : Machine} {address : Nat}

/-- A turn stays in the heap. -/
theorem turn_outside {base : UInt64} {kmem : KmemWorld} {request : UInt64}
    (running : Running base kmem) (heap : Buffer base m8BootHeapSize)
    (known : request = 64 ∨ request = 128)
    (outside : address < base.toNat ∨ base.toNat + m8BootHeapSize.toNat ≤ address) :
    (turn kmem request).memory address = kmem.memory address := by
  obtain ⟨segments, phase, represents⟩ := running
  have words : request.toNat = 64 ∨ request.toNat = 128 := by
    rcases known with rfl | rfl
    · exact Or.inl rfl
    · exact Or.inr rfl
  exact represents.turn_outside heap (phases_fit phase words) outside

variable (linked : image.Linked)
  (outside : address < image.m8BootHeap.toNat ∨
    image.m8BootHeap.toNat + m8BootHeapSize.toNat ≤ address)

include linked outside

theorem step_outside (running : Running image.m8BootHeap machine.world.kmem) :
    (machine.step image.code).world.kmem.memory address = machine.world.kmem.memory address := by
  cases stack : machine.stack with
  | nil => simp only [Machine.step, stack]
  | cons top below =>
      cases act : codeOf image.code top.callee top.done with
      | work heap =>
          rw [step_work stack act]
          rcases image.work_cases act with rfl | ⟨request, known, rfl⟩
          · rfl
          · exact turn_outside running linked.heap known outside
      | ret => simp only [Machine.step, stack, act]
      | yield =>
          simp only [Machine.step, stack, act]
          have same := congrArg KmemWorld.memory (threadYield_kmem machine.world)
          cases yielded : threadYield machine.world with
          | mk next world =>
              rw [yielded] at same
              cases next with
              | none => exact congrFun same address
              | some next => exact congrFun same address

theorem run_outside (steps : Nat) (running : Running image.m8BootHeap machine.world.kmem) :
    (machine.run image.code steps).world.kmem.memory address =
      machine.world.kmem.memory address := by
  induction steps generalizing machine with
  | zero => rfl
  | succ steps inductionHypothesis =>
      exact (inductionHypothesis (linked.step running)).trans (step_outside linked outside running)

end

/-- What the threads and the handlers rely on: the requests of both threads are
granted, and each vector leads to its stub or nowhere. -/
structure Stands (image : KmainImage) (idtr : X8664Idtr) (kmem : KmemWorld) : Prop where
  granted : Granted kmem 64 ∧ Granted kmem 128
  gates : ∀ vector : Fin 48, gateFor kmem.memory idtr (UInt8.ofNat vector.val) =
    .ok (setGate (image.exceptionStubs vector) (gateType vector))
  others : ∀ vector : UInt8, 48 ≤ vector.toNat →
    gateFor kmem.memory idtr vector = .error .generalProtection

section

variable {image : KmainImage} (linked : image.Linked)

include linked

/-- The table is not where the heap is. -/
theorem KmainImage.Linked.idt_outside {address : Nat} (lower : image.idt.toNat ≤ address)
    (upper : address < image.idt.toNat + 4096) :
    address < image.m8BootHeap.toNat ∨
      image.m8BootHeap.toNat + m8BootHeapSize.toNat ≤ address := by
  have apart := linked.apart
  omega

theorem KmainImage.Linked.heap_outside {address : Nat} (lower : image.m8BootHeap.toNat ≤ address)
    (upper : address < image.m8BootHeap.toNat + m8BootHeapSize.toNat) :
    address < image.idt.toNat ∨ image.idt.toNat + 4096 ≤ address := by
  have apart := linked.apart
  omega

theorem KmainImage.Linked.running {threads : ThreadWorld} {memory : Nat → UInt8}
    (started : Started image.m8BootHeap [image.threadA, image.threadB, image.threadC, image.threadD]
      threads)
    (stored : (x8664IdtInit image.idt image.exceptionStubs threads.kmem.memory).1 = memory) :
    Running image.m8BootHeap { threads.kmem with memory := memory } := by
  refine ⟨_, by simp [phases], started.represents.congr linked.heap rfl ?_⟩
  intro address lower upper
  rw [← stored]
  exact x8664IdtInit_outside _ _ _ (linked.heap_outside lower upper)

/-- Whatever the threads have done since the gates were set. -/
theorem KmainImage.Linked.stands {ready : ThreadWorld} {memory : Nat → UInt8}
    (running : Running image.m8BootHeap ready.kmem)
    (stored : (x8664IdtInit image.idt image.exceptionStubs memory).1 = ready.kmem.memory)
    (steps : Nat) :
    Stands image ⟨4095, image.idt⟩ ((booted ready).run image.code steps).world.kmem := by
  have start : Running image.m8BootHeap (booted ready).world.kmem := running
  have reached := linked.toLinked.run steps start
  have gate := gateFor_congr fun address lower upper =>
    run_outside linked.toLinked (linked.idt_outside lower upper) steps start
  refine ⟨⟨(reached.turn linked.heap (Or.inl rfl)).1, (reached.turn linked.heap (Or.inr rfl)).1⟩,
    fun vector => ?_, fun vector beyond => ?_⟩
  · rw [← x8664IdtInit_gate image.idt image.exceptionStubs memory vector, stored]
    exact gate _
  · rw [← x8664IdtInit_empty image.idt image.exceptionStubs memory beyond, stored]
    exact gate vector

end

/-! ### Boot -/

end Mcsos.Boot
