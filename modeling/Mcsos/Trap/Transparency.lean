import Mcsos.Trap.Model

/-!
Contract: interrupt entry and exit are transparent.

The processor, the stub and the common path push 22 words. The first 20 from
the stack pointer on are the structure that the C side is given, and the pops
take the same words in the opposite order.
-/

namespace Mcsos.Trap

open Mcsos.Machine

/-! ### Straight-line code -/

section

variable (trapDispatch : Callee)

/-- The state after code that is run to its end. -/
def exec (code : List Instr) (cpu : Cpu) : Cpu :=
  code.foldl (fun state instr => instr.step trapDispatch state) cpu

theorem reach_append {stop : Instr} {code : List Instr} (absent : stop ∉ code)
    (rest : List Instr) (cpu : Cpu) :
    reach trapDispatch stop (code ++ rest) cpu =
      reach trapDispatch stop rest (exec trapDispatch code cpu) := by
  induction code generalizing cpu with
  | nil => rfl
  | cons instr code inductionHypothesis =>
      rw [List.mem_cons, not_or] at absent
      rw [List.cons_append, reach, if_neg (Ne.symm absent.1), inductionHypothesis absent.2]
      rfl

theorem exec_movRsp (reg : Reg) (cpu : Cpu) :
    exec trapDispatch [.movRsp reg] cpu =
      { cpu with regs := Function.update cpu.regs reg cpu.rsp } := rfl

theorem exec_addRsp (value : UInt64) (cpu : Cpu) :
    exec trapDispatch [.addRsp value] cpu = { cpu with rsp := cpu.rsp + value } := rfl

theorem reach_here (stop : Instr) (rest : List Instr) (cpu : Cpu) :
    reach trapDispatch stop (stop :: rest) cpu = some cpu :=
  if_pos rfl

end

/-! ### Pushes -/

/-- The words pushed since the stack pointer was `top`, the last one first; the
general registers have not changed. -/
structure Pushed (top : UInt64) (regs : Reg → UInt64) (words : List UInt64) (cpu : Cpu) :
    Prop where
  regs : cpu.regs = regs
  rsp : cpu.rsp = top - UInt64.ofNat (8 * words.length)
  stack : StackHolds cpu.memory cpu.rsp words

section

variable {top : UInt64} {regs : Reg → UInt64} {words : List UInt64} {cpu : Cpu}

theorem Pushed.push (pushed : Pushed top regs words cpu) (short : words.length < 64)
    (value : UInt64) : Pushed top regs (value :: words) (cpu.push value) where
  regs := pushed.regs
  rsp := by
    show cpu.rsp - 8 = _
    rw [pushed.rsp, List.length_cons, Nat.mul_succ, UInt64.ofNat_add]
    grind
  stack := pushed.stack.push (by omega) value

/-- A sequence of register pushes. -/
theorem Pushed.pushRegs (pushed : Pushed top regs words cpu) (trapDispatch : Callee)
    (saved : List Reg) (short : words.length + saved.length < 64) :
    Pushed top regs ((saved.map regs).reverse ++ words)
      (exec trapDispatch (saved.map .push) cpu) := by
  induction saved generalizing words cpu with
  | nil => exact pushed
  | cons reg saved inductionHypothesis =>
      rw [List.length_cons] at short
      have next := pushed.push (by omega) (regs reg)
      rw [List.map_cons, List.reverse_cons, List.append_assoc]
      have same : (Instr.push reg).step trapDispatch cpu = cpu.push (regs reg) := by
        rw [Instr.step, pushed.regs]
      show Pushed top regs _ (exec trapDispatch _ ((Instr.push reg).step trapDispatch cpu))
      rw [same]
      apply inductionHypothesis next
      rw [List.length_cons]
      omega

end

/-! ### Pops -/

/-- A sequence of pops: each register takes its word, and no other changes. -/
theorem exec_popRegs (trapDispatch : Callee) (saved : List Reg) (values : Reg → UInt64)
    {cpu : Cpu} (stack : StackHolds cpu.memory cpu.rsp (saved.map values)) :
    (∀ reg, (exec trapDispatch (saved.map .pop) cpu).regs reg =
        if reg ∈ saved then values reg else cpu.regs reg) ∧
      (exec trapDispatch (saved.map .pop) cpu).rsp = cpu.rsp + UInt64.ofNat (8 * saved.length) ∧
      (exec trapDispatch (saved.map .pop) cpu).memory = cpu.memory := by
  induction saved generalizing cpu with
  | nil => simp [exec]
  | cons first saved inductionHypothesis =>
      obtain ⟨regs, rsp, memory⟩ := @inductionHypothesis (cpu.pop first) stack.2
      refine ⟨?_, ?_, memory⟩
      · intro reg
        refine (regs reg).trans ?_
        by_cases later : reg ∈ saved
        · simp [later]
        · by_cases here : reg = first
          · subst here
            simpa [later, Cpu.pop] using stack.1
          · simp [later, here, Cpu.pop]
      · refine rsp.trans ?_
        show cpu.rsp + 8 + _ = _
        rw [List.length_cons, Nat.mul_succ, UInt64.ofNat_add]
        grind

/-! ### Up to the call -/

/-- The registers in the order in which `isr_common` pushes them. -/
def savedRegs : List Reg :=
  [.rax, .rbx, .rcx, .rdx, .rbp, .rdi, .rsi, .r8, .r9, .r10, .r11, .r12, .r13, .r14, .r15]

theorem isrCommon_eq : isrCommon = savedRegs.map .push ++ ([.movRsp .rdi] ++
    .callTrapDispatch :: (savedRegs.reverse.map .pop ++ ([.addRsp 16] ++ [.iretq]))) := rfl

theorem mem_savedRegs (reg : Reg) : reg ∈ savedRegs := by
  cases reg <;> decide

/-- The error code the C side sees. -/
def seenErrorCode (vector : Nat) (errorCode : UInt64) : UInt64 :=
  if pushesErrorCode vector then errorCode else 0

/-- The words the processor and the stub push. -/
def Interrupted.entryWords (interrupted : Interrupted) (vector : Nat) (errorCode : UInt64) :
    List UInt64 :=
  [UInt64.ofNat vector, seenErrorCode vector errorCode, interrupted.rip, interrupted.cs,
    interrupted.rflags, interrupted.rsp, interrupted.ss]

/-- The stub's own pushes. -/
def stubPushes (vector : Nat) : List Instr :=
  if pushesErrorCode vector then [.pushImm (UInt64.ofNat vector)]
  else [.pushImm 0, .pushImm (UInt64.ofNat vector)]

theorem isrStub_eq (vector : Fin 48) : isrStub vector = stubPushes vector ++ isrCommon := by
  rw [isrStub, isrStubs_eq, stubPushes]
  split <;> rfl

/-- The fields of a trap frame, in the order of their addresses. -/
def X8664TrapFrame.words (frame : X8664TrapFrame) : List UInt64 :=
  [frame.r15, frame.r14, frame.r13, frame.r12, frame.r11, frame.r10, frame.r9, frame.r8, frame.rsi,
    frame.rdi, frame.rbp, frame.rdx, frame.rcx, frame.rbx, frame.rax, frame.vector,
    frame.errorCode, frame.rip, frame.cs, frame.rflags]

/-- A stack that begins with the fields of a frame, read as a frame. -/
theorem trapFrameAt_of_stackHolds {memory : Memory64} {base : UInt64} {frame : X8664TrapFrame}
    (holds : StackHolds memory base frame.words) : trapFrameAt memory base = frame := by
  have field : ∀ index (inside : index < 20),
      trapFrameField memory base index = frame.words.get ⟨index, inside⟩ :=
    fun index inside => holds.word inside
  unfold trapFrameAt
  rw [field 0 (by decide), field 1 (by decide), field 2 (by decide), field 3 (by decide),
    field 4 (by decide), field 5 (by decide), field 6 (by decide), field 7 (by decide),
    field 8 (by decide), field 9 (by decide), field 10 (by decide), field 11 (by decide),
    field 12 (by decide), field 13 (by decide), field 14 (by decide), field 15 (by decide),
    field 16 (by decide), field 17 (by decide), field 18 (by decide), field 19 (by decide)]
  rfl

/-- What the interrupted code looks like as a trap frame. -/
def Interrupted.trapFrame (interrupted : Interrupted) (vector : Nat) (errorCode : UInt64) :
    X8664TrapFrame where
  r15 := interrupted.regs .r15
  r14 := interrupted.regs .r14
  r13 := interrupted.regs .r13
  r12 := interrupted.regs .r12
  r11 := interrupted.regs .r11
  r10 := interrupted.regs .r10
  r9 := interrupted.regs .r9
  r8 := interrupted.regs .r8
  rsi := interrupted.regs .rsi
  rdi := interrupted.regs .rdi
  rbp := interrupted.regs .rbp
  rdx := interrupted.regs .rdx
  rcx := interrupted.regs .rcx
  rbx := interrupted.regs .rbx
  rax := interrupted.regs .rax
  vector := UInt64.ofNat vector
  errorCode := seenErrorCode vector errorCode
  rip := interrupted.rip
  cs := interrupted.cs
  rflags := interrupted.rflags

theorem trapFrame_words (interrupted : Interrupted) (vector : Nat) (errorCode : UInt64) :
    (interrupted.trapFrame vector errorCode).words = savedRegs.reverse.map interrupted.regs ++
      [UInt64.ofNat vector, seenErrorCode vector errorCode, interrupted.rip, interrupted.cs,
        interrupted.rflags] := rfl

/-- The saved words are a trap frame, and behind it what `iretq` takes too. -/
theorem savedWords_eq (interrupted : Interrupted) (vector : Nat) (errorCode : UInt64) :
    savedRegs.reverse.map interrupted.regs ++ interrupted.entryWords vector errorCode =
      (interrupted.trapFrame vector errorCode).words ++ [interrupted.rsp, interrupted.ss] := rfl

section

variable (interrupted : Interrupted) (vector : Fin 48) (errorCode stack : UInt64)
  (memory : Memory64) (trapDispatch : Callee)

/-- Both kinds of stub leave the same words. -/
theorem stub_pushed :
    Pushed (stack &&& ~~~15) interrupted.regs (interrupted.entryWords vector errorCode)
      (exec trapDispatch (stubPushes vector)
        (deliver interrupted vector errorCode stack memory)) := by
  have entered : Pushed (stack &&& ~~~15) interrupted.regs []
      ⟨interrupted.regs, stack &&& ~~~15, memory⟩ := ⟨rfl, by simp, trivial⟩
  have saved := ((((entered.push (by simp) interrupted.ss).push (by simp) interrupted.rsp).push
    (by simp) interrupted.rflags).push (by simp) interrupted.cs).push (by simp) interrupted.rip
  rw [Interrupted.entryWords, seenErrorCode, stubPushes, deliver]
  by_cases coded : pushesErrorCode vector
  · rw [if_pos coded, if_pos coded, if_pos coded]
    exact (saved.push (by simp) errorCode).push (by simp) _
  · rw [if_neg coded, if_neg coded, if_neg coded]
    exact (saved.push (by simp) 0).push (by simp) _

/-- The state in which the call is reached. -/
def atCall : Cpu :=
  exec trapDispatch [.movRsp .rdi] (exec trapDispatch (savedRegs.map .push)
    (exec trapDispatch (stubPushes vector) (deliver interrupted vector errorCode stack memory)))

theorem reach_call :
    reach trapDispatch .callTrapDispatch (isrStub vector)
        (deliver interrupted vector errorCode stack memory) =
      some (atCall interrupted vector errorCode stack memory trapDispatch) := by
  have absent : Instr.callTrapDispatch ∉ stubPushes vector := by
    unfold stubPushes
    split <;> simp
  rw [isrStub_eq, isrCommon_eq, reach_append trapDispatch absent,
    reach_append trapDispatch (by simp), reach_append trapDispatch (by simp), reach_here]
  rfl

/-- The way to `iretq` leads through the call. -/
theorem reach_iretq_through_call :
    reach trapDispatch .iretq (isrStub vector)
        (deliver interrupted vector errorCode stack memory) =
      reach trapDispatch .iretq (savedRegs.reverse.map .pop ++ ([.addRsp 16] ++ [.iretq]))
        (Instr.callTrapDispatch.step trapDispatch
          (atCall interrupted vector errorCode stack memory trapDispatch)) := by
  have absent : Instr.iretq ∉ stubPushes vector := by
    unfold stubPushes
    split <;> simp
  rw [isrStub_eq, isrCommon_eq, reach_append trapDispatch absent,
    reach_append trapDispatch (by simp), reach_append trapDispatch (by simp), reach,
    if_neg (by simp)]
  rfl

/-- The 22 words on the stack at the call. -/
theorem atCall_pushed :
    (atCall interrupted vector errorCode stack memory trapDispatch).rsp =
        (stack &&& ~~~15) - 176 ∧
      (atCall interrupted vector errorCode stack memory trapDispatch).regs .rdi =
        (atCall interrupted vector errorCode stack memory trapDispatch).rsp ∧
      StackHolds (atCall interrupted vector errorCode stack memory trapDispatch).memory
        (atCall interrupted vector errorCode stack memory trapDispatch).rsp
        (savedRegs.reverse.map interrupted.regs ++ interrupted.entryWords vector errorCode) := by
  have pushed := (stub_pushed interrupted vector errorCode stack memory trapDispatch).pushRegs
    trapDispatch savedRegs (by simp [Interrupted.entryWords, savedRegs])
  rw [← List.map_reverse] at pushed
  have count : (savedRegs.reverse.map interrupted.regs ++
      interrupted.entryWords vector errorCode).length = 22 := rfl
  have rsp := pushed.rsp
  have stackHolds := pushed.stack
  rw [count] at rsp
  rw [atCall, exec_movRsp]
  generalize exec trapDispatch (savedRegs.map .push) _ = saved at rsp stackHolds
  exact ⟨rsp, Function.update_self .rdi saved.rsp saved.regs, stackHolds⟩

theorem atCall_trapFrame :
    trapFrameAt (atCall interrupted vector errorCode stack memory trapDispatch).memory
        ((atCall interrupted vector errorCode stack memory trapDispatch).regs .rdi) =
      interrupted.trapFrame vector errorCode := by
  obtain ⟨_, rdi, holds⟩ := atCall_pushed interrupted vector errorCode stack memory trapDispatch
  rw [rdi]
  apply trapFrameAt_of_stackHolds
  rw [savedWords_eq, stackHolds_append] at holds
  exact holds.1

/-- The stack pointer of the processor after its alignment is a multiple of 16. -/
theorem aligned_toNat (stack : UInt64) : (stack &&& ~~~15).toNat % 16 = 0 := by
  have mask : (~~~15 : UInt64).toNat &&& (2 ^ 4 - 1) = 0 := by decide
  rw [UInt64.toNat_and, ← Nat.and_two_pow_sub_one_eq_mod _ 4, Nat.and_assoc, mask, Nat.and_zero]

theorem atCall_aligned :
    (atCall interrupted vector errorCode stack memory trapDispatch).rsp.toNat % 16 = 0 := by
  rw [(atCall_pushed interrupted vector errorCode stack memory trapDispatch).1,
    UInt64.toNat_sub]
  have aligned := aligned_toNat stack
  have value : (176 : UInt64).toNat = 176 := rfl
  omega

/-! ### After the call -/

end

/-- A call that returns as the calling convention has it, with the stack
pointer it found, and leaves the 160 bytes of the frame as they are. -/
structure KeepsFrame (trapDispatch : Callee) (cpu : Cpu) : Prop where
  rsp : (Instr.callTrapDispatch.step trapDispatch cpu).rsp = cpu.rsp
  frame : ∀ position < 160,
    (Instr.callTrapDispatch.step trapDispatch cpu).memory
        (cpu.regs .rdi + UInt64.ofNat position) =
      cpu.memory (cpu.regs .rdi + UInt64.ofNat position)

/-- The rest of the common path restores the registers from the frame, and
ends at the word behind the error code. -/
theorem reach_iretq_of_frame (trapDispatch : Callee) {cpu : Cpu} {regs : Reg → UInt64}
    {vector errorCode rip cs rflags : UInt64}
    (holds : StackHolds cpu.memory cpu.rsp
      (savedRegs.reverse.map regs ++ [vector, errorCode, rip, cs, rflags])) :
    ∃ atIretq, reach trapDispatch .iretq
        (savedRegs.reverse.map .pop ++ ([.addRsp 16] ++ [.iretq])) cpu = some atIretq ∧
      atIretq.regs = regs ∧ atIretq.rsp = cpu.rsp + 136 ∧
      load64 atIretq.memory atIretq.rsp = rip := by
  obtain ⟨popped, entry⟩ := stackHolds_append.mp holds
  obtain ⟨registers, pointer, memory⟩ := exec_popRegs trapDispatch savedRegs.reverse regs popped
  have popBytes : UInt64.ofNat (8 * savedRegs.reverse.length) = 120 := rfl
  have entryBytes : UInt64.ofNat (8 * (savedRegs.reverse.map regs).length) = 120 := by
    rw [List.length_map]
    exact popBytes
  have ripBytes : UInt64.ofNat (8 * 2) = 16 := rfl
  have saved := entry.word (show 2 < [vector, errorCode, rip, cs, rflags].length by simp)
  rw [popBytes] at pointer
  rw [entryBytes, ripBytes] at saved
  generalize popped : exec trapDispatch (savedRegs.reverse.map .pop) cpu = restored at *
  refine ⟨exec trapDispatch [.addRsp 16] restored, ?_, ?_, ?_, ?_⟩
  · rw [reach_append trapDispatch (by simp), reach_append trapDispatch (by simp), reach_here,
      popped]
  · funext reg
    exact (registers reg).trans (if_pos (by simp [mem_savedRegs]))
  · rw [exec_addRsp, pointer, UInt64.add_assoc]
    rfl
  · rw [exec_addRsp, memory, pointer]
    exact saved

/-- Interrupt entry and exit are transparent, for every vector, every register
file and every stack: the C side sees the interrupted state in a frame on an
aligned stack, and if it leaves the frame alone, `iretq` finds the registers
as they were and the stack pointer at the saved `rip`. -/
theorem interrupt_transparent (interrupted : Interrupted) (vector : Fin 48)
    (errorCode stack : UInt64) (memory : Memory64) (trapDispatch : Callee) :
    ∃ atCall, reach trapDispatch .callTrapDispatch (isrStub vector)
        (deliver interrupted vector errorCode stack memory) = some atCall ∧
      trapFrameAt atCall.memory (atCall.regs .rdi) = interrupted.trapFrame vector errorCode ∧
      atCall.rsp.toNat % 16 = 0 ∧
      (KeepsFrame trapDispatch atCall →
        ∃ atIretq, reach trapDispatch .iretq (isrStub vector)
            (deliver interrupted vector errorCode stack memory) = some atIretq ∧
          atIretq.regs = interrupted.regs ∧ atIretq.rsp = (stack &&& ~~~15) - 40 ∧
          load64 atIretq.memory atIretq.rsp = interrupted.rip) := by
  refine ⟨_, reach_call interrupted vector errorCode stack memory trapDispatch,
    atCall_trapFrame interrupted vector errorCode stack memory trapDispatch,
    atCall_aligned interrupted vector errorCode stack memory trapDispatch, ?_⟩
  intro keeps
  obtain ⟨rsp, rdi, holds⟩ := atCall_pushed interrupted vector errorCode stack memory trapDispatch
  rw [savedWords_eq, stackHolds_append] at holds
  have frame : StackHolds
      (Instr.callTrapDispatch.step trapDispatch
        (atCall interrupted vector errorCode stack memory trapDispatch)).memory
      (Instr.callTrapDispatch.step trapDispatch
        (atCall interrupted vector errorCode stack memory trapDispatch)).rsp
      (interrupted.trapFrame vector errorCode).words := by
    rw [keeps.rsp]
    apply holds.1.congr
    rw [← rdi]
    exact keeps.frame
  rw [trapFrame_words] at frame
  obtain ⟨atIretq, reached, regs, pointer, rip⟩ := reach_iretq_of_frame trapDispatch frame
  refine ⟨atIretq, ?_, regs, ?_, rip⟩
  · exact (reach_iretq_through_call interrupted vector errorCode stack memory trapDispatch).trans
      reached
  · rw [pointer, keeps.rsp, rsp]
    grind

/-- A handler that returns at once. -/
def returning : Callee := ⟨0, fun cpu => { cpu with rsp := cpu.rsp + 8 }⟩

theorem returning_keepsFrame {cpu : Cpu} (rdi : cpu.regs .rdi = cpu.rsp) :
    KeepsFrame returning cpu where
  rsp := UInt64.sub_add_cancel cpu.rsp 8
  frame position inside := by
    rw [rdi]
    exact store64_below cpu.memory cpu.rsp 0 (by omega)

/-- Code with a different value in each register. -/
def counting : Interrupted where
  regs
    | .rax => 1 | .rbx => 2 | .rcx => 3 | .rdx => 4 | .rbp => 5 | .rdi => 6 | .rsi => 7
    | .r8 => 8 | .r9 => 9 | .r10 => 10 | .r11 => 11 | .r12 => 12 | .r13 => 13 | .r14 => 14
    | .r15 => 15
  rsp := 0x7008
  rip := 0x401000
  cs := 0x28
  rflags := 0x202
  ss := 0x30

/-- A page fault, with its error code. -/
theorem interrupt_transparent_pageFault :
    ∃ atIretq, reach returning .iretq (isrStub 14)
        (deliver counting 14 2 0x7008 fun _ => 0) = some atIretq ∧
      atIretq.regs = counting.regs ∧ atIretq.rsp = (0x7008 &&& ~~~15) - 40 ∧
      load64 atIretq.memory atIretq.rsp = counting.rip := by
  obtain ⟨state, reached, _, _, after⟩ :=
    interrupt_transparent counting 14 2 0x7008 (fun _ => 0) returning
  rw [reach_call] at reached
  cases reached
  exact after (returning_keepsFrame (atCall_pushed counting 14 2 0x7008 (fun _ => 0) returning).2.1)

end Mcsos.Trap
