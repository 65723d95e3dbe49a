import Mcsos.Machine.Stack

/-!
Interrupt entry and exit on x86_64: the stubs and the common path of
`kernel/arch/x86_64/isr.S`, and the structure `x86_64_trap_frame_t` of `idt.h`
through which the C side sees the saved state.

`x86_64_trap_dispatch` is compiled C. It is a parameter here: the state it
finds after the call has pushed the return address, to the state after its
return.
-/

namespace Mcsos.Trap

open Mcsos.Machine

/-- The general registers other than the stack pointer. -/
inductive Reg where
  | rax | rbx | rcx | rdx | rbp | rdi | rsi
  | r8 | r9 | r10 | r11 | r12 | r13 | r14 | r15
deriving DecidableEq, Repr

/-- What the instructions of the entry path read and write. -/
structure Cpu where
  regs : Reg → UInt64
  rsp : UInt64
  memory : Memory64

/-! ### Instructions -/

inductive Instr where
  | pushImm (value : UInt64)
  | push (reg : Reg)
  | pop (reg : Reg)
  | movRsp (reg : Reg)
  | callTrapDispatch
  | addRsp (value : UInt64)
  | iretq
deriving DecidableEq, Repr

def Cpu.push (cpu : Cpu) (value : UInt64) : Cpu :=
  { cpu with
    rsp := cpu.rsp - 8
    memory := store64 cpu.memory (cpu.rsp - 8) value }

def Cpu.pop (cpu : Cpu) (reg : Reg) : Cpu :=
  { cpu with
    regs := Function.update cpu.regs reg (load64 cpu.memory cpu.rsp)
    rsp := cpu.rsp + 8 }

/-- Compiled code that is called, with the address it returns to. -/
structure Callee where
  returnAddress : UInt64
  body : Cpu → Cpu

/-- One instruction. What `iretq` does is up to the interrupted code; the
entry path ends in front of it. -/
def Instr.step (trapDispatch : Callee) : Instr → Cpu → Cpu
  | .pushImm value, cpu => cpu.push value
  | .push reg, cpu => cpu.push (cpu.regs reg)
  | .pop reg, cpu => cpu.pop reg
  | .movRsp reg, cpu => { cpu with regs := Function.update cpu.regs reg cpu.rsp }
  | .callTrapDispatch, cpu => trapDispatch.body (cpu.push trapDispatch.returnAddress)
  | .addRsp value, cpu => { cpu with rsp := cpu.rsp + value }
  | .iretq, cpu => cpu

/-- The state in which straight-line code reaches the first instruction `stop`. -/
def reach (trapDispatch : Callee) (stop : Instr) : List Instr → Cpu → Option Cpu
  | [], _ => none
  | instr :: rest, cpu =>
      if instr = stop then some cpu else reach trapDispatch stop rest (instr.step trapDispatch cpu)

/-! ### The code -/

def isrCommon : List Instr :=
  [.push .rax, .push .rbx, .push .rcx, .push .rdx, .push .rbp,
   .push .rdi, .push .rsi, .push .r8, .push .r9, .push .r10,
   .push .r11, .push .r12, .push .r13, .push .r14, .push .r15,
   .movRsp .rdi,
   .callTrapDispatch,
   .pop .r15, .pop .r14, .pop .r13, .pop .r12, .pop .r11,
   .pop .r10, .pop .r9, .pop .r8, .pop .rsi, .pop .rdi,
   .pop .rbp, .pop .rdx, .pop .rcx, .pop .rbx, .pop .rax,
   .addRsp 16,
   .iretq]

/-- A use of one of the two stub macros. -/
inductive IsrMacro where
  | isrNoerr (vector : UInt64)
  | isrErr (vector : UInt64)
deriving DecidableEq, Repr

/-- The code of a stub; its jump goes on to the common path. -/
def IsrMacro.code : IsrMacro → List Instr
  | .isrNoerr vector => [.pushImm 0, .pushImm vector] ++ isrCommon
  | .isrErr vector => [.pushImm vector] ++ isrCommon

/-- The stubs `isr_stub_0` to `isr_stub_47`, in the order in which
`x86_64_exception_stubs` lists them. -/
def isrStubs : Vector IsrMacro 48 :=
  #v[.isrNoerr 0, .isrNoerr 1, .isrNoerr 2, .isrNoerr 3, .isrNoerr 4, .isrNoerr 5,
   .isrNoerr 6, .isrNoerr 7, .isrErr 8, .isrNoerr 9, .isrErr 10, .isrErr 11,
   .isrErr 12, .isrErr 13, .isrErr 14, .isrNoerr 15, .isrNoerr 16, .isrErr 17,
   .isrNoerr 18, .isrNoerr 19, .isrNoerr 20, .isrErr 21, .isrNoerr 22, .isrNoerr 23,
   .isrNoerr 24, .isrNoerr 25, .isrNoerr 26, .isrNoerr 27, .isrNoerr 28, .isrErr 29,
   .isrErr 30, .isrNoerr 31, .isrNoerr 32, .isrNoerr 33, .isrNoerr 34, .isrNoerr 35,
   .isrNoerr 36, .isrNoerr 37, .isrNoerr 38, .isrNoerr 39, .isrNoerr 40, .isrNoerr 41,
   .isrNoerr 42, .isrNoerr 43, .isrNoerr 44, .isrNoerr 45, .isrNoerr 46, .isrNoerr 47]

/-- The code that the gate of a vector leads to. -/
def isrStub (vector : Fin 48) : List Instr := isrStubs[vector].code

/-! ### The frame -/

/-- `x86_64_trap_frame_t`. -/
structure X8664TrapFrame where
  r15 : UInt64
  r14 : UInt64
  r13 : UInt64
  r12 : UInt64
  r11 : UInt64
  r10 : UInt64
  r9 : UInt64
  r8 : UInt64
  rsi : UInt64
  rdi : UInt64
  rbp : UInt64
  rdx : UInt64
  rcx : UInt64
  rbx : UInt64
  rax : UInt64
  vector : UInt64
  errorCode : UInt64
  rip : UInt64
  cs : UInt64
  rflags : UInt64

/-- A field of the structure at `base`: it is packed, and all its fields have
eight bytes. -/
def trapFrameField (memory : Memory64) (base : UInt64) (index : Nat) : UInt64 :=
  load64 memory (base + UInt64.ofNat (8 * index))

/-- The structure at `base`. -/
def trapFrameAt (memory : Memory64) (base : UInt64) : X8664TrapFrame where
  r15 := trapFrameField memory base 0
  r14 := trapFrameField memory base 1
  r13 := trapFrameField memory base 2
  r12 := trapFrameField memory base 3
  r11 := trapFrameField memory base 4
  r10 := trapFrameField memory base 5
  r9 := trapFrameField memory base 6
  r8 := trapFrameField memory base 7
  rsi := trapFrameField memory base 8
  rdi := trapFrameField memory base 9
  rbp := trapFrameField memory base 10
  rdx := trapFrameField memory base 11
  rcx := trapFrameField memory base 12
  rbx := trapFrameField memory base 13
  rax := trapFrameField memory base 14
  vector := trapFrameField memory base 15
  errorCode := trapFrameField memory base 16
  rip := trapFrameField memory base 17
  cs := trapFrameField memory base 18
  rflags := trapFrameField memory base 19

/-! ### Delivery by the processor -/

/-- What an interrupt interrupts. -/
structure Interrupted where
  regs : Reg → UInt64
  rsp : UInt64
  rip : UInt64
  cs : UInt64
  rflags : UInt64
  ss : UInt64

/-- The vectors for which the processor pushes an error code. -/
def pushesErrorCode (vector : Nat) : Bool :=
  vector = 8 || (10 ≤ vector && vector ≤ 14) || vector = 17 || vector = 21 || vector = 29 ||
    vector = 30

/-- Each stub is the one for what the processor does. -/
theorem isrStubs_eq (vector : Fin 48) :
    isrStubs[vector] = if pushesErrorCode vector then .isrErr (UInt64.ofNat vector)
      else .isrNoerr (UInt64.ofNat vector) := by
  revert vector
  decide

/-- The processor takes a stack, aligns it to 16 bytes and pushes what it
interrupts. -/
def deliver (interrupted : Interrupted) (vector : Nat) (errorCode stack : UInt64)
    (memory : Memory64) : Cpu :=
  let entered : Cpu := ⟨interrupted.regs, stack &&& ~~~15, memory⟩
  let saved := ((((entered.push interrupted.ss).push interrupted.rsp).push
    interrupted.rflags).push interrupted.cs).push interrupted.rip
  if pushesErrorCode vector then saved.push errorCode else saved

end Mcsos.Trap
