import Mcsos.Trap.Transparency

/-!
System calls: `kernel/core/syscall.c`, and the stub of
`kernel/arch/x86_64/syscall_entry.S`.

The stub saves and restores seven registers and calls nothing, so a system call
made through it comes back with every register as it was; the dispatcher is
reached by direct calls only.
-/

namespace Mcsos.Trap

open Mcsos.Machine

/-! ### The dispatcher -/

def mcsosSysPing : UInt64 := 0
def mcsosSysGetTicks : UInt64 := 1
def mcsosSysWriteSerial : UInt64 := 2
def mcsosSysYield : UInt64 := 3
def mcsosSysExitThread : UInt64 := 4

/-- `MCSOS_ENOSYS` as it is converted to `uint64_t`. -/
def mcsosEnosys : UInt64 := -38
def mcsosEfault : UInt64 := -14

def sysPing : UInt64 := 0x2605020A

def sysGetTicks : UInt64 := 800

def sysWriteSerial (buf len : UInt64) : UInt64 := if buf = 0 then mcsosEfault else len

def sysYield : UInt64 := 0

def sysExitThread (_code : UInt64) : UInt64 := 0

def mcsosSyscallDispatch (nr arg0 arg1 _arg2 _arg3 _arg4 _arg5 : UInt64) : UInt64 :=
  if nr = mcsosSysPing then sysPing
  else if nr = mcsosSysGetTicks then sysGetTicks
  else if nr = mcsosSysWriteSerial then sysWriteSerial arg0 arg1
  else if nr = mcsosSysYield then sysYield
  else if nr = mcsosSysExitThread then sysExitThread arg0
  else mcsosEnosys

/-- A caller that takes the result for signed sees an error for a number that
is not served and for a missing buffer, and else only for a length that no
buffer has. -/
theorem mcsosSyscallDispatch_negative_iff (nr arg0 arg1 arg2 arg3 arg4 arg5 : UInt64) :
    (mcsosSyscallDispatch nr arg0 arg1 arg2 arg3 arg4 arg5).toInt64.toInt < 0 ↔
      5 ≤ nr.toNat ∨ nr = mcsosSysWriteSerial ∧ (arg0 = 0 ∨ 2 ^ 63 ≤ arg1.toNat) := by
  have negative : ∀ value : UInt64, value.toInt64.toInt < 0 ↔ 2 ^ 63 ≤ value.toNat := by
    intro value
    have small := value.toNat_lt
    have signed : value.toInt64.toInt =
        if 2 * value.toNat < 2 ^ 64 then (value.toNat : Int) else value.toNat - (2 ^ 64 : Nat) :=
      BitVec.toInt_eq_toNat_cond value.toBitVec
    rw [signed]
    split <;> omega
  have served : 5 ≤ nr.toNat ↔ nr ≠ 0 ∧ nr ≠ 1 ∧ nr ≠ 2 ∧ nr ≠ 3 ∧ nr ≠ 4 := by
    simp only [ne_eq, ← UInt64.toNat_inj]
    show 5 ≤ nr.toNat ↔ nr.toNat ≠ 0 ∧ nr.toNat ≠ 1 ∧ nr.toNat ≠ 2 ∧ nr.toNat ≠ 3 ∧ nr.toNat ≠ 4
    omega
  rw [negative, served]
  unfold mcsosSyscallDispatch mcsosSysPing mcsosSysGetTicks mcsosSysWriteSerial mcsosSysYield
    mcsosSysExitThread
  split_ifs with ping ticks write yields exits
  · simp [ping, sysPing]
  · simp [ticks, sysGetTicks]
  · unfold sysWriteSerial
    split_ifs with missing
    · simp [write, missing, mcsosEfault, UInt64.size]
    · simp [write, missing]
  · simp [yields, sysYield]
  · simp [exits, sysExitThread]
  · simp [ping, ticks, write, yields, exits, mcsosEnosys, UInt64.size]

/-! ### The stub -/

/-- The registers that the stub saves, in the order in which it pushes them. -/
def syscallRegs : List Reg := [.rax, .rbx, .rcx, .rdx, .rsi, .rdi, .rbp]

def x8664SyscallInt80Stub : List Instr :=
  [.push .rax, .push .rbx, .push .rcx, .push .rdx, .push .rsi, .push .rdi, .push .rbp,
    .pop .rbp, .pop .rdi, .pop .rsi, .pop .rdx, .pop .rcx, .pop .rbx, .pop .rax,
    .iretq]

theorem x8664SyscallInt80Stub_eq : x8664SyscallInt80Stub =
    syscallRegs.map .push ++ (syscallRegs.reverse.map .pop ++ [.iretq]) := rfl

/-- Pushes reach no further down than their words. -/
theorem exec_pushRegs_memory (trapDispatch : Callee) (saved : List Reg) {cpu : Cpu}
    {address : UInt64} (short : 8 * saved.length < 2 ^ 64)
    (outside : 8 * saved.length ≤ (address - (cpu.rsp - UInt64.ofNat (8 * saved.length))).toNat) :
    (exec trapDispatch (saved.map .push) cpu).memory address = cpu.memory address := by
  induction saved generalizing cpu with
  | nil => rfl
  | cons reg saved inductionHypothesis =>
      rw [List.length_cons] at short outside
      have width : (UInt64.ofNat (8 * (saved.length + 1))).toNat = 8 * (saved.length + 1) :=
        UInt64.toNat_ofNat_of_lt' short
      have distance : (address - (cpu.rsp - 8)).toNat =
          (address - (cpu.rsp - UInt64.ofNat (8 * (saved.length + 1)))).toNat -
            8 * saved.length := by
        have eight : (8 : UInt64).toNat = 8 := rfl
        have low := address.toNat_lt
        have high := cpu.rsp.toNat_lt
        simp only [UInt64.toNat_sub, width, eight] at outside ⊢
        omega
      have kept : (cpu.push (cpu.regs reg)).memory address = cpu.memory address := by
        show store64 cpu.memory (cpu.rsp - 8) _ address = _
        rw [store64, if_neg (by omega)]
      refine (@inductionHypothesis (cpu.push (cpu.regs reg)) (by omega) ?_).trans kept
      have top : (cpu.push (cpu.regs reg)).rsp - UInt64.ofNat (8 * saved.length) =
          cpu.rsp - UInt64.ofNat (8 * (saved.length + 1)) := by
        show cpu.rsp - 8 - _ = _
        rw [Nat.mul_succ, UInt64.ofNat_add]
        grind
      rw [top]
      omega

/-- A system call made through the stub comes back with every register as it
was, the number in `rax` included, and with memory as it was but for the seven
words below the stack; no dispatcher is called on the way. -/
theorem int80_stub_transparent (cpu : Cpu) (trapDispatch : Callee) :
    (∃ atIretq, reach trapDispatch .iretq x8664SyscallInt80Stub cpu = some atIretq ∧
      atIretq.regs = cpu.regs ∧ atIretq.rsp = cpu.rsp ∧
      ∀ address, 56 ≤ (address - (cpu.rsp - 56)).toNat →
        atIretq.memory address = cpu.memory address) ∧
      reach trapDispatch .callTrapDispatch x8664SyscallInt80Stub cpu = none := by
  have entered : Pushed cpu.rsp cpu.regs [] cpu := ⟨rfl, by simp, trivial⟩
  have pushed := entered.pushRegs trapDispatch syscallRegs (by decide)
  rw [List.append_nil, ← List.map_reverse] at pushed
  obtain ⟨regs, rsp, memory⟩ := exec_popRegs trapDispatch syscallRegs.reverse cpu.regs pushed.stack
  have noReturn : ∀ saved : List Reg, Instr.iretq ∉ saved.map Instr.push ∧
      Instr.iretq ∉ saved.map Instr.pop := by
    intro saved
    simp
  have reached : reach trapDispatch .iretq x8664SyscallInt80Stub cpu =
      some (exec trapDispatch (syscallRegs.reverse.map .pop)
        (exec trapDispatch (syscallRegs.map .push) cpu)) := by
    rw [x8664SyscallInt80Stub_eq, reach_append trapDispatch (noReturn _).1,
      reach_append trapDispatch (noReturn _).2]
    exact reach_here trapDispatch _ _ _
  constructor
  · refine ⟨_, reached, ?_, ?_, ?_⟩
    · funext reg
      rw [regs, pushed.regs, ite_self]
    · rw [rsp, pushed.rsp]
      simp [syscallRegs]
    · intro address outside
      rw [memory]
      exact exec_pushRegs_memory trapDispatch syscallRegs (by decide) outside
  · rfl

end Mcsos.Trap
