import Mathlib.Algebra.Order.Ring.Nat
import Mathlib.Data.Fin.VecNotation
import Mathlib.Data.List.FinRange
import Mcsos.Machine.Bytes

/-!
The interrupt descriptor table of `kernel/arch/x86_64/idt.c`, as the bytes that
the kernel stores and as the gates that the processor reads in them.
-/

namespace Mcsos.Trap

open Mcsos.Machine

/-! ### The kernel's side -/

/-- `x86_64_idt_entry_t`, which is packed. -/
structure X8664IdtEntry where
  offsetLow : UInt16
  selector : UInt16
  ist : UInt8
  typeAttributes : UInt8
  offsetMid : UInt16
  offsetHigh : UInt32
  reserved : UInt32

/-- The fields are stored one after the other. -/
def X8664IdtEntry.store (entry : X8664IdtEntry) (address : Nat) (memory : Nat → UInt8) :
    Nat → UInt8 :=
  let memory := writeLE memory address 2 entry.offsetLow.toNat
  let memory := writeLE memory (address + 2) 2 entry.selector.toNat
  let memory := writeLE memory (address + 4) 1 entry.ist.toNat
  let memory := writeLE memory (address + 5) 1 entry.typeAttributes.toNat
  let memory := writeLE memory (address + 6) 2 entry.offsetMid.toNat
  let memory := writeLE memory (address + 8) 4 entry.offsetHigh.toNat
  writeLE memory (address + 12) 4 entry.reserved.toNat

def x8664KernelCodeSelector : UInt16 := 0x28
def x8664IdtGateInterrupt : UInt8 := 0x8E
def x8664IdtGateTrap : UInt8 := 0x8F

/-- `x86_64_idt_set_gate`, for the table at the address `idt`. -/
def x8664IdtSetGate (idt : Nat) (vector : UInt8) (handler : UInt64) (typeAttributes : UInt8) :
    (Nat → UInt8) → Nat → UInt8 :=
  X8664IdtEntry.store
    { offsetLow := (handler &&& 0xFFFF).toUInt16
      selector := x8664KernelCodeSelector
      ist := 0
      typeAttributes := typeAttributes
      offsetMid := ((handler >>> 16) &&& 0xFFFF).toUInt16
      offsetHigh := ((handler >>> 32) &&& 0xFFFFFFFF).toUInt32
      reserved := 0 }
    (idt + 16 * vector.toNat)

/-- `x86_64_idtr_t`. -/
structure X8664Idtr where
  limit : UInt16
  base : UInt64

/-- A loop that sets one gate after the other. -/
def setGates {α : Type} (idt : Nat) (vector : α → UInt8) (handler : α → UInt64)
    (typeAttributes : α → UInt8) (indices : List α) (memory : Nat → UInt8) : Nat → UInt8 :=
  indices.foldl
    (fun memory index =>
      x8664IdtSetGate idt (vector index) (handler index) (typeAttributes index) memory) memory

/-- The type of the gate of a vector. -/
def gateType (vector : Fin 48) : UInt8 :=
  if vector = 3 then x8664IdtGateTrap else x8664IdtGateInterrupt

/-- `x86_64_idt_init` up to `lidt`, for the table at `idt` and the addresses in
`x86_64_exception_stubs`. -/
def x8664IdtInit (idt : UInt64) (exceptionStubs : Fin 48 → UInt64) (memory : Nat → UInt8) :
    (Nat → UInt8) × X8664Idtr :=
  let memory := setGates idt.toNat (fun i => UInt8.ofNat i.val) (fun _ => 0) (fun _ => 0)
    (List.finRange 256) memory
  let memory := setGates idt.toNat (fun vector => UInt8.ofNat vector.val) exceptionStubs gateType
    (List.finRange 48) memory
  (memory, ⟨UInt16.ofNat (256 * 16 - 1), idt⟩)

/-! ### The processor's side -/

/-- A gate as the processor decodes it. -/
structure Gate where
  handler : UInt64
  selector : UInt16
  ist : Nat
  kind : Nat
  privilege : Nat
  present : Bool
deriving DecidableEq

def readGate (memory : Nat → UInt8) (address : Nat) : Gate where
  handler := UInt64.ofNat (readLE memory address 2 + 2 ^ 16 * readLE memory (address + 6) 2 +
    2 ^ 32 * readLE memory (address + 8) 4)
  selector := UInt16.ofNat (readLE memory (address + 2) 2)
  ist := readLE memory (address + 4) 1 % 8
  kind := readLE memory (address + 5) 1 % 16
  privilege := readLE memory (address + 5) 1 / 32 % 4
  present := readLE memory (address + 5) 1 / 128 = 1

/-- What keeps a vector from its handler. -/
inductive GateFault where
  | generalProtection
  | notPresent
deriving DecidableEq

/-- The gate of a vector, for an interrupt in the kernel: it has to lie within
the table, be an interrupt or a trap gate and be present. -/
def gateFor (memory : Nat → UInt8) (idtr : X8664Idtr) (vector : UInt8) : Except GateFault Gate :=
  if idtr.limit.toNat < 16 * vector.toNat + 15 then .error .generalProtection
  else
    let gate := readGate memory (idtr.base.toNat + 16 * vector.toNat)
    if gate.kind ≠ 14 ∧ gate.kind ≠ 15 then .error .generalProtection
    else if gate.present = false then .error .notPresent
    else .ok gate

/-! ### One gate -/

/-- What is to be read where a gate has been set. -/
def setGate (handler : UInt64) (typeAttributes : UInt8) : Gate where
  handler := handler
  selector := x8664KernelCodeSelector
  ist := 0
  kind := typeAttributes.toNat % 16
  privilege := typeAttributes.toNat / 32 % 4
  present := typeAttributes.toNat / 128 = 1

section

variable (memory : Nat → UInt8) (address : Nat)

theorem readLE_writeLE_byte (value : UInt8) :
    readLE (writeLE memory address 1 value.toNat) address 1 = value.toNat :=
  readLE_writeLE memory address value.toNat_lt

theorem readLE_writeLE_half (value : UInt16) :
    readLE (writeLE memory address 2 value.toNat) address 2 = value.toNat :=
  readLE_writeLE memory address value.toNat_lt

theorem readLE_writeLE_word (value : UInt32) :
    readLE (writeLE memory address 4 value.toNat) address 4 = value.toNat :=
  readLE_writeLE memory address value.toNat_lt

end

/-- The parts of a handler's address make up the address. -/
theorem handler_parts (handler : UInt64) :
    UInt64.ofNat ((handler &&& 0xFFFF).toUInt16.toNat +
      2 ^ 16 * ((handler >>> 16) &&& 0xFFFF).toUInt16.toNat +
      2 ^ 32 * ((handler >>> 32) &&& 0xFFFFFFFF).toUInt32.toNat) = handler := by
  have low : (handler &&& 0xFFFF).toUInt16.toNat = handler.toNat % 2 ^ 16 := by
    rw [UInt64.toNat_toUInt16, UInt64.toNat_and]
    show (handler.toNat &&& (2 ^ 16 - 1)) % 2 ^ 16 = _
    rw [Nat.and_two_pow_sub_one_eq_mod, Nat.mod_mod]
  have middle : ((handler >>> 16) &&& 0xFFFF).toUInt16.toNat = handler.toNat / 2 ^ 16 % 2 ^ 16 := by
    rw [UInt64.toNat_toUInt16, UInt64.toNat_and, UInt64.toNat_shiftRight]
    show (handler.toNat >>> 16 &&& (2 ^ 16 - 1)) % 2 ^ 16 = _
    rw [Nat.and_two_pow_sub_one_eq_mod, Nat.mod_mod, Nat.shiftRight_eq_div_pow]
  have high : ((handler >>> 32) &&& 0xFFFFFFFF).toUInt32.toNat =
      handler.toNat / 2 ^ 32 % 2 ^ 32 := by
    rw [UInt64.toNat_toUInt32, UInt64.toNat_and, UInt64.toNat_shiftRight]
    show (handler.toNat >>> 32 &&& (2 ^ 32 - 1)) % 2 ^ 32 = _
    rw [Nat.and_two_pow_sub_one_eq_mod, Nat.mod_mod, Nat.shiftRight_eq_div_pow]
  have small := handler.toNat_lt
  rw [low, middle, high, ← UInt64.toNat_inj]
  have sum : handler.toNat % 2 ^ 16 + 2 ^ 16 * (handler.toNat / 2 ^ 16 % 2 ^ 16) +
      2 ^ 32 * (handler.toNat / 2 ^ 32 % 2 ^ 32) = handler.toNat := by
    omega
  rw [sum, UInt64.ofNat_toNat]

theorem readGate_setGate (idt : Nat) (vector : UInt8) (handler : UInt64) (typeAttributes : UInt8)
    (memory : Nat → UInt8) :
    readGate (x8664IdtSetGate idt vector handler typeAttributes memory) (idt + 16 * vector.toNat) =
      setGate handler typeAttributes := by
  simp (disch := omega) only [readGate, x8664IdtSetGate, X8664IdtEntry.store, readLE_writeLE_apart,
    readLE_writeLE_byte, readLE_writeLE_half, readLE_writeLE_word, handler_parts]
  rfl

/-- A store of an entry stays in its sixteen bytes. -/
theorem setGate_outside {idt : Nat} {vector : UInt8} {handler : UInt64} {typeAttributes : UInt8}
    {memory : Nat → UInt8} {target : Nat}
    (outside : target < idt + 16 * vector.toNat ∨ idt + 16 * vector.toNat + 16 ≤ target) :
    x8664IdtSetGate idt vector handler typeAttributes memory target = memory target := by
  simp (disch := omega) only [x8664IdtSetGate, X8664IdtEntry.store, writeLE, writeRange_outside]

theorem readGate_congr {memory other : Nat → UInt8} {address : Nat}
    (same : ∀ position < 12, memory (address + position) = other (address + position)) :
    readGate memory address = readGate other address := by
  have field : ∀ offset width, offset + width ≤ 12 →
      readLE memory (address + offset) width = readLE other (address + offset) width := by
    intro offset width inside
    apply readLE_congr
    intro position within
    rw [Nat.add_assoc]
    exact same (offset + position) (by omega)
  have first := field 0 2 (by decide)
  rw [Nat.add_zero] at first
  rw [readGate, readGate, first, field 6 2 (by decide), field 8 4 (by decide),
    field 2 2 (by decide), field 4 1 (by decide), field 5 1 (by decide)]

theorem readGate_setGate_apart {idt : Nat} {vector other : UInt8} (distinct : other ≠ vector)
    (handler : UInt64) (typeAttributes : UInt8) (memory : Nat → UInt8) :
    readGate (x8664IdtSetGate idt vector handler typeAttributes memory) (idt + 16 * other.toNat) =
      readGate memory (idt + 16 * other.toNat) := by
  have apart : other.toNat ≠ vector.toNat := fun same => distinct (UInt8.toNat.inj same)
  apply readGate_congr
  intro position inside
  exact setGate_outside (by omega)

/-! ### The loops -/

section

variable {α : Type} {idt : Nat} {vector : α → UInt8} {handler : α → UInt64}
  {typeAttributes : α → UInt8}

/-- A loop leaves the gates of other vectors alone. -/
theorem setGates_other {indices : List α} {other : UInt8}
    (distinct : ∀ index ∈ indices, other ≠ vector index) (memory : Nat → UInt8) :
    readGate (setGates idt vector handler typeAttributes indices memory) (idt + 16 * other.toNat) =
      readGate memory (idt + 16 * other.toNat) := by
  induction indices generalizing memory with
  | nil => rfl
  | cons index rest inductionHypothesis =>
      have first := distinct index (by simp)
      exact (inductionHypothesis (fun later member => distinct later (by simp [member])) _).trans
        (readGate_setGate_apart first _ _ memory)

/-- A loop over distinct vectors leaves each with its own gate. -/
theorem setGates_own (injective : Function.Injective vector) {indices : List α}
    (nodup : indices.Nodup) {index : α} (member : index ∈ indices) (memory : Nat → UInt8) :
    readGate (setGates idt vector handler typeAttributes indices memory)
        (idt + 16 * (vector index).toNat) =
      setGate (handler index) (typeAttributes index) := by
  induction indices generalizing memory with
  | nil => cases member
  | cons first rest inductionHypothesis =>
      obtain ⟨absent, nodup⟩ := List.nodup_cons.mp nodup
      rcases List.mem_cons.mp member with rfl | later
      · have others : ∀ other ∈ rest, vector index ≠ vector other := by
          intro other inside same
          rw [injective same] at absent
          exact absent inside
        exact (setGates_other others _).trans (readGate_setGate _ _ _ _ memory)
      · exact inductionHypothesis nodup later _

theorem setGates_outside {indices : List α} {target : Nat}
    (outside : target < idt ∨ idt + 4096 ≤ target) (memory : Nat → UInt8) :
    setGates idt vector handler typeAttributes indices memory target = memory target := by
  induction indices generalizing memory with
  | nil => rfl
  | cons index rest inductionHypothesis =>
      have small := (vector index).toNat_lt
      exact (inductionHypothesis _).trans (setGate_outside (by omega))

end

/-! ### The table -/

theorem vector_toNat {count : Nat} (few : count ≤ 256) (i : Fin count) :
    (UInt8.ofNat i.val).toNat = i.val := by
  rw [UInt8.toNat_ofNat']
  exact Nat.mod_eq_of_lt (i.isLt.trans_le few)

theorem vector_injective {count : Nat} (few : count ≤ 256) :
    Function.Injective fun i : Fin count => UInt8.ofNat i.val := by
  intro first second same
  have values := congrArg UInt8.toNat same
  simp only [vector_toNat few] at values
  exact Fin.ext values

/-- The table holds every vector. -/
theorem gateFor_whole (memory : Nat → UInt8) (idt : UInt64) (vector : UInt8) :
    gateFor memory ⟨UInt16.ofNat (256 * 16 - 1), idt⟩ vector =
      if (readGate memory (idt.toNat + 16 * vector.toNat)).kind ≠ 14 ∧
          (readGate memory (idt.toNat + 16 * vector.toNat)).kind ≠ 15 then
        .error .generalProtection
      else if (readGate memory (idt.toNat + 16 * vector.toNat)).present = false then
        .error .notPresent
      else .ok (readGate memory (idt.toNat + 16 * vector.toNat)) := by
  have inside : ¬ (UInt16.ofNat (256 * 16 - 1)).toNat < 16 * vector.toNat + 15 := by
    have small := vector.toNat_lt
    show ¬ 4095 < _
    omega
  rw [gateFor, if_neg inside]

/-- The gates are read in the table only. -/
theorem gateFor_congr {memory other : Nat → UInt8} {idt : UInt64}
    (same : ∀ address, idt.toNat ≤ address → address < idt.toNat + 4096 →
      memory address = other address) (vector : UInt8) :
    gateFor memory ⟨UInt16.ofNat (256 * 16 - 1), idt⟩ vector =
      gateFor other ⟨UInt16.ofNat (256 * 16 - 1), idt⟩ vector := by
  have small := vector.toNat_lt
  have gate : readGate memory (idt.toNat + 16 * vector.toNat) =
      readGate other (idt.toNat + 16 * vector.toNat) :=
    readGate_congr fun position inside => same _ (by omega) (by omega)
  rw [gateFor_whole, gateFor_whole, gate]

/-- The gate of a vector that has a stub. -/
theorem x8664IdtInit_gate (idt : UInt64) (exceptionStubs : Fin 48 → UInt64)
    (memory : Nat → UInt8) (vector : Fin 48) :
    gateFor (x8664IdtInit idt exceptionStubs memory).1 (x8664IdtInit idt exceptionStubs memory).2
        (UInt8.ofNat vector.val) =
      .ok (setGate (exceptionStubs vector) (gateType vector)) := by
  have gate : readGate (x8664IdtInit idt exceptionStubs memory).1
      (idt.toNat + 16 * (UInt8.ofNat vector.val).toNat) = _ :=
    setGates_own (vector_injective (by decide)) (List.nodup_finRange 48) (List.mem_finRange vector) _
  have kind : (setGate (exceptionStubs vector) (gateType vector)).kind =
      if vector = 3 then 15 else 14 := by
    unfold gateType
    split <;> rfl
  have present : (setGate (exceptionStubs vector) (gateType vector)).present = true := by
    unfold gateType
    split <;> rfl
  refine (gateFor_whole _ idt _).trans ?_
  rw [gate, kind, present, if_neg (by split <;> simp), if_neg (by simp)]

/-- A vector without a stub has none. -/
theorem x8664IdtInit_empty (idt : UInt64) (exceptionStubs : Fin 48 → UInt64)
    (memory : Nat → UInt8) {vector : UInt8} (beyond : 48 ≤ vector.toNat) :
    gateFor (x8664IdtInit idt exceptionStubs memory).1 (x8664IdtInit idt exceptionStubs memory).2
        vector =
      .error .generalProtection := by
  have distinct : ∀ index ∈ List.finRange 48, vector ≠ UInt8.ofNat index.val := by
    rintro index - rfl
    rw [vector_toNat (by decide)] at beyond
    omega
  have cleared : readGate
      (setGates idt.toNat (fun i : Fin 256 => UInt8.ofNat i.val) (fun _ => 0) (fun _ => 0)
        (List.finRange 256) memory)
      (idt.toNat + 16 * (UInt8.ofNat vector.toNat).toNat) = setGate 0 0 :=
    setGates_own (vector_injective (Nat.le_refl 256)) (List.nodup_finRange 256)
      (List.mem_finRange ⟨vector.toNat, vector.toNat_lt⟩) memory
  rw [UInt8.ofNat_toNat] at cleared
  have gate : readGate (x8664IdtInit idt exceptionStubs memory).1 (idt.toNat + 16 * vector.toNat) =
      setGate 0 0 :=
    (setGates_other distinct _).trans cleared
  refine (gateFor_whole _ idt _).trans ?_
  rw [gate]
  rfl

/-- Nothing but the table is written. -/
theorem x8664IdtInit_outside (idt : UInt64) (exceptionStubs : Fin 48 → UInt64)
    (memory : Nat → UInt8) {target : Nat} (outside : target < idt.toNat ∨ idt.toNat + 4096 ≤ target) :
    (x8664IdtInit idt exceptionStubs memory).1 target = memory target :=
  (setGates_outside outside _).trans (setGates_outside outside memory)

end Mcsos.Trap
