import Mcsos.Machine.Bytes
import Mcsos.Machine.Trace

/-!
Owns NUL-terminated strings: the string itself, memory that stores one, and the
two loops every C file carries a copy of, comparison and copy.

Comparison reports the last position it reads, which is the same in both
strings. Copy writes wherever its store says, also behind the end of a field
that is too short.
-/

namespace Mcsos.Machine

open Prog

/-- A string without its terminator. -/
structure CString where
  chars : List UInt8
  nulFree : ∀ char ∈ chars, char ≠ 0
deriving DecidableEq

namespace CString

/-- The byte at a position; the terminator is at `length`. -/
def byteAt (string : CString) (position : Nat) : UInt8 := string.chars.getD position 0

def length (string : CString) : Nat := string.chars.length

/-- The memory stores the string, terminator included. -/
def StoredIn (string : CString) (memory : Nat → UInt8) : Prop :=
  ∀ position ≤ string.length, memory position = string.byteAt position

theorem byteAt_length (string : CString) : string.byteAt string.length = 0 := by
  simp [byteAt, length]

theorem byteAt_eq_zero_iff (string : CString) {position : Nat} (inside : position ≤ string.length) :
    string.byteAt position = 0 ↔ position = string.length := by
  constructor
  · intro ended
    by_contra notLast
    have before : position < string.chars.length := by
      rw [length] at inside notLast
      omega
    have char := string.nulFree (string.chars.get ⟨position, before⟩) (List.get_mem _ _)
    have here : string.byteAt position = string.chars.get ⟨position, before⟩ := by
      simp [byteAt, before]
    exact char (here.symm.trans ended)
  · intro last
    rw [last, string.byteAt_length]

/-- Of two strings stored in one memory, none ends before the other. -/
theorem StoredIn.length_le {string other : CString} {memory : Nat → UInt8}
    (stored : string.StoredIn memory) (otherStored : other.StoredIn memory) :
    other.length ≤ string.length := by
  by_contra longer
  have inside : string.length ≤ other.length := by omega
  have ended : other.byteAt string.length = 0 := by
    rw [← otherStored string.length inside, stored string.length (Nat.le_refl _),
      string.byteAt_length]
  have last := (other.byteAt_eq_zero_iff inside).mp ended
  omega

/-- A memory stores at most one string. -/
theorem StoredIn.unique {string other : CString} {memory : Nat → UInt8}
    (stored : string.StoredIn memory) (otherStored : other.StoredIn memory) : string = other := by
  have lengths : string.chars.length = other.chars.length :=
    Nat.le_antisymm (otherStored.length_le stored) (stored.length_le otherStored)
  have chars : string.chars = other.chars := by
    apply List.ext_getElem lengths
    intro position inside otherInside
    have here := stored position (Nat.le_of_lt inside)
    have there := otherStored position (Nat.le_of_lt otherInside)
    simpa [byteAt, inside, otherInside] using here.symm.trans there
  cases string
  cases other
  cases chars
  rfl

end CString

/-! ### Comparison -/

/-- `(int)(*a - *b)` for signed characters. -/
def charDifference (left right : UInt8) : Int := left.toInt8.toInt - right.toInt8.toInt

/-- The loop `while (*a && *b)` from a position on, over what is left of the
right string: its value and the last position it reads. -/
def strcmpFrom (left : Nat → UInt8) : List UInt8 → Nat → Int × Nat
  | [], position => (charDifference (left position) 0, position)
  | char :: rest, position =>
      if left position = 0 then
        (charDifference 0 char, position)
      else if left position ≠ char then
        (charDifference (left position) char, position)
      else
        strcmpFrom left rest (position + 1)

/-- One round: it goes on where neither string ends and the bytes are the
same. -/
theorem strcmpFrom_cons (left : Nat → UInt8) (char : UInt8) (rest : List UInt8) (position : Nat) :
    strcmpFrom left (char :: rest) position =
      if left position ≠ 0 ∧ left position = char then strcmpFrom left rest (position + 1)
      else (charDifference (left position) char, position) := by
  rw [strcmpFrom]
  by_cases ended : left position = 0
  · simp [ended]
  · by_cases same : left position = char
    · rw [if_neg ended, if_neg (not_not.mpr same), if_pos ⟨ended, same⟩]
    · rw [if_neg ended, if_pos same, if_neg fun goesOn => same goesOn.2]

/-- The comparison looks at no position before the one it begins at. -/
theorem le_strcmpFrom_last (left : Nat → UInt8) (right : List UInt8) (position : Nat) :
    position ≤ (strcmpFrom left right position).2 := by
  induction right generalizing position with
  | nil => exact Nat.le_refl _
  | cons char rest inductionHypothesis =>
      rw [strcmpFrom_cons]
      split
      · exact Nat.le_of_succ_le (inductionHypothesis (position + 1))
      · exact Nat.le_refl _

/-- It looks at no position behind the terminator of the right string. -/
theorem strcmpFrom_last_le (left : Nat → UInt8) (right : List UInt8) (position : Nat) :
    (strcmpFrom left right position).2 ≤ position + right.length := by
  induction right generalizing position with
  | nil => exact Nat.le_refl _
  | cons char rest inductionHypothesis =>
      have later := inductionHypothesis (position + 1)
      rw [strcmpFrom_cons, List.length_cons]
      split
      · omega
      · exact Nat.le_add_right _ _

/-- Nor behind the terminator of the left string. -/
theorem strcmpFrom_last_le_left {left : Nat → UInt8} {stop : Nat} (ended : left stop = 0)
    (right : List UInt8) {position : Nat} (before : position ≤ stop) :
    (strcmpFrom left right position).2 ≤ stop := by
  induction right generalizing position with
  | nil => exact before
  | cons char rest inductionHypothesis =>
      rw [strcmpFrom_cons]
      split
      next goesOn =>
        have notLast : position ≠ stop := by
          intro last
          rw [last] at goesOn
          exact goesOn.1 ended
        exact inductionHypothesis (by omega)
      next => exact before

theorem charDifference_eq_zero_iff (left right : UInt8) :
    charDifference left right = 0 ↔ left = right := by
  unfold charDifference
  rw [Int.sub_eq_zero, Int8.toInt_inj]
  constructor
  · intro same
    exact congrArg Int8.toUInt8 same
  · intro same
    rw [same]

theorem strcmpFrom_eq_zero_iff (memory : Nat → UInt8) {right : List UInt8}
    (nulFree : ∀ char ∈ right, char ≠ 0) (position : Nat) :
    (strcmpFrom memory right position).1 = 0 ↔
      ∀ ahead ≤ right.length, memory (position + ahead) = right.getD ahead 0 := by
  induction right generalizing position with
  | nil =>
      rw [strcmpFrom, charDifference_eq_zero_iff]
      simp
  | cons char rest inductionHypothesis =>
      have charFree := nulFree char List.mem_cons_self
      have restFree := fun other member => nulFree other (List.mem_cons_of_mem _ member)
      -- the string is stored from here on when its first byte is, and the rest
      -- from the next position on
      have split : (∀ ahead ≤ (char :: rest).length,
            memory (position + ahead) = (char :: rest).getD ahead 0) ↔
          memory position = char ∧
            ∀ ahead ≤ rest.length, memory (position + 1 + ahead) = rest.getD ahead 0 := by
        constructor
        · intro holds
          refine ⟨holds 0 (Nat.zero_le _), fun ahead inside => ?_⟩
          have shifted := holds (ahead + 1) (by rw [List.length_cons]; omega)
          rwa [show position + (ahead + 1) = position + 1 + ahead by omega] at shifted
        · rintro ⟨here, later⟩ ahead inside
          cases ahead with
          | zero => exact here
          | succ ahead =>
              have shifted := later ahead (by rw [List.length_cons] at inside; omega)
              rwa [show position + 1 + ahead = position + (ahead + 1) by omega] at shifted
      rw [split, strcmpFrom]
      by_cases ended : memory position = 0
      · rw [if_pos ended, charDifference_eq_zero_iff, ended]
        simp [charFree.symm]
      · rw [if_neg ended]
        by_cases same : memory position = char
        · rw [if_neg (not_not.mpr same), inductionHypothesis restFree]
          simp [same]
        · rw [if_pos same, charDifference_eq_zero_iff]
          simp [same]

/-- Comparison tells whether the memory stores the string. -/
theorem CString.strcmp_eq_zero_iff_storedIn (string : CString) (memory : Nat → UInt8) :
    (strcmpFrom memory string.chars 0).1 = 0 ↔ string.StoredIn memory := by
  rw [strcmpFrom_eq_zero_iff memory string.nulFree]
  simp only [Nat.zero_add]
  rfl

/-- Comparison with a stored string decides equality. -/
theorem CString.StoredIn.strcmp_eq_zero_iff {string : CString} {memory : Nat → UInt8}
    (stored : string.StoredIn memory) (other : CString) :
    (strcmpFrom memory other.chars 0).1 = 0 ↔ string = other := by
  rw [other.strcmp_eq_zero_iff_storedIn]
  constructor
  · intro otherStored
    exact stored.unique otherStored
  · intro same
    rwa [← same]

/-! ### Copy -/

section

variable {ε σ : Type} [Event ε σ]

/-- `while (*src) *dst++ = *src++; *dst = 0;` with `store` for `dst`. -/
def strcpy (store : Nat → UInt8 → ε) (src : CString) : Prog ε σ Unit := do
  forLoop 0 src.length fun position => emit (store position (src.byteAt position))
  emit (store src.length 0)

/-- The copy stores the bytes of the string, the terminator last. -/
theorem strcpy_trace (store : Nat → UInt8 → ε) (src : CString) (state : σ) :
    (strcpy store src).trace state =
      (List.range' 0 (src.length + 1)).map fun position => store position (src.byteAt position) := by
  rw [strcpy, trace_bind, trace_emit, forLoop_emit_trace, List.range'_concat, List.map_append]
  simp [CString.byteAt_length]

/-- The copy keeps to the places that each of its bytes is allowed. -/
theorem strcpy_issues_iff (store : Nat → UInt8 → ε) (src : CString) (good : ε → Prop) (state : σ) :
    (strcpy store src).Issues good state ↔
      ∀ position ≤ src.length, good (store position (src.byteAt position)) := by
  simp only [Issues, strcpy_trace, List.forall_mem_map, List.mem_range'_1]
  constructor
  · intro each position inside
    exact each position ⟨Nat.zero_le _, by omega⟩
  · intro each position inside
    exact each position (by omega)

theorem strcpy_final (store : Nat → UInt8 → ε) (src : CString) (state : σ) :
    (strcpy store src).final state =
      (forLoop 0 (src.length + 1) fun position =>
        emit (store position (src.byteAt position))).final state := by
  rw [final, strcpy_trace, final, forLoop_emit_trace]

end

/-- A range that holds the bytes of a string stores it. -/
theorem CString.storedIn_writeRange (string : CString) (memory : Nat → UInt8) :
    string.StoredIn (writeRange memory 0 (string.length + 1) string.byteAt) := by
  intro position inside
  have written := writeRange_inside memory 0 string.byteAt (Nat.lt_succ_of_le inside)
  rwa [Nat.zero_add] at written

end Mcsos.Machine
