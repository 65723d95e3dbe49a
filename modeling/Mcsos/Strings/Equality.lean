import Mcsos.Memory.Move
import Mcsos.Mcsfs.Model
import Mcsos.Mcsfs1.Files
import Mcsos.Strings.Model
import Mcsos.Vfs.Model

/-!
Contract: the three comparisons decide whether two stored strings are the same,
and read neither behind its terminator.

The index walk does what the pointer walk does, on any memory. The pointer walk
over a stored string is the comparison that the models of the filesystems make,
and the last position which that comparison looks at bounds the reads.
-/

namespace Mcsos.Strings

open Mcsos.Machine
open Mcsos.Machine.Prog
open Mcsos.Memory (Bytes cell)

/-- The string is stored at the address, terminator included. -/
def StoredAt (string : CString) (memory : Bytes) (address : UInt64) : Prop :=
  string.StoredIn fun place => memory (cell address place)

instance (string : CString) (memory : Bytes) (address : UInt64) :
    Decidable (StoredAt string memory address) :=
  inferInstanceAs (Decidable (∀ position ≤ string.length,
    memory (cell address position) = string.byteAt position))

/-- The read is of a character of the string of its argument, or of its
terminator. -/
def CharLoad.Within (a b : UInt64) (left right : CString) : CharLoad → Prop
  | .ofA address => ∃ place ≤ left.length, address = cell a place
  | .ofB address => ∃ place ≤ right.length, address = cell b place

/-- The comparison returns, its answer says whether the strings are the same,
and it reads nothing behind their terminators. -/
structure Decides (a b : UInt64) (left right : CString) (memory : Bytes) (tells : Int → Prop)
    (compare : CharProg (Option Int)) : Prop where
  returns : ∃ answer, compare.result memory = some answer ∧ (tells answer ↔ left = right)
  reads : compare.Issues (CharLoad.Within a b left right) memory

/-! ### Single reads -/

section

variable (address a b : UInt64) (memory : Bytes) (good : CharLoad → Prop)

@[simp] theorem result_loadA : (loadA address).result memory = memory address := (rfl)

@[simp] theorem result_loadB : (loadB address).result memory = memory address := (rfl)

@[simp] theorem issues_loadA : (loadA address).Issues good memory ↔ good (.ofA address) := by
  simp [loadA]

@[simp] theorem issues_loadB : (loadB address).Issues good memory ↔ good (.ofB address) := by
  simp [loadB]

/-- Reads leave the memory as it is. -/
@[simp] theorem final_eq {α : Type} (program : CharProg α) : program.final memory = memory :=
  applyAll_frame id (program.trace memory) (fun _ _ _ => rfl) memory

@[simp] theorem result_bothChars :
    (bothChars a b).result memory = (memory a != 0 && memory b != 0) := by
  by_cases ended : memory a = 0
  · simp [bothChars, ended]
  · simp [bothChars, ended]

theorem issues_bothChars :
    (bothChars a b).Issues good memory ↔
      good (.ofA a) ∧ (memory a ≠ 0 → good (.ofB b)) := by
  simp [bothChars, issues_ite]

@[simp] theorem result_difference :
    (difference a b).result memory = charDifference (memory a) (memory b) := by
  simp [difference]

theorem issues_difference :
    (difference a b).Issues good memory ↔ good (.ofA a) ∧ good (.ofB b) := by
  simp [difference]

end

/-! ### One round -/

/-- Neither string ends here, nor do they differ here. -/
def GoesOn (memory : Bytes) (a b : UInt64) : Prop := memory a ≠ 0 ∧ memory a = memory b

instance (memory : Bytes) (a b : UInt64) : Decidable (GoesOn memory a b) :=
  inferInstanceAs (Decidable (_ ∧ _))

/-- A round of either loop, with what it does where the strings differ, where
they go on and where one of them ends. -/
def compareRound (a b : UInt64) (differ next stop : CharProg (Option Int)) :
    CharProg (Option Int) := do
  let both ← bothChars a b
  if both then
    let left ← loadA a
    let right ← loadB b
    if left ≠ right then differ else next
  else
    stop

section

variable {memory : Bytes} {a b : UInt64} {good : CharLoad → Prop}

theorem GoesOn.both (goesOn : GoesOn memory a b) :
    (bothChars a b).result memory = true := by
  have present : memory b ≠ 0 := goesOn.2 ▸ goesOn.1
  simp [goesOn.1, present]

/-- Where the walk does not go on though neither string ends, they differ. -/
theorem differ_of_both (stops : ¬ GoesOn memory a b)
    (both : (bothChars a b).result memory = true) : memory a ≠ memory b := by
  have present : memory a ≠ 0 := by
    rw [result_bothChars, Bool.and_eq_true, bne_iff_ne] at both
    exact both.1
  exact fun same => stops ⟨present, same⟩

section

variable {differ next stop : CharProg (Option Int)}

theorem compareRound_result {answer : Option Int}
    (differs : memory a ≠ memory b → differ.result memory = answer)
    (stops : stop.result memory = answer) :
    (compareRound a b differ next stop).result memory =
      if GoesOn memory a b then next.result memory else answer := by
  rw [compareRound, result_bind, final_eq]
  by_cases goesOn : GoesOn memory a b
  · simp [goesOn, goesOn.both, goesOn.2]
  · cases both : (bothChars a b).result memory with
    | true =>
        have different := differ_of_both goesOn both
        simp [goesOn, different, differs different]
    | false => simp [goesOn, stops]

/-- A round reads one character of each string, whatever they are. -/
theorem compareRound_issues
    (differs : good (.ofA a) ∧ good (.ofB b) → differ.Issues good memory)
    (stops : stop.Issues good memory ↔ good (.ofA a) ∧ good (.ofB b)) :
    (compareRound a b differ next stop).Issues good memory ↔
      (good (.ofA a) ∧ good (.ofB b)) ∧ (GoesOn memory a b → next.Issues good memory) := by
  rw [compareRound, issues_bind, final_eq, issues_bothChars]
  by_cases goesOn : GoesOn memory a b
  · simp only [goesOn.both, if_true, issues_bind, issues_loadA, issues_loadB, final_eq,
      result_loadA, result_loadB, goesOn.2, ne_eq, not_true_eq_false, if_false, goesOn]
    tauto
  · cases both : (bothChars a b).result memory with
    | true =>
        have different := differ_of_both goesOn both
        simp only [if_true, issues_bind, issues_loadA, issues_loadB, final_eq, result_loadA,
          result_loadB, ne_eq, different, not_false_eq_true, goesOn]
        tauto
    | false =>
        simp only [Bool.false_eq_true, if_false, stops, goesOn]
        tauto

end

theorem strcmpLoop_succ (rounds : Nat) :
    strcmpLoop (rounds + 1) a b =
      compareRound a b (difference a b >>= fun value => pure (some value))
        (strcmpLoop rounds (a + 1) (b + 1)) (difference a b >>= fun value => pure (some value)) :=
  rfl

theorem streqLoop_succ (rounds : Nat) (i : UInt64) :
    streqLoop a b (rounds + 1) i =
      compareRound (a + i) (b + i) (pure (some 0)) (streqLoop a b rounds (i + 1))
        (loadA (a + i) >>= fun left => loadB (b + i) >>= fun right =>
          pure (some (if left = right then 1 else 0))) :=
  rfl

theorem strcmpLoop_result (rounds : Nat) :
    (strcmpLoop (rounds + 1) a b).result memory =
      if GoesOn memory a b then (strcmpLoop rounds (a + 1) (b + 1)).result memory
      else some (charDifference (memory a) (memory b)) := by
  rw [strcmpLoop_succ]
  exact compareRound_result (fun _ => by simp) (by simp)

theorem streqLoop_result (rounds : Nat) (i : UInt64) :
    (streqLoop a b (rounds + 1) i).result memory =
      if GoesOn memory (a + i) (b + i) then (streqLoop a b rounds (i + 1)).result memory
      else some (if memory (a + i) = memory (b + i) then 1 else 0) := by
  rw [streqLoop_succ]
  exact compareRound_result (fun different => by simp [different]) (by simp)

theorem strcmpLoop_issues (rounds : Nat) :
    (strcmpLoop (rounds + 1) a b).Issues good memory ↔
      (good (.ofA a) ∧ good (.ofB b)) ∧
        (GoesOn memory a b → (strcmpLoop rounds (a + 1) (b + 1)).Issues good memory) := by
  have ends : (difference a b >>= fun value => pure (some value)).Issues good memory ↔
      good (.ofA a) ∧ good (.ofB b) := by
    simp [issues_difference]
  rw [strcmpLoop_succ]
  exact compareRound_issues ends.mpr ends

theorem streqLoop_issues (rounds : Nat) (i : UInt64) :
    (streqLoop a b (rounds + 1) i).Issues good memory ↔
      (good (.ofA (a + i)) ∧ good (.ofB (b + i))) ∧
        (GoesOn memory (a + i) (b + i) → (streqLoop a b rounds (i + 1)).Issues good memory) := by
  rw [streqLoop_succ]
  exact compareRound_issues (fun _ => issues_pure _ _ _) (by simp)

/-! ### The two styles -/

/-- The index walk makes the reads of the pointer walk and answers 1 where that
one answers 0, and 0 elsewhere. -/
theorem streqLoop_eq_strcmpLoop (rounds : Nat) (i : UInt64) :
    (streqLoop a b rounds i).result memory =
        ((strcmpLoop rounds (a + i) (b + i)).result memory).map
          (fun value => if value = 0 then 1 else 0) ∧
      ((streqLoop a b rounds i).Issues good memory ↔
        (strcmpLoop rounds (a + i) (b + i)).Issues good memory) := by
  induction rounds generalizing i with
  | zero => exact ⟨rfl, Iff.rfl⟩
  | succ rounds inductionHypothesis =>
      obtain ⟨answer, reads⟩ := inductionHypothesis (i + 1)
      rw [← UInt64.add_assoc, ← UInt64.add_assoc] at answer reads
      rw [streqLoop_issues, strcmpLoop_issues, streqLoop_result, strcmpLoop_result, reads]
      refine ⟨?_, Iff.rfl⟩
      by_cases goesOn : GoesOn memory (a + i) (b + i)
      · rw [if_pos goesOn, if_pos goesOn, answer]
      · rw [if_neg goesOn, if_neg goesOn, Option.map_some]
        simp only [charDifference_eq_zero_iff]

end

/-! ### Walks over a stored string -/

/-- The read is at one of the positions up to `last`. -/
def CharLoad.UpTo (a b : UInt64) (last : Nat) : CharLoad → Prop
  | .ofA address => ∃ place ≤ last, address = cell a place
  | .ofB address => ∃ place ≤ last, address = cell b place

theorem cell_next (start : UInt64) (place : Nat) :
    cell start place + 1 = cell start (place + 1) := by
  rw [cell, cell, UInt64.ofNat_add, ← UInt64.add_assoc]
  rfl

section

variable {memory : Bytes} {a b : UInt64}

/-- Whatever the strings are, a round reads at its own position. -/
theorem CharLoad.upTo_here {position last : Nat} (reached : position ≤ last) :
    CharLoad.UpTo a b last (.ofA (cell a position)) ∧
      CharLoad.UpTo a b last (.ofB (cell b position)) :=
  ⟨⟨position, reached, rfl⟩, ⟨position, reached, rfl⟩⟩

/-- The walk is the comparison of what is at `a` with the string at `b`, and
reads up to the last position of it. -/
theorem strcmpLoop_stored {chars : List UInt8} {rounds position : Nat}
    (enough : chars.length < rounds)
    (stored : ∀ ahead ≤ chars.length,
      memory (cell b (position + ahead)) = chars.getD ahead 0) :
    (strcmpLoop rounds (cell a position) (cell b position)).result memory =
        some (strcmpFrom (fun place => memory (cell a place)) chars position).1 ∧
      (strcmpLoop rounds (cell a position) (cell b position)).Issues
        (CharLoad.UpTo a b (strcmpFrom (fun place => memory (cell a place)) chars position).2)
        memory := by
  induction chars generalizing position rounds with
  | nil =>
      obtain ⟨rounds, rfl⟩ := Nat.exists_eq_succ_of_ne_zero (Nat.ne_zero_of_lt enough)
      have ended : memory (cell b position) = 0 := stored 0 (Nat.le_refl 0)
      have stops : ¬ GoesOn memory (cell a position) (cell b position) :=
        fun goesOn => goesOn.1 (goesOn.2.trans ended)
      rw [strcmpLoop_result, strcmpLoop_issues, if_neg stops, ended]
      exact ⟨rfl, CharLoad.upTo_here (Nat.le_refl _), fun goesOn => absurd goesOn stops⟩
  | cons char rest inductionHypothesis =>
      obtain ⟨rounds, rfl⟩ := Nat.exists_eq_succ_of_ne_zero (Nat.ne_zero_of_lt enough)
      have isChar : memory (cell b position) = char := stored 0 (Nat.zero_le _)
      have goesOn_iff : GoesOn memory (cell a position) (cell b position) ↔
          memory (cell a position) ≠ 0 ∧ memory (cell a position) = char := by
        rw [GoesOn, isChar]
      rw [strcmpLoop_result, strcmpLoop_issues, cell_next, cell_next, strcmpFrom_cons]
      by_cases goesOn : GoesOn memory (cell a position) (cell b position)
      · have later : ∀ ahead ≤ rest.length,
            memory (cell b (position + 1 + ahead)) = rest.getD ahead 0 := by
          intro ahead inside
          have shifted := stored (ahead + 1) (Nat.succ_le_succ inside)
          rwa [show position + (ahead + 1) = position + 1 + ahead by omega] at shifted
        obtain ⟨answer, further⟩ :=
          inductionHypothesis (Nat.lt_of_succ_lt_succ enough) later
        have reached : position ≤ (strcmpFrom (fun place => memory (cell a place)) rest
            (position + 1)).2 := Nat.le_of_succ_le (le_strcmpFrom_last _ rest (position + 1))
        rw [if_pos goesOn, if_pos (goesOn_iff.mp goesOn)]
        exact ⟨answer, CharLoad.upTo_here reached, fun _ => further⟩
      · rw [if_neg goesOn, if_neg (goesOn_iff.not.mp goesOn), isChar]
        exact ⟨rfl, CharLoad.upTo_here (Nat.le_refl _), fun impossible => absurd impossible goesOn⟩

/-- A stored string ends before the addresses repeat. -/
theorem StoredAt.length_lt {string : CString} (stored : StoredAt string memory b) :
    string.length < 2 ^ 64 := by
  by_contra long
  obtain ⟨place, length⟩ := Nat.exists_eq_add_of_le (Nat.not_lt.mp long)
  have inside : place ≤ string.length := by omega
  have same : cell b string.length = cell b place := by
    have wraps : UInt64.ofNat (2 ^ 64 + place) = UInt64.ofNat place := by
      apply UInt64.toNat.inj
      rw [UInt64.toNat_ofNat', UInt64.toNat_ofNat', Nat.add_mod_left]
    rw [cell, cell, length, wraps]
  have ended : string.byteAt place = 0 :=
    calc string.byteAt place = memory (cell b place) := (stored place inside).symm
      _ = memory (cell b string.length) := by rw [same]
      _ = string.byteAt string.length := stored string.length (Nat.le_refl _)
      _ = 0 := string.byteAt_length
  have last := (string.byteAt_eq_zero_iff inside).mp ended
  omega

/-- The filesystems' comparison with a stored string is the walk to it. -/
theorem StoredAt.strcmp {right : CString} (stored : StoredAt right memory b) (a : UInt64) :
    (strcmpLoop walkRounds a b).result memory =
        some (strcmpFrom (fun place => memory (cell a place)) right.chars 0).1 ∧
      (strcmpLoop walkRounds a b).Issues
        (CharLoad.UpTo a b (strcmpFrom (fun place => memory (cell a place)) right.chars 0).2)
        memory := by
  have first : ∀ start : UInt64, cell start 0 = start := fun start => UInt64.add_zero start
  have fromStart : ∀ ahead ≤ right.chars.length,
      memory (cell b (0 + ahead)) = right.chars.getD ahead 0 := by
    intro ahead inside
    rw [Nat.zero_add]
    exact stored ahead inside
  have walk : (strcmpLoop walkRounds (cell a 0) (cell b 0)).result memory = _ ∧ _ :=
    strcmpLoop_stored stored.length_lt fromStart
  rwa [first, first] at walk

/-! ### The comparisons of the filesystem models -/

theorem m13Strcmp_result {right : CString} (stored : StoredAt right memory b) (a : UInt64) :
    (m13Strcmp a b).result memory =
      some (Vfs.m13Strcmp (fun place => memory (cell a place)) right) :=
  (stored.strcmp a).1

theorem m15Strcmp_result {right : CString} (stored : StoredAt right memory b) (a : UInt64) :
    (m15Strcmp a b).result memory =
      some (Mcsfs.m15Strcmp (fun place => memory (cell a place)) right) :=
  (stored.strcmp a).1

/-- The index walk from the first index on is the pointer walk. -/
theorem m15Streq_eq_strcmpLoop (memory : Bytes) (a b : UInt64) (good : CharLoad → Prop) :
    (m15Streq a b).result memory = ((strcmpLoop walkRounds a b).result memory).map
        (fun value => if value = 0 then 1 else 0) ∧
      ((m15Streq a b).Issues good memory ↔ (strcmpLoop walkRounds a b).Issues good memory) := by
  have walk : (streqLoop a b walkRounds 0).result memory = _ ∧
      ((streqLoop a b walkRounds 0).Issues good memory ↔ _) :=
    streqLoop_eq_strcmpLoop walkRounds 0
  rwa [UInt64.add_zero, UInt64.add_zero] at walk

theorem m15Streq_result {right : CString} (stored : StoredAt right memory b) (a : UInt64) :
    (m15Streq a b).result memory =
      some (if Mcsfs1.m15Streq (fun place => memory (cell a place)) right then 1 else 0) := by
  rw [(m15Streq_eq_strcmpLoop memory a b fun _ => True).1, (stored.strcmp a).1, Option.map_some,
    Mcsfs1.m15Streq]
  simp only [Mcsfs1.m15StreqFrom_iff]

/-! ### Equality -/

section

variable {left right : CString} (leftStored : StoredAt left memory a)
  (rightStored : StoredAt right memory b)

include leftStored rightStored

/-- The last position that is looked at is one of both strings. -/
theorem strcmpLoop_within :
    (strcmpLoop walkRounds a b).Issues (CharLoad.Within a b left right) memory := by
  have inRight := strcmpFrom_last_le (fun place => memory (cell a place)) right.chars 0
  have ended : memory (cell a left.length) = 0 :=
    (leftStored left.length (Nat.le_refl _)).trans left.byteAt_length
  have inLeft : (strcmpFrom (fun place => memory (cell a place)) right.chars 0).2 ≤ left.length :=
    strcmpFrom_last_le_left ended right.chars (Nat.zero_le _)
  rw [Nat.zero_add] at inRight
  intro event issued
  have upTo := (rightStored.strcmp a).2 event issued
  cases event with
  | ofA address =>
      obtain ⟨place, reached, here⟩ := upTo
      exact ⟨place, Nat.le_trans reached inLeft, here⟩
  | ofB address =>
      obtain ⟨place, reached, here⟩ := upTo
      exact ⟨place, Nat.le_trans reached inRight, here⟩

theorem strcmpLoop_decides :
    Decides a b left right memory (· = 0) (strcmpLoop walkRounds a b) :=
  ⟨⟨_, (rightStored.strcmp a).1, leftStored.strcmp_eq_zero_iff right⟩,
    strcmpLoop_within leftStored rightStored⟩

theorem m15Streq_decides : Decides a b left right memory (· ≠ 0) (m15Streq a b) := by
  obtain ⟨⟨value, answer, zero_iff⟩, reads⟩ := strcmpLoop_decides leftStored rightStored
  obtain ⟨result, issues⟩ :=
    m15Streq_eq_strcmpLoop memory a b (CharLoad.Within a b left right)
  refine ⟨⟨if value = 0 then 1 else 0, by rw [result, answer, Option.map_some], ?_⟩,
    issues.mpr reads⟩
  rw [← zero_iff]
  simp

end

end

/-- `m13_strcmp`, `m15_strcmp` and `m15_streq` decide whether two strings in
memory are the same, wherever and whatever they are, and read neither behind
its terminator. -/
theorem comparisons_decide {memory : Bytes} {a b : UInt64} {left right : CString}
    (leftStored : StoredAt left memory a) (rightStored : StoredAt right memory b) :
    Decides a b left right memory (· = 0) (m13Strcmp a b) ∧
      Decides a b left right memory (· = 0) (m15Strcmp a b) ∧
      Decides a b left right memory (· ≠ 0) (m15Streq a b) :=
  ⟨strcmpLoop_decides leftStored rightStored, strcmpLoop_decides leftStored rightStored,
    m15Streq_decides leftStored rightStored⟩

/-- The byte `0xC3` twice at the end of memory, and once in front of it. -/
def prefixMemory : Bytes := fun address =>
  if address = 0xFFFFFFFFFFFFFFFD ∨ address = 0xFFFFFFFFFFFFFFFE ∨ address = 0x1000 then 0xC3
  else 0

theorem comparisons_decide_prefix :
    Decides 0x1000 0xFFFFFFFFFFFFFFFD ⟨[0xC3], by simp⟩ ⟨[0xC3, 0xC3], by simp⟩ prefixMemory
      (· ≠ 0) (m15Streq 0x1000 0xFFFFFFFFFFFFFFFD) := by
  have leftStored : StoredAt ⟨[0xC3], by simp⟩ prefixMemory 0x1000 := by decide +kernel
  have rightStored : StoredAt ⟨[0xC3, 0xC3], by simp⟩ prefixMemory 0xFFFFFFFFFFFFFFFD := by
    decide +kernel
  exact (comparisons_decide leftStored rightStored).2.2

end Mcsos.Strings
