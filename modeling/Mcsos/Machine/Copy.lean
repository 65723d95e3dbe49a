import Mathlib.Data.List.Pairwise
import Mathlib.Tactic.Common

/-!
Owns copies that are made in place, one cell after another. Cells are named by
indices; the order of the copies is a list of them. Where no copy writes to a
cell that a later one reads or writes, every cell receives what its source held
before the first copy.
-/

namespace Mcsos.Machine

variable {ι α β : Type} [DecidableEq α]

/-- The memory after the cells were copied in this order. -/
def copyEach (target source : ι → α) : List ι → (α → β) → α → β
  | [], memory => memory
  | index :: rest, memory =>
      copyEach target source rest (Function.update memory (target index) (memory (source index)))

/-- No copy writes to a cell that a later one reads or writes. -/
def SafeOrder (target source : ι → α) (order : List ι) : Prop :=
  order.Pairwise fun index later => target index ≠ target later ∧ target index ≠ source later

section

variable {target source : ι → α} {order : List ι} {memory : α → β}

theorem copyEach_map {κ : Type} (rename : κ → ι) (order : List κ) (memory : α → β) :
    copyEach target source (order.map rename) memory =
      copyEach (target ∘ rename) (source ∘ rename) order memory := by
  induction order generalizing memory with
  | nil => rfl
  | cons index rest inductionHypothesis => exact inductionHypothesis _

theorem copyEach_of_ne {address : α} (apart : ∀ index ∈ order, address ≠ target index) :
    copyEach target source order memory address = memory address := by
  induction order generalizing memory with
  | nil => rfl
  | cons first rest inductionHypothesis =>
      have later : ∀ index ∈ rest, address ≠ target index :=
        fun index inRest => apart index (List.mem_cons_of_mem _ inRest)
      rw [copyEach, inductionHypothesis later]
      exact Function.update_of_ne (apart first List.mem_cons_self) _ _

theorem SafeOrder.copyEach_target (safe : SafeOrder target source order) {index : ι}
    (member : index ∈ order) :
    copyEach target source order memory (target index) = memory (source index) := by
  induction order generalizing memory with
  | nil => exact absurd member List.not_mem_nil
  | cons first rest inductionHypothesis =>
      obtain ⟨ahead, later⟩ := List.pairwise_cons.mp safe
      rw [copyEach]
      rcases List.mem_cons.mp member with rfl | inRest
      · rw [copyEach_of_ne fun other isLater => (ahead other isLater).1, Function.update_self]
      · rw [inductionHypothesis later inRest,
          Function.update_of_ne (ahead index inRest).2.symm]

end

end Mcsos.Machine
