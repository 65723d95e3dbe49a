import Mcsos.Machine.Trace

/-!
Owns programs that work on a part of a larger state. A part is a view of the
state whose accesses are among those of the whole; a program on the part is a
program on the whole that leaves everything else alone.
-/

namespace Mcsos.Machine

/-- A part of a state with accesses of its own. -/
structure Part (ε σ ε' σ' : Type) [Event ε σ] [Event ε' σ'] where
  view : σ' → σ
  inject : ε → ε'
  lawful : ∀ (event : ε) (whole : σ'),
    view (Event.apply (inject event) whole) = Event.apply event (view whole)

variable {ε σ ε' σ' α : Type} [Event ε σ] [Event ε' σ']

namespace Part

/-- The program on the whole. -/
def lift (part : Part ε σ ε' σ') (program : Prog ε σ α) : Prog ε' σ' α := fun whole =>
  (program.result (part.view whole), (program.trace (part.view whole)).map part.inject)

variable (part : Part ε σ ε' σ') (program : Prog ε σ α) (whole : σ')

@[simp] theorem lift_result : (part.lift program).result whole = program.result (part.view whole) := rfl

@[simp] theorem lift_trace :
    (part.lift program).trace whole = (program.trace (part.view whole)).map part.inject := rfl

theorem applyAll_inject (record : List ε) :
    part.view (applyAll (record.map part.inject) whole) = applyAll record (part.view whole) := by
  induction record generalizing whole with
  | nil => rfl
  | cons event rest inductionHypothesis =>
      rw [List.map_cons, applyAll_cons, inductionHypothesis, part.lawful]
      rfl

@[simp] theorem lift_view :
    part.view ((part.lift program).final whole) = program.final (part.view whole) :=
  part.applyAll_inject whole _

/-- What the accesses of the part leave alone, its programs do. -/
theorem lift_frame {γ : Type} (other : σ' → γ)
    (frame : ∀ (event : ε) (state : σ'), other (Event.apply (part.inject event) state) = other state) :
    other ((part.lift program).final whole) = other whole := by
  apply Prog.final_frame other
  intro event issued state
  rw [lift_trace] at issued
  obtain ⟨own, -, rfl⟩ := List.mem_map.mp issued
  exact frame own state

end Part

end Mcsos.Machine
