import Mathlib.Tactic.Common

/-!
Owns runs of calls. A session is a machine together with whatever is recorded
about it, `next` is the effect of one call on it. Properties of a run are
properties of its calls, each in the session it is made in; the rules below
reduce them to one call.
-/

namespace Mcsos.Machine

variable {σ κ : Type} {next : σ → κ → σ}

/-- `property` holds of every call of the run, in the session it is made in. -/
def EveryCall (next : σ → κ → σ) (property : σ → κ → Prop) : List κ → σ → Prop
  | [], _ => True
  | call :: rest, session =>
      property session call ∧ EveryCall next property rest (next session call)

instance (property : σ → κ → Prop) [∀ session call, Decidable (property session call)] :
    (calls : List κ) → (session : σ) → Decidable (EveryCall next property calls session)
  | [], _ => inferInstanceAs (Decidable True)
  | call :: rest, session =>
      have := instDecidableEveryCall property rest (next session call)
      inferInstanceAs (Decidable (_ ∧ _))

/-- Two properties agree on a run when they agree on each call that keeps to
`rules`, and a call that has the property keeps the invariant. -/
theorem everyCall_iff {rules property other : σ → κ → Prop} (inv : σ → Prop)
    (step : ∀ session call, inv session → rules session call →
      (property session call ↔ other session call) ∧
        (property session call → inv (next session call)))
    {calls : List κ} {session : σ} (entry : inv session)
    (kept : EveryCall next rules calls session) :
    EveryCall next property calls session ↔ EveryCall next other calls session := by
  induction calls generalizing session with
  | nil => exact Iff.rfl
  | cons call rest inductionHypothesis =>
      rcases kept with ⟨here, later⟩
      rcases step session call entry here with ⟨agree, keeps⟩
      constructor
      · intro holds
        exact ⟨agree.mp holds.1, (inductionHypothesis (keeps holds.1) later).mp holds.2⟩
      · intro holds
        have first := agree.mpr holds.1
        exact ⟨first, (inductionHypothesis (keeps first) later).mpr holds.2⟩

/-- A property that an invariant gives, in a run whose calls keep to `rules`. -/
theorem everyCall_of_invariant {rules property : σ → κ → Prop} (inv : σ → Prop)
    (step : ∀ session call, inv session → rules session call →
      property session call ∧ inv (next session call))
    {calls : List κ} {session : σ} (entry : inv session)
    (kept : EveryCall next rules calls session) : EveryCall next property calls session := by
  induction calls generalizing session with
  | nil => trivial
  | cons call rest inductionHypothesis =>
      rcases kept with ⟨here, later⟩
      rcases step session call entry here with ⟨first, keeps⟩
      exact ⟨first, inductionHypothesis keeps later⟩

/-- An invariant of the calls that keep to `rules` holds where the run ends. -/
theorem EveryCall.final {rules : σ → κ → Prop} (inv : σ → Prop)
    (step : ∀ session call, inv session → rules session call → inv (next session call))
    {calls : List κ} {session : σ} (kept : EveryCall next rules calls session)
    (entry : inv session) : inv (calls.foldl next session) := by
  induction calls generalizing session with
  | nil => exact entry
  | cons call rest inductionHypothesis =>
      exact inductionHypothesis kept.2 (step session call entry kept.1)

/-- A run in two parts: the second begins where the first ends. -/
theorem everyCall_append {rules : σ → κ → Prop} {earlier later : List κ} {session : σ} :
    EveryCall next rules (earlier ++ later) session ↔
      EveryCall next rules earlier session ∧
        EveryCall next rules later (earlier.foldl next session) := by
  induction earlier generalizing session with
  | nil =>
      constructor
      · intro kept
        exact ⟨trivial, kept⟩
      · intro kept
        exact kept.2
  | cons call rest inductionHypothesis =>
      show _ ∧ EveryCall next rules (rest ++ later) _ ↔ _
      rw [inductionHypothesis]
      exact and_assoc.symm

/-- What holds of every call whatever the session. -/
theorem everyCall_of_forall {property : κ → Prop} {calls : List κ}
    (each : ∀ call ∈ calls, property call) (session : σ) :
    EveryCall next (fun _ call => property call) calls session := by
  induction calls generalizing session with
  | nil => trivial
  | cons call rest inductionHypothesis =>
      refine ⟨each call (by simp), inductionHypothesis ?_ _⟩
      intro later member
      exact each later (by simp [member])

/-- One call over and over, that has the property in every session. -/
theorem everyCall_replicate {property : σ → κ → Prop} {call : κ}
    (each : ∀ session, property session call) (count : Nat) (session : σ) :
    EveryCall next property (List.replicate count call) session := by
  induction count generalizing session with
  | zero => trivial
  | succ count inductionHypothesis => exact ⟨each session, inductionHypothesis (next session call)⟩

theorem everyCall_true (calls : List κ) (session : σ) :
    EveryCall next (fun _ _ => True) calls session :=
  everyCall_of_forall (fun _ _ => trivial) session

end Mcsos.Machine
