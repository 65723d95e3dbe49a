import Mathlib.Data.List.Basic
import Mathlib.Tactic.Common
import Mcsos.Machine.Bytes

/-!
Owns programs whose memory accesses are recorded in program order. An `Event`
is one access together with its effect on the state; a `Prog` reads the state
and issues events. The state after a program is the state before it with the
recorded events applied, so every prefix of the record is a state in which a
machine may stop between two accesses.

It does not own any particular state or event alphabet.
-/

namespace Mcsos.Machine

/-- An alphabet of accesses. `apply` is the effect of one access; a load has
none. -/
class Event (ε : Type) (σ : outParam Type) where
  apply : ε → σ → σ

section

variable {ε σ α β : Type} [Event ε σ]

/-- The effect of a record of accesses, first access first. -/
def applyAll : List ε → σ → σ
  | [], state => state
  | event :: rest, state => applyAll rest (Event.apply event state)

@[simp] theorem applyAll_nil (state : σ) : applyAll ([] : List ε) state = state := rfl

@[simp] theorem applyAll_cons (event : ε) (rest : List ε) (state : σ) :
    applyAll (event :: rest) state = applyAll rest (Event.apply event state) := rfl

theorem applyAll_append (first second : List ε) (state : σ) :
    applyAll (first ++ second) state = applyAll second (applyAll first state) := by
  induction first generalizing state with
  | nil => rfl
  | cons event rest inductionHypothesis => exact inductionHypothesis _

/-- What no event of a record changes, the record does not change. -/
theorem applyAll_frame {γ : Type} (view : σ → γ) (record : List ε)
    (frame : ∀ event ∈ record, ∀ state, view (Event.apply event state) = view state)
    (state : σ) : view (applyAll record state) = view state := by
  induction record generalizing state with
  | nil => rfl
  | cons event rest inductionHypothesis =>
      rw [applyAll_cons, inductionHypothesis (fun other member => frame other (by simp [member])),
        frame event (by simp)]

end

/-- A program: its answer and the accesses it issues, as functions of the
state it starts in. -/
def Prog (ε σ α : Type) : Type := σ → α × List ε

namespace Prog

variable {ε σ α β : Type}

/-- The value the program returns. -/
def result (program : Prog ε σ α) (state : σ) : α := (program state).1

/-- The accesses the program issues, in program order. -/
def trace (program : Prog ε σ α) (state : σ) : List ε := (program state).2

/-- Read the state without an access of its own. -/
def get : Prog ε σ σ := fun state => (state, [])

/-- Issue one access. -/
def emit (event : ε) : Prog ε σ Unit := fun _ => ((), [event])

-- The equations below are not definitional simp lemmas (`(rfl)`, not `rfl`): a
-- rewrite inside the condition of an `if` has to carry its instance along.
@[simp] theorem result_get (state : σ) : (get : Prog ε σ σ).result state = state := (rfl)

@[simp] theorem trace_get (state : σ) : (get : Prog ε σ σ).trace state = [] := (rfl)

@[simp] theorem trace_emit (event : ε) (state : σ) :
    (emit event : Prog ε σ Unit).trace state = [event] := (rfl)

theorem result_ite (condition : Prop) {_ : Decidable condition} (yes no : Prog ε σ α) (state : σ) :
    (if condition then yes else no).result state =
      if condition then yes.result state else no.result state := by
  split <;> rfl

/-- Every access the program issues from `state` satisfies `good`. -/
def Issues (good : ε → Prop) (program : Prog ε σ α) (state : σ) : Prop :=
  ∀ event ∈ program.trace state, good event

@[simp] theorem issues_get (good : ε → Prop) (state : σ) :
    (get : Prog ε σ σ).Issues good state := by
  simp [Issues]

@[simp] theorem issues_emit (good : ε → Prop) (event : ε) (state : σ) :
    (emit event : Prog ε σ Unit).Issues good state ↔ good event := by
  simp [Issues]

theorem issues_ite (good : ε → Prop) (condition : Prop) {_ : Decidable condition}
    (yes no : Prog ε σ α) (state : σ) :
    (if condition then yes else no).Issues good state ↔
      (condition → yes.Issues good state) ∧ (¬ condition → no.Issues good state) := by
  by_cases holds : condition <;> simp [holds]

variable [Event ε σ]

/-- The state the program leaves. -/
def final (program : Prog ε σ α) (state : σ) : σ := applyAll (program.trace state) state

instance : Monad (Prog ε σ) where
  pure value := fun _ => (value, [])
  bind program next := fun state =>
    let value := program.result state
    let rest := next value (program.final state)
    (rest.1, program.trace state ++ rest.2)

/-! ### Sequential composition -/

@[simp] theorem result_pure (value : α) (state : σ) :
    (pure value : Prog ε σ α).result state = value := (rfl)

@[simp] theorem trace_pure (value : α) (state : σ) :
    (pure value : Prog ε σ α).trace state = [] := (rfl)

@[simp] theorem final_pure (value : α) (state : σ) :
    (pure value : Prog ε σ α).final state = state := (rfl)

@[simp] theorem final_get (state : σ) : (get : Prog ε σ σ).final state = state := (rfl)

@[simp] theorem final_emit (event : ε) (state : σ) :
    (emit event : Prog ε σ Unit).final state = Event.apply event state := (rfl)

@[simp] theorem result_bind (program : Prog ε σ α) (next : α → Prog ε σ β) (state : σ) :
    (program >>= next).result state =
      (next (program.result state)).result (program.final state) := (rfl)

@[simp] theorem trace_bind (program : Prog ε σ α) (next : α → Prog ε σ β) (state : σ) :
    (program >>= next).trace state =
      program.trace state ++ (next (program.result state)).trace (program.final state) := (rfl)

@[simp] theorem final_bind (program : Prog ε σ α) (next : α → Prog ε σ β) (state : σ) :
    (program >>= next).final state =
      (next (program.result state)).final (program.final state) := by
  unfold final
  rw [trace_bind, applyAll_append]
  rfl

theorem final_ite (condition : Prop) {_ : Decidable condition} (yes no : Prog ε σ α) (state : σ) :
    (if condition then yes else no).final state =
      if condition then yes.final state else no.final state := by
  split <;> rfl

/-! ### Every access of a program -/

@[simp] theorem issues_pure (good : ε → Prop) (value : α) (state : σ) :
    (pure value : Prog ε σ α).Issues good state := by
  simp [Issues]

@[simp] theorem issues_bind (good : ε → Prop) (program : Prog ε σ α)
    (next : α → Prog ε σ β) (state : σ) :
    (program >>= next).Issues good state ↔
      program.Issues good state ∧
        (next (program.result state)).Issues good (program.final state) := by
  simp only [Issues, trace_bind, List.mem_append, or_imp, forall_and]

/-- A view that no issued access changes is the same after the program. -/
theorem final_frame {γ : Type} (view : σ → γ) (program : Prog ε σ α) (state : σ)
    (frame : program.Issues (fun event => ∀ s, view (Event.apply event s) = view s) state) :
    view (program.final state) = view state :=
  applyAll_frame view _ frame state

/-! ### Every state between two accesses -/

/-- `inv` holds of every prefix of the accesses issued from `state` and the
state reached by it: the obligations of a machine that may stop anywhere. -/
def PrefixInv (program : Prog ε σ α) (state : σ) (inv : List ε → σ → Prop) : Prop :=
  ∀ done, done <+: program.trace state → inv done (applyAll done state)

theorem prefixInv_pure (value : α) (state : σ) (inv : List ε → σ → Prop) :
    (pure value : Prog ε σ α).PrefixInv state inv ↔ inv [] state := by
  simp [PrefixInv, List.prefix_nil]

theorem prefixInv_emit (event : ε) (state : σ) (inv : List ε → σ → Prop) :
    (emit event : Prog ε σ Unit).PrefixInv state inv ↔
      inv [] state ∧ inv [event] (Event.apply event state) := by
  constructor
  · intro holds
    exact ⟨holds [] (List.nil_prefix), holds [event] (List.prefix_refl _)⟩
  · rintro ⟨before, after⟩ done isPrefix
    rw [trace_emit, List.prefix_cons_iff] at isPrefix
    rcases isPrefix with rfl | ⟨rest, rfl, isPrefix⟩
    · exact before
    · rw [List.prefix_nil] at isPrefix
      subst isPrefix
      exact after

theorem prefixInv_get (state : σ) (inv : List ε → σ → Prop) :
    (get : Prog ε σ σ).PrefixInv state inv ↔ inv [] state := by
  simp [PrefixInv, List.prefix_nil]

/-- A machine running `program` and then `next` stops inside the first, or
inside the second after all of the first. -/
theorem prefixInv_bind (program : Prog ε σ α) (next : α → Prog ε σ β) (state : σ)
    (inv : List ε → σ → Prop) :
    (program >>= next).PrefixInv state inv ↔
      program.PrefixInv state inv ∧
        (next (program.result state)).PrefixInv (program.final state)
          (fun done => inv (program.trace state ++ done)) := by
  unfold PrefixInv
  rw [trace_bind]
  constructor
  · intro holds
    constructor
    · intro done isPrefix
      exact holds done (isPrefix.trans (List.prefix_append _ _))
    · intro done isPrefix
      have whole := holds (program.trace state ++ done)
        ((List.prefix_append_right_inj _).mpr isPrefix)
      rwa [applyAll_append] at whole
  · rintro ⟨inFirst, inSecond⟩ done isPrefix
    rcases List.prefix_or_prefix_of_prefix isPrefix (List.prefix_append _ _) with
      inside | ⟨rest, rfl⟩
    · exact inFirst done inside
    · rw [applyAll_append]
      exact inSecond rest ((List.prefix_append_right_inj _).mp isPrefix)

theorem PrefixInv.mono {program : Prog ε σ α} {state : σ} {inv weaker : List ε → σ → Prop}
    (holds : program.PrefixInv state inv)
    (weaken : ∀ done s, inv done s → weaker done s) : program.PrefixInv state weaker :=
  fun done isPrefix => weaken done _ (holds done isPrefix)

theorem Issues.prefixInv {good : ε → Prop} {program : Prog ε σ α} {state : σ}
    (issues : program.Issues good state) :
    program.PrefixInv state (fun done _ => ∀ event ∈ done, good event) :=
  fun _ isPrefix event member => issues event (isPrefix.mem member)

/-! ### Counted loops -/

/-- `for (i = start; i < start + count; ++i) body i`. -/
def forLoop (start : Nat) : Nat → (Nat → Prog ε σ Unit) → Prog ε σ Unit
  | 0, _ => pure ()
  | count + 1, body => do
      body start
      forLoop (start + 1) count body

/-- A counted loop whose body may leave it: `some` value is the answer at
once, `none` goes on to the next index. -/
def scanLoop (start : Nat) : Nat → (Nat → Prog ε σ (Option α)) → Prog ε σ (Option α)
  | 0, _ => pure none
  | count + 1, body => do
      match ← body start with
      | some value => pure (some value)
      | none => scanLoop (start + 1) count body

/-- Loop rule: an indexed invariant kept by every iteration. -/
theorem forLoop_invariant (start count : Nat) (body : Nat → Prog ε σ Unit)
    (inv : Nat → σ → Prop) {state : σ} (entry : inv start state)
    (step : ∀ index s, start ≤ index → index < start + count → inv index s →
      inv (index + 1) ((body index).final s)) :
    inv (start + count) ((forLoop start count body).final state) := by
  induction count generalizing start state with
  | zero => exact entry
  | succ count inductionHypothesis =>
      rw [forLoop, final_bind]
      have shifted : start + (count + 1) = start + 1 + count := by omega
      rw [shifted]
      apply inductionHypothesis
      · exact step start state (by omega) (by omega) entry
      · intro index s lower upper holds
        exact step index s (by omega) (by omega) holds

/-- A loop whose states are known in advance. -/
theorem forLoop_final (start count : Nat) (body : Nat → Prog ε σ Unit) (states : Nat → σ)
    (step : ∀ index, start ≤ index → index < start + count →
      (body index).final (states index) = states (index + 1)) :
    (forLoop start count body).final (states start) = states (start + count) := by
  refine forLoop_invariant start count body (fun index s => s = states index) rfl ?_
  intro index s lower upper same
  rw [same]
  exact step index lower upper

/-- A copy loop: one store for each cell of a range. The machine is given as
`state` of the memory that the stores are to. -/
theorem forLoop_emit_writeRange {β : Type} (store : Nat → ε) (state : (Nat → β) → σ)
    (memory : Nat → β) (base size : Nat) (data : Nat → β)
    (step : ∀ position < size, ∀ memory, Event.apply (store position) (state memory) =
      state (Function.update memory (base + position) (data position))) :
    (forLoop 0 size fun position => emit (store position)).final (state memory) =
      state (writeRange memory base size data) := by
  have loop := forLoop_final 0 size (fun position => emit (store position))
    (fun position => state (writeRange memory base position data)) ?_
  · rw [writeRange_zero, Nat.zero_add] at loop
    exact loop
  · intro position _ below
    rw [final_emit, step position (by omega), writeRange_succ]

/-- A copy loop that loads each cell from a source its stores do not reach. -/
theorem forLoop_copy_writeRange {β : Type} (load : Nat → ε) (store : Nat → β → ε)
    (read : σ → Nat → β) (state : (Nat → β) → σ) (memory : Nat → β) (base size : Nat)
    (data : Nat → β)
    (loaded : ∀ position < size, ∀ memory,
      Event.apply (load position) (state memory) = state memory)
    (source : ∀ position < size, ∀ memory, read (state memory) position = data position)
    (step : ∀ position < size, ∀ memory,
      Event.apply (store position (data position)) (state memory) =
        state (Function.update memory (base + position) (data position))) :
    (forLoop 0 size fun position => do
        emit (load position)
        let current ← get
        emit (store position (read current position))).final (state memory) =
      state (writeRange memory base size data) := by
  have loop := forLoop_final 0 size
    (fun position => do
      emit (load position)
      let current ← get
      emit (store position (read current position)))
    (fun position => state (writeRange memory base position data)) ?_
  · rw [writeRange_zero, Nat.zero_add] at loop
    exact loop
  · intro position _ below
    have inside : position < size := by omega
    rw [final_bind, final_bind, final_emit, final_emit, loaded position inside, result_get,
      final_get, source position inside, step position inside, writeRange_succ]

/-- A loop that issues one access per index. -/
theorem forLoop_emit_trace (start count : Nat) (event : Nat → ε) (state : σ) :
    (forLoop start count (fun index => emit (event index))).trace state =
      (List.range' start count).map event := by
  induction count generalizing start state with
  | zero => rfl
  | succ count inductionHypothesis =>
      rw [forLoop, trace_bind, inductionHypothesis, trace_emit, List.range'_succ]
      rfl

theorem forLoop_issues (start count : Nat) (body : Nat → Prog ε σ Unit) {good : ε → Prop}
    (state : σ)
    (each : ∀ index s, start ≤ index → index < start + count → (body index).Issues good s) :
    (forLoop start count body).Issues good state := by
  induction count generalizing start state with
  | zero => exact issues_pure good () state
  | succ count inductionHypothesis =>
      rw [forLoop, issues_bind]
      refine ⟨each start state (by omega) (by omega), inductionHypothesis (start + 1) _ ?_⟩
      intro index s lower upper
      exact each index s (by omega) (by omega)

theorem forLoop_emit_issues (start count : Nat) (event : Nat → ε) {good : ε → Prop} (state : σ)
    (each : ∀ index, start ≤ index → index < start + count → good (event index)) :
    (forLoop start count (fun index => emit (event index))).Issues good state := by
  apply forLoop_issues
  intro index s lower upper
  exact (issues_emit good (event index) s).mpr (each index lower upper)

/-- A machine that stops inside such a loop has run a shorter one. -/
theorem forLoop_emit_prefixInv (start count : Nat) (event : Nat → ε) (state : σ)
    (inv : List ε → σ → Prop)
    (shorter : ∀ finished ≤ count,
      inv ((List.range' start finished).map event)
        ((forLoop start finished (fun index => emit (event index))).final state)) :
    (forLoop start count (fun index => emit (event index))).PrefixInv state inv := by
  intro done isPrefix
  rw [forLoop_emit_trace] at isPrefix
  have short : done.length ≤ count := by simpa using isPrefix.length_le
  have same : done = (List.range' start done.length).map event := by
    rw [← List.take_range'_of_length_ge short, List.map_take]
    exact List.prefix_iff_eq_take.mp isPrefix
  have here := shorter done.length short
  rw [final, forLoop_emit_trace, ← same] at here
  exact here

/-- Loop rule for loops that may be left early: `inv` is kept by every
iteration that goes on, and `exit` holds where the loop is left. -/
theorem scanLoop_invariant (start count : Nat) (body : Nat → Prog ε σ (Option α))
    (inv : Nat → σ → Prop) (exit : α → σ → Prop) {state : σ} (entry : inv start state)
    (step : ∀ index s, start ≤ index → index < start + count → inv index s →
      match (body index).result s with
      | none => inv (index + 1) ((body index).final s)
      | some value => exit value ((body index).final s)) :
    match (scanLoop start count body).result state with
    | none => inv (start + count) ((scanLoop start count body).final state)
    | some value => exit value ((scanLoop start count body).final state) := by
  induction count generalizing start state with
  | zero => exact entry
  | succ count inductionHypothesis =>
      have first := step start state (by omega) (by omega) entry
      rw [scanLoop, result_bind, final_bind]
      cases answer : (body start).result state with
      | some value =>
          rw [answer] at first
          exact first
      | none =>
          rw [answer] at first
          have shifted : start + (count + 1) = start + 1 + count := by omega
          rw [shifted]
          apply inductionHypothesis (start + 1) first
          intro index s lower upper holds
          exact step index s (by omega) (by omega) holds

/-- The accesses of a loop that may be left early. -/
theorem scanLoop_issues (start count : Nat) (body : Nat → Prog ε σ (Option α))
    (good : ε → Prop) (inv : Nat → σ → Prop) {state : σ} (entry : inv start state)
    (step : ∀ index s, start ≤ index → index < start + count → inv index s →
      (body index).Issues good s ∧
        ((body index).result s = none → inv (index + 1) ((body index).final s))) :
    (scanLoop start count body).Issues good state := by
  induction count generalizing start state with
  | zero => exact issues_pure good none state
  | succ count inductionHypothesis =>
      have first := step start state (by omega) (by omega) entry
      rw [scanLoop, issues_bind]
      refine ⟨first.1, ?_⟩
      cases answer : (body start).result state with
      | some value => exact issues_pure good _ _
      | none =>
          apply inductionHypothesis (start + 1) (first.2 answer)
          intro index s lower upper holds
          exact step index s (by omega) (by omega) holds

/-- An access of iteration `hit` is issued when no earlier iteration leaves
the loop. -/
theorem scanLoop_mem_trace (start count : Nat) (body : Nat → Prog ε σ (Option α)) {event : ε}
    {hit : Nat} (lower : start ≤ hit) (upper : hit < start + count) (inv : σ → Prop)
    (goesOn : ∀ index s, start ≤ index → index < hit → inv s →
      (body index).result s = none ∧ inv ((body index).final s))
    (issued : ∀ s, inv s → event ∈ (body hit).trace s) (state : σ) (entry : inv state) :
    event ∈ (scanLoop start count body).trace state := by
  induction count generalizing start state with
  | zero => omega
  | succ count inductionHypothesis =>
      rw [scanLoop, trace_bind, List.mem_append]
      by_cases here : start = hit
      · exact Or.inl (here ▸ issued state entry)
      · right
        obtain ⟨answer, kept⟩ := goesOn start state (by omega) (by omega) entry
        rw [answer]
        apply inductionHypothesis (start + 1) (by omega) (by omega) _ _ kept
        intro index s lower upper holds
        exact goesOn index s (by omega) upper holds

/-- The accesses of a loop that no iteration leaves, when each iteration's
depend on its index alone. -/
theorem scanLoop_trace (start count : Nat) (body : Nat → Prog ε σ (Option α))
    (events : Nat → List ε) (inv : σ → Prop) {state : σ} (entry : inv state)
    (step : ∀ index s, start ≤ index → index < start + count → inv s →
      (body index).result s = none ∧ (body index).trace s = events index ∧
        inv ((body index).final s)) :
    (scanLoop start count body).trace state = (List.range' start count).flatMap events := by
  induction count generalizing start state with
  | zero => rfl
  | succ count inductionHypothesis =>
      rcases step start state (by omega) (by omega) entry with ⟨answer, issued, kept⟩
      rw [scanLoop, trace_bind, answer, issued, List.range'_succ, List.flatMap_cons]
      congr 1
      apply inductionHypothesis (start + 1) kept
      intro index s lower upper holds
      exact step index s (by omega) (by omega) holds

/-- A search whose every probe answers `none` and keeps the state. -/
theorem scanLoop_miss (start count : Nat) (body : Nat → Prog ε σ (Option α)) (state : σ)
    (miss : ∀ index, start ≤ index → index < start + count →
      (body index).result state = none ∧ (body index).final state = state) :
    (scanLoop start count body).result state = none ∧
      (scanLoop start count body).final state = state := by
  induction count generalizing start with
  | zero => exact ⟨rfl, rfl⟩
  | succ count inductionHypothesis =>
      obtain ⟨answer, same⟩ := miss start (by omega) (by omega)
      rw [scanLoop, result_bind, final_bind, answer, same]
      apply inductionHypothesis
      intro index lower upper
      exact miss index (by omega) (by omega)

/-- A search that keeps the state until its first hit ends as the hit does. -/
theorem scanLoop_hit (start count : Nat) (body : Nat → Prog ε σ (Option α)) (state : σ)
    {hit : Nat} {value : α} (lower : start ≤ hit) (upper : hit < start + count)
    (miss : ∀ index, start ≤ index → index < hit →
      (body index).result state = none ∧ (body index).final state = state)
    (found : (body hit).result state = some value) :
    (scanLoop start count body).result state = some value ∧
      (scanLoop start count body).final state = (body hit).final state := by
  induction count generalizing start with
  | zero => omega
  | succ count inductionHypothesis =>
      rw [scanLoop, result_bind, final_bind]
      by_cases here : start = hit
      · subst here
        rw [found]
        exact ⟨rfl, rfl⟩
      · obtain ⟨answer, same⟩ := miss start (by omega) (by omega)
        rw [answer, same]
        apply inductionHypothesis (start + 1) (by omega) (by omega)
        intro index lower upper
        exact miss index (by omega) (by omega)

/-! ### Scans that the state does not steer -/

section

variable {start count : Nat} {body : Nat → Prog ε σ (Option α)} {answer : Nat → Option α}

/-- A scan whose answers depend on the index alone returns the first of them. -/
theorem scanLoop_result (answers : ∀ index s, (body index).result s = answer index) (state : σ) :
    (scanLoop start count body).result state = (List.range' start count).findSome? answer := by
  induction count generalizing start state with
  | zero => rfl
  | succ count inductionHypothesis =>
      rw [scanLoop, result_bind, answers, List.range'_succ, List.findSome?_cons]
      cases answer start with
      | some value => rfl
      | none => exact inductionHypothesis _

/-- Its effect is that of the iterations before the first answer, when the one
that gives it has none. -/
theorem scanLoop_final (answers : ∀ index s, (body index).result s = answer index)
    (effect : Nat → σ → σ) (goesOn : ∀ index s, answer index = none →
      (body index).final s = effect index s)
    (stops : ∀ index s, answer index ≠ none → (body index).final s = s) (state : σ) :
    (scanLoop start count body).final state =
      ((List.range' start count).takeWhile fun index => (answer index).isNone).foldl
        (fun s index => effect index s) state := by
  induction count generalizing start state with
  | zero => rfl
  | succ count inductionHypothesis =>
      rw [scanLoop, final_bind, answers, List.range'_succ, List.takeWhile_cons]
      cases found : answer start with
      | some value =>
          have here : answer start ≠ none := by simp [found]
          exact stops start state here
      | none =>
          rw [goesOn start state found]
          exact inductionHypothesis _

end

end Prog

end Mcsos.Machine
