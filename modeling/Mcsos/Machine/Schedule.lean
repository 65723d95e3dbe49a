import Mathlib.Algebra.Order.Ring.Nat
import Mcsos.Machine.Interleaving

/-!
Owns infinite runs of threads: what a schedule that forgets no thread makes of
a lock. `Schedule.acquired` is that a lock does not get stuck: as long as
somebody waits, somebody gets it.

It does not say who. A thread that waits may see others get the lock for ever.
-/

namespace Mcsos.Machine

variable {θ π σ : Type} [DecidableEq θ]

/-- An infinite run, with the thread that acts at each time. -/
structure Schedule (θ π σ : Type) [DecidableEq θ] (step : AtomicStep π σ) where
  threads : Nat → Threads θ π σ
  actor : Nat → θ
  acts : ∀ time, ∃ next after,
    step ((threads time).point (actor time)) (threads time).shared next after ∧
      threads (time + 1) = ⟨Function.update (threads time).point (actor time) next, after⟩

/-- A thread that is busy acts again. -/
def Schedule.Fair {step : AtomicStep π σ} (schedule : Schedule θ π σ step) (busy : π → Prop) :
    Prop :=
  ∀ thread time, busy ((schedule.threads time).point thread) →
    ∃ later, time ≤ later ∧ schedule.actor later = thread

/-- What the waiting loop and the release of a lock do: a holder can only give
the lock back, and a thread that waits for a free lock gets closer to it with
each step. -/
structure Waits (holds waits : π → Prop) (locked : σ → Prop) (distance : π → Nat)
    (step : AtomicStep π σ) : Prop where
  lockStep : ∀ {point shared next after}, step point shared next after →
    LockStep holds locked point shared next after
  release : ∀ {point shared next after}, step point shared next after → holds point → ¬ holds next
  stay : ∀ {point shared next after}, step point shared next after → waits point →
    holds next ∨ waits next
  closer : ∀ {point shared next after}, step point shared next after → waits point →
    ¬ locked shared → holds next ∨ distance next < distance point
  outside : ∀ {point}, waits point → ¬ holds point

/-! ### One step of a schedule -/

namespace Schedule

variable {step : AtomicStep π σ} (schedule : Schedule θ π σ step)

/-- A thread makes a step, or stays where it is. -/
theorem point_cases (time : Nat) (thread : θ) :
    (schedule.threads (time + 1)).point thread = (schedule.threads time).point thread ∨
      step ((schedule.threads time).point thread) (schedule.threads time).shared
        ((schedule.threads (time + 1)).point thread) (schedule.threads (time + 1)).shared := by
  obtain ⟨next, after, taken, result⟩ := schedule.acts time
  rw [result]
  by_cases here : thread = schedule.actor time
  · subst here
    right
    simpa using taken
  · left
    exact Function.update_of_ne here _ _

/-- The thread whose turn it is makes a step. -/
theorem point_actor (time : Nat) :
    step ((schedule.threads time).point (schedule.actor time)) (schedule.threads time).shared
      ((schedule.threads (time + 1)).point (schedule.actor time))
      (schedule.threads (time + 1)).shared := by
  obtain ⟨next, after, taken, result⟩ := schedule.acts time
  rw [result]
  simpa using taken

theorem reachable (time : Nat) :
    Reachable step (schedule.threads 0) (schedule.threads time) := by
  induction time with
  | zero => exact .start
  | succ time inductionHypothesis =>
      obtain ⟨next, after, taken, result⟩ := schedule.acts time
      rw [result]
      exact inductionHypothesis.step _ taken

/-! ### Locks -/

variable {holds waits : π → Prop} {locked : σ → Prop} {distance : π → Nat}
  (lock : Waits holds waits locked distance step)

/-- From `time` on nobody gets the lock. -/
def NobodyAcquires (holds : π → Prop) (time : Nat) : Prop :=
  ∀ later, time ≤ later → ∀ thread, holds ((schedule.threads (later + 1)).point thread) →
    holds ((schedule.threads later).point thread)

section

variable {schedule} {time : Nat} (nobody : schedule.NobodyAcquires holds time)

include lock nobody

theorem waits_later {thread : θ} (waiting : waits ((schedule.threads time).point thread))
    {later : Nat} (after : time ≤ later) : waits ((schedule.threads later).point thread) := by
  induction later, after using Nat.le_induction with
  | base => exact waiting
  | succ later after inductionHypothesis =>
      rcases schedule.point_cases later thread with same | taken
      · rwa [same]
      · rcases lock.stay taken inductionHypothesis with gets | waits
        · exact absurd (nobody later after thread gets) (lock.outside inductionHypothesis)
        · exact waits

theorem free_later (free : ¬ locked (schedule.threads time).shared) {later : Nat}
    (after : time ≤ later) : ¬ locked (schedule.threads later).shared := by
  induction later, after using Nat.le_induction with
  | base => exact free
  | succ later after inductionHypothesis =>
      have taken := schedule.point_actor later
      cases lock.lockStep taken with
      | keep same flag => exact fun isLocked => inductionHypothesis (flag.mp isLocked)
      | acquire wasFree gets flag =>
          exact absurd (nobody later after _ gets) fun held => lock.release taken held gets
      | release held given flag => exact flag

/-- A step of a thread that waits for a free lock. -/
theorem closer_next (free : ¬ locked (schedule.threads time).shared) {thread : θ}
    (waiting : waits ((schedule.threads time).point thread)) {later : Nat} (after : time ≤ later)
    (taken : step ((schedule.threads later).point thread) (schedule.threads later).shared
      ((schedule.threads (later + 1)).point thread) (schedule.threads (later + 1)).shared) :
    distance ((schedule.threads (later + 1)).point thread) <
      distance ((schedule.threads later).point thread) := by
  have stillWaits := waits_later lock nobody waiting after
  rcases lock.closer taken stillWaits (free_later lock nobody free after) with gets | less
  · exact absurd (nobody later after thread gets) (lock.outside stillWaits)
  · exact less

theorem distance_later (free : ¬ locked (schedule.threads time).shared) {thread : θ}
    (waiting : waits ((schedule.threads time).point thread)) {now later : Nat} (after : time ≤ now)
    (inOrder : now ≤ later) :
    distance ((schedule.threads later).point thread) ≤
      distance ((schedule.threads now).point thread) := by
  induction later, inOrder using Nat.le_induction with
  | base => exact le_rfl
  | succ later inOrder inductionHypothesis =>
      rcases schedule.point_cases later thread with same | taken
      · rwa [same]
      · have less := closer_next lock nobody free waiting (le_trans after inOrder) taken
        exact le_trans (Nat.le_of_lt less) inductionHypothesis

/-- A thread that waits for a free lock is not kept waiting for ever. -/
theorem locked_of_waits (fair : schedule.Fair fun point => holds point ∨ waits point)
    {thread : θ} (waiting : waits ((schedule.threads time).point thread)) :
    locked (schedule.threads time).shared := by
  by_contra free
  have descends : ∀ steps now, time ≤ now →
      distance ((schedule.threads now).point thread) = steps → False := by
    intro steps
    induction steps using Nat.strong_induction_on with
    | _ steps inductionHypothesis =>
        intro now after here
        obtain ⟨later, inOrder, turn⟩ :=
          fair thread now (Or.inr (waits_later lock nobody waiting after))
        have taken := schedule.point_actor later
        rw [turn] at taken
        have less := closer_next lock nobody free waiting (le_trans after inOrder) taken
        have before := distance_later lock nobody free waiting after inOrder
        exact inductionHypothesis _ (by omega) (later + 1) (by omega) rfl
  exact descends _ time le_rfl rfl

omit nobody in
/-- Nor is the lock held for ever by somebody who can only give it back. -/
theorem holds_later {thread : θ} (held : holds ((schedule.threads time).point thread))
    (always : ∀ later, time ≤ later → locked (schedule.threads later).shared) {later : Nat}
    (after : time ≤ later) : holds ((schedule.threads later).point thread) := by
  induction later, after using Nat.le_induction with
  | base => exact held
  | succ later after inductionHypothesis =>
      rcases schedule.point_cases later thread with same | taken
      · rwa [same]
      · have given := lock.release taken inductionHypothesis
        cases lock.lockStep taken with
        | keep same flag => exact absurd (same.mpr inductionHypothesis) given
        | acquire free gets flag => exact absurd gets given
        | release _ _ flag => exact absurd (always (later + 1) (by omega)) flag

end

include lock in
/-- Where the schedule forgets no thread that holds the lock or waits for it:
while a thread waits, some thread gets the lock some time later. -/
theorem acquired (exclusive : ∀ time, Exclusive holds locked (schedule.threads time))
    (fair : schedule.Fair fun point => holds point ∨ waits point) {time : Nat} {thread : θ}
    (waiting : waits ((schedule.threads time).point thread)) :
    ∃ later, time ≤ later ∧ ∃ other, ¬ holds ((schedule.threads later).point other) ∧
      holds ((schedule.threads (later + 1)).point other) := by
  by_contra never
  have nobody : schedule.NobodyAcquires holds time := by
    intro later after other gets
    by_contra lacks
    exact never ⟨later, after, other, lacks, gets⟩
  have always : ∀ later, time ≤ later → locked (schedule.threads later).shared := by
    intro later after
    have nobodyLater : schedule.NobodyAcquires holds later :=
      fun further afterLater => nobody further (le_trans after afterLater)
    exact locked_of_waits lock nobodyLater fair (waits_later lock nobody waiting after)
  obtain ⟨holder, held⟩ := (exclusive time).locked_iff.mp (always time le_rfl)
  obtain ⟨later, after, turn⟩ := fair holder time (Or.inl held)
  have taken := schedule.point_actor later
  rw [turn] at taken
  exact lock.release taken (holds_later lock held always after)
    (holds_later lock held always (Nat.le_succ_of_le after))

end Schedule

end Mcsos.Machine
