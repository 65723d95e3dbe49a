import Mathlib.Logic.Function.Basic
import Mathlib.Tactic.Common

/-!
Owns threads that share a state. Each thread is at a point of its code; a step
takes one thread over one atomic step, and any thread may be next. The number
of threads is not bounded, the type of them is arbitrary.

On top of it, what makes a shared flag a lock: `LockStep` lists the effects an
atomic step may have on it, and `Reachable.exclusive` is what follows from
them for every interleaving.
-/

namespace Mcsos.Machine

variable {θ π σ : Type}

/-- Where each thread is, and the state they share. -/
structure Threads (θ π σ : Type) where
  point : θ → π
  shared : σ

/-- An atomic step of a thread: the point and the shared state before it, and
both after it. -/
abbrev AtomicStep (π σ : Type) := π → σ → π → σ → Prop

/-- The configurations that some interleaving leads to. -/
inductive Reachable [DecidableEq θ] (step : AtomicStep π σ) (start : Threads θ π σ) :
    Threads θ π σ → Prop where
  | start : Reachable step start start
  | step {threads : Threads θ π σ} (reached : Reachable step start threads) (thread : θ)
      {point : π} {shared : σ} (taken : step (threads.point thread) threads.shared point shared) :
      Reachable step start ⟨Function.update threads.point thread point, shared⟩

/-! ### Locks -/

/-- What an atomic step may do about a lock, in terms of the points at which a
thread holds it and of the states in which it is locked. -/
inductive LockStep (holds : π → Prop) (locked : σ → Prop) : AtomicStep π σ where
  | keep {point next : π} {shared after : σ} (same : holds next ↔ holds point)
      (flag : locked after ↔ locked shared) : LockStep holds locked point shared next after
  | acquire {point next : π} {shared after : σ} (free : ¬ locked shared) (taken : holds next)
      (flag : locked after) : LockStep holds locked point shared next after
  | release {point next : π} {shared after : σ} (held : holds point) (given : ¬ holds next)
      (flag : ¬ locked after) : LockStep holds locked point shared next after

/-- At most one thread holds the lock, and it is locked exactly when one does. -/
structure Exclusive (holds : π → Prop) (locked : σ → Prop) (threads : Threads θ π σ) : Prop where
  atMostOne : ∀ first second, holds (threads.point first) → holds (threads.point second) →
    first = second
  locked_iff : locked threads.shared ↔ ∃ thread, holds (threads.point thread)

section

variable [DecidableEq θ] {holds : π → Prop} {locked : σ → Prop} {threads : Threads θ π σ}

/-- A step that changes neither who holds the lock nor the flag. -/
theorem Exclusive.keep (exclusive : Exclusive holds locked threads) {thread : θ} {next : π}
    {after : σ} (same : holds next ↔ holds (threads.point thread))
    (flag : locked after ↔ locked threads.shared) :
    Exclusive holds locked ⟨Function.update threads.point thread next, after⟩ := by
  have holders : ∀ other, holds (Function.update threads.point thread next other) ↔
      holds (threads.point other) := by
    intro other
    by_cases here : other = thread
    · rw [here, Function.update_self]
      exact same
    · rw [Function.update_of_ne here]
  constructor
  · intro first second firstHolds secondHolds
    exact exclusive.atMostOne first second ((holders first).mp firstHolds)
      ((holders second).mp secondHolds)
  · show locked after ↔ _
    rw [flag, exclusive.locked_iff]
    exact exists_congr fun other => (holders other).symm

/-- The lock was free, so the thread that takes it is the only one to hold it. -/
theorem Exclusive.acquire (exclusive : Exclusive holds locked threads) {thread : θ} {next : π}
    {after : σ} (free : ¬ locked threads.shared) (taken : holds next) (flag : locked after) :
    Exclusive holds locked ⟨Function.update threads.point thread next, after⟩ := by
  have only : ∀ other, holds (Function.update threads.point thread next other) →
      other = thread := by
    intro other holder
    by_contra elsewhere
    rw [Function.update_of_ne elsewhere] at holder
    exact free (exclusive.locked_iff.mpr ⟨other, holder⟩)
  constructor
  · intro first second firstHolds secondHolds
    rw [only first firstHolds, only second secondHolds]
  · refine ⟨fun _ => ⟨thread, ?_⟩, fun _ => flag⟩
    show holds (Function.update threads.point thread next thread)
    rwa [Function.update_self]

/-- The thread that gives the lock back was the only one to hold it. -/
theorem Exclusive.release (exclusive : Exclusive holds locked threads) {thread : θ} {next : π}
    {after : σ} (held : holds (threads.point thread)) (given : ¬ holds next)
    (flag : ¬ locked after) :
    Exclusive holds locked ⟨Function.update threads.point thread next, after⟩ := by
  have none : ∀ other, ¬ holds (Function.update threads.point thread next other) := by
    intro other holder
    by_cases here : other = thread
    · rw [here, Function.update_self] at holder
      exact given holder
    · rw [Function.update_of_ne here] at holder
      exact here (exclusive.atMostOne other thread holder held)
  constructor
  · intro first _ firstHolds _
    exact absurd firstHolds (none first)
  · refine ⟨fun isLocked => absurd isLocked flag, ?_⟩
    rintro ⟨other, holder⟩
    exact absurd holder (none other)

theorem Exclusive.step (exclusive : Exclusive holds locked threads) {thread : θ} {next : π}
    {after : σ}
    (lockStep : LockStep holds locked (threads.point thread) threads.shared next after) :
    Exclusive holds locked ⟨Function.update threads.point thread next, after⟩ := by
  cases lockStep with
  | keep same flag => exact exclusive.keep same flag
  | acquire free taken flag => exact exclusive.acquire free taken flag
  | release held given flag => exact exclusive.release held given flag

/-- Mutual exclusion in every interleaving of code whose steps are lock steps,
started with the lock free and nobody holding it. -/
theorem Reachable.exclusive {step : AtomicStep π σ} {start : Threads θ π σ}
    (lockSteps : ∀ point shared next after, step point shared next after →
      LockStep holds locked point shared next after)
    (nobody : ∀ thread, ¬ holds (start.point thread)) (free : ¬ locked start.shared)
    (reached : Reachable step start threads) : Exclusive holds locked threads := by
  induction reached with
  | start =>
      constructor
      · intro first _ firstHolds _
        exact absurd firstHolds (nobody first)
      · refine ⟨fun isLocked => absurd isLocked free, ?_⟩
        rintro ⟨thread, holder⟩
        exact absurd holder (nobody thread)
  | step _ thread taken inductionHypothesis =>
      exact inductionHypothesis.step (lockSteps _ _ _ _ taken)

end

end Mcsos.Machine
