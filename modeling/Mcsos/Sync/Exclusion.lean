import Mcsos.Sync.Model

/-!
Contract: the spinlock and the mutex exclude each other's holders, for any
number of threads and in every interleaving of their atomic steps.
-/

namespace Mcsos.Sync

open Mcsos.Machine

/-- Threads that use one initialised spinlock, before their first call. -/
def spinThreads (θ : Type) (lock : McsSpinlock) : Threads θ SpinPoint McsSpinlock :=
  ⟨fun _ => .outside, mcsSpinInit lock⟩

/-- Threads that use one initialised mutex, before their first call. -/
def mutexThreads (θ : Type) (mutex : McsMutex) : Threads θ MutexPoint McsMutex :=
  ⟨fun _ => .outside, mcsMutexInit mutex⟩

/-! ### Every step is one of a lock -/

/-- A test-and-set that finds the lock free takes it, and any other changes
nothing. -/
theorem tryLock_lockStep {point refused : SpinPoint} (lock : McsSpinlock)
    (before : point ≠ .holding) (after : refused ≠ .holding) :
    LockStep (· = SpinPoint.holding) (·.locked ≠ 0) point lock
      (if (mcsSpinTryLock lock).1 then .holding else refused) (mcsSpinTryLock lock).2 := by
  by_cases free : lock.locked = 0
  · have answer : (mcsSpinTryLock lock).1 = true := by simp [mcsSpinTryLock, syncLockTestAndSet, free]
    rw [if_pos answer]
    exact .acquire (by simpa using free) rfl (by simp [mcsSpinTryLock, syncLockTestAndSet])
  · have answer : (mcsSpinTryLock lock).1 = false := by
      simp [mcsSpinTryLock, syncLockTestAndSet, free]
    rw [if_neg (by simp [answer])]
    exact .keep (by simp [before, after]) (by simp [mcsSpinTryLock, syncLockTestAndSet, free])

theorem SpinStep.lockStep {point next : SpinPoint} {lock after : McsSpinlock}
    (step : SpinStep point lock next after) :
    LockStep (· = SpinPoint.holding) (·.locked ≠ 0) point lock next after := by
  cases step with
  | callLock => exact .keep (by simp) Iff.rfl
  | callTryLock => exact .keep (by simp) Iff.rfl
  | lockRound => exact tryLock_lockStep lock (by simp) (by simp)
  | pause => exact .keep (by simp) Iff.rfl
  | tryLock => exact tryLock_lockStep lock (by simp) (by simp)
  | unlock => exact .release rfl (by simp) (by simp [mcsSpinUnlock, syncLockRelease])

theorem MutexStep.lockStep {point next : MutexPoint} {mutex after : McsMutex}
    (step : MutexStep point mutex next after) :
    LockStep (· = MutexPoint.holding) (·.locked ≠ 0) point mutex next after := by
  cases step with
  | callLock => exact .keep (by simp) Iff.rfl
  | lockRound =>
      by_cases free : mutex.locked = 0
      · have answer : (mcsMutexLockRound mutex).1 = false := by
          simp [mcsMutexLockRound, syncLockTestAndSet, free]
        rw [if_neg (by simp [answer])]
        exact .acquire (by simpa using free) rfl (by simp [mcsMutexLockRound, syncLockTestAndSet])
      · have answer : (mcsMutexLockRound mutex).1 = true := by
          simp [mcsMutexLockRound, syncLockTestAndSet, free]
        rw [if_pos answer]
        exact .keep Iff.rfl (by simp [mcsMutexLockRound, syncLockTestAndSet, free])
  | unlock => exact .release rfl (by simp) (by simp [mcsMutexUnlock, syncLockRelease])

/-! ### Every interleaving -/

/-- At every moment at most one thread is between its acquire and its release,
and `locked` is nonzero exactly when one is. -/
theorem locks_exclude {θ : Type} [DecidableEq θ] (lock : McsSpinlock) (mutex : McsMutex) :
    (∀ threads, Reachable SpinStep (spinThreads θ lock) threads →
      (∀ first second, threads.point first = .holding → threads.point second = .holding →
        first = second) ∧
      (threads.shared.locked ≠ 0 ↔ ∃ thread, threads.point thread = .holding)) ∧
    (∀ threads, Reachable MutexStep (mutexThreads θ mutex) threads →
      (∀ first second, threads.point first = .holding → threads.point second = .holding →
        first = second) ∧
      (threads.shared.locked ≠ 0 ↔ ∃ thread, threads.point thread = .holding)) := by
  constructor
  · intro threads reached
    have exclusive : Exclusive (· = SpinPoint.holding) (fun lock : McsSpinlock => lock.locked ≠ 0)
        threads :=
      reached.exclusive (fun _ _ _ _ step => step.lockStep) (by simp [spinThreads])
        (by simp [spinThreads, mcsSpinInit])
    exact ⟨exclusive.atMostOne, exclusive.locked_iff⟩
  · intro threads reached
    have exclusive : Exclusive (· = MutexPoint.holding) (fun mutex : McsMutex => mutex.locked ≠ 0)
        threads :=
      reached.exclusive (fun _ _ _ _ step => step.lockStep) (by simp [mutexThreads])
        (by simp [mutexThreads, mcsMutexInit])
    exact ⟨exclusive.atMostOne, exclusive.locked_iff⟩

/-- Thread `true` has taken the spinlock, and thread `false` waits for it. -/
def contended : Threads Bool SpinPoint McsSpinlock :=
  ⟨Function.update (Function.update (Function.update (fun _ => .outside) true .locking)
    true .holding) false .locking, ⟨1⟩⟩

theorem contended_reachable : Reachable SpinStep (spinThreads Bool ⟨0⟩) contended := by
  have called : Reachable SpinStep (spinThreads Bool ⟨0⟩)
      ⟨Function.update (fun _ => .outside) true .locking, ⟨0⟩⟩ :=
    Reachable.start.step true (.callLock ⟨0⟩)
  have taken := called.step true (.lockRound ⟨0⟩)
  exact taken.step false (.callLock ⟨1⟩)

theorem locks_exclude_contended :
    (∀ first second, contended.point first = .holding → contended.point second = .holding →
        first = second) ∧
      (contended.shared.locked ≠ 0 ↔ ∃ thread, contended.point thread = .holding) :=
  (locks_exclude ⟨0⟩ ⟨0⟩).1 contended contended_reachable

end Mcsos.Sync
