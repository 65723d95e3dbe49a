import Mathlib.Tactic.IntervalCases
import Mcsos.Machine.Schedule
import Mcsos.Sync.Exclusion

/-!
Contract: the locks do not get stuck, on any schedule that forgets no thread
inside their calls or between an acquire and its release.
-/

namespace Mcsos.Sync

open Mcsos.Machine

/-- The thread is in the loop of `mcs_spin_lock`. -/
def SpinPoint.Waiting (point : SpinPoint) : Prop := point = .locking ∨ point = .pausing

/-- The steps in front of the next test-and-set. -/
def SpinPoint.distance : SpinPoint → Nat
  | .pausing => 1
  | .outside | .locking | .trying | .holding => 0

theorem mcsSpinTryLock_free {lock : McsSpinlock} (free : lock.locked = 0) :
    (mcsSpinTryLock lock).1 = true := by
  simp [mcsSpinTryLock, syncLockTestAndSet, free]

theorem mcsMutexLockRound_free {mutex : McsMutex} (free : mutex.locked = 0) :
    (mcsMutexLockRound mutex).1 = false := by
  simp [mcsMutexLockRound, syncLockTestAndSet, free]

theorem spin_waits :
    Waits (· = SpinPoint.holding) SpinPoint.Waiting (fun lock : McsSpinlock => lock.locked ≠ 0)
      SpinPoint.distance
      SpinStep where
  lockStep := SpinStep.lockStep
  release := by
    intro point shared next after step held
    subst held
    cases step
    simp
  stay := by
    intro point shared next after step waiting
    cases step with
    | callLock => simp [SpinPoint.Waiting] at waiting
    | callTryLock => simp [SpinPoint.Waiting] at waiting
    | lockRound =>
        split
        · exact Or.inl rfl
        · exact Or.inr (Or.inr rfl)
    | pause => exact Or.inr (Or.inl rfl)
    | tryLock => simp [SpinPoint.Waiting] at waiting
    | unlock => simp [SpinPoint.Waiting] at waiting
  closer := by
    intro point shared next after step waiting free
    cases step with
    | callLock => simp [SpinPoint.Waiting] at waiting
    | callTryLock => simp [SpinPoint.Waiting] at waiting
    | lockRound => exact Or.inl (if_pos (mcsSpinTryLock_free (not_not.mp free)))
    | pause => exact Or.inr (by decide)
    | tryLock => simp [SpinPoint.Waiting] at waiting
    | unlock => simp [SpinPoint.Waiting] at waiting
  outside := by
    intro point waiting held
    rw [held] at waiting
    simp [SpinPoint.Waiting] at waiting

theorem mutex_waits :
    Waits (· = MutexPoint.holding) (· = MutexPoint.locking)
      (fun mutex : McsMutex => mutex.locked ≠ 0) (fun _ => 0) MutexStep where
  lockStep := MutexStep.lockStep
  release := by
    intro point shared next after step held
    subst held
    cases step
    simp
  stay := by
    intro point shared next after step waiting
    subst waiting
    cases step
    split
    · exact Or.inr rfl
    · exact Or.inl rfl
  closer := by
    intro point shared next after step waiting free
    subst waiting
    cases step
    exact Or.inl (if_neg (by simp [mcsMutexLockRound_free (not_not.mp free)]))
  outside := by
    intro point waiting held
    rw [waiting] at held
    cases held

/-- While a thread waits for the spinlock or the mutex, some thread gets it some
time later, on every schedule that forgets no thread that waits or holds. -/
theorem locks_acquired {θ : Type} [DecidableEq θ] (lock : McsSpinlock) (mutex : McsMutex) :
    (∀ schedule : Schedule θ SpinPoint McsSpinlock SpinStep,
      schedule.threads 0 = spinThreads θ lock →
      schedule.Fair (fun point => point = .holding ∨ point.Waiting) →
      ∀ time thread, ((schedule.threads time).point thread).Waiting →
        ∃ later, time ≤ later ∧ ∃ other, (schedule.threads later).point other ≠ .holding ∧
          (schedule.threads (later + 1)).point other = .holding) ∧
    ∀ schedule : Schedule θ MutexPoint McsMutex MutexStep,
      schedule.threads 0 = mutexThreads θ mutex →
      schedule.Fair (fun point => point = .holding ∨ point = .locking) →
      ∀ time thread, (schedule.threads time).point thread = .locking →
        ∃ later, time ≤ later ∧ ∃ other, (schedule.threads later).point other ≠ .holding ∧
          (schedule.threads (later + 1)).point other = .holding := by
  constructor
  · intro schedule entry fair time thread waiting
    have exclusive : ∀ time, Exclusive (· = SpinPoint.holding)
        (fun lock : McsSpinlock => lock.locked ≠ 0) (schedule.threads time) := by
      intro time
      have reached := schedule.reachable time
      rw [entry] at reached
      exact reached.exclusive (fun _ _ _ _ step => step.lockStep) (by simp [spinThreads])
        (by simp [spinThreads, mcsSpinInit])
    exact schedule.acquired spin_waits exclusive fair waiting
  · intro schedule entry fair time thread waiting
    have exclusive : ∀ time, Exclusive (· = MutexPoint.holding)
        (fun mutex : McsMutex => mutex.locked ≠ 0) (schedule.threads time) := by
      intro time
      have reached := schedule.reachable time
      rw [entry] at reached
      exact reached.exclusive (fun _ _ _ _ step => step.lockStep) (by simp [mutexThreads])
        (by simp [mutexThreads, mcsMutexInit])
    exact schedule.acquired mutex_waits exclusive fair waiting

/-- Thread `false` finds the spinlock taken, pauses, and gets it once thread
`true` has given it back; then all begins again. -/
def duelAt : Nat → Threads Bool SpinPoint McsSpinlock
  | 0 => ⟨Bool.rec .outside .outside, ⟨0⟩⟩
  | 1 => ⟨Bool.rec .outside .locking, ⟨0⟩⟩
  | 2 => ⟨Bool.rec .outside .holding, ⟨1⟩⟩
  | 3 => ⟨Bool.rec .locking .holding, ⟨1⟩⟩
  | 4 => ⟨Bool.rec .pausing .holding, ⟨1⟩⟩
  | 5 => ⟨Bool.rec .pausing .outside, ⟨0⟩⟩
  | 6 => ⟨Bool.rec .locking .outside, ⟨0⟩⟩
  | _ => ⟨Bool.rec .holding .outside, ⟨1⟩⟩

theorem update_true {π : Type} (left right value : π) :
    Function.update (Bool.rec left right : Bool → π) true value = Bool.rec left value := by
  funext thread
  cases thread <;> rfl

theorem update_false {π : Type} (left right value : π) :
    Function.update (Bool.rec left right : Bool → π) false value = Bool.rec value right := by
  funext thread
  cases thread <;> rfl

theorem duelAt_acts (round : Nat) (inside : round < 8) :
    ∃ next after, SpinStep ((duelAt round).point (decide (round = 0 ∨ round = 1 ∨ round = 4)))
        (duelAt round).shared next after ∧
      duelAt ((round + 1) % 8) = ⟨Function.update (duelAt round).point
        (decide (round = 0 ∨ round = 1 ∨ round = 4)) next, after⟩ := by
  interval_cases round
  · exact ⟨_, _, .callLock ⟨0⟩, congrArg (Threads.mk · _) (update_true _ _ _).symm⟩
  · exact ⟨_, _, .lockRound ⟨0⟩, congrArg (Threads.mk · _) (update_true _ _ _).symm⟩
  · exact ⟨_, _, .callLock ⟨1⟩, congrArg (Threads.mk · _) (update_false _ _ _).symm⟩
  · exact ⟨_, _, .lockRound ⟨1⟩, congrArg (Threads.mk · _) (update_false _ _ _).symm⟩
  · exact ⟨_, _, .unlock ⟨1⟩, congrArg (Threads.mk · _) (update_true _ _ _).symm⟩
  · exact ⟨_, _, .pause ⟨0⟩, congrArg (Threads.mk · _) (update_false _ _ _).symm⟩
  · exact ⟨_, _, .lockRound ⟨0⟩, congrArg (Threads.mk · _) (update_false _ _ _).symm⟩
  · exact ⟨_, _, .unlock ⟨1⟩, congrArg (Threads.mk · _) (update_false _ _ _).symm⟩

def duel : Schedule Bool SpinPoint McsSpinlock SpinStep where
  threads time := duelAt (time % 8)
  actor time := decide (time % 8 = 0 ∨ time % 8 = 1 ∨ time % 8 = 4)
  acts time := by
    have next : (time + 1) % 8 = (time % 8 + 1) % 8 := by omega
    rw [next]
    exact duelAt_acts (time % 8) (Nat.mod_lt _ (by decide))

theorem duel_fair (busy : SpinPoint → Prop) : duel.Fair busy := by
  intro thread time _
  cases thread with
  | false => exact ⟨8 * time + 2, by omega, by simp [duel]⟩
  | true => exact ⟨8 * time, by omega, by simp [duel]⟩

theorem locks_acquired_duel :
    ∃ later, 4 ≤ later ∧ ∃ other, (duel.threads later).point other ≠ .holding ∧
      (duel.threads (later + 1)).point other = .holding :=
  (locks_acquired ⟨0⟩ ⟨0⟩).1 duel (congrArg (Threads.mk · _) (by funext thread; cases thread <;> rfl))
    (duel_fair _) 4 false (Or.inr rfl)

end Mcsos.Sync
