import Mathlib.Algebra.BigOperators.Group.Finset.Piecewise
import Mathlib.Algebra.Order.Ring.Nat
import Mcsos.Machine.Section
import Mcsos.Sync.Exclusion

/-!
Contract: what threads do to shared data between an acquire and a release of
one of the locks happens as if the threads took turns.

The counter is the one of `m12_sync_selftest` of `kernel/core/kmain.c`, which
is incremented under the spinlock and under the mutex. The increment is a load,
an addition and a store, and other threads may run between them.
-/

namespace Mcsos.Sync

open Mcsos.Machine

/-- Threads with sections under one initialised spinlock, before their first
call. -/
def spinWorkers (θ : Type) {δ ρ : Type} (lock : McsSpinlock) (data : δ) :
    Threads θ (Worker SpinPoint δ ρ) (McsSpinlock × δ) :=
  ⟨fun _ => ⟨.outside, none, []⟩, mcsSpinInit lock, data⟩

/-- Threads with sections under one initialised mutex, before their first
call. -/
def mutexWorkers (θ : Type) {δ ρ : Type} (mutex : McsMutex) (data : δ) :
    Threads θ (Worker MutexPoint δ ρ) (McsMutex × δ) :=
  ⟨fun _ => ⟨.outside, none, []⟩, mcsMutexInit mutex, data⟩

/-- `++m12_boot_counter`. -/
def incrementBootCounter : Section UInt64 UInt64 where
  register := 0
  acts :=
    [fun (counter, _) => (counter, counter),
      fun (counter, loaded) => (counter, loaded + 1),
      fun (_, loaded) => (loaded, loaded)]

/-! ### Sections -/

section

variable {θ δ ρ : Type} [DecidableEq θ] {allowed : Section δ ρ → Prop} {data : δ}

theorem spin_serial {lock : McsSpinlock}
    {threads : Threads θ (Worker SpinPoint δ ρ) (McsSpinlock × δ)}
    (reached : Reachable (GuardedStep (· = SpinPoint.holding) SpinStep allowed)
      (spinWorkers θ lock data) threads) :
    ∃ history, Serial (· = SpinPoint.holding) allowed data history threads := by
  have lockSteps : ∀ point (lock : McsSpinlock) next after, SpinStep point lock next after →
      LockStep (· = SpinPoint.holding) (·.locked ≠ 0) point lock next after :=
    fun _ _ _ _ step => step.lockStep
  exact reached.serial lockSteps (fun _ => by simp [spinWorkers])
    (by simp [spinWorkers, mcsSpinInit]) (fun _ => rfl) (fun _ => rfl)

theorem mutex_serial {mutex : McsMutex}
    {threads : Threads θ (Worker MutexPoint δ ρ) (McsMutex × δ)}
    (reached : Reachable (GuardedStep (· = MutexPoint.holding) MutexStep allowed)
      (mutexWorkers θ mutex data) threads) :
    ∃ history, Serial (· = MutexPoint.holding) allowed data history threads := by
  have lockSteps : ∀ point (mutex : McsMutex) next after, MutexStep point mutex next after →
      LockStep (· = MutexPoint.holding) (·.locked ≠ 0) point mutex next after :=
    fun _ _ _ _ step => step.lockStep
  exact reached.serial lockSteps (fun _ => by simp [mutexWorkers])
    (by simp [mutexWorkers, mcsMutexInit]) (fun _ => rfl) (fun _ => rfl)

end

/-- Sections under the spinlock or the mutex, whatever they do and however the
threads interleave, leave what they leave when they run one after another, each
thread's in its own order. -/
theorem locked_sections_serial {θ δ ρ : Type} [DecidableEq θ] (lock : McsSpinlock)
    (mutex : McsMutex) (data : δ) :
    (∀ threads : Threads θ (Worker SpinPoint δ ρ) (McsSpinlock × δ),
      Reachable (GuardedStep (· = SpinPoint.holding) SpinStep fun _ => True)
        (spinWorkers θ lock data) threads →
      ∃ history, Serial (· = SpinPoint.holding) (fun _ => True) data history threads) ∧
    ∀ threads : Threads θ (Worker MutexPoint δ ρ) (McsMutex × δ),
      Reachable (GuardedStep (· = MutexPoint.holding) MutexStep fun _ => True)
        (mutexWorkers θ mutex data) threads →
      ∃ history, Serial (· = MutexPoint.holding) (fun _ => True) data history threads :=
  ⟨fun _ reached => spin_serial reached, fun _ reached => mutex_serial reached⟩

/-- Thread `true` has loaded the counter, and thread `false` waits. -/
def midIncrement : Threads Bool (Worker SpinPoint UInt64 UInt64) (McsSpinlock × UInt64) :=
  ⟨Function.update (Function.update (Function.update (Function.update
      (fun _ => ⟨.outside, none, []⟩) true ⟨.locking, none, []⟩)
      true ⟨.holding, some ⟨incrementBootCounter, 0, 0⟩, []⟩)
      false ⟨.locking, none, []⟩)
      true ⟨.holding, some ⟨incrementBootCounter, 1, 7⟩, []⟩, ⟨1⟩, 7⟩

theorem midIncrement_reachable {allowed : Section UInt64 UInt64 → Prop}
    (fits : allowed incrementBootCounter) :
    Reachable (GuardedStep (· = SpinPoint.holding) SpinStep allowed)
      (spinWorkers Bool ⟨0⟩ 7) midIncrement := by
  have called : Reachable (GuardedStep (· = SpinPoint.holding) SpinStep allowed)
      (spinWorkers Bool ⟨0⟩ 7)
      ⟨Function.update (fun _ => ⟨.outside, none, []⟩) true ⟨.locking, none, []⟩, ⟨0⟩, 7⟩ :=
    Reachable.start.step true (.around (.callLock ⟨0⟩) (by simp [spinWorkers]))
  have taken := called.step true (.enter (.lockRound ⟨0⟩) (by simp) rfl fits)
  have waiting := taken.step false (.around (.callLock ⟨1⟩) (by simp))
  exact waiting.step true
    (@GuardedStep.act _ _ _ _ _ _ _ _ _ _ ⟨incrementBootCounter, 0, 0⟩ rfl _ rfl)

theorem locked_sections_serial_midIncrement :
    ∃ history, Serial (· = SpinPoint.holding) (fun _ => True) 7 history midIncrement :=
  (locked_sections_serial ⟨0⟩ ⟨0⟩ 7).1 midIncrement (midIncrement_reachable trivial)

/-! ### The counter -/

theorem incrementBootCounter_run (counter : UInt64) :
    incrementBootCounter.run counter = counter + 1 := rfl

/-- A history of increments. -/
theorem serialRun_increments {θ : Type} {history : List (θ × Section UInt64 UInt64)}
    (increments : ∀ entry ∈ history, entry.2 = incrementBootCounter) (counter : UInt64) :
    serialRun history counter = counter + UInt64.ofNat history.length := by
  induction history using List.reverseRecOn with
  | nil => exact (UInt64.add_zero counter).symm
  | append_singleton earlier entry inductionHypothesis =>
      have isIncrement := increments entry (by simp)
      have before := inductionHypothesis fun other member => increments other (by simp [member])
      rw [serialRun_append, isIncrement, incrementBootCounter_run, before, List.length_append,
        UInt64.ofNat_add, ← UInt64.add_assoc]
      rfl

/-- Every entry of a history is of one of the threads. -/
theorem length_eq_sum_own {θ α : Type} [Fintype θ] [DecidableEq θ] (history : List (θ × α)) :
    history.length = ∑ thread, (history.filter (·.1 = thread)).length := by
  induction history with
  | nil => simp
  | cons entry rest inductionHypothesis =>
      have counted : ∀ thread, ((entry :: rest).filter (·.1 = thread)).length =
          (if entry.1 = thread then 1 else 0) + (rest.filter (·.1 = thread)).length := by
        intro thread
        by_cases here : entry.1 = thread
        · simp [here, Nat.add_comm]
        · simp [here]
      simp only [counted, Finset.sum_add_distrib, Finset.sum_ite_eq, Finset.mem_univ, if_true]
      rw [List.length_cons, inductionHypothesis, Nat.add_comm]

theorem serial_counter {θ π σ : Type} [Fintype θ] [DecidableEq θ] {holds : π → Prop}
    {counter : UInt64} {history : List (θ × Section UInt64 UInt64)}
    {threads : Threads θ (Worker π UInt64 UInt64) (σ × UInt64)}
    (serial : Serial holds (· = incrementBootCounter) counter history threads)
    (nobody : ∀ thread, ¬ holds (threads.point thread).point) :
    threads.shared.2 =
      counter + UInt64.ofNat (∑ thread, (threads.point thread).finished.length) := by
  have outside : ∀ thread, (threads.point thread).inside = none := by
    intro thread
    by_contra inside
    exact nobody thread ((serial.inside_iff thread).mp inside)
  have own : ∀ thread, (history.filter (·.1 = thread)).length =
      (threads.point thread).finished.length := by
    intro thread
    rw [← serial.own thread, List.length_map]
  rw [serial.idle outside, serialRun_increments serial.fits, length_eq_sum_own history]
  simp only [own]

/-- No increment under a lock is lost or counted twice: whenever nobody holds
the lock, the counter has gone up by the number of increments that all threads
together have finished. -/
theorem boot_counter_exact {θ : Type} [Fintype θ] [DecidableEq θ] (lock : McsSpinlock)
    (mutex : McsMutex) (counter : UInt64) :
    (∀ threads, Reachable (GuardedStep (· = SpinPoint.holding) SpinStep (· = incrementBootCounter))
        (spinWorkers θ lock counter) threads →
      (∀ thread, (threads.point thread).point ≠ .holding) →
      threads.shared.2 =
        counter + UInt64.ofNat (∑ thread, (threads.point thread).finished.length)) ∧
    ∀ threads, Reachable (GuardedStep (· = MutexPoint.holding) MutexStep (· = incrementBootCounter))
        (mutexWorkers θ mutex counter) threads →
      (∀ thread, (threads.point thread).point ≠ .holding) →
      threads.shared.2 =
        counter + UInt64.ofNat (∑ thread, (threads.point thread).finished.length) := by
  constructor
  · intro threads reached nobody
    obtain ⟨history, serial⟩ := spin_serial reached
    exact serial_counter serial nobody
  · intro threads reached nobody
    obtain ⟨history, serial⟩ := mutex_serial reached
    exact serial_counter serial nobody

/-- Thread `true` has incremented the counter, and thread `false` has called
and not got the lock before it was given back. -/
def oneIncrement : Threads Bool (Worker SpinPoint UInt64 UInt64) (McsSpinlock × UInt64) :=
  ⟨Function.update midIncrement.point true ⟨.outside, none, [incrementBootCounter]⟩, ⟨0⟩, 8⟩

theorem oneIncrement_reachable :
    Reachable (GuardedStep (· = SpinPoint.holding) SpinStep (· = incrementBootCounter))
      (spinWorkers Bool ⟨0⟩ 7) oneIncrement := by
  have loaded : Reachable (GuardedStep (· = SpinPoint.holding) SpinStep (· = incrementBootCounter))
      (spinWorkers Bool ⟨0⟩ 7) midIncrement := midIncrement_reachable rfl
  have added := loaded.step true
    (@GuardedStep.act _ _ _ _ _ _ _ _ _ _ ⟨incrementBootCounter, 1, 7⟩ rfl _ rfl)
  have stored := added.step true
    (@GuardedStep.act _ _ _ _ _ _ _ _ _ _ ⟨incrementBootCounter, 2, 8⟩ rfl _ rfl)
  have left := stored.step true
    (@GuardedStep.leave _ _ _ _ _ _ _ _ _ _ _ _ ⟨incrementBootCounter, 3, 8⟩ (.unlock ⟨1⟩) rfl
      (by simp) rfl rfl)
  rw [Function.update_idem, Function.update_idem] at left
  exact left

theorem boot_counter_exact_oneIncrement :
    (∀ thread, (oneIncrement.point thread).point ≠ .holding) ∧
      oneIncrement.shared.2 =
        7 + UInt64.ofNat (∑ thread, (oneIncrement.point thread).finished.length) := by
  have nobody : ∀ thread, (oneIncrement.point thread).point ≠ .holding := by decide
  exact ⟨nobody, (boot_counter_exact ⟨0⟩ ⟨0⟩ 7).1 oneIncrement oneIncrement_reachable nobody⟩

end Mcsos.Sync
