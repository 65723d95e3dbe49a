import Mathlib.Data.List.Nodup
import Mcsos.Thread.Model

/-!
Contract: how often the entry functions of yielding threads are called, and how
deep their activations nest.

The threads here never return, they only yield. Each yield then calls an entry
function on top of the activation that yields, in round-robin order from thread
1 on, so the threads are resumed until every one of them has been started and
restarted from then on.
-/

namespace Mcsos.Thread

open Mcsos.Machine

/-- The function never returns, and yields again and again. -/
def Loops (code : Code) : Prop :=
  (∀ done, code done ≠ .ret) ∧ ∀ done, ∃ later, done ≤ later ∧ code later = .yield

/-- How many activations of entry functions are on the stack. -/
def Machine.activations (machine : Machine) : Nat :=
  machine.stack.countP fun activation => activation.callee ≠ .kmain

/-- How often the entry of a thread was called. -/
def Machine.invocations (machine : Machine) (thread : Nat) : Nat := machine.calls.count thread

/-- No entry function was called twice, and no more of them are active than
there are threads. -/
def Machine.Resumed (machine : Machine) : Prop :=
  (∀ thread < machine.world.threadCount, machine.invocations thread ≤ 1) ∧
    machine.activations ≤ machine.world.threadCount

instance (machine : Machine) : Decidable machine.Resumed := inferInstanceAs (Decidable (_ ∧ _))

/-! ### Creation -/

/-- What `thread_create` leaves behind. -/
structure Created (w : ThreadWorld) : Prop where
  bounded : w.threadCount ≤ maxThreads
  current : w.currentThread = 0
  entry : ∀ thread < w.threadCount, (w.threads thread).entry ≠ 0

theorem threadSystemInit_created (w : ThreadWorld) : Created (threadSystemInit w) :=
  ⟨Nat.zero_le _, rfl, fun thread below => absurd below (Nat.not_lt_zero thread)⟩

/-- What `thread_create` does when it returns: it refuses, and the threads stay
what they are, or there is one more. -/
theorem threadCreate_cases {w after : ThreadWorld} {entry : UInt64} {answer : Option Nat}
    (returned : threadCreate entry w = some (answer, after)) :
    after.currentThread = w.currentThread ∧
      (∀ thread < w.threadCount, after.threads thread = w.threads thread) ∧
      ((answer = none ∧ after.threadCount = w.threadCount) ∨
        (answer = some w.threadCount ∧ entry ≠ 0 ∧ w.threadCount < maxThreads ∧
          after.threadCount = w.threadCount + 1 ∧
          (after.threads w.threadCount).entry = entry)) := by
  have older : ∀ (thread : KThread), ∀ other < w.threadCount,
      Function.update w.threads w.threadCount thread other = w.threads other :=
    fun thread other below => Function.update_of_ne (Nat.ne_of_lt below) thread w.threads
  unfold threadCreate at returned
  split at returned
  · cases returned
    exact ⟨rfl, fun _ _ => rfl, Or.inl ⟨rfl, rfl⟩⟩
  next notNull =>
    split at returned
    · cases returned
      exact ⟨rfl, fun _ _ => rfl, Or.inl ⟨rfl, rfl⟩⟩
    next space =>
      split at returned
      · cases returned
      next stack allocated =>
        split at returned
        · cases returned
          -- the slot behind the last thread is written all the same
          exact ⟨rfl, older _, Or.inl ⟨rfl, rfl⟩⟩
        · cases returned
          refine ⟨rfl, older _, Or.inr ⟨rfl, notNull, Nat.not_le.mp space, rfl, ?_⟩⟩
          simp [ThreadWorld.setThread]

theorem Created.create {w after : ThreadWorld} {entry : UInt64} {answer : Option Nat}
    (created : Created w) (returned : threadCreate entry w = some (answer, after)) :
    Created after := by
  obtain ⟨current, older, ⟨-, count⟩ | ⟨-, notNull, space, count, newest⟩⟩ :=
    threadCreate_cases returned
  · refine ⟨count.symm ▸ created.bounded, current.trans created.current, ?_⟩
    intro thread below
    rw [count] at below
    rw [older thread below]
    exact created.entry thread below
  · refine ⟨count.symm ▸ space, current.trans created.current, ?_⟩
    intro thread below
    rcases Nat.lt_succ_iff_lt_or_eq.mp (count ▸ below) with inside | rfl
    · rw [older thread inside]
      exact created.entry thread inside
    · rw [newest]
      exact notNull

theorem Created.createAll {entries : List UInt64} {w after : ThreadWorld} (created : Created w)
    (returned : createAll entries w = some after) : Created after := by
  induction entries generalizing w with
  | nil =>
      cases returned
      exact created
  | cons entry rest inductionHypothesis =>
      rw [Thread.createAll] at returned
      split at returned
      · cases returned
      next answer between step => exact inductionHypothesis (created.create step) returned

/-! ### The order of the calls -/

/-- The threads called by the first `yields` yields of `count` threads, the
latest first. -/
def calledThreads (count : Nat) : Nat → List Nat
  | 0 => []
  | yields + 1 => (yields + 1) % count :: calledThreads count yields

theorem mem_calledThreads {count yields thread : Nat} :
    thread ∈ calledThreads count yields ↔ ∃ turn, 1 ≤ turn ∧ turn ≤ yields ∧ thread = turn % count := by
  induction yields with
  | zero =>
      simp only [calledThreads, List.not_mem_nil, false_iff]
      intro called
      obtain ⟨turn, atLeast, atMost, -⟩ := called
      omega
  | succ yields inductionHypothesis =>
      rw [calledThreads, List.mem_cons, inductionHypothesis]
      constructor
      · intro called
        rcases called with newest | ⟨turn, atLeast, atMost, same⟩
        · exact ⟨yields + 1, by omega, Nat.le_refl _, newest⟩
        · exact ⟨turn, atLeast, by omega, same⟩
      · intro called
        obtain ⟨turn, atLeast, atMost, same⟩ := called
        by_cases newest : turn = yields + 1
        · exact Or.inl (newest ▸ same)
        · exact Or.inr ⟨turn, atLeast, by omega, same⟩

/-- No thread is called twice before all have been called. -/
theorem calledThreads_nodup {count yields : Nat} (first : yields ≤ count) :
    (calledThreads count yields).Nodup := by
  induction yields with
  | zero => exact List.nodup_nil
  | succ yields inductionHypothesis =>
      rw [calledThreads, List.nodup_cons]
      refine ⟨?_, inductionHypothesis (by omega)⟩
      rw [mem_calledThreads]
      intro called
      obtain ⟨turn, atLeast, atMost, same⟩ := called
      rw [Nat.mod_eq_of_lt (show turn < count by omega)] at same
      by_cases last : yields + 1 = count
      · rw [last, Nat.mod_self] at same
        omega
      · rw [Nat.mod_eq_of_lt (show yields + 1 < count by omega)] at same
        omega

/-- The yield after that calls the thread that was called first. -/
theorem calledThreads_again {count yields : Nat} (positive : 0 < count) (more : count < yields) :
    1 < (calledThreads count yields).count (1 % count) := by
  induction yields with
  | zero => omega
  | succ yields inductionHypothesis =>
      rw [calledThreads]
      by_cases again : yields = count
      · have same : (yields + 1) % count = 1 % count := by rw [again, Nat.add_mod_left]
        have before : 1 % count ∈ calledThreads count yields :=
          mem_calledThreads.mpr ⟨1, Nat.le_refl 1, by omega, rfl⟩
        rw [same, List.count_cons_self]
        have positive := List.count_pos_iff.mpr before
        omega
      · have earlier := inductionHypothesis (by omega)
        exact Nat.lt_of_lt_of_le earlier List.count_le_count_cons

theorem calledThreads_once_iff {count yields : Nat} (positive : 0 < count) :
    (∀ thread < count, (calledThreads count yields).count thread ≤ 1) ↔ yields ≤ count := by
  constructor
  · intro once
    by_contra more
    have twice := calledThreads_again positive (Nat.not_le.mp more)
    have atMost := once (1 % count) (Nat.mod_lt _ positive)
    omega
  · intro first thread _
    exact List.nodup_iff_count_le_one.mp (calledThreads_nodup first) thread

/-! ### The machine -/

/-- The machine after some yields of the threads of `w`. -/
structure Reached (w : ThreadWorld) (machine : Machine) : Prop where
  threads : machine.world.threads = w.threads
  count : machine.world.threadCount = w.threadCount
  current : machine.world.currentThread = machine.yields % w.threadCount
  calls : machine.calls = calledThreads w.threadCount machine.yields
  active : machine.activations = machine.yields
  top : (machine.yields = 0 ∧ machine.stack = [⟨.kmain, 0⟩]) ∨
    ∃ thread done below, thread < w.threadCount ∧
      machine.stack = ⟨.entry thread (w.threads thread).entry, done⟩ :: below

theorem Created.reached {w : ThreadWorld} (created : Created w) : Reached w (booted w) :=
  ⟨rfl, rfl, created.current.trans (Nat.zero_mod _).symm, rfl, rfl, Or.inl ⟨rfl, rfl⟩⟩

section

variable {w : ThreadWorld} {machine : Machine} {program : UInt64 → Code}

theorem step_yield {top : Activation} {below : List Activation}
    (stack : machine.stack = top :: below)
    (act : codeOf program top.callee top.done = .yield) {next : Nat} {world : ThreadWorld}
    (called : threadYield machine.world = (some next, world)) :
    machine.step program =
      { world := world
        stack := ⟨.entry next (world.threads next).entry, 0⟩ ::
          { top with done := top.done + 1 } :: below
        calls := next :: machine.calls
        yields := machine.yields + 1 } := by
  simp only [Machine.step, stack, act, called]

theorem step_work {top : Activation} {below : List Activation}
    (stack : machine.stack = top :: below) {heap : Kmem.KmemWorld → Kmem.KmemWorld}
    (act : codeOf program top.callee top.done = .work heap) :
    machine.step program =
      { machine with
        world := { machine.world with kmem := heap machine.world.kmem }
        stack := { top with done := top.done + 1 } :: below } := by
  simp only [Machine.step, stack, act]

theorem succ_mod_wraps {count : Nat} (positive : 0 < count) (turn : Nat) :
    (if turn % count + 1 ≥ count then 0 else turn % count + 1) = (turn + 1) % count := by
  have below := Nat.mod_lt turn positive
  rw [← Nat.mod_add_mod turn count 1]
  by_cases last : turn % count + 1 = count
  · rw [if_pos (by omega), last, Nat.mod_self]
  · have inside : turn % count + 1 < count := by omega
    rw [if_neg (by omega), Nat.mod_eq_of_lt inside]

/-- A yield calls the next thread in turn. -/
theorem Reached.yield_calls (reached : Reached w machine) (created : Created w)
    (positive : 0 < w.threadCount) :
    threadYield machine.world =
      (some ((machine.yields + 1) % w.threadCount),
        { machine.world with currentThread := (machine.yields + 1) % w.threadCount }) := by
  have notEmpty : w.threadCount ≠ 0 := by omega
  have callable : (machine.world.threads ((machine.yields + 1) % w.threadCount)).entry ≠ 0 := by
    rw [reached.threads]
    exact created.entry _ (Nat.mod_lt _ positive)
  simp only [threadYield, reached.current, reached.count, if_neg notEmpty,
    succ_mod_wraps positive, if_pos callable]

theorem Reached.after_yield (reached : Reached w machine) (created : Created w)
    (positive : 0 < w.threadCount) {top : Activation} {below : List Activation}
    (stack : machine.stack = top :: below)
    (act : codeOf program top.callee top.done = .yield) :
    Reached w (machine.step program) ∧ (machine.step program).yields = machine.yields + 1 := by
  have called := reached.yield_calls created positive
  have below' := Nat.mod_lt (machine.yields + 1) positive
  have threads := reached.threads
  have active := reached.active
  rw [step_yield stack act called]
  refine ⟨⟨threads, reached.count, rfl, ?_, ?_, Or.inr ?_⟩, rfl⟩
  · simp only [calledThreads, reached.calls]
  · rw [Machine.activations, stack] at active
    simp only [Machine.activations, List.countP_cons] at active ⊢
    simpa using active
  · exact ⟨_, 0, _, below', by rw [← threads]⟩

theorem Reached.after_work (reached : Reached w machine) {thread done : Nat}
    {below : List Activation} (isThread : thread < w.threadCount)
    (stack : machine.stack = ⟨.entry thread (w.threads thread).entry, done⟩ :: below)
    {heap : Kmem.KmemWorld → Kmem.KmemWorld}
    (act : program (w.threads thread).entry done = .work heap) :
    Reached w (machine.step program) ∧ (machine.step program).yields = machine.yields ∧
      (machine.step program).stack =
        ⟨.entry thread (w.threads thread).entry, done + 1⟩ :: below := by
  have active := reached.active
  rw [step_work stack act]
  refine ⟨⟨reached.threads, reached.count, reached.current, reached.calls, ?_,
    Or.inr ⟨thread, done + 1, below, isThread, rfl⟩⟩, rfl, rfl⟩
  rw [Machine.activations, stack] at active
  simpa [Machine.activations] using active

/-- One act of threads that loop keeps the machine as described. -/
theorem Reached.step (reached : Reached w machine) (created : Created w)
    (positive : 0 < w.threadCount)
    (loops : ∀ thread < w.threadCount, Loops (program (w.threads thread).entry)) :
    Reached w (machine.step program) := by
  rcases reached.top with ⟨-, stack⟩ | ⟨thread, done, below, isThread, stack⟩
  · exact (reached.after_yield created positive stack rfl).1
  · cases act : program (w.threads thread).entry done with
    | work heap => exact (reached.after_work isThread stack act).1
    | yield => exact (reached.after_yield created positive stack act).1
    | ret => exact absurd act ((loops thread isThread).1 done)

theorem Reached.run (reached : Reached w machine) (created : Created w)
    (positive : 0 < w.threadCount)
    (loops : ∀ thread < w.threadCount, Loops (program (w.threads thread).entry)) (steps : Nat) :
    Reached w (machine.run program steps) := by
  induction steps generalizing machine with
  | zero => exact reached
  | succ steps inductionHypothesis =>
      exact inductionHypothesis (reached.step created positive loops)

theorem Reached.resumed_iff (reached : Reached w machine) (positive : 0 < w.threadCount) :
    machine.Resumed ↔ machine.yields ≤ w.threadCount := by
  simp only [Machine.Resumed, Machine.invocations, reached.count, reached.calls, reached.active,
    calledThreads_once_iff positive, and_self]

/-! ### Every number of yields is reached -/

theorem run_add (program : UInt64 → Code) (machine : Machine) (first second : Nat) :
    machine.run program (first + second) = (machine.run program first).run program second := by
  induction first generalizing machine with
  | zero => rw [Nat.zero_add]; rfl
  | succ first inductionHypothesis =>
      rw [Nat.succ_add]
      exact inductionHypothesis (machine.step program)

/-- A thread that still has `ahead` acts before a yield gets there. -/
theorem Reached.reaches_yield (reached : Reached w machine) (created : Created w)
    (positive : 0 < w.threadCount)
    (loops : ∀ thread < w.threadCount, Loops (program (w.threads thread).entry))
    {thread done : Nat} {below : List Activation} (isThread : thread < w.threadCount)
    (stack : machine.stack = ⟨.entry thread (w.threads thread).entry, done⟩ :: below)
    {ahead : Nat} (yields : program (w.threads thread).entry (done + ahead) = .yield) :
    ∃ steps, (machine.run program steps).yields = machine.yields + 1 := by
  induction ahead generalizing machine done with
  | zero => exact ⟨1, (reached.after_yield created positive stack yields).2⟩
  | succ ahead inductionHypothesis =>
      cases act : program (w.threads thread).entry done with
      | yield => exact ⟨1, (reached.after_yield created positive stack act).2⟩
      | ret => exact absurd act ((loops thread isThread).1 done)
      | work heap =>
          obtain ⟨kept, same, after⟩ := reached.after_work isThread stack act
          rw [show done + (ahead + 1) = done + 1 + ahead by omega] at yields
          obtain ⟨steps, later⟩ := inductionHypothesis kept after yields
          exact ⟨steps + 1, later.trans (congrArg (· + 1) same)⟩

theorem Reached.next_yield (reached : Reached w machine) (created : Created w)
    (positive : 0 < w.threadCount)
    (loops : ∀ thread < w.threadCount, Loops (program (w.threads thread).entry)) :
    ∃ steps, (machine.run program steps).yields = machine.yields + 1 := by
  rcases reached.top with ⟨-, stack⟩ | ⟨thread, done, below, isThread, stack⟩
  · exact ⟨1, (reached.after_yield created positive stack rfl).2⟩
  · obtain ⟨later, order, yields⟩ := (loops thread isThread).2 done
    rw [show later = done + (later - done) by omega] at yields
    exact reached.reaches_yield created positive loops isThread stack yields

end

/-- Threads that loop and yield, created on any heap: every number of yields is
reached, and the threads are resumed up to it exactly when it is at most the
number of threads. -/
theorem yields_resumed_iff (initial w : ThreadWorld) (entries : List UInt64)
    (created : createAll entries (threadSystemInit initial) = some w) (some : 0 < w.threadCount)
    (program : UInt64 → Code)
    (loops : ∀ thread < w.threadCount, Loops (program (w.threads thread).entry)) (yields : Nat) :
    (∃ steps, ((booted w).run program steps).yields = yields) ∧
      ∀ steps, ((booted w).run program steps).yields = yields →
        (((booted w).run program steps).Resumed ↔ yields ≤ w.threadCount) := by
  have isCreated := (threadSystemInit_created initial).createAll created
  have reached := isCreated.reached.run isCreated some loops
  constructor
  · induction yields with
    | zero => exact ⟨0, rfl⟩
    | succ yields inductionHypothesis =>
        obtain ⟨steps, here⟩ := inductionHypothesis
        obtain ⟨more, later⟩ := (reached steps).next_yield isCreated some loops
        refine ⟨steps + more, ?_⟩
        rw [run_add, later, here]
  · intro steps same
    rw [(reached steps).resumed_iff some, same]

/-- `thread_c`: a line of output, and a yield. -/
def outputAndYield : Code := fun done => if done % 2 = 0 then .work id else .yield

theorem outputAndYield_loops : Loops outputAndYield := by
  constructor
  · intro done
    unfold outputAndYield
    split <;> simp
  · intro done
    refine ⟨2 * done + 1, by omega, ?_⟩
    unfold outputAndYield
    rw [if_neg (by omega)]

/-- The threads of `kmain`, on a heap of 64 KiB. -/
def kmainThreads : Option ThreadWorld :=
  createAll [0xA000, 0xB000, 0xC000, 0xD000]
    (threadSystemInit
      ⟨fun _ => ⟨0, 0, .ready⟩, 0, 0, (Kmem.kmemInit 0x100000 0x10000).final ⟨fun _ => 0, 0⟩⟩)

theorem kmainThreads_count : kmainThreads.map ThreadWorld.threadCount = some 4 := by
  decide +kernel

theorem yields_resumed_iff_kmain :
    ∃ w, kmainThreads = some w ∧
      ∀ yields, (∃ steps, ((booted w).run (fun _ => outputAndYield) steps).yields = yields) ∧
        ∀ steps, ((booted w).run (fun _ => outputAndYield) steps).yields = yields →
          (((booted w).run (fun _ => outputAndYield) steps).Resumed ↔ yields ≤ w.threadCount) := by
  obtain ⟨w, created, count⟩ := Option.map_eq_some_iff.mp kmainThreads_count
  exact ⟨w, created, yields_resumed_iff _ w _ created (by omega) _ fun _ _ => outputAndYield_loops⟩

/-- The fifth yield of four threads calls the second one again. -/
theorem kmain_restarts_thread :
    kmainThreads.map (fun w => ((booted w).run (fun _ => outputAndYield) 9).yields) = some 5 ∧
      kmainThreads.map (fun w => ((booted w).run (fun _ => outputAndYield) 9).invocations 1) =
        some 2 ∧
      kmainThreads.map (fun w => ((booted w).run (fun _ => outputAndYield) 9).activations) =
        some 5 := by
  decide +kernel

end Mcsos.Thread
