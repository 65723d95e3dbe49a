import Mathlib.Data.List.Rotate
import Mcsos.Machine.Run
import Mcsos.Thread.Nesting

/-!
Contract: which entry functions the yields call, where the functions return.

The threads are called in turn, and each of them once in as many yields as
there are threads. The turn begins behind thread 0: `thread_yield` advances the
index before it uses it.

A function that returns may itself create, yield and allocate. What it does
stands in a run behind the yield that called it: behind the call there is only
the return of `thread_yield`.
-/

namespace Mcsos.Thread

open Mcsos.Machine
open Mcsos.Kmem

/-- A call of the scheduler, or anything that changes the heap and not the
threads. -/
inductive ThreadCall where
  | create (entry : UInt64)
  | yield
  | work (heap : KmemWorld → KmemWorld)

/-- The threads, the entries they were created with, in order, and what the
yields called, in order: an entry and the thread it was called for. -/
structure Schedule where
  world : ThreadWorld
  created : List UInt64
  ran : List (UInt64 × Nat)

namespace Schedule

def next (schedule : Schedule) : ThreadCall → Schedule
  | .create entry =>
      match threadCreate entry schedule.world with
      | some (some _, world) =>
          { schedule with world := world, created := schedule.created ++ [entry] }
      | some (none, world) => { schedule with world := world }
      | none => schedule
  | .yield =>
      match threadYield schedule.world with
      | (some thread, world) =>
          { schedule with
            world := world
            ran := schedule.ran ++ [((world.threads thread).entry, thread)] }
      | (none, world) => { schedule with world := world }
  | .work heap =>
      { schedule with world := { schedule.world with kmem := heap schedule.world.kmem } }

/-- The call returns; `kmalloc` may not. -/
def Returns (schedule : Schedule) : ThreadCall → Prop
  | .create entry => (threadCreate entry schedule.world).isSome
  | .yield | .work _ => True

instance (schedule : Schedule) : (call : ThreadCall) → Decidable (schedule.Returns call)
  | .create _ => inferInstanceAs (Decidable (_ = true))
  | .yield | .work _ => inferInstanceAs (Decidable True)

/-- The call creates no thread. -/
def CreatesNothing (schedule : Schedule) (call : ThreadCall) : Prop :=
  (schedule.next call).created = schedule.created

instance (schedule : Schedule) (call : ThreadCall) : Decidable (schedule.CreatesNothing call) :=
  inferInstanceAs (Decidable (_ = _))

end Schedule

/-- How many of the calls are yields. -/
def yields : List ThreadCall → Nat
  | [] => 0
  | .yield :: rest => yields rest + 1
  | .create _ :: rest | .work _ :: rest => yields rest

/-- Right after `thread_system_init`, whatever was there before. -/
def scheduled (w : ThreadWorld) : Schedule := ⟨threadSystemInit w, [], []⟩

/-! ### The invariant -/

/-- The table holds the entries that were created, the index is in it, and the
yields called nothing else. -/
structure Schedule.Tracked (schedule : Schedule) : Prop where
  count : schedule.world.threadCount = schedule.created.length
  index : schedule.created ≠ [] → schedule.world.currentThread < schedule.created.length
  fresh : schedule.created = [] → schedule.world.currentThread = 0
  entries : ∀ thread entry, schedule.created[thread]? = some entry →
    entry ≠ 0 ∧ (schedule.world.threads thread).entry = entry
  ran : ∀ call ∈ schedule.ran, call ∈ schedule.created.zipIdx

theorem scheduled_tracked (w : ThreadWorld) : (scheduled w).Tracked where
  count := rfl
  index := fun threads => absurd rfl threads
  fresh := fun _ => rfl
  entries := by simp [scheduled]
  ran := by simp [scheduled]

section

variable {schedule : Schedule}

theorem Schedule.Tracked.mem_created_lt (tracked : schedule.Tracked) {thread : Nat} {entry : UInt64}
    (created : schedule.created[thread]? = some entry) : thread < schedule.world.threadCount := by
  rw [tracked.count]
  exact (List.getElem?_eq_some_iff.mp created).1

/-- A call of `thread_create` that returns. -/
theorem Schedule.Tracked.create (tracked : schedule.Tracked) {entry : UInt64}
    (returns : schedule.Returns (.create entry)) : (schedule.next (.create entry)).Tracked := by
  obtain ⟨⟨answer, after⟩, returned⟩ := Option.isSome_iff_exists.mp returns
  have kept : ∀ thread old, schedule.created[thread]? = some old →
      old ≠ 0 ∧ (after.threads thread).entry = old := by
    intro thread old created
    rw [(threadCreate_cases returned).2.1 thread (tracked.mem_created_lt created)]
    exact tracked.entries thread old created
  obtain ⟨current, -, ⟨rfl, count⟩ | ⟨rfl, notNull, -, count, newest⟩⟩ :=
    threadCreate_cases returned
  · simp only [Schedule.next, returned]
    exact ⟨count.trans tracked.count, current ▸ tracked.index, current ▸ tracked.fresh, kept,
      tracked.ran⟩
  · simp only [Schedule.next, returned]
    refine ⟨?_, ?_, ?_, ?_, ?_⟩
    · simp [count, tracked.count]
    · intro _
      rw [current, List.length_append, List.length_singleton]
      by_cases first : schedule.created = []
      · rw [tracked.fresh first]
        exact Nat.succ_pos _
      · exact Nat.lt_succ_of_lt (tracked.index first)
    · simp
    · intro thread old created
      by_cases older : thread < schedule.created.length
      · rw [List.getElem?_append_left older] at created
        exact kept thread old created
      · have newcomer : thread = schedule.created.length ∧ old = entry := by
          have inside := (List.getElem?_eq_some_iff.mp created).1
          rw [List.length_append, List.length_singleton] at inside
          obtain rfl : thread = schedule.created.length := by omega
          simpa [eq_comm] using created
        obtain ⟨rfl, rfl⟩ := newcomer
        rw [← tracked.count]
        exact ⟨notNull, newest⟩
    · intro call member
      rw [List.zipIdx_append]
      exact List.mem_append_left _ (tracked.ran call member)

/-- A yield calls the thread behind the one that was called last. -/
theorem Schedule.Tracked.yield_calls (tracked : schedule.Tracked)
    (threads : schedule.created ≠ []) :
    ∃ entry, schedule.created[(schedule.world.currentThread + 1) % schedule.created.length]? =
        some entry ∧
      schedule.next .yield =
        { schedule with
          world := { schedule.world with
            currentThread := (schedule.world.currentThread + 1) % schedule.created.length }
          ran := schedule.ran ++
            [(entry, (schedule.world.currentThread + 1) % schedule.created.length)] } := by
  have positive : 0 < schedule.created.length := List.length_pos_iff.mpr threads
  have inside := Nat.mod_lt (schedule.world.currentThread + 1) positive
  have turn := succ_mod_wraps positive schedule.world.currentThread
  rw [Nat.mod_eq_of_lt (tracked.index threads)] at turn
  have isEntry := List.getElem?_eq_getElem inside
  obtain ⟨notNull, stored⟩ := tracked.entries _ _ isEntry
  refine ⟨_, isEntry, ?_⟩
  have called : threadYield schedule.world =
      (some ((schedule.world.currentThread + 1) % schedule.created.length),
        { schedule.world with
          currentThread := (schedule.world.currentThread + 1) % schedule.created.length }) := by
    simp only [threadYield, tracked.count, if_neg (Nat.ne_of_gt positive), turn, stored,
      if_pos notNull]
  simp only [Schedule.next, called, stored]

theorem Schedule.Tracked.yield (tracked : schedule.Tracked) : (schedule.next .yield).Tracked := by
  by_cases empty : schedule.created = []
  · have noThread : schedule.world.threadCount = 0 := by rw [tracked.count, empty, List.length_nil]
    have idle : threadYield schedule.world = (none, schedule.world) := by
      simp [threadYield, noThread]
    simp only [Schedule.next, idle]
    exact tracked
  · obtain ⟨entry, isEntry, effect⟩ := tracked.yield_calls empty
    rw [effect]
    refine ⟨tracked.count, ?_, fun impossible => absurd impossible empty, tracked.entries, ?_⟩
    · intro _
      exact Nat.mod_lt _ (List.length_pos_iff.mpr empty)
    · intro call member
      rcases List.mem_append.mp member with earlier | last
      · exact tracked.ran call earlier
      · obtain rfl := List.mem_singleton.mp last
        exact List.mk_mem_zipIdx_iff_getElem?.mpr isEntry

theorem Schedule.Tracked.step (tracked : schedule.Tracked) {call : ThreadCall}
    (returns : schedule.Returns call) : (schedule.next call).Tracked := by
  cases call with
  | create entry => exact tracked.create returns
  | yield => exact tracked.yield
  | work heap => exact ⟨tracked.count, tracked.index, tracked.fresh, tracked.entries, tracked.ran⟩

/-! ### Calls in turn -/

/-- A call of `thread_create` moves no turn, whether it creates or not. -/
theorem Schedule.create_keeps_turn (schedule : Schedule) (entry : UInt64) :
    (schedule.next (.create entry)).ran = schedule.ran ∧
      (schedule.next (.create entry)).world.currentThread = schedule.world.currentThread := by
  cases returned : threadCreate entry schedule.world with
  | none => simp only [Schedule.next, returned, and_self]
  | some result =>
      obtain ⟨answer, after⟩ := result
      have current := (threadCreate_cases returned).1
      cases answer with
      | none => simp only [Schedule.next, returned, current, and_self]
      | some thread => simp only [Schedule.next, returned, current, and_self]

/-- While no thread is created, the yields call the threads in turn, beginning
behind the one that was called last. -/
theorem Schedule.Tracked.turns (tracked : schedule.Tracked) (threads : schedule.created ≠ [])
    {window : List ThreadCall} (returns : EveryCall Schedule.next Schedule.Returns window schedule)
    (settled : EveryCall Schedule.next Schedule.CreatesNothing window schedule) :
    ∃ runs, (window.foldl Schedule.next schedule).ran = schedule.ran ++ runs ∧
      runs.length = yields window ∧
      ∀ turn < yields window, runs[turn]? =
        schedule.created.zipIdx[(schedule.world.currentThread + 1 + turn) %
          schedule.created.length]? := by
  induction window generalizing schedule with
  | nil => exact ⟨[], by simp, rfl, by simp [yields]⟩
  | cons call rest inductionHypothesis =>
      have same : (schedule.next call).created = schedule.created := settled.1
      obtain ⟨runs, ran, length, inTurn⟩ :=
        inductionHypothesis (tracked.step returns.1) (same ▸ threads) returns.2 settled.2
      rw [same] at inTurn
      cases call with
      | create entry =>
          obtain ⟨keptRan, keptTurn⟩ := schedule.create_keeps_turn entry
          rw [keptTurn] at inTurn
          exact ⟨runs, keptRan ▸ ran, length, inTurn⟩
      | work heap => exact ⟨runs, ran, length, inTurn⟩
      | yield =>
          obtain ⟨entry, isEntry, effect⟩ := tracked.yield_calls threads
          rw [effect] at inTurn
          refine ⟨(entry, (schedule.world.currentThread + 1) % schedule.created.length) :: runs,
            ?_, congrArg (· + 1) length, ?_⟩
          · rw [List.foldl_cons, ran, effect, List.append_assoc]
            rfl
          · intro turn before
            cases turn with
            | zero =>
                rw [List.getElem?_cons_zero, List.getElem?_zipIdx, Nat.add_zero, isEntry]
                simp
            | succ turn =>
                rw [List.getElem?_cons_succ, inTurn turn (Nat.lt_of_succ_lt_succ before),
                  Nat.add_assoc, Nat.mod_add_mod]
                congr 2
                omega

/-- As many yields as there are threads go round once. -/
theorem Schedule.Tracked.round (tracked : schedule.Tracked) (threads : schedule.created ≠ [])
    {window : List ThreadCall} (returns : EveryCall Schedule.next Schedule.Returns window schedule)
    (settled : EveryCall Schedule.next Schedule.CreatesNothing window schedule)
    (full : yields window = schedule.created.length) :
    ∃ runs, (window.foldl Schedule.next schedule).ran = schedule.ran ++ runs ∧
      runs.Perm schedule.created.zipIdx := by
  obtain ⟨runs, ran, length, inTurn⟩ := tracked.turns threads returns settled
  refine ⟨runs, ran, ?_⟩
  have rotated : runs = schedule.created.zipIdx.rotate (schedule.world.currentThread + 1) := by
    apply List.ext_getElem?
    intro turn
    by_cases inside : turn < yields window
    · rw [inTurn turn inside, List.getElem?_rotate (by simpa [← full] using inside),
        List.length_zipIdx, Nat.add_comm turn]
    · rw [List.getElem?_eq_none (by omega),
        List.getElem?_eq_none (by rw [List.length_rotate, List.length_zipIdx]; omega)]
  rw [rotated]
  exact List.rotate_perm _ _

end

/-! ### Round robin -/

/-- The schedule is what a run of calls that return leads to. -/
def Reachable (w : ThreadWorld) (schedule : Schedule) : Prop :=
  ∃ calls, EveryCall Schedule.next Schedule.Returns calls (scheduled w) ∧
    calls.foldl Schedule.next (scheduled w) = schedule

theorem Reachable.tracked {w : ThreadWorld} {schedule : Schedule}
    (reachable : Reachable w schedule) : schedule.Tracked := by
  obtain ⟨calls, returns, rfl⟩ := reachable
  exact returns.final Schedule.Tracked (fun _ _ tracked returns => tracked.step returns)
    (scheduled_tracked w)

/-- Only what was created is ever called, and in as many yields as there are
threads, with no thread created between them, every thread is called once. -/
theorem reachable_roundRobin {w : ThreadWorld} {schedule : Schedule}
    (reachable : Reachable w schedule) :
    (∀ call ∈ schedule.ran, call ∈ schedule.created.zipIdx) ∧
      ∀ window, EveryCall Schedule.next Schedule.Returns window schedule →
        EveryCall Schedule.next Schedule.CreatesNothing window schedule →
        schedule.created ≠ [] → yields window = schedule.created.length →
        ∃ runs, (window.foldl Schedule.next schedule).ran = schedule.ran ++ runs ∧
          runs.Perm schedule.created.zipIdx :=
  ⟨reachable.tracked.ran, fun _ returns settled threads full =>
    reachable.tracked.round threads returns settled full⟩

/-- No thread, on a heap of 64 KiB. -/
def bootWorld : ThreadWorld :=
  ⟨fun _ => ⟨0, 0, .ready⟩, 0, 0, (kmemInit 0x100000 0x10000).final ⟨fun _ => 0, 0⟩⟩

/-- Yields among creations, one of which is refused. -/
def mixedCalls : List ThreadCall :=
  [.yield, .create 0xA000, .yield, .create 0xB000, .yield, .create 0, .create 0xA000]

theorem reachable_roundRobin_mixed :
    ∃ runs, ([.yield, .create 0, .yield, .work id, .yield].foldl Schedule.next
        (mixedCalls.foldl Schedule.next (scheduled bootWorld))).ran =
          (mixedCalls.foldl Schedule.next (scheduled bootWorld)).ran ++ runs ∧
      runs.Perm (mixedCalls.foldl Schedule.next (scheduled bootWorld)).created.zipIdx := by
  have reachable : Reachable bootWorld (mixedCalls.foldl Schedule.next (scheduled bootWorld)) :=
    ⟨mixedCalls, by decide +kernel, rfl⟩
  exact (reachable_roundRobin reachable).2 _ (by decide +kernel) (by decide +kernel)
    (by decide +kernel) (by decide +kernel)

/-! ### The order of creation -/

/-- However the run goes on, without more threads, the `k`-th yield calls the
entry for the thread in place `(k - 1) mod n` of those created. -/
def Schedule.StartsInOrder (schedule : Schedule) : Prop :=
  ∀ later, EveryCall Schedule.next Schedule.Returns later schedule →
    EveryCall Schedule.next Schedule.CreatesNothing later schedule →
    ∀ k, 1 ≤ k → k ≤ yields later →
      (later.foldl Schedule.next schedule).ran[k - 1]? =
        schedule.created.zipIdx[(k - 1) % schedule.created.length]?

/-- The same of the functions that are called, whichever thread it is for. -/
def Schedule.CallsInOrder (schedule : Schedule) : Prop :=
  ∀ later, EveryCall Schedule.next Schedule.Returns later schedule →
    EveryCall Schedule.next Schedule.CreatesNothing later schedule →
    ∀ k, 1 ≤ k → k ≤ yields later →
      (later.foldl Schedule.next schedule).ran[k - 1]?.map Prod.fst =
        schedule.created[(k - 1) % schedule.created.length]?

/-- Nothing was called while nothing yielded. -/
theorem unstarted {calls : List ThreadCall} (quiet : yields calls = 0) (schedule : Schedule) :
    (calls.foldl Schedule.next schedule).ran = schedule.ran ∧
      (calls.foldl Schedule.next schedule).world.currentThread =
        schedule.world.currentThread := by
  induction calls generalizing schedule with
  | nil => exact ⟨rfl, rfl⟩
  | cons call rest inductionHypothesis =>
      cases call with
      | create entry =>
          obtain ⟨ran, turn⟩ := inductionHypothesis quiet (schedule.next (.create entry))
          obtain ⟨keptRan, keptTurn⟩ := schedule.create_keeps_turn entry
          exact ⟨ran.trans keptRan, turn.trans keptTurn⟩
      | yield => cases quiet
      | work heap => exact inductionHypothesis quiet (schedule.next (.work heap))

/-- The `k`-th yield calls the thread in place `k mod n`. -/
theorem Schedule.Tracked.kth_yield {schedule : Schedule} (tracked : schedule.Tracked)
    (threads : schedule.created ≠ []) (idle : schedule.ran = [])
    (first : schedule.world.currentThread = 0) {later : List ThreadCall}
    (returns : EveryCall Schedule.next Schedule.Returns later schedule)
    (settled : EveryCall Schedule.next Schedule.CreatesNothing later schedule) {k : Nat}
    (positive : 1 ≤ k) (within : k ≤ yields later) :
    (later.foldl Schedule.next schedule).ran[k - 1]? =
      schedule.created.zipIdx[k % schedule.created.length]? := by
  obtain ⟨runs, ran, -, inTurn⟩ := tracked.turns threads returns settled
  rw [ran, idle, List.nil_append, inTurn (k - 1) (by omega), first]
  congr 2
  omega

theorem yields_replicate (count : Nat) : yields (List.replicate count .yield) = count := by
  induction count with
  | zero => rfl
  | succ count inductionHypothesis => exact congrArg (· + 1) inductionHypothesis

theorem replicate_returns (count : Nat) (schedule : Schedule) :
    EveryCall Schedule.next Schedule.Returns (List.replicate count .yield) schedule :=
  everyCall_replicate (fun _ => trivial) count schedule

theorem replicate_createsNothing (count : Nat) (schedule : Schedule) :
    EveryCall Schedule.next Schedule.CreatesNothing (List.replicate count .yield) schedule := by
  refine everyCall_replicate ?_ count schedule
  intro session
  simp only [Schedule.CreatesNothing, Schedule.next]
  split <;> rfl

section

variable {schedule : Schedule} (tracked : schedule.Tracked) (threads : schedule.created ≠ [])
  (idle : schedule.ran = []) (first : schedule.world.currentThread = 0)

include tracked threads idle first

theorem Schedule.Tracked.starts_iff :
    schedule.StartsInOrder ↔ schedule.created.length = 1 := by
  have positive := List.length_pos_iff.mpr threads
  constructor
  · intro inOrder
    by_contra several
    have second : 1 < schedule.created.length := by omega
    -- the first yield calls thread 1
    have called := tracked.kth_yield threads idle first (replicate_returns 1 schedule)
      (replicate_createsNothing 1 schedule) (Nat.le_refl 1) (Nat.le_refl 1)
    rw [inOrder _ (replicate_returns 1 schedule) (replicate_createsNothing 1 schedule) 1
      (Nat.le_refl 1) (Nat.le_refl 1), Nat.mod_eq_of_lt second, Nat.sub_self, Nat.zero_mod,
      List.getElem?_zipIdx, List.getElem?_zipIdx, List.getElem?_eq_getElem positive,
      List.getElem?_eq_getElem second] at called
    simp at called
  · intro one later returns settled k positive within
    rw [tracked.kth_yield threads idle first returns settled positive within, one, Nat.mod_one,
      Nat.mod_one]

theorem Schedule.Tracked.calls_iff :
    schedule.CallsInOrder ↔
      ∀ entry ∈ schedule.created, ∀ other ∈ schedule.created, entry = other := by
  have positive := List.length_pos_iff.mpr threads
  have functions : ∀ thread : Nat,
      schedule.created.zipIdx[thread]?.map Prod.fst = schedule.created[thread]? := by
    intro thread
    rw [← List.getElem?_map, List.zipIdx_map_fst]
  constructor
  · intro inOrder
    have all : ∀ thread < schedule.created.length,
        schedule.created[thread]? = schedule.created[0]? := by
      intro thread
      induction thread with
      | zero => exact fun _ => rfl
      | succ thread inductionHypothesis =>
          intro inside
          have claimed := inOrder _ (replicate_returns (thread + 1) schedule)
            (replicate_createsNothing (thread + 1) schedule) (thread + 1) (by omega)
            (Nat.le_of_eq (yields_replicate _).symm)
          rw [tracked.kth_yield threads idle first (replicate_returns (thread + 1) schedule)
            (replicate_createsNothing (thread + 1) schedule) (by omega)
            (Nat.le_of_eq (yields_replicate _).symm), functions, Nat.mod_eq_of_lt inside,
            Nat.add_sub_cancel, Nat.mod_eq_of_lt (Nat.lt_of_succ_lt inside)] at claimed
          exact claimed.trans (inductionHypothesis (Nat.lt_of_succ_lt inside))
    intro entry member other otherMember
    obtain ⟨thread, inside, rfl⟩ := List.mem_iff_getElem.mp member
    obtain ⟨place, within, rfl⟩ := List.mem_iff_getElem.mp otherMember
    have same := (all thread inside).trans (all place within).symm
    rwa [List.getElem?_eq_getElem inside, List.getElem?_eq_getElem within,
      Option.some.injEq] at same
  · intro same later returns settled k atLeast within
    have here := Nat.mod_lt k positive
    have before := Nat.mod_lt (k - 1) positive
    rw [tracked.kth_yield threads idle first returns settled atLeast within, functions,
      List.getElem?_eq_getElem here, List.getElem?_eq_getElem before]
    exact congrArg some (same _ (List.getElem_mem here) _ (List.getElem_mem before))

end

/-- The threads start in the order of their creation exactly where there is
one; the functions are called in that order exactly where all are the same. -/
theorem startsInOrder_iff (w : ThreadWorld) {calls : List ThreadCall}
    (returns : EveryCall Schedule.next Schedule.Returns calls (scheduled w))
    (quiet : yields calls = 0)
    (threads : (calls.foldl Schedule.next (scheduled w)).created ≠ []) :
    ((calls.foldl Schedule.next (scheduled w)).StartsInOrder ↔
        (calls.foldl Schedule.next (scheduled w)).created.length = 1) ∧
      ((calls.foldl Schedule.next (scheduled w)).CallsInOrder ↔
        ∀ entry ∈ (calls.foldl Schedule.next (scheduled w)).created,
          ∀ other ∈ (calls.foldl Schedule.next (scheduled w)).created, entry = other) := by
  have tracked := Reachable.tracked ⟨calls, returns, rfl⟩
  obtain ⟨idle, first⟩ := unstarted quiet (scheduled w)
  exact ⟨tracked.starts_iff threads idle first, tracked.calls_iff threads idle first⟩

theorem startsInOrder_iff_single :
    ([.create 0, .create 0xA000].foldl Schedule.next (scheduled bootWorld)).StartsInOrder := by
  have returns : EveryCall Schedule.next Schedule.Returns [.create 0, .create 0xA000]
      (scheduled bootWorld) := by decide +kernel
  exact (startsInOrder_iff bootWorld returns rfl (by decide +kernel)).1.mpr (by decide +kernel)

/-- Of two threads, the second one starts first. -/
theorem secondThread_startsFirst :
    ¬ ∀ (w : ThreadWorld) (calls : List ThreadCall),
      EveryCall Schedule.next Schedule.Returns calls (scheduled w) → yields calls = 0 →
      (calls.foldl Schedule.next (scheduled w)).created ≠ [] →
      (calls.foldl Schedule.next (scheduled w)).CallsInOrder := by
  intro always
  have claimed := always bootWorld [.create 0xA000, .create 0xB000] (by decide +kernel) rfl
    (by decide +kernel) [.yield] ⟨trivial, trivial⟩ (by decide +kernel) 1 (by decide) (by decide)
  exact absurd claimed (by decide +kernel)

end Mcsos.Thread
