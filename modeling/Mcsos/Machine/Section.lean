import Mcsos.Machine.Interleaving

/-!
Owns critical sections: what threads do to shared data while they hold a lock,
one atomic step at a time. Threads that hold nothing may step in between.

`Reachable.serial` is what a lock is for: the sections have the effect of a
history in which they run one after another, and in which the sections of each
thread are in its own order.
-/

namespace Mcsos.Machine

variable {θ π σ δ ρ : Type}

/-- The code between an acquire and a release: atomic steps on the guarded data
and on a register of the thread, and what the register is at first. -/
structure Section (δ ρ : Type) where
  register : ρ
  acts : List (δ × ρ → δ × ρ)

/-- The data and the register behind some of the acts. -/
def runActs (acts : List (δ × ρ → δ × ρ)) (before : δ × ρ) : δ × ρ :=
  acts.foldl (fun current act => act current) before

/-- The data behind a section that nothing interrupts. -/
def Section.run (code : Section δ ρ) (data : δ) : δ := (runActs code.acts (data, code.register)).1

/-- The data behind a history of sections. -/
def serialRun (history : List (θ × Section δ ρ)) (data : δ) : δ :=
  history.foldl (fun current entry => entry.2.run current) data

/-- How far a thread is in a section. -/
structure Progress (δ ρ : Type) where
  code : Section δ ρ
  done : Nat
  register : ρ

/-- A thread with the section it is in, and those it has left. -/
structure Worker (π δ ρ : Type) where
  point : π
  inside : Option (Progress δ ρ)
  finished : List (Section δ ρ)

/-- The worker behind its next act. -/
def Worker.advance (worker : Worker π δ ρ) (progress : Progress δ ρ) (register : ρ) :
    Worker π δ ρ :=
  { worker with inside := some ⟨progress.code, progress.done + 1, register⟩ }

/-- The atomic steps of threads that take and give back a lock by `step`, and
that work on the guarded data while they hold it. -/
inductive GuardedStep (holds : π → Prop) (step : AtomicStep π σ) (allowed : Section δ ρ → Prop) :
    AtomicStep (Worker π δ ρ) (σ × δ) where
  | around {worker : Worker π δ ρ} {next : π} {lock after : σ} {data : δ}
      (taken : step worker.point lock next after) (same : holds next ↔ holds worker.point) :
      GuardedStep holds step allowed worker (lock, data) { worker with point := next } (after, data)
  | enter {worker : Worker π δ ρ} {next : π} {lock after : σ} {data : δ} {code : Section δ ρ}
      (taken : step worker.point lock next after) (outside : ¬ holds worker.point)
      (acquired : holds next) (fits : allowed code) :
      GuardedStep holds step allowed worker (lock, data)
        ⟨next, some ⟨code, 0, code.register⟩, worker.finished⟩ (after, data)
  | act {worker : Worker π δ ρ} {lock : σ} {data : δ} {progress : Progress δ ρ}
      (inside : worker.inside = some progress) {act : δ × ρ → δ × ρ}
      (next : progress.code.acts[progress.done]? = some act) :
      GuardedStep holds step allowed worker (lock, data)
        (worker.advance progress (act (data, progress.register)).2)
        (lock, (act (data, progress.register)).1)
  | leave {worker : Worker π δ ρ} {next : π} {lock after : σ} {data : δ} {progress : Progress δ ρ}
      (taken : step worker.point lock next after) (held : holds worker.point)
      (released : ¬ holds next) (inside : worker.inside = some progress)
      (ended : progress.done = progress.code.acts.length) :
      GuardedStep holds step allowed worker (lock, data)
        ⟨next, none, worker.finished ++ [progress.code]⟩ (after, data)

/-- The threads without their sections. -/
def Threads.locking (threads : Threads θ (Worker π δ ρ) (σ × δ)) : Threads θ π σ :=
  ⟨fun thread => (threads.point thread).point, threads.shared.1⟩

/-- The thread has done the first acts of its section, to `before`. -/
structure Progress.Ran (progress : Progress δ ρ) (before after : δ) : Prop where
  started : progress.done ≤ progress.code.acts.length
  acts : runActs (progress.code.acts.take progress.done) (before, progress.code.register) =
    (after, progress.register)

/-- The data are what the history leaves, or a section is on its way there; the
history has each thread's sections in its order. -/
structure Serial [DecidableEq θ] (holds : π → Prop) (allowed : Section δ ρ → Prop) (start : δ)
    (history : List (θ × Section δ ρ)) (threads : Threads θ (Worker π δ ρ) (σ × δ)) : Prop where
  own : ∀ thread, (history.filter (·.1 = thread)).map Prod.snd = (threads.point thread).finished
  inside_iff : ∀ thread, (threads.point thread).inside ≠ none ↔ holds (threads.point thread).point
  idle : (∀ thread, (threads.point thread).inside = none) →
    threads.shared.2 = serialRun history start
  busy : ∀ thread progress, (threads.point thread).inside = some progress →
    allowed progress.code ∧ progress.Ran (serialRun history start) threads.shared.2
  fits : ∀ entry ∈ history, allowed entry.2

/-! ### One section -/

theorem serialRun_append (history : List (θ × Section δ ρ)) (entry : θ × Section δ ρ) (data : δ) :
    serialRun (history ++ [entry]) data = entry.2.run (serialRun history data) := by
  rw [serialRun, List.foldl_append]
  rfl

theorem Progress.ran_start (code : Section δ ρ) (data : δ) :
    Progress.Ran ⟨code, 0, code.register⟩ data data :=
  ⟨Nat.zero_le _, rfl⟩

theorem Progress.Ran.act {progress : Progress δ ρ} {before after : δ}
    (ran : progress.Ran before after) {act : δ × ρ → δ × ρ}
    (next : progress.code.acts[progress.done]? = some act) :
    Progress.Ran ⟨progress.code, progress.done + 1, (act (after, progress.register)).2⟩ before
      (act (after, progress.register)).1 := by
  obtain ⟨inside, isAct⟩ := List.getElem?_eq_some_iff.mp next
  refine ⟨inside, ?_⟩
  have split : progress.code.acts.take (progress.done + 1) =
      progress.code.acts.take progress.done ++ [act] := by
    rw [List.take_add_one, next]
    rfl
  show runActs (progress.code.acts.take (progress.done + 1)) _ = _
  rw [split, runActs, List.foldl_append]
  show act (runActs (progress.code.acts.take progress.done) _) = _
  rw [ran.acts]

theorem Progress.Ran.ended {progress : Progress δ ρ} {before after : δ}
    (ran : progress.Ran before after) (ended : progress.done = progress.code.acts.length) :
    progress.code.run before = after := by
  have acts := ran.acts
  rw [ended, List.take_length] at acts
  rw [Section.run, acts]

/-! ### Every interleaving -/

section

variable [DecidableEq θ] {holds : π → Prop} {locked : σ → Prop} {step : AtomicStep π σ}
  {allowed : Section δ ρ → Prop} {start threads : Threads θ (Worker π δ ρ) (σ × δ)}

theorem locking_update (thread : θ) (worker : Worker π δ ρ) (shared : σ × δ) :
    Threads.locking ⟨Function.update threads.point thread worker, shared⟩ =
      ⟨Function.update threads.locking.point thread worker.point, shared.1⟩ := by
  rw [Threads.locking, Threads.mk.injEq]
  refine ⟨?_, rfl⟩
  funext other
  by_cases here : other = thread
  · subst here
    simp
  · simp [here, Threads.locking]

/-- Without their sections the threads do steps of the lock, or nothing. -/
theorem Reachable.locking (reached : Reachable (GuardedStep holds step allowed) start threads) :
    Reachable step start.locking threads.locking := by
  induction reached with
  | start => exact .start
  | @step threads reached thread worker shared taken inductionHypothesis =>
      rw [locking_update]
      generalize current : threads.shared = before at taken
      generalize here : threads.point thread = point at taken
      have lock : threads.locking.shared = before.1 := congrArg Prod.fst current
      have place : threads.locking.point thread = point.point := congrArg Worker.point here
      cases taken with
      | around taken same => exact inductionHypothesis.step thread (by rwa [lock, place])
      | enter taken outside acquired fits =>
          exact inductionHypothesis.step thread (by rwa [lock, place])
      | act inside next =>
          show Reachable step _ ⟨Function.update _ thread point.point, _⟩
          rw [← place, Function.update_eq_self]
          rwa [← lock]
      | leave taken held released inside ended =>
          exact inductionHypothesis.step thread (by rwa [lock, place])

/-- A lock that is taken was free. -/
theorem LockStep.free {point next : π} {shared after : σ}
    (lockStep : LockStep holds locked point shared next after) (outside : ¬ holds point)
    (acquired : holds next) : ¬ locked shared := by
  cases lockStep with
  | keep same flag => exact absurd (same.mp acquired) outside
  | acquire free taken flag => exact free
  | release held given flag => exact absurd held outside

section

variable {data : δ} {history : List (θ × Section δ ρ)} {thread : θ} {worker : Worker π δ ρ}
  {shared : σ × δ}

theorem point_self (points : θ → Worker π δ ρ) :
    (Threads.mk (Function.update points thread worker) shared).point thread = worker :=
  Function.update_self thread worker points

theorem point_other (points : θ → Worker π δ ρ) {other : θ} (elsewhere : other ≠ thread) :
    (Threads.mk (Function.update points thread worker) shared).point other = points other :=
  Function.update_of_ne elsewhere worker points

/-- The locks change hands, but no section goes on. -/
theorem Serial.around (serial : Serial holds allowed data history threads)
    (inside : worker.inside = (threads.point thread).inside)
    (finished : worker.finished = (threads.point thread).finished)
    (same : holds worker.point ↔ holds (threads.point thread).point)
    (kept : shared.2 = threads.shared.2) :
    Serial holds allowed data history ⟨Function.update threads.point thread worker, shared⟩ := by
  have insideSame : ∀ other,
      ((Threads.mk (Function.update threads.point thread worker) shared).point other).inside =
        (threads.point other).inside := by
    intro other
    by_cases here : other = thread
    · rw [here, point_self, inside]
    · rw [point_other _ here]
  constructor
  · intro other
    rw [serial.own]
    by_cases here : other = thread
    · rw [here, point_self, finished]
    · rw [point_other _ here]
  · intro other
    rw [insideSame, serial.inside_iff]
    by_cases here : other = thread
    · rw [here, point_self, same]
    · rw [point_other _ here]
  · intro nobody
    rw [kept]
    exact serial.idle fun other => (insideSame other).symm.trans (nobody other)
  · intro other progress isInside
    rw [kept]
    exact serial.busy other progress ((insideSame other).symm.trans isInside)
  · exact serial.fits

/-- A thread with a section that has begun or gone on, while the others have
none. -/
theorem Serial.only (serial : Serial holds allowed data history threads)
    (others : ∀ other, other ≠ thread → (threads.point other).inside = none)
    {progress : Progress δ ρ} (inside : worker.inside = some progress)
    (finished : worker.finished = (threads.point thread).finished) (holding : holds worker.point)
    (fits : allowed progress.code) (ran : progress.Ran (serialRun history data) shared.2) :
    Serial holds allowed data history ⟨Function.update threads.point thread worker, shared⟩ := by
  constructor
  · intro other
    rw [serial.own]
    by_cases here : other = thread
    · rw [here, point_self, finished]
    · rw [point_other _ here]
  · intro other
    by_cases here : other = thread
    · rw [here, point_self, inside]
      simp [holding]
    · rw [point_other _ here]
      exact serial.inside_iff other
  · intro nobody
    have none := nobody thread
    rw [point_self, inside] at none
    cases none
  · intro other current isInside
    by_cases here : other = thread
    · rw [here, point_self, inside, Option.some.injEq] at isInside
      rw [← isInside]
      exact ⟨fits, ran⟩
    · rw [point_other _ here, others other here] at isInside
      cases isInside
  · exact serial.fits

/-- A thread leaves its section, which is the last one of the history now. -/
theorem Serial.leave (serial : Serial holds allowed data history threads)
    (others : ∀ other, other ≠ thread → (threads.point other).inside = none)
    {progress : Progress δ ρ} (inside : (threads.point thread).inside = some progress)
    (ended : progress.done = progress.code.acts.length) (outside : worker.inside = none)
    (finished : worker.finished = (threads.point thread).finished ++ [progress.code])
    (released : ¬ holds worker.point) (kept : shared.2 = threads.shared.2) :
    Serial holds allowed data (history ++ [(thread, progress.code)])
      ⟨Function.update threads.point thread worker, shared⟩ := by
  obtain ⟨fits, ran⟩ := serial.busy thread progress inside
  have nobody : ∀ other,
      ((Threads.mk (Function.update threads.point thread worker) shared).point other).inside =
        none := by
    intro other
    by_cases here : other = thread
    · rw [here, point_self, outside]
    · rw [point_other _ here, others other here]
  constructor
  · intro other
    rw [List.filter_append, List.map_append, serial.own]
    by_cases here : other = thread
    · simp [here, finished]
    · have elsewhere : ¬ thread = other := fun same => here same.symm
      simp [here, elsewhere]
  · intro other
    rw [nobody]
    by_cases here : other = thread
    · rw [here, point_self]
      simp [released]
    · rw [point_other _ here, ← serial.inside_iff, others other here]
  · intro _
    rw [serialRun_append, ran.ended ended]
    exact kept
  · intro other current isInside
    rw [nobody] at isInside
    cases isInside
  · intro entry member
    rcases List.mem_append.mp member with earlier | last
    · exact serial.fits entry earlier
    · rw [List.mem_singleton.mp last]
      exact fits

/-- One step of any thread: the history is the same, or one section longer. -/
theorem Serial.next (serial : Serial holds allowed data history threads)
    (exclusive : Exclusive holds locked threads.locking)
    (lockSteps : ∀ point shared next after, step point shared next after →
      LockStep holds locked point shared next after)
    (taken : GuardedStep holds step allowed (threads.point thread) threads.shared worker shared) :
    ∃ extended, Serial holds allowed data extended
      ⟨Function.update threads.point thread worker, shared⟩ := by
  have others : holds (threads.point thread).point → ∀ other, other ≠ thread →
      (threads.point other).inside = none := by
    intro held other elsewhere
    by_contra isInside
    have also := (serial.inside_iff other).mp isInside
    exact elsewhere (exclusive.atMostOne other thread also held)
  generalize same : threads.shared = before at taken
  generalize here : threads.point thread = current at taken
  cases taken with
  | around taken unchanged =>
      exact ⟨history, serial.around (by rw [here]) (by rw [here]) (by rw [here]; exact unchanged)
        (by rw [same])⟩
  | enter taken outside acquired fits =>
      have free := (lockSteps _ _ _ _ taken).free outside acquired
      have nobody : ∀ other, (threads.point other).inside = none := by
        intro other
        by_contra isInside
        have held := (serial.inside_iff other).mp isInside
        have isLocked := exclusive.locked_iff.mpr ⟨other, held⟩
        rw [Threads.locking, same] at isLocked
        exact free isLocked
      have dataNow := serial.idle nobody
      rw [same] at dataNow
      refine ⟨history, serial.only (fun other _ => nobody other) rfl (by rw [here]) acquired fits ?_⟩
      rw [← dataNow]
      exact Progress.ran_start _ _
  | act inside next =>
      rw [← here] at inside
      have held := (serial.inside_iff thread).mp (by rw [inside]; simp)
      obtain ⟨fits, ran⟩ := serial.busy thread _ inside
      rw [same] at ran
      refine ⟨history, serial.only (others held) rfl ?_ ?_ fits (ran.act next)⟩
      · rw [here]
        rfl
      · rw [here] at held
        exact held
  | leave taken held released inside ended =>
      rw [← here] at inside held
      exact ⟨_, serial.leave (others held) inside ended rfl (by rw [here]) released (by rw [same])⟩

end

/-- Sections under a lock happen one after another, whatever the threads are
and however they interleave. -/
theorem Reachable.serial
    (lockSteps : ∀ point shared next after, step point shared next after →
      LockStep holds locked point shared next after)
    (nobody : ∀ thread, ¬ holds (start.point thread).point) (free : ¬ locked start.shared.1)
    (outside : ∀ thread, (start.point thread).inside = none)
    (fresh : ∀ thread, (start.point thread).finished = [])
    (reached : Reachable (GuardedStep holds step allowed) start threads) :
    ∃ history, Serial holds allowed start.shared.2 history threads := by
  induction reached with
  | start =>
      refine ⟨[], ?_⟩
      constructor
      · intro thread
        rw [fresh]
        rfl
      · intro thread
        simp [outside thread, nobody thread]
      · intro _
        rfl
      · intro thread progress isInside
        rw [outside] at isInside
        cases isInside
      · intro entry member
        cases member
  | step reached thread taken inductionHypothesis =>
      obtain ⟨history, serial⟩ := inductionHypothesis
      exact serial.next (reached.locking.exclusive lockSteps nobody free) lockSteps taken

end

end Mcsos.Machine
