import Mcsos.Kmem.Turns
import Mcsos.Thread.Nesting

/-!
Contract: the heap that `kmain` sets up in `kernel/core/kmain.c` never runs
out. Thread A takes 64 bytes and gives them back at each call, thread B 128,
and both assert that they got them; so does the probe before the threads are
created, and `kmain` for each of the four stacks. None of the assertions fails,
wherever the linker puts the heap and the functions, whatever memory held, and
however long the threads run.
-/

namespace Mcsos.Thread

open Mcsos.Machine
open Mcsos.Machine.Prog
open Mcsos.Kmem

/-- The addresses of `m8_boot_heap` and of the entry functions. -/
structure BootImage where
  m8BootHeap : UInt64
  threadA : UInt64
  threadB : UInt64
  threadC : UInt64
  threadD : UInt64

/-- `M8_BOOT_HEAP_SIZE`. -/
def m8BootHeapSize : UInt64 := 64 * 1024

/-- Objects have addresses, and the heap fits behind its own. -/
structure BootImage.Linked (image : BootImage) : Prop where
  heap : Buffer image.m8BootHeap m8BootHeapSize
  threadA : image.threadA ≠ 0
  threadB : image.threadB ≠ 0
  threadC : image.threadC ≠ 0
  threadD : image.threadD ≠ 0

/-- `m8_heap_bootstrap`: the heap is set up, and a probe taken and freed. -/
def m8HeapBootstrap (image : BootImage) (w : KmemWorld) : KmemWorld :=
  turn ((kmemInit image.m8BootHeap m8BootHeapSize).final w) 128

/-- `thread_a` and `thread_b`: a block is taken and freed, then the thread
yields. -/
def takesTurns (request : UInt64) : Code :=
  fun done => if done % 2 = 0 then .work (fun w => turn w request) else .yield

/-- The code at an entry. -/
def BootImage.code (image : BootImage) (entry : UInt64) : Code :=
  if entry = image.threadA then takesTurns 64
  else if entry = image.threadB then takesTurns 128
  else outputAndYield

/-- The part of `kmain` that creates the threads. -/
def createThreads (image : BootImage) (w : ThreadWorld) : Option ThreadWorld :=
  createAll [image.threadA, image.threadB, image.threadC, image.threadD]
    (threadSystemInit { w with kmem := m8HeapBootstrap image w.kmem })

/-! ### What the heap looks like -/

/-- The stacks, behind the block of the probe. -/
def threadStacks (base count : Nat) : List Segment :=
  (List.range count).map fun index => ⟨base + 152 + index * 4120, 4096, false⟩

/-- The free block behind so many stacks. -/
def behindStacks (base count : Nat) : Segment :=
  ⟨base + 152 + count * 4120, 65360 - count * 4120, true⟩

/-- The heap with so many of the stacks, the block of the probe in front. -/
def withStacks (base count : Nat) : List Segment :=
  ⟨base, 128, true⟩ :: (threadStacks base count ++ [behindStacks base count])

/-- Thread A has cut the block of the probe. -/
def probeCut (base : Nat) : List Segment :=
  ⟨base, 64, true⟩ :: ⟨base + 24 + 64, 40, true⟩ ::
    (threadStacks base 4 ++ [behindStacks base 4])

/-- Thread B has cut the block behind the stacks. -/
def bothServed (base : Nat) : List Segment :=
  ⟨base, 64, true⟩ :: ⟨base + 24 + 64, 40, true⟩ :: (threadStacks base 4 ++
    [⟨(behindStacks base 4).address, 128, true⟩,
      ⟨(behindStacks base 4).address + 24 + 128, (behindStacks base 4).size - 128 - 24, true⟩])

/-- The heaps that the threads leave each other. -/
def phases (base : Nat) : List (List Segment) := [withStacks base 4, probeCut base, bothServed base]

/-- A stack is never given to another request. -/
theorem threadStacks_unfit (base count request : Nat) :
    ∀ stack ∈ threadStacks base count, ¬ stack.Fits request := by
  intro stack member fits
  obtain ⟨index, -, rfl⟩ := List.mem_map.mp member
  exact absurd fits.1 (by simp)

theorem free_fits {address size request : Nat} (positive : 0 < request) (large : request ≤ size) :
    (⟨address, size, true⟩ : Segment).Fits request :=
  ⟨rfl, positive, large⟩

theorem small_unfit {address size request : Nat} {free : Bool} (small : size < request) :
    ¬ (⟨address, size, free⟩ : Segment).Fits request := fun fits => by
  have large : request ≤ size := fits.2.2
  omega

section

variable (base : Nat)

theorem turnA_withStacks : turnSegments 64 (withStacks base 4) = probeCut base :=
  turnSegments_cut (by decide) (by decide) _

theorem turnB_withStacks : turnSegments 128 (withStacks base 4) = withStacks base 4 :=
  turnSegments_whole (by decide) (by decide) (by decide) _

/-- Thread A's own block comes first. -/
theorem turnA_cut (rest : List Segment) :
    turnSegments 64 (⟨base, 64, true⟩ :: rest) = ⟨base, 64, true⟩ :: rest :=
  turnSegments_whole (by decide) (by decide) (by decide) _

/-- Thread B looks behind the stacks once the block of the probe is cut. -/
theorem turnB_cut (rest : List Segment) :
    turnSegments 128 (⟨base, 64, true⟩ :: ⟨base + 24 + 64, 40, true⟩ ::
        (threadStacks base 4 ++ rest)) =
      ⟨base, 64, true⟩ :: ⟨base + 24 + 64, 40, true⟩ ::
        (threadStacks base 4 ++ turnSegments 128 rest) := by
  rw [turnSegments, if_neg (small_unfit (by decide)), turnSegments, if_neg (small_unfit (by decide)),
    turnSegments_append (threadStacks_unfit base 4 128)]

theorem turnB_probeCut : turnSegments 128 (probeCut base) = bothServed base := by
  rw [probeCut, turnB_cut, behindStacks, turnSegments_cut (by decide) (by decide)]
  rfl

theorem turnB_bothServed : turnSegments 128 (bothServed base) = bothServed base := by
  rw [bothServed, turnB_cut, turnSegments_whole (by decide) (by decide) (by decide)]

end

theorem phases_turn {base : Nat} {segments : List Segment} (phase : segments ∈ phases base)
    {request : Nat} (known : request = 64 ∨ request = 128) :
    turnSegments request segments ∈ phases base := by
  simp only [phases, List.mem_cons, List.not_mem_nil, or_false] at phase ⊢
  rcases phase with rfl | rfl | rfl <;> rcases known with rfl | rfl
  · exact Or.inr (Or.inl (turnA_withStacks base))
  · exact Or.inl (turnB_withStacks base)
  · exact Or.inr (Or.inl (turnA_cut base _))
  · exact Or.inr (Or.inr (turnB_probeCut base))
  · exact Or.inr (Or.inr (turnA_cut base _))
  · exact Or.inr (Or.inr (turnB_bothServed base))

/-- The requests of both threads fit somewhere in all of them. -/
theorem phases_fit {base : Nat} {segments : List Segment} (phase : segments ∈ phases base)
    {request : Nat} (known : request = 64 ∨ request = 128) :
    ∃ segment ∈ segments, segment.Fits request := by
  have positive : 0 < request := by omega
  have small : request ≤ 128 := by omega
  simp only [phases, List.mem_cons, List.not_mem_nil, or_false] at phase
  rcases phase with rfl | rfl | rfl
  · exact ⟨_, List.mem_cons_self, free_fits positive small⟩
  · exact ⟨behindStacks base 4, by simp [probeCut],
      free_fits positive (small.trans (by decide))⟩
  · exact ⟨⟨(behindStacks base 4).address, 128, true⟩, by simp [bothServed],
      free_fits positive small⟩

/-- The heap while the threads run. -/
def Running (base : UInt64) (w : KmemWorld) : Prop :=
  ∃ segments ∈ phases base.toNat, Represents base m8BootHeapSize w segments

theorem Running.turn {base : UInt64} {w : KmemWorld} (heap : Buffer base m8BootHeapSize)
    (running : Running base w) {request : UInt64}
    (known : request = 64 ∨ request = 128) :
    Granted w request ∧ Running base (Kmem.turn w request) := by
  obtain ⟨segments, phase, represents⟩ := running
  have words : request.toNat = 64 ∨ request.toNat = 128 := by
    rcases known with rfl | rfl
    · exact Or.inl rfl
    · exact Or.inr rfl
  obtain ⟨granted, after⟩ := represents.turn_segments heap (phases_fit phase words)
  exact ⟨granted, _, phases_turn phase words, after⟩

/-- What is free in a phase. -/
theorem phases_freeTotal {base : Nat} {segments : List Segment} (phase : segments ∈ phases base) :
    48960 ≤ freeTotal segments := by
  have header : ∀ segment rest, freeTotal (segment :: rest) =
      (if segment.free then segment.size else 0) + freeTotal rest :=
    fun segment rest => List.sum_cons
  simp only [phases, List.mem_cons, List.not_mem_nil, or_false] at phase
  rcases phase with rfl | rfl | rfl
  · rw [withStacks, header, freeTotal_append, header]
    simp [behindStacks]
    omega
  · rw [probeCut, header, header, freeTotal_append, header]
    simp [behindStacks]
    omega
  · rw [bothServed, header, header, freeTotal_append, header, header]
    simp [behindStacks]
    omega

/-- However the threads take turns, almost three quarters of the heap are
free. -/
theorem Running.freeBytes {base : UInt64} {w : KmemWorld} (heap : Buffer base m8BootHeapSize)
    (running : Running base w) :
    ∃ total, kmemGetFreeBytes w = some total ∧ 48960 ≤ total.toNat := by
  obtain ⟨segments, phase, represents⟩ := running
  refine ⟨_, represents.freeBytes heap, ?_⟩
  rw [represents.freeTotal_toNat heap]
  exact phases_freeTotal phase

/-! ### Up to the first yield -/

theorem createOne {base size : UInt64} (heap : Buffer base size) {w : ThreadWorld}
    {segments : List Segment} (represents : Represents base size w.kmem segments) {entry : UInt64}
    (notNull : entry ≠ 0) (room : w.threadCount < maxThreads)
    (fits : ∃ segment ∈ segments, segment.Fits threadStackSize.toNat) :
    ∃ after, threadCreate entry w = some (some w.threadCount, after) ∧
      Represents base size after.kmem (allocate threadStackSize.toNat segments).2 ∧
      after.threadCount = w.threadCount + 1 := by
  obtain ⟨stack, present, answer⟩ := (represents.granted_iff heap threadStackSize).mpr fits
  have kept := (represents.kmalloc heap threadStackSize).2.1
  have returned : threadCreate entry w = some (some w.threadCount,
      { w.setThread w.threadCount
          { w.threads w.threadCount with entry := entry, stack := stack, state := .ready } with
        kmem := (kmalloc threadStackSize).final w.kmem
        threadCount := w.threadCount + 1 }) := by
    simp only [threadCreate, notNull, if_false, ge_iff_le, Nat.not_le.mpr room, answer, present]
    rfl
  exact ⟨_, returned, kept, rfl⟩

/-- The next stack is cut off the block behind the others. -/
theorem withStacks_allocate (base : Nat) {count : Nat} (below : count < 4) :
    (∃ segment ∈ withStacks base count, segment.Fits threadStackSize.toNat) ∧
      (allocate threadStackSize.toNat (withStacks base count)).2 = withStacks base (count + 1) := by
  have size : threadStackSize.toNat = 4096 := rfl
  have fits : (behindStacks base count).Fits 4096 :=
    free_fits (by decide) (by omega)
  have unfit : ∀ earlier ∈ (⟨base, 128, true⟩ : Segment) :: threadStacks base count,
      ¬ earlier.Fits 4096 := by
    intro earlier member
    rcases List.mem_cons.mp member with rfl | isStack
    · exact small_unfit (by decide)
    · exact threadStacks_unfit base count 4096 earlier isStack
  rw [size]
  refine ⟨⟨_, by simp [withStacks], fits⟩, ?_⟩
  have placed := allocate_first unfit fits []
  have splits : (behindStacks base count).size - 4096 > 24 := by
    show 65360 - count * 4120 - 4096 > 24
    omega
  rw [(behindStacks base count).take_split splits] at placed
  have next : (⟨(behindStacks base count).address + 24 + 4096,
      (behindStacks base count).size - 4096 - 24, true⟩ : Segment) = behindStacks base (count + 1) := by
    show (⟨base + 152 + count * 4120 + 24 + 4096, 65360 - count * 4120 - 4096 - 24, true⟩ : Segment) =
      ⟨base + 152 + (count + 1) * 4120, 65360 - (count + 1) * 4120, true⟩
    rw [Segment.mk.injEq]
    exact ⟨by omega, by omega, rfl⟩
  have stack : threadStacks base (count + 1) =
      threadStacks base count ++ [⟨(behindStacks base count).address, 4096, false⟩] := by
    simp [threadStacks, behindStacks, List.range_succ]
  rw [withStacks, ← List.cons_append, placed, next, withStacks, stack]
  simp

/-- The threads of a list of entries are created one after the other. -/
theorem createAll_withStacks {base : UInt64} (heap : Buffer base m8BootHeapSize)
    {entries : List UInt64} (notNull : ∀ entry ∈ entries, entry ≠ 0) {w : ThreadWorld}
    (few : w.threadCount + entries.length ≤ 4)
    (represents : Represents base m8BootHeapSize w.kmem (withStacks base.toNat w.threadCount)) :
    ∃ ready, createAll entries w = some ready ∧
      ready.threadCount = w.threadCount + entries.length ∧
      Represents base m8BootHeapSize ready.kmem (withStacks base.toNat ready.threadCount) := by
  induction entries generalizing w with
  | nil => exact ⟨w, rfl, rfl, represents⟩
  | cons entry rest inductionHypothesis =>
      rw [List.length_cons] at few
      have room : w.threadCount < maxThreads := by unfold maxThreads; omega
      obtain ⟨fits, leaves⟩ := withStacks_allocate base.toNat (show w.threadCount < 4 by omega)
      obtain ⟨after, returned, kept, count⟩ :=
        createOne heap represents (notNull entry List.mem_cons_self) room fits
      rw [leaves, ← count] at kept
      obtain ⟨ready, created, total, reached⟩ := inductionHypothesis
        (fun other member => notNull other (by simp [member])) (by omega) kept
      refine ⟨ready, ?_, by rw [total, count, List.length_cons]; omega, reached⟩
      simp only [createAll, returned]
      exact created

section

variable {image : BootImage} (linked : image.Linked)

include linked

/-- The probe is granted, and its block is the first one from then on. -/
theorem BootImage.Linked.bootstrap (w : KmemWorld) :
    Granted ((kmemInit image.m8BootHeap m8BootHeapSize).final w) 128 ∧
      Represents image.m8BootHeap m8BootHeapSize (m8HeapBootstrap image w)
        (withStacks image.m8BootHeap.toNat 0) := by
  have fresh := kmemInit_represents linked.heap w
  have size : (128 : UInt64).toNat = 128 := rfl
  have room : m8BootHeapSize.toNat - 24 = 65512 := rfl
  have fits : ∃ segment ∈ [(⟨image.m8BootHeap.toNat, m8BootHeapSize.toNat - 24, true⟩ : Segment)],
      segment.Fits (128 : UInt64).toNat :=
    ⟨_, List.mem_singleton_self _, free_fits (by decide) (by decide)⟩
  obtain ⟨granted, represents⟩ := fresh.turn_segments linked.heap fits
  rw [size, room, turnSegments_cut (by decide) (by decide)] at represents
  exact ⟨granted, represents⟩

theorem BootImage.Linked.createThreads (w : ThreadWorld) :
    ∃ ready, Thread.createThreads image w = some ready ∧ ready.threadCount = 4 ∧
      Running image.m8BootHeap ready.kmem := by
  have notNull : ∀ entry ∈ [image.threadA, image.threadB, image.threadC, image.threadD],
      entry ≠ 0 := by
    simp [linked.threadA, linked.threadB, linked.threadC, linked.threadD]
  have probed := (linked.bootstrap w.kmem).2
  obtain ⟨ready, created, count, represents⟩ :=
    createAll_withStacks linked.heap notNull
      (show (threadSystemInit { w with kmem := m8HeapBootstrap image w.kmem }).threadCount + 4 ≤ 4
        from Nat.le_refl 4) probed
  have four : ready.threadCount = 4 := count
  rw [four] at represents
  exact ⟨ready, created, four, _, by simp [phases], represents⟩

/-! ### While the threads run -/

omit linked in
/-- Whatever function runs, it leaves the heap alone or has a turn of 64 or of
128 bytes. -/
theorem BootImage.work_cases (image : BootImage) {callee : Callee} {done : Nat}
    {heap : KmemWorld → KmemWorld} (act : codeOf image.code callee done = .work heap) :
    heap = id ∨ ∃ request : UInt64, (request = 64 ∨ request = 128) ∧
      heap = fun w => turn w request := by
  have turns : ∀ request, takesTurns request done = .work heap →
      heap = fun w => turn w request := by
    intro request here
    unfold takesTurns at here
    split at here
    · exact (Act.work.inj here).symm
    · cases here
  cases callee with
  | kmain =>
      left
      cases done with
      | zero => cases act
      | succ done => exact (Act.work.inj act).symm
  | entry thread function =>
      simp only [codeOf, BootImage.code] at act
      split at act
      · exact Or.inr ⟨64, Or.inl rfl, turns 64 act⟩
      · split at act
        · exact Or.inr ⟨128, Or.inr rfl, turns 128 act⟩
        · left
          unfold outputAndYield at act
          split at act
          · exact (Act.work.inj act).symm
          · cases act

omit linked in
theorem threadYield_kmem (w : ThreadWorld) : (threadYield w).2.kmem = w.kmem := by
  unfold threadYield
  split
  · rfl
  · dsimp only
    split <;> split <;> rfl

theorem BootImage.Linked.step {machine : Machine}
    (running : Running image.m8BootHeap machine.world.kmem) :
    Running image.m8BootHeap (machine.step image.code).world.kmem := by
  cases stack : machine.stack with
  | nil =>
      simp only [Machine.step, stack]
      exact running
  | cons top below =>
      cases act : codeOf image.code top.callee top.done with
      | work heap =>
          rw [step_work stack act]
          rcases image.work_cases act with rfl | ⟨request, known, rfl⟩
          · exact running
          · exact (running.turn linked.heap known).2
      | ret =>
          simp only [Machine.step, stack, act]
          exact running
      | yield =>
          simp only [Machine.step, stack, act]
          have same := threadYield_kmem machine.world
          cases yielded : threadYield machine.world with
          | mk next world =>
              rw [yielded] at same
              cases next with
              | none => exact same ▸ running
              | some next => exact same ▸ running

theorem BootImage.Linked.run (steps : Nat) {machine : Machine}
    (running : Running image.m8BootHeap machine.world.kmem) :
    Running image.m8BootHeap (machine.run image.code steps).world.kmem := by
  induction steps generalizing machine with
  | zero => exact running
  | succ steps inductionHypothesis => exact inductionHypothesis (linked.step running)

end

/-- Every assertion of `kmain` and its threads about the heap holds: the probe
is granted, the four threads are created, and at any time from then on both
requests are granted, with most of the heap free. -/
theorem kmain_heap_assertions {image : BootImage} (linked : image.Linked) (w : ThreadWorld) :
    Granted ((kmemInit image.m8BootHeap m8BootHeapSize).final w.kmem) 128 ∧
      ∃ ready, createThreads image w = some ready ∧ ready.threadCount = 4 ∧
        ∀ steps, Granted ((booted ready).run image.code steps).world.kmem 64 ∧
          Granted ((booted ready).run image.code steps).world.kmem 128 ∧
          ∃ total, kmemGetFreeBytes ((booted ready).run image.code steps).world.kmem = some total ∧
            48960 ≤ total.toNat := by
  obtain ⟨ready, created, four, running⟩ := linked.createThreads w
  refine ⟨(linked.bootstrap w.kmem).1, ready, created, four, fun steps => ?_⟩
  have reached := linked.run steps
    (show Running image.m8BootHeap (booted ready).world.kmem from running)
  exact ⟨(reached.turn linked.heap (Or.inl rfl)).1, (reached.turn linked.heap (Or.inr rfl)).1,
    reached.freeBytes linked.heap⟩

/-- The higher half, with the functions in front of the heap. -/
def bootImage : BootImage :=
  ⟨0xFFFFFFFF80010000, 0xFFFFFFFF80001000, 0xFFFFFFFF80001080, 0xFFFFFFFF80001100,
    0xFFFFFFFF80001140⟩

theorem kmain_heap_assertions_bootImage :
    ∃ ready,
      createThreads bootImage ⟨fun _ => ⟨0, 0, .ready⟩, 0, 0, ⟨fun _ => 0xAA, 0⟩⟩ = some ready ∧
      ready.threadCount = 4 ∧
      ∀ steps, Granted ((booted ready).run bootImage.code steps).world.kmem 64 ∧
        Granted ((booted ready).run bootImage.code steps).world.kmem 128 ∧
        ∃ total, kmemGetFreeBytes ((booted ready).run bootImage.code steps).world.kmem =
          some total ∧ 48960 ≤ total.toNat :=
  (kmain_heap_assertions ⟨⟨by decide, by decide, by decide⟩, by decide, by decide, by decide,
    by decide⟩ _).2

end Mcsos.Thread
