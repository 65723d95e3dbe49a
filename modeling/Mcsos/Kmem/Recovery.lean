import Mcsos.Kmem.Walk

/-!
Contract: what is left of the heap once everything is freed. Every block is
free and every byte is in one, but blocks are never merged: the whole buffer
can be had again only where no request ever cut the first block in two.
-/

namespace Mcsos.Kmem

open Mcsos.Machine
open Mcsos.Machine.Prog

/-- The request is granted: `kmalloc` returns, and not null. -/
def Granted (w : KmemWorld) (request : UInt64) : Prop :=
  ∃ ptr, ptr ≠ 0 ∧ (kmalloc request).result w = some ptr

/-- The heap can give all that it could when it was new. -/
structure Recovered (size : UInt64) (w : KmemWorld) : Prop where
  freeBytes : kmemGetFreeBytes w = some (size - sizeofKmemBlock)
  grants : ∀ request, request ≠ 0 → request ≤ size - sizeofKmemBlock → Granted w request

/-- All blocks are free: all but their headers is counted as free, and a
request is granted where one block is large enough for it. -/
structure Unused (size : UInt64) (w : KmemWorld) (blocks : List UInt64) : Prop where
  visits : Visits w w.gHead blocks
  free : ∀ block ∈ blocks, (w.deref block).free = true
  freeBytes : ∃ total, kmemGetFreeBytes w = some total ∧
    total.toNat + blocks.length * 24 = size.toNat
  grants : ∀ request, request ≠ 0 →
    (Granted w request ↔ ∃ block ∈ blocks, request ≤ (w.deref block).size)

/-- The call is no request that cuts an unused buffer of one block in two. -/
def LeavesWhole (size : UInt64) (session : Session) (call : HeapCall) : Prop :=
  ∀ request, call = .kmalloc request → session.live = [] →
    request = 0 ∨ size.toNat ≤ request.toNat + 48

/-! ### Segments in use -/

/-- Every segment in use is held by a live allocation. -/
structure Accounted (buffer size : UInt64) (session : Session) (segments : List Segment) :
    Prop where
  holdings : Holdings buffer size session segments
  owned : ∀ segment ∈ segments, segment.free = false →
    ∃ allocation ∈ session.live, allocation.ptr.toNat = segment.payload

section

variable {buffer size : UInt64} {session : Session} {segments : List Segment}
  (accounted : Accounted buffer size session segments)

include accounted

theorem Accounted.live_eq_nil_iff :
    session.live = [] ↔ ∀ segment ∈ segments, segment.free = true := by
  constructor
  · intro nothing segment member
    by_contra used
    obtain ⟨allocation, live, -⟩ := accounted.owned segment member (by simpa using used)
    simp [nothing] at live
  · intro free
    rw [List.eq_nil_iff_forall_not_mem]
    intro allocation live
    obtain ⟨segment, member, used, -⟩ := accounted.holdings.held allocation live
    rw [free segment member] at used
    simp at used

variable (usable : Buffer buffer size)

include usable

theorem Accounted.kmalloc_owned (request : UInt64) :
    ∀ segment ∈ (allocate request.toNat segments).2, segment.free = false →
      ∃ allocation ∈ (session.next (.kmalloc request)).live,
        allocation.ptr.toNat = segment.payload := by
  intro segment member used
  obtain ⟨answer, represents, -⟩ := accounted.holdings.represents.kmalloc usable request
  have pointer := allocate_toNat represents.tiles usable.inMemory
  simp only [Session.next, answer]
  rcases used_of_mem_allocate member used with ⟨old, oldUsed⟩ | isPayload
  · obtain ⟨allocation, live, begins⟩ := accounted.owned segment old oldUsed
    refine ⟨allocation, ?_, begins⟩
    split
    · exact live
    · exact List.mem_cons_of_mem _ live
  · have notNull : UInt64.ofNat (allocate request.toNat segments).1 ≠ 0 := by
      intro null
      rw [null, ← isPayload] at pointer
      exact absurd pointer (Nat.succ_ne_zero _).symm
    rw [if_neg notNull]
    exact ⟨_, List.mem_cons_self, pointer.trans isPayload.symm⟩

omit usable in
theorem Accounted.kfree_owned (ptr : UInt64) :
    ∀ segment ∈ segments.map (Segment.release ptr.toNat), segment.free = false →
      ∃ allocation ∈ (session.next (.kfree ptr)).live,
        allocation.ptr.toNat = segment.payload := by
  intro released member used
  obtain ⟨segment, isSegment, rfl⟩ := List.mem_map.mp member
  by_cases freed : segment.payload = ptr.toNat
  · rw [Segment.release, if_pos freed] at used
    simp at used
  · rw [Segment.release_of_ne freed] at used ⊢
    obtain ⟨allocation, live, begins⟩ := accounted.owned segment isSegment used
    refine ⟨allocation, List.mem_filter.mpr ⟨live, ?_⟩, begins⟩
    apply decide_eq_true
    rintro rfl
    exact freed begins.symm

theorem Accounted.next {call : HeapCall} (allowed : session.Allowed call) :
    Accounted buffer size (session.next call) (call.onSegments segments) := by
  refine ⟨(accounted.holdings.undisturbed usable allowed).2, ?_⟩
  cases call with
  | kmalloc request => exact accounted.kmalloc_owned usable request
  | kfree ptr => exact accounted.kfree_owned ptr
  | write address byte => exact accounted.owned

end

/-! ### What an unused heap grants -/

section

variable {buffer size : UInt64} {w : KmemWorld} {segments : List Segment}

/-- The one segment of a heap spans the buffer. -/
theorem Represents.single_size {segment : Segment}
    (represents : Represents buffer size w [segment]) : segment.size + 24 = size.toNat := by
  obtain ⟨begins, ends⟩ := represents.tiles
  have whole : segment.stop = buffer.toNat + size.toNat := ends
  unfold Segment.stop at whole
  omega

variable (usable : Buffer buffer size) (represents : Represents buffer size w segments)

include usable represents

theorem Represents.granted_iff (request : UInt64) :
    Granted w request ↔ ∃ segment ∈ segments, segment.Fits request.toNat := by
  obtain ⟨answer, after, -⟩ := represents.kmalloc usable request
  have pointer := allocate_toNat after.tiles usable.inMemory
  rcases allocate_cases request.toNat segments with ⟨same, none⟩ | ⟨before, taken, rest, rfl, fits, -,
    placed⟩
  · rw [same] at answer
    constructor
    · rintro ⟨ptr, notNull, granted⟩
      rw [answer, Option.some.injEq] at granted
      exact absurd granted.symm notNull
    · rintro ⟨segment, member, fits⟩
      exact absurd fits (none segment member)
  · constructor
    · intro _
      exact ⟨taken, by simp, fits⟩
    · intro _
      refine ⟨_, ?_, answer⟩
      intro null
      rw [null, placed] at pointer
      exact absurd pointer (Nat.succ_ne_zero _).symm

theorem Represents.freeTotal_toNat :
    (UInt64.ofNat (freeTotal segments)).toNat = freeTotal segments := by
  have bound := represents.freeTotal_le usable
  have small := size.toNat_lt
  rw [UInt64.toNat_ofNat']
  omega

section

variable (free : ∀ segment ∈ segments, segment.free = true)

include free

omit usable in
theorem Represents.freeTotal_add :
    freeTotal segments + segments.length * 24 = size.toNat := by
  have whole := represents.tiles.sizeTotal_add
  rw [freeTotal_of_free free]
  exact Nat.add_left_cancel whole

theorem Represents.granted_of_free {request : UInt64} (asked : request ≠ 0) :
    Granted w request ↔ ∃ segment ∈ segments, request.toNat ≤ segment.size := by
  have positive : 0 < request.toNat := toNat_pos_of_ne_zero asked
  rw [represents.granted_iff usable]
  constructor
  · rintro ⟨segment, member, fits⟩
    exact ⟨segment, member, fits.2.2⟩
  · rintro ⟨segment, member, large⟩
    exact ⟨segment, member, free segment member, positive, large⟩

theorem Represents.unused : Unused size w (segments.map Segment.pointer) := by
  refine ⟨represents.visits usable, ?_, ⟨_, represents.freeBytes usable, ?_⟩, ?_⟩
  · intro block isBlock
    obtain ⟨segment, member, rfl⟩ := List.mem_map.mp isBlock
    obtain ⟨rest, -, header⟩ := represents.stored.header member
    rw [header]
    exact free segment member
  · rw [represents.freeTotal_toNat usable, List.length_map]
    exact represents.freeTotal_add free
  · intro request asked
    rw [represents.granted_of_free usable free asked]
    constructor
    · rintro ⟨segment, member, large⟩
      refine ⟨_, List.mem_map_of_mem member, ?_⟩
      rw [UInt64.le_iff_toNat_le, represents.size_toNat usable member]
      exact large
    · rintro ⟨block, isBlock, large⟩
      obtain ⟨segment, member, rfl⟩ := List.mem_map.mp isBlock
      rw [UInt64.le_iff_toNat_le, represents.size_toNat usable member] at large
      exact ⟨segment, member, large⟩

/-- An unused heap gives all that it could when it was new where it is one
block. -/
theorem Represents.recovered_iff : Recovered size w ↔ segments.length = 1 := by
  have payload : (size - sizeofKmemBlock).toNat = size.toNat - 24 :=
    UInt64.toNat_sub_of_le _ _ (UInt64.le_iff_toNat_le.mpr usable.holdsHeader)
  have room := usable.holdsHeader
  have total := represents.freeTotal_add free
  have totalWord := represents.freeTotal_toNat usable
  constructor
  · intro recovered
    have counted := represents.freeBytes usable
    rw [recovered.freeBytes, Option.some.injEq] at counted
    rw [← counted, payload] at totalWord
    omega
  · intro one
    constructor
    · rw [represents.freeBytes usable, Option.some.injEq]
      apply UInt64.toNat.inj
      rw [totalWord, payload]
      omega
    · intro request asked large
      obtain ⟨segment, rfl⟩ := List.length_eq_one_iff.mp one
      rw [represents.granted_of_free usable free asked]
      have spans := represents.single_size
      rw [UInt64.le_iff_toNat_le, payload] at large
      exact ⟨segment, by simp, by omega⟩

end

end

/-! ### Whole runs -/

theorem leavesWhole_kmalloc_iff (size : UInt64) (session : Session) (request : UInt64) :
    LeavesWhole size session (.kmalloc request) ↔
      (session.live = [] → request.toNat = 0 ∨ size.toNat ≤ request.toNat + 48) := by
  have zero : request = 0 ↔ request.toNat = 0 := UInt64.toNat_inj.symm
  rw [← zero]
  constructor
  · intro whole
    exact whole request rfl
  · intro whole _ same
    cases same
    exact whole

/-- The one block is cut in two where it is free and more than a header is
left of it, which is while nothing is outstanding. -/
theorem Accounted.single_stays_iff {buffer size : UInt64} {session : Session} {segment : Segment}
    (accounted : Accounted buffer size session [segment]) (request : UInt64) :
    (allocate request.toNat [segment]).2.length = 1 ↔
      LeavesWhole size session (.kmalloc request) := by
  have spans := accounted.holdings.represents.single_size
  have unused : session.live = [] ↔ segment.free = true := by
    rw [accounted.live_eq_nil_iff]
    simp
  rw [length_allocate_singleton, leavesWhole_kmalloc_iff, unused]
  unfold Segment.Fits
  constructor
  · intro whole free
    by_contra neither
    exact whole ⟨free, by omega, by omega⟩ (by omega)
  · rintro whole ⟨free, positive, fits⟩
    have large := whole free
    omega

section

variable {buffer size : UInt64} {session : Session} {segments : List Segment}
  (accounted : Accounted buffer size session segments)

include accounted

/-- A heap is one block after a call where it was one and the call leaves it
whole. -/
theorem Accounted.one_block_iff (call : HeapCall) :
    (call.onSegments segments).length = 1 ↔ segments.length = 1 ∧ LeavesWhole size session call := by
  cases call with
  | kmalloc request =>
      show (allocate request.toNat segments).2.length = 1 ↔ _
      rcases segments with _ | ⟨segment, _ | ⟨other, rest⟩⟩
      · simp [allocate]
      · rw [accounted.single_stays_iff request]
        simp
      · have grows := length_le_allocate request.toNat (segment :: other :: rest)
        simp only [List.length_cons] at grows ⊢
        constructor
        · intro one
          omega
        · intro impossible
          omega
  | kfree ptr => simp [HeapCall.onSegments, LeavesWhole]
  | write address byte => simp [HeapCall.onSegments, LeavesWhole]

theorem Accounted.run (usable : Buffer buffer size) {calls : List HeapCall}
    (allowed : EveryCall Session.next Session.Allowed calls session) :
    ∃ left, Accounted buffer size (calls.foldl Session.next session) left ∧
      (left.length = 1 ↔
        segments.length = 1 ∧ EveryCall Session.next (LeavesWhole size) calls session) := by
  induction calls generalizing session segments with
  | nil => exact ⟨segments, accounted, by simp [EveryCall]⟩
  | cons call rest inductionHypothesis =>
      rcases inductionHypothesis (accounted.next usable allowed.1) allowed.2 with
        ⟨left, reached, one⟩
      refine ⟨left, reached, ?_⟩
      rw [one, accounted.one_block_iff call, and_assoc]
      rfl

end

/-- Once everything is freed, every block is free and all but the headers can
be had again, but blocks are not merged: the heap is what it was when it was
new exactly where no request, made while nothing was outstanding, cut the
buffer in two. -/
theorem freed_heap_recovers_iff {buffer size : UInt64} (usable : Buffer buffer size)
    (w : KmemWorld) {calls : List HeapCall}
    (allowed : EveryCall Session.next Session.Allowed calls (started buffer size w))
    (freed : (calls.foldl Session.next (started buffer size w)).live = []) :
    (∃ blocks, Unused size (calls.foldl Session.next (started buffer size w)).world blocks) ∧
      (Recovered size (calls.foldl Session.next (started buffer size w)).world ↔
        EveryCall Session.next (LeavesWhole size) calls (started buffer size w)) := by
  have entry : Accounted buffer size (started buffer size w)
      [⟨buffer.toNat, size.toNat - 24, true⟩] :=
    ⟨started_holdings usable w, by simp⟩
  obtain ⟨left, accounted, one⟩ := entry.run usable allowed
  have represents := accounted.holdings.represents
  have free := accounted.live_eq_nil_iff.mp freed
  refine ⟨⟨_, represents.unused usable free⟩, ?_⟩
  rw [represents.recovered_iff usable free, one]
  simp

/-- A request that leaves less than a header of the buffer comes first. -/
def takenWhole : List HeapCall :=
  [.kmalloc 160, .kmalloc 10, .write 4120 7, .kfree 4120, .kmalloc 0]

theorem freed_heap_recovers_takenWhole :
    Recovered 200 (takenWhole.foldl Session.next (started 4096 200 ⟨fun _ => 0xAA, 0⟩)).world := by
  refine (freed_heap_recovers_iff ⟨by decide, by decide, by decide⟩ _ (by decide +kernel)
    (by decide +kernel)).2.mpr ⟨?_, ?_, ?_, ?_, ?_, trivial⟩
  · rintro _ ⟨⟩ _
    exact Or.inr (by decide)
  · rintro _ ⟨⟩ unused
    exact absurd unused (by decide +kernel)
  · rintro _ ⟨⟩
  · rintro _ ⟨⟩
  · rintro _ ⟨⟩ _
    exact Or.inl rfl

/-- One small block, taken and freed, and the heap has 24 bytes less than it
had. -/
theorem freed_heap_stays_split :
    ¬ ∀ (buffer size : UInt64) (w : KmemWorld) (calls : List HeapCall), Buffer buffer size →
      EveryCall Session.next Session.Allowed calls (started buffer size w) →
      (calls.foldl Session.next (started buffer size w)).live = [] →
      Recovered size (calls.foldl Session.next (started buffer size w)).world := by
  intro always
  have recovered := always 4096 200 ⟨fun _ => 0, 0⟩ [.kmalloc 10, .kfree 4120]
    ⟨by decide, by decide, by decide⟩ (by decide +kernel) (by decide +kernel)
  exact absurd recovered.freeBytes (by decide +kernel)

end Mcsos.Kmem
