import Mathlib.Data.List.Find
import Mcsos.Kmem.FirstFit

/-!
Contract: where the block headers of the heap begin.

`kmalloc` does not round requests, so a block that is cut behind a request that
is no multiple of 8 leaves a header, and later a payload, at an address that
`kmem_block_t` may not have. Requests that cut no block do no harm.
-/

namespace Mcsos.Kmem

open Mcsos.Machine
open Mcsos.Machine.Prog

/-- Every block header is where `kmem_block_t` requires it. -/
def HeadersAligned (w : KmemWorld) : Prop := ∀ block, IsBlock w block → block.toNat % 8 = 0

/-- Every header is aligned after the call, and so is the pointer it returns. -/
structure KeepsAligned (session : Session) (call : HeapCall) : Prop where
  headers : HeadersAligned (session.next call).world
  returned : ∀ request, call = .kmalloc request → ∀ ptr,
    (kmalloc request).result session.world = some ptr → ptr.toNat % 8 = 0

/-- The first block on the walk that suits the request has more than a header
to spare. -/
def KmemWorld.Cuts (w : KmemWorld) (request : UInt64) : Prop :=
  ∃ blocks block, Visits w w.gHead blocks ∧
    blocks.find? (fun block => w.Suits request block) = some block ∧
    (w.deref block).size.toNat > request.toNat + 24

/-- The call is no request for an odd number of bytes that cuts a block. -/
def CutsAtEight (session : Session) (call : HeapCall) : Prop :=
  ∀ request, call = .kmalloc request →
    request.toNat % 8 = 0 ∨ ¬ session.world.Cuts request

theorem Visits.unique {w : KmemWorld} {curr : UInt64} {blocks others : List UInt64}
    (visits : Visits w curr blocks) (otherVisits : Visits w curr others) : blocks = others := by
  induction blocks generalizing curr others with
  | nil =>
      cases others with
      | nil => rfl
      | cons other rest => exact absurd (otherVisits.1.symm.trans visits) otherVisits.2.1
  | cons block rest inductionHypothesis =>
      obtain ⟨rfl, present, later⟩ := visits
      cases others with
      | nil => exact absurd otherVisits present
      | cons other others =>
          obtain ⟨rfl, -, otherLater⟩ := otherVisits
          rw [inductionHypothesis later otherLater]

/-! ### Segments -/

/-- Every segment begins at a multiple of 8. -/
def AlignedSegments (segments : List Segment) : Prop :=
  ∀ segment ∈ segments, segment.address % 8 = 0

/-- The first segment that fits has more than a header to spare. -/
def CutsSegment (size : Nat) (segments : List Segment) : Prop :=
  ∃ segment, segments.find? (fun segment => segment.Fits size) = some segment ∧
    segment.size > size + 24

theorem take_aligned_iff {segment : Segment} (aligned : segment.address % 8 = 0) (size : Nat) :
    AlignedSegments (segment.take size) ↔ size % 8 = 0 ∨ ¬ segment.size > size + 24 := by
  by_cases splits : segment.size - size > 24
  · rw [segment.take_split splits]
    have large : segment.size > size + 24 := by omega
    simp only [AlignedSegments, List.forall_mem_cons, List.not_mem_nil, false_implies,
      implies_true, and_true, aligned, true_and, large, not_true_eq_false, or_false]
    omega
  · rw [segment.take_whole splits]
    have small : ¬ segment.size > size + 24 := by omega
    simp [AlignedSegments, aligned, small]

theorem allocate_aligned_iff {segments : List Segment} (aligned : AlignedSegments segments)
    (size : Nat) :
    AlignedSegments (allocate size segments).2 ↔ size % 8 = 0 ∨ ¬ CutsSegment size segments := by
  rcases allocate_cases size segments with
    ⟨same, none⟩ | ⟨before, segment, after, rfl, fits, earlier, placed⟩
  · have uncut : ¬ CutsSegment size segments := by
      rintro ⟨segment, found, -⟩
      exact none segment (List.mem_of_find?_eq_some found) (by simpa using List.find?_some found)
    rw [same]
    exact ⟨fun _ => Or.inr uncut, fun _ => aligned⟩
  · have first : (before ++ segment :: after).find? (fun segment => segment.Fits size) =
        some segment := by
      rw [List.find?_append, List.find?_eq_none.mpr (by simpa using earlier), Option.none_or,
        List.find?_cons_of_pos (by simpa using fits)]
    have cut : CutsSegment size (before ++ segment :: after) ↔ segment.size > size + 24 := by
      simp [CutsSegment, first]
    rw [placed, cut, ← take_aligned_iff (aligned segment (by simp))]
    constructor
    · intro all piece member
      exact all piece (by simp [member])
    · intro pieces other member
      simp only [List.mem_append] at member
      rcases member with (front | piece) | back
      · exact aligned other (by simp [front])
      · exact pieces other piece
      · exact aligned other (by simp [back])

/-! ### Blocks -/

section

variable {buffer size request : UInt64} {w : KmemWorld} {segments : List Segment}
  (usable : Buffer buffer size) (represents : Represents buffer size w segments)

include usable represents

theorem Represents.headersAligned_iff : HeadersAligned w ↔ AlignedSegments segments := by
  constructor
  · intro aligned segment member
    rw [← represents.tiles.pointer_toNat usable.inMemory member]
    exact aligned _ (represents.isBlock usable member)
  · intro aligned block isBlock
    obtain ⟨segment, member, rfl⟩ := represents.segment_of_isBlock isBlock
    rw [represents.tiles.pointer_toNat usable.inMemory member]
    exact aligned segment member

theorem Represents.segmentAt_pointer {segment : Segment} (member : segment ∈ segments) :
    w.segmentAt segment.pointer = segment := by
  obtain ⟨rest, -, header⟩ := represents.stored.header member
  have size := represents.size_toNat usable member
  rw [KmemWorld.segmentAt, represents.tiles.pointer_toNat usable.inMemory member, size, header]

theorem Represents.suits_iff (asked : request ≠ 0) {segment : Segment}
    (member : segment ∈ segments) :
    w.Suits request segment.pointer ↔ segment.Fits request.toNat := by
  rw [← segmentAt_fits_iff asked, represents.segmentAt_pointer usable member]

theorem Represents.cuts_iff (asked : request ≠ 0) :
    w.Cuts request ↔ CutsSegment request.toNat segments := by
  have visits := represents.visits usable
  have search : (segments.map Segment.pointer).find? (fun block => w.Suits request block) =
      (segments.find? fun segment => segment.Fits request.toNat).map Segment.pointer := by
    rw [List.find?_map]
    congr 1
    apply List.find?_congr
    intro segment member
    exact decide_eq_decide.mpr (represents.suits_iff usable asked member)
  constructor
  · rintro ⟨blocks, block, walk, found, large⟩
    rw [walk.unique visits, search, Option.map_eq_some_iff] at found
    obtain ⟨segment, first, rfl⟩ := found
    rw [represents.size_toNat usable (List.mem_of_find?_eq_some first)] at large
    exact ⟨segment, first, large⟩
  · rintro ⟨segment, first, large⟩
    refine ⟨_, segment.pointer, visits, by rw [search, first]; rfl, ?_⟩
    rwa [represents.size_toNat usable (List.mem_of_find?_eq_some first)]

end

/-! ### Whole runs -/

section

variable {buffer size : UInt64} {session : Session} {segments : List Segment}
  (holdings : Holdings buffer size session segments) (usable : Buffer buffer size)
  (aligned : AlignedSegments segments)

include holdings usable aligned

/-- A pointer that is returned is a header's distance behind an aligned
segment. -/
theorem Holdings.returned_aligned {request ptr : UInt64}
    (answer : (Kmem.kmalloc request).result session.world = some ptr) : ptr.toNat % 8 = 0 := by
  obtain ⟨given, represents, -⟩ := holdings.represents.kmalloc usable request
  rw [answer, Option.some.injEq] at given
  by_cases null : ptr = 0
  · rw [null]
    rfl
  · rw [given] at null
    obtain ⟨⟨segment, member, -, begins⟩, -⟩ :=
      allocate_pointer represents.tiles usable.inMemory null
    have here := aligned segment member
    rw [given, begins, Segment.payload]
    omega

theorem Holdings.keepsAligned_iff {call : HeapCall} (allowed : session.Allowed call) :
    (KeepsAligned session call ↔ CutsAtEight session call) ∧
      (KeepsAligned session call → AlignedSegments (call.onSegments segments)) := by
  have after := (holdings.undisturbed usable allowed).2.represents
  have headers := after.headersAligned_iff usable
  refine ⟨?_, fun keeps => headers.mp keeps.headers⟩
  have keeps_iff : KeepsAligned session call ↔ AlignedSegments (call.onSegments segments) := by
    rw [← headers]
    refine ⟨fun keeps => keeps.headers, fun headers => ⟨headers, ?_⟩⟩
    intro request isRequest ptr answer
    subst isRequest
    exact holdings.returned_aligned usable aligned answer
  rw [keeps_iff]
  cases call with
  | kmalloc request =>
      show AlignedSegments (allocate request.toNat segments).2 ↔ _
      rw [allocate_aligned_iff aligned]
      by_cases asked : request = 0
      · subst asked
        refine ⟨?_, fun _ => Or.inl rfl⟩
        rintro - _ ⟨⟩
        exact Or.inl rfl
      · rw [← holdings.represents.cuts_iff usable asked]
        constructor
        · rintro either _ ⟨⟩
          exact either
        · intro cuts
          exact cuts request rfl
  | kfree ptr =>
      have cutsNone : CutsAtEight session (.kfree ptr) := by
        intro request impossible
        cases impossible
      have released : AlignedSegments (segments.map (Segment.release ptr.toNat)) := by
        intro segment member
        obtain ⟨old, isOld, rfl⟩ := List.mem_map.mp member
        rw [Segment.release_address]
        exact aligned old isOld
      exact iff_of_true released cutsNone
  | write address byte =>
      have cutsNone : CutsAtEight session (.write address byte) := by
        intro request impossible
        cases impossible
      exact iff_of_true aligned cutsNone

end

/-- In a buffer that is aligned, every header and every pointer of a run is
aligned exactly where no request cuts a block unless it is a multiple of 8. -/
theorem run_keepsAligned_iff {buffer size : UInt64} (usable : Buffer buffer size)
    (bufferAligned : buffer.toNat % 16 = 0) (w : KmemWorld) {calls : List HeapCall}
    (allowed : EveryCall Session.next Session.Allowed calls (started buffer size w)) :
    (HeadersAligned (started buffer size w).world ∧
        EveryCall Session.next KeepsAligned calls (started buffer size w)) ↔
      EveryCall Session.next CutsAtEight calls (started buffer size w) := by
  have holdings := started_holdings usable w
  have first : AlignedSegments [⟨buffer.toNat, size.toNat - 24, true⟩] := by
    simp only [AlignedSegments, List.forall_mem_singleton]
    omega
  have agree : EveryCall Session.next KeepsAligned calls (started buffer size w) ↔
      EveryCall Session.next CutsAtEight calls (started buffer size w) := by
    refine everyCall_iff
      (fun session => ∃ segments, Holdings buffer size session segments ∧ AlignedSegments segments)
      ?_ ⟨_, holdings, first⟩ allowed
    intro session call held keepsTo
    obtain ⟨segments, holdings, aligned⟩ := held
    obtain ⟨agree, keeps⟩ := holdings.keepsAligned_iff usable aligned keepsTo
    exact ⟨agree, fun holds => ⟨_, (holdings.undisturbed usable keepsTo).2, keeps holds⟩⟩
  rw [agree]
  exact and_iff_right ((holdings.represents.headersAligned_iff usable).mpr first)

/-- A request for 170 bytes that takes the one block of 176 whole, then requests
for multiples of 8. -/
def roundedRequests : List HeapCall := [.kmalloc 170, .kfree 4120, .kmalloc 40, .kmalloc 64]

theorem newHeap_uncut : ¬ newHeap.Cuts 170 := by
  rintro ⟨blocks, block, visits, found, large⟩
  rw [visits.unique newHeap_tiled.visits] at found
  obtain rfl := List.mem_singleton.mp (List.mem_of_find?_eq_some found)
  exact absurd large (by decide +kernel)

theorem run_keepsAligned_roundedRequests :
    EveryCall Session.next KeepsAligned roundedRequests (started 4096 200 ⟨fun _ => 0xAA, 0⟩) := by
  have cuts : EveryCall Session.next CutsAtEight roundedRequests
      (started 4096 200 ⟨fun _ => 0xAA, 0⟩) := by
    refine ⟨?_, ?_, ?_, ?_, trivial⟩
    · rintro _ ⟨⟩
      exact Or.inr newHeap_uncut
    · rintro _ ⟨⟩
    · rintro _ ⟨⟩
      exact Or.inl rfl
    · rintro _ ⟨⟩
      exact Or.inl rfl
  exact ((run_keepsAligned_iff ⟨by decide, by decide, by decide⟩ (by decide) _
    (by decide +kernel)).mpr cuts).2

/-- A request for 5 bytes: the header behind them is at 4125. -/
theorem oddRequest_misaligns :
    ¬ ∀ (buffer size : UInt64) (w : KmemWorld) (calls : List HeapCall), Buffer buffer size →
      buffer.toNat % 16 = 0 →
      EveryCall Session.next Session.Allowed calls (started buffer size w) →
      EveryCall Session.next KeepsAligned calls (started buffer size w) := by
  intro always
  have keeps := always 4096 200 ⟨fun _ => 0xAA, 0⟩ [.kmalloc 5] ⟨by decide, by decide, by decide⟩
    (by decide) ⟨trivial, trivial⟩
  have head : ((started 4096 200 ⟨fun _ => 0xAA, 0⟩).next (.kmalloc 5)).world.gHead = 4096 := by
    decide +kernel
  have next : (((started 4096 200 ⟨fun _ => 0xAA, 0⟩).next (.kmalloc 5)).world.deref 4096).next =
      4125 := by
    decide +kernel
  have first : IsBlock ((started 4096 200 ⟨fun _ => 0xAA, 0⟩).next (.kmalloc 5)).world 4096 := by
    rw [← head]
    exact IsBlock.head (by rw [head]; decide)
  have second : IsBlock ((started 4096 200 ⟨fun _ => 0xAA, 0⟩).next (.kmalloc 5)).world 4125 := by
    rw [← next]
    exact IsBlock.next first (by rw [next]; decide)
  exact absurd (keeps.1.headers 4125 second) (by decide)

end Mcsos.Kmem
