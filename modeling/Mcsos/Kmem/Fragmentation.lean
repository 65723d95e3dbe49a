import Mcsos.Kmem.Recovery

/-!
Contract: what a heap can still give. Blocks are cut and never joined, so at
any time every block lies within a block of any time before. A request can be
granted now or at some later time exactly where some block is large enough for
it now, whether it is free or in use.
-/

namespace Mcsos.Kmem

open Mcsos.Machine
open Mcsos.Machine.Prog

/-- Some block is large enough for the request, free or not. -/
def LargeEnough (w : KmemWorld) (request : UInt64) : Prop :=
  ∃ block, IsBlock w block ∧ request ≤ (w.deref block).size

/-- Clients can go on so that the request is granted. -/
def Obtainable (ledger : Ledger) (request : UInt64) : Prop :=
  ∃ later, EveryCall Ledger.next Ledger.Permitted later ledger ∧
    Granted (later.foldl Ledger.next ledger).world request

/-! ### Segments are only cut -/

abbrev FinerHeap : List Segment → List Segment → Prop := Finer Segment.address Segment.stop

theorem onSegments_finer (call : HeapCall) (segments : List Segment) :
    FinerHeap (call.onSegments segments) segments := by
  cases call with
  | kmalloc request =>
      show FinerHeap (allocate request.toNat segments).2 segments
      rcases allocate_cases request.toNat segments with ⟨same, -⟩ | ⟨before, segment, after, shape,
        fits, -, placed⟩
      · rw [same]
        exact Finer.refl segments
      · rw [placed, shape]
        exact Finer.replace Segment.address_le_stop (Segment.take_tiles fits)
  | kfree ptr => exact Finer.map (Segment.release_address _) (Segment.release_stop _) segments
  | write address byte => exact Finer.refl segments

/-- The heap is a list of segments, and the payload of every segment in use is
a pointer that was returned. -/
structure Traced (buffer size : UInt64) (ledger : Ledger) (segments : List Segment) : Prop where
  recorded : Recorded buffer size ledger segments
  owned : ∀ segment ∈ segments, segment.free = false →
    ∃ ptr ∈ ledger.returned, ptr.toNat = segment.payload

section

variable {buffer size : UInt64} {ledger : Ledger} {segments : List Segment}
  (usable : Buffer buffer size) (traced : Traced buffer size ledger segments)

include usable traced

theorem Traced.next {call : HeapCall} (permitted : ledger.Permitted call) :
    Traced buffer size (ledger.next call) (call.onSegments segments) := by
  refine ⟨traced.recorded.next usable permitted, ?_⟩
  intro segment member used
  cases call with
  | kmalloc request =>
      obtain ⟨answer, represents, -⟩ := traced.recorded.represents.kmalloc usable request
      have pointer := allocate_toNat represents.tiles usable.inMemory
      simp only [Ledger.next, answer, Option.toList_some, List.mem_append, List.mem_singleton]
      rcases used_of_mem_allocate member used with ⟨old, oldUsed⟩ | isPayload
      · obtain ⟨ptr, returned, begins⟩ := traced.owned segment old oldUsed
        exact ⟨ptr, Or.inr returned, begins⟩
      · exact ⟨_, Or.inl rfl, pointer.trans isPayload.symm⟩
  | kfree ptr =>
      obtain ⟨old, isOld, rfl⟩ := List.mem_map.mp member
      by_cases freed : old.payload = ptr.toNat
      · rw [Segment.release, if_pos freed] at used
        simp at used
      · rw [Segment.release_of_ne freed] at used ⊢
        exact traced.owned old isOld used
  | write address byte => exact absurd permitted id

theorem Traced.run {calls : List HeapCall}
    (permitted : EveryCall Ledger.next Ledger.Permitted calls ledger) :
    ∃ left, Traced buffer size (calls.foldl Ledger.next ledger) left ∧
      FinerHeap left segments := by
  induction calls generalizing ledger segments with
  | nil => exact ⟨segments, traced, Finer.refl segments⟩
  | cons call rest inductionHypothesis =>
      obtain ⟨left, reached, finer⟩ := inductionHypothesis (traced.next usable permitted.1) permitted.2
      exact ⟨left, reached, finer.trans (onSegments_finer call segments)⟩

/-- The block of a request that fits could be had now, or after it is
freed. -/
theorem Traced.obtainable {segment : Segment} (member : segment ∈ segments) {request : UInt64}
    (asked : request ≠ 0) (large : request.toNat ≤ segment.size) : Obtainable ledger request := by
  have represents := traced.recorded.represents
  have positive : 0 < request.toNat := toNat_pos_of_ne_zero asked
  cases status : segment.free with
  | true =>
      refine ⟨[], trivial, (represents.granted_iff usable request).mpr ?_⟩
      exact ⟨segment, member, status, positive, large⟩
  | false =>
      obtain ⟨ptr, returned, isPayload⟩ := traced.owned segment member status
      have after := (represents.kfree usable member isPayload).1
      refine ⟨[.kfree ptr], ⟨Or.inr returned, trivial⟩, (after.granted_iff usable request).mpr ?_⟩
      refine ⟨_, List.mem_map_of_mem member, ?_, positive, ?_⟩
      · rw [Segment.release, if_pos isPayload.symm]
      · rw [Segment.release_size]
        exact large

/-- A request that is granted at some time is no larger than a block now. -/
theorem Traced.large_of_obtainable {request : UInt64} (obtainable : Obtainable ledger request) :
    ∃ segment ∈ segments, request.toNat ≤ segment.size := by
  obtain ⟨later, permitted, granted⟩ := obtainable
  obtain ⟨left, reached, finer⟩ := traced.run usable permitted
  obtain ⟨piece, isPiece, fits⟩ :=
    (reached.recorded.represents.granted_iff usable request).mp granted
  obtain ⟨whole, isWhole, begins, ends⟩ := finer piece isPiece
  have room := fits.2.2
  unfold Segment.stop at ends
  exact ⟨whole, isWhole, by omega⟩

theorem Traced.largeEnough_iff (request : UInt64) :
    LargeEnough ledger.world request ↔ ∃ segment ∈ segments, request.toNat ≤ segment.size := by
  have represents := traced.recorded.represents
  constructor
  · rintro ⟨block, isBlock, large⟩
    obtain ⟨segment, member, rfl⟩ := represents.segment_of_isBlock isBlock
    rw [UInt64.le_iff_toNat_le, represents.size_toNat usable member] at large
    exact ⟨segment, member, large⟩
  · rintro ⟨segment, member, large⟩
    refine ⟨_, represents.isBlock usable member, ?_⟩
    rw [UInt64.le_iff_toNat_le, represents.size_toNat usable member]
    exact large

end

/-! ### Whole runs -/

theorem opened_traced {buffer size : UInt64} (usable : Buffer buffer size) (w : KmemWorld) :
    Traced buffer size (opened buffer size w) [⟨buffer.toNat, size.toNat - 24, true⟩] :=
  ⟨⟨kmemInit_represents usable w, by simp [opened]⟩, by simp⟩

/-- Wherever a run has got to, clients can still be granted a request exactly
where there is a block that large; and as blocks are only ever cut, what is out
of reach stays out of reach. -/
theorem obtainable_iff_largeEnough {buffer size : UInt64} (usable : Buffer buffer size)
    (w : KmemWorld) {calls : List HeapCall}
    (permitted : EveryCall Ledger.next Ledger.Permitted calls (opened buffer size w))
    {request : UInt64} (asked : request ≠ 0) :
    Obtainable (calls.foldl Ledger.next (opened buffer size w)) request ↔
      LargeEnough (calls.foldl Ledger.next (opened buffer size w)).world request := by
  obtain ⟨segments, traced, -⟩ := (opened_traced usable w).run usable permitted
  rw [traced.largeEnough_iff usable]
  constructor
  · exact traced.large_of_obtainable usable
  · rintro ⟨segment, member, large⟩
    exact traced.obtainable usable member asked large

theorem obtainable_iff_largeEnough_freedTwice :
    Obtainable (freedTwice.foldl Ledger.next (opened 4096 200 ⟨fun _ => 0xAA, 0⟩)) 112 ↔
      LargeEnough (freedTwice.foldl Ledger.next (opened 4096 200 ⟨fun _ => 0xAA, 0⟩)).world 112 :=
  obtainable_iff_largeEnough ⟨by decide, by decide, by decide⟩ _ (by decide +kernel) (by decide)

end Mcsos.Kmem
