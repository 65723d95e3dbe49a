import Mcsos.Kmem.Separation

/-!
Contract: the list of blocks tiles the buffer of the heap, in every run of
`kmalloc` and `kfree`, also where clients free a pointer twice or long after
it was freed. The walks through the list end, block starts stay block starts,
and the free bytes never count more than the buffer holds.
-/

namespace Mcsos.Kmem

open Mcsos.Machine
open Mcsos.Machine.Prog

/-- Following `next` from `curr` on visits the blocks in this order, and
ends. -/
def Visits (w : KmemWorld) : UInt64 → List UInt64 → Prop
  | curr, [] => curr = 0
  | curr, block :: rest => curr = block ∧ block ≠ 0 ∧ Visits w (w.deref block).next rest

/-- Where a block ends, by its header. -/
def KmemWorld.blockEnd (w : KmemWorld) (block : UInt64) : Nat :=
  block.toNat + 24 + (w.deref block).size.toNat

/-- The blocks that are visited from `g_head` on: the first is at the start of
the buffer, each begins where the one before it ends, the last ends at the end
of the buffer. -/
structure TiledBy (buffer size : UInt64) (w : KmemWorld) (blocks : List UInt64) : Prop where
  visits : Visits w w.gHead blocks
  tiles : Tiles UInt64.toNat w.blockEnd buffer.toNat blocks (buffer.toNat + size.toNat)
  increasing : blocks.Pairwise fun block later => block.toNat < later.toNat
  total : (blocks.map fun block => 24 + (w.deref block).size.toNat).sum = size.toNat

/-- The list tiles the buffer, and the walks through it end. -/
structure Walkable (buffer size : UInt64) (w : KmemWorld) : Prop where
  tiled : ∃ blocks, TiledBy buffer size w blocks
  kmallocEnds : ∀ request, ((kmalloc request).result w).isSome
  freeBytesEnds : ∃ total, kmemGetFreeBytes w = some total ∧ total.toNat ≤ size.toNat - 24

/-! ### Walks through stored segments -/

theorem Visits.isBlock {w : KmemWorld} {blocks : List UInt64} {curr : UInt64}
    (visits : Visits w curr blocks) (reached : curr ≠ 0 → IsBlock w curr) {block : UInt64}
    (member : block ∈ blocks) : IsBlock w block := by
  induction blocks generalizing curr with
  | nil => simp at member
  | cons head rest inductionHypothesis =>
      obtain ⟨rfl, present, visits⟩ := visits
      rcases List.mem_cons.mp member with rfl | later
      · exact reached present
      · exact inductionHypothesis visits (IsBlock.next (reached present)) later

section

variable {w : KmemWorld} {segments : List Segment}
  (stored : Stored w segments) (present : ∀ segment ∈ segments, segment.pointer ≠ 0)

include stored present

theorem Stored.visits : Visits w (pointerTo segments) (segments.map Segment.pointer) := by
  induction segments with
  | nil => rfl
  | cons segment rest inductionHypothesis =>
      refine ⟨rfl, present segment (by simp), ?_⟩
      rw [stored.1]
      apply inductionHypothesis stored.2
      intro later member
      exact present later (by simp [member])

/-- The walk of `kmem_get_free_bytes` adds up the free segments. -/
theorem Stored.freeBytesFrom {rounds : Nat} (enough : segments.length < rounds) (total : UInt64) :
    Kmem.freeBytesFrom w rounds (pointerTo segments) total =
      some (total + UInt64.ofNat (freeTotal segments)) := by
  induction segments generalizing rounds total with
  | nil =>
      rcases rounds with _ | rounds
      · simp at enough
      · simp [Kmem.freeBytesFrom, pointerTo, freeTotal]
  | cons segment rest inductionHypothesis =>
      rcases rounds with _ | rounds
      · simp at enough
      · have later := inductionHypothesis stored.2
          (fun other member => present other (by simp [member]))
          (show rest.length < rounds by simpa using enough)
        have here := present segment (by simp)
        have step : freeTotal (segment :: rest) =
            (if segment.free then segment.size else 0) + freeTotal rest := List.sum_cons
        show Kmem.freeBytesFrom w (rounds + 1) segment.pointer total = _
        simp only [Kmem.freeBytesFrom, here, if_false, stored.1, later]
        rw [step, UInt64.ofNat_add, ← UInt64.add_assoc]
        cases segment.free with
        | true => rfl
        | false =>
            show some (total + _) = some (total + 0 + _)
            rw [UInt64.add_zero]

end

section

variable {buffer size : UInt64} {w : KmemWorld} {segments : List Segment}
  (usable : Buffer buffer size) (represents : Represents buffer size w segments)

include usable represents

theorem Represents.pointer_ne_zero : ∀ segment ∈ segments, segment.pointer ≠ 0 := by
  intro segment member null
  have place := represents.tiles.pointer_toNat usable.inMemory member
  have inside := (represents.tiles.inside Segment.address_le_stop member).1
  apply usable.notNull
  apply UInt64.toNat.inj
  rw [null] at place
  show buffer.toNat = 0
  have zero : (0 : UInt64).toNat = 0 := rfl
  omega

theorem Represents.visits : Visits w w.gHead (segments.map Segment.pointer) := by
  rw [represents.head]
  exact represents.stored.visits (represents.pointer_ne_zero usable)

/-- Every segment is a block. -/
theorem Represents.isBlock {segment : Segment} (member : segment ∈ segments) :
    IsBlock w segment.pointer :=
  (represents.visits usable).isBlock IsBlock.head (List.mem_map_of_mem member)

theorem Represents.freeBytes : kmemGetFreeBytes w = some (UInt64.ofNat (freeTotal segments)) := by
  unfold kmemGetFreeBytes
  rw [represents.head, represents.stored.freeBytesFrom (represents.pointer_ne_zero usable)
    (represents.length_lt usable), UInt64.zero_add]

theorem Represents.size_toNat {segment : Segment} (member : segment ∈ segments) :
    (w.deref segment.pointer).size.toNat = segment.size := by
  have last := (represents.tiles.inside Segment.address_le_stop member).2
  obtain ⟨rest, -, header⟩ := represents.stored.header member
  rw [header]
  exact Segment.size_toNat (le_trans last usable.inMemory)

theorem Represents.blockEnd {segment : Segment} (member : segment ∈ segments) :
    w.blockEnd segment.pointer = segment.stop := by
  unfold KmemWorld.blockEnd
  rw [represents.size_toNat usable member, represents.tiles.pointer_toNat usable.inMemory member]
  rfl

theorem Represents.tiledBy : TiledBy buffer size w (segments.map Segment.pointer) := by
  have tiles : Tiles UInt64.toNat w.blockEnd buffer.toNat (segments.map Segment.pointer)
      (buffer.toNat + size.toNat) :=
    represents.tiles.map (fun _ member => represents.tiles.pointer_toNat usable.inMemory member)
      fun _ member => represents.blockEnd usable member
  refine ⟨represents.visits usable, tiles, tiles.increasing ?_, ?_⟩
  · intro block
    unfold KmemWorld.blockEnd
    omega
  · have whole := tiles.sum_lengths (fun block => 24 + (w.deref block).size.toNat)
      (fun block => Nat.add_assoc _ _ _)
    exact Nat.add_left_cancel whole

omit represents in
/-- The buffer has a block, so a header of it is never counted as free. -/
theorem Represents.freeTotal_le (represents : Represents buffer size w segments) :
    freeTotal segments ≤ size.toNat - 24 := by
  have whole := represents.tiles.sizeTotal_add
  have room := usable.holdsHeader
  have bound := freeTotal_le_sizeTotal segments
  cases segments with
  | nil =>
      have nothing : sizeTotal [] = 0 := rfl
      rw [List.length_nil] at whole
      omega
  | cons segment rest =>
      rw [List.length_cons] at whole
      omega

theorem Represents.walkable : Walkable buffer size w := by
  refine ⟨⟨_, represents.tiledBy usable⟩, ?_, _, represents.freeBytes usable, ?_⟩
  · intro request
    rw [(represents.kmalloc usable request).1]
    rfl
  · have bound := represents.freeTotal_le usable
    rw [UInt64.toNat_ofNat']
    exact le_trans (Nat.mod_le _ _) bound

end

/-! ### Runs with every pointer ever returned -/

/-- The heap and every pointer that `kmalloc` has returned. -/
structure Ledger where
  world : KmemWorld
  returned : List UInt64

namespace Ledger

def next (ledger : Ledger) : HeapCall → Ledger
  | .kmalloc size =>
      { world := (Kmem.kmalloc size).final ledger.world
        returned := ((Kmem.kmalloc size).result ledger.world).toList ++ ledger.returned }
  | .kfree ptr => { ledger with world := (Kmem.kfree ptr).final ledger.world }
  | .write address byte =>
      { ledger with
        world := { ledger.world with
          memory := Function.update ledger.world.memory address byte } }

/-- Clients free null or anything they were ever given, and do not write. -/
def Permitted (ledger : Ledger) : HeapCall → Prop
  | .kmalloc _ => True
  | .kfree ptr => ptr = 0 ∨ ptr ∈ ledger.returned
  | .write _ _ => False

instance (ledger : Ledger) : (call : HeapCall) → Decidable (ledger.Permitted call)
  | .kmalloc _ => inferInstanceAs (Decidable True)
  | .kfree ptr => inferInstanceAs (Decidable (ptr = 0 ∨ ptr ∈ ledger.returned))
  | .write _ _ => inferInstanceAs (Decidable False)

end Ledger

/-- A ledger right after `kmem_init`, whatever the memory was. -/
def opened (buffer size : UInt64) (w : KmemWorld) : Ledger :=
  ⟨(kmemInit buffer size).final w, []⟩

/-- The heap is a list of segments, and every pointer ever returned is null or
the payload of one. -/
structure Recorded (buffer size : UInt64) (ledger : Ledger) (segments : List Segment) : Prop where
  represents : Represents buffer size ledger.world segments
  payloads : ∀ ptr ∈ ledger.returned, ptr = 0 ∨ ∃ segment ∈ segments, ptr.toNat = segment.payload

/-- Where a segment begins, one begins after the call. -/
theorem address_mem_onSegments (call : HeapCall) {segments : List Segment} {segment : Segment}
    (member : segment ∈ segments) :
    ∃ kept ∈ call.onSegments segments, kept.address = segment.address := by
  cases call with
  | kmalloc size => exact address_mem_allocate size.toNat member
  | kfree ptr => exact ⟨_, List.mem_map_of_mem member, segment.release_address ptr.toNat⟩
  | write address byte => exact ⟨segment, member, rfl⟩

section

variable {buffer size : UInt64} {ledger : Ledger} {segments : List Segment}
  (usable : Buffer buffer size) (recorded : Recorded buffer size ledger segments)

include recorded

theorem Recorded.payloads_kept (call : HeapCall) : ∀ ptr ∈ ledger.returned,
    ptr = 0 ∨ ∃ segment ∈ call.onSegments segments, ptr.toNat = segment.payload := by
  intro ptr member
  rcases recorded.payloads ptr member with null | ⟨segment, isSegment, isPayload⟩
  · exact Or.inl null
  · obtain ⟨kept, isKept, same⟩ := address_mem_onSegments call isSegment
    refine Or.inr ⟨kept, isKept, ?_⟩
    rw [isPayload, Segment.payload, Segment.payload, same]

include usable

theorem Recorded.next {call : HeapCall} (permitted : ledger.Permitted call) :
    Recorded buffer size (ledger.next call) (call.onSegments segments) := by
  have kept := recorded.payloads_kept call
  cases call with
  | kmalloc request =>
      obtain ⟨answer, represents, -⟩ := recorded.represents.kmalloc usable request
      refine ⟨represents, ?_⟩
      intro ptr member
      simp only [Ledger.next, answer, Option.toList_some, List.mem_append, List.mem_singleton] at member
      rcases member with rfl | older
      · by_cases null : UInt64.ofNat (allocate request.toNat segments).1 = 0
        · exact Or.inl null
        · rcases allocate_pointer represents.tiles usable.inMemory null with
            ⟨-, now, nowMember, -, isPayload, -⟩
          exact Or.inr ⟨now, nowMember, isPayload⟩
      · exact kept ptr older
  | kfree ptr =>
      refine ⟨?_, kept⟩
      have known : ptr = 0 ∨ ∃ segment ∈ segments, ptr.toNat = segment.payload := by
        rcases permitted with null | returned
        · exact Or.inl null
        · exact recorded.payloads ptr returned
      rcases known with rfl | ⟨freed, member, isPayload⟩
      · show Represents buffer size ledger.world (segments.map (Segment.release 0))
        rw [map_release_zero]
        exact recorded.represents
      · exact (recorded.represents.kfree usable member isPayload).1
  | write address byte => exact absurd permitted id

theorem Recorded.isBlock_next {call : HeapCall} (permitted : ledger.Permitted call)
    {block : UInt64} (isBlock : IsBlock ledger.world block) :
    IsBlock (ledger.next call).world block := by
  obtain ⟨segment, member, rfl⟩ := recorded.represents.segment_of_isBlock isBlock
  obtain ⟨kept, isKept, same⟩ := address_mem_onSegments call member
  have still := (recorded.next usable permitted).represents.isBlock usable isKept
  rw [Segment.pointer, same] at still
  exact still

end

/-! ### Whole runs -/

/-- Wherever a run has got to, the blocks tile the buffer and the walks end;
and however it goes on, the blocks are still blocks. -/
theorem run_keeps_tiling {buffer size : UInt64} (usable : Buffer buffer size) (w : KmemWorld)
    {earlier later : List HeapCall}
    (permitted : EveryCall Ledger.next Ledger.Permitted (earlier ++ later)
      (opened buffer size w)) :
    Walkable buffer size (earlier.foldl Ledger.next (opened buffer size w)).world ∧
      ∀ block, IsBlock (earlier.foldl Ledger.next (opened buffer size w)).world block →
        IsBlock ((earlier ++ later).foldl Ledger.next (opened buffer size w)).world block := by
  obtain ⟨before, after⟩ := everyCall_append.mp permitted
  have entry : ∃ segments, Recorded buffer size (opened buffer size w) segments :=
    ⟨_, kmemInit_represents usable w, by simp [opened]⟩
  have reached := before.final (fun ledger => ∃ segments, Recorded buffer size ledger segments)
    (fun _ _ recorded isPermitted => recorded.elim fun _ recorded =>
      ⟨_, recorded.next usable isPermitted⟩) entry
  rw [List.foldl_append]
  generalize earlier.foldl Ledger.next (opened buffer size w) = ledger at after reached ⊢
  constructor
  · obtain ⟨segments, recorded⟩ := reached
    exact recorded.represents.walkable usable
  · intro block isBlock
    refine (after.final (fun ledger => (∃ segments, Recorded buffer size ledger segments) ∧
      IsBlock ledger.world block) ?_ ⟨reached, isBlock⟩).2
    rintro ledger call ⟨⟨segments, recorded⟩, isBlock⟩ isPermitted
    exact ⟨⟨_, recorded.next usable isPermitted⟩, recorded.isBlock_next usable isPermitted isBlock⟩

/-- A block is taken, freed twice, and taken again for less. -/
def freedTwice : List HeapCall :=
  [.kmalloc 40, .kfree 4120, .kfree 4120, .kmalloc 10]

/-- A request for more than there is, and a free of what another client now
holds. -/
def staleFree : List HeapCall :=
  [.kmalloc 0xFFFFFFFFFFFFFFFF, .kfree 4120, .kmalloc 8, .kfree 0]

theorem run_keeps_tiling_staleFree :
    Walkable 4096 200 (freedTwice.foldl Ledger.next (opened 4096 200 ⟨fun _ => 0xAA, 0⟩)).world ∧
      ∀ block,
        IsBlock (freedTwice.foldl Ledger.next (opened 4096 200 ⟨fun _ => 0xAA, 0⟩)).world block →
        IsBlock ((freedTwice ++ staleFree).foldl Ledger.next
          (opened 4096 200 ⟨fun _ => 0xAA, 0⟩)).world block :=
  run_keeps_tiling ⟨by decide, by decide, by decide⟩ _ (by decide +kernel)

end Mcsos.Kmem
