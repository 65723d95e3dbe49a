import Mcsos.Kmem.Blocks
import Mcsos.Machine.Run

/-!
Contract: live allocations of the kernel heap are in the buffer, apart from
each other and from every block header, in every run in which clients free
what they hold and write to what they hold.
-/

namespace Mcsos.Kmem

open Mcsos.Machine
open Mcsos.Machine.Prog

/-- An outstanding allocation: the pointer and the bytes asked for. -/
structure Allocation where
  ptr : UInt64
  size : UInt64
deriving DecidableEq, Repr

/-- The byte is one of the allocation's. -/
def Allocation.Has (allocation : Allocation) (address : Nat) : Prop :=
  allocation.ptr.toNat ≤ address ∧ address < allocation.ptr.toNat + allocation.size.toNat

instance (allocation : Allocation) (address : Nat) : Decidable (allocation.Has address) :=
  inferInstanceAs (Decidable (_ ∧ _))

/-- A call of the heap, or a client's own store to a byte. -/
inductive HeapCall where
  | kmalloc (size : UInt64)
  | kfree (ptr : UInt64)
  | write (address : Nat) (byte : UInt8)

/-- The stores the heap makes. -/
def HeapCall.stores (w : KmemWorld) : HeapCall → List KmemAccess
  | .kmalloc size => (Kmem.kmalloc size).trace w
  | .kfree ptr => (Kmem.kfree ptr).trace w
  | .write _ _ => []

/-- The heap and the allocations that are outstanding. -/
structure Session where
  world : KmemWorld
  live : List Allocation

namespace Session

def next (session : Session) : HeapCall → Session
  | .kmalloc size =>
      { world := (Kmem.kmalloc size).final session.world
        live :=
          match (Kmem.kmalloc size).result session.world with
          | some ptr => if ptr = 0 then session.live else ⟨ptr, size⟩ :: session.live
          | none => session.live }
  | .kfree ptr =>
      { world := (Kmem.kfree ptr).final session.world
        live := session.live.filter fun allocation => allocation.ptr ≠ ptr }
  | .write address byte =>
      { session with
        world := { session.world with
          memory := Function.update session.world.memory address byte } }

/-- Clients free null or what they hold, and write to what they hold. -/
def Allowed (session : Session) : HeapCall → Prop
  | .kmalloc _ => True
  | .kfree ptr => ptr = 0 ∨ ∃ allocation ∈ session.live, allocation.ptr = ptr
  | .write address _ => ∃ allocation ∈ session.live, allocation.Has address

instance (session : Session) : (call : HeapCall) → Decidable (session.Allowed call)
  | .kmalloc _ => inferInstanceAs (Decidable True)
  | .kfree ptr =>
      inferInstanceAs (Decidable (ptr = 0 ∨ ∃ allocation ∈ session.live, allocation.ptr = ptr))
  | .write address _ =>
      inferInstanceAs (Decidable (∃ allocation ∈ session.live, allocation.Has address))

end Session

/-- The blocks found by following `next` from `g_head`. -/
inductive IsBlock (w : KmemWorld) : UInt64 → Prop where
  | head (present : w.gHead ≠ 0) : IsBlock w w.gHead
  | next {block : UInt64} (isBlock : IsBlock w block) (present : (w.deref block).next ≠ 0) :
      IsBlock w (w.deref block).next

/-- Live allocations are in the buffer, share no byte with each other, and
none with a block header. -/
structure Separated (buffer size : UInt64) (session : Session) : Prop where
  inBuffer : ∀ allocation ∈ session.live, buffer.toNat ≤ allocation.ptr.toNat ∧
    allocation.ptr.toNat + allocation.size.toNat ≤ buffer.toNat + size.toNat
  apart : session.live.Pairwise fun allocation other =>
    ∀ address, allocation.Has address → ¬ other.Has address
  offHeaders : ∀ allocation ∈ session.live, ∀ block, IsBlock session.world block →
    ∀ address, allocation.Has address → ¬ InHeader block.toNat address

/-- The call returns, writes to no byte of a live allocation, and leaves the
live allocations separated. -/
structure Undisturbed (buffer size : UInt64) (session : Session) (call : HeapCall) : Prop where
  returns : ∀ request, call = .kmalloc request →
    ((Kmem.kmalloc request).result session.world).isSome
  spares : ∀ event ∈ call.stores session.world, ∀ allocation ∈ session.live,
    ∀ address, allocation.Has address → ¬ event.Writes address
  separated : Separated buffer size (session.next call)

/-! ### Allocations and segments -/

/-- What a call makes of the segments. -/
def HeapCall.onSegments (segments : List Segment) : HeapCall → List Segment
  | .kmalloc size => (allocate size.toNat segments).2
  | .kfree ptr => segments.map (Segment.release ptr.toNat)
  | .write _ _ => segments

/-- The heap is a list of segments, and each live allocation holds one of its
own. -/
structure Holdings (buffer size : UInt64) (session : Session) (segments : List Segment) : Prop where
  represents : Represents buffer size session.world segments
  held : ∀ allocation ∈ session.live, ∃ segment ∈ segments, segment.free = false ∧
    allocation.ptr.toNat = segment.payload ∧ allocation.size.toNat ≤ segment.size
  distinct : session.live.Pairwise fun allocation other => allocation.ptr ≠ other.ptr

section

variable {start stop : Nat} {segments : List Segment}

/-- A payload byte of one segment is no header byte of any. -/
theorem TilesHeap.payload_off_headers (tiles : TilesHeap start segments stop)
    {segment other : Segment} (member : segment ∈ segments) (otherMember : other ∈ segments)
    {address : Nat} (inside : segment.payload ≤ address ∧ address < segment.stop) :
    ¬ InHeader other.address address := by
  unfold Segment.payload at inside
  unfold InHeader
  have header := other.address_lt_stop
  rcases tiles.apart Segment.address_le_stop member otherMember with same | before | after
  · rw [← same]
    omega
  · omega
  · omega

/-- The pointer of a request is not cut off in 64 bits. -/
theorem allocate_toNat {size : Nat} (tiles : TilesHeap start (allocate size segments).2 stop)
    (inMemory : stop ≤ 2 ^ 64) :
    (UInt64.ofNat (allocate size segments).1).toNat = (allocate size segments).1 := by
  by_cases placed : (allocate size segments).1 = 0
  · rw [placed]
    rfl
  · rcases allocate_placed placed with ⟨-, now, nowMember, -, nowPayload, fits, positive⟩
    have last := (tiles.inside Segment.address_le_stop nowMember).2
    rw [← nowPayload, UInt64.toNat_ofNat', Segment.payload]
    unfold Segment.stop at last
    omega

/-- A pointer that is handed out, as the 64-bit value it is: the payload of a
segment that was free, and is now in use and holds the request. -/
theorem allocate_pointer {size : Nat} (tiles : TilesHeap start (allocate size segments).2 stop)
    (inMemory : stop ≤ 2 ^ 64) (notNull : UInt64.ofNat (allocate size segments).1 ≠ 0) :
    (∃ segment ∈ segments, segment.free = true ∧
        (UInt64.ofNat (allocate size segments).1).toNat = segment.payload) ∧
      ∃ segment ∈ (allocate size segments).2, segment.free = false ∧
        (UInt64.ofNat (allocate size segments).1).toNat = segment.payload ∧
        size ≤ segment.size := by
  have placed : (allocate size segments).1 ≠ 0 := by
    intro zero
    rw [zero] at notNull
    exact notNull rfl
  rcases allocate_placed placed with
    ⟨⟨was, wasMember, wasFree, wasPayload⟩, now, nowMember, nowUsed, nowPayload, fits, -⟩
  rw [allocate_toNat tiles inMemory]
  exact ⟨⟨was, wasMember, wasFree, wasPayload.symm⟩, now, nowMember, nowUsed, nowPayload.symm, fits⟩

variable {buffer size : UInt64} {w : KmemWorld}

theorem pointerTo_mem (present : pointerTo segments ≠ 0) :
    ∃ segment ∈ segments, pointerTo segments = segment.pointer := by
  cases segments with
  | nil => exact absurd rfl present
  | cons segment rest => exact ⟨segment, by simp, rfl⟩

/-- Every block is a segment. -/
theorem Represents.segment_of_isBlock (represents : Represents buffer size w segments)
    {block : UInt64} (isBlock : IsBlock w block) :
    ∃ segment ∈ segments, block = segment.pointer := by
  induction isBlock with
  | head present =>
      rw [represents.head] at present ⊢
      exact pointerTo_mem present
  | next _ present inductionHypothesis =>
      rcases inductionHypothesis with ⟨segment, member, rfl⟩
      rcases represents.stored.header member with ⟨rest, within, header⟩
      rw [header] at present ⊢
      rcases pointerTo_mem present with ⟨later, isLater, pointer⟩
      exact ⟨later, within isLater, pointer⟩

/-- Stores to headers spare the payloads behind them. -/
theorem KmemAccess.ToHeaders.spares (tiles : TilesHeap start segments stop)
    (inMemory : stop ≤ 2 ^ 64) {event : KmemAccess} (toHeaders : event.ToHeaders segments)
    {segment : Segment} (member : segment ∈ segments) {address : Nat}
    (inside : segment.payload ≤ address ∧ address < segment.stop) : ¬ event.Writes address := by
  intro writes
  rcases writes.inHeader with ⟨block, target, inHeader⟩
  rcases toHeaders with ⟨written, isWritten, isTarget⟩
  rw [target, Option.some.injEq] at isTarget
  rw [isTarget, tiles.pointer_toNat inMemory isWritten] at inHeader
  exact tiles.payload_off_headers member isWritten inside inHeader

end

section

variable {buffer size : UInt64} {segments : List Segment} {session : Session}
  (holdings : Holdings buffer size session segments)

include holdings

/-- A byte of a live allocation is a payload byte of the segment it holds. -/
theorem Holdings.segment_of_has {allocation : Allocation} (live : allocation ∈ session.live)
    {address : Nat} (has : allocation.Has address) :
    ∃ segment ∈ segments, segment.free = false ∧ allocation.ptr.toNat = segment.payload ∧
      segment.payload ≤ address ∧ address < segment.stop := by
  rcases holdings.held allocation live with ⟨segment, member, used, begins, fits⟩
  refine ⟨segment, member, used, begins, begins ▸ has.1, ?_⟩
  have below := has.2
  unfold Segment.payload at begins
  unfold Segment.stop
  omega

theorem Holdings.inBuffer {allocation : Allocation} (live : allocation ∈ session.live) :
    buffer.toNat ≤ allocation.ptr.toNat ∧
      allocation.ptr.toNat + allocation.size.toNat ≤ buffer.toNat + size.toNat := by
  rcases holdings.held allocation live with ⟨segment, member, -, begins, fits⟩
  have inside := holdings.represents.tiles.inside Segment.address_le_stop member
  unfold Segment.payload at begins
  unfold Segment.stop at inside
  omega

theorem Holdings.apart : session.live.Pairwise fun allocation other =>
    ∀ address, allocation.Has address → ¬ other.Has address := by
  refine holdings.distinct.imp_of_mem ?_
  intro allocation other live otherLive different address has otherHas
  rcases holdings.segment_of_has live has with ⟨segment, member, -, begins, inside⟩
  rcases holdings.segment_of_has otherLive otherHas with
    ⟨otherSegment, otherMember, -, otherBegins, otherInside⟩
  unfold Segment.payload at inside otherInside
  rcases holdings.represents.tiles.apart Segment.address_le_stop member otherMember with
    rfl | before | after
  · exact different (UInt64.toNat.inj (begins.trans otherBegins.symm))
  · omega
  · omega

theorem Holdings.separated (usable : Buffer buffer size) : Separated buffer size session := by
  refine ⟨fun _ live => holdings.inBuffer live, holdings.apart, ?_⟩
  intro allocation live block isBlock address has
  have tiles := holdings.represents.tiles
  rcases holdings.segment_of_has live has with ⟨segment, member, -, -, inside⟩
  rcases holdings.represents.segment_of_isBlock isBlock with ⟨other, otherMember, rfl⟩
  rw [tiles.pointer_toNat usable.inMemory otherMember]
  exact tiles.payload_off_headers member otherMember inside

/-! ### One call -/

variable (usable : Buffer buffer size)

include usable

theorem Holdings.kmalloc (request : UInt64) :
    ((Kmem.kmalloc request).result session.world).isSome ∧
      (∀ event ∈ (Kmem.kmalloc request).trace session.world, ∀ allocation ∈ session.live,
        ∀ address, allocation.Has address → ¬ event.Writes address) ∧
      Holdings buffer size (session.next (.kmalloc request))
        (allocate request.toNat segments).2 := by
  rcases holdings.represents.kmalloc usable request with ⟨answer, represents, issues⟩
  refine ⟨by rw [answer]; rfl, ?_, ?_⟩
  · intro event issued allocation live address has
    rcases holdings.segment_of_has live has with ⟨segment, member, used, -, inside⟩
    exact (issues event issued).spares represents.tiles usable.inMemory
      (mem_allocate_of_used request.toNat member used) inside
  · have kept : ∀ allocation ∈ session.live, ∃ segment ∈ (allocate request.toNat segments).2,
        segment.free = false ∧ allocation.ptr.toNat = segment.payload ∧
          allocation.size.toNat ≤ segment.size := by
      intro allocation live
      rcases holdings.held allocation live with ⟨segment, member, used, rest⟩
      exact ⟨segment, mem_allocate_of_used request.toNat member used, used, rest⟩
    simp only [Session.next, answer]
    by_cases null : UInt64.ofNat (allocate request.toNat segments).1 = 0
    · rw [if_pos null]
      exact ⟨represents, kept, holdings.distinct⟩
    · rw [if_neg null]
      rcases allocate_pointer represents.tiles usable.inMemory null with
        ⟨⟨was, wasMember, wasFree, wasPayload⟩, now, nowMember, nowUsed, nowPayload, fits⟩
      refine ⟨represents, ?_, ?_⟩
      · intro allocation live
        rcases List.mem_cons.mp live with rfl | older
        · exact ⟨now, nowMember, nowUsed, nowPayload, fits⟩
        · exact kept allocation older
      · refine List.pairwise_cons.mpr ⟨?_, holdings.distinct⟩
        intro other live same
        -- the segment taken was free, the one that `other` holds is not
        rcases holdings.held other live with ⟨segment, member, used, begins, -⟩
        have samePayload : segment.payload = was.payload := by
          rw [← begins, ← same, wasPayload]
        have sameSegment := holdings.represents.tiles.eq_of_address member wasMember
          (Nat.add_right_cancel samePayload)
        rw [sameSegment, wasFree] at used
        exact absurd used (by simp)

theorem Holdings.kfree {ptr : UInt64}
    (allowed : ptr = 0 ∨ ∃ allocation ∈ session.live, allocation.ptr = ptr) :
    (∀ event ∈ (Kmem.kfree ptr).trace session.world, ∀ allocation ∈ session.live,
        ∀ address, allocation.Has address → ¬ event.Writes address) ∧
      Holdings buffer size (session.next (.kfree ptr))
        (segments.map (Segment.release ptr.toNat)) := by
  have distinct : (session.live.filter fun allocation => allocation.ptr ≠ ptr).Pairwise
      fun allocation other => allocation.ptr ≠ other.ptr :=
    holdings.distinct.sublist List.filter_sublist
  rcases allowed with rfl | ⟨freed, freedLive, rfl⟩
  · rw [show (0 : UInt64).toNat = 0 from rfl, map_release_zero]
    refine ⟨fun event issued => absurd issued (by simp [Kmem.kfree]), holdings.represents, ?_,
      distinct⟩
    intro allocation live
    exact holdings.held allocation (List.mem_of_mem_filter live)
  · rcases holdings.held freed freedLive with ⟨segment, member, -, isPayload, -⟩
    rcases holdings.represents.kfree usable member isPayload with ⟨represents, issues⟩
    refine ⟨?_, represents, ?_, distinct⟩
    · intro event issued allocation live address has
      rcases holdings.segment_of_has live has with ⟨held, heldMember, -, -, inside⟩
      exact (issues event issued).spares holdings.represents.tiles usable.inMemory heldMember inside
    · intro allocation live
      rcases List.mem_filter.mp live with ⟨live, other⟩
      rcases holdings.held allocation live with ⟨held, heldMember, used, begins, fits⟩
      have notFreed : held.payload ≠ freed.ptr.toNat := by
        intro same
        exact (decide_eq_true_iff.mp other) (UInt64.toNat.inj (begins.trans same))
      refine ⟨held, ?_, used, begins, fits⟩
      exact List.mem_map.mpr ⟨held, heldMember, Segment.release_of_ne notFreed⟩

theorem Holdings.write {address : Nat} (byte : UInt8)
    (allowed : ∃ allocation ∈ session.live, allocation.Has address) :
    Holdings buffer size (session.next (.write address byte)) segments := by
  rcases allowed with ⟨allocation, live, has⟩
  rcases holdings.segment_of_has live has with ⟨segment, member, -, -, inside⟩
  have tiles := holdings.represents.tiles
  refine ⟨⟨holdings.represents.head, ?_, tiles⟩, holdings.held, holdings.distinct⟩
  apply holdings.represents.stored.frame
  intro other otherMember
  apply KmemWorld.deref_congr
  intro written inHeader
  rw [tiles.pointer_toNat usable.inMemory otherMember] at inHeader
  apply Function.update_of_ne
  rintro rfl
  exact tiles.payload_off_headers member otherMember inside inHeader

theorem Holdings.undisturbed {call : HeapCall} (allowed : session.Allowed call) :
    Undisturbed buffer size session call ∧
      Holdings buffer size (session.next call) (call.onSegments segments) := by
  cases call with
  | kmalloc request =>
      rcases holdings.kmalloc usable request with ⟨returns, spares, left⟩
      refine ⟨⟨?_, spares, left.separated usable⟩, left⟩
      intro _ same
      cases same
      exact returns
  | kfree ptr =>
      rcases holdings.kfree usable allowed with ⟨spares, left⟩
      refine ⟨⟨?_, spares, left.separated usable⟩, left⟩
      intro _ impossible
      cases impossible
  | write address byte =>
      have left := holdings.write usable byte allowed
      refine ⟨⟨?_, ?_, left.separated usable⟩, left⟩
      · intro _ impossible
        cases impossible
      · intro event issued
        simp [HeapCall.stores] at issued

end

/-! ### Whole runs -/

/-- A session right after `kmem_init`, whatever the memory was. -/
def started (buffer size : UInt64) (w : KmemWorld) : Session :=
  ⟨(kmemInit buffer size).final w, []⟩

theorem started_holdings {buffer size : UInt64} (usable : Buffer buffer size) (w : KmemWorld) :
    Holdings buffer size (started buffer size w) [⟨buffer.toNat, size.toNat - 24, true⟩] :=
  ⟨kmemInit_represents usable w, by simp [started], List.Pairwise.nil⟩

/-- What the segments give for one call holds of every call of a run. -/
theorem everyCall_of_holdings {buffer size : UInt64} (usable : Buffer buffer size)
    {property : Session → HeapCall → Prop}
    (step : ∀ session segments call, Holdings buffer size session segments →
      session.Allowed call → property session call)
    (w : KmemWorld) {calls : List HeapCall}
    (allowed : EveryCall Session.next Session.Allowed calls (started buffer size w)) :
    EveryCall Session.next property calls (started buffer size w) := by
  refine everyCall_of_invariant
    (fun session => ∃ segments, Holdings buffer size session segments) ?_
    ⟨_, started_holdings usable w⟩ allowed
  intro session call holds keepsTo
  rcases holds with ⟨segments, holdings⟩
  exact ⟨step session segments call holdings keepsTo, _, (holdings.undisturbed usable keepsTo).2⟩

/-- Live heap blocks never overlap, in every run. -/
theorem live_allocations_separated {buffer size : UInt64} (usable : Buffer buffer size)
    (w : KmemWorld) {calls : List HeapCall}
    (allowed : EveryCall Session.next Session.Allowed calls (started buffer size w)) :
    EveryCall Session.next (Undisturbed buffer size) calls (started buffer size w) := by
  refine everyCall_of_holdings usable ?_ w allowed
  intro session segments call holdings keepsTo
  exact (holdings.undisturbed usable keepsTo).1

/-- Two blocks are taken and written to, the first is given back and taken
again for a smaller request. -/
def reusedBlock : List HeapCall :=
  [.kmalloc 40, .write 4159 7, .kmalloc 8, .kfree 4120, .kmalloc 10, .kfree 0, .kfree 4184]

theorem live_allocations_separated_reusedBlock :
    EveryCall Session.next (Undisturbed 4096 200) reusedBlock
      (started 4096 200 ⟨fun _ => 0xAA, 0⟩) :=
  live_allocations_separated ⟨by decide, by decide, by decide⟩ _ (by decide +kernel)

end Mcsos.Kmem
