import Mcsos.Kmem.FirstFit

/-!
Contract: clients that take a block and give it back. Where their requests come
in ascending order, one turn each settles the heap: from then on any of them in
any order is granted, and each turn leaves memory exactly as it found it.
-/

namespace Mcsos.Kmem

open Mcsos.Machine
open Mcsos.Machine.Prog

/-- A client's turn: `kmalloc`, and `kfree` of what it returned. -/
def turn (w : KmemWorld) (request : UInt64) : KmemWorld :=
  match (kmalloc request).result w with
  | some ptr => (kfree ptr).final ((kmalloc request).final w)
  | none => (kmalloc request).final w

/-! ### The first segment that fits -/

def firstFit (request : Nat) (segments : List Segment) : Option Segment :=
  segments.find? fun segment => segment.Fits request

theorem firstFit_eq_some_iff {request : Nat} {segments : List Segment} {segment : Segment} :
    firstFit request segments = some segment ↔ segment.Fits request ∧
      ∃ before after, segments = before ++ segment :: after ∧
        ∀ earlier ∈ before, ¬ earlier.Fits request := by
  simp [firstFit, List.find?_eq_some_iff_append]

theorem firstFit_append {request : Nat} {before : List Segment}
    (unfit : ∀ earlier ∈ before, ¬ earlier.Fits request) (rest : List Segment) :
    firstFit request (before ++ rest) = firstFit request rest := by
  have none : before.find? (fun segment => segment.Fits request) = none := by
    simpa [List.find?_eq_none] using unfit
  rw [firstFit, List.find?_append, none]
  rfl

theorem firstFit_cons {request : Nat} {segment : Segment} (fits : segment.Fits request)
    (rest : List Segment) : firstFit request (segment :: rest) = some segment := by
  simp [firstFit, fits]

theorem allocate_first {request : Nat} {before : List Segment} {segment : Segment}
    (unfit : ∀ earlier ∈ before, ¬ earlier.Fits request) (fits : segment.Fits request)
    (after : List Segment) :
    allocate request (before ++ segment :: after) =
      (segment.payload, before ++ segment.take request ++ after) := by
  induction before with
  | nil => rw [List.nil_append, allocate, if_pos fits, List.nil_append]
  | cons head rest inductionHypothesis =>
      rw [List.cons_append, allocate, if_neg (unfit head (by simp)),
        inductionHypothesis fun earlier member => unfit earlier (by simp [member])]
      rfl

/-- What a turn makes of the segment it takes. -/
def Segment.cut (request : Nat) (segment : Segment) : List Segment :=
  if segment.size - request > 24 then
    [⟨segment.address, request, true⟩,
      ⟨segment.address + 24 + request, segment.size - request - 24, true⟩]
  else
    [segment]

theorem Segment.release_take {segment : Segment} (request : Nat) (free : segment.free = true) :
    (segment.take request).map (Segment.release segment.payload) = segment.cut request := by
  obtain ⟨address, size, status⟩ := segment
  subst free
  by_cases splits : size - request > 24
  · simp [Segment.take, Segment.cut, splits, Segment.release, Segment.payload]
  · simp [Segment.take, Segment.cut, splits, Segment.release, Segment.payload]

/-- The piece that the request got fits it and cannot be cut again. -/
theorem Segment.cut_head {segment : Segment} {request : Nat} (fits : segment.Fits request) :
    ∃ piece rest, segment.cut request = piece :: rest ∧ piece.address = segment.address ∧
      piece.Fits request ∧ piece.size ≤ request + 24 := by
  by_cases splits : segment.size - request > 24
  · exact ⟨_, _, if_pos splits, rfl, ⟨rfl, fits.2.1, le_rfl⟩, Nat.le_add_right _ _⟩
  · exact ⟨segment, [], if_neg splits, rfl, fits, by omega⟩

/-- What a turn makes of the heap. -/
def turnSegments (request : Nat) : List Segment → List Segment
  | [] => []
  | segment :: rest =>
      if segment.Fits request then
        segment.cut request ++ rest
      else
        segment :: turnSegments request rest

theorem turnSegments_append {request : Nat} {before : List Segment}
    (unfit : ∀ earlier ∈ before, ¬ earlier.Fits request) (rest : List Segment) :
    turnSegments request (before ++ rest) = before ++ turnSegments request rest := by
  induction before with
  | nil => rfl
  | cons head before inductionHypothesis =>
      rw [List.cons_append, turnSegments, if_neg (unfit head (by simp)),
        inductionHypothesis fun earlier member => unfit earlier (by simp [member])]
      rfl

theorem turnSegments_first {request : Nat} {before : List Segment} {segment : Segment}
    (unfit : ∀ earlier ∈ before, ¬ earlier.Fits request) (fits : segment.Fits request)
    (after : List Segment) :
    turnSegments request (before ++ segment :: after) =
      before ++ segment.cut request ++ after := by
  rw [turnSegments_append unfit, turnSegments, if_pos fits, List.append_assoc]

theorem turnSegments_cut {address size request : Nat} (positive : 0 < request)
    (splits : size - request > 24) (rest : List Segment) :
    turnSegments request (⟨address, size, true⟩ :: rest) = ⟨address, request, true⟩ ::
      ⟨address + 24 + request, size - request - 24, true⟩ :: rest := by
  have fits : (⟨address, size, true⟩ : Segment).Fits request :=
    ⟨rfl, positive, by show request ≤ size; omega⟩
  rw [turnSegments, if_pos fits, Segment.cut, if_pos splits]
  rfl

theorem turnSegments_whole {address size request : Nat} (positive : 0 < request)
    (large : request ≤ size) (whole : ¬ size - request > 24) (rest : List Segment) :
    turnSegments request (⟨address, size, true⟩ :: rest) = ⟨address, size, true⟩ :: rest := by
  have fits : (⟨address, size, true⟩ : Segment).Fits request := ⟨rfl, positive, large⟩
  rw [turnSegments, if_pos fits, Segment.cut, if_neg whole]
  rfl

/-! ### One turn -/

section

variable {w : KmemWorld} {start stop : Nat} {before after : List Segment} {segment : Segment}

/-- The walk does nothing in front of the segment it takes. -/
theorem kmallocFrom_trace {size : UInt64} (asked : size ≠ 0) {rounds : Nat}
    (stored : Stored w (before ++ segment :: after))
    (tiles : TilesHeap start (before ++ segment :: after) stop) (notNull : 0 < start)
    (inMemory : stop ≤ 2 ^ 64) (unfit : ∀ earlier ∈ before, ¬ earlier.Fits size.toNat)
    (fits : segment.Fits size.toNat) (enough : before.length < rounds) :
    (kmallocFrom size rounds (pointerTo (before ++ segment :: after))).trace w =
      (takeBlock segment.pointer size).trace w := by
  have present : ∀ {head : Segment} {rest : List Segment} {start : Nat},
      TilesHeap start (head :: rest) stop → 0 < start → head.pointer ≠ 0 := by
    intro head rest start tiles notNull null
    have place := tiles.pointer_toNat inMemory List.mem_cons_self
    rw [null, tiles.1] at place
    exact absurd place.symm notNull.ne'
  induction before generalizing start rounds with
  | nil =>
      obtain ⟨rounds, rfl⟩ := Nat.exists_eq_add_of_lt enough
      have last := (tiles.inside Segment.address_le_stop
        (List.mem_cons_self : segment ∈ segment :: after)).2
      have takes := (stored.takes_iff (le_trans last inMemory) asked).mpr fits
      have here : segment.pointer ≠ 0 := present tiles notNull
      simp [kmallocFrom, pointerTo, here, takes]
  | cons head rest inductionHypothesis =>
      cases rounds with
      | zero => simp at enough
      | succ rounds =>
          have last := (tiles.inside Segment.address_le_stop List.mem_cons_self).2
          have takes := mt (stored.takes_iff (le_trans last inMemory) asked).mp
            (unfit head List.mem_cons_self)
          have here : head.pointer ≠ 0 := present tiles notNull
          have next : (w.deref head.pointer).next = pointerTo (rest ++ segment :: after) := by
            rw [stored.1]
            rfl
          have header := head.address_lt_stop
          have begins := tiles.1
          have later := inductionHypothesis stored.2 tiles.2 (by omega)
            (fun earlier member => unfit earlier (by simp [member]))
            (show rest.length < rounds by simpa using enough)
          simp only [List.cons_append, kmallocFrom, pointerTo, here, if_false, trace_bind,
            trace_get, result_get, final_get, takes, next, List.nil_append]
          exact later

end

/-- The segments around one are apart from it. -/
theorem TilesHeap.others_apart {start stop : Nat} {before after : List Segment}
    {segment : Segment} (tiles : TilesHeap start (before ++ segment :: after) stop) :
    ∀ other ∈ before ++ after, other.stop ≤ segment.address ∨ segment.stop ≤ other.address := by
  obtain ⟨middle, front, begins, back⟩ := (tiles_append before (segment :: after)).mp tiles
  intro other member
  rcases List.mem_append.mp member with earlier | later
  · exact Or.inl (begins ▸ (front.inside Segment.address_le_stop earlier).2)
  · exact Or.inr (back.inside Segment.address_le_stop later).1

/-- Only the segment itself has its payload. -/
theorem TilesHeap.release_others {start stop : Nat} {before after : List Segment}
    {segment : Segment} (tiles : TilesHeap start (before ++ segment :: after) stop) :
    ∀ other ∈ before ++ after, other.release segment.payload = other := by
  intro other member
  have apart := tiles.others_apart other member
  have header := segment.address_lt_stop
  have otherHeader := other.address_lt_stop
  apply Segment.release_of_ne
  unfold Segment.payload
  omega

theorem map_release_take {start stop : Nat} {before after : List Segment} {segment : Segment}
    (tiles : TilesHeap start (before ++ segment :: after) stop) (free : segment.free = true)
    (request : Nat) :
    (before ++ segment.take request ++ after).map (Segment.release segment.payload) =
      before ++ segment.cut request ++ after := by
  have same : ∀ {part : List Segment}, part ⊆ before ++ after →
      part.map (Segment.release segment.payload) = part := fun within =>
    (List.map_congr_left fun other member => tiles.release_others other (within member)).trans
      (List.map_id _)
  rw [List.map_append, List.map_append, segment.release_take request free,
    same (List.subset_append_left _ _), same (List.subset_append_right _ _)]

theorem storeFree_memory (block : UInt64) (value : Bool) (w : KmemWorld) :
    (Event.apply (KmemAccess.storeFree block value) w : KmemWorld).memory =
      Function.update w.memory (block.toNat + 8) (UInt8.ofNat value.toNat) := by
  funext address
  by_cases here : address = block.toNat + 8
  · subst here
    rw [Function.update_self]
    exact (writeRange_inside w.memory (block.toNat + 8) (byteOf value.toNat) Nat.one_pos).trans
      (by simp [byteOf])
  · rw [Function.update_of_ne here]
    exact writeRange_outside _ _ (by omega)

section

variable {buffer size request : UInt64} {w : KmemWorld} {before after : List Segment}
  {segment : Segment}

/-- The heap behind a turn that takes this segment. -/
structure Turned (buffer size request : UInt64) (w : KmemWorld) (before : List Segment)
    (segment : Segment) (after : List Segment) : Prop where
  granted : Granted w request
  represents : Represents buffer size (turn w request)
    (before ++ segment.cut request.toNat ++ after)
  flag : (turn w request).memory (segment.address + 8) = 1
  flags : ∀ other ∈ before ++ after,
    (turn w request).memory (other.address + 8) = w.memory (other.address + 8)
  same : segment.size ≤ request.toNat + 24 → w.memory (segment.address + 8) = 1 →
    turn w request = w

variable (usable : Buffer buffer size)
  (represents : Represents buffer size w (before ++ segment :: after))
  (unfit : ∀ earlier ∈ before, ¬ earlier.Fits request.toNat)
  (fits : segment.Fits request.toNat)

include usable represents

theorem Represents.pointer_toNat : segment.pointer.toNat = segment.address :=
  represents.tiles.pointer_toNat usable.inMemory (by simp)

theorem Represents.stop_le : segment.stop ≤ 2 ^ 64 := by
  have member : segment ∈ before ++ segment :: after := by simp
  exact le_trans (represents.tiles.inside Segment.address_le_stop member).2 usable.inMemory

include unfit fits

theorem Represents.kmalloc_trace :
    (Kmem.kmalloc request).trace w = (takeBlock segment.pointer request).trace w := by
  have asked : request ≠ 0 := by
    rintro rfl
    exact absurd fits.2.1 (Nat.lt_irrefl 0)
  have few := represents.length_lt usable
  rw [List.length_append] at few
  simp only [Kmem.kmalloc, asked, if_false, trace_bind, trace_get, result_get, final_get,
    List.nil_append, represents.head]
  exact kmallocFrom_trace asked represents.stored represents.tiles
    (toNat_pos_of_ne_zero usable.notNull) usable.inMemory unfit fits (by omega)

/-- A turn is a request that is placed, its pointer given back. -/
theorem Represents.turn_represents :
    Kmem.turn w request = (Kmem.kfree (UInt64.ofNat segment.payload)).final
        ((Kmem.kmalloc request).final w) ∧
      Kmem.kfree (UInt64.ofNat segment.payload) = emit (.storeFree segment.pointer true) ∧
      Represents buffer size (Kmem.turn w request)
        (before ++ segment.cut request.toNat ++ after) := by
  have effect := allocate_first unfit fits after
  obtain ⟨answer, exit, -⟩ := represents.kmalloc usable request
  have pointer := allocate_toNat exit.tiles usable.inMemory
  rw [effect] at answer exit pointer
  obtain ⟨piece, isPiece, place⟩ := segment.take_address request.toNat
  have member : piece ∈ before ++ segment.take request.toNat ++ after := by simp [isPiece]
  have payload : (UInt64.ofNat segment.payload).toNat = piece.payload := by
    rw [pointer, Segment.payload, Segment.payload, place]
  have header : piece.pointer = segment.pointer := by rw [Segment.pointer, place, Segment.pointer]
  have turns : Kmem.turn w request = (Kmem.kfree (UInt64.ofNat segment.payload)).final
      ((Kmem.kmalloc request).final w) := by
    unfold Kmem.turn
    rw [answer]
  have freed := (exit.kfree usable member payload).1
  rw [pointer, map_release_take represents.tiles fits.1] at freed
  refine ⟨turns, ?_, turns ▸ freed⟩
  rw [kfree_payload exit.tiles usable.inMemory member payload, header]

theorem Represents.turn_memory :
    (Kmem.turn w request).memory = Function.update
      ((takeBlock segment.pointer request).final w).memory (segment.address + 8) 1 := by
  have place := represents.pointer_toNat usable
  obtain ⟨turns, free, -⟩ := represents.turn_represents usable unfit fits
  have final : (Kmem.kmalloc request).final w = (takeBlock segment.pointer request).final w := by
    unfold Prog.final
    rw [represents.kmalloc_trace usable unfit fits]
  rw [turns, free, final, final_emit, storeFree_memory, place]
  rfl

/-- A block that is not cut, and whose flag is the byte `true` is stored as, is
left as it was. -/
theorem Represents.turn_same (uncut : segment.size ≤ request.toNat + 24)
    (flag : w.memory (segment.address + 8) = 1) : Kmem.turn w request = w := by
  have place := represents.pointer_toNat usable
  have inMemory := represents.stop_le usable
  have stored := represents.stored.drop
  have whole : ¬ (w.deref segment.pointer).size - request > sizeofKmemBlock := by
    rw [splits_iff (stored.size_le inMemory fits), stored.size_toNat inMemory]
    omega
  have taken : (takeBlock segment.pointer request).final w =
      Event.apply (KmemAccess.storeFree segment.pointer false) w := by
    simp [takeBlock, splitBlock, whole]
  have memory := represents.turn_memory usable unfit fits
  rw [taken, storeFree_memory, place, Function.update_idem, ← flag, Function.update_eq_self] at memory
  have head : (Kmem.turn w request).gHead = w.gHead := by
    rw [(represents.turn_represents usable unfit fits).2.2.head, represents.head,
      Segment.cut, if_neg (show ¬ segment.size - request.toNat > 24 by omega), List.append_assoc]
    rfl
  cases turned : Kmem.turn w request with
  | mk newMemory newHead =>
      rw [turned] at memory head
      cases memory
      cases head
      rfl

omit represents usable unfit fits in
/-- A store to a header of a stretch of the heap is nowhere else. -/
theorem KmemAccess.ToHeaders.outside {start stop : Nat} {written : List Segment}
    (tiles : TilesHeap start written stop) (inMemory : stop ≤ 2 ^ 64) {event : KmemAccess}
    (toHeaders : event.ToHeaders written) {address : Nat}
    (outside : address < start ∨ stop ≤ address) : ¬ event.Writes address := by
  intro writes
  obtain ⟨block, target, inHeader⟩ := writes.inHeader
  obtain ⟨piece, isPiece, isTarget⟩ := toHeaders
  have inside := tiles.inside Segment.address_le_stop isPiece
  have header := piece.address_lt_stop
  rw [target, Option.some.injEq] at isTarget
  rw [isTarget, tiles.pointer_toNat inMemory isPiece] at inHeader
  unfold InHeader at inHeader
  omega

omit unfit in
/-- The stores of the request are inside the segment. -/
theorem Represents.takeBlock_outside {address : Nat}
    (outside : address < segment.address ∨ segment.stop ≤ address) :
    ((takeBlock segment.pointer request).final w).memory address = w.memory address := by
  have issues := (takeBlock_headers represents.stored.drop (represents.stop_le usable) fits).2
  apply final_frame (fun s : KmemWorld => s.memory address)
  intro event issued s
  exact event.apply_memory ((issues event issued).outside (Segment.take_tiles fits)
    (represents.stop_le usable) outside) s

theorem Represents.turned : Turned buffer size request w before segment after := by
  have memory := represents.turn_memory usable unfit fits
  refine ⟨(represents.granted_iff usable request).mpr ⟨segment, by simp, fits⟩,
    (represents.turn_represents usable unfit fits).2.2, ?_, ?_, represents.turn_same usable unfit fits⟩
  · rw [memory, Function.update_self]
  · intro other member
    have apart := represents.tiles.others_apart other member
    have header := segment.address_lt_stop
    have otherHeader := other.address_lt_stop
    rw [memory, Function.update_of_ne (by omega),
      represents.takeBlock_outside usable fits (by omega)]

end

/-! ### Settled requests -/

/-- The first segment that fits the request is not cut for it, and a turn has
left it free. -/
def Settled (w : KmemWorld) (segments : List Segment) (request : UInt64) : Prop :=
  ∃ segment, firstFit request.toNat segments = some segment ∧
    segment.size ≤ request.toNat + 24 ∧ w.memory (segment.address + 8) = 1

section

variable {buffer size request : UInt64} {w : KmemWorld} {segments : List Segment}
  (usable : Buffer buffer size) (represents : Represents buffer size w segments)

include usable represents

omit usable represents in
/-- The turn of a larger request leaves a settled one settled: it takes another
block, or the same one whole. -/
theorem Settled.after_turn {before after : List Segment} {segment : Segment} {larger : UInt64}
    (settled : Settled w (before ++ segment :: after) request) (le : request ≤ larger)
    (fits : segment.Fits larger.toNat)
    (turned : Turned buffer size larger w before segment after) :
    Settled (Kmem.turn w larger) (before ++ segment.cut larger.toNat ++ after) request := by
  obtain ⟨taken, found, uncut, flag⟩ := settled
  have smaller := UInt64.le_iff_toNat_le.mp le
  have takenFits := (firstFit_eq_some_iff.mp found).1
  have fitsToo : segment.Fits request.toNat := ⟨fits.1, takenFits.2.1, smaller.trans fits.2.2⟩
  rw [List.append_assoc]
  cases inFront : firstFit request.toNat before with
  | some first =>
      have found : first = taken := by
        rw [firstFit, List.find?_append, ← firstFit, inFront] at found
        exact Option.some.inj found
      subst found
      obtain ⟨-, front, back, rfl, -⟩ := firstFit_eq_some_iff.mp inFront
      refine ⟨first, ?_, uncut, ?_⟩
      · rw [firstFit, List.find?_append, ← firstFit, inFront]
        rfl
      · rw [turned.flags first (by simp)]
        exact flag
  | none =>
      have unfit : ∀ earlier ∈ before, ¬ earlier.Fits request.toNat := by
        simpa [firstFit] using inFront
      rw [firstFit_append unfit, firstFit_cons fitsToo, Option.some.injEq] at found
      subst found
      have whole : segment.cut larger.toNat = [segment] := if_neg (by omega)
      refine ⟨segment, ?_, uncut, turned.flag⟩
      rw [firstFit_append unfit, whole]
      exact firstFit_cons fitsToo after

/-- A request that is granted is settled by its turn, and smaller ones that
were stay so. -/
theorem Represents.turn_settles (granted : Granted w request) :
    ∃ left, Represents buffer size (Kmem.turn w request) left ∧
      Settled (Kmem.turn w request) left request ∧
      ∀ smaller, smaller ≤ request → Settled w segments smaller →
        Settled (Kmem.turn w request) left smaller := by
  obtain ⟨some, isSome, someFits⟩ := (represents.granted_iff usable request).mp granted
  rcases allocate_cases request.toNat segments with ⟨-, none⟩ | ⟨before, segment, after, rfl, fits,
    unfit, -⟩
  · exact absurd someFits (none some isSome)
  · have turned := represents.turned usable unfit fits
    refine ⟨_, turned.represents, ?_, fun smaller le settled => settled.after_turn le fits turned⟩
    obtain ⟨piece, rest, pieces, place, pieceFits, uncut⟩ := segment.cut_head fits
    refine ⟨piece, ?_, uncut, place ▸ turned.flag⟩
    rw [pieces, List.append_assoc, firstFit_append unfit]
    exact firstFit_cons pieceFits _

theorem Represents.turn_segments (some : ∃ segment ∈ segments, segment.Fits request.toNat) :
    Granted w request ∧
      Represents buffer size (Kmem.turn w request) (turnSegments request.toNat segments) := by
  refine ⟨(represents.granted_iff usable request).mpr some, ?_⟩
  obtain ⟨fitting, isSome, someFits⟩ := some
  rcases allocate_cases request.toNat segments with ⟨-, none⟩ | ⟨before, segment, after, rfl, fits,
    unfit, -⟩
  · exact absurd someFits (none fitting isSome)
  · rw [turnSegments_first unfit fits]
    exact (represents.turned usable unfit fits).represents

/-- What the heap is, is in its buffer. -/
theorem Represents.congr {w' : KmemWorld} (head : w'.gHead = w.gHead)
    (same : ∀ address, buffer.toNat ≤ address → address < buffer.toNat + size.toNat →
      w'.memory address = w.memory address) :
    Represents buffer size w' segments := by
  refine ⟨head.trans represents.head, represents.stored.frame ?_, represents.tiles⟩
  intro segment member
  have place := represents.tiles.pointer_toNat usable.inMemory member
  have inside := represents.tiles.inside Segment.address_le_stop member
  have header := segment.address_lt_stop
  apply KmemWorld.deref_congr
  rintro address ⟨lower, upper⟩
  exact same address (by omega) (by omega)

/-- A turn stays in the buffer. -/
theorem Represents.turn_outside (some : ∃ segment ∈ segments, segment.Fits request.toNat)
    {address : Nat}
    (outside : address < buffer.toNat ∨ buffer.toNat + size.toNat ≤ address) :
    (Kmem.turn w request).memory address = w.memory address := by
  obtain ⟨fitting, isSome, someFits⟩ := some
  rcases allocate_cases request.toNat segments with ⟨-, none⟩ | ⟨before, segment, after, rfl, fits,
    unfit, -⟩
  · exact absurd someFits (none fitting isSome)
  · have inside := represents.tiles.inside Segment.address_le_stop
      (List.mem_append_right before List.mem_cons_self)
    have header := segment.address_lt_stop
    rw [represents.turn_memory usable unfit fits, Function.update_of_ne (by omega),
      represents.takeBlock_outside usable fits (by omega)]

theorem Settled.same (settled : Settled w segments request) :
    Granted w request ∧ turn w request = w := by
  obtain ⟨segment, found, uncut, flag⟩ := settled
  obtain ⟨fits, before, after, rfl, unfit⟩ := firstFit_eq_some_iff.mp found
  have turned := represents.turned usable unfit fits
  exact ⟨turned.granted, turned.same uncut flag⟩

/-- Ascending requests, none below what is settled: they are all settled when
each has had its turn. -/
theorem Represents.turns_settle {settled requests : List UInt64}
    (done : ∀ request ∈ settled, Settled w segments request)
    (above : ∀ request ∈ settled, ∀ next ∈ requests, request ≤ next)
    (ascending : requests.Pairwise (· ≤ ·)) (granted : EveryCall Kmem.turn Granted requests w) :
    ∃ left, Represents buffer size (requests.foldl Kmem.turn w) left ∧
      ∀ request ∈ settled ++ requests, Settled (requests.foldl Kmem.turn w) left request := by
  induction requests generalizing w segments settled with
  | nil => exact ⟨segments, represents, by simpa using done⟩
  | cons next rest inductionHypothesis =>
      obtain ⟨left, represents, settles, keeps⟩ := represents.turn_settles usable granted.1
      obtain ⟨first, later⟩ := List.pairwise_cons.mp ascending
      have doneNow : ∀ request ∈ settled ++ [next], Settled (turn w next) left request := by
        intro request member
        rcases List.mem_append.mp member with old | new
        · exact keeps request (above request old next List.mem_cons_self) (done request old)
        · rw [List.mem_singleton.mp new]
          exact settles
      have aboveNow : ∀ request ∈ settled ++ [next], ∀ other ∈ rest, request ≤ other := by
        intro request member other isLater
        rcases List.mem_append.mp member with old | new
        · exact above request old other (List.mem_cons_of_mem _ isLater)
        · rw [List.mem_singleton.mp new]
          exact first other isLater
      have reached := inductionHypothesis represents doneNow aboveNow later granted.2
      rw [List.append_assoc] at reached
      exact reached

/-- In a settled heap any sequence of turns is granted and changes nothing. -/
theorem Represents.settled_turns {requests : List UInt64}
    (settled : ∀ request ∈ requests, Settled w segments request) :
    EveryCall Kmem.turn Granted requests w ∧ requests.foldl Kmem.turn w = w := by
  induction requests with
  | nil => exact ⟨trivial, rfl⟩
  | cons next rest inductionHypothesis =>
      obtain ⟨granted, same⟩ := (settled next List.mem_cons_self).same usable represents
      have later := inductionHypothesis fun request member => settled request (by simp [member])
      refine ⟨⟨granted, ?_⟩, ?_⟩
      · rw [same]
        exact later.1
      · rw [List.foldl_cons, same]
        exact later.2

end

/-- Clients that each take a block and give it back before the next one does,
the smaller requests first: once each has had a turn, every further turn of any
of them in any order is granted and leaves memory exactly as it was. -/
theorem ascending_turns_settle {buffer size : UInt64} {w : KmemWorld} {blocks : List UInt64}
    (usable : Buffer buffer size) (tiled : TiledBy buffer size w blocks)
    {requests : List UInt64} (ascending : requests.Pairwise (· ≤ ·))
    (granted : EveryCall turn Granted requests w) {again : List UInt64}
    (known : ∀ request ∈ again, request ∈ requests) :
    EveryCall turn Granted again (requests.foldl turn w) ∧
      again.foldl turn (requests.foldl turn w) = requests.foldl turn w := by
  have nothing : ∀ request ∈ ([] : List UInt64), Settled w (blocks.map w.segmentAt) request := by
    simp
  obtain ⟨left, represents, settled⟩ :=
    tiled.represents.turns_settle usable nothing (by simp) ascending granted
  exact represents.settled_turns usable fun request member => settled request (known request member)

theorem ascending_turns_settle_newHeap :
    EveryCall turn Granted [60, 10, 60] ([10, 60].foldl turn newHeap) ∧
      [60, 10, 60].foldl turn ([10, 60].foldl turn newHeap) = [10, 60].foldl turn newHeap :=
  have granted : EveryCall turn Granted [10, 60] newHeap :=
    ⟨⟨4120, by decide, by decide +kernel⟩, ⟨4154, by decide, by decide +kernel⟩, trivial⟩
  ascending_turns_settle ⟨by decide, by decide, by decide⟩ newHeap_tiled (by decide) granted
    (by simp)

end Mcsos.Kmem
