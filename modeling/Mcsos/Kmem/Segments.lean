import Mathlib.Algebra.BigOperators.Group.List.Basic
import Mathlib.Algebra.Order.BigOperators.Group.List
import Mcsos.Machine.Tiling

/-!
The heap as a list of segments: a header and the payload behind it, one
segment after the other through the whole buffer. Requests are placed in the
first segment that is free and large enough; a segment is cut in two where
more than a header remains.
-/

namespace Mcsos.Kmem

open Mcsos.Machine

structure Segment where
  address : Nat
  size : Nat
  free : Bool
deriving DecidableEq, Repr

namespace Segment

/-- Where the payload begins: behind the header of 24 bytes. -/
def payload (segment : Segment) : Nat := segment.address + 24

def stop (segment : Segment) : Nat := segment.address + 24 + segment.size

/-- The request can be placed in the segment; a request for nothing fits
nowhere. -/
def Fits (segment : Segment) (size : Nat) : Prop :=
  segment.free = true ∧ 0 < size ∧ size ≤ segment.size

instance (segment : Segment) (size : Nat) : Decidable (segment.Fits size) :=
  inferInstanceAs (Decidable (_ ∧ _ ∧ _))

/-- What a segment becomes when a request is placed in it. -/
def take (segment : Segment) (size : Nat) : List Segment :=
  if segment.size - size > 24 then
    [⟨segment.address, size, false⟩,
      ⟨segment.address + 24 + size, segment.size - size - 24, true⟩]
  else
    [{ segment with free := false }]

theorem take_split (segment : Segment) {size : Nat} (splits : segment.size - size > 24) :
    segment.take size = [⟨segment.address, size, false⟩,
      ⟨segment.address + 24 + size, segment.size - size - 24, true⟩] :=
  if_pos splits

theorem take_whole (segment : Segment) {size : Nat} (whole : ¬ segment.size - size > 24) :
    segment.take size = [{ segment with free := false }] :=
  if_neg whole

theorem address_lt_stop (segment : Segment) : segment.address + 24 ≤ segment.stop := by
  unfold stop
  omega

theorem address_le_stop (segment : Segment) : segment.address ≤ segment.stop := by
  unfold stop
  omega

end Segment

/-- The segments tile the numbers from `start` to `stop`. -/
abbrev TilesHeap : Nat → List Segment → Nat → Prop := Tiles Segment.address Segment.stop

section

variable {start stop : Nat} {segments : List Segment}

theorem Segment.take_tiles {segment : Segment} {size : Nat} (fits : segment.Fits size) :
    TilesHeap segment.address (segment.take size) segment.stop := by
  rcases fits with ⟨-, -, fits⟩
  by_cases splits : segment.size - size > 24
  · rw [segment.take_split splits]
    refine ⟨rfl, rfl, ?_⟩
    show segment.address + 24 + size + 24 + (segment.size - size - 24) =
      segment.address + 24 + segment.size
    omega
  · rw [segment.take_whole splits]
    exact ⟨rfl, rfl⟩

/-- Segments of one heap with the same address are the same segment. -/
theorem TilesHeap.eq_of_address (tiles : TilesHeap start segments stop) {segment other : Segment}
    (member : segment ∈ segments) (otherMember : other ∈ segments)
    (same : segment.address = other.address) : segment = other := by
  rcases tiles.apart Segment.address_le_stop member otherMember with equal | before | before
  · exact equal
  · have here := segment.address_lt_stop
    omega
  · have here := other.address_lt_stop
    omega

/-! ### Placing a request -/

/-- The payload a request gets, 0 for none, and the heap it leaves. -/
def allocate (size : Nat) : List Segment → Nat × List Segment
  | [] => (0, [])
  | segment :: rest =>
      if segment.Fits size then
        (segment.payload, segment.take size ++ rest)
      else
        ((allocate size rest).1, segment :: (allocate size rest).2)

/-- No segment fits and nothing changes, or the first one that fits is
taken. -/
theorem allocate_cases (size : Nat) (segments : List Segment) :
    (allocate size segments = (0, segments) ∧ ∀ segment ∈ segments, ¬ segment.Fits size) ∨
      ∃ before segment after, segments = before ++ segment :: after ∧ segment.Fits size ∧
        (∀ earlier ∈ before, ¬ earlier.Fits size) ∧
        allocate size segments =
          (segment.payload, before ++ segment.take size ++ after) := by
  induction segments with
  | nil => exact Or.inl ⟨rfl, by simp⟩
  | cons head rest inductionHypothesis =>
      by_cases fits : head.Fits size
      · refine Or.inr ⟨[], head, rest, rfl, fits, by simp, ?_⟩
        rw [allocate, if_pos fits]
        rfl
      · rcases inductionHypothesis with ⟨same, none⟩ | ⟨before, segment, after, shape, found,
          earlier, placed⟩
        · left
          rw [allocate, if_neg fits, same]
          refine ⟨rfl, ?_⟩
          intro segment member
          rcases List.mem_cons.mp member with rfl | later
          · exact fits
          · exact none segment later
        · right
          refine ⟨head :: before, segment, after, by rw [shape]; rfl, found, ?_, ?_⟩
          · intro other member
            rcases List.mem_cons.mp member with rfl | later
            · exact fits
            · exact earlier other later
          · rw [allocate, if_neg fits, placed]
            rfl

theorem allocate_zero (segments : List Segment) : allocate 0 segments = (0, segments) := by
  rcases allocate_cases 0 segments with ⟨same, -⟩ | ⟨-, -, -, -, ⟨-, impossible, -⟩, -⟩
  · exact same
  · omega

theorem allocate_tiles (size : Nat) (tiles : TilesHeap start segments stop) :
    TilesHeap start (allocate size segments).2 stop := by
  rcases allocate_cases size segments with ⟨same, -⟩ | ⟨before, segment, after, shape, fits, -, placed⟩
  · rw [same]
    exact tiles
  · rw [placed]
    subst shape
    exact tiles.replace (Segment.take_tiles fits)

/-- A segment in use stays as it is. -/
theorem mem_allocate_of_used (size : Nat) {segment : Segment} (member : segment ∈ segments)
    (used : segment.free = false) : segment ∈ (allocate size segments).2 := by
  rcases allocate_cases size segments with ⟨same, -⟩ | ⟨before, taken, after, rfl, fits, -, placed⟩
  · rw [same]
    exact member
  · have other : segment ≠ taken := by
      intro same
      rw [same, fits.1] at used
      simp at used
    rw [placed]
    simp only [List.mem_append, List.mem_cons, other, false_or] at member ⊢
    rcases member with front | back
    · exact Or.inl (Or.inl front)
    · exact Or.inr back

/-- A request that is placed gets the payload of a segment that was free; in
the heap it leaves, the segment is in use and holds the request. -/
theorem allocate_placed {size : Nat} (placed : (allocate size segments).1 ≠ 0) :
    (∃ segment ∈ segments, segment.free = true ∧
        segment.payload = (allocate size segments).1) ∧
      ∃ segment ∈ (allocate size segments).2, segment.free = false ∧
        segment.payload = (allocate size segments).1 ∧ size ≤ segment.size ∧ 0 < size := by
  rcases allocate_cases size segments with ⟨same, -⟩ | ⟨before, taken, after, rfl, fits, -, answer⟩
  · rw [same] at placed
    exact absurd rfl placed
  · rw [answer]
    refine ⟨⟨taken, by simp, fits.1, rfl⟩, ?_⟩
    by_cases splits : taken.size - size > 24
    · exact ⟨⟨taken.address, size, false⟩, by simp [taken.take_split splits], rfl, rfl, le_refl _,
        fits.2.1⟩
    · exact ⟨{ taken with free := false }, by simp [taken.take_whole splits], rfl, rfl, fits.2.2,
        fits.2.1⟩

theorem Segment.take_address (segment : Segment) (size : Nat) :
    ∃ piece ∈ segment.take size, piece.address = segment.address := by
  by_cases splits : segment.size - size > 24
  · rw [segment.take_split splits]
    exact ⟨_, List.mem_cons_self, rfl⟩
  · rw [segment.take_whole splits]
    exact ⟨_, List.mem_cons_self, rfl⟩

/-- Where a segment begins, one begins afterwards. -/
theorem address_mem_allocate (size : Nat) {segment : Segment} (member : segment ∈ segments) :
    ∃ kept ∈ (allocate size segments).2, kept.address = segment.address := by
  rcases allocate_cases size segments with ⟨same, -⟩ | ⟨before, taken, after, rfl, -, -, placed⟩
  · rw [same]
    exact ⟨segment, member, rfl⟩
  · rw [placed]
    rcases List.mem_append.mp member with front | back
    · exact ⟨segment, by simp [front], rfl⟩
    · rcases List.mem_cons.mp back with rfl | later
      · rcases segment.take_address size with ⟨piece, isPiece, same⟩
        exact ⟨piece, by simp [isPiece], same⟩
      · exact ⟨segment, by simp [later], rfl⟩

/-- What is in use afterwards was in use, or is what the request got. -/
theorem used_of_mem_allocate {size : Nat} {segment : Segment}
    (member : segment ∈ (allocate size segments).2) (used : segment.free = false) :
    (segment ∈ segments ∧ segment.free = false) ∨ segment.payload = (allocate size segments).1 := by
  rcases allocate_cases size segments with ⟨same, -⟩ | ⟨before, taken, after, rfl, -, -, placed⟩
  · rw [same] at member
    exact Or.inl ⟨member, used⟩
  · rw [placed] at member ⊢
    rcases List.mem_append.mp member with front | back
    · rcases List.mem_append.mp front with front | isPiece
      · exact Or.inl ⟨by simp [front], used⟩
      · right
        by_cases splits : taken.size - size > 24
        · rw [taken.take_split splits] at isPiece
          rcases List.mem_cons.mp isPiece with rfl | isRemainder
          · rfl
          · rw [List.mem_singleton.mp isRemainder] at used
            simp at used
        · rw [taken.take_whole splits] at isPiece
          rw [List.mem_singleton.mp isPiece]
          rfl
    · exact Or.inl ⟨by simp [back], used⟩

theorem length_le_allocate (size : Nat) (segments : List Segment) :
    segments.length ≤ (allocate size segments).2.length := by
  rcases allocate_cases size segments with ⟨same, -⟩ | ⟨before, taken, after, rfl, -, -, placed⟩
  · rw [same]
  · rw [placed]
    rcases taken.take_address size with ⟨piece, isPiece, -⟩
    have some := List.length_pos_of_mem isPiece
    simp only [List.length_append, List.length_cons]
    omega

/-- A heap of one segment stays one unless the request fits and leaves more
than a header. -/
theorem length_allocate_singleton (size : Nat) (segment : Segment) :
    (allocate size [segment]).2.length = 1 ↔
      (segment.Fits size → ¬ segment.size - size > 24) := by
  by_cases fits : segment.Fits size
  · rw [allocate, if_pos fits, List.append_nil]
    by_cases splits : segment.size - size > 24
    · simp [segment.take_split splits, fits, splits]
    · simp [segment.take_whole splits, fits, splits]
  · rw [allocate, if_neg fits]
    simp [allocate, fits]

/-! ### Giving a payload back -/

def Segment.release (ptr : Nat) (segment : Segment) : Segment :=
  if segment.payload = ptr then { segment with free := true } else segment

@[simp] theorem Segment.release_address (ptr : Nat) (segment : Segment) :
    (segment.release ptr).address = segment.address := by
  unfold Segment.release
  split <;> rfl

@[simp] theorem Segment.release_size (ptr : Nat) (segment : Segment) :
    (segment.release ptr).size = segment.size := by
  unfold Segment.release
  split <;> rfl

@[simp] theorem Segment.release_stop (ptr : Nat) (segment : Segment) :
    (segment.release ptr).stop = segment.stop := by
  simp [Segment.stop]

theorem Segment.release_of_ne {ptr : Nat} {segment : Segment} (other : segment.payload ≠ ptr) :
    segment.release ptr = segment :=
  if_neg other

/-- No payload begins at 0. -/
theorem map_release_zero (segments : List Segment) :
    segments.map (Segment.release 0) = segments := by
  have same : Segment.release 0 = id := by
    funext segment
    exact Segment.release_of_ne (Nat.succ_ne_zero _)
  rw [same, List.map_id]

theorem release_tiles (ptr : Nat) (tiles : TilesHeap start segments stop) :
    TilesHeap start (segments.map (Segment.release ptr)) stop :=
  tiles.map (fun segment _ => segment.release_address ptr) fun segment _ => segment.release_stop ptr

/-! ### Totals -/

/-- The payload bytes of all segments. -/
def sizeTotal (segments : List Segment) : Nat := (segments.map Segment.size).sum

/-- The payload bytes of the segments that are free. -/
def freeTotal (segments : List Segment) : Nat :=
  (segments.map fun segment => if segment.free then segment.size else 0).sum

theorem freeTotal_le_sizeTotal (segments : List Segment) :
    freeTotal segments ≤ sizeTotal segments := by
  apply List.sum_le_sum
  intro segment _
  split <;> omega

theorem freeTotal_of_free (free : ∀ segment ∈ segments, segment.free = true) :
    freeTotal segments = sizeTotal segments := by
  unfold freeTotal sizeTotal
  congr 1
  apply List.map_congr_left
  intro segment member
  rw [if_pos (free segment member)]

/-- Headers and payloads make up the whole heap. -/
theorem TilesHeap.sizeTotal_add (tiles : TilesHeap start segments stop) :
    start + (sizeTotal segments + segments.length * 24) = stop := by
  have whole := tiles.sum_lengths (fun segment => segment.size + 24) ?_
  · rw [List.sum_map_add] at whole
    simpa [sizeTotal] using whole
  · intro segment
    unfold Segment.stop
    omega

end

end Mcsos.Kmem
