import Mcsos.Kmem.Model
import Mcsos.Kmem.Segments

/-!
The list of blocks in memory is the list of segments. `Stored` says that each
segment's header holds its size, its flag and the address of the next one; the
operations of the heap do to the stored list what `allocate` and
`Segment.release` do to the segments, and write to headers only.
-/

namespace Mcsos.Kmem

open Mcsos.Machine
open Mcsos.Machine.Prog

/-! ### Headers in memory -/

/-- The byte belongs to the header at `block`. -/
def InHeader (block address : Nat) : Prop := block ≤ address ∧ address < block + 24

/-- A header is read from its own bytes only. -/
theorem KmemWorld.deref_congr {w w' : KmemWorld} {block : UInt64}
    (same : ∀ address, InHeader block.toNat address → w'.memory address = w.memory address) :
    w'.deref block = w.deref block := by
  have field : ∀ offset width, offset + width ≤ 24 →
      readLE w'.memory (block.toNat + offset) width = readLE w.memory (block.toNat + offset) width := by
    intro offset width inside
    apply readLE_congr
    intro position below
    exact same _ ⟨by omega, by omega⟩
  have size := field 0 8 (by decide)
  rw [Nat.add_zero] at size
  unfold KmemWorld.deref
  rw [size, field 8 1 (by decide), field 16 8 (by decide)]

theorem KmemAccess.apply_memory {event : KmemAccess} {address : Nat}
    (untouched : ¬ event.Writes address) (w : KmemWorld) :
    (Event.apply event w).memory address = w.memory address := by
  cases event with
  | storeHead value => rfl
  | storeSize block value => exact writeRange_outside _ _ (by simp only [Writes] at untouched; omega)
  | storeFree block value => exact writeRange_outside _ _ (by simp only [Writes] at untouched; omega)
  | storeNext block value => exact writeRange_outside _ _ (by simp only [Writes] at untouched; omega)

/-- The block whose header the store is to. -/
def KmemAccess.target : KmemAccess → Option UInt64
  | .storeHead _ => none
  | .storeSize block _ | .storeFree block _ | .storeNext block _ => some block

theorem KmemAccess.Writes.inHeader {event : KmemAccess} {address : Nat}
    (writes : event.Writes address) :
    ∃ block, event.target = some block ∧ InHeader block.toNat address := by
  cases event with
  | storeHead value => exact absurd writes id
  | storeSize block value => exact ⟨block, rfl, writes.1, by have := writes.2; omega⟩
  | storeFree block value =>
      have here : address = block.toNat + 8 := writes
      exact ⟨block, rfl, by omega, by omega⟩
  | storeNext block value => exact ⟨block, rfl, by have := writes.1; omega, writes.2⟩

/-- Headers that share no byte do not see each other's stores. -/
theorem KmemAccess.deref_apart {event : KmemAccess} {block other : UInt64}
    (apart : other.toNat + 24 ≤ block.toNat ∨ block.toNat + 24 ≤ other.toNat)
    (target : event.target = some block) (w : KmemWorld) :
    (Event.apply event w : KmemWorld).deref other = w.deref other := by
  apply KmemWorld.deref_congr
  intro address inside
  apply event.apply_memory
  intro writes
  rcases writes.inHeader with ⟨written, isTarget, inTarget⟩
  rw [target, Option.some.injEq] at isTarget
  subst isTarget
  unfold InHeader at inside inTarget
  omega

section

variable (w : KmemWorld) (block : UInt64)

@[simp] theorem deref_storeSize (value : UInt64) :
    (Event.apply (KmemAccess.storeSize block value) w : KmemWorld).deref block =
      { w.deref block with size := value } := by
  have small : value.toNat < 256 ^ 8 := value.toNat_lt
  simp only [KmemWorld.deref, Event.apply, KmemAccess.apply, KmemWorld.store, readLE_writeLE _ _ small,
    readLE_writeLE_apart _ _ (Or.inr (show block.toNat + 8 ≤ block.toNat + 8 by omega)),
    readLE_writeLE_apart _ _ (Or.inr (show block.toNat + 8 ≤ block.toNat + 16 by omega)),
    UInt64.ofNat_toNat]

@[simp] theorem deref_storeFree (value : Bool) :
    (Event.apply (KmemAccess.storeFree block value) w : KmemWorld).deref block =
      { w.deref block with free := value } := by
  have small : value.toNat < 256 ^ 1 := by cases value <;> decide
  simp only [KmemWorld.deref, Event.apply, KmemAccess.apply, KmemWorld.store, readLE_writeLE _ _ small,
    readLE_writeLE_apart _ _ (Or.inl (show block.toNat + 8 ≤ block.toNat + 8 by omega)),
    readLE_writeLE_apart _ _ (Or.inr (show block.toNat + 8 + 1 ≤ block.toNat + 16 by omega))]
  cases value <;> rfl

@[simp] theorem deref_storeNext (value : UInt64) :
    (Event.apply (KmemAccess.storeNext block value) w : KmemWorld).deref block =
      { w.deref block with next := value } := by
  have small : value.toNat < 256 ^ 8 := value.toNat_lt
  simp only [KmemWorld.deref, Event.apply, KmemAccess.apply, KmemWorld.store, readLE_writeLE _ _ small,
    readLE_writeLE_apart _ _ (Or.inl (show block.toNat + 8 ≤ block.toNat + 16 by omega)),
    readLE_writeLE_apart _ _ (Or.inl (show block.toNat + 8 + 1 ≤ block.toNat + 16 by omega)),
    UInt64.ofNat_toNat]

end

/-! ### Taking a block -/

section

variable {w : KmemWorld} {curr size : UInt64}
  (fits : size.toNat ≤ (w.deref curr).size.toNat)
  (inMemory : curr.toNat + 24 + (w.deref curr).size.toNat ≤ 2 ^ 64)

include fits

theorem remaining_toNat :
    ((w.deref curr).size - size).toNat = (w.deref curr).size.toNat - size.toNat :=
  UInt64.toNat_sub_of_le _ _ (UInt64.le_iff_toNat_le.mpr fits)

theorem splits_iff :
    (w.deref curr).size - size > sizeofKmemBlock ↔
      (w.deref curr).size.toNat - size.toNat > 24 := by
  rw [gt_iff_lt, UInt64.lt_iff_toNat_lt, remaining_toNat fits]
  rfl

theorem takeBlock_whole (whole : ¬ (w.deref curr).size.toNat - size.toNat > 24) :
    ((takeBlock curr size).final w).deref curr = { w.deref curr with free := false } ∧
      (takeBlock curr size).Issues (fun event => event.target = some curr) w := by
  have condition := mt (splits_iff fits).mp whole
  simp [takeBlock, splitBlock, condition, KmemAccess.target]

include inMemory

theorem newBlock_toNat (splits : (w.deref curr).size.toNat - size.toNat > 24) :
    (curr + sizeofKmemBlock + size).toNat = curr.toNat + 24 + size.toNat := by
  rw [UInt64.toNat_add, UInt64.toNat_add]
  show ((curr.toNat + 24) % 2 ^ 64 + size.toNat) % 2 ^ 64 = _
  omega

/-- A block with more than a header left over becomes two. -/
theorem takeBlock_split (splits : (w.deref curr).size.toNat - size.toNat > 24) :
    ((takeBlock curr size).final w).deref curr =
        ⟨size, false, curr + sizeofKmemBlock + size⟩ ∧
      ((takeBlock curr size).final w).deref (curr + sizeofKmemBlock + size) =
        ⟨(w.deref curr).size - size - sizeofKmemBlock, true, (w.deref curr).next⟩ ∧
      (takeBlock curr size).Issues
        (fun event => event.target = some curr ∨
          event.target = some (curr + sizeofKmemBlock + size)) w := by
  have place := newBlock_toNat fits inMemory splits
  have condition := (splits_iff fits).mpr splits
  simp only [takeBlock, splitBlock, final_bind, issues_bind, result_get, final_get, final_emit,
    final_pure, condition, if_true]
  generalize curr + sizeofKmemBlock + size = newBlock at place ⊢
  have toNew : ∀ event : KmemAccess, event.target = some newBlock → ∀ s : KmemWorld,
      (Event.apply event s : KmemWorld).deref curr = s.deref curr :=
    fun event target => event.deref_apart (Or.inl (by omega)) target
  have toCurr : ∀ event : KmemAccess, event.target = some curr → ∀ s : KmemWorld,
      (Event.apply event s : KmemWorld).deref newBlock = s.deref newBlock :=
    fun event target => event.deref_apart (Or.inr (by omega)) target
  refine ⟨?_, ?_, ?_⟩
  · simp
  · rw [toCurr _ rfl, toCurr _ rfl, toCurr _ rfl, deref_storeNext, deref_storeFree, deref_storeSize,
      toNew _ rfl, toNew _ rfl]
  · simp [KmemAccess.target]

end

/-! ### Segments in memory -/

def Segment.pointer (segment : Segment) : UInt64 := UInt64.ofNat segment.address

theorem Segment.pointer_toNat {segment : Segment} (inMemory : segment.stop ≤ 2 ^ 64) :
    segment.pointer.toNat = segment.address := by
  have header := segment.address_lt_stop
  rw [Segment.pointer, UInt64.toNat_ofNat']
  omega

theorem Segment.size_toNat {segment : Segment} (inMemory : segment.stop ≤ 2 ^ 64) :
    (UInt64.ofNat segment.size).toNat = segment.size := by
  unfold Segment.stop at inMemory
  rw [UInt64.toNat_ofNat']
  omega

/-- What a header in front of the segments has as its `next`. -/
def pointerTo : List Segment → UInt64
  | [] => 0
  | segment :: _ => segment.pointer

/-- Each segment's header is in memory, linked to the one after it. -/
def Stored (w : KmemWorld) : List Segment → Prop
  | [] => True
  | segment :: rest =>
      w.deref segment.pointer = ⟨UInt64.ofNat segment.size, segment.free, pointerTo rest⟩ ∧
        Stored w rest

theorem Stored.frame {w w' : KmemWorld} {segments : List Segment} (stored : Stored w segments)
    (same : ∀ segment ∈ segments, w'.deref segment.pointer = w.deref segment.pointer) :
    Stored w' segments := by
  induction segments with
  | nil => trivial
  | cons segment rest inductionHypothesis =>
      refine ⟨(same segment (by simp)).trans stored.1, inductionHypothesis stored.2 ?_⟩
      intro later member
      exact same later (by simp [member])

/-- What the header of a stored segment says. -/
theorem Stored.header {w : KmemWorld} {segments : List Segment} (stored : Stored w segments)
    {segment : Segment} (member : segment ∈ segments) :
    ∃ rest, rest ⊆ segments ∧
      w.deref segment.pointer = ⟨UInt64.ofNat segment.size, segment.free, pointerTo rest⟩ := by
  induction segments with
  | nil => simp at member
  | cons head tail inductionHypothesis =>
      rcases List.mem_cons.mp member with rfl | later
      · exact ⟨tail, List.subset_cons_self _ _, stored.1⟩
      · rcases inductionHypothesis stored.2 later with ⟨rest, within, header⟩
        exact ⟨rest, List.subset_cons_of_subset _ within, header⟩

/-- The store is to the header of one of the segments. -/
def KmemAccess.ToHeaders (segments : List Segment) (event : KmemAccess) : Prop :=
  ∃ segment ∈ segments, event.target = some segment.pointer

/-- A header apart from those a program writes to is as it was. -/
theorem deref_of_toHeaders {α : Type} {program : KmemProg α} {w : KmemWorld}
    {written : List Segment} (issues : program.Issues (KmemAccess.ToHeaders written) w)
    {block : UInt64}
    (apart : ∀ segment ∈ written, block.toNat + 24 ≤ segment.pointer.toNat ∨
      segment.pointer.toNat + 24 ≤ block.toNat) :
    (program.final w).deref block = w.deref block := by
  apply final_frame (fun s : KmemWorld => s.deref block)
  intro event issued s
  rcases issues event issued with ⟨segment, member, target⟩
  exact event.deref_apart (apart segment member) target s

theorem gHead_of_toHeaders {α : Type} {program : KmemProg α} {w : KmemWorld}
    {written : List Segment} (issues : program.Issues (KmemAccess.ToHeaders written) w) :
    (program.final w).gHead = w.gHead := by
  apply final_frame (fun s : KmemWorld => s.gHead)
  intro event issued s
  rcases issues event issued with ⟨segment, -, target⟩
  cases event with
  | storeHead value => simp [KmemAccess.target] at target
  | storeSize block value => rfl
  | storeFree block value => rfl
  | storeNext block value => rfl

section

variable {w : KmemWorld} {start stop : Nat} {segments : List Segment}

/-- Segments of a heap in memory are where their addresses say. -/
theorem TilesHeap.pointer_toNat (tiles : TilesHeap start segments stop) (inMemory : stop ≤ 2 ^ 64)
    {segment : Segment} (member : segment ∈ segments) :
    segment.pointer.toNat = segment.address :=
  Segment.pointer_toNat (le_trans (tiles.inside Segment.address_le_stop member).2 inMemory)

theorem TilesHeap.pointer_apart (tiles : TilesHeap start segments stop) (inMemory : stop ≤ 2 ^ 64)
    {segment other : Segment} (member : segment ∈ segments) (later : segment.stop ≤ other.address)
    (otherInMemory : other.stop ≤ 2 ^ 64) :
    segment.pointer.toNat + 24 ≤ other.pointer.toNat := by
  have header := segment.address_lt_stop
  rw [tiles.pointer_toNat inMemory member, Segment.pointer_toNat otherInMemory]
  omega

section

variable {segment : Segment} {after : List Segment} {size : UInt64}
  (stored : Stored w (segment :: after)) (inMemory : segment.stop ≤ 2 ^ 64)
  (fits : segment.Fits size.toNat)

include stored inMemory

theorem Stored.size_toNat : (w.deref segment.pointer).size.toNat = segment.size := by
  rw [stored.1]
  exact Segment.size_toNat inMemory

include fits

theorem Stored.size_le : size.toNat ≤ (w.deref segment.pointer).size.toNat := by
  rw [stored.size_toNat inMemory]
  exact fits.2.2

omit fits in
theorem Stored.ends_inMemory :
    segment.pointer.toNat + 24 + (w.deref segment.pointer).size.toNat ≤ 2 ^ 64 := by
  rw [Segment.pointer_toNat inMemory, stored.size_toNat inMemory]
  exact inMemory

section

variable (splits : segment.size - size.toNat > 24)

include splits

/-- The address of the new header in 64 bits is the one of the second piece. -/
theorem Stored.newBlock_eq : UInt64.ofNat (segment.address + 24 + size.toNat) =
    segment.pointer + sizeofKmemBlock + size := by
  have sizeWord := stored.size_toNat inMemory
  apply UInt64.toNat.inj
  rw [newBlock_toNat (stored.size_le inMemory fits) (stored.ends_inMemory inMemory)
    (by rw [sizeWord]; exact splits), UInt64.toNat_ofNat', Segment.pointer_toNat inMemory]
  unfold Segment.stop at inMemory
  omega

theorem Stored.newSize_eq : UInt64.ofNat (segment.size - size.toNat - 24) =
    (w.deref segment.pointer).size - size - sizeofKmemBlock := by
  have sizeWord := stored.size_toNat inMemory
  have fitsWord := stored.size_le inMemory fits
  have large : sizeofKmemBlock ≤ (w.deref segment.pointer).size - size :=
    UInt64.le_of_lt ((splits_iff fitsWord).mpr (by rw [sizeWord]; exact splits))
  apply UInt64.toNat.inj
  rw [UInt64.toNat_sub_of_le _ _ large, remaining_toNat fitsWord, UInt64.toNat_ofNat', sizeWord]
  show _ = segment.size - size.toNat - 24
  unfold Segment.stop at inMemory
  omega

end

/-- The headers that come of a block that is taken, and nothing but stores to
them. -/
theorem takeBlock_headers :
    (Stored ((takeBlock segment.pointer size).final w) after →
        Stored ((takeBlock segment.pointer size).final w) (segment.take size.toNat ++ after)) ∧
      (takeBlock segment.pointer size).Issues
        (KmemAccess.ToHeaders (segment.take size.toNat)) w := by
  have sizeWord := stored.size_toNat inMemory
  have fitsWord := stored.size_le inMemory fits
  by_cases splits : segment.size - size.toNat > 24
  · have newPlace := stored.newBlock_eq inMemory fits splits
    have newSize := stored.newSize_eq inMemory fits splits
    rw [segment.take_split splits]
    rw [← sizeWord] at splits
    rcases takeBlock_split fitsWord (stored.ends_inMemory inMemory) splits with
      ⟨curr, newBlock, issues⟩
    constructor
    · intro kept
      refine ⟨?_, ?_, kept⟩
      · show ((takeBlock segment.pointer size).final w).deref segment.pointer =
          ⟨UInt64.ofNat size.toNat, false, UInt64.ofNat (segment.address + 24 + size.toNat)⟩
        rw [curr, newPlace, UInt64.ofNat_toNat]
      · show ((takeBlock segment.pointer size).final w).deref
            (UInt64.ofNat (segment.address + 24 + size.toNat)) =
          ⟨UInt64.ofNat (segment.size - size.toNat - 24), true, pointerTo after⟩
        rw [newPlace, newBlock, newSize, stored.1]
    · intro event issued
      rcases issues event issued with target | target
      · exact ⟨_, List.mem_cons_self, target⟩
      · exact ⟨_, List.mem_cons_of_mem _ List.mem_cons_self, target.trans (by rw [← newPlace]; rfl)⟩
  · rw [segment.take_whole splits]
    rw [← sizeWord] at splits
    rcases takeBlock_whole fitsWord splits with ⟨curr, issues⟩
    constructor
    · intro kept
      refine ⟨?_, kept⟩
      show ((takeBlock segment.pointer size).final w).deref segment.pointer =
        ⟨UInt64.ofNat segment.size, false, pointerTo after⟩
      rw [curr, stored.1]
    · intro event issued
      exact ⟨_, List.mem_cons_self, issues event issued⟩

end

theorem takeBlock_result (segment : Segment) (size : UInt64) :
    (takeBlock segment.pointer size).result w = UInt64.ofNat segment.payload := by
  simp only [takeBlock, result_bind, result_pure]
  rw [Segment.pointer, Segment.payload, UInt64.ofNat_add]
  rfl

/-- Taking a block that fits, in the list of blocks it heads. -/
theorem takeBlock_stored {segment : Segment} {after : List Segment} {size : UInt64}
    (stored : Stored w (segment :: after)) (tiles : TilesHeap start (segment :: after) stop)
    (inMemory : stop ≤ 2 ^ 64) (fits : segment.Fits size.toNat) :
    Stored ((takeBlock segment.pointer size).final w) (segment.take size.toNat ++ after) ∧
      (takeBlock segment.pointer size).Issues
        (KmemAccess.ToHeaders (segment.take size.toNat)) w := by
  have last := (tiles.inside Segment.address_le_stop List.mem_cons_self).2
  have segmentInMemory : segment.stop ≤ 2 ^ 64 := by omega
  rcases takeBlock_headers stored segmentInMemory fits with ⟨taken, issues⟩
  refine ⟨taken (stored.2.frame ?_), issues⟩
  intro later member
  apply deref_of_toHeaders issues
  intro piece isPiece
  have pieces := Segment.take_tiles fits
  have behind := (tiles.2.inside Segment.address_le_stop member)
  right
  apply pieces.pointer_apart segmentInMemory isPiece
  · have inside := (pieces.inside Segment.address_le_stop isPiece).2
    omega
  · omega

theorem pointerTo_allocate (size : Nat) (segments : List Segment) :
    pointerTo (allocate size segments).2 = pointerTo segments := by
  cases segments with
  | nil => rfl
  | cons segment rest =>
      by_cases fits : segment.Fits size
      · rw [allocate, if_pos fits]
        by_cases splits : segment.size - size > 24
        · rw [segment.take_split splits]
          rfl
        · rw [segment.take_whole splits]
          rfl
      · rw [allocate, if_neg fits]
        rfl

/-- A block is taken where its segment fits the request. -/
theorem Stored.takes_iff {segment : Segment} {after : List Segment} {size : UInt64}
    (stored : Stored w (segment :: after)) (inMemory : segment.stop ≤ 2 ^ 64) (asked : size ≠ 0) :
    ((w.deref segment.pointer).free = true ∧ (w.deref segment.pointer).size ≥ size) ↔
      segment.Fits size.toNat := by
  have positive : 0 < size.toNat := toNat_pos_of_ne_zero asked
  rw [ge_iff_le, UInt64.le_iff_toNat_le, stored.size_toNat inMemory, stored.1]
  simp [Segment.Fits, positive]

/-- The walk of `kmalloc` places the request as `allocate` does, and ends. -/
theorem kmallocFrom_stored {size : UInt64} (asked : size ≠ 0) {rounds : Nat}
    (stored : Stored w segments) (tiles : TilesHeap start segments stop) (notNull : 0 < start)
    (inMemory : stop ≤ 2 ^ 64) (enough : segments.length < rounds) :
    (kmallocFrom size rounds (pointerTo segments)).result w =
        some (UInt64.ofNat (allocate size.toNat segments).1) ∧
      Stored ((kmallocFrom size rounds (pointerTo segments)).final w)
        (allocate size.toNat segments).2 ∧
      (kmallocFrom size rounds (pointerTo segments)).Issues
        (KmemAccess.ToHeaders (allocate size.toNat segments).2) w := by
  induction segments generalizing start rounds with
  | nil =>
      rcases rounds with _ | rounds
      · simp at enough
      · simp [kmallocFrom, pointerTo, allocate, Stored]
  | cons segment rest inductionHypothesis =>
      rcases rounds with _ | rounds
      · simp at enough
      · have place := tiles.pointer_toNat inMemory List.mem_cons_self
        have begins := tiles.1
        have present : segment.pointer ≠ 0 := by
          intro null
          rw [null, begins] at place
          exact absurd place.symm notNull.ne'
        have last := (tiles.inside Segment.address_le_stop List.mem_cons_self).2
        have takes := stored.takes_iff (le_trans last inMemory) asked
        by_cases fits : segment.Fits size.toNat
        · rcases takeBlock_stored stored tiles inMemory fits with ⟨kept, issues⟩
          simp only [kmallocFrom, pointerTo, present, if_false, result_bind, final_bind, issues_bind,
            result_get, final_get, issues_get, takes, fits, if_true, allocate, result_pure,
            final_pure, issues_pure, takeBlock_result, true_and, and_true]
          refine ⟨kept, ?_⟩
          intro event issued
          rcases issues event issued with ⟨piece, isPiece, target⟩
          exact ⟨piece, List.mem_append_left _ isPiece, target⟩
        · have next : (w.deref segment.pointer).next = pointerTo rest := by rw [stored.1]
          have header := segment.address_lt_stop
          rcases inductionHypothesis stored.2 tiles.2 (by omega)
            (show rest.length < rounds by simpa using enough) with ⟨answer, kept, issues⟩
          simp only [kmallocFrom, pointerTo, present, if_false, result_bind, final_bind, issues_bind,
            result_get, final_get, issues_get, takes, fits, allocate, next, true_and]
          refine ⟨answer, ⟨?_, kept⟩, ?_⟩
          · rw [pointerTo_allocate, ← stored.1]
            -- every store of the walk is behind this segment
            apply deref_of_toHeaders issues
            intro piece isPiece
            have behind := (allocate_tiles size.toNat tiles.2).inside Segment.address_le_stop isPiece
            exact Or.inl (tiles.pointer_apart inMemory List.mem_cons_self behind.1
              (le_trans behind.2 inMemory))
          · intro event issued
            rcases issues event issued with ⟨piece, isPiece, target⟩
            exact ⟨piece, List.mem_cons_of_mem _ isPiece, target⟩

theorem pointerTo_map {change : Segment → Segment}
    (sameAddress : ∀ segment, (change segment).address = segment.address)
    (segments : List Segment) : pointerTo (segments.map change) = pointerTo segments := by
  cases segments with
  | nil => rfl
  | cons segment rest =>
      show UInt64.ofNat (change segment).address = UInt64.ofNat segment.address
      rw [sameAddress]

theorem Stored.map {w' : KmemWorld} {change : Segment → Segment} (stored : Stored w segments)
    (sameAddress : ∀ segment, (change segment).address = segment.address)
    (sameSize : ∀ segment, (change segment).size = segment.size)
    (flags : ∀ segment ∈ segments, w'.deref segment.pointer =
      { w.deref segment.pointer with free := (change segment).free }) :
    Stored w' (segments.map change) := by
  induction segments with
  | nil => trivial
  | cons segment rest inductionHypothesis =>
      refine ⟨?_, inductionHypothesis stored.2 fun later member => flags later (by simp [member])⟩
      rw [Segment.pointer, sameAddress, sameSize, pointerTo_map sameAddress, ← Segment.pointer,
        flags segment (by simp), stored.1]

/-- The header of a payload is the one in front of it. -/
theorem kfree_payload {ptr : UInt64} (tiles : TilesHeap start segments stop)
    (inMemory : stop ≤ 2 ^ 64) {freed : Segment} (member : freed ∈ segments)
    (isPayload : ptr.toNat = freed.payload) : kfree ptr = emit (.storeFree freed.pointer true) := by
  have header : sizeofKmemBlock ≤ ptr := by
    rw [UInt64.le_iff_toNat_le, isPayload]
    exact Nat.le_add_left 24 _
  have notNull : ptr ≠ 0 := by
    intro null
    rw [null] at header
    exact absurd header (by decide)
  have block : ptr - sizeofKmemBlock = freed.pointer := by
    apply UInt64.toNat.inj
    rw [UInt64.toNat_sub_of_le _ _ header, isPayload, tiles.pointer_toNat inMemory member]
    exact Nat.add_sub_cancel _ 24
  rw [kfree, if_neg notNull, block]

/-- A store to the header of one segment leaves those of the others. -/
theorem TilesHeap.deref_storeFree_other (tiles : TilesHeap start segments stop)
    (inMemory : stop ≤ 2 ^ 64) {segment other : Segment} (member : segment ∈ segments)
    (otherMember : other ∈ segments) (different : segment ≠ other) (free : Bool) (w : KmemWorld) :
    (Event.apply (KmemAccess.storeFree other.pointer free) w).deref segment.pointer =
      w.deref segment.pointer := by
  have inside : ∀ piece ∈ segments, piece.stop ≤ 2 ^ 64 := fun piece isPiece =>
    le_trans (tiles.inside Segment.address_le_stop isPiece).2 inMemory
  apply KmemAccess.deref_apart _ rfl w
  rcases tiles.apart Segment.address_le_stop member otherMember with same | earlier | later
  · exact absurd same different
  · exact Or.inl (tiles.pointer_apart inMemory member earlier (inside other otherMember))
  · exact Or.inr (tiles.pointer_apart inMemory otherMember later (inside segment member))

/-- Giving back the payload of a segment makes that segment free. -/
theorem kfree_stored {ptr : UInt64} (stored : Stored w segments)
    (tiles : TilesHeap start segments stop) (inMemory : stop ≤ 2 ^ 64) {freed : Segment}
    (member : freed ∈ segments) (isPayload : ptr.toNat = freed.payload) :
    Stored ((kfree ptr).final w) (segments.map (Segment.release ptr.toNat)) ∧
      (kfree ptr).Issues (KmemAccess.ToHeaders segments) w := by
  rw [kfree_payload tiles inMemory member isPayload]
  constructor
  · apply stored.map (Segment.release_address _) (Segment.release_size _)
    intro segment isSegment
    rw [final_emit]
    by_cases isFreed : segment = freed
    · subst isFreed
      rw [deref_storeFree, Segment.release, if_pos isPayload.symm]
    · have otherPayload : segment.payload ≠ ptr.toNat := by
        intro same
        apply isFreed
        apply tiles.eq_of_address isSegment member
        exact Nat.add_right_cancel (same.trans isPayload)
      rcases stored.header isSegment with ⟨rest, -, header⟩
      rw [tiles.deref_storeFree_other inMemory isSegment member isFreed, header,
        Segment.release_of_ne otherPayload]
  · rw [issues_emit]
    exact ⟨freed, member, rfl⟩

end

/-! ### The heap of a buffer -/

/-- A buffer that `kmem_init` can use: it is somewhere, ends in memory, and
has room for a header. -/
structure Buffer (buffer size : UInt64) : Prop where
  notNull : buffer ≠ 0
  inMemory : buffer.toNat + size.toNat ≤ 2 ^ 64
  holdsHeader : 24 ≤ size.toNat

/-- The blocks found from `g_head` on are the segments, which tile the
buffer. -/
structure Represents (buffer size : UInt64) (w : KmemWorld) (segments : List Segment) : Prop where
  head : w.gHead = pointerTo segments
  stored : Stored w segments
  tiles : TilesHeap buffer.toNat segments (buffer.toNat + size.toNat)

section

variable {buffer size : UInt64}

theorem kmemInit_represents (usable : Buffer buffer size) (w : KmemWorld) :
    Represents buffer size ((kmemInit buffer size).final w)
      [⟨buffer.toNat, size.toNat - 24, true⟩] := by
  have room := usable.holdsHeader
  have header : sizeofKmemBlock ≤ size := UInt64.le_iff_toNat_le.mpr room
  have payload : UInt64.ofNat (size.toNat - 24) = size - sizeofKmemBlock := by
    apply UInt64.toNat.inj
    rw [UInt64.toNat_sub_of_le _ _ header, UInt64.toNat_ofNat']
    exact Nat.mod_eq_of_lt (lt_of_le_of_lt (Nat.sub_le _ _) size.toNat_lt)
  refine ⟨?_, ⟨?_, trivial⟩, rfl, ?_⟩
  · show buffer = UInt64.ofNat buffer.toNat
    rw [UInt64.ofNat_toNat]
  · simp [kmemInit, pointerTo, Segment.pointer, payload]
  · show buffer.toNat + 24 + (size.toNat - 24) = buffer.toNat + size.toNat
    omega

variable {w : KmemWorld} {segments : List Segment} (usable : Buffer buffer size)
  (represents : Represents buffer size w segments)

include usable represents

/-- A walk visits each block once, and there is room for fewer of them than
there are pointers. -/
theorem Represents.length_lt : segments.length < walkRounds := by
  have room := represents.tiles.length_le Segment.address_lt_stop
  have inMemory := usable.inMemory
  unfold walkRounds
  omega

/-- `kmalloc` is `allocate`, done by stores to headers. -/
theorem Represents.kmalloc (request : UInt64) :
    (Kmem.kmalloc request).result w =
        some (UInt64.ofNat (allocate request.toNat segments).1) ∧
      Represents buffer size ((Kmem.kmalloc request).final w) (allocate request.toNat segments).2 ∧
      (Kmem.kmalloc request).Issues
        (KmemAccess.ToHeaders (allocate request.toNat segments).2) w := by
  by_cases asked : request = 0
  · subst asked
    have nothing : allocate (0 : UInt64).toNat segments = (0, segments) := allocate_zero segments
    rw [nothing]
    refine ⟨rfl, represents, ?_⟩
    simp [Kmem.kmalloc]
  · have notNull : 0 < buffer.toNat := toNat_pos_of_ne_zero usable.notNull
    rcases kmallocFrom_stored asked represents.stored represents.tiles notNull usable.inMemory
      (represents.length_lt usable) with ⟨answer, stored, issues⟩
    simp only [Kmem.kmalloc, asked, if_false, result_bind, final_bind, issues_bind, result_get,
      final_get, issues_get, true_and, represents.head]
    refine ⟨answer, ⟨?_, stored, allocate_tiles _ represents.tiles⟩, issues⟩
    rw [gHead_of_toHeaders issues, represents.head, pointerTo_allocate]

theorem Represents.kfree {ptr : UInt64} {freed : Segment} (member : freed ∈ segments)
    (isPayload : ptr.toNat = freed.payload) :
    Represents buffer size ((Kmem.kfree ptr).final w)
        (segments.map (Segment.release ptr.toNat)) ∧
      (Kmem.kfree ptr).Issues (KmemAccess.ToHeaders segments) w := by
  rcases kfree_stored represents.stored represents.tiles usable.inMemory member isPayload with
    ⟨stored, issues⟩
  refine ⟨⟨?_, stored, release_tiles _ represents.tiles⟩, issues⟩
  rw [gHead_of_toHeaders issues, represents.head, pointerTo_map (Segment.release_address _)]

end

end Mcsos.Kmem
