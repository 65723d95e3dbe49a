import Mcsos.Kmem.Recovery

/-!
Contract: `kmalloc` takes the lowest free block that is large enough, cuts it
where more than a header is left over, and changes nothing else.

The state is given by what is in memory: the blocks that the walk visits tile
the buffer. Their segments are read off it, so whatever is known of the
segments holds of every such state and not only of those that a run leads to.
-/

namespace Mcsos.Kmem

open Mcsos.Machine
open Mcsos.Machine.Prog

/-! ### The segments of a tiled buffer -/

/-- The segment that a block's header describes. -/
def KmemWorld.segmentAt (w : KmemWorld) (block : UInt64) : Segment :=
  ⟨block.toNat, (w.deref block).size.toNat, (w.deref block).free⟩

theorem Segment.pointer_of_address {segment : Segment} {block : UInt64}
    (begins : segment.address = block.toNat) : segment.pointer = block := by
  rw [Segment.pointer, begins, UInt64.ofNat_toNat]

@[simp] theorem segmentAt_pointer (w : KmemWorld) (block : UInt64) :
    (w.segmentAt block).pointer = block :=
  Segment.pointer_of_address rfl

theorem Visits.head {w : KmemWorld} {curr : UInt64} {blocks : List UInt64}
    (visits : Visits w curr blocks) : curr = pointerTo (blocks.map w.segmentAt) := by
  cases blocks with
  | nil => exact visits
  | cons block rest => exact visits.1.trans (segmentAt_pointer w block).symm

theorem Visits.stored {w : KmemWorld} {curr : UInt64} {blocks : List UInt64}
    (visits : Visits w curr blocks) : Stored w (blocks.map w.segmentAt) := by
  induction blocks generalizing curr with
  | nil => trivial
  | cons block rest inductionHypothesis =>
      obtain ⟨-, -, later⟩ := visits
      refine ⟨?_, inductionHypothesis later⟩
      rw [segmentAt_pointer, ← later.head]
      simp [KmemWorld.segmentAt]

theorem TiledBy.represents {buffer size : UInt64} {w : KmemWorld} {blocks : List UInt64}
    (tiled : TiledBy buffer size w blocks) :
    Represents buffer size w (blocks.map w.segmentAt) where
  head := tiled.visits.head
  stored := tiled.visits.stored
  tiles := tiled.tiles.map (fun _ _ => rfl) fun _ _ => rfl

/-! ### Headers that stay -/

theorem Stored.drop {w : KmemWorld} {front back : List Segment}
    (stored : Stored w (front ++ back)) : Stored w back := by
  induction front with
  | nil => exact stored
  | cons segment rest inductionHypothesis => exact inductionHypothesis stored.2

theorem pointerTo_append {front back other : List Segment}
    (joined : pointerTo other = pointerTo back) :
    pointerTo (front ++ other) = pointerTo (front ++ back) := by
  cases front with
  | nil => exact joined
  | cons segment rest => rfl

/-- Lists that begin alike and go on at the same address have the same headers
in front. -/
theorem Stored.same_headers {w w' : KmemWorld} {front back other : List Segment}
    (stored : Stored w (front ++ back)) (storedAfter : Stored w' (front ++ other))
    (joined : pointerTo other = pointerTo back) :
    ∀ segment ∈ front, w'.deref segment.pointer = w.deref segment.pointer := by
  induction front with
  | nil => simp
  | cons segment rest inductionHypothesis =>
      rw [List.cons_append] at stored storedAfter
      intro member isMember
      rcases List.mem_cons.mp isMember with rfl | later
      · rw [stored.1, storedAfter.1, pointerTo_append joined]
      · exact inductionHypothesis stored.2 storedAfter.2 member later

/-! ### A request that no block can hold -/

theorem kmallocFrom_unplaced {w : KmemWorld} {start stop : Nat} {segments : List Segment}
    {size : UInt64} (asked : size ≠ 0) {rounds : Nat} (stored : Stored w segments)
    (tiles : TilesHeap start segments stop) (inMemory : stop ≤ 2 ^ 64)
    (none : ∀ segment ∈ segments, ¬ segment.Fits size.toNat) :
    (kmallocFrom size rounds (pointerTo segments)).final w = w := by
  induction segments generalizing start rounds with
  | nil =>
      cases rounds with
      | zero => rfl
      | succ rounds => simp [kmallocFrom, pointerTo]
  | cons segment rest inductionHypothesis =>
      cases rounds with
      | zero => rfl
      | succ rounds =>
          have last := (tiles.inside Segment.address_le_stop List.mem_cons_self).2
          have takes := stored.takes_iff (le_trans last inMemory) asked
          have unfit := none segment List.mem_cons_self
          have next : (w.deref segment.pointer).next = pointerTo rest := by rw [stored.1]
          have later : (kmallocFrom size rounds (pointerTo rest)).final w = w :=
            inductionHypothesis stored.2 tiles.2
              fun other member => none other (List.mem_cons_of_mem _ member)
          by_cases null : segment.pointer = 0
          · simp [kmallocFrom, pointerTo, null]
          · simp only [kmallocFrom, pointerTo, null, if_false, final_bind, result_get, final_get,
              takes, unfit, next]
            exact later

/-! ### A request that is placed -/

/-- So many bytes fewer are free in the second heap. -/
def FreeBytesDrop (w w' : KmemWorld) (drop : Nat) : Prop :=
  ∃ total left, kmemGetFreeBytes w = some total ∧ kmemGetFreeBytes w' = some left ∧
    left.toNat + drop = total.toNat

theorem freeTotal_append (before after : List Segment) :
    freeTotal (before ++ after) = freeTotal before + freeTotal after := by
  simp [freeTotal]

theorem pointerTo_take (segment : Segment) (size : Nat) (after : List Segment) :
    pointerTo (segment.take size ++ after) = pointerTo (segment :: after) := by
  by_cases splits : segment.size - size > 24
  · rw [segment.take_split splits]
    rfl
  · rw [segment.take_whole splits]
    rfl

section

variable {buffer size request : UInt64} {w : KmemWorld}

/-- There is nothing to place the request in: null is returned, and nothing is
stored. -/
theorem Represents.kmalloc_unplaced {segments : List Segment} (notNull : buffer ≠ 0)
    (inMemory : buffer.toNat + size.toNat ≤ 2 ^ 64)
    (represents : Represents buffer size w segments)
    (none : ∀ segment ∈ segments, ¬ segment.Fits request.toNat) :
    (Kmem.kmalloc request).result w = some 0 ∧ (Kmem.kmalloc request).final w = w := by
  by_cases asked : request = 0
  · simp [Kmem.kmalloc, asked]
  · have few : segments.length < walkRounds := by
      have room := represents.tiles.length_le Segment.address_lt_stop
      unfold walkRounds
      omega
    have answer := (kmallocFrom_stored asked represents.stored represents.tiles
      (toNat_pos_of_ne_zero notNull) inMemory few).1
    have nowhere : (allocate request.toNat segments).1 = 0 := by
      rcases allocate_cases request.toNat segments with ⟨same, -⟩ | ⟨before, segment, after, rfl,
        fits, -, -⟩
      · rw [same]
      · exact absurd fits (none segment (by simp))
    rw [nowhere] at answer
    simp only [Kmem.kmalloc, asked, if_false, result_bind, final_bind, result_get, final_get,
      represents.head]
    exact ⟨answer, kmallocFrom_unplaced asked represents.stored represents.tiles inMemory none⟩

/-- The heap before and after a request is placed in one of its segments. -/
structure Placed (buffer size request : UInt64) (w : KmemWorld) (before : List Segment)
    (segment : Segment) (after : List Segment) : Prop where
  entry : Represents buffer size w (before ++ segment :: after)
  fits : segment.Fits request.toNat
  answer : (kmalloc request).result w = some (UInt64.ofNat segment.payload)
  exit : Represents buffer size ((kmalloc request).final w)
    (before ++ segment.take request.toNat ++ after)
  issues : (kmalloc request).Issues
    (KmemAccess.ToHeaders (before ++ segment.take request.toNat ++ after)) w

variable {before after : List Segment} {segment : Segment}
  (placed : Placed buffer size request w before segment after)

include placed

/-- No other header changes. -/
theorem Placed.others : ∀ other ∈ before ++ after,
    ((kmalloc request).final w).deref other.pointer = w.deref other.pointer := by
  have stored := placed.entry.stored
  have storedAfter := placed.exit.stored
  rw [List.append_assoc] at storedAfter
  intro other member
  rcases List.mem_append.mp member with front | back
  · exact stored.same_headers storedAfter (pointerTo_take _ _ _) other front
  · have behind : Stored w (after ++ []) := by rw [List.append_nil]; exact stored.drop.2
    have behindAfter : Stored ((kmalloc request).final w) (after ++ []) := by
      rw [List.append_nil]
      exact storedAfter.drop.drop
    exact behind.same_headers behindAfter rfl other back

/-- No byte of a payload in use changes. -/
theorem Placed.payloads (usable : Buffer buffer size) {other : Segment}
    (member : other ∈ before ++ segment :: after) (used : other.free = false) {address : Nat}
    (inside : other.payload ≤ address ∧ address < other.stop) :
    ((kmalloc request).final w).memory address = w.memory address := by
  have kept : other ∈ before ++ segment.take request.toNat ++ after := by
    have different : other ≠ segment := by
      rintro rfl
      rw [placed.fits.1] at used
      cases used
    simp only [List.mem_append, List.mem_cons, different, false_or] at member ⊢
    exact member.elim (fun front => Or.inl (Or.inl front)) Or.inr
  apply final_frame (fun s : KmemWorld => s.memory address)
  intro event issued s
  exact event.apply_memory ((placed.issues event issued).spares placed.exit.tiles usable.inMemory
    kept inside) s

/-- What `kmem_get_free_bytes` returns drops by what the segment had and the
pieces do not. -/
theorem Placed.freeBytes (usable : Buffer buffer size) {drop : Nat}
    (pieces : freeTotal (segment.take request.toNat) + drop = segment.size) :
    FreeBytesDrop w ((kmalloc request).final w) drop := by
  refine ⟨_, _, placed.entry.freeBytes usable, placed.exit.freeBytes usable, ?_⟩
  rw [placed.entry.freeTotal_toNat usable, placed.exit.freeTotal_toNat usable]
  have here : freeTotal (segment :: after) = segment.size + freeTotal after := by
    simp [freeTotal, placed.fits.1]
  rw [freeTotal_append, freeTotal_append, freeTotal_append, here]
  omega

end

/-! ### Blocks in memory -/

/-- The block is free and large enough. -/
def KmemWorld.Suits (w : KmemWorld) (request block : UInt64) : Prop :=
  (w.deref block).free = true ∧ request ≤ (w.deref block).size

instance (w : KmemWorld) (request block : UInt64) : Decidable (w.Suits request block) :=
  inferInstanceAs (Decidable (_ ∧ _))

/-- The block is used for the request, and a new free block behind it has what
is left over. -/
structure CutInTwo (buffer size request : UInt64) (w w' : KmemWorld) (before : List UInt64)
    (block : UInt64) (after : List UInt64) : Prop where
  tiled : TiledBy buffer size w'
    (before ++ [block, block + sizeofKmemBlock + request] ++ after)
  taken : w'.deref block = ⟨request, false, block + sizeofKmemBlock + request⟩
  remainder : w'.deref (block + sizeofKmemBlock + request) =
    ⟨UInt64.ofNat ((w.deref block).size.toNat - request.toNat - 24), true, (w.deref block).next⟩
  freeBytes : FreeBytesDrop w w' (request.toNat + 24)

/-- The whole block is used for the request. -/
structure TakenWhole (buffer size : UInt64) (w w' : KmemWorld) (before : List UInt64)
    (block : UInt64) (after : List UInt64) : Prop where
  tiled : TiledBy buffer size w' (before ++ [block] ++ after)
  taken : w'.deref block = { w.deref block with free := false }
  freeBytes : FreeBytesDrop w w' (w.deref block).size.toNat

/-- `kmalloc` returns the payload of the lowest block that suits the request,
and changes no other block and no payload that is in use. -/
structure TakesFirst (buffer size request : UInt64) (w w' : KmemWorld) (before : List UInt64)
    (block : UInt64) (after : List UInt64) : Prop where
  suits : w.Suits request block
  lowest : ∀ other ∈ before ++ block :: after, w.Suits request other → block.toNat ≤ other.toNat
  answer : (kmalloc request).result w = some (block + sizeofKmemBlock)
  cut : (w.deref block).size.toNat > request.toNat + 24 →
    CutInTwo buffer size request w w' before block after
  whole : ¬ (w.deref block).size.toNat > request.toNat + 24 →
    TakenWhole buffer size w w' before block after
  others : ∀ other ∈ before ++ after, w'.deref other = w.deref other
  payloads : ∀ other ∈ before ++ block :: after, (w.deref other).free = false →
    ∀ address, other.toNat + 24 ≤ address → address < w.blockEnd other →
      w'.memory address = w.memory address

section

variable {buffer size request : UInt64} {w : KmemWorld} {before after : List UInt64}
  {block : UInt64}

theorem segmentAt_fits_iff (asked : request ≠ 0) (block : UInt64) :
    (w.segmentAt block).Fits request.toNat ↔ w.Suits request block := by
  have positive : 0 < request.toNat := toNat_pos_of_ne_zero asked
  rw [KmemWorld.Suits, UInt64.le_iff_toNat_le]
  simp [KmemWorld.segmentAt, Segment.Fits, positive]

theorem pointer_newBlock (w : KmemWorld) (request block : UInt64) (size : Nat) (free : Bool) :
    (⟨(w.segmentAt block).address + 24 + request.toNat, size, free⟩ : Segment).pointer =
      block + sizeofKmemBlock + request := by
  rw [Segment.pointer, UInt64.ofNat_add, UInt64.ofNat_add, UInt64.ofNat_toNat, KmemWorld.segmentAt,
    UInt64.ofNat_toNat]
  rfl

variable (placed : Placed buffer size request w (before.map w.segmentAt) (w.segmentAt block)
  (after.map w.segmentAt)) (usable : Buffer buffer size)

include placed usable

theorem Placed.cutInTwo (splits : (w.deref block).size.toNat > request.toNat + 24) :
    CutInTwo buffer size request w ((kmalloc request).final w) before block after := by
  have pieces : (w.segmentAt block).take request.toNat = _ :=
    (w.segmentAt block).take_split (by simp only [KmemWorld.segmentAt]; omega)
  have tiled := placed.exit.tiledBy usable
  have stored := placed.exit.stored
  rw [List.append_assoc] at stored
  have headers := stored.drop
  rw [pieces] at tiled
  rw [pieces, List.cons_append, List.cons_append, List.nil_append] at headers
  obtain ⟨taken, remainder, -⟩ := headers
  have place : (⟨(w.segmentAt block).address, request.toNat, false⟩ : Segment).pointer = block :=
    Segment.pointer_of_address rfl
  have next : pointerTo (after.map w.segmentAt) = (w.deref block).next := by
    have header := placed.entry.stored.drop.1
    rw [segmentAt_pointer] at header
    rw [header]
  refine ⟨?_, ?_, ?_, placed.freeBytes usable ?_⟩
  · rw [List.map_append, List.map_append, List.map_cons, List.map_cons, pointer_newBlock] at tiled
    simpa [Function.comp_def, Segment.pointer, KmemWorld.segmentAt] using tiled
  · rw [place] at taken
    rw [taken, pointerTo, pointer_newBlock, UInt64.ofNat_toNat]
  · rw [pointer_newBlock] at remainder
    rw [remainder, next, KmemWorld.segmentAt]
  · rw [pieces]
    simp [freeTotal, KmemWorld.segmentAt]
    omega

theorem Placed.takenWhole (whole : ¬ (w.deref block).size.toNat > request.toNat + 24) :
    TakenWhole buffer size w ((kmalloc request).final w) before block after := by
  have pieces : (w.segmentAt block).take request.toNat = _ :=
    (w.segmentAt block).take_whole (by simp only [KmemWorld.segmentAt]; omega)
  have tiled := placed.exit.tiledBy usable
  have stored := placed.exit.stored
  rw [List.append_assoc] at stored
  have headers := stored.drop
  rw [pieces] at tiled headers
  obtain ⟨taken, -⟩ := headers
  have place : ({ w.segmentAt block with free := false } : Segment).pointer = block :=
    Segment.pointer_of_address rfl
  have header := placed.entry.stored.drop.1
  rw [segmentAt_pointer] at header
  refine ⟨?_, ?_, placed.freeBytes usable ?_⟩
  · simpa [Function.comp_def, Segment.pointer, KmemWorld.segmentAt] using tiled
  · rw [place] at taken
    rw [taken, header]
    rfl
  · rw [pieces]
    simp [freeTotal, KmemWorld.segmentAt]

theorem Placed.takesFirst (unfit : ∀ other ∈ before, ¬ w.Suits request other)
    (tiled : TiledBy buffer size w (before ++ block :: after)) :
    TakesFirst buffer size request w ((kmalloc request).final w) before block after := by
  have asked : request ≠ 0 := by
    rintro rfl
    exact absurd placed.fits.2.1 (Nat.lt_irrefl 0)
  have increasing := (List.pairwise_append.mp tiled.increasing).2.1
  refine ⟨(segmentAt_fits_iff asked block).mp placed.fits, ?_, ?_, placed.cutInTwo usable,
    placed.takenWhole usable, ?_, ?_⟩
  · intro other member suits
    rcases List.mem_append.mp member with front | back
    · exact absurd suits (unfit other front)
    · rcases List.mem_cons.mp back with rfl | later
      · exact Nat.le_refl _
      · exact ((List.pairwise_cons.mp increasing).1 other later).le
  · rw [placed.answer, Segment.payload, KmemWorld.segmentAt, UInt64.ofNat_add, UInt64.ofNat_toNat]
    rfl
  · intro other member
    have same := placed.others (w.segmentAt other) (by
      rw [← List.map_append]
      exact List.mem_map_of_mem member)
    rwa [segmentAt_pointer] at same
  · intro other member used address lower upper
    have isSegment : w.segmentAt other ∈
        before.map w.segmentAt ++ w.segmentAt block :: after.map w.segmentAt := by
      rw [← List.map_cons, ← List.map_append]
      exact List.mem_map_of_mem member
    exact placed.payloads usable isSegment used ⟨lower, upper⟩

end

/-- A buffer with a block in it is one that `kmem_init` can use. -/
theorem TiledBy.usable {buffer size : UInt64} {w : KmemWorld} {blocks : List UInt64}
    (tiled : TiledBy buffer size w blocks) (notNull : buffer ≠ 0)
    (inMemory : buffer.toNat + size.toNat ≤ 2 ^ 64) {block : UInt64} (member : block ∈ blocks) :
    Buffer buffer size := by
  have forward : ∀ block : UInt64, block.toNat ≤ w.blockEnd block := by
    intro block
    unfold KmemWorld.blockEnd
    omega
  have inside := tiled.tiles.inside forward member
  refine ⟨notNull, inMemory, ?_⟩
  unfold KmemWorld.blockEnd at inside
  omega

/-- `kmalloc` on a heap whose blocks tile the buffer: null, and nothing
changes, for a request of 0 and where no free block is large enough; otherwise
the lowest one that is. -/
theorem kmalloc_first_fit {buffer size : UInt64} {w : KmemWorld} {blocks : List UInt64}
    (notNull : buffer ≠ 0) (inMemory : buffer.toNat + size.toNat ≤ 2 ^ 64)
    (tiled : TiledBy buffer size w blocks) (request : UInt64) :
    ((kmalloc request).result w = some 0 ↔
        request = 0 ∨ ∀ block ∈ blocks, ¬ w.Suits request block) ∧
      ((kmalloc request).result w = some 0 → (kmalloc request).final w = w) ∧
      ((kmalloc request).result w ≠ some 0 →
        ∃ before block after, blocks = before ++ block :: after ∧
          TakesFirst buffer size request w ((kmalloc request).final w) before block after) := by
  have represents := tiled.represents
  rcases allocate_cases request.toNat (blocks.map w.segmentAt) with ⟨-, none⟩ | ⟨front, segment,
    back, shape, fits, earlier, effect⟩
  · obtain ⟨answer, same⟩ := represents.kmalloc_unplaced notNull inMemory none
    have refused : request = 0 ∨ ∀ block ∈ blocks, ¬ w.Suits request block := by
      by_cases asked : request = 0
      · exact Or.inl asked
      · refine Or.inr fun block member suits => ?_
        exact none _ (List.mem_map_of_mem member) ((segmentAt_fits_iff asked block).mpr suits)
    exact ⟨⟨fun _ => refused, fun _ => answer⟩, fun _ => same, fun given => absurd answer given⟩
  · obtain ⟨before, rest, rfl, rfl, restShape⟩ := List.map_eq_append_iff.mp shape
    obtain ⟨block, after, rfl, rfl, rfl⟩ := List.map_eq_cons_iff.mp restShape
    have member : block ∈ before ++ block :: after := by simp
    have usable := tiled.usable notNull inMemory member
    have asked : request ≠ 0 := by
      rintro rfl
      exact absurd fits.2.1 (Nat.lt_irrefl 0)
    have unfit : ∀ other ∈ before, ¬ w.Suits request other := by
      intro other member suits
      exact earlier _ (List.mem_map_of_mem member) ((segmentAt_fits_iff asked other).mpr suits)
    have given : (kmalloc request).result w ≠ some 0 := by
      obtain ⟨ptr, present, granted⟩ :=
        (represents.granted_iff usable request).mpr ⟨_, by simp, fits⟩
      intro null
      rw [null, Option.some.injEq] at granted
      exact present granted.symm
    obtain ⟨answer, exit, issues⟩ := represents.kmalloc usable request
    rw [List.map_append, List.map_cons] at represents effect exit issues answer
    rw [effect] at answer exit issues
    have placed : Placed buffer size request w (before.map w.segmentAt) (w.segmentAt block)
        (after.map w.segmentAt) := ⟨represents, fits, answer, exit, issues⟩
    have takes := placed.takesFirst usable unfit tiled
    refine ⟨⟨fun null => absurd null given, ?_⟩, fun null => absurd null given,
      fun _ => ⟨before, block, after, rfl, takes⟩⟩
    rintro (nothing | none)
    · exact absurd nothing asked
    · exact absurd takes.suits (none block member)

/-- A heap that is one free block of 176 bytes. -/
def newHeap : KmemWorld := (kmemInit 4096 200).final ⟨fun _ => 0xAA, 0⟩

theorem newHeap_tiled : TiledBy 4096 200 newHeap [4096] := by
  have usable : Buffer 4096 200 := ⟨by decide, by decide, by decide⟩
  exact (kmemInit_represents usable ⟨fun _ => 0xAA, 0⟩).tiledBy usable

theorem kmalloc_first_fit_newHeap :
    ∃ before block after, [4096] = before ++ block :: after ∧
      TakesFirst 4096 200 40 newHeap ((kmalloc 40).final newHeap) before block after :=
  (kmalloc_first_fit (by decide) (by decide) newHeap_tiled 40).2.2 (by decide +kernel)

end Mcsos.Kmem
