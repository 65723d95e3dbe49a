import Mathlib.Algebra.Order.Ring.Nat
import Mathlib.Tactic.Common

/-!
Owns tilings: lists of items that occupy consecutive half-open ranges of
numbers, `first item` to `last item`. An item may be replaced by items that
tile its own range; items of one tiling never overlap. Replacing items makes a
tiling finer.
-/

namespace Mcsos.Machine

variable {α : Type} {first last : α → Nat} {start stop : Nat} {items : List α}

/-- The items occupy the numbers from `start` to `stop`, each beginning where
the one before it ends. -/
def Tiles (first last : α → Nat) : Nat → List α → Nat → Prop
  | start, [], stop => start = stop
  | start, item :: rest, stop => first item = start ∧ Tiles first last (last item) rest stop

theorem tiles_append (before after : List α) :
    Tiles first last start (before ++ after) stop ↔
      ∃ middle, Tiles first last start before middle ∧ Tiles first last middle after stop := by
  induction before generalizing start with
  | nil =>
      constructor
      · intro tiles
        exact ⟨start, rfl, tiles⟩
      · rintro ⟨middle, rfl, tiles⟩
        exact tiles
  | cons item rest inductionHypothesis =>
      rw [List.cons_append]
      simp only [Tiles, inductionHypothesis]
      constructor
      · rintro ⟨begins, middle, front, back⟩
        exact ⟨middle, ⟨begins, front⟩, back⟩
      · rintro ⟨middle, ⟨begins, front⟩, back⟩
        exact ⟨begins, middle, front, back⟩

/-- One item of a tiling gives way to items that tile its range. -/
theorem Tiles.replace {before after pieces : List α} {item : α}
    (tiles : Tiles first last start (before ++ item :: after) stop)
    (cut : Tiles first last (first item) pieces (last item)) :
    Tiles first last start (before ++ pieces ++ after) stop := by
  rcases (tiles_append before (item :: after)).mp tiles with ⟨middle, front, begins, back⟩
  rw [List.append_assoc, tiles_append]
  refine ⟨middle, front, ?_⟩
  rw [tiles_append]
  exact ⟨last item, begins ▸ cut, back⟩

/-- What keeps the range of each item of a tiling keeps the tiling. -/
theorem Tiles.map {β : Type} {newFirst newLast : β → Nat} {change : α → β}
    (tiles : Tiles first last start items stop)
    (sameFirst : ∀ item ∈ items, newFirst (change item) = first item)
    (sameLast : ∀ item ∈ items, newLast (change item) = last item) :
    Tiles newFirst newLast start (items.map change) stop := by
  induction items generalizing start with
  | nil => exact tiles
  | cons item rest inductionHypothesis =>
      refine ⟨(sameFirst item (by simp)).trans tiles.1, ?_⟩
      rw [sameLast item (by simp)]
      apply inductionHypothesis tiles.2
      · intro later member
        exact sameFirst later (by simp [member])
      · intro later member
        exact sameLast later (by simp [member])

section

variable (forward : ∀ item, first item ≤ last item)

include forward

theorem Tiles.start_le_stop (tiles : Tiles first last start items stop) : start ≤ stop := by
  induction items generalizing start with
  | nil => exact tiles.le
  | cons item rest inductionHypothesis =>
      have rest := inductionHypothesis tiles.2
      have here := forward item
      have begins := tiles.1
      omega

theorem Tiles.inside (tiles : Tiles first last start items stop) {item : α}
    (member : item ∈ items) : start ≤ first item ∧ last item ≤ stop := by
  rcases List.append_of_mem member with ⟨before, after, rfl⟩
  rcases (tiles_append before (item :: after)).mp tiles with ⟨middle, front, begins, back⟩
  have front := front.start_le_stop forward
  have back := back.start_le_stop forward
  omega

/-- Two items of a tiling are the same one, or one ends before the other
begins. -/
theorem Tiles.apart (tiles : Tiles first last start items stop) {item other : α}
    (member : item ∈ items) (otherMember : other ∈ items) :
    item = other ∨ last item ≤ first other ∨ last other ≤ first item := by
  induction items generalizing start with
  | nil => simp at member
  | cons head rest inductionHypothesis =>
      rcases List.mem_cons.mp member with rfl | later <;>
        rcases List.mem_cons.mp otherMember with rfl | otherLater
      · exact Or.inl rfl
      · exact Or.inr (Or.inl (tiles.2.inside forward otherLater).1)
      · exact Or.inr (Or.inr (tiles.2.inside forward later).1)
      · exact inductionHypothesis tiles.2 later otherLater

end

/-- Items that occupy something begin one after the other. -/
theorem Tiles.increasing (forward : ∀ item, first item < last item)
    (tiles : Tiles first last start items stop) :
    items.Pairwise fun item later => first item < first later := by
  induction items generalizing start with
  | nil => exact List.Pairwise.nil
  | cons item rest inductionHypothesis =>
      refine List.pairwise_cons.mpr ⟨?_, inductionHypothesis tiles.2⟩
      intro later member
      have behind := (tiles.2.inside (fun other => (forward other).le) member).1
      have here := forward item
      omega

/-- The items' lengths add up to the whole. -/
theorem Tiles.sum_lengths (length : α → Nat) (ends : ∀ item, last item = first item + length item)
    (tiles : Tiles first last start items stop) : start + (items.map length).sum = stop := by
  induction items generalizing start with
  | nil => exact tiles
  | cons item rest inductionHypothesis =>
      have later := inductionHypothesis tiles.2
      have here := ends item
      have begins := tiles.1
      rw [List.map_cons, List.sum_cons]
      omega

/-- There is room for so many items of at least `width` numbers each. -/
theorem Tiles.length_le {width : Nat} (wide : ∀ item, first item + width ≤ last item)
    (tiles : Tiles first last start items stop) : start + items.length * width ≤ stop := by
  induction items generalizing start with
  | nil => simpa using tiles.le
  | cons item rest inductionHypothesis =>
      have later := inductionHypothesis tiles.2
      have here := wide item
      have begins := tiles.1
      rw [List.length_cons, Nat.succ_mul]
      omega

/-! ### Finer tilings -/

/-- Each of the items lies within one of the others. -/
def Finer (first last : α → Nat) (items others : List α) : Prop :=
  ∀ item ∈ items, ∃ other ∈ others, first other ≤ first item ∧ last item ≤ last other

theorem Finer.refl (items : List α) : Finer first last items items :=
  fun item member => ⟨item, member, le_rfl, le_rfl⟩

theorem Finer.trans {others coarse : List α} (fine : Finer first last items others)
    (finer : Finer first last others coarse) : Finer first last items coarse := by
  intro item member
  obtain ⟨other, isOther, begins, ends⟩ := fine item member
  obtain ⟨whole, isWhole, wholeBegins, wholeEnds⟩ := finer other isOther
  exact ⟨whole, isWhole, wholeBegins.trans begins, ends.trans wholeEnds⟩

/-- The items that take the place of one lie within it. -/
theorem Finer.replace {before after pieces : List α} {item : α}
    (forward : ∀ item, first item ≤ last item)
    (cut : Tiles first last (first item) pieces (last item)) :
    Finer first last (before ++ pieces ++ after) (before ++ item :: after) := by
  intro piece member
  rcases List.mem_append.mp member with front | back
  · rcases List.mem_append.mp front with front | isPiece
    · exact ⟨piece, by simp [front], le_rfl, le_rfl⟩
    · exact ⟨item, by simp, cut.inside forward isPiece⟩
  · exact ⟨piece, by simp [back], le_rfl, le_rfl⟩

theorem Finer.map {change : α → α}
    (sameFirst : ∀ item, first (change item) = first item)
    (sameLast : ∀ item, last (change item) = last item) (items : List α) :
    Finer first last (items.map change) items := by
  intro changed member
  obtain ⟨item, isItem, rfl⟩ := List.mem_map.mp member
  exact ⟨item, isItem, (sameFirst item).ge, (sameLast item).le⟩

end Mcsos.Machine
