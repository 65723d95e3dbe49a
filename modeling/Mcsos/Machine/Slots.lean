import Mathlib.Data.List.Nodup

/-!
Owns arrays of slots that are filled from the front: slot `i` holds `names[i]`.
The slots after one more is filled, and a search by name through the filled
slots, which stops at the first where a name fills several. The last part is
about tables whose slots carry names in whatever way, and when no two carry the
same.
-/

namespace Mcsos.Machine

variable {α : Type}

/-- After one more slot is filled, a slot is an old one or the new one. -/
theorem getElem?_concat_cases {names : List α} {name found : α} {index : Nat}
    (present : (names ++ [name])[index]? = some found) :
    (index < names.length ∧ names[index]? = some found) ∨
      (index = names.length ∧ found = name) := by
  by_cases newest : index = names.length
  · right
    rw [newest, List.getElem?_concat_length, Option.some.injEq] at present
    exact ⟨newest, present.symm⟩
  · left
    have bound := (List.getElem?_eq_some_iff.mp present).1
    rw [List.length_append, List.length_singleton] at bound
    have old : index < names.length := by omega
    rw [List.getElem?_append_left old] at present
    exact ⟨old, present⟩

/-! ### Search -/

section

variable [DecidableEq α]

/-- The slot a search stops at holds the name, and no earlier one does. -/
theorem idxOf?_slot {names : List α} {name : α} {index : Nat}
    (found : names.idxOf? name = some index) :
    names[index]? = some name ∧ ∀ earlier < index, names[earlier]? ≠ some name := by
  rcases List.idxOf?_eq_some_iff.mp found with ⟨inside, here, notBefore⟩
  constructor
  · rw [List.getElem?_eq_getElem inside, here]
  · intro earlier before present
    rcases List.getElem?_eq_some_iff.mp present with ⟨_, same⟩
    exact notBefore earlier before same

/-- A search through the slots stops at the first that holds the name. -/
theorem find?_range_eq_idxOf? {names : List α} {hit : Nat → Bool} {target : α}
    (decides : ∀ index name, names[index]? = some name → (hit index = true ↔ name = target)) :
    (List.range names.length).find? hit = names.idxOf? target := by
  ext index
  rw [List.find?_range_eq_some, List.idxOf?_eq_some_iff]
  constructor
  · rintro ⟨hits, inside, misses⟩
    rw [List.mem_range] at inside
    refine ⟨inside, (decides index _ (List.getElem?_eq_getElem inside)).mp hits, ?_⟩
    intro earlier before same
    have present := List.getElem?_eq_getElem (Nat.lt_trans before inside)
    have missed := misses earlier before
    rw [(decides earlier _ present).mpr same] at missed
    cases missed
  · rintro ⟨inside, here, notBefore⟩
    refine ⟨(decides index _ (List.getElem?_eq_getElem inside)).mpr here,
      List.mem_range.mpr inside, ?_⟩
    intro earlier before
    have present := List.getElem?_eq_getElem (Nat.lt_trans before inside)
    rw [Bool.not_eq_true', ← Bool.not_eq_true]
    intro hits
    exact notBefore earlier before ((decides earlier _ present).mp hits)

/-- Among distinct names it stops at the slot of the name. -/
theorem idxOf?_eq_some_iff_getElem? {names : List α} (distinct : names.Nodup) {name : α}
    {index : Nat} : names.idxOf? name = some index ↔ names[index]? = some name := by
  constructor
  · intro found
    exact (idxOf?_slot found).1
  · intro present
    rcases List.getElem?_eq_some_iff.mp present with ⟨inside, here⟩
    refine List.idxOf?_eq_some_iff.mpr ⟨inside, here, ?_⟩
    intro earlier before same
    have equal := (distinct.getElem_inj_iff).mp (same.trans here.symm)
    omega

/-- A search comes to the slot filled last only for a name that no earlier slot
holds. -/
theorem idxOf?_concat (names : List α) (name target : α) :
    (names ++ [name]).idxOf? target =
      (names.idxOf? target).or (if name = target then some names.length else none) := by
  unfold List.idxOf?
  rw [List.findIdx?_append, List.findIdx?_singleton]
  by_cases same : name = target
  · simp [same]
  · simp [same]

end

/-! ### Slots that carry names -/

/-- Slot `i` carries `names[i]`, and the slots behind carry nothing. -/
def Lists (carries : Nat → α → Prop) (names : List α) : Prop :=
  ∀ slot name, carries slot name ↔ names[slot]? = some name

/-- No two slots carry the same name. -/
def Unambiguous (carries : Nat → α → Prop) : Prop :=
  ∀ slot other name, carries slot name → carries other name → slot = other

section

variable {carries after : Nat → α → Prop} {names : List α}

theorem Lists.mem_iff (lists : Lists carries names) (name : α) :
    name ∈ names ↔ ∃ slot, carries slot name := by
  rw [List.mem_iff_getElem?]
  exact exists_congr fun slot => (lists slot name).symm

theorem Lists.unambiguous_iff (lists : Lists carries names) :
    Unambiguous carries ↔ names.Nodup := by
  constructor
  · intro unambiguous
    rw [List.nodup_iff_getElem?_ne_getElem?]
    intro slot other order inside same
    have present := List.getElem?_eq_getElem (Nat.lt_trans order inside)
    have here := (lists slot _).mpr present
    have there := (lists other _).mpr (same.symm.trans present)
    exact absurd (unambiguous slot other _ here there) (Nat.ne_of_lt order)
  · intro distinct slot other name here there
    have present := (lists slot name).mp here
    have inside := (List.getElem?_eq_some_iff.mp present).1
    have same := present.trans ((lists other name).mp there).symm
    exact (List.getElem?_inj inside distinct).mp same

/-- When at most one slot more carries a name, the table stays unambiguous
exactly when that name is new. -/
theorem Lists.unambiguous_add_iff (lists : Lists carries names) (distinct : names.Nodup)
    {added : Option α} (listsAfter : Lists after (names ++ added.toList)) :
    Unambiguous after ↔ ∀ name, added = some name → ∀ slot, ¬ carries slot name := by
  rw [listsAfter.unambiguous_iff]
  cases added with
  | none => simp [distinct]
  | some newest =>
      rw [Option.toList_some, ← List.concat_eq_append, List.nodup_concat, lists.mem_iff]
      simp [distinct]

/-- A call that is to make the name `wanted` and makes it, or is refused: the
table stays unambiguous, and a name that is there is refused, exactly when the
name is new or the table full. -/
theorem Lists.unambiguous_make_iff (lists : Lists carries names) (distinct : names.Nodup)
    {wanted added : Option α} (listsAfter : Lists after (names ++ added.toList))
    {full : Prop} {refused : α → Prop}
    (made : ∀ name, added = some name → wanted = some name ∧ ¬ full)
    (notMade : ∀ name, wanted = some name → added = none →
      refused name ∧ (full ∨ ∀ slot, ¬ carries slot name)) :
    (Unambiguous after ∧
        ∀ name, wanted = some name → (∃ slot, carries slot name) → refused name) ↔
      ∀ name, wanted = some name → full ∨ ∀ slot, ¬ carries slot name := by
  have new := lists.unambiguous_add_iff distinct listsAfter
  constructor
  · rintro ⟨unambiguous, -⟩ name isWanted
    cases adds : added with
    | none => exact (notMade name isWanted adds).2
    | some newest =>
        rw [(made newest adds).1, Option.some.injEq] at isWanted
        rw [isWanted] at adds
        exact Or.inr (new.mp unambiguous name adds)
  · intro isNew
    refine ⟨new.mpr ?_, ?_⟩
    · intro name adds
      rcases made name adds with ⟨isWanted, space⟩
      exact (isNew name isWanted).resolve_left space
    · rintro name isWanted ⟨slot, carried⟩
      have isFull := (isNew name isWanted).resolve_right fun absent => absent slot carried
      cases adds : added with
      | none => exact (notMade name isWanted adds).1
      | some newest => exact absurd isFull (made newest adds).2

end

end Mcsos.Machine
