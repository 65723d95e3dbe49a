import Mcsos.Vmm.Refinement

/-!
Contract: what one address space sees of another. All spaces share one table,
so a map or unmap through one is a map or unmap for all. What remains is that a
space that maps each of its pages once is not disturbed by calls on pages it
does not use, as long as the table does not fill up.

The run without the other spaces is followed next to the whole run: its table
refines the pages of the space, and the shared table agrees with those pages on
every address the space uses.
-/

namespace Mcsos.Vmm

open Mcsos.Machine

/-- What the queries through a space answer, in order. -/
def queryAnswers (space : Space) : List VmmCall → Mappings → List (Option Page)
  | [], _ => []
  | .query own virt :: rest, mappings =>
      if own = space then
        vmmQueryPage own virt mappings :: queryAnswers space rest mappings
      else
        queryAnswers space rest mappings
  | call :: rest, mappings => queryAnswers space rest (call.run mappings)

/-- The run with the calls of all other spaces removed. -/
def alone (space : Space) (calls : List VmmCall) : List VmmCall :=
  calls.filter fun call => call.space = space

/-- The call is a map or an unmap. -/
def VmmCall.Changes : VmmCall → Prop
  | .map _ _ _ _ | .unmap _ _ => True
  | .query _ _ => False

/-- Fewer than 256 entries are in use when the call is made. -/
def HasRoom (mappings : Mappings) (_call : VmmCall) : Prop := usedEntries mappings < mappingCount

/-- The space maps only pages that are not mapped. -/
def MapsUnmapped (space : Space) (mappings : Mappings) : VmmCall → Prop
  | .map own virt _ _ => own = space → vmmQueryPage own virt mappings = none
  | _ => True

/-- No other space maps or unmaps an address that the space uses. -/
def KeptApart (space : Space) (calls : List VmmCall) : Prop :=
  ∀ other ∈ calls, other.space ≠ space → other.Changes →
    ∀ own ∈ calls, own.space = space → own.virt ≠ other.virt

instance : (call : VmmCall) → Decidable call.Changes
  | .map _ _ _ _ | .unmap _ _ => inferInstanceAs (Decidable True)
  | .query _ _ => inferInstanceAs (Decidable False)

instance (mappings : Mappings) (call : VmmCall) : Decidable (HasRoom mappings call) :=
  inferInstanceAs (Decidable (_ < _))

instance (space : Space) (mappings : Mappings) :
    (call : VmmCall) → Decidable (MapsUnmapped space mappings call)
  | .map _ _ _ _ => inferInstanceAs (Decidable (_ → _))
  | .unmap _ _ | .query _ _ => inferInstanceAs (Decidable True)

instance (space : Space) (calls : List VmmCall) : Decidable (KeptApart space calls) :=
  inferInstanceAs (Decidable (∀ _ ∈ _, _))

/-! ### The shared table and the pages of one space -/

/-- The session is the run without the others; the shared table holds its
pages, each once, and answers for the used addresses as they do. -/
structure Shadows (used : UInt64 → Prop) (mappings : Mappings) (session : Session) : Prop where
  held : session.Held
  single : ∀ virt, used virt → Single mappings virt
  query : ∀ space virt, used virt →
    vmmQueryPage space virt mappings = session.pages.lookup virt
  pages : ∀ virt ∈ session.pages, used virt

section

variable {used : UInt64 → Prop} {mappings : Mappings} {session : Session}

theorem Single.run_other {virt : UInt64} (single : Single mappings virt) {call : VmmCall}
    (different : virt ≠ call.virt) : Single (call.run mappings) virt := by
  cases call with
  | map own other phys flags =>
      simp only [VmmCall.run]
      rcases vmmMapPage_cases own other phys flags mappings with ⟨-, same⟩ | ⟨i, -, -, effect⟩
      · rw [same]
        exact single
      · rw [effect]
        exact single.withPage_other _ different
  | unmap own other =>
      simp only [VmmCall.run]
      rcases vmmUnmapPage_cases own other mappings with ⟨-, same⟩ | ⟨i, -, effect⟩
      · rw [same]
        exact single
      · rw [effect]
        exact single.withoutEntry i
  | query own other => exact single

/-- A call on an address that is not used leaves the relation alone. -/
theorem Shadows.other (shadows : Shadows used mappings session) {call : VmmCall}
    (apart : ∀ virt, used virt → virt ≠ call.virt) : Shadows used (call.run mappings) session where
  held := shadows.held
  single := fun virt uses => (shadows.single virt uses).run_other (apart virt uses)
  query := by
    intro space virt uses
    rw [query_run_other mappings call space (apart virt uses)]
    exact shadows.query space virt uses
  pages := shadows.pages

/-- A free entry of the shared table means one in the table of the space
alone, since the pages of the space are all in the shared one. -/
theorem Shadows.room (shadows : Shadows used mappings session)
    (room : usedEntries mappings < mappingCount) : freeEntry session.mappings ≠ none := by
  have present : ∀ virt ∈ session.pages.keys,
      slotOf (Vmm.held mappings) mappingCount (some virt) ≠ none := by
    intro virt member
    have mapped := Finmap.mem_keys.mp member
    rw [← entryOf_eq, Ne, ← vmmQueryPage_eq_none_iff 0,
      shadows.query 0 virt (shadows.pages virt mapped), Finmap.lookup_eq_none]
    exact not_not.mpr mapped
  have fewer : session.pages.keys.card ≤ usedEntries mappings := card_le_slotsInUse present
  rw [freeEntry_ne_none_iff, ← shadows.held.count]
  omega

/-- The relation after a call of the space itself, when both tables treat its
address alike. -/
theorem Shadows.own (shadows : Shadows used mappings session) {call : VmmCall}
    (after : (session.next call).Held) (uses : used call.virt)
    (pages : ∀ other ≠ call.virt, (session.next call).pages.lookup other =
      session.pages.lookup other)
    (single : Single (call.run mappings) call.virt)
    (query : ∀ space, vmmQueryPage space call.virt (call.run mappings) =
      (session.next call).pages.lookup call.virt) :
    Shadows used (call.run mappings) (session.next call) where
  held := after
  single := by
    intro virt usesVirt
    by_cases same : virt = call.virt
    · rw [same]
      exact single
    · exact (shadows.single virt usesVirt).run_other same
  query := by
    intro space virt usesVirt
    by_cases same : virt = call.virt
    · rw [same]
      exact query space
    · rw [query_run_other mappings call space same, pages virt same]
      exact shadows.query space virt usesVirt
  pages := by
    intro virt member
    by_cases same : virt = call.virt
    · rw [same]
      exact uses
    · apply shadows.pages
      rw [← Finmap.lookup_isSome] at member ⊢
      rwa [pages virt same] at member

theorem Shadows.map (shadows : Shadows used mappings session) {space : Space}
    {virt phys flags : UInt64} (uses : used virt) (room : usedEntries mappings < mappingCount)
    (unmapped : vmmQueryPage space virt mappings = none) :
    Shadows used ((VmmCall.map space virt phys flags).run mappings)
      (session.next (.map space virt phys flags)) := by
  have notMapped : session.pages.lookup virt = none := by
    rw [← shadows.query space virt uses]
    exact unmapped
  have fresh : ¬ session.Remaps (.map space virt phys flags) := by
    intro remaps
    exact remaps.2.2 ((shadows.held.query space virt).trans notMapped)
  by_cases mappable : Mappable virt phys
  · obtain ⟨i, free⟩ := Option.ne_none_iff_exists'.mp (freeEntry_ne_none_iff.mpr room)
    obtain ⟨j, freeAlone⟩ := Option.ne_none_iff_exists'.mp (shadows.room room)
    have effect := vmmMapPage_accepted space virt phys flags mappings mappable free
    have effectAlone := vmmMapPage_accepted space virt phys flags session.mappings mappable freeAlone
    have absent := (vmmQueryPage_eq_none_iff space virt mappings).mp unmapped
    have pages : (session.next (.map space virt phys flags)).pages =
        session.pages.insert virt ⟨phys, flags ||| vmmPresent⟩ := by
      simp only [Session.next, Pages.after, effectAlone, if_true]
    apply shadows.own (shadows.held.step fresh) uses
    · intro other different
      rw [pages]
      exact Finmap.lookup_insert_of_ne _ different
    · simp only [VmmCall.run, VmmCall.virt, effect]
      exact single_withPage_self absent _
    · intro anySpace
      simp only [VmmCall.run, VmmCall.virt, effect, pages]
      rw [Finmap.lookup_insert]
      exact query_withPage_self anySpace _ (free_entry_facts free).2 absent
  · have refused := vmmMapPage_refused space virt phys flags mappings (fun both => mappable both.1)
    have refusedAlone := vmmMapPage_refused space virt phys flags session.mappings
      (fun both => mappable both.1)
    simp only [VmmCall.run, Session.next, Pages.after, refused, refusedAlone]
    exact shadows

theorem Shadows.unmap (shadows : Shadows used mappings session) {space : Space} {virt : UInt64}
    (uses : used virt) :
    Shadows used ((VmmCall.unmap space virt).run mappings) (session.next (.unmap space virt)) := by
  have agree : entryOf mappings virt = none ↔ entryOf session.mappings virt = none := by
    rw [← vmmQueryPage_eq_none_iff space, ← vmmQueryPage_eq_none_iff space,
      shadows.query space virt uses, shadows.held.query space virt]
  rcases vmmUnmapPage_cases space virt mappings with ⟨missing, same⟩ | ⟨i, found, effect⟩
  · rcases vmmUnmapPage_cases space virt session.mappings with ⟨-, sameAlone⟩ | ⟨j, foundAlone, -⟩
    · simp only [VmmCall.run, Session.next, Pages.after, same, sameAlone]
      exact shadows
    · rw [agree.mp missing] at foundAlone
      cases foundAlone
  · rcases vmmUnmapPage_cases space virt session.mappings with ⟨missing, -⟩ | ⟨j, -, effectAlone⟩
    · rw [agree.mpr missing] at found
      cases found
    · have pages : (session.next (.unmap space virt)).pages = session.pages.erase virt := by
        simp only [Session.next, Pages.after, effectAlone, if_true]
      apply shadows.own (shadows.held.unmap space virt) uses
      · intro other different
        rw [pages]
        exact Finmap.lookup_erase_ne different
      · simp only [VmmCall.run, VmmCall.virt, effect]
        exact (shadows.single virt uses).withoutEntry i
      · intro anySpace
        simp only [VmmCall.run, VmmCall.virt, effect, pages]
        rw [Finmap.lookup_erase]
        exact query_withoutEntry_self anySpace (shadows.single virt uses) found

/-- The relation is kept by every call of the space. -/
theorem Shadows.step (shadows : Shadows used mappings session) {call : VmmCall}
    (uses : used call.virt) (room : HasRoom mappings call)
    (fresh : MapsUnmapped call.space mappings call) :
    Shadows used (call.run mappings) (session.next call) := by
  cases call with
  | map space virt phys flags => exact shadows.map uses room (fresh rfl)
  | unmap space virt => exact shadows.unmap uses
  | query space virt => exact shadows

end

/-! ### Whole runs -/

theorem Shadows.answers {used : UInt64 → Prop} {space : Space} {calls : List VmmCall}
    {mappings : Mappings} {session : Session} (shadows : Shadows used mappings session)
    (room : EveryCall (fun mappings call => VmmCall.run mappings call) HasRoom calls mappings)
    (fresh : EveryCall (fun mappings call => VmmCall.run mappings call) (MapsUnmapped space)
      calls mappings)
    (uses : ∀ call ∈ calls, call.space = space → used call.virt)
    (apart : ∀ call ∈ calls, call.space ≠ space → call.Changes →
      ∀ virt, used virt → virt ≠ call.virt) :
    queryAnswers space calls mappings = queryAnswers space (alone space calls) session.mappings := by
  induction calls generalizing mappings session with
  | nil => rfl
  | cons call rest inductionHypothesis =>
      have usesLater : ∀ call ∈ rest, call.space = space → used call.virt :=
        fun later member => uses later (List.mem_cons_of_mem _ member)
      have apartLater : ∀ call ∈ rest, call.space ≠ space → call.Changes →
          ∀ virt, used virt → virt ≠ call.virt :=
        fun later member => apart later (List.mem_cons_of_mem _ member)
      by_cases own : call.space = space
      · have usesHere := uses call List.mem_cons_self own
        have kept := shadows.step usesHere room.1 (own ▸ fresh.1)
        have later := inductionHypothesis kept room.2 fresh.2 usesLater apartLater
        have kept' : alone space (call :: rest) = call :: alone space rest := by
          simp [alone, own]
        rw [kept']
        cases call with
        | map own virt phys flags => exact later
        | unmap own virt => exact later
        | query ownSpace virt =>
            have same : ownSpace = space := own
            have answer : vmmQueryPage ownSpace virt mappings =
                vmmQueryPage ownSpace virt session.mappings := by
              rw [shadows.query ownSpace virt usesHere, shadows.held.query ownSpace virt]
            simp only [queryAnswers, if_pos same, answer]
            exact congrArg _ later
      · have dropped : alone space (call :: rest) = alone space rest := by
          simp [alone, own]
        have apartHere := apart call List.mem_cons_self own
        rw [dropped]
        cases call with
        | map other virt phys flags =>
            exact inductionHypothesis (shadows.other (apartHere trivial)) room.2 fresh.2 usesLater
              apartLater
        | unmap other virt =>
            exact inductionHypothesis (shadows.other (apartHere trivial)) room.2 fresh.2 usesLater
              apartLater
        | query other virt =>
            have notOwn : ¬ other = space := own
            simp only [queryAnswers, if_neg notOwn]
            exact inductionHypothesis shadows room.2 fresh.2 usesLater apartLater

/-- A space that maps each of its pages once sees nothing of the calls that
other spaces make on other addresses. -/
theorem other_spaces_unseen (space : Space) (calls : List VmmCall)
    (room : EveryCall (fun mappings call => VmmCall.run mappings call) HasRoom calls noMappings)
    (fresh : EveryCall (fun mappings call => VmmCall.run mappings call) (MapsUnmapped space)
      calls noMappings)
    (apart : KeptApart space calls) :
    queryAnswers space calls noMappings = queryAnswers space (alone space calls) noMappings := by
  let used (virt : UInt64) : Prop := ∃ own ∈ calls, own.space = space ∧ own.virt = virt
  have start : Shadows used noMappings started :=
    ⟨started_held, fun virt _ => started_held.single virt,
      fun anySpace virt _ => started_held.query anySpace virt,
      fun virt mapped => absurd mapped (Finmap.notMem_empty)⟩
  apply start.answers room fresh
  · intro call member own
    exact ⟨call, member, own, rfl⟩
  · intro other member notOwn changes virt uses
    obtain ⟨own, ownMember, isOwn, same⟩ := uses
    rw [← same]
    exact apart other member notOwn changes own ownMember isOwn

theorem other_spaces_unseen_reuse :
    queryAnswers 0x1000
        [.map 0x2000 0x500000 0x600000 0, .map 0x1000 0x400000 0x200000 0, .unmap 0x2000 0x500000,
          .query 0x2000 0x400000, .query 0x1000 0x400000] noMappings =
      queryAnswers 0x1000 [.map 0x1000 0x400000 0x200000 0, .query 0x1000 0x400000] noMappings :=
  other_spaces_unseen 0x1000
    [.map 0x2000 0x500000 0x600000 0, .map 0x1000 0x400000 0x200000 0, .unmap 0x2000 0x500000,
      .query 0x2000 0x400000, .query 0x1000 0x400000]
    (by decide +kernel) (by decide +kernel) (by decide +kernel)

/-- One space unmaps a page of another. -/
def foreignUnmap : List VmmCall :=
  [.map 0x1000 0x400000 0x200000 0, .unmap 0x2000 0x400000, .query 0x1000 0x400000]

/-- The entry that one space gives up comes before the one another space has
for its page, when that space maps the page again. -/
def entryInBetween : List VmmCall :=
  [.map 0x2000 0x500000 0x600000 0, .map 0x1000 0x400000 0x200000 0, .unmap 0x2000 0x500000,
    .map 0x1000 0x400000 0x300000 0, .query 0x1000 0x400000]

/-- Spaces disturb each other, also on different addresses. -/
theorem spaces_not_isolated :
    (EveryCall (fun mappings call => VmmCall.run mappings call) HasRoom foreignUnmap noMappings ∧
        queryAnswers 0x1000 foreignUnmap noMappings ≠
          queryAnswers 0x1000 (alone 0x1000 foreignUnmap) noMappings) ∧
      (EveryCall (fun mappings call => VmmCall.run mappings call) HasRoom entryInBetween
          noMappings ∧
        KeptApart 0x1000 entryInBetween ∧
        queryAnswers 0x1000 entryInBetween noMappings ≠
          queryAnswers 0x1000 (alone 0x1000 entryInBetween) noMappings) := by
  decide +kernel

end Mcsos.Vmm
