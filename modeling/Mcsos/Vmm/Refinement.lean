import Mathlib.Data.Finmap
import Mcsos.Machine.Run
import Mcsos.Vmm.Table

/-!
Contract: the mapping table against a finite map from pages to frames.

`vmm_map_page` takes the first free entry without looking for one that is
already there, while query and unmap stop at the first entry of a page. A page
that is mapped twice therefore survives its unmap. In runs that map no mapped
page the table is the finite map, up to its capacity.
-/

namespace Mcsos.Vmm

open Mcsos.Machine

inductive VmmCall where
  | map (space : Space) (virt phys flags : UInt64)
  | unmap (space : Space) (virt : UInt64)
  | query (space : Space) (virt : UInt64)
deriving DecidableEq, Repr

namespace VmmCall

def space : VmmCall → Space
  | map space _ _ _ | unmap space _ | query space _ => space

def virt : VmmCall → UInt64
  | map _ virt _ _ | unmap _ virt | query _ virt => virt

/-- The table after the call. -/
def run (mappings : Mappings) : VmmCall → Mappings
  | map space virt phys flags => (vmmMapPage space virt phys flags mappings).2
  | unmap space virt => (vmmUnmapPage space virt mappings).2
  | query _ _ => mappings

end VmmCall

/-- The pages whose last successful map or unmap was a map, with what it
mapped them to. -/
abbrev Pages := Finmap fun _ : UInt64 => Page

/-- The pages after a call on a table. -/
def Pages.after (pages : Pages) (mappings : Mappings) : VmmCall → Pages
  | .map space virt phys flags =>
      if (vmmMapPage space virt phys flags mappings).1 then
        pages.insert virt ⟨phys, flags ||| vmmPresent⟩
      else
        pages
  | .unmap space virt => if (vmmUnmapPage space virt mappings).1 then pages.erase virt else pages
  | .query _ _ => pages

structure Session where
  mappings : Mappings
  pages : Pages

def Session.next (session : Session) (call : VmmCall) : Session where
  mappings := call.run session.mappings
  pages := session.pages.after session.mappings call

/-- The empty table; no page was mapped. -/
def started : Session := ⟨noMappings, ∅⟩

/-- The call enters a page that has an entry: it is a map, it passes the
checks, an entry is free, and the page is mapped. -/
def Session.Remaps (session : Session) : VmmCall → Prop
  | .map space virt phys _ =>
      Mappable virt phys ∧ freeEntry session.mappings ≠ none ∧
        vmmQueryPage space virt session.mappings ≠ none
  | _ => False

instance (session : Session) : (call : VmmCall) → Decidable (session.Remaps call)
  | .map _ _ _ _ => inferInstanceAs (Decidable (_ ∧ _ ∧ _))
  | .unmap _ _ | .query _ _ => inferInstanceAs (Decidable False)

/-! ### The invariant -/

/-- Every page has one entry, queries answer as the pages do, and as many
entries are in use as there are pages. -/
structure Session.Held (session : Session) : Prop where
  single : ∀ virt, Single session.mappings virt
  query : ∀ space virt, vmmQueryPage space virt session.mappings = session.pages.lookup virt
  count : session.pages.keys.card = usedEntries session.mappings

theorem started_held : started.Held := by
  have free : held noMappings = fun _ => none := rfl
  have absent : ∀ virt, entryOf noMappings virt = none := by
    intro virt
    rw [entryOf_eq, free, slotOf_eq_none_iff]
    simp
  refine ⟨?_, ?_, ?_⟩
  · intro virt
    apply atMostOnce_of_absent
    rw [← entryOf_eq]
    exact absent virt
  · intro space virt
    have unmapped : (∅ : Pages).lookup virt = none := Finmap.lookup_empty virt
    exact ((vmmQueryPage_eq_none_iff space virt _).mpr (absent virt)).trans unmapped.symm
  · show (∅ : Pages).keys.card = (slotsInUse (held noMappings) mappingCount).card
    rw [free, Finmap.keys_empty]
    simp [slotsInUse]

section

variable {session : Session}

theorem Session.Held.mem_pages_iff (held : session.Held) (space : Space) (virt : UInt64) :
    virt ∈ session.pages ↔ vmmQueryPage space virt session.mappings ≠ none := by
  rw [held.query space virt, Ne, Finmap.lookup_eq_none, not_not]

theorem Session.Held.map (held : session.Held) {space : Space} {virt phys flags : UInt64}
    (fresh : ¬ session.Remaps (.map space virt phys flags)) :
    (session.next (.map space virt phys flags)).Held := by
  rcases vmmMapPage_cases space virt phys flags session.mappings with
    ⟨-, same⟩ | ⟨i, mappable, free, effect⟩
  · simp only [Session.next, VmmCall.run, Pages.after, same]
    exact held
  · have some : freeEntry session.mappings ≠ none := by simp [free]
    have unmapped : vmmQueryPage space virt session.mappings = none := by
      by_contra mapped
      exact fresh ⟨mappable, some, mapped⟩
    have absent := (vmmQueryPage_eq_none_iff space virt _).mp unmapped
    obtain ⟨unused, inside⟩ := free_entry_facts free
    simp only [Session.next, VmmCall.run, Pages.after, effect, if_true]
    refine ⟨?_, ?_, ?_⟩
    · intro other
      by_cases same : other = virt
      · subst same
        exact single_withPage_self absent _
      · exact (held.single other).withPage_other _ same
    · intro anySpace other
      by_cases same : other = virt
      · subst same
        rw [query_withPage_self anySpace _ inside absent, Finmap.lookup_insert]
      · rw [query_withPage_other anySpace _ unused same, Finmap.lookup_insert_of_ne _ same]
        exact held.query anySpace other
    · have new : virt ∉ session.pages := (held.mem_pages_iff space virt).not.mpr (not_not.mpr unmapped)
      have keys : (session.pages.insert virt ⟨phys, flags ||| vmmPresent⟩).keys =
          insert virt session.pages.keys := by
        ext other
        simp [Finmap.mem_keys, Finmap.mem_insert]
      rw [usedEntries_withPage free, ← held.count, keys,
        Finset.card_insert_of_notMem (Finmap.mem_keys.not.mpr new)]

theorem Session.Held.unmap (held : session.Held) (space : Space) (virt : UInt64) :
    (session.next (.unmap space virt)).Held := by
  rcases vmmUnmapPage_cases space virt session.mappings with ⟨-, same⟩ | ⟨i, found, effect⟩
  · simp only [Session.next, VmmCall.run, Pages.after, same]
    exact held
  · obtain ⟨holds, -⟩ := entry_facts found
    simp only [Session.next, VmmCall.run, Pages.after, effect, if_true]
    refine ⟨fun other => (held.single other).withoutEntry i, ?_, ?_⟩
    · intro anySpace other
      by_cases same : other = virt
      · subst same
        rw [query_withoutEntry_self anySpace (held.single other) found, Finmap.lookup_erase]
      · rw [query_withoutEntry_other anySpace holds same, Finmap.lookup_erase_ne same]
        exact held.query anySpace other
    · have mapped : virt ∈ session.pages.keys := by
        rw [Finmap.mem_keys, held.mem_pages_iff space, Ne, vmmQueryPage_eq_none_iff, found]
        simp
      have fewer := usedEntries_withoutEntry found
      have count := held.count
      have positive := Finset.card_pos.mpr ⟨virt, mapped⟩
      show (session.pages.erase virt).keys.card = usedEntries (withoutEntry session.mappings i)
      rw [Finmap.keys_erase, Finset.card_erase_of_mem mapped]
      omega

theorem Session.Held.step (held : session.Held) {call : VmmCall} (fresh : ¬ session.Remaps call) :
    (session.next call).Held := by
  cases call with
  | map space virt phys flags => exact held.map fresh
  | unmap space virt => exact held.unmap space virt
  | query space virt => exact held

end

/-! ### One mapping for each page -/

/-- After the call no page has two entries, and a page that was unmapped and
not mapped again is not found. -/
structure Session.OneEntry (session : Session) (call : VmmCall) : Prop where
  distinct : ∀ i < mappingCount, ∀ j < mappingCount,
    ((session.next call).mappings i).used = true → ((session.next call).mappings j).used = true →
      ((session.next call).mappings i).virt = ((session.next call).mappings j).virt → i = j
  gone : ∀ space virt, virt ∉ (session.next call).pages →
    vmmQueryPage space virt (session.next call).mappings = none

theorem Session.Held.oneEntry {session : Session} {call : VmmCall}
    (after : (session.next call).Held) : session.OneEntry call := by
  constructor
  · intro i iInside j jInside iUsed jUsed same
    apply after.single ((session.next call).mappings j).virt i iInside j jInside
    · simp [Vmm.held, iUsed, same]
    · simp [Vmm.held, jUsed]
  · intro space virt unmapped
    rw [after.query space virt]
    exact Finmap.lookup_eq_none.mpr unmapped

/-- A remap leaves two entries for its page. -/
theorem Session.Remaps.not_oneEntry {session : Session} {call : VmmCall}
    (remaps : session.Remaps call) : ¬ session.OneEntry call := by
  cases call with
  | unmap space virt => exact fun _ => remaps
  | query space virt => exact fun _ => remaps
  | map space virt phys flags =>
      obtain ⟨mappable, some, mapped⟩ := remaps
      obtain ⟨i, free⟩ := Option.ne_none_iff_exists'.mp some
      rw [Ne, vmmQueryPage_eq_none_iff] at mapped
      obtain ⟨j, found⟩ := Option.ne_none_iff_exists'.mp mapped
      obtain ⟨unused, iInside⟩ := free_entry_facts free
      obtain ⟨holds, jInside⟩ := entry_facts found
      have elsewhere : j ≠ i := by
        intro same
        rw [same, unused] at holds
        cases holds
      have effect : (session.next (.map space virt phys flags)).mappings =
          withPage session.mappings i virt ⟨phys, flags ||| vmmPresent⟩ := by
        simp only [Session.next, VmmCall.run,
          vmmMapPage_accepted space virt phys flags session.mappings mappable free]
      have jUsed := held_eq_some_iff.mp holds
      intro oneEntry
      have same := oneEntry.distinct j jInside i iInside
      rw [effect] at same
      apply elsewhere
      apply same
      · simpa [withPage, elsewhere] using jUsed.1
      · simp [withPage]
      · simpa [withPage, elsewhere] using jUsed.2

/-- Pages have one entry each throughout a run exactly when no call of it
remaps. -/
theorem run_oneEntry_iff (calls : List VmmCall) :
    EveryCall Session.next Session.OneEntry calls started ↔
      EveryCall Session.next (fun session call => ¬ session.Remaps call) calls started := by
  refine everyCall_iff Session.Held ?_ started_held (everyCall_true calls started)
  intro session call held _
  have agree : session.OneEntry call ↔ ¬ session.Remaps call := by
    constructor
    · intro oneEntry remaps
      exact remaps.not_oneEntry oneEntry
    · intro fresh
      exact (held.step fresh).oneEntry
  exact ⟨agree, fun oneEntry => held.step (agree.mp oneEntry)⟩

/-- A page that is mapped twice and unmapped once, with success each time, is
still found, at the frame of the second map. -/
theorem mapped_twice_survives_unmap :
    ¬ EveryCall Session.next Session.OneEntry
        [.map 0x1000 0x400000 0x200000 0, .map 0x1000 0x400000 0x300000 0, .unmap 0x1000 0x400000]
        started := by
  intro every
  obtain ⟨-, -, unmapped, -⟩ := every
  have missing := unmapped.gone 0x1000 0x400000 (by decide +kernel)
  exact absurd missing (by decide +kernel)

/-! ### The finite map -/

/-- What a call has to answer, by the pages before it. -/
def Session.Answers (session : Session) : VmmCall → Prop
  | .map space virt phys flags =>
      ((vmmMapPage space virt phys flags session.mappings).1 = true ↔
        Mappable virt phys ∧ session.pages.keys.card < mappingCount) ∧
      ((vmmMapPage space virt phys flags session.mappings).1 = false →
        (vmmMapPage space virt phys flags session.mappings).2 = session.mappings)
  | .unmap space virt =>
      (vmmUnmapPage space virt session.mappings).1 = true ↔ virt ∈ session.pages
  | .query space virt => vmmQueryPage space virt session.mappings = session.pages.lookup virt

/-- The call refines the finite map: its answer is right, it changes the
answer for its own page only, and queries answer as the map does after it. -/
structure Session.Refines (session : Session) (call : VmmCall) : Prop where
  answers : session.Answers call
  others : ∀ space other, other ≠ call.virt →
    vmmQueryPage space other (session.next call).mappings =
      vmmQueryPage space other session.mappings
  after : ∀ space virt,
    vmmQueryPage space virt (session.next call).mappings = (session.next call).pages.lookup virt

/-- The caller maps only pages that are not mapped. -/
def Session.MapsFresh (session : Session) : VmmCall → Prop
  | .map _ virt _ _ => virt ∉ session.pages
  | _ => True

instance (session : Session) : (call : VmmCall) → Decidable (session.MapsFresh call)
  | .map _ _ _ _ => inferInstanceAs (Decidable (¬ _))
  | .unmap _ _ | .query _ _ => inferInstanceAs (Decidable True)

section

variable {session : Session}

theorem Session.Held.fresh (held : session.Held) {call : VmmCall} (fresh : session.MapsFresh call) :
    ¬ session.Remaps call := by
  cases call with
  | map space virt phys flags =>
      intro remaps
      exact fresh ((held.mem_pages_iff space virt).mpr remaps.2.2)
  | unmap space virt => exact id
  | query space virt => exact id

theorem Session.Held.answers (held : session.Held) (call : VmmCall) : session.Answers call := by
  cases call with
  | map space virt phys flags =>
      simp only [Session.Answers]
      rw [held.count, ← freeEntry_ne_none_iff]
      rcases vmmMapPage_cases space virt phys flags session.mappings with
        ⟨refused, same⟩ | ⟨i, mappable, free, effect⟩
      · simpa [same] using refused
      · simp [effect, mappable, free]
  | unmap space virt =>
      simp only [Session.Answers]
      rw [held.mem_pages_iff space, Ne, vmmQueryPage_eq_none_iff]
      rcases vmmUnmapPage_cases space virt session.mappings with ⟨missing, same⟩ | ⟨i, found, effect⟩
      · simp [missing, same]
      · simp [found, effect]
  | query space virt => exact held.query space virt

/-- A call changes what queries answer for its own page only. -/
theorem query_run_other (mappings : Mappings) (call : VmmCall) (space : Space) {other : UInt64}
    (different : other ≠ call.virt) :
    vmmQueryPage space other (call.run mappings) = vmmQueryPage space other mappings := by
  cases call with
  | map own virt phys flags =>
      simp only [VmmCall.run]
      rcases vmmMapPage_cases own virt phys flags mappings with ⟨-, same⟩ | ⟨i, -, free, effect⟩
      · rw [same]
      · rw [effect]
        exact query_withPage_other space _ (free_entry_facts free).1 different
  | unmap own virt =>
      simp only [VmmCall.run]
      rcases vmmUnmapPage_cases own virt mappings with ⟨-, same⟩ | ⟨i, found, effect⟩
      · rw [same]
      · rw [effect]
        exact query_withoutEntry_other space (entry_facts found).1 different
  | query own virt => rfl

end

/-- In a run that maps only pages that are not mapped, the table is the finite
map of capacity 256. -/
theorem run_refines_pages (calls : List VmmCall)
    (fresh : EveryCall Session.next Session.MapsFresh calls started) :
    EveryCall Session.next Session.Refines calls started := by
  refine everyCall_of_invariant Session.Held ?_ started_held fresh
  intro session call held mapsFresh
  have after := held.step (held.fresh mapsFresh)
  exact ⟨⟨held.answers call, fun space other different =>
    query_run_other session.mappings call space different, after.query⟩, after⟩

theorem run_refines_pages_reuse :
    EveryCall Session.next Session.Refines
      [.map 0x1000 0x400000 0x200000 2, .unmap 0x1000 0x400000, .map 0x1000 0x400000 0x300000 0,
        .query 0x1000 0x400000] started :=
  run_refines_pages _ (by decide +kernel)

end Mcsos.Vmm
