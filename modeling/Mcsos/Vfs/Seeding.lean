import Mcsos.Vfs.Names

/-!
Contract: what is read from a path that was just seeded, in every reachable
state.

An open takes the first node with the path, a seed makes the last one. The two
are the same node exactly while no older node carries the path; the root's name
counts as well.
-/

namespace Mcsos.Vfs

open Mcsos.Machine
open Mcsos.Machine.Prog

/-- A read of any size through the descriptor an open returns gives the first of
these bytes. -/
def OpensBytes (w : VfsWorld) (table : Nat) (path : CString) (bytes : List UInt8) : Prop :=
  ∀ flags, 0 ≤ (mcsVfsOpen table path flags).result w ∧
    ∀ count : UInt64,
      (mcsVfsRead table ((mcsVfsOpen table path flags).result w) count).result
          ((mcsVfsOpen table path flags).final w) =
        (Int.ofNat (min count.toNat bytes.length), bytes.take count.toNat)

/-- A seed that succeeds is read back through an open. -/
def SeededIsOpened (w : VfsWorld) (table : Nat) (path : CString) (data : Nat → UInt8)
    (size : UInt64) : Prop :=
  (mcsRamfsSeedFile path data size).result w = mcsOk →
    OpensBytes ((mcsRamfsSeedFile path data size).final w) table path
      ((List.range size.toNat).map data)

/-- The seed finds no space, or no node carries its path, or the first node that
does holds the same bytes already. -/
def SeedIsFirst (fs : McsRamfs) (path : CString) (data : Nat → UInt8) (size : UInt64) : Prop :=
  ¬ HasSpace fs ∨ (∀ index, ¬ Carries fs index path) ∨
    ∃ index, mcsRamfsLookup fs path = some index ∧
      fileBytes fs index = (List.range size.toNat).map data

section

variable {tableCount : Nat} {w : VfsWorld} {path : CString}

/-- An open of a path that is found, and a read through its descriptor. -/
theorem Layout.open_read (layout : Layout tableCount w) {table : Nat} (known : table < tableCount)
    {node : Nat} (found : mcsRamfsLookup w.fs path = some node)
    (free : ∃ slot < 16, (w.tables table slot).used = false) :
    OpensBytes w table path (fileBytes w.fs node) := by
  intro flags
  rcases mcsVfsOpen_cases w table path flags with ⟨missing, -⟩ | ⟨other, after, opened, outcome⟩
  · rw [missing] at found
    cases found
  · rcases opened with ⟨there, rfl⟩ | ⟨missing, -⟩
    · rw [found, Option.some.injEq] at there
      subst there
      rcases outcome with ⟨inUse, -, -⟩ | ⟨slot, below, -, -, status, left⟩
      · rcases free with ⟨slot, below, unused⟩
        rw [inUse slot below] at unused
        cases unused
      · have opened : Layout tableCount
            (after.modifyFile table slot fun _ => ⟨flags, 0, node, true⟩) :=
          layout.setFile fun _ => ⟨lookup_lt found, Nat.zero_le _⟩
        have inRange := (fdSlot_eq_some_iff slot slot).mpr ⟨rfl, below⟩
        rw [status, left]
        refine ⟨Int.natCast_nonneg slot, fun count => ?_⟩
        rw [opened.read_result known inRange (by rw [modifyFile_self]), modifyFile_self]
        simp [VfsWorld.modifyFile]
    · rw [missing] at found
      cases found

/-- Two files that are read alike hold the same bytes. -/
theorem OpensBytes.unique {table : Nat} {bytes others : List UInt8}
    (here : OpensBytes w table path bytes) (there : OpensBytes w table path others)
    (small : bytes.length < 2 ^ 64) (othersSmall : others.length < 2 ^ 64) : bytes = others := by
  have whole : (UInt64.ofNat (max bytes.length others.length)).toNat =
      max bytes.length others.length := UInt64.toNat_ofNat_of_lt' (by
    show max bytes.length others.length < 2 ^ 64
    omega)
  have same := ((here 0).2 (UInt64.ofNat (max bytes.length others.length))).symm.trans
    ((there 0).2 _)
  have taken := congrArg Prod.snd same
  simp only [whole] at taken
  rwa [List.take_of_length_le (Nat.le_max_left _ _),
    List.take_of_length_le (Nat.le_max_right _ _)] at taken

/-- After a seed that found space an open comes to the node that carried the path
before, and to the new one only if none did. -/
theorem Named.seed_opens {names : List CString} (named : Named w.fs names)
    (layout : Layout tableCount w) {table : Nat} (known : table < tableCount)
    (space : HasSpace w.fs) (short : path.length < 32) (data : Nat → UInt8) {size : UInt64}
    (fits : size.toNat ≤ 256) (free : ∃ slot < 16, (w.tables table slot).used = false) :
    OpensBytes ((mcsRamfsSeedFile path data size).final w) table path
      (((mcsRamfsLookup w.fs path).map (fileBytes w.fs)).getD
        ((List.range size.toNat).map data)) := by
  have pool := layout.pool
  have after := layout.seed short data size
  have left := (mcsRamfsSeedFile_final space short data fits (by omega)).2
  have stillFree : ∃ slot < 16,
      (((mcsRamfsSeedFile path data size).final w).tables table slot).used = false := by
    rwa [mcsRamfsSeedFile_tables]
  have lookup := (named.seed space short data size).lookup path
  rw [idxOf?_concat, if_pos rfl, ← named.lookup, ← named.count] at lookup
  rw [left] at after stillFree ⊢
  cases found : mcsRamfsLookup w.fs path with
  | none =>
      rw [found, Option.none_or] at lookup
      have opens := after.open_read known lookup stillFree
      rwa [seeded_fileBytes_new space short] at opens
  | some index =>
      rw [found, Option.some_or] at lookup
      have opens := after.open_read known lookup stillFree
      rwa [layout.seeded_fileBytes_old space short fits (lookup_lt found)] at opens

theorem Named.seededIsOpened_iff {names : List CString} (named : Named w.fs names)
    (layout : Layout tableCount w) {table : Nat} (known : table < tableCount)
    (short : path.length < 32) (data : Nat → UInt8) {size : UInt64} (fits : size.toNat ≤ 256)
    (free : ∃ slot < 16, (w.tables table slot).used = false) :
    SeededIsOpened w table path data size ↔ SeedIsFirst w.fs path data size := by
  by_cases space : HasSpace w.fs
  · have status := mcsRamfsSeedFile_status space short data fits
    have opens := named.seed_opens layout known space short data fits free
    rw [SeedIsFirst, ← named.lookup_eq_none_iff]
    cases found : mcsRamfsLookup w.fs path with
    | none =>
        rw [found] at opens
        exact ⟨fun _ => Or.inr (Or.inl rfl), fun _ _ => opens⟩
    | some index =>
        rw [found] at opens
        constructor
        · intro readBack
          refine Or.inr (Or.inr ⟨index, rfl, opens.unique (readBack status) ?_ ?_⟩)
          · rw [Option.map_some, Option.getD_some, fileBytes_length]
            exact (w.fs.nodes index).size.toNat_lt
          · rw [List.length_map, List.length_range]
            exact size.toNat_lt
        · rintro (full | new | ⟨other, isOther, same⟩) -
          · exact absurd space full
          · cases new
          · cases isOther
            rwa [← same]
  · have refused := (mcsRamfsSeedFile_full space path data size).1
    refine ⟨fun _ => Or.inl space, fun _ ok => ?_⟩
    rw [refused] at ok
    exact absurd ok (by decide)

end

/-! ### Every reachable state -/

/-- Along every run of calls with short paths, no two nodes ever carry the same
path exactly when every create and every seed is of a new path or finds no
space. And in the state it leads to, a seed is read back through an open exactly
when it fails, or its path is new, or the file the path already names holds the
same bytes. -/
theorem reachable_seededIsOpened_iff (tableCount : Nat) (memory : VfsWorld) (calls : List FsCall)
    (short : ∀ call ∈ calls, call.Short tableCount) :
    Unambiguous (Carries ((vfsStart tableCount).final memory).fs) ∧
      (EveryCall FsCall.next KeepsUnique calls ((vfsStart tableCount).final memory) ↔
        EveryCall FsCall.next CreatesNew calls ((vfsStart tableCount).final memory)) ∧
      let w := calls.foldl FsCall.next ((vfsStart tableCount).final memory)
      ∀ table < tableCount, (∃ slot < 16, (w.tables table slot).used = false) →
        ∀ path : CString, path.length < 32 → ∀ (data : Nat → UInt8) (size : UInt64),
          size.toNat ≤ 256 →
            (SeededIsOpened w table path data size ↔ SeedIsFirst w.fs path data size) := by
  refine ⟨?_, run_keepsUnique_iff tableCount memory calls short, ?_⟩
  · rw [(vfsStart_named tableCount memory).lists.unambiguous_iff]
    exact List.nodup_singleton _
  · intro w table known free path fitsField data size fitsBlock
    obtain ⟨names, named⟩ := reachable_named tableCount memory short
    exact named.seededIsOpened_iff (reachable_layout tableCount memory short) known fitsField data
      fitsBlock free

/-- The first seed of a new ramfs. -/
theorem reachable_seededIsOpened_firstSeed :
    SeededIsOpened ((vfsStart 1).final zeroedWorld) 0 helloPath (fun _ => 7) 8 := by
  refine ((reachable_seededIsOpened_iff 1 zeroedWorld [] (by simp)).2.2 0 (by decide)
    ⟨0, by decide, by decide +kernel⟩ helloPath (by decide) _ _ (by decide)).mpr
    (Or.inr (Or.inl ?_))
  exact ((vfsStart_named 1 zeroedWorld).lookup_eq_none_iff helloPath).mp (by decide +kernel)

def seededOnce : List FsCall := [.vfs (.seed helloPath (fun _ => 7) 8)]

theorem seededOnce_short : ∀ call ∈ seededOnce, call.Short 1 := by
  intro call member
  rw [List.mem_singleton.mp member]
  show helloPath.length < 32
  decide

theorem seededOnce_lookup :
    mcsRamfsLookup (seededOnce.foldl FsCall.next ((vfsStart 1).final zeroedWorld)).fs helloPath =
      some 1 := by
  decide +kernel

/-- A second seed of the path succeeds, two nodes carry the path, and an open
comes to the first. -/
theorem secondSeed_is_hidden :
    ¬ SeededIsOpened (seededOnce.foldl FsCall.next ((vfsStart 1).final zeroedWorld)) 0 helloPath
        (fun _ => 9) 8 ∧
      ¬ EveryCall FsCall.next KeepsUnique (seededOnce ++ [.vfs (.seed helloPath (fun _ => 9) 8)])
        ((vfsStart 1).final zeroedWorld) := by
  have space : HasSpace (seededOnce.foldl FsCall.next ((vfsStart 1).final zeroedWorld)).fs := by
    decide +kernel
  obtain ⟨names, named⟩ := reachable_named 1 zeroedWorld seededOnce_short
  have carried : ¬ ∀ index, ¬ Carries
      (seededOnce.foldl FsCall.next ((vfsStart 1).final zeroedWorld)).fs index helloPath := by
    rw [← named.lookup_eq_none_iff, seededOnce_lookup]
    exact Option.some_ne_none 1
  constructor
  · rw [named.seededIsOpened_iff (reachable_layout 1 zeroedWorld seededOnce_short) (by decide)
      (by decide) _ (by decide) ⟨0, by decide, by decide +kernel⟩]
    rintro (full | new | ⟨index, found, same⟩)
    · exact full space
    · exact carried new
    · rw [seededOnce_lookup, Option.some.injEq] at found
      subst found
      exact absurd same (by decide +kernel)
  · rw [run_keepsUnique_iff 1 zeroedWorld _ (by
      intro call member
      rcases List.mem_append.mp member with first | second
      · exact seededOnce_short call first
      · rw [List.mem_singleton.mp second]
        show helloPath.length < 32
        decide)]
    rintro ⟨-, createsNew, -⟩
    rcases createsNew helloPath rfl with full | new
    · exact full space
    · exact carried new

end Mcsos.Vfs
