import Mcsos.Vfs.Effects

/-!
The names of a ramfs after any run of calls whose paths fit their field.

A create does not look for its path, so a path may come to stand in several
nodes; a lookup stops at the first of them. Every call adds one name at most to
the list of `Named`, and the list has no duplicates exactly while no create
repeats a path.
-/

namespace Mcsos.Vfs

open Mcsos.Machine
open Mcsos.Machine.Prog

/-- The node is there and carries the path. -/
def Carries (fs : McsRamfs) (index : Nat) (path : CString) : Prop :=
  index < fs.nodeCount.toNat ∧ path.StoredIn (fs.nameAt index)

/-- The path a call is to make a node for without looking for it. -/
def FsCall.makes : FsCall → Option CString
  | .createFile path | .vfs (.seed path _ _) => some path
  | .vfs (.openFile _ _ _) | .vfs (.read _ _ _) | .vfs (.write _ _ _ _) |
    .vfs (.lseek _ _ _ _) | .vfs (.close _ _) => none

/-- After the call no two nodes carry the same path. -/
def KeepsUnique (w : VfsWorld) (call : FsCall) : Prop :=
  Unambiguous (Carries (FsCall.next w call).fs)

/-- A create or a seed finds no space, or is of a path that no node carries. -/
def CreatesNew (w : VfsWorld) (call : FsCall) : Prop :=
  ∀ path, call.makes = some path → ¬ HasSpace w.fs ∨ ∀ index, ¬ Carries w.fs index path

section

variable {fs : McsRamfs} {names : List CString}

theorem Named.lists (named : Named fs names) : Lists (Carries fs) names := by
  intro index path
  constructor
  · rintro ⟨inside, stored⟩
    rw [named.count] at inside
    have present := List.getElem?_eq_getElem inside
    rw [present, stored.unique (named.storedAt present)]
  · intro present
    refine ⟨?_, named.storedAt present⟩
    rw [named.count]
    exact (List.getElem?_eq_some_iff.mp present).1

theorem Named.lookup_eq_none_iff (named : Named fs names) (path : CString) :
    mcsRamfsLookup fs path = none ↔ ∀ index, ¬ Carries fs index path := by
  rw [named.lookup, List.idxOf?_eq_none_iff, named.lists.mem_iff, not_exists]

/-- The pool changes, and one node, which keeps its name. -/
theorem Named.replace (named : Named fs names) (data : Nat → UInt8) {index : Nat} {node : McsVnode}
    (same : node.name = (fs.nodes index).name) :
    Named { fs with data := data, nodes := Function.update fs.nodes index node } names := by
  refine ⟨named.bounded, named.count, ?_⟩
  intro other path present
  show path.length < 32 ∧ path.StoredIn (Function.update fs.nodes index node other).name
  by_cases here : other = index
  · subst here
    rw [Function.update_self, same]
    exact named.stored other path present
  · rw [Function.update_of_ne here]
    exact named.stored other path present

end

section

variable {tableCount : Nat} {w : VfsWorld} {names : List CString}

theorem Named.create (named : Named w.fs names) (space : HasSpace w.fs) {path : CString}
    (short : path.length < 32) :
    Named ((mcsRamfsCreateFile path).final w).fs (names ++ [path]) := by
  have count := named.count
  have nodes := space.1
  have one : (1 : UInt32).toNat = 1 := rfl
  rw [(mcsRamfsCreateFile_final space short).2]
  refine ⟨?_, ?_, ?_⟩
  · rw [List.length_append, List.length_singleton]
    omega
  · rw [UInt32.toNat_add, one, List.length_append, List.length_singleton]
    omega
  · intro index found present
    show found.length < 32 ∧
      found.StoredIn (Function.update w.fs.nodes w.fs.nodeCount.toNat _ index).name
    rw [count]
    rcases getElem?_concat_cases present with ⟨old, present⟩ | ⟨newest, same⟩
    · rw [Function.update_of_ne (Nat.ne_of_lt old)]
      exact named.stored index found present
    · rw [newest, same, Function.update_self]
      exact ⟨short, path.storedIn_writeRange _⟩

/-- A seed adds a name as a create does. -/
theorem Named.seed (named : Named w.fs names) (space : HasSpace w.fs) {path : CString}
    (short : path.length < 32) (data : Nat → UInt8) (size : UInt64) :
    Named (((mcsRamfsCreateFile path).final w).fs.written w.fs.nodeCount.toNat 0 size.toNat data
      size) (names ++ [path]) :=
  (named.create space short).replace _ rfl

theorem Named.write (named : Named w.fs names) {table slot : Nat} {fd : Int} {size : UInt64}
    (inRange : fdSlot fd = some slot) (used : (w.tables table slot).used = true)
    (fits : (w.tables table slot).offset + size ≤
      (w.fs.nodes (w.tables table slot).node).dataCapacity) (buffer : Nat → UInt8) :
    Named ((mcsVfsWrite table fd buffer size).final w).fs names := by
  obtain ⟨data, left⟩ := mcsVfsWrite_passed inRange rfl used rfl fits buffer
  rw [left]
  exact named.replace data rfl

/-- One call adds one name at most, at the end. -/
theorem Named.next (named : Named w.fs names) (layout : Layout tableCount w) {call : FsCall}
    (short : call.Short tableCount) :
    Named (FsCall.next w call).fs (names ++ (call.adds w).toList) := by
  rcases layout.next_cases short with ⟨none, same⟩ | ⟨path, adds, space, fits, made⟩ |
    ⟨path, data, size, -, adds, space, fits, -, made⟩ |
    ⟨none, table, fd, buffer, size, slot, -, -, inRange, used, inBlock, left⟩
  · simpa [none, same] using named
  · simpa [adds, made] using named.create space fits
  · simpa [adds, made] using named.seed space fits data size
  · simpa [none, left] using named.write inRange used inBlock buffer

/-- The path a call adds is new exactly when a create or a seed is of a new
path: an open looks for its path before it makes a node. -/
theorem Named.adds_new_iff (named : Named w.fs names) (call : FsCall) :
    (∀ path, call.adds w = some path → ∀ index, ¬ Carries w.fs index path) ↔
      CreatesNew w call := by
  have created : ∀ made : CString,
      (∀ path, (if HasSpace w.fs then some made else none) = some path →
          ∀ index, ¬ Carries w.fs index path) ↔
        ∀ path, some made = some path → ¬ HasSpace w.fs ∨ ∀ index, ¬ Carries w.fs index path := by
    intro made
    by_cases space : HasSpace w.fs
    · simp [space]
    · simp [space]
  cases call with
  | createFile path => exact created path
  | vfs call =>
      cases call with
      | seed path data size => exact created path
      | openFile table path flags =>
          refine ⟨fun _ _ makes => (by cases makes), fun _ found adds => ?_⟩
          rcases Option.ite_none_right_eq_some.mp adds with ⟨⟨missing, -, -⟩, same⟩
          rw [Option.some.injEq] at same
          rw [← same]
          exact (named.lookup_eq_none_iff path).mp missing
      | read _ _ _ | write _ _ _ _ | lseek _ _ _ _ | close _ _ =>
          exact ⟨fun _ _ makes => (by cases makes), fun _ _ adds => (by cases adds)⟩

theorem Named.keepsUnique_iff (named : Named w.fs names) (distinct : names.Nodup)
    (layout : Layout tableCount w) {call : FsCall} (short : call.Short tableCount) :
    KeepsUnique w call ↔ CreatesNew w call := by
  rw [← named.adds_new_iff]
  exact named.lists.unambiguous_add_iff distinct (named.next layout short).lists

end

theorem vfsStart_named (tableCount : Nat) (memory : VfsWorld) :
    Named ((vfsStart tableCount).final memory).fs [rootName] := by
  rw [(vfsStart_cleared tableCount memory).1]
  exact (mcsRamfsInit_represents memory).named

/-- Every state that calls with short paths lead to lists its names. -/
theorem reachable_named (tableCount : Nat) (memory : VfsWorld) {calls : List FsCall}
    (short : ∀ call ∈ calls, call.Short tableCount) :
    ∃ names, Named (calls.foldl FsCall.next ((vfsStart tableCount).final memory)).fs names := by
  have kept := EveryCall.final (fun w => Layout tableCount w ∧ ∃ names, Named w.fs names)
    (by
      rintro w call ⟨layout, names, named⟩ here
      exact ⟨layout.next here, _, named.next layout here⟩)
    (everyCall_of_forall short ((vfsStart tableCount).final memory))
    ⟨vfsStart_layout tableCount memory, _, vfsStart_named tableCount memory⟩
  exact kept.2

/-- The names stay unique along a run exactly when every create and every seed
is of a new path or finds no space. -/
theorem run_keepsUnique_iff (tableCount : Nat) (memory : VfsWorld) (calls : List FsCall)
    (short : ∀ call ∈ calls, call.Short tableCount) :
    EveryCall FsCall.next KeepsUnique calls ((vfsStart tableCount).final memory) ↔
      EveryCall FsCall.next CreatesNew calls ((vfsStart tableCount).final memory) := by
  refine everyCall_iff
    (fun w => Layout tableCount w ∧ ∃ names, Named w.fs names ∧ names.Nodup) ?_
    ⟨vfsStart_layout tableCount memory, _, vfsStart_named tableCount memory,
      List.nodup_singleton _⟩
    (everyCall_of_forall short _)
  rintro w call ⟨layout, names, named, distinct⟩ here
  refine ⟨named.keepsUnique_iff distinct layout here, fun keeps => ?_⟩
  have after := named.next layout here
  exact ⟨layout.next here, _, after, after.lists.unambiguous_iff.mp keeps⟩

end Mcsos.Vfs
