import Mcsos.Vfs.Layout

/-!
Contract: where a seek ends, over the integers.

`mcs_vfs_lseek` adds a signed offset to an unsigned one in 64 bits and compares
the sum with the size of the node. In a layout no size is above 256, so a sum
that wraps is above it, and the comparison also refuses what is below 0.
-/

namespace Mcsos.Vfs

open Mcsos.Machine
open Mcsos.Machine.Prog

/-- Where a seek starts from. -/
def seekOrigin (file : McsFile) (node : McsVnode) (whence : Int) : Option Nat :=
  if whence = mcsSeekSet then some 0
  else if whence = mcsSeekCur then some file.offset.toNat
  else if whence = mcsSeekEnd then some node.size.toNat
  else none

/-- The descriptor in a slot moves to the mathematical target and nothing else
changes, if the target is inside the file; otherwise the seek is refused. -/
structure SeeksExactly (w : VfsWorld) (table : Nat) (fd : Int) (slot : Nat) (offset : Int64)
    (whence : Int) : Prop where
  moves : ∀ origin : Nat,
    seekOrigin (w.tables table slot) (w.fs.nodes (w.tables table slot).node) whence = some origin →
    0 ≤ origin + offset.toInt →
    origin + offset.toInt ≤ (w.fs.nodes (w.tables table slot).node).size.toNat →
      (mcsVfsLseek table fd offset whence).result w = origin + offset.toInt ∧
        (mcsVfsLseek table fd offset whence).final w = w.modifyFile table slot fun file =>
          { file with offset := UInt64.ofNat (origin + offset.toInt).toNat }
  refuses :
    (∀ origin : Nat,
      seekOrigin (w.tables table slot) (w.fs.nodes (w.tables table slot).node) whence =
        some origin →
      ¬ (0 ≤ origin + offset.toInt ∧
        origin + offset.toInt ≤ (w.fs.nodes (w.tables table slot).node).size.toNat)) →
      (mcsVfsLseek table fd offset whence).result w = mcsEinval ∧
        (mcsVfsLseek table fd offset whence).final w = w

/-- The `switch` adds the offset to the origin in 64 bits, or knows no
origin. -/
theorem seekTarget_cases (file : McsFile) (node : McsVnode) (offset : Int64) (whence : Int) :
    (seekOrigin file node whence = none ∧ seekTarget file node offset whence = none) ∨
      ∃ base : UInt64, seekOrigin file node whence = some base.toNat ∧
        seekTarget file node offset whence = some (base + offset.toUInt64) ∧
        (base = 0 ∨ base = file.offset ∨ base = node.size) := by
  unfold seekOrigin seekTarget
  split
  · exact Or.inr ⟨0, rfl, by rw [UInt64.zero_add], Or.inl rfl⟩
  · split
    · exact Or.inr ⟨file.offset, rfl, rfl, Or.inr (Or.inl rfl)⟩
    · split
      · exact Or.inr ⟨node.size, rfl, rfl, Or.inr (Or.inr rfl)⟩
      · exact Or.inl ⟨rfl, rfl⟩

section

variable {w : VfsWorld} {table : Nat} {fd : Int} {slot : Nat} {file : McsFile} {node : McsVnode}
  (inRange : fdSlot fd = some slot) (entry : w.tables table slot = file)
  (used : file.used = true) (target : w.fs.nodes file.node = node)

include inRange entry used target

theorem mcsVfsLseek_refused {offset : Int64} {whence : Int}
    (outside : ∀ newOffset, seekTarget file node offset whence = some newOffset →
      node.size.toNat < newOffset.toNat) :
    (mcsVfsLseek table fd offset whence).result w = mcsEinval ∧
      (mcsVfsLseek table fd offset whence).final w = w := by
  rcases mcsVfsLseek_open inRange entry used target offset whence with
    refused | ⟨newOffset, found, inside, -⟩
  · exact refused
  · exact absurd inside (Nat.not_le.mpr (outside newOffset found))

theorem mcsVfsLseek_moved {offset : Int64} {whence : Int} {newOffset : UInt64}
    (found : seekTarget file node offset whence = some newOffset)
    (inside : newOffset.toNat ≤ node.size.toNat) :
    (mcsVfsLseek table fd offset whence).result w = newOffset.toInt64.toInt ∧
      (mcsVfsLseek table fd offset whence).final w =
        w.modifyFile table slot fun file => { file with offset := newOffset } := by
  have notBeyond : ¬ node.size < newOffset := by
    rw [UInt64.lt_iff_toNat_lt]
    exact Nat.not_lt.mpr inside
  simp [mcsVfsLseek, inRange, entry, used, target, found, notBeyond, Event.apply, VfsAccess.apply]

end

/-- Through an open descriptor of a layout. -/
theorem Layout.seeksExactly {tableCount : Nat} {w : VfsWorld} (layout : Layout tableCount w)
    {table : Nat} (known : table < tableCount) {fd : Int} {slot : Nat}
    (inRange : fdSlot fd = some slot) (used : (w.tables table slot).used = true) (offset : Int64)
    (whence : Int) : SeeksExactly w table fd slot offset whence := by
  have below := ((fdSlot_eq_some_iff fd slot).mp inRange).2
  obtain ⟨inside, reached⟩ := layout.file table known slot below used
  have bounded := (layout.node _ inside).size
  have block := layout.block inside
  rcases seekTarget_cases (w.tables table slot) (w.fs.nodes (w.tables table slot).node) offset
    whence with ⟨unknown, noTarget⟩ | ⟨base, origin, found, cases⟩
  · refine ⟨?_, fun _ => ?_⟩
    · intro origin known
      rw [unknown] at known
      cases known
    · exact mcsVfsLseek_refused inRange rfl used rfl (by simp [noTarget])
  · have start : base.toNat ≤ (w.fs.nodes (w.tables table slot).node).size.toNat := by
      rcases cases with rfl | rfl | rfl
      · exact Nat.zero_le _
      · exact reached
      · exact Nat.le_refl _
    have ends := @add_toUInt64_le_iff base offset
      (w.fs.nodes (w.tables table slot).node).size.toNat (by omega) (by omega)
    refine ⟨?_, ?_⟩
    · intro other isOrigin notNegative notBehind
      rw [origin, Option.some.injEq] at isOrigin
      subst isOrigin
      have stays := ends.mpr ⟨notNegative, notBehind⟩
      have exact' := @add_toUInt64_toNat base offset (by omega) (by omega)
      rcases mcsVfsLseek_moved inRange rfl used rfl found stays with ⟨status, left⟩
      rw [status, left, toInt64_toInt_of_lt (by omega), exact', Int.toNat_natCast,
        UInt64.ofNat_toNat]
      exact ⟨rfl, rfl⟩
    · intro outside
      apply mcsVfsLseek_refused inRange rfl used rfl
      intro newOffset isTarget
      rw [found, Option.some.injEq] at isTarget
      subst isTarget
      exact Nat.lt_of_not_le fun stays => outside base.toNat origin (ends.mp stays)

/-- In every state that calls with short paths and writes that do not wrap lead
to, every seek through an open descriptor goes by the integers. -/
theorem reachable_seeksExactly (tableCount : Nat) (memory : VfsWorld) (calls : List FsCall)
    (allowed : EveryCall FsCall.next (fun w call => call.Allowed tableCount w) calls
      ((vfsStart tableCount).final memory))
    {table : Nat} (known : table < tableCount) {fd : Int} {slot : Nat}
    (inRange : fdSlot fd = some slot)
    (used : ((calls.foldl FsCall.next ((vfsStart tableCount).final memory)).tables table
      slot).used = true)
    (offset : Int64) (whence : Int) :
    SeeksExactly (calls.foldl FsCall.next ((vfsStart tableCount).final memory)) table fd slot
      offset whence := by
  have layout := allowed.final (Layout tableCount) (fun _ _ holds here => holds.next here.short)
    (vfsStart_layout tableCount memory)
  exact layout.seeksExactly known inRange used offset whence

/-- A file of eight bytes is opened and read to its third. -/
def partlyRead : List FsCall :=
  [.vfs (.seed helloPath (fun _ => 7) 8), .vfs (.openFile 0 helloPath 0), .vfs (.read 0 0 3)]

/-- One byte back from there. -/
theorem reachable_seeksExactly_oneBack :
    SeeksExactly (partlyRead.foldl FsCall.next ((vfsStart 1).final zeroedWorld)) 0 0 0 (-1) 1 := by
  have short : helloPath.length < 32 := by decide
  refine reachable_seeksExactly 1 zeroedWorld partlyRead
    ⟨short, ⟨by decide, short⟩, show 0 < 1 by decide, trivial⟩ (by decide) (by decide) ?_ _ _
  decide +kernel

end Mcsos.Vfs
