import Mcsos.Vfs.Operations
import Mcsos.Vfs.Store

/-!
Contract: the virtual file system over a ramfs refines the abstract file store.

`Refines` relates a world to a store: every node holds the contents of its
path, every descriptor in use stands for the store's descriptor of the same
table and number. Each call keeps the relation; the steps are one lemma for a
descriptor that changes, one for bytes that are written, one for a file that is
made.
-/

namespace Mcsos.Vfs

open Mcsos.Machine
open Mcsos.Machine.Prog

/-- The table entry stands for the descriptor, or for none. -/
def McsFile.Is (file : McsFile) (fs : McsRamfs) (names : List CString)
    (descriptor : Option Descriptor) : Prop :=
  if file.used then
    ∃ path, names[file.node]? = some path ∧
      descriptor = some ⟨path, file.offset.toNat⟩ ∧
      file.offset.toNat ≤ (fs.nodes file.node).size.toNat
  else
    descriptor = none

theorem McsFile.is_of_used (file : McsFile) {fs : McsRamfs} {names : List CString}
    {descriptor : Option Descriptor} (used : file.used = true) :
    file.Is fs names descriptor ↔
      ∃ path, names[file.node]? = some path ∧
        descriptor = some ⟨path, file.offset.toNat⟩ ∧
        file.offset.toNat ≤ (fs.nodes file.node).size.toNat := by
  simp [McsFile.Is, used]

theorem McsFile.is_of_unused (file : McsFile) {fs : McsRamfs} {names : List CString}
    {descriptor : Option Descriptor} (unused : file.used = false) :
    file.Is fs names descriptor ↔ descriptor = none := by
  simp [McsFile.Is, unused]

/-- The world, with this many tables, stands for the store. -/
structure Refines (tableCount : Nat) (w : VfsWorld) (store : FileStore) (names : List CString) :
    Prop where
  represents : Represents w.fs names
  contents : ∀ index path, names[index]? = some path →
    fileBytes w.fs index = store.contents path
  absent : ∀ path, path ∉ names → store.contents path = []
  badFd : ∀ table < tableCount, ∀ fd, fdSlot fd = none → store.descriptors table fd = none
  files : ∀ table < tableCount, ∀ slot < 16,
    (w.tables table slot).Is w.fs names (store.descriptors table slot)

section

variable {tableCount : Nat} {w : VfsWorld} {store : FileStore} {names : List CString}

/-! ### Descriptors -/

/-- What stands behind an open descriptor. -/
theorem Refines.opened (refines : Refines tableCount w store names) {table : Nat} {fd : Int}
    {descriptor : Descriptor} (known : table < tableCount)
    (isOpen : store.descriptors table fd = some descriptor) :
    ∃ slot, fdSlot fd = some slot ∧ (w.tables table slot).used = true ∧
      names[(w.tables table slot).node]? = some descriptor.path ∧
      descriptor.position = (w.tables table slot).offset.toNat ∧
      descriptor.position ≤ (w.fs.nodes (w.tables table slot).node).size.toNat := by
  cases inRange : fdSlot fd with
  | none =>
      rw [refines.badFd table known fd inRange] at isOpen
      exact absurd isOpen (by simp)
  | some slot =>
      rcases (fdSlot_eq_some_iff fd slot).mp inRange with ⟨rfl, below⟩
      have file := refines.files table known slot below
      cases used : (w.tables table slot).used with
      | true =>
          rcases ((w.tables table slot).is_of_used used).mp file with
            ⟨path, present, stands, reached⟩
          rw [isOpen, Option.some.injEq] at stands
          subst stands
          exact ⟨slot, rfl, used, present, rfl, reached⟩
      | false =>
          rw [((w.tables table slot).is_of_unused used).mp file] at isOpen
          exact absurd isOpen (by simp)

theorem Refines.notOpen (refines : Refines tableCount w store names) {table : Nat} {fd : Int}
    (known : table < tableCount) (closed : store.descriptors table fd = none) :
    NotOpen w table fd := by
  intro slot inRange
  rcases (fdSlot_eq_some_iff fd slot).mp inRange with ⟨rfl, below⟩
  have file := refines.files table known slot below
  cases used : (w.tables table slot).used with
  | true =>
      rcases ((w.tables table slot).is_of_used used).mp file with ⟨path, -, stands, -⟩
      rw [closed] at stands
      exact absurd stands (by simp)
  | false => rfl

/-- One entry of one table changes, and the descriptor it stands for with it. -/
theorem Refines.setFile (refines : Refines tableCount w store names) {table : Nat} {fd : Int}
    {slot : Nat} (inRange : fdSlot fd = some slot) (change : McsFile → McsFile)
    {descriptor : Option Descriptor}
    (stands : (change (w.tables table slot)).Is w.fs names descriptor) :
    Refines tableCount (w.modifyFile table slot change) (store.setDescriptor table fd descriptor)
      names := by
  rcases (fdSlot_eq_some_iff fd slot).mp inRange with ⟨rfl, below⟩
  refine ⟨refines.represents, refines.contents, refines.absent, ?_, ?_⟩
  · intro other known badFd bad
    have different : (other, badFd) ≠ (table, (slot : Int)) := by
      intro same
      rw [(Prod.mk.inj same).2, inRange] at bad
      exact absurd bad (by simp)
    rw [store.setDescriptor_other _ different]
    exact refines.badFd other known badFd bad
  · intro other known otherSlot otherBelow
    by_cases same : (other, otherSlot) = (table, slot)
    · rcases Prod.mk.inj same with ⟨rfl, rfl⟩
      rw [modifyFile_self, store.setDescriptor_self]
      exact stands
    · have different : (other, (otherSlot : Int)) ≠ (table, (slot : Int)) := by
        intro equal
        rcases Prod.mk.inj equal with ⟨sameTable, sameSlot⟩
        exact same (by rw [sameTable, Int.ofNat_inj.mp sameSlot])
      rw [modifyFile_other _ _ same, store.setDescriptor_other _ different]
      exact refines.files other known otherSlot otherBelow

/-- An open descriptor moves inside its file. -/
theorem Refines.move (refines : Refines tableCount w store names) {table : Nat} {fd : Int}
    {slot : Nat} {path : CString} (inRange : fdSlot fd = some slot)
    (used : (w.tables table slot).used = true)
    (present : names[(w.tables table slot).node]? = some path) {newOffset : UInt64}
    (change : McsFile → McsFile)
    (moves : change (w.tables table slot) = { w.tables table slot with offset := newOffset })
    (reached : newOffset.toNat ≤ (w.fs.nodes (w.tables table slot).node).size.toNat) :
    Refines tableCount (w.modifyFile table slot change)
      (store.setDescriptor table fd (some ⟨path, newOffset.toNat⟩)) names := by
  apply refines.setFile inRange
  rw [moves, McsFile.is_of_used]
  · exact ⟨path, present, rfl, reached⟩
  · exact used

/-! ### Bytes -/

theorem McsFile.Is.grow {file : McsFile} {fs fs' : McsRamfs} {names names' : List CString}
    {descriptor : Option Descriptor} (is : file.Is fs names descriptor)
    (kept : ∀ index path, names[index]? = some path → names'[index]? = some path ∧
      (fs.nodes index).size.toNat ≤ (fs'.nodes index).size.toNat) :
    file.Is fs' names' descriptor := by
  cases used : file.used with
  | true =>
      rw [file.is_of_used used] at is ⊢
      rcases is with ⟨path, present, stands, reached⟩
      rcases kept _ path present with ⟨presentAfter, grown⟩
      exact ⟨path, presentAfter, stands, reached.trans grown⟩
  | false =>
      rw [file.is_of_unused used] at is ⊢
      exact is

/-- Bytes are written into the block of one file, inside it or at its end. -/
theorem Refines.writeBytes (refines : Refines tableCount w store names) {index : Nat}
    {path : CString} (present : names[index]? = some path) {start count : Nat}
    (reached : start ≤ (w.fs.nodes index).size.toNat) (inBlock : start + count ≤ capacityOf index)
    {newSize : UInt64}
    (grown : newSize.toNat = max (w.fs.nodes index).size.toNat (start + count))
    (src : Nat → UInt8) :
    Refines tableCount { w with fs := w.fs.written index start count src newSize }
      (store.setContents path
        (overwrite (store.contents path) start ((List.range count).map src)))
      names := by
  have bounded := (refines.represents.node index path present).size
  have unique : ∀ other, names[other]? = some path → other = index := by
    intro other otherPresent
    have inside := (List.getElem?_eq_some_iff.mp otherPresent).1
    exact (List.getElem?_inj inside refines.represents.distinct).mp (otherPresent.trans present.symm)
  refine ⟨refines.represents.written present (by omega) _ _ _, ?_, ?_, refines.badFd, ?_⟩
  · intro other otherPath otherPresent
    by_cases here : other = index
    · subst here
      have same : otherPath = path := Option.some.inj (otherPresent.symm.trans present)
      rw [same, store.setContents_self, ← refines.contents other path present]
      exact written_fileBytes_self _ reached grown src
    · have different : otherPath ≠ path := by
        intro same
        rw [same] at otherPresent
        exact here (unique other otherPresent)
      rw [store.setContents_other _ different, ← refines.contents other otherPath otherPresent]
      have is := refines.represents.node index path present
      have otherIs := refines.represents.node other otherPath otherPresent
      exact written_fileBytes_other here is.dataOffset otherIs.dataOffset otherIs.size inBlock src _
  · intro other absent
    have different : other ≠ path := by
      intro same
      rw [same] at absent
      exact absent (List.mem_of_getElem? present)
    rw [store.setContents_other _ different]
    exact refines.absent other absent
  · intro table known slot below
    apply (refines.files table known slot below).grow
    intro other otherPath otherPresent
    refine ⟨otherPresent, ?_⟩
    by_cases here : other = index
    · subst here
      rw [written_node_self]
      show _ ≤ newSize.toNat
      omega
    · rw [written_node_other _ _ _ _ _ here]

/-- A new file is empty. -/
theorem Refines.create (refines : Refines tableCount w store names) (space : HasSpace w.fs)
    {path : CString} (short : path.length < 32) (fresh : path ∉ names) :
    Refines tableCount ((mcsRamfsCreateFile path).final w) store (names ++ [path]) := by
  have count := refines.represents.count
  have created := (mcsRamfsCreateFile_final space short).2
  have oldNode : ∀ index < names.length,
      ((mcsRamfsCreateFile path).final w).fs.nodes index = w.fs.nodes index := by
    intro index old
    rw [created]
    exact Function.update_of_ne (by omega) _ _
  refine ⟨refines.represents.create space short fresh, ?_, ?_, refines.badFd, ?_⟩
  · intro index found present
    rcases getElem?_concat_cases present with ⟨old, present⟩ | ⟨newest, same⟩
    · rw [← refines.contents index found present, fileBytes, oldNode index old, created]
      rfl
    · rw [same, refines.absent path fresh, newest, fileBytes, created, ← count]
      simp only [Function.update_self]
      rfl
  · intro other absent
    apply refines.absent
    intro member
    exact absent (List.mem_append_left _ member)
  · intro table known slot below
    have tables : ((mcsRamfsCreateFile path).final w).tables = w.tables := by rw [created]
    rw [tables]
    apply (refines.files table known slot below).grow
    intro index found present
    have old := (List.getElem?_eq_some_iff.mp present).1
    rw [oldNode index old]
    exact ⟨by rw [List.getElem?_append_left old]; exact present, le_rfl⟩

/-! ### Calls -/

/-- A file ends inside the pool, so that indices do not wrap. -/
theorem Refines.inPool (refines : Refines tableCount w store names) {index : Nat} {path : CString}
    (present : names[index]? = some path) :
    (w.fs.nodes index).dataOffset.toNat + capacityOf index ≤ 2 ^ 15 := by
  have is := refines.represents.node index path present
  have inside := (List.getElem?_eq_some_iff.mp present).1
  have bounded := refines.represents.bounded
  have block := capacityOf_le index
  rw [is.dataOffset]
  omega

/-- A read through an open descriptor returns the bytes the store has there,
and moves the descriptor behind them. -/
theorem Refines.read (refines : Refines tableCount w store names) {table : Nat}
    (known : table < tableCount) (fd : Int) (size : UInt64) :
    (∀ descriptor, store.descriptors table fd = some descriptor →
      (mcsVfsRead table fd size).result w =
        (Int.ofNat (store.bytesAt descriptor size.toNat).length,
          store.bytesAt descriptor size.toNat)) ∧
      Refines tableCount ((mcsVfsRead table fd size).final w)
        (store.after ((mcsVfsRead table fd size).result w).1 (.read table fd size)) names := by
  cases isOpen : store.descriptors table fd with
  | none =>
      refine ⟨fun descriptor impossible => absurd impossible (by simp), ?_⟩
      rw [((refines.notOpen known isOpen).calls.1 size).2]
      simpa [FileStore.after, isOpen] using refines
  | some descriptor =>
      rcases refines.opened known isOpen with ⟨slot, inRange, used, present, position, reached⟩
      have inPool := refines.inPool present
      have bounded := (refines.represents.node _ _ present).size
      rw [position] at reached
      rcases mcsVfsRead_open inRange rfl used rfl size reached (by omega) with
        ⟨count, clamped, result, left⟩
      have bytes : store.bytesAt descriptor size.toNat =
          readRange w.fs.data ((w.fs.nodes (w.tables table slot).node).dataOffset.toNat +
            (w.tables table slot).offset.toNat) count.toNat := by
        rw [FileStore.bytesAt, ← refines.contents _ _ present, fileBytes, readRange_drop,
          readRange_take, position, clamped]
      have length : (store.bytesAt descriptor size.toNat).length = count.toNat := by
        rw [bytes, readRange_length]
      refine ⟨?_, ?_⟩
      · intro other same
        rw [Option.some.injEq] at same
        subst same
        rw [result, length, bytes]
      · rw [left]
        have moved : ((w.tables table slot).offset + count).toNat =
            (w.tables table slot).offset.toNat + count.toNat := by
          rw [UInt64.toNat_add]
          omega
        simp only [FileStore.after, isOpen, length, position, ← moved]
        exact refines.move inRange used present _ rfl (by omega)

/-- A write through an open descriptor changes nothing, or overwrites the
contents of its path at its position and moves it behind the bytes. -/
theorem Refines.write (refines : Refines tableCount w store names) {table : Nat}
    (known : table < tableCount) (fd : Int) (buffer : Nat → UInt8) {size : UInt64}
    (noWrap : ∀ descriptor, store.descriptors table fd = some descriptor →
      descriptor.position + size.toNat < 2 ^ 64) :
    Refines tableCount ((mcsVfsWrite table fd buffer size).final w)
      (store.after ((mcsVfsWrite table fd buffer size).result w) (.write table fd buffer size))
      names := by
  cases isOpen : store.descriptors table fd with
  | none =>
      rw [((refines.notOpen known isOpen).calls.2.1 buffer size).2]
      simpa [FileStore.after, isOpen] using refines
  | some descriptor =>
      rcases refines.opened known isOpen with ⟨slot, inRange, used, present, position, reached⟩
      have sum : ((w.tables table slot).offset + size).toNat =
          (w.tables table slot).offset.toNat + size.toNat := by
        have small := noWrap descriptor isOpen
        rw [UInt64.toNat_add]
        omega
      by_cases fits : (w.tables table slot).offset + size ≤
          (w.fs.nodes (w.tables table slot).node).dataCapacity
      · have is := refines.represents.node _ _ present
        have inPool := refines.inPool present
        have fitsNat := UInt64.le_iff_toNat_le.mp fits
        rw [sum, is.dataCapacity] at fitsNat
        have small : size.toNat < 2 ^ 63 := by
          have block := capacityOf_le (w.tables table slot).node
          omega
        rcases mcsVfsWrite_open inRange rfl used rfl fits (by omega) buffer with ⟨status, left⟩
        rw [toInt64_toInt_of_lt small] at status
        rw [position] at reached
        generalize longer : (if (w.fs.nodes (w.tables table slot).node).size <
            (w.tables table slot).offset + size then (w.tables table slot).offset + size
          else (w.fs.nodes (w.tables table slot).node).size) = newSize at left
        have grown : newSize.toNat = max (w.fs.nodes (w.tables table slot).node).size.toNat
            ((w.tables table slot).offset.toNat + size.toNat) := by
          rw [← longer, ← sum]
          exact grown_toNat _ _
        have written := refines.writeBytes present reached fitsNat grown buffer
        rw [left, status]
        simp only [FileStore.after, isOpen, Int.natCast_nonneg, if_true, position, ← sum]
        refine written.move inRange used present _ rfl ?_
        rw [written_node_self, sum]
        show _ ≤ newSize.toNat
        omega
      · rcases mcsVfsWrite_refused inRange rfl used rfl (UInt64.not_le.mp fits) buffer with
          ⟨status, same⟩
        rw [same, status]
        simpa [FileStore.after, isOpen, mcsEnospc] using refines

/-- A seek that ends inside the file ends at the mathematical position. -/
theorem seekTarget_toNat {file : McsFile} {node : McsVnode} {offset : Int64} {whence : Int}
    {newOffset : UInt64} {descriptor : Descriptor}
    (found : seekTarget file node offset whence = some newOffset)
    (position : descriptor.position = file.offset.toNat)
    (length : (store.contents descriptor.path).length = node.size.toNat)
    (reached : file.offset.toNat ≤ node.size.toNat) (bounded : node.size.toNat < 2 ^ 62)
    (inside : newOffset.toNat ≤ node.size.toNat) :
    store.seekBase descriptor whence + offset.toInt = newOffset.toNat := by
  unfold seekTarget at found
  unfold FileStore.seekBase
  split at found
  next isSet =>
    rw [if_pos isSet]
    cases found
    have start := @add_toUInt64_toNat 0 offset (by decide) (by rw [UInt64.zero_add]; omega)
    rwa [UInt64.zero_add] at start
  next notSet =>
    rw [if_neg notSet]
    split at found
    next isCur =>
      rw [if_pos isCur, position]
      cases found
      exact add_toUInt64_toNat (by omega) (by omega)
    next notCur =>
      rw [if_neg notCur, length]
      split at found
      · cases found
        exact add_toUInt64_toNat (by omega) (by omega)
      · exact absurd found (by simp)

/-- A seek through an open descriptor changes nothing, or moves it. -/
theorem Refines.lseek (refines : Refines tableCount w store names) {table : Nat}
    (known : table < tableCount) (fd : Int) (offset : Int64) (whence : Int) :
    Refines tableCount ((mcsVfsLseek table fd offset whence).final w)
      (store.after ((mcsVfsLseek table fd offset whence).result w) (.lseek table fd offset whence))
      names := by
  cases isOpen : store.descriptors table fd with
  | none =>
      rw [((refines.notOpen known isOpen).calls.2.2 offset whence).2]
      simpa [FileStore.after, isOpen] using refines
  | some descriptor =>
      rcases refines.opened known isOpen with ⟨slot, inRange, used, present, position, reached⟩
      rcases mcsVfsLseek_open inRange rfl used rfl offset whence with
        ⟨status, same⟩ | ⟨newOffset, found, inside, status, left⟩
      · rw [same, status]
        simpa [FileStore.after, isOpen, mcsEinval] using refines
      · have bounded := (refines.represents.node _ _ present).size
        have block := capacityOf_le (w.tables table slot).node
        have length : (store.contents descriptor.path).length =
            (w.fs.nodes (w.tables table slot).node).size.toNat := by
          rw [← refines.contents _ _ present, fileBytes_length]
        have target := seekTarget_toNat found position length (by omega) (by omega) inside
        rw [toInt64_toInt_of_lt (by omega)] at status
        rw [left, status]
        simp only [FileStore.after, isOpen, Int.natCast_nonneg, if_true, target, Int.toNat_natCast]
        exact refines.move inRange used present _ rfl inside

theorem Refines.close (refines : Refines tableCount w store names) {table : Nat} (fd : Int) :
    Refines tableCount ((mcsVfsClose table fd).final w)
      (store.after ((mcsVfsClose table fd).result w) (.close table fd)) names := by
  cases inRange : fdSlot fd with
  | none =>
      rcases mcsVfsClose_badFd w table inRange with ⟨status, same⟩
      rw [same, status]
      simpa [FileStore.after, mcsEbadf, mcsOk] using refines
  | some slot =>
      rcases mcsVfsClose_final w table inRange with ⟨status, left⟩
      rw [left, status]
      simp only [FileStore.after, if_true]
      apply refines.setFile inRange
      rw [McsFile.is_of_unused]
      rfl

/-- A seed of a new path makes a file with the bytes, or changes nothing. -/
theorem Refines.seed (refines : Refines tableCount w store names) {path : CString}
    (short : path.length < 32) (data : Nat → UInt8) {size : UInt64} (fits : size.toNat ≤ 256)
    (absent : mcsRamfsLookup w.fs path = none) :
    ∃ names', Refines tableCount ((mcsRamfsSeedFile path data size).final w)
      (store.after ((mcsRamfsSeedFile path data size).result w) (.seed path data size)) names' := by
  have fresh := (refines.represents.lookup_eq_none_iff path).mp absent
  by_cases space : HasSpace w.fs
  · have dataUsed := refines.represents.dataUsed
    have bounded := refines.represents.bounded
    rcases mcsRamfsSeedFile_final space short data fits (by omega) with ⟨status, left⟩
    have made := refines.create space short fresh
    have newest : (names ++ [path])[w.fs.nodeCount.toNat]? = some path := by
      rw [refines.represents.count, List.getElem?_concat_length]
    have empty : (((mcsRamfsCreateFile path).final w).fs.nodes w.fs.nodeCount.toNat).size.toNat =
        0 := by
      rw [created_node space short]
      rfl
    have block : capacityOf w.fs.nodeCount.toNat = 256 := by
      have rooted := refines.represents.rooted
      rw [refines.represents.count]
      exact if_neg (by omega)
    have written := made.writeBytes newest (Nat.zero_le _) (by omega)
      (show size.toNat = max _ (0 + size.toNat) by omega) data
    refine ⟨names ++ [path], ?_⟩
    rw [left, status]
    simpa [FileStore.after, refines.absent path fresh, overwrite] using written
  · rcases mcsRamfsSeedFile_full space path data size with ⟨status, same⟩
    refine ⟨names, ?_⟩
    rw [same, status]
    simpa [FileStore.after, mcsEnospc, mcsOk] using refines

/-- An open finds or makes its file and takes a descriptor at position 0 for
it, or fails; a file it has made stays, empty. -/
theorem Refines.openFile (refines : Refines tableCount w store names) (table : Nat)
    {path : CString} (short : path.length < 32) (flags : UInt32) :
    (table < tableCount → 0 ≤ (mcsVfsOpen table path flags).result w →
        store.descriptors table ((mcsVfsOpen table path flags).result w) = none) ∧
      ∃ names', Refines tableCount ((mcsVfsOpen table path flags).final w)
        (store.after ((mcsVfsOpen table path flags).result w) (.openFile table path flags))
        names' := by
  rcases mcsVfsOpen_cases w table path flags with
    ⟨-, -, negative, same⟩ | ⟨node, after, found, outcome⟩
  · have refused : ¬ 0 ≤ (mcsVfsOpen table path flags).result w := by omega
    rw [same]
    refine ⟨fun _ taken => absurd taken refused, names, ?_⟩
    simpa [FileStore.after, refused] using refines
  · have named : ∃ names', Refines tableCount after store names' ∧ names'[node]? = some path := by
      rcases found with ⟨there, rfl⟩ | ⟨missing, -, space, rfl, rfl⟩
      · exact ⟨names, refines, (refines.represents.lookup_eq_some_iff path node).mp there⟩
      · have fresh := (refines.represents.lookup_eq_none_iff path).mp missing
        refine ⟨names ++ [path], refines.create space short fresh, ?_⟩
        rw [refines.represents.count, List.getElem?_concat_length]
    obtain ⟨names', opened, present⟩ := named
    rcases outcome with ⟨-, status, left⟩ | ⟨slot, below, unused, -, status, left⟩
    · rw [status, left]
      refine ⟨fun _ impossible => absurd impossible (by decide), names', ?_⟩
      simpa [FileStore.after, mcsEnfile] using opened
    · rw [status, left]
      refine ⟨?_, names', ?_⟩
      · intro known _
        have file := refines.files table known slot below
        rwa [McsFile.is_of_unused _ unused] at file
      · simp only [FileStore.after, Int.natCast_nonneg, if_true]
        apply opened.setFile ((fdSlot_eq_some_iff _ slot).mpr ⟨rfl, below⟩)
        rw [McsFile.is_of_used]
        · exact ⟨path, present, rfl, Nat.zero_le _⟩
        · rfl

end

/-! ### Whole runs -/

/-- Paths fit their field, seeds are short and of new paths, writes do not
wrap, and only tables that were initialised are used. -/
def Admissible (tableCount : Nat) (session : Session) : VfsCall → Prop
  | .seed path _ size =>
      path.length < 32 ∧ size.toNat ≤ 256 ∧ mcsRamfsLookup session.world.fs path = none
  | .openFile table path _ => table < tableCount ∧ path.length < 32
  | .write table fd _ size =>
      table < tableCount ∧ ∀ descriptor, session.store.descriptors table fd = some descriptor →
        descriptor.position + size.toNat < 2 ^ 64
  | .read table _ _ | .lseek table _ _ _ | .close table _ => table < tableCount

/-- A read through an open descriptor returns the bytes the store has there. -/
def ReadsExactly (session : Session) : VfsCall → Prop
  | .read table fd size =>
      ∀ descriptor, session.store.descriptors table fd = some descriptor →
        (mcsVfsRead table fd size).result session.world =
          (Int.ofNat (session.store.bytesAt descriptor size.toNat).length,
            session.store.bytesAt descriptor size.toNat)
  | _ => True

/-- World and store agree on what every path holds, and on every descriptor
with its position. -/
structure Agrees (tableCount : Nat) (session : Session) : Prop where
  contents : ∀ path, session.store.contents path =
    match mcsRamfsLookup session.world.fs path with
    | some index => fileBytes session.world.fs index
    | none => []
  opened : ∀ table < tableCount, ∀ fd slot, fdSlot fd = some slot →
    (session.world.tables table slot).used = true →
      ∃ path, mcsRamfsLookup session.world.fs path =
          some (session.world.tables table slot).node ∧
        session.store.descriptors table fd =
          some ⟨path, (session.world.tables table slot).offset.toNat⟩
  closed : ∀ table < tableCount, ∀ fd, NotOpen session.world table fd →
    session.store.descriptors table fd = none

/-- The call does to the world what it means to the store: reads are exact,
world and store agree afterwards, other paths keep their contents, and other
descriptors their positions. -/
structure Refined (tableCount : Nat) (session : Session) (call : VfsCall) : Prop where
  reads : ReadsExactly session call
  agrees : Agrees tableCount (session.next call)
  otherPaths : ∀ path, call.path session.store ≠ some path →
    (session.next call).store.contents path = session.store.contents path
  otherDescriptors : ∀ table < tableCount, ∀ fd descriptor,
    session.store.descriptors table fd = some descriptor → call.descriptor ≠ some (table, fd) →
      (session.next call).store.descriptors table fd = some descriptor

theorem Refines.agrees {tableCount : Nat} {session : Session} {names : List CString}
    (refines : Refines tableCount session.world session.store names) :
    Agrees tableCount session := by
  refine ⟨?_, ?_, ?_⟩
  · intro path
    cases found : mcsRamfsLookup session.world.fs path with
    | some index =>
        have present := (refines.represents.lookup_eq_some_iff path index).mp found
        exact (refines.contents index path present).symm
    | none =>
        exact refines.absent path ((refines.represents.lookup_eq_none_iff path).mp found)
  · intro table known fd slot inRange used
    rcases (fdSlot_eq_some_iff fd slot).mp inRange with ⟨rfl, below⟩
    rcases (McsFile.is_of_used _ used).mp (refines.files table known slot below) with
      ⟨path, present, stands, -⟩
    exact ⟨path, (refines.represents.lookup_eq_some_iff path _).mpr present, stands⟩
  · intro table known fd notOpen
    cases isOpen : session.store.descriptors table fd with
    | none => rfl
    | some descriptor =>
        rcases refines.opened known isOpen with ⟨slot, inRange, used, -⟩
        rw [notOpen slot inRange] at used
        exact absurd used (by simp)

/-- The relation is kept by every admissible call. -/
theorem Refines.next {tableCount : Nat} {session : Session} {names : List CString}
    (refines : Refines tableCount session.world session.store names) {call : VfsCall}
    (admissible : Admissible tableCount session call) :
    ∃ names', Refines tableCount (session.next call).world (session.next call).store names' := by
  cases call with
  | seed path data size =>
      rcases admissible with ⟨short, fits, absent⟩
      simpa [Session.next, VfsCall.exec] using refines.seed short data fits absent
  | openFile table path flags =>
      simpa [Session.next, VfsCall.exec] using (refines.openFile table admissible.2 flags).2
  | read table fd size => exact ⟨names, (refines.read admissible fd size).2⟩
  | write table fd buffer size =>
      refine ⟨names, ?_⟩
      simpa [Session.next, VfsCall.exec] using
        refines.write admissible.1 fd buffer admissible.2
  | lseek table fd offset whence =>
      refine ⟨names, ?_⟩
      simpa [Session.next, VfsCall.exec] using refines.lseek admissible fd offset whence
  | close table fd =>
      refine ⟨names, ?_⟩
      simpa [Session.next, VfsCall.exec] using refines.close fd

theorem Refines.refined {tableCount : Nat} {session : Session} {names : List CString}
    (refines : Refines tableCount session.world session.store names) {call : VfsCall}
    (admissible : Admissible tableCount session call) : Refined tableCount session call := by
  rcases refines.next admissible with ⟨names', after⟩
  refine ⟨?_, after.agrees, ?_, ?_⟩
  · cases call with
    | read table fd size => exact (refines.read admissible fd size).1
    | _ => trivial
  · intro path other
    exact session.store.after_contents_other _ other
  · intro table known fd descriptor isOpen other
    refine session.store.after_descriptor_other isOpen other ?_
    intro own path flags isOpenCall taken
    subst isOpenCall
    rcases Prod.mk.inj taken with ⟨rfl, taken⟩
    have status : (mcsVfsOpen own path flags).result session.world = fd := by
      simpa [VfsCall.exec] using taken
    rcases refines.opened known isOpen with ⟨slot, inRange, -⟩
    rcases (fdSlot_eq_some_iff fd slot).mp inRange with ⟨slotFd, -⟩
    have free := (refines.openFile own admissible.2 flags).1 known (by omega)
    rw [status, isOpen] at free
    exact absurd free (by simp)

/-- The start of a system: the ramfs, then the tables. -/
def vfsStart (tableCount : Nat) : VfsProg Unit := do
  mcsRamfsInit
  forLoop 0 tableCount mcsFdTableInit

/-- The session at the start, whatever the memory was. -/
def started (tableCount : Nat) (memory : VfsWorld) : Session :=
  ⟨(vfsStart tableCount).final memory, .empty⟩

/-- The start leaves the new ramfs, and no descriptor in use. -/
theorem vfsStart_cleared (tableCount : Nat) (memory : VfsWorld) :
    ((vfsStart tableCount).final memory).fs = (mcsRamfsInit.final memory).fs ∧
      ∀ table < tableCount, ∀ slot < 16,
        (((vfsStart tableCount).final memory).tables table slot).used = false := by
  have cleared := forLoop_invariant 0 tableCount mcsFdTableInit
    (fun index (s : VfsWorld) => s.fs = (mcsRamfsInit.final memory).fs ∧
      ∀ table < index, ∀ slot < 16, (s.tables table slot).used = false)
    (show (mcsRamfsInit.final memory).fs = (mcsRamfsInit.final memory).fs ∧ _ from
      ⟨rfl, by simp⟩)
    (by
      intro index s _ _ holds
      rcases mcsFdTableInit_final s index with ⟨fs, own, others⟩
      refine ⟨fs.trans holds.1, ?_⟩
      intro table below slot slotBelow
      by_cases here : table = index
      · rw [here]
        exact own slot slotBelow
      · rw [others table here]
        exact holds.2 table (by omega) slot slotBelow)
  have final : (vfsStart tableCount).final memory =
      (forLoop 0 tableCount mcsFdTableInit).final (mcsRamfsInit.final memory) := by
    rw [vfsStart, final_bind]
  rwa [Nat.zero_add, ← final] at cleared

theorem vfsStart_refines (tableCount : Nat) (memory : VfsWorld) :
    Refines tableCount ((vfsStart tableCount).final memory) .empty [rootName] := by
  have cleared := vfsStart_cleared tableCount memory
  refine ⟨?_, ?_, fun _ _ => rfl, fun _ _ _ _ => rfl, ?_⟩
  · rw [cleared.1]
    exact mcsRamfsInit_represents memory
  · intro index path present
    have first : index = 0 := by
      have inside := (List.getElem?_eq_some_iff.mp present).1
      simpa using inside
    rw [first, fileBytes, cleared.1, mcsRamfsInit_final]
    simp only [Function.update_self]
    rfl
  · intro table known slot below
    rw [McsFile.is_of_unused _ (cleared.2 table known slot below)]
    rfl

/-- The virtual file system refines the abstract file store, in every run over
any number of tables. -/
theorem vfs_refines_fileStore (tableCount : Nat) (memory : VfsWorld) (calls : List VfsCall)
    (admissible : EveryCall Session.next (Admissible tableCount) calls
      (started tableCount memory)) :
    EveryCall Session.next (Refined tableCount) calls (started tableCount memory) := by
  refine everyCall_of_invariant
    (fun session => ∃ names, Refines tableCount session.world session.store names) ?_
    ⟨[rootName], vfsStart_refines tableCount memory⟩ admissible
  intro session call holds allowed
  rcases holds with ⟨names, refines⟩
  exact ⟨refines.refined allowed, refines.next allowed⟩

def zeroedWorld : VfsWorld where
  fs := ⟨fun _ => ⟨0, 0, .raw 0, fun _ => 0, 0, 0, 0, fun _ => 0⟩, fun _ => 0, 0, 0, fun _ => 0⟩
  tables := fun _ _ => ⟨0, 0, 0, false⟩

def helloPath : CString := ⟨[47, 104], by simp⟩

/-- A seeded file is opened twice, written through one descriptor and read
through the other. -/
def sharedFile : List VfsCall :=
  [.seed helloPath (fun _ => 7) 2, .openFile 0 helloPath 4, .openFile 1 helloPath 1,
    .write 0 0 (fun _ => 9) 1, .read 1 0 8]

theorem vfs_refines_fileStore_sharedFile :
    EveryCall Session.next (Refined 2) sharedFile (started 2 zeroedWorld) := by
  refine vfs_refines_fileStore 2 zeroedWorld sharedFile
    ⟨⟨by decide, by decide, by decide +kernel⟩, ⟨by decide, by decide⟩, ⟨by decide, by decide⟩,
      ⟨by decide, ?_⟩, show 1 < 2 by decide, trivial⟩
  intro descriptor isOpen
  have position : ((((started 2 zeroedWorld).next (.seed helloPath (fun _ => 7) 2)).next
      (.openFile 0 helloPath 4)).next (.openFile 1 helloPath 1)).store.descriptors 0 0 =
        some ⟨helloPath, 0⟩ := by
    decide +kernel
  rw [Option.some.inj (isOpen.symm.trans position)]
  decide

end Mcsos.Vfs
