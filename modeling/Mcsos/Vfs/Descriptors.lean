import Mcsos.Vfs.Refinement

/-!
Contract: descriptors that are not open, and the descriptor an open returns, in
every run of the virtual file system.

A descriptor is open from the open that returned it to the close of it that
succeeded. `Tracks` says that the flags of the tables agree with this; it holds
in every run, whatever the paths and the sizes. `mcs_vfs_close` is the one call
that does not look at the flag.
-/

namespace Mcsos.Vfs

open Mcsos.Machine
open Mcsos.Machine.Prog

/-- A call through a descriptor that is not open fails and changes nothing. -/
def RefusesClosed (tableCount : Nat) (session : Session) (call : VfsCall) : Prop :=
  ∀ table < tableCount, ∀ fd, call.descriptor = some (table, fd) →
    session.store.descriptors table fd = none →
      (call.exec.result session.world).1 = mcsEbadf ∧
        call.exec.final session.world = session.world

/-- An open whose path exists or can be made returns the lowest descriptor that
is not open, or finds all of them open. -/
def OpensLowest (tableCount : Nat) (session : Session) : VfsCall → Prop
  | .openFile table path flags =>
      table < tableCount →
      mcsRamfsLookup session.world.fs path ≠ none ∨
        (flags &&& mcsOCreat ≠ 0 ∧ HasSpace session.world.fs) →
      ((∀ slot : Nat, slot < 16 → session.store.descriptors table slot ≠ none) ∧
          (mcsVfsOpen table path flags).result session.world = mcsEnfile) ∨
        ∃ slot : Nat, slot < 16 ∧ session.store.descriptors table slot = none ∧
          (∀ earlier : Nat, earlier < slot → session.store.descriptors table earlier ≠ none) ∧
          (mcsVfsOpen table path flags).result session.world = slot
  | _ => True

/-- A close is of an open descriptor or of a number out of range. -/
def ClosesOpen (tableCount : Nat) (session : Session) : VfsCall → Prop
  | .close table fd =>
      table < tableCount → fdSlot fd = none ∨ session.store.descriptors table fd ≠ none
  | _ => True

/-- A descriptor is open exactly when its entry is in use. -/
def Tracks (tableCount : Nat) (session : Session) : Prop :=
  ∀ table < tableCount, ∀ fd, session.store.descriptors table fd ≠ none ↔
    ∃ slot, fdSlot fd = some slot ∧ (session.world.tables table slot).used = true

/-! ### The flags of the tables -/

/-- The access is not to the flag of a descriptor. -/
def VfsAccess.KeepsFlag : VfsAccess → Prop
  | .storeFileUsed _ _ _ => False
  | _ => True

/-- Which entries of which tables are in use. -/
def VfsWorld.inUse (w : VfsWorld) (table slot : Nat) : Bool := (w.tables table slot).used

theorem VfsAccess.KeepsFlag.inUse {access : VfsAccess} (keeps : access.KeepsFlag) (w : VfsWorld) :
    (Event.apply access w).inUse = w.inUse := by
  have changed : ∀ table fd (change : McsFile → McsFile), (∀ file, (change file).used = file.used) →
      (w.modifyFile table fd change).inUse = w.inUse := by
    intro table fd change same
    funext other slot
    simp only [VfsWorld.inUse]
    by_cases here : (other, slot) = (table, fd)
    · obtain ⟨rfl, rfl⟩ := Prod.mk.inj here
      rw [modifyFile_self, same]
    · rw [modifyFile_other _ _ here]
  cases access with
  | storeFileUsed _ _ _ => cases keeps
  | storeFileFlags table fd value => exact changed table fd ({ · with flags := value }) fun _ => rfl
  | storeFileOffset table fd value => exact changed table fd ({ · with offset := value }) fun _ => rfl
  | storeFileNode table fd value => exact changed table fd ({ · with node := value }) fun _ => rfl
  | _ => rfl

theorem final_inUse {α : Type} (program : VfsProg α) (w : VfsWorld)
    (issues : program.Issues VfsAccess.KeepsFlag w) : (program.final w).inUse = w.inUse :=
  final_frame VfsWorld.inUse program w fun access member => (issues access member).inUse

theorem mcsVfsRead_inUse (w : VfsWorld) (table : Nat) (fd : Int) (size : UInt64) :
    ((mcsVfsRead table fd size).final w).inUse = w.inUse := by
  apply final_inUse
  rw [mcsVfsRead, issues_bind]
  refine ⟨issues_get _ _, ?_⟩
  simp only [result_get, final_get]
  split
  · exact issues_pure _ _ _
  · rw [issues_ite]
    refine ⟨fun _ => issues_pure _ _ _, fun _ => ?_⟩
    simp only [issues_bind, issues_emit, issues_pure, VfsAccess.KeepsFlag, and_true]
    exact forLoop_emit_issues _ _ _ _ fun _ _ _ => trivial

theorem mcsVfsWrite_inUse (w : VfsWorld) (table : Nat) (fd : Int) (buffer : Nat → UInt8)
    (size : UInt64) : ((mcsVfsWrite table fd buffer size).final w).inUse = w.inUse := by
  apply final_inUse
  rw [mcsVfsWrite, issues_bind]
  refine ⟨issues_get _ _, ?_⟩
  simp only [result_get, final_get]
  split
  · exact issues_pure _ _ _
  · simp only [issues_ite, issues_bind, issues_emit, issues_pure, VfsAccess.KeepsFlag,
      implies_true, and_true, true_and]
    intro _ _
    exact forLoop_emit_issues _ _ _ _ fun _ _ _ => trivial

theorem mcsVfsLseek_inUse (w : VfsWorld) (table : Nat) (fd : Int) (offset : Int64) (whence : Int) :
    ((mcsVfsLseek table fd offset whence).final w).inUse = w.inUse := by
  apply final_inUse
  rw [mcsVfsLseek, issues_bind]
  refine ⟨issues_get _ _, ?_⟩
  simp only [result_get, final_get]
  split
  · exact issues_pure _ _ _
  · rw [issues_ite]
    refine ⟨fun _ => issues_pure _ _ _, fun _ => ?_⟩
    split
    · exact issues_pure _ _ _
    · simp [issues_ite, VfsAccess.KeepsFlag]

/-! ### Open descriptors -/

section

variable {tableCount : Nat} {session : Session}

theorem Tracks.notOpen (tracks : Tracks tableCount session) {table : Nat}
    (known : table < tableCount) {fd : Int} (closed : session.store.descriptors table fd = none) :
    NotOpen session.world table fd := by
  intro slot inRange
  by_contra used
  rw [Bool.not_eq_false] at used
  exact (tracks table known fd).mpr ⟨slot, inRange, used⟩ closed

theorem Tracks.slot_iff (tracks : Tracks tableCount session) {table : Nat}
    (known : table < tableCount) {slot : Nat} (below : slot < 16) :
    session.store.descriptors table slot ≠ none ↔
      (session.world.tables table slot).used = true := by
  have inRange := (fdSlot_eq_some_iff slot slot).mpr ⟨rfl, below⟩
  rw [tracks table known slot, inRange]
  simp

/-- Neither the flags change nor which descriptors are open. -/
theorem Tracks.keep (tracks : Tracks tableCount session) {after : Session}
    (flags : after.world.inUse = session.world.inUse)
    (opened : ∀ table fd, after.store.descriptors table fd ≠ none ↔
      session.store.descriptors table fd ≠ none) : Tracks tableCount after := by
  intro table known fd
  rw [opened, tracks table known fd]
  have same : ∀ slot, (after.world.tables table slot).used =
      (session.world.tables table slot).used := fun slot => congrFun (congrFun flags table) slot
  simp only [same]

/-- One entry changes, and the descriptor of its number with it. -/
theorem Tracks.set (tracks : Tracks tableCount session) {world : VfsWorld}
    (tables : world.tables = session.world.tables) {table : Nat} {fd : Int} {slot : Nat}
    (inRange : fdSlot fd = some slot) (change : McsFile → McsFile)
    (descriptor : Option Descriptor)
    (agree : (change (session.world.tables table slot)).used = descriptor.isSome) :
    Tracks tableCount
      ⟨world.modifyFile table slot change, session.store.setDescriptor table fd descriptor⟩ := by
  intro other known otherFd
  by_cases here : (other, otherFd) = (table, fd)
  · obtain ⟨rfl, rfl⟩ := Prod.mk.inj here
    rw [session.store.setDescriptor_self, inRange]
    simp only [Option.some.injEq, exists_eq_left', modifyFile_self, tables, agree]
    exact Option.isSome_iff_ne_none.symm
  · rw [session.store.setDescriptor_other _ here, tracks other known otherFd]
    refine exists_congr fun otherSlot => and_congr_right fun otherInRange => ?_
    have different : (other, otherSlot) ≠ (table, slot) := by
      intro same
      obtain ⟨rfl, rfl⟩ := Prod.mk.inj same
      have first := ((fdSlot_eq_some_iff fd otherSlot).mp inRange).1
      have second := ((fdSlot_eq_some_iff otherFd otherSlot).mp otherInRange).1
      exact here (by rw [first, second])
    rw [modifyFile_other _ _ different, tables]

/-- A descriptor that is open stays open where it is only moved. -/
theorem setDescriptor_open_iff (store : FileStore) {table : Nat} {fd : Int}
    {descriptor moved : Descriptor} (isOpen : store.descriptors table fd = some descriptor)
    (other : Nat) (otherFd : Int) :
    (store.setDescriptor table fd (some moved)).descriptors other otherFd ≠ none ↔
      store.descriptors other otherFd ≠ none := by
  by_cases here : (other, otherFd) = (table, fd)
  · obtain ⟨rfl, rfl⟩ := Prod.mk.inj here
    rw [store.setDescriptor_self, isOpen]
    simp
  · rw [store.setDescriptor_other _ here]

/-! ### One call -/

theorem Tracks.openFile (tracks : Tracks tableCount session) (table : Nat) (path : CString)
    (flags : UInt32) : Tracks tableCount (session.next (.openFile table path flags)) := by
  have world : (session.next (.openFile table path flags)).world =
      (mcsVfsOpen table path flags).final session.world := by
    simp [Session.next, VfsCall.exec]
  have store : (session.next (.openFile table path flags)).store =
      session.store.after ((mcsVfsOpen table path flags).result session.world)
        (.openFile table path flags) := rfl
  -- an open that returns an error leaves the tables and the store
  have failed : ∀ after : VfsWorld, after.tables = session.world.tables →
      (mcsVfsOpen table path flags).final session.world = after →
      (mcsVfsOpen table path flags).result session.world < 0 →
      Tracks tableCount (session.next (.openFile table path flags)) := by
    intro after tables left negative
    apply tracks.keep
    · rw [world, left]
      funext other slot
      simp only [VfsWorld.inUse, tables]
    · intro other fd
      rw [store, FileStore.after, if_neg (Int.not_le.mpr negative)]
  rcases mcsVfsOpen_cases session.world table path flags with
    ⟨-, -, negative, same⟩ | ⟨node, after, found, outcome⟩
  · exact failed session.world rfl same negative
  · have tables : after.tables = session.world.tables := by
      rcases found with ⟨-, rfl⟩ | ⟨-, -, -, -, rfl⟩
      · rfl
      · exact mcsRamfsCreateFile_tables _ _
    rcases outcome with ⟨-, status, left⟩ | ⟨slot, below, -, -, status, left⟩
    · exact failed after tables left (by rw [status]; decide)
    · have set := @Tracks.set tableCount session tracks after tables table slot slot
        ((fdSlot_eq_some_iff slot slot).mpr ⟨rfl, below⟩) (fun _ => ⟨flags, 0, node, true⟩)
        (some ⟨path, 0⟩) rfl
      have next : session.next (.openFile table path flags) =
          ⟨after.modifyFile table slot fun _ => ⟨flags, 0, node, true⟩,
            session.store.setDescriptor table slot (some ⟨path, 0⟩)⟩ := by
        rw [← left, ← world]
        have notNegative : (0 : Int) ≤ slot := Int.natCast_nonneg slot
        have stored : (session.next (.openFile table path flags)).store =
            session.store.setDescriptor table slot (some ⟨path, 0⟩) := by
          rw [store, status, FileStore.after, if_pos notNegative]
        rw [← stored]
      rw [next]
      exact set

theorem Tracks.close (tracks : Tracks tableCount session) (table : Nat) (fd : Int) :
    Tracks tableCount (session.next (.close table fd)) := by
  cases inRange : fdSlot fd with
  | none =>
      rcases mcsVfsClose_badFd session.world table inRange with ⟨status, same⟩
      simpa [Session.next, VfsCall.exec, status, same, FileStore.after, mcsEbadf, mcsOk] using tracks
  | some slot =>
      rcases mcsVfsClose_final session.world table inRange with ⟨status, left⟩
      simpa [Session.next, VfsCall.exec, status, left, FileStore.after] using
        @Tracks.set tableCount session tracks session.world rfl table fd slot inRange
          ({ · with used := false }) none rfl

/-- Every call keeps track of the open descriptors. -/
theorem Tracks.next (tracks : Tracks tableCount session) (call : VfsCall) :
    Tracks tableCount (session.next call) := by
  cases call with
  | seed path data size =>
      apply tracks.keep
      · funext table slot
        simp [Session.next, VfsCall.exec, VfsWorld.inUse, mcsRamfsSeedFile_tables]
      · intro table fd
        simp only [Session.next, FileStore.after]
        split <;> exact Iff.rfl
  | openFile table path flags => exact tracks.openFile table path flags
  | read table fd size =>
      apply tracks.keep
      · exact mcsVfsRead_inUse session.world table fd size
      · intro other otherFd
        simp only [Session.next, FileStore.after]
        split
        · exact Iff.rfl
        next descriptor isOpen => exact setDescriptor_open_iff _ isOpen other otherFd
  | write table fd buffer size =>
      apply tracks.keep
      · simpa [Session.next, VfsCall.exec] using
          mcsVfsWrite_inUse session.world table fd buffer size
      · intro other otherFd
        simp only [Session.next, FileStore.after]
        split
        · exact Iff.rfl
        next descriptor isOpen =>
          split
          · exact setDescriptor_open_iff _ isOpen other otherFd
          · exact Iff.rfl
  | lseek table fd offset whence =>
      apply tracks.keep
      · simpa [Session.next, VfsCall.exec] using
          mcsVfsLseek_inUse session.world table fd offset whence
      · intro other otherFd
        simp only [Session.next, FileStore.after]
        split
        · exact Iff.rfl
        next descriptor isOpen =>
          split
          · exact setDescriptor_open_iff _ isOpen other otherFd
          · exact Iff.rfl
  | close table fd => exact tracks.close table fd

/-- Only a close of a descriptor in range can go wrong. -/
theorem Tracks.refusesClosed_iff (tracks : Tracks tableCount session) (call : VfsCall) :
    RefusesClosed tableCount session call ↔ ClosesOpen tableCount session call := by
  cases call with
  | seed path data size =>
      refine ⟨fun _ => trivial, ?_⟩
      rintro - table - fd ⟨⟩
  | openFile table path flags =>
      refine ⟨fun _ => trivial, ?_⟩
      rintro - table - fd ⟨⟩
  | read table fd size =>
      refine ⟨fun _ => trivial, ?_⟩
      rintro - _ known _ ⟨⟩ closed
      have refused := (tracks.notOpen known closed).calls.1 size
      exact ⟨by rw [VfsCall.exec, refused.1], refused.2⟩
  | write table fd buffer size =>
      refine ⟨fun _ => trivial, ?_⟩
      rintro - _ known _ ⟨⟩ closed
      have refused := (tracks.notOpen known closed).calls.2.1 buffer size
      simpa [VfsCall.exec] using refused
  | lseek table fd offset whence =>
      refine ⟨fun _ => trivial, ?_⟩
      rintro - _ known _ ⟨⟩ closed
      have refused := (tracks.notOpen known closed).calls.2.2 offset whence
      simpa [VfsCall.exec] using refused
  | close table fd =>
      constructor
      · intro refuses known
        by_contra neither
        rw [not_or, not_not] at neither
        have answer := (refuses table known fd rfl neither.2).1
        cases inRange : fdSlot fd with
        | none => exact neither.1 inRange
        | some slot =>
            have ok := (mcsVfsClose_final session.world table inRange).1
            simp [VfsCall.exec, ok, mcsOk, mcsEbadf] at answer
      · rintro closesOpen _ known _ ⟨⟩ closed
        have outOfRange := (closesOpen known).resolve_right (not_not.mpr closed)
        simpa [VfsCall.exec] using mcsVfsClose_badFd session.world table outOfRange

theorem Tracks.opensLowest (tracks : Tracks tableCount session) (call : VfsCall) :
    OpensLowest tableCount session call := by
  cases call with
  | openFile table path flags =>
      intro known available
      rcases mcsVfsOpen_cases session.world table path flags with
        ⟨missing, refused, -⟩ | ⟨node, after, -, outcome⟩
      · rcases available with there | ⟨create, space⟩
        · exact absurd missing there
        · rcases refused with noCreate | full
          · exact absurd noCreate create
          · exact absurd space full
      · rcases outcome with ⟨inUse, status, -⟩ | ⟨slot, below, unused, inUse, status, -⟩
        · exact Or.inl ⟨fun slot below => (tracks.slot_iff known below).mpr (inUse slot below),
            status⟩
        · refine Or.inr ⟨slot, below, ?_, ?_, status⟩
          · by_contra isOpen
            rw [(tracks.slot_iff known below).mp isOpen] at unused
            cases unused
          · intro earlier before
            exact (tracks.slot_iff known (Nat.lt_trans before below)).mpr (inUse earlier before)
  | _ => trivial

end

/-! ### Every run -/

theorem started_tracks (tableCount : Nat) (memory : VfsWorld) :
    Tracks tableCount (started tableCount memory) := by
  intro table known fd
  constructor
  · intro isOpen
    exact absurd rfl isOpen
  · rintro ⟨slot, inRange, used⟩
    have below := ((fdSlot_eq_some_iff fd slot).mp inRange).2
    have unused := (vfsStart_cleared tableCount memory).2 table known slot below
    rw [started, unused] at used
    cases used

/-- After every run, over any number of tables: a call through a descriptor that
is not open fails without a change exactly when it is not a close of a number in
range, and an open returns the lowest descriptor that is not open. -/
theorem run_closed_descriptors_iff (tableCount : Nat) (memory : VfsWorld) (calls : List VfsCall)
    (call : VfsCall) :
    let session := calls.foldl Session.next (started tableCount memory)
    (RefusesClosed tableCount session call ↔ ClosesOpen tableCount session call) ∧
      OpensLowest tableCount session call := by
  intro session
  have tracks : Tracks tableCount session := (everyCall_true calls _).final (Tracks tableCount)
    (fun _ call holds _ => holds.next call) (started_tracks tableCount memory)
  exact ⟨tracks.refusesClosed_iff call, tracks.opensLowest call⟩

/-- A descriptor that was never opened is closed, and the close succeeds. -/
theorem close_of_closed_succeeds :
    ¬ RefusesClosed 1 (started 1 zeroedWorld) (.close 0 0) := by
  rw [(started_tracks 1 zeroedWorld).refusesClosed_iff]
  intro closesOpen
  rcases closesOpen (by decide) with outOfRange | isOpen
  · exact absurd outOfRange (by decide)
  · exact isOpen rfl

end Mcsos.Vfs
