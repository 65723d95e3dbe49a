import Mcsos.Machine.Run
import Mcsos.Pmm.Ownership

/-!
Contract: counters and bitmap of the manager stay in step, in every run of its
operations from a state in which they are.

`Guarded` is what every single access of the operations keeps to: the bytes of
the bitmap that hold a managed bit, and counters that count at most every
managed frame, which a counter decremented below zero does not.
-/

namespace Mcsos.Pmm

open Mcsos.Machine
open Mcsos.Machine.Prog

/-- The accesses of a call. -/
def PmmCall.trace (pmm : PmmState) : PmmCall → List PmmAccess
  | .alloc => pmmAllocFrame.trace pmm
  | .free phys => (pmmFreeFrame phys).trace pmm
  | .reserve base length => (pmmReserveRange base length).trace pmm

/-! ### What the operations are built from -/

/-- Every part of an operation issues good accesses and keeps the invariant:
testing a managed frame, taking a free one, releasing a used one. -/
structure BuiltFrom (good : PmmAccess → Prop) (inv : PmmState → Prop) : Prop where
  test : ∀ s frame, inv s → frame < s.frameCount → (bitmapTest frame).Issues good s
  take : ∀ s frame, inv s → frame < s.frameCount → getBit s.bitmap frame = false →
    (do bitmapSet frame; countTaken : PmmProg Unit).Issues good s ∧ inv (s.take frame)
  release : ∀ s frame, inv s → frame < s.frameCount → getBit s.bitmap frame = true →
    (do bitmapClear frame; countReleased : PmmProg Unit).Issues good s ∧ inv (s.release frame)

section

variable {good : PmmAccess → Prop} {inv : PmmState → Prop} (built : BuiltFrom good inv)
  {pmm : PmmState} (entry : inv pmm)

include built entry

theorem BuiltFrom.probe_issues {index : Nat} (below : index < pmm.frameCount) :
    (allocProbe index).Issues good pmm := by
  unfold allocProbe
  rw [issues_bind, bitmapTest_result, bitmapTest_final]
  refine ⟨built.test pmm index entry below, ?_⟩
  cases bit : getBit pmm.bitmap index with
  | true => simp
  | false =>
      have taken := (built.take pmm index entry below bit).1
      rw [issues_bind] at taken
      simpa using taken

theorem BuiltFrom.alloc : inv (pmmAllocFrame.final pmm) ∧ pmmAllocFrame.Issues good pmm := by
  constructor
  · rcases pmmAllocFrame_cases pmm with ⟨-, -, same⟩ | ⟨frame, below, free, -, -, effect⟩
    · rw [same]
      exact entry
    · rw [effect]
      exact (built.take pmm frame entry below free).2
  · have loop : (scanLoop 0 pmm.frameCount allocProbe).Issues good pmm := by
      apply scanLoop_issues 0 pmm.frameCount allocProbe good (fun _ s => s = pmm) rfl
      intro index s _ upper same
      subst same
      refine ⟨built.probe_issues entry (by omega), ?_⟩
      intro goesOn
      -- a probe goes on only past a frame in use, and leaves the state alone
      cases bit : getBit s.bitmap index with
      | true => simp [allocProbe, bit]
      | false => simp [allocProbe, bit] at goesOn
    unfold pmmAllocFrame
    rw [issues_bind, issues_bind]
    refine ⟨issues_get _ _, loop, ?_⟩
    split <;> exact issues_pure _ _ _

theorem BuiltFrom.free (phys : Nat) :
    inv ((pmmFreeFrame phys).final pmm) ∧ (pmmFreeFrame phys).Issues good pmm := by
  constructor
  · rcases pmmFreeFrame_cases phys pmm with ⟨-, same⟩ | ⟨-, below, used, -, effect⟩
    · rw [same]
      exact entry
    · rw [effect]
      exact (built.release pmm _ entry below used).2
  · unfold pmmFreeFrame
    rw [issues_bind, result_get, final_get, issues_ite]
    refine ⟨issues_get _ _, fun _ => issues_pure _ _ _, fun _ => ?_⟩
    rw [issues_ite]
    refine ⟨fun _ => issues_pure _ _ _, fun inside => ?_⟩
    have below : phys / pmmPageSize < pmm.frameCount := Nat.not_le.mp inside
    rw [issues_bind, bitmapTest_result, bitmapTest_final]
    refine ⟨built.test pmm _ entry below, ?_⟩
    cases bit : getBit pmm.bitmap (phys / pmmPageSize) with
    | false => simp
    | true =>
        have released := (built.release pmm _ entry below bit).1
        rw [issues_bind] at released
        simpa using released

theorem BuiltFrom.frame_issues (start index : Nat) : (reserveFrame start index).Issues good pmm := by
  unfold reserveFrame
  rw [issues_bind, result_get, final_get, issues_ite]
  refine ⟨issues_get _ _, fun _ => issues_pure _ _ _, fun inside => ?_⟩
  have below : wrap64 (start + index) < pmm.frameCount := Nat.not_le.mp inside
  rw [issues_bind, bitmapTest_result, bitmapTest_final]
  refine ⟨built.test pmm _ entry below, ?_⟩
  cases bit : getBit pmm.bitmap (wrap64 (start + index)) with
  | true => simp
  | false =>
      have taken := (built.take pmm _ entry below bit).1
      rw [issues_bind] at taken
      simpa using taken

theorem BuiltFrom.reserve (base length : Nat) :
    inv ((pmmReserveRange base length).final pmm) ∧
      (pmmReserveRange base length).Issues good pmm := by
  have step : ∀ s frame, inv s → frame < s.frameCount → getBit s.bitmap frame = false →
      inv (s.take frame) := by
    intro s frame holds below free
    exact (built.take s frame holds below free).2
  constructor
  · exact pmmReserveRange_invariant inv base length entry step
  · have loop : (scanLoop 0 (length / pmmPageSize)
        (reserveFrame (base / pmmPageSize))).Issues good pmm := by
      apply scanLoop_issues 0 _ _ good (fun _ s => inv s) entry
      intro index s _ _ holds
      refine ⟨built.frame_issues holds _ _, fun _ => ?_⟩
      exact reserveFrame_invariant inv _ index holds step
    unfold pmmReserveRange
    rw [issues_bind]
    exact ⟨loop, issues_pure _ _ _⟩

/-- An operation keeps the invariant and issues good accesses only. -/
theorem BuiltFrom.call (call : PmmCall) :
    inv (call.run pmm) ∧ ∀ access ∈ call.trace pmm, good access := by
  cases call with
  | alloc => exact built.alloc entry
  | free phys => exact built.free entry phys
  | reserve base length => exact built.reserve entry base length

end

/-! ### Counters and bitmap -/

/-- The access is to a byte that holds the bit of a managed frame, or stores a
number of managed frames. -/
def Guarded (count : Nat) : PmmAccess → Prop
  | .loadByte index | .storeByte index _ => 8 * index < count
  | .storeFreeFrames value | .storeUsedFrames value => value ≤ count
  | _ => True

/-- The counters are those of `count` managed frames. -/
structure InStep (count : Nat) (pmm : PmmState) : Prop where
  frameCount : pmm.frameCount = count
  exact : CountersExact pmm

section

variable {count : Nat} {pmm : PmmState} {frame : Nat}

theorem bitmapTest_issues (below : frame < count) (pmm : PmmState) :
    (bitmapTest frame).Issues (Guarded count) pmm := by
  have byte : 8 * (frame / 8) < count := by omega
  simp [bitmapTest, Guarded, byte]

variable (small : count ≤ 2 ^ 52) (inStep : InStep count pmm) (below : frame < count)

include small inStep below

theorem InStep.take (free : getBit pmm.bitmap frame = false) : InStep count (pmm.take frame) := by
  have managed : frame < pmm.frameCount := by rw [inStep.frameCount]; exact below
  have bounded : pmm.frameCount < 2 ^ 64 := by rw [inStep.frameCount]; omega
  exact ⟨inStep.frameCount, countersExact_take inStep.exact bounded managed free⟩

theorem InStep.release (used : getBit pmm.bitmap frame = true) :
    InStep count (pmm.release frame) := by
  have managed : frame < pmm.frameCount := by rw [inStep.frameCount]; exact below
  have bounded : pmm.frameCount < 2 ^ 64 := by rw [inStep.frameCount]; omega
  exact ⟨inStep.frameCount, countersExact_release inStep.exact bounded managed used⟩

/-- The counters stored when a frame is taken are those of the state it leaves. -/
theorem take_issues (free : getBit pmm.bitmap frame = false) :
    (do bitmapSet frame; countTaken : PmmProg Unit).Issues (Guarded count) pmm := by
  have byte : 8 * (frame / 8) < count := by omega
  have after := inStep.take small below free
  have total := after.exact.total
  rw [after.frameCount] at total
  have freeStored : (pmm.take frame).freeFrames ≤ count := by omega
  have usedStored : (pmm.take frame).usedFrames ≤ count := by omega
  simp only [PmmState.take] at freeStored usedStored
  simp only [bitmapSet, countTaken, issues_bind, issues_emit, issues_get, Guarded, byte, true_and]
  exact ⟨freeStored, usedStored⟩

theorem release_issues (used : getBit pmm.bitmap frame = true) :
    (do bitmapClear frame; countReleased : PmmProg Unit).Issues (Guarded count) pmm := by
  have byte : 8 * (frame / 8) < count := by omega
  have after := inStep.release small below used
  have total := after.exact.total
  rw [after.frameCount] at total
  have freeStored : (pmm.release frame).freeFrames ≤ count := by omega
  have usedStored : (pmm.release frame).usedFrames ≤ count := by omega
  simp only [PmmState.release] at freeStored usedStored
  simp only [bitmapClear, countReleased, issues_bind, issues_emit, issues_get, Guarded, byte,
    true_and]
  exact ⟨freeStored, usedStored⟩

end

/-- The operations keep counters and bitmap in step. -/
theorem builtFrom_inStep {count : Nat} (small : count ≤ 2 ^ 52) :
    BuiltFrom (Guarded count) (InStep count) := by
  refine ⟨?_, ?_, ?_⟩
  · intro s frame inStep below
    exact bitmapTest_issues (inStep.frameCount ▸ below) s
  · intro s frame inStep below free
    have managed : frame < count := inStep.frameCount ▸ below
    exact ⟨take_issues small inStep managed free, inStep.take small managed free⟩
  · intro s frame inStep below used
    have managed : frame < count := inStep.frameCount ▸ below
    exact ⟨release_issues small inStep managed used, inStep.release small managed used⟩

/-! ### Whole runs -/

/-- The call returns `PMM_INVALID_FRAME` or false. -/
def PmmCall.Refused (pmm : PmmState) : PmmCall → Prop
  | .alloc => pmmAllocFrame.result pmm = pmmInvalidFrame
  | .free phys => (pmmFreeFrame phys).result pmm = false
  | .reserve base length => (pmmReserveRange base length).result pmm = false

/-- The call leaves the counters exact, keeps every access guarded, and changes
neither bitmap nor counters when it is refused. -/
structure KeepsStep (count : Nat) (pmm : PmmState) (call : PmmCall) : Prop where
  free : (call.run pmm).freeFrames = (clearBits (call.run pmm).bitmap count).card
  used : (call.run pmm).usedFrames = (setBits (call.run pmm).bitmap count).card
  guarded : ∀ access ∈ call.trace pmm, Guarded count access
  refused : call.Refused pmm → call.run pmm = pmm

theorem PmmCall.Refused.unchanged {pmm : PmmState} {call : PmmCall} (refused : call.Refused pmm) :
    call.run pmm = pmm := by
  cases call with
  | alloc =>
      rcases pmmAllocFrame_cases pmm with ⟨-, -, same⟩ | ⟨frame, -, -, -, answer, -⟩
      · exact same
      · -- no page has the address that stands for none
        have invalid : pmmAllocFrame.result pmm = pmmInvalidFrame := refused
        rw [invalid] at answer
        simp only [pmmInvalidFrame, pmmPageSize, wrap64] at answer
        omega
  | free phys =>
      rcases pmmFreeFrame_cases phys pmm with ⟨-, same⟩ | ⟨-, -, -, accepted, -⟩
      · exact same
      · have denied : (pmmFreeFrame phys).result pmm = false := refused
        rw [accepted] at denied
        cases denied
  | reserve base length =>
      have denied : (pmmReserveRange base length).result pmm = false := refused
      simp [pmmReserveRange] at denied

theorem InStep.call {count : Nat} (small : count ≤ 2 ^ 52) {pmm : PmmState}
    (inStep : InStep count pmm) (call : PmmCall) :
    KeepsStep count pmm call ∧ InStep count (call.run pmm) := by
  obtain ⟨after, guarded⟩ := (builtFrom_inStep small).call inStep call
  have free := after.exact.free
  have used := after.exact.used
  rw [after.frameCount] at free used
  exact ⟨⟨free, used, guarded, PmmCall.Refused.unchanged⟩, after⟩

/-- Counters and bitmap stay in step over every run of the operations, with any
arguments. -/
theorem run_keeps_step (pmm : PmmState) (small : pmm.frameCount ≤ 2 ^ 52)
    (free : pmm.freeFrames = (clearBits pmm.bitmap pmm.frameCount).card)
    (used : pmm.usedFrames = (setBits pmm.bitmap pmm.frameCount).card)
    (calls : List PmmCall) :
    EveryCall (fun state call => PmmCall.run call state) (KeepsStep pmm.frameCount) calls pmm := by
  have total : pmm.freeFrames + pmm.usedFrames = pmm.frameCount := by
    rw [free, used]
    exact clearBits_card_add_setBits_card _ _
  refine everyCall_of_invariant (InStep pmm.frameCount) ?_ ⟨rfl, free, used, total⟩
    (everyCall_true calls pmm)
  intro state call inStep _
  exact inStep.call small call

/-- Four frames, the first one in use. -/
def fourFrames : PmmState := ⟨fun _ => 1, 4, 3, 1, 0, true⟩

theorem run_keeps_step_fourFrames :
    EveryCall (fun state call => PmmCall.run call state) (KeepsStep 4)
      [.alloc, .free 0x1000, .free 0xFFFFFFFFFFFFF000, .reserve 0x2000 0xFFFFFFFFFFFFFFFF, .alloc]
      fourFrames :=
  run_keeps_step fourFrames (by decide) (by decide +kernel) (by decide +kernel) _

end Mcsos.Pmm
