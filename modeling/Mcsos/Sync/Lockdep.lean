import Mathlib.Algebra.Order.Ring.Int
import Mathlib.Data.List.Infix
import Mathlib.Order.Bounds.Basic

/-!
The depth counter of `kernel/sync/m12_lockdep.c`, and what it counts: a release
with nothing to release is forgotten, so the depth is the surplus of acquires
since the time from which on that surplus is greatest.
-/

namespace Mcsos.Sync

def m12LockdepAcquire (depth : UInt32) : UInt32 := depth + 1

def m12LockdepRelease (depth : UInt32) : UInt32 :=
  if depth > 0 then depth - 1 else depth

inductive LockdepCall where
  | acquire
  | release
deriving DecidableEq, Repr

/-- `m12_lock_depth` behind a call. -/
def LockdepCall.exec (depth : UInt32) : LockdepCall → UInt32
  | .acquire => m12LockdepAcquire depth
  | .release => m12LockdepRelease depth

/-- `m12_lockdep_depth` behind a run of calls. -/
def m12LockdepDepth (calls : List LockdepCall) : UInt32 :=
  calls.foldl LockdepCall.exec 0

def LockdepCall.weight : LockdepCall → Int
  | .acquire => 1
  | .release => -1

/-- The acquires of a run less its releases. -/
def surplus (calls : List LockdepCall) : Int :=
  (calls.map LockdepCall.weight).sum

theorem surplus_append_singleton (calls : List LockdepCall) (call : LockdepCall) :
    surplus (calls ++ [call]) = surplus calls + call.weight := by
  simp [surplus]

/-- Surpluses over the ends of a run that is one call longer. -/
theorem isGreatest_surplus_append {calls : List LockdepCall} {most : Int}
    (greatest : IsGreatest {value | ∃ suffix, suffix <:+ calls ∧ value = surplus suffix} most)
    (call : LockdepCall) :
    IsGreatest {value | ∃ suffix, suffix <:+ calls ++ [call] ∧ value = surplus suffix}
      (max 0 (most + call.weight)) := by
  obtain ⟨⟨best, isSuffix, reached⟩, bound⟩ := greatest
  constructor
  · rcases le_total (most + call.weight) 0 with low | high
    · rw [max_eq_left low]
      exact ⟨[], List.nil_suffix, rfl⟩
    · rw [max_eq_right high]
      refine ⟨best ++ [call], ?_, by rw [surplus_append_singleton, reached]⟩
      obtain ⟨front, rfl⟩ := isSuffix
      exact ⟨front, by rw [List.append_assoc]⟩
  · rintro value ⟨suffix, isSuffix, rfl⟩
    rcases List.suffix_concat_iff.mp isSuffix with rfl | ⟨shorter, rfl, shorterSuffix⟩
    · exact le_max_left _ _
    · rw [surplus_append_singleton]
      exact le_max_of_le_right (add_le_add_left (bound ⟨shorter, shorterSuffix, rfl⟩) _)

theorem m12LockdepDepth_append_singleton (calls : List LockdepCall) (call : LockdepCall) :
    m12LockdepDepth (calls ++ [call]) = LockdepCall.exec (m12LockdepDepth calls) call := by
  rw [m12LockdepDepth, List.foldl_append]
  rfl

theorem m12LockdepRelease_toNat (depth : UInt32) :
    (m12LockdepRelease depth).toNat = depth.toNat - 1 := by
  have one : (1 : UInt32).toNat = 1 := rfl
  have zero : (0 : UInt32).toNat = 0 := rfl
  unfold m12LockdepRelease
  by_cases positive : depth > 0
  · have atLeastOne := UInt32.lt_iff_toNat_lt.mp positive
    rw [if_pos positive, UInt32.toNat_sub_of_le _ _ (UInt32.le_iff_toNat_le.mpr (by omega)), one]
  · have small := UInt32.le_iff_toNat_le.mp (UInt32.not_lt.mp positive)
    rw [if_neg positive]
    omega

/-- The counter may wrap, but never upwards. -/
theorem m12LockdepDepth_le (calls : List LockdepCall) :
    (m12LockdepDepth calls).toNat ≤ calls.count .acquire := by
  induction calls using List.reverseRecOn with
  | nil => exact Nat.le_refl 0
  | append_singleton earlier call inductionHypothesis =>
      rw [m12LockdepDepth_append_singleton, List.count_append]
      cases call with
      | acquire =>
          have wraps : (m12LockdepAcquire (m12LockdepDepth earlier)).toNat ≤
              (m12LockdepDepth earlier).toNat + 1 := by
            rw [m12LockdepAcquire, UInt32.toNat_add]
            exact Nat.mod_le _ _
          exact le_trans wraps (Nat.add_le_add_right inductionHypothesis 1)
      | release =>
          show (m12LockdepRelease _).toNat ≤ _
          rw [m12LockdepRelease_toNat]
          omega

/-- The depth is the greatest surplus of acquires over releases among the ends
of the run. Releases that come too early count for nothing later on. -/
theorem m12LockdepDepth_isGreatest {calls : List LockdepCall}
    (few : calls.count .acquire < 2 ^ 32) :
    IsGreatest {value | ∃ suffix, suffix <:+ calls ∧ value = surplus suffix}
      ((m12LockdepDepth calls).toNat : Int) := by
  induction calls using List.reverseRecOn with
  | nil =>
      refine ⟨⟨[], List.suffix_refl _, rfl⟩, ?_⟩
      rintro value ⟨suffix, isSuffix, rfl⟩
      rw [List.suffix_nil.mp isSuffix]
      exact le_rfl
  | append_singleton earlier call inductionHypothesis =>
      rw [List.count_append] at few
      have greatest := isGreatest_surplus_append (inductionHypothesis (by omega)) call
      have next : ((m12LockdepDepth (earlier ++ [call])).toNat : Int) =
          max 0 (((m12LockdepDepth earlier).toNat : Int) + call.weight) := by
        rw [m12LockdepDepth_append_singleton]
        cases call with
        | acquire =>
            have bound := m12LockdepDepth_le earlier
            have isOne : (1 : UInt32).toNat = 1 := rfl
            have counts : List.count LockdepCall.acquire [.acquire] = 1 := rfl
            show ((m12LockdepAcquire _).toNat : Int) = max 0 (_ + 1)
            rw [m12LockdepAcquire, UInt32.toNat_add, isOne, Nat.mod_eq_of_lt (by omega)]
            omega
        | release =>
            show ((m12LockdepRelease _).toNat : Int) = max 0 (_ + -1)
            rw [m12LockdepRelease_toNat]
            omega
      rwa [next]

theorem m12LockdepDepth_isGreatest_early :
    IsGreatest {value | ∃ suffix, suffix <:+ [.release, .acquire, .acquire, .release] ∧
      value = surplus suffix} (1 : Int) :=
  @m12LockdepDepth_isGreatest [.release, .acquire, .acquire, .release] (by decide)

end Mcsos.Sync
