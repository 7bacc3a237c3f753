import PathDns.Lib.RustInt
import Mathlib.Data.Nat.Dist
import Mathlib.Logic.Function.Iterate

/-!
# Health of an upstream (`HealthStats` of `upstream/mod.rs`)

The smoothed round-trip time, the count of failures in a row and the concurrency window. A success blends
its round-trip time into the estimate with shifts; the number this computes lies between the estimate and
the sample, so nothing wraps around, and it moves towards the sample until both have the same quarter.
-/

namespace PathDns

open RustInt

/-- The estimate after a failure of a node without one. -/
def FAILURE_RTT_FLOOR_US : UInt64 := 50000

/-- The upper bound of an estimate after a failure. -/
def FAILURE_RTT_CAP_US : UInt64 := 10000000

structure HealthStats where
  /-- 0 when there is no data yet -/
  ewmaRttUs : UInt64
  consecutiveFailures : UInt32
  concurrencyWindow : UInt64
  /-- 0 when there is no limit -/
  maxInflight : UInt64
deriving DecidableEq, Repr

namespace HealthStats

def new (maxInflight : UInt64) : HealthStats where
  ewmaRttUs := 0
  consecutiveFailures := 0
  concurrencyWindow := if 0 < maxInflight then maxInflight else RustInt.u64Max
  maxInflight := maxInflight

/-- `old.wrapping_sub(old >> 2).wrapping_add(rtt_us >> 2)`. -/
def blend (old rttUs : UInt64) : UInt64 := old - (old >>> 2) + (rttUs >>> 2)

/-- The sample replaces the estimate: there is none, or it was inflated by failures. -/
def adopts (h : HealthStats) : Bool := h.ewmaRttUs == 0 || h.consecutiveFailures != 0

def recordSuccess (h : HealthStats) (rttUs : UInt64) : HealthStats :=
  { h with
    ewmaRttUs := if h.adopts then rttUs else blend h.ewmaRttUs rttUs
    consecutiveFailures := 0
    concurrencyWindow :=
      if 0 < h.maxInflight ∧ h.concurrencyWindow < h.maxInflight then h.concurrencyWindow + 1
      else h.concurrencyWindow }

theorem ewmaRttUs_recordSuccess (h : HealthStats) (rttUs : UInt64) :
    (h.recordSuccess rttUs).ewmaRttUs = if h.adopts then rttUs else blend h.ewmaRttUs rttUs := rfl

def recordFailure (h : HealthStats) (isTimeout : Bool) : HealthStats :=
  { h with
    ewmaRttUs := clamp (saturatingMul h.ewmaRttUs 2) FAILURE_RTT_FLOOR_US FAILURE_RTT_CAP_US
    concurrencyWindow :=
      if isTimeout = true ∧ 0 < h.maxInflight then max (h.concurrencyWindow / 2) 1
      else h.concurrencyWindow
    consecutiveFailures := h.consecutiveFailures + 1 }

/-- What an exchange reports. -/
inductive Report where
  | success (rttUs : UInt64)
  | failure (isTimeout : Bool)
deriving DecidableEq, Repr

def record (h : HealthStats) : Report → HealthStats
  | .success rttUs => h.recordSuccess rttUs
  | .failure isTimeout => h.recordFailure isTimeout

/-- The state after a sequence of reports. -/
def recordAll (h : HealthStats) (reports : List Report) : HealthStats := reports.foldl record h

/-! ### The window -/

/-- The window of a limited upstream is between 1 and the limit. -/
def WindowKept (h : HealthStats) : Prop :=
  h.maxInflight ≠ 0 → 1 ≤ h.concurrencyWindow ∧ h.concurrencyWindow ≤ h.maxInflight

theorem windowKept_new (maxInflight : UInt64) : (new maxInflight).WindowKept := by
  intro hmax
  have hpos : 0 < maxInflight := UInt64.pos_iff_ne_zero.mpr hmax
  have hwindow : (new maxInflight).concurrencyWindow = maxInflight := if_pos hpos
  rw [hwindow]
  refine ⟨?_, UInt64.le_refl _⟩
  rw [UInt64.le_iff_toNat_le]
  exact UInt64.lt_iff_toNat_lt.mp hpos

variable {h : HealthStats}

theorem WindowKept.recordSuccess (hw : h.WindowKept) (rttUs : UInt64) : (h.recordSuccess rttUs).WindowKept := by
  intro hmax
  obtain ⟨hlow, hhigh⟩ := hw hmax
  simp only [HealthStats.recordSuccess]
  split_ifs with hgrow
  · have hlt := UInt64.lt_iff_toNat_lt.mp hgrow.2
    -- below the limit there is room for one more
    have hadd : (h.concurrencyWindow + 1).toNat = h.concurrencyWindow.toNat + 1 := by
      rw [UInt64.toNat_add]
      have := h.maxInflight.toNat_lt
      exact Nat.mod_eq_of_lt (by change h.concurrencyWindow.toNat + 1 < 2 ^ 64; omega)
    rw [UInt64.le_iff_toNat_le, UInt64.le_iff_toNat_le, hadd]
    exact ⟨Nat.le_add_left 1 _, hlt⟩
  · exact ⟨hlow, hhigh⟩

theorem WindowKept.recordFailure (hw : h.WindowKept) (isTimeout : Bool) :
    (h.recordFailure isTimeout).WindowKept := by
  intro hmax
  obtain ⟨hlow, hhigh⟩ := hw hmax
  simp only [HealthStats.recordFailure]
  split_ifs with hhalve
  · rw [UInt64.le_iff_toNat_le] at hlow hhigh
    rw [UInt64.le_iff_toNat_le, UInt64.le_iff_toNat_le, toNat_max, UInt64.toNat_div]
    change 1 ≤ max _ 1 ∧ max (h.concurrencyWindow.toNat / 2) 1 ≤ _
    exact ⟨le_max_right _ _, max_le ((Nat.div_le_self _ _).trans hhigh) (hlow.trans hhigh)⟩
  · exact ⟨hlow, hhigh⟩

theorem WindowKept.record (hw : h.WindowKept) (report : Report) : (h.record report).WindowKept := by
  cases report with
  | success rttUs => exact hw.recordSuccess rttUs
  | failure isTimeout => exact hw.recordFailure isTimeout

theorem WindowKept.recordAll (hw : h.WindowKept) (reports : List Report) :
    (h.recordAll reports).WindowKept := by
  induction reports generalizing h with
  | nil => exact hw
  | cons report reports ih => exact ih (hw.record report)

theorem maxInflight_recordAll (h : HealthStats) (reports : List Report) :
    (h.recordAll reports).maxInflight = h.maxInflight := by
  induction reports generalizing h with
  | nil => rfl
  | cons report reports ih =>
    have hone : (h.record report).maxInflight = h.maxInflight := by cases report <;> rfl
    exact (ih _).trans hone

/-! ### The estimate -/

theorem toNat_quarter (a : UInt64) : (a >>> 2).toNat = a.toNat / 4 := by
  rw [UInt64.toNat_shiftRight]
  exact Nat.shiftRight_eq_div_pow _ 2

theorem toNat_blend (old rttUs : UInt64) :
    (blend old rttUs).toNat = old.toNat - old.toNat / 4 + rttUs.toNat / 4 := by
  have hle : old >>> 2 ≤ old := by
    rw [UInt64.le_iff_toNat_le, toNat_quarter]
    exact Nat.div_le_self _ _
  have hold := old.toNat_lt
  have hrtt := rttUs.toNat_lt
  rw [blend, UInt64.toNat_add, UInt64.toNat_sub_of_le _ _ hle, toNat_quarter, toNat_quarter]
  exact Nat.mod_eq_of_lt (by omega)

theorem blend_between (old rttUs : UInt64) :
    min old.toNat rttUs.toNat ≤ (blend old rttUs).toNat ∧
      (blend old rttUs).toNat ≤ max old.toNat rttUs.toNat := by
  rw [toNat_blend]
  omega

/-- The distance of the estimate to a sample. -/
def distance (h : HealthStats) (sample : UInt64) : Nat := Nat.dist h.ewmaRttUs.toNat sample.toNat

theorem distance_blend_le (old sample : UInt64) :
    Nat.dist (blend old sample).toNat sample.toNat ≤ Nat.dist old.toNat sample.toNat := by
  have h := blend_between old sample
  simp only [Nat.dist]
  omega

/-- Estimate and sample have the same quarter, or the blend comes closer. -/
theorem distance_blend_lt (old sample : UInt64) :
    Nat.dist old.toNat sample.toNat ≤ 3 ∨
      Nat.dist (blend old sample).toNat sample.toNat < Nat.dist old.toNat sample.toNat := by
  rw [toNat_blend]
  simp only [Nat.dist]
  omega

/-- The state after `k` successes with one sample. -/
def successes (h : HealthStats) (sample : UInt64) (k : Nat) : HealthStats :=
  (recordSuccess · sample)^[k] h

theorem successes_succ (h : HealthStats) (sample : UInt64) (k : Nat) :
    h.successes sample (k + 1) = (h.successes sample k).recordSuccess sample :=
  Function.iterate_succ_apply' _ _ _

theorem distance_recordSuccess_le (h : HealthStats) (sample : UInt64) :
    (h.recordSuccess sample).distance sample ≤ h.distance sample := by
  rw [distance, ewmaRttUs_recordSuccess]
  split_ifs with hadopts
  · simp
  · exact distance_blend_le _ _

theorem distance_recordSuccess_lt (h : HealthStats) (sample : UInt64) :
    h.distance sample ≤ 3 ∨ (h.recordSuccess sample).distance sample < h.distance sample := by
  rw [distance, distance, ewmaRttUs_recordSuccess]
  split_ifs with hadopts
  · rw [Nat.dist_self]
    omega
  · exact distance_blend_lt _ _

theorem distance_successes_le (h : HealthStats) (sample : UInt64) {k m : Nat} (hkm : k ≤ m) :
    (h.successes sample m).distance sample ≤ (h.successes sample k).distance sample := by
  induction m, hkm using Nat.le_induction with
  | base => exact Nat.le_refl _
  | succ m _ ih =>
    rw [successes_succ]
    exact (distance_recordSuccess_le _ _).trans ih

/-- The distance falls by one with each success until it is at most 3. -/
theorem distance_successes_add_le (h : HealthStats) (sample : UInt64) (k : Nat) :
    (h.successes sample k).distance sample ≤ 3 ∨
      (h.successes sample k).distance sample + k ≤ h.distance sample := by
  induction k with
  | zero => exact .inr (Nat.le_refl _)
  | succ k ih =>
    rw [successes_succ]
    have hle := distance_recordSuccess_le (h.successes sample k) sample
    rcases ih with ih | ih
    · exact .inl (hle.trans ih)
    · rcases distance_recordSuccess_lt (h.successes sample k) sample with hlt | hlt
      · exact .inl (hle.trans hlt)
      · exact .inr (by omega)

/-- What every report does to the estimate. -/
structure EstimateLaws (h : HealthStats) : Prop where
  /-- a blend is the exact number and lies between the old estimate and the sample -/
  blended : ∀ rttUs, h.adopts = false →
    (h.recordSuccess rttUs).ewmaRttUs.toNat =
      h.ewmaRttUs.toNat - h.ewmaRttUs.toNat / 4 + rttUs.toNat / 4 ∧
    min h.ewmaRttUs.toNat rttUs.toNat ≤ (h.recordSuccess rttUs).ewmaRttUs.toNat ∧
    (h.recordSuccess rttUs).ewmaRttUs.toNat ≤ max h.ewmaRttUs.toNat rttUs.toNat
  failed : ∀ isTimeout, 50000 ≤ (h.recordFailure isTimeout).ewmaRttUs.toNat ∧
    (h.recordFailure isTimeout).ewmaRttUs.toNat ≤ 10000000
  approaching : ∀ sample k,
    (h.successes sample (k + 1)).distance sample ≤ (h.successes sample k).distance sample
  arriving : ∀ sample, ∃ k, ∀ m, k ≤ m → (h.successes sample m).distance sample ≤ 3

theorem recordFailure_bounds (h : HealthStats) (isTimeout : Bool) :
    50000 ≤ (h.recordFailure isTimeout).ewmaRttUs.toNat ∧
      (h.recordFailure isTimeout).ewmaRttUs.toNat ≤ 10000000 := by
  have hb := clamp_bounds (a := saturatingMul h.ewmaRttUs 2)
    (show FAILURE_RTT_FLOOR_US ≤ FAILURE_RTT_CAP_US by decide)
  rw [UInt64.le_iff_toNat_le, UInt64.le_iff_toNat_le] at hb
  exact hb

theorem estimateLaws (h : HealthStats) : h.EstimateLaws where
  blended rttUs hadopts := by
    rw [ewmaRttUs_recordSuccess, hadopts, if_neg Bool.false_ne_true]
    exact ⟨toNat_blend _ _, blend_between _ _⟩
  failed := h.recordFailure_bounds
  approaching sample k := distance_successes_le h sample (Nat.le_succ k)
  arriving sample := by
    refine ⟨h.distance sample, fun m hm => ?_⟩
    rcases distance_successes_add_le h sample m with hle | hle
    · exact hle
    · omega

/-- After every sequence of reports the window is within its bounds and the estimate obeys its laws. -/
theorem health_kept (maxInflight : UInt64) (reports : List Report) :
    (maxInflight ≠ 0 →
      1 ≤ ((new maxInflight).recordAll reports).concurrencyWindow ∧
      ((new maxInflight).recordAll reports).concurrencyWindow ≤ maxInflight) ∧
    EstimateLaws ((new maxInflight).recordAll reports) := by
  refine ⟨fun hmax => ?_, estimateLaws _⟩
  have hkept := (windowKept_new maxInflight).recordAll reports
  have hsame : ((new maxInflight).recordAll reports).maxInflight = maxInflight :=
    maxInflight_recordAll _ reports
  rw [WindowKept, hsame] at hkept
  exact hkept hmax

end HealthStats

end PathDns
