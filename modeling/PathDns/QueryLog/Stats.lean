import Mathlib.Data.UInt
import Mathlib.Algebra.GroupWithZero.Nat
import Mathlib.Algebra.Group.Nat.Defs
import Mathlib.Data.List.GetD
import Mathlib.Data.List.Range
import Mathlib.Order.Monotone.Defs

/-!
# The stats ring (`querylog/ring.rs`)

The ring is the list of its samples, oldest first. Counters are `u64` and wrap; so do the products of a
bucket number and a sample count. A slice or an index out of range is `none`.
-/

namespace PathDns

structure StatsSample where
  unixSecs : UInt64
  queries : UInt64
  cacheHits : UInt64
  upstreamOk : UInt64
  upstreamErr : UInt64
  filtered : UInt64
deriving DecidableEq, Repr

namespace StatsSample

def default : StatsSample := ⟨0, 0, 0, 0, 0, 0⟩

/-- The body of the summing loops. -/
def addCounters (agg snap : StatsSample) : StatsSample :=
  { agg with
    queries := agg.queries + snap.queries
    cacheHits := agg.cacheHits + snap.cacheHits
    upstreamOk := agg.upstreamOk + snap.upstreamOk
    upstreamErr := agg.upstreamErr + snap.upstreamErr
    filtered := agg.filtered + snap.filtered }

def counters : List (StatsSample → UInt64) := [queries, cacheHits, upstreamOk, upstreamErr, filtered]

end StatsSample

abbrev StatsRing := List StatsSample

namespace StatsRing

open StatsSample

def statsSampleSecs : Nat := 60

def statsRingLen : Nat := 24 * 60

/-- The number of samples that `seconds` select. -/
def take (ring : StatsRing) (seconds : Nat) : Nat :=
  min (min (seconds / statsSampleSecs) statsRingLen) ring.length

/-- The samples that `seconds` select. -/
def window (ring : StatsRing) (seconds : Nat) : List StatsSample := ring.drop (ring.length - take ring seconds)

def aggregate (ring : StatsRing) (seconds : Nat) : StatsSample × UInt64 :=
  let snaps := window ring seconds
  (snaps.foldl addCounters default, snaps.head?.elim 0 (·.unixSecs))

/-- A product of two `usize`. -/
def mulUsize (a b : Nat) : Nat := a * b % 2 ^ 64

/-- One round of the loop over the buckets. -/
def bucket (snaps : List StatsSample) (buckets b : Nat) : Option StatsSample :=
  let n := snaps.length
  let start := mulUsize b n / buckets
  let stop := if b + 1 = buckets then n else mulUsize (b + 1) n / buckets
  if start ≤ stop ∧ stop ≤ n then
    let agg := ((snaps.drop start).take (stop - start)).foldl addCounters default
    if start < stop then (snaps[start]?).map fun first => { agg with unixSecs := first.unixSecs } else some agg
  else none

def bucketAggregate (ring : StatsRing) (seconds buckets : Nat) : Option (List StatsSample) :=
  let buckets := max buckets 1
  if take ring seconds = 0 then some (List.replicate buckets default)
  else (List.range buckets).mapM (bucket (window ring seconds) buckets)

/-- What a bucket with these samples shows: their sums, and the time of the first one. -/
def total (group : List StatsSample) : StatsSample :=
  { group.foldl addCounters default with unixSecs := group.head?.elim 0 (·.unixSecs) }

/-! ### Cutting a list at borders -/

theorem flatten_cuts {α : Type} (xs : List α) {border : Nat → Nat} (hmono : Monotone border) (k : Nat) :
    ((List.range k).map fun b => (xs.drop (border b)).take (border (b + 1) - border b)).flatten =
      (xs.drop (border 0)).take (border k - border 0) := by
  induction k with
  | zero => simp
  | succ k ih =>
    have h0 : border 0 ≤ border k := hmono (Nat.zero_le k)
    have h1 : border k ≤ border (k + 1) := hmono (Nat.le_succ k)
    rw [List.range_succ, List.map_append, List.flatten_append, ih, List.map_singleton, List.flatten_singleton,
      show border (k + 1) - border 0 = (border k - border 0) + (border (k + 1) - border k) by omega,
      List.take_add, List.drop_drop, Nat.add_sub_cancel' h0]

/-! ### Sums -/

variable {counter : StatsSample → UInt64}

theorem counter_spec (h : counter ∈ counters) : counter default = 0 ∧
    (∀ agg snap, counter (addCounters agg snap) = counter agg + counter snap) ∧
      ∀ s t, counter { s with unixSecs := t } = counter s := by
  simp only [counters, List.mem_cons, List.not_mem_nil, or_false] at h
  rcases h with rfl | rfl | rfl | rfl | rfl <;> exact ⟨rfl, fun _ _ => rfl, fun _ _ => rfl⟩

theorem counter_foldl (h : counter ∈ counters) (group : List StatsSample) :
    counter (group.foldl addCounters default) = (group.map counter).sum := by
  have hacc (acc : StatsSample) :
      counter (group.foldl addCounters acc) = counter acc + (group.map counter).sum := by
    induction group generalizing acc with
    | nil => simp
    | cons snap group ih =>
      rw [List.foldl_cons, ih, (counter_spec h).2.1, List.map_cons, List.sum_cons, UInt64.add_assoc]
  rw [hacc, (counter_spec h).1, UInt64.zero_add]

theorem sum_counter_total (h : counter ∈ counters) (groups : List (List StatsSample)) :
    ((groups.map total).map counter).sum = (groups.flatten.map counter).sum := by
  induction groups with
  | nil => rfl
  | cons group groups ih =>
    rw [List.map_cons, List.map_cons, List.sum_cons, ih, total, (counter_spec h).2.2, counter_foldl h,
      List.flatten_cons, List.map_append, List.sum_append]

/-! ### The buckets -/

variable {snaps : List StatsSample} {buckets : Nat}

/-- The samples of a bucket. -/
def group (snaps : List StatsSample) (buckets b : Nat) : List StatsSample :=
  (snaps.drop (b * snaps.length / buckets)).take ((b + 1) * snaps.length / buckets - b * snaps.length / buckets)

theorem bucket_eq (hpos : 0 < buckets) (hfit : buckets * snaps.length < 2 ^ 64) {b : Nat} (hb : b < buckets) :
    bucket snaps buckets b = some (total (group snaps buckets b)) := by
  have hstart : mulUsize b snaps.length = b * snaps.length :=
    Nat.mod_eq_of_lt ((Nat.mul_le_mul_right _ hb.le).trans_lt hfit)
  have hnext : mulUsize (b + 1) snaps.length = (b + 1) * snaps.length :=
    Nat.mod_eq_of_lt ((Nat.mul_le_mul_right _ hb).trans_lt hfit)
  have hlast : buckets * snaps.length / buckets = snaps.length := Nat.mul_div_cancel_left _ hpos
  have hstop : (if b + 1 = buckets then snaps.length else mulUsize (b + 1) snaps.length / buckets) =
      (b + 1) * snaps.length / buckets := by
    split_ifs with h
    · rw [h, hlast]
    · rw [hnext]
  have hle : b * snaps.length / buckets ≤ (b + 1) * snaps.length / buckets :=
    Nat.div_le_div_right (Nat.mul_le_mul_right _ (Nat.le_succ b))
  have hend : (b + 1) * snaps.length / buckets ≤ snaps.length :=
    (Nat.div_le_div_right (Nat.mul_le_mul_right _ hb)).trans hlast.le
  simp only [bucket, hstart, hstop, total, group]
  rw [if_pos ⟨hle, hend⟩]
  split_ifs with hlt
  · -- a bucket with samples begins with the one at its start
    have hget := List.getElem?_eq_getElem (hlt.trans_le hend)
    rw [hget, List.head?_take, if_neg (by omega), List.head?_drop, hget]
    rfl
  · rw [Nat.sub_eq_zero_of_le (Nat.not_lt.mp hlt)]
    rfl

theorem flatten_groups (hpos : 0 < buckets) :
    ((List.range buckets).map (group snaps buckets)).flatten = snaps := by
  have hmono : Monotone fun b => b * snaps.length / buckets :=
    fun _ _ h => Nat.div_le_div_right (Nat.mul_le_mul_right _ h)
  have hcuts := flatten_cuts snaps hmono buckets
  simp only [Nat.zero_mul, Nat.zero_div, List.drop_zero, Nat.sub_zero, Nat.mul_div_cancel_left _ hpos,
    List.take_length] at hcuts
  exact hcuts

theorem mapM_eq_some {α β : Type} {f : α → Option β} {g : α → β} {xs : List α} (h : ∀ x ∈ xs, f x = some (g x)) :
    xs.mapM f = some (xs.map g) := by
  induction xs with
  | nil => rfl
  | cons x xs ih =>
    obtain ⟨hx, hxs⟩ := List.forall_mem_cons.mp h
    rw [List.mapM_cons, hx, ih hxs]
    rfl

theorem length_window (ring : StatsRing) (seconds : Nat) : (window ring seconds).length = take ring seconds := by
  rw [window, List.length_drop, Nat.sub_sub_self (show take ring seconds ≤ ring.length from Nat.min_le_right _ _)]

/-- The buckets cut the samples of the window into consecutive groups, so the sums over all of them are
those of the window. -/
theorem bucketAggregate_partition (ring : StatsRing) (seconds buckets : Nat)
    (hfit : max buckets 1 * take ring seconds < 2 ^ 64) :
    ∃ groups : List (List StatsSample), groups.length = max buckets 1 ∧ groups.flatten = window ring seconds ∧
      bucketAggregate ring seconds buckets = some (groups.map total) ∧
      ∀ counter ∈ counters, ((groups.map total).map counter).sum = counter (aggregate ring seconds).1 := by
  have hpos : 0 < max buckets 1 := Nat.one_pos.trans_le (Nat.le_max_right _ _)
  have hflat := @flatten_groups (window ring seconds) _ hpos
  refine ⟨(List.range (max buckets 1)).map (group (window ring seconds) (max buckets 1)), by simp, hflat, ?_, ?_⟩
  · simp only [bucketAggregate, List.map_map]
    split_ifs with hzero
    · have hempty : window ring seconds = [] := List.length_eq_zero_iff.mp (by rw [length_window, hzero])
      have hdefault : total ∘ group [] (max buckets 1) = fun _ => default := by
        funext b
        rw [Function.comp_apply, group, List.drop_nil, List.take_nil]
        rfl
      rw [hempty, hdefault, List.map_const', List.length_range]
    · rw [← length_window] at hfit
      exact mapM_eq_some fun b hb => bucket_eq hpos hfit (List.mem_range.mp hb)
  · intro counter h
    rw [sum_counter_total h, hflat, aggregate, counter_foldl h]

/-- Two samples in three buckets. -/
theorem bucketAggregate_partition_sample : max 3 1 * take [⟨0, 1, 0, 1, 0, 0⟩, ⟨60, 2, 2, 0, 0, 0⟩] 120 < 2 ^ 64 ∧
    ∃ groups : List (List StatsSample), groups.length = 3 ∧
      bucketAggregate [⟨0, 1, 0, 1, 0, 0⟩, ⟨60, 2, 2, 0, 0, 0⟩] 120 3 = some (groups.map total) := by
  obtain ⟨groups, hlen, -, hrun, -⟩ :=
    bucketAggregate_partition [⟨0, 1, 0, 1, 0, 0⟩, ⟨60, 2, 2, 0, 0, 0⟩] 120 3 (by decide)
  exact ⟨by decide, groups, hlen, hrun⟩

end StatsRing

end PathDns
