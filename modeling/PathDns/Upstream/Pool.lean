import PathDns.Upstream.Health
import Mathlib.Data.List.MinMax
import Mathlib.Order.Bounds.Basic

/-!
# Choice of an upstream (`UpstreamPool` of `upstream/mod.rs`)

The node that was not selected for longest is probed when it is `PROBE_INTERVAL` queries behind. Otherwise
one of the nodes whose score is near the best one is picked by a hash of the query's index. The distance to
the last selection is a wrapping difference: a node that was selected by a query with a higher index counts
as almost 2^64 queries behind.
-/

namespace PathDns

open RustInt

def SELECT_BAND_FLOOR_US : UInt64 := 2000

def CONGESTION_SCORE_FACTOR : UInt64 := 4

def PROBE_INTERVAL : UInt64 := 100

def SELECT_BAND_FACTOR : UInt64 := 2

def bandLimit (best factor floor : UInt64) : UInt64 :=
  max (saturatingMul best factor) (saturatingAdd best floor)

/-- The statistics of an `UpstreamNode`. -/
structure UpstreamNode where
  health : HealthStats
  activeInflight : Int64
  lastSelected : UInt64
deriving DecidableEq, Repr

namespace UpstreamNode

/-- `active_inflight.max(0) as u64`. -/
def inflight (node : UpstreamNode) : UInt64 :=
  if node.activeInflight < 0 then 0 else node.activeInflight.toUInt64

def selectionScore (node : UpstreamNode) : UInt64 :=
  let ewma := node.health.ewmaRttUs
  let inflight := node.inflight
  let base := if ewma = 0 then inflight else saturatingMul ewma (1 + inflight)
  let window := node.health.concurrencyWindow
  if 0 < window ∧ window ≤ inflight then saturatingMul base CONGESTION_SCORE_FACTOR else base

end UpstreamNode

namespace UpstreamPool

variable (nodes : List UpstreamNode) (queryIx : UInt64)

/-- The first of the nodes that were not selected for longest, with its index. -/
def probe : Option (UpstreamNode × Nat) := nodes.zipIdx.argmin (·.1.lastSelected.toNat)

/-- The index of each node with its score. -/
def candidates : List (Nat × UInt64) := nodes.zipIdx.map fun p => (p.2, p.1.selectionScore)

/-- `best_score` after the loop. -/
def bestScore : UInt64 := (candidates nodes).foldl (fun best c => min best c.2) RustInt.u64Max

def limit : UInt64 := bandLimit (bestScore nodes) SELECT_BAND_FACTOR SELECT_BAND_FLOOR_US

def inBand : Nat := (candidates nodes).countP (·.2 ≤ limit nodes)

/-- The loop that looks for the candidate with number `pick` among those within the limit. -/
def pickLoop (limit : UInt64) (pick : Nat) : Nat → List (Nat × UInt64) → Option Nat
  | _, [] => none
  | seen, (idx, score) :: rest =>
    if score ≤ limit then
      if seen = pick then some idx else pickLoop limit pick (seen + 1) rest
    else pickLoop limit pick seen rest

/-- The pick among the nodes in the band. -/
def selectInBand : Option Nat :=
  if (candidates nodes).isEmpty then none
  else
    let pick := ((queryIx * 0x9E3779B97F4A7C15) >>> 33).toNat % inBand nodes
    pickLoop (limit nodes) pick 0 (candidates nodes)

def selectPrimaryIdx : Option Nat :=
  match probe nodes with
  | some (node, idx) =>
    if PROBE_INTERVAL ≤ queryIx - node.lastSelected then some idx else selectInBand nodes queryIx
  | none => selectInBand nodes queryIx

def selectSecondaryIdx (primaryIdx : Nat) : Option Nat :=
  ((nodes.zipIdx.filter (·.2 ≠ primaryIdx)).argmin (·.1.selectionScore.toNat)).map (·.2)

variable {nodes queryIx}

/-! ### The probe -/

theorem probe_eq_none : probe nodes = none ↔ nodes = [] := by
  rw [probe, List.argmin_eq_none, List.zipIdx_eq_nil_iff]

theorem probe_spec {node : UpstreamNode} {idx : Nat} (h : probe nodes = some (node, idx)) :
    nodes[idx]? = some node ∧ ∀ other ∈ nodes, node.lastSelected.toNat ≤ other.lastSelected.toNat := by
  refine ⟨List.mem_zipIdx_iff_getElem?.mp (List.argmin_mem h), fun other hother => ?_⟩
  obtain ⟨i, hi⟩ := List.mem_iff_getElem?.mp hother
  have hmem : (other, i) ∈ nodes.zipIdx := List.mem_zipIdx_iff_getElem?.mpr hi
  exact List.le_of_mem_argmin (f := fun p : UpstreamNode × Nat => p.1.lastSelected.toNat) hmem h

/-! ### The band -/

theorem mem_candidates {c : Nat × UInt64} :
    c ∈ candidates nodes ↔ ∃ node, nodes[c.1]? = some node ∧ c.2 = node.selectionScore := by
  rw [candidates, List.mem_map]
  constructor
  · rintro ⟨⟨node, i⟩, hmem, rfl⟩
    exact ⟨node, List.mem_zipIdx_iff_getElem?.mp hmem, rfl⟩
  · rintro ⟨node, hnode, hscore⟩
    exact ⟨(node, c.1), List.mem_zipIdx_iff_getElem?.mpr hnode, by rw [← hscore]⟩

theorem toNat_foldl_min (cs : List (Nat × UInt64)) (start : UInt64) :
    (cs.foldl (fun best c => min best c.2) start).toNat =
      (cs.map (·.2.toNat)).foldl min start.toNat := by
  induction cs generalizing start with
  | nil => rfl
  | cons c cs ih =>
    rw [List.foldl_cons, ih, toNat_min]
    rfl

theorem foldl_min_le (xs : List Nat) (start : Nat) :
    xs.foldl min start ≤ start ∧ ∀ x ∈ xs, xs.foldl min start ≤ x := by
  induction xs generalizing start with
  | nil => simp
  | cons x xs ih =>
    obtain ⟨hstart, hall⟩ := ih (min start x)
    refine ⟨hstart.trans (Nat.min_le_left _ _), fun y hy => ?_⟩
    rcases List.mem_cons.mp hy with rfl | hy
    · exact hstart.trans (Nat.min_le_right _ _)
    · exact hall y hy

theorem foldl_min_mem (xs : List Nat) (start : Nat) :
    xs.foldl min start = start ∨ xs.foldl min start ∈ xs := by
  induction xs generalizing start with
  | nil => exact .inl rfl
  | cons x xs ih =>
    rcases ih (min start x) with h | h
    · rw [List.foldl_cons, h]
      rcases Nat.le_total start x with hle | hle
      · exact .inl (Nat.min_eq_left hle)
      · exact .inr (by rw [Nat.min_eq_right hle]; exact List.mem_cons_self)
    · exact .inr (List.mem_cons_of_mem _ h)

/-- The scores of the pool. -/
def scores (nodes : List UpstreamNode) : Set Nat := {s | ∃ node ∈ nodes, s = node.selectionScore.toNat}

theorem mem_scores_iff {s : Nat} : s ∈ scores nodes ↔ s ∈ (candidates nodes).map (·.2.toNat) := by
  rw [candidates, List.map_map, List.mem_map]
  constructor
  · rintro ⟨node, hnode, rfl⟩
    obtain ⟨i, hi⟩ := List.mem_iff_getElem?.mp hnode
    exact ⟨(node, i), List.mem_zipIdx_iff_getElem?.mpr hi, rfl⟩
  · rintro ⟨⟨node, i⟩, hmem, rfl⟩
    exact ⟨node, List.mem_of_getElem? (List.mem_zipIdx_iff_getElem?.mp hmem), rfl⟩

theorem isLeast_bestScore (h : nodes ≠ []) : IsLeast (scores nodes) (bestScore nodes).toNat := by
  have hfold := toNat_foldl_min (candidates nodes) RustInt.u64Max
  rw [← bestScore] at hfold
  obtain ⟨hmax, hall⟩ := foldl_min_le ((candidates nodes).map (·.2.toNat)) RustInt.u64Max.toNat
  refine ⟨?_, fun s hs => hfold ▸ hall s (mem_scores_iff.mp hs)⟩
  rcases foldl_min_mem ((candidates nodes).map (·.2.toNat)) RustInt.u64Max.toNat with hstart | hmem
  · -- no score is below the start of the loop, so they all are the greatest number
    obtain ⟨node, rest, rfl⟩ := List.exists_cons_of_ne_nil h
    have hnode : node.selectionScore.toNat ∈ scores (node :: rest) := ⟨node, List.mem_cons_self, rfl⟩
    have hge := hall _ (mem_scores_iff.mp hnode)
    have hle := node.selectionScore.toNat_lt
    rw [hstart, toNat_u64Max] at hge
    rw [hfold, hstart, toNat_u64Max]
    exact ⟨node, List.mem_cons_self, by omega⟩
  · exact mem_scores_iff.mpr (hfold ▸ hmem)

theorem toNat_limit (nodes : List UpstreamNode) : (limit nodes).toNat =
    max (min ((bestScore nodes).toNat * 2) (2 ^ 64 - 1))
      (min ((bestScore nodes).toNat + 2000) (2 ^ 64 - 1)) := by
  rw [limit, bandLimit, toNat_max, toNat_saturatingMul, toNat_saturatingAdd]
  rfl

theorem bestScore_le_limit (nodes : List UpstreamNode) : bestScore nodes ≤ limit nodes := by
  have := (bestScore nodes).toNat_lt
  rw [UInt64.le_iff_toNat_le, toNat_limit]
  omega

theorem inBand_pos (h : nodes ≠ []) : 0 < inBand nodes := by
  obtain ⟨node, hnode, hbest⟩ := (isLeast_bestScore h).1
  obtain ⟨i, hi⟩ := List.mem_iff_getElem?.mp hnode
  have hle : node.selectionScore ≤ limit nodes := by
    rw [UInt64.le_iff_toNat_le, ← hbest, ← UInt64.le_iff_toNat_le]
    exact bestScore_le_limit nodes
  exact List.countP_pos_iff.mpr ⟨(i, node.selectionScore), mem_candidates.mpr ⟨node, hi, rfl⟩,
    decide_eq_true hle⟩

/-- The loop finds the candidate in the band whose number is left to count. -/
theorem pickLoop_eq (lim : UInt64) {pick seen : Nat} (h : seen ≤ pick) (cs : List (Nat × UInt64)) :
    pickLoop lim pick seen cs = ((cs.filter (·.2 ≤ lim))[pick - seen]?).map (·.1) := by
  induction cs generalizing seen with
  | nil => rfl
  | cons c cs ih =>
    obtain ⟨idx, score⟩ := c
    rw [pickLoop, List.filter_cons]
    by_cases hscore : score ≤ lim
    · simp only [hscore, if_true, decide_true]
      by_cases hseen : seen = pick
      · simp [hseen]
      · rw [if_neg hseen, ih (by omega)]
        obtain ⟨k, hk⟩ : ∃ k, pick - seen = k + 1 := ⟨pick - seen - 1, by omega⟩
        rw [hk, List.getElem?_cons_succ, show pick - (seen + 1) = k by omega]
    · simp only [hscore, if_false, decide_false]
      exact ih h

theorem selectInBand_spec (h : nodes ≠ []) (queryIx : UInt64) : ∃ idx node,
    selectInBand nodes queryIx = some idx ∧ nodes[idx]? = some node ∧
      node.selectionScore ≤ limit nodes := by
  have hne : ¬ (candidates nodes).isEmpty = true := by
    simpa [candidates, List.isEmpty_iff] using h
  have hlt := Nat.mod_lt ((queryIx * 0x9E3779B97F4A7C15) >>> 33).toNat (inBand_pos h)
  rw [inBand, List.countP_eq_length_filter] at hlt
  obtain ⟨c, hc⟩ : ∃ c, ((candidates nodes).filter (·.2 ≤ limit nodes))[
      ((queryIx * 0x9E3779B97F4A7C15) >>> 33).toNat % inBand nodes]? = some c := by
    rw [inBand, List.countP_eq_length_filter]
    exact ⟨_, List.getElem?_eq_getElem hlt⟩
  obtain ⟨hmem, hle⟩ := List.mem_filter.mp (List.mem_of_getElem? hc)
  obtain ⟨node, hnode, hscore⟩ := mem_candidates.mp hmem
  refine ⟨c.1, node, ?_, hnode, hscore ▸ of_decide_eq_true hle⟩
  rw [selectInBand, if_neg hne]
  change pickLoop _ _ 0 _ = _
  rw [pickLoop_eq _ (Nat.zero_le _), Nat.sub_zero, hc]
  rfl

/-! ### The selections -/

theorem selectPrimaryIdx_cases (h : nodes ≠ []) (queryIx : UInt64) : ∃ node idx,
    probe nodes = some (node, idx) ∧
    ((PROBE_INTERVAL ≤ queryIx - node.lastSelected ∧ selectPrimaryIdx nodes queryIx = some idx) ∨
      (¬ PROBE_INTERVAL ≤ queryIx - node.lastSelected ∧
        selectPrimaryIdx nodes queryIx = selectInBand nodes queryIx)) := by
  obtain ⟨⟨node, idx⟩, hprobe⟩ := Option.ne_none_iff_exists'.mp (mt probe_eq_none.mp h)
  refine ⟨node, idx, hprobe, ?_⟩
  rw [selectPrimaryIdx, hprobe]
  by_cases hdue : PROBE_INTERVAL ≤ queryIx - node.lastSelected
  · exact .inl ⟨hdue, if_pos hdue⟩
  · exact .inr ⟨hdue, if_neg hdue⟩

theorem exists_selectPrimaryIdx (h : nodes ≠ []) (queryIx : UInt64) :
    ∃ idx, idx < nodes.length ∧ selectPrimaryIdx nodes queryIx = some idx := by
  obtain ⟨node, idx, hprobe, ⟨-, hidx⟩ | ⟨-, hselect⟩⟩ := selectPrimaryIdx_cases h queryIx
  · exact ⟨idx, (List.getElem?_eq_some_iff.mp (probe_spec hprobe).1).1, hidx⟩
  · obtain ⟨i, other, hi, hother, -⟩ := selectInBand_spec h queryIx
    exact ⟨i, (List.getElem?_eq_some_iff.mp hother).1, hselect.trans hi⟩

theorem selectPrimaryIdx_lt {queryIx : UInt64} {idx : Nat} (h : selectPrimaryIdx nodes queryIx = some idx) :
    idx < nodes.length := by
  rcases eq_or_ne nodes [] with rfl | hne
  · simp [selectPrimaryIdx, probe, selectInBand, candidates] at h
  · obtain ⟨i, hi, hselect⟩ := exists_selectPrimaryIdx hne queryIx
    rwa [Option.some.inj (h.symm.trans hselect)]

/-- The primary is one of the pool: the least recently selected node when that one is at least
`PROBE_INTERVAL` queries behind, or a node with a score near the best one. -/
structure PrimaryChosen (nodes : List UpstreamNode) (queryIx : UInt64) : Prop where
  chosen : ∃ idx node, selectPrimaryIdx nodes queryIx = some idx ∧ nodes[idx]? = some node ∧
    (((∀ other ∈ nodes, node.lastSelected ≤ other.lastSelected) ∧
        node.lastSelected.toNat + PROBE_INTERVAL.toNat ≤ queryIx.toNat) ∨
      ∃ best : UInt64, IsLeast (scores nodes) best.toNat ∧
        node.selectionScore ≤ max (saturatingMul best 2) (saturatingAdd best 2000))
  modulus : inBand nodes ≠ 0

/-- The secondary is another node, and none of the others has a lower score. -/
def SecondaryChosen (nodes : List UpstreamNode) (primaryIdx : Nat) : Prop :=
  ∃ idx node, selectSecondaryIdx nodes primaryIdx = some idx ∧ idx ≠ primaryIdx ∧
    nodes[idx]? = some node ∧
    ∀ i other, i ≠ primaryIdx → nodes[i]? = some other → node.selectionScore ≤ other.selectionScore

theorem secondaryChosen (h : 2 ≤ nodes.length) (primaryIdx : Nat) : SecondaryChosen nodes primaryIdx := by
  -- one of the first two nodes is not the primary
  obtain ⟨i, hi, hne⟩ : ∃ i, i < nodes.length ∧ i ≠ primaryIdx := by
    rcases Nat.eq_zero_or_pos primaryIdx with rfl | hpos
    · exact ⟨1, h, Nat.one_ne_zero⟩
    · exact ⟨0, by omega, by omega⟩
  have hmem : ∀ j other, j ≠ primaryIdx → nodes[j]? = some other →
      (other, j) ∈ nodes.zipIdx.filter (·.2 ≠ primaryIdx) := fun j other hj hother =>
    List.mem_filter.mpr ⟨List.mem_zipIdx_iff_getElem?.mpr hother, decide_eq_true hj⟩
  have hfirst := hmem i nodes[i] hne (List.getElem?_eq_getElem hi)
  have hsome : (nodes.zipIdx.filter (·.2 ≠ primaryIdx)).argmin (·.1.selectionScore.toNat) ≠ none :=
    mt List.argmin_eq_none.mp (List.ne_nil_of_mem hfirst)
  obtain ⟨⟨node, idx⟩, hmin⟩ := Option.ne_none_iff_exists'.mp hsome
  obtain ⟨hnode, hidx⟩ := List.mem_filter.mp (List.argmin_mem hmin)
  refine ⟨idx, node, ?_, of_decide_eq_true hidx, List.mem_zipIdx_iff_getElem?.mp hnode, ?_⟩
  · rw [selectSecondaryIdx, hmin]
    rfl
  · intro j other hj hother
    exact UInt64.le_iff_toNat_le.mpr (List.le_of_mem_argmin
      (f := fun p : UpstreamNode × Nat => p.1.selectionScore.toNat) (hmem j other hj hother) hmin)

/-- The probed node was selected by a query with a higher index, and its score is out of the band. -/
def ProbedAhead (nodes : List UpstreamNode) (queryIx : UInt64) : Prop :=
  ∃ node idx, probe nodes = some (node, idx) ∧ queryIx < node.lastSelected ∧
    node.lastSelected.toNat - queryIx.toNat ≤ 2 ^ 64 - PROBE_INTERVAL.toNat ∧
    limit nodes < node.selectionScore

/-- The wrapping difference reaches the interval: the node is that far behind, or it is ahead. -/
theorem interval_le_sub_iff (queryIx last : UInt64) : PROBE_INTERVAL ≤ queryIx - last ↔
    last.toNat + PROBE_INTERVAL.toNat ≤ queryIx.toNat ∨
      (queryIx < last ∧ last.toNat - queryIx.toNat ≤ 2 ^ 64 - PROBE_INTERVAL.toNat) := by
  have hq := queryIx.toNat_lt
  have hl := last.toNat_lt
  have hinterval : PROBE_INTERVAL.toNat = 100 := rfl
  rw [UInt64.le_iff_toNat_le, UInt64.lt_iff_toNat_lt, UInt64.toNat_sub, hinterval]
  omega

theorem toNat_bestScore_eq {best : UInt64} (h : nodes ≠ []) (hbest : IsLeast (scores nodes) best.toNat) :
    best = bestScore nodes :=
  UInt64.toNat_inj.mp (hbest.unique (isLeast_bestScore h))

/-- The selection is as described except when a node out of the band is probed that is ahead. -/
theorem primaryChosen_iff (h : nodes ≠ []) (queryIx : UInt64) :
    PrimaryChosen nodes queryIx ↔ ¬ ProbedAhead nodes queryIx := by
  obtain ⟨node, idx, hprobe, hcases⟩ := selectPrimaryIdx_cases h queryIx
  obtain ⟨hnode, holdest⟩ := probe_spec hprobe
  constructor
  · rintro ⟨⟨idx', node', hselect, hnode', hwhy⟩, -⟩ ⟨ahead, i, hahead, hlt, hfar, hout⟩
    obtain ⟨rfl, rfl⟩ : node = ahead ∧ idx = i := by simpa [hprobe] using hahead
    have hdue := (interval_le_sub_iff queryIx node.lastSelected).mpr (.inr ⟨hlt, hfar⟩)
    obtain ⟨-, hidx⟩ | ⟨hnot, -⟩ := hcases
    · obtain rfl : idx = idx' := by simpa [hidx] using hselect
      obtain rfl : node = node' := by simpa [hnode] using hnode'
      rcases hwhy with ⟨-, hbehind⟩ | ⟨best, hbest, hle⟩
      · have := UInt64.lt_iff_toNat_lt.mp hlt
        omega
      · rw [toNat_bestScore_eq h hbest] at hle
        exact UInt64.not_lt.mpr hle hout
    · exact hnot hdue
  · intro hahead
    refine ⟨?_, (inBand_pos h).ne'⟩
    have hband : ∀ {other : UpstreamNode}, other.selectionScore ≤ limit nodes → ∃ best : UInt64,
        IsLeast (scores nodes) best.toNat ∧
          other.selectionScore ≤ max (saturatingMul best 2) (saturatingAdd best 2000) :=
      fun hle => ⟨bestScore nodes, isLeast_bestScore h, hle⟩
    obtain ⟨hdue, hidx⟩ | ⟨-, hselect⟩ := hcases
    · refine ⟨idx, node, hidx, hnode, ?_⟩
      rcases (interval_le_sub_iff queryIx node.lastSelected).mp hdue with hbehind | ⟨hlt, hfar⟩
      · exact .inl ⟨fun other ho => UInt64.le_iff_toNat_le.mpr (holdest other ho), hbehind⟩
      · refine .inr (hband (UInt64.not_lt.mp fun hout => ?_))
        exact hahead ⟨node, idx, hprobe, hlt, hfar, hout⟩
    · obtain ⟨i, other, hi, hother, hle⟩ := selectInBand_spec h queryIx
      exact ⟨i, other, hselect.trans hi, hother, .inr (hband hle)⟩

/-- Both selections are as described exactly when no node out of the band is probed that is ahead. -/
theorem selections_iff (nodes : List UpstreamNode) (queryIx : UInt64) (h : nodes ≠ []) :
    (PrimaryChosen nodes queryIx ∧
      (2 ≤ nodes.length → ∀ primaryIdx, SecondaryChosen nodes primaryIdx)) ↔
    ¬ ProbedAhead nodes queryIx :=
  ⟨fun hboth => (primaryChosen_iff h queryIx).mp hboth.1,
    fun hahead => ⟨(primaryChosen_iff h queryIx).mpr hahead, secondaryChosen⟩⟩

/-- A node that answers in 1 ms and one that failed for long, last selected by the given queries. -/
def fastAndFailing (fast failing : UInt64) : List UpstreamNode :=
  [⟨⟨10000000, 20, 1, 256⟩, 0, failing⟩, ⟨⟨1000, 0, 256, 256⟩, 0, fast⟩]

theorem selections_iff_due : fastAndFailing 199 100 ≠ [] ∧
    ((PrimaryChosen (fastAndFailing 199 100) 200 ∧
      (2 ≤ (fastAndFailing 199 100).length → ∀ primaryIdx,
        SecondaryChosen (fastAndFailing 199 100) primaryIdx)) ↔
    ¬ ProbedAhead (fastAndFailing 199 100) 200) :=
  ⟨by decide, selections_iff _ _ (by decide)⟩

/-- Query 5 comes to its selection after queries 6 and 7 have made theirs: the failing node, selected last
by query 6, is probed. -/
theorem failing_node_probed_ahead :
    selectPrimaryIdx (fastAndFailing 7 6) 5 = some 0 ∧ ¬ PrimaryChosen (fastAndFailing 7 6) 5 := by
  refine ⟨by decide +kernel, fun hchosen => (primaryChosen_iff (by decide) 5).mp hchosen ?_⟩
  exact ⟨⟨⟨10000000, 20, 1, 256⟩, 0, 6⟩, 0, by decide +kernel, by decide, by decide, by decide +kernel⟩

end UpstreamPool

end PathDns
