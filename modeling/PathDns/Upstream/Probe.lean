import PathDns.Upstream.Pool
import PathDns.Lib.LongestWait
import PathDns.Lib.Runs

/-!
# Probes over whole runs (`exchange_observed` of `upstream/mod.rs`)

Queries are handled one after another: an index is taken from the counter, a primary is selected and marked
with the index, and the exchange, hedged or not, reports to the health of its nodes. The counter is a
`usize`. Until it wraps around, the marks are the indices of the queries, and the node that waits longest is
probed as soon as it is overdue. Once it has wrapped, a node with a new mark is before every node with an old
one, so the old ones are not probed any more.
-/

namespace PathDns

open Runs RustInt

/-- How the exchange of a node ends. -/
inductive NodeOutcome where
  | ok (rttUs : UInt64)
  | err (isTimeout : Bool)
  | cancelled
deriving DecidableEq, Repr

/-- How a query ends: its primary exchange, and the second one if the hedge timer fires. -/
structure QueryOutcome where
  primary : NodeOutcome
  secondary : Option NodeOutcome
deriving DecidableEq, Repr

/-- What the end of an exchange reports to the health of its node. -/
def UpstreamNode.report (node : UpstreamNode) : NodeOutcome → UpstreamNode
  | .ok rttUs => { node with health := node.health.recordSuccess rttUs }
  | .err isTimeout => { node with health := node.health.recordFailure isTimeout }
  | .cancelled => node

/-- A pool that handles queries. The last two fields are not in the code: the number of queries so far, and
for each node the number of the query that selected it last, 0 at first. -/
structure PoolRun where
  nodes : List UpstreamNode
  next : Nat
  handled : Nat
  selectedAt : Nat → Nat

namespace PoolRun

/-- `UpstreamPool::new` with `n` nodes. -/
def start (n : Nat) (maxInflight : UInt64) : PoolRun where
  nodes := List.replicate n ⟨.new maxInflight, 0, 0⟩
  next := 0
  handled := 0
  selectedAt := fun _ => 0

/-- The second exchange, if there is one and another node. -/
def hedge (nodes : List UpstreamNode) (primaryIdx : Nat) : Option NodeOutcome → List UpstreamNode
  | none => nodes
  | some outcome =>
    match UpstreamPool.selectSecondaryIdx nodes primaryIdx with
    | some idx => nodes.modify idx (·.report outcome)
    | none => nodes

/-- The query index taken from the counter. -/
def queryIx (s : PoolRun) : UInt64 := UInt64.ofNat s.next

/-- The primary is marked and the exchanges report. -/
def serve (usizeBits : Nat) (s : PoolRun) (primaryIdx : Nat) (outcome : QueryOutcome) : PoolRun :=
  let marked := s.nodes.modify primaryIdx fun node => { node with lastSelected := s.queryIx }
  { nodes := (hedge marked primaryIdx outcome.secondary).modify primaryIdx (·.report outcome.primary)
    next := (s.next + 1) % 2 ^ usizeBits
    handled := s.handled + 1
    selectedAt := fun i => if i = primaryIdx then s.handled else s.selectedAt i }

/-- `exchange_observed` for one query at a time. -/
def handle (usizeBits : Nat) (s : PoolRun) (outcome : QueryOutcome) : Option PoolRun :=
  (UpstreamPool.selectPrimaryIdx s.nodes s.queryIx).map (s.serve usizeBits · outcome)

/-! ### What a query does -/

theorem lastSelected_report (node : UpstreamNode) (outcome : NodeOutcome) :
    (node.report outcome).lastSelected = node.lastSelected := by
  cases outcome <;> rfl

theorem getElem?_hedge {nodes : List UpstreamNode} {i : Nat} {node : UpstreamNode}
    (h : nodes[i]? = some node) (primaryIdx : Nat) (outcome : Option NodeOutcome) : ∃ node',
    (hedge nodes primaryIdx outcome)[i]? = some node' ∧ node'.lastSelected = node.lastSelected := by
  cases outcome with
  | none => exact ⟨node, h, rfl⟩
  | some outcome =>
    rw [hedge]
    split
    · rename_i idx _
      rw [List.getElem?_modify, h]
      by_cases hidx : idx = i
      · exact ⟨node.report outcome, by simp [hidx], lastSelected_report _ _⟩
      · exact ⟨node, by simp [hidx], rfl⟩
    · exact ⟨node, h, rfl⟩

theorem length_hedge (nodes : List UpstreamNode) (primaryIdx : Nat) (outcome : Option NodeOutcome) :
    (hedge nodes primaryIdx outcome).length = nodes.length := by
  cases outcome with
  | none => rfl
  | some outcome =>
    rw [hedge]
    split <;> simp

theorem length_serve (usizeBits : Nat) (s : PoolRun) (primaryIdx : Nat) (outcome : QueryOutcome) :
    (s.serve usizeBits primaryIdx outcome).nodes.length = s.nodes.length := by
  simp [serve, length_hedge]

theorem getElem?_serve (usizeBits : Nat) {s : PoolRun} {i : Nat} {node : UpstreamNode}
    (h : s.nodes[i]? = some node) (primaryIdx : Nat) (outcome : QueryOutcome) : ∃ node',
    (s.serve usizeBits primaryIdx outcome).nodes[i]? = some node' ∧
      node'.lastSelected = if i = primaryIdx then s.queryIx else node.lastSelected := by
  obtain ⟨marked, hmarked, hlast⟩ : ∃ marked,
      (s.nodes.modify primaryIdx fun node => { node with lastSelected := s.queryIx })[i]? = some marked ∧
        marked.lastSelected = if i = primaryIdx then s.queryIx else node.lastSelected := by
    rw [List.getElem?_modify, h]
    by_cases hi : primaryIdx = i
    · exact ⟨{ node with lastSelected := s.queryIx }, by simp [hi], by simp [hi]⟩
    · exact ⟨node, by simp [hi], by rw [if_neg (Ne.symm hi)]⟩
  obtain ⟨hedged, hhedged, hsame⟩ := getElem?_hedge hmarked primaryIdx outcome.secondary
  refine ⟨if primaryIdx = i then hedged.report outcome.primary else hedged, ?_, ?_⟩
  · rw [serve, List.getElem?_modify, hhedged]
    by_cases hi : primaryIdx = i <;> simp [hi]
  · rw [← hlast, ← hsame]
    split_ifs
    · exact lastSelected_report _ _
    · rfl

theorem getElem?_serve_unhedged (usizeBits : Nat) (s : PoolRun) (primaryIdx i : Nat)
    (outcome : NodeOutcome) :
    (s.serve usizeBits primaryIdx ⟨outcome, none⟩).nodes[i]? = (s.nodes[i]?).map fun node =>
      if primaryIdx = i then UpstreamNode.report { node with lastSelected := s.queryIx } outcome
      else node := by
  rw [serve, hedge, List.getElem?_modify, List.getElem?_modify]
  cases s.nodes[i]? <;> by_cases hi : primaryIdx = i <;> simp [hi]

/-! ### Marks and indices -/

/-- The counter and the marks are the numbers of the queries, as far as a `usize` goes. -/
structure Tracks (usizeBits n : Nat) (s : PoolRun) : Prop where
  length : s.nodes.length = n
  next : s.next = s.handled % 2 ^ usizeBits
  marks : ∀ i node, s.nodes[i]? = some node →
    node.lastSelected = UInt64.ofNat (s.selectedAt i % 2 ^ usizeBits)
  before : ∀ i, s.selectedAt i = 0 ∨ s.selectedAt i < s.handled

section Tracks

variable {usizeBits n : Nat} {s s' : PoolRun}

theorem tracks_start (maxInflight : UInt64) : Tracks usizeBits n (start n maxInflight) where
  length := List.length_replicate
  next := (Nat.zero_mod _).symm
  marks i node h := by
    rw [start, List.getElem?_replicate] at h
    split_ifs at h
    obtain rfl := Option.some.inj h
    rw [start, Nat.zero_mod]
    rfl
  before _ := .inl rfl

theorem Tracks.le (h : Tracks usizeBits n s) (i : Nat) : s.selectedAt i ≤ s.handled := by
  rcases h.before i with h | h <;> omega

theorem Tracks.serve (h : Tracks usizeBits n s) (primaryIdx : Nat) (outcome : QueryOutcome) :
    Tracks usizeBits n (s.serve usizeBits primaryIdx outcome) where
  length := (length_serve _ _ _ _).trans h.length
  next := by
    change (s.next + 1) % 2 ^ usizeBits = (s.handled + 1) % 2 ^ usizeBits
    rw [h.next, Nat.mod_add_mod]
  marks i node' hnode' := by
    have hi : i < s.nodes.length := by
      rw [← length_serve usizeBits s primaryIdx outcome]
      exact (List.getElem?_eq_some_iff.mp hnode').1
    have hnode := List.getElem?_eq_getElem hi
    obtain ⟨node, hserved, hlast⟩ := getElem?_serve usizeBits hnode primaryIdx outcome
    obtain rfl := Option.some.inj (hserved.symm.trans hnode')
    change node.lastSelected = UInt64.ofNat ((if i = primaryIdx then s.handled else s.selectedAt i) % _)
    rw [hlast]
    split_ifs
    · rw [queryIx, h.next]
    · exact h.marks i _ hnode
  before i := by
    change (if i = primaryIdx then s.handled else s.selectedAt i) = 0 ∨
      (if i = primaryIdx then s.handled else s.selectedAt i) < s.handled + 1
    have := h.le i
    split_ifs <;> omega

theorem toNat_ofNat_mod (hbits : usizeBits ≤ 64) (k : Nat) :
    (UInt64.ofNat (k % 2 ^ usizeBits)).toNat = k % 2 ^ usizeBits := by
  rw [UInt64.toNat_ofNat']
  refine Nat.mod_eq_of_lt ((Nat.mod_lt _ (Nat.two_pow_pos _)).trans_le ?_)
  exact Nat.pow_le_pow_right (by omega) hbits

variable {node : UpstreamNode}

theorem Tracks.toNat_mark (h : Tracks usizeBits n s) (hbits : usizeBits ≤ 64) {i : Nat}
    (hnode : s.nodes[i]? = some node) : node.lastSelected.toNat = s.selectedAt i % 2 ^ usizeBits := by
  rw [h.marks i node hnode, toNat_ofNat_mod hbits]

theorem Tracks.toNat_queryIx (h : Tracks usizeBits n s) (hbits : usizeBits ≤ 64) :
    s.queryIx.toNat = s.handled % 2 ^ usizeBits := by
  rw [queryIx, h.next, toNat_ofNat_mod hbits]

theorem Tracks.handle_cases (h : Tracks usizeBits n s) (hn : 0 < n) (outcome : QueryOutcome) :
    ∃ idx, idx < n ∧ UpstreamPool.selectPrimaryIdx s.nodes s.queryIx = some idx ∧
      s.handle usizeBits outcome = some (s.serve usizeBits idx outcome) := by
  have hne : s.nodes ≠ [] := List.ne_nil_of_length_pos (h.length ▸ hn)
  obtain ⟨idx, hidx, hselect⟩ := UpstreamPool.exists_selectPrimaryIdx hne s.queryIx
  exact ⟨idx, h.length ▸ hidx, hselect, by rw [handle, hselect]; rfl⟩

/-! ### The first lap of the counter -/

/-- For how many queries each node was not selected. -/
def waits (n : Nat) (s : PoolRun) (i : Fin n) : Nat := s.handled - s.selectedAt i

theorem Tracks.waits_serve (h : Tracks usizeBits n s) (idx : Fin n) (outcome : QueryOutcome) :
    (s.serve usizeBits idx outcome).waits n = LongestWait.serve (s.waits n) idx := by
  funext i
  rw [LongestWait.serve, waits, waits]
  change s.handled + 1 - (if (i : Nat) = idx then s.handled else s.selectedAt i) = _
  have := h.le i
  by_cases hi : i = idx
  · rw [if_pos (congrArg Fin.val hi), if_pos hi]
    omega
  · rw [if_neg (fun heq => hi (Fin.ext heq)), if_neg hi]
    omega

/-- Before the counter wraps, the node that waits longest is probed when one is overdue. -/
theorem Tracks.fair (h : Tracks usizeBits n s) (hbits : usizeBits ≤ 64)
    (hlap : s.handled < 2 ^ usizeBits) {idx : Fin n}
    (hselect : UpstreamPool.selectPrimaryIdx s.nodes s.queryIx = some idx.val) :
    LongestWait.Fair PROBE_INTERVAL.toNat (s.waits n) idx := by
  rintro ⟨i, hoverdue⟩ j
  have hinterval : PROBE_INTERVAL.toNat = 100 := rfl
  rw [waits, hinterval] at hoverdue
  have hne : s.nodes ≠ [] := List.ne_nil_of_length_pos (h.length ▸ i.pos)
  have hexact : ∀ (k : Nat) (node : UpstreamNode), s.nodes[k]? = some node →
      node.lastSelected.toNat = s.selectedAt k := fun k node hnode => by
    rw [h.toNat_mark hbits hnode, Nat.mod_eq_of_lt ((h.le k).trans_lt hlap)]
  obtain ⟨node, probed, hprobe, hcases⟩ := UpstreamPool.selectPrimaryIdx_cases hne s.queryIx
  obtain ⟨hnode, holdest⟩ := UpstreamPool.probe_spec hprobe
  have hmin : ∀ k : Fin n, s.selectedAt probed ≤ s.selectedAt k := fun k => by
    have hk : k.val < s.nodes.length := h.length ▸ k.isLt
    have hget := List.getElem?_eq_getElem hk
    rw [← hexact probed node hnode, ← hexact k _ hget]
    exact holdest _ (List.mem_of_getElem? hget)
  have hdue : PROBE_INTERVAL ≤ s.queryIx - node.lastSelected := by
    refine (UpstreamPool.interval_le_sub_iff _ _).mpr (.inl ?_)
    rw [hexact probed node hnode, h.toNat_queryIx hbits, Nat.mod_eq_of_lt hlap, hinterval]
    have := hmin i
    omega
  obtain ⟨-, hprobed⟩ | ⟨hnot, -⟩ := hcases
  · obtain rfl : idx.val = probed := Option.some.inj (hselect.symm.trans hprobed)
    rw [waits, waits]
    exact Nat.sub_le_sub_left (hmin j) _
  · exact absurd hdue hnot

/-- The invariant of a run within the first lap. -/
structure FirstLap (usizeBits n : Nat) (s : PoolRun) : Prop where
  tracks : Tracks usizeBits n s
  staggered : LongestWait.Staggered PROBE_INTERVAL.toNat (s.waits n)

theorem FirstLap.handle (h : FirstLap usizeBits n s) (hbits : usizeBits ≤ 64)
    (hlap : s.handled < 2 ^ usizeBits) {outcome : QueryOutcome}
    (hstep : s.handle usizeBits outcome = some s') :
    FirstLap usizeBits n s' ∧ s'.handled = s.handled + 1 := by
  obtain ⟨idx, hselect, rfl⟩ := Option.map_eq_some_iff.mp hstep
  have hidx : idx < n := h.tracks.length ▸ UpstreamPool.selectPrimaryIdx_lt hselect
  refine ⟨⟨h.tracks.serve idx outcome, ?_⟩, rfl⟩
  rw [h.tracks.waits_serve ⟨idx, hidx⟩ outcome]
  exact h.staggered.serve (by decide) (h.tracks.fair hbits hlap hselect)

theorem firstLap_start (maxInflight : UInt64) : FirstLap usizeBits n (start n maxInflight) :=
  ⟨tracks_start maxInflight, LongestWait.staggered_of_le fun _ => Nat.zero_le _⟩

variable {outcomes : List QueryOutcome}

theorem FirstLap.after (h : FirstLap usizeBits n s) (hbits : usizeBits ≤ 64)
    (hlap : s.handled + outcomes.length ≤ 2 ^ usizeBits)
    (hrun : run (PoolRun.handle usizeBits) s outcomes = some s') :
    FirstLap usizeBits n s' ∧ s'.handled = s.handled + outcomes.length := by
  induction outcomes generalizing s with
  | nil =>
    obtain rfl := Option.some.inj hrun
    exact ⟨h, rfl⟩
  | cons outcome outcomes ih =>
    rw [List.length_cons] at hlap
    obtain ⟨s1, hstep, hrun⟩ := Option.bind_eq_some_iff.mp hrun
    obtain ⟨h1, hhandled⟩ := h.handle hbits (by omega) hstep
    obtain ⟨h2, hlength⟩ := ih h1 (by omega) hrun
    refine ⟨h2, ?_⟩
    rw [List.length_cons]
    omega

/-- No node waits longer than the interval and the number of the other nodes. -/
theorem FirstLap.le (h : FirstLap usizeBits n s) {i : Nat} (hi : i < n) :
    s.handled - s.selectedAt i ≤ PROBE_INTERVAL.toNat + n - 1 := by
  have hlt := h.staggered.lt ⟨i, hi⟩
  rw [waits, Fintype.card_fin] at hlt
  exact Nat.le_sub_one_of_lt hlt

/-- A single node is selected by every query. -/
structure Alone (n : Nat) (s : PoolRun) : Prop where
  length : s.nodes.length = n
  recent : ∀ i < n, s.handled ≤ s.selectedAt i + 1

theorem Alone.handle (h : Alone n s) (hn : n ≤ 1) {outcome : QueryOutcome}
    (hstep : s.handle usizeBits outcome = some s') : Alone n s' := by
  obtain ⟨idx, hselect, rfl⟩ := Option.map_eq_some_iff.mp hstep
  have hidx : idx < n := h.length ▸ UpstreamPool.selectPrimaryIdx_lt hselect
  refine ⟨(length_serve _ _ _ _).trans h.length, fun i hi => ?_⟩
  change s.handled + 1 ≤ (if i = idx then s.handled else s.selectedAt i) + 1
  rw [if_pos (by omega)]

theorem alone_run (maxInflight : UInt64) (hn : n ≤ 1)
    (hrun : run (handle usizeBits) (start n maxInflight) outcomes = some s) : Alone n s := by
  refine run_invariant (C := fun _ _ => True) (fun s e s' hs _ hstep => hs.handle hn hstep) ?_
    (meets_true _ _) hrun
  exact ⟨List.length_replicate, fun i _ => Nat.zero_le _⟩

/-! ### After the counter has wrapped -/

theorem selectionScore_idle (h : node.activeInflight = 0) : node.selectionScore = node.health.ewmaRttUs := by
  have hinflight : node.inflight = 0 := by rw [UpstreamNode.inflight, h]; rfl
  have hwindow : ∀ window : UInt64, ¬ (0 < window ∧ window ≤ 0) := fun window hw =>
    UInt64.not_lt.mpr hw.2 hw.1
  have hbase : saturatingMul node.health.ewmaRttUs 1 = node.health.ewmaRttUs := by
    have hlt : node.health.ewmaRttUs.toNat * (1 : UInt64).toNat < 2 ^ 64 := by
      rw [UInt64.toNat_one, Nat.mul_one]
      exact node.health.ewmaRttUs.toNat_lt
    rw [saturatingMul, if_pos hlt, UInt64.mul_one]
  simp only [UpstreamNode.selectionScore, hinflight, hwindow, if_false]
  split_ifs with hewma
  · exact hewma.symm
  · exact hbase

/-- One node answers within a microsecond and was selected last, since the counter wrapped; the others
failed, and were selected before it wrapped. -/
structure Captured (usizeBits n : Nat) (x : Nat) (s : PoolRun) : Prop where
  tracks : Tracks usizeBits n s
  lt : x < n
  wrapped : 2 ^ usizeBits < s.handled
  here : s.selectedAt x + 1 = s.handled
  fast : ∀ node, s.nodes[x]? = some node → node.activeInflight = 0 ∧ node.health.ewmaRttUs = 1
  slow : ∀ i node, i ≠ x → s.nodes[i]? = some node →
    node.activeInflight = 0 ∧ 50000 ≤ node.health.ewmaRttUs
  old : ∀ i, i ≠ x → i < n →
    s.selectedAt i < 2 ^ usizeBits ∧ 2 ^ usizeBits ≤ s.selectedAt i + (PROBE_INTERVAL.toNat + n - 1)

variable {x : Nat}

theorem Captured.eq_of_le_limit (h : Captured usizeBits n x s) {i : Nat} (hnode : s.nodes[i]? = some node)
    (hle : node.selectionScore ≤ UpstreamPool.limit s.nodes) : i = x := by
  have hx : x < s.nodes.length := h.tracks.length ▸ h.lt
  have hgetx := List.getElem?_eq_getElem hx
  obtain ⟨hidle, hewma⟩ := h.fast _ hgetx
  have hone : (s.nodes[x]).selectionScore.toNat = 1 := by
    rw [selectionScore_idle hidle, hewma]
    rfl
  have hleast := UpstreamPool.isLeast_bestScore (List.ne_nil_of_length_pos (Nat.zero_lt_of_lt hx))
  have hbest : (UpstreamPool.bestScore s.nodes).toNat ≤ 1 :=
    hleast.2 ⟨_, List.getElem_mem hx, hone.symm⟩
  by_contra hne
  obtain ⟨hidle', hslow⟩ := h.slow i node hne hnode
  rw [UInt64.le_iff_toNat_le, UpstreamPool.toNat_limit, selectionScore_idle hidle'] at hle
  rw [UInt64.le_iff_toNat_le] at hslow
  change 50000 ≤ _ at hslow
  omega

/-- Its mark is the least one, and only it is in the band: it is selected again. -/
theorem Captured.selects (h : Captured usizeBits n x s) (hbits : usizeBits ≤ 64)
    (hroom : s.handled + PROBE_INTERVAL.toNat + n ≤ 2 * 2 ^ usizeBits) :
    UpstreamPool.selectPrimaryIdx s.nodes s.queryIx = some x := by
  have hx : x < s.nodes.length := h.tracks.length ▸ h.lt
  have hne : s.nodes ≠ [] := List.ne_nil_of_length_pos (Nat.zero_lt_of_lt hx)
  have hgetx := List.getElem?_eq_getElem hx
  have hinterval : PROBE_INTERVAL.toNat = 100 := rfl
  have hwrapped := h.wrapped
  have hhere := h.here
  have hmark : (s.nodes[x]).lastSelected.toNat = s.handled - 1 - 2 ^ usizeBits := by
    rw [h.tracks.toNat_mark hbits hgetx, Nat.mod_eq_sub_mod (by omega), Nat.mod_eq_of_lt (by omega)]
    omega
  obtain ⟨node, idx, hprobe, ⟨-, hselect⟩ | ⟨-, hselect⟩⟩ := UpstreamPool.selectPrimaryIdx_cases hne s.queryIx
  · obtain ⟨hnode, holdest⟩ := UpstreamPool.probe_spec hprobe
    have hle := holdest _ (List.getElem_mem hx)
    rw [hselect]
    by_contra hother
    have hidx : idx ≠ x := fun heq => hother (congrArg some heq)
    obtain ⟨hlow, hhigh⟩ := h.old idx hidx (h.tracks.length ▸ (List.getElem?_eq_some_iff.mp hnode).1)
    rw [h.tracks.toNat_mark hbits hnode, Nat.mod_eq_of_lt hlow, hmark] at hle
    omega
  · obtain ⟨i, other, hi, hother, hle⟩ := UpstreamPool.selectInBand_spec hne s.queryIx
    rw [hselect, hi, h.eq_of_le_limit hother hle]

/-- A query that is answered within a microsecond. -/
def answered : QueryOutcome := ⟨.ok 1, none⟩

/-- A query that fails. -/
def failed : QueryOutcome := ⟨.err false, none⟩

theorem ewmaRttUs_recordSuccess_one {h : HealthStats} (hewma : h.ewmaRttUs = 1 ∨ h.adopts = true) :
    (h.recordSuccess 1).ewmaRttUs = 1 := by
  rw [HealthStats.ewmaRttUs_recordSuccess]
  split_ifs with hadopts
  · rfl
  · obtain hewma | hewma := hewma
    · rw [hewma]
      rfl
    · exact absurd hewma hadopts

/-- A node that is answered at once becomes or stays the captured one. -/
theorem Tracks.capture (h : Tracks usizeBits n s) (hx : x < n) (hwrapped : 2 ^ usizeBits ≤ s.handled)
    (hfast : ∀ node, s.nodes[x]? = some node →
      node.activeInflight = 0 ∧ (node.health.ewmaRttUs = 1 ∨ node.health.adopts = true))
    (hslow : ∀ i node, i ≠ x → s.nodes[i]? = some node →
      node.activeInflight = 0 ∧ 50000 ≤ node.health.ewmaRttUs)
    (hold : ∀ i, i ≠ x → i < n →
      s.selectedAt i < 2 ^ usizeBits ∧ 2 ^ usizeBits ≤ s.selectedAt i + (PROBE_INTERVAL.toNat + n - 1)) :
    Captured usizeBits n x (s.serve usizeBits x answered) := by
  constructor
  · exact h.serve x answered
  · exact hx
  · exact Nat.lt_succ_of_le hwrapped
  · exact congrArg (· + 1) (if_pos rfl)
  · intro node' hnode'
    rw [answered, getElem?_serve_unhedged, Option.map_eq_some_iff] at hnode'
    obtain ⟨node, hnode, rfl⟩ := hnode'
    rw [if_pos rfl]
    exact (hfast node hnode).imp_right ewmaRttUs_recordSuccess_one
  · intro i node' hi hnode'
    rw [answered, getElem?_serve_unhedged, Option.map_eq_some_iff] at hnode'
    obtain ⟨node, hnode, rfl⟩ := hnode'
    rw [if_neg (Ne.symm hi)]
    exact hslow i node hi hnode
  · intro i hi hlt
    have hsame : (s.serve usizeBits x answered).selectedAt i = s.selectedAt i := if_neg hi
    rw [hsame]
    exact hold i hi hlt

theorem Captured.handle (h : Captured usizeBits n x s) (hbits : usizeBits ≤ 64)
    (hroom : s.handled + PROBE_INTERVAL.toNat + n ≤ 2 * 2 ^ usizeBits) : ∃ s',
    s.handle usizeBits answered = some s' ∧ Captured usizeBits n x s' ∧ s'.handled = s.handled + 1 := by
  have hselects := h.selects hbits hroom
  refine ⟨s.serve usizeBits x answered, by rw [PoolRun.handle, hselects]; rfl, ?_, rfl⟩
  exact h.tracks.capture h.lt h.wrapped.le (fun node hnode => (h.fast node hnode).imp_right .inl) h.slow h.old

/-- No node has an exchange in flight or a failure. -/
def Calm (s : PoolRun) : Prop :=
  ∀ (i : Nat) (node : UpstreamNode), s.nodes[i]? = some node →
    node.activeInflight = 0 ∧ node.health.consecutiveFailures = 0

theorem Calm.serve (h : Calm s) (idx : Nat) : Calm (s.serve usizeBits idx answered) := by
  intro i node' hnode'
  rw [answered, getElem?_serve_unhedged, Option.map_eq_some_iff] at hnode'
  obtain ⟨node, hnode, rfl⟩ := hnode'
  split_ifs
  · exact ⟨(h i node hnode).1, rfl⟩
  · exact h i node hnode

/-- All queries fail since query `since`: a node that was selected has failures and a raised estimate. -/
def Failing (since : Nat) (s : PoolRun) : Prop :=
  ∀ (i : Nat) (node : UpstreamNode), s.nodes[i]? = some node → node.activeInflight = 0 ∧
    node.health.consecutiveFailures.toNat ≤ s.handled - since ∧
    (since ≤ s.selectedAt i →
      1 ≤ node.health.consecutiveFailures.toNat ∧ 50000 ≤ node.health.ewmaRttUs)

theorem Calm.failing (h : Calm s) (htracks : Tracks usizeBits n s) (hpos : 0 < s.handled) :
    Failing s.handled s := by
  intro i node hnode
  obtain ⟨hidle, hnone⟩ := h i node hnode
  refine ⟨hidle, by rw [hnone]; exact Nat.zero_le _, fun hsince => ?_⟩
  rcases htracks.before i with hzero | hlt <;> omega

theorem Failing.serve {since : Nat} (h : Failing since s) (hsince : since ≤ s.handled)
    (hfew : s.handled + 1 - since < 2 ^ 32) (idx : Nat) : Failing since (s.serve usizeBits idx failed) := by
  intro i node' hnode'
  rw [failed, getElem?_serve_unhedged, Option.map_eq_some_iff] at hnode'
  obtain ⟨node, hnode, rfl⟩ := hnode'
  obtain ⟨hidle, hcount, hselected⟩ := h i node hnode
  change _ ∧ _ ≤ s.handled + 1 - since ∧ (since ≤ (if i = idx then s.handled else s.selectedAt i) → _)
  split_ifs with hidx heq
  · -- the count does not wrap around
    have hadd : (node.health.consecutiveFailures + 1).toNat = node.health.consecutiveFailures.toNat + 1 := by
      rw [UInt32.toNat_add]
      exact Nat.mod_eq_of_lt (by change _ + 1 < 2 ^ 32; omega)
    change node.activeInflight = 0 ∧ (node.health.consecutiveFailures + 1).toNat ≤ _ ∧
      (_ → 1 ≤ (node.health.consecutiveFailures + 1).toNat ∧
        50000 ≤ (node.health.recordFailure false).ewmaRttUs)
    rw [hadd, UInt64.le_iff_toNat_le]
    exact ⟨hidle, by omega, fun _ => ⟨by omega, (node.health.recordFailure_bounds false).1⟩⟩
  · exact absurd hidx.symm heq
  · exact absurd ‹i = idx›.symm hidx
  · exact ⟨hidle, by omega, hselected⟩

/-- When the counter wraps after failures of all nodes, the next node that is selected is captured. -/
theorem FirstLap.capture (h : FirstLap usizeBits n s) (hn : 0 < n) (hlap : s.handled = 2 ^ usizeBits)
    {since : Nat} (hfailing : Failing since s) (hsince : since + (PROBE_INTERVAL.toNat + n) ≤ s.handled) :
    ∃ s' x, s.handle usizeBits answered = some s' ∧ Captured usizeBits n x s' ∧
      s'.handled = s.handled + 1 := by
  obtain ⟨x, hx, -, hstep⟩ := h.tracks.handle_cases hn answered
  -- within the last interval every node was selected, and its exchange failed
  have hrecent : ∀ {i node}, s.nodes[i]? = some node → since ≤ s.selectedAt i := by
    intro i node hnode
    have hwait := h.le (h.tracks.length ▸ (List.getElem?_eq_some_iff.mp hnode).1 : i < n)
    omega
  refine ⟨_, x, hstep, h.tracks.capture hx hlap.ge ?_ ?_ ?_, rfl⟩
  · intro node hnode
    obtain ⟨hidle, -, hselected⟩ := hfailing x node hnode
    have hfailures := (hselected (hrecent hnode)).1
    refine ⟨hidle, .inr ?_⟩
    rw [HealthStats.adopts, Bool.or_eq_true, bne_iff_ne]
    refine .inr fun hzero => ?_
    rw [hzero] at hfailures
    exact absurd hfailures (by decide)
  · intro i node _ hnode
    obtain ⟨hidle, -, hselected⟩ := hfailing i node hnode
    exact ⟨hidle, (hselected (hrecent hnode)).2⟩
  · intro i _ hin
    have hwait := h.le hin
    have hpos := Nat.two_pow_pos usizeBits
    rcases h.tracks.before i with hzero | hbefore <;> omega

theorem calm_start (maxInflight : UInt64) : Calm (start n maxInflight) := by
  intro i node hnode
  rw [start, List.getElem?_replicate] at hnode
  split_ifs at hnode
  obtain rfl := Option.some.inj hnode
  exact ⟨rfl, rfl⟩

theorem exists_run_calm (maxInflight : UInt64) (hbits : usizeBits ≤ 64) (hn : 0 < n) {m : Nat}
    (hm : m ≤ 2 ^ usizeBits) : ∃ s,
    run (handle usizeBits) (start n maxInflight) (List.replicate m answered) = some s ∧
      FirstLap usizeBits n s ∧ Calm s ∧ s.handled = m := by
  refine exists_run_replicate (J := fun k s => FirstLap usizeBits n s ∧ Calm s ∧ s.handled = k)
    ?_ ⟨firstLap_start maxInflight, calm_start maxInflight, rfl⟩
  rintro k s hk ⟨hlap, hcalm, rfl⟩
  obtain ⟨idx, -, -, hstep⟩ := hlap.tracks.handle_cases hn answered
  obtain ⟨hlap', hhandled⟩ := hlap.handle hbits (by omega) hstep
  exact ⟨_, hstep, hlap', hcalm.serve idx, hhandled⟩

theorem exists_run_failing (hbits : usizeBits ≤ 64) (hn : 0 < n) (hlap : FirstLap usizeBits n s)
    (hcalm : Calm s) (hpos : 0 < s.handled) {m : Nat} (hm : s.handled + m ≤ 2 ^ usizeBits)
    (hfew : m < 2 ^ 32) : ∃ s',
    run (handle usizeBits) s (List.replicate m failed) = some s' ∧
      FirstLap usizeBits n s' ∧ Failing s.handled s' ∧ s'.handled = s.handled + m := by
  refine exists_run_replicate
    (J := fun k t => FirstLap usizeBits n t ∧ Failing s.handled t ∧ t.handled = s.handled + k)
    ?_ ⟨hlap, hcalm.failing hlap.tracks hpos, rfl⟩
  rintro k t hk ⟨hlap, hfailing, hhandled⟩
  obtain ⟨idx, -, -, hstep⟩ := hlap.tracks.handle_cases hn failed
  obtain ⟨hlap', hhandled'⟩ := hlap.handle hbits (by omega) hstep
  exact ⟨_, hstep, hlap', hfailing.serve (by omega) (by omega) idx, by omega⟩

theorem Captured.exists_run (h : Captured usizeBits n x s) (hbits : usizeBits ≤ 64) {m : Nat}
    (hroom : s.handled + m + PROBE_INTERVAL.toNat + n ≤ 2 * 2 ^ usizeBits) : ∃ s',
    run (PoolRun.handle usizeBits) s (List.replicate m answered) = some s' ∧
      Captured usizeBits n x s' ∧ s'.handled = s.handled + m := by
  refine exists_run_replicate
    (J := fun k t => Captured usizeBits n x t ∧ t.handled = s.handled + k) ?_ ⟨h, rfl⟩
  rintro k t hk ⟨hcaptured, hhandled⟩
  obtain ⟨t', hstep, hcaptured', hhandled'⟩ := hcaptured.handle hbits (by omega)
  exact ⟨t', hstep, hcaptured', by omega⟩

/-- The last queries before the counter wraps fail, the later ones are answered: soon after, a node was not
selected for longer than the bound. -/
def starvingRun (usizeBits n : Nat) : List QueryOutcome :=
  List.replicate (2 ^ usizeBits - (PROBE_INTERVAL.toNat + n)) answered ++
    (List.replicate (PROBE_INTERVAL.toNat + n) failed ++
      ([answered] ++ List.replicate (PROBE_INTERVAL.toNat + n) answered))

theorem length_starvingRun (h : PROBE_INTERVAL.toNat + n ≤ 2 ^ usizeBits) :
    (starvingRun usizeBits n).length = 2 ^ usizeBits + 1 + (PROBE_INTERVAL.toNat + n) := by
  simp only [starvingRun, List.length_append, List.length_replicate, List.length_singleton]
  omega

theorem exists_starved (maxInflight : UInt64) (hbits : 32 ≤ usizeBits ∧ usizeBits ≤ 64) (hn : 2 ≤ n)
    (hsmall : n + 200 ≤ 2 ^ 31) : ∃ s,
    run (handle usizeBits) (start n maxInflight) (starvingRun usizeBits n) = some s ∧
      ∃ i < n, PROBE_INTERVAL.toNat + n - 1 < s.handled - s.selectedAt i := by
  have hinterval : PROBE_INTERVAL.toNat = 100 := rfl
  have hsize : 2 ^ 32 ≤ 2 ^ usizeBits := Nat.pow_le_pow_right (by omega) hbits.1
  obtain ⟨s1, hrun1, hlap1, hcalm, hhandled1⟩ := exists_run_calm (n := n) maxInflight hbits.2 (by omega)
    (Nat.sub_le (2 ^ usizeBits) (PROBE_INTERVAL.toNat + n))
  obtain ⟨s2, hrun2, hlap2, hfailing, hhandled2⟩ := exists_run_failing hbits.2 (by omega) hlap1 hcalm
    (by omega) (m := PROBE_INTERVAL.toNat + n) (by omega) (by omega)
  obtain ⟨s3, x, hstep, hcaptured, hhandled3⟩ := hlap2.capture (by omega) (by omega) hfailing (by omega)
  obtain ⟨s4, hrun4, hcaptured4, hhandled4⟩ := hcaptured.exists_run hbits.2
    (m := PROBE_INTERVAL.toNat + n) (by omega)
  refine ⟨s4, ?_, ?_⟩
  · rw [starvingRun, run_append, hrun1, Option.bind_some, run_append, hrun2, Option.bind_some, run_append,
      run, hstep, Option.bind_some, run, Option.bind_some, hrun4]
  · -- another node than the captured one
    obtain ⟨i, hi, hne⟩ : ∃ i, i < n ∧ i ≠ x := by
      rcases Nat.eq_zero_or_pos x with rfl | hpos
      · exact ⟨1, hn, Nat.one_ne_zero⟩
      · exact ⟨0, by omega, by omega⟩
    have hold := (hcaptured4.old i hne hi).1
    exact ⟨i, hi, by omega⟩

/-- At each of the first `k` laps of the counter, and in every run of queries, no node was left out for more
than `PROBE_INTERVAL + n - 1` queries: exactly for one lap, or for a single node. -/
theorem never_starved_iff (usizeBits n k : Nat) (maxInflight : UInt64)
    (hbits : 32 ≤ usizeBits ∧ usizeBits ≤ 64) (hsmall : n + 200 ≤ 2 ^ 31) :
    (∀ outcomes s, outcomes.length < k * 2 ^ usizeBits →
      run (handle usizeBits) (start n maxInflight) outcomes = some s →
      ∀ i < n, s.handled - s.selectedAt i ≤ PROBE_INTERVAL.toNat + n - 1) ↔
    n ≤ 1 ∨ k ≤ 1 := by
  have hinterval : PROBE_INTERVAL.toNat = 100 := rfl
  constructor
  · intro hbounded
    by_contra hnot
    obtain ⟨hn, hk⟩ : 2 ≤ n ∧ 2 ≤ k := by omega
    obtain ⟨s, hrun, i, hi, hstarved⟩ := exists_starved maxInflight hbits hn hsmall
    have hsize : 2 ^ 32 ≤ 2 ^ usizeBits := Nat.pow_le_pow_right (by omega) hbits.1
    have hlaps : 2 * 2 ^ usizeBits ≤ k * 2 ^ usizeBits := Nat.mul_le_mul_right _ hk
    have hlength := length_starvingRun (show PROBE_INTERVAL.toNat + n ≤ 2 ^ usizeBits by omega)
    exact absurd (hbounded _ s (by omega) hrun i hi) (by omega)
  · rintro (hn | hk) outcomes s hlength hrun i hi
    · have := (alone_run maxInflight hn hrun).recent i hi
      omega
    · have hlap : outcomes.length ≤ 2 ^ usizeBits :=
        hlength.le.trans ((Nat.mul_le_mul_right _ hk).trans_eq (Nat.one_mul _))
      exact (FirstLap.after (firstLap_start maxInflight) hbits.2
        (by simpa [start] using hlap) hrun).1.le hi

/-- With a 64-bit counter, neither of two nodes is starved by the first `2 ^ 64` queries. -/
theorem never_starved_iff_two_nodes : (32 ≤ 64 ∧ 64 ≤ 64) ∧ 2 + 200 ≤ 2 ^ 31 ∧
    ∀ outcomes s, outcomes.length < 1 * 2 ^ 64 → run (handle 64) (start 2 256) outcomes = some s →
      ∀ i < 2, s.handled - s.selectedAt i ≤ PROBE_INTERVAL.toNat + 2 - 1 :=
  ⟨by decide, by decide, (never_starved_iff 64 2 1 256 (by decide) (by decide)).mpr (.inr (Nat.le_refl 1))⟩

/-- Once the 64-bit counter has wrapped, one of two nodes is not selected by more than 101 queries in a
row. -/
theorem node_starved_after_wrap : ∃ outcomes s, run (handle 64) (start 2 256) outcomes = some s ∧
    ∃ i < 2, PROBE_INTERVAL.toNat + 2 - 1 < s.handled - s.selectedAt i :=
  ⟨starvingRun 64 2, exists_starved 256 (by decide) (Nat.le_refl 2) (by decide)⟩

end Tracks

end PoolRun

end PathDns
