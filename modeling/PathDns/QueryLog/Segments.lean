import PathDns.Config.Texts
import PathDns.Lib.Runs
import PathDns.Lib.RustInt
import PathDns.Lib.RustParse
import PathDns.Lib.Search

/-!
# Segment files of the query log (`querylog/worker.rs`)

How the worker opens, rotates and prunes the segments in its directory. A directory is the list of the names
in it, as `to_string_lossy` gives them. Pruning decides by names alone; the open segment survives it exactly
when its name is young enough and among the largest.
-/

namespace PathDns

open RustFmt RustInt RustParse

/-- The fields of `QueryLogFileConfig` that decide about files. -/
structure SegmentConfig where
  maxMb : Nat
  maxSegments : Nat
  retentionDays : Option Nat
deriving DecidableEq, Repr

/-! ## Names -/

/-- `querylog-` -/
def segmentHead : Str := ['q', 'u', 'e', 'r', 'y', 'l', 'o', 'g', '-']

/-- `.msgpack` -/
def segmentTail : Str := ['.', 'm', 's', 'g', 'p', 'a', 'c', 'k']

/-- `.gz` -/
def gzTail : Str := ['.', 'g', 'z']

/-- `.index.json` -/
def indexTail : Str := ['.', 'i', 'n', 'd', 'e', 'x', '.', 'j', 's', 'o', 'n']

/-- `segment_name` at a clock reading in microseconds. -/
def segmentName (micros : Nat) : Str :=
  segmentHead ++ List.replicate (20 - (dec micros).length) '0' ++ dec micros ++ segmentTail

def indexPath (name : Str) : Str := name ++ indexTail

/-- A plain segment that may be open for appending. -/
def isPlainSegment (name : Str) : Bool := segmentHead.isPrefixOf name && segmentTail.isSuffixOf name

/-- What `prune_old_files` lists. -/
def isSegment (name : Str) : Bool :=
  segmentHead.isPrefixOf name && (segmentTail.isSuffixOf name || (segmentTail ++ gzTail).isSuffixOf name)

def extractFileTimestamp (name : Str) : Option Nat := do
  let rest ← stripPrefix segmentHead name
  let (digits, _) ← splitOnce ['.'] rest
  parseUnsigned 10 (2 ^ 64) digits

/-- `Vec<String>::sort`. -/
def sortNames (names : List Str) : List Str := names.insertionSort (· ≤ ·)

/-! ## Opening and pruning -/

/-- What a file tells `find_resumable_segment`: its size, and whether its index loads. -/
structure SegmentInfo where
  size : Option Nat
  indexed : Bool

/-- `find_resumable_segment`; the product of the threshold wraps. -/
def findResumableSegment (cfg : SegmentConfig) (dir : List Str) (info : Str → SegmentInfo) : Option Str := do
  let name ← (sortNames (dir.filter isPlainSegment)).getLast?
  let size ← (info name).size
  if (info name).indexed && decide (size < cfg.maxMb * 1048576 % 2 ^ 64) then some name else none

/-- The names younger than this are kept. -/
def cutoff (now days : Nat) : Nat := now % 2 ^ 64 - min (days * 86400000000) u64Max.toNat

/-- The age rule of `prune_old_files`. -/
def isExpired (cfg : SegmentConfig) (now : Nat) (name : Str) : Bool :=
  cfg.retentionDays.any (fun days =>
    decide ((extractFileTimestamp name).getD u64Max.toNat < cutoff now days))

/-- The names that `prune_old_files` removes: first by age, then all but the last ones of the rest. -/
def prunedNames (cfg : SegmentConfig) (now : Nat) (dir : List Str) : List Str :=
  let files := sortNames (dir.filter isSegment)
  let old := files.filter (isExpired cfg now)
  let keep := files.filter (fun name => !isExpired cfg now name)
  old ++ keep.take (keep.length - max cfg.maxSegments 1)

/-- `prune_old_files`: the names that are left; `remove_segment` takes the index along. -/
def pruneOldFiles (cfg : SegmentConfig) (now : Nat) (dir : List Str) : List Str :=
  let gone := prunedNames cfg now dir
  dir.filter (fun name => decide (name ∉ gone) && decide (name ∉ gone.map indexPath))

/-- The worker's directory, the segment it has open, and whether it is about to prune. -/
structure SegmentState where
  dir : List Str
  opened : Option Str
  pruning : Bool
deriving DecidableEq

/-- What happens to the segments. -/
inductive SegmentOp where
  /-- `MsgpackFileState::open` up to the pruning; a directory that cannot be read has nothing to resume. -/
  | openFile (clock : Nat) (readable : Bool) (info : Str → SegmentInfo)
  /-- A batch is written and the segment is not full. -/
  | append
  /-- `rotate` up to the pruning. -/
  | rotate (clock : Nat)
  /-- The pruning that ends both; an error of `read_dir` is ignored. -/
  | prune (clock : Nat) (readable : Bool)
  /-- An error of a write or a flush: the file is given up. -/
  | giveUp
  /-- Whatever else happens in the directory, the compression of closed segments included. -/
  | outside (dir : List Str)

/-- A file is created if it is not there. -/
def createFile (dir : List Str) (name : Str) : List Str := if name ∈ dir then dir else dir ++ [name]

/-- One step of the worker or of the world. -/
def segmentStep (cfg : SegmentConfig) (s : SegmentState) : SegmentOp → Option SegmentState
  | .openFile clock readable info =>
    if s.opened.isSome || s.pruning then none
    else
      let name := ((if readable then findResumableSegment cfg s.dir info else none)).getD (segmentName clock)
      some ⟨createFile s.dir name, some name, true⟩
  | .append => if s.opened.isNone || s.pruning then none else some s
  | .rotate clock =>
    if s.opened.isNone || s.pruning then none
    else some ⟨createFile s.dir (segmentName clock), some (segmentName clock), true⟩
  | .prune clock readable =>
    if s.pruning then some ⟨if readable then pruneOldFiles cfg clock s.dir else s.dir, s.opened, false⟩
    else none
  | .giveUp => if s.pruning then none else some { s with opened := none }
  | .outside dir => some { s with dir := dir }

/-! ## When the open segment survives -/

/-- The pruning leaves the segment that is open. -/
def SparesOpen (cfg : SegmentConfig) (s : SegmentState) (op : SegmentOp) : Prop :=
  ∀ clock readable, op = .prune clock readable → ∀ name, s.opened = some name → name ∈ s.dir →
    ∀ s', segmentStep cfg s op = some s' → name ∈ s'.dir

/-- When pruning is due, the time in the name of the open segment is not before the cutoff, and at most
`max_segments` names that are not expired are as large as it or larger. -/
def OpenIsNewest (cfg : SegmentConfig) (s : SegmentState) (op : SegmentOp) : Prop :=
  ∀ clock, op = .prune clock true → s.pruning = true → ∀ name, s.opened = some name → name ∈ s.dir →
    (∀ days, cfg.retentionDays = some days →
      cutoff clock days ≤ (extractFileTimestamp name).getD u64Max.toNat) ∧
    (s.dir.filter (fun n => isSegment n && !isExpired cfg clock n && decide (name ≤ n))).length ≤
      max cfg.maxSegments 1

/-- What is open is a plain segment. -/
def OpensPlain (s : SegmentState) : Prop := ∀ name, s.opened = some name → isPlainSegment name = true

theorem isPlainSegment_segmentName (micros : Nat) : isPlainSegment (segmentName micros) = true := by
  rw [isPlainSegment, Bool.and_eq_true, List.isPrefixOf_iff_prefix, List.isSuffixOf_iff_suffix]
  exact ⟨⟨_, by rw [segmentName, List.append_assoc, List.append_assoc]⟩, ⟨_, rfl⟩⟩

variable {name : Str}

theorem isSegment_of_isPlainSegment (h : isPlainSegment name = true) : isSegment name = true := by
  rw [isPlainSegment, Bool.and_eq_true] at h
  simp [isSegment, h.1, h.2]

theorem mem_sortNames {names : List Str} : name ∈ sortNames names ↔ name ∈ names :=
  (List.perm_insertionSort _ names).mem_iff

theorem ne_indexPath {other : Str} (h : isPlainSegment name = true) : name ≠ indexPath other := by
  rintro rfl
  rw [isPlainSegment, Bool.and_eq_true, List.isSuffixOf_iff_suffix] at h
  have hends : segmentTail <:+ indexTail :=
    List.suffix_of_suffix_length_le h.2 (List.suffix_append other indexTail) (by decide)
  revert hends
  decide

theorem isPlainSegment_of_findResumableSegment {cfg : SegmentConfig} {dir : List Str} {info : Str → SegmentInfo}
    (h : findResumableSegment cfg dir info = some name) : isPlainSegment name = true := by
  obtain ⟨newest, hnewest, h⟩ := Option.bind_eq_some_iff.mp h
  obtain ⟨size, -, h⟩ := Option.bind_eq_some_iff.mp h
  split_ifs at h
  cases h
  exact (List.mem_filter.mp (mem_sortNames.mp (List.mem_of_getLast? hnewest))).2

/-- Only opening and rotating change what is open, to a name of their own or a plain segment that is
there. -/
theorem opensPlain_step {cfg : SegmentConfig} {s s' : SegmentState} {op : SegmentOp} (h : OpensPlain s)
    (hstep : segmentStep cfg s op = some s') : OpensPlain s' := by
  revert hstep
  fun_cases segmentStep cfg s op <;> rintro ⟨⟩
  case case2 clock readable info _ resumed =>
    rintro name ⟨⟩
    cases readable with
    | false => exact isPlainSegment_segmentName clock
    | true =>
      cases hfind : findResumableSegment cfg s.dir info with
      | none => simpa [resumed, hfind] using isPlainSegment_segmentName clock
      | some name => simpa [resumed, hfind] using isPlainSegment_of_findResumableSegment hfind
  case case6 clock _ =>
    rintro name ⟨⟩
    exact isPlainSegment_segmentName clock
  case case10 => exact nofun
  all_goals exact h

section Survival

variable {cfg : SegmentConfig} {clock : Nat} {dir : List Str} {name : Str}

theorem any_lt_eq_false_iff (o : Option Nat) (f : Nat → Nat) (n : Nat) :
    o.any (fun days => decide (n < f days)) = false ↔ ∀ days, o = some days → f days ≤ n := by
  cases o <;> simp

theorem isExpired_eq_false_iff :
    isExpired cfg clock name = false ↔ ∀ days, cfg.retentionDays = some days →
      cutoff clock days ≤ (extractFileTimestamp name).getD u64Max.toNat :=
  any_lt_eq_false_iff cfg.retentionDays (cutoff clock) _

theorem pairwise_keep : ((sortNames (dir.filter isSegment)).filter
    (fun n => !isExpired cfg clock n)).Pairwise (· ≤ ·) :=
  (List.pairwise_insertionSort (· ≤ ·) _).filter _

/-- A segment in the directory is removed if it has expired, or if too many others are as large. -/
theorem mem_prunedNames_iff (hmem : name ∈ dir) (hseg : isSegment name = true) :
    name ∈ prunedNames cfg clock dir ↔ isExpired cfg clock name = true ∨
      max cfg.maxSegments 1 <
        (dir.filter (fun n => isSegment n && !isExpired cfg clock n && decide (name ≤ n))).length := by
  have hfiles : name ∈ sortNames (dir.filter isSegment) :=
    mem_sortNames.mpr (List.mem_filter.mpr ⟨hmem, hseg⟩)
  have hcount : (((sortNames (dir.filter isSegment)).filter (fun n => !isExpired cfg clock n)).filter
      (fun n => decide (name ≤ n))).length =
      (dir.filter (fun n => isSegment n && !isExpired cfg clock n && decide (name ≤ n))).length := by
    have hperm := ((List.perm_insertionSort (· ≤ ·) (dir.filter isSegment)).filter
      (fun n => !isExpired cfg clock n)).filter (fun n => decide (name ≤ n))
    refine hperm.length_eq.trans (congrArg List.length ?_)
    rw [List.filter_filter, List.filter_filter]
    congr 1
    funext n
    cases isSegment n <;> cases isExpired cfg clock n <;> simp
  rw [prunedNames]
  simp only [List.mem_append]
  cases hexp : isExpired cfg clock name with
  | true => exact iff_of_true (.inl (List.mem_filter.mpr ⟨hfiles, hexp⟩)) (.inl rfl)
  | false =>
    have hkeep : name ∈ (sortNames (dir.filter isSegment)).filter (fun n => !isExpired cfg clock n) :=
      List.mem_filter.mpr ⟨hfiles, by simp [hexp]⟩
    rw [Search.mem_take_length_sub_iff pairwise_keep hkeep, hcount]
    simp [hexp]

theorem mem_pruneOldFiles_iff (hmem : name ∈ dir) (hplain : isPlainSegment name = true) :
    name ∈ pruneOldFiles cfg clock dir ↔
      (∀ days, cfg.retentionDays = some days →
        cutoff clock days ≤ (extractFileTimestamp name).getD u64Max.toNat) ∧
      (dir.filter (fun n => isSegment n && !isExpired cfg clock n && decide (name ≤ n))).length ≤
        max cfg.maxSegments 1 := by
  have hindex : name ∉ (prunedNames cfg clock dir).map indexPath := by
    intro hindex
    obtain ⟨other, -, heq⟩ := List.mem_map.mp hindex
    exact ne_indexPath hplain heq.symm
  simp only [pruneOldFiles, List.mem_filter, hmem, hindex, not_false_eq_true, decide_true, Bool.and_true,
    decide_eq_true_eq, true_and, mem_prunedNames_iff hmem (isSegment_of_isPlainSegment hplain), not_or,
    Bool.not_eq_true, isExpired_eq_false_iff, Nat.not_lt]

/-- The open segment survives a pruning exactly when it is among the newest. -/
theorem sparesOpen_iff {s : SegmentState} (hplain : OpensPlain s) (op : SegmentOp) :
    SparesOpen cfg s op ↔ OpenIsNewest cfg s op := by
  constructor
  · rintro h clock rfl hpruning name hname hmem
    have hstep : segmentStep cfg s (.prune clock true) =
        some ⟨pruneOldFiles cfg clock s.dir, s.opened, false⟩ := by
      simp only [segmentStep, hpruning, if_true]
    exact (mem_pruneOldFiles_iff hmem (hplain name hname)).mp (h clock true rfl name hname hmem _ hstep)
  · rintro h clock readable rfl name hname hmem s' hstep
    rw [segmentStep] at hstep
    split_ifs at hstep with hpruning hread
    · cases hstep
      subst hread
      exact (mem_pruneOldFiles_iff hmem (hplain name hname)).mpr (h clock rfl hpruning name hname hmem)
    · cases hstep
      exact hmem

end Survival

/-- Over every run of the worker from any directory, no pruning deletes the open segment exactly when at
every pruning the open segment is among the newest by name. -/
theorem prune_spares_open_iff (cfg : SegmentConfig) (dir : List Str) (ops : List SegmentOp) :
    Runs.Meets (segmentStep cfg) (SparesOpen cfg) ⟨dir, none, false⟩ ops ↔
      Runs.Meets (segmentStep cfg) (OpenIsNewest cfg) ⟨dir, none, false⟩ ops :=
  Runs.meets_congr (fun _ _ _ => opensPlain_step) (fun _ op h => sparesOpen_iff h op)
    (fun _ h => by simp at h)

/-! A segment of the first microsecond, resumed two days later with a retention of one day. -/

def sampleSegmentConfig : SegmentConfig := ⟨8, 3, some 1⟩

/-- The file that was just opened is deleted, and what is appended from then on is lost. -/
theorem resumed_segment_pruned :
    Runs.run (segmentStep sampleSegmentConfig) ⟨[segmentName 1], none, false⟩
        [.openFile 172800000001 true (fun _ => ⟨some 100, true⟩), .prune 172800000001 true, .append] =
      some ⟨[], some (segmentName 1), false⟩ ∧
    ¬ Runs.Meets (segmentStep sampleSegmentConfig) (SparesOpen sampleSegmentConfig)
      ⟨[segmentName 1], none, false⟩
      [.openFile 172800000001 true (fun _ => ⟨some 100, true⟩), .prune 172800000001 true, .append] := by
  have hopen : segmentStep sampleSegmentConfig ⟨[segmentName 1], none, false⟩
      (.openFile 172800000001 true (fun _ => ⟨some 100, true⟩)) =
      some ⟨[segmentName 1], some (segmentName 1), true⟩ := by decide +kernel
  have hprune : segmentStep sampleSegmentConfig ⟨[segmentName 1], some (segmentName 1), true⟩
      (.prune 172800000001 true) = some ⟨[], some (segmentName 1), false⟩ := by decide +kernel
  refine ⟨?_, fun h => ?_⟩
  · rw [Runs.run, hopen, Option.bind_some, Runs.run, hprune, Option.bind_some]
    rfl
  · have hleft := (h.2 _ hopen).1 _ _ rfl _ rfl List.mem_cons_self _ hprune
    simp at hleft

end PathDns
