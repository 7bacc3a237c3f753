import PathDns.Lib.Slots
import PathDns.Reload.System
import PathDns.Ruleset.Load

/-!
# Ruleset files, their watcher and reloads (`watch_files`, `reload_ruleset`, `reload_config`)

A file is an entry of a directory. The kernel reports an edit by the watch descriptor of the directory and
the name of the file; what happens while its queue is full it reports as one overflow. The watcher reads
reports in batches, turns them into changed paths and runs `reload_ruleset` on what has gathered, while
config reloads come and go. A load reads one file at a step, under the reload lock.

A file whose edit was neither read yet nor taken up by a reload is stale; every other requested file is in
the database as it is on disk (`Tracked`). This needs that no two watched directories are one and the same
under two names: the descriptor leads to one name only (`DistinctDirs`).
-/

namespace PathDns

open RustPath Runs

/-- A report of the kernel. -/
inductive InotifyEvent where
  | overflow
  | file (wd : Nat) (name : Str)
deriving DecidableEq, Repr

/-- What the watcher and the loads are set up with: the specifications, the watch descriptor of each
directory, the order in which the directories were watched, and how a file is read and parsed. -/
structure Watching where
  specs : List RuleSetSpec
  /-- the parser of the configuration refuses a tag that comes twice -/
  tagsUnique : (specs.map (·.tag)).Nodup
  wd : List Component → Nat
  order : List (List Component)
  order_mem : ∀ spec ∈ specs, watchParent (components spec.path) ∈ order
  parse : RuleSetSpec → Option (List UInt8) → Except String TagEntry

/-- The entries of directories; a directory is known by its descriptor. -/
abbrev DirEntries := Nat → Str → Option (List UInt8)

/-- Which reload loads. -/
inductive LoadKind where
  | ruleset
  | config
deriving DecidableEq, Repr

/-- A load under the reload lock; `clean` while every edit was reported before it began. -/
structure Loading where
  kind : LoadKind
  cfg : Config
  todo : List RuleSetSpec
  db : RuleSetDb
  clean : Bool

/-- Where the thread of the ruleset watcher is. -/
inductive WatcherPhase where
  /-- it reads reports -/
  | waiting
  /-- it waits out the debounce -/
  | debouncing
  /-- it reloads, with this many attempts left -/
  | reloading (attempts : Nat)
deriving DecidableEq, Repr

/-- The watcher and the reloads. `unread` are the edits whose reports were not read yet; `synced` when
nothing was edited since the last applied reload began, and all was reported by then. -/
structure WatchState where
  cfg : Config
  db : Option RuleSetDb
  disk : DirEntries
  queue : List InotifyEvent
  unread : List (Nat × Str)
  changed : List (List Component)
  watcher : WatcherPhase
  load : Option Loading
  applied : Nat
  failedAttempts : Nat
  synced : Bool

inductive WatchEvent where
  /-- a file is written or replaced; `full` when the queue of reports is full -/
  | edit (dir : Nat) (name : Str) (content : List UInt8) (full : Bool)
  /-- another report -/
  | report (e : InotifyEvent)
  | collect (n : Nat)
  | coalesce (n : Nat)
  | reloadRuleset
  | reloadConfig (cfg : Config)
  | loadStep
  /-- a config reload fails before it has loaded the rulesets -/
  | configFail

/-- `RELOAD_RETRIES`. -/
def RELOAD_RETRIES : Nat := 5

namespace Watching

variable (w : Watching)

/-- The name under which a watch descriptor is known; the directory that was watched last wins. -/
def wdDir (d : Nat) : Option (List Component) := w.order.reverse.find? fun dir => w.wd dir = d

def targets : List (List Component) := w.specs.map fun spec => normalizedWatchPath spec.path

/-- `collect_changed_paths` for one report: the changed paths it adds. -/
def changedBy : InotifyEvent → List (List Component)
  | .overflow => w.targets
  | .file d name =>
    match w.wdDir d with
    | some dir => if w.targets.contains (join dir name) then [join dir name] else []
    | none => []

/-- Whether a report is relevant. -/
def relevant : InotifyEvent → Bool
  | .overflow => true
  | .file d name =>
    match w.wdDir d with
    | some dir => w.targets.contains (join dir name)
    | none => false

def collectChangedPaths (events : List InotifyEvent) (changed : List (List Component)) :
    List (List Component) :=
  changed ++ events.flatMap w.changedBy

/-- The directory entry a path leads to. -/
def locate (path : Str) : Option (Nat × Str) :=
  (fileName (components path)).map fun name => (w.wd (watchParent (components path)), name)

/-- The file of a specification is read and parsed. -/
def readSpec (disk : DirEntries) (spec : RuleSetSpec) : Except String TagEntry :=
  w.parse spec ((w.locate spec.path).bind fun f => disk f.1 f.2)

def loadRuleset (disk : DirEntries) (cfg : Config) (reuse : Option RuleSetDb.Reuse) :
    Except String (Option RuleSetDb) :=
  if !needsRuleset cfg then .ok none
  else if cfg.rulesetSpecs = [] then
    .error "ruleset tags referenced in config but route.ruleset has no entries"
  else
    (RuleSetDb.load (w.readSpec disk) cfg.rulesetSpecs (neededRulesetDomainTags cfg)
      (neededRulesetIpcidrTags cfg) reuse).map some

end Watching

/-- The report of an edit is still in the queue. -/
def Pending (queue : List InotifyEvent) (f : Nat × Str) : Prop :=
  .overflow ∈ queue ∨ .file f.1 f.2 ∈ queue

instance (queue : List InotifyEvent) (f : Nat × Str) : Decidable (Pending queue f) :=
  inferInstanceAs (Decidable (_ ∨ _))

namespace WatchState

/-- The state after startup, with the database that was loaded. -/
def start (cfg : Config) (disk : DirEntries) (db : Option RuleSetDb) : WatchState where
  cfg := cfg
  db := db
  disk := disk
  queue := []
  unread := []
  changed := []
  watcher := .waiting
  load := none
  applied := 0
  failedAttempts := 0
  synced := true

/-- A file is edited, and the kernel reports it. -/
def editStep (s : WatchState) (dir : Nat) (name : Str) (content : List UInt8) (full : Bool) :
    WatchState :=
  { s with
    disk := fun d n => if d = dir ∧ n = name then some content else s.disk d n,
    queue := if full then (if .overflow ∈ s.queue then s.queue else s.queue ++ [.overflow])
      else s.queue ++ [.file dir name],
    unread := s.unread ++ [(dir, name)],
    load := s.load.map fun load => { load with clean := false },
    synced := false }

/-- The watcher reads the first `n` reports. -/
def readReports (w : Watching) (s : WatchState) (n : Nat) : WatchState :=
  { s with
    queue := s.queue.drop n,
    unread := s.unread.filter fun f => Pending (s.queue.drop n) f,
    changed := w.collectChangedPaths (s.queue.take n) s.changed }

/-- A load begins under the reload lock. -/
def beginLoad (s : WatchState) (kind : LoadKind) (cfg : Config) : WatchState :=
  { s with load := some ⟨kind, cfg, neededSpecs cfg, ⟨∅⟩, s.unread.isEmpty⟩ }

/-- A ruleset reload has failed: the changed paths stay, and it is tried again while attempts are left. -/
def retry (s : WatchState) : WatchState :=
  { s with watcher := match s.watcher with
      | .reloading (attempts + 2) => .reloading (attempts + 1)
      | _ => .waiting }

/-- The load ends with an error. -/
def failLoad (s : WatchState) (kind : LoadKind) : WatchState :=
  let s := { s with load := none, failedAttempts := s.failedAttempts + 1 }
  match kind with
  | .ruleset => s.retry
  | .config => s

/-- The hot state is stored. -/
def applyLoad (s : WatchState) (load : Loading) : WatchState :=
  let s := { s with
    cfg := load.cfg,
    db := if needsRuleset load.cfg then some load.db else none,
    load := none,
    applied := s.applied + 1,
    synced := load.clean }
  match load.kind with
  | .ruleset => { s with changed := [], watcher := .waiting }
  | .config => s

/-- What a load may reuse. -/
def reuse (s : WatchState) : LoadKind → Option RuleSetDb.Reuse
  | .ruleset => s.db.map fun db => (db, s.changed)
  | .config => none

/-- The load goes on by one file, or ends. -/
def loadStep (w : Watching) (s : WatchState) (load : Loading) : WatchState :=
  if needsRuleset load.cfg ∧ load.cfg.rulesetSpecs = [] then s.failLoad load.kind
  else
    match load.todo with
    | spec :: todo =>
      match RuleSetDb.loadEntry (w.readSpec s.disk) (s.reuse load.kind) spec with
      | .ok entry => { s with load := some { load with todo := todo, db := load.db.insertEntry spec entry } }
      | .error _ => s.failLoad load.kind
    | [] =>
      match load.db.checkTags (neededRulesetDomainTags load.cfg) (neededRulesetIpcidrTags load.cfg) with
      | .ok _ => s.applyLoad load
      | .error _ => s.failLoad load.kind

def step (w : Watching) (s : WatchState) : WatchEvent → Option WatchState
  | .edit dir name content full => some (s.editStep dir name content full)
  | .report e => some { s with queue := s.queue ++ [e] }
  | .collect n =>
    if s.watcher = .waiting ∧ 0 < n then
      some { readReports w s n with
        watcher := if (s.queue.take n).any w.relevant then .debouncing else .waiting }
    else none
  | .coalesce n =>
    if s.watcher = .debouncing then some { readReports w s n with watcher := .reloading RELOAD_RETRIES }
    else none
  | .reloadRuleset =>
    match s.watcher, s.load with
    | .reloading _, none =>
      -- nothing in the config needs the rulesets: the reload returns at once
      if needsRuleset s.cfg then some (s.beginLoad .ruleset s.cfg)
      else some { s with changed := [], watcher := .waiting }
    | _, _ => none
  | .reloadConfig cfg =>
    match s.load with
    | none => some (if restartRequired s.cfg cfg then s else s.beginLoad .config cfg)
    | some _ => none
  | .loadStep => s.load.map (loadStep w s)
  | .configFail =>
    match s.load with
    | some load => if load.kind = .config then some (s.failLoad .config) else none
    | none => none

end WatchState

/-! ### What the reports lead to -/

namespace Watching

variable {w : Watching}

/-- No watched directory has two names. -/
def DistinctDirs (w : Watching) : Prop :=
  ∀ dir ∈ w.order, ∀ dir' ∈ w.order, w.wd dir = w.wd dir' → dir = dir'

instance (w : Watching) : Decidable w.DistinctDirs :=
  inferInstanceAs (Decidable (∀ dir ∈ w.order, ∀ dir' ∈ w.order, w.wd dir = w.wd dir' → dir = dir'))

theorem wdDir_of_mem (h : w.DistinctDirs) {dir : List Component} (hdir : dir ∈ w.order) :
    w.wdDir (w.wd dir) = some dir := by
  cases hfind : w.wdDir (w.wd dir) with
  | none =>
    rw [wdDir, List.find?_eq_none] at hfind
    exact absurd (decide_eq_true rfl) (hfind dir (List.mem_reverse.mpr hdir))
  | some dir' =>
    have hwd : w.wd dir' = w.wd dir := by simpa using List.find?_some hfind
    have hmem : dir' ∈ w.order := List.mem_reverse.mp (List.mem_of_find?_eq_some hfind)
    rw [h dir' hmem dir hdir hwd]

variable {spec : RuleSetSpec}

theorem mem_targets (hspec : spec ∈ w.specs) : normalizedWatchPath spec.path ∈ w.targets :=
  List.mem_map_of_mem hspec

theorem mem_changedBy (h : w.DistinctDirs) (hspec : spec ∈ w.specs) {f : Nat × Str}
    (hf : w.locate spec.path = some f) : normalizedWatchPath spec.path ∈ w.changedBy (.file f.1 f.2) := by
  obtain ⟨name, hname, rfl⟩ := Option.map_eq_some_iff.mp hf
  have hpath : normalizedWatchPath spec.path = join (watchParent (components spec.path)) name := by
    rw [normalizedWatchPath, hname]
  have htarget : w.targets.contains (join (watchParent (components spec.path)) name) = true := by
    rw [List.contains_iff_mem, ← hpath]
    exact mem_targets hspec
  simp only [changedBy, wdDir_of_mem h (w.order_mem spec hspec), htarget, if_true]
  rw [hpath]
  exact List.mem_singleton_self _

theorem mem_collect (h : w.DistinctDirs) (hspec : spec ∈ w.specs) {f : Nat × Str}
    (hf : w.locate spec.path = some f) {events : List InotifyEvent} (hpending : Pending events f)
    (changed : List (List Component)) :
    normalizedWatchPath spec.path ∈ w.collectChangedPaths events changed := by
  apply List.mem_append_right
  rcases hpending with hmem | hmem
  · exact List.mem_flatMap.mpr ⟨_, hmem, mem_targets hspec⟩
  · exact List.mem_flatMap.mpr ⟨_, hmem, mem_changedBy h hspec hf⟩

end Watching

theorem Pending.append {p q : List InotifyEvent} {f : Nat × Str} (h : Pending (p ++ q) f) :
    Pending p f ∨ Pending q f := by
  simp only [Pending, List.mem_append] at h ⊢
  tauto

theorem Pending.mono {p q : List InotifyEvent} {f : Nat × Str} (h : Pending p f) (hpq : p ⊆ q) :
    Pending q f :=
  h.imp (fun hmem => hpq hmem) (fun hmem => hpq hmem)

/-! ### What the database has of the files on disk -/

namespace WatchState

section

variable {w : Watching} {s s' : WatchState} {db : RuleSetDb} {spec : RuleSetSpec}

/-- The database has the specification as it is on disk. -/
def Good (w : Watching) (disk : DirEntries) (db : RuleSetDb) (spec : RuleSetSpec) : Prop :=
  ∃ entry, db.tags.lookup spec.tag = some entry ∧ w.readSpec disk spec = .ok entry

/-- An edit of the file was not read by the watcher yet. -/
def Unread (w : Watching) (s : WatchState) (spec : RuleSetSpec) : Prop :=
  ∃ f, w.locate spec.path = some f ∧ f ∈ s.unread

/-- The next ruleset reload reads the file. -/
def Changed (s : WatchState) (spec : RuleSetSpec) : Prop := normalizedWatchPath spec.path ∈ s.changed

/-- A load has done the specifications before `todo`. -/
structure LoadTracked (w : Watching) (s : WatchState) (load : Loading) (done : List RuleSetSpec) :
    Prop where
  specs : load.cfg.rulesetSpecs = w.specs
  ruleset : load.kind = .ruleset → load.cfg = s.cfg ∧ needsRuleset s.cfg = true ∧
    ∃ attempts, s.watcher = .reloading attempts
  split : neededSpecs load.cfg = done ++ load.todo
  entries : ∀ spec ∈ done, Good w s.disk load.db spec ∨ Unread w s spec ∨
    (load.kind = .config ∧ Changed s spec)
  others : ∀ tag, tag ∉ done.map (·.tag) → load.db.tags.lookup tag = none
  reported : load.clean = true → s.unread = []
  clean : load.clean = true → ∀ spec ∈ done, Good w s.disk load.db spec

/-- The database has every requested specification as it is on disk, unless its edit is unread or to be
taken up. -/
structure Tracked (w : Watching) (s : WatchState) : Prop where
  specs : s.cfg.rulesetSpecs = w.specs
  pending : ∀ f ∈ s.unread, Pending s.queue f
  loaded : needsRuleset s.cfg = true → ∃ db, s.db = some db
  entries : ∀ db, s.db = some db → ∀ spec ∈ neededSpecs s.cfg,
    Good w s.disk db spec ∨ Unread w s spec ∨ Changed s spec
  others : ∀ db, s.db = some db → ∀ tag, tag ∉ (neededSpecs s.cfg).map (·.tag) → db.tags.lookup tag = none
  checked : ∀ db, s.db = some db →
    db.checkTags (neededRulesetDomainTags s.cfg) (neededRulesetIpcidrTags s.cfg) = .ok ()
  loading : ∀ load, s.load = some load → ∃ done, LoadTracked w s load done
  synced : s.synced = true → ∀ db, s.db = some db → ∀ spec ∈ neededSpecs s.cfg, Good w s.disk db spec

variable {cfg : Config}

theorem neededSpecs_subset (h : cfg.rulesetSpecs = w.specs) (hspec : spec ∈ neededSpecs cfg) : spec ∈ w.specs :=
  h ▸ List.mem_of_mem_filter hspec

theorem neededSpecs_unique (h : cfg.rulesetSpecs = w.specs) : ((neededSpecs cfg).map (·.tag)).Nodup := by
  have hsub : ((neededSpecs cfg).map (·.tag)).Sublist (w.specs.map (·.tag)) := by
    rw [← h]
    exact (List.filter_sublist).map _
  exact hsub.nodup w.tagsUnique

/-! ### The full load -/

variable {read : RuleSetSpec → Except String TagEntry} {entry : TagEntry}

theorem loadEntry_fresh (h : read spec = .ok entry) : RuleSetDb.loadEntry read none spec = .ok entry := by
  rw [RuleSetDb.loadEntry, h]
  rfl

variable {disk : DirEntries}

theorem loadRuleset_ok {o : Option RuleSetDb} (h : w.loadRuleset disk cfg none = .ok o) :
    needsRuleset cfg = false ∧ o = none ∨ ∃ db, o = some db ∧
      RuleSetDb.loadSpecs (RuleSetDb.loadEntry (w.readSpec disk) none) (neededSpecs cfg) ⟨∅⟩ = .ok db ∧
      db.checkTags (neededRulesetDomainTags cfg) (neededRulesetIpcidrTags cfg) = .ok () := by
  rw [Watching.loadRuleset] at h
  split_ifs at h with hneeds
  · exact .inl ⟨by simpa using hneeds, (Except.ok.inj h).symm⟩
  · obtain ⟨db, hdb, rfl⟩ := Fallible.map_eq_ok_iff.mp h
    obtain ⟨_, hspecs, hcheck⟩ := Fallible.bind_eq_ok_iff.mp hdb
    obtain ⟨_, hcheck, ⟨⟩⟩ := Fallible.bind_eq_ok_iff.mp hcheck
    exact .inr ⟨db, rfl, hspecs, hcheck⟩

theorem fullLoad_error {msg : String} (hspecs : cfg.rulesetSpecs = w.specs) (hneeds : needsRuleset cfg = true)
    (hspec : spec ∈ neededSpecs cfg) (herror : w.readSpec disk spec = .error msg) :
    ∃ msg', w.loadRuleset disk cfg none = .error msg' := by
  cases hload : w.loadRuleset disk cfg none with
  | error msg' => exact ⟨msg', rfl⟩
  | ok o =>
    rcases loadRuleset_ok hload with ⟨hno, -⟩ | ⟨db, -, hloaded, -⟩
    · simp [hneeds] at hno
    · obtain ⟨entry, hentry, -⟩ := (RuleSetDb.loadSpecs_ok (neededSpecs_unique hspecs) hloaded).1 spec hspec
      rw [RuleSetDb.loadEntry, herror] at hentry
      simp [Except.mapError] at hentry

/-- Where every requested specification is good, the full load is the check of the same entries. -/
theorem fullLoad_of_good (hspecs : cfg.rulesetSpecs = w.specs) (hneeds : needsRuleset cfg = true)
    (hsome : cfg.rulesetSpecs ≠ []) (hgood : ∀ spec ∈ neededSpecs cfg, Good w disk db spec)
    (hothers : ∀ tag, tag ∉ (neededSpecs cfg).map (·.tag) → db.tags.lookup tag = none) :
    ∃ full : RuleSetDb, (∀ tag, full.tags.lookup tag = db.tags.lookup tag) ∧
      w.loadRuleset disk cfg none =
        (db.checkTags (neededRulesetDomainTags cfg) (neededRulesetIpcidrTags cfg)).map
          (fun _ => some full) := by
  obtain ⟨full, hfull⟩ : ∃ full, RuleSetDb.loadSpecs (RuleSetDb.loadEntry (w.readSpec disk) none)
      (neededSpecs cfg) ⟨∅⟩ = .ok full := by
    apply RuleSetDb.loadSpecs_exists
    intro spec hspec
    obtain ⟨entry, -, hread⟩ := hgood spec hspec
    exact ⟨entry, loadEntry_fresh hread⟩
  obtain ⟨hentries, hrest⟩ := RuleSetDb.loadSpecs_ok (neededSpecs_unique hspecs) hfull
  have hlookup : ∀ tag, full.tags.lookup tag = db.tags.lookup tag := by
    intro tag
    by_cases htag : tag ∈ (neededSpecs cfg).map (·.tag)
    · obtain ⟨spec, hspec, rfl⟩ := List.mem_map.mp htag
      obtain ⟨entry, hentry, hin⟩ := hentries spec hspec
      obtain ⟨entry', hin', hread⟩ := hgood spec hspec
      rw [loadEntry_fresh hread] at hentry
      rw [hin, hin', Except.ok.inj hentry]
    · rw [hrest tag htag, hothers tag htag]
      rfl
  refine ⟨full, hlookup, ?_⟩
  rw [Watching.loadRuleset, hneeds]
  simp only [Bool.not_true, Bool.false_eq_true, if_false, if_neg hsome]
  change (RuleSetDb.loadSpecs _ (neededSpecs cfg) _ >>= _).map some = _
  rw [hfull, ← RuleSetDb.checkTags_congr hlookup]
  change ((full.checkTags _ _) >>= fun _ => Except.ok full).map some = _
  cases full.checkTags (neededRulesetDomainTags cfg) (neededRulesetIpcidrTags cfg) <;> rfl

/-! ### What a step keeps -/

theorem good_edit {dir : Nat} {name : Str} {content : List UInt8} {full : Bool}
    (h : Good w s.disk db spec) :
    Good w (s.editStep dir name content full).disk db spec ∨
      Unread w (s.editStep dir name content full) spec := by
  by_cases hloc : w.locate spec.path = some (dir, name)
  · exact .inr ⟨_, hloc, List.mem_append_right _ (List.mem_singleton_self _)⟩
  · obtain ⟨entry, hin, hread⟩ := h
    refine .inl ⟨entry, hin, ?_⟩
    rw [← hread, Watching.readSpec, Watching.readSpec]
    congr 1
    cases hl : w.locate spec.path with
    | none => rfl
    | some f =>
      show (if f.1 = dir ∧ f.2 = name then some content else s.disk f.1 f.2) = s.disk f.1 f.2
      rw [if_neg]
      rintro ⟨rfl, rfl⟩
      exact hloc hl

theorem stale_edit {dir : Nat} {name : Str} {content : List UInt8} {full : Bool} {p : Prop}
    (h : Good w s.disk db spec ∨ Unread w s spec ∨ p) :
    Good w (s.editStep dir name content full).disk db spec ∨
      Unread w (s.editStep dir name content full) spec ∨ p := by
  rcases h with hgood | ⟨f, hf, hmem⟩ | hp
  · exact (good_edit hgood).imp id .inl
  · exact .inr (.inl ⟨f, hf, List.mem_append_left _ hmem⟩)
  · exact .inr (.inr hp)

theorem Tracked.editStep (h : Tracked w s) (dir : Nat) (name : Str) (content : List UInt8) (full : Bool) :
    Tracked w (s.editStep dir name content full) :=
  { h with
    pending := by
      have hsub : s.queue ⊆ (s.editStep dir name content full).queue := by
        intro e he
        simp only [WatchState.editStep]
        split_ifs
        · exact he
        · exact List.mem_append_left _ he
        · exact List.mem_append_left _ he
      refine Slots.forall_mem_push (fun f hf => (h.pending f hf).mono hsub) ?_
      simp only [WatchState.editStep]
      split_ifs with hfull hmem
      · exact .inl hmem
      · exact .inl (by simp)
      · exact .inr (by simp)
    entries := fun db hdb spec hspec => stale_edit (h.entries db hdb spec hspec)
    loading := by
      intro load hload
      obtain ⟨old, hold, rfl⟩ := Option.map_eq_some_iff.mp hload
      obtain ⟨done, hl⟩ := h.loading old hold
      exact ⟨done, { hl with
        entries := fun spec hspec => stale_edit (hl.entries spec hspec)
        reported := by simp
        clean := by simp }⟩
    synced := by simp [WatchState.editStep] }

theorem Tracked.report (h : Tracked w s) (e : InotifyEvent) :
    Tracked w { s with queue := s.queue ++ [e] } :=
  { h with
    pending := fun f hf => (h.pending f hf).mono (List.subset_append_left _ _)
    loading := fun load hload => (h.loading load hload).imp fun _ hl => { hl with } }

/-- An edit that was unread is still unread after a read, or it is taken up. -/
theorem unread_read (hdirs : w.DistinctDirs) (h : Tracked w s) (hspec : spec ∈ w.specs) (n : Nat)
    (hunread : Unread w s spec) :
    Unread w (s.readReports w n) spec ∨ Changed (s.readReports w n) spec := by
  obtain ⟨f, hf, hmem⟩ := hunread
  have hpending : Pending (s.queue.take n ++ s.queue.drop n) f := by
    rw [List.take_append_drop]
    exact h.pending f hmem
  by_cases hdrop : Pending (s.queue.drop n) f
  · exact .inl ⟨f, hf, List.mem_filter.mpr ⟨hmem, decide_eq_true hdrop⟩⟩
  · have htake := hpending.append.resolve_right hdrop
    exact .inr (Watching.mem_collect hdirs hspec hf htake s.changed)

theorem Tracked.readReports (hdirs : w.DistinctDirs) (h : Tracked w s) (n : Nat) (phase : WatcherPhase)
    (hidle : ∀ attempts, s.watcher ≠ .reloading attempts) :
    Tracked w { s.readReports w n with watcher := phase } := by
  have hread : ∀ {cfg spec db}, cfg.rulesetSpecs = w.specs → spec ∈ neededSpecs cfg →
      Good w s.disk db spec ∨ Unread w s spec ∨ Changed s spec →
      Good w s.disk db spec ∨ Unread w (s.readReports w n) spec ∨ Changed (s.readReports w n) spec := by
    rintro cfg spec db hspecs hspec (hgood | hunread | hchanged)
    · exact .inl hgood
    · exact .inr (unread_read hdirs h (neededSpecs_subset hspecs hspec) n hunread)
    · exact .inr (.inr (List.mem_append_left _ hchanged))
  refine { h with
    pending := fun f hf => of_decide_eq_true (List.mem_filter.mp hf).2
    entries := fun db hdb spec hspec => hread h.specs hspec (h.entries db hdb spec hspec)
    loading := ?_ }
  intro load hload
  obtain ⟨done, hl⟩ := h.loading load hload
  -- only a config load can be under way
  have hkind : load.kind = .config := by
    cases hk : load.kind with
    | config => rfl
    | ruleset =>
      obtain ⟨attempts, hatt⟩ := (hl.ruleset hk).2.2
      exact absurd hatt (hidle attempts)
  refine ⟨done, { hl with ruleset := by simp [hkind], entries := ?_, reported := ?_ }⟩
  · intro spec hspec
    have hneeded : spec ∈ neededSpecs load.cfg := hl.split ▸ List.mem_append_left _ hspec
    have hstale := hread hl.specs hneeded ((hl.entries spec hspec).imp_right (Or.imp_right And.right))
    exact hstale.imp_right (Or.imp_right fun hchanged => ⟨hkind, hchanged⟩)
  · intro hclean
    show s.unread.filter _ = []
    rw [hl.reported hclean, List.filter_nil]

theorem Tracked.beginLoad (h : Tracked w s) {kind : LoadKind} (hspecs : cfg.rulesetSpecs = w.specs)
    (hkind : kind = .ruleset →
      cfg = s.cfg ∧ needsRuleset s.cfg = true ∧ ∃ attempts, s.watcher = .reloading attempts) :
    Tracked w (s.beginLoad kind cfg) :=
  { h with
    loading := by
      rintro load ⟨⟩
      exact ⟨[], hspecs, hkind, rfl, by simp, fun _ _ => rfl, List.isEmpty_iff.mp, by simp⟩ }

theorem Tracked.failLoad (h : Tracked w s) (kind : LoadKind) : Tracked w (s.failLoad kind) := by
  cases kind <;> exact { h with loading := nofun }

theorem Tracked.forget (h : Tracked w s) (hload : s.load = none) (hneeds : needsRuleset s.cfg = false) :
    Tracked w { s with changed := [], watcher := .waiting } :=
  { h with
    entries := by simp [neededSpecs_eq_nil hneeds]
    loading := by simp [hload] }

variable {load : Loading}

theorem Tracked.good_entry (h : Tracked w s) {done : List RuleSetSpec} (hl : LoadTracked w s load done)
    (hspec : spec ∈ neededSpecs load.cfg)
    (hentry : RuleSetDb.loadEntry (w.readSpec s.disk) (s.reuse load.kind) spec = .ok entry) :
    w.readSpec s.disk spec = .ok entry ∨ Unread w s spec := by
  rcases RuleSetDb.of_loadEntry hentry with ⟨prev, changed, hreuse, hchanged, hprev⟩ | ⟨hread, -⟩
  · -- the entry of the previous database: neither unread nor changed means good
    cases hk : load.kind with
    | config => simp [hk, reuse] at hreuse
    | ruleset =>
      rw [hk] at hreuse
      obtain ⟨db, hdb, heq⟩ := Option.map_eq_some_iff.mp hreuse
      obtain ⟨rfl, rfl⟩ := Prod.mk.inj heq
      rw [(hl.ruleset hk).1] at hspec
      rcases h.entries db hdb spec hspec with ⟨e, hin, hread⟩ | hunread | hmem
      · exact .inl (Option.some.inj (hin.symm.trans hprev) ▸ hread)
      · exact .inr hunread
      · exact absurd hmem hchanged
  · exact .inl hread

theorem Tracked.insertEntry (h : Tracked w s) {todo : List RuleSetSpec} (hload : s.load = some load)
    (htodo : load.todo = spec :: todo)
    (hentry : RuleSetDb.loadEntry (w.readSpec s.disk) (s.reuse load.kind) spec = .ok entry) :
    Tracked w { s with load := some { load with todo := todo, db := load.db.insertEntry spec entry } } := by
  obtain ⟨done, hl⟩ := h.loading load hload
  have hsplit : neededSpecs load.cfg = (done ++ [spec]) ++ todo := by
    rw [hl.split, htodo, List.append_assoc]
    rfl
  have hspec : spec ∈ neededSpecs load.cfg := by simp [hsplit]
  have hunique := neededSpecs_unique hl.specs
  have hnew : ∀ other ∈ done, other.tag ≠ spec.tag := by
    intro other hother heq
    rw [hsplit, List.append_assoc, List.map_append] at hunique
    exact (List.nodup_append.mp hunique).2.2 _ (List.mem_map_of_mem hother) _
      (List.mem_map_of_mem List.mem_cons_self) heq
  have hkeep : ∀ other ∈ done, Good w s.disk load.db other →
      Good w s.disk (load.db.insertEntry spec entry) other := by
    rintro other hother ⟨e, hin, hread⟩
    exact ⟨e, by rw [RuleSetDb.lookup_insertEntry_ne _ _ (hnew other hother), hin], hread⟩
  have hself : w.readSpec s.disk spec = .ok entry →
      Good w s.disk (load.db.insertEntry spec entry) spec :=
    fun hread => ⟨entry, RuleSetDb.lookup_insertEntry _ _ _, hread⟩
  refine { h with loading := ?_ }
  rintro load' ⟨⟩
  refine ⟨done ++ [spec], hl.specs, hl.ruleset, hsplit, ?_, ?_, hl.reported, ?_⟩
  · exact Slots.forall_mem_push (fun other hother => (hl.entries other hother).imp_left (hkeep other hother))
      ((h.good_entry hl hspec hentry).imp hself .inl)
  · intro tag htag
    rw [List.map_append, List.mem_append, not_or] at htag
    have hne : tag ≠ spec.tag := fun heq => htag.2 (by simp [heq])
    rw [RuleSetDb.lookup_insertEntry_ne _ _ hne, hl.others tag htag.1]
  · intro hclean
    refine Slots.forall_mem_push (fun other hother => hkeep other hother (hl.clean hclean other hother)) ?_
    rcases h.good_entry hl hspec hentry with hread | ⟨f, -, hmem⟩
    · exact hself hread
    · simp [hl.reported hclean] at hmem

theorem Tracked.applyLoad (h : Tracked w s) (hload : s.load = some load) (htodo : load.todo = [])
    (hchecked : load.db.checkTags (neededRulesetDomainTags load.cfg) (neededRulesetIpcidrTags load.cfg) = .ok ()) :
    Tracked w (s.applyLoad load) := by
  obtain ⟨done, hl⟩ := h.loading load hload
  have hdone : neededSpecs load.cfg = done := by rw [hl.split, htodo, List.append_nil]
  have hdb : ∀ {db}, (if needsRuleset load.cfg then some load.db else none) = some db → load.db = db :=
    fun heq => Option.some.inj (Option.ite_none_right_eq_some.mp heq).2
  have hentries : ∀ {db}, load.db = db → ∀ spec ∈ neededSpecs load.cfg,
      Good w s.disk db spec ∨ Unread w s spec ∨ load.kind = .config ∧ Changed s spec :=
    fun heq spec hspec => heq ▸ hl.entries spec (hdone ▸ hspec)
  rw [WatchState.applyLoad]
  cases hk : load.kind
  all_goals refine ⟨hl.specs, h.pending, fun hneeds => ⟨load.db, if_pos hneeds⟩, ?_,
    fun db heq tag htag => hdb heq ▸ hl.others tag (hdone ▸ htag), fun db heq => hdb heq ▸ hchecked, by simp,
    fun hclean db heq spec hspec => hdb heq ▸ hl.clean hclean spec (hdone ▸ hspec)⟩
  case ruleset =>
    intro db heq spec hspec
    refine (hentries (hdb heq) spec hspec).imp_right fun hstale => .inl (hstale.resolve_right ?_)
    simp [hk]
  case config =>
    intro db heq spec hspec
    exact (hentries (hdb heq) spec hspec).imp_right (Or.imp_right And.right)

theorem rulesetSpecs_of_not_restart {old new : Config} (h : ¬ restartRequired old new = true) :
    new.rulesetSpecs = old.rulesetSpecs := by
  simp only [restartRequired, Bool.or_eq_true, bne_iff_ne, ne_eq, not_or, not_not] at h
  exact h.2.symm

theorem Tracked.loadStep (h : Tracked w s) (hload : s.load = some load) : Tracked w (s.loadStep w load) := by
  fun_cases WatchState.loadStep w s load
  case case2 spec todo htodo entry hentry => exact h.insertEntry hload htodo hentry
  case case4 htodo _ hchecked => exact h.applyLoad hload htodo hchecked
  all_goals exact h.failLoad _

/-- What one step keeps. -/
theorem Tracked.step (hdirs : w.DistinctDirs) (h : Tracked w s) {e : WatchEvent}
    (hstep : s.step w e = some s') : Tracked w s' := by
  revert hstep
  fun_cases WatchState.step w s e <;> intro hstep
  case case12 =>
    obtain ⟨load, hload, rfl⟩ := Option.map_eq_some_iff.mp hstep
    exact h.loadStep hload
  all_goals cases hstep
  case case1 dir name content full => exact h.editStep dir name content full
  case case2 e => exact h.report e
  case case3 n hwaiting => exact h.readReports hdirs n _ (by simp [hwaiting.1])
  case case5 n hdebouncing => exact h.readReports hdirs n _ (by simp [hdebouncing])
  case case7 attempts hload hwatcher hneeds =>
    exact h.beginLoad h.specs fun _ => ⟨rfl, hneeds, attempts, hwatcher⟩
  case case8 attempts hload hwatcher hneeds => exact h.forget hload (by simpa using hneeds)
  case case10 =>
    split_ifs with hrestart
    · exact h
    · exact h.beginLoad ((rulesetSpecs_of_not_restart hrestart).trans h.specs) nofun
  case case13 => exact h.failLoad _

theorem Tracked.start {o : Option RuleSetDb} (hspecs : cfg.rulesetSpecs = w.specs)
    (hload : w.loadRuleset disk cfg none = .ok o) : Tracked w (start cfg disk o) := by
  rcases loadRuleset_ok hload with ⟨hneeds, rfl⟩ | ⟨db, rfl, hloaded, hchecked⟩
  · exact ⟨hspecs, by simp [WatchState.start], by simp [WatchState.start, hneeds], nofun, nofun, nofun, nofun,
      nofun⟩
  · obtain ⟨hentries, hothers⟩ := RuleSetDb.loadSpecs_ok (neededSpecs_unique hspecs) hloaded
    have hgood : ∀ spec ∈ neededSpecs cfg, Good w disk db spec := by
      intro spec hspec
      obtain ⟨entry, hentry, hin⟩ := hentries spec hspec
      rcases RuleSetDb.of_loadEntry hentry with ⟨prev, changed, hreuse, -⟩ | ⟨hread, -⟩
      · cases hreuse
      · exact ⟨entry, hin, hread⟩
    refine ⟨hspecs, by simp [WatchState.start], fun _ => ⟨db, rfl⟩, ?_, ?_, ?_, nofun, ?_⟩
    · rintro _ ⟨⟩ spec hspec
      exact .inl (hgood spec hspec)
    · rintro _ ⟨⟩ tag htag
      exact hothers tag htag
    · rintro _ ⟨⟩
      exact hchecked
    · rintro _ _ ⟨⟩
      exact hgood

/-! ### Answers -/

/-- `matches` of the database in use, if there is one. -/
def answersDomain (o : Option RuleSetDb) (tag name : Str) : Bool := o.any (·.matchesDomain tag name)

/-- `matches_ip` of the database in use, if there is one. -/
def answersIp (o : Option RuleSetDb) (tag : Str) (ip : IpAddr) : Bool := o.any (·.matchesIp tag ip)

/-- The database in use answers as a full load of the files on disk would. -/
def Fresh (w : Watching) (s : WatchState) : Prop :=
  ∃ full, w.loadRuleset s.disk s.cfg none = .ok full ∧
    ∀ tag ∈ neededRulesetDomainTags s.cfg ++ neededRulesetIpcidrTags s.cfg,
      (∀ name, answersDomain s.db tag name = answersDomain full tag name) ∧
      ∀ ip, answersIp s.db tag ip = answersIp full tag ip

theorem specs_ne_nil (h : Tracked w s) (hdb : s.db = some db) (hneeds : needsRuleset s.cfg = true) :
    s.cfg.rulesetSpecs ≠ [] := by
  intro hnil
  obtain ⟨tag, htag⟩ : ∃ tag, tag ∈ neededRulesetDomainTags s.cfg ++ neededRulesetIpcidrTags s.cfg := by
    apply List.exists_mem_of_ne_nil
    simpa [needsRuleset, or_comm, ← not_and_or] using hneeds
  obtain ⟨entry, hentry⟩ := RuleSetDb.checkTags_ok (h.checked db hdb) htag
  rw [h.others db hdb tag (by simp [neededSpecs, hnil])] at hentry
  cases hentry

theorem Tracked.fresh (h : Tracked w s) (hsynced : s.synced = true) : Fresh w s := by
  by_cases hneeds : needsRuleset s.cfg = true
  · obtain ⟨db, hdb⟩ := h.loaded hneeds
    obtain ⟨full, hlookup, hload⟩ := fullLoad_of_good h.specs hneeds (specs_ne_nil h hdb hneeds)
      (h.synced hsynced db hdb) (h.others db hdb)
    rw [h.checked db hdb] at hload
    refine ⟨some full, hload, ?_⟩
    intro tag _
    rw [hdb]
    constructor
    · intro name
      simp [answersDomain, RuleSetDb.matchesDomain, hlookup]
    · intro ip
      simp [answersIp, RuleSetDb.matchesIp, hlookup]
  · have hnil : neededRulesetDomainTags s.cfg ++ neededRulesetIpcidrTags s.cfg = [] := by
      simpa [needsRuleset, and_comm] using hneeds
    refine ⟨none, by rw [Watching.loadRuleset]; simp [hneeds], ?_⟩
    rw [hnil]
    simp

/-- The load ends: with an error exactly when the full load has one. -/
theorem Tracked.applied_iff (h : Tracked w s) (hload : s.load = some load) (hkind : load.kind = .ruleset)
    (hclean : load.clean = true) (hends : (s.loadStep w load).load = none) :
    (s.loadStep w load).applied = s.applied + 1 ↔ ∃ full, w.loadRuleset s.disk s.cfg none = .ok full := by
  obtain ⟨done, hl⟩ := h.loading load hload
  obtain ⟨hcfg, hneeds, -⟩ := hl.ruleset hkind
  have hfail : (s.failLoad load.kind).applied ≠ s.applied + 1 := by
    rw [hkind]
    exact Nat.ne_of_lt (Nat.lt_succ_self _)
  have happly : (s.applyLoad load).applied = s.applied + 1 := by rw [WatchState.applyLoad, hkind]
  have hfull : load.todo = [] → ¬ (needsRuleset load.cfg = true ∧ load.cfg.rulesetSpecs = []) →
      ∃ full : RuleSetDb, w.loadRuleset s.disk s.cfg none = (load.db.checkTags
        (neededRulesetDomainTags load.cfg) (neededRulesetIpcidrTags load.cfg)).map fun _ => some full := by
    intro htodo hsome
    have hdone : neededSpecs s.cfg = done := by rw [← hcfg, hl.split, htodo, List.append_nil]
    rw [hcfg] at hsome ⊢
    obtain ⟨full, -, hfull⟩ := fullLoad_of_good h.specs hneeds (fun hnil => hsome ⟨hneeds, hnil⟩)
      (hdone ▸ hl.clean hclean) (hdone ▸ hl.others)
    exact ⟨full, hfull⟩
  revert hends
  fun_cases WatchState.loadStep w s load <;> intro hends
  case case1 hempty =>
    rw [hcfg] at hempty
    simp [hfail, Watching.loadRuleset, hneeds, hempty.2]
  case case2 => cases hends
  case case3 spec todo htodo msg hmsg =>
    have hspec : spec ∈ neededSpecs s.cfg := by simp [← hcfg, hl.split, htodo]
    have hread : ∃ m, w.readSpec s.disk spec = .error m := by
      cases hr : w.readSpec s.disk spec with
      | error m => exact ⟨m, rfl⟩
      | ok e =>
        obtain ⟨e', he'⟩ := RuleSetDb.loadEntry_exists hr (s.reuse load.kind)
        simp [he'] at hmsg
    obtain ⟨m, hm⟩ := hread
    obtain ⟨m', hm'⟩ := fullLoad_error h.specs hneeds hspec hm
    simp [hfail, hm']
  case case4 hsome htodo _ hchecked =>
    obtain ⟨full, hload⟩ := hfull htodo hsome
    simp [happly, hload, hchecked, Except.map]
  case case5 hsome htodo msg hchecked =>
    obtain ⟨full, hload⟩ := hfull htodo hsome
    simp [hfail, hload, hchecked, Except.map]

end

/-- In every history of edits, reports, batches, reloads and failures, with watched directories that have
one name each: after an applied reload that began when all edits were reported, the database in use
answers as a full load of the files would; and an incremental load that began so fails exactly when the
full load does. -/
theorem run_incremental_load (w : Watching) (hdirs : w.DistinctDirs) {cfg : Config} {disk : DirEntries}
    {o : Option RuleSetDb} (hspecs : cfg.rulesetSpecs = w.specs)
    (hload : w.loadRuleset disk cfg none = .ok o) {es : List WatchEvent} {s : WatchState}
    (hrun : run (step w) (start cfg disk o) es = some s) :
    (s.synced = true → Fresh w s) ∧
    ∀ load, s.load = some load → load.kind = .ruleset → load.clean = true →
      (s.loadStep w load).load = none →
      ((s.loadStep w load).applied = s.applied + 1 ↔
        ∃ full, w.loadRuleset s.disk s.cfg none = .ok full) := by
  have htracked : Tracked w s :=
    run_invariant (fun _ _ _ h _ hs => h.step hdirs hs) (Tracked.start hspecs hload)
      (meets_true (start cfg disk o) es) hrun
  exact ⟨htracked.fresh, fun load hl hk hc he => htracked.applied_iff hl hk hc he⟩

/-- A file of one byte is the range of that one address. -/
def byteParser : RuleSetSpec → Option (List UInt8) → Except String TagEntry
  | _, some [b] => .ok (.ipCidr ⟨[(.ofNat 128 b.toNat, .ofNat 128 b.toNat)], List.pairwise_singleton _ _⟩)
  | _, _ => .error "invalid"

/-- Two specifications in two directories; `wd` says which directories the kernel takes them for. -/
def twoSpecs (pathA pathB : Str) (wd : List Component → Nat) : Watching where
  specs := [⟨['a'], .mrs, .ipCidr, pathA⟩, ⟨['b'], .mrs, .ipCidr, pathB⟩]
  tagsUnique := by simp
  wd := wd
  order := [watchParent (components pathA), watchParent (components pathB)]
  order_mem := by simp
  parse := byteParser

/-- A configuration that requests both tags. -/
def twoTags (w : Watching) : Config where
  fallback := ⟨.dual ['p'] ['s'] ⟨[['a'], ['b']], []⟩, false⟩
  cacheMinTtl := 0
  cacheMaxTtl := 0
  servers := []
  rules := []
  rulesetSpecs := w.specs

/-- Both files have the address 1, in directories 0 and 1. -/
def onesOnDisk : DirEntries := fun _ _ => some [1]

/-- The database that the startup loads. -/
def loadedAt (w : Watching) (disk : DirEntries) (cfg : Config) : Option RuleSetDb :=
  match w.loadRuleset disk cfg none with
  | .ok o => o
  | .error _ => none

/-- The two files are edited in the directories `dirA` and `dirB`, both edits are reported and a reload
follows. -/
def editBoth (dirA dirB : Nat) : List WatchEvent :=
  [.edit dirA ['a'] [2] false, .edit dirB ['b'] [3] false, .collect 2, .coalesce 0, .reloadRuleset,
    .loadStep, .loadStep, .loadStep]

/-- `/r/a` and `/t/b`. -/
def distinctDirs : Watching :=
  twoSpecs ['/', 'r', '/', 'a'] ['/', 't', '/', 'b'] fun dir =>
    if dir = [.rootDir, .normal ['r']] then 0 else 1

theorem run_incremental_load_distinctDirs :
    ∃ s, run (step distinctDirs) (start (twoTags distinctDirs) onesOnDisk
        (loadedAt distinctDirs onesOnDisk (twoTags distinctDirs))) (editBoth 0 1) = some s ∧
      s.applied = 1 ∧ Fresh distinctDirs s := by
  have hok : ∃ o, distinctDirs.loadRuleset onesOnDisk (twoTags distinctDirs) none = .ok o := by
    cases h : distinctDirs.loadRuleset onesOnDisk (twoTags distinctDirs) none with
    | ok o => exact ⟨o, rfl⟩
    | error msg =>
      have hsome : (loadedAt distinctDirs onesOnDisk (twoTags distinctDirs)).isSome = true := by
        decide +kernel
      simp [loadedAt, h] at hsome
  obtain ⟨o, ho⟩ := hok
  have hstart : loadedAt distinctDirs onesOnDisk (twoTags distinctDirs) = o := by rw [loadedAt, ho]
  obtain ⟨s, hrun, hs⟩ := (Option.any_eq_true _ _).mp (show (run (step distinctDirs)
    (start (twoTags distinctDirs) onesOnDisk (loadedAt distinctDirs onesOnDisk (twoTags distinctDirs)))
    (editBoth 0 1)).any (fun s => decide (s.applied = 1 ∧ s.synced = true)) = true by decide +kernel)
  obtain ⟨happlied, hsynced⟩ := of_decide_eq_true hs
  refine ⟨s, hrun, happlied, ?_⟩
  rw [hstart] at hrun
  exact (run_incremental_load distinctDirs (by decide +kernel) rfl ho hrun).1 hsynced

/-- `/r/a` and `/r/../r/b`, which are in the same directory. -/
def oneDirTwoNames : Watching :=
  twoSpecs ['/', 'r', '/', 'a'] ['/', 'r', '/', '.', '.', '/', 'r', '/', 'b'] fun _ => 0

/-- The edit of `/r/a` is reported under the other name of its directory and lost: after the reload the
tag answers for the old address and not for the new one. -/
theorem report_under_other_name_lost :
    (run (step oneDirTwoNames) (start (twoTags oneDirTwoNames) onesOnDisk
        (loadedAt oneDirTwoNames onesOnDisk (twoTags oneDirTwoNames))) (editBoth 0 0)).any (fun s =>
      decide (s.applied = 1 ∧ s.synced = true ∧
        ['a'] ∈ neededRulesetIpcidrTags s.cfg ∧
        answersIp s.db ['a'] (.v6 1) = true ∧ answersIp s.db ['a'] (.v6 2) = false ∧
        answersIp (loadedAt oneDirTwoNames s.disk s.cfg) ['a'] (.v6 1) = false ∧
        answersIp (loadedAt oneDirTwoNames s.disk s.cfg) ['a'] (.v6 2) = true)) = true := by
  decide +kernel

end WatchState

end PathDns
