import PathDns.Cache.Persist
import PathDns.Config.Fingerprint
import PathDns.Lib.Runs
import PathDns.Resolver.Leader
import PathDns.Verdict

/-!
# Queries, reloads, file edits and saves in one system

The shared state of the process with everything that runs on it at the same time, each cut at the
accesses to that state:

* a query in flight (`Flight`): it loads the hot state once, may read a verdict, then checks the routing
  generation and writes, first to the verdict cache and then to the response cache
  (`resolve_query`, `resolve_none_rule_with_cidr`, `exchange_with_dedupe`);
* a reload under the reload lock: it reads ruleset files one by one, stores a hot state, clears the
  response cache and clears the verdict cache (`reload_ruleset`, `reload_config`);
* a save: it loads the config, reads the metadata of the ruleset files one by one, walks over the
  response cache, writes its file, and does the same for the verdict cache (`async_main`, `save_caches`);
* edits of ruleset files, and bindings the caches forget.

An event is one access. What the source does not record is kept beside it: the number of hot states
stored so far (the epoch), what each of them was built from, and for every cached decision the epochs it
was made in.
-/

namespace PathDns

open Runs

/-! ### Ruleset files -/

/-- A ruleset file. -/
structure DiskFile where
  content : List UInt8
  mtime : UInt64
deriving DecidableEq, Repr

abbrev Disk := Str → Option DiskFile

/-- What decisions depend on: the configuration, and for each needed tag the content of its file. -/
structure Origin where
  cfg : Config
  contents : Str → Option (List UInt8)

/-- The specifications whose files `RuleSetDb::load` opens. -/
def neededSpecs (cfg : Config) : List RuleSetSpec :=
  cfg.rulesetSpecs.filter (fun spec =>
    (neededRulesetDomainTags cfg).contains spec.tag || (neededRulesetIpcidrTags cfg).contains spec.tag)

theorem neededSpecs_eq_nil {cfg : Config} (h : needsRuleset cfg = false) : neededSpecs cfg = [] := by
  rw [needsRuleset, Bool.or_eq_false_iff, Bool.not_eq_false', Bool.not_eq_false', List.isEmpty_iff,
    List.isEmpty_iff] at h
  rw [neededSpecs, h.1, h.2]
  simp

/-- The content of a tag among files that were read; the last specification of a tag wins. -/
def contentsOf (files : List (RuleSetSpec × Option (List UInt8))) (tag : Str) : Option (List UInt8) :=
  (files.reverse.find? (fun f => f.1.tag = tag)).bind (·.2)

/-- What a configuration and the files on disk describe. -/
def Origin.of (cfg : Config) (disk : Disk) : Origin where
  cfg := cfg
  contents := contentsOf ((neededSpecs cfg).map (fun spec => (spec, (disk spec.path).map (·.content))))

/-- The parsing of one ruleset file. -/
abbrev RulesetParser := RuleSetSpec → List UInt8 → Option TagEntry

/-- The database of the files that were read, none when one of them does not parse. -/
def loadDb (parse : RulesetParser) (files : List (RuleSetSpec × List UInt8)) : Option RuleSetDb :=
  files.foldlM (fun db f => (parse f.1 f.2).map (fun entry => ⟨db.tags.insert f.1.tag entry⟩)) ⟨∅⟩

/-! ### Queries in flight -/

/-- The next access of a query. The flag of a check is its outcome, the number the epoch of the last
clear of the cache at that time. -/
inductive FlightPc where
  | routed
  | verdictRead
  | verdictChecked (unchanged : Bool) (clears : Nat)
  | verdictDone
  | cacheChecked (write : Bool) (clears : Nat)
  | done

/-- A query in flight. -/
structure Flight where
  ctx : QueryContext
  hot : HotState
  target : RouteTarget
  up : Upstreams
  pc : FlightPc
  epoch : Nat
  verdictEpoch : Option Nat

namespace Flight

/-- The epochs of the decisions behind the response. -/
def decisions (f : Flight) : List Nat := f.epoch :: f.verdictEpoch.toList

/-- Whether the verdict cache is asked: an IP test with tags and a ruleset. -/
def asksVerdict (f : Flight) : Bool :=
  match f.target, f.hot.cfg.fallback.target, f.hot.ruleset with
  | .cidrTest _ _, .dual _ _ answerIp, some _ => !answerIp.isEmpty
  | _, _, _ => false

/-- The verdict the query decides itself. -/
def decidedVerdict (f : Flight) : Option Bool :=
  match f.target with
  | .cidrTest primary secondary => (resolveNoneRuleWithCidr f.ctx f.hot primary secondary f.up).verdict
  | _ => none

/-- The response, with the winner of a race and the server of a forward. -/
def response (f : Flight) : Option (Answer × Option Nat × Option Nat) :=
  let ruleset := if needsRuleset f.hot.cfg then f.hot.ruleset else none
  match resolveWithFilters f.ctx f.hot ruleset f.target f.up with
  | .ok (.ok (.response answer winner forwarded)) => some (answer, winner, forwarded)
  | _ => none

end Flight

/-- The target of a query, from the rule its name is routed to. -/
def resolveTarget (hot : HotState) (qtype : Nat) (routed : Option Nat) : Option RouteTarget :=
  match routed.bind (hot.rules[·]?) with
  | some rule => some (.rule rule rule.index)
  | none => (classifyTarget hot qtype).toOption

/-! ### Reloads -/

/-- Where a reload stands. `changed` are the changed paths of a ruleset reload; a config reload reads
every file anew. -/
inductive ReloadPhase where
  | idle
  | reading (changed : Option (List Str)) (cfg : Config) (todo : List RuleSetSpec)
      (read : List (RuleSetSpec × List UInt8))
  | stored
  | cacheCleared
deriving DecidableEq

/-- The startup-owned fields of the model a config reload refuses to change. -/
def restartRequired (old new : Config) : Bool :=
  old.cacheMinTtl != new.cacheMinTtl || old.cacheMaxTtl != new.cacheMaxTtl ||
    old.rulesetSpecs != new.rulesetSpecs

/-! ### Saves -/

inductive SaverPhase where
  | fingerprinting
  | walking (entries : List (Record × List Nat))
  | walkingVerdicts (entries : List (Utf8.Text × VerdictEntry × Nat))
  | done

/-- Ruleset files as they were found on disk. -/
abbrev FilesRead := List (RuleSetSpec × Option DiskFile)

/-- The metadata of files that were read. -/
def FilesRead.metadata (read : FilesRead) : Metadata := fun spec =>
  (read.find? (fun f => f.1 = spec)).bind (fun f => f.2.map (fun file =>
    (file.mtime, .ofNat file.content.length)))

/-- The contents of the files that the config needs. -/
def FilesRead.contents (read : FilesRead) (cfg : Config) : Str → Option (List UInt8) :=
  contentsOf ((read.filter (fun f => f.1 ∈ neededSpecs cfg)).map (fun f => (f.1, f.2.map (·.content))))

/-- A save, with the config it loaded and the files whose metadata it has read. -/
structure Saver where
  cfg : Config
  epoch : Nat
  todo : List RuleSetSpec
  seen : FilesRead
  phase : SaverPhase

namespace Saver

/-- The metadata the save has read. -/
def metadata (v : Saver) : Metadata := v.seen.metadata

/-- What the fingerprint of the save describes. -/
def described (v : Saver) : Origin where
  cfg := v.cfg
  contents := v.seen.contents v.cfg

end Saver

/-- A cache file with the epochs of the decisions behind each record. -/
structure SavedFile where
  fingerprint : UInt64
  described : Origin
  entries : List (Record × List Nat)

/-- A verdict file. -/
structure SavedVerdicts where
  fingerprint : UInt64
  described : Origin
  entries : List (Utf8.Text × VerdictEntry × Nat)

/-! ### The system -/

structure System where
  hot : HotState
  cache : DnsCache
  verdicts : VerdictCache
  disk : Disk
  flights : List Flight
  reload : ReloadPhase
  savers : List Saver
  files : List SavedFile
  verdictFiles : List SavedVerdicts
  epoch : Nat
  origins : List Origin
  stamps : AList (fun _ : CacheKey => List Nat)
  verdictStamps : AList (fun _ : Utf8.Text => Nat)
  cacheClears : Nat
  verdictClears : Nat
  finished : Nat

/-- One access to the shared state. -/
inductive SystemEvent where
  | edit (path : Str) (file : Option DiskFile)
  | query (ctx : QueryContext) (routed : Option Nat) (up : Upstreams)
  | advance (i now nowUnix : Nat)
  | forget (key : CacheKey)
  | forgetVerdict (qname : Utf8.Text)
  | reloadRuleset (changed : List Str)
  | reloadConfig (cfg : Config)
  | reloadStep
  | reloadFail
  | save
  | saveStep (j : Nat)
  | saveVisit (j : Nat) (key : CacheKey) (now nowUnix : Nat)
  | saveVisitVerdict (j : Nat) (qname : Utf8.Text) (nowUnix : Nat)

namespace System

/-- What the current hot state was built from. -/
def origin (s : System) : Origin := s.origins.getD s.epoch ⟨s.hot.cfg, fun _ => none⟩

def setFlight (s : System) (i : Nat) (f : Flight) : System := { s with flights := s.flights.set i f }

def setSaver (s : System) (j : Nat) (v : Saver) : System := { s with savers := s.savers.set j v }

/-- The write to the verdict cache. -/
def addVerdict (s : System) (f : Flight) (nowUnix : Nat) (isPrimary : Bool) : System :=
  { s with
    verdicts := s.verdicts.add nowUnix f.ctx.qname isPrimary
    verdictStamps := s.verdictStamps.insert f.ctx.qname f.epoch }

/-- The write to the response cache. -/
def addResponse (s : System) (f : Flight) (now : Nat) (answer : Answer)
    (winner forwarded : Option Nat) : System :=
  let ins := leaderInsert f.ctx f.target answer.packet
  let policy := leaderPolicy s.cache f.hot f.target winner forwarded
  { s with
    cache := s.cache.add now ins policy.1 policy.2.toWire
    stamps := if (DnsCache.entryOf now ins policy.1 policy.2.toWire).isSome then
        s.stamps.insert ins.key f.decisions else s.stamps }

/-- `state.hot_generation() == routing_gen`. -/
def unchanged (s : System) (f : Flight) : Bool := s.hot.generation == f.hot.generation

/-- The next access of flight `i`. -/
def advance (s : System) (i now nowUnix : Nat) (f : Flight) : Option System :=
  match f.pc with
  | .routed =>
    if f.asksVerdict then
      let verdict := s.verdicts.get nowUnix f.ctx.qname
      some (s.setFlight i { f with
        up := { f.up with verdict := verdict }
        verdictEpoch := if verdict.isSome then s.verdictStamps.lookup f.ctx.qname else none
        pc := .verdictRead })
    else some (s.setFlight i { f with pc := .verdictRead })
  | .verdictRead =>
    match f.decidedVerdict with
    | none => some (s.setFlight i { f with pc := .verdictDone })
    | some _ => some (s.setFlight i { f with pc := .verdictChecked (s.unchanged f) s.verdictClears })
  | .verdictChecked write _ =>
    match f.decidedVerdict with
    | some isPrimary =>
      let s := s.setFlight i { f with pc := .verdictDone }
      some (if write then s.addVerdict f nowUnix isPrimary else s)
    | none => none
  | .verdictDone =>
    match f.response with
    | none => some (s.setFlight i { f with pc := .done })
    | some _ =>
      let write := !f.target.skipCache && s.cache.cache.isSome && s.unchanged f
      some (s.setFlight i { f with pc := .cacheChecked write s.cacheClears })
  | .cacheChecked write _ =>
    match f.response with
    | some (answer, winner, forwarded) =>
      let s := s.setFlight i { f with pc := .done }
      some (if write then s.addResponse f now answer winner forwarded else s)
    | none => none
  | .done => none

/-- The content a reload takes for a specification: that of the previous database for an unchanged path
of a ruleset reload, else that on disk. -/
def reloadContent (s : System) (changed : Option (List Str)) (spec : RuleSetSpec) :
    Option (List UInt8) :=
  let reused := match changed with
    | some paths => if paths.contains spec.path then none else s.origin.contents spec.tag
    | none => none
  reused.or ((s.disk spec.path).map (·.content))

/-- The hot state a reload stores. -/
def reloadedHot (parse : RulesetParser) (s : System) (changed : Option (List Str)) (cfg : Config)
    (read : List (RuleSetSpec × List UInt8)) : Option HotState :=
  match loadDb parse read with
  | none => none
  | some db =>
    match changed with
    | some _ => some { s.hot with ruleset := some db, generation := s.hot.generation + 1 }
    | none =>
      if needsRuleset cfg && cfg.rulesetSpecs.isEmpty then none
      else
        match buildHotState cfg s.cache (if needsRuleset cfg then some db else none)
            (s.hot.generation + 1) with
        | .ok (.ok hot) => some hot
        | _ => none

/-- The next access of the reload. -/
def reloadStep (parse : RulesetParser) (s : System) : Option System :=
  match s.reload with
  | .idle => none
  | .reading changed cfg (spec :: todo) read =>
    match s.reloadContent changed spec with
    | none => some { s with reload := .idle }
    | some content => some { s with reload := .reading changed cfg todo (read ++ [(spec, content)]) }
  | .reading changed cfg [] read =>
    match reloadedHot parse s changed cfg read with
    | none => some { s with reload := .idle }
    | some hot => some { s with
        hot := hot
        reload := .stored
        epoch := s.epoch + 1
        origins := s.origins ++ [⟨cfg, contentsOf (read.map (fun r => (r.1, some r.2)))⟩] }
  | .stored => some { s with
      cache := s.cache.invalidateAll
      stamps := ∅
      cacheClears := s.epoch
      reload := .cacheCleared }
  | .cacheCleared => some { s with
      verdicts := s.verdicts.invalidateAll
      verdictStamps := ∅
      verdictClears := s.epoch
      finished := s.epoch
      reload := .idle }

/-- The next access of save `j`, apart from its visits of cache entries. -/
def saveStep (special : Char → Bool) (s : System) (j : Nat) (v : Saver) : Option System :=
  match v.phase with
  | .fingerprinting =>
    match v.todo with
    | spec :: todo => some (s.setSaver j { v with
        todo := todo
        seen := v.seen ++ [(spec, s.disk spec.path)] })
    | [] => some (s.setSaver j { v with phase := .walking [] })
  | .walking entries =>
    let s' := s.setSaver j { v with phase := if s.verdicts.enabled then .walkingVerdicts [] else .done }
    some (if s.cache.cache.isSome then { s' with
        files := s.files ++ [⟨cacheFingerprint special v.metadata v.cfg, v.described, entries⟩] }
      else s')
  | .walkingVerdicts entries =>
    some { s.setSaver j { v with phase := .done } with
      verdictFiles := s.verdictFiles ++
        [⟨cacheFingerprint special v.metadata v.cfg, v.described, entries⟩] }
  | .done => none

/-- The walk of save `j` comes by a key of the response cache. -/
def saveVisit (s : System) (j : Nat) (key : CacheKey) (now nowUnix : Nat) (v : Saver) : Option System :=
  match v.phase with
  | .walking entries =>
    match (s.cache.cache.bind (·.lookup key)).bind (DnsCache.recordOf nowUnix now key) with
    | none => some s
    | some record => some (s.setSaver j { v with
        phase := .walking (entries ++ [(record, (s.stamps.lookup key).getD [])]) })
  | _ => none

/-- The walk of save `j` comes by a name of the verdict cache. -/
def saveVisitVerdict (s : System) (j : Nat) (qname : Utf8.Text) (nowUnix : Nat) (v : Saver) :
    Option System :=
  match v.phase with
  | .walkingVerdicts entries =>
    match s.verdicts.inner.bind (·.lookup qname), s.verdictStamps.lookup qname with
    | some entry, some stamp =>
      if s.verdicts.isExpired entry.insertedUnix nowUnix then some s
      else some (s.setSaver j { v with
        phase := .walkingVerdicts (entries ++ [(qname, entry, stamp)]) })
    | _, _ => some s
  | _ => none

/-- The state after an event, none when the event cannot happen. -/
def step (parse : RulesetParser) (special : Char → Bool) (s : System) : SystemEvent → Option System
  | .edit path file => some { s with disk := fun p => if p = path then file else s.disk p }
  | .query ctx routed up =>
    (resolveTarget s.hot ctx.fast.qtype routed).map (fun target =>
      { s with flights := s.flights ++ [⟨ctx, s.hot, target, up, .routed, s.epoch, none⟩] })
  | .advance i now nowUnix => s.flights[i]?.bind (s.advance i now nowUnix)
  | .forget key => some { s with cache := s.cache.remove key, stamps := s.stamps.erase key }
  | .forgetVerdict qname => some { s with
      verdicts := s.verdicts.remove qname
      verdictStamps := s.verdictStamps.erase qname }
  | .reloadRuleset changed =>
    match s.reload with
    | .idle => some (if needsRuleset s.hot.cfg then
        { s with reload := .reading (some changed) s.hot.cfg (neededSpecs s.hot.cfg) [] } else s)
    | _ => none
  | .reloadConfig cfg =>
    match s.reload with
    | .idle => some (if restartRequired s.hot.cfg cfg then s
        else { s with reload := .reading none cfg (neededSpecs cfg) [] })
    | _ => none
  | .reloadStep => s.reloadStep parse
  | .reloadFail =>
    match s.reload with
    | .reading _ _ _ _ => some { s with reload := .idle }
    | _ => none
  | .save => some { s with
      savers := s.savers ++ [⟨s.hot.cfg, s.epoch, s.hot.cfg.rulesetSpecs, [], .fingerprinting⟩] }
  | .saveStep j => s.savers[j]?.bind (saveStep special s j)
  | .saveVisit j key now nowUnix => s.savers[j]?.bind (s.saveVisit j key now nowUnix)
  | .saveVisitVerdict j qname nowUnix => s.savers[j]?.bind (s.saveVisitVerdict j qname nowUnix)

/-- Every entry of the response cache is stamped, with epochs that satisfy `A`. -/
def ResponsesStamped (A : List Nat → Prop) (s : System) : Prop :=
  ∀ m, s.cache.cache = some m → FinMap.Noted A m s.stamps

/-- Every verdict is stamped, with an epoch that satisfies `A`. -/
def VerdictsStamped (A : Nat → Prop) (s : System) : Prop :=
  ∀ m, s.verdicts.inner = some m → FinMap.Noted A m s.verdictStamps

/-- The state after startup: what the caches loaded from their files counts as decided under the first
hot state. -/
structure Initial (s : System) : Prop where
  epoch : s.epoch = 0
  cacheClears : s.cacheClears = 0
  verdictClears : s.verdictClears = 0
  finished : s.finished = 0
  reload : s.reload = .idle
  flights : s.flights = []
  savers : s.savers = []
  files : s.files = []
  verdictFiles : s.verdictFiles = []
  origins : s.origins = [Origin.of s.hot.cfg s.disk]
  stamps : s.ResponsesStamped (· = [0])
  verdictStamps : s.VerdictsStamped (· = 0)

end System

end PathDns
