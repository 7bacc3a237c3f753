import PathDns.Cache.Store
import PathDns.Dns.Ecs
import PathDns.Lib.Reader
import PathDns.IpRange

/-!
# Servers, rules and route targets (`server.rs`, `router.rs`, `response_filter.rs`)

The routing state a query works with. A server and a rule carry the proof that their `stripEcs` flag is
the one their upstream endpoints give.
-/

namespace PathDns

open Bytes

/-- True when every endpoint removes ECS before sending (mode strip or unset), or no query is sent at
all because the answer is fixed. -/
def ServerSpec.stripsEcs : ServerSpec → Bool
  | .upstream endpoints => endpoints.all (fun e => e.ecsMode == some .strip || e.ecsMode == none)
  | .fixed _ => true

/-- `Server`; its pool is known by its endpoints. -/
structure Server where
  name : Str
  index : Nat
  kind : ServerSpec
  stripEcs : Bool
  stripEcs_eq : stripEcs = kind.stripsEcs

inductive FilterAction where
  | accept
  | drop
  | forward (server : Nat)
deriving DecidableEq, Repr

structure ResponseFilter where
  answerIp : AnswerIpMatcher
  responseType : List UInt16
  responseRcode : List UInt8
  responseQclass : List UInt16
  action : FilterAction
deriving DecidableEq, Repr

structure Rule where
  index : Nat
  server : Str
  kind : ServerSpec
  cachePolicy : ResolvedCachePolicy
  filters : List ResponseFilter
  matcher : List RuleMatcher
  stripEcs : Bool
  stripEcs_eq : stripEcs = kind.stripsEcs

inductive ResolvedFallback where
  | rule (idx : Nat)
  | server (idx : Nat)
  | race (primary secondary : Nat)
  | cidrTest (primary secondary : Nat)
deriving DecidableEq, Repr

/-- The part of `HotState` a query reads once its target is known. -/
structure HotState where
  cfg : Config
  servers : List Server
  rules : List Rule
  fallback : ResolvedFallback
  ruleset : Option RuleSetDb
  generation : UInt64

def buildServers (cfg : Config) : List Server :=
  cfg.servers.mapIdx (fun idx s => ⟨s.1, idx, s.2, s.2.stripsEcs, rfl⟩)

/-- `server_by_name`: collected into a hash map, so the last entry of a name wins. -/
def serverByName (servers : List Server) (name : Str) : Option Server :=
  servers.reverse.find? (fun s => s.name = name)

/-- `build_response_filters` for one filter. -/
def buildResponseFilter (servers : List Server) (spec : RuleFilterSpec) : Except String ResponseFilter := do
  let action ←
    match spec.action with
    | .accept => pure FilterAction.accept
    | .drop => pure FilterAction.drop
    | .forward name =>
      match serverByName servers name with
      | some s => pure (FilterAction.forward s.index)
      | none =>
        let shown := String.ofList name
        throw s!"filter forward target \"{shown}\": no such route.servers entry"
  return ⟨spec.answerIp, spec.responseType, spec.responseRcode, spec.responseQclass, action⟩

/-- `build_rules` for one rule. Indexing the name map panics on a name it does not hold. -/
def buildRule (servers : List Server) (cache : DnsCache) (idx : Nat) (spec : RuleSpec) :
    Checked (Except String Rule) :=
  match serverByName servers spec.server with
  | none => .error .index
  | some server => .ok do
    let filters ← spec.filters.mapM (buildResponseFilter servers)
    let policy := cache.resolvePolicy spec.cachePolicy
    let lo := policy.minTtl
    let hi := policy.maxTtl
    if 0 < lo ∧ 0 < hi ∧ hi < lo then
      throw (s!"rule #{idx}: effective cache.min-ttl ({lo}) exceeds effective cache.max-ttl ({hi}) " ++
        "once inherited from the global cache config")
    return {
      index := idx
      server := spec.server
      kind := server.kind
      cachePolicy := policy
      filters := filters
      matcher := spec.matcher
      stripEcs := server.stripEcs
      stripEcs_eq := server.stripEcs_eq }

def resolveFallback (cfg : Config) (rules : List Rule) (servers : List Server) :
    Except String ResolvedFallback :=
  let findServer (name : Str) : Except String Nat :=
    match servers.findIdx? (fun s => s.name = name) with
    | some i => .ok i
    | none =>
      let shown := String.ofList name
      .error s!"fallback server not found: {shown}"
  match cfg.fallback.target with
  | .lastRule =>
    if rules = [] then .error "route.final is required when route.rules is empty"
    else .ok (.rule (rules.length - 1))
  | .server name => (findServer name).map .server
  | .dual primary secondary answerIp => do
    let p ← findServer primary
    let s ← findServer secondary
    return if answerIp.isEmpty then .race p s else .cidrTest p s

/-- `needed_ruleset_domain_tags` and `needed_ruleset_ipcidr_tags`. -/
def neededRulesetDomainTags (cfg : Config) : List Str :=
  cfg.rules.flatMap (fun spec => spec.matcher.flatMap (fun m => match m with
    | .tag includes excludes => includes ++ excludes
    | .domain _ => []))

def neededRulesetIpcidrTags (cfg : Config) : List Str :=
  (match cfg.fallback.target with
    | .dual _ _ answerIp => answerIp.includes ++ answerIp.excludes
    | _ => []) ++
  cfg.rules.flatMap (fun spec => spec.filters.flatMap (fun f => f.answerIp.includes ++ f.answerIp.excludes))

def needsRuleset (cfg : Config) : Bool :=
  !(neededRulesetDomainTags cfg).isEmpty || !(neededRulesetIpcidrTags cfg).isEmpty

/-- `build_hot_state`, with the ruleset it loads. -/
def buildHotState (cfg : Config) (cache : DnsCache) (ruleset : Option RuleSetDb) (generation : UInt64) :
    Checked (Except String HotState) := do
  let servers := buildServers cfg
  let built ← (cfg.rules.mapIdx (fun idx spec => (idx, spec))).mapM
    (fun r => buildRule servers cache r.1 r.2)
  return do
    let rules ← built.mapM id
    let fallback ← resolveFallback cfg rules servers
    return ⟨cfg, servers, rules, fallback, ruleset, generation⟩

theorem buildHotState_eq {cfg : Config} {cache : DnsCache} {ruleset : Option RuleSetDb}
    {generation : UInt64} {hot : HotState}
    (h : buildHotState cfg cache ruleset generation = .ok (.ok hot)) :
    ∃ built rules fallback,
      (cfg.rules.mapIdx (fun idx spec => (idx, spec))).mapM
        (fun r => buildRule (buildServers cfg) cache r.1 r.2) = .ok built ∧
      built.mapM id = .ok rules ∧
      hot = ⟨cfg, buildServers cfg, rules, fallback, ruleset, generation⟩ := by
  rw [buildHotState] at h
  obtain ⟨built, hbuilt, h⟩ := Fallible.bind_eq_ok_iff.mp h
  obtain ⟨rules, hrules, h⟩ := Fallible.bind_eq_ok_iff.mp (Except.ok.inj h)
  obtain ⟨fallback, -, ⟨⟩⟩ := Fallible.bind_eq_ok_iff.mp h
  exact ⟨built, rules, fallback, hbuilt, hrules, rfl⟩

theorem buildHotState_ok {cfg : Config} {cache : DnsCache} {ruleset : Option RuleSetDb}
    {generation : UInt64} {hot : HotState}
    (h : buildHotState cfg cache ruleset generation = .ok (.ok hot)) :
    hot.cfg = cfg ∧ hot.generation = generation := by
  obtain ⟨built, rules, fallback, -, -, rfl⟩ := buildHotState_eq h
  exact ⟨rfl, rfl⟩

/-- `ResponseFilter::matches`. -/
def ResponseFilter.matchesResponse (f : ResponseFilter) (ruleset : Option RuleSetDb) (resp : Packet)
    (questionEnd : Nat) : Bool :=
  (f.answerIp.isEmpty ||
    ruleset.any (fun rs => rs.matchesAnswerIp f.answerIp (answerIps resp questionEnd))) &&
  (f.responseType.isEmpty ||
    (answerRrTypes resp questionEnd).any (fun t => f.responseType.contains (.ofNat t))) &&
  (f.responseRcode.isEmpty || f.responseRcode.contains (.ofNat (rcode resp))) &&
  (f.responseQclass.isEmpty ||
    f.responseQclass.contains (.ofNat ((questionQclass resp questionEnd).getD 0)))

/-- `first_match`: the first filter that matches the response, with its index. -/
def firstMatch (filters : List ResponseFilter) (ruleset : Option RuleSetDb) (resp : Packet)
    (questionEnd : Nat) : Option (Nat × ResponseFilter) :=
  (filters.mapIdx (fun i f => (i, f))).find? (fun p => p.2.matchesResponse ruleset resp questionEnd)

inductive RouteTarget where
  | rule (rule : Rule) (idx : Nat)
  | server (server : Server) (idx : Nat)
  | race (primary secondary : Server)
  | cidrTest (primary secondary : Server)

namespace RouteTarget

def skipCache : RouteTarget → Bool
  | .rule r _ => r.cachePolicy.skip
  | _ => false

def resolvedKind (winner : Option Server) : RouteTarget → Option ServerSpec
  | .rule r _ => some r.kind
  | .server s _ => some s.kind
  | .race _ _ => winner.map (·.kind)
  | .cidrTest _ _ => winner.map (·.kind)

def stripEcs : RouteTarget → Bool
  | .rule r _ => r.stripEcs
  | .server s _ => s.stripEcs
  | .race primary secondary => primary.stripEcs && secondary.stripEcs
  | .cidrTest primary secondary => primary.stripEcs && secondary.stripEcs

end RouteTarget

/-- `v[i]` on a vector. -/
def index {α : Type} (xs : List α) (i : Nat) : Checked α :=
  match xs[i]? with
  | some x => .ok x
  | none => .error .index

theorem index_eq_ok_iff {α : Type} {xs : List α} {i : Nat} {x : α} : index xs i = .ok x ↔ xs[i]? = some x := by
  rw [index]
  cases xs[i]? <;> simp

/-- `classify_target`: the IP test is made for A and AAAA queries only. -/
def classifyTarget (hot : HotState) (qtype : Nat) : Checked RouteTarget :=
  match hot.fallback with
  | .rule idx => do return .rule (← index hot.rules idx) idx
  | .server idx => do return .server (← index hot.servers idx) idx
  | .race p s => do return .race (← index hot.servers p) (← index hot.servers s)
  | .cidrTest p s => do
    let primary ← index hot.servers p
    let secondary ← index hot.servers s
    return if qtype = 1 ∨ qtype = 28 then .cidrTest primary secondary else .race primary secondary

inductive RuleAttribution where
  | rule (idx : Nat)
  | final (idx : Nat)
  | finalUnknown
  | none
deriving DecidableEq, Repr

def RuleAttribution.toWire : RuleAttribution → UInt16
  | .rule idx => .ofNat idx
  | .final idx => 0x8000 ||| .ofNat idx
  | .finalUnknown => 65534
  | .none => 65535

end PathDns
