import PathDns.Server
import PathDns.Dns.Builder
import PathDns.Lib.Reader

/-!
# Resolving one query (`resolver.rs`)

What the leader of a query does once its target is known: the exchange with the target's server, the
rule's filters, the race of a primary and a secondary, and what is stored and published. The results of
the network exchanges and their order are inputs (`Upstreams`). A response carries the server that
produced it, which the source does not record.
-/

namespace PathDns

open Bytes Fallible

/-- A response and the server that produced it. -/
structure Answer where
  packet : Packet
  producer : ServerSpec
deriving DecidableEq, Repr

/-- What comes back on the wire for a query sent under `upstreamId`. -/
structure WireReply where
  packet : Packet
  upstreamId : Nat
deriving DecidableEq, Repr

/-- The replies of the upstream pools, the order in which a race completes and what the verdict cache
answers. -/
structure Upstreams where
  own : Except String WireReply
  forwarded : Except String WireReply
  primary : Except String WireReply
  secondary : Except String WireReply
  primaryFirst : Bool
  verdict : Option Bool

/-- `QueryContext` with the fields of `QueryInfo` the leader reads, as a missed probe hands them over. -/
structure QueryContext where
  packet : Packet
  fast : FastQueryInfo
  qname : Utf8.Text
  variant : QueryVariant
  precomputedCacheKeys : Option (CacheKey × Option CacheKey)
  accepted : parseQueryFast packet = .ok fast
  variant_eq : variant = extractVariant packet fast.questionEnd
  keys_eq : ∀ keys, precomputedCacheKeys = some keys → keys = (cacheKey packet fast variant false,
    if variant.ecsSrc.isSome then some (cacheKey packet fast variant true) else none)

/-- The context of a parsed query for `a`. -/
def contextOf (packet : Packet) (h : parseQueryFast packet = .ok (fastInfo packet)) : QueryContext where
  packet := packet
  fast := fastInfo packet
  qname := ⟨[97], Utf8.valid_letter⟩
  variant := extractVariant packet (fastInfo packet).questionEnd
  precomputedCacheKeys := none
  accepted := h
  variant_eq := rfl
  keys_eq := by simp

def validateUpstreamResponse (resp : Packet) (upstreamId : Nat) (question : List UInt8) :
    Except String Unit :=
  if !isReply resp then .error "response QR bit not set"
  else if u16be resp 0 ≠ upstreamId then .error "response ID mismatch"
  else
    let respQ := match questionEnd resp with
      | some e => if 12 ≤ e ∧ e ≤ resp.length then slice resp 12 e else []
      | none => []
    if questionsMatch respQ question then .ok () else .error "response question mismatch"

/-- `finalize_response`: the validated response under the client's ID. -/
def finalizeResponse (resp : Packet) (upstreamId : Nat) (question : List UInt8) (clientId : Nat) :
    Except String Packet :=
  (validateUpstreamResponse resp upstreamId question).map (fun _ => setId resp clientId)

/-- `exchange_observed`, from the reply of the endpoint that answers. -/
def exchangeObserved (packet : Packet) (clientId : Nat) (pool : Except String WireReply) :
    Except String Packet :=
  let question := match questionEnd packet with
    | some e => slice packet 12 e
    | none => []
  pool.bind (fun r => finalizeResponse r.packet r.upstreamId question clientId)

def synthFixedAnswer (packet : Packet) (questionEnd qtype : Nat) (set : FixedAnswerSet) :
    Except String Packet :=
  if set.answers ≠ [] then
    -- the last record of each family wins
    let a := set.answers.foldl (fun acc fa => match fa with
      | .a addr ttl => some (addr, ttl)
      | .aaaa _ _ => acc) none
    let aaaa := set.answers.foldl (fun acc fa => match fa with
      | .a _ _ => acc
      | .aaaa addr ttl => some (addr, ttl)) none
    match qtype, a, aaaa with
    | 1, some (addr, ttl), _ => aReply packet questionEnd addr ttl
    | 28, _, some (addr, ttl) => aaaaReply packet questionEnd addr ttl
    | _, _, _ => emptyReply packet questionEnd
  else
    let rcode := set.rcode.getD 0
    if rcode = 0 then emptyReply packet questionEnd else rcodeReply packet questionEnd rcode

/-- `exchange_kind`: the pool's result, or a fixed answer. -/
def exchangeKind (ctx : QueryContext) (kind : ServerSpec) (pool : Except String WireReply) :
    Except String Answer :=
  match kind with
  | .upstream _ => (exchangeObserved ctx.packet ctx.fast.id pool).map (⟨·, kind⟩)
  | .fixed set => (synthFixedAnswer ctx.packet ctx.fast.questionEnd ctx.fast.qtype set).map (⟨·, kind⟩)

/-- A response whose RCODE is not SERVFAIL. -/
def isClean : Except String Answer → Bool
  | .ok a => rcode a.packet != 2
  | .error _ => false

def pickRaceWinner (first : Except String Answer) (firstIdx : Nat) (second : Except String Answer)
    (secondIdx : Nat) : Except String (Answer × Nat) :=
  if isClean second then second.map (·, secondIdx)
  else
    match first, second with
    | .ok sf, _ => .ok (sf, firstIdx)
    | .error _, .ok sf => .ok (sf, secondIdx)
    | .error e1, .error e2 => .error s!"race failed: {e1}; {e2}"

def race (ctx : QueryContext) (primary secondary : Server) (up : Upstreams) :
    Except String (Answer × Nat) :=
  let p := exchangeKind ctx primary.kind up.primary
  let s := exchangeKind ctx secondary.kind up.secondary
  if up.primaryFirst then
    if isClean p then p.map (·, primary.index)
    else pickRaceWinner p primary.index s secondary.index
  else if isClean s then s.map (·, secondary.index)
  else pickRaceWinner s secondary.index p primary.index

/-- What `resolve_none_rule_with_cidr` returns, and the verdict it hands to the verdict cache when the
routing generation has not moved. -/
structure CidrOutcome where
  result : Except String (Answer × Nat)
  verdict : Option Bool

def resolveNoneRuleWithCidr (ctx : QueryContext) (hot : HotState) (primary secondary : Server)
    (up : Upstreams) : CidrOutcome :=
  let p := exchangeKind ctx primary.kind up.primary
  let s := exchangeKind ctx secondary.kind up.secondary
  let answerIp : Option AnswerIpMatcher :=
    match hot.cfg.fallback.target with
    | .dual _ _ answerIp => if answerIp.isEmpty then none else some answerIp
    | _ => none
  match answerIp, hot.ruleset with
  | some answerIp, some ruleset =>
    match up.verdict with
    | some true => ⟨p.map (·, primary.index), none⟩
    | some false => ⟨s.map (·, secondary.index), none⟩
    | none =>
      match p with
      | .ok resp =>
        let ips := answerIps resp.packet ctx.fast.questionEnd
        let fromSecondary : Except String (Answer × Nat) :=
          match s with
          | .ok b => .ok (b, secondary.index)
          | .error _ => .ok (resp, primary.index)
        if ips.isEmpty then
          if hot.cfg.fallback.noipAsPrimaryIp then ⟨.ok (resp, primary.index), none⟩
          else ⟨fromSecondary, none⟩
        else if ruleset.matchesAnswerIp answerIp ips then ⟨.ok (resp, primary.index), some true⟩
        else ⟨fromSecondary, some false⟩
      | .error e1 =>
        match s with
        | .ok b => ⟨.ok (b, secondary.index), none⟩
        | .error e2 =>
          ⟨.error s!"primary upstream failed: {e1}; secondary upstream failed: {e2}", none⟩
  | _, _ => ⟨race ctx primary secondary up, none⟩

/-- `do_upstream_exchange`; `pool` is the result of the pool of a rule or of a single server. -/
def doUpstreamExchange (ctx : QueryContext) (hot : HotState) (target : RouteTarget)
    (pool : Except String WireReply) (up : Upstreams) : Except String (Answer × Option Nat) :=
  match target with
  | .race primary secondary => (race ctx primary secondary up).map (fun r => (r.1, some r.2))
  | .cidrTest primary secondary =>
    (resolveNoneRuleWithCidr ctx hot primary secondary up).result.map (fun r => (r.1, some r.2))
  | .rule rule _ => (exchangeKind ctx rule.kind pool).map (·, none)
  | .server s _ => (exchangeKind ctx s.kind pool).map (·, none)

inductive StepOutcome where
  | response (answer : Answer) (winner forwarded : Option Nat)
  | drop

/-- `resolve_with_filters`. Indexing `hot.servers` with a forward target can panic. -/
def resolveWithFilters (ctx : QueryContext) (hot : HotState) (ruleset : Option RuleSetDb)
    (target : RouteTarget) (up : Upstreams) : Checked (Except String StepOutcome) :=
  match doUpstreamExchange ctx hot target up.own up with
  | .error e => .ok (.error e)
  | .ok (resp, winner) =>
    match target with
    | .rule rule _ =>
      match firstMatch rule.filters ruleset resp.packet ctx.fast.questionEnd with
      | some (_, filter) =>
        match filter.action with
        | .drop => .ok (.ok .drop)
        | .forward idx => do
          let s ← index hot.servers idx
          return (doUpstreamExchange ctx hot (.server s idx) up.forwarded up).map
            (fun r => .response r.1 none (some idx))
        | .accept => .ok (.ok (.response resp winner none))
      | none => .ok (.ok (.response resp winner none))
    | _ => .ok (.ok (.response resp winner none))

/-! ### Where a response comes from -/

section Sources

variable {ctx : QueryContext} {hot : HotState} {ruleset : Option RuleSetDb} {target : RouteTarget}
  {up : Upstreams} {a : Answer}

variable {pool : Except String WireReply}

theorem exchangeObserved_cases {query : Packet} {fast : FastQueryInfo} (hq : AcceptedQuery query fast)
    {clientId : Nat} {resp : Packet} (h : exchangeObserved query clientId pool = .ok resp) :
    ∃ r, pool = .ok r ∧ resp = setId r.packet clientId ∧ questionEnd r.packet = some fast.questionEnd := by
  cases pool with
  | error e => simp [exchangeObserved, Except.bind] at h
  | ok r =>
    simp only [exchangeObserved, Except.bind, hq.questionEnd_eq, finalizeResponse,
      validateUpstreamResponse] at h
    split_ifs at h with hreply hid hmatch
    all_goals simp only [Except.map, reduceCtorEq, Except.ok.injEq] at h
    have hge := hq.questionEnd_ge
    have hlen := questionsMatch_length hmatch
    rw [length_slice hq.questionEnd_le] at hlen
    refine ⟨r, rfl, h.symm, ?_⟩
    split at hlen
    · next e he =>
      split_ifs at hlen with hbounds
      · rw [length_slice hbounds.2] at hlen
        rw [he, Option.some.injEq]
        omega
      · simp at hlen
        omega
    · simp at hlen
      omega

theorem synthFixedAnswer_madeUp {packet p : Packet} {questionEnd qtype : Nat} {set : FixedAnswerSet}
    (h : synthFixedAnswer packet questionEnd qtype set = .ok p) : MadeUp packet questionEnd p := by
  unfold synthFixedAnswer at h
  split at h
  all_goals
    dsimp only at h
    split at h
    all_goals first | exact replyWithRcode_madeUp h | exact recordReply_madeUp h (by simp)

theorem exchangeKind_cases {kind : ServerSpec} (h : exchangeKind ctx kind pool = .ok a) :
    a.producer = kind ∧ (exchangeObserved ctx.packet ctx.fast.id pool = .ok a.packet ∨
      ∃ set, synthFixedAnswer ctx.packet ctx.fast.questionEnd ctx.fast.qtype set = .ok a.packet) := by
  unfold exchangeKind at h
  split at h
  · obtain ⟨p, hp, rfl⟩ := map_eq_ok_iff.mp h
    exact ⟨rfl, .inl hp⟩
  · next set =>
    obtain ⟨p, hp, rfl⟩ := map_eq_ok_iff.mp h
    exact ⟨rfl, .inr ⟨set, hp⟩⟩

theorem pickRaceWinner_cases {first second : Except String Answer} {i j k : Nat}
    (h : pickRaceWinner first i second j = .ok (a, k)) : first = .ok a ∨ second = .ok a := by
  unfold pickRaceWinner at h
  cases first <;> cases second <;> split at h <;> simp_all [Except.map, isClean]

theorem race_cases {primary secondary : Server} {i : Nat}
    (h : race ctx primary secondary up = .ok (a, i)) :
    exchangeKind ctx primary.kind up.primary = .ok a ∨
      exchangeKind ctx secondary.kind up.secondary = .ok a := by
  unfold race at h
  simp only at h
  split at h
  · split at h
    · cases hp : exchangeKind ctx primary.kind up.primary <;> simp_all [Except.map]
    · exact pickRaceWinner_cases h
  · split at h
    · cases hs : exchangeKind ctx secondary.kind up.secondary <;> simp_all [Except.map]
    · exact (pickRaceWinner_cases h).symm

theorem cidr_cases {primary secondary : Server} {i : Nat}
    (h : (resolveNoneRuleWithCidr ctx hot primary secondary up).result = .ok (a, i)) :
    exchangeKind ctx primary.kind up.primary = .ok a ∨
      exchangeKind ctx secondary.kind up.secondary = .ok a := by
  unfold resolveNoneRuleWithCidr at h
  simp only at h
  split at h
  · cases hp : exchangeKind ctx primary.kind up.primary <;>
      cases hs : exchangeKind ctx secondary.kind up.secondary <;>
      simp only [hp, hs, Except.map] at h <;> (repeat' split at h) <;> simp_all
  · exact race_cases h

/-- The exchanges a target's response can come from. -/
def RouteTarget.Answers (ctx : QueryContext) (pool : Except String WireReply) (up : Upstreams)
    (a : Answer) : RouteTarget → Prop
  | .rule r _ => exchangeKind ctx r.kind pool = .ok a
  | .server s _ => exchangeKind ctx s.kind pool = .ok a
  | .race p s => exchangeKind ctx p.kind up.primary = .ok a ∨ exchangeKind ctx s.kind up.secondary = .ok a
  | .cidrTest p s =>
    exchangeKind ctx p.kind up.primary = .ok a ∨ exchangeKind ctx s.kind up.secondary = .ok a

variable {w : Option Nat}

theorem doUpstreamExchange_cases (h : doUpstreamExchange ctx hot target pool up = .ok (a, w)) :
    target.Answers ctx pool up a := by
  cases target with
  | rule _ _ | server _ _ =>
    obtain ⟨_, hb, ⟨⟩⟩ := map_eq_ok_iff.mp h
    exact hb
  | race p s =>
    obtain ⟨_, hb, ⟨⟩⟩ := map_eq_ok_iff.mp h
    exact race_cases hb
  | cidrTest p s =>
    obtain ⟨_, hb, ⟨⟩⟩ := map_eq_ok_iff.mp h
    exact cidr_cases hb

/-- The rule's filter forwards its own server's response `own` to server `j`, which answers with `a`. -/
structure Forwarded (ctx : QueryContext) (hot : HotState) (ruleset : Option RuleSetDb) (rule : Rule)
    (up : Upstreams) (own : Answer) (j : Nat) (a : Answer) : Prop where
  resolved : exchangeKind ctx rule.kind up.own = .ok own
  matched : ∃ i filter, firstMatch rule.filters ruleset own.packet ctx.fast.questionEnd = some (i, filter) ∧
    filter.action = .forward j
  answered : ∃ s, hot.servers[j]? = some s ∧ exchangeKind ctx s.kind up.forwarded = .ok a

/-- A response is the target's own, which no filter but an accepting one may match first, or a forwarded
one. -/
theorem resolveWithFilters_cases {f : Option Nat}
    (h : resolveWithFilters ctx hot ruleset target up = .ok (.ok (.response a w f))) :
    (target.Answers ctx up.own up a ∧ f = none ∧ doUpstreamExchange ctx hot target up.own up = .ok (a, w) ∧
      ∀ rule idx i filter, target = .rule rule idx →
        firstMatch rule.filters ruleset a.packet ctx.fast.questionEnd = some (i, filter) →
        filter.action = .accept) ∨
    ∃ rule idx own j, target = .rule rule idx ∧ w = none ∧ f = some j ∧
      Forwarded ctx hot ruleset rule up own j a := by
  unfold resolveWithFilters at h
  split at h
  · simp at h
  · next resp winner hex =>
    have hown := doUpstreamExchange_cases hex
    cases target with
    | rule rule idx =>
      simp only at h
      split at h
      · next i filter hmatch =>
        split at h
        · simp at h
        · next j haction =>
          cases hs : hot.servers[j]? with
          | none => simp [index, hs, bind, Except.bind] at h
          | some s =>
            simp only [index, hs, bind, Except.bind, pure, Except.pure, Except.ok.injEq] at h
            obtain ⟨⟨b, v⟩, hb, ⟨⟩⟩ := map_eq_ok_iff.mp h
            exact .inr ⟨rule, idx, resp, j, rfl, rfl, rfl, hown, ⟨i, filter, hmatch, haction⟩,
              s, hs, doUpstreamExchange_cases hb⟩
        · next haccept =>
          cases h
          refine .inl ⟨hown, rfl, hex, ?_⟩
          rintro _ _ i' filter' ⟨⟩ hfirst
          cases hmatch.symm.trans hfirst
          exact haccept
      · next hmatch =>
        cases h
        refine .inl ⟨hown, rfl, hex, ?_⟩
        rintro _ _ i' filter' ⟨⟩ hfirst
        cases hmatch.symm.trans hfirst
    | server _ _ | race _ _ | cidrTest _ _ =>
      cases h
      exact .inl ⟨hown, rfl, hex, by simp⟩

/-- Whatever the target, a response comes from one exchange with one of the pools. -/
theorem resolveWithFilters_source {f : Option Nat}
    (h : resolveWithFilters ctx hot ruleset target up = .ok (.ok (.response a w f))) :
    ∃ kind, ∃ pool ∈ [up.own, up.forwarded, up.primary, up.secondary], exchangeKind ctx kind pool = .ok a := by
  rcases resolveWithFilters_cases h with ⟨hanswers, -⟩ | ⟨rule, idx, own, j, -, -, -, hforward⟩
  · cases target with
    | rule rule idx => exact ⟨rule.kind, up.own, by simp, hanswers⟩
    | server s idx => exact ⟨s.kind, up.own, by simp, hanswers⟩
    | race p s | cidrTest p s =>
      rcases hanswers with h | h
      · exact ⟨p.kind, up.primary, by simp, h⟩
      · exact ⟨s.kind, up.secondary, by simp, h⟩
  · obtain ⟨s, -, hanswer⟩ := hforward.answered
    exact ⟨s.kind, up.forwarded, by simp, hanswer⟩

end Sources

/-! ### A query that finds no upstream -/

def rootContext : QueryContext :=
  contextOf [0, 7, 1, 0, 0, 1, 0, 0, 0, 0, 0, 0, 0, 0, 1, 0, 1] (by decide +kernel)

/-- A server with an empty pool. -/
def emptyPool (i : Nat) : Server := ⟨[], i, .upstream [], _, rfl⟩

def allFail : Upstreams := ⟨.error "a", .error "b", .error "c", .error "d", true, none⟩

end PathDns
