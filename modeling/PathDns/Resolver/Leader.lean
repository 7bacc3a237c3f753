import PathDns.Resolver.Exchange

/-!
# The leader of a query (`exchange_with_dedupe`)

The key is chosen from the routed target before any exchange; filters and races decide later which
server answers. `leader` returns what the leader stores and what it publishes, each with the server that
produced the response.
-/

namespace PathDns

open Bytes

/-- `ecs_in_query`: the response is kept under the ECS-stripped key. -/
def ecsInQuery (ctx : QueryContext) (target : RouteTarget) : Bool :=
  target.stripEcs && ctx.variant.ecsSrc.isSome

/-- `ck`. -/
def leaderKey (ctx : QueryContext) (target : RouteTarget) : CacheKey :=
  match ctx.precomputedCacheKeys with
  | some (regularKey, strippedKey) =>
    if ecsInQuery ctx target then strippedKey.getD regularKey else regularKey
  | none => cacheKey ctx.packet ctx.fast ctx.variant (ecsInQuery ctx target)

/-- `sf_ck`: the routing generation is mixed in. -/
def singleflightKey (ck : CacheKey) (routingGen : UInt64) : UInt64 :=
  ck ^^^ (routingGen * 0x9e3779b97f4a7c15)

/-- The query that is stored and its variant; a query whose ECS cannot be removed is kept as it is. -/
def cacheQuery (packet : Packet) (questionEnd : Nat) (variant : QueryVariant) (strip : Bool) :
    Packet × QueryVariant :=
  if strip then
    match stripEdnsEcs packet with
    | some stripped => (stripped, extractVariant stripped questionEnd)
    | none => (packet, variant)
  else (packet, variant)

/-- The insert the leader makes for `resp`. -/
def leaderInsert (ctx : QueryContext) (target : RouteTarget) (resp : Packet) : CacheInsert where
  key := leaderKey ctx target
  qname := ctx.qname
  questionEnd := ctx.fast.questionEnd
  query := (cacheQuery ctx.packet ctx.fast.questionEnd ctx.variant (ecsInQuery ctx target)).1
  variant := (cacheQuery ctx.packet ctx.fast.questionEnd ctx.variant (ecsInQuery ctx target)).2
  packet := (stripOptRdata resp).getD resp

/-- The cache policy and attribution of a response. -/
def leaderPolicy (cache : DnsCache) (hot : HotState) (target : RouteTarget)
    (winnerIdx forwardedIdx : Option Nat) : ResolvedCachePolicy × RuleAttribution :=
  let winner := winnerIdx.bind (hot.servers[·]?)
  let (policy, attribution) : ResolvedCachePolicy × RuleAttribution :=
    match target, winner with
    | .rule rule idx, _ => (rule.cachePolicy, .rule idx)
    | .server _ idx, _ => (cache.resolvePolicy none, .final idx)
    | _, some w => (cache.resolvePolicy none, .final w.index)
    | _, none => (cache.resolvePolicy none, .finalUnknown)
  let fixedKind :=
    match forwardedIdx.bind (hot.servers[·]?) with
    | some s => some s.kind
    | none => target.resolvedKind winner
  match fixedKind with
  -- a fixed RCODE carries no record, its own TTL takes the place of the nodata TTL
  | some (.fixed set) =>
    if set.answers = [] then ({ policy with nodataTtl := set.rcodeTtl }, attribution)
    else (policy, attribution)
  | _ => (policy, attribution)

/-- What the leader leaves behind: the entry stored, if any, and what followers receive. -/
structure LeaderOutcome where
  stored : Option (Entry × ServerSpec)
  published : Option (Packet × ServerSpec)

/-- The leader of `exchange_with_dedupe`. `currentGen` is the routing generation when the response
arrives. A drop, a synthesised SERVFAIL and a panic carry no server's response. -/
def leader (ctx : QueryContext) (hot : HotState) (ruleset : Option RuleSetDb) (target : RouteTarget)
    (up : Upstreams) (cache : DnsCache) (currentGen : UInt64) (now : Nat) : LeaderOutcome :=
  match resolveWithFilters ctx hot ruleset target up with
  | .ok (.ok (.response answer winnerIdx forwardedIdx)) =>
    let (policy, attribution) := leaderPolicy cache hot target winnerIdx forwardedIdx
    { stored :=
        if !target.skipCache && cache.cache.isSome && currentGen == hot.generation then
          (DnsCache.entryOf now (leaderInsert ctx target answer.packet) policy
            attribution.toWire).map (·, answer.producer)
        else none
      -- `resp_mut[12..question_end].copy_from_slice(..)` panics on a shorter response
      published :=
        if ctx.fast.questionEnd ≤ answer.packet.length then
          some (patch answer.packet 12 (slice ctx.packet 12 ctx.fast.questionEnd), answer.producer)
        else none }
  | _ => ⟨none, none⟩

theorem leader_stored {ctx : QueryContext} {hot : HotState} {ruleset : Option RuleSetDb}
    {target : RouteTarget} {up : Upstreams} {cache : DnsCache} {currentGen : UInt64} {now : Nat} {e : Entry}
    {producer : ServerSpec}
    (h : (leader ctx hot ruleset target up cache currentGen now).stored = some (e, producer)) :
    ∃ a w f, resolveWithFilters ctx hot ruleset target up = .ok (.ok (.response a w f)) ∧
      currentGen = hot.generation ∧
      DnsCache.entryOf now (leaderInsert ctx target a.packet) (leaderPolicy cache hot target w f).1
        (leaderPolicy cache hot target w f).2.toWire = some e := by
  unfold leader at h
  split at h
  · next a w f hres =>
    dsimp only at h
    split_ifs at h with hwrite
    obtain ⟨e', he, heq⟩ := Option.map_eq_some_iff.mp h
    obtain ⟨rfl, -⟩ := Prod.mk.inj heq
    simp only [Bool.and_eq_true, beq_iff_eq] at hwrite
    exact ⟨a, w, f, hres, hwrite.2, he⟩
  · simp at h

theorem leaderPolicy_attribution (cache : DnsCache) (hot : HotState) (target : RouteTarget)
    (w f : Option Nat) :
    (leaderPolicy cache hot target w f).2 =
      match target, w.bind (hot.servers[·]?) with
      | .rule _ idx, _ => .rule idx
      | .server _ idx, _ => .final idx
      | _, some winner => .final winner.index
      | _, none => .finalUnknown := by
  cases target <;> cases hwinner : w.bind (hot.servers[·]?) <;> simp only [leaderPolicy, hwinner] <;>
    repeat' split
  all_goals rfl

theorem leaderPolicy_rule {cache : DnsCache} {hot : HotState} {target : RouteTarget} {w f : Option Nat}
    (h : (leaderPolicy cache hot target w f).2.toWire.toNat < 32768) :
    ∃ rule idx, target = .rule rule idx ∧ (leaderPolicy cache hot target w f).2.toWire = .ofNat idx := by
  have hfinal : ∀ i : UInt16, 32768 ≤ ((0x8000 : UInt16) ||| i).toNat := by
    intro i
    rw [UInt16.toNat_or]
    exact Nat.left_le_or
  rw [leaderPolicy_attribution] at h ⊢
  split at h
  · exact ⟨_, _, rfl, rfl⟩
  · exact absurd h (Nat.not_lt.mpr (hfinal _))
  · exact absurd h (Nat.not_lt.mpr (hfinal _))
  · simp [RuleAttribution.toWire] at h

theorem leaderKey_eq (ctx : QueryContext) (target : RouteTarget) :
    leaderKey ctx target = cacheKey ctx.packet ctx.fast ctx.variant (ecsInQuery ctx target) := by
  unfold leaderKey
  split
  · next regularKey strippedKey hkeys =>
    have h := ctx.keys_eq _ hkeys
    simp only [Prod.mk.injEq] at h
    obtain ⟨rfl, rfl⟩ := h
    by_cases hecs : ecsInQuery ctx target = true
    · have hsome : ctx.variant.ecsSrc.isSome = true := by
        rw [ecsInQuery, Bool.and_eq_true] at hecs
        exact hecs.2
      simp [hecs, hsome]
    · simp [hecs]
  · rfl

/-- One event in the life of the cache, with its inserts as leaders make them. -/
inductive ServeStep where
  | insert (now : Nat) (ctx : QueryContext) (target : RouteTarget) (resp : Packet)
      (policy : ResolvedCachePolicy) (ruleId : UInt16)
  | evict (key : CacheKey)
  | lookup (now now' : Nat) (query : Packet) (fast : FastQueryInfo)
  | clear

def ServeStep.toCache : ServeStep → DnsCache.Step
  | .insert now ctx target resp policy ruleId =>
    .add now (leaderInsert ctx target resp) policy ruleId
  | .evict key => .evict key
  | .lookup now now' query fast => .lookup now now' query fast
  | .clear => .clear

theorem ServeStep.insert_of_mem_toCache {steps : List ServeStep} {added : Nat} {ins : CacheInsert}
    {policy : ResolvedCachePolicy} {ruleId : UInt16}
    (h : .add added ins policy ruleId ∈ steps.map ServeStep.toCache) :
    ∃ ctx target resp, .insert added ctx target resp policy ruleId ∈ steps ∧ ins = leaderInsert ctx target resp := by
  obtain ⟨step, hstep, heq⟩ := List.mem_map.mp h
  cases step <;> cases heq
  exact ⟨_, _, _, hstep, rfl⟩

end PathDns
