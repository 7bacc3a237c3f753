import PathDns.Cache.Hit
import PathDns.Dns.Subnet
import PathDns.Resolver.Leader

/-!
# Who shares an answer that depends on the client subnet

Two keys exist for a query with ECS: the regular one, which hashes the subnet, and the stripped one,
which all subnets share. The first part asks which server produced what a leader keeps under the
stripped key. The second part follows every hit of a run back to the insert and asks under which target
it was made.
-/

namespace PathDns

open Bytes

/-! ### Producers -/

variable {pool : Except String WireReply}

theorem exchangeObserved_length {query : Packet} {fast : FastQueryInfo} (hq : AcceptedQuery query fast)
    {clientId : Nat} {resp : Packet} (h : exchangeObserved query clientId pool = .ok resp) :
    fast.questionEnd ≤ resp.length := by
  obtain ⟨r, -, rfl, hend⟩ := exchangeObserved_cases hq h
  rw [length_setId]
  exact (questionEnd_bounds hend).2

/-- The matched rule strips ECS, but its filter forwards the query to a server that does not, and that
server answers. -/
def ForwardsPastStrip (ctx : QueryContext) (hot : HotState) (ruleset : Option RuleSetDb)
    (target : RouteTarget) (up : Upstreams) : Prop :=
  ∃ rule idx answer i filter j s reply, target = .rule rule idx ∧ rule.stripEcs = true ∧
    exchangeKind ctx rule.kind up.own = .ok answer ∧
    firstMatch rule.filters ruleset answer.packet ctx.fast.questionEnd = some (i, filter) ∧
    filter.action = .forward j ∧ hot.servers[j]? = some s ∧ s.stripEcs = false ∧
    exchangeObserved ctx.packet ctx.fast.id up.forwarded = .ok reply

section Leader

variable {ctx : QueryContext} {hot : HotState} {ruleset : Option RuleSetDb} {target : RouteTarget}
  {up : Upstreams}

theorem exchangeKind_of_not_strip {s : Server} (hs : s.stripEcs = false)
    (pool : Except String WireReply) :
    exchangeKind ctx s.kind pool =
      (exchangeObserved ctx.packet ctx.fast.id pool).map (⟨·, s.kind⟩) := by
  have hkind := s.stripEcs_eq
  cases hk : s.kind with
  | upstream endpoints => rfl
  | fixed set =>
    rw [hk, hs] at hkind
    simp [ServerSpec.stripsEcs] at hkind

theorem ForwardsPastStrip.resolve (h : ForwardsPastStrip ctx hot ruleset target up) :
    ∃ a w f, resolveWithFilters ctx hot ruleset target up = .ok (.ok (.response a w f)) ∧
      ctx.fast.questionEnd ≤ a.packet.length ∧ a.producer.stripsEcs = false := by
  obtain ⟨rule, idx, answer, i, filter, j, s, reply, rfl, -, hown, hmatch, haction, hs, hstrip, hreply⟩ := h
  refine ⟨⟨reply, s.kind⟩, none, some j, ?_,
    exchangeObserved_length (parseQueryFast_spec ctx.accepted) hreply, ?_⟩
  · simp [resolveWithFilters, doUpstreamExchange, hown, hmatch, haction, index, hs,
      exchangeKind_of_not_strip hstrip, hreply, Except.map, bind, Except.bind, pure, Except.pure]
  · rw [← s.stripEcs_eq, hstrip]

end Leader

/-- A query with an ECS option for 192.0.2.0/24. -/
def ecsQuery : Packet := queryWith 1 (optRecord ecsOption)

theorem parse_ecsQuery : parseQueryFast ecsQuery = .ok (fastInfo ecsQuery) := by decide +kernel

/-- A server with one endpoint of the given mode. -/
def upstreamServer (mode : EcsMode) : Server where
  name := ['u']
  index := 0
  kind := .upstream [⟨.udp, .v4 0 53, none, none, false, some mode, none⟩]
  stripEcs := ServerSpec.stripsEcs (.upstream [⟨.udp, .v4 0 53, none, none, false, some mode, none⟩])
  stripEcs_eq := rfl

/-- The insert cannot be taken for one of subnet `x`: its target strips ECS, or its query has no OPT record,
or it announces a subnet that its variant keeps, which is of the family of `x` or not all zeros. -/
def SubnetSafe (x : Announced) (ctx : QueryContext) (target : RouteTarget) : Prop :=
  target.stripEcs = true ∨
    (OptPlaced ctx.packet ctx.fast.questionEnd ∧ optRdatas ctx.packet = []) ∨
    ∃ y, KeepsSubnet ctx.packet ctx.fast.questionEnd y ∧ (y.family = x.family ∨ true ∈ y.bits)

/-- The streams hashed into keys by the inserts of a run and by a probe. -/
def hashedStreams (steps : List ServeStep) (query : Packet) (fast : FastQueryInfo) :
    Set (List UInt8) :=
  { stream | (∃ now ctx target resp policy ruleId,
      ServeStep.insert now ctx target resp policy ruleId ∈ steps ∧
      stream = keyStream ctx.packet ctx.fast.questionEnd ctx.variant (ecsInQuery ctx target)) ∨
    ∃ strip, stream =
      keyStream query fast.questionEnd (extractVariant query fast.questionEnd) strip }

/-- A stripped key is never the regular one of a query with ECS. -/
theorem keyStream_stripped_ne {q q' : Packet} {qe : Nat} {v v' : QueryVariant} (hq : qe ≤ q.length)
    (hq' : qe ≤ q'.length) (hecs : v'.ecsSrc ≠ none) : keyStream q qe v true ≠ keyStream q' qe v' false := by
  intro h
  simp only [keyStream, List.append_assoc] at h
  -- name, question and flags are equally long, so the ECS parts stand at one place
  have hquestion := List.append_inj_right h (by simp [length_slice (show qe - 4 ≤ q.length by omega),
    length_slice (show qe - 4 ≤ q'.length by omega)])
  have hflags := List.append_inj_right hquestion (by rw [length_slice hq, length_slice hq'])
  have hbytes := List.append_inj_right hflags rfl
  obtain ⟨ecs, hsrc⟩ := Option.ne_none_iff_exists'.mp hecs
  simp [ecsBytes, hsrc] at hbytes

/-- An insert that is subnet safe, under a target that keeps ECS, and whose query has an OPT record. -/
theorem SubnetSafe.keeps {x : Announced} {ctx : QueryContext} {target : RouteTarget}
    (h : SubnetSafe x ctx target) (hstrip : target.stripEcs = false) (hopt : ctx.variant.hasOpt = true) :
    ∃ y, KeepsSubnet ctx.packet ctx.fast.questionEnd y ∧ (y.family = x.family ∨ true ∈ y.bits) := by
  have hctx := parseQueryFast_spec ctx.accepted
  rcases h with h | ⟨hplaced, hnone⟩ | h
  · rw [hstrip] at h
    exact absurd h Bool.false_ne_true
  · rw [ctx.variant_eq, hplaced.hasOpt_eq_false hctx.length_ge hctx.skipQuestions_eq hnone] at hopt
    exact absurd hopt Bool.false_ne_true
  · exact h

/-- In every run whose inserts are subnet safe and whose keys do not collide, a query that announces a
subnet and is answered from the cache gets an entry stored under a target that strips ECS or for a query
that announces the same subnet. -/
theorem hit_shares_subnet (capacity : Nat) (minTtl maxTtl : UInt32) (steps : List ServeStep) (x : Announced)
    (hsafe : ∀ now ctx target resp policy ruleId,
      .insert now ctx target resp policy ruleId ∈ steps → SubnetSafe x ctx target)
    (query : Packet) (fast : FastQueryInfo) (hquery : parseQueryFast query = .ok fast)
    (hx : KeepsSubnet query fast.questionEnd x) (hinj : Set.InjOn fnv (hashedStreams steps query fast))
    (now now' : Nat) (collectQname : Bool) (hit : CacheHit) (probe : CacheProbe) (c' : DnsCache)
    (hget : ((DnsCache.new capacity minTtl maxTtl).run
      (steps.map ServeStep.toCache)).getIntoWithEcsFallback now now' query fast collectQname =
        .ok (some hit, probe, c')) :
    ∃ added ctx target resp policy ruleId entry strip readAt,
      .insert added ctx target resp policy ruleId ∈ steps ∧
      DnsCache.entryOf added (leaderInsert ctx target resp) policy ruleId = some entry ∧
      DnsCache.FoundBy cacheKey ((DnsCache.new capacity minTtl maxTtl).run (steps.map ServeStep.toCache))
        now now' query fast hit strip entry readAt ∧
      (target.stripEcs = true ∨ Announces ctx.packet x) := by
  obtain ⟨strip, entry, readAt, hhit⟩ := DnsCache.probeBy_hit hget
  have hlog : ((DnsCache.new capacity minTtl maxTtl).run (steps.map ServeStep.toCache)).Holds
      (fun key e => ∃ added ctx target resp policy ruleId,
        .insert added ctx target resp policy ruleId ∈ steps ∧ key = leaderKey ctx target ∧
        DnsCache.entryOf added (leaderInsert ctx target resp) policy ruleId = some e) := by
    refine (DnsCache.holds_new capacity minTtl maxTtl).run _ ?_
    intro added ins policy ruleId e hmem he
    obtain ⟨ctx, target, resp, hstep, rfl⟩ := ServeStep.insert_of_mem_toCache hmem
    exact ⟨added, ctx, target, resp, policy, ruleId, hstep, rfl, he⟩
  obtain ⟨m, hm, hentry⟩ := hhit.stored
  obtain ⟨added, ctx, target, resp, policy, ruleId, hmem, hkey, he⟩ := hlog m hm _ _ hentry
  refine ⟨added, ctx, target, resp, policy, ruleId, entry, strip, readAt, hmem, he, hhit, ?_⟩
  cases hstrip : target.stripEcs with
  | true => exact .inl rfl
  | false =>
    refine .inr ?_
    have hregular : ecsInQuery ctx target = false := by simp [ecsInQuery, hstrip]
    have hvariant : entry.variant = ctx.variant := by
      rw [(DnsCache.entryOf_spec he).2.2.2.2.2.1]
      simp [leaderInsert, cacheQuery, hregular]
    have hmatched := hhit.matched
    rw [hvariant] at hmatched
    obtain ⟨⟨hopt, -⟩, hall⟩ := queriesMatchV_variant hmatched
    rw [hasOpt_of_ecsSrc (hx.ecsSrc_ne_none hquery)] at hopt
    obtain ⟨y, hy, hfamily⟩ := (hsafe _ _ _ _ _ _ hmem).keeps hstrip hopt
    cases strip with
    | false =>
      have hsrc := congrArg QueryVariant.ecsSrc (hall rfl)
      rw [ctx.variant_eq] at hsrc
      obtain rfl := hy.eq_of_ecsSrc_eq ctx.accepted hquery hx hsrc hfamily
      exact hy.announces
    | true =>
      -- the stripped key was hit by an entry of a target that keeps ECS
      exfalso
      have hctx := parseQueryFast_spec ctx.accepted
      have hlive := parseQueryFast_spec hquery
      have hend : ctx.fast.questionEnd = fast.questionEnd := by
        rw [← (queriesMatchV_question hhit.matched).1]
        exact (DnsCache.entryOf_spec he).2.2.2.2.1.symm
      have hown := hy.ecsSrc_ne_none ctx.accepted
      rw [← ctx.variant_eq] at hown
      rw [leaderKey_eq, cacheKey_eq_fnv hctx, cacheKey_eq_fnv hlive, hregular] at hkey
      have hstreams := hinj (.inr ⟨true, rfl⟩)
        (.inl ⟨added, ctx, target, resp, policy, ruleId, hmem, by rw [hregular]⟩) hkey
      have hle := hctx.questionEnd_le
      rw [hend] at hstreams hle
      exact keyStream_stripped_ne hlive.questionEnd_le hle hown hstreams

/-- The probe hits. -/
def isHit : Checked (Option CacheHit × CacheProbe × DnsCache) → Bool
  | .ok (some _, _, _) => true
  | _ => false

theorem exists_of_isHit {r : Checked (Option CacheHit × CacheProbe × DnsCache)} (h : isHit r = true) :
    ∃ hit probe c', r = .ok (some hit, probe, c') := by
  unfold isHit at h
  split at h
  · exact ⟨_, _, _, rfl⟩
  · simp at h

/-- What `ecsQuery` announces. -/
def sampleSubnet : Announced := ⟨1, 24, prefixBits 24 [192, 0, 2]⟩

theorem keepsSubnet_ecsQuery : KeepsSubnet ecsQuery (fastInfo ecsQuery).questionEnd sampleSubnet where
  announces := by
    have h : announcements ecsQuery = [some sampleSubnet] := by decide +kernel
    exact ⟨by simp [h], by simp [h]⟩
  fits := by decide
  placed := optPlaced_of_leading (by decide +kernel) _
  first := ⟨ecsOption, by decide +kernel, by decide +kernel⟩

/-- A forward target stores the answer to `ecsQuery`. -/
def storeForwarded : List ServeStep :=
  [.insert 0 (contextOf ecsQuery parse_ecsQuery) (.server (upstreamServer .forward) 0) sampleResponse
    ⟨false, 0, 0, 0⟩ 0]

/-- A forward target keeps the subnet of an ECS query in its key, and the same query finds the entry. -/
theorem hit_shares_subnet_sample :
    ∃ hit probe c', ((DnsCache.new 8 0 0).run (storeForwarded.map ServeStep.toCache)).getIntoWithEcsFallback
        1 1 ecsQuery (fastInfo ecsQuery) false = .ok (some hit, probe, c') ∧
      Announces (contextOf ecsQuery parse_ecsQuery).packet sampleSubnet := by
  obtain ⟨hit, probe, c', hget⟩ : ∃ hit probe c', ((DnsCache.new 8 0 0).run
      (storeForwarded.map ServeStep.toCache)).getIntoWithEcsFallback 1 1 ecsQuery (fastInfo ecsQuery) false =
        .ok (some hit, probe, c') := exists_of_isHit (by decide +kernel)
  refine ⟨hit, probe, c', hget, ?_⟩
  have hstream : ∀ stream ∈ hashedStreams storeForwarded ecsQuery (fastInfo ecsQuery), ∃ strip,
      stream = keyStream ecsQuery (fastInfo ecsQuery).questionEnd
        (extractVariant ecsQuery (fastInfo ecsQuery).questionEnd) strip := by
    rintro stream (⟨now, ctx, target, resp, policy, ruleId, hmem, rfl⟩ | h)
    · simp only [storeForwarded, List.mem_singleton, ServeStep.insert.injEq] at hmem
      obtain ⟨-, rfl, rfl, -⟩ := hmem
      have hregular : ecsInQuery (contextOf ecsQuery parse_ecsQuery)
          (.server (upstreamServer .forward) 0) = false := by decide +kernel
      rw [hregular]
      exact ⟨false, by simp only [contextOf]⟩
    · exact h
  have hinj : Set.InjOn fnv (hashedStreams storeForwarded ecsQuery (fastInfo ecsQuery)) := by
    intro x hx y hy hxy
    obtain ⟨a, rfl⟩ := hstream x hx
    obtain ⟨b, rfl⟩ := hstream y hy
    clear hx hy
    revert a b
    decide +kernel
  have hsafe : ∀ now ctx target resp policy ruleId,
      ServeStep.insert now ctx target resp policy ruleId ∈ storeForwarded →
        SubnetSafe sampleSubnet ctx target := by
    intro now ctx target resp policy ruleId hmem
    simp only [storeForwarded, List.mem_singleton, ServeStep.insert.injEq] at hmem
    obtain ⟨-, rfl, rfl, -⟩ := hmem
    exact .inr (.inr ⟨sampleSubnet, keepsSubnet_ecsQuery, .inl rfl⟩)
  obtain ⟨added, ctx, target, resp, policy, ruleId, entry, strip, readAt, hmem, -, -, h⟩ :=
    hit_shares_subnet 8 0 0 _ sampleSubnet hsafe ecsQuery (fastInfo ecsQuery) parse_ecsQuery
      keepsSubnet_ecsQuery hinj 1 1 false hit probe c' hget
  simp only [storeForwarded, List.mem_singleton, ServeStep.insert.injEq] at hmem
  obtain ⟨-, rfl, rfl, -⟩ := hmem
  exact h.resolve_left (by decide)

theorem parse_plainOptQuery : parseQueryFast (queryWith 1 (optRecord [])) =
    .ok (fastInfo (queryWith 1 (optRecord []))) := by decide +kernel

theorem parse_anyIpv4 : parseQueryFast (announcingQuery 1 0 []) =
    .ok (fastInfo (announcingQuery 1 0 [])) := by decide +kernel

/-- An entry that a forward target stored for a query with an OPT record and no ECS answers a query
with ECS: both hash the same stream, so this is no collision. One stored for 0.0.0.0/0 answers ::/0. -/
theorem plain_entry_serves_ecs_query :
    ((contextOf _ parse_plainOptQuery).variant.ecsSrc = none ∧
      (RouteTarget.server (upstreamServer .forward) 0).stripEcs = false ∧
      (extractVariant ecsQuery (fastInfo ecsQuery).questionEnd).ecsSrc ≠ none ∧
      keyStream (queryWith 1 (optRecord [])) 19 (contextOf _ parse_plainOptQuery).variant false =
        keyStream ecsQuery 19 (extractVariant ecsQuery 19) true ∧
      ∃ hit probe c', ((DnsCache.new 8 0 0).run ([ServeStep.insert 0 (contextOf _ parse_plainOptQuery)
          (.server (upstreamServer .forward) 0) sampleResponse ⟨false, 0, 0, 0⟩ 0].map
            ServeStep.toCache)).getIntoWithEcsFallback 1 1 ecsQuery (fastInfo ecsQuery) false =
          .ok (some hit, probe, c')) ∧
    announcements (announcingQuery 1 0 []) = [some ⟨1, 0, []⟩] ∧
    announcements (announcingQuery 2 0 []) = [some ⟨2, 0, []⟩] ∧
    keyStream (announcingQuery 1 0 []) 19 (contextOf _ parse_anyIpv4).variant false =
      keyStream (announcingQuery 2 0 []) 19 (extractVariant (announcingQuery 2 0 []) 19) false ∧
    ∃ hit probe c', ((DnsCache.new 8 0 0).run ([ServeStep.insert 0 (contextOf _ parse_anyIpv4)
        (.server (upstreamServer .forward) 0) sampleResponse ⟨false, 0, 0, 0⟩ 0].map
          ServeStep.toCache)).getIntoWithEcsFallback 1 1 (announcingQuery 2 0 [])
            (fastInfo (announcingQuery 2 0 [])) false = .ok (some hit, probe, c') := by
  refine ⟨⟨by decide +kernel, by decide, by decide +kernel, by decide +kernel,
    exists_of_isHit (by decide +kernel)⟩, by decide +kernel, by decide +kernel, by decide +kernel,
    exists_of_isHit (by decide +kernel)⟩

end PathDns
