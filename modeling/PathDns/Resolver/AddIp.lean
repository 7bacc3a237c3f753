import PathDns.IpSet
import PathDns.Resolver.Exchange

/-!
# The addresses an accepted response adds to a set

When the first filter that matches a response accepts it, `resolve_with_filters` hands the addresses of
the answer section to the set of that filter, if it has one. The filter's response type is pinned to A or
to AAAA, but `ResponseFilter::matches` asks only for some record of that type: the other records of the
answer section are not looked at.
-/

namespace PathDns

open Bytes

/-! ### Address records -/

/-- A record of the section of `n` records that starts at `pos`, up to the first one that does not
parse. -/
inductive SectionRecord (packet : Packet) : Nat → Nat → Rr → Prop where
  | head {n pos : Nat} {rr : Rr} (parsed : parseRr packet pos = some rr) :
      SectionRecord packet (n + 1) pos rr
  | tail {n pos : Nat} {first rr : Rr} (parsed : parseRr packet pos = some first)
      (rest : SectionRecord packet n first.rrEnd rr) : SectionRecord packet (n + 1) pos rr

/-- A record of the answer section. -/
def AnswerRecord (packet : Packet) (questionEnd : Nat) (rr : Rr) : Prop :=
  12 ≤ packet.length ∧ questionEnd ≤ packet.length ∧
    SectionRecord packet (u16be packet 6) questionEnd rr

/-- The address of an A record of four bytes or an AAAA record of sixteen. -/
def Rr.address (packet : Packet) (rr : Rr) : Option IpAddr :=
  if rr.rrType = 1 ∧ rr.rrEnd - rr.rdataStart = 4 then
    some (.v4 (BitVec.ofNat 32 (decBe (slice packet rr.rdataStart rr.rrEnd))))
  else if rr.rrType = 28 ∧ rr.rrEnd - rr.rdataStart = 16 then
    some (.v6 (BitVec.ofNat 128 (decBe (slice packet rr.rdataStart rr.rrEnd))))
  else none

theorem answerIpsLoop_succ (packet : Packet) (n pos : Nat) (ips : List IpAddr) :
    answerIpsLoop packet (n + 1) pos ips =
      match parseRr packet pos with
      | none => ips
      | some rr => answerIpsLoop packet n rr.rrEnd (ips ++ (rr.address packet).toList) := by
  rw [answerIpsLoop]
  cases parseRr packet pos with
  | none => rfl
  | some rr =>
    dsimp only
    rw [Rr.address]
    split_ifs <;> simp

/-- The loop of `answer_ips` collects the addresses of the section's records. -/
theorem mem_answerIpsLoop {packet : Packet} {n pos : Nat} {ips : List IpAddr} {ip : IpAddr} :
    ip ∈ answerIpsLoop packet n pos ips ↔
      ip ∈ ips ∨ ∃ rr, SectionRecord packet n pos rr ∧ rr.address packet = some ip := by
  induction n generalizing pos ips with
  | zero =>
    have hnone : ∀ rr, ¬ SectionRecord packet 0 pos rr := by
      intro rr hrr
      cases hrr
    simp [answerIpsLoop, hnone]
  | succ n ih =>
    rw [answerIpsLoop_succ]
    cases hfirst : parseRr packet pos with
    | none =>
      have hnone : ∀ rr, ¬ SectionRecord packet (n + 1) pos rr := by
        intro rr hrr
        cases hrr with
        | head parsed => simp [hfirst] at parsed
        | tail parsed _ => simp [hfirst] at parsed
      simp [hnone]
    | some first =>
      dsimp only
      rw [ih, List.mem_append, Option.mem_toList, or_assoc]
      refine or_congr_right ⟨?_, ?_⟩
      · intro h
        rcases h with haddr | ⟨rr, hrr, haddr⟩
        · exact ⟨first, .head hfirst, haddr⟩
        · exact ⟨rr, .tail hfirst hrr, haddr⟩
      · intro h
        obtain ⟨rr, hrr, haddr⟩ := h
        cases hrr with
        | head parsed =>
          obtain rfl : first = rr := Option.some.inj (hfirst.symm.trans parsed)
          exact .inl haddr
        | tail parsed rest =>
          obtain rfl := Option.some.inj (hfirst.symm.trans parsed)
          exact .inr ⟨rr, rest, haddr⟩

theorem mem_answerIps {packet : Packet} {questionEnd : Nat} {ip : IpAddr} :
    ip ∈ answerIps packet questionEnd ↔
      ∃ rr, AnswerRecord packet questionEnd rr ∧ rr.address packet = some ip := by
  rw [answerIps]
  split_ifs with hshort
  · have hnone : ∀ rr, ¬ AnswerRecord packet questionEnd rr := by
      intro rr hrr
      have hlen := hrr.1
      have hend := hrr.2.1
      omega
    simp [hnone]
  · have hlong : 12 ≤ packet.length ∧ questionEnd ≤ packet.length := by omega
    rw [mem_answerIpsLoop]
    simp [AnswerRecord, hlong]

/-! ### The accept branch -/

def IpAddr.isV6 : IpAddr → Bool
  | .v4 _ => false
  | .v6 _ => true

/-- The accept branch of `resolve_with_filters` for a response: the filter that accepts it, and what comes
of handing the addresses over. -/
def acceptAdds (ipset : Option IpSetManager) (rule : Rule) (idx : Nat) (ruleset : Option RuleSetDb)
    (resp : Packet) (questionEnd : Nat) (outcome : Nat → SendOutcome) :
    Option (Nat × ResponseFilter × AddEffect) :=
  match firstMatch rule.filters ruleset resp questionEnd with
  | some (filterIdx, filter) =>
    match filter.action, ipset with
    | .accept, some m =>
      let ips := answerIps resp questionEnd
      if ips.isEmpty then none else some (filterIdx, filter, m.addFilterIps idx filterIdx outcome ips)
    | _, _ => none
  | none => none

/-- The side effect of `resolve_with_filters`. -/
def resolveAdds (ctx : QueryContext) (hot : HotState) (ruleset : Option RuleSetDb) (target : RouteTarget)
    (up : Upstreams) (ipset : Option IpSetManager) (outcome : Nat → SendOutcome) :
    Option (Nat × ResponseFilter × AddEffect) :=
  match doUpstreamExchange ctx hot target up.own up with
  | .error _ => none
  | .ok (resp, _) =>
    match target with
    | .rule rule idx => acceptAdds ipset rule idx ruleset resp.packet ctx.fast.questionEnd outcome
    | _ => none

/-- A hot state and a set manager that come from one configuration. A reload that would change the sets
is refused, so this stays so. -/
structure AddIpSetup where
  conf : AddIpRules
  cfg : Config
  rules_eq : cfg.rules = conf.rules
  cache : DnsCache
  ruleset : Option RuleSetDb
  generation : UInt64
  hot : HotState
  built : buildHotState cfg cache ruleset generation = .ok (.ok hot)
  ipset : IpSetConfig
  parsed : parseIpsetConfig conf = some ipset
  opened : Except String Unit
  interval : SetName → Bool
  manager : IpSetManager
  made : IpSetManager.new ipset opened interval = .ok manager

/-! ### Filters of the configuration -/

theorem buildResponseFilter_eq {servers : List Server} {g : RuleFilterSpec} {f : ResponseFilter}
    (h : buildResponseFilter servers g = .ok f) :
    ∃ action, f = ⟨g.answerIp, g.responseType, g.responseRcode, g.responseQclass, action⟩ := by
  simp only [buildResponseFilter, bind, Except.bind, pure, Except.pure] at h
  split at h
  · exact ⟨_, (Except.ok.inj h).symm⟩
  · exact ⟨_, (Except.ok.inj h).symm⟩
  · split at h
    · exact ⟨_, (Except.ok.inj h).symm⟩
    · simp [throw, throwThe, MonadExceptOf.throw] at h

theorem buildRule_eq {servers : List Server} {cache : DnsCache} {idx : Nat} {spec : RuleSpec} {rule : Rule}
    (h : buildRule servers cache idx spec = .ok (.ok rule)) :
    rule.index = idx ∧ spec.filters.mapM (buildResponseFilter servers) = .ok rule.filters := by
  rw [buildRule] at h
  split at h
  · cases h
  · obtain ⟨filters, hfilters, h⟩ := Fallible.bind_eq_ok_iff.mp (Except.ok.inj h)
    dsimp only at h
    split_ifs at h
    · cases h
    · exact Except.ok.inj h ▸ ⟨rfl, hfilters⟩

theorem buildHotState_rule {cfg : Config} {cache : DnsCache} {ruleset : Option RuleSetDb}
    {generation : UInt64} {hot : HotState}
    (h : buildHotState cfg cache ruleset generation = .ok (.ok hot)) {idx : Nat} {rule : Rule}
    (hrule : hot.rules[idx]? = some rule) :
    ∃ spec, cfg.rules[idx]? = some spec ∧ buildRule (buildServers cfg) cache idx spec = .ok (.ok rule) := by
  obtain ⟨built, rules, fallback, hbuilt, hrules, rfl⟩ := buildHotState_eq h
  obtain ⟨r, hr, hok⟩ := Fallible.of_getElem?_mapM hrules hrule
  obtain ⟨p, hp, hbuild⟩ := Fallible.of_getElem?_mapM hbuilt hr
  rw [List.getElem?_mapIdx] at hp
  obtain ⟨spec, hspec, rfl⟩ := Option.map_eq_some_iff.mp hp
  exact ⟨spec, hspec, hok ▸ hbuild⟩

namespace AddIpSetup

variable (u : AddIpSetup)

/-- The ruleset the filters of a rule see. -/
def seenRuleset : Option RuleSetDb := if needsRuleset u.hot.cfg then u.hot.ruleset else none

/-- What a query routed to rule `idx` adds. -/
def adds (ctx : QueryContext) (idx : Nat) (up : Upstreams) (outcome : Nat → SendOutcome) :
    Option (Nat × ResponseFilter × AddEffect) :=
  u.hot.rules[idx]?.bind fun rule =>
    resolveAdds ctx u.hot u.seenRuleset (.rule rule idx) up (some u.manager) outcome

/-- All that is queued is of the one family the filter's response type is pinned to. -/
def OneFamily (ctx : QueryContext) (idx : Nat) (up : Upstreams) : Prop :=
  ∀ outcome filterIdx filter effect, u.adds ctx idx up outcome = some (filterIdx, filter, effect) →
    ∀ job ∈ effect.queued,
      (filter.responseType.toFinset = {1} ∧ job.ip.isV6 = false) ∨
        (filter.responseType.toFinset = {28} ∧ job.ip.isV6 = true)

/-- A response that a filter with a set accepts has address records of the filter's own type only, apart
from special-use addresses. -/
def SameTypeAddresses (ctx : QueryContext) (idx : Nat) (up : Upstreams) : Prop :=
  ∀ rule resp winner filterIdx filter, u.hot.rules[idx]? = some rule →
    doUpstreamExchange ctx u.hot (.rule rule idx) up.own up = .ok (resp, winner) →
    firstMatch rule.filters u.seenRuleset resp.packet ctx.fast.questionEnd = some (filterIdx, filter) →
    filter.action = .accept → (u.manager.filterSet idx filterIdx).isSome = true →
    ∀ rr ip, AnswerRecord resp.packet ctx.fast.questionEnd rr → rr.address resp.packet = some ip →
      isSpecialUse ip = false → UInt16.ofNat rr.rrType ∈ filter.responseType

variable {filterIdx : Nat} {filter : ResponseFilter}

theorem pinned {idx : Nat} {rule : Rule} (hrule : u.hot.rules[idx]? = some rule)
    (hfilter : rule.filters[filterIdx]? = some filter) {set : SetName}
    (hset : u.manager.filterSet idx filterIdx = some set) :
    filter.responseType.toFinset = {1} ∨ filter.responseType.toFinset = {28} := by
  obtain ⟨spec, hspec, hbuild⟩ := buildHotState_rule u.built hrule
  obtain ⟨g, hg, hbuilt⟩ := Fallible.of_getElem?_mapM (buildRule_eq hbuild).2 hfilter
  obtain ⟨-, raw, isV6, hmem⟩ := IpSetManager.of_filterSet u.made hset
  obtain ⟨spec', g', hspec', hg', hraw⟩ := IpSetManager.of_mem_addRules u.parsed hmem
  have hchecked := u.conf.checked idx spec' hspec' filterIdx g' hg'
  rw [hraw] at hchecked
  obtain rfl : spec = spec' := Option.some.inj (hspec.symm.trans (u.rules_eq ▸ hspec'))
  obtain rfl : g = g' := Option.some.inj (hg.symm.trans hg')
  obtain ⟨action, rfl⟩ := buildResponseFilter_eq hbuilt
  rcases pinned_of_checked hchecked with hone | hmany
  · exact .inl hone.2
  · exact .inr hmany.2

theorem firstMatch_some {filters : List ResponseFilter} {ruleset : Option RuleSetDb} {resp : Packet}
    {questionEnd : Nat} (h : firstMatch filters ruleset resp questionEnd = some (filterIdx, filter)) :
    filters[filterIdx]? = some filter := by
  have hmem := List.mem_of_find?_eq_some h
  obtain ⟨i, hi, heq⟩ := List.mem_mapIdx.mp hmem
  obtain ⟨rfl, rfl⟩ : i = filterIdx ∧ filters[i] = filter := by simpa using heq
  exact List.getElem?_eq_getElem hi

/-- An address that gets into the queue is that of a record of the accepted response. -/
theorem of_queued {u : AddIpSetup} {ctx : QueryContext} {idx : Nat} {up : Upstreams}
    {outcome : Nat → SendOutcome} {effect : AddEffect}
    (h : u.adds ctx idx up outcome = some (filterIdx, filter, effect)) {job : AddJob}
    (hjob : job ∈ effect.queued) :
    ∃ rule resp winner set, u.hot.rules[idx]? = some rule ∧
      doUpstreamExchange ctx u.hot (.rule rule idx) up.own up = .ok (resp, winner) ∧
      firstMatch rule.filters u.seenRuleset resp.packet ctx.fast.questionEnd = some (filterIdx, filter) ∧
      filter.action = .accept ∧ u.manager.filterSet idx filterIdx = some set ∧
      ∃ rr, AnswerRecord resp.packet ctx.fast.questionEnd rr ∧ rr.address resp.packet = some job.ip ∧
        isSpecialUse job.ip = false := by
  obtain ⟨rule, hrule, h⟩ := Option.bind_eq_some_iff.mp h
  rw [resolveAdds] at h
  split at h
  · simp at h
  · next resp winner hexchange =>
    dsimp only at h
    rw [acceptAdds] at h
    split at h
    · next fi f hfirst =>
      split at h
      · next m haction hm =>
        obtain rfl := Option.some.inj hm
        dsimp only at h
        split_ifs at h
        obtain ⟨rfl, rfl, rfl⟩ : fi = filterIdx ∧ f = filter ∧ _ := by simpa using h
        obtain ⟨set, hset, hip, hspecial⟩ := IpSetManager.of_mem_addFilterIps hjob
        obtain ⟨rr, hrr, haddr⟩ := mem_answerIps.mp hip
        exact ⟨rule, resp, winner, set, hrule, hexchange, hfirst, haction, hset, rr, hrr, haddr, hspecial⟩
      · simp at h
    · simp at h

/-- With room in the queue, each address record of an accepted response gets into it. -/
theorem queued_of_record {u : AddIpSetup} {ctx : QueryContext} {idx : Nat} {up : Upstreams} {rule : Rule}
    {resp : Answer} {winner : Option Nat} (hrule : u.hot.rules[idx]? = some rule)
    (hexchange : doUpstreamExchange ctx u.hot (.rule rule idx) up.own up = .ok (resp, winner))
    (hfirst : firstMatch rule.filters u.seenRuleset resp.packet ctx.fast.questionEnd = some (filterIdx, filter))
    (haccept : filter.action = .accept) {set : SetName} (hset : u.manager.filterSet idx filterIdx = some set)
    {rr : Rr} {ip : IpAddr} (hrr : AnswerRecord resp.packet ctx.fast.questionEnd rr)
    (haddr : rr.address resp.packet = some ip) (hspecial : isSpecialUse ip = false) :
    ∃ effect, u.adds ctx idx up (fun _ => .ok) = some (filterIdx, filter, effect) ∧
      ∃ job ∈ effect.queued, job.ip = ip := by
  have hip : ip ∈ answerIps resp.packet ctx.fast.questionEnd := mem_answerIps.mpr ⟨rr, hrr, haddr⟩
  have hsome : (answerIps resp.packet ctx.fast.questionEnd).isEmpty = false := by
    simpa using List.ne_nil_of_mem hip
  obtain ⟨htx, -⟩ := IpSetManager.of_filterSet u.made hset
  refine ⟨u.manager.addIps set (fun _ => .ok) (answerIps resp.packet ctx.fast.questionEnd), ?_,
    IpSetManager.mem_queued_of_room htx hip hspecial⟩
  simp only [adds, hrule, Option.bind_some, resolveAdds, hexchange, acceptAdds, hfirst, haccept, hsome,
    IpSetManager.addFilterIps, hset, Bool.false_eq_true, if_false]

theorem rrType_of_address {packet : Packet} {rr : Rr} {ip : IpAddr} (h : rr.address packet = some ip) :
    rr.rrType = if ip.isV6 then 28 else 1 := by
  rw [Rr.address] at h
  split_ifs at h with hone hmany
  · rw [← Option.some.inj h]
    exact hone.1
  · rw [← Option.some.inj h]
    exact hmany.1

/-- What a query adds is of one family, the one the filter is pinned to, exactly when the address records
of the response it accepts are all of the filter's type. -/
theorem oneFamily_iff (ctx : QueryContext) (idx : Nat) (up : Upstreams) :
    u.OneFamily ctx idx up ↔ u.SameTypeAddresses ctx idx up := by
  constructor
  · intro h rule resp winner filterIdx filter hrule hexchange hfirst haccept hset rr ip hrr haddr hspecial
    obtain ⟨set, hset⟩ := Option.isSome_iff_exists.mp hset
    obtain ⟨effect, hadds, job, hjob, rfl⟩ :=
      queued_of_record hrule hexchange hfirst haccept hset hrr haddr hspecial
    rcases h _ filterIdx filter effect hadds job hjob with ⟨hone, hv4⟩ | ⟨hmany, hv6⟩
    · rw [rrType_of_address haddr, hv4, ← List.mem_toFinset, hone]
      decide
    · rw [rrType_of_address haddr, hv6, ← List.mem_toFinset, hmany]
      decide
  · intro h outcome filterIdx filter effect hadds job hjob
    obtain ⟨rule, resp, winner, set, hrule, hexchange, hfirst, haccept, hset, rr, hrr, haddr, hspecial⟩ :=
      of_queued hadds hjob
    have htype := h rule resp winner filterIdx filter hrule hexchange hfirst haccept (by simp [hset]) rr
      job.ip hrr haddr hspecial
    rw [rrType_of_address haddr, ← List.mem_toFinset] at htype
    rcases u.pinned hrule (firstMatch_some hfirst) hset with hone | hmany
    · left
      refine ⟨hone, ?_⟩
      rw [hone, Finset.mem_singleton] at htype
      cases hv6 : job.ip.isV6 with
      | false => rfl
      | true => simp [hv6] at htype
    · right
      refine ⟨hmany, ?_⟩
      rw [hmany, Finset.mem_singleton] at htype
      cases hv6 : job.ip.isV6 with
      | false => simp [hv6] at htype
      | true => rfl

end AddIpSetup

/-! ### An answer with both families -/

/-- One rule, whose filter accepts A answers and adds their addresses to the set `mainroute`. -/
def mainrouteRules : AddIpRules where
  rules := [⟨[.domain ['a']], ['u'], none, [⟨⟨[], []⟩, [1], [], [], .accept⟩]⟩]
  addIp := fun _ _ => some ['m', 'a', 'i', 'n', 'r', 'o', 'u', 't', 'e']
  checked := by
    intro i spec hspec j f hf
    obtain ⟨rfl, rfl⟩ : i = 0 ∧ spec = ⟨[.domain ['a']], ['u'], none, [⟨⟨[], []⟩, [1], [], [], .accept⟩]⟩ := by
      cases i <;> simp_all
    obtain ⟨rfl, rfl⟩ : j = 0 ∧ f = ⟨⟨[], []⟩, [1], [], [], .accept⟩ := by
      cases j <;> simp_all
    rfl

def mainrouteConfig : Config where
  fallback := ⟨.lastRule, false⟩
  cacheMinTtl := 0
  cacheMaxTtl := 0
  servers := [(['u'], .upstream [⟨.udp, .v4 0 53, none, none, false, none, none⟩])]
  rules := mainrouteRules.rules
  rulesetSpecs := []

def mainrouteSetup : AddIpSetup where
  conf := mainrouteRules
  cfg := mainrouteConfig
  rules_eq := rfl
  cache := DnsCache.new 8 0 0
  ruleset := none
  generation := 0
  hot := {
    cfg := mainrouteConfig
    servers := buildServers mainrouteConfig
    rules := [{
      index := 0
      server := ['u']
      kind := .upstream [⟨.udp, .v4 0 53, none, none, false, none, none⟩]
      cachePolicy := (DnsCache.new 8 0 0).resolvePolicy none
      filters := [⟨⟨[], []⟩, [1], [], [], .accept⟩]
      matcher := [.domain ['a']]
      stripEcs := true
      stripEcs_eq := rfl }]
    fallback := .rule 0
    ruleset := none
    generation := 0 }
  built := rfl
  ipset := ⟨[(0, 0, ['m', 'a', 'i', 'n', 'r', 'o', 'u', 't', 'e'], false)]⟩
  parsed := rfl
  opened := .ok ()
  interval := fun _ => false
  manager := ⟨[(0, 0, .ipSet ['m', 'a', 'i', 'n', 'r', 'o', 'u', 't', 'e'] none)], [], true⟩
  made := rfl

/-- A query for every record of `a`. -/
def anyQuery : Packet :=
  [0x12, 0x34, 1, 0, 0, 1, 0, 0, 0, 0, 0, 0, 1, 97, 0, 0, 255, 0, 1]

/-- Its answer: `8.8.8.8` and `2001:4860:4860::8888`. -/
def mixedReply : Packet :=
  [0, 7, 0x81, 0x80, 0, 1, 0, 2, 0, 0, 0, 0, 1, 97, 0, 0, 255, 0, 1,
    0xc0, 0x0c, 0, 1, 0, 1, 0, 0, 0, 60, 0, 4, 8, 8, 8, 8,
    0xc0, 0x0c, 0, 28, 0, 1, 0, 0, 0, 60, 0, 16,
    0x20, 0x01, 0x48, 0x60, 0x48, 0x60, 0, 0, 0, 0, 0, 0, 0, 0, 0x88, 0x88]

def anyContext : QueryContext := contextOf anyQuery (by decide +kernel)

def mixedUpstreams : Upstreams :=
  ⟨.ok ⟨mixedReply, 7⟩, .error "", .error "", .error "", true, none⟩

/-- The filter for A answers queues both addresses. -/
theorem aaaa_queued_by_a_filter :
    (∃ filter effect,
      mainrouteSetup.adds anyContext 0 mixedUpstreams (fun _ => .ok) = some (0, filter, effect) ∧
      filter.responseType = [1] ∧
      effect.queued.map (·.ip) = [.v4 0x08080808#32, .v6 0x20014860486000000000000000008888#128]) ∧
    ¬ mainrouteSetup.OneFamily anyContext 0 mixedUpstreams := by
  have hadds : (mainrouteSetup.adds anyContext 0 mixedUpstreams (fun _ => .ok)).any (fun r => decide
      (r.1 = 0 ∧ r.2.1.responseType = [1] ∧
        r.2.2.queued.map (·.ip) = [.v4 0x08080808#32, .v6 0x20014860486000000000000000008888#128])) =
      true := by decide +kernel
  obtain ⟨⟨filterIdx, filter, effect⟩, hsome, hr⟩ := (Option.any_eq_true _ _).mp hadds
  obtain ⟨rfl, htype, hqueued⟩ := of_decide_eq_true hr
  refine ⟨⟨filter, effect, hsome, htype, hqueued⟩, ?_⟩
  intro hfamily
  have hmem : IpAddr.v6 0x20014860486000000000000000008888#128 ∈ effect.queued.map (·.ip) := by
    rw [hqueued]
    simp
  obtain ⟨job, hjob, hip⟩ := List.mem_map.mp hmem
  rcases hfamily _ 0 filter effect hsome job hjob with ⟨-, hv4⟩ | ⟨hmany, -⟩
  · rw [hip] at hv4
    simp [IpAddr.isV6] at hv4
  · rw [htype] at hmany
    simp at hmany

end PathDns
