import Mathlib.Data.List.Find
import PathDns.Dns.AnswerWalk
import PathDns.Reload.System
import PathDns.Resolver.AddIp
import PathDns.Resolver.StoredEntries

/-!
# The addresses a start restores from the cache (`AppState::new`)

After a restart every cached response is run through the filters of its rule once more, and where an
`accept` entry matches first, the addresses go to the set of that entry. This is to bring back what the
live path had queued when the response was resolved (`RestoresLive`).

The cached packet shows the filters what the live response showed them (`SameAnswers`). But a response that
a filter forwarded for is stored under the rule that forwarded, without having passed the rule's filters:
the start runs it through them, and an `accept` entry may match it. In a run without such responses, and
where the queue had room, all that a start queues was queued before.
-/

namespace PathDns

open Bytes Runs

/-! ### Startup -/

/-- `for_each_rule_entry`. -/
def DnsCache.ruleEntries (c : DnsCache) (now : Nat) : List Entry :=
  match c.cache with
  | none => []
  | some m => (m.entries.map (·.2)).filter fun e => e.ruleId != 65535 && decide (e.age now < e.ttl.toNat)

/-- What a start finds in a cached response: the rule and the filter, and the addresses. -/
structure Found where
  entry : Entry
  pair : Nat × Nat
  ips : List IpAddr
deriving DecidableEq, Repr

/-- The closure `AppState::new` hands to `for_each_rule_entry`. -/
def findAdds (hot : HotState) (e : Entry) : Option Found :=
  match hot.rules[e.ruleId.toNat]? with
  | none => none
  | some rule =>
    match firstMatch rule.filters hot.ruleset e.packet e.questionEnd with
    | none => none
    | some (filterIdx, filter) =>
      match filter.action with
      | .accept =>
        let ips := answerIps e.packet e.questionEnd
        if ips.isEmpty then none else some ⟨e, (e.ruleId.toNat, filterIdx), ips⟩
      | _ => none

def filterIps (found : List Found) : AList (fun _ : Nat × Nat => List IpAddr) :=
  found.foldl (fun m f => m.insert f.pair ((m.lookup f.pair).getD [] ++ f.ips)) ∅

/-- What comes of handing the addresses over, for each pair; `outcome pair k` is the outcome of the `k`-th
send for the pair. -/
def restoreAdds (m : IpSetManager) (found : List Found) (outcome : Nat × Nat → Nat → SendOutcome) :
    List ((Nat × Nat) × AddEffect) :=
  (filterIps found).entries.map fun p => (p.1, m.addFilterIps p.1.1 p.1.2 (outcome p.1) p.2)

/-! ### The live path -/

/-- A query with the rule its name is routed to and the replies it gets. A DNS message has at most 65535
bytes. -/
structure LiveQuery where
  ctx : QueryContext
  routed : Option Nat
  up : Upstreams
  query_size : ctx.packet.length ≤ 65535
  qname_size : ctx.qname.bytes.length ≤ 65535
  reply_size : ∀ r, ∀ pool ∈ [up.own, up.forwarded, up.primary, up.secondary], pool = .ok r →
    r.packet.length ≤ 65535

/-- What resolving a query leaves behind: the entry its leader stored, and the addresses it queued with the
rule and the filter they were queued for. -/
structure Resolution where
  stored : Option (CacheKey × Entry)
  queued : List ((Nat × Nat) × IpAddr)

/-- The resolution stored this response. -/
def Resolution.Stored (r : Resolution) (e : Entry) : Prop :=
  ∃ k e₀, r.stored = some (k, e₀) ∧ e₀.SameContent e

/-- A query is resolved with the hot state of `u`. -/
def AddIpSetup.resolve (u : AddIpSetup) (q : LiveQuery) (cache : DnsCache) (currentGen : UInt64)
    (now : Nat) (outcome : Nat → SendOutcome) : Resolution :=
  match resolveTarget u.hot q.ctx.fast.qtype q.routed with
  | none => ⟨none, []⟩
  | some target =>
    { stored := (leader q.ctx u.hot u.seenRuleset target q.up cache currentGen now).stored.map
        fun s => (leaderKey q.ctx target, s.1)
      queued :=
        match target, resolveAdds q.ctx u.hot u.seenRuleset target q.up (some u.manager) outcome with
        | .rule _ idx, some (filterIdx, _, effect) => effect.queued.map fun job => ((idx, filterIdx), job.ip)
        | _, _ => [] }

/-- The write of a leader. -/
def DnsCache.keep (c : DnsCache) : Option (CacheKey × Entry) → DnsCache
  | none => c
  | some (key, e) => { c with cache := c.cache.map (·.insert key e) }

/-! ### Runs with restarts -/

/-- The cache file, with what the process ran on when it wrote the file. -/
structure SavedCache where
  bytes : List UInt8
  fingerprint : UInt64
  setup : AddIpSetup

/-- A process and its restarts. `cleared` says that the last reload has cleared the cache; `resolved` goes
back to the first start. -/
structure Process where
  clock : Nat
  setup : AddIpSetup
  cleared : Bool
  cache : DnsCache
  file : Option SavedCache
  resolved : List Resolution
  found : List Found
  restored : List ((Nat × Nat) × AddEffect)

/-- A query holds the setup it began with and the generation it saw when it was to write. A restart loads
the file at `now` and walks over the cache `elapsed` later. -/
inductive ProcessEvent where
  | tick (elapsed : Nat)
  | resolve (u : AddIpSetup) (q : LiveQuery) (currentGen : UInt64) (outcome : Nat → SendOutcome)
  | evict (key : CacheKey)
  | lookup (now' : Nat) (query : Packet) (fast : FastQueryInfo)
  | reload (u : AddIpSetup)
  | clear
  | save (nowUnix : Nat) (fingerprint : UInt64)
  | restart (u : AddIpSetup) (capacity nowUnix now elapsed : Nat)
      (outcome : Nat × Nat → Nat → SendOutcome)

namespace Process

/-- The first start, with an empty cache and no file. -/
def start (u : AddIpSetup) (capacity : Nat) : Process where
  clock := 0
  setup := u
  cleared := true
  cache := DnsCache.new capacity u.cfg.cacheMinTtl u.cfg.cacheMaxTtl
  file := none
  resolved := []
  found := []
  restored := []

/-- The cache after the load of a start. -/
def loaded (s : Process) (u : AddIpSetup) (capacity nowUnix now : Nat) : DnsCache :=
  let empty := DnsCache.new capacity u.cfg.cacheMinTtl u.cfg.cacheMaxTtl
  match s.file with
  | none => empty
  | some file => (empty.loadFromFile nowUnix now file.fingerprint file.bytes).2

def step (s : Process) : ProcessEvent → Option Process
  | .tick elapsed => some { s with clock := s.clock + elapsed }
  | .resolve u q currentGen outcome =>
    let r := u.resolve q s.cache currentGen s.clock outcome
    some { s with cache := s.cache.keep r.stored, resolved := s.resolved ++ [r] }
  | .evict key => some { s with cache := s.cache.step (.evict key) }
  | .lookup now' query fast => some { s with cache := s.cache.step (.lookup s.clock now' query fast) }
  | .reload u => some { s with setup := u, cleared := false }
  | .clear => some { s with cache := s.cache.step .clear, cleared := true }
  | .save nowUnix fingerprint => some { s with
      file := ((s.cache.saveToFile nowUnix s.clock fingerprint).map (⟨·, fingerprint, s.setup⟩)).or s.file }
  | .restart u capacity nowUnix now elapsed outcome =>
    let cache := s.loaded u capacity nowUnix now
    let found := (cache.ruleEntries (now + elapsed)).filterMap (findAdds u.hot)
    some { s with
      clock := now + elapsed
      setup := u
      cleared := true
      cache := cache
      found := found
      restored := restoreAdds u.manager found outcome }

/-- Every address the last start queued for a pair was queued for that pair by the live path when the
cached response it comes from was resolved. -/
def RestoresLive (s : Process) : Prop :=
  ∀ pair effect, (pair, effect) ∈ s.restored → ∀ job ∈ effect.queued,
    (∃ f ∈ s.found, f.pair = pair ∧ job.ip ∈ f.ips) ∧
    ∀ f ∈ s.found, f.pair = pair → job.ip ∈ f.ips →
      ∃ r ∈ s.resolved, r.Stored f.entry ∧ (pair, job.ip) ∈ r.queued

end Process

/-! ### The conditions -/

/-- Both setups come from the same configuration and the same ruleset files. -/
structure AddIpSetup.SameInputs (u v : AddIpSetup) : Prop where
  conf : u.conf = v.conf
  cfg : u.cfg = v.cfg
  ruleset : u.ruleset = v.ruleset

/-- A query whose response a start can judge as the live path did: rule numbers fit the 15 bits they are
stored in, the queue has room, the replies have one question, and a reply that was forwarded for is not
one that an `accept` entry with a set would match first. -/
structure LiveQuery.Replays (q : LiveQuery) (u : AddIpSetup) (outcome : Nat → SendOutcome) : Prop where
  few : u.cfg.rules.length ≤ 32768
  room : ∀ n, outcome n = .ok
  oneQuestion : ∀ r, q.up.own = .ok r ∨ q.up.forwarded = .ok r → u16be r.packet 4 = 1
  forwarded : ∀ rule idx own j a,
    resolveTarget u.hot q.ctx.fast.qtype q.routed = some (.rule rule idx) →
    Forwarded q.ctx u.hot u.seenRuleset rule q.up own j a →
    ∀ i filter, firstMatch rule.filters u.seenRuleset a.packet q.ctx.fast.questionEnd = some (i, filter) →
      filter.action = .accept → u.manager.filterSet idx i = none ∨
        ∀ ip ∈ answerIps a.packet q.ctx.fast.questionEnd, isSpecialUse ip = true

namespace Process

/-- A restart finds the configuration and the ruleset files of the save. -/
def SameRestart (s : Process) : ProcessEvent → Prop
  | .restart u _ _ _ _ _ => ∀ file ∈ s.file, u.SameInputs file.setup
  | _ => True

/-- A query writes only what a start can judge, and on the inputs that are in force; a save does not fall
between the store of a reload and its clear. -/
def Replays (s : Process) : ProcessEvent → Prop
  | .resolve u q currentGen outcome =>
    q.Replays u outcome ∧ (currentGen = u.hot.generation → u.SameInputs s.setup)
  | .save _ _ => s.cleared = true
  | _ => True

end Process

/-! ### What a start finds -/

variable {e : Entry}

theorem findAdds_eq_some_iff {hot : HotState} {f : Found} :
    findAdds hot e = some f ↔ ∃ rule i filter, hot.rules[e.ruleId.toNat]? = some rule ∧
      firstMatch rule.filters hot.ruleset e.packet e.questionEnd = some (i, filter) ∧
      filter.action = .accept ∧ answerIps e.packet e.questionEnd ≠ [] ∧
      f = ⟨e, (e.ruleId.toNat, i), answerIps e.packet e.questionEnd⟩ := by
  constructor
  · fun_cases findAdds hot e <;> rintro ⟨⟩
    case case4 rule hrule i filter hmatch haccept _ hsome =>
      exact ⟨rule, i, filter, hrule, hmatch, haccept, by simpa using hsome, rfl⟩
  · rintro ⟨rule, i, filter, hrule, hmatch, haccept, hsome, rfl⟩
    simp [findAdds, hrule, hmatch, haccept, hsome]

theorem findAdds_sameContent {hot : HotState} {e' : Entry} (h : e.SameContent e') {f : Found}
    (hf : findAdds hot e' = some f) : findAdds hot e = some { f with entry := e } := by
  obtain ⟨hpacket, -, -, hend, -, -, hrule⟩ := h
  obtain ⟨rule, i, filter, hget, hmatch, haccept, hsome, rfl⟩ := findAdds_eq_some_iff.mp hf
  rw [hpacket, hend] at hmatch hsome
  rw [hrule] at hget
  refine findAdds_eq_some_iff.mpr ⟨rule, i, filter, hget, hmatch, haccept, hsome, ?_⟩
  rw [hpacket, hend, hrule]

theorem of_mem_filterIps {found : List Found} {pair : Nat × Nat} {ips : List IpAddr}
    (h : (filterIps found).lookup pair = some ips) {ip : IpAddr} (hip : ip ∈ ips) :
    ∃ f ∈ found, f.pair = pair ∧ ip ∈ f.ips := by
  have hfold : FinMap.Holds (fun pair ips => ∀ ip ∈ ips, ∃ f ∈ found, f.pair = pair ∧ ip ∈ f.ips)
      (filterIps found) := by
    refine List.foldlRecOn found _ FinMap.holds_empty ?_
    intro m hm f hf
    refine hm.insert fun ip hip => ?_
    rcases List.mem_append.mp hip with hold | hnew
    · cases hlook : m.lookup f.pair with
      | none => simp [hlook] at hold
      | some ips' =>
        rw [hlook] at hold
        exact hm f.pair ips' hlook ip hold
    · exact ⟨f, hf, rfl, hnew⟩
  exact hfold pair ips h ip hip

/-! ### Setups with the same inputs -/

namespace AddIpSetup

variable {u v : AddIpSetup}

theorem SameInputs.symm (h : u.SameInputs v) : v.SameInputs u := ⟨h.conf.symm, h.cfg.symm, h.ruleset.symm⟩

theorem hot_ruleset (u : AddIpSetup) : u.hot.ruleset = u.ruleset := by
  obtain ⟨built, rules, fallback, -, -, heq⟩ := buildHotState_eq u.built
  rw [heq]

theorem length_rules (u : AddIpSetup) : u.hot.rules.length = u.cfg.rules.length := by
  obtain ⟨built, rules, fallback, hbuilt, hrules, heq⟩ := buildHotState_eq u.built
  rw [heq, ← (Fallible.mapM_eq_ok_iff.mp hrules).length_eq, ← (Fallible.mapM_eq_ok_iff.mp hbuilt).length_eq,
    List.length_mapIdx]

theorem SameInputs.rule (h : u.SameInputs v) {i : Nat} {rule : Rule} (hrule : u.hot.rules[i]? = some rule) :
    ∃ rule', v.hot.rules[i]? = some rule' ∧ rule'.filters = rule.filters := by
  have hlt : i < v.hot.rules.length := by
    rw [v.length_rules, ← h.cfg, ← u.length_rules]
    exact Slots.lt_length hrule
  have hrule' : v.hot.rules[i]? = some v.hot.rules[i] := List.getElem?_eq_getElem hlt
  obtain ⟨spec, hspec, hbuild⟩ := buildHotState_rule u.built hrule
  obtain ⟨spec', hspec', hbuild'⟩ := buildHotState_rule v.built hrule'
  obtain rfl : spec = spec' := Option.some.inj (hspec.symm.trans (h.cfg ▸ hspec'))
  have hfilters := (buildRule_eq hbuild).2
  rw [h.cfg] at hfilters
  exact ⟨_, hrule', Except.ok.inj ((buildRule_eq hbuild').2.symm.trans hfilters)⟩

theorem SameInputs.filterSet (h : u.SameInputs v) (i j : Nat) :
    v.manager.filterSet i j = u.manager.filterSet i j := by
  have hipset : v.ipset = u.ipset := Option.some.inj (v.parsed.symm.trans (h.conf ▸ u.parsed))
  have hsets := (IpSetManager.new_addRules v.made).1
  rw [hipset, (IpSetManager.new_addRules u.made).1] at hsets
  rw [IpSetManager.filterSet, IpSetManager.filterSet, Except.ok.inj hsets]

theorem SameInputs.findAdds (h : u.SameInputs v) {e : Entry} {f : Found}
    (hf : findAdds u.hot e = some f) : findAdds v.hot e = some f := by
  obtain ⟨rule, i, filter, hrule, hmatch, haccept, hsome, rfl⟩ := findAdds_eq_some_iff.mp hf
  obtain ⟨rule', hrule', hfilters⟩ := h.rule hrule
  rw [u.hot_ruleset, h.ruleset, ← v.hot_ruleset, ← hfilters] at hmatch
  exact findAdds_eq_some_iff.mpr ⟨rule', i, filter, hrule', hmatch, haccept, hsome, rfl⟩

/-- Without tags no filter asks the ruleset. -/
theorem firstMatch_seenRuleset (u : AddIpSetup) {i : Nat} {rule : Rule}
    (hrule : u.hot.rules[i]? = some rule) (resp : Packet) (questionEnd : Nat) :
    firstMatch rule.filters u.hot.ruleset resp questionEnd =
      firstMatch rule.filters u.seenRuleset resp questionEnd := by
  rw [seenRuleset]
  split_ifs with hneeds
  · rfl
  · obtain ⟨spec, hspec, hbuild⟩ := buildHotState_rule u.built hrule
    have hempty : ∀ filter ∈ rule.filters, filter.answerIp.isEmpty = true := by
      intro filter hfilter
      obtain ⟨n, hn⟩ := List.mem_iff_getElem?.mp hfilter
      obtain ⟨g, hg, hbuilt⟩ := Fallible.of_getElem?_mapM (buildRule_eq hbuild).2 hn
      obtain ⟨action, rfl⟩ := buildResponseFilter_eq hbuilt
      have hcfg : u.hot.cfg = u.cfg := (buildHotState_ok u.built).1
      simp only [needsRuleset, Bool.or_eq_true, Bool.not_eq_true', not_or, Bool.not_eq_false,
        List.isEmpty_iff, hcfg] at hneeds
      have htags := (List.append_eq_nil_iff.mp hneeds.2).2
      have hspecTags := List.flatMap_eq_nil_iff.mp htags spec (List.mem_of_getElem? hspec)
      have hg := List.flatMap_eq_nil_iff.mp hspecTags g (List.mem_of_getElem? hg)
      obtain ⟨hincludes, hexcludes⟩ := List.append_eq_nil_iff.mp hg
      simp [AnswerIpMatcher.isEmpty, hincludes, hexcludes]
    rw [firstMatch, firstMatch]
    refine List.find?_congr ?_
    intro p hp
    obtain ⟨n, hn, rfl⟩ := List.mem_mapIdx.mp hp
    simp [ResponseFilter.matchesResponse, hempty _ (List.getElem_mem hn)]

end AddIpSetup

/-! ### One query -/

theorem SameAnswers.firstMatch_eq {questionEnd : Nat} {p p' : Packet} (h : SameAnswers questionEnd p p')
    (filters : List ResponseFilter) (ruleset : Option RuleSetDb) :
    firstMatch filters ruleset p' questionEnd = firstMatch filters ruleset p questionEnd := by
  have hmatches : ∀ f : ResponseFilter, f.matchesResponse ruleset p' questionEnd =
      f.matchesResponse ruleset p questionEnd := by
    intro f
    rw [ResponseFilter.matchesResponse, ResponseFilter.matchesResponse, h.ips, h.types, h.rcode, h.qclass]
  rw [firstMatch, firstMatch]
  simp only [hmatches]

section OneExchange

variable {ctx : QueryContext} {kind : ServerSpec} {pool : Except String WireReply} {a : Answer}

theorem exchangeKind_sameAnswers (h : exchangeKind ctx kind pool = .ok a)
    (hone : ∀ r, pool = .ok r → u16be r.packet 4 = 1) :
    SameAnswers ctx.fast.questionEnd a.packet (setId (sanitized a.packet) 0) := by
  have hq := parseQueryFast_spec ctx.accepted
  have hge := hq.questionEnd_ge
  rcases (exchangeKind_cases h).2 with hobs | ⟨set, hfixed⟩
  · obtain ⟨r, hr, hpacket, hend⟩ := exchangeObserved_cases hq hobs
    have hend' : questionEnd a.packet = some ctx.fast.questionEnd := by
      rw [hpacket, questionEnd_setId, hend]
    have hqd : u16be a.packet 4 = 1 := by
      rw [hpacket, u16be, byteAt_setId_out (by omega), byteAt_setId_out (by omega), ← u16be, hone r hr]
    obtain ⟨hsame, hlong⟩ := sameAnswers_sanitized hend' hqd
    exact hsame.trans (sameAnswers_setId ⟨by omega, hlong⟩)
  · have hmade := synthFixedAnswer_madeUp hfixed
    rw [sanitized_of_arcount hmade.arcount]
    exact sameAnswers_setId ⟨hmade.header, hmade.length_ge⟩

theorem exchangeKind_length (h : exchangeKind ctx kind pool = .ok a) (hquery : ctx.packet.length ≤ 65535)
    (hpool : ∀ r, pool = .ok r → r.packet.length ≤ 65535) : a.packet.length ≤ 65563 := by
  rcases (exchangeKind_cases h).2 with hobs | ⟨set, hfixed⟩
  · obtain ⟨r, hr, hpacket, -⟩ := exchangeObserved_cases (parseQueryFast_spec ctx.accepted) hobs
    have hsize := hpool r hr
    rw [hpacket, length_setId]
    omega
  · have hmade := synthFixedAnswer_madeUp hfixed
    have hwithin := hmade.within
    have hle := hmade.length_le
    omega

end OneExchange

namespace AddIpSetup

variable {u : AddIpSetup} {q : LiveQuery} {cache : DnsCache} {currentGen : UInt64} {now : Nat}
  {outcome : Nat → SendOutcome} {k : CacheKey} {e : Entry}

theorem resolveTarget_rule {qtype : Nat} {routed : Option Nat} {rule : Rule} {idx : Nat}
    (h : resolveTarget u.hot qtype routed = some (.rule rule idx)) : u.hot.rules[idx]? = some rule := by
  revert h
  fun_cases resolveTarget u.hot qtype routed
  case case1 rule' hrouted =>
    rintro ⟨⟩
    obtain ⟨i, -, hrule⟩ := Option.bind_eq_some_iff.mp hrouted
    obtain ⟨spec, -, hbuild⟩ := buildHotState_rule u.built hrule
    rw [(buildRule_eq hbuild).1]
    exact hrule
  case case2 =>
    rw [Fallible.toOption_eq_some_iff]
    fun_cases classifyTarget u.hot qtype <;> intro h
    all_goals obtain ⟨x, hx, h⟩ := Fallible.bind_eq_ok_iff.mp h
    · cases h
      exact index_eq_ok_iff.mp hx
    · cases h
    all_goals
      obtain ⟨y, -, h⟩ := Fallible.bind_eq_ok_iff.mp h
      simp only [pure, Except.pure, Except.ok.injEq] at h
      first | cases h | split_ifs at h

theorem resolve_stored (h : (u.resolve q cache currentGen now outcome).stored = some (k, e)) :
    ∃ target a w f, resolveTarget u.hot q.ctx.fast.qtype q.routed = some target ∧
      resolveWithFilters q.ctx u.hot u.seenRuleset target q.up = .ok (.ok (.response a w f)) ∧
      currentGen = u.hot.generation ∧
      DnsCache.entryOf now (leaderInsert q.ctx target a.packet) (leaderPolicy cache u.hot target w f).1
        (leaderPolicy cache u.hot target w f).2.toWire = some e := by
  rw [resolve] at h
  split at h
  · simp at h
  · next target htarget =>
    obtain ⟨⟨e', producer⟩, hstored, heq⟩ := Option.map_eq_some_iff.mp h
    obtain ⟨-, rfl⟩ := Prod.mk.inj heq
    obtain ⟨a, w, f, hres, hgen, hentry⟩ := leader_stored hstored
    exact ⟨target, a, w, f, htarget, hres, hgen, hentry⟩

/-- The stored entry fits the cache file. -/
theorem resolve_entry (h : (u.resolve q cache currentGen now outcome).stored = some (k, e)) :
    e.Stored now := by
  obtain ⟨target, a, w, f, -, hres, -, hentry⟩ := resolve_stored h
  have hlen : a.packet.length ≤ 65563 := by
    obtain ⟨kind, pool, hpool, hanswer⟩ := resolveWithFilters_source hres
    refine exchangeKind_length hanswer q.query_size (fun r hr => q.reply_size r pool hpool hr)
  have hquery := q.query_size
  have hqname := q.qname_size
  have hcopy := length_sanitized a.packet
  exact leader_entry_stored (le_refl now) hentry (by omega) (by omega) (by rw [← sanitized]; omega)

/-- What a start would queue for a stored response, resolving the query has queued. -/
theorem resolve_queued (hq : q.Replays u outcome)
    (h : (u.resolve q cache currentGen now outcome).stored = some (k, e)) {f : Found}
    (hf : findAdds u.hot e = some f) {ip : IpAddr} (hip : ip ∈ f.ips) (hspecial : isSpecialUse ip = false)
    (hset : (u.manager.filterSet f.pair.1 f.pair.2).isSome) :
    (f.pair, ip) ∈ (u.resolve q cache currentGen now outcome).queued := by
  obtain ⟨target, a, w, fwd, htarget, hres, -, hentry⟩ := resolve_stored h
  obtain ⟨-, -, hpacket, -, hend, -⟩ := DnsCache.entryOf_spec hentry
  have hcopy : e.packet = setId (sanitized a.packet) 0 := hpacket
  have hqe : e.questionEnd = q.ctx.fast.questionEnd := hend
  obtain ⟨rule, i, filter, hrule, hmatch, haccept, -, rfl⟩ := findAdds_eq_some_iff.mp hf
  -- the number leads back to the rule the query was routed to
  have hlt : e.ruleId.toNat < 32768 := by
    have hin := Slots.lt_length hrule
    rw [u.length_rules] at hin
    exact lt_of_lt_of_le hin hq.few
  rw [DnsCache.entryOf_ruleId hentry] at hlt
  obtain ⟨rule', idx, rfl, hwire⟩ := leaderPolicy_rule hlt
  have hrule' := resolveTarget_rule htarget
  have hnum : e.ruleId.toNat = idx := by
    have hin := Slots.lt_length hrule'
    have hfew := hq.few
    rw [u.length_rules] at hin
    rw [DnsCache.entryOf_ruleId hentry, hwire, UInt16.toNat_ofNat']
    omega
  rw [hnum] at hrule hset ⊢
  obtain rfl : rule = rule' := Option.some.inj (hrule.symm.trans hrule')
  rw [hqe, u.firstMatch_seenRuleset hrule] at hmatch
  obtain ⟨set, hset⟩ := Option.isSome_iff_exists.mp hset
  rcases resolveWithFilters_cases hres with ⟨hown, -, hexchange, -⟩ | ⟨rule', idx', own, j, heq, -, -, hforward⟩
  · have hsame := exchangeKind_sameAnswers hown (fun r hr => hq.oneQuestion r (.inl hr))
    rw [hcopy, hsame.firstMatch_eq] at hmatch
    rw [hcopy, hqe, hsame.ips] at hip
    obtain ⟨rr, hrr, haddr⟩ := mem_answerIps.mp hip
    obtain ⟨effect, hadds, job, hjob, rfl⟩ :=
      queued_of_record hrule hexchange hmatch haccept hset hrr haddr hspecial
    rw [adds, hrule, Option.bind_some] at hadds
    have hroom : outcome = fun _ => .ok := funext hq.room
    simp only [resolve, htarget, hroom, hadds]
    exact List.mem_map.mpr ⟨job, hjob, rfl⟩
  · obtain ⟨rfl, rfl⟩ := RouteTarget.rule.inj heq
    obtain ⟨s, -, hanswer⟩ := hforward.answered
    have hsame := exchangeKind_sameAnswers hanswer (fun r hr => hq.oneQuestion r (.inr hr))
    rw [hcopy, hsame.firstMatch_eq] at hmatch
    rw [hcopy, hqe, hsame.ips] at hip
    rcases hq.forwarded rule idx own j a htarget hforward i filter hmatch haccept with hnone | hall
    · rw [hset] at hnone
      simp at hnone
    · rw [hall ip hip] at hspecial
      simp at hspecial

end AddIpSetup

/-! ### Entries -/

theorem Entry.SameContent.refl (e : Entry) : e.SameContent e := ⟨rfl, rfl, rfl, rfl, rfl, rfl, rfl⟩

theorem Entry.SameContent.trans {e' e'' : Entry} (h : e.SameContent e') (h' : e'.SameContent e'') :
    e.SameContent e'' := by
  obtain ⟨hpacket, hquery, hqname, hend, hvariant, hoffsets, hrule⟩ := h
  obtain ⟨hpacket', hquery', hqname', hend', hvariant', hoffsets', hrule'⟩ := h'
  exact ⟨hpacket'.trans hpacket, hquery'.trans hquery, hqname'.trans hqname, hend'.trans hend,
    hvariant'.trans hvariant, hoffsets'.trans hoffsets, hrule'.trans hrule⟩

theorem Entry.Stored.sameContent {e' : Entry} {now now' : Nat} (h : e.Stored now) (hsame : e.SameContent e')
    (hpast : e'.inserted ≤ now') : e'.Stored now' := by
  obtain ⟨hpacket, hquery, hqname, hend, hvariant, hoffsets, -⟩ := hsame
  exact {
    past := hpast
    question_ge := hend ▸ h.question_ge
    question_le := by rw [hend, hquery]; exact h.question_le
    variant := by rw [hvariant, hquery, hend]; exact h.variant
    packetSize := hpacket ▸ h.packetSize
    querySize := hquery ▸ h.querySize
    qnameSize := hqname ▸ h.qnameSize
    offsetsSize := hoffsets ▸ h.offsetsSize
    fit := by rw [hoffsets, hpacket]; exact h.fit
    disjoint := hoffsets ▸ h.disjoint }

namespace DnsCache

variable {P Q : CacheKey → Entry → Prop} {c : DnsCache}

theorem Holds.mono (h : c.Holds P) (hPQ : ∀ k e, P k e → Q k e) : c.Holds Q :=
  fun m hm => (h m hm).mono hPQ

theorem of_mem_ruleEntries {now : Nat} {e : Entry} (h : e ∈ c.ruleEntries now) :
    ∃ k m, c.cache = some m ∧ m.lookup k = some e := by
  revert h
  fun_cases ruleEntries c now
  · nofun
  · next m hm =>
    intro h
    obtain ⟨⟨k, e'⟩, hmem, rfl⟩ := List.mem_map.mp (List.mem_of_mem_filter h)
    exact ⟨k, m, hm, (List.mem_dlookup_iff m.nodupKeys).mpr hmem⟩

theorem Holds.keep (h : c.Holds P) {new : Option (CacheKey × Entry)}
    (hnew : ∀ k e, new = some (k, e) → P k e) : (c.keep new).Holds P := by
  cases new with
  | none => exact h
  | some binding =>
    obtain ⟨k, e⟩ := binding
    intro m hm
    obtain ⟨m₀, hm₀, rfl⟩ := Option.map_eq_some_iff.mp hm
    exact (h m₀ hm₀).insert (hnew k e rfl)

end DnsCache

/-! ### Runs -/

/-- All that a start with `u` would queue for the entry was queued when its response was resolved. -/
def LiveQueued (u : AddIpSetup) (resolved : List Resolution) (e : Entry) : Prop :=
  ∀ f, findAdds u.hot e = some f → ∀ ip ∈ f.ips, isSpecialUse ip = false →
    (u.manager.filterSet f.pair.1 f.pair.2).isSome → ∃ r ∈ resolved, r.Stored e ∧ (f.pair, ip) ∈ r.queued

namespace LiveQueued

variable {u v : AddIpSetup} {resolved : List Resolution} {e e' : Entry}

theorem append (h : LiveQueued u resolved e) (more : List Resolution) :
    LiveQueued u (resolved ++ more) e := by
  intro f hf ip hip hspecial hset
  obtain ⟨r, hr, hstored⟩ := h f hf ip hip hspecial hset
  exact ⟨r, List.mem_append_left more hr, hstored⟩

theorem sameInputs (h : LiveQueued u resolved e) (hsame : u.SameInputs v) : LiveQueued v resolved e := by
  intro f hf ip hip hspecial hset
  rw [hsame.filterSet] at hset
  exact h f (hsame.symm.findAdds hf) ip hip hspecial hset

theorem sameContent (h : LiveQueued u resolved e) (hsame : e.SameContent e') :
    LiveQueued u resolved e' := by
  intro f hf ip hip hspecial hset
  obtain ⟨r, hr, ⟨k, e₀, hstored, hcontent⟩, hqueued⟩ :=
    h _ (findAdds_sameContent hsame hf) ip hip hspecial hset
  exact ⟨r, hr, ⟨k, e₀, hstored, hcontent.trans hsame⟩, hqueued⟩

end LiveQueued

/-- The file was saved from a cache of such entries. -/
def SavedCache.Good (file : SavedCache) (resolved : List Resolution) : Prop :=
  ∃ c nowUnix now, DnsCache.saveToFile c nowUnix now file.fingerprint = some file.bytes ∧
    c.Holds (fun _ e => e.Stored now) ∧ c.Holds (fun _ e => LiveQueued file.setup resolved e)

namespace Process

/-- The invariant of a run that replays. -/
structure Inv (s : Process) : Prop where
  stored : s.cache.Holds fun _ e => e.Stored s.clock
  live : s.cleared = true → s.cache.Holds fun _ e => LiveQueued s.setup s.resolved e
  file : ∀ file, s.file = some file → file.Good s.resolved
  restored : s.RestoresLive

variable {s s' : Process}

theorem inv_start (u : AddIpSetup) (capacity : Nat) : (start u capacity).Inv where
  stored := DnsCache.holds_new _ _ _
  live := fun _ => DnsCache.holds_new _ _ _
  file := by simp [start]
  restored := by simp [start, RestoresLive]

theorem Inv.withCache (h : s.Inv) {cache : DnsCache}
    (hcache : ∀ P : CacheKey → Entry → Prop, s.cache.Holds P → cache.Holds P) :
    { s with cache := cache }.Inv :=
  { h with stored := hcache _ h.stored, live := fun hcleared => hcache _ (h.live hcleared) }

variable {u : AddIpSetup}

theorem Inv.resolve (h : s.Inv) {q : LiveQuery} {currentGen : UInt64} {outcome : Nat → SendOutcome}
    (hq : q.Replays u outcome) (hsame : currentGen = u.hot.generation → u.SameInputs s.setup) :
    { s with
      cache := s.cache.keep (u.resolve q s.cache currentGen s.clock outcome).stored
      resolved := s.resolved ++ [u.resolve q s.cache currentGen s.clock outcome] }.Inv where
  stored := h.stored.keep fun k e he => AddIpSetup.resolve_entry he
  live := by
    intro hcleared
    refine DnsCache.Holds.keep ((h.live hcleared).mono fun k e he => he.append _) ?_
    intro k e he
    obtain ⟨-, -, -, -, -, -, hgen, -⟩ := AddIpSetup.resolve_stored he
    refine LiveQueued.sameInputs ?_ (hsame hgen)
    intro f hf ip hip hspecial hset
    exact ⟨_, List.mem_append_right _ (List.mem_singleton.mpr rfl),
      ⟨k, e, he, Entry.SameContent.refl e⟩, AddIpSetup.resolve_queued hq he hf hip hspecial hset⟩
  file := by
    intro file hfile
    obtain ⟨c, nowUnix, now, hsave, hstored, hlive⟩ := h.file file hfile
    exact ⟨c, nowUnix, now, hsave, hstored, hlive.mono fun k e he => he.append _⟩
  restored := by
    intro pair effect hmem job hjob
    obtain ⟨hsource, hall⟩ := h.restored pair effect hmem job hjob
    refine ⟨hsource, fun f hf hpair hip => ?_⟩
    obtain ⟨r, hr, hstored⟩ := hall f hf hpair hip
    exact ⟨r, List.mem_append_left _ hr, hstored⟩

theorem Inv.save (h : s.Inv) (hcleared : s.cleared = true) (nowUnix : Nat) (fingerprint : UInt64) :
    { s with
      file := ((s.cache.saveToFile nowUnix s.clock fingerprint).map
        (SavedCache.mk · fingerprint s.setup)).or s.file }.Inv := by
  refine { h with file := ?_ }
  cases hsave : s.cache.saveToFile nowUnix s.clock fingerprint with
  | none => exact h.file
  | some bytes =>
    rintro file ⟨⟩
    exact ⟨s.cache, nowUnix, s.clock, hsave, h.stored, h.live hcleared⟩

/-- What a start loads has been resolved under the same inputs. -/
theorem Inv.loaded (h : s.Inv) (hsame : ∀ file ∈ s.file, u.SameInputs file.setup) (capacity nowUnix now : Nat) :
    (s.loaded u capacity nowUnix now).Holds fun _ e => e.Stored now ∧ LiveQueued u s.resolved e := by
  rw [Process.loaded]
  cases hfile : s.file with
  | none => exact DnsCache.holds_new _ _ _
  | some file =>
    obtain ⟨c, saveUnix, saveMono, hsave, hstored, hlive⟩ := h.file file hfile
    intro m hm k e' hlook
    obtain ⟨old, e, hold, hlookOld, hcontent, hinserted⟩ :=
      DnsCache.of_lookup_loaded hstored hsave hm hlook
    refine ⟨(hstored old hold k e hlookOld).sameContent hcontent hinserted, ?_⟩
    exact ((hlive old hold k e hlookOld).sameContent hcontent).sameInputs (hsame file hfile).symm

theorem of_mem_restoreAdds {m : IpSetManager} {found : List Found}
    {outcome : Nat × Nat → Nat → SendOutcome} {pair : Nat × Nat} {effect : AddEffect}
    (h : (pair, effect) ∈ restoreAdds m found outcome) {job : AddJob} (hjob : job ∈ effect.queued) :
    (∃ f ∈ found, f.pair = pair ∧ job.ip ∈ f.ips) ∧ isSpecialUse job.ip = false ∧
      (m.filterSet pair.1 pair.2).isSome := by
  obtain ⟨⟨pair', ips⟩, hentry, heq⟩ := List.mem_map.mp h
  obtain ⟨rfl, rfl⟩ := Prod.mk.inj heq
  obtain ⟨set, hset, hip, hspecial⟩ := IpSetManager.of_mem_addFilterIps hjob
  have hlook : (filterIps found).lookup pair' = some ips :=
    (List.mem_dlookup_iff (filterIps found).nodupKeys).mpr hentry
  exact ⟨of_mem_filterIps hlook hip, hspecial, by rw [hset]; rfl⟩

theorem Inv.restart (h : s.Inv) (hsame : ∀ file ∈ s.file, u.SameInputs file.setup)
    (capacity nowUnix now elapsed : Nat) (outcome : Nat × Nat → Nat → SendOutcome) :
    { s with
      clock := now + elapsed
      setup := u
      cleared := true
      cache := s.loaded u capacity nowUnix now
      found := ((s.loaded u capacity nowUnix now).ruleEntries (now + elapsed)).filterMap (findAdds u.hot)
      restored := restoreAdds u.manager
        (((s.loaded u capacity nowUnix now).ruleEntries (now + elapsed)).filterMap (findAdds u.hot))
        outcome }.Inv where
  stored := (h.loaded hsame capacity nowUnix now).mono fun k e he =>
    { he.1 with past := he.1.past.trans (Nat.le_add_right now elapsed) }
  live := fun _ => (h.loaded hsame capacity nowUnix now).mono fun k e he => he.2
  file := h.file
  restored := by
    intro pair effect hmem job hjob
    obtain ⟨hsource, hspecial, hset⟩ := of_mem_restoreAdds hmem hjob
    refine ⟨hsource, fun f hf hpair hip => ?_⟩
    obtain ⟨e, he, hfind⟩ := List.mem_filterMap.mp hf
    obtain ⟨k, m, hm, hlook⟩ := DnsCache.of_mem_ruleEntries he
    have hentry : f.entry = e := by
      obtain ⟨-, -, -, -, -, -, -, rfl⟩ := findAdds_eq_some_iff.mp hfind
      rfl
    subst hpair
    rw [hentry]
    exact (h.loaded hsame capacity nowUnix now m hm k e hlook).2 f hfind job.ip hip hspecial hset

theorem Inv.step (h : s.Inv) {event : ProcessEvent} (hsame : s.SameRestart event)
    (hreplays : s.Replays event) (hstep : s.step event = some s') : s'.Inv := by
  cases event <;> cases hstep
  case tick elapsed =>
    exact { h with
      stored := h.stored.mono fun k e he =>
        { he with past := he.past.trans (Nat.le_add_right s.clock elapsed) } }
  case resolve => exact h.resolve hreplays.1 hreplays.2
  case evict | lookup => exact h.withCache fun P hP => hP.step _ (by simp)
  case reload => exact { h with live := nofun }
  case clear =>
    exact { h with stored := DnsCache.holds_invalidateAll, live := fun _ => DnsCache.holds_invalidateAll }
  case save nowUnix fingerprint => exact h.save hreplays nowUnix fingerprint
  case restart u capacity nowUnix now elapsed outcome =>
    exact h.restart hsame capacity nowUnix now elapsed outcome

/-- In a run of a process and its restarts on the inputs of the last save, every address a start queues
for a pair from the cache was queued for that pair when the cached response was resolved, if rule numbers
fit, the queue had room, replies have one question, no reply that was forwarded for matches an `accept`
entry with a set, and no write or save falls between the parts of a reload. -/
theorem run_restoresLive {u : AddIpSetup} {capacity : Nat} {events : List ProcessEvent}
    (hsame : Meets step SameRestart (start u capacity) events)
    (hreplays : Meets step Replays (start u capacity) events)
    (hrun : run step (start u capacity) events = some s) : s.RestoresLive := by
  have hinv : s.Inv := by
    refine run_invariant (C := fun s e => s.SameRestart e ∧ s.Replays e) ?_ (inv_start u capacity)
      (hsame.and hreplays) hrun
    intro s e s' h hc hstep
    exact h.step hc.1 hc.2 hstep
  exact hinv.restored

end Process

theorem Process.file_of_save {s s' : Process} {nowUnix : Nat} {fingerprint : UInt64} (hnone : s.file = none)
    (hstep : s.step (.save nowUnix fingerprint) = some s') : ∀ file ∈ s'.file, file.setup = s.setup := by
  obtain rfl := Option.some.inj hstep
  intro file hfile
  dsimp only at hfile
  rw [hnone, Option.or_none] at hfile
  obtain ⟨bytes, -, rfl⟩ := Option.map_eq_some_iff.mp hfile
  rfl

/-! ### A rule that forwards names it does not find -/

/-- A rule that asks another server about names its own does not know, and adds the addresses of its own
server's A answers to the set `mainroute`. -/
def relayRules : AddIpRules where
  rules := [⟨[.domain ['a']], ['u'], none,
    [⟨⟨[], []⟩, [], [3], [], .forward ['v']⟩, ⟨⟨[], []⟩, [1], [], [], .accept⟩]⟩]
  addIp := fun _ j => if j = 1 then some ['m', 'a', 'i', 'n', 'r', 'o', 'u', 't', 'e'] else none
  checked := by
    intro i spec hspec j f hf
    obtain ⟨rfl, rfl⟩ : i = 0 ∧ spec = ⟨[.domain ['a']], ['u'], none,
        [⟨⟨[], []⟩, [], [3], [], .forward ['v']⟩, ⟨⟨[], []⟩, [1], [], [], .accept⟩]⟩ := by
      cases i <;> simp_all
    match j, hf with
    | 0, hf =>
      obtain rfl := Option.some.inj hf
      rfl
    | 1, hf =>
      obtain rfl := Option.some.inj hf
      rfl

def relayUpstream : ServerSpec := .upstream [⟨.udp, .v4 0 53, none, none, false, none, none⟩]

def relayConfig : Config where
  fallback := ⟨.lastRule, false⟩
  cacheMinTtl := 0
  cacheMaxTtl := 0
  servers := [(['u'], relayUpstream), (['v'], relayUpstream)]
  rules := relayRules.rules
  rulesetSpecs := []

def relaySetup : AddIpSetup where
  conf := relayRules
  cfg := relayConfig
  rules_eq := rfl
  cache := DnsCache.new 8 0 0
  ruleset := none
  generation := 0
  hot := {
    cfg := relayConfig
    servers := buildServers relayConfig
    rules := [{
      index := 0
      server := ['u']
      kind := relayUpstream
      cachePolicy := (DnsCache.new 8 0 0).resolvePolicy none
      filters := [⟨⟨[], []⟩, [], [3], [], .forward 1⟩, ⟨⟨[], []⟩, [1], [], [], .accept⟩]
      matcher := [.domain ['a']]
      stripEcs := true
      stripEcs_eq := rfl }]
    fallback := .rule 0
    ruleset := none
    generation := 0 }
  built := rfl
  ipset := ⟨[(0, 1, ['m', 'a', 'i', 'n', 'r', 'o', 'u', 't', 'e'], false)]⟩
  parsed := rfl
  opened := .ok ()
  interval := fun _ => false
  manager := ⟨[(0, 1, .ipSet ['m', 'a', 'i', 'n', 'r', 'o', 'u', 't', 'e'] none)], [], true⟩
  made := rfl

/-- A query for the address of `a`. -/
def relayQuery : Packet := [0x12, 0x34, 1, 0, 0, 1, 0, 0, 0, 0, 0, 0, 1, 97, 0, 0, 1, 0, 1]

/-- The name does not exist. -/
def relayNxdomain : WireReply := ⟨[0, 7, 0x81, 0x83, 0, 1, 0, 0, 0, 0, 0, 0, 1, 97, 0, 0, 1, 0, 1], 7⟩

/-- The address is `8.8.8.8`. -/
def relayAddress : WireReply :=
  ⟨[0, 7, 0x81, 0x80, 0, 1, 0, 1, 0, 0, 0, 0, 1, 97, 0, 0, 1, 0, 1,
    0xc0, 0x0c, 0, 1, 0, 1, 0, 0, 0, 60, 0, 4, 8, 8, 8, 8], 7⟩

def relayLive (own : WireReply) (forwarded : Except String WireReply) (hown : own.packet.length ≤ 65535)
    (hforwarded : ∀ r, forwarded = .ok r → r.packet.length ≤ 65535) : LiveQuery where
  ctx := contextOf relayQuery (by decide +kernel)
  routed := some 0
  up := ⟨.ok own, forwarded, .error "", .error "", true, none⟩
  query_size := by decide
  qname_size := by decide
  reply_size := by
    intro r pool hpool hr
    subst hr
    rcases (by simpa using hpool) with h | h
    · exact h ▸ hown
    · exact hforwarded r h.symm

/-- The query is resolved, the cache saved, and the process restarted. -/
def relayRun (q : LiveQuery) : List ProcessEvent :=
  [.resolve relaySetup q 0 (fun _ => .ok), .save 1000 5, .restart relaySetup 8 1001 0 0 (fun _ _ => .ok)]

theorem relayRun_same (q : LiveQuery) :
    Meets Process.step Process.SameRestart (Process.start relaySetup 8) (relayRun q) := by
  refine ⟨trivial, fun s1 h1 => ⟨trivial, fun s2 h2 => ⟨?_, fun _ _ => trivial⟩⟩⟩
  have hsetup : s1.setup = relaySetup := by
    obtain rfl := Option.some.inj h1
    rfl
  have hfile : s1.file = none := by
    obtain rfl := Option.some.inj h1
    rfl
  intro file hmem
  rw [Process.file_of_save hfile h2 file hmem, hsetup]
  exact ⟨rfl, rfl, rfl⟩

/-- Its own server knows the address. -/
def relayKnown : LiveQuery := relayLive relayAddress (.error "") (by decide) (by simp)

/-- Only the other server does. -/
def relayUnknown : LiveQuery := relayLive relayNxdomain (.ok relayAddress) (by decide)
  (fun r hr => Except.ok.inj hr ▸ by decide)

theorem relayKnown_replays : relayKnown.Replays relaySetup (fun _ => .ok) where
  few := by decide
  room := fun _ => rfl
  oneQuestion := by
    rintro r (hr | hr)
    · obtain rfl : relayAddress = r := Except.ok.inj hr
      decide
    · simp [relayKnown, relayLive] at hr
  forwarded := by
    -- the pool of the other server gives no answer
    intro rule idx own j a _ hforward
    obtain ⟨s, hs, hanswer⟩ := hforward.answered
    have hkind : s.kind = relayUpstream := by
      match j, hs with
      | 0, hs => exact Option.some.inj hs ▸ rfl
      | 1, hs => exact Option.some.inj hs ▸ rfl
    have hnone : exchangeKind relayKnown.ctx relayUpstream relayKnown.up.forwarded = .error "" := rfl
    rw [hkind, hnone] at hanswer
    simp at hanswer

theorem run_restoresLive_relay :
    ∃ s, run Process.step (Process.start relaySetup 8) (relayRun relayKnown) = some s ∧
      s.restored.map (fun r => (r.1, r.2.queued.map (·.ip))) = [((0, 1), [.v4 0x08080808#32])] ∧
      s.RestoresLive := by
  have hresult : (run Process.step (Process.start relaySetup 8) (relayRun relayKnown)).any (fun s => decide
      (s.restored.map (fun r => (r.1, r.2.queued.map (·.ip))) = [((0, 1), [.v4 0x08080808#32])])) = true := by
    decide +kernel
  obtain ⟨s, hrun, hs⟩ := (Option.any_eq_true _ _).mp hresult
  refine ⟨s, hrun, of_decide_eq_true hs, ?_⟩
  refine Process.run_restoresLive (u := relaySetup) (relayRun_same relayKnown) ?_ hrun
  refine ⟨⟨relayKnown_replays, fun _ => ⟨rfl, rfl, rfl⟩⟩, fun s1 h1 => ⟨?_, fun s2 h2 => ?_⟩⟩
  · obtain rfl := Option.some.inj h1
    rfl
  · exact ⟨trivial, fun _ _ => trivial⟩

/-- The start queues the address of a response that was forwarded for, though the live path queued
nothing. -/
theorem forwarded_response_restored :
    Meets Process.step Process.SameRestart (Process.start relaySetup 8) (relayRun relayUnknown) ∧
    ∃ s, run Process.step (Process.start relaySetup 8) (relayRun relayUnknown) = some s ∧
      s.restored.map (fun r => (r.1, r.2.queued.map (·.ip))) = [((0, 1), [.v4 0x08080808#32])] ∧
      s.resolved.flatMap (·.queued) = [] ∧ ¬ s.RestoresLive := by
  have hresult : (run Process.step (Process.start relaySetup 8) (relayRun relayUnknown)).any (fun s => decide
      (s.restored.map (fun r => (r.1, r.2.queued.map (·.ip))) = [((0, 1), [.v4 0x08080808#32])] ∧
        s.resolved.flatMap (·.queued) = [])) = true := by
    decide +kernel
  obtain ⟨s, hrun, hs⟩ := (Option.any_eq_true _ _).mp hresult
  obtain ⟨hrestored, hqueued⟩ := of_decide_eq_true hs
  refine ⟨relayRun_same relayUnknown, s, hrun, hrestored, hqueued, ?_⟩
  intro hlive
  obtain ⟨⟨pair, effect⟩, hmem, heq⟩ : ∃ r ∈ s.restored,
      (r.1, r.2.queued.map (·.ip)) = ((0, 1), [.v4 0x08080808#32]) := by
    apply List.mem_map.mp
    rw [hrestored]
    exact List.mem_singleton.mpr rfl
  obtain ⟨rfl, hips⟩ := Prod.mk.inj heq
  obtain ⟨job, hjob, hip⟩ : ∃ job ∈ effect.queued, job.ip = .v4 0x08080808#32 := by
    apply List.mem_map.mp
    rw [hips]
    exact List.mem_singleton.mpr rfl
  obtain ⟨⟨f, hf, hpair, hfip⟩, hall⟩ := hlive _ effect hmem job hjob
  obtain ⟨r, hr, -, hrq⟩ := hall f hf hpair hfip
  have hnone := List.flatMap_eq_nil_iff.mp hqueued r hr
  rw [hnone] at hrq
  simp at hrq

end PathDns
