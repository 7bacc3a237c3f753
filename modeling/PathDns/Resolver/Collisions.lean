import Mathlib.Data.Finset.Insert
import PathDns.Cache.Hit
import PathDns.Dns.Subnet
import PathDns.Resolver.OptIsolation
import PathDns.Resolver.StoredEntries

/-!
# Queries with colliding keys

A key is a hash of 64 bits, so a lookup may find the entry of another query and a query may follow the
leader of another one. Here keys come from an arbitrary function. What is served then rests on the
comparisons that follow: `queries_match_v` for an entry, and for a follower the comparison of its question
with that of the response.

`queries_match_v` knows of the OPT record that `find_opt_record` finds, and does not compare the codes of the
other options when it ignores ECS; the follower compares type and class without regard to case. All this is
harmless in a run in which no key brings two queries together that differ in these (`Separated`).
-/

namespace PathDns

open Bytes Runs

/-! ### The system under an arbitrary key function -/

/-- `ck`, for an arbitrary key function. -/
def leaderKeyBy (key : KeyFunction) (ctx : QueryContext) (target : RouteTarget) : CacheKey :=
  key ctx.packet ctx.fast ctx.variant (ecsInQuery ctx target)

def leaderInsertBy (key : KeyFunction) (ctx : QueryContext) (target : RouteTarget) (resp : Packet) :
    CacheInsert :=
  { leaderInsert ctx target resp with key := leaderKeyBy key ctx target }

namespace ServeSystem

/-- `state.cache.add` of the leader, for an arbitrary key function. -/
def storeBy (key : KeyFunction) (s : ServeSystem) (q : ServedQuery) (resp : Packet) :
    Option CacheWrite → DnsCache
  | some w => s.cache.add w.now (leaderInsertBy key q.ctx q.target resp) w.policy w.ruleId
  | none => s.cache

/-- A step of the system, for an arbitrary key function. -/
def stepBy (key : KeyFunction) (s : ServeSystem) : ServeEvent → Option ServeSystem
  | .lookup client now now' query fast =>
    match s.cache.probeBy key now now' query fast false with
    | .ok (hit, _, cache) =>
      some ({ s with cache := cache }.deliver client (hit.map CacheHit.out) s.flights)
    | .error _ => some s
  | .miss q generation =>
    (s.flights.step (.register (singleflightKey (leaderKeyBy key q.ctx q.target) generation))).map
      fun flights => { s with flights := flights, served := s.served ++ [q] }
  | .respond i resp write => (s.leading i).bind fun q =>
    { s with cache := s.storeBy key q resp write }.respondStep i q resp none
  | e => s.step e

/-- With the keys of the source the system is that of the source. -/
theorem stepBy_cacheKey (s : ServeSystem) (e : ServeEvent) : s.stepBy cacheKey e = s.step e := by
  cases e with
  | lookup client now now' query fast => rfl
  | miss q generation =>
    rw [stepBy, step, leaderKeyBy, ← leaderKey_eq]
  | respond i resp write =>
    rw [stepBy, step]
    congr 1
    funext q
    cases write with
    | none => rfl
    | some w =>
      rw [storeBy, leaderInsertBy, leaderKeyBy, ← leaderKey_eq]
      rfl
  | _ => rfl

/-! ### What is stored -/

/-- The query that a leader stores, with its ECS option removed where that is done. -/
def storedQuery (q : ServedQuery) : Packet :=
  (cacheQuery q.ctx.packet q.ctx.fast.questionEnd q.ctx.variant (ecsInQuery q.ctx q.target)).1

/-- The entry under `k` was stored by one of the queries, under its key. -/
def StoredFrom (key : KeyFunction) (qs : List ServedQuery) (k : CacheKey) (e : Entry) : Prop :=
  ∃ q ∈ qs, k = leaderKeyBy key q.ctx q.target ∧ e.query = storedQuery q ∧
    e.questionEnd = q.ctx.fast.questionEnd ∧ e.variant = extractVariant e.query e.questionEnd

/-- Every entry was stored by a query of the run, or was there before. -/
def Kept (key : KeyFunction) (past : List ServedQuery) (s : ServeSystem) : Prop :=
  s.cache.Holds (StoredFrom key (past ++ s.served))

variable {key : KeyFunction} {past : List ServedQuery} {s s' : ServeSystem}

theorem mem_of_leading {i : Nat} {q : ServedQuery} (h : s.leading i = some q) : q ∈ s.served := by
  rw [leading] at h
  split at h
  · split_ifs at h
    exact List.mem_of_getElem? h
  · simp at h

/-- How an event may change the cache. -/
inductive CacheChange (key : KeyFunction) (s : ServeSystem) : ServeEvent → DnsCache → Prop
  | same (e) : CacheChange key s e s.cache
  | store {i q} (resp write) (hq : s.leading i = some q) :
      CacheChange key s (.respond i resp write) (s.storeBy key q resp write)
  | probe {client now now' query fast hit probe cache}
      (h : s.cache.probeBy key now now' query fast false = .ok (hit, probe, cache)) :
      CacheChange key s (.lookup client now now' query fast) cache
  | remove (k) : CacheChange key s (.evict k) (s.cache.remove k)
  | clear : CacheChange key s .clear s.cache.invalidateAll

variable {e : ServeEvent}

theorem change_flights {cache : DnsCache} (h : CacheChange key s e cache) {f : Option FlightSystem}
    {g : FlightSystem → ServeSystem} (hstep : f.map g = some s')
    (hg : ∀ flights, (g flights).cache = cache ∧ s.served ⊆ (g flights).served) :
    CacheChange key s e s'.cache ∧ s.served ⊆ s'.served := by
  obtain ⟨flights, -, rfl⟩ := Option.map_eq_some_iff.mp hstep
  exact ⟨(hg flights).1 ▸ h, (hg flights).2⟩

/-- What one step does to the cache, and that no query is forgotten. -/
theorem stepBy_change (hstep : s.stepBy key e = some s') :
    CacheChange key s e s'.cache ∧ s.served ⊆ s'.served := by
  have hsame : ∀ (client : Nat) (reply : Option Packet) (flights : FlightSystem),
      (s.deliver client reply flights).cache = s.cache ∧
        s.served ⊆ (s.deliver client reply flights).served := fun _ _ _ => ⟨rfl, List.Subset.refl _⟩
  cases e with
  | lookup client now now' query fast =>
    rw [stepBy] at hstep
    split at hstep
    · next hprobe =>
      obtain rfl := Option.some.inj hstep
      exact ⟨.probe hprobe, List.Subset.refl _⟩
    · exact Option.some.inj hstep ▸ ⟨.same _, List.Subset.refl _⟩
  | miss q generation =>
    rw [stepBy] at hstep
    exact change_flights (.same _) hstep (fun _ => ⟨rfl, List.subset_append_left _ _⟩)
  | respond i resp write =>
    obtain ⟨q, hq, hstep⟩ := Option.bind_eq_some_iff.mp hstep
    rw [respondStep] at hstep
    split_ifs at hstep <;>
      exact change_flights (.store resp write hq) hstep (fun _ => ⟨rfl, List.Subset.refl _⟩)
  | drop i | cancel i =>
    obtain ⟨q, -, hstep⟩ := Option.bind_eq_some_iff.mp hstep
    exact change_flights (.same _) hstep (fun _ => ⟨rfl, List.Subset.refl _⟩)
  | fail i =>
    obtain ⟨q, -, hstep⟩ := Option.bind_eq_some_iff.mp hstep
    rw [failStep] at hstep
    split at hstep <;> exact change_flights (.same _) hstep (hsame _ _)
  | notify i | setPublished i | finish i =>
    exact change_flights (.same _) hstep (fun _ => ⟨rfl, List.Subset.refl _⟩)
  | receive j =>
    obtain ⟨q, -, hstep⟩ := Option.bind_eq_some_iff.mp hstep
    rw [receiveStep] at hstep
    split at hstep
    · exact change_flights (.same _) hstep (hsame _ _)
    · simp at hstep
  | giveUp j cancelled =>
    obtain ⟨q, -, hstep⟩ := Option.bind_eq_some_iff.mp hstep
    exact change_flights (.same _) hstep (hsame _ _)
  | evict k => exact Option.some.inj hstep ▸ ⟨.remove k, List.Subset.refl _⟩
  | clear => exact Option.some.inj hstep ▸ ⟨.clear, List.Subset.refl _⟩

theorem CacheChange.holds {P : CacheKey → Entry → Prop} (h : s.cache.Holds P) {cache : DnsCache}
    (hchange : CacheChange key s e cache)
    (hnew : ∀ i resp w q, e = .respond i resp (some w) → s.leading i = some q → ∀ entry,
      DnsCache.entryOf w.now (leaderInsertBy key q.ctx q.target resp) w.policy w.ruleId = some entry →
      P (leaderKeyBy key q.ctx q.target) entry) :
    cache.Holds P := by
  cases hchange with
  | same => exact h
  | @store i q resp write hq =>
    cases write with
    | none => exact h
    | some w => exact DnsCache.Holds.add h (hnew i resp w q rfl hq)
  | probe hprobe => exact h.probeBy hprobe
  | remove k => exact h.remove k
  | clear => exact DnsCache.holds_invalidateAll

theorem Kept.step (h : s.Kept key past) (hstep : s.stepBy key e = some s') : s'.Kept key past := by
  obtain ⟨hchange, hserved⟩ := stepBy_change hstep
  have hold : s.cache.Holds (StoredFrom key (past ++ s'.served)) := by
    intro m hm k e he
    obtain ⟨q, hq, hentry⟩ := h m hm k e he
    exact ⟨q, List.mem_append.mpr ((List.mem_append.mp hq).imp_right (fun hq => hserved hq)), hentry⟩
  refine hchange.holds hold fun i resp w q _ hq entry he => ?_
  obtain ⟨-, -, -, hquery, hend, -, -⟩ := DnsCache.entryOf_spec he
  exact ⟨q, List.mem_append_right _ (hserved (mem_of_leading hq)), rfl, hquery, hend,
    hend ▸ (leader_entry_query he).2.2⟩

theorem questionEnd_storedQuery (q : ServedQuery) :
    questionEnd (storedQuery q) = some q.ctx.fast.questionEnd :=
  questionEnd_agree (cacheQuery_agree q.ctx _) (parseQueryFast_spec q.ctx.accepted).questionEnd_eq
    (Nat.le_refl _)

/-! ### What is served -/

/-- The stored query asks what the live query asks: name up to case, type and class, RD, AD and CD, OPT
presence with EDNS version and DO, and the set of the other option codes. -/
structure SameAsk (stored : Packet) (storedEnd : Nat) (query : Packet) (questionEnd : Nat) : Prop where
  question : SameQuestion (slice stored 12 storedEnd) (slice query 12 questionEnd)
  header : headerFlags stored = headerFlags query
  opt : optFlags stored = optFlags query
  codes : otherCodes stored = otherCodes query

/-- A hit is an entry whose query asks the same. A follower gets the response of its leader, if that has
the question of the follower, and SERVFAIL otherwise. -/
def Serves (key : KeyFunction) (s : ServeSystem) : ServeEvent → Prop
  | .lookup _ now now' query fast => parseQueryFast query = .ok fast →
      ∀ hit probe cache, s.cache.probeBy key now now' query fast false = .ok (some hit, probe, cache) →
      ∃ stripEcs entry readAt, s.cache.FoundBy key now now' query fast hit stripEcs entry readAt ∧
        SameAsk entry.query entry.questionEnd query fast.questionEnd
  | .receive j => ∀ q l resp, s.served[j]? = some q →
      (s.flights.queries[j]?).map FlightQuery.phase = some (.waiting l (some (.response resp))) →
      (SameQuestion (responseQuestion resp) q.ctx.question →
        outcomeReply q.ctx (.response resp) =
          some (patch (setId resp q.ctx.fast.id) 12 q.ctx.question)) ∧
      (¬ SameQuestion (responseQuestion resp) q.ctx.question →
        ∃ reply, servfailReply q.ctx.packet q.ctx.fast.questionEnd = .ok reply ∧
          outcomeReply q.ctx (.response resp) = some reply)
  | _ => True

/-- A query that is looked up has at most one OPT record, where `find_opt_record` finds it, and so has every
stored query with one of its keys. The two have the same other option codes, under the regular key at least
if the hashes of their codes are equal. Type and class of a response do not differ from those of a follower
in case only. -/
def Separated (key : KeyFunction) (past : List ServedQuery) (s : ServeSystem) : ServeEvent → Prop
  | .lookup _ _ _ query fast => PlainOpt query fast.questionEnd ∧ ∀ q ∈ past ++ s.served, ∀ strip,
      leaderKeyBy key q.ctx q.target = key query fast (extractVariant query fast.questionEnd) strip →
      PlainOpt (storedQuery q) q.ctx.fast.questionEnd ∧
        ((strip = false → (extractVariant (storedQuery q) q.ctx.fast.questionEnd).extraOptsHash =
            (extractVariant query fast.questionEnd).extraOptsHash) →
          otherCodes (storedQuery q) = otherCodes query)
  | .receive j => ∀ q l resp, s.served[j]? = some q →
      (s.flights.queries[j]?).map FlightQuery.phase = some (.waiting l (some (.response resp))) →
      (typeClassOf (responseQuestion resp)).map toAsciiLowercase =
        (typeClassOf q.ctx.question).map toAsciiLowercase →
      typeClassOf (responseQuestion resp) = typeClassOf q.ctx.question
  | _ => True

theorem skipQuestions_storedQuery (q : ServedQuery) :
    12 ≤ (storedQuery q).length ∧
      skipQuestions (storedQuery q) (u16be (storedQuery q) 4) 12 = some q.ctx.fast.questionEnd := by
  have hquery := parseQueryFast_spec q.ctx.accepted
  have hagree := cacheQuery_agree q.ctx (ecsInQuery q.ctx q.target)
  have hge := hquery.questionEnd_ge
  have hle := hagree.right
  refine ⟨le_trans (by omega) hle, ?_⟩
  rw [storedQuery, ← hagree.u16be_eq (show 4 + 1 < q.ctx.fast.questionEnd by omega)]
  exact skipQuestions_agree hagree hquery.skipQuestions_eq (Nat.le_refl _)

theorem serves_lookup (h : s.Kept key past) {client now now' : Nat} {query : Packet} {fast : FastQueryInfo}
    (hsep : s.Separated key past (.lookup client now now' query fast)) :
    s.Serves key (.lookup client now now' query fast) := by
  intro hfast hit probe cache hprobe
  obtain ⟨stripEcs, entry, readAt, hfound⟩ := DnsCache.probeBy_hit hprobe
  refine ⟨stripEcs, entry, readAt, hfound, ?_⟩
  obtain ⟨m, hm, hentry⟩ := hfound.stored
  obtain ⟨q, hq, hkey, hstored, hqe, hvariant⟩ := h m hm _ _ hentry
  obtain ⟨hends, -, hmatch⟩ := queriesMatchV_question hfound.matched
  obtain ⟨⟨hopt, hdo, hversion, hrd, had, hcd⟩, hall⟩ := queriesMatchV_variant hfound.matched
  rw [hvariant, hstored, hqe] at hopt hdo hversion hrd had hcd hall
  rw [hstored] at hmatch
  rw [hqe] at hends
  -- the variants speak of the records that the two queries have
  obtain ⟨hplain, hothers⟩ := hsep
  obtain ⟨hplainStored, hcodes⟩ := hothers q hq stripEcs hkey.symm
  have hlive := parseQueryFast_spec hfast
  obtain ⟨hlen, hskip⟩ := skipQuestions_storedQuery q
  obtain ⟨hheader, hflags⟩ := hplain.placed.variant_flags hlive.length_ge hlive.skipQuestions_eq
  obtain ⟨hheader', hflags'⟩ := hplainStored.placed.variant_flags hlen hskip
  rw [hstored, hqe]
  constructor
  · -- the stored question is the one `question_end` cuts out, so the comparison decides equality
    rw [← hends] at hmatch ⊢
    rw [← responseQuestion_of_questionEnd (questionEnd_storedQuery q)] at hmatch ⊢
    exact questionsMatch_iff.mp hmatch
  · rw [hheader, hheader', hrd, had, hcd]
  · rw [hplain.optFlags_eq, hplainStored.optFlags_eq, hflags, hflags', hopt, hversion, hdo]
  · exact hcodes fun hregular => congrArg QueryVariant.extraOptsHash (hall hregular)

/-- The follower takes the response of its leader when ends and bytes agree up to case. -/
theorem outcomeReply_response (ctx : QueryContext) (resp : Packet) :
    (questionEnd resp = some ctx.fast.questionEnd ∧
        (slice resp 12 ctx.fast.questionEnd).map toAsciiLowercase = ctx.question.map toAsciiLowercase →
      outcomeReply ctx (.response resp) = some (patch (setId resp ctx.fast.id) 12 ctx.question)) ∧
    (¬ (questionEnd resp = some ctx.fast.questionEnd ∧
        (slice resp 12 ctx.fast.questionEnd).map toAsciiLowercase = ctx.question.map toAsciiLowercase) →
      ∃ reply, servfailReply ctx.packet ctx.fast.questionEnd = .ok reply ∧
        outcomeReply ctx (.response resp) = some reply) := by
  have hq := parseQueryFast_spec ctx.accepted
  have hge := hq.questionEnd_ge
  rw [outcomeReply, followerReply]
  constructor
  · rintro ⟨hend, hlow⟩
    have hb := questionEnd_bounds hend
    rw [if_neg]
    rintro (h | h | h)
    · exact h hend
    · omega
    · exact h hlow
  · intro hnot
    obtain ⟨reply, hreply⟩ := exists_replyWithRcode (by omega) hq.questionEnd_le 2
    refine ⟨reply, hreply, ?_⟩
    rw [if_pos, servfailOr, servfailReply, hreply]
    by_contra hcon
    simp only [not_or, not_not] at hcon
    exact hnot ⟨hcon.1, hcon.2.2⟩

theorem serves_receive {j : Nat} (hsep : s.Separated key past (.receive j)) : s.Serves key (.receive j) := by
  intro q l resp hq hphase
  have hsep := hsep q l resp hq hphase
  have hquery := parseQueryFast_spec q.ctx.accepted
  obtain ⟨labels, typeClass, hlabels, hfour, hquestion⟩ := hquery.question_eq
  obtain ⟨htake, hservfail⟩ := outcomeReply_response q.ctx resp
  refine ⟨fun hsame => htake ?_, fun hnot => hservfail fun hpass => hnot ?_⟩
  · have hend := hquery.questionEnd_of_same hsame
    refine ⟨hend, ?_⟩
    rw [← responseQuestion_of_questionEnd hend]
    exact hsame.lower
  · obtain ⟨hend, hlower⟩ := hpass
    rw [← responseQuestion_of_questionEnd hend, QueryContext.question, hquestion] at hlower
    rw [QueryContext.question, hquestion, typeClassOf_append hfour] at hsep
    rw [QueryContext.question, hquestion, sameQuestion_iff_lower hlabels hfour]
    have htails : (typeClassOf (responseQuestion resp)).map toAsciiLowercase =
        typeClass.map toAsciiLowercase := by
      have hlen := length_eq_of_map_eq hlower
      rw [typeClassOf, List.map_drop, hlower, ← List.map_drop, hlen, ← typeClassOf, typeClassOf_append hfour]
    exact ⟨hlower, hsep htails⟩

/-- Whatever the keys are, in every run in which they bring no two queries together that differ in what is
not compared, each step serves what was asked. The run may start with
entries that queries of earlier processes have stored. -/
theorem run_serves (key : KeyFunction) (past : List ServedQuery) {cache : DnsCache} {es : List ServeEvent}
    {e : ServeEvent} (hcache : cache.Holds (StoredFrom key past))
    (hmeets : Meets (stepBy key) (Separated key past) (start cache) (es ++ [e]))
    (hrun : run (stepBy key) (start cache) es = some s) : s.Serves key e := by
  have hstart : (start cache).Kept key past := by
    rw [Kept, start, List.append_nil]
    exact hcache
  have hkept : s.Kept key past :=
    run_invariant (fun _ _ _ h _ hstep => Kept.step h hstep) hstart (meets_true _ _) hrun
  have hsep := ((meets_append.mp hmeets).2 s hrun).1
  cases e with
  | lookup client now now' query fast => exact serves_lookup hkept hsep
  | receive j => exact serves_receive hsep
  | _ => trivial

/-- The worst key function: every two queries collide. -/
def oneKey : KeyFunction := fun _ _ _ _ => 0

/-- A query of a client, routed to an upstream that strips ECS. -/
def asking (client : Nat) (packet : Packet) (h : parseQueryFast packet = .ok (fastInfo packet)) :
    ServedQuery :=
  ⟨client, contextOf packet h, (clientQuery client).target⟩

/-- A query for `a` with ECS and further options. -/
def subnetQuery (rest : List UInt8) : Packet := queryWith 1 (optRecord (ecsOption ++ rest))

/-- A query with a cookie leads and its response is cached. -/
def storeCookieQuery : List ServeEvent :=
  [.miss (asking 0 (subnetQuery (cookieOption 7)) (by decide +kernel)) 0,
    .respond 0 (replyWith 0 []) (some ⟨0, ⟨false, 0, 0, 3600⟩, 0⟩)]

theorem plainOpt_queryWith {rdata : List UInt8} (hcount : leadingCount (queryWith 1 (optRecord rdata)) = 0)
    (hone : (optRdatas (queryWith 1 (optRecord rdata))).length ≤ 1) (questionEnd : Nat) :
    PlainOpt (queryWith 1 (optRecord rdata)) questionEnd :=
  ⟨optPlaced_of_leading hcount _, hone⟩

/-- A lookup of a query with another cookie. -/
theorem run_serves_storeCookieQuery :
    ∃ s, run (stepBy oneKey) (start (DnsCache.new 8 0 0)) storeCookieQuery = some s ∧
      s.Serves oneKey (.lookup 0 0 0 (subnetQuery (cookieOption 9))
        (fastInfo (subnetQuery (cookieOption 9)))) := by
  obtain ⟨s, hrun, hs⟩ := (Option.any_eq_true _ _).mp
    (show (run (stepBy oneKey) (start (DnsCache.new 8 0 0)) storeCookieQuery).any (fun s =>
      s.served.map storedQuery == [queryWith 1 (optRecord (cookieOption 7))]) = true by decide +kernel)
  rw [beq_iff_eq] at hs
  refine ⟨s, hrun, run_serves oneKey [] (DnsCache.holds_new 8 0 0) (meets_append.mpr ⟨?_, ?_⟩) hrun⟩
  · exact ⟨trivial, fun _ _ => ⟨trivial, fun _ _ => trivial⟩⟩
  · intro s' hs'
    obtain rfl := Option.some.inj (hrun.symm.trans hs')
    refine ⟨⟨plainOpt_queryWith (by decide +kernel) (by decide +kernel) _, fun q hq strip _ => ?_⟩,
      fun _ _ => trivial⟩
    have hstored := List.mem_map_of_mem (f := storedQuery) hq
    rw [List.nil_append, hs, List.mem_singleton] at hstored
    rw [hstored]
    exact ⟨plainOpt_queryWith (by decide +kernel) (by decide +kernel) _, fun _ => by decide +kernel⟩

/-- A query for `a` of the given type, and an answer to it without records. -/
def typedQuery (type : UInt8) : Packet := [0x12, 0x34, 1, 0, 0, 1, 0, 0, 0, 0, 0, 0, 1, 97, 0, 0, type, 0, 1]

def typedReply (type : UInt8) : Packet :=
  [0x12, 0x34, 0x81, 0x80, 0, 1, 0, 0, 0, 0, 0, 0, 1, 97, 0, 0, type, 0, 1]

/-- A query for `a` with DO set in an OPT record behind a record of the answer section. -/
def dnssecBehindAnswer : Packet :=
  sectionedQuery 1 0 1 (emptyRecord ++ [0, 0, 41, 16, 0, 0, 0, 0x80, 0, 0, 0])

/-- A lookup without a cookie is served the entry of the query with one, a lookup with DO behind an answer
record the entry of a query without an OPT record, and a query of type 97 the response to one of type 65
that it follows. -/
theorem colliding_queries_served :
    ((run (stepBy oneKey) (start (DnsCache.new 8 0 0)) (storeCookieQuery ++
        [.lookup 1 0 0 (subnetQuery []) (fastInfo (subnetQuery []))])).map (deliveredTo · 1) =
      some [replyWith 0 []] ∧
    otherCodes (storedQuery (asking 0 (subnetQuery (cookieOption 7)) (by decide +kernel))) = {10} ∧
    otherCodes (subnetQuery []) = ∅) ∧
    ((run (stepBy oneKey) (start (DnsCache.new 8 0 0))
        [.miss (asking 0 (typedQuery 1) (by decide +kernel)) 0,
          .respond 0 (replyWith 0 []) (some ⟨0, ⟨false, 0, 0, 3600⟩, 0⟩),
          .lookup 1 0 0 dnssecBehindAnswer (fastInfo dnssecBehindAnswer)]).map (deliveredTo · 1) =
      some [replyWith 0 []] ∧
    parseQueryFast dnssecBehindAnswer = .ok (fastInfo dnssecBehindAnswer) ∧
    optFlags (typedQuery 1) = [] ∧ optFlags dnssecBehindAnswer = [(0, true)]) ∧
    (run (stepBy oneKey) (start (DnsCache.new 8 0 0))
        [.miss (asking 0 (typedQuery 65) (by decide +kernel)) 0,
          .miss (asking 1 (typedQuery 97) (by decide +kernel)) 0, .respond 0 (typedReply 65) none,
          .notify 0, .receive 1]).map (deliveredTo · 1) = some [typedReply 97] := by
  refine ⟨⟨by decide +kernel, by decide +kernel, by decide +kernel⟩, ⟨by decide +kernel, by decide +kernel,
    by decide +kernel, by decide +kernel⟩, ?_⟩
  -- the keys are evaluated first, or the comparison of two keys compares what they are computed from
  simp only [run, stepBy, leaderKeyBy, oneKey]
  decide +kernel

end ServeSystem

end PathDns
