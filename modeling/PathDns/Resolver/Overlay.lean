import PathDns.Resolver.Collisions
import PathDns.Upstream.Inflight

/-!
# The client's question over a response

Before a response goes out, its bytes from offset 12 to the end of the question are overwritten with the
question of the client: by a leader without a check of its own, by a follower after a comparison, and by a
cache hit after a check of the length. `copy_from_slice` panics on a range that is not inside the packet.

* The validators let only responses through that have the question of the query, and what the server makes
  up starts with it (`Reaches.echoes`).
* An entry keeps the question of its response, since `strip_opt_rdata` changes bytes behind the question
  only (`Echoes.stripOptRdata`), also when the response counts no question.
* So in every run each overlay is inside its packet and changes nothing but the case of letters
  (`Overlaid`).
-/

namespace PathDns

open Bytes Runs

/-! ### Responses with the question of a query -/

/-- The packet has the question of the query behind its header, up to the case of the letters of its
labels. -/
structure Echoes (query : Packet) (questionEnd : Nat) (resp : Packet) : Prop where
  length_ge : questionEnd ≤ resp.length
  question : SameQuestion (slice resp 12 questionEnd) (slice query 12 questionEnd)

/-- The responses to a query that reach its client: those that a validator accepts for its question, and
those that are made up for it. -/
inductive Reaches (query : Packet) (fast : FastQueryInfo) : Packet → Prop
  | registry {r : InflightRegistry} {entry : InflightEntry} {tx : Nat} {packet resp : Packet}
      (hget : r.get (InflightRegistry.packetId packet) = some entry)
      (hquestion : entry.question = slice query 12 fast.questionEnd)
      (hcomplete : (r.complete packet).response = some (tx, resp)) : Reaches query fast resp
  | validated {upstreamId : Nat} {resp : Packet}
      (hvalid : validateUpstreamResponse resp upstreamId (slice query 12 fast.questionEnd) = .ok ()) :
      Reaches query fast resp
  | fixed {qtype : Nat} {set : FixedAnswerSet} {resp : Packet}
      (hfixed : synthFixedAnswer query fast.questionEnd qtype set = .ok resp) : Reaches query fast resp
  | error {rcode : UInt8} {resp : Packet}
      (herror : replyWithRcode query fast.questionEnd rcode = .ok resp) : Reaches query fast resp
  /-- `set_id` on the way -/
  | setId {resp : Packet} (id : Nat) (h : Reaches query fast resp) : Reaches query fast (setId resp id)

section Echo

variable {query resp : Packet} {fast : FastQueryInfo}

theorem Echoes.agree {questionEnd : Nat} {out : Packet} (h : Echoes query questionEnd resp)
    (hagree : Bytes.Agree questionEnd resp out) : Echoes query questionEnd out :=
  ⟨hagree.right, by rw [hagree.slice_eq (Nat.le_refl _)]; exact h.question⟩

theorem slice_setId (p : Packet) (id e : Nat) : slice (setId p id) 12 e = slice p 12 e := by
  rw [slice, slice, drop_setId (by omega)]

theorem Echoes.setId {questionEnd : Nat} (h : Echoes query questionEnd resp) (id : Nat) :
    Echoes query questionEnd (setId resp id) :=
  ⟨by rw [length_setId]; exact h.length_ge, by rw [slice_setId]; exact h.question⟩

theorem AcceptedQuery.echoes_of_same (hq : AcceptedQuery query fast)
    (h : SameQuestion (responseQuestion resp) (slice query 12 fast.questionEnd)) :
    Echoes query fast.questionEnd resp := by
  have hend := hq.questionEnd_of_same h
  refine ⟨(questionEnd_bounds hend).2, ?_⟩
  rw [← responseQuestion_of_questionEnd hend]
  exact h

theorem AcceptedQuery.sameQuestion_self (hq : AcceptedQuery query fast) :
    SameQuestion (slice query 12 fast.questionEnd) (slice query 12 fast.questionEnd) := by
  obtain ⟨labels, typeClass, hlabels, hfour, hquestion⟩ := hq.question_eq
  exact ⟨labels, labels, typeClass, hlabels, hfour, hquestion, hquestion, rfl⟩

theorem MadeUp.echoes (h : MadeUp query fast.questionEnd resp) (hq : AcceptedQuery query fast) :
    Echoes query fast.questionEnd resp := by
  refine ⟨h.length_ge, ?_⟩
  have hsame : slice resp 12 fast.questionEnd = slice query 12 fast.questionEnd := by
    apply ext_byteAt
    · rw [length_slice h.length_ge, length_slice h.within]
    · intro i hi
      rw [length_slice h.length_ge] at hi
      rw [byteAt_slice hi, byteAt_slice hi]
      exact h.question _ (by omega) (by omega)
  rw [hsame]
  exact hq.sameQuestion_self

theorem sameQuestion_of_validate {upstreamId : Nat} {question : List UInt8}
    (h : validateUpstreamResponse resp upstreamId question = .ok ()) :
    SameQuestion (responseQuestion resp) question := by
  rw [validateUpstreamResponse] at h
  split_ifs at h with hreply hid
  dsimp only at h
  split_ifs at h with hmatch
  exact questionsMatch_iff.mp hmatch

theorem Reaches.echoes (hq : AcceptedQuery query fast) (h : Reaches query fast resp) :
    Echoes query fast.questionEnd resp := by
  induction h with
  | @registry r entry tx packet resp hget hquestion hcomplete =>
    rcases r.complete_cases packet with ⟨-, hnone, -⟩ | ⟨waiter, hwaiter, hanswers, hdone⟩
    · rw [hnone] at hcomplete
      simp at hcomplete
    · obtain rfl := Option.some.inj (hget.symm.trans hwaiter)
      rw [hdone] at hcomplete
      obtain ⟨-, rfl⟩ := Prod.mk.inj (Option.some.inj hcomplete)
      exact (hq.echoes_of_same (hquestion ▸ hanswers.same)).setId _
  | validated hvalid => exact hq.echoes_of_same (sameQuestion_of_validate hvalid)
  | fixed hfixed => exact (synthFixedAnswer_madeUp hfixed).echoes hq
  | error herror => exact (replyWithRcode_madeUp herror).echoes hq
  | setId id _ ih => exact ih.setId id

/-- Every response that the exchanges of a leader end with is one of these. -/
theorem resolveWithFilters_reaches {ctx : QueryContext} {hot : HotState} {ruleset : Option RuleSetDb}
    {target : RouteTarget} {up : Upstreams} {a : Answer} {w f : Option Nat}
    (h : resolveWithFilters ctx hot ruleset target up = .ok (.ok (.response a w f))) :
    Reaches ctx.packet ctx.fast a.packet := by
  have hq := parseQueryFast_spec ctx.accepted
  obtain ⟨kind, pool, -, hkind⟩ := resolveWithFilters_source h
  rcases (exchangeKind_cases hkind).2 with hpool | ⟨set, hset⟩
  · cases pool with
    | error e => simp [exchangeObserved, Except.bind] at hpool
    | ok r =>
      simp only [exchangeObserved, Except.bind, hq.questionEnd_eq, finalizeResponse] at hpool
      obtain ⟨⟨⟩, hvalid, heq⟩ := Fallible.map_eq_ok_iff.mp hpool
      rw [← heq]
      exact (Reaches.validated hvalid).setId _
  · exact .fixed hset

end Echo

/-! ### Overwriting the question -/

/-- The write `packet[12..question_end].copy_from_slice(question)` does not panic and changes nothing but
the case of letters. -/
structure CaseOverlay (packet : Packet) (questionEnd : Nat) (question : List UInt8) : Prop where
  inBounds : copyFromSlice packet 12 questionEnd question = .ok (patch packet 12 question)
  length_eq : (patch packet 12 question).length = packet.length
  letterCase : ∀ i, toAsciiLowercase (byteAt (patch packet 12 question) i) =
    toAsciiLowercase (byteAt packet i)

variable {questionEnd : Nat}

theorem caseOverlay_of_lower {packet : Packet} {question : List UInt8} (hge : 12 ≤ questionEnd)
    (hle : questionEnd ≤ packet.length)
    (hlower : (slice packet 12 questionEnd).map toAsciiLowercase = question.map toAsciiLowercase) :
    CaseOverlay packet questionEnd question := by
  have hlen : question.length = questionEnd - 12 := by
    rw [← length_eq_of_map_eq hlower, length_slice hle]
  have hfit : 12 + question.length ≤ packet.length := by omega
  refine ⟨copyFromSlice_ok hge hle hlen, length_patch hfit, fun i => ?_⟩
  by_cases hin : 12 ≤ i ∧ i < 12 + question.length
  · obtain ⟨k, rfl⟩ := Nat.exists_eq_add_of_le hin.1
    have hk : k < questionEnd - 12 := by omega
    have hbyte : byteAt ((slice packet 12 questionEnd).map toAsciiLowercase) k =
        byteAt (question.map toAsciiLowercase) k := by rw [hlower]
    rw [byteAt_map (by rw [length_slice hle]; exact hk), byteAt_map (by omega), byteAt_slice hk] at hbyte
    rw [byteAt_patch_in hfit (by omega), hbyte]
  · rw [byteAt_patch_out hfit (by omega)]

variable {query resp : Packet}

theorem Echoes.caseOverlay {fast : FastQueryInfo} (hq : AcceptedQuery query fast)
    (h : Echoes query fast.questionEnd resp) :
    CaseOverlay resp fast.questionEnd (slice query 12 fast.questionEnd) := by
  have hge := hq.questionEnd_ge
  exact caseOverlay_of_lower (by omega) h.length_ge h.question.lower

/-! ### What is stored -/

theorem Echoes.questionEnd_eq (h : Echoes query questionEnd resp) :
    PathDns.questionEnd resp = some questionEnd := by
  obtain ⟨la, lb, typeClass, hla, hfour, hresp, -, -⟩ := h.question
  exact questionEnd_of_name hla hfour h.length_ge hresp

theorem Echoes.stripOptRdata (h : Echoes query questionEnd resp) :
    Echoes query questionEnd ((stripOptRdata resp).getD resp) := by
  cases hstrip : PathDns.stripOptRdata resp with
  | none => exact h
  | some out => exact h.agree (stripOptRdata_agree h.questionEnd_eq hstrip)

/-- The packet of an entry has the question of its query. -/
def Entry.Echoed (e : Entry) : Prop := Echoes e.query e.questionEnd e.packet

theorem leader_entry_echoed {added : Nat} {ctx : QueryContext} {target : RouteTarget}
    {policy : ResolvedCachePolicy} {ruleId : UInt16} {e : Entry}
    (he : DnsCache.entryOf added (leaderInsert ctx target resp) policy ruleId = some e)
    (h : Echoes ctx.packet ctx.fast.questionEnd resp) : e.Echoed := by
  obtain ⟨-, -, hpacket, hquery, hend, -, -⟩ := DnsCache.entryOf_spec he
  have hstored : Echoes ctx.packet ctx.fast.questionEnd e.packet := by
    rw [hpacket]
    exact h.stripOptRdata.setId 0
  rw [Entry.Echoed, hquery, hend]
  refine ⟨hstored.length_ge, ?_⟩
  have hslice := (cacheQuery_agree ctx (ecsInQuery ctx target)).slice_eq (i := 12) (Nat.le_refl _)
  exact hslice ▸ hstored.question

/-- The packet of an entry has the question of every query that the entry matches. -/
theorem Entry.Echoed.of_match {entry : Entry} (h : entry.Echoed) {lv : QueryVariant} {stripEcs : Bool}
    (hmatch : queriesMatchV entry.variant lv entry.questionEnd entry.query query questionEnd stripEcs = .ok true) :
    Echoes query questionEnd entry.packet := by
  obtain ⟨rfl, hlen, hmatch⟩ := queriesMatchV_question hmatch
  obtain ⟨la, lb, typeClass, hla, hfour, -, hquery, hlow⟩ := h.question
  have hend := questionEnd_of_name (of_lowerLabels_eq hlow hla) hfour hlen hquery
  rw [← responseQuestion_of_questionEnd hend, questionsMatch_iff, responseQuestion_of_questionEnd hend]
    at hmatch
  exact ⟨h.length_ge, h.question.trans hmatch⟩

/-! ### Runs -/

namespace ServeSystem

/-- The exchange of a leader ends with a response that reaches its client. -/
def Answered (s : ServeSystem) : ServeEvent → Prop
  | .respond i resp _ => ∀ q, s.leading i = some q → Reaches q.ctx.packet q.ctx.fast resp
  | _ => True

/-- The overlays of a step. A hit writes the question over the packet of an entry, a leader over its
response, and a follower over the response of its leader, if it does not answer SERVFAIL. -/
def Overlaid (key : KeyFunction) (s : ServeSystem) : ServeEvent → Prop
  | .lookup _ now now' query fast => parseQueryFast query = .ok fast →
      ∀ hit probe cache, s.cache.probeBy key now now' query fast false = .ok (some hit, probe, cache) →
      ∃ stripEcs entry readAt, s.cache.FoundBy key now now' query fast hit stripEcs entry readAt ∧
        Echoes query fast.questionEnd entry.packet ∧
        CaseOverlay (setId entry.packet fast.id) fast.questionEnd (slice query 12 fast.questionEnd)
  | .respond i resp _ => ∀ q, s.leading i = some q →
      CaseOverlay resp q.ctx.fast.questionEnd q.ctx.question
  | .receive j => ∀ q l resp, s.served[j]? = some q →
      (s.flights.queries[j]?).map FlightQuery.phase = some (.waiting l (some (.response resp))) →
      outcomeReply q.ctx (.response resp) = some (servfailOr q.ctx) ∨
        outcomeReply q.ctx (.response resp) =
            some (patch (setId resp q.ctx.fast.id) 12 q.ctx.question) ∧
          CaseOverlay (setId resp q.ctx.fast.id) q.ctx.fast.questionEnd q.ctx.question
  | _ => True

/-- The caches a process starts with: an empty one, or one loaded from the file of an earlier process. -/
inductive StartCache (key : KeyFunction) : DnsCache → Prop
  | new (capacity : Nat) (minTtl maxTtl : UInt32) : StartCache key (DnsCache.new capacity minTtl maxTtl)
  | loaded {cache : DnsCache} {es : List ServeEvent} {s : ServeSystem}
      {saveUnix saveMono loadUnix loadMono capacity : Nat} {fingerprint : UInt64} {minTtl maxTtl : UInt32}
      {file : List UInt8} (hcache : StartCache key cache)
      (hmeets : Meets (stepBy key) Answered (start cache) es)
      (hrun : run (stepBy key) (start cache) es = some s)
      (hstored : s.cache.Holds fun _ e => e.Stored saveMono)
      (hfile : s.cache.saveToFile saveUnix saveMono fingerprint = some file) :
      StartCache key
        ((DnsCache.new capacity minTtl maxTtl).loadFromFile loadUnix loadMono fingerprint file).2

variable {key : KeyFunction} {s s' : ServeSystem}

theorem echoed_step (h : s.cache.Holds fun _ e => e.Echoed) {e : ServeEvent} (ha : s.Answered e)
    (hstep : s.stepBy key e = some s') : s'.cache.Holds fun _ e => e.Echoed := by
  obtain ⟨hchange, -⟩ := stepBy_change hstep
  refine hchange.holds h fun i resp w q heq hq entry he => ?_
  subst heq
  have hecho := (ha q hq).echoes (parseQueryFast_spec q.ctx.accepted)
  exact leader_entry_echoed he hecho

theorem echoed_run {cache : DnsCache} {es : List ServeEvent} (h : cache.Holds fun _ e => e.Echoed)
    (hmeets : Meets (stepBy key) Answered (start cache) es)
    (hrun : run (stepBy key) (start cache) es = some s) : s.cache.Holds fun _ e => e.Echoed :=
  run_invariant (I := fun s => s.cache.Holds fun _ e => e.Echoed)
    (fun _ _ _ h ha hstep => echoed_step h ha hstep) h hmeets hrun

theorem StartCache.echoed {cache : DnsCache} (h : StartCache key cache) :
    cache.Holds fun _ e => e.Echoed := by
  induction h with
  | new capacity minTtl maxTtl => exact DnsCache.holds_new capacity minTtl maxTtl
  | loaded _ hmeets hrun hstored hfile ih =>
    intro m hm k e' hlook
    obtain ⟨old, e, hold, hlookOld, ⟨hpacket, hquery, -, hend, -⟩, -⟩ :=
      DnsCache.of_lookup_loaded hstored hfile hm hlook
    have hecho : e.Echoed := echoed_run ih hmeets hrun old hold k e hlookOld
    rw [Entry.Echoed, hpacket, hquery, hend]
    exact hecho

theorem overlaid_lookup (h : s.cache.Holds fun _ e => e.Echoed) (client now now' : Nat) (query : Packet)
    (fast : FastQueryInfo) : s.Overlaid key (.lookup client now now' query fast) := by
  intro hfast hit probe cache hprobe
  obtain ⟨stripEcs, entry, readAt, hfound⟩ := DnsCache.probeBy_hit hprobe
  obtain ⟨m, hm, hentry⟩ := hfound.stored
  have hecho := Entry.Echoed.of_match (h m hm _ _ hentry) hfound.matched
  exact ⟨stripEcs, entry, readAt, hfound, hecho, (hecho.setId _).caseOverlay (parseQueryFast_spec hfast)⟩

theorem overlaid_receive (j : Nat) : s.Overlaid key (.receive j) := by
  intro q l resp _ _
  have hge := (parseQueryFast_spec q.ctx.accepted).questionEnd_ge
  rw [outcomeReply, followerReply]
  split_ifs with hguard
  · exact .inl rfl
  · simp only [not_or, not_not, Nat.not_lt] at hguard
    refine .inr ⟨rfl, caseOverlay_of_lower (by omega) ?_ ?_⟩
    · rw [length_setId]
      exact hguard.2.1
    · rw [slice_setId]
      exact hguard.2.2

/-- Every response that reaches the client of an accepted query has its question up to the case of
letters, and the exchanges of a leader end with such responses only. So, whatever the keys are, in every
run each step writes the question inside the packet, and changes the case of letters only. -/
theorem question_overlays_safe (key : KeyFunction) :
    (∀ query fast resp, parseQueryFast query = .ok fast → Reaches query fast resp →
      Echoes query fast.questionEnd resp) ∧
    (∀ ctx hot ruleset target up a w f,
      resolveWithFilters ctx hot ruleset target up = .ok (.ok (.response a w f)) →
      Reaches ctx.packet ctx.fast a.packet) ∧
    ∀ cache es e s, StartCache key cache → Meets (stepBy key) Answered (start cache) (es ++ [e]) →
      run (stepBy key) (start cache) es = some s → s.Overlaid key e := by
  refine ⟨fun query fast resp hfast h => h.echoes (parseQueryFast_spec hfast),
    fun _ _ _ _ _ _ _ _ h => resolveWithFilters_reaches h, ?_⟩
  intro cache es e s hcache hmeets hrun
  obtain ⟨hmeets, hlast⟩ := meets_append.mp hmeets
  have hechoed := echoed_run hcache.echoed hmeets hrun
  cases e with
  | lookup client now now' query fast => exact overlaid_lookup hechoed client now now' query fast
  | receive j => exact overlaid_receive j
  | respond i resp write =>
    intro q hq
    have haccepted := parseQueryFast_spec q.ctx.accepted
    exact (((hlast s hrun).1 q hq).echoes haccepted).caseOverlay haccepted
  | _ => trivial

/-- A query for the A record of `A`. -/
def upperCaseQuery : Packet := [0x12, 0x34, 1, 0, 0, 1, 0, 0, 0, 0, 0, 0, 1, 65, 0, 0, 1, 0, 1]

/-- The response to a query for `a` is cached. -/
def storeReply : List ServeEvent :=
  [.miss (clientQuery 0) 0, .respond 0 (replyWith 0 []) (some ⟨0, ⟨false, 0, 0, 3600⟩, 0⟩)]

/-- The entry of a query for `a` is served to one for `A`. -/
theorem question_overlays_safe_upperCase :
    Echoes upperCaseQuery 19 (replyWith 0 []) ∧
    ∃ s, run (stepBy cacheKey) (start (DnsCache.new 8 0 0)) storeReply = some s ∧
      s.Overlaid cacheKey (.lookup 1 0 0 upperCaseQuery (fastInfo upperCaseQuery)) ∧
      (s.stepBy cacheKey (.lookup 1 0 0 upperCaseQuery (fastInfo upperCaseQuery))).map (deliveredTo · 1) =
        some [patch (replyWith 0 []) 13 [65]] := by
  have hvalid : ∀ query ∈ [upperCaseQuery, queryWith 0 []],
      validateUpstreamResponse (replyWith 0 []) 0x1234 (slice query 12 19) = .ok () := by decide +kernel
  have hsafe := question_overlays_safe cacheKey
  refine ⟨hsafe.1 upperCaseQuery (fastInfo upperCaseQuery) _ (by decide +kernel)
    (.validated (hvalid _ (by simp))), ?_⟩
  obtain ⟨s, hrun, hs⟩ := (Option.any_eq_true _ _).mp
    (show (run (stepBy cacheKey) (start (DnsCache.new 8 0 0)) storeReply).any (fun s =>
      (s.stepBy cacheKey (.lookup 1 0 0 upperCaseQuery (fastInfo upperCaseQuery))).map (deliveredTo · 1) ==
        some [patch (replyWith 0 []) 13 [65]]) = true by decide +kernel)
  refine ⟨s, hrun, hsafe.2.2 _ storeReply _ s (.new 8 0 0) ?_ hrun, beq_iff_eq.mp hs⟩
  refine ⟨trivial, fun s1 hs1 => ⟨?_, fun _ _ => ⟨trivial, fun _ _ => trivial⟩⟩⟩
  intro q hq
  rw [stepBy] at hs1
  obtain ⟨flights, -, rfl⟩ := Option.map_eq_some_iff.mp hs1
  obtain rfl : q = clientQuery 0 := by simpa [start] using mem_of_leading hq
  exact .validated (hvalid (queryWith 0 []) (by simp))

end ServeSystem

end PathDns
