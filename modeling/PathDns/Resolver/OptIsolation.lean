import PathDns.Dns.OptData
import PathDns.Resolver.Leader
import PathDns.Resolver.Singleflight

/-!
# Option data between clients

Clients are served from the cache, by an exchange of their own, or as followers of another query. The
response of an exchange reaches other clients through its cached copy and through its publication. Two
runs that differ in the option data of one exchange's response only deliver the same bytes to every
other client, as long as that response has no option data the cached copy keeps, where it is cached,
and none at all, where a follower waits for it.
-/

namespace PathDns

open Bytes Runs

/-- A query of a client that missed the cache. -/
structure ServedQuery where
  client : Nat
  ctx : QueryContext
  target : RouteTarget

/-- The cache and the singleflight table with the queries in flight, by their numbers, and what was
delivered to which client. -/
structure ServeSystem where
  cache : DnsCache
  flights : FlightSystem
  served : List ServedQuery
  delivered : List (Nat × Packet)

/-- What a cache write of the leader needs besides the response. -/
structure CacheWrite where
  now : Nat
  policy : ResolvedCachePolicy
  ruleId : UInt16

inductive ServeEvent where
  | lookup (client now now' : Nat) (query : Packet) (fast : FastQueryInfo)
  | miss (query : ServedQuery) (generation : UInt64)
  /-- the exchange of a leader ends with a response -/
  | respond (leader : Nat) (resp : Packet) (write : Option CacheWrite)
  /-- its filters drop the query -/
  | drop (leader : Nat)
  | fail (leader : Nat)
  | cancel (leader : Nat)
  | notify (leader : Nat)
  | setPublished (leader : Nat)
  | finish (leader : Nat)
  | receive (follower : Nat)
  /-- the wait of a follower ends, with a reply unless its task was cancelled -/
  | giveUp (follower : Nat) (cancelled : Bool)
  | evict (key : CacheKey)
  | clear

/-- `dns::servfail_reply(..).unwrap_or_default()`. -/
def servfailOr (ctx : QueryContext) : Packet :=
  match servfailReply ctx.packet ctx.fast.questionEnd with
  | .ok bytes => bytes
  | .error _ => []

/-- The question of a query. -/
def QueryContext.question (ctx : QueryContext) : List UInt8 := slice ctx.packet 12 ctx.fast.questionEnd

/-- What a follower makes of the response of its leader. -/
def followerReply (ctx : QueryContext) (resp : Packet) : Packet :=
  if questionEnd resp ≠ some ctx.fast.questionEnd ∨ resp.length < ctx.fast.questionEnd ∨
      (slice resp 12 ctx.fast.questionEnd).map toAsciiLowercase ≠
        ctx.question.map toAsciiLowercase then
    servfailOr ctx
  else patch (setId resp ctx.fast.id) 12 ctx.question

/-- What a follower sends its client for an outcome. -/
def outcomeReply (ctx : QueryContext) : FlightOutcome → Option Packet
  | .response resp => some (followerReply ctx resp)
  | .drop => none
  | .unpublished => some (servfailOr ctx)

namespace ServeSystem

def start (cache : DnsCache) : ServeSystem := ⟨cache, .start, [], []⟩

/-- The query with this number, if it is a live leader. -/
def leading (s : ServeSystem) (i : Nat) : Option ServedQuery :=
  match s.flights.queries[i]? with
  | some q => if q.phase = .leading then s.served[i]? else none
  | none => none

/-- `state.cache.add` of the leader. -/
def store (s : ServeSystem) (q : ServedQuery) (resp : Packet) : Option CacheWrite → DnsCache
  | some w => s.cache.add w.now (leaderInsert q.ctx q.target resp) w.policy w.ruleId
  | none => s.cache

/-- The system after a step of the table and a delivery. -/
def deliver (s : ServeSystem) (client : Nat) (reply : Option Packet) (flights : FlightSystem) :
    ServeSystem :=
  { s with
    flights := flights,
    delivered := s.delivered ++ (reply.map (client, ·)).toList }

/-- The reply of `exchange_with_dedupe` to its leader's client; a response that is too short to hold the
question panics, and the guard is dropped. -/
def respondStep (s : ServeSystem) (i : Nat) (q : ServedQuery) (resp : Packet)
    (write : Option CacheWrite) : Option ServeSystem :=
  let s := { s with cache := s.store q resp write }
  if q.ctx.fast.questionEnd ≤ resp.length then
    let bytes := patch resp 12 q.ctx.question
    (s.flights.step (.publishBytes i bytes)).map (s.deliver q.client (some bytes))
  else (s.flights.step (.dropLeader i)).map (s.deliver q.client none)

def failStep (s : ServeSystem) (i : Nat) (q : ServedQuery) : Option ServeSystem :=
  match servfailReply q.ctx.packet q.ctx.fast.questionEnd with
  | .ok bytes => (s.flights.step (.publishBytes i bytes)).map (s.deliver q.client (some bytes))
  | .error _ => (s.flights.step (.dropLeader i)).map (s.deliver q.client none)

def receiveStep (s : ServeSystem) (j : Nat) (q : ServedQuery) : Option ServeSystem :=
  match (s.flights.queries[j]?).map FlightQuery.phase with
  | some (.waiting _ (some outcome)) =>
    (s.flights.step (.receive j)).map (s.deliver q.client (outcomeReply q.ctx outcome))
  | _ => none

/-- A step of the table alone. -/
def flightStep (s : ServeSystem) (e : FlightEvent) : Option ServeSystem :=
  (s.flights.step e).map fun flights => { s with flights := flights }

def step (s : ServeSystem) : ServeEvent → Option ServeSystem
  | .lookup client now now' query fast =>
    match s.cache.getIntoWithEcsFallback now now' query fast false with
    | .ok (hit, _, cache) =>
      some ({ s with cache := cache }.deliver client (hit.map CacheHit.out) s.flights)
    | .error _ => some s
  | .miss q generation =>
    (s.flights.step (.register (singleflightKey (leaderKey q.ctx q.target) generation))).map
      fun flights => { s with flights := flights, served := s.served ++ [q] }
  | .respond i resp write => (s.leading i).bind fun q => s.respondStep i q resp write
  | .drop i => (s.leading i).bind fun _ => s.flightStep (.publishDrop i)
  | .fail i => (s.leading i).bind fun q => s.failStep i q
  | .cancel i => (s.leading i).bind fun _ => s.flightStep (.dropLeader i)
  | .notify i => s.flightStep (.notify i)
  | .setPublished i => s.flightStep (.setPublished i)
  | .finish i => s.flightStep (.dropLeader i)
  | .receive j => (s.served[j]?).bind fun q => s.receiveStep j q
  | .giveUp j cancelled => (s.served[j]?).bind fun q =>
    (s.flights.step (.giveUp j)).map
      (s.deliver q.client (if cancelled then none else some (servfailOr q.ctx)))
  | .evict key => some { s with cache := s.cache.remove key }
  | .clear => some { s with cache := s.cache.invalidateAll }

/-- What a client got, in order. -/
def deliveredTo (s : ServeSystem) (client : Nat) : List Packet :=
  (s.delivered.filter (·.1 == client)).map (·.2)

end ServeSystem

/-! ### Tables that differ in what one leader has said -/

/-- Two phases of a leader that had no follower when it published, with different responses. -/
inductive Spoken : FlightPhase → FlightPhase → Prop
  | settling (a b) : Spoken (.settling (.response a) []) (.settling (.response b) [])
  | published (a b) : Spoken (.published (.response a)) (.published (.response b))
  | ended (a b) : Spoken (.ended (.response a)) (.ended (.response b))

/-- The same phase, or two of a leader that spoke to no one. -/
def AlikeAt (i k : Nat) (p p' : FlightPhase) : Prop := p' = p ∨ (k = i ∧ Spoken p p')

theorem AlikeAt.eq_of_silent {i k : Nat} {p p' q : FlightPhase} (h : AlikeAt i k p p') (hp : p = q)
    (hq : q.outcome? = none) : p' = q := by
  subst hp
  rcases h with rfl | ⟨-, hspoken⟩
  · rfl
  · cases hspoken <;> cases hq

/-- Two tables with queries that differ at most in what leader `i` has said to no one. -/
structure Alike (i : Nat) (f f' : FlightSystem) : Prop where
  table : f'.table = f.table
  length : f'.queries.length = f.queries.length
  queries : ∀ (k : Nat) (q : FlightQuery), f.queries[k]? = some q →
    ∃ p', f'.queries[k]? = some { q with phase := p' } ∧ AlikeAt i k q.phase p'

namespace Alike

variable {i j k : Nat} {f f' g : FlightSystem} {q : FlightQuery} {p p' : FlightPhase}

theorem refl (i : Nat) (f : FlightSystem) : Alike i f f :=
  ⟨rfl, rfl, fun _ q hq => ⟨q.phase, hq, .inl rfl⟩⟩

theorem getElem?_none (h : Alike i f f') (hk : f.queries[k]? = none) : f'.queries[k]? = none := by
  rw [List.getElem?_eq_none_iff] at hk ⊢
  rw [h.length]
  exact hk

theorem setPhase (h : Alike i f f') (hq : f.queries[k]? = some q) {r : FlightPhase}
    (hr : f'.queries[k]? = some { q with phase := r }) (hp : AlikeAt i k p p')
    {table table' : Singleflight.InflightTable} (ht : table' = table) :
    Alike i ({ f with table := table }.setPhase k q p)
      ({ f' with table := table' }.setPhase k { q with phase := r } p') := by
  refine ⟨ht, by simp [FlightSystem.setPhase, h.length], ?_⟩
  intro n x hx
  rcases Slots.of_getElem?_set hx with ⟨rfl, rfl⟩ | ⟨hne, hx⟩
  · exact ⟨p', Slots.getElem?_set_self hr, hp⟩
  · obtain ⟨p'', hp'', halike⟩ := h.queries n x hx
    refine ⟨p'', ?_, halike⟩
    rw [FlightSystem.setPhase, List.getElem?_set_ne (fun heq => hne heq.symm)]
    exact hp''

theorem push (h : Alike i f f') (table : Singleflight.InflightTable) (q : FlightQuery) :
    Alike i ⟨table, f.queries ++ [q]⟩ ⟨table, f'.queries ++ [q]⟩ := by
  refine ⟨rfl, by simp [h.length], ?_⟩
  intro n x hx
  rcases Slots.of_getElem?_push hx with ⟨rfl, rfl⟩ | hx
  · exact ⟨x.phase, by simp [← h.length], .inl rfl⟩
  · obtain ⟨p'', hp'', halike⟩ := h.queries n x hx
    exact ⟨p'', Slots.getElem?_push_of_some hp'', halike⟩

theorem tell (h : Alike i f f') (outcome : FlightOutcome) : Alike i (f.tell j outcome) (f'.tell j outcome) := by
  cases hj : f.queries[j]? with
  | none =>
    rw [FlightSystem.tell, FlightSystem.tell, hj, h.getElem?_none hj]
    exact h
  | some x =>
    obtain ⟨r, hr, halike⟩ := h.queries j x hj
    rw [FlightSystem.tell, FlightSystem.tell, hj, hr]
    rcases halike with rfl | ⟨-, hspoken⟩
    · simp only
      split
      · exact h.setPhase hj hr (.inl rfl) h.table
      · exact h
    · -- a leader that has spoken is told nothing
      obtain ⟨key, phase⟩ := x
      cases hspoken <;> exact h

theorem register (h : Alike i f f') (key : CacheKey) : Alike i (f.registerStep key) (f'.registerStep key) := by
  rw [FlightSystem.registerStep, FlightSystem.registerStep, h.table, h.length]
  exact h.push _ _

variable {e : FlightEvent}

theorem queryStep_same (h : Alike i f f') (hq : f.queries[k]? = some q) (hq' : f'.queries[k]? = some q)
    (hstep : f.queryStep k q e = some g) : ∃ g', f'.queryStep k q e = some g' ∧ Alike i g g' := by
  have hset : ∀ (p : FlightPhase) {table table' : Singleflight.InflightTable}, table' = table →
      Alike i ({ f with table := table }.setPhase k q p) ({ f' with table := table' }.setPhase k q p) :=
    fun p _ _ ht => h.setPhase hq hq' (.inl rfl) ht
  revert hstep
  fun_cases FlightSystem.queryStep f k q e <;> rintro ⟨⟩
  all_goals simp only [FlightSystem.queryStep, *]
  case case1 | case3 | case11 | case12 =>
    rw [h.table]
    exact ⟨_, rfl, hset _ rfl⟩
  case case5 => exact ⟨_, rfl, (hset _ h.table).tell _⟩
  all_goals exact ⟨_, rfl, hset _ h.table⟩

theorem queryStep_spoken (h : Alike i f f') {key : CacheKey} {p r : FlightPhase}
    (hq : f.queries[i]? = some ⟨key, p⟩) (hr : f'.queries[i]? = some ⟨key, r⟩) (hspoken : Spoken p r)
    (hstep : f.queryStep i ⟨key, p⟩ e = some g) : ∃ g', f'.queryStep i ⟨key, r⟩ e = some g' ∧ Alike i g g' := by
  have hset : ∀ {p₁ p₂ : FlightPhase}, Spoken p₁ p₂ →
      Alike i (f.setPhase i ⟨key, p⟩ p₁) (f'.setPhase i ⟨key, r⟩ p₂) :=
    fun hp => h.setPhase hq hr (.inr ⟨rfl, hp⟩) h.table
  -- it can only set its flag or be dropped
  cases hspoken with
  | settling a b =>
    cases e with
    | setPublished n => exact ⟨_, rfl, Option.some.inj hstep ▸ hset (.published a b)⟩
    | _ => simp [FlightSystem.queryStep] at hstep
  | published a b =>
    cases e with
    | dropLeader n => exact ⟨_, rfl, Option.some.inj hstep ▸ hset (.ended a b)⟩
    | _ => simp [FlightSystem.queryStep] at hstep
  | ended a b => cases e <;> simp [FlightSystem.queryStep] at hstep

/-- Every step of one table is a step of the other. -/
theorem step (h : Alike i f f') (hstep : f.step e = some g) : ∃ g', f'.step e = some g' ∧ Alike i g g' := by
  unfold FlightSystem.step at hstep ⊢
  split at hstep
  · exact ⟨_, rfl, Option.some.inj hstep ▸ h.register _⟩
  · obtain ⟨k, hk, hstep⟩ := Option.bind_eq_some_iff.mp hstep
    obtain ⟨q, hq, hstep⟩ := Option.bind_eq_some_iff.mp hstep
    obtain ⟨r, hr, halike⟩ := h.queries k q hq
    rw [hk, Option.bind_some, hr]
    rcases halike with rfl | ⟨rfl, hspoken⟩
    · exact h.queryStep_same hq hr hstep
    · exact h.queryStep_spoken hq hr hspoken hstep

theorem publishBytes (h : Alike i f f') {a b : Packet} (hq : f.queries[i]? = some q)
    (halone : (Singleflight.takeWaiters f.table q.key).2 = [])
    (hstep : f.step (.publishBytes i a) = some g) :
    ∃ g', f'.step (.publishBytes i b) = some g' ∧ Alike i g g' := by
  obtain ⟨r, hr, halike⟩ := h.queries i q hq
  have hstep' : f.queryStep i q (.publishBytes i a) = some g := by
    simpa [FlightSystem.step, FlightEvent.actor, hq] using hstep
  rw [FlightSystem.queryStep] at hstep'
  split at hstep'
  · next hphase =>
    obtain rfl := Option.some.inj hstep'
    obtain rfl : r = .leading := halike.eq_of_silent hphase rfl
    refine ⟨f'.settle i ⟨q.key, .leading⟩ (.response b) (Singleflight.takeWaiters f'.table q.key), ?_, ?_⟩
    · simp [FlightSystem.step, FlightEvent.actor, hr, FlightSystem.queryStep]
    · rw [FlightSystem.settle, FlightSystem.settle, h.table, halone]
      exact h.setPhase hq hr (.inr ⟨rfl, .settling a b⟩) rfl
  · simp at hstep'

end Alike

/-! ### Systems another client cannot tell apart -/

namespace ServeSystem

variable {i k : Nat} {s s' t : ServeSystem}

/-- The followers that wait for a leader. -/
def followers (s : ServeSystem) (i : Nat) : List Nat :=
  match s.flights.queries[i]? with
  | some q => (Singleflight.takeWaiters s.flights.table q.key).2
  | none => []

/-- The response of exchange `i` holds the question; it has option data in the first OPT record of its
additional section only, if it is cached, and none, if a follower waits for it. -/
def Contained (i : Nat) (s : ServeSystem) : ServeEvent → Prop
  | .respond k resp write => k = i →
      (∀ q, s.served[i]? = some q → q.ctx.fast.questionEnd ≤ resp.length) ∧
      (write.isSome → OneOptData resp) ∧ (s.followers i ≠ [] → NoOptData resp)
  | _ => True

/-- The same event, up to the option data in the response of exchange `i`. -/
inductive SameButOptData (i : Nat) : ServeEvent → ServeEvent → Prop
  | same (e) : SameButOptData i e e
  | respond {resp resp' : Packet} (write) (h : clearOptRdata resp = clearOptRdata resp') :
    SameButOptData i (.respond i resp write) (.respond i resp' write)

/-- Only the client of exchange `i` may have got something else. -/
structure Indistinct (i : Nat) (s s' : ServeSystem) : Prop where
  cache : s'.cache = s.cache
  served : s'.served = s.served
  flights : Alike i s.flights s'.flights
  delivered : ∀ client, (∀ q, s.served[i]? = some q → q.client ≠ client) →
    s'.deliveredTo client = s.deliveredTo client

theorem deliveredTo_deliver (s : ServeSystem) (c client : Nat) (reply : Option Packet)
    (flights : FlightSystem) : (s.deliver c reply flights).deliveredTo client =
      s.deliveredTo client ++ if c = client then reply.toList else [] := by
  cases reply <;> by_cases hc : c = client <;> simp [deliver, deliveredTo, hc]

namespace Indistinct

theorem refl (i : Nat) (s : ServeSystem) : Indistinct i s s :=
  ⟨rfl, rfl, .refl i s.flights, fun _ _ => rfl⟩

theorem withCache (h : Indistinct i s s') (cache : DnsCache) :
    Indistinct i { s with cache := cache } { s' with cache := cache } :=
  { h with cache := rfl }

theorem withFlights (h : Indistinct i s s') {g g' : FlightSystem} (hg : Alike i g g') :
    Indistinct i { s with flights := g } { s' with flights := g' } :=
  { h with flights := hg }

theorem deliver (h : Indistinct i s s') {g g' : FlightSystem} (hg : Alike i g g') {c : Nat}
    {reply reply' : Option Packet}
    (hreply : reply' = reply ∨ ∃ q, s.served[i]? = some q ∧ q.client = c) :
    Indistinct i (s.deliver c reply g) (s'.deliver c reply' g') := by
  refine ⟨h.cache, h.served, hg, ?_⟩
  intro client hclient
  rw [deliveredTo_deliver, deliveredTo_deliver, h.delivered client hclient]
  rcases hreply with rfl | ⟨q, hq, rfl⟩
  · rfl
  · rw [if_neg (hclient q hq), if_neg (hclient q hq)]

variable {q : ServedQuery}

theorem leading (h : Indistinct i s s') (hq : s.leading k = some q) :
    s'.leading k = some q ∧ s.served[k]? = some q := by
  rw [ServeSystem.leading] at hq ⊢
  split at hq
  · next x hx =>
    split_ifs at hq with hphase
    obtain ⟨r, hr, halike⟩ := h.flights.queries k x hx
    obtain rfl : r = .leading := halike.eq_of_silent hphase rfl
    rw [hr, h.served]
    exact ⟨by simp [hq], hq⟩
  · simp at hq

theorem stepDeliver (h : Indistinct i s s') {e : FlightEvent} {c : Nat} {reply : Option Packet}
    (hstep : (s.flights.step e).map (s.deliver c reply) = some t) :
    ∃ t', (s'.flights.step e).map (s'.deliver c reply) = some t' ∧ Indistinct i t t' := by
  obtain ⟨g, hg, rfl⟩ := Option.map_eq_some_iff.mp hstep
  obtain ⟨g', hg', halike⟩ := h.flights.step hg
  exact ⟨_, by rw [hg']; rfl, h.deliver halike (.inl rfl)⟩

theorem flightStep (h : Indistinct i s s') {e : FlightEvent} (hstep : s.flightStep e = some t) :
    ∃ t', s'.flightStep e = some t' ∧ Indistinct i t t' := by
  obtain ⟨g, hg, rfl⟩ := Option.map_eq_some_iff.mp hstep
  obtain ⟨g', hg', halike⟩ := h.flights.step hg
  exact ⟨_, by rw [ServeSystem.flightStep, hg']; rfl, h.withFlights halike⟩

variable {resp : Packet} {write : Option CacheWrite}

/-- What is cached of two responses that differ in option data which the cached copy loses. -/
theorem store_eq (h : Indistinct i s s') (q : ServedQuery) {resp' : Packet}
    (hclear : clearOptRdata resp = clearOptRdata resp') (hone : write.isSome → OneOptData resp)
    (hone' : write.isSome → OneOptData resp') : s'.store q resp' write = s.store q resp write := by
  cases write with
  | none => exact h.cache
  | some w =>
    have hsame : (stripOptRdata resp').getD resp' = (stripOptRdata resp).getD resp := by
      calc sanitized resp' = clearOptRdata resp' := sanitized_eq_clear (hone' rfl)
        _ = clearOptRdata resp := hclear.symm
        _ = sanitized resp := (sanitized_eq_clear (hone rfl)).symm
    rw [store, store, h.cache, leaderInsert, leaderInsert, hsame]

theorem respondStep_same (h : Indistinct i s s') (hstep : s.respondStep k q resp write = some t) :
    ∃ t', s'.respondStep k q resp write = some t' ∧ Indistinct i t t' := by
  have hstore : s'.store q resp write = s.store q resp write := by
    cases write <;> simp [store, h.cache]
  rw [ServeSystem.respondStep] at hstep ⊢
  rw [hstore]
  dsimp only at hstep ⊢
  split_ifs at hstep ⊢ with hlen
  · exact (h.withCache _).stepDeliver hstep
  · exact (h.withCache _).stepDeliver hstep

theorem followers_eq (h : Indistinct i s s') (k : Nat) : s'.followers k = s.followers k := by
  rw [followers, followers]
  cases hk : s.flights.queries[k]? with
  | none => rw [h.flights.getElem?_none hk]
  | some q =>
    obtain ⟨r, hr, -⟩ := h.flights.queries k q hk
    rw [hr, h.flights.table]

theorem respondStep (h : Indistinct i s s') (hq : s.served[i]? = some q) {resp' : Packet}
    (hclear : clearOptRdata resp = clearOptRdata resp') (hc : Contained i s (.respond i resp write))
    (hc' : Contained i s' (.respond i resp' write)) (hstep : s.respondStep i q resp write = some t) :
    ∃ t', s'.respondStep i q resp' write = some t' ∧ Indistinct i t t' := by
  obtain ⟨hlen, hone, hnone⟩ := hc rfl
  obtain ⟨hlen', hone', hnone'⟩ := hc' rfl
  rw [h.followers_eq] at hnone'
  by_cases halone : s.followers i = []
  · rw [ServeSystem.respondStep] at hstep ⊢
    dsimp only at hstep ⊢
    rw [if_pos (hlen q hq)] at hstep
    rw [if_pos (hlen' q (h.served ▸ hq)), h.store_eq q hclear hone hone']
    obtain ⟨g, hg, rfl⟩ := Option.map_eq_some_iff.mp hstep
    -- the leader is in the table of queries, or it could not publish
    obtain ⟨x, hx, -⟩ := Option.bind_eq_some_iff.mp (show (s.flights.queries[i]?).bind _ = some g from hg)
    rw [followers, hx] at halone
    obtain ⟨g', hg', halike⟩ := h.flights.publishBytes hx halone hg
    exact ⟨_, by rw [hg']; rfl, (h.withCache _).deliver halike (.inr ⟨q, hq, rfl⟩)⟩
  · -- a follower waits: there is no option data to differ in
    obtain rfl : resp = resp' := by
      rw [← clearOptRdata_of_noOptData (hnone halone), hclear,
        clearOptRdata_of_noOptData (hnone' halone)]
    exact h.respondStep_same hstep

variable {f f' : ServedQuery → Option ServeSystem}

theorem bindLeading (h : Indistinct i s s')
    (hf : ∀ q, s.served[k]? = some q → f q = some t → ∃ t', f' q = some t' ∧ Indistinct i t t')
    (hstep : (s.leading k).bind f = some t) : ∃ t', (s'.leading k).bind f' = some t' ∧ Indistinct i t t' := by
  obtain ⟨q, hq, hstep⟩ := Option.bind_eq_some_iff.mp hstep
  obtain ⟨hq', hserved⟩ := h.leading hq
  obtain ⟨t', ht', hrel⟩ := hf q hserved hstep
  exact ⟨t', by rw [hq']; exact ht', hrel⟩

theorem bindServed (h : Indistinct i s s') (hf : ∀ q, f q = some t → ∃ t', f' q = some t' ∧ Indistinct i t t')
    (hstep : (s.served[k]?).bind f = some t) : ∃ t', (s'.served[k]?).bind f' = some t' ∧ Indistinct i t t' := by
  obtain ⟨q, hq, hstep⟩ := Option.bind_eq_some_iff.mp hstep
  obtain ⟨t', ht', hrel⟩ := hf q hstep
  exact ⟨t', by rw [h.served, hq]; exact ht', hrel⟩

theorem missStep (h : Indistinct i s s') {generation : UInt64} (hstep : s.step (.miss q generation) = some t) :
    ∃ t', s'.step (.miss q generation) = some t' ∧ Indistinct i t t' := by
  rw [ServeSystem.step] at hstep ⊢
  obtain ⟨g, hg, rfl⟩ := Option.map_eq_some_iff.mp hstep
  obtain ⟨g', hg', halike⟩ := h.flights.step hg
  refine ⟨{ s' with flights := g', served := s'.served ++ [q] }, by rw [hg']; rfl, h.cache,
    by simp [h.served], halike, ?_⟩
  intro client hclient
  -- the query with number `i` keeps its place
  exact h.delivered client fun q hq => hclient q (Slots.getElem?_push_of_some hq)

theorem receiveStep (h : Indistinct i s s') (hstep : s.receiveStep k q = some t) :
    ∃ t', s'.receiveStep k q = some t' ∧ Indistinct i t t' := by
  rw [ServeSystem.receiveStep] at hstep ⊢
  split at hstep
  · next l outcome hphase =>
    obtain ⟨x, hx, hxphase⟩ := Option.map_eq_some_iff.mp hphase
    obtain ⟨r, hr, halike⟩ := h.flights.queries k x hx
    obtain rfl : r = .waiting l (some outcome) := halike.eq_of_silent hxphase rfl
    rw [hr]
    exact h.stepDeliver hstep
  · simp at hstep

/-- What one step keeps. -/
theorem step (h : Indistinct i s s') {e e' : ServeEvent} (he : SameButOptData i e e') (hc : Contained i s e)
    (hc' : Contained i s' e') (hstep : s.step e = some t) : ∃ t', s'.step e' = some t' ∧ Indistinct i t t' := by
  cases he with
  | respond write hclear =>
    exact h.bindLeading (fun q hq => h.respondStep hq hclear hc hc') hstep
  | same =>
    cases e with
    | lookup client now now' query fast =>
      rw [ServeSystem.step] at hstep ⊢
      rw [h.cache]
      split at hstep <;> cases hstep
      · exact ⟨_, rfl, (h.withCache _).deliver h.flights (.inl rfl)⟩
      · exact ⟨_, rfl, h⟩
    | miss q generation => exact h.missStep hstep
    | respond k resp write => exact h.bindLeading (fun q _ => h.respondStep_same) hstep
    | drop k | cancel k => exact h.bindLeading (fun _ _ => h.flightStep) hstep
    | fail k =>
      apply h.bindLeading _ hstep
      intro q _ hstep
      rw [failStep] at hstep ⊢
      split at hstep
      · exact h.stepDeliver hstep
      · exact h.stepDeliver hstep
    | notify k | setPublished k | finish k => exact h.flightStep hstep
    | receive k => exact h.bindServed (fun q => h.receiveStep) hstep
    | giveUp k cancelled => exact h.bindServed (fun q => h.stepDeliver) hstep
    | evict _ | clear =>
      obtain rfl := Option.some.inj hstep
      exact ⟨_, rfl, by rw [h.cache]; exact h.withCache _⟩

end Indistinct

/-- Other option data in the response of one exchange changes no byte that another client gets, in
every run where that response is contained. -/
theorem run_opt_isolation (cache : DnsCache) (i : Nat) {es es' : List ServeEvent}
    (hvary : List.Forall₂ (SameButOptData i) es es')
    (hmeets : Meets step (Contained i) (start cache) es)
    (hmeets' : Meets step (Contained i) (start cache) es') {s : ServeSystem}
    (hrun : run step (start cache) es = some s) :
    ∃ s', run step (start cache) es' = some s' ∧
      ∀ client, (∀ q, s.served[i]? = some q → q.client ≠ client) →
        s'.deliveredTo client = s.deliveredTo client := by
  have hkeep : ∀ (s s' : ServeSystem) (e e' : ServeEvent) (t : ServeSystem), Indistinct i s s' →
      SameButOptData i e e' → Contained i s e → Contained i s' e' → step s e = some t →
      ∃ t', step s' e' = some t' ∧ Indistinct i t t' :=
    fun _ _ _ _ _ h he hc hc' hstep => h.step he hc hc' hstep
  obtain ⟨s', hrun', hrel⟩ := run_related hkeep (.refl i _) hvary hmeets hmeets' hrun
  exact ⟨s', hrun', hrel.delivered⟩

/-- Two queries of two clients for the A record of `a`. -/
def clientQuery (client : Nat) : ServedQuery :=
  ⟨client, contextOf (queryWith 0 []) (by decide +kernel),
    .server ⟨['u'], 0, .upstream [⟨.udp, .v4 0 53, none, none, false, none, none⟩], _, rfl⟩ 0⟩

/-- A server cookie. -/
def cookieOption (b : UInt8) : List UInt8 := [0, 10, 0, 16] ++ List.replicate 16 b

/-- A response with the given additional records. -/
def replyWith (arcount : UInt8) (additional : List UInt8) : Packet :=
  [0x12, 0x34, 0x81, 0x80, 0, 1, 0, 1, 0, 0, 0, arcount, 1, 97, 0, 0, 1, 0, 1,
    0xc0, 0x0c, 0, 1, 0, 1, 0, 0, 0, 60, 0, 4, 192, 0, 2, 1] ++ additional

/-- Client 0 leads, client 1 follows. -/
def followedRun (resp : Packet) : List ServeEvent :=
  [.miss (clientQuery 0) 0, .miss (clientQuery 1) 0, .respond 0 resp none, .notify 0, .receive 1]

/-- Client 0 leads alone, its response is cached and client 1 is served from the cache. -/
def cachedRun (resp : Packet) : List ServeEvent :=
  [.miss (clientQuery 0) 0, .respond 0 resp (some ⟨0, ⟨false, 0, 0, 3600⟩, 0⟩), .setPublished 0, .finish 0,
    .lookup 1 0 0 (queryWith 0 []) (fastInfo (queryWith 0 []))]

instance (i : Nat) (s : ServeSystem) (e : ServeEvent) : Decidable (Contained i s e) := by
  cases e with
  | respond k resp write =>
    have hlen : Decidable (∀ q, s.served[i]? = some q → q.ctx.fast.questionEnd ≤ resp.length) :=
      match s.served[i]? with
      | none => .isTrue (by simp)
      | some q => decidable_of_iff (q.ctx.fast.questionEnd ≤ resp.length) (by simp)
    exact inferInstanceAs (Decidable (k = i → _ ∧ _ ∧ _))
  | _ => exact .isTrue trivial

/-- A cookie in the response to client 0, where it is cached and no one follows. -/
theorem run_opt_isolation_cachedRun :
    ∃ s s', run step (start (DnsCache.new 8 0 0))
        (cachedRun (replyWith 1 (optRecord (cookieOption 7)))) = some s ∧
      run step (start (DnsCache.new 8 0 0)) (cachedRun (replyWith 1 (optRecord (cookieOption 9)))) =
        some s' ∧
      s.deliveredTo 1 = [replyWith 1 (optRecord [])] ∧ s'.deliveredTo 1 = s.deliveredTo 1 := by
  obtain ⟨s, hrun, hs⟩ := (Option.any_eq_true _ _).mp (show (run step (start (DnsCache.new 8 0 0))
    (cachedRun (replyWith 1 (optRecord (cookieOption 7))))).any (fun s =>
      s.deliveredTo 1 == [replyWith 1 (optRecord [])] && (s.served.map ServedQuery.client == [0])) = true by
        decide +kernel)
  rw [Bool.and_eq_true, beq_iff_eq, beq_iff_eq] at hs
  have hmeets : ∀ b : UInt8, b = 7 ∨ b = 9 → Meets step (Contained 0) (start (DnsCache.new 8 0 0))
      (cachedRun (replyWith 1 (optRecord (cookieOption b)))) := by
    intro b hb
    apply (meets_of_computed (C := fun s e => decide (Contained 0 s e)) _).mono
      (fun _ _ => of_decide_eq_true)
    rcases hb with rfl | rfl <;> decide +kernel
  have hvary : List.Forall₂ (SameButOptData 0) (cachedRun (replyWith 1 (optRecord (cookieOption 7))))
      (cachedRun (replyWith 1 (optRecord (cookieOption 9)))) :=
    .cons (.same _) (.cons (.respond _ (by decide +kernel)) (.cons (.same _) (.cons (.same _)
      (.cons (.same _) .nil))))
  obtain ⟨s', hrun', hsame⟩ := run_opt_isolation (DnsCache.new 8 0 0) 0 hvary (hmeets 7 (.inl rfl))
    (hmeets 9 (.inr rfl)) hrun
  refine ⟨s, s', hrun, hrun', hs.1, hsame 1 ?_⟩
  intro q hq hclient
  have hzero : (s.served.map ServedQuery.client)[0]? = some q.client := by
    rw [List.getElem?_map, hq]
    rfl
  rw [hs.2, hclient] at hzero
  simp at hzero

/-- A follower gets the cookie of its leader, and a lookup the cookie of a second OPT record. -/
theorem cookie_crosses_clients :
    clearOptRdata (replyWith 1 (optRecord (cookieOption 7))) =
      clearOptRdata (replyWith 1 (optRecord (cookieOption 9))) ∧
    (∀ b ∈ [7, 9], (run step (start (DnsCache.new 8 0 0))
      (followedRun (replyWith 1 (optRecord (cookieOption b))))).map (deliveredTo · 1) =
        some [replyWith 1 (optRecord (cookieOption b))]) ∧
    clearOptRdata (replyWith 2 (optRecord [] ++ optRecord (cookieOption 7))) =
      clearOptRdata (replyWith 2 (optRecord [] ++ optRecord (cookieOption 9))) ∧
    ∀ b ∈ [7, 9], (run step (start (DnsCache.new 8 0 0))
      (cachedRun (replyWith 2 (optRecord [] ++ optRecord (cookieOption b))))).map (deliveredTo · 1) =
        some [replyWith 2 (optRecord [] ++ optRecord (cookieOption b))] := by
  decide +kernel

end ServeSystem

end PathDns
