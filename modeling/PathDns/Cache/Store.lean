import PathDns.Cache.Key
import PathDns.Dns.Ttl
import PathDns.Lib.FinMap
import PathDns.Lib.Utf8

/-!
# The response cache (`cache.rs`)

`DnsCache` with `add`, the keyed lookup and the two-step probe with the ECS-stripped fallback. The map
behind it is bounded and evicts as it likes: a run is any list of inserts, evictions, lookups and
clears. A lookup may panic (`queries_match_v` slices the stored query), so it returns a `Checked`
result. Times are nanoseconds of the monotonic clock.

The probe is given for an arbitrary key function (`probeBy`), since what a hit has been compared with does
not depend on how keys are derived.
-/

namespace PathDns

open Bytes FinMap

structure Entry where
  packet : Packet
  query : Packet
  qname : Utf8.Text
  questionEnd : Nat
  variant : QueryVariant
  inserted : Nat
  ttl : UInt32
  ttlOffsets : TtlOffsets
  ruleId : UInt16
deriving DecidableEq, Repr

/-- The map behind the cache. -/
abbrev EntryMap := AList (fun _ : CacheKey => Entry)

structure ResolvedCachePolicy where
  skip : Bool
  nodataTtl : UInt32
  minTtl : UInt32
  maxTtl : UInt32
deriving DecidableEq, Repr

structure CacheInsert where
  key : CacheKey
  qname : Utf8.Text
  questionEnd : Nat
  query : Packet
  variant : QueryVariant
  packet : Packet
deriving DecidableEq, Repr

/-- `DnsCache`; no map when the configured capacity is zero. -/
structure DnsCache where
  cache : Option EntryMap
  minTtl : UInt32
  maxTtl : UInt32

/-- `CacheLookupMeta` together with the bytes written into the caller's buffer. -/
structure CacheHit where
  out : Packet
  qname : Option Utf8.Text
  ruleId : UInt16
deriving DecidableEq, Repr

structure KeyedLookup where
  key : CacheKey
  query : Packet
  questionEnd : Nat
  clientId : Nat
  stripEcs : Bool
  variant : QueryVariant
  collectQname : Bool

structure CacheProbe where
  variant : QueryVariant
  regularKey : CacheKey
  strippedKey : Option CacheKey
deriving DecidableEq, Repr

/-- `Duration::as_secs` of a span of nanoseconds. -/
def asSecs (ns : Nat) : Nat := ns / 1000000000

namespace DnsCache

def new (capacity : Nat) (minTtl maxTtl : UInt32) : DnsCache where
  cache := if 0 < capacity then some ∅ else none
  minTtl := minTtl
  maxTtl := maxTtl

def resolvePolicy (c : DnsCache) (policy : Option RuleCachePolicy) : ResolvedCachePolicy where
  skip := policy.any (·.skip)
  nodataTtl := 0
  minTtl := (policy.bind (·.minTtl)).getD c.minTtl
  maxTtl := (policy.bind (·.maxTtl)).getD c.maxTtl

/-- The entry `add` stores, if it stores one. -/
def entryOf (now : Nat) (ins : CacheInsert) (policy : ResolvedCachePolicy) (ruleId : UInt16) :
    Option Entry :=
  if isTruncated ins.packet then none
  else
    match effectiveTtlAndOffsets ins.packet ins.questionEnd policy.nodataTtl policy.minTtl
        policy.maxTtl with
    | none => none
    | some (rawTtl, ttlOffsets) => some {
        -- the stored ID is zero; a lookup writes the client's
        packet := setId ins.packet 0
        query := ins.query
        qname := ins.qname
        questionEnd := ins.questionEnd
        variant := ins.variant
        inserted := now
        ttl := rawTtl
        ttlOffsets := ttlOffsets
        ruleId := ruleId }

/-- `add` at time `now`. -/
def add (c : DnsCache) (now : Nat) (ins : CacheInsert) (policy : ResolvedCachePolicy)
    (ruleId : UInt16) : DnsCache :=
  match c.cache with
  | none => c
  | some cache =>
    match entryOf now ins policy ruleId with
    | none => c
    | some entry => { c with cache := some (cache.insert ins.key entry) }

def invalidateAll (c : DnsCache) : DnsCache := { c with cache := c.cache.map (fun _ => ∅) }

/-- The map drops the entry under `key`: an eviction, or `cache.remove`. -/
def remove (c : DnsCache) (key : CacheKey) : DnsCache :=
  { c with cache := c.cache.map (·.erase key) }

end DnsCache

/-- `queries_match_v`; slicing the stored query may panic. -/
def queriesMatchV (storedV liveV : QueryVariant) (storedQuestionEnd : Nat) (stored query : Packet)
    (questionEnd : Nat) (stripEcs : Bool) : Checked Bool :=
  if query.length < questionEnd ∨ storedQuestionEnd ≠ questionEnd ∨ query.length < 12 ∨
      stored.length < 12 then
    .ok false
  else
    match sliceIndex stored 12 questionEnd, sliceIndex query 12 questionEnd with
    | .ok a, .ok b =>
      if !questionsMatch a b then .ok false
      else if stripEcs then
        .ok (storedV.hasOpt == liveV.hasOpt && storedV.doBit == liveV.doBit &&
          storedV.ednsVersion == liveV.ednsVersion && storedV.rd == liveV.rd &&
          storedV.ad == liveV.ad && storedV.cd == liveV.cd)
      else .ok (storedV == liveV)
    | .error e, _ => .error e
    | _, .error e => .error e

/-- The bytes a hit writes: the stored packet with the client's ID and question, and every TTL field
counted down. -/
def Entry.render (e : Entry) (clientId : Nat) (question : List UInt8) (questionEnd : Nat)
    (elapsed : UInt32) : Packet :=
  let out := setId e.packet clientId
  let out := if questionEnd ≤ out.length then patch out 12 question else out
  patchTtlsAt out e.ttlOffsets elapsed

namespace DnsCache

/-- `lookup_into_keyed` at time `now`. -/
def lookupIntoKeyed (c : DnsCache) (now : Nat) (l : KeyedLookup) :
    Checked (Option CacheHit × DnsCache) :=
  match c.cache with
  | none => .ok (none, c)
  | some cache =>
    -- `lookup.query.get(12..lookup.question_end)?`
    if l.questionEnd < 12 ∨ l.query.length < l.questionEnd then .ok (none, c)
    else
      match cache.lookup l.key with
      | none => .ok (none, c)
      | some entry =>
        match queriesMatchV entry.variant l.variant entry.questionEnd entry.query l.query
            l.questionEnd l.stripEcs with
        | .error e => .error e
        | .ok false => .ok (none, c)
        | .ok true =>
          let age := asSecs (now - entry.inserted)
          if entry.ttl.toNat ≤ age then .ok (none, c.remove l.key)
          else
            .ok (some {
              out := entry.render l.clientId (slice l.query 12 l.questionEnd) l.questionEnd
                (.ofNat (min age 4294967295))
              qname := if l.collectQname then some entry.qname else none
              ruleId := entry.ruleId }, c)

/-- `get_into_with_ecs_fallback` for an arbitrary key function, with the clock readings of its two lookups. -/
def probeBy (key : KeyFunction) (c : DnsCache) (now now' : Nat) (query : Packet) (fast : FastQueryInfo)
    (collectQname : Bool) : Checked (Option CacheHit × CacheProbe × DnsCache) := do
  let v := extractVariant query fast.questionEnd
  let regularKey := key query fast v false
  let (hit, c) ← c.lookupIntoKeyed now {
    key := regularKey, query := query, questionEnd := fast.questionEnd, clientId := fast.id,
    stripEcs := false, variant := v, collectQname := collectQname }
  match hit with
  | some hit => return (some hit, ⟨v, regularKey, none⟩, c)
  | none =>
    if v.ecsSrc.isSome then
      let sk := key query fast v true
      let (hit, c) ← c.lookupIntoKeyed now' {
        key := sk, query := query, questionEnd := fast.questionEnd, clientId := fast.id,
        stripEcs := true, variant := v, collectQname := collectQname }
      return (hit, ⟨v, regularKey, some sk⟩, c)
    else return (none, ⟨v, regularKey, none⟩, c)

def getIntoWithEcsFallback (c : DnsCache) (now now' : Nat) (query : Packet) (fast : FastQueryInfo)
    (collectQname : Bool) : Checked (Option CacheHit × CacheProbe × DnsCache) :=
  c.probeBy cacheKey now now' query fast collectQname

/-! ### Lookups -/

variable {c c' : DnsCache} {now : Nat} {hit : CacheHit}

theorem lookupIntoKeyed_hit {l : KeyedLookup} (h : c.lookupIntoKeyed now l = .ok (some hit, c')) :
    ∃ m entry, c.cache = some m ∧ m.lookup l.key = some entry ∧
      queriesMatchV entry.variant l.variant entry.questionEnd entry.query l.query l.questionEnd
        l.stripEcs = .ok true ∧
      asSecs (now - entry.inserted) < entry.ttl.toNat ∧
      hit.out = entry.render l.clientId (slice l.query 12 l.questionEnd) l.questionEnd
        (.ofNat (min (asSecs (now - entry.inserted)) 4294967295)) := by
  revert h
  fun_cases lookupIntoKeyed c now l <;> rintro ⟨⟩
  next m hm _ entry hentry hmatch _ hage => exact ⟨m, entry, hm, hentry, hmatch, Nat.not_le.mp hage, rfl⟩

theorem lookupIntoKeyed_cache {l : KeyedLookup} {hit : Option CacheHit}
    (h : c.lookupIntoKeyed now l = .ok (hit, c')) : c' = c ∨ c' = c.remove l.key := by
  revert h
  fun_cases lookupIntoKeyed c now l <;> rintro ⟨⟩
  all_goals first | exact .inl rfl | exact .inr rfl

theorem lookup_of_remove {k k' : CacheKey} {m : EntryMap} {e : Entry} (hm : (c.remove k).cache = some m)
    (h : m.lookup k' = some e) : ∃ m₀, c.cache = some m₀ ∧ m₀.lookup k' = some e := by
  simp only [remove, Option.map_eq_some_iff] at hm
  obtain ⟨m₀, hm₀, rfl⟩ := hm
  refine ⟨m₀, hm₀, ?_⟩
  by_cases hk : k' = k
  · subst hk
    simp at h
  · rwa [AList.lookup_erase_ne hk] at h

/-- What a probe that hits has found: an entry under the regular key, or one under the stripped key
when the query carries ECS. -/
structure FoundBy (key : KeyFunction) (c : DnsCache) (now now' : Nat) (query : Packet)
    (fast : FastQueryInfo) (hit : CacheHit) (stripEcs : Bool) (entry : Entry) (readAt : Nat) : Prop where
  time : readAt = now ∨ readAt = now'
  carriesEcs : stripEcs = true → (extractVariant query fast.questionEnd).ecsSrc ≠ none
  stored : ∃ m, c.cache = some m ∧
    m.lookup (key query fast (extractVariant query fast.questionEnd) stripEcs) = some entry
  matched : queriesMatchV entry.variant (extractVariant query fast.questionEnd) entry.questionEnd
    entry.query query fast.questionEnd stripEcs = .ok true
  fresh : asSecs (readAt - entry.inserted) < entry.ttl.toNat
  out : hit.out = entry.render fast.id (slice query 12 fast.questionEnd) fast.questionEnd
    (.ofNat (min (asSecs (readAt - entry.inserted)) 4294967295))

variable {now' : Nat} {query : Packet} {fast : FastQueryInfo} {collectQname : Bool} {probe : CacheProbe}

/-- The lookup of a query under its regular or its stripped key. -/
def lookupFor (key : KeyFunction) (query : Packet) (fast : FastQueryInfo) (collectQname strip : Bool) :
    KeyedLookup :=
  let v := extractVariant query fast.questionEnd
  ⟨key query fast v strip, query, fast.questionEnd, fast.id, strip, v, collectQname⟩

theorem probeBy_cases {key : KeyFunction} {hit : Option CacheHit}
    (h : c.probeBy key now now' query fast collectQname = .ok (hit, probe, c')) :
    c.lookupIntoKeyed now (lookupFor key query fast collectQname false) = .ok (hit, c') ∨
    ∃ c₁, c.lookupIntoKeyed now (lookupFor key query fast collectQname false) = .ok (none, c₁) ∧
      (extractVariant query fast.questionEnd).ecsSrc ≠ none ∧
      c₁.lookupIntoKeyed now' (lookupFor key query fast collectQname true) = .ok (hit, c') := by
  simp only [probeBy, bind, Except.bind, pure, Except.pure] at h
  split at h
  · cases h
  · next res hreg =>
    obtain ⟨hit₁, c₁⟩ := res
    cases hit₁ with
    | some hit₁ =>
      cases h
      exact .inl hreg
    | none =>
      simp only at h
      split_ifs at h with hecs
      · split at h
        · cases h
        · next res₂ hstrip =>
          cases h
          exact .inr ⟨c₁, hreg, Option.isSome_iff_ne_none.mp hecs, hstrip⟩
      · cases h
        exact .inl hreg

theorem probeBy_hit {key : KeyFunction}
    (h : c.probeBy key now now' query fast collectQname = .ok (some hit, probe, c')) :
    ∃ stripEcs entry readAt, FoundBy key c now now' query fast hit stripEcs entry readAt := by
  rcases probeBy_cases h with hreg | ⟨c₁, hreg, hecs, hstrip⟩
  · obtain ⟨m, entry, hm, hentry, hmatch, hage, hout⟩ := lookupIntoKeyed_hit hreg
    exact ⟨false, entry, now, .inl rfl, nofun, ⟨m, hm, hentry⟩, hmatch, hage, hout⟩
  · obtain ⟨m, entry, hm, hentry, hmatch, hage, hout⟩ := lookupIntoKeyed_hit hstrip
    refine ⟨true, entry, now', .inr rfl, fun _ => hecs, ?_, hmatch, hage, hout⟩
    rcases lookupIntoKeyed_cache hreg with rfl | rfl
    · exact ⟨m, hm, hentry⟩
    · exact lookup_of_remove hm hentry

/-! ### Runs -/

/-- Every stored entry satisfies `P`. -/
def Holds (P : CacheKey → Entry → Prop) (c : DnsCache) : Prop :=
  ∀ m, c.cache = some m → FinMap.Holds P m

/-- One event in the life of the cache. -/
inductive Step where
  | add (now : Nat) (ins : CacheInsert) (policy : ResolvedCachePolicy) (ruleId : UInt16)
  | evict (key : CacheKey)
  | lookup (now now' : Nat) (query : Packet) (fast : FastQueryInfo)
  | clear

/-- The cache after one event; a lookup that panics changes nothing. -/
def step (c : DnsCache) : Step → DnsCache
  | .add now ins policy ruleId => c.add now ins policy ruleId
  | .evict key => c.remove key
  | .lookup now now' query fast =>
    match c.getIntoWithEcsFallback now now' query fast false with
    | .ok (_, _, c') => c'
    | .error _ => c
  | .clear => c.invalidateAll

/-- The cache after a run. -/
def run (c : DnsCache) (steps : List Step) : DnsCache := steps.foldl step c

variable {P : CacheKey → Entry → Prop} {c : DnsCache}

theorem holds_new (capacity : Nat) (minTtl maxTtl : UInt32) : (new capacity minTtl maxTtl).Holds P := by
  intro m hm
  simp only [new] at hm
  split_ifs at hm
  simp only [Option.some.injEq] at hm
  exact hm ▸ FinMap.holds_empty

theorem Holds.remove (h : c.Holds P) (k : CacheKey) : (c.remove k).Holds P := by
  intro m hm
  simp only [DnsCache.remove, Option.map_eq_some_iff] at hm
  obtain ⟨m₀, hm₀, rfl⟩ := hm
  exact (h m₀ hm₀).erase k

theorem Holds.add (h : c.Holds P) {ins : CacheInsert} {policy : ResolvedCachePolicy} {ruleId : UInt16}
    (hnew : ∀ e, entryOf now ins policy ruleId = some e → P ins.key e) :
    (c.add now ins policy ruleId).Holds P := by
  rw [DnsCache.add]
  split
  · exact h
  · next m hm =>
    split
    · exact h
    · next e he =>
      intro m' hm'
      simp only [Option.some.injEq] at hm'
      exact hm' ▸ (h m hm).insert (hnew e he)

theorem Holds.probeBy (h : c.Holds P) {key : KeyFunction} {hit : Option CacheHit}
    (hget : c.probeBy key now now' query fast collectQname = .ok (hit, probe, c')) : c'.Holds P := by
  have hkeyed : ∀ {c c' : DnsCache} {now : Nat} {l : KeyedLookup} {hit : Option CacheHit},
      c.Holds P → c.lookupIntoKeyed now l = .ok (hit, c') → c'.Holds P := by
    intro c c' now l hit hc hl
    rcases lookupIntoKeyed_cache hl with rfl | rfl
    · exact hc
    · exact hc.remove _
  rcases probeBy_cases hget with hreg | ⟨c₁, hreg, -, hstrip⟩
  · exact hkeyed h hreg
  · exact hkeyed (hkeyed h hreg) hstrip

theorem holds_invalidateAll : c.invalidateAll.Holds P := by
  intro m hm
  simp only [DnsCache.invalidateAll, Option.map_eq_some_iff] at hm
  obtain ⟨m₀, hm₀, rfl⟩ := hm
  exact FinMap.holds_empty

/-- One event keeps a property of all entries, if an insert stores an entry that has it. -/
theorem Holds.step (h : c.Holds P) (s : Step)
    (hnew : ∀ now ins policy ruleId e, s = .add now ins policy ruleId →
      entryOf now ins policy ruleId = some e → P ins.key e) : (c.step s).Holds P := by
  cases s with
  | add now ins policy ruleId => exact h.add (fun e he => hnew now ins policy ruleId e rfl he)
  | evict key => exact h.remove key
  | lookup now now' query fast =>
    simp only [DnsCache.step]
    split
    · next hget => exact h.probeBy hget
    · exact h
  | clear => exact holds_invalidateAll

/-- A property of every insert of a run is a property of every entry at its end. -/
theorem Holds.run (h : c.Holds P) (steps : List Step)
    (hnew : ∀ now ins policy ruleId e, .add now ins policy ruleId ∈ steps →
      entryOf now ins policy ruleId = some e → P ins.key e) : (c.run steps).Holds P := by
  induction steps generalizing c with
  | nil => exact h
  | cons s steps ih =>
    refine ih (h.step s ?_) ?_
    · rintro now ins policy ruleId e rfl he
      exact hnew now ins policy ruleId e List.mem_cons_self he
    · intro now ins policy ruleId e hmem he
      exact hnew now ins policy ruleId e (List.mem_cons_of_mem _ hmem) he

end DnsCache

end PathDns
