import Mathlib.Data.List.Induction
import PathDns.Cache.Persist
import PathDns.Dns.Checked
import PathDns.Resolver.StoredEntries

/-!
# Whatever the cache file holds

Loading takes any bytes. What runs on the loaded entries afterwards is the lookup, the startup iteration
over rule entries and the next save, here with every index check of the source. The iteration, the save
and the rendering never panic. A lookup slices the stored query up to the question end of the record,
which the loader does not compare with the length of the query.
-/

namespace PathDns

open Bytes Reader

/-! ### Checked consumers -/

/-- `ResponseFilter::matches`. -/
def ResponseFilter.matchesChecked (f : ResponseFilter) (ruleset : Option RuleSetDb) (resp : Packet)
    (questionEnd : Nat) : Checked Bool := do
  if !f.answerIp.isEmpty then
    let ips ← answerIpsChecked resp questionEnd
    if !ruleset.any (fun rs => rs.matchesAnswerIp f.answerIp ips) then return false
  if !f.responseType.isEmpty then
    let types ← answerRrTypesChecked resp questionEnd
    if !types.any (fun t => f.responseType.contains (.ofNat t)) then return false
  if !f.responseRcode.isEmpty then
    let code ← rcodeChecked resp
    if !f.responseRcode.contains (.ofNat code) then return false
  if !f.responseQclass.isEmpty then
    let qc ← questionQclassChecked resp questionEnd
    if !f.responseQclass.contains (.ofNat (qc.getD 0)) then return false
  return true

/-- `first_match`. -/
def firstMatchChecked (ruleset : Option RuleSetDb) (resp : Packet) (questionEnd : Nat) :
    List (Nat × ResponseFilter) → Checked (Option (Nat × ResponseFilter))
  | [] => .ok none
  | f :: fs => do
    if ← f.2.matchesChecked ruleset resp questionEnd then return some f
    firstMatchChecked ruleset resp questionEnd fs

/-- What startup does with one entry: the addresses for the set of the filter that accepts it. -/
def restoreEntryIps (hot : HotState) (ruleset : Option RuleSetDb) (e : Entry) :
    Checked (Option (Nat × Nat × List IpAddr)) :=
  -- `hot.rules.get(rule_id)`
  match hot.rules[e.ruleId.toNat]? with
  | none => .ok none
  | some rule => do
    match ← firstMatchChecked ruleset e.packet e.questionEnd (rule.filters.mapIdx (fun i f => (i, f))) with
    | none => return none
    | some (idx, filter) =>
      if filter.action = .accept then
        let ips ← answerIpsChecked e.packet e.questionEnd
        return if ips.isEmpty then none else some (e.ruleId.toNat, idx, ips)
      else return none

/-- `for_each_rule_entry` with the startup closure, over the entries in iteration order. -/
def forEachRuleEntry (hot : HotState) (ruleset : Option RuleSetDb) (now : Nat) :
    List Entry → Checked (List (Nat × Nat × List IpAddr))
  | [] => .ok []
  | e :: es => do
    let rest ← forEachRuleEntry hot ruleset now es
    if e.ruleId = 65535 ∨ e.ttl.toNat ≤ asSecs (now - e.inserted) then return rest
    let ips ← restoreEntryIps hot ruleset e
    return ips.toList ++ rest

/-- The one addition of `save_to_file` that can overflow: `now_unix + remaining`. -/
def expireChecked (nowUnix now : Nat) (e : Entry) : Checked Nat :=
  let remaining := e.ttl.toNat - asSecs (now - e.inserted)
  if nowUnix + remaining < 2 ^ 64 then .ok (nowUnix + remaining) else .error .overflow

/-- `out[12..question_end].copy_from_slice(question)` behind its length check. -/
def writeQuestionChecked (out : Packet) (question : List UInt8) (questionEnd : Nat) : Checked Packet :=
  if questionEnd ≤ out.length then
    match sliceIndex out 12 questionEnd with
    | .error e => .error e
    | .ok place =>
      -- `copy_from_slice` panics on different lengths
      if place.length ≠ question.length then .error .slice else .ok (patch out 12 question)
  else .ok out

/-- `patch_ttls_at`. -/
def patchTtlsAtChecked (packet : Packet) (elapsed : UInt32) : TtlOffsets → Checked Packet
  | [] => .ok packet
  | o :: os =>
    if o.1.toNat + 4 ≤ packet.length then
      match sliceIndex packet o.1.toNat (o.1.toNat + 4) with
      | .error e => .error e
      | .ok _ =>
        patchTtlsAtChecked (patch packet o.1.toNat (encU32be (o.2.toNat - elapsed.toNat))) elapsed os
    else patchTtlsAtChecked packet elapsed os

/-- The writes of a hit. -/
def Entry.renderChecked (e : Entry) (clientId : Nat) (question : List UInt8) (questionEnd : Nat)
    (elapsed : UInt32) : Checked Packet :=
  match writeQuestionChecked (setId e.packet clientId) question questionEnd with
  | .error err => .error err
  | .ok out => patchTtlsAtChecked out elapsed e.ttlOffsets

/-! ### What never panics -/

theorem ResponseFilter.matchesChecked_ok (f : ResponseFilter) (ruleset : Option RuleSetDb)
    (resp : Packet) (questionEnd : Nat) :
    ∃ b, f.matchesChecked ruleset resp questionEnd = .ok b := by
  unfold matchesChecked
  simp only [answerIpsChecked_eq, answerRrTypesChecked_eq, rcodeChecked_eq, questionQclassChecked_eq,
    bind, Except.bind, pure, Except.pure]
  split_ifs <;> exact ⟨_, rfl⟩

theorem firstMatchChecked_ok (ruleset : Option RuleSetDb) (resp : Packet) (questionEnd : Nat)
    (fs : List (Nat × ResponseFilter)) :
    ∃ r, firstMatchChecked ruleset resp questionEnd fs = .ok r := by
  induction fs with
  | nil => exact ⟨_, rfl⟩
  | cons f fs ih =>
    obtain ⟨b, hb⟩ := f.2.matchesChecked_ok ruleset resp questionEnd
    unfold firstMatchChecked
    simp only [hb, bind, Except.bind, pure, Except.pure]
    split_ifs
    · exact ⟨_, rfl⟩
    · exact ih

theorem restoreEntryIps_ok (hot : HotState) (ruleset : Option RuleSetDb) (e : Entry) :
    ∃ r, restoreEntryIps hot ruleset e = .ok r := by
  unfold restoreEntryIps
  split
  · exact ⟨_, rfl⟩
  · next rule _ =>
    obtain ⟨r, hr⟩ := firstMatchChecked_ok ruleset e.packet e.questionEnd
      (rule.filters.mapIdx (fun i f => (i, f)))
    simp only [hr, bind, Except.bind, pure, Except.pure, answerIpsChecked_eq]
    cases r with
    | none => exact ⟨_, rfl⟩
    | some p =>
      simp only
      split_ifs <;> exact ⟨_, rfl⟩

theorem forEachRuleEntry_ok (hot : HotState) (ruleset : Option RuleSetDb) (now : Nat)
    (es : List Entry) : ∃ r, forEachRuleEntry hot ruleset now es = .ok r := by
  induction es with
  | nil => exact ⟨_, rfl⟩
  | cons e es ih =>
    obtain ⟨rest, hrest⟩ := ih
    obtain ⟨ips, hips⟩ := restoreEntryIps_ok hot ruleset e
    unfold forEachRuleEntry
    simp only [hrest, hips, bind, Except.bind, pure, Except.pure]
    split_ifs <;> exact ⟨_, rfl⟩

theorem expireChecked_ok {nowUnix : Nat} (h : nowUnix + 2 ^ 32 ≤ 2 ^ 64) (now : Nat) (e : Entry) :
    ∃ n, expireChecked nowUnix now e = .ok n := by
  have := e.ttl.toNat_lt
  unfold expireChecked
  simp only
  rw [if_pos (by omega)]
  exact ⟨_, rfl⟩

theorem patchTtlsAtChecked_eq (packet : Packet) (elapsed : UInt32) (offsets : TtlOffsets) :
    patchTtlsAtChecked packet elapsed offsets = .ok (patchTtlsAt packet offsets elapsed) := by
  induction offsets generalizing packet with
  | nil => rfl
  | cons o os ih =>
    rw [patchTtlsAtChecked, patchTtlsAt, List.foldl_cons, ← patchTtlsAt]
    split_ifs with hfit
    · rw [sliceIndex_ok (Nat.le_add_right _ _) hfit]
      exact ih _
    · exact ih _

/-- Rendering never panics, and gives what the lookup of the model returns. -/
theorem Entry.renderChecked_eq (e : Entry) (clientId : Nat) {query : Packet} {questionEnd : Nat}
    (hge : 12 ≤ questionEnd) (hle : questionEnd ≤ query.length) (elapsed : UInt32) :
    e.renderChecked clientId (slice query 12 questionEnd) questionEnd elapsed =
      .ok (e.render clientId (slice query 12 questionEnd) questionEnd elapsed) := by
  unfold renderChecked render writeQuestionChecked
  simp only
  split_ifs with hfit
  · simp only [sliceIndex_ok hge hfit, length_slice hfit, length_slice hle, ne_eq, not_true_eq_false,
      if_false, patchTtlsAtChecked_eq]
  · exact patchTtlsAtChecked_eq _ _ _

/-! ### Which lookups panic -/

/-- The query a record or an entry keeps ends inside its question. -/
def CutQuery (query : Packet) (questionEnd : Nat) : Prop :=
  12 ≤ query.length ∧ query.length < questionEnd

instance (query : Packet) (questionEnd : Nat) : Decidable (CutQuery query questionEnd) :=
  inferInstanceAs (Decidable (_ ∧ _))

/-- Some accepted query with this question end is looked up under the key. -/
def LookedUp (key : CacheKey) (questionEnd : Nat) : Prop :=
  ∃ query fast strip, parseQueryFast query = .ok fast ∧ fast.questionEnd = questionEnd ∧
    key = cacheKey query fast (extractVariant query fast.questionEnd) strip ∧
    (strip = true → (extractVariant query fast.questionEnd).ecsSrc ≠ none)

theorem queriesMatchV_ok_iff {sv lv : QueryVariant} {sqe qe : Nat} {stored query : Packet}
    {strip : Bool} (hge : 12 ≤ qe) (hle : qe ≤ query.length) :
    (∃ b, queriesMatchV sv lv sqe stored query qe strip = .ok b) ↔ (sqe = qe → ¬CutQuery stored qe) := by
  unfold queriesMatchV CutQuery
  by_cases hshape : query.length < qe ∨ sqe ≠ qe ∨ query.length < 12 ∨ stored.length < 12
  · rw [if_pos hshape]
    exact ⟨fun _ heq hcut => by omega, fun _ => ⟨_, rfl⟩⟩
  · rw [if_neg hshape]
    by_cases hcut : qe ≤ stored.length
    · rw [sliceIndex_ok hge hcut, sliceIndex_ok hge hle]
      refine ⟨fun _ _ h => by omega, fun _ => ?_⟩
      simp only
      split
      · exact ⟨_, rfl⟩
      · split <;> exact ⟨_, rfl⟩
    · have herr : sliceIndex stored 12 qe = .error .slice := if_neg (by omega)
      rw [herr]
      refine ⟨nofun, fun h => absurd (h ?_) ?_⟩ <;> omega

namespace DnsCache

variable {c : DnsCache} {m : EntryMap}

/-- A keyed lookup panics exactly on an entry of the same question end whose query is cut. -/
theorem lookupIntoKeyed_ok_iff (hm : c.cache = some m) (now : Nat) {l : KeyedLookup}
    (hge : 12 ≤ l.questionEnd) (hle : l.questionEnd ≤ l.query.length) :
    (∃ r, c.lookupIntoKeyed now l = .ok r) ↔
      ∀ e, m.lookup l.key = some e → e.questionEnd = l.questionEnd → ¬CutQuery e.query l.questionEnd := by
  unfold lookupIntoKeyed
  rw [hm]
  simp only [if_neg (show ¬ (l.questionEnd < 12 ∨ l.query.length < l.questionEnd) by omega)]
  cases hlook : m.lookup l.key with
  | none => simp
  | some e =>
    simp only [Option.some.injEq, forall_eq']
    rw [← @queriesMatchV_ok_iff e.variant l.variant e.questionEnd l.questionEnd e.query l.query l.stripEcs hge hle]
    split
    · next p hp => simp [hp]
    · next hp => simp [hp]
    · next hp =>
      simp only [hp]
      split <;> simp

theorem lookupIntoKeyed_expired {now : Nat} {l : KeyedLookup} {hit : Option CacheHit} {c' : DnsCache}
    (hm : c.cache = some m) (hold : ∀ e, m.lookup l.key = some e → e.ttl.toNat ≤ asSecs (now - e.inserted))
    (h : c.lookupIntoKeyed now l = .ok (hit, c')) : hit = none := by
  cases hit with
  | none => rfl
  | some hit =>
    obtain ⟨m', e, hm', hlook, -, hfresh, -⟩ := lookupIntoKeyed_hit h
    rw [hm, Option.some.injEq] at hm'
    subst hm'
    exact absurd (hold e hlook) (Nat.not_le.mpr hfresh)

/-- A lookup drops at most the entry of its own key. -/
theorem lookupIntoKeyed_map {now : Nat} {l : KeyedLookup} {hit : Option CacheHit} {c' : DnsCache}
    (hm : c.cache = some m) (h : c.lookupIntoKeyed now l = .ok (hit, c')) : ∃ m', c'.cache = some m' ∧
      (∀ k e, m'.lookup k = some e → m.lookup k = some e) ∧ ∀ k, k ≠ l.key → m'.lookup k = m.lookup k := by
  rcases lookupIntoKeyed_cache h with rfl | rfl
  · exact ⟨m, hm, fun _ _ h => h, fun _ _ => rfl⟩
  · have hcache : (c.remove l.key).cache = some (m.erase l.key) := by rw [remove, hm, Option.map_some]
    refine ⟨_, hcache, fun k e hlook => ?_, fun k hk => AList.lookup_erase_ne hk⟩
    obtain ⟨m', hm', hlook'⟩ := lookup_of_remove hcache hlook
    rwa [← Option.some.inj (hm.symm.trans hm')] at hlook'

theorem getIntoWithEcsFallback_ok_iff {now now' : Nat} {query : Packet} {fast : FastQueryInfo}
    {collectQname : Bool} :
    (∃ r, c.getIntoWithEcsFallback now now' query fast collectQname = .ok r) ↔
      ∃ r, c.lookupIntoKeyed now (lookupFor cacheKey query fast collectQname false) = .ok r ∧
        (r.1 = none → (extractVariant query fast.questionEnd).ecsSrc ≠ none →
          ∃ r', r.2.lookupIntoKeyed now' (lookupFor cacheKey query fast collectQname true) = .ok r') := by
  simp only [getIntoWithEcsFallback, probeBy, bind, Except.bind, pure, Except.pure, lookupFor]
  split
  · next h => simp [h]
  · next r h =>
    simp only [h, Except.ok.injEq, exists_eq_left']
    split
    · next hhit => simp [hhit]
    · next hhit =>
      simp only [hhit, ← Option.isSome_iff_ne_none, true_imp_iff]
      split
      · next hecs =>
        simp only [hecs, true_imp_iff]
        split
        · next h' => simp [h']
        · next h' => simp [h']
      · next hecs => simp [hecs]

/-- No lookup of an accepted query panics exactly when no entry with a cut query is looked up. -/
theorem lookups_ok_iff (hm : c.cache = some m) :
    (∀ query fast, parseQueryFast query = .ok fast → ∀ now now' collectQname,
      ∃ r, c.getIntoWithEcsFallback now now' query fast collectQname = .ok r) ↔
    ∀ k e, m.lookup k = some e → CutQuery e.query e.questionEnd → ¬ LookedUp k e.questionEnd := by
  have hbounds {query fast} (hparse : parseQueryFast query = .ok fast) :
      12 ≤ fast.questionEnd ∧ fast.questionEnd ≤ query.length := by
    have hq := parseQueryFast_spec hparse
    exact ⟨Nat.le_trans (by omega) hq.questionEnd_ge, hq.questionEnd_le⟩
  constructor
  · rintro h k e hlook hcut ⟨query, fast, strip, hparse, hend, rfl, hecs⟩
    obtain ⟨hge, hle⟩ := hbounds hparse
    rw [← hend] at hcut
    -- at this time the entry under the regular key has expired
    obtain ⟨late, hlate⟩ : ∃ late, ∀ e', m.lookup (lookupFor cacheKey query fast false false).key = some e' →
        e'.ttl.toNat ≤ asSecs (late - e'.inserted) := by
      cases hreg : m.lookup (lookupFor cacheKey query fast false false).key with
      | none => exact ⟨0, by simp⟩
      | some e' =>
        refine ⟨e'.inserted + e'.ttl.toNat * 1000000000, ?_⟩
        rintro _ ⟨⟩
        rw [Nat.add_sub_cancel_left, asSecs, Nat.mul_div_cancel _ (by norm_num)]
    obtain ⟨⟨hit, c'⟩, hreg, hstripped⟩ :=
      getIntoWithEcsFallback_ok_iff.mp (h query fast hparse late late false)
    have hsafe := (lookupIntoKeyed_ok_iff hm late hge hle).mp ⟨_, hreg⟩
    cases strip with
    | false => exact hsafe e hlook hend.symm hcut
    | true =>
      -- dropping the expired regular entry leaves the one under the stripped key
      obtain ⟨m', hm', -, hother⟩ := lookupIntoKeyed_map hm hreg
      have hne : (lookupFor cacheKey query fast false true).key ≠ (lookupFor cacheKey query fast false false).key :=
        fun heq => hsafe e (heq ▸ hlook) hend.symm hcut
      exact (lookupIntoKeyed_ok_iff hm' late hge hle).mp
        (hstripped (lookupIntoKeyed_expired hm hlate hreg) (hecs rfl)) e ((hother _ hne).trans hlook) hend.symm hcut
  · intro h query fast hparse now now' collectQname
    obtain ⟨hge, hle⟩ := hbounds hparse
    have hkeyed {c' : DnsCache} {m' : EntryMap} (t : Nat) {strip : Bool} (hm' : c'.cache = some m')
        (hsub : ∀ k e, m'.lookup k = some e → m.lookup k = some e)
        (hecs : strip = true → (extractVariant query fast.questionEnd).ecsSrc ≠ none) :
        ∃ r, c'.lookupIntoKeyed t (lookupFor cacheKey query fast collectQname strip) = .ok r :=
      (lookupIntoKeyed_ok_iff hm' t hge hle).mpr fun e hlook hend hcut =>
        h _ e (hsub _ e hlook) (hend ▸ hcut) ⟨query, fast, strip, hparse, hend.symm, rfl, hecs⟩
    obtain ⟨r, hreg⟩ := hkeyed now hm (fun _ _ h => h) fun h => absurd h Bool.false_ne_true
    obtain ⟨m', hm', hsub, -⟩ := lookupIntoKeyed_map hm hreg
    exact getIntoWithEcsFallback_ok_iff.mpr ⟨r, hreg, fun _ hecs => hkeyed now' hm' hsub fun _ => hecs⟩

end DnsCache

/-! ### The records of a file -/

/-- The records the loop of `load_from_file` reads, up to the first unreadable one. -/
def recordsOf : Nat → List UInt8 → List Record
  | 0, _ => []
  | n + 1, input =>
    match readRecord input with
    | .error _ => []
    | .ok (r, rest) => r :: recordsOf n rest

/-- The records of a file whose header is accepted. -/
def fileRecords (fingerprint : UInt64) (file : List UInt8) : List Record :=
  match readAndCheckHeader cacheMagic fingerprint "cache" file with
  | .error _ => []
  | .ok (count, rest) => recordsOf count rest

theorem loadLoop_records (nowUnix now n : Nat) (input : List UInt8) (m : EntryMap) (loaded : Nat) :
    (loadLoop nowUnix now n input m loaded).2 =
      restoreAll nowUnix now (recordsOf n input) m := by
  induction n generalizing input m loaded with
  | zero => rfl
  | succ n ih =>
    unfold loadLoop recordsOf
    cases hread : readRecord input with
    | error e => rfl
    | ok res =>
      obtain ⟨r, rest⟩ := res
      simp only
      cases hres : r.restore nowUnix now with
      | none =>
        simp only [ih, restoreAll, List.foldl_cons, hres]
      | some entry =>
        simp only [ih, restoreAll, List.foldl_cons, hres]

/-- The last record of a key that is not skipped. -/
def lastRestored (nowUnix now : Nat) (k : CacheKey) (records : List Record) : Option Record :=
  records.reverse.find? (fun r => r.key = k ∧ (r.restore nowUnix now).isSome)

theorem lookup_restoreAll_last (nowUnix now : Nat) (k : CacheKey) (records : List Record) :
    (restoreAll nowUnix now records ∅).lookup k =
      (lastRestored nowUnix now k records).bind (·.restore nowUnix now) := by
  induction records using List.reverseRec with
  | nil => rfl
  | append_singleton rs r ih =>
    rw [restoreAll, List.foldl_append, List.foldl_cons, List.foldl_nil, ← restoreAll, lastRestored,
      List.reverse_append, List.reverse_singleton, List.singleton_append, List.find?_cons, ← lastRestored]
    cases hres : r.restore nowUnix now with
    | none => simp [ih]
    | some entry =>
      by_cases hk : r.key = k
      · simp [hk, hres]
      · simp [hk, ih, AList.lookup_insert_ne (Ne.symm hk)]

theorem DnsCache.loadFromFile_new {capacity : Nat} (hcap : 0 < capacity) (minTtl maxTtl : UInt32)
    (nowUnix now : Nat) (fingerprint : UInt64) (file : List UInt8) :
    ((DnsCache.new capacity minTtl maxTtl).loadFromFile nowUnix now fingerprint file).2.cache =
      some (restoreAll nowUnix now (fileRecords fingerprint file) ∅) := by
  unfold loadFromFile new fileRecords
  simp only [if_pos hcap]
  cases readAndCheckHeader cacheMagic fingerprint "cache" file with
  | error e => rfl
  | ok res => simp only [loadLoop_records]

/-! ### Safety after a load -/

/-- Every use of the cache completes: lookups of accepted queries with their writes, the startup
iteration, and the saves up to the last 2^32 seconds of the 64-bit wall clock. -/
structure DnsCache.Safe (c : DnsCache) : Prop where
  lookup : ∀ query fast, parseQueryFast query = .ok fast → ∀ now now' collectQname,
    ∃ r, c.getIntoWithEcsFallback now now' query fast collectQname = .ok r
  render : ∀ m, c.cache = some m → ∀ k e, m.lookup k = some e → ∀ query fast,
    parseQueryFast query = .ok fast → ∀ elapsed,
    e.renderChecked fast.id (slice query 12 fast.questionEnd) fast.questionEnd elapsed =
      .ok (e.render fast.id (slice query 12 fast.questionEnd) fast.questionEnd elapsed)
  iterate : ∀ m, c.cache = some m → ∀ hot ruleset now,
    ∃ r, forEachRuleEntry hot ruleset now (m.entries.map (·.2)) = .ok r
  save : ∀ m, c.cache = some m → ∀ nowUnix now, nowUnix + 2 ^ 32 ≤ 2 ^ 64 →
    ∀ e ∈ m.entries.map (·.2), ∃ n, expireChecked nowUnix now e = .ok n

theorem DnsCache.safe_iff (c : DnsCache) :
    c.Safe ↔ ∀ m, c.cache = some m →
      ∀ k e, m.lookup k = some e → CutQuery e.query e.questionEnd → ¬ LookedUp k e.questionEnd := by
  constructor
  · intro h m hm
    exact (lookups_ok_iff hm).mp h.lookup
  · intro h
    refine ⟨?_, ?_, ?_, ?_⟩
    · intro query fast hparse now now' collectQname
      cases hm : c.cache with
      | none =>
        unfold getIntoWithEcsFallback probeBy lookupIntoKeyed
        simp only [hm, bind, Except.bind, pure, Except.pure]
        split_ifs <;> exact ⟨_, rfl⟩
      | some m => exact (lookups_ok_iff hm).mpr (h m hm) query fast hparse now now' collectQname
    · intro m hm k e hlook query fast hparse elapsed
      have hq := parseQueryFast_spec hparse
      have := hq.questionEnd_ge
      exact e.renderChecked_eq fast.id (by omega) hq.questionEnd_le elapsed
    · intro m hm hot ruleset now
      exact forEachRuleEntry_ok hot ruleset now _
    · intro m hm nowUnix now hclock e _
      exact expireChecked_ok hclock now e

/-- An entry a leader stores is never cut. -/
theorem leader_entry_not_cut {added : Nat} {ctx : QueryContext} {target : RouteTarget} {resp : Packet}
    {policy : ResolvedCachePolicy} {ruleId : UInt16} {e : Entry}
    (he : DnsCache.entryOf added (leaderInsert ctx target resp) policy ruleId = some e) :
    ¬ CutQuery e.query e.questionEnd := by
  have hend : e.questionEnd = ctx.fast.questionEnd := (DnsCache.entryOf_spec he).2.2.2.2.1
  have hle := (leader_entry_query he).1
  rintro ⟨-, hcut⟩
  omega

/-- Whatever the file holds, loading it completes, and the cache stays safe in every run after it
exactly when no key is left with a record whose query ends inside its question while some accepted
query of that question end is looked up under the key. -/
theorem loaded_cache_safe_iff (capacity : Nat) (minTtl maxTtl : UInt32) (nowUnix now : Nat)
    (fingerprint : UInt64) (file : List UInt8) :
    ((∀ r ∈ fileRecords fingerprint file,
        ∃ v, extractVariantChecked r.query (12 + r.question.length) = .ok v) ∧
      ∀ steps : List ServeStep, (((DnsCache.new capacity minTtl maxTtl).loadFromFile nowUnix now
        fingerprint file).2.run (steps.map ServeStep.toCache)).Safe) ↔
    (0 < capacity → ∀ k r, lastRestored nowUnix now k (fileRecords fingerprint file) = some r →
      CutQuery r.query (12 + r.question.length) → ¬ LookedUp k (12 + r.question.length)) := by
  constructor
  · rintro ⟨-, hsafe⟩ hcap k r hlast hcut
    have hload := DnsCache.loadFromFile_new hcap minTtl maxTtl nowUnix now fingerprint file
    have hentry := lookup_restoreAll_last nowUnix now k (fileRecords fingerprint file)
    rw [hlast, Option.bind_some] at hentry
    have hrestored := List.find?_some hlast
    simp only [decide_eq_true_eq] at hrestored
    obtain ⟨e, he⟩ := Option.isSome_iff_exists.mp hrestored.2
    obtain ⟨qname, -, rfl⟩ := Record.restore_spec he
    exact (DnsCache.safe_iff _).mp (hsafe []) _ hload k _ (hentry.trans he) hcut
  · intro h
    refine ⟨fun r _ => ⟨_, extractVariantChecked_eq _ _⟩, ?_⟩
    intro steps
    rw [DnsCache.safe_iff]
    refine DnsCache.Holds.run ?_ _ ?_
    · intro m hm k e hlook
      rcases Nat.eq_zero_or_pos capacity with rfl | hcap
      · simp [DnsCache.new, DnsCache.loadFromFile] at hm
      · rw [DnsCache.loadFromFile_new hcap, Option.some.injEq] at hm
        rw [← hm, lookup_restoreAll_last, Option.bind_eq_some_iff] at hlook
        obtain ⟨r, hlast, he⟩ := hlook
        obtain ⟨qname, -, rfl⟩ := Record.restore_spec he
        exact h hcap k r hlast
    · intro added ins policy ruleId e hmem he hcut
      obtain ⟨ctx, target, resp, -, rfl⟩ := ServeStep.insert_of_mem_toCache hmem
      exact absurd hcut (leader_entry_not_cut he)

/-- A record under the key of the sample query whose stored query is cut after the header. -/
def cutRecord : Record where
  key := cacheKey sampleQuery (fastInfo sampleQuery)
    (extractVariant sampleQuery (fastInfo sampleQuery).questionEnd) false
  expireUnix := 160
  ttl := 60
  question := slice sampleQuery 12 (fastInfo sampleQuery).questionEnd
  packet := sampleResponse
  query := sampleQuery.take 12
  qname := []
  offsets := []
  ruleId := 0

def cutFile : List UInt8 := writeHeader cacheMagic 7 1 ++ encodeRecord cutRecord

/-- The panic a checked computation ends in. -/
def panicOf {α : Type} : Checked α → Option Panic
  | .error p => some p
  | .ok _ => none

/-- The file is accepted, and the next lookup of the sample query panics on the slice. -/
theorem cut_record_panics :
    parseQueryFast sampleQuery = .ok (fastInfo sampleQuery) ∧
    ((DnsCache.new 8 0 0).loadFromFile 100 100 7 cutFile).1 = .ok 1 ∧
    panicOf (((DnsCache.new 8 0 0).loadFromFile 100 100 7 cutFile).2.getIntoWithEcsFallback 100 100
      sampleQuery (fastInfo sampleQuery) false) = some .slice := by
  refine ⟨?_, ?_, ?_⟩ <;> decide +kernel

end PathDns
