import PathDns.Cache.Store

/-!
# What a cache hit returns

Every hit of every run comes from an insert of that run, is younger than the lifetime computed there,
and returns the inserted response with the new client's ID and question and every TTL field counted
down by the age. Nothing else in the packet changes.
-/

namespace PathDns

open Bytes

/-- The insert answers a query that `parse_query_fast` accepts, and the response echoes its question.
The size bound is the one `TtlOffsets` documents. -/
structure Answers (ins : CacheInsert) : Prop where
  accepted : ∃ info, parseQueryFast ins.query = .ok info ∧ ins.questionEnd = info.questionEnd
  echoes : questionsMatch (slice ins.packet 12 ins.questionEnd)
    (slice ins.query 12 ins.questionEnd) = true
  size : ins.packet.length < 2 ^ 32

/-- `out` is the response `resp` as served to `query` at the given age: ID and question are the
client's, each TTL field is counted down, every other byte is that of `resp`. -/
structure Served (resp : Packet) (questionEnd : Nat) (clamped : Rr → UInt32) (query : Packet)
    (age : Nat) (out : Packet) : Prop where
  length : out.length = resp.length
  id : ∀ i, i < 2 → byteAt out i = byteAt query i
  question : ∀ i, 12 ≤ i → i < questionEnd → byteAt out i = byteAt query i
  letterCase : ∀ i, 12 ≤ i → i < questionEnd →
    toAsciiLowercase (byteAt out i) = toAsciiLowercase (byteAt resp i)
  records : ∃ rs, sectionRecords resp questionEnd = some rs ∧
    (∀ r ∈ ttlRecords rs, u32be out (r.nameEnd + 4) = (clamped r).toNat - age) ∧
    ∀ i, 2 ≤ i → (i < 12 ∨ questionEnd ≤ i) →
      (∀ r ∈ ttlRecords rs, i < r.nameEnd + 4 ∨ r.nameEnd + 8 ≤ i) → byteAt out i = byteAt resp i

/-! ### What an insert stores -/

variable {now : Nat} {ins : CacheInsert} {policy : ResolvedCachePolicy} {ruleId : UInt16} {e : Entry}

theorem DnsCache.entryOf_spec (h : entryOf now ins policy ruleId = some e) :
    isTruncated ins.packet = false ∧
      effectiveTtlAndOffsets ins.packet ins.questionEnd policy.nodataTtl policy.minTtl policy.maxTtl =
        some (e.ttl, e.ttlOffsets) ∧
      e.packet = setId ins.packet 0 ∧ e.query = ins.query ∧ e.questionEnd = ins.questionEnd ∧
      e.variant = ins.variant ∧ e.inserted = now := by
  revert h
  fun_cases entryOf now ins policy ruleId <;> rintro ⟨⟩
  next htrunc _ _ heff => exact ⟨by simpa using htrunc, heff, rfl, rfl, rfl, rfl, rfl⟩

theorem DnsCache.entryOf_qname (h : entryOf now ins policy ruleId = some e) : e.qname = ins.qname := by
  revert h
  fun_cases entryOf now ins policy ruleId <;> rintro ⟨⟩
  rfl

theorem DnsCache.entryOf_ruleId (h : entryOf now ins policy ruleId = some e) : e.ruleId = ruleId := by
  revert h
  fun_cases entryOf now ins policy ruleId <;> rintro ⟨⟩
  rfl

theorem DnsCache.entryOf_eq_none
    (h : isTruncated ins.packet = true ∨ (rcode ins.packet ≠ 0 ∧ rcode ins.packet ≠ 3)) :
    entryOf now ins policy ruleId = none := by
  cases he : entryOf now ins policy ruleId with
  | none => rfl
  | some e =>
    obtain ⟨htrunc, heff, -⟩ := entryOf_spec he
    obtain ⟨hgood, -⟩ := effectiveTtlAndOffsets_spec heff
    rcases h with h | h
    · simp [h] at htrunc
    · rw [isGoodReply] at hgood
      split_ifs at hgood with hreply
      simp [h] at hgood

theorem isGoodReply_length {packet : Packet} (h : isGoodReply packet = true) : 12 ≤ packet.length := by
  rw [isGoodReply] at h
  split_ifs at h with hreply
  simp only [Bool.or_eq_true, decide_eq_true_eq, not_or, not_lt] at hreply
  exact hreply.2

/-! ### Rendering -/

theorem render_served (he : DnsCache.entryOf now ins policy ruleId = some e) (hans : Answers ins)
    {query : Packet} {fast : FastQueryInfo} (hq : AcceptedQuery query fast)
    (hend : ins.questionEnd = fast.questionEnd)
    (hmatch : questionsMatch (slice ins.query 12 fast.questionEnd) (slice query 12 fast.questionEnd) = true)
    (elapsed : UInt32) :
    Served ins.packet ins.questionEnd (clampedTtl ins.packet e.ttl policy.minTtl policy.maxTtl) query
      elapsed.toNat
      (e.render fast.id (slice query 12 fast.questionEnd) fast.questionEnd elapsed) := by
  obtain ⟨-, heff, hpacket, -, -, -, -⟩ := DnsCache.entryOf_spec he
  obtain ⟨hgood, hqe, rs, hrs, hoffsets⟩ := effectiveTtlAndOffsets_spec heff
  have hlen12 := isGoodReply_length hgood
  have hge := hq.questionEnd_ge
  have hle := hq.questionEnd_le
  obtain ⟨hrecords, hdisjoint⟩ := ttlOffsets_layout hans.size
    (clampedTtl ins.packet e.ttl policy.minTtl policy.maxTtl) hrs
  rw [hend] at hqe hrecords hrs ⊢
  -- the packet before the TTLs are patched
  set base := patch (setId (setId ins.packet 0) fast.id) 12 (slice query 12 fast.questionEnd) with hbase
  have hquestion : (slice query 12 fast.questionEnd).length = fast.questionEnd - 12 := length_slice hle
  have hfit : 12 + (slice query 12 fast.questionEnd).length ≤
      (setId (setId ins.packet 0) fast.id).length := by
    rw [length_setId, length_setId, hquestion]
    omega
  have hbaseLen : base.length = ins.packet.length := by
    rw [hbase, length_patch hfit, length_setId, length_setId]
  have hrender : e.render fast.id (slice query 12 fast.questionEnd) fast.questionEnd elapsed =
      patchTtlsAt base e.ttlOffsets elapsed := by
    simp only [Entry.render, hpacket, length_setId, if_pos hqe, hbase]
  have hbaseQuestion : ∀ i, 12 ≤ i → i < fast.questionEnd → byteAt base i = byteAt query i := by
    intro i hlo hhi
    obtain ⟨k, rfl⟩ := Nat.exists_eq_add_of_le hlo
    rw [hbase, byteAt_patch_in hfit (by omega), byteAt_slice (by omega)]
  have hbaseOther : ∀ i, 2 ≤ i → (i < 12 ∨ fast.questionEnd ≤ i) →
      byteAt base i = byteAt ins.packet i := by
    intro i h2 hout
    rw [hbase, byteAt_patch_out hfit (by omega), byteAt_setId_out h2, byteAt_setId_out h2]
  have hbaseId : ∀ i, i < 2 → byteAt base i = byteAt query i := by
    intro i hi
    rw [hbase, byteAt_patch_out hfit (by omega), byteAt_setId_id (by rw [length_setId]; omega) hi,
      hq.id, encU16be_u16be]
    rcases (by omega : i = 0 ∨ i = 1) with rfl | rfl <;> rfl
  -- a byte that is in no TTL field of the packet is not patched
  have hkeep : ∀ i, (∀ r ∈ ttlRecords rs, i < r.nameEnd + 4 ∨ r.nameEnd + 8 ≤ i) →
      byteAt (patchTtlsAt base e.ttlOffsets elapsed) i = byteAt base i := by
    intro i hi
    apply byteAt_patchTtlsAt_out
    rw [hoffsets]
    intro o ho
    obtain ⟨r, hr, rfl⟩ := List.mem_map.mp ho
    simp only [(hrecords r hr).1]
    have := hi r hr
    omega
  have hfront : ∀ i, i < fast.questionEnd →
      byteAt (patchTtlsAt base e.ttlOffsets elapsed) i = byteAt base i := fun i hi =>
    hkeep i (fun r hr => by have := (hrecords r hr).2.1; omega)
  rw [hrender]
  refine ⟨?_, ?_, ?_, ?_, rs, hrs, ?_, ?_⟩
  · rw [length_patchTtlsAt, hbaseLen]
  · intro i hi
    rw [hfront i (by omega), hbaseId i hi]
  · intro i hlo hhi
    rw [hfront i hhi, hbaseQuestion i hlo hhi]
  · intro i hlo hhi
    rw [hfront i hhi, hbaseQuestion i hlo hhi]
    obtain ⟨k, rfl⟩ := Nat.exists_eq_add_of_le hlo
    obtain ⟨info, hinfo, hinfoEnd⟩ := hans.accepted
    have hins := parseQueryFast_spec hinfo
    have h1 := hq.question_lower hmatch k (by omega)
    have h2 := hins.question_lower (hinfoEnd ▸ hans.echoes) k (by omega)
    rw [← h1, byteAt_slice (by omega), ← h2, byteAt_slice (by omega)]
  · intro r hr
    have hloc := hrecords r hr
    apply u32be_encU32be
    · have := (clampedTtl ins.packet e.ttl policy.minTtl policy.maxTtl r).toNat_lt
      omega
    · intro k hk
      have hfields : ∀ o ∈ e.ttlOffsets, o.1.toNat + 4 ≤ base.length := by
        rw [hoffsets, hbaseLen]
        intro o ho
        obtain ⟨s, hs, rfl⟩ := List.mem_map.mp ho
        have := hrecords s hs
        simp only [this.1]
        omega
      have hmem : (UInt32.ofNat (r.nameEnd + 4),
          clampedTtl ins.packet e.ttl policy.minTtl policy.maxTtl r) ∈ e.ttlOffsets := by
        rw [hoffsets]
        exact List.mem_map.mpr ⟨r, hr, rfl⟩
      rw [← byteAt_patchTtlsAt_in hfields (hoffsets ▸ hdisjoint) hmem hk, hloc.1]
  · intro i h2 hout hrec
    rw [hkeep i hrec, hbaseOther i h2 hout]

/-! ### Every hit of every run -/

theorem queriesMatchV_question {sv lv : QueryVariant} {sqe qe : Nat} {stored query : Packet}
    {stripEcs : Bool} (h : queriesMatchV sv lv sqe stored query qe stripEcs = .ok true) :
    sqe = qe ∧ qe ≤ stored.length ∧
      questionsMatch (slice stored 12 qe) (slice query 12 qe) = true := by
  revert h
  fun_cases queriesMatchV sv lv sqe stored query qe stripEcs <;> intro h
  case case1 => cases h
  case case2 => cases h
  case case5 => cases h
  case case6 => cases h
  all_goals
    next hshape _ _ hb ha hmatch _ =>
      simp only [not_or, not_not, not_lt] at hshape
      rw [sliceIndex_eq_ok_iff] at ha hb
      obtain ⟨⟨-, hlen⟩, rfl⟩ := ha
      obtain ⟨-, rfl⟩ := hb
      exact ⟨hshape.2.1, hlen, by simpa using hmatch⟩

/-- A match compares OPT presence, DO, EDNS version, RD, AD and CD; under the regular key, all of the
variant. -/
theorem queriesMatchV_variant {sv lv : QueryVariant} {sqe qe : Nat} {stored query : Packet}
    {stripEcs : Bool} (h : queriesMatchV sv lv sqe stored query qe stripEcs = .ok true) :
    (sv.hasOpt = lv.hasOpt ∧ sv.doBit = lv.doBit ∧ sv.ednsVersion = lv.ednsVersion ∧ sv.rd = lv.rd ∧
      sv.ad = lv.ad ∧ sv.cd = lv.cd) ∧ (stripEcs = false → sv = lv) := by
  revert h
  fun_cases queriesMatchV sv lv sqe stored query qe stripEcs <;> intro h <;> simp_all

/-- In every run of inserts, evictions, lookups and clears, a probe that hits returns the response of
an insert of the run, younger than its lifetime, with the client's ID and question and the TTLs
counted down. Truncated responses and error responses are not stored. -/
theorem probe_hit_serves_insert (capacity : Nat) (minTtl maxTtl : UInt32)
    (steps : List DnsCache.Step)
    (hsteps : ∀ now ins policy ruleId, .add now ins policy ruleId ∈ steps → Answers ins) :
    (∀ query fast, parseQueryFast query = .ok fast → ∀ now now' collectQname hit probe c',
      ((DnsCache.new capacity minTtl maxTtl).run steps).getIntoWithEcsFallback now now' query fast
        collectQname = .ok (some hit, probe, c') →
      ∃ added ins policy ruleId lifetime offsets readAt, .add added ins policy ruleId ∈ steps ∧
        effectiveTtlAndOffsets ins.packet ins.questionEnd policy.nodataTtl policy.minTtl
          policy.maxTtl = some (lifetime, offsets) ∧
        (readAt = now ∨ readAt = now') ∧ asSecs (readAt - added) < lifetime.toNat ∧
        Served ins.packet ins.questionEnd
          (clampedTtl ins.packet lifetime policy.minTtl policy.maxTtl) query
          (asSecs (readAt - added)) hit.out) ∧
    ∀ (c : DnsCache) now ins policy ruleId,
      isTruncated ins.packet = true ∨ (rcode ins.packet ≠ 0 ∧ rcode ins.packet ≠ 3) →
      c.add now ins policy ruleId = c := by
  constructor
  · intro query fast hfast now now' collectQname hit probe c' hget
    have hq := parseQueryFast_spec hfast
    obtain ⟨stripEcs, entry, readAt, hhit⟩ := DnsCache.probeBy_hit hget
    have hlog : ((DnsCache.new capacity minTtl maxTtl).run steps).Holds (fun _ e =>
        ∃ added ins policy ruleId, .add added ins policy ruleId ∈ steps ∧
          DnsCache.entryOf added ins policy ruleId = some e) :=
      (DnsCache.holds_new capacity minTtl maxTtl).run steps
        (fun added ins policy ruleId e hmem he => ⟨added, ins, policy, ruleId, hmem, he⟩)
    obtain ⟨m, hm, hentry⟩ := hhit.stored
    obtain ⟨added, ins, policy, ruleId, hmem, he⟩ := hlog m hm _ _ hentry
    obtain ⟨-, heff, -, hquery, hqe, -, hinserted⟩ := DnsCache.entryOf_spec he
    obtain ⟨hend, -, hmatch⟩ := queriesMatchV_question hhit.matched
    have hfresh := hhit.fresh
    have hage : (UInt32.ofNat (min (asSecs (readAt - entry.inserted)) 4294967295)).toNat =
        asSecs (readAt - added) := by
      have := entry.ttl.toNat_lt
      rw [UInt32.toNat_ofNat', hinserted] at *
      omega
    refine ⟨added, ins, policy, ruleId, entry.ttl, entry.ttlOffsets, readAt, hmem, heff, hhit.time,
      hinserted ▸ hfresh, ?_⟩
    have := render_served he (hsteps added ins policy ruleId hmem) hq (hqe ▸ hend) (hquery ▸ hmatch)
      (.ofNat (min (asSecs (readAt - entry.inserted)) 4294967295))
    rwa [hage, ← hhit.out] at this
  · intro c now ins policy ruleId h
    simp only [DnsCache.add, DnsCache.entryOf_eq_none h]
    split <;> rfl

/-- A query for the A record of `a`. -/
def sampleQuery : Packet :=
  [0x12, 0x34, 1, 0, 0, 1, 0, 0, 0, 0, 0, 0, 1, 97, 0, 0, 1, 0, 1]

/-- Its answer, one A record with a TTL of a minute. -/
def sampleResponse : Packet :=
  [0x12, 0x34, 0x81, 0x80, 0, 1, 0, 1, 0, 0, 0, 0, 1, 97, 0, 0, 1, 0, 1,
    0xc0, 0x0c, 0, 1, 0, 1, 0, 0, 0, 60, 0, 4, 192, 0, 2, 1]

/-- The insert that answers a query without ECS under its regular key. -/
def sampleInsert (query response : Packet) : CacheInsert where
  key := cacheKey query (fastInfo query) (extractVariant query (fastInfo query).questionEnd) false
  qname := ⟨[97], Utf8.valid_letter⟩
  questionEnd := (fastInfo query).questionEnd
  query := query
  variant := extractVariant query (fastInfo query).questionEnd
  packet := response

theorem probe_hit_serves_insert_sample :
    ∃ hit probe c', ((DnsCache.new 8 0 0).run
        [.add 0 (sampleInsert sampleQuery sampleResponse) ⟨false, 0, 0, 0⟩ 3]).getIntoWithEcsFallback
          5000000000 5000000000 sampleQuery (fastInfo sampleQuery) false =
        .ok (some hit, probe, c') ∧
      ∃ lifetime readAt, asSecs readAt < lifetime.toNat ∧
        Served sampleResponse 19 (clampedTtl sampleResponse lifetime 0 0) sampleQuery (asSecs readAt)
          hit.out := by
  have hget : ∃ hit probe c', ((DnsCache.new 8 0 0).run
      [.add 0 (sampleInsert sampleQuery sampleResponse) ⟨false, 0, 0, 0⟩ 3]).getIntoWithEcsFallback
        5000000000 5000000000 sampleQuery (fastInfo sampleQuery) false =
      .ok (some hit, probe, c') := ⟨_, _, _, by rfl⟩
  obtain ⟨hit, probe, c', hget⟩ := hget
  refine ⟨hit, probe, c', hget, ?_⟩
  have hsteps : ∀ now ins policy ruleId, DnsCache.Step.add now ins policy ruleId ∈
      [DnsCache.Step.add 0 (sampleInsert sampleQuery sampleResponse) ⟨false, 0, 0, 0⟩ 3] →
      Answers ins := by
    intro now ins policy ruleId hmem
    simp only [List.mem_singleton, DnsCache.Step.add.injEq] at hmem
    obtain ⟨-, rfl, -, -⟩ := hmem
    exact ⟨⟨fastInfo sampleQuery, by decide +kernel, rfl⟩, by decide +kernel, by decide +kernel⟩
  obtain ⟨added, ins, policy, ruleId, lifetime, offsets, readAt, hmem, -, -, hage, hserved⟩ :=
    (probe_hit_serves_insert 8 0 0 _ hsteps).1 sampleQuery (fastInfo sampleQuery) (by decide +kernel)
      _ _ _ _ _ _ hget
  simp only [List.mem_singleton, DnsCache.Step.add.injEq] at hmem
  obtain ⟨rfl, rfl, rfl, -⟩ := hmem
  exact ⟨lifetime, readAt, hage, hserved⟩

end PathDns
