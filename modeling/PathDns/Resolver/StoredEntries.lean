import PathDns.Cache.Hit
import PathDns.Cache.Restart
import PathDns.Dns.EcsStrip
import PathDns.Resolver.Leader

/-!
# What leaders store

Every entry a leader stores satisfies `Entry.Stored`, also when ECS was removed from the stored query:
the OPT record lies behind the question, so cutting its options leaves the question in place.
-/

namespace PathDns

open Bytes

theorem length_strip {query stripped : Packet} (h : stripEdnsEcs query = some stripped) :
    stripped.length ≤ query.length := by
  rw [stripEdnsEcs_eq, Option.bind_eq_some_iff] at h
  obtain ⟨loc, hloc, hout⟩ := h
  obtain ⟨hbehind, hstart, hle, hlen⟩ := locateOpt_bounds hloc
  rw [stripEcsFromOpt_eq] at hout
  split_ifs at hout with hecs
  obtain rfl := Option.some.inj hout
  have hnew := length_withoutEcs (slice query loc.rdataStart loc.rdataEnd)
  rw [length_slice hlen] at hnew
  rw [replaceOptRdata_eq (by omega) hle hlen]
  simp only [List.length_append, List.length_take, List.length_drop, length_encU16be]
  omega

theorem cacheQuery_agree (ctx : QueryContext) (strip : Bool) :
    Bytes.Agree ctx.fast.questionEnd ctx.packet
      (cacheQuery ctx.packet ctx.fast.questionEnd ctx.variant strip).1 := by
  have hq := parseQueryFast_spec ctx.accepted
  have hself : Bytes.Agree ctx.fast.questionEnd ctx.packet ctx.packet :=
    ⟨hq.questionEnd_le, hq.questionEnd_le, fun _ _ => rfl⟩
  rw [cacheQuery]
  split_ifs
  · split
    · next stripped hstrip => exact stripEdnsEcs_agree hq.questionEnd_eq hstrip
    · exact hself
  · exact hself

variable {policy : ResolvedCachePolicy}

/-- The query a leader stores, with or without its ECS, holds the whole question. -/
theorem leader_entry_query {added : Nat} {ctx : QueryContext} {target : RouteTarget} {resp : Packet}
    {ruleId : UInt16} {e : Entry}
    (he : DnsCache.entryOf added (leaderInsert ctx target resp) policy ruleId = some e) :
    ctx.fast.questionEnd ≤ e.query.length ∧ e.query.length ≤ ctx.packet.length ∧
      e.variant = extractVariant e.query ctx.fast.questionEnd := by
  obtain ⟨-, -, -, hequery, -, hvariant, -⟩ := DnsCache.entryOf_spec he
  rw [hequery, hvariant]
  refine ⟨(cacheQuery_agree ctx _).right, ?_⟩
  simp only [leaderInsert, cacheQuery]
  split_ifs with hecs
  · split
    · next stripped hstrip => exact ⟨length_strip hstrip, rfl⟩
    · exact ⟨le_refl _, ctx.variant_eq⟩
  · exact ⟨le_refl _, ctx.variant_eq⟩

/-- What a leader stores is what the cache file expects. -/
theorem leader_entry_stored {added now : Nat} (hnow : added ≤ now) {ctx : QueryContext} {target : RouteTarget}
    {resp : Packet} {ruleId : UInt16} {e : Entry}
    (he : DnsCache.entryOf added (leaderInsert ctx target resp) policy ruleId = some e)
    (hquery : ctx.packet.length < 256 ^ 4) (hqname : ctx.qname.bytes.length < 256 ^ 4)
    (hresp : ((stripOptRdata resp).getD resp).length < 256 ^ 4) : e.Stored now := by
  have hq := parseQueryFast_spec ctx.accepted
  obtain ⟨-, heff, hpacket, -, hend, -, hinserted⟩ := DnsCache.entryOf_spec he
  obtain ⟨hgood, -, rs, hrs, hoffsets⟩ := effectiveTtlAndOffsets_spec heff
  have hsize : e.packet.length = ((stripOptRdata resp).getD resp).length := by
    rw [hpacket, length_setId]
    rfl
  obtain ⟨hfields, hpair⟩ := ttlOffsets_layout hresp
    (clampedTtl ((stripOptRdata resp).getD resp) e.ttl policy.minTtl policy.maxTtl) hrs
  have hstored := leader_entry_query he
  have hqe : e.questionEnd = ctx.fast.questionEnd := hend
  have hcount : e.ttlOffsets.length < 256 ^ 4 := by
    have hin : ∀ o ∈ e.ttlOffsets, 0 ≤ o.1.toNat ∧
        o.1.toNat + 4 ≤ ((stripOptRdata resp).getD resp).length := by
      intro o ho
      rw [hoffsets, List.mem_map] at ho
      obtain ⟨rr, hrr, rfl⟩ := ho
      obtain ⟨hoff, -, hfit⟩ := hfields rr hrr
      have hfit' : rr.nameEnd + 10 ≤ ((stripOptRdata resp).getD resp).length := hfit
      rw [hoff]
      omega
    have := length_offsets_le hin (hoffsets ▸ hpair) (Nat.zero_le _)
    omega
  exact {
    past := by rw [hinserted]; exact hnow
    question_ge := by rw [hqe]; have := hq.questionEnd_ge; omega
    question_le := by rw [hqe]; exact hstored.1
    variant := by rw [hqe]; exact hstored.2.2
    packetSize := by rw [hsize]; exact hresp
    querySize := lt_of_le_of_lt hstored.2.1 hquery
    qnameSize := by
      have hname : e.qname = ctx.qname := DnsCache.entryOf_qname he
      rw [hname]
      exact hqname
    offsetsSize := hcount
    fit := by
      intro o ho
      rw [hoffsets, List.mem_map] at ho
      obtain ⟨rr, hrr, rfl⟩ := ho
      obtain ⟨hoff, -, hfit⟩ := hfields rr hrr
      have hfit' : rr.nameEnd + 10 ≤ ((stripOptRdata resp).getD resp).length := hfit
      rw [hsize, hoff]
      omega
    disjoint := hoffsets ▸ hpair }

end PathDns
