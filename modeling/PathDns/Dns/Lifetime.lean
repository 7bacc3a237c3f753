import PathDns.Dns.Ttl

/-!
# The lifetime of a response (`dns/ttl.rs`)

`effective_ttl_and_offsets` accepts a NOERROR or NXDOMAIN reply whose records all parse, pairs the TTL field
of every non-OPT record with its clamped TTL, and takes the lifetime from the answer section, or from the SOA
record of the authority section when there is no answer. It asks whether the answer section is empty, not
whether the name exists: an NXDOMAIN reply with a CNAME record lives as long as that record.
-/

namespace PathDns

open Bytes

variable {packet : Packet}

theorem isGoodReply_iff :
    isGoodReply packet = true ↔
      isReply packet = true ∧ 12 ≤ packet.length ∧ (rcode packet = 0 ∨ rcode packet = 3) := by
  rw [isGoodReply]
  split_ifs with h
  · simp only [Bool.or_eq_true, Bool.not_eq_true', decide_eq_true_eq] at h
    rcases h with h | h
    · simp [h]
    · simp [show ¬ 12 ≤ packet.length by omega]
  · simp only [Bool.or_eq_true, Bool.not_eq_true', decide_eq_true_eq, not_or] at h
    simp [show isReply packet = true by simpa using h.1, show 12 ≤ packet.length by omega]

/-- With a sound pair of bounds every clamped TTL lies between them. -/
theorem clampTtl_bounds {minTtl maxTtl : UInt32} (h : minTtl ≤ maxTtl ∨ maxTtl = 0) (raw : UInt32) :
    minTtl ≤ clampTtl minTtl maxTtl raw ∧ (maxTtl = 0 ∨ clampTtl minTtl maxTtl raw ≤ maxTtl) := by
  have hmax : minTtl ≤ max raw minTtl := by
    change minTtl ≤ if raw ≤ minTtl then minTtl else raw
    split_ifs with hle
    · exact UInt32.le_refl minTtl
    · exact UInt32.le_of_lt (UInt32.not_le.mp hle)
  rw [clampTtl]
  split_ifs with hpos
  · have hle : minTtl ≤ maxTtl := by
      rcases h with h | h
      · exact h
      · subst h
        exact absurd hpos (UInt32.lt_irrefl 0)
    exact ⟨Std.le_min_iff.mpr ⟨hmax, hle⟩, .inr Std.min_le_right⟩
  · exact ⟨hmax, .inl (by simpa using hpos)⟩

/-! ### The whole result -/

/-- The non-OPT records of the answer section. -/
def answerRecords (packet : Packet) (rs : List Rr) : List Rr := ttlRecords (rs.take (u16be packet 6))

/-- `v` is the smallest clamped TTL of the records. -/
def LeastTtl (minTtl maxTtl : UInt32) (rs : List Rr) (v : UInt32) : Prop :=
  (∃ r ∈ rs, clampTtl minTtl maxTtl (.ofNat r.ttl) = v) ∧
    ∀ r ∈ rs, v ≤ clampTtl minTtl maxTtl (.ofNat r.ttl)

variable {rs : List Rr}

theorem min?_eq_some_iff_leastTtl {minTtl maxTtl v : UInt32} :
    (rs.map (fun r => clampTtl minTtl maxTtl (.ofNat r.ttl))).min? = some v ↔
      LeastTtl minTtl maxTtl rs v := by
  rw [List.min?_eq_some_iff, LeastTtl, List.mem_map]
  refine and_congr_right' ⟨fun h r hr => h _ (List.mem_map_of_mem hr), fun h b hb => ?_⟩
  obtain ⟨r, hr, rfl⟩ := List.mem_map.mp hb
  exact h r hr

/-- The lifetime and the pairs for a response with the records `rs`. The pairs are the TTL fields of the
non-OPT records in order, inside the packet and disjoint (an offset is 32 bits wide, more than a packet has);
the TTLs respect sound bounds; without answers all of them are the lifetime; with answers that have a TTL the
lifetime is the smallest of theirs. -/
structure TtlResult (packet : Packet) (minTtl maxTtl : UInt32) (rs : List Rr) (ttl : UInt32)
    (offsets : TtlOffsets) : Prop where
  positions : packet.length < 2 ^ 32 →
    offsets.map (fun o => o.1.toNat) = (ttlRecords rs).map (fun r => r.nameEnd + 4)
  inside : packet.length < 2 ^ 32 → ∀ o ∈ offsets, o.1.toNat + 4 ≤ packet.length
  disjoint : packet.length < 2 ^ 32 → offsets.Pairwise (fun o p => o.1.toNat + 4 ≤ p.1.toNat)
  bounds : minTtl ≤ maxTtl ∨ maxTtl = 0 →
    ∀ o ∈ offsets, minTtl ≤ o.2 ∧ (maxTtl = 0 ∨ o.2 ≤ maxTtl)
  negative : u16be packet 6 = 0 → ∀ o ∈ offsets, o.2 = ttl
  positive : answerRecords packet rs ≠ [] → LeastTtl minTtl maxTtl (answerRecords packet rs) ttl

theorem clampedTtl_eq (packet : Packet) (nodata minTtl maxTtl : UInt32) (rs : List Rr) (r : Rr) :
    ∃ raw, clampedTtl packet (entryTtl packet nodata minTtl maxTtl rs) minTtl maxTtl r =
      clampTtl minTtl maxTtl raw := by
  rw [clampedTtl]
  split_ifs with han
  · rw [entryTtl, if_pos han]
    exact ⟨_, rfl⟩
  · exact ⟨_, rfl⟩

theorem ttlResult_of_records {qe : Nat} (nodata minTtl maxTtl : UInt32)
    (hrs : sectionRecords packet qe = some rs) :
    TtlResult packet minTtl maxTtl rs (entryTtl packet nodata minTtl maxTtl rs)
      ((ttlRecords rs).map (fun r => (.ofNat (r.nameEnd + 4),
        clampedTtl packet (entryTtl packet nodata minTtl maxTtl rs) minTtl maxTtl r))) := by
  constructor
  · intro hsize
    obtain ⟨hfields, -⟩ := ttlOffsets_layout hsize (fun _ => 0) hrs
    rw [List.map_map]
    exact List.map_congr_left (fun r hr => (hfields r hr).1)
  · intro hsize o ho
    obtain ⟨hfields, -⟩ := ttlOffsets_layout hsize (fun _ => 0) hrs
    obtain ⟨r, hr, rfl⟩ := List.mem_map.mp ho
    have := hfields r hr
    simp only
    omega
  · intro hsize
    exact (ttlOffsets_layout hsize _ hrs).2
  · intro hsound o ho
    obtain ⟨r, -, rfl⟩ := List.mem_map.mp ho
    obtain ⟨raw, hraw⟩ := clampedTtl_eq packet nodata minTtl maxTtl rs r
    simp only [hraw]
    exact clampTtl_bounds hsound raw
  · intro han o ho
    obtain ⟨r, -, rfl⟩ := List.mem_map.mp ho
    exact if_pos han
  · intro hsome
    have han : u16be packet 6 ≠ 0 := by
      intro h0
      rw [answerRecords, h0] at hsome
      exact hsome rfl
    rw [entryTtl, if_neg han, ← answerRecords]
    cases hmin : ((answerRecords packet rs).map
        (fun r => clampTtl minTtl maxTtl (.ofNat r.ttl))).min? with
    | none => exact absurd (List.map_eq_nil_iff.mp (List.min?_eq_none_iff.mp hmin)) hsome
    | some v => exact min?_eq_some_iff_leastTtl.mp hmin

/-- When `effective_ttl_and_offsets` returns a result, and which. -/
theorem effectiveTtlAndOffsets_iff (packet : Packet) (qe : Nat) (nodata minTtl maxTtl : UInt32) :
    ((∃ result, effectiveTtlAndOffsets packet qe nodata minTtl maxTtl = some result) ↔
      isReply packet = true ∧ 12 ≤ packet.length ∧ (rcode packet = 0 ∨ rcode packet = 3) ∧
        qe ≤ packet.length ∧ ∃ rs, sectionRecords packet qe = some rs) ∧
    ∀ ttl offsets, effectiveTtlAndOffsets packet qe nodata minTtl maxTtl = some (ttl, offsets) →
      ∃ rs, sectionRecords packet qe = some rs ∧ TtlResult packet minTtl maxTtl rs ttl offsets := by
  rw [effectiveTtlAndOffsets_eq]
  constructor
  · constructor
    · rintro ⟨result, h⟩
      split_ifs at h with hgood
      obtain ⟨rs, hrs, -⟩ := Option.map_eq_some_iff.mp h
      obtain ⟨hreply, hlen, hrcode⟩ := isGoodReply_iff.mp hgood.1
      exact ⟨hreply, hlen, hrcode, hgood.2, rs, hrs⟩
    · rintro ⟨hreply, hlen, hrcode, hqe, rs, hrs⟩
      rw [if_pos ⟨isGoodReply_iff.mpr ⟨hreply, hlen, hrcode⟩, hqe⟩, hrs]
      exact ⟨_, rfl⟩
  · intro ttl offsets h
    split_ifs at h with hgood
    obtain ⟨rs, hrs, heq⟩ := Option.map_eq_some_iff.mp h
    obtain ⟨rfl, rfl⟩ := Prod.mk.inj heq
    exact ⟨rs, hrs, ttlResult_of_records nodata minTtl maxTtl hrs⟩

/-- A reply to the question for the A record of `a`. -/
def replyWith (rcode ancount nscount : UInt8) (records : List UInt8) : Packet :=
  [0x12, 0x34, 0x81, 0x80 + rcode, 0, 1, 0, ancount, 0, nscount, 0, 0, 1, 97, 0, 0, 1, 0, 1] ++ records

/-- A CNAME record of `a` that points back at it. -/
def cnameRecord (ttl : Nat) : List UInt8 := [0xc0, 12, 0, 5, 0, 1] ++ encU32be ttl ++ [0, 2, 0xc0, 12]

/-- The SOA record of `a` with root names. -/
def soaRecord (ttl minimum : Nat) : List UInt8 :=
  [0xc0, 12, 0, 6, 0, 1] ++ encU32be ttl ++ [0, 22, 0, 0] ++ List.replicate 16 0 ++ encU32be minimum

/-- An NXDOMAIN reply for `a` with a CNAME record of a day and an SOA record of a minute. -/
def cnameNxdomain : Packet := replyWith 3 1 1 (cnameRecord 86400 ++ soaRecord 60 60)

theorem effectiveTtlAndOffsets_iff_cname :
    ∃ rs, sectionRecords cnameNxdomain 19 = some rs ∧
      TtlResult cnameNxdomain 0 0 rs 86400 [(25, 86400), (39, 60)] := by
  refine (effectiveTtlAndOffsets_iff cnameNxdomain 19 0 0 0).2 _ _ ?_
  decide +kernel

/-! ### Negative replies -/

/-- The SOA record of the authority section: the first of that type. -/
def AuthoritySoa (packet : Packet) (rs : List Rr) (soa : Rr) : Prop :=
  (authorityRecords packet rs).find? (fun r => r.rrType == 6) = some soa

instance (packet : Packet) (rs : List Rr) (soa : Rr) : Decidable (AuthoritySoa packet rs soa) :=
  inferInstanceAs (Decidable ((authorityRecords packet rs).find? (fun r => r.rrType == 6) = some soa))

/-- The smallest of the SOA record's TTL, its MINIMUM and three hours, clamped. -/
def negativeTtl (minTtl maxTtl : UInt32) (soa : Rr) (minimum : UInt32) : UInt32 :=
  clampTtl minTtl maxTtl (min (min (.ofNat soa.ttl) minimum) 10800)

theorem findSome?_soaOf {soa : Rr} {minimum : UInt32} (hfind : rs.find? (fun r => r.rrType == 6) = some soa)
    (hminimum : extractSoaMinimum packet soa.rdataStart soa.rrEnd = some minimum) :
    rs.findSome? (soaOf packet) = some (min (.ofNat soa.ttl) minimum) := by
  obtain ⟨htype, front, back, rfl, hfront⟩ := List.find?_eq_some_iff_append.mp hfind
  have hnone : front.findSome? (soaOf packet) = none := by
    rw [List.findSome?_eq_none_iff]
    intro r hr
    have := hfront r hr
    exact if_neg (by simpa using this)
  have hsoa : soaOf packet soa = some (min (.ofNat soa.ttl) minimum) := by
    rw [soaOf, if_pos (by simpa using htype), hminimum]
    rfl
  rw [List.findSome?_append, hnone, Option.none_or, List.findSome?_cons, hsoa]

/-- An NXDOMAIN reply that parses, with an SOA record in its authority section whose RDATA holds a MINIMUM,
lives for its negative TTL exactly when it has no answer records, or when these happen to give the same
lifetime: by their smallest clamped TTL, or by the no-data TTL when none of them has a TTL. -/
theorem nxdomain_lifetime_iff {packet : Packet} {qe : Nat} {rs : List Rr} {soa : Rr} {minimum : UInt32}
    (nodata minTtl maxTtl : UInt32) (hreply : isReply packet = true) (hrcode : rcode packet = 3)
    (hqe : qe ≤ packet.length) (hrs : sectionRecords packet qe = some rs)
    (hsoa : AuthoritySoa packet rs soa)
    (hminimum : extractSoaMinimum packet soa.rdataStart soa.rrEnd = some minimum) :
    (effectiveTtlAndOffsets packet qe nodata minTtl maxTtl).map Prod.fst =
        some (negativeTtl minTtl maxTtl soa minimum) ↔
      u16be packet 6 = 0 ∨
        LeastTtl minTtl maxTtl (answerRecords packet rs) (negativeTtl minTtl maxTtl soa minimum) ∨
        (answerRecords packet rs = [] ∧ nodata = negativeTtl minTtl maxTtl soa minimum) := by
  have hlen : 12 ≤ packet.length := by
    rw [isReply, Bool.and_eq_true, decide_eq_true_eq] at hreply
    exact hreply.1
  have hgood : isGoodReply packet = true := isGoodReply_iff.mpr ⟨hreply, hlen, .inr hrcode⟩
  rw [effectiveTtlAndOffsets_eq, if_pos ⟨hgood, hqe⟩, hrs, Option.map_some, Option.map_some,
    Option.some.injEq]
  by_cases han : u16be packet 6 = 0
  · simp only [han, true_or, iff_true]
    rw [entryTtl, if_pos han, findSome?_soaOf hsoa hminimum]
    rfl
  · rw [entryTtl, if_neg han, ← answerRecords]
    simp only [han, false_or]
    cases hmin : ((answerRecords packet rs).map
        (fun r => clampTtl minTtl maxTtl (.ofNat r.ttl))).min? with
    | none =>
      have hnil := List.map_eq_nil_iff.mp (List.min?_eq_none_iff.mp hmin)
      simp [hnil, LeastTtl]
    | some v =>
      have hleast := min?_eq_some_iff_leastTtl.mp hmin
      have hsome : answerRecords packet rs ≠ [] := by
        intro hnil
        rw [hnil] at hmin
        simp at hmin
      simp only [Option.getD_some, hsome, false_and, or_false, ← min?_eq_some_iff_leastTtl, hmin,
        Option.some.injEq]

theorem nxdomain_lifetime_iff_bare :
    (effectiveTtlAndOffsets (replyWith 3 0 1 (soaRecord 90000 60)) 19 0 0 0).map Prod.fst = some 60 := by
  have hrs : sectionRecords (replyWith 3 0 1 (soaRecord 90000 60)) 19 =
      some [⟨21, 6, 1, 90000, 31, 53⟩] := by decide +kernel
  have hsoa : AuthoritySoa (replyWith 3 0 1 (soaRecord 90000 60)) [⟨21, 6, 1, 90000, 31, 53⟩]
      ⟨21, 6, 1, 90000, 31, 53⟩ := by decide +kernel
  have hminimum : extractSoaMinimum (replyWith 3 0 1 (soaRecord 90000 60)) 31 53 = some 60 := by
    decide +kernel
  exact (nxdomain_lifetime_iff 0 0 0 (by decide +kernel) (by decide +kernel) (by decide +kernel) hrs hsoa
    hminimum).mpr (.inl (by decide +kernel))

/-- An NXDOMAIN reply with a CNAME record is kept for a day, with an SOA record that allows a minute. -/
theorem nxdomain_lifetime_of_cname :
    isReply cnameNxdomain = true ∧ rcode cnameNxdomain = 3 ∧
    (sectionRecords cnameNxdomain 19).map (authorityRecords cnameNxdomain) =
      some [⟨35, 6, 1, 60, 45, 67⟩] ∧
    extractSoaMinimum cnameNxdomain 45 67 = some 60 ∧
    (effectiveTtlAndOffsets cnameNxdomain 19 0 0 0).map Prod.fst = some 86400 := by
  decide +kernel

end PathDns
