import PathDns.Config.Types
import PathDns.Dns.Query

/-!
# Records and TTLs (`dns/ttl.rs`)

The record walkers and the TTL scan that runs when a response is cached. `recordsFrom` is the plain
reading of a run of records with `parse_rr`; `ttlOffsetsAndSoa_spec` says that the scan sees exactly
those records, and `recordsFrom_layout` that they lie one behind the other inside the packet.
-/

namespace PathDns

open Bytes

/-- `TtlOffsets`: pairs of the byte offset of a TTL field and the TTL it is to be counted down from. -/
abbrev TtlOffsets := List (UInt32 × UInt32)

def rcode (packet : Packet) : Nat := if packet.length < 4 then 0 else (byteAt packet 3 &&& 0x0f).toNat

def isGoodReply (packet : Packet) : Bool :=
  if !isReply packet || packet.length < 12 then false
  else rcode packet == 0 || rcode packet == 3

/-- What `parse_rr` returns for one record; `nameEnd` is where its fixed header starts. -/
structure Rr where
  nameEnd : Nat
  rrType : Nat
  cls : Nat
  ttl : Nat
  rdataStart : Nat
  rrEnd : Nat
deriving DecidableEq, Repr

def parseRr (packet : Packet) (pos : Nat) : Option Rr :=
  match skipName packet pos with
  | none => none
  | some nameEnd =>
    if packet.length < nameEnd + 10 then none
    else
      let rdlen := u16be packet (nameEnd + 8)
      let rdataStart := nameEnd + 10
      let rrEnd := rdataStart + rdlen
      if packet.length < rrEnd then none
      else some {
        nameEnd := nameEnd
        rrType := u16be packet nameEnd
        cls := u16be packet (nameEnd + 2)
        ttl := u32be packet (nameEnd + 4)
        rdataStart := rdataStart
        rrEnd := rrEnd }

/-- The record loop of `answer_ips`. -/
def answerIpsLoop (packet : Packet) : Nat → Nat → List IpAddr → List IpAddr
  | 0, _, ips => ips
  | n + 1, pos, ips =>
    match parseRr packet pos with
    | none => ips
    | some rr =>
      let ips :=
        if rr.rrType = 1 ∧ rr.rrEnd - rr.rdataStart = 4 then
          ips ++ [.v4 (BitVec.ofNat 32 (decBe (slice packet rr.rdataStart rr.rrEnd)))]
        else if rr.rrType = 28 ∧ rr.rrEnd - rr.rdataStart = 16 then
          ips ++ [.v6 (BitVec.ofNat 128 (decBe (slice packet rr.rdataStart rr.rrEnd)))]
        else ips
      answerIpsLoop packet n rr.rrEnd ips

def answerIps (packet : Packet) (questionEnd : Nat) : List IpAddr :=
  if packet.length < 12 ∨ packet.length < questionEnd then []
  else answerIpsLoop packet (u16be packet 6) questionEnd []

/-- The record loop of `answer_rr_types`. -/
def answerRrTypesLoop (packet : Packet) : Nat → Nat → List Nat → List Nat
  | 0, _, types => types
  | n + 1, pos, types =>
    match parseRr packet pos with
    | none => types
    | some rr =>
      answerRrTypesLoop packet n rr.rrEnd (if rr.rrType ∈ types then types else types ++ [rr.rrType])

def answerRrTypes (packet : Packet) (questionEnd : Nat) : List Nat :=
  if packet.length < 12 ∨ packet.length < questionEnd then []
  else answerRrTypesLoop packet (u16be packet 6) questionEnd []

def questionQclass (packet : Packet) (questionEnd : Nat) : Option Nat :=
  if questionEnd < 2 ∨ packet.length < questionEnd then none
  else some (u16be packet (questionEnd - 2))

def extractSoaMinimum (packet : Packet) (rdata rdataEnd : Nat) : Option UInt32 :=
  match skipName packet rdata with
  | none => none
  | some p =>
    match skipName packet p with
    | none => none
    | some p => if rdataEnd < p + 20 then none else some (.ofNat (u32be packet (p + 16)))

/-- What `ttl_offsets_and_soa` accumulates: the offset pairs, how many belong to the answer section,
and the SOA-derived TTL. -/
structure TtlScan where
  offsets : TtlOffsets
  anOffsets : Nat
  soaTtl : Option UInt32
deriving DecidableEq, Repr

/-- What the loop of `ttl_offsets_and_soa` does with record number `i`, whose fixed header is at
`fixed`. -/
def TtlScan.record (packet : Packet) (an ns i fixed : Nat) (s : TtlScan) : TtlScan :=
  let rrType := u16be packet fixed
  let rrTtl := UInt32.ofNat (u32be packet (fixed + 4))
  let rdata := fixed + 10
  let rdataEnd := rdata + u16be packet (fixed + 8)
  -- the TTL field of an OPT record is no TTL; `(fixed + 4) as u32` wraps
  let s :=
    if rrType ≠ 41 then
      { s with
        offsets := s.offsets ++ [(.ofNat (fixed + 4), rrTtl)]
        anOffsets := if i < an then s.anOffsets + 1 else s.anOffsets }
    else s
  if rrType = 6 ∧ s.soaTtl = none ∧ an ≤ i ∧ i < an + ns then
    match extractSoaMinimum packet rdata rdataEnd with
    | some minimum => { s with soaTtl := some (min rrTtl minimum) }
    | none => s
  else s

/-- The record loop of `ttl_offsets_and_soa`: `n` records left, `i` the index of the next one. -/
def ttlOffsetsLoop (packet : Packet) (an ns : Nat) : Nat → Nat → Nat → TtlScan → Option TtlScan
  | 0, _, _, s => some s
  | n + 1, i, pos, s =>
    match skipName packet pos with
    | none => none
    | some fixed =>
      if packet.length < fixed + 10 then none
      else
        let rdataEnd := fixed + 10 + u16be packet (fixed + 8)
        if packet.length < rdataEnd then none
        else ttlOffsetsLoop packet an ns n (i + 1) rdataEnd (s.record packet an ns i fixed)

def ttlOffsetsAndSoa (packet : Packet) (questionEnd an ns ar : Nat) : Option TtlScan :=
  if packet.length < 12 ∨ packet.length < questionEnd then none
  else ttlOffsetsLoop packet an ns (an + ns + ar) 0 questionEnd ⟨[], 0, none⟩

/-- The per-record clamp of `effective_ttl_and_offsets`; `maxTtl = 0` means no upper limit. -/
def clampTtl (minTtl maxTtl raw : UInt32) : UInt32 :=
  let v := max raw minTtl
  if 0 < maxTtl then min v maxTtl else v

/-- `effective_ttl_and_offsets`: the entry lifetime and the `(offset, clamped ttl)` pairs. -/
def effectiveTtlAndOffsets (packet : Packet) (questionEnd : Nat)
    (nodataTtl minTtl maxTtl : UInt32) : Option (UInt32 × TtlOffsets) :=
  if !isGoodReply packet then none
  else
    let an := u16be packet 6
    let ns := u16be packet 8
    let ar := u16be packet 10
    match ttlOffsetsAndSoa packet questionEnd an ns ar with
    | none => none
    | some s =>
      if an = 0 then
        -- NODATA / NXDOMAIN: every record shares the SOA-derived TTL, capped at 10800 s
        let soa := min (s.soaTtl.getD nodataTtl) 10800
        let effective := clampTtl minTtl maxTtl soa
        some (effective, s.offsets.map (fun o => (o.1, effective)))
      else
        let offsets := s.offsets.map (fun o => (o.1, clampTtl minTtl maxTtl o.2))
        let entryTtl := ((offsets.take s.anOffsets).map (·.2)).min?.getD nodataTtl
        some (entryTtl, offsets)

/-- `patch_ttls_at`: write `original - elapsed` into each TTL field that fits. -/
def patchTtlsAt (packet : Packet) (offsets : TtlOffsets) (elapsed : UInt32) : Packet :=
  offsets.foldl (fun p o =>
    if o.1.toNat + 4 ≤ p.length then
      patch p o.1.toNat (encU32be (o.2.toNat - elapsed.toNat))
    else p) packet

/-! ### The records of a packet -/

/-- The `n` records from `pos` on, or `none` when one of them does not parse. -/
def recordsFrom (packet : Packet) : Nat → Nat → Option (List Rr)
  | 0, _ => some []
  | n + 1, pos =>
    match parseRr packet pos with
    | none => none
    | some rr => (recordsFrom packet n rr.rrEnd).map (rr :: ·)

/-- The records from `pos` on, `n` at most, up to the first that does not parse. -/
def readable (packet : Packet) : Nat → Nat → List Rr
  | 0, _ => []
  | n + 1, pos =>
    match parseRr packet pos with
    | none => []
    | some r => r :: readable packet n r.rrEnd

variable {packet : Packet} {pos : Nat}

theorem parseRr_eq_some {rr : Rr} (h : parseRr packet pos = some rr) :
    ∃ e, skipName packet pos = some e ∧ e + 10 + u16be packet (e + 8) ≤ packet.length ∧
      rr = ⟨e, u16be packet e, u16be packet (e + 2), u32be packet (e + 4), e + 10,
        e + 10 + u16be packet (e + 8)⟩ := by
  rw [parseRr] at h
  split at h
  · cases h
  · next e he =>
    dsimp only at h
    split_ifs at h with h10 hend
    cases h
    exact ⟨e, he, Nat.le_of_not_lt hend, rfl⟩

theorem parseRr_fields {rr : Rr} (h : parseRr packet pos = some rr) :
    skipName packet pos = some rr.nameEnd ∧ rr.rrType = u16be packet rr.nameEnd ∧
      rr.rdataStart = rr.nameEnd + 10 ∧ rr.rrEnd = rr.rdataStart + u16be packet (rr.nameEnd + 8) ∧
      rr.rrEnd ≤ packet.length := by
  obtain ⟨e, he, hlen, rfl⟩ := parseRr_eq_some h
  exact ⟨he, rfl, rfl, rfl, hlen⟩

theorem parseRr_bounds {rr : Rr} (h : parseRr packet pos = some rr) :
    pos < rr.nameEnd ∧ rr.rdataStart = rr.nameEnd + 10 ∧ rr.rdataStart ≤ rr.rrEnd ∧
      rr.rrEnd ≤ packet.length := by
  obtain ⟨hname, -, hstart, hend, hlen⟩ := parseRr_fields h
  have := skipName_bounds hname
  omega

theorem parseRr_agree {p q : Packet} {k : Nat} {rr : Rr} (h : Agree k p q) (hrr : parseRr p pos = some rr)
    (hend : rr.rrEnd ≤ k) : parseRr q pos = some rr := by
  have hbounds := parseRr_bounds hrr
  have hright := h.right
  obtain ⟨e, he, hlen, rfl⟩ := parseRr_eq_some hrr
  simp only at hend hbounds
  have hu32 : u32be p (e + 4) = u32be q (e + 4) := by
    rw [u32be, u32be, h.u16be_eq (by omega), h.u16be_eq (by omega)]
  rw [parseRr, skipName_agree h he (by omega)]
  simp only [← h.u16be_eq (show e + 1 < k by omega), ← h.u16be_eq (show e + 2 + 1 < k by omega),
    ← h.u16be_eq (show e + 8 + 1 < k by omega), ← hu32]
  rw [if_neg (by omega), if_neg (by omega)]

/-- The record moved by the distance between `i` and `j`. -/
def Rr.shift (i j : Nat) (rr : Rr) : Rr :=
  { rr with
    nameEnd := rr.nameEnd - i + j
    rdataStart := rr.rdataStart - i + j
    rrEnd := rr.rrEnd - i + j }

theorem parseRr_suffix {p q : Packet} {i j : Nat} (hi : i ≤ p.length) (hj : j ≤ q.length)
    (h : p.drop i = q.drop j) : parseRr q j = (parseRr p i).map (Rr.shift i j) := by
  have hlen : p.length - i = q.length - j := by
    simpa only [List.length_drop] using congrArg List.length h
  have hu16 : ∀ n, u16be q (j + n) = u16be p (i + n) := fun n => by
    rw [← u16be_drop, ← u16be_drop, h]
  rw [parseRr, parseRr, skipName_suffix hi hj h]
  cases hname : skipName p i with
  | none => rfl
  | some e =>
    have hb := skipName_bounds hname
    have hmove : ∀ c, u16be q (e - i + j + c) = u16be p (e + c) := fun c => by
      rw [show e - i + j + c = j + (e - i + c) by omega, hu16]
      congr 1
      omega
    have hmove32 : u32be q (e - i + j + 4) = u32be p (e + 4) := by
      rw [u32be, u32be, hmove, Nat.add_assoc, hmove]
    have hmove0 : u16be q (e - i + j) = u16be p e := hmove 0
    simp only [Option.map_some, hmove, hmove32, hmove0]
    by_cases h10 : p.length < e + 10
    · rw [if_pos h10, if_pos (by omega)]
      rfl
    · rw [if_neg h10, if_neg (by omega)]
      by_cases hend : p.length < e + 10 + u16be p (e + 8)
      · rw [if_pos hend, if_pos (by omega)]
        rfl
      · rw [if_neg hend, if_neg (by omega)]
        simp only [Option.map_some, Option.some.injEq, Rr.shift, Rr.mk.injEq, true_and]
        omega

variable {n : Nat} {rs : List Rr}

/-- Nothing is read behind the end. -/
theorem parseRr_of_le (h : packet.length ≤ pos) : parseRr packet pos = none := by
  rw [Option.eq_none_iff_forall_ne_some]
  intro r hr
  have := parseRr_bounds hr
  omega

variable {r : Rr}

theorem readable_eq_cons_iff :
    readable packet n pos = r :: rs ↔
      ∃ m, n = m + 1 ∧ parseRr packet pos = some r ∧ readable packet m r.rrEnd = rs := by
  cases n with
  | zero => simp [readable]
  | succ n =>
    rw [readable]
    cases hr : parseRr packet pos with
    | none => simp
    | some s =>
      simp only [List.cons.injEq, Nat.add_right_cancel_iff, Option.some.injEq]
      constructor
      · rintro ⟨rfl, hrs⟩
        exact ⟨n, rfl, rfl, hrs⟩
      · rintro ⟨m, rfl, rfl, hrs⟩
        exact ⟨rfl, hrs⟩

theorem recordsFrom_eq_some_iff :
    recordsFrom packet n pos = some rs ↔ readable packet n pos = rs ∧ rs.length = n := by
  induction n generalizing pos rs with
  | zero => simp [recordsFrom, readable, eq_comm]
  | succ n ih =>
    rw [recordsFrom, readable]
    cases parseRr packet pos with
    | none => cases rs <;> simp
    | some r =>
      simp only [Option.map_eq_some_iff, ih]
      constructor
      · rintro ⟨tl, ⟨rfl, hlen⟩, rfl⟩
        exact ⟨rfl, by rw [List.length_cons, hlen]⟩
      · rintro ⟨rfl, hlen⟩
        exact ⟨_, ⟨rfl, Nat.succ.inj hlen⟩, rfl⟩

theorem recordsFrom_eq_cons_iff :
    recordsFrom packet n pos = some (r :: rs) ↔
      ∃ m, n = m + 1 ∧ parseRr packet pos = some r ∧ recordsFrom packet m r.rrEnd = some rs := by
  simp only [recordsFrom_eq_some_iff, readable_eq_cons_iff]
  constructor
  · rintro ⟨⟨m, rfl, hr, hrs⟩, hlen⟩
    exact ⟨m, rfl, hr, hrs, Nat.succ.inj hlen⟩
  · rintro ⟨m, rfl, hr, hrs, hlen⟩
    exact ⟨⟨m, rfl, hr, hrs⟩, by rw [List.length_cons, hlen]⟩

theorem mem_readable (h : r ∈ readable packet n pos) : ∃ i, pos ≤ i ∧ parseRr packet i = some r := by
  fun_induction readable packet n pos with
  | case1 => simp at h
  | case2 => simp at h
  | case3 n pos s hs ih =>
    rcases List.mem_cons.mp h with rfl | h
    · exact ⟨pos, Nat.le_refl _, hs⟩
    · obtain ⟨i, hi, hri⟩ := ih h
      have := parseRr_bounds hs
      exact ⟨i, by omega, hri⟩

theorem readable_bounds (h : r ∈ readable packet n pos) :
    pos < r.nameEnd ∧ r.rdataStart = r.nameEnd + 10 ∧ r.rdataStart ≤ r.rrEnd ∧ r.rrEnd ≤ packet.length := by
  obtain ⟨i, hi, hri⟩ := mem_readable h
  have := parseRr_bounds hri
  omega

theorem readable_layout (packet : Packet) (n pos : Nat) :
    (readable packet n pos).Pairwise (fun r s => r.rrEnd < s.nameEnd) := by
  fun_induction readable packet n pos with
  | case1 => exact .nil
  | case2 => exact .nil
  | case3 n pos r hr ih =>
    exact List.pairwise_cons.mpr ⟨fun s hs => (readable_bounds hs).1, ih⟩

theorem recordsFrom_mem (h : recordsFrom packet n pos = some rs) (hr : r ∈ rs) :
    ∃ i, pos ≤ i ∧ parseRr packet i = some r :=
  mem_readable ((recordsFrom_eq_some_iff.mp h).1 ▸ hr)

theorem recordsFrom_bounds (h : recordsFrom packet n pos = some rs) :
    ∀ r ∈ rs, pos < r.nameEnd ∧ r.rdataStart = r.nameEnd + 10 ∧ r.rdataStart ≤ r.rrEnd ∧
      r.rrEnd ≤ packet.length :=
  fun _ hr => readable_bounds ((recordsFrom_eq_some_iff.mp h).1 ▸ hr)

theorem recordsFrom_rdata_lt (h : recordsFrom packet n pos = some rs) :
    ∀ r ∈ rs, r.rrEnd < r.rdataStart + 65536 := by
  intro r hr
  obtain ⟨i, -, hri⟩ := recordsFrom_mem h hr
  have := (parseRr_fields hri).2.2.2.1
  have := u16be_lt packet (r.nameEnd + 8)
  omega

theorem recordsFrom_layout (h : recordsFrom packet n pos = some rs) :
    rs.Pairwise (fun r s => r.rrEnd < s.nameEnd) :=
  (recordsFrom_eq_some_iff.mp h).1 ▸ readable_layout packet n pos

/-- The non-OPT records, whose TTL fields a cache hit counts down. -/
def ttlRecords (rs : List Rr) : List Rr := rs.filter (fun r => r.rrType ≠ 41)

theorem TtlScan.record_offsets (packet : Packet) (an ns i fixed : Nat) (s : TtlScan) :
    (s.record packet an ns i fixed).offsets =
      s.offsets ++ if u16be packet fixed = 41 then [] else
        [(.ofNat (fixed + 4), .ofNat (u32be packet (fixed + 4)))] := by
  by_cases hopt : u16be packet fixed = 41
  · simp [record, hopt]
  · simp only [record, ne_eq, hopt, not_false_eq_true, if_true, if_false]
    split
    · split <;> rfl
    · rfl

theorem TtlScan.record_anOffsets (packet : Packet) (an ns i fixed : Nat) (s : TtlScan) :
    (s.record packet an ns i fixed).anOffsets =
      s.anOffsets + if u16be packet fixed = 41 then 0 else if i < an then 1 else 0 := by
  by_cases hopt : u16be packet fixed = 41
  · simp [record, hopt]
  · simp only [record, ne_eq, hopt, not_false_eq_true, if_true, if_false]
    split
    · split <;> (simp only; split <;> rfl)
    · simp only
      split <;> rfl

/-- The SOA-derived TTL of a record, none when it is no SOA record or its RDATA holds no MINIMUM. -/
def soaOf (packet : Packet) (r : Rr) : Option UInt32 :=
  if r.rrType = 6 then (extractSoaMinimum packet r.rdataStart r.rrEnd).map (min (.ofNat r.ttl)) else none

/-- The fields of the record are those the packet has at its place. -/
structure Rr.ReadFrom (packet : Packet) (r : Rr) : Prop where
  rrType : r.rrType = u16be packet r.nameEnd
  ttl : r.ttl = u32be packet (r.nameEnd + 4)
  rdataStart : r.rdataStart = r.nameEnd + 10
  rrEnd : r.rrEnd = r.rdataStart + u16be packet (r.nameEnd + 8)

theorem recordsFrom_readFrom (h : recordsFrom packet n pos = some rs) : ∀ r ∈ rs, r.ReadFrom packet := by
  intro r hr
  obtain ⟨i, -, hri⟩ := recordsFrom_mem h hr
  obtain ⟨e, -, -, rfl⟩ := parseRr_eq_some hri
  exact ⟨rfl, rfl, rfl, rfl⟩

theorem TtlScan.record_soaTtl {r : Rr} (h : r.ReadFrom packet) (an ns i : Nat) (s : TtlScan) :
    (s.record packet an ns i r.nameEnd).soaTtl =
      s.soaTtl.or (if an ≤ i ∧ i < an + ns then soaOf packet r else none) := by
  have hsoa : ∀ t : TtlScan, t.soaTtl = s.soaTtl →
      (if u16be packet r.nameEnd = 6 ∧ t.soaTtl = none ∧ an ≤ i ∧ i < an + ns then
        match extractSoaMinimum packet (r.nameEnd + 10) (r.nameEnd + 10 + u16be packet (r.nameEnd + 8)) with
        | some minimum =>
          { t with soaTtl := some (min (UInt32.ofNat (u32be packet (r.nameEnd + 4))) minimum) }
        | none => t
      else t).soaTtl = s.soaTtl.or (if an ≤ i ∧ i < an + ns then soaOf packet r else none) := by
    intro t ht
    rw [soaOf, h.rrEnd, h.rdataStart, h.rrType, h.ttl]
    cases hs : s.soaTtl with
    | some v => simp [ht, hs]
    | none =>
      by_cases hin : an ≤ i ∧ i < an + ns
      · by_cases h6 : u16be packet r.nameEnd = 6
        · simp only [h6, ht, hs, hin, and_self, if_true, Option.none_or]
          cases extractSoaMinimum packet (r.nameEnd + 10) (r.nameEnd + 10 + u16be packet (r.nameEnd + 8)) with
          | none => simp [ht, hs]
          | some m => rfl
        · simp [h6, hin, ht, hs]
      · rw [if_neg (fun hc => hin hc.2.2), if_neg hin, ht, hs]
        rfl
  rw [record]
  refine hsoa _ ?_
  split_ifs <;> rfl

/-- The scan over records that have been read, `i` the index of the first. -/
def TtlScan.records (packet : Packet) (an ns : Nat) : Nat → List Rr → TtlScan → TtlScan
  | _, [], s => s
  | i, r :: rs, s => TtlScan.records packet an ns (i + 1) rs (s.record packet an ns i r.nameEnd)

/-- The loop scans the records that can be read, if all can. -/
theorem ttlOffsetsLoop_eq (packet : Packet) (an ns n i pos : Nat) (s : TtlScan) :
    ttlOffsetsLoop packet an ns n i pos s =
      (recordsFrom packet n pos).map (fun rs => TtlScan.records packet an ns i rs s) := by
  induction n generalizing i pos s with
  | zero => rfl
  | succ n ih =>
    rw [ttlOffsetsLoop, recordsFrom, parseRr]
    cases skipName packet pos with
    | none => rfl
    | some fixed =>
      dsimp only
      split_ifs with h10 hend
      · rfl
      · rfl
      · rw [ih, Option.map_map]
        rfl

theorem TtlScan.records_offsets (h : ∀ r ∈ rs, r.ReadFrom packet) (an ns i : Nat) (s : TtlScan) :
    (TtlScan.records packet an ns i rs s).offsets =
      s.offsets ++ (ttlRecords rs).map (fun r => (.ofNat (r.nameEnd + 4), .ofNat r.ttl)) := by
  induction rs generalizing i s with
  | nil => simp [records, ttlRecords]
  | cons r rs ih =>
    have hr := h r List.mem_cons_self
    rw [records, ih (fun x hx => h x (List.mem_cons_of_mem _ hx)), record_offsets, List.append_assoc,
      ← hr.rrType, ← hr.ttl]
    by_cases hopt : r.rrType = 41 <;> simp [ttlRecords, hopt]

theorem TtlScan.records_anOffsets (h : ∀ r ∈ rs, r.ReadFrom packet) (an ns i : Nat) (s : TtlScan) :
    (TtlScan.records packet an ns i rs s).anOffsets =
      s.anOffsets + (ttlRecords (rs.take (an - i))).length := by
  induction rs generalizing i s with
  | nil => simp [records, ttlRecords]
  | cons r rs ih =>
    rw [records, ih (fun x hx => h x (List.mem_cons_of_mem _ hx)), record_anOffsets,
      ← (h r List.mem_cons_self).rrType]
    rcases Nat.lt_or_ge i an with hi | hi
    · rw [show an - i = (an - (i + 1)) + 1 by omega, List.take_succ_cons]
      by_cases hopt : r.rrType = 41
      · simp [ttlRecords, hopt]
      · simp [ttlRecords, hopt, hi]
        omega
    · simp [show an - i = 0 by omega, show an - (i + 1) = 0 by omega, Nat.not_lt.mpr hi, ttlRecords]

theorem TtlScan.records_soaTtl (h : ∀ r ∈ rs, r.ReadFrom packet) (an ns i : Nat) (s : TtlScan) :
    (TtlScan.records packet an ns i rs s).soaTtl =
      s.soaTtl.or (((rs.take (an + ns - i)).drop (an - i)).findSome? (soaOf packet)) := by
  induction rs generalizing i s with
  | nil => simp [records]
  | cons r rs ih =>
    rw [records, ih (fun x hx => h x (List.mem_cons_of_mem _ hx)), record_soaTtl (h r List.mem_cons_self),
      Option.or_assoc]
    congr 1
    rcases Nat.lt_or_ge i an with hi | hi
    · rw [if_neg (by omega), show an + ns - i = (an + ns - (i + 1)) + 1 by omega,
        show an - i = (an - (i + 1)) + 1 by omega, List.take_succ_cons, List.drop_succ_cons, Option.none_or]
    · rcases Nat.lt_or_ge i (an + ns) with hns | hns
      · rw [if_pos ⟨hi, hns⟩, show an + ns - i = (an + ns - (i + 1)) + 1 by omega, show an - i = 0 by omega,
          show an - (i + 1) = 0 by omega, List.take_succ_cons, List.drop_zero, List.drop_zero,
          List.findSome?_cons]
        cases soaOf packet r <;> rfl
      · rw [if_neg (by omega), show an + ns - i = 0 by omega, show an + ns - (i + 1) = 0 by omega]
        simp

/-! ### What is recorded at insertion -/

/-- The TTL a record is cached with: its own TTL clamped, or the negative TTL when the response has no
answers. -/
def clampedTtl (packet : Packet) (effective minTtl maxTtl : UInt32) (r : Rr) : UInt32 :=
  if u16be packet 6 = 0 then effective else clampTtl minTtl maxTtl (.ofNat r.ttl)

/-- The records of the answer, authority and additional sections. -/
def sectionRecords (packet : Packet) (questionEnd : Nat) : Option (List Rr) :=
  recordsFrom packet (u16be packet 6 + u16be packet 8 + u16be packet 10) questionEnd

/-- The records of the authority section. -/
def authorityRecords (packet : Packet) (rs : List Rr) : List Rr :=
  (rs.take (u16be packet 6 + u16be packet 8)).drop (u16be packet 6)

/-- The lifetime of a response with the records `rs`: without answers the SOA-derived TTL, else the smallest
clamped TTL of the answer section. -/
def entryTtl (packet : Packet) (nodataTtl minTtl maxTtl : UInt32) (rs : List Rr) : UInt32 :=
  if u16be packet 6 = 0 then
    clampTtl minTtl maxTtl
      (min (((authorityRecords packet rs).findSome? (soaOf packet)).getD nodataTtl) 10800)
  else
    (((ttlRecords (rs.take (u16be packet 6))).map (fun r => clampTtl minTtl maxTtl (.ofNat r.ttl))).min?).getD
      nodataTtl

theorem ttlRecords_append (rs ss : List Rr) : ttlRecords (rs ++ ss) = ttlRecords rs ++ ttlRecords ss :=
  List.filter_append ..

/-- What `effective_ttl_and_offsets` returns, in terms of the records: only for a reply with RCODE NOERROR
or NXDOMAIN whose records all parse, the lifetime and the TTL field of each non-OPT record with its TTL. -/
theorem effectiveTtlAndOffsets_eq (packet : Packet) (qe : Nat) (nodata minTtl maxTtl : UInt32) :
    effectiveTtlAndOffsets packet qe nodata minTtl maxTtl =
      if isGoodReply packet = true ∧ qe ≤ packet.length then
        (sectionRecords packet qe).map (fun rs =>
          (entryTtl packet nodata minTtl maxTtl rs, (ttlRecords rs).map (fun r =>
            (.ofNat (r.nameEnd + 4),
              clampedTtl packet (entryTtl packet nodata minTtl maxTtl rs) minTtl maxTtl r))))
      else none := by
  rw [effectiveTtlAndOffsets]
  by_cases hgood : isGoodReply packet = true
  · have hlen : ¬ packet.length < 12 := by
      rw [isGoodReply] at hgood
      split_ifs at hgood with h
      simp only [Bool.or_eq_true, decide_eq_true_eq, not_or] at h
      exact h.2
    simp only [hgood, Bool.not_true, Bool.false_eq_true, if_false, true_and, ttlOffsetsAndSoa, hlen, false_or]
    by_cases hqe : qe ≤ packet.length
    · rw [if_neg (Nat.not_lt.mpr hqe), if_pos hqe, ttlOffsetsLoop_eq, ← sectionRecords]
      cases hrs : sectionRecords packet qe with
      | none => rfl
      | some rs =>
        have hread := recordsFrom_readFrom hrs
        simp only [Option.map_some, TtlScan.records_offsets hread, TtlScan.records_anOffsets hread,
          TtlScan.records_soaTtl hread, List.nil_append, Nat.sub_zero, Nat.zero_add, Option.none_or,
          List.map_map]
        by_cases han : u16be packet 6 = 0
        · simp only [han, if_true, entryTtl, clampedTtl, authorityRecords]
          rfl
        · have htake : ((ttlRecords rs).map fun r : Rr => (UInt32.ofNat (r.nameEnd + 4),
              clampTtl minTtl maxTtl (.ofNat r.ttl))).take (ttlRecords (rs.take (u16be packet 6))).length =
              (ttlRecords (rs.take (u16be packet 6))).map (fun r : Rr => (UInt32.ofNat (r.nameEnd + 4),
                clampTtl minTtl maxTtl (.ofNat r.ttl))) := by
            conv_lhs => rw [← List.take_append_drop (u16be packet 6) rs, ttlRecords_append, List.map_append]
            rw [List.take_left' (by rw [List.length_map, List.take_append_drop])]
          simp only [han, if_false, entryTtl, clampedTtl, Function.comp_def, htake, List.map_map]
    · rw [if_pos (by omega), if_neg hqe]
  · simp [hgood]

variable {offsets : TtlOffsets}

/-- The stored pairs are the TTL fields of the non-OPT records, each with its clamped TTL; only a
reply with RCODE NOERROR or NXDOMAIN gets that far. -/
theorem effectiveTtlAndOffsets_spec {qe : Nat} {nodata minTtl maxTtl ttl : UInt32}
    (h : effectiveTtlAndOffsets packet qe nodata minTtl maxTtl = some (ttl, offsets)) :
    isGoodReply packet = true ∧ qe ≤ packet.length ∧
      ∃ rs, sectionRecords packet qe = some rs ∧
        offsets = (ttlRecords rs).map
          (fun r => (.ofNat (r.nameEnd + 4), clampedTtl packet ttl minTtl maxTtl r)) := by
  rw [effectiveTtlAndOffsets_eq] at h
  split_ifs at h with hgood
  obtain ⟨rs, hrs, heq⟩ := Option.map_eq_some_iff.mp h
  obtain ⟨rfl, rfl⟩ := Prod.mk.inj heq
  exact ⟨hgood.1, hgood.2, rs, hrs, rfl⟩

/-- The TTL fields of the records from `questionEnd` on: in the packet, behind the question and
disjoint, so the stored offsets are exactly their positions. -/
theorem ttlOffsets_layout {questionEnd : Nat} (hsize : packet.length < 2 ^ 32) (clamped : Rr → UInt32)
    (hrs : sectionRecords packet questionEnd = some rs) :
    (∀ r ∈ ttlRecords rs, (UInt32.ofNat (r.nameEnd + 4)).toNat = r.nameEnd + 4 ∧
      questionEnd < r.nameEnd ∧ r.nameEnd + 10 ≤ packet.length) ∧
    ((ttlRecords rs).map (fun r => (UInt32.ofNat (r.nameEnd + 4), clamped r))).Pairwise
      (fun o p => o.1.toNat + 4 ≤ p.1.toNat) := by
  have hin : ∀ r ∈ ttlRecords rs, questionEnd < r.nameEnd ∧ r.nameEnd + 10 ≤ r.rrEnd ∧ r.rrEnd ≤ packet.length := by
    intro r hr
    have := recordsFrom_bounds hrs r (List.mem_of_mem_filter hr)
    omega
  have hoff : ∀ r ∈ ttlRecords rs, (UInt32.ofNat (r.nameEnd + 4)).toNat = r.nameEnd + 4 := by
    intro r hr
    have := hin r hr
    rw [UInt32.toNat_ofNat']
    exact Nat.mod_eq_of_lt (by omega)
  refine ⟨fun r hr => ⟨hoff r hr, (hin r hr).1, (hin r hr).2.1.trans (hin r hr).2.2⟩, ?_⟩
  rw [List.pairwise_map]
  refine List.Pairwise.imp_of_mem ?_ ((recordsFrom_layout hrs).filter _)
  intro r s hr hs hlt
  have := hin r hr
  rw [hoff r hr, hoff s hs]
  omega

/-! ### Patching -/

theorem length_patchTtlsAt (packet : Packet) (offsets : TtlOffsets) (elapsed : UInt32) :
    (patchTtlsAt packet offsets elapsed).length = packet.length := by
  induction offsets generalizing packet with
  | nil => rfl
  | cons o os ih =>
    rw [patchTtlsAt, List.foldl_cons, ← patchTtlsAt, ih]
    split_ifs with hfit
    · exact length_patch (by simpa using hfit)
    · rfl

/-- A byte outside every patched field stays. -/
theorem byteAt_patchTtlsAt_out {elapsed : UInt32} {k : Nat}
    (hout : ∀ o ∈ offsets, k < o.1.toNat ∨ o.1.toNat + 4 ≤ k) :
    byteAt (patchTtlsAt packet offsets elapsed) k = byteAt packet k := by
  induction offsets generalizing packet with
  | nil => rfl
  | cons o os ih =>
    rw [patchTtlsAt, List.foldl_cons, ← patchTtlsAt,
      ih (fun p hp => hout p (List.mem_cons_of_mem _ hp))]
    split_ifs with hfit
    · exact byteAt_patch_out (by simpa using hfit) (by simpa using hout o List.mem_cons_self)
    · rfl

/-- With disjoint fields inside the packet, each one holds the counted-down TTL. -/
theorem byteAt_patchTtlsAt_in {elapsed : UInt32} (hfit : ∀ o ∈ offsets, o.1.toNat + 4 ≤ packet.length)
    (hdisjoint : offsets.Pairwise (fun o p => o.1.toNat + 4 ≤ p.1.toNat)) {o : UInt32 × UInt32}
    (ho : o ∈ offsets) {k : Nat} (hk : k < 4) :
    byteAt (patchTtlsAt packet offsets elapsed) (o.1.toNat + k) =
      byteAt (encU32be (o.2.toNat - elapsed.toNat)) k := by
  induction offsets generalizing packet with
  | nil => simp at ho
  | cons p os ih =>
    have hp : p.1.toNat + 4 ≤ packet.length := hfit p List.mem_cons_self
    obtain ⟨hhead, htail⟩ := List.pairwise_cons.mp hdisjoint
    rw [patchTtlsAt, List.foldl_cons, if_pos hp, ← patchTtlsAt]
    rcases List.mem_cons.mp ho with rfl | ho
    · -- the later fields start behind this one
      rw [byteAt_patchTtlsAt_out (fun q hq => by have := hhead q hq; omega)]
      exact byteAt_patch_in (by simpa using hp) (by simpa using hk)
    · refine ih ?_ htail ho
      intro q hq
      rw [length_patch (by simpa using hp)]
      exact hfit q (List.mem_cons_of_mem _ hq)

end PathDns
