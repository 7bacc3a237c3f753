import PathDns.Config.UpstreamUrl
import PathDns.Dns.Subnet

/-!
# The ECS option of a configured subnet (`dns/ecs.rs`, `config/upstream_url.rs`)

An upstream with a fixed ECS subnet is sent that subnet in place of the client's. `encode_ecs_option` cuts
the address to the bytes its prefix reaches into and does not clear the rest of the last byte, so that the
host bits of the configured address go out as far as that byte. `parse_ecs_src` masks them on its side.
-/

namespace PathDns

open Bytes RustParse

/-! ### The option -/

/-- The bytes of an address. -/
def IpAddr.octets : IpAddr → List UInt8
  | .v4 a => encBe 4 a.toNat
  | .v6 a => encBe 16 a.toNat

/-- The family of an address in an ECS option. -/
def IpAddr.ecsFamily : IpAddr → Nat
  | .v4 _ => 1
  | .v6 _ => 2

/-- The bytes that a prefix reaches into. -/
def EcsSubnet.byteCount (s : EcsSubnet) : Nat := (s.prefixLen.toNat + 7) / 8

theorem IpAddr.octets_spec (ip : IpAddr) :
    8 * ip.octets.length = ip.bits ∧
      (∀ i, i < ip.bits → ∀ len, i < len → len ≤ ip.bits →
        bitAt ip.octets i = (ip.firstBits len).testBit (len - 1 - i)) := by
  cases ip with
  | v4 a =>
    refine ⟨by simp [octets, bits], fun i hi len hlen hfit => ?_⟩
    simp only [bits] at hi hfit
    rw [octets, bitAt_encBe a.isLt (by omega), firstBits, Nat.testBit_div_two_pow]
    congr 1
    omega
  | v6 a =>
    refine ⟨by simp [octets, bits], fun i hi len hlen hfit => ?_⟩
    simp only [bits] at hi hfit
    rw [octets, bitAt_encBe a.isLt (by omega), firstBits, Nat.testBit_div_two_pow]
    congr 1
    omega

variable {s : EcsSubnet}

theorem encodeEcsOption_eq (h : s.prefixLen.toNat ≤ s.addr.bits) :
    encodeEcsOption s = encU16be ecsOptionCode ++ encU16be (4 + s.byteCount) ++
      encU16be s.addr.ecsFamily ++ [s.prefixLen, 0] ++ s.addr.octets.take s.byteCount := by
  obtain ⟨addr, plen⟩ := s
  cases addr with
  | v4 a =>
    have hmin : min ((plen.toNat + 7) / 8) 4 = (plen.toNat + 7) / 8 := by
      simp only [IpAddr.bits] at h
      omega
    simp only [encodeEcsOption, length_encBe, hmin, IpAddr.octets, IpAddr.ecsFamily, EcsSubnet.byteCount]
  | v6 a =>
    have hmin : min ((plen.toNat + 7) / 8) 16 = (plen.toNat + 7) / 8 := by
      simp only [IpAddr.bits] at h
      omega
    simp only [encodeEcsOption, length_encBe, hmin, IpAddr.octets, IpAddr.ecsFamily, EcsSubnet.byteCount]

theorem parseEcsSubnet_prefixLen {text : Str} (h : parseEcsSubnet text = .ok s) :
    s.prefixLen.toNat ≤ s.addr.bits := by
  revert h
  fun_cases parseEcsSubnet text <;> rintro ⟨⟩
  case case4 addr _ len hparse max hmax =>
    have hlt := parseUnsigned_lt (by norm_num) hparse
    simp only [UInt8.toNat_ofNat']
    omega
  case case6 addr _ =>
    have hle := addr.bits_le
    simp only [UInt8.toNat_ofNat']
    omega

/-! ### Host bits -/

/-- The address bytes of the option that is sent. -/
def sentAddress (s : EcsSubnet) : List UInt8 := (encodeEcsOption s).drop 8

/-- No bit beyond the prefix is set in the bytes that the prefix reaches into. -/
def EcsSubnet.NoHostBits (s : EcsSubnet) : Prop :=
  ∀ i, i < 8 * s.byteCount → s.prefixLen.toNat ≤ i → bitAt s.addr.octets i = false

instance (s : EcsSubnet) : Decidable s.NoHostBits :=
  inferInstanceAs (Decidable (∀ i, i < 8 * s.byteCount → s.prefixLen.toNat ≤ i →
    bitAt s.addr.octets i = false))

/-- The two denote one network: same family, same prefix length, same bits under the prefix. -/
def EcsSubnet.SameNetwork (s t : EcsSubnet) : Prop :=
  s.addr.SameFamily t.addr ∧ s.prefixLen = t.prefixLen ∧
    s.addr.firstBits s.prefixLen.toNat = t.addr.firstBits s.prefixLen.toNat

theorem sentAddress_eq (h : s.prefixLen.toNat ≤ s.addr.bits) :
    sentAddress s = s.addr.octets.take s.byteCount := by
  rw [sentAddress, encodeEcsOption_eq h, List.drop_left' (by simp)]

theorem length_sentAddress (h : s.prefixLen.toNat ≤ s.addr.bits) : (sentAddress s).length = s.byteCount := by
  have hlen := s.addr.octets_spec.1
  rw [sentAddress_eq h, List.length_take, EcsSubnet.byteCount]
  omega

/-- The bits of the bytes that are sent are those of the address, and none follow. -/
theorem bitAt_sentAddress (h : s.prefixLen.toNat ≤ s.addr.bits) (i : Nat) :
    bitAt (sentAddress s) i = (decide (i < 8 * s.byteCount) && bitAt s.addr.octets i) := by
  by_cases hi : i < 8 * s.byteCount
  · simp only [hi, decide_true, Bool.true_and]
    refine bitAt_of_byteAt_eq ?_
    rw [sentAddress_eq h, byteAt_take (by omega)]
  · simp only [hi, decide_false, Bool.false_and]
    rw [bitAt, byteAt_of_le (by rw [length_sentAddress h]; omega)]
    simp

theorem sentAddress_hostBits_iff (h : s.prefixLen.toNat ≤ s.addr.bits) :
    (∀ i, s.prefixLen.toNat ≤ i → bitAt (sentAddress s) i = false) ↔ s.NoHostBits := by
  constructor
  · intro hzero i hi hlen
    have := hzero i hlen
    rwa [bitAt_sentAddress h, decide_eq_true hi, Bool.true_and] at this
  · intro hzero i hlen
    rw [bitAt_sentAddress h]
    by_cases hi : i < 8 * s.byteCount
    · rw [hzero i hi hlen, Bool.and_false]
    · simp [hi]

theorem encodeEcsOption_congr {t : EcsSubnet} (hs : s.prefixLen.toNat ≤ s.addr.bits)
    (ht : t.prefixLen.toNat ≤ t.addr.bits) (hsame : s.SameNetwork t) (hsz : s.NoHostBits) (htz : t.NoHostBits) :
    encodeEcsOption s = encodeEcsOption t := by
  obtain ⟨hfamily, hlen, hbits⟩ := hsame
  have hcount : s.byteCount = t.byteCount := by rw [EcsSubnet.byteCount, EcsSubnet.byteCount, hlen]
  have hfam : s.addr.ecsFamily = t.addr.ecsFamily ∧ s.addr.bits = t.addr.bits := by
    cases hsa : s.addr <;> cases hta : t.addr <;> simp_all [IpAddr.SameFamily, IpAddr.ecsFamily, IpAddr.bits]
  have haddr : sentAddress s = sentAddress t := by
    refine ext_bitAt (by rw [length_sentAddress hs, length_sentAddress ht, hcount]) (fun i _ => ?_)
    by_cases hi : i < s.prefixLen.toNat
    · rw [bitAt_sentAddress hs, bitAt_sentAddress ht, hcount,
        s.addr.octets_spec.2 i (by omega) _ hi hs,
        t.addr.octets_spec.2 i (by omega) s.prefixLen.toNat hi (by omega), hbits]
    · rw [(sentAddress_hostBits_iff hs).mpr hsz i (by omega),
        (sentAddress_hostBits_iff ht).mpr htz i (by rw [← hlen]; omega)]
  rw [sentAddress_eq hs, sentAddress_eq ht] at haddr
  rw [encodeEcsOption_eq hs, encodeEcsOption_eq ht, haddr, hcount, hfam.1, hlen]

/-- For every subnet text that is accepted, the option has as many address bytes as the prefix needs, and
its bits beyond the prefix are zero exactly when the configured address has no host bits in the last byte.
A subnet without host bits is sent as another of its network exactly when that one has none either. -/
theorem encodeEcsOption_hostBits_iff {text : Str} {s : EcsSubnet} (h : parseEcsSubnet text = .ok s) :
    (((sentAddress s).length = (s.prefixLen.toNat + 7) / 8 ∧
        ∀ i, s.prefixLen.toNat ≤ i → bitAt (sentAddress s) i = false) ↔ s.NoHostBits) ∧
    ∀ text' t, parseEcsSubnet text' = .ok t → s.SameNetwork t → s.NoHostBits →
      (encodeEcsOption s = encodeEcsOption t ↔ t.NoHostBits) := by
  have hs := parseEcsSubnet_prefixLen h
  refine ⟨?_, ?_⟩
  · rw [sentAddress_hostBits_iff hs, length_sentAddress hs]
    exact and_iff_right rfl
  · intro text' t ht hsame hsz
    have ht := parseEcsSubnet_prefixLen ht
    refine ⟨fun heq => ?_, encodeEcsOption_congr hs ht hsame hsz⟩
    rw [← sentAddress_hostBits_iff ht, sentAddress, ← heq, ← sentAddress, ← hsame.2.1]
    exact (sentAddress_hostBits_iff hs).mpr hsz

theorem encodeEcsOption_hostBits_iff_octet :
    ∃ s, parseEcsSubnet "192.0.2.77/24".toList = .ok s ∧
      (∀ i, s.prefixLen.toNat ≤ i → bitAt (sentAddress s) i = false) := by
  refine ⟨⟨.v4 0xc000024d, 24⟩, by decide +kernel, ?_⟩
  have h : parseEcsSubnet "192.0.2.77/24".toList = .ok ⟨.v4 0xc000024d, 24⟩ := by decide +kernel
  exact ((encodeEcsOption_hostBits_iff h).1.mpr (by decide +kernel)).2

/-- One network written twice: the host bits of the second go out in the last byte of its prefix. -/
theorem encodeEcsOption_sends_hostBits :
    ∃ s t, parseEcsSubnet "10.1.16.0/20".toList = .ok s ∧ parseEcsSubnet "10.1.31.9/20".toList = .ok t ∧
      s.SameNetwork t ∧ sentAddress s = [10, 1, 16] ∧ sentAddress t = [10, 1, 31] ∧
      bitAt (sentAddress t) 20 = true := by
  refine ⟨⟨.v4 0x0a011000, 20⟩, ⟨.v4 0x0a011f09, 20⟩, by decide +kernel, by decide +kernel, ?_,
    by decide +kernel, by decide +kernel, by decide +kernel⟩
  exact ⟨trivial, rfl, by decide⟩

/-! ### Reading the option back -/

/-- The number of an address with the bits beyond the prefix cleared. -/
def IpAddr.masked (plen : Nat) : IpAddr → Nat
  | .v4 a => a.toNat / 2 ^ (32 - plen) * 2 ^ (32 - plen)
  | .v6 a => a.toNat / 2 ^ (128 - plen) * 2 ^ (128 - plen)

/-- The subnet as a variant holds it: 16 bytes with IPv4 in the last four, masked to the prefix. -/
def EcsSubnet.masked (s : EcsSubnet) : EcsSrc where
  addr := List.replicate (16 - s.addr.octets.length) 0 ++
    encBe s.addr.octets.length (s.addr.masked s.prefixLen.toNat)
  prefixLen := s.prefixLen

theorem maskAddr_eq_div {w raw plen : Nat} (hraw : raw < 2 ^ w) (hplen : plen ≤ w) :
    maskAddr w raw plen = raw / 2 ^ (w - plen) * 2 ^ (w - plen) := by
  apply Nat.eq_of_testBit_eq
  intro j
  rw [testBit_maskAddr hplen, Nat.testBit_mul_two_pow, Nat.testBit_div_two_pow]
  by_cases hlow : w - plen ≤ j
  · rw [Nat.sub_add_cancel hlow]
    by_cases hw : j < w
    · simp [hw]
    · have hzero : raw.testBit j = false :=
        Nat.testBit_lt_two_pow (Nat.lt_of_lt_of_le hraw (Nat.pow_le_pow_right (by norm_num) (by omega)))
      simp [hzero]
  · simp [hlow]

theorem IpAddr.maskAddr_octets (ip : IpAddr) {plen : Nat} (h : plen ≤ ip.bits) :
    maskAddr (8 * ip.octets.length) (decBe ip.octets) plen = ip.masked plen := by
  cases ip with
  | v4 a =>
    simp only [bits] at h
    rw [octets, length_encBe, decBe_encBe a.isLt, masked, maskAddr_eq_div a.isLt h]
  | v6 a =>
    simp only [bits] at h
    rw [octets, length_encBe, decBe_encBe a.isLt, masked, maskAddr_eq_div a.isLt h]

theorem IpAddr.ecsFamily_cases (ip : IpAddr) :
    (ip.ecsFamily = 1 ∧ ip.octets.length = 4) ∨ (ip.ecsFamily = 2 ∧ ip.octets.length = 16) := by
  cases ip with
  | v4 a => exact .inl ⟨rfl, length_encBe _ _⟩
  | v6 a => exact .inr ⟨rfl, length_encBe _ _⟩

theorem encodeEcsOption_fields (h : s.prefixLen.toNat ≤ s.addr.bits) :
    Tlv.Item 4 optionSize (encodeEcsOption s) ∧ readsEcs (encodeEcsOption s) = true ∧
      (encodeEcsOption s).length = 8 + s.byteCount ∧
      (encodeEcsOption s).drop 4 =
        encU16be s.addr.ecsFamily ++ ([s.prefixLen, 0] ++ s.addr.octets.take s.byteCount) := by
  have hlen : (encodeEcsOption s).length = 8 + s.byteCount := by
    have := length_sentAddress h
    rw [encodeEcsOption_eq h, List.length_append, ← sentAddress_eq h, this]
    simp
  have hsmall : 4 + s.byteCount < 65536 := by
    have := s.prefixLen.toNat_lt
    rw [EcsSubnet.byteCount]
    omega
  have hoptLen : u16be (encodeEcsOption s) 2 = 4 + s.byteCount := by
    rw [encodeEcsOption_eq h]
    exact u16be_encU16be hsmall rfl rfl
  have hcode : u16be (encodeEcsOption s) 0 = ecsOptionCode := by
    rw [encodeEcsOption_eq h]
    exact u16be_encU16be (by decide) rfl rfl
  refine ⟨optionSize_sized.item ?_, ?_, hlen, ?_⟩
  · rw [optionSize, hoptLen, hlen]
    omega
  · simp [readsEcs, hcode, hoptLen]
  · rw [encodeEcsOption_eq h]
    rfl

/-- `parse_ecs_src` gives back the subnet that was encoded, masked to its prefix. -/
theorem parseEcsSrc_encode (h : s.prefixLen.toNat ≤ s.addr.bits) :
    parseEcsSrc ((encodeEcsOption s).drop 4) = some s.masked := by
  obtain ⟨hocts, -⟩ := s.addr.octets_spec
  obtain ⟨-, -, hlen, hdata⟩ := encodeEcsOption_fields h
  set data := (encodeEcsOption s).drop 4 with hd
  have hdataLen : data.length = 4 + s.byteCount := by
    rw [hd, List.length_drop, hlen]
    omega
  have hfamily : u16be data 0 = s.addr.ecsFamily := by
    rw [hdata]
    refine u16be_encU16be ?_ rfl rfl
    rcases s.addr.ecsFamily_cases with ⟨hf, -⟩ | ⟨hf, -⟩ <;> omega
  have hplen : byteAt data 2 = s.prefixLen := by
    rw [hdata]
    rfl
  have haddr : data.drop 4 = s.addr.octets.take s.byteCount := by
    rw [hdata]
    rfl
  rw [parseEcsSrc_known (n := s.addr.octets.length) (by omega) (hfamily ▸ s.addr.ecsFamily_cases)
    (by rw [hplen]; omega), hplen, haddr, EcsSubnet.masked]
  -- the bytes that were cut off do not matter under the mask
  have hpad : padTo s.addr.octets.length s.addr.octets = s.addr.octets := by
    rw [padTo, List.take_length, Nat.sub_self, List.replicate_zero, List.append_nil]
  have hbits : prefixBits s.prefixLen.toNat (s.addr.octets.take s.byteCount) =
      prefixBits s.prefixLen.toNat s.addr.octets := by
    rw [prefixBits_eq_iff]
    intro i hi
    refine bitAt_of_byteAt_eq (byteAt_take ?_)
    rw [EcsSubnet.byteCount]
    omega
  have hmask := (maskAddr_padTo_eq_iff (n := s.addr.octets.length) (by omega)).mpr hbits
  rw [hmask, hpad, s.addr.maskAddr_octets h]

end PathDns
