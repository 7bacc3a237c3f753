import Mathlib.Data.Finset.Dedup
import PathDns.Dns.Sections

/-!
# Client subnets in a query (`dns/mod.rs`, `dns/ecs.rs`)

What `extract_opt_data` makes of the options of an OPT record: the last ECS option of at least four bytes
gives the source, the codes of the others apart from padding give the hash. What a query announces is read
from all OPT records of its additional section; the variant has it from the one that `find_opt_record`
finds.
-/

namespace PathDns

open Bytes

/-- An option that `extract_opt_data` takes for a client subnet. -/
def readsEcs (o : List UInt8) : Bool := u16be o 0 == ecsOptionCode && decide (4 ≤ u16be o 2)

/-- The ECS source after one more option. -/
def nextEcsSrc (ecs : Option EcsSrc) (o : List UInt8) : Option EcsSrc :=
  if readsEcs o then parseEcsSrc (o.drop 4) else ecs

/-- The codes that `extract_opt_data` hashes. -/
def hashedCodes (os : List (List UInt8)) : List Nat :=
  (os.filter (fun o => !readsEcs o && u16be o 0 != 12)).map (u16be · 0)

theorem hashedCodes_cons (o : List UInt8) (os : List (List UInt8)) :
    hashedCodes (o :: os) =
      (if !readsEcs o && u16be o 0 != 12 then [u16be o 0] else []) ++ hashedCodes os := by
  rw [hashedCodes, hashedCodes, List.filter_cons]
  split_ifs <;> rfl

/-- The option loop of `extract_opt_data`, in terms of the options it reads. -/
theorem extractOptDataLoop_eq (rdata : List UInt8) (fuel pos : Nat) (ecs : Option EcsSrc)
    (codes : List Nat) :
    extractOptDataLoop rdata fuel pos ecs codes =
      ((Tlv.split 4 optionSize fuel (rdata.drop pos)).1.foldl nextEcsSrc ecs,
        codes ++ hashedCodes (Tlv.split 4 optionSize fuel (rdata.drop pos)).1) := by
  induction fuel generalizing pos ecs codes with
  | zero => simp [extractOptDataLoop, Tlv.split, hashedCodes]
  | succ fuel ih =>
    rw [extractOptDataLoop, split_optionSize]
    by_cases hhead : pos + 4 ≤ rdata.length
    · rw [if_pos hhead, if_pos hhead]
      by_cases hfit : rdata.length < pos + 4 + u16be rdata (pos + 2)
      · simp [hfit, hashedCodes]
      · -- the option at the front, as the loop reads it
        set o := slice rdata pos (pos + 4 + u16be rdata (pos + 2)) with ho
        have hcode : u16be o 0 = u16be rdata pos := u16be_slice (by omega)
        have hoptLen : u16be o 2 = u16be rdata (pos + 2) := u16be_slice (by omega)
        have hdata : slice rdata (pos + 4) (pos + 4 + u16be rdata (pos + 2)) = o.drop 4 := by
          rw [ho, slice, slice, List.drop_take, List.drop_drop]
          congr 1
        simp only [if_neg hfit, List.foldl_cons, hashedCodes_cons, hcode]
        by_cases hecs : u16be rdata pos = ecsOptionCode ∧ 4 ≤ u16be rdata (pos + 2)
        · have hreads : readsEcs o = true := by simp [readsEcs, hcode, hoptLen, hecs.1, hecs.2]
          rw [if_pos hecs, ih, hdata]
          simp [nextEcsSrc, hreads]
        · have hreads : readsEcs o = false := by simpa [readsEcs, hcode, hoptLen] using hecs
          rw [if_neg hecs]
          by_cases hpad : u16be rdata pos = 12
          · rw [if_neg (by simpa using hpad), ih]
            simp [nextEcsSrc, hreads, hpad]
          · rw [if_pos hpad, ih]
            simp [nextEcsSrc, hreads, hpad]
    · simp [hhead, hashedCodes]

theorem extractOptData_eq (rdata : List UInt8) :
    extractOptData rdata =
      ((options rdata).1.foldl nextEcsSrc none, extraOptsHash (hashedCodes (options rdata).1)) := by
  rw [extractOptData, extractOptDataLoop_eq, List.drop_zero, List.nil_append, ← options]

/-! ### The options of a query -/

/-- The options of the OPT record that `find_opt_record` finds. -/
def queryOptions (packet : Packet) (questionEnd : Nat) : List (List UInt8) :=
  match findOptRecord packet questionEnd with
  | none => []
  | some (_, rdataStart, rdataEnd) => (options (slice packet rdataStart rdataEnd)).1

theorem extractVariant_options (packet : Packet) (questionEnd : Nat) :
    (extractVariant packet questionEnd).ecsSrc =
        (queryOptions packet questionEnd).foldl nextEcsSrc none ∧
      (extractVariant packet questionEnd).extraOptsHash =
        extraOptsHash (hashedCodes (queryOptions packet questionEnd)) := by
  by_cases hshort : packet.length < 12
  · have hnone : findOptRecord packet questionEnd = none := if_pos hshort
    rw [extractVariant, if_pos hshort, queryOptions, hnone]
    exact ⟨rfl, rfl⟩
  · rw [extractVariant, if_neg hshort, queryOptions]
    cases hfind : findOptRecord packet questionEnd with
    | none => exact ⟨rfl, rfl⟩
    | some found =>
      obtain ⟨nameEnd, rdataStart, rdataEnd⟩ := found
      simp only [extractOptData_eq, and_self]

/-! ### Addresses under a prefix -/

/-- The first `n` bits of an address, zeros behind its bytes. -/
def prefixBits (n : Nat) (address : List UInt8) : List Bool := (List.range n).map (bitAt address)

variable {n : Nat} {a b : List UInt8}

theorem prefixBits_eq_iff : prefixBits n a = prefixBits n b ↔ ∀ i < n, bitAt a i = bitAt b i := by
  simp [prefixBits, List.map_inj_left]

theorem length_padTo (n : Nat) (data : List UInt8) : (padTo n data).length = n := by
  rw [padTo, List.length_append, List.length_take, List.length_replicate]
  omega

theorem byteAt_replicate_zero (n k : Nat) : byteAt (List.replicate n 0) k = 0 := by
  by_cases h : k < n <;> simp [byteAt, h]

theorem byteAt_padTo {i : Nat} (data : List UInt8) (h : i < n) : byteAt (padTo n data) i = byteAt data i := by
  rw [padTo]
  by_cases hi : i < data.length
  · rw [byteAt_append_left (by rw [List.length_take]; omega), byteAt_take h]
  · have htake : data.take n = data := List.take_of_length_le (by omega)
    obtain ⟨d, rfl⟩ := Nat.exists_eq_add_of_le (Nat.le_of_not_lt hi)
    rw [htake, byteAt_append_right, byteAt_replicate_zero]
    simp [byteAt]

theorem testBit_maskAddr {w raw plen : Nat} (hplen : plen ≤ w) (j : Nat) :
    (maskAddr w raw plen).testBit j = (decide (j < w) && decide (w - plen ≤ j) && raw.testBit j) := by
  rw [maskAddr, BitVec.testBit_toNat, BitVec.getLsbD_and, BitVec.getLsbD_ofNat]
  split_ifs with h0
  · have : ¬ (j < w ∧ w - plen ≤ j) := by omega
    rcases not_and_or.mp this with h | h <;> simp [h]
  · rw [BitVec.getLsbD_shiftLeft, BitVec.getLsbD_allOnes]
    by_cases hw : j < w
    · by_cases hlow : w - plen ≤ j
      · simp [hw, hlow, show ¬ j < w - plen by omega, show j - (w - plen) < w by omega]
      · simp [hw, hlow, show j < w - plen by omega]
    · simp [hw]

theorem testBit_padTo {i : Nat} (data : List UInt8) (hi : i < 8 * n) :
    (decBe (padTo n data)).testBit (8 * n - 1 - i) = bitAt data i := by
  have hlt : i < 8 * (padTo n data).length := by
    rw [length_padTo]
    exact hi
  have h := testBit_decBe hlt
  rw [length_padTo] at h
  rw [h]
  exact bitAt_of_byteAt_eq (byteAt_padTo data (by omega))

theorem maskAddr_padTo_eq_iff {plen : Nat} (hplen : plen ≤ 8 * n) :
    maskAddr (8 * n) (decBe (padTo n a)) plen = maskAddr (8 * n) (decBe (padTo n b)) plen ↔
      prefixBits plen a = prefixBits plen b := by
  rw [prefixBits_eq_iff]
  constructor
  · intro h i hi
    have hi' := congrArg (Nat.testBit · (8 * n - 1 - i)) h
    simp only [testBit_maskAddr hplen, testBit_padTo _ (show i < 8 * n by omega)] at hi'
    simpa [show 8 * n - 1 - i < 8 * n by omega, show 8 * n - plen ≤ 8 * n - 1 - i by omega] using hi'
  · intro h
    apply Nat.eq_of_testBit_eq
    intro j
    rw [testBit_maskAddr hplen, testBit_maskAddr hplen]
    by_cases hw : j < 8 * n
    · by_cases hlow : 8 * n - plen ≤ j
      · have hj := h (8 * n - 1 - j) (by omega)
        have hbit : 8 * n - 1 - j < 8 * n := by omega
        rw [← testBit_padTo a hbit, ← testBit_padTo b hbit, show 8 * n - 1 - (8 * n - 1 - j) = j by omega] at hj
        rw [hj]
      · simp [hlow]
    · simp [hw]

theorem maskAddr_lt (w raw plen : Nat) : maskAddr w raw plen < 2 ^ w := BitVec.isLt _

theorem maskAddr_lt_bytes (n raw plen : Nat) : maskAddr (8 * n) raw plen < 256 ^ n := by
  have h := maskAddr_lt (8 * n) raw plen
  rwa [pow_mul] at h

theorem bitAt_masked {plen i : Nat} (hplen : plen ≤ 8 * n) (hi : i < 8 * n) :
    bitAt (encBe n (maskAddr (8 * n) (decBe (padTo n a)) plen)) i = (decide (i < plen) && bitAt a i) := by
  rw [bitAt_encBe (maskAddr_lt_bytes _ _ _) hi, testBit_maskAddr hplen, testBit_padTo a hi]
  congr 1
  rw [show decide (8 * n - 1 - i < 8 * n) = true by rw [decide_eq_true_eq]; omega, Bool.true_and,
    decide_eq_decide]
  omega

/-! ### What a query announces, and what its variant keeps of it -/

/-- What an ECS option announces: family, source prefix length, and the address bits under the prefix. -/
@[ext]
structure Announced where
  family : Nat
  prefixLen : Nat
  bits : List Bool
deriving DecidableEq, Repr

/-- The announcement of an ECS option, none when its data is too short for one. -/
def announce (data : List UInt8) : Option Announced :=
  if data.length < 4 then none
  else some ⟨u16be data 0, (byteAt data 2).toNat, prefixBits (byteAt data 2).toNat (data.drop 4)⟩

/-- The announcements of the ECS options in an RDATA. -/
def announcementsIn (rdata : List UInt8) : List (Option Announced) :=
  ((options rdata).1.filter (fun o => u16be o 0 == ecsOptionCode)).map (fun o => announce (o.drop 4))

/-- The announcements of all ECS options of a query, in whichever OPT record of its additional section. -/
def announcements (packet : Packet) : List (Option Announced) := (optRdatas packet).flatMap announcementsIn

/-- The query carries ECS, and all it carries announces `x`. -/
def Announces (packet : Packet) (x : Announced) : Prop :=
  announcements packet ≠ [] ∧ ∀ y ∈ announcements packet, y = some x

/-- Neither query carries ECS, or both do and announce the same. -/
def SameSubnet (p q : Packet) : Prop :=
  (announcements p = [] ∧ announcements q = []) ∨ ∃ x, Announces p x ∧ Announces q x

/-- The width of the addresses of a family. -/
def familyBits : Nat → Option Nat
  | 1 => some 32
  | 2 => some 128
  | _ => none

/-- The query announces `x` in a way that its variant keeps but for the family: the family is known and the
prefix not too long for it, and there is ECS in the first OPT record of the additional section, where
`find_opt_record` finds it. -/
structure KeepsSubnet (packet : Packet) (questionEnd : Nat) (x : Announced) : Prop where
  announces : Announces packet x
  fits : (familyBits x.family).any (x.prefixLen ≤ ·) = true
  placed : OptPlaced packet questionEnd
  first : ∃ rdata, (optRdatas packet).head? = some rdata ∧ announcementsIn rdata ≠ []

/-- Neither query carries ECS, or each announces one subnet and the two are of one family, and the same
unless both variants keep them. -/
def ToldApart (p : Packet) (pEnd : Nat) (q : Packet) (qEnd : Nat) : Prop :=
  (announcements p = [] ∧ announcements q = []) ∨
    ∃ x y, Announces p x ∧ Announces q y ∧ x.family = y.family ∧
      (¬ (KeepsSubnet p pEnd x ∧ KeepsSubnet q qEnd y) → x = y)

variable {x : Announced}

theorem announce_eq_some {data : List UInt8} (h : announce data = some x) :
    4 ≤ data.length ∧ x.family = u16be data 0 ∧ x.prefixLen = (byteAt data 2).toNat ∧
      x.bits = prefixBits x.prefixLen (data.drop 4) := by
  rw [announce] at h
  split_ifs at h with hlen
  obtain rfl := Option.some.inj h
  exact ⟨Nat.le_of_not_lt hlen, rfl, rfl, rfl⟩

theorem min_eq_of_le {a b : UInt8} (h : a.toNat ≤ b.toNat) : min a b = a :=
  if_pos (UInt8.le_iff_toNat_le.mpr h)

theorem parseEcsSrc_known {data : List UInt8} (hlen : 4 ≤ data.length)
    (hfamily : (u16be data 0 = 1 ∧ n = 4) ∨ (u16be data 0 = 2 ∧ n = 16))
    (hplen : (byteAt data 2).toNat ≤ 8 * n) :
    parseEcsSrc data = some ⟨List.replicate (16 - n) 0 ++
      encBe n (maskAddr (8 * n) (decBe (padTo n (data.drop 4))) (byteAt data 2).toNat), byteAt data 2⟩ := by
  rw [parseEcsSrc, if_neg (by omega)]
  rcases hfamily with ⟨hf, rfl⟩ | ⟨hf, rfl⟩
  · have hmin : min (byteAt data 2) 32 = byteAt data 2 := min_eq_of_le hplen
    simp only [hf, hmin, if_true]
  · have hmin : min (byteAt data 2) 128 = byteAt data 2 := min_eq_of_le hplen
    simp only [hf, hmin, OfNat.ofNat_ne_one, if_true, if_false]
    rfl

theorem familyBits_any {family plen : Nat} (h : (familyBits family).any (plen ≤ ·) = true) :
    ∃ n, ((family = 1 ∧ n = 4) ∨ (family = 2 ∧ n = 16)) ∧ plen ≤ 8 * n := by
  rw [familyBits.eq_def] at h
  split at h
  · exact ⟨4, .inl ⟨rfl, rfl⟩, by simpa using h⟩
  · exact ⟨16, .inr ⟨rfl, rfl⟩, by simpa using h⟩
  · simp at h

theorem announced_eq_of_parseEcsSrc_eq {y : Announced} (ha : announce a = some x) (hb : announce b = some y)
    (hfamily : x.family = y.family) (hfits : (familyBits x.family).any (x.prefixLen ≤ ·) = true)
    (hfits' : (familyBits y.family).any (y.prefixLen ≤ ·) = true) (hsrc : parseEcsSrc a = parseEcsSrc b) :
    x = y := by
  obtain ⟨hla, hfa, hpa, hbitsA⟩ := announce_eq_some ha
  obtain ⟨hlb, hfb, hpb, hbitsB⟩ := announce_eq_some hb
  obtain ⟨n, hknown, hplen⟩ := familyBits_any hfits
  obtain ⟨n', hknown', hplen'⟩ := familyBits_any hfits'
  obtain rfl : n' = n := by omega
  rw [parseEcsSrc_known hla (hfa ▸ hknown) (hpa ▸ hplen),
    parseEcsSrc_known hlb (hfb ▸ hknown') (hpb ▸ hplen')] at hsrc
  obtain ⟨haddr, hlen⟩ := EcsSrc.mk.inj (Option.some.inj hsrc)
  have hsize : x.prefixLen = y.prefixLen := by rw [hpa, hpb, hlen]
  have hmask := encBe_injective (maskAddr_lt_bytes _ _ _) (maskAddr_lt_bytes _ _ _)
    (List.append_cancel_left haddr)
  rw [← hpa, ← hpb, hsize] at hmask
  have hbits := (maskAddr_padTo_eq_iff hplen').mp hmask
  rw [← hsize, ← hbitsA, hsize, ← hbitsB] at hbits
  exact Announced.ext hfamily hsize hbits

/-- An IPv4 and an IPv6 subnet with one source are those of all zeros. -/
theorem bits_of_parseEcsSrc_eq {y : Announced} (ha : announce a = some x) (hb : announce b = some y)
    (hx : x.family = 1) (hy : y.family = 2) (hxlen : x.prefixLen ≤ 32) (hylen : y.prefixLen ≤ 128)
    (hsrc : parseEcsSrc a = parseEcsSrc b) : true ∉ x.bits ∧ true ∉ y.bits := by
  obtain ⟨hla, hfa, hpa, hbitsA⟩ := announce_eq_some ha
  obtain ⟨hlb, hfb, hpb, hbitsB⟩ := announce_eq_some hb
  rw [parseEcsSrc_known (n := 4) hla (.inl ⟨hfa ▸ hx, rfl⟩) (hpa ▸ hxlen),
    parseEcsSrc_known (n := 16) hlb (.inr ⟨hfb ▸ hy, rfl⟩) (hpb ▸ hylen)] at hsrc
  obtain ⟨haddr, hlen⟩ := EcsSrc.mk.inj (Option.some.inj hsrc)
  have hsize : x.prefixLen = y.prefixLen := by rw [hpa, hpb, hlen]
  rw [← hpa, ← hpb, ← hsize] at haddr
  rw [hbitsA, hbitsB, ← hsize, prefixBits, prefixBits]
  simp only [List.mem_map, List.mem_range, not_exists, not_and, Bool.not_eq_true]
  -- the first four bytes of the address decide on the IPv6 side, the last four on the IPv4 side
  constructor
  · intro i hi
    have hright := byteAt_append_right (List.replicate 12 0)
      (encBe 4 (maskAddr (8 * 4) (decBe (padTo 4 (a.drop 4))) x.prefixLen)) (i / 8)
    have hsame : bitAt (encBe 4 (maskAddr (8 * 4) (decBe (padTo 4 (a.drop 4))) x.prefixLen)) i =
        bitAt (encBe 16 (maskAddr (8 * 16) (decBe (padTo 16 (b.drop 4))) x.prefixLen)) (96 + i) := by
      rw [bitAt, bitAt, ← hright, show (96 + i) / 8 = 12 + i / 8 by omega, show (96 + i) % 8 = i % 8 by omega]
      exact congrArg (fun l => (byteAt l (12 + i / 8)).toNat.testBit (7 - i % 8)) haddr
    rw [bitAt_masked (by omega) (by omega), bitAt_masked (by omega) (by omega)] at hsame
    simpa [hi, show ¬ 96 + i < x.prefixLen by omega] using hsame
  · intro i hi
    have hleft := byteAt_append_left (q := encBe 4 (maskAddr (8 * 4) (decBe (padTo 4 (a.drop 4))) x.prefixLen))
      (show i / 8 < (List.replicate 12 (0 : UInt8)).length by rw [List.length_replicate]; omega)
    have hzero : bitAt (encBe 16 (maskAddr (8 * 16) (decBe (padTo 16 (b.drop 4))) x.prefixLen)) i = false := by
      have hbyte := congrArg (byteAt · (i / 8)) haddr
      simp only [Nat.sub_self, List.replicate_zero, List.nil_append] at hbyte
      rw [bitAt, ← hbyte, hleft, byteAt_replicate_zero]
      exact Nat.zero_testBit _
    rw [bitAt_masked (by omega) (by omega)] at hzero
    simpa [hi] using hzero

theorem readsEcs_of_announce {o : List UInt8} (hitem : Tlv.Item 4 optionSize o)
    (hcode : u16be o 0 = ecsOptionCode) (h : announce (o.drop 4) = some x) : readsEcs o = true := by
  have hlen := (announce_eq_some h).1
  have hsize := hitem.sized []
  rw [List.append_nil, optionSize] at hsize
  rw [List.length_drop] at hlen
  simp only [readsEcs, hcode, beq_self_eq_true, Bool.true_and, decide_eq_true_eq]
  omega

/-- With ECS options that all announce `x`, the source is that of one of them. -/
theorem foldl_nextEcsSrc {os : List (List UInt8)} (hitems : ∀ o ∈ os, Tlv.Item 4 optionSize o)
    (hall : ∀ o ∈ os, u16be o 0 = ecsOptionCode → announce (o.drop 4) = some x) (ecs : Option EcsSrc) :
    ((∀ o ∈ os, u16be o 0 ≠ ecsOptionCode) ∧ os.foldl nextEcsSrc ecs = ecs) ∨
      ∃ data, announce data = some x ∧ os.foldl nextEcsSrc ecs = parseEcsSrc data := by
  induction os generalizing ecs with
  | nil => exact .inl ⟨by simp, rfl⟩
  | cons o os ih =>
    have ih := ih (fun p hp => hitems p (List.mem_cons_of_mem _ hp))
      (fun p hp => hall p (List.mem_cons_of_mem _ hp)) (nextEcsSrc ecs o)
    rw [List.foldl_cons]
    by_cases hcode : u16be o 0 = ecsOptionCode
    · have hx := hall o List.mem_cons_self hcode
      have hreads := readsEcs_of_announce (hitems o List.mem_cons_self) hcode hx
      right
      rcases ih with ⟨-, heq⟩ | hfound
      · exact ⟨o.drop 4, hx, by rw [heq, nextEcsSrc, if_pos hreads]⟩
      · exact hfound
    · have hreads : readsEcs o = false := by simp [readsEcs, beq_eq_false_iff_ne.mpr hcode]
      have hkeep : nextEcsSrc ecs o = ecs := by rw [nextEcsSrc, hreads]; rfl
      rw [hkeep] at ih ⊢
      rcases ih with ⟨hnone, heq⟩ | hfound
      · refine .inl ⟨?_, heq⟩
        intro p hp
        rcases List.mem_cons.mp hp with rfl | hp
        · exact hcode
        · exact hnone p hp
      · exact .inr hfound

theorem head?_optRdatas (packet : Packet) :
    (optRdatas packet).head? =
      ((additionalRecords packet).find? Rr.isOpt).map (fun r => slice packet r.rdataStart r.rrEnd) := by
  rw [optRdatas_eq, List.head?_map, List.head?_filter]

variable {packet : Packet} {questionEnd : Nat}

theorem OptPlaced.queryOptions_eq (hplaced : OptPlaced packet questionEnd) (hlen : 12 ≤ packet.length)
    (h : skipQuestions packet (u16be packet 4) 12 = some questionEnd) :
    queryOptions packet questionEnd =
      ((optRdatas packet).head?.map (fun rdata => (options rdata).1)).getD [] := by
  rw [queryOptions, hplaced.findOptRecord_eq hlen h, head?_optRdatas]
  cases (additionalRecords packet).find? Rr.isOpt <;> rfl

/-! ### The flags of a query -/

/-- RD, AD and CD. -/
def headerFlags (packet : Packet) : Bool × Bool × Bool :=
  ((byteAt packet 2 &&& 0x01) != 0, (byteAt packet 3 &&& 0x20) != 0, (byteAt packet 3 &&& 0x10) != 0)

/-- EDNS version and DO of every OPT record of the additional section. -/
def optFlags (packet : Packet) : List (UInt8 × Bool) :=
  ((additionalRecords packet).filter Rr.isOpt).map
    (fun r => (byteAt packet (r.nameEnd + 5), (byteAt packet (r.nameEnd + 6) &&& 0x80) != 0))

/-- The codes of all its options other than ECS and padding. -/
def otherCodes (packet : Packet) : Finset Nat :=
  (((optRdatas packet).flatMap optionCodes).filter
    (fun code => code ≠ ecsOptionCode ∧ code ≠ 12)).toFinset

/-- At most one OPT record, and `find_opt_record` finds it. -/
structure PlainOpt (packet : Packet) (questionEnd : Nat) : Prop where
  placed : OptPlaced packet questionEnd
  single : (optRdatas packet).length ≤ 1

theorem OptPlaced.variant_flags (hplaced : OptPlaced packet questionEnd) (hlen : 12 ≤ packet.length)
    (h : skipQuestions packet (u16be packet 4) 12 = some questionEnd) :
    headerFlags packet = ((extractVariant packet questionEnd).rd, (extractVariant packet questionEnd).ad,
        (extractVariant packet questionEnd).cd) ∧
      (optFlags packet).head? = if (extractVariant packet questionEnd).hasOpt then
        some ((extractVariant packet questionEnd).ednsVersion, (extractVariant packet questionEnd).doBit)
      else none := by
  rw [extractVariant, if_neg (by omega), hplaced.findOptRecord_eq hlen h, optFlags, List.head?_map,
    List.head?_filter]
  cases (additionalRecords packet).find? Rr.isOpt <;> exact ⟨rfl, rfl⟩

/-- Without an OPT record in the additional section, the variant has none. -/
theorem OptPlaced.hasOpt_eq_false (hplaced : OptPlaced packet questionEnd) (hlen : 12 ≤ packet.length)
    (h : skipQuestions packet (u16be packet 4) 12 = some questionEnd) (hnone : optRdatas packet = []) :
    (extractVariant packet questionEnd).hasOpt = false := by
  have hflags := (hplaced.variant_flags hlen h).2
  rw [optRdatas_eq, List.map_eq_nil_iff] at hnone
  rw [optFlags, hnone] at hflags
  by_contra hopt
  rw [if_pos (by simpa using hopt)] at hflags
  simp at hflags

theorem PlainOpt.optFlags_eq (h : PlainOpt packet questionEnd) :
    optFlags packet = (optFlags packet).head?.toList := by
  have hsingle := h.single
  rw [optRdatas_eq, List.length_map] at hsingle
  rw [optFlags]
  match hrecords : (additionalRecords packet).filter Rr.isOpt with
  | [] => rfl
  | [r] => rfl
  | r :: s :: rest =>
    rw [hrecords] at hsingle
    simp at hsingle

/-- The source that the variant keeps is that of an option that announces `x`. -/
theorem KeepsSubnet.ecsSrc {info : FastQueryInfo} (hq : parseQueryFast packet = .ok info)
    (h : KeepsSubnet packet info.questionEnd x) :
    ∃ data, announce data = some x ∧
      (extractVariant packet info.questionEnd).ecsSrc = parseEcsSrc data := by
  have haccepted := parseQueryFast_spec hq
  obtain ⟨rdata, hhead, hecs⟩ := h.first
  have hoptions : queryOptions packet info.questionEnd = (options rdata).1 := by
    rw [h.placed.queryOptions_eq haccepted.length_ge haccepted.skipQuestions_eq, hhead]
    rfl
  have hall : ∀ o ∈ (options rdata).1, u16be o 0 = ecsOptionCode → announce (o.drop 4) = some x := by
    intro o ho hcode
    apply h.announces.2
    refine List.mem_flatMap.mpr ⟨rdata, List.mem_of_head? hhead, ?_⟩
    exact List.mem_map.mpr ⟨o, List.mem_filter.mpr ⟨ho, by simp [hcode]⟩, rfl⟩
  rw [(extractVariant_options packet info.questionEnd).1, hoptions]
  rcases foldl_nextEcsSrc (Tlv.split_items optionSize_sized) hall none with ⟨hnone, -⟩ | hfound
  · refine absurd ?_ hecs
    rw [announcementsIn, List.map_eq_nil_iff, List.filter_eq_nil_iff]
    intro o ho
    simp [hnone o ho]
  · exact hfound

theorem KeepsSubnet.ecsSrc_ne_none {info : FastQueryInfo} (hq : parseQueryFast packet = .ok info)
    (h : KeepsSubnet packet info.questionEnd x) : (extractVariant packet info.questionEnd).ecsSrc ≠ none := by
  obtain ⟨data, hdata, hsrc⟩ := h.ecsSrc hq
  obtain ⟨hlen, hfamily, hplen, -⟩ := announce_eq_some hdata
  obtain ⟨n, hknown, hfits⟩ := familyBits_any h.fits
  rw [hsrc, parseEcsSrc_known hlen (hfamily ▸ hknown) (hplen ▸ hfits)]
  exact Option.some_ne_none _

/-- Subnets with one source that both variants keep are the same, unless they are of two families and all
zeros. -/
theorem KeepsSubnet.eq_of_ecsSrc_eq {p q : Packet} {infoP infoQ : FastQueryInfo} {y : Announced}
    (hp : parseQueryFast p = .ok infoP) (hq : parseQueryFast q = .ok infoQ)
    (hx : KeepsSubnet p infoP.questionEnd x) (hy : KeepsSubnet q infoQ.questionEnd y)
    (hsrc : (extractVariant p infoP.questionEnd).ecsSrc = (extractVariant q infoQ.questionEnd).ecsSrc)
    (hfamily : x.family = y.family ∨ true ∈ x.bits) : x = y := by
  obtain ⟨a, ha, hsrcA⟩ := hx.ecsSrc hp
  obtain ⟨b, hb, hsrcB⟩ := hy.ecsSrc hq
  rw [hsrcA, hsrcB] at hsrc
  by_cases hsame : x.family = y.family
  · exact announced_eq_of_parseEcsSrc_eq ha hb hsame hx.fits hy.fits hsrc
  · obtain ⟨n, hknown, hplen⟩ := familyBits_any hx.fits
    obtain ⟨m, hknown', hplen'⟩ := familyBits_any hy.fits
    refine absurd (hfamily.resolve_left hsame) ?_
    rcases hknown with ⟨hx1, rfl⟩ | ⟨hx2, rfl⟩
    · exact (bits_of_parseEcsSrc_eq ha hb hx1 (by omega) hplen (by omega) hsrc).1
    · exact (bits_of_parseEcsSrc_eq hb ha (by omega) hx2 (by omega) hplen hsrc.symm).2

/-- Two accepted queries with equal variants carry the same subnet exactly when what the variants do not
keep of the two is the same. -/
theorem sameSubnet_iff {p q : Packet} {infoP infoQ : FastQueryInfo} (hp : parseQueryFast p = .ok infoP)
    (hq : parseQueryFast q = .ok infoQ)
    (hvariant : extractVariant p infoP.questionEnd = extractVariant q infoQ.questionEnd) :
    SameSubnet p q ↔ ToldApart p infoP.questionEnd q infoQ.questionEnd := by
  refine or_congr_right ⟨?_, ?_⟩
  · rintro ⟨x, hx, hx'⟩
    exact ⟨x, x, hx, hx', rfl, fun _ => rfl⟩
  · rintro ⟨x, y, hx, hy, hfamily, hunkept⟩
    by_cases hkept : KeepsSubnet p infoP.questionEnd x ∧ KeepsSubnet q infoQ.questionEnd y
    · have hsrc := congrArg QueryVariant.ecsSrc hvariant
      obtain rfl := hkept.1.eq_of_ecsSrc_eq hp hq hkept.2 hsrc (.inl hfamily)
      exact ⟨x, hx, hy⟩
    · obtain rfl := hunkept hkept
      exact ⟨x, hx, hy⟩

/-- A query for `a` with one ECS option: family, source prefix length and address bytes. -/
def announcingQuery (family plen : UInt8) (address : List UInt8) : Packet :=
  queryWith 1 (optRecord ([0, 8, 0, .ofNat (4 + address.length), 0, family, plen, 0] ++ address))

/-- A query for `a` with ECS in an OPT record behind a record of the answer section. -/
def behindAnswer (plen : UInt8) : Packet :=
  sectionedQuery 1 0 1 (emptyRecord ++ optRecord [0, 8, 0, 8, 0, 1, plen, 0, 192, 0, 2, 1])

/-- The same network, with and without host bits. -/
theorem sameSubnet_iff_hostBits :
    SameSubnet (announcingQuery 1 24 [192, 0, 2, 77]) (announcingQuery 1 24 [192, 0, 2]) := by
  have hp : parseQueryFast (announcingQuery 1 24 [192, 0, 2, 77]) =
      .ok (fastInfo (announcingQuery 1 24 [192, 0, 2, 77])) := by decide +kernel
  have hq : parseQueryFast (announcingQuery 1 24 [192, 0, 2]) =
      .ok (fastInfo (announcingQuery 1 24 [192, 0, 2])) := by decide +kernel
  have hx : announcements (announcingQuery 1 24 [192, 0, 2, 77]) =
      [some ⟨1, 24, prefixBits 24 [192, 0, 2]⟩] := by decide +kernel
  have hy : announcements (announcingQuery 1 24 [192, 0, 2]) =
      [some ⟨1, 24, prefixBits 24 [192, 0, 2]⟩] := by decide +kernel
  refine (sameSubnet_iff hp hq (by decide +kernel)).mpr (.inr ⟨⟨1, 24, prefixBits 24 [192, 0, 2]⟩,
    ⟨1, 24, prefixBits 24 [192, 0, 2]⟩, ?_, ?_, rfl, fun _ => rfl⟩)
  · exact ⟨by simp [hx], by simp [hx]⟩
  · exact ⟨by simp [hy], by simp [hy]⟩

/-- Queries with equal variants: no ECS and ECS of another family; the whole IPv4 and the whole IPv6
space; a prefix length that is too long, and the longest; two networks in an OPT record behind an answer
record. -/
theorem variants_hide_subnets :
    (extractVariant (queryWith 1 (optRecord [])) 19 = extractVariant (announcingQuery 3 0 []) 19 ∧
      announcements (queryWith 1 (optRecord [])) = [] ∧
      announcements (announcingQuery 3 0 []) = [some ⟨3, 0, []⟩]) ∧
    (extractVariant (announcingQuery 1 0 []) 19 = extractVariant (announcingQuery 2 0 []) 19 ∧
      announcements (announcingQuery 1 0 []) = [some ⟨1, 0, []⟩] ∧
      announcements (announcingQuery 2 0 []) = [some ⟨2, 0, []⟩]) ∧
    (extractVariant (announcingQuery 1 32 [192, 0, 2, 1]) 19 =
        extractVariant (announcingQuery 1 33 [192, 0, 2, 1]) 19 ∧
      (announcements (announcingQuery 1 32 [192, 0, 2, 1])).map (Option.map Announced.prefixLen) = [some 32] ∧
      (announcements (announcingQuery 1 33 [192, 0, 2, 1])).map (Option.map Announced.prefixLen) =
        [some 33]) ∧
    (extractVariant (behindAnswer 24) 19 = extractVariant (behindAnswer 16) 19 ∧
      (announcements (behindAnswer 24)).map (Option.map Announced.prefixLen) = [some 24] ∧
      (announcements (behindAnswer 16)).map (Option.map Announced.prefixLen) = [some 16]) ∧
    [queryWith 1 (optRecord []), announcingQuery 3 0 [], announcingQuery 1 0 [], announcingQuery 2 0 [],
      announcingQuery 1 32 [192, 0, 2, 1], announcingQuery 1 33 [192, 0, 2, 1], behindAnswer 24,
      behindAnswer 16].all (fun q => (parseQueryFast q).isOk) := by
  decide +kernel

end PathDns
