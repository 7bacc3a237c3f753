import PathDns.Domain
import PathDns.Lib.Intervals
import PathDns.Lib.RustInt
import PathDns.Lib.RustParse
import PathDns.Lib.Search

/-!
# Address ranges (`iprange.rs`) and the ruleset database (`ruleset.rs`)

Ranges and CIDR lines are pushed in any order, sorted by their first address and merged where they overlap
or touch. The ranges of a set that was built are what its pushes cover, in the one form with gaps between
them.
-/

namespace PathDns

open RustParse Intervals

/-- `to_u128`: IPv4 in its IPv4-mapped IPv6 form. -/
def toU128 : IpAddr → BitVec 128
  | .v4 a => 0xffff00000000#128 ||| a.setWidth 128
  | .v6 a => a

/-- `IpRangeSet`: inclusive ranges sorted by their first address. -/
structure IpRangeSet where
  ranges : List (BitVec 128 × BitVec 128)
  sorted : ranges.Pairwise (fun r s => r.1 ≤ s.1)

theorem IpRangeSet.sorted_nil : ([] : List (BitVec 128 × BitVec 128)).Pairwise (fun r s => r.1 ≤ s.1) := .nil

/-- `IpRangeSet::contains`; on sorted ranges `partition_point` counts those that start at or below the
address. -/
def IpRangeSet.contains (set : IpRangeSet) (ip : IpAddr) : Bool :=
  let v := toU128 ip
  match (set.ranges.takeWhile (fun r => r.1 ≤ v)).getLast? with
  | none => false
  | some r => v ≤ r.2

inductive TagEntry where
  | domain (m : DomainMatcher Unit)
  | ipCidr (set : IpRangeSet)

structure RuleSetDb where
  tags : AList (fun _ : Str => TagEntry)

namespace RuleSetDb

/-- `matches`. -/
def matchesDomain (db : RuleSetDb) (tag domain : Str) : Bool :=
  match db.tags.lookup tag with
  | some (.domain m) => (m.lookupSpecific domain).isSome || (m.lookupFuzzy domain).isSome
  | _ => false

def matchesIp (db : RuleSetDb) (tag : Str) (ip : IpAddr) : Bool :=
  match db.tags.lookup tag with
  | some (.ipCidr set) => set.contains ip
  | _ => false

def matchesAnyIp (db : RuleSetDb) (tag : Str) (ips : List IpAddr) : Bool := ips.any (db.matchesIp tag)

def matchesAnswerIp (db : RuleSetDb) (m : AnswerIpMatcher) (ips : List IpAddr) : Bool :=
  let includeOk := m.includes.isEmpty || m.includes.any (fun tag => db.matchesAnyIp tag ips)
  let excludeOk := !m.excludes.any (fun tag => db.matchesAnyIp tag ips)
  includeOk && excludeOk

end RuleSetDb

/-! ### Building ranges -/

/-- `IpAddr::from_str`. -/
def parseIpAddr (s : Str) : Option IpAddr :=
  match (readIpv4 s).map (fun r => (IpAddr.v4 r.1, r.2)) <|> (readIpv6 s).map (fun r => (IpAddr.v6 r.1, r.2)) with
  | some (ip, []) => some ip
  | _ => none

/-- The number of bits of an address. -/
def IpAddr.bits : IpAddr → Nat
  | .v4 _ => 32
  | .v6 _ => 128

def parseCidrRange (line : Str) : Except String (BitVec 128 × BitVec 128) := do
  let (addr, len) := match splitOnce ['/'] line with
    | some (a, p) => (a, some p)
    | none => (line, none)
  let ip ← (parseIpAddr addr).elim (.error "not an IP address") .ok
  let familyBits := ip.bits
  let prefixLen ← match len with
    | some p => (parseUnsigned 10 (2 ^ 32) p).elim (.error "not a valid prefix length") .ok
    | none => .ok familyBits
  if prefixLen > familyBits then
    .error s!"prefix length {prefixLen} exceeds {familyBits} for this address family"
  let base := toU128 ip
  let hostBits := familyBits - prefixLen
  let mask : BitVec 128 := if hostBits ≥ 128 then 0 else BitVec.allOnes 128 <<< hostBits
  .ok (base &&& mask, base ||| ~~~mask)

/-- `u128::saturating_add(1)`. -/
def saturatingSucc (v : BitVec 128) : BitVec 128 := if v = BitVec.allOnes 128 then v else v + 1

/-- `IpRangeSetBuilder`: pushed ranges are not empty. -/
structure IpRangeSetBuilder where
  ranges : List (BitVec 128 × BitVec 128)
  proper : ∀ r ∈ ranges, r.1 ≤ r.2

/-- What is pushed into a builder. -/
inductive Push where
  | range (low high : BitVec 128)
  | cidrLine (line : Str)

/-- One range of the loop in `build`. -/
def mergeRange (merged : List (BitVec 128 × BitVec 128)) (r : BitVec 128 × BitVec 128) :
    List (BitVec 128 × BitVec 128) :=
  match merged.getLast? with
  | some last =>
    if r.1 ≤ saturatingSucc last.2 then
      if last.2 < r.2 then merged.dropLast ++ [(last.1, r.2)] else merged
    else merged ++ [r]
  | none => merged ++ [r]

namespace IpRangeSetBuilder

/-- `IpRangeSetBuilder::default`. -/
def empty : IpRangeSetBuilder := ⟨[], by simp⟩

def pushRange (b : IpRangeSetBuilder) (low high : BitVec 128) : IpRangeSetBuilder :=
  if h : low ≤ high then
    ⟨b.ranges ++ [(low, high)], by
      intro r hr
      rcases List.mem_append.mp hr with hr | hr
      · exact b.proper r hr
      · rw [List.mem_singleton.mp hr]
        exact h⟩
  else b

def pushCidrLine (b : IpRangeSetBuilder) (line : Str) : Except String IpRangeSetBuilder := do
  let (low, high) ← parseCidrRange line
  .ok (b.pushRange low high)

/-- The ranges by their first address, as `sort_unstable_by_key` leaves them. -/
def sortedRanges (b : IpRangeSetBuilder) : List (BitVec 128 × BitVec 128) :=
  b.ranges.mergeSort (fun r s => decide (r.1 ≤ s.1))

end IpRangeSetBuilder

/-- `contains` with the index that `partition_point` finds. -/
def IpRangeSet.searchContains (set : IpRangeSet) (ip : IpAddr) : Bool :=
  let v := toU128 ip
  let idx := Search.partitionPoint (fun r => decide (r.1 ≤ v)) set.ranges
  0 < idx && (set.ranges[idx - 1]?).any (fun r => decide (v ≤ r.2))

theorem IpRangeSet.contains_eq_search (set : IpRangeSet) (ip : IpAddr) :
    set.contains ip = set.searchContains ip := by
  have hfirst : set.ranges.Pairwise (fun r s =>
      decide (s.1 ≤ toU128 ip) = true → decide (r.1 ≤ toU128 ip) = true) := by
    refine set.sorted.imp ?_
    intro r s hrs hs
    rw [decide_eq_true_eq, BitVec.le_def] at *
    exact hrs.trans hs
  simp only [contains, searchContains, Search.partitionPoint_takeWhile hfirst]
  -- the last one taken stands in front of the index
  obtain ⟨rest, hrest⟩ := List.takeWhile_prefix (l := set.ranges) (fun r => decide (r.1 ≤ toU128 ip))
  rcases List.eq_nil_or_concat' (set.ranges.takeWhile (fun r => decide (r.1 ≤ toU128 ip))) with
    hnil | ⟨init, last, hlast⟩
  · rw [hnil]
    rfl
  · rw [hlast] at hrest ⊢
    rw [List.getLast?_concat, ← hrest]
    simp

/-! ### The order of the addresses -/

section Order

theorem toNat_saturatingSucc (v : BitVec 128) :
    (saturatingSucc v).toNat = min (v.toNat + 1) (2 ^ 128 - 1) := by
  have hlt := v.isLt
  rw [saturatingSucc]
  split_ifs with hmax
  · subst hmax
    simp
  · have hne : v.toNat ≠ 2 ^ 128 - 1 := fun h => hmax (BitVec.eq_of_toNat_eq (by simpa using h))
    rw [BitVec.toNat_add, Nat.mod_eq_of_lt (by simp; omega)]
    simp
    omega

/-- Addresses are ordered as numbers. -/
local instance addressOrder : LinearOrder (BitVec 128) where
  le := (· ≤ ·)
  lt := (· < ·)
  le_refl v := Nat.le_refl v.toNat
  le_trans _ _ _ h h' := Nat.le_trans h h'
  lt_iff_le_not_ge _ _ := Nat.lt_iff_le_and_not_ge
  le_antisymm _ _ h h' := BitVec.eq_of_toNat_eq (Nat.le_antisymm h h')
  le_total v w := Nat.le_total v.toNat w.toNat
  toDecidableLE := inferInstance
  toDecidableLT := inferInstance

local instance addressSucc : SuccOrder (BitVec 128) where
  succ := saturatingSucc
  le_succ v := by
    rw [BitVec.le_def, toNat_saturatingSucc]
    have hlt := v.isLt
    omega
  max_of_succ_le := by
    intro v h w _
    rw [BitVec.le_def, toNat_saturatingSucc] at h
    rw [BitVec.le_def]
    have hw := w.isLt
    have hv := v.isLt
    omega
  succ_le_of_lt := by
    intro v w h
    rw [BitVec.lt_def] at h
    rw [BitVec.le_def, toNat_saturatingSucc]
    have hw := w.isLt
    omega

theorem mergeRange_eq_absorb (merged : List (BitVec 128 × BitVec 128)) (r : BitVec 128 × BitVec 128) :
    mergeRange merged r = absorb merged r := by
  rw [mergeRange, absorb]
  cases merged.getLast? <;> rfl

/-- Merging ranges in the order of their first addresses, whatever the order of those that start alike. -/
theorem foldl_mergeRange {rs : List (BitVec 128 × BitVec 128)} (hproper : ∀ r ∈ rs, r.1 ≤ r.2)
    (hsorted : rs.Pairwise (fun r s => r.1 ≤ s.1)) :
    Separated (rs.foldl mergeRange []) ∧ ∀ v, Covers (rs.foldl mergeRange []) v ↔ Covers rs v := by
  rw [show mergeRange = absorb from funext fun merged => funext (mergeRange_eq_absorb merged)]
  exact merge_spec hproper hsorted

namespace IpRangeSetBuilder

theorem sortedRanges_perm (b : IpRangeSetBuilder) : b.sortedRanges.Perm b.ranges :=
  List.mergeSort_perm _ _

theorem sortedRanges_pairwise (b : IpRangeSetBuilder) :
    b.sortedRanges.Pairwise (fun r s => r.1 ≤ s.1) := by
  have h : b.sortedRanges.Pairwise (fun r s => decide (r.1 ≤ s.1) = true) := by
    apply List.pairwise_mergeSort
    · intro r s t hrs hst
      rw [decide_eq_true_eq] at *
      exact le_trans hrs hst
    · intro r s
      rw [Bool.or_eq_true, decide_eq_true_eq, decide_eq_true_eq]
      exact le_total r.1 s.1
  exact h.imp of_decide_eq_true

theorem sortedRanges_proper (b : IpRangeSetBuilder) : ∀ r ∈ b.sortedRanges, r.1 ≤ r.2 :=
  fun r hr => b.proper r (b.sortedRanges_perm.mem_iff.mp hr)

def build (b : IpRangeSetBuilder) : IpRangeSet where
  ranges := b.sortedRanges.foldl mergeRange []
  sorted := (foldl_mergeRange b.sortedRanges_proper b.sortedRanges_pairwise).1.starts_lt.imp le_of_lt

theorem build_separated (b : IpRangeSetBuilder) : Separated b.build.ranges :=
  (foldl_mergeRange b.sortedRanges_proper b.sortedRanges_pairwise).1

theorem build_proper (b : IpRangeSetBuilder) : ∀ r ∈ b.build.ranges, r.1.toNat ≤ r.2.toNat :=
  b.build_separated.proper

theorem build_apart (b : IpRangeSetBuilder) :
    b.build.ranges.Pairwise (fun r s => r.2.toNat + 1 < s.1.toNat) := by
  refine b.build_separated.apart.imp ?_
  intro r s hgap
  have hgap' : (saturatingSucc r.2).toNat < s.1.toNat := hgap
  rw [toNat_saturatingSucc] at hgap'
  have hs := s.1.isLt
  omega

theorem covers_build (b : IpRangeSetBuilder) (v : BitVec 128) :
    Covers b.build.ranges v ↔ Covers b.ranges v :=
  ((foldl_mergeRange b.sortedRanges_proper b.sortedRanges_pairwise).2 v).trans
    (covers_perm b.sortedRanges_perm)

theorem contains_build (b : IpRangeSetBuilder) (ip : IpAddr) :
    b.build.contains ip = true ↔ Covers b.ranges (toU128 ip) := by
  rw [← b.covers_build, b.build_separated.covers_iff_getLast?, IpRangeSet.contains]
  cases h : (b.build.ranges.takeWhile (fun r => decide (r.1 ≤ toU128 ip))).getLast? with
  | none => simp
  | some r => simp

/-- The binary search in the sorted and merged ranges finds an address exactly if a pushed range has it. -/
theorem searchContains_build (b : IpRangeSetBuilder) (ip : IpAddr) :
    b.build.searchContains ip = true ↔ ∃ r ∈ b.ranges, r.1 ≤ toU128 ip ∧ toU128 ip ≤ r.2 := by
  rw [← IpRangeSet.contains_eq_search, contains_build]
  rfl

end IpRangeSetBuilder

end Order

/-! ### The range of a CIDR line -/

/-- The blocks of `d` numbers fill the numbers below `q * d`, also counted from the top. -/
theorem div_from_top {b d q : Nat} (hd : 0 < d) (hb : b < q * d) :
    q * d - 1 - (q * d - 1 - b) / d * d = b / d * d + (d - 1) := by
  have hsplit := Nat.div_add_mod b d
  have hmod := Nat.mod_lt b hd
  have hq : b / d + 1 ≤ q := (Nat.div_lt_iff_lt_mul hd).mpr hb
  have hblock : (q - 1 - b / d) * d + d + b / d * d = q * d := by
    rw [Nat.sub_mul, Nat.sub_mul]
    have h1 : (b / d + 1) * d ≤ q * d := Nat.mul_le_mul_right d hq
    rw [Nat.add_mul, Nat.one_mul] at h1
    omega
  have htop : (q * d - 1 - b) / d = q - 1 - b / d := by
    apply Nat.div_eq_of_lt_le
    · rw [Nat.mul_comm d] at hsplit
      omega
    · rw [Nat.mul_comm d] at hsplit
      rw [Nat.add_mul, Nat.one_mul]
      omega
  rw [htop]
  omega

theorem toNat_or_not_mask (base : BitVec 128) {h : Nat} (hh : h ≤ 128) :
    (base ||| ~~~(BitVec.allOnes 128 <<< h)).toNat = base.toNat / 2 ^ h * 2 ^ h + (2 ^ h - 1) := by
  have hnot : base ||| ~~~(BitVec.allOnes 128 <<< h) = ~~~(~~~base &&& BitVec.allOnes 128 <<< h) := by
    rw [BitVec.not_and, BitVec.not_not]
  have hpow : (2 : Nat) ^ 128 = 2 ^ (128 - h) * 2 ^ h := by rw [← Nat.pow_add, Nat.sub_add_cancel hh]
  have hlt := base.isLt
  rw [hnot, BitVec.toNat_not, RustInt.toNat_and_mask, BitVec.toNat_not]
  rw [hpow] at hlt ⊢
  exact div_from_top (Nat.two_pow_pos h) hlt

/-- A value lies between the masked ends exactly when it shares the bits above the host part. -/
theorem masked_range_iff (base v : BitVec 128) {h : Nat} (hh : h ≤ 128) :
    (base &&& BitVec.allOnes 128 <<< h ≤ v ∧ v ≤ base ||| ~~~(BitVec.allOnes 128 <<< h)) ↔
      v.toNat / 2 ^ h = base.toNat / 2 ^ h := by
  rw [BitVec.le_def, BitVec.le_def, RustInt.toNat_and_mask, toNat_or_not_mask base hh]
  have hpos := Nat.two_pow_pos h
  constructor
  · rintro ⟨hlow, hhigh⟩
    apply Nat.div_eq_of_lt_le hlow
    rw [Nat.add_mul, Nat.one_mul]
    omega
  · intro heq
    have hsplit := Nat.div_add_mod v.toNat (2 ^ h)
    have hmod := Nat.mod_lt v.toNat hpos
    rw [heq, Nat.mul_comm] at hsplit
    omega

theorem toNat_toU128_v4 (a : BitVec 32) : (toU128 (.v4 a)).toNat = 0xffff * 2 ^ 32 + a.toNat := by
  have hlt := a.isLt
  have hor := Nat.shiftLeft_add_eq_or_of_lt hlt 0xffff
  rw [Nat.shiftLeft_eq] at hor
  rw [toU128, BitVec.toNat_or, BitVec.toNat_setWidth, Nat.mod_eq_of_lt (by omega), hor]
  rfl

theorem toU128_v4_injective {a b : BitVec 32} (h : toU128 (.v4 a) = toU128 (.v4 b)) : a = b := by
  have hnat := congrArg BitVec.toNat h
  rw [toNat_toU128_v4, toNat_toU128_v4] at hnat
  exact BitVec.eq_of_toNat_eq (Nat.add_left_cancel hnat)

theorem exists_toU128_v4 {v : BitVec 128} (h : v.toNat / 2 ^ 32 = 0xffff) :
    ∃ a : BitVec 32, toU128 (.v4 a) = v := by
  refine ⟨.ofNat 32 v.toNat, BitVec.eq_of_toNat_eq ?_⟩
  rw [toNat_toU128_v4, BitVec.toNat_ofNat]
  omega

/-- Two addresses of one family. -/
def IpAddr.SameFamily : IpAddr → IpAddr → Prop
  | .v4 _, .v4 _ => True
  | .v6 _, .v6 _ => True
  | _, _ => False

/-- The first `len` bits of an address, as a number. -/
def IpAddr.firstBits (len : Nat) : IpAddr → Nat
  | .v4 a => a.toNat / 2 ^ (32 - len)
  | .v6 a => a.toNat / 2 ^ (128 - len)

/-- The address of a CIDR line and the length of its prefix, all bits where the line has none. -/
def CidrLine (line : Str) (ip : IpAddr) (len : Nat) : Prop :=
  match splitOnce ['/'] line with
  | some (a, p) => parseIpAddr a = some ip ∧ parseUnsigned 10 (2 ^ 32) p = some len
  | none => parseIpAddr line = some ip ∧ len = ip.bits

theorem CidrLine.unique {line : Str} {ip ip' : IpAddr} {len len' : Nat} (h : CidrLine line ip len)
    (h' : CidrLine line ip' len') : ip = ip' ∧ len = len' := by
  unfold CidrLine at h h'
  cases hsplit : splitOnce ['/'] line with
  | some ap =>
    simp only [hsplit] at h h'
    exact ⟨Option.some.inj (h.1.symm.trans h'.1), Option.some.inj (h.2.symm.trans h'.2)⟩
  | none =>
    simp only [hsplit] at h h'
    obtain rfl := Option.some.inj (h.1.symm.trans h'.1)
    exact ⟨rfl, h.2.trans h'.2.symm⟩

theorem IpAddr.bits_le (ip : IpAddr) : ip.bits ≤ 128 := by
  cases ip with
  | v4 _ => exact Nat.le_of_ble_eq_true rfl
  | v6 _ => exact Nat.le_refl 128

/-- The lines that are accepted, and the range of each. -/
theorem parseCidrRange_eq_ok_iff {line : Str} {r : BitVec 128 × BitVec 128} :
    parseCidrRange line = .ok r ↔ ∃ ip len, CidrLine line ip len ∧ len ≤ ip.bits ∧
      r = (toU128 ip &&& BitVec.allOnes 128 <<< (ip.bits - len),
        toU128 ip ||| ~~~(BitVec.allOnes 128 <<< (ip.bits - len))) := by
  have hmask : ∀ h : Nat, (if h ≥ 128 then (0 : BitVec 128) else BitVec.allOnes 128 <<< h) =
      BitVec.allOnes 128 <<< h := by
    intro h
    split_ifs with hh
    · exact (BitVec.shiftLeft_eq_zero hh).symm
    · rfl
  rw [parseCidrRange]
  simp only [CidrLine, hmask]
  cases hsplit : splitOnce ['/'] line with
  | none =>
    cases hip : parseIpAddr line with
    | none => simp [bind, Except.bind]
    | some ip => simp [bind, Except.bind, eq_comm]
  | some ap =>
    cases hip : parseIpAddr ap.1 with
    | none => simp [hip, bind, Except.bind]
    | some ip =>
      simp only [hip]
      cases hlen : parseUnsigned 10 (2 ^ 32) ap.2 with
      | none => simp [bind, Except.bind]
      | some len =>
        by_cases hle : len ≤ ip.bits
        · simp [bind, Except.bind, hle, Nat.not_lt.mpr hle, eq_comm]
        · simp [bind, Except.bind, hle, Nat.not_le.mp hle]

theorem mapped_div (a : Nat) {h : Nat} (hh : h ≤ 32) :
    (0xffff * 2 ^ 32 + a) / 2 ^ h = 0xffff * 2 ^ (32 - h) + a / 2 ^ h := by
  have hpow : (2 : Nat) ^ 32 = 2 ^ (32 - h) * 2 ^ h := by rw [← Nat.pow_add, Nat.sub_add_cancel hh]
  rw [hpow, ← Nat.mul_assoc, Nat.add_comm, Nat.add_mul_div_right _ _ (Nat.two_pow_pos h), Nat.add_comm]

/-- The values that share the first bits are the addresses of the family that share them. -/
theorem sharing_iff (ip : IpAddr) {len : Nat} (hlen : len ≤ ip.bits) (v : BitVec 128) :
    v.toNat / 2 ^ (ip.bits - len) = (toU128 ip).toNat / 2 ^ (ip.bits - len) ↔
      ∃ ip' : IpAddr, ip'.SameFamily ip ∧ toU128 ip' = v ∧ ip'.firstBits len = ip.firstBits len := by
  cases ip with
  | v6 a =>
    constructor
    · intro h
      exact ⟨.v6 v, trivial, rfl, h⟩
    · rintro ⟨ip', hfamily, rfl, h⟩
      cases ip' with
      | v4 _ => exact hfamily.elim
      | v6 _ => exact h
  | v4 a =>
    have hlen : len ≤ 32 := hlen
    have hle : 32 - len ≤ 32 := Nat.sub_le 32 len
    have halt : a.toNat / 2 ^ (32 - len) < 2 ^ len := by
      rw [Nat.div_lt_iff_lt_mul (Nat.two_pow_pos _), ← Nat.pow_add, Nat.add_sub_cancel' hlen]
      exact a.isLt
    change v.toNat / 2 ^ (32 - len) = (toU128 (.v4 a)).toNat / 2 ^ (32 - len) ↔
      ∃ ip' : IpAddr, ip'.SameFamily (.v4 a) ∧ toU128 ip' = v ∧
        ip'.firstBits len = a.toNat / 2 ^ (32 - len)
    rw [toNat_toU128_v4, mapped_div _ hle, Nat.sub_sub_self hlen]
    constructor
    · intro h
      -- the bits above the last 32 are those of the mapping
      have hhigh : v.toNat / 2 ^ 32 = 0xffff := by
        have hpow : (2 : Nat) ^ 32 = 2 ^ (32 - len) * 2 ^ len := by
          rw [← Nat.pow_add, Nat.sub_add_cancel hlen]
        rw [hpow, ← Nat.div_div_eq_div_mul, h, Nat.add_comm,
          Nat.add_mul_div_right _ _ (Nat.two_pow_pos len), Nat.div_eq_of_lt halt, Nat.zero_add]
      obtain ⟨b, rfl⟩ := exists_toU128_v4 hhigh
      refine ⟨.v4 b, trivial, rfl, ?_⟩
      rw [toNat_toU128_v4, mapped_div _ hle, Nat.sub_sub_self hlen] at h
      exact Nat.add_left_cancel h
    · rintro ⟨ip', hfamily, rfl, h⟩
      cases ip' with
      | v6 _ => exact hfamily.elim
      | v4 b =>
        rw [IpAddr.firstBits] at h
        rw [toNat_toU128_v4, mapped_div _ hle, Nat.sub_sub_self hlen, h]

/-! ### What a built set holds -/

namespace IpRangeSetBuilder

/-- One push; a line that is not accepted leaves the builder as it was. -/
def push (b : IpRangeSetBuilder) : Push → IpRangeSetBuilder
  | .range low high => b.pushRange low high
  | .cidrLine line =>
    match b.pushCidrLine line with
    | .ok b' => b'
    | .error _ => b

def pushAll (pushes : List Push) : IpRangeSetBuilder := pushes.foldl push empty

end IpRangeSetBuilder

/-- The value lies in the pushed range. -/
def Push.Holds (v : BitVec 128) : Push → Prop
  | .range low high => low ≤ v ∧ v ≤ high
  | .cidrLine line => ∃ r, parseCidrRange line = .ok r ∧ r.1 ≤ v ∧ v ≤ r.2

namespace IpRangeSetBuilder

theorem covers_pushRange (b : IpRangeSetBuilder) (low high v : BitVec 128) :
    (∃ r ∈ (b.pushRange low high).ranges, r.1 ≤ v ∧ v ≤ r.2) ↔
      (∃ r ∈ b.ranges, r.1 ≤ v ∧ v ≤ r.2) ∨ (low ≤ v ∧ v ≤ high) := by
  rw [pushRange]
  split_ifs with h
  · simp [or_and_right, exists_or]
  · refine (or_iff_left ?_).symm
    rintro ⟨hlow, hhigh⟩
    rw [BitVec.le_def] at h hlow hhigh
    exact h (hlow.trans hhigh)

theorem covers_push (b : IpRangeSetBuilder) (p : Push) (v : BitVec 128) :
    (∃ r ∈ (b.push p).ranges, r.1 ≤ v ∧ v ≤ r.2) ↔
      (∃ r ∈ b.ranges, r.1 ≤ v ∧ v ≤ r.2) ∨ p.Holds v := by
  cases p with
  | range low high => exact b.covers_pushRange low high v
  | cidrLine line =>
    simp only [push, pushCidrLine, Push.Holds]
    cases hparse : parseCidrRange line with
    | error e => simp [bind, Except.bind]
    | ok r =>
      simp only [bind, Except.bind, Except.ok.injEq, exists_eq_left']
      exact b.covers_pushRange r.1 r.2 v

theorem covers_pushAll (pushes : List Push) (v : BitVec 128) :
    (∃ r ∈ (pushAll pushes).ranges, r.1 ≤ v ∧ v ≤ r.2) ↔ ∃ p ∈ pushes, p.Holds v := by
  have hfold : ∀ b : IpRangeSetBuilder, (∃ r ∈ (pushes.foldl push b).ranges, r.1 ≤ v ∧ v ≤ r.2) ↔
      (∃ r ∈ b.ranges, r.1 ≤ v ∧ v ≤ r.2) ∨ ∃ p ∈ pushes, p.Holds v := by
    induction pushes with
    | nil => simp
    | cons p ps ih =>
      intro b
      rw [List.foldl_cons, ih, covers_push, or_assoc]
      simp
  rw [pushAll, hfold]
  simp [empty]

/-- A built set is sorted with gaps between its ranges and holds exactly the addresses of the pushed ranges,
and the range of an accepted line is the set of addresses of its family that share its prefix. -/
theorem build_exact (pushes : List Push) :
    (∀ r ∈ (pushAll pushes).build.ranges, r.1 ≤ r.2) ∧
    (pushAll pushes).build.ranges.Pairwise (fun r s => r.2.toNat + 1 < s.1.toNat) ∧
    (∀ ip, (pushAll pushes).build.contains ip = true ↔ ∃ p ∈ pushes, p.Holds (toU128 ip)) ∧
    ∀ line low high, parseCidrRange line = .ok (low, high) →
      ∃ ip len, CidrLine line ip len ∧ len ≤ ip.bits ∧ ∀ v, low ≤ v ∧ v ≤ high ↔
        ∃ ip' : IpAddr, ip'.SameFamily ip ∧ toU128 ip' = v ∧ ip'.firstBits len = ip.firstBits len := by
  refine ⟨(pushAll pushes).build_proper, (pushAll pushes).build_apart, ?_, ?_⟩
  · intro ip
    rw [contains_build, ← covers_pushAll]
    exact Iff.rfl
  · intro line low high h
    obtain ⟨ip, len, hline, hlen, heq⟩ := parseCidrRange_eq_ok_iff.mp h
    rw [Prod.mk.injEq] at heq
    refine ⟨ip, len, hline, hlen, ?_⟩
    intro v
    have hhost : ip.bits - len ≤ 128 := (Nat.sub_le _ _).trans ip.bits_le
    rw [heq.1, heq.2, masked_range_iff _ _ hhost, sharing_iff ip hlen]

end IpRangeSetBuilder

/-! ### The families in one space -/

/-- The IPv6 block of the first `len` bits of `base` lies in the block of the mapped addresses. -/
def InMappedBlock (base : BitVec 128) (len : Nat) : Prop :=
  ∀ v : BitVec 128, (IpAddr.v6 v).firstBits len = (IpAddr.v6 base).firstBits len →
    ∃ a : BitVec 32, toU128 (.v4 a) = v

/-- The IPv6 block contains the block of the mapped addresses. -/
def ContainsMappedBlock (base : BitVec 128) (len : Nat) : Prop :=
  ∀ a : BitVec 32, (IpAddr.v6 (toU128 (.v4 a))).firstBits len = (IpAddr.v6 base).firstBits len

/-- An IPv4 line that covers the address. -/
def Ipv4LineCovers (line : Str) (a : BitVec 32) : Prop :=
  ∃ base len, CidrLine line (.v4 base) len ∧ len ≤ 32 ∧
    (IpAddr.v4 a).firstBits len = (IpAddr.v4 base).firstBits len

/-- An IPv6 line that covers the mapped form of the address, with a block of the given kind. -/
def Ipv6LineCovers (kind : BitVec 128 → Nat → Prop) (line : Str) (a : BitVec 32) : Prop :=
  ∃ base len, CidrLine line (.v6 base) len ∧ len ≤ 128 ∧ kind base len ∧
    (IpAddr.v6 (toU128 (.v4 a))).firstBits len = (IpAddr.v6 base).firstBits len

/-- Two blocks of first bits are disjoint or one contains the other. -/
theorem inMappedBlock_or_contains {base : BitVec 128} {len : Nat} {a : BitVec 32}
    (h : (IpAddr.v6 (toU128 (.v4 a))).firstBits len = (IpAddr.v6 base).firstBits len) :
    InMappedBlock base len ∨ ContainsMappedBlock base len := by
  have hhigh : ∀ b : BitVec 32, (toU128 (.v4 b)).toNat / 2 ^ 32 = 0xffff := by
    intro b
    have hb := b.isLt
    rw [toNat_toU128_v4]
    omega
  obtain hlen | hlen := Nat.le_total (128 - len) 32
  · -- the first bits include the high ones
    have hpow : (2 : Nat) ^ 32 = 2 ^ (128 - len) * 2 ^ (32 - (128 - len)) := by
      rw [← Nat.pow_add, Nat.add_sub_cancel' hlen]
    refine .inl fun v hv => exists_toU128_v4 ?_
    have hsame : v.toNat / 2 ^ (128 - len) = (toU128 (.v4 a)).toNat / 2 ^ (128 - len) := hv.trans h.symm
    rw [← hhigh a, hpow, ← Nat.div_div_eq_div_mul, hsame, Nat.div_div_eq_div_mul]
  · -- the high bits include the first ones
    have hpow : (2 : Nat) ^ (128 - len) = 2 ^ 32 * 2 ^ (128 - len - 32) := by
      rw [← Nat.pow_add, Nat.add_sub_cancel' hlen]
    refine .inr fun b => Eq.trans ?_ h
    simp only [IpAddr.firstBits]
    rw [hpow, ← Nat.div_div_eq_div_mul, ← Nat.div_div_eq_div_mul, hhigh a, hhigh b]

theorem holds_toU128_v4_iff (line : Str) (a : BitVec 32) :
    (Push.cidrLine line).Holds (toU128 (.v4 a)) ↔ Ipv4LineCovers line a ∨
      Ipv6LineCovers (fun base len => InMappedBlock base len ∨ ContainsMappedBlock base len) line a := by
  have hrange : (Push.cidrLine line).Holds (toU128 (.v4 a)) ↔ ∃ ip len, CidrLine line ip len ∧
      len ≤ ip.bits ∧ (toU128 (.v4 a)).toNat / 2 ^ (ip.bits - len) =
        (toU128 ip).toNat / 2 ^ (ip.bits - len) := by
    simp only [Push.Holds, parseCidrRange_eq_ok_iff]
    constructor
    · rintro ⟨r, ⟨ip, len, hline, hlen, rfl⟩, hr⟩
      exact ⟨ip, len, hline, hlen, (masked_range_iff _ _ ((Nat.sub_le _ _).trans ip.bits_le)).mp hr⟩
    · rintro ⟨ip, len, hline, hlen, hshare⟩
      exact ⟨_, ⟨ip, len, hline, hlen, rfl⟩,
        (masked_range_iff _ _ ((Nat.sub_le _ _).trans ip.bits_le)).mpr hshare⟩
  rw [hrange]
  constructor
  · rintro ⟨ip, len, hline, hlen, hshare⟩
    cases ip with
    | v4 base =>
      obtain ⟨ip', hfamily, hmap, hbits⟩ := (sharing_iff (.v4 base) hlen _).mp hshare
      cases ip' with
      | v6 _ => exact hfamily.elim
      | v4 b =>
        obtain rfl : b = a := toU128_v4_injective hmap
        exact .inl ⟨base, len, hline, hlen, hbits⟩
    | v6 base => exact .inr ⟨base, len, hline, hlen, inMappedBlock_or_contains hshare, hshare⟩
  · rintro (⟨base, len, hline, hlen, hbits⟩ | ⟨base, len, hline, hlen, -, hbits⟩)
    · exact ⟨.v4 base, len, hline, hlen,
        (sharing_iff (.v4 base) hlen _).mpr ⟨.v4 a, trivial, rfl, hbits⟩⟩
    · exact ⟨.v6 base, len, hline, hlen, hbits⟩

namespace IpRangeSetBuilder

/-- A built set contains an IPv4 address exactly when an IPv4 line covers it, or an IPv6 line whose block
lies in the block of the mapped addresses or contains it; no other IPv6 line holds an IPv4 address. -/
theorem contains_v4_iff (lines : List Str) (a : BitVec 32) :
    ((pushAll (lines.map .cidrLine)).build.contains (.v4 a) = true ↔ ∃ line ∈ lines,
      Ipv4LineCovers line a ∨
        Ipv6LineCovers (fun base len => InMappedBlock base len ∨ ContainsMappedBlock base len) line a) ∧
    ∀ line base len, CidrLine line (.v6 base) len → ¬ InMappedBlock base len →
      ¬ ContainsMappedBlock base len → (pushAll [.cidrLine line]).build.contains (.v4 a) = false := by
  have hiff : ∀ lines : List Str, (pushAll (lines.map .cidrLine)).build.contains (.v4 a) = true ↔
      ∃ line ∈ lines, Ipv4LineCovers line a ∨
        Ipv6LineCovers (fun base len => InMappedBlock base len ∨ ContainsMappedBlock base len) line a := by
    intro lines
    rw [(build_exact _).2.2.1]
    simp only [List.mem_map, exists_exists_and_eq_and, holds_toU128_v4_iff]
  refine ⟨hiff lines, fun line base len hline hin hcontains => ?_⟩
  rw [← Bool.not_eq_true, show [Push.cidrLine line] = [line].map .cidrLine from rfl, hiff]
  rintro ⟨l, hl, hcovers⟩
  obtain rfl := List.mem_singleton.mp hl
  rcases hcovers with ⟨base', len', hline', -⟩ | ⟨base', len', hline', -, hkind, -⟩
  · simpa using (hline.unique hline').1
  · obtain ⟨hbase, rfl⟩ := hline.unique hline'
    obtain rfl := IpAddr.v6.inj hbase
    exact hkind.elim hin hcontains

/-- The line of all IPv6 addresses makes an IPv4 address match. -/
theorem allV6_contains_v4 :
    (pushAll [.cidrLine "::/0".toList]).build.contains (.v4 0x01020304) = true ∧
    ¬ ∃ line ∈ ["::/0".toList], Ipv4LineCovers line 0x01020304 ∨
      Ipv6LineCovers InMappedBlock line 0x01020304 := by
  have hall : CidrLine "::/0".toList (.v6 0) 0 := by
    have hsplit : splitOnce ['/'] "::/0".toList = some ("::".toList, "0".toList) := by decide +kernel
    rw [CidrLine, hsplit]
    exact ⟨by decide +kernel, by decide +kernel⟩
  refine ⟨by decide +kernel, ?_⟩
  rintro ⟨line, hline, hcovers⟩
  obtain rfl := List.mem_singleton.mp hline
  rcases hcovers with ⟨base, len, hline, -⟩ | ⟨base, len, hline, -, hin, -⟩
  · simpa using (hall.unique hline).1
  · obtain ⟨hbase, rfl⟩ := hall.unique hline
    obtain rfl := IpAddr.v6.inj hbase
    -- the block holds the address 0, which is no mapped one
    obtain ⟨a, ha⟩ := hin 0 rfl
    have hzero := congrArg BitVec.toNat ha
    rw [toNat_toU128_v4] at hzero
    simp at hzero

end IpRangeSetBuilder

end PathDns
