import PathDns.IpRange
import PathDns.IpSet
import PathDns.Lib.Bytes

/-!
# The elements written to a set (`ipset/codec.rs`)

An address is masked to the prefix of its set. An interval set gets the half-open range from there to
`prefix_end`, where an end that wraps to the zero address is the end of the address space. A shift by the
width of its type or more overflows.
-/

namespace PathDns

open Bytes

/-- `x << n`. -/
def shl {w : Nat} (x : BitVec w) (n : Nat) : Checked (BitVec w) :=
  if n < w then .ok (x <<< n) else .error .overflow

/-- The mask of `apply_mask` for addresses of `w` bits. -/
def maskBits (w len : Nat) : Checked (BitVec w) :=
  if len = 0 then .ok 0
  else if w ≤ len then .ok (.allOnes w)
  else shl (.allOnes w) (w - len)

def applyMask (ip : IpAddr) (len : Nat) : Checked IpAddr :=
  match ip with
  | .v4 a => (maskBits 32 len).map fun mask => .v4 (a &&& mask)
  | .v6 a => (maskBits 128 len).map fun mask => .v6 (a &&& mask)

/-- The size of a block in `prefix_end`. -/
def blockSize (w len : Nat) : Checked (BitVec w) := if w ≤ len then .ok 1#w else shl 1#w (w - len)

def prefixEnd (network : IpAddr) (len : Nat) : Checked IpAddr :=
  match network with
  | .v4 a => (blockSize 32 len).map fun size => .v4 (a + size)
  | .v6 a => (blockSize 128 len).map fun size => .v6 (a + size)

/-- The two elements that are written for an address of an interval set with a mask. -/
def intervalOf (ip : IpAddr) (len : Nat) : Checked (IpAddr × IpAddr) := do
  let net ← applyMask ip len
  return (net, ← prefixEnd net len)

/-! ### The range of a prefix -/

def IpAddr.toNat : IpAddr → Nat
  | .v4 a => a.toNat
  | .v6 a => a.toNat

/-- The half-open range from the first to the second address; up to the last address when the second is
zero. -/
def Between (r : IpAddr × IpAddr) (x : IpAddr) : Prop :=
  x.SameFamily r.1 ∧ x.SameFamily r.2 ∧ r.1.toNat ≤ x.toNat ∧ (r.2.toNat = 0 ∨ x.toNat < r.2.toNat)

variable {w len : Nat}

theorem maskBits_eq : maskBits w len = .ok (BitVec.allOnes w <<< (w - len)) := by
  rw [maskBits, shl]
  split_ifs with hzero hfull hshift
  · rw [hzero, Nat.sub_zero, BitVec.shiftLeft_eq_zero (Nat.le_refl w)]
    rfl
  · rw [Nat.sub_eq_zero_of_le hfull, BitVec.shiftLeft_zero]
  · rfl
  · omega

theorem blockSize_eq (hzero : len ≠ 0) : blockSize w len = .ok (1#w <<< (w - len)) := by
  rw [blockSize, shl]
  split_ifs with hfull hshift
  · rw [Nat.sub_eq_zero_of_le hfull, BitVec.shiftLeft_zero]
  · rfl
  · omega

theorem between_block (a x : BitVec w) {k : Nat} (hk : k < w) :
    ((a &&& BitVec.allOnes w <<< k).toNat ≤ x.toNat ∧
      (((a &&& BitVec.allOnes w <<< k) + 1#w <<< k).toNat = 0 ∨
        x.toNat < ((a &&& BitVec.allOnes w <<< k) + 1#w <<< k).toNat)) ↔
    x.toNat / 2 ^ k = a.toNat / 2 ^ k := by
  have hpos := Nat.two_pow_pos k
  have hone : (1#w <<< k).toNat = 2 ^ k := by
    rw [← BitVec.twoPow_eq, BitVec.toNat_twoPow_of_lt hk]
  -- the block of `a` ends at the end of the space at the latest
  have hend : 2 ^ k * (a.toNat / 2 ^ k) + 2 ^ k ≤ 2 ^ w := by
    have hquot : a.toNat / 2 ^ k < 2 ^ (w - k) := by
      rw [Nat.div_lt_iff_lt_mul hpos, ← Nat.pow_add, Nat.sub_add_cancel hk.le]
      exact a.isLt
    calc 2 ^ k * (a.toNat / 2 ^ k) + 2 ^ k = 2 ^ k * (a.toNat / 2 ^ k + 1) := by rw [Nat.mul_add, Nat.mul_one]
      _ ≤ 2 ^ k * 2 ^ (w - k) := Nat.mul_le_mul_left _ hquot
      _ = 2 ^ w := by rw [← Nat.pow_add, Nat.add_sub_cancel' hk.le]
  have hx := x.isLt
  rw [BitVec.toNat_add, RustInt.toNat_and_mask, hone, Nat.div_eq_iff hpos, Nat.mul_comm]
  rcases Nat.lt_or_eq_of_le hend with hlt | heq
  · rw [Nat.mod_eq_of_lt hlt]
    omega
  · rw [heq, Nat.mod_self]
    omega

theorem SetName.mask_le_of_parse {raw : Str} {max : Nat} {set : SetName} (h : parse raw max = .ok set)
    (hmask : set.mask = some len) : len ≤ max := by
  rw [parse] at h
  cases hraw : parseRaw raw with
  | error e => simp [hraw, bind, Except.bind] at h
  | ok parsed =>
    simp only [hraw, bind, Except.bind] at h
    cases hparsed : parsed.mask with
    | none =>
      obtain rfl := Except.ok.inj (hparsed ▸ h)
      simp [hparsed] at hmask
    | some mask =>
      simp only [hparsed] at h
      split_ifs at h with hle
      obtain rfl := Except.ok.inj h
      obtain rfl := Option.some.inj (hparsed.symm.trans hmask)
      exact Nat.le_of_not_lt hle

theorem intervalOf_spec (ip : IpAddr) (hlen : len ≤ ip.bits) (hzero : len ≠ 0) : ∃ r,
    intervalOf ip len = .ok r ∧ ∀ x, Between r x ↔ x.SameFamily ip ∧ x.firstBits len = ip.firstBits len := by
  cases ip with
  | v4 a =>
    have hval : intervalOf (.v4 a) len = .ok (.v4 (a &&& BitVec.allOnes 32 <<< (32 - len)),
        .v4 ((a &&& BitVec.allOnes 32 <<< (32 - len)) + 1#32 <<< (32 - len))) := by
      have hmask := @maskBits_eq 32 len
      have hsize := @blockSize_eq 32 len hzero
      simp only [intervalOf, applyMask, hmask, Except.map, bind, Except.bind, prefixEnd, hsize]
      rfl
    refine ⟨_, hval, ?_⟩
    rintro (x | x)
    · have hblock := between_block a x (show 32 - len < 32 by omega)
      simpa [Between, IpAddr.SameFamily, IpAddr.toNat, IpAddr.firstBits] using hblock
    · simp [Between, IpAddr.SameFamily]
  | v6 a =>
    have hval : intervalOf (.v6 a) len = .ok (.v6 (a &&& BitVec.allOnes 128 <<< (128 - len)),
        .v6 ((a &&& BitVec.allOnes 128 <<< (128 - len)) + 1#128 <<< (128 - len))) := by
      have hmask := @maskBits_eq 128 len
      have hsize := @blockSize_eq 128 len hzero
      simp only [intervalOf, applyMask, hmask, Except.map, bind, Except.bind, prefixEnd, hsize]
      rfl
    refine ⟨_, hval, ?_⟩
    rintro (x | x)
    · simp [Between, IpAddr.SameFamily]
    · have hblock := between_block a x (show 128 - len < 128 by omega)
      simpa [Between, IpAddr.SameFamily, IpAddr.toNat, IpAddr.firstBits] using hblock

/-- The interval written for an address is that of its prefix, and no shift overflows, exactly for a prefix
of at least one bit. -/
theorem interval_exact_iff (raw : Str) (set : SetName) (len : Nat) (ip : IpAddr)
    (hparse : SetName.parse raw ip.bits = .ok set) (hmask : set.mask = some len) :
    (∃ r, intervalOf ip len = .ok r ∧
      ∀ x, Between r x ↔ x.SameFamily ip ∧ x.firstBits len = ip.firstBits len) ↔ len ≠ 0 := by
  constructor
  · rintro ⟨r, hr, -⟩ rfl
    cases ip <;> cases hr
  · exact intervalOf_spec ip (SetName.mask_le_of_parse hparse hmask)

theorem interval_exact_iff_sample : ∃ r, intervalOf (.v4 0x08080808) 24 = .ok r ∧
    ∀ x, Between r x ↔ x.SameFamily (.v4 0x08080808) ∧ x.firstBits 24 = IpAddr.firstBits 24 (.v4 0x08080808) :=
  (interval_exact_iff "inet@t@s@24".toList (.nftSet .inet ['t'] ['s'] (some 24)) 24 (.v4 0x08080808)
    (by decide +kernel) rfl).mpr (by decide)

theorem interval_zero_overflows :
    SetName.parse "inet@t@s@0".toList 32 = .ok (.nftSet .inet ['t'] ['s'] (some 0)) ∧
      intervalOf (.v4 0x08080808) 0 = .error .overflow := by
  decide +kernel

end PathDns
