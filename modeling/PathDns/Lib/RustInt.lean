import Mathlib.Algebra.Group.Nat.Defs
import Mathlib.Order.MinMax
import Mathlib.Data.Nat.Basic
import Mathlib.Order.Lattice

/-!
# Arithmetic on machine words

The operations of the standard library on machine words, each with the number it computes.
-/

namespace RustInt

/-- `u64::MAX`. -/
def u64Max : UInt64 := 0xFFFFFFFFFFFFFFFF

@[simp] theorem toNat_u64Max : u64Max.toNat = 2 ^ 64 - 1 := rfl

def saturatingMul (a b : UInt64) : UInt64 := if a.toNat * b.toNat < 2 ^ 64 then a * b else u64Max

def saturatingAdd (a b : UInt64) : UInt64 := if a.toNat + b.toNat < 2 ^ 64 then a + b else u64Max

theorem toNat_saturatingMul (a b : UInt64) :
    (saturatingMul a b).toNat = min (a.toNat * b.toNat) (2 ^ 64 - 1) := by
  rw [saturatingMul]
  split_ifs with h
  · rw [UInt64.toNat_mul, Nat.mod_eq_of_lt h, Nat.min_eq_left (Nat.le_sub_one_of_lt h)]
  · rw [toNat_u64Max, Nat.min_eq_right]
    omega

theorem toNat_saturatingAdd (a b : UInt64) :
    (saturatingAdd a b).toNat = min (a.toNat + b.toNat) (2 ^ 64 - 1) := by
  rw [saturatingAdd]
  split_ifs with h
  · rw [UInt64.toNat_add, Nat.mod_eq_of_lt h, Nat.min_eq_left (Nat.le_sub_one_of_lt h)]
  · rw [toNat_u64Max, Nat.min_eq_right]
    omega

theorem toNat_max (a b : UInt64) : (max a b).toNat = max a.toNat b.toNat := by
  change (if a ≤ b then b else a).toNat = _
  split_ifs with h
  · exact (Nat.max_eq_right (UInt64.le_iff_toNat_le.mp h)).symm
  · exact (Nat.max_eq_left (Nat.le_of_not_le fun hle => h (UInt64.le_iff_toNat_le.mpr hle))).symm

theorem toNat_min (a b : UInt64) : (min a b).toNat = min a.toNat b.toNat := by
  change (if a ≤ b then a else b).toNat = _
  split_ifs with h
  · exact (Nat.min_eq_left (UInt64.le_iff_toNat_le.mp h)).symm
  · exact (Nat.min_eq_right (Nat.le_of_not_le fun hle => h (UInt64.le_iff_toNat_le.mpr hle))).symm

def clamp (a lo hi : UInt64) : UInt64 := if a < lo then lo else if hi < a then hi else a

theorem clamp_bounds {a lo hi : UInt64} (h : lo ≤ hi) : lo ≤ clamp a lo hi ∧ clamp a lo hi ≤ hi := by
  rw [clamp]
  split_ifs with hlo hhi
  · exact ⟨UInt64.le_refl lo, h⟩
  · exact ⟨h, UInt64.le_refl hi⟩
  · exact ⟨UInt64.not_lt.mp hlo, UInt64.not_lt.mp hhi⟩

theorem toNat_and_mask {w : Nat} (base : BitVec w) (h : Nat) :
    (base &&& BitVec.allOnes w <<< h).toNat = base.toNat / 2 ^ h * 2 ^ h := by
  have hlt : base.toNat / 2 ^ h * 2 ^ h < 2 ^ w := lt_of_le_of_lt (Nat.div_mul_le_self _ _) base.isLt
  rw [← BitVec.shiftLeft_ushiftRight, BitVec.toNat_shiftLeft, BitVec.toNat_ushiftRight,
    Nat.shiftRight_eq_div_pow, Nat.shiftLeft_eq, Nat.mod_eq_of_lt hlt]

/-- `n & !(2^k - 1)`. -/
theorem toNat_and_not {n k : Nat} (hn : n < 2 ^ 64)
    (hmask : ~~~BitVec.ofNat 64 (2 ^ k - 1) = BitVec.allOnes 64 <<< k) :
    (BitVec.ofNat 64 n &&& ~~~BitVec.ofNat 64 (2 ^ k - 1)).toNat = n / 2 ^ k * 2 ^ k := by
  rw [hmask, toNat_and_mask, BitVec.toNat_ofNat, Nat.mod_eq_of_lt hn]

end RustInt
