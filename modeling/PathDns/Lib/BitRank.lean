import Mathlib.Data.Bool.Count
import Mathlib.Data.List.Count
import Mathlib.Order.Nat

/-!
# Bits of machine words

A word as the list of its bits, the lowest first, with `count_ones`, `trailing_zeros` and the two idioms
that rank and select queries are made of: masking the low bits and clearing the lowest set bit.
-/

namespace BitRank

/-- `p` is the position of the set bit that has `k` set bits before it. -/
structure Nth (bits : List Bool) (k p : Nat) : Prop where
  set : bits[p]? = some true
  before : (bits.take p).count true = k

variable {bits : List Bool} {k p : Nat}

theorem Nth.lt_length (h : Nth bits k p) : p < bits.length :=
  (List.getElem?_eq_some_iff.mp h.set).1

theorem Nth.append (h : Nth bits k p) (more : List Bool) :
    Nth (bits ++ more) k p where
  set := by rw [List.getElem?_append_left h.lt_length, h.set]
  before := by rw [List.take_append_of_le_length h.lt_length.le, h.before]

theorem Nth.drop {skip : Nat} (h : Nth bits k p) (hskip : skip ≤ p) :
    Nth (bits.drop skip) (k - (bits.take skip).count true) (p - skip) where
  set := by rw [List.getElem?_drop, Nat.add_sub_cancel' hskip, h.set]
  before := by
    have hsplit : bits.take p = bits.take skip ++ (bits.drop skip).take (p - skip) := by
      rw [← List.take_add, Nat.add_sub_cancel' hskip]
    rw [← h.before, hsplit, List.count_append, Nat.add_sub_cancel_left]

theorem Nth.take {n : Nat} (h : Nth bits k p) (hn : p < n) :
    Nth (bits.take n) k p where
  set := by rw [List.getElem?_take_of_lt hn, h.set]
  before := by rw [List.take_take, Nat.min_eq_left hn.le, h.before]

theorem Nth.count_take_succ (h : Nth bits k p) : (bits.take (p + 1)).count true = k + 1 := by
  rw [List.take_add_one, h.set, List.count_append, h.before]
  rfl

variable {i : Nat}

theorem count_take_le (bits : List Bool) {j : Nat} (h : i ≤ j) :
    (bits.take i).count true ≤ (bits.take j).count true :=
  (List.take_sublist_take_left h).count_le true

theorem Nth.unique {q : Nat} (hp : Nth bits k p) (hq : Nth bits k q) : p = q := by
  have hle : ∀ {p q : Nat}, Nth bits k p → Nth bits k q → p ≤ q := by
    intro p q hp hq
    by_contra hlt
    have hcount := count_take_le bits (Nat.succ_le_of_lt (Nat.not_le.mp hlt))
    rw [hq.count_take_succ, hp.before] at hcount
    omega
  exact Nat.le_antisymm (hle hp hq) (hle hq hp)

theorem exists_nth (h : k < bits.count true) : ∃ p, Nth bits k p := by
  induction bits generalizing k with
  | nil => simp at h
  | cons b bits ih =>
    cases b with
    | false =>
      obtain ⟨p, hp⟩ := ih (by simpa using h)
      exact ⟨p + 1, by simpa using hp.set, by simpa using hp.before⟩
    | true =>
      cases k with
      | zero => exact ⟨0, rfl, rfl⟩
      | succ k =>
        obtain ⟨p, hp⟩ := ih (by simpa using h)
        exact ⟨p + 1, by simpa using hp.set, by simpa using hp.before⟩

/-! ## Set and clear bits before a position -/

theorem count_take_add (bits : List Bool) (h : i ≤ bits.length) :
    (bits.take i).count true + (bits.take i).count false = i := by
  rw [List.count_true_add_count_false, List.length_take, Nat.min_eq_left h]

theorem count_take_succ_clear (h : bits[i]? = some false) :
    (bits.take (i + 1)).count true = (bits.take i).count true ∧
      (bits.take (i + 1)).count false = (bits.take i).count false + 1 := by
  rw [List.take_add_one, h]
  simp

theorem clear_inj {j : Nat} (hi : bits[i]? = some false) (hj : bits[j]? = some false)
    (h : (bits.take i).count false = (bits.take j).count false) : i = j := by
  have hle : ∀ {i j : Nat}, bits[i]? = some false →
      (bits.take i).count false = (bits.take j).count false → j ≤ i := by
    intro i j hi h
    by_contra hlt
    have hmono := (List.take_sublist_take_left (l := bits) (Nat.succ_le_of_lt (Nat.not_le.mp hlt))).count_le false
    rw [Nat.succ_eq_add_one, (count_take_succ_clear hi).2] at hmono
    omega
  exact Nat.le_antisymm (hle hj h.symm) (hle hi h)

/-- The bits with clear bits after them, as many as there happen to be. -/
def Padded (stored bits : List Bool) : Prop := ∀ i, stored.getD i false = bits.getD i false

/-- Bits that end with a set one are stored whole. -/
theorem Padded.eq_append {stored : List Bool} (h : Padded stored bits) (hlast : bits.getLast? = some true) :
    ∃ more, stored = bits ++ more := by
  have hlen : bits.length ≤ stored.length := by
    by_contra hlt
    have hend := h (bits.length - 1)
    rw [List.getLast?_eq_getElem?] at hlast
    simp only [List.getD_eq_getElem?_getD, hlast] at hend
    rw [List.getElem?_eq_none (by omega)] at hend
    simp at hend
  refine ⟨stored.drop bits.length, ?_⟩
  conv_lhs => rw [← List.take_append_drop bits.length stored]
  congr 1
  apply List.ext_getElem (by rw [List.length_take, Nat.min_eq_left hlen])
  intro i hi hi'
  have hget := h i
  simp only [List.getD_eq_getElem?_getD, List.getElem?_eq_getElem hi',
    List.getElem?_eq_getElem (hi'.trans_le hlen)] at hget
  simpa using hget

/-! ## One word -/

variable {w : Nat}

/-- The bits of a word, the lowest first. -/
def wordBits (x : BitVec w) : List Bool := (List.range w).map x.getLsbD

def countOnes (x : BitVec w) : Nat := (wordBits x).count true

def trailingZeros (x : BitVec w) : Nat := (wordBits x).findIdx id

@[simp] theorem length_wordBits (x : BitVec w) : (wordBits x).length = w := by simp [wordBits]

theorem getElem?_wordBits (x : BitVec w) (h : i < w) : (wordBits x)[i]? = some (x.getLsbD i) := by
  simp [wordBits, h]

variable {x : BitVec w}

theorem wordBits_ext (hlen : bits.length = w) (h : ∀ i < w, bits[i]? = some (x.getLsbD i)) :
    wordBits x = bits := by
  apply List.ext_getElem?
  intro i
  by_cases hi : i < w
  · rw [getElem?_wordBits x hi, h i hi]
  · rw [List.getElem?_eq_none (by simpa using hi), List.getElem?_eq_none (by omega)]

theorem shift_and_one (x : BitVec w) (i : Nat) (hw : 0 < w) :
    ((x >>> i &&& 1#w) != 0#w) = x.getLsbD i := by
  rw [BitVec.and_one_eq_setWidth_ofBool_getLsbD, BitVec.getLsbD_ushiftRight, Nat.add_zero]
  cases x.getLsbD i with
  | false => simp
  | true =>
    have hone : (BitVec.ofBool true).setWidth w ≠ 0#w := by
      intro h
      have := congrArg (BitVec.getLsbD · 0) h
      simp [hw] at this
    simpa using hone

theorem countOnes_and_mask (x : BitVec w) {b : Nat} (hb : b ≤ w) :
    countOnes (x &&& (BitVec.allOnes w >>> (w - b))) = ((wordBits x).take b).count true := by
  have hbits : wordBits (x &&& (BitVec.allOnes w >>> (w - b))) =
      (wordBits x).take b ++ List.replicate (w - b) false := by
    apply wordBits_ext (by simp; omega)
    intro i hi
    by_cases hlow : i < b
    · rw [List.getElem?_append_left (by simp; omega), List.getElem?_take_of_lt hlow,
        getElem?_wordBits x hi]
      simp
      omega
    · rw [List.getElem?_append_right (by simp; omega), List.getElem?_replicate_of_lt (by simp; omega)]
      simp
      omega
  rw [countOnes, hbits, List.count_append, List.count_replicate]
  simp

/-! ## Clearing the lowest set bit -/

theorem trailingZeros_spec (h : x ≠ 0#w) :
    trailingZeros x < w ∧ x.getLsbD (trailingZeros x) = true ∧
      ∀ i < trailingZeros x, x.getLsbD i = false := by
  have hlt : trailingZeros x < w := by
    by_contra hge
    apply h
    apply BitVec.eq_of_getLsbD_eq
    intro i hi
    have hno : ∀ b ∈ wordBits x, id b = false := by
      rw [← List.findIdx_eq_length]
      have hle : trailingZeros x ≤ (wordBits x).length := List.findIdx_le_length
      simp only [length_wordBits] at hle ⊢
      exact Nat.le_antisymm hle (Nat.not_lt.mp hge)
    rw [BitVec.getLsbD_zero]
    exact hno _ (List.mem_of_getElem? (getElem?_wordBits x hi))
  have hlen : trailingZeros x < (wordBits x).length := by simpa using hlt
  refine ⟨hlt, ?_, ?_⟩
  · have hget : id (wordBits x)[trailingZeros x] = true := List.findIdx_getElem
    have hbit := getElem?_wordBits x hlt
    rw [List.getElem?_eq_getElem hlen] at hbit
    rw [← Option.some.inj hbit]
    exact hget
  · intro i hi
    have hget := List.not_of_lt_findIdx hi
    have hbit := getElem?_wordBits x (hi.trans hlt)
    rw [List.getElem?_eq_getElem (hi.trans hlen)] at hbit
    rw [← Option.some.inj hbit]
    simpa using hget

/-- `x & (x - 1)` clears the lowest set bit and no other. -/
theorem wordBits_and_pred (h : x ≠ 0#w) :
    wordBits (x &&& (x - 1#w)) = (wordBits x).set (trailingZeros x) false := by
  obtain ⟨hlt, hset, hlow⟩ := trailingZeros_spec h
  generalize trailingZeros x = t at hlt hset hlow ⊢
  -- the number is a multiple of `2 ^ (t + 1)` plus `2 ^ t`, its predecessor the multiple plus `2 ^ t - 1`
  have hmod : x.toNat % 2 ^ (t + 1) = 2 ^ t := by
    apply Nat.eq_of_testBit_eq
    intro i
    rw [Nat.testBit_mod_two_pow, Nat.testBit_two_pow]
    by_cases hi : i < t
    · have := hlow i hi
      simp only [BitVec.getLsbD] at this
      simp [this, Nat.ne_of_gt hi]
    · by_cases heq : i = t
      · subst heq
        simp only [BitVec.getLsbD] at hset
        simp [hset]
      · have hgt : ¬ i < t + 1 := by omega
        simp [hgt, Ne.symm heq]
  have hpos : 0 < 2 ^ t := Nat.two_pow_pos t
  have hnat : x.toNat = 2 ^ (t + 1) * (x.toNat / 2 ^ (t + 1)) + 2 ^ t := by
    conv_lhs => rw [← Nat.div_add_mod x.toNat (2 ^ (t + 1)), hmod]
  have hsmall : 2 ^ t < 2 ^ (t + 1) := Nat.pow_lt_pow_right (by decide) (Nat.lt_succ_self t)
  have hone : (1#w).toNat = 1 := by
    rw [BitVec.toNat_ofNat]
    exact Nat.mod_eq_of_lt (Nat.one_lt_two_pow (by omega))
  have hpred : (x - 1#w).toNat = 2 ^ (t + 1) * (x.toNat / 2 ^ (t + 1)) + (2 ^ t - 1) := by
    rw [BitVec.toNat_sub_of_le (by rw [BitVec.le_def]; omega), hone]
    omega
  apply wordBits_ext (by simp)
  intro i hi
  rw [BitVec.getLsbD_and]
  by_cases heq : i = t
  · subst heq
    rw [List.getElem?_set_self (by simpa using hi)]
    have hoff : (x - 1#w).getLsbD i = false := by
      rw [BitVec.getLsbD, hpred, Nat.testBit_two_pow_mul_add _ (by omega)]
      simp [Nat.testBit_two_pow_sub_one]
    rw [hoff, Bool.and_false]
  · rw [List.getElem?_set_ne (Ne.symm heq), getElem?_wordBits x hi]
    by_cases hbelow : i < t
    · rw [hlow i hbelow, Bool.false_and]
    · have hsame : (x - 1#w).getLsbD i = x.getLsbD i := by
        rw [BitVec.getLsbD, BitVec.getLsbD, hpred, Nat.testBit_two_pow_mul_add _ (by omega)]
        conv_rhs => rw [hnat, Nat.testBit_two_pow_mul_add _ hsmall]
        rw [if_neg (by omega), if_neg (by omega)]
      rw [hsame, Bool.and_self]

theorem nth_trailingZeros (h : x ≠ 0#w) : Nth (wordBits x) 0 (trailingZeros x) := by
  obtain ⟨hlt, hset, hlow⟩ := trailingZeros_spec h
  refine ⟨by rw [getElem?_wordBits x hlt, hset], ?_⟩
  rw [List.count_eq_zero]
  intro hmem
  obtain ⟨i, hi⟩ := List.mem_iff_getElem?.mp hmem
  rw [List.getElem?_take] at hi
  split at hi
  next hlt' =>
    rw [getElem?_wordBits x (hlt'.trans hlt), hlow i hlt'] at hi
    simp at hi
  next => simp at hi

theorem Nth.and_pred (h : Nth (wordBits x) (k + 1) p) (hx : x ≠ 0#w) :
    Nth (wordBits (x &&& (x - 1#w))) k p := by
  have hfirst := nth_trailingZeros hx
  rw [wordBits_and_pred hx]
  have hlt : trailingZeros x < p := by
    by_contra hge
    have := count_take_le (wordBits x) (Nat.not_lt.mp hge)
    rw [h.before, hfirst.before] at this
    omega
  refine ⟨by rw [List.getElem?_set_ne hlt.ne, h.set], ?_⟩
  have hin : ((wordBits x).take p)[trailingZeros x]? = some true := by
    rw [List.getElem?_take_of_lt hlt, hfirst.set]
  obtain ⟨hlen, hget⟩ := List.getElem?_eq_some_iff.mp hin
  rw [List.take_set, List.count_set hlen, hget, h.before]
  simp

end BitRank
