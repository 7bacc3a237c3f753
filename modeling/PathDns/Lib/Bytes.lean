import Mathlib.Data.List.Basic
import Mathlib.Tactic.Ring

/-!
# Byte strings

Fixed-width integers inside a byte string, read and written at an offset. A read past the end gives
zero; `patch` overwrites a range and leaves the rest alone. The facts the packet proofs use are
pointwise: `byteAt_patch` says what every byte is after an overwrite.
-/

namespace Bytes

/-- The byte at offset `i`, zero past the end. -/
def byteAt (p : List UInt8) (i : Nat) : UInt8 := p.getD i 0

/-- The big-endian 16-bit value at offset `i`. -/
def u16be (p : List UInt8) (i : Nat) : Nat := (byteAt p i).toNat * 256 + (byteAt p (i + 1)).toNat

/-- The big-endian 32-bit value at offset `i`. -/
def u32be (p : List UInt8) (i : Nat) : Nat := u16be p i * 65536 + u16be p (i + 2)

/-- The two big-endian bytes of a 16-bit value. -/
def encU16be (n : Nat) : List UInt8 := [UInt8.ofNat (n / 256), UInt8.ofNat n]

/-- The four big-endian bytes of a 32-bit value. -/
def encU32be (n : Nat) : List UInt8 := encU16be (n / 65536) ++ encU16be n

/-- The `w` little-endian bytes of a value. -/
def encLe : Nat → Nat → List UInt8
  | 0, _ => []
  | w + 1, n => UInt8.ofNat n :: encLe w (n / 256)

/-- The value of little-endian bytes. -/
def decLe : List UInt8 → Nat
  | [] => 0
  | b :: bs => b.toNat + 256 * decLe bs

/-- The `w` big-endian bytes of a value. -/
def encBe (w n : Nat) : List UInt8 := (encLe w n).reverse

/-- The value of big-endian bytes. -/
def decBe (bs : List UInt8) : Nat := decLe bs.reverse

/-- The bytes from offset `i` up to offset `j`. -/
def slice (p : List UInt8) (i j : Nat) : List UInt8 := (p.drop i).take (j - i)

/-- Why an execution stops: an index or a range outside its sequence, or an arithmetic overflow. -/
inductive Panic where
  | index
  | slice
  | overflow
deriving DecidableEq, Repr

/-- The result of code that may stop with a panic. -/
abbrev Checked (α : Type) := Except Panic α

/-- `&p[i..j]`: the slice, or a panic when the range is not inside `p`. -/
def sliceIndex (p : List UInt8) (i j : Nat) : Checked (List UInt8) :=
  if i ≤ j ∧ j ≤ p.length then .ok (slice p i j) else .error .slice

/-- `p[i]`. -/
def readAt (p : List UInt8) (i : Nat) : Checked UInt8 :=
  if i < p.length then .ok (byteAt p i) else .error .index

/-- `u16::from_be_bytes([p[i], p[i + 1]])`. -/
def readU16At (p : List UInt8) (i : Nat) : Checked Nat := do
  let hi ← readAt p i
  let lo ← readAt p (i + 1)
  return hi.toNat * 256 + lo.toNat

/-- `u32::from_be_bytes([p[i], p[i + 1], p[i + 2], p[i + 3]])`. -/
def readU32At (p : List UInt8) (i : Nat) : Checked Nat := do
  let hi ← readU16At p i
  let lo ← readU16At p (i + 2)
  return hi * 65536 + lo

/-- `a - b` on unsigned integers. -/
def subChecked (a b : Nat) : Checked Nat := if b ≤ a then .ok (a - b) else .error .overflow

/-- The two byte strings both have `k` bytes, and their first `k` bytes are the same. -/
structure Agree (k : Nat) (p q : List UInt8) : Prop where
  left : k ≤ p.length
  right : k ≤ q.length
  get : ∀ i, i < k → p[i]? = q[i]?

/-- Overwrite the bytes of `p` from offset `i` on with `bs`. -/
def patch (p : List UInt8) (i : Nat) (bs : List UInt8) : List UInt8 :=
  p.take i ++ bs ++ p.drop (i + bs.length)

/-- `p[i..j].copy_from_slice(bs)`: a panic when the range is not inside `p`, or `bs` is not as long as
it. -/
def copyFromSlice (p : List UInt8) (i j : Nat) (bs : List UInt8) : Checked (List UInt8) := do
  let place ← sliceIndex p i j
  if place.length ≠ bs.length then .error .slice else .ok (patch p i bs)

/-! ### Reading -/

variable {p : List UInt8} {i : Nat}

theorem byteAt_of_le (h : p.length ≤ i) : byteAt p i = 0 := by
  simp [byteAt, List.getElem?_eq_none h]

theorem byteAt_of_lt (h : i < p.length) : byteAt p i = p[i] := by
  simp [byteAt, h]

variable {q : List UInt8}

theorem byteAt_append_left (h : i < p.length) : byteAt (p ++ q) i = byteAt p i := by
  simp [byteAt, List.getElem?_append_left h]

theorem byteAt_append_right (p q : List UInt8) (i : Nat) :
    byteAt (p ++ q) (p.length + i) = byteAt q i := by
  simp [byteAt, List.getElem?_append_right]

theorem byteAt_drop (p : List UInt8) (k i : Nat) : byteAt (p.drop k) i = byteAt p (k + i) := by
  simp [byteAt]

variable {k : Nat}

theorem byteAt_take (h : i < k) : byteAt (p.take k) i = byteAt p i := by
  simp [byteAt, h]

theorem byteAt_map {f : UInt8 → UInt8} (h : i < p.length) : byteAt (p.map f) i = f (byteAt p i) := by
  simp [byteAt, h]

theorem u16be_drop (p : List UInt8) (k i : Nat) : u16be (p.drop k) i = u16be p (k + i) := by
  simp only [u16be, byteAt_drop, Nat.add_assoc]

theorem u16be_lt (p : List UInt8) (i : Nat) : u16be p i < 65536 := by
  have h1 := (byteAt p i).toNat_lt
  have h2 := (byteAt p (i + 1)).toNat_lt
  unfold u16be
  omega

theorem ext_byteAt (hlen : p.length = q.length) (h : ∀ i, i < p.length → byteAt p i = byteAt q i) : p = q := by
  apply List.ext_getElem hlen
  intro i hp hq
  rw [← byteAt_of_lt hp, ← byteAt_of_lt hq]
  exact h i hp

variable {j : Nat}

theorem length_slice (h : j ≤ p.length) : (slice p i j).length = j - i := by
  simp only [slice, List.length_take, List.length_drop]
  omega

theorem byteAt_slice (h : k < j - i) : byteAt (slice p i j) k = byteAt p (i + k) := by
  rw [slice, byteAt_take h, byteAt_drop]

theorem slice_append_drop (hij : i ≤ j) : slice p i j ++ p.drop j = p.drop i := by
  obtain ⟨d, rfl⟩ := Nat.exists_eq_add_of_le hij
  rw [slice, Nat.add_sub_cancel_left, ← List.drop_drop, List.take_append_drop]

theorem slice_append_slice (hij : i ≤ j) (hjk : j ≤ k) : slice p i j ++ slice p j k = slice p i k := by
  rw [slice, slice, slice, show k - i = (j - i) + (k - j) by omega, List.take_add, List.drop_drop,
    show i + (j - i) = j by omega]

theorem slice_two (h : i + 2 ≤ p.length) : slice p i (i + 2) = encU16be (u16be p i) := by
  have hlen : (slice p i (i + 2)).length = 2 := by
    rw [length_slice h]
    omega
  obtain ⟨a, b, hab⟩ := List.length_eq_two.mp hlen
  have ha : byteAt p i = a := by
    have := byteAt_slice (p := p) (i := i) (j := i + 2) (k := 0) (by omega)
    rw [hab] at this
    exact this.symm
  have hb : byteAt p (i + 1) = b := by
    have := byteAt_slice (p := p) (i := i) (j := i + 2) (k := 1) (by omega)
    rw [hab] at this
    exact this.symm
  have ha' := UInt8.toNat_lt a
  have hb' := UInt8.toNat_lt b
  rw [hab, u16be, ha, hb, encU16be]
  congr 1
  · apply UInt8.toNat_inj.mp
    rw [UInt8.toNat_ofNat']
    omega
  · congr 1
    apply UInt8.toNat_inj.mp
    rw [UInt8.toNat_ofNat']
    omega

theorem sliceIndex_ok (hij : i ≤ j) (hj : j ≤ p.length) :
    sliceIndex p i j = .ok (slice p i j) := if_pos ⟨hij, hj⟩

variable {bs : List UInt8}

theorem sliceIndex_eq_ok_iff : sliceIndex p i j = .ok bs ↔ (i ≤ j ∧ j ≤ p.length) ∧ bs = slice p i j := by
  rw [sliceIndex]
  split_ifs with h
  · simp [h, eq_comm]
  · simp [h]

theorem readAt_ok (h : i < p.length) : readAt p i = .ok (byteAt p i) :=
  if_pos h

theorem readU16At_ok (h : i + 1 < p.length) : readU16At p i = .ok (u16be p i) := by
  simp [readU16At, readAt_ok (show i < p.length by omega), readAt_ok h, bind, Except.bind, pure,
    Except.pure, u16be]

theorem readU32At_ok (h : i + 3 < p.length) : readU32At p i = .ok (u32be p i) := by
  simp [readU32At, readU16At_ok (show i + 1 < p.length by omega),
    readU16At_ok (show i + 2 + 1 < p.length by omega), bind, Except.bind, pure, Except.pure, u32be]

theorem subChecked_ok {a b : Nat} (h : b ≤ a) : subChecked a b = .ok (a - b) := if_pos h

theorem Agree.byteAt_eq (h : Agree k p q) (hi : i < k) : byteAt p i = byteAt q i := by
  simp only [byteAt, List.getD_eq_getElem?_getD, h.get i hi]

theorem Agree.u16be_eq (h : Agree k p q) (hi : i + 1 < k) : u16be p i = u16be q i := by
  rw [u16be, u16be, h.byteAt_eq (by omega), h.byteAt_eq hi]

theorem Agree.append (p q : List UInt8) : Agree p.length p (p ++ q) :=
  ⟨Nat.le_refl _, by rw [List.length_append]; omega, fun _ hi => (List.getElem?_append_left hi).symm⟩

theorem Agree.take_append (hjk : j ≤ k) (hk : k ≤ p.length) (q : List UInt8) : Agree j p (p.take k ++ q) := by
  have hlen : (p.take k).length = k := List.length_take_of_le hk
  refine ⟨by omega, by rw [List.length_append]; omega, fun i hi => ?_⟩
  rw [List.getElem?_append_left (by omega), List.getElem?_take_of_lt (by omega)]

theorem Agree.symm (h : Agree k p q) : Agree k q p :=
  ⟨h.right, h.left, fun i hi => (h.get i hi).symm⟩

theorem Agree.slice_eq (h : Agree k p q) (hj : j ≤ k) : slice q i j = slice p i j := by
  have hleft := h.left
  have hright := h.right
  apply ext_byteAt
  · rw [length_slice (by omega), length_slice (by omega)]
  · intro n hn
    rw [length_slice (by omega)] at hn
    rw [byteAt_slice hn, byteAt_slice hn, h.byteAt_eq (by omega)]

/-! ### Writing -/

@[simp] theorem length_encU16be (n : Nat) : (encU16be n).length = 2 := rfl

@[simp] theorem length_encU32be (n : Nat) : (encU32be n).length = 4 := by
  rw [encU32be]
  rfl

theorem length_patch (h : i + bs.length ≤ p.length) : (patch p i bs).length = p.length := by
  simp only [patch, List.length_append, List.length_take, List.length_drop]
  omega

theorem byteAt_patch_in (h : i + bs.length ≤ p.length) (hk : k < bs.length) :
    byteAt (patch p i bs) (i + k) = byteAt bs k := by
  have hlen : (p.take i).length = i := by simp; omega
  rw [patch, List.append_assoc]
  have := byteAt_append_right (p.take i) (bs ++ p.drop (i + bs.length)) k
  rw [hlen] at this
  rw [this, byteAt_append_left hk]

theorem byteAt_patch_out (h : i + bs.length ≤ p.length) (hk : k < i ∨ i + bs.length ≤ k) :
    byteAt (patch p i bs) k = byteAt p k := by
  have hlen : (p.take i).length = i := by simp; omega
  rcases hk with hk | hk
  · rw [patch, List.append_assoc, byteAt_append_left (by omega), byteAt_take hk]
  · obtain ⟨d, rfl⟩ := Nat.exists_eq_add_of_le hk
    have hpre : (p.take i ++ bs).length = i + bs.length := by
      rw [List.length_append, hlen]
    rw [patch, ← hpre, byteAt_append_right, byteAt_drop, hpre]

theorem copyFromSlice_ok (hij : i ≤ j) (hj : j ≤ p.length) (hlen : bs.length = j - i) :
    copyFromSlice p i j bs = .ok (patch p i bs) := by
  simp only [copyFromSlice, sliceIndex_ok hij hj, bind, Except.bind, length_slice hj, hlen]
  exact if_neg (by simp)

theorem drop_patch (h : i + bs.length ≤ p.length) (hj : i + bs.length ≤ j) :
    (patch p i bs).drop j = p.drop j := by
  have hlen : (p.take i ++ bs).length = i + bs.length := by
    rw [List.length_append, List.length_take]
    omega
  obtain ⟨d, rfl⟩ := Nat.exists_eq_add_of_le hj
  rw [patch, ← List.drop_drop, List.drop_left' hlen, List.drop_drop]

variable {n : Nat}

theorem u16be_encU16be (hn : n < 65536) (h0 : byteAt p i = UInt8.ofNat (n / 256))
    (h1 : byteAt p (i + 1) = UInt8.ofNat n) : u16be p i = n := by
  rw [u16be, h0, h1]
  simp only [UInt8.toNat_ofNat']
  omega

theorem u32be_encU32be (hn : n < 4294967296) (h : ∀ k, k < 4 → byteAt p (i + k) = byteAt (encU32be n) k) :
    u32be p i = n := by
  have hhi : u16be p i = n / 65536 :=
    u16be_encU16be (by omega) (h 0 (by omega)) (h 1 (by omega))
  have hlo : u16be p (i + 2) = n % 65536 := by
    refine u16be_encU16be (by omega) ?_ ?_
    · rw [h 2 (by omega)]
      apply UInt8.toNat_inj.mp
      simp [byteAt, encU32be, encU16be]
      omega
    · rw [Nat.add_assoc, h 3 (by omega)]
      apply UInt8.toNat_inj.mp
      simp [byteAt, encU32be, encU16be]
  rw [u32be, hhi, hlo]
  omega

theorem encU16be_u16be (p : List UInt8) (i : Nat) :
    encU16be (u16be p i) = [byteAt p i, byteAt p (i + 1)] := by
  have h1 := (byteAt p i).toNat_lt
  have h2 := (byteAt p (i + 1)).toNat_lt
  simp only [encU16be, List.cons.injEq, and_true]
  constructor
  · apply UInt8.toNat_inj.mp
    rw [UInt8.toNat_ofNat', u16be]
    omega
  · apply UInt8.toNat_inj.mp
    rw [UInt8.toNat_ofNat', u16be]
    omega

/-! ### Little-endian integers -/

@[simp] theorem length_encLe (w n : Nat) : (encLe w n).length = w := by
  induction w generalizing n with
  | zero => rfl
  | succ w ih => simp [encLe, ih]

@[simp] theorem length_encBe (w n : Nat) : (encBe w n).length = w := by
  rw [encBe, List.length_reverse, length_encLe]

theorem decLe_lt (bs : List UInt8) : decLe bs < 256 ^ bs.length := by
  induction bs with
  | nil => simp [decLe]
  | cons b bs ih =>
    have := b.toNat_lt
    rw [decLe, List.length_cons, pow_succ]
    omega

theorem decLe_encLe_mod (w n : Nat) : decLe (encLe w n) = n % 256 ^ w := by
  induction w generalizing n with
  | zero => simp [encLe, decLe, Nat.mod_one]
  | succ w ih =>
    rw [encLe, decLe, ih, UInt8.toNat_ofNat', pow_succ' 256]
    exact Nat.mod_mul.symm

theorem decLe_encLe (w n : Nat) (h : n < 256 ^ w) : decLe (encLe w n) = n := by
  rw [decLe_encLe_mod, Nat.mod_eq_of_lt h]

variable {w : Nat}

theorem encLe_injective {m : Nat} (hm : m < 256 ^ w) (hn : n < 256 ^ w) (h : encLe w m = encLe w n) :
    m = n := by
  rw [← decLe_encLe w m hm, h, decLe_encLe w n hn]

/-! ### Bits -/

/-- The bit at position `i`, counted from the highest bit of the first byte; false past the end. -/
def bitAt (bs : List UInt8) (i : Nat) : Bool := (byteAt bs (i / 8)).toNat.testBit (7 - i % 8)

theorem testBit_decLe (bs : List UInt8) (j : Nat) :
    (decLe bs).testBit j = (byteAt bs (j / 8)).toNat.testBit (j % 8) := by
  induction bs generalizing j with
  | nil => simp [decLe, byteAt]
  | cons b bs ih =>
    rw [decLe, Nat.add_comm, show (256 : Nat) = 2 ^ 8 by norm_num,
      Nat.testBit_two_pow_mul_add _ (show b.toNat < 2 ^ 8 from b.toNat_lt)]
    split_ifs with h
    · rw [Nat.div_eq_of_lt h, Nat.mod_eq_of_lt h]
      rfl
    · obtain ⟨k, rfl⟩ := Nat.exists_eq_add_of_le (Nat.le_of_not_lt h)
      rw [Nat.add_sub_cancel_left, ih, Nat.add_div_left _ (by norm_num), Nat.add_mod_left]
      rfl

theorem byteAt_reverse (h : i < bs.length) : byteAt bs.reverse i = byteAt bs (bs.length - 1 - i) := by
  rw [byteAt_of_lt (by simpa using h), byteAt_of_lt (by omega), List.getElem_reverse]

theorem testBit_decBe (h : i < 8 * bs.length) : (decBe bs).testBit (8 * bs.length - 1 - i) = bitAt bs i := by
  rw [decBe, testBit_decLe, byteAt_reverse (by omega), bitAt]
  congr 3 <;> omega

theorem decBe_encBe (h : n < 256 ^ w) : decBe (encBe w n) = n := by
  rw [decBe, encBe, List.reverse_reverse, decLe_encLe w n h]

theorem encBe_injective {m : Nat} (hm : m < 256 ^ w) (hn : n < 256 ^ w) (h : encBe w m = encBe w n) :
    m = n := by
  rw [← decBe_encBe hm, h, decBe_encBe hn]

theorem bitAt_encBe (hn : n < 256 ^ w) (hi : i < 8 * w) : bitAt (encBe w n) i = n.testBit (8 * w - 1 - i) := by
  have h := testBit_decBe (show i < 8 * (encBe w n).length by simpa using hi)
  rw [length_encBe, decBe_encBe hn] at h
  exact h.symm

theorem ext_bitAt (hlen : p.length = q.length) (h : ∀ i, i < 8 * p.length → bitAt p i = bitAt q i) : p = q := by
  refine ext_byteAt hlen (fun i hi => UInt8.toNat_inj.mp (Nat.eq_of_testBit_eq (fun j => ?_)))
  by_cases hj : j < 8
  · have hbit := h (8 * i + (7 - j)) (by omega)
    rw [bitAt, bitAt, show (8 * i + (7 - j)) / 8 = i by omega,
      show 7 - (8 * i + (7 - j)) % 8 = j by omega] at hbit
    exact hbit
  · have hsmall : ∀ b : UInt8, b.toNat.testBit j = false := by
      intro b
      refine Nat.testBit_lt_two_pow (Nat.lt_of_lt_of_le b.toNat_lt ?_)
      exact Nat.pow_le_pow_right (by norm_num) (Nat.le_of_not_lt hj)
    rw [hsmall, hsmall]

theorem bitAt_of_byteAt_eq (h : byteAt p (i / 8) = byteAt q (i / 8)) : bitAt p i = bitAt q i := by
  rw [bitAt, bitAt, h]

end Bytes
