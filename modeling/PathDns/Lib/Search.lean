import Mathlib.Order.Lattice
import Mathlib.Data.List.TakeWhile
import Mathlib.Order.Nat

/-!
# Searching lists

`partition_point` of the standard library, and that on a list whose elements with the property come first
it returns how many they are. For a front to back search, when the first element of a front part and the
first of a back part are the same.
-/

namespace Search

variable {α : Type} (pred : α → Bool)

/-- The loop of `binary_search_by`: `size` elements from `base` on are left. -/
def searchLoop (xs : List α) (base size : Nat) : Nat :=
  if 1 < size then
    let half := size / 2
    let mid := base + half
    searchLoop xs (if (xs[mid]?).any pred then mid else base) (size - half)
  else base
termination_by size

def partitionPoint (xs : List α) : Nat :=
  if xs.length = 0 then 0
  else
    let base := searchLoop pred xs 0 xs.length
    base + if (xs[base]?).any pred then 1 else 0

/-- The elements with the property are the first `n`. -/
def PartitionedAt (xs : List α) (n : Nat) : Prop :=
  ∀ i x, xs[i]? = some x → (pred x = true ↔ i < n)

variable {pred}

variable {xs : List α} {n : Nat}

theorem PartitionedAt.any_iff {i : Nat} (h : PartitionedAt pred xs n) (hi : i < xs.length) :
    (xs[i]?).any pred = true ↔ i < n := by
  rw [List.getElem?_eq_getElem hi, Option.any_some]
  exact h i _ (List.getElem?_eq_getElem hi)

/-- The loop keeps the partition point above its base, unless the base is the first element, and at most
`size` above it. -/
theorem searchLoop_spec (h : PartitionedAt pred xs n) (base size : Nat) (hsize : 0 < size)
    (hlen : base + size ≤ xs.length) (hlow : base = 0 ∨ base < n) (hhigh : n ≤ base + size) :
    let b := searchLoop pred xs base size
    b < xs.length ∧ (b = 0 ∨ b < n) ∧ n ≤ b + 1 := by
  induction size using Nat.strong_induction_on generalizing base with
  | h size ih =>
    rw [searchLoop]
    by_cases hmore : 1 < size
    · rw [if_pos hmore]
      simp only
      have hmid := h.any_iff (i := base + size / 2) (by omega)
      by_cases hlt : base + size / 2 < n
      · rw [if_pos (hmid.mpr hlt)]
        exact ih (size - size / 2) (by omega) _ (by omega) (by omega) (.inr hlt) (by omega)
      · rw [if_neg (fun hany => hlt (hmid.mp hany))]
        exact ih (size - size / 2) (by omega) _ (by omega) (by omega) hlow (by omega)
    · rw [if_neg hmore]
      exact ⟨by omega, hlow, by omega⟩

theorem partitionPoint_eq (h : PartitionedAt pred xs n) (hn : n ≤ xs.length) : partitionPoint pred xs = n := by
  rw [partitionPoint]
  by_cases hnil : xs.length = 0
  · rw [if_pos hnil]
    omega
  · rw [if_neg hnil]
    obtain ⟨hlt, hlow, hhigh⟩ := searchLoop_spec h 0 xs.length (by omega) (by omega) (.inl rfl)
      (by omega)
    have hany := h.any_iff hlt
    simp only
    by_cases hbase : searchLoop pred xs 0 xs.length < n
    · rw [if_pos (hany.mpr hbase)]
      omega
    · rw [if_neg (fun hp => hbase (hany.mp hp))]
      omega

theorem PartitionedAt.filter_eq_take (h : PartitionedAt pred xs n) : xs.filter pred = xs.take n := by
  have htake : (xs.take n).filter pred = xs.take n := by
    rw [List.filter_eq_self]
    intro x hx
    obtain ⟨i, hi⟩ := List.mem_iff_getElem?.mp hx
    rw [List.getElem?_take] at hi
    split at hi
    next hlt => exact (h i x hi).mpr hlt
    next => simp at hi
  have hdrop : (xs.drop n).filter pred = [] := by
    rw [List.filter_eq_nil_iff]
    intro x hx
    obtain ⟨i, hi⟩ := List.mem_iff_getElem?.mp hx
    rw [List.getElem?_drop] at hi
    rw [h _ x hi]
    omega
  calc xs.filter pred = (xs.take n ++ xs.drop n).filter pred := by rw [List.take_append_drop]
    _ = xs.take n := by rw [List.filter_append, htake, hdrop, List.append_nil]

theorem PartitionedAt.filter_not_eq_drop (h : PartitionedAt pred xs n) :
    xs.filter (fun x => !pred x) = xs.drop n := by
  have htake : (xs.take n).filter (fun x => !pred x) = [] := by
    rw [List.filter_eq_nil_iff]
    intro x hx
    rw [← h.filter_eq_take] at hx
    simp [(List.mem_filter.mp hx).2]
  have hdrop : (xs.drop n).filter (fun x => !pred x) = xs.drop n := by
    rw [List.filter_eq_self]
    intro x hx
    obtain ⟨i, hi⟩ := List.mem_iff_getElem?.mp hx
    rw [List.getElem?_drop] at hi
    have hno : ¬ pred x = true := by
      rw [h _ x hi]
      omega
    simpa using hno
  calc xs.filter (fun x => !pred x) = (xs.take n ++ xs.drop n).filter (fun x => !pred x) := by
        rw [List.take_append_drop]
    _ = xs.drop n := by rw [List.filter_append, htake, hdrop, List.nil_append]

/-- What `takeWhile` takes are the elements with the property, when no element without it comes before
one with it. -/
theorem partitionedAt_takeWhile (h : xs.Pairwise (fun x y => pred y = true → pred x = true)) :
    PartitionedAt pred xs (xs.takeWhile pred).length := by
  intro i x hx
  induction xs generalizing i with
  | nil => simp at hx
  | cons y ys ih =>
    rw [List.pairwise_cons] at h
    by_cases hy : pred y = true
    · rw [List.takeWhile_cons_of_pos hy, List.length_cons]
      cases i with
      | zero =>
        obtain rfl : y = x := by simpa using hx
        simp [hy]
      | succ i =>
        rw [ih h.2 i (by simpa using hx)]
        omega
    · rw [List.takeWhile_cons_of_neg hy, List.length_nil]
      have hno : pred x ≠ true := by
        cases i with
        | zero =>
          obtain rfl : y = x := by simpa using hx
          exact hy
        | succ i =>
          have hmem : x ∈ ys := List.mem_of_getElem? (by simpa using hx)
          exact fun hpx => hy (h.1 x hmem hpx)
      simp [hno]

theorem partitionPoint_takeWhile (h : xs.Pairwise (fun x y => pred y = true → pred x = true)) :
    partitionPoint pred xs = (xs.takeWhile pred).length :=
  partitionPoint_eq (partitionedAt_takeWhile h) (List.takeWhile_sublist pred).length_le

/-- In an ascending list an element is among all but the last `m` exactly when more than `m` elements are
not below it. -/
theorem mem_take_length_sub_iff {β : Type} [LinearOrder β] {xs : List β} (h : xs.Pairwise (· ≤ ·))
    {x : β} (hx : x ∈ xs) (m : Nat) :
    x ∈ xs.take (xs.length - m) ↔ m < (xs.filter (fun y => decide (x ≤ y))).length := by
  have hpart : PartitionedAt (fun y => decide (y < x)) xs _ := partitionedAt_takeWhile
    (h.imp fun {a b} hab hb => by simpa using hab.trans_lt (by simpa using hb))
  generalize (xs.takeWhile (fun y => decide (y < x))).length = n at hpart
  have hbelow : ∀ i y, xs[i]? = some y → (y < x ↔ i < n) := fun i y hi => by simpa using hpart i y hi
  have hrest : xs.filter (fun y => decide (x ≤ y)) = xs.drop n := by
    rw [← hpart.filter_not_eq_drop]
    congr 1
    funext y
    rw [← decide_not]
    exact decide_eq_decide.mpr not_lt.symm
  rw [hrest, List.length_drop]
  obtain ⟨i, hi⟩ := List.mem_iff_getElem?.mp hx
  have hlen := (List.getElem?_eq_some_iff.mp hi).1
  have hni : n ≤ i := Nat.not_lt.mp fun hlt => lt_irrefl x ((hbelow i x hi).mpr hlt)
  constructor
  · intro hmem
    obtain ⟨k, hk⟩ := List.mem_iff_getElem?.mp hmem
    rw [List.getElem?_take] at hk
    split at hk
    next hlt =>
      have hnk : n ≤ k := Nat.not_lt.mp fun hlt => lt_irrefl x ((hbelow k x hk).mpr hlt)
      omega
    next => simp at hk
  · intro hm
    -- the first element that is not below `x` is `x`
    have hn : n < xs.length := by omega
    have hget := List.getElem?_eq_getElem hn
    have hge : ¬ xs[n] < x := fun hlt => Nat.lt_irrefl n ((hbelow n _ hget).mp hlt)
    have hle : xs[n] ≤ x := by
      rcases Nat.lt_or_eq_of_le hni with hlt | rfl
      · obtain ⟨hlen, rfl⟩ := List.getElem?_eq_some_iff.mp hi
        exact List.pairwise_iff_getElem.mp h n i hn hlen hlt
      · exact (Option.some.inj (hget.symm.trans hi)).le
    rw [List.mem_iff_getElem?]
    refine ⟨n, ?_⟩
    rw [List.getElem?_take_of_lt (by omega), hget, le_antisymm hle (not_lt.mp hge)]

/-! ### The first element of a window -/

variable {xs : List α} {lo hi : Nat}

theorem getElem?_window (i : Nat) :
    ((xs.take hi).drop lo)[i]? = if lo + i < hi then xs[lo + i]? else none := by
  rw [List.getElem?_drop, List.getElem?_take]

theorem find?_window_eq_none : ((xs.take hi).drop lo).find? pred = none ↔
    ∀ i x, lo ≤ i → i < hi → xs[i]? = some x → pred x = false := by
  rw [List.find?_eq_none]
  constructor
  · intro h i x hlo hhi hx
    obtain ⟨d, rfl⟩ := Nat.exists_eq_add_of_le hlo
    have hmem : x ∈ (xs.take hi).drop lo :=
      List.mem_of_getElem? (i := d) (by rw [getElem?_window, if_pos hhi, hx])
    simpa using h x hmem
  · intro h x hx
    obtain ⟨d, hd⟩ := List.mem_iff_getElem?.mp hx
    rw [getElem?_window] at hd
    split_ifs at hd with hhi
    simp [h (lo + d) x (Nat.le_add_right _ _) hhi hd]

theorem find?_window_eq_some {x : α} : ((xs.take hi).drop lo).find? pred = some x ↔
    ∃ i, lo ≤ i ∧ i < hi ∧ xs[i]? = some x ∧ pred x = true ∧
      ∀ j y, lo ≤ j → j < i → xs[j]? = some y → pred y = false := by
  rw [List.find?_eq_some_iff_getElem]
  constructor
  · rintro ⟨hx, d, hd, hget, hbefore⟩
    have hsome := List.getElem?_eq_getElem hd
    rw [hget, getElem?_window] at hsome
    split_ifs at hsome with hhi
    refine ⟨lo + d, Nat.le_add_right _ _, hhi, hsome, hx, ?_⟩
    intro j y hlo hj hy
    obtain ⟨c, rfl⟩ := Nat.exists_eq_add_of_le hlo
    have hc : ((xs.take hi).drop lo)[c]? = some y := by rw [getElem?_window, if_pos (by omega), hy]
    obtain ⟨hlt, hval⟩ := List.getElem?_eq_some_iff.mp hc
    have := hbefore c (by omega)
    simpa [hval] using this
  · rintro ⟨i, hlo, hhi, hx, hpred, hbefore⟩
    obtain ⟨d, rfl⟩ := Nat.exists_eq_add_of_le hlo
    have hd : ((xs.take hi).drop lo)[d]? = some x := by rw [getElem?_window, if_pos hhi, hx]
    obtain ⟨hlt, hval⟩ := List.getElem?_eq_some_iff.mp hd
    refine ⟨hpred, d, hlt, hval, ?_⟩
    intro c hc
    have hsome := List.getElem?_eq_getElem (Nat.lt_trans hc hlt)
    rw [getElem?_window, if_pos (by omega)] at hsome
    rw [hbefore (lo + c) _ (Nat.le_add_right _ _) (by omega) hsome]
    rfl

end Search
