import Mathlib.Data.List.Basic

/-!
# Lists of self-delimiting items

A sequence of items, each with a header of `hd` elements that tells the size of the whole item, read
front to back until fewer than `hd` elements are left or an item does not fit. Reading back a
concatenation of items gives the items (`split_flatten`).
-/

namespace Tlv

variable {α : Type} (hd : Nat) (size : List α → Nat)

/-- The items that fit, front to back, and whether reading ended without one that does not fit. -/
def split : Nat → List α → List (List α) × Bool
  | 0, _ => ([], true)
  | fuel + 1, bs =>
    if bs.length < hd then ([], true)
    else if bs.length < size bs then ([], false)
    else
      let r := split fuel (bs.drop (size bs))
      (bs.take (size bs) :: r.1, r.2)

/-- A whole item: its header is there, and tells its size whatever follows. -/
structure Item (o : List α) : Prop where
  header : hd ≤ o.length
  sized : ∀ rest, size (o ++ rest) = o.length

/-- The size is read from the header, and covers at least the header. -/
structure Sized : Prop where
  local_ : ∀ bs rest, hd ≤ bs.length → size (bs ++ rest) = size bs
  header : ∀ bs, hd ≤ size bs

variable {hd size}

variable {bs : List α}

theorem split_short (h : bs.length < hd) (fuel : Nat) :
    split hd size (fuel + 1) bs = ([], true) := if_pos h

theorem split_misfit (hhd : hd ≤ bs.length) (h : bs.length < size bs) (fuel : Nat) :
    split hd size (fuel + 1) bs = ([], false) := by
  rw [split, if_neg (by omega), if_pos h]

theorem split_fit (hhd : hd ≤ bs.length) (h : size bs ≤ bs.length) (fuel : Nat) :
    split hd size (fuel + 1) bs =
      (bs.take (size bs) :: (split hd size fuel (bs.drop (size bs))).1,
        (split hd size fuel (bs.drop (size bs))).2) := by
  rw [split, if_neg (by omega), if_neg (by omega)]

theorem split_append {o : List α} (ho : Item hd size o) (fuel : Nat) (rest : List α) :
    split hd size (fuel + 1) (o ++ rest) =
      (o :: (split hd size fuel rest).1, (split hd size fuel rest).2) := by
  have hlen := ho.header
  rw [split_fit (by rw [List.length_append]; omega) (by rw [ho.sized, List.length_append]; omega),
    ho.sized, List.take_left, List.drop_left]

theorem split_flatten (hpos : 0 < hd) {os : List (List α)} (hos : ∀ o ∈ os, Item hd size o)
    {fuel : Nat} (hfuel : os.length ≤ fuel) : split hd size fuel os.flatten = (os, true) := by
  induction os generalizing fuel with
  | nil =>
    cases fuel with
    | zero => rfl
    | succ fuel => rw [List.flatten_nil, split_short (by simpa using hpos)]
  | cons o os ih =>
    cases fuel with
    | zero => simp at hfuel
    | succ fuel =>
      rw [List.flatten_cons, split_append (hos o List.mem_cons_self),
        ih (fun p hp => hos p (List.mem_cons_of_mem _ hp)) (by simpa using hfuel)]

theorem Sized.item (hsize : Sized hd size) {o : List α} (h : size o = o.length) : Item hd size o := by
  have hhead : hd ≤ o.length := h ▸ hsize.header o
  exact ⟨hhead, fun rest => by rw [hsize.local_ o rest hhead, h]⟩

theorem split_items (hsize : Sized hd size) {fuel : Nat} : ∀ o ∈ (split hd size fuel bs).1, Item hd size o := by
  induction fuel generalizing bs with
  | zero => simp [split]
  | succ fuel ih =>
    rw [split]
    split_ifs with hshort hfit
    · simp
    · simp
    · intro o ho
      rcases List.mem_cons.mp ho with rfl | ho
      · have hlen : (bs.take (size bs)).length = size bs := by
          rw [List.length_take]
          omega
        have hhead := hsize.header bs
        apply hsize.item
        rw [hlen, ← hsize.local_ (bs.take (size bs)) (bs.drop (size bs)) (by omega),
          List.take_append_drop]
      · exact ih o ho

theorem length_split_flatten (fuel : Nat) (bs : List α) :
    (split hd size fuel bs).1.flatten.length ≤ bs.length := by
  induction fuel generalizing bs with
  | zero => simp [split]
  | succ fuel ih =>
    rw [split]
    split_ifs with hshort hfit
    · simp
    · simp
    · have := ih (bs.drop (size bs))
      simp only [List.flatten_cons, List.length_append, List.length_take, List.length_drop] at this ⊢
      omega

theorem length_flatten_filter_le (p : List α → Bool) (os : List (List α)) :
    (os.filter p).flatten.length ≤ os.flatten.length := by
  induction os with
  | nil => simp
  | cons o os ih =>
    rw [List.filter_cons]
    split_ifs with h
    · simp only [List.flatten_cons, List.length_append]
      omega
    · simp only [List.flatten_cons, List.length_append]
      omega

theorem length_le_length_flatten (hpos : 0 < hd) {os : List (List α)}
    (hos : ∀ o ∈ os, Item hd size o) : os.length ≤ os.flatten.length := by
  induction os with
  | nil => simp
  | cons o os ih =>
    have hhead := (hos o List.mem_cons_self).header
    have := ih (fun p hp => hos p (List.mem_cons_of_mem _ hp))
    simp only [List.length_cons, List.flatten_cons, List.length_append]
    omega

end Tlv
