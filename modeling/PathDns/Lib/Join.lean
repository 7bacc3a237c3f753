import Mathlib.Data.List.Forall2

/-!
# Joined lists

Lists joined by a separator and cut at it, where the parts may hold the separator themselves, and what a
map over the joined list does to the parts.
-/

namespace Join

variable {α β : Type}

theorem splitOn_intercalate_parts [BEq α] [LawfulBEq α] (c : α) {parts : List (List α)} (h : parts ≠ []) :
    ([c].intercalate parts).splitOn c = parts.flatMap (List.splitOn c) := by
  induction parts with
  | nil => exact absurd rfl h
  | cons p ps ih =>
    cases ps with
    | nil => simp
    | cons q qs =>
      rw [List.intercalate_cons_cons, List.append_assoc, List.singleton_append,
        List.splitOn_append_cons_self, ih (by simp)]
      rfl

theorem not_mem_of_mem_splitOn [BEq α] [LawfulBEq α] {c : α} {xs part : List α} (h : part ∈ xs.splitOn c) :
    c ∉ part := by
  induction xs generalizing part with
  | nil =>
    rw [List.splitOn_nil, List.mem_singleton] at h
    simp [h]
  | cons x xs ih =>
    rw [List.splitOn_cons_eq_if_modifyHead] at h
    split_ifs at h with hx
    · obtain rfl | h := List.mem_cons.mp h
      · simp
      · exact ih h
    · cases hsplit : xs.splitOn c with
      | nil => exact absurd hsplit (List.splitOn_ne_nil c xs)
      | cons p ps =>
        rw [hsplit, List.modifyHead_cons, List.mem_cons] at h
        obtain rfl | h := h
        · have hp := ih (hsplit ▸ List.mem_cons_self)
          simp only [List.mem_cons, not_or]
          exact ⟨fun heq => hx (by simp [heq]), hp⟩
        · exact ih (hsplit ▸ List.mem_cons_of_mem p h)

theorem flatMap_intercalate (f : α → List β) (sep : List α) (parts : List (List α)) :
    (sep.intercalate parts).flatMap f = (sep.flatMap f).intercalate (parts.map (List.flatMap f)) := by
  induction parts with
  | nil => rfl
  | cons p ps ih =>
    cases ps with
    | nil => simp
    | cons q qs =>
      rw [List.intercalate_cons_cons, List.flatMap_append, List.flatMap_append, ih]
      simp only [List.map_cons, List.intercalate_cons_cons]

theorem map_intercalate (f : α → β) (sep : List α) (parts : List (List α)) :
    (sep.intercalate parts).map f = (sep.map f).intercalate (parts.map (List.map f)) := by
  have hmap : List.map f = List.flatMap (fun a => [f a]) := funext fun l => List.map_eq_flatMap
  rw [hmap]
  exact flatMap_intercalate _ sep parts

theorem length_splitOn [BEq α] [LawfulBEq α] (c : α) (xs : List α) :
    (xs.splitOn c).length = xs.count c + 1 := by
  induction xs with
  | nil => simp
  | cons x xs ih =>
    rw [List.splitOn_cons_eq_if_modifyHead, List.count_cons]
    split_ifs with hx
    · rw [List.length_cons, ih]
    · rw [List.length_modifyHead, ih]

theorem splitOn_map [BEq α] [LawfulBEq α] {f : α → α} {c : α} (hf : ∀ x, f x = c ↔ x = c) (xs : List α) :
    (xs.map f).splitOn c = (xs.splitOn c).map (List.map f) := by
  induction xs with
  | nil => rfl
  | cons x xs ih =>
    rw [List.map_cons, List.splitOn_cons_eq_if_modifyHead, List.splitOn_cons_eq_if_modifyHead, ih]
    by_cases hx : x = c
    · simp [hx, (hf c).mpr rfl]
    · have hfx : f x ≠ c := fun h => hx ((hf x).mp h)
      rw [if_neg (by simpa using hfx), if_neg (by simpa using hx)]
      cases xs.splitOn c <;> rfl

theorem forall₂_congr_right {R S : α → β → Prop} {xs : List α} {ys : List β}
    (h : ∀ y ∈ ys, ∀ x, R x y ↔ S x y) : List.Forall₂ R xs ys ↔ List.Forall₂ S xs ys := by
  induction ys generalizing xs with
  | nil => simp
  | cons y ys ih =>
    cases xs with
    | nil => simp
    | cons x xs =>
      rw [List.forall₂_cons, List.forall₂_cons, h y List.mem_cons_self x,
        ih (fun z hz => h z (List.mem_cons_of_mem y hz))]

end Join
