import Mathlib.Algebra.Ring.Int.Defs
import Mathlib.Data.List.Basic
import Mathlib.Data.List.Perm.Subperm
import Mathlib.Data.List.Range

/-!
# Numbered slots

Tasks, connections or calls that are numbered as they start: the `k`-th one is at place `k` of a list,
a new one goes to the end, and one is changed in place. An invariant of every slot is kept when the
changed slot and the new one satisfy it.
-/

namespace Slots

variable {α : Type} {P Q : Nat → α → Prop} {xs : List α} {a x : α} {j k : Nat}

/-- Every slot satisfies `P`. -/
def Holds (P : Nat → α → Prop) (xs : List α) : Prop := ∀ k x, xs[k]? = some x → P k x

theorem lt_length (h : xs[k]? = some x) : k < xs.length :=
  (List.getElem?_eq_some_iff.mp h).1

theorem of_getElem?_set (h : (xs.set k a)[j]? = some x) :
    (j = k ∧ x = a) ∨ (j ≠ k ∧ xs[j]? = some x) := by
  rw [List.getElem?_set] at h
  split_ifs at h with hjk hlt
  · exact .inl ⟨hjk.symm, (Option.some.inj h).symm⟩
  · exact .inr ⟨fun hkj => hjk hkj.symm, h⟩

theorem of_getElem?_push (h : (xs ++ [a])[j]? = some x) :
    (j = xs.length ∧ x = a) ∨ xs[j]? = some x := by
  rcases Nat.lt_or_ge j xs.length with hlt | hge
  · rw [List.getElem?_append_left hlt] at h
    exact .inr h
  · rw [List.getElem?_append_right hge] at h
    rcases Nat.eq_or_lt_of_le hge with heq | hgt
    · subst heq
      simp only [Nat.sub_self, List.getElem?_cons_zero, Option.some.injEq] at h
      exact .inl ⟨rfl, h.symm⟩
    · rw [List.getElem?_eq_none (by simp; omega)] at h
      simp at h

theorem getElem?_set_self (h : xs[k]? = some x) : (xs.set k a)[k]? = some a := by
  rw [List.getElem?_set_self (lt_length h)]

theorem getElem?_push_of_some (h : xs[k]? = some x) : (xs ++ [a])[k]? = some x := by
  rw [List.getElem?_append_left (lt_length h), h]

theorem Holds.set (h : Holds P xs) (ha : P k a) : Holds P (xs.set k a) := by
  intro j x hx
  rcases of_getElem?_set hx with ⟨rfl, rfl⟩ | ⟨-, hx⟩
  · exact ha
  · exact h j x hx

theorem Holds.push (h : Holds P xs) (ha : P xs.length a) : Holds P (xs ++ [a]) := by
  intro j x hx
  rcases of_getElem?_push hx with ⟨rfl, rfl⟩ | hx
  · exact ha
  · exact h j x hx

theorem map_set_same {β : Type} {f : α → β} (hx : xs[k]? = some x) (hf : f a = f x) :
    (xs.set k a).map f = xs.map f := by
  have hlt : k < (xs.map f).length := by simpa using lt_length hx
  have hget : (xs.map f)[k] = f x := by
    obtain ⟨hk, rfl⟩ := List.getElem?_eq_some_iff.mp hx
    simp
  rw [List.map_set, hf, ← hget, List.set_getElem_self]

theorem forall_mem_push {p : α → Prop} (h : ∀ x ∈ xs, p x) (ha : p a) : ∀ x ∈ xs ++ [a], p x := by
  intro x hx
  rcases List.mem_append.mp hx with hx | hx
  · exact h x hx
  · exact List.mem_singleton.mp hx ▸ ha

theorem forall_mem_set {p : α → Prop} (h : ∀ x ∈ xs, p x) (ha : p a) : ∀ x ∈ xs.set k a, p x := by
  intro x hx
  rcases List.mem_or_eq_of_mem_set hx with hx | rfl
  · exact h x hx
  · exact ha

/-! ### Counting slots -/

variable {p q : α → Bool}

theorem countP_set_same (hx : xs[k]? = some x) (hp : p a = p x) : (xs.set k a).countP p = xs.countP p := by
  have hlt := lt_length hx
  have hget : xs[k] = x := (List.getElem?_eq_some_iff.mp hx).2
  rw [List.countP_set hlt, hget, hp]
  have hpos : p x = true → 0 < xs.countP p := fun h =>
    List.countP_pos_iff.mpr ⟨x, List.mem_of_getElem? hx, h⟩
  split_ifs with h
  · have := hpos h
    omega
  · omega

theorem countP_set_drop (hx : xs[k]? = some x) (hpx : p x = true) (hpa : p a = false) :
    (xs.set k a).countP p + 1 = xs.countP p := by
  have hlt := lt_length hx
  have hget : xs[k] = x := (List.getElem?_eq_some_iff.mp hx).2
  have hpos : 0 < xs.countP p := List.countP_pos_iff.mpr ⟨x, List.mem_of_getElem? hx, hpx⟩
  rw [List.countP_set hlt, hget, hpx, hpa]
  simp only [if_true, Bool.false_eq_true, if_false]
  omega

theorem countP_set_raise (hx : xs[k]? = some x) (hpx : p x = false) (hpa : p a = true) :
    (xs.set k a).countP p = xs.countP p + 1 := by
  have hlt := lt_length hx
  have hget : xs[k] = x := (List.getElem?_eq_some_iff.mp hx).2
  rw [List.countP_set hlt, hget, hpx, hpa]
  simp only [if_true, Bool.false_eq_true, if_false]
  omega

theorem sum_map_set {f : α → Int} (hx : xs[k]? = some x) :
    ((xs.set k a).map f).sum = (xs.map f).sum + (f a - f x) := by
  induction xs generalizing k with
  | nil => simp at hx
  | cons y ys ih =>
    cases k with
    | zero =>
      obtain rfl : y = x := by simpa using hx
      simp only [List.set_cons_zero, List.map_cons, List.sum_cons]
      omega
    | succ k =>
      rw [List.getElem?_cons_succ] at hx
      simp only [List.set_cons_succ, List.map_cons, List.sum_cons, ih hx]
      omega

theorem length_le_of_nodup {ns : List Nat} (hnd : ns.Nodup) (hlt : ∀ n ∈ ns, n < xs.length) :
    ns.length ≤ xs.length := by
  have hsub : ns ⊆ List.range xs.length := fun n hn => List.mem_range.mpr (hlt n hn)
  simpa using (List.subperm_of_subset hnd hsub).length_le

theorem split_concat {α : Type} {l front back : List α} {x a : α}
    (h : l ++ [x] = front ++ a :: back) : (front = l ∧ a = x) ∨ ∃ rest, l = front ++ a :: rest := by
  rcases List.eq_nil_or_concat' back with rfl | ⟨rest, y, rfl⟩
  · obtain ⟨hfront, hlast⟩ := List.append_inj' h rfl
    exact .inl ⟨hfront.symm, (List.cons.inj hlast).1.symm⟩
  · refine .inr ⟨rest, ?_⟩
    rw [← List.cons_append, ← List.append_assoc] at h
    exact (List.append_inj' h rfl).1

end Slots
