import Mathlib.Data.List.AList

/-!
# Invariants of finite maps

A map holds an invariant when every binding satisfies it. Inserting a good binding, erasing a key and
clearing keep it; this is all a proof about a bounded cache with unpredictable evictions needs. The same
for a second map that keeps a note on every key of the first.
-/

namespace FinMap

variable {κ ν : Type} [DecidableEq κ] {P Q : κ → ν → Prop} {m : AList (fun _ : κ => ν)}

/-- Every binding of the map satisfies `P`. -/
def Holds (P : κ → ν → Prop) (m : AList (fun _ : κ => ν)) : Prop :=
  ∀ k v, m.lookup k = some v → P k v

theorem holds_empty : Holds P (∅ : AList (fun _ : κ => ν)) := by
  intro k v h
  simp at h

theorem Holds.insert (h : Holds P m) {k : κ} {v : ν} (hv : P k v) : Holds P (m.insert k v) := by
  intro k' v' hlook
  by_cases hk : k' = k
  · subst hk
    rw [AList.lookup_insert, Option.some.injEq] at hlook
    exact hlook ▸ hv
  · rw [AList.lookup_insert_ne hk] at hlook
    exact h k' v' hlook

theorem Holds.erase (h : Holds P m) (k : κ) : Holds P (m.erase k) := by
  intro k' v' hlook
  by_cases hk : k' = k
  · subst hk
    simp at hlook
  · rw [AList.lookup_erase_ne hk] at hlook
    exact h k' v' hlook

theorem Holds.mono (h : Holds P m) (hPQ : ∀ k v, P k v → Q k v) : Holds Q m :=
  fun k v hlook => hPQ k v (h k v hlook)

/-- Inserting what a list of items with distinct keys gives. -/
theorem lookup_foldl_insert {α : Type} {key : α → κ} {val : α → Option ν}
    {step : AList (fun _ : κ => ν) → α → AList (fun _ : κ => ν)}
    (hstep : ∀ m x, step m x = (val x).elim m fun v => m.insert (key x) v) {l : List α}
    (hkeys : l.Pairwise fun a b => key a ≠ key b) (hfree : ∀ x ∈ l, m.lookup (key x) = none) {k : κ} {v : ν} :
    (l.foldl step m).lookup k = some v ↔ m.lookup k = some v ∨ ∃ x ∈ l, key x = k ∧ val x = some v := by
  induction l generalizing m with
  | nil => simp
  | cons x l ih =>
    obtain ⟨hx, hl⟩ := List.pairwise_cons.mp hkeys
    have hfreeL : ∀ y ∈ l, m.lookup (key y) = none := fun y hy => hfree y (List.mem_cons_of_mem _ hy)
    rw [List.foldl_cons, hstep]
    cases hval : val x with
    | none => simp [ih hl hfreeL, hval]
    | some w =>
      rw [Option.elim_some,
        ih hl (fun y hy => by rw [AList.lookup_insert_ne (hx y hy).symm]; exact hfreeL y hy)]
      by_cases hk : k = key x
      · subst hk
        have hother : ¬∃ y ∈ l, key y = key x ∧ val y = some v := fun ⟨y, hy, hyk, _⟩ => hx y hy hyk.symm
        simp [hfree x List.mem_cons_self, hval, hother]
      · simp [AList.lookup_insert_ne hk, Ne.symm hk]

/-! ### Notes beside a map -/

variable {ω : Type} {A B : ω → Prop} {notes : AList (fun _ : κ => ω)}

/-- Every key of the map has a note, and the note satisfies `A`. -/
def Noted (A : ω → Prop) (m : AList (fun _ : κ => ν)) (notes : AList (fun _ : κ => ω)) : Prop :=
  ∀ k v, m.lookup k = some v → ∃ n, notes.lookup k = some n ∧ A n

theorem noted_empty : Noted A (∅ : AList (fun _ : κ => ν)) notes := by
  intro k v h
  simp at h

theorem Noted.insert (h : Noted A m notes) {k : κ} {v : ν} {n : ω} (hn : A n) :
    Noted A (m.insert k v) (notes.insert k n) := by
  intro k' v' hlook
  by_cases hk : k' = k
  · subst hk
    exact ⟨n, AList.lookup_insert notes, hn⟩
  · rw [AList.lookup_insert_ne hk] at hlook ⊢
    exact h k' v' hlook

theorem Noted.erase (h : Noted A m notes) (k : κ) : Noted A (m.erase k) (notes.erase k) := by
  intro k' v' hlook
  by_cases hk : k' = k
  · subst hk
    simp at hlook
  · rw [AList.lookup_erase_ne hk] at hlook ⊢
    exact h k' v' hlook

theorem Noted.mono (h : Noted A m notes) (hAB : ∀ n, A n → B n) : Noted B m notes := by
  intro k v hlook
  obtain ⟨n, hn, ha⟩ := h k v hlook
  exact ⟨n, hn, hAB n ha⟩

end FinMap
