import Mathlib.Data.Fintype.Card

/-!
# Serving the one who waits longest

One of finitely many is served at a time, and the wait of each of the others grows by one. Nobody whose
wait has reached the patience `T` is passed over for someone who waits less. Many can be out of patience at
once, so a wait may exceed `T`, but by less than their number: at most `card ι - j` of them wait for `T + j`
or longer.
-/

namespace LongestWait

variable {ι : Type} [Fintype ι] {T : Nat} {w : ι → Nat} {m : ι}

/-- Who waits for `n` or longer. -/
def waiting (w : ι → Nat) (n : Nat) : Finset ι := Finset.univ.filter (n ≤ w ·)

def Staggered (T : Nat) (w : ι → Nat) : Prop :=
  ∀ j, (waiting w (T + j)).card ≤ Fintype.card ι - j

theorem mem_waiting {n : Nat} {i : ι} : i ∈ waiting w n ↔ n ≤ w i := by simp [waiting]

theorem staggered_of_le (h : ∀ i, w i ≤ T) : Staggered T w := by
  intro j
  rcases Nat.eq_zero_or_pos j with rfl | hj
  · exact Finset.card_le_univ _
  · have hnone : waiting w (T + j) = ∅ := by
      refine Finset.eq_empty_of_forall_notMem fun i hi => ?_
      have := h i
      have := mem_waiting.mp hi
      omega
    rw [hnone, Finset.card_empty]
    exact Nat.zero_le _

theorem Staggered.lt (h : Staggered T w) (i : ι) : w i < T + Fintype.card ι := by
  by_contra hge
  have hnone := h (Fintype.card ι)
  rw [Nat.sub_self, Nat.le_zero, Finset.card_eq_zero] at hnone
  have : i ∈ waiting w (T + Fintype.card ι) := mem_waiting.mpr (by omega)
  rw [hnone] at this
  simp at this

variable [DecidableEq ι]

/-- The waits after `m` is served. -/
def serve (w : ι → Nat) (m : ι) : ι → Nat := fun i => if i = m then 1 else w i + 1

/-- When someone is out of patience, one with the longest wait is served. -/
def Fair (T : Nat) (w : ι → Nat) (m : ι) : Prop := (∃ i, T ≤ w i) → ∀ i, w i ≤ w m

theorem waiting_serve_subset (hT : 0 < T) (j : Nat) :
    waiting (serve w m) (T + (j + 1)) ⊆ (waiting w (T + j)).erase m := by
  intro i hi
  rw [mem_waiting, serve] at hi
  split_ifs at hi with him
  · omega
  · exact Finset.mem_erase.mpr ⟨him, mem_waiting.mpr (by omega)⟩

theorem Staggered.serve (h : Staggered T w) (hT : 0 < T) (hfair : Fair T w m) :
    Staggered T (serve w m) := by
  intro j
  cases j with
  | zero => exact Finset.card_le_univ _
  | succ j =>
    have hsub := Finset.card_le_card (waiting_serve_subset (w := w) (m := m) hT j)
    rcases (waiting w (T + j)).eq_empty_or_nonempty with hnone | ⟨i, hi⟩
    · rw [hnone] at hsub
      simp only [Finset.erase_empty, Finset.card_empty, Nat.le_zero] at hsub
      rw [hsub]
      exact Nat.zero_le _
    · -- the one served waited longest, so it is among them
      have hwait := mem_waiting.mp hi
      have hm : m ∈ waiting w (T + j) := by
        have := hfair ⟨i, by omega⟩ i
        exact mem_waiting.mpr (by omega)
      rw [Finset.card_erase_of_mem hm] at hsub
      have := h j
      omega

end LongestWait
