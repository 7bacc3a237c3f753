import Mathlib.Data.List.Basic
import Mathlib.Data.List.TakeWhile
import Mathlib.Order.SuccPred.Basic

/-!
# Finite unions of closed intervals

A list of closed intervals over a linear order with a successor, sorted with a gap between each two. Such a
list is determined by what it covers, and merging intervals in the order of their lower ends builds it.
At the largest element the successor stays where it is, so nothing overflows.
-/

namespace Intervals

variable {α : Type} [LinearOrder α]

/-- Some interval of the list holds `v`. -/
def Covers (rs : List (α × α)) (v : α) : Prop := ∃ r ∈ rs, r.1 ≤ v ∧ v ≤ r.2

variable {rs : List (α × α)} {v : α}

theorem covers_append {ss : List (α × α)} : Covers (rs ++ ss) v ↔ Covers rs v ∨ Covers ss v := by
  simp only [Covers, List.mem_append, or_and_right, exists_or]

variable {r : α × α}

theorem covers_cons : Covers (r :: rs) v ↔ (r.1 ≤ v ∧ v ≤ r.2) ∨ Covers rs v := by
  simp [Covers]

theorem covers_singleton : Covers [r] v ↔ r.1 ≤ v ∧ v ≤ r.2 := by
  simp [Covers]

theorem not_covers_nil (v : α) : ¬ Covers [] v := by simp [Covers]

theorem covers_perm {ss : List (α × α)} (h : rs.Perm ss) : Covers rs v ↔ Covers ss v := by
  simp only [Covers, h.mem_iff]

variable [SuccOrder α]

/-- The intervals are proper and sorted, with a gap between each two. -/
structure Separated (rs : List (α × α)) : Prop where
  proper : ∀ r ∈ rs, r.1 ≤ r.2
  apart : rs.Pairwise (fun r s => Order.succ r.2 < s.1)

namespace Separated

theorem nil : Separated ([] : List (α × α)) := ⟨by simp, .nil⟩

variable {r : α × α} {rs : List (α × α)}

theorem starts_lt (h : Separated rs) : rs.Pairwise (fun r s => r.1 < s.1) := by
  refine List.Pairwise.imp_of_mem ?_ h.apart
  intro r s hr _ hgap
  exact lt_of_le_of_lt ((h.proper r hr).trans (Order.le_succ r.2)) hgap

/-- The last interval that starts at or below an element is the only one that can hold it. -/
theorem covers_iff_getLast? (h : Separated rs) (v : α) :
    Covers rs v ↔ ∃ r, (rs.takeWhile (fun r => decide (r.1 ≤ v))).getLast? = some r ∧ v ≤ r.2 := by
  constructor
  · rintro ⟨r, hr, hlow, hhigh⟩
    obtain ⟨front, back, rfl⟩ := List.append_of_mem hr
    obtain ⟨-, hback, hfront⟩ := List.pairwise_append.mp h.starts_lt
    have hgap := (List.pairwise_append.mp h.apart).2.1
    rw [List.pairwise_cons] at hgap
    have htake : (front ++ r :: back).takeWhile (fun r => decide (r.1 ≤ v)) = front ++ [r] := by
      rw [List.takeWhile_append_of_pos, List.takeWhile_cons_of_pos (by simpa using hlow)]
      · congr 2
        cases back with
        | nil => rfl
        | cons s back =>
          have hs : v < s.1 :=
            lt_of_le_of_lt (hhigh.trans (Order.le_succ r.2)) (hgap.1 s List.mem_cons_self)
          rw [List.takeWhile_cons_of_neg (by simpa using hs)]
      · intro s hs
        exact decide_eq_true ((hfront s hs r List.mem_cons_self).le.trans hlow)
    exact ⟨r, by rw [htake, List.getLast?_concat], hhigh⟩
  · rintro ⟨r, hlast, hhigh⟩
    have hmem := List.mem_of_getLast? hlast
    have hlow : decide (r.1 ≤ v) = true :=
      List.mem_takeWhile_imp (p := fun r : α × α => decide (r.1 ≤ v)) hmem
    exact ⟨r, (List.takeWhile_sublist _).subset hmem, of_decide_eq_true hlow, hhigh⟩

end Separated

/-! ### Merging -/

/-- One interval more, which starts no earlier than the last one of the list. -/
def absorb (merged : List (α × α)) (r : α × α) : List (α × α) :=
  match merged.getLast? with
  | some last =>
    if r.1 ≤ Order.succ last.2 then
      if last.2 < r.2 then merged.dropLast ++ [(last.1, r.2)] else merged
    else merged ++ [r]
  | none => merged ++ [r]

theorem absorb_nil (r : α × α) : absorb [] r = [r] := rfl

theorem absorb_concat (init : List (α × α)) (last r : α × α) :
    absorb (init ++ [last]) r =
      if r.1 ≤ Order.succ last.2 then
        if last.2 < r.2 then init ++ [(last.1, r.2)] else init ++ [last]
      else init ++ [last] ++ [r] := by
  simp [absorb]

/-- The list is separated and starts nowhere above `b`. -/
structure MergedTo (merged : List (α × α)) (b : α) : Prop extends Separated merged where
  starts : ∀ r ∈ merged, r.1 ≤ b

theorem Separated.concat {init : List (α × α)} (h : Separated init) (hr : r.1 ≤ r.2)
    (hgap : ∀ s ∈ init, Order.succ s.2 < r.1) : Separated (init ++ [r]) where
  proper s hs := by
    rcases List.mem_append.mp hs with hs | hs
    · exact h.proper s hs
    · rw [List.mem_singleton.mp hs]
      exact hr
  apart := by
    rw [List.pairwise_append]
    exact ⟨h.apart, List.pairwise_singleton _ _, fun s hs t ht => List.mem_singleton.mp ht ▸ hgap s hs⟩

theorem Separated.init {init : List (α × α)} {last : α × α} (h : Separated (init ++ [last])) :
    Separated init ∧ ∀ s ∈ init, Order.succ s.2 < last.1 := by
  obtain ⟨happ, -, hlast⟩ := List.pairwise_append.mp h.apart
  exact ⟨⟨fun s hs => h.proper s (List.mem_append_left _ hs), happ⟩,
    fun s hs => hlast s hs last (List.mem_singleton_self last)⟩

variable {merged : List (α × α)}

theorem absorb_mergedTo {b : α} (h : MergedTo merged b) (hb : b ≤ r.1) (hr : r.1 ≤ r.2) :
    MergedTo (absorb merged r) r.1 := by
  have hstarts : ∀ s ∈ merged, s.1 ≤ r.1 := fun s hs => (h.starts s hs).trans hb
  rcases List.eq_nil_or_concat' merged with rfl | ⟨init, last, rfl⟩
  · rw [absorb_nil]
    exact ⟨Separated.nil.concat hr (by simp), by simp⟩
  · obtain ⟨hinit, hgap⟩ := h.toSeparated.init
    have hlast : last.1 ≤ last.2 := h.proper last (by simp)
    have hlast' : last.1 ≤ r.1 := hstarts last (by simp)
    rw [absorb_concat]
    split_ifs with htouch hlonger
    · refine ⟨hinit.concat (hlast.trans hlonger.le) hgap, ?_⟩
      intro s hs
      rcases List.mem_append.mp hs with hs | hs
      · exact hstarts s (List.mem_append_left _ hs)
      · rw [List.mem_singleton.mp hs]
        exact hlast'
    · exact ⟨h.toSeparated, hstarts⟩
    · rw [not_le] at htouch
      refine ⟨h.toSeparated.concat hr ?_, ?_⟩
      · intro s hs
        rcases List.mem_append.mp hs with hs | hs
        · exact lt_of_lt_of_le (hgap s hs) hlast'
        · rw [List.mem_singleton.mp hs]
          exact htouch
      · intro s hs
        rcases List.mem_append.mp hs with hs | hs
        · exact hstarts s hs
        · rw [List.mem_singleton.mp hs]

theorem covers_absorb {b : α} (h : MergedTo merged b) (hb : b ≤ r.1) :
    Covers (absorb merged r) v ↔ Covers merged v ∨ (r.1 ≤ v ∧ v ≤ r.2) := by
  rcases List.eq_nil_or_concat' merged with rfl | ⟨init, last, rfl⟩
  · rw [absorb_nil, covers_singleton]
    simp [not_covers_nil]
  · have hlast : last.1 ≤ r.1 := (h.starts last (by simp)).trans hb
    rw [absorb_concat]
    split_ifs with htouch hlonger
    · rw [covers_append, covers_append, covers_singleton, covers_singleton, or_assoc]
      refine or_congr_right ?_
      constructor
      · -- above the old end the interval that touches it goes on
        rintro ⟨hlow, hhigh⟩
        rcases le_or_gt v last.2 with hle | hgt
        · exact .inl ⟨hlow, hle⟩
        · exact .inr ⟨htouch.trans (Order.succ_le_of_lt hgt), hhigh⟩
      · rintro (⟨hlow, hhigh⟩ | ⟨hlow, hhigh⟩)
        · exact ⟨hlow, hhigh.trans hlonger.le⟩
        · exact ⟨hlast.trans hlow, hhigh⟩
    · rw [covers_append, covers_singleton, or_assoc]
      refine or_congr_right (or_iff_left_of_imp ?_).symm
      rintro ⟨hlow, hhigh⟩
      exact ⟨hlast.trans hlow, hhigh.trans (not_lt.mp hlonger)⟩
    · rw [covers_append, covers_singleton]

theorem foldl_absorb {b : α} (h : MergedTo merged b) (hproper : ∀ r ∈ rs, r.1 ≤ r.2)
    (hsorted : rs.Pairwise (fun r s => r.1 ≤ s.1)) (hb : ∀ r ∈ rs, b ≤ r.1) :
    Separated (rs.foldl absorb merged) ∧
      ∀ v, Covers (rs.foldl absorb merged) v ↔ Covers merged v ∨ Covers rs v := by
  induction rs generalizing merged b with
  | nil => exact ⟨h.toSeparated, fun v => by simp [not_covers_nil]⟩
  | cons r rs ih =>
    rw [List.pairwise_cons] at hsorted
    have hbr := hb r List.mem_cons_self
    have hstep := absorb_mergedTo h hbr (hproper r List.mem_cons_self)
    obtain ⟨hsep, hcov⟩ := ih hstep (fun s hs => hproper s (List.mem_cons_of_mem r hs)) hsorted.2
      (fun s hs => hsorted.1 s hs)
    refine ⟨hsep, ?_⟩
    intro v
    rw [List.foldl_cons, hcov v, covers_absorb h hbr, covers_cons, or_assoc]

/-- Merging proper intervals in the order of their lower ends gives a separated list of the same union. -/
theorem merge_spec (hproper : ∀ r ∈ rs, r.1 ≤ r.2) (hsorted : rs.Pairwise (fun r s => r.1 ≤ s.1)) :
    Separated (rs.foldl absorb []) ∧ ∀ v, Covers (rs.foldl absorb []) v ↔ Covers rs v := by
  cases rs with
  | nil => exact ⟨.nil, fun v => Iff.rfl⟩
  | cons r rs =>
    have hstart : MergedTo [] r.1 := ⟨.nil, by simp⟩
    have hb : ∀ s ∈ r :: rs, r.1 ≤ s.1 := by
      rw [List.forall_mem_cons]
      exact ⟨le_rfl, (List.pairwise_cons.mp hsorted).1⟩
    obtain ⟨hsep, hcov⟩ := foldl_absorb hstart hproper hsorted hb
    refine ⟨hsep, ?_⟩
    intro v
    rw [hcov v]
    simp [not_covers_nil]

end Intervals
