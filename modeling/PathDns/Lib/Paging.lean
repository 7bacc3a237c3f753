import Mathlib.Data.List.Basic
import PathDns.Lib.Search

/-!
# Pages and cursors

A scan over numbered items fills one page and, when a further item is left, names it as the cursor of the
next page. What a client collects that follows the cursors, when every page sees all items from its cursor
on, and when a page sees only a window of them.
-/

namespace Paging

variable {α : Type}

/-- What one request returns: the events, and where to go on if there is more. -/
structure Page (α : Type) where
  events : List α
  next : Option Nat

/-- The loop that fills a page from numbered items: the first item that no longer fits is the cursor of the
next page. -/
def fill (limit : Nat) : List (Nat × α) → (events : List α) → Page α
  | [], events => ⟨events, none⟩
  | (ordinal, x) :: items, events =>
    if events.length < limit then fill limit items (events ++ [x]) else ⟨events, some ordinal⟩

theorem fill_eq (limit : Nat) (items : List (Nat × α)) {events : List α} (h : events.length ≤ limit) :
    fill limit items events =
      ⟨events ++ (items.take (limit - events.length)).map Prod.snd,
        (items[limit - events.length]?).map Prod.fst⟩ := by
  induction items generalizing events with
  | nil => simp [fill]
  | cons item items ih =>
    obtain ⟨ordinal, x⟩ := item
    by_cases hlt : events.length < limit
    · have hstep : limit - events.length = limit - (events ++ [x]).length + 1 := by
        rw [List.length_append, List.length_singleton]
        omega
      rw [fill, if_pos hlt, ih (by rw [List.length_append, List.length_singleton]; omega), hstep]
      simp
    · have hfull : limit - events.length = 0 := by omega
      rw [fill, if_neg hlt, hfull]
      simp

theorem fill_nil (limit : Nat) (items : List (Nat × α)) :
    fill limit items [] = ⟨(items.take limit).map Prod.snd, (items[limit]?).map Prod.fst⟩ := by
  have hnone : ([] : List α).length ≤ limit := Nat.zero_le limit
  simpa using fill_eq limit items hnone

/-- A scan of two lists is the scan of the second after the first, unless that one ended the page. -/
theorem fill_append (limit : Nat) (xs ys : List (Nat × α)) (events : List α) :
    fill limit (xs ++ ys) events =
      if (fill limit xs events).next.isSome then fill limit xs events
      else fill limit ys (fill limit xs events).events := by
  induction xs generalizing events with
  | nil => rfl
  | cons item xs ih =>
    obtain ⟨ordinal, x⟩ := item
    rw [List.cons_append, fill, fill]
    split
    · exact ih (events ++ [x])
    · rfl

/-- What a client has collected when it has followed the cursors from `c` to the last page. -/
inductive Collected (page : Option Nat → Page α) : Option Nat → List α → Prop
  | last {c : Option Nat} {events : List α} (h : page c = ⟨events, none⟩) : Collected page c events
  | more {c : Option Nat} {events rest : List α} {n : Nat} (h : page c = ⟨events, some n⟩)
      (hrest : Collected page (some n) rest) : Collected page c (events ++ rest)

variable {xs : List α}

theorem Collected.unique {page : Option Nat → Page α} {c : Option Nat} {ys : List α} (hx : Collected page c xs)
    (hy : Collected page c ys) : xs = ys := by
  induction hx generalizing ys with
  | last h =>
    cases hy with
    | last h' => exact congrArg Page.events (h.symm.trans h')
    | more h' => simp [h] at h'
  | more h _ ih =>
    cases hy with
    | last h' => simp [h] at h'
    | more h' hrest' =>
      obtain ⟨rfl, hn⟩ := Page.mk.inj (h.symm.trans h')
      obtain rfl := Option.some.inj hn
      rw [ih hrest']

/-! ## Numbered items -/

/-- Each item has a larger number than those before it. -/
def Ascending (items : List (Nat × α)) : Prop := items.Pairwise (fun a b => a.1 < b.1)

/-- The items from a cursor on. -/
def onward (items : List (Nat × α)) (c : Nat) : List (Nat × α) := items.filter (fun item => c ≤ item.1)

variable {items : List (Nat × α)}

theorem Ascending.onward (h : Ascending items) (c : Nat) :
    Ascending (onward items c) := h.filter _

theorem onward_eq_drop (h : Ascending items) {i n : Nat} {x : α} (hi : items[i]? = some (n, x)) :
    onward items n = items.drop i := by
  obtain ⟨hlt, hget⟩ := List.getElem?_eq_some_iff.mp hi
  have hsplit : items = items.take i ++ (n, x) :: items.drop (i + 1) := by
    rw [← hget, ← List.drop_eq_getElem_cons hlt, List.take_append_drop]
  rw [Ascending, hsplit, List.pairwise_append, List.pairwise_cons] at h
  obtain ⟨-, ⟨hafter, -⟩, hbefore⟩ := h
  have hnone : (items.take i).filter (fun item => n ≤ item.1) = [] := by
    rw [List.filter_eq_nil_iff]
    intro item hitem
    have := hbefore item hitem (n, x) List.mem_cons_self
    simpa using this
  have hall : (items.drop (i + 1)).filter (fun item => n ≤ item.1) = items.drop (i + 1) := by
    rw [List.filter_eq_self]
    intro item hitem
    simpa using (hafter item hitem).le
  rw [Paging.onward]
  conv_lhs => rw [hsplit, List.filter_append, hnone, List.nil_append, List.filter_cons_of_pos (by simp), hall]
  rw [List.drop_eq_getElem_cons hlt, hget]

theorem onward_onward {c n : Nat} (h : c ≤ n) : onward (onward items c) n = onward items n := by
  rw [onward, onward, onward, List.filter_filter]
  congr 1
  funext item
  by_cases hn : n ≤ item.1
  · simp [hn, h.trans hn]
  · simp [hn]

/-- Items numbered from `start` on. -/
def numbered (start : Nat) : List α → List (Nat × α)
  | [] => []
  | x :: xs => (start, x) :: numbered (start + 1) xs

variable {start : Nat} {item : Nat × α}

theorem le_of_mem_numbered (h : item ∈ numbered start xs) : start ≤ item.1 := by
  induction xs generalizing start with
  | nil => simp [numbered] at h
  | cons x xs ih =>
    rcases List.mem_cons.mp h with rfl | h
    · exact Nat.le_refl _
    · exact (Nat.le_succ start).trans (ih h)

theorem lt_of_mem_numbered (h : item ∈ numbered start xs) : item.1 < start + xs.length := by
  induction xs generalizing start with
  | nil => simp [numbered] at h
  | cons x xs ih =>
    rw [List.length_cons]
    rcases List.mem_cons.mp h with rfl | h
    · exact Nat.lt_add_of_pos_right (Nat.succ_pos _)
    · have := ih h
      omega

theorem ascending_numbered (start : Nat) (xs : List α) : Ascending (numbered start xs) := by
  induction xs generalizing start with
  | nil => exact List.Pairwise.nil
  | cons x xs ih =>
    exact List.pairwise_cons.mpr ⟨fun item hitem => le_of_mem_numbered hitem, ih (start + 1)⟩

theorem numbered_append (start : Nat) (xs ys : List α) :
    numbered start (xs ++ ys) = numbered start xs ++ numbered (start + xs.length) ys := by
  induction xs generalizing start with
  | nil => rfl
  | cons x xs ih =>
    rw [List.cons_append, numbered, ih, numbered, List.length_cons, Nat.add_assoc, Nat.add_comm 1]
    rfl

/-- Those of the numbered items that satisfy `p`. -/
def selected (p : α → Bool) (start : Nat) (xs : List α) : List (Nat × α) :=
  (numbered start xs).filter (fun item => p item.2)

theorem selected_cons (p : α → Bool) (start : Nat) (x : α) (xs : List α) :
    selected p start (x :: xs) =
      if p x then (start, x) :: selected p (start + 1) xs else selected p (start + 1) xs := by
  rw [selected, numbered, List.filter_cons]
  rfl

theorem selected_append (p : α → Bool) (start : Nat) (xs ys : List α) :
    selected p start (xs ++ ys) = selected p start xs ++ selected p (start + xs.length) ys := by
  rw [selected, numbered_append, List.filter_append]
  rfl

theorem ascending_selected (p : α → Bool) (start : Nat) (xs : List α) :
    Ascending (selected p start xs) := (ascending_numbered start xs).filter _

theorem le_of_mem_selected {p : α → Bool} (h : item ∈ selected p start xs) : start ≤ item.1 :=
  le_of_mem_numbered (List.mem_filter.mp h).1

theorem lt_of_mem_selected {p : α → Bool} (h : item ∈ selected p start xs) : item.1 < start + xs.length :=
  lt_of_mem_numbered (List.mem_filter.mp h).1

theorem map_snd_selected (p : α → Bool) (start : Nat) (xs : List α) :
    (selected p start xs).map Prod.snd = xs.filter p := by
  induction xs generalizing start with
  | nil => rfl
  | cons x xs ih =>
    rw [selected_cons]
    by_cases hp : p x = true
    · rw [if_pos hp, List.map_cons, ih, List.filter_cons_of_pos hp]
    · rw [if_neg hp, ih, List.filter_cons_of_neg hp]

theorem onward_of_le {c : Nat} (h : ∀ item ∈ items, c ≤ item.1) : onward items c = items := by
  rw [onward, List.filter_eq_self]
  intro item hitem
  simpa using h item hitem

theorem onward_of_lt {c : Nat} (h : ∀ item ∈ items, item.1 < c) : onward items c = [] := by
  rw [onward, List.filter_eq_nil_iff]
  intro item hitem
  simpa using h item hitem

theorem onward_append (xs ys : List (Nat × α)) (c : Nat) :
    onward (xs ++ ys) c = onward xs c ++ onward ys c :=
  List.filter_append ..

section Suffix

variable {page : Option Nat → Page α} {visible : Option Nat → List (Nat × α)} {limit : Nat}

theorem collected_all (hlimit : 0 < limit) (hpage : ∀ c, page c = fill limit (visible c) [])
    (hnext : ∀ c n x, (visible c)[limit]? = some (n, x) → visible (some n) = (visible c).drop limit)
    (c : Option Nat) : Collected page c ((visible c).map Prod.snd) := by
  generalize hlen : (visible c).length = len
  induction len using Nat.strong_induction_on generalizing c with
  | h len ih =>
    have hc := hpage c
    rw [fill_nil] at hc
    cases hget : (visible c)[limit]? with
    | none =>
      rw [hget] at hc
      have hle : (visible c).length ≤ limit := List.getElem?_eq_none_iff.mp hget
      rw [List.take_of_length_le hle] at hc
      exact .last hc
    | some item =>
      obtain ⟨n, x⟩ := item
      rw [hget] at hc
      have hlt : limit < (visible c).length := (List.getElem?_eq_some_iff.mp hget).1
      have hrest := hnext c n x hget
      have hcollect := ih (visible (some n)).length
        (by rw [hrest, List.length_drop]; omega) (some n) rfl
      have hall : (visible c).map Prod.snd =
          ((visible c).take limit).map Prod.snd ++ (visible (some n)).map Prod.snd := by
        rw [hrest, ← List.map_append, List.take_append_drop]
      rw [hall]
      exact .more hc hcollect

end Suffix

/-! ## Windows -/

section Window

variable (limit cap : Nat)

/-- The items that a page at cursor `c` sees: those less than `cap` after the cursor. -/
def window (items : List (Nat × α)) (c : Nat) : List (Nat × α) :=
  items.filter (fun item => decide (c ≤ item.1 ∧ item.1 < c + cap))

/-- Where the `k`th page begins when each page but the first begins with the item that did not fit. -/
def pageStart (c : Nat) (positions : List Nat) (k : Nat) : Nat :=
  if k = 0 then c else positions.getD (k * limit) 0

/-- Every item of a page, and the one that begins the next, is less than `cap` after the start of the
page. -/
def InReach (c : Nat) (positions : List Nat) : Prop :=
  ∀ k j p, positions[j]? = some p → k * limit ≤ j → j ≤ (k + 1) * limit →
    p < pageStart limit c positions k + cap

variable {limit cap}

theorem inReach_drop {c n : Nat} {positions : List Nat} (hn : positions[limit]? = some n) :
    InReach limit cap c positions ↔
      (∀ j ≤ limit, ∀ p, positions[j]? = some p → p < c + cap) ∧
        InReach limit cap n (positions.drop limit) := by
  have hstart : ∀ k, pageStart limit n (positions.drop limit) k = pageStart limit c positions (k + 1) := by
    intro k
    rw [pageStart, pageStart, if_neg (Nat.succ_ne_zero k)]
    split
    next hk => rw [hk, Nat.zero_add, Nat.one_mul, List.getD_eq_getElem?_getD, hn]; rfl
    next hk =>
      rw [List.getD_eq_getElem?_getD, List.getElem?_drop, List.getD_eq_getElem?_getD, Nat.add_mul,
        Nat.one_mul, Nat.add_comm]
  constructor
  · intro h
    refine ⟨fun j hj p hp => ?_, fun k j p hp hlow hhigh => ?_⟩
    · exact h 0 j p hp (by omega) (by omega)
    · rw [List.getElem?_drop] at hp
      rw [hstart]
      refine h (k + 1) (limit + j) p hp ?_ ?_
      · rw [Nat.add_mul, Nat.one_mul, Nat.add_comm]
        exact Nat.add_le_add_left hlow limit
      · rw [Nat.add_mul, Nat.one_mul, Nat.add_comm]
        exact Nat.add_le_add_right hhigh limit
  · rintro ⟨hfirst, hlater⟩ k j p hp hlow hhigh
    cases k with
    | zero => exact hfirst j (by omega) p hp
    | succ k =>
      rw [Nat.add_mul, Nat.one_mul] at hlow
      rw [Nat.add_mul, Nat.one_mul] at hhigh
      rw [← hstart]
      refine hlater k (j - limit) p ?_ (by omega) (by omega)
      rw [List.getElem?_drop, Nat.add_sub_cancel' (by omega), hp]

theorem inReach_of_le {c : Nat} {positions : List Nat} (hlen : positions.length ≤ limit)
    (h : ∀ p ∈ positions, p < c + cap) : InReach limit cap c positions := by
  intro k j p hp hlow _
  have hj := (List.getElem?_eq_some_iff.mp hp).1
  have hk : k = 0 := by
    by_contra hk
    have := Nat.le_mul_of_pos_left limit (Nat.pos_of_ne_zero hk)
    omega
  subst hk
  exact h p (List.mem_of_getElem? hp)

/-- A page sees a first part of the items from its cursor on. -/
theorem window_eq_take (cap : Nat) {items : List (Nat × α)} (h : Ascending items) (c : Nat) :
    ∃ n, window cap items c = (onward items c).take n ∧
      ∀ i item, (onward items c)[i]? = some item → (item.1 < c + cap ↔ i < n) := by
  have hpart : Search.PartitionedAt (fun item : Nat × α => decide (item.1 < c + cap)) (onward items c) _ :=
    Search.partitionedAt_takeWhile ((h.onward c).imp (fun {a b} hab hb => by
      simp only [decide_eq_true_eq] at hb ⊢
      omega))
  refine ⟨_, ?_, fun i item hi => by simpa using hpart i item hi⟩
  rw [← hpart.filter_eq_take, onward, List.filter_filter, window]
  congr 1
  funext item
  rw [← Bool.decide_and]
  exact decide_eq_decide.mpr and_comm

/-- Following the cursors of windowed pages always ends. All items from the cursor on are collected exactly
when none is out of reach of its page. -/
theorem collected_window (hlimit : 0 < limit) {items : List (Nat × α)} (h : Ascending items)
    {page : Option Nat → Page α} (hpage : ∀ c, page c = fill limit (window cap items (c.getD 0)) [])
    (c : Option Nat) :
    ∃ out, Collected page c out ∧
      (out = (onward items (c.getD 0)).map Prod.snd ↔
        InReach limit cap (c.getD 0) ((onward items (c.getD 0)).map Prod.fst)) := by
  generalize hlen : (onward items (c.getD 0)).length = len
  induction len using Nat.strong_induction_on generalizing c with
  | h len ih =>
    obtain ⟨n, hwindow, hin⟩ := window_eq_take cap h (c.getD 0)
    have hc := hpage c
    rw [fill_nil, hwindow] at hc
    have hasc := h.onward (c.getD 0)
    have hge : ∀ item ∈ onward items (c.getD 0), c.getD 0 ≤ item.1 := by
      intro item hitem
      simpa using (List.mem_filter.mp hitem).2
    have hsuffix : ∀ m, c.getD 0 ≤ m → onward items m = onward (onward items (c.getD 0)) m :=
      fun m hm => (onward_onward hm).symm
    generalize onward items (c.getD 0) = rest at *
    generalize c.getD 0 = start at *
    cases hget : (rest.take n)[limit]? with
    | none =>
      -- the last page: nothing is lost exactly if the window is all there is
      have htake : (rest.take n).length ≤ limit := List.getElem?_eq_none_iff.mp hget
      rw [List.take_of_length_le htake, hget] at hc
      refine ⟨_, .last hc, ?_⟩
      rw [List.length_take] at htake
      by_cases hall : rest.length ≤ n
      · rw [List.take_of_length_le hall]
        refine iff_of_true rfl (inReach_of_le (by rw [List.length_map]; omega) ?_)
        intro p hp
        obtain ⟨item, hitem, rfl⟩ := List.mem_map.mp hp
        obtain ⟨i, hi⟩ := List.mem_iff_getElem?.mp hitem
        exact (hin i item hi).mpr ((List.getElem?_eq_some_iff.mp hi).1.trans_le hall)
      · have hlost := List.getElem?_eq_getElem (Nat.not_le.mp hall)
        refine iff_of_false ?_ ?_
        · intro heq
          have := congrArg List.length heq
          rw [List.length_map, List.length_map, List.length_take] at this
          omega
        · intro hreach
          have hlt := hreach 0 n rest[n].1 (by rw [List.getElem?_map, hlost]; rfl) (by omega) (by omega)
          exact Nat.lt_irrefl n ((hin n _ hlost).mp hlt)
    | some item =>
      obtain ⟨m, x⟩ := item
      rw [hget] at hc
      have hlim : limit < n := by
        by_contra hle
        rw [List.getElem?_take_eq_none (Nat.not_lt.mp hle)] at hget
        simp at hget
      rw [List.getElem?_take_of_lt hlim] at hget
      rw [List.take_take, Nat.min_eq_left hlim.le] at hc
      have hm : start ≤ m := hge _ (List.mem_of_getElem? hget)
      have hdrop : onward items m = rest.drop limit := by rw [hsuffix m hm, onward_eq_drop hasc hget]
      obtain ⟨out, hout, hiff⟩ := ih (onward items m).length
        (by
          have := (List.getElem?_eq_some_iff.mp hget).1
          rw [hdrop, List.length_drop]
          omega) (some m) rfl
      refine ⟨_, .more hc hout, ?_⟩
      have hfirst : ∀ j ≤ limit, ∀ p, (rest.map Prod.fst)[j]? = some p → p < start + cap := by
        intro j hj p hp
        rw [List.getElem?_map] at hp
        obtain ⟨item, hitem, rfl⟩ := Option.map_eq_some_iff.mp hp
        exact (hin j item hitem).mpr (by omega)
      have hnum : (rest.map Prod.fst)[limit]? = some m := by rw [List.getElem?_map, hget]; rfl
      rw [inReach_drop hnum, and_iff_right hfirst, ← List.map_drop, ← hdrop]
      simp only [Option.getD_some] at hiff
      rw [← hiff, hdrop]
      constructor
      · intro heq
        have hcut : rest.map Prod.snd = (rest.take limit).map Prod.snd ++ (rest.drop limit).map Prod.snd := by
          rw [← List.map_append, List.take_append_drop]
        exact List.append_cancel_left (heq.trans hcut)
      · intro heq
        rw [heq, ← List.map_append, List.take_append_drop]

end Window

end Paging
