import Mathlib.Order.Lattice.Nat
import Mathlib.Data.Finset.Option
import Mathlib.Data.Finset.Sort
import Mathlib.Data.Finset.Union
import Mathlib.Data.Finset.Lattice.Fold
import PathDns.Lib.BitRank

/-!
# Level-order unary degree sequences of tries

A trie laid out breadth first: for every node one clear bit and one label per child, then a set bit. Where
the pieces of a node stand in the bitmap and among the labels, and the nodes below a node in depth-first
order.
-/

namespace Louds

open BitRank

/-! ## Positions in a list of pieces -/

section Pieces

variable {β γ : Type} (f : β → List γ)

variable {xs : List β} {i : Nat}

theorem flatMap_eq_of_getElem? {x : β} (h : xs[i]? = some x) :
    xs.flatMap f = (xs.take i).flatMap f ++ (f x ++ (xs.drop (i + 1)).flatMap f) := by
  obtain ⟨hlt, rfl⟩ := List.getElem?_eq_some_iff.mp h
  conv_lhs => rw [← List.take_append_drop i xs, List.drop_eq_getElem_cons hlt]
  rw [List.flatMap_append, List.flatMap_cons]

theorem getElem?_flatMap_add {j : Nat} {x : β} (h : xs[i]? = some x) (hj : j < (f x).length) :
    (xs.flatMap f)[((xs.take i).flatMap f).length + j]? = (f x)[j]? := by
  rw [flatMap_eq_of_getElem? f h, List.getElem?_append_right (Nat.le_add_right _ _),
    Nat.add_sub_cancel_left, List.getElem?_append_left hj]

theorem take_flatMap_add {j : Nat} {x : β} (h : xs[i]? = some x) (hj : j ≤ (f x).length) :
    (xs.flatMap f).take (((xs.take i).flatMap f).length + j) =
      (xs.take i).flatMap f ++ (f x).take j := by
  rw [flatMap_eq_of_getElem? f h, List.take_length_add_append, List.take_append_of_le_length hj]

theorem flatMap_take_succ {x : β} (h : xs[i]? = some x) :
    (xs.take (i + 1)).flatMap f = (xs.take i).flatMap f ++ f x := by
  rw [List.take_add_one, h, List.flatMap_append]
  simp

end Pieces

variable {α : Type}

/-- The children of a node, a node being its path from the root. -/
def children (kids : List α → List α) (p : List α) : List (List α) := (kids p).map (fun c => p ++ [c])

/-- The bits of a node: one clear bit per child, then a set bit. -/
def unary (kids : List α → List α) (p : List α) : List Bool :=
  List.replicate (kids p).length false ++ [true]

/-- The nodes below a node in depth-first order, down to `height` levels. -/
def below (kids : List α → List α) : (height : Nat) → List α → List (List α)
  | 0, _ => []
  | height + 1, p => (kids p).flatMap (fun c => (p ++ [c]) :: below kids height (p ++ [c]))

/-- A trie of the strings of `S` laid out breadth first: the root, then the children of every node in the
order of the nodes. The order among siblings is free. -/
structure Layout (S : Finset (List α)) where
  nodes : List (List α)
  /-- The labels of the children of a node, in their order. -/
  kids : List α → List α
  breadthFirst : nodes = [] :: nodes.flatMap (children kids)
  mem_kids : ∀ p ∈ nodes, ∀ c, c ∈ kids p ↔ ∃ s ∈ S, p ++ [c] <+: s
  nodup_kids : ∀ p ∈ nodes, (kids p).Nodup

namespace Layout

variable {S : Finset (List α)} (L : Layout S)

/-- The bitmap of all nodes. -/
def bitmap : List Bool := L.nodes.flatMap (unary L.kids)

/-- The labels of all nodes. -/
def labels : List α := L.nodes.flatMap L.kids

/-- Which nodes end a string. -/
def leaves [DecidableEq α] : List Bool := L.nodes.map (fun p => decide (p ∈ S))

/-- Where the bits of a node begin. -/
def start (i : Nat) : Nat := ((L.nodes.take i).flatMap (unary L.kids)).length

/-- Where the labels of a node begin. -/
def labelStart (i : Nat) : Nat := ((L.nodes.take i).flatMap L.kids).length

/-! ## The nodes -/

theorem nil_mem_nodes : [] ∈ L.nodes := by
  rw [L.breadthFirst]
  exact List.mem_cons_self

theorem length_flatMap_children (nodes : List (List α)) :
    (nodes.flatMap (children L.kids)).length = (nodes.flatMap L.kids).length := by
  simp [children, List.length_flatMap]

variable {p : List α}

theorem child_mem {c : α} (hp : p ∈ L.nodes) (hc : c ∈ L.kids p) :
    p ++ [c] ∈ L.nodes.flatMap (children L.kids) :=
  List.mem_flatMap.mpr ⟨p, hp, List.mem_map.mpr ⟨c, hc, rfl⟩⟩

theorem child_mem_nodes {c : α} (hp : p ∈ L.nodes) (hc : c ∈ L.kids p) : p ++ [c] ∈ L.nodes := by
  rw [L.breadthFirst]
  exact List.mem_cons_of_mem _ (L.child_mem hp hc)

theorem mem_nodes_of_isPrefix {s : List α} (hs : s ∈ S) (h : p <+: s) : p ∈ L.nodes := by
  induction p using List.reverseRecOn with
  | nil => exact L.nil_mem_nodes
  | append_singleton p c ih =>
    have hp := ih ((List.prefix_append p [c]).trans h)
    exact L.child_mem_nodes hp ((L.mem_kids p hp c).mpr ⟨s, hs, h⟩)

/-- The strings of the set that go on below a node are at most `height` longer. -/
def Fits (S : Finset (List α)) (height : Nat) (p : List α) : Prop :=
  ∀ s ∈ S, p <+: s → s.length ≤ p.length + height

variable {height : Nat}

theorem Fits.child {c : α} (h : Fits S (height + 1) p) : Fits S height (p ++ [c]) := by
  intro s hs hpre
  have := h s hs ((List.prefix_append p [c]).trans hpre)
  rw [List.length_append, List.length_singleton]
  omega

theorem Fits.kids_eq_nil (h : Fits S 0 p) (hp : p ∈ L.nodes) : L.kids p = [] := by
  rw [List.eq_nil_iff_forall_not_mem]
  intro c hc
  obtain ⟨s, hs, hpre⟩ := (L.mem_kids p hp c).mp hc
  have hle := h s hs ((List.prefix_append p [c]).trans hpre)
  have := hpre.length_le
  rw [List.length_append, List.length_singleton] at this
  omega

/-! ## Depth-first order -/

theorem mem_below_iff {q : List α} (hp : p ∈ L.nodes) (hfits : Fits S height p) :
    q ∈ below L.kids height p ↔ p <+: q ∧ p ≠ q ∧ ∃ s ∈ S, q <+: s := by
  induction height generalizing p with
  | zero =>
    refine ⟨fun h => by simp [below] at h, ?_⟩
    rintro ⟨hpq, hne, s, hs, hqs⟩
    -- a node strictly below would need a longer string than there is
    have hlen := hfits s hs (hpq.trans hqs)
    have := hqs.length_le
    have hlt : p.length < q.length := by
      refine Nat.lt_of_le_of_ne hpq.length_le fun heq => hne (hpq.eq_of_length heq)
    omega
  | succ height ih =>
    simp only [below, List.mem_flatMap, List.mem_cons]
    constructor
    · rintro ⟨c, hc, rfl | hq⟩
      · exact ⟨List.prefix_append p [c], by simp, (L.mem_kids p hp c).mp hc⟩
      · obtain ⟨hpre, -, hs⟩ := (ih (L.child_mem_nodes hp hc) hfits.child).mp hq
        refine ⟨(List.prefix_append p [c]).trans hpre, ?_, hs⟩
        rintro rfl
        have := hpre.length_le
        rw [List.length_append, List.length_singleton] at this
        omega
    · rintro ⟨⟨rest, rfl⟩, hne, s, hs, hqs⟩
      cases rest with
      | nil => simp at hne
      | cons c rest =>
        have hsplit : p ++ c :: rest = p ++ [c] ++ rest := by simp
        have hpre : p ++ [c] <+: p ++ c :: rest := by
          rw [hsplit]
          exact List.prefix_append _ _
        have hc : c ∈ L.kids p := (L.mem_kids p hp c).mpr ⟨s, hs, hpre.trans hqs⟩
        refine ⟨c, hc, ?_⟩
        by_cases heq : p ++ c :: rest = p ++ [c]
        · exact .inl heq
        · exact .inr ((ih (L.child_mem_nodes hp hc) hfits.child).mpr
            ⟨hpre, Ne.symm heq, s, hs, hqs⟩)

theorem nodup_below (hp : p ∈ L.nodes) (hfits : Fits S height p) : (below L.kids height p).Nodup := by
  induction height generalizing p with
  | zero => simp [below]
  | succ height ih =>
    rw [below, List.nodup_flatMap]
    have hchild : ∀ c ∈ L.kids p, ∀ q ∈ (p ++ [c]) :: below L.kids height (p ++ [c]), p ++ [c] <+: q := by
      intro c hc q hq
      rcases List.mem_cons.mp hq with rfl | hq
      · exact List.prefix_refl _
      · exact ((L.mem_below_iff (L.child_mem_nodes hp hc) hfits.child).mp hq).1
    constructor
    · intro c hc
      have hnode := L.child_mem_nodes hp hc
      refine List.nodup_cons.mpr ⟨fun hmem => ?_, ih hnode hfits.child⟩
      exact ((L.mem_below_iff hnode hfits.child).mp hmem).2.1 rfl
    · refine List.Pairwise.imp_of_mem ?_ (L.nodup_kids p hp)
      intro c d hc hd hne q hqc hqd
      -- one node has one label after `p`
      have hpc := hchild c hc q hqc
      have hpd := hchild d hd q hqd
      have heq := List.prefix_of_prefix_length_le hpc hpd (by simp)
      exact hne (by simpa using heq.eq_of_length (by simp))

theorem length_below_le (hfits : Fits S height []) : (below L.kids height []).length ≤ L.labels.length := by
  have hsub : below L.kids height [] ⊆ L.nodes.flatMap (children L.kids) := by
    intro q hq
    obtain ⟨-, hne, s, hs, hqs⟩ := (L.mem_below_iff L.nil_mem_nodes hfits).mp hq
    have hmem := L.mem_nodes_of_isPrefix hs hqs
    rw [L.breadthFirst] at hmem
    exact (List.mem_cons.mp hmem).resolve_left (Ne.symm hne)
  have hle := ((L.nodup_below L.nil_mem_nodes hfits).subperm hsub).length_le
  rwa [L.length_flatMap_children] at hle

/-! ## Where the nodes end -/

theorem isPrefix_of_mem_nodes (hne : S.Nonempty) (hp : p ∈ L.nodes) : ∃ s ∈ S, p <+: s := by
  rw [L.breadthFirst] at hp
  rcases List.mem_cons.mp hp with rfl | hp
  · obtain ⟨s, hs⟩ := hne
    exact ⟨s, hs, List.nil_prefix⟩
  · obtain ⟨q, hq, hp⟩ := List.mem_flatMap.mp hp
    obtain ⟨c, hc, rfl⟩ := List.mem_map.mp hp
    exact (L.mem_kids q hq c).mp hc

theorem mem_of_kids_eq_nil (hne : S.Nonempty) (hp : p ∈ L.nodes) (h : L.kids p = []) : p ∈ S := by
  obtain ⟨s, hs, rest, rfl⟩ := L.isPrefix_of_mem_nodes hne hp
  cases rest with
  | nil => simpa using hs
  | cons c rest =>
    have hc : c ∈ L.kids p := (L.mem_kids p hp c).mpr ⟨_, hs, rest, by simp⟩
    rw [h] at hc
    simp at hc

/-- The children of a node come after it: otherwise every node from it on would be the child of one of
them, and none the shortest. -/
theorem le_labelStart {i : Nat} (hi : i < L.nodes.length) : i ≤ L.labelStart i := by
  by_contra hlt
  have hlt := Nat.not_le.mp hlt
  have hdrop : L.nodes.drop i =
      ((L.nodes.drop i).flatMap (children L.kids)).drop (i - 1 - L.labelStart i) := by
    conv_lhs => rw [L.breadthFirst]
    obtain ⟨i, rfl⟩ : ∃ n, i = n + 1 := ⟨i - 1, by omega⟩
    rw [List.drop_succ_cons]
    conv_lhs => rw [← List.take_append_drop (i + 1) L.nodes, List.flatMap_append, List.drop_append]
    rw [List.drop_eq_nil_of_le, List.nil_append, L.length_flatMap_children]
    · rfl
    · rw [L.length_flatMap_children]
      exact Nat.le_of_lt_succ hlt
  have hparent : ∀ q ∈ L.nodes.drop i, ∃ p ∈ L.nodes.drop i, p.length < q.length := by
    intro q hq
    rw [hdrop] at hq
    obtain ⟨p, hp, hq⟩ := List.mem_flatMap.mp (List.mem_of_mem_drop hq)
    obtain ⟨c, -, rfl⟩ := List.mem_map.mp hq
    exact ⟨p, hp, by simp⟩
  have hnone : ∀ n, ∀ q ∈ L.nodes.drop i, q.length ≠ n := by
    intro n
    induction n using Nat.strong_induction_on with
    | h n ih =>
      rintro q hq rfl
      obtain ⟨p, hp, hshort⟩ := hparent q hq
      exact ih p.length hshort p hp rfl
  have hmem : L.nodes[i] ∈ L.nodes.drop i := by
    rw [List.drop_eq_getElem_cons hi]
    exact List.mem_cons_self
  exact hnone _ _ hmem rfl

theorem length_nodes : L.nodes.length = L.labels.length + 1 := by
  conv_lhs => rw [L.breadthFirst]
  rw [List.length_cons, L.length_flatMap_children, labels]

theorem getLast?_nodes : ∃ p, L.nodes.getLast? = some p ∧ p ∈ L.nodes ∧ L.kids p = [] := by
  have hlen := L.length_nodes
  have hlt : L.nodes.length - 1 < L.nodes.length := by omega
  have hlast := List.getElem?_eq_getElem hlt
  refine ⟨_, List.getLast?_eq_getElem? ▸ hlast, List.mem_of_getElem? hlast, ?_⟩
  have htotal : L.labels = (L.nodes.take (L.nodes.length - 1)).flatMap L.kids ++
      (L.kids L.nodes[L.nodes.length - 1] ++ []) := by
    have hsplit := flatMap_eq_of_getElem? L.kids hlast
    rw [List.drop_eq_nil_of_le (by omega)] at hsplit
    exact hsplit
  have hle := L.le_labelStart hlt
  rw [labelStart] at hle
  rw [htotal, List.append_nil, List.length_append] at hlen
  exact List.eq_nil_of_length_eq_zero (by omega)

theorem getLast?_leaves [DecidableEq α] (hne : S.Nonempty) : L.leaves.getLast? = some true := by
  obtain ⟨p, hlast, hmem, hkids⟩ := L.getLast?_nodes
  rw [leaves, List.getLast?_map, hlast]
  simp [L.mem_of_kids_eq_nil hne hmem hkids]

theorem getLast?_bitmap : L.bitmap.getLast? = some true := by
  obtain ⟨p, hlast, -, -⟩ := L.getLast?_nodes
  obtain ⟨init, hinit⟩ := List.getLast?_eq_some_iff.mp hlast
  rw [bitmap, hinit, List.flatMap_append]
  simp [unary]

/-! ## Where the pieces of a node stand -/

variable {L} {i : Nat} {p : List α} (hi : L.nodes[i]? = some p)

include hi

theorem start_succ : L.start (i + 1) = L.start i + (L.kids p).length + 1 := by
  rw [start, start, flatMap_take_succ _ hi, List.length_append]
  simp [unary, Nat.add_assoc]

theorem start_eq : L.start i = L.labelStart i + i := by
  have hlen : i ≤ L.nodes.length := (List.getElem?_eq_some_iff.mp hi).1.le
  have hsum : ∀ nodes : List (List α), (nodes.flatMap (unary L.kids)).length =
      (nodes.flatMap L.kids).length + nodes.length := by
    intro nodes
    induction nodes with
    | nil => rfl
    | cons q nodes ih =>
      rw [List.flatMap_cons, List.flatMap_cons, List.length_append, List.length_append, ih]
      simp [unary]
      omega
  rw [start, hsum, labelStart, List.length_take, Nat.min_eq_left hlen]

variable {j : Nat}

theorem bitmap_child (hj : j < (L.kids p).length) : L.bitmap[L.start i + j]? = some false := by
  rw [bitmap, start, getElem?_flatMap_add _ hi (by simp [unary]; omega), unary,
    List.getElem?_append_left (by simpa using hj), List.getElem?_replicate_of_lt hj]

theorem bitmap_end : L.bitmap[L.start i + (L.kids p).length]? = some true := by
  rw [bitmap, start, getElem?_flatMap_add _ hi (by simp [unary]), unary,
    List.getElem?_append_right (by simp)]
  simp

theorem labels_child (hj : j < (L.kids p).length) : L.labels[L.labelStart i + j]? = (L.kids p)[j]? :=
  getElem?_flatMap_add _ hi hj

theorem nodes_child {c : α} (hc : (L.kids p)[j]? = some c) :
    L.nodes[L.labelStart i + j + 1]? = some (p ++ [c]) := by
  have hj := (List.getElem?_eq_some_iff.mp hc).1
  rw [L.breadthFirst, List.getElem?_cons_succ, labelStart, ← L.length_flatMap_children,
    getElem?_flatMap_add _ hi (by simpa [children] using hj), children, List.getElem?_map, hc]
  rfl

theorem count_take_bitmap (hj : j ≤ (L.kids p).length) : (L.bitmap.take (L.start i + j)).count true = i := by
  have hones : ∀ nodes : List (List α), (nodes.flatMap (unary L.kids)).count true = nodes.length := by
    intro nodes
    induction nodes with
    | nil => rfl
    | cons q nodes ih =>
      rw [List.flatMap_cons, List.count_append, ih, unary, List.count_append, List.count_replicate]
      simp
      omega
  have hlen : i ≤ L.nodes.length := (List.getElem?_eq_some_iff.mp hi).1.le
  rw [bitmap, start, take_flatMap_add _ hi (by simp [unary]; omega), List.count_append, hones, unary,
    List.take_append_of_le_length (by simpa using hj), List.take_replicate, List.count_replicate,
    List.length_take, Nat.min_eq_left hlen]
  simp

theorem nth_bitmap_end : Nth L.bitmap i (L.start i + (L.kids p).length) where
  set := bitmap_end hi
  before := count_take_bitmap hi (Nat.le_refl _)

end Layout

/-! ## Every finite set has a layout -/

section Canonical

theorem append_singleton_isPrefix_iff {p s : List α} {c : α} :
    p ++ [c] <+: s ↔ p <+: s ∧ s[p.length]? = some c := by
  constructor
  · rintro ⟨rest, rfl⟩
    exact ⟨⟨c :: rest, by simp⟩, by simp⟩
  · rintro ⟨⟨rest, rfl⟩, hc⟩
    rw [List.getElem?_append_right (Nat.le_refl _), Nat.sub_self] at hc
    cases rest with
    | nil => simp at hc
    | cons d rest =>
      obtain rfl : d = c := by simpa using hc
      exact ⟨rest, by simp⟩

variable [LinearOrder α] (S : Finset (List α))

/-- The labels that go on from `p` in the strings of the set, in ascending order. -/
def sortedKids (p : List α) : List α :=
  (S.biUnion (fun s => if p <+: s then (s[p.length]?).toFinset else ∅)).sort (· ≤ ·)

theorem mem_sortedKids {p : List α} {c : α} : c ∈ sortedKids S p ↔ ∃ s ∈ S, p ++ [c] <+: s := by
  rw [sortedKids, Finset.mem_sort, Finset.mem_biUnion]
  refine exists_congr fun s => and_congr_right fun _ => ?_
  rw [append_singleton_isPrefix_iff]
  split
  next hpre => simp [hpre, Option.mem_def]
  next hpre => simp [hpre]

/-- The nodes at depth `n`. -/
def level : Nat → List (List α)
  | 0 => [[]]
  | n + 1 => (level n).flatMap (children (sortedKids S))

theorem length_of_mem_level {n : Nat} {p : List α} (h : p ∈ level S n) : p.length = n := by
  induction n generalizing p with
  | zero => simpa [level] using h
  | succ n ih =>
    obtain ⟨q, hq, hp⟩ := List.mem_flatMap.mp h
    obtain ⟨c, -, rfl⟩ := List.mem_map.mp hp
    rw [List.length_append, List.length_singleton, ih hq]

theorem level_eq_nil : level S (S.sup List.length + 1) = [] := by
  rw [List.eq_nil_iff_forall_not_mem]
  intro p hp
  have hlen := length_of_mem_level S hp
  obtain ⟨q, -, hq⟩ := List.mem_flatMap.mp hp
  obtain ⟨c, hc, rfl⟩ := List.mem_map.mp hq
  obtain ⟨s, hs, hpre⟩ := (mem_sortedKids S).mp hc
  have hsup : s.length ≤ S.sup List.length := Finset.le_sup hs
  have := hpre.length_le
  omega

/-- The layout with siblings in ascending order. -/
def Layout.sorted : Layout S where
  nodes := (List.range (S.sup List.length + 1)).flatMap (level S)
  kids := sortedKids S
  breadthFirst := by
    conv_lhs => rw [List.range_succ_eq_map, List.flatMap_cons, List.flatMap_map]
    rw [List.flatMap_assoc]
    have hnext : (List.range (S.sup List.length + 1)).flatMap (fun n => level S (n + 1)) =
        (List.range (S.sup List.length)).flatMap (fun n => level S (n + 1)) := by
      rw [List.range_succ, List.flatMap_append]
      simp [level_eq_nil]
    exact congrArg ([] :: ·) hnext.symm
  mem_kids _ _ _ := mem_sortedKids S
  nodup_kids _ _ := Finset.sort_nodup _ _

end Canonical

end Louds
