import PathDns.Lib.Reader
import PathDns.Mrs

/-!
# The walk of any bitmap

`for_each_domain` trusts nothing about its bitmaps, and its step limit is there for a bitmap that is no
tree. The limit is never needed: a frame at bit `i` with node `n` has `n` set bits before `i`, so a clear bit
belongs to one node; a node other than the root is entered from the one clear bit that is counted up to it.
By induction over the walk no node is entered twice and no clear bit is looked at twice, whatever the bits
are. The steps are then paid for by the labels.
-/

namespace PathDns

open BitRank Fallible

/-- The set bits before `i`: the node that bit `i` belongs to. -/
def RankBitmap.onesBefore (b : RankBitmap) (i : Nat) : Nat := (b.bits.take i).count true

/-- The clear bits before `i`. -/
def RankBitmap.clearBefore (b : RankBitmap) (i : Nat) : Nat := (b.bits.take i).count false

/-- What the loop of `for_each_domain` keeps. -/
structure WalkState where
  stack : List Frame
  current : List UInt8
  out : List Utf8.Text

namespace DomainSet

variable (set : DomainSet)

/-! ### One round of the loop -/

/-- One round: the next state, or what the function has emitted and returns. -/
def round (s : WalkState) : WalkState ⊕ (List Utf8.Text × Except String Unit) :=
  match s.stack with
  | [] => .inr (s.out, .ok ())
  | top :: rest =>
    match set.labelBitmap.get top.bmIdx with
    | none => .inr (s.out, .error s!"mrs domain-set: labelBitmap index {top.bmIdx} out of range")
    | some true => .inl ⟨rest, s.current.take top.restoreLen, s.out⟩
    | some false =>
      match set.child top with
      | .error e => .inr (s.out, .error e)
      | .ok (label, nextNodeId, nextBmIdx) =>
        match set.emitted nextNodeId (s.current ++ [label]) with
        | .error e => .inr (s.out, .error e)
        | .ok texts =>
          if maxDomainSetDepth ≤ rest.length + 1 then
            .inr (s.out ++ texts,
              .error s!"mrs domain-set: trie walk exceeded {maxDomainSetDepth}-deep stack {notATree}")
          else
            .inl ⟨⟨nextNodeId, nextBmIdx, s.current.length⟩ :: { top with bmIdx := top.bmIdx + 1 } :: rest,
              s.current ++ [label], s.out ++ texts⟩

/-- The loop is its rounds, as long as there are steps. -/
theorem walk_round (steps : Nat) (s : WalkState) :
    set.walk (steps + 1) s.stack s.current s.out =
      match set.round s with
      | .inl s' => set.walk steps s'.stack s'.current s'.out
      | .inr result => result := by
  rw [walk.eq_def]
  fun_cases set.round s <;> simp [*]

/-- The state after the given number of rounds, none when the function has returned before. -/
def after : Nat → Option WalkState
  | 0 => some ⟨[⟨0, 0, 0⟩], [], []⟩
  | n + 1 => (after n).bind (fun s => (set.round s).getLeft?)

/-- The clear bit a round looks at, with the label index `checked_sub` gives for it. -/
def looksAt (s : WalkState) : List (Nat × Option Nat) :=
  match s.stack with
  | [] => []
  | top :: _ =>
    if set.labelBitmap.get top.bmIdx = some false then
      [(top.bmIdx, if top.nodeId ≤ top.bmIdx then some (top.bmIdx - top.nodeId) else none)]
    else []

/-- The clear bits the first `n` rounds look at, also a last one that ends in an error. -/
def visits : Nat → List (Nat × Option Nat)
  | 0 => []
  | n + 1 => visits n ++ ((set.after n).elim [] set.looksAt)

/-- Round `n + 1` takes a step: the stack is not empty before it. -/
def TakesStep (n : Nat) : Prop := ∃ s, set.after n = some s ∧ s.stack ≠ []

/-! ### The invariant -/

/-- A node the walk has entered: the root, or the child behind a clear bit it has looked at. -/
def Entered (visited : List Nat) (node : Nat) : Prop :=
  node = 0 ∨ ∃ j ∈ visited, set.labelBitmap.clearBefore j + 1 = node

/-- The frame stands at a bit of its node, behind all bits of the node that were looked at. -/
structure FrameInv (visited : List Nat) (f : Frame) : Prop where
  node : set.labelBitmap.onesBefore f.bmIdx = f.nodeId
  entered : set.Entered visited f.nodeId
  behind : ∀ j ∈ visited, set.labelBitmap.onesBefore j = f.nodeId → j < f.bmIdx

/-- What holds after `n` rounds that have looked at the clear bits `visited`. -/
structure WalkInv (n : Nat) (visited : List Nat) (s : WalkState) : Prop where
  nodup : visited.Nodup
  clear : ∀ j ∈ visited, set.labelBitmap.bits[j]? = some false
  labelled : ∀ j ∈ visited, set.labelBitmap.clearBefore j < set.labels.length
  parents : ∀ j ∈ visited, set.Entered visited (set.labelBitmap.onesBefore j)
  frames : ∀ f ∈ s.stack, set.FrameInv visited f
  distinct : (s.stack.map Frame.nodeId).Nodup
  rounds : n + s.stack.length = 2 * visited.length + 1
  emitted : s.out.length ≤ visited.length

variable {set} {visited : List Nat} {n : Nat} {s s' : WalkState}

theorem Entered.append {node : Nat} (h : set.Entered visited node) (i : Nat) :
    set.Entered (visited ++ [i]) node := by
  obtain rfl | ⟨j, hj, rfl⟩ := h
  · exact .inl rfl
  · exact .inr ⟨j, List.mem_append_left _ hj, rfl⟩

theorem not_entered_child (hclear : ∀ j ∈ visited, set.labelBitmap.bits[j]? = some false) {i : Nat}
    (hi : set.labelBitmap.bits[i]? = some false) (hfresh : i ∉ visited) :
    ¬ set.Entered visited (set.labelBitmap.clearBefore i + 1) := by
  rintro (h | ⟨j, hj, h⟩)
  · exact absurd h (Nat.succ_ne_zero _)
  · exact hfresh (clear_inj (hclear j hj) hi (Nat.succ.inj h) ▸ hj)

theorem WalkInv.length_le (h : set.WalkInv n visited s) : visited.length ≤ set.labels.length := by
  have hnodup : (visited.map set.labelBitmap.clearBefore).Nodup :=
    List.Nodup.map_on (fun i hi j hj heq => clear_inj (h.clear i hi) (h.clear j hj) heq) h.nodup
  have hsub : visited.map set.labelBitmap.clearBefore ⊆ List.range set.labels.length := by
    intro k hk
    obtain ⟨j, hj, rfl⟩ := List.mem_map.mp hk
    exact List.mem_range.mpr (h.labelled j hj)
  simpa using (List.subperm_of_subset hnodup hsub).length_le

theorem walkInv_start (set : DomainSet) : set.WalkInv 0 [] ⟨[⟨0, 0, 0⟩], [], []⟩ where
  nodup := List.nodup_nil
  clear := by simp
  labelled := by simp
  parents := by simp
  frames := by
    intro f hf
    obtain rfl := List.mem_singleton.mp hf
    exact ⟨rfl, .inl rfl, by simp⟩
  distinct := by simp
  rounds := rfl
  emitted := Nat.le_refl 0

/-! ### The clear bit at the top -/

section Top

variable {top : Frame} {rest : List Frame} (h : set.WalkInv n visited s) (hstack : s.stack = top :: rest)
  (hget : set.labelBitmap.get top.bmIdx = some false)

include hget in
theorem clear_top : set.labelBitmap.bits[top.bmIdx]? = some false := by
  rw [← RankBitmap.get_eq, hget]

include h hstack in
theorem WalkInv.topFrame : set.FrameInv visited top := h.frames top (by simp [hstack])

include h hstack in
/-- No clear bit is looked at twice. -/
theorem WalkInv.fresh : top.bmIdx ∉ visited := fun hmem =>
  Nat.lt_irrefl _ ((h.topFrame hstack).behind _ hmem (h.topFrame hstack).node)

include h hstack hget in
theorem WalkInv.labelIdx : top.nodeId ≤ top.bmIdx ∧
    top.bmIdx - top.nodeId = set.labelBitmap.clearBefore top.bmIdx := by
  have hlt := (List.getElem?_eq_some_iff.mp (clear_top hget)).1
  have hsum := count_take_add set.labelBitmap.bits hlt.le
  have hnode := (h.topFrame hstack).node
  rw [RankBitmap.onesBefore] at hnode
  rw [RankBitmap.clearBefore]
  omega

include h hstack hget in
theorem WalkInv.child {label : UInt8} {node bmIdx : Nat} (hchild : set.child top = .ok (label, node, bmIdx)) :
    set.labelBitmap.clearBefore top.bmIdx < set.labels.length ∧
    node = set.labelBitmap.clearBefore top.bmIdx + 1 ∧ set.labelBitmap.onesBefore bmIdx = node := by
  obtain ⟨hle, hidx⟩ := h.labelIdx hstack hget
  have hbit := clear_top hget
  have hlt := (List.getElem?_eq_some_iff.mp hbit).1
  have hcount := count_take_add set.labelBitmap.bits (Nat.succ_le_of_lt hlt)
  rw [Nat.succ_eq_add_one, (count_take_succ_clear hbit).2] at hcount
  rw [DomainSet.child, if_neg (Nat.not_lt.mpr hle)] at hchild
  simp only [hidx] at hchild
  cases hlabel : set.labels[set.labelBitmap.clearBefore top.bmIdx]? with
  | none => simp [hlabel] at hchild
  | some l =>
    rw [RankBitmap.rank0_eq _ (Nat.succ_le_of_lt hlt)] at hchild
    simp only [hlabel] at hchild
    have hnode : top.bmIdx + 1 - (set.labelBitmap.bits.take (top.bmIdx + 1)).count true =
        set.labelBitmap.clearBefore top.bmIdx + 1 := by
      rw [RankBitmap.clearBefore]
      omega
    rw [hnode, if_neg (Nat.succ_ne_zero _), Nat.add_sub_cancel] at hchild
    cases hselect : set.labelBitmap.select1 (set.labelBitmap.clearBefore top.bmIdx) with
    | none => simp [hselect] at hchild
    | some pos =>
      simp only [hselect, Except.ok.injEq, Prod.mk.injEq] at hchild
      obtain ⟨-, rfl, rfl⟩ := hchild
      refine ⟨(List.getElem?_eq_some_iff.mp hlabel).1, rfl, ?_⟩
      exact (RankBitmap.nth_of_select1 _ hselect).count_take_succ

include h hstack in
theorem WalkInv.pop (current : List UInt8) : set.WalkInv (n + 1) visited ⟨rest, current, s.out⟩ := by
  have hdistinct := h.distinct
  have hrounds := h.rounds
  rw [hstack, List.map_cons, List.nodup_cons] at hdistinct
  rw [hstack, List.length_cons] at hrounds
  refine { h with
    frames := fun f hf => h.frames f (by simp [hstack, hf])
    distinct := hdistinct.2
    rounds := ?_ }
  change n + 1 + rest.length = 2 * visited.length + 1
  omega

include h hstack hget in
/-- A round that comes to a child: the bit and the child are new. -/
theorem WalkInv.push {label : UInt8} {node bmIdx : Nat} (hchild : set.child top = .ok (label, node, bmIdx))
    (current : List UInt8) (restoreLen : Nat) {texts : List Utf8.Text} (htexts : texts.length ≤ 1) :
    set.WalkInv (n + 1) (visited ++ [top.bmIdx])
      ⟨⟨node, bmIdx, restoreLen⟩ :: { top with bmIdx := top.bmIdx + 1 } :: rest, current, s.out ++ texts⟩ := by
  have hbit := clear_top hget
  have hfresh := h.fresh hstack
  have htop := h.topFrame hstack
  have hdistinct := h.distinct
  have hrounds := h.rounds
  have hemitted := h.emitted
  obtain ⟨hlabel, rfl, hones⟩ := h.child hstack hget hchild
  have hnew := not_entered_child h.clear hbit hfresh
  rw [hstack, List.map_cons] at hdistinct
  rw [hstack, List.length_cons] at hrounds
  have hothers : ∀ f ∈ rest, f ∈ s.stack := fun f hf => by simp [hstack, hf]
  -- the nodes of all bits looked at were entered before this round
  have hparents : ∀ j ∈ visited ++ [top.bmIdx], set.Entered visited (set.labelBitmap.onesBefore j) := by
    intro j hj
    obtain hj | hj := List.mem_append.mp hj
    · exact h.parents j hj
    · rw [List.mem_singleton.mp hj, htop.node]
      exact htop.entered
  refine ⟨?_, ?_, ?_, fun j hj => (hparents j hj).append _, ?_, ?_, ?_, ?_⟩
  · exact h.nodup.append (List.nodup_singleton _) (by simpa using hfresh)
  · simpa [or_imp, forall_and] using ⟨h.clear, hbit⟩
  · simpa [or_imp, forall_and] using ⟨h.labelled, hlabel⟩
  · intro f hf
    obtain rfl | hf := List.mem_cons.mp hf
    · refine ⟨hones, .inr ⟨top.bmIdx, by simp, rfl⟩, fun j hj heq => absurd ?_ hnew⟩
      have hnode : set.labelBitmap.onesBefore j = set.labelBitmap.clearBefore top.bmIdx + 1 := heq
      exact hnode ▸ hparents j hj
    obtain rfl | hf := List.mem_cons.mp hf
    · refine ⟨(count_take_succ_clear hbit).1.trans htop.node, htop.entered.append _, fun j hj heq => ?_⟩
      obtain hj | hj := List.mem_append.mp hj
      · exact Nat.lt_succ_of_lt (htop.behind j hj heq)
      · exact List.mem_singleton.mp hj ▸ Nat.lt_succ_self _
    · have hframe := h.frames f (hothers f hf)
      refine ⟨hframe.node, hframe.entered.append _, fun j hj heq => ?_⟩
      obtain hj | hj := List.mem_append.mp hj
      · exact hframe.behind j hj heq
      · -- the bit belongs to the node at the top, which is no other frame's
        rw [List.mem_singleton.mp hj, htop.node] at heq
        exact absurd (heq ▸ List.mem_map_of_mem hf) (List.nodup_cons.mp hdistinct).1
  · refine List.nodup_cons.mpr ⟨fun hmem => hnew ?_, hdistinct⟩
    have hmem : set.labelBitmap.clearBefore top.bmIdx + 1 ∈ (top :: rest).map Frame.nodeId := hmem
    obtain ⟨f, hf, hnode⟩ := List.mem_map.mp hmem
    exact hnode ▸ (h.frames f (hstack ▸ hf)).entered
  · simp only [List.length_cons, List.length_append, List.length_nil]
    omega
  · simp only [List.length_append, List.length_singleton]
    omega

end Top

theorem length_emitted {node : Nat} {current : List UInt8} {texts : List Utf8.Text}
    (h : set.emitted node current = .ok texts) : texts.length ≤ 1 := by
  rw [DomainSet.emitted] at h
  obtain ⟨leaf, -, h⟩ := bind_eq_ok_iff.mp h
  split_ifs at h
  · obtain ⟨text, -, ⟨⟩⟩ := bind_eq_ok_iff.mp h
    simp
  · cases h
    simp

theorem WalkInv.round (h : set.WalkInv n visited s) (hround : set.round s = .inl s') :
    set.WalkInv (n + 1) (visited ++ (set.looksAt s).map Prod.fst) s' := by
  revert hround
  fun_cases set.round s <;> rintro ⟨⟩
  case case3 top rest hstack hget => simpa [looksAt, hstack, hget] using h.pop hstack _
  case case7 top rest hstack hget label node bmIdx hchild texts hemitted hdepth =>
    simpa [looksAt, hstack, hget] using
      h.push hstack hget hchild (s.current ++ [label]) s.current.length (length_emitted hemitted)

/-- The invariant holds after every number of rounds. -/
theorem walkInv_after {n : Nat} {s : WalkState} (h : set.after n = some s) :
    set.WalkInv n ((set.visits n).map Prod.fst) s := by
  induction n generalizing s with
  | zero =>
    obtain rfl := Option.some.inj h
    exact walkInv_start set
  | succ n ih =>
    obtain ⟨s0, hs0, hround⟩ := Option.bind_eq_some_iff.mp h
    rw [Sum.getLeft?_eq_some_iff] at hround
    rw [visits, hs0, Option.elim_some, List.map_append]
    exact (ih hs0).round hround

/-! ### How the walk ends -/

/-- The message of an underflow of the label index. -/
def labelUnderflow : String := "mrs domain-set: label index underflow"

/-- The message of the step limit. -/
def stepLimit : String := s!"mrs domain-set: trie walk exceeded {maxDomainSetSteps} steps {notATree}"

/-- The last character of a message, which tells the two above from the others. -/
def EndsIn (e : String) (c : Char) : Prop := e.toList.getLast? = some c

variable {e : String}

theorem EndsIn.append {c : Char} (h : EndsIn e c) (front : String) : EndsIn (front ++ e) c := by
  rw [EndsIn, String.toList_append, List.getLast?_append, h, Option.some_or]

theorem EndsIn.other {c : Char} (h : EndsIn e c) (hw : c ≠ 'w') (hp : c ≠ ')') :
    e ≠ labelUnderflow ∧ e ≠ stepLimit := by
  have hunderflow : EndsIn labelUnderflow 'w' := by unfold EndsIn; decide +kernel
  have hlimit : EndsIn stepLimit ')' := by unfold EndsIn; decide +kernel
  constructor
  · rintro rfl
    exact hw (Option.some.inj (h.symm.trans hunderflow))
  · rintro rfl
    exact hp (Option.some.inj (h.symm.trans hlimit))

theorem endsIn_range (front : String) : EndsIn (front ++ toString " out of range") 'e' :=
  EndsIn.append (by unfold EndsIn; decide +kernel) front

/-- The walk ends in a round that returns, or at the step limit with a step still to be taken. -/
theorem walk_ends {n : Nat} {s : WalkState} (h : set.after n = some s) (steps : Nat) :
    ∃ k s', set.after k = some s' ∧
      (set.round s' = .inr (set.walk steps s.stack s.current s.out) ∨
        (k = n + steps ∧ s'.stack ≠ [] ∧
          set.walk steps s.stack s.current s.out = (s'.out, .error stepLimit))) := by
  induction steps generalizing n s with
  | zero =>
    refine ⟨n, s, h, ?_⟩
    cases hstack : s.stack with
    | nil => exact .inl (by simp [DomainSet.round, hstack, walk])
    | cons top rest => exact .inr ⟨rfl, by simp, rfl⟩
  | succ steps ih =>
    rw [walk_round]
    cases hround : set.round s with
    | inr result => exact ⟨n, s, h, .inl hround⟩
    | inl s' =>
      have hafter : set.after (n + 1) = some s' := by simp [after, h, hround]
      obtain ⟨k, s'', hk, hend⟩ := ih hafter
      refine ⟨k, s'', hk, hend.imp_right ?_⟩
      rintro ⟨rfl, hrest⟩
      exact ⟨by omega, hrest⟩

theorem WalkInv.child_error {top : Frame} {rest : List Frame} (h : set.WalkInv n visited s)
    (hstack : s.stack = top :: rest) (hget : set.labelBitmap.get top.bmIdx = some false)
    (hchild : set.child top = .error e) : e ≠ labelUnderflow ∧ e ≠ stepLimit := by
  have hle := (h.labelIdx hstack hget).1
  revert hchild
  fun_cases set.child top <;> rintro ⟨⟩
  case case1 => omega
  case case2 => exact (endsIn_range _).other (by decide) (by decide)
  case case3 =>
    have hend : EndsIn (toString ") out of range") 'e' := by unfold EndsIn; decide +kernel
    exact (hend.append _).other (by decide) (by decide)
  case case4 =>
    have hend : EndsIn (toString " failed") 'd' := by unfold EndsIn; decide +kernel
    exact (hend.append _).other (by decide) (by decide)

theorem emitted_error {node : Nat} {current : List UInt8} (h : set.emitted node current = .error e) :
    e ≠ labelUnderflow ∧ e ≠ stepLimit := by
  simp only [DomainSet.emitted, bind, Except.bind, pure, Except.pure, isLeaf] at h
  cases hleaf : set.leaves.get node with
  | none =>
    simp only [hleaf] at h
    obtain rfl := Except.error.inj h
    exact (endsIn_range _).other (by decide) (by decide)
  | some leaf =>
    cases leaf with
    | false => simp [hleaf] at h
    | true =>
      simp only [hleaf, if_true, emit] at h
      cases htext : Utf8.Text.fromUtf8 current.reverse with
      | some text => simp [htext] at h
      | none =>
        simp only [htext] at h
        obtain rfl := Except.error.inj h
        have hend : EndsIn "mrs domain-set: non-UTF-8 domain bytes" 's' := by unfold EndsIn; decide +kernel
        exact hend.other (by decide) (by decide)

theorem WalkInv.returns (h : set.WalkInv n visited s) {result : List Utf8.Text × Except String Unit}
    (hround : set.round s = .inr result) : result.1.length ≤ set.labels.length ∧
      result.2 ≠ .error labelUnderflow ∧ result.2 ≠ .error stepLimit := by
  have hout : s.out.length ≤ set.labels.length := h.emitted.trans h.length_le
  have herror : ∀ {out : List Utf8.Text} {e : String}, out.length ≤ set.labels.length →
      e ≠ labelUnderflow ∧ e ≠ stepLimit → out.length ≤ set.labels.length ∧
        (Except.error e : Except String Unit) ≠ .error labelUnderflow ∧
        (Except.error e : Except String Unit) ≠ .error stepLimit :=
    fun hlen he => ⟨hlen, by simpa using he.1, by simpa using he.2⟩
  revert hround
  fun_cases set.round s <;> rintro ⟨⟩
  case case1 => exact ⟨hout, by simp, by simp⟩
  case case2 => exact herror hout ((endsIn_range _).other (by decide) (by decide))
  case case4 top rest hstack hget e hchild => exact herror hout (h.child_error hstack hget hchild)
  case case5 e hemitted => exact herror hout (emitted_error hemitted)
  case case6 top rest hstack hget label node bmIdx hchild texts hemitted hdepth =>
    -- the texts are paid for by the bit just looked at
    have hnext := h.push hstack hget hchild [] 0 (length_emitted hemitted)
    exact herror (hnext.emitted.trans hnext.length_le) ⟨by decide +kernel, by decide +kernel⟩

/-! ### The bounds -/

/-- What is said of a clear bit that was looked at. -/
def LabelledRight (set : DomainSet) (v : Nat × Option Nat) : Prop :=
  set.labelBitmap.bits[v.1]? = some false ∧ v.2 = some (set.labelBitmap.clearBefore v.1)

theorem WalkInv.looksAt (h : set.WalkInv n visited s) :
    ∀ v ∈ set.looksAt s, v.1 ∉ visited ∧ set.LabelledRight v := by
  intro v hv
  cases hstack : s.stack with
  | nil => simp [DomainSet.looksAt, hstack] at hv
  | cons top rest =>
    simp only [DomainSet.looksAt, hstack] at hv
    split_ifs at hv with hget hle
    · obtain rfl := List.mem_singleton.mp hv
      exact ⟨h.fresh hstack, clear_top hget, congrArg some (h.labelIdx hstack hget).2⟩
    · exact absurd (h.labelIdx hstack hget).1 hle
    · simp at hv

theorem length_looksAt (set : DomainSet) (s : WalkState) : (set.looksAt s).length ≤ 1 := by
  unfold DomainSet.looksAt
  split
  · simp
  · split_ifs <;> simp

theorem visits_once (set : DomainSet) (n : Nat) :
    ((set.visits n).map Prod.fst).Nodup ∧ ∀ v ∈ set.visits n, set.LabelledRight v := by
  induction n with
  | zero => simp [visits]
  | succ n ih =>
    rw [visits]
    cases hafter : set.after n with
    | none => simpa using ih
    | some s =>
      have hlook := (walkInv_after hafter).looksAt
      have hone : ((set.looksAt s).map Prod.fst).Nodup := by
        have hlen := length_looksAt set s
        match hl : set.looksAt s with
        | [] => simp
        | [v] => simp
        | v :: w :: vs => simp [hl] at hlen
      rw [Option.elim_some, List.map_append]
      refine ⟨ih.1.append hone ?_, ?_⟩
      · intro i hi hi'
        obtain ⟨v, hv, rfl⟩ := List.mem_map.mp hi'
        exact (hlook v hv).1 hi
      · intro v hv
        obtain hv | hv := List.mem_append.mp hv
        · exact ih.2 v hv
        · exact (hlook v hv).2

/-- The steps are paid for by the labels: each label for coming to a child and for leaving it. -/
theorem steps_le {k : Nat} (h : set.TakesStep k) : k + 1 ≤ 2 * set.labels.length + 1 := by
  obtain ⟨s, hafter, hstack⟩ := h
  have hinv := walkInv_after hafter
  have hlen := hinv.length_le
  have hrounds := hinv.rounds
  have hpos := List.length_pos_iff.mpr hstack
  omega

/-- Whatever the bits and labels are: the walk looks at each clear bit at most once, with the number of
clear bits before it as its label index; it takes at most two steps for a label and one more, emits at most
one text for a label, never ends in an underflow, and with fewer than `2 ^ 28` labels never at the step
limit. -/
theorem walk_bounded (set : DomainSet) :
    (∀ n, ((set.visits n).map Prod.fst).Nodup ∧ ∀ v ∈ set.visits n, set.LabelledRight v) ∧
    (∀ n, set.TakesStep n → n + 1 ≤ 2 * set.labels.length + 1) ∧
    set.forEachDomain.1.length ≤ set.labels.length ∧
    set.forEachDomain.2 ≠ .error labelUnderflow ∧
    (set.labels.length < 2 ^ 28 → set.forEachDomain.2 ≠ .error stepLimit) := by
  have hstart : set.after 0 = some ⟨[⟨0, 0, 0⟩], [], []⟩ := rfl
  have hends := walk_ends hstart maxDomainSetSteps
  refine ⟨set.visits_once, fun n => steps_le, ?_⟩
  obtain ⟨k, s, hafter, hreturn | ⟨rfl, hstack, hlimit⟩⟩ := hends
  · obtain ⟨hlen, hunderflow, hlimit⟩ := (walkInv_after hafter).returns hreturn
    exact ⟨hlen, hunderflow, fun _ => hlimit⟩
  · have hinv := walkInv_after hafter
    have hsteps := steps_le ⟨s, hafter, hstack⟩
    rw [forEachDomain, hlimit]
    refine ⟨hinv.emitted.trans hinv.length_le, fun h => ?_, fun hsmall => ?_⟩
    · have hne : stepLimit ≠ labelUnderflow := by decide +kernel
      exact hne (Except.error.inj h)
    · rw [maxDomainSetSteps] at hsteps
      omega

end DomainSet

end PathDns
