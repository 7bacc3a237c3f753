import Mathlib.Data.List.Basic

/-!
# Memo tables over small indices

* `BitMemo w`: a partial map from indices to booleans, two bits an index in chunks of `w`.
* `anyThreaded`: a short-circuiting `any` whose test threads a state and may fail. When the test agrees
  with a predicate on the states of an invariant, so does the search.
-/

namespace Memo

/-! ### Bit-packed memo tables -/

/-- One chunk: which indices are known, and which of those are true. -/
structure Chunk (w : Nat) where
  seen : BitVec w
  matched : BitVec w
  matched_seen : ∀ i, matched.getLsbD i = true → seen.getLsbD i = true

namespace Chunk

variable {w : Nat}

def empty : Chunk w := ⟨0#w, 0#w, by simp⟩

/-- The value at `i`, if known. -/
def get (c : Chunk w) (i : Nat) : Option Bool :=
  if c.seen &&& BitVec.twoPow w i ≠ 0#w then some (c.matched &&& BitVec.twoPow w i ≠ 0#w) else none

/-- Record the value at `i`. -/
def record (c : Chunk w) (i : Nat) (v : Bool) : Chunk w where
  seen := c.seen ||| BitVec.twoPow w i
  matched := if v then c.matched ||| BitVec.twoPow w i else c.matched
  matched_seen := by
    intro j hj
    have hsub := c.matched_seen j
    cases v <;> simp_all
    tauto

variable {i : Nat}

theorem and_twoPow_ne_zero (x : BitVec w) (hi : i < w) :
    x &&& BitVec.twoPow w i ≠ 0#w ↔ x.getLsbD i = true := by
  rw [BitVec.and_twoPow]
  split_ifs with h
  · simp only [h, iff_true]
    intro hzero
    have hbit : (BitVec.twoPow w i).getLsbD i = (0#w).getLsbD i := by rw [hzero]
    simp [hi] at hbit
  · simp [h]

theorem get_eq (c : Chunk w) (hi : i < w) :
    c.get i = if c.seen.getLsbD i then some (c.matched.getLsbD i) else none := by
  have hm : decide (c.matched &&& BitVec.twoPow w i ≠ 0#w) = c.matched.getLsbD i := by
    rw [Bool.eq_iff_iff, decide_eq_true_eq, and_twoPow_ne_zero _ hi]
  rw [get, hm]
  simp only [and_twoPow_ne_zero _ hi]

theorem get_empty (hi : i < w) : (empty : Chunk w).get i = none := by
  rw [get_eq _ hi]
  simp [empty]

theorem get_record (c : Chunk w) {j : Nat} (hi : i < w) (hj : j < w) (v : Bool) (hnew : c.get i = none) :
    (c.record i v).get j = if j = i then some v else c.get j := by
  rw [get_eq _ hj, get_eq _ hj]
  rw [get_eq _ hi] at hnew
  have hseen : c.seen.getLsbD i = false := by simpa using hnew
  have hmatched : c.matched.getLsbD i = false := by
    have := c.matched_seen i
    cases hm : c.matched.getLsbD i <;> simp_all
  by_cases hij : j = i
  · subst hij
    cases v
    · simpa [record, hi] using hmatched
    · simp [record, hi]
  · have hother : ∀ x : BitVec w, (x ||| BitVec.twoPow w i).getLsbD j = x.getLsbD j := by
      intro x
      rw [BitVec.getLsbD_or, BitVec.getLsbD_twoPow]
      simp [Ne.symm hij]
    cases v <;> simp [record, hij, hother]

end Chunk

/-- A table of chunks. -/
structure BitMemo (w : Nat) where
  chunks : List (Chunk w)

namespace BitMemo

variable {w : Nat}

/-- Enough empty chunks for `n` indices. -/
def new (w n : Nat) : BitMemo w := ⟨List.replicate ((n + (w - 1)) / w) Chunk.empty⟩

/-- The value at `i`, if known. -/
def get (m : BitMemo w) (i : Nat) : Option Bool := m.chunks[i / w]?.bind (·.get (i % w))

/-- Record the value at `i`; an index behind the last chunk is not recorded. -/
def record (m : BitMemo w) (i : Nat) (v : Bool) : BitMemo w :=
  ⟨m.chunks.modify (i / w) (·.record (i % w) v)⟩

/-- Every known value is that of `f`. -/
def Sound (m : BitMemo w) (f : Nat → Bool) : Prop := ∀ i v, m.get i = some v → v = f i

theorem sound_new (hw : 0 < w) (n : Nat) (f : Nat → Bool) : (new w n).Sound f := by
  intro i v h
  simp only [get, new, Option.bind_eq_some_iff] at h
  obtain ⟨c, hc, hv⟩ := h
  obtain rfl := List.eq_of_mem_replicate (List.mem_of_getElem? hc)
  rw [Chunk.get_empty (Nat.mod_lt i hw)] at hv
  simp at hv

theorem Sound.record {m : BitMemo w} {f : Nat → Bool} (h : m.Sound f) (hw : 0 < w) {i : Nat}
    (hnew : m.get i = none) : (m.record i (f i)).Sound f := by
  intro j v hj
  simp only [get, BitMemo.record, Option.bind_eq_some_iff, List.getElem?_modify] at hj
  obtain ⟨c, hc, hv⟩ := hj
  rw [Option.map_eq_map, Option.map_eq_some_iff] at hc
  obtain ⟨c0, hc0, rfl⟩ := hc
  by_cases hchunk : i / w = j / w
  · rw [if_pos hchunk] at hv
    have hfresh : c0.get (i % w) = none := by
      simpa [get, hchunk, hc0] using hnew
    rw [Chunk.get_record c0 (Nat.mod_lt i hw) (Nat.mod_lt j hw) _ hfresh] at hv
    split_ifs at hv with hbit
    · have hij : j = i := by rw [← Nat.div_add_mod j w, ← Nat.div_add_mod i w, hchunk, hbit]
      simp only [Option.some.injEq] at hv
      rw [hij, hv]
    · exact h j v (by simp [get, hc0, hv])
  · rw [if_neg hchunk] at hv
    exact h j v (by simp [get, hc0]; exact hv)

end BitMemo

/-! ### Threaded search -/

section Threaded

variable {σ α ε : Type}

/-- `any` with a test that threads a state and may fail. -/
def anyThreaded (check : σ → α → Except ε (Bool × σ)) : List α → σ → Except ε (Bool × σ)
  | [], s => .ok (false, s)
  | a :: as, s =>
    match check s a with
    | .error e => .error e
    | .ok (true, s) => .ok (true, s)
    | .ok (false, s) => anyThreaded check as s

theorem anyThreaded_spec {check : σ → α → Except ε (Bool × σ)} {I : σ → Prop} {p : α → Bool}
    {as : List α} (hcheck : ∀ a ∈ as, ∀ s, I s → ∃ s', check s a = .ok (p a, s') ∧ I s')
    {s : σ} (hs : I s) : ∃ s', anyThreaded check as s = .ok (as.any p, s') ∧ I s' := by
  induction as generalizing s with
  | nil => exact ⟨s, rfl, hs⟩
  | cons a as ih =>
    obtain ⟨s', ha, hs'⟩ := hcheck a List.mem_cons_self s hs
    rw [anyThreaded, ha]
    cases hp : p a with
    | true => exact ⟨s', by simp [hp], hs'⟩
    | false =>
      obtain ⟨s'', has, hs''⟩ := ih (fun b hb => hcheck b (List.mem_cons_of_mem _ hb)) hs'
      exact ⟨s'', by simp [hp, has], hs''⟩

end Threaded

end Memo
