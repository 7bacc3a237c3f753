import PathDns.Lib.Bytes
import Mathlib.Tactic.Ring

/-!
# Names and questions on the wire (`dns/mod.rs`)

`skipName` walks a possibly compressed name, `questionEnd` finds the end of the question section and
`questionsMatch` compares two questions without regard to ASCII letter case. The loops carry a fuel
argument; `skipNameLoop_fuel` shows the fuel they are given is enough. A name is read from the bytes
between its offset and its end only (`skipName_suffix`, `skipName_agree`), which is what lets records be
moved inside a packet.
-/

namespace PathDns

open Bytes

/-- A DNS message. -/
abbrev Packet := List UInt8

def toAsciiLowercase (b : UInt8) : UInt8 := if 65 ≤ b ∧ b ≤ 90 then b + 32 else b

def eqIgnoreAsciiCase (a b : UInt8) : Bool := toAsciiLowercase a == toAsciiLowercase b

/-- The loop of `skip_name`: one label a step. -/
def skipNameLoop (packet : Packet) : Nat → Nat → Option Nat
  | 0, _ => none
  | fuel + 1, pos =>
    match packet[pos]? with
    | none => none
    | some len =>
      if len = 0 then some (pos + 1)
      else if len &&& 0xc0 = 0xc0 then
        match packet[pos + 1]? with
        | none => none
        | some _ => some (pos + 2)
      else if len &&& 0xc0 ≠ 0 then none
      else if packet.length < pos + 1 + len.toNat then none
      else skipNameLoop packet fuel (pos + 1 + len.toNat)

/-- `skip_name`: the offset just past the name at `pos`, or `none` on malformed input. -/
def skipName (packet : Packet) (pos : Nat) : Option Nat := skipNameLoop packet (packet.length + 1) pos

/-- `question_end`: the offset just past QNAME, QTYPE and QCLASS. -/
def questionEnd (packet : Packet) : Option Nat :=
  if packet.length < 12 then none
  else
    match skipName packet 12 with
    | none => none
    | some end_ => if packet.length < end_ + 4 then none else some (end_ + 4)

/-- The label loop inside `questions_match`: `n` bytes compared without regard to case. -/
def labelsMatch (a b : List UInt8) : Nat → Nat → Bool
  | 0, _ => true
  | n + 1, pos =>
    match a[pos]?, b[pos]? with
    | some x, some y => eqIgnoreAsciiCase x y && labelsMatch a b n (pos + 1)
    | _, _ => false

/-- The outer loop of `questions_match`. -/
def questionsMatchLoop (a b : List UInt8) (qnameEnd : Nat) : Nat → Nat → Bool
  | 0, _ => false
  | fuel + 1, pos =>
    if qnameEnd < pos then false
    else
      match a[pos]?, b[pos]? with
      | some la, some lb =>
        if la ≠ lb then false
        else if la = 0 then true
        else
          labelsMatch a b la.toNat (pos + 1) &&
            questionsMatchLoop a b qnameEnd fuel (pos + 1 + la.toNat)
      | _, _ => false

/-- `questions_match`: two questions (`packet[12..question_end]`) equal up to the ASCII case of label
bytes, with QTYPE and QCLASS exact. -/
def questionsMatch (a b : List UInt8) : Bool :=
  if a.length ≠ b.length ∨ a.length < 4 then false
  else if a.drop (a.length - 4) ≠ b.drop (b.length - 4) then false
  else questionsMatchLoop a b (a.length - 4) (a.length + 1) 0

/-! ### `skip_name` -/

variable {packet : Packet} {pos e : Nat}

theorem skipNameLoop_bounds {fuel : Nat} (h : skipNameLoop packet fuel pos = some e) :
    pos < e ∧ e ≤ packet.length := by
  fun_induction skipNameLoop packet fuel pos
  case case3 hget =>
    cases h
    exact ⟨Nat.lt_succ_self _, (List.getElem?_eq_some_iff.mp hget).1⟩
  case case5 hget =>
    cases h
    exact ⟨by omega, (List.getElem?_eq_some_iff.mp hget).1⟩
  case case8 ih =>
    have := ih h
    omega
  all_goals cases h

theorem skipName_bounds (h : skipName packet pos = some e) : pos < e ∧ e ≤ packet.length :=
  skipNameLoop_bounds h

/-- Any fuel above the number of bytes left gives the same answer: the loop consumes a byte a step. -/
theorem skipNameLoop_fuel (packet : Packet) (f g pos : Nat) (hf : packet.length - pos < f)
    (hg : packet.length - pos < g) : skipNameLoop packet f pos = skipNameLoop packet g pos := by
  induction f generalizing g pos with
  | zero => omega
  | succ f ih =>
    cases g with
    | zero => omega
    | succ g =>
      rw [skipNameLoop, skipNameLoop]
      split
      · rfl
      · next len hget =>
        have hpos : pos < packet.length := (List.getElem?_eq_some_iff.mp hget).1
        split_ifs with hzero hptr hres hlen
        · rfl
        · rfl
        · rfl
        · rfl
        · exact ih g _ (by omega) (by omega)

variable {p q : Packet}

/-- The loop at `pos` sees only the bytes from `pos` on. -/
theorem skipNameLoop_suffix {i j : Nat} (hi : i ≤ p.length) (hj : j ≤ q.length) (h : p.drop i = q.drop j)
    (fuel k : Nat) : skipNameLoop q fuel (j + k) = (skipNameLoop p fuel (i + k)).map (fun e => e - i + j) := by
  have hlen : p.length - i = q.length - j := by
    simpa only [List.length_drop] using congrArg List.length h
  have hget : ∀ n, q[j + n]? = p[i + n]? := fun n => by
    rw [← List.getElem?_drop, ← List.getElem?_drop, h]
  induction fuel generalizing k with
  | zero => rfl
  | succ fuel ih =>
    rw [skipNameLoop, skipNameLoop, hget]
    split
    · rfl
    · next len hlenget =>
      split_ifs with hzero hptr hres hq hp
      · simp only [Option.map_some, Option.some.injEq]
        omega
      · rw [show j + k + 1 = j + (k + 1) by omega, show i + k + 1 = i + (k + 1) by omega, hget]
        split
        · rfl
        · simp only [Option.map_some, Option.some.injEq]
          omega
      · rfl
      · rfl
      · omega
      · omega
      · have := ih (k + 1 + len.toNat)
        rw [show j + k + 1 + len.toNat = j + (k + 1 + len.toNat) by omega,
          show i + k + 1 + len.toNat = i + (k + 1 + len.toNat) by omega]
        exact this

theorem skipName_suffix {i j : Nat} (hi : i ≤ p.length) (hj : j ≤ q.length) (h : p.drop i = q.drop j) :
    skipName q j = (skipName p i).map (fun e => e - i + j) := by
  have hlen : p.length - i = q.length - j := by
    simpa only [List.length_drop] using congrArg List.length h
  rw [skipName, skipName,
    skipNameLoop_fuel q (q.length + 1) (p.length + q.length + 1) j (by omega) (by omega),
    skipNameLoop_fuel p (p.length + 1) (p.length + q.length + 1) i (by omega) (by omega)]
  exact skipNameLoop_suffix hi hj h _ 0

theorem skipNameLoop_agree {k fuel : Nat} (h : Agree k p q) (hloop : skipNameLoop p fuel pos = some e)
    (he : e ≤ k) : skipNameLoop q fuel pos = some e := by
  have hright := h.right
  fun_induction skipNameLoop p fuel pos
  case case3 hget =>
    cases hloop
    rw [skipNameLoop, ← h.get _ he, hget]
    exact if_pos rfl
  case case5 hget hzero hptr _ hget1 =>
    cases hloop
    rw [skipNameLoop, ← h.get _ (by omega), hget, ← h.get _ he, hget1]
    exact (if_neg hzero).trans (if_pos hptr)
  case case8 hget hzero hptr hres hroom ih =>
    have hb := skipNameLoop_bounds hloop
    rw [skipNameLoop, ← h.get _ (by omega), hget]
    simp only [if_neg hzero, if_neg hptr, if_neg hres]
    rw [if_neg (by omega), ih hloop]
  all_goals cases hloop

theorem skipName_agree {k : Nat} (h : Agree k p q) (hname : skipName p pos = some e) (he : e ≤ k) :
    skipName q pos = some e := by
  rw [skipName, skipNameLoop_fuel p _ (p.length + q.length + 1) pos (by omega) (by omega)] at hname
  rw [skipName, skipNameLoop_fuel q _ (p.length + q.length + 1) pos (by omega) (by omega)]
  exact skipNameLoop_agree h hname he

theorem questionEnd_eq_some_iff : questionEnd packet = some e ↔
    ∃ n, skipName packet 12 = some n ∧ n + 4 ≤ packet.length ∧ e = n + 4 := by
  rw [questionEnd]
  constructor
  · intro h
    split_ifs at h with hshort
    split at h
    · cases h
    · next n hn =>
      split_ifs at h with htail
      exact ⟨n, hn, by omega, (Option.some.inj h).symm⟩
  · rintro ⟨n, hn, hroom, rfl⟩
    have := skipName_bounds hn
    rw [if_neg (by omega), hn]
    exact if_neg (by omega)

theorem questionEnd_bounds (h : questionEnd packet = some e) : 16 < e ∧ e ≤ packet.length := by
  obtain ⟨n, hn, hroom, rfl⟩ := questionEnd_eq_some_iff.mp h
  have := skipName_bounds hn
  omega

theorem questionEnd_agree {k : Nat} (h : Agree k p q) (hp : questionEnd p = some e) (he : e ≤ k) :
    questionEnd q = some e := by
  have hq := h.right
  obtain ⟨n, hn, -, rfl⟩ := questionEnd_eq_some_iff.mp hp
  exact questionEnd_eq_some_iff.mpr ⟨n, skipName_agree h hn (by omega), by omega, rfl⟩

/-! ### `questions_match` -/

theorem questionsMatch_length {a b : List UInt8} (h : questionsMatch a b = true) :
    a.length = b.length := by
  rw [questionsMatch] at h
  split_ifs at h with hlen
  simp only [not_or, not_not] at hlen
  exact hlen.1

end PathDns
