import PathDns.Lib.RustFmt

/-!
# Reading texts

The parsers of the Rust standard library for numbers and network addresses, and the splitting functions of
strings. A parser takes the text that is left and returns what it read with the rest; a parser that fails
has moved nothing.
-/

namespace RustParse

open RustFmt (Text)

/-! ### Splitting -/

/-- `split_once` with a text. -/
def splitOnce (sep : Text) : Text → Option (Text × Text)
  | [] => if sep.isEmpty then some ([], []) else none
  | c :: cs =>
    if sep.isPrefixOf (c :: cs) then some ([], (c :: cs).drop sep.length)
    else (splitOnce sep cs).map (fun r => (c :: r.1, r.2))

/-- `rsplit_once` with a character. -/
def rsplitOnce (sep : Char) (s : Text) : Option (Text × Text) :=
  (splitOnce [sep] s.reverse).map (fun r => (r.2.reverse, r.1.reverse))

/-- `splitn` with a character: at most `n` parts, the last one with all that is left. -/
def splitn (sep : Char) : Nat → Text → List Text
  | 0, _ => []
  | 1, s => [s]
  | n + 2, s =>
    match splitOnce [sep] s with
    | none => [s]
    | some (front, rest) => front :: splitn sep (n + 1) rest

def stripPrefix (front s : Text) : Option Text :=
  if front.isPrefixOf s then some (s.drop front.length) else none

variable {front s : Text}

theorem stripPrefix_eq_some {rest : Text} : stripPrefix front s = some rest ↔ s = front ++ rest := by
  rw [stripPrefix]
  split_ifs with h
  · obtain ⟨tail, rfl⟩ := List.isPrefixOf_iff_prefix.mp h
    simp
  · constructor
    · simp
    · rintro rfl
      exact absurd (List.isPrefixOf_iff_prefix.mpr (List.prefix_append front rest)) h

variable {sep : Text} {c : Char}

theorem splitOnce_cons_of_not (h : ¬ sep <+: c :: s) :
    splitOnce sep (c :: s) = (splitOnce sep s).map (fun r => (c :: r.1, r.2)) := by
  rw [splitOnce, if_neg (fun hp => h (List.isPrefixOf_iff_prefix.mp hp))]

theorem splitOnce_of_front (hsep : sep ≠ []) : splitOnce sep (sep ++ s) = some ([], s) := by
  obtain ⟨c, cs, rfl⟩ := List.exists_cons_of_ne_nil hsep
  have hfront : (c :: cs).isPrefixOf (c :: (cs ++ s)) = true :=
    List.isPrefixOf_iff_prefix.mpr (List.prefix_append (c :: cs) s)
  rw [List.cons_append, splitOnce, if_pos hfront]
  simp

theorem not_front_of_not_mem (hsep : sep ≠ []) (hc : c ∉ sep) : ¬ sep <+: c :: s := by
  rintro ⟨t, ht⟩
  obtain ⟨d, ds, rfl⟩ := List.exists_cons_of_ne_nil hsep
  rw [List.cons_append, List.cons.injEq] at ht
  exact hc (ht.1 ▸ List.mem_cons_self)

theorem front_of_front_append {w : Text} (hw : ∀ c ∈ w, c ∉ sep) (h : sep <+: s ++ w) : sep <+: s := by
  obtain ⟨t, ht⟩ := h
  rcases List.append_eq_append_iff.mp ht with ⟨mid, rfl, -⟩ | ⟨mid, rfl, hmid⟩
  · exact List.prefix_append sep mid
  · cases mid with
    | nil => simp
    | cons c cs =>
      have hc : c ∈ w := by
        rw [hmid]
        exact List.mem_cons_self
      exact absurd (List.mem_append_right s List.mem_cons_self) (hw c hc)

variable {back : Text}

theorem splitOnce_pad (sep front : Text) (hsep : sep ≠ []) (hfront : ∀ c ∈ front, c ∉ sep)
    (hback : ∀ c ∈ back, c ∉ sep) (s : Text) :
    splitOnce sep (front ++ s ++ back) =
      (splitOnce sep s).map (fun r => (front ++ r.1, r.2 ++ back)) := by
  induction front with
  | nil =>
    rw [List.nil_append]
    simp only [List.nil_append]
    induction s with
    | nil =>
      have hnone : splitOnce sep [] = none := by simp [splitOnce, hsep]
      rw [List.nil_append, hnone, Option.map_none]
      induction back with
      | nil => exact hnone
      | cons c cs ih =>
        rw [splitOnce_cons_of_not (not_front_of_not_mem hsep (hback c List.mem_cons_self)),
          ih (fun d hd => hback d (List.mem_cons_of_mem c hd)), Option.map_none]
    | cons c cs ih =>
      by_cases hp : sep <+: c :: cs
      · obtain ⟨t, ht⟩ := hp
        rw [← ht, List.append_assoc, splitOnce_of_front hsep, splitOnce_of_front hsep]
        rfl
      · have hp' : ¬ sep <+: c :: (cs ++ back) := fun h => hp (front_of_front_append hback h)
        rw [List.cons_append, splitOnce_cons_of_not hp', splitOnce_cons_of_not hp, ih, Option.map_map,
          Option.map_map]
        rfl
  | cons c cs ih =>
    have hp := not_front_of_not_mem (s := cs ++ s ++ back) hsep (hfront c List.mem_cons_self)
    rw [List.cons_append, List.cons_append, splitOnce_cons_of_not hp,
      ih (fun d hd => hfront d (List.mem_cons_of_mem c hd)), Option.map_map]
    rfl

theorem splitOnce_char_eq_none : splitOnce [c] s = none ↔ c ∉ s := by
  induction s with
  | nil => simp [splitOnce]
  | cons d ds ih =>
    by_cases hd : d = c
    · have hfront := splitOnce_of_front (s := ds) (List.cons_ne_nil c [])
      rw [hd]
      simp only [List.cons_append, List.nil_append] at hfront
      simp [hfront]
    · have hnot := not_front_of_not_mem (s := ds) (List.cons_ne_nil c []) (by simpa using hd)
      rw [splitOnce_cons_of_not hnot, Option.map_eq_none_iff, ih]
      simp [Ne.symm hd]

theorem rsplitOnce_eq_none : rsplitOnce c s = none ↔ c ∉ s := by
  rw [rsplitOnce, Option.map_eq_none_iff, splitOnce_char_eq_none, List.mem_reverse]

theorem splitOnce_char (h : c ∉ front) (back : Text) :
    splitOnce [c] (front ++ c :: back) = some (front, back) := by
  induction front with
  | nil => exact splitOnce_of_front (s := back) (List.cons_ne_nil c [])
  | cons d ds ih =>
    obtain ⟨hcd, hds⟩ := not_or.mp (fun hmem => h (List.mem_cons.mpr hmem))
    have hnot := not_front_of_not_mem (s := ds ++ c :: back) (List.cons_ne_nil c [])
      (by simpa using Ne.symm hcd)
    rw [List.cons_append, splitOnce_cons_of_not hnot, ih hds]
    rfl

theorem splitOnce_char_eq_some : splitOnce [c] s = some (front, back) ↔ s = front ++ c :: back ∧ c ∉ front := by
  constructor
  · intro h
    have hmem : c ∈ s := by
      by_contra hnot
      rw [splitOnce_char_eq_none.mpr hnot] at h
      cases h
    obtain ⟨front', back', rfl, hnot⟩ := List.eq_append_cons_of_mem hmem
    rw [splitOnce_char hnot, Option.some.injEq, Prod.mk.injEq] at h
    obtain ⟨rfl, rfl⟩ := h
    exact ⟨rfl, hnot⟩
  · rintro ⟨rfl, hnot⟩
    exact splitOnce_char hnot back

theorem rsplitOnce_char (front : Text) (h : c ∉ back) :
    rsplitOnce c (front ++ c :: back) = some (front, back) := by
  have hreverse : (front ++ c :: back).reverse = back.reverse ++ c :: front.reverse := by simp
  rw [rsplitOnce, hreverse, splitOnce_char (by simpa using h)]
  simp

theorem rsplitOnce_char_eq_some : rsplitOnce c s = some (front, back) ↔ s = front ++ c :: back ∧ c ∉ back := by
  constructor
  · intro h
    obtain ⟨⟨back', front'⟩, hsplit, heq⟩ := Option.map_eq_some_iff.mp h
    obtain ⟨rfl, rfl⟩ := Prod.mk.inj heq
    obtain ⟨hs, hnot⟩ := splitOnce_char_eq_some.mp hsplit
    refine ⟨?_, by simpa using hnot⟩
    rw [← List.reverse_reverse s, hs]
    simp
  · rintro ⟨rfl, hnot⟩
    exact rsplitOnce_char front hnot

theorem stripPrefix_append_of_ne {d : Char} (h : c ≠ d) (cs ds rest : Text) :
    stripPrefix (c :: cs) (d :: ds ++ rest) = none := by
  rw [stripPrefix, if_neg]
  intro hfront
  obtain ⟨t, ht⟩ := List.isPrefixOf_iff_prefix.mp hfront
  rw [List.cons_append, List.cons_append, List.cons.injEq] at ht
  exact h ht.1

theorem splitOn_append_back {a : Char} {w : Text} (hw : a ∉ w) (s : Text) :
    ∃ init last, s.splitOn a = init ++ [last] ∧ (s ++ w).splitOn a = init ++ [last ++ w] := by
  induction s with
  | nil => exact ⟨[], [], rfl, List.splitOn_eq_singleton hw⟩
  | cons c cs ih =>
    obtain ⟨init, last, hs, hsw⟩ := ih
    rw [List.cons_append, List.splitOn_cons_eq_if_modifyHead, List.splitOn_cons_eq_if_modifyHead, hs, hsw]
    by_cases hc : (c == a) = true
    · rw [if_pos hc, if_pos hc]
      exact ⟨[] :: init, last, rfl, rfl⟩
    · rw [if_neg hc, if_neg hc]
      cases init with
      | nil => exact ⟨[], c :: last, rfl, rfl⟩
      | cons i is => exact ⟨(c :: i) :: is, last, rfl, rfl⟩

/-! ### Numbers -/

def toDigit (radix : Nat) (c : Char) : Option Nat :=
  let d :=
    if '0' ≤ c ∧ c ≤ '9' then c.toNat - 48
    else if 'a' ≤ c ∧ c ≤ 'z' then c.toNat - 87
    else if 'A' ≤ c ∧ c ≤ 'Z' then c.toNat - 55
    else radix
  if d < radix then some d else none

/-- The digits of `from_str_radix`, with the check for overflow. -/
def parseDigits (radix bound : Nat) : Text → Nat → Option Nat
  | [], n => some n
  | c :: cs, n =>
    match toDigit radix c with
    | none => none
    | some d => if n * radix + d < bound then parseDigits radix bound cs (n * radix + d) else none

/-- `from_str_radix` of an unsigned type with `bound` values; `from_str` has radix 10. -/
def parseUnsigned (radix bound : Nat) (s : Text) : Option Nat :=
  let digits := match s with
    | '+' :: rest => rest
    | _ => s
  if digits.isEmpty then none else parseDigits radix bound digits 0

theorem parseDigits_lt {radix bound : Nat} {m n : Nat} (hm : m < bound)
    (h : parseDigits radix bound s m = some n) : n < bound := by
  induction s generalizing m with
  | nil =>
    rw [parseDigits, Option.some.injEq] at h
    exact h ▸ hm
  | cons c cs ih =>
    rw [parseDigits] at h
    cases hd : toDigit radix c with
    | none => simp [hd] at h
    | some d =>
      simp only [hd] at h
      split_ifs at h with hlt
      exact ih hlt h

theorem parseUnsigned_lt {radix bound : Nat} (hbound : 0 < bound) {n : Nat}
    (h : parseUnsigned radix bound s = some n) : n < bound := by
  simp only [parseUnsigned] at h
  split_ifs at h
  exact parseDigits_lt hbound h

theorem isDigit_iff : c.isDigit = true ↔ 48 ≤ c.toNat ∧ c.toNat ≤ 57 := by
  simp only [Char.isDigit, Bool.and_eq_true, decide_eq_true_eq]
  exact Iff.rfl

theorem toDigit_ten {d : Nat} : toDigit 10 c = some d ↔ c.isDigit = true ∧ c.toNat - 48 = d := by
  have hle : ∀ a b : Char, a ≤ b ↔ a.toNat ≤ b.toNat := fun _ _ => Iff.rfl
  rw [isDigit_iff]
  simp only [toDigit, hle, show '0'.toNat = 48 from rfl, show '9'.toNat = 57 from rfl,
    show 'a'.toNat = 97 from rfl, show 'z'.toNat = 122 from rfl, show 'A'.toNat = 65 from rfl,
    show 'Z'.toNat = 90 from rfl]
  split_ifs <;> simp <;> omega

/-- The number that decimal digits write behind the number `n`. -/
def decimalFrom (n : Nat) (s : Text) : Nat := s.foldl (fun n c => n * 10 + (c.toNat - 48)) n

theorem le_decimalFrom (n : Nat) (s : Text) : n ≤ decimalFrom n s := by
  induction s generalizing n with
  | nil => exact Nat.le_refl n
  | cons c cs ih => exact (show n ≤ n * 10 + (c.toNat - 48) by omega).trans (ih _)

/-- The digit loop reads the decimal numbers below its bound. -/
theorem parseDigits_ten_eq_some {bound : Nat} {m n : Nat} (hm : m < bound) :
    parseDigits 10 bound s m = some n ↔
      (∀ c ∈ s, c.isDigit = true) ∧ decimalFrom m s = n ∧ n < bound := by
  induction s generalizing m with
  | nil =>
    simp only [parseDigits, Option.some.injEq, List.not_mem_nil, false_implies, implies_true, true_and,
      decimalFrom, List.foldl_nil]
    exact ⟨fun h => ⟨h, h ▸ hm⟩, fun h => h.1⟩
  | cons c cs ih =>
    have hfrom : decimalFrom m (c :: cs) = decimalFrom (m * 10 + (c.toNat - 48)) cs := rfl
    rw [parseDigits]
    cases hd : toDigit 10 c with
    | none =>
      refine iff_of_false nofun fun h => ?_
      have hsome := toDigit_ten.mpr ⟨h.1 c List.mem_cons_self, rfl⟩
      rw [hd] at hsome
      cases hsome
    | some d =>
      obtain ⟨hdigit, rfl⟩ := toDigit_ten.mp hd
      dsimp only
      split_ifs with hlt
      · rw [ih hlt, hfrom, List.forall_mem_cons, and_assoc, and_iff_right hdigit]
      · refine iff_of_false nofun fun h => hlt ?_
        have hle := le_decimalFrom (m * 10 + (c.toNat - 48)) cs
        rw [← hfrom, h.2.1] at hle
        exact Nat.lt_of_le_of_lt hle h.2.2

/-! ### Network addresses -/

/-- The digit loop of `read_number`, which gives up on more than `maxDigits` digits. -/
def readDigits (radix maxDigits : Nat) : Text → (count result : Nat) → Option (Nat × Nat × Text)
  | [], count, result => some (count, result, [])
  | c :: cs, count, result =>
    match toDigit radix c with
    | none => some (count, result, c :: cs)
    | some d =>
      if count + 1 > maxDigits then none
      else readDigits radix maxDigits cs (count + 1) (result * radix + d)

/-- `read_number`, into a type with `bound` values. -/
def readNumber (radix maxDigits : Nat) (allowZeroFront : Bool) (bound : Nat) (s : Text) :
    Option (Nat × Text) :=
  match readDigits radix maxDigits s 0 0 with
  | none => none
  | some (count, result, rest) =>
    if count = 0 then none
    else if !allowZeroFront && s.head? = some '0' && 1 < count then none
    else if result < bound then some (result, rest)
    else none

def readSeparator {α : Type} (sep : Char) (index : Nat) (inner : Text → Option (α × Text)) (s : Text) :
    Option (α × Text) :=
  if 0 < index then
    match s with
    | c :: cs => if c = sep then inner cs else none
    | [] => none
  else inner s

/-- Octet `index` of an IPv4 address and those after it, `n` in all. -/
def readOctets : (n index : Nat) → Text → Option (List Nat × Text)
  | 0, _, s => some ([], s)
  | n + 1, index, s =>
    match readSeparator '.' index (readNumber 10 3 false 256) s with
    | none => none
    | some (octet, rest) => (readOctets n (index + 1) rest).map (fun r => (octet :: r.1, r.2))

/-- `read_ipv4_addr`. -/
def readIpv4 (s : Text) : Option (BitVec 32 × Text) :=
  (readOctets 4 0 s).map (fun r => (.ofNat 32 (r.1.foldl (fun n o => n * 256 + o) 0), r.2))

/-- `read_groups` from group `index` on, of which `n` are left; an embedded IPv4 address takes two groups
and ends the reading. -/
def readGroups : (n index : Nat) → Text → List Nat × Bool × Text
  | 0, _, s => ([], false, s)
  | n + 1, index, s =>
    let ipv4 := if 0 < n then readSeparator ':' index readIpv4 s else none
    match ipv4 with
    | some (addr, rest) => ([addr.toNat / 65536, addr.toNat % 65536], true, rest)
    | none =>
      match readSeparator ':' index (readNumber 16 4 true 65536) s with
      | none => ([], false, s)
      | some (group, rest) =>
        let r := readGroups n (index + 1) rest
        (group :: r.1, r.2)

/-- `read_ipv6_addr`. -/
def readIpv6 (s : Text) : Option (BitVec 128 × Text) :=
  let ofGroups (groups : List Nat) : BitVec 128 := .ofNat 128 (groups.foldl (fun n g => n * 65536 + g) 0)
  match readGroups 8 0 s with
  | (head, headIpv4, rest) =>
    if head.length = 8 then some (ofGroups head, rest)
    else if headIpv4 then none
    else
      match rest with
      | ':' :: ':' :: rest =>
        let (tail, _, rest) := readGroups (8 - (head.length + 1)) 0 rest
        some (ofGroups (head ++ List.replicate (8 - head.length - tail.length) 0 ++ tail), rest)
      | _ => none

example : readIpv4 "192.0.2.1".toList = some (0xc0000201#32, []) := by decide +kernel

example : readIpv4 "192.0.2.01".toList = none := by decide +kernel

example : readIpv6 "2001:db8::1".toList = some (0x20010db8000000000000000000000001#128, []) := by
  decide +kernel

example : readIpv6 "::ffff:1.2.3.4".toList = some (0xffff01020304#128, []) := by decide +kernel

end RustParse
