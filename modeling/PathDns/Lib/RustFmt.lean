import Mathlib.Data.Nat.Digits.Lemmas
import PathDns.Lib.Reading

/-!
# Debug texts of Rust values

The texts that `{:?}` makes of numbers, strings, options, lists and structs. Which
characters of a string are written as a Unicode escape is a table of the standard library and a
parameter here (`special`). Every text can be read back in the places where it stands.
-/

namespace RustFmt

abbrev Text := List Char

/-- The text of a name or a keyword. -/
@[irreducible] def lit (s : String) : Text := s.toList

/-- The digits of a number in the base, without leading zeros. -/
def natText (base n : Nat) : Text :=
  if n = 0 then ['0'] else (Nat.digits base n).reverse.map Nat.digitChar

def dec (n : Nat) : Text := natText 10 n

/-- `{:x}`. -/
def hex (n : Nat) : Text := natText 16 n

def boolText (b : Bool) : Text := if b then lit "true" else lit "false"

/-- `char::escape_debug_ext` as `Debug` of strings uses it: single quotes stay. -/
def escapeChar (special : Char → Bool) (c : Char) : Text :=
  if c = '\x00' then ['\\', '0']
  else if c = '\t' then ['\\', 't']
  else if c = '\r' then ['\\', 'r']
  else if c = '\n' then ['\\', 'n']
  else if c = '"' then ['\\', '"']
  else if c = '\\' then ['\\', '\\']
  else if special c then ['\\', 'u', '\x7b'] ++ hex c.toNat ++ ['\x7d']
  else [c]

/-- `Debug` of a string. -/
def strText (special : Char → Bool) (s : Text) : Text :=
  '"' :: s.flatMap (escapeChar special) ++ ['"']

/-- The parts with a comma between them. -/
def commaSep (parts : List Text) : Text := [',', ' '].intercalate parts

variable {α : Type}

/-- `Debug` of a vector. -/
def listText (f : α → Text) (xs : List α) : Text := '[' :: commaSep (xs.map f) ++ [']']

/-- `Debug` of a tuple struct or tuple variant. -/
def tupleText (name : String) (fields : List Text) : Text :=
  lit name ++ '(' :: commaSep fields ++ [')']

/-- `Debug` of a struct or struct variant with fields. -/
def structText (name : String) (fields : List (String × Text)) : Text :=
  lit name ++ [' ', '\x7b', ' '] ++ commaSep (fields.map (fun f => lit f.1 ++ [':', ' '] ++ f.2)) ++
    [' ', '\x7d']

/-- `Debug` of an option. -/
def optionText (f : α → Text) : Option α → Text
  | none => lit "None"
  | some x => tupleText "Some" [f x]

/-! ### Reading numbers and strings back -/

open Reading

/-- The value of a digit. -/
def digitVal (c : Char) : Nat := if c.toNat < 58 then c.toNat - 48 else c.toNat - 87

theorem digitVal_digitChar : ∀ d < 16, digitVal (Nat.digitChar d) = d := by decide

/-- The number a text denotes. -/
def readNat (base : Nat) (t : Text) : Nat := Nat.ofDigits base (t.reverse.map digitVal)

section Numbers

variable {base : Nat}

theorem readNat_natText (h1 : 1 < base) (h16 : base ≤ 16) (n : Nat) :
    readNat base (natText base n) = n := by
  unfold readNat natText
  split_ifs with hn
  · subst hn
    rfl
  · have hdigits : ((Nat.digits base n).map Nat.digitChar).map digitVal = Nat.digits base n := by
      rw [List.map_map]
      conv_rhs => rw [← List.map_id (Nat.digits base n)]
      apply List.map_congr_left
      intro d hd
      exact digitVal_digitChar d ((Nat.digits_lt_base h1 hd).trans_le h16)
    rw [← List.map_reverse, List.reverse_reverse, hdigits, Nat.ofDigits_digits]

theorem natText_injective (h1 : 1 < base) (h16 : base ≤ 16) : Function.Injective (natText base) :=
  Function.LeftInverse.injective (readNat_natText h1 h16)

theorem mem_natText (h1 : 1 < base) {n : Nat} {c : Char} (h : c ∈ natText base n) :
    ∃ d < base, c = Nat.digitChar d := by
  unfold natText at h
  split_ifs at h with hn
  · exact ⟨0, by omega, List.mem_singleton.mp h⟩
  · obtain ⟨d, hd, rfl⟩ := List.mem_map.mp h
    exact ⟨d, Nat.digits_lt_base h1 (List.mem_reverse.mp hd), rfl⟩

theorem natText_ne_nil (n : Nat) : natText base n ≠ [] := by
  unfold natText
  split_ifs with hn
  · simp
  · simpa [Nat.digits_eq_nil_iff_eq_zero] using hn

theorem natText_free (h1 : 1 < base) (h16 : base ≤ 16) {S : List Char}
    (hS : ∀ d < 16, Nat.digitChar d ∉ S) (n : Nat) : ∀ c ∈ natText base n, c ∉ S := by
  intro c hc
  obtain ⟨d, hd, rfl⟩ := mem_natText h1 hc
  exact hS d (hd.trans_le h16)

end Numbers

/-- What follows a value: the next field, or the end of what holds it. -/
abbrev closers : List Char := [',', ' ', ')', ']']

theorem dec_injective : Function.Injective dec := natText_injective (by decide) (by decide)

theorem hex_injective : Function.Injective hex := natText_injective (by decide) (by decide)

theorem dec_free {S : List Char} (hS : ∀ d < 16, Nat.digitChar d ∉ S) (n : Nat) : ∀ c ∈ dec n, c ∉ S :=
  natText_free (by decide) (by decide) hS n

theorem hex_free {S : List Char} (hS : ∀ d < 16, Nat.digitChar d ∉ S) (n : Nat) : ∀ c ∈ hex n, c ∉ S :=
  natText_free (by decide) (by decide) hS n

theorem dec_readable : Readable (Starts closers) dec :=
  .of_free dec_injective (dec_free (by decide))

theorem boolText_readable : Readable (Starts closers) boolText := by
  apply Readable.of_free
  · decide +kernel
  · intro b
    cases b <;> simp [boolText, lit]

section Strings

variable {special : Char → Bool}

theorem escapeChar_cases (special : Char → Bool) (c : Char) :
    (c ≠ '\\' ∧ c ≠ '"' ∧ escapeChar special c = [c]) ∨
    (∃ d, (c, d) ∈ [('\x00', '0'), ('\t', 't'), ('\r', 'r'), ('\n', 'n'), ('"', '"'), ('\\', '\\')] ∧
      escapeChar special c = ['\\', d]) ∨
    escapeChar special c = ['\\', 'u', '\x7b'] ++ hex c.toNat ++ ['\x7d'] := by
  unfold escapeChar
  split_ifs with h1 h2 h3 h4 h5 h6 h7
  · exact .inr (.inl ⟨'0', by simp [h1], rfl⟩)
  · exact .inr (.inl ⟨'t', by simp [h2], rfl⟩)
  · exact .inr (.inl ⟨'r', by simp [h3], rfl⟩)
  · exact .inr (.inl ⟨'n', by simp [h4], rfl⟩)
  · exact .inr (.inl ⟨'"', by simp [h5], rfl⟩)
  · exact .inr (.inl ⟨'\\', by simp [h6], rfl⟩)
  · exact .inr (.inr rfl)
  · exact .inl ⟨h6, h5, rfl⟩

theorem escapeChar_readable : Readable Anything (escapeChar special) := by
  have hhex : Readable (Starts ['\x7d']) hex := .of_free hex_injective (hex_free (by decide))
  apply Readable.of_reads
  intro c c' r r' heq
  rcases escapeChar_cases special c with ⟨hc, -, h⟩ | ⟨d, hd, h⟩ | h <;>
    rcases escapeChar_cases special c' with ⟨hc', -, h'⟩ | ⟨d', hd', h'⟩ | h'
  all_goals
    rw [h, h'] at heq
    simp only [List.cons_append, List.nil_append, List.cons.injEq, List.append_assoc, true_and] at heq
  · exact heq.1
  · exact absurd heq.1 hc
  · exact absurd heq.1 hc
  · exact absurd heq.1.symm hc'
  · obtain ⟨rfl, -⟩ := heq
    simp only [List.mem_cons, List.not_mem_nil, or_false, Prod.mk.injEq] at hd hd'
    rcases hd with ⟨rfl, rfl⟩ | ⟨rfl, rfl⟩ | ⟨rfl, rfl⟩ | ⟨rfl, rfl⟩ | ⟨rfl, rfl⟩ | ⟨rfl, rfl⟩ <;>
      simpa [eq_comm] using hd'
  · obtain ⟨rfl, -⟩ := heq
    simp at hd
  · exact absurd heq.1.symm hc'
  · obtain ⟨rfl, -⟩ := heq
    simp at hd'
  · have hnat := (hhex.reads (starts_cons (by simp)) (starts_cons (by simp)) heq).1
    exact Char.toNat_inj.mp hnat

theorem escapeChar_starts (c : Char) : ∃ d rest, escapeChar special c = d :: rest ∧ d ≠ '"' := by
  rcases escapeChar_cases special c with ⟨-, hc, h⟩ | ⟨d, -, h⟩ | h
  · exact ⟨c, [], h, hc⟩
  · exact ⟨'\\', [d], h, by decide⟩
  · exact ⟨'\\', _, h, by decide⟩

theorem escaped_inj {s s' r r' : Text}
    (heq : s.flatMap (escapeChar special) ++ '"' :: r = s'.flatMap (escapeChar special) ++ '"' :: r') :
    s = s' := by
  induction s generalizing s' with
  | nil =>
    cases s' with
    | nil => rfl
    | cons c' s' =>
      obtain ⟨d, rest, hd, hne⟩ := @escapeChar_starts special c'
      rw [List.flatMap_nil, List.flatMap_cons, hd] at heq
      exact absurd (List.cons.inj heq).1.symm hne
  | cons c s ih =>
    cases s' with
    | nil =>
      obtain ⟨d, rest, hd, hne⟩ := @escapeChar_starts special c
      rw [List.flatMap_nil, List.flatMap_cons, hd] at heq
      exact absurd (List.cons.inj heq).1 hne
    | cons c' s' =>
      simp only [List.flatMap_cons, List.append_assoc] at heq
      obtain ⟨rfl, htail⟩ := escapeChar_readable.reads trivial trivial heq
      rw [ih htail]

theorem strText_readable : Readable Anything (strText special) := by
  apply Readable.of_reads
  intro s s' r r' heq
  simp only [strText, List.cons_append, List.append_assoc, List.nil_append, List.cons.injEq,
    true_and] at heq
  exact escaped_inj heq

end Strings

/-! ### Reading compound texts back -/

section Compound

variable {f : α → Text} {K : Text → Prop} {r r' : Text}

theorem listText_readable (hf : Readable (Starts [',', ']']) f)
    (hstart : ∀ x, ∃ d ∈ (f x).head?, d ≠ ']') : Readable Anything (listText f) := by
  apply Readable.of_reads
  intro xs ys r r' heq
  simp only [listText, commaSep, List.cons_append, List.append_assoc, List.nil_append, List.cons.injEq,
    true_and] at heq
  exact (joined_list_inj hf (by decide) hstart heq).1

theorem tupleText_inj {name : String} {fs gs : List Text}
    (heq : tupleText name fs ++ r = tupleText name gs ++ r')
    (h : List.Forall₂ (Apart (Starts [',', ')'])) fs gs) : fs = gs := by
  simp only [tupleText, commaSep, List.append_assoc, List.append_cancel_left_eq, List.cons_append,
    List.nil_append, List.cons.injEq, true_and] at heq
  exact (joined_inj h heq).1

theorem structText_inj {name : String} {fs gs : List (String × Text)}
    (heq : structText name fs ++ r = structText name gs ++ r')
    (h : List.Forall₂ (fun f g => f.1 = g.1 ∧ Apart (Starts [',', ' ']) f.2 g.2) fs gs) : fs = gs := by
  have hparts : List.Forall₂ (Apart (Starts [',', ' ']))
      (fs.map (fun f => lit f.1 ++ ([':', ' '] ++ f.2)))
      (gs.map (fun g => lit g.1 ++ ([':', ' '] ++ g.2))) := by
    rw [List.forall₂_map_left_iff, List.forall₂_map_right_iff]
    apply h.imp
    rintro ⟨n, t⟩ ⟨n', u⟩ ⟨rfl, htu⟩ r r' hr hr' heq
    simp only [List.append_assoc, List.append_cancel_left_eq] at heq ⊢
    exact htu r r' hr hr' heq
  simp only [structText, commaSep, List.append_assoc, List.append_cancel_left_eq] at heq
  have hmap := (joined_inj hparts heq).1
  clear hparts heq
  induction h with
  | nil => rfl
  | @cons f g fs gs hfg _ ih =>
    obtain ⟨n, t⟩ := f
    obtain ⟨n', u⟩ := g
    obtain ⟨rfl, -⟩ := hfg
    simp only [List.map_cons, List.cons.injEq, List.append_cancel_left_eq] at hmap
    rw [hmap.1, ih hmap.2]

theorem optionText_readable (hf : Readable (Starts [',', ')']) f) :
    Readable Anything (optionText f) := by
  apply Readable.of_reads
  rintro (_ | x) (_ | y) r r' heq
  · rfl
  · simp [optionText, tupleText, lit] at heq
  · simp [optionText, tupleText, lit] at heq
  · have htexts := tupleText_inj heq (.cons (hf.apart x y) .nil)
    rw [hf.inj (List.cons.inj htexts).1]

end Compound

end RustFmt
