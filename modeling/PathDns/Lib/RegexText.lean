import Mathlib.Data.List.Forall2
import PathDns.Lib.Join

/-!
# Regular expressions of literal characters and labels

A fragment of the syntax of regular expressions: characters, with a backslash in front of those that have a
meaning of their own, and `[^.]+`, one or more characters other than a dot, between the anchors `^` and `$`.
Here is what such a text matches, and a matcher of its own that reads the text back.
-/

namespace RegexText

open Join

abbrev Text := List Char

/-- The characters with a meaning of their own. -/
def metaChars : List Char :=
  ['\\', '.', '+', '*', '?', '(', ')', '|', '[', ']', '{', '}', '^', '$', '#', '&', '-', '~']

inductive Atom where
  | char (c : Char)
  | label
deriving DecidableEq

/-- The text of an atom. -/
def Atom.text : Atom → Text
  | .char c => if c ∈ metaChars then ['\\', c] else [c]
  | .label => ['[', '^', '.', ']', '+']

/-- The text of a sequence of atoms. -/
def render (atoms : List Atom) : Text := atoms.flatMap Atom.text

/-- The text between anchors. -/
def anchored (atoms : List Atom) : Text := '^' :: (render atoms ++ ['$'])

/-- What a sequence of atoms matches as a whole. -/
def Matches : List Atom → Text → Prop
  | [], s => s = []
  | .char c :: atoms, s => ∃ rest, s = c :: rest ∧ Matches atoms rest
  | .label :: atoms, s => ∃ l rest, s = l ++ rest ∧ l ≠ [] ∧ '.' ∉ l ∧ Matches atoms rest

/-! ### Sequences -/

theorem matches_append (as bs : List Atom) (s : Text) :
    Matches (as ++ bs) s ↔ ∃ x y, s = x ++ y ∧ Matches as x ∧ Matches bs y := by
  induction as generalizing s with
  | nil => simp [Matches]
  | cons a as ih =>
    cases a with
    | char c =>
      simp only [List.cons_append, Matches, ih]
      constructor
      · rintro ⟨_, rfl, x, y, rfl, hx, hy⟩
        exact ⟨c :: x, y, rfl, ⟨x, rfl, hx⟩, hy⟩
      · rintro ⟨_, y, rfl, ⟨x, rfl, hx⟩, hy⟩
        exact ⟨x ++ y, rfl, x, y, rfl, hx, hy⟩
    | label =>
      simp only [List.cons_append, Matches, ih]
      constructor
      · rintro ⟨l, _, rfl, hl, hdot, x, y, rfl, hx, hy⟩
        exact ⟨l ++ x, y, by simp, ⟨l, x, rfl, hl, hdot, hx⟩, hy⟩
      · rintro ⟨_, y, rfl, ⟨l, x, rfl, hl, hdot, hx⟩, hy⟩
        exact ⟨l, x ++ y, by simp, hl, hdot, x, y, rfl, hx, hy⟩

theorem matches_literal (lit s : Text) : Matches (lit.map .char) s ↔ s = lit := by
  induction lit generalizing s with
  | nil => rfl
  | cons c lit ih =>
    simp only [List.map_cons, Matches, ih]
    simp

theorem matches_label (s : Text) : Matches [.label] s ↔ s ≠ [] ∧ '.' ∉ s := by
  simp only [Matches]
  constructor
  · rintro ⟨l, _, rfl, hl, hdot, rfl⟩
    simpa using ⟨hl, hdot⟩
  · rintro ⟨hs, hdot⟩
    exact ⟨s, [], by simp, hs, hdot, rfl⟩

theorem matches_intercalate {parts : List (List Atom)} (hne : parts ≠ [])
    (hparts : ∀ p ∈ parts, ∀ s, Matches p s → '.' ∉ s) (s : Text) :
    Matches ([.char '.'].intercalate parts) s ↔ List.Forall₂ Matches parts (s.splitOn '.') := by
  induction parts generalizing s with
  | nil => exact absurd rfl hne
  | cons p ps ih =>
    cases ps with
    | nil =>
      rw [List.intercalate_singleton]
      constructor
      · intro h
        rw [List.splitOn_eq_singleton (hparts p List.mem_cons_self s h)]
        exact .cons h .nil
      · intro h
        obtain ⟨x, xs, hx, hxs, hsplit⟩ := List.forall₂_cons_left_iff.mp h
        rw [List.forall₂_nil_left_iff] at hxs
        have hjoin : ['.'].intercalate (s.splitOn '.') = s := List.intercalate_splitOn '.'
        rw [hsplit, hxs, List.intercalate_singleton] at hjoin
        exact hjoin ▸ hx
    | cons q qs =>
      rw [List.intercalate_cons_cons, List.append_assoc, matches_append]
      have htail := ih (by simp) (fun r hr => hparts r (List.mem_cons_of_mem _ hr))
      constructor
      · rintro ⟨x, _, rfl, hx, y, rfl, hy⟩
        rw [List.splitOn_append_cons_self_of_not_mem (hparts p List.mem_cons_self x hx)]
        exact .cons hx ((htail y).mp hy)
      · intro h
        obtain ⟨x, xs, hx, hxs, hsplit⟩ := List.forall₂_cons_left_iff.mp h
        have hjoin : ['.'].intercalate (s.splitOn '.') = s := List.intercalate_splitOn '.'
        have hne' : xs ≠ [] := by
          rintro rfl
          cases hxs
        obtain ⟨y, ys, rfl⟩ := List.exists_cons_of_ne_nil hne'
        rw [hsplit, List.intercalate_cons_cons, List.append_assoc, List.singleton_append] at hjoin
        have hnodot : ∀ z ∈ y :: ys, '.' ∉ z := fun z hz =>
          not_mem_of_mem_splitOn (hsplit ▸ List.mem_cons_of_mem x hz)
        refine ⟨x, _, hjoin.symm, hx, _, rfl, (htail _).mpr ?_⟩
        rw [List.splitOn_intercalate '.' hnodot (by simp)]
        exact hxs

/-! ### Reading a text back -/

/-- The atoms of a text. -/
def parse : Text → Option (List Atom)
  | [] => some []
  | '\\' :: c :: rest => if c ∈ metaChars then (parse rest).map (.char c :: ·) else none
  | '[' :: '^' :: '.' :: ']' :: '+' :: rest => (parse rest).map (.label :: ·)
  | c :: rest => if c ∈ metaChars then none else (parse rest).map (.char c :: ·)

theorem parse_char {c : Char} (h : c ∉ metaChars) (rest : Text) :
    parse (c :: rest) = (parse rest).map (.char c :: ·) := by
  have hslash : c ≠ '\\' := fun heq => h (heq ▸ by decide)
  have hbracket : c ≠ '[' := fun heq => h (heq ▸ by decide)
  rw [parse.eq_def]
  split
  · next heq => simp at heq
  · next heq => exact absurd (List.cons.inj heq).1 hslash
  · next heq => exact absurd (List.cons.inj heq).1 hbracket
  · next heq =>
    obtain ⟨rfl, rfl⟩ := List.cons.inj heq
    rw [if_neg h]

theorem parse_render (atoms : List Atom) : parse (render atoms) = some atoms := by
  induction atoms with
  | nil => rfl
  | cons a atoms ih =>
    have hcons : render (a :: atoms) = a.text ++ render atoms := rfl
    rw [hcons]
    cases a with
    | label =>
      simp only [Atom.text, List.cons_append, List.nil_append, parse, ih, Option.map_some]
    | char c =>
      rw [Atom.text]
      split_ifs with hmeta
      · simp only [List.cons_append, List.nil_append, parse, if_pos hmeta, ih, Option.map_some]
      · rw [List.singleton_append, parse_char hmeta, ih, Option.map_some]

/-! ### A matcher -/

/-- Whether the atoms match the whole text; a label gives characters back as long as it can. -/
def isMatch : List Atom → Text → Bool
  | atoms, [] => atoms.isEmpty
  | [], _ :: _ => false
  | .char c :: atoms, d :: s => c == d && isMatch atoms s
  | .label :: atoms, d :: s => d != '.' && (isMatch atoms s || isMatch (.label :: atoms) s)

theorem matches_nil_text (atoms : List Atom) : Matches atoms [] ↔ atoms = [] := by
  cases atoms with
  | nil => simp [Matches]
  | cons a atoms =>
    cases a with
    | char c => simp [Matches]
    | label =>
      simp only [Matches, reduceCtorEq, iff_false]
      rintro ⟨l, rest, h, hl, -⟩
      exact hl (List.append_eq_nil_iff.mp h.symm).1

theorem matches_label_cons (atoms : List Atom) (d : Char) (s : Text) :
    Matches (.label :: atoms) (d :: s) ↔
      d ≠ '.' ∧ (Matches atoms s ∨ Matches (.label :: atoms) s) := by
  simp only [Matches]
  constructor
  · rintro ⟨l, rest, h, hl, hdot, hrest⟩
    obtain ⟨c, l, rfl⟩ := List.exists_cons_of_ne_nil hl
    obtain ⟨rfl, rfl⟩ := List.cons.inj h
    simp only [List.mem_cons, not_or] at hdot
    refine ⟨Ne.symm hdot.1, ?_⟩
    by_cases hend : l = []
    · exact .inl (by simpa [hend] using hrest)
    · exact .inr ⟨l, rest, rfl, hend, hdot.2, hrest⟩
  · rintro ⟨hd, hrest | ⟨l, rest, rfl, hl, hdot, hrest⟩⟩
    · exact ⟨[d], s, rfl, by simp, by simpa using Ne.symm hd, hrest⟩
    · exact ⟨d :: l, rest, rfl, by simp, by simpa using ⟨Ne.symm hd, hdot⟩, hrest⟩

theorem isMatch_iff (atoms : List Atom) (s : Text) : isMatch atoms s = true ↔ Matches atoms s := by
  induction s generalizing atoms with
  | nil =>
    rw [matches_nil_text]
    simp [isMatch]
  | cons d s ih =>
    cases atoms with
    | nil => simp [isMatch, Matches]
    | cons a atoms =>
      cases a with
      | char c =>
        rw [isMatch, Bool.and_eq_true, ih, beq_iff_eq, Matches]
        constructor
        · rintro ⟨rfl, h⟩
          exact ⟨s, rfl, h⟩
        · rintro ⟨rest, heq, h⟩
          obtain ⟨rfl, rfl⟩ := List.cons.inj heq
          exact ⟨rfl, h⟩
      | label =>
        rw [isMatch, Bool.and_eq_true, Bool.or_eq_true, ih, ih, matches_label_cons, bne_iff_ne]

/-- The matcher of an anchored text. -/
def compile (text : Text) : Option (Text → Bool) :=
  match text with
  | '^' :: rest => if rest.getLast? = some '$' then (parse rest.dropLast).map isMatch else none
  | _ => none

theorem compile_anchored (atoms : List Atom) : compile (anchored atoms) = some (isMatch atoms) := by
  simp [compile, anchored, parse_render]

end RegexText
