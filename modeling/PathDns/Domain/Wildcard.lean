import PathDns.Domain.Normalize
import PathDns.Lib.RegexText

/-!
# What inserted patterns match

A wildcard pattern goes through the text of a regular expression. With the regex crate taken at its word for
the texts that are generated here (`RegexCrate.Correct`), what it matches is said label by label, and the
two lookups of a `DomainMatcher` find a value exactly when some inserted pattern matches.
-/

namespace PathDns

open RegexText Join

/-! ### The regex crate -/

/-- `escape` puts a backslash in front of the characters with a meaning of their own, and an expression of
such literals and `[^.]+` between anchors matches what it says. -/
structure RegexCrate.Correct (rx : RegexCrate) : Prop where
  escape : ∀ s : Str, rx.escape s = render (s.map .char)
  compile : ∀ atoms re, rx.compile (anchored atoms) = some re →
    ∀ q, re q = true ↔ RegexText.Matches atoms q

/-- A crate that knows these expressions only. -/
def RegexCrate.reference : RegexCrate := ⟨RegexText.compile, fun s => render (s.map .char)⟩

theorem RegexCrate.correct_reference : RegexCrate.reference.Correct where
  escape _ := rfl
  compile atoms re h q := by
    have hre : some (isMatch atoms) = some re := (compile_anchored atoms).symm.trans h
    rw [← Option.some.inj hre]
    exact isMatch_iff atoms q

/-! ### Wildcard patterns -/

/-- A lone star faces a label that is not empty, any other segment is the label once in lower case. -/
def SegmentMatches (segment label : Str) : Prop :=
  (segment = ['*'] ∧ label ≠ []) ∨ Str.toAsciiLowercase segment = label

instance (segment label : Str) : Decidable (SegmentMatches segment label) :=
  inferInstanceAs (Decidable (_ ∨ _))

/-- As many segments as the name has labels, each matching its label. -/
def WildcardMatches (pattern qname : Str) : Prop :=
  List.Forall₂ SegmentMatches (pattern.splitOn '.') (qname.splitOn '.')

/-- The atoms of a segment. -/
def segmentAtoms (segment : Str) : List Atom :=
  if segment = ['*'] then [.label] else (Str.toAsciiLowercase segment).map .char

/-- The atoms of a wildcard pattern. -/
def wildcardAtoms (pattern : Str) : List Atom := [.char '.'].intercalate ((pattern.splitOn '.').map segmentAtoms)

variable {rx : RegexCrate}

theorem wildcardSource_eq (hrx : rx.Correct) (pattern : Str) :
    wildcardSource rx pattern = anchored (wildcardAtoms pattern) := by
  have hpart : ∀ p : Str, (if p = ['*'] then "[^.]+".toList else rx.escape (Str.toAsciiLowercase p)) =
      (segmentAtoms p).flatMap Atom.text := by
    intro p
    rw [segmentAtoms]
    split_ifs
    · rfl
    · exact hrx.escape _
  simp only [wildcardSource, hpart, anchored, render, wildcardAtoms, flatMap_intercalate, List.map_map]
  rfl

/-- The atoms of a segment match what the segment does, among texts without a dot. -/
theorem matches_segmentAtoms (segment label : Str) (hlabel : '.' ∉ label) :
    RegexText.Matches (segmentAtoms segment) label ↔ SegmentMatches segment label := by
  rw [segmentAtoms, SegmentMatches]
  split_ifs with hstar
  · rw [matches_label]
    constructor
    · exact fun h => .inl ⟨hstar, h.1⟩
    · rintro (⟨-, h⟩ | h)
      · exact ⟨h, hlabel⟩
      · refine ⟨?_, hlabel⟩
        rintro rfl
        simp [hstar, Str.toAsciiLowercase] at h
  · rw [matches_literal]
    simp [hstar, eq_comm]

theorem not_mem_of_matches_segmentAtoms {segment s : Str} (hsegment : '.' ∉ segment)
    (h : RegexText.Matches (segmentAtoms segment) s) : '.' ∉ s := by
  rw [segmentAtoms] at h
  split_ifs at h with hstar
  · exact ((matches_label s).mp h).2
  · rw [(matches_literal _ s).mp h]
    exact fun hdot => hsegment ((Str.mem_toAsciiLowercase (by decide) (by decide)).mp hdot)

theorem matches_wildcardAtoms (pattern q : Str) :
    RegexText.Matches (wildcardAtoms pattern) q ↔ WildcardMatches pattern q := by
  have hdots : ∀ p ∈ (pattern.splitOn '.').map segmentAtoms, ∀ s, RegexText.Matches p s → '.' ∉ s := by
    intro p hp s h
    obtain ⟨segment, hsegment, rfl⟩ := List.mem_map.mp hp
    exact not_mem_of_matches_segmentAtoms (not_mem_of_mem_splitOn hsegment) h
  rw [wildcardAtoms, matches_intercalate (by simp) hdots, List.forall₂_map_left_iff, WildcardMatches]
  exact forall₂_congr_right fun label hlabel segment =>
    matches_segmentAtoms segment label (not_mem_of_mem_splitOn hlabel)

variable {pattern : Str}

theorem wildcardDomainRegex_matches (hrx : rx.Correct) {re : Regex}
    (h : wildcardDomainRegex rx pattern = some re) (q : Str) : re q = true ↔ WildcardMatches pattern q := by
  rw [wildcardDomainRegex] at h
  split_ifs at h
  rw [wildcardSource_eq hrx] at h
  rw [hrx.compile _ re h q, matches_wildcardAtoms]

/-- A text that goes to the wildcard tier: no suffix pattern, with a star, and its expression compiles. -/
structure IsWildcard (rx : RegexCrate) (pattern : Str) : Prop where
  plus : ¬ ['+', '.'] <+: pattern
  dot : ¬ ['.'] <+: pattern
  star : '*' ∈ pattern
  compiles : (rx.compile (wildcardSource rx pattern)).isSome = true

theorem IsWildcard.exists_regex (h : IsWildcard rx pattern) :
    ∃ re, wildcardDomainRegex rx pattern = some re := by
  rw [wildcardDomainRegex, if_pos (by simpa using h.star)]
  exact Option.isSome_iff_exists.mp h.compiles

theorem classifyPattern_plus (rest : Str) :
    classifyPattern rx ('+' :: '.' :: rest) = (normalizeDomain rest).elim .invalid .suffix := rfl

theorem classifyPattern_dot (rest : Str) :
    classifyPattern rx ('.' :: rest) = (normalizeDomain rest).elim .invalid .suffix := rfl

theorem classifyPattern_other (hplus : ¬ ['+', '.'] <+: pattern) (hdot : ¬ ['.'] <+: pattern) :
    classifyPattern rx pattern =
      (wildcardDomainRegex rx pattern).elim ((normalizeDomain pattern).elim .invalid .full) .wildcard := by
  rw [classifyPattern]
  · cases wildcardDomainRegex rx pattern <;> rfl
  · rintro rest rfl
    exact hplus ⟨rest, rfl⟩
  · rintro rest rfl
    exact hdot ⟨rest, rfl⟩

theorem elim_ne_wildcard {name : Option Str} {make : Str → PatternKind} {re : Regex}
    (hmake : ∀ n, make n ≠ .wildcard re) : name.elim .invalid make ≠ .wildcard re := by
  cases name with
  | none => simp
  | some n => exact hmake n

/-- The classification, read as one condition for the wildcard tier. -/
theorem classifyPattern_eq_wildcard {re : Regex} :
    classifyPattern rx pattern = .wildcard re ↔
      IsWildcard rx pattern ∧ wildcardDomainRegex rx pattern = some re := by
  constructor
  · intro h
    have hplus : ¬ ['+', '.'] <+: pattern := by
      rintro ⟨rest, rfl⟩
      exact elim_ne_wildcard (fun n => by simp) (classifyPattern_plus rest ▸ h)
    have hdot : ¬ ['.'] <+: pattern := by
      rintro ⟨rest, rfl⟩
      exact elim_ne_wildcard (fun n => by simp) (classifyPattern_dot rest ▸ h)
    rw [classifyPattern_other hplus hdot] at h
    cases hre : wildcardDomainRegex rx pattern with
    | none =>
      rw [hre] at h
      exact absurd h (elim_ne_wildcard fun n => by simp)
    | some re' =>
      rw [hre, Option.elim_some, PatternKind.wildcard.injEq] at h
      subst h
      rw [wildcardDomainRegex] at hre
      split_ifs at hre with hstar
      exact ⟨⟨hplus, hdot, by simpa using hstar, by rw [hre]; rfl⟩, rfl⟩
  · rintro ⟨h, hre⟩
    rw [classifyPattern_other h.plus h.dot, hre, Option.elim_some]

/-! ### Insertions -/

/-- A name or a pattern that is inserted with a value. -/
inductive Insertion (V : Type) where
  | full (name : Str) (value : V)
  | suffix (name : Str) (value : V)
  | pattern (text : Str) (value : V)

namespace Insertion

variable {V : Type}

/-- The tier it belongs to. -/
def kind (rx : RegexCrate) : Insertion V → PatternKind
  | .full name _ => .full name
  | .suffix name _ => .suffix name
  | .pattern text _ => classifyPattern rx text

def value : Insertion V → V
  | .full _ v => v
  | .suffix _ v => v
  | .pattern _ v => v

end Insertion

namespace DomainMatcher

variable {V : Type}

/-- All insertions in their order. -/
def insertAll (rx : RegexCrate) (insertions : List (Insertion V)) : DomainMatcher V :=
  insertions.foldl (fun m i => m.insertAs (i.kind rx) i.value) empty

theorem lookupSpecific_insertAs (m : DomainMatcher V) (kind : PatternKind) (value : V) (q : Str) :
    ((m.insertAs kind value).lookupSpecific q).isSome = true ↔
      (m.lookupSpecific q).isSome = true ∨ kind = .full q ∨ ∃ s, kind = .suffix s ∧ InDomain s q := by
  rw [lookupSpecific_isSome, lookupSpecific_isSome]
  cases kind with
  | suffix name =>
    simp only [insertAs, insertSuffix, AList.mem_insert, or_and_right, exists_or, exists_eq_left,
      reduceCtorEq, false_or, PatternKind.suffix.injEq, exists_eq_left']
    rw [or_comm (a := InDomain name q), or_assoc]
  | full name =>
    simp only [insertAs, insertFull, AList.mem_insert, PatternKind.full.injEq, reduceCtorEq, false_and,
      exists_false, or_false]
    rw [eq_comm, or_assoc, or_comm]
  | wildcard re => simp [insertAs, insertRegex]
  | invalid => simp [insertAs]

theorem lookupFuzzy_insertAs (m : DomainMatcher V) (kind : PatternKind) (value : V) (q : Str) :
    ((m.insertAs kind value).lookupFuzzy q).isSome = true ↔
      (m.lookupFuzzy q).isSome = true ∨ ∃ re, kind = .wildcard re ∧ re q = true := by
  rw [lookupFuzzy_isSome, lookupFuzzy_isSome]
  cases kind with
  | suffix name => simp [insertAs, insertSuffix]
  | full name => simp [insertAs, insertFull]
  | wildcard re => simp [insertAs, insertRegex, or_and_right, exists_or]
  | invalid => simp [insertAs]

theorem hits_insertAs (m : DomainMatcher V) (kind : PatternKind) (value : V) (q : Str) :
    (m.insertAs kind value).hits q = true ↔ m.hits q = true ∨ kind.Matches q := by
  have hkind : (kind = .full q ∨ ∃ s, kind = .suffix s ∧ InDomain s q) ∨
      (∃ re, kind = .wildcard re ∧ re q = true) ↔ kind.Matches q := by
    cases kind with
    | full name => simp [PatternKind.Matches, @eq_comm _ q]
    | suffix name => simp [PatternKind.Matches]
    | wildcard re => simp [PatternKind.Matches]
    | invalid => simp [PatternKind.Matches]
  rw [hits, Bool.or_eq_true, lookupSpecific_insertAs, lookupFuzzy_insertAs, or_or_or_comm, hkind, hits,
    Bool.or_eq_true]

theorem lookupSpecific_empty (q : Str) : ¬ ((empty : DomainMatcher V).lookupSpecific q).isSome = true := by
  simp [lookupSpecific_isSome, empty]

theorem lookupFuzzy_empty (q : Str) : ¬ ((empty : DomainMatcher V).lookupFuzzy q).isSome = true := by
  simp [lookupFuzzy_isSome, empty]

theorem insertAll_iff {P : DomainMatcher V → Prop} {Q : PatternKind → Prop}
    (hstep : ∀ m kind value, P (m.insertAs kind value) ↔ P m ∨ Q kind) (hempty : ¬ P empty)
    (insertions : List (Insertion V)) :
    P (insertAll rx insertions) ↔ ∃ i ∈ insertions, Q (i.kind rx) := by
  have hfold : ∀ m : DomainMatcher V,
      P (insertions.foldl (fun m i => m.insertAs (i.kind rx) i.value) m) ↔
        P m ∨ ∃ i ∈ insertions, Q (i.kind rx) := by
    induction insertions with
    | nil => simp
    | cons i is ih =>
      intro m
      rw [List.foldl_cons, ih, hstep, or_assoc]
      simp
  rw [insertAll, hfold]
  simp [hempty]

theorem lookupSpecific_insertAll (insertions : List (Insertion V)) (q : Str) :
    ((insertAll rx insertions).lookupSpecific q).isSome = true ↔ ∃ i ∈ insertions,
      i.kind rx = .full q ∨ ∃ s, i.kind rx = .suffix s ∧ InDomain s q :=
  insertAll_iff (P := fun m => (m.lookupSpecific q).isSome = true)
    (fun m kind value => lookupSpecific_insertAs m kind value q) (lookupSpecific_empty q) insertions

theorem lookupFuzzy_insertAll (insertions : List (Insertion V)) (q : Str) :
    ((insertAll rx insertions).lookupFuzzy q).isSome = true ↔ ∃ i ∈ insertions,
      ∃ re, i.kind rx = .wildcard re ∧ re q = true :=
  insertAll_iff (P := fun m => (m.lookupFuzzy q).isSome = true)
    (fun m kind value => lookupFuzzy_insertAs m kind value q) (lookupFuzzy_empty q) insertions

theorem Insertion.kind_matches_iff (hrx : rx.Correct) (i : Insertion V) (q : Str) :
    (∃ re, i.kind rx = .wildcard re ∧ re q = true) ↔
      ∃ text value, i = .pattern text value ∧ IsWildcard rx text ∧ WildcardMatches text q := by
  constructor
  · rintro ⟨re, hkind, hmatch⟩
    cases i with
    | full name value => simp [Insertion.kind] at hkind
    | suffix name value => simp [Insertion.kind] at hkind
    | pattern text value =>
      obtain ⟨hwildcard, hre⟩ := classifyPattern_eq_wildcard.mp hkind
      exact ⟨text, value, rfl, hwildcard, (wildcardDomainRegex_matches hrx hre q).mp hmatch⟩
  · rintro ⟨text, value, rfl, hwildcard, hmatch⟩
    obtain ⟨re, hre⟩ := hwildcard.exists_regex
    exact ⟨re, classifyPattern_eq_wildcard.mpr ⟨hwildcard, hre⟩,
      (wildcardDomainRegex_matches hrx hre q).mpr hmatch⟩

/-- After any insertions: the first lookup finds a value exactly when a full name is the name, or a suffix is
the name or follows a dot in it; the second exactly when a wildcard pattern matches label by label. -/
theorem lookups_exact (hrx : rx.Correct) (insertions : List (Insertion V)) (q : Str) :
    (((insertAll rx insertions).lookupSpecific q).isSome = true ↔ ∃ i ∈ insertions,
      i.kind rx = .full q ∨ ∃ s, i.kind rx = .suffix s ∧ (q = s ∨ ∃ sub, q = sub ++ '.' :: s)) ∧
    (((insertAll rx insertions).lookupFuzzy q).isSome = true ↔ ∃ text value,
      .pattern text value ∈ insertions ∧ IsWildcard rx text ∧ WildcardMatches text q) := by
  refine ⟨lookupSpecific_insertAll insertions q, ?_⟩
  simp only [lookupFuzzy_insertAll, Insertion.kind_matches_iff hrx]
  constructor
  · rintro ⟨i, hi, text, value, rfl, h⟩
    exact ⟨text, value, hi, h⟩
  · rintro ⟨text, value, hi, h⟩
    exact ⟨_, hi, text, value, rfl, h⟩

/-- A suffix, a wildcard and a name. -/
def sampleInsertions : List (Insertion Nat) :=
  [.pattern "+.Example.org".toList 0, .pattern "*.b.C".toList 1, .full "host".toList 2]

theorem lookups_exact_sample :
    ((insertAll .reference sampleInsertions).lookupFuzzy "a.b.c".toList).isSome = true ∧
      ((insertAll .reference sampleInsertions).lookupSpecific "www.example.org".toList).isSome = true := by
  constructor
  · refine (lookups_exact RegexCrate.correct_reference sampleInsertions _).2.mpr
      ⟨"*.b.C".toList, 1, by simp [sampleInsertions], ⟨by decide, by decide, by decide, by decide +kernel⟩, ?_⟩
    rw [WildcardMatches]
    decide +kernel
  · exact (lookups_exact RegexCrate.correct_reference sampleInsertions _).1.mpr
      ⟨.pattern "+.Example.org".toList 0, by simp [sampleInsertions],
        .inr ⟨"example.org".toList, rfl, .inr ⟨"www".toList, rfl⟩⟩⟩

end DomainMatcher

/-! ### The patterns of a ruleset -/

/-- `apply_domain_pattern`, with what it returns. -/
def applyDomainPattern (rx : RegexCrate) (matchers : DomainMatcher Unit) (pattern : Str) :
    DomainMatcher Unit × Bool :=
  match classifyPattern rx pattern with
  | .suffix n => (matchers.insertSuffix n (), true)
  | .full n => (matchers.insertFull n (), true)
  | .wildcard re => (matchers.insertRegex re (), true)
  | .invalid => (matchers, false)

theorem applyDomainPattern_fst (matchers : DomainMatcher Unit) (pattern : Str) :
    (applyDomainPattern rx matchers pattern).1 = matchers.insertAs (classifyPattern rx pattern) () := by
  rw [applyDomainPattern]
  cases classifyPattern rx pattern <;> rfl

theorem applyDomainPattern_snd (matchers : DomainMatcher Unit) (pattern : Str) :
    (applyDomainPattern rx matchers pattern).2 = true ↔ classifyPattern rx pattern ≠ .invalid := by
  rw [applyDomainPattern]
  cases classifyPattern rx pattern <;> simp

end PathDns
