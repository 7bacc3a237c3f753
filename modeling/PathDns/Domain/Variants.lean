import PathDns.Domain.Wildcard
import PathDns.Lib.RustParse
import PathDns.Routing.FirstMatch

/-!
# Spellings of a pattern text

A pattern text reaches `classify_pattern` from a rule, from a line of a text ruleset or from an `.mrs` file.
Another letter case never changes what it matches once it is read as a pattern. A final dot does for a
wildcard, which keeps the dot as an empty label, and for the few texts where the dot ends up behind
whitespace or makes `+` a suffix.
-/

namespace PathDns

open RustParse Join

/-! ### Classification of another spelling -/

variable {rx : RegexCrate}

/-- A suffix pattern, with the name it is for. -/
def SuffixText (pattern name : Str) : Prop := pattern = '+' :: '.' :: name ∨ pattern = '.' :: name

variable {pattern name : Str}

theorem SuffixText.classify (h : SuffixText pattern name) :
    classifyPattern rx pattern = (normalizeDomain name).elim .invalid .suffix := by
  obtain rfl | rfl := h
  · exact classifyPattern_plus name
  · exact classifyPattern_dot name

theorem SuffixText.append (h : SuffixText pattern name) (back : Str) :
    SuffixText (pattern ++ back) (name ++ back) := by
  obtain rfl | rfl := h
  · exact .inl rfl
  · exact .inr rfl

theorem SuffixText.toAsciiLowercase (h : SuffixText pattern name) :
    SuffixText (Str.toAsciiLowercase pattern) (Str.toAsciiLowercase name) := by
  obtain rfl | rfl := h
  · exact .inl rfl
  · exact .inr rfl

theorem SuffixText.endsInSpace_eq (h : SuffixText pattern name) : endsInSpace pattern = endsInSpace name := by
  by_cases hnil : name = []
  · subst hnil
    obtain rfl | rfl := h <;> rfl
  · obtain rfl | rfl := h
    · exact endsInSpace_append ['+', '.'] hnil
    · exact endsInSpace_append ['.'] hnil

/-- Neither form of a suffix pattern. -/
def NoSuffix (pattern : Str) : Prop := ¬ ['+', '.'] <+: pattern ∧ ¬ ['.'] <+: pattern

theorem suffixText_or (pattern : Str) : (∃ name, SuffixText pattern name) ∨ NoSuffix pattern := by
  by_cases hplus : ['+', '.'] <+: pattern
  · obtain ⟨name, rfl⟩ := hplus
    exact .inl ⟨name, .inl rfl⟩
  · by_cases hdot : ['.'] <+: pattern
    · obtain ⟨name, rfl⟩ := hdot
      exact .inl ⟨name, .inr rfl⟩
    · exact .inr ⟨hplus, hdot⟩

theorem prefix_toAsciiLowercase {front s : Str} (hfront : front.all (fun c => c.toNat < 97) = true)
    (h : front <+: Str.toAsciiLowercase s) : front <+: s := by
  induction front generalizing s with
  | nil => simp
  | cons c cs ih =>
    rw [List.all_cons, Bool.and_eq_true, decide_eq_true_eq] at hfront
    cases s with
    | nil => simp [Str.toAsciiLowercase] at h
    | cons d ds =>
      rw [Str.toAsciiLowercase, List.map_cons, List.cons_prefix_cons] at h
      rw [List.cons_prefix_cons]
      exact ⟨(eq_of_toLower_eq (.inl hfront.1) h.1.symm).symm, ih hfront.2 h.2⟩

theorem NoSuffix.toAsciiLowercase (h : NoSuffix pattern) : NoSuffix (Str.toAsciiLowercase pattern) :=
  ⟨fun hplus => h.1 (prefix_toAsciiLowercase (by decide) hplus),
    fun hdot => h.2 (prefix_toAsciiLowercase (by decide) hdot)⟩

theorem wildcardDomainRegex_toAsciiLowercase (pattern : Str) :
    wildcardDomainRegex rx (Str.toAsciiLowercase pattern) = wildcardDomainRegex rx pattern := by
  have hstar : '*' ∈ Str.toAsciiLowercase pattern ↔ '*' ∈ pattern :=
    Str.mem_toAsciiLowercase (by decide) (by decide)
  have hlone : ∀ part : Str, Str.toAsciiLowercase part = ['*'] ↔ part = ['*'] := by
    intro part
    rw [Str.toAsciiLowercase, List.map_eq_singleton_iff]
    simp [toLower_eq_iff (d := '*') (by decide) (by decide)]
  have hsource : wildcardSource rx (Str.toAsciiLowercase pattern) = wildcardSource rx pattern := by
    rw [wildcardSource, wildcardSource, Str.splitOn_toAsciiLowercase]
    simp only [List.map_map, Function.comp_def, hlone, Str.toAsciiLowercase_idem]
  simp only [wildcardDomainRegex, List.contains_iff_mem, hstar, hsource]

theorem classifyPattern_toAsciiLowercase (pattern : Str) :
    classifyPattern rx (Str.toAsciiLowercase pattern) = classifyPattern rx pattern := by
  have hname : ∀ s, normalizeDomain (Str.toAsciiLowercase s) = normalizeDomain s :=
    fun s => normalizeDomain_congr (bareName_toAsciiLowercase s)
  obtain ⟨name, hsuffix⟩ | hno := suffixText_or pattern
  · rw [hsuffix.classify, hsuffix.toAsciiLowercase.classify, hname]
  · rw [classifyPattern_other hno.1 hno.2,
      classifyPattern_other hno.toAsciiLowercase.1 hno.toAsciiLowercase.2,
      wildcardDomainRegex_toAsciiLowercase, hname]

/-! ### Classification with a dot behind -/

variable {w : Str}

theorem NoSuffix.append_space (h : NoSuffix pattern) (hw : ∀ c ∈ w, isWhitespace c = true) :
    NoSuffix (pattern ++ w) :=
  ⟨fun hplus => h.1 (front_of_front_append (not_mem_of_whitespace hw (by decide)) hplus),
    fun hdot => h.2 (front_of_front_append (not_mem_of_whitespace hw (by decide)) hdot)⟩

theorem NoSuffix.append_dot (h : NoSuffix pattern) (hne : pattern ≠ []) (hplus : pattern ≠ ['+']) :
    NoSuffix (pattern ++ ['.']) := by
  match pattern, hne, hplus, h with
  | [c], _, hplus, h =>
    refine ⟨fun hpre => hplus ?_, fun hdot => h.2 (by simpa using hdot)⟩
    simpa [eq_comm] using hpre
  | c :: d :: rest, _, _, h =>
    refine ⟨fun hpre => h.1 ?_, fun hdot => h.2 (by simpa using hdot)⟩
    simpa using hpre

theorem wildcardDomainRegex_eq_none (hno : NoSuffix pattern) (h : ¬ IsWildcard rx pattern) :
    wildcardDomainRegex rx pattern = none := by
  cases hre : wildcardDomainRegex rx pattern with
  | none => rfl
  | some re =>
    have hkind : classifyPattern rx pattern = .wildcard re := by
      rw [classifyPattern_other hno.1 hno.2, hre, Option.elim_some]
    exact absurd (classifyPattern_eq_wildcard.mp hkind).1 h

theorem classifyPattern_full (hno : NoSuffix pattern) (h : ¬ IsWildcard rx pattern) :
    classifyPattern rx pattern = (normalizeDomain pattern).elim .invalid .full := by
  rw [classifyPattern_other hno.1 hno.2, wildcardDomainRegex_eq_none hno h, Option.elim_none]

theorem classifyPattern_append_dot (hne : pattern ≠ []) (hplus : pattern ≠ ['+'])
    (hspace : endsInSpace pattern = false) (h : ¬ IsWildcard rx pattern)
    (h' : ¬ IsWildcard rx (pattern ++ ['.'])) :
    classifyPattern rx (pattern ++ ['.']) = classifyPattern rx pattern := by
  obtain ⟨name, hsuffix⟩ | hno := suffixText_or pattern
  · rw [hsuffix.classify, (hsuffix.append ['.']).classify, 
      normalizeDomain_dot (hsuffix.endsInSpace_eq ▸ hspace)]
  · rw [classifyPattern_full hno h, classifyPattern_full (hno.append_dot hne hplus) h',
      normalizeDomain_dot hspace]

/-! ### Texts that a dot tells apart -/

/-- The expressions of short patterns are within the size limit of the crate. -/
def RegexCrate.CompilesShort (rx : RegexCrate) : Prop :=
  ∀ pattern : Str, Str.byteLen pattern ≤ 254 → (rx.compile (wildcardSource rx pattern)).isSome = true

theorem RegexCrate.compilesShort_reference : RegexCrate.reference.CompilesShort := by
  intro pattern _
  rw [wildcardSource_eq RegexCrate.correct_reference]
  exact Option.isSome_iff_exists.mpr ⟨_, RegexText.compile_anchored _⟩

theorem wildcardMatches_self (pattern : Str) : WildcardMatches pattern (Str.toAsciiLowercase pattern) := by
  rw [WildcardMatches, Str.splitOn_toAsciiLowercase, List.forall₂_map_right_iff]
  exact List.forall₂_same.mpr fun segment _ => .inr rfl

theorem matches_wildcard (hrx : rx.Correct) (h : IsWildcard rx pattern) (q : Str) :
    (classifyPattern rx pattern).Matches q ↔ WildcardMatches pattern q := by
  obtain ⟨re, hre⟩ := h.exists_regex
  rw [classifyPattern_eq_wildcard.mpr ⟨h, hre⟩]
  exact wildcardDomainRegex_matches hrx hre q

theorem not_wildcardMatches_of_count {q : Str} (h : pattern.count '.' ≠ q.count '.') :
    ¬ WildcardMatches pattern q := by
  intro hmatch
  have hlen := hmatch.length_eq
  rw [length_splitOn, length_splitOn] at hlen
  omega

/-- The final dot asks for an empty label, which no normalized name has. -/
theorem not_wildcardMatches_normalized {s n : Str} (hn : normalizeDomain s = some n) :
    ¬ WildcardMatches (pattern ++ ['.']) n := by
  intro hmatch
  obtain ⟨-, -, -, hlabels⟩ := normalizeDomain_eq_some.mp hn
  rw [WildcardMatches, List.splitOn_append_cons_self, List.splitOn_nil] at hmatch
  have hflip := List.Forall₂.flip (R := flip SegmentMatches) hmatch
  have hlast := List.forall₂_drop_append _ _ _ hflip
  obtain ⟨label, rest, hsegment, -, heq⟩ := List.forall₂_cons_right_iff.mp hlast
  have hmem : label ∈ n.splitOn '.' := List.mem_of_mem_drop (heq ▸ List.mem_cons_self)
  obtain ⟨hstar, -⟩ | hnil := hsegment
  · simp at hstar
  · exact (hlabels label hmem).1 hnil.symm

/-- A wildcard does not match its own spelling any more. -/
theorem wildcard_dot_apart (hrx : rx.Correct) (hshort : rx.CompilesShort) (h : IsWildcard rx pattern)
    (hw : ∀ c ∈ w, isWhitespace c = true) (hfront : w = [] ∨ pattern.dropWhile isWhitespace = pattern) :
    ¬ (classifyPattern rx (pattern ++ w ++ ['.'])).Matches (Str.toAsciiLowercase pattern) := by
  have hne : pattern ≠ [] := List.ne_nil_of_mem h.star
  have hplus : pattern ++ w ≠ ['+'] := by
    intro heq
    have := List.mem_append_left w h.star
    rw [heq] at this
    simp at this
  have hno : NoSuffix (pattern ++ w ++ ['.']) :=
    (NoSuffix.append_space ⟨h.plus, h.dot⟩ hw).append_dot (by simp [hne]) hplus
  by_cases hwild : IsWildcard rx (pattern ++ w ++ ['.'])
  · rw [matches_wildcard hrx hwild]
    have hcount : (Str.toAsciiLowercase pattern).count '.' = pattern.count '.' := by
      have := congrArg List.length (Str.splitOn_toAsciiLowercase pattern)
      rw [List.length_map, length_splitOn, length_splitOn] at this
      omega
    apply not_wildcardMatches_of_count
    rw [hcount, List.count_append, List.count_append, List.count_singleton_self]
    omega
  · rw [classifyPattern_full hno hwild]
    cases hn : normalizeDomain (pattern ++ w ++ ['.']) with
    | none => exact id
    | some n =>
      intro heq
      -- The name would be the pattern itself, which is short enough for its expression to compile.
      replace heq : Str.toAsciiLowercase pattern = n := heq
      obtain ⟨hbare, -, hsize, -⟩ := normalizeDomain_eq_some.mp hn
      rw [← heq, Str.byteLen_toAsciiLowercase] at hsize
      have hnil : w = [] := by
        by_contra hw0
        have hdrop : (pattern ++ w).dropWhile isWhitespace = pattern ++ w := by
          rw [List.dropWhile_append, hfront.resolve_left hw0, if_neg (by simp [hne])]
        have hspace : endsInSpace (pattern ++ w) = true := by
          rw [endsInSpace_append _ hw0, endsInSpace_of_forall hw0 hw]
        rw [bareName_dot, hdrop, trimEndMatches_dot_of_endsInSpace hspace, ← heq] at hbare
        have hlen := congrArg List.length hbare
        rw [Str.toAsciiLowercase, Str.toAsciiLowercase, List.length_map, List.length_map,
          List.length_append] at hlen
        exact hw0 (List.length_eq_zero_iff.mp (by omega))
      subst hnil
      refine hwild ⟨hno.1, hno.2, by simp [h.star], hshort _ ?_⟩
      rw [List.append_nil, Str.byteLen, List.map_append, List.sum_append]
      exact Nat.add_le_add_right hsize 1

theorem normalizeDomain_append_space {s : Str} (hw : ∀ c ∈ w, isWhitespace c = true) :
    normalizeDomain (s ++ w) = normalizeDomain s :=
  normalizeDomain_congr (by rw [bareName, bareName, Str.trim_append_back hw])

theorem exists_of_elim_ne_invalid {name : Option Str} {make : Str → PatternKind}
    (h : name.elim .invalid make ≠ .invalid) : ∃ n, name = some n :=
  match name, h with
  | some n, _ => ⟨n, rfl⟩

/-- Where the dot comes behind whitespace, the name that was matched is matched no more. -/
theorem space_dot_apart (hrx : rx.Correct) (hshort : rx.CompilesShort)
    (h : classifyPattern rx pattern ≠ .invalid) (hw : ∀ c ∈ w, isWhitespace c = true)
    (hfront : w = [] ∨ pattern.dropWhile isWhitespace = pattern) (hspace : endsInSpace (pattern ++ w) = true) :
    ∃ q, (classifyPattern rx pattern).Matches q ∧
      ¬ (classifyPattern rx (pattern ++ w ++ ['.'])).Matches q := by
  by_cases hwild : IsWildcard rx pattern
  · exact ⟨_, (matches_wildcard hrx hwild _).mpr (wildcardMatches_self pattern),
      wildcard_dot_apart hrx hshort hwild hw hfront⟩
  obtain ⟨name, hsuffix⟩ | hno := suffixText_or pattern
  · obtain ⟨n, hn⟩ := exists_of_elim_ne_invalid (hsuffix.classify ▸ h)
    refine ⟨n, by rw [hsuffix.classify, hn]; exact .inl rfl, ?_⟩
    rw [((hsuffix.append w).append ['.']).classify]
    cases hn' : normalizeDomain (name ++ w ++ ['.']) with
    | none => exact id
    | some n' =>
      have hlt := length_normalizeDomain_dot ((hsuffix.append w).endsInSpace_eq ▸ hspace)
        ((normalizeDomain_append_space hw).trans hn) hn'
      rintro (rfl | ⟨sub, rfl⟩)
      · exact lt_irrefl _ hlt
      · rw [List.length_append, List.length_cons] at hlt
        omega
  · obtain ⟨n, hn⟩ := exists_of_elim_ne_invalid (classifyPattern_full hno hwild ▸ h)
    refine ⟨n, by rw [classifyPattern_full hno hwild, hn]; rfl, ?_⟩
    have hplus : pattern ++ w ≠ ['+'] := by
      intro heq
      rw [heq] at hspace
      exact absurd hspace (by decide)
    have hne : pattern ++ w ≠ [] := by
      intro heq
      rw [heq] at hspace
      exact absurd hspace (by decide)
    by_cases hwild' : IsWildcard rx (pattern ++ w ++ ['.'])
    · rw [matches_wildcard hrx hwild']
      exact not_wildcardMatches_normalized hn
    · rw [classifyPattern_full ((hno.append_space hw).append_dot hne hplus) hwild']
      cases hn' : normalizeDomain (pattern ++ w ++ ['.']) with
      | none => exact id
      | some n' =>
        have hlt := length_normalizeDomain_dot hspace ((normalizeDomain_append_space hw).trans hn) hn'
        rintro rfl
        exact lt_irrefl _ hlt

/-- A text that only the dot sends to the wildcard tier. -/
theorem dot_wildcard_apart (hrx : rx.Correct) (h : classifyPattern rx pattern ≠ .invalid)
    (hwild : ¬ IsWildcard rx pattern) (hwild' : IsWildcard rx (pattern ++ ['.'])) :
    ∃ q, (classifyPattern rx pattern).Matches q ∧ ¬ (classifyPattern rx (pattern ++ ['.'])).Matches q := by
  have hno : NoSuffix pattern :=
    ⟨fun hplus => hwild'.plus (hplus.trans (List.prefix_append _ _)),
      fun hdot => hwild'.dot (hdot.trans (List.prefix_append _ _))⟩
  obtain ⟨n, hn⟩ := exists_of_elim_ne_invalid (classifyPattern_full hno hwild ▸ h)
  refine ⟨n, by rw [classifyPattern_full hno hwild, hn]; rfl, ?_⟩
  rw [matches_wildcard hrx hwild']
  exact not_wildcardMatches_normalized hn

theorem exists_matches (hrx : rx.Correct) (h : classifyPattern rx pattern ≠ .invalid) :
    ∃ q, (classifyPattern rx pattern).Matches q := by
  cases hkind : classifyPattern rx pattern with
  | suffix n => exact ⟨n, .inl rfl⟩
  | full n => exact ⟨n, rfl⟩
  | wildcard re =>
    have hmatch := (matches_wildcard hrx (classifyPattern_eq_wildcard.mp hkind).1 _).mpr
      (wildcardMatches_self pattern)
    exact ⟨_, hkind ▸ hmatch⟩
  | invalid => exact absurd hkind h

/-! ### Where pattern texts come from -/

def splitCsv (s : Str) : List Str := ((s.splitOn ',').map Str.trim).filter (· ≠ [])

def isInvalidRulesetTag (value : Str) : Bool :=
  List.contains value ':' || List.contains value '/' || List.contains value '\\'

/-- The tags of a `tag:` entry, those it includes and those it excludes. -/
abbrev TagLists := List Str × List Str

/-- One token of a `tag:` entry; `toLowercase` is `str::to_lowercase`. -/
def addTagToken (toLowercase : Str → Str) (tags : TagLists) (token : Str) : Except String TagLists :=
  let shown := String.ofList token
  match stripPrefix ['!'] token with
  | some name =>
    let name := Str.trim name
    if name.isEmpty || isInvalidRulesetTag name then .error s!"rule matcher: invalid tag exclusion '{shown}'"
    else .ok (tags.1, tags.2 ++ [toLowercase name])
  | none =>
    if isInvalidRulesetTag token then .error s!"rule matcher: invalid tag '{shown}'"
    else .ok (tags.1 ++ [toLowercase token], tags.2)

def parseRuleMatcherEntry (rx : RegexCrate) (toLowercase : Str → Str) (value : Str) :
    Except String RuleMatcher :=
  let value := Str.trim value
  match stripPrefix "tag:".toList value with
  | some rest => do
    let (includes, excludes) ← (splitCsv rest).foldlM (addTagToken toLowercase) ([], [])
    if includes.isEmpty && excludes.isEmpty then
      let shown := String.ofList rest
      .error s!"rule matcher \"tag:{shown}\": expected at least one TAG or !TAG"
    else .ok (.tag includes excludes)
  | none =>
    match classifyPattern rx value with
    | .invalid =>
      let shown := String.ofList value
      .error s!"invalid rule matcher domain pattern '{shown}'"
    | _ => .ok (.domain value)

/-- What `parse_text_lines` keeps of one line. -/
def textLinePattern (line : Str) : Option Str :=
  let line := Str.trim line
  if line.isEmpty || ['#'].isPrefixOf line || "//".toList.isPrefixOf line then none else some line

/-- The places a pattern text is accepted in. -/
inductive PatternSource where
  | rule
  | textRuleset
  | mrsRuleset
  deriving DecidableEq, Repr

namespace PatternSource

/-- The pattern a text is accepted as. -/
def accept (rx : RegexCrate) (toLowercase : Str → Str) (src : PatternSource) (text : Str) : Option Str :=
  match src with
  | .rule =>
    match parseRuleMatcherEntry rx toLowercase text with
    | .ok (.domain pattern) => some pattern
    | _ => none
  | .textRuleset => (textLinePattern text).filter (fun pattern => (applyDomainPattern rx .empty pattern).2)
  | .mrsRuleset => (some text).filter (fun pattern => (applyDomainPattern rx .empty pattern).2)

/-- The matcher that the text alone builds: empty where it is not accepted as a pattern. -/
def matcher (rx : RegexCrate) (toLowercase : Str → Str) (src : PatternSource) (text : Str) :
    DomainMatcher Unit :=
  match src.accept rx toLowercase text with
  | none => .empty
  | some pattern =>
    match src with
    | .rule => DomainMatcher.insertAs .empty (classifyPattern rx pattern) ()
    | _ => (applyDomainPattern rx .empty pattern).1

/-- The text that is classified; none where it is not read as a pattern. -/
def read (src : PatternSource) (text : Str) : Option Str :=
  match src with
  | .rule => if "tag:".toList.isPrefixOf (Str.trim text) then none else some (Str.trim text)
  | .textRuleset => textLinePattern text
  | .mrsRuleset => some text

variable {toLowercase : Str → Str} {src : PatternSource} {text pattern : Str}

theorem filter_applied (o : Option Str) :
    o.filter (fun pattern => (applyDomainPattern rx .empty pattern).2) = some pattern ↔
      o = some pattern ∧ classifyPattern rx pattern ≠ .invalid := by
  rw [Option.filter_eq_some_iff, applyDomainPattern_snd]

theorem accept_eq_some : src.accept rx toLowercase text = some pattern ↔
    src.read text = some pattern ∧ classifyPattern rx pattern ≠ .invalid := by
  cases src with
  | textRuleset => exact filter_applied _
  | mrsRuleset => exact filter_applied (some text)
  | rule =>
    by_cases htag : "tag:".toList <+: Str.trim text
    · obtain ⟨rest, hrest⟩ := htag
      have hstrip := stripPrefix_eq_some.mpr hrest.symm
      have hread : PatternSource.rule.read text = none := by
        rw [read, if_pos (List.isPrefixOf_iff_prefix.mpr ⟨rest, hrest⟩)]
      rw [hread]
      simp only [accept, parseRuleMatcherEntry, hstrip, reduceCtorEq, false_and, iff_false]
      cases (splitCsv rest).foldlM (addTagToken toLowercase) ([], []) with
      | error e => simp [bind, Except.bind]
      | ok tags =>
        simp only [bind, Except.bind]
        split_ifs <;> simp
    · have hstrip : stripPrefix "tag:".toList (Str.trim text) = none := by
        rw [stripPrefix, if_neg fun h => htag (List.isPrefixOf_iff_prefix.mp h)]
      have hread : PatternSource.rule.read text = some (Str.trim text) := by
        rw [read, if_neg fun h => htag (List.isPrefixOf_iff_prefix.mp h)]
      rw [hread]
      simp only [accept, parseRuleMatcherEntry, hstrip, Option.some.injEq]
      cases hkind : classifyPattern rx (Str.trim text) <;> grind

theorem hits_matcher (q : Str) : (src.matcher rx toLowercase text).hits q = true ↔
    ∃ pattern, src.read text = some pattern ∧ (classifyPattern rx pattern).Matches q := by
  have hempty : ¬ (DomainMatcher.empty : DomainMatcher Unit).hits q = true := by
    rw [DomainMatcher.hits, Bool.or_eq_true, not_or]
    exact ⟨DomainMatcher.lookupSpecific_empty q, DomainMatcher.lookupFuzzy_empty q⟩
  cases haccept : src.accept rx toLowercase text with
  | none =>
    rw [matcher, haccept]
    refine iff_of_false hempty ?_
    rintro ⟨pattern, hread, hmatch⟩
    have hvalid : classifyPattern rx pattern ≠ .invalid := by
      intro h
      rw [h] at hmatch
      exact hmatch
    rw [accept_eq_some.mpr ⟨hread, hvalid⟩] at haccept
    exact absurd haccept (Option.some_ne_none pattern)
  | some pattern =>
    have hmatcher : src.matcher rx toLowercase text =
        DomainMatcher.empty.insertAs (classifyPattern rx pattern) () := by
      rw [matcher, haccept]
      cases src with
      | rule => rfl
      | textRuleset => exact applyDomainPattern_fst _ _
      | mrsRuleset => exact applyDomainPattern_fst _ _
    rw [hmatcher, DomainMatcher.hits_insertAs, (accept_eq_some.mp haccept).1]
    simp [hempty]

/-! ### Reading another spelling -/

theorem read_rule : PatternSource.rule.read text = some pattern ↔
    Str.trim text = pattern ∧ ¬ "tag:".toList <+: pattern := by
  rw [read]
  split_ifs with htag
  · rw [List.isPrefixOf_iff_prefix] at htag
    refine iff_of_false (by simp) ?_
    rintro ⟨rfl, hno⟩
    exact hno htag
  · rw [List.isPrefixOf_iff_prefix] at htag
    rw [Option.some.injEq]
    constructor
    · rintro rfl
      exact ⟨rfl, htag⟩
    · exact fun h => h.1

theorem read_textRuleset : PatternSource.textRuleset.read text = some pattern ↔
    Str.trim text = pattern ∧ pattern ≠ [] ∧ ¬ ['#'] <+: pattern ∧ ¬ "//".toList <+: pattern := by
  simp only [read, textLinePattern, Bool.or_eq_true, List.isEmpty_iff, List.isPrefixOf_iff_prefix]
  split_ifs with hskip
  · refine iff_of_false (by simp) ?_
    rintro ⟨rfl, hne, hhash, hslash⟩
    obtain (h | h) | h := hskip
    · exact hne h
    · exact hhash h
    · exact hslash h
  · rw [Option.some.injEq]
    constructor
    · rintro rfl
      obtain ⟨⟨hne, hhash⟩, hslash⟩ := not_or.mp hskip |>.imp_left not_or.mp
      exact ⟨rfl, hne, hhash, hslash⟩
    · exact fun h => h.1

theorem trim_dot (htrim : Str.trim text = pattern) (hne : pattern ≠ []) :
    ∃ w, (∀ c ∈ w, isWhitespace c = true) ∧ Str.trim (text ++ ['.']) = pattern ++ w ++ ['.'] ∧
      endsInSpace (pattern ++ w) = endsInSpace text ∧ pattern.dropWhile isWhitespace = pattern := by
  have hbody : pattern ++ (text.dropWhile isWhitespace).rtakeWhile isWhitespace =
      text.dropWhile isWhitespace := by
    rw [← htrim]
    exact List.rdropWhile_append_rtakeWhile
  have hdrop : text.dropWhile isWhitespace ≠ [] := by
    rw [← hbody]
    simp [hne]
  refine ⟨(text.dropWhile isWhitespace).rtakeWhile isWhitespace, fun c hc => List.mem_rtakeWhile_imp hc,
    ?_, ?_, ?_⟩
  · rw [Str.trim_append_dot, hbody]
  · rw [hbody, endsInSpace_dropWhile hdrop]
  · cases pattern with
    | nil => exact absurd rfl hne
    | cons c cs =>
      have hhead := List.head?_dropWhile_not isWhitespace text
      rw [← hbody] at hhead
      replace hhead : isWhitespace c = false := hhead
      rw [List.dropWhile_cons_of_neg (by simp [hhead])]

theorem read_dot (h : src.read text = some pattern) (hne : pattern ≠ []) :
    ∃ w, (∀ c ∈ w, isWhitespace c = true) ∧ src.read (text ++ ['.']) = some (pattern ++ w ++ ['.']) ∧
      endsInSpace (pattern ++ w) = endsInSpace text ∧ (w = [] ∨ pattern.dropWhile isWhitespace = pattern) := by
  have hkeep : ∀ {front w : Str}, ¬ front <+: pattern → (∀ c ∈ w, isWhitespace c = true) →
      front.all (fun c => !isWhitespace c) = true → '.' ∉ front → ¬ front <+: pattern ++ w ++ ['.'] := by
    intro front w hno hw hblank hdot hfront
    refine hno (front_of_front_append (not_mem_of_whitespace hw hblank) (front_of_front_append ?_ hfront))
    simpa using hdot
  cases src with
  | rule =>
    obtain ⟨htrim, htag⟩ := read_rule.mp h
    obtain ⟨w, hw, hdot, hspace, hfront⟩ := trim_dot htrim hne
    exact ⟨w, hw, read_rule.mpr ⟨hdot, hkeep htag hw (by decide) (by decide)⟩, hspace, .inr hfront⟩
  | textRuleset =>
    obtain ⟨htrim, -, hhash, hslash⟩ := read_textRuleset.mp h
    obtain ⟨w, hw, hdot, hspace, hfront⟩ := trim_dot htrim hne
    exact ⟨w, hw, read_textRuleset.mpr ⟨hdot, by simp, hkeep hhash hw (by decide) (by decide),
      hkeep hslash hw (by decide) (by decide)⟩, hspace, .inr hfront⟩
  | mrsRuleset =>
    obtain rfl := Option.some.inj h
    exact ⟨[], by simp, by simp [read], by simp, .inl rfl⟩

/-- In lower case, the text is read as the pattern in lower case, unless it becomes a tag expression. -/
theorem read_toAsciiLowercase (h : src.read text = some pattern)
    (htag : src = .rule → ¬ "tag:".toList <+: Str.toAsciiLowercase pattern) :
    src.read (Str.toAsciiLowercase text) = some (Str.toAsciiLowercase pattern) := by
  cases src with
  | rule =>
    obtain ⟨rfl, -⟩ := read_rule.mp h
    exact read_rule.mpr ⟨Str.trim_toAsciiLowercase text, htag rfl⟩
  | textRuleset =>
    obtain ⟨rfl, hne, hhash, hslash⟩ := read_textRuleset.mp h
    refine read_textRuleset.mpr ⟨Str.trim_toAsciiLowercase text, ?_, ?_, ?_⟩
    · simpa [Str.toAsciiLowercase] using hne
    · exact fun hfront => hhash (prefix_toAsciiLowercase (by decide) hfront)
    · exact fun hfront => hslash (prefix_toAsciiLowercase (by decide) hfront)
  | mrsRuleset => rw [Option.some.inj h]; rfl

theorem read_of_toAsciiLowercase (h : src.read (Str.toAsciiLowercase text) = some pattern) :
    ∃ pattern', src.read text = some pattern' ∧ Str.toAsciiLowercase pattern' = pattern := by
  have hmap : ∀ {front s : Str}, front <+: s → Str.toAsciiLowercase front <+: Str.toAsciiLowercase s :=
    fun hfront => hfront.map Char.toLower
  cases src with
  | rule =>
    obtain ⟨rfl, htag⟩ := read_rule.mp h
    rw [Str.trim_toAsciiLowercase] at htag ⊢
    exact ⟨_, read_rule.mpr ⟨rfl, fun hfront => htag (hmap hfront)⟩, rfl⟩
  | textRuleset =>
    obtain ⟨rfl, hne, hhash, hslash⟩ := read_textRuleset.mp h
    rw [Str.trim_toAsciiLowercase] at hne hhash hslash ⊢
    refine ⟨_, read_textRuleset.mpr ⟨rfl, ?_, fun hfront => hhash (hmap hfront),
      fun hfront => hslash (hmap hfront)⟩, rfl⟩
    simpa [Str.toAsciiLowercase] using hne
  | mrsRuleset => exact ⟨text, rfl, Option.some.inj h⟩

/-! ### Which texts may be respelled -/

/-- A dot behind the text, or other letter cases. -/
def Respelled (text text' : Str) : Prop :=
  text' = text ++ ['.'] ∨ Str.toAsciiLowercase text' = Str.toAsciiLowercase text

/-- No wildcard, with the dot or without; no whitespace at the end; not the text `+`; and for a rule nothing
that reads as a tag expression in lower case. -/
structure SpellingSafe (rx : RegexCrate) (src : PatternSource) (text pattern : Str) : Prop where
  wildcard : ¬ IsWildcard rx pattern
  wildcardDot : ¬ IsWildcard rx (pattern ++ ['.'])
  space : endsInSpace text = false
  plus : pattern ≠ ['+']
  tag : src = .rule → ¬ "tag:".toList <+: Str.toAsciiLowercase pattern

theorem hits_matcher_of_read (h : src.read text = some pattern) (q : Str) :
    (src.matcher rx toLowercase text).hits q = true ↔ (classifyPattern rx pattern).Matches q := by
  rw [hits_matcher, h]
  simp

theorem ne_nil_of_accepted (h : classifyPattern rx pattern ≠ .invalid) : pattern ≠ [] := by
  rintro rfl
  exact h rfl

theorem read_dot_of_not_space (hread : src.read text = some pattern) (hne : pattern ≠ [])
    (hspace : endsInSpace text = false) :
    src.read (text ++ ['.']) = some (pattern ++ ['.']) ∧ endsInSpace pattern = false := by
  obtain ⟨w, hw, hdot, hends, -⟩ := read_dot hread hne
  have hnil : w = [] := by
    by_contra hw0
    rw [endsInSpace_append _ hw0, endsInSpace_of_forall hw0 hw, hspace] at hends
    exact Bool.noConfusion hends
  rw [hnil, List.append_nil] at hdot hends
  exact ⟨hdot, hends.trans hspace⟩

/-- A text that is safe matches the same names in every spelling. -/
theorem matches_respelled (hsafe : SpellingSafe rx src text pattern) (hread : src.read text = some pattern)
    (hvalid : classifyPattern rx pattern ≠ .invalid) {text' : Str} (h : Respelled text text') :
    ∃ pattern', src.read text' = some pattern' ∧ classifyPattern rx pattern' = classifyPattern rx pattern := by
  have hne := ne_nil_of_accepted hvalid
  obtain rfl | hcase := h
  · obtain ⟨hdot, hspace⟩ := read_dot_of_not_space hread hne hsafe.space
    exact ⟨_, hdot, classifyPattern_append_dot hne hsafe.plus hspace hsafe.wildcard hsafe.wildcardDot⟩
  · have hlower := read_toAsciiLowercase hread hsafe.tag
    rw [← hcase] at hlower
    obtain ⟨pattern', hread', hsame⟩ := read_of_toAsciiLowercase hlower
    refine ⟨pattern', hread', ?_⟩
    rw [← classifyPattern_toAsciiLowercase pattern', hsame, classifyPattern_toAsciiLowercase]

theorem not_same_of_apart {text' pattern' : Str} (hread : src.read text = some pattern)
    (hread' : src.read text' = some pattern')
    (hsame : ∀ q, (src.matcher rx toLowercase text').hits q = (src.matcher rx toLowercase text).hits q) :
    ¬ ∃ q, (classifyPattern rx pattern).Matches q ∧ ¬ (classifyPattern rx pattern').Matches q := by
  rintro ⟨q, hmatch, hno⟩
  have hhits : (src.matcher rx toLowercase text).hits q = true := (hits_matcher_of_read hread q).mpr hmatch
  rw [← hsame q, hits_matcher_of_read hread'] at hhits
  exact hno hhits

/-- An accepted text matches the same names in every spelling exactly when it is safe. -/
theorem respelled_same_iff (hrx : rx.Correct) (hshort : rx.CompilesShort)
    (haccept : src.accept rx toLowercase text = some pattern) :
    (∀ text', Respelled text text' →
      ∀ q, (src.matcher rx toLowercase text').hits q = (src.matcher rx toLowercase text).hits q) ↔
    SpellingSafe rx src text pattern := by
  obtain ⟨hread, hvalid⟩ := accept_eq_some.mp haccept
  have hne := ne_nil_of_accepted hvalid
  constructor
  · intro h
    obtain ⟨w, hw, hdot, hends, hfront⟩ := read_dot hread hne
    have hapart := not_same_of_apart hread hdot (h _ (.inl rfl))
    have hspace : endsInSpace text = false := by
      by_contra hspace
      rw [Bool.not_eq_false, ← hends] at hspace
      exact hapart (space_dot_apart hrx hshort hvalid hw hfront hspace)
    obtain ⟨hdot', -⟩ := read_dot_of_not_space hread hne hspace
    have hapart' := not_same_of_apart hread hdot' (h _ (.inl rfl))
    have hwild : ¬ IsWildcard rx pattern := fun hwild =>
      hapart ⟨_, (matches_wildcard hrx hwild _).mpr (wildcardMatches_self pattern),
        wildcard_dot_apart hrx hshort hwild hw hfront⟩
    refine ⟨hwild, fun hwild' => hapart' (dot_wildcard_apart hrx hvalid hwild hwild'), hspace, ?_, ?_⟩
    · rintro rfl
      exact hapart' ⟨['+'], rfl, id⟩
    · rintro rfl htag
      obtain ⟨q, hq⟩ := exists_matches hrx hvalid
      have hhits : (PatternSource.rule.matcher rx toLowercase text).hits q = true :=
        (hits_matcher_of_read hread q).mpr hq
      rw [← h (Str.toAsciiLowercase text) (.inr (Str.toAsciiLowercase_idem text)) q, hits_matcher] at hhits
      obtain ⟨pattern', hread', -⟩ := hhits
      obtain ⟨rfl, hno⟩ := read_rule.mp hread'
      rw [Str.trim_toAsciiLowercase, (read_rule.mp hread).1] at hno
      exact hno htag
  · intro hsafe text' h q
    obtain ⟨pattern', hread', hkind⟩ := matches_respelled hsafe hread hvalid h
    rw [Bool.eq_iff_iff, hits_matcher_of_read hread', hits_matcher_of_read hread, hkind]

/-- A name is no wildcard, and a rule may have it in any spelling. -/
theorem respelled_same_iff_name :
    PatternSource.rule.accept .reference Str.toAsciiLowercase "Example.com".toList = some "Example.com".toList ∧
      ∀ text', Respelled "Example.com".toList text' → ∀ q,
        (PatternSource.rule.matcher .reference Str.toAsciiLowercase text').hits q =
          (PatternSource.rule.matcher .reference Str.toAsciiLowercase "Example.com".toList).hits q := by
  have haccept : PatternSource.rule.accept .reference Str.toAsciiLowercase "Example.com".toList =
      some "Example.com".toList := by decide +kernel
  refine ⟨haccept, (respelled_same_iff RegexCrate.correct_reference RegexCrate.compilesShort_reference
    haccept).mpr ⟨fun h => ?_, fun h => ?_, by decide, by decide, fun _ => by decide⟩⟩
  · exact absurd h.star (by decide)
  · exact absurd h.star (by decide)

/-- `*.example.com` matches `a.example.com`, and `*.example.com.` does not. -/
theorem wildcard_dot_misses :
    (PatternSource.rule.matcher .reference Str.toAsciiLowercase "*.example.com".toList).hits
        "a.example.com".toList = true ∧
      (PatternSource.rule.accept .reference Str.toAsciiLowercase "*.example.com.".toList).isSome = true ∧
      (PatternSource.rule.matcher .reference Str.toAsciiLowercase "*.example.com.".toList).hits
        "a.example.com".toList = false := by
  decide +kernel

end PatternSource

end PathDns
