import Mathlib.Algebra.GroupWithZero.Nat
import PathDns.Config.Types
import Mathlib.Data.List.AList

/-!
# Domain patterns (`domain.rs`)

A pattern is classified into a suffix, an exact name or a wildcard and compiled into a
`DomainMatcher`. A compiled regular expression is represented by what `is_match` answers; the regex
crate itself is a parameter.
-/

namespace PathDns

/-- A compiled regular expression, given by its `is_match`. -/
abbrev Regex := Str → Bool

/-- `DomainMatcher<V>`. -/
structure DomainMatcher (V : Type) where
  full : AList (fun _ : Str => V)
  suffix : AList (fun _ : Str => V)
  regex : List (Regex × V)

namespace DomainMatcher

variable {V : Type}

/-- `DomainMatcher::default`. -/
def empty : DomainMatcher V := ⟨∅, ∅, []⟩

def insertFull (m : DomainMatcher V) (name : Str) (value : V) : DomainMatcher V :=
  { m with full := m.full.insert name value }

def insertSuffix (m : DomainMatcher V) (name : Str) (value : V) : DomainMatcher V :=
  { m with suffix := m.suffix.insert name value }

def insertRegex (m : DomainMatcher V) (regex : Regex) (value : V) : DomainMatcher V :=
  { m with regex := m.regex ++ [(regex, value)] }

/-- The loop of `lookup_specific` over the right-hand segments of the name. -/
def lookupSuffix (suffix : AList (fun _ : Str => V)) : Nat → Str → Option V
  | 0, _ => none
  | fuel + 1, qname =>
    match suffix.lookup qname with
    | some v => some v
    | none =>
      match qname.dropWhile (· ≠ '.') with
      | [] => none
      | _ :: rest => lookupSuffix suffix fuel rest

def lookupSpecific (m : DomainMatcher V) (qname : Str) : Option V :=
  match m.full.lookup qname with
  | some v => some v
  | none =>
    if m.suffix.entries.isEmpty then none else lookupSuffix m.suffix (qname.length + 1) qname

def lookupFuzzy (m : DomainMatcher V) (qname : Str) : Option V :=
  (m.regex.find? (fun r => r.1 qname)).map (·.2)

end DomainMatcher

/-! ### Classification of patterns -/

/-- The functions of the regex crate that patterns use: `Regex::new(_).ok()` and `escape`. -/
structure RegexCrate where
  compile : Str → Option Regex
  escape : Str → Str

/-- `char::is_whitespace`: the characters with the `White_Space` property. -/
def isWhitespace (c : Char) : Bool :=
  (9 ≤ c.toNat && c.toNat ≤ 13) || c.toNat == 0x20 || c.toNat == 0x85 || c.toNat == 0xa0 ||
    c.toNat == 0x1680 || (0x2000 ≤ c.toNat && c.toNat ≤ 0x200a) || c.toNat == 0x2028 ||
    c.toNat == 0x2029 || c.toNat == 0x202f || c.toNat == 0x205f || c.toNat == 0x3000

def Str.trimEndMatches (p : Char → Bool) (s : Str) : Str := (s.reverse.dropWhile p).reverse

def Str.trim (s : Str) : Str := Str.trimEndMatches isWhitespace (s.dropWhile isWhitespace)

/-- `str::len`, in bytes. -/
def Str.byteLen (s : Str) : Nat := (s.map Char.utf8Size).sum

def Str.toAsciiLowercase (s : Str) : Str := s.map Char.toLower

def normalizeDomain (name : Str) : Option Str :=
  let name := Str.toAsciiLowercase (Str.trimEndMatches (· = '.') (Str.trim name))
  if name.isEmpty || Str.byteLen name > 253 ||
      (name.splitOn '.').any (fun label => label.isEmpty || Str.byteLen label > 63) then none
  else some name

/-- The source of the regular expression of a wildcard pattern. -/
def wildcardSource (rx : RegexCrate) (pattern : Str) : Str :=
  let part := fun p => if p = ['*'] then "[^.]+".toList else rx.escape (Str.toAsciiLowercase p)
  '^' :: (['\\', '.'].intercalate ((pattern.splitOn '.').map part) ++ ['$'])

def wildcardDomainRegex (rx : RegexCrate) (pattern : Str) : Option Regex :=
  if pattern.contains '*' then rx.compile (wildcardSource rx pattern) else none

inductive PatternKind where
  | suffix (name : Str)
  | full (name : Str)
  | wildcard (regex : Regex)
  | invalid

def classifyPattern (rx : RegexCrate) (pattern : Str) : PatternKind :=
  let suffixOf := fun rest => (normalizeDomain rest).elim .invalid .suffix
  match pattern with
  | '+' :: '.' :: rest => suffixOf rest
  | '.' :: rest => suffixOf rest
  | _ =>
    match wildcardDomainRegex rx pattern with
    | some re => .wildcard re
    | none => (normalizeDomain pattern).elim .invalid .full

/-- The insertion of a classified pattern; an invalid one is skipped. -/
def DomainMatcher.insertAs {V : Type} (m : DomainMatcher V) (kind : PatternKind) (value : V) :
    DomainMatcher V :=
  match kind with
  | .suffix name => m.insertSuffix name value
  | .full name => m.insertFull name value
  | .wildcard re => m.insertRegex re value
  | .invalid => m

/-! ### What the tiers match -/

/-- The name is the domain or lies below it. -/
def InDomain (domain qname : Str) : Prop := qname = domain ∨ ∃ sub, qname = sub ++ '.' :: domain

/-- What a classified pattern matches. -/
def PatternKind.Matches (qname : Str) : PatternKind → Prop
  | .suffix name => InDomain name qname
  | .full name => qname = name
  | .wildcard re => re qname = true
  | .invalid => False

theorem below_cons (domain q : Str) (c : Char) :
    (∃ sub, c :: q = sub ++ '.' :: domain) ↔
      (c = '.' ∧ q = domain) ∨ ∃ sub, q = sub ++ '.' :: domain := by
  constructor
  · rintro ⟨sub, h⟩
    cases sub with
    | nil =>
      simp only [List.nil_append, List.cons.injEq] at h
      exact .inl h
    | cons d sub =>
      simp only [List.cons_append, List.cons.injEq] at h
      exact .inr ⟨sub, h.2⟩
  · rintro (⟨rfl, rfl⟩ | ⟨sub, rfl⟩)
    · exact ⟨[], rfl⟩
    · exact ⟨c :: sub, rfl⟩

/-- A name lies below a domain exactly when the segment behind its first dot is in the domain. -/
theorem below_iff (domain q : Str) :
    (∃ sub, q = sub ++ '.' :: domain) ↔
      ∃ c rest, q.dropWhile (· ≠ '.') = c :: rest ∧ InDomain domain rest := by
  induction q with
  | nil => simp
  | cons c q ih =>
    rw [below_cons]
    by_cases hc : c = '.'
    · subst hc
      simp [InDomain]
    · have hdrop : (c :: q).dropWhile (· ≠ '.') = q.dropWhile (· ≠ '.') := by simp [hc]
      rw [hdrop, ← ih]
      simp [hc]

theorem length_dropWhile_lt {q rest : Str} {c : Char} (h : q.dropWhile (· ≠ '.') = c :: rest) :
    rest.length < q.length := by
  have hle : (q.dropWhile (· ≠ '.')).length ≤ q.length := (List.dropWhile_suffix _).length_le
  rw [h, List.length_cons] at hle
  omega

namespace DomainMatcher

variable {V : Type}

/-- The walk finds a segment exactly when the name is in one of the domains. -/
theorem lookupSuffix_isSome (suffix : AList (fun _ : Str => V)) {fuel : Nat} {q : Str}
    (hfuel : q.length < fuel) :
    (lookupSuffix suffix fuel q).isSome ↔ ∃ domain ∈ suffix, InDomain domain q := by
  induction fuel generalizing q with
  | zero => omega
  | succ fuel ih =>
    rw [lookupSuffix]
    cases hlook : suffix.lookup q with
    | some v =>
      simp only [Option.isSome_some, true_iff]
      exact ⟨q, AList.lookup_isSome.mp (by simp [hlook]), .inl rfl⟩
    | none =>
      have hq : q ∉ suffix := AList.lookup_eq_none.mp hlook
      have hstep : (∃ domain ∈ suffix, InDomain domain q) ↔
          ∃ domain ∈ suffix, ∃ c rest, q.dropWhile (· ≠ '.') = c :: rest ∧ InDomain domain rest := by
        constructor
        · rintro ⟨domain, hmem, rfl | hbelow⟩
          · exact absurd hmem hq
          · exact ⟨domain, hmem, (below_iff domain q).mp hbelow⟩
        · rintro ⟨domain, hmem, hrest⟩
          exact ⟨domain, hmem, .inr ((below_iff domain q).mpr hrest)⟩
      rw [hstep]
      cases hdrop : q.dropWhile (· ≠ '.') with
      | nil => simp
      | cons c rest =>
        have hlt := length_dropWhile_lt hdrop
        simp [ih (show rest.length < fuel by omega)]

/-- The exact and suffix tiers, and the regex tier. -/
def hits (m : DomainMatcher V) (q : Str) : Bool := (m.lookupSpecific q).isSome || (m.lookupFuzzy q).isSome

theorem lookupFuzzy_isSome (m : DomainMatcher V) (q : Str) :
    (m.lookupFuzzy q).isSome = true ↔ ∃ r ∈ m.regex, r.1 q = true := by
  simp [lookupFuzzy, List.find?_isSome]

theorem lookupSpecific_isSome (m : DomainMatcher V) (q : Str) :
    (m.lookupSpecific q).isSome = true ↔ q ∈ m.full ∨ ∃ domain ∈ m.suffix, InDomain domain q := by
  unfold lookupSpecific
  cases hfull : m.full.lookup q with
  | some v =>
    have : q ∈ m.full := AList.lookup_isSome.mp (by simp [hfull])
    simp [this]
  | none =>
    have hnot : q ∉ m.full := AList.lookup_eq_none.mp hfull
    simp only [hnot, false_or]
    split_ifs with hempty
    · have hnone : ∀ domain, domain ∉ m.suffix := by
        intro domain hmem
        rw [AList.mem_keys] at hmem
        simp [AList.keys, List.isEmpty_iff.mp hempty] at hmem
      simp [hnone]
    · exact lookupSuffix_isSome m.suffix (Nat.lt_succ_self _)

theorem hits_iff (m : DomainMatcher V) (q : Str) :
    m.hits q = true ↔ q ∈ m.full ∨ (∃ domain ∈ m.suffix, InDomain domain q) ∨
      ∃ r ∈ m.regex, r.1 q = true := by
  rw [hits, Bool.or_eq_true, lookupSpecific_isSome, lookupFuzzy_isSome, or_assoc]

end DomainMatcher

end PathDns
