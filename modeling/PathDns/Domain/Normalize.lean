import Mathlib.Data.List.DropRight
import PathDns.Domain
import PathDns.Lib.Join

/-!
# Trimming, lower case and normalization

What whitespace and dots around a text and the case of its letters do to `trim`, to the labels and to
`normalize_domain`.
-/

namespace PathDns

/-! ### Trimming -/

theorem Str.trim_split (s : Str) : ∃ front back : Str, s = front ++ Str.trim s ++ back ∧
    (∀ c ∈ front, isWhitespace c = true) ∧ ∀ c ∈ back, isWhitespace c = true := by
  refine ⟨s.takeWhile isWhitespace,
    ((s.dropWhile isWhitespace).reverse.takeWhile isWhitespace).reverse, ?_, ?_, ?_⟩
  · have hback := List.takeWhile_append_dropWhile (p := isWhitespace)
      (l := (s.dropWhile isWhitespace).reverse)
    have hrest : Str.trim s ++ ((s.dropWhile isWhitespace).reverse.takeWhile isWhitespace).reverse =
        s.dropWhile isWhitespace := by
      rw [Str.trim, Str.trimEndMatches, ← List.reverse_append, hback, List.reverse_reverse]
    rw [List.append_assoc, hrest, List.takeWhile_append_dropWhile]
  · intro c hc
    exact List.mem_takeWhile_imp hc
  · intro c hc
    exact List.mem_takeWhile_imp (List.mem_reverse.mp hc)

variable {w : Str}

theorem dropWhile_of_all {p : Char → Bool} (h : ∀ c ∈ w, p c = true) (s : Str) :
    (w ++ s).dropWhile p = s.dropWhile p := by
  rw [List.dropWhile_append, List.dropWhile_eq_nil_iff.mpr h]
  rfl

theorem Str.trim_append_back (hw : ∀ c ∈ w, isWhitespace c = true) (s : Str) :
    Str.trim (s ++ w) = Str.trim s := by
  have hw' : ∀ c ∈ w.reverse, isWhitespace c = true := fun c hc => hw c (List.mem_reverse.mp hc)
  rw [Str.trim, Str.trim, Str.trimEndMatches, Str.trimEndMatches, List.dropWhile_append]
  split_ifs with hempty
  · rw [List.isEmpty_iff.mp hempty, List.dropWhile_eq_nil_iff.mpr hw]
  · rw [List.reverse_append, dropWhile_of_all hw']

theorem not_mem_of_whitespace {sep : Str} (hw : ∀ c ∈ w, isWhitespace c = true)
    (hsep : sep.all (fun c => !isWhitespace c) = true) : ∀ c ∈ w, c ∉ sep := by
  intro c hc hmem
  have hno := List.all_eq_true.mp hsep c hmem
  rw [hw c hc] at hno
  exact Bool.false_ne_true hno

theorem Str.trim_append_dot (s : Str) : Str.trim (s ++ ['.']) = s.dropWhile isWhitespace ++ ['.'] := by
  have hdrop : (s ++ ['.']).dropWhile isWhitespace = s.dropWhile isWhitespace ++ ['.'] := by
    rw [List.dropWhile_append]
    split_ifs with hempty
    · rw [List.isEmpty_iff.mp hempty]
      rfl
    · rfl
  rw [Str.trim, hdrop]
  exact List.rdropWhile_concat_neg _ _ _ (by decide)

/-! ### Lower case -/

/-- A character is its own lower case, or it is an upper-case letter and so is told by its code. -/
theorem toLower_cases (c : Char) : c.toLower = c ∨
    (65 ≤ c.toNat ∧ c.toNat ≤ 90 ∧ c.toLower.toNat = c.toNat + 32) := by
  by_cases hletter : c.val ≥ 'A'.val ∧ c.val ≤ 'Z'.val
  · have hlo : 65 ≤ c.val.toNat := UInt32.le_iff_toNat_le.mp hletter.1
    have hhi : c.val.toNat ≤ 90 := UInt32.le_iff_toNat_le.mp hletter.2
    have hval : c.toLower.val = c.val + ('a'.val - 'A'.val) := by
      delta Char.toLower
      rw [dif_pos hletter]
    have hsum : c.toLower.val.toNat = (c.val.toNat + 32) % 2 ^ 32 := by
      rw [hval]
      exact UInt32.toNat_add _ _
    exact .inr ⟨hlo, hhi, hsum.trans (Nat.mod_eq_of_lt (by omega))⟩
  · exact .inl (dif_neg hletter)

theorem eq_of_toLower_eq {c d : Char} (hd : d.toNat < 97 ∨ 122 < d.toNat) (h : c.toLower = d) : c = d := by
  obtain hc | ⟨hlo, hhi, hsum⟩ := toLower_cases c
  · exact hc.symm.trans h
  · rw [h] at hsum
    omega

theorem toLower_eq_iff {c d : Char} (hd : d.toNat < 97 ∨ 122 < d.toNat) (hfixed : d.toLower = d) :
    c.toLower = d ↔ c = d :=
  ⟨eq_of_toLower_eq hd, fun h => h ▸ hfixed⟩

theorem toLower_toLower (c : Char) : c.toLower.toLower = c.toLower := by
  obtain h | ⟨hlo, hhi, hsum⟩ := toLower_cases c
  · rw [h, h]
  · obtain h | ⟨-, hhi', -⟩ := toLower_cases c.toLower
    · exact h
    · omega

theorem isWhitespace_toLower (c : Char) : isWhitespace c.toLower = isWhitespace c := by
  obtain h | ⟨hlo, hhi, hsum⟩ := toLower_cases c
  · rw [h]
  · have hno : ∀ d : Char, 65 ≤ d.toNat → d.toNat ≤ 122 → isWhitespace d = false := by
      intro d h1 h2
      simp only [isWhitespace, Bool.or_eq_false_iff, Bool.and_eq_false_iff, decide_eq_false_iff_not,
        beq_eq_false_iff_ne]
      omega
    rw [hno c hlo (by omega), hno _ (by omega) (by omega)]

theorem utf8Size_toLower (c : Char) : c.toLower.utf8Size = c.utf8Size := by
  obtain h | ⟨hlo, hhi, hsum⟩ := toLower_cases c
  · rw [h]
  · have hone : ∀ d : Char, d.toNat ≤ 127 → d.utf8Size = 1 := by
      intro d hd
      exact Char.utf8Size_eq_one_iff.mpr (UInt32.le_iff_toNat_le.mpr hd)
    rw [hone c (by omega), hone _ (by omega)]

namespace Str

theorem mem_toAsciiLowercase {s : Str} {c : Char} (hc : c.toNat < 97) (hfixed : c.toLower = c) :
    c ∈ toAsciiLowercase s ↔ c ∈ s := by
  rw [toAsciiLowercase, List.mem_map]
  constructor
  · rintro ⟨d, hd, heq⟩
    exact eq_of_toLower_eq (.inl hc) heq ▸ hd
  · exact fun h => ⟨c, h, hfixed⟩

theorem byteLen_toAsciiLowercase (s : Str) : byteLen (toAsciiLowercase s) = byteLen s := by
  simp [byteLen, toAsciiLowercase, Function.comp_def, utf8Size_toLower]

theorem toAsciiLowercase_idem (s : Str) : toAsciiLowercase (toAsciiLowercase s) = toAsciiLowercase s := by
  rw [toAsciiLowercase, toAsciiLowercase, List.map_map]
  exact List.map_congr_left fun c _ => toLower_toLower c

theorem trimEndMatches_toAsciiLowercase {p : Char → Bool} (hp : ∀ c, p c.toLower = p c) (s : Str) :
    trimEndMatches p (toAsciiLowercase s) = toAsciiLowercase (trimEndMatches p s) := by
  have hcomp : p ∘ Char.toLower = p := funext hp
  rw [trimEndMatches, toAsciiLowercase, ← List.map_reverse, List.dropWhile_map, hcomp, ← List.map_reverse]
  rfl

theorem trim_toAsciiLowercase (s : Str) : trim (toAsciiLowercase s) = toAsciiLowercase (trim s) := by
  have hcomp : isWhitespace ∘ Char.toLower = isWhitespace := funext isWhitespace_toLower
  have hdrop : (toAsciiLowercase s).dropWhile isWhitespace = toAsciiLowercase (s.dropWhile isWhitespace) := by
    rw [toAsciiLowercase, List.dropWhile_map, hcomp]
    rfl
  rw [trim, hdrop, trimEndMatches_toAsciiLowercase isWhitespace_toLower]
  rfl

theorem splitOn_toAsciiLowercase (s : Str) :
    (toAsciiLowercase s).splitOn '.' = (s.splitOn '.').map toAsciiLowercase :=
  Join.splitOn_map (fun _ => toLower_eq_iff (by decide) (by decide)) s

end Str

/-! ### Normalization -/

/-- The name that `normalize_domain` checks. -/
def bareName (s : Str) : Str := Str.toAsciiLowercase (Str.trimEndMatches (· = '.') (Str.trim s))

variable {s : Str}

theorem normalizeDomain_congr {s' : Str} (h : bareName s = bareName s') :
    normalizeDomain s = normalizeDomain s' := by
  rw [bareName, bareName] at h
  simp only [normalizeDomain, h]

theorem normalizeDomain_eq_some {n : Str} : normalizeDomain s = some n ↔
    bareName s = n ∧ n ≠ [] ∧ Str.byteLen n ≤ 253 ∧
      ∀ label ∈ n.splitOn '.', label ≠ [] ∧ Str.byteLen label ≤ 63 := by
  have hunfold : normalizeDomain s = if (bareName s).isEmpty || Str.byteLen (bareName s) > 253 ||
      ((bareName s).splitOn '.').any (fun label => label.isEmpty || Str.byteLen label > 63) then none
    else some (bareName s) := rfl
  rw [hunfold]
  split_ifs with h
  · simp only [false_iff, not_and]
    rintro rfl hne hlen hlabels
    obtain (h | h) | h := by simpa only [Bool.or_eq_true] using h
    · exact hne (List.isEmpty_iff.mp h)
    · exact absurd hlen (by simpa using h)
    · obtain ⟨label, hmem, hbad⟩ := List.any_eq_true.mp h
      obtain ⟨hlabel, hsize⟩ := hlabels label hmem
      simp only [Bool.or_eq_true, List.isEmpty_iff, hlabel, false_or, decide_eq_true_eq] at hbad
      omega
  · simp only [Bool.or_eq_true, not_or, List.any_eq_true, not_exists, not_and] at h
    obtain ⟨⟨hne, hlen⟩, hlabels⟩ := h
    rw [Option.some.injEq]
    constructor
    · rintro rfl
      refine ⟨rfl, by simpa using hne, by simpa using hlen, fun label hmem => ?_⟩
      simpa using hlabels label hmem
    · exact fun h => h.1

theorem bareName_toAsciiLowercase (s : Str) : bareName (Str.toAsciiLowercase s) = bareName s := by
  have hdot : ∀ c : Char, decide (c.toLower = '.') = decide (c = '.') :=
    fun c => decide_eq_decide.mpr (toLower_eq_iff (by decide) (by decide))
  rw [bareName, Str.trim_toAsciiLowercase, Str.trimEndMatches_toAsciiLowercase hdot,
    Str.toAsciiLowercase_idem]
  rfl

theorem bareName_dot (s : Str) : bareName (s ++ ['.']) =
    Str.toAsciiLowercase (Str.trimEndMatches (· = '.') (s.dropWhile isWhitespace)) := by
  rw [bareName, Str.trim_append_dot]
  congr 1
  exact List.rdropWhile_concat_pos _ _ _ (by decide)

/-- The last character is whitespace. -/
def endsInSpace (s : Str) : Bool := s.getLast?.any isWhitespace

theorem endsInSpace_append (a : Str) {b : Str} (hb : b ≠ []) : endsInSpace (a ++ b) = endsInSpace b := by
  rw [endsInSpace, List.getLast?_append_of_ne_nil _ hb]
  rfl

theorem endsInSpace_dropWhile (h : s.dropWhile isWhitespace ≠ []) :
    endsInSpace (s.dropWhile isWhitespace) = endsInSpace s := by
  have hsplit := List.takeWhile_append_dropWhile (p := isWhitespace) (l := s)
  rw [← endsInSpace_append (s.takeWhile isWhitespace) h, hsplit]

theorem trimEndMatches_of_not_endsInSpace (h : endsInSpace s = false) :
    Str.trimEndMatches isWhitespace s = s := by
  refine List.rdropWhile_eq_self_iff.mpr fun hne => ?_
  rw [endsInSpace, List.getLast?_eq_some_getLast hne, Option.any_some] at h
  simp [h]

theorem endsInSpace_of_forall (hne : w ≠ []) (hw : ∀ c ∈ w, isWhitespace c = true) : endsInSpace w = true := by
  rw [endsInSpace, List.getLast?_eq_some_getLast hne, Option.any_some]
  exact hw _ (List.getLast_mem hne)

theorem trimEndMatches_dot_of_endsInSpace (h : endsInSpace s = true) : Str.trimEndMatches (· = '.') s = s := by
  refine List.rdropWhile_eq_self_iff.mpr fun hne => ?_
  rw [endsInSpace, List.getLast?_eq_some_getLast hne, Option.any_some] at h
  rw [decide_eq_true_iff]
  intro hdot
  rw [hdot] at h
  exact absurd h (by decide)

/-- The final dot is dropped, unless whitespace comes before it. -/
theorem normalizeDomain_dot (h : endsInSpace s = false) : normalizeDomain (s ++ ['.']) = normalizeDomain s := by
  apply normalizeDomain_congr
  have hdrop : endsInSpace (s.dropWhile isWhitespace) = false := by
    by_cases hnil : s.dropWhile isWhitespace = []
    · rw [hnil]
      rfl
    · rw [endsInSpace_dropWhile hnil, h]
  rw [bareName_dot, bareName, Str.trim, trimEndMatches_of_not_endsInSpace hdrop]

/-- With whitespace before it, the dot keeps the whitespace in the name. -/
theorem length_normalizeDomain_dot {n n' : Str} (h : endsInSpace s = true) (hn : normalizeDomain s = some n)
    (hn' : normalizeDomain (s ++ ['.']) = some n') : n.length < n'.length := by
  obtain ⟨hbare, hne, -⟩ := normalizeDomain_eq_some.mp hn
  obtain ⟨hbare', -⟩ := normalizeDomain_eq_some.mp hn'
  rw [bareName_dot] at hbare'
  have hnil : s.dropWhile isWhitespace ≠ [] := by
    intro hnil
    rw [bareName, Str.trim, hnil] at hbare
    exact hne hbare.symm
  obtain ⟨body, c, hbody⟩ : ∃ body c, s.dropWhile isWhitespace = body ++ [c] :=
    ⟨_, _, (List.dropLast_append_getLast hnil).symm⟩
  have hend : endsInSpace (body ++ [c]) = true := by rw [← hbody, endsInSpace_dropWhile hnil, h]
  have hc : isWhitespace c = true := by simpa [endsInSpace] using hend
  have hshort : Str.trimEndMatches isWhitespace (body ++ [c]) = body.rdropWhile isWhitespace :=
    List.rdropWhile_concat_pos _ _ _ hc
  rw [hbody, trimEndMatches_dot_of_endsInSpace hend] at hbare'
  rw [bareName, Str.trim, hbody, hshort] at hbare
  have hlen : n.length ≤ body.length := by
    rw [← hbare, Str.toAsciiLowercase, List.length_map]
    exact (List.rdropWhile_prefix _ _).length_le.trans (List.rdropWhile_prefix _ _).length_le
  have hlen' : n'.length = body.length + 1 := by
    rw [← hbare', Str.toAsciiLowercase, List.length_map, List.length_append, List.length_singleton]
  omega

end PathDns
