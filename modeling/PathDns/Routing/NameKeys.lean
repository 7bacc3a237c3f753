import PathDns.Dns.NameText
import PathDns.Routing.Index
import PathDns.Verdict

/-!
# Decisions kept under the text of a name

The route cache and the verdict cache are keyed by what `qname_from_question` returns. A decision of one
name is found for another when both have one text. The matchers read a text as its characters; all that is
needed of that reading is that different texts read differently.
-/

namespace PathDns

open Bytes Join

/-- Unless the names are the same, nothing kept under the first text is found under the second: no verdict,
and no rule in the route cache after a call. -/
structure KeptApart (qa qb : Utf8.Text) (same : Prop) : Prop where
  text : qa = qb → same
  verdict : ∀ capacity ttl now later v,
    (((VerdictCache.new (some (capacity, ttl))).add now qa v).get later qb).isSome = true → same
  route : ∀ (chars : Utf8.Text → Str), chars.Injective →
    ∀ (index : RouteIndex) rules ruleset answer cache,
      index.route rules (chars qa) ruleset ∅ = .ok (answer, cache) →
      (cache.lookup (chars qb)).isSome = true → same

theorem lookup_insert_empty {κ β : Type} [DecidableEq κ] {a b : κ} {v w : β}
    (h : ((∅ : AList fun _ : κ => β).insert a v).lookup b = some w) : a = b := by
  by_contra hne
  rw [AList.lookup_insert_ne (Ne.symm hne), AList.lookup_empty] at h
  exact absurd h (by simp)

theorem VerdictCache.eq_of_get_add {capacity ttl now later : Nat} {qa qb : Utf8.Text} {v : Bool}
    (h : (((new (some (capacity, ttl))).add now qa v).get later qb).isSome = true) : qa = qb := by
  simp only [new] at h
  split_ifs at h with hcapacity
  · simp [add, get] at h
  · simp only [add, get, Option.map_some, Option.bind_some] at h
    split at h
    · exact absurd h (by simp)
    · next entry hlookup => exact lookup_insert_empty hlookup

/-- What a first call leaves in the route cache is kept under the name it was made for. -/
theorem RouteIndex.eq_of_lookup_route {index : RouteIndex} {rules : List Rule} {qa qb : Str}
    {ruleset : Option RuleSetDb} {answer : Option Rule} {cache : RouteCache}
    (hroute : index.route rules qa ruleset ∅ = .ok (answer, cache))
    (h : (cache.lookup qb).isSome = true) : qa = qb := by
  have hempty : ∀ q : Str, (∅ : RouteCache).lookup q = none := fun q => AList.lookup_empty q
  simp only [route, hempty, ite_self] at hroute
  cases hconstant : index.constantRoute with
  | some constant =>
    simp only [hconstant, Except.ok.injEq, Prod.mk.injEq] at hroute
    simp [← hroute.2, hempty] at h
  | none =>
    simp only [hconstant] at hroute
    cases huncached : index.routeIndexUncached qa ruleset (Memo.BitMemo.new 64 index.numTags) with
    | error e => simp [huncached] at hroute
    | ok idx =>
      simp only [huncached, Except.ok.injEq, Prod.mk.injEq] at hroute
      obtain ⟨w, hw⟩ := Option.isSome_iff_exists.mp h
      rw [← hroute.2] at hw
      split_ifs at hw with huse
      · exact lookup_insert_empty hw
      · simp [hempty] at hw

theorem keptApart_iff {qa qb : Utf8.Text} {same : Prop} : KeptApart qa qb same ↔ (qa = qb → same) := by
  refine ⟨fun h => h.text, fun h => ⟨h, ?_, ?_⟩⟩
  · intro capacity ttl now later v hget
    exact h (VerdictCache.eq_of_get_add hget)
  · intro chars hchars index rules ruleset answer cache hroute hlookup
    exact h (hchars (index.eq_of_lookup_route hroute hlookup))

variable {la lb : List (List UInt8)}

theorem lower_wireName_eq_iff (ha : LabelsUpTo 63 la) (hb : LabelsUpTo 63 lb) :
    (wireName la).map toAsciiLowercase = (wireName lb).map toAsciiLowercase ↔
      lowerLabels la = lowerLabels lb := by
  rw [lower_wireName ha, lower_wireName hb]
  exact ⟨wireName_injective (sizes_lowerLabels ha) (sizes_lowerLabels hb), fun h => by rw [h]⟩

/-- Two accepted queries whose names are made of UTF-8 labels without dot bytes: their texts, verdicts and
routes keep the names apart up to letter case. -/
theorem plain_names_keptApart {pa pb : Packet} {infoA infoB : FastQueryInfo} {ta tb : List UInt8}
    (hpa : parseQueryFast pa = .ok infoA) (hpb : parseQueryFast pb = .ok infoB)
    (ha : QueryShape pa la ta) (hb : QueryShape pb lb tb) (hplainA : PlainName la) (hplainB : PlainName lb) :
    ∃ qa qb, qnameFromQuestion pa infoA.questionEnd = .ok qa ∧
      qnameFromQuestion pb infoB.questionEnd = .ok qb ∧
      KeptApart qa qb ((wireName la).map toAsciiLowercase = (wireName lb).map toAsciiLowercase) := by
  obtain ⟨-, -, qa, hqa, hbytesA⟩ := (parseQueryFast_walks pa).2 infoA hpa la ta ha
  obtain ⟨-, -, qb, hqb, hbytesB⟩ := (parseQueryFast_walks pb).2 infoB hpb lb tb hb
  refine ⟨qa, qb, hqa, hqb, keptApart_iff.mpr fun heq => ?_⟩
  have htext : routingName la = routingName lb := by rw [← hbytesA, ← hbytesB, heq]
  -- of plain labels the pieces between dots are the labels themselves
  have hpieces := (routingName_eq_iff ha.sizes hb.sizes).mp htext
  rw [hplainA.pieces_eq, hplainB.pieces_eq] at hpieces
  exact (lower_wireName_eq_iff ha.sizes hb.sizes).mpr hpieces

/-! ### Two names with one text -/

/-- A query for the A records of a name. -/
def queryFor (labels : List (List UInt8)) : Packet := syntheticHeader ++ wireName labels ++ [0, 1, 0, 1]

/-- Both queries are accepted, their names differ, and a verdict for the first is found for the second. -/
def SharesVerdict (la lb : List (List UInt8)) : Prop :=
  ∃ infoA infoB qa qb, parseQueryFast (queryFor la) = .ok infoA ∧ parseQueryFast (queryFor lb) = .ok infoB ∧
    qnameFromQuestion (queryFor la) infoA.questionEnd = .ok qa ∧
    qnameFromQuestion (queryFor lb) infoB.questionEnd = .ok qb ∧
    ((VerdictCache.new (some (16, 60))).add 5 qa true).get 6 qb = some true ∧
    (wireName la).map toAsciiLowercase ≠ (wireName lb).map toAsciiLowercase

theorem sharesVerdict_of_pieces {ta tb : List UInt8}
    (ha : QueryShape (queryFor la) la ta) (hb : QueryShape (queryFor lb) lb tb)
    (hpieces : pieces la = pieces lb) (hdiffer : lowerLabels la ≠ lowerLabels lb) :
    SharesVerdict la lb := by
  obtain ⟨infoA, hinfoA, -⟩ := ha.accepted
  obtain ⟨infoB, hinfoB, -⟩ := hb.accepted
  obtain ⟨-, -, qa, hqa, hbytesA⟩ := (parseQueryFast_walks _).2 infoA hinfoA la ta ha
  obtain ⟨-, -, qb, hqb, hbytesB⟩ := (parseQueryFast_walks _).2 infoB hinfoB lb tb hb
  have htext : qa = qb :=
    Utf8.Text.eq_of_bytes (hbytesA.trans ((routingName_eq_iff ha.sizes hb.sizes).mpr hpieces |>.trans hbytesB.symm))
  refine ⟨infoA, infoB, qa, qb, hinfoA, hinfoB, hqa, hqb, ?_,
    fun h => hdiffer ((lower_wireName_eq_iff ha.sizes hb.sizes).mp h)⟩
  subst htext
  have hfound : ((∅ : VerdictMap).insert qa ⟨true, 5⟩).lookup qa = some ⟨true, 5⟩ := AList.lookup_insert _
  simp only [VerdictCache.new, VerdictCache.add, VerdictCache.get, VerdictCache.isExpired,
    OfNat.ofNat_ne_zero, if_false, Option.map_some, Option.bind_some, hfound]
  rfl

theorem pieces_of_dot {a b : List UInt8} (h : Utf8.valid (a ++ 46 :: b) = true) :
    pieces [a ++ 46 :: b] = pieces [a, b] := by
  obtain ⟨ha, hb⟩ := Utf8.valid_of_append_ascii (by decide) h
  have hcut := splitOn_intercalate_parts 46 (show [a.map toAsciiLowercase, b.map toAsciiLowercase] ≠ [] by simp)
  simpa [pieces, Utf8.lossy_of_valid, h, ha, hb, toAsciiLowercase] using hcut

/-- Every name with a dot byte inside a label shares its verdict with another one, in which the label is cut
there. -/
theorem sharesVerdict_of_dot {front back : List (List UInt8)} {a b : List UInt8}
    (hsizes : LabelsUpTo 63 (front ++ (a ++ 46 :: b) :: back))
    (hlimit : (wireName (front ++ (a ++ 46 :: b) :: back)).length ≤ 255)
    (hvalid : Utf8.valid (a ++ 46 :: b) = true) (ha : a ≠ []) (hb : b ≠ []) :
    SharesVerdict (front ++ (a ++ 46 :: b) :: back) (front ++ a :: b :: back) := by
  have hposA := List.length_pos_iff.mpr ha
  have hposB := List.length_pos_iff.mpr hb
  have hlabel := (hsizes (a ++ 46 :: b) (by simp)).2
  rw [List.length_append, List.length_cons] at hlabel
  have hsizes' : LabelsUpTo 63 (front ++ a :: b :: back) := by
    intro l hl
    simp only [List.mem_append, List.mem_cons] at hl
    rcases hl with hl | rfl | rfl | hl
    · exact hsizes l (by simp [hl])
    · omega
    · omega
    · exact hsizes l (by simp [hl])
  -- the dot byte makes room for the second length byte
  have hlimit' : (wireName (front ++ a :: b :: back)).length ≤ 255 := by
    simp only [length_wireName, List.map_append, List.map_cons, List.sum_append, List.sum_cons,
      List.length_append, List.length_cons] at hlimit ⊢
    omega
  refine sharesVerdict_of_pieces (queryShape_synthetic hsizes hlimit (Nat.le_refl 4))
    (queryShape_synthetic hsizes' hlimit' (Nat.le_refl 4)) ?_ ?_
  · have hcut := pieces_of_dot hvalid
    simp only [pieces, List.flatMap_append, List.flatMap_cons, List.flatMap_nil, List.append_nil] at hcut ⊢
    rw [hcut, List.append_assoc]
  · intro h
    have hlength := congrArg List.length h
    simp only [lowerLabels, List.length_map, List.length_append, List.length_cons] at hlength
    omega

/-- One label `a.b` and the labels `a` and `b`; two labels of one byte that is no UTF-8. -/
theorem names_share_verdict :
    SharesVerdict [[97, 46, 98]] [[97], [98]] ∧ SharesVerdict [[0xff]] [[0xfe]] := by
  constructor
  · exact @sharesVerdict_of_dot [] [] [97] [98] (by decide) (by decide)
      (by decide +kernel) (by simp) (by simp)
  · exact sharesVerdict_of_pieces (queryShape_synthetic (by decide) (by decide) (by decide))
      (queryShape_synthetic (by decide) (by decide) (by decide)) (by decide +kernel) (by decide +kernel)

/-- The names `a` and `b` are kept apart. -/
theorem plain_names_keptApart_letters : ∃ infoA infoB,
    parseQueryFast (queryFor [[97]]) = .ok infoA ∧ parseQueryFast (queryFor [[98]]) = .ok infoB ∧
    ∃ qa qb, qnameFromQuestion (queryFor [[97]]) infoA.questionEnd = .ok qa ∧
      qnameFromQuestion (queryFor [[98]]) infoB.questionEnd = .ok qb ∧
      KeptApart qa qb ((wireName [[97]]).map toAsciiLowercase = (wireName [[98]]).map toAsciiLowercase) := by
  have ha : QueryShape (queryFor [[97]]) [[97]] [0, 1, 0, 1] :=
    queryShape_synthetic (by decide) (by decide) (by decide)
  have hb : QueryShape (queryFor [[98]]) [[98]] [0, 1, 0, 1] :=
    queryShape_synthetic (by decide) (by decide) (by decide)
  have hplain : ∀ b : UInt8, b = 97 ∨ b = 98 → PlainName [[b]] := by
    rintro b (rfl | rfl) l hl <;> rw [List.mem_singleton] at hl <;> subst hl <;> decide +kernel
  obtain ⟨infoA, hinfoA, -⟩ := ha.accepted
  obtain ⟨infoB, hinfoB, -⟩ := hb.accepted
  exact ⟨infoA, infoB, hinfoA, hinfoB,
    plain_names_keptApart hinfoA hinfoB ha hb (hplain 97 (.inl rfl)) (hplain 98 (.inr rfl))⟩

end PathDns
