import PathDns.Dns.Query

/-!
# When two questions are the same

`questions_match` walks both questions byte by byte. What it decides, on a question that `question_end`
cut out of a packet, is `SameQuestion`: two names with the same labels up to the case of ASCII letters,
followed by the same type and class. A name that ends in a compression pointer is never the same as
another one: the walk takes the pointer for a label of at least 192 bytes.
-/

namespace PathDns

open Bytes

/-- `question_end(packet).and_then(|end| packet.get(12..end)).unwrap_or(&[])`. -/
def responseQuestion (packet : Packet) : List UInt8 :=
  match questionEnd packet with
  | some e => if 12 ≤ e ∧ e ≤ packet.length then slice packet 12 e else []
  | none => []

/-- The labels of a name in lower case. -/
def lowerLabels (labels : List (List UInt8)) : List (List UInt8) :=
  labels.map (List.map toAsciiLowercase)

/-- Two questions with equal names up to letter case and the same four bytes of type and class. -/
def SameQuestion (a b : List UInt8) : Prop :=
  ∃ (la lb : List (List UInt8)) (typeClass : List UInt8),
    (∀ l ∈ la, 1 ≤ l.length ∧ l.length ≤ 63) ∧ typeClass.length = 4 ∧
    a = wireName la ++ typeClass ∧ b = wireName lb ++ typeClass ∧ lowerLabels la = lowerLabels lb

/-! ### Names with equal labels -/

theorem lowerLabels_cons (l : List UInt8) (ls : List (List UInt8)) :
    lowerLabels (l :: ls) = l.map toAsciiLowercase :: lowerLabels ls := rfl

variable {la lb : List (List UInt8)}

theorem lowerLabels_cons_eq {l : List UInt8} (h : lowerLabels (l :: la) = lowerLabels lb) :
    ∃ m ms, lb = m :: ms ∧ l.map toAsciiLowercase = m.map toAsciiLowercase ∧
      lowerLabels la = lowerLabels ms := by
  cases lb with
  | nil => simp [lowerLabels] at h
  | cons m ms =>
    rw [lowerLabels_cons, lowerLabels_cons, List.cons.injEq] at h
    exact ⟨m, ms, rfl, h.1, h.2⟩

theorem length_eq_of_map_eq {x y : List UInt8}
    (h : x.map toAsciiLowercase = y.map toAsciiLowercase) : x.length = y.length := by
  simpa using congrArg List.length h

theorem of_lowerLabels_eq {n : Nat} (h : lowerLabels la = lowerLabels lb) (hla : LabelsUpTo n la) :
    LabelsUpTo n lb := by
  intro l hl
  have hmem : l.map toAsciiLowercase ∈ lowerLabels la := h ▸ List.mem_map_of_mem hl
  obtain ⟨m, hm, heq⟩ := List.mem_map.mp hmem
  rw [← length_eq_of_map_eq heq]
  exact hla m hm

theorem length_wireName_eq (h : lowerLabels la = lowerLabels lb) :
    (wireName la).length = (wireName lb).length := by
  induction la generalizing lb with
  | nil =>
    obtain rfl : lb = [] := by simpa [lowerLabels] using h.symm
    rfl
  | cons l ls ih =>
    obtain ⟨m, ms, rfl, hlabel, hrest⟩ := lowerLabels_cons_eq h
    rw [length_wireName_cons, length_wireName_cons, ih hrest, length_eq_of_map_eq hlabel]

/-! ### The bytes of questions that are the same -/

theorem eq_of_lower_eq {x y : UInt8} (hy : y.toNat ≤ 63) (h : toAsciiLowercase x = toAsciiLowercase y) :
    x = y := by
  rw [toAsciiLowercase_length hy, toAsciiLowercase] at h
  split_ifs at h with hletter
  · have hlo := UInt8.le_iff_toNat_le.mp hletter.1
    have hhi := UInt8.le_iff_toNat_le.mp hletter.2
    have hsum := congrArg UInt8.toNat h
    rw [UInt8.toNat_add] at hsum
    simp at hlo hhi hsum
    omega
  · exact h

variable {a : List UInt8} {labels : List (List UInt8)}

/-- Bytes that agree with a wire name and four bytes up to case are a name with the same labels up to
case and four such bytes. -/
theorem names_of_lower {typeClass : List UInt8} (hlabels : LabelsUpTo 63 labels)
    (h : a.map toAsciiLowercase = (wireName labels ++ typeClass).map toAsciiLowercase) :
    ∃ la t, a = wireName la ++ t ∧ lowerLabels la = lowerLabels labels ∧
      t.map toAsciiLowercase = typeClass.map toAsciiLowercase := by
  induction labels generalizing a with
  | nil =>
    cases a with
    | nil => simp [wireName] at h
    | cons x a =>
      simp only [wireName, List.flatMap_nil, List.nil_append, List.singleton_append, List.map_cons,
        List.cons.injEq] at h
      obtain rfl := eq_of_lower_eq (by decide) h.1
      exact ⟨[], a, rfl, rfl, h.2⟩
  | cons l labels ih =>
    cases a with
    | nil => simp [wireName_cons] at h
    | cons x a =>
      have hmax := (hlabels l List.mem_cons_self).2
      have hnat : (UInt8.ofNat l.length).toNat = l.length := toNat_ofNat_length (by omega)
      rw [wireName_cons, List.cons_append, List.cons_append, List.append_assoc, List.map_cons,
        List.map_cons, List.map_append, List.cons.injEq] at h
      obtain rfl := eq_of_lower_eq (by omega) h.1
      obtain ⟨l', rest, rfl, hl', hrest⟩ := List.map_eq_append_iff.mp h.2
      obtain ⟨la, t, rfl, hlow, ht⟩ := ih (fun m hm => hlabels m (List.mem_cons_of_mem _ hm)) hrest
      refine ⟨l' :: la, t, ?_, ?_, ht⟩
      · rw [wireName_cons, length_eq_of_map_eq hl']
        simp
      · rw [lowerLabels_cons, lowerLabels_cons, hl', hlow]

/-- The last four bytes of a question: its type and class. -/
def typeClassOf (question : List UInt8) : List UInt8 := question.drop (question.length - 4)

variable {t : List UInt8}

theorem typeClassOf_append {name : List UInt8} (h : t.length = 4) : typeClassOf (name ++ t) = t := by
  rw [typeClassOf, List.length_append, h, Nat.add_sub_cancel, List.drop_left]

theorem lower_wireName (h : LabelsUpTo 63 labels) :
    (wireName labels).map toAsciiLowercase = wireName (lowerLabels labels) := by
  induction labels with
  | nil => rfl
  | cons l labels ih =>
    have hmax := (h l (List.mem_cons_self ..)).2
    have hnat : (UInt8.ofNat l.length).toNat = l.length := toNat_ofNat_length (by omega)
    rw [lowerLabels_cons, wireName_cons, wireName_cons, List.cons_append, List.cons_append, List.map_cons,
      List.map_append, ih (fun m hm => h m (List.mem_cons_of_mem _ hm)), List.length_map,
      toAsciiLowercase_length (by omega)]

variable {b : List UInt8}

theorem SameQuestion.lower (h : SameQuestion a b) : a.map toAsciiLowercase = b.map toAsciiLowercase := by
  obtain ⟨la, lb, typeClass, hla, -, rfl, rfl, hlow⟩ := h
  rw [List.map_append, List.map_append, lower_wireName hla,
    lower_wireName (of_lowerLabels_eq hlow hla), hlow]

theorem SameQuestion.typeClassOf_eq (h : SameQuestion a b) : typeClassOf a = typeClassOf b := by
  obtain ⟨la, lb, typeClass, -, hfour, rfl, rfl, -⟩ := h
  rw [typeClassOf_append hfour, typeClassOf_append hfour]

/-- A question is the same as one with a name of short labels when it has the same bytes up to case, and
the same type and class. -/
theorem sameQuestion_iff_lower {typeClass : List UInt8} (hlabels : LabelsUpTo 63 labels)
    (hfour : typeClass.length = 4) :
    SameQuestion a (wireName labels ++ typeClass) ↔
      a.map toAsciiLowercase = (wireName labels ++ typeClass).map toAsciiLowercase ∧
        typeClassOf a = typeClass := by
  constructor
  · intro h
    exact ⟨h.lower, h.typeClassOf_eq.trans (typeClassOf_append hfour)⟩
  · rintro ⟨hlower, htype⟩
    obtain ⟨la, t, rfl, hlow, ht⟩ := names_of_lower hlabels hlower
    rw [typeClassOf_append (by rw [length_eq_of_map_eq ht, hfour])] at htype
    exact ⟨la, labels, typeClass, of_lowerLabels_eq hlow.symm hlabels, hfour, by rw [htype], rfl, hlow⟩

theorem SameQuestion.trans {c : List UInt8} (hab : SameQuestion a b) (hbc : SameQuestion b c) :
    SameQuestion a c := by
  have hlower := hab.lower.trans hbc.lower
  have htype := hab.typeClassOf_eq.trans hbc.typeClassOf_eq
  obtain ⟨lb, lc, typeClass, hlb, hfour, -, rfl, hlow⟩ := hbc
  rw [typeClassOf_append hfour] at htype
  exact (sameQuestion_iff_lower (of_lowerLabels_eq hlow hlb) hfour).mpr ⟨hlower, htype⟩

/-! ### The walk over the labels -/

variable {pos : Nat}

theorem drop_of_getElem? {c : UInt8} (h : a[pos]? = some c) : a.drop pos = c :: a.drop (pos + 1) := by
  rw [List.drop_eq_getElem?_toList_append, h]
  rfl

/-- A walk over `n` bytes succeeds exactly on two stretches of that length, equal up to case. -/
theorem labelsMatch_iff {n : Nat} :
    labelsMatch a b n pos = true ↔ ∃ x y ra rb, a.drop pos = x ++ ra ∧ b.drop pos = y ++ rb ∧
      x.length = n ∧ x.map toAsciiLowercase = y.map toAsciiLowercase := by
  induction n generalizing pos with
  | zero =>
    refine ⟨fun _ => ⟨[], [], a.drop pos, b.drop pos, rfl, rfl, rfl, rfl⟩, fun _ => rfl⟩
  | succ n ih =>
    rw [labelsMatch]
    constructor
    · intro h
      split at h
      · next c d hc hd =>
        rw [Bool.and_eq_true, ih] at h
        obtain ⟨hcd, x, y, ra, rb, hx, hy, hlen, hlow⟩ := h
        have hcd' : toAsciiLowercase c = toAsciiLowercase d := by
          simpa [eqIgnoreAsciiCase] using hcd
        refine ⟨c :: x, d :: y, ra, rb, ?_, ?_, by simp [hlen], by simp [hlow, hcd']⟩
        · rw [drop_of_getElem? hc, hx, List.cons_append]
        · rw [drop_of_getElem? hd, hy, List.cons_append]
      · simp at h
    · rintro ⟨x, y, ra, rb, hx, hy, hlen, hlow⟩
      obtain ⟨c, x, rfl⟩ : ∃ c x', x = c :: x' := List.exists_cons_of_length_eq_add_one hlen
      obtain ⟨d, y, rfl⟩ : ∃ d y', y = d :: y' :=
        List.exists_cons_of_length_eq_add_one ((length_eq_of_map_eq hlow).symm.trans hlen)
      rw [List.map_cons, List.map_cons, List.cons.injEq] at hlow
      obtain ⟨hc, -⟩ := byteAt_eq_of_drop hx
      obtain ⟨hd, -⟩ := byteAt_eq_of_drop hy
      rw [hc, hd]
      simp only [Bool.and_eq_true]
      refine ⟨by simpa [eqIgnoreAsciiCase] using hlow.1, ih.mpr ⟨x, y, ra, rb, ?_, ?_, ?_, hlow.2⟩⟩
      · exact drop_add_of_drop (x := [c]) hx rfl
      · exact drop_add_of_drop (x := [d]) hy rfl
      · simpa using hlen

theorem names_of_questionsMatchLoop {qnameEnd fuel : Nat}
    (h : questionsMatchLoop a b qnameEnd fuel pos = true) :
    ∃ la lb ra rb, a.drop pos = wireName la ++ ra ∧ b.drop pos = wireName lb ++ rb ∧
      LabelsUpTo 255 la ∧ lowerLabels la = lowerLabels lb := by
  fun_induction questionsMatchLoop a b qnameEnd fuel pos
  case case4 hb ha hne =>
    obtain rfl := not_not.mp hne
    exact ⟨[], [], _, _, drop_of_getElem? ha, drop_of_getElem? hb, List.forall_mem_nil _, rfl⟩
  case case5 n m hb ha hne hzero ih =>
    obtain rfl := not_not.mp hne
    rw [Bool.and_eq_true, labelsMatch_iff] at h
    obtain ⟨⟨x, y, sa, sb, hx, hy, hlen, hlow⟩, hrest⟩ := h
    obtain ⟨la, lb, ra, rb, hra, hrb, hla, hlab⟩ := ih hrest
    have hylen : y.length = n.toNat := (length_eq_of_map_eq hlow).symm.trans hlen
    rw [drop_add_of_drop hx hlen] at hra
    rw [drop_add_of_drop hy hylen] at hrb
    have hbyte : n.toNat < 256 := UInt8.toNat_lt n
    have hpos : n.toNat ≠ 0 := fun h0 => hzero (UInt8.toNat_inj.mp h0)
    refine ⟨x :: la, y :: lb, ra, rb, ?_, ?_, List.forall_mem_cons.mpr ⟨by omega, hla⟩, ?_⟩
    · rw [drop_of_getElem? ha, hx, hra, wireName_cons, hlen, UInt8.ofNat_toNat]
      simp
    · rw [drop_of_getElem? hb, hy, hrb, wireName_cons, hylen, UInt8.ofNat_toNat]
      simp
    · rw [lowerLabels_cons, lowerLabels_cons, hlow, hlab]
  all_goals cases h

theorem questionsMatchLoop_of_names {ra rb : List UInt8} {qnameEnd fuel : Nat} (hlabels : LabelsUpTo 255 la)
    (ha : a.drop pos = wireName la ++ ra) (hb : b.drop pos = wireName lb ++ rb)
    (hlow : lowerLabels la = lowerLabels lb) (hfuel : la.length < fuel)
    (hend : pos + (wireName la).length ≤ qnameEnd) : questionsMatchLoop a b qnameEnd fuel pos = true := by
  induction la generalizing lb fuel pos with
  | nil =>
    obtain rfl : lb = [] := by simpa [lowerLabels] using hlow.symm
    obtain ⟨k, rfl⟩ := Nat.exists_eq_add_of_lt hfuel
    rw [questionsMatchLoop, if_neg (by omega), (root_at ha).1, (root_at hb).1]
    rfl
  | cons l ls ih =>
    obtain ⟨m, ms, rfl, hlabel, hrest⟩ := lowerLabels_cons_eq hlow
    obtain ⟨hl, hls⟩ := List.forall_mem_cons.mp hlabels
    obtain ⟨k, rfl⟩ := Nat.exists_eq_add_of_lt hfuel
    have hm : m.length = l.length := (length_eq_of_map_eq hlabel).symm
    have hata := label_at ha hl
    have hatb := label_at hb (hm ▸ hl)
    have hnext := hatb.next
    rw [hm] at hnext
    rw [length_wireName_cons] at hend
    rw [questionsMatchLoop, if_neg (by omega), hata.get, hatb.get, hm]
    simp only [ne_eq, not_true, if_false, hata.ne_zero, hata.toNat, Bool.and_eq_true]
    exact ⟨labelsMatch_iff.mpr ⟨l, m, _, _, hata.row, hatb.row, rfl, hlabel⟩,
      ih hls hata.next hnext hrest (by simp; omega) (by omega)⟩

theorem names_of_questionsMatch (h : questionsMatch a b = true) :
    ∃ la lb ra rb, a = wireName la ++ ra ∧ b = wireName lb ++ rb ∧ LabelsUpTo 255 la ∧
      lowerLabels la = lowerLabels lb ∧ ra.length = rb.length ∧ (ra.length = 4 → ra = rb) := by
  have hlen := questionsMatch_length h
  rw [questionsMatch] at h
  split_ifs at h with hshort htail
  obtain ⟨la, lb, ra, rb, ha, hb, hla, hlow⟩ := names_of_questionsMatchLoop h
  rw [List.drop_zero] at ha hb
  have htails : ra.length = rb.length := by
    rw [ha, hb, List.length_append, List.length_append, length_wireName_eq hlow] at hlen
    omega
  refine ⟨la, lb, ra, rb, ha, hb, hla, hlow, htails, fun hfour => ?_⟩
  have htype : typeClassOf a = typeClassOf b := not_not.mp htail
  rwa [ha, hb, typeClassOf_append hfour, typeClassOf_append (htails ▸ hfour)] at htype

/-- Against a name of short labels `questions_match` finds questions that are the same. -/
theorem sameQuestion_of_match {typeClass : List UInt8} (hlabels : LabelsUpTo 63 labels)
    (hfour : typeClass.length = 4) (h : questionsMatch a (wireName labels ++ typeClass) = true) :
    SameQuestion a (wireName labels ++ typeClass) := by
  obtain ⟨la, lb, ra, rb, rfl, hb, hla, hlow, htails, htype⟩ := names_of_questionsMatch h
  have hlb : LabelsUpTo 255 lb := of_lowerLabels_eq hlow hla
  obtain ⟨rfl, rfl⟩ := wireName_append_inj (hlabels.mono (by decide)) hlb hb
  exact ⟨la, labels, typeClass, of_lowerLabels_eq hlow.symm hlabels, hfour, by rw [htype (htails.trans hfour)],
    rfl, hlow⟩

/-! ### The name `skip_name` finds and the name the walk finds -/

theorem and_top_bits_of_gt : ∀ n : Nat, n ≤ 255 → 63 < n → UInt8.ofNat n &&& 0xc0 ≠ 0 := by
  decide +kernel

theorem ge_of_and_top_bits :
    ∀ n : Nat, n ≤ 255 → UInt8.ofNat n &&& 0xc0 = 0xc0 → 192 ≤ n := by
  decide +kernel

variable {packet : Packet}

/-- `skip_name` ends where a plain name ends, or early, at a byte that it takes for a pointer. -/
theorem skipNameLoop_names {rest : Packet} {fuel e : Nat} (hlabels : LabelsUpTo 255 labels)
    (hdrop : packet.drop pos = wireName labels ++ rest) (h : skipNameLoop packet fuel pos = some e) :
    (LabelsUpTo 63 labels ∧ e = pos + (wireName labels).length) ∨ e + 4 < pos + (wireName labels).length := by
  induction labels generalizing fuel pos with
  | nil =>
    cases fuel with
    | zero => cases h
    | succ fuel =>
      rw [skipNameLoop, (root_at hdrop).1] at h
      cases h
      exact .inl ⟨List.forall_mem_nil _, rfl⟩
  | cons l ls ih =>
    cases fuel with
    | zero => cases h
    | succ fuel =>
      obtain ⟨hl, hls⟩ := List.forall_mem_cons.mp hlabels
      have hat := label_at hdrop hl
      rw [skipNameLoop, hat.get] at h
      simp only [hat.toNat, if_neg hat.ne_zero] at h
      rw [length_wireName_cons]
      split_ifs at h with hptr hres hroom
      · -- a pointer: the walk takes its first byte for the length of a label
        have hlong := ge_of_and_top_bits l.length hl.2 hptr
        split at h
        · cases h
        · cases h
          omega
      · have hshort : l.length ≤ 63 := by
          by_contra hgt
          exact and_top_bits_of_gt l.length hl.2 (by omega) (by simpa using hres)
        rcases ih hls hat.next h with ⟨hls, he⟩ | he
        · exact .inl ⟨List.forall_mem_cons.mpr ⟨⟨hl.1, hshort⟩, hls⟩, by omega⟩
        · exact .inr (by omega)

theorem responseQuestion_of_questionEnd {e : Nat} (h : questionEnd packet = some e) :
    responseQuestion packet = slice packet 12 e := by
  have hb := questionEnd_bounds h
  rw [responseQuestion, h]
  exact if_pos ⟨by omega, hb.2⟩

theorem questionEnd_of_questionsMatch {question : List UInt8}
    (h : questionsMatch (responseQuestion packet) question = true) : ∃ e, questionEnd packet = some e := by
  rw [responseQuestion] at h
  split at h
  · next e he => exact ⟨e, he⟩
  · simp [questionsMatch] at h

/-- On the question of a packet, `questions_match` decides `SameQuestion`. -/
theorem questionsMatch_iff {question : List UInt8} :
    questionsMatch (responseQuestion packet) question = true ↔
      SameQuestion (responseQuestion packet) question := by
  constructor
  · intro h
    obtain ⟨e, hend⟩ := questionEnd_of_questionsMatch h
    obtain ⟨n, hskip, hroom, rfl⟩ := questionEnd_eq_some_iff.mp hend
    have hbounds := skipName_bounds hskip
    have hq := responseQuestion_of_questionEnd hend
    obtain ⟨la, lb, ra, rb, ha, hb, hla, hlow, htails, htype⟩ := names_of_questionsMatch h
    have hpacket : packet.drop 12 = wireName la ++ (ra ++ packet.drop (n + 4)) := by
      rw [← List.append_assoc, ← ha, hq, slice_append_drop (by omega)]
    have hsum := congrArg List.length (hq.symm.trans ha)
    rw [length_slice hroom, List.length_append] at hsum
    -- the walk cannot go past the name that `skip_name` found
    rcases skipNameLoop_names hla hpacket hskip with ⟨hshorts, he⟩ | he
    · have hra : ra.length = 4 := by omega
      exact ⟨la, lb, ra, hshorts, hra, ha, by rw [hb, htype hra], hlow⟩
    · omega
  · rintro ⟨la, lb, typeClass, hla, hfour, ha, hb, hlow⟩
    have hwire := length_wireName_eq hlow
    have hcount := length_le_wireName la
    rw [questionsMatch, ha, hb, List.length_append, List.length_append, hfour, if_neg (by omega),
      Nat.add_sub_cancel, Nat.add_sub_cancel, List.drop_left, List.drop_left, if_neg (by simp)]
    exact questionsMatchLoop_of_names (LabelsUpTo.mono hla (by decide)) List.drop_zero List.drop_zero hlow
      (by omega) (by omega)

/-- A question that matches that of an accepted query agrees with it in every byte, up to the case of
letters. -/
theorem AcceptedQuery.question_lower {query : Packet} {fast : FastQueryInfo} (hq : AcceptedQuery query fast)
    (h : questionsMatch a (slice query 12 fast.questionEnd) = true) :
    ∀ i, i < fast.questionEnd - 12 →
      toAsciiLowercase (byteAt a i) = toAsciiLowercase (byteAt query (12 + i)) := by
  obtain ⟨labels, typeClass, hlabels, hfour, hquestion⟩ := hq.question_eq
  have hlen := questionsMatch_length h
  rw [hquestion] at h
  have hlower := (sameQuestion_of_match hlabels hfour h).lower
  rw [← hquestion] at hlower
  rw [length_slice hq.questionEnd_le] at hlen
  intro i hi
  rw [← byteAt_slice hi, ← byteAt_map (f := toAsciiLowercase) (by omega), hlower,
    byteAt_map (by rwa [length_slice hq.questionEnd_le])]

theorem AcceptedQuery.questionEnd_of_same {query : Packet} {fast : FastQueryInfo}
    (hq : AcceptedQuery query fast)
    (h : SameQuestion (responseQuestion packet) (slice query 12 fast.questionEnd)) :
    questionEnd packet = some fast.questionEnd := by
  have hge := hq.questionEnd_ge
  have hlen := length_eq_of_map_eq h.lower
  rw [length_slice hq.questionEnd_le, responseQuestion] at hlen
  split at hlen
  · next e hend =>
    have hb := questionEnd_bounds hend
    rw [if_pos ⟨by omega, hb.2⟩, length_slice hb.2] at hlen
    rw [hend, Option.some.injEq]
    omega
  · rw [List.length_nil] at hlen
    omega

end PathDns
