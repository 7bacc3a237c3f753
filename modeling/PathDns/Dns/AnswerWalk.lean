import PathDns.Dns.OptData

/-!
# The answers of the cached copy

A response is cached under the ID zero and without the option data of its OPT record. What is read of its
answers does not change by that: the ID is in front of the question, and where the response has one
question the OPT record lies behind the answers.
-/

namespace PathDns

open Bytes

/-- The next `n` records from `pos` on are read alike in both packets. -/
def ReadAlike (p q : Packet) : Nat → Nat → Prop
  | 0, _ => True
  | n + 1, pos => parseRr q pos = parseRr p pos ∧ ∀ rr, parseRr p pos = some rr →
      slice q rr.rdataStart rr.rrEnd = slice p rr.rdataStart rr.rrEnd ∧ ReadAlike p q n rr.rrEnd

variable {p q : Packet} {n pos : Nat}

theorem ReadAlike.answerIpsLoop_eq (h : ReadAlike p q n pos) (ips : List IpAddr) :
    answerIpsLoop q n pos ips = answerIpsLoop p n pos ips := by
  induction n generalizing pos ips with
  | zero => rfl
  | succ n ih =>
    obtain ⟨hparse, hrest⟩ := h
    rw [answerIpsLoop, answerIpsLoop, hparse]
    cases hrr : parseRr p pos with
    | none => rfl
    | some rr =>
      obtain ⟨hrdata, hnext⟩ := hrest rr hrr
      simp only [hrdata, ih hnext]

theorem ReadAlike.answerRrTypesLoop_eq (h : ReadAlike p q n pos) (types : List Nat) :
    answerRrTypesLoop q n pos types = answerRrTypesLoop p n pos types := by
  induction n generalizing pos types with
  | zero => rfl
  | succ n ih =>
    obtain ⟨hparse, hrest⟩ := h
    rw [answerRrTypesLoop, answerRrTypesLoop, hparse]
    cases hrr : parseRr p pos with
    | none => rfl
    | some rr => simp only [ih (hrest rr hrr).2]

/-- All that a filter reads of a response is the same in both packets. -/
structure SameAnswers (questionEnd : Nat) (p q : Packet) : Prop where
  ips : answerIps q questionEnd = answerIps p questionEnd
  types : answerRrTypes q questionEnd = answerRrTypes p questionEnd
  rcode : rcode q = rcode p
  qclass : questionQclass q questionEnd = questionQclass p questionEnd

theorem SameAnswers.refl (questionEnd : Nat) (p : Packet) : SameAnswers questionEnd p p :=
  ⟨rfl, rfl, rfl, rfl⟩

theorem SameAnswers.trans {questionEnd : Nat} {r : Packet} (h : SameAnswers questionEnd p q)
    (h' : SameAnswers questionEnd q r) : SameAnswers questionEnd p r where
  ips := h'.ips.trans h.ips
  types := h'.types.trans h.types
  rcode := h'.rcode.trans h.rcode
  qclass := h'.qclass.trans h.qclass

variable {e : Nat}

theorem ReadAlike.sameAnswers (hp : 12 ≤ e ∧ e ≤ p.length) (hq : e ≤ q.length)
    (hheader : ∀ i, 2 ≤ i → i < e → byteAt q i = byteAt p i) (h : ReadAlike p q (u16be p 6) e) :
    SameAnswers e p q := by
  have hcount : u16be q 6 = u16be p 6 := by
    rw [u16be, u16be, hheader 6 (by omega) (by omega), hheader 7 (by omega) (by omega)]
  have hclass : u16be q (e - 2) = u16be p (e - 2) := by
    rw [u16be, u16be, hheader (e - 2) (by omega) (by omega), hheader (e - 2 + 1) (by omega) (by omega)]
  have hshortP : ¬ (p.length < 12 ∨ p.length < e) := by omega
  have hshortQ : ¬ (q.length < 12 ∨ q.length < e) := by omega
  exact {
    ips := by rw [answerIps, answerIps, if_neg hshortQ, if_neg hshortP, hcount, h.answerIpsLoop_eq]
    types := by
      rw [answerRrTypes, answerRrTypes, if_neg hshortQ, if_neg hshortP, hcount, h.answerRrTypesLoop_eq]
    rcode := by
      rw [PathDns.rcode, PathDns.rcode, if_neg (by omega), if_neg (by omega),
        hheader 3 (by omega) (by omega)]
    qclass := by
      rw [questionQclass, questionQclass, if_neg (by omega), if_neg (by omega), hclass] }

/-! ### The ID -/

theorem readAlike_setId (p : Packet) (id : Nat) (hpos : 2 ≤ pos) : ReadAlike p (setId p id) n pos := by
  induction n generalizing pos with
  | zero => trivial
  | succ n ih =>
    have hparse : parseRr (setId p id) pos = parseRr p pos := by
      by_cases hin : pos ≤ p.length
      · have hdrop : p.drop pos = (setId p id).drop pos := (drop_setId hpos).symm
        rw [parseRr_suffix hin (by rwa [length_setId]) hdrop]
        cases hrr : parseRr p pos with
        | none => rfl
        | some rr =>
          have hb := parseRr_bounds hrr
          rw [Option.map_some, Rr.shift_self (by omega) (by omega) (by omega)]
      · rw [parseRr_of_le (by rw [length_setId]; omega), parseRr_of_le (by omega)]
    refine ⟨hparse, ?_⟩
    intro rr hrr
    have hb := parseRr_bounds hrr
    refine ⟨?_, ih (by omega)⟩
    rw [slice, slice, drop_setId (by omega)]

theorem sameAnswers_setId {id : Nat} (he : 12 ≤ e ∧ e ≤ p.length) : SameAnswers e p (setId p id) := by
  refine ReadAlike.sameAnswers he (by rw [length_setId]; exact he.2) ?_ (readAlike_setId p id (by omega))
  intro i hi _
  exact byteAt_setId_out hi

theorem questionEnd_setId (p : Packet) (id : Nat) : questionEnd (setId p id) = questionEnd p := by
  rw [questionEnd, questionEnd, length_setId]
  split_ifs with hshort
  · rfl
  · have hdrop : p.drop 12 = (setId p id).drop 12 := (drop_setId (by omega)).symm
    rw [skipName_suffix (by omega) (by rw [length_setId]; omega) hdrop]
    cases hname : skipName p 12 with
    | none => rfl
    | some e =>
      have hb := skipName_bounds hname
      simp only [Option.map_some]
      rw [Nat.sub_add_cancel (by omega)]

/-! ### The option data -/

theorem sanitized_of_arcount (h : u16be p 10 = 0) : sanitized p = p := by
  rw [sanitized, stripOptRdata, locateOpt]
  split_ifs <;> simp [h]

theorem length_sanitized (p : Packet) : (sanitized p).length ≤ 2 * p.length + 2 := by
  rw [sanitized, stripOptRdata]
  split
  · split_ifs
    · simp only [Option.getD_none]
      omega
    · simp only [Option.getD_some, List.length_append, List.length_take, List.length_drop, length_encU16be]
      omega
  · simp only [Option.getD_none]
    omega

/-- Records that end within the bytes two packets share are read alike. -/
theorem readAlike_of_agree {k : Nat} {rs : List Rr} (h : Bytes.Agree k p q)
    (hrs : recordsFrom p n pos = some rs) (he : endOf pos rs ≤ k) : ReadAlike p q n pos := by
  induction rs generalizing n pos with
  | nil =>
    obtain rfl : 0 = n := length_recordsFrom hrs
    trivial
  | cons rr rs ih =>
    obtain ⟨m, rfl, hrr, hrs⟩ := recordsFrom_eq_cons_iff.mp hrs
    rw [endOf_cons] at he
    have hend : rr.rrEnd ≤ k := (le_endOf hrs).trans he
    refine ⟨by rw [hrr, parseRr_agree h hrr hend], ?_⟩
    intro rr' hrr'
    obtain rfl : rr = rr' := Option.some.inj (hrr.symm.trans hrr')
    exact ⟨h.slice_eq hend, ih hrs he⟩

/-- In a response with one question the OPT record lies behind the answers, so its option data is not
among what is read. -/
theorem sameAnswers_sanitized (hend : questionEnd p = some e) (hone : u16be p 4 = 1) :
    SameAnswers e p (sanitized p) ∧ e ≤ (sanitized p).length := by
  have hbounds := questionEnd_bounds hend
  have hself : SameAnswers e p p ∧ e ≤ p.length := ⟨.refl e p, hbounds.2⟩
  rw [sanitized, stripOptRdata_eq]
  cases hloc : (locateOpt p).join with
  | none => exact hself
  | some loc =>
    simp only [Option.bind_some]
    split_ifs with hempty
    · exact hself
    · obtain ⟨-, hrdata, hle, hlen⟩ := locateOpt_bounds hloc
      obtain ⟨r, hr, rfl⟩ := locateOpt_some hloc
      obtain ⟨rs, hrs, hbefore⟩ := answers_before (skipQuestions_of_one hone hend) hr
      have hge := le_endOf hrs
      rw [Option.getD_some, List.append_assoc]
      have hagree : Bytes.Agree (r.nameEnd + 8) p
          (p.take (r.nameEnd + 8) ++ (encU16be 0 ++ p.drop r.rrEnd)) :=
        .take_append (Nat.le_refl _) (by simp only at *; omega) _
      have hlong := le_trans (show e ≤ r.nameEnd + 8 by omega) hagree.right
      refine ⟨ReadAlike.sameAnswers ⟨by omega, hbounds.2⟩ hlong ?_ (readAlike_of_agree hagree hrs (by omega)),
        hlong⟩
      intro i _ hi
      exact (hagree.byteAt_eq (by omega)).symm

end PathDns
