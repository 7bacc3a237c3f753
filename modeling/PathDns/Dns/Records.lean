import PathDns.Dns.Ecs

/-!
# The records of a packet

Every loop over records goes from one to the next until one does not parse. The section walks, the search of
`locate_opt` and the list of OPT records are described here by the records such a loop can read. Records move
with their bytes (`readable_suffix`), and replacing the RDATA of one record changes that record alone
(`readable_splice`).
-/

namespace PathDns

open Bytes

/-- The record is an OPT record. -/
def Rr.isOpt (r : Rr) : Bool := r.rrType == 41

/-- Where a run of records from `pos` on ends. -/
def endOf (pos : Nat) (rs : List Rr) : Nat := (rs.getLast?.map Rr.rrEnd).getD pos

theorem endOf_cons (pos : Nat) (r : Rr) (rs : List Rr) : endOf pos (r :: rs) = endOf r.rrEnd rs := by
  cases rs with
  | nil => rfl
  | cons s rs => simp [endOf, List.getLast?_cons]

theorem endOf_append (pos : Nat) (rs ss : List Rr) : endOf pos (rs ++ ss) = endOf (endOf pos rs) ss := by
  induction rs generalizing pos with
  | nil => rfl
  | cons r rs ih => rw [List.cons_append, endOf_cons, endOf_cons, ih]

variable {packet p q : Packet} {n pos e : Nat} {r : Rr} {rs front back : List Rr}

theorem le_endOf (h : recordsFrom packet n pos = some rs) : pos ≤ endOf pos rs := by
  rw [endOf]
  cases hlast : rs.getLast? with
  | none => exact Nat.le_refl _
  | some r =>
    have := recordsFrom_bounds h r (List.mem_of_getLast? hlast)
    simp only [Option.map_some, Option.getD_some]
    omega

theorem recordsFrom_agree {k : Nat} (h : Agree k p q) (hrs : recordsFrom p n pos = some rs)
    (hend : endOf pos rs ≤ k) : recordsFrom q n pos = some rs := by
  induction rs generalizing n pos with
  | nil =>
    obtain rfl : 0 = n := (recordsFrom_eq_some_iff.mp hrs).2
    rfl
  | cons r rs ih =>
    rw [recordsFrom_eq_cons_iff] at hrs ⊢
    obtain ⟨m, rfl, hr, hrs⟩ := hrs
    rw [endOf_cons] at hend
    have hle := le_endOf hrs
    exact ⟨m, rfl, parseRr_agree h hr (by omega), ih hrs hend⟩

theorem recordsFrom_add (packet : Packet) (n m pos : Nat) :
    recordsFrom packet (n + m) pos = (recordsFrom packet n pos).bind (fun front =>
      (recordsFrom packet m (endOf pos front)).map (front ++ ·)) := by
  induction n generalizing pos with
  | zero => simp [recordsFrom, endOf]
  | succ n ih =>
    rw [Nat.add_right_comm, recordsFrom, recordsFrom]
    cases parseRr packet pos with
    | none => rfl
    | some r =>
      simp only [ih, Option.map_bind, Option.bind_map]
      congr 1
      funext front
      simp only [Function.comp_apply, Option.map_map, endOf_cons]
      rfl

theorem length_recordsFrom (h : recordsFrom packet n pos = some rs) : rs.length = n :=
  (recordsFrom_eq_some_iff.mp h).2

theorem recordsFrom_append (h : recordsFrom packet n pos = some (front ++ back)) :
    recordsFrom packet front.length pos = some front ∧
      recordsFrom packet back.length (endOf pos front) = some back := by
  have hlen := length_recordsFrom h
  rw [List.length_append] at hlen
  rw [← hlen, recordsFrom_add, Option.bind_eq_some_iff] at h
  obtain ⟨front', hfront, hback⟩ := h
  obtain ⟨back', hback', heq⟩ := Option.map_eq_some_iff.mp hback
  obtain ⟨rfl, rfl⟩ := List.append_inj heq (length_recordsFrom hfront)
  exact ⟨hfront, hback'⟩

theorem readable_of_le (h : packet.length ≤ pos) : readable packet n pos = [] := by
  cases n with
  | zero => rfl
  | succ n => rw [readable, parseRr_of_le h]

theorem length_readable_le (packet : Packet) (n pos : Nat) : (readable packet n pos).length ≤ n := by
  fun_induction readable packet n pos with
  | case1 => exact Nat.le_refl _
  | case2 => exact Nat.zero_le _
  | case3 n pos r hr ih =>
    rw [List.length_cons]
    exact Nat.succ_le_succ ih

theorem readable_take (packet : Packet) (n m pos : Nat) :
    (readable packet (n + m) pos).take n = readable packet n pos := by
  induction n generalizing pos with
  | zero => simp [readable]
  | succ n ih =>
    rw [Nat.add_right_comm, readable, readable]
    cases parseRr packet pos with
    | none => rfl
    | some r => simp only [List.take_succ_cons, ih]

/-! ### Moved and replaced bytes -/

variable {i j : Nat}

theorem drop_moved (h : p.drop i = q.drop j) {x : Nat} (hx : i ≤ x) : p.drop x = q.drop (x - i + j) := by
  obtain ⟨d, rfl⟩ := Nat.exists_eq_add_of_le hx
  rw [← List.drop_drop, h, List.drop_drop]
  congr 1
  omega

theorem Rr.shift_behind (hi : i ≤ e) (h1 : e ≤ r.nameEnd) (h2 : e ≤ r.rdataStart) (h3 : e ≤ r.rrEnd) :
    r.shift e (e - i + j) = r.shift i j := by
  simp only [shift, Rr.mk.injEq, true_and]
  omega

theorem Rr.shift_self (h1 : i ≤ r.nameEnd) (h2 : i ≤ r.rdataStart) (h3 : i ≤ r.rrEnd) : r.shift i i = r := by
  simp only [shift, Nat.sub_add_cancel h1, Nat.sub_add_cancel h2, Nat.sub_add_cancel h3]

theorem readable_suffix (hi : i ≤ p.length) (hj : j ≤ q.length) (h : p.drop i = q.drop j) :
    readable q n j = (readable p n i).map (Rr.shift i j) := by
  induction n generalizing i j with
  | zero => rfl
  | succ n ih =>
    rw [readable, readable, parseRr_suffix hi hj h]
    cases hr : parseRr p i with
    | none => rfl
    | some r =>
      have hb := parseRr_bounds hr
      have hlen : p.length - i = q.length - j := by
        simpa only [List.length_drop] using congrArg List.length h
      simp only [Option.map_some, Rr.shift, List.map_cons]
      rw [ih (by omega) (by omega) (drop_moved h (show i ≤ r.rrEnd by omega))]
      refine congrArg _ (List.map_congr_left fun s hs => ?_)
      have hs := readable_bounds hs
      exact Rr.shift_behind (by omega) (by omega) (by omega) (by omega)

theorem readable_tail (hp : pos ≤ p.length) (hq : pos ≤ q.length) (h : p.drop pos = q.drop pos) :
    readable q n pos = readable p n pos := by
  rw [readable_suffix hp hq h]
  refine (List.map_congr_left fun r hr => ?_).trans (List.map_id _)
  have hb := readable_bounds hr
  exact Rr.shift_self (by omega) (by omega) (by omega)

theorem recordsFrom_suffix (hi : i ≤ p.length) (hj : j ≤ q.length) (h : p.drop i = q.drop j)
    (hrs : recordsFrom p n i = some rs) : recordsFrom q n j = some (rs.map (Rr.shift i j)) := by
  obtain ⟨rfl, hlen⟩ := recordsFrom_eq_some_iff.mp hrs
  exact recordsFrom_eq_some_iff.mpr ⟨readable_suffix hi hj h, by rw [List.length_map, hlen]⟩

theorem slice_shift (h : p.drop i = q.drop j) (hi : i ≤ r.rdataStart) (hle : r.rdataStart ≤ r.rrEnd) :
    slice q (r.shift i j).rdataStart (r.shift i j).rrEnd = slice p r.rdataStart r.rrEnd := by
  simp only [Rr.shift]
  rw [slice, slice, ← drop_moved h hi]
  congr 1
  omega

/-- The record with an RDATA of `len` bytes. -/
def Rr.resize (r : Rr) (len : Nat) : Rr := { r with rrEnd := r.rdataStart + len }

/-- The records of a packet in which the RDATA of one record has been replaced. -/
theorem readable_splice {len : Nat} (h : readable p n pos = front ++ r :: back)
    (hagree : Agree (r.nameEnd + 8) p q) (hlen : u16be q (r.nameEnd + 8) = len)
    (hfit : r.rdataStart + len ≤ q.length) (htail : p.drop r.rrEnd = q.drop (r.rdataStart + len)) :
    readable q n pos = front ++ r.resize len :: back.map (Rr.shift r.rrEnd (r.rdataStart + len)) := by
  induction front generalizing n pos with
  | nil =>
    rw [List.nil_append, readable_eq_cons_iff] at h
    obtain ⟨m, rfl, hr, hback⟩ := h
    have hb := parseRr_bounds hr
    have hq : parseRr q pos = some (r.resize len) := by
      -- the fixed header up to RDLENGTH is the same, RDLENGTH is new
      obtain ⟨e, he, hend, rfl⟩ := parseRr_eq_some hr
      simp only at hagree hlen hfit
      have hu32 : u32be p (e + 4) = u32be q (e + 4) := by
        rw [u32be, u32be, hagree.u16be_eq (by omega), hagree.u16be_eq (by omega)]
      rw [parseRr, skipName_agree hagree he (by omega)]
      simp only [hlen, ← hagree.u16be_eq (show e + 1 < e + 8 by omega),
        ← hagree.u16be_eq (show e + 2 + 1 < e + 8 by omega), ← hu32]
      rw [if_neg (by omega), if_neg (by omega)]
      rfl
    rw [List.nil_append, readable_eq_cons_iff]
    refine ⟨m, rfl, hq, ?_⟩
    rw [Rr.resize, readable_suffix hb.2.2.2 hfit htail, hback]
  | cons f front ih =>
    rw [List.cons_append, readable_eq_cons_iff] at h ⊢
    obtain ⟨m, rfl, hf, hrest⟩ := h
    have hr := readable_bounds (show r ∈ readable p m f.rrEnd by simp [hrest])
    exact ⟨m, rfl, parseRr_agree hagree hf (by omega), ih hrest⟩

/-! ### The walks of `locate_opt` -/

theorem skipQuestions_succ_eq_some :
    skipQuestions p (n + 1) pos = some e ↔
      ∃ nameEnd, skipName p pos = some nameEnd ∧ nameEnd + 4 ≤ p.length ∧
        skipQuestions p n (nameEnd + 4) = some e := by
  rw [skipQuestions]
  cases skipName p pos with
  | none => simp
  | some nameEnd =>
    simp only [Option.some.injEq, exists_eq_left']
    split_ifs with hfit
    · exact iff_of_false (by simp) fun h => absurd h.1 (by omega)
    · exact (and_iff_right (by omega)).symm

theorem skipQuestions_of_one (hone : u16be p 4 = 1) (hend : questionEnd p = some e) :
    skipQuestions p (u16be p 4) 12 = some e := by
  obtain ⟨nameEnd, hname, hroom, rfl⟩ := questionEnd_eq_some_iff.mp hend
  rw [hone]
  exact skipQuestions_succ_eq_some.mpr ⟨nameEnd, hname, hroom, rfl⟩

theorem skipQuestions_ge (h : skipQuestions p n pos = some e) : pos ≤ e := by
  induction n generalizing pos with
  | zero => exact (Option.some.inj h).le
  | succ n ih =>
    obtain ⟨nameEnd, hname, -, h⟩ := skipQuestions_succ_eq_some.mp h
    have := skipName_bounds hname
    have := ih h
    omega

theorem skipQuestions_agree {k : Nat} (h : Agree k p q) (hskip : skipQuestions p n pos = some e) (he : e ≤ k) :
    skipQuestions q n pos = some e := by
  induction n generalizing pos with
  | zero => exact hskip
  | succ n ih =>
    rw [skipQuestions_succ_eq_some] at hskip ⊢
    obtain ⟨nameEnd, hname, -, hskip⟩ := hskip
    have hle := skipQuestions_ge hskip
    have hright := h.right
    exact ⟨nameEnd, skipName_agree h hname (by omega), by omega, ih hskip⟩

theorem skipQuestions_tail (hp : pos ≤ p.length) (hq : pos ≤ q.length) (h : p.drop pos = q.drop pos) :
    skipQuestions q n pos = skipQuestions p n pos := by
  induction n generalizing pos with
  | zero => rfl
  | succ n ih =>
    have hlen : p.length - pos = q.length - pos := by
      simpa only [List.length_drop] using congrArg List.length h
    rw [skipQuestions, skipQuestions, skipName_suffix hp hq h]
    cases hname : skipName p pos with
    | none => rfl
    | some e =>
      have hb := skipName_bounds hname
      simp only [Option.map_some, Nat.sub_add_cancel (show pos ≤ e by omega),
        show q.length = p.length by omega]
      split_ifs with hfit
      · rfl
      · refine ih (by omega) (by omega) ?_
        rw [show e + 4 = pos + (e + 4 - pos) by omega, ← List.drop_drop, ← List.drop_drop, h]

theorem skipRecords_eq (packet : Packet) (n pos : Nat) :
    skipRecords packet n pos = (recordsFrom packet n pos).map (endOf pos) := by
  induction n generalizing pos with
  | zero => rfl
  | succ n ih =>
    rw [skipRecords, recordsFrom, parseRr]
    cases skipName packet pos with
    | none => rfl
    | some e =>
      simp only [← Nat.add_assoc]
      split_ifs with h10 hend
      · rfl
      · rfl
      · simp only [ih, Option.map_map]
        congr 1
        funext rs
        rw [Function.comp_apply, endOf_cons]

theorem skipRecords_eq_some_iff :
    skipRecords p n pos = some e ↔ ∃ rs, recordsFrom p n pos = some rs ∧ endOf pos rs = e := by
  rw [skipRecords_eq, Option.map_eq_some_iff]

theorem skipRecords_ge (h : skipRecords p n pos = some e) : pos ≤ e := by
  obtain ⟨rs, hrs, rfl⟩ := skipRecords_eq_some_iff.mp h
  exact le_endOf hrs

theorem skipRecords_agree {k : Nat} (h : Agree k p q) (hskip : skipRecords p n pos = some e) (he : e ≤ k) :
    skipRecords q n pos = some e := by
  obtain ⟨rs, hrs, rfl⟩ := skipRecords_eq_some_iff.mp hskip
  exact skipRecords_eq_some_iff.mpr ⟨rs, recordsFrom_agree h hrs he, rfl⟩

theorem readable_drop (packet : Packet) (n m pos : Nat) :
    (readable packet (n + m) pos).drop n = (skipRecords packet n pos).elim [] (readable packet m) := by
  rw [skipRecords_eq]
  induction n generalizing pos with
  | zero => rw [Nat.zero_add]; rfl
  | succ n ih =>
    rw [Nat.add_right_comm, readable, recordsFrom]
    cases parseRr packet pos with
    | none => rfl
    | some r => simp only [List.drop_succ_cons, ih, Option.map_map, Function.comp_def, endOf_cons]

theorem additionalStart_eq_some :
    additionalStart p = some pos ↔ ∃ mid, skipQuestions p (u16be p 4) 12 = some mid ∧
      skipRecords p (u16be p 6 + u16be p 8) mid = some pos := by
  rw [additionalStart]
  cases skipQuestions p (u16be p 4) 12 <;> simp

theorem additionalStart_ge (h : additionalStart p = some pos) : 12 ≤ pos := by
  obtain ⟨mid, hmid, hpos⟩ := additionalStart_eq_some.mp h
  exact (skipQuestions_ge hmid).trans (skipRecords_ge hpos)

theorem additionalStart_agree {k : Nat} (h : Agree k p q) (hk : 12 ≤ k) (hstart : additionalStart p = some pos)
    (hpos : pos ≤ k) : additionalStart q = some pos := by
  rw [additionalStart_eq_some] at hstart ⊢
  obtain ⟨mid, hmid, hskip⟩ := hstart
  have hle := skipRecords_ge hskip
  rw [← h.u16be_eq (show 4 + 1 < k by omega), ← h.u16be_eq (show 6 + 1 < k by omega),
    ← h.u16be_eq (show 8 + 1 < k by omega)]
  exact ⟨mid, skipQuestions_agree h hmid (by omega), skipRecords_agree h hskip hpos⟩

/-- The records of the additional section. -/
def additionalRecords (packet : Packet) : List Rr :=
  (additionalStart packet).elim [] (readable packet (u16be packet 10))

/-- The records of all sections are those of the answer and authority sections and the additional ones. -/
theorem readable_sections (h : skipQuestions p (u16be p 4) 12 = some e) :
    readable p (u16be p 6 + u16be p 8 + u16be p 10) e =
      readable p (u16be p 6 + u16be p 8) e ++ additionalRecords p := by
  have hstart : additionalStart p = skipRecords p (u16be p 6 + u16be p 8) e := by rw [additionalStart, h]
  rw [additionalRecords, hstart, ← readable_drop, ← readable_take p (u16be p 6 + u16be p 8) (u16be p 10) e,
    List.take_append_drop]

theorem mem_additionalRecords (h : r ∈ additionalRecords p) :
    ∃ mid, skipQuestions p (u16be p 4) 12 = some mid ∧
      r ∈ readable p (u16be p 6 + u16be p 8 + u16be p 10) mid := by
  cases hmid : skipQuestions p (u16be p 4) 12 with
  | none => simp [additionalRecords, additionalStart, hmid] at h
  | some mid => exact ⟨mid, rfl, readable_sections hmid ▸ List.mem_append_right _ h⟩

/-- The answers end before the additional section. -/
theorem answers_before (hquestions : skipQuestions p (u16be p 4) 12 = some e) (hr : r ∈ additionalRecords p) :
    ∃ rs, recordsFrom p (u16be p 6) e = some rs ∧ endOf e rs < r.nameEnd := by
  rw [additionalRecords, additionalStart, hquestions] at hr
  simp only [skipRecords_eq, recordsFrom_add] at hr
  cases hrs : recordsFrom p (u16be p 6) e with
  | none => simp [hrs] at hr
  | some rs =>
    refine ⟨rs, rfl, ?_⟩
    cases hrest : recordsFrom p (u16be p 8) (endOf e rs) with
    | none => simp [hrs, hrest] at hr
    | some rest =>
      simp only [hrs, hrest, Option.bind_some, Option.map_some, Option.elim_some, endOf_append] at hr
      exact (le_endOf hrest).trans_lt (readable_bounds hr).1

theorem locateOptLoop_eq (packet : Packet) (n pos : Nat) :
    (locateOptLoop packet n pos).join =
      ((readable packet n pos).find? Rr.isOpt).map (fun r => ⟨r.nameEnd, r.rdataStart, r.rrEnd⟩) := by
  induction n generalizing pos with
  | zero => rfl
  | succ n ih =>
    rw [locateOptLoop, readable, parseRr]
    cases skipName packet pos with
    | none => rfl
    | some e =>
      simp only
      split_ifs with h10 hend hopt
      · rfl
      · rfl
      · simp [Rr.isOpt, hopt]
      · simp [Rr.isOpt, beq_eq_false_iff_ne.mpr hopt, ih]

/-- `locate_opt` finds the first OPT record of the additional section. -/
theorem locateOpt_join (packet : Packet) :
    (locateOpt packet).join =
      ((additionalRecords packet).find? Rr.isOpt).map (fun r => ⟨r.nameEnd, r.rdataStart, r.rrEnd⟩) := by
  rw [locateOpt, additionalRecords]
  cases hstart : additionalStart packet with
  | none =>
    simp only
    split_ifs <;> rfl
  | some pos =>
    have hge := additionalStart_ge hstart
    simp only [Option.elim_some]
    split_ifs with hshort har
    · rw [readable_of_le (by omega)]
      rfl
    · rw [har]
      rfl
    · exact locateOptLoop_eq packet _ pos

theorem optRdatasFrom_eq (packet : Packet) (n pos : Nat) :
    optRdatasFrom packet n pos =
      ((readable packet n pos).filter Rr.isOpt).map (fun r => slice packet r.rdataStart r.rrEnd) := by
  induction n generalizing pos with
  | zero => rfl
  | succ n ih =>
    rw [optRdatasFrom, readable]
    cases parseRr packet pos with
    | none => rfl
    | some r =>
      simp only [ih, List.filter_cons, Rr.isOpt, beq_iff_eq]
      split_ifs <;> rfl

theorem optRdatas_eq (packet : Packet) :
    optRdatas packet =
      ((additionalRecords packet).filter Rr.isOpt).map (fun r => slice packet r.rdataStart r.rrEnd) := by
  rw [optRdatas, additionalRecords]
  cases additionalStart packet with
  | none => rfl
  | some pos => exact optRdatasFrom_eq packet _ pos

end PathDns
