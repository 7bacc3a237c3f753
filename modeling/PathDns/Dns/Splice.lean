import PathDns.Dns.Sections

/-!
# Replacing the RDATA of a record

Both strippers of `dns/ecs.rs` replace the RDATA of one OPT record and its RDLENGTH and leave every other
byte alone. What they return, and that there is nothing left to strip in it, follows from how the records of
such a packet are read.
-/

namespace PathDns

open Bytes

variable {packet p q : Packet} {n pos i : Nat} {r : Rr} {rs front back : List Rr}

theorem recordsFrom_splice {len : Nat} (h : recordsFrom p n pos = some (front ++ r :: back))
    (hagree : Agree (r.nameEnd + 8) p q) (hlen : u16be q (r.nameEnd + 8) = len)
    (hfit : r.rdataStart + len ≤ q.length) (htail : p.drop r.rrEnd = q.drop (r.rdataStart + len)) :
    recordsFrom q n pos =
      some (front ++ r.resize len :: back.map (Rr.shift r.rrEnd (r.rdataStart + len))) := by
  obtain ⟨hreadable, rfl⟩ := recordsFrom_eq_some_iff.mp h
  refine recordsFrom_eq_some_iff.mpr ⟨readable_splice hreadable hagree hlen hfit htail, ?_⟩
  simp only [List.length_append, List.length_cons, List.length_map]

/-! ### Packets that parse -/

/-- The question and all sections of the packet parse with its header counts. -/
structure Parsed (packet : Packet) (questionEnd : Nat) (rs : List Rr) : Prop where
  length_ge : 12 ≤ packet.length
  questions : skipQuestions packet (u16be packet 4) 12 = some questionEnd
  records : sectionRecords packet questionEnd = some rs

variable {questionEnd : Nat}

theorem Parsed.announced (h : Parsed packet questionEnd rs) : announcedRecords packet questionEnd = rs :=
  (recordsFrom_eq_some_iff.mp h.records).1

theorem Parsed.questionEnd_ge (h : Parsed packet questionEnd rs) : 12 ≤ questionEnd :=
  skipQuestions_ge h.questions

theorem Parsed.locateOpt_join (h : Parsed packet questionEnd rs) :
    (locateOpt packet).join = ((rs.drop (leadingCount packet)).find? Rr.isOpt).map
      (fun r => ⟨r.nameEnd, r.rdataStart, r.rrEnd⟩) := by
  have hall : rs.take (leadingCount packet + u16be packet 10) = rs := by
    rw [← h.announced]
    exact List.take_of_length_le (length_readable_le _ _ _)
  rw [PathDns.locateOpt_join, additionalRecords_eq h.questions, h.announced, hall]

/-- The first OPT record of the additional section, between the records before and behind it. -/
structure FirstOpt (packet : Packet) (front : List Rr) (r : Rr) : Prop where
  additional : leadingCount packet ≤ front.length
  before : ∀ s ∈ front.drop (leadingCount packet), s.isOpt = false
  isOpt : r.isOpt = true

theorem Parsed.locateOpt_some_iff {loc : OptLocation} (h : Parsed packet questionEnd rs) :
    (locateOpt packet).join = some loc ↔
      ∃ front r back, rs = front ++ r :: back ∧ FirstOpt packet front r ∧
        loc = ⟨r.nameEnd, r.rdataStart, r.rrEnd⟩ := by
  rw [h.locateOpt_join, Option.map_eq_some_iff]
  constructor
  · rintro ⟨r, hfind, rfl⟩
    obtain ⟨hopt, mid, back, hmid, hbefore⟩ := List.find?_eq_some_iff_append.mp hfind
    have hsplit := List.take_append_drop (leadingCount packet) rs
    have hlen : leadingCount packet ≤ rs.length := by
      have := congrArg List.length hmid
      rw [List.length_drop, List.length_append, List.length_cons] at this
      omega
    have htake : (rs.take (leadingCount packet)).length = leadingCount packet := by
      rw [List.length_take]
      omega
    refine ⟨rs.take (leadingCount packet) ++ mid, r, back, ?_, ⟨?_, ?_, hopt⟩, rfl⟩
    · rw [List.append_assoc, ← hmid, hsplit]
    · rw [List.length_append, htake]
      omega
    · intro s hs
      rw [List.drop_left' htake] at hs
      simpa using hbefore s hs
  · rintro ⟨front, r, back, rfl, hfirst, rfl⟩
    refine ⟨r, ?_, rfl⟩
    rw [List.drop_append_of_le_length hfirst.additional]
    refine List.find?_eq_some_iff_append.mpr ⟨hfirst.isOpt, _, back, rfl, fun s hs => ?_⟩
    simp [hfirst.before s hs]

theorem Parsed.findOptRecord_iff (h : Parsed packet questionEnd (front ++ r :: back)) (hr : r.isOpt = true) :
    findOptRecord packet questionEnd = some (r.nameEnd, r.rdataStart, r.rrEnd) ↔
      front.length < u16be packet 10 ∧ ∀ s ∈ front, s.isOpt = false := by
  have hat : (announcedRecords packet questionEnd)[front.length]? = some r := by
    rw [h.announced, List.getElem?_append_right (Nat.le_refl _), Nat.sub_self]
    rfl
  have hin : ∀ (i : Nat) s, front[i]? = some s → (announcedRecords packet questionEnd)[i]? = some s := by
    intro i s hs
    rw [h.announced, List.getElem?_append_left (List.getElem?_eq_some_iff.mp hs).1, hs]
  rw [findOptRecord_eq h.length_ge, Option.map_eq_some_iff]
  constructor
  · rintro ⟨s, hfind, heq⟩
    obtain ⟨i, -, hi, hs, -, hbefore⟩ := Search.find?_window_eq_some.mp hfind
    have hstart : s.rdataStart = r.rdataStart := (Prod.mk.inj (Prod.mk.inj heq).2).1
    obtain rfl : i = front.length := announcedRecords_inj hs hat hstart
    refine ⟨hi, fun x hx => ?_⟩
    obtain ⟨j, hj⟩ := List.mem_iff_getElem?.mp hx
    exact hbefore j x (Nat.zero_le _) (List.getElem?_eq_some_iff.mp hj).1 (hin j x hj)
  · rintro ⟨hlt, hnone⟩
    refine ⟨r, Search.find?_window_eq_some.mpr ⟨front.length, Nat.zero_le _, hlt, hat, hr, ?_⟩, rfl⟩
    intro j s _ hj hs
    rw [h.announced, List.getElem?_append_left hj] at hs
    exact hnone s (List.mem_of_getElem? hs)

/-! ### A packet with one RDATA replaced -/

/-- `out` is the packet with `new` for the RDATA of the record `r`, which lies between `front` and `back`:
the bytes, and how they are read. -/
structure RdataReplaced (packet : Packet) (questionEnd : Nat) (front : List Rr) (r : Rr) (back : List Rr)
    (new : List UInt8) (out : Packet) : Prop where
  bytes : out = packet.take (r.nameEnd + 8) ++ (encU16be new.length ++ (new ++ packet.drop r.rrEnd))
  rdlength : u16be out (r.nameEnd + 8) = new.length
  rdata : slice out r.rdataStart (r.rdataStart + new.length) = new
  header : out.take 12 = packet.take 12
  parsed : Parsed out questionEnd (front ++ r.resize new.length ::
    back.map (Rr.shift r.rrEnd (r.rdataStart + new.length)))

/-- A packet parses on when the RDATA of one of its records is replaced. -/
theorem Parsed.splice {len : Nat} (h : Parsed p questionEnd (front ++ r :: back))
    (hagree : Agree (r.nameEnd + 8) p q) (hlen : u16be q (r.nameEnd + 8) = len)
    (hfit : r.rdataStart + len ≤ q.length) (htail : p.drop r.rrEnd = q.drop (r.rdataStart + len)) :
    Parsed q questionEnd
      (front ++ r.resize len :: back.map (Rr.shift r.rrEnd (r.rdataStart + len))) := by
  have hb := recordsFrom_bounds h.records r (by simp)
  have hge := h.questionEnd_ge
  have hcount : ∀ i, i ≤ 10 → u16be p i = u16be q i := fun i hi => hagree.u16be_eq (by omega)
  refine ⟨?_, ?_, ?_⟩
  · have := hagree.right
    omega
  · rw [← hcount 4 (by omega)]
    exact skipQuestions_agree hagree h.questions (by omega)
  · rw [sectionRecords, ← hcount 6 (by omega), ← hcount 8 (by omega), ← hcount 10 (by omega)]
    exact recordsFrom_splice h.records hagree hlen hfit htail

variable {new : List UInt8}

theorem Parsed.replaceOptRdata (h : Parsed packet questionEnd (front ++ r :: back))
    (hnew : new.length < 65536) :
    RdataReplaced packet questionEnd front r back new
      (PathDns.replaceOptRdata packet r.rdataStart r.rrEnd new) := by
  have hb := recordsFrom_bounds h.records r (by simp)
  have hge := h.questionEnd_ge
  have heq : PathDns.replaceOptRdata packet r.rdataStart r.rrEnd new =
      packet.take (r.rdataStart - 2) ++ (encU16be new.length ++ (new ++ packet.drop r.rrEnd)) :=
    replaceOptRdata_eq (by omega) hb.2.2.1 hb.2.2.2
  obtain ⟨hagree, hlen, hfit, hslice, hdrop⟩ :=
    replaceOptRdata_spec (p := packet) (show 2 ≤ r.rdataStart by omega) hb.2.2.1 hb.2.2.2 hnew
  rw [show r.rdataStart - 2 = r.nameEnd + 8 by omega] at hagree hlen heq
  refine ⟨heq, hlen, hslice, ?_, h.splice hagree hlen hfit hdrop.symm⟩
  rw [heq, List.take_append_of_le_length (by rw [List.length_take]; omega), List.take_take]
  congr 1
  omega

variable {out : Packet}

theorem RdataReplaced.u16be_header (h : RdataReplaced packet questionEnd front r back new out) (hi : i ≤ 10) :
    u16be out i = u16be packet i := by
  have hbyte : ∀ k, k < 12 → byteAt out k = byteAt packet k := by
    intro k hk
    rw [← byteAt_take hk, h.header, byteAt_take hk]
  rw [u16be, u16be, hbyte i (by omega), hbyte (i + 1) (by omega)]

theorem RdataReplaced.leadingCount_eq (h : RdataReplaced packet questionEnd front r back new out) :
    leadingCount out = leadingCount packet := by
  rw [leadingCount, leadingCount, h.u16be_header (by omega), h.u16be_header (by omega)]

theorem RdataReplaced.locateOpt_join (h : RdataReplaced packet questionEnd front r back new out)
    (hfirst : FirstOpt packet front r) :
    (locateOpt out).join = some ⟨r.nameEnd, r.rdataStart, r.rdataStart + new.length⟩ := by
  refine (Parsed.locateOpt_some_iff h.parsed).mpr ⟨front, r.resize new.length, _, rfl, ?_, rfl⟩
  constructor
  · rw [h.leadingCount_eq]
    exact hfirst.additional
  · rw [h.leadingCount_eq]
    exact hfirst.before
  · exact hfirst.isOpt

/-! ### The two strippers -/

/-- The RDATA consists of these options and nothing else. -/
structure OptionList (os : List (List UInt8)) (rdata : List UInt8) : Prop where
  items : ∀ o ∈ os, Tlv.Item 4 optionSize o
  flatten : rdata = os.flatten

theorem OptionList.options_eq {os : List (List UInt8)} {rdata : List UInt8} (h : OptionList os rdata) :
    options rdata = (os, true) := by
  rw [options, h.flatten]
  exact Tlv.split_flatten (by omega) h.items (Tlv.length_le_length_flatten (by omega) h.items)

/-- The options other than ECS. -/
def nonEcs (os : List (List UInt8)) : List (List UInt8) := os.filter (fun o => u16be o 0 != ecsOptionCode)

theorem OptionList.withoutEcs {os : List (List UInt8)} {rdata : List UInt8} (h : OptionList os rdata)
    (hecs : ecsOptionCode ∈ optionCodes rdata) :
    OptionList (nonEcs os) (PathDns.withoutEcs rdata) := by
  refine ⟨fun o ho => h.items o (List.mem_of_mem_filter ho), ?_⟩
  rw [PathDns.withoutEcs, optionsFit, h.options_eq, if_pos ⟨rfl, hecs⟩]
  rfl

/-- What `strip_edns_ecs` returns: the packet without the ECS options of its OPT record, in which it finds
nothing more to strip. -/
theorem stripEdnsEcs_spec (h : Parsed packet questionEnd rs)
    (hopts : ∀ r ∈ rs, r.isOpt = true → ∃ os, OptionList os (slice packet r.rdataStart r.rrEnd))
    (hout : stripEdnsEcs packet = some out) :
    ∃ front r back os, rs = front ++ r :: back ∧ FirstOpt packet front r ∧
      OptionList os (slice packet r.rdataStart r.rrEnd) ∧ (∃ o ∈ os, u16be o 0 = ecsOptionCode) ∧
      RdataReplaced packet questionEnd front r back (nonEcs os).flatten out ∧ stripEdnsEcs out = none := by
  rw [stripEdnsEcs_eq, Option.bind_eq_some_iff] at hout
  obtain ⟨loc, hloc, hout⟩ := hout
  obtain ⟨front, r, back, rfl, hfirst, rfl⟩ := h.locateOpt_some_iff.mp hloc
  rw [stripEcsFromOpt_eq] at hout
  split_ifs at hout with hecs
  obtain rfl := Option.some.inj hout
  obtain ⟨os, hos⟩ := hopts r (by simp) hfirst.isOpt
  have hnew := hos.withoutEcs hecs.2
  have hb := recordsFrom_bounds h.records r (by simp)
  have hlen : (withoutEcs (slice packet r.rdataStart r.rrEnd)).length < 65536 := by
    have h1 := length_withoutEcs (slice packet r.rdataStart r.rrEnd)
    have h2 := recordsFrom_rdata_lt h.records r (by simp)
    rw [length_slice hb.2.2.2] at h1
    omega
  have hreplaced := h.replaceOptRdata hlen
  refine ⟨front, r, back, os, rfl, hfirst, hos, ?_, hnew.flatten ▸ hreplaced, ?_⟩
  · have hmem := hecs.2
    rw [optionCodes, hos.options_eq] at hmem
    obtain ⟨o, ho, hcode⟩ := List.mem_map.mp hmem
    exact ⟨o, ho, hcode⟩
  · rw [stripEdnsEcs_eq, hreplaced.locateOpt_join hfirst, Option.bind_some, stripEcsFromOpt_eq,
      hreplaced.rdata]
    exact if_neg (fun hagain => withoutEcs_optionCodes hecs.1 hagain.2)

/-- What `strip_opt_rdata` returns: the packet with an empty OPT record, in which it finds nothing more to
strip. -/
theorem stripOptRdata_spec (h : Parsed packet questionEnd rs) (hout : stripOptRdata packet = some out) :
    ∃ front r back, rs = front ++ r :: back ∧ FirstOpt packet front r ∧ r.rdataStart < r.rrEnd ∧
      RdataReplaced packet questionEnd front r back [] out ∧ stripOptRdata out = none := by
  rw [stripOptRdata_eq, Option.bind_eq_some_iff] at hout
  obtain ⟨loc, hloc, hout⟩ := hout
  obtain ⟨front, r, back, rfl, hfirst, rfl⟩ := h.locateOpt_some_iff.mp hloc
  split_ifs at hout with hempty
  obtain rfl := Option.some.inj hout
  have hb := recordsFrom_bounds h.records r (by simp)
  have hreplaced := h.replaceOptRdata (show ([] : List UInt8).length < 65536 by norm_num)
  have hout : packet.take (r.nameEnd + 8) ++ encU16be 0 ++ packet.drop r.rrEnd =
      PathDns.replaceOptRdata packet r.rdataStart r.rrEnd [] := by
    rw [hreplaced.bytes, List.append_assoc]
    rfl
  rw [hout]
  refine ⟨front, r, back, rfl, hfirst, Nat.lt_of_le_of_ne hb.2.2.1 (Ne.symm hempty), hreplaced, ?_⟩
  rw [stripOptRdata_eq, hreplaced.locateOpt_join hfirst, Option.bind_some]
  exact if_pos rfl

theorem others_not_opt (hone : ((front ++ r :: back).filter Rr.isOpt).length ≤ 1) (hr : r.isOpt = true) :
    ∀ s ∈ front ++ back, s.isOpt = false := by
  rw [List.filter_append, List.filter_cons_of_pos hr, List.length_append, List.length_cons] at hone
  have hfront : front.filter Rr.isOpt = [] := List.length_eq_zero_iff.mp (by omega)
  have hback : back.filter Rr.isOpt = [] := List.length_eq_zero_iff.mp (by omega)
  intro s hs
  rcases List.mem_append.mp hs with hs | hs
  · simpa using List.filter_eq_nil_iff.mp hfront s hs
  · simpa using List.filter_eq_nil_iff.mp hback s hs

/-- On a packet that parses and has at most one OPT record, whose options are well formed, each stripper
replaces the RDATA of that record and nothing else: `strip_edns_ecs` by the options other than ECS in their
order, `strip_opt_rdata` by nothing. The result parses with the same counts, and a second pass finds nothing
to strip. -/
theorem strippers_frame {packet : Packet} {questionEnd : Nat} {rs : List Rr}
    (h : Parsed packet questionEnd rs) (hone : (rs.filter Rr.isOpt).length ≤ 1)
    (hopts : ∀ r ∈ rs, r.isOpt = true → ∃ os, OptionList os (slice packet r.rdataStart r.rrEnd)) :
    (∀ out, stripEdnsEcs packet = some out →
      ∃ front r back os, rs = front ++ r :: back ∧ r.isOpt = true ∧
        (∀ s ∈ front ++ back, s.isOpt = false) ∧
        OptionList os (slice packet r.rdataStart r.rrEnd) ∧ (∃ o ∈ os, u16be o 0 = ecsOptionCode) ∧
        RdataReplaced packet questionEnd front r back (nonEcs os).flatten out ∧
        stripEdnsEcs out = none) ∧
    (∀ out, stripOptRdata packet = some out →
      ∃ front r back, rs = front ++ r :: back ∧ r.isOpt = true ∧
        (∀ s ∈ front ++ back, s.isOpt = false) ∧ r.rdataStart < r.rrEnd ∧
        RdataReplaced packet questionEnd front r back [] out ∧ stripOptRdata out = none) := by
  constructor
  · intro out hout
    obtain ⟨front, r, back, os, rfl, hfirst, hos, hecs, hreplaced, hagain⟩ := stripEdnsEcs_spec h hopts hout
    exact ⟨front, r, back, os, rfl, hfirst.isOpt, others_not_opt hone hfirst.isOpt, hos, hecs, hreplaced,
      hagain⟩
  · intro out hout
    obtain ⟨front, r, back, rfl, hfirst, hsome, hreplaced, hagain⟩ := stripOptRdata_spec h hout
    exact ⟨front, r, back, rfl, hfirst.isOpt, others_not_opt hone hfirst.isOpt, hsome, hreplaced, hagain⟩

/-- A query with a cookie and an ECS option and a record behind its OPT record. -/
def cookieEcsQuery : Packet :=
  sectionedQuery 0 0 2 (optRecord ([0, 10, 0, 1, 7] ++ ecsOption) ++ emptyRecord)

theorem strippers_frame_cookieEcsQuery :
    stripEdnsEcs cookieEcsQuery = some (sectionedQuery 0 0 2 (optRecord [0, 10, 0, 1, 7] ++ emptyRecord)) ∧
    stripEdnsEcs (sectionedQuery 0 0 2 (optRecord [0, 10, 0, 1, 7] ++ emptyRecord)) = none ∧
    stripOptRdata cookieEcsQuery = some (sectionedQuery 0 0 2 (optRecord [] ++ emptyRecord)) ∧
    stripOptRdata (sectionedQuery 0 0 2 (optRecord [] ++ emptyRecord)) = none := by
  have hparsed : Parsed cookieEcsQuery 19 [⟨20, 41, 4096, 0, 30, 46⟩, ⟨47, 1, 1, 0, 57, 57⟩] :=
    ⟨by decide +kernel, by decide +kernel, by decide +kernel⟩
  have hitems : ∀ o ∈ [[0, 10, 0, 1, 7], ecsOption], Tlv.Item 4 optionSize o := by
    simp only [List.mem_cons, List.not_mem_nil, or_false, forall_eq_or_imp, forall_eq]
    exact ⟨optionSize_sized.item (by decide), optionSize_sized.item (by decide)⟩
  have hframe := strippers_frame hparsed (by decide) (by
    simp only [List.mem_cons, List.not_mem_nil, or_false, forall_eq_or_imp, forall_eq]
    exact ⟨fun _ => ⟨_, hitems, by decide +kernel⟩, fun h => absurd h (by decide)⟩)
  have hecs : stripEdnsEcs cookieEcsQuery =
      some (sectionedQuery 0 0 2 (optRecord [0, 10, 0, 1, 7] ++ emptyRecord)) := by decide +kernel
  have hopt : stripOptRdata cookieEcsQuery = some (sectionedQuery 0 0 2 (optRecord [] ++ emptyRecord)) := by
    decide +kernel
  obtain ⟨-, -, -, -, -, -, -, -, -, -, hagain⟩ := hframe.1 _ hecs
  obtain ⟨-, -, -, -, -, -, -, -, hempty⟩ := hframe.2 _ hopt
  exact ⟨hecs, hagain, hopt, hempty⟩

end PathDns
