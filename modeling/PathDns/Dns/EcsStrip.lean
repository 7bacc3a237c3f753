import PathDns.Dns.Records

/-!
# What stripping does to a packet

`optRdatas_strip` describes the OPT records of the packet that an `ecs=strip` upstream is sent: the
first one has its ECS options taken out when its whole option list fits, every later one is passed on
as it was.
-/

namespace PathDns

open Bytes

variable {p : Packet} {e : Nat} {loc : OptLocation}

/-! ### The rewritten packet -/

theorem replaceOptRdata_eq {s : Nat} {new : List UInt8} (hs : 2 ≤ s) (hse : s ≤ e) (he : e ≤ p.length) :
    replaceOptRdata p s e new = p.take (s - 2) ++ (encU16be new.length ++ (new ++ p.drop e)) := by
  have htake : (p.take s ++ new ++ p.drop e).take (s - 2) = p.take (s - 2) := by
    rw [List.append_assoc, List.take_append_of_le_length (by rw [List.length_take]; omega),
      List.take_take, Nat.min_eq_left (by omega)]
  have hdrop : (p.take s ++ new ++ p.drop e).drop s = new ++ p.drop e := by
    rw [List.append_assoc, List.drop_left' (by rw [List.length_take]; omega)]
  rw [replaceOptRdata, patch, htake, length_encU16be, show s - 2 + 2 = s by omega, hdrop,
    List.append_assoc]

/-- The rewritten packet: the bytes before RDLENGTH stay, RDLENGTH is that of the new RDATA, and behind
the new RDATA comes what was behind the old. -/
theorem replaceOptRdata_spec {s : Nat} {new : List UInt8} (hs : 2 ≤ s) (hse : s ≤ e) (he : e ≤ p.length)
    (hnew : new.length < 65536) :
    Agree (s - 2) p (replaceOptRdata p s e new) ∧
      u16be (replaceOptRdata p s e new) (s - 2) = new.length ∧
      s + new.length ≤ (replaceOptRdata p s e new).length ∧
      slice (replaceOptRdata p s e new) s (s + new.length) = new ∧
      (replaceOptRdata p s e new).drop (s + new.length) = p.drop e := by
  have hhead : (p.take (s - 2)).length = s - 2 := by
    rw [List.length_take]
    omega
  have hfront : (p.take (s - 2) ++ encU16be new.length).length = s := by
    rw [List.length_append, hhead, length_encU16be]
    omega
  rw [replaceOptRdata_eq hs hse he]
  refine ⟨.take_append (Nat.le_refl _) (by omega) _, ?_, ?_, ?_, ?_⟩
  · have hbyte : ∀ k, k < 2 → byteAt (p.take (s - 2) ++ (encU16be new.length ++ (new ++ p.drop e)))
        (s - 2 + k) = byteAt (encU16be new.length) k := by
      intro k hk
      have := byteAt_append_right (p.take (s - 2)) (encU16be new.length ++ (new ++ p.drop e)) k
      rw [hhead] at this
      rw [this, byteAt_append_left (by simpa using hk)]
    exact u16be_encU16be hnew (hbyte 0 (by omega)) (hbyte 1 (by omega))
  · rw [← List.append_assoc, List.length_append, hfront, List.length_append]
    omega
  · rw [slice, ← List.append_assoc, List.drop_left' hfront, show s + new.length - s = new.length by omega,
      List.take_left]
  · rw [← List.append_assoc, ← List.append_assoc,
      List.drop_left' (by rw [List.length_append, hfront])]

/-! ### The question in front of the OPT record -/

/-- The record that `locate_opt` finds. -/
theorem locateOpt_some (h : (locateOpt p).join = some loc) :
    ∃ r ∈ additionalRecords p, loc = ⟨r.nameEnd, r.rdataStart, r.rrEnd⟩ := by
  rw [locateOpt_join, Option.map_eq_some_iff] at h
  obtain ⟨r, hr, rfl⟩ := h
  exact ⟨r, List.mem_of_find?_eq_some hr, rfl⟩

theorem locateOpt_bounds (h : (locateOpt p).join = some loc) :
    12 < loc.nameEnd ∧ loc.rdataStart = loc.nameEnd + 10 ∧ loc.rdataStart ≤ loc.rdataEnd ∧
      loc.rdataEnd ≤ p.length := by
  obtain ⟨r, hr, rfl⟩ := locateOpt_some h
  obtain ⟨mid, hmid, hr⟩ := mem_additionalRecords hr
  have hge := skipQuestions_ge hmid
  have hb := readable_bounds hr
  exact ⟨by simp only; omega, hb.2⟩

theorem le_nameEnd_of_mem {n pos : Nat} {r : Rr} (h : r ∈ readable p n pos) (hname : skipName p pos = some e) :
    e ≤ r.nameEnd := by
  cases hrs : readable p n pos with
  | nil => simp [hrs] at h
  | cons s rs =>
    obtain ⟨m, -, hs, rfl⟩ := readable_eq_cons_iff.mp hrs
    obtain rfl : e = s.nameEnd := Option.some.inj (hname.symm.trans (parseRr_fields hs).1)
    rw [hrs] at h
    rcases List.mem_cons.mp h with rfl | h
    · exact Nat.le_refl _
    · have hb := parseRr_bounds hs
      have hr := readable_bounds h
      omega

/-- The OPT record lies behind the question. In a packet that counts no question, the name of the
question is that of the first record, and its type and class are read as those of the record. -/
theorem question_le_opt (hend : questionEnd p = some e) (h : (locateOpt p).join = some loc) :
    (u16be p 4 ≠ 0 → e ≤ loc.nameEnd) ∧ e ≤ loc.nameEnd + 4 := by
  obtain ⟨r, hr, rfl⟩ := locateOpt_some h
  obtain ⟨mid, hmid, hr⟩ := mem_additionalRecords hr
  obtain ⟨nameEnd, hname, -, rfl⟩ := questionEnd_eq_some_iff.mp hend
  simp only
  cases hqd : u16be p 4 with
  | zero =>
    rw [hqd, skipQuestions] at hmid
    obtain rfl := Option.some.inj hmid
    have := le_nameEnd_of_mem hr hname
    exact ⟨by simp, by omega⟩
  | succ n =>
    rw [hqd] at hmid
    obtain ⟨nameEnd', hname', -, hrest⟩ := skipQuestions_succ_eq_some.mp hmid
    obtain rfl : nameEnd = nameEnd' := Option.some.inj (hname.symm.trans hname')
    have hge := skipQuestions_ge hrest
    have hb := readable_bounds hr
    omega

theorem stripEdnsEcs_eq (packet : Packet) :
    stripEdnsEcs packet =
      (locateOpt packet).join.bind (fun loc => stripEcsFromOpt packet loc.rdataStart loc.rdataEnd) := by
  rw [stripEdnsEcs]
  rcases locateOpt packet with _ | _ | loc <;> rfl

theorem stripOptRdata_eq (packet : Packet) :
    stripOptRdata packet = (locateOpt packet).join.bind (fun loc =>
      if loc.rdataEnd = loc.rdataStart then none
      else some (packet.take (loc.nameEnd + 8) ++ encU16be 0 ++ packet.drop loc.rdataEnd)) := by
  rw [stripOptRdata]
  rcases locateOpt packet with _ | _ | loc <;> rfl

/-- Neither stripper reaches the question. -/
theorem stripEdnsEcs_agree {out : Packet} (hend : questionEnd p = some e) (h : stripEdnsEcs p = some out) :
    Agree e p out := by
  rw [stripEdnsEcs_eq, Option.bind_eq_some_iff] at h
  obtain ⟨loc, hloc, hout⟩ := h
  obtain ⟨-, hstart, hfit, hlen⟩ := locateOpt_bounds hloc
  have hle := (question_le_opt hend hloc).2
  rw [stripEcsFromOpt_eq] at hout
  split_ifs at hout
  obtain rfl := Option.some.inj hout
  rw [replaceOptRdata_eq (by omega) hfit hlen]
  exact .take_append (by omega) (by omega) _

theorem stripOptRdata_agree {out : Packet} (hend : questionEnd p = some e) (h : stripOptRdata p = some out) :
    Agree e p out := by
  rw [stripOptRdata_eq, Option.bind_eq_some_iff] at h
  obtain ⟨loc, hloc, hout⟩ := h
  obtain ⟨-, hstart, hfit, hlen⟩ := locateOpt_bounds hloc
  have hle := (question_le_opt hend hloc).2
  split_ifs at hout
  obtain rfl := Option.some.inj hout
  rw [List.append_assoc]
  exact .take_append (by omega) (by omega) _

/-- The additional section, around its first OPT record. -/
theorem optRdatas_of_first {r : Rr} {front back : List Rr} (h : additionalRecords p = front ++ r :: back)
    (hfront : ∀ s ∈ front, s.isOpt = false) (hr : r.isOpt = true) :
    optRdatas p = slice p r.rdataStart r.rrEnd ::
      (back.filter Rr.isOpt).map (fun s => slice p s.rdataStart s.rrEnd) := by
  have hnone : front.filter Rr.isOpt = [] := List.filter_eq_nil_iff.mpr fun s hs => by simp [hfront s hs]
  rw [optRdatas_eq, h, List.filter_append, hnone, List.filter_cons_of_pos hr]
  rfl

/-- The OPT records of the packet sent to an `ecs=strip` upstream. -/
theorem optRdatas_strip (packet : Packet) :
    optRdatas (applyEcsMode packet .strip) =
      match optRdatas packet with
      | [] => []
      | rdata :: rest => withoutEcs rdata :: rest := by
  cases hfind : (additionalRecords packet).find? Rr.isOpt with
  | none =>
    have hnil : optRdatas packet = [] := by
      rw [optRdatas_eq, List.filter_eq_nil_iff.mpr (List.find?_eq_none.mp hfind)]
      rfl
    rw [hnil, applyEcsMode, stripEdnsEcs_eq, locateOpt_join, hfind]
    exact hnil
  | some r =>
    obtain ⟨hopt, front, back, hsplit, hfront⟩ := List.find?_eq_some_iff_append.mp hfind
    replace hfront : ∀ s ∈ front, s.isOpt = false := fun s hs => by simpa using hfront s hs
    have hrdatas := optRdatas_of_first hsplit hfront hopt
    rw [hrdatas, applyEcsMode, stripEdnsEcs_eq, locateOpt_join, hfind]
    simp only [Option.map_some, Option.bind_some, stripEcsFromOpt_eq]
    split_ifs with hecs
    · cases hstart : additionalStart packet with
      | none => simp [additionalRecords, hstart] at hsplit
      | some pos =>
        rw [additionalRecords, hstart, Option.elim_some] at hsplit
        obtain ⟨i, hi, hr⟩ := mem_readable (show r ∈ readable packet (u16be packet 10) pos by simp [hsplit])
        have hb := parseRr_bounds hr
        have hge := additionalStart_ge hstart
        set new := withoutEcs (slice packet r.rdataStart r.rrEnd) with hnew
        have hnewLen : new.length < 65536 := by
          have h1 := length_withoutEcs (slice packet r.rdataStart r.rrEnd)
          rw [← hnew, length_slice hb.2.2.2] at h1
          have h2 := u16be_lt packet (r.nameEnd + 8)
          have h3 := (parseRr_fields hr).2.2.2.1
          omega
        obtain ⟨hagree, hlen', hfit, hslice, hdrop⟩ :=
          replaceOptRdata_spec (p := packet) (show 2 ≤ r.rdataStart by omega) hb.2.2.1 hb.2.2.2 hnewLen
        rw [show r.rdataStart - 2 = r.nameEnd + 8 by omega] at hagree hlen'
        have hsplit' : additionalRecords (replaceOptRdata packet r.rdataStart r.rrEnd new) =
            front ++ r.resize new.length :: back.map (Rr.shift r.rrEnd (r.rdataStart + new.length)) := by
          rw [additionalRecords, additionalStart_agree hagree (by omega) hstart (by omega),
            ← hagree.u16be_eq (by omega)]
          exact readable_splice hsplit hagree hlen' hfit hdrop.symm
        rw [Option.getD_some, optRdatas_of_first hsplit' hfront hopt, Rr.resize, hslice, List.filter_map,
          List.map_map]
        refine congrArg _ (List.map_congr_left fun s hs => ?_)
        have hmem := List.mem_of_mem_filter hs
        have hbs := readable_bounds (show s ∈ readable packet (u16be packet 10) pos by simp [hsplit, hmem])
        have hlayout := readable_layout packet (u16be packet 10) pos
        rw [hsplit, List.pairwise_append, List.pairwise_cons] at hlayout
        have hbehind := hlayout.2.1.1 s hmem
        exact slice_shift hdrop.symm (by omega) hbs.2.2.1
    · rw [Option.getD_none, hrdatas, withoutEcs, if_neg hecs]

theorem AcceptedQuery.length_ge {query : Packet} {fast : FastQueryInfo} (hq : AcceptedQuery query fast) :
    12 ≤ query.length := by
  have := hq.questionEnd_ge
  have := hq.questionEnd_le
  omega

/-- `locate_opt` considers the first OPT record only. When the options of that record all fit, the
packet sent to an `ecs=strip` upstream has no ECS option in it, and its later OPT records are those of
the query; so a query with at most one OPT record is sent without ECS. -/
theorem strip_clears_first_opt {packet : Packet}
    (hfit : ∀ rdata, (optRdatas packet).head? = some rdata → optionsFit rdata = true) :
    (∀ rdata, (optRdatas (applyEcsMode packet .strip)).head? = some rdata →
      ecsOptionCode ∉ optionCodes rdata) ∧
    (optRdatas (applyEcsMode packet .strip)).tail = (optRdatas packet).tail ∧
    ((optRdatas packet).length ≤ 1 → ¬ CarriesEcs (applyEcsMode packet .strip)) := by
  rw [CarriesEcs, optRdatas_strip]
  cases hopt : optRdatas packet with
  | nil => simp
  | cons rdata rest =>
    have hclear := withoutEcs_optionCodes (hfit rdata (by rw [hopt]; rfl))
    refine ⟨?_, rfl, ?_⟩
    · intro rd hrd
      simp only [List.head?_cons, Option.some.injEq] at hrd
      exact hrd ▸ hclear
    · rintro hone ⟨rd, hmem, hecs⟩
      have hrest : rest = [] := List.length_eq_zero_iff.mp (by simpa using hone)
      subst hrest
      rw [List.mem_singleton] at hmem
      exact hclear (hmem ▸ hecs)

/-- A query for the A record of `a` with the given additional records. -/
def queryWith (arcount : UInt8) (additional : List UInt8) : Packet :=
  [0x12, 0x34, 1, 0, 0, 1, 0, 0, 0, 0, 0, arcount, 1, 97, 0, 0, 1, 0, 1] ++ additional

/-- An OPT record with a payload size of 4096 and the given options. -/
def optRecord (rdata : List UInt8) : List UInt8 :=
  [0, 0, 41, 16, 0, 0, 0, 0, 0] ++ encU16be rdata.length ++ rdata

/-- An ECS option for 192.0.2.0/24. -/
def ecsOption : List UInt8 := [0, 8, 0, 7, 0, 1, 24, 0, 192, 0, 2]

theorem strip_clears_first_opt_sample :
    ¬ CarriesEcs (applyEcsMode (queryWith 1 (optRecord ecsOption)) .strip) := by
  refine (strip_clears_first_opt ?_).2.2 (by decide +kernel)
  intro rdata hrdata
  have hhead : (optRdatas (queryWith 1 (optRecord ecsOption))).head? = some ecsOption := by
    decide +kernel
  rw [hhead, Option.some.injEq] at hrdata
  subst hrdata
  decide

/-- A second OPT record goes through as it is, with its ECS option. -/
theorem strip_keeps_ecs_of_second_opt :
    parseQueryFast (queryWith 2 (optRecord [] ++ optRecord ecsOption)) =
        .ok (fastInfo (queryWith 2 (optRecord [] ++ optRecord ecsOption))) ∧
      CarriesEcs (applyEcsMode (queryWith 2 (optRecord [] ++ optRecord ecsOption)) .strip) := by
  decide +kernel

end PathDns
