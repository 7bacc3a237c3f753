import PathDns.Dns.EcsOption
import PathDns.Dns.Splice

/-!
# Injecting a configured subnet (`dns/ecs.rs`)

`inject_or_replace_ecs` rewrites the options of the OPT record that `locate_opt` finds, or appends an OPT
record at the end of the packet. The appended record is only read as one when the announced records end
there, and the rewritten one only when the rest of the packet parses and its length still fits.
-/

namespace PathDns

open Bytes

/-! ### What an injection should give -/

/-- Where the first OPT record among `n` records from `pos` on starts, the end of the packet without one. -/
def optStartFrom (packet : Packet) : Nat → Nat → Nat
  | 0, _ => packet.length
  | n + 1, pos =>
    match parseRr packet pos with
    | none => packet.length
    | some r => if r.isOpt then pos else optStartFrom packet n r.rrEnd

/-- Where the OPT record of the additional section starts, or is to be appended. -/
def optStart (packet : Packet) : Nat :=
  match additionalStart packet with
  | none => packet.length
  | some pos => optStartFrom packet (u16be packet 10) pos

/-- The options of the OPT record other than ECS. -/
def keptOptions (packet : Packet) : List (List UInt8) :=
  match (locateOpt packet).join with
  | none => []
  | some loc => nonEcs (options (slice packet loc.rdataStart loc.rdataEnd)).1

/-- The record is an OPT record with an ECS option. -/
def Rr.hasEcs (packet : Packet) (r : Rr) : Prop :=
  r.isOpt = true ∧ ecsOptionCode ∈ optionCodes (slice packet r.rdataStart r.rrEnd)

/-- `out` is the packet with the subnet in its OPT record `r`. Every section of it parses with the header
counts; the record starts where the packet has its OPT record, or where the packet ended; its options are
those of the packet other than ECS, then the ECS option; `extract_variant` reads the masked subnet from it;
no other OPT record of the additional section has an ECS option; and the bytes in front of the record are
those of the packet up to ARCOUNT, which counts the record if it is new. -/
structure EcsInjected (packet : Packet) (questionEnd : Nat) (s : EcsSubnet) (out : Packet)
    (front : List Rr) (r : Rr) (back : List Rr) : Prop where
  parsed : Parsed out questionEnd (front ++ r :: back)
  start : endOf questionEnd front = optStart packet
  additional : leadingCount out ≤ front.length
  isOpt : r.isOpt = true
  rdata : OptionList (keptOptions packet ++ [encodeEcsOption s]) (slice out r.rdataStart r.rrEnd)
  found : findOptRecord out questionEnd = some (r.nameEnd, r.rdataStart, r.rrEnd)
  ecsSrc : (extractVariant out questionEnd).ecsSrc = some s.masked
  others : ∀ x ∈ front.drop (leadingCount out) ++ back, ¬ x.hasEcs out
  before : ∀ i, i < optStart packet → i ≠ 10 → i ≠ 11 → byteAt out i = byteAt packet i
  arcount : u16be out 10 = u16be packet 10 + if (locateOpt packet).join.isSome then 0 else 1

/-- When an injection gives that. With an OPT record in the additional section: all records parse,
`find_opt_record` finds that record too, its new RDATA has less than 65536 bytes, and no OPT record behind it
has an ECS option. Without one: no record is announced for the answer and authority sections, ARCOUNT can be
counted up, and the announced records fill the packet. -/
def Injectable (packet : Packet) (questionEnd : Nat) (s : EcsSubnet) : Prop :=
  match (locateOpt packet).join with
  | some loc =>
    ∃ rs, sectionRecords packet questionEnd = some rs ∧
      findOptRecord packet questionEnd = some (loc.nameEnd, loc.rdataStart, loc.rdataEnd) ∧
      (keptOptions packet).flatten.length + (encodeEcsOption s).length < 65536 ∧
      ∀ x ∈ rs, loc.nameEnd < x.nameEnd → ¬ x.hasEcs packet
  | none =>
    leadingCount packet = 0 ∧ u16be packet 10 < 65535 ∧
      skipRecords packet (u16be packet 10) questionEnd = some packet.length

/-! ### Where the OPT record starts -/

variable {packet : Packet} {n : Nat}

theorem optStartFrom_of_none {pos : Nat} (h : ∀ r ∈ readable packet n pos, r.isOpt = false) :
    optStartFrom packet n pos = packet.length := by
  induction n generalizing pos with
  | zero => rfl
  | succ n ih =>
    rw [optStartFrom]
    cases hr : parseRr packet pos with
    | none => rfl
    | some r =>
      simp only [readable, hr, List.forall_mem_cons] at h
      simp only [h.1, Bool.false_eq_true, if_false]
      exact ih h.2

theorem optStartFrom_of_first {pos : Nat} {front back : List Rr} {r : Rr}
    (h : readable packet n pos = front ++ r :: back) (hfront : ∀ x ∈ front, x.isOpt = false)
    (hr : r.isOpt = true) :
    optStartFrom packet n pos = endOf pos front ∧ parseRr packet (endOf pos front) = some r := by
  induction front generalizing n pos with
  | nil =>
    obtain ⟨m, rfl, hparse, -⟩ := readable_eq_cons_iff.mp h
    rw [optStartFrom, hparse]
    exact ⟨if_pos hr, hparse⟩
  | cons f front ih =>
    obtain ⟨m, rfl, hparse, hrest⟩ := readable_eq_cons_iff.mp h
    rw [List.forall_mem_cons] at hfront
    rw [optStartFrom, hparse, endOf_cons]
    simp only [hfront.1, Bool.false_eq_true, if_false]
    exact ih hrest hfront.2

theorem optStart_of_none (h : (locateOpt packet).join = none) : optStart packet = packet.length := by
  rw [locateOpt_join, Option.map_eq_none_iff, List.find?_eq_none, additionalRecords] at h
  rw [optStart]
  cases hstart : additionalStart packet with
  | none => rfl
  | some pos =>
    rw [hstart, Option.elim_some] at h
    exact optStartFrom_of_none fun r hr => by simpa using h r hr

theorem optStart_of_some {loc : OptLocation} (h : (locateOpt packet).join = some loc) :
    ∃ r, parseRr packet (optStart packet) = some r ∧ loc = ⟨r.nameEnd, r.rdataStart, r.rrEnd⟩ := by
  rw [locateOpt_join, Option.map_eq_some_iff, additionalRecords] at h
  obtain ⟨r, hfind, rfl⟩ := h
  obtain ⟨hopt, front, back, hsplit, hfront⟩ := List.find?_eq_some_iff_append.mp hfind
  rw [optStart]
  cases hstart : additionalStart packet with
  | none => simp [hstart] at hsplit
  | some pos =>
    rw [hstart, Option.elim_some] at hsplit
    obtain ⟨heq, hr⟩ := optStartFrom_of_first hsplit (fun x hx => by simpa using hfront x hx) hopt
    exact ⟨r, by simpa only [heq] using hr, rfl⟩

theorem optStart_of_firstOpt {questionEnd : Nat} {front back : List Rr} {r : Rr}
    (h : Parsed packet questionEnd (front ++ r :: back)) (hfirst : FirstOpt packet front r) :
    optStart packet = endOf questionEnd front := by
  -- the records in front of the additional section, those of it before the OPT record, and the rest
  set lead := front.take (leadingCount packet) with hlead
  set mid := front.drop (leadingCount packet) with hmid
  have hsplit : front = lead ++ mid := (List.take_append_drop _ _).symm
  have hlen : lead.length = leadingCount packet := by
    have := hfirst.additional
    rw [hlead, List.length_take]
    omega
  have hrecords : recordsFrom packet (leadingCount packet + u16be packet 10) questionEnd =
      some (lead ++ (mid ++ r :: back)) := by
    rw [← List.append_assoc, ← hsplit]
    exact h.records
  obtain ⟨hleading, hrest⟩ := recordsFrom_append hrecords
  have hcount : (mid ++ r :: back).length = u16be packet 10 := by
    have := length_recordsFrom hrecords
    rw [List.length_append, hlen] at this
    omega
  rw [hlen] at hleading
  rw [hcount] at hrest
  rw [optStart, additionalStart_of_questions h.questions, skipRecords_eq, hleading, Option.map_some]
  simp only
  rw [(optStartFrom_of_first (recordsFrom_eq_some_iff.mp hrest).1 hfirst.before hfirst.isOpt).1, hsplit,
    endOf_append]

/-! ### The two branches -/

/-- The new options as RDATA. -/
def injectedRdata (packet : Packet) (s : EcsSubnet) : List UInt8 :=
  (keptOptions packet).flatten ++ encodeEcsOption s

variable {s : EcsSubnet}

/-- What `inject_or_replace_ecs` returns. -/
theorem injectOrReplaceEcs_cases {out : Packet} (h : injectOrReplaceEcs packet s = some out) :
    (∃ loc, (locateOpt packet).join = some loc ∧
      out = replaceOptRdata packet loc.rdataStart loc.rdataEnd (injectedRdata packet s)) ∨
    ((locateOpt packet).join = none ∧
      out = patch (packet ++ optRecord (encodeEcsOption s)) 10 (encU16be (u16be packet 10 + 1))) := by
  rw [injectOrReplaceEcs] at h
  split_ifs at h with hshort
  rcases hloc : locateOpt packet with _ | _ | loc
  · simp [hloc] at h
  · simp only [hloc, Option.some.injEq] at h
    refine .inr ⟨rfl, ?_⟩
    rw [← h, optRecord]
    simp only [List.append_assoc]
    rfl
  · simp only [hloc] at h
    rw [dropEcsLoop_eq, List.drop_zero, List.nil_append, ← options] at h
    refine .inl ⟨loc, rfl, ?_⟩
    split at h
    · simp at h
    · next found new hnew =>
      split_ifs at hnew with hfit
      simp only [Option.some.injEq, Prod.mk.injEq] at hnew
      rw [injectedRdata, keptOptions, hloc, ← Option.some.inj h, ← hnew.2]
      rfl

theorem keptOptions_items (packet : Packet) : ∀ o ∈ keptOptions packet, Tlv.Item 4 optionSize o := by
  intro o ho
  rw [keptOptions] at ho
  split at ho
  · simp at ho
  · exact Tlv.split_items optionSize_sized o (List.mem_of_mem_filter ho)

theorem injectedRdata_options (packet : Packet) (hs : s.prefixLen.toNat ≤ s.addr.bits) :
    OptionList (keptOptions packet ++ [encodeEcsOption s]) (injectedRdata packet s) := by
  refine ⟨fun o ho => ?_, by simp [injectedRdata]⟩
  rcases List.mem_append.mp ho with ho | ho
  · exact keptOptions_items packet o ho
  · rw [List.mem_singleton.mp ho]
    exact (encodeEcsOption_fields hs).1

theorem ecsSrc_of_found {out : Packet} {questionEnd : Nat} {r : Rr} {kept : List (List UInt8)}
    (hs : s.prefixLen.toNat ≤ s.addr.bits)
    (hfound : findOptRecord out questionEnd = some (r.nameEnd, r.rdataStart, r.rrEnd))
    (hrdata : OptionList (kept ++ [encodeEcsOption s]) (slice out r.rdataStart r.rrEnd)) :
    (extractVariant out questionEnd).ecsSrc = some s.masked := by
  have hoptions : queryOptions out questionEnd = kept ++ [encodeEcsOption s] := by
    rw [queryOptions, hfound]
    simp only [hrdata.options_eq]
  rw [(extractVariant_options out questionEnd).1, hoptions, List.foldl_append, List.foldl_cons,
    List.foldl_nil, nextEcsSrc, if_pos (encodeEcsOption_fields hs).2.1, parseEcsSrc_encode hs]

theorem Rr.hasEcs_shift {p q : Packet} {i j : Nat} {rs : List Rr} {x : Rr} (hrs : recordsFrom p n i = some rs)
    (hx : x ∈ rs) (h : p.drop i = q.drop j) : (x.shift i j).hasEcs q ↔ x.hasEcs p := by
  have hb := recordsFrom_bounds hrs x hx
  rw [hasEcs, hasEcs, slice_shift h (by omega) hb.2.2.1]
  rfl

section Rewrite

variable {packet : Packet} {fast : FastQueryInfo} {s : EcsSubnet} {loc : OptLocation}

/-- How the rewritten packet compares with the packet, when the new RDATA is not too long. -/
theorem rewritten_spec (hloc : (locateOpt packet).join = some loc)
    (hnew : (injectedRdata packet s).length < 65536) :
    Agree (loc.nameEnd + 8) packet
        (replaceOptRdata packet loc.rdataStart loc.rdataEnd (injectedRdata packet s)) ∧
      u16be (replaceOptRdata packet loc.rdataStart loc.rdataEnd (injectedRdata packet s))
        (loc.nameEnd + 8) = (injectedRdata packet s).length ∧
      packet.drop loc.rdataEnd =
        (replaceOptRdata packet loc.rdataStart loc.rdataEnd (injectedRdata packet s)).drop
          (loc.rdataStart + (injectedRdata packet s).length) := by
  obtain ⟨-, hstart, hle, hend⟩ := locateOpt_bounds hloc
  obtain ⟨hagree, hlen, -, -, hdrop⟩ :=
    replaceOptRdata_spec (p := packet) (show 2 ≤ loc.rdataStart by omega) hle hend hnew
  rw [show loc.rdataStart - 2 = loc.nameEnd + 8 by omega] at hagree hlen
  exact ⟨hagree, hlen, hdrop.symm⟩

theorem injected_of_rewritable (hq : AcceptedQuery packet fast) (hs : s.prefixLen.toNat ≤ s.addr.bits)
    (hloc : (locateOpt packet).join = some loc) (hinj : Injectable packet fast.questionEnd s) :
    ∃ front r back, EcsInjected packet fast.questionEnd s
      (replaceOptRdata packet loc.rdataStart loc.rdataEnd (injectedRdata packet s)) front r back := by
  simp only [Injectable, hloc] at hinj
  obtain ⟨rs, hrs, hfound, hlen, hothers⟩ := hinj
  have hnew : (injectedRdata packet s).length < 65536 := by rwa [injectedRdata, List.length_append]
  obtain ⟨hagree, -, hdrop⟩ := rewritten_spec hloc hnew
  have hp : Parsed packet fast.questionEnd rs := ⟨hq.length_ge, hq.skipQuestions_eq, hrs⟩
  obtain ⟨front, r, back, rfl, hfirst, rfl⟩ := hp.locateOpt_some_iff.mp hloc
  dsimp only at hfound hothers hagree hdrop ⊢
  have hreplaced := hp.replaceOptRdata hnew
  set out := replaceOptRdata packet r.rdataStart r.rrEnd (injectedRdata packet s) with hout
  obtain ⟨m, -, hr, hback⟩ := recordsFrom_eq_cons_iff.mp (recordsFrom_append hp.records).2
  have hstart := optStart_of_firstOpt hp hfirst
  have hb := parseRr_bounds hr
  set rewritten := r.resize (injectedRdata packet s).length with hrewritten
  have hfound' : findOptRecord out fast.questionEnd =
      some (rewritten.nameEnd, rewritten.rdataStart, rewritten.rrEnd) := by
    rw [hreplaced.parsed.findOptRecord_iff hfirst.isOpt, hreplaced.u16be_header (by omega)]
    exact (hp.findOptRecord_iff hfirst.isOpt).mp hfound
  have hrdata : OptionList (keptOptions packet ++ [encodeEcsOption s])
      (slice out rewritten.rdataStart rewritten.rrEnd) := by
    rw [hrewritten, Rr.resize, hreplaced.rdata]
    exact injectedRdata_options packet hs
  refine ⟨front, _, _, hreplaced.parsed, hstart.symm, ?_, hfirst.isOpt, hrdata, hfound',
    ecsSrc_of_found hs hfound' hrdata, ?_, ?_, ?_⟩
  · rw [hreplaced.leadingCount_eq]
    exact hfirst.additional
  · intro x hx
    rw [hreplaced.leadingCount_eq] at hx
    rcases List.mem_append.mp hx with hx | hx
    · exact fun hecs => Bool.false_ne_true ((hfirst.before x hx).symm.trans hecs.1)
    · obtain ⟨y, hy, rfl⟩ := List.mem_map.mp hx
      rw [Rr.hasEcs_shift hback hy hdrop]
      have hy' := recordsFrom_bounds hback y hy
      exact hothers y (by simp [hy]) (by omega)
  · intro i hi _ _
    exact (hagree.byteAt_eq (by omega)).symm
  · rw [hreplaced.u16be_header (by omega), hloc, Option.isSome_some, if_pos rfl, Nat.add_zero]

theorem rewritable_of_injected (hloc : (locateOpt packet).join = some loc)
    {front back : List Rr} {r : Rr} (h : EcsInjected packet fast.questionEnd s
      (replaceOptRdata packet loc.rdataStart loc.rdataEnd (injectedRdata packet s)) front r back) :
    Injectable packet fast.questionEnd s := by
  obtain ⟨located, hlocated, rfl⟩ := optStart_of_some hloc
  obtain ⟨hname, -, hlstart, hlend, hlfit⟩ := parseRr_fields hlocated
  -- the RDATA of a record is never too long, so the new options fit
  have hrdata : slice (replaceOptRdata packet located.rdataStart located.rrEnd (injectedRdata packet s))
      r.rdataStart r.rrEnd = injectedRdata packet s := by
    rw [h.rdata.flatten, injectedRdata]
    simp
  have hnew : (injectedRdata packet s).length < 65536 := by
    have hb := recordsFrom_bounds h.parsed.records r (by simp)
    have hlt := recordsFrom_rdata_lt h.parsed.records r (by simp)
    rw [← hrdata, length_slice hb.2.2.2]
    omega
  obtain ⟨hagree, hlen, hdrop⟩ := rewritten_spec hloc hnew
  set out := replaceOptRdata packet located.rdataStart located.rrEnd (injectedRdata packet s) with hout
  obtain ⟨m, -, hr, hback⟩ := recordsFrom_eq_cons_iff.mp (recordsFrom_append h.parsed.records).2
  rw [h.start] at hr
  -- the record of `out` lies where the packet has it
  have hrname : r.nameEnd = located.nameEnd := by
    have h1 := skipName_agree hagree hname (by simp)
    exact Option.some.inj ((parseRr_fields hr).1.symm.trans h1)
  have hrstart : r.rdataStart = located.rdataStart := by
    rw [(parseRr_fields hr).2.2.1, hlstart, hrname]
  have hrend : r.rrEnd = located.rdataStart + (injectedRdata packet s).length := by
    rw [(parseRr_fields hr).2.2.2.1, hrstart, hrname, hlen]
  have htail : out.drop r.rrEnd =
      packet.drop (r.rdataStart + u16be packet (located.nameEnd + 8)) := by
    rw [hrend, hrstart, ← hlend]
    exact hdrop.symm
  have hshared : Agree (r.nameEnd + 8) out packet := by
    rw [hrname]
    exact hagree.symm
  have hp := h.parsed.splice hshared (show _ = u16be packet (located.nameEnd + 8) by rw [hrname]) (by omega)
    htail
  have hfound := (h.parsed.findOptRecord_iff h.isOpt).mp h.found
  have har : u16be out 10 = u16be packet 10 := by
    rw [h.arcount, hloc, Option.isSome_some, if_pos rfl, Nat.add_zero]
  simp only [Injectable, hloc]
  refine ⟨_, hp.records, ?_, by rwa [injectedRdata, List.length_append] at hnew, ?_⟩
  · rw [har] at hfound
    have := (hp.findOptRecord_iff h.isOpt).mpr hfound
    rw [this]
    simp only [Rr.resize, hrname, hrstart, ← hlend]
  · intro x hx hbehind
    have hpair := recordsFrom_layout hp.records
    have hxb := recordsFrom_bounds hp.records x hx
    rcases List.mem_append.mp hx with hx | hx
    · have := (List.pairwise_append.mp hpair).2.2 x hx _ List.mem_cons_self
      simp only [Rr.resize] at this
      omega
    · rcases List.mem_cons.mp hx with rfl | hx
      · simp only [Rr.resize] at hbehind
        omega
      · obtain ⟨y, hy, rfl⟩ := List.mem_map.mp hx
        rw [Rr.hasEcs_shift hback hy htail]
        exact h.others y (List.mem_append_right _ hy)

end Rewrite

section Append

variable {packet : Packet} {fast : FastQueryInfo} {s : EcsSubnet}

theorem parseRr_optRecord {rdata : List UInt8} (h : rdata.length < 65536) :
    parseRr (optRecord rdata) 0 = some ⟨1, 41, 4096, 0, 11, 11 + rdata.length⟩ := by
  have hlen : (optRecord rdata).length = 11 + rdata.length := by
    simp only [optRecord, List.length_append, List.length_cons, List.length_nil, length_encU16be]
  have hname : skipName (optRecord rdata) 0 = some 1 := by
    simp [optRecord, skipName, skipNameLoop]
  have hrdlen : u16be (optRecord rdata) (1 + 8) = rdata.length := u16be_encU16be h rfl rfl
  have htype : u16be (optRecord rdata) 1 = 41 := u16be_encU16be (by norm_num) rfl rfl
  have hclass : u16be (optRecord rdata) (1 + 2) = 4096 := u16be_encU16be (by norm_num) rfl rfl
  have httl : u32be (optRecord rdata) (1 + 4) = 0 := by
    rw [u32be, show u16be (optRecord rdata) (1 + 4) = 0 from u16be_encU16be (by norm_num) rfl rfl,
      show u16be (optRecord rdata) (1 + 4 + 2) = 0 from u16be_encU16be (by norm_num) rfl rfl]
  rw [parseRr, hname]
  simp only [hrdlen, htype, hclass, httl]
  rw [if_neg (by omega), if_neg (by omega)]

/-- The packet with an OPT record appended. -/
def appended (packet : Packet) (s : EcsSubnet) : Packet :=
  patch (packet ++ optRecord (encodeEcsOption s)) 10 (encU16be (u16be packet 10 + 1))

/-- The appended record. -/
def appendedRr (packet : Packet) (s : EcsSubnet) : Rr where
  nameEnd := packet.length + 1
  rrType := 41
  cls := 4096
  ttl := 0
  rdataStart := packet.length + 11
  rrEnd := packet.length + 11 + (encodeEcsOption s).length

/-- The bytes of the packet with an OPT record appended. -/
structure AppendedTo (packet : Packet) (s : EcsSubnet) (out : Packet) : Prop where
  drop : ∀ i, 12 ≤ i → out.drop i = (packet ++ optRecord (encodeEcsOption s)).drop i
  byte : ∀ i, i < packet.length → i ≠ 10 → i ≠ 11 → byteAt out i = byteAt packet i
  length : out.length = packet.length + 11 + (encodeEcsOption s).length
  arcount : u16be packet 10 < 65535 → u16be out 10 = u16be packet 10 + 1
  record : parseRr out packet.length = some (appendedRr packet s)
  rdata : slice out (packet.length + 11) (packet.length + 11 + (encodeEcsOption s).length) =
    encodeEcsOption s

theorem appended_spec (hlen : 12 ≤ packet.length) (hs : s.prefixLen.toNat ≤ s.addr.bits) :
    AppendedTo packet s (appended packet s) := by
  have hoptLen : (optRecord (encodeEcsOption s)).length = 11 + (encodeEcsOption s).length := by
    simp only [optRecord, List.length_append, List.length_cons, List.length_nil, length_encU16be]
  have hfit : 10 + (encU16be (u16be packet 10 + 1)).length ≤
      (packet ++ optRecord (encodeEcsOption s)).length := by
    rw [length_encU16be, List.length_append]
    omega
  have hsmall : (encodeEcsOption s).length < 65536 := by
    have := (encodeEcsOption_fields hs).2.2.1
    have := s.prefixLen.toNat_lt
    have : s.byteCount ≤ 32 := by
      rw [EcsSubnet.byteCount]
      omega
    omega
  have hdrop : ∀ i, 12 ≤ i → (appended packet s).drop i =
      (packet ++ optRecord (encodeEcsOption s)).drop i := fun i hi => drop_patch hfit hi
  have hout : (appended packet s).length = packet.length + 11 + (encodeEcsOption s).length := by
    rw [appended, length_patch hfit, List.length_append, hoptLen, Nat.add_assoc]
  have hend : (appended packet s).drop packet.length = (optRecord (encodeEcsOption s)).drop 0 := by
    rw [hdrop _ hlen, List.drop_left, List.drop_zero]
  refine ⟨hdrop, ?_, hout, ?_, ?_, ?_⟩
  · intro i hi h10 h11
    rw [appended, byteAt_patch_out hfit (by rw [length_encU16be]; omega), byteAt_append_left hi]
  · intro har
    refine u16be_encU16be (by omega) ?_ ?_
    · exact byteAt_patch_in (k := 0) hfit (by rw [length_encU16be]; omega)
    · exact byteAt_patch_in (k := 1) hfit (by rw [length_encU16be]; omega)
  · rw [parseRr_suffix (Nat.zero_le _) (by omega) hend.symm, parseRr_optRecord hsmall]
    simp only [Option.map_some, Option.some.injEq, Rr.shift, appendedRr, Rr.mk.injEq, true_and]
    omega
  · have hskip : (appended packet s).drop (packet.length + 11) = encodeEcsOption s := by
      rw [← List.drop_drop, hend, List.drop_zero, optRecord]
      exact List.drop_left' (by simp)
    rw [slice, hskip, Nat.add_sub_cancel_left, List.take_length]

variable {out : Packet}

/-- The records of the packet are those of the result up to the end of the packet. -/
theorem AppendedTo.recordsFrom_iff {n pos : Nat} {rs : List Rr} (h : AppendedTo packet s out) (hpos : 12 ≤ pos)
    (hle : pos ≤ packet.length) (hend : endOf pos rs ≤ packet.length) :
    recordsFrom out n pos = some rs ↔ recordsFrom packet n pos = some rs := by
  have hagree := Agree.append packet (optRecord (encodeEcsOption s))
  rw [recordsFrom_eq_some_iff, readable_tail (p := packet ++ optRecord (encodeEcsOption s))
    (by rw [List.length_append]; omega) (by rw [h.length]; omega) (h.drop pos hpos).symm,
    ← recordsFrom_eq_some_iff]
  exact ⟨fun hrs => recordsFrom_agree hagree.symm hrs hend, fun hrs => recordsFrom_agree hagree hrs hend⟩

theorem AppendedTo.leadingCount_eq (h : AppendedTo packet s out) (hlen : 12 ≤ packet.length) :
    leadingCount out = leadingCount packet := by
  simp only [leadingCount, u16be, h.byte 6 (by omega) (by omega) (by omega),
    h.byte (6 + 1) (by omega) (by omega) (by omega), h.byte 8 (by omega) (by omega) (by omega),
    h.byte (8 + 1) (by omega) (by omega) (by omega)]

theorem AppendedTo.questions (h : AppendedTo packet s out) (hq : AcceptedQuery packet fast) :
    skipQuestions out (u16be out 4) 12 = some fast.questionEnd := by
  have hlen := hq.length_ge
  have hqd : u16be out 4 = u16be packet 4 := by
    rw [u16be, u16be, h.byte 4 (by omega) (by omega) (by omega),
      h.byte (4 + 1) (by omega) (by omega) (by omega)]
  rw [hqd, skipQuestions_tail (p := packet ++ optRecord (encodeEcsOption s))
    (by rw [List.length_append]; omega) (by rw [h.length]; omega) (h.drop 12 (Nat.le_refl _)).symm]
  exact skipQuestions_agree (Agree.append packet _) hq.skipQuestions_eq hq.questionEnd_le

theorem injected_of_appendable (hq : AcceptedQuery packet fast) (hs : s.prefixLen.toNat ≤ s.addr.bits)
    (hloc : (locateOpt packet).join = none) (hinj : Injectable packet fast.questionEnd s) :
    ∃ front r back, EcsInjected packet fast.questionEnd s (appended packet s) front r back := by
  have hlen := hq.length_ge
  have hge := hq.questionEnd_ge
  have hout := appended_spec (s := s) hlen hs
  simp only [Injectable, hloc] at hinj
  obtain ⟨hlead, har, hskip⟩ := hinj
  rw [skipRecords_eq, Option.map_eq_some_iff] at hskip
  obtain ⟨front, hfront, hend⟩ := hskip
  have hp : Parsed packet fast.questionEnd front := by
    refine ⟨hlen, hq.skipQuestions_eq, ?_⟩
    rw [sectionRecords, ← leadingCount, hlead, Nat.zero_add]
    exact hfront
  have hcount : leadingCount (appended packet s) = 0 := by rw [hout.leadingCount_eq hlen, hlead]
  have hparsed : Parsed (appended packet s) fast.questionEnd (front ++ [appendedRr packet s]) := by
    refine ⟨by rw [hout.length]; omega, hout.questions hq, ?_⟩
    rw [sectionRecords, ← leadingCount, hcount, Nat.zero_add, hout.arcount har, recordsFrom_add,
      (hout.recordsFrom_iff (by omega) hq.questionEnd_le (by omega)).mpr hfront, Option.bind_some,
      hend, recordsFrom, hout.record]
    rfl
  -- without an OPT record in the additional section there is none at all
  have hnone : ∀ x ∈ front, x.isOpt = false := by
    have hfind := hp.locateOpt_join
    rw [hloc, eq_comm, Option.map_eq_none_iff, hlead, List.drop_zero, List.find?_eq_none] at hfind
    intro x hx
    simpa using hfind x hx
  have hfound : findOptRecord (appended packet s) fast.questionEnd = some ((appendedRr packet s).nameEnd,
      (appendedRr packet s).rdataStart, (appendedRr packet s).rrEnd) := by
    rw [hparsed.findOptRecord_iff rfl, hout.arcount har, length_recordsFrom hfront]
    exact ⟨Nat.lt_succ_self _, hnone⟩
  have hkept : keptOptions packet = [] := by
    rw [keptOptions, hloc]
  have hrdata : OptionList (keptOptions packet ++ [encodeEcsOption s])
      (slice (appended packet s) (appendedRr packet s).rdataStart (appendedRr packet s).rrEnd) := by
    have hnew := injectedRdata_options packet hs
    rw [injectedRdata, hkept, List.flatten_nil, List.nil_append] at hnew
    rw [appendedRr, hout.rdata, hkept]
    exact hnew
  refine ⟨front, appendedRr packet s, [], hparsed, ?_, ?_, rfl, hrdata, hfound,
    ecsSrc_of_found hs hfound hrdata, ?_, ?_, ?_⟩
  · rw [hend, optStart_of_none hloc]
  · rw [hcount]
    exact Nat.zero_le _
  · intro x hx
    rw [List.append_nil] at hx
    exact fun hecs => Bool.false_ne_true ((hnone x (List.mem_of_mem_drop hx)).symm.trans hecs.1)
  · intro i hi h10 h11
    rw [optStart_of_none hloc] at hi
    exact hout.byte i hi h10 h11
  · rw [hout.arcount har, hloc]
    rfl

theorem appendable_of_injected (hq : AcceptedQuery packet fast) (hs : s.prefixLen.toNat ≤ s.addr.bits)
    (hloc : (locateOpt packet).join = none) {front back : List Rr} {r : Rr}
    (h : EcsInjected packet fast.questionEnd s (appended packet s) front r back) :
    Injectable packet fast.questionEnd s := by
  have hlen := hq.length_ge
  have hge := hq.questionEnd_ge
  have hout := appended_spec (s := s) hlen hs
  have hstart := h.start
  rw [optStart_of_none hloc] at hstart
  have harcount : u16be (appended packet s) 10 = u16be packet 10 + 1 := by
    rw [h.arcount, hloc, Option.isSome_none]
    exact rfl
  have hlt := u16be_lt (appended packet s) 10
  obtain ⟨hfront, hrest⟩ := recordsFrom_append h.parsed.records
  obtain ⟨m, hm, hr, hback⟩ := recordsFrom_eq_cons_iff.mp hrest
  rw [hstart, hout.record] at hr
  obtain rfl := Option.some.inj hr
  -- the appended record ends the packet, so it is the last
  have hnil : back = [] := by
    cases back with
    | nil => rfl
    | cons x back =>
      obtain ⟨-, -, hx, -⟩ := recordsFrom_eq_cons_iff.mp hback
      have := parseRr_bounds hx
      have := hout.length
      simp only [appendedRr] at *
      omega
  subst hnil
  have htotal := length_recordsFrom h.parsed.records
  rw [← leadingCount, hout.leadingCount_eq hlen, harcount, List.length_append, List.length_singleton] at htotal
  have hfound := ((h.parsed.findOptRecord_iff h.isOpt).mp h.found).1
  rw [harcount] at hfound
  have hn : front.length = u16be packet 10 := by omega
  simp only [Injectable, hloc]
  refine ⟨by omega, by omega, ?_⟩
  rw [hn, hout.recordsFrom_iff (by omega) hq.questionEnd_le (by omega)] at hfront
  rw [skipRecords_eq, hfront, Option.map_some, hstart]

end Append

/-- For every accepted query and every configured subnet, when `inject_or_replace_ecs` returns a packet, that
packet carries the subnet as it should exactly when the query is one of those. -/
theorem injectOrReplaceEcs_iff {query out : Packet} {fast : FastQueryInfo} {text : Str} {s : EcsSubnet}
    (hquery : parseQueryFast query = .ok fast) (htext : parseEcsSubnet text = .ok s)
    (hout : injectOrReplaceEcs query s = some out) :
    (∃ front r back, EcsInjected query fast.questionEnd s out front r back) ↔
      Injectable query fast.questionEnd s := by
  have hq := parseQueryFast_spec hquery
  have hs := parseEcsSubnet_prefixLen htext
  rcases injectOrReplaceEcs_cases hout with ⟨loc, hloc, rfl⟩ | ⟨hloc, rfl⟩
  · constructor
    · rintro ⟨front, r, back, h⟩
      exact rewritable_of_injected hloc h
    · exact injected_of_rewritable hq hs hloc
  · constructor
    · rintro ⟨front, r, back, h⟩
      exact appendable_of_injected hq hs hloc h
    · exact injected_of_appendable hq hs hloc

/-- The subnet of the option `ecsOption`. -/
def documentationSubnet : EcsSubnet := ⟨.v4 0xc0000200, 24⟩

theorem injectOrReplaceEcs_iff_plain :
    ∃ front r back, EcsInjected (queryWith 0 []) 19 documentationSubnet
      (queryWith 1 (optRecord ecsOption)) front r back := by
  have hquery : parseQueryFast (queryWith 0 []) = .ok (fastInfo (queryWith 0 [])) := by decide +kernel
  have htext : parseEcsSubnet "192.0.2.0/24".toList = .ok documentationSubnet := by decide +kernel
  have hout : injectOrReplaceEcs (queryWith 0 []) documentationSubnet =
      some (queryWith 1 (optRecord ecsOption)) := by decide +kernel
  refine (injectOrReplaceEcs_iff hquery htext hout).mpr ?_
  have hjoin : (locateOpt (queryWith 0 [])).join = none := by decide +kernel
  simp only [Injectable, hjoin]
  decide +kernel

/-- A byte behind the question: the appended record is not read as one. A record announced behind the OPT
record and missing: the result does not parse. A record in the answer section: `extract_variant` does not
look as far as the appended record. -/
theorem injectOrReplaceEcs_loses_subnet :
    (injectOrReplaceEcs (queryWith 0 [0]) documentationSubnet).map
        (fun out => ((extractVariant out 19).ecsSrc, optRdatas out)) = some (none, []) ∧
    (injectOrReplaceEcs (queryWith 2 (optRecord [])) documentationSubnet).map (sectionRecords · 19) =
      some none ∧
    (injectOrReplaceEcs (sectionedQuery 1 0 0 emptyRecord) documentationSubnet).map
        (fun out => (extractVariant out 19).ecsSrc) = some none ∧
    [queryWith 0 [0], queryWith 2 (optRecord []), sectionedQuery 1 0 0 emptyRecord].all
      (fun q => (parseQueryFast q).isOk) := by
  decide +kernel

end PathDns
