import PathDns.Dns.EcsStrip
import PathDns.Lib.Search

/-!
# The records of a packet and its two OPT searches

`find_opt_record` and `locate_opt` walk the records behind the question. In terms of the records that can
be read there, the first searches the front as many as ARCOUNT says, the second those behind the answer
and authority records. On a query they agree exactly when no OPT record lies where only one of them looks
first (`optSearches_agree_iff`).
-/

namespace PathDns

open Bytes

/-- `find_opt_record` finds the first OPT record it can read. -/
theorem findOptRecordLoop_eq (packet : Packet) (n pos : Nat) :
    findOptRecordLoop packet n pos =
      ((readable packet n pos).find? Rr.isOpt).map (fun r => (r.nameEnd, r.rdataStart, r.rrEnd)) := by
  induction n generalizing pos with
  | zero => rfl
  | succ n ih =>
    rw [findOptRecordLoop, readable, parseRr]
    cases skipName packet pos with
    | none => rfl
    | some e =>
      simp only
      split_ifs with h10 hend hopt
      · rfl
      · rfl
      · simp [Rr.isOpt, hopt]
      · simp [Rr.isOpt, beq_eq_false_iff_ne.mpr hopt, ih]

/-! ### The two searches -/

/-- ANCOUNT plus NSCOUNT: the records in front of the additional section. -/
def leadingCount (packet : Packet) : Nat := u16be packet 6 + u16be packet 8

/-- The records behind the question, as many as the header announces. -/
def announcedRecords (packet : Packet) (questionEnd : Nat) : List Rr :=
  readable packet (leadingCount packet + u16be packet 10) questionEnd

variable {packet : Packet}

/-- What `find_opt_record` reports: the first OPT record among the front ARCOUNT records. -/
theorem findOptRecord_eq (hlen : 12 ≤ packet.length) (questionEnd : Nat) :
    findOptRecord packet questionEnd =
      ((((announcedRecords packet questionEnd).take (u16be packet 10)).drop 0).find? Rr.isOpt).map
        (fun r => (r.nameEnd, r.rdataStart, r.rrEnd)) := by
  rw [List.drop_zero, announcedRecords, Nat.add_comm, readable_take, findOptRecord, if_neg (by omega)]
  simp only
  split_ifs with hnone
  · rcases hnone with h0 | hend
    · rw [h0]
      rfl
    · rw [readable_of_le hend]
      rfl
  · exact findOptRecordLoop_eq _ _ _

variable {questionEnd : Nat}

theorem additionalStart_of_questions (h : skipQuestions packet (u16be packet 4) 12 = some questionEnd) :
    additionalStart packet = skipRecords packet (leadingCount packet) questionEnd := by
  rw [additionalStart, h]
  rfl

/-- The additional records are those behind the answer and authority records. -/
theorem additionalRecords_eq (h : skipQuestions packet (u16be packet 4) 12 = some questionEnd) :
    additionalRecords packet = ((announcedRecords packet questionEnd).take
      (leadingCount packet + u16be packet 10)).drop (leadingCount packet) := by
  have hall : (announcedRecords packet questionEnd).take (leadingCount packet + u16be packet 10) =
      announcedRecords packet questionEnd := List.take_of_length_le (length_readable_le _ _ _)
  rw [hall, announcedRecords, readable_drop, additionalRecords, additionalStart_of_questions h]

theorem AcceptedQuery.skipQuestions_eq {query : Packet} {fast : FastQueryInfo}
    (hq : AcceptedQuery query fast) :
    skipQuestions query (u16be query 4) 12 = some fast.questionEnd :=
  skipQuestions_of_one hq.qdcount hq.questionEnd_eq

/-- The RDATA range that `find_opt_record` reports. -/
def foundRange (packet : Packet) (questionEnd : Nat) : Option (Nat × Nat) :=
  (findOptRecord packet questionEnd).map (fun r => (r.2.1, r.2.2))

/-- The RDATA range that `locate_opt` reports. -/
def locatedRange (packet : Packet) : Option (Nat × Nat) :=
  (locateOpt packet).join.map (fun loc => (loc.rdataStart, loc.rdataEnd))

/-- No OPT record lies where only one search looks first. With `k` answer and authority records and `n`
additional ones announced, none of the front `min n k` records is one; and if one lies behind the front
`max n k`, then one lies between the front `k` and the front `n` too. -/
structure OptPlaced (packet : Packet) (questionEnd : Nat) : Prop where
  front : ∀ i r, i < u16be packet 10 → i < leadingCount packet →
    (announcedRecords packet questionEnd)[i]? = some r → r.isOpt = false
  back : ∀ i r, u16be packet 10 ≤ i → leadingCount packet ≤ i →
    (announcedRecords packet questionEnd)[i]? = some r → r.isOpt = true →
    ∃ j s, leadingCount packet ≤ j ∧ j < u16be packet 10 ∧
      (announcedRecords packet questionEnd)[j]? = some s ∧ s.isOpt = true

/-- With OPT records placed so, both searches stop at the same record. -/
theorem OptPlaced.find?_eq (hplaced : OptPlaced packet questionEnd) :
    (((announcedRecords packet questionEnd).take (u16be packet 10)).drop 0).find? Rr.isOpt =
      (((announcedRecords packet questionEnd).take (leadingCount packet + u16be packet 10)).drop
        (leadingCount packet)).find? Rr.isOpt := by
  cases hfind : (((announcedRecords packet questionEnd).take (u16be packet 10)).drop 0).find? Rr.isOpt with
  | none =>
    have hnone := Search.find?_window_eq_none.mp hfind
    rw [eq_comm, Search.find?_window_eq_none]
    intro i r hk _ hr
    by_contra hopt
    rcases Nat.lt_or_ge i (u16be packet 10) with hi | hi
    · exact hopt (hnone i r (Nat.zero_le _) hi hr)
    · obtain ⟨j, s, -, hj, hs, hsopt⟩ := hplaced.back i r hi hk hr (by simpa using hopt)
      rw [hnone j s (Nat.zero_le _) hj hs] at hsopt
      exact absurd hsopt Bool.false_ne_true
  | some a =>
    obtain ⟨x, -, hxn, hx, hxopt, hbefore⟩ := Search.find?_window_eq_some.mp hfind
    rw [eq_comm, Search.find?_window_eq_some]
    refine ⟨x, ?_, by omega, hx, hxopt, fun j s _ hj hs => hbefore j s (Nat.zero_le _) hj hs⟩
    by_contra hk
    rw [hplaced.front x a hxn (by omega) hx] at hxopt
    exact absurd hxopt Bool.false_ne_true

/-- Then `find_opt_record` finds the first OPT record of the additional section. -/
theorem OptPlaced.findOptRecord_eq (hplaced : OptPlaced packet questionEnd) (hlen : 12 ≤ packet.length)
    (h : skipQuestions packet (u16be packet 4) 12 = some questionEnd) :
    findOptRecord packet questionEnd = ((additionalRecords packet).find? Rr.isOpt).map
      (fun r => (r.nameEnd, r.rdataStart, r.rrEnd)) := by
  rw [PathDns.findOptRecord_eq hlen, hplaced.find?_eq, additionalRecords_eq h]

/-- A query without answer and authority records has its OPT records placed so. -/
theorem optPlaced_of_leading (h : leadingCount packet = 0) (questionEnd : Nat) :
    OptPlaced packet questionEnd where
  front i r _ hi := by omega
  back i r hi _ hr := by
    have hlen := length_readable_le packet (leadingCount packet + u16be packet 10) questionEnd
    have hlt := (List.getElem?_eq_some_iff.mp hr).1
    rw [announcedRecords] at hlt
    omega

theorem announcedRecords_inj {i j : Nat} {r s : Rr} (hr : (announcedRecords packet questionEnd)[i]? = some r)
    (hs : (announcedRecords packet questionEnd)[j]? = some s) (h : r.rdataStart = s.rdataStart) : i = j := by
  have hpair := readable_layout packet (leadingCount packet + u16be packet 10) questionEnd
  rw [← announcedRecords] at hpair
  have hrs := readable_bounds (List.mem_of_getElem? hr)
  have hss := readable_bounds (List.mem_of_getElem? hs)
  obtain ⟨hi, rfl⟩ := List.getElem?_eq_some_iff.mp hr
  obtain ⟨hj, rfl⟩ := List.getElem?_eq_some_iff.mp hs
  rcases Nat.lt_trichotomy i j with hij | hij | hij
  · have := List.pairwise_iff_getElem.mp hpair i j hi hj hij
    omega
  · exact hij
  · have := List.pairwise_iff_getElem.mp hpair j i hj hi hij
    omega

/-- On an accepted query the two searches report the same RDATA range, or none, exactly when its OPT
records are placed so. -/
theorem optSearches_agree_iff {query : Packet} {fast : FastQueryInfo}
    (h : parseQueryFast query = .ok fast) :
    foundRange query fast.questionEnd = locatedRange query ↔ OptPlaced query fast.questionEnd := by
  have hq := parseQueryFast_spec h
  rw [foundRange, locatedRange, findOptRecord_eq hq.length_ge, locateOpt_join,
    additionalRecords_eq hq.skipQuestions_eq, Option.map_map, Option.map_map]
  constructor
  · intro heq
    constructor
    · intro i r hi hk hr
      by_contra hopt
      -- the front search finds a record at `i` or before, the other one behind it
      cases hfind : (((announcedRecords query fast.questionEnd).take (u16be query 10)).drop 0).find?
          Rr.isOpt with
      | none => exact hopt (Search.find?_window_eq_none.mp hfind i r (Nat.zero_le _) hi hr)
      | some a =>
        rw [hfind, Option.map_some, eq_comm, Option.map_eq_some_iff] at heq
        obtain ⟨b, hb, hrange⟩ := heq
        obtain ⟨x, -, -, hx, -, hbefore⟩ := Search.find?_window_eq_some.mp hfind
        obtain ⟨y, hy, -, hyb, -, -⟩ := Search.find?_window_eq_some.mp hb
        have hxy : y = x := announcedRecords_inj hyb hx (Prod.mk.inj hrange).1
        exact hopt (hbefore i r (Nat.zero_le _) (by omega) hr)
    · intro i r hn hk hr hopt
      have hlen := length_readable_le query (leadingCount query + u16be query 10) fast.questionEnd
      have hi : i < leadingCount query + u16be query 10 :=
        Nat.lt_of_lt_of_le (List.getElem?_eq_some_iff.mp hr).1 hlen
      cases hfind : (((announcedRecords query fast.questionEnd).take
          (leadingCount query + u16be query 10)).drop (leadingCount query)).find? Rr.isOpt with
      | none =>
        rw [Search.find?_window_eq_none.mp hfind i r hk hi hr] at hopt
        exact absurd hopt Bool.false_ne_true
      | some b =>
        rw [hfind, Option.map_some, Option.map_eq_some_iff] at heq
        obtain ⟨a, ha, hrange⟩ := heq
        obtain ⟨x, -, hxn, hx, hxopt, -⟩ := Search.find?_window_eq_some.mp ha
        obtain ⟨y, hy, -, hyb, -, -⟩ := Search.find?_window_eq_some.mp hfind
        have hxy : x = y := announcedRecords_inj hx hyb (Prod.mk.inj hrange).1
        exact ⟨x, a, by omega, hxn, hx, hxopt⟩
  · intro hplaced
    rw [hplaced.find?_eq]
    rfl

/-- A query for the A record of `a` with the given counts and records. -/
def sectionedQuery (ancount nscount arcount : UInt8) (records : List UInt8) : Packet :=
  [0x12, 0x34, 1, 0, 0, 1, 0, ancount, 0, nscount, 0, arcount, 1, 97, 0, 0, 1, 0, 1] ++ records

/-- A record of type A at the root without RDATA. -/
def emptyRecord : List UInt8 := [0, 0, 1, 0, 1, 0, 0, 0, 0, 0, 0]

theorem optSearches_agree_iff_sample :
    foundRange (sectionedQuery 0 0 1 (optRecord ecsOption)) 19 = some (30, 41) ∧
    OptPlaced (sectionedQuery 0 0 1 (optRecord ecsOption)) 19 := by
  have h : parseQueryFast (sectionedQuery 0 0 1 (optRecord ecsOption)) =
      .ok (fastInfo (sectionedQuery 0 0 1 (optRecord ecsOption))) := by decide +kernel
  exact ⟨by decide +kernel, (optSearches_agree_iff h).mp (by decide +kernel)⟩

/-- With a record in the answer section, `find_opt_record` stops before the OPT record of the additional
section; an OPT record in the answer section is found by it alone. -/
theorem optSearches_disagree :
    (parseQueryFast (sectionedQuery 1 0 1 (emptyRecord ++ optRecord ecsOption))).isOk ∧
    foundRange (sectionedQuery 1 0 1 (emptyRecord ++ optRecord ecsOption)) 19 = none ∧
    locatedRange (sectionedQuery 1 0 1 (emptyRecord ++ optRecord ecsOption)) = some (41, 52) ∧
    foundRange (sectionedQuery 1 0 1 (optRecord ecsOption ++ emptyRecord)) 19 = some (30, 41) ∧
    locatedRange (sectionedQuery 1 0 1 (optRecord ecsOption ++ emptyRecord)) = none := by
  decide +kernel

end PathDns
