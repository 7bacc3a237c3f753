import PathDns.Dns.Splice

/-!
# Responses that do not fit a UDP client (`maybe_truncate_for_udp`)

A response that is longer than what the client takes is replaced by a stub: its header with TC set and
empty sections, the question, and an OPT record if the query has one. The limit is never below 512 bytes,
which the longest stub respects.
-/

namespace PathDns

open Bytes

def clientUdpPayloadSize (packet : Packet) (questionEnd : Nat) : Nat :=
  match findOptRecord packet questionEnd with
  | some (nameEnd, _, _) => max (u16be packet (nameEnd + 2)) 512
  | none => 512

def hasOptRecord (packet : Packet) (questionEnd : Nat) : Bool := (findOptRecord packet questionEnd).isSome

def tcOptRr : List UInt8 := [0x00, 0x00, 0x29, 0x04, 0xd0, 0x00, 0x00, 0x00, 0x00, 0x00, 0x00]

/-- The stub of a response, with an OPT record if the client used EDNS. -/
def tcStub (resp : Packet) (questionEnd : Nat) (clientEdns : Bool) : Packet :=
  let stub := resp.take questionEnd
  let stub := patch stub 2 [byteAt stub 2 ||| 0x02]
  let stub := patch stub 6 [0, 0, 0, 0]
  if clientEdns then patch (stub ++ tcOptRr) 10 [0, 1] else patch stub 10 [0, 0]

def maybeTruncateForUdp (resp query : Packet) : Packet :=
  match questionEnd query with
  | none => resp
  | some qe =>
    let limit := clientUdpPayloadSize query qe
    if resp.length ≤ limit then resp
    else if resp.length < qe ∨ qe < 12 then resp
    else tcStub resp qe (hasOptRecord query qe)

/-! ### The bytes of a stub -/

/-- The OPT record of a stub. -/
def stubOpt (clientEdns : Bool) : List UInt8 := if clientEdns then tcOptRr else []

/-- The header of a stub. -/
def stubHeader (resp : Packet) (clientEdns : Bool) : List UInt8 :=
  [byteAt resp 0, byteAt resp 1, byteAt resp 2 ||| 0x02, byteAt resp 3, byteAt resp 4, byteAt resp 5,
    0, 0, 0, 0, 0, if clientEdns then 1 else 0]

theorem exists_header {p : Packet} (h : 12 ≤ p.length) : ∃ b0 b1 b2 b3 b4 b5 b6 b7 b8 b9 b10 b11 rest,
    p = b0 :: b1 :: b2 :: b3 :: b4 :: b5 :: b6 :: b7 :: b8 :: b9 :: b10 :: b11 :: rest := by
  match p, h with
  | b0 :: b1 :: b2 :: b3 :: b4 :: b5 :: b6 :: b7 :: b8 :: b9 :: b10 :: b11 :: rest, _ =>
    exact ⟨b0, b1, b2, b3, b4, b5, b6, b7, b8, b9, b10, b11, rest, rfl⟩

variable {resp : Packet}

/-- A stub is its header, the question of the response and the OPT record. -/
theorem tcStub_eq {qe : Nat} (hqe : 12 ≤ qe) (hlen : qe ≤ resp.length) (clientEdns : Bool) :
    tcStub resp qe clientEdns = stubHeader resp clientEdns ++ (slice resp 12 qe ++ stubOpt clientEdns) := by
  obtain ⟨b0, b1, b2, b3, b4, b5, b6, b7, b8, b9, b10, b11, rest, rfl⟩ := exists_header (hqe.trans hlen)
  obtain ⟨k, rfl⟩ := Nat.exists_eq_add_of_le hqe
  rw [Nat.add_comm]
  cases clientEdns with
  | false => simp [tcStub, stubHeader, stubOpt, patch, slice, byteAt]
  | true => simp [tcStub, stubHeader, stubOpt, patch, slice, byteAt]

/-! ### What is returned -/

/-- The payload size in the OPT record of the query, 0 without one. -/
def advertisedSize (query : Packet) (questionEnd : Nat) : Nat :=
  ((findOptRecord query questionEnd).map (fun r => u16be query (r.1 + 2))).getD 0

theorem clientUdpPayloadSize_eq (query : Packet) (questionEnd : Nat) :
    clientUdpPayloadSize query questionEnd = max 512 (advertisedSize query questionEnd) := by
  rw [clientUdpPayloadSize, advertisedSize]
  cases findOptRecord query questionEnd with
  | none => rfl
  | some r => exact Nat.max_comm _ _

/-- What a truncated response is, as a packet of its own. -/
structure Truncated (query resp : Packet) (questionEnd : Nat) (out : Packet) : Prop where
  id : u16be out 0 = u16be resp 0
  tc : byteAt out 2 &&& 0x02 = 0x02
  flags : byteAt out 2 &&& 0xfd = byteAt resp 2 &&& 0xfd ∧ byteAt out 3 = byteAt resp 3
  qdcount : u16be out 4 = u16be resp 4
  question : slice out 12 questionEnd = slice query 12 questionEnd
  ancount : u16be out 6 = 0
  nscount : u16be out 8 = 0
  records : ∃ rs, recordsFrom out (u16be out 6 + u16be out 8 + u16be out 10) questionEnd = some rs ∧
    endOf questionEnd rs = out.length ∧ rs.length = u16be out 10 ∧
    ((findOptRecord query questionEnd).isSome = true ∧ (∃ r, rs = [r] ∧ r.rrType = 41) ∨
      findOptRecord query questionEnd = none ∧ rs = [])

theorem tc_bits (b : UInt8) : (b ||| 0x02) &&& 0x02 = 0x02 ∧ (b ||| 0x02) &&& 0xfd = b &&& 0xfd := by
  have hall : ∀ n < 256, (UInt8.ofNat n ||| 0x02) &&& 0x02 = 0x02 ∧
      (UInt8.ofNat n ||| 0x02) &&& 0xfd = UInt8.ofNat n &&& 0xfd := by decide +kernel
  have h := hall b.toNat b.toNat_lt
  rwa [UInt8.ofNat_toNat] at h

theorem recordsFrom_stub (front : List UInt8) (clientEdns : Bool) :
    ∃ rs, recordsFrom (front ++ stubOpt clientEdns) (if clientEdns then 1 else 0) front.length = some rs ∧
      endOf front.length rs = (front ++ stubOpt clientEdns).length ∧
      rs.length = (if clientEdns then 1 else 0) ∧
      (clientEdns = true ∧ (∃ r, rs = [r] ∧ r.rrType = 41) ∨ clientEdns = false ∧ rs = []) := by
  cases clientEdns with
  | false => exact ⟨[], rfl, by simp [endOf, stubOpt], rfl, .inr ⟨rfl, rfl⟩⟩
  | true =>
    have hown : recordsFrom tcOptRr 1 0 = some [⟨1, 41, 1232, 0, 11, 11⟩] := by decide +kernel
    have hdrop : tcOptRr.drop 0 = (front ++ tcOptRr).drop front.length := by simp
    refine ⟨_, recordsFrom_suffix (Nat.zero_le _) (by simp) hdrop hown, ?_, rfl, .inl ⟨rfl, _, rfl, rfl⟩⟩
    simp [endOf, Rr.shift, stubOpt, tcOptRr, Nat.add_comm]

theorem truncated_tcStub {query : Packet} {qe : Nat} (hqe : 12 ≤ qe) (hlen : qe ≤ resp.length)
    (hquestion : slice resp 12 qe = slice query 12 qe) :
    Truncated query resp qe (tcStub resp qe (hasOptRecord query qe)) := by
  rw [tcStub_eq hqe hlen]
  have hslice : (slice resp 12 qe).length = qe - 12 := length_slice hlen
  generalize hedns : hasOptRecord query qe = clientEdns
  have hsome : (findOptRecord query qe).isSome = clientEdns := hedns
  have hfront : (stubHeader resp clientEdns ++ slice resp 12 qe).length = qe := by
    rw [List.length_append, hslice]
    simp only [stubHeader, List.length_cons, List.length_nil]
    omega
  generalize hrest : slice resp 12 qe ++ stubOpt clientEdns = rest
  have hcount : ∀ i, i = 6 ∨ i = 8 → u16be (stubHeader resp clientEdns ++ rest) i = 0 := by
    rintro i (rfl | rfl) <;> simp [u16be, byteAt, stubHeader]
  have han := hcount 6 (.inl rfl)
  have hns := hcount 8 (.inr rfl)
  have har : u16be (stubHeader resp clientEdns ++ rest) 10 = if clientEdns then 1 else 0 := by
    cases clientEdns <;> simp [u16be, byteAt, stubHeader]
  refine ⟨?_, ?_, ⟨?_, ?_⟩, ?_, ?_, han, hns, ?_⟩
  · simp [u16be, byteAt, stubHeader]
  · simp only [byteAt, stubHeader, List.cons_append, List.getD_cons_succ, List.getD_cons_zero]
    exact (tc_bits _).1
  · simp only [byteAt, stubHeader, List.cons_append, List.getD_cons_succ, List.getD_cons_zero]
    exact (tc_bits _).2
  · simp [byteAt, stubHeader]
  · simp [u16be, byteAt, stubHeader]
  · have hheader : (stubHeader resp clientEdns).length = 12 := rfl
    rw [← hquestion, slice, List.drop_left' hheader, ← hrest, List.take_left' hslice]
  · obtain ⟨rs, hrs, hend, hcount, hopt⟩ :=
      recordsFrom_stub (stubHeader resp clientEdns ++ slice resp 12 qe) clientEdns
    rw [hfront, List.append_assoc, hrest] at hrs hend
    refine ⟨rs, ?_, hend, by rw [hcount, har], ?_⟩
    · rw [han, hns, har, Nat.zero_add]
      exact hrs
    · refine hopt.imp (fun h => ⟨hsome.trans h.1, h.2⟩) (fun h => ⟨?_, h.2⟩)
      rw [← Option.not_isSome_iff_eq_none, hsome, h.1]
      simp

theorem length_tcStub_le {qe : Nat} (hqe : 12 ≤ qe) (hlen : qe ≤ resp.length) (hname : qe - 16 ≤ 255)
    (clientEdns : Bool) : (tcStub resp qe clientEdns).length ≤ 282 := by
  have hslice : (slice resp 12 qe).length = qe - 12 := length_slice hlen
  have hopt : (stubOpt clientEdns).length ≤ 11 := by cases clientEdns <;> decide
  rw [tcStub_eq hqe hlen, List.length_append, List.length_append, hslice]
  simp only [stubHeader, List.length_cons, List.length_nil]
  omega

/-- For an accepted query and a response with its question: what is returned fits the client, is the
response itself when that fits, and else the truncated response. -/
theorem maybeTruncateForUdp_fits {query resp : Packet} {info : FastQueryInfo}
    (hquery : parseQueryFast query = .ok info) (hlen : info.questionEnd ≤ resp.length)
    (hquestion : slice resp 12 info.questionEnd = slice query 12 info.questionEnd) :
    (maybeTruncateForUdp resp query).length ≤ max 512 (advertisedSize query info.questionEnd) ∧
    (resp.length ≤ max 512 (advertisedSize query info.questionEnd) → maybeTruncateForUdp resp query = resp) ∧
    (max 512 (advertisedSize query info.questionEnd) < resp.length →
      Truncated query resp info.questionEnd (maybeTruncateForUdp resp query)) := by
  have hq := parseQueryFast_spec hquery
  have hqe : 12 ≤ info.questionEnd := by
    have := hq.questionEnd_ge
    omega
  rw [maybeTruncateForUdp, hq.questionEnd_eq]
  simp only [clientUdpPayloadSize_eq]
  by_cases hfits : resp.length ≤ max 512 (advertisedSize query info.questionEnd)
  · rw [if_pos hfits]
    exact ⟨hfits, fun _ => rfl, fun hlong => absurd hfits (Nat.not_le.mpr hlong)⟩
  · have hstub := length_tcStub_le hqe hlen hq.nameLimit (hasOptRecord query info.questionEnd)
    rw [if_neg hfits, if_neg (by omega)]
    exact ⟨by omega, fun h => absurd h hfits, fun _ => truncated_tcStub hqe hlen hquestion⟩

/-- A query with an OPT record of payload size 600, and a response of 700 bytes to it. -/
def smallClient : Packet := queryWith 1 [0, 0, 41, 2, 88, 0, 0, 0, 0, 0, 0]

def longResponse : Packet := smallClient.take 19 ++ List.replicate 681 0

theorem maybeTruncateForUdp_fits_smallClient :
    parseQueryFast smallClient = .ok (fastInfo smallClient) ∧
    max 512 (advertisedSize smallClient (fastInfo smallClient).questionEnd) = 600 ∧
    (maybeTruncateForUdp longResponse smallClient).length ≤ 600 ∧
    Truncated smallClient longResponse (fastInfo smallClient).questionEnd
      (maybeTruncateForUdp longResponse smallClient) := by
  have hquery : parseQueryFast smallClient = .ok (fastInfo smallClient) := by decide +kernel
  have hend : (fastInfo smallClient).questionEnd = 19 := by decide +kernel
  have hlimit : max 512 (advertisedSize smallClient (fastInfo smallClient).questionEnd) = 600 := by
    decide +kernel
  have hlength : longResponse.length = 700 := by decide +kernel
  obtain ⟨hle, -, htruncated⟩ := maybeTruncateForUdp_fits hquery
    (show (fastInfo smallClient).questionEnd ≤ longResponse.length by rw [hend, hlength]; decide)
    (by rw [hend]; decide +kernel)
  rw [hlimit] at hle htruncated
  exact ⟨hquery, hlimit, hle, htruncated (by rw [hlength]; decide)⟩

end PathDns
