import PathDns.Dns.Ttl
import PathDns.Dns.Variant

/-!
# Packet readers with their index checks

The readers that run on data from a cache file, with every index, range and subtraction of the source
checked. None of them panics, whatever the bytes: each equals the total function of the other modules.
-/

namespace PathDns

open Bytes

/-- `rcode`. -/
def rcodeChecked (packet : Packet) : Checked Nat :=
  if packet.length < 4 then .ok 0 else (readAt packet 3).map (fun b => (b &&& 0x0f).toNat)

/-- `parse_rr`; `skip_name` reads through `get` only. -/
def parseRrChecked (packet : Packet) (pos : Nat) : Checked (Option Rr) :=
  match skipName packet pos with
  | none => .ok none
  | some nameEnd =>
    if packet.length < nameEnd + 10 then .ok none
    else do
      let rrType ← readU16At packet nameEnd
      let cls ← readU16At packet (nameEnd + 2)
      let ttl ← readU32At packet (nameEnd + 4)
      let rdlen ← readU16At packet (nameEnd + 8)
      let rdataStart := nameEnd + 10
      let rrEnd := rdataStart + rdlen
      if packet.length < rrEnd then return none
      return some ⟨nameEnd, rrType, cls, ttl, rdataStart, rrEnd⟩

/-- The record loop of `answer_ips`. -/
def answerIpsLoopChecked (packet : Packet) : Nat → Nat → List IpAddr → Checked (List IpAddr)
  | 0, _, ips => .ok ips
  | n + 1, pos, ips => do
    match ← parseRrChecked packet pos with
    | none => return ips
    | some rr =>
      let len ← subChecked rr.rrEnd rr.rdataStart
      if rr.rrType = 1 ∧ len = 4 then
        -- four single reads, `packet[rdata]` to `packet[rdata + 3]`
        let addr ← readU32At packet rr.rdataStart
        answerIpsLoopChecked packet n rr.rrEnd (ips ++ [.v4 (BitVec.ofNat 32 addr)])
      else if rr.rrType = 28 ∧ len = 16 then
        let octets ← sliceIndex packet rr.rdataStart rr.rrEnd
        answerIpsLoopChecked packet n rr.rrEnd (ips ++ [.v6 (BitVec.ofNat 128 (decBe octets))])
      else answerIpsLoopChecked packet n rr.rrEnd ips

/-- `answer_ips`. -/
def answerIpsChecked (packet : Packet) (questionEnd : Nat) : Checked (List IpAddr) :=
  if packet.length < 12 ∨ packet.length < questionEnd then .ok []
  else do
    let an ← readU16At packet 6
    answerIpsLoopChecked packet an questionEnd []

/-- The record loop of `answer_rr_types`. -/
def answerRrTypesLoopChecked (packet : Packet) : Nat → Nat → List Nat → Checked (List Nat)
  | 0, _, types => .ok types
  | n + 1, pos, types => do
    match ← parseRrChecked packet pos with
    | none => return types
    | some rr =>
      answerRrTypesLoopChecked packet n rr.rrEnd
        (if rr.rrType ∈ types then types else types ++ [rr.rrType])

/-- `answer_rr_types`. -/
def answerRrTypesChecked (packet : Packet) (questionEnd : Nat) : Checked (List Nat) :=
  if packet.length < 12 ∨ packet.length < questionEnd then .ok []
  else do
    let an ← readU16At packet 6
    answerRrTypesLoopChecked packet an questionEnd []

/-- `question_qclass`. -/
def questionQclassChecked (packet : Packet) (questionEnd : Nat) : Checked (Option Nat) :=
  if questionEnd < 2 ∨ packet.length < questionEnd then .ok none
  else do
    let hi ← readAt packet (← subChecked questionEnd 2)
    let lo ← readAt packet (← subChecked questionEnd 1)
    return some (hi.toNat * 256 + lo.toNat)

/-! ### None of them panics -/

theorem rcodeChecked_eq (packet : Packet) : rcodeChecked packet = .ok (rcode packet) := by
  unfold rcodeChecked rcode
  split_ifs with h
  · rfl
  · rw [readAt_ok (by omega)]
    rfl

theorem parseRrChecked_eq (packet : Packet) (pos : Nat) :
    parseRrChecked packet pos = .ok (parseRr packet pos) := by
  unfold parseRrChecked parseRr
  cases skipName packet pos with
  | none => rfl
  | some nameEnd =>
    simp only
    split_ifs with h1 h2
    · rfl
    all_goals
      simp (disch := omega) only [readU16At_ok, readU32At_ok, bind, Except.bind, pure, Except.pure, h2, if_true,
        if_false]

theorem decBe_slice_four {p : List UInt8} {i : Nat} (h : i + 4 ≤ p.length) :
    decBe (slice p i (i + 4)) = u32be p i := by
  have hslice : slice p i (i + 4) = [byteAt p i, byteAt p (i + 1), byteAt p (i + 2), byteAt p (i + 3)] := by
    apply ext_byteAt
    · rw [length_slice h]
      simp
    · intro k hk
      rw [length_slice h] at hk
      rw [byteAt_slice (by omega)]
      have hcases : k = 0 ∨ k = 1 ∨ k = 2 ∨ k = 3 := by omega
      rcases hcases with rfl | rfl | rfl | rfl <;> rfl
  rw [hslice]
  simp only [decBe, List.reverse_cons, List.reverse_nil, List.nil_append, List.cons_append, decLe,
    u32be, u16be]
  ring

theorem answerIpsLoopChecked_eq (packet : Packet) (n pos : Nat) (ips : List IpAddr) :
    answerIpsLoopChecked packet n pos ips = .ok (answerIpsLoop packet n pos ips) := by
  induction n generalizing pos ips with
  | zero => rfl
  | succ n ih =>
    unfold answerIpsLoopChecked answerIpsLoop
    rw [parseRrChecked_eq]
    cases hrr : parseRr packet pos with
    | none => rfl
    | some rr =>
      obtain ⟨-, -, hstart, hend, hle⟩ := parseRr_fields hrr
      have hsub : rr.rdataStart ≤ rr.rrEnd := by omega
      simp only [bind, Except.bind, subChecked_ok hsub]
      split_ifs with hv4 hv6
      · rw [readU32At_ok (by omega)]
        simp only [ih]
        rw [← decBe_slice_four (by omega), show rr.rdataStart + 4 = rr.rrEnd by omega]
      · rw [sliceIndex_ok hsub hle]
        simp only [ih]
      · exact ih _ _

theorem answerIpsChecked_eq (packet : Packet) (questionEnd : Nat) :
    answerIpsChecked packet questionEnd = .ok (answerIps packet questionEnd) := by
  unfold answerIpsChecked answerIps
  split_ifs with h
  · rfl
  · rw [readU16At_ok (by omega)]
    exact answerIpsLoopChecked_eq packet _ _ _

theorem answerRrTypesLoopChecked_eq (packet : Packet) (n pos : Nat) (types : List Nat) :
    answerRrTypesLoopChecked packet n pos types = .ok (answerRrTypesLoop packet n pos types) := by
  induction n generalizing pos types with
  | zero => rfl
  | succ n ih =>
    unfold answerRrTypesLoopChecked answerRrTypesLoop
    rw [parseRrChecked_eq]
    cases parseRr packet pos with
    | none => rfl
    | some rr => exact ih _ _

theorem answerRrTypesChecked_eq (packet : Packet) (questionEnd : Nat) :
    answerRrTypesChecked packet questionEnd = .ok (answerRrTypes packet questionEnd) := by
  unfold answerRrTypesChecked answerRrTypes
  split_ifs with h
  · rfl
  · rw [readU16At_ok (by omega)]
    exact answerRrTypesLoopChecked_eq packet _ _ _

theorem questionQclassChecked_eq (packet : Packet) (questionEnd : Nat) :
    questionQclassChecked packet questionEnd = .ok (questionQclass packet questionEnd) := by
  unfold questionQclassChecked questionQclass
  split_ifs with h
  · rfl
  · simp (disch := omega) only [subChecked_ok, readAt_ok, bind, Except.bind, pure, Except.pure, u16be]
    rw [show questionEnd - 2 + 1 = questionEnd - 1 by omega]

/-! ### The query variant -/

/-- `!0 << (w - plen)` of `parse_ecs_src`; a shift by the width or more overflows. -/
def maskChecked (w raw plen : Nat) : Checked Nat :=
  if plen = 0 then .ok (maskAddr w raw plen)
  else do
    let shift ← subChecked w plen
    if w ≤ shift then throw .overflow
    return maskAddr w raw plen

/-- `parse_ecs_src`. -/
def parseEcsSrcChecked (optData : List UInt8) : Checked (Option EcsSrc) :=
  if optData.length < 4 then .ok none
  else do
    let family ← readU16At optData 0
    let prefixLen ← readAt optData 2
    let addrData ← sliceIndex optData 4 optData.length
    if family = 1 then
      let head ← sliceIndex addrData 0 (min addrData.length 4)
      let plen := min prefixLen 32
      let masked ← maskChecked 32 (decBe (padTo 4 head)) plen.toNat
      return some ⟨List.replicate 12 0 ++ encBe 4 masked, plen⟩
    else if family = 2 then
      let head ← sliceIndex addrData 0 (min addrData.length 16)
      let plen := min prefixLen 128
      let masked ← maskChecked 128 (decBe (padTo 16 head)) plen.toNat
      return some ⟨encBe 16 masked, plen⟩
    else return none

/-- The option loop of `extract_opt_data`. -/
def extractOptDataLoopChecked (rdata : List UInt8) :
    Nat → Nat → Option EcsSrc → List Nat → Checked (Option EcsSrc × List Nat)
  | 0, _, ecs, codes => .ok (ecs, codes)
  | fuel + 1, pos, ecs, codes =>
    if pos + 4 ≤ rdata.length then do
      let code ← readU16At rdata pos
      let optLen ← readU16At rdata (pos + 2)
      let pos := pos + 4
      let endPos := pos + optLen
      if rdata.length < endPos then return (ecs, codes)
      else if code = ecsOptionCode ∧ 4 ≤ optLen then
        let src ← parseEcsSrcChecked (← sliceIndex rdata pos endPos)
        extractOptDataLoopChecked rdata fuel endPos src codes
      else if code ≠ 12 then extractOptDataLoopChecked rdata fuel endPos ecs (codes ++ [code])
      else extractOptDataLoopChecked rdata fuel endPos ecs codes
    else .ok (ecs, codes)

/-- The record loop of `find_opt_record`. -/
def findOptRecordLoopChecked (packet : Packet) : Nat → Nat → Checked (Option (Nat × Nat × Nat))
  | 0, _ => .ok none
  | n + 1, pos =>
    match skipName packet pos with
    | none => .ok none
    | some nameEnd =>
      if packet.length < nameEnd + 10 then .ok none
      else do
        let rrType ← readU16At packet nameEnd
        let rdlen ← readU16At packet (nameEnd + 8)
        let rdataStart := nameEnd + 10
        let rdataEnd := rdataStart + rdlen
        if packet.length < rdataEnd then return none
        else if rrType = 41 then return some (nameEnd, rdataStart, rdataEnd)
        else findOptRecordLoopChecked packet n rdataEnd

/-- `find_opt_record`. -/
def findOptRecordChecked (packet : Packet) (questionEnd : Nat) : Checked (Option (Nat × Nat × Nat)) :=
  if packet.length < 12 then .ok none
  else do
    let arcount ← readU16At packet 10
    if arcount = 0 ∨ packet.length ≤ questionEnd then return none
    findOptRecordLoopChecked packet arcount questionEnd

/-- `extract_variant`. -/
def extractVariantChecked (packet : Packet) (questionEnd : Nat) : Checked QueryVariant :=
  if packet.length < 12 then .ok (.noEdns false false false)
  else do
    let rd := ((← readAt packet 2) &&& 0x01) != 0
    let ad := ((← readAt packet 3) &&& 0x20) != 0
    let cd := ((← readAt packet 3) &&& 0x10) != 0
    match ← findOptRecordChecked packet questionEnd with
    | none => return .noEdns rd ad cd
    | some (nameEnd, rdataStart, rdataEnd) =>
      let ednsVersion ← readAt packet (nameEnd + 5)
      let doByte ← readAt packet (nameEnd + 6)
      let rdata := slice packet rdataStart rdataEnd
      let (ecsSrc, codes) ← extractOptDataLoopChecked rdata rdata.length 0 none []
      return ⟨true, (doByte &&& 0x80) != 0, ednsVersion, rd, ad, cd, ecsSrc, extraOptsHash codes⟩

theorem maskChecked_eq {w raw plen : Nat} (h : plen ≤ w) :
    maskChecked w raw plen = .ok (maskAddr w raw plen) := by
  unfold maskChecked
  split_ifs with hzero
  · rfl
  · rw [subChecked_ok h]
    simp only [bind, Except.bind]
    rw [if_neg (by omega)]
    rfl

theorem padTo_slice (n : Nat) (data : List UInt8) :
    padTo n (slice data 0 (min data.length n)) = padTo n data := by
  simp only [padTo, slice, List.drop_zero, Nat.sub_zero, List.take_take, List.length_take]
  rcases Nat.le_total data.length n with h | h
  · rw [Nat.min_eq_left h, Nat.min_eq_right h, List.take_of_length_le (le_refl _),
      List.take_of_length_le h, Nat.min_self]
  · rw [Nat.min_eq_right h, Nat.min_self, Nat.min_eq_left h, Nat.sub_self, Nat.sub_eq_zero_of_le h]

theorem toNat_min_le (a b : UInt8) : (min a b).toNat ≤ b.toNat := by
  show (if a ≤ b then a else b).toNat ≤ b.toNat
  split_ifs with h
  · exact UInt8.le_iff_toNat_le.mp h
  · exact le_refl _

theorem parseEcsSrcChecked_eq (optData : List UInt8) :
    parseEcsSrcChecked optData = .ok (parseEcsSrc optData) := by
  unfold parseEcsSrcChecked parseEcsSrc
  split_ifs with h
  · rfl
  · have hv4 : (min (byteAt optData 2) 32).toNat ≤ 32 := toNat_min_le _ 32
    have hv6 : (min (byteAt optData 2) 128).toNat ≤ 128 := toNat_min_le _ 128
    have htail : slice optData 4 optData.length = optData.drop 4 := by
      rw [slice, List.take_of_length_le (by rw [List.length_drop])]
    simp (disch := omega) only [readU16At_ok, readAt_ok, sliceIndex_ok, htail, bind, Except.bind, pure, Except.pure,
      padTo_slice, maskChecked_eq hv4, maskChecked_eq hv6]
    split_ifs <;> rfl

theorem extractOptDataLoopChecked_eq (rdata : List UInt8) (fuel pos : Nat) (ecs : Option EcsSrc)
    (codes : List Nat) : extractOptDataLoopChecked rdata fuel pos ecs codes =
      .ok (extractOptDataLoop rdata fuel pos ecs codes) := by
  induction fuel generalizing pos ecs codes with
  | zero => rfl
  | succ fuel ih =>
    unfold extractOptDataLoopChecked extractOptDataLoop
    split_ifs with h
    · simp (disch := omega) only [readU16At_ok, bind, Except.bind, pure, Except.pure]
      split_ifs with hend hecs hcode
      · rfl
      · rw [sliceIndex_ok (by omega) (by omega)]
        simp only [parseEcsSrcChecked_eq, ih]
      · exact ih _ _ _
      · exact ih _ _ _
    · rfl

theorem findOptRecordLoopChecked_eq (packet : Packet) (n pos : Nat) :
    findOptRecordLoopChecked packet n pos = .ok (findOptRecordLoop packet n pos) := by
  induction n generalizing pos with
  | zero => rfl
  | succ n ih =>
    unfold findOptRecordLoopChecked findOptRecordLoop
    cases skipName packet pos with
    | none => rfl
    | some nameEnd =>
      simp only
      by_cases h : packet.length < nameEnd + 10
      · rw [if_pos h, if_pos h]
      · rw [if_neg h, if_neg h]
        simp (disch := omega) only [readU16At_ok, bind, Except.bind, pure, Except.pure]
        split_ifs
        · rfl
        · rfl
        · exact ih _

theorem findOptRecordChecked_eq (packet : Packet) (questionEnd : Nat) :
    findOptRecordChecked packet questionEnd = .ok (findOptRecord packet questionEnd) := by
  unfold findOptRecordChecked findOptRecord
  split_ifs with h
  · rfl
  · simp (disch := omega) only [readU16At_ok, bind, Except.bind, pure, Except.pure]
    split_ifs with hnone
    · rfl
    · exact findOptRecordLoopChecked_eq packet _ _

theorem findOptRecordLoop_bounds {packet : Packet} {n pos nameEnd rdataStart rdataEnd : Nat}
    (h : findOptRecordLoop packet n pos = some (nameEnd, rdataStart, rdataEnd)) :
    rdataStart = nameEnd + 10 ∧ rdataStart ≤ rdataEnd ∧ rdataEnd ≤ packet.length := by
  induction n generalizing pos with
  | zero => simp [findOptRecordLoop] at h
  | succ n ih =>
    unfold findOptRecordLoop at h
    split at h
    · simp at h
    · simp only at h
      split_ifs at h with h1 h2 h3
      · simp only [Option.some.injEq, Prod.mk.injEq] at h
        omega
      · exact ih h

theorem findOptRecord_bounds {packet : Packet} {questionEnd nameEnd rdataStart rdataEnd : Nat}
    (h : findOptRecord packet questionEnd = some (nameEnd, rdataStart, rdataEnd)) :
    rdataStart = nameEnd + 10 ∧ rdataStart ≤ rdataEnd ∧ rdataEnd ≤ packet.length := by
  unfold findOptRecord at h
  simp only at h
  split_ifs at h
  exact findOptRecordLoop_bounds h

theorem extractVariantChecked_eq (packet : Packet) (questionEnd : Nat) :
    extractVariantChecked packet questionEnd = .ok (extractVariant packet questionEnd) := by
  unfold extractVariantChecked extractVariant
  split_ifs with h
  · rfl
  · simp (disch := omega) only [readAt_ok, findOptRecordChecked_eq, bind, Except.bind, pure, Except.pure]
    cases hopt : findOptRecord packet questionEnd with
    | none => rfl
    | some loc =>
      obtain ⟨nameEnd, rdataStart, rdataEnd⟩ := loc
      have hbound := findOptRecord_bounds hopt
      simp (disch := omega) only [readAt_ok, extractOptDataLoopChecked_eq, extractOptData]

end PathDns
