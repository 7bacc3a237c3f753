import PathDns.Dns.Query

/-!
# The query variant (`dns/mod.rs`)

`extractVariant` reads the EDNS properties of a query that decide which cached response may answer
it: flags, OPT presence, DO bit, EDNS version, the normalised ECS source subnet and a hash of the
other option codes.
-/

namespace PathDns

open Bytes

/-- IANA EDNS(0) option code for Client Subnet. -/
def ecsOptionCode : Nat := 8

/-- `EcsSrc`: the address as 16 big-endian bytes (IPv4 in the last four) and the prefix length. -/
structure EcsSrc where
  addr : List UInt8
  prefixLen : UInt8
deriving DecidableEq, Repr

structure QueryVariant where
  hasOpt : Bool
  doBit : Bool
  ednsVersion : UInt8
  rd : Bool
  ad : Bool
  cd : Bool
  ecsSrc : Option EcsSrc
  extraOptsHash : UInt64
deriving DecidableEq, Repr

def QueryVariant.noEdns (rd ad cd : Bool) : QueryVariant where
  hasOpt := false
  doBit := false
  ednsVersion := 0
  rd := rd
  ad := ad
  cd := cd
  ecsSrc := none
  extraOptsHash := 0

/-- `raw & (!0 << (w - plen))` on a `w`-bit address, with the source's special case for `plen = 0`. -/
def maskAddr (w raw plen : Nat) : Nat :=
  (BitVec.ofNat w raw &&& if plen = 0 then 0 else BitVec.allOnes w <<< (w - plen)).toNat

/-- The first `n` bytes of `data`, padded with zeros. -/
def padTo (n : Nat) (data : List UInt8) : List UInt8 :=
  data.take n ++ List.replicate (n - data.length) 0

/-- `parse_ecs_src`: FAMILY(2) SOURCE-PREFIX-LENGTH(1) SCOPE-PREFIX-LENGTH(1) ADDRESS. -/
def parseEcsSrc (optData : List UInt8) : Option EcsSrc :=
  if optData.length < 4 then none
  else
    let family := u16be optData 0
    let prefixLen := byteAt optData 2
    let addrData := optData.drop 4
    if family = 1 then
      let plen := min prefixLen 32
      let masked := maskAddr 32 (decBe (padTo 4 addrData)) plen.toNat
      some ⟨List.replicate 12 0 ++ encBe 4 masked, plen⟩
    else if family = 2 then
      let plen := min prefixLen 128
      let masked := maskAddr 128 (decBe (padTo 16 addrData)) plen.toNat
      some ⟨encBe 16 masked, plen⟩
    else none

/-- The option loop of `extract_opt_data`: the ECS source so far and the other codes so far. -/
def extractOptDataLoop (rdata : List UInt8) :
    Nat → Nat → Option EcsSrc → List Nat → Option EcsSrc × List Nat
  | 0, _, ecs, codes => (ecs, codes)
  | fuel + 1, pos, ecs, codes =>
    if pos + 4 ≤ rdata.length then
      let code := u16be rdata pos
      let optLen := u16be rdata (pos + 2)
      let pos := pos + 4
      let endPos := pos + optLen
      if rdata.length < endPos then (ecs, codes)
      else if code = ecsOptionCode ∧ 4 ≤ optLen then
        extractOptDataLoop rdata fuel endPos (parseEcsSrc (slice rdata pos endPos)) codes
      else if code ≠ 12 then extractOptDataLoop rdata fuel endPos ecs (codes ++ [code])
      else extractOptDataLoop rdata fuel endPos ecs codes
    else (ecs, codes)

/-- The FNV-1a hash of the sorted option codes, zero when there are none. -/
def extraOptsHash (codes : List Nat) : UInt64 :=
  if codes = [] then 0 else fnv ((codes.mergeSort (· ≤ ·)).flatMap (encLe 2))

def extractOptData (rdata : List UInt8) : Option EcsSrc × UInt64 :=
  let (ecs, codes) := extractOptDataLoop rdata rdata.length 0 none []
  (ecs, extraOptsHash codes)

/-- The record loop of `find_opt_record`. -/
def findOptRecordLoop (packet : Packet) : Nat → Nat → Option (Nat × Nat × Nat)
  | 0, _ => none
  | n + 1, pos =>
    match skipName packet pos with
    | none => none
    | some nameEnd =>
      if packet.length < nameEnd + 10 then none
      else
        let rrType := u16be packet nameEnd
        let rdlen := u16be packet (nameEnd + 8)
        let rdataStart := nameEnd + 10
        let rdataEnd := rdataStart + rdlen
        if packet.length < rdataEnd then none
        else if rrType = 41 then some (nameEnd, rdataStart, rdataEnd)
        else findOptRecordLoop packet n rdataEnd

/-- `find_opt_record`: `(name_end, rdata_start, rdata_end)` of the first OPT record behind the question.
It counts ARCOUNT records from `question_end` on, whatever ANCOUNT and NSCOUNT say. -/
def findOptRecord (packet : Packet) (questionEnd : Nat) : Option (Nat × Nat × Nat) :=
  if packet.length < 12 then none
  else
    let arcount := u16be packet 10
    if arcount = 0 ∨ packet.length ≤ questionEnd then none
    else findOptRecordLoop packet arcount questionEnd

def extractVariant (packet : Packet) (questionEnd : Nat) : QueryVariant :=
  if packet.length < 12 then .noEdns false false false
  else
    let rd := (byteAt packet 2 &&& 0x01) != 0
    let ad := (byteAt packet 3 &&& 0x20) != 0
    let cd := (byteAt packet 3 &&& 0x10) != 0
    match findOptRecord packet questionEnd with
    | none => .noEdns rd ad cd
    | some (nameEnd, rdataStart, rdataEnd) =>
      let (ecsSrc, extra) := extractOptData (slice packet rdataStart rdataEnd)
      { hasOpt := true
        doBit := (byteAt packet (nameEnd + 6) &&& 0x80) != 0
        ednsVersion := byteAt packet (nameEnd + 5)
        rd := rd
        ad := ad
        cd := cd
        ecsSrc := ecsSrc
        extraOptsHash := extra }

theorem hasOpt_of_ecsSrc {packet : Packet} {qe : Nat}
    (h : (extractVariant packet qe).ecsSrc ≠ none) : (extractVariant packet qe).hasOpt = true := by
  rw [extractVariant] at h ⊢
  split_ifs at h ⊢ with hlen
  · exact absurd rfl h
  · split at h
    · exact absurd rfl h
    · rfl

end PathDns
