import PathDns.Dns.Ttl
import PathDns.Dns.Variant
import PathDns.Lib.Tlv

/-!
# ECS stripping and injection (`dns/ecs.rs`, `upstream/mod.rs`)

`locateOpt` walks to the first OPT record of the additional section; `stripEdnsEcs` rebuilds its
options without Client Subnet and `applyEcsMode` falls back to the packet as it is when that fails.
The reading that the results are stated with is independent of both: `optRdatas` lists the RDATA of
every OPT record the additional section holds, and `optionCodes` the codes of the options that fit.
-/

namespace PathDns

open Bytes

structure OptLocation where
  nameEnd : Nat
  rdataStart : Nat
  rdataEnd : Nat
deriving DecidableEq, Repr

/-- The question loop of `locate_opt`. -/
def skipQuestions (packet : Packet) : Nat → Nat → Option Nat
  | 0, pos => some pos
  | n + 1, pos =>
    match skipName packet pos with
    | none => none
    | some nameEnd =>
      if packet.length < nameEnd + 4 then none else skipQuestions packet n (nameEnd + 4)

/-- The loop of `locate_opt` over the answer and authority records. -/
def skipRecords (packet : Packet) : Nat → Nat → Option Nat
  | 0, pos => some pos
  | n + 1, pos =>
    match skipName packet pos with
    | none => none
    | some fixed =>
      if packet.length < fixed + 10 then none
      else
        let rdlen := u16be packet (fixed + 8)
        let next := fixed + (10 + rdlen)
        if packet.length < next then none else skipRecords packet n next

/-- The loop of `locate_opt` over the additional records. -/
def locateOptLoop (packet : Packet) : Nat → Nat → Option (Option OptLocation)
  | 0, _ => some none
  | n + 1, pos =>
    match skipName packet pos with
    | none => none
    | some nameEnd =>
      if packet.length < nameEnd + 10 then none
      else
        let rrType := u16be packet nameEnd
        let rdlen := u16be packet (nameEnd + 8)
        let rdataStart := nameEnd + 10
        let rdataEnd := rdataStart + rdlen
        if packet.length < rdataEnd then none
        else if rrType = 41 then some (some ⟨nameEnd, rdataStart, rdataEnd⟩)
        else locateOptLoop packet n rdataEnd

/-- Where the additional section starts: behind the questions, answers and authority records. -/
def additionalStart (packet : Packet) : Option Nat :=
  match skipQuestions packet (u16be packet 4) 12 with
  | none => none
  | some pos => skipRecords packet (u16be packet 6 + u16be packet 8) pos

/-- `locate_opt`: `none` when a record on the way does not fit, `some none` without an OPT record. -/
def locateOpt (packet : Packet) : Option (Option OptLocation) :=
  if packet.length < 12 then none
  else
    let ar := u16be packet 10
    if ar = 0 then some none
    else
      match additionalStart packet with
      | none => none
      | some pos => locateOptLoop packet ar pos

def stripOptRdata (packet : Packet) : Option Packet :=
  match locateOpt packet with
  | some (some loc) =>
    if loc.rdataEnd = loc.rdataStart then none
    else some (packet.take (loc.nameEnd + 8) ++ encU16be 0 ++ packet.drop loc.rdataEnd)
  | _ => none

/-- The option loop of `strip_ecs_from_opt` and of `inject_or_replace_ecs`: whether ECS was met, and
the other options; `none` when an option does not fit. -/
def dropEcsLoop (rdata : List UInt8) : Nat → Nat → Bool → List UInt8 → Option (Bool × List UInt8)
  | 0, _, found, new => some (found, new)
  | fuel + 1, pos, found, new =>
    if pos + 4 ≤ rdata.length then
      let code := u16be rdata pos
      let optLen := u16be rdata (pos + 2)
      let endPos := pos + 4 + optLen
      if rdata.length < endPos then none
      else if code = ecsOptionCode then dropEcsLoop rdata fuel endPos true new
      else dropEcsLoop rdata fuel endPos found (new ++ slice rdata pos endPos)
    else some (found, new)

/-- The packet with the RDATA of its OPT record replaced and RDLENGTH set to `new_rdata.len() as u16`. -/
def replaceOptRdata (packet : Packet) (rdataStart rdataEnd : Nat) (new : List UInt8) : Packet :=
  patch (packet.take rdataStart ++ new ++ packet.drop rdataEnd) (rdataStart - 2) (encU16be new.length)

def stripEcsFromOpt (packet : Packet) (rdataStart rdataEnd : Nat) : Option Packet :=
  let rdata := slice packet rdataStart rdataEnd
  match dropEcsLoop rdata rdata.length 0 false [] with
  | none => none
  | some (found, new) =>
    if !found then none else some (replaceOptRdata packet rdataStart rdataEnd new)

def stripEdnsEcs (packet : Packet) : Option Packet :=
  match locateOpt packet with
  | some (some loc) => stripEcsFromOpt packet loc.rdataStart loc.rdataEnd
  | _ => none

def encodeEcsOption (subnet : EcsSubnet) : List UInt8 :=
  let (family, addrBytes) :=
    match subnet.addr with
    | .v4 a => (1, encBe 4 a.toNat)
    | .v6 a => (2, encBe 16 a.toNat)
  let byteCount := min ((subnet.prefixLen.toNat + 7) / 8) addrBytes.length
  encU16be ecsOptionCode ++ encU16be (4 + byteCount) ++ encU16be family ++ [subnet.prefixLen, 0] ++
    addrBytes.take byteCount

def injectOrReplaceEcs (packet : Packet) (subnet : EcsSubnet) : Option Packet :=
  if packet.length < 12 then none
  else
    let ecsOpt := encodeEcsOption subnet
    let ar := u16be packet 10
    match locateOpt packet with
    | none => none
    | some (some loc) =>
      let rdata := slice packet loc.rdataStart loc.rdataEnd
      match dropEcsLoop rdata rdata.length 0 false [] with
      | none => none
      | some (_, new) => some (replaceOptRdata packet loc.rdataStart loc.rdataEnd (new ++ ecsOpt))
    | some none =>
      -- a minimal OPT record: root name, type 41, payload size 4096, no flags
      let out := packet ++ [0] ++ encU16be 41 ++ encU16be 4096 ++ encU32be 0 ++
        encU16be ecsOpt.length ++ ecsOpt
      some (patch out 10 (encU16be (ar + 1)))

/-- `apply_ecs_mode`: on failure the packet goes out as it came in. -/
def applyEcsMode (packet : Packet) : EcsMode → Packet
  | .strip => (stripEdnsEcs packet).getD packet
  | .forward => packet
  | .fixed subnet => (injectOrReplaceEcs packet subnet).getD packet

/-! ### Reading the options of a packet -/

/-- The size of the EDNS option at the front: code, length, data. -/
def optionSize (bs : List UInt8) : Nat := 4 + u16be bs 2

/-- The options that fit, front to back, and whether no option failed to fit. -/
def options (rdata : List UInt8) : List (List UInt8) × Bool :=
  Tlv.split 4 optionSize rdata.length rdata

/-- The codes of the options met when reading front to back as long as each one fits. -/
def optionCodes (rdata : List UInt8) : List Nat := (options rdata).1.map (u16be · 0)

/-- Every option of the RDATA fits. -/
def optionsFit (rdata : List UInt8) : Bool := (options rdata).2

/-- The RDATA of the OPT records among `n` records from `pos` on, up to the first that is malformed. -/
def optRdatasFrom (packet : Packet) : Nat → Nat → List (List UInt8)
  | 0, _ => []
  | n + 1, pos =>
    match parseRr packet pos with
    | none => []
    | some r =>
      if r.rrType = 41 then slice packet r.rdataStart r.rrEnd :: optRdatasFrom packet n r.rrEnd
      else optRdatasFrom packet n r.rrEnd

/-- The RDATA of every OPT record of the additional section. -/
def optRdatas (packet : Packet) : List (List UInt8) :=
  match additionalStart packet with
  | none => []
  | some pos => optRdatasFrom packet (u16be packet 10) pos

/-- Some OPT record of the additional section holds an ECS option. -/
def CarriesEcs (packet : Packet) : Prop := ∃ rdata ∈ optRdatas packet, ecsOptionCode ∈ optionCodes rdata

instance (packet : Packet) : Decidable (CarriesEcs packet) :=
  inferInstanceAs (Decidable (∃ rdata ∈ optRdatas packet, ecsOptionCode ∈ optionCodes rdata))

theorem optionSize_sized : Tlv.Sized 4 optionSize where
  local_ := by
    intro bs rest hlen
    simp only [optionSize, u16be, byteAt_append_left (show 2 < bs.length by omega),
      byteAt_append_left (show 2 + 1 < bs.length by omega)]
  header := fun bs => Nat.le_add_right _ _

/-- The options from `pos` on, as the option loops read them. -/
theorem split_optionSize (rdata : List UInt8) (fuel pos : Nat) :
    Tlv.split 4 optionSize (fuel + 1) (rdata.drop pos) =
      if pos + 4 ≤ rdata.length then
        if rdata.length < pos + 4 + u16be rdata (pos + 2) then ([], false)
        else
          (slice rdata pos (pos + 4 + u16be rdata (pos + 2)) ::
            (Tlv.split 4 optionSize fuel (rdata.drop (pos + 4 + u16be rdata (pos + 2)))).1,
            (Tlv.split 4 optionSize fuel (rdata.drop (pos + 4 + u16be rdata (pos + 2)))).2)
      else ([], true) := by
  have hsize : optionSize (rdata.drop pos) = 4 + u16be rdata (pos + 2) := by
    rw [optionSize, u16be_drop]
  have hlen : (rdata.drop pos).length = rdata.length - pos := List.length_drop
  split_ifs with hhead hfit
  · exact Tlv.split_misfit (by omega) (by omega) fuel
  · rw [Tlv.split_fit (by omega) (by omega), hsize, List.drop_drop, slice, Nat.add_assoc,
      Nat.add_sub_cancel_left]
  · exact Tlv.split_short (by omega) fuel

theorem u16be_slice {p : List UInt8} {i j k : Nat} (h : k + 1 < j - i) :
    u16be (slice p i j) k = u16be p (i + k) := by
  rw [u16be, u16be, byteAt_slice (by omega), byteAt_slice h, ← Nat.add_assoc]

/-- The option loop, in terms of the options it reads. -/
theorem dropEcsLoop_eq (rdata : List UInt8) (fuel pos : Nat) (found : Bool) (new : List UInt8) :
    dropEcsLoop rdata fuel pos found new =
      if (Tlv.split 4 optionSize fuel (rdata.drop pos)).2 then
        some (found || (Tlv.split 4 optionSize fuel (rdata.drop pos)).1.any
            (fun o => u16be o 0 == ecsOptionCode),
          new ++ ((Tlv.split 4 optionSize fuel (rdata.drop pos)).1.filter
            (fun o => u16be o 0 != ecsOptionCode)).flatten)
      else none := by
  induction fuel generalizing pos found new with
  | zero => simp [dropEcsLoop, Tlv.split]
  | succ fuel ih =>
    rw [dropEcsLoop, split_optionSize]
    by_cases hhead : pos + 4 ≤ rdata.length
    · rw [if_pos hhead, if_pos hhead]
      by_cases hfit : rdata.length < pos + 4 + u16be rdata (pos + 2)
      · simp [hfit]
      · simp only [if_neg hfit, ih]
        have hcode : u16be (slice rdata pos (pos + 4 + u16be rdata (pos + 2))) 0 = u16be rdata pos :=
          u16be_slice (by omega)
        by_cases hecs : u16be rdata pos = ecsOptionCode
        · simp [hcode, hecs]
        · simp [hcode, beq_eq_false_iff_ne.mpr hecs, hecs]
    · simp [hhead]

/-- RDATA with its ECS options taken out, when every option fits. -/
def withoutEcs (rdata : List UInt8) : List UInt8 :=
  if optionsFit rdata ∧ ecsOptionCode ∈ optionCodes rdata then
    ((options rdata).1.filter (fun o => u16be o 0 != ecsOptionCode)).flatten
  else rdata

theorem length_withoutEcs (rdata : List UInt8) : (withoutEcs rdata).length ≤ rdata.length := by
  rw [withoutEcs]
  split_ifs with h
  · exact Nat.le_trans (Tlv.length_flatten_filter_le _ _) (Tlv.length_split_flatten _ _)
  · exact Nat.le_refl _

theorem withoutEcs_optionCodes {rdata : List UInt8} (hfit : optionsFit rdata = true) :
    ecsOptionCode ∉ optionCodes (withoutEcs rdata) := by
  by_cases hecs : ecsOptionCode ∈ optionCodes rdata
  · rw [withoutEcs, if_pos ⟨hfit, hecs⟩]
    set kept := (options rdata).1.filter (fun o => u16be o 0 != ecsOptionCode) with hkept
    have hitems : ∀ o ∈ kept, Tlv.Item 4 optionSize o := fun o ho =>
      Tlv.split_items optionSize_sized o (List.mem_of_mem_filter ho)
    rw [optionCodes, options, Tlv.split_flatten (by omega) hitems
      (Tlv.length_le_length_flatten (by omega) hitems)]
    intro hmem
    obtain ⟨o, ho, hcode⟩ := List.mem_map.mp hmem
    have := (List.mem_filter.mp ho).2
    simp [hcode] at this
  · rw [withoutEcs, if_neg (fun h => hecs h.2)]
    exact hecs

/-- `strip_ecs_from_opt` replaces the RDATA by `withoutEcs`, if that changes anything. -/
theorem stripEcsFromOpt_eq (packet : Packet) (rdataStart rdataEnd : Nat) :
    stripEcsFromOpt packet rdataStart rdataEnd =
      if optionsFit (slice packet rdataStart rdataEnd) ∧
          ecsOptionCode ∈ optionCodes (slice packet rdataStart rdataEnd) then
        some (replaceOptRdata packet rdataStart rdataEnd
          (withoutEcs (slice packet rdataStart rdataEnd)))
      else none := by
  set rdata := slice packet rdataStart rdataEnd with hrdata
  have hany : ((options rdata).1.any fun o => u16be o 0 == ecsOptionCode) =
      decide (ecsOptionCode ∈ optionCodes rdata) := by
    rw [Bool.eq_iff_iff]
    simp [optionCodes]
  simp only [stripEcsFromOpt, ← hrdata, dropEcsLoop_eq, List.drop_zero, Bool.false_or, List.nil_append]
  rw [← options, hany]
  by_cases hfit : optionsFit rdata = true
  · by_cases hecs : ecsOptionCode ∈ optionCodes rdata
    · have hfit' : (options rdata).2 = true := hfit
      simp [hfit, hfit', hecs, withoutEcs]
    · have hfit' : (options rdata).2 = true := hfit
      simp [hfit', hecs]
  · have hfit' : (options rdata).2 = false := by simpa [optionsFit] using hfit
    simp [hfit', hfit]

end PathDns
