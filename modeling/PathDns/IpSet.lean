import PathDns.Config.Types
import PathDns.Lib.Reader
import PathDns.Lib.RustParse
import PathDns.Lib.Slots
import Mathlib.Data.Finset.Dedup
import Mathlib.Data.List.ReduceOption

/-!
# Address sets (`ipset/mod.rs`, `ipset/config.rs`, and their part of `config/parse.rs`)

An `accept` filter may name a set that the addresses of an accepted response are added to. The entry has
to pin its response type to A or to AAAA; the name is parsed at startup, and at run time the addresses go
into the queue of a worker, apart from special-use ones.
-/

namespace PathDns

open RustParse

/-! ### The configuration -/

/-- The checks of `parse_rule_filter_entry` on a parsed entry, `addIp` being the set name if it is not
blank. -/
def checkRuleFilterEntry (spec : RuleFilterSpec) (addIp : Option Str) : Except String Unit :=
  if spec.answerIp.isEmpty && spec.responseType.isEmpty && spec.responseRcode.isEmpty &&
      spec.responseQclass.isEmpty then
    .error ("must specify at least one match criterion (answer-ip / " ++
      "response-type / response-rcode / response-qclass)")
  else if addIp.isSome then
    if spec.action ≠ .accept then .error "\"add-ip\" is only valid with action \"accept\""
    else if spec.responseType.toFinset ≠ {1} ∧ spec.responseType.toFinset ≠ {28} then
      .error ("\"add-ip\" requires \"response-type\": \"A\" or \"AAAA\" (exactly one), " ++
        "not both and not omitted — a query only ever gets one record type back")
    else .ok ()
  else .ok ()

/-- Rules with the set names of their filters, as the parser lets them through. -/
structure AddIpRules where
  rules : List RuleSpec
  addIp : Nat → Nat → Option Str
  checked : ∀ i spec, rules[i]? = some spec → ∀ j f, spec.filters[j]? = some f →
    checkRuleFilterEntry f (addIp i j) = .ok ()

def parseIpsetConfig (conf : AddIpRules) : Option IpSetConfig :=
  let addRules := (conf.rules.mapIdx fun i spec =>
    (spec.filters.mapIdx fun j f =>
      (conf.addIp i j).map fun raw => (i, j, raw, f.responseType.contains 28)).reduceOption).flatten
  if addRules.isEmpty then none else some ⟨addRules⟩

/-- A response type that is one record type only. -/
def RuleFilterSpec.PinnedTo (spec : RuleFilterSpec) (rrType : UInt16) : Prop :=
  spec.action = .accept ∧ spec.responseType.toFinset = {rrType}

theorem pinned_of_checked {spec : RuleFilterSpec} {raw : Str}
    (h : checkRuleFilterEntry spec (some raw) = .ok ()) : spec.PinnedTo 1 ∨ spec.PinnedTo 28 := by
  simp only [checkRuleFilterEntry, Option.isSome_some, if_true] at h
  split_ifs at h with hcriteria haction htype
  have haccept : spec.action = .accept := not_ne_iff.mp haction
  rcases not_and_or.mp htype with hone | hmany
  · exact .inl ⟨haccept, not_ne_iff.mp hone⟩
  · exact .inr ⟨haccept, not_ne_iff.mp hmany⟩

/-! ### Set names -/

inductive NftFamily where
  | inet
  | ip
  | ip6
  | arp
  | bridge
  | netdev
deriving DecidableEq, Repr

inductive SetName where
  | ipSet (name : Str) (mask : Option Nat)
  | nftSet (family : NftFamily) (table set : Str) (mask : Option Nat)
deriving DecidableEq, Repr

def parseNftFamily (value : Str) : Except String NftFamily :=
  let shown := String.ofList value
  match shown with
  | "inet" => .ok .inet
  | "ip" => .ok .ip
  | "ip6" => .ok .ip6
  | "arp" => .ok .arp
  | "bridge" => .ok .bridge
  | "netdev" => .ok .netdev
  | _ => .error s!"invalid nft family: {shown}"

def parseMask (s : Str) : Except String (Option Nat) :=
  let shown := String.ofList s
  if s.isEmpty then .ok none
  else
    match parseUnsigned 10 256 s with
    | some n =>
      if n > 128 then .error s!"invalid prefix length '{shown}': must be 0–128" else .ok (some n)
    | none => .error s!"invalid prefix length '{shown}': must be 0–128"

namespace SetName

def mask : SetName → Option Nat
  | .ipSet _ mask => mask
  | .nftSet _ _ _ mask => mask

/-- The name without the check of its mask. -/
def parseRaw (raw : Str) : Except String SetName :=
  let shown := String.ofList raw
  if raw.contains '@' then do
    let parts := splitn '@' 5 raw
    let part (i : Nat) : Str := parts[i]?.getD []
    let family ← parseNftFamily (part 0)
    if (part 1).isEmpty || (part 2).isEmpty || parts[4]?.isSome then throw s!"invalid nftset name: {shown}"
    let mask ← parseMask (part 3)
    return .nftSet family (part 1) (part 2) mask
  else
    match rsplitOnce '/' raw with
    | some (name, maskText) => do
      let mask ← parseMask maskText
      if mask.isNone then throw s!"invalid ipset mask in: {shown}"
      if name.isEmpty then throw s!"empty ipset name in: {shown}"
      return .ipSet name mask
    | none => if raw.isEmpty then throw s!"empty ipset name in: {shown}" else return .ipSet raw none

def parse (raw : Str) (maxPrefix : Nat) : Except String SetName := do
  let shown := String.ofList raw
  let parsed ← parseRaw raw
  match parsed.mask with
  | some mask =>
    if mask > maxPrefix then throw s!"prefix length {mask} exceeds maximum {maxPrefix} in: {shown}"
    return parsed
  | none => return parsed

end SetName

/-! ### The manager -/

structure AddJob where
  set : SetName
  ip : IpAddr
  interval : Bool
deriving DecidableEq, Repr

/-- `IpSetManager`: its sets with the rule and the filter they belong to, the interval sets among them,
and whether there is a worker. -/
structure IpSetManager where
  addRules : List (Nat × Nat × SetName)
  intervalNftSets : List SetName
  addTx : Bool

inductive WarnKind where
  | addQueueFull
  | addWorkerExited
deriving DecidableEq, Repr

/-- What `try_send` says. -/
inductive SendOutcome where
  | ok
  | full
  | disconnected
deriving DecidableEq, Repr

/-- What adding addresses has done so far: how often it has sent, what got into the queue, how many
addresses were dropped and which warnings are due. -/
structure AddEffect where
  sends : Nat
  queued : List AddJob
  dropped : Nat
  warned : List WarnKind
deriving DecidableEq, Repr

def isSpecialUse : IpAddr → Bool
  | .v4 addr =>
    let o0 := addr.toNat / 2 ^ 24
    let o1 := addr.toNat / 2 ^ 16 % 256
    let o2 := addr.toNat / 2 ^ 8 % 256
    o0 == 127 ||
    (o0 == 10 || (o0 == 172 && 16 ≤ o1 && o1 ≤ 31) || (o0 == 192 && o1 == 168)) ||
    (o0 == 169 && o1 == 254) ||
    addr.toNat == 0xffffffff ||
    (224 ≤ o0 && o0 ≤ 239) ||
    ((o0 == 192 && o1 == 0 && o2 == 2) || (o0 == 198 && o1 == 51 && o2 == 100) ||
      (o0 == 203 && o1 == 0 && o2 == 113)) ||
    o0 == 0 ||
    (o0 == 100 && o1 &&& 0xc0 == 0x40)
  | .v6 addr =>
    let s0 := addr.toNat / 2 ^ 112
    let s1 := addr.toNat / 2 ^ 96 % 2 ^ 16
    addr.toNat == 1 || addr.toNat == 0 ||
    s0 &&& 0xff00 == 0xff00 || s0 &&& 0xfe00 == 0xfc00 || s0 &&& 0xffc0 == 0xfe80 ||
    (s0 == 0x2001 && s1 == 0x0db8)

namespace IpSetManager

/-- `IpSetManager::new`. `opened` is the outcome of opening the netlink socket, `interval` what the kernel
says of an nftset. -/
def new (cfg : IpSetConfig) (opened : Except String Unit) (interval : SetName → Bool) :
    Except String IpSetManager := do
  let addRules ← cfg.addRules.mapM fun r =>
    (SetName.parse r.2.2.1 (if r.2.2.2 then 128 else 32)).map fun set => (r.1, r.2.1, set)
  opened
  let nftSets := (addRules.map (·.2.2)).filter fun set => match set with
    | .nftSet _ _ _ _ => interval set
    | .ipSet _ _ => false
  return ⟨addRules, nftSets, !addRules.isEmpty⟩

def filterSet (m : IpSetManager) (ruleIdx filterIdx : Nat) : Option SetName :=
  (m.addRules.find? fun r => r.1 == ruleIdx && r.2.1 == filterIdx).map (·.2.2)

/-- The loop body of `add_ips`; `outcome k` is the outcome of the `k`-th send. -/
def addIp (m : IpSetManager) (set : SetName) (outcome : Nat → SendOutcome) (e : AddEffect)
    (ip : IpAddr) : AddEffect :=
  if isSpecialUse ip then e
  else if !m.addTx then e
  else
    let warn (kind : WarnKind) := if kind ∈ e.warned then e.warned else e.warned ++ [kind]
    match outcome e.sends with
    | .ok => { e with
        sends := e.sends + 1
        queued := e.queued ++ [⟨set, ip, m.intervalNftSets.contains set⟩] }
    | .full => { e with
        sends := e.sends + 1
        dropped := e.dropped + 1
        warned := warn .addQueueFull }
    | .disconnected => { e with sends := e.sends + 1, warned := warn .addWorkerExited }

def addIps (m : IpSetManager) (set : SetName) (outcome : Nat → SendOutcome) (ips : List IpAddr) :
    AddEffect :=
  ips.foldl (m.addIp set outcome) ⟨0, [], 0, []⟩

def addFilterIps (m : IpSetManager) (ruleIdx filterIdx : Nat) (outcome : Nat → SendOutcome)
    (ips : List IpAddr) : AddEffect :=
  match m.filterSet ruleIdx filterIdx with
  | some set => m.addIps set outcome ips
  | none => ⟨0, [], 0, []⟩

/-! ### What is queued -/

variable {m : IpSetManager} {set : SetName} {outcome : Nat → SendOutcome} {e : AddEffect}
  {ip : IpAddr} {ips : List IpAddr} {job : AddJob}

theorem queued_addIp (h : job ∈ (m.addIp set outcome e ip).queued) :
    job ∈ e.queued ∨ (job.ip = ip ∧ isSpecialUse ip = false) := by
  revert h
  fun_cases addIp m set outcome e ip <;> intro h
  case case3 hspecial _ _ =>
    rcases List.mem_append.mp h with h | h
    · exact .inl h
    · rw [List.mem_singleton.mp h]
      exact .inr ⟨rfl, by simpa using hspecial⟩
  all_goals exact .inl h

/-- Only the addresses that are handed over get into the queue, and no special-use one. -/
theorem queued_foldl (h : job ∈ (ips.foldl (m.addIp set outcome) e).queued) :
    job ∈ e.queued ∨ (job.ip ∈ ips ∧ isSpecialUse job.ip = false) := by
  induction ips generalizing e with
  | nil => exact .inl h
  | cons ip ips ih =>
    rcases ih h with hmem | ⟨hmem, hspecial⟩
    · rcases queued_addIp hmem with hmem | ⟨rfl, hspecial⟩
      · exact .inl hmem
      · exact .inr ⟨List.mem_cons_self, hspecial⟩
    · exact .inr ⟨List.mem_cons_of_mem _ hmem, hspecial⟩

theorem of_mem_addFilterIps {ruleIdx filterIdx : Nat}
    (h : job ∈ (m.addFilterIps ruleIdx filterIdx outcome ips).queued) :
    ∃ set, m.filterSet ruleIdx filterIdx = some set ∧ job.ip ∈ ips ∧ isSpecialUse job.ip = false := by
  revert h
  fun_cases addFilterIps m ruleIdx filterIdx outcome ips <;> intro h
  case case1 set hset => exact ⟨set, hset, (queued_foldl h).resolve_left nofun⟩
  case case2 => cases h

theorem queued_of_room (htx : m.addTx = true) (hspecial : isSpecialUse ip = false) :
    (m.addIp set (fun _ => .ok) e ip).queued = e.queued ++ [⟨set, ip, m.intervalNftSets.contains set⟩] := by
  simp [addIp, hspecial, htx]

theorem queued_mono (h : job ∈ e.queued) : job ∈ (m.addIp set outcome e ip).queued := by
  fun_cases addIp m set outcome e ip
  case case3 => exact List.mem_append_left _ h
  all_goals exact h

theorem queued_foldl_mono (h : job ∈ e.queued) : job ∈ (ips.foldl (m.addIp set outcome) e).queued := by
  induction ips generalizing e with
  | nil => exact h
  | cons ip ips ih => exact ih (queued_mono h)

/-- With room in the queue every address gets into it that is not a special-use one. -/
theorem mem_queued_of_room (htx : m.addTx = true) (hmem : ip ∈ ips) (hspecial : isSpecialUse ip = false) :
    ∃ job ∈ (ips.foldl (m.addIp set (fun _ => .ok)) e).queued, job.ip = ip := by
  induction ips generalizing e with
  | nil => simp at hmem
  | cons other ips ih =>
    rcases List.mem_cons.mp hmem with rfl | hmem
    · rw [List.foldl_cons]
      refine ⟨⟨set, ip, m.intervalNftSets.contains set⟩, queued_foldl_mono ?_, rfl⟩
      rw [queued_of_room htx hspecial]
      exact List.mem_append_right _ (List.mem_singleton.mpr rfl)
    · exact ih hmem

/-! ### The sets of the configuration -/

variable {cfg : IpSetConfig}

theorem of_mem_addRules {conf : AddIpRules} (hcfg : parseIpsetConfig conf = some cfg) {i j : Nat} {raw : Str}
    {isV6 : Bool} (h : (i, j, raw, isV6) ∈ cfg.addRules) :
    ∃ spec f, conf.rules[i]? = some spec ∧ spec.filters[j]? = some f ∧ conf.addIp i j = some raw := by
  rw [parseIpsetConfig] at hcfg
  split_ifs at hcfg
  obtain rfl := Option.some.inj hcfg
  obtain ⟨entries, hentries, hmem⟩ := List.mem_flatten.mp h
  obtain ⟨n, hn, rfl⟩ := List.mem_mapIdx.mp hentries
  rw [List.reduceOption_mem_iff] at hmem
  obtain ⟨k, hk, hsome⟩ := List.mem_mapIdx.mp hmem
  obtain ⟨raw', hraw, heq⟩ := Option.map_eq_some_iff.mp hsome
  obtain ⟨rfl, rfl, rfl, -⟩ : n = i ∧ k = j ∧ raw' = raw ∧ _ := by simpa using heq
  exact ⟨_, _, List.getElem?_eq_getElem hn, List.getElem?_eq_getElem hk, hraw⟩

variable {opened : Except String Unit} {interval : SetName → Bool}

theorem new_addRules (hnew : new cfg opened interval = .ok m) :
    (cfg.addRules.mapM fun r =>
      (SetName.parse r.2.2.1 (if r.2.2.2 then 128 else 32)).map fun set => (r.1, r.2.1, set)) =
        .ok m.addRules ∧ m.addTx = !m.addRules.isEmpty := by
  rw [new] at hnew
  obtain ⟨addRules, haddRules, hnew⟩ := Fallible.bind_eq_ok_iff.mp hnew
  obtain ⟨-, -, ⟨⟩⟩ := Fallible.bind_eq_ok_iff.mp hnew
  exact ⟨haddRules, rfl⟩

theorem of_filterSet (hnew : new cfg opened interval = .ok m) {i j : Nat} (h : m.filterSet i j = some set) :
    m.addTx = true ∧ ∃ raw isV6, (i, j, raw, isV6) ∈ cfg.addRules := by
  obtain ⟨haddRules, htx⟩ := new_addRules hnew
  obtain ⟨r, hr, rfl⟩ := Option.map_eq_some_iff.mp h
  have hmem : r ∈ m.addRules := List.mem_of_find?_eq_some hr
  have hidx := List.find?_some hr
  simp only [Bool.and_eq_true, beq_iff_eq] at hidx
  refine ⟨by rw [htx]; simpa using List.ne_nil_of_mem hmem, ?_⟩
  obtain ⟨n, hn⟩ := List.mem_iff_getElem?.mp hmem
  obtain ⟨x, hx, hparsed⟩ := Fallible.of_getElem?_mapM haddRules hn
  obtain ⟨i', j', raw, isV6⟩ := x
  dsimp only at hparsed
  cases hset : SetName.parse raw (if isV6 then 128 else 32) with
  | error msg => simp [hset, Except.map] at hparsed
  | ok parsed =>
    rw [hset] at hparsed
    obtain rfl := Except.ok.inj hparsed
    obtain ⟨rfl, rfl⟩ := hidx
    exact ⟨raw, isV6, List.mem_of_getElem? hx⟩

end IpSetManager

end PathDns
