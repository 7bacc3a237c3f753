import PathDns.Domain.Normalize
import PathDns.IpRange
import PathDns.Lib.Reader

/-!
# Upstream URLs (`config/upstream_url.rs`, `config/parse.rs`)

The URLs of `route.servers`: real upstreams with their query parameters, and fixed answers. An error is the
chain of its contexts, the outermost first, without the texts of the standard library. The one-shot query
that resolves a host through a bootstrap server is a parameter.
-/

namespace PathDns

open RustParse Fallible

/-- An error with its contexts, the outermost first. -/
abbrev Chain := List String

def withContext {α : Type} (context : String) (r : Except Chain α) : Except Chain α :=
  r.mapError (context :: ·)

theorem withContext_eq_ok {α : Type} {context : String} {r : Except Chain α} {a : α} :
    withContext context r = .ok a ↔ r = .ok a := by
  cases r <;> simp [withContext, Except.mapError]

structure BootstrapTarget where
  addr : SocketAddr
  mark : Option UInt32
deriving DecidableEq, Repr

/-- `bootstrap_udp_query`: host, record type, address and mark. -/
abbrev BootstrapQuery := Str → Nat → SocketAddr → Option UInt32 → Except Chain IpAddr

/-- What separates the scheme of a URL. -/
def schemeSep : Str := [':', '/', '/']

def noSniParam : Str := ['n', 'o', '-', 's', 'n', 'i']

def sniKey : Str := ['s', 'n', 'i', '=']

def ecsKey : Str := ['e', 'c', 's', '=']

def bootstrapKey : Str := ['b', 'o', 'o', 't', 's', 't', 'r', 'a', 'p', '=']

def markKey : Str := ['m', 'a', 'r', 'k', '=']

def stripValue : Str := ['s', 't', 'r', 'i', 'p']

def forwardValue : Str := ['f', 'o', 'r', 'w', 'a', 'r', 'd']

def ttlKey : Str := ['t', 't', 'l', '=']

def Str.toAsciiUppercase (s : Str) : Str := s.map Char.toUpper

/-- `SocketAddr::new`. -/
def SocketAddr.ofIp (ip : IpAddr) (port : UInt16) : SocketAddr :=
  match ip with
  | .v4 a => .v4 a port
  | .v6 a => .v6 a port 0

def parseU16 (s : Str) : Option UInt16 := (parseUnsigned 10 (2 ^ 16) s).map UInt16.ofNat

/-! ### Hosts and ports -/

def stripIpv6Brackets (host : Str) : Str :=
  match host with
  | '[' :: rest => if rest.getLast? = some ']' then rest.dropLast else host
  | _ => host

def authorityPort (authority : Str) (defaultPort : UInt16) : UInt16 :=
  if authority.head? = some '[' then
    match (rsplitOnce ']' authority).bind (fun r => stripPrefix [':'] r.2) with
    | some port => (parseU16 port).getD defaultPort
    | none => defaultPort
  else ((rsplitOnce ':' authority).bind (fun r => parseU16 r.2)).getD defaultPort

def authorityHost (authority : Str) : Except Chain Str :=
  let shown := String.ofList authority
  match authority with
  | '[' :: rest =>
    match splitOnce [']'] rest with
    | none => .error [s!"invalid IPv6 upstream authority: {shown}"]
    | some (host, tail) =>
      if !tail.isEmpty && tail.head? != some ':' then .error [s!"invalid upstream authority: {shown}"]
      else .ok host
  | _ =>
    if 2 ≤ authority.count ':' then
      .error [s!"invalid upstream authority '{shown}': IPv6 addresses must be bracketed, e.g. [::1]:53"]
    else
      match rsplitOnce ':' authority with
      | some (host, port) => .ok (if (parseU16 port).isSome then host else authority)
      | none => .ok authority

def normalizeAddrWithDefaultPort (s : Str) (defaultPort : UInt16) : Str :=
  let port := ':' :: RustFmt.dec defaultPort.toNat
  if s.head? = some '[' then
    match rsplitOnce ']' s with
    | some (_, ':' :: tail) => if (parseU16 tail).isSome then s else s ++ port
    | _ => s ++ port
  else if 2 ≤ s.count ':' then ['['] ++ s ++ [']'] ++ port
  else
    match rsplitOnce ':' s with
    | some (_, tail) => if (parseU16 tail).isSome then s else s ++ port
    | none => s ++ port

/-- The queries of `resolve_host`, for each target A first and then AAAA; the last error is kept. -/
def queryTargets (query : BootstrapQuery) (host : Str) :
    List (BootstrapTarget × Nat) → Option Chain → Except (Option Chain) IpAddr
  | [], lastErr => .error lastErr
  | (target, qtype) :: rest, _ =>
    match query host qtype target.addr target.mark with
    | .ok ip => .ok ip
    | .error e => queryTargets query host rest (some e)

def resolveHost (query : BootstrapQuery) (host : Str) (port : UInt16) (bootstrap : List BootstrapTarget) :
    Except Chain SocketAddr :=
  let shown := String.ofList host
  match parseIpAddr (stripIpv6Brackets host) with
  | some ip => .ok (.ofIp ip port)
  | none =>
    if bootstrap.isEmpty then
      .error [s!"upstream hostname '{shown}' requires ?bootstrap=<server> to resolve at " ++
        "startup (e.g. tls://dns.google?bootstrap=domestic-dns, where domestic-dns is a route.servers " ++
        "entry with an IP-literal address); /etc/resolv.conf is never used"]
    else
      match queryTargets query host (bootstrap.flatMap (fun t => [(t, 1), (t, 28)])) none with
      | .ok ip => .ok (.ofIp ip port)
      | .error lastErr =>
        withContext s!"bootstrap DNS: failed to resolve '{shown}'"
          (.error (lastErr.getD ["no bootstrap servers configured"]))

def resolveAuthority (query : BootstrapQuery) (authority : Str) (defaultPort : UInt16)
    (bootstrap : List BootstrapTarget) : Except Chain (Str × SocketAddr) := do
  let host ← authorityHost authority
  let addr ← resolveHost query host (authorityPort authority defaultPort) bootstrap
  .ok (host, addr)

/-! ### Query parameters -/

structure UpstreamQueryParams where
  noSni : Bool
  sni : Option Str
  ecs : Option Str
  bootstrap : Option Str
  mark : Option Str
deriving DecidableEq, Repr

/-- One parameter of the loop in `parse_upstream_query`. -/
def addParam (raw : Str) (params : UpstreamQueryParams) (param : Str) :
    Except Chain UpstreamQueryParams :=
  if param = noSniParam then .ok { params with noSni := true }
  else if let some value := stripPrefix sniKey param then .ok { params with sni := some value }
  else if let some value := stripPrefix ecsKey param then .ok { params with ecs := some value }
  else if let some value := stripPrefix bootstrapKey param then
    .ok { params with bootstrap := some value }
  else if let some value := stripPrefix markKey param then .ok { params with mark := some value }
  else
    let shown := String.ofList raw
    let shownParam := String.ofList param
    .error [s!"invalid upstream '{shown}': unknown query parameter '{shownParam}'"]

/-- The parameters of a query: the parts between `&` that are not empty. -/
def queryParams (query : Str) : List Str := (query.splitOn '&').filter (fun p => !p.isEmpty)

def parseUpstreamQuery (query raw : Str) : Except Chain UpstreamQueryParams :=
  (queryParams query).foldlM (addParam raw) ⟨false, none, none, none, none⟩

def parseFwmark (s : Str) : Except Chain UInt32 :=
  let s := Str.trim s
  let shown := String.ofList s
  let parsed := match stripPrefix ['0', 'x'] s <|> stripPrefix ['0', 'X'] s with
    | some hex => parseUnsigned 16 (2 ^ 32) hex
    | none => parseUnsigned 10 (2 ^ 32) s
  match parsed with
  | some n => .ok (.ofNat n)
  | none => .error [s!"expected a u32 fwmark such as 0x1 or 100, got '{shown}'"]

def parseEcsSubnet (s : Str) : Except Chain EcsSubnet :=
  let shown := String.ofList s
  match splitOnce ['/'] s with
  | some (addrStr, prefixStr) =>
    let shownAddr := String.ofList addrStr
    let shownLen := String.ofList prefixStr
    match parseIpAddr addrStr with
    | none => .error [s!"invalid address '{shownAddr}'"]
    | some addr =>
      match parseUnsigned 10 (2 ^ 8) prefixStr with
      | none => .error [s!"invalid prefix length '{shownLen}'"]
      | some len =>
        let max := addr.bits
        if len > max then .error [s!"prefix length {len} exceeds maximum {max}"]
        else .ok ⟨addr, .ofNat len⟩
  | none =>
    match parseIpAddr s with
    | none => .error [s!"expected IP address or CIDR prefix, got '{shown}'"]
    | some addr => .ok ⟨addr, .ofNat addr.bits⟩

def parseUpstreamScheme (scheme : Str) : Except Chain UpstreamProto :=
  let other := String.ofList (Str.toAsciiLowercase scheme)
  match other with
  | "udp" => .ok .udp
  | "tcp" => .ok .tcp
  | "tls" => .ok .tls
  | "https" => .ok .https
  | "quic" => .ok .quic
  | "h3" => .ok .h3
  | _ => .error [s!"unsupported upstream scheme '{other}'"]

def splitUpstreamPath (rest : Str) : Except Chain (Str × Option Str) :=
  let (authority, path) := match splitOnce ['/'] rest with
    | none => (rest, none)
    | some (a, p) => (a, some (if p.isEmpty then ['/'] else rest.drop a.length))
  if authority.isEmpty then .error ["upstream URL is missing a host"] else .ok (authority, path)

def UpstreamProto.defaultPort : UpstreamProto → UInt16
  | .udp | .tcp => 53
  | .tls | .quic => 853
  | .https | .h3 => 443

def UpstreamProto.usesTlsName : UpstreamProto → Bool
  | .tls | .https | .quic | .h3 => true
  | .udp | .tcp => false

/-! ### One upstream -/

/-- What `parse_upstream` has read of a URL with a scheme when it comes to the bootstrap server. -/
structure UrlHead where
  proto : UpstreamProto
  restNoQuery : Str
  params : UpstreamQueryParams
  ecsMode : Option EcsMode

/-- The ECS mode of a URL. -/
def parseEcsParam (raw : Str) : Option Str → Except Chain (Option EcsMode)
  | none => .ok none
  | some val =>
    let shown := String.ofList raw
    let shownVal := String.ofList val
    if val = stripValue then .ok (some .strip)
    else if val = forwardValue then .ok (some .forward)
    else withContext s!"invalid upstream '{shown}': ?ecs={shownVal}"
      ((parseEcsSubnet val).map (fun subnet => some (.fixed subnet)))

/-- The fwmark of a URL. -/
def parseMarkParam (raw : Str) : Option Str → Except Chain (Option UInt32)
  | none => .ok none
  | some val =>
    let shown := String.ofList raw
    let shownVal := String.ofList val
    withContext s!"invalid upstream '{shown}': ?mark={shownVal}" ((parseFwmark val).map some)

/-- `parse_upstream` on a trimmed URL up to the bootstrap server; a URL without a scheme has none. -/
def parseUrlHead (raw : Str) : Except Chain (Option UrlHead) := do
  let shown := String.ofList raw
  if raw.isEmpty then .error ["upstream cannot be empty"]
  if List.contains raw '#' then
    .error [s!"invalid upstream '{shown}': '#' port syntax is not supported; use udp://host:port or " ++
      "tcp://host:port"]
  if let some (host, addr) := rsplitOnce '@' raw then
    let shownHost := String.ofList host
    let shownAddr := String.ofList addr
    .error [s!"upstream host@addr syntax is not supported: {shownHost}@{shownAddr}"]
  match splitOnce schemeSep raw with
  | none => .ok none
  | some (scheme, rest) =>
    let proto ← parseUpstreamScheme scheme
    let (restNoQuery, query) := (splitOnce ['?'] rest).getD (rest, [])
    let params ← parseUpstreamQuery query raw
    let ecsMode ← parseEcsParam raw params.ecs
    .ok (some ⟨proto, restNoQuery, params, ecsMode⟩)

/-- The rest of `parse_upstream`, with the targets of the bootstrap server. -/
def parseUrlTail (query : BootstrapQuery) (raw : Str) (head : UrlHead) (targets : List BootstrapTarget) :
    Except Chain UpstreamEndpoint := do
  let shown := String.ofList raw
  let mark ← parseMarkParam raw head.params.mark
  if head.params.noSni && head.proto != .tls then
    .error [s!"invalid upstream '{shown}': ?no-sni is only valid for tls:// upstreams"]
  if head.params.sni.isSome && !head.proto.usesTlsName then
    .error [s!"invalid upstream '{shown}': ?sni= is only valid for TLS-based upstreams"]
  let (authority, path) ← splitUpstreamPath head.restNoQuery
  let (host, addr) ← withContext s!"upstream '{shown}'"
    (resolveAuthority query authority head.proto.defaultPort targets)
  let serverName := head.params.sni <|>
    (if head.proto.usesTlsName then some (stripIpv6Brackets host) else none)
  let path ← match head.proto with
    | .https | .h3 => .ok (some (path.getD "/dns-query".toList))
    | _ =>
      if path.isSome then
        .error [s!"invalid upstream '{shown}': path is only valid for https://, h3://"]
      else .ok none
  .ok ⟨head.proto, addr, serverName, path, head.params.noSni, head.ecsMode, mark⟩

/-- The schemaless case of `parse_upstream`: an address, by default on port 53 over UDP. -/
def parsePlainUpstream (query : BootstrapQuery) (raw : Str) : Except Chain UpstreamEndpoint := do
  let shown := String.ofList raw
  let normalized := normalizeAddrWithDefaultPort raw 53
  let host ← authorityHost normalized
  let addr ← withContext s!"upstream '{shown}'" (resolveHost query host (authorityPort normalized 53) [])
  .ok ⟨.udp, addr, none, none, false, none, none⟩

def parseUpstream (query : BootstrapQuery) (url : Str)
    (bootstrap : Str → Except Chain (List BootstrapTarget)) : Except Chain (List UpstreamEndpoint) := do
  let raw := Str.trim url
  let shown := String.ofList raw
  match ← parseUrlHead raw with
  | none => (parsePlainUpstream query raw).map ([·])
  | some head =>
    let targets ← match head.params.bootstrap with
      | none => .ok []
      | some name =>
        let shownName := String.ofList name
        withContext s!"invalid upstream '{shown}': ?bootstrap={shownName}" (bootstrap (Str.trim name))
    (parseUrlTail query raw head targets).map ([·])

def parseUpstreams (query : BootstrapQuery) (urls : List Str)
    (bootstrap : Str → Except Chain (List BootstrapTarget)) : Except Chain (List UpstreamEndpoint) := do
  let out ← urls.mapM (fun url => parseUpstream query url bootstrap)
  if out.flatten.isEmpty then .error ["at least one upstream DNS is required"] else .ok out.flatten

def bootstrapRef (url : Str) : Option Str := do
  let (_, rest) ← splitOnce schemeSep url
  let (_, query) ← splitOnce ['?'] rest
  (query.splitOn '&').findSome? (stripPrefix bootstrapKey)

/-- The name `parse_upstream` looks up, if it comes to that. -/
def lookedUp (url : Str) : Option Str :=
  match parseUrlHead (Str.trim url) with
  | .ok (some head) => head.params.bootstrap.map Str.trim
  | _ => none

/-! ### Fixed answers -/

def defaultAnswerTtl : UInt32 := 60

/-- One parameter of the loop in `split_answer_ttl`. -/
def addTtlParam (_ : UInt32) (param : Str) : Except Chain UInt32 :=
  match stripPrefix ttlKey param with
  | none =>
    let shown := String.ofList param
    .error [s!"unknown query parameter '{shown}' (only ?ttl= is supported)"]
  | some v =>
    match parseUnsigned 10 (2 ^ 32) v with
    | none =>
      let shown := String.ofList v
      .error [s!"invalid ?ttl= value '{shown}'"]
    | some ttl =>
      if ttl > 2147483647 then .error [s!"?ttl={ttl} exceeds the maximum DNS TTL (2147483647)"]
      else .ok (.ofNat ttl)

def splitAnswerTtl (rest : Str) : Except Chain (Str × UInt32) :=
  match splitOnce ['?'] rest with
  | none => .ok (rest, defaultAnswerTtl)
  | some (value, query) => do
    let ttl ← (queryParams query).foldlM addTtlParam defaultAnswerTtl
    .ok (value, ttl)

/-- `Ipv4Addr::from_str`, which reads no text of more than 15 bytes. -/
def parseIpv4Addr (s : Str) : Option (BitVec 32) :=
  if Str.byteLen s > 15 then none
  else
    match readIpv4 s with
    | some (addr, []) => some addr
    | _ => none

/-- `Ipv6Addr::from_str`. -/
def parseIpv6Addr (s : Str) : Option (BitVec 128) :=
  match readIpv6 s with
  | some (addr, []) => some addr
  | _ => none

def parseFixedAnswer (url : Str) : Except Chain FixedAnswer :=
  let shown := String.ofList url
  match splitOnce schemeSep url with
  | none => .error [s!"malformed fixed-answer upstream: '{shown}'"]
  | some (scheme, rest) => do
    let (value, ttl) ← splitAnswerTtl rest
    let shownValue := String.ofList value
    let other := String.ofList (Str.toAsciiUppercase scheme)
    match other with
    | "A" =>
      match parseIpv4Addr (Str.trim value) with
      | some addr => .ok (.a addr ttl)
      | none => .error [s!"A://: expected an IPv4 address, got '{shownValue}'"]
    | "AAAA" =>
      match parseIpv6Addr (Str.trim value) with
      | some addr => .ok (.aaaa addr ttl)
      | none => .error [s!"AAAA://: expected an IPv6 address, got '{shownValue}'"]
    | _ => .error [s!"unknown fixed-answer scheme '{other}' (expected A or AAAA)"]

def parseRcodeName (name : Str) : Except Chain UInt8 := do
  let other := String.ofList (Str.toAsciiUppercase name)
  let rcode ← match other with
    | "NOERROR" => .ok 0
    | "FORMERR" => .ok 1
    | "SERVFAIL" => .ok 2
    | "NXDOMAIN" => .ok 3
    | "NOTIMP" => .ok 4
    | "REFUSED" => .ok 5
    | _ =>
      match parseUnsigned 10 (2 ^ 8) (Str.toAsciiUppercase name) with
      | some n => .ok n
      | none => .error [s!"unknown RCODE \"{other}\" — use NOERROR/NXDOMAIN/SERVFAIL/REFUSED or a " ++
          "number 0–15"]
  if rcode > 15 then .error [s!"RCODE {rcode} is out of range (0–15)"]
  .ok (.ofNat rcode)

/-- The scheme of a URL in upper case. -/
def schemeOf (url : Str) : Option Str := (splitOnce schemeSep url).map (Str.toAsciiUppercase ·.1)

def isFixedAnswerUrl (url : Str) : Bool :=
  match schemeOf url with
  | some scheme => scheme = ['A'] || scheme = "AAAA".toList || scheme = "RCODE".toList
  | none => false

def parseFixedAnswerSet (name : Str) (urls : List Str) : Except Chain FixedAnswerSet := do
  let shown := String.ofList name
  let countScheme (scheme : Str) : Nat := urls.countP (fun u => schemeOf u = some scheme)
  let rcodeCount := countScheme "RCODE".toList
  let aCount := countScheme ['A']
  let aaaaCount := countScheme "AAAA".toList
  if rcodeCount > 0 && aCount + aaaaCount > 0 then
    .error [s!"route.servers.{shown}: cannot mix RCODE:// with A:// or AAAA://"]
  if rcodeCount > 1 then .error [s!"route.servers.{shown}: only one RCODE:// is allowed"]
  if rcodeCount = 1 then
    let url := urls.headD []
    let shownUrl := String.ofList url
    let rest := ((splitOnce schemeSep url).map (·.2)).getD []
    let context := s!"route.servers.{shown}: invalid RCODE \"{shownUrl}\""
    let (rcodeName, ttl) ← withContext context (splitAnswerTtl rest)
    let rcode ← withContext context (parseRcodeName rcodeName)
    .ok ⟨some rcode, ttl, []⟩
  else
    if aCount > 1 then .error [s!"route.servers.{shown}: only one A:// is allowed"]
    if aaaaCount > 1 then .error [s!"route.servers.{shown}: only one AAAA:// is allowed"]
    let answers ← urls.mapM (fun url => withContext s!"route.servers.{shown}" (parseFixedAnswer url))
    .ok ⟨none, 0, answers⟩

/-! ### The bootstrap parameters of a URL -/

/-- The values of the `bootstrap=` parameters of a URL, in order. -/
def bootstrapValues (url : Str) : List Str :=
  match splitOnce schemeSep url with
  | none => []
  | some (_, rest) =>
    match splitOnce ['?'] rest with
    | none => []
    | some (_, query) => (query.splitOn '&').filterMap (stripPrefix bootstrapKey)

theorem bootstrapRef_eq_head? (url : Str) : bootstrapRef url = (bootstrapValues url).head? := by
  rw [bootstrapRef, bootstrapValues]
  cases splitOnce schemeSep url with
  | none => rfl
  | some r =>
    cases h : splitOnce ['?'] r.2 with
    | none => simp [h, bind]
    | some q => simp [h, bind, List.head?_filterMap]

theorem stripPrefix_append_back (key : Str) {w : Str} (hw : ∀ c ∈ w, c ∉ key) (s : Str) :
    stripPrefix key (s ++ w) = (stripPrefix key s).map (· ++ w) := by
  cases h : stripPrefix key s with
  | some v =>
    rw [stripPrefix_eq_some] at h
    rw [Option.map_some, stripPrefix_eq_some, h, List.append_assoc]
  | none =>
    rw [Option.map_none, stripPrefix, if_neg]
    intro hfront
    obtain ⟨t, ht⟩ := front_of_front_append hw (List.isPrefixOf_iff_prefix.mp hfront)
    rw [stripPrefix_eq_some.mpr ht.symm] at h
    exact absurd h (Option.some_ne_none t)

theorem map_trim_bootstrapValues (url : Str) :
    (bootstrapValues (Str.trim url)).map Str.trim = (bootstrapValues url).map Str.trim := by
  obtain ⟨front, back, hurl, hfront, hback⟩ := Str.trim_split url
  have hscheme := splitOnce_pad schemeSep front (by decide)
    (not_mem_of_whitespace hfront (by decide)) (not_mem_of_whitespace hback (by decide)) (Str.trim url)
  rw [← hurl] at hscheme
  rw [bootstrapValues, bootstrapValues, hscheme]
  cases splitOnce schemeSep (Str.trim url) with
  | none => rfl
  | some r =>
    have hquery := splitOnce_pad ['?'] [] (by decide) (by simp)
      (not_mem_of_whitespace hback (by decide)) r.2
    rw [List.nil_append] at hquery
    simp only [Option.map_some, hquery]
    cases splitOnce ['?'] r.2 with
    | none => rfl
    | some q =>
      have hamp : '&' ∉ back := fun h => absurd (hback '&' h) (by decide)
      obtain ⟨init, last, hs, hsw⟩ := splitOn_append_back hamp q.2
      simp only [Option.map_some, hs, hsw]
      rw [List.filterMap_append, List.filterMap_append, List.map_append, List.map_append]
      congr 1
      have hlast := stripPrefix_append_back bootstrapKey
        (not_mem_of_whitespace hback (by decide)) last
      cases hv : stripPrefix bootstrapKey last with
      | none => simp [hlast, hv]
      | some v => simp [hlast, hv, Str.trim_append_back hback]

/-! ### Which URLs come to the bootstrap server -/

/-- A parameter that `parse_upstream_query` knows. -/
def KnownParam (param : Str) : Prop :=
  param = noSniParam ∨ ∃ key ∈ [sniKey, ecsKey, bootstrapKey, markKey], ∃ value, param = key ++ value

theorem addParam_ok_iff (raw : Str) (params : UpstreamQueryParams) {param : Str} :
    (∃ params', addParam raw params param = .ok params') ↔ KnownParam param := by
  simp only [KnownParam, List.mem_cons, List.not_mem_nil, or_false, exists_eq_or_imp, exists_eq_left,
    ← stripPrefix_eq_some]
  fun_cases addParam raw params param <;> simp_all

variable {raw : Str} {params params' : UpstreamQueryParams}

/-- What a parameter does to the two values that matter here: its own value replaces an earlier one. -/
theorem addParam_values {param : Str} (h : addParam raw params param = .ok params') :
    params'.bootstrap = (stripPrefix bootstrapKey param).or params.bootstrap ∧
      params'.ecs = (stripPrefix ecsKey param).or params.ecs := by
  -- the keys begin with different letters
  have hne : ∀ {c d : Char} {cs ds v : Str}, c ≠ d → stripPrefix (d :: ds) param = some v →
      stripPrefix (c :: cs) param = none := by
    intro c d cs ds v hcd h
    rw [stripPrefix_eq_some.mp h]
    exact stripPrefix_append_of_ne hcd cs ds v
  revert h
  fun_cases addParam raw params param <;> rintro ⟨⟩
  case case1 hno =>
    rw [hno]
    exact ⟨rfl, rfl⟩
  case case3 hecs _ =>
    rw [hecs, bootstrapKey, hne (by decide) hecs]
    exact ⟨rfl, rfl⟩
  case case4 hboot _ _ =>
    rw [hboot, ecsKey, hne (by decide) hboot]
    exact ⟨rfl, rfl⟩
  case case2 h | case5 h _ _ _ =>
    rw [bootstrapKey, ecsKey, hne (by decide) h, hne (by decide) h]
    exact ⟨rfl, rfl⟩

theorem foldlM_addParam_ok_iff {ps : List Str} :
    (∃ params', ps.foldlM (addParam raw) params = .ok params') ↔ ∀ p ∈ ps, KnownParam p := by
  induction ps generalizing params with
  | nil => simp [pure, Except.pure]
  | cons p ps ih =>
    rw [List.forall_mem_cons, ← addParam_ok_iff raw params]
    simp only [List.foldlM_cons, bind_eq_ok_iff]
    constructor
    · rintro ⟨params', next, hp, h⟩
      exact ⟨⟨next, hp⟩, ih.mp ⟨params', h⟩⟩
    · rintro ⟨⟨next, hp⟩, h⟩
      obtain ⟨params', h⟩ := ih.mpr h
      exact ⟨params', next, hp, h⟩

theorem foldlM_addParam_values {ps : List Str} (h : ps.foldlM (addParam raw) params = .ok params') :
    params'.bootstrap = (ps.filterMap (stripPrefix bootstrapKey)).getLast?.or params.bootstrap ∧
      params'.ecs = (ps.filterMap (stripPrefix ecsKey)).getLast?.or params.ecs := by
  induction ps generalizing params with
  | nil =>
    obtain rfl : params = params' := Except.ok.inj h
    exact ⟨rfl, rfl⟩
  | cons p ps ih =>
    rw [List.foldlM_cons] at h
    obtain ⟨next, hp, h⟩ := bind_eq_ok_iff.mp h
    obtain ⟨hb, he⟩ := ih h
    obtain ⟨hb', he'⟩ := addParam_values hp
    have hlast : ∀ key : Str, ((p :: ps).filterMap (stripPrefix key)).getLast? =
        (ps.filterMap (stripPrefix key)).getLast?.or (stripPrefix key p) := by
      intro key
      cases hk : stripPrefix key p with
      | none => simp [hk]
      | some v => simp [hk, List.getLast?_cons]
    rw [hb, he, hb', he', hlast, hlast, Option.or_assoc, Option.or_assoc]
    exact ⟨rfl, rfl⟩

/-- The query of a URL behind its scheme. -/
def queryOf (rest : Str) : Str := ((splitOnce ['?'] rest).map (·.2)).getD []

def upstreamSchemes : List String := ["udp", "tcp", "tls", "https", "quic", "h3"]

/-- An ECS value that `parse_upstream` accepts. -/
def EcsValueOk (val : Str) : Prop :=
  val = stripValue ∨ val = forwardValue ∨ ∃ subnet, parseEcsSubnet val = .ok subnet

/-- The URL is accepted as far as the bootstrap server: it has a scheme of an upstream, neither `#` nor `@`,
no unknown parameter, and its last ECS value is one. -/
def ReachesBootstrap (url : Str) : Prop :=
  '#' ∉ Str.trim url ∧ '@' ∉ Str.trim url ∧
    ∃ scheme rest, splitOnce schemeSep (Str.trim url) = some (scheme, rest) ∧
      String.ofList (Str.toAsciiLowercase scheme) ∈ upstreamSchemes ∧
      (∀ p ∈ queryParams (queryOf rest), KnownParam p) ∧
      ∀ val, ((queryParams (queryOf rest)).filterMap (stripPrefix ecsKey)).getLast? = some val →
        EcsValueOk val

theorem parseUpstreamScheme_ok_iff {scheme : Str} :
    (∃ proto, parseUpstreamScheme scheme = .ok proto) ↔
      String.ofList (Str.toAsciiLowercase scheme) ∈ upstreamSchemes := by
  simp only [parseUpstreamScheme, upstreamSchemes]
  split <;> simp_all

theorem parseEcsParam_ok_iff (raw : Str) {ecs : Option Str} :
    (∃ mode, parseEcsParam raw ecs = .ok mode) ↔ ∀ val, ecs = some val → EcsValueOk val := by
  cases ecs with
  | none => simp [parseEcsParam]
  | some val =>
    simp only [Option.some.injEq, forall_eq', parseEcsParam, EcsValueOk]
    split_ifs with hs hf
    · simp [hs]
    · simp [hf]
    · simp [withContext_eq_ok, map_eq_ok_iff, hs, hf]

theorem filterMap_queryParams (key query : Str) (hkey : key ≠ []) :
    (queryParams query).filterMap (stripPrefix key) = (query.splitOn '&').filterMap (stripPrefix key) := by
  rw [queryParams, List.filterMap_filter]
  congr 1
  funext p
  cases p with
  | nil =>
    obtain ⟨c, cs, rfl⟩ := List.exists_cons_of_ne_nil hkey
    rfl
  | cons c cs => rfl

variable {url : Str}

theorem bootstrapValues_eq {scheme rest : Str} (h : splitOnce schemeSep url = some (scheme, rest)) :
    bootstrapValues url = (queryParams (queryOf rest)).filterMap (stripPrefix bootstrapKey) := by
  rw [filterMap_queryParams _ _ (by decide), bootstrapValues]
  simp only [h, queryOf]
  cases splitOnce ['?'] rest with
  | none => rfl
  | some q => rfl

/-- What `parse_upstream` has read when it comes to the bootstrap server. -/
theorem parseUrlHead_ok_iff {head : UrlHead} : parseUrlHead raw = .ok (some head) ↔
    '#' ∉ raw ∧ '@' ∉ raw ∧ ∃ scheme rest, splitOnce schemeSep raw = some (scheme, rest) ∧
      parseUpstreamScheme scheme = .ok head.proto ∧
      head.restNoQuery = ((splitOnce ['?'] rest).getD (rest, [])).1 ∧
      parseUpstreamQuery (queryOf rest) raw = .ok head.params ∧
      parseEcsParam raw head.params.ecs = .ok head.ecsMode := by
  rw [parseUrlHead]
  by_cases hempty : raw = []
  · subst hempty
    simp [splitOnce, schemeSep, bind, Except.bind]
  by_cases hhash : '#' ∈ raw
  · simp [hempty, hhash, bind, Except.bind]
  by_cases hat : '@' ∈ raw
  · obtain ⟨r, hr⟩ := Option.ne_none_iff_exists'.mp (fun h => rsplitOnce_eq_none.mp h hat)
    simp [hempty, hhash, hat, hr, bind, Except.bind]
  have hr := rsplitOnce_eq_none.mpr hat
  cases hscheme : splitOnce schemeSep raw with
  | none => simp [hempty, hhash, hr]
  | some sr =>
    obtain ⟨scheme, rest⟩ := sr
    have hquery : ((splitOnce ['?'] rest).getD (rest, [])).2 = queryOf rest := by
      rw [queryOf]
      cases splitOnce ['?'] rest with
      | none => rfl
      | some q => rfl
    simp only [hempty, hhash, hr, List.isEmpty_iff, if_false, List.contains_iff_mem, hquery, bind_eq_ok_iff,
      Except.ok.injEq, Option.some.injEq]
    constructor
    · rintro ⟨proto, hproto, params, hparams, mode, hecs, rfl⟩
      exact ⟨not_false, hat, scheme, rest, rfl, hproto, rfl, hparams, hecs⟩
    · rintro ⟨-, -, s', r', hsr, hproto, hrest, hparams, hecs⟩
      cases hsr
      exact ⟨_, hproto, _, hparams, _, hecs, by rw [← hrest]⟩

theorem lookedUp_eq_some_iff {name : Str} : lookedUp url = some name ↔
    ReachesBootstrap url ∧ (bootstrapValues (Str.trim url)).getLast?.map Str.trim = some name := by
  have hhead : lookedUp url = some name ↔
      ∃ head, parseUrlHead (Str.trim url) = .ok (some head) ∧ head.params.bootstrap.map Str.trim = some name := by
    rw [lookedUp]
    rcases parseUrlHead (Str.trim url) with e | (_ | head) <;> simp
  rw [hhead, ReachesBootstrap]
  constructor
  · rintro ⟨head, hok, hname⟩
    obtain ⟨hhash, hat, scheme, rest, hscheme, hproto, -, hparams, hecs⟩ := parseUrlHead_ok_iff.mp hok
    obtain ⟨hboot, hval⟩ := foldlM_addParam_values hparams
    rw [Option.or_none] at hboot hval
    refine ⟨⟨hhash, hat, scheme, rest, hscheme, parseUpstreamScheme_ok_iff.mp ⟨_, hproto⟩,
      foldlM_addParam_ok_iff.mp ⟨_, hparams⟩, ?_⟩, ?_⟩
    · rw [← hval]
      exact (parseEcsParam_ok_iff _).mp ⟨_, hecs⟩
    · rw [bootstrapValues_eq hscheme, ← hboot]
      exact hname
  · rintro ⟨⟨hhash, hat, scheme, rest, hscheme, hproto, hparams, hecs⟩, hname⟩
    obtain ⟨proto, hproto⟩ := parseUpstreamScheme_ok_iff.mpr hproto
    obtain ⟨params, hparams⟩ : ∃ params, parseUpstreamQuery (queryOf rest) (Str.trim url) = .ok params :=
      foldlM_addParam_ok_iff.mpr hparams
    obtain ⟨hboot, hval⟩ := foldlM_addParam_values hparams
    rw [Option.or_none] at hboot hval
    obtain ⟨mode, hmode⟩ := (parseEcsParam_ok_iff (Str.trim url)).mpr (hval ▸ hecs)
    refine ⟨⟨proto, _, params, mode⟩, parseUrlHead_ok_iff.mpr
      ⟨hhash, hat, scheme, rest, hscheme, hproto, rfl, hparams, hmode⟩, ?_⟩
    rw [hboot, ← bootstrapValues_eq hscheme]
    exact hname

/-- The name that is looked up is the one that was extracted before. -/
def BootstrapAgrees (url : Str) : Prop :=
  ∀ name, lookedUp url = some name → (bootstrapRef url).map Str.trim = some name

/-- Where the bootstrap server counts, the first and the last `bootstrap=` parameter name the same one. -/
def RepeatsAgree (url : Str) : Prop :=
  ReachesBootstrap url → ∀ first last, (bootstrapValues url).head? = some first →
    (bootstrapValues url).getLast? = some last → Str.trim first = Str.trim last

theorem bootstrapAgrees_iff_repeatsAgree (url : Str) : BootstrapAgrees url ↔ RepeatsAgree url := by
  have hlast : (bootstrapValues (Str.trim url)).getLast?.map Str.trim =
      (bootstrapValues url).getLast?.map Str.trim := by
    rw [← List.getLast?_map, ← List.getLast?_map, map_trim_bootstrapValues]
  simp only [BootstrapAgrees, RepeatsAgree, lookedUp_eq_some_iff, hlast, bootstrapRef_eq_head?]
  constructor
  · intro h hreach first last hfirst hl
    have := h (Str.trim last) ⟨hreach, by rw [hl]; rfl⟩
    rw [hfirst] at this
    exact Option.some.inj this
  · rintro h name ⟨hreach, hname⟩
    obtain ⟨last, hl, rfl⟩ := Option.map_eq_some_iff.mp hname
    obtain ⟨first, hfirst⟩ : ∃ first, (bootstrapValues url).head? = some first := by
      cases hv : bootstrapValues url with
      | nil => simp [hv] at hl
      | cons v vs => exact ⟨v, rfl⟩
    rw [hfirst, Option.map_some, h hreach first last hfirst hl]

theorem BootstrapAgrees.of_length_le (h : (bootstrapValues url).length ≤ 1) : BootstrapAgrees url := by
  rw [bootstrapAgrees_iff_repeatsAgree]
  intro _ first last hfirst hlast
  cases hv : bootstrapValues url with
  | nil => simp [hv] at hfirst
  | cons v vs =>
    cases vs with
    | nil =>
      simp only [hv, List.head?_cons, List.getLast?_singleton, Option.some.injEq] at hfirst hlast
      rw [← hfirst, ← hlast]
    | cons w ws => simp [hv] at h

/-- The rest of the parse sees the bootstrap servers only through the name that is looked up. -/
theorem parseUpstream_congr {query : BootstrapQuery}
    {lookup lookup' : Str → Except Chain (List BootstrapTarget)}
    (h : ∀ name, lookedUp url = some name → lookup name = lookup' name) :
    parseUpstream query url lookup = parseUpstream query url lookup' := by
  rw [parseUpstream, parseUpstream]
  rw [lookedUp] at h
  cases hhead : parseUrlHead (Str.trim url) with
  | error e => rfl
  | ok found =>
    cases found with
    | none => rfl
    | some head =>
      simp only [bind, Except.bind]
      cases hb : head.params.bootstrap with
      | none => rfl
      | some name =>
        simp only [hhead, hb, Option.map_some, Option.some.injEq, forall_eq'] at h
        simp only [h]

end PathDns
