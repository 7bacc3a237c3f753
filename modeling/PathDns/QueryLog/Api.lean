import Mathlib.Data.List.GetD
import PathDns.Config.FingerprintRuns
import PathDns.Domain
import PathDns.Lib.RustParse
import PathDns.Lib.Utf8
import PathDns.QueryLog.Index

/-!
# The dashboard's HTTP interface (`querylog/api.rs`)

A request is parsed from its text, routed and answered. A text is a list of characters, a query parameter
after decoding a valid UTF-8 byte string. What the other routes render from counters, rules, upstreams and
files is a parameter; the event ring and its subscribers are the state a request can change.
-/

namespace PathDns

open RustFmt RustParse

/-! ## Parsing -/

structure HttpRequest where
  method : Str
  path : Str
  query : Str
  auth : Option Str
  lastEventId : Option Str
deriving DecidableEq, Repr

/-- A line without the carriage return that ends it. -/
def stripCr (line : Str) : Str := if line.getLast? = some '\r' then line.dropLast else line

/-- `str::lines`: what follows the last line break is a line only if it is not empty. -/
def textLines (text : Str) : List Str :=
  let parts := text.splitOn '\n'
  parts.dropLast.map stripCr ++ (match parts.getLast? with
    | none => []
    | some last => if last.isEmpty then [] else [last])

/-- `strip_header_prefix`: the rest of a line that begins with an ASCII header name in any case. -/
def stripHeaderPrefix (line header : Str) : Option Str :=
  if line.length < header.length ∨
      (line.take header.length).map Char.toLower ≠ header.map Char.toLower then none
  else some (line.drop header.length)

/-- `authorization:` -/
def authorizationHeader : Str :=
  ['a', 'u', 't', 'h', 'o', 'r', 'i', 'z', 'a', 't', 'i', 'o', 'n', ':']

/-- `last-event-id:` -/
def lastEventIdHeader : Str := ['l', 'a', 's', 't', '-', 'e', 'v', 'e', 'n', 't', '-', 'i', 'd', ':']

def bearer : Str := ['B', 'e', 'a', 'r', 'e', 'r', ' ']

/-- The two headers that are read, one line. -/
def readHeader (headers : Option Str × Option Str) (line : Str) : Option Str × Option Str :=
  match stripHeaderPrefix line authorizationHeader with
  | some value =>
    match stripPrefix bearer (Str.trim value) with
    | some tok => (some (Str.trim tok), headers.2)
    | none => headers
  | none =>
    match stripHeaderPrefix line lastEventIdHeader with
    | some value => (headers.1, some (Str.trim value))
    | none => headers

/-- The method and the path. -/
def requestParts (line : Str) : Str × Option Str :=
  let parts := splitn ' ' 3 line
  (parts[0]?.getD "GET".toList, parts[1]?)

/-- `parse_http_request`; `upper` is `str::to_uppercase`. -/
def parseHttpRequest (upper : Str → Str) (text : Str) : HttpRequest :=
  let (requestLine, lines) := match textLines text with
    | [] => ([], [])
    | line :: lines => (line, lines)
  let (method, fullPath) := requestParts requestLine
  let (path, query) := (splitOnce ['?'] (fullPath.getD ['/'])).getD (fullPath.getD ['/'], [])
  let headers := lines.foldl readHeader (none, none)
  ⟨upper method, path, query, headers.1, headers.2⟩

/-- `hex`. -/
def hexDigit (b : UInt8) : Option UInt8 :=
  if 48 ≤ b ∧ b ≤ 57 then some (b - 48)
  else if 97 ≤ b ∧ b ≤ 102 then some (b - 97 + 10)
  else if 65 ≤ b ∧ b ≤ 70 then some (b - 65 + 10)
  else none

/-- The loop of `percent_decode`; a `%` with fewer than two bytes after it stands for itself. -/
def percentBytes : List UInt8 → Option (List UInt8)
  | [] => some []
  | 37 :: h :: l :: rest => do
    let hi ← hexDigit h
    let lo ← hexDigit l
    return ((hi <<< 4) ||| lo) :: (← percentBytes rest)
  | b :: rest => do return (if b = 43 then 32 else b) :: (← percentBytes rest)

def percentDecode (input : Str) : Option Utf8.Text :=
  (percentBytes (strBytes input)).bind Utf8.Text.fromUtf8

/-- `parse_query_param`: the first part with the key counts, also if it cannot be decoded. -/
def parseQueryParam (query key : Str) : Option Utf8.Text :=
  match (query.splitOn '&').filterMap (fun part => (splitOnce ['='] part).filter (fun kv => kv.1 == key)) with
  | [] => none
  | (_, v) :: _ => percentDecode v

/-- `str::parse` of an unsigned integer below `bound`. -/
def parseNumber (bound : Nat) (text : Utf8.Text) : Option Nat :=
  parseUnsigned 10 bound (text.bytes.map (fun b => Char.ofNat b.toNat))

/-! ## The token -/

def maxTokenCmpLen : Nat := 4096

/-- `ct_str_eq` on the bytes of the two texts. -/
def ctStrEq (a b : List UInt8) : Bool :=
  let diff : UInt8 := if a.length ≠ b.length then 1 else 0
  (List.range maxTokenCmpLen).foldl (fun diff i => diff ||| (a.getD i 0 ^^^ b.getD i 0)) diff == 0

/-- A token that the configuration accepts: it is not blank. -/
structure DashboardToken where
  text : Str
  nonblank : Str.trim text ≠ []

/-! ## Answers -/

/-- `EventRing` with the number of its subscribers, and everything else a request can read. -/
structure DashboardState (ρ : Type) where
  ring : List QueryLogEvent
  subscribers : Nat
  rest : ρ

/-- `EventRing::query`: the newest events first. -/
def ringQuery (ring : List QueryLogEvent) (beforeSeq afterSeq : Option Nat) (limit : Nat)
    (filter : Option Utf8.Text) : List QueryLogEvent :=
  (ring.reverse.filter (fun ev =>
    beforeSeq.all (fun seq => decide (ev.seq < seq)) && afterSeq.all (fun seq => decide (seq < ev.seq)) &&
    filter.all (fun f => f.bytes.isEmpty ||
      (strBytes ev.qname).tails.any (fun tail => f.bytes.isPrefixOf tail)))).take (max 1 (min limit 1000))

/-- A status line, a body and its type. -/
structure Reply where
  status : String
  body : List UInt8
  contentType : String
deriving DecidableEq

/-- The routes whose bodies are rendered from the rest of the state. -/
inductive DashboardView where
  | stats | statsHistory | files | history | buckets | aggregate | rules | upstreams
deriving DecidableEq

/-- What is not modelled: the static page, the rendering of an event, and the other routes. -/
structure DashboardViews (ρ : Type) where
  page : List UInt8
  eventJson : QueryLogEvent → List UInt8
  render : DashboardView → DashboardState ρ → Str → Reply

def getMethod : Str := ['G', 'E', 'T']

def deleteMethod : Str := ['D', 'E', 'L', 'E', 'T', 'E']

/-- The routes that are rendered, by path. -/
def viewOf (path : Str) : Option DashboardView :=
  if path = lit "/api/stats" then some .stats
  else if path = lit "/api/stats/history" then some .statsHistory
  else if path = lit "/api/querylog/files" then some .files
  else if path = lit "/api/querylog/history" then some .history
  else if path = lit "/api/stats/buckets" then some .buckets
  else if path = lit "/api/stats/aggregate" then some .aggregate
  else if path = lit "/api/rules" then some .rules
  else if path = lit "/api/upstreams" then some .upstreams
  else none

def querylogPath : Str := lit "/api/querylog"

def streamPath : Str := lit "/api/querylog/stream"

def jsonType : String := "application/json"

def renderRingEvents (eventJson : QueryLogEvent → List UInt8) (events : List QueryLogEvent) : List UInt8 :=
  91 :: [44].intercalate (events.map eventJson) ++ [93]

def unauthorizedBody : List UInt8 := strBytes (lit "\x7b\"error\":\"unauthorized\"\x7d")

variable {ρ : Type}

/-- The routes of `dispatch` behind the token. -/
def authorizedReply (views : DashboardViews ρ) (req : HttpRequest) (s : DashboardState ρ) :
    Reply × DashboardState ρ :=
  if req.method = deleteMethod ∧ req.path = querylogPath then
    (⟨"204 No Content", [], jsonType⟩, { s with ring := [] })
  else if req.method = getMethod ∧ req.path = querylogPath then
    let limit := ((parseQueryParam req.query (lit "limit")).bind (parseNumber (2 ^ 64))).getD 100
    let beforeSeq := (parseQueryParam req.query (lit "before_seq")).bind (parseNumber (2 ^ 64))
    let afterSeq := (parseQueryParam req.query (lit "after_seq")).bind (parseNumber (2 ^ 64))
    let events := ringQuery s.ring beforeSeq afterSeq limit (parseQueryParam req.query (lit "q"))
    (⟨"200 OK", renderRingEvents views.eventJson events, jsonType⟩, s)
  else
    match (if req.method = getMethod then viewOf req.path else none) with
    | some view => (views.render view s req.query, s)
    | none => (⟨"404 Not Found", strBytes (lit "\x7b\"error\":\"not found\"\x7d"), jsonType⟩, s)

def dispatch (views : DashboardViews ρ) (token : Option DashboardToken) (req : HttpRequest)
    (s : DashboardState ρ) : Reply × DashboardState ρ :=
  if req.method = getMethod ∧ (req.path = lit "/" ∨ req.path = lit "/index.html") then
    (⟨"200 OK", views.page, "text/html; charset=utf-8"⟩, s)
  else
    match token with
    | none => authorizedReply views req s
    | some expected =>
      let provided := req.auth.getD []
      if !ctStrEq (strBytes provided) (strBytes expected.text) then
        (⟨"401 Unauthorized", unauthorizedBody, jsonType⟩, s)
      else authorizedReply views req s

/-- The bytes that `serve` writes for a reply. -/
def Reply.bytes (reply : Reply) : List UInt8 :=
  strBytes (lit "HTTP/1.1 " ++ reply.status.toList ++ lit "\r\nContent-Type: " ++ reply.contentType.toList ++
    lit "\r\nContent-Length: " ++ dec reply.body.length ++
    lit "\r\nCache-Control: no-store\r\nConnection: close\r\n\r\n") ++ reply.body

/-- What `handle_sse` writes without the token. -/
def sseUnauthorized : List UInt8 :=
  strBytes (lit "HTTP/1.1 401 Unauthorized\r\nContent-Length: 24\r\nConnection: close\r\n\r\n") ++
    unauthorizedBody

def sseHeaders : List UInt8 :=
  strBytes (lit ("HTTP/1.1 200 OK\r\nContent-Type: text/event-stream\r\nCache-Control: no-cache\r\n" ++
    "Connection: keep-alive\r\nX-Accel-Buffering: no\r\n\r\n"))

/-- One event on the stream. -/
def sseEvent (eventJson : QueryLogEvent → List UInt8) (ev : QueryLogEvent) : List UInt8 :=
  strBytes (lit "id:" ++ dec ev.seq ++ lit "\ndata:") ++ eventJson ev ++ [10, 10]

/-- What a connection is answered with: the bytes, and whether it stays subscribed to the events to come. -/
structure HttpAnswer where
  bytes : List UInt8
  live : Bool

/-- `handle_sse` up to the loop that forwards new events. -/
def handleSse (views : DashboardViews ρ) (token : Option DashboardToken) (req : HttpRequest)
    (s : DashboardState ρ) : HttpAnswer × DashboardState ρ :=
  let headerTok := strBytes (req.auth.getD [])
  let paramTok := ((parseQueryParam req.query (lit "token")).map Utf8.Text.bytes).getD []
  if token.any (fun expected => !ctStrEq headerTok (strBytes expected.text) &&
      !ctStrEq paramTok (strBytes expected.text)) then
    (⟨sseUnauthorized, false⟩, s)
  else
    let lastSeq := (req.lastEventId.bind (parseUnsigned 10 (2 ^ 64))).or
      ((parseQueryParam req.query (lit "last_seq")).bind (parseNumber (2 ^ 64)))
    let backfill := match lastSeq with
      | none => []
      | some after => (ringQuery s.ring none (some after) 1000 none).reverse
    (⟨sseHeaders ++ backfill.flatMap (sseEvent views.eventJson), true⟩,
      { s with subscribers := s.subscribers + 1 })

/-- One connection of `serve`, from the text of its request on. -/
def serveRequest (upper : Str → Str) (views : DashboardViews ρ) (token : Option DashboardToken) (text : Str)
    (s : DashboardState ρ) : HttpAnswer × DashboardState ρ :=
  let req := parseHttpRequest upper text
  if req.method = getMethod ∧ req.path = streamPath then handleSse views token req s
  else
    let (reply, s) := dispatch views token req s
    (⟨reply.bytes, false⟩, s)

/-! ## Requests without the token -/

theorem foldl_or_eq_zero_iff (f : Nat → UInt8) (n : Nat) (diff : UInt8) :
    (List.range n).foldl (fun diff i => diff ||| f i) diff = 0 ↔ diff = 0 ∧ ∀ i < n, f i = 0 := by
  induction n with
  | zero => simp
  | succ n ih =>
    rw [List.range_succ, List.foldl_append, List.foldl_cons, List.foldl_nil, UInt8.or_eq_zero_iff, ih,
      and_assoc]
    refine and_congr_right fun _ => ?_
    constructor
    · rintro ⟨hlt, hn⟩ i hi
      rcases Nat.lt_or_eq_of_le (Nat.le_of_lt_succ hi) with hi | rfl
      · exact hlt i hi
      · exact hn
    · exact fun h => ⟨fun i hi => h i (Nat.lt_succ_of_lt hi), h n (Nat.lt_succ_self n)⟩

/-- The comparison is exact for a token of at most the compared length. -/
theorem ctStrEq_iff {a b : List UInt8} (h : b.length ≤ maxTokenCmpLen) : ctStrEq a b = true ↔ a = b := by
  rw [ctStrEq, beq_iff_eq, foldl_or_eq_zero_iff]
  constructor
  · rintro ⟨hlen, hbytes⟩
    have hlen : a.length = b.length := by
      by_contra hne
      simp [hne] at hlen
    refine List.ext_getElem hlen fun i hi hi' => ?_
    have hxor := UInt8.xor_eq_zero_iff.mp (hbytes i (hi'.trans_le h))
    rwa [List.getD_eq_getElem _ _ hi, List.getD_eq_getElem _ _ hi'] at hxor
  · rintro rfl
    simp

theorem DashboardToken.bytes_ne_nil (token : DashboardToken) : strBytes token.text ≠ [] := by
  intro h
  apply token.nonblank
  rw [strBytes_injective (h.trans (show [] = strBytes [] from rfl))]
  rfl

section Unauthorized

variable (views : DashboardViews ρ) {token : DashboardToken} {req : HttpRequest}
  (hlen : (strBytes token.text).length ≤ maxTokenCmpLen) (hauth : req.auth ≠ some token.text)

include hlen hauth

theorem ctStrEq_auth : ctStrEq (strBytes (req.auth.getD [])) (strBytes token.text) = false := by
  rw [Bool.eq_false_iff, ne_eq, ctStrEq_iff hlen]
  intro heq
  cases hget : req.auth with
  | none =>
    rw [hget] at heq
    exact token.bytes_ne_nil heq.symm
  | some tok =>
    rw [hget] at heq
    exact hauth (hget.trans (congrArg some (strBytes_injective heq)))

/-- Every route but the static page is refused. -/
theorem dispatch_unauthorized (s : DashboardState ρ) :
    dispatch views (some token) req s =
      (if req.method = getMethod ∧ (req.path = lit "/" ∨ req.path = lit "/index.html") then
        ⟨"200 OK", views.page, "text/html; charset=utf-8"⟩
      else ⟨"401 Unauthorized", unauthorizedBody, jsonType⟩, s) := by
  rw [dispatch]
  simp only [ctStrEq_auth hlen hauth, Bool.not_false, if_true]
  split <;> rfl

theorem handleSse_unauthorized
    (hparam : (parseQueryParam req.query (lit "token")).map Utf8.Text.bytes ≠ some (strBytes token.text))
    (s : DashboardState ρ) : handleSse views (some token) req s = (⟨sseUnauthorized, false⟩, s) := by
  have hctParam : ctStrEq (((parseQueryParam req.query (lit "token")).map Utf8.Text.bytes).getD [])
      (strBytes token.text) = false := by
    rw [Bool.eq_false_iff, ne_eq, ctStrEq_iff hlen]
    intro heq
    cases hget : (parseQueryParam req.query (lit "token")).map Utf8.Text.bytes with
    | none =>
      rw [hget] at heq
      exact token.bytes_ne_nil heq.symm
    | some bytes =>
      rw [hget] at heq
      exact hparam (hget.trans (congrArg some heq))
  rw [handleSse]
  simp [ctStrEq_auth hlen hauth, hctParam]

end Unauthorized

/-- A request whose bearer value is not the token, nor on the event stream its token parameter, is answered
alike in all states, with the static page or a refusal, and changes nothing. -/
theorem unauthorized_request_blind (upper : Str → Str) (views : DashboardViews ρ) (token : DashboardToken)
    (hlen : (strBytes token.text).length ≤ 4096) (text : Str) (s t : DashboardState ρ)
    (hauth : (parseHttpRequest upper text).auth ≠ some token.text)
    (hparam : (parseHttpRequest upper text).method = getMethod →
      (parseHttpRequest upper text).path = streamPath →
      (parseQueryParam (parseHttpRequest upper text).query (lit "token")).map Utf8.Text.bytes ≠
        some (strBytes token.text)) :
    (serveRequest upper views (some token) text s).1 = (serveRequest upper views (some token) text t).1 ∧
      (serveRequest upper views (some token) text s).1 ∈
        [⟨(⟨"200 OK", views.page, "text/html; charset=utf-8"⟩ : Reply).bytes, false⟩,
          ⟨(⟨"401 Unauthorized", unauthorizedBody, jsonType⟩ : Reply).bytes, false⟩,
          ⟨sseUnauthorized, false⟩] ∧
      (serveRequest upper views (some token) text s).2 = s := by
  simp only [serveRequest]
  generalize parseHttpRequest upper text = req at *
  by_cases hstream : req.method = getMethod ∧ req.path = streamPath
  · have hrefuse := handleSse_unauthorized views hlen hauth (hparam hstream.1 hstream.2)
    simp [if_pos hstream, hrefuse]
  · simp only [if_neg hstream, dispatch_unauthorized views hlen hauth]
    split <;> simp

/-- A request to clear the ring with another token. -/
def sampleRequest : Str :=
  "DELETE /api/querylog HTTP/1.1\r\nAuthorization: Bearer guess\r\n\r\n".toList

def sampleToken : DashboardToken := ⟨['s', 'e', 'c', 'r', 'e', 't'], by decide⟩

def sampleViews : DashboardViews Unit := ⟨[60, 62], fun _ => [], fun _ _ _ => ⟨"200 OK", [], jsonType⟩⟩

theorem unauthorized_request_blind_sample :
    (parseHttpRequest id sampleRequest).auth = some ['g', 'u', 'e', 's', 's'] ∧
      (serveRequest id sampleViews (some sampleToken) sampleRequest
        ⟨[⟨0, 1, .v4 0, 0, [], 0, 0, 0, 0, [], none⟩], 0, ()⟩).2 =
        ⟨[⟨0, 1, .v4 0, 0, [], 0, 0, 0, 0, [], none⟩], 0, ()⟩ :=
  ⟨by decide +kernel,
    (unauthorized_request_blind id sampleViews sampleToken (by decide +kernel) sampleRequest _ ⟨[], 0, ()⟩
      (by decide +kernel) (by decide +kernel)).2.2⟩

end PathDns
