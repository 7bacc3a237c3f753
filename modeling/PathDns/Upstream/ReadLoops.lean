import PathDns.Upstream.Inflight
import Mathlib.Data.List.Induction

/-!
# The read loops of the stream transports

TCP and TLS (`mux_reader_loop`), the TCP fallback (`tcp_exchange_packet`) and DoQ read a two-byte length and
then as many bytes. DoH and H3 append the chunks of a body until the stream ends; DoH gives up after the
chunk that takes the body over 65535 bytes, H3 has no limit.

A framed message cannot be longer than its length says, so the four other loops hold at most 65535 bytes
and one chunk whatever the peer sends (`Limited`). The body of H3 is what the peer sends (`read_h3`).
-/

namespace PathDns

open Bytes

inductive Transport where
  /-- TCP and TLS -/
  | tcp
  | tcpFallback
  | doh
  | doq
  | h3
deriving DecidableEq, Repr

structure HttpStatus where
  code : Nat
deriving DecidableEq, Repr

inductive ReadError where
  | status (response : HttpStatus)
  /-- `resp_len` is too short for a header or longer than allowed -/
  | length (len : Nat)
  | tooLarge (len : Nat)
  /-- a read of the length or of the body fails -/
  | cut (inBody : Bool) (e : String)
  | timeout
deriving DecidableEq, Repr

/-- How the chunks of a peer end. -/
inductive StreamEnd where
  | closed
  | reset (e : String)
  | stalled
deriving DecidableEq, Repr

/-- What a peer sends to one exchange. -/
structure PeerStream where
  status : HttpStatus
  chunks : List (List UInt8)
  ending : StreamEnd
deriving DecidableEq, Repr

inductive ReadPhase where
  /-- `read_exact` of the length has these bytes -/
  | length (got : List UInt8)
  /-- `read_exact` of a message of `len` bytes has these -/
  | frame (len : Nat) (got : List UInt8)
  | stream (body : List UInt8)
  | done
  | failed (e : ReadError)
deriving DecidableEq, Repr

/-- A read loop: where it stands, the sizes its buffer had while the last chunk was read, and the messages
that were complete. -/
structure Reading where
  phase : ReadPhase
  held : List Nat
  messages : List Packet
deriving DecidableEq, Repr

namespace Reading

/-- The loops of HTTP look at the status before they read. -/
def start (t : Transport) (status : HttpStatus) : Reading :=
  let phase : ReadPhase := match t with
    | .doh | .h3 => if status.code ≠ 200 then .failed (.status status) else .stream []
    | .tcp | .tcpFallback | .doq => .length []
  ⟨phase, [], []⟩

/-- A message is complete: a multiplexed connection goes on with the next one. -/
def complete (t : Transport) (r : Reading) (message : Packet) : Reading :=
  { r with phase := if t = .tcp then .length [] else .done, messages := r.messages ++ [message] }

/-- The checks of `resp_len`; `maxResponseBytes` is of the multiplexer, 0 for no limit. -/
def refusesLength (t : Transport) (maxResponseBytes len : Nat) : Bool :=
  match t with
  | .tcp => len < 12 || (0 < maxResponseBytes && maxResponseBytes < len)
  | .doq => len < 12
  | .tcpFallback | .doh | .h3 => false

/-- The length is read and the buffer for the message is made. -/
def allocate (t : Transport) (maxResponseBytes : Nat) (r : Reading) (len : Nat) : Reading :=
  if refusesLength t maxResponseBytes len then { r with phase := .failed (.length len) }
  else
    let r := { r with held := r.held ++ [len] }
    if len = 0 then r.complete t [] else { r with phase := .frame len [] }

/-- A byte for `read_exact`; what comes after the end is not read. -/
def feedByte (t : Transport) (maxResponseBytes : Nat) (r : Reading) (b : UInt8) : Reading :=
  match r.phase with
  | .length got =>
    if got.length < 1 then { r with phase := .length (got ++ [b]) }
    else r.allocate t maxResponseBytes (u16be (got ++ [b]) 0)
  | .frame len got =>
    if (got ++ [b]).length < len then { r with phase := .frame len (got ++ [b]) }
    else r.complete t (got ++ [b])
  | .stream _ | .done | .failed _ => r

/-- A chunk of a body. -/
def extend (t : Transport) (r : Reading) (body : List UInt8) : Reading :=
  let r := { r with held := [body.length] }
  if t = .doh ∧ 65535 < body.length then { r with phase := .failed (.tooLarge body.length) }
  else { r with phase := .stream body }

def feed (t : Transport) (maxResponseBytes : Nat) (r : Reading) (chunk : List UInt8) : Reading :=
  let r := { r with held := [] }
  match r.phase with
  | .stream body => r.extend t (body ++ chunk)
  | .length _ | .frame _ _ | .done | .failed _ => chunk.foldl (feedByte t maxResponseBytes) r

/-- The state after these chunks. -/
def read (t : Transport) (maxResponseBytes : Nat) (status : HttpStatus) (chunks : List (List UInt8)) :
    Reading :=
  chunks.foldl (feed t maxResponseBytes) (start t status)

/-- The chunks have come to their end. -/
def finish (t : Transport) (r : Reading) (ending : StreamEnd) : Reading :=
  match r.phase, ending with
  | .done, _ | .failed _, _ => r
  | .stream body, .closed => r.complete t body
  | .length _, .closed => { r with phase := .failed (.cut false "early eof") }
  | .frame _ _, .closed => { r with phase := .failed (.cut true "early eof") }
  | .length _, .reset e => { r with phase := .failed (.cut false e) }
  | .frame _ _, .reset e | .stream _, .reset e => { r with phase := .failed (.cut true e) }
  | .length _, .stalled | .frame _ _, .stalled | .stream _, .stalled =>
    { r with phase := .failed .timeout }

/-! ### Loops with a limit -/

/-- Messages, frames and bodies have sizes that a 16-bit length can give. -/
structure Limited (t : Transport) (r : Reading) : Prop where
  messages : ∀ m ∈ r.messages, m.length ≤ 65535
  frame : ∀ len got, r.phase = .frame len got → got.length < len ∧ len ≤ 65535
  stream : ∀ body, r.phase = .stream body → t = .doh ∧ body.length ≤ 65535

variable {t : Transport} {maxResponseBytes : Nat} {r : Reading}

theorem limited_start (ht : t ≠ .h3) (status : HttpStatus) : Limited t (start t status) := by
  cases t with
  | tcp | tcpFallback | doq => exact ⟨by simp [start], by simp [start], by simp [start]⟩
  | doh =>
    by_cases hstatus : status.code = 200
    · exact ⟨by simp [start], by simp [start, hstatus], by simp [start, hstatus]⟩
    · exact ⟨by simp [start], by simp [start, hstatus], by simp [start, hstatus]⟩
  | h3 => exact absurd rfl ht

theorem Limited.of_phase {r' : Reading} (h : Limited t r) (hmessages : r'.messages = r.messages)
    (hframe : ∀ len got, r'.phase ≠ .frame len got) (hstream : ∀ body, r'.phase ≠ .stream body) :
    Limited t r' :=
  ⟨hmessages ▸ h.messages, fun len got hphase => absurd hphase (hframe len got),
    fun body hphase => absurd hphase (hstream body)⟩

theorem Limited.complete (h : Limited t r) {message : Packet} (hm : message.length ≤ 65535) :
    Limited t (r.complete t message) := by
  refine ⟨fun m hmem => ?_, ?_, ?_⟩
  · rcases List.mem_append.mp hmem with hmem | hmem
    · exact h.messages m hmem
    · exact List.mem_singleton.mp hmem ▸ hm
  · intro len got hphase
    rw [Reading.complete] at hphase
    dsimp only at hphase
    split_ifs at hphase
  · intro body hphase
    rw [Reading.complete] at hphase
    dsimp only at hphase
    split_ifs at hphase

/-- The buffer never had another size than a 16-bit length. -/
def Within (t : Transport) (r : Reading) : Prop := Limited t r ∧ ∀ n ∈ r.held, n ≤ 65535

theorem Within.allocate (h : Within t r) {len : Nat} (hlen : len ≤ 65535) :
    Within t (r.allocate t maxResponseBytes len) := by
  have hheld : ∀ n ∈ r.held ++ [len], n ≤ 65535 := by
    intro n hn
    rcases List.mem_append.mp hn with hn | hn
    · exact h.2 n hn
    · exact List.mem_singleton.mp hn ▸ hlen
  rw [Reading.allocate]
  split_ifs with hrefused hzero
  · exact ⟨h.1.of_phase rfl nofun nofun, h.2⟩
  · have hgrown : Limited t { r with held := r.held ++ [len] } := ⟨h.1.messages, h.1.frame, h.1.stream⟩
    exact ⟨hgrown.complete (by simp), hheld⟩
  · refine ⟨⟨h.1.messages, fun len' got hphase => ?_, nofun⟩, hheld⟩
    cases hphase
    exact ⟨Nat.pos_of_ne_zero hzero, hlen⟩

theorem Within.feedByte (h : Within t r) (b : UInt8) : Within t (r.feedByte t maxResponseBytes b) := by
  rw [Reading.feedByte]
  split
  · split_ifs
    · exact ⟨h.1.of_phase rfl nofun nofun, h.2⟩
    · exact h.allocate (Nat.le_of_lt_succ (u16be_lt _ 0))
  · next len got hphase =>
    obtain ⟨hgot, hlen⟩ := h.1.frame len got hphase
    split_ifs with hmore
    · refine ⟨⟨h.1.messages, fun len' got' hphase' => ?_, nofun⟩, h.2⟩
      cases hphase'
      exact ⟨hmore, hlen⟩
    · refine ⟨h.1.complete ?_, h.2⟩
      rw [List.length_append, List.length_singleton]
      omega
  · exact h
  · exact h
  · exact h

theorem Within.foldl_feedByte (h : Within t r) (chunk : List UInt8) :
    Within t (chunk.foldl (Reading.feedByte t maxResponseBytes) r) := by
  induction chunk generalizing r with
  | nil => exact h
  | cons b chunk ih => exact ih (h.feedByte b)

theorem Limited.extend (h : Limited .doh r) {body chunk : List UInt8} (hbody : body.length ≤ 65535) :
    Limited .doh (r.extend .doh (body ++ chunk)) ∧
      ∀ n ∈ (r.extend .doh (body ++ chunk)).held, n ≤ 65535 + chunk.length := by
  have hheld : (r.extend .doh (body ++ chunk)).held = [(body ++ chunk).length] := by
    rw [Reading.extend]
    split_ifs <;> rfl
  refine ⟨?_, fun n hn => ?_⟩
  · rw [Reading.extend]
    split_ifs with hlarge
    · exact h.of_phase rfl nofun nofun
    · refine ⟨h.messages, nofun, fun body' hphase => ⟨rfl, ?_⟩⟩
      cases hphase
      exact Nat.le_of_not_lt fun hlt => hlarge ⟨rfl, hlt⟩
  · rw [hheld, List.mem_singleton] at hn
    rw [hn, List.length_append]
    omega

/-- What a chunk does to a loop with a limit. -/
theorem Limited.feed (h : Limited t r) (chunk : List UInt8) :
    Limited t (r.feed t maxResponseBytes chunk) ∧
      ∀ n ∈ (r.feed t maxResponseBytes chunk).held, n ≤ 65535 + chunk.length := by
  have hcleared : Limited t { r with held := [] } := ⟨h.messages, h.frame, h.stream⟩
  have hbytes : Within t (chunk.foldl (feedByte t maxResponseBytes) { r with held := [] }) :=
    Within.foldl_feedByte ⟨hcleared, by simp⟩ chunk
  have hsplit : Limited t (chunk.foldl (feedByte t maxResponseBytes) { r with held := [] }) ∧
      ∀ n ∈ (chunk.foldl (feedByte t maxResponseBytes) { r with held := [] }).held,
        n ≤ 65535 + chunk.length :=
    ⟨hbytes.1, fun n hn => (hbytes.2 n hn).trans (Nat.le_add_right _ _)⟩
  rw [Reading.feed]
  dsimp only
  split
  · next body hphase =>
    obtain ⟨rfl, hbody⟩ := h.stream body hphase
    exact hcleared.extend hbody
  · exact hsplit
  · exact hsplit
  · exact hsplit
  · exact hsplit

/-- Whatever the peer sends, the loops other than that of H3 keep to the limit. -/
theorem limited_read (ht : t ≠ .h3) (status : HttpStatus) (chunks : List (List UInt8)) :
    Limited t (read t maxResponseBytes status chunks) := by
  induction chunks using List.reverseRecOn with
  | nil => exact limited_start ht status
  | append_singleton chunks chunk ih =>
    rw [read, List.foldl_append]
    exact (ih.feed chunk).1

theorem read_concat (status : HttpStatus) (chunks : List (List UInt8)) (chunk : List UInt8) :
    read t maxResponseBytes status (chunks ++ [chunk]) =
      (read t maxResponseBytes status chunks).feed t maxResponseBytes chunk := by
  rw [read, List.foldl_append]
  rfl

theorem Limited.finish (h : Limited t r) (ending : StreamEnd) : Limited t (r.finish t ending) := by
  unfold Reading.finish
  split
  · exact h
  · exact h
  · next body hphase => exact h.complete (h.stream body hphase).2
  all_goals exact h.of_phase rfl nofun nofun

/-! ### H3 -/

/-- The body of H3 is all that has come. -/
theorem read_h3 {status : HttpStatus} (hstatus : status.code = 200) (chunks : List (List UInt8)) :
    (read .h3 maxResponseBytes status chunks).phase = .stream chunks.flatten ∧
      (read .h3 maxResponseBytes status chunks).messages = [] := by
  induction chunks using List.reverseRecOn with
  | nil => simp [read, start, hstatus]
  | append_singleton chunks chunk ih =>
    rw [read_concat, feed]
    simp only [ih.1, extend, List.flatten_append, List.flatten_singleton]
    simp [ih.2]

theorem foldl_feedByte_failed {r : Reading} {e : ReadError} (h : r.phase = .failed e) (chunk : List UInt8) :
    chunk.foldl (feedByte t maxResponseBytes) r = r := by
  induction chunk with
  | nil => rfl
  | cons b chunk ih => rwa [List.foldl_cons, feedByte, h]

theorem read_h3_refused {status : HttpStatus} (hstatus : status.code ≠ 200) (chunks : List (List UInt8)) :
    read .h3 maxResponseBytes status chunks = ⟨.failed (.status status), [], []⟩ := by
  induction chunks using List.reverseRecOn with
  | nil => simp [read, start, hstatus]
  | append_singleton chunks chunk ih =>
    rw [read_concat, ih, feed]
    exact foldl_feedByte_failed rfl chunk

/-! ### Exchanges -/

end Reading

/-- What an exchange checks its answer against and puts into it. -/
structure ExchangeQuery where
  upstreamId : Nat
  question : List UInt8
  clientId : Nat
deriving DecidableEq, Repr

/-- An exchange returns `response` for the complete message: TCP and TLS what the table delivers, the others
what `finalize_response` gives. -/
def Transport.Returns (t : Transport) (q : ExchangeQuery) (message response : Packet) : Prop :=
  match t with
  | .tcp => ∃ (pending : InflightRegistry) (waiter : Nat),
    (pending.complete message).response = some (waiter, response)
  | .doq => finalizeResponse message 0 q.question q.clientId = .ok response
  | .tcpFallback | .doh | .h3 => finalizeResponse message q.upstreamId q.question q.clientId = .ok response

theorem length_of_finalizeResponse {message response : Packet} {upstreamId clientId : Nat}
    {question : List UInt8} (h : finalizeResponse message upstreamId question clientId = .ok response) :
    response.length = message.length := by
  rw [finalizeResponse] at h
  cases hvalid : validateUpstreamResponse message upstreamId question with
  | error e =>
    rw [hvalid] at h
    cases h
  | ok u =>
    rw [hvalid] at h
    cases h
    exact length_setId message clientId

theorem Transport.Returns.length {t : Transport} {q : ExchangeQuery} {message response : Packet}
    (h : t.Returns q message response) : response.length = message.length := by
  cases t with
  | tcp =>
    obtain ⟨pending, waiter, h⟩ := h
    rcases pending.complete_cases message with ⟨-, hnone, -⟩ | ⟨entry, -, -, hcomplete⟩
    · rw [hnone] at h
      cases h
    · rw [hcomplete] at h
      cases h
      exact length_setId message entry.clientId.toNat
  | doq | tcpFallback | doh | h3 => exact length_of_finalizeResponse h

/-- While a chunk is read the buffer holds at most 65535 bytes and the chunk, and no response is longer than
65535 bytes. -/
structure ExchangeBounded (t : Transport) (maxResponseBytes : Nat) (q : ExchangeQuery) (peer : PeerStream) :
    Prop where
  buffered : ∀ front chunk back, peer.chunks = front ++ chunk :: back →
    ∀ n ∈ (Reading.read t maxResponseBytes peer.status (front ++ [chunk])).held, n ≤ 65535 + chunk.length
  returned : ∀ message ∈
      ((Reading.read t maxResponseBytes peer.status peer.chunks).finish t peer.ending).messages,
    ∀ response, t.Returns q message response → response.length ≤ 65535

namespace Reading

theorem exchangeBounded_of_ne_h3 {t : Transport} (ht : t ≠ .h3) (maxResponseBytes : Nat) (q : ExchangeQuery)
    (peer : PeerStream) : ExchangeBounded t maxResponseBytes q peer := by
  constructor
  · intro front chunk back _
    rw [read_concat]
    exact ((limited_read ht peer.status front).feed chunk).2
  · intro message hmem response hreturns
    rw [hreturns.length]
    exact ((limited_read ht peer.status peer.chunks).finish peer.ending).messages message hmem

/-- The bytes before the last chunk fit, and a body that ends and is an answer does. -/
def BodyFits (q : ExchangeQuery) (peer : PeerStream) : Prop :=
  peer.chunks.dropLast.flatten.length ≤ 65535 ∧
    (peer.ending = .closed → validateUpstreamResponse peer.chunks.flatten q.upstreamId q.question = .ok () →
      peer.chunks.flatten.length ≤ 65535)

variable {maxResponseBytes : Nat}

theorem held_h3 {status : HttpStatus} (hstatus : status.code = 200) (front : List (List UInt8))
    (chunk : List UInt8) :
    (read .h3 maxResponseBytes status (front ++ [chunk])).held = [front.flatten.length + chunk.length] := by
  rw [read_concat, feed]
  simp only [(read_h3 hstatus front).1, extend]
  simp

/-- All that is buffered before a chunk came before the last one. -/
theorem buffered_h3_iff {status : HttpStatus} (hstatus : status.code = 200) (chunks : List (List UInt8)) :
    (∀ front chunk back, chunks = front ++ chunk :: back →
      ∀ n ∈ (read .h3 maxResponseBytes status (front ++ [chunk])).held, n ≤ 65535 + chunk.length) ↔
    chunks.dropLast.flatten.length ≤ 65535 := by
  constructor
  · intro h
    rcases List.eq_nil_or_concat' chunks with rfl | ⟨front, last, rfl⟩
    · simp
    · have hlast := h front last [] rfl (front.flatten.length + last.length) (by rw [held_h3 hstatus]; simp)
      rw [List.dropLast_concat]
      omega
  · rintro h front chunk back rfl n hn
    rw [held_h3 hstatus, List.mem_singleton] at hn
    rw [List.dropLast_append_of_ne_nil (by simp), List.flatten_append, List.length_append] at h
    omega

theorem returned_h3_iff {q : ExchangeQuery} {peer : PeerStream} (hstatus : peer.status.code = 200) :
    (∀ message ∈ ((read .h3 maxResponseBytes peer.status peer.chunks).finish .h3 peer.ending).messages,
      ∀ response, Transport.Returns .h3 q message response → response.length ≤ 65535) ↔
    (peer.ending = .closed → validateUpstreamResponse peer.chunks.flatten q.upstreamId q.question = .ok () →
      peer.chunks.flatten.length ≤ 65535) := by
  obtain ⟨hphase, hmessages⟩ := @read_h3 maxResponseBytes _ hstatus peer.chunks
  have hnone : peer.ending ≠ .closed →
      ((read .h3 maxResponseBytes peer.status peer.chunks).finish .h3 peer.ending).messages = [] := by
    intro hending
    unfold finish
    rw [hphase]
    cases hend : peer.ending with
    | closed => exact absurd hend hending
    | reset e => exact hmessages
    | stalled => exact hmessages
  have hbody : peer.ending = .closed →
      ((read .h3 maxResponseBytes peer.status peer.chunks).finish .h3 peer.ending).messages =
        [peer.chunks.flatten] := by
    intro hending
    unfold finish
    rw [hphase, hending]
    simp [complete, hmessages]
  constructor
  · intro h hending hvalid
    have hreturns : Transport.Returns .h3 q peer.chunks.flatten (setId peer.chunks.flatten q.clientId) := by
      rw [Transport.Returns, finalizeResponse, hvalid]
      rfl
    rw [← hreturns.length]
    exact h _ (by rw [hbody hending]; simp) _ hreturns
  · intro h message hmem response hreturns
    by_cases hending : peer.ending = .closed
    · rw [hbody hending, List.mem_singleton] at hmem
      subst hmem
      rw [hreturns.length]
      refine h hending ?_
      rw [Transport.Returns, finalizeResponse] at hreturns
      cases hvalid : validateUpstreamResponse peer.chunks.flatten q.upstreamId q.question with
      | error e =>
        rw [hvalid] at hreturns
        cases hreturns
      | ok u => rfl
    · rw [hnone hending] at hmem
      cases hmem

/-- Every exchange is bounded but one over H3 that is answered with a body that does not fit. -/
theorem exchangeBounded_iff (t : Transport) (maxResponseBytes : Nat) (q : ExchangeQuery) (peer : PeerStream) :
    ExchangeBounded t maxResponseBytes q peer ↔ (t = .h3 → peer.status.code = 200 → BodyFits q peer) := by
  by_cases ht : t = .h3
  · subst ht
    by_cases hstatus : peer.status.code = 200
    · refine Iff.trans ?_ (forall_prop_of_true rfl).symm
      refine Iff.trans ?_ (forall_prop_of_true hstatus).symm
      exact ⟨fun h => ⟨(buffered_h3_iff hstatus peer.chunks).mp h.buffered, (returned_h3_iff hstatus).mp h.returned⟩,
        fun h => ⟨(buffered_h3_iff hstatus peer.chunks).mpr h.1, (returned_h3_iff hstatus).mpr h.2⟩⟩
    · refine iff_of_true ⟨?_, ?_⟩ fun _ h => absurd h hstatus
      · intro front chunk back _ n hn
        rw [read_h3_refused hstatus] at hn
        cases hn
      · intro message hmem
        rw [read_h3_refused hstatus] at hmem
        cases hmem
  · exact iff_of_true (exchangeBounded_of_ne_h3 ht maxResponseBytes q peer) fun h => absurd h ht

/-- Two chunks of 65536 zeros. -/
def floodingPeer : PeerStream :=
  ⟨⟨200⟩, List.replicate 2 (List.replicate 65536 0), .stalled⟩

/-- One chunk, a reply with 65536 zeros behind it. -/
def longReply : PeerStream :=
  ⟨⟨200⟩, [InflightRegistry.rootReply ++ List.replicate 65536 0], .closed⟩

theorem validate_rootReply_append (tail : List UInt8) : validateUpstreamResponse
    (InflightRegistry.rootReply ++ tail) 1 InflightRegistry.rootQuestion = .ok () := by
  have hlen : (InflightRegistry.rootReply ++ tail).length = 17 + tail.length := List.length_append
  have hin : 12 ≤ 17 + tail.length := by omega
  have hend : questionEnd (InflightRegistry.rootReply ++ tail) = some 17 := by
    rw [questionEnd, skipName, hlen, skipNameLoop]
    simp [InflightRegistry.rootReply, InflightRegistry.rootQuestion, hin]
  have hslice : slice (InflightRegistry.rootReply ++ tail) 12 17 = InflightRegistry.rootQuestion := by
    simp [slice, InflightRegistry.rootReply, InflightRegistry.rootQuestion]
  have hreply : isReply (InflightRegistry.rootReply ++ tail) = true := by
    rw [isReply, hlen]
    simp [InflightRegistry.rootReply, byteAt, hin]
  have hid : u16be (InflightRegistry.rootReply ++ tail) 0 = 1 := by
    simp [u16be, byteAt, InflightRegistry.rootReply]
  have hmatch : questionsMatch InflightRegistry.rootQuestion InflightRegistry.rootQuestion = true := by
    decide
  simp [validateUpstreamResponse, hreply, hid, hend, hslice, hlen, hmatch]

/-- H3 holds all 131072 bytes of the first peer, and returns the 65553 bytes of the second. -/
theorem h3_unbounded : ¬ ExchangeBounded .h3 0 ⟨1, InflightRegistry.rootQuestion, 7⟩ floodingPeer ∧
    ¬ ExchangeBounded .h3 0 ⟨1, InflightRegistry.rootQuestion, 7⟩ longReply := by
  constructor
  · intro h
    have hfirst := (@buffered_h3_iff 0 floodingPeer.status rfl floodingPeer.chunks).mp h.buffered
    rw [floodingPeer, List.dropLast_replicate, List.length_flatten, List.map_replicate,
      List.length_replicate] at hfirst
    exact absurd hfirst (by decide)
  · intro h
    have hflat : longReply.chunks.flatten = InflightRegistry.rootReply ++ List.replicate 65536 0 := by
      rw [longReply, List.flatten_singleton]
    have hbody := (@returned_h3_iff 0 _ _ rfl).mp h.returned rfl
      (hflat ▸ validate_rootReply_append _)
    rw [hflat, List.length_append, List.length_replicate] at hbody
    exact absurd hbody (by decide)

end Reading

end PathDns
