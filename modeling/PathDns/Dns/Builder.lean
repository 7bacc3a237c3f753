import PathDns.Dns.Query
import PathDns.Config.Types

/-!
# Response construction (`dns/builder.rs`)

Replies that the server makes up itself: a header rewritten from the query, its question, and for a
fixed address one record.
-/

namespace PathDns

open Bytes

/-- `ResponseBuilder::from_query`. -/
def responseFromQuery (query : Packet) (questionEnd : Nat) : Except String Packet :=
  if query.length < 12 ∨ questionEnd < 12 ∨ query.length < questionEnd then .error "invalid dns query"
  else
    -- QR=1, RD copied, QDCOUNT=1, every other flag and count zero
    .ok (patch (query.take questionEnd) 2
      [0x80 ||| (byteAt query 2 &&& 0x01), 0, 0, 1, 0, 0, 0, 0, 0, 0])

/-- The reply with RA set and the given RCODE. -/
def replyWithRcode (query : Packet) (questionEnd : Nat) (rcode : UInt8) : Except String Packet := do
  let buf ← responseFromQuery query questionEnd
  return patch buf 3 [0x80 ||| (rcode &&& 0x0f)]

def emptyReply (query : Packet) (questionEnd : Nat) : Except String Packet :=
  replyWithRcode query questionEnd 0

def rcodeReply (query : Packet) (questionEnd : Nat) (rcode : UInt8) : Except String Packet :=
  replyWithRcode query questionEnd rcode

def servfailReply (query : Packet) (questionEnd : Nat) : Except String Packet :=
  replyWithRcode query questionEnd 2

/-- The reply with one record of the given type, whose name points at the question. -/
def recordReply (query : Packet) (questionEnd rrType : Nat) (ttl : UInt32) (rdata : List UInt8) :
    Except String Packet := do
  let buf ← emptyReply query questionEnd
  return patch buf 7 [1] ++ [0xc0, 0x0c] ++ encU16be rrType ++ [0, 1] ++ encU32be ttl.toNat ++
    encU16be rdata.length ++ rdata

def aReply (query : Packet) (questionEnd : Nat) (addr : BitVec 32) (ttl : UInt32) :
    Except String Packet :=
  recordReply query questionEnd 1 ttl (encBe 4 addr.toNat)

def aaaaReply (query : Packet) (questionEnd : Nat) (addr : BitVec 128) (ttl : UInt32) :
    Except String Packet :=
  recordReply query questionEnd 28 ttl (encBe 16 addr.toNat)

/-! ### The shape of these replies -/

/-- A reply made up for `query`: it starts with the query's question, has no additional record and at most
one record of an address. -/
structure MadeUp (query : Packet) (questionEnd : Nat) (p : Packet) : Prop where
  header : 12 ≤ questionEnd
  within : questionEnd ≤ query.length
  length_ge : questionEnd ≤ p.length
  length_le : p.length ≤ questionEnd + 28
  arcount : u16be p 10 = 0
  question : ∀ i, 12 ≤ i → i < questionEnd → byteAt p i = byteAt query i

variable {query p : Packet} {questionEnd : Nat}

theorem responseFromQuery_madeUp (h : responseFromQuery query questionEnd = .ok p) :
    MadeUp query questionEnd p := by
  rw [responseFromQuery] at h
  split_ifs at h with hshort
  simp only [not_or, Nat.not_lt] at hshort
  obtain ⟨-, hheader, hwithin⟩ := hshort
  obtain rfl := Except.ok.inj h
  obtain ⟨hdr, hhdr⟩ : ∃ hdr, hdr = [0x80 ||| (byteAt query 2 &&& 0x01), 0, 0, 1, 0, 0, 0, 0, 0, 0] :=
    ⟨_, rfl⟩
  rw [← hhdr]
  have hten : hdr.length = 10 := by rw [hhdr]; rfl
  have hlen : (query.take questionEnd).length = questionEnd := List.length_take_of_le hwithin
  have hfit : 2 + hdr.length ≤ (query.take questionEnd).length := by omega
  have hlenPatch := length_patch hfit
  have h10 : byteAt (patch (query.take questionEnd) 2 hdr) (2 + 8) = 0 := by
    rw [byteAt_patch_in hfit (by omega), hhdr]
    rfl
  have h11 : byteAt (patch (query.take questionEnd) 2 hdr) (2 + 9) = 0 := by
    rw [byteAt_patch_in hfit (by omega), hhdr]
    rfl
  exact {
    header := hheader
    within := hwithin
    length_ge := by omega
    length_le := by omega
    arcount := by
      rw [u16be]
      simp only [Nat.reduceAdd] at h10 h11 ⊢
      simp [h10, h11]
    question := by
      intro i hi hlt
      rw [byteAt_patch_out hfit (.inr (by omega)), byteAt_take hlt] }

theorem MadeUp.patch (h : MadeUp query questionEnd p) {i : Nat} (hi : i < 10) (b : UInt8) :
    MadeUp query questionEnd (patch p i [b]) := by
  have hheader := h.header
  have hlong := h.length_ge
  have hfit : i + [b].length ≤ p.length := by
    rw [List.length_singleton]
    omega
  have hlen := length_patch hfit
  have hout : ∀ k, i < k → byteAt (Bytes.patch p i [b]) k = byteAt p k := by
    intro k hk
    exact byteAt_patch_out hfit (.inr (by rw [List.length_singleton]; omega))
  exact {
    header := h.header
    within := h.within
    length_ge := by omega
    length_le := by have := h.length_le; omega
    arcount := by rw [u16be, hout 10 hi, hout 11 (by omega), ← u16be, h.arcount]
    question := fun k hk hlt => by rw [hout k (by omega), h.question k hk hlt] }

theorem replyWithRcode_madeUp {rcode : UInt8} (h : replyWithRcode query questionEnd rcode = .ok p) :
    MadeUp query questionEnd p := by
  simp only [replyWithRcode, bind, Except.bind] at h
  split at h
  · simp at h
  · next buf hbuf =>
    obtain rfl := Except.ok.inj h
    exact (responseFromQuery_madeUp hbuf).patch (by omega) _

theorem exists_replyWithRcode (hge : 12 ≤ questionEnd) (hle : questionEnd ≤ query.length) (rcode : UInt8) :
    ∃ p, replyWithRcode query questionEnd rcode = .ok p := by
  rw [replyWithRcode, responseFromQuery, if_neg (by omega)]
  exact ⟨_, rfl⟩

theorem length_replyWithRcode {rcode : UInt8} (h : replyWithRcode query questionEnd rcode = .ok p) :
    p.length = questionEnd := by
  simp only [replyWithRcode, responseFromQuery, bind, Except.bind] at h
  split at h
  · simp at h
  · next buf hbuf =>
    split_ifs at hbuf with hshort
    simp only [not_or, Nat.not_lt] at hshort
    obtain rfl := Except.ok.inj hbuf
    obtain rfl := Except.ok.inj h
    have hlen : (query.take questionEnd).length = questionEnd := List.length_take_of_le hshort.2.2
    have hfit : 2 + [0x80 ||| (byteAt query 2 &&& 0x01), 0, 0, 1, 0, 0, 0, 0, 0, 0].length ≤
        (query.take questionEnd).length := by
      rw [hlen]
      exact hshort.2.1
    rw [length_patch (by rw [length_patch hfit, hlen, List.length_singleton]; omega), length_patch hfit, hlen]

theorem MadeUp.append (h : MadeUp query questionEnd p) {tail : List UInt8}
    (htail : (p ++ tail).length ≤ questionEnd + 28) : MadeUp query questionEnd (p ++ tail) := by
  have hheader := h.header
  have hlong := h.length_ge
  exact {
    header := h.header
    within := h.within
    length_ge := by rw [List.length_append]; omega
    length_le := htail
    arcount := by
      rw [u16be, byteAt_append_left (by omega), byteAt_append_left (by omega), ← u16be, h.arcount]
    question := fun k hk hlt => by rw [byteAt_append_left (by omega), h.question k hk hlt] }

theorem recordReply_madeUp {rrType : Nat} {ttl : UInt32} {rdata : List UInt8}
    (h : recordReply query questionEnd rrType ttl rdata = .ok p) (hrdata : rdata.length ≤ 16) :
    MadeUp query questionEnd p := by
  simp only [recordReply, emptyReply, bind, Except.bind] at h
  split at h
  · simp at h
  · next buf hbuf =>
    obtain rfl := Except.ok.inj h
    have hlen := length_replyWithRcode hbuf
    have hmade := (replyWithRcode_madeUp hbuf).patch (i := 7) (by omega) 1
    have hheader := hmade.header
    simp only [List.append_assoc]
    refine hmade.append ?_
    have hpatch : (patch buf 7 [1]).length = buf.length :=
      length_patch (by rw [List.length_singleton]; omega)
    simp only [List.length_append, hpatch, hlen, length_encU16be, length_encU32be, List.length_cons,
      List.length_nil]
    omega

end PathDns
