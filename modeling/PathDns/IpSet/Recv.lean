import Mathlib.Algebra.Group.Nat.Defs
import PathDns.Lib.Bytes
import PathDns.Lib.RustInt

/-!
# Waiting for a netlink reply (`NetlinkSocket::recv_for_seq`)

The datagrams that `recv` returns are a list, and so is every walk over the entries of one; the error of
`recv` that ends the waiting comes behind them. Integers are little-endian.

The entries of a datagram stand one behind the other, each at the first multiple of the alignment behind the
one before (`Packed`). The last one need not be padded.
-/

namespace Packed

open Bytes

/-- `n` rounded up to a multiple of `a`. -/
def roundUp (n a : Nat) : Nat := (n + (a - 1)) / a * a

variable {α : Type} {enc : α → List UInt8} {a : Nat} {buf : List UInt8}

/-- From `pos` on, the buffer holds the encoded records and nothing behind them. -/
def At (enc : α → List UInt8) (a : Nat) (buf : List UInt8) : Nat → List α → Prop
  | pos, [] => buf.length ≤ pos
  | pos, r :: rs => enc r <+: buf.drop pos ∧ At enc a buf (pos + roundUp (enc r).length a) rs

theorem le_roundUp (ha : 0 < a) (n : Nat) : n ≤ roundUp n a := by
  have := Nat.lt_div_mul_add (a := n + (a - 1)) ha
  rw [roundUp]
  omega

/-- A little-endian number of `w` bytes, read byte by byte. -/
def readLe (w : Nat) (p : List UInt8) (i : Nat) : Checked Nat :=
  if i + w ≤ p.length then .ok (decLe (slice p i (i + w))) else .error .index

theorem readLe_ok {w i : Nat} {p : List UInt8} (h : i + w ≤ p.length) :
    readLe w p i = .ok (decLe (slice p i (i + w))) := if_pos h

section Fields

variable {p field rest : List UInt8} {pos : Nat}

/-- The bytes of a field of a record that begins at `pos`. -/
theorem slice_field (front : List UInt8) (h : front ++ (field ++ rest) <+: p.drop pos) :
    slice p (pos + front.length) (pos + front.length + field.length) = field := by
  obtain ⟨more, hmore⟩ := h
  rw [slice, Nat.add_sub_cancel_left, ← List.drop_drop, ← hmore, List.append_assoc, List.drop_left,
    List.append_assoc, List.take_left]

end Fields

end Packed

namespace PathDns

open Bytes Packed

structure RecvMsg where
  msgType : Nat
  data : List UInt8
deriving DecidableEq, Repr

/-- An `io::Error`: one of `recv`, or bytes that are no messages. -/
inductive RecvError (ε : Type) where
  | recv (e : ε)
  | invalidData (message : String)
deriving DecidableEq, Repr

/-- What `recv` leaves in the buffer of 8192 bytes. -/
structure Datagram where
  bytes : List UInt8
  fits : bytes.length ≤ 8192

/-- What the walk does at an entry. -/
inductive NlEntry where
  | leave
  | fail (message : String)
  | found (msg : RecvMsg)
  | skip (next : Nat)
deriving DecidableEq, Repr

/-- One round of the loop over the entries. -/
def nlEntry (buf : List UInt8) (seq pos : Nat) : Checked NlEntry :=
  if pos + 16 ≤ buf.length then do
    let msgLen ← readLe 4 buf pos
    if msgLen < 16 then return .leave
    let msgType ← readLe 2 buf (pos + 4)
    let msgSeq ← readLe 4 buf (pos + 8)
    if 2 ^ 64 ≤ pos + msgLen then return .fail "netlink message length overflow"
    if buf.length < pos + msgLen then return .fail "truncated netlink message"
    if msgSeq = seq then return .found ⟨msgType, ← sliceIndex buf pos (pos + msgLen)⟩
    let aligned := (BitVec.ofNat 64 (msgLen + 3) &&& ~~~BitVec.ofNat 64 3).toNat
    return .skip (min (pos + aligned) (2 ^ 64 - 1))
  else .ok .leave

/-- The loop over the entries of a datagram; `none` when the fuel is used up. -/
def nlWalk (buf : List UInt8) (seq : Nat) : Nat → Nat → Checked (Option NlEntry)
  | 0, _ => .ok none
  | fuel + 1, pos => do
    match ← nlEntry buf seq pos with
    | .skip next => nlWalk buf seq fuel next
    | entry => return some entry

/-- `recv_for_seq` on the datagrams that arrive, and the error that `recv` returns behind them. -/
def recvForSeq {ε : Type} (seq : Nat) (last : ε) :
    List Datagram → Checked (Option (Except (RecvError ε) RecvMsg))
  | [] => .ok (some (.error (.recv last)))
  | d :: ds => do
    match ← nlWalk d.bytes seq (d.bytes.length + 1) 0 with
    | none => return none
    | some (.found msg) => return some (.ok msg)
    | some (.fail message) => return some (.error (.invalidData message))
    | some _ => recvForSeq seq last ds

/-! ### One round -/

variable {buf : List UInt8} {seq pos : Nat}

/-- The length that an entry announces. -/
def entryLen (buf : List UInt8) (pos : Nat) : Nat := decLe (slice buf pos (pos + 4))

theorem nlEntry_eq (hlen : buf.length ≤ 8192) (hfits : pos + 16 ≤ buf.length) (hmin : 16 ≤ entryLen buf pos) :
    nlEntry buf seq pos = .ok (
      if buf.length < pos + entryLen buf pos then .fail "truncated netlink message"
      else if decLe (slice buf (pos + 8) (pos + 12)) = seq then
        .found ⟨decLe (slice buf (pos + 4) (pos + 6)), slice buf pos (pos + entryLen buf pos)⟩
      else .skip (pos + roundUp (entryLen buf pos) 4)) := by
  have hmax : entryLen buf pos < 256 ^ 4 := by
    have := decLe_lt (slice buf pos (pos + 4))
    rwa [length_slice (by omega), Nat.add_sub_cancel_left] at this
  have hread : readLe 4 buf pos = .ok (entryLen buf pos) := readLe_ok (by omega)
  have haligned : (BitVec.ofNat 64 (entryLen buf pos + 3) &&& ~~~BitVec.ofNat 64 3).toNat =
      roundUp (entryLen buf pos) 4 := RustInt.toNat_and_not (k := 2) (by omega) (by decide)
  have hround : roundUp (entryLen buf pos) 4 ≤ entryLen buf pos + 3 := Nat.div_mul_le_self _ _
  rw [nlEntry, if_pos hfits]
  simp only [hread, readLe_ok (show pos + 4 + 2 ≤ buf.length by omega),
    readLe_ok (show pos + 8 + 4 ≤ buf.length by omega), bind, Except.bind, pure, Except.pure, haligned]
  rw [if_neg (by omega), if_neg (by omega)]
  split_ifs with htrunc hseq
  · rfl
  · rw [sliceIndex_ok (by omega) (by omega)]
  · rw [Nat.min_eq_left (by omega)]

theorem nlEntry_leave (h : ¬ (pos + 16 ≤ buf.length ∧ 16 ≤ entryLen buf pos)) :
    nlEntry buf seq pos = .ok .leave := by
  rw [nlEntry]
  split_ifs with hfits
  · simp only [show readLe 4 buf pos = .ok (entryLen buf pos) from readLe_ok (by omega), bind, Except.bind]
    rw [if_pos (by omega)]
    rfl
  · rfl

/-- A round reads inside the datagram, and one that goes on goes on behind the header of its entry. -/
theorem nlEntry_advances (hlen : buf.length ≤ 8192) (seq pos : Nat) :
    ∃ entry, nlEntry buf seq pos = .ok entry ∧
    ∀ next, entry = .skip next → pos + 16 ≤ next ∧ pos < buf.length := by
  by_cases h : pos + 16 ≤ buf.length ∧ 16 ≤ entryLen buf pos
  · refine ⟨_, nlEntry_eq hlen h.1 h.2, fun next hnext => ?_⟩
    have hround := le_roundUp (show 0 < 4 by decide) (entryLen buf pos)
    split_ifs at hnext
    cases hnext
    omega
  · exact ⟨_, nlEntry_leave h, nofun⟩

theorem nlWalk_ends (hlen : buf.length ≤ 8192) (seq : Nat) {fuel : Nat} (hfuel : buf.length - pos < fuel) :
    ∃ entry, nlWalk buf seq fuel pos = .ok (some entry) := by
  induction fuel generalizing pos with
  | zero => omega
  | succ fuel ih =>
    obtain ⟨entry, hentry, hskip⟩ := nlEntry_advances hlen seq pos
    rw [nlWalk, hentry]
    cases entry with
    | skip next =>
      have := hskip next rfl
      exact ih (by omega)
    | leave => exact ⟨_, rfl⟩
    | fail message => exact ⟨_, rfl⟩
    | found msg => exact ⟨_, rfl⟩

theorem recvForSeq_ends {ε : Type} (seq : Nat) (last : ε) (ds : List Datagram) :
    ∃ out, recvForSeq seq last ds = .ok (some out) := by
  induction ds with
  | nil => exact ⟨_, rfl⟩
  | cons d ds ih =>
    have hfuel : d.bytes.length - 0 < d.bytes.length + 1 := by omega
    obtain ⟨entry, hentry⟩ := nlWalk_ends d.fits seq hfuel
    rw [recvForSeq, hentry]
    cases entry with
    | leave => exact ih
    | skip next => exact ih
    | fail message => exact ⟨_, rfl⟩
    | found msg => exact ⟨_, rfl⟩

/-! ### Datagrams of messages -/

structure NlMsg where
  msgType : UInt16
  flags : UInt16
  seq : UInt32
  pid : UInt32
  payload : List UInt8

def NlMsg.encode (m : NlMsg) : List UInt8 :=
  encLe 4 (16 + m.payload.length) ++ (encLe 2 m.msgType.toNat ++ (encLe 2 m.flags.toNat ++
    (encLe 4 m.seq.toNat ++ (encLe 4 m.pid.toNat ++ m.payload))))

variable {m : NlMsg}

theorem NlMsg.length_encode (m : NlMsg) : m.encode.length = 16 + m.payload.length := by
  simp only [encode, List.length_append, length_encLe]
  omega

theorem nlEntry_message (hlen : buf.length ≤ 8192) (h : m.encode <+: buf.drop pos) :
    nlEntry buf seq pos = .ok (
      if m.seq.toNat = seq then .found ⟨m.msgType.toNat, m.encode⟩
      else .skip (pos + roundUp m.encode.length 4)) := by
  have hroom := h.length_le
  rw [m.length_encode, List.length_drop] at hroom
  have hann : entryLen buf pos = 16 + m.payload.length := by
    have hfield := slice_field [] (show [] ++ (encLe 4 (16 + m.payload.length) ++ _) <+: _ from h)
    rw [List.length_nil, Nat.add_zero, length_encLe] at hfield
    rw [entryLen, hfield, decLe_encLe]
    omega
  have htype : decLe (slice buf (pos + 4) (pos + 6)) = m.msgType.toNat := by
    have hfield := slice_field (encLe 4 _) (show _ ++ (encLe 2 m.msgType.toNat ++ _) <+: _ from h)
    rw [length_encLe, length_encLe] at hfield
    exact (congrArg decLe hfield).trans (decLe_encLe _ _ m.msgType.toNat_lt)
  have hseq : decLe (slice buf (pos + 8) (pos + 12)) = m.seq.toNat := by
    have hfield := slice_field
      (encLe 4 (16 + m.payload.length) ++ (encLe 2 m.msgType.toNat ++ encLe 2 m.flags.toNat))
      (show _ ++ (encLe 4 m.seq.toNat ++ (encLe 4 m.pid.toNat ++ m.payload)) <+: _ by
        rw [List.append_assoc, List.append_assoc]
        exact h)
    simp only [List.length_append, length_encLe] at hfield
    exact (congrArg decLe hfield).trans (decLe_encLe _ _ m.seq.toNat_lt)
  have hdata : slice buf pos (pos + (16 + m.payload.length)) = m.encode := by
    have hfield := slice_field [] (show [] ++ (m.encode ++ []) <+: _ by rw [List.append_nil]; exact h)
    rwa [List.length_nil, Nat.add_zero, m.length_encode] at hfield
  rw [nlEntry_eq hlen (by omega) (by omega), hann, htype, hseq, hdata, m.length_encode, if_neg (by omega)]

theorem nlWalk_messages (hlen : buf.length ≤ 8192) {fuel : Nat} {msgs : List NlMsg}
    (h : At NlMsg.encode 4 buf pos msgs) (hfuel : buf.length - pos < fuel) :
    nlWalk buf seq fuel pos = .ok (some ((msgs.find? (·.seq.toNat = seq)).elim .leave fun m =>
      .found ⟨m.msgType.toNat, m.encode⟩)) := by
  induction msgs generalizing fuel pos with
  | nil =>
    obtain ⟨fuel, rfl⟩ := Nat.exists_eq_add_one_of_ne_zero (show fuel ≠ 0 by omega)
    have hend : buf.length ≤ pos := h
    rw [nlWalk, nlEntry_leave (by omega)]
    rfl
  | cons m msgs ih =>
    obtain ⟨fuel, rfl⟩ := Nat.exists_eq_add_one_of_ne_zero (show fuel ≠ 0 by omega)
    obtain ⟨hm, hrest⟩ := h
    rw [nlWalk, nlEntry_message hlen hm, List.find?_cons]
    by_cases hseq : m.seq.toNat = seq
    · simp [hseq, bind, Except.bind, pure, Except.pure]
    · have hroom := hm.length_le
      have hround := le_roundUp (show 0 < 4 by decide) m.encode.length
      rw [m.length_encode, List.length_drop] at hroom
      simp only [hseq, decide_false, if_false, bind, Except.bind]
      exact ih hrest (by rw [m.length_encode] at *; omega)

/-- A datagram of messages. -/
structure Packing extends Datagram where
  msgs : List NlMsg
  packed : At NlMsg.encode 4 bytes 0 msgs

/-- On any datagrams the walk reads in bounds, goes forward in each of them and ends. On datagrams of
messages it returns the first message with the sequence number, and the error of `recv` if there is none. -/
theorem recvForSeq_exact {ε : Type} (seq : UInt32) (last : ε) :
    (∀ d : Datagram, ∀ pos, ∃ entry, nlEntry d.bytes seq.toNat pos = .ok entry ∧
      ∀ next, entry = .skip next → pos < next) ∧
    (∀ ds : List Datagram, ∃ out, recvForSeq seq.toNat last ds = .ok (some out)) ∧
    ∀ ds : List Packing, recvForSeq seq.toNat last (ds.map (·.toDatagram)) =
      .ok (some (((ds.flatMap (·.msgs)).find? (·.seq = seq)).elim (.error (.recv last)) fun m =>
        .ok ⟨m.msgType.toNat, m.encode⟩)) := by
  refine ⟨fun d pos => ?_, recvForSeq_ends seq.toNat last, fun ds => ?_⟩
  · obtain ⟨entry, hentry, hskip⟩ := nlEntry_advances d.fits seq.toNat pos
    refine ⟨entry, hentry, fun next hnext => ?_⟩
    have := hskip next hnext
    omega
  · have hsame : (fun m : NlMsg => decide (m.seq.toNat = seq.toNat)) = fun m => decide (m.seq = seq) := by
      funext m
      simp only [UInt32.toNat_inj]
    induction ds with
    | nil => rfl
    | cons d ds ih =>
      rw [List.map_cons, recvForSeq, nlWalk_messages d.fits d.packed (by omega), hsame, List.flatMap_cons,
        List.find?_append]
      cases d.msgs.find? fun m => decide (m.seq = seq) with
      | none => exact ih
      | some m => rfl

/-- Two acknowledgements, the first one of an odd length and so padded. -/
def sampleMsgs : List NlMsg := [⟨2, 0, 1, 7, [0]⟩, ⟨2, 0, 2, 7, [0, 0, 0, 0]⟩]

def samplePacking : Packing where
  bytes := [17, 0, 0, 0, 2, 0, 0, 0, 1, 0, 0, 0, 7, 0, 0, 0, 0] ++ [0, 0, 0] ++
    [20, 0, 0, 0, 2, 0, 0, 0, 2, 0, 0, 0, 7, 0, 0, 0, 0, 0, 0, 0]
  fits := by decide
  msgs := sampleMsgs
  packed := by
    simp only [sampleMsgs, At]
    decide +kernel

example : recvForSeq 2 () [samplePacking.toDatagram] =
    .ok (some (.ok ⟨2, [20, 0, 0, 0, 2, 0, 0, 0, 2, 0, 0, 0, 7, 0, 0, 0, 0, 0, 0, 0]⟩)) := by decide

end PathDns
