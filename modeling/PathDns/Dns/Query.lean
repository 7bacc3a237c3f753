import PathDns.Lib.Reader
import PathDns.Dns.Name

/-!
# Query parsing (`dns/query.rs`)

`parseQueryFast` validates the header and the question and hashes the name on the way. What the rest
of the development knows about an accepted query is `parseQueryFast_spec`: the question lies inside
the packet, its name is a wire name of labels of 1 to 63 bytes, and the carried hash is the hash of
that name in lower case.

The hash is FNV-1a (`hasher.rs`). Writes compose (`write_append`), so a key finished from a carried hash
state is the hash of one byte stream.
-/

namespace PathDns

open Bytes

/-- `Fnv1a`: the running 64-bit state. -/
structure Fnv1a where
  state : UInt64
deriving DecidableEq, Repr

namespace Fnv1a

def offset : UInt64 := 14695981039346656037

def prime : UInt64 := 1099511628211

def new : Fnv1a := ⟨offset⟩

def writeByte (h : Fnv1a) (b : UInt8) : Fnv1a := ⟨(h.state ^^^ b.toUInt64) * prime⟩

def write (h : Fnv1a) (bytes : List UInt8) : Fnv1a := bytes.foldl writeByte h

/-- Domain separator between adjacent variable-length fields. -/
def writeSep (h : Fnv1a) : Fnv1a := ⟨(h.state ^^^ 0x00FFFF00) * prime⟩

def finish (h : Fnv1a) : UInt64 := h.state

@[simp] theorem write_nil (h : Fnv1a) : h.write [] = h := by
  rw [write, List.foldl_nil]

theorem write_append (h : Fnv1a) (a b : List UInt8) : h.write (a ++ b) = (h.write a).write b := by
  simp [write]

theorem write_cons (h : Fnv1a) (b : UInt8) (bs : List UInt8) :
    h.write (b :: bs) = (h.writeByte b).write bs := rfl

end Fnv1a

/-- The FNV-1a hash of a whole byte stream. -/
def fnv (bytes : List UInt8) : UInt64 := (Fnv1a.new.write bytes).finish

def getId (packet : Packet) : Except String Nat :=
  if packet.length < 2 then .error "invalid dns packet: too short" else .ok (u16be packet 0)

/-- `set_id`; on a packet too short for an ID the source returns an error its callers ignore, and the
packet is unchanged. -/
def setId (packet : Packet) (id : Nat) : Packet :=
  if packet.length < 2 then packet else patch packet 0 (encU16be id)

def isQuery (packet : Packet) : Bool := 12 ≤ packet.length && (byteAt packet 2 &&& 0x80) == 0

def isReply (packet : Packet) : Bool := 12 ≤ packet.length && (byteAt packet 2 &&& 0x80) != 0

def isTruncated (packet : Packet) : Bool := 4 ≤ packet.length && (byteAt packet 2 &&& 0x02) != 0

structure FastQueryInfo where
  id : Nat
  qtype : Nat
  questionEnd : Nat
  qnameWireHash : Fnv1a
  qnameWireHashEnd : Nat
deriving DecidableEq, Repr

/-- The label loop of `skip_query_question`: validates and hashes one label a step. -/
def skipQueryQuestionLoop (packet : Packet) (start : Nat) :
    Nat → Nat → Fnv1a → Except String (Nat × Fnv1a)
  | 0, pos, h => .ok (pos, h)
  | fuel + 1, pos, h =>
    if pos < packet.length then
      let len := byteAt packet pos
      let h := h.writeByte len
      let pos := pos + 1
      if len = 0 then .ok (pos, h)
      else if len &&& 0xc0 ≠ 0 then .error "compressed qname is invalid in query question"
      else if 63 < len.toNat ∨ packet.length < pos + len.toNat then
        .error "invalid dns query question"
      else
        let h := h.write ((slice packet pos (pos + len.toNat)).map toAsciiLowercase)
        let pos := pos + len.toNat
        -- the full wire name, its terminator included, must not exceed 255 bytes
        if 255 < (pos - start) + 1 then .error "qname exceeds 255-byte wire limit"
        else skipQueryQuestionLoop packet start fuel pos h
    else .ok (pos, h)

def questionTail (packet : Packet) (pos : Nat) : Except String Nat :=
  if packet.length < pos + 4 then .error "failed to parse dns query question" else .ok (pos + 4)

/-- `skip_query_question`: `(question_end, qname_wire_hash, qname_wire_hash_end)`. -/
def skipQueryQuestion (packet : Packet) (pos : Nat) : Except String (Nat × Fnv1a × Nat) := do
  let (endPos, h) ← skipQueryQuestionLoop packet pos (packet.length + 1) pos Fnv1a.new
  let qend ← questionTail packet endPos
  return (qend, h, endPos - pos)

def parseQueryFast (packet : Packet) : Except String FastQueryInfo :=
  if !isQuery packet then .error "not a dns query"
  else if (byteAt packet 2 >>> 3) &&& 0x0f ≠ 0 then .error "non-QUERY opcode"
  else if u16be packet 4 ≠ 1 then .error "QDCOUNT must be 1"
  else do
    let (qend, hash, hashEnd) ← skipQueryQuestion packet 12
    let id ← getId packet
    return {
      id := id
      qtype := u16be packet (qend - 4)
      questionEnd := qend
      qnameWireHash := hash
      qnameWireHashEnd := hashEnd }

/-- What `parse_query_fast` reports for a packet, as a total function. -/
def fastInfo (packet : Packet) : FastQueryInfo :=
  (parseQueryFast packet).toOption.getD ⟨0, 0, 0, Fnv1a.new, 0⟩

/-! ### Wire names -/

/-- The wire form of a list of labels: each with its length byte, then the zero byte. -/
def wireName (labels : List (List UInt8)) : List UInt8 :=
  labels.flatMap (fun l => UInt8.ofNat l.length :: l) ++ [0]

theorem wireName_cons (l : List UInt8) (ls : List (List UInt8)) :
    wireName (l :: ls) = UInt8.ofNat l.length :: l ++ wireName ls := by
  simp [wireName]

theorem length_wireName_cons (l : List UInt8) (ls : List (List UInt8)) :
    (wireName (l :: ls)).length = 1 + l.length + (wireName ls).length := by
  rw [wireName_cons, List.length_append, List.length_cons, Nat.add_comm 1]

theorem toAsciiLowercase_length {b : UInt8} (h : b.toNat ≤ 63) : toAsciiLowercase b = b := by
  rw [toAsciiLowercase, if_neg]
  rintro ⟨hlo, -⟩
  have := UInt8.le_iff_toNat_le.mp hlo
  simp at this
  omega

/-- Labels of 1 to `n` bytes. -/
abbrev LabelsUpTo (n : Nat) (labels : List (List UInt8)) : Prop := ∀ l ∈ labels, 1 ≤ l.length ∧ l.length ≤ n

theorem LabelsUpTo.mono {labels : List (List UInt8)} {m n : Nat} (h : LabelsUpTo m labels) (hmn : m ≤ n) :
    LabelsUpTo n labels := fun l hl => ⟨(h l hl).1, (h l hl).2.trans hmn⟩

/-! ### A walk over a wire name -/

variable {packet tail l : List UInt8} {labels ls : List (List UInt8)} {pos : Nat}

theorem byteAt_eq_of_drop {x : UInt8} (h : packet.drop pos = x :: tail) :
    packet[pos]? = some x ∧ byteAt packet pos = x := by
  have hget : packet[pos]? = some x := by
    rw [← Nat.add_zero pos, ← List.getElem?_drop, h]
    rfl
  exact ⟨hget, by simp [byteAt, hget]⟩

theorem drop_add_of_drop {x : List UInt8} {n : Nat} (h : packet.drop pos = x ++ tail) (hn : x.length = n) :
    packet.drop (pos + n) = tail := by
  rw [← List.drop_drop, h, ← hn, List.drop_left]

theorem toNat_ofNat_length (h : l.length ≤ 255) : (UInt8.ofNat l.length).toNat = l.length := by
  rw [UInt8.toNat_ofNat']
  omega

theorem label_ne_zero (h : 1 ≤ l.length ∧ l.length ≤ 255) : UInt8.ofNat l.length ≠ 0 := by
  intro hzero
  have hn := toNat_ofNat_length h.2
  rw [hzero] at hn
  simp only [UInt8.reduceToNat] at hn
  omega

/-- The length byte of a label has its two top bits clear. -/
theorem label_top_bits (h : l.length ≤ 63) : UInt8.ofNat l.length &&& 0xc0 = 0 :=
  (show ∀ n : Nat, n ≤ 63 → UInt8.ofNat n &&& 0xc0 = 0 by decide) _ h

theorem root_at (h : packet.drop pos = wireName [] ++ tail) :
    packet[pos]? = some 0 ∧ byteAt packet pos = 0 ∧ pos < packet.length := by
  obtain ⟨hget, hbyte⟩ := byteAt_eq_of_drop (show packet.drop pos = 0 :: tail from h)
  exact ⟨hget, hbyte, (List.getElem?_eq_some_iff.mp hget).1⟩

/-- What a walk finds at a label that `rest` follows. -/
structure LabelAt (packet : List UInt8) (pos : Nat) (label rest : List UInt8) : Prop where
  get : packet[pos]? = some (UInt8.ofNat label.length)
  byte : byteAt packet pos = UInt8.ofNat label.length
  toNat : (UInt8.ofNat label.length).toNat = label.length
  ne_zero : UInt8.ofNat label.length ≠ 0
  row : packet.drop (pos + 1) = label ++ rest
  room : pos + 1 + label.length ≤ packet.length
  next : packet.drop (pos + 1 + label.length) = rest

theorem label_at (h : packet.drop pos = wireName (l :: ls) ++ tail) (hl : 1 ≤ l.length ∧ l.length ≤ 255) :
    LabelAt packet pos l (wireName ls ++ tail) := by
  rw [wireName_cons, List.cons_append, List.cons_append, List.append_assoc] at h
  obtain ⟨hget, hbyte⟩ := byteAt_eq_of_drop h
  have hrow : packet.drop (pos + 1) = l ++ (wireName ls ++ tail) := drop_add_of_drop (x := [_]) h rfl
  refine ⟨hget, hbyte, toNat_ofNat_length hl.2, label_ne_zero hl, hrow, ?_, drop_add_of_drop hrow rfl⟩
  have hlen := congrArg List.length hrow
  rw [List.length_drop, List.length_append, List.length_append] at hlen
  have : 1 ≤ (wireName ls).length := by simp [wireName]
  omega

theorem LabelAt.slice_eq {rest : List UInt8} (h : LabelAt packet pos l rest) :
    slice packet (pos + 1) (pos + 1 + l.length) = l := by
  rw [slice, h.row, Nat.add_sub_cancel_left, List.take_left]

theorem wireName_append_inj {la lb : List (List UInt8)} {ra rb : List UInt8} (ha : LabelsUpTo 255 la)
    (hb : LabelsUpTo 255 lb) (h : wireName la ++ ra = wireName lb ++ rb) : la = lb ∧ ra = rb := by
  induction la generalizing lb with
  | nil =>
    cases lb with
    | nil => exact ⟨rfl, (List.cons.inj h).2⟩
    | cons m ms =>
      rw [wireName_cons] at h
      exact absurd (List.cons.inj h).1.symm (label_ne_zero (hb m List.mem_cons_self))
  | cons l ls ih =>
    obtain ⟨hl, hls⟩ := List.forall_mem_cons.mp ha
    cases lb with
    | nil =>
      rw [wireName_cons] at h
      exact absurd (List.cons.inj h).1 (label_ne_zero hl)
    | cons m ms =>
      obtain ⟨hm, hms⟩ := List.forall_mem_cons.mp hb
      simp only [wireName_cons, List.cons_append, List.append_assoc, List.cons.injEq] at h
      have hlen : l.length = m.length := by rw [← toNat_ofNat_length hl.2, ← toNat_ofNat_length hm.2, h.1]
      obtain ⟨rfl, hrest⟩ := List.append_inj h.2 hlen
      obtain ⟨rfl, rfl⟩ := ih hls hms hrest
      exact ⟨rfl, rfl⟩

/-! ### What an accepted query looks like -/

theorem skipQueryQuestionLoop_spec {start fuel e : Nat} {h h' : Fnv1a} (hfuel : packet.length < pos + fuel)
    (hstart : start ≤ pos) (hok : skipQueryQuestionLoop packet start fuel pos h = .ok (e, h'))
    (he : e + 4 ≤ packet.length) :
    ∃ labels : List (List UInt8), (∀ l ∈ labels, 1 ≤ l.length ∧ l.length ≤ 63) ∧
      slice packet pos e = wireName labels ∧ pos < e ∧
      h' = h.write ((slice packet pos e).map toAsciiLowercase) ∧
      (pos - start ≤ 254 → e - start ≤ 255) := by
  induction fuel generalizing pos h with
  | zero =>
    simp only [skipQueryQuestionLoop, Except.ok.injEq, Prod.mk.injEq] at hok
    omega
  | succ fuel ih =>
    simp only [skipQueryQuestionLoop] at hok
    split_ifs at hok with hpos hzero hcomp hlen hlimit
    · simp only [Except.ok.injEq, Prod.mk.injEq] at hok
      obtain ⟨rfl, rfl⟩ := hok
      have hslice : slice packet pos (pos + 1) = [0] := by
        rw [slice, show pos + 1 - pos = 1 by omega, List.drop_eq_getElem_cons hpos,
          ← byteAt_of_lt hpos, hzero]
        rfl
      refine ⟨[], by simp, by simpa [wireName] using hslice, by omega, ?_, by omega⟩
      rw [hslice, hzero]
      rfl
    · simp only [not_or, not_lt] at hlen
      obtain ⟨labels, hlabels, hname, hlt, hhash, hlimit'⟩ := ih (by omega) (by omega) hok
      set n := (byteAt packet pos).toNat with hn
      have hlabel : (slice packet (pos + 1) (pos + 1 + n)).length = n := by
        rw [length_slice (by omega)]
        omega
      -- the slice up to `e` is the length byte, the label and the rest of the name
      have hsplit : slice packet pos e =
          byteAt packet pos :: (slice packet (pos + 1) (pos + 1 + n) ++
            slice packet (pos + 1 + n) e) := by
        rw [slice, List.drop_eq_getElem_cons hpos, ← byteAt_of_lt hpos,
          show e - pos = (n + (e - (pos + 1 + n))) + 1 by omega, List.take_succ_cons,
          List.take_add]
        simp only [slice, List.drop_drop]
        congr 3
        omega
      have hpositive : 1 ≤ n := by
        rcases Nat.eq_zero_or_pos n with h0 | h0
        · exact absurd (UInt8.toNat_inj.mp (by simpa using h0)) hzero
        · exact h0
      refine ⟨slice packet (pos + 1) (pos + 1 + n) :: labels, ?_, ?_, by omega, ?_, by omega⟩
      · intro l hl
        rcases List.mem_cons.mp hl with rfl | hl
        · omega
        · exact hlabels l hl
      · rw [hsplit, hname, wireName_cons, hlabel, hn, UInt8.ofNat_toNat]
        rfl
      · rw [hhash, hsplit, List.map_cons, List.map_append, Fnv1a.write_cons, Fnv1a.write_append,
          toAsciiLowercase_length hlen.1]
    · simp only [Except.ok.injEq, Prod.mk.injEq] at hok
      omega

/-- What `parse_query_fast` accepts, and what it reports. -/
structure AcceptedQuery (packet : Packet) (info : FastQueryInfo) : Prop where
  query : isQuery packet = true
  qdcount : u16be packet 4 = 1
  id : info.id = u16be packet 0
  questionEnd_ge : 17 ≤ info.questionEnd
  questionEnd_le : info.questionEnd ≤ packet.length
  hashEnd : info.qnameWireHashEnd = info.questionEnd - 16
  hash : info.qnameWireHash =
    Fnv1a.new.write ((slice packet 12 (info.questionEnd - 4)).map toAsciiLowercase)
  name : ∃ labels : List (List UInt8), (∀ l ∈ labels, 1 ≤ l.length ∧ l.length ≤ 63) ∧
    slice packet 12 (info.questionEnd - 4) = wireName labels
  nameLimit : info.questionEnd - 16 ≤ 255

theorem parseQueryFast_spec {info : FastQueryInfo} (h : parseQueryFast packet = .ok info) :
    AcceptedQuery packet info := by
  rw [parseQueryFast] at h
  split_ifs at h with hquery hopcode hqd
  obtain ⟨⟨qend, hash, hashEnd⟩, hq, h⟩ := Fallible.bind_eq_ok_iff.mp h
  rw [skipQueryQuestion] at hq
  obtain ⟨⟨e, h'⟩, hloop, hq⟩ := Fallible.bind_eq_ok_iff.mp hq
  obtain ⟨_, htail, hq⟩ := Fallible.bind_eq_ok_iff.mp hq
  rw [questionTail] at htail
  split_ifs at htail with hshort
  cases htail
  cases hq
  have hquery' : isQuery packet = true := by simpa using hquery
  have hlen : 12 ≤ packet.length := by
    simp only [isQuery, Bool.and_eq_true, decide_eq_true_eq] at hquery'
    exact hquery'.1
  obtain ⟨labels, hlabels, hname, hlt, hhash, hlimit⟩ :=
    skipQueryQuestionLoop_spec (by omega) (le_refl 12) hloop (by omega)
  simp only [getId, if_neg (show ¬ packet.length < 2 by omega), bind, Except.bind, pure, Except.pure,
    Except.ok.injEq] at h
  subst h
  exact {
    query := hquery'
    qdcount := not_not.mp hqd
    id := rfl
    questionEnd_ge := by simp only; omega
    questionEnd_le := by simp only; omega
    hashEnd := by simp only; omega
    hash := by simpa using hhash
    name := ⟨labels, hlabels, by simpa using hname⟩
    nameLimit := by simp only; omega }

/-! ### Questions of accepted queries -/

theorem skipNameLoop_wireName (hlabels : LabelsUpTo 63 labels) {fuel : Nat}
    (hdrop : packet.drop pos = wireName labels ++ tail) (hfuel : labels.length < fuel) :
    skipNameLoop packet fuel pos = some (pos + (wireName labels).length) := by
  induction labels generalizing fuel pos with
  | nil =>
    obtain ⟨k, rfl⟩ := Nat.exists_eq_add_of_lt hfuel
    simp [skipNameLoop, (root_at hdrop).1, wireName]
  | cons l ls ih =>
    obtain ⟨k, rfl⟩ := Nat.exists_eq_add_of_lt hfuel
    obtain ⟨hl, hls⟩ := List.forall_mem_cons.mp hlabels
    have hat := label_at hdrop ⟨hl.1, hl.2.trans (by decide)⟩
    have hroom := hat.room
    rw [skipNameLoop, hat.get]
    simp only [if_neg hat.ne_zero, label_top_bits hl.2, hat.toNat]
    rw [if_neg (by decide), if_neg (by decide), if_neg (by omega), ih hls hat.next (by simp; omega),
      length_wireName_cons, ← Nat.add_assoc, ← Nat.add_assoc]

theorem length_le_wireName (labels : List (List UInt8)) : labels.length ≤ (wireName labels).length := by
  induction labels with
  | nil => simp
  | cons l ls ih =>
    rw [length_wireName_cons, List.length_cons]
    omega

variable {query : Packet} {fast : FastQueryInfo}

theorem questionEnd_of_name {e : Nat} {typeClass : List UInt8} (hlabels : LabelsUpTo 63 labels)
    (hfour : typeClass.length = 4) (he : e ≤ packet.length) (h : slice packet 12 e = wireName labels ++ typeClass) :
    questionEnd packet = some e := by
  have hcount := length_le_wireName labels
  have hlen := congrArg List.length h
  rw [length_slice he, List.length_append, hfour] at hlen
  have hdrop : packet.drop 12 = wireName labels ++ (typeClass ++ packet.drop e) := by
    rw [← List.append_assoc, ← h, slice_append_drop (by omega)]
  have hskip : skipName packet 12 = some (12 + (wireName labels).length) :=
    skipNameLoop_wireName hlabels hdrop (by omega)
  exact questionEnd_eq_some_iff.mpr ⟨_, hskip, by omega, by omega⟩

/-- The question of an accepted query: a name of short labels, then type and class. -/
theorem AcceptedQuery.question_eq (hq : AcceptedQuery query fast) :
    ∃ labels typeClass, (∀ l ∈ labels, 1 ≤ l.length ∧ l.length ≤ 63) ∧ typeClass.length = 4 ∧
      slice query 12 fast.questionEnd = wireName labels ++ typeClass := by
  have hge := hq.questionEnd_ge
  have hle := hq.questionEnd_le
  obtain ⟨labels, hlabels, hname⟩ := hq.name
  refine ⟨labels, slice query (fast.questionEnd - 4) fast.questionEnd, hlabels, ?_, ?_⟩
  · rw [length_slice hle]
    omega
  · rw [← hname, slice_append_slice (by omega) (by omega)]

theorem AcceptedQuery.questionEnd_eq (hq : AcceptedQuery query fast) :
    questionEnd query = some fast.questionEnd := by
  obtain ⟨labels, typeClass, hlabels, hfour, hquestion⟩ := hq.question_eq
  exact questionEnd_of_name hlabels hfour hq.questionEnd_le hquestion

/-! ### Setting the ID -/

theorem length_setId (packet : Packet) (id : Nat) : (setId packet id).length = packet.length := by
  rw [setId]
  split_ifs with h
  · rfl
  · exact length_patch (by rw [length_encU16be]; omega)

variable {id : Nat}

theorem byteAt_setId_id {i : Nat} (hlen : 2 ≤ packet.length) (hi : i < 2) :
    byteAt (setId packet id) i = byteAt (encU16be id) i := by
  have hfit : 0 + (encU16be id).length ≤ packet.length := by simpa using hlen
  have hin := byteAt_patch_in hfit (show i < (encU16be id).length from hi)
  rw [setId, if_neg (by omega), ← hin, Nat.zero_add]

theorem byteAt_setId_out {i : Nat} (hi : 2 ≤ i) : byteAt (setId packet id) i = byteAt packet i := by
  rw [setId]
  split_ifs with h
  · rfl
  · exact byteAt_patch_out (by rw [length_encU16be]; omega) (by rw [length_encU16be]; omega)

theorem drop_setId {p : Packet} {i : Nat} (hi : 2 ≤ i) : (setId p id).drop i = p.drop i := by
  apply ext_byteAt
  · simp [length_setId]
  · intro k _
    rw [byteAt_drop, byteAt_drop, byteAt_setId_out (by omega)]

theorem getId_setId (hlen : 2 ≤ packet.length) (hid : id < 65536) : getId (setId packet id) = .ok id := by
  rw [getId, length_setId, if_neg (by omega)]
  congr 1
  apply u16be_encU16be hid
  · exact byteAt_setId_id hlen (by omega)
  · exact byteAt_setId_id hlen (by omega)

end PathDns
