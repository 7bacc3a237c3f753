import Mathlib.Data.FinEnum
import PathDns.Dns.Question
import PathDns.Lib.Utf8

/-!
# The three walks over the name of a question

`parse_query_fast`, `question_end` and `qname_from_question` each walk the name with bounds of their own.
The first accepts exactly the packets of `QueryShape`; on those the second returns the same end, and the
third the labels in lower case with dots between them.
-/

namespace PathDns

open Bytes

theorem lowercase_asciiMap : Utf8.AsciiMap toAsciiLowercase where
  ascii b h := by
    rw [toAsciiLowercase]
    split_ifs with hletter
    · rw [UInt8.lt_iff_toNat_lt] at *
      have hle := UInt8.le_iff_toNat_le.mp hletter.2
      rw [UInt8.toNat_add]
      simp only [UInt8.reduceToNat] at *
      omega
    · exact h
  other b h := by
    rw [toAsciiLowercase, if_neg]
    rintro ⟨-, hle⟩
    rw [UInt8.lt_iff_toNat_lt] at h
    rw [UInt8.le_iff_toNat_le] at hle
    simp only [UInt8.reduceToNat] at *
    omega

/-- The text of a label: ASCII bytes one by one, other labels with what is not UTF-8 replaced. -/
def labelText (label : List UInt8) : Utf8.Text :=
  if h : ∀ b ∈ label, b < 0x80 then
    Utf8.Text.ofAscii (label.map toAsciiLowercase) (by
      intro b hb
      obtain ⟨c, hc, rfl⟩ := List.mem_map.mp hb
      exact lowercase_asciiMap.ascii c (h c hc))
  else (Utf8.Text.fromUtf8Lossy label).mapAscii toAsciiLowercase lowercase_asciiMap

def dotText : Utf8.Text := ⟨[46], rfl⟩

/-- The label loop of `qname_from_question`. -/
def qnameLoop (packet : Packet) (questionEnd : Nat) : Nat → Nat → Utf8.Text → Except String Utf8.Text
  | 0, _, qname => .ok qname
  | fuel + 1, pos, qname =>
    if pos < packet.length ∧ pos < questionEnd then
      let len := byteAt packet pos
      let pos := pos + 1
      if len = 0 then .ok qname
      else if len &&& 0xc0 ≠ 0 then .error "compressed qname is invalid in query question"
      else if 63 < len.toNat ∨ questionEnd < pos + len.toNat then .error "invalid dns query question"
      else
        let qname := if qname.bytes.isEmpty then qname else qname.append dotText
        let label := slice packet pos (pos + len.toNat)
        qnameLoop packet questionEnd fuel (pos + len.toNat) (qname.append (labelText label))
    else .ok qname

def qnameFromQuestion (packet : Packet) (questionEnd : Nat) : Except String Utf8.Text :=
  if !isQuery packet || packet.length < questionEnd then .error "invalid dns query"
  else qnameLoop packet questionEnd (packet.length + 1) 12 Utf8.Text.empty

/-! ### What the walks are about -/

/-- A query with one question whose name is made of the labels: QR and the opcode are zero, the name has no
compression and at most 255 bytes, and type and class follow. -/
structure QueryShape (packet : Packet) (labels : List (List UInt8)) (tail : List UInt8) : Prop where
  header : 12 ≤ packet.length
  qr : (byteAt packet 2).toNat / 128 = 0
  opcode : (byteAt packet 2).toNat / 8 % 16 = 0
  qdcount : u16be packet 4 = 1
  sizes : ∀ l ∈ labels, 1 ≤ l.length ∧ l.length ≤ 63
  name : packet.drop 12 = wireName labels ++ tail
  limit : (wireName labels).length ≤ 255
  typeClass : 4 ≤ tail.length

/-- The labels in lower case, with what is not UTF-8 replaced, and dots between them. -/
def routingName (labels : List (List UInt8)) : List UInt8 :=
  [46].intercalate (labels.map (fun l => (Utf8.lossy l).map toAsciiLowercase))

theorem labelText_bytes (label : List UInt8) :
    (labelText label).bytes = (Utf8.lossy label).map toAsciiLowercase := by
  rw [labelText]
  split_ifs with h
  · rw [Utf8.lossy_of_valid (Utf8.valid_of_ascii h)]
    rfl
  · rfl

/-! ### The header -/

theorem qr_iff : ∀ n < 256, (UInt8.ofNat n &&& 0x80 = 0 ↔ n / 128 = 0) := by decide +kernel

theorem opcode_iff : ∀ n < 256, ((UInt8.ofNat n >>> 3) &&& 0x0f = 0 ↔ n / 8 % 16 = 0) := by
  decide +kernel

variable {packet : Packet}

theorem isQuery_iff : isQuery packet = true ↔ 12 ≤ packet.length ∧ (byteAt packet 2).toNat / 128 = 0 := by
  rw [← qr_iff _ (byteAt packet 2).toNat_lt, UInt8.ofNat_toNat]
  simp [isQuery]

/-! ### The first walk accepts every such packet -/

variable {tail : List UInt8} {labels : List (List UInt8)}

theorem skipQueryQuestionLoop_wireName {packet : List UInt8} (hlabels : LabelsUpTo 63 labels) (start : Nat)
    {fuel pos : Nat} (h : Fnv1a) (hdrop : packet.drop pos = wireName labels ++ tail)
    (hfuel : labels.length < fuel) (hlimit : pos - start + (wireName labels).length ≤ 255)
    (hstart : start ≤ pos) :
    ∃ h', skipQueryQuestionLoop packet start fuel pos h = .ok (pos + (wireName labels).length, h') := by
  induction labels generalizing fuel pos h with
  | nil =>
    obtain ⟨k, rfl⟩ := Nat.exists_eq_add_of_lt hfuel
    obtain ⟨-, hbyte, hpos⟩ := root_at hdrop
    rw [skipQueryQuestionLoop, if_pos hpos]
    simp only [hbyte, if_true]
    exact ⟨_, rfl⟩
  | cons l ls ih =>
    obtain ⟨k, rfl⟩ := Nat.exists_eq_add_of_lt hfuel
    obtain ⟨hl, hls⟩ := List.forall_mem_cons.mp hlabels
    have hat := label_at hdrop ⟨hl.1, hl.2.trans (by decide)⟩
    have hroom := hat.room
    have hone : 1 ≤ (wireName ls).length := by simp [wireName]
    rw [length_wireName_cons] at hlimit
    rw [skipQueryQuestionLoop, if_pos (by omega)]
    simp only [hat.byte, hat.toNat, if_neg hat.ne_zero, label_top_bits hl.2]
    rw [if_neg (by decide), if_neg (by omega), if_neg (by omega), length_wireName_cons, ← Nat.add_assoc,
      ← Nat.add_assoc]
    exact ih hls _ hat.next (by simp; omega) (by omega) (by omega)

theorem QueryShape.accepted (h : QueryShape packet labels tail) :
    ∃ info, parseQueryFast packet = .ok info ∧ info.questionEnd = 16 + (wireName labels).length := by
  have hheader := h.header
  have hlength : packet.length - 12 = (wireName labels).length + tail.length := by
    simpa using congrArg List.length h.name
  have htail := h.typeClass
  have hcount := length_le_wireName labels
  obtain ⟨h', hloop⟩ := skipQueryQuestionLoop_wireName h.sizes 12 Fnv1a.new h.name
    (show labels.length < packet.length + 1 by omega) (by simpa using h.limit) (le_refl 12)
  have hopcode : (byteAt packet 2 >>> 3) &&& 0x0f = 0 := by
    have := (opcode_iff _ (byteAt packet 2).toNat_lt).mpr h.opcode
    rwa [UInt8.ofNat_toNat] at this
  have htailOk : questionTail packet (12 + (wireName labels).length) =
      .ok (12 + (wireName labels).length + 4) := by
    rw [questionTail, if_neg (by omega)]
  rw [parseQueryFast, isQuery_iff.mpr ⟨h.header, h.qr⟩]
  simp only [Bool.not_true, Bool.false_eq_true, if_false, ne_eq, hopcode, h.qdcount, not_true_eq_false,
    skipQueryQuestion, hloop, htailOk, bind, Except.bind, pure, Except.pure, getId,
    if_neg (show ¬ packet.length < 2 by omega)]
  exact ⟨_, rfl, by simp only; omega⟩

/-- What the first walk accepts has the shape. -/
theorem QueryShape.of_accepted {info : FastQueryInfo} (h : parseQueryFast packet = .ok info) :
    ∃ labels tail, QueryShape packet labels tail := by
  have hq := parseQueryFast_spec h
  obtain ⟨labels, hlabels, hname⟩ := hq.name
  obtain ⟨hheader, hqr⟩ := isQuery_iff.mp hq.query
  have hge := hq.questionEnd_ge
  have hle := hq.questionEnd_le
  have hlength : (wireName labels).length = info.questionEnd - 16 := by
    rw [← hname, length_slice (by omega)]
    omega
  have hopcode : (byteAt packet 2).toNat / 8 % 16 = 0 := by
    rw [parseQueryFast] at h
    split_ifs at h with hquery hopcode hqd
    rw [not_not] at hopcode
    rw [← opcode_iff _ (byteAt packet 2).toNat_lt, UInt8.ofNat_toNat]
    exact hopcode
  refine ⟨labels, packet.drop (info.questionEnd - 4), {
    header := hheader
    qr := hqr
    opcode := hopcode
    qdcount := hq.qdcount
    sizes := hlabels
    name := ?_
    limit := hlength ▸ hq.nameLimit
    typeClass := ?_ }⟩
  · have hsplit := List.take_append_drop (info.questionEnd - 4 - 12) (packet.drop 12)
    rw [List.drop_drop, show 12 + (info.questionEnd - 4 - 12) = info.questionEnd - 4 by omega] at hsplit
    rw [← hname, slice, hsplit]
  · rw [List.length_drop]
    omega

/-! ### The third walk reads the labels -/

/-- One label more: a dot after what is there, then its text. -/
def joinLabel (acc : List UInt8) (label : List UInt8) : List UInt8 :=
  (if acc.isEmpty then acc else acc ++ [46]) ++ (Utf8.lossy label).map toAsciiLowercase

theorem foldl_joinLabel {acc : List UInt8} (hacc : acc ≠ []) (labels : List (List UInt8)) :
    labels.foldl joinLabel acc =
      acc ++ labels.flatMap (fun l => 46 :: (Utf8.lossy l).map toAsciiLowercase) := by
  induction labels generalizing acc with
  | nil => simp
  | cons l ls ih =>
    have hstep : joinLabel acc l = acc ++ 46 :: (Utf8.lossy l).map toAsciiLowercase := by
      simp [joinLabel, hacc]
    rw [List.foldl_cons, hstep, ih (by simp), List.flatMap_cons, List.append_assoc]

theorem foldl_joinLabel_nil (hlabels : LabelsUpTo 63 labels) :
    labels.foldl joinLabel [] = routingName labels := by
  cases labels with
  | nil => rfl
  | cons l ls =>
    have hl : l ≠ [] := List.ne_nil_of_length_pos (hlabels l List.mem_cons_self).1
    have hfirst : joinLabel [] l = (Utf8.lossy l).map toAsciiLowercase := by simp [joinLabel]
    have hne : (Utf8.lossy l).map toAsciiLowercase ≠ [] := by simpa using Utf8.lossy_ne_nil hl
    rw [List.foldl_cons, hfirst, foldl_joinLabel hne, routingName, List.map_cons]
    clear hfirst hne hl hlabels
    generalize (Utf8.lossy l).map toAsciiLowercase = front
    induction ls generalizing front with
    | nil => simp
    | cons m ms ih =>
      rw [List.map_cons, List.intercalate_cons_cons, ← ih, List.flatMap_cons]
      simp

theorem qnameLoop_wireName {packet : List UInt8} (hlabels : LabelsUpTo 63 labels) {qend fuel pos : Nat}
    (qname : Utf8.Text) (hdrop : packet.drop pos = wireName labels ++ tail) (hfuel : labels.length < fuel)
    (hend : pos + (wireName labels).length ≤ qend) :
    ∃ q, qnameLoop packet qend fuel pos qname = .ok q ∧ q.bytes = labels.foldl joinLabel qname.bytes := by
  induction labels generalizing fuel pos qname with
  | nil =>
    obtain ⟨k, rfl⟩ := Nat.exists_eq_add_of_lt hfuel
    obtain ⟨-, hbyte, hpos⟩ := root_at hdrop
    rw [qnameLoop, if_pos ⟨hpos, hend⟩]
    simp only [hbyte, if_true]
    exact ⟨qname, rfl, rfl⟩
  | cons l ls ih =>
    obtain ⟨k, rfl⟩ := Nat.exists_eq_add_of_lt hfuel
    obtain ⟨hl, hls⟩ := List.forall_mem_cons.mp hlabels
    have hat := label_at hdrop ⟨hl.1, hl.2.trans (by decide)⟩
    have hroom := hat.room
    rw [length_wireName_cons] at hend
    obtain ⟨q, hrest, hbytes⟩ := ih hls
      ((if qname.bytes.isEmpty then qname else qname.append dotText).append (labelText l)) hat.next
      (show ls.length < (l :: ls).length + k by simp; omega) (by omega)
    refine ⟨q, ?_, ?_⟩
    · rw [qnameLoop, if_pos (by omega)]
      simp only [hat.byte, hat.toNat, if_neg hat.ne_zero, label_top_bits hl.2, hat.slice_eq]
      rw [if_neg (by decide), if_neg (by omega), hrest]
    · rw [hbytes, List.foldl_cons, joinLabel, ← labelText_bytes]
      split_ifs <;> rfl

theorem QueryShape.qname (h : QueryShape packet labels tail) :
    ∃ qname, qnameFromQuestion packet (16 + (wireName labels).length) = .ok qname ∧
      qname.bytes = routingName labels := by
  have hheader := h.header
  have hlength : packet.length - 12 = (wireName labels).length + tail.length := by
    simpa using congrArg List.length h.name
  have htail := h.typeClass
  have hcount := length_le_wireName labels
  obtain ⟨q, hloop, hbytes⟩ := qnameLoop_wireName h.sizes Utf8.Text.empty h.name
    (show labels.length < packet.length + 1 by omega)
    (show 12 + (wireName labels).length ≤ 16 + (wireName labels).length by omega)
  refine ⟨q, ?_, hbytes.trans (foldl_joinLabel_nil h.sizes)⟩
  rw [qnameFromQuestion, isQuery_iff.mpr ⟨h.header, h.qr⟩, if_neg, hloop]
  simp only [Bool.not_true, Bool.false_or, decide_eq_true_eq]
  omega

/-! ### How long a routing name is -/

theorem length_routingName_le (labels : List (List UInt8)) :
    (routingName labels).length ≤ 3 * (wireName labels).length := by
  induction labels with
  | nil => simp [routingName]
  | cons l ls ih =>
    have hlossy := Utf8.length_lossy_le l
    rw [length_wireName_cons]
    cases ls with
    | nil =>
      simp only [routingName, List.map_cons, List.map_nil, List.intercalate_singleton, List.length_map]
      omega
    | cons m ms =>
      have hjoin : routingName (l :: m :: ms) =
          (Utf8.lossy l).map toAsciiLowercase ++ [46] ++ routingName (m :: ms) := List.intercalate_cons_cons
      rw [hjoin, List.length_append, List.length_append, List.length_map, List.length_singleton]
      omega

/-- The text is what `qname_from_question` returns for an accepted query. -/
def FromQuestion (qname : Utf8.Text) : Prop :=
  ∃ packet info, parseQueryFast packet = .ok info ∧ qnameFromQuestion packet info.questionEnd = .ok qname

/-- The first walk accepts exactly the packets of the shape, and on each of them the other two agree with
it. -/
theorem parseQueryFast_walks (packet : Packet) :
    ((∃ info, parseQueryFast packet = .ok info) ↔ ∃ labels tail, QueryShape packet labels tail) ∧
    ∀ info, parseQueryFast packet = .ok info → ∀ labels tail, QueryShape packet labels tail →
      info.questionEnd = 16 + (wireName labels).length ∧
      questionEnd packet = some info.questionEnd ∧
      ∃ qname, qnameFromQuestion packet info.questionEnd = .ok qname ∧
        qname.bytes = routingName labels := by
  refine ⟨⟨?_, ?_⟩, ?_⟩
  · rintro ⟨info, h⟩
    exact QueryShape.of_accepted h
  · rintro ⟨labels, tail, h⟩
    obtain ⟨info, hinfo, -⟩ := h.accepted
    exact ⟨info, hinfo⟩
  · intro info h labels tail hshape
    obtain ⟨info', hinfo, hend⟩ := hshape.accepted
    obtain rfl : info = info' := Except.ok.inj (h.symm.trans hinfo)
    rw [hend]
    exact ⟨rfl, hend ▸ (parseQueryFast_spec h).questionEnd_eq, hshape.qname⟩

/-- The wire limit bounds the text. -/
theorem FromQuestion.length_le {qname : Utf8.Text} (h : FromQuestion qname) : qname.bytes.length ≤ 765 := by
  obtain ⟨packet, info, hinfo, hqname⟩ := h
  obtain ⟨labels, tail, hshape⟩ := QueryShape.of_accepted hinfo
  obtain ⟨info', hinfo', hend⟩ := hshape.accepted
  obtain rfl := Except.ok.inj (hinfo.symm.trans hinfo')
  obtain ⟨qname', hqname', hbytes⟩ := hshape.qname
  rw [← hend] at hqname'
  obtain rfl := Except.ok.inj (hqname.symm.trans hqname')
  have hlimit := hshape.limit
  have hle := length_routingName_le labels
  rw [hbytes]
  omega

/-- The name `a`, from a query for its A record. -/
theorem fromQuestion_letter : FromQuestion ⟨[97], Utf8.valid_letter⟩ := by
  let query : Packet := [0x12, 0x34, 1, 0, 0, 1, 0, 0, 0, 0, 0, 0, 1, 97, 0, 0, 1, 0, 1]
  exact ⟨query, fastInfo query, by decide +kernel, by decide +kernel⟩

end PathDns
