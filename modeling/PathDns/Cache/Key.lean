import PathDns.Dns.Question
import PathDns.Dns.Variant

/-!
# Cache keys (`cache.rs`)

A key is finished from the hash state that query parsing carries out. For an accepted query it is the
FNV-1a hash of one byte stream (`cacheKey_eq_fnv`): the question in lower case, then the EDNS variant,
with the ECS part hashed as absent when `stripEcs` is set. The reference `cacheKeyWithVariant`, which
hashes the name in a loop of its own, gives the same key (`cacheKey_eq_reference`).
-/

namespace PathDns

open Bytes

abbrev CacheKey := UInt64

/-- A way to derive the key of a query with its variant, with ECS or without. -/
abbrev KeyFunction := Packet → FastQueryInfo → QueryVariant → Bool → CacheKey

/-- `b as u8`. -/
def boolByte (b : Bool) : UInt8 := if b then 1 else 0

/-- `invalid_shape_key` of a release build, where its `debug_assert!` is off. -/
def invalidShapeKey (query : Packet) (questionEnd : Nat) : CacheKey :=
  (((Fnv1a.new.write query).writeSep).write (encLe 8 questionEnd)).finish

def finishCacheKey (h : Fnv1a) (question : List UInt8) (posAfterQname : Nat) (v : QueryVariant)
    (stripEcs : Bool) : CacheKey :=
  let h := h.write (question.drop posAfterQname)
  let h := h.writeByte (boolByte v.hasOpt)
  let h := h.writeByte (boolByte v.doBit)
  let h := h.writeByte v.ednsVersion
  let h := h.writeByte (boolByte v.rd)
  let h := h.writeByte (boolByte v.ad)
  let h := h.writeByte (boolByte v.cd)
  let h :=
    if stripEcs then h.writeByte 0
    else
      match v.ecsSrc with
      | none => h.writeByte 0
      | some ecs => ((h.writeByte 1).write ecs.addr).writeByte ecs.prefixLen
  (h.write (encLe 8 v.extraOptsHash.toNat)).finish

def cacheKeyWithVariantFromQnameHash (query : Packet) (questionEnd : Nat) (qnameHash : Fnv1a)
    (qnameHashEnd : Nat) (v : QueryVariant) (stripEcs : Bool) : CacheKey :=
  if query.length < 12 ∨ questionEnd < 16 ∨ query.length < questionEnd then
    invalidShapeKey query questionEnd
  else finishCacheKey qnameHash (slice query 12 questionEnd) qnameHashEnd v stripEcs

/-- The loop of `Fnv1a::write_qname_wire`: hashes one label a step, without any check. -/
def writeQnameWireLoop (question : List UInt8) : Nat → Nat → Fnv1a → Fnv1a × Nat
  | 0, pos, h => (h, pos)
  | fuel + 1, pos, h =>
    if pos < question.length then
      let len := byteAt question pos
      let h := h.writeByte len
      let pos := pos + 1
      if len = 0 then (h, pos)
      else
        let endPos := min (pos + len.toNat) question.length
        writeQnameWireLoop question fuel endPos
          (h.write ((slice question pos endPos).map toAsciiLowercase))
    else (h, pos)

/-- `Fnv1a::write_qname_wire`: the state behind the name, and the offset behind its last label. -/
def Fnv1a.writeQnameWire (h : Fnv1a) (question : List UInt8) : Fnv1a × Nat :=
  writeQnameWireLoop question (question.length + 1) 0 h

/-- `cache_key_with_variant`: the key computed from the bytes of the query alone. -/
def cacheKeyWithVariant (query : Packet) (questionEnd : Nat) (v : QueryVariant) (stripEcs : Bool) :
    CacheKey :=
  if query.length < 12 ∨ questionEnd < 16 ∨ query.length < questionEnd then
    invalidShapeKey query questionEnd
  else
    let question := slice query 12 questionEnd
    let (h, pos) := Fnv1a.new.writeQnameWire question
    finishCacheKey h question pos v stripEcs

/-- The key of a parsed query, as `get_into_with_ecs_fallback` and the resolver derive it. -/
def cacheKey (query : Packet) (fast : FastQueryInfo) (v : QueryVariant) (stripEcs : Bool) : CacheKey :=
  cacheKeyWithVariantFromQnameHash query fast.questionEnd fast.qnameWireHash fast.qnameWireHashEnd v
    stripEcs

/-! ### The key as the hash of one stream -/

/-- The bytes a key hashes for the ECS source. -/
def ecsBytes (v : QueryVariant) (stripEcs : Bool) : List UInt8 :=
  if stripEcs then [0]
  else
    match v.ecsSrc with
    | none => [0]
    | some ecs => 1 :: (ecs.addr ++ [ecs.prefixLen])

/-- The flag bytes a key hashes. -/
def flagBytes (v : QueryVariant) : List UInt8 :=
  [boolByte v.hasOpt, boolByte v.doBit, v.ednsVersion, boolByte v.rd, boolByte v.ad, boolByte v.cd]

/-- All the bytes a key hashes, in order. -/
def keyStream (query : Packet) (questionEnd : Nat) (v : QueryVariant) (stripEcs : Bool) : List UInt8 :=
  (slice query 12 (questionEnd - 4)).map toAsciiLowercase ++ slice query (questionEnd - 4) questionEnd ++
    flagBytes v ++ ecsBytes v stripEcs ++ encLe 8 v.extraOptsHash.toNat

theorem finishCacheKey_eq (h : Fnv1a) (question : List UInt8) (pos : Nat) (v : QueryVariant)
    (stripEcs : Bool) :
    finishCacheKey h question pos v stripEcs =
      (h.write (question.drop pos ++ flagBytes v ++ ecsBytes v stripEcs ++
        encLe 8 v.extraOptsHash.toNat)).finish := by
  have hflags : ∀ g : Fnv1a, g.write (flagBytes v) =
      (((((g.writeByte (boolByte v.hasOpt)).writeByte (boolByte v.doBit)).writeByte
        v.ednsVersion).writeByte (boolByte v.rd)).writeByte (boolByte v.ad)).writeByte
        (boolByte v.cd) := fun _ => rfl
  simp only [finishCacheKey, Fnv1a.write_append, hflags, ecsBytes]
  cases stripEcs with
  | true => rfl
  | false =>
    cases v.ecsSrc with
    | none => rfl
    | some ecs => simp [Fnv1a.write_cons, Fnv1a.write_append]

variable {query : Packet} {fast : FastQueryInfo}

/-- The key of an accepted query is the hash of its stream. -/
theorem cacheKey_eq_fnv (hq : AcceptedQuery query fast) (v : QueryVariant) (stripEcs : Bool) :
    cacheKey query fast v stripEcs = fnv (keyStream query fast.questionEnd v stripEcs) := by
  have hge := hq.questionEnd_ge
  have hle := hq.questionEnd_le
  have hlen : (slice query 12 fast.questionEnd).drop fast.qnameWireHashEnd =
      slice query (fast.questionEnd - 4) fast.questionEnd := by
    rw [hq.hashEnd, slice, slice, List.drop_take, List.drop_drop,
      show 12 + (fast.questionEnd - 16) = fast.questionEnd - 4 by omega,
      show fast.questionEnd - 12 - (fast.questionEnd - 16) =
        fast.questionEnd - (fast.questionEnd - 4) by omega]
  rw [cacheKey, cacheKeyWithVariantFromQnameHash, if_neg (by omega), finishCacheKey_eq, hlen, hq.hash,
    fnv, keyStream]
  simp only [← Fnv1a.write_append, List.append_assoc]

/-! ### The reference key -/

theorem writeQnameWireLoop_wireName {question rest : List UInt8} {labels : List (List UInt8)}
    {fuel pos : Nat} (h : Fnv1a) (hlabels : LabelsUpTo 63 labels)
    (hq : question.drop pos = wireName labels ++ rest) (hfuel : labels.length < fuel) :
    writeQnameWireLoop question fuel pos h =
      (h.write ((wireName labels).map toAsciiLowercase), pos + (wireName labels).length) := by
  induction labels generalizing fuel pos h with
  | nil =>
    obtain ⟨k, rfl⟩ := Nat.exists_eq_add_of_lt hfuel
    obtain ⟨-, hzero, hlt⟩ := root_at hq
    rw [writeQnameWireLoop, if_pos hlt]
    simp only [hzero, if_true]
    rfl
  | cons l labels ih =>
    obtain ⟨k, rfl⟩ := Nat.exists_eq_add_of_lt hfuel
    obtain ⟨hl, hls⟩ := List.forall_mem_cons.mp hlabels
    have hat := label_at hq ⟨hl.1, hl.2.trans (by decide)⟩
    have hroom := hat.room
    rw [writeQnameWireLoop, if_pos (by omega)]
    simp only [hat.byte, hat.toNat, if_neg hat.ne_zero]
    rw [Nat.min_eq_left hroom, hat.slice_eq, ih _ hls hat.next (by simp; omega), length_wireName_cons,
      wireName_cons, List.cons_append, List.map_cons, List.map_append, Fnv1a.write_cons, Fnv1a.write_append,
      toAsciiLowercase_length (by rw [hat.toNat]; exact hl.2), ← Nat.add_assoc, ← Nat.add_assoc]

/-- The key finished from the carried hash state is the key computed from the packet alone. -/
theorem cacheKey_eq_reference (hq : AcceptedQuery query fast) (v : QueryVariant) (stripEcs : Bool) :
    cacheKey query fast v stripEcs = cacheKeyWithVariant query fast.questionEnd v stripEcs := by
  have hge := hq.questionEnd_ge
  have hle := hq.questionEnd_le
  obtain ⟨labels, hlabels, hname⟩ := hq.name
  have hlen : (wireName labels).length = fast.questionEnd - 16 := by
    rw [← hname, length_slice (by omega)]
    omega
  have hstart : (slice query 12 fast.questionEnd).drop 0 =
      wireName labels ++ slice query (fast.questionEnd - 4) fast.questionEnd := by
    rw [List.drop_zero, ← hname, slice_append_slice (by omega) (by omega)]
  have hwalk : Fnv1a.new.writeQnameWire (slice query 12 fast.questionEnd) =
      (fast.qnameWireHash, fast.qnameWireHashEnd) := by
    have hcount := length_le_wireName labels
    have hquestion : (slice query 12 fast.questionEnd).length = fast.questionEnd - 12 := length_slice hle
    rw [Fnv1a.writeQnameWire, writeQnameWireLoop_wireName Fnv1a.new hlabels hstart (by omega), hq.hash,
      hname, hq.hashEnd, hlen, Nat.zero_add]
  rw [cacheKey, cacheKeyWithVariantFromQnameHash, cacheKeyWithVariant, if_neg (by omega),
    if_neg (by omega)]
  simp only [hwalk]

/-! ### Queries that share a key -/

/-- Two variants that agree, apart from their ECS sources when these are stripped. -/
structure QueryVariant.Agree (stripEcs : Bool) (v w : QueryVariant) : Prop where
  rest : { v with ecsSrc := none } = { w with ecsSrc := none }
  ecs : stripEcs = false → v.ecsSrc = w.ecsSrc

theorem QueryVariant.Agree.bytes_eq {stripEcs : Bool} {v w : QueryVariant} (h : v.Agree stripEcs w) :
    flagBytes v ++ ecsBytes v stripEcs ++ encLe 8 v.extraOptsHash.toNat =
      flagBytes w ++ ecsBytes w stripEcs ++ encLe 8 w.extraOptsHash.toNat := by
  have hflags := congrArg flagBytes h.rest
  change flagBytes v = flagBytes w at hflags
  have hextra := congrArg QueryVariant.extraOptsHash h.rest
  change v.extraOptsHash = w.extraOptsHash at hextra
  have hecs : ecsBytes v stripEcs = ecsBytes w stripEcs := by
    rw [ecsBytes, ecsBytes]
    cases stripEcs with
    | true => rfl
    | false => rw [h.ecs rfl]
  rw [hflags, hecs, hextra]

theorem AcceptedQuery.lower_question (hq : AcceptedQuery query fast) {labels : List (List UInt8)}
    {typeClass : List UInt8} (hlabels : ∀ l ∈ labels, 1 ≤ l.length ∧ l.length ≤ 63)
    (hfour : typeClass.length = 4) (h : slice query 12 fast.questionEnd = wireName labels ++ typeClass) :
    (slice query 12 (fast.questionEnd - 4)).map toAsciiLowercase ++
        slice query (fast.questionEnd - 4) fast.questionEnd =
      wireName (lowerLabels labels) ++ typeClass := by
  have hge := hq.questionEnd_ge
  have hle := hq.questionEnd_le
  rw [← slice_append_slice (show 12 ≤ fast.questionEnd - 4 by omega) (Nat.sub_le _ 4)] at h
  have htail : (slice query (fast.questionEnd - 4) fast.questionEnd).length = typeClass.length := by
    rw [length_slice hle, hfour]
    omega
  obtain ⟨hname, htype⟩ := List.append_inj' h htail
  rw [hname, htype, lower_wireName hlabels]

/-- The key of an accepted query does not depend on the hash state it is finished from: it is the one
computed from the packet alone. Queries with the same question and variants that agree share it. -/
theorem cacheKey_determined {query : Packet} {fast : FastQueryInfo} (h : parseQueryFast query = .ok fast)
    (stripEcs : Bool) :
    (∀ v, cacheKey query fast v stripEcs =
      cacheKeyWithVariant query fast.questionEnd v stripEcs) ∧
    ∀ query' fast' v v', parseQueryFast query' = .ok fast' →
      SameQuestion (slice query 12 fast.questionEnd) (slice query' 12 fast'.questionEnd) →
      v.Agree stripEcs v' → cacheKey query fast v stripEcs = cacheKey query' fast' v' stripEcs := by
  have hq := parseQueryFast_spec h
  refine ⟨fun v => cacheKey_eq_reference hq v stripEcs, ?_⟩
  intro query' fast' v v' h' hsame hagree
  have hq' := parseQueryFast_spec h'
  obtain ⟨la, lb, typeClass, hla, hfour, ha, hb, hlow⟩ := hsame
  have hlb := of_lowerLabels_eq hlow hla
  have hquestions := (hq.lower_question hla hfour ha).trans
    (hlow ▸ (hq'.lower_question hlb hfour hb).symm)
  have hvariants := hagree.bytes_eq
  rw [cacheKey_eq_fnv hq, cacheKey_eq_fnv hq', keyStream, keyStream]
  rw [List.append_assoc, List.append_assoc, hquestions, ← List.append_assoc (flagBytes v), hvariants]
  simp only [List.append_assoc]

/-- A query of type A for the name of one letter. -/
def askFor (letter : UInt8) : Packet := [0, 1, 1, 0, 0, 1, 0, 0, 0, 0, 0, 0, 1, letter, 0, 0, 1, 0, 1]

theorem cacheKey_determined_sample :
    parseQueryFast (askFor 97) = .ok (fastInfo (askFor 97)) ∧
    cacheKey (askFor 97) (fastInfo (askFor 97)) (.noEdns true false false) false =
      cacheKey (askFor 65) (fastInfo (askFor 65)) (.noEdns true false false) false := by
  have h : parseQueryFast (askFor 97) = .ok (fastInfo (askFor 97)) := by decide +kernel
  refine ⟨h, (cacheKey_determined h false).2 _ _ _ _ (by decide +kernel) ?_ ⟨rfl, fun _ => rfl⟩⟩
  exact ⟨[[97]], [[65]], [0, 1, 0, 1], by decide, rfl, by decide +kernel, by decide +kernel, by decide⟩

end PathDns
