import Mathlib.Data.List.DropRight
import PathDns.Dns.Qname
import PathDns.Lib.Join

/-!
# Names as texts

`qname_from_question` turns the labels of a name into one text. A label may hold any byte, a dot too, and
what is not UTF-8 is replaced, so two names can have one text. The text says as much as its pieces between
dots; for names whose labels are UTF-8 without dots the pieces are the labels. `encode_dns_name` goes the
other way, from a text to the labels between its dots.
-/

namespace PathDns

open Bytes Join

/-! ### The pieces of a routing name -/

/-- The labels with what is not UTF-8 replaced, in lower case, cut at every dot byte. -/
def pieces (labels : List (List UInt8)) : List (List UInt8) :=
  labels.flatMap (fun l => ((Utf8.lossy l).map toAsciiLowercase).splitOn 46)

/-- Every label is UTF-8 and has no dot byte. -/
def PlainName (labels : List (List UInt8)) : Prop := ∀ l ∈ labels, Utf8.valid l = true ∧ (46 : UInt8) ∉ l

variable {labels : List (List UInt8)}

theorem splitOn_routingName (h : labels ≠ []) : (routingName labels).splitOn 46 = pieces labels := by
  rw [routingName, splitOn_intercalate_parts 46 (by simpa using h), pieces, List.flatMap_map]

theorem routingName_ne_nil (hsizes : ∀ l ∈ labels, 1 ≤ l.length ∧ l.length ≤ 63) (h : labels ≠ []) :
    routingName labels ≠ [] := by
  rw [← foldl_joinLabel_nil hsizes]
  obtain ⟨l, ls, rfl⟩ := List.exists_cons_of_ne_nil h
  have hl : l ≠ [] := List.ne_nil_of_length_pos (hsizes l List.mem_cons_self).1
  have hne : (Utf8.lossy l).map toAsciiLowercase ≠ [] := by simpa using Utf8.lossy_ne_nil hl
  have hfirst : joinLabel [] l = (Utf8.lossy l).map toAsciiLowercase := by simp [joinLabel]
  rw [List.foldl_cons, hfirst, foldl_joinLabel hne]
  exact List.append_ne_nil_of_left_ne_nil hne _

theorem pieces_ne_nil (h : labels ≠ []) : pieces labels ≠ [] := by
  rw [← splitOn_routingName h]
  exact List.splitOn_ne_nil _ _

/-- Two names have one text exactly when they have the same pieces. -/
theorem routingName_eq_iff {la lb : List (List UInt8)} (ha : ∀ l ∈ la, 1 ≤ l.length ∧ l.length ≤ 63)
    (hb : ∀ l ∈ lb, 1 ≤ l.length ∧ l.length ≤ 63) :
    routingName la = routingName lb ↔ pieces la = pieces lb := by
  by_cases hla : la = [] <;> by_cases hlb : lb = []
  · simp [hla, hlb]
  · subst hla
    exact iff_of_false (routingName_ne_nil hb hlb).symm (pieces_ne_nil hlb).symm
  · subst hlb
    exact iff_of_false (routingName_ne_nil ha hla) (pieces_ne_nil hla)
  · rw [← splitOn_routingName hla, ← splitOn_routingName hlb]
    refine ⟨fun h => by rw [h], fun h => ?_⟩
    have hjoin := congrArg [(46 : UInt8)].intercalate h
    rwa [List.intercalate_splitOn, List.intercalate_splitOn] at hjoin

theorem toAsciiLowercase_ne_dot {b : UInt8} (h : b ≠ 46) : toAsciiLowercase b ≠ 46 := by
  rw [toAsciiLowercase]
  split_ifs with hletter
  · intro heq
    have hlo := UInt8.le_iff_toNat_le.mp hletter.1
    have hhi := UInt8.le_iff_toNat_le.mp hletter.2
    have hsum := congrArg UInt8.toNat heq
    rw [UInt8.toNat_add] at hsum
    simp at hlo hhi hsum
    omega
  · exact h

theorem PlainName.pieces_eq (h : PlainName labels) : pieces labels = lowerLabels labels := by
  induction labels with
  | nil => rfl
  | cons l ls ih =>
    obtain ⟨hvalid, hdot⟩ := h l List.mem_cons_self
    have hnone : (46 : UInt8) ∉ l.map toAsciiLowercase := by
      rw [List.mem_map]
      rintro ⟨b, hb, heq⟩
      exact toAsciiLowercase_ne_dot (fun hb46 => hdot (hb46 ▸ hb)) heq
    have hrest : pieces ls = lowerLabels ls := ih (fun m hm => h m (List.mem_cons_of_mem _ hm))
    rw [pieces, List.flatMap_cons, Utf8.lossy_of_valid hvalid, List.splitOn_eq_singleton hnone,
      lowerLabels_cons, ← hrest]
    rfl

/-! ### The wire form of a name -/

/-- The wire form of short labels says what the labels are. -/
theorem wireName_injective {la lb : List (List UInt8)} (ha : LabelsUpTo 63 la) (hb : LabelsUpTo 63 lb)
    (h : wireName la = wireName lb) : la = lb :=
  (wireName_append_inj (ha.mono (by decide)) (hb.mono (by decide)) (congrArg (· ++ []) h)).1

theorem sizes_lowerLabels (h : LabelsUpTo 63 labels) : LabelsUpTo 63 (lowerLabels labels) := by
  intro l hl
  obtain ⟨m, hm, rfl⟩ := List.mem_map.mp hl
  rw [List.length_map]
  exact h m hm

/-! ### From a text to a query -/

/-- A message about a text. -/
def quoting (message : String) (text : List UInt8) : List UInt8 :=
  message.toUTF8.toList ++ [39] ++ text ++ [39]

/-- `trim_end_matches('.')`. -/
def trimEndDots (name : List UInt8) : List UInt8 := name.rdropWhile (· == 46)

/-- The label loop of `encode_dns_name`; errors are the bytes of their messages. -/
def encodeLabels (name : List UInt8) : List (List UInt8) → (total : Nat) → (out : List UInt8) →
    Except (List UInt8) (List UInt8)
  | [], _, out => .ok (out ++ [0])
  | label :: labels, total, out =>
    let len := label.length
    if len = 0 then .error (quoting "DNS name contains an empty label: " name)
    else if 63 < len then .error (quoting s!"DNS label too long ({len} bytes): " label)
    else
      let total := total + (1 + len)
      if 255 < total then .error (quoting "DNS name exceeds 255-byte wire limit: " name)
      else encodeLabels name labels total (out ++ [UInt8.ofNat len] ++ label)

def encodeDnsName (name : Utf8.Text) : Except (List UInt8) (List UInt8) :=
  let name := trimEndDots name.bytes
  if name.isEmpty then .ok [0] else encodeLabels name (name.splitOn 46) 1 []

/-- The header of a query: ID 0, RD, one question. -/
def syntheticHeader : List UInt8 := [0, 0, 1, 0, 0, 1, 0, 0, 0, 0, 0, 0]

def syntheticQuery (name : Utf8.Text) (qtype : UInt16) : Except (List UInt8) (Packet × Nat) := do
  let wire ← encodeDnsName name
  let buf := syntheticHeader ++ wire ++ encU16be qtype.toNat ++ [0, 1]
  return (buf, buf.length)

theorem length_wireName (labels : List (List UInt8)) :
    (wireName labels).length = 1 + (labels.map (1 + ·.length)).sum := by
  induction labels with
  | nil => rfl
  | cons l ls ih =>
    rw [length_wireName_cons, ih, List.map_cons, List.sum_cons]
    omega

/-- What the loop accepts, and what it has written then. -/
theorem encodeLabels_eq_ok_iff {name out wire : List UInt8} {total : Nat} (htotal : total ≤ 255) :
    encodeLabels name labels total out = .ok wire ↔
      (∀ l ∈ labels, 1 ≤ l.length ∧ l.length ≤ 63) ∧ total + (labels.map (1 + ·.length)).sum ≤ 255 ∧
        wire = out ++ wireName labels := by
  induction labels generalizing total out with
  | nil => simp [encodeLabels, wireName, htotal, eq_comm]
  | cons l ls ih =>
    rw [encodeLabels, List.forall_mem_cons, List.map_cons, List.sum_cons]
    simp only
    split_ifs with hzero hlong hlimit
    · simp [hzero]
    · simp only [false_iff]
      rintro ⟨⟨⟨-, hle⟩, -⟩, -⟩
      omega
    · simp only [false_iff]
      rintro ⟨-, hle, -⟩
      omega
    · have hsize : 1 ≤ l.length ∧ l.length ≤ 63 := by omega
      have hwire : out ++ [UInt8.ofNat l.length] ++ l ++ wireName ls = out ++ wireName (l :: ls) := by
        rw [wireName_cons]
        simp
      rw [ih (by omega), hwire, Nat.add_assoc]
      simp [hsize]

/-! ### The names that can be encoded -/

/-- Empty, or labels of 1 to 63 bytes with dots between them and a wire form of at most 255 bytes. -/
def Encodable (name : List UInt8) : Prop :=
  name = [] ∨ ∃ labels : List (List UInt8), labels ≠ [] ∧ name = [46].intercalate labels ∧
    (∀ l ∈ labels, (46 : UInt8) ∉ l ∧ 1 ≤ l.length ∧ l.length ≤ 63) ∧
    1 + (labels.map (1 + ·.length)).sum ≤ 255

theorem encodable_iff_splitOn {name : List UInt8} (hne : name ≠ []) : Encodable name ↔
    (∀ l ∈ name.splitOn 46, 1 ≤ l.length ∧ l.length ≤ 63) ∧
      1 + ((name.splitOn 46).map (1 + ·.length)).sum ≤ 255 := by
  constructor
  · rintro (hnil | ⟨labels, hlabels, rfl, hsizes, hlimit⟩)
    · exact absurd hnil hne
    · rw [List.splitOn_intercalate 46 (fun l hl => (hsizes l hl).1) hlabels]
      exact ⟨fun l hl => (hsizes l hl).2, hlimit⟩
  · rintro ⟨hsizes, hlimit⟩
    exact .inr ⟨name.splitOn 46, List.splitOn_ne_nil 46 name, (List.intercalate_splitOn 46).symm,
      fun l hl => ⟨not_mem_of_mem_splitOn hl, hsizes l hl⟩, hlimit⟩

theorem encodeDnsName_eq_ok_iff {name : Utf8.Text} {wire : List UInt8} :
    encodeDnsName name = .ok wire ↔ Encodable (trimEndDots name.bytes) ∧
      wire = wireName (if trimEndDots name.bytes = [] then [] else (trimEndDots name.bytes).splitOn 46) := by
  rw [encodeDnsName]
  generalize trimEndDots name.bytes = trimmed
  by_cases hempty : trimmed = []
  · simp only [hempty, Encodable, List.isEmpty_nil, if_true, true_or, true_and, Except.ok.injEq]
    exact eq_comm
  · simp only [List.isEmpty_iff, hempty, if_false]
    rw [encodeLabels_eq_ok_iff (by decide), encodable_iff_splitOn hempty, List.nil_append, and_assoc]

theorem valid_of_intercalate (h : Utf8.valid ([46].intercalate labels) = true) :
    ∀ l ∈ labels, Utf8.valid l = true := by
  induction labels with
  | nil => simp
  | cons l ls ih =>
    cases ls with
    | nil => simpa using h
    | cons m ms =>
      rw [List.intercalate_cons_cons, List.append_assoc, List.singleton_append] at h
      obtain ⟨hl, hrest⟩ := Utf8.valid_of_append_ascii (by decide) h
      exact List.forall_mem_cons.mpr ⟨hl, ih hrest⟩

theorem valid_trimEndDots (name : Utf8.Text) : Utf8.valid (trimEndDots name.bytes) = true := by
  have hbytes : ∀ bytes : List UInt8, Utf8.valid bytes = true → Utf8.valid (trimEndDots bytes) = true := by
    intro bytes h
    induction bytes using List.reverseRecOn with
    | nil => exact h
    | append_singleton bytes b ih =>
      rw [trimEndDots, List.rdropWhile_concat]
      split_ifs with hdot
      · obtain rfl : b = 46 := by simpa using hdot
        exact ih (Utf8.valid_of_append_ascii (by decide) h).1
      · exact h
  exact hbytes name.bytes name.valid

/-- The routing name of UTF-8 labels is the text they were cut from, in lower case. -/
theorem routingName_of_valid (h : ∀ l ∈ labels, Utf8.valid l = true) :
    routingName labels = ([46].intercalate labels).map toAsciiLowercase := by
  have hlossy : labels.map (fun l => (Utf8.lossy l).map toAsciiLowercase) =
      labels.map (List.map toAsciiLowercase) :=
    List.map_congr_left fun l hl => by rw [Utf8.lossy_of_valid (h l hl)]
  rw [routingName, hlossy, map_intercalate]
  rfl

theorem queryShape_synthetic {tail : List UInt8} (hsizes : ∀ l ∈ labels, 1 ≤ l.length ∧ l.length ≤ 63)
    (hlimit : (wireName labels).length ≤ 255) (htail : 4 ≤ tail.length) :
    QueryShape (syntheticHeader ++ wireName labels ++ tail) labels tail where
  header := by simp [syntheticHeader]
  qr := by simp [syntheticHeader, byteAt]
  opcode := by simp [syntheticHeader, byteAt]
  qdcount := by simp [syntheticHeader, u16be, byteAt]
  sizes := hsizes
  name := by simp [syntheticHeader]
  limit := hlimit
  typeClass := htail

/-- The names that are encoded, and the query for such a name: it is accepted with the end that was
returned, and its routing name is the text without trailing dots in lower case. -/
theorem syntheticQuery_roundTrip (name : Utf8.Text) :
    ((∃ wire, encodeDnsName name = .ok wire) ↔ Encodable (trimEndDots name.bytes)) ∧
    ∀ wire, encodeDnsName name = .ok wire → ∀ qtype, ∃ packet questionEnd info qname,
      syntheticQuery name qtype = .ok (packet, questionEnd) ∧
      parseQueryFast packet = .ok info ∧ info.questionEnd = questionEnd ∧
      qnameFromQuestion packet questionEnd = .ok qname ∧
      qname.bytes = (trimEndDots name.bytes).map toAsciiLowercase := by
  refine ⟨?_, ?_⟩
  · simp only [encodeDnsName_eq_ok_iff, exists_and_left, exists_eq, and_true]
  · intro wire hwire qtype
    obtain ⟨hencodable, rfl⟩ := encodeDnsName_eq_ok_iff.mp hwire
    have htext : ∃ labels, (if trimEndDots name.bytes = [] then [] else (trimEndDots name.bytes).splitOn 46) =
        labels ∧ trimEndDots name.bytes = [46].intercalate labels ∧
        (∀ l ∈ labels, 1 ≤ l.length ∧ l.length ≤ 63) ∧ (wireName labels).length ≤ 255 := by
      by_cases hempty : trimEndDots name.bytes = []
      · exact ⟨[], by rw [if_pos hempty], hempty, by simp, by decide⟩
      · obtain ⟨hsizes, hlimit⟩ := (encodable_iff_splitOn hempty).mp hencodable
        exact ⟨_, by rw [if_neg hempty], (List.intercalate_splitOn 46).symm, hsizes,
          length_wireName _ ▸ hlimit⟩
    obtain ⟨labels, hlabels, htrimmed, hsizes, hlimit⟩ := htext
    rw [hlabels] at hwire
    have hshape := queryShape_synthetic hsizes hlimit
      (show 4 ≤ (encU16be qtype.toNat ++ [0, 1]).length from Nat.le_refl 4)
    obtain ⟨info, hinfo, hend⟩ := hshape.accepted
    obtain ⟨qname, hqname, hbytes⟩ := hshape.qname
    have hlength : (syntheticHeader ++ wireName labels ++ (encU16be qtype.toNat ++ [0, 1])).length =
        16 + (wireName labels).length := by
      simp only [List.length_append, syntheticHeader, encU16be, List.length_cons, List.length_nil]
      omega
    refine ⟨_, _, info, qname, ?_, hinfo, hend, hqname, ?_⟩
    · simp only [syntheticQuery, hwire, bind, Except.bind, pure, Except.pure, List.append_assoc] at hlength ⊢
      rw [hlength]
    · rw [hbytes, htrimmed]
      exact routingName_of_valid (valid_of_intercalate (htrimmed ▸ valid_trimEndDots name))

end PathDns
