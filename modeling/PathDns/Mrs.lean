import Mathlib.Data.List.GetD
import PathDns.Lib.Louds
import PathDns.Lib.Search
import PathDns.Lib.Utf8

/-!
# Domain sets of `.mrs` files (`mrs.rs`)

The succinct trie of a binary rule set: bitmaps with rank and select queries, and the depth-first walk that
gives the stored patterns back. The walk of a trie laid out breadth first emits every pattern of the set
once.
-/

namespace PathDns

open BitRank Louds

/-! ## Rank and select -/

/-- The running counts of `RankBitmap::new`. -/
def RankBitmap.countsFrom (acc : Nat) : List (BitVec 64) → List Nat
  | [] => [acc]
  | word :: words => acc :: countsFrom (acc + countOnes word) words

/-- `RankBitmap`: `prefixes[w]` set bits are among the first `w` words. -/
structure RankBitmap where
  words : List (BitVec 64)
  prefixes : List Nat
  counted : prefixes = RankBitmap.countsFrom 0 words

/-- `select1_in_word`: the position of the `k`th set bit of a word. -/
def select1InWord : (k : Nat) → (word : BitVec 64) → Option Nat
  | 0, word => if word = 0#64 then none else some (trailingZeros word)
  | remaining + 1, word =>
    if word = 0#64 then none else select1InWord remaining (word &&& (word - 1#64))

namespace RankBitmap

def new (words : List (BitVec 64)) : RankBitmap := ⟨words, countsFrom 0 words, rfl⟩

variable (b : RankBitmap)

def totalBits : Nat := b.words.length * 64

def get (i : Nat) : Option Bool :=
  if b.totalBits ≤ i then none
  else (b.words[i >>> 6]?).map (fun word : BitVec 64 => (word >>> (i &&& 63) &&& 1#64) != 0#64)

/-- `rank1`: the set bits before `i`. -/
def rank1 (i : Nat) : Option Nat :=
  if b.totalBits < i then none
  else
    let wordIdx := i >>> 6
    let bit := i &&& 63
    let mask := if bit = 0 then 0#64 else BitVec.allOnes 64 >>> (64 - bit)
    let word := (b.words[wordIdx]?).getD 0#64
    (b.prefixes[wordIdx]?).map (fun count => count + countOnes (word &&& mask))

/-- `rank0`: the clear bits before `i`. -/
def rank0 (i : Nat) : Option Nat := (b.rank1 i).map (fun ones => i - ones)

/-- `select1`: the position of the `k`th set bit. -/
def select1 (k : Nat) : Option Nat :=
  match Search.partitionPoint (fun c => decide (c ≤ k)) b.prefixes with
  | 0 => none
  | wordIdx + 1 => do
    let word ← b.words[wordIdx]?
    let count ← b.prefixes[wordIdx]?
    let within := k - count
    let pos ← select1InWord within word
    some (wordIdx * 64 + pos)

/-- All bits, word by word. -/
def bits : List Bool := b.words.flatMap wordBits

theorem length_bits : b.bits.length = b.totalBits := by
  simp [bits, totalBits, List.length_flatMap, List.map_const', List.sum_replicate]

variable {i : Nat}

theorem length_flatMap_take (h : i ≤ b.words.length) : ((b.words.take i).flatMap wordBits).length = i * 64 := by
  simp [List.length_flatMap, List.map_const', List.sum_replicate, Nat.min_eq_left h]

theorem take_bits (h : i ≤ b.words.length) : b.bits.take (i * 64) = (b.words.take i).flatMap wordBits := by
  have hsplit : b.bits = (b.words.take i).flatMap wordBits ++ (b.words.drop i).flatMap wordBits := by
    rw [← List.flatMap_append, List.take_append_drop, bits]
  rw [hsplit, List.take_append_of_le_length (length_flatMap_take b h).ge]
  exact List.take_of_length_le (length_flatMap_take b h).le

theorem getElem?_countsFrom (words : List (BitVec 64)) (acc i : Nat) (h : i ≤ words.length) :
    (countsFrom acc words)[i]? = some (acc + ((words.take i).flatMap wordBits).count true) := by
  induction words generalizing acc i with
  | nil =>
    obtain rfl : i = 0 := by simpa using h
    simp [countsFrom]
  | cons word words ih =>
    cases i with
    | zero => simp [countsFrom]
    | succ i =>
      rw [countsFrom, List.getElem?_cons_succ, ih _ _ (by simpa using h), List.take_succ_cons,
        List.flatMap_cons, List.count_append, countOnes, Nat.add_assoc]

theorem getElem?_prefixes (h : i ≤ b.words.length) :
    b.prefixes[i]? = some ((b.bits.take (i * 64)).count true) := by
  rw [b.counted, getElem?_countsFrom _ _ _ h, take_bits b h, Nat.zero_add]

theorem length_prefixes : b.prefixes.length = b.words.length + 1 := by
  have hlen : ∀ (words : List (BitVec 64)) (acc : Nat),
      (countsFrom acc words).length = words.length + 1 := by
    intro words
    induction words with
    | nil => intro acc; rfl
    | cons word words ih => intro acc; simp [countsFrom, ih]
  rw [b.counted, hlen]

theorem of_getElem?_prefixes {c : Nat} (h : b.prefixes[i]? = some c) :
    i ≤ b.words.length ∧ c = (b.bits.take (i * 64)).count true := by
  have hi : i ≤ b.words.length := by
    have := (List.getElem?_eq_some_iff.mp h).1
    rw [length_prefixes] at this
    omega
  rw [getElem?_prefixes b hi] at h
  exact ⟨hi, (Option.some.inj h).symm⟩

variable {word : BitVec 64}

theorem take_drop_bits (h : b.words[i]? = some word) : (b.bits.drop (i * 64)).take 64 = wordBits word := by
  have hle : i ≤ b.words.length := (List.getElem?_eq_some_iff.mp h).1.le
  rw [bits, flatMap_eq_of_getElem? wordBits h, ← length_flatMap_take b hle, List.drop_left,
    List.take_append_of_le_length (by simp)]
  exact List.take_of_length_le (by simp)

theorem wordIdx_lt (h : i < b.totalBits) : i / 64 < b.words.length := by
  rw [totalBits] at h
  omega

theorem shift_six (i : Nat) : i >>> 6 = i / 64 := Nat.shiftRight_eq_div_pow i 6

theorem and_sixty_three (i : Nat) : i &&& 63 = i % 64 := Nat.and_two_pow_sub_one_eq_mod i 6

theorem bits_eq_wordBits (h : b.words[i / 64]? = some word) : b.bits[i]? = some (word.getLsbD (i % 64)) := by
  have hlt : i % 64 < 64 := Nat.mod_lt _ (by decide)
  rw [← getElem?_wordBits word hlt, ← take_drop_bits b h, List.getElem?_take_of_lt hlt,
    List.getElem?_drop, Nat.mul_comm, Nat.div_add_mod]

theorem get_eq (i : Nat) : b.get i = b.bits[i]? := by
  rw [get]
  split
  next h => rw [List.getElem?_eq_none (by rw [length_bits]; exact h)]
  next h =>
    have hlt := wordIdx_lt b (Nat.not_le.mp h)
    rw [shift_six, and_sixty_three, List.getElem?_eq_getElem hlt,
      bits_eq_wordBits b (List.getElem?_eq_getElem hlt)]
    rw [Option.map_some, shift_and_one _ _ (by decide)]

theorem count_take_bits (h : b.words[i / 64]? = some word) :
    (b.bits.take i).count true =
      (b.bits.take (i / 64 * 64)).count true + ((wordBits word).take (i % 64)).count true := by
  have hlt : i % 64 ≤ 64 := (Nat.mod_lt _ (by decide)).le
  have hsplit : b.bits.take i = b.bits.take (i / 64 * 64) ++ (wordBits word).take (i % 64) := by
    rw [← take_drop_bits b h, List.take_take, Nat.min_eq_left hlt, ← List.take_add, Nat.mul_comm,
      Nat.div_add_mod]
  rw [hsplit, List.count_append]

theorem rank1_eq (h : i ≤ b.bits.length) : b.rank1 i = some ((b.bits.take i).count true) := by
  rw [length_bits] at h
  have hidx : i / 64 ≤ b.words.length := by
    rw [totalBits] at h
    omega
  simp only [rank1, if_neg (Nat.not_lt.mpr h), shift_six, and_sixty_three, getElem?_prefixes b hidx,
    Option.map_some, Option.some.injEq]
  by_cases hbit : i % 64 = 0
  · have hmul : i / 64 * 64 = i := by omega
    have hnone : countOnes (0#64) = 0 := by decide
    rw [if_pos hbit, BitVec.and_zero, hmul, hnone, Nat.add_zero]
  · -- a partial word is there
    have hlt : i / 64 < b.words.length := by
      rw [totalBits] at h
      omega
    have hword := List.getElem?_eq_getElem hlt
    rw [if_neg hbit, hword, Option.getD_some, countOnes_and_mask _ (by omega), count_take_bits b hword]

theorem rank0_eq (h : i ≤ b.bits.length) : b.rank0 i = some (i - (b.bits.take i).count true) := by
  rw [rank0, rank1_eq b h, Option.map_some]

variable {k p : Nat}

theorem select1InWord_eq (h : Nth (wordBits word) k p) : select1InWord k word = some p := by
  have hne : ∀ {k : Nat} {word : BitVec 64}, Nth (wordBits word) k p → word ≠ 0#64 := by
    rintro k _ h rfl
    have := h.set
    rw [getElem?_wordBits _ (by simpa using h.lt_length)] at this
    simp at this
  induction k generalizing word with
  | zero =>
    rw [select1InWord, if_neg (hne h), (nth_trailingZeros (hne h)).unique h]
  | succ k ih =>
    rw [select1InWord, if_neg (hne h)]
    exact ih (h.and_pred (hne h))

/-- The words before the one of the `k`th set bit are those whose counts are at most `k`. -/
theorem partitionPoint_prefixes (h : Nth b.bits k p) :
    Search.partitionPoint (fun c => decide (c ≤ k)) b.prefixes = p / 64 + 1 := by
  have hp : p / 64 < b.words.length := wordIdx_lt b (length_bits b ▸ h.lt_length)
  refine Search.partitionPoint_eq ?_ (by rw [length_prefixes]; omega)
  intro i c hc
  obtain ⟨hi, rfl⟩ := of_getElem?_prefixes b hc
  rw [decide_eq_true_iff]
  constructor
  · intro hle
    by_contra hlt
    have hmore := count_take_le b.bits (show p + 1 ≤ i * 64 by omega)
    rw [h.count_take_succ] at hmore
    omega
  · intro hlt
    rw [← h.before]
    exact count_take_le b.bits (by omega)

theorem select1_eq (h : Nth b.bits k p) : b.select1 k = some p := by
  have hp : p / 64 < b.words.length := wordIdx_lt b (length_bits b ▸ h.lt_length)
  have hword := List.getElem?_eq_getElem hp
  have hin := (h.drop (show p / 64 * 64 ≤ p by omega)).take (show p - p / 64 * 64 < 64 by omega)
  rw [take_drop_bits b hword] at hin
  simp only [select1, partitionPoint_prefixes b h, hword, getElem?_prefixes b hp.le,
    select1InWord_eq hin, Option.bind_eq_bind, Option.bind_some, Option.some.injEq]
  omega

theorem select1_eq_none (h : b.bits.count true ≤ k) : b.select1 k = none := by
  have hall : Search.partitionPoint (fun c => decide (c ≤ k)) b.prefixes = b.words.length + 1 := by
    refine Search.partitionPoint_eq ?_ (by rw [length_prefixes])
    intro i c hc
    obtain ⟨hi, rfl⟩ := of_getElem?_prefixes b hc
    have hle := ((List.take_sublist (i * 64) b.bits).count_le true).trans h
    simp only [hle, decide_true, true_iff]
    omega
  simp [select1, hall]

/-- What `select1` finds, in any bitmap. -/
theorem nth_of_select1 (h : b.select1 k = some p) : Nth b.bits k p := by
  obtain hlt | hle := Nat.lt_or_ge k (b.bits.count true)
  · obtain ⟨q, hq⟩ := exists_nth hlt
    rw [select1_eq b hq] at h
    exact Option.some.inj h ▸ hq
  · rw [select1_eq_none b hle] at h
    exact absurd h (by simp)

theorem rank1_eq_some_iff {r : Nat} :
    b.rank1 i = some r ↔ i ≤ b.totalBits ∧ r = (b.bits.take i).count true := by
  by_cases h : i ≤ b.totalBits
  · rw [rank1_eq b (length_bits b ▸ h), Option.some.injEq, eq_comm]
    exact ⟨fun hr => ⟨h, hr⟩, And.right⟩
  · rw [rank1, if_pos (Nat.not_le.mp h)]
    simp [h]

theorem count_false_take (bits : List Bool) (h : i ≤ bits.length) :
    (bits.take i).count false = i - (bits.take i).count true := by
  have hsum := List.count_false_add_count_true (bits.take i)
  rw [List.length_take, Nat.min_eq_left h] at hsum
  omega

theorem rank0_eq_some_iff {r : Nat} :
    b.rank0 i = some r ↔ i ≤ b.totalBits ∧ r = (b.bits.take i).count false := by
  simp only [rank0, Option.map_eq_some_iff, rank1_eq_some_iff]
  constructor
  · rintro ⟨ones, ⟨h, rfl⟩, rfl⟩
    exact ⟨h, (count_false_take b.bits (length_bits b ▸ h)).symm⟩
  · rintro ⟨h, rfl⟩
    exact ⟨_, ⟨h, rfl⟩, (count_false_take b.bits (length_bits b ▸ h)).symm⟩

/-- For any words: the counts of the bits before `i`, and the position of the `k`th set bit. -/
theorem rank_select_exact (words : List (BitVec 64)) (i k : Nat) :
    (∀ r, (new words).rank1 i = some r ↔
      i ≤ words.length * 64 ∧ r = ((words.flatMap wordBits).take i).count true) ∧
    (∀ r, (new words).rank0 i = some r ↔
      i ≤ words.length * 64 ∧ r = ((words.flatMap wordBits).take i).count false) ∧
    (∀ p, (new words).select1 k = some p ↔
      (words.flatMap wordBits)[p]? = some true ∧ (new words).rank1 p = some k) ∧
    ((new words).select1 k = none ↔ (words.flatMap wordBits).count true < k + 1) := by
  refine ⟨fun r => rank1_eq_some_iff (new words), fun r => rank0_eq_some_iff (new words), fun p => ?_, ?_⟩
  · rw [rank1_eq_some_iff]
    constructor
    · intro h
      have hnth := nth_of_select1 _ h
      exact ⟨hnth.set, length_bits (new words) ▸ hnth.lt_length.le, hnth.before.symm⟩
    · rintro ⟨hset, -, hbefore⟩
      exact select1_eq (new words) ⟨hset, hbefore.symm⟩
  · rw [Nat.lt_succ_iff]
    refine ⟨fun h => ?_, select1_eq_none (new words)⟩
    by_contra hlt
    obtain ⟨p, hp⟩ := exists_nth (Nat.not_le.mp hlt)
    rw [select1_eq (new words) hp] at h
    cases h

/-- The words that hold a list of bits. -/
def pack (bits : List Bool) : RankBitmap :=
  new ((List.range ((bits.length + 63) / 64)).map (fun k =>
    (BitVec.ofBoolListLE ((bits.drop (k * 64)).take 64)).setWidth 64))

theorem padded_pack (bits : List Bool) : Padded (pack bits).bits bits := by
  intro i
  by_cases hi : i / 64 < (bits.length + 63) / 64
  · have hword : (pack bits).words[i / 64]? =
        some ((BitVec.ofBoolListLE ((bits.drop (i / 64 * 64)).take 64)).setWidth 64) := by
      rw [pack, new, List.getElem?_map, List.getElem?_range hi, Option.map_some]
    have hlt : i % 64 < 64 := Nat.mod_lt _ (by decide)
    rw [List.getD_eq_getElem?_getD, bits_eq_wordBits _ hword, Option.getD_some, BitVec.getLsbD_setWidth,
      BitVec.getLsbD_ofBoolListLE, List.getD_eq_getElem?_getD, List.getElem?_take_of_lt hlt,
      List.getElem?_drop, Nat.mul_comm, Nat.div_add_mod, List.getD_eq_getElem?_getD]
    simp [hlt]
  · have hlen : (pack bits).bits.length = (bits.length + 63) / 64 * 64 := by
      rw [length_bits, totalBits]
      simp [pack, new]
    rw [List.getD_eq_default _ _ (by omega), List.getD_eq_default _ _ (by omega)]

end RankBitmap

/-! ## The trie -/

structure DomainSet where
  leaves : RankBitmap
  labelBitmap : RankBitmap
  labels : List UInt8

def maxDomainSetSteps : Nat := 512 * 1024 * 1024

def maxDomainSetDepth : Nat := 4096

/-- What the two limits say of the file. -/
def notATree : String := "(labelBitmap does not encode a well-formed tree)"

structure Frame where
  nodeId : Nat
  bmIdx : Nat
  restoreLen : Nat
deriving DecidableEq, Repr

/-- `emit`: the text handed to the callback. -/
def emit (reversed : List UInt8) : Except String Utf8.Text :=
  match Utf8.Text.fromUtf8 reversed.reverse with
  | none => .error "mrs domain-set: non-UTF-8 domain bytes"
  | some text => .ok text

namespace DomainSet

variable (set : DomainSet)

def isLeaf (nodeId : Nat) : Except String Bool :=
  match set.leaves.get nodeId with
  | none => .error s!"mrs domain-set: leaf index {nodeId} out of range"
  | some leaf => .ok leaf

/-- The label behind the clear bit a frame stands at, and the node and the bits of that child. -/
def child (top : Frame) : Except String (UInt8 × Nat × Nat) :=
  if top.bmIdx < top.nodeId then .error "mrs domain-set: label index underflow"
  else
    let labelIdx := top.bmIdx - top.nodeId
    match set.labels[labelIdx]? with
    | none => .error s!"mrs domain-set: label index {labelIdx} out of range"
    | some label =>
      let after := top.bmIdx + 1
      match set.labelBitmap.rank0 after with
      | none => .error s!"mrs domain-set: rank0({after}) out of range"
      | some nextNodeId =>
        match (if nextNodeId = 0 then none else set.labelBitmap.select1 (nextNodeId - 1)) with
        | none => .error s!"mrs domain-set: select1 for node {nextNodeId} failed"
        | some pos => .ok (label, nextNodeId, pos + 1)

/-- What is emitted when the walk comes to a node: its text if a pattern ends there. -/
def emitted (nodeId : Nat) (current : List UInt8) : Except String (List Utf8.Text) := do
  if ← set.isLeaf nodeId then
    return [← emit current]
  return []

/-- The loop of `for_each_domain`, with the steps that may still be made: what the callback was handed, and
the result. -/
def walk : (steps : Nat) → (stack : List Frame) → (current : List UInt8) → (out : List Utf8.Text) →
    List Utf8.Text × Except String Unit
  | _, [], _, out => (out, .ok ())
  | 0, _ :: _, _, out =>
    (out, .error s!"mrs domain-set: trie walk exceeded {maxDomainSetSteps} steps {notATree}")
  | steps + 1, top :: rest, current, out =>
    let bmIdx := top.bmIdx
    match set.labelBitmap.get bmIdx with
    | none => (out, .error s!"mrs domain-set: labelBitmap index {bmIdx} out of range")
    | some true => walk steps rest (current.take top.restoreLen) out
    | some false =>
      match set.child top with
      | .error e => (out, .error e)
      | .ok (label, nextNodeId, nextBmIdx) =>
        match set.emitted nextNodeId (current ++ [label]) with
        | .error e => (out, .error e)
        | .ok texts =>
          if maxDomainSetDepth ≤ rest.length + 1 then
            (out ++ texts, .error s!"mrs domain-set: trie walk exceeded {maxDomainSetDepth}-deep stack {notATree}")
          else
            walk steps (⟨nextNodeId, nextBmIdx, current.length⟩ :: { top with bmIdx := bmIdx + 1 } :: rest)
              (current ++ [label]) (out ++ texts)

def forEachDomain : List Utf8.Text × Except String Unit :=
  set.walk maxDomainSetSteps [⟨0, 0, 0⟩] [] []

theorem walk_nil (steps : Nat) (current : List UInt8) (out : List Utf8.Text) :
    set.walk steps [] current out = (out, .ok ()) := by
  cases steps <;> rfl

/-! ## Walking a layout -/

/-- The set holds a layout: the bits with clear bits up to the end of the last word, and the labels. -/
structure Encodes {S : Finset (List UInt8)} (set : DomainSet) (L : Layout S) : Prop where
  leaves : Padded set.leaves.bits L.leaves
  labelBitmap : Padded set.labelBitmap.bits L.bitmap
  labels : set.labels = L.labels

/-- Every layout is held by a set. -/
def encode {S : Finset (List UInt8)} (L : Layout S) : DomainSet :=
  ⟨.pack L.leaves, .pack L.bitmap, L.labels⟩

theorem encodes_encode {S : Finset (List UInt8)} (L : Layout S) : (encode L).Encodes L where
  leaves := RankBitmap.padded_pack L.leaves
  labelBitmap := RankBitmap.padded_pack L.bitmap
  labels := rfl

/-- The texts of those nodes that end a string, in the order of the nodes. -/
def texts (S : Finset (List UInt8)) (nodes : List (List UInt8)) : List Utf8.Text :=
  (nodes.filter (· ∈ S)).filterMap (fun s => Utf8.Text.fromUtf8 s.reverse)

theorem texts_append (S : Finset (List UInt8)) (xs ys : List (List UInt8)) :
    texts S (xs ++ ys) = texts S xs ++ texts S ys := by
  rw [texts, List.filter_append, List.filterMap_append, texts, texts]

theorem texts_cons (S : Finset (List UInt8)) (p : List UInt8) (nodes : List (List UInt8)) :
    texts S (p :: nodes) = texts S [p] ++ texts S nodes :=
  texts_append S [p] nodes

theorem map_bytes_texts {S : Finset (List UInt8)} (hutf8 : ∀ s ∈ S, Utf8.valid s.reverse = true)
    (nodes : List (List UInt8)) :
    (texts S nodes).map Utf8.Text.bytes = (nodes.filter (· ∈ S)).map List.reverse := by
  induction nodes with
  | nil => rfl
  | cons p nodes ih =>
    rw [texts_cons, List.map_append, ih]
    by_cases hp : p ∈ S
    · have htext : Utf8.Text.fromUtf8 p.reverse = some ⟨p.reverse, hutf8 p hp⟩ :=
        Utf8.Text.fromUtf8_bytes ⟨p.reverse, hutf8 p hp⟩
      simp [texts, hp, htext]
    · simp [texts, hp]

section Walk

variable {S : Finset (List UInt8)} {L : Layout S} {set : DomainSet} (enc : set.Encodes L)
  (hne : S.Nonempty) (hutf8 : ∀ s ∈ S, Utf8.valid s.reverse = true)
  {i : Nat} {p : List UInt8} (hi : L.nodes[i]? = some p)

include enc hi

variable {j : Nat}

theorem get_child (hj : j < (L.kids p).length) : set.labelBitmap.get (L.start i + j) = some false := by
  obtain ⟨more, hmore⟩ := enc.labelBitmap.eq_append L.getLast?_bitmap
  have hbit := Layout.bitmap_child hi hj
  rw [RankBitmap.get_eq, hmore, List.getElem?_append_left (List.getElem?_eq_some_iff.mp hbit).1, hbit]

theorem get_end : set.labelBitmap.get (L.start i + (L.kids p).length) = some true := by
  obtain ⟨more, hmore⟩ := enc.labelBitmap.eq_append L.getLast?_bitmap
  have hbit := Layout.bitmap_end hi
  rw [RankBitmap.get_eq, hmore, List.getElem?_append_left (List.getElem?_eq_some_iff.mp hbit).1, hbit]

theorem rank0_child (hj : j < (L.kids p).length) :
    set.labelBitmap.rank0 (L.start i + j + 1) = some (L.labelStart i + j + 1) := by
  obtain ⟨more, hmore⟩ := enc.labelBitmap.eq_append L.getLast?_bitmap
  have hlt := (List.getElem?_eq_some_iff.mp (Layout.bitmap_child hi hj)).1
  have hcount := Layout.count_take_bitmap hi (j := j + 1) hj
  have hstart := Layout.start_eq hi
  rw [RankBitmap.rank0_eq _ (by rw [hmore, List.length_append]; omega), hmore,
    List.take_append_of_le_length (by omega), Nat.add_assoc, hcount]
  congr 1
  omega

/-- The bits of a node begin after the set bit of the node before it. -/
theorem select1_end : set.labelBitmap.select1 i = some (L.start (i + 1) - 1) := by
  obtain ⟨more, hmore⟩ := enc.labelBitmap.eq_append L.getLast?_bitmap
  rw [RankBitmap.select1_eq _ (hmore ▸ (Layout.nth_bitmap_end hi).append more), Layout.start_succ hi]
  rfl

theorem child_eq {r : Nat} {c : UInt8} (hc : (L.kids p)[j]? = some c) :
    set.child ⟨i, L.start i + j, r⟩ =
      .ok (c, L.labelStart i + j + 1, L.start (L.labelStart i + j + 1)) := by
  have hj := (List.getElem?_eq_some_iff.mp hc).1
  have hstart := Layout.start_eq hi
  have hlabel : set.labels[L.start i + j - i]? = some c := by
    rw [enc.labels, hstart, show L.labelStart i + i + j - i = L.labelStart i + j by omega,
      Layout.labels_child hi hj, hc]
  -- the child has a node before it, whose set bit is found
  have hnode := Layout.nodes_child hi hc
  have hbefore : L.labelStart i + j < L.nodes.length := by
    have := (List.getElem?_eq_some_iff.mp hnode).1
    omega
  have hprev := List.getElem?_eq_getElem hbefore
  have hselect := select1_end enc hprev
  have hsucc := Layout.start_succ hprev
  simp only [child, if_neg (show ¬ L.start i + j < i by omega), hlabel, rank0_child enc hi hj,
    if_neg (Nat.succ_ne_zero _), Nat.add_sub_cancel, hselect]
  congr 3
  omega

include hne in
theorem isLeaf_eq : set.isLeaf i = .ok (decide (p ∈ S)) := by
  obtain ⟨more, hmore⟩ := enc.leaves.eq_append (L.getLast?_leaves hne)
  have hleaf : L.leaves[i]? = some (decide (p ∈ S)) := by
    rw [Layout.leaves, List.getElem?_map, hi, Option.map_some]
  rw [isLeaf, RankBitmap.get_eq, hmore,
    List.getElem?_append_left (List.getElem?_eq_some_iff.mp hleaf).1, hleaf]

include hne hutf8 in
theorem emitted_eq : set.emitted i p = .ok (texts S [p]) := by
  rw [emitted, isLeaf_eq enc hne hi]
  by_cases hp : p ∈ S
  · have htext : Utf8.Text.fromUtf8 p.reverse = some ⟨p.reverse, hutf8 p hp⟩ :=
      Utf8.Text.fromUtf8_bytes ⟨p.reverse, hutf8 p hp⟩
    simp [texts, hp, emit, htext]
    rfl
  · simp [texts, hp]
    rfl

theorem walk_end (rest : List Frame) (r steps : Nat) (current : List UInt8) (out : List Utf8.Text) :
    set.walk (steps + 1) (⟨i, L.start i + (L.kids p).length, r⟩ :: rest) current out =
      set.walk steps rest (current.take r) out := by
  simp only [walk, get_end enc hi]

include hne hutf8 in
theorem walk_child {c : UInt8} (hc : (L.kids p)[j]? = some c) {rest : List Frame}
    (hrest : rest.length + 1 < maxDomainSetDepth) (r steps : Nat) (out : List Utf8.Text) :
    set.walk (steps + 1) (⟨i, L.start i + j, r⟩ :: rest) p out =
      set.walk steps
        (⟨L.labelStart i + j + 1, L.start (L.labelStart i + j + 1), p.length⟩ ::
          ⟨i, L.start i + (j + 1), r⟩ :: rest)
        (p ++ [c]) (out ++ texts S [p ++ [c]]) := by
  have hj := (List.getElem?_eq_some_iff.mp hc).1
  simp only [walk, get_child enc hi hj, child_eq enc hi hc,
    emitted_eq enc hne hutf8 (Layout.nodes_child hi hc), if_neg (Nat.not_le.mpr hrest)]
  rfl

omit hi

omit enc in
theorem below_eq {height : Nat} {p : List UInt8} (hp : p ∈ L.nodes) (hfits : Layout.Fits S height p) :
    (L.kids p).flatMap (fun c => (p ++ [c]) :: below L.kids (height - 1) (p ++ [c])) =
      below L.kids height p := by
  cases height with
  | zero => rw [hfits.kids_eq_nil L hp]; rfl
  | succ height => rfl

include hne hutf8 in
/-- From the frame of a node whose first children are done, the walk emits what ends below the others and
leaves the frame, in two steps for each node below and one to leave. By induction on the levels below, then
on the children left. -/
theorem walk_node (height : Nat) {i : Nat} {p : List UInt8} (hi : L.nodes[i]? = some p)
    (hfits : Layout.Fits S height p) (hdepth : p.length + height < maxDomainSetDepth)
    (done todo : List UInt8) (hkids : L.kids p = done ++ todo) (rest : List Frame)
    (hrest : rest.length = p.length) (r steps : Nat) (out : List Utf8.Text) :
    let visited := todo.flatMap (fun c => (p ++ [c]) :: below L.kids (height - 1) (p ++ [c]))
    set.walk (steps + 1 + 2 * visited.length) (⟨i, L.start i + done.length, r⟩ :: rest) p out =
      set.walk steps rest (p.take r) (out ++ texts S visited) := by
  induction height generalizing i p done todo rest r steps out with
  | zero =>
    have hnil := hfits.kids_eq_nil L (List.mem_of_getElem? hi)
    obtain ⟨rfl, rfl⟩ := List.append_eq_nil_iff.mp (hkids ▸ hnil)
    have hend := walk_end enc hi rest r steps p out
    rw [hnil] at hend
    simpa [texts] using hend
  | succ height ih =>
    induction todo generalizing done steps out with
    | nil =>
      have hend := walk_end enc hi rest r steps p out
      rw [hkids, List.append_nil] at hend
      simpa [texts] using hend
    | cons c todo ihtodo =>
      have hc : (L.kids p)[done.length]? = some c := by
        rw [hkids, List.getElem?_append_right (Nat.le_refl _), Nat.sub_self]
        rfl
      have hchild := Layout.nodes_child hi hc
      have hbelow := below_eq (List.mem_of_getElem? hchild) (hfits.child (c := c))
      -- the walk of the child, from its first bit back to the frame of `p`
      have hdown := ih hchild hfits.child (by rw [List.length_append, List.length_singleton]; omega)
        [] (L.kids (p ++ [c])) rfl (⟨i, L.start i + (done.length + 1), r⟩ :: rest) (by simp [hrest])
        p.length
      simp only [hbelow, List.length_nil, Nat.add_zero, List.take_left] at hdown
      have hafter := ihtodo (done ++ [c]) (by rw [hkids]; simp)
      simp only [Nat.add_sub_cancel, List.length_append, List.length_singleton] at hafter
      simp only [Nat.add_sub_cancel, List.flatMap_cons]
      generalize todo.flatMap (fun c => (p ++ [c]) :: below L.kids height (p ++ [c])) = later at hafter ⊢
      generalize below L.kids height (p ++ [c]) = under at hdown ⊢
      calc set.walk (steps + 1 + 2 * (((p ++ [c]) :: under) ++ later).length)
            (⟨i, L.start i + done.length, r⟩ :: rest) p out
          = set.walk (steps + 1 + 2 * later.length + 1 + 2 * under.length + 1)
            (⟨i, L.start i + done.length, r⟩ :: rest) p out := by
            congr 1
            rw [List.length_append, List.length_cons]
            omega
        _ = set.walk (steps + 1 + 2 * later.length) (⟨i, L.start i + (done.length + 1), r⟩ :: rest) p
            (out ++ texts S [p ++ [c]] ++ texts S under) := by
            rw [walk_child enc hne hutf8 hi hc (by omega), hdown]
        _ = set.walk steps rest (p.take r) (out ++ texts S [p ++ [c]] ++ texts S under ++ texts S later) :=
            hafter _ _
        _ = set.walk steps rest (p.take r) (out ++ texts S (((p ++ [c]) :: under) ++ later)) := by
            congr 1
            rw [texts_append, texts_cons S _ under]
            simp only [List.append_assoc]

end Walk

/-- The walk of a trie that is laid out breadth first hands every nonempty string of the set to the
callback, read backwards, and no other text. -/
theorem forEachDomain_emits {S : Finset (List UInt8)} (hne : S.Nonempty)
    (hlen : ∀ s ∈ S, s.length ≤ 4095) (hutf8 : ∀ s ∈ S, Utf8.valid s.reverse = true) (L : Layout S)
    (hlabels : L.labels.length < 2 ^ 28) (set : DomainSet) (enc : set.Encodes L) :
    ∃ emitted, set.forEachDomain = (emitted, .ok ()) ∧
      (emitted.map Utf8.Text.bytes).Perm ((S.erase []).toList.map List.reverse) := by
  have hfits : Layout.Fits S 4095 [] := fun s hs _ => by simpa using hlen s hs
  have hroot : L.nodes[0]? = some [] := by rw [L.breadthFirst]; rfl
  have hbelow := below_eq L.nil_mem_nodes hfits
  have hle := L.length_below_le hfits
  have hsteps : maxDomainSetSteps = maxDomainSetSteps - (2 * (below L.kids 4095 []).length + 1) + 1 +
      2 * (below L.kids 4095 []).length := by
    rw [maxDomainSetSteps]
    omega
  have hwalk := walk_node enc hne hutf8 4095 hroot hfits (by decide) [] (L.kids []) rfl [] rfl 0
    (maxDomainSetSteps - (2 * (below L.kids 4095 []).length + 1)) []
  simp only [hbelow, ← hsteps] at hwalk
  refine ⟨texts S (below L.kids 4095 []), ?_, ?_⟩
  · have hstart : L.start 0 = 0 := rfl
    rw [hstart] at hwalk
    rw [forEachDomain]
    exact hwalk.trans (walk_nil set _ _ _)
  · rw [map_bytes_texts hutf8]
    refine List.Perm.map _ ?_
    rw [List.perm_ext_iff_of_nodup ((L.nodup_below L.nil_mem_nodes hfits).filter _)
      (Finset.nodup_toList _)]
    intro s
    rw [List.mem_filter, L.mem_below_iff L.nil_mem_nodes hfits, Finset.mem_toList, Finset.mem_erase,
      decide_eq_true_iff]
    constructor
    · rintro ⟨⟨-, hs, -⟩, hmem⟩
      exact ⟨Ne.symm hs, hmem⟩
    · rintro ⟨hs, hmem⟩
      exact ⟨⟨List.nil_prefix, Ne.symm hs, s, hmem, List.prefix_refl s⟩, hmem⟩

/-- Labels in the order of their values. -/
@[reducible]
def labelOrder : LinearOrder UInt8 := LinearOrder.lift' UInt8.toNat (fun _ _ => UInt8.toNat_inj.mp)

/-- The patterns `+.ac` and `c`, stored backwards. -/
def samplePatterns : Finset (List UInt8) := {[99, 97, 46, 43], [99]}

theorem forEachDomain_emits_sample :
    ∃ emitted, (encode (@Layout.sorted _ labelOrder samplePatterns)).forEachDomain = (emitted, .ok ()) ∧
      (emitted.map Utf8.Text.bytes).Perm ((samplePatterns.erase []).toList.map List.reverse) :=
  forEachDomain_emits ⟨[99], by decide⟩ (by decide) (by decide)
    (@Layout.sorted _ labelOrder samplePatterns)
    (by decide +kernel) _ (encodes_encode _)

end DomainSet

end PathDns
