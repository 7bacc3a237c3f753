import PathDns.Lib.Slots
import PathDns.QueryLog.Index

/-!
# What is read through the index

The blocks of an index are the groups that consecutive batches form. A page reads the groups that its time
window does not rule out, judged by the first and the last event of each group, so that the pages give all
matching events exactly when no group with a match is ruled out.
-/

namespace PathDns

open Paging

abbrev Batch := List QueryLogEvent

/-! ## The groups of a segment -/

/-- A batch joins the last group while the stride allows it. -/
def addBatch (groups : List Batch) (batch : Batch) : List Batch :=
  match groups.getLast? with
  | none => if batch = [] then [] else [batch]
  | some last =>
    if batch = [] then groups
    else if last.length + batch.length ≤ historyIndexStride then groups.dropLast ++ [last ++ batch]
    else groups ++ [batch]

/-- The events of each block. -/
def groupsOf (batches : List Batch) : List Batch := batches.foldl addBatch []

/-- When the first event of a group happened. -/
def firstMicros (group : Batch) : Nat := (group.head?.map QueryLogEvent.unixMicros).getD 0

/-- When the last event of a group happened. -/
def lastMicros (group : Batch) : Nat := (group.getLast?.map QueryLogEvent.unixMicros).getD 0

/-- The blocks of the groups, stored in `size` bytes each. -/
def blocksFor (size : Batch → Nat) : (offset entry : Nat) → List Batch → List HistoryBlock
  | _, _, [] => []
  | offset, entry, group :: groups =>
    ⟨offset, size group, entry, group.length, firstMicros group, lastMicros group⟩ ::
      blocksFor size (offset + size group) (entry + group.length) groups

theorem blocksFor_concat (size : Batch → Nat) (offset entry : Nat) (groups : List Batch) (group : Batch) :
    blocksFor size offset entry (groups ++ [group]) =
      blocksFor size offset entry groups ++
        [⟨offset + (groups.map size).sum, size group, entry + groups.flatten.length, group.length,
          firstMicros group, lastMicros group⟩] := by
  induction groups generalizing offset entry with
  | nil => simp [blocksFor]
  | cons g groups ih =>
    rw [List.cons_append, blocksFor, ih, blocksFor, List.cons_append]
    simp [Nat.add_assoc]

/-- A segment holds the groups: their bytes, and a block for each. -/
structure Segment.Holds (stored : Batch → List UInt8) (seg : Segment) (groups : List Batch) : Prop where
  file : seg.file = groups.flatMap stored
  blocks : seg.index.blocks = blocksFor (fun group => (stored group).length) 0 0 groups
  total : seg.index.totalEntries = groups.flatten.length
  nonempty : ∀ group ∈ groups, group ≠ []
  small : ∀ group ∈ groups, group.length < 2 ^ 32

variable {batch : Batch}

theorem firstMicros_append {group : Batch} (h : group ≠ []) :
    firstMicros (group ++ batch) = firstMicros group := by
  cases group with
  | nil => exact absurd rfl h
  | cons ev group => rfl

theorem lastMicros_append {group : Batch} (h : batch ≠ []) :
    lastMicros (group ++ batch) = lastMicros batch := by
  rw [lastMicros, List.getLast?_append_of_ne_nil group h, lastMicros]

theorem getLast?_getD (first : QueryLogEvent) (rest : Batch) :
    ((first :: rest).getLast?.map QueryLogEvent.unixMicros).getD first.unixMicros =
      lastMicros (first :: rest) := by
  rw [lastMicros, List.getLast?_cons, Option.map_some, Option.getD_some, Option.getD_some]

theorem HistoryIndex.appendBatch_push {index : HistoryIndex} (offset len : Nat) (hbatch : batch ≠ [])
    (hlast : ∀ last, index.blocks.getLast? = some last →
      ¬ (last.firstEntry + last.entries = index.totalEntries ∧
        last.entries + batch.length ≤ historyIndexStride ∧ last.offset + last.len = offset)) :
    (index.appendBatch offset len batch).blocks = index.blocks ++
        [⟨offset, len, index.totalEntries, batch.length % 2 ^ 32, firstMicros batch, lastMicros batch⟩] ∧
      (index.appendBatch offset len batch).totalEntries = index.totalEntries + batch.length := by
  cases batch with
  | nil => exact absurd rfl hbatch
  | cons first rest =>
    simp only [appendBatch, getLast?_getD]
    cases hget : index.blocks.getLast? with
    | none => exact ⟨rfl, rfl⟩
    | some last =>
      simp only [if_neg (hlast last hget)]
      exact ⟨rfl, trivial⟩

theorem HistoryIndex.appendBatch_join {index : HistoryIndex} (offset len : Nat) (hbatch : batch ≠ [])
    {init : List HistoryBlock} {last : HistoryBlock} (hblocks : index.blocks = init ++ [last])
    (hjoin : last.firstEntry + last.entries = index.totalEntries ∧
      last.entries + batch.length ≤ historyIndexStride ∧ last.offset + last.len = offset) :
    (index.appendBatch offset len batch).blocks = init ++
        [{ last with len := last.len + len, entries := last.entries + batch.length % 2 ^ 32,
                     endMicros := lastMicros batch }] ∧
      (index.appendBatch offset len batch).totalEntries = index.totalEntries + batch.length := by
  cases batch with
  | nil => exact absurd rfl hbatch
  | cons first rest =>
    simp only [appendBatch, getLast?_getD, hblocks, List.getLast?_concat, if_pos hjoin, List.dropLast_concat]
    exact ⟨trivial, trivial⟩

theorem HistoryIndex.compressedBlocks_appendBatch (index : HistoryIndex) (offset len : Nat) (batch : Batch) :
    (index.appendBatch offset len batch).compressedBlocks = index.compressedBlocks := by
  unfold appendBatch
  split
  · rfl
  · simp only
    split
    · rfl
    · split <;> rfl

/-- A segment of plain bytes. -/
def plainBytes (write : QueryLogEvent → List UInt8) (group : Batch) : List UInt8 := group.flatMap write

section Append

variable {write : QueryLogEvent → List UInt8} {seg : Segment} {groups : List Batch} {batch : Batch}

theorem Segment.Holds.length_file (h : seg.Holds (plainBytes write) groups) :
    seg.file.length = (groups.map (fun group => (plainBytes write group).length)).sum := by
  rw [h.file, List.length_flatMap]

theorem Segment.Holds.push (h : seg.Holds (plainBytes write) groups) (hbatch : batch ≠ [])
    (hsmall : batch.length < 2 ^ 32)
    (hlast : ∀ last, groups.getLast? = some last → historyIndexStride < last.length + batch.length) :
    (seg.appendBatch write batch).Holds (plainBytes write) (groups ++ [batch]) := by
  have hempty : batch.isEmpty = false := by simpa using hbatch
  obtain ⟨hblocks, htotal⟩ := seg.index.appendBatch_push seg.file.length (batch.flatMap write).length
    hbatch (by
      intro block hblock
      rcases List.eq_nil_or_concat' groups with rfl | ⟨init, last, rfl⟩
      · simp [h.blocks, blocksFor] at hblock
      · rw [h.blocks, blocksFor_concat, List.getLast?_concat] at hblock
        obtain rfl := Option.some.inj hblock
        have hlong := hlast last List.getLast?_concat
        simp only
        omega)
  rw [Segment.appendBatch, hempty]
  simp only [Bool.false_eq_true, if_false]
  constructor
  · simp only [h.file, List.flatMap_append, List.flatMap_singleton]
    rfl
  · simp only [hblocks]
    rw [h.blocks, h.total, h.length_file, blocksFor_concat, Nat.mod_eq_of_lt hsmall, Nat.zero_add,
      Nat.zero_add]
    rfl
  · simp only [htotal, h.total]
    simp
  · exact Slots.forall_mem_push h.nonempty hbatch
  · exact Slots.forall_mem_push h.small hsmall

theorem Segment.Holds.join {init : List Batch} {last : Batch}
    (h : seg.Holds (plainBytes write) (init ++ [last])) (hbatch : batch ≠ [])
    (hfits : last.length + batch.length ≤ historyIndexStride) :
    (seg.appendBatch write batch).Holds (plainBytes write) (init ++ [last ++ batch]) := by
  have hempty : batch.isEmpty = false := by simpa using hbatch
  have hnonempty : last ≠ [] := h.nonempty last (by simp)
  have hstride : historyIndexStride = 512 := rfl
  have hbytes : (plainBytes write (last ++ batch)) = plainBytes write last ++ batch.flatMap write := by
    rw [plainBytes, List.flatMap_append, plainBytes]
  have hlen := h.length_file
  obtain ⟨hblocks, htotal⟩ := seg.index.appendBatch_join seg.file.length (batch.flatMap write).length
    hbatch (h.blocks.trans (blocksFor_concat _ 0 0 init last)) (by
      refine ⟨?_, hfits, ?_⟩
      · rw [h.total]
        simp
      · rw [hlen]
        simp)
  rw [Segment.appendBatch, hempty]
  simp only [Bool.false_eq_true, if_false]
  constructor
  · simp only [h.file, List.flatMap_append, List.flatMap_singleton, hbytes, List.append_assoc]
  · simp only [hblocks, blocksFor_concat, hbytes, List.length_append, firstMicros_append hnonempty,
      lastMicros_append hbatch, Nat.mod_eq_of_lt (show batch.length < 2 ^ 32 by omega)]
  · simp only [htotal, h.total]
    simp [Nat.add_assoc]
  · exact Slots.forall_mem_push (fun group hgroup => h.nonempty group (List.mem_append_left _ hgroup))
      (by simp [hbatch])
  · exact Slots.forall_mem_push (fun group hgroup => h.small group (List.mem_append_left _ hgroup))
      (by rw [List.length_append]; omega)

theorem Segment.Holds.appendBatch (h : seg.Holds (plainBytes write) groups)
    (hsmall : batch.length < 2 ^ 32) :
    (seg.appendBatch write batch).Holds (plainBytes write) (addBatch groups batch) := by
  by_cases hbatch : batch = []
  · subst hbatch
    have hsame : addBatch groups [] = groups := by
      rw [addBatch]
      cases hget : groups.getLast? with
      | none => simpa using (List.getLast?_eq_none_iff.mp hget).symm
      | some last => simp
    rw [hsame]
    exact h
  · rcases List.eq_nil_or_concat' groups with rfl | ⟨init, last, rfl⟩
    · rw [addBatch]
      simp only [List.getLast?_nil, if_neg hbatch]
      exact h.push hbatch hsmall (by simp)
    · rw [addBatch]
      simp only [List.getLast?_concat, if_neg hbatch, List.dropLast_concat]
      split
      next hfits => exact h.join hbatch hfits
      next hlong =>
        refine h.push hbatch hsmall fun block hblock => ?_
        rw [List.getLast?_concat] at hblock
        obtain rfl := Option.some.inj hblock
        exact Nat.not_le.mp hlong

end Append

theorem Segment.holds_ofBatches (write : QueryLogEvent → List UInt8) {batches : List Batch}
    (hsmall : ∀ batch ∈ batches, batch.length < 2 ^ 32) :
    (Segment.ofBatches write batches).Holds (plainBytes write) (groupsOf batches) := by
  induction batches using List.reverseRecOn with
  | nil => exact ⟨rfl, rfl, rfl, nofun, nofun⟩
  | append_singleton batches batch ih =>
    rw [ofBatches, groupsOf, List.foldl_concat, List.foldl_concat]
    exact (ih fun b hb => hsmall b (List.mem_append_left _ hb)).appendBatch (hsmall batch (by simp))

/-! ## The bytes of the blocks -/

theorem map_bytes_blocksFor (stored : Batch → List UInt8) (groups : List Batch) (before : List UInt8)
    (entry : Nat) :
    (blocksFor (fun group => (stored group).length) before.length entry groups).map
        (HistoryBlock.bytes · (before ++ groups.flatMap stored)) = groups.map stored := by
  induction groups generalizing before entry with
  | nil => rfl
  | cons group groups ih =>
    have hrest := ih (before ++ stored group) (entry + group.length)
    rw [List.length_append, List.append_assoc] at hrest
    rw [blocksFor, List.map_cons, List.flatMap_cons, hrest, HistoryBlock.bytes, List.drop_left,
      List.take_left, List.map_cons]

theorem compressBlocks_eq (gzip : List UInt8 → List UInt8) (stored : Batch → List UInt8)
    (groups : List Batch) (before : List UInt8) (entry out : Nat) :
    compressBlocks gzip (before ++ groups.flatMap stored)
        (blocksFor (fun group => (stored group).length) before.length entry groups) out =
      (groups.flatMap (fun group => gzip (stored group)),
        blocksFor (fun group => (gzip (stored group)).length) out entry groups) := by
  induction groups generalizing before entry out with
  | nil => rfl
  | cons group groups ih =>
    have hrest := ih (before ++ stored group) (entry + group.length)
    rw [List.length_append, List.append_assoc] at hrest
    rw [blocksFor, List.flatMap_cons, compressBlocks, HistoryBlock.bytes, List.drop_left, List.take_left]
    simp only [hrest]
    rfl

theorem Segment.Holds.compressed {stored : Batch → List UInt8} {seg : Segment} {groups : List Batch}
    (h : seg.Holds stored groups) (gzip : List UInt8 → List UInt8) :
    (seg.compressed gzip).Holds (fun group => gzip (stored group)) groups := by
  have heq := compressBlocks_eq gzip stored groups [] 0 0
  rw [List.nil_append, List.length_nil, ← h.file, ← h.blocks] at heq
  rw [Segment.compressed, heq]
  exact ⟨rfl, rfl, h.total, h.nonempty, h.small⟩

/-! ## Pages over groups -/

section Pages

variable (query : HistoryQuery)

/-- The group is ruled out by the start of the window: its last event happened before. -/
def Early (group : Batch) : Bool := query.fromMicros.any (fun t => decide (lastMicros group < t))

/-- The group ends the page by the end of the window: its first event happened after. -/
def Late (group : Batch) : Bool := query.toMicros.any (fun t => decide (t < firstMicros group))

/-- The matching events of a group, numbered from `entry` on. -/
def groupMatches (entry : Nat) (group : Batch) : List (Nat × DecodedEvent) :=
  selected (eventMatches · query) entry (group.map QueryLogEvent.decoded)

/-- What a page at `cursor` sees of the groups. -/
def seenFrom (cursor : Nat) : (entry : Nat) → List Batch → List (Nat × DecodedEvent)
  | _, [] => []
  | entry, group :: groups =>
    if entry + group.length ≤ cursor || Early query group then
      seenFrom cursor (entry + group.length) groups
    else if Late query group then []
    else onward (groupMatches query entry group) cursor ++ seenFrom cursor (entry + group.length) groups

variable {query}

theorem eventLoop_eq (cursor : Nat) (records : List DecodedEvent) (ordinal : Nat)
    (events : List DecodedEvent) :
    eventLoop query cursor records ordinal events =
      fill query.pageLimit (onward (selected (eventMatches · query) ordinal records) cursor) events := by
  induction records generalizing ordinal events with
  | nil => rfl
  | cons event records ih =>
    rw [eventLoop, selected_cons]
    by_cases hmatch : eventMatches event query = true
    · rw [if_pos hmatch, if_pos hmatch, onward, List.filter_cons]
      by_cases hlt : ordinal < cursor
      · rw [if_pos hlt, if_neg (by simpa using hlt)]
        exact ih (ordinal + 1) events
      · have hge : decide (cursor ≤ ordinal) = true := decide_eq_true (Nat.not_lt.mp hlt)
        rw [if_neg hlt]
        simp only [hge, if_true, fill]
        split
        · exact ih (ordinal + 1) (events ++ [event])
        · rfl
    · rw [if_neg hmatch, if_neg hmatch, ite_self]
      exact ih (ordinal + 1) events

theorem blockLoop_eq (cursor : Nat) (decode : HistoryBlock → List DecodedEvent) (size : Batch → Nat)
    (groups : List Batch) (offset entry : Nat) (events : List DecodedEvent)
    (hdecode : (blocksFor size offset entry groups).map decode =
      groups.map (·.map QueryLogEvent.decoded)) :
    blockLoop query cursor decode (blocksFor size offset entry groups) events =
      fill query.pageLimit (seenFrom query cursor entry groups) events := by
  induction groups generalizing offset entry events with
  | nil => rfl
  | cons group groups ih =>
    simp only [blocksFor, List.map_cons, List.cons.injEq] at hdecode
    obtain ⟨hgroup, hrest⟩ := hdecode
    have hafter := fun events => ih (offset + size group) (entry + group.length) events hrest
    rw [blocksFor, blockLoop, seenFrom]
    have hearly : query.fromMicros.any (fun t => decide (lastMicros group < t)) = Early query group := rfl
    have hlate : query.toMicros.any (fun t => decide (t < firstMicros group)) = Late query group := rfl
    simp only [hafter, hgroup, eventLoop_eq, hearly, hlate]
    by_cases hbefore : entry + group.length ≤ cursor
    · simp only [hbefore, decide_true, Bool.true_or, if_true]
    · simp only [hbefore, decide_false, Bool.false_or, if_false]
      split
      · rfl
      · split
        · rfl
        · rw [fill_append]
          rfl

variable {cursor entry : Nat} {groups : List Batch}

theorem le_of_mem_seenFrom {item : Nat × DecodedEvent} (h : item ∈ seenFrom query cursor entry groups) :
    entry ≤ item.1 ∧ cursor ≤ item.1 := by
  induction groups generalizing entry with
  | nil => simp [seenFrom] at h
  | cons group groups ih =>
    rw [seenFrom] at h
    split at h
    · have := ih h
      omega
    · split at h
      · simp at h
      · rcases List.mem_append.mp h with h | h
        · obtain ⟨hmem, hge⟩ := List.mem_filter.mp h
          exact ⟨le_of_mem_selected hmem, by simpa using hge⟩
        · have := ih h
          omega

theorem ascending_seenFrom (cursor entry : Nat) (groups : List Batch) :
    Ascending (seenFrom query cursor entry groups) := by
  induction groups generalizing entry with
  | nil => exact List.Pairwise.nil
  | cons group groups ih =>
    rw [seenFrom]
    split
    · exact ih _
    · split
      · exact List.Pairwise.nil
      · refine List.pairwise_append.mpr ⟨(ascending_selected _ _ _).onward cursor, ih _, ?_⟩
        intro a ha b hb
        have hlt := lt_of_mem_selected (List.mem_filter.mp ha).1
        have hle := (le_of_mem_seenFrom hb).1
        rw [List.length_map] at hlt
        omega

theorem seenFrom_of_le (hcursor : cursor ≤ entry) (hne : ∀ group ∈ groups, group ≠ []) :
    seenFrom query cursor entry groups = seenFrom query 0 entry groups := by
  induction groups generalizing entry with
  | nil => rfl
  | cons group groups ih =>
    have hpos : 0 < group.length := List.length_pos_iff.mpr (hne group List.mem_cons_self)
    have hmatches : ∀ c ≤ entry, onward (groupMatches query entry group) c = groupMatches query entry group :=
      fun c hc => onward_of_le fun item hitem => hc.trans (le_of_mem_selected hitem)
    rw [seenFrom, seenFrom, ih (by omega) (fun g hg => hne g (List.mem_cons_of_mem _ hg)),
      hmatches cursor hcursor, hmatches 0 (Nat.zero_le _),
      decide_eq_false (show ¬ entry + group.length ≤ cursor by omega),
      decide_eq_false (show ¬ entry + group.length ≤ 0 by omega)]

theorem seenFrom_next (hne : ∀ group ∈ groups, group ≠ []) {n : Nat} {x : DecodedEvent}
    (h : (n, x) ∈ seenFrom query cursor entry groups) :
    seenFrom query n entry groups = onward (seenFrom query cursor entry groups) n := by
  induction groups generalizing entry with
  | nil => rfl
  | cons group groups ih =>
    have hne' := fun g hg => hne g (List.mem_cons_of_mem group hg)
    have hcursor := (le_of_mem_seenFrom h).2
    rw [seenFrom] at h
    rw [seenFrom, seenFrom]
    by_cases hskip : (decide (entry + group.length ≤ cursor) || Early query group) = true
    · rw [if_pos hskip] at h
      have hle := (le_of_mem_seenFrom h).1
      rw [if_pos hskip, if_pos (by simp [hle]), ih hne' h]
    · rw [if_neg hskip] at h
      rw [if_neg hskip]
      split at h
      · simp at h
      next hlate =>
        rw [if_neg hlate, if_neg hlate, onward_append]
        rcases List.mem_append.mp h with h | h
        · -- in this group: what follows does not depend on the cursor
          have hlt := lt_of_mem_selected (List.mem_filter.mp h).1
          rw [List.length_map] at hlt
          simp only [Bool.or_eq_true, not_or, decide_eq_true_eq] at hskip
          have hrest : onward (seenFrom query cursor (entry + group.length) groups) n =
              seenFrom query n (entry + group.length) groups := by
            rw [seenFrom_of_le (show cursor ≤ entry + group.length by omega) hne',
              seenFrom_of_le (show n ≤ entry + group.length by omega) hne']
            refine onward_of_le fun item hitem => ?_
            have := (le_of_mem_seenFrom hitem).1
            omega
          rw [if_neg (by simp [hskip.2]; omega), onward_onward hcursor, hrest]
        · have hle := (le_of_mem_seenFrom h).1
          have hgone : onward (onward (groupMatches query entry group) cursor) n = [] := by
            refine onward_of_lt fun item hitem => ?_
            have hlt := lt_of_mem_selected (List.mem_filter.mp hitem).1
            rw [List.length_map] at hlt
            omega
          rw [if_pos (by simp [hle]), hgone, List.nil_append, ih hne' h]

/-- Where the first page begins: with the first group that is not early. -/
def firstFrom (query : HistoryQuery) : (entry : Nat) → List Batch → Nat
  | entry, [] => entry
  | entry, group :: groups =>
    if Early query group then firstFrom query (entry + group.length) groups else entry

theorem seenFrom_firstFrom (hne : ∀ group ∈ groups, group ≠ []) :
    seenFrom query (firstFrom query entry groups) entry groups = seenFrom query 0 entry groups := by
  induction groups generalizing entry with
  | nil => rfl
  | cons group groups ih =>
    rw [firstFrom]
    split
    next hearly =>
      rw [seenFrom, seenFrom, if_pos (by simp [hearly]), if_pos (by simp [hearly]),
        ih (fun g hg => hne g (List.mem_cons_of_mem _ hg))]
    next => exact seenFrom_of_le (Nat.le_refl _) hne

theorem isNoneOr_eq_not_early (group : Batch) :
    isNoneOr query.fromMicros (fun t => decide (t ≤ lastMicros group)) = !Early query group := by
  rw [isNoneOr, Early]
  cases query.fromMicros with
  | none => rfl
  | some t =>
    rw [Option.all_some, Option.any_some, ← decide_not]
    exact decide_eq_decide.mpr Nat.not_lt.symm

variable {stored : Batch → List UInt8} {seg : Segment}

theorem firstCandidate_eq (h : seg.Holds stored groups) :
    firstCandidate query seg.index = firstFrom query 0 groups := by
  have hfind : ∀ (size : Batch → Nat) (groups : List Batch) (offset entry : Nat),
      ((blocksFor size offset entry groups).find? fun block =>
        isNoneOr query.fromMicros fun t => decide (t ≤ block.endMicros)).elim
          (entry + groups.flatten.length) (·.firstEntry) = firstFrom query entry groups := by
    intro size groups
    induction groups with
    | nil => intro offset entry; rfl
    | cons group groups ih =>
      intro offset entry
      rw [blocksFor, firstFrom, List.find?_cons]
      simp only [isNoneOr_eq_not_early]
      cases hearly : Early query group with
      | true =>
        rw [← ih (offset + size group) (entry + group.length)]
        simp [Nat.add_assoc]
      | false => rfl
  have hstart := hfind (fun group => (stored group).length) groups 0 0
  rw [Nat.zero_add] at hstart
  rw [firstCandidate, h.blocks, h.total, ← hstart]
  split <;> simp [*]

variable {gunzip : List UInt8 → List UInt8}

/-- A page read through the index is filled from what its cursor sees of the groups. -/
theorem followed_readIndexedHistoryPage (query : HistoryQuery) {de : Deserializer} (h : seg.Holds stored groups)
    (hdecode : ∀ group ∈ groups,
      de.readAll (if seg.index.compressedBlocks then gunzip (stored group) else stored group) =
        group.map QueryLogEvent.decoded)
    (cursor : Option Nat) :
    (readIndexedHistoryPage de gunzip seg query cursor).followed =
      fill query.pageLimit
        (seenFrom query (max (cursor.getD (firstFrom query 0 groups)) (firstFrom query 0 groups)) 0 groups)
        [] := by
  have hmap := map_bytes_blocksFor stored groups [] 0
  rw [List.nil_append, List.length_nil, ← h.file] at hmap
  have hblocks : (blocksFor (fun group => (stored group).length) 0 0 groups).map (fun block =>
      if seg.index.compressedBlocks then de.readAll (gunzip (block.bytes seg.file))
      else de.readAll (block.bytes seg.file)) = groups.map (·.map QueryLogEvent.decoded) := by
    have hread := congrArg (List.map (fun bytes =>
      de.readAll (if seg.index.compressedBlocks then gunzip bytes else bytes))) hmap
    rw [List.map_map, List.map_map] at hread
    rw [← List.map_congr_left hdecode]
    refine Eq.trans (List.map_congr_left fun block _ => ?_) hread
    simp only [Function.comp_apply]
    split <;> rfl
  rw [HistoryPage.followed, readIndexedHistoryPage]
  simp only [firstCandidate_eq h, h.blocks, blockLoop_eq _ _ _ _ _ _ _ hblocks]
  generalize fill _ _ _ = page
  obtain ⟨events, next⟩ := page
  cases next <;> rfl

/-- Following the cursors gives all that the groups show. -/
theorem collected_indexed {de : Deserializer} (h : seg.Holds stored groups)
    (hdecode : ∀ group ∈ groups,
      de.readAll (if seg.index.compressedBlocks then gunzip (stored group) else stored group) =
        group.map QueryLogEvent.decoded) :
    Collected (fun cursor => (readIndexedHistoryPage de gunzip seg query cursor).followed) none
      ((seenFrom query 0 0 groups).map Prod.snd) := by
  have hall := collected_all query.pageLimit_pos
    (fun cursor => followed_readIndexedHistoryPage query h hdecode cursor) (by
      intro cursor n x hget
      have hmem := List.mem_of_getElem? hget
      have hfirst := (le_of_mem_seenFrom hmem).2
      rw [Option.getD_some, Nat.max_eq_left ((Nat.le_max_right _ _).trans hfirst),
        seenFrom_next h.nonempty hmem, onward_eq_drop (ascending_seenFrom _ _ _) hget]) none
  rw [Option.getD_none, Nat.max_self, seenFrom_firstFrom h.nonempty] at hall
  exact hall

/-! ## What the groups show -/

/-- A group with a matching event is not early, and no group up to it that is not early is late. -/
def Shown (query : HistoryQuery) (groups : List Batch) : Prop :=
  ∀ before group after, groups = before ++ group :: after →
    (∃ ev ∈ group, eventMatches ev.decoded query = true) →
    Early query group = false ∧
      ∀ earlier ∈ before ++ [group], Early query earlier = false → Late query earlier = false

/-- The matching events of the groups. -/
def matching (query : HistoryQuery) (groups : List Batch) : List DecodedEvent :=
  (groups.flatten.map QueryLogEvent.decoded).filter (eventMatches · query)

variable {group : Batch}

theorem seenFrom_zero_cons (hne : group ≠ []) :
    (seenFrom query 0 entry (group :: groups)).map Prod.snd =
      if Early query group then (seenFrom query 0 (entry + group.length) groups).map Prod.snd
      else if Late query group then []
      else matching query [group] ++ (seenFrom query 0 (entry + group.length) groups).map Prod.snd := by
  have hpos : 0 < group.length := List.length_pos_iff.mpr hne
  have hall : onward (groupMatches query entry group) 0 = groupMatches query entry group :=
    onward_of_le fun item _ => Nat.zero_le _
  rw [seenFrom, decide_eq_false (show ¬ entry + group.length ≤ 0 by omega), Bool.false_or]
  split
  · rfl
  · split
    · rfl
    · rw [hall, List.map_append, groupMatches, map_snd_selected, matching]
      simp

theorem matching_cons (group : Batch) (groups : List Batch) :
    matching query (group :: groups) = matching query [group] ++ matching query groups := by
  simp [matching]

theorem matching_ne_nil_iff :
    matching query groups ≠ [] ↔ ∃ group ∈ groups, ∃ ev ∈ group, eventMatches ev.decoded query = true := by
  rw [matching, ne_eq, List.filter_eq_nil_iff]
  simp

theorem shown_cons : Shown query (group :: groups) ↔
    (matching query [group] = [] ∨ Early query group = false ∧ Late query group = false) ∧
      (matching query groups = [] ∨ (Early query group = false → Late query group = false)) ∧
      Shown query groups := by
  constructor
  · intro hs
    refine ⟨or_iff_not_imp_left.mpr fun hne => ?_, or_iff_not_imp_left.mpr fun hne => ?_, ?_⟩
    · obtain ⟨g, hg, hmatch⟩ := matching_ne_nil_iff.mp hne
      obtain rfl := List.mem_singleton.mp hg
      obtain ⟨hearly, hlate⟩ := hs [] g groups rfl hmatch
      exact ⟨hearly, hlate g (List.mem_singleton_self g) hearly⟩
    · obtain ⟨g, hg, hmatch⟩ := matching_ne_nil_iff.mp hne
      obtain ⟨before, after, rfl⟩ := List.append_of_mem hg
      exact (hs (group :: before) g after rfl hmatch).2 group List.mem_cons_self
    · rintro before g after rfl hmatch
      obtain ⟨hearly, hlate⟩ := hs (group :: before) g after rfl hmatch
      exact ⟨hearly, fun e he => hlate e (List.mem_cons_of_mem _ he)⟩
  · rintro ⟨hfirst, hrest, hs⟩ before g after heq hmatch
    cases before with
    | nil =>
      obtain ⟨rfl, -⟩ := List.cons.inj heq
      have hin := hfirst.resolve_left (matching_ne_nil_iff.mpr ⟨group, List.mem_singleton_self _, hmatch⟩)
      exact ⟨hin.1, by simpa using fun _ => hin.2⟩
    | cons first before =>
      obtain ⟨rfl, rfl⟩ := List.cons.inj heq
      obtain ⟨hearly, hlate⟩ := hs before g after rfl hmatch
      have hin := hrest.resolve_left (matching_ne_nil_iff.mpr ⟨g, by simp, hmatch⟩)
      exact ⟨hearly, List.forall_mem_cons.mpr ⟨hin, hlate⟩⟩

theorem shown_of_nil (h : matching query groups = []) : Shown query groups := by
  rintro before g after rfl hmatch
  exact absurd h (matching_ne_nil_iff.mpr ⟨g, by simp, hmatch⟩)

theorem length_seenFrom_le (query : HistoryQuery) (entry : Nat) (hne : ∀ group ∈ groups, group ≠ []) :
    ((seenFrom query 0 entry groups).map Prod.snd).length ≤ (matching query groups).length := by
  induction groups generalizing entry with
  | nil => simp [seenFrom]
  | cons group groups ih =>
    have hrest := ih (entry + group.length) (fun g hg => hne g (List.mem_cons_of_mem _ hg))
    rw [seenFrom_zero_cons (hne group List.mem_cons_self), matching_cons group groups, List.length_append]
    split
    · omega
    · split
      · simp
      · rw [List.length_append]
        omega

/-- All matches are seen exactly when they are shown. By induction on the groups, with the three cases of
a first group. -/
theorem seenFrom_eq_matching_iff (entry : Nat) (hne : ∀ group ∈ groups, group ≠ []) :
    (seenFrom query 0 entry groups).map Prod.snd = matching query groups ↔ Shown query groups := by
  induction groups generalizing entry with
  | nil => exact iff_of_true rfl (shown_of_nil rfl)
  | cons group groups ih =>
    have hne' := fun g hg => hne g (List.mem_cons_of_mem group hg)
    have hrest := ih (entry + group.length) hne'
    rw [seenFrom_zero_cons (hne group List.mem_cons_self), shown_cons, matching_cons group groups]
    cases hearly : Early query group with
    | true =>
      simp only [if_true, ← hrest, Bool.true_eq_false, false_and, or_false, false_implies, or_true, true_and]
      constructor
      · intro heq
        have hle := length_seenFrom_le query (entry + group.length) hne'
        rw [heq, List.length_append] at hle
        have hnil : matching query [group] = [] := List.eq_nil_of_length_eq_zero (by omega)
        rw [hnil, List.nil_append] at heq
        exact ⟨hnil, heq⟩
      · rintro ⟨hnil, heq⟩
        rw [hnil, heq, List.nil_append]
    | false =>
      cases hlate : Late query group with
      | true =>
        have hshown : matching query groups = [] ∧ Shown query groups ↔ matching query groups = [] :=
          and_iff_left_of_imp shown_of_nil
        simp [hshown]
      | false => simp [hrest]

end Pages

/-! ## Whole segments -/

section Segments

variable {write : QueryLogEvent → List UInt8} {de : Deserializer} {gunzip : List UInt8 → List UInt8}
  {batches : List Batch}

theorem flatten_addBatch (groups : List Batch) (batch : Batch) :
    (addBatch groups batch).flatten = groups.flatten ++ batch := by
  rcases List.eq_nil_or_concat' groups with rfl | ⟨init, last, rfl⟩
  · by_cases hbatch : batch = [] <;> simp [addBatch, hbatch]
  · by_cases hbatch : batch = []
    · simp [addBatch, hbatch]
    · simp only [addBatch, List.getLast?_concat, if_neg hbatch, List.dropLast_concat]
      split <;> simp

theorem flatten_groupsOf (batches : List Batch) : (groupsOf batches).flatten = batches.flatten := by
  induction batches using List.reverseRecOn with
  | nil => rfl
  | append_singleton batches batch ih =>
    rw [groupsOf, List.foldl_concat, flatten_addBatch, List.flatten_concat, ← ih, groupsOf]

theorem compressedBlocks_ofBatches (write : QueryLogEvent → List UInt8) (batches : List Batch) :
    (Segment.ofBatches write batches).index.compressedBlocks = false := by
  refine List.foldlRecOn (motive := fun seg : Segment => seg.index.compressedBlocks = false) batches
    (Segment.appendBatch write) rfl fun seg hseg batch _ => ?_
  rw [Segment.appendBatch]
  split
  · exact hseg
  · exact (HistoryIndex.compressedBlocks_appendBatch ..).trans hseg

/-- The deserializer undoes the serializer on the events of a list, whatever follows. -/
def RoundTrips (write : QueryLogEvent → List UInt8) (de : Deserializer) (events : List QueryLogEvent) :
    Prop :=
  ∀ ev ∈ events, ∀ rest, de.next (write ev ++ rest) = some (ev.decoded, rest)

theorem Deserializer.readAll_of_none (de : Deserializer) {bytes : List UInt8} (h : de.next bytes = none) :
    de.readAll bytes = [] := by
  rw [readAll]
  split
  next => rfl
  next hsome => simp [h] at hsome

theorem Deserializer.readAll_of_some (de : Deserializer) {bytes rest : List UInt8} {event : DecodedEvent}
    (h : de.next bytes = some (event, rest)) : de.readAll bytes = event :: de.readAll rest := by
  rw [readAll]
  split
  next hnone => simp [h] at hnone
  next event' rest' hsome =>
    rw [h] at hsome
    obtain ⟨rfl, rfl⟩ := Prod.mk.inj (Option.some.inj hsome)
    rfl

theorem Deserializer.next_nil (de : Deserializer) : de.next [] = none := by
  cases h : de.next [] with
  | none => rfl
  | some read => exact absurd (de.shrinks h) (Nat.not_lt_zero _)

theorem RoundTrips.readAll_plainBytes {group : Batch} (h : RoundTrips write de group) :
    de.readAll (plainBytes write group) = group.map QueryLogEvent.decoded := by
  induction group with
  | nil => exact de.readAll_of_none de.next_nil
  | cons ev group ih =>
    rw [plainBytes, List.flatMap_cons, de.readAll_of_some (h ev List.mem_cons_self _), List.map_cons]
    exact congrArg _ (ih fun e he => h e (List.mem_cons_of_mem _ he))

/-- Following the cursors of an indexed segment, plain or compressed, gives its matching events, each once
and in file order, exactly when no block with a match is ruled out by the times of the first and the last
event of the blocks. The batches may hold events in any order; a block's two times are not its bounds. -/
theorem indexed_pages_complete_iff (hsmall : ∀ batch ∈ batches, batch.length < 2 ^ 32)
    (hwrite : RoundTrips write de batches.flatten) (gzip : List UInt8 → List UInt8)
    (hgzip : ∀ bytes, gunzip (gzip bytes) = bytes)
    (query : HistoryQuery) (seg : Segment)
    (hseg : seg = .ofBatches write batches ∨ seg = (Segment.ofBatches write batches).compressed gzip) :
    Collected (fun cursor => (readIndexedHistoryPage de gunzip seg query cursor).followed) none
        ((batches.flatten.map QueryLogEvent.decoded).filter (eventMatches · query)) ↔
      Shown query (groupsOf batches) := by
  have hholds := Segment.holds_ofBatches write hsmall
  have hread : ∀ group ∈ groupsOf batches,
      de.readAll (plainBytes write group) = group.map QueryLogEvent.decoded := by
    intro group hgroup
    refine RoundTrips.readAll_plainBytes fun ev hev => hwrite ev ?_
    rw [← flatten_groupsOf]
    exact List.mem_flatten.mpr ⟨group, hgroup, hev⟩
  have hcollected : Collected (fun cursor => (readIndexedHistoryPage de gunzip seg query cursor).followed)
      none ((seenFrom query 0 0 (groupsOf batches)).map Prod.snd) := by
    rcases hseg with rfl | rfl
    · refine collected_indexed hholds fun group hgroup => ?_
      rw [compressedBlocks_ofBatches]
      exact hread group hgroup
    · refine collected_indexed (hholds.compressed gzip) fun group hgroup => ?_
      simp only [Segment.compressed, if_true, hgzip]
      exact hread group hgroup
  rw [← seenFrom_eq_matching_iff 0 hholds.nonempty, matching, flatten_groupsOf]
  exact ⟨fun h => hcollected.unique h, fun h => h ▸ hcollected⟩

end Segments

/-! One batch of two events, drained from two shards: the later event first. -/

def sampleLogEvent (micros : Nat) : QueryLogEvent := ⟨0, micros, .v4 0, 0, [], 0, 0, 0, 0, [], none⟩

/-- One byte per event, which is its time. -/
def sampleLogWrite (ev : QueryLogEvent) : List UInt8 := [UInt8.ofNat ev.unixMicros]

def sampleLogRead : Deserializer where
  next
    | [] => none
    | micros :: rest => some ((sampleLogEvent micros.toNat).decoded, rest)
  shrinks := by
    intro bytes event rest h
    cases bytes with
    | nil => simp at h
    | cons b bytes =>
      simp only [Option.some.injEq, Prod.mk.injEq] at h
      rw [← h.2, List.length_cons]
      exact Nat.lt_succ_self _

def sampleLogBatches : List Batch := [[sampleLogEvent 10, sampleLogEvent 5]]

/-- The events since a time. -/
def sampleSince (micros : Nat) : HistoryQuery := ⟨100, some micros, none, none, none, none, none, none, none⟩

theorem roundTrips_sampleLogBatches : RoundTrips sampleLogWrite sampleLogRead sampleLogBatches.flatten := by
  simp only [RoundTrips, sampleLogBatches, List.flatten_cons, List.flatten_nil, List.append_nil,
    List.forall_mem_cons]
  exact ⟨fun _ => rfl, fun _ => rfl, by simp⟩

theorem indexed_pages_complete_iff_sample :
    Collected (fun cursor => (readIndexedHistoryPage sampleLogRead id (.ofBatches sampleLogWrite sampleLogBatches)
        (sampleSince 3) cursor).followed) none
        ((sampleLogBatches.flatten.map QueryLogEvent.decoded).filter (eventMatches · (sampleSince 3))) ↔
      Shown (sampleSince 3) (groupsOf sampleLogBatches) :=
  indexed_pages_complete_iff (by decide) roundTrips_sampleLogBatches id (fun _ => rfl) (sampleSince 3) _ (.inl rfl)

/-- The block is skipped because its last event is older than the window, though its first matches. -/
theorem out_of_order_batch_skipped :
    (sampleLogBatches.flatten.map QueryLogEvent.decoded).filter (eventMatches · (sampleSince 8)) =
        [(sampleLogEvent 10).decoded] ∧
      readIndexedHistoryPage sampleLogRead id (.ofBatches sampleLogWrite sampleLogBatches) (sampleSince 8) none =
        ⟨[], some 2, some 10, some 5, none, false, true⟩ ∧
      ¬ Collected (fun cursor => (readIndexedHistoryPage sampleLogRead id (.ofBatches sampleLogWrite sampleLogBatches)
        (sampleSince 8) cursor).followed) none [(sampleLogEvent 10).decoded] := by
  have hpage : readIndexedHistoryPage sampleLogRead id (.ofBatches sampleLogWrite sampleLogBatches)
      (sampleSince 8) none =
      ⟨[], some 2, some 10, some 5, none, false, true⟩ := by decide
  refine ⟨by decide, hpage, fun h => ?_⟩
  have hlast : Collected (fun cursor => (readIndexedHistoryPage sampleLogRead id
      (.ofBatches sampleLogWrite sampleLogBatches) (sampleSince 8) cursor).followed) none [] :=
    .last (by rw [hpage]; rfl)
  simpa using h.unique hlast

end PathDns
