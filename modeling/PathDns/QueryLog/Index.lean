import PathDns.QueryLog.History

/-!
# Indexed log segments (`querylog/worker.rs`)

Batches appended to a segment with its sparse index, the form in independently compressed blocks, and the
pages that are read through the index. Serializer and compression are parameters.
-/

namespace PathDns

open Paging

def historyIndexVersion : Nat := 1

def historyIndexStride : Nat := 512

structure QueryLogEvent where
  seq : Nat
  unixMicros : Nat
  client : IpAddr
  clientPort : UInt16
  qname : Str
  qtype : UInt16
  rcode : UInt8
  elapsedUs : Nat
  responseBytes : UInt32
  source : Str
  upstream : Option Str
deriving DecidableEq, Repr

/-- The event as the deserializer gives it back; `ser_ip` writes the client as text. -/
def QueryLogEvent.decoded (ev : QueryLogEvent) : DecodedEvent where
  seq := ev.seq
  unixMicros := ev.unixMicros
  client := ipText ev.client
  clientPort := ev.clientPort
  qname := ev.qname
  qtype := ev.qtype
  rcode := ev.rcode
  elapsedUs := ev.elapsedUs
  responseBytes := ev.responseBytes
  source := ev.source
  upstream := ev.upstream

structure HistoryBlock where
  offset : Nat
  len : Nat
  firstEntry : Nat
  entries : Nat
  startMicros : Nat
  endMicros : Nat
deriving DecidableEq, Repr

structure HistoryIndex where
  version : Nat
  compressedBlocks : Bool
  totalEntries : Nat
  startMicros : Option Nat
  endMicros : Option Nat
  blocks : List HistoryBlock
deriving DecidableEq, Repr

def HistoryIndex.empty : HistoryIndex := ⟨historyIndexVersion, false, 0, none, none, []⟩

/-- `HistoryIndex::append_batch`. The entries of a block are counted in 32 bits. -/
def HistoryIndex.appendBatch (index : HistoryIndex) (offset len : Nat) (batch : List QueryLogEvent) :
    HistoryIndex :=
  match batch with
  | [] => index
  | first :: rest =>
    let endMicros := (batch.getLast?.map QueryLogEvent.unixMicros).getD first.unixMicros
    let count := (first :: rest).length
    let index := { index with
      startMicros := index.startMicros.or (some first.unixMicros), endMicros := some endMicros }
    let pushed := { index with
      blocks := index.blocks ++
        [⟨offset, len, index.totalEntries, count % 2 ^ 32, first.unixMicros, endMicros⟩]
      totalEntries := index.totalEntries + count }
    match index.blocks.getLast? with
    | none => pushed
    | some last =>
      if last.firstEntry + last.entries = index.totalEntries ∧
          last.entries + count ≤ historyIndexStride ∧ last.offset + last.len = offset then
        { index with
          blocks := index.blocks.dropLast ++ [{ last with
            len := last.len + len, entries := last.entries + count % 2 ^ 32, endMicros := endMicros }]
          totalEntries := index.totalEntries + count }
      else pushed

/-- A segment file with its index. -/
structure Segment where
  file : List UInt8
  index : HistoryIndex

/-- `MsgpackFileState::append_batch` up to the rotation. -/
def Segment.appendBatch (write : QueryLogEvent → List UInt8) (seg : Segment)
    (batch : List QueryLogEvent) : Segment :=
  if batch.isEmpty then seg
  else
    let buf := batch.flatMap write
    ⟨seg.file ++ buf, seg.index.appendBatch seg.file.length buf.length batch⟩

/-- A segment that batches were appended to. -/
def Segment.ofBatches (write : QueryLogEvent → List UInt8) (batches : List (List QueryLogEvent)) :
    Segment :=
  batches.foldl (Segment.appendBatch write) ⟨[], .empty⟩

/-- The bytes of a block. -/
def HistoryBlock.bytes (block : HistoryBlock) (file : List UInt8) : List UInt8 :=
  (file.drop block.offset).take block.len

/-- The loop of `compress_to_gz` over the blocks of the index. -/
def compressBlocks (gzip : List UInt8 → List UInt8) (file : List UInt8) :
    List HistoryBlock → (outputOffset : Nat) → List UInt8 × List HistoryBlock
  | [], _ => ([], [])
  | block :: blocks, outputOffset =>
    let compressed := gzip (block.bytes file)
    let (dst, rest) := compressBlocks gzip file blocks (outputOffset + compressed.length)
    (compressed ++ dst, { block with offset := outputOffset, len := compressed.length } :: rest)

/-- `compress_to_gz` of an indexed segment. -/
def Segment.compressed (gzip : List UInt8 → List UInt8) (seg : Segment) : Segment :=
  let (dst, blocks) := compressBlocks gzip seg.file seg.index.blocks 0
  ⟨dst, { seg.index with compressedBlocks := true, blocks := blocks }⟩

/-! ## Pages -/

/-- The events of one block, from `ordinal` on. -/
def eventLoop (query : HistoryQuery) (cursor : Nat) :
    List DecodedEvent → (ordinal : Nat) → (events : List DecodedEvent) → Page DecodedEvent
  | [], _, events => ⟨events, none⟩
  | event :: rest, ordinal, events =>
    if ordinal < cursor then eventLoop query cursor rest (ordinal + 1) events
    else if eventMatches event query then
      if events.length < query.pageLimit then
        eventLoop query cursor rest (ordinal + 1) (events ++ [event])
      else ⟨events, some ordinal⟩
    else eventLoop query cursor rest (ordinal + 1) events

/-- The loop of `read_indexed_history_page` over the blocks. -/
def blockLoop (query : HistoryQuery) (cursor : Nat) (decode : HistoryBlock → List DecodedEvent) :
    List HistoryBlock → (events : List DecodedEvent) → Page DecodedEvent
  | [], events => ⟨events, none⟩
  | block :: blocks, events =>
    if block.firstEntry + block.entries ≤ cursor then blockLoop query cursor decode blocks events
    else if query.fromMicros.any (fun t => decide (block.endMicros < t)) then
      blockLoop query cursor decode blocks events
    else if query.toMicros.any (fun t => decide (t < block.startMicros)) then ⟨events, none⟩
    else
      let page := eventLoop query cursor (decode block) block.firstEntry events
      if page.next.isSome then page else blockLoop query cursor decode blocks page.events

def firstCandidate (query : HistoryQuery) (index : HistoryIndex) : Nat :=
  match index.blocks.find? (fun block => isNoneOr query.fromMicros (fun t => decide (t ≤ block.endMicros))) with
  | none => index.totalEntries
  | some block => block.firstEntry

def readIndexedHistoryPage (de : Deserializer) (gunzip : List UInt8 → List UInt8) (seg : Segment)
    (query : HistoryQuery) (cursor : Option Nat) : HistoryPage :=
  let first := firstCandidate query seg.index
  let cursor := max (cursor.getD first) first
  let decode := fun block =>
    if seg.index.compressedBlocks then de.readAll (gunzip (block.bytes seg.file))
    else de.readAll (block.bytes seg.file)
  let page := blockLoop query cursor decode seg.index.blocks []
  { events := page.events, totalEntries := some seg.index.totalEntries,
    startMicros := seg.index.startMicros, endMicros := seg.index.endMicros,
    nextCursor := page.next, hasMore := page.next.isSome, indexed := true }

end PathDns
