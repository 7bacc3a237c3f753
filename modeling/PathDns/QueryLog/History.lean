import PathDns.Config.Texts
import PathDns.Lib.Paging

/-!
# Pages of the query history (`querylog/worker.rs`)

The events of a log segment, the filter of a history query, and the pages of a segment that has no usable
index. The deserializer is a parameter: it takes an event off the front of the bytes, or fails.
-/

namespace PathDns

open Paging

def historyPageMax : Nat := 200

structure DecodedEvent where
  seq : Nat
  unixMicros : Nat
  client : Str
  clientPort : UInt16
  qname : Str
  qtype : UInt16
  rcode : UInt8
  elapsedUs : Nat
  responseBytes : UInt32
  source : Str
  upstream : Option Str
deriving DecidableEq, Repr

/-- `HistoryQuery` without the cursor, which the page functions take by itself. -/
structure HistoryQuery where
  limit : Nat
  fromMicros : Option Nat
  toMicros : Option Nat
  qname : Option Str
  rcode : Option UInt8
  source : Option Str
  upstream : Option Str
  client : Option Str
  qtype : Option UInt16
deriving DecidableEq, Repr

structure HistoryPage where
  events : List DecodedEvent
  totalEntries : Option Nat
  startMicros : Option Nat
  endMicros : Option Nat
  nextCursor : Option Nat
  hasMore : Bool
  indexed : Bool
deriving DecidableEq, Repr

def Str.contains (s needle : Str) : Bool := s.tails.any (fun rest => needle.isPrefixOf rest)

def isNoneOr {α : Type} (o : Option α) (p : α → Bool) : Bool := o.all p

def eventMatches (event : DecodedEvent) (query : HistoryQuery) : Bool :=
  isNoneOr query.fromMicros (fun t => decide (t ≤ event.unixMicros)) &&
  isNoneOr query.toMicros (fun t => decide (event.unixMicros ≤ t)) &&
  isNoneOr query.qname (fun q => q.isEmpty || event.qname.contains q) &&
  isNoneOr query.rcode (fun rcode => event.rcode == rcode) &&
  isNoneOr query.source (fun source => source.isEmpty || event.source == source) &&
  isNoneOr query.upstream (fun u => u.isEmpty || event.upstream.any (fun eu => eu.contains u)) &&
  isNoneOr query.client (fun c => c.isEmpty || event.client.contains c) &&
  isNoneOr query.qtype (fun t => event.qtype == t)

/-- `query.limit.clamp(1, HISTORY_PAGE_MAX)`. -/
def HistoryQuery.pageLimit (query : HistoryQuery) : Nat := max 1 (min query.limit historyPageMax)

/-- What takes one event off the front of the bytes. An event is at least one byte long. -/
structure Deserializer where
  next : List UInt8 → Option (DecodedEvent × List UInt8)
  shrinks : ∀ {bytes event rest}, next bytes = some (event, rest) → rest.length < bytes.length

/-- The events that are read before the first error. -/
def Deserializer.readAll (de : Deserializer) (bytes : List UInt8) : List DecodedEvent :=
  match h : de.next bytes with
  | none => []
  | some (event, rest) =>
    have := de.shrinks h
    event :: de.readAll rest
termination_by bytes.length

/-! ## Segments without an index -/

/-- Some filter of the query is set. -/
def HistoryQuery.filtered (query : HistoryQuery) : Bool :=
  query.qname.any (fun q => !q.isEmpty) || query.rcode.isSome ||
  query.source.any (fun s => !s.isEmpty) || query.upstream.any (fun s => !s.isEmpty) ||
  query.client.any (fun s => !s.isEmpty) || query.qtype.isSome ||
  query.fromMicros.isSome || query.toMicros.isSome

/-- `max_scan`: how many records from the cursor on a request looks at. -/
def HistoryQuery.maxScan (query : HistoryQuery) : Nat :=
  if query.filtered then max (query.pageLimit * 100) 10000 else 2 ^ 64 - 1

/-- The loop of `read_legacy_history_page` over the events that the deserializer still yields. -/
def legacyLoop (query : HistoryQuery) (cursor : Nat) :
    List DecodedEvent → (ordinal : Nat) → (events : List DecodedEvent) → Page DecodedEvent
  | [], _, events => ⟨events, none⟩
  | event :: records, ordinal, events =>
    if query.maxScan ≤ ordinal - cursor then ⟨events, none⟩
    else if ordinal < cursor || !eventMatches event query then
      legacyLoop query cursor records (ordinal + 1) events
    else if events.length < query.pageLimit then
      legacyLoop query cursor records (ordinal + 1) (events ++ [event])
    else ⟨events, some ordinal⟩

/-- `read_legacy_history_page`; a segment whose name ends in `.gz` is inflated first. -/
def readLegacyHistoryPage (de : Deserializer) (inflate : List UInt8 → List UInt8) (gz : Bool)
    (file : List UInt8) (query : HistoryQuery) (cursor : Option Nat) : HistoryPage :=
  let records := de.readAll (if gz then inflate file else file)
  let page := legacyLoop query (cursor.getD 0) records 0 []
  { events := page.events, totalEntries := none, startMicros := none, endMicros := none,
    nextCursor := page.next, hasMore := page.next.isSome, indexed := false }

/-- What a client takes from a page: the events, and the next cursor unless this was the last page. -/
def HistoryPage.followed (page : HistoryPage) : Page DecodedEvent :=
  ⟨page.events, if page.hasMore then page.nextCursor else none⟩

/-- The matching records of a segment with their ordinals. -/
def matchesOf (query : HistoryQuery) (records : List DecodedEvent) : List (Nat × DecodedEvent) :=
  selected (eventMatches · query) 0 records

theorem HistoryQuery.maxScan_pos (query : HistoryQuery) : 0 < query.maxScan := by
  rw [maxScan]
  split
  · exact lt_max_of_lt_right (by decide)
  · decide

theorem HistoryQuery.pageLimit_pos (query : HistoryQuery) : 0 < query.pageLimit :=
  lt_max_of_lt_left (by decide)

/-- The loop fills the page from the matching records in the scan window. -/
theorem legacyLoop_eq (query : HistoryQuery) (cursor : Nat) (records : List DecodedEvent)
    (ordinal : Nat) (events : List DecodedEvent) :
    legacyLoop query cursor records ordinal events =
      fill query.pageLimit
        (window query.maxScan (selected (eventMatches · query) ordinal records) cursor) events := by
  induction records generalizing ordinal events with
  | nil => rfl
  | cons event records ih =>
    rw [legacyLoop]
    have hpos := query.maxScan_pos
    by_cases hcap : query.maxScan ≤ ordinal - cursor
    · -- past the cap nothing is in the window
      have hnone : window query.maxScan (selected (eventMatches · query) ordinal (event :: records)) cursor
          = [] := by
        rw [window, List.filter_eq_nil_iff]
        intro item hitem hin
        have hle := le_of_mem_selected hitem
        rw [decide_eq_true_iff] at hin
        omega
      rw [if_pos hcap, hnone, fill]
    · rw [if_neg hcap, selected_cons]
      by_cases hmatch : eventMatches event query = true
      · rw [if_pos hmatch, window, List.filter_cons]
        by_cases hlt : ordinal < cursor
        · rw [if_pos (by simp [hlt]), if_neg (by simp; omega)]
          exact ih (ordinal + 1) events
        · rw [if_neg (by simp [hlt, hmatch]), if_pos (decide_eq_true ⟨by omega, by omega⟩), fill]
          split
          · exact ih (ordinal + 1) (events ++ [event])
          · rfl
      · rw [if_neg hmatch, if_pos (by simp [hmatch])]
        exact ih (ordinal + 1) events

theorem followed_readLegacyHistoryPage (de : Deserializer) (inflate : List UInt8 → List UInt8) (gz : Bool)
    (file : List UInt8) (query : HistoryQuery) (cursor : Option Nat) :
    (readLegacyHistoryPage de inflate gz file query cursor).followed =
      fill query.pageLimit
        (window query.maxScan (matchesOf query (de.readAll (if gz then inflate file else file)))
          (cursor.getD 0)) [] := by
  rw [HistoryPage.followed, readLegacyHistoryPage]
  simp only [legacyLoop_eq, matchesOf]
  generalize fill _ _ _ = page
  obtain ⟨events, next⟩ := page
  cases next <;> rfl

/-- Following the cursors of a segment without an index gives its matching events, each once and in file
order, exactly when no match is out of reach: with a filter a request ends without a cursor when it has
looked at `maxScan` records, so a match that far after the start of its page is lost with all after it. -/
theorem legacy_pages_complete_iff (de : Deserializer) (inflate : List UInt8 → List UInt8) (gz : Bool)
    (file : List UInt8) (query : HistoryQuery) :
    let records := de.readAll (if gz then inflate file else file)
    Collected (fun cursor => (readLegacyHistoryPage de inflate gz file query cursor).followed) none
        (records.filter (eventMatches · query)) ↔
      InReach query.pageLimit query.maxScan 0 ((matchesOf query records).map Prod.fst) := by
  intro records
  obtain ⟨out, hout, hiff⟩ := collected_window query.pageLimit_pos
    (ascending_selected (eventMatches · query) 0 records)
    (fun cursor => followed_readLegacyHistoryPage de inflate gz file query cursor) none
  have hall : onward (selected (eventMatches · query) 0 records) (Option.getD none 0) =
      matchesOf query records := onward_of_le (fun item _ => Nat.zero_le _)
  rw [hall, matchesOf, map_snd_selected, Option.getD_none] at hiff
  rw [matchesOf, ← hiff]
  exact ⟨fun h => hout.unique h, fun h => h ▸ hout⟩

/-! A segment of 10000 events without a match, and one with it. -/

def sampleEvent (rcode : UInt8) : DecodedEvent := ⟨0, 0, [], 0, [], 0, rcode, 0, 0, [], none⟩

/-- One byte per event, which is its response code. -/
def sampleDeserializer : Deserializer where
  next
    | [] => none
    | rcode :: rest => some (sampleEvent rcode, rest)
  shrinks := by
    intro bytes event rest h
    cases bytes with
    | nil => simp at h
    | cons b bytes =>
      simp only [Option.some.injEq, Prod.mk.injEq] at h
      rw [← h.2, List.length_cons]
      exact Nat.lt_succ_self _

theorem sampleDeserializer_readAll (bytes : List UInt8) :
    sampleDeserializer.readAll bytes = bytes.map sampleEvent := by
  induction bytes with
  | nil => rw [Deserializer.readAll]; rfl
  | cons b bytes ih => rw [Deserializer.readAll, List.map_cons, ← ih]; rfl

/-- Failed lookups, one to a page. -/
def sampleHistoryQuery : HistoryQuery := ⟨1, none, none, none, some 3, none, none, none, none⟩

def sampleFile : List UInt8 := List.replicate 10000 0 ++ [3]

theorem matchesOf_sampleFile :
    matchesOf sampleHistoryQuery (sampleFile.map sampleEvent) = [(10000, sampleEvent 3)] := by
  have hnone : ∀ n start, selected (eventMatches · sampleHistoryQuery) start
      ((List.replicate n (0 : UInt8)).map sampleEvent) = [] := by
    intro n
    induction n with
    | zero => intro start; rfl
    | succ n ih =>
      intro start
      rw [List.replicate_succ, List.map_cons, selected_cons, if_neg (by decide), ih]
  rw [matchesOf, sampleFile, List.map_append, selected_append, hnone, List.length_map,
    List.length_replicate]
  rfl

/-- The only page is empty and says that there is no more, though the last event matches. -/
theorem match_past_scan_lost :
    (sampleDeserializer.readAll sampleFile).filter (eventMatches · sampleHistoryQuery) = [sampleEvent 3] ∧
      readLegacyHistoryPage sampleDeserializer id false sampleFile sampleHistoryQuery none =
        ⟨[], none, none, none, none, false, false⟩ ∧
      ¬ Collected (fun cursor =>
          (readLegacyHistoryPage sampleDeserializer id false sampleFile sampleHistoryQuery cursor).followed) none
        [sampleEvent 3] := by
  have hmatches := matchesOf_sampleFile
  have hpage : readLegacyHistoryPage sampleDeserializer id false sampleFile sampleHistoryQuery none =
      ⟨[], none, none, none, none, false, false⟩ := by
    rw [readLegacyHistoryPage]
    simp only [legacyLoop_eq, sampleDeserializer_readAll]
    have hwindow : window sampleHistoryQuery.maxScan (selected (eventMatches · sampleHistoryQuery) 0
        (sampleFile.map sampleEvent)) 0 = [] := by
      rw [matchesOf] at hmatches
      rw [hmatches]
      decide
    simp [hwindow, fill]
  refine ⟨?_, hpage, fun h => ?_⟩
  · rw [sampleDeserializer_readAll, ← map_snd_selected _ 0]
    exact congrArg (List.map Prod.snd) hmatches
  · have hlast : Collected (fun cursor =>
        (readLegacyHistoryPage sampleDeserializer id false sampleFile sampleHistoryQuery cursor).followed) none [] :=
      .last (by rw [hpage]; rfl)
    simpa using h.unique hlast

end PathDns
