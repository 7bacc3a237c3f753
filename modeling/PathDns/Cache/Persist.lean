import PathDns.Cache.Store
import PathDns.Lib.Reader

/-!
# The cache file (`save_to_file`, `load_from_file`, `persist.rs`)

A file is a header (magic, fingerprint, count) and one record an entry. A record keeps the wall-clock
deadline of its entry; loading rebuilds the age from it and places the insertion on the monotonic clock.

Monotonic times count nanoseconds from the earliest instant that `Instant` can represent, so that
`Instant::checked_sub` fails exactly when the natural subtraction does. On Linux an instant has signed
64-bit seconds, and the clock reads at least `bootInstant`. Wall-clock times are whole seconds since the
epoch.
-/

namespace PathDns

open Bytes Reader

/-- One record of the file. -/
structure Record where
  key : CacheKey
  expireUnix : UInt64
  ttl : UInt32
  question : List UInt8
  packet : Packet
  query : Packet
  qname : List UInt8
  offsets : TtlOffsets
  ruleId : UInt16
deriving DecidableEq, Repr

def maxPersistedBytes : Nat := 65536

def cacheMagic : List UInt8 := "PDNSC009".toUTF8.toList

def writeHeader (magic : List UInt8) (fingerprint : UInt64) (count : Nat) : List UInt8 :=
  magic ++ encLe 8 fingerprint.toNat ++ encLe 4 count

def readAndCheckHeader (magic : List UInt8) (fingerprint : UInt64) (label : String) : Read Nat :=
  fun input => do
    let (storedMagic, rest) ← exact 8 input
    if storedMagic ≠ magic then throw s!"unrecognised {label} file format (magic mismatch)"
    let (storedFp, rest) ← le 8 rest
    if storedFp ≠ fingerprint.toNat then
      throw s!"{label} file was built with a different config (fingerprint mismatch) — discarding"
    le 4 rest

theorem readAndCheckHeader_writeHeader {magic : List UInt8} (hmagic : magic.length = 8) (fingerprint : UInt64)
    (label : String) (count : Nat) (tail : List UInt8) : readAndCheckHeader magic fingerprint label
      (writeHeader magic fingerprint count ++ tail) = .ok (count % 256 ^ 4, tail) := by
  have hfp : fingerprint.toNat < 256 ^ 8 := fingerprint.toNat_lt
  simp [readAndCheckHeader, writeHeader, List.append_assoc, exact_append hmagic, le_append hfp, le_append_mod,
    bind, Except.bind]

def encodeOffset (o : UInt32 × UInt32) : List UInt8 := encLe 4 o.1.toNat ++ encLe 4 o.2.toNat

def readOffset : Read (UInt32 × UInt32) := fun input => do
  let (off, rest) ← le 4 input
  let (ttl, rest) ← le 4 rest
  return ((.ofNat off, .ofNat ttl), rest)

/-- The bytes `save_to_file` writes for one entry. -/
def encodeRecord (r : Record) : List UInt8 :=
  encLe 8 r.key.toNat ++ encLe 8 r.expireUnix.toNat ++ encLe 4 r.ttl.toNat ++ encSized r.question ++
    encSized r.packet ++ encSized r.query ++ encSized r.qname ++ encLe 4 r.offsets.length ++
    r.offsets.flatMap encodeOffset ++ encLe 2 r.ruleId.toNat

/-- The reads of one turn of the loop of `load_from_file`. -/
def readRecord : Read Record := fun input => do
  let (key, rest) ← le 8 input
  let (expireUnix, rest) ← le 8 rest
  let (ttl, rest) ← le 4 rest
  let (question, rest) ← sized maxPersistedBytes rest
  let (packet, rest) ← sized maxPersistedBytes rest
  let (query, rest) ← sized maxPersistedBytes rest
  let (qname, rest) ← sized maxPersistedBytes rest
  let (count, rest) ← le 4 rest
  if 65535 < count then
    throw s!"cache file: TTL-offset count too large ({count}); file is likely corrupt"
  let (offsets, rest) ← many readOffset count rest
  let (ruleId, rest) ← le 2 rest
  return (⟨.ofNat key, .ofNat expireUnix, .ofNat ttl, question, packet, query, qname, offsets,
    .ofNat ruleId⟩, rest)

/-- The zero of `CLOCK_MONOTONIC`: `2 ^ 63` seconds can be represented before it. -/
def bootInstant : Nat := 2 ^ 63 * 1000000000

/-- Where `load_from_file` puts a record on the monotonic clock: the insertion time and the TTL. -/
def Record.anchor (nowUnix now : Nat) (r : Record) : Nat × UInt32 :=
  let remaining := r.expireUnix.toNat - nowUnix
  let ageSecs := r.ttl.toNat - remaining
  if ageSecs * 1000000000 ≤ now then (now - ageSecs * 1000000000, r.ttl)
  -- `checked_sub` is `None`: no instant lies that far back, so the entry starts anew with what is left
  else (now, .ofNat (min remaining r.ttl.toNat))

/-- The entry built from a record, with its insertion time and TTL. -/
def Record.toEntry (r : Record) (qname : Utf8.Text) (place : Nat × UInt32) : Entry where
  packet := r.packet
  query := r.query
  qname := qname
  questionEnd := 12 + r.question.length
  variant := extractVariant r.query (12 + r.question.length)
  inserted := place.1
  ttl := place.2
  ttlOffsets := r.offsets
  ruleId := r.ruleId

theorem Record.toEntry_inserted (r : Record) (qname : Utf8.Text) (place : Nat × UInt32) :
    (r.toEntry qname place).inserted = place.1 := rfl

theorem Record.toEntry_ttl (r : Record) (qname : Utf8.Text) (place : Nat × UInt32) :
    (r.toEntry qname place).ttl = place.2 := rfl

/-- The entry a record is restored to at wall-clock time `nowUnix` and monotonic time `now`, or none
when it is skipped. -/
def Record.restore (nowUnix now : Nat) (r : Record) : Option Entry :=
  if r.expireUnix.toNat ≤ nowUnix then none
  else (Utf8.Text.fromUtf8 r.qname).map (fun qname => r.toEntry qname (r.anchor nowUnix now))

theorem Record.restore_spec {nowUnix now : Nat} {r : Record} {e : Entry} (h : r.restore nowUnix now = some e) :
    ∃ qname, Utf8.Text.fromUtf8 r.qname = some qname ∧ e = r.toEntry qname (r.anchor nowUnix now) := by
  rw [Record.restore] at h
  split_ifs at h
  obtain ⟨qname, hqname, rfl⟩ := Option.map_eq_some_iff.mp h
  exact ⟨qname, hqname, rfl⟩

/-- The loop of `load_from_file`. An unreadable record ends it; what was inserted before stays. -/
def loadLoop (nowUnix now : Nat) : Nat → List UInt8 → EntryMap → Nat →
    Except String Nat × EntryMap
  | 0, _, m, loaded => (.ok loaded, m)
  | n + 1, input, m, loaded =>
    match readRecord input with
    | .error e => (.error e, m)
    | .ok (r, rest) =>
      match r.restore nowUnix now with
      | none => loadLoop nowUnix now n rest m loaded
      | some entry => loadLoop nowUnix now n rest (m.insert r.key entry) (loaded + 1)

namespace DnsCache

/-- `load_from_file` on the content of the file. -/
def loadFromFile (c : DnsCache) (nowUnix now : Nat) (fingerprint : UInt64) (file : List UInt8) :
    Except String Nat × DnsCache :=
  match c.cache with
  | none => (.ok 0, c)
  | some m =>
    match readAndCheckHeader cacheMagic fingerprint "cache" file with
    | .error e => (.error e, c)
    | .ok (count, rest) =>
      let (result, m) := loadLoop nowUnix now count rest m 0
      (result, { c with cache := some m })

/-- The record `save_to_file` writes for an entry, none when it has expired. `now` is the monotonic
time at which the entry is looked at. -/
def recordOf (nowUnix now : Nat) (key : CacheKey) (e : Entry) : Option Record :=
  let remaining := e.ttl.toNat - asSecs (now - e.inserted)
  if remaining = 0 then none
  else some {
    key := key
    expireUnix := .ofNat (nowUnix + remaining)
    ttl := e.ttl
    -- `entry.query.get(12..entry.question_end).unwrap_or_default()`
    question := if 12 ≤ e.questionEnd ∧ e.questionEnd ≤ e.query.length then
        slice e.query 12 e.questionEnd else []
    packet := e.packet
    query := e.query
    qname := e.qname.bytes
    offsets := e.ttlOffsets
    ruleId := e.ruleId }

/-- The records of the live entries, in the order of the iteration. -/
def liveRecords (nowUnix now : Nat) (m : EntryMap) : List Record :=
  m.entries.filterMap (fun p => recordOf nowUnix now p.1 p.2)

/-- The content `save_to_file` writes; no file is written when there is no cache. -/
def saveToFile (c : DnsCache) (nowUnix now : Nat) (fingerprint : UInt64) : Option (List UInt8) :=
  c.cache.map (fun m =>
    let records := liveRecords nowUnix now m
    writeHeader cacheMagic fingerprint records.length ++ records.flatMap encodeRecord)

end DnsCache

/-! ### Reading back what was written -/

/-- The record is within the limits the loader checks. -/
structure Record.Readable (r : Record) : Prop where
  question : r.question.length ≤ maxPersistedBytes
  packet : r.packet.length ≤ maxPersistedBytes
  query : r.query.length ≤ maxPersistedBytes
  qname : r.qname.length ≤ maxPersistedBytes
  offsets : r.offsets.length ≤ 65535

theorem readOffset_encodeOffset (o : UInt32 × UInt32) (tail : List UInt8) :
    readOffset (encodeOffset o ++ tail) = .ok (o, tail) := by
  have h1 : o.1.toNat < 256 ^ 4 := o.1.toNat_lt
  have h2 : o.2.toNat < 256 ^ 4 := o.2.toNat_lt
  rw [readOffset, encodeOffset, List.append_assoc, le_append h1]
  simp [bind, Except.bind, pure, Except.pure, le_append h2]

theorem readRecord_encodeRecord {r : Record} (h : r.Readable) (tail : List UInt8) :
    readRecord (encodeRecord r ++ tail) = .ok (r, tail) := by
  have hkey : r.key.toNat < 256 ^ 8 := r.key.toNat_lt
  have hexpire : r.expireUnix.toNat < 256 ^ 8 := r.expireUnix.toNat_lt
  have httl : r.ttl.toNat < 256 ^ 4 := r.ttl.toNat_lt
  have hrule : r.ruleId.toNat < 256 ^ 2 := r.ruleId.toNat_lt
  have hsmall : ∀ n, n ≤ maxPersistedBytes → n < 256 ^ 4 := by
    intro n hn
    rw [maxPersistedBytes] at hn
    omega
  have hcount : r.offsets.length < 256 ^ 4 := by
    have := h.offsets
    omega
  simp only [readRecord, encodeRecord, List.append_assoc, bind, Except.bind, pure, Except.pure,
    le_append hkey, le_append hexpire, le_append httl, sized_append h.question (hsmall _ h.question),
    sized_append h.packet (hsmall _ h.packet), sized_append h.query (hsmall _ h.query),
    sized_append h.qname (hsmall _ h.qname), le_append hcount,
    if_neg (Nat.not_lt.mpr h.offsets),
    many_flatMap (fun o _ tail => readOffset_encodeOffset o tail), le_append hrule,
    UInt64.ofNat_toNat, UInt32.ofNat_toNat, UInt16.ofNat_toNat]

/-- The map after restoring a list of records. -/
def restoreAll (nowUnix now : Nat) (records : List Record) (m : EntryMap) : EntryMap :=
  records.foldl (fun m r =>
    match r.restore nowUnix now with
    | none => m
    | some entry => m.insert r.key entry) m

/-- Over readable records the loop restores every one of them and goes on with the tail. -/
theorem loadLoop_append {nowUnix now : Nat} {records : List Record}
    (h : ∀ r ∈ records, r.Readable) (n : Nat) (tail : List UInt8) (m : EntryMap) (loaded : Nat) :
    ∃ loaded', loadLoop nowUnix now (records.length + n) (records.flatMap encodeRecord ++ tail) m
        loaded =
      loadLoop nowUnix now n tail (restoreAll nowUnix now records m) loaded' := by
  induction records generalizing m loaded with
  | nil => exact ⟨loaded, by simp [restoreAll]⟩
  | cons r rs ih =>
    have hr := readRecord_encodeRecord (h r List.mem_cons_self) (rs.flatMap encodeRecord ++ tail)
    have hrs : ∀ x ∈ rs, x.Readable := fun x hx => h x (List.mem_cons_of_mem _ hx)
    rw [List.length_cons, Nat.add_right_comm, loadLoop, List.flatMap_cons, List.append_assoc, hr]
    cases hres : r.restore nowUnix now with
    | none => simpa [restoreAll, hres] using ih hrs m loaded
    | some entry => simpa [restoreAll, hres] using ih hrs (m.insert r.key entry) (loaded + 1)

/-- The lengths of a record fit the 32-bit fields they are written to. -/
structure Record.Writable (r : Record) : Prop where
  question : r.question.length < 256 ^ 4
  packet : r.packet.length < 256 ^ 4
  query : r.query.length < 256 ^ 4
  qname : r.qname.length < 256 ^ 4
  offsets : r.offsets.length < 256 ^ 4

theorem readRecord_encodeRecord_error {r : Record} (hw : r.Writable) (h : ¬ r.Readable)
    (tail : List UInt8) : ∃ e, readRecord (encodeRecord r ++ tail) = .error e := by
  have hkey : r.key.toNat < 256 ^ 8 := r.key.toNat_lt
  have hexpire : r.expireUnix.toNat < 256 ^ 8 := r.expireUnix.toNat_lt
  have httl : r.ttl.toNat < 256 ^ 4 := r.ttl.toNat_lt
  simp only [readRecord, encodeRecord, List.append_assoc, bind, Except.bind, le_append hkey,
    le_append hexpire, le_append httl]
  -- the first field over its limit stops the reader
  by_cases h1 : r.question.length ≤ maxPersistedBytes
  · simp only [sized_append h1 hw.question]
    by_cases h2 : r.packet.length ≤ maxPersistedBytes
    · simp only [sized_append h2 hw.packet]
      by_cases h3 : r.query.length ≤ maxPersistedBytes
      · simp only [sized_append h3 hw.query]
        by_cases h4 : r.qname.length ≤ maxPersistedBytes
        · simp only [sized_append h4 hw.qname, le_append hw.offsets]
          have h5 : 65535 < r.offsets.length := by
            by_contra h5
            exact h ⟨h1, h2, h3, h4, by omega⟩
          rw [if_pos h5]
          exact ⟨_, rfl⟩
        · simp only [sized_append_error (Nat.not_le.mp h4) hw.qname]
          exact ⟨_, rfl⟩
      · simp only [sized_append_error (Nat.not_le.mp h3) hw.query]
        exact ⟨_, rfl⟩
    · simp only [sized_append_error (Nat.not_le.mp h2) hw.packet]
      exact ⟨_, rfl⟩
  · simp only [sized_append_error (Nat.not_le.mp h1) hw.question]
    exact ⟨_, rfl⟩

end PathDns
