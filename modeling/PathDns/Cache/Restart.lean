import PathDns.Cache.Persist
import PathDns.Dns.Qname

/-!
# Saving and restoring across a restart

A restored entry is compared with the one that would be there without the restart. Wall clock and
monotonic clock advance at one rate, so the uninterrupted process reads `Restart.mono` where the new
one reads `loadMono`. Both clocks are read at one instant when saving and at one when loading.

The rebuilt age is less than two seconds short of the real one (`rebuilt_age`). It has less than `2 ^ 32`
seconds and so fits before every reading of the clock, also before one taken right after boot.
-/

namespace PathDns

open Bytes Reader

/-- The clocks, in nanoseconds, when the cache is saved and when it is loaded. -/
structure Restart where
  saveWall : Nat
  saveMono : Nat
  loadWall : Nat
  loadMono : Nat
  ordered : saveWall ≤ loadWall
  range : asSecs saveWall + 2 ^ 32 < 2 ^ 64
  booted : bootInstant ≤ loadMono

namespace Restart

/-- What the monotonic clock of the uninterrupted process reads at the load. -/
def mono (r : Restart) : Nat := r.saveMono + (r.loadWall - r.saveWall)

end Restart

/-- What the cache knows of an entry stored before `now`: the question lies in the query, the variant
is that of the query, and the TTL fields are disjoint and inside the packet. -/
structure Entry.Stored (e : Entry) (now : Nat) : Prop where
  past : e.inserted ≤ now
  question_ge : 12 ≤ e.questionEnd
  question_le : e.questionEnd ≤ e.query.length
  variant : e.variant = extractVariant e.query e.questionEnd
  packetSize : e.packet.length < 256 ^ 4
  querySize : e.query.length < 256 ^ 4
  qnameSize : e.qname.bytes.length < 256 ^ 4
  offsetsSize : e.ttlOffsets.length < 256 ^ 4
  fit : ∀ o ∈ e.ttlOffsets, o.1.toNat + 4 ≤ e.packet.length
  disjoint : e.ttlOffsets.Pairwise (fun o p => o.1.toNat + 4 ≤ p.1.toNat)

/-- What bounds an entry: DNS messages have 16-bit lengths, and the name is the one of the query. -/
structure Entry.Bounded (e : Entry) : Prop where
  packet : e.packet.length ≤ 65535
  query : e.query.length ≤ 65535
  qname : FromQuestion e.qname

/-- The age in whole seconds a lookup computes. -/
def Entry.age (e : Entry) (now : Nat) : Nat := asSecs (now - e.inserted)

/-- The TTL a lookup at `now` writes into the field of `o`. -/
def Entry.servedTtl (e : Entry) (now : Nat) (o : UInt32 × UInt32) : Nat :=
  u32be (patchTtlsAt e.packet e.ttlOffsets (.ofNat (min (e.age now) 4294967295))) o.1.toNat

variable {e : Entry}

theorem Entry.servedTtl_eq (hfit : ∀ o ∈ e.ttlOffsets, o.1.toNat + 4 ≤ e.packet.length)
    (hdisjoint : e.ttlOffsets.Pairwise (fun o p => o.1.toNat + 4 ≤ p.1.toNat)) (now : Nat) {o : UInt32 × UInt32}
    (ho : o ∈ e.ttlOffsets) : e.servedTtl now o = o.2.toNat - e.age now := by
  have hlt := o.2.toNat_lt
  have helapsed : (UInt32.ofNat (min (e.age now) 4294967295)).toNat = min (e.age now) 4294967295 := by
    rw [UInt32.toNat_ofNat']
    omega
  rw [servedTtl, u32be_encU32be (n := o.2.toNat - min (e.age now) 4294967295) (by omega)]
  · omega
  · intro k hk
    rw [byteAt_patchTtlsAt_in hfit hdisjoint ho hk, helapsed]

/-- Everything of an entry but its place on the clock. -/
def Entry.SameContent (e e' : Entry) : Prop :=
  e'.packet = e.packet ∧ e'.query = e.query ∧ e'.qname = e.qname ∧ e'.questionEnd = e.questionEnd ∧
    e'.variant = e.variant ∧ e'.ttlOffsets = e.ttlOffsets ∧ e'.ruleId = e.ruleId

/-- The restored map `new` against the saved map `old`. -/
structure Faithful (r : Restart) (old new : EntryMap) : Prop where
  exact : ∀ k, (new.lookup k).isSome ↔ ∃ e rec, old.lookup k = some e ∧
    DnsCache.recordOf (asSecs r.saveWall) r.saveMono k e = some rec ∧
    asSecs r.loadWall < rec.expireUnix.toNat
  content : ∀ k e e', old.lookup k = some e → new.lookup k = some e' → e.SameContent e'
  deadline : ∀ k e e', old.lookup k = some e → new.lookup k = some e' → ∀ t,
    e'.age (r.loadMono + t) < e'.ttl.toNat → e.age (r.mono + t) < e.ttl.toNat + 2
  ttls : ∀ k e e', old.lookup k = some e → new.lookup k = some e' → ∀ t,
    e'.age (r.loadMono + t) < e'.ttl.toNat → ∀ o ∈ e.ttlOffsets,
      e'.servedTtl (r.loadMono + t) o ≤ e.servedTtl (r.mono + t) o + 2

/-! ### Whole seconds -/

theorem asSecs_le (n : Nat) : asSecs n * 1000000000 ≤ n := Nat.div_mul_le_self n _

theorem lt_asSecs (n : Nat) : n < asSecs n * 1000000000 + 1000000000 :=
  Nat.lt_div_mul_add (by norm_num)

theorem asSecs_mono {m n : Nat} (h : m ≤ n) : asSecs m ≤ asSecs n := Nat.div_le_div_right h

theorem age_lt_of_secs (age : Nat) {save load : Nat} (h : save ≤ load) :
    age + (load - save) <
      (asSecs age + (asSecs load - asSecs save)) * 1000000000 + 2000000000 := by
  have hage := lt_asSecs age
  have hsave := asSecs_le save
  have hload := lt_asSecs load
  obtain ⟨d, hd⟩ := Nat.exists_eq_add_of_le (asSecs_mono h)
  rw [hd, Nat.add_sub_cancel_left, Nat.add_mul]
  rw [hd, Nat.add_mul] at hload
  generalize asSecs age = a at *
  generalize asSecs save = s at *
  omega

/-! ### One entry -/

section OneEntry

variable {r : Restart} {k : CacheKey} {e : Entry} {rec : Record} {nowUnix : Nat}

theorem recordOf_taken {now : Nat} (hrec : DnsCache.recordOf nowUnix now k e = some rec) :
    rec.key = k ∧ rec.ttl = e.ttl ∧ rec.packet = e.packet ∧ rec.query = e.query ∧
      rec.qname = e.qname.bytes ∧ rec.offsets = e.ttlOffsets ∧ rec.ruleId = e.ruleId := by
  revert hrec
  fun_cases DnsCache.recordOf nowUnix now k e <;> rintro ⟨⟩
  exact ⟨rfl, rfl, rfl, rfl, rfl, rfl, rfl⟩

theorem recordOf_expiry (hrec : DnsCache.recordOf (asSecs r.saveWall) r.saveMono k e = some rec) :
    e.age r.saveMono < e.ttl.toNat ∧
      rec.expireUnix.toNat = asSecs r.saveWall + (e.ttl.toNat - e.age r.saveMono) := by
  have hrange := r.range
  have hlt := e.ttl.toNat_lt
  revert hrec
  fun_cases DnsCache.recordOf (asSecs r.saveWall) r.saveMono k e <;> rintro ⟨⟩
  simp only [Entry.age, UInt64.toNat_ofNat']
  omega

theorem recordOf_question {now : Nat} (hs : e.Stored now)
    (hrec : DnsCache.recordOf nowUnix now k e = some rec) : rec.question = slice e.query 12 e.questionEnd := by
  revert hrec
  fun_cases DnsCache.recordOf nowUnix now k e <;> rintro ⟨⟩
  exact if_pos ⟨hs.question_ge, hs.question_le⟩

/-- The age the loader rebuilds is the real one up to less than two seconds, never above it by a whole
second. -/
theorem rebuilt_age (hs : e.Stored r.saveMono)
    (hrec : DnsCache.recordOf (asSecs r.saveWall) r.saveMono k e = some rec)
    (hlive : asSecs r.loadWall < rec.expireUnix.toNat) :
    r.mono - e.inserted <
      (rec.ttl.toNat - (rec.expireUnix.toNat - asSecs r.loadWall)) * 1000000000 + 2000000000 := by
  obtain ⟨-, httl, -⟩ := recordOf_taken hrec
  obtain ⟨hage, hexp⟩ := recordOf_expiry hrec
  have hpast := hs.past
  have hordered := r.ordered
  have hsecs := asSecs_mono hordered
  have hreal : r.mono - e.inserted = (r.saveMono - e.inserted) + (r.loadWall - r.saveWall) := by
    unfold Restart.mono
    omega
  have hrebuilt : rec.ttl.toNat - (rec.expireUnix.toNat - asSecs r.loadWall) =
      e.age r.saveMono + (asSecs r.loadWall - asSecs r.saveWall) := by
    rw [httl]
    omega
  rw [hreal, hrebuilt]
  exact age_lt_of_secs _ hordered

theorem toEntry_content {now : Nat} (hs : e.Stored now) (hrec : DnsCache.recordOf nowUnix now k e = some rec)
    (place : Nat × UInt32) : e.SameContent (rec.toEntry e.qname place) := by
  obtain ⟨-, -, hpacket, hquery, -, hoffsets, hrule⟩ := recordOf_taken hrec
  have hend : 12 + rec.question.length = e.questionEnd := by
    rw [recordOf_question hs hrec, length_slice hs.question_le, Nat.add_sub_of_le hs.question_ge]
  refine ⟨hpacket, hquery, rfl, hend, ?_, hoffsets, hrule⟩
  rw [Record.toEntry, hend, hquery, hs.variant]

/-- The entry that a record of `e` is restored to. -/
def Restart.restored (r : Restart) (e : Entry) (rec : Record) : Entry :=
  rec.toEntry e.qname (rec.anchor (asSecs r.loadWall) r.loadMono)

theorem restore_of_recordOf (hrec : DnsCache.recordOf (asSecs r.saveWall) r.saveMono k e = some rec)
    (hlive : asSecs r.loadWall < rec.expireUnix.toNat) :
    rec.restore (asSecs r.loadWall) r.loadMono = some (r.restored e rec) := by
  obtain ⟨-, -, -, -, hqname, -⟩ := recordOf_taken hrec
  rw [Record.restore, if_neg (Nat.not_le.mpr hlive), hqname, Utf8.Text.fromUtf8_bytes, Option.map_some,
    Restart.restored]

/-- The age the loader rebuilds, in seconds. -/
def Record.rebuiltAge (rec : Record) (nowUnix : Nat) : Nat :=
  rec.ttl.toNat - (rec.expireUnix.toNat - nowUnix)

theorem anchor_of_booted (r : Restart) (rec : Record) :
    rec.rebuiltAge (asSecs r.loadWall) * 1000000000 ≤ r.loadMono ∧
      rec.anchor (asSecs r.loadWall) r.loadMono =
        (r.loadMono - rec.rebuiltAge (asSecs r.loadWall) * 1000000000, rec.ttl) := by
  have hage : rec.rebuiltAge (asSecs r.loadWall) < 2 ^ 32 :=
    lt_of_le_of_lt (Nat.sub_le _ _) rec.ttl.toNat_lt
  have hfits : rec.rebuiltAge (asSecs r.loadWall) * 1000000000 ≤ r.loadMono := by
    refine le_trans ?_ r.booted
    rw [bootInstant]
    omega
  exact ⟨hfits, if_pos hfits⟩

theorem asSecs_shift (n t : Nat) : asSecs (n * 1000000000 + t) = n + asSecs t := by
  rw [asSecs, asSecs, Nat.add_comm, Nat.add_mul_div_right _ _ (by norm_num), Nat.add_comm]

/-- The age without the restart exceeds the rebuilt age by at most two seconds. -/
theorem old_age_le (hs : e.Stored r.saveMono)
    (hrec : DnsCache.recordOf (asSecs r.saveWall) r.saveMono k e = some rec)
    (hlive : asSecs r.loadWall < rec.expireUnix.toNat) (t : Nat) :
    e.age (r.mono + t) ≤ rec.rebuiltAge (asSecs r.loadWall) + asSecs t + 2 := by
  have hage := rebuilt_age hs hrec hlive
  rw [← Record.rebuiltAge] at hage
  have hpast : e.inserted ≤ r.mono := by
    have := hs.past
    unfold Restart.mono
    omega
  have ht := lt_asSecs t
  rw [Entry.age, asSecs, Nat.div_le_iff_le_mul_add_pred (by norm_num)]
  generalize rec.rebuiltAge (asSecs r.loadWall) = a at *
  generalize asSecs t = s at *
  omega

theorem new_age (hrec : DnsCache.recordOf (asSecs r.saveWall) r.saveMono k e = some rec) (t : Nat) :
    (r.restored e rec).age (r.loadMono + t) = rec.rebuiltAge (asSecs r.loadWall) + asSecs t ∧
      (r.restored e rec).ttl = e.ttl := by
  obtain ⟨-, httl, -⟩ := recordOf_taken hrec
  obtain ⟨hfits, hplace⟩ := anchor_of_booted r rec
  rw [Entry.age, Restart.restored, Record.toEntry_inserted, Record.toEntry_ttl, hplace]
  refine ⟨?_, httl⟩
  rw [← asSecs_shift]
  congr 1
  generalize rec.rebuiltAge (asSecs r.loadWall) = a at *
  omega

/-- A restored entry is not fresh more than two seconds past its deadline without the restart. -/
theorem restored_deadline (hs : e.Stored r.saveMono)
    (hrec : DnsCache.recordOf (asSecs r.saveWall) r.saveMono k e = some rec)
    (hlive : asSecs r.loadWall < rec.expireUnix.toNat) (t : Nat)
    (hfresh : (r.restored e rec).age (r.loadMono + t) < (r.restored e rec).ttl.toNat) :
    e.age (r.mono + t) < e.ttl.toNat + 2 := by
  have hold := old_age_le hs hrec hlive t
  obtain ⟨hage, httl⟩ := new_age hrec t
  rw [hage, httl] at hfresh
  omega

/-- The TTLs of a restored entry stay within two seconds of those without the restart. -/
theorem restored_ttls (hs : e.Stored r.saveMono)
    (hrec : DnsCache.recordOf (asSecs r.saveWall) r.saveMono k e = some rec)
    (hlive : asSecs r.loadWall < rec.expireUnix.toNat) (t : Nat) {o : UInt32 × UInt32} (ho : o ∈ e.ttlOffsets) :
    (r.restored e rec).servedTtl (r.loadMono + t) o ≤ e.servedTtl (r.mono + t) o + 2 := by
  obtain ⟨hpacket, -, -, -, -, hoffsets, -⟩ :=
    toEntry_content hs hrec (rec.anchor (asSecs r.loadWall) r.loadMono)
  have hserved : (r.restored e rec).servedTtl (r.loadMono + t) o =
      o.2.toNat - (r.restored e rec).age (r.loadMono + t) := by
    rw [Restart.restored]
    refine Entry.servedTtl_eq ?_ ?_ _ ?_ <;> rw [hoffsets]
    · exact hpacket ▸ hs.fit
    · exact hs.disjoint
    · exact ho
  have hold := old_age_le hs hrec hlive t
  rw [hserved, Entry.servedTtl_eq hs.fit hs.disjoint _ ho, (new_age hrec t).1]
  omega

end OneEntry

/-! ### The file as a whole -/

variable {nowUnix now : Nat} {rec : Record}

theorem mem_liveRecords {m : EntryMap} :
    rec ∈ DnsCache.liveRecords nowUnix now m ↔
      ∃ k e, m.lookup k = some e ∧ DnsCache.recordOf nowUnix now k e = some rec := by
  rw [DnsCache.liveRecords, List.mem_filterMap]
  constructor
  · rintro ⟨⟨k, e⟩, hmem, hrec⟩
    exact ⟨k, e, (List.mem_dlookup_iff m.nodupKeys).mpr hmem, hrec⟩
  · rintro ⟨k, e, hlook, hrec⟩
    exact ⟨⟨k, e⟩, (List.mem_dlookup_iff m.nodupKeys).mp hlook, hrec⟩

variable {k : CacheKey}

theorem recordOf_key (h : DnsCache.recordOf nowUnix now k e = some rec) : rec.key = k := (recordOf_taken h).1

theorem liveRecords_keys (nowUnix now : Nat) (m : EntryMap) :
    (DnsCache.liveRecords nowUnix now m).Pairwise (fun a b => a.key ≠ b.key) := by
  rw [DnsCache.liveRecords, List.pairwise_filterMap]
  have hkeys : m.entries.Pairwise (fun p q => p.1 ≠ q.1) := List.nodupKeys_iff_pairwise.mp m.nodupKeys
  refine hkeys.imp ?_
  intro p q hne a ha b hb
  rw [recordOf_key ha, recordOf_key hb]
  exact hne

theorem lookup_restoreAll {records : List Record} (hkeys : records.Pairwise (fun a b => a.key ≠ b.key)) :
    (restoreAll nowUnix now records ∅).lookup k = some e ↔
      ∃ x ∈ records, x.key = k ∧ x.restore nowUnix now = some e := by
  rw [restoreAll]
  refine (FinMap.lookup_foldl_insert (fun m x => show _ = (x.restore nowUnix now).elim m fun v =>
    m.insert x.key v from ?_) hkeys (fun x _ => AList.lookup_empty x.key)).trans (by simp)
  cases x.restore nowUnix now <;> rfl

theorem length_cacheMagic : cacheMagic.length = 8 := by decide +kernel

section Main

variable {r : Restart} {old : EntryMap}

theorem recordOf_writable {nowUnix now : Nat} {k : CacheKey} {e : Entry} {rec : Record}
    (hs : e.Stored now) (hrec : DnsCache.recordOf nowUnix now k e = some rec) : rec.Writable := by
  obtain ⟨-, -, hpacket, hquery, hqname, hoffsets, -⟩ := recordOf_taken hrec
  have hquestion : rec.question.length ≤ e.query.length := by
    rw [recordOf_question hs hrec, length_slice hs.question_le]
    exact le_trans (Nat.sub_le _ _) hs.question_le
  exact {
    question := lt_of_le_of_lt hquestion hs.querySize
    packet := by rw [hpacket]; exact hs.packetSize
    query := by rw [hquery]; exact hs.querySize
    qname := by rw [hqname]; exact hs.qnameSize
    offsets := by rw [hoffsets]; exact hs.offsetsSize }

/-- Disjoint fields of four bytes between `b` and `n`. -/
theorem length_offsets_le {offsets : TtlOffsets} {b n : Nat}
    (hin : ∀ o ∈ offsets, b ≤ o.1.toNat ∧ o.1.toNat + 4 ≤ n)
    (hdisjoint : offsets.Pairwise (fun o p => o.1.toNat + 4 ≤ p.1.toNat)) (hb : b ≤ n) :
    b + offsets.length ≤ n := by
  induction offsets generalizing b with
  | nil => exact hb
  | cons o offsets ih =>
    obtain ⟨hhead, htail⟩ := List.pairwise_cons.mp hdisjoint
    obtain ⟨ho, hrest⟩ := List.forall_mem_cons.mp hin
    have hnext := ih (fun p hp => ⟨hhead p hp, (hrest p hp).2⟩) htail ho.2
    rw [List.length_cons]
    omega

theorem recordOf_readable {nowUnix now : Nat} {k : CacheKey} {e : Entry} {rec : Record}
    (hs : e.Stored now) (hb : e.Bounded) (hrec : DnsCache.recordOf nowUnix now k e = some rec) :
    rec.Readable := by
  obtain ⟨-, -, hpacket, hquery, hqname, hoffsets, -⟩ := recordOf_taken hrec
  have hpacketLen := hb.packet
  have hqueryLen := hb.query
  have hqnameLen := hb.qname.length_le
  have hquestion : rec.question.length ≤ e.query.length := by
    rw [recordOf_question hs hrec, length_slice hs.question_le]
    exact le_trans (Nat.sub_le _ _) hs.question_le
  have hcount := length_offsets_le (fun o ho => ⟨Nat.zero_le _, hs.fit o ho⟩) hs.disjoint (Nat.zero_le _)
  rw [← hoffsets] at hcount
  exact {
    question := by rw [maxPersistedBytes]; omega
    packet := by rw [hpacket, maxPersistedBytes]; omega
    query := by rw [hquery, maxPersistedBytes]; omega
    qname := by rw [hqname, maxPersistedBytes]; omega
    offsets := by omega }

theorem lookup_restored {k : CacheKey} {e' : Entry} :
    (restoreAll (asSecs r.loadWall) r.loadMono
        (DnsCache.liveRecords (asSecs r.saveWall) r.saveMono old) ∅).lookup k = some e' ↔
      ∃ e rec, old.lookup k = some e ∧
        DnsCache.recordOf (asSecs r.saveWall) r.saveMono k e = some rec ∧
        asSecs r.loadWall < rec.expireUnix.toNat ∧ e' = r.restored e rec := by
  rw [lookup_restoreAll (liveRecords_keys (asSecs r.saveWall) r.saveMono old)]
  constructor
  · rintro ⟨rec, hmem, hkey, hres⟩
    obtain ⟨k', e, hlook, hrec⟩ := mem_liveRecords.mp hmem
    obtain rfl : k' = k := by rw [← recordOf_key hrec, hkey]
    have hunexpired : asSecs r.loadWall < rec.expireUnix.toNat := by
      by_contra hexp
      rw [Record.restore, if_pos (Nat.not_lt.mp hexp)] at hres
      simp at hres
    rw [restore_of_recordOf hrec hunexpired, Option.some.injEq] at hres
    exact ⟨e, rec, hlook, hrec, hunexpired, hres.symm⟩
  · rintro ⟨e, rec, hlook, hrec, hunexpired, rfl⟩
    exact ⟨rec, mem_liveRecords.mpr ⟨k, e, hlook, hrec⟩, recordOf_key hrec,
      restore_of_recordOf hrec hunexpired⟩

theorem faithful_restoreAll (hstored : ∀ k e, old.lookup k = some e → e.Stored r.saveMono) :
    Faithful r old (restoreAll (asSecs r.loadWall) r.loadMono
      (DnsCache.liveRecords (asSecs r.saveWall) r.saveMono old) ∅) := by
  have hfrom {k e e'} (hlook : old.lookup k = some e) (hnew : (restoreAll (asSecs r.loadWall) r.loadMono
      (DnsCache.liveRecords (asSecs r.saveWall) r.saveMono old) ∅).lookup k = some e') :
      ∃ rec, DnsCache.recordOf (asSecs r.saveWall) r.saveMono k e = some rec ∧
        asSecs r.loadWall < rec.expireUnix.toNat ∧ e' = r.restored e rec := by
    obtain ⟨e₂, rec, hlook₂, hrec, hunexpired, rfl⟩ := lookup_restored.mp hnew
    obtain rfl := Option.some.inj (hlook.symm.trans hlook₂)
    exact ⟨rec, hrec, hunexpired, rfl⟩
  constructor
  · intro k
    rw [Option.isSome_iff_exists]
    constructor
    · rintro ⟨e', hnew⟩
      obtain ⟨e, rec, hlook, hrec, hunexpired, -⟩ := lookup_restored.mp hnew
      exact ⟨e, rec, hlook, hrec, hunexpired⟩
    · rintro ⟨e, rec, hlook, hrec, hunexpired⟩
      exact ⟨_, lookup_restored.mpr ⟨e, rec, hlook, hrec, hunexpired, rfl⟩⟩
  · intro k e e' hlook hnew
    obtain ⟨rec, hrec, -, rfl⟩ := hfrom hlook hnew
    exact toEntry_content (hstored k e hlook) hrec _
  · intro k e e' hlook hnew
    obtain ⟨rec, hrec, hunexpired, rfl⟩ := hfrom hlook hnew
    exact restored_deadline (hstored k e hlook) hrec hunexpired
  · intro k e e' hlook hnew t _ o ho
    obtain ⟨rec, hrec, hunexpired, rfl⟩ := hfrom hlook hnew
    exact restored_ttls (hstored k e hlook) hrec hunexpired t ho

end Main

/-- Saving a cache and loading the file into an empty one restores exactly the entries whose deadline
has not passed, with deadlines and TTLs no later and no larger than without the restart up to two
seconds. -/
theorem restart_faithful (r : Restart) (c : DnsCache) (old : EntryMap) (hc : c.cache = some old)
    (hstored : ∀ k e, old.lookup k = some e → e.Stored r.saveMono)
    (hbounded : ∀ k e, old.lookup k = some e → e.Bounded) (hcount : old.entries.length < 2 ^ 32)
    (fingerprint : UInt64) (capacity : Nat) (hcapacity : 0 < capacity) (minTtl maxTtl : UInt32) :
    ∃ file new, c.saveToFile (asSecs r.saveWall) r.saveMono fingerprint = some file ∧
      ((DnsCache.new capacity minTtl maxTtl).loadFromFile (asSecs r.loadWall) r.loadMono fingerprint
        file).2.cache = some new ∧ Faithful r old new := by
  have hreadable : ∀ x ∈ DnsCache.liveRecords (asSecs r.saveWall) r.saveMono old, x.Readable := by
    intro x hx
    obtain ⟨k, e, hlook, hrec⟩ := mem_liveRecords.mp hx
    exact recordOf_readable (hstored k e hlook) (hbounded k e hlook) hrec
  have hlen : (DnsCache.liveRecords (asSecs r.saveWall) r.saveMono old).length < 256 ^ 4 :=
    lt_of_le_of_lt (List.length_filterMap_le _ _) hcount
  -- the loader reads every record and stops at the end of the file
  obtain ⟨loaded, hloop⟩ := @loadLoop_append (asSecs r.loadWall) r.loadMono _ hreadable 0 [] ∅ 0
  rw [Nat.add_zero, List.append_nil] at hloop
  refine ⟨_, restoreAll (asSecs r.loadWall) r.loadMono
    (DnsCache.liveRecords (asSecs r.saveWall) r.saveMono old) ∅,
    by rw [DnsCache.saveToFile, hc, Option.map_some], ?_, faithful_restoreAll hstored⟩
  simp only [DnsCache.loadFromFile, DnsCache.new, if_pos hcapacity,
    readAndCheckHeader_writeHeader length_cacheMagic, Nat.mod_eq_of_lt hlen, hloop, loadLoop]

/-! ### What is loaded was saved -/

/-- The loader restores the records up to some place in the file, whatever count it reads. -/
theorem loadLoop_front (nowUnix now : Nat) {records : List Record} (hw : ∀ x ∈ records, x.Writable)
    {n : Nat} (hn : n ≤ records.length) (m : EntryMap) (loaded : Nat) :
    ∃ pre post, records = pre ++ post ∧
      (loadLoop nowUnix now n (records.flatMap encodeRecord) m loaded).2 = restoreAll nowUnix now pre m := by
  induction records generalizing n m loaded with
  | nil =>
    obtain rfl : n = 0 := Nat.le_zero.mp hn
    exact ⟨[], [], rfl, rfl⟩
  | cons x xs ih =>
    have hxs : ∀ y ∈ xs, y.Writable := fun y hy => hw y (List.mem_cons_of_mem _ hy)
    cases n with
    | zero => exact ⟨[], x :: xs, rfl, rfl⟩
    | succ n =>
      have hn' : n ≤ xs.length := Nat.le_of_succ_le_succ hn
      rw [List.flatMap_cons, loadLoop]
      by_cases hx : x.Readable
      · rw [readRecord_encodeRecord hx]
        simp only
        cases hres : x.restore nowUnix now with
        | none =>
          obtain ⟨pre, post, hsplit, hload⟩ := ih hxs hn' m loaded
          exact ⟨x :: pre, post, by rw [hsplit]; rfl, by simpa [restoreAll, hres] using hload⟩
        | some entry =>
          obtain ⟨pre, post, hsplit, hload⟩ := ih hxs hn' (m.insert x.key entry) (loaded + 1)
          exact ⟨x :: pre, post, by rw [hsplit]; rfl, by simpa [restoreAll, hres] using hload⟩
      · obtain ⟨err, herr⟩ := readRecord_encodeRecord_error (hw x List.mem_cons_self) hx
          (xs.flatMap encodeRecord)
        rw [herr]
        exact ⟨[], x :: xs, rfl, rfl⟩

theorem Record.anchor_le (nowUnix now : Nat) (rec : Record) : (rec.anchor nowUnix now).1 ≤ now := by
  rw [Record.anchor]
  split_ifs
  · exact Nat.sub_le _ _
  · exact le_refl _

/-- Saving, loading and clocks that need not fit each other: every entry of the loaded cache has the
content of one that was saved. -/
theorem DnsCache.of_lookup_loaded {c : DnsCache} {saveUnix saveMono loadUnix loadMono capacity : Nat}
    {fingerprint : UInt64} {minTtl maxTtl : UInt32} {file : List UInt8} {new : EntryMap}
    (hstored : c.Holds fun _ e => e.Stored saveMono)
    (hfile : c.saveToFile saveUnix saveMono fingerprint = some file)
    (hload : ((DnsCache.new capacity minTtl maxTtl).loadFromFile loadUnix loadMono fingerprint file).2.cache =
      some new)
    {e' : Entry} (hlook : new.lookup k = some e') :
    ∃ old e, c.cache = some old ∧ old.lookup k = some e ∧ e.SameContent e' ∧ e'.inserted ≤ loadMono := by
  obtain ⟨old, hold, rfl⟩ := Option.map_eq_some_iff.mp hfile
  have hw : ∀ x ∈ DnsCache.liveRecords saveUnix saveMono old, x.Writable := by
    intro x hx
    obtain ⟨k, e, hlook, hrec⟩ := mem_liveRecords.mp hx
    exact recordOf_writable (hstored old hold k e hlook) hrec
  have hnew : ∃ pre post, DnsCache.liveRecords saveUnix saveMono old = pre ++ post ∧
      new = restoreAll loadUnix loadMono pre ∅ := by
    by_cases hcap : 0 < capacity
    · obtain ⟨pre, post, hsplit, hfront⟩ := loadLoop_front loadUnix loadMono hw (Nat.mod_le _ (256 ^ 4)) ∅ 0
      simp only [DnsCache.loadFromFile, DnsCache.new, if_pos hcap,
        readAndCheckHeader_writeHeader length_cacheMagic, hfront] at hload
      exact ⟨pre, post, hsplit, (Option.some.inj hload).symm⟩
    · simp [DnsCache.loadFromFile, DnsCache.new, hcap] at hload
  obtain ⟨pre, post, hsplit, rfl⟩ := hnew
  have hkeys := liveRecords_keys saveUnix saveMono old
  rw [hsplit, List.pairwise_append] at hkeys
  rw [lookup_restoreAll hkeys.1] at hlook
  obtain ⟨rec, hmem, rfl, hres⟩ := hlook
  obtain ⟨k, e, hlook, hrec⟩ := mem_liveRecords.mp (hsplit ▸ List.mem_append_left post hmem)
  obtain ⟨qname, hqname, rfl⟩ := Record.restore_spec hres
  obtain ⟨rfl, -, -, -, hname, -⟩ := recordOf_taken hrec
  rw [hname, Utf8.Text.fromUtf8_bytes] at hqname
  obtain rfl := Option.some.inj hqname
  refine ⟨old, e, hold, hlook, toEntry_content (hstored old hold _ e hlook) hrec _, ?_⟩
  rw [Record.toEntry_inserted]
  exact Record.anchor_le loadUnix loadMono rec

/-- An entry for the A record of `a` with a TTL of a minute, inserted at boot. -/
def sampleEntry : Entry where
  packet := [0, 0, 0x81, 0x80, 0, 1, 0, 1, 0, 0, 0, 0, 1, 97, 0, 0, 1, 0, 1,
    0xc0, 0x0c, 0, 1, 0, 1, 0, 0, 0, 60, 0, 4, 192, 0, 2, 1]
  query := [0x12, 0x34, 1, 0, 0, 1, 0, 0, 0, 0, 0, 0, 1, 97, 0, 0, 1, 0, 1]
  qname := ⟨[97], Utf8.valid_letter⟩
  questionEnd := 19
  variant := .noEdns true false false
  inserted := bootInstant
  ttl := 60
  ttlOffsets := [(25, 60)]
  ruleId := 0

def sampleMap : EntryMap := (∅ : EntryMap).insert 7 sampleEntry

/-- Saved at an age of ten seconds, and loaded at once by a process whose clock reads the boot time. -/
def sampleRestart : Restart where
  saveWall := 1000000000000
  saveMono := bootInstant + 10000000000
  loadWall := 1000000000000
  loadMono := bootInstant
  ordered := le_refl _
  range := by decide +kernel
  booted := le_refl _

theorem sampleEntry_stored : sampleEntry.Stored (bootInstant + 10000000000) where
  past := Nat.le_add_right _ _
  question_ge := by decide
  question_le := by decide
  variant := by decide +kernel
  packetSize := by simp [sampleEntry]
  querySize := by simp [sampleEntry]
  qnameSize := by simp [sampleEntry]
  offsetsSize := by simp [sampleEntry]
  fit := by
    -- over the one field of the list, not by enumerating the pairs of 32-bit words
    simp only [sampleEntry, List.forall_mem_singleton]
    decide
  disjoint := by decide +kernel

theorem lookup_sampleMap (h : sampleMap.lookup k = some e) : k = 7 ∧ e = sampleEntry := by
  by_cases hk : k = 7
  · subst hk
    rw [sampleMap, AList.lookup_insert, Option.some.injEq] at h
    exact ⟨rfl, h.symm⟩
  · rw [sampleMap, AList.lookup_insert_ne hk] at h
    simp at h

theorem restart_faithful_sample :
    ∃ file new,
      (⟨some sampleMap, 0, 0⟩ : DnsCache).saveToFile 1000 (bootInstant + 10000000000) 5 = some file ∧
      ((DnsCache.new 8 0 0).loadFromFile 1000 bootInstant 5 file).2.cache = some new ∧
      Faithful sampleRestart sampleMap new := by
  refine restart_faithful sampleRestart ⟨some sampleMap, 0, 0⟩ sampleMap rfl ?_ ?_ (by decide +kernel) 5 8
    (by decide) 0 0
  · intro k e h
    obtain ⟨-, rfl⟩ := lookup_sampleMap h
    exact sampleEntry_stored
  · intro k e h
    obtain ⟨-, rfl⟩ := lookup_sampleMap h
    exact ⟨by decide, by decide, fromQuestion_letter⟩

end PathDns
