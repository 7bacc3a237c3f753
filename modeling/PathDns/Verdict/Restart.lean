import PathDns.Cache.Persist
import PathDns.Dns.Qname
import PathDns.Lib.Reader
import PathDns.Verdict
import Mathlib.Data.List.Induction

/-!
# Verdicts across a restart (`VerdictCache::save_to_file`, `VerdictCache::load_from_file`)

Every entry keeps the time of its insertion, and a lookup, the save and the load compare it with the same
deadline. The file has the length of a name in 16 bits and the number of entries in 32.
-/

namespace PathDns.VerdictCache

open Bytes Reader

def persistMagic : List UInt8 := "PDNSV001".toUTF8.toList

def encodeVerdict (p : (_ : Utf8.Text) × VerdictEntry) : List UInt8 :=
  encLe 8 p.2.insertedUnix ++ ([if p.2.isPrimary then 1 else 0] ++ (encLe 2 p.1.bytes.length ++ p.1.bytes))

def saveToFile (c : VerdictCache) (now : Nat) (fingerprint : UInt64) : Option (List UInt8) :=
  c.inner.map fun cache =>
    let entries := cache.entries.filter fun p => !c.isExpired p.2.insertedUnix now
    writeHeader persistMagic fingerprint entries.length ++ entries.flatMap encodeVerdict

def readVerdict : Read (Nat × Bool × List UInt8) := fun input => do
  let (insertedUnix, rest) ← le 8 input
  let (flag, rest) ← exact 1 rest
  let (qnameLen, rest) ← le 2 rest
  let (qname, rest) ← exact qnameLen rest
  return ((insertedUnix, flag != [0], qname), rest)

def loadLoop (c : VerdictCache) (now : Nat) :
    Nat → List UInt8 → VerdictMap → Nat → Except String Nat × VerdictMap
  | 0, _, cache, loaded => (.ok loaded, cache)
  | n + 1, input, cache, loaded =>
    match readVerdict input with
    | .error e => (.error e, cache)
    | .ok ((insertedUnix, isPrimary, qnameBytes), rest) =>
      if c.isExpired insertedUnix now then c.loadLoop now n rest cache loaded
      else
        match Utf8.Text.fromUtf8 qnameBytes with
        | none => c.loadLoop now n rest cache loaded
        | some qname => c.loadLoop now n rest (cache.insert qname ⟨isPrimary, insertedUnix⟩) (loaded + 1)

def loadFromFile (c : VerdictCache) (now : Nat) (fingerprint : UInt64) (file : List UInt8) :
    Except String Nat × VerdictCache :=
  match c.inner with
  | none => (.ok 0, c)
  | some cache =>
    match readAndCheckHeader persistMagic fingerprint "verdict cache" file with
    | .error e => (.error e, c)
    | .ok (count, rest) =>
      let (loaded, cache) := c.loadLoop now count rest cache 0
      (loaded, { c with inner := some cache })

/-! ### A history -/

structure Added where
  now : UInt64
  qname : Utf8.Text
  isPrimary : Bool

def run (c : VerdictCache) (history : List Added) : VerdictCache :=
  history.foldl (fun c a => c.add a.now.toNat a.qname a.isPrimary) c

def lastAdded (history : List Added) (qname : Utf8.Text) : Option Added :=
  history.reverse.find? (·.qname = qname)

/-- The cache of a new process that loads what the old one saved. -/
def restarted (cfg : Option (Nat × Nat)) (history : List Added) (save load fingerprint : UInt64) :
    VerdictCache :=
  match ((new cfg).run history).saveToFile save.toNat fingerprint with
  | none => new cfg
  | some file => ((new cfg).loadFromFile load.toNat fingerprint file).2

def live (c : VerdictCache) (now : Nat) : List ((_ : Utf8.Text) × VerdictEntry) :=
  (c.inner.elim [] (·.entries)).filter fun p => !c.isExpired p.2.insertedUnix now

variable {c : VerdictCache} {cfg : Option (Nat × Nat)} {history : List Added} {now now' : Nat}

theorem isExpired_mono {t : Nat} (h : c.isExpired t now = true) (hle : now ≤ now') : c.isExpired t now' = true := by
  simp only [isExpired, Bool.and_eq_true, decide_eq_true_eq] at h ⊢
  exact ⟨h.1, h.2.trans hle⟩

theorem run_concat (c : VerdictCache) (history : List Added) (a : Added) :
    c.run (history ++ [a]) = (c.run history).add a.now.toNat a.qname a.isPrimary := by
  rw [run, List.foldl_append]
  rfl

@[simp] theorem ttlSecs_run (c : VerdictCache) (history : List Added) : (c.run history).ttlSecs = c.ttlSecs := by
  induction history using List.reverseRec with
  | nil => rfl
  | append_singleton history a ih => rw [run_concat, ← ih]; rfl

@[simp] theorem isExpired_run (c : VerdictCache) (history : List Added) (t now : Nat) :
    (c.run history).isExpired t now = c.isExpired t now := by
  rw [isExpired, ttlSecs_run, isExpired]

/-- Every entry is that of the last insert of its name. -/
theorem of_lookup_run {m : VerdictMap} (hm : ((new cfg).run history).inner = some m) {qname : Utf8.Text}
    {e : VerdictEntry} (he : m.lookup qname = some e) :
    ∃ a, lastAdded history qname = some a ∧ e = ⟨a.isPrimary, a.now.toNat⟩ := by
  induction history using List.reverseRec generalizing m with
  | nil =>
    have hempty : m = ∅ := by
      revert hm
      rw [run, List.foldl_nil]
      fun_cases new cfg <;> rintro ⟨⟩
      rfl
    simp [hempty] at he
  | append_singleton history a ih =>
    rw [run_concat, add, Option.map_eq_some_iff] at hm
    obtain ⟨m₀, hm₀, rfl⟩ := hm
    rw [lastAdded, List.reverse_append, List.reverse_singleton, List.singleton_append, List.find?_cons,
      ← lastAdded]
    by_cases hq : qname = a.qname
    · rw [hq, AList.lookup_insert] at he
      exact ⟨a, by simp [hq], (Option.some.inj he).symm⟩
    · rw [AList.lookup_insert_ne hq] at he
      simpa [Ne.symm hq] using ih hm₀ he

/-! ### Reading what was written -/

theorem readVerdict_encodeVerdict {p : (_ : Utf8.Text) × VerdictEntry} (htime : p.2.insertedUnix < 256 ^ 8)
    (hname : p.1.bytes.length < 256 ^ 2) (tail : List UInt8) :
    readVerdict (encodeVerdict p ++ tail) = .ok ((p.2.insertedUnix, p.2.isPrimary, p.1.bytes), tail) := by
  simp only [readVerdict, encodeVerdict, List.append_assoc, le_append htime, bind, Except.bind,
    exact_append (List.length_singleton), le_append hname, exact_append rfl, pure, Except.pure]
  cases p.2.isPrimary <;> rfl

/-- A record as an item to insert. -/
def restore (c : VerdictCache) (now : Nat) (p : (_ : Utf8.Text) × VerdictEntry) : Option VerdictEntry :=
  if c.isExpired p.2.insertedUnix now then none else some p.2

theorem loadLoop_entries {entries : List ((_ : Utf8.Text) × VerdictEntry)}
    (h : ∀ p ∈ entries, p.2.insertedUnix < 256 ^ 8 ∧ p.1.bytes.length < 256 ^ 2) (cache : VerdictMap)
    (loaded : Nat) :
    (c.loadLoop now entries.length (entries.flatMap encodeVerdict) cache loaded).2 =
      entries.foldl (fun m p => (c.restore now p).elim m fun e => m.insert p.1 e) cache := by
  induction entries generalizing cache loaded with
  | nil => rfl
  | cons p entries ih =>
    obtain ⟨⟨htime, hname⟩, hrest⟩ := List.forall_mem_cons.mp h
    rw [List.flatMap_cons, List.length_cons, loadLoop, readVerdict_encodeVerdict htime hname, List.foldl_cons,
      restore]
    simp only [Utf8.Text.fromUtf8_bytes]
    split_ifs <;> exact ih hrest _ _

variable {m : VerdictMap}

theorem isSome_inner_run (c : VerdictCache) (history : List Added) :
    (c.run history).inner.isSome = c.inner.isSome := by
  induction history using List.reverseRec with
  | nil => rfl
  | append_singleton history a ih => rw [run_concat, add, Option.isSome_map, ih]

theorem new_inner (hm : ((new cfg).run history).inner = some m) : (new cfg).inner = some ∅ := by
  have hsome := isSome_inner_run (new cfg) history
  rw [hm] at hsome
  revert hsome
  fun_cases new cfg <;> simp

@[simp] theorem isExpired_restarted (cfg : Option (Nat × Nat)) (history : List Added)
    (save load fingerprint : UInt64) (t now : Nat) :
    (restarted cfg history save load fingerprint).isExpired t now = (new cfg).isExpired t now := by
  rw [restarted]
  split
  · rfl
  · rw [loadFromFile]
    split
    · rfl
    · split <;> rfl

theorem restarted_inner {save load fingerprint : UInt64} (hm : ((new cfg).run history).inner = some m) :
    (restarted cfg history save load fingerprint).inner = some ((new cfg).loadLoop load.toNat
      ((((new cfg).run history).live save.toNat).length % 256 ^ 4)
      ((((new cfg).run history).live save.toNat).flatMap encodeVerdict) ∅ 0).2 := by
  simp only [restarted, saveToFile, hm, Option.map_some, loadFromFile, new_inner hm,
    readAndCheckHeader_writeHeader (show persistMagic.length = 8 by decide +kernel), live, Option.elim_some]

theorem mem_live (hm : ((new cfg).run history).inner = some m) {p : (_ : Utf8.Text) × VerdictEntry} :
    p ∈ ((new cfg).run history).live now ↔
      m.lookup p.1 = some p.2 ∧ (new cfg).isExpired p.2.insertedUnix now = false := by
  simp [live, hm, ← List.mem_dlookup_iff m.nodupKeys, AList.lookup]

theorem live_keys (hm : ((new cfg).run history).inner = some m) :
    (((new cfg).run history).live now).Pairwise fun p q => p.1 ≠ q.1 := by
  rw [live, hm]
  exact (List.nodupKeys_iff_pairwise.mp m.nodupKeys).filter _

/-- What a restart leaves of the entries: those that have not expired at the load. -/
theorem restarted_lookup {save load fingerprint : UInt64} (hm : ((new cfg).run history).inner = some m)
    (hnames : ∀ p ∈ ((new cfg).run history).live save.toNat, p.1.bytes.length < 65536)
    (hcount : (((new cfg).run history).live save.toNat).length < 2 ^ 32) (hle : save ≤ load) {qname : Utf8.Text}
    {e : VerdictEntry} : ((restarted cfg history save load fingerprint).inner.bind (·.lookup qname)) = some e ↔
      m.lookup qname = some e ∧ (new cfg).isExpired e.insertedUnix load.toNat = false := by
  have hrange : ∀ p ∈ ((new cfg).run history).live save.toNat,
      p.2.insertedUnix < 256 ^ 8 ∧ p.1.bytes.length < 256 ^ 2 := by
    intro p hp
    obtain ⟨a, -, ha⟩ := of_lookup_run hm ((mem_live hm).mp hp).1
    exact ⟨by rw [ha]; exact a.now.toNat_lt, hnames p hp⟩
  rw [restarted_inner hm, Nat.mod_eq_of_lt (show _ < 256 ^ 4 from hcount), loadLoop_entries hrange,
    Option.bind_some, FinMap.lookup_foldl_insert (fun _ _ => rfl) (live_keys hm) (fun p _ => AList.lookup_empty p.1)]
  simp only [AList.lookup_empty, reduceCtorEq, false_or, restore]
  constructor
  · rintro ⟨p, hp, rfl, hrestore⟩
    split_ifs at hrestore with hexp
    cases hrestore
    exact ⟨((mem_live hm).mp hp).1, by simpa using hexp⟩
  · rintro ⟨hlook, hfresh⟩
    refine ⟨⟨qname, e⟩, (mem_live hm).mpr ⟨hlook, ?_⟩, rfl, by simp [hfresh]⟩
    by_contra hexp
    rw [isExpired_mono (by simpa using hexp) (UInt64.le_iff_toNat_le.mp hle)] at hfresh
    cases hfresh

theorem get_eq_some {qname : Utf8.Text} {v : Bool} : c.get now qname = some v ↔ ∃ e,
    c.inner.bind (·.lookup qname) = some e ∧ c.isExpired e.insertedUnix now = false ∧ e.isPrimary = v := by
  rw [get]
  cases c.inner.bind (·.lookup qname) <;> simp

/-- Every name in the cache was added. -/
theorem fromQuestion_of_live (hnames : ∀ a ∈ history, FromQuestion a.qname)
    (hm : ((new cfg).run history).inner = some m) {p : (_ : Utf8.Text) × VerdictEntry}
    (hp : p ∈ ((new cfg).run history).live now) : FromQuestion p.1 := by
  obtain ⟨a, ha, -⟩ := of_lookup_run hm ((mem_live hm).mp hp).1
  have hname : a.qname = p.1 := by simpa using List.find?_some ha
  exact hname ▸ hnames a (List.mem_reverse.mp (List.mem_of_find?_eq_some ha))

/-- Names as `add` wants them, from `qname_from_question`, and less than `2 ^ 32` live entries at the save:
after a restart every lookup gives what it would have given without it, the last verdict of the name before
its deadline. -/
theorem verdicts_restart (cfg : Option (Nat × Nat)) (history : List Added)
    (hnames : ∀ a ∈ history, FromQuestion a.qname) (save load now fingerprint : UInt64)
    (hcount : (((new cfg).run history).live save.toNat).length < 2 ^ 32) (hload : save ≤ load)
    (hnow : load ≤ now) (qname : Utf8.Text) :
    (restarted cfg history save load fingerprint).get now.toNat qname =
      ((new cfg).run history).get now.toNat qname ∧
    ∀ v, (restarted cfg history save load fingerprint).get now.toNat qname = some v →
      ∃ a, lastAdded history qname = some a ∧ a.isPrimary = v ∧
        (0 < (new cfg).ttlSecs → now.toNat < a.now.toNat + (new cfg).ttlSecs) := by
  cases hm : ((new cfg).run history).inner with
  | none =>
    have hnew : (new cfg).inner = none := by
      have := isSome_inner_run (new cfg) history
      simpa [hm] using this
    simp [hm, restarted, saveToFile, get, hnew]
  | some m =>
    have hshort : ∀ p ∈ ((new cfg).run history).live save.toNat, p.1.bytes.length < 65536 := by
      intro p hp
      have := (fromQuestion_of_live hnames hm hp).length_le
      omega
    have hlookup := @restarted_lookup cfg history m save load fingerprint hm hshort hcount hload qname
    have hiff (v : Bool) : (restarted cfg history save load fingerprint).get now.toNat qname = some v ↔
        ((new cfg).run history).get now.toNat qname = some v := by
      simp only [get_eq_some, hlookup, isExpired_restarted, isExpired_run, hm, Option.bind_some]
      refine exists_congr fun e => ?_
      constructor
      · rintro ⟨⟨hlook, -⟩, hfresh, hv⟩
        exact ⟨hlook, hfresh, hv⟩
      · rintro ⟨hlook, hfresh, hv⟩
        refine ⟨⟨hlook, ?_⟩, hfresh, hv⟩
        by_contra hexp
        rw [isExpired_mono (by simpa using hexp) (UInt64.le_iff_toNat_le.mp hnow)] at hfresh
        cases hfresh
    refine ⟨Option.ext hiff, fun v hv => ?_⟩
    rw [hiff, get_eq_some, hm] at hv
    obtain ⟨e, he, hfresh, rfl⟩ := hv
    obtain ⟨a, ha, rfl⟩ := of_lookup_run hm he
    refine ⟨a, ha, rfl, fun hpos => ?_⟩
    rw [isExpired_run, isExpired] at hfresh
    simp only [hpos, decide_true, Bool.true_and, decide_eq_false_iff_not] at hfresh
    omega

theorem verdicts_restart_letter :
    (restarted (some (8, 60)) [⟨100, ⟨[97], Utf8.valid_letter⟩, true⟩] 110 120 7).get 130
      ⟨[97], Utf8.valid_letter⟩ = some true := by
  have hnames : ∀ a ∈ [(⟨100, ⟨[97], Utf8.valid_letter⟩, true⟩ : Added)], FromQuestion a.qname := by
    simpa using fromQuestion_letter
  have hsame := (verdicts_restart (some (8, 60)) _ hnames 110 120 130 7 (by decide +kernel) (by decide)
    (by decide) ⟨[97], Utf8.valid_letter⟩).1
  exact hsame.trans (by decide +kernel)

end PathDns.VerdictCache
