import Mathlib.Data.List.SplitOn
import PathDns.Lib.Reader
import PathDns.Config.Types
import PathDns.IpRange

/-!
# Loading the ruleset database (`RuleSetDb::load`)

The database is built one specification at a time. With `reuse`, the entry of a tag whose file is not
among the changed paths is taken from the previous database. `read` stands for reading and parsing the
file of a specification, with the text of its error.

`Path` compares and hashes by components: repeated separators, trailing ones and `.` in the middle do not
count. A path is therefore its list of components (`RustPath`).
-/

namespace RustPath

inductive Component where
  | rootDir
  | curDir
  | parentDir
  | normal (name : List Char)
deriving DecidableEq, Repr

/-- The component that a part between two separators stands for. -/
def ofPart (part : List Char) : Option Component :=
  if part = [] ∨ part = ['.'] then none
  else if part = ['.', '.'] then some .parentDir
  else some (.normal part)

def components (path : List Char) : List Component :=
  let parts := path.splitOn '/'
  let body := parts.filterMap ofPart
  if path.head? = some '/' then .rootDir :: body
  else if parts.head? = some ['.'] then .curDir :: body
  else body

def parent (path : List Component) : Option (List Component) :=
  match path.getLast? with
  | none | some .rootDir => none
  | some _ => some path.dropLast

def fileName (path : List Component) : Option (List Char) :=
  match path.getLast? with
  | some (.normal name) => some name
  | _ => none

/-- `Path::join` with a file name. -/
def join (dir : List Component) (name : List Char) : List Component := dir ++ [.normal name]

end RustPath

namespace PathDns

open RustPath

/-- `watch_parent`: the directory whose watch covers a path. -/
def watchParent (path : List Component) : List Component :=
  match parent path with
  | some p => if p = [] then [.curDir] else p
  | none => [.curDir]

def normalizedWatchPath (path : Str) : List Component :=
  match fileName (components path) with
  | some name => join (watchParent (components path)) name
  | none => watchParent (components path)

/-- The context of an error in reading a specification's file. -/
def loadContext (spec : RuleSetSpec) (cause : String) : String :=
  let tag := String.ofList spec.tag
  let path := String.ofList spec.path
  s!"failed to load ruleset '{tag}' ({path}): {cause}"

namespace RuleSetDb

/-- The previous database and the changed paths. -/
abbrev Reuse := RuleSetDb × List (List Component)

/-- The entry of a specification: reused or read. -/
def loadEntry (read : RuleSetSpec → Except String TagEntry) (reuse : Option Reuse)
    (spec : RuleSetSpec) : Except String TagEntry :=
  let fresh := (read spec).mapError (loadContext spec)
  match reuse with
  | some (prev, changed) =>
    if changed.contains (normalizedWatchPath spec.path) then fresh
    else
      match prev.tags.lookup spec.tag with
      | some entry => .ok entry
      | none => fresh
  | none => fresh

/-- `db.tags.insert(..)`. -/
def insertEntry (db : RuleSetDb) (spec : RuleSetSpec) (entry : TagEntry) : RuleSetDb :=
  ⟨db.tags.insert spec.tag entry⟩

/-- The loop over the specifications whose tags are requested. -/
def loadSpecs (entryOf : RuleSetSpec → Except String TagEntry) (specs : List RuleSetSpec)
    (db : RuleSetDb) : Except String RuleSetDb :=
  specs.foldlM (fun db spec => (entryOf spec).map (db.insertEntry spec)) db

/-- The check of a tag that names are matched against. -/
def checkDomainTag (db : RuleSetDb) (tag : Str) : Except String Unit :=
  let shown := String.ofList tag
  match db.tags.lookup tag with
  | none => .error s!"ruleset tag '{shown}' not found in any configured route.ruleset entry"
  | some (.ipCidr _) => .error (s!"ruleset tag '{shown}' has behavior=ipcidr, which cannot be used for " ++
      "domain-based tag matching (rule.matcher's tag:)")
  | some (.domain _) => .ok ()

/-- The check of a tag that addresses are matched against. -/
def checkIpcidrTag (db : RuleSetDb) (tag : Str) : Except String Unit :=
  let shown := String.ofList tag
  match db.tags.lookup tag with
  | none => .error s!"ruleset tag '{shown}' not found in any configured route.ruleset entry"
  | some (.domain _) => .error (s!"ruleset tag '{shown}' has behavior=domain, which cannot be used for " ++
      "route.final's IP-based fallback test")
  | some (.ipCidr _) => .ok ()

/-- The checks behind the loop; the lists are in the order in which the sets are walked. -/
def checkTags (db : RuleSetDb) (domainTags ipcidrTags : List Str) : Except String Unit := do
  domainTags.forM db.checkDomainTag
  ipcidrTags.forM db.checkIpcidrTag

/-- The specifications whose files are loaded. -/
def requestedSpecs (specs : List RuleSetSpec) (domainTags ipcidrTags : List Str) : List RuleSetSpec :=
  specs.filter fun spec => domainTags.contains spec.tag || ipcidrTags.contains spec.tag

def load (read : RuleSetSpec → Except String TagEntry) (specs : List RuleSetSpec)
    (domainTags ipcidrTags : List Str) (reuse : Option Reuse) : Except String RuleSetDb := do
  let db ← loadSpecs (loadEntry read reuse) (requestedSpecs specs domainTags ipcidrTags) ⟨∅⟩
  db.checkTags domainTags ipcidrTags
  return db

/-! ### What a load finds -/

theorem lookup_insertEntry (db : RuleSetDb) (spec : RuleSetSpec) (entry : TagEntry) :
    (db.insertEntry spec entry).tags.lookup spec.tag = some entry :=
  AList.lookup_insert _

theorem lookup_insertEntry_ne (db : RuleSetDb) {spec : RuleSetSpec} (entry : TagEntry) {tag : Str}
    (hne : tag ≠ spec.tag) : (db.insertEntry spec entry).tags.lookup tag = db.tags.lookup tag :=
  AList.lookup_insert_ne hne

variable {entryOf : RuleSetSpec → Except String TagEntry} {specs : List RuleSetSpec} {db db' : RuleSetDb}

theorem loadEntry_exists {read : RuleSetSpec → Except String TagEntry} {spec : RuleSetSpec}
    {entry : TagEntry} (h : read spec = .ok entry) (reuse : Option Reuse) :
    ∃ entry', loadEntry read reuse spec = .ok entry' := by
  cases reuse with
  | none => exact ⟨entry, by rw [loadEntry, h]; rfl⟩
  | some r =>
    rw [loadEntry, h]
    split_ifs
    · exact ⟨entry, rfl⟩
    · split
      · exact ⟨_, rfl⟩
      · exact ⟨entry, rfl⟩

/-- An entry was in the previous database, under a path that has not changed, or it was read. -/
theorem of_loadEntry {read : RuleSetSpec → Except String TagEntry} {reuse : Option Reuse}
    {spec : RuleSetSpec} {entry : TagEntry} (h : loadEntry read reuse spec = .ok entry) :
    (∃ prev changed, reuse = some (prev, changed) ∧
      normalizedWatchPath spec.path ∉ changed ∧ prev.tags.lookup spec.tag = some entry) ∨
    read spec = .ok entry ∧ ∀ prev changed, reuse = some (prev, changed) →
      normalizedWatchPath spec.path ∈ changed ∨ prev.tags.lookup spec.tag = none := by
  have hfresh : (read spec).mapError (loadContext spec) = .ok entry → read spec = .ok entry := by
    cases read spec <;> simp [Except.mapError]
  revert h
  fun_cases loadEntry read reuse spec <;> intro h
  case case1 hchanged => exact .inr ⟨hfresh h, by rintro _ _ ⟨⟩; exact .inl (by simpa using hchanged)⟩
  case case2 hchanged old hold => exact .inl ⟨_, _, rfl, by simpa using hchanged, Except.ok.inj h ▸ hold⟩
  case case3 hnone => exact .inr ⟨hfresh h, by rintro _ _ ⟨⟩; exact .inr hnone⟩
  case case4 => exact .inr ⟨hfresh h, nofun⟩

theorem loadSpecs_cons (spec : RuleSetSpec) :
    loadSpecs entryOf (spec :: specs) db =
      entryOf spec >>= fun entry => loadSpecs entryOf specs (db.insertEntry spec entry) := by
  cases h : entryOf spec <;> simp [loadSpecs, h, Except.map, Except.bind, bind]

theorem loadSpecs_ok (hunique : (specs.map (·.tag)).Nodup) (h : loadSpecs entryOf specs db = .ok db') :
    (∀ spec ∈ specs, ∃ entry, entryOf spec = .ok entry ∧ db'.tags.lookup spec.tag = some entry) ∧
      ∀ tag, tag ∉ specs.map (·.tag) → db'.tags.lookup tag = db.tags.lookup tag := by
  induction specs generalizing db with
  | nil =>
    obtain rfl : db = db' := Except.ok.inj h
    exact ⟨by simp, fun _ _ => rfl⟩
  | cons spec specs ih =>
    rw [loadSpecs_cons] at h
    rw [List.map_cons, List.nodup_cons] at hunique
    obtain ⟨entry, hentry, h⟩ := Fallible.bind_eq_ok_iff.mp h
    obtain ⟨hall, hrest⟩ := ih hunique.2 h
    constructor
    · intro other hother
      rcases List.mem_cons.mp hother with rfl | hother
      · exact ⟨entry, hentry, by rw [hrest _ hunique.1, lookup_insertEntry]⟩
      · exact hall other hother
    · intro tag htag
      rw [List.map_cons, List.mem_cons, not_or] at htag
      rw [hrest tag htag.2, lookup_insertEntry_ne _ _ htag.1]

theorem loadSpecs_exists (h : ∀ spec ∈ specs, ∃ entry, entryOf spec = .ok entry) :
    ∃ db', loadSpecs entryOf specs db = .ok db' := by
  induction specs generalizing db with
  | nil => exact ⟨db, rfl⟩
  | cons spec specs ih =>
    obtain ⟨entry, hentry⟩ := h spec List.mem_cons_self
    obtain ⟨db', hdb'⟩ : ∃ db', loadSpecs entryOf specs (db.insertEntry spec entry) = .ok db' :=
      ih fun other hother => h other (List.mem_cons_of_mem _ hother)
    exact ⟨db', by rw [loadSpecs_cons, hentry]; exact hdb'⟩

theorem checkTags_congr {domainTags ipcidrTags : List Str}
    (h : ∀ tag, db'.tags.lookup tag = db.tags.lookup tag) :
    db'.checkTags domainTags ipcidrTags = db.checkTags domainTags ipcidrTags := by
  have hdomain : db'.checkDomainTag = db.checkDomainTag := by
    funext tag
    rw [checkDomainTag, checkDomainTag, h]
  have hipcidr : db'.checkIpcidrTag = db.checkIpcidrTag := by
    funext tag
    rw [checkIpcidrTag, checkIpcidrTag, h]
  rw [checkTags, checkTags, hdomain, hipcidr]

theorem checkTags_ok {domainTags ipcidrTags : List Str} (h : db.checkTags domainTags ipcidrTags = .ok ())
    {tag : Str} (htag : tag ∈ domainTags ++ ipcidrTags) : ∃ entry, db.tags.lookup tag = some entry := by
  obtain ⟨⟨⟩, hdomain, hipcidr⟩ := Fallible.bind_eq_ok_iff.mp h
  rw [← Option.isSome_iff_exists, Option.isSome_iff_ne_none]
  intro hnone
  rcases List.mem_append.mp htag with htag | htag
  · have hok := Fallible.forM_eq_ok_iff.mp hdomain tag htag
    simp [checkDomainTag, hnone] at hok
  · have hok := Fallible.forM_eq_ok_iff.mp hipcidr tag htag
    simp [checkIpcidrTag, hnone] at hok

end RuleSetDb

end PathDns
