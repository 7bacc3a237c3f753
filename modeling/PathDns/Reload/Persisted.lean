import PathDns.Config.Distinguish
import PathDns.Reload.Isolation

/-!
# What the header of a cache file describes

A save computes the fingerprint from the current config and the metadata of the ruleset files on disk, and
then walks over the cache; a reload swaps the hot state and clears the caches in between. Every entry of a
file should have been decided under the config and the file contents that the fingerprint in its header
describes (`Persisted`), so that a later start with that fingerprint reads nothing decided otherwise.

The gaps are those of the reloads, a file on disk that is not the one the hot state was built from when
its metadata is read, and a walk that meets entries of another hot state than the one the fingerprint was
computed for (`CarefulSave`).
-/

namespace PathDns

open Runs

/-- The next file whose metadata the save reads is as the hot state of the save was built from it. -/
def Saver.CarefulRead (s : System) (v : Saver) : Prop :=
  match v.phase, v.todo with
  | .fingerprinting, spec :: _ => spec ∈ neededSpecs v.cfg →
    (s.disk spec.path).map (·.content) = s.origins[v.epoch]?.bind (·.contents spec.tag)
  | _, _ => True

instance (s : System) (v : Saver) : Decidable (v.CarefulRead s) := by
  unfold Saver.CarefulRead
  split <;> infer_instance

namespace System

/-- The save reads the metadata of the files its hot state was built from, and walks over entries of that
hot state only. -/
def CarefulSave (s : System) : SystemEvent → Prop
  | .saveStep j => ∀ v ∈ s.savers[j]?, v.CarefulRead s
  | .saveVisit j _ _ _ => ∀ v ∈ s.savers[j]?, v.epoch = s.epoch ∧ s.cacheClears = s.epoch
  | .saveVisitVerdict j _ _ => ∀ v ∈ s.savers[j]?, v.epoch = s.epoch ∧ s.verdictClears = s.epoch
  | _ => True

instance (s : System) (e : SystemEvent) : Decidable (s.CarefulSave e) :=
  match e with
  | .saveStep j => inferInstanceAs (Decidable (∀ v ∈ s.savers[j]?, v.CarefulRead s))
  | .saveVisit j _ _ _ =>
    inferInstanceAs (Decidable (∀ v ∈ s.savers[j]?, v.epoch = s.epoch ∧ s.cacheClears = s.epoch))
  | .saveVisitVerdict j _ _ =>
    inferInstanceAs (Decidable (∀ v ∈ s.savers[j]?, v.epoch = s.epoch ∧ s.verdictClears = s.epoch))
  | .edit _ _ | .query _ _ _ | .advance _ _ _ | .forget _ | .forgetVerdict _ | .reloadRuleset _ | .reloadConfig _
  | .reloadStep | .reloadFail | .save => .isTrue trivial

/-- Every entry of every file was decided under what the header of the file describes. -/
def Persisted (s : System) : Prop :=
  (∀ file ∈ s.files, ∀ e ∈ file.entries, ∀ d ∈ e.2, s.origins[d]? = some file.described) ∧
  ∀ file ∈ s.verdictFiles, ∀ e ∈ file.entries, s.origins[e.2.2]? = some file.described

end System

/-! ### Contents by tag -/

/-- An origin whose contents are those of the needed files. -/
def Origin.Supported (o : Origin) : Prop :=
  ∃ files : List (RuleSetSpec × Option (List UInt8)),
    files.map (·.1) = neededSpecs o.cfg ∧ o.contents = contentsOf files

theorem Origin.of_supported (cfg : Config) (disk : Disk) : (Origin.of cfg disk).Supported := by
  refine ⟨(neededSpecs cfg).map (fun spec => (spec, (disk spec.path).map (·.content))), ?_, rfl⟩
  rw [List.map_map]
  exact List.map_id _

variable {files : List (RuleSetSpec × Option (List UInt8))}

theorem contentsOf_eq_none {tag : Str} (h : ∀ f ∈ files, f.1.tag ≠ tag) : contentsOf files tag = none := by
  have hfind : files.reverse.find? (fun f => f.1.tag = tag) = none := by
    rw [List.find?_eq_none]
    intro f hf
    simpa using h f (List.mem_reverse.mp hf)
  rw [contentsOf, hfind]
  rfl

variable {o : Origin}

theorem Origin.Supported.contentsOf_eq (h : o.Supported) (hspecs : files.map (·.1) = neededSpecs o.cfg)
    (hfiles : ∀ f ∈ files, f.2 = o.contents f.1.tag) : contentsOf files = o.contents := by
  funext tag
  by_cases hmem : ∃ f ∈ files, f.1.tag = tag
  · obtain ⟨f, hf, htag⟩ := hmem
    obtain ⟨g, hg⟩ : ∃ g, files.reverse.find? (fun f => f.1.tag = tag) = some g := by
      rw [← Option.isSome_iff_exists, List.find?_isSome]
      exact ⟨f, List.mem_reverse.mpr hf, by simpa using htag⟩
    have hgtag : g.1.tag = tag := by simpa using List.find?_some hg
    rw [contentsOf, hg, Option.bind_some,
      hfiles g (List.mem_reverse.mp (List.mem_of_find?_eq_some hg)), hgtag]
  · obtain ⟨files₀, hspecs₀, hcontents⟩ := h
    have hnone : ∀ f ∈ files, f.1.tag ≠ tag := fun f hf htag => hmem ⟨f, hf, htag⟩
    rw [contentsOf_eq_none hnone, hcontents, contentsOf_eq_none]
    intro f hf htag
    have hspec : f.1 ∈ files.map (·.1) := by
      rw [hspecs, ← hspecs₀]
      exact List.mem_map_of_mem hf
    obtain ⟨f', hf', heq⟩ := List.mem_map.mp hspec
    exact hnone f' hf' (by rw [heq, htag])

theorem filter_mem_neededSpecs (cfg : Config) :
    cfg.rulesetSpecs.filter (fun spec => spec ∈ neededSpecs cfg) = neededSpecs cfg := by
  apply List.filter_congr
  intro spec hspec
  simp [neededSpecs, hspec]

/-! ### Savers -/

theorem FilesRead.needed {read : FilesRead} {cfg : Config} (hread : read.map (·.1) = cfg.rulesetSpecs) :
    (read.filter (fun f => f.1 ∈ neededSpecs cfg)).map (·.1) = neededSpecs cfg := by
  have hcomm : (read.filter (fun f => f.1 ∈ neededSpecs cfg)).map (·.1) =
      (read.map (·.1)).filter (fun spec => spec ∈ neededSpecs cfg) := by
    rw [List.filter_map]
    rfl
  rw [hcomm, hread, filter_mem_neededSpecs]

/-- What holds of a save that loaded its config from the hot state built from `o`. -/
structure Saver.Tracks (o : Origin) (v : Saver) : Prop where
  cfg : o.cfg = v.cfg
  read : v.seen.map (·.1) ++ v.todo = v.cfg.rulesetSpecs
  seen : ∀ f ∈ v.seen, f.1 ∈ neededSpecs v.cfg → f.2.map (·.content) = o.contents f.1.tag
  walk : ∀ entries, v.phase = .walking entries → v.todo = [] ∧ ∀ e ∈ entries, ∀ d ∈ e.2, d = v.epoch
  walkVerdicts : ∀ entries, v.phase = .walkingVerdicts entries →
    v.todo = [] ∧ ∀ e ∈ entries, e.2.2 = v.epoch

variable {v : Saver}

/-- A save that has read all files describes what the hot state was built from. -/
theorem Saver.Tracks.described_eq (h : v.Tracks o) (ho : o.Supported) (htodo : v.todo = []) :
    v.described = o := by
  have hread := h.read
  rw [htodo, List.append_nil] at hread
  have hcontents : v.described.contents = o.contents := by
    apply ho.contentsOf_eq
    · rw [List.map_map, h.cfg]
      exact FilesRead.needed hread
    · intro f hf
      obtain ⟨g, hg, rfl⟩ := List.mem_map.mp hf
      obtain ⟨hg, hneeded⟩ := List.mem_filter.mp hg
      exact h.seen g hg (of_decide_eq_true hneeded)
  have hcfg := h.cfg
  obtain ⟨cfg, contents⟩ := o
  simp only at hcfg hcontents
  rw [← hcontents, hcfg]
  rfl

/-- A header that describes `o` and was computed from files as they were read from disk. -/
structure Headed (special : Char → Bool) (fingerprint : UInt64) (o : Origin) (read : FilesRead) : Prop where
  specs : read.map (·.1) = o.cfg.rulesetSpecs
  fingerprint : fingerprint = cacheFingerprint special read.metadata o.cfg
  contents : o.contents = read.contents o.cfg

variable {special : Char → Bool}

theorem Saver.Tracks.headed (h : v.Tracks o) (htodo : v.todo = []) :
    Headed special (cacheFingerprint special v.metadata v.cfg) v.described v.seen := by
  have hread := h.read
  rw [htodo, List.append_nil] at hread
  exact ⟨hread, rfl, rfl⟩

/-! ### The invariant -/

namespace System

/-- A reload reads the files its config needs; a ruleset reload keeps the config. -/
def ReadsNeeded (s : System) : ReloadPhase → Prop
  | .reading changed cfg todo read =>
    read.map (·.1) ++ todo = neededSpecs cfg ∧ (changed.isSome → cfg = s.hot.cfg)
  | _ => True

/-- The invariant of a careful run. -/
structure Described (special : Char → Bool) (s : System) : Prop where
  length : s.origins.length = s.epoch + 1
  current : ∀ o, s.origins[s.epoch]? = some o → o.cfg = s.hot.cfg
  supported : ∀ o ∈ s.origins, o.Supported
  reading : s.ReadsNeeded s.reload
  savers : ∀ v ∈ s.savers, ∃ o, s.origins[v.epoch]? = some o ∧ v.Tracks o
  persisted : s.Persisted
  headed : (∀ file ∈ s.files, ∃ read, Headed special file.fingerprint file.described read) ∧
    ∀ file ∈ s.verdictFiles, ∃ read, Headed special file.fingerprint file.described read

variable {special : Char → Bool} {g : UInt64} {s s' : System} {v : Saver}

theorem Initial.described (h : s.Initial) : s.Described special where
  length := by simp [h.origins, h.epoch]
  current := by
    intro o ho
    simp only [h.origins, h.epoch, List.getElem?_cons_zero, Option.some.injEq] at ho
    exact ho ▸ rfl
  supported := by
    intro o ho
    rw [h.origins, List.mem_singleton] at ho
    exact ho ▸ Origin.of_supported _ _
  reading := by rw [h.reload]; trivial
  savers := by simp [h.savers]
  persisted := by simp [Persisted, h.files, h.verdictFiles]
  headed := by simp [h.files, h.verdictFiles]

theorem Described.current_origin (h : s.Described special) :
    ∃ o, s.origins[s.epoch]? = some o ∧ o.cfg = s.hot.cfg := by
  have hlt : s.epoch < s.origins.length := by rw [h.length]; omega
  exact ⟨_, List.getElem?_eq_getElem hlt, h.current _ (List.getElem?_eq_getElem hlt)⟩

/-! ### Queries and reloads -/

variable {nowUnix : Nat}

variable {o : Origin}

theorem Described.store (h : s.Described special) {hot : HotState} (hcfg : o.cfg = hot.cfg) (ho : o.Supported) :
    { s with hot := hot, reload := .stored, epoch := s.epoch + 1,
             origins := s.origins ++ [o] : System }.Described special := by
  have hold : ∀ {d : Nat} {o' : Origin}, s.origins[d]? = some o' → (s.origins ++ [o])[d]? = some o' :=
    Slots.getElem?_push_of_some
  refine ⟨by simp [h.length], ?_, ?_, trivial, ?_, ⟨?_, ?_⟩, h.headed⟩
  · intro o' ho'
    simp only [← h.length, List.getElem?_concat_length, Option.some.injEq] at ho'
    exact ho' ▸ hcfg
  · exact Slots.forall_mem_push h.supported ho
  · intro v hv
    obtain ⟨o', ho', htracks⟩ := h.savers v hv
    exact ⟨o', hold ho', htracks⟩
  · exact fun file hfile e he d hd => hold (h.persisted.1 file hfile e he d hd)
  · exact fun file hfile e he => hold (h.persisted.2 file hfile e he)

theorem Described.reloadStep (h : s.Described special) {parse : RulesetParser}
    (hstep : s.reloadStep parse = some s') : s'.Described special := by
  have hphase : ∀ phase, s.ReadsNeeded phase → { s with reload := phase : System }.Described special :=
    fun phase hphase => { h with reading := hphase }
  have hreading := h.reading
  revert hstep
  fun_cases System.reloadStep parse s <;> rintro ⟨⟩
  case case2 | case4 => exact hphase _ trivial
  case case3 hreload _ _ =>
    rw [hreload] at hreading
    exact hphase _ ⟨by simpa using hreading.1, hreading.2⟩
  case case5 changed cfg read hreload hot hhot =>
    rw [hreload] at hreading
    have hcfg : cfg = hot.cfg := by
      rw [(reloadedHot_eq hhot).2]
      split_ifs with hchanged
      · exact hreading.2 hchanged
      · rfl
    apply h.store hcfg
    refine ⟨read.map (fun r => (r.1, some r.2)), ?_, rfl⟩
    simpa [Function.comp_def] using hreading.1
  case case6 | case7 => exact { h with reading := trivial }

/-! ### Saves -/

theorem Described.setSaver (h : s.Described special) (j : Nat) (ho : s.origins[v.epoch]? = some o)
    (hv : v.Tracks o) : (s.setSaver j v).Described special :=
  { h with savers := Slots.forall_mem_set h.savers ⟨o, ho, hv⟩ }

theorem Described.addFile (h : s.Described special) {file : SavedFile}
    (hfile : ∀ e ∈ file.entries, ∀ d ∈ e.2, s.origins[d]? = some file.described)
    (hheaded : ∃ read, Headed special file.fingerprint file.described read) :
    { s with files := s.files ++ [file] : System }.Described special :=
  { h with
    persisted := ⟨Slots.forall_mem_push h.persisted.1 hfile, h.persisted.2⟩
    headed := ⟨Slots.forall_mem_push h.headed.1 hheaded, h.headed.2⟩ }

theorem Described.addVerdictFile (h : s.Described special) {file : SavedVerdicts}
    (hfile : ∀ e ∈ file.entries, s.origins[e.2.2]? = some file.described)
    (hheaded : ∃ read, Headed special file.fingerprint file.described read) :
    { s with verdictFiles := s.verdictFiles ++ [file] : System }.Described special :=
  { h with
    persisted := ⟨h.persisted.1, Slots.forall_mem_push h.persisted.2 hfile⟩
    headed := ⟨h.headed.1, Slots.forall_mem_push h.headed.2 hheaded⟩ }

theorem Described.saveStep (h : s.Described special) {j : Nat} (ho : s.origins[v.epoch]? = some o)
    (hv : v.Tracks o)
    (hcareful : ∀ spec todo, v.phase = .fingerprinting → v.todo = spec :: todo →
      spec ∈ neededSpecs v.cfg → (s.disk spec.path).map (·.content) = o.contents spec.tag)
    (hstep : System.saveStep special s j v = some s') : s'.Described special := by
  revert hstep
  fun_cases System.saveStep special s j v <;> rintro ⟨⟩
  case case1 hphase spec todo htodo =>
    have hread := hv.read
    rw [htodo] at hread
    refine h.setSaver j ho ⟨hv.cfg, by simpa using hread, ?_, by simp [hphase], by simp [hphase]⟩
    exact Slots.forall_mem_push hv.seen (hcareful spec todo hphase htodo)
  case case2 hphase htodo =>
    exact h.setSaver j ho ⟨hv.cfg, hv.read, hv.seen, by simp [htodo], by simp⟩
  case case3 entries hphase _ =>
    obtain ⟨htodo, hentries⟩ := hv.walk entries hphase
    have hdescribed := hv.described_eq (h.supported o (List.mem_of_getElem? ho)) htodo
    have hnext : (s.setSaver j { v with
        phase := if s.verdicts.enabled then .walkingVerdicts [] else .done }).Described special := by
      refine h.setSaver j ho ⟨hv.cfg, hv.read, hv.seen, ?_, ?_⟩
      · intro entries heq
        simp only at heq
        split_ifs at heq
      · intro entries heq
        simp only at heq
        split_ifs at heq
        rw [← SaverPhase.walkingVerdicts.inj heq]
        exact ⟨htodo, by simp⟩
    split_ifs
    · refine hnext.addFile (fun e he d hd => ?_) ⟨v.seen, hv.headed htodo⟩
      rw [hentries e he d hd, hdescribed]
      exact ho
    · exact hnext
  case case4 entries hphase =>
    obtain ⟨htodo, hentries⟩ := hv.walkVerdicts entries hphase
    have hdescribed := hv.described_eq (h.supported o (List.mem_of_getElem? ho)) htodo
    have hnext : (s.setSaver j { v with phase := .done }).Described special :=
      h.setSaver j ho ⟨hv.cfg, hv.read, hv.seen, by simp, by simp⟩
    refine hnext.addVerdictFile (fun e he => ?_) ⟨v.seen, hv.headed htodo⟩
    rw [hentries e he, hdescribed]
    exact ho

theorem Described.saveVisit (h : s.Described special) (hiso : s.Isolated g) {j : Nat} {key : CacheKey}
    {now : Nat} (ho : s.origins[v.epoch]? = some o) (hv : v.Tracks o)
    (hcareful : v.epoch = s.epoch ∧ s.cacheClears = s.epoch)
    (hstep : s.saveVisit j key now nowUnix v = some s') : s'.Described special := by
  revert hstep
  fun_cases System.saveVisit s j key now nowUnix v <;> rintro ⟨⟩
  case case1 => exact h
  case case2 entries hphase record hrecord =>
    obtain ⟨entry, hentry, -⟩ := Option.bind_eq_some_iff.mp hrecord
    obtain ⟨m, hm, hlook⟩ := Option.bind_eq_some_iff.mp hentry
    obtain ⟨ds, hds, hbounds⟩ := hiso.responses m hm key entry hlook
    obtain ⟨htodo, hentries⟩ := hv.walk entries hphase
    refine h.setSaver j ho ⟨hv.cfg, hv.read, hv.seen, ?_, by simp⟩
    rintro _ ⟨⟩
    refine ⟨htodo, Slots.forall_mem_push hentries fun d hd => ?_⟩
    rw [hds] at hd
    have hd := hbounds d hd
    simp only
    omega

theorem Described.saveVisitVerdict (h : s.Described special) (hiso : s.Isolated g) {j : Nat} {qname : Utf8.Text}
    (ho : s.origins[v.epoch]? = some o) (hv : v.Tracks o)
    (hcareful : v.epoch = s.epoch ∧ s.verdictClears = s.epoch)
    (hstep : s.saveVisitVerdict j qname nowUnix v = some s') : s'.Described special := by
  revert hstep
  fun_cases System.saveVisitVerdict s j qname nowUnix v <;> rintro ⟨⟩
  case case2 entries hphase entry stamp hstamp hentry _ =>
    obtain ⟨m, hm, hlook⟩ := Option.bind_eq_some_iff.mp hentry
    obtain ⟨d, hd, hbounds⟩ := hiso.verdictsStamped m hm qname entry hlook
    rw [hstamp, Option.some.injEq] at hd
    obtain ⟨htodo, hentries⟩ := hv.walkVerdicts entries hphase
    refine h.setSaver j ho ⟨hv.cfg, hv.read, hv.seen, by simp, ?_⟩
    rintro _ ⟨⟩
    refine ⟨htodo, Slots.forall_mem_push hentries ?_⟩
    simp only
    omega
  all_goals exact h

/-! ### Runs -/

variable {parse : RulesetParser} {e : SystemEvent}

/-- One careful event. -/
theorem Described.step (h : s.Described special) (hiso : s.Isolated g) (hcareful : s.CarefulSave e)
    (hstep : s.step parse special e = some s') : s'.Described special := by
  revert hstep
  fun_cases System.step parse special s e <;> intro hstep
  case case2 =>
    obtain ⟨target, -, rfl⟩ := Option.map_eq_some_iff.mp hstep
    exact { h with }
  case case3 =>
    obtain ⟨f, -, hadv⟩ := Option.bind_eq_some_iff.mp hstep
    obtain ⟨f', cache, verdicts, stamps, verdictStamps, rfl, -⟩ := advance_eq hadv
    exact { h with }
  case case6 =>
    cases hstep
    split_ifs
    · exact { h with reading := ⟨by simp, fun _ => rfl⟩ }
    · exact h
  case case8 =>
    cases hstep
    split_ifs
    · exact h
    · exact { h with reading := ⟨by simp, by simp⟩ }
  case case10 => exact h.reloadStep hstep
  case case13 =>
    cases hstep
    obtain ⟨o, ho, hcfg⟩ := h.current_origin
    exact { h with
      savers := Slots.forall_mem_push h.savers ⟨o, ho, hcfg, rfl, by simp, by simp, by simp⟩ }
  case case14 j =>
    obtain ⟨v, hv, hsave⟩ := Option.bind_eq_some_iff.mp hstep
    obtain ⟨o, ho, htracks⟩ := h.savers v (List.mem_of_getElem? hv)
    refine h.saveStep ho htracks ?_ hsave
    intro spec todo hphase htodo hneeded
    have hread := hcareful v hv
    rw [Saver.CarefulRead, hphase, htodo] at hread
    rw [hread hneeded, ho, Option.bind_some]
  case case15 j key now nowUnix =>
    obtain ⟨v, hv, hsave⟩ := Option.bind_eq_some_iff.mp hstep
    obtain ⟨o, ho, htracks⟩ := h.savers v (List.mem_of_getElem? hv)
    exact h.saveVisit hiso ho htracks (hcareful v hv) hsave
  case case16 j qname nowUnix =>
    obtain ⟨v, hv, hsave⟩ := Option.bind_eq_some_iff.mp hstep
    obtain ⟨o, ho, htracks⟩ := h.savers v (List.mem_of_getElem? hv)
    exact h.saveVisitVerdict hiso ho htracks (hcareful v hv) hsave
  -- an edit, a forgotten binding, or a reload that fails
  all_goals cases hstep <;> first | exact { h with } | exact { h with reading := trivial }

end System

/-! ### A later start -/

/-- What `metadata` tells of a file. -/
def DiskFile.metadata (file : DiskFile) : UInt64 × UInt64 := (file.mtime, .ofNat file.content.length)

def Disk.metadata (disk : Disk) : Metadata := fun spec => (disk spec.path).map DiskFile.metadata

/-- The hash of a stream. -/
def tokenHash (tokens : List Token) : UInt64 := (tokens.foldl Fnv1a.writeToken Fnv1a.new).finish

/-- A start with `cfg` and the files on disk that accepts a header computed from `saved` and the files
`read`. The hash does not collide on the two streams, the streams tell the two configurations apart, and a
file of the same modification time and length has the same content. -/
structure LaterStart (special : Char → Bool) (saved : Config) (read : FilesRead) (cfg : Config)
    (disk : Disk) : Prop where
  accepted : cacheFingerprint special disk.metadata cfg = cacheFingerprint special read.metadata saved
  noCollision : Set.InjOn tokenHash
    {fingerprintTokens special read.metadata saved, fingerprintTokens special disk.metadata cfg}
  parsed : saved.Parsed ∧ cfg.Parsed
  plain : saved.PlainTags ∧ cfg.PlainTags
  told : ¬ Confusable read.metadata disk.metadata saved cfg
  nodup : cfg.rulesetSpecs.Nodup
  sameFiles : ∀ f ∈ read, f.2.map DiskFile.metadata = (disk f.1.path).map DiskFile.metadata →
    f.2.map (·.content) = (disk f.1.path).map (·.content)

theorem flatMap_perm_of_forall₂ {α β : Type} {R : α → α → Prop} {f : α → List β} {xs ys : List α}
    (hf : ∀ x y, R x y → (f x).Perm (f y)) (h : List.Forall₂ R xs ys) :
    (xs.flatMap f).Perm (ys.flatMap f) := by
  induction h with
  | nil => exact .refl _
  | cons hxy _ ih => exact (hf _ _ hxy).append ih

theorem Agree.neededSpecs_eq {cfg cfg' : Config} (h : PathDns.Agree cfg cfg') :
    neededSpecs cfg = neededSpecs cfg' := by
  have hdomain : neededRulesetDomainTags cfg = neededRulesetDomainTags cfg' := by
    apply flatMap_eq_of_forall₂ _ h.rules
    intro g g' hg
    rw [hg.matcher]
  have hfilters : (cfg.rules.flatMap (fun spec => spec.filters.flatMap
      (fun f => f.answerIp.includes ++ f.answerIp.excludes))).Perm (cfg'.rules.flatMap
      (fun spec => spec.filters.flatMap (fun f => f.answerIp.includes ++ f.answerIp.excludes))) := by
    apply flatMap_perm_of_forall₂ _ h.rules
    intro g g' hg
    apply flatMap_perm_of_forall₂ _ hg.filters
    exact fun f f' hf => hf.includes.append hf.excludes
  have hipcidr : (neededRulesetIpcidrTags cfg).Perm (neededRulesetIpcidrTags cfg') := by
    have hagree := h.fallback
    refine List.Perm.append ?_ hfilters
    generalize cfg.fallback.target = t at hagree ⊢
    generalize cfg'.fallback.target = t' at hagree ⊢
    cases t <;> cases t'
    case dual.dual => exact hagree.2.2.1.append hagree.2.2.2
    case lastRule.lastRule | server.server => exact .refl _
    all_goals exact hagree.elim
  rw [neededSpecs, neededSpecs, h.rulesets]
  apply List.filter_congr
  intro spec _
  rw [hdomain, hipcidr.contains_eq]

theorem metadataBytes_injective : Function.Injective metadataBytes := by
  rintro (_ | ⟨mtime, len⟩) (_ | ⟨mtime', len'⟩) h
  · rfl
  · simp [metadataBytes, Bytes.encLe] at h
  · simp [metadataBytes, Bytes.encLe] at h
  · obtain ⟨hmtime, hlen⟩ := List.append_inj h (by simp)
    rw [UInt64.toNat_inj.mp (Bytes.encLe_injective (UInt64.toNat_lt _) (UInt64.toNat_lt _) hmtime),
      UInt64.toNat_inj.mp (Bytes.encLe_injective (UInt64.toNat_lt _) (UInt64.toNat_lt _) hlen)]

section LaterStart

variable {read : FilesRead} {saved cfg : Config} {disk : Disk}

theorem FilesRead.metadata_of_mem (hnodup : (read.map (·.1)).Nodup) {f : RuleSetSpec × Option DiskFile}
    (hf : f ∈ read) : read.metadata f.1 = f.2.map DiskFile.metadata := by
  have hfind : read.find? (fun f' => f'.1 = f.1) = some f := by
    obtain ⟨g, hg⟩ : ∃ g, read.find? (fun f' => f'.1 = f.1) = some g := by
      rw [← Option.isSome_iff_exists, List.find?_isSome]
      exact ⟨f, hf, by simp⟩
    have hkey : g.1 = f.1 := by simpa using List.find?_some hg
    rw [hg, List.inj_on_of_nodup_map hnodup (List.mem_of_find?_eq_some hg) hf hkey]
  rw [FilesRead.metadata, hfind]
  rfl

/-- A later start that accepts a header runs under rules and files like those it was computed from. -/
theorem LaterStart.agree (h : LaterStart special saved read cfg disk)
    (hread : read.map (·.1) = saved.rulesetSpecs) :
    PathDns.Agree saved cfg ∧ read.contents saved = (Origin.of cfg disk).contents := by
  have htokens : fingerprintTokens special read.metadata saved =
      fingerprintTokens special disk.metadata cfg :=
    h.noCollision (by simp) (by simp) h.accepted.symm
  have hnear := near_of_tokens_eq h.parsed.1 h.parsed.2 h.plain.1 h.plain.2 htokens
  have hagree : PathDns.Agree saved cfg := hnear.agree_iff.mpr (fun hother => h.told ⟨hnear, hother⟩)
  refine ⟨hagree, ?_⟩
  have hnodup : (read.map (·.1)).Nodup := by
    rw [hread, hagree.rulesets]
    exact h.nodup
  have hcontent : ∀ f ∈ read, f.2.map (·.content) = (disk f.1.path).map (·.content) := by
    intro f hf
    apply h.sameFiles f hf
    have hspec : f.1 ∈ cfg.rulesetSpecs := by
      rw [← hagree.rulesets, ← hread]
      exact List.mem_map_of_mem hf
    have hspecs := hnear.rulesets
    rw [hagree.rulesets] at hspecs
    have hpath := (List.forall₂_same.mp hspecs f.1 hspec).path
    rw [← FilesRead.metadata_of_mem hnodup hf]
    exact metadataBytes_injective (List.append_cancel_left hpath)
  have hneeded : neededSpecs cfg = (read.filter (fun f => f.1 ∈ neededSpecs saved)).map (·.1) := by
    rw [FilesRead.needed hread, hagree.neededSpecs_eq]
  change contentsOf _ = contentsOf ((neededSpecs cfg).map _)
  rw [hneeded, List.map_map]
  apply congrArg contentsOf
  apply List.map_congr_left
  intro f hf
  exact Prod.ext rfl (hcontent f (List.mem_filter.mp hf).1)

end LaterStart

/-- The header was computed from the described config and some files read from disk, and whatever start
accepts it runs under rules and files like those described. -/
def StartsAlike (special : Char → Bool) (fingerprint : UInt64) (o : Origin) : Prop :=
  ∃ read, Headed special fingerprint o read ∧ ∀ cfg disk, LaterStart special o.cfg read cfg disk →
    PathDns.Agree o.cfg cfg ∧ o.contents = (Origin.of cfg disk).contents

theorem Headed.startsAlike {fingerprint : UInt64} {read : FilesRead}
    (h : Headed special fingerprint o read) : StartsAlike special fingerprint o := by
  refine ⟨read, h, fun cfg disk hstart => ?_⟩
  rw [h.contents]
  exact hstart.agree h.specs

/-- After any run of careful accesses, every entry of every file was decided under what the header of the
file describes, and a start that accepts the header runs under rules and files like those. -/
theorem System.run_persisted {parse : RulesetParser} {special : Char → Bool} {s s' : System}
    {events : List SystemEvent} (hinit : s.Initial)
    (hcareful : Meets (System.step parse special) (fun s e => s.Careful e ∧ s.CarefulSave e) s events)
    (hrun : run (System.step parse special) s events = some s') :
    s'.Persisted ∧ (∀ file ∈ s'.files, StartsAlike special file.fingerprint file.described) ∧
      ∀ file ∈ s'.verdictFiles, StartsAlike special file.fingerprint file.described := by
  have hinv : s'.Isolated s.hot.generation ∧ s'.Described special :=
    run_invariant (I := fun s' => s'.Isolated s.hot.generation ∧ s'.Described special)
      (fun _ _ _ hi hc hst => ⟨hi.1.step hc.1 hst, hi.2.step hi.1 hc.2 hst⟩)
      ⟨hinit.isolated, hinit.described⟩ hcareful hrun
  obtain ⟨-, hdescribed⟩ := hinv
  refine ⟨hdescribed.persisted, fun file hfile => ?_, fun file hfile => ?_⟩
  · obtain ⟨read, hread⟩ := hdescribed.headed.1 file hfile
    exact hread.startsAlike
  · obtain ⟨read, hread⟩ := hdescribed.headed.2 file hfile
    exact hread.startsAlike

/-- A save that reads one file and meets one response and one verdict. -/
def sampleSave : List SystemEvent :=
  [.save, .saveStep 0, .saveStep 0, .saveVisit 0 (sampleInsert sampleQuery sampleResponse).key 0 0,
    .saveStep 0, .saveVisitVerdict 0 ⟨[97], Utf8.valid_letter⟩ 0, .saveStep 0]

theorem System.run_persisted_sample : ∃ s', run (System.step sampleParse (fun _ => false)) sampleSystem
    (sampleQueryEvent :: sampleAccesses 0 5 ++ sampleSave) = some s' ∧
    s'.files.map (·.entries.length) = [1] ∧ s'.verdictFiles.map (·.entries.length) = [1] ∧
    s'.Persisted := by
  have hend : (run (System.step sampleParse (fun _ => false)) sampleSystem
      (sampleQueryEvent :: sampleAccesses 0 5 ++ sampleSave)).any (fun s =>
        s.files.map (·.entries.length) = [1] ∧ s.verdictFiles.map (·.entries.length) = [1]) = true := by
    decide +kernel
  obtain ⟨s', hrun, hs'⟩ := (Option.any_eq_true _ _).mp hend
  obtain ⟨hfiles, hverdicts⟩ := of_decide_eq_true hs'
  refine ⟨s', hrun, hfiles, hverdicts, (System.run_persisted sampleSystem_initial ?_ hrun).1⟩
  apply (meets_of_computed (C := fun s e => decide (System.Careful s e ∧ System.CarefulSave s e))
    (by decide +kernel)).mono
  exact fun s e => of_decide_eq_true

/-- The ruleset file is replaced after the query and before the save, and not reloaded. -/
def editedRun : List SystemEvent :=
  sampleQueryEvent :: sampleAccesses 0 5 ++ .edit ['/', 'c'] (some ⟨[], 8⟩) :: sampleSave

/-- The entries were decided under the old content, the header describes the new one. -/
theorem edited_file_in_header : sampleSystem.Initial ∧ ∃ s',
    run (System.step sampleParse (fun _ => false)) sampleSystem editedRun = some s' ∧
    ¬ s'.Persisted := by
  have hend : (run (System.step sampleParse (fun _ => false)) sampleSystem editedRun).any (fun s =>
      s.files.map (·.entries.map (·.2)) = [[[0]]] ∧
      s.files.map (fun file => file.described.contents ['c']) = [some []] ∧
      s.origins[0]?.map (fun o => o.contents ['c']) = some (some [49])) = true := by
    decide +kernel
  obtain ⟨s', hrun, hs'⟩ := (Option.any_eq_true _ _).mp hend
  obtain ⟨hentries, hdescribed, horigin⟩ := of_decide_eq_true hs'
  refine ⟨sampleSystem_initial, s', hrun, fun hpersisted => ?_⟩
  obtain ⟨file, hfile⟩ : ∃ file, s'.files = [file] := by
    rw [← List.length_eq_one_iff, ← List.length_map (f := fun file => file.described.contents ['c']),
      hdescribed]
    rfl
  rw [hfile] at hentries hdescribed
  simp only [List.map_cons, List.map_nil, List.cons.injEq, and_true] at hentries hdescribed
  obtain ⟨e, he⟩ : ∃ e, file.entries = [e] := by
    rw [← List.length_eq_one_iff, ← List.length_map (f := fun e : Record × List Nat => e.2), hentries]
    rfl
  rw [he] at hentries
  have hsame := hpersisted.1 file (by simp [hfile]) e (by simp [he]) 0 (by simp_all)
  rw [hsame, Option.map_some, hdescribed] at horigin
  simp at horigin

end PathDns
