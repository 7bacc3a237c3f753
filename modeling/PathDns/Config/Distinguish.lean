import PathDns.Config.FingerprintRuns
import PathDns.Server

/-!
# Which configurations the fingerprint stream tells apart

Two configurations agree when they cannot be told apart by what is cached under them or for how long: tags
are compared up to their order, TTL limits after the global ones have been filled in. `Near` is what the
streams show of two configurations. It falls short of `Agree` in three places: the primary, the secondary
and the first tag of a final share a run; a missing TTL override is fed like a TTL of zero; and the path of
a ruleset file runs into the metadata of the file.
-/

namespace PathDns

open Bytes Reading RustFmt

/-! ### Parsed configurations -/

/-- What the parser guarantees of a ruleset specification whose path has been anchored. -/
structure RuleSetSpec.Parsed (s : RuleSetSpec) : Prop where
  tag : s.tag ≠ []
  slash : '/' ∉ s.tag
  path : ∃ rest, s.path = '/' :: rest

/-- What the parser guarantees of the parts that are fed: no name and no tag is empty and RCODEs have four
bits. -/
structure Config.Parsed (cfg : Config) : Prop where
  servers : ∀ s ∈ cfg.servers, s.1 ≠ []
  tags : ∀ t ∈ neededRulesetIpcidrTags cfg, t ≠ []
  rcodes : ∀ g ∈ cfg.rules, ∀ f ∈ g.filters, ∀ r ∈ f.responseRcode, r.toNat ≤ 15
  rulesets : ∀ s ∈ cfg.rulesetSpecs, s.Parsed

/-- No `answer-ip` tag begins with one of the first sixteen control characters. -/
def Config.PlainTags (cfg : Config) : Prop :=
  ∀ t ∈ neededRulesetIpcidrTags cfg, ∀ c ∈ t.head?, 16 ≤ c.toNat

/-! ### Agreement -/

/-- Filters that match alike; the order of tags does not matter. -/
structure FilterAgree (f f' : RuleFilterSpec) : Prop where
  includes : f.answerIp.includes.Perm f'.answerIp.includes
  excludes : f.answerIp.excludes.Perm f'.answerIp.excludes
  responseType : f.responseType = f'.responseType
  responseRcode : f.responseRcode = f'.responseRcode
  responseQclass : f.responseQclass = f'.responseQclass
  action : f.action = f'.action

/-- The policy of a rule once the global limits are filled in. -/
def effectivePolicy (cfg : Config) (policy : Option RuleCachePolicy) : ResolvedCachePolicy :=
  (DnsCache.new 0 cfg.cacheMinTtl cfg.cacheMaxTtl).resolvePolicy policy

structure RuleAgree (cfg cfg' : Config) (g g' : RuleSpec) : Prop where
  server : g.server = g'.server
  matcher : g.matcher = g'.matcher
  filters : List.Forall₂ FilterAgree g.filters g'.filters
  policy : effectivePolicy cfg g.cachePolicy = effectivePolicy cfg' g'.cachePolicy

def FallbackAgree : FallbackTarget → FallbackTarget → Prop
  | .lastRule, .lastRule => True
  | .server name, .server name' => name = name'
  | .dual primary secondary m, .dual primary' secondary' m' =>
    primary = primary' ∧ secondary = secondary' ∧ m.includes.Perm m'.includes ∧
      m.excludes.Perm m'.excludes
  | _, _ => False

/-- Nothing that can change a cached entry or its lifetime differs. -/
structure Agree (cfg cfg' : Config) : Prop where
  servers : cfg.servers = cfg'.servers
  rules : List.Forall₂ (RuleAgree cfg cfg') cfg.rules cfg'.rules
  fallback : FallbackAgree cfg.fallback.target cfg'.fallback.target
  noip : cfg.fallback.noipAsPrimaryIp = cfg'.fallback.noipAsPrimaryIp
  minTtl : cfg.cacheMinTtl = cfg'.cacheMinTtl
  maxTtl : cfg.cacheMaxTtl = cfg'.cacheMaxTtl
  rulesets : cfg.rulesetSpecs = cfg'.rulesetSpecs

/-! ### What the stream shows -/

/-- Policies that are fed alike. -/
def PolicyNear (p p' : Option RuleCachePolicy) : Prop :=
  p.map (fun p => (p.skip, p.minTtl.getD 0, p.maxTtl.getD 0)) =
    p'.map (fun p => (p.skip, p.minTtl.getD 0, p.maxTtl.getD 0))

structure RuleNear (g g' : RuleSpec) : Prop where
  server : g.server = g'.server
  matcher : g.matcher = g'.matcher
  filters : List.Forall₂ FilterAgree g.filters g'.filters
  policy : PolicyNear g.cachePolicy g'.cachePolicy

/-- The primary, the secondary and the first tag, run together. -/
def runTogether (primary secondary : Str) (m : AnswerIpMatcher) : Str :=
  primary ++ secondary ++ (sortTags m.includes).headD []

def FallbackNear : FallbackTarget → FallbackTarget → Prop
  | .lastRule, .lastRule => True
  | .server name, .server name' => name = name'
  | .dual primary secondary m, .dual primary' secondary' m' =>
    runTogether primary secondary m = runTogether primary' secondary' m' ∧
      (m.includes = [] ↔ m'.includes = []) ∧
      (sortTags m.includes).tail = (sortTags m'.includes).tail ∧ m.excludes.Perm m'.excludes
  | _, _ => False

/-- Specifications that are fed alike: their paths may differ when one file has metadata and the other
has not. -/
structure SpecNear (metadata metadata' : Metadata) (s s' : RuleSetSpec) : Prop where
  tag : s.tag = s'.tag
  format : s.format = s'.format
  behavior : s.behavior = s'.behavior
  path : strBytes s.path ++ metadataBytes (metadata s) = strBytes s'.path ++ metadataBytes (metadata' s')

/-- The streams show no difference. -/
structure Near (metadata metadata' : Metadata) (cfg cfg' : Config) : Prop where
  servers : cfg.servers = cfg'.servers
  rules : List.Forall₂ RuleNear cfg.rules cfg'.rules
  fallback : FallbackNear cfg.fallback.target cfg'.fallback.target
  noip : cfg.fallback.noipAsPrimaryIp = cfg'.fallback.noipAsPrimaryIp
  minTtl : cfg.cacheMinTtl = cfg'.cacheMinTtl
  maxTtl : cfg.cacheMaxTtl = cfg'.cacheMaxTtl
  rulesets : List.Forall₂ (SpecNear metadata metadata') cfg.rulesetSpecs cfg'.rulesetSpecs

/-! ### Sorted tags -/

theorem sortTags_perm (tags : List Str) : (sortTags tags).Perm tags := List.perm_insertionSort _ tags

variable {tags : List Str}

theorem sortTags_eq_iff {tags' : List Str} : sortTags tags = sortTags tags' ↔ tags.Perm tags' := by
  constructor
  · intro h
    exact (sortTags_perm tags).symm.trans (h ▸ sortTags_perm tags')
  · intro h
    have hperm : (sortTags tags).Perm (sortTags tags') :=
      ((sortTags_perm tags).trans h).trans (sortTags_perm tags').symm
    have hsorted : ∀ tags : List Str, (sortTags tags).Pairwise (· ≤ ·) :=
      fun tags => List.pairwise_insertionSort _ tags
    exact hperm.eq_of_pairwise (fun _ _ _ _ hab hba => le_antisymm hab hba) (hsorted _) (hsorted _)

theorem mem_sortTags {t : Str} : t ∈ sortTags tags ↔ t ∈ tags :=
  (sortTags_perm tags).mem_iff

theorem tagRuns_eq_iff {tags' : List Str} : tagRuns tags = tagRuns tags' ↔ tags.Perm tags' := by
  rw [tagRuns, tagRuns, (List.map_injective_iff.mpr strBytes_injective).eq_iff, sortTags_eq_iff]

/-! ### Reading runs -/

/-- A run that begins with a byte above the RCODEs: that of a tag. -/
def PlainRun (r : Run) : Prop := ∃ b rest, r = b :: rest ∧ 16 ≤ b.toNat

/-- An empty run that is not the last one. -/
def Dangling (rs : List Run) : Prop := ∃ a b c, rs = a ++ [] :: b :: c

section Runs

variable {xs ys rs rs' more : List Run} {r : Run}

theorem PlainRun.ne_nil (h : PlainRun r) : r ≠ [] := by
  obtain ⟨b, rest, rfl, -⟩ := h
  simp

theorem Dangling.append (h : Dangling rs) (xs : List Run) : Dangling (xs ++ rs) := by
  obtain ⟨a, b, c, rfl⟩ := h
  exact ⟨xs ++ a, b, c, by simp⟩

theorem Dangling.cons (h : Dangling rs) (x : Run) : Dangling (x :: rs) := h.append [x]

theorem dangling_empty (b : Run) (c : List Run) : Dangling ([] :: b :: c) := ⟨[], b, c, rfl⟩

theorem until_empty_inj (hxs : ∀ x ∈ xs, PlainRun x) (hys : ∀ y ∈ ys, PlainRun y)
    (h : xs ++ [] :: rs = ys ++ [] :: rs') : xs = ys ∧ rs = rs' := by
  have hfree : ∀ {zs : List Run}, (∀ z ∈ zs, PlainRun z) → ∀ z ∈ zs, z ∉ [([] : Run)] :=
    fun hzs z hz hmem => (hzs z hz).ne_nil (List.mem_singleton.mp hmem)
  have heq := apart_of_free (hfree hxs) (hfree hys) _ _ (starts_cons (by simp)) (starts_cons (by simp)) h
  subst heq
  exact ⟨rfl, (List.cons.inj (List.append_cancel_left h)).2⟩

theorem not_dangling (hxs : ∀ x ∈ xs, PlainRun x) : ¬ Dangling (xs ++ [[]]) := by
  rintro ⟨a, b, c, h⟩
  have hmem : ([] : Run) ∈ (xs ++ [[]]).dropLast := by
    rw [h, List.dropLast_append_of_ne_nil (by simp)]
    simp
  rw [List.dropLast_concat] at hmem
  exact (hxs [] hmem).ne_nil rfl

theorem policyBytes_not_plain (p : Option RuleCachePolicy) : ¬ PlainRun (policyBytes p) := by
  rintro ⟨b, rest, h, hb⟩
  cases p with
  | none => simp [policyBytes] at h
  | some p =>
    simp only [policyBytes, List.cons_append, List.nil_append, List.cons.injEq] at h
    rw [← h.1] at hb
    split_ifs at hb <;> simp at hb

end Runs

/-! ### Filters -/

/-- What reading a filter needs. -/
structure FilterOk (f : RuleFilterSpec) : Prop where
  includes : ∀ r ∈ tagRuns f.answerIp.includes, PlainRun r
  excludes : ∀ r ∈ tagRuns f.answerIp.excludes, PlainRun r
  rcodes : ∀ r ∈ f.responseRcode, r.toNat ≤ 15

theorem u16Bytes_injective :
    Function.Injective (fun ts : List UInt16 => ts.flatMap (fun t => encLe 2 t.toNat)) := by
  apply flatMap_injective (by simp [encLe])
  intro t u r r' h
  obtain ⟨hhead, htail⟩ := List.append_inj h (by simp)
  exact ⟨UInt16.toNat_inj.mp (encLe_injective t.toNat_lt u.toNat_lt hhead), htail⟩

theorem u32Bytes_injective : Function.Injective (fun t : UInt32 => encLe 4 t.toNat) := by
  intro t u h
  exact UInt32.toNat_inj.mp (encLe_injective t.toNat_lt u.toNat_lt h)

theorem actionText_injective : Function.Injective actionText := by
  rintro (_ | _ | name) (_ | _ | name') h
  case forward.forward => rw [List.append_cancel_left h]
  all_goals first | rfl | simp [actionText, lit] at h

variable {rs : List Run}

theorem filterRuns_inj {f f' : RuleFilterSpec} {rs' : List Run} (hf : FilterOk f) (hf' : FilterOk f')
    (h : filterRuns f ++ rs = filterRuns f' ++ rs') : FilterAgree f f' ∧ rs = rs' := by
  simp only [filterRuns, List.append_assoc, List.cons_append, List.nil_append] at h
  obtain ⟨hincludes, h⟩ := until_empty_inj hf.includes hf'.includes h
  obtain ⟨hexcludes, h⟩ := until_empty_inj hf.excludes hf'.excludes h
  simp only [List.cons.injEq] at h
  obtain ⟨htype, hrcode, hqclass, haction, hrest⟩ := h
  exact ⟨⟨tagRuns_eq_iff.mp hincludes, tagRuns_eq_iff.mp hexcludes, u16Bytes_injective htype, hrcode,
    u16Bytes_injective hqclass, actionText_injective (strBytes_injective haction)⟩, hrest⟩

/-- What follows the rule cannot be read as the rest of a filter without tags. -/
def NoFilter (rs : List Run) : Prop :=
  ∀ types rcodes qclasses action more, rs = types :: rcodes :: qclasses :: action :: more →
    (∀ b ∈ rcodes, b.toNat ≤ 15) → ¬ Dangling more

variable {policy : Option RuleCachePolicy}

/-- The end of the filters of a rule is not the beginning of a filter. -/
theorem end_ne_filter {f : RuleFilterSpec} (hf : FilterOk f) {more : List Run} (hrs : NoFilter rs)
    (hmore : Dangling more) : [] :: policyBytes policy :: rs ≠ filterRuns f ++ more := by
  intro h
  simp only [filterRuns, List.append_assoc, List.cons_append, List.nil_append] at h
  obtain ⟨-, h⟩ := @until_empty_inj [] _ _ _ (by simp) hf.includes h
  cases hex : tagRuns f.answerIp.excludes with
  | nil =>
    rw [hex] at h
    simp only [List.nil_append, List.cons.injEq] at h
    exact hrs _ _ _ _ _ h.2 hf.rcodes hmore
  | cons e es =>
    rw [hex] at h
    have hplain := hf.excludes e (by simp [hex])
    rw [← (List.cons.inj h).1] at hplain
    exact policyBytes_not_plain policy hplain

theorem filters_inj {fs fs' : List RuleFilterSpec} (hfs : ∀ f ∈ fs, FilterOk f) (hfs' : ∀ f ∈ fs', FilterOk f)
    {policy' : Option RuleCachePolicy} {rs' : List Run} (hrs : NoFilter rs) (hrs' : NoFilter rs')
    (h : fs.flatMap filterRuns ++ [] :: policyBytes policy :: rs =
      fs'.flatMap filterRuns ++ [] :: policyBytes policy' :: rs') :
    List.Forall₂ FilterAgree fs fs' ∧ policyBytes policy = policyBytes policy' ∧ rs = rs' := by
  obtain ⟨hfilters, hend⟩ := flatMap_inj (fun f hf f' hf' _ _ => filterRuns_inj (hfs f hf) (hfs' f' hf'))
    (fun f' hf' _ => end_ne_filter (hfs' f' hf') hrs ((dangling_empty _ _).append _))
    (fun f hf _ => end_ne_filter (hfs f hf) hrs' ((dangling_empty _ _).append _)) h
  simp only [List.cons.injEq, true_and] at hend
  exact ⟨hfilters, hend⟩

/-! ### Finals and rules -/

/-- What reading a final needs. -/
def FallbackOk (t : FallbackTarget) : Prop :=
  ∀ primary secondary m, t = .dual primary secondary m →
    (∀ r ∈ tagRuns m.includes, PlainRun r) ∧ ∀ r ∈ tagRuns m.excludes, PlainRun r

section

variable {special : Char → Bool} {includes excludes : List Run} {first : Run}

theorem matchersText_head (ms : List RuleMatcher) :
    ∃ rest, strBytes (listText (matcherText special) ms) = 91 :: rest := by
  refine ⟨strBytes (commaSep (ms.map (matcherText special)) ++ [']']), ?_⟩
  rfl

theorem fallbackRuns_ne_nil (t : FallbackTarget) : fallbackRuns t ≠ [] := by
  cases t with
  | lastRule | server name => simp [fallbackRuns]
  | dual primary secondary m =>
    rw [fallbackRuns]
    cases tagRuns m.includes <;> simp [dualRuns]

theorem dualRuns_noFilter (hincludes : ∀ r ∈ includes, PlainRun r) (hexcludes : ∀ r ∈ excludes, PlainRun r) :
    NoFilter (dualRuns first includes excludes) := by
  intro types rcodes qclasses action more h hrcodes hmore
  match includes with
  | [] =>
    have htail := (List.cons.inj h).2
    have hdangling := ((hmore.cons action).cons qclasses).cons rcodes
    exact not_dangling hexcludes (htail ▸ hdangling)
  | [t] =>
    have htail := (List.cons.inj (List.cons.inj h).2).2
    exact not_dangling hexcludes (htail ▸ (hmore.cons action).cons qclasses)
  | t :: t' :: ts =>
    have hhead := (List.cons.inj (List.cons.inj h).2).1
    obtain ⟨b, rest, rfl, hb⟩ := hincludes t' (by simp)
    have hle := hrcodes b (by rw [← hhead]; simp)
    omega

variable {t : FallbackTarget}

theorem rules_noFilter {rules : List RuleSpec} (ht : FallbackOk t) :
    NoFilter (rules.flatMap (ruleRuns special) ++ fallbackRuns t) := by
  cases rules with
  | cons g rules =>
    intro types rcodes qclasses action more h hrcodes _
    simp only [ruleRuns, List.flatMap_cons, List.cons_append, List.cons.injEq] at h
    obtain ⟨rest, hrest⟩ := @matchersText_head special g.matcher
    have hle := hrcodes 91 (by rw [← h.2.1, hrest]; simp)
    exact absurd hle (by decide)
  | nil =>
    cases t with
    | lastRule | server name =>
      intro types rcodes qclasses action more h
      simp [fallbackRuns] at h
    | dual primary secondary m =>
      obtain ⟨hincludes, hexcludes⟩ := ht primary secondary m rfl
      exact dualRuns_noFilter hincludes hexcludes

variable {g : RuleSpec} {rs : List Run}

/-- A rule is not read as a primary and a secondary. -/
theorem rule_ne_dualRuns (hincludes : ∀ r ∈ includes, PlainRun r) (hexcludes : ∀ r ∈ excludes, PlainRun r)
    (hg : ∀ f ∈ g.filters, FilterOk f) (hrs : rs ≠ []) :
    ruleRuns special g ++ rs ≠ dualRuns first includes excludes := by
  intro h
  obtain ⟨rest, hmatchers⟩ := @matchersText_head special g.matcher
  simp only [ruleRuns, hmatchers, List.cons_append, List.append_assoc, List.nil_append] at h
  rcases includes with _ | ⟨t, _ | ⟨t', ts⟩⟩
  · have htail := (List.cons.inj h).2
    have hdangling := ((dangling_empty (policyBytes g.cachePolicy) rs).append
      (g.filters.flatMap filterRuns)).cons (91 :: rest)
    exact not_dangling hexcludes (htail ▸ hdangling)
  · have hhead := (List.cons.inj (List.cons.inj h).2).1
    simp at hhead
  · have hts : ∀ r ∈ ts, PlainRun r := fun r hr => hincludes r (by simp [hr])
    have htail := (List.cons.inj (List.cons.inj h).2).2
    cases hfilters : g.filters with
    | nil =>
      rw [hfilters] at htail
      obtain ⟨-, htail⟩ := @until_empty_inj [] _ _ _ (by simp) hts htail
      cases excludes with
      | nil => exact hrs (List.cons.inj htail).2
      | cons e es =>
        have hplain := hexcludes e (by simp)
        rw [← (List.cons.inj htail).1] at hplain
        exact policyBytes_not_plain _ hplain
    | cons f fs =>
      rw [hfilters] at htail
      simp only [List.flatMap_cons, filterRuns, List.append_assoc, List.cons_append] at htail
      obtain ⟨-, htail⟩ := until_empty_inj (hg f (by simp [hfilters])).includes hts htail
      exact not_dangling hexcludes (htail ▸ (dangling_empty _ _).append _)

theorem rule_ne_fallbackRuns (ht : FallbackOk t) (hg : ∀ f ∈ g.filters, FilterOk f) (hrs : rs ≠ []) :
    ruleRuns special g ++ rs ≠ fallbackRuns t := by
  cases t with
  | lastRule | server name => simp [ruleRuns, fallbackRuns]
  | dual primary secondary m =>
    obtain ⟨hincludes, hexcludes⟩ := ht primary secondary m rfl
    exact rule_ne_dualRuns hincludes hexcludes hg hrs

theorem dualRuns_inj {includes' excludes' : List Run} {first' : Run}
    (hincludes : ∀ r ∈ includes, PlainRun r) (hexcludes : ∀ r ∈ excludes, PlainRun r)
    (hincludes' : ∀ r ∈ includes', PlainRun r) (hexcludes' : ∀ r ∈ excludes', PlainRun r)
    (h : dualRuns first includes excludes = dualRuns first' includes' excludes') :
    first ++ includes.headD [] = first' ++ includes'.headD [] ∧ (includes = [] ↔ includes' = []) ∧
      includes.tail = includes'.tail ∧ excludes = excludes' := by
  have hend : ∀ {xs ys zs : List Run}, (∀ x ∈ xs, PlainRun x) → xs ++ [[]] ≠ ys ++ [] :: (zs ++ [[]]) := by
    intro xs ys zs hxs h
    obtain ⟨b, c, hbc⟩ := List.exists_cons_of_ne_nil (show zs ++ [[]] ≠ [] by simp)
    rw [hbc] at h
    exact not_dangling hxs (h ▸ (dangling_empty b c).append ys)
  cases includes with
  | nil =>
    cases includes' with
    | nil =>
      simp only [dualRuns, List.cons.injEq, List.append_cancel_right_eq] at h
      simp [h]
    | cons t' ts' => exact absurd (List.cons.inj h).2 (hend hexcludes)
  | cons t ts =>
    cases includes' with
    | nil => exact absurd (List.cons.inj h).2.symm (hend hexcludes')
    | cons t' ts' =>
      have htail := (List.cons.inj h).2
      obtain ⟨hts, hex⟩ := until_empty_inj (fun r hr => hincludes r (List.mem_cons_of_mem _ hr))
        (fun r hr => hincludes' r (List.mem_cons_of_mem _ hr)) htail
      simpa [hts, List.append_cancel_right hex] using (List.cons.inj h).1

theorem tagRuns_headD (tags : List Str) :
    (tagRuns tags).headD [] = strBytes ((sortTags tags).headD []) := by
  rw [tagRuns]
  cases sortTags tags <;> rfl

theorem tagRuns_tail (tags : List Str) : (tagRuns tags).tail = (sortTags tags).tail.map strBytes :=
  List.map_tail.symm

variable {tags : List Str}

theorem sortTags_eq_nil : sortTags tags = [] ↔ tags = [] := by
  constructor
  · intro h
    exact List.nil_perm.mp (h ▸ sortTags_perm tags)
  · rintro rfl
    rfl

theorem tagRuns_eq_nil : tagRuns tags = [] ↔ tags = [] := by
  rw [tagRuns, List.map_eq_nil_iff, sortTags_eq_nil]

variable {t' : FallbackTarget}

theorem fallbackRuns_inj (ht : FallbackOk t) (ht' : FallbackOk t') (h : fallbackRuns t = fallbackRuns t') :
    FallbackNear t t' := by
  have hdual : ∀ {r first : Run} {includes excludes : List Run},
      [r] ≠ dualRuns first includes excludes := by
    intro r first includes excludes h
    cases includes <;> simp [dualRuns] at h
  have hlast : ∀ {name : Str}, fallbackRuns .lastRule ≠ fallbackRuns (.server name) := by
    intro name h
    have htext := strBytes_injective (List.cons.inj h).1
    simp [lit] at htext
  cases t with
  | lastRule =>
    cases t' with
    | lastRule => trivial
    | server name => exact absurd h hlast
    | dual primary secondary m => exact absurd h hdual
  | server name =>
    cases t' with
    | lastRule => exact absurd h.symm hlast
    | server name' => exact List.append_cancel_left (strBytes_injective (List.cons.inj h).1)
    | dual primary secondary m => exact absurd h hdual
  | dual primary secondary m =>
    cases t' with
    | lastRule | server name => exact absurd h.symm hdual
    | dual primary' secondary' m' =>
      obtain ⟨hin, hex⟩ := ht primary secondary m rfl
      obtain ⟨hin', hex'⟩ := ht' primary' secondary' m' rfl
      obtain ⟨hfirst, hnil, htail, hexcludes⟩ := dualRuns_inj hin hex hin' hex' h
      refine ⟨?_, by rwa [tagRuns_eq_nil, tagRuns_eq_nil] at hnil, ?_, tagRuns_eq_iff.mp hexcludes⟩
      · rw [tagRuns_headD, tagRuns_headD, ← strBytes_append, ← strBytes_append] at hfirst
        have htext := strBytes_injective hfirst
        simp only [List.append_assoc, List.append_cancel_left_eq] at htext
        simpa [runTogether] using htext
      · rw [tagRuns_tail, tagRuns_tail] at htail
        exact List.map_injective_iff.mpr strBytes_injective htail

theorem policyBytes_eq_iff {p p' : Option RuleCachePolicy} :
    policyBytes p = policyBytes p' ↔ PolicyNear p p' := by
  unfold PolicyNear
  cases p with
  | none => cases p' <;> simp [policyBytes]
  | some p =>
    cases p' with
    | none => simp [policyBytes]
    | some p' =>
      simp only [policyBytes, Option.map_some, Option.some.injEq, Prod.mk.injEq, List.cons_append,
        List.nil_append, List.cons.injEq]
      constructor
      · rintro ⟨hskip, htail⟩
        obtain ⟨hmin, hmax⟩ := List.append_inj htail (by simp)
        refine ⟨?_, u32Bytes_injective hmin, u32Bytes_injective hmax⟩
        revert hskip
        cases p.skip <;> cases p'.skip <;> simp
      · rintro ⟨hskip, hmin, hmax⟩
        rw [hskip, hmin, hmax]
        exact ⟨rfl, rfl⟩

theorem rules_inj {rules rules' : List RuleSpec} (hrules : ∀ g ∈ rules, ∀ f ∈ g.filters, FilterOk f)
    (hrules' : ∀ g ∈ rules', ∀ f ∈ g.filters, FilterOk f) (ht : FallbackOk t) (ht' : FallbackOk t')
    (h : rules.flatMap (ruleRuns special) ++ fallbackRuns t =
      rules'.flatMap (ruleRuns special) ++ fallbackRuns t') :
    List.Forall₂ RuleNear rules rules' ∧ FallbackNear t t' := by
  have hne : ∀ (rules : List RuleSpec) (t : FallbackTarget),
      rules.flatMap (ruleRuns special) ++ fallbackRuns t ≠ [] := by
    intro rules t hnil
    exact fallbackRuns_ne_nil t (List.append_eq_nil_iff.mp hnil).2
  refine And.imp_right (fallbackRuns_inj ht ht') (flatMap_inj ?_ ?_ ?_ h)
  · intro g hg g' hg' zs zs' h
    simp only [ruleRuns, List.append_assoc, List.cons_append, List.nil_append, List.cons.injEq] at h
    obtain ⟨hserver, hmatcher, h⟩ := h
    obtain ⟨hfilters, hpolicy, hrest⟩ := filters_inj (hrules g hg) (hrules' g' hg') (rules_noFilter ht)
      (rules_noFilter ht') h
    exact ⟨⟨strBytes_injective hserver, matchersText_injective (strBytes_injective hmatcher), hfilters,
      policyBytes_eq_iff.mp hpolicy⟩, hrest⟩
  · intro g' hg' zs
    exact (rule_ne_fallbackRuns ht (hrules' g' hg') (hne zs t')).symm
  · intro g hg zs
    exact (rule_ne_fallbackRuns ht' (hrules g hg) (hne zs t)).symm

/-! ### Servers and ruleset specifications -/

theorem servers_inj {servers servers' : List (Str × ServerSpec)} {rs' : List Run} (hs : ∀ s ∈ servers, s.1 ≠ [])
    (hs' : ∀ s ∈ servers', s.1 ≠ [])
    (h : servers.flatMap (serverRuns special) ++ [] :: rs = servers'.flatMap (serverRuns special) ++ [] :: rs') :
    servers = servers' ∧ rs = rs' := by
  have hend : ∀ {s : Str × ServerSpec} {rs more : List Run}, s.1 ≠ [] →
      [] :: rs ≠ serverRuns special s ++ more :=
    fun hs h => hs (strBytes_eq_nil.mp (List.cons.inj h).1.symm)
  obtain ⟨hservers, hrest⟩ := @flatMap_inj _ _ (serverRuns special) Eq _ _ _ _ (by
    intro s _ s' _ zs zs' h
    simp only [serverRuns, List.cons_append, List.nil_append, List.cons.injEq] at h
    exact ⟨Prod.ext (strBytes_injective h.1) (serverText_injective (strBytes_injective h.2.1)), h.2.2⟩)
    (fun s hmem _ => hend (hs' s hmem)) (fun s hmem _ => hend (hs s hmem)) h
  exact ⟨by simpa using hservers, (List.cons.inj hrest).2⟩

theorem RuleSetFormat.toByte_injective : Function.Injective RuleSetFormat.toByte := by
  rintro (_ | _) (_ | _) h
  all_goals first | rfl | exact absurd h (by decide)

theorem RuleSetBehavior.toByte_injective : Function.Injective RuleSetBehavior.toByte := by
  rintro (_ | _) (_ | _) h
  all_goals first | rfl | exact absurd h (by decide)

theorem RuleSetFormat.toByte_ne_slash (f : RuleSetFormat) : f.toByte ≠ 47 := by cases f <;> decide

theorem RuleSetBehavior.toByte_ne_slash (b : RuleSetBehavior) : b.toByte ≠ 47 := by cases b <;> decide

variable {metadata metadata' : Metadata}

theorem rulesetRun_inj {s s' : RuleSetSpec} (hs : s.Parsed) (hs' : s'.Parsed)
    (h : rulesetRun metadata s = rulesetRun metadata' s') : SpecNear metadata metadata' s s' := by
  -- the slash of the path is the first one of the run
  have hfree : ∀ {s : RuleSetSpec}, s.Parsed →
      ∀ b ∈ strBytes s.tag ++ [s.format.toByte, s.behavior.toByte], b ∉ [(47 : UInt8)] := by
    intro s hs b hb hmem
    rw [List.mem_singleton.mp hmem] at hb
    rcases List.mem_append.mp hb with hb | hb
    · rcases mem_strBytes hb with ⟨c, hc, hval⟩ | hval
      · have hslash : c = '/' := Char.toNat_inj.mp hval.symm
        exact hs.slash (hslash ▸ hc)
      · exact absurd hval (by decide)
    · simp only [List.mem_cons, List.not_mem_nil, or_false] at hb
      rcases hb with hb | hb
      · exact s.format.toByte_ne_slash hb.symm
      · exact s.behavior.toByte_ne_slash hb.symm
  have hstarts : ∀ {s : RuleSetSpec} (r : Run), s.Parsed → Starts [47] (strBytes s.path ++ r) := by
    intro s r hs
    obtain ⟨rest, hpath⟩ := hs.path
    rw [hpath]
    exact ⟨47, by simp, strBytes rest ++ r, rfl⟩
  simp only [rulesetRun, List.append_assoc _ (strBytes _) (metadataBytes _)] at h
  have hhead := apart_of_free (hfree hs) (hfree hs') _ _ (hstarts _ hs) (hstarts _ hs') h
  rw [hhead] at h
  obtain ⟨htag, hbytes⟩ := List.append_inj' hhead rfl
  simp only [List.cons.injEq, and_true] at hbytes
  exact ⟨strBytes_injective htag, RuleSetFormat.toByte_injective hbytes.1,
    RuleSetBehavior.toByte_injective hbytes.2, List.append_cancel_left h⟩

theorem rulesets_inj {specs specs' : List RuleSetSpec} (hs : ∀ s ∈ specs, s.Parsed)
    (hs' : ∀ s ∈ specs', s.Parsed)
    (h : specs.map (rulesetRun metadata) = specs'.map (rulesetRun metadata')) :
    List.Forall₂ (SpecNear metadata metadata') specs specs' := by
  rw [← List.forall₂_eq_eq_eq, List.forall₂_map_left_iff, List.forall₂_map_right_iff] at h
  induction h with
  | nil => exact .nil
  | cons hrun _ ih =>
    refine .cons (rulesetRun_inj (hs _ List.mem_cons_self) (hs' _ List.mem_cons_self) hrun) ?_
    exact ih (fun s hmem => hs s (List.mem_cons_of_mem _ hmem))
      (fun s hmem => hs' s (List.mem_cons_of_mem _ hmem))

theorem rulesetRun_length (s : RuleSetSpec) : (rulesetRun metadata s).length ≠ 1 := by
  simp only [rulesetRun, List.length_append, List.length_cons, List.length_nil]
  omega

/-! ### Whole configurations -/

variable {cfg : Config}

theorem Config.Parsed.tagRuns_plain (h : cfg.Parsed) (hplain : cfg.PlainTags)
    (hmem : ∀ t ∈ tags, t ∈ neededRulesetIpcidrTags cfg) : ∀ r ∈ tagRuns tags, PlainRun r := by
  intro r hr
  obtain ⟨t, ht, rfl⟩ := List.mem_map.mp hr
  have hneeded := hmem t (mem_sortTags.mp ht)
  obtain ⟨c, s, rfl⟩ := List.exists_cons_of_ne_nil (h.tags t hneeded)
  exact strBytes_head s (hplain _ hneeded c (by simp))

theorem Config.Parsed.filterOk (h : cfg.Parsed) (hplain : cfg.PlainTags) :
    ∀ g ∈ cfg.rules, ∀ f ∈ g.filters, FilterOk f := by
  intro g hg f hf
  have hmem : ∀ t ∈ f.answerIp.includes ++ f.answerIp.excludes, t ∈ neededRulesetIpcidrTags cfg := by
    intro t ht
    apply List.mem_append_right
    exact List.mem_flatMap.mpr ⟨g, hg, List.mem_flatMap.mpr ⟨f, hf, ht⟩⟩
  exact ⟨h.tagRuns_plain hplain fun t ht => hmem t (List.mem_append_left _ ht),
    h.tagRuns_plain hplain fun t ht => hmem t (List.mem_append_right _ ht), h.rcodes g hg f hf⟩

theorem Config.Parsed.fallbackOk (h : cfg.Parsed) (hplain : cfg.PlainTags) :
    FallbackOk cfg.fallback.target := by
  intro primary secondary m hm
  have hmem : ∀ t ∈ m.includes ++ m.excludes, t ∈ neededRulesetIpcidrTags cfg := by
    intro t ht
    apply List.mem_append_left
    rw [hm]
    exact ht
  exact ⟨h.tagRuns_plain hplain fun t ht => hmem t (List.mem_append_left _ ht),
    h.tagRuns_plain hplain fun t ht => hmem t (List.mem_append_right _ ht)⟩

/-- What equal streams show. -/
theorem near_of_tokens_eq {cfg' : Config} (h : cfg.Parsed) (h' : cfg'.Parsed) (hplain : cfg.PlainTags)
    (hplain' : cfg'.PlainTags)
    (heq : fingerprintTokens special metadata cfg = fingerprintTokens special metadata' cfg') :
    Near metadata metadata' cfg cfg' := by
  rw [fingerprintTokens_eq, fingerprintTokens_eq] at heq
  have hruns := frames_injective heq
  -- the run of the no-IP flag is the last of one byte
  have hshort : ∀ {cfg : Config} {metadata : Metadata}, ∀ r ∈
      (encLe 4 cfg.cacheMinTtl.toNat ++ encLe 4 cfg.cacheMaxTtl.toNat) ::
        cfg.rulesetSpecs.map (rulesetRun metadata), ¬ r.length = 1 := by
    intro cfg metadata r hr
    rcases List.mem_cons.mp hr with rfl | hr
    · simp
    · obtain ⟨s, -, rfl⟩ := List.mem_map.mp hr
      exact rulesetRun_length s
  obtain ⟨hfront, hnoip, htail⟩ := last_marked_inj (p := fun r : Run => r.length = 1) rfl rfl
    hshort hshort hruns
  obtain ⟨hservers, hrest⟩ := servers_inj h.servers h'.servers hfront
  obtain ⟨hrules, hfallback⟩ := rules_inj (h.filterOk hplain) (h'.filterOk hplain')
    (h.fallbackOk hplain) (h'.fallbackOk hplain') hrest
  obtain ⟨httl, hspecs⟩ := List.cons.inj htail
  obtain ⟨hmin, hmax⟩ := List.append_inj httl (by simp)
  refine ⟨hservers, hrules, hfallback, ?_, u32Bytes_injective hmin, u32Bytes_injective hmax, ?_⟩
  · revert hnoip
    cases cfg.fallback.noipAsPrimaryIp <;> cases cfg'.fallback.noipAsPrimaryIp <;> simp
  · exact rulesets_inj h.rulesets h'.rulesets hspecs

theorem flatMap_eq_of_forall₂ {α β : Type} {R : α → α → Prop} {f : α → List β} {xs ys : List α}
    (hf : ∀ x y, R x y → f x = f y) (h : List.Forall₂ R xs ys) : xs.flatMap f = ys.flatMap f := by
  induction h with
  | nil => rfl
  | cons hxy _ ih => rw [List.flatMap_cons, List.flatMap_cons, hf _ _ hxy, ih]

theorem FilterAgree.runs_eq {f f' : RuleFilterSpec} (h : FilterAgree f f') :
    filterRuns f = filterRuns f' := by
  rw [filterRuns, filterRuns, tagRuns_eq_iff.mpr h.includes, tagRuns_eq_iff.mpr h.excludes,
    h.responseType, h.responseRcode, h.responseQclass, h.action]

theorem RuleNear.runs_eq {g' : RuleSpec} (h : RuleNear g g') : ruleRuns special g = ruleRuns special g' := by
  rw [ruleRuns, ruleRuns, h.server, h.matcher,
    flatMap_eq_of_forall₂ (fun _ _ hf => hf.runs_eq) h.filters, policyBytes_eq_iff.mpr h.policy]

theorem FallbackNear.runs_eq (h : FallbackNear t t') : fallbackRuns t = fallbackRuns t' := by
  match t, t' with
  | .lastRule, .lastRule => rfl
  | .server name, .server name' => rw [show name = name' from h]
  | .dual primary secondary m, .dual primary' secondary' m' =>
    obtain ⟨htogether, hnil, htail, hexcludes⟩ := h
    have hbytes := congrArg strBytes htogether
    simp only [runTogether, strBytes_append, ← tagRuns_headD] at hbytes
    have htail := congrArg (List.map strBytes) htail
    rw [← tagRuns_tail, ← tagRuns_tail] at htail
    rw [← tagRuns_eq_nil, ← @tagRuns_eq_nil m'.includes] at hnil
    simp only [fallbackRuns, tagRuns_eq_iff.mpr hexcludes, strBytes_append]
    generalize tagRuns m.includes = includes at *
    generalize tagRuns m'.includes = includes' at *
    cases includes with
    | nil =>
      obtain rfl := hnil.mp rfl
      simpa [dualRuns] using hbytes
    | cons r rs =>
      cases includes' with
      | nil => exact absurd (hnil.mpr rfl) (by simp)
      | cons r' rs' =>
        simp only [List.tail_cons] at htail
        simpa [dualRuns, htail] using hbytes

theorem SpecNear.run_eq {s s' : RuleSetSpec} (h : SpecNear metadata metadata' s s') :
    rulesetRun metadata s = rulesetRun metadata' s' := by
  rw [rulesetRun, rulesetRun, List.append_assoc, List.append_assoc _ (strBytes s'.path), h.path, h.tag,
    h.format, h.behavior]

theorem Near.tokens_eq {cfg' : Config} (h : Near metadata metadata' cfg cfg') :
    fingerprintTokens special metadata cfg = fingerprintTokens special metadata' cfg' := by
  have hrules := flatMap_eq_of_forall₂ (fun _ _ hg => @RuleNear.runs_eq special _ _ hg) h.rules
  have hspecs : cfg.rulesetSpecs.map (rulesetRun metadata) =
      cfg'.rulesetSpecs.map (rulesetRun metadata') := by
    rw [← List.forall₂_eq_eq_eq, List.forall₂_map_left_iff, List.forall₂_map_right_iff]
    exact h.rulesets.imp (fun _ _ hs => hs.run_eq)
  rw [fingerprintTokens_eq, fingerprintTokens_eq, fingerprintRuns, fingerprintRuns, h.servers, hrules,
    h.fallback.runs_eq, h.noip, h.minTtl, h.maxTtl, hspecs]

end

/-! ### Where the stream falls short -/

/-- The finals name other servers. -/
def OtherServers (cfg cfg' : Config) : Prop :=
  ∃ primary secondary m primary' secondary' m',
    cfg.fallback.target = .dual primary secondary m ∧
    cfg'.fallback.target = .dual primary' secondary' m' ∧ ¬ (primary = primary' ∧ secondary = secondary')

/-- An override is missing on one side where the global limit is not zero. -/
def OtherLimit (cfg cfg' : Config) : Prop :=
  ∃ r ∈ cfg.rules.zip cfg'.rules, ∃ p p', r.1.cachePolicy = some p ∧ r.2.cachePolicy = some p' ∧
    ((p.minTtl ≠ p'.minTtl ∧ cfg.cacheMinTtl ≠ 0) ∨ (p.maxTtl ≠ p'.maxTtl ∧ cfg.cacheMaxTtl ≠ 0))

/-- Two specifications name other files. -/
def OtherFile (cfg cfg' : Config) : Prop :=
  ∃ s ∈ cfg.rulesetSpecs.zip cfg'.rulesetSpecs, s.1.path ≠ s.2.path

/-- The streams show no difference, but the finals, the limits or the files are others. -/
structure Confusable (metadata metadata' : Metadata) (cfg cfg' : Config) : Prop where
  near : Near metadata metadata' cfg cfg'
  other : OtherServers cfg cfg' ∨ OtherLimit cfg cfg' ∨ OtherFile cfg cfg'

section

variable {metadata metadata' : Metadata} {cfg cfg' : Config}

theorem getD_eq_iff_of_near {a b : Option UInt32} (h : a.getD 0 = b.getD 0) (limit : UInt32) :
    a.getD limit = b.getD limit ↔ ¬ (a ≠ b ∧ limit ≠ 0) := by
  cases a <;> cases b <;> simp_all [eq_comm]

theorem effectivePolicy_eq_iff {p p' : Option RuleCachePolicy} (hmin : cfg.cacheMinTtl = cfg'.cacheMinTtl)
    (hmax : cfg.cacheMaxTtl = cfg'.cacheMaxTtl) (h : PolicyNear p p') :
    effectivePolicy cfg p = effectivePolicy cfg' p' ↔ ¬ ∃ q q', p = some q ∧ p' = some q' ∧
      ((q.minTtl ≠ q'.minTtl ∧ cfg.cacheMinTtl ≠ 0) ∨ (q.maxTtl ≠ q'.maxTtl ∧ cfg.cacheMaxTtl ≠ 0)) := by
  unfold PolicyNear at h
  cases p with
  | none =>
    cases p' with
    | none => simp [effectivePolicy, DnsCache.resolvePolicy, DnsCache.new, hmin, hmax]
    | some q' => simp at h
  | some q =>
    cases p' with
    | none => simp at h
    | some q' =>
      simp only [Option.map_some, Option.some.injEq, Prod.mk.injEq] at h
      obtain ⟨hskip, hqmin, hqmax⟩ := h
      simp only [effectivePolicy, DnsCache.resolvePolicy, DnsCache.new, Option.any_some,
        Option.bind_some, ResolvedCachePolicy.mk.injEq, hskip, true_and, ← hmin, ← hmax,
        getD_eq_iff_of_near hqmin, getD_eq_iff_of_near hqmax, Option.some.injEq, exists_and_left,
        exists_eq_left', not_or]

theorem fallbackAgree_iff {t t' : FallbackTarget} (h : FallbackNear t t') :
    FallbackAgree t t' ↔ ¬ ∃ primary secondary m primary' secondary' m',
      t = .dual primary secondary m ∧ t' = .dual primary' secondary' m' ∧
        ¬ (primary = primary' ∧ secondary = secondary') := by
  match t, t' with
  | .lastRule, .lastRule => simp [FallbackAgree]
  | .server name, .server name' => simpa [FallbackAgree] using (show name = name' from h)
  | .dual primary secondary m, .dual primary' secondary' m' =>
    obtain ⟨htogether, hnil, htail, hexcludes⟩ := h
    constructor
    · rintro ⟨hp, hs, -, -⟩ ⟨_, _, _, _, _, _, heq, heq', hother⟩
      simp only [FallbackTarget.dual.injEq] at heq heq'
      exact hother ⟨by rw [← heq.1, ← heq'.1, hp], by rw [← heq.2.1, ← heq'.2.1, hs]⟩
    · intro hsame
      by_cases hps : primary = primary' ∧ secondary = secondary'
      · obtain ⟨rfl, rfl⟩ := hps
        refine ⟨rfl, rfl, sortTags_eq_iff.mp ?_, hexcludes⟩
        have hhead := List.append_cancel_left htogether
        rw [← sortTags_eq_nil, ← @sortTags_eq_nil m'.includes] at hnil
        cases hm : sortTags m.includes with
        | nil => exact (hnil.mp hm).symm
        | cons t ts =>
          cases hm' : sortTags m'.includes with
          | nil => exact absurd (hnil.mpr hm') (by simp [hm])
          | cons t' ts' =>
            rw [hm, hm'] at hhead htail
            simp only [List.headD_cons, List.tail_cons] at hhead htail
            rw [hhead, htail]
      · exact absurd ⟨primary, secondary, m, primary', secondary', m', rfl, rfl, hps⟩ hsame

theorem specs_eq_iff {specs specs' : List RuleSetSpec}
    (h : List.Forall₂ (SpecNear metadata metadata') specs specs') :
    specs = specs' ↔ ¬ ∃ s ∈ specs.zip specs', s.1.path ≠ s.2.path := by
  induction h with
  | nil => simp
  | @cons s s' specs specs' hs _ ih =>
    have hpath : s = s' ↔ s.path = s'.path := by
      constructor
      · rintro rfl
        rfl
      · intro hpath
        obtain ⟨htag, hformat, hbehavior, -⟩ := hs
        cases s
        cases s'
        simp_all only
    rw [List.cons.injEq, ih, hpath]
    simp

/-- Where nothing shows, agreement is a matter of the three places. -/
theorem Near.agree_iff (h : Near metadata metadata' cfg cfg') :
    Agree cfg cfg' ↔ ¬ (OtherServers cfg cfg' ∨ OtherLimit cfg cfg' ∨ OtherFile cfg cfg') := by
  have hrules : List.Forall₂ (RuleAgree cfg cfg') cfg.rules cfg'.rules ↔ ¬ OtherLimit cfg cfg' := by
    obtain ⟨hlen, hnear⟩ := List.forall₂_iff_zip.mp h.rules
    rw [List.forall₂_iff_zip]
    constructor
    · rintro ⟨-, hagree⟩ ⟨⟨g, g'⟩, hmem, hother⟩
      exact (effectivePolicy_eq_iff h.minTtl h.maxTtl (hnear hmem).policy).mp (hagree hmem).policy hother
    · intro hsame
      refine ⟨hlen, fun {g g'} hmem => ?_⟩
      have hn := hnear hmem
      refine ⟨hn.server, hn.matcher, hn.filters, ?_⟩
      rw [effectivePolicy_eq_iff h.minTtl h.maxTtl hn.policy]
      exact fun hother => hsame ⟨(g, g'), hmem, hother⟩
  have hfallback : FallbackAgree cfg.fallback.target cfg'.fallback.target ↔ ¬ OtherServers cfg cfg' :=
    fallbackAgree_iff h.fallback
  have hspecs : cfg.rulesetSpecs = cfg'.rulesetSpecs ↔ ¬ OtherFile cfg cfg' := specs_eq_iff h.rulesets
  rw [not_or, not_or, ← hrules, ← hfallback, ← hspecs]
  constructor
  · exact fun ha => ⟨ha.fallback, ha.rules, ha.rulesets⟩
  · exact fun ⟨hf, hr, hs⟩ => ⟨h.servers, hr, hf, h.noip, h.minTtl, h.maxTtl, hs⟩

end

/-- For parsed configurations with plain tags: a difference that matters shows in the stream, unless it is
one of the three. -/
theorem tokens_differ_iff (special : Char → Bool) (metadata metadata' : Metadata) (cfg cfg' : Config)
    (h : cfg.Parsed) (h' : cfg'.Parsed) (hplain : cfg.PlainTags) (hplain' : cfg'.PlainTags) :
    (¬ Agree cfg cfg' →
      fingerprintTokens special metadata cfg ≠ fingerprintTokens special metadata' cfg') ↔
    ¬ Confusable metadata metadata' cfg cfg' := by
  constructor
  · rintro hdiffer ⟨hnear, hother⟩
    exact hdiffer (fun hagree => hnear.agree_iff.mp hagree hother) hnear.tokens_eq
  · intro hnot hagree heq
    have hnear := near_of_tokens_eq h h' hplain hplain' heq
    apply hnot
    exact ⟨hnear, not_not.mp (fun hother => hagree (hnear.agree_iff.mpr hother))⟩

/-- Four fixed servers and a final between two of them. -/
def finalConfig (primary secondary : Str) (minTtl : UInt32) : Config where
  fallback := ⟨.dual primary secondary ⟨[['x']], []⟩, false⟩
  cacheMinTtl := minTtl
  cacheMaxTtl := 0
  servers := [(['a'], .fixed ⟨none, 0, [.a 1 60]⟩), (['a', 'b'], .fixed ⟨none, 0, [.a 2 60]⟩),
    (['b', 'c'], .fixed ⟨none, 0, [.a 3 60]⟩), (['c'], .fixed ⟨none, 0, [.a 4 60]⟩)]
  rules := []
  rulesetSpecs := [⟨['x'], .text, .ipCidr, ['/', 'x']⟩]

theorem finalConfig_parsed (primary secondary : Str) (minTtl : UInt32) :
    (finalConfig primary secondary minTtl).Parsed where
  servers := by simp [finalConfig]
  tags := by simp [finalConfig, neededRulesetIpcidrTags]
  rcodes := by simp [finalConfig]
  rulesets := by
    intro s hs
    rw [List.mem_singleton.mp hs]
    exact ⟨by simp, by simp, ['x'], rfl⟩

theorem finalConfig_plainTags (primary secondary : Str) (minTtl : UInt32) :
    (finalConfig primary secondary minTtl).PlainTags := by
  simp [Config.PlainTags, finalConfig, neededRulesetIpcidrTags]

/-- Two minimum TTLs. -/
theorem tokens_differ_iff_minTtl :
    fingerprintTokens (fun _ => false) (fun _ => none) (finalConfig ['a'] ['b', 'c'] 0) ≠
      fingerprintTokens (fun _ => false) (fun _ => some (7, 1)) (finalConfig ['a'] ['b', 'c'] 5) := by
  refine (tokens_differ_iff _ _ _ _ _ (finalConfig_parsed _ _ _) (finalConfig_parsed _ _ _)
    (finalConfig_plainTags _ _ _) (finalConfig_plainTags _ _ _)).mpr ?_ ?_
  · intro hconfusable
    exact absurd hconfusable.near.minTtl (by simp [finalConfig])
  · intro hagree
    exact absurd hagree.minTtl (by simp [finalConfig])

/-- `ab` and `c` are fed like `a` and `bc`. -/
theorem split_final_same_tokens : (finalConfig ['a', 'b'] ['c'] 0).Parsed ∧
    (finalConfig ['a'] ['b', 'c'] 0).Parsed ∧
    ¬ Agree (finalConfig ['a', 'b'] ['c'] 0) (finalConfig ['a'] ['b', 'c'] 0) ∧
    ∀ special metadata, fingerprintTokens special metadata (finalConfig ['a', 'b'] ['c'] 0) =
      fingerprintTokens special metadata (finalConfig ['a'] ['b', 'c'] 0) := by
  refine ⟨finalConfig_parsed _ _ _, finalConfig_parsed _ _ _, ?_, ?_⟩
  · intro hagree
    exact absurd hagree.fallback.1 (by simp)
  · intro special metadata
    apply Near.tokens_eq
    exact ⟨rfl, .nil, ⟨rfl, Iff.rfl, rfl, .refl _⟩, rfl, rfl, rfl, .cons ⟨rfl, rfl, rfl, rfl⟩ .nil⟩

end PathDns
