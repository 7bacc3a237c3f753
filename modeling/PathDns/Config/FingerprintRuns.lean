import PathDns.Config.Texts

/-!
# The fingerprint stream as a sequence of runs

The stream is a sequence of runs of bytes, each ended by a separator. How far the runs determine the
configuration is a matter of lists: names and tags are never empty, so an empty run ends a list of servers
or of tags, but it may also begin a filter or end the filters of a rule.
-/

namespace PathDns

open Bytes Reading RustFmt

/-! ### Bytes of texts -/

theorem strBytes_injective : Function.Injective strBytes := by
  intro s t h
  have hof : String.ofList s = String.ofList t := by
    apply String.toByteArray_inj.mp
    exact congrArg List.toByteArray h
  exact String.ofList_inj.mp hof

@[simp] theorem strBytes_append (s t : Str) : strBytes (s ++ t) = strBytes s ++ strBytes t :=
  List.flatMap_append

@[simp] theorem strBytes_eq_nil {s : Str} : strBytes s = [] ↔ s = [] := by
  constructor
  · intro h
    exact strBytes_injective h
  · rintro rfl
    rfl

theorem mem_utf8EncodeChar {c : Char} {b : UInt8} (h : b ∈ String.utf8EncodeChar c) :
    b.toNat = c.toNat ∨ 128 ≤ b.toNat := by
  have hval : c.val.toNat = c.toNat := rfl
  unfold String.utf8EncodeChar at h
  simp only at h
  split_ifs at h <;> simp only [List.mem_cons, List.not_mem_nil, or_false] at h <;>
    rcases h with rfl | rfl | rfl | rfl <;> simp only [UInt8.toNat_ofNat'] <;> omega

theorem mem_strBytes {s : Str} {b : UInt8} (h : b ∈ strBytes s) :
    (∃ c ∈ s, b.toNat = c.toNat) ∨ 128 ≤ b.toNat := by
  obtain ⟨c, hc, hb⟩ := List.mem_flatMap.mp h
  rcases mem_utf8EncodeChar hb with hb | hb
  · exact .inl ⟨c, hc, hb⟩
  · exact .inr hb

theorem strBytes_head {c : Char} (s : Str) (hc : 16 ≤ c.toNat) :
    ∃ b rest, strBytes (c :: s) = b :: rest ∧ 16 ≤ b.toNat := by
  obtain ⟨b, rest, hb⟩ : ∃ b rest, String.utf8EncodeChar c = b :: rest := by
    apply List.exists_cons_of_ne_nil
    intro hnil
    have hbytes : strBytes [c] = [] := by simp [strBytes, hnil]
    simp at hbytes
  refine ⟨b, rest ++ strBytes s, by simp [strBytes, hb], ?_⟩
  have hmem := @mem_utf8EncodeChar c b (by simp [hb])
  omega

/-! ### Runs -/

abbrev Run := List UInt8

/-- The stream of a sequence of runs. -/
def frames : List Run → List Token := framed .byte .sep

theorem frames_injective : Function.Injective frames :=
  framed_injective (fun _ _ h => Token.byte.inj h) (by simp)

@[simp] theorem frames_nil : frames [] = [] := by
  rw [frames, framed, List.flatMap_nil]

theorem frames_append (rs rs' : List Run) : frames (rs ++ rs') = frames rs ++ frames rs' :=
  List.flatMap_append

theorem frames_cons (r : Run) (rs : List Run) : frames (r :: rs) = feed r ++ .sep :: frames rs := by
  simp [frames, framed, feed]

def tagRuns (tags : List Str) : List Run := (sortTags tags).map strBytes

def actionText : RuleFilterActionSpec → Str
  | .accept => lit "accept"
  | .drop => lit "drop"
  | .forward name => lit "forward" ++ name

def filterRuns (f : RuleFilterSpec) : List Run :=
  tagRuns f.answerIp.includes ++ [] :: (tagRuns f.answerIp.excludes ++ [] ::
    [f.responseType.flatMap (fun t => encLe 2 t.toNat), f.responseRcode,
      f.responseQclass.flatMap (fun c => encLe 2 c.toNat), strBytes (actionText f.action)])

def ruleRuns (special : Char → Bool) (g : RuleSpec) : List Run :=
  strBytes g.server :: strBytes (listText (matcherText special) g.matcher) ::
    (g.filters.flatMap filterRuns ++ [[], policyBytes g.cachePolicy])

/-- The runs of a primary and a secondary: the first tag shares its run with them. -/
def dualRuns (first : Run) : List Run → List Run → List Run
  | [], excludes => first :: (excludes ++ [[]])
  | t :: ts, excludes => (first ++ t) :: (ts ++ [] :: (excludes ++ [[]]))

def fallbackRuns : FallbackTarget → List Run
  | .lastRule => [strBytes (lit "last-rule")]
  | .server name => [strBytes (lit "server" ++ name)]
  | .dual primary secondary answerIp =>
    dualRuns (strBytes (lit "none" ++ primary ++ secondary)) (tagRuns answerIp.includes)
      (tagRuns answerIp.excludes)

def rulesetRun (metadata : Metadata) (spec : RuleSetSpec) : Run :=
  strBytes spec.tag ++ [spec.format.toByte, spec.behavior.toByte] ++ strBytes spec.path ++
    metadataBytes (metadata spec)

def serverRuns (special : Char → Bool) (s : Str × ServerSpec) : List Run :=
  [strBytes s.1, strBytes (serverText special s.2)]

def fingerprintRuns (special : Char → Bool) (metadata : Metadata) (cfg : Config) : List Run :=
  cfg.servers.flatMap (serverRuns special) ++ [] ::
    (cfg.rules.flatMap (ruleRuns special) ++ fallbackRuns cfg.fallback.target) ++
    [if cfg.fallback.noipAsPrimaryIp then 1 else 0] ::
    (encLe 4 cfg.cacheMinTtl.toNat ++ encLe 4 cfg.cacheMaxTtl.toNat) ::
    cfg.rulesetSpecs.map (rulesetRun metadata)

theorem frames_flatMap {α : Type} (f : α → List Run) (xs : List α) :
    frames (xs.flatMap f) = xs.flatMap (fun x => frames (f x)) := by
  induction xs with
  | nil => rfl
  | cons x xs ih => rw [List.flatMap_cons, List.flatMap_cons, frames_append, ih]

theorem feedTags_eq (tags : List Str) : feedTags tags = frames (tagRuns tags) := by
  simp only [feedTags, tagRuns, frames, framed, List.flatMap_map]
  rfl

theorem feedFilter_eq (f : RuleFilterSpec) : feedFilter f = frames (filterRuns f) := by
  simp only [feedFilter, filterRuns, frames_append, frames_cons, feedTags_eq, frames_nil]
  cases f.action <;> simp [actionText, feedStr, feed]

theorem feedRule_eq (special : Char → Bool) (g : RuleSpec) :
    feedRule special g = frames (ruleRuns special g) := by
  have hfilters : feedFilter = fun f => frames (filterRuns f) := funext feedFilter_eq
  simp only [feedRule, ruleRuns, frames_cons, frames_append, frames_flatMap, frames_nil, hfilters]
  simp [feedStr, feed]

theorem feedFallback_eq (t : FallbackTarget) :
    feedFallback t ++ [.sep] = frames (fallbackRuns t) := by
  cases t with
  | lastRule => simp [feedFallback, fallbackRuns, frames_cons, feedStr]
  | server name => simp [feedFallback, fallbackRuns, frames_cons, feedStr, feed]
  | dual primary secondary answerIp =>
    simp only [feedFallback, fallbackRuns, feedTags_eq]
    cases tagRuns answerIp.includes with
    | nil => simp [dualRuns, frames_cons, frames_append, feedStr, feed]
    | cons t ts => simp [dualRuns, frames_cons, frames_append, feedStr, feed]

theorem feedRuleset_eq (metadata : Metadata) (spec : RuleSetSpec) :
    feedRuleset metadata spec = frames [rulesetRun metadata spec] := by
  simp [feedRuleset, rulesetRun, frames_cons, feedStr, feed]

theorem fingerprintTokens_eq (special : Char → Bool) (metadata : Metadata) (cfg : Config) :
    fingerprintTokens special metadata cfg = frames (fingerprintRuns special metadata cfg) := by
  have hservers : ∀ s : Str × ServerSpec, feedStr s.1 ++ [.sep] ++ feedStr (serverText special s.2) ++
      [.sep] = frames (serverRuns special s) := by
    intro s
    simp [serverRuns, frames_cons, feedStr]
  have hrules : feedRule special = fun g => frames (ruleRuns special g) := funext (feedRule_eq special)
  have hrulesets : cfg.rulesetSpecs.flatMap (feedRuleset metadata) =
      frames (cfg.rulesetSpecs.map (rulesetRun metadata)) := by
    have hfun : feedRuleset metadata = fun spec => frames [rulesetRun metadata spec] :=
      funext (feedRuleset_eq metadata)
    rw [hfun, ← frames_flatMap]
    exact congrArg frames (List.flatMap_pure_eq_map _ _)
  simp only [fingerprintTokens, fingerprintRuns, hservers, hrulesets, frames_append, frames_cons,
    frames_flatMap, ← feedFallback_eq, hrules]
  simp [feed]

end PathDns
