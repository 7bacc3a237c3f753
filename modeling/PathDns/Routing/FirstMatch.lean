import Mathlib.Data.List.Dedup
import PathDns.Domain.Wildcard
import PathDns.Lib.FinMap
import PathDns.Routing.Index

/-!
# The route index is a top-to-bottom scan

The scan is stated without the index: a rule matches a name when its matcher list is empty or one of
its matchers does. Against it stand, one after the other, the tag memo, the compiled matchers, the merge
of match entries with the catch-all, and the route cache over a whole run.
-/

namespace PathDns

open Bytes Memo

/-! ### The scan -/

/-- What one matcher of a rule matches. A tag group needs the ruleset. -/
def RuleMatcher.Matches (rx : RegexCrate) (ruleset : Option RuleSetDb) (qname : Str) :
    RuleMatcher → Prop
  | .domain pattern => (classifyPattern rx pattern).Matches qname
  | .tag includes excludes => ∃ rs, ruleset = some rs ∧
      (includes = [] ∨ ∃ tag ∈ includes, rs.matchesDomain tag qname = true) ∧
      ∀ tag ∈ excludes, rs.matchesDomain tag qname = false

/-- A rule matches when its matcher list is empty or one of its matchers does. -/
def Rule.Matches (rx : RegexCrate) (ruleset : Option RuleSetDb) (qname : Str) (rule : Rule) : Prop :=
  rule.matcher = [] ∨ ∃ m ∈ rule.matcher, m.Matches rx ruleset qname

/-- The answer of a scan: the first element with the property, none exactly when there is none. -/
def FirstMatch {α : Type} (p : α → Prop) (l : List α) : Option α → Prop
  | none => ∀ a ∈ l, ¬ p a
  | some a => ∃ i : Nat, l[i]? = some a ∧ p a ∧ ∀ j < i, ∀ b, l[j]? = some b → ¬ p b

/-- The index the scan of `l` ends at, when the elements are numbered from `start` on. -/
def ScanIndex {α : Type} (p : α → Prop) (l : List α) (start idx : Nat) : Prop :=
  (∃ k a, idx = start + k ∧ l[k]? = some a ∧ p a ∧ ∀ j < k, ∀ b, l[j]? = some b → ¬ p b) ∨
    (idx = usizeMax ∧ ∀ a ∈ l, ¬ p a)

section Scan

variable {α : Type} {p : α → Prop} {l : List α} {a : α} {start idx : Nat}

theorem ScanIndex.head (h : p a) : ScanIndex p (a :: l) start start :=
  .inl ⟨0, a, rfl, rfl, h, by omega⟩

theorem ScanIndex.tail (ha : ¬ p a) (h : ScanIndex p l (start + 1) idx) :
    ScanIndex p (a :: l) start idx := by
  rcases h with ⟨k, b, rfl, hb, hp, hbefore⟩ | ⟨hidx, hnone⟩
  · refine .inl ⟨k + 1, b, by omega, hb, hp, ?_⟩
    intro j hj c hc
    cases j with
    | zero =>
      simp only [List.getElem?_cons_zero, Option.some.injEq] at hc
      exact hc ▸ ha
    | succ j => exact hbefore j (by omega) c hc
  · exact .inr ⟨hidx, List.forall_mem_cons.mpr ⟨ha, hnone⟩⟩

theorem ScanIndex.firstMatch (hlen : l.length ≤ usizeMax) (h : ScanIndex p l 0 idx) :
    FirstMatch p l l[idx]? := by
  rcases h with ⟨k, b, rfl, hb, hp, hbefore⟩ | ⟨rfl, hnone⟩
  · rw [Nat.zero_add, hb]
    exact ⟨k, hb, hp, hbefore⟩
  · rw [List.getElem?_eq_none hlen]
    exact hnone

end Scan

/-! ### The tag memo is transparent -/

/-- What the ruleset answers for the tag of an id. -/
def tagHit (rs : RuleSetDb) (tagNames : List Str) (qname : Str) (i : Nat) : Bool :=
  tagNames[i]?.any (rs.matchesDomain · qname)

section Memoized

variable {rs : RuleSetDb} {tagNames : List Str} {qname : Str}

theorem checkTag_spec {id : UInt16} (hid : id.toNat < tagNames.length) {memo : TagMemo}
    (hmemo : memo.Sound (tagHit rs tagNames qname)) :
    ∃ memo', checkTag rs tagNames qname memo id = .ok (tagHit rs tagNames qname id.toNat, memo') ∧
      memo'.Sound (tagHit rs tagNames qname) := by
  have hname := List.getElem?_eq_getElem hid
  have hhit : tagHit rs tagNames qname id.toNat = rs.matchesDomain tagNames[id.toNat] qname := by
    simp [tagHit, hname]
  rw [checkTag, hname]
  unfold TagMemo.check
  cases hget : memo.get id.toNat with
  | some v =>
    refine ⟨memo, ?_, hmemo⟩
    rw [hmemo _ _ hget]
  | none =>
    refine ⟨memo.record id.toNat (tagHit rs tagNames qname id.toNat), by simp only [hhit], ?_⟩
    exact hmemo.record (by norm_num) hget

/-- A group on the ids of its tags. -/
def TagGroup.hit (f : Nat → Bool) (g : TagGroup) : Bool :=
  (g.includeIds.isEmpty || g.includeIds.any (fun id => f id.toNat)) &&
    !g.excludeIds.any (fun id => f id.toNat)

/-- The ids of a group are ids of interned tags. -/
def TagGroup.InRange (tagNames : List Str) (g : TagGroup) : Prop :=
  ∀ id ∈ g.includeIds ++ g.excludeIds, id.toNat < tagNames.length

theorem tagGroupMatches_spec {g : TagGroup} (hg : g.InRange tagNames) {memo : TagMemo}
    (hmemo : memo.Sound (tagHit rs tagNames qname)) :
    ∃ memo', tagGroupMatches rs tagNames qname memo g =
        .ok (g.hit (tagHit rs tagNames qname), memo') ∧
      memo'.Sound (tagHit rs tagNames qname) := by
  have hany : ∀ ids : List UInt16, (∀ id ∈ ids, id.toNat < tagNames.length) → ∀ memo : TagMemo,
      memo.Sound (tagHit rs tagNames qname) →
      ∃ memo', anyThreaded (checkTag rs tagNames qname) ids memo =
        .ok (ids.any (fun id => tagHit rs tagNames qname id.toNat), memo') ∧
        memo'.Sound (tagHit rs tagNames qname) := by
    intro ids hids memo hmemo
    apply anyThreaded_spec (I := fun memo : TagMemo => memo.Sound (tagHit rs tagNames qname)) _ hmemo
    intro id hid s hs
    exact checkTag_spec (hids id hid) hs
  obtain ⟨memo1, hpos, hmemo1⟩ : ∃ memo1,
      (if g.includeIds.isEmpty then .ok (true, memo)
        else anyThreaded (checkTag rs tagNames qname) g.includeIds memo) =
        (.ok (g.includeIds.isEmpty || g.includeIds.any (fun id => tagHit rs tagNames qname id.toNat),
          memo1) : Checked (Bool × TagMemo)) ∧ memo1.Sound (tagHit rs tagNames qname) := by
    split_ifs with hempty
    · exact ⟨memo, by simp [hempty], hmemo⟩
    · obtain ⟨memo1, h1, h2⟩ := hany g.includeIds
        (fun id hid => hg id (List.mem_append_left _ hid)) memo hmemo
      exact ⟨memo1, by simp [hempty, h1], h2⟩
  unfold tagGroupMatches TagGroup.hit
  simp only [hpos]
  cases hinc : g.includeIds.isEmpty || g.includeIds.any (fun id => tagHit rs tagNames qname id.toNat) with
  | false => exact ⟨memo1, by simp, hmemo1⟩
  | true =>
    obtain ⟨memo2, hneg, hmemo2⟩ := hany g.excludeIds
      (fun id hid => hg id (List.mem_append_right _ hid)) memo1 hmemo1
    exact ⟨memo2, by simp [hneg], hmemo2⟩

end Memoized

/-- An entry without the memo. -/
def MatchEntry.hit (ruleset : Option RuleSetDb) (tagNames : List Str) (qname : Str)
    (e : MatchEntry) : Bool :=
  e.domains.hits qname || ruleset.any (fun rs => e.tags.any (·.hit (tagHit rs tagNames qname)))

/-- The memo is sound for whatever ruleset there is. -/
def MemoSound (ruleset : Option RuleSetDb) (tagNames : List Str) (qname : Str) (memo : TagMemo) : Prop :=
  ∀ rs, ruleset = some rs → memo.Sound (tagHit rs tagNames qname)

theorem matchEntryMatches_spec {entry : MatchEntry} {qname : Str} {ruleset : Option RuleSetDb}
    {memo : TagMemo} {tagNames : List Str} (hids : ∀ g ∈ entry.tags, g.InRange tagNames)
    (hmemo : MemoSound ruleset tagNames qname memo) :
    ∃ memo', matchEntryMatches entry qname ruleset memo tagNames =
        .ok (entry.hit ruleset tagNames qname, memo') ∧ MemoSound ruleset tagNames qname memo' := by
  unfold matchEntryMatches MatchEntry.hit
  split_ifs with hdom
  · exact ⟨memo, by simp [hdom], hmemo⟩
  · cases ruleset with
    | none => exact ⟨memo, by simp [hdom], hmemo⟩
    | some rs =>
      obtain ⟨memo', h1, h2⟩ := anyThreaded_spec
        (I := fun memo : TagMemo => memo.Sound (tagHit rs tagNames qname))
        (fun g hg s hs => tagGroupMatches_spec (hids g hg) hs) (hmemo rs rfl)
      refine ⟨memo', by simp [hdom, h1], ?_⟩
      rintro rs' hrs
      simp only [Option.some.injEq] at hrs
      exact hrs ▸ h2

/-! ### Interning -/

/-- The maps of the interner belong together. -/
structure Interner.Ok (s : Interner) : Prop where
  index : ∀ name id, s.ids.lookup name = some id →
    ∃ i : Nat, s.names[i]? = some name ∧ id = UInt16.ofNat i
  known : ∀ name ∈ s.names, name ∈ s.ids
  nodup : s.names.Nodup

/-- In the final table of names the id is that of the name. -/
def Names (final : List Str) (id : UInt16) (name : Str) : Prop := final[id.toNat]? = some name

/-- Every table of at most 65536 names that extends the interner. -/
def Interner.Final (s : Interner) (final : List Str) : Prop := s.names <+: final ∧ final.length ≤ 65536

variable {s : Interner} {final : List Str}

theorem Interner.Final.mono {s' : Interner} (h : s'.Final final) (hext : s.names <+: s'.names) :
    s.Final final := ⟨hext.trans h.1, h.2⟩

theorem Interner.Ok.names (h : s.Ok) {name : Str} {id : UInt16} (hid : s.ids.lookup name = some id)
    (hf : s.Final final) : Names final id name := by
  obtain ⟨i, hi, rfl⟩ := h.index name id hid
  obtain ⟨tail, rfl⟩ := hf.1
  have hlt : i < s.names.length := (List.getElem?_eq_some_iff.mp hi).1
  have hsize := hf.2
  rw [List.length_append] at hsize
  unfold Names
  rw [UInt16.toNat_ofNat_of_lt' (by simp [UInt16.size]; omega), List.getElem?_append_left hlt]
  exact hi

/-- The interner has grown by some of the names, and every final table has the property. -/
structure Interner.Grows (s s' : Interner) (names : List Str) (P : List Str → Prop) : Prop where
  ok : s'.Ok
  ext : s.names <+: s'.names
  mem : ∀ n ∈ s'.names, n ∈ names ∨ n ∈ s.names
  final : ∀ final, s'.Final final → P final

theorem Interner.Grows.refl (h : s.Ok) {P : List Str → Prop} (hP : ∀ final, P final) : s.Grows s [] P :=
  ⟨h, List.prefix_rfl, fun _ => .inr, fun final _ => hP final⟩

theorem Interner.Grows.trans {s' s'' : Interner} {names names' : List Str} {P Q R : List Str → Prop}
    (h : s.Grows s' names P) (h' : s'.Grows s'' names' Q) (hR : ∀ final, P final → Q final → R final) :
    s.Grows s'' (names ++ names') R where
  ok := h'.ok
  ext := h.ext.trans h'.ext
  mem := by
    intro n hn
    rcases h'.mem n hn with hn | hn
    · exact .inl (List.mem_append_right _ hn)
    · exact (h.mem n hn).imp_left (List.mem_append_left _)
  final := fun final hf => hR final (h.final final (hf.mono h'.ext)) (h'.final final hf)

theorem Interner.intern_spec (h : s.Ok) (name : Str) :
    s.Grows (s.intern name).2 [name] fun final => Names final (s.intern name).1 name := by
  unfold intern
  cases hlook : s.ids.lookup name with
  | some id => exact ⟨h, List.prefix_rfl, fun n hn => .inr hn, fun final hf => h.names hlook hf⟩
  | none =>
    have hnew : name ∉ s.ids := AList.lookup_eq_none.mp hlook
    have hok : Interner.Ok ⟨s.ids.insert name (.ofNat s.names.length), s.names ++ [name]⟩ := by
      refine ⟨?_, ?_, ?_⟩
      · intro n id hn
        by_cases heq : n = name
        · subst heq
          rw [AList.lookup_insert, Option.some.injEq] at hn
          exact ⟨s.names.length, by simp, hn.symm⟩
        · rw [AList.lookup_insert_ne heq] at hn
          obtain ⟨i, hi, hid⟩ := h.index n id hn
          exact ⟨i, by rw [List.getElem?_append_left (List.getElem?_eq_some_iff.mp hi).1]; exact hi, hid⟩
      · intro n hn
        rcases List.mem_append.mp hn with hn | hn
        · exact (AList.mem_insert _).mpr (.inr (h.known n hn))
        · exact (AList.mem_insert _).mpr (.inl (List.mem_singleton.mp hn))
      · refine List.nodup_append.mpr ⟨h.nodup, List.nodup_singleton _, ?_⟩
        intro a ha b hb heq
        rw [List.mem_singleton.mp hb] at heq
        exact hnew (heq ▸ h.known a ha)
    exact ⟨hok, List.prefix_append _ _, fun n hn => (List.mem_append.mp hn).symm,
      fun final hf => hok.names (AList.lookup_insert _) hf⟩

theorem Interner.internAll_spec (h : s.Ok) (ns : List Str) :
    s.Grows (internAll ns s).2 ns fun final => List.Forall₂ (Names final) (internAll ns s).1 ns := by
  induction ns generalizing s with
  | nil => exact .refl h fun _ => .nil
  | cons name ns ih =>
    have hname := intern_spec h name
    exact hname.trans (ih hname.ok) fun _ => .cons

/-! ### Compiled matchers -/

/-- The ids of the group are those of the tags. -/
def TagGroup.Of (final : List Str) (g : TagGroup) (tags : List Str × List Str) : Prop :=
  List.Forall₂ (Names final) g.includeIds tags.1 ∧ List.Forall₂ (Names final) g.excludeIds tags.2

/-- The tag expressions among the matchers. -/
def RuleMatcher.tagLists : RuleMatcher → Option (List Str × List Str)
  | .domain _ => none
  | .tag includes excludes => some (includes, excludes)

/-- The tags a matcher names. -/
def RuleMatcher.tags : RuleMatcher → List Str
  | .domain _ => []
  | .tag includes excludes => includes ++ excludes

theorem Compiled.foldl_spec (rx : RegexCrate) (ms : List RuleMatcher) (st : Compiled)
    (h : st.interner.Ok) :
    (∀ q, (ms.foldl (Compiled.add rx) st).domains.hits q = true ↔ st.domains.hits q = true ∨
        ∃ pattern, .domain pattern ∈ ms ∧ (classifyPattern rx pattern).Matches q) ∧
      ∃ groups, (ms.foldl (Compiled.add rx) st).tags = st.tags ++ groups ∧
        st.interner.Grows (ms.foldl (Compiled.add rx) st).interner (ms.flatMap RuleMatcher.tags)
          fun final => List.Forall₂ (TagGroup.Of final) groups (ms.filterMap RuleMatcher.tagLists) := by
  induction ms generalizing st with
  | nil => exact ⟨by simp, [], by simp, .refl h fun _ => .nil⟩
  | cons m ms ih =>
    rw [List.foldl_cons]
    cases m with
    | domain pattern =>
      obtain ⟨hhits, hgroups⟩ := ih (st.add rx (.domain pattern)) h
      refine ⟨?_, hgroups⟩
      intro q
      rw [hhits q, show (st.add rx (.domain pattern)).domains =
        st.domains.insertAs (classifyPattern rx pattern) () from rfl, DomainMatcher.hits_insertAs]
      simp only [List.mem_cons, RuleMatcher.domain.injEq, or_and_right, exists_or, exists_eq_left, or_assoc]
    | tag includes excludes =>
      have hinc := Interner.internAll_spec h includes
      have hexc := Interner.internAll_spec hinc.ok excludes
      obtain ⟨hhits, groups, htags, hgroups⟩ := ih (st.add rx (.tag includes excludes)) hexc.ok
      refine ⟨?_, ⟨(Interner.internAll includes st.interner).1,
        (Interner.internAll excludes (Interner.internAll includes st.interner).2).1⟩ :: groups, ?_,
        (hinc.trans hexc fun _ => And.intro).trans hgroups fun final hg hgs => ?_⟩
      · intro q
        rw [hhits q]
        simp [Compiled.add]
      · rw [htags]
        simp only [Compiled.add, List.append_assoc, List.singleton_append]
      · rw [List.filterMap_cons]
        exact .cons hg hgs

/-- The entry is the compiled form of the rule at its index. -/
structure EntryOf (rx : RegexCrate) (final : List Str) (e : MatchEntry) (r : Rule × Nat) : Prop where
  ruleIdx : e.ruleIdx = r.2
  domains : ∀ q, e.domains.hits q = true ↔
    ∃ pattern, .domain pattern ∈ r.1.matcher ∧ (classifyPattern rx pattern).Matches q
  groups : List.Forall₂ (TagGroup.Of final) e.tags (r.1.matcher.filterMap RuleMatcher.tagLists)

section Entry

variable {rx : RegexCrate} {final : List Str} {e : MatchEntry} {r : Rule × Nat}

theorem lt_of_names {ids : List UInt16} {ns : List Str} (h : List.Forall₂ (Names final) ids ns) :
    ∀ id ∈ ids, id.toNat < final.length := by
  have hboth := h.imp (fun id n hname => And.intro (List.getElem?_eq_some_iff.mp hname).1 hname)
  exact ((List.forall₂_and_left _ _).mp hboth).1

theorem any_of_names {ids : List UInt16} {ns : List Str} (h : List.Forall₂ (Names final) ids ns)
    (rs : RuleSetDb) (q : Str) :
    ids.any (fun id => tagHit rs final q id.toNat) = ns.any (rs.matchesDomain · q) := by
  induction h with
  | nil => rfl
  | @cons id n ids ns hname _ ih =>
    have hhead : tagHit rs final q id.toNat = rs.matchesDomain n q := by
      rw [tagHit, show final[id.toNat]? = some n from hname]
      rfl
    rw [List.any_cons, List.any_cons, ih, hhead]

theorem TagGroup.Of.inRange {g : TagGroup} {tags : List Str × List Str} (h : g.Of final tags) :
    g.InRange final := by
  intro id hid
  rcases List.mem_append.mp hid with hid | hid
  · exact lt_of_names h.1 id hid
  · exact lt_of_names h.2 id hid

theorem TagGroup.Of.hit_iff {g : TagGroup} {tags : List Str × List Str} (h : g.Of final tags)
    (rs : RuleSetDb) (q : Str) :
    g.hit (tagHit rs final q) = true ↔
      (tags.1 = [] ∨ ∃ tag ∈ tags.1, rs.matchesDomain tag q = true) ∧
        ∀ tag ∈ tags.2, rs.matchesDomain tag q = false := by
  have hempty : g.includeIds = [] ↔ tags.1 = [] := by
    rw [← List.length_eq_zero_iff, h.1.length_eq, List.length_eq_zero_iff]
  simp [hit, any_of_names h.1, any_of_names h.2, hempty]

theorem any_groups {groups : List TagGroup} {tags : List (List Str × List Str)}
    (h : List.Forall₂ (TagGroup.Of final) groups tags) (rs : RuleSetDb) (q : Str) :
    groups.any (·.hit (tagHit rs final q)) = true ↔ ∃ t ∈ tags,
      (t.1 = [] ∨ ∃ tag ∈ t.1, rs.matchesDomain tag q = true) ∧
        ∀ tag ∈ t.2, rs.matchesDomain tag q = false := by
  induction h with
  | nil => simp
  | cons hg _ ih =>
    rw [List.any_cons, Bool.or_eq_true, hg.hit_iff, ih]
    simp only [List.mem_cons, or_and_right, exists_or, exists_eq_left]

theorem EntryOf.inRange (h : EntryOf rx final e r) : ∀ g ∈ e.tags, g.InRange final := by
  have hboth := h.groups.imp (fun g tags hg => And.intro hg.inRange hg)
  exact ((List.forall₂_and_left _ _).mp hboth).1

theorem EntryOf.hit_iff (h : EntryOf rx final e r) (ruleset : Option RuleSetDb) (q : Str) :
    e.hit ruleset final q = true ↔ ∃ m ∈ r.1.matcher, m.Matches rx ruleset q := by
  have htags : (ruleset.any (fun rs => e.tags.any (·.hit (tagHit rs final q)))) = true ↔
      ∃ includes excludes, .tag includes excludes ∈ r.1.matcher ∧
        (RuleMatcher.tag includes excludes).Matches rx ruleset q := by
    cases ruleset with
    | none => simp [RuleMatcher.Matches]
    | some rs =>
      rw [Option.any_some, any_groups h.groups]
      constructor
      · rintro ⟨t, ht, hmatch⟩
        obtain ⟨m, hm, hlists⟩ := List.mem_filterMap.mp ht
        cases m with
        | domain pattern => simp [RuleMatcher.tagLists] at hlists
        | tag includes excludes =>
          simp only [RuleMatcher.tagLists, Option.some.injEq] at hlists
          subst hlists
          exact ⟨includes, excludes, hm, rs, rfl, hmatch⟩
      · rintro ⟨includes, excludes, hm, rs', hrs, hmatch⟩
        simp only [Option.some.injEq] at hrs
        subst hrs
        exact ⟨(includes, excludes), List.mem_filterMap.mpr ⟨_, hm, rfl⟩, hmatch⟩
  rw [MatchEntry.hit, Bool.or_eq_true, h.domains, htags]
  constructor
  · rintro (⟨pattern, hm, hmatch⟩ | ⟨includes, excludes, hm, hmatch⟩)
    · exact ⟨_, hm, hmatch⟩
    · exact ⟨_, hm, hmatch⟩
  · rintro ⟨m, hm, hmatch⟩
    cases m with
    | domain pattern => exact .inl ⟨pattern, hm, hmatch⟩
    | tag includes excludes => exact .inr ⟨includes, excludes, hm, hmatch⟩

end Entry

theorem compileMatcher_spec (rx : RegexCrate) {interner : Interner} (h : interner.Ok) (rule : Rule)
    (idx : Nat) :
    interner.Grows (compileMatcher rx interner rule.matcher).interner (rule.matcher.flatMap RuleMatcher.tags)
      fun final => EntryOf rx final ⟨idx, (compileMatcher rx interner rule.matcher).domains,
        (compileMatcher rx interner rule.matcher).tags⟩ (rule, idx) := by
  obtain ⟨hhits, groups, htags, hgroups⟩ := Compiled.foldl_spec rx rule.matcher ⟨interner, .empty, []⟩ h
  refine { hgroups with final := fun final hf => ⟨rfl, ?_, ?_⟩ }
  · intro q
    have hnone : ¬ (DomainMatcher.empty : DomainMatcher Unit).hits q = true := by
      rw [DomainMatcher.hits_iff]
      simp [DomainMatcher.empty]
    rw [compileMatcher, hhits q]
    simp only [hnone, Bool.false_eq_true, false_or]
  · rw [compileMatcher, htags]
    exact hgroups.final final hf

/-! ### The two streams -/

/-- The rules with a matcher, with their indices. -/
def conditional (rules : List Rule) (start : Nat) : List (Rule × Nat) :=
  (rules.zipIdx start).filter (fun r => !r.1.matcher.isEmpty)

/-- The first catch-all. -/
def firstCatchAll (rules : List Rule) (start : Nat) : Option Nat :=
  (rules.findIdx? (·.matcher.isEmpty)).map (start + ·)

/-- The tags the rules name. -/
def ruleTags (rules : List Rule) : List Str := rules.flatMap (fun r => r.matcher.flatMap RuleMatcher.tags)

variable {rule : Rule}

theorem firstCatchAll_cons_empty (h : rule.matcher.isEmpty = true) (rules : List Rule) (start : Nat) :
    firstCatchAll (rule :: rules) start = some start := by
  simp [firstCatchAll, List.findIdx?_cons, h]

theorem firstCatchAll_cons (h : ¬ rule.matcher.isEmpty = true) (rules : List Rule) (start : Nat) :
    firstCatchAll (rule :: rules) start = firstCatchAll rules (start + 1) := by
  simp only [firstCatchAll, List.findIdx?_cons, h, Bool.false_eq_true, if_false, Option.map_map]
  congr 1
  funext i
  simp only [Function.comp_apply]
  omega

theorem conditional_cons_empty (h : rule.matcher.isEmpty = true) (rules : List Rule) (start : Nat) :
    conditional (rule :: rules) start = conditional rules (start + 1) := by
  simp [conditional, List.zipIdx_cons, h]

theorem conditional_cons (h : ¬ rule.matcher.isEmpty = true) (rules : List Rule) (start : Nat) :
    conditional (rule :: rules) start = (rule, start) :: conditional rules (start + 1) := by
  simp [conditional, List.zipIdx_cons, h]

/-- What the loop of `build` leaves. -/
theorem RouteBuild.addAll_spec (rx : RegexCrate) (rules : List Rule) (start : Nat) {b : RouteBuild}
    (h : b.interner.Ok) :
    (addAll rx rules start b).catchAllIdx = b.catchAllIdx.or (firstCatchAll rules start) ∧
      ∃ es, (addAll rx rules start b).matchEntries = b.matchEntries ++ es ∧
        b.interner.Grows (addAll rx rules start b).interner (ruleTags rules)
          fun final => List.Forall₂ (EntryOf rx final) es (conditional rules start) := by
  induction rules generalizing start b with
  | nil => exact ⟨by simp [addAll, firstCatchAll], [], by simp [addAll], .refl h fun _ => .nil⟩
  | cons rule rules ih =>
    rw [addAll]
    by_cases hempty : rule.matcher.isEmpty = true
    · have hadd : b.add rx rule start = { b with catchAllIdx := b.catchAllIdx.or (some start) } :=
        if_pos hempty
      rw [hadd]
      obtain ⟨hcatch, es, hes, hentries⟩ :=
        ih (start + 1) (b := { b with catchAllIdx := b.catchAllIdx.or (some start) }) h
      refine ⟨?_, es, hes, ?_⟩
      · rw [hcatch, firstCatchAll_cons_empty hempty]
        cases b.catchAllIdx <;> rfl
      · rw [conditional_cons_empty hempty]
        exact { hentries with mem := fun n hn => (hentries.mem n hn).imp_left (List.mem_append_right _) }
    · have hadd : b.add rx rule start = { b with
          interner := (compileMatcher rx b.interner rule.matcher).interner
          matchEntries := b.matchEntries ++ [⟨start,
            (compileMatcher rx b.interner rule.matcher).domains,
            (compileMatcher rx b.interner rule.matcher).tags⟩] } := if_neg hempty
      have hentry := compileMatcher_spec rx h rule start
      obtain ⟨hcatch, es, hes, hentries⟩ := ih (start + 1) (b := b.add rx rule start) (by rw [hadd]; exact hentry.ok)
      rw [hadd] at hcatch hes hentries ⊢
      refine ⟨?_, ⟨start, (compileMatcher rx b.interner rule.matcher).domains,
          (compileMatcher rx b.interner rule.matcher).tags⟩ :: es, ?_, ?_⟩
      · rw [hcatch, firstCatchAll_cons hempty]
      · rw [hes, List.append_assoc, List.singleton_append]
      · rw [conditional_cons hempty]
        exact hentry.trans hentries fun _ => .cons

/-- The walk over the entries of a suffix of the rules ends where the scan of the suffix does. -/
theorem routeLoop_scan {rx : RegexCrate} {ruleset : Option RuleSetDb} {q : Str} {catchAll : Nat}
    (rules : List Rule) (start : Nat) {entries : List MatchEntry} {memo : TagMemo}
    (hentries : List.Forall₂ (EntryOf rx final) entries (conditional rules start))
    (hmemo : MemoSound ruleset final q memo) (hlen : start + rules.length ≤ usizeMax)
    (hcatch : catchAll = (firstCatchAll rules start).getD usizeMax) :
    ∃ idx, routeLoop catchAll q ruleset final entries memo = .ok idx ∧
      ScanIndex (Rule.Matches rx ruleset q) rules start idx := by
  induction rules generalizing start entries memo with
  | nil =>
    rw [show conditional [] start = [] from rfl, List.forall₂_nil_right_iff] at hentries
    subst hentries
    exact ⟨catchAll, rfl, .inr ⟨hcatch, by simp⟩⟩
  | cons rule rules ih =>
    rw [List.length_cons] at hlen
    by_cases hempty : rule.matcher.isEmpty = true
    · -- the catch-all is this rule, and every entry left stands behind it
      rw [firstCatchAll_cons_empty hempty, Option.getD_some] at hcatch
      rw [conditional_cons_empty hempty] at hentries
      refine ⟨start, ?_, .head (.inl (List.isEmpty_iff.mp hempty))⟩
      subst hcatch
      have hbehind : ∀ r ∈ conditional rules (catchAll + 1), catchAll < r.2 := by
        intro r hr
        have := List.le_snd_of_mem_zipIdx (List.mem_of_mem_filter hr)
        omega
      cases entries with
      | nil => rfl
      | cons entry entries =>
        obtain ⟨r, rs, hentry, -, hrs⟩ := List.forall₂_cons_left_iff.mp hentries
        have hlt := hbehind r (by rw [hrs]; exact List.mem_cons_self)
        rw [routeLoop, if_pos (by rw [hentry.ruleIdx]; exact hlt)]
    · rw [firstCatchAll_cons hempty] at hcatch
      rw [conditional_cons hempty] at hentries
      cases hentries with
      | @cons entry _ entries _ hentry hrest =>
        have hstart : ¬ catchAll < entry.ruleIdx := by
          rw [hentry.ruleIdx, hcatch]
          unfold firstCatchAll
          cases rules.findIdx? (·.matcher.isEmpty) with
          | none => simp only [Option.map_none, Option.getD_none]; omega
          | some i => simp only [Option.map_some, Option.getD_some]; omega
        obtain ⟨memo', hmatch, hmemo'⟩ := matchEntryMatches_spec hentry.inRange hmemo
        have hrule : Rule.Matches rx ruleset q rule ↔ entry.hit ruleset final q = true := by
          rw [hentry.hit_iff, Rule.Matches]
          simp only [List.isEmpty_iff] at hempty
          simp only [hempty, false_or]
        rw [routeLoop, if_neg hstart, hmatch]
        cases hhit : entry.hit ruleset final q with
        | true =>
          refine ⟨start, by simp only [hentry.ruleIdx], .head (hrule.mpr hhit)⟩
        | false =>
          obtain ⟨idx, hidx, hscan⟩ := ih (start + 1) hrest hmemo' (by omega) hcatch
          refine ⟨idx, hidx, hscan.tail ?_⟩
          rw [hrule, hhit]
          simp

/-! ### Whole runs -/

namespace RouteIndex

variable {rx : RegexCrate} {rules : RuleVec} {capacity : Nat} {ruleset : Option RuleSetDb}

theorem interner_empty_ok : Interner.empty.Ok where
  index := by simp [Interner.empty]
  known := by simp [Interner.empty]
  nodup := by simp [Interner.empty]

theorem length_tagNames_le (rx : RegexCrate) (rules : List Rule) (capacity : Nat) :
    (build rx rules capacity).tagNames.length ≤ (ruleTags rules).dedup.length := by
  obtain ⟨-, es, -, hgrows⟩ :=
    RouteBuild.addAll_spec rx rules 0 (b := ⟨.empty, [], none⟩) interner_empty_ok
  refine (List.subperm_of_subset hgrows.ok.nodup ?_).length_le
  intro n hn
  rw [List.mem_dedup]
  rcases hgrows.mem n hn with hn | hn
  · exact hn
  · simp [Interner.empty] at hn

theorem build_catchAllIdx (rx : RegexCrate) (rules : List Rule) (capacity : Nat) :
    (build rx rules capacity).catchAllIdx = firstCatchAll rules 0 := by
  obtain ⟨hcatch, -⟩ :=
    RouteBuild.addAll_spec rx rules 0 (b := ⟨.empty, [], none⟩) interner_empty_ok
  rw [Option.none_or] at hcatch
  exact hcatch

theorem length_le_usizeMax (rules : RuleVec) : rules.1.length ≤ usizeMax := by
  have := rules.2
  unfold usizeMax
  omega

theorem routeLoop_build (htags : (ruleTags rules.1).dedup.length ≤ 65536) (q : Str) :
    ∃ idx, routeLoop ((build rx rules.1 capacity).catchAllIdx.getD usizeMax) q ruleset
        (build rx rules.1 capacity).tagNames (build rx rules.1 capacity).matchEntries
        (BitMemo.new 64 (build rx rules.1 capacity).numTags) = .ok idx ∧
      ScanIndex (Rule.Matches rx ruleset q) rules.1 0 idx := by
  obtain ⟨-, es, hes, hentries⟩ :=
    RouteBuild.addAll_spec rx rules.1 0 (b := ⟨.empty, [], none⟩) interner_empty_ok
  rw [List.nil_append] at hes
  subst hes
  have hsize := (length_tagNames_le rx rules.1 capacity).trans htags
  have hlen : 0 + rules.1.length ≤ usizeMax := (Nat.zero_add _).symm ▸ length_le_usizeMax rules
  have hmemo : MemoSound ruleset (build rx rules.1 capacity).tagNames q
      (BitMemo.new 64 (build rx rules.1 capacity).numTags) :=
    fun rs _ => BitMemo.sound_new (by norm_num) _ _
  exact routeLoop_scan rules.1 0 (hentries.final _ ⟨List.prefix_rfl, hsize⟩) hmemo hlen
    (by rw [build_catchAllIdx])

/-- What the constant route answers is what the scan answers. -/
theorem constantRoute_firstMatch (htags : (ruleTags rules.1).dedup.length ≤ 65536) (q : Str)
    {constant : Option Nat} (h : (build rx rules.1 capacity).constantRoute = some constant) :
    FirstMatch (Rule.Matches rx ruleset q) rules.1 (constant.bind (rules.1[·]?)) := by
  obtain ⟨hshape, rfl⟩ : ((build rx rules.1 capacity).catchAllIdx = some 0 ∨
      (build rx rules.1 capacity).matchEntries = []) ∧
        (build rx rules.1 capacity).catchAllIdx = constant := by
    simpa only [build, Option.ite_none_right_eq_some, Option.some.injEq, List.isEmpty_iff] using h
  rcases hshape with hzero | hnone
  · -- the first rule is a catch-all
    rw [hzero]
    rw [build_catchAllIdx, firstCatchAll] at hzero
    cases hrules : rules.1 with
    | nil => simp [hrules] at hzero
    | cons rule tail =>
      have hempty : rule.matcher = [] := by
        by_contra hne
        simp [hrules, List.findIdx?_cons, hne] at hzero
      exact ⟨0, rfl, .inl hempty, by omega⟩
  · -- without entries the walk ends at the catch-all
    obtain ⟨idx, hidx, hscan⟩ := @routeLoop_build rx rules capacity ruleset htags q
    have hlen := length_le_usizeMax rules
    have hfirst := hscan.firstMatch hlen
    rw [hnone, routeLoop, Except.ok.injEq] at hidx
    rw [← hidx] at hfirst
    cases hc : (build rx rules.1 capacity).catchAllIdx with
    | none =>
      rw [hc, Option.getD_none, List.getElem?_eq_none hlen] at hfirst
      exact hfirst
    | some i =>
      rw [hc, Option.getD_some] at hfirst
      exact hfirst

/-- The cached decisions are those of the scan. -/
def CacheOk (rx : RegexCrate) (rules : List Rule) (ruleset : Option RuleSetDb) (cache : RouteCache) : Prop :=
  FinMap.Holds (fun q idx => ScanIndex (Rule.Matches rx ruleset q) rules 0 idx) cache

/-- One call: the answer is that of the scan, and the cache stays right. -/
theorem route_spec (htags : (ruleTags rules.1).dedup.length ≤ 65536) (q : Str) {cache : RouteCache}
    (hcache : CacheOk rx rules.1 ruleset cache) :
    ∃ answer cache', (build rx rules.1 capacity).route rules.1 q ruleset cache = .ok (answer, cache') ∧
      FirstMatch (Rule.Matches rx ruleset q) rules.1 answer ∧ CacheOk rx rules.1 ruleset cache' := by
  have hlen := length_le_usizeMax rules
  unfold route
  cases hconst : (build rx rules.1 capacity).constantRoute with
  | some constant => exact ⟨_, _, rfl, constantRoute_firstMatch htags q hconst, hcache⟩
  | none =>
    simp only
    split
    · next idx hlook =>
      split_ifs at hlook with huse
      have hscan := hcache q idx hlook
      have hfirst := hscan.firstMatch hlen
      refine ⟨_, _, rfl, ?_, hcache⟩
      split_ifs with hmax
      · rw [hmax, List.getElem?_eq_none hlen] at hfirst
        exact hfirst
      · exact hfirst
    · obtain ⟨idx, hidx, hscan⟩ := @routeLoop_build rx rules capacity ruleset htags q
      have huncached : (build rx rules.1 capacity).routeIndexUncached q ruleset
          (BitMemo.new 64 (build rx rules.1 capacity).numTags) = .ok idx := by
        unfold routeIndexUncached
        simp only
        split_ifs with hnone
        · rw [List.isEmpty_iff.mp hnone, routeLoop] at hidx
          exact hidx
        · exact hidx
      rw [huncached]
      refine ⟨_, _, rfl, hscan.firstMatch hlen, ?_⟩
      split_ifs
      · exact FinMap.Holds.insert hcache hscan
      · exact hcache

/-- In every run, whatever the cache forgets in between, every call of `route` returns the first rule
of a top-to-bottom scan that matches the name, and none exactly when no rule does. -/
theorem run_first_match (rx : RegexCrate) (rules : RuleVec) (capacity : Nat)
    (htags : (ruleTags rules.1).dedup.length ≤ 65536) (ruleset : Option RuleSetDb)
    (events : List Event) :
    ∃ answers cache, (build rx rules.1 capacity).run rules.1 ruleset events ∅ = .ok (answers, cache) ∧
      List.Forall₂ (fun q answer => FirstMatch (Rule.Matches rx ruleset q) rules.1 answer)
        (calls events) answers := by
  suffices h : ∀ cache, CacheOk rx rules.1 ruleset cache → ∃ answers cache',
      (build rx rules.1 capacity).run rules.1 ruleset events cache = .ok (answers, cache') ∧
      List.Forall₂ (fun q answer => FirstMatch (Rule.Matches rx ruleset q) rules.1 answer)
        (calls events) answers from h ∅ FinMap.holds_empty
  induction events with
  | nil => exact fun cache _ => ⟨[], cache, rfl, .nil⟩
  | cons event events ih =>
    intro cache hcache
    cases event with
    | evict qname => exact ih (cache.erase qname) (FinMap.Holds.erase hcache qname)
    | call qname =>
      obtain ⟨answer, cache1, hroute, hfirst, hcache1⟩ :=
        @route_spec rx rules capacity ruleset htags qname cache hcache
      obtain ⟨answers, cache2, hrun, hall⟩ := ih cache1 hcache1
      exact ⟨answer :: answers, cache2, by simp only [run, hroute, hrun], .cons hfirst hall⟩

/-- A rule that matches by tag and by suffix. -/
def taggedRule : Rule where
  index := 0
  server := ['s']
  kind := .fixed ⟨some 0, 60, []⟩
  cachePolicy := ⟨false, 0, 0, 0⟩
  filters := []
  matcher := [.tag ["cn".toList] ["ads".toList], .domain "+.example".toList]
  stripEcs := true
  stripEcs_eq := rfl

def taggedRules : RuleVec := ⟨[taggedRule, { taggedRule with index := 1, matcher := [] }], by decide⟩

theorem run_first_match_tagged :
    (ruleTags taggedRules.1).dedup.length ≤ 65536 ∧
    ∃ answers cache, (build ⟨fun _ => none, id⟩ taggedRules.1 0).run taggedRules.1 none
        [.call "a.example".toList, .call "b".toList, .evict "b".toList, .call "b".toList] ∅ =
          .ok (answers, cache) ∧
      List.Forall₂ (fun q answer =>
          FirstMatch (Rule.Matches ⟨fun _ => none, id⟩ none q) taggedRules.1 answer)
        ["a.example".toList, "b".toList, "b".toList] answers := by
  have htags : (ruleTags taggedRules.1).dedup.length ≤ 65536 := by decide +kernel
  exact ⟨htags, run_first_match ⟨fun _ => none, id⟩ taggedRules 0 htags none
    [.call "a.example".toList, .call "b".toList, .evict "b".toList, .call "b".toList]⟩

end RouteIndex

end PathDns
