import PathDns.Lib.Bytes
import PathDns.Lib.Memo
import PathDns.Server

/-!
# The route index (`route_index.rs`)

`build` splits the rules into match entries and the first catch-all, compiles the domain patterns of an
entry and interns its tags. `route` answers from the constant route, from the route cache or by a walk
over the match entries with one tag memo.

The route cache is state of its own: a finite map that forgets bindings at any time.
-/

namespace PathDns

open Bytes Memo

/-- `usize::MAX`, which stands for no rule. -/
def usizeMax : Nat := 2 ^ 64 - 1

/-- The rules of a `Vec`, which holds at most `isize::MAX` elements. -/
abbrev RuleVec := { rules : List Rule // rules.length < 2 ^ 63 }

/-! ### Tag memo -/

/-- `TagMemo`: two bits a tag in chunks of 64 tags. -/
abbrev TagMemo := BitMemo 64

def TagMemo.check (memo : TagMemo) (rs : RuleSetDb) (tagId : UInt16) (tagName qname : Str) :
    Bool × TagMemo :=
  match memo.get tagId.toNat with
  | some v => (v, memo)
  | none =>
    let v := rs.matchesDomain tagName qname
    (v, memo.record tagId.toNat v)

/-! ### Building -/

/-- The two maps of `intern`. -/
structure Interner where
  ids : AList (fun _ : Str => UInt16)
  names : List Str

namespace Interner

def empty : Interner := ⟨∅, []⟩

def intern (s : Interner) (name : Str) : UInt16 × Interner :=
  match s.ids.lookup name with
  | some id => (id, s)
  | none =>
    let id := UInt16.ofNat s.names.length
    (id, ⟨s.ids.insert name id, s.names ++ [name]⟩)

/-- `intern` mapped over the tags of a list. -/
def internAll : List Str → Interner → List UInt16 × Interner
  | [], s => ([], s)
  | name :: names, s =>
    let (id, s) := s.intern name
    let (ids, s) := internAll names s
    (id :: ids, s)

end Interner

structure TagGroup where
  includeIds : List UInt16
  excludeIds : List UInt16

structure MatchEntry where
  ruleIdx : Nat
  domains : DomainMatcher Unit
  tags : List TagGroup

/-- What `build` keeps while it goes over the matchers of one rule. -/
structure Compiled where
  interner : Interner
  domains : DomainMatcher Unit
  tags : List TagGroup

/-- One matcher of a rule. -/
def Compiled.add (rx : RegexCrate) (st : Compiled) : RuleMatcher → Compiled
  | .domain pattern => { st with domains := st.domains.insertAs (classifyPattern rx pattern) () }
  | .tag includes excludes =>
    let (includeIds, interner) := Interner.internAll includes st.interner
    let (excludeIds, interner) := Interner.internAll excludes interner
    { st with interner := interner, tags := st.tags ++ [⟨includeIds, excludeIds⟩] }

def compileMatcher (rx : RegexCrate) (interner : Interner) (matcher : List RuleMatcher) : Compiled :=
  matcher.foldl (Compiled.add rx) ⟨interner, .empty, []⟩

/-- What `build` keeps while it goes over the rules. -/
structure RouteBuild where
  interner : Interner
  matchEntries : List MatchEntry
  catchAllIdx : Option Nat

/-- One rule of the loop of `build`. -/
def RouteBuild.add (rx : RegexCrate) (b : RouteBuild) (rule : Rule) (idx : Nat) : RouteBuild :=
  if rule.matcher.isEmpty then { b with catchAllIdx := b.catchAllIdx.or (some idx) }
  else
    let c := compileMatcher rx b.interner rule.matcher
    { b with
      interner := c.interner
      matchEntries := b.matchEntries ++ [⟨idx, c.domains, c.tags⟩] }

/-- The loop of `build`, from rule `idx` on. -/
def RouteBuild.addAll (rx : RegexCrate) : List Rule → Nat → RouteBuild → RouteBuild
  | [], _, b => b
  | rule :: rules, idx, b => addAll rx rules (idx + 1) (b.add rx rule idx)

/-- `RouteIndex` without its cache. -/
structure RouteIndex where
  matchEntries : List MatchEntry
  catchAllIdx : Option Nat
  needsRuleset : Bool
  constantRoute : Option (Option Nat)
  tagNames : List Str
  numTags : Nat
  routeCacheCapacity : Nat

def routeCacheMinCapacity : Nat := 4096

namespace RouteIndex

def build (rx : RegexCrate) (rules : List Rule) (dnsCacheCapacity : Nat) : RouteIndex :=
  let b := RouteBuild.addAll rx rules 0 ⟨.empty, [], none⟩
  { matchEntries := b.matchEntries
    catchAllIdx := b.catchAllIdx
    needsRuleset := b.matchEntries.any (fun e => !e.tags.isEmpty)
    constantRoute :=
      if b.catchAllIdx = some 0 ∨ b.matchEntries.isEmpty then some b.catchAllIdx else none
    tagNames := b.interner.names
    numTags := b.interner.names.length
    routeCacheCapacity := max dnsCacheCapacity routeCacheMinCapacity }

end RouteIndex

/-! ### Routing -/

/-- `memo.check(rs, id, &tag_names[id as usize], qname)`. -/
def checkTag (rs : RuleSetDb) (tagNames : List Str) (qname : Str) (memo : TagMemo) (id : UInt16) :
    Checked (Bool × TagMemo) :=
  match tagNames[id.toNat]? with
  | none => .error .index
  | some name => .ok (memo.check rs id name qname)

def tagGroupMatches (rs : RuleSetDb) (tagNames : List Str) (qname : Str) (memo : TagMemo)
    (group : TagGroup) : Checked (Bool × TagMemo) :=
  let matchPositive :=
    if group.includeIds.isEmpty then .ok (true, memo)
    else anyThreaded (checkTag rs tagNames qname) group.includeIds memo
  match matchPositive with
  | .error e => .error e
  | .ok (false, memo) => .ok (false, memo)
  | .ok (true, memo) =>
    match anyThreaded (checkTag rs tagNames qname) group.excludeIds memo with
    | .error e => .error e
    | .ok (excluded, memo) => .ok (!excluded, memo)

def matchEntryMatches (entry : MatchEntry) (qname : Str) (ruleset : Option RuleSetDb)
    (memo : TagMemo) (tagNames : List Str) : Checked (Bool × TagMemo) :=
  if entry.domains.hits qname then .ok (true, memo)
  else
    match ruleset with
    | none => .ok (false, memo)
    | some rs => anyThreaded (tagGroupMatches rs tagNames qname) entry.tags memo

/-- The loop of `route_index_uncached`. -/
def routeLoop (catchAll : Nat) (qname : Str) (ruleset : Option RuleSetDb) (tagNames : List Str) :
    List MatchEntry → TagMemo → Checked Nat
  | [], _ => .ok catchAll
  | entry :: entries, memo =>
    if catchAll < entry.ruleIdx then .ok catchAll
    else
      match matchEntryMatches entry qname ruleset memo tagNames with
      | .error e => .error e
      | .ok (true, _) => .ok entry.ruleIdx
      | .ok (false, memo) => routeLoop catchAll qname ruleset tagNames entries memo

/-- The route cache: names to rule indices, `usizeMax` for no rule. -/
abbrev RouteCache := AList (fun _ : Str => Nat)

namespace RouteIndex

def routeIndexUncached (self : RouteIndex) (qname : Str) (ruleset : Option RuleSetDb)
    (memo : TagMemo) : Checked Nat :=
  let catchAll := self.catchAllIdx.getD usizeMax
  if self.matchEntries.isEmpty then .ok catchAll
  else routeLoop catchAll qname ruleset self.tagNames self.matchEntries memo

/-- `RouteIndex::route`, with the route cache before and after the call. -/
def route (self : RouteIndex) (rules : List Rule) (qname : Str) (ruleset : Option RuleSetDb)
    (cache : RouteCache) : Checked (Option Rule × RouteCache) :=
  match self.constantRoute with
  | some constant => .ok (constant.bind (rules[·]?), cache)
  | none =>
    let useCache := ruleset.isSome || !self.needsRuleset
    match if useCache then cache.lookup qname else none with
    | some idx => .ok (if idx = usizeMax then none else rules[idx]?, cache)
    | none =>
      match self.routeIndexUncached qname ruleset (BitMemo.new 64 self.numTags) with
      | .error e => .error e
      | .ok idx => .ok (rules[idx]?, if useCache then cache.insert qname idx else cache)

/-- One event in the life of the index: a call, or the route cache forgetting a name. -/
inductive Event where
  | call (qname : Str)
  | evict (qname : Str)

/-- The answers to the calls of a run, and the cache after it. -/
def run (self : RouteIndex) (rules : List Rule) (ruleset : Option RuleSetDb) :
    List Event → RouteCache → Checked (List (Option Rule) × RouteCache)
  | [], cache => .ok ([], cache)
  | .evict qname :: events, cache => self.run rules ruleset events (cache.erase qname)
  | .call qname :: events, cache =>
    match self.route rules qname ruleset cache with
    | .error e => .error e
    | .ok (answer, cache) =>
      match self.run rules ruleset events cache with
      | .error e => .error e
      | .ok (answers, cache) => .ok (answer :: answers, cache)

/-- The names of the calls of a run. -/
def calls (events : List Event) : List Str :=
  events.filterMap (fun e => match e with
    | .call qname => some qname
    | .evict _ => none)

end RouteIndex

end PathDns
