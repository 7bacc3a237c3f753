import Mathlib.Data.Finite.Defs
import Mathlib.Data.Set.Finite.Basic
import Mathlib.Data.List.AList
import Mathlib.Logic.Relation
import Mathlib.Order.WellFounded
import Mathlib.Order.Preorder.Finite
import PathDns.Config.UpstreamUrl
import PathDns.Lib.Slots

/-!
# `route.servers` (`parse_servers` in `config/parse.rs`)

The entries are read one by one, their bootstrap references are checked, and then they are resolved in
passes: a server is parsed once every server it bootstraps from has its targets. The state of the passes
keeps, beside what the source has, which servers were parsed in which order and which names had targets
then.

Without a cycle of references some pending server needs no other one, which keeps the passes going
(`Acyclic`).
-/

namespace Acyclic

-- `r a b` says that `a` needs `b`
variable {α : Type} {r : α → α → Prop}

/-- No element needs itself along the relation. -/
def NoCycle (r : α → α → Prop) : Prop := ∀ a, ¬ Relation.TransGen r a a

/-- In a finite set some element needs no other one of the set. -/
theorem NoCycle.exists_ready (h : NoCycle r) {s : Set α} (hfinite : s.Finite) (hs : s.Nonempty) :
    ∃ a ∈ s, ∀ b ∈ s, ¬ r a b := by
  have : Finite s := hfinite
  have : IsTrans s (fun a b => Relation.TransGen r b a) := ⟨fun _ _ _ hab hbc => hbc.trans hab⟩
  have : Std.Irrefl (fun a b : s => Relation.TransGen r b a) := ⟨fun a => h a⟩
  have hwf : WellFounded (fun a b : s => Relation.TransGen r b.1 a.1) :=
    Finite.wellFounded_of_trans_of_irrefl _
  obtain ⟨a, ha⟩ := hs
  obtain ⟨m, -, hmin⟩ := hwf.has_min Set.univ ⟨⟨a, ha⟩, trivial⟩
  exact ⟨m, m.2, fun b hb hab => hmin ⟨b, hb⟩ trivial (.single hab)⟩

theorem not_transGen_self_of_acc {a : α} (h : Acc (fun x y => r y x) a) : ¬ Relation.TransGen r a a := by
  have hacc := h.transGen
  induction hacc with
  | intro x _ ih =>
    intro hcycle
    have hswap : Relation.TransGen (fun x y => r y x) x x := Relation.transGen_swap.mpr hcycle
    exact ih x hswap (h.inv_of_transGen hswap) hcycle

/-- With the needed elements in front of it, each element of a list goes down only finitely often. -/
theorem acc_of_order {order : List α}
    (h : ∀ front a back, order = front ++ a :: back → ∀ b, r a b → b ∈ front) :
    ∀ a ∈ order, Acc (fun x y => r y x) a := by
  induction order using List.reverseRecOn with
  | nil => simp
  | append_singleton init last ih =>
    have hinit : ∀ a ∈ init, Acc (fun x y => r y x) a := by
      apply ih
      intro front a back heq b hab
      exact h front a (back ++ [last]) (by rw [heq]; simp) b hab
    intro a ha
    rcases List.mem_append.mp ha with ha | ha
    · exact hinit a ha
    · rw [List.mem_singleton.mp ha]
      exact ⟨_, fun b hb => hinit b (h init last [] rfl b hb)⟩

end Acyclic

namespace PathDns

namespace Servers

open Acyclic Fallible

/-- A JSON value of `route.servers`, as far as the parser tells them apart: `none` is an array element that
is not a string. -/
inductive ServerValue where
  | string (s : Str)
  | array (items : List (Option Str))
  | other

structure Pending where
  name : Str
  urls : List Str
  isFixed : Bool
  deps : List Str

local instance lawfulNames : LawfulBEq Str := inferInstance

/-! ### Reading the entries -/

def serverUrls (name : Str) : ServerValue → Except Chain (List Str)
  | .string s => .ok [s]
  | .array items =>
    let shown := String.ofList name
    items.mapM (fun item =>
      item.elim (.error [s!"route.servers.{shown}: array values must be strings"]) .ok)
  | .other =>
    let shown := String.ofList name
    .error [s!"route.servers.{shown}: must be a URL string or an array of URL strings"]

/-- The names that the URLs of a real upstream refer to. -/
def references (urls : List Str) : List Str :=
  urls.filterMap (fun u => (bootstrapRef u).map Str.trim)

/-- One entry of the first loop; `seen` are the names before it. -/
def readServer (seen : List Str) (key : Str) (value : ServerValue) : Except Chain Pending := do
  let name := Str.trim key
  let shown := String.ofList name
  if name.isEmpty then .error ["route.servers: server name cannot be empty"]
  if name ∈ seen then .error [s!"route.servers: duplicate server name '{shown}'"]
  let urls ← serverUrls name value
  if urls.isEmpty then .error [s!"route.servers.{shown}: requires at least one upstream URL"]
  let fixedCount := urls.countP isFixedAnswerUrl
  if fixedCount = 0 then .ok ⟨name, urls, false, references urls⟩
  else if fixedCount = urls.length then .ok ⟨name, urls, true, []⟩
  else
    .error [s!"route.servers.{shown}: cannot mix a fixed answer (A://, AAAA://, RCODE://) with a real " ++
      "upstream URL"]

/-- The first loop. -/
def readServers : List (Str × ServerValue) → (seen : List Str) → Except Chain (List Pending)
  | [], _ => .ok []
  | (key, value) :: rest, seen => do
    let p ← readServer seen key value
    let ps ← readServers rest (seen ++ [p.name])
    .ok (p :: ps)

/-- The check of one reference. -/
def checkRef (pending : List Pending) (p : Pending) (dep : Str) : Except Chain Unit :=
  let shown := String.ofList p.name
  let shownDep := String.ofList dep
  if dep = p.name then .error [s!"route.servers.{shown}: ?bootstrap={shownDep} cannot reference itself"]
  else if dep ∉ pending.map (·.name) then
    .error [s!"route.servers.{shown}: ?bootstrap={shownDep}: no such route.servers entry"]
  else if dep ∈ (pending.filter (·.isFixed)).map (·.name) then
    .error [s!"route.servers.{shown}: ?bootstrap={shownDep} must reference a real upstream, not a " ++
      "fixed-answer server"]
  else .ok ()

/-- The check of all references. -/
def checkRefs (pending : List Pending) : Except Chain Unit :=
  pending.forM (fun p => p.deps.forM (checkRef pending p))

/-! ### Resolving in passes -/

/-- The state of the passes, with the names of the servers parsed so far and, for each, the names that had
targets then. -/
structure ResolveState where
  resolved : List (Option ServerSpec)
  targets : AList (fun _ : Str => List BootstrapTarget)
  remaining : Nat
  progressed : Bool
  parsed : List (Str × List Str)

namespace ResolveState

def start (n : Nat) : ResolveState := ⟨List.replicate n none, ∅, n, false, []⟩

/-- The server in the slot has been resolved. -/
def Resolved (st : ResolveState) (i : Nat) : Prop := ∃ spec, st.resolved[i]? = some (some spec)

instance (st : ResolveState) (i : Nat) : Decidable (st.Resolved i) :=
  match h : st.resolved[i]? with
  | some (some spec) => .isTrue ⟨spec, h⟩
  | some none => .isFalse (fun ⟨_, h'⟩ => by rw [h] at h'; simp at h')
  | none => .isFalse (fun ⟨_, h'⟩ => by rw [h] at h'; simp at h')

/-- Every server that `p` bootstraps from has its targets. -/
def Ready (st : ResolveState) (p : Pending) : Prop := ∀ d ∈ p.deps, (st.targets.lookup d).isSome

instance (st : ResolveState) (p : Pending) : Decidable (st.Ready p) :=
  inferInstanceAs (Decidable (∀ d ∈ p.deps, (st.targets.lookup d).isSome))

end ResolveState

/-- The URLs of an entry, with the targets of the servers resolved before. -/
def parsePending (query : BootstrapQuery) (targets : AList (fun _ : Str => List BootstrapTarget))
    (p : Pending) : Except Chain ServerSpec :=
  let shown := String.ofList p.name
  if p.isFixed then (parseFixedAnswerSet p.name p.urls).map .fixed
  else
    (withContext s!"route.servers.{shown}"
      (parseUpstreams query p.urls (fun name => .ok ((targets.lookup name).getD [])))).map .upstream

/-- The targets a resolved server adds: those of its endpoints, none for a fixed answer. -/
def addTargets (targets : AList (fun _ : Str => List BootstrapTarget)) (name : Str) :
    ServerSpec → AList (fun _ : Str => List BootstrapTarget)
  | .upstream endpoints => targets.insert name (endpoints.map (fun e => ⟨e.addr, e.mark⟩))
  | .fixed _ => targets

/-- One server of a pass, and the error that ends the parse if there is one. -/
def visit (query : BootstrapQuery) (st : ResolveState) (i : Nat) (p : Pending) :
    ResolveState × Option Chain :=
  if st.Resolved i then (st, none)
  else if ¬ st.Ready p then (st, none)
  else
    let parsed := st.parsed ++ [(p.name, st.targets.keys)]
    match parsePending query st.targets p with
    | .error e => ({ st with parsed := parsed }, some e)
    | .ok spec =>
      ({ resolved := st.resolved.set i (some spec)
         targets := addTargets st.targets p.name spec
         remaining := st.remaining - 1
         progressed := true
         parsed := parsed }, none)

/-- The servers of a pass from slot `i` on. -/
def pass (query : BootstrapQuery) : ResolveState → (i : Nat) → List Pending → ResolveState × Option Chain
  | st, _, [] => (st, none)
  | st, i, p :: ps =>
    match visit query st i p with
    | (st', none) => pass query st' (i + 1) ps
    | (st', some e) => (st', some e)

/-- The error of a pass without progress. -/
def cycleError (pending : List Pending) (st : ResolveState) : Chain :=
  let stuck := (pending.zip st.resolved).filterMap (fun ps => if ps.2.isNone then some ps.1.name else none)
  let shown := String.ofList ([',', ' '].intercalate stuck)
  [s!"route.servers: ?bootstrap reference cycle among: {shown}"]

/-- The `while` loop; `none` when the fuel is used up. -/
def resolveLoop (query : BootstrapQuery) (pending : List Pending) :
    Nat → ResolveState → Option (ResolveState × Option Chain)
  | fuel, st =>
    if st.remaining = 0 then some (st, none)
    else
      match fuel with
      | 0 => none
      | fuel + 1 =>
        match pass query { st with progressed := false } 0 pending with
        | (st', some e) => some (st', some e)
        | (st', none) =>
          if st'.progressed then resolveLoop query pending fuel st'
          else some (st', some (cycleError pending st'))

/-- The list that is returned. -/
def emit (pending : List Pending) (st : ResolveState) : List (Str × ServerSpec) :=
  (pending.zip st.resolved).filterMap (fun ps => ps.2.map (fun spec => (ps.1.name, spec)))

/-- The second phase on the entries that were read, when their references pass the check. -/
def resolveServers (query : BootstrapQuery) (pending : List Pending) :
    Option (ResolveState × Option Chain) :=
  resolveLoop query pending pending.length (.start pending.length)

/-- `parse_servers`; `none` stands for a loop that has not ended. -/
def parseServers (query : BootstrapQuery) (servers : List (Str × ServerValue)) :
    Option (Except Chain (List (Str × ServerSpec))) :=
  match readServers servers [] with
  | .error e => some (.error e)
  | .ok pending =>
    match checkRefs pending with
    | .error e => some (.error e)
    | .ok () =>
      (resolveServers query pending).map (fun r =>
        match r.2 with
        | some e => .error e
        | none => .ok (emit pending r.1))

/-! ### What a visit does -/

/-- The cases of a visit. -/
inductive Visit (query : BootstrapQuery) (st : ResolveState) (i : Nat) (p : Pending) :
    ResolveState → Option Chain → Prop
  | skip (h : st.Resolved i ∨ ¬ st.Ready p) : Visit query st i p st none
  | fail (e : Chain) (hopen : ¬ st.Resolved i) (hready : st.Ready p)
      (hparse : parsePending query st.targets p = .error e) :
      Visit query st i p { st with parsed := st.parsed ++ [(p.name, st.targets.keys)] } (some e)
  | done (spec : ServerSpec) (hopen : ¬ st.Resolved i) (hready : st.Ready p)
      (hparse : parsePending query st.targets p = .ok spec) :
      Visit query st i p
        { resolved := st.resolved.set i (some spec)
          targets := addTargets st.targets p.name spec
          remaining := st.remaining - 1
          progressed := true
          parsed := st.parsed ++ [(p.name, st.targets.keys)] } none

theorem visit_cases {query : BootstrapQuery} {st st' : ResolveState} {i : Nat} {p : Pending}
    {err : Option Chain} (h : visit query st i p = (st', err)) : Visit query st i p st' err := by
  revert h
  fun_cases visit query st i p <;> rintro ⟨⟩
  case case1 hres => exact .skip (.inl hres)
  case case2 hready => exact .skip (.inr hready)
  case case3 hres hready _ e hparse => exact .fail e hres (not_not.mp hready) hparse
  case case4 hres hready _ spec hparse => exact .done spec hres (not_not.mp hready) hparse

variable {query : BootstrapQuery} {lookup : Str → Except Chain (List BootstrapTarget)}
   {endpoints : List UpstreamEndpoint}

theorem parseUpstreams_ne_nil {urls : List Str} (h : parseUpstreams query urls lookup = .ok endpoints) :
    endpoints ≠ [] := by
  rw [parseUpstreams] at h
  obtain ⟨outs, -, h⟩ := bind_eq_ok_iff.mp h
  split_ifs at h with hempty
  cases h
  simpa using hempty

/-- A server that is parsed to endpoints is no fixed answer and has some; one that is parsed to a fixed
answer is one. -/
theorem parsePending_kind {targets : AList (fun _ : Str => List BootstrapTarget)} {p : Pending}
    {spec : ServerSpec} (h : parsePending query targets p = .ok spec) :
    (∃ set, spec = .fixed set ∧ p.isFixed = true) ∨
      ∃ endpoints, spec = .upstream endpoints ∧ p.isFixed = false ∧ endpoints ≠ [] := by
  rw [parsePending] at h
  split_ifs at h with hfixed
  · obtain ⟨set, -, rfl⟩ := map_eq_ok_iff.mp h
    exact .inl ⟨set, rfl, hfixed⟩
  · obtain ⟨out, hout, rfl⟩ := map_eq_ok_iff.mp h
    exact .inr ⟨out, rfl, by simpa using hfixed, parseUpstreams_ne_nil (withContext_eq_ok.mp hout)⟩

/-! ### What holds along the passes -/

/-- What the state says of the servers. -/
structure Inv (pending : List Pending) (st : ResolveState) : Prop where
  length : st.resolved.length = pending.length
  count : st.remaining = st.resolved.countP Option.isNone
  target : ∀ d ts, st.targets.lookup d = some ts →
    ts ≠ [] ∧ ∃ j p, pending[j]? = some p ∧ p.name = d ∧ st.Resolved j
  upstream : ∀ j p, pending[j]? = some p → p.isFixed = false → st.Resolved j →
    (st.targets.lookup p.name).isSome
  logged : ∀ j p, pending[j]? = some p → st.Resolved j → p.name ∈ st.parsed.map Prod.fst
  before : ∀ front ev back, st.parsed = front ++ ev :: back → ∀ d ∈ ev.2, d ∈ front.map Prod.fst
  ready : ∀ ev ∈ st.parsed, ∃ p ∈ pending, p.name = ev.1 ∧ ∀ d ∈ p.deps, d ∈ ev.2

section Passes

variable {query : BootstrapQuery} {pending : List Pending}

theorem inv_start (pending : List Pending) : Inv pending (.start pending.length) where
  length := List.length_replicate
  count := by simp [ResolveState.start, List.countP_replicate]
  target := by simp [ResolveState.start]
  upstream := by
    rintro j p - - ⟨spec, h⟩
    simp [ResolveState.start, List.getElem?_replicate] at h
  logged := by
    rintro j p - ⟨spec, h⟩
    simp [ResolveState.start, List.getElem?_replicate] at h
  before := by simp [ResolveState.start]
  ready := by simp [ResolveState.start]

variable {st st' : ResolveState} {i : Nat}

theorem resolved_set {j : Nat} {spec : ServerSpec} (hst : st'.resolved = st.resolved.set i (some spec))
    (hi : i < st.resolved.length) : st'.Resolved j ↔ j = i ∨ st.Resolved j := by
  simp only [ResolveState.Resolved, hst, List.getElem?_set]
  by_cases hij : i = j
  · subst hij
    simp [hi]
  · simp [hij, Ne.symm hij]

variable {targets : AList (fun _ : Str => List BootstrapTarget)}

theorem lookup_addTargets (name d : Str) (spec : ServerSpec) :
    (addTargets targets name spec).lookup d = targets.lookup d ∨ d = name ∧ ∃ endpoints,
      spec = .upstream endpoints ∧
        (addTargets targets name spec).lookup d = some (endpoints.map fun e => ⟨e.addr, e.mark⟩) := by
  cases spec with
  | fixed set => exact .inl rfl
  | upstream endpoints =>
    by_cases hd : d = name
    · subst hd
      exact .inr ⟨rfl, endpoints, rfl, AList.lookup_insert _⟩
    · exact .inl (AList.lookup_insert_ne hd)

variable {p : Pending}

theorem Inv.log (h : Inv pending st) (hp : pending[i]? = some p) (hready : st.Ready p) :
    (∀ front ev back, st.parsed ++ [(p.name, st.targets.keys)] = front ++ ev :: back →
      ∀ d ∈ ev.2, d ∈ front.map Prod.fst) ∧
    ∀ ev ∈ st.parsed ++ [(p.name, st.targets.keys)], ∃ q ∈ pending, q.name = ev.1 ∧
      ∀ d ∈ q.deps, d ∈ ev.2 := by
  constructor
  · intro front ev back heq d hd
    rcases Slots.split_concat heq with ⟨rfl, rfl⟩ | ⟨rest, hrest⟩
    · have hsome : (st.targets.lookup d).isSome := AList.lookup_isSome.mpr (AList.mem_keys.mpr hd)
      obtain ⟨ts, hts⟩ := Option.isSome_iff_exists.mp hsome
      obtain ⟨-, j, q, hj, rfl, hres⟩ := h.target d ts hts
      exact h.logged j q hj hres
    · exact h.before front ev rest hrest d hd
  · intro ev hev
    rcases List.mem_append.mp hev with hev | hev
    · exact h.ready ev hev
    · rw [List.mem_singleton.mp hev]
      refine ⟨p, List.mem_of_getElem? hp, rfl, ?_⟩
      intro d hd
      exact AList.mem_keys.mp (AList.lookup_isSome.mp (hready d hd))

theorem Inv.slot_open (h : Inv pending st) (hp : pending[i]? = some p) (hopen : ¬ st.Resolved i) :
    st.resolved[i]? = some none := by
  have hi : i < st.resolved.length := h.length ▸ Slots.lt_length hp
  rw [List.getElem?_eq_getElem hi]
  cases hslot : st.resolved[i] with
  | none => rfl
  | some spec => exact absurd ⟨spec, List.getElem?_eq_some_iff.mpr ⟨hi, hslot⟩⟩ hopen

theorem Inv.remaining_pos (h : Inv pending st) (hopen : none ∈ st.resolved) : 0 < st.remaining := by
  rw [h.count, List.countP_pos_iff]
  exact ⟨none, hopen, rfl⟩

theorem visit_inv {err : Option Chain} (h : Inv pending st) (hp : pending[i]? = some p)
    (hv : Visit query st i p st' err) : Inv pending st' := by
  cases hv with
  | skip _ => exact h
  | fail e hopen hready hparse =>
    obtain ⟨hbefore, hready⟩ := h.log hp hready
    exact { h with
      logged := fun j q hj hres => by
        rw [List.map_append]
        exact List.mem_append_left _ (h.logged j q hj hres)
      before := hbefore
      ready := hready }
  | done spec hopen hready hparse =>
    obtain ⟨hbefore, hready⟩ := h.log hp hready
    have hi : i < st.resolved.length := h.length ▸ Slots.lt_length hp
    have hslot := h.slot_open hp hopen
    have hres : ∀ j, (ResolveState.mk (st.resolved.set i (some spec)) (addTargets st.targets p.name spec)
        (st.remaining - 1) true (st.parsed ++ [(p.name, st.targets.keys)])).Resolved j ↔
          j = i ∨ st.Resolved j := fun j => resolved_set rfl hi
    exact {
      length := by rw [List.length_set, h.length]
      count := by
        have hdrop := Slots.countP_set_drop (p := Option.isNone) (a := some spec) hslot rfl rfl
        change st.remaining - 1 = (st.resolved.set i (some spec)).countP Option.isNone
        rw [h.count]
        omega
      target := by
        intro d ts hts
        rcases lookup_addTargets p.name d spec with hold | ⟨rfl, endpoints, rfl, hnew⟩
        · obtain ⟨hne, j, q, hj, hname, hold⟩ := h.target d ts (hold.symm.trans hts)
          exact ⟨hne, j, q, hj, hname, (hres j).mpr (.inr hold)⟩
        · obtain rfl := Option.some.inj (hnew.symm.trans hts)
          rcases parsePending_kind hparse with ⟨set, ⟨⟩, -⟩ | ⟨endpoints, ⟨⟩, -, hne⟩
          exact ⟨by simpa using hne, i, p, hp, rfl, (hres i).mpr (.inl rfl)⟩
      upstream := by
        intro j q hj hfixed hnew
        rcases (hres j).mp hnew with rfl | hold
        · obtain rfl := Option.some.inj (hp.symm.trans hj)
          rcases parsePending_kind hparse with ⟨set, -, hset⟩ | ⟨endpoints, rfl, -, -⟩
          · rw [hfixed] at hset
            cases hset
          · rw [addTargets, AList.lookup_insert]
            rfl
        · rcases lookup_addTargets p.name q.name spec with hsame | ⟨-, endpoints, -, hnew⟩
          · rw [hsame]
            exact h.upstream j q hj hfixed hold
          · rw [hnew]
            rfl
      logged := by
        intro j q hj hnew
        rw [List.map_append]
        rcases (hres j).mp hnew with rfl | hold
        · obtain rfl := Option.some.inj (hp.symm.trans hj)
          exact List.mem_append_right _ (by simp)
        · exact List.mem_append_left _ (h.logged j q hj hold)
      before := hbefore
      ready := hready }

variable {ps : List Pending}

theorem of_drop_cons (h : pending.drop i = p :: ps) :
    pending[i]? = some p ∧ pending.drop (i + 1) = ps := by
  constructor
  · rw [← Nat.add_zero i, ← List.getElem?_drop, h]
    rfl
  · rw [← List.drop_drop, h, List.drop_one, List.tail_cons]

theorem pass_inv (query : BootstrapQuery) (h : Inv pending st) (hps : pending.drop i = ps) :
    Inv pending (pass query st i ps).1 := by
  fun_induction pass query st i ps with
  | case1 => exact h
  | case2 st i p ps st' hv ih =>
    obtain ⟨hp, hrest⟩ := of_drop_cons hps
    exact ih (visit_inv h hp (visit_cases hv)) hrest
  | case3 st i p ps st' e hv => exact visit_inv h (of_drop_cons hps).1 (visit_cases hv)

/-- A pass that ends without progress has changed nothing and found every open server not ready. -/
theorem pass_stuck (h : pass query st i ps = (st', none)) (hno : st'.progressed = false) :
    st' = st ∧ ∀ k p, ps[k]? = some p → st.Resolved (i + k) ∨ ¬ st.Ready p := by
  fun_induction pass query st i ps with
  | case1 =>
    cases h
    exact ⟨rfl, by simp⟩
  | case2 st i p ps st₁ hv ih =>
    obtain ⟨rfl, hrest⟩ := ih h
    cases visit_cases hv with
    | done spec _ _ _ => simp at hno
    | skip hskip =>
      refine ⟨rfl, ?_⟩
      intro k q hk
      cases k with
      | zero =>
        obtain rfl := Option.some.inj hk
        exact hskip
      | succ k =>
        rw [Nat.add_comm k 1, ← Nat.add_assoc]
        exact hrest k q hk
  | case3 => cases h

theorem pass_remaining (query : BootstrapQuery) (h : Inv pending st) (hps : pending.drop i = ps) :
    (pass query st i ps).1.remaining ≤ st.remaining ∧
      ((pass query st i ps).1.progressed = true →
        st.progressed = true ∨ (pass query st i ps).1.remaining < st.remaining) := by
  fun_induction pass query st i ps with
  | case1 => exact ⟨le_refl _, .inl⟩
  | case2 st i p ps st₁ hv ih =>
    obtain ⟨hp, hrest⟩ := of_drop_cons hps
    have hvisit := visit_cases hv
    have ih := ih (visit_inv h hp hvisit) hrest
    cases hvisit with
    | skip _ => exact ih
    | done spec hopen _ _ =>
      have hpos := h.remaining_pos (List.mem_of_getElem? (h.slot_open hp hopen))
      have hle := ih.1
      simp only at hle
      exact ⟨by omega, fun _ => .inr (by omega)⟩
  | case3 st i p ps st₁ e hv =>
    cases visit_cases hv with
    | fail => exact ⟨le_refl _, .inl⟩

/-- Whatever addresses the servers it bootstraps from have, each entry can be parsed. -/
def Parses (query : BootstrapQuery) (pending : List Pending) : Prop :=
  ∀ p ∈ pending, ∀ targets : AList (fun _ : Str => List BootstrapTarget),
    (∀ d ∈ p.deps, ∃ ts, targets.lookup d = some ts ∧ ts ≠ []) →
    ∃ spec, parsePending query targets p = .ok spec

theorem pass_ok (hparses : Parses query pending) (h : Inv pending st) (hps : pending.drop i = ps) :
    (pass query st i ps).2 = none := by
  fun_induction pass query st i ps with
  | case1 => rfl
  | case2 st i p ps st₁ hv ih =>
    obtain ⟨hp, hrest⟩ := of_drop_cons hps
    exact ih (visit_inv h hp (visit_cases hv)) hrest
  | case3 st i p ps st₁ e hv =>
    cases visit_cases hv with
    | fail _ hopen hready hparse =>
      have htargets : ∀ d ∈ p.deps, ∃ ts, st.targets.lookup d = some ts ∧ ts ≠ [] := by
        intro d hd
        obtain ⟨ts, hts⟩ := Option.isSome_iff_exists.mp (hready d hd)
        exact ⟨ts, hts, (h.target d ts hts).1⟩
      obtain ⟨spec, hspec⟩ := hparses p (List.mem_of_getElem? (of_drop_cons hps).1) st.targets htargets
      rw [hspec] at hparse
      cases hparse

/-- A state with open servers none of which is ready. -/
def Stuck (pending : List Pending) (st : ResolveState) : Prop :=
  st.remaining ≠ 0 ∧ ∀ i p, pending[i]? = some p → st.Resolved i ∨ ¬ st.Ready p

theorem Inv.restart (h : Inv pending st) : Inv pending { st with progressed := false } :=
  { h with }

theorem resolveLoop_inv {fuel : Nat} {err : Option Chain} (h : Inv pending st)
    (hloop : resolveLoop query pending fuel st = some (st', err)) : Inv pending st' := by
  revert hloop
  fun_induction resolveLoop query pending fuel st <;> intro hloop
  case case4 hp _ ih =>
    have hpass := pass_inv query h.restart List.drop_zero
    rw [hp] at hpass
    exact ih hpass hloop
  all_goals cases hloop
  case case1 => exact h
  case case3 hp | case5 hp _ =>
    have hpass := pass_inv query h.restart List.drop_zero
    rwa [hp] at hpass

/-- When every entry can be parsed, the loop ends: with all servers resolved, or with an error and the
open ones waiting for each other. -/
theorem resolveLoop_ends (hparses : Parses query pending) {fuel : Nat} (h : Inv pending st)
    (hfuel : st.remaining ≤ fuel) :
    ∃ st' err, resolveLoop query pending fuel st = some (st', err) ∧
      ((err = none ∧ st'.remaining = 0) ∨ ((∃ e, err = some e) ∧ Stuck pending st')) := by
  fun_induction resolveLoop query pending fuel st with
  | case1 fuel st hzero => exact ⟨st, none, rfl, .inl ⟨rfl, hzero⟩⟩
  | case2 st hzero => omega
  | case3 st hzero fuel st₁ e hp =>
    have hok := pass_ok hparses h.restart List.drop_zero
    rw [hp] at hok
    cases hok
  | case4 st hzero fuel st₁ hp hprog ih =>
    have hpass := pass_inv query h.restart List.drop_zero
    obtain ⟨-, hfewer⟩ := pass_remaining query h.restart List.drop_zero
    rw [hp] at hpass hfewer
    have hlt : st₁.remaining < st.remaining := (hfewer hprog).resolve_left (by simp)
    exact ih hpass (by omega)
  | case5 st hzero fuel st₁ hp hprog =>
    obtain ⟨rfl, hstuck⟩ := pass_stuck hp (by simpa using hprog)
    refine ⟨_, _, rfl, .inr ⟨⟨_, rfl⟩, hzero, ?_⟩⟩
    intro i p hi
    have := hstuck i p hi
    rwa [Nat.zero_add] at this

/-! ### Order and cycles -/

/-- The server named `a` bootstraps from the one named `b`. -/
def Needs (pending : List Pending) (a b : Str) : Prop := ∃ p ∈ pending, p.name = a ∧ b ∈ p.deps

theorem Inv.all_resolved (h : Inv pending st) (hzero : st.remaining = 0) (hp : pending[i]? = some p) :
    st.Resolved i := by
  by_contra hopen
  exact absurd (h.remaining_pos (List.mem_of_getElem? (h.slot_open hp hopen))) (by omega)

theorem eq_of_name (hnames : (pending.map Pending.name).Nodup) {q : Pending} (hp : p ∈ pending)
    (hq : q ∈ pending) (hname : p.name = q.name) : p = q :=
  List.inj_on_of_nodup_map hnames hp hq hname

theorem Inv.deps_before (hnames : (pending.map Pending.name).Nodup) (h : Inv pending st)
    {front back : List (Str × List Str)} {ev : Str × List Str} (hsplit : st.parsed = front ++ ev :: back)
    {d : Str} (hd : Needs pending ev.1 d) : d ∈ ev.2 ∧ d ∈ front.map Prod.fst := by
  obtain ⟨p, hp, hname, hdep⟩ := hd
  obtain ⟨q, hq, hqname, hready⟩ := h.ready ev (by rw [hsplit]; simp)
  obtain rfl := eq_of_name hnames hp hq (hname.trans hqname.symm)
  exact ⟨hready d hdep, h.before front ev back hsplit d (hready d hdep)⟩

/-- When all servers are resolved, the order in which they were parsed leaves no cycle. -/
theorem Inv.noCycle (hnames : (pending.map Pending.name).Nodup) (h : Inv pending st)
    (hzero : st.remaining = 0) : NoCycle (Needs pending) := by
  have hacc : ∀ a ∈ st.parsed.map Prod.fst, Acc (fun x y => Needs pending y x) a := by
    apply acc_of_order
    intro front a back heq b hab
    obtain ⟨front', rest, hsplit, rfl, hrest⟩ := List.map_eq_append_iff.mp heq
    obtain ⟨ev, back', rfl, rfl, -⟩ := List.map_eq_cons_iff.mp hrest
    exact (h.deps_before hnames hsplit hab).2
  intro a hcycle
  -- a server on a cycle needs another one, so it is an entry, and all entries are in the log
  obtain ⟨b, hab, -⟩ := Relation.TransGen.head'_iff.mp hcycle
  obtain ⟨p, hp, rfl, -⟩ := hab
  obtain ⟨i, hi⟩ := List.getElem?_of_mem hp
  have hmem := h.logged i p hi (h.all_resolved hzero hi)
  exact not_transGen_self_of_acc (hacc _ hmem) hcycle

/-- References that name real upstreams and have no cycle leave some open server ready. -/
theorem Inv.not_stuck (h : Inv pending st)
    (hvalid : ∀ a b, Needs pending a b → ∃ q ∈ pending, q.name = b ∧ q.isFixed = false)
    (hacyclic : NoCycle (Needs pending)) : ¬ Stuck pending st := by
  rintro ⟨hzero, hstuck⟩
  let waiting : Set Str := { a | ∃ i p, pending[i]? = some p ∧ p.name = a ∧ ¬ st.Resolved i }
  have hfinite : waiting.Finite := by
    refine (List.finite_toSet (pending.map Pending.name)).subset ?_
    rintro a ⟨i, p, hp, rfl, -⟩
    exact List.mem_map_of_mem (List.mem_of_getElem? hp)
  have hnonempty : waiting.Nonempty := by
    have hpos : 0 < st.resolved.countP Option.isNone := by
      rw [← h.count]
      omega
    obtain ⟨o, hmem, hnone⟩ := List.countP_pos_iff.mp hpos
    obtain ⟨i, hi⟩ := List.getElem?_of_mem hmem
    have hlt : i < pending.length := h.length ▸ Slots.lt_length hi
    refine ⟨_, i, pending[i], List.getElem?_eq_getElem hlt, rfl, ?_⟩
    rintro ⟨spec, hspec⟩
    rw [hi, Option.some.injEq] at hspec
    rw [hspec] at hnone
    simp at hnone
  obtain ⟨a, ⟨i, p, hp, rfl, hopen⟩, hmin⟩ := hacyclic.exists_ready hfinite hnonempty
  refine (hstuck i p hp).elim hopen (fun hnot => hnot ?_)
  intro d hd
  have hneeds : Needs pending p.name d := ⟨p, List.mem_of_getElem? hp, rfl, hd⟩
  obtain ⟨q, hq, rfl, hfixed⟩ := hvalid _ _ hneeds
  obtain ⟨j, hj⟩ := List.getElem?_of_mem hq
  have hres : st.Resolved j := by
    by_contra hwait
    exact hmin q.name ⟨j, q, hj, rfl, hwait⟩ hneeds
  exact h.upstream j q hj hfixed hres

/-- What is returned when all servers are resolved: every entry, in the order of the entries. -/
theorem Inv.emit_names (h : Inv pending st) (hzero : st.remaining = 0) :
    (emit pending st).map Prod.fst = pending.map Pending.name := by
  have hall : ∀ o ∈ st.resolved, o.isSome = true := by
    rintro (_ | spec) ho
    · exact absurd (h.remaining_pos ho) (by omega)
    · rfl
  have hlength := h.length
  rw [emit]
  generalize st.resolved = resolved at hall hlength
  clear h
  induction pending generalizing resolved with
  | nil => rfl
  | cons p ps ih =>
    cases resolved with
    | nil => simp at hlength
    | cons o os =>
      obtain ⟨spec, rfl⟩ := Option.isSome_iff_exists.mp (hall o List.mem_cons_self)
      simp only [List.zip_cons_cons, List.filterMap_cons, Option.map_some, List.map_cons]
      rw [ih os (fun x hx => hall x (List.mem_cons_of_mem _ hx)) (by simpa using hlength)]

end Passes

/-! ### Entries that are well formed on their own -/

/-- The URLs of an entry, when it is a string or an array of strings. -/
def ServerValue.urls : ServerValue → Option (List Str)
  | .string s => some [s]
  | .array items => items.mapM id
  | .other => none

/-- Fixed answers that parse. -/
def FixedOk (name : Str) (urls : List Str) : Prop :=
  (∀ u ∈ urls, isFixedAnswerUrl u = true) ∧ ∃ set, parseFixedAnswerSet name urls = .ok set

/-- Upstreams with at most one bootstrap parameter each that parse and resolve, whatever addresses the
server they bootstrap from has. -/
def UpstreamOk (query : BootstrapQuery) (urls : List Str) : Prop :=
  ∀ u ∈ urls, isFixedAnswerUrl u = false ∧ (bootstrapValues u).length ≤ 1 ∧
    ∀ lookup : Str → Except Chain (List BootstrapTarget),
      (∀ name, lookedUp u = some name → ∃ ts, lookup name = .ok ts ∧ ts ≠ []) →
      ∃ endpoints, parseUpstream query u lookup = .ok endpoints

/-- Names that are not empty and distinct after trimming, and URL lists of one kind that parse. -/
structure WellFormed (query : BootstrapQuery) (servers : List (Str × ServerValue)) : Prop where
  named : ∀ s ∈ servers, Str.trim s.1 ≠ []
  distinct : (servers.map (fun s => Str.trim s.1)).Nodup
  entry : ∀ s ∈ servers, ∃ urls, s.2.urls = some urls ∧ urls ≠ [] ∧
    (FixedOk (Str.trim s.1) urls ∨ UpstreamOk query urls)

/-- The entry is named `name` and its URLs are real upstreams. -/
def IsUpstream (servers : List (Str × ServerValue)) (name : Str) (urls : List Str) : Prop :=
  ∃ s ∈ servers, Str.trim s.1 = name ∧ s.2.urls = some urls ∧ ∀ u ∈ urls, isFixedAnswerUrl u = false

/-- The reference graph: a URL of the upstream `a` has the bootstrap parameter `b`. -/
def Refs (servers : List (Str × ServerValue)) (a b : Str) : Prop :=
  ∃ urls, IsUpstream servers a urls ∧ ∃ u ∈ urls, (bootstrapRef u).map Str.trim = some b

/-- What the first loop makes of an entry. -/
def pendingOf (s : Str × ServerValue) : Pending :=
  let urls := s.2.urls.getD []
  if urls.countP isFixedAnswerUrl = 0 then ⟨Str.trim s.1, urls, false, references urls⟩
  else ⟨Str.trim s.1, urls, true, []⟩

theorem name_pendingOf (s : Str × ServerValue) : (pendingOf s).name = Str.trim s.1 := by
  simp only [pendingOf]
  split_ifs <;> rfl

variable {s : Str × ServerValue}

theorem urls_pendingOf {urls : List Str} (h : s.2.urls = some urls) : (pendingOf s).urls = urls := by
  simp only [pendingOf, h]
  split_ifs <;> rfl

theorem countP_isFixed_eq_zero {urls : List Str} :
    urls.countP isFixedAnswerUrl = 0 ↔ ∀ u ∈ urls, isFixedAnswerUrl u = false := by
  simp [List.countP_eq_zero]

theorem serverUrls_of_urls {name : Str} {value : ServerValue} {urls : List Str}
    (h : value.urls = some urls) : serverUrls name value = .ok urls := by
  cases value with
  | string s =>
    obtain rfl := Option.some.inj h
    rfl
  | other => simp [ServerValue.urls] at h
  | array items =>
    simp only [ServerValue.urls] at h
    simp only [serverUrls]
    induction items generalizing urls with
    | nil =>
      obtain rfl := Option.some.inj h
      rfl
    | cons item items ih =>
      rw [List.mapM_cons] at h ⊢
      cases item with
      | none => simp at h
      | some u =>
        simp only [id, Option.bind_eq_bind, Option.bind_some] at h
        obtain ⟨us, hus, heq⟩ := Option.bind_eq_some_iff.mp h
        obtain rfl := Option.some.inj heq
        rw [ih hus]
        rfl

variable {seen : List Str}

theorem readServer_ok (hname : Str.trim s.1 ≠ []) (hseen : Str.trim s.1 ∉ seen)
    (hentry : ∃ urls, s.2.urls = some urls ∧ urls ≠ [] ∧ (FixedOk (Str.trim s.1) urls ∨ UpstreamOk query urls)) :
    readServer seen s.1 s.2 = .ok (pendingOf s) := by
  obtain ⟨urls, hurls, hne, hkind⟩ := hentry
  rw [readServer, serverUrls_of_urls hurls]
  simp only [pendingOf, hurls, Option.getD_some]
  by_cases hzero : urls.countP isFixedAnswerUrl = 0
  · simp [hname, hseen, hne, hzero, bind, Except.bind]
  · have hall : urls.countP isFixedAnswerUrl = urls.length := by
      rcases hkind with hfixed | hup
      · exact List.countP_eq_length.mpr hfixed.1
      · exact absurd (countP_isFixed_eq_zero.mpr (fun u hu => (hup u hu).1)) hzero
    have hlen : urls.length ≠ 0 := hall ▸ hzero
    simp [hname, hseen, hne, hall, bind, Except.bind]

variable {servers : List (Str × ServerValue)}

theorem readServers_ok (h : WellFormed query servers) (hseen : ∀ s ∈ servers, Str.trim s.1 ∉ seen) :
    readServers servers seen = .ok (servers.map pendingOf) := by
  induction servers generalizing seen with
  | nil => rfl
  | cons s rest ih =>
    obtain ⟨hnotin, hdistinct⟩ := List.nodup_cons.mp h.distinct
    have hrest : WellFormed query rest := {
      named := fun t ht => h.named t (List.mem_cons_of_mem s ht)
      distinct := hdistinct
      entry := fun t ht => h.entry t (List.mem_cons_of_mem s ht) }
    have hread := readServer_ok (h.named s List.mem_cons_self) (hseen s List.mem_cons_self)
      (h.entry s List.mem_cons_self)
    have hseen' : ∀ t ∈ rest, Str.trim t.1 ∉ seen ++ [(pendingOf s).name] := by
      intro t ht hmem
      rcases List.mem_append.mp hmem with hmem | hmem
      · exact hseen t (List.mem_cons_of_mem s ht) hmem
      · rw [List.mem_singleton, name_pendingOf] at hmem
        exact hnotin (List.mem_map.mpr ⟨t, ht, hmem⟩)
    rw [readServers, hread]
    simp only [bind, Except.bind, ih hrest hseen', List.map_cons]

theorem parseUpstream_ne_nil {url : Str} (h : parseUpstream query url lookup = .ok endpoints) :
    endpoints ≠ [] := by
  have hone : ∀ r : Except Chain UpstreamEndpoint, r.map ([·]) = .ok endpoints → endpoints ≠ [] := by
    intro r hr
    obtain ⟨e, -, rfl⟩ := map_eq_ok_iff.mp hr
    simp
  rw [parseUpstream] at h
  obtain ⟨found, -, h⟩ := bind_eq_ok_iff.mp h
  cases found with
  | none => exact hone _ h
  | some head =>
    dsimp only at h
    split at h
    all_goals
      obtain ⟨targets, -, h⟩ := bind_eq_ok_iff.mp h
      exact hone _ h

/-- Entries that are well formed on their own can be parsed once their references have targets. -/
theorem parses_of_wellFormed (h : WellFormed query servers) : Parses query (servers.map pendingOf) := by
  intro p hp targets htargets
  obtain ⟨s, hs, rfl⟩ := List.mem_map.mp hp
  obtain ⟨urls, hurls, hne, hkind⟩ := h.entry s hs
  simp only [parsePending, urls_pendingOf hurls, name_pendingOf]
  rcases hkind with ⟨hfixed, set, hset⟩ | hup
  · have hcount : urls.countP isFixedAnswerUrl ≠ 0 := by
      rw [List.countP_eq_length.mpr hfixed]
      exact fun hlen => hne (List.length_eq_zero_iff.mp hlen)
    have hflag : (pendingOf s).isFixed = true := by simp [pendingOf, hurls, hcount]
    rw [if_pos hflag, hset]
    exact ⟨.fixed set, rfl⟩
  · have hcount := countP_isFixed_eq_zero.mpr (fun u hu => (hup u hu).1)
    have hflag : (pendingOf s).isFixed = false := by simp [pendingOf, hurls, hcount]
    have hdeps : (pendingOf s).deps = references urls := by simp [pendingOf, hurls, hcount]
    -- the name that is looked up is the reference that was extracted, which has targets
    have hall : ∀ u ∈ urls, ∃ endpoints,
        parseUpstream query u (fun name => .ok ((targets.lookup name).getD [])) = .ok endpoints := by
      intro u hu
      obtain ⟨-, hone, hparse⟩ := hup u hu
      apply hparse
      intro name hname
      have href := BootstrapAgrees.of_length_le hone name hname
      obtain ⟨ts, hts, hne⟩ := htargets name (by
        rw [hdeps, references, List.mem_filterMap]
        exact ⟨u, hu, href⟩)
      exact ⟨ts, by rw [hts]; rfl, hne⟩
    obtain ⟨outs, houts⟩ := exists_mapM hall
    have hflat : outs.flatten.isEmpty = false := by
      cases mapM_eq_ok_iff.mp houts with
      | nil => exact absurd rfl hne
      | cons hfirst _ =>
        have := parseUpstream_ne_nil hfirst
        simp [this]
    rw [if_neg (by simp [hflag]), parseUpstreams, houts]
    simp only [bind, Except.bind, hflat, Bool.false_eq_true, if_false]
    exact ⟨_, rfl⟩

theorem checkRefs_ok_iff {pending : List Pending} (hnames : (pending.map Pending.name).Nodup) :
    checkRefs pending = .ok () ↔ ∀ a b, Needs pending a b →
      b ≠ a ∧ ∃ q ∈ pending, q.name = b ∧ q.isFixed = false := by
  have hcheck : ∀ p dep, checkRef pending p dep = .ok () ↔ dep ≠ p.name ∧
      dep ∈ pending.map (·.name) ∧ dep ∉ (pending.filter (·.isFixed)).map (·.name) := by
    intro p dep
    fun_cases checkRef pending p dep <;> simp_all
  have hreal : ∀ dep, dep ∈ pending.map (·.name) ∧ dep ∉ (pending.filter (·.isFixed)).map (·.name) ↔
      ∃ q ∈ pending, q.name = dep ∧ q.isFixed = false := by
    intro dep
    constructor
    · rintro ⟨hnamed, hfixed⟩
      obtain ⟨q, hq, rfl⟩ := List.mem_map.mp hnamed
      refine ⟨q, hq, rfl, ?_⟩
      by_contra hyes
      exact hfixed (List.mem_map_of_mem (List.mem_filter.mpr ⟨hq, by simpa using hyes⟩))
    · rintro ⟨q, hq, rfl, hno⟩
      refine ⟨List.mem_map_of_mem hq, fun hfixed => ?_⟩
      obtain ⟨q', hq', hname⟩ := List.mem_map.mp hfixed
      obtain ⟨hmem, hyes⟩ := List.mem_filter.mp hq'
      obtain rfl := eq_of_name hnames hmem hq hname
      simp [hno] at hyes
  simp only [checkRefs, forM_eq_ok_iff, hcheck, hreal]
  constructor
  · rintro h a b ⟨p, hp, rfl, hb⟩
    exact h p hp b hb
  · intro h p hp dep hdep
    exact h p.name dep ⟨p, hp, rfl, hdep⟩

/-! ### The whole parse -/

theorem isFixed_pendingOf {urls : List Str} (h : s.2.urls = some urls) :
    (pendingOf s).isFixed = false ↔ ∀ u ∈ urls, isFixedAnswerUrl u = false := by
  rw [← countP_isFixed_eq_zero]
  simp only [pendingOf, h, Option.getD_some]
  split_ifs with hzero
  · simp [hzero]
  · simp [hzero]

theorem deps_pendingOf {urls : List Str} (h : s.2.urls = some urls) (b : Str) :
    b ∈ (pendingOf s).deps ↔ (∀ u ∈ urls, isFixedAnswerUrl u = false) ∧
      ∃ u ∈ urls, (bootstrapRef u).map Str.trim = some b := by
  rw [← countP_isFixed_eq_zero]
  simp only [pendingOf, h, Option.getD_some]
  split_ifs with hzero
  · simp [hzero, references]
  · simp [hzero]

theorem needs_iff_refs (h : WellFormed query servers) (a b : Str) :
    Needs (servers.map pendingOf) a b ↔ Refs servers a b := by
  constructor
  · rintro ⟨p, hp, hname, hb⟩
    obtain ⟨s, hs, rfl⟩ := List.mem_map.mp hp
    obtain ⟨urls, hurls, -, -⟩ := h.entry s hs
    obtain ⟨hup, href⟩ := (deps_pendingOf hurls b).mp hb
    rw [name_pendingOf] at hname
    exact ⟨urls, ⟨s, hs, hname, hurls, hup⟩, href⟩
  · rintro ⟨urls, ⟨s, hs, hname, hurls, hup⟩, href⟩
    exact ⟨pendingOf s, List.mem_map_of_mem hs, (name_pendingOf s).trans hname,
      (deps_pendingOf hurls b).mpr ⟨hup, href⟩⟩

theorem exists_upstream_iff (h : WellFormed query servers) (b : Str) :
    (∃ q ∈ servers.map pendingOf, q.name = b ∧ q.isFixed = false) ↔
      ∃ urls, IsUpstream servers b urls := by
  constructor
  · rintro ⟨q, hq, hname, hfixed⟩
    obtain ⟨s, hs, rfl⟩ := List.mem_map.mp hq
    obtain ⟨urls, hurls, -, -⟩ := h.entry s hs
    rw [name_pendingOf] at hname
    exact ⟨urls, s, hs, hname, hurls, (isFixed_pendingOf hurls).mp hfixed⟩
  · rintro ⟨urls, s, hs, hname, hurls, hup⟩
    exact ⟨pendingOf s, List.mem_map_of_mem hs, (name_pendingOf s).trans hname,
      (isFixed_pendingOf hurls).mpr hup⟩

/-- The state in which the passes of a parse end, if it comes to them. -/
def finalState (query : BootstrapQuery) (servers : List (Str × ServerValue)) : Option ResolveState :=
  match readServers servers [] with
  | .error _ => none
  | .ok pending =>
    match checkRefs pending with
    | .error _ => none
    | .ok () => (resolveServers query pending).map Prod.fst

/-- On entries that are well formed on their own the parse ends. It succeeds exactly when every reference
names another real upstream and the references have no cycle, it lists the servers in their order, and it
parses a server when those it refers to have their targets, after they were parsed. -/
theorem parseServers_exact {query : BootstrapQuery} {servers : List (Str × ServerValue)}
    (h : WellFormed query servers) :
    ∃ result, parseServers query servers = some result ∧
      ((∃ out, result = .ok out) ↔
        (∀ a b, Refs servers a b → b ≠ a ∧ ∃ urls, IsUpstream servers b urls) ∧
          NoCycle (Refs servers)) ∧
      (∀ out, result = .ok out → out.map Prod.fst = servers.map (fun s => Str.trim s.1)) ∧
      ∀ st, finalState query servers = some st → ∀ front ev back, st.parsed = front ++ ev :: back →
        ∀ b, Refs servers ev.1 b → b ∈ ev.2 ∧ b ∈ front.map Prod.fst := by
  have hread : readServers servers [] = .ok (servers.map pendingOf) := readServers_ok h (by simp)
  have hparses := parses_of_wellFormed h
  have hneeds := needs_iff_refs h
  have hup := exists_upstream_iff h
  have hpendingNames : (servers.map pendingOf).map Pending.name = servers.map (fun s => Str.trim s.1) := by
    rw [List.map_map]
    exact List.map_congr_left (fun s _ => name_pendingOf s)
  have hnodup : ((servers.map pendingOf).map Pending.name).Nodup := hpendingNames ▸ h.distinct
  have hcheck := checkRefs_ok_iff hnodup
  have hrefs : Needs (servers.map pendingOf) = Refs servers :=
    funext fun a => funext fun b => propext (hneeds a b)
  simp only [hrefs, hup] at hcheck
  rw [parseServers, finalState, hread]
  simp only
  generalize servers.map pendingOf = pending at *
  cases hrefsOk : checkRefs pending with
  | error e =>
    refine ⟨.error e, rfl, ?_, by simp, by simp⟩
    have hbad : ¬ ∀ a b, Refs servers a b → b ≠ a ∧ ∃ urls, IsUpstream servers b urls := by
      rw [← hcheck, hrefsOk]
      simp
    simp [hbad]
  | ok u =>
    have hvalid := hcheck.mp hrefsOk
    obtain ⟨st, err, hloop, hend⟩ := resolveLoop_ends hparses (inv_start pending) (le_refl pending.length)
    have hinv := resolveLoop_inv (inv_start pending) hloop
    have hrun : resolveServers query pending = some (st, err) := hloop
    have hneedsValid : ∀ a b, Needs pending a b → ∃ q ∈ pending, q.name = b ∧ q.isFixed = false := by
      intro a b hab
      exact (hup b).mpr (hvalid a b ((hneeds a b).mp hab)).2
    simp only [hrun, Option.map_some]
    refine ⟨_, rfl, ?_, ?_, ?_⟩
    · rcases hend with ⟨rfl, hzero⟩ | ⟨⟨e, rfl⟩, hstuck⟩
      · simp only [Except.ok.injEq, exists_eq', true_iff]
        exact ⟨hvalid, hrefs ▸ hinv.noCycle hnodup hzero⟩
      · simp only [reduceCtorEq, exists_false, false_iff]
        rintro ⟨-, hacyclic⟩
        exact hinv.not_stuck hneedsValid (hrefs ▸ hacyclic) hstuck
    · rcases hend with ⟨rfl, hzero⟩ | ⟨⟨e, rfl⟩, hstuck⟩
      · intro out hout
        obtain rfl := Except.ok.inj hout
        rw [hinv.emit_names hzero, hpendingNames]
      · simp
    · intro st' hst' front ev back hsplit b hb
      obtain rfl := Option.some.inj hst'
      exact hinv.deps_before hnodup hsplit (hrefs ▸ hb)

/-- Every bootstrap query is answered with the same address. -/
def sampleQuery : BootstrapQuery := fun _ _ _ _ => .ok (.v4 0xc0000235#32)

def samplePlain : Str := ['1', '9', '2', '.', '0', '.', '2', '.', '1']

def sampleHost : Str :=
  ['u', 'd', 'p', ':', '/', '/', 'n', 's', '?', 'b', 'o', 'o', 't', 's', 't', 'r', 'a', 'p', '=', 'a']

/-- An upstream with an address, and one with a host name that bootstraps from it. -/
def sampleServers : List (Str × ServerValue) :=
  [(['a'], .string samplePlain), (['b'], .array [some sampleHost])]

theorem parse_samplePlain (lookup : Str → Except Chain (List BootstrapTarget)) :
    ∃ endpoints, parseUpstream sampleQuery samplePlain lookup = .ok endpoints :=
  ⟨_, rfl⟩

theorem parse_sampleHost {t : BootstrapTarget} {ts : List BootstrapTarget} (h : lookup ['a'] = .ok (t :: ts)) :
    ∃ endpoints, parseUpstream sampleQuery sampleHost lookup = .ok endpoints := by
  have hname : lookedUp sampleHost = some ['a'] := by decide +kernel
  have hcongr : parseUpstream sampleQuery sampleHost lookup =
      parseUpstream sampleQuery sampleHost (fun _ => .ok (t :: ts)) := by
    apply parseUpstream_congr
    intro name hlooked
    rw [hname, Option.some.injEq] at hlooked
    rw [← hlooked, h]
  rw [hcongr]
  exact ⟨_, rfl⟩

theorem sampleServers_wellFormed : WellFormed sampleQuery sampleServers where
  named := by decide +kernel
  distinct := by decide +kernel
  entry := by
    intro s hs
    simp only [sampleServers, List.mem_cons, List.not_mem_nil, or_false] at hs
    rcases hs with rfl | rfl
    · refine ⟨[samplePlain], rfl, by simp, .inr ?_⟩
      intro u hu
      obtain rfl := List.mem_singleton.mp hu
      exact ⟨by decide +kernel, by decide +kernel, fun lookup _ => parse_samplePlain lookup⟩
    · refine ⟨[sampleHost], rfl, by simp, .inr ?_⟩
      intro u hu
      obtain rfl := List.mem_singleton.mp hu
      refine ⟨by decide +kernel, by decide +kernel, ?_⟩
      intro lookup hlookup
      obtain ⟨ts, hts, hne⟩ := hlookup ['a'] (by decide +kernel)
      obtain ⟨t, ts, rfl⟩ := List.exists_cons_of_ne_nil hne
      exact parse_sampleHost hts

theorem parseServers_exact_sample : WellFormed sampleQuery sampleServers ∧
    ∃ result, parseServers sampleQuery sampleServers = some result ∧
      ∀ out, result = .ok out → out.map Prod.fst = [['a'], ['b']] := by
  obtain ⟨result, hresult, -, hnames, -⟩ := parseServers_exact sampleServers_wellFormed
  refine ⟨sampleServers_wellFormed, result, hresult, ?_⟩
  intro out hout
  rw [hnames out hout]
  decide +kernel

/-! ### Which names are looked up -/

theorem readServer_spec {key : Str} {value : ServerValue} {p : Pending}
    (h : readServer seen key value = .ok p) :
    p.name ∉ seen ∧ (p.isFixed = false → p.deps = references p.urls) := by
  rw [readServer] at h
  simp only [bind, Except.bind] at h
  split_ifs at h with hempty hseen
  obtain ⟨urls, -, h⟩ := bind_eq_ok_iff.mp h
  split_ifs at h with hnone hzero hall
  · cases h
    exact ⟨hseen, fun _ => rfl⟩
  · cases h
    exact ⟨hseen, by simp⟩

theorem readServers_spec {pending : List Pending} (hseen : seen.Nodup)
    (h : readServers servers seen = .ok pending) :
    (seen ++ pending.map Pending.name).Nodup ∧
      ∀ p ∈ pending, p.isFixed = false → p.deps = references p.urls := by
  induction servers generalizing seen pending with
  | nil =>
    obtain rfl := Except.ok.inj h
    simpa using hseen
  | cons s rest ih =>
    rw [readServers] at h
    obtain ⟨p, hp, h⟩ := bind_eq_ok_iff.mp h
    obtain ⟨ps, hps, h⟩ := bind_eq_ok_iff.mp h
    cases h
    obtain ⟨hnew, hdeps⟩ := readServer_spec hp
    have hseen' : (seen ++ [p.name]).Nodup := by
      rw [List.nodup_append]
      refine ⟨hseen, List.nodup_singleton _, ?_⟩
      intro x hx y hy hxy
      rw [List.mem_singleton] at hy
      exact hnew (hy ▸ hxy ▸ hx)
    obtain ⟨hnames, hrest⟩ := ih hseen' hps
    rw [List.append_assoc] at hnames
    exact ⟨hnames, List.forall_mem_cons.mpr ⟨hdeps, hrest⟩⟩

/-- The name looked up for a URL is the one extracted for the check and the order exactly when its first
and last bootstrap parameter agree. Then, while its server is parsed, the name is that of another real
upstream and has its targets. -/
theorem bootstrap_lookup_iff (url : Str) :
    (BootstrapAgrees url ↔ RepeatsAgree url) ∧
    ∀ query servers pending st err, readServers servers [] = .ok pending →
      checkRefs pending = .ok () → resolveServers query pending = some (st, err) →
      ∀ ev ∈ st.parsed, ∀ p ∈ pending, p.name = ev.1 → p.isFixed = false →
      url ∈ p.urls → RepeatsAgree url → ∀ name, lookedUp url = some name →
        name ∈ ev.2 ∧ name ≠ p.name ∧ ∃ q ∈ pending, q.name = name ∧ q.isFixed = false := by
  refine ⟨bootstrapAgrees_iff_repeatsAgree url, ?_⟩
  intro query servers pending st err hread hcheck hrun ev hev p hp hname hfixed hurl hagree name hlooked
  obtain ⟨hnodup, hdeps⟩ := readServers_spec List.nodup_nil hread
  rw [List.nil_append] at hnodup
  have href := (bootstrapAgrees_iff_repeatsAgree url).mpr hagree name hlooked
  have hneeds : Needs pending p.name name := by
    refine ⟨p, hp, rfl, ?_⟩
    rw [hdeps p hp hfixed, references, List.mem_filterMap]
    exact ⟨url, hurl, href⟩
  have hinv := resolveLoop_inv (inv_start pending) hrun
  obtain ⟨front, back, hsplit⟩ := List.append_of_mem hev
  refine ⟨(hinv.deps_before hnodup hsplit (hname ▸ hneeds)).1, ?_⟩
  exact (checkRefs_ok_iff hnodup).mp hcheck p.name name hneeds

/-- A URL that names the bootstrap servers `a` and `z`. -/
def twiceUrl : Str :=
  ['u', 'd', 'p', ':', '/', '/', 'n', 's', '?', 'b', 'o', 'o', 't', 's', 't', 'r', 'a', 'p', '=', 'a',
    '&', 'b', 'o', 'o', 't', 's', 't', 'r', 'a', 'p', '=', 'z']

/-- The first of two bootstrap parameters is checked, and the last one, which names no server, is looked
up. -/
theorem last_bootstrap_unchecked :
    (bootstrapRef twiceUrl).map Str.trim = some ['a'] ∧ lookedUp twiceUrl = some ['z'] ∧
    (∃ pending, readServers [(['a'], .string samplePlain), (['b'], .string twiceUrl)] [] = .ok pending ∧
      checkRefs pending = .ok () ∧ ['z'] ∉ pending.map Pending.name) := by
  refine ⟨by decide +kernel, by decide +kernel, _, rfl, rfl, by decide +kernel⟩

end Servers

end PathDns
