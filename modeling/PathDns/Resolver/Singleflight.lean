import Mathlib.Algebra.Order.BigOperators.Group.List
import PathDns.Lib.Runs
import PathDns.Lib.Sharded
import PathDns.Lib.Slots
import PathDns.Cache.Key

/-!
# Singleflight (`singleflight.rs`, `exchange_with_dedupe`)

Queries with the same key share one exchange: the first leads, the others follow it. A query is known by
its number, which also stands for the channel a follower waits on. A step is what happens while one shard
is locked, one send on a channel, one move of a task between two awaits, or its end at one of them.

`Takes` says once what a step can do; `Consistent` is what every step keeps. A leader is live from the
moment it registers until it takes its followers out of the table, be it to publish or because it ends
without a result.
-/

namespace PathDns

open Bytes Runs

/-- How a leader ends for its followers. -/
inductive FlightOutcome where
  /-- `publish_bytes` -/
  | response (resp : Packet)
  /-- `publish_drop` -/
  | drop
  /-- the senders are dropped -/
  | unpublished
deriving DecidableEq, Repr

/-- An entry of the table: the followers that wait, and the query that made the entry. The source keeps
the followers only; the owner is for the proofs. -/
structure FlightEntry where
  owner : Nat
  waiters : List Nat
deriving DecidableEq, Repr

namespace Singleflight

/-- The number of shards. -/
abbrev SHARDS : Nat := 64

abbrev InflightTable := Sharded.Table CacheKey FlightEntry (Fin SHARDS)

/-- The index of the shard that owns a key. -/
def shardIndex (key : CacheKey) : Fin SHARDS :=
  ⟨key.toNat &&& (SHARDS - 1), Nat.lt_of_le_of_lt Nat.and_le_right (by decide)⟩

def InflightTable.get (table : InflightTable) (key : CacheKey) : Option FlightEntry :=
  Sharded.get shardIndex table key

def InflightTable.insert (table : InflightTable) (key : CacheKey) (flight : FlightEntry) : InflightTable :=
  Sharded.insert shardIndex table key flight

def InflightTable.remove (table : InflightTable) (key : CacheKey) : InflightTable :=
  Sharded.remove shardIndex table key

@[grind =] theorem InflightTable.get_insert (table : InflightTable) (key key' : CacheKey) (flight : FlightEntry) :
    (table.insert key flight).get key' = if key' = key then some flight else table.get key' :=
  Sharded.get_insert_ite

@[grind =] theorem InflightTable.get_remove (table : InflightTable) (key key' : CacheKey) :
    (table.remove key).get key' = if key' = key then none else table.get key' :=
  Sharded.get_remove_ite

/-- `register` by query `n`: none for the leader, the leader that a follower joins otherwise. -/
def register (table : InflightTable) (key : CacheKey) (n : Nat) : InflightTable × Option Nat :=
  match table.get key with
  | some flight =>
    (table.insert key { flight with waiters := flight.waiters ++ [n] }, some flight.owner)
  | none => (table.insert key ⟨n, []⟩, none)

def takeWaiters (table : InflightTable) (key : CacheKey) : InflightTable × List Nat :=
  (table.remove key, ((table.get key).map (·.waiters)).getD [])

/-- `SingleflightLeader::drop`, up to the senders it drops. -/
def leaderDrop (table : InflightTable) (key : CacheKey) (published : Bool) : InflightTable × List Nat :=
  if !published then takeWaiters table key else (table, [])

end Singleflight

open Singleflight

/-- Where a query is. -/
inductive FlightPhase where
  /-- it leads, its guard is unpublished -/
  | leading
  /-- it has taken its followers out of the table and is telling them; `rest` are still to be told -/
  | settling (outcome : FlightOutcome) (rest : List Nat)
  /-- the guard's flag is set -/
  | published (outcome : FlightOutcome)
  | ended (outcome : FlightOutcome)
  /-- it follows `leader`; the channel holds an outcome once it was told -/
  | waiting (leader : Nat) (channel : Option FlightOutcome)
  | answered (leader : Nat) (outcome : FlightOutcome)
  /-- its wait timed out or was cancelled -/
  | gaveUp (leader : Nat)
deriving DecidableEq, Repr

namespace FlightPhase

/-- The outcome a leader has settled on. -/
def outcome? : FlightPhase → Option FlightOutcome
  | .settling o _ | .published o | .ended o => some o
  | _ => none

/-- The leader a follower joined. -/
def leader? : FlightPhase → Option Nat
  | .waiting l _ | .answered l _ | .gaveUp l => some l
  | _ => none

end FlightPhase

/-- A query in `exchange_with_dedupe`. -/
structure FlightQuery where
  key : CacheKey
  phase : FlightPhase
deriving DecidableEq, Repr

structure FlightSystem where
  table : InflightTable
  queries : List FlightQuery

inductive FlightEvent where
  | register (key : CacheKey)
  | publishBytes (leader : Nat) (resp : Packet)
  | publishDrop (leader : Nat)
  /-- the next follower is sent the outcome, or its sender is dropped -/
  | notify (leader : Nat)
  /-- `_leader.published = true` -/
  | setPublished (leader : Nat)
  /-- the guard is dropped: on an error, at an await where the task is cancelled, or at the end -/
  | dropLeader (leader : Nat)
  | receive (follower : Nat)
  | giveUp (follower : Nat)
deriving DecidableEq, Repr

/-- The query that takes the step. -/
def FlightEvent.actor : FlightEvent → Option Nat
  | .register _ => none
  | .publishBytes i _ | .publishDrop i | .notify i | .setPublished i | .dropLeader i | .receive i
  | .giveUp i => some i

namespace FlightSystem

def start : FlightSystem := ⟨fun _ => ∅, []⟩

def setPhase (s : FlightSystem) (i : Nat) (q : FlightQuery) (phase : FlightPhase) : FlightSystem :=
  { s with queries := s.queries.set i { q with phase := phase } }

/-- The leader takes its followers out of the table to tell them `outcome`. -/
def settle (s : FlightSystem) (i : Nat) (q : FlightQuery) (outcome : FlightOutcome)
    (taken : InflightTable × List Nat) : FlightSystem :=
  { s with table := taken.1 }.setPhase i q (.settling outcome taken.2)

/-- A send to follower `j`, without effect when it has given up. -/
def tell (s : FlightSystem) (j : Nat) (outcome : FlightOutcome) : FlightSystem :=
  match s.queries[j]? with
  | some q =>
    match q.phase with
    | .waiting l _ => s.setPhase j q (.waiting l (some outcome))
    | _ => s
  | none => s

def registerStep (s : FlightSystem) (key : CacheKey) : FlightSystem :=
  let (table, leader) := Singleflight.register s.table key s.queries.length
  let phase := match leader with
    | none => .leading
    | some l => .waiting l none
  { s with table := table, queries := s.queries ++ [⟨key, phase⟩] }

/-- A step of query `i`. -/
def queryStep (s : FlightSystem) (i : Nat) (q : FlightQuery) : FlightEvent → Option FlightSystem
  | .publishBytes _ resp =>
    match q.phase with
    | .leading => some (s.settle i q (.response resp) (takeWaiters s.table q.key))
    | _ => none
  | .publishDrop _ =>
    match q.phase with
    | .leading => some (s.settle i q .drop (takeWaiters s.table q.key))
    | _ => none
  | .notify _ =>
    match q.phase with
    | .settling outcome (j :: rest) => some ((s.setPhase i q (.settling outcome rest)).tell j outcome)
    | .settling .unpublished [] => some (s.setPhase i q (.ended .unpublished))
    | _ => none
  | .setPublished _ =>
    match q.phase with
    | .settling .unpublished [] => none
    | .settling outcome [] => some (s.setPhase i q (.published outcome))
    | _ => none
  | .dropLeader _ =>
    match q.phase with
    | .leading => some (s.settle i q .unpublished (leaderDrop s.table q.key false))
    | .published outcome =>
      some ({ s with table := (leaderDrop s.table q.key true).1 }.setPhase i q (.ended outcome))
    | _ => none
  | .receive _ =>
    match q.phase with
    | .waiting l (some outcome) => some (s.setPhase i q (.answered l outcome))
    | _ => none
  | .giveUp _ =>
    match q.phase with
    | .waiting l _ => some (s.setPhase i q (.gaveUp l))
    | _ => none
  | .register _ => none

def step (s : FlightSystem) (e : FlightEvent) : Option FlightSystem :=
  match e with
  | .register key => some (s.registerStep key)
  | e => e.actor.bind fun i => (s.queries[i]?).bind fun q => s.queryStep i q e

/-! ### What a step can do -/

/-- The steps, one constructor for each way a step can go. -/
inductive Takes (s : FlightSystem) : FlightEvent → FlightSystem → Prop
  | led {key} (hvacant : s.table.get key = none) :
    Takes s (.register key)
      ⟨s.table.insert key ⟨s.queries.length, []⟩, s.queries ++ [⟨key, .leading⟩]⟩
  | joined {key flight} (hget : s.table.get key = some flight) :
    Takes s (.register key)
      ⟨s.table.insert key { flight with waiters := flight.waiters ++ [s.queries.length] },
        s.queries ++ [⟨key, .waiting flight.owner none⟩]⟩
  | settled {e i q outcome} (hactor : e.actor = some i) (hq : s.queries[i]? = some q)
    (hphase : q.phase = .leading) :
    Takes s e (s.settle i q outcome (takeWaiters s.table q.key))
  | notified {i q outcome j rest} (hq : s.queries[i]? = some q)
    (hphase : q.phase = .settling outcome (j :: rest)) :
    Takes s (.notify i) ((s.setPhase i q (.settling outcome rest)).tell j outcome)
  | abandoned {i q} (hq : s.queries[i]? = some q) (hphase : q.phase = .settling .unpublished []) :
    Takes s (.notify i) (s.setPhase i q (.ended .unpublished))
  | flagged {i q outcome} (hq : s.queries[i]? = some q) (hphase : q.phase = .settling outcome []) :
    Takes s (.setPublished i) (s.setPhase i q (.published outcome))
  | dropped {i q outcome} (hq : s.queries[i]? = some q) (hphase : q.phase = .published outcome) :
    Takes s (.dropLeader i) (s.setPhase i q (.ended outcome))
  | received {j q l outcome} (hq : s.queries[j]? = some q)
    (hphase : q.phase = .waiting l (some outcome)) :
    Takes s (.receive j) (s.setPhase j q (.answered l outcome))
  | gaveUp {j q l channel} (hq : s.queries[j]? = some q) (hphase : q.phase = .waiting l channel) :
    Takes s (.giveUp j) (s.setPhase j q (.gaveUp l))

variable {s s' : FlightSystem} {e : FlightEvent}

theorem takes_of_registerStep (s : FlightSystem) (key : CacheKey) :
    s.Takes (.register key) (s.registerStep key) := by
  rw [registerStep, Singleflight.register]
  cases hget : s.table.get key with
  | none => exact .led hget
  | some flight => exact .joined hget

variable {i : Nat} {q : FlightQuery}

theorem takes_of_queryStep (hactor : e.actor = some i) (hq : s.queries[i]? = some q)
    (h : s.queryStep i q e = some s') : s.Takes e s' := by
  revert h
  fun_cases queryStep s i q e <;> rintro ⟨⟩
  all_goals obtain rfl := Option.some.inj hactor
  case case1 hphase | case3 hphase | case11 hphase => exact .settled rfl hq hphase
  case case5 hphase => exact .notified hq hphase
  case case6 hphase => exact .abandoned hq hphase
  case case9 _ hphase => exact .flagged hq hphase
  case case12 hphase => exact .dropped hq hphase
  case case14 hphase => exact .received hq hphase
  case case16 hphase => exact .gaveUp hq hphase

theorem takes_of_step (h : s.step e = some s') : s.Takes e s' := by
  unfold step at h
  split at h
  · exact Option.some.inj h ▸ takes_of_registerStep s _
  · obtain ⟨i, hactor, h⟩ := Option.bind_eq_some_iff.mp h
    obtain ⟨q, hq, h⟩ := Option.bind_eq_some_iff.mp h
    exact takes_of_queryStep hactor hq h

/-! ### The invariant -/

/-- Query `j` follows `i` and was told nothing yet. -/
def Pending (s : FlightSystem) (j i : Nat) : Prop :=
  ∃ q, s.queries[j]? = some q ∧ (q.phase = .waiting i none ∨ q.phase = .gaveUp i)

/-- The followers in a list are told nothing yet, and none is in it twice. -/
def AllPending (s : FlightSystem) (js : List Nat) (i : Nat) : Prop :=
  js.Nodup ∧ ∀ j ∈ js, s.Pending j i

/-- What every step keeps. -/
structure Consistent (s : FlightSystem) : Prop where
  placed : Sharded.Placed shardIndex s.table
  /-- an entry of the table has a live leader -/
  owners : ∀ key flight, s.table.get key = some flight →
    s.queries[flight.owner]? = some ⟨key, .leading⟩
  /-- a live leader has its entry in the table -/
  leaders : ∀ i key, s.queries[i]? = some ⟨key, .leading⟩ →
    ∃ flight, s.table.get key = some flight ∧ flight.owner = i
  waiters : ∀ key flight, s.table.get key = some flight → s.AllPending flight.waiters flight.owner
  rests : ∀ (i : Nat) (q : FlightQuery) (outcome : FlightOutcome) (rest : List Nat),
    s.queries[i]? = some q → q.phase = .settling outcome rest →
    s.AllPending rest i
  /-- a follower was told what its leader settled on -/
  told : ∀ (j : Nat) (q : FlightQuery) (l : Nat) (outcome : FlightOutcome), s.queries[j]? = some q →
    (q.phase = .waiting l (some outcome) ∨ q.phase = .answered l outcome) →
    ∃ leader, s.queries[l]? = some leader ∧ leader.phase.outcome? = some outcome
  /-- a follower joined a leader of its key -/
  joined : ∀ (j : Nat) (q : FlightQuery) (l : Nat), s.queries[j]? = some q → q.phase.leader? = some l →
    ∃ leader, s.queries[l]? = some leader ∧ leader.key = q.key ∧ leader.phase.leader? = none
  /-- a follower that was told nothing is on the list of its leader -/
  listed : ∀ (j : Nat) (q : FlightQuery) (l : Nat), s.queries[j]? = some q → q.phase = .waiting l none →
    (∃ flight, s.table.get q.key = some flight ∧ flight.owner = l ∧ j ∈ flight.waiters) ∨
      ∃ leader outcome rest, s.queries[l]? = some leader ∧ leader.phase = .settling outcome rest ∧
        j ∈ rest

theorem consistent_start : Consistent start where
  placed := Sharded.placed_empty
  owners := fun key flight h => by
    rw [start, InflightTable.get, Sharded.get_empty] at h
    simp at h
  leaders := by simp [start]
  waiters := fun key flight h => by
    rw [start, InflightTable.get, Sharded.get_empty] at h
    simp at h
  rests := by simp [start]
  told := by simp [start]
  joined := by simp [start]
  listed := by simp [start]

/-! ### One query goes on -/

/-- What a query may do on its own, without the table. -/
structure GoesOn (s : FlightSystem) (i : Nat) (p p' : FlightPhase) : Prop where
  notLeading : p ≠ .leading ∧ p' ≠ .leading
  pending : ∀ l, p = .waiting l none ∨ p = .gaveUp l → p' = .waiting l none ∨ p' = .gaveUp l
  outcome : ∀ o, p.outcome? = some o → p'.outcome? = some o
  leader : p'.leader? = p.leader?
  rest : ∀ o rest, p' = .settling o rest → s.AllPending rest i
  told : ∀ l o, p' = .waiting l (some o) ∨ p' = .answered l o →
    p = .waiting l (some o) ∨ p = .answered l o
  waits : ∀ l, p' = .waiting l none → p = .waiting l none
  listed : ∀ o rest, p = .settling o rest → ∀ j ∈ rest, ∀ q, s.queries[j]? = some q →
    q.phase = .waiting i none → ∃ o' rest', p' = .settling o' rest' ∧ j ∈ rest'

variable {j l : Nat} {p : FlightPhase} {js : List Nat}

theorem AllPending.setPhase (h : s.AllPending js l) (hq : s.queries[i]? = some q)
    (hp : q.phase = .waiting l none ∨ q.phase = .gaveUp l → p = .waiting l none ∨ p = .gaveUp l) :
    (s.setPhase i q p).AllPending js l := by
  refine ⟨h.1, fun j hj => ?_⟩
  obtain ⟨x, hx, hphase⟩ := h.2 j hj
  grind [Pending, FlightSystem.setPhase]

theorem Consistent.goesOn (h : Consistent s) (hq : s.queries[i]? = some q) (hp : GoesOn s i q.phase p) :
    Consistent (s.setPhase i q p) where
  placed := h.placed
  owners := by
    intro key flight hget
    have howner := h.owners key flight hget
    have hnot := hp.notLeading
    grind [setPhase]
  leaders := by
    intro j key hj
    have hleader := h.leaders j key
    have hnot := hp.notLeading
    grind [setPhase]
  waiters := fun key flight hget => (h.waiters key flight hget).setPhase hq (hp.pending _)
  rests := by
    intro j x outcome rest hx hphase
    rcases Slots.of_getElem?_set hx with ⟨rfl, rfl⟩ | ⟨-, hx⟩
    · exact (hp.rest outcome rest hphase).setPhase hq (hp.pending _)
    · exact (h.rests j x outcome rest hx hphase).setPhase hq (hp.pending _)
  told := by
    intro j x l outcome hx htold
    have hbefore := h.told j
    have hkeeps := hp.told
    have houtcome := hp.outcome
    grind [setPhase]
  joined := by
    intro j x l hx hl
    have hbefore := h.joined j
    have hkeeps := hp.leader
    grind [setPhase]
  listed := by
    intro j x l hx hwaits
    have hbefore := h.listed j
    have hlisted := hp.listed
    have hwaited := hp.waits
    grind [setPhase]

/-! ### A query registers -/

variable {table : InflightTable}

theorem AllPending.push (h : s.AllPending js i) :
    (⟨table, s.queries ++ [q]⟩ : FlightSystem).AllPending js i := by
  refine ⟨h.1, fun j hj => ?_⟩
  obtain ⟨x, hx, hphase⟩ := h.2 j hj
  exact ⟨x, Slots.getElem?_push_of_some hx, hphase⟩

variable {key : CacheKey}

theorem Consistent.led (h : Consistent s) (hvacant : s.table.get key = none) :
    Consistent ⟨s.table.insert key ⟨s.queries.length, []⟩, s.queries ++ [⟨key, .leading⟩]⟩ where
  placed := Sharded.Placed.insert h.placed
  owners := by
    intro key' flight hget
    have hbefore := h.owners key' flight
    grind
  leaders := by
    intro i key' hi
    have hbefore := h.leaders i key'
    rcases Slots.of_getElem?_push hi with ⟨rfl, heq⟩ | hi
    · obtain rfl := congrArg FlightQuery.key heq
      exact ⟨_, Sharded.get_insert, rfl⟩
    · grind
  waiters := by
    intro key' flight hget
    rcases Sharded.of_get_insert hget with ⟨rfl, rfl⟩ | ⟨-, hget⟩
    · exact ⟨List.nodup_nil, by simp⟩
    · exact (h.waiters key' flight hget).push
  rests := by
    intro i q outcome rest hq hphase
    have hold : s.queries[i]? = some q := by grind
    exact (h.rests i q outcome rest hold hphase).push
  told := by
    intro j q l outcome hq htold
    have hbefore := h.told j q l outcome
    grind
  joined := by
    intro j q l hq hl
    have hbefore := h.joined j q l
    grind [FlightPhase.leader?]
  listed := by
    intro j q l hq hwaits
    have hbefore := h.listed j q l
    grind

theorem AllPending.concat (h : s.AllPending js l) :
    (⟨table, s.queries ++ [⟨key, .waiting l none⟩]⟩ : FlightSystem).AllPending (js ++ [s.queries.length]) l := by
  have hnew : ∀ j ∈ js, j < s.queries.length := by
    intro j hj
    obtain ⟨x, hx, -⟩ := h.2 j hj
    exact Slots.lt_length hx
  refine ⟨List.nodup_append.mpr ⟨h.1, List.nodup_singleton _, by grind⟩, ?_⟩
  intro j hj
  rcases List.mem_append.mp hj with hj | hj
  · exact h.push.2 j hj
  · rw [List.mem_singleton.mp hj]
    exact ⟨⟨key, .waiting l none⟩, by simp, .inl rfl⟩

theorem Consistent.follow (h : Consistent s) {flight : FlightEntry} (hget : s.table.get key = some flight) :
    Consistent ⟨s.table.insert key { flight with waiters := flight.waiters ++ [s.queries.length] },
      s.queries ++ [⟨key, .waiting flight.owner none⟩]⟩ where
  placed := Sharded.Placed.insert h.placed
  owners := by
    intro key' flight' hget'
    have hbefore := h.owners key'
    grind
  leaders := by
    intro i key' hi
    have hbefore := h.leaders i key'
    grind
  waiters := by
    intro key' flight' hget'
    rcases Sharded.of_get_insert hget' with ⟨rfl, rfl⟩ | ⟨-, hget'⟩
    · exact (h.waiters key' flight hget).concat
    · exact (h.waiters key' flight' hget').push
  rests := by
    intro i q outcome rest hq hphase
    have hold : s.queries[i]? = some q := by grind
    exact (h.rests i q outcome rest hold hphase).push
  told := by
    intro j q l outcome hq htold
    have hbefore := h.told j q l outcome
    grind
  joined := by
    intro j q l hq hl
    have hbefore := h.joined j q l
    have howner := h.owners key flight hget
    grind [FlightPhase.leader?]
  listed := by
    intro j q l hq hwaits
    have hbefore := h.listed j q l
    grind

/-! ### A leader settles -/

variable {outcome : FlightOutcome}

theorem Consistent.settled (h : Consistent s) (hq : s.queries[i]? = some q) (hphase : q.phase = .leading) :
    Consistent (s.settle i q outcome (takeWaiters s.table q.key)) := by
  obtain ⟨flight, hget, howner⟩ : ∃ flight, s.table.get q.key = some flight ∧ flight.owner = i := by
    apply h.leaders
    rw [hq, ← hphase]
  have htaken : (takeWaiters s.table q.key).2 = flight.waiters := by
    rw [takeWaiters, hget]
    rfl
  have hnotPending : ∀ l p, q.phase = .waiting l none ∨ q.phase = .gaveUp l →
      p = .waiting l none ∨ p = FlightPhase.gaveUp l := by
    grind
  rw [settle, htaken]
  constructor
  · exact Sharded.Placed.remove h.placed
  · intro key flight' hget'
    have hbefore := h.owners key flight'
    grind [setPhase, takeWaiters]
  · intro j key hj
    have hbefore := h.leaders j key
    grind [setPhase, takeWaiters]
  · intro key flight' hget'
    have hold := (Sharded.of_get_remove hget').2
    exact (h.waiters key flight' hold).setPhase hq (hnotPending _ _)
  · intro j x o rest hx hsettling
    rcases Slots.of_getElem?_set hx with ⟨rfl, rfl⟩ | ⟨-, hx⟩
    · have hall := h.waiters q.key flight hget
      rw [howner, (FlightPhase.settling.inj hsettling).2] at hall
      exact hall.setPhase hq (hnotPending _ _)
    · exact (h.rests j x o rest hx hsettling).setPhase hq (hnotPending _ _)
  · intro j x l o hx htold
    have hbefore := h.told j x l o
    grind [setPhase, FlightPhase.outcome?]
  · intro j x l hx hl
    have hbefore := h.joined j x l
    grind [setPhase, FlightPhase.leader?]
  · -- the list of a follower of this leader is the one that was taken out
    intro j x l hx hwaits
    have hbefore := h.listed j x l
    grind [setPhase, takeWaiters]

/-! ### A follower is told -/

section Told

variable {i j : Nat} {q x : FlightQuery} {outcome : FlightOutcome} {rest : List Nat}

/-- The state once follower `j` was told by `i`. -/
def toldState (s : FlightSystem) (i : Nat) (q : FlightQuery) (outcome : FlightOutcome)
    (rest : List Nat) (j : Nat) (x : FlightQuery) : FlightSystem :=
  (s.setPhase i q (.settling outcome rest)).setPhase j x (.waiting i (some outcome))

variable (hq : s.queries[i]? = some q) (hphase : q.phase = .settling outcome (j :: rest))
  (hx : s.queries[j]? = some x) (hwaits : x.phase = .waiting i none)

include hq hphase hx hwaits

theorem allPending_toldState {l : Nat} {js : List Nat} (h : s.AllPending js l) (hj : l ≠ i ∨ j ∉ js) :
    (s.toldState i q outcome rest j x).AllPending js l := by
  refine ⟨h.1, fun k hk => ?_⟩
  obtain ⟨y, hy, hypending⟩ := h.2 k hk
  have hkj : k ≠ j := by grind
  exact ⟨y, by grind [toldState, setPhase], hypending⟩

theorem Consistent.toldFollower (h : Consistent s) :
    Consistent (s.toldState i q outcome rest j x) := by
  have hlist := h.rests i q outcome (j :: rest) hq hphase
  obtain ⟨hjrest, hnodup⟩ := List.nodup_cons.mp hlist.1
  have hrest : s.AllPending rest i := ⟨hnodup, fun k hk => hlist.2 k (List.mem_cons_of_mem j hk)⟩
  constructor
  · exact h.placed
  · intro key flight hget
    have hbefore := h.owners key flight hget
    grind [toldState, setPhase]
  · intro k key hk
    have hbefore := h.leaders k key
    grind [toldState, setPhase]
  · intro key flight hget
    have howner := h.owners key flight hget
    exact allPending_toldState hq hphase hx hwaits (h.waiters key flight hget) (.inl (by grind))
  · intro k y o rest' hy hsettling
    by_cases hki : k = i
    · subst hki
      obtain rfl : rest = rest' := by grind [toldState, setPhase]
      exact allPending_toldState hq hphase hx hwaits hrest (.inr hjrest)
    · have hold : s.queries[k]? = some y := by grind [toldState, setPhase]
      exact allPending_toldState hq hphase hx hwaits (h.rests k y o rest' hold hsettling) (.inl hki)
  · intro k y l o hy htold
    have hbefore := h.told k y l o
    grind [toldState, setPhase, FlightPhase.outcome?]
  · intro k y l hy hl
    have hbefore := h.joined k
    grind [toldState, setPhase, FlightPhase.leader?]
  · intro k y l hy hywaits
    have hbefore := h.listed k y l
    grind [toldState, setPhase]

end Told

variable {rest : List Nat}

/-- The next follower to be told waits or has given up; it is not the leader. -/
theorem Consistent.next (h : Consistent s) (hq : s.queries[i]? = some q)
    (hphase : q.phase = .settling outcome (j :: rest)) : ∃ x, i ≠ j ∧ s.queries[j]? = some x ∧
      (x.phase = .waiting i none ∨ x.phase = .gaveUp i) := by
  obtain ⟨x, hx, hpending⟩ := (h.rests i q outcome (j :: rest) hq hphase).2 j List.mem_cons_self
  exact ⟨x, by grind, hx, hpending⟩

theorem tell_waiting (hij : i ≠ j) (hx : s.queries[j]? = some x) (hwaits : x.phase = .waiting i none) :
    (s.setPhase i q (.settling outcome rest)).tell j outcome = s.toldState i q outcome rest j x := by
  have hx' : (s.setPhase i q (.settling outcome rest)).queries[j]? = some x := by grind [setPhase]
  rw [tell, hx']
  simp only [hwaits, toldState]

theorem tell_gaveUp (hij : i ≠ j) (hx : s.queries[j]? = some x) (hgone : x.phase = .gaveUp l) :
    (s.setPhase i q (.settling outcome rest)).tell j outcome =
      s.setPhase i q (.settling outcome rest) := by
  have hx' : (s.setPhase i q (.settling outcome rest)).queries[j]? = some x := by grind [setPhase]
  rw [tell, hx']
  simp only [hgone]

theorem goesOn_of_gaveUp (h : Consistent s) (hq : s.queries[i]? = some q)
    (hphase : q.phase = .settling outcome (j :: rest)) (hx : s.queries[j]? = some x)
    (hgone : x.phase = .gaveUp l) : GoesOn s i q.phase (.settling outcome rest) := by
  have hlist := h.rests i q outcome (j :: rest) hq hphase
  rw [hphase]
  constructor
  · simp
  · simp
  · exact fun o ho => ho
  · rfl
  · intro o rest' heq
    rw [← (FlightPhase.settling.inj heq).2]
    exact ⟨(List.nodup_cons.mp hlist.1).2, fun k hk => hlist.2 k (List.mem_cons_of_mem j hk)⟩
  · simp
  · simp
  · grind

theorem Consistent.notified (h : Consistent s) (hq : s.queries[i]? = some q)
    (hphase : q.phase = .settling outcome (j :: rest)) :
    Consistent ((s.setPhase i q (.settling outcome rest)).tell j outcome) := by
  obtain ⟨x, hij, hx, hwaits | hgone⟩ := h.next hq hphase
  · rw [tell_waiting hij hx hwaits]
    exact h.toldFollower hq hphase hx hwaits
  · rw [tell_gaveUp hij hx hgone]
    exact h.goesOn hq (goesOn_of_gaveUp h hq hphase hx hgone)

theorem Consistent.step (h : Consistent s) (ht : s.Takes e s') : Consistent s' := by
  cases ht with
  | led hvacant => exact h.led hvacant
  | joined hget => exact h.follow hget
  | settled _ hq hphase => exact h.settled hq hphase
  | notified hq hphase => exact h.notified hq hphase
  | abandoned hq hphase | flagged hq hphase | dropped hq hphase | received hq hphase | gaveUp hq hphase =>
    apply h.goesOn hq
    rw [hphase]
    constructor <;> simp +contextual [FlightPhase.outcome?, FlightPhase.leader?]

/-! ### Outcomes do not change -/

/-- Follower `j` of `l` has an outcome, received or in its channel. -/
def Has (s : FlightSystem) (j l : Nat) (outcome : FlightOutcome) : Prop :=
  ∃ q, s.queries[j]? = some q ∧ (q.phase = .waiting l (some outcome) ∨ q.phase = .answered l outcome)

/-- Follower `j` of `l` has the outcome or gave up on it. -/
def Decided (s : FlightSystem) (j l : Nat) (outcome : FlightOutcome) : Prop :=
  ∃ q, s.queries[j]? = some q ∧ (q.phase = .waiting l (some outcome) ∨ q.phase = .answered l outcome ∨
    q.phase = .gaveUp l)

variable {j l : Nat} {outcome : FlightOutcome}

theorem Has.decided (h : s.Has j l outcome) : s.Decided j l outcome := by
  obtain ⟨q, hq, hphase⟩ := h
  exact ⟨q, hq, by tauto⟩

theorem Decided.eq_of_has (h : s.Decided j l outcome) {l' : Nat} {outcome' : FlightOutcome}
    (hhas : s.Has j l' outcome') : l' = l ∧ outcome' = outcome := by
  obtain ⟨q, hq, hphase⟩ := h
  obtain ⟨q', hq', hphase'⟩ := hhas
  grind

theorem Decided.setPhase (h : s.Decided j l outcome) (hq : s.queries[i]? = some q)
    (hp : (q.phase = .waiting l (some outcome) ∨ q.phase = .answered l outcome ∨ q.phase = .gaveUp l) →
      p = .waiting l (some outcome) ∨ p = .answered l outcome ∨ p = .gaveUp l) :
    Decided ({ s with table := table }.setPhase i q p) j l outcome := by
  obtain ⟨x, hx, hphase⟩ := h
  grind [Decided, FlightSystem.setPhase]

theorem Decided.push (h : s.Decided j l outcome) : Decided ⟨table, s.queries ++ [q]⟩ j l outcome := by
  obtain ⟨x, hx, hphase⟩ := h
  exact ⟨x, Slots.getElem?_push_of_some hx, hphase⟩

theorem Decided.notified (h : s.Decided j l outcome) (hs : Consistent s) {k : Nat} {o : FlightOutcome}
    (hq : s.queries[i]? = some q) (hphase : q.phase = .settling o (k :: rest)) :
    Decided ((s.setPhase i q (.settling o rest)).tell k o) j l outcome := by
  have hfirst : Decided (s.setPhase i q (.settling o rest)) j l outcome :=
    h.setPhase hq (by simp [hphase])
  obtain ⟨x, hik, hx, hwaits | hgone⟩ := hs.next hq hphase
  · rw [tell_waiting hik hx hwaits]
    exact hfirst.setPhase (show _ = some x by grind [FlightSystem.setPhase]) (by simp [hwaits])
  · rw [tell_gaveUp hik hx hgone]
    exact hfirst

theorem Decided.step (h : s.Decided j l outcome) (hs : Consistent s) (ht : s.Takes e s') :
    s'.Decided j l outcome := by
  cases ht with
  | led | joined => exact h.push
  | notified hq hphase => exact h.notified hs hq hphase
  | settled _ hq hphase | abandoned hq hphase | flagged hq hphase | dropped hq hphase | received hq hphase
  | gaveUp hq hphase =>
    apply h.setPhase hq
    rw [hphase]
    simp +contextual

/-! ### Whole runs -/

theorem run_consistent {es : List FlightEvent} (hrun : run step start es = some s) : Consistent s :=
  Runs.run_invariant (C := fun _ _ => True) (fun _ _ _ h _ hstep => h.step (takes_of_step hstep))
    consistent_start (Runs.meets_true _ _) hrun

theorem run_decided {es : List FlightEvent} (hs : Consistent s) (h : s.Decided j l outcome)
    (hrun : run step s es = some s') : s'.Decided j l outcome := by
  have hboth := Runs.run_invariant (C := fun _ _ => True)
    (I := fun s => Consistent s ∧ s.Decided j l outcome)
    (fun _ _ _ h _ hstep => ⟨h.1.step (takes_of_step hstep), h.2.step h.1 (takes_of_step hstep)⟩)
    ⟨hs, h⟩ (Runs.meets_true _ _) hrun
  exact hboth.2

/-- Query `i` is the live leader of `key`. -/
def Leads (s : FlightSystem) (i : Nat) (key : CacheKey) : Prop :=
  s.queries[i]? = some ⟨key, .leading⟩

/-- What holds in a state of the table with its queries. -/
structure Sound (s : FlightSystem) : Prop where
  /-- a key has at most one live leader -/
  oneLeader : ∀ i j key, s.Leads i key → s.Leads j key → i = j
  /-- no key is in the table without one -/
  led : ∀ i key flight, (s.table i).lookup key = some flight → ∃ leader, s.Leads leader key
  /-- an outcome is that of the leader of the same key that the follower joined -/
  fromLeader : ∀ j l outcome, s.Has j l outcome → ∃ q leader, s.queries[j]? = some q ∧
    s.queries[l]? = some leader ∧ leader.key = q.key ∧ leader.phase.outcome? = some outcome
  /-- no one waits for a leader that is done -/
  noneLeft : ∀ (j : Nat) (q : FlightQuery) (l : Nat) (leader : FlightQuery) (outcome : FlightOutcome),
    s.queries[j]? = some q → q.phase = .waiting l none → s.queries[l]? = some leader →
    leader.phase ≠ .published outcome ∧ leader.phase ≠ .ended outcome

theorem Consistent.oneLeader (h : Consistent s) (hi : s.Leads i key) (hj : s.Leads j key) : i = j := by
  obtain ⟨flight, hget, howner⟩ := h.leaders i key hi
  obtain ⟨flight', hget', howner'⟩ := h.leaders j key hj
  grind

theorem Consistent.sound (h : Consistent s) : Sound s where
  oneLeader := fun _ _ _ hi hj => h.oneLeader hi hj
  led := fun i key flight hlook =>
    ⟨flight.owner, h.owners key flight (Sharded.Placed.get h.placed hlook)⟩
  fromLeader := by
    intro j l outcome ⟨q, hq, hphase⟩
    have htold := h.told j q l outcome hq hphase
    have hjoined := h.joined j q l hq
    grind [FlightPhase.leader?]
  noneLeft := by
    intro j q l leader outcome hq hwaits hleader
    have hlisted := h.listed j q l hq hwaits
    have howners := h.owners q.key
    grind

/-- Who registers joins the live leader of its key, or becomes it. -/
theorem Consistent.registers (h : Consistent s) (hstep : s.step (.register key) = some s') :
    (∃ l, s.Leads l key ∧ s'.queries[s.queries.length]? = some ⟨key, .waiting l none⟩) ∨
      ((∀ l, ¬ s.Leads l key) ∧ s'.Leads s.queries.length key) := by
  cases takes_of_step hstep with
  | led hvacant =>
    refine .inr ⟨fun l hl => ?_, by simp [Leads]⟩
    obtain ⟨flight, hget, -⟩ := h.leaders l key hl
    simp [hvacant] at hget
  | joined hget => exact .inl ⟨_, h.owners key _ hget, by simp⟩
  | settled hactor => simp [FlightEvent.actor] at hactor

/-- The drop of a leader that has published leaves the table as it is. -/
theorem table_dropLeader (hq : s.queries[i]? = some q) (hphase : q.phase = .published outcome)
    (hstep : s.step (.dropLeader i) = some s') : s'.table = s.table := by
  cases takes_of_step hstep with
  | settled hactor hq' hleading => grind [FlightEvent.actor]
  | dropped => rfl

/-- In every run of queries that register, publish, fail, are cancelled or give up: a key has at most
one live leader and is in the table only with one; a follower joins the live leader; its outcome is that
of the leader it joined, and it never gets another one; a leader that has published leaves the table
alone when it is dropped. -/
theorem run_singleflight {es : List FlightEvent} (hrun : run step start es = some s) :
    Sound s ∧
      (∀ key s', s.step (.register key) = some s' →
        (∃ l, s.Leads l key ∧ s'.queries[s.queries.length]? = some ⟨key, .waiting l none⟩) ∨
          ((∀ l, ¬ s.Leads l key) ∧ s'.Leads s.queries.length key)) ∧
      (∀ fs s', run step s fs = some s' → ∀ j l l' outcome outcome', s.Has j l outcome →
        s'.Has j l' outcome' → l' = l ∧ outcome' = outcome) ∧
      (∀ i q outcome s', s.queries[i]? = some q → q.phase = .published outcome →
        s.step (.dropLeader i) = some s' → s'.table = s.table) := by
  have h := run_consistent hrun
  refine ⟨h.sound, ?_, ?_, ?_⟩
  · intro key s' hstep
    exact h.registers hstep
  · intro fs s' hfs j l l' outcome outcome' hhas hhas'
    exact (run_decided h hhas.decided hfs).eq_of_has hhas'
  · intro i q outcome s' hq hphase hstep
    exact table_dropLeader hq hphase hstep

/-- A leader with one follower publishes; before its guard is dropped, a new leader registers. -/
def handOver : List FlightEvent :=
  [.register 5, .register 5, .publishBytes 0 [1, 2], .register 5, .notify 0, .setPublished 0,
    .dropLeader 0, .receive 1]

theorem run_singleflight_handOver : ∃ s, run step start handOver = some s ∧ s.Leads 2 5 ∧
    s.Has 1 0 (.response [1, 2]) ∧ Sound s := by
  have hany : (run step start handOver).any (fun s => s.queries ==
      [⟨5, .ended (.response [1, 2])⟩, ⟨5, .answered 0 (.response [1, 2])⟩, ⟨5, .leading⟩]) = true := by
    decide +kernel
  obtain ⟨s, hs, hqueries⟩ := (Option.any_eq_true _ _).mp hany
  rw [beq_iff_eq] at hqueries
  refine ⟨s, hs, ?_, ?_, (run_singleflight hs).1⟩
  · rw [Leads, hqueries]
    rfl
  · exact ⟨_, by rw [hqueries]; rfl, .inr rfl⟩

/-! ### Every flight lands -/

/-- How many steps a query can still take, or make another one take, among `n`. -/
def weight (n : Nat) : FlightPhase → Int
  | .leading => n + 4
  | .settling _ rest => rest.length + 3
  | .waiting _ none => 2
  | .published _ | .waiting _ (some _) => 1
  | .ended _ | .answered .. | .gaveUp _ => 0

theorem weight_nonneg (n : Nat) (p : FlightPhase) : 0 ≤ weight n p := by
  unfold weight
  split <;> omega

def work (s : FlightSystem) : Int := (s.queries.map fun q => weight s.queries.length q.phase).sum

theorem work_setPhase (hq : s.queries[i]? = some q) :
    (s.setPhase i q p).work = s.work + (weight s.queries.length p - weight s.queries.length q.phase) := by
  unfold work setPhase
  rw [List.length_set, Slots.sum_map_set hq]

theorem work_tell_le (s : FlightSystem) (j : Nat) (outcome : FlightOutcome) :
    (s.tell j outcome).work ≤ s.work := by
  fun_cases tell s j outcome
  case case1 q hq l channel hphase =>
    rw [work_setPhase hq, hphase]
    cases channel <;> simp [weight]
  all_goals exact le_rfl

theorem Consistent.length_waiters_le (h : Consistent s) (key : CacheKey) :
    (takeWaiters s.table key).2.length ≤ s.queries.length := by
  unfold takeWaiters
  cases hget : s.table.get key with
  | none => simp
  | some flight =>
    obtain ⟨hnodup, hpending⟩ := h.waiters key flight hget
    apply Slots.length_le_of_nodup hnodup
    intro j hj
    obtain ⟨q, hq, -⟩ := hpending j hj
    exact Slots.lt_length hq

/-- A step that is no new query leaves less to do. -/
theorem Consistent.work_lt (h : Consistent s) (ht : s.Takes e s') (hold : ∀ key, e ≠ .register key) :
    s'.work < s.work := by
  cases ht with
  | led | joined => exact absurd rfl (hold _)
  | @settled _ i q outcome _ hq hphase =>
    have hle := h.length_waiters_le q.key
    have hwork := work_setPhase (s := ⟨(takeWaiters s.table q.key).1, s.queries⟩)
      (p := .settling outcome (takeWaiters s.table q.key).2) hq
    rw [hphase] at hwork
    simp only [settle, weight, work] at hwork ⊢
    omega
  | notified hq hphase =>
    apply (work_tell_le _ _ _).trans_lt
    rw [work_setPhase hq, hphase]
    simp [weight]
  | abandoned hq hphase | flagged hq hphase | dropped hq hphase | received hq hphase =>
    rw [work_setPhase hq, hphase]
    simp [weight]
  | @gaveUp _ _ _ channel hq hphase =>
    rw [work_setPhase hq, hphase]
    cases channel <;> simp [weight]

theorem Consistent.length_le_work {es : List FlightEvent} (h : Consistent s)
    (hold : ∀ e ∈ es, ∀ key, e ≠ .register key) (hrun : run FlightSystem.step s es = some s') :
    es.length ≤ s.work := by
  induction es generalizing s with
  | nil => exact List.sum_nonneg (by simp [weight_nonneg])
  | cons e es ih =>
    obtain ⟨s1, hstep, hrun⟩ := Option.bind_eq_some_iff.mp hrun
    obtain ⟨he, hold⟩ := List.forall_mem_cons.mp hold
    have ht := takes_of_step hstep
    have hlt := h.work_lt ht he
    have hle := ih (h.step ht) hold hrun
    rw [List.length_cons]
    omega

/-- The query leads no more and waits no more. -/
def landed : FlightPhase → Bool
  | .ended _ | .answered .. | .gaveUp _ => true
  | _ => false

/-- No step is left but new queries and followers that give up. -/
def Stuck (s : FlightSystem) : Prop :=
  ∀ e, (∀ key, e ≠ .register key) → (∀ j, e ≠ .giveUp j) → s.step e = none

theorem Stuck.phase (h : Stuck s) (hq : s.queries[i]? = some q) :
    landed q.phase = true ∨ ∃ l, q.phase = .waiting l none := by
  have hdrop := h (.dropLeader i) (by simp) (by simp)
  have hnotify := h (.notify i) (by simp) (by simp)
  have hflag := h (.setPublished i) (by simp) (by simp)
  have hreceive := h (.receive i) (by simp) (by simp)
  simp only [step, FlightEvent.actor, hq, Option.bind_some, queryStep] at hdrop hnotify hflag hreceive
  cases hphase : q.phase with
  | leading | published => simp [hphase] at hdrop
  | settling outcome rest => cases rest <;> cases outcome <;> simp [hphase] at hnotify hflag
  | waiting l channel => cases channel <;> simp_all
  | ended | answered | gaveUp => exact .inl rfl

/-- In every run, once no step is left but new queries and followers that give up, all queries have landed
and the table is empty; and without new queries that is after at most `work` steps. -/
theorem run_lands {es : List FlightEvent} (hrun : run step start es = some s) :
    (s.Stuck → (∀ q ∈ s.queries, landed q.phase = true) ∧ ∀ key, s.table.get key = none) ∧
    ∀ fs s', (∀ e ∈ fs, ∀ key, e ≠ .register key) → run step s fs = some s' → fs.length ≤ s.work := by
  have h := run_consistent hrun
  refine ⟨fun hstuck => ?_, fun fs s' hold hfs => h.length_le_work hold hfs⟩
  have hempty : ∀ key, s.table.get key = none := by
    intro key
    by_contra hsome
    obtain ⟨flight, hget⟩ := Option.ne_none_iff_exists'.mp hsome
    simpa [landed] using hstuck.phase (h.owners key flight hget)
  refine ⟨fun q hmem => ?_, hempty⟩
  obtain ⟨i, hq⟩ := List.mem_iff_getElem?.mp hmem
  refine (hstuck.phase hq).resolve_right fun ⟨l, hwaits⟩ => ?_
  -- it is on the list of its leader, which is live or still telling its followers
  rcases h.listed i q l hq hwaits with ⟨flight, hget, -⟩ | ⟨leader, outcome, rest, hl, hphase, -⟩
  · simp [hempty] at hget
  · simpa [landed, hphase] using hstuck.phase hl

/-- The leader that is left fails and ends. -/
theorem run_lands_handOver : ∃ s, run step start handOver = some s ∧ 2 ≤ s.work := by
  obtain ⟨s, hrun, hs⟩ := (Option.any_eq_true _ _).mp (show (run step start handOver).any
    (fun s => (run step s [.dropLeader 2, .notify 2]).isSome) = true by decide +kernel)
  obtain ⟨s', hrest⟩ := Option.isSome_iff_exists.mp hs
  exact ⟨s, hrun, (run_lands hrun).2 _ s' (by simp) hrest⟩

end FlightSystem

end PathDns
