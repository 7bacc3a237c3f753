import Mathlib.Algebra.Ring.Int.Defs
import PathDns.Lib.Runs
import PathDns.Lib.Slots
import Mathlib.Algebra.Order.BigOperators.Group.List
import Mathlib.Algebra.Order.Group.Int

/-!
# Hedged exchanges (`exchange_observed` and the guards of `upstream/mod.rs`)

Any number of queries run on one pool. A query starts an exchange with its primary node and, when the timer
fires and the budget allows it, a second one with another node. The counters `active_inflight` and
`active_hedges` are shared; they go up and down one at a time, by hand or by a guard, and the query can be
cancelled at each await. A step is what a query does with at most one operation on a counter.

A local that holds a guard is dropped when its query returns or is cancelled, the last one first: the second
exchange, the hedge guard, the first exchange. So a second exchange never outlives the guard that counts it.

Which nodes are chosen depends on scores that are read while other queries change them, so any node may be
the primary, and any other one the second.
-/

namespace PathDns

open Runs

/-- Where the future of `UpstreamNode::exchange` is. -/
inductive ExchangeSide (ε α : Type) where
  /-- it is not polled yet -/
  | fresh
  /-- it has raised `active_inflight` and holds the guard that lowers it -/
  | running
  | done (result : Except ε α)
  | dropped

/-- Where a query is. -/
inductive HedgePhase (ε α : Type) where
  /-- it waits for the primary or the hedge timer -/
  | phase1
  /-- it has raised `active_hedges` over the budget -/
  | overBudget
  /-- it holds the hedge guard and chooses a second node -/
  | choosing
  /-- it waits for the primary only -/
  | primaryOnly
  | racing
  /-- the primary has failed, it waits for the secondary -/
  | primaryFailed (err : ε)
  | secondaryFailed
  /-- its locals are dropped; without a result it was cancelled -/
  | returning (result : Option (Except ε α))
  | ended (result : Option (Except ε α))

/-- A call of `exchange_observed`. -/
structure HedgeCall (ε α : Type) where
  primary : Nat
  primaryFut : ExchangeSide ε α
  secondary : Option (Nat × ExchangeSide ε α)
  /-- it holds a `HedgeGuard` -/
  hedge : Bool
  phase : HedgePhase ε α

/-- What a step of a call does to the counters. -/
inductive CounterOp where
  | none
  /-- `active_inflight.fetch_add(1)` of a node -/
  | enter (node : Nat)
  /-- drop of an `ActiveInflightGuard` -/
  | leave (node : Nat)
  /-- `active_hedges.fetch_add(1)` -/
  | raiseHedges
  /-- `active_hedges.fetch_sub(1)`, by hand or by the drop of a `HedgeGuard` -/
  | lowerHedges

/-- What a call does next. -/
inductive HedgeEvent (ε α : Type) where
  | pollPrimary
  | pollSecondary
  | primaryDone (result : Except ε α)
  | secondaryDone (result : Except ε α)
  | timer
  | giveBack
  | choose (secondary : Option Nat)
  /-- the future of the call is dropped at an await -/
  | cancel
  /-- the next local is dropped, or the call is over -/
  | drop

namespace HedgeCall

variable {ε α : Type}

/-- The bound on second exchanges of a pool with `n` nodes. -/
def budget (n : Nat) : Int := max n 4

/-- A call that has selected its primary. -/
def start (primary : Nat) : HedgeCall ε α := ⟨primary, .fresh, none, false, .phase1⟩

/-- The call waits at an await for its primary. -/
def awaitsPrimary (c : HedgeCall ε α) : Bool :=
  match c.phase with
  | .phase1 | .primaryOnly | .racing | .secondaryFailed => true
  | _ => false

/-- The call waits at an await for its secondary. -/
def awaitsSecondary (c : HedgeCall ε α) : Bool :=
  match c.phase with
  | .racing | .primaryFailed _ => true
  | _ => false

/-- The primary exchange ends while the call waits for it. -/
def onPrimary (c : HedgeCall ε α) (result : Except ε α) : HedgePhase ε α :=
  match c.phase, result with
  | .racing, .error err => .primaryFailed err
  | _, _ => .returning (some result)

/-- The secondary exchange ends: `secondary_result.or(result)` when the primary has failed before. -/
def onSecondary (c : HedgeCall ε α) (result : Except ε α) : HedgePhase ε α :=
  match result, c.phase with
  | .ok resp, _ => .returning (some (.ok resp))
  | .error _, .primaryFailed err => .returning (some (.error err))
  | .error _, _ => .secondaryFailed

/-- The next drop behind the second exchange. -/
def dropRest (c : HedgeCall ε α) (result : Option (Except ε α)) : HedgeCall ε α × CounterOp :=
  if c.hedge then ({ c with hedge := false }, .lowerHedges)
  else
    match c.primaryFut with
    | .running => ({ c with primaryFut := .dropped }, .leave c.primary)
    | .fresh => ({ c with primaryFut := .dropped }, .none)
    | _ => ({ c with phase := .ended result }, .none)

/-- The next drop of a call that returns. -/
def dropNext (c : HedgeCall ε α) (result : Option (Except ε α)) : HedgeCall ε α × CounterOp :=
  match c.secondary with
  | some (node, .running) => ({ c with secondary := some (node, .dropped) }, .leave node)
  | some (node, .fresh) => ({ c with secondary := some (node, .dropped) }, .none)
  | _ => c.dropRest result

/-- A step of a call in a pool of `n` nodes that finds `activeHedges` in the counter. -/
def step (n : Nat) (hedging : Bool) (activeHedges : Int) (c : HedgeCall ε α) :
    HedgeEvent ε α → Option (HedgeCall ε α × CounterOp)
  | .pollPrimary =>
    match c.awaitsPrimary, c.primaryFut with
    | true, .fresh => some ({ c with primaryFut := .running }, .enter c.primary)
    | _, _ => none
  | .pollSecondary =>
    match c.awaitsSecondary, c.secondary with
    | true, some (node, .fresh) => some ({ c with secondary := some (node, .running) }, .enter node)
    | _, _ => none
  | .primaryDone result =>
    match c.awaitsPrimary, c.primaryFut with
    | true, .running =>
      some ({ c with primaryFut := .done result, phase := c.onPrimary result }, .leave c.primary)
    | _, _ => none
  | .secondaryDone result =>
    match c.awaitsSecondary, c.secondary with
    | true, some (node, .running) =>
      some ({ c with secondary := some (node, .done result), phase := c.onSecondary result }, .leave node)
    | _, _ => none
  | .timer =>
    match c.phase, c.primaryFut with
    | .phase1, .running =>
      if hedging then
        if budget n ≤ activeHedges then some ({ c with phase := .overBudget }, .raiseHedges)
        else some ({ c with hedge := true, phase := .choosing }, .raiseHedges)
      else none
    | _, _ => none
  | .giveBack =>
    match c.phase with
    | .overBudget => some ({ c with phase := .primaryOnly }, .lowerHedges)
    | _ => none
  | .choose secondary =>
    match c.phase, secondary with
    | .choosing, none => if n ≤ 1 then some ({ c with phase := .primaryOnly }, .none) else none
    | .choosing, some node =>
      if node < n ∧ node ≠ c.primary then
        some ({ c with secondary := some (node, .fresh), phase := .racing }, .none)
      else none
    | _, _ => none
  | .cancel =>
    if c.awaitsPrimary || c.awaitsSecondary then some ({ c with phase := .returning none }, .none) else none
  | .drop =>
    match c.phase with
    | .returning result => some (c.dropNext result)
    | _ => none

end HedgeCall

/-- A pool with its calls. The counters are integers here; no run makes one negative. -/
structure HedgeSystem (ε α : Type) where
  activeInflight : Nat → Int
  activeHedges : Int
  calls : List (HedgeCall ε α)

/-- A query comes in and selects its primary, or a call takes a step. -/
inductive PoolEvent (ε α : Type) where
  | exchange (primary : Nat)
  | call (k : Nat) (e : HedgeEvent ε α)

namespace CounterOp

/-- What the operation adds to `active_inflight` of a node. -/
def inflight : CounterOp → Nat → Int
  | .enter node, i => if node = i then 1 else 0
  | .leave node, i => if node = i then -1 else 0
  | _, _ => 0

/-- What the operation adds to `active_hedges`. -/
def hedges : CounterOp → Int
  | .raiseHedges => 1
  | .lowerHedges => -1
  | _ => 0

end CounterOp

namespace HedgeSystem

variable {ε α : Type}

def start : HedgeSystem ε α := ⟨fun _ => 0, 0, []⟩

def apply (s : HedgeSystem ε α) (k : Nat) (c : HedgeCall ε α) (op : CounterOp) : HedgeSystem ε α where
  activeInflight i := s.activeInflight i + op.inflight i
  activeHedges := s.activeHedges + op.hedges
  calls := s.calls.set k c

def step (n : Nat) (hedging : Bool) (s : HedgeSystem ε α) : PoolEvent ε α → Option (HedgeSystem ε α)
  | .exchange primary =>
    if primary < n then some { s with calls := s.calls ++ [HedgeCall.start primary] } else none
  | .call k e =>
    (s.calls[k]?).bind fun c =>
      (c.step n hedging s.activeHedges e).map fun r => s.apply k r.1 r.2

end HedgeSystem

/-! ### One call -/

namespace ExchangeSide

variable {ε α : Type}

/-- The exchange is not over. -/
def isPending : ExchangeSide ε α → Bool
  | .fresh | .running => true
  | _ => false

/-- How often the exchange is counted in `active_inflight`. -/
def runs : ExchangeSide ε α → Int
  | .running => 1
  | _ => 0

/-- The exchange is with node `node`; how often it is counted for node `i`. -/
def runsOn (side : ExchangeSide ε α) (node i : Nat) : Int := if node = i then side.runs else 0

@[simp] theorem runsOn_fresh (node i : Nat) : (fresh : ExchangeSide ε α).runsOn node i = 0 := ite_self 0

@[simp] theorem runsOn_running (node i : Nat) :
    (running : ExchangeSide ε α).runsOn node i = if node = i then 1 else 0 := by
  rw [runsOn, runs]

@[simp] theorem runsOn_done (result : Except ε α) (node i : Nat) : (done result).runsOn node i = 0 :=
  ite_self 0

@[simp] theorem runsOn_dropped (node i : Nat) : (dropped : ExchangeSide ε α).runsOn node i = 0 := ite_self 0

end ExchangeSide

namespace HedgeCall

variable {ε α : Type} {c c' : HedgeCall ε α} {n : Nat} {hedging : Bool} {activeHedges : Int}
  {e : HedgeEvent ε α} {op : CounterOp}

/-- How many second exchanges are in progress with a node. -/
def secondaryRuns (secondary : Option (Nat × ExchangeSide ε α)) (i : Nat) : Int :=
  (secondary.map fun r => r.2.runsOn r.1 i).getD 0

@[simp] theorem secondaryRuns_none (i : Nat) :
    secondaryRuns (none : Option (Nat × ExchangeSide ε α)) i = 0 := rfl

@[simp] theorem secondaryRuns_some (node : Nat) (side : ExchangeSide ε α) (i : Nat) :
    secondaryRuns (some (node, side)) i = side.runsOn node i := rfl

/-- How many exchanges of the call are in progress with a node. -/
def runsOn (c : HedgeCall ε α) (i : Nat) : Int :=
  c.primaryFut.runsOn c.primary i + secondaryRuns c.secondary i

/-- Whether the call is counted in `active_hedges`. -/
def counted (c : HedgeCall ε α) : Int :=
  (if c.hedge then 1 else 0) + (match c.phase with
    | .overBudget => 1
    | _ => 0)

/-- The call has a second exchange that is not over. -/
def hedged (c : HedgeCall ε α) : Bool := c.secondary.any (·.2.isPending)

/-- What the call returns or has returned. -/
def result (c : HedgeCall ε α) : Option (Except ε α) :=
  match c.phase with
  | .returning result | .ended result => result
  | _ => none

/-- The result fits the ends of the exchanges. -/
structure Settled (primaryFut : ExchangeSide ε α) (secondary : Option (Nat × ExchangeSide ε α))
    (result : Option (Except ε α)) : Prop where
  ofPrimary : ∀ resp, primaryFut = .done (.ok resp) → result = some (.ok resp)
  ofSecondary : ∀ node resp, secondary = some (node, .done (.ok resp)) → result = some (.ok resp)
  failed : ∀ node side err, secondary = some (node, side) → result = some (.error err) →
    ∃ err1 err2, primaryFut = .done (.error err1) ∧ side = .done (.error err2)

/-- What holds of a call in each phase. -/
def Lawful (c : HedgeCall ε α) : Prop :=
  match c.phase with
  | .phase1 | .overBudget => c.secondary = none ∧ c.hedge = false ∧ c.primaryFut.isPending = true
  | .choosing => c.secondary = none ∧ c.hedge = true ∧ c.primaryFut.isPending = true
  | .primaryOnly => c.secondary = none ∧ c.primaryFut.isPending = true
  | .racing => c.hedge = true ∧ c.primaryFut.isPending = true ∧ c.hedged = true
  | .primaryFailed err => c.hedge = true ∧ c.primaryFut = .done (.error err) ∧ c.hedged = true
  | .secondaryFailed => c.hedge = true ∧ c.primaryFut.isPending = true ∧
    ∃ node err, c.secondary = some (node, .done (.error err))
  | .returning result => (c.hedged = true → c.hedge = true) ∧ Settled c.primaryFut c.secondary result
  | .ended result => c.hedge = false ∧ c.hedged = false ∧ c.primaryFut.isPending = false ∧
    Settled c.primaryFut c.secondary result

/-- The steps of a call, with what they find and change. -/
inductive Takes (n : Nat) (activeHedges : Int) (c : HedgeCall ε α) : HedgeCall ε α → CounterOp → Prop
  | pollPrimary (hwait : c.awaitsPrimary = true) (hfut : c.primaryFut = .fresh) :
    Takes n activeHedges c { c with primaryFut := .running } (.enter c.primary)
  | pollSecondary {node : Nat} (hwait : c.awaitsSecondary = true) (hfut : c.secondary = some (node, .fresh)) :
    Takes n activeHedges c { c with secondary := some (node, .running) } (.enter node)
  | primaryDone (result : Except ε α) (hwait : c.awaitsPrimary = true) (hfut : c.primaryFut = .running) :
    Takes n activeHedges c { c with primaryFut := .done result, phase := c.onPrimary result }
      (.leave c.primary)
  | secondaryDone {node : Nat} (result : Except ε α) (hwait : c.awaitsSecondary = true)
      (hfut : c.secondary = some (node, .running)) :
    Takes n activeHedges c
      { c with secondary := some (node, .done result), phase := c.onSecondary result } (.leave node)
  | overBudget (hphase : c.phase = .phase1) : Takes n activeHedges c { c with phase := .overBudget } .raiseHedges
  | admitted (hphase : c.phase = .phase1) (hroom : activeHedges < budget n) :
    Takes n activeHedges c { c with hedge := true, phase := .choosing } .raiseHedges
  | giveBack (hphase : c.phase = .overBudget) :
    Takes n activeHedges c { c with phase := .primaryOnly } .lowerHedges
  | noSecondary (hphase : c.phase = .choosing) : Takes n activeHedges c { c with phase := .primaryOnly } .none
  | secondary (node : Nat) (hphase : c.phase = .choosing) :
    Takes n activeHedges c { c with secondary := some (node, .fresh), phase := .racing } .none
  | cancel (hwait : c.awaitsPrimary = true ∨ c.awaitsSecondary = true) :
    Takes n activeHedges c { c with phase := .returning none } .none
  | dropRunning {node : Nat} (result : Option (Except ε α)) (hphase : c.phase = .returning result)
      (hfut : c.secondary = some (node, .running)) :
    Takes n activeHedges c { c with secondary := some (node, .dropped) } (.leave node)
  | dropFresh {node : Nat} (result : Option (Except ε α)) (hphase : c.phase = .returning result)
      (hfut : c.secondary = some (node, .fresh)) :
    Takes n activeHedges c { c with secondary := some (node, .dropped) } .none
  | dropHedge (result : Option (Except ε α)) (hphase : c.phase = .returning result)
      (hover : c.hedged = false) (hhedge : c.hedge = true) :
    Takes n activeHedges c { c with hedge := false } .lowerHedges
  | dropPrimary (result : Option (Except ε α)) (hphase : c.phase = .returning result)
      (hover : c.hedged = false) (hhedge : c.hedge = false) (hfut : c.primaryFut = .running) :
    Takes n activeHedges c { c with primaryFut := .dropped } (.leave c.primary)
  | dropUnpolled (result : Option (Except ε α)) (hphase : c.phase = .returning result)
      (hover : c.hedged = false) (hhedge : c.hedge = false) (hfut : c.primaryFut = .fresh) :
    Takes n activeHedges c { c with primaryFut := .dropped } .none
  | finish (result : Option (Except ε α)) (hphase : c.phase = .returning result)
      (hover : c.hedged = false) (hhedge : c.hedge = false) (hfut : c.primaryFut.isPending = false) :
    Takes n activeHedges c { c with phase := .ended result } .none

theorem takes_of_dropRest (n : Nat) (activeHedges : Int) {result : Option (Except ε α)}
    (hphase : c.phase = .returning result) (hover : c.hedged = false) :
    Takes n activeHedges c (c.dropRest result).1 (c.dropRest result).2 := by
  fun_cases dropRest c result
  case case1 hhedge => exact .dropHedge result hphase hover hhedge
  case case2 hhedge hfut => exact .dropPrimary result hphase hover (by simpa using hhedge) hfut
  case case3 hhedge hfut => exact .dropUnpolled result hphase hover (by simpa using hhedge) hfut
  case case4 hhedge hrunning hfresh =>
    refine .finish result hphase hover (by simpa using hhedge) ?_
    cases hfut : c.primaryFut with
    | fresh => exact absurd hfut hfresh
    | running => exact absurd hfut hrunning
    | _ => rfl

theorem takes_of_dropNext (n : Nat) (activeHedges : Int) {result : Option (Except ε α)}
    (hphase : c.phase = .returning result) :
    Takes n activeHedges c (c.dropNext result).1 (c.dropNext result).2 := by
  fun_cases dropNext c result
  case case1 hfut => exact .dropRunning result hphase hfut
  case case2 hfut => exact .dropFresh result hphase hfut
  case case3 hrunning hfresh =>
    refine takes_of_dropRest n activeHedges hphase ?_
    rw [hedged]
    rcases hsecondary : c.secondary with _ | ⟨node, _ | _ | _ | _⟩
    case some.fresh => exact absurd hsecondary (hfresh node)
    case some.running => exact absurd hsecondary (hrunning node)
    all_goals rfl

theorem takes_of_step (h : c.step n hedging activeHedges e = some (c', op)) :
    Takes n activeHedges c c' op := by
  revert h
  fun_cases step n hedging activeHedges c e <;> intro h
  case case22 result hphase =>
    have hdrop := takes_of_dropNext n activeHedges hphase
    rwa [Option.some.inj h] at hdrop
  all_goals cases h
  case case1 hfut hwait => exact .pollPrimary hwait hfut
  case case3 node hfut hwait => exact .pollSecondary hwait hfut
  case case5 result hfut hwait => exact .primaryDone result hwait hfut
  case case7 => exact .secondaryDone _ ‹_› ‹_›
  case case9 hphase _ hbudget => exact .overBudget hphase
  case case10 hphase _ hbudget => exact .admitted hphase (Int.not_le.mp hbudget)
  case case13 hphase => exact .giveBack hphase
  case case15 hphase _ => exact .noSecondary hphase
  case case17 node hphase _ => exact .secondary node hphase
  case case20 hwait => exact .cancel (Bool.or_eq_true_iff.mp hwait)

theorem Takes.inflight (h : Takes n activeHedges c c' op) (hlaw : c.Lawful) (i : Nat) :
    op.inflight i = c'.runsOn i - c.runsOn i := by
  cases h
  case pollPrimary _ hfut | dropFresh _ _ hfut | dropUnpolled _ _ _ _ hfut =>
    simp [runsOn, hfut, CounterOp.inflight]
  case pollSecondary _ hfut | primaryDone _ _ hfut | secondaryDone _ _ hfut | dropRunning _ _ hfut |
      dropPrimary _ _ _ _ hfut =>
    simp only [runsOn, hfut, CounterOp.inflight, secondaryRuns_some, ExchangeSide.runsOn_fresh,
      ExchangeSide.runsOn_running, ExchangeSide.runsOn_done, ExchangeSide.runsOn_dropped]
    split_ifs <;> omega
  case secondary node hphase =>
    rw [Lawful, hphase] at hlaw
    simp [runsOn, hlaw.1, CounterOp.inflight]
  all_goals simp [runsOn, CounterOp.inflight]

theorem counted_eq (hphase : c.phase ≠ .overBudget) : c.counted = if c.hedge then 1 else 0 := by
  rw [counted]
  cases hp : c.phase with
  | overBudget => exact absurd hp hphase
  | _ => exact Int.add_zero _

theorem awaits_ne_overBudget (h : c.awaitsPrimary = true ∨ c.awaitsSecondary = true) :
    c.phase ≠ .overBudget := by
  intro hphase
  simp [awaitsPrimary, awaitsSecondary, hphase] at h

theorem onPrimary_ne_overBudget (c : HedgeCall ε α) (result : Except ε α) :
    c.onPrimary result ≠ .overBudget := by
  unfold onPrimary
  split <;> simp

theorem onSecondary_ne_overBudget (c : HedgeCall ε α) (result : Except ε α) :
    c.onSecondary result ≠ .overBudget := by
  unfold onSecondary
  split <;> simp

theorem Takes.hedges (h : Takes n activeHedges c c' op) (hlaw : c.Lawful) :
    op.hedges = c'.counted - c.counted := by
  cases h
  case primaryDone result hwait hfut =>
    rw [counted_eq (awaits_ne_overBudget (.inl hwait)), counted_eq (onPrimary_ne_overBudget c result)]
    exact (Int.sub_self _).symm
  case secondaryDone result hwait hfut =>
    rw [counted_eq (awaits_ne_overBudget (.inr hwait)), counted_eq (onSecondary_ne_overBudget c result)]
    exact (Int.sub_self _).symm
  case overBudget hphase | admitted hphase _ | giveBack hphase =>
    rw [Lawful, hphase] at hlaw
    simp [counted, hphase, hlaw.2.1, CounterOp.hedges]
  case noSecondary hphase | secondary _ hphase | finish _ hphase _ _ _ =>
    simp [counted, hphase, CounterOp.hedges]
  case cancel hwait =>
    rw [counted_eq (awaits_ne_overBudget hwait)]
    simp [counted, CounterOp.hedges]
  case dropHedge result hphase hover hhedge => simp [counted, hphase, hhedge, CounterOp.hedges]
  all_goals exact (Int.sub_self _).symm

/-! ### What a call returns -/

theorem hedged_iff :
    c.hedged = true ↔ ∃ node side, c.secondary = some (node, side) ∧ side.isPending = true := by
  rw [hedged, Option.any_eq_true]
  exact ⟨fun ⟨r, hr, hpending⟩ => ⟨r.1, r.2, hr, hpending⟩, fun ⟨node, side, hs, hpending⟩ =>
    ⟨(node, side), hs, hpending⟩⟩

variable {side : ExchangeSide ε α}

theorem not_done_of_isPending (h : side.isPending = true) (result : Except ε α) : side ≠ .done result := by
  rintro rfl
  exact Bool.false_ne_true h

/-- A second exchange that is not over has not ended with a response. -/
theorem not_done_of_hedged (h : c.hedged = true) (node : Nat) (result : Except ε α) :
    c.secondary ≠ some (node, .done result) := by
  obtain ⟨node', side, hside, hpending⟩ := hedged_iff.mp h
  rw [hside]
  intro heq
  obtain ⟨-, hdone⟩ := Prod.mk.inj (Option.some.inj heq)
  exact not_done_of_isPending hpending result hdone

theorem settled_alone {primaryFut : ExchangeSide ε α} {result : Option (Except ε α)}
    (h : ∀ resp, primaryFut = .done (.ok resp) → result = some (.ok resp)) :
    Settled primaryFut none result where
  ofPrimary := h
  ofSecondary node resp hs := by cases hs
  failed node side err hs := by cases hs

theorem settled_none (h : ∀ resp, c.primaryFut ≠ .done (.ok resp) ∧
    ∀ node, c.secondary ≠ some (node, .done (.ok resp))) : Settled c.primaryFut c.secondary none where
  ofPrimary resp hdone := absurd hdone (h resp).1
  ofSecondary node resp hs := absurd hs ((h resp).2 node)
  failed := nofun

theorem done_inj {r r' : Except ε α} (h : ExchangeSide.done r = .done r') : some r = some r' :=
  congrArg some (ExchangeSide.done.inj h)

theorem Lawful.primaryDone (hlaw : c.Lawful) (result : Except ε α) (hwait : c.awaitsPrimary = true) :
    Lawful { c with primaryFut := .done result, phase := c.onPrimary result } := by
  cases hphase : c.phase <;> simp only [awaitsPrimary, hphase, Bool.false_eq_true] at hwait
  case phase1 | primaryOnly =>
    simp only [Lawful, onPrimary, hphase] at hlaw ⊢
    refine ⟨fun h => by simp [hedged, hlaw.1] at h, ?_⟩
    rw [hlaw.1]
    exact settled_alone fun resp hdone => done_inj hdone
  case racing =>
    simp only [Lawful, hphase] at hlaw
    cases result with
    | ok resp =>
      simp only [Lawful, onPrimary, hphase]
      refine ⟨fun _ => hlaw.1, fun resp' hdone => done_inj hdone, fun node resp' hs => ?_, nofun⟩
      exact absurd hs (not_done_of_hedged hlaw.2.2 node _)
    | error err =>
      simp only [Lawful, onPrimary, hphase]
      exact ⟨hlaw.1, trivial, hlaw.2.2⟩
  case secondaryFailed =>
    simp only [Lawful, onPrimary, hphase] at hlaw ⊢
    obtain ⟨hhedge, -, node, err, hfailed⟩ := hlaw
    refine ⟨fun _ => hhedge, fun resp hdone => done_inj hdone, by simp [hfailed], ?_⟩
    rintro node' side err' hs ⟨⟩
    obtain ⟨-, rfl⟩ := Prod.mk.inj (Option.some.inj (hfailed.symm.trans hs))
    exact ⟨err', err, rfl, rfl⟩

theorem Lawful.secondaryDone (hlaw : c.Lawful) (node : Nat) (result : Except ε α)
    (hwait : c.awaitsSecondary = true) :
    Lawful { c with secondary := some (node, .done result), phase := c.onSecondary result } := by
  have hnot : ∀ resp, c.primaryFut ≠ .done (.ok resp) := by
    intro resp hdone
    cases hphase : c.phase <;> simp_all [Lawful, awaitsSecondary, ExchangeSide.isPending]
  cases result with
  | ok resp =>
    simp only [Lawful, onSecondary]
    refine ⟨nofun, fun resp' hdone => absurd hdone (hnot resp'), ?_, nofun⟩
    exact fun node' resp' hs => done_inj (Prod.mk.inj (Option.some.inj hs)).2
  | error err2 =>
    cases hphase : c.phase <;> simp only [awaitsSecondary, hphase, Bool.false_eq_true] at hwait <;>
      simp only [Lawful, onSecondary, hphase] at hlaw ⊢
    case racing => exact ⟨hlaw.1, hlaw.2.1, node, err2, rfl⟩
    case primaryFailed err =>
      refine ⟨nofun, by simp [hlaw.2.1], by simp, ?_⟩
      rintro node' side err' ⟨⟩ _
      exact ⟨err, err2, hlaw.2.1, rfl⟩

theorem Lawful.unanswered (hlaw : c.Lawful) (hreturn : ∀ result, c.phase ≠ .returning result)
    (hend : ∀ result, c.phase ≠ .ended result) (resp : α) :
    c.primaryFut ≠ .done (.ok resp) ∧ ∀ node, c.secondary ≠ some (node, .done (.ok resp)) := by
  cases hphase : c.phase <;> simp only [Lawful, hphase] at hlaw
  case phase1 | overBudget | choosing => exact ⟨not_done_of_isPending hlaw.2.2 _, by simp [hlaw.1]⟩
  case primaryOnly => exact ⟨not_done_of_isPending hlaw.2 _, by simp [hlaw.1]⟩
  case racing => exact ⟨not_done_of_isPending hlaw.2.1 _, fun node => not_done_of_hedged hlaw.2.2 node _⟩
  case primaryFailed => exact ⟨by simp [hlaw.2.1], fun node => not_done_of_hedged hlaw.2.2 node _⟩
  case secondaryFailed =>
    obtain ⟨-, hpending, node, err, hfailed⟩ := hlaw
    exact ⟨not_done_of_isPending hpending _, by simp [hfailed]⟩
  case returning result => exact absurd hphase (hreturn result)
  case ended result => exact absurd hphase (hend result)

theorem Lawful.hedge_of_hedged (hlaw : c.Lawful) (hhedged : c.hedged = true) : c.hedge = true := by
  obtain ⟨node, side, hs, hpending⟩ := hedged_iff.mp hhedged
  cases hphase : c.phase <;> simp only [Lawful, hphase] at hlaw <;> simp_all

theorem Lawful.cancel (hlaw : c.Lawful) (hwait : c.awaitsPrimary = true ∨ c.awaitsSecondary = true) :
    Lawful { c with phase := .returning none } := by
  have hunanswered := hlaw.unanswered
    (fun result hphase => by simp [awaitsPrimary, awaitsSecondary, hphase] at hwait)
    (fun result hphase => by simp [awaitsPrimary, awaitsSecondary, hphase] at hwait)
  exact ⟨hlaw.hedge_of_hedged, settled_none hunanswered⟩

theorem Settled.dropSecondary {result : Option (Except ε α)} (h : Settled c.primaryFut c.secondary result)
    {node : Nat} (hfut : c.secondary = some (node, side)) (hpending : side.isPending = true) :
    Settled c.primaryFut (some (node, .dropped)) result where
  ofPrimary := h.ofPrimary
  ofSecondary node' resp hs := by simp at hs
  failed node' side' err hs herr := by
    obtain ⟨err1, err2, -, hdone⟩ := h.failed node side err hfut herr
    exact absurd hdone (not_done_of_isPending hpending _)

theorem Settled.dropPrimary {result : Option (Except ε α)} (h : Settled c.primaryFut c.secondary result)
    (hpending : c.primaryFut.isPending = true) : Settled .dropped c.secondary result where
  ofPrimary resp hdone := by simp at hdone
  ofSecondary := h.ofSecondary
  failed node side err hs herr := by
    obtain ⟨err1, err2, hdone, -⟩ := h.failed node side err hs herr
    exact absurd hdone (not_done_of_isPending hpending _)

theorem Takes.lawful (h : Takes n activeHedges c c' op) (hlaw : c.Lawful) : c'.Lawful := by
  cases h
  case pollPrimary _ hfut | pollSecondary _ hfut =>
    cases hphase : c.phase <;>
      simp_all [Lawful, awaitsPrimary, awaitsSecondary, ExchangeSide.isPending, hedged]
  case primaryDone result hwait hfut => exact hlaw.primaryDone result hwait
  case secondaryDone result hwait hfut => exact hlaw.secondaryDone _ result hwait
  case overBudget | admitted | giveBack | noSecondary => simp_all [Lawful]
  case secondary => simp_all [Lawful, hedged, ExchangeSide.isPending]
  case cancel hwait => exact hlaw.cancel hwait
  case dropRunning _ hphase hfut | dropFresh _ hphase hfut =>
    simp only [Lawful, hphase] at hlaw ⊢
    exact ⟨nofun, hlaw.2.dropSecondary hfut rfl⟩
  case dropHedge _ hphase hover _ =>
    simp only [Lawful, hphase] at hlaw ⊢
    exact ⟨fun hhedged => absurd (hover.symm.trans hhedged) Bool.false_ne_true, hlaw.2⟩
  case dropPrimary _ hphase _ _ hfut | dropUnpolled _ hphase _ _ hfut =>
    simp only [Lawful, hphase] at hlaw ⊢
    exact ⟨hlaw.1, hlaw.2.dropPrimary (by rw [hfut]; rfl)⟩
  case finish _ hphase hover hhedge hfut =>
    simp only [Lawful, hphase] at hlaw ⊢
    exact ⟨hhedge, hover, hfut, hlaw.2⟩

theorem Takes.admits (h : Takes n activeHedges c c' op) (hnew : c.hedge = false) (hhedge : c'.hedge = true) :
    activeHedges < budget n := by
  cases h with
  | admitted hphase hroom => exact hroom
  | _ => simp_all

/-- The result fits the exchanges in every phase; before the call returns, neither has ended with a response. -/
theorem Lawful.settled (hlaw : c.Lawful) : Settled c.primaryFut c.secondary c.result := by
  cases hphase : c.phase with
  | returning result =>
    simp only [Lawful, hphase] at hlaw
    simpa only [HedgeCall.result, hphase] using hlaw.2
  | ended result =>
    simp only [Lawful, hphase] at hlaw
    simpa only [HedgeCall.result, hphase] using hlaw.2.2.2
  | _ =>
    rw [HedgeCall.result, hphase]
    exact settled_none (hlaw.unanswered (by simp [hphase]) (by simp [hphase]))

theorem Lawful.counted_ended (hlaw : c.Lawful) {result : Option (Except ε α)} (hphase : c.phase = .ended result) :
    c.counted = 0 := by
  rw [Lawful, hphase] at hlaw
  simp [counted, hphase, hlaw.1]

/-- Whether the call holds a hedge guard, as a number. -/
def guards (c : HedgeCall ε α) : Int := if c.hedge then 1 else 0

theorem guards_nonneg (c : HedgeCall ε α) : 0 ≤ c.guards := by
  rw [guards]
  split_ifs
  · exact Int.one_nonneg
  · exact Int.le_refl 0

theorem guards_le_counted (c : HedgeCall ε α) : c.guards ≤ c.counted := by
  rw [guards, counted]
  split <;> split <;> omega

end HedgeCall

/-! ### All calls of a pool -/

namespace HedgeSystem

variable {ε α : Type} {n : Nat} {hedging : Bool} {s s' : HedgeSystem ε α} {e : PoolEvent ε α}

/-- The counters are the sums of what the calls have entered, and the guards are within the budget. -/
structure Invariant (n : Nat) (s : HedgeSystem ε α) : Prop where
  lawful : Slots.Holds (fun _ c => c.Lawful) s.calls
  inflight : ∀ i, s.activeInflight i = (s.calls.map (·.runsOn i)).sum
  hedges : s.activeHedges = (s.calls.map (·.counted)).sum
  within : (s.calls.map (·.guards)).sum ≤ HedgeCall.budget n

theorem invariant_start : Invariant n (start : HedgeSystem ε α) where
  lawful k c h := by simp [start] at h
  inflight i := rfl
  hedges := rfl
  within := by
    change (0 : Int) ≤ max _ 4
    omega

theorem Invariant.exchange (h : Invariant n s) (primary : Nat) :
    Invariant n { s with calls := s.calls ++ [HedgeCall.start primary] } where
  lawful := h.lawful.push ⟨rfl, rfl, rfl⟩
  inflight i := by
    rw [List.map_append, List.sum_append, h.inflight i]
    simp [HedgeCall.start, HedgeCall.runsOn]
  hedges := by
    rw [List.map_append, List.sum_append, h.hedges]
    simp [HedgeCall.start, HedgeCall.counted]
  within := by
    rw [List.map_append, List.sum_append]
    simpa [HedgeCall.start, HedgeCall.guards] using h.within

/-- The guards are at most what is counted. -/
theorem Invariant.guards_le (h : Invariant n s) : (s.calls.map (·.guards)).sum ≤ s.activeHedges := by
  rw [h.hedges]
  exact List.sum_le_sum fun c _ => c.guards_le_counted

theorem Invariant.apply (h : Invariant n s) {k : Nat} {c c' : HedgeCall ε α} {op : CounterOp}
    (hc : s.calls[k]? = some c) (ht : HedgeCall.Takes n s.activeHedges c c' op) :
    Invariant n (s.apply k c' op) where
  lawful := h.lawful.set (ht.lawful (h.lawful k c hc))
  inflight i := by
    change s.activeInflight i + op.inflight i = ((s.calls.set k c').map (·.runsOn i)).sum
    rw [Slots.sum_map_set hc, h.inflight i, ht.inflight (h.lawful k c hc) i]
  hedges := by
    rw [HedgeSystem.apply, Slots.sum_map_set hc, ← h.hedges, ht.hedges (h.lawful k c hc)]
  within := by
    rw [HedgeSystem.apply, Slots.sum_map_set hc]
    have hle := h.guards_le
    have hwithin := h.within
    cases hold : c.hedge with
    | true =>
      have : c'.guards ≤ c.guards := by
        rw [HedgeCall.guards, HedgeCall.guards, hold]
        split <;> simp
      omega
    | false =>
      cases hnew : c'.hedge with
      | true =>
        have hroom := ht.admits hold hnew
        simp only [HedgeCall.guards, hold, hnew] at hle ⊢
        simp only [if_true, Bool.false_eq_true, if_false]
        omega
      | false =>
        simp only [HedgeCall.guards, hold, hnew] at hwithin ⊢
        omega

theorem Invariant.step (h : Invariant n s) (hstep : s.step n hedging e = some s') : Invariant n s' := by
  cases e with
  | exchange primary =>
    rw [HedgeSystem.step] at hstep
    split_ifs at hstep
    obtain rfl := Option.some.inj hstep
    exact h.exchange primary
  | call k e =>
    obtain ⟨c, hc, hstep⟩ := Option.bind_eq_some_iff.mp hstep
    obtain ⟨⟨c', op⟩, hcall, rfl⟩ := Option.map_eq_some_iff.mp hstep
    exact h.apply hc (HedgeCall.takes_of_step hcall)

/-- What holds of a pool with hedged exchanges at every time. -/
structure Sound (n : Nat) (s : HedgeSystem ε α) : Prop where
  /-- the second exchanges that are not over -/
  budget : s.calls.countP (·.hedged) ≤ max n 4
  inflight : ∀ i, s.activeInflight i = (s.calls.map (·.runsOn i)).sum
  hedges : (∀ c ∈ s.calls, ∃ result, c.phase = .ended result) → s.activeHedges = 0
  /-- a call with a second exchange returns a response as soon as one of the two has one -/
  responds : ∀ c ∈ s.calls, ∀ node side resp, c.secondary = some (node, side) →
    c.primaryFut = .done (.ok resp) ∨ side = .done (.ok resp) → c.result = some (.ok resp)
  fails : ∀ c ∈ s.calls, ∀ node side err, c.secondary = some (node, side) →
    c.result = some (.error err) →
    ∃ err1 err2, c.primaryFut = .done (.error err1) ∧ side = .done (.error err2)

theorem countP_le_sum {β : Type} {p : β → Bool} {f : β → Int} {xs : List β}
    (h : ∀ x ∈ xs, (if p x then 1 else 0) ≤ f x) : (xs.countP p : Int) ≤ (xs.map f).sum := by
  induction xs with
  | nil => simp
  | cons x xs ih =>
    have hx := h x List.mem_cons_self
    have hxs := ih fun y hy => h y (List.mem_cons_of_mem _ hy)
    rw [List.countP_cons, List.map_cons, List.sum_cons]
    split at hx <;> simp_all <;> omega

theorem Invariant.sound (h : Invariant n s) : Sound n s :=
  have hlawful : ∀ c ∈ s.calls, c.Lawful := fun c hc =>
    (List.mem_iff_getElem?.mp hc).elim fun k hk => h.lawful k c hk
  { budget := by
      have hcount : (s.calls.countP (·.hedged) : Int) ≤ (s.calls.map (·.guards)).sum := by
        refine countP_le_sum fun c hc => ?_
        cases hhedged : c.hedged with
        | true => simp [HedgeCall.guards, (hlawful c hc).hedge_of_hedged hhedged]
        | false => simpa using c.guards_nonneg
      have hwithin := h.within
      rw [HedgeCall.budget] at hwithin
      omega
    inflight := h.inflight
    hedges := by
      intro hended
      rw [h.hedges]
      refine List.sum_eq_zero fun x hx => ?_
      obtain ⟨c, hc, rfl⟩ := List.mem_map.mp hx
      obtain ⟨result, hphase⟩ := hended c hc
      exact (hlawful c hc).counted_ended hphase
    responds := by
      intro c hc node side resp hs hdone
      have hsettled := (hlawful c hc).settled
      exact hdone.elim (hsettled.ofPrimary resp) fun hside => hsettled.ofSecondary node resp (hside ▸ hs)
    fails := fun c hc => (hlawful c hc).settled.failed }

end HedgeSystem

end PathDns
