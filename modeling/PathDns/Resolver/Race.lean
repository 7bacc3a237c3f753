import PathDns.Lib.Runs
import PathDns.Resolver.Exchange

/-!
# The race of two servers, poll by poll

`race` drives an exchange with each of the two servers in one `select!`. The first response that is no
SERVFAIL ends it. After a SERVFAIL or an error the task awaits the other side and `pick_race_winner` merges
the two results. `select!` looks at its branches in a random order, so each poll comes with the side it looks
at first; the completions of the two exchanges are events in any order. Whatever the schedule, what the task
returns obeys one law about the two results (`Law`).
-/

namespace PathDns

open Runs

/-- The two sides of a race: their servers, and the results the exchanges have once they complete. -/
structure RaceTask where
  primaryIdx : Nat
  secondaryIdx : Nat
  primary : Except String Answer
  secondary : Except String Answer

/-- Where the task stands: in the `select!`, at the await of the other side, or returned. -/
inductive RacePhase where
  | selecting
  | awaiting (first : Bool)
  | returned (result : Except String (Answer × Nat))
deriving DecidableEq

structure RaceState where
  primaryReady : Bool
  secondaryReady : Bool
  phase : RacePhase

/-- The exchange of a side has completed. -/
def RaceState.ready (s : RaceState) (isPrimary : Bool) : Bool :=
  if isPrimary then s.primaryReady else s.secondaryReady

/-- An exchange completes, or the task is polled and looks first at the primary, or at the
secondary. -/
inductive RaceEvent where
  | primaryCompletes
  | secondaryCompletes
  | poll (look : Bool)

namespace RaceTask

/-- Both exchanges are under way. -/
def start : RaceState := ⟨false, false, .selecting⟩

/-- The result of a side. -/
def result (t : RaceTask) (isPrimary : Bool) : Except String Answer :=
  if isPrimary then t.primary else t.secondary

/-- The server of a side. -/
def index (t : RaceTask) (isPrimary : Bool) : Nat :=
  if isPrimary then t.primaryIdx else t.secondaryIdx

/-- The await of the other side, and `pick_race_winner` once it is there. -/
def await (t : RaceTask) (s : RaceState) (first : Bool) : RaceState :=
  if s.ready (!first) then { s with
    phase := .returned (pickRaceWinner (t.result first) (t.index first) (t.result !first) (t.index !first)) }
  else { s with phase := .awaiting first }

/-- The branch of a side that is ready. -/
def branch (t : RaceTask) (s : RaceState) (first : Bool) : RaceState :=
  if isClean (t.result first) then { s with
    phase := .returned ((t.result first).map (·, t.index first)) }
  else t.await s first

/-- One poll of the task. -/
def poll (t : RaceTask) (s : RaceState) (look : Bool) : RaceState :=
  match s.phase with
  | .selecting =>
    if s.ready look then t.branch s look
    else if s.ready (!look) then t.branch s (!look)
    else s
  | .awaiting first => t.await s first
  | .returned _ => s

/-- The state after an event. -/
def step (t : RaceTask) (s : RaceState) : RaceEvent → Option RaceState
  | .primaryCompletes => some { s with primaryReady := true }
  | .secondaryCompletes => some { s with secondaryReady := true }
  | .poll look => some (t.poll s look)

/-! ### What the two results say -/

/-- What may come out of a race: a response that is no SERVFAIL if there is one, else a SERVFAIL response
if there is a response, an error when both sides fail, and with a response the server it came from. -/
structure Law (t : RaceTask) (result : Except String (Answer × Nat)) : Prop where
  clean : isClean t.primary = true ∨ isClean t.secondary = true →
    ∃ a i, result = .ok (a, i) ∧ rcode a.packet ≠ 2
  servfail : ¬ (isClean t.primary = true ∨ isClean t.secondary = true) →
    (∃ a, t.primary = .ok a ∨ t.secondary = .ok a) → ∃ a i, result = .ok (a, i) ∧ rcode a.packet = 2
  error : (∃ e, result = .error e) ↔ (∃ e, t.primary = .error e) ∧ ∃ e, t.secondary = .error e
  winner : ∀ a i, result = .ok (a, i) →
    (t.primary = .ok a ∧ i = t.primaryIdx) ∨ (t.secondary = .ok a ∧ i = t.secondaryIdx)

/-- The task with its sides exchanged. -/
def swap (t : RaceTask) : RaceTask := ⟨t.secondaryIdx, t.primaryIdx, t.secondary, t.primary⟩

variable {t : RaceTask} {r : Except String (Answer × Nat)}

theorem Law.of_swap (h : t.swap.Law r) : t.Law r where
  clean hc := h.clean hc.symm
  servfail hc := fun ⟨a, ha⟩ => h.servfail (fun hc' => hc hc'.symm) ⟨a, ha.symm⟩
  error := h.error.trans and_comm
  winner a i hr := (h.winner a i hr).symm

theorem isClean_ok {a : Answer} : isClean (.ok a) = true ↔ rcode a.packet ≠ 2 := by
  simp [isClean]

theorem law_clean (h : isClean t.primary = true) : t.Law (t.primary.map (·, t.primaryIdx)) := by
  cases hp : t.primary with
  | error e => simp [hp, isClean] at h
  | ok a =>
    rw [hp] at h
    have hclean := isClean_ok.mp h
    refine ⟨fun _ => ⟨a, t.primaryIdx, rfl, hclean⟩, fun hnot => absurd (.inl (hp ▸ h)) hnot, ?_, ?_⟩
    · simp [hp, Except.map]
    · intro b i hb
      obtain ⟨rfl, rfl⟩ := Prod.mk.inj (Except.ok.inj hb)
      exact .inl ⟨hp, rfl⟩

theorem law_pickRaceWinner (h : isClean t.primary = false) :
    t.Law (pickRaceWinner t.primary t.primaryIdx t.secondary t.secondaryIdx) := by
  unfold pickRaceWinner
  by_cases hs : isClean t.secondary = true
  · rw [if_pos hs]
    exact Law.of_swap (law_clean (t := t.swap) hs)
  · have hnone : ¬ (isClean t.primary = true ∨ isClean t.secondary = true) := by simp [h, hs]
    rw [if_neg hs]
    rw [Bool.not_eq_true] at hs
    refine ⟨fun hc => absurd hc hnone, ?_, ?_, ?_⟩
    · rintro - ⟨a, ha⟩
      cases hp : t.primary with
      | ok b =>
        refine ⟨b, t.primaryIdx, rfl, ?_⟩
        simpa [hp, isClean] using h
      | error e =>
        obtain ha | ha := ha
        · simp [hp] at ha
        · refine ⟨a, t.secondaryIdx, by rw [ha], ?_⟩
          simpa [ha, isClean] using hs
    · cases t.primary <;> cases t.secondary <;> simp
    · intro a i hr
      cases hp : t.primary with
      | ok b =>
        rw [hp] at hr
        obtain ⟨rfl, rfl⟩ := Prod.mk.inj (Except.ok.inj hr)
        exact .inl ⟨rfl, rfl⟩
      | error e =>
        cases hsec : t.secondary with
        | ok b =>
          rw [hp, hsec] at hr
          obtain ⟨rfl, rfl⟩ := Prod.mk.inj (Except.ok.inj hr)
          exact .inr ⟨rfl, rfl⟩
        | error e2 =>
          rw [hp, hsec] at hr
          simp at hr

/-! ### One step and a whole run -/

variable {t : RaceTask} {s s' : RaceState}

/-- What the task returns when it has looked at the given side first. -/
def outcome (t : RaceTask) (first : Bool) : Except String (Answer × Nat) :=
  if isClean (t.result first) then (t.result first).map (·, t.index first)
  else pickRaceWinner (t.result first) (t.index first) (t.result !first) (t.index !first)

theorem law_outcome (t : RaceTask) (first : Bool) : t.Law (t.outcome first) := by
  unfold outcome
  split
  · next h =>
    cases first with
    | true => exact law_clean h
    | false => exact Law.of_swap (law_clean (t := t.swap) h)
  · next h =>
    rw [Bool.not_eq_true] at h
    cases first with
    | true => exact law_pickRaceWinner h
    | false => exact Law.of_swap (law_pickRaceWinner (t := t.swap) h)

/-- What holds between two polls: a returned result is an outcome, and the side the task has left behind
had no clean response. -/
structure Inv (t : RaceTask) (s : RaceState) : Prop where
  returned : ∀ r, s.phase = .returned r → ∃ first, r = t.outcome first
  awaiting : ∀ first, s.phase = .awaiting first → isClean (t.result first) = false

theorem inv_start (t : RaceTask) : t.Inv start where
  returned _ h := by simp [start] at h
  awaiting _ h := by simp [start] at h

variable {first : Bool}

theorem Inv.await (h : isClean (t.result first) = false) : t.Inv (t.await s first) := by
  unfold RaceTask.await
  split
  · refine ⟨fun r hr => ?_, fun _ hw => by simp at hw⟩
    refine ⟨first, ?_⟩
    rw [← RacePhase.returned.inj hr, outcome, h]
    rfl
  · refine ⟨fun _ hr => by simp at hr, fun b hb => ?_⟩
    rw [← RacePhase.awaiting.inj hb]
    exact h

theorem Inv.branch : t.Inv (t.branch s first) := by
  unfold RaceTask.branch
  split
  · next hclean =>
    refine ⟨fun r hr => ?_, fun _ hw => by simp at hw⟩
    refine ⟨first, ?_⟩
    rw [← RacePhase.returned.inj hr, outcome, if_pos hclean]
  · next hclean => exact Inv.await (Bool.not_eq_true _ ▸ hclean)

theorem Inv.poll (h : t.Inv s) (look : Bool) : t.Inv (t.poll s look) := by
  unfold RaceTask.poll
  cases hphase : s.phase with
  | selecting =>
    simp only
    split
    · exact Inv.branch
    · split
      · exact Inv.branch
      · exact h
  | awaiting first => exact Inv.await (h.awaiting first hphase)
  | returned r => exact h

theorem Inv.step (h : t.Inv s) {e : RaceEvent} (hstep : t.step s e = some s') : t.Inv s' := by
  cases e with
  | primaryCompletes =>
    obtain rfl := Option.some.inj hstep
    exact ⟨h.returned, h.awaiting⟩
  | secondaryCompletes =>
    obtain rfl := Option.some.inj hstep
    exact ⟨h.returned, h.awaiting⟩
  | poll look =>
    obtain rfl := Option.some.inj hstep
    exact h.poll look

/-! ### A poll that returns -/

theorem await_returns (h : s.ready (!first) = true) : ∃ r, (t.await s first).phase = .returned r := by
  simp [RaceTask.await, h]

theorem branch_returns (h : s.ready (!first) = true ∨ isClean (t.result first) = true) :
    ∃ r, (t.branch s first).phase = .returned r := by
  unfold RaceTask.branch
  split
  · exact ⟨_, rfl⟩
  · next hclean => exact await_returns (h.resolve_right hclean)

/-- The task can return: both exchanges have completed, or one has with a clean response. -/
def Decided (t : RaceTask) (s : RaceState) : Prop :=
  (∀ side, s.ready side = true) ∨ ∃ side, s.ready side = true ∧ isClean (t.result side) = true

theorem poll_returns (h : t.Inv s) (hd : t.Decided s) (look : Bool) :
    ∃ r, (t.poll s look).phase = .returned r := by
  unfold RaceTask.poll
  cases hphase : s.phase with
  | returned r => exact ⟨r, hphase⟩
  | awaiting first =>
    refine await_returns ?_
    obtain hall | ⟨side, hready, hclean⟩ := hd
    · exact hall _
    · -- the side left behind had no clean response, so the clean one is the other
      have hne : side ≠ first := fun heq => by simp [heq, h.awaiting first hphase] at hclean
      rwa [Bool.eq_not_of_ne hne] at hready
  | selecting =>
    simp only
    obtain hall | ⟨side, hready, hclean⟩ := hd
    · rw [if_pos (hall look)]
      exact branch_returns (.inl (hall _))
    · by_cases hside : side = look
      · subst hside
        rw [if_pos hready]
        exact branch_returns (.inr hclean)
      · obtain rfl := Bool.eq_not_of_ne hside
        split
        · exact branch_returns (.inl hready)
        · exact branch_returns (.inr hclean)

/-! ### The function as one step -/

/-- The task of `race`. -/
def of (ctx : QueryContext) (primary secondary : Server) (up : Upstreams) : RaceTask where
  primaryIdx := primary.index
  secondaryIdx := secondary.index
  primary := exchangeKind ctx primary.kind up.primary
  secondary := exchangeKind ctx secondary.kind up.secondary

variable {ctx : QueryContext} {primary secondary : Server} {up : Upstreams}

theorem race_eq : race ctx primary secondary up = (of ctx primary secondary up).outcome up.primaryFirst := by
  unfold race outcome
  cases up.primaryFirst <;> rfl

theorem Inv.of_run {events : List RaceEvent} (hrun : run t.step start events = some s) : t.Inv s :=
  run_invariant (fun _ _ _ h _ hstep => h.step hstep) (inv_start t) (meets_true _ _) hrun

/-- Whatever the schedule, the task returns what `race` says for one of the two sides as the first. -/
theorem race_refines {events : List RaceEvent}
    (hrun : run (of ctx primary secondary up).step start events = some s) (hr : s.phase = .returned r) :
    ∃ first, r = race ctx primary secondary { up with primaryFirst := first } := by
  obtain ⟨first, rfl⟩ := (Inv.of_run hrun).returned r hr
  refine ⟨first, ?_⟩
  rw [race_eq]
  rfl

/-- The secondary fails first. -/
theorem race_refines_allFail : ∃ s r, run (of rootContext (emptyPool 0) (emptyPool 1) allFail).step start
      [.secondaryCompletes, .poll false, .primaryCompletes, .poll true] = some s ∧ s.phase = .returned r ∧
    ∃ first, r = race rootContext (emptyPool 0) (emptyPool 1) { allFail with primaryFirst := first } :=
  ⟨_, _, rfl, rfl, race_refines (show run _ start
    [.secondaryCompletes, .poll false, .primaryCompletes, .poll true] = some _ from rfl) rfl⟩

/-- In every schedule what the task returns obeys the law, and the task returns at the next poll once both
exchanges have completed, or one has with a clean response; and `race` itself obeys the law. -/
theorem race_law {events : List RaceEvent} (hrun : run t.step start events = some s) :
    (∀ r, s.phase = .returned r → t.Law r) ∧
    (t.Decided s → ∀ look, ∃ r, (t.poll s look).phase = .returned r) ∧
    ∀ ctx primary secondary up, (of ctx primary secondary up).Law (race ctx primary secondary up) := by
  have hinv := Inv.of_run hrun
  refine ⟨fun r hr => ?_, poll_returns hinv, fun ctx primary secondary up => ?_⟩
  · obtain ⟨first, rfl⟩ := hinv.returned r hr
    exact t.law_outcome first
  · rw [race_eq]
    exact law_outcome _ _

/-- The primary answers SERVFAIL, the secondary NXDOMAIN. -/
def sampleRace : RaceTask where
  primaryIdx := 0
  secondaryIdx := 1
  primary := .ok ⟨[0, 7, 0x81, 0x82], .upstream []⟩
  secondary := .ok ⟨[0, 7, 0x81, 0x83], .upstream []⟩

/-- The SERVFAIL is there first, and the task waits for the other side. -/
theorem race_law_servfailFirst : ∃ s,
    run sampleRace.step start [.primaryCompletes, .poll false, .secondaryCompletes, .poll true] = some s ∧
    s.phase = .returned (.ok (⟨[0, 7, 0x81, 0x83], .upstream []⟩, 1)) ∧
    sampleRace.Law (.ok (⟨[0, 7, 0x81, 0x83], .upstream []⟩, 1)) := by
  have hend : (run sampleRace.step start
      [.primaryCompletes, .poll false, .secondaryCompletes, .poll true]).any (fun s => decide
        (s.phase = .returned (.ok (⟨[0, 7, 0x81, 0x83], .upstream []⟩, 1)))) = true := by
    decide +kernel
  obtain ⟨s, hrun, hs⟩ := (Option.any_eq_true _ _).mp hend
  have hphase := of_decide_eq_true hs
  exact ⟨s, hrun, hphase, (race_law hrun).1 _ hphase⟩

end RaceTask

end PathDns
