import PathDns.Lib.Runs
import PathDns.Lib.Slots
import Mathlib.Data.Set.Basic

/-!
# Refreshes under one guard (`RefreshGuard`), any number of callers at once

A call of `try_begin` reads the clock, checks the deadline, swaps the flag and stores its own deadline, and
the spawned refresh ends with `finish`; the steps of different callers come in any order.

The flag is held by one refresh at a time (`Held`). The deadline is not checked again at the swap: a
caller that has passed the check can swap after another refresh has begun and finished, with a clock
reading inside that refresh's cooldown. A call whose check would still pass at its swap (`Rechecked`) keeps
every cooldown (`Paced`), and only a lone caller can rely on that.
-/

namespace PathDns

open Runs

structure RefreshGuard where
  notBeforeMs : Nat
  inProgress : Bool
deriving DecidableEq, Repr

namespace RefreshGuard

/-- `RefreshGuard::default()`. -/
def fresh : RefreshGuard := ⟨0, false⟩

/-- The cooldown of the last refresh is over. -/
def cooledDown (g : RefreshGuard) (now : Nat) : Bool := !decide (now < g.notBeforeMs)

/-- The `compare_exchange` of `try_begin`. -/
def claim (g : RefreshGuard) : Option RefreshGuard :=
  if g.inProgress then none else some { g with inProgress := true }

/-- The store of `try_begin`. -/
def coolDown (g : RefreshGuard) (now cooldownMs : Nat) : RefreshGuard :=
  { g with notBeforeMs := now + cooldownMs }

def finish (g : RefreshGuard) : RefreshGuard := { g with inProgress := false }

end RefreshGuard

/-- The minimum time between two refreshes. -/
def REFRESH_COOLDOWN_MS : Nat := 30000

/-- Where a caller of `try_begin` stands. -/
inductive TryBeginPhase where
  | outside
  /-- It has read the clock. -/
  | timed (cooldownMs now : Nat)
  /-- The deadline was not ahead of its reading. -/
  | cooled (cooldownMs now : Nat)
  /-- It has swapped the flag and not yet stored its deadline. -/
  | claimed (cooldownMs now : Nat)
deriving DecidableEq, Repr

/-- The cooldown that the call asks for. -/
def TryBeginPhase.cooldownMs : TryBeginPhase → Option Nat
  | .outside => none
  | .timed cooldownMs _ | .cooled cooldownMs _ | .claimed cooldownMs _ => some cooldownMs

def TryBeginPhase.isClaimed : TryBeginPhase → Bool
  | .claimed _ _ => true
  | _ => false

/-- A successful `try_begin` with its clock reading. -/
structure Begun where
  cooldownMs : Nat
  now : Nat
deriving DecidableEq, Repr

/-- A guard, the clock, the callers, the number of spawned refreshes and the calls that were successful. -/
structure RefreshSystem where
  guard : RefreshGuard
  clock : Nat
  callers : List TryBeginPhase
  refreshes : Nat
  begun : List Begun
deriving DecidableEq, Repr

inductive RefreshEvent where
  /-- Time passes. -/
  | advance (ms : Nat)
  /-- Caller `k` enters `try_begin` and reads the clock. -/
  | readClock (k cooldownMs : Nat)
  | check (k : Nat)
  | swap (k : Nat)
  /-- The deadline is stored, the call returns true and the refresh is spawned. -/
  | store (k : Nat)
  /-- A spawned refresh ends. -/
  | finish
deriving DecidableEq, Repr

/-- A call made at this event asks for one of these cooldowns. -/
def RefreshEvent.Asks (cooldowns : Set Nat) : RefreshEvent → Prop
  | .readClock _ cooldownMs => cooldownMs ∈ cooldowns
  | _ => True

namespace RefreshSystem

/-- Nothing has been refreshed. -/
def start (callers : Nat) : RefreshSystem := ⟨.fresh, 0, List.replicate callers .outside, 0, []⟩

def setCaller (s : RefreshSystem) (k : Nat) (phase : TryBeginPhase) : RefreshSystem :=
  { s with callers := s.callers.set k phase }

/-- The store that ends a successful call of caller `k`. -/
def begin (s : RefreshSystem) (k cooldownMs now : Nat) : RefreshSystem :=
  { s with
    guard := s.guard.coolDown now cooldownMs,
    callers := s.callers.set k .outside,
    refreshes := s.refreshes + 1,
    begun := s.begun ++ [⟨cooldownMs, now⟩] }

def step (s : RefreshSystem) : RefreshEvent → Option RefreshSystem
  | .advance ms => some { s with clock := s.clock + ms }
  | .readClock k cooldownMs => (s.callers[k]?).bind fun
    | .outside => some (s.setCaller k (.timed cooldownMs s.clock))
    | _ => none
  | .check k => (s.callers[k]?).bind fun
    | .timed cooldownMs now =>
      some (s.setCaller k (if s.guard.cooledDown now then .cooled cooldownMs now else .outside))
    | _ => none
  | .swap k => (s.callers[k]?).bind fun
    | .cooled cooldownMs now =>
      match s.guard.claim with
      | some guard => some ({ s with guard := guard }.setCaller k (.claimed cooldownMs now))
      | none => some (s.setCaller k .outside)
    | _ => none
  | .store k => (s.callers[k]?).bind fun
    | .claimed cooldownMs now =>
      some (s.begin k cooldownMs now)
    | _ => none
  | .finish =>
    match s.refreshes with
    | 0 => none
    | refreshes + 1 => some { s with guard := s.guard.finish, refreshes := refreshes }

/-- The steps, one constructor for each way a step can go. -/
inductive Takes (s : RefreshSystem) : RefreshEvent → RefreshSystem → Prop
  | advance (ms : Nat) : Takes s (.advance ms) { s with clock := s.clock + ms }
  | readClock {k : Nat} (cooldownMs : Nat) (hcaller : s.callers[k]? = some .outside) :
    Takes s (.readClock k cooldownMs) (s.setCaller k (.timed cooldownMs s.clock))
  | passed {k cooldownMs now : Nat} (hcaller : s.callers[k]? = some (.timed cooldownMs now))
    (hcool : s.guard.notBeforeMs ≤ now) : Takes s (.check k) (s.setCaller k (.cooled cooldownMs now))
  | early {k cooldownMs now : Nat} (hcaller : s.callers[k]? = some (.timed cooldownMs now)) :
    Takes s (.check k) (s.setCaller k .outside)
  | won {k cooldownMs now : Nat} (hcaller : s.callers[k]? = some (.cooled cooldownMs now))
    (hfree : s.guard.inProgress = false) :
    Takes s (.swap k) ({ s with guard := { s.guard with inProgress := true } }.setCaller k
      (.claimed cooldownMs now))
  | lost {k cooldownMs now : Nat} (hcaller : s.callers[k]? = some (.cooled cooldownMs now)) :
    Takes s (.swap k) (s.setCaller k .outside)
  | store {k cooldownMs now : Nat} (hcaller : s.callers[k]? = some (.claimed cooldownMs now)) :
    Takes s (.store k) (s.begin k cooldownMs now)
  | finish {refreshes : Nat} (hspawned : s.refreshes = refreshes + 1) :
    Takes s .finish { s with guard := s.guard.finish, refreshes := refreshes }

variable {s s' : RefreshSystem} {e : RefreshEvent} {es : List RefreshEvent}

theorem takes_of_step (h : s.step e = some s') : Takes s e s' := by
  cases e with
  | advance ms =>
    obtain rfl := Option.some.inj h
    exact .advance ms
  | readClock k cooldownMs =>
    obtain ⟨phase, hcaller, h⟩ := Option.bind_eq_some_iff.mp h
    cases phase with
    | outside =>
      obtain rfl := Option.some.inj h
      exact .readClock cooldownMs hcaller
    | timed | cooled | claimed => cases h
  | check k =>
    obtain ⟨phase, hcaller, h⟩ := Option.bind_eq_some_iff.mp h
    cases phase with
    | timed cooldownMs now =>
      obtain rfl := Option.some.inj h
      by_cases hcool : s.guard.cooledDown now = true
      · rw [if_pos hcool]
        exact .passed hcaller (by simpa [RefreshGuard.cooledDown] using hcool)
      · rw [if_neg hcool]
        exact .early hcaller
    | outside | cooled | claimed => cases h
  | swap k =>
    obtain ⟨phase, hcaller, h⟩ := Option.bind_eq_some_iff.mp h
    cases phase with
    | cooled cooldownMs now =>
      cases hflag : s.guard.inProgress with
      | true =>
        simp only [RefreshGuard.claim, hflag, if_true, Option.some.injEq] at h
        exact h ▸ .lost hcaller
      | false =>
        simp only [RefreshGuard.claim, hflag, Bool.false_eq_true, if_false, Option.some.injEq] at h
        exact h ▸ .won hcaller hflag
    | outside | timed | claimed => cases h
  | store k =>
    obtain ⟨phase, hcaller, h⟩ := Option.bind_eq_some_iff.mp h
    cases phase with
    | claimed cooldownMs now =>
      obtain rfl := Option.some.inj h
      exact .store hcaller
    | outside | timed | cooled => cases h
  | finish =>
    cases hspawned : s.refreshes with
    | zero => simp [step, hspawned] at h
    | succ refreshes =>
      simp only [step, hspawned, Option.some.injEq] at h
      exact h ▸ .finish hspawned

/-! ### One holder -/

/-- The refreshes that hold the guard. -/
def holders (s : RefreshSystem) : Nat := s.callers.countP TryBeginPhase.isClaimed + s.refreshes

/-- The flag is up exactly while a refresh holds the guard, and then there is one. -/
def Held (s : RefreshSystem) : Prop := s.holders = if s.guard.inProgress then 1 else 0

theorem Held.holders_le (h : Held s) : s.holders ≤ 1 := by
  rw [h]
  split <;> omega

variable {phase : TryBeginPhase}

theorem Held.setCaller {k : Nat} {old : TryBeginPhase} (h : Held s) (hcaller : s.callers[k]? = some old)
    (hsame : phase.isClaimed = old.isClaimed) : Held (s.setCaller k phase) := by
  rw [Held, holders, RefreshSystem.setCaller, Slots.countP_set_same hcaller hsame]
  exact h

theorem held_start (callers : Nat) : Held (start callers) := by
  simp [Held, holders, start, RefreshGuard.fresh, List.countP_replicate, TryBeginPhase.isClaimed]

theorem Held.step (h : Held s) (hstep : s.step e = some s') : Held s' := by
  cases takes_of_step hstep with
  | advance ms => exact h
  | readClock cooldownMs hcaller => exact h.setCaller hcaller rfl
  | passed hcaller hcool => exact h.setCaller hcaller rfl
  | early hcaller => exact h.setCaller hcaller rfl
  | @won k cooldownMs now hcaller hfree =>
    have hraise := Slots.countP_set_raise (a := .claimed cooldownMs now) hcaller
      (p := TryBeginPhase.isClaimed) rfl rfl
    simp only [Held, holders, hfree, Bool.false_eq_true, if_false] at h
    simp only [Held, holders, RefreshSystem.setCaller, hraise, if_true]
    omega
  | lost hcaller => exact h.setCaller hcaller rfl
  | @store k cooldownMs now hcaller =>
    have hdrop := Slots.countP_set_drop (a := .outside) hcaller (p := TryBeginPhase.isClaimed) rfl rfl
    have hsame : (s.begin k cooldownMs now).holders = s.holders := by
      simp only [holders, begin]
      omega
    exact hsame.trans h
  | finish hspawned =>
    have hle := h.holders_le
    simp only [holders, hspawned] at hle
    simp only [Held, holders, RefreshGuard.finish, Bool.false_eq_true, if_false]
    omega

/-- The caller that stores its deadline was the only one with the flag. -/
theorem Held.not_claimed_begin {k cooldownMs now : Nat} (h : Held s)
    (hcaller : s.callers[k]? = some (.claimed cooldownMs now)) :
    ∀ phase ∈ (s.begin k cooldownMs now).callers, phase.isClaimed = false := by
  have hdrop := Slots.countP_set_drop (a := .outside) hcaller (p := TryBeginPhase.isClaimed) rfl rfl
  have hle := h.holders_le
  have hzero : (s.callers.set k .outside).countP TryBeginPhase.isClaimed = 0 := by
    rw [holders] at hle
    omega
  simpa [begin, List.countP_eq_zero] using hzero

/-! ### Spacing -/

/-- The readings of any two calls with the same cooldown are at least the cooldown apart. -/
def Spaced (begun : List Begun) : Prop :=
  begun.Pairwise fun b c => b.cooldownMs = c.cooldownMs →
    b.now + b.cooldownMs ≤ c.now ∨ c.now + c.cooldownMs ≤ b.now

/-- A caller at its swap would still pass the check. -/
def Rechecked (s : RefreshSystem) : RefreshEvent → Prop
  | .swap k => ∀ cooldownMs now, s.callers[k]? = some (.cooled cooldownMs now) → s.guard.notBeforeMs ≤ now
  | _ => True

/-- Every refresh that has begun is over its cooldown for the next one. -/
structure Paced (s : RefreshSystem) : Prop where
  held : Held s
  begun : s.begun.Pairwise fun b c => b.now + b.cooldownMs ≤ c.now
  stored : ∀ b ∈ s.begun, b.now + b.cooldownMs ≤ s.guard.notBeforeMs
  claimed : ∀ cooldownMs now, .claimed cooldownMs now ∈ s.callers → ∀ b ∈ s.begun, b.now + b.cooldownMs ≤ now

theorem Paced.spaced (h : Paced s) : Spaced s.begun :=
  h.begun.imp fun hle _ => .inl hle

theorem Paced.setCaller {k : Nat} {old : TryBeginPhase} (h : Paced s) (hcaller : s.callers[k]? = some old)
    (hold : old.isClaimed = false) (hphase : phase.isClaimed = false) : Paced (s.setCaller k phase) := by
  refine ⟨h.held.setCaller hcaller (hphase.trans hold.symm), h.begun, h.stored, fun cooldownMs now hmem => ?_⟩
  rcases List.mem_or_eq_of_mem_set hmem with hmem | rfl
  · exact h.claimed cooldownMs now hmem
  · cases hphase

theorem paced_start (callers : Nat) : Paced (start callers) where
  held := held_start callers
  begun := List.Pairwise.nil
  stored := by simp [start]
  claimed := by simp [start]

theorem Paced.step (h : Paced s) (hcheck : Rechecked s e) (hstep : s.step e = some s') : Paced s' := by
  have hheld := h.held.step hstep
  cases takes_of_step hstep with
  | advance ms => exact ⟨hheld, h.begun, h.stored, h.claimed⟩
  | readClock cooldownMs hcaller => exact h.setCaller hcaller rfl rfl
  | passed hcaller hcool => exact h.setCaller hcaller rfl rfl
  | early hcaller => exact h.setCaller hcaller rfl rfl
  | @won k cooldownMs now hcaller hfree =>
    refine ⟨hheld, h.begun, h.stored, fun cooldownMs' now' hmem => ?_⟩
    rcases List.mem_or_eq_of_mem_set hmem with hmem | heq
    · exact h.claimed cooldownMs' now' hmem
    · -- the deadline covers all earlier refreshes, and the reading is past it
      cases heq
      exact fun b hb => (h.stored b hb).trans (hcheck cooldownMs now hcaller)
  | lost hcaller => exact h.setCaller hcaller rfl rfl
  | @store k cooldownMs now hcaller =>
    have hover := h.claimed cooldownMs now (List.mem_of_getElem? hcaller)
    refine ⟨hheld, ?_, ?_, fun cooldownMs' now' hmem => ?_⟩
    · refine List.pairwise_append.mpr ⟨h.begun, List.pairwise_singleton _ _, fun b hb c hc => ?_⟩
      obtain rfl := List.mem_singleton.mp hc
      exact hover b hb
    · intro b hb
      rcases List.mem_append.mp hb with hb | hb
      · exact (hover b hb).trans (Nat.le_add_right now cooldownMs)
      · obtain rfl := List.mem_singleton.mp hb
        exact Nat.le_refl _
    · exact absurd (h.held.not_claimed_begin hcaller _ hmem) (by simp [TryBeginPhase.isClaimed])
  | finish hspawned => exact ⟨hheld, h.begun, h.stored, h.claimed⟩

/-! ### A lone caller -/

/-- No caller but one, and between its check and its swap the deadline stays. -/
structure Lone (s : RefreshSystem) : Prop where
  lone : s.callers.length ≤ 1
  cooled : ∀ cooldownMs now, .cooled cooldownMs now ∈ s.callers → s.guard.notBeforeMs ≤ now

theorem Lone.rechecked (h : Lone s) (e : RefreshEvent) : Rechecked s e := by
  cases e with
  | swap k => exact fun cooldownMs now hcaller => h.cooled cooldownMs now (List.mem_of_getElem? hcaller)
  | advance | readClock | check | store | finish => trivial

theorem Lone.setCaller (h : Lone s) (k : Nat)
    (hphase : ∀ cooldownMs now, phase = .cooled cooldownMs now → s.guard.notBeforeMs ≤ now) :
    Lone (s.setCaller k phase) := by
  refine ⟨by simpa [RefreshSystem.setCaller] using h.lone, fun cooldownMs now hmem => ?_⟩
  rcases List.mem_or_eq_of_mem_set hmem with hmem | heq
  · exact h.cooled cooldownMs now hmem
  · exact hphase cooldownMs now heq.symm

theorem Lone.step (h : Lone s) (hstep : s.step e = some s') : Lone s' := by
  cases takes_of_step hstep with
  | advance ms => exact ⟨h.lone, h.cooled⟩
  | readClock cooldownMs hcaller => exact h.setCaller _ (by simp)
  | passed hcaller hcool =>
    refine h.setCaller _ fun cooldownMs' now' heq => ?_
    cases heq
    exact hcool
  | early hcaller => exact h.setCaller _ (by simp)
  | @won k cooldownMs now hcaller hfree =>
    have hflag : Lone { s with guard := { s.guard with inProgress := true } } := ⟨h.lone, h.cooled⟩
    exact hflag.setCaller k (by simp)
  | lost hcaller => exact h.setCaller _ (by simp)
  | @store k cooldownMs now hcaller =>
    refine ⟨by simpa [begin] using h.lone, fun cooldownMs' now' hmem => ?_⟩
    -- the one caller has just left `try_begin`
    have hk : k < s.callers.length := Slots.lt_length hcaller
    obtain ⟨phase, hphase⟩ : ∃ phase, s.callers = [phase] :=
      List.length_eq_one_iff.mp (Nat.le_antisymm h.lone (Nat.lt_of_le_of_lt (Nat.zero_le k) hk))
    obtain rfl : k = 0 := by
      rw [hphase] at hk
      exact Nat.lt_one_iff.mp hk
    simp [begin, hphase] at hmem
  | finish hspawned => exact ⟨h.lone, h.cooled⟩

theorem lone_start {callers : Nat} (h : callers ≤ 1) : Lone (start callers) where
  lone := by simpa [start] using h
  cooled := by simp [start]

/-! ### Two callers -/

/-- Both callers pass the check; the refresh of the second begins and finishes before the first swaps. -/
def lateSwap (cooldownMs : Nat) : List RefreshEvent :=
  [.readClock 0 cooldownMs, .check 0, .readClock 1 cooldownMs, .check 1, .swap 1, .store 1, .finish,
    .swap 0, .store 0]

theorem run_lateSwap (others cooldownMs : Nat) : run step (start (others + 2)) (lateSwap cooldownMs) =
    some ⟨⟨cooldownMs, true⟩, 0, List.replicate (others + 2) .outside, 1, [⟨cooldownMs, 0⟩, ⟨cooldownMs, 0⟩]⟩ := by
  simp [run, lateSwap, start, step, setCaller, begin, List.replicate_succ, RefreshGuard.fresh,
    RefreshGuard.cooledDown, RefreshGuard.claim, RefreshGuard.coolDown, RefreshGuard.finish]

theorem not_spaced_lateSwap {cooldownMs : Nat} (h : cooldownMs ≠ 0) :
    ¬ Spaced [⟨cooldownMs, 0⟩, ⟨cooldownMs, 0⟩] := by
  simp [Spaced, h]

/-- Every call, under way or successful, asks for one of the cooldowns. -/
structure Asked (cooldowns : Set Nat) (s : RefreshSystem) : Prop where
  callers : ∀ phase ∈ s.callers, ∀ c ∈ phase.cooldownMs, c ∈ cooldowns
  begun : ∀ b ∈ s.begun, b.cooldownMs ∈ cooldowns

variable {cooldowns : Set Nat}

theorem Asked.setCaller (h : Asked cooldowns s) (k : Nat) (hphase : ∀ c ∈ phase.cooldownMs, c ∈ cooldowns) :
    Asked cooldowns (s.setCaller k phase) := by
  refine ⟨fun other hmem => ?_, h.begun⟩
  rcases List.mem_or_eq_of_mem_set hmem with hmem | rfl
  · exact h.callers other hmem
  · exact hphase

theorem Asked.step (h : Asked cooldowns s) (hasks : e.Asks cooldowns) (hstep : s.step e = some s') :
    Asked cooldowns s' := by
  have hof : ∀ {k : Nat} {phase : TryBeginPhase}, s.callers[k]? = some phase →
      ∀ c ∈ phase.cooldownMs, c ∈ cooldowns := fun hcaller => h.callers _ (List.mem_of_getElem? hcaller)
  cases takes_of_step hstep with
  | advance ms => exact ⟨h.callers, h.begun⟩
  | readClock cooldownMs hcaller =>
    refine h.setCaller _ fun c hc => ?_
    obtain rfl := Option.some.inj hc
    exact hasks
  | @passed k cooldownMs now hcaller hcool =>
    have hasked := hof hcaller
    exact h.setCaller k hasked
  | early hcaller => exact h.setCaller _ (by simp [TryBeginPhase.cooldownMs])
  | @won k cooldownMs now hcaller hfree =>
    have hflag : Asked cooldowns { s with guard := { s.guard with inProgress := true } } :=
      ⟨h.callers, h.begun⟩
    have hasked := hof hcaller
    exact hflag.setCaller k hasked
  | lost hcaller => exact h.setCaller _ (by simp [TryBeginPhase.cooldownMs])
  | @store k cooldownMs now hcaller =>
    have hleft : Asked cooldowns (s.setCaller k .outside) := h.setCaller k (by simp [TryBeginPhase.cooldownMs])
    refine ⟨hleft.callers, fun b hb => ?_⟩
    rcases List.mem_append.mp hb with hb | hb
    · exact h.begun b hb
    · obtain rfl := List.mem_singleton.mp hb
      exact hof hcaller cooldownMs rfl
  | finish hspawned => exact ⟨h.callers, h.begun⟩

theorem asked_start (cooldowns : Set Nat) (callers : Nat) : Asked cooldowns (start callers) := by
  constructor <;> simp [start, TryBeginPhase.cooldownMs]

theorem spaced_of_zero {begun : List Begun} (h : ∀ b ∈ begun, b.cooldownMs = 0) : Spaced begun := by
  refine List.Pairwise.imp_of_mem (R := fun _ _ => True) (fun {b c} hb hc _ _ => ?_)
    (List.pairwise_of_forall fun _ _ => trivial)
  rw [h b hb, h c hc]
  exact Nat.le_total b.now c.now

/-! ### Whole runs -/

theorem Held.run (h : Held s) (hrun : run RefreshSystem.step s es = some s') : Held s' :=
  run_invariant (fun _ _ _ hs _ hstep => Held.step hs hstep) h (meets_true s es) hrun

theorem Paced.run (h : Paced s) (hmeets : Meets RefreshSystem.step Rechecked s es)
    (hrun : run RefreshSystem.step s es = some s') : Paced s' :=
  run_invariant (fun _ _ _ hs hcheck hstep => Paced.step hs hcheck hstep) h hmeets hrun

/-- A lone caller's check still holds at its swap, in every run. -/
theorem Lone.meets (h : Lone s) (es : List RefreshEvent) : Meets RefreshSystem.step Rechecked s es :=
  (meets_congr (fun _ _ _ hs hstep => Lone.step hs hstep)
    (fun _ e hs => ⟨fun _ => hs.rechecked e, fun _ => trivial⟩) h).mp (meets_true s es)

theorem Asked.run (h : Asked cooldowns s) (hasks : ∀ e ∈ es, e.Asks cooldowns)
    (hrun : run RefreshSystem.step s es = some s') : Asked cooldowns s' :=
  run_invariant (C := fun _ e => e.Asks cooldowns) (fun _ _ _ hs hask hstep => Asked.step hs hask hstep) h
    (meets_of_forall s hasks) hrun

/-- One refresh holds the guard at a time in every run. All refreshes are spaced in the runs in which every
check would still pass at the swap; they are spaced in all runs exactly for a lone caller or without a
cooldown. -/
theorem refreshes_spaced_iff (callers : Nat) (cooldowns : Set Nat) :
    ((∀ es s, (∀ e ∈ es, e.Asks cooldowns) → Runs.run step (start callers) es = some s →
        s.holders ≤ 1 ∧ Spaced s.begun) ↔
      callers ≤ 1 ∨ ∀ cooldownMs ∈ cooldowns, cooldownMs = 0) ∧
    ∀ es s, Runs.run step (start callers) es = some s →
      s.holders ≤ 1 ∧ (Meets step Rechecked (start callers) es → Spaced s.begun) := by
  have hheld : ∀ es s, Runs.run step (start callers) es = some s → s.holders ≤ 1 :=
    fun es s hrun => ((held_start callers).run hrun).holders_le
  have hpaced : ∀ es s, Runs.run step (start callers) es = some s →
      Meets step Rechecked (start callers) es → Spaced s.begun :=
    fun es s hrun hmeets => ((paced_start callers).run hmeets hrun).spaced
  refine ⟨⟨fun h => ?_, fun h es s hasks hrun => ⟨hheld es s hrun, ?_⟩⟩,
    fun es s hrun => ⟨hheld es s hrun, hpaced es s hrun⟩⟩
  · by_contra hnot
    obtain ⟨hcallers, cooldownMs, hmem, hpos⟩ :
        1 < callers ∧ ∃ cooldownMs ∈ cooldowns, cooldownMs ≠ 0 := by simpa [not_or] using hnot
    obtain ⟨others, rfl⟩ := Nat.exists_eq_add_of_le' hcallers
    have hspaced := (h _ _ (by simp [lateSwap, RefreshEvent.Asks, hmem]) (run_lateSwap others cooldownMs)).2
    exact not_spaced_lateSwap hpos hspaced
  · rcases h with hlone | hzero
    · exact hpaced es s hrun ((lone_start hlone).meets es)
    · exact spaced_of_zero fun b hb => hzero _ (((asked_start cooldowns callers).run hasks hrun).begun b hb)

/-- Two refreshes of one upstream begin with the same clock reading. -/
theorem refreshes_at_once : ∃ s, Runs.run step (start 2) (lateSwap REFRESH_COOLDOWN_MS) = some s ∧
    s.begun = [⟨REFRESH_COOLDOWN_MS, 0⟩, ⟨REFRESH_COOLDOWN_MS, 0⟩] ∧ ¬ Spaced s.begun :=
  ⟨_, run_lateSwap 0 REFRESH_COOLDOWN_MS, rfl, not_spaced_lateSwap (by decide)⟩

end RefreshSystem

end PathDns
