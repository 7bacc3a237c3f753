import PathDns.Cache.Hit
import PathDns.Lib.Runs
import PathDns.Resolver.Exchange

/-!
# The address test of `route.final`, poll by poll

Without a cached verdict `resolve_none_rule_with_cidr` starts an exchange with each of the two servers
and drives both in one task. A poll looks at the primary first; the secondary's result is put aside when
it comes first, and awaited later only when it is needed. The task is modelled with its polls and with the
completions of the two exchanges as events in any order, and compared with what the two results alone
say.
-/

namespace PathDns

open Runs

/-! ### The matcher -/

/-- Some address is in an included tag, or none is included, and no address is in an excluded one. -/
def RuleSetDb.Satisfies (db : RuleSetDb) (m : AnswerIpMatcher) (ips : List IpAddr) : Prop :=
  (m.includes = [] ∨ ∃ tag ∈ m.includes, ∃ ip ∈ ips, db.matchesIp tag ip = true) ∧
    ∀ tag ∈ m.excludes, ∀ ip ∈ ips, db.matchesIp tag ip = false

theorem RuleSetDb.matchesAnswerIp_iff (db : RuleSetDb) (m : AnswerIpMatcher) (ips : List IpAddr) :
    db.matchesAnswerIp m ips = true ↔ db.Satisfies m ips := by
  simp [matchesAnswerIp, matchesAnyIp, Satisfies]

/-! ### The task -/

/-- The test of one query: the matcher, the flag for answers without addresses, the generation the query
was routed under, and the results the two exchanges have once they complete. -/
structure CidrTest where
  answerIp : AnswerIpMatcher
  ruleset : RuleSetDb
  noipAsPrimaryIp : Bool
  generation : UInt64
  questionEnd : Nat
  primaryIdx : Nat
  secondaryIdx : Nat
  primary : Except String Answer
  secondary : Except String Answer

/-- Where the task stands: in the loop with what it has put aside, at the await behind it, or returned. -/
inductive CidrPhase where
  | driving (secondaryDone : Option (Except String Answer))
  | awaiting
  | returned (result : Except String (Answer × Nat))
deriving DecidableEq

/-- The task with its exchanges. `verdicts` are the verdicts it has handed to the verdict cache, `checked`
is the generation it has compared its own with. -/
structure CidrState where
  primaryReady : Bool
  secondaryReady : Bool
  phase : CidrPhase
  verdicts : List Bool
  checked : Option UInt64

/-- An exchange completes, or the task is polled while the hot state has the given generation. -/
inductive CidrEvent where
  | primaryCompletes
  | secondaryCompletes
  | poll (generation : UInt64)

namespace CidrTest

/-- Both exchanges are under way. -/
def start : CidrState := ⟨false, false, .driving none, [], none⟩

/-- The addresses of a response. -/
def ips (t : CidrTest) (resp : Answer) : List IpAddr := answerIps resp.packet t.questionEnd

/-- The end of the function once the secondary's result is there. -/
def withSecondary (t : CidrTest) (secondary : Except String Answer) : Except String (Answer × Nat) :=
  match t.primary with
  | .ok resp =>
    match secondary with
    | .ok b => .ok (b, t.secondaryIdx)
    | .error _ => .ok (resp, t.primaryIdx)
  | .error e1 =>
    match secondary with
    | .ok b => .ok (b, t.secondaryIdx)
    | .error e2 => .error s!"primary upstream failed: {e1}; secondary upstream failed: {e2}"

/-- `match secondary_done`: the result that was put aside, or the await. -/
def needSecondary (t : CidrTest) (secondaryDone : Option (Except String Answer)) : CidrPhase :=
  match secondaryDone with
  | some sr => .returned (t.withSecondary sr)
  | none => .awaiting

/-- What follows the loop. -/
def afterLoop (t : CidrTest) (s : CidrState) (secondaryDone : Option (Except String Answer))
    (generation : UInt64) : CidrState :=
  match t.primary with
  | .ok resp =>
    let isPrimaryIp := t.ruleset.matchesAnswerIp t.answerIp (t.ips resp)
    let unchanged := generation == t.generation
    let s := { s with checked := some generation }
    if (t.ips resp).isEmpty then
      if t.noipAsPrimaryIp then { s with phase := .returned (.ok (resp, t.primaryIdx)) }
      else { s with phase := t.needSecondary secondaryDone }
    else if isPrimaryIp then { s with
      verdicts := if unchanged then s.verdicts ++ [true] else s.verdicts
      phase := .returned (.ok (resp, t.primaryIdx)) }
    else { s with
      verdicts := if unchanged then s.verdicts ++ [false] else s.verdicts
      phase := t.needSecondary secondaryDone }
  | .error _ => { s with phase := t.needSecondary secondaryDone }

/-- One round of the loop, or of the await behind it. The primary's branch comes first. -/
def poll (t : CidrTest) (s : CidrState) (generation : UInt64) : CidrState :=
  match s.phase with
  | .driving secondaryDone =>
    if s.primaryReady then t.afterLoop s secondaryDone generation
    else if secondaryDone.isNone && s.secondaryReady then
      { s with phase := .driving (some t.secondary) }
    else s
  | .awaiting =>
    if s.secondaryReady then { s with phase := .returned (t.withSecondary t.secondary) } else s
  | .returned _ => s

/-- The state after an event. -/
def step (t : CidrTest) (s : CidrState) : CidrEvent → Option CidrState
  | .primaryCompletes => some { s with primaryReady := true }
  | .secondaryCompletes => some { s with secondaryReady := true }
  | .poll generation => some (t.poll s generation)

/-! ### What the two results say -/

/-- The primary's response is used as it is: its addresses satisfy the matcher, or it has none and the
flag is set. -/
def UsesPrimary (t : CidrTest) (resp : Answer) : Prop :=
  (t.ips resp ≠ [] ∧ t.ruleset.Satisfies t.answerIp (t.ips resp)) ∨
    (t.ips resp = [] ∧ t.noipAsPrimaryIp = true)

/-- The answer and its server from the two results alone. -/
structure Expected (t : CidrTest) (result : Except String (Answer × Nat)) : Prop where
  primary : ∀ resp, t.primary = .ok resp → t.UsesPrimary resp → result = .ok (resp, t.primaryIdx)
  secondary : ∀ b, t.secondary = .ok b → (∀ resp, t.primary = .ok resp → ¬ t.UsesPrimary resp) →
    result = .ok (b, t.secondaryIdx)
  fallback : ∀ resp e, t.primary = .ok resp → t.secondary = .error e → result = .ok (resp, t.primaryIdx)
  error : (∃ e, result = .error e) ↔ (∃ e1, t.primary = .error e1) ∧ ∃ e2, t.secondary = .error e2
  message : ∀ e1 e2, t.primary = .error e1 → t.secondary = .error e2 →
    result = .error s!"primary upstream failed: {e1}; secondary upstream failed: {e2}"

variable {r : Except String (Answer × Nat)}

theorem Expected.unique {t : CidrTest} {r' : Except String (Answer × Nat)} (h : t.Expected r)
    (h' : t.Expected r') : r = r' := by
  cases hp : t.primary with
  | ok resp =>
    by_cases huse : t.UsesPrimary resp
    · rw [h.primary resp hp huse, h'.primary resp hp huse]
    · cases hs : t.secondary with
      | ok b =>
        have hnot : ∀ resp', t.primary = .ok resp' → ¬ t.UsesPrimary resp' := by
          intro resp' hresp'
          obtain rfl : resp = resp' := Except.ok.inj (hp.symm.trans hresp')
          exact huse
        rw [h.secondary b hs hnot, h'.secondary b hs hnot]
      | error e => rw [h.fallback resp e hp hs, h'.fallback resp e hp hs]
  | error e1 =>
    cases hs : t.secondary with
    | ok b =>
      have hnot : ∀ resp, t.primary = .ok resp → ¬ t.UsesPrimary resp := by
        intro resp hresp
        simp [hp] at hresp
      rw [h.secondary b hs hnot, h'.secondary b hs hnot]
    | error e2 => rw [h.message e1 e2 hp hs, h'.message e1 e2 hp hs]

/-- A verdict handed over: the primary has addresses, the generation was found unchanged, and the verdict
says whether they satisfy the matcher. -/
def VerdictOk (t : CidrTest) (s : CidrState) (v : Bool) : Prop :=
  ∃ resp, t.primary = .ok resp ∧ t.ips resp ≠ [] ∧ s.checked = some t.generation ∧
    (v = true ↔ t.ruleset.Satisfies t.answerIp (t.ips resp))

/-! ### Every schedule -/

variable {t : CidrTest} {s s' : CidrState}

variable {resp : Answer}

theorem expected_primary (hp : t.primary = .ok resp) (huse : t.UsesPrimary resp) :
    t.Expected (.ok (resp, t.primaryIdx)) where
  primary := by
    intro resp' hresp' _
    rw [Except.ok.inj (hp.symm.trans hresp')]
  secondary := fun _ _ hnot => absurd huse (hnot resp hp)
  fallback := by
    intro resp' e hresp' _
    rw [Except.ok.inj (hp.symm.trans hresp')]
  error := by simp [hp]
  message := by simp [hp]

theorem expected_withSecondary (hnot : ∀ resp, t.primary = .ok resp → ¬ t.UsesPrimary resp) :
    t.Expected (t.withSecondary t.secondary) := by
  refine ⟨fun resp hp huse => absurd huse (hnot resp hp), ?_, ?_, ?_, ?_⟩
  · intro b hb _
    rw [withSecondary, hb]
    cases t.primary <;> rfl
  · intro resp e hp he
    rw [withSecondary, hp, he]
  · rw [withSecondary]
    cases t.primary <;> cases t.secondary <;> simp
  · intro e1 e2 hp hs
    rw [withSecondary, hp, hs]

/-- What holds of the task in every schedule. -/
structure Inv (t : CidrTest) (s : CidrState) : Prop where
  aside : ∀ sr, s.phase = .driving (some sr) → sr = t.secondary
  undecided : ∀ sr, s.phase = .driving sr → s.verdicts = []
  awaiting : s.phase = .awaiting → ∀ resp, t.primary = .ok resp → ¬ t.UsesPrimary resp
  returned : ∀ r, s.phase = .returned r → t.Expected r
  once : s.verdicts.length ≤ 1
  verdicts : ∀ v ∈ s.verdicts, t.VerdictOk s v

theorem inv_start (t : CidrTest) : t.Inv start where
  aside := by simp [start]
  undecided := fun _ _ => rfl
  awaiting := by simp [start]
  returned := by simp [start]
  once := Nat.zero_le 1
  verdicts := by simp [start]

variable {secondaryDone : Option (Except String Answer)}

theorem Inv.of_needSecondary (haside : ∀ sr, secondaryDone = some sr → sr = t.secondary)
    (hnot : ∀ resp, t.primary = .ok resp → ¬ t.UsesPrimary resp)
    (hphase : s.phase = t.needSecondary secondaryDone) (honce : s.verdicts.length ≤ 1)
    (hverdicts : ∀ v ∈ s.verdicts, t.VerdictOk s v) : t.Inv s := by
  cases secondaryDone with
  | none => exact ⟨by simp [hphase, needSecondary], by simp [hphase, needSecondary], fun _ => hnot,
      by simp [hphase, needSecondary], honce, hverdicts⟩
  | some sr =>
    refine ⟨by simp [hphase, needSecondary], by simp [hphase, needSecondary],
      by simp [hphase, needSecondary], ?_, honce, hverdicts⟩
    intro r hr
    have hreturned : CidrPhase.returned (t.withSecondary sr) = .returned r := hphase.symm.trans hr
    injection hreturned with hreturned
    rw [← hreturned, haside sr rfl]
    exact expected_withSecondary hnot

theorem Inv.of_primary (hp : t.primary = .ok resp) (huse : t.UsesPrimary resp)
    (hphase : s.phase = .returned (.ok (resp, t.primaryIdx))) (honce : s.verdicts.length ≤ 1)
    (hverdicts : ∀ v ∈ s.verdicts, t.VerdictOk s v) : t.Inv s := by
  refine ⟨by simp [hphase], by simp [hphase], by simp [hphase], ?_, honce, hverdicts⟩
  intro r hr
  have hreturned : CidrPhase.returned (.ok (resp, t.primaryIdx)) = .returned r := hphase.symm.trans hr
  injection hreturned with hreturned
  exact hreturned ▸ expected_primary hp huse

theorem verdictOk_of_checked (hp : t.primary = .ok resp) (hips : t.ips resp ≠ []) {generation : UInt64}
    (hchecked : s.checked = some generation) {v : Bool}
    (hv : v = true ↔ t.ruleset.Satisfies t.answerIp (t.ips resp))
    (hverdicts : s.verdicts = if generation == t.generation then [v] else []) :
    s.verdicts.length ≤ 1 ∧ ∀ w ∈ s.verdicts, t.VerdictOk s w := by
  rw [hverdicts]
  split_ifs with hgen
  · refine ⟨le_rfl, ?_⟩
    intro w hw
    rw [List.mem_singleton.mp hw]
    exact ⟨resp, hp, hips, by rw [hchecked, eq_of_beq hgen], hv⟩
  · simp

theorem Inv.afterLoop (h : t.Inv s) (hdriving : s.phase = .driving secondaryDone) (generation : UInt64) :
    t.Inv (t.afterLoop s secondaryDone generation) := by
  have haside : ∀ sr, secondaryDone = some sr → sr = t.secondary :=
    fun sr hsr => h.aside sr (hsr ▸ hdriving)
  have hnone : s.verdicts = [] := h.undecided _ hdriving
  rw [CidrTest.afterLoop]
  split
  · next resp hp =>
    have honly : ∀ resp', t.primary = .ok resp' → resp' = resp :=
      fun resp' hresp' => Except.ok.inj (hresp'.symm.trans hp)
    dsimp only
    by_cases hempty : (t.ips resp).isEmpty = true
    · have hips : t.ips resp = [] := List.isEmpty_iff.mp hempty
      rw [if_pos hempty]
      split_ifs with hnoip
      · exact Inv.of_primary hp (.inr ⟨hips, hnoip⟩) rfl h.once (by simp [hnone])
      · apply Inv.of_needSecondary haside
        · intro resp' hresp'
          rw [honly resp' hresp', UsesPrimary]
          simp [hips, hnoip]
        · rfl
        · exact h.once
        · simp [hnone]
    · have hips : t.ips resp ≠ [] := by simpa using hempty
      have hiff := t.ruleset.matchesAnswerIp_iff t.answerIp (t.ips resp)
      rw [if_neg hempty]
      by_cases hmatch : t.ruleset.matchesAnswerIp t.answerIp (t.ips resp) = true
      · rw [if_pos hmatch]
        have hsat := hiff.mp hmatch
        have hverdict := verdictOk_of_checked (s := { s with
            checked := some generation
            verdicts := if generation == t.generation then s.verdicts ++ [true] else s.verdicts
            phase := .returned (.ok (resp, t.primaryIdx)) }) hp hips rfl (v := true) (by simp [hsat])
          (by simp [hnone])
        exact Inv.of_primary hp (.inl ⟨hips, hsat⟩) rfl hverdict.1 hverdict.2
      · rw [if_neg hmatch]
        have hsat : ¬ t.ruleset.Satisfies t.answerIp (t.ips resp) := fun hsat => hmatch (hiff.mpr hsat)
        have hverdict := verdictOk_of_checked (s := { s with
            checked := some generation
            verdicts := if generation == t.generation then s.verdicts ++ [false] else s.verdicts
            phase := t.needSecondary secondaryDone }) hp hips rfl (v := false) (by simp [hsat])
          (by simp [hnone])
        apply Inv.of_needSecondary haside
        · intro resp' hresp'
          rw [honly resp' hresp', UsesPrimary]
          simp [hips, hsat]
        · rfl
        · exact hverdict.1
        · exact hverdict.2
  · next e hp =>
    apply Inv.of_needSecondary haside
    · intro resp' hresp'
      simp [hp] at hresp'
    · rfl
    · exact h.once
    · simp [hnone]

theorem Inv.poll (h : t.Inv s) (generation : UInt64) : t.Inv (t.poll s generation) := by
  rw [CidrTest.poll]
  split
  · next secondaryDone hdriving =>
    split_ifs
    · exact h.afterLoop hdriving generation
    · refine ⟨?_, ?_, by simp, by simp, h.once, h.verdicts⟩
      · intro sr hsr
        simpa using hsr.symm
      · intro _ _
        exact h.undecided _ hdriving
    · exact h
  · next hawaiting =>
    split_ifs
    · refine ⟨by simp, by simp, by simp, ?_, h.once, h.verdicts⟩
      intro r hr
      injection hr with hr
      exact hr ▸ expected_withSecondary (h.awaiting hawaiting)
    · exact h
  · exact h

theorem Inv.step (h : t.Inv s) {e : CidrEvent} (hstep : t.step s e = some s') : t.Inv s' := by
  cases e with
  | primaryCompletes =>
    obtain rfl := Option.some.inj hstep
    exact ⟨h.aside, h.undecided, h.awaiting, h.returned, h.once, h.verdicts⟩
  | secondaryCompletes =>
    obtain rfl := Option.some.inj hstep
    exact ⟨h.aside, h.undecided, h.awaiting, h.returned, h.once, h.verdicts⟩
  | poll generation => exact Option.some.inj hstep ▸ h.poll generation

/-! ### The task returns -/

theorem afterLoop_phase (t : CidrTest) (s : CidrState) (secondaryDone : Option (Except String Answer))
    (generation : UInt64) : (∃ r, (t.afterLoop s secondaryDone generation).phase = .returned r) ∨
      (t.afterLoop s secondaryDone generation).phase = t.needSecondary secondaryDone := by
  rw [CidrTest.afterLoop]
  split
  · dsimp only
    split_ifs <;> first | exact .inl ⟨_, rfl⟩ | exact .inr rfl
  · exact .inr rfl

theorem afterLoop_secondaryReady (t : CidrTest) (s : CidrState)
    (secondaryDone : Option (Except String Answer)) (generation : UInt64) :
    (t.afterLoop s secondaryDone generation).secondaryReady = s.secondaryReady := by
  rw [CidrTest.afterLoop]
  split
  · dsimp only
    split_ifs <;> rfl
  · rfl

theorem poll_leaves (hready : s.primaryReady = true) (generation : UInt64) :
    (∃ r, (t.poll s generation).phase = .returned r) ∨ (t.poll s generation).phase = .awaiting := by
  rw [CidrTest.poll]
  split
  · next secondaryDone _ =>
    rw [if_pos hready]
    rcases afterLoop_phase t s secondaryDone generation with hr | hneed
    · exact .inl hr
    · rw [hneed]
      cases secondaryDone with
      | none => exact .inr rfl
      | some sr => exact .inl ⟨_, rfl⟩
  · next hawaiting =>
    split_ifs
    · exact .inl ⟨_, rfl⟩
    · exact .inr hawaiting
  · next r hr => exact .inl ⟨r, hr⟩

theorem poll_secondaryReady (t : CidrTest) (s : CidrState) (generation : UInt64) :
    (t.poll s generation).secondaryReady = s.secondaryReady := by
  rw [CidrTest.poll]
  split
  · split_ifs
    · exact afterLoop_secondaryReady ..
    · rfl
    · rfl
  · split_ifs <;> rfl
  · rfl

theorem poll_poll_returned (hprimary : s.primaryReady = true) (hsecondary : s.secondaryReady = true)
    (generation generation' : UInt64) :
    ∃ r, (t.poll (t.poll s generation) generation').phase = .returned r := by
  have hready : (t.poll s generation).secondaryReady = true := by rw [poll_secondaryReady, hsecondary]
  rcases poll_leaves hprimary generation with ⟨r, hr⟩ | hawaiting
  · refine ⟨r, ?_⟩
    rw [CidrTest.poll, hr]
    exact hr
  · rw [CidrTest.poll, hawaiting, if_pos hready]
    exact ⟨_, rfl⟩

/-- In every schedule: what the task returns is what the two results say, it hands over at most one
verdict, and that is the one of the primary's addresses with the generation found unchanged; and once both
exchanges have completed, two polls make it return. -/
theorem run_expected {events : List CidrEvent} (hrun : run t.step start events = some s) :
    (∀ r, s.phase = .returned r → t.Expected r) ∧
    (s.verdicts.length ≤ 1 ∧ ∀ v ∈ s.verdicts, t.VerdictOk s v) ∧
    (s.primaryReady = true → s.secondaryReady = true → ∀ g g', ∃ s' r,
      run t.step s [.poll g, .poll g'] = some s' ∧ s'.phase = .returned r) := by
  have hinv : t.Inv s :=
    run_invariant (fun _ _ _ h _ hstep => h.step hstep) (inv_start t) (meets_true _ _) hrun
  refine ⟨hinv.returned, ⟨hinv.once, hinv.verdicts⟩, ?_⟩
  intro hprimary hsecondary g g'
  obtain ⟨r, hr⟩ := poll_poll_returned (t := t) hprimary hsecondary g g'
  exact ⟨_, r, rfl, hr⟩

/-! ### The function as one step -/

/-- The test `resolve_none_rule_with_cidr` makes. -/
def of (ctx : QueryContext) (hot : HotState) (primary secondary : Server) (up : Upstreams)
    (answerIp : AnswerIpMatcher) (ruleset : RuleSetDb) : CidrTest where
  answerIp := answerIp
  ruleset := ruleset
  noipAsPrimaryIp := hot.cfg.fallback.noipAsPrimaryIp
  generation := hot.generation
  questionEnd := ctx.fast.questionEnd
  primaryIdx := primary.index
  secondaryIdx := secondary.index
  primary := exchangeKind ctx primary.kind up.primary
  secondary := exchangeKind ctx secondary.kind up.secondary

/-- What one look at the two results gives: the answer and the verdict to hand over. -/
def outcome (t : CidrTest) : CidrOutcome :=
  match t.primary with
  | .ok resp =>
    if (t.ips resp).isEmpty then
      if t.noipAsPrimaryIp then ⟨.ok (resp, t.primaryIdx), none⟩ else ⟨t.withSecondary t.secondary, none⟩
    else if t.ruleset.matchesAnswerIp t.answerIp (t.ips resp) then ⟨.ok (resp, t.primaryIdx), some true⟩
    else ⟨t.withSecondary t.secondary, some false⟩
  | .error _ => ⟨t.withSecondary t.secondary, none⟩

variable {ctx : QueryContext} {hot : HotState} {primary secondary : Server} {up : Upstreams}
  {answerIp : AnswerIpMatcher} {ruleset : RuleSetDb}

/-- In test mode without a cached verdict the function is that look. -/
theorem resolveNoneRuleWithCidr_eq {p q : Str} (htarget : hot.cfg.fallback.target = .dual p q answerIp)
    (htags : answerIp.isEmpty = false) (hruleset : hot.ruleset = some ruleset)
    (hverdict : up.verdict = none) :
    resolveNoneRuleWithCidr ctx hot primary secondary up =
      (of ctx hot primary secondary up answerIp ruleset).outcome := by
  simp only [resolveNoneRuleWithCidr, htarget, htags, hruleset, hverdict, Bool.false_eq_true, if_false]
  cases hp : exchangeKind ctx primary.kind up.primary with
  | ok resp =>
    cases hs : exchangeKind ctx secondary.kind up.secondary <;>
      simp [outcome, of, hp, hs, ips, withSecondary]
  | error e1 =>
    cases hs : exchangeKind ctx secondary.kind up.secondary <;>
      simp [outcome, of, hp, hs, withSecondary]

theorem expected_outcome (t : CidrTest) : t.Expected t.outcome.result := by
  rw [outcome]
  split
  · next resp hp =>
    have honly : ∀ resp', t.primary = .ok resp' → resp' = resp :=
      fun resp' hresp' => Except.ok.inj (hresp'.symm.trans hp)
    have hiff := t.ruleset.matchesAnswerIp_iff t.answerIp (t.ips resp)
    split_ifs with hempty hnoip hmatch
    · exact expected_primary hp (.inr ⟨List.isEmpty_iff.mp hempty, hnoip⟩)
    · apply expected_withSecondary
      intro resp' hresp'
      rw [honly resp' hresp', UsesPrimary]
      simp [List.isEmpty_iff.mp hempty, hnoip]
    · exact expected_primary hp (.inl ⟨by simpa using hempty, hiff.mp hmatch⟩)
    · apply expected_withSecondary
      intro resp' hresp'
      have hips : t.ips resp ≠ [] := by simpa using hempty
      rw [honly resp' hresp', UsesPrimary, ← hiff]
      simp [hips, hmatch]
  · next e hp =>
    apply expected_withSecondary
    intro resp hresp
    simp [hp] at hresp

/-- Whatever the schedule, the task returns what `resolveNoneRuleWithCidr` says, and the verdict it hands
over is that of `resolveNoneRuleWithCidr`. -/
theorem run_refines {p q : Str} (htarget : hot.cfg.fallback.target = .dual p q answerIp)
    (htags : answerIp.isEmpty = false) (hruleset : hot.ruleset = some ruleset)
    (hverdict : up.verdict = none) {events : List CidrEvent}
    (hrun : run (of ctx hot primary secondary up answerIp ruleset).step start events = some s) :
    (∀ r, s.phase = .returned r → r = (resolveNoneRuleWithCidr ctx hot primary secondary up).result) ∧
    ∀ v ∈ s.verdicts, (resolveNoneRuleWithCidr ctx hot primary secondary up).verdict = some v := by
  rw [resolveNoneRuleWithCidr_eq htarget htags hruleset hverdict]
  generalize of ctx hot primary secondary up answerIp ruleset = t at hrun ⊢
  have hinv : t.Inv s :=
    run_invariant (fun _ _ _ h _ hstep => h.step hstep) (inv_start t) (meets_true _ _) hrun
  refine ⟨fun r hr => (hinv.returned r hr).unique t.expected_outcome, ?_⟩
  intro v hv
  obtain ⟨resp, hp, hips, -, hvalue⟩ := hinv.verdicts v hv
  have hnonempty : (t.ips resp).isEmpty = false := by simpa using hips
  rw [← RuleSetDb.matchesAnswerIp_iff, ← Bool.eq_iff_iff] at hvalue
  rw [outcome, hp, hvalue]
  simp only [hnonempty, Bool.false_eq_true, if_false]
  split_ifs with hmatch
  · rw [hmatch]
  · simp [hmatch]

/-- The addresses are tested against a tag that the ruleset does not have. -/
def testingHot : HotState :=
  ⟨⟨⟨.dual [] [] ⟨[['c']], []⟩, false⟩, 0, 0, [], [], []⟩, [], [], .rule 0, some ⟨∅⟩, 0⟩

theorem run_refines_allFail : ∃ s r, run (of rootContext testingHot (emptyPool 0) (emptyPool 1) allFail
      ⟨[['c']], []⟩ ⟨∅⟩).step start [.secondaryCompletes, .poll 0, .primaryCompletes, .poll 0] = some s ∧
    s.phase = .returned r ∧
    r = (resolveNoneRuleWithCidr rootContext testingHot (emptyPool 0) (emptyPool 1) allFail).result :=
  ⟨_, _, rfl, rfl, (run_refines rfl rfl rfl rfl (show run _ start
    [.secondaryCompletes, .poll 0, .primaryCompletes, .poll 0] = some _ from rfl)).1 _ rfl⟩

/-! ### SERVFAIL -/

/-- The client is given SERVFAIL: as the response, or in place of the error. -/
def GivesServfail : Except String (Answer × Nat) → Prop
  | .ok (a, _) => rcode a.packet = 2
  | .error _ => True

/-- Neither server has a response with another RCODE. -/
def NoOtherReply (t : CidrTest) : Prop :=
  ∀ a, t.primary = .ok a ∨ t.secondary = .ok a → rcode a.packet = 2

/-- When both servers respond, both responses are SERVFAIL or neither is. -/
def ServfailAgrees (t : CidrTest) : Prop :=
  ∀ resp b, t.primary = .ok resp → t.secondary = .ok b → (rcode resp.packet = 2 ↔ rcode b.packet = 2)

/-- The two results under another address test and another setting of the flag. -/
def configured (t : CidrTest) (answerIp : AnswerIpMatcher) (ruleset : RuleSetDb) (noip : Bool) : CidrTest :=
  { t with answerIp := answerIp, ruleset := ruleset, noipAsPrimaryIp := noip }

/-- A tag without addresses, included or excluded, with the flag to match, decides for either side. -/
theorem exists_configured (t : CidrTest) (resp : Answer) (uses : Bool) : ∃ answerIp ruleset noip,
    (t.configured answerIp ruleset noip).UsesPrimary resp ↔ uses = true := by
  refine ⟨if uses then ⟨[], [['c']]⟩ else ⟨[['c']], []⟩, ⟨∅⟩, uses, ?_⟩
  have hnone : ∀ ip, (⟨∅⟩ : RuleSetDb).matchesIp ['c'] ip = false := fun ip => by
    rw [RuleSetDb.matchesIp, AList.lookup_empty]
  cases uses with
  | false => simp [UsesPrimary, configured, ips, RuleSetDb.Satisfies, hnone]
  | true =>
    simp only [UsesPrimary, configured, ips, RuleSetDb.Satisfies, if_true]
    simpa [hnone] using ne_or_eq _ _

/-- The two completions and two polls make the task return what the results say. -/
theorem exists_run_expected (t : CidrTest) : ∃ events s r,
    run t.step start events = some s ∧ s.phase = .returned r ∧ t.Expected r := by
  let s0 : CidrState := ⟨true, true, .driving none, [], none⟩
  have hrun0 : run t.step start [.primaryCompletes, .secondaryCompletes] = some s0 := rfl
  obtain ⟨s, r, hrun, hr⟩ := (run_expected hrun0).2.2 rfl rfl 0 0
  have hall : run t.step start ([.primaryCompletes, .secondaryCompletes] ++ [.poll 0, .poll 0]) = some s := by
    rw [run_append, hrun0]
    exact hrun
  exact ⟨_, s, r, hall, hr, (run_expected hall).1 r hr⟩

theorem noOtherReply_of_expected (h : t.ServfailAgrees) (hr : t.Expected r) (hservfail : GivesServfail r) :
    t.NoOtherReply := by
  cases hp : t.primary with
  | error e1 =>
    intro a ha
    have ha : t.secondary = .ok a := ha.resolve_left (by simp [hp])
    rwa [hr.secondary a ha (by simp [hp])] at hservfail
  | ok resp =>
    have hresp : ∀ resp', t.primary = .ok resp' → resp' = resp :=
      fun resp' h' => Except.ok.inj (h'.symm.trans hp)
    cases hs : t.secondary with
    | error e2 =>
      rw [hr.fallback resp e2 hp hs] at hservfail
      intro a ha
      rw [hresp a (ha.resolve_right (by simp [hs]))]
      exact hservfail
    | ok b =>
      have hagrees := h resp b hp hs
      have hboth : rcode resp.packet = 2 ∧ rcode b.packet = 2 := by
        by_cases huse : t.UsesPrimary resp
        · rw [hr.primary resp hp huse] at hservfail
          exact ⟨hservfail, hagrees.mp hservfail⟩
        · rw [hr.secondary b hs (fun resp' h' => hresp resp' h' ▸ huse)] at hservfail
          exact ⟨hagrees.mpr hservfail, hservfail⟩
      rintro a (ha | ha)
      · exact hresp a ha ▸ hboth.1
      · exact Except.ok.inj (hs.symm.trans ha) ▸ hboth.2

/-- Two results, under every address test, both settings of the flag and every schedule: the client is
given SERVFAIL only without a response of another RCODE, exactly when the two agree on SERVFAIL. -/
theorem servfail_only_without_reply_iff (t : CidrTest) :
    (∀ answerIp ruleset noip events s r, run (t.configured answerIp ruleset noip).step start events = some s →
      s.phase = .returned r → GivesServfail r → t.NoOtherReply) ↔ t.ServfailAgrees := by
  constructor
  · intro h resp b hp hs
    constructor
    · intro hservfail
      obtain ⟨answerIp, ruleset, noip, huse⟩ := t.exists_configured resp true
      obtain ⟨events, s, r, hrun, hr, hexpected⟩ := (t.configured answerIp ruleset noip).exists_run_expected
      have hnone := h answerIp ruleset noip events s r hrun hr
      rw [hexpected.primary resp hp (huse.mpr rfl)] at hnone
      exact hnone hservfail b (.inr hs)
    · intro hservfail
      obtain ⟨answerIp, ruleset, noip, huse⟩ := t.exists_configured resp false
      obtain ⟨events, s, r, hrun, hr, hexpected⟩ := (t.configured answerIp ruleset noip).exists_run_expected
      have hnone := h answerIp ruleset noip events s r hrun hr
      have hnot : ∀ resp', t.primary = .ok resp' → ¬ (t.configured answerIp ruleset noip).UsesPrimary resp' := by
        intro resp' h' hused
        obtain rfl := Except.ok.inj (hp.symm.trans h')
        exact Bool.false_ne_true (huse.mp hused)
      rw [hexpected.secondary b hs hnot] at hnone
      exact hnone hservfail resp (.inl hp)
  · intro h answerIp ruleset noip events s r hrun hr hservfail
    have hnone : (t.configured answerIp ruleset noip).NoOtherReply :=
      noOtherReply_of_expected h ((run_expected hrun).1 r hr) hservfail
    exact hnone

/-- Two responses to an A query without records, one NXDOMAIN and one SERVFAIL. -/
def sampleServfail (noip primaryFails : Bool) : CidrTest where
  answerIp := ⟨[['c']], []⟩
  ruleset := ⟨(∅ : AList fun _ : Str => TagEntry).insert ['c'] (.ipCidr ⟨[], IpRangeSet.sorted_nil⟩)⟩
  noipAsPrimaryIp := noip
  generation := 4
  questionEnd := 17
  primaryIdx := 0
  secondaryIdx := 1
  primary := .ok ⟨sampleRcode (if primaryFails then 0x82 else 0x83), .upstream []⟩
  secondary := .ok ⟨sampleRcode (if primaryFails then 0x83 else 0x82), .upstream []⟩
where
  /-- The response to a query for the A record of the root name. -/
  sampleRcode (flags : UInt8) : Packet :=
    [0, 7, 0x81, flags, 0, 1, 0, 0, 0, 0, 0, 0, 0, 0, 1, 0, 1]

/-- Some schedule gives the client a SERVFAIL response while a server has another RCODE. -/
def HidesReply (t : CidrTest) : Prop :=
  ∃ events s a i, run t.step start events = some s ∧ s.phase = .returned (.ok (a, i)) ∧
    rcode a.packet = 2 ∧ ¬ t.NoOtherReply

theorem hidesReply_sample (flag : Bool) : (sampleServfail flag flag).HidesReply := by
  have hother : ¬ (sampleServfail flag flag).NoOtherReply := by
    intro h
    have hsides := And.intro (h _ (.inl rfl)) (h _ (.inr rfl))
    revert hsides
    cases flag <;> decide +kernel
  have hend : (run (sampleServfail flag flag).step start
      [.primaryCompletes, .secondaryCompletes, .poll 4, .poll 4]).any (fun s => decide
        (s.phase = .returned (.ok (⟨sampleServfail.sampleRcode 0x82, .upstream []⟩, flag.toNat ^^^ 1)))) =
      true := by
    cases flag <;> decide +kernel
  obtain ⟨s, hrun, hs⟩ := (Option.any_eq_true _ _).mp hend
  exact ⟨_, s, _, _, hrun, of_decide_eq_true hs, by decide +kernel, hother⟩

/-- With the flag the primary's SERVFAIL hides the secondary's NXDOMAIN; without it the secondary's
SERVFAIL hides the primary's. -/
theorem servfail_hides_reply :
    (sampleServfail true true).HidesReply ∧ (sampleServfail false false).HidesReply :=
  ⟨hidesReply_sample true, hidesReply_sample false⟩

end CidrTest

/-! ### The secondary is first -/

/-- The primary answers with an address outside the tag, the secondary with an error. -/
def sampleTest : CidrTest where
  answerIp := ⟨[['c']], []⟩
  ruleset := ⟨(∅ : AList fun _ : Str => TagEntry).insert ['c'] (.ipCidr ⟨[], IpRangeSet.sorted_nil⟩)⟩
  noipAsPrimaryIp := false
  generation := 4
  questionEnd := 19
  primaryIdx := 0
  secondaryIdx := 1
  primary := .ok ⟨sampleResponse, .upstream []⟩
  secondary := .error "timeout"

/-- The secondary's error is put aside before the primary completes. -/
theorem CidrTest.run_expected_secondaryFirst : ∃ s,
    run sampleTest.step CidrTest.start
      [.secondaryCompletes, .poll 4, .primaryCompletes, .poll 4] = some s ∧
    s.phase = .returned (.ok (⟨sampleResponse, .upstream []⟩, 0)) ∧ s.verdicts = [false] ∧
    sampleTest.Expected (.ok (⟨sampleResponse, .upstream []⟩, 0)) := by
  have hend : (run sampleTest.step CidrTest.start
      [.secondaryCompletes, .poll 4, .primaryCompletes, .poll 4]).any (fun s => decide
        (s.phase = .returned (.ok (⟨sampleResponse, .upstream []⟩, 0)) ∧ s.verdicts = [false])) = true := by
    decide +kernel
  obtain ⟨s, hrun, hs⟩ := (Option.any_eq_true _ _).mp hend
  obtain ⟨hphase, hverdicts⟩ := of_decide_eq_true hs
  exact ⟨s, hrun, hphase, hverdicts, (CidrTest.run_expected hrun).1 _ hphase⟩

end PathDns
