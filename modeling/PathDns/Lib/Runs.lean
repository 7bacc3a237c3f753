import Mathlib.Data.List.Basic

/-!
# Runs of a step function

`step s e` is the state after event `e`, none when the event cannot happen in `s`. A run meets a
condition when each of its events does in the state before it. What every step that meets the condition
keeps, every such run keeps.
-/

namespace Runs

variable {σ ε : Type}

/-- The state after a run. -/
def run (step : σ → ε → Option σ) : σ → List ε → Option σ
  | s, [] => some s
  | s, e :: es => (step s e).bind (run step · es)

/-- Every event of the run meets the condition in the state before it. -/
def Meets (step : σ → ε → Option σ) (C : σ → ε → Prop) : σ → List ε → Prop
  | _, [] => True
  | s, e :: es => C s e ∧ ∀ s', step s e = some s' → Meets step C s' es

variable {step : σ → ε → Option σ} {C D : σ → ε → Prop} {I : σ → Prop} {s s' : σ} {es : List ε}

/-- The invariant rule. -/
theorem run_invariant (hstep : ∀ s e s', I s → C s e → step s e = some s' → I s')
    (hs : I s) (hmeets : Meets step C s es) (hrun : run step s es = some s') : I s' := by
  induction es generalizing s with
  | nil =>
    simp only [run, Option.some.injEq] at hrun
    exact hrun ▸ hs
  | cons e es ih =>
    obtain ⟨hc, hrest⟩ := hmeets
    obtain ⟨s1, hs1, hrun⟩ := Option.bind_eq_some_iff.mp hrun
    exact ih (hstep s e s1 hs hc hs1) (hrest s1 hs1) hrun

theorem Meets.mono (h : Meets step C s es) (hCD : ∀ s e, C s e → D s e) : Meets step D s es := by
  induction es generalizing s with
  | nil => trivial
  | cons e es ih => exact ⟨hCD s e h.1, fun s1 hs1 => ih (h.2 s1 hs1)⟩

theorem Meets.and (h : Meets step C s es) (h' : Meets step D s es) :
    Meets step (fun s e => C s e ∧ D s e) s es := by
  induction es generalizing s with
  | nil => trivial
  | cons e es ih => exact ⟨⟨h.1, h'.1⟩, fun s1 hs1 => ih (h.2 s1 hs1) (h'.2 s1 hs1)⟩

theorem meets_congr (hstep : ∀ s e s', I s → step s e = some s' → I s')
    (hCD : ∀ s e, I s → (C s e ↔ D s e)) (hs : I s) : Meets step C s es ↔ Meets step D s es := by
  induction es generalizing s with
  | nil => exact Iff.rfl
  | cons e es ih =>
    refine and_congr (hCD s e hs) (forall_congr' fun s1 => forall_congr' fun hs1 => ?_)
    exact ih (hstep s e s1 hs hs1)

theorem meets_true (s : σ) (es : List ε) : Meets step (fun _ _ => True) s es := by
  induction es generalizing s with
  | nil => trivial
  | cons e es ih => exact ⟨trivial, fun s1 _ => ih s1⟩

theorem meets_of_forall {P : ε → Prop} (s : σ) (h : ∀ e ∈ es, P e) : Meets step (fun _ e => P e) s es := by
  induction es generalizing s with
  | nil => trivial
  | cons e es ih =>
    exact ⟨h e List.mem_cons_self, fun s1 _ => ih s1 fun e' he' => h e' (List.mem_cons_of_mem e he')⟩

theorem run_append (s : σ) (es fs : List ε) :
    run step s (es ++ fs) = (run step s es).bind (run step · fs) := by
  induction es generalizing s with
  | nil => rfl
  | cons e es ih =>
    simp only [List.cons_append, run, Option.bind_assoc, ih]

theorem exists_run_replicate {J : Nat → σ → Prop} {e : ε} {m : Nat}
    (hstep : ∀ k s, k < m → J k s → ∃ s', step s e = some s' ∧ J (k + 1) s') (hs : J 0 s) :
    ∃ s', run step s (List.replicate m e) = some s' ∧ J m s' := by
  induction m with
  | zero => exact ⟨s, rfl, hs⟩
  | succ m ih =>
    obtain ⟨s1, hrun, hs1⟩ := ih fun k t hk => hstep k t (Nat.lt_succ_of_lt hk)
    obtain ⟨s2, hlast, hs2⟩ := hstep m s1 (Nat.lt_succ_self m) hs1
    refine ⟨s2, ?_, hs2⟩
    rw [List.replicate_succ', run_append, hrun, Option.bind_some, run, hlast]
    rfl

theorem meets_append {fs : List ε} : Meets step C s (es ++ fs) ↔
    Meets step C s es ∧ ∀ s', run step s es = some s' → Meets step C s' fs := by
  induction es generalizing s with
  | nil =>
    refine ⟨fun h => ⟨trivial, fun s' hs' => Option.some.inj hs' ▸ h⟩, fun h => h.2 s rfl⟩
  | cons e es ih =>
    simp only [List.cons_append, Meets, run, ih]
    constructor
    · rintro ⟨hc, hrest⟩
      refine ⟨⟨hc, fun s1 hs1 => (hrest s1 hs1).1⟩, fun s' hs' => ?_⟩
      obtain ⟨s1, hs1, hrun⟩ := Option.bind_eq_some_iff.mp hs'
      exact (hrest s1 hs1).2 s' hrun
    · rintro ⟨⟨hc, hfirst⟩, hrest⟩
      exact ⟨hc, fun s1 hs1 => ⟨hfirst s1 hs1, fun s' hs' =>
        hrest s' (Option.bind_eq_some_iff.mpr ⟨s1, hs1, hs'⟩)⟩⟩

/-- `P` holds in every state of the run, first and last included. -/
def Throughout (step : σ → ε → Option σ) (P : σ → Prop) (s : σ) (es : List ε) : Prop :=
  ∀ front back t, es = front ++ back → run step s front = some t → P t

variable {P : σ → Prop}

theorem throughout_nil : Throughout step P s [] ↔ P s := by
  refine ⟨fun h => h [] [] s rfl rfl, fun h front back t hsplit hrun => ?_⟩
  obtain ⟨rfl, -⟩ := List.append_eq_nil_iff.mp hsplit.symm
  exact Option.some.inj hrun ▸ h

theorem throughout_cons {e : ε} : Throughout step P s (e :: es) ↔
    P s ∧ ∀ s', step s e = some s' → Throughout step P s' es := by
  constructor
  · refine fun h => ⟨h [] (e :: es) s rfl rfl, fun s1 hs1 front back t hsplit hrun => ?_⟩
    refine h (e :: front) back t (by rw [hsplit, List.cons_append]) ?_
    rw [run, hs1, Option.bind_some, hrun]
  · rintro ⟨hs, hrest⟩ front back t hsplit hrun
    cases front with
    | nil => exact Option.some.inj hrun ▸ hs
    | cons e' front =>
      obtain ⟨rfl, rfl⟩ := List.cons.inj hsplit
      obtain ⟨s1, hs1, hrun⟩ := Option.bind_eq_some_iff.mp hrun
      exact hrest s1 hs1 front back t rfl hrun

/-- If `C` says of each step whether it keeps `P`, then `P` holds throughout exactly the runs that meet
`C`. -/
theorem throughout_iff_meets (hI : ∀ s e s', I s → step s e = some s' → I s')
    (hC : ∀ s e s', I s → P s → step s e = some s' → (P s' ↔ C s e)) (hs : I s) (hP : P s)
    (hrun : (run step s es).isSome = true) : Throughout step P s es ↔ Meets step C s es := by
  induction es generalizing s with
  | nil => exact throughout_nil.trans ⟨fun _ => trivial, fun _ => hP⟩
  | cons e es ih =>
    rw [throughout_cons, Meets]
    cases hs1 : step s e with
    | none => simp [run, hs1] at hrun
    | some s1 =>
      have hrest : (run step s1 es).isSome = true := by simpa [run, hs1] using hrun
      have hiff : P s1 → (Throughout step P s1 es ↔ Meets step C s1 es) := fun hP1 =>
        ih (hI s e s1 hs hs1) hP1 hrest
      have hfirst : Throughout step P s1 es → P s1 := fun h => h [] es s1 rfl rfl
      constructor
      · rintro ⟨-, hall⟩
        have hP1 := hfirst (hall s1 rfl)
        refine ⟨(hC s e s1 hs hP hs1).mp hP1, fun s2 hs2 => ?_⟩
        obtain rfl := Option.some.inj hs2
        exact (hiff hP1).mp (hall s1 rfl)
      · rintro ⟨hc, hmeets⟩
        refine ⟨hP, fun s2 hs2 => ?_⟩
        obtain rfl := Option.some.inj hs2
        exact (hiff ((hC s e s1 hs hP hs1).mpr hc)).mpr (hmeets s1 rfl)

/-- Two runs stay related, if related events keep related states related. -/
theorem run_related {R : σ → σ → Prop} {E : ε → ε → Prop} {s s' t : σ} {es es' : List ε}
    (hstep : ∀ s s' e e' t, R s s' → E e e' → C s e → C s' e' → step s e = some t →
      ∃ t', step s' e' = some t' ∧ R t t')
    (hs : R s s') (hes : List.Forall₂ E es es') (hmeets : Meets step C s es)
    (hmeets' : Meets step C s' es') (hrun : run step s es = some t) :
    ∃ t', run step s' es' = some t' ∧ R t t' := by
  induction hes generalizing s s' with
  | nil =>
    obtain rfl := Option.some.inj hrun
    exact ⟨s', rfl, hs⟩
  | cons he _ ih =>
    obtain ⟨s1, hs1, hrun⟩ := Option.bind_eq_some_iff.mp hrun
    obtain ⟨s1', hs1', hrel⟩ := hstep _ _ _ _ _ hs he hmeets.1 hmeets'.1 hs1
    obtain ⟨t', hrun', ht'⟩ := ih hrel (hmeets.2 s1 hs1) (hmeets'.2 s1' hs1') hrun
    exact ⟨t', Option.bind_eq_some_iff.mpr ⟨s1', hs1', hrun'⟩, ht'⟩

/-- The meeting of a decidable condition can be computed. -/
def meets (step : σ → ε → Option σ) (C : σ → ε → Bool) : σ → List ε → Bool
  | _, [] => true
  | s, e :: es => C s e && (step s e).all (meets step C · es)

theorem meets_of_computed {C : σ → ε → Bool} (h : meets step C s es = true) :
    Meets step (fun s e => C s e = true) s es := by
  induction es generalizing s with
  | nil => trivial
  | cons e es ih =>
    rw [meets, Bool.and_eq_true] at h
    refine ⟨h.1, fun s1 hs1 => ih ?_⟩
    have hrest := h.2
    rw [hs1] at hrest
    exact hrest

end Runs
