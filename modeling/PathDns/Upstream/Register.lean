import PathDns.Upstream.InflightRuns
import Mathlib.Data.Finset.Card
import Mathlib.Data.Finset.Image
import Mathlib.Order.Interval.Finset.Nat

/-!
# The search for a free ID (`register` of `upstream/inflight.rs`)

`register` draws up to 65535 IDs from consecutive counter values. The mix of a counter value is not
injective, so a window of 65535 values does not reach all 65535 nonzero IDs: the table can be full for a
window while IDs are free. A call that is not interrupted is the run of its steps (`run_register`).
-/

namespace PathDns

open Bytes Runs

/-- The errors of `register`. -/
inductive RegisterError where
  | capReached
  | tableFull
deriving DecidableEq, Repr

/-- What `register` is given, with the number of its channel. -/
structure RegisterArgs where
  tx : Nat
  clientId : UInt16
  question : List UInt8
deriving DecidableEq, Repr

namespace InflightRegistry

/-- The loop of `register`; the permit is dropped with the error. -/
def registerLoop (args : RegisterArgs) (token : UInt64) :
    Nat → InflightRegistry → Except RegisterError InflightGuard × InflightRegistry
  | 0, r => (.error .tableFull, r.release)
  | left + 1, r =>
    let id := mix16 r.nextId
    let r := { r with nextId := r.nextId + 1 }
    match r.get id with
    | none => (.ok ⟨id, token⟩, r.insert id ⟨args.tx, args.clientId, args.question, token⟩)
    | some _ => registerLoop args token left r

def register (r : InflightRegistry) (args : RegisterArgs) :
    Except RegisterError InflightGuard × InflightRegistry :=
  match r.tryAcquire with
  | none => (.error .capReached, r)
  | some r =>
    registerLoop args r.nextToken InflightSystem.idAttempts { r with nextToken := r.nextToken + 1 }

/-! ### What the loop reaches -/

/-- The ID that the `i`-th turn draws. -/
def drawn (r : InflightRegistry) (i : Nat) : UInt16 := mix16 (r.nextId + UInt32.ofNat i)

theorem drawn_zero (r : InflightRegistry) : r.drawn 0 = mix16 r.nextId := by
  change mix16 (r.nextId + 0) = _
  rw [UInt32.add_zero]

theorem drawn_succ (r : InflightRegistry) (i : Nat) :
    drawn { r with nextId := r.nextId + 1 } i = r.drawn (i + 1) := by
  rw [drawn, drawn, UInt32.ofNat_add, UInt32.add_assoc, UInt32.add_comm 1]
  rfl

/-- The loop returns a guard for the first free ID it draws, and fails when it draws none. -/
theorem registerLoop_fst (args : RegisterArgs) (token : UInt64) (left : Nat) (r : InflightRegistry) :
    (∃ i, i < left ∧ r.get (r.drawn i) = none ∧ (registerLoop args token left r).1 = .ok ⟨r.drawn i, token⟩) ∨
    ((∀ i < left, r.get (r.drawn i) ≠ none) ∧ (registerLoop args token left r).1 = .error .tableFull) := by
  induction left generalizing r with
  | zero => exact .inr ⟨fun i hi => absurd hi (Nat.not_lt_zero i), rfl⟩
  | succ left ih =>
    have hget : ∀ id, get { r with nextId := r.nextId + 1 } id = r.get id := fun _ => rfl
    rw [registerLoop]
    cases hfirst : r.get (mix16 r.nextId) with
    | none =>
      refine .inl ⟨0, Nat.succ_pos _, by rw [drawn_zero, hfirst], ?_⟩
      simp only [hget, hfirst, drawn_zero]
    | some entry =>
      simp only [hget, hfirst]
      rcases ih { r with nextId := r.nextId + 1 } with ⟨i, hi, hfree, hok⟩ | ⟨htaken, herr⟩
      · rw [hget, drawn_succ] at hfree
        rw [drawn_succ] at hok
        exact .inl ⟨i + 1, Nat.succ_lt_succ hi, hfree, hok⟩
      · refine .inr ⟨fun i hi => ?_, herr⟩
        cases i with
        | zero => simp [drawn_zero, hfirst]
        | succ i =>
          rw [← drawn_succ, ← hget]
          exact htaken i (Nat.lt_of_succ_lt_succ hi)

/-- One of the IDs that `register` would draw is free. -/
def WindowFree (r : InflightRegistry) : Prop := ∃ i < InflightSystem.idAttempts, r.get (r.drawn i) = none

theorem tryAcquire_cases (r : InflightRegistry) :
    (r.cap = some 0 ∧ r.tryAcquire = none) ∨
      (r.cap ≠ some 0 ∧ ∃ cap, r.tryAcquire = some { r with cap := cap }) := by
  rw [tryAcquire]
  split
  · exact .inr ⟨by simp [*], r.cap, rfl⟩
  · exact .inl ⟨‹_›, rfl⟩
  · exact .inr ⟨by simp [*], _, rfl⟩

theorem register_fst (r : InflightRegistry) (args : RegisterArgs) :
    (r.cap = some 0 ∧ (r.register args).1 = .error .capReached) ∨
    (r.cap ≠ some 0 ∧ r.WindowFree ∧ ∃ guard, (r.register args).1 = .ok guard) ∨
    (r.cap ≠ some 0 ∧ ¬ r.WindowFree ∧ (r.register args).1 = .error .tableFull) := by
  rcases r.tryAcquire_cases with ⟨hcap, hnone⟩ | ⟨hcap, cap, hsome⟩
  · exact .inl ⟨hcap, by rw [register, hnone]⟩
  · have hloop : (r.register args).1 = (registerLoop args r.nextToken InflightSystem.idAttempts
        { r with cap := cap, nextToken := r.nextToken + 1 }).1 := by rw [register, hsome]
    rcases registerLoop_fst args r.nextToken InflightSystem.idAttempts
      { r with cap := cap, nextToken := r.nextToken + 1 } with ⟨i, hi, hfree, hok⟩ | ⟨htaken, herr⟩
    · exact .inr (.inl ⟨hcap, ⟨i, hi, hfree⟩, _, hloop.trans hok⟩)
    · exact .inr (.inr ⟨hcap, fun ⟨i, hi, hfree⟩ => htaken i hi hfree, hloop.trans herr⟩)

/-! ### The call as a run of its steps -/

/-- Where a call stands that has returned. -/
def returned : Except RegisterError InflightGuard → RegisterPhase
  | .ok guard => .guarded guard
  | .error _ => .failed

/-- Call `k` of the system has come to the end of its loop, with this table and result. -/
def Returned (s : InflightSystem) (k : Nat) (r : Except RegisterError InflightGuard × InflightRegistry) :
    Prop :=
  s.registry = r.2 ∧ (s.calls[k]?).map RegisterCall.phase = some (returned r.1)

theorem run_registerLoop {s : InflightSystem} {k : Nat} {call : RegisterCall} {token : UInt64} {left : Nat}
    (hcall : s.calls[k]? = some call) (hphase : call.phase = .trying token left) : ∃ m s',
    run InflightSystem.step s (List.replicate m (.proceed k)) = some s' ∧
      Returned s' k (registerLoop ⟨k, call.clientId, call.question⟩ token left s.registry) := by
  induction left generalizing s call with
  | zero =>
    refine ⟨1, (s.withRegistry s.registry.release).setPhase k call .failed, ?_, rfl, ?_⟩
    · simp [run, InflightSystem.step, hcall, InflightSystem.proceedStep, hphase]
    · change ((s.calls.set k { call with phase := .failed })[k]?).map _ = _
      rw [Slots.getElem?_set_self hcall]
      rfl
  | succ left ih =>
    -- a turn draws an ID and then locks its shard
    have hdraw : s.step (.proceed k) =
        some (s.fetchId.setPhase k call (.locking token left (mix16 s.registry.nextId))) := by
      simp [InflightSystem.step, hcall, InflightSystem.proceedStep, hphase]
    have hcall1 : (s.fetchId.setPhase k call (.locking token left (mix16 s.registry.nextId))).calls[k]? =
        some { call with phase := .locking token left (mix16 s.registry.nextId) } :=
      Slots.getElem?_set_self hcall
    generalize hs1 : s.fetchId.setPhase k call (.locking token left (mix16 s.registry.nextId)) = s1 at *
    have hreg : s1.registry = { s.registry with nextId := s.registry.nextId + 1 } := by
      rw [← hs1]
      rfl
    rw [registerLoop, ← hreg]
    cases hget : s1.registry.get (mix16 s.registry.nextId) with
    | none =>
      refine ⟨2, (s1.withRegistry (s1.registry.insert (mix16 s.registry.nextId)
        ⟨k, call.clientId, call.question, token⟩)).setPhase k call
          (.guarded ⟨mix16 s.registry.nextId, token⟩), ?_, rfl, ?_⟩
      · have hinsert : s1.step (.proceed k) = some ((s1.withRegistry (s1.registry.insert
            (mix16 s.registry.nextId) ⟨k, call.clientId, call.question, token⟩)).setPhase k call
              (.guarded ⟨mix16 s.registry.nextId, token⟩)) := by
          simp [InflightSystem.step, hcall1, InflightSystem.proceedStep, hget, InflightSystem.entryOf,
            InflightSystem.setPhase]
        simp only [List.replicate_succ, run, hdraw, Option.bind_some, hinsert, List.replicate_zero]
      · change ((s1.calls.set k { call with phase := .guarded ⟨mix16 s.registry.nextId, token⟩ })[k]?).map _ = _
        rw [Slots.getElem?_set_self hcall1]
        rfl
    | some entry =>
      have hback : s1.step (.proceed k) = some (s1.setPhase k call (.trying token left)) := by
        simp [InflightSystem.step, hcall1, InflightSystem.proceedStep, hget, InflightSystem.setPhase]
      obtain ⟨m, s', hrun, hreturned⟩ := @ih (s1.setPhase k call (.trying token left))
        { call with phase := .trying token left }
        (Slots.getElem?_set_self hcall1) rfl
      refine ⟨m + 2, s', ?_, hreturned⟩
      simp only [List.replicate_succ, run, hdraw, Option.bind_some, hback]
      exact hrun

/-- A call that nothing comes between takes the steps of `register` in turn. -/
theorem run_register (s : InflightSystem) (clientId : UInt16) (question : List UInt8) : ∃ m s',
    run InflightSystem.step s (.register clientId question :: List.replicate m (.proceed s.calls.length)) =
      some s' ∧
    Returned s' s.calls.length (register s.registry ⟨s.calls.length, clientId, question⟩) := by
  have hget : ∀ c : RegisterCall, (s.calls ++ [c])[s.calls.length]? = some c := fun c => by simp
  rw [register]
  cases hpermit : s.registry.tryAcquire with
  | none =>
    refine ⟨0, { s with calls := s.calls ++ [⟨clientId, question, .failed⟩] }, ?_, rfl, ?_⟩
    · simp [run, InflightSystem.step, InflightSystem.registerStep, hpermit]
    · simp [returned]
  | some registry =>
    let s1 : InflightSystem :=
      { s with registry := registry, calls := s.calls ++ [⟨clientId, question, .acquired⟩] }
    have hstart : s.step (.register clientId question) = some s1 := by
      simp [InflightSystem.step, InflightSystem.registerStep, hpermit, s1]
    have htoken : s1.step (.proceed s.calls.length) =
        some ((s1.fetchToken s.calls.length).setPhase s.calls.length ⟨clientId, question, .acquired⟩
          (.trying registry.nextToken InflightSystem.idAttempts)) := by
      simp [InflightSystem.step, InflightSystem.proceedStep, s1]
    obtain ⟨m, s', hrun, hreturned⟩ := run_registerLoop
      (s := (s1.fetchToken s.calls.length).setPhase s.calls.length ⟨clientId, question, .acquired⟩
        (.trying registry.nextToken InflightSystem.idAttempts))
      (Slots.getElem?_set_self (hget _)) rfl
    refine ⟨m + 1, s', ?_, hreturned⟩
    simp only [List.replicate_succ, run, hstart, htoken, Option.bind_some]
    exact hrun

/-! ### Completeness -/

/-- The IDs in use, as numbers. -/
def idsInUse (r : InflightRegistry) : Finset Nat :=
  (Finset.range 65536).filter fun n => (r.get (UInt16.ofNat n)).isSome

/-- Every nonzero ID is in use. -/
def AllInUse (r : InflightRegistry) : Prop := ∀ id : UInt16, id ≠ 0 → (r.get id).isSome = true

/-- `register` succeeds while an ID and a permit are free, and says that the table is full only when it
is. -/
structure RegisterComplete (r : InflightRegistry) : Prop where
  succeeds : r.cap ≠ some 0 → r.idsInUse.card < 65535 → ∀ args, ∃ guard, (r.register args).1 = .ok guard
  full : ∀ args, (r.register args).1 = .error .tableFull → r.AllInUse

theorem AllInUse.card_ge {r : InflightRegistry} (h : r.AllInUse) : 65535 ≤ r.idsInUse.card := by
  have hsub : Finset.Ico 1 65536 ⊆ r.idsInUse := by
    intro n hn
    obtain ⟨hlow, hhigh⟩ := Finset.mem_Ico.mp hn
    refine Finset.mem_filter.mpr ⟨Finset.mem_range.mpr hhigh, h _ fun hzero => ?_⟩
    have hnum := congrArg UInt16.toNat hzero
    rw [UInt16.toNat_ofNat', Nat.mod_eq_of_lt hhigh] at hnum
    exact absurd hnum (by change n ≠ 0; omega)
  have hcard := Finset.card_le_card hsub
  rwa [Nat.card_Ico] at hcard

/-- `register` is complete exactly when no permit is free, every ID is taken or one of its window is not. -/
theorem registerComplete_iff (r : InflightRegistry) :
    RegisterComplete r ↔ r.cap = some 0 ∨ r.AllInUse ∨ r.WindowFree := by
  constructor
  · intro h
    by_contra hnot
    obtain ⟨hcap, hnotall, hwindow⟩ : r.cap ≠ some 0 ∧ ¬ r.AllInUse ∧ ¬ r.WindowFree := by
      simpa only [not_or] using hnot
    rcases r.register_fst ⟨0, 0, []⟩ with ⟨hzero, -⟩ | ⟨-, hfree, -⟩ | ⟨-, -, herr⟩
    · exact hcap hzero
    · exact hwindow hfree
    · exact hnotall (h.full _ herr)
  · intro h
    refine ⟨fun hcap hcard args => ?_, fun args herr => ?_⟩
    · rcases r.register_fst args with ⟨hzero, -⟩ | ⟨-, -, hok⟩ | ⟨-, hwindow, -⟩
      · exact absurd hzero hcap
      · exact hok
      · rcases h with hzero | hall | hfree
        · exact absurd hzero hcap
        · exact absurd hall.card_ge (Nat.not_le.mpr hcard)
        · exact absurd hfree hwindow
    · rcases r.register_fst args with ⟨-, hcap⟩ | ⟨-, -, guard, hok⟩ | ⟨hcap, hwindow, -⟩
      · rw [hcap] at herr
        cases herr
      · rw [hok] at herr
        cases herr
      · rcases h with hzero | hall | hfree
        · exact absurd hzero hcap
        · exact hall
        · exact absurd hfree hwindow

/-- The counter is at 0, and exactly the IDs that the next 65535 values reach are in use. -/
def windowTaken : InflightRegistry :=
  (List.range InflightSystem.idAttempts).foldl
    (fun r i => r.insert (mix16 (UInt32.ofNat i)) ⟨i, 0, [], UInt64.ofNat i⟩) (new 0 0)

theorem isSome_get_foldl_insert (key : Nat → UInt16) (entry : Nat → InflightEntry) (xs : List Nat)
    (r : InflightRegistry) (id : UInt16) :
    ((xs.foldl (fun r i => r.insert (key i) (entry i)) r).get id).isSome = true ↔
      (r.get id).isSome = true ∨ ∃ i ∈ xs, key i = id := by
  induction xs generalizing r with
  | nil => simp
  | cons x xs ih =>
    rw [List.foldl_cons, ih]
    by_cases hid : id = key x
    · have hnew : (r.insert (key x) (entry x)).get (key x) = some (entry x) := Sharded.get_insert
      simp [hid, hnew]
    · have hold : (r.insert (key x) (entry x)).get id = r.get id := Sharded.get_insert_ne hid
      simp [hold, Ne.symm hid]

theorem nextId_foldl_insert (key : Nat → UInt16) (entry : Nat → InflightEntry) (xs : List Nat)
    (r : InflightRegistry) :
    (xs.foldl (fun r i => r.insert (key i) (entry i)) r).nextId = r.nextId ∧
      (xs.foldl (fun r i => r.insert (key i) (entry i)) r).cap = r.cap := by
  induction xs generalizing r with
  | nil => exact ⟨rfl, rfl⟩
  | cons x xs ih => exact ih _

/-- An ID is in use when one of the 65535 counter values is mixed to it. -/
theorem isSome_get_windowTaken (id : UInt16) : (windowTaken.get id).isSome = true ↔
    ∃ i < InflightSystem.idAttempts, mix16 (UInt32.ofNat i) = id := by
  rw [windowTaken, isSome_get_foldl_insert (fun i => mix16 (UInt32.ofNat i))
    (fun i => ⟨i, 0, [], UInt64.ofNat i⟩)]
  have hempty : (new 0 0).get id = none := Sharded.get_empty
  simp [hempty]

/-- Two of the counter values are mixed to the same ID, so some ID is not reached. -/
theorem card_windowTaken : windowTaken.idsInUse.card < 65535 := by
  have hsub : windowTaken.idsInUse ⊆
      (Finset.range 65535).image fun i => (mix16 (UInt32.ofNat i)).toNat := by
    intro n hn
    obtain ⟨hrange, hused⟩ := Finset.mem_filter.mp hn
    obtain ⟨i, hi, hid⟩ := (isSome_get_windowTaken _).mp hused
    refine Finset.mem_image.mpr ⟨i, Finset.mem_range.mpr hi, ?_⟩
    rw [hid, UInt16.toNat_ofNat', Nat.mod_eq_of_lt (Finset.mem_range.mp hrange)]
  refine (Finset.card_le_card hsub).trans_lt (lt_of_le_of_ne ?_ fun hcard => ?_)
  · exact Finset.card_image_le.trans_eq (Finset.card_range _)
  · have hinj := Finset.card_image_iff.mp (hcard.trans (Finset.card_range _).symm)
    have hcollide : (203 : Nat) = 322 := hinj (by simp) (by simp) (by decide +kernel)
    exact absurd hcollide (by decide)

theorem not_windowFree_windowTaken : ¬ windowTaken.WindowFree := by
  rintro ⟨i, hi, hfree⟩
  have hnext : windowTaken.nextId = 0 := (nextId_foldl_insert (fun i => mix16 (UInt32.ofNat i))
    (fun i => ⟨i, 0, [], UInt64.ofNat i⟩) _ _).1
  have hused := (isSome_get_windowTaken (windowTaken.drawn i)).mpr
    ⟨i, hi, by rw [drawn, hnext, UInt32.zero_add]⟩
  rw [hfree] at hused
  exact Bool.false_ne_true hused

/-- No cap, and IDs are free, but the call fails. -/
theorem table_full_with_free_ids : windowTaken.cap = none ∧ windowTaken.idsInUse.card < 65535 ∧
    (windowTaken.register ⟨0, 0, []⟩).1 = .error .tableFull := by
  have hcap : windowTaken.cap = none := (nextId_foldl_insert (fun i => mix16 (UInt32.ofNat i))
    (fun i => ⟨i, 0, [], UInt64.ofNat i⟩) _ _).2
  refine ⟨hcap, card_windowTaken, ?_⟩
  rcases windowTaken.register_fst ⟨0, 0, []⟩ with ⟨hzero, -⟩ | ⟨-, hfree, -⟩ | ⟨-, -, herr⟩
  · rw [hcap] at hzero
    cases hzero
  · exact absurd hfree not_windowFree_windowTaken
  · exact herr

end InflightRegistry

end PathDns
