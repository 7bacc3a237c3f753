import PathDns.Cache.Hit
import PathDns.Lib.Slots
import PathDns.Reload.System

/-!
# No decision outlives the reload after it

A reload stores the new hot state, clears the response cache and clears the verdict cache; a query in
flight checks the generation and writes, in two accesses each. When a reload has finished, nothing decided
before it should be left in either cache (`Fresh`).

The clears take away what was written before them, and the check refuses queries of an older generation.
What is left are the gaps between the accesses (`Careful`): a clear between a check and its write, a
verdict of the old generation read by a query of the new one before the verdict cache is cleared, and a
generation counter that comes around. In a run without these the caches are fresh in every state.
-/

namespace PathDns

open Runs

/-! ### The gaps -/

/-- The next access of the query falls into no gap. -/
def Flight.Careful (s : System) (nowUnix : Nat) (f : Flight) : Prop :=
  match f.pc with
  | .routed =>
    f.asksVerdict → (s.verdicts.get nowUnix f.ctx.qname).isSome → f.epoch ≤ s.verdictClears
  | .verdictRead => s.epoch < f.epoch + 2 ^ 64
  | .verdictChecked write clears => write → clears = s.verdictClears
  | .verdictDone => s.epoch < f.epoch + 2 ^ 64
  | .cacheChecked write clears => write → clears = s.cacheClears
  | .done => True

instance (s : System) (nowUnix : Nat) (f : Flight) : Decidable (f.Careful s nowUnix) := by
  unfold Flight.Careful
  split <;> infer_instance

namespace System

/-- The event falls into no gap. -/
def Careful (s : System) : SystemEvent → Prop
  | .advance i _ nowUnix => ∀ f ∈ s.flights[i]?, f.Careful s nowUnix
  | _ => True

instance (s : System) (e : SystemEvent) : Decidable (s.Careful e) := by
  cases e <;> unfold Careful <;> infer_instance

/-- Nothing in the caches was decided before the last finished reload. -/
def Fresh (s : System) : Prop :=
  s.ResponsesStamped (fun ds => ∀ d ∈ ds, s.finished ≤ d) ∧ s.VerdictsStamped (s.finished ≤ ·)

end System

/-! ### The invariant -/

/-- What holds of a flight when `epoch` hot states have been stored after one of generation `g`. -/
structure Flight.Isolated (g : UInt64) (epoch : Nat) (f : Flight) : Prop where
  started : f.epoch ≤ epoch
  generation : f.hot.generation = g + .ofNat f.epoch
  verdict : ∀ d ∈ f.verdictEpoch, f.epoch ≤ d ∧ d ≤ epoch
  checked : ∀ clears, f.pc = .verdictChecked true clears ∨ f.pc = .cacheChecked true clears →
    clears ≤ f.epoch

namespace System

/-- The invariant of a careful run. -/
structure Isolated (g : UInt64) (s : System) : Prop where
  finished_le : s.finished ≤ s.verdictClears
  clears_le : s.verdictClears ≤ s.cacheClears
  cacheClears_le : s.cacheClears ≤ s.epoch
  cleared : s.reload = .cacheCleared → s.cacheClears = s.epoch
  generation : s.hot.generation = g + .ofNat s.epoch
  responses : s.ResponsesStamped (fun ds => ∀ d ∈ ds, s.cacheClears ≤ d ∧ d ≤ s.epoch)
  verdictsStamped : s.VerdictsStamped (fun d => s.verdictClears ≤ d ∧ d ≤ s.epoch)
  flights : ∀ f ∈ s.flights, f.Isolated g s.epoch

variable {g : UInt64} {s s' : System} {f : Flight}

theorem Isolated.fresh (h : s.Isolated g) : s.Fresh := by
  have hle : s.finished ≤ s.cacheClears := h.finished_le.trans h.clears_le
  refine ⟨fun m hm => (h.responses m hm).mono ?_, fun m hm => (h.verdictsStamped m hm).mono ?_⟩
  · intro ds hds d hd
    exact hle.trans (hds d hd).1
  · intro d hd
    exact h.finished_le.trans hd.1

theorem Initial.isolated (h : s.Initial) : s.Isolated s.hot.generation where
  finished_le := by rw [h.finished, h.verdictClears]
  clears_le := by rw [h.verdictClears, h.cacheClears]
  cacheClears_le := by rw [h.cacheClears, h.epoch]
  cleared := by simp [h.reload]
  generation := by simp [h.epoch]
  responses := by
    intro m hm
    apply (h.stamps m hm).mono
    rintro ds rfl
    simp [h.cacheClears, h.epoch]
  verdictsStamped := by
    intro m hm
    apply (h.verdictStamps m hm).mono
    rintro d rfl
    simp [h.verdictClears, h.epoch]
  flights := by simp [h.flights]

end System

/-! ### Queries -/

theorem Flight.Isolated.mono {g : UInt64} {epoch epoch' : Nat} {f : Flight} (h : f.Isolated g epoch)
    (hle : epoch ≤ epoch') : f.Isolated g epoch' where
  started := h.started.trans hle
  generation := h.generation
  verdict := fun d hd => ⟨(h.verdict d hd).1, (h.verdict d hd).2.trans hle⟩
  checked := h.checked

/-- Two generations fewer than `2 ^ 64` stores apart are equal only when they are the same. -/
theorem epoch_eq_of_generation_eq {g : UInt64} {m n : Nat} (h : g + .ofNat m = g + .ofNat n)
    (hle : n ≤ m) (hlt : m < n + 2 ^ 64) : m = n := by
  have hmod : UInt64.ofNat m = UInt64.ofNat n := by
    have hsub := congrArg (· - g) h
    simpa [UInt64.add_comm g] using hsub
  have hval := congrArg UInt64.toNat hmod
  simp only [UInt64.toNat_ofNat'] at hval
  omega

namespace System

variable {g : UInt64} {s s' : System} {f : Flight}

theorem Isolated.setFlight (h : s.Isolated g) (i : Nat) (hf : f.Isolated g s.epoch) :
    (s.setFlight i f).Isolated g :=
  { h with flights := Slots.forall_mem_set h.flights hf }

/-- A flight of the current generation started in the current epoch. -/
theorem Isolated.epoch_eq_of_unchanged (h : s.Isolated g) (hf : f.Isolated g s.epoch)
    (hlt : s.epoch < f.epoch + 2 ^ 64) (hun : s.unchanged f = true) : s.epoch = f.epoch := by
  have hgen := eq_of_beq hun
  rw [h.generation, hf.generation] at hgen
  exact epoch_eq_of_generation_eq hgen hf.started hlt

theorem VerdictsStamped.addVerdict {A : Nat → Prop} (h : s.VerdictsStamped A) (hf : A f.epoch)
    (nowUnix : Nat) (b : Bool) : (s.addVerdict f nowUnix b).VerdictsStamped A := by
  intro m hm
  obtain ⟨m₀, hm₀, rfl⟩ := Option.map_eq_some_iff.mp hm
  exact (h m₀ hm₀).insert hf

theorem ResponsesStamped.addResponse {A : List Nat → Prop} (h : s.ResponsesStamped A)
    (hf : A f.decisions) (now : Nat) (answer : Answer) (winner forwarded : Option Nat) :
    (s.addResponse f now answer winner forwarded).ResponsesStamped A := by
  intro m hm
  simp only [System.addResponse, DnsCache.add] at hm ⊢
  split at hm
  · next hnone => rw [hnone] at hm; simp at hm
  · next m₀ hm₀ =>
    split at hm
    · next hentry =>
      simp only [hentry, Option.isSome_none, Bool.false_eq_true, if_false]
      exact h m hm
    · next entry hentry =>
      simp only [hentry, Option.isSome_some, if_true]
      simp only [Option.some.injEq] at hm
      exact hm ▸ (h m₀ hm₀).insert hf

theorem Isolated.addVerdict (h : s.Isolated g) (hf : f.Isolated g s.epoch)
    (hclears : s.verdictClears ≤ f.epoch) (nowUnix : Nat) (b : Bool) :
    (s.addVerdict f nowUnix b).Isolated g :=
  { h with verdictsStamped := h.verdictsStamped.addVerdict ⟨hclears, hf.started⟩ nowUnix b }

theorem Isolated.addResponse (h : s.Isolated g) (hf : f.Isolated g s.epoch)
    (hclears : s.cacheClears ≤ f.epoch) (now : Nat) (answer : Answer) (winner forwarded : Option Nat) :
    (s.addResponse f now answer winner forwarded).Isolated g := by
  have hstamps : ∀ d ∈ f.decisions, s.cacheClears ≤ d ∧ d ≤ s.epoch := by
    intro d hd
    rcases List.mem_cons.mp hd with rfl | hd
    · exact ⟨hclears, hf.started⟩
    · have hv := hf.verdict d (Option.mem_toList.mp hd)
      exact ⟨hclears.trans hv.1, hv.2⟩
  exact { h with responses := h.responses.addResponse hstamps now answer winner forwarded }

variable {nowUnix : Nat}

theorem Isolated.verdict_read (h : s.Isolated g) {qname : Utf8.Text}
    (hget : (s.verdicts.get nowUnix qname).isSome) :
    ∀ d ∈ s.verdictStamps.lookup qname, s.verdictClears ≤ d ∧ d ≤ s.epoch := by
  intro d hd
  unfold VerdictCache.get at hget
  split at hget
  · simp at hget
  · next entry hentry =>
    obtain ⟨m, hm, hlook⟩ := Option.bind_eq_some_iff.mp hentry
    obtain ⟨d', hd', hbounds⟩ := h.verdictsStamped m hm qname entry hlook
    rw [Option.mem_def, hd', Option.some.injEq] at hd
    exact hd ▸ hbounds

theorem Isolated.move (h : s.Isolated g) (i : Nat) (hf : f.Isolated g s.epoch) {pc : FlightPc}
    (hpc : ∀ clears, pc ≠ .verdictChecked true clears ∧ pc ≠ .cacheChecked true clears) :
    (s.setFlight i { f with pc := pc }).Isolated g := by
  refine h.setFlight i { hf with checked := ?_ }
  rintro clears (heq | heq)
  · exact absurd heq (hpc clears).1
  · exact absurd heq (hpc clears).2

theorem Isolated.readVerdict (h : s.Isolated g) (i : Nat) (hf : f.Isolated g s.epoch)
    (hcareful : (s.verdicts.get nowUnix f.ctx.qname).isSome → f.epoch ≤ s.verdictClears) :
    (s.setFlight i { f with
      up := { f.up with verdict := s.verdicts.get nowUnix f.ctx.qname }
      verdictEpoch := if (s.verdicts.get nowUnix f.ctx.qname).isSome then
        s.verdictStamps.lookup f.ctx.qname else none
      pc := .verdictRead }).Isolated g := by
  refine h.setFlight i ⟨hf.started, hf.generation, ?_, by simp⟩
  intro d hd
  simp only at hd
  split_ifs at hd with hsome
  · have hbounds := h.verdict_read hsome d hd
    exact ⟨(hcareful hsome).trans hbounds.1, hbounds.2⟩
  · simp at hd

theorem Isolated.checkVerdict (h : s.Isolated g) (i : Nat) (hf : f.Isolated g s.epoch)
    (hlt : s.epoch < f.epoch + 2 ^ 64) :
    (s.setFlight i { f with pc := .verdictChecked (s.unchanged f) s.verdictClears }).Isolated g := by
  refine h.setFlight i { hf with checked := ?_ }
  intro clears hpc
  simp only [FlightPc.verdictChecked.injEq, reduceCtorEq, or_false] at hpc
  obtain ⟨hun, rfl⟩ := hpc
  have hepoch := h.epoch_eq_of_unchanged hf hlt hun
  exact (h.clears_le.trans h.cacheClears_le).trans hepoch.le

theorem Isolated.checkCache (h : s.Isolated g) (i : Nat) (hf : f.Isolated g s.epoch)
    (hlt : s.epoch < f.epoch + 2 ^ 64) {write : Bool} (hwrite : write = true → s.unchanged f = true) :
    (s.setFlight i { f with pc := .cacheChecked write s.cacheClears }).Isolated g := by
  refine h.setFlight i { hf with checked := ?_ }
  intro clears hpc
  simp only [FlightPc.cacheChecked.injEq, reduceCtorEq, false_or] at hpc
  obtain ⟨htrue, rfl⟩ := hpc
  have hepoch := h.epoch_eq_of_unchanged hf hlt (hwrite htrue)
  exact h.cacheClears_le.trans hepoch.le

theorem Isolated.advance (h : s.Isolated g) {i now : Nat} (hf : f.Isolated g s.epoch)
    (hcareful : f.Careful s nowUnix) (hstep : s.advance i now nowUnix f = some s') : s'.Isolated g := by
  revert hstep
  unfold Flight.Careful at hcareful
  fun_cases System.advance s i now nowUnix f <;> rintro ⟨⟩
  case case1 hpc hasks _ =>
    rw [hpc] at hcareful
    exact h.readVerdict i hf (hcareful hasks)
  case case2 => exact h.move i hf (by simp)
  case case3 => exact h.move i hf (by simp)
  case case4 hpc _ _ =>
    rw [hpc] at hcareful
    exact h.checkVerdict i hf hcareful
  case case5 write clears hpc isPrimary _ _ =>
    rw [hpc] at hcareful
    have hset : (s.setFlight i { f with pc := .verdictDone }).Isolated g := h.move i hf (by simp)
    split_ifs with hwrite
    · subst hwrite
      have hclears := hf.checked clears (.inl hpc)
      rw [hcareful rfl] at hclears
      exact hset.addVerdict hf hclears nowUnix isPrimary
    · exact hset
  case case7 => exact h.move i hf (by simp)
  case case8 hpc _ _ _ =>
    rw [hpc] at hcareful
    exact h.checkCache i hf hcareful fun hwrite => (Bool.and_eq_true_iff.mp hwrite).2
  case case9 write clears hpc answer winner forwarded _ _ =>
    rw [hpc] at hcareful
    have hset : (s.setFlight i { f with pc := .done }).Isolated g := h.move i hf (by simp)
    split_ifs with hwrite
    · subst hwrite
      have hclears := hf.checked clears (.inr hpc)
      rw [hcareful rfl] at hclears
      exact hset.addResponse hf hclears now answer winner forwarded
    · exact hset

/-- An access of a query moves that query and touches else only the caches. -/
theorem advance_eq {i now : Nat} (h : s.advance i now nowUnix f = some s') :
    ∃ f' cache verdicts stamps verdictStamps, s' = { s.setFlight i f' with
      cache := cache, verdicts := verdicts, stamps := stamps, verdictStamps := verdictStamps } ∧
      f'.hot = f.hot ∧ f'.epoch = f.epoch := by
  revert h
  fun_cases System.advance s i now nowUnix f <;> rintro ⟨⟩
  case case5 | case9 => split_ifs <;> exact ⟨_, _, _, _, _, rfl, rfl, rfl⟩
  all_goals exact ⟨_, _, _, _, _, rfl, rfl, rfl⟩

/-! ### Reloads -/

theorem reloadedHot_eq {parse : RulesetParser} {changed : Option (List Str)} {cfg : Config}
    {read : List (RuleSetSpec × List UInt8)} {hot : HotState}
    (h : reloadedHot parse s changed cfg read = some hot) :
    hot.generation = s.hot.generation + 1 ∧ hot.cfg = if changed.isSome then s.hot.cfg else cfg := by
  revert h
  fun_cases reloadedHot parse s changed cfg read <;> rintro ⟨⟩
  · exact ⟨rfl, rfl⟩
  · exact ⟨(buildHotState_ok ‹_›).2, (buildHotState_ok ‹_›).1⟩

theorem Isolated.store (h : s.Isolated g) {hot : HotState} {origins : List Origin}
    (hgen : hot.generation = s.hot.generation + 1) :
    { s with hot := hot, reload := .stored, epoch := s.epoch + 1, origins := origins : System }.Isolated
      g where
  finished_le := h.finished_le
  clears_le := h.clears_le
  cacheClears_le := h.cacheClears_le.trans (Nat.le_succ _)
  cleared := by simp
  generation := by
    rw [hgen, h.generation, UInt64.ofNat_add]
    exact UInt64.add_assoc _ _ _
  responses := by
    intro m hm
    apply (h.responses m hm).mono
    intro ds hds d hd
    exact ⟨(hds d hd).1, (hds d hd).2.trans (Nat.le_succ _)⟩
  verdictsStamped := by
    intro m hm
    apply (h.verdictsStamped m hm).mono
    intro d hd
    exact ⟨hd.1, hd.2.trans (Nat.le_succ _)⟩
  flights := fun f hf => (h.flights f hf).mono (Nat.le_succ _)

theorem Isolated.reloadStep (h : s.Isolated g) {parse : RulesetParser}
    (hstep : s.reloadStep parse = some s') : s'.Isolated g := by
  have hreading : ∀ phase, phase ≠ .cacheCleared → { s with reload := phase : System }.Isolated g :=
    fun phase hphase => { h with cleared := fun heq => absurd heq hphase }
  revert hstep
  fun_cases System.reloadStep parse s <;> rintro ⟨⟩
  case case2 | case3 | case4 => exact hreading _ (by simp)
  case case5 hhot => exact h.store (reloadedHot_eq hhot).1
  case case6 =>
    refine { h with
      clears_le := h.clears_le.trans h.cacheClears_le
      cacheClears_le := le_rfl
      cleared := fun _ => rfl
      responses := ?_ }
    intro m hm
    obtain ⟨m₀, hm₀, rfl⟩ := Option.map_eq_some_iff.mp hm
    exact FinMap.noted_empty
  case case7 hreload =>
    refine { h with
      finished_le := le_rfl
      clears_le := (h.cleared hreload).ge
      cleared := by simp
      verdictsStamped := ?_ }
    intro m hm
    obtain ⟨m₀, hm₀, rfl⟩ := Option.map_eq_some_iff.mp hm
    exact FinMap.noted_empty

/-! ### Saves -/

theorem saveStep_eq {special : Char → Bool} {j : Nat} {v : Saver}
    (h : saveStep special s j v = some s') : ∃ savers files verdictFiles,
      s' = { s with savers := savers, files := files, verdictFiles := verdictFiles } := by
  revert h
  fun_cases saveStep special s j v <;> rintro ⟨⟩
  case case3 => split_ifs <;> exact ⟨_, _, _, rfl⟩
  all_goals exact ⟨_, _, _, rfl⟩

theorem saveVisit_eq {j : Nat} {key : CacheKey} {now : Nat} {v : Saver}
    (h : s.saveVisit j key now nowUnix v = some s') : ∃ savers, s' = { s with savers := savers } := by
  revert h
  fun_cases saveVisit s j key now nowUnix v <;> rintro ⟨⟩ <;> exact ⟨_, rfl⟩

theorem saveVisitVerdict_eq {j : Nat} {qname : Utf8.Text} {v : Saver}
    (h : s.saveVisitVerdict j qname nowUnix v = some s') : ∃ savers, s' = { s with savers := savers } := by
  revert h
  fun_cases saveVisitVerdict s j qname nowUnix v <;> rintro ⟨⟩ <;> exact ⟨_, rfl⟩

/-! ### Runs -/

variable {parse : RulesetParser} {special : Char → Bool} {e : SystemEvent}

/-- One careful event. -/
theorem Isolated.step (h : s.Isolated g) (hcareful : s.Careful e)
    (hstep : s.step parse special e = some s') : s'.Isolated g := by
  revert hstep
  fun_cases System.step parse special s e <;> intro hstep
  case case2 =>
    obtain ⟨target, -, rfl⟩ := Option.map_eq_some_iff.mp hstep
    exact { h with
      flights := Slots.forall_mem_push h.flights ⟨le_rfl, h.generation, by simp, by simp⟩ }
  case case3 i now nowUnix =>
    obtain ⟨f, hf, hadv⟩ := Option.bind_eq_some_iff.mp hstep
    exact h.advance (h.flights f (List.mem_of_getElem? hf)) (hcareful f hf) hadv
  case case10 => exact h.reloadStep hstep
  case case14 =>
    obtain ⟨v, -, hsave⟩ := Option.bind_eq_some_iff.mp hstep
    obtain ⟨savers, files, verdictFiles, rfl⟩ := saveStep_eq hsave
    exact { h with }
  case case15 =>
    obtain ⟨v, -, hsave⟩ := Option.bind_eq_some_iff.mp hstep
    obtain ⟨savers, rfl⟩ := saveVisit_eq hsave
    exact { h with }
  case case16 =>
    obtain ⟨v, -, hsave⟩ := Option.bind_eq_some_iff.mp hstep
    obtain ⟨savers, rfl⟩ := saveVisitVerdict_eq hsave
    exact { h with }
  all_goals cases hstep
  case case1 | case13 => exact { h with }
  case case4 key =>
    refine { h with responses := ?_ }
    intro m hm
    obtain ⟨m₀, hm₀, rfl⟩ := Option.map_eq_some_iff.mp hm
    exact (h.responses m₀ hm₀).erase key
  case case5 qname =>
    refine { h with verdictsStamped := ?_ }
    intro m hm
    obtain ⟨m₀, hm₀, rfl⟩ := Option.map_eq_some_iff.mp hm
    exact (h.verdictsStamped m₀ hm₀).erase qname
  case case6 | case8 => split_ifs <;> first | exact h | exact { h with cleared := by simp }
  case case11 => exact { h with cleared := by simp }

/-- After any run of careful accesses, nothing in the response cache or the verdict cache was decided
before the last finished reload. -/
theorem run_fresh {events : List SystemEvent} (hinit : s.Initial)
    (hcareful : Meets (step parse special) Careful s events)
    (hrun : run (step parse special) s events = some s') : s'.Fresh := by
  have hinv : s'.Isolated s.hot.generation :=
    run_invariant (fun _ _ _ hi hc hst => hi.step hc hst) hinit.isolated hcareful hrun
  exact hinv.fresh

end System

/-! ### A sample system -/

/-- A final with two fixed servers and an IP test on the tag `c`. -/
def sampleConfig : Config where
  fallback := ⟨.dual ['p'] ['s'] ⟨[['c']], []⟩, false⟩
  cacheMinTtl := 0
  cacheMaxTtl := 0
  servers := [(['p'], .fixed ⟨none, 0, [.a 0xC0000201#32 60]⟩), (['s'], .fixed ⟨none, 0, [.a 0xC0000202#32 60]⟩)]
  rules := []
  rulesetSpecs := [⟨['c'], .text, .ipCidr, ['/', 'c']⟩]

/-- An empty file holds no address, every other file all of them. -/
def sampleParse : RulesetParser := fun _ content =>
  some (.ipCidr (if content = [] then ⟨[], IpRangeSet.sorted_nil⟩ else ⟨[(0, BitVec.allOnes 128)], by simp⟩))

def sampleDisk : Disk := fun path => if path = ['/', 'c'] then some ⟨[49], 7⟩ else none

def sampleSystem : System where
  hot := {
    cfg := sampleConfig
    servers := buildServers sampleConfig
    rules := []
    fallback := .cidrTest 0 1
    ruleset := loadDb sampleParse [(⟨['c'], .text, .ipCidr, ['/', 'c']⟩, [49])]
    generation := 0 }
  cache := DnsCache.new 8 0 0
  verdicts := VerdictCache.new (some (8, 0))
  disk := sampleDisk
  flights := []
  reload := .idle
  savers := []
  files := []
  verdictFiles := []
  epoch := 0
  origins := [Origin.of sampleConfig sampleDisk]
  stamps := ∅
  verdictStamps := ∅
  cacheClears := 0
  verdictClears := 0
  finished := 0

theorem sampleSystem_initial : sampleSystem.Initial where
  epoch := rfl
  cacheClears := rfl
  verdictClears := rfl
  finished := rfl
  reload := rfl
  flights := rfl
  savers := rfl
  files := rfl
  verdictFiles := rfl
  origins := rfl
  stamps := fun _ hm => Option.some.inj hm ▸ FinMap.noted_empty
  verdictStamps := fun _ hm => Option.some.inj hm ▸ FinMap.noted_empty

/-- A query for `a`, with all its accesses up to `n` of them. -/
def sampleAccesses (i n : Nat) : List SystemEvent := List.replicate n (.advance i 0 0)

def sampleQueryEvent : SystemEvent :=
  .query (contextOf sampleQuery (by decide +kernel)) none
    ⟨.error "", .error "", .error "", .error "", true, none⟩

/-- A reload of the ruleset: it reads the file, stores, and clears twice. -/
def sampleReload : List SystemEvent := .reloadRuleset [['/', 'c']] :: List.replicate 4 .reloadStep

/-- A query, a reload and a query again, one after the other. -/
def serialRun : List SystemEvent :=
  sampleQueryEvent :: sampleAccesses 0 5 ++ sampleReload ++ sampleQueryEvent :: sampleAccesses 1 5

theorem System.run_fresh_serial : ∃ s', run (System.step sampleParse (fun _ => false)) sampleSystem
    serialRun = some s' ∧ s'.finished = 1 ∧ s'.Fresh := by
  have hend : (run (System.step sampleParse (fun _ => false)) sampleSystem serialRun).any
      (fun s => s.finished = 1) = true := by decide +kernel
  obtain ⟨s', hrun, hfinished⟩ := (Option.any_eq_true _ _).mp hend
  refine ⟨s', hrun, of_decide_eq_true hfinished, System.run_fresh sampleSystem_initial ?_ hrun⟩
  apply (meets_of_computed (C := fun s e => decide (System.Careful s e)) (by decide +kernel)).mono
  exact fun s e => of_decide_eq_true

/-- Two queries check the generation before a reload, one for its verdict and one for its response, and
write after it. -/
def staleRun : List SystemEvent :=
  sampleQueryEvent :: sampleAccesses 0 2 ++ sampleQueryEvent :: sampleAccesses 1 4 ++ sampleReload ++
    [.advance 0 0 0, .advance 1 0 0]

/-- Both caches end up with a decision of the generation before the finished reload. -/
theorem stale_writes_after_reload : sampleSystem.Initial ∧ ∃ s',
    run (System.step sampleParse (fun _ => false)) sampleSystem staleRun = some s' ∧
    s'.reload = .idle ∧ s'.finished = 1 ∧
    ¬ s'.ResponsesStamped (fun ds => ∀ d ∈ ds, s'.finished ≤ d) ∧
    ¬ s'.VerdictsStamped (s'.finished ≤ ·) := by
  have hend : (run (System.step sampleParse (fun _ => false)) sampleSystem staleRun).any (fun s =>
      s.reload = .idle ∧ s.finished = 1 ∧
      (s.cache.cache.bind (·.lookup (sampleInsert sampleQuery sampleResponse).key)).isSome ∧
      s.stamps.lookup (sampleInsert sampleQuery sampleResponse).key = some [0] ∧
      (s.verdicts.inner.bind (·.lookup ⟨[97], Utf8.valid_letter⟩)).isSome ∧
      s.verdictStamps.lookup ⟨[97], Utf8.valid_letter⟩ = some 0) = true := by decide +kernel
  obtain ⟨s', hrun, hs'⟩ := (Option.any_eq_true _ _).mp hend
  obtain ⟨hidle, hfinished, hresponse, hstamp, hverdict, hvstamp⟩ := of_decide_eq_true hs'
  refine ⟨sampleSystem_initial, s', hrun, hidle, hfinished, ?_, ?_⟩
  · intro h
    obtain ⟨entry, hentry⟩ := Option.isSome_iff_exists.mp hresponse
    obtain ⟨m, hm, hlook⟩ := Option.bind_eq_some_iff.mp hentry
    obtain ⟨ds, hds, hle⟩ := h m hm _ _ hlook
    rw [hstamp, Option.some.injEq] at hds
    subst hds
    have hbad := hle 0 List.mem_cons_self
    omega
  · intro h
    obtain ⟨entry, hentry⟩ := Option.isSome_iff_exists.mp hverdict
    obtain ⟨m, hm, hlook⟩ := Option.bind_eq_some_iff.mp hentry
    obtain ⟨d, hd, hle⟩ := h m hm _ _ hlook
    rw [hvstamp, Option.some.injEq] at hd
    omega

end PathDns
