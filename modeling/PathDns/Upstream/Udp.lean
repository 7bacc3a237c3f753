import Mathlib.Algebra.Group.Nat.Defs
import Mathlib.Data.List.Nodup
import PathDns.Lib.Runs
import PathDns.Lib.Slots
import PathDns.Upstream.RefreshRuns

/-!
# Socket refreshes of a UDP upstream (`upstream/udp.rs`)

A pool has a socket and a generation per slot, and receive loops that were each given a generation. A
refresh opens new sockets slot by slot, and for each bumps the generation and spawns a loop; `shutdown`
bumps every generation and spawns none. Loops of an older generation are woken by a notification and
leave. Sockets are known by the order in which they were opened.

A loop's generation stays the slot's own only until the next bump (`Numbered`), and a loop that waits
although it is stale will be notified (`NoLostWakeup`). After `shutdown` no loop is current unless a
refresh bumps a slot that `shutdown` has passed (`run_loops`).
-/

namespace PathDns

open Runs

/-- Where a receive loop and its supervisor are. -/
inductive RecvPhase where
  /-- the generation is bumped, the task is not spawned yet -/
  | unborn
  /-- at the head of the loop -/
  | head
  /-- `refreshed` is enabled; `woken` when it was notified since -/
  | enabled (woken : Bool)
  /-- in `select!`, for a datagram on this socket or the notification -/
  | waiting (woken : Bool) (socket : Nat)
  /-- it hands over what it received -/
  | handling
  /-- the supervisor sleeps after an error -/
  | sleeping
  | exited
deriving DecidableEq, Repr

/-- A receive loop of a slot. -/
structure RecvLoop where
  slot : Nat
  gen : UInt64
  phase : RecvPhase
deriving DecidableEq, Repr

/-- Where a task of `trigger_refresh` is. -/
inductive RefreshPhase where
  | checked (now : Nat)
  | claimed (now : Nat)
  /-- it opens a socket for this slot, or has passed the last one -/
  | opening (slot : Nat)
  /-- the socket of this slot is replaced -/
  | bumping (slot : Nat)
  /-- the generation of this slot is bumped and the loop with this number is to be spawned -/
  | spawning (slot loop : Nat)
  | finishing
  | done
deriving DecidableEq, Repr

/-- Where `shutdown` is; the slots below `next` are bumped. -/
inductive ShutdownPhase where
  | idle
  | bumping (next : Nat)
  | done
deriving DecidableEq, Repr

/-- `UdpUpstream` with its tasks. -/
structure UdpSystem where
  sockets : List Nat
  generations : List UInt64
  opened : Nat
  refreshGuard : RefreshGuard
  refreshes : List RefreshPhase
  shutdown : ShutdownPhase
  loops : List RecvLoop

inductive RecvEvent where
  | enable
  | check
  | wake
  | receive
  /-- an ICMP error is drained -/
  | unreachable
  | error
  | handled
  | retry
deriving DecidableEq, Repr

inductive UdpEvent where
  | trigger (now : Nat)
  /-- a refresh takes its next step; `opened` says how `open_socket` ends, where it is called -/
  | refresh (task : Nat) (opened : Bool)
  | shutdown
  | recv (loop : Nat) (e : RecvEvent)
deriving DecidableEq, Repr

/-- `notify_waiters` wakes the loops that have enabled their wait. -/
def RecvPhase.notified : RecvPhase → RecvPhase
  | .enabled _ => .enabled true
  | .waiting _ socket => .waiting true socket
  | phase => phase

namespace UdpSystem

/-- `UdpUpstream::create`. -/
def start (poolSize : Nat) : UdpSystem where
  sockets := List.range poolSize
  generations := List.replicate poolSize 0
  opened := poolSize
  refreshGuard := .fresh
  refreshes := []
  shutdown := .idle
  loops := (List.range poolSize).map fun slot => ⟨slot, 0, .head⟩

def setRefresh (s : UdpSystem) (t : Nat) (phase : RefreshPhase) : UdpSystem :=
  { s with refreshes := s.refreshes.set t phase }

def setLoop (s : UdpSystem) (j : Nat) (loop : RecvLoop) (phase : RecvPhase) : UdpSystem :=
  { s with loops := s.loops.set j { loop with phase := phase } }

def notifyWaiters (s : UdpSystem) : UdpSystem :=
  { s with loops := s.loops.map fun loop => { loop with phase := loop.phase.notified } }

/-- The generation of a slot; there are as many as slots. -/
def generation (s : UdpSystem) (slot : Nat) : UInt64 := s.generations.getD slot 0

/-- `generations[slot].fetch_add(1)`. -/
def bump (s : UdpSystem) (slot : Nat) : UdpSystem :=
  { s with generations := s.generations.set slot (s.generation slot + 1) }

/-- A step of `do_refresh` and of the task around it. -/
def refreshStep (s : UdpSystem) (t : Nat) (opened : Bool) : RefreshPhase → Option UdpSystem
  | .checked now =>
    match s.refreshGuard.claim with
    | some guard => some ({ s with refreshGuard := guard }.setRefresh t (.claimed now))
    | none => some (s.setRefresh t .done)
  | .claimed now =>
    some ({ s with refreshGuard := s.refreshGuard.coolDown now REFRESH_COOLDOWN_MS }.setRefresh t
      (.opening 0))
  | .opening slot =>
    if slot < s.sockets.length then
      if opened then
        some ({ s with
          sockets := s.sockets.set slot s.opened,
          opened := s.opened + 1 }.setRefresh t (.bumping slot))
      else some (s.setRefresh t (.opening (slot + 1)))
    else some (s.notifyWaiters.setRefresh t .finishing)
  | .bumping slot =>
    some ({ s.bump slot with
      loops := s.loops ++ [(⟨slot, s.generation slot + 1, .unborn⟩ : RecvLoop)] }.setRefresh t
        (.spawning slot s.loops.length))
  | .spawning slot j =>
    (s.loops[j]?).map fun loop => (s.setLoop j loop .head).setRefresh t (.opening (slot + 1))
  | .finishing => some ({ s with refreshGuard := s.refreshGuard.finish }.setRefresh t .done)
  | .done => none

/-- A step of `shutdown`. -/
def shutdownStep (s : UdpSystem) : Option UdpSystem :=
  match s.shutdown with
  | .idle => some { s with shutdown := .bumping 0 }
  | .bumping slot =>
    if slot < s.generations.length then some { s.bump slot with shutdown := .bumping (slot + 1) }
    else some { s.notifyWaiters with shutdown := .done }
  | .done => none

/-- A step of `recv_loop` and its supervisor. -/
def recvStep (s : UdpSystem) (j : Nat) (loop : RecvLoop) : RecvEvent → Option UdpSystem
  | .enable => if loop.phase = .head then some (s.setLoop j loop (.enabled false)) else none
  | .check =>
    match loop.phase with
    | .enabled woken =>
      if s.generation loop.slot ≠ loop.gen then some (s.setLoop j loop .exited)
      else some (s.setLoop j loop (.waiting woken (s.sockets.getD loop.slot 0)))
    | _ => none
  | .wake =>
    match loop.phase with
    | .waiting true _ => some (s.setLoop j loop .head)
    | _ => none
  | .receive =>
    match loop.phase with
    | .waiting _ _ => some (s.setLoop j loop .handling)
    | _ => none
  | .unreachable =>
    match loop.phase with
    | .waiting _ _ => some (s.setLoop j loop .head)
    | _ => none
  | .error =>
    match loop.phase with
    | .waiting _ _ => some (s.setLoop j loop .sleeping)
    | _ => none
  | .handled => if loop.phase = .handling then some (s.setLoop j loop .head) else none
  | .retry => if loop.phase = .sleeping then some (s.setLoop j loop .head) else none

def step (s : UdpSystem) : UdpEvent → Option UdpSystem
  | .trigger now =>
    if s.refreshGuard.cooledDown now then some { s with refreshes := s.refreshes ++ [.checked now] }
    else some s
  | .refresh t opened => (s.refreshes[t]?).bind (s.refreshStep t opened)
  | .shutdown => s.shutdownStep
  | .recv j e => (s.loops[j]?).bind (s.recvStep j · e)

/-! ### What a step can do -/

/-- The slot is bumped and a loop is to be spawned for it. -/
def renewed (s : UdpSystem) (slot : Nat) : UdpSystem :=
  { s.bump slot with loops := s.loops ++ [⟨slot, s.generation slot + 1, .unborn⟩] }

/-- The steps, one constructor for each way a step can go. -/
inductive Takes (s : UdpSystem) : UdpEvent → UdpSystem → Prop
  | triggered {now} : Takes s (.trigger now) { s with refreshes := s.refreshes ++ [.checked now] }
  | cooling {now} : Takes s (.trigger now) s
  | claimed {t o now guard} (ht : s.refreshes[t]? = some (.checked now)) :
    Takes s (.refresh t o) ({ s with refreshGuard := guard }.setRefresh t (.claimed now))
  | refused {t o now} (ht : s.refreshes[t]? = some (.checked now)) :
    Takes s (.refresh t o) (s.setRefresh t .done)
  | begun {t o now guard} (ht : s.refreshes[t]? = some (.claimed now)) :
    Takes s (.refresh t o) ({ s with refreshGuard := guard }.setRefresh t (.opening 0))
  | replaced {t o slot opened} (ht : s.refreshes[t]? = some (.opening slot))
    (hslot : slot < s.sockets.length) :
    Takes s (.refresh t o) ({ s with
      sockets := s.sockets.set slot s.opened, opened := opened }.setRefresh t (.bumping slot))
  | openFailed {t o slot} (ht : s.refreshes[t]? = some (.opening slot)) :
    Takes s (.refresh t o) (s.setRefresh t (.opening (slot + 1)))
  | notified {t o slot} (ht : s.refreshes[t]? = some (.opening slot)) :
    Takes s (.refresh t o) (s.notifyWaiters.setRefresh t .finishing)
  | bumped {t o slot} (ht : s.refreshes[t]? = some (.bumping slot)) :
    Takes s (.refresh t o) ((s.renewed slot).setRefresh t (.spawning slot s.loops.length))
  | spawned {t o slot j loop} (ht : s.refreshes[t]? = some (.spawning slot j))
    (hj : s.loops[j]? = some loop) :
    Takes s (.refresh t o) ((s.setLoop j loop .head).setRefresh t (.opening (slot + 1)))
  | finished {t o guard} (ht : s.refreshes[t]? = some .finishing) :
    Takes s (.refresh t o) ({ s with refreshGuard := guard }.setRefresh t .done)
  | shutdownBegun (hs : s.shutdown = .idle) : Takes s .shutdown { s with shutdown := .bumping 0 }
  | shutdownBumped {slot} (hs : s.shutdown = .bumping slot) (hslot : slot < s.generations.length) :
    Takes s .shutdown { s.bump slot with shutdown := .bumping (slot + 1) }
  | shutdownDone {slot} (hs : s.shutdown = .bumping slot) (hslot : ¬ slot < s.generations.length) :
    Takes s .shutdown { s.notifyWaiters with shutdown := .done }
  /-- a loop waits unwoken only after it has found its generation current -/
  | moved {j e loop phase} (hj : s.loops[j]? = some loop)
    (hcurrent : ∀ socket, phase = .waiting false socket → s.generation loop.slot = loop.gen) :
    Takes s (.recv j e) (s.setLoop j loop phase)

variable {s s' : UdpSystem}

theorem takes_of_refreshStep {t : Nat} {o : Bool} {phase : RefreshPhase} (ht : s.refreshes[t]? = some phase)
    (h : s.refreshStep t o phase = some s') : s.Takes (.refresh t o) s' := by
  revert h
  fun_cases refreshStep s t o phase <;> intro h
  case case8 =>
    obtain ⟨loop, hj, rfl⟩ := Option.map_eq_some_iff.mp h
    exact .spawned ht hj
  all_goals cases h
  case case1 => exact .claimed ht
  case case2 => exact .refused ht
  case case3 => exact .begun ht
  case case4 hslot _ => exact .replaced ht hslot
  case case5 => exact .openFailed ht
  case case6 => exact .notified ht
  case case7 => exact .bumped ht
  case case9 => exact .finished ht

theorem takes_of_recvStep {j : Nat} {loop : RecvLoop} {e : RecvEvent} (hj : s.loops[j]? = some loop)
    (h : s.recvStep j loop e = some s') : s.Takes (.recv j e) s' := by
  revert h
  fun_cases recvStep s j loop e <;> rintro ⟨⟩
  case case4 hgen => exact .moved hj fun _ _ => not_not.mp hgen
  all_goals exact .moved hj (by simp)

theorem takes_of_step {e : UdpEvent} (h : s.step e = some s') : s.Takes e s' := by
  revert h
  fun_cases step s e <;> intro h
  case case3 =>
    obtain ⟨phase, ht, h⟩ := Option.bind_eq_some_iff.mp h
    exact takes_of_refreshStep ht h
  case case4 =>
    revert h
    fun_cases shutdownStep s <;> rintro ⟨⟩
    case case1 hs => exact .shutdownBegun hs
    case case2 hs hslot => exact .shutdownBumped hs hslot
    case case3 hs hslot => exact .shutdownDone hs hslot
  case case5 =>
    obtain ⟨loop, hj, h⟩ := Option.bind_eq_some_iff.mp h
    exact takes_of_recvStep hj h
  all_goals cases h
  case case1 => exact .triggered
  case case2 => exact .cooling

/-! ### The generations of loops -/

/-- The slot and generation of each loop. -/
def keys (s : UdpSystem) : List (Nat × UInt64) := s.loops.map fun loop => (loop.slot, loop.gen)

/-- The counter of a slot is not about to wrap when it is bumped. -/
def NoWrap (s : UdpSystem) : UdpEvent → Prop
  | .refresh t _ => ∀ slot, s.refreshes[t]? = some (.bumping slot) →
    (s.generation slot).toNat + 1 < 2 ^ 64
  | .shutdown => ∀ slot, s.shutdown = .bumping slot → (s.generation slot).toNat + 1 < 2 ^ 64
  | _ => True

/-- No two loops of a slot have the same generation, and none is ahead of its slot. -/
structure Numbered (s : UdpSystem) : Prop where
  lengths : s.generations.length = s.sockets.length
  bumping : ∀ (t slot : Nat), s.refreshes[t]? = some (.bumping slot) → slot < s.sockets.length
  behind : ∀ key ∈ s.keys, key.2.toNat ≤ (s.generation key.1).toNat
  nodup : s.keys.Nodup

section

variable {s s' : UdpSystem} {e : UdpEvent}

theorem keys_setLoop {j : Nat} {loop : RecvLoop} (hj : s.loops[j]? = some loop) (phase : RecvPhase) :
    (s.setLoop j loop phase).keys = s.keys :=
  Slots.map_set_same hj rfl

theorem keys_notifyWaiters (s : UdpSystem) : s.notifyWaiters.keys = s.keys := by
  simp [keys, notifyWaiters, Function.comp_def]

variable {slot : Nat}

theorem generation_bump (hslot : slot < s.generations.length) :
    (s.bump slot).generation slot = s.generation slot + 1 := by
  simp [bump, generation, List.getElem?_set_self hslot]

theorem generation_bump_ne {other : Nat} (hne : other ≠ slot) :
    (s.bump slot).generation other = s.generation other := by
  simp [bump, generation, List.getElem?_set_ne hne.symm]

theorem keys_renewed : (s.renewed slot).keys = s.keys ++ [(slot, s.generation slot + 1)] := by
  simp [renewed, keys]

theorem toNat_generation_succ (hwrap : (s.generation slot).toNat + 1 < 2 ^ 64) :
    (s.generation slot + 1).toNat = (s.generation slot).toNat + 1 := by
  rw [UInt64.toNat_add]
  exact Nat.mod_eq_of_lt hwrap

theorem le_generation_bump {other : Nat} (hslot : slot < s.generations.length)
    (hwrap : (s.generation slot).toNat + 1 < 2 ^ 64) :
    (s.generation other).toNat ≤ ((s.bump slot).generation other).toNat := by
  by_cases hne : other = slot
  · subst hne
    rw [generation_bump hslot, toNat_generation_succ hwrap]
    omega
  · rw [generation_bump_ne hne]

namespace Numbered

theorem start (poolSize : Nat) : Numbered (start poolSize) where
  lengths := by simp [UdpSystem.start]
  bumping := by simp [UdpSystem.start]
  behind := by
    intro key hkey
    simp only [keys, UdpSystem.start, List.map_map, List.mem_map] at hkey
    obtain ⟨slot, -, rfl⟩ := hkey
    exact Nat.zero_le _
  nodup := by
    have hinj : Function.Injective fun slot : Nat => (slot, (0 : UInt64)) :=
      fun a b hab => congrArg Prod.fst hab
    rw [keys, UdpSystem.start, List.map_map]
    exact List.Nodup.map hinj List.nodup_range

theorem frame (h : Numbered s) (hkeys : s'.keys = s.keys) (hgens : s'.generations = s.generations)
    (hsockets : s'.sockets.length = s.sockets.length)
    (hbumping : ∀ (t slot : Nat), s'.refreshes[t]? = some (.bumping slot) →
      s.refreshes[t]? = some (.bumping slot) ∨ slot < s.sockets.length) : Numbered s' where
  lengths := by rw [hgens, hsockets, h.lengths]
  bumping t slot ht := by
    rw [hsockets]
    exact (hbumping t slot ht).elim (h.bumping t slot) id
  behind key hkey := by
    rw [generation, hgens]
    exact h.behind key (hkeys ▸ hkey)
  nodup := hkeys ▸ h.nodup

theorem setRefresh (h : Numbered s) (t : Nat) {phase : RefreshPhase}
    (hphase : ∀ slot, phase = .bumping slot → slot < s.sockets.length) :
    Numbered (s.setRefresh t phase) := by
  refine h.frame rfl rfl rfl ?_
  intro u slot hu
  rcases Slots.of_getElem?_set hu with ⟨-, hu⟩ | ⟨-, hu⟩
  · exact .inr (hphase slot hu.symm)
  · exact .inl hu

theorem bumpStep (h : Numbered s) {slot : Nat} (hslot : slot < s.sockets.length)
    (hwrap : (s.generation slot).toNat + 1 < 2 ^ 64) : Numbered (s.bump slot) where
  lengths := by rw [bump, List.length_set]; exact h.lengths
  bumping := h.bumping
  behind key hkey := (h.behind key hkey).trans (le_generation_bump (h.lengths ▸ hslot) hwrap)
  nodup := h.nodup

theorem succ_notMem_keys (h : Numbered s) {slot : Nat}
    (hwrap : (s.generation slot).toNat + 1 < 2 ^ 64) :
    (slot, s.generation slot + 1) ∉ s.keys := by
  intro hmem
  have hle : (s.generation slot + 1).toNat ≤ (s.generation slot).toNat := h.behind _ hmem
  rw [toNat_generation_succ hwrap] at hle
  omega

theorem renewedStep (h : Numbered s) {slot : Nat} (hslot : slot < s.sockets.length)
    (hwrap : (s.generation slot).toNat + 1 < 2 ^ 64) : Numbered (s.renewed slot) := by
  have hbump := h.bumpStep hslot hwrap
  refine ⟨hbump.lengths, hbump.bumping, ?_, ?_⟩
  · rw [keys_renewed]
    refine Slots.forall_mem_push hbump.behind ?_
    show _ ≤ ((s.bump slot).generation slot).toNat
    rw [generation_bump (h.lengths ▸ hslot)]
  · rw [keys_renewed]
    apply List.Nodup.append h.nodup (List.nodup_singleton _)
    intro key hkey hnew
    rw [List.mem_singleton] at hnew
    exact h.succ_notMem_keys hwrap (hnew ▸ hkey)

/-- What one step keeps. -/
theorem step (h : Numbered s) (hwrap : NoWrap s e) (ht : s.Takes e s') : Numbered s' := by
  cases ht with
  | triggered =>
    refine h.frame rfl rfl rfl ?_
    intro t slot ht
    rcases Slots.of_getElem?_push ht with ⟨-, ht⟩ | ht
    · cases ht
    · exact .inl ht
  | cooling => exact h
  | claimed ht | begun ht | finished ht =>
    exact (h.setRefresh _ (by simp)).frame rfl rfl rfl fun _ _ => .inl
  | refused ht | openFailed ht => exact h.setRefresh _ (by simp)
  | @replaced t _ slot _ ht hslot =>
    have hset : Numbered (s.setRefresh t (.bumping slot)) := h.setRefresh t (by rintro m ⟨⟩; exact hslot)
    exact hset.frame rfl rfl List.length_set fun _ _ => .inl
  | notified ht => exact (h.setRefresh _ (by simp)).frame (keys_notifyWaiters s) rfl rfl fun _ _ => .inl
  | bumped ht => exact (h.renewedStep (h.bumping _ _ ht) (hwrap _ ht)).setRefresh _ (by simp)
  | spawned ht hj => exact (h.setRefresh _ (by simp)).frame (keys_setLoop hj _) rfl rfl fun _ _ => .inl
  | shutdownBegun hs => exact h.frame rfl rfl rfl fun _ _ => .inl
  | shutdownBumped hs hslot =>
    exact (h.bumpStep (h.lengths ▸ hslot) (hwrap _ hs)).frame rfl rfl rfl fun _ _ => .inl
  | shutdownDone hs => exact h.frame (keys_notifyWaiters s) rfl rfl fun _ _ => .inl
  | moved hj => exact h.frame (keys_setLoop hj _) rfl rfl fun _ _ => .inl

theorem loop_unique (h : Numbered s) {j k : Nat} {a b : RecvLoop} (hj : s.loops[j]? = some a)
    (hk : s.loops[k]? = some b) (hslot : a.slot = b.slot) (hgen : a.gen = b.gen) : j = k := by
  have hkey : ∀ {n : Nat} {x : RecvLoop}, s.loops[n]? = some x → s.keys[n]? = some (x.slot, x.gen) := by
    intro n x hx
    rw [keys, List.getElem?_map, hx]
    rfl
  apply (List.getElem?_inj (Slots.lt_length (hkey hj)) h.nodup).mp
  rw [hkey hj, hkey hk, hslot, hgen]

end Numbered

/-! ### After the shutdown -/

/-- `shutdown` has bumped the slot. -/
def passed (s : UdpSystem) (slot : Nat) : Prop :=
  match s.shutdown with
  | .idle => False
  | .bumping next => slot < next
  | .done => slot < s.generations.length

/-- A refresh bumps no slot that `shutdown` has passed. -/
def Unpassed (s : UdpSystem) : UdpEvent → Prop
  | .refresh t _ => ∀ slot, s.refreshes[t]? = some (.bumping slot) → ¬ s.passed slot
  | _ => True

/-- No loop of a slot that `shutdown` has passed is current. -/
structure Retired (s : UdpSystem) : Prop where
  slots : ∀ key ∈ s.keys, key.1 < s.generations.length
  stale : ∀ key ∈ s.keys, s.passed key.1 → key.2 ≠ s.generation key.1

namespace Retired

theorem start (poolSize : Nat) : Retired (start poolSize) where
  slots key hkey := by
    simp only [keys, UdpSystem.start, List.map_map, List.mem_map, List.mem_range] at hkey
    obtain ⟨slot, hslot, rfl⟩ := hkey
    simpa [UdpSystem.start] using hslot
  stale _ _ hpassed := hpassed.elim

theorem frame (h : Retired s) (hkeys : s'.keys = s.keys) (hgens : s'.generations = s.generations)
    (hpassed : ∀ slot, slot < s.generations.length → s'.passed slot → s.passed slot) : Retired s' where
  slots key hkey := by
    rw [hgens]
    exact h.slots key (hkeys ▸ hkey)
  stale key hkey hp := by
    rw [generation, hgens]
    rw [hkeys] at hkey
    exact h.stale key hkey (hpassed key.1 (h.slots key hkey) hp)

theorem shutdownBumped (h : Retired s) (hn : Numbered s) {slot : Nat} (hs : s.shutdown = .bumping slot)
    (hslot : slot < s.generations.length) (hwrap : (s.generation slot).toNat + 1 < 2 ^ 64) :
    Retired { s.bump slot with shutdown := .bumping (slot + 1) } where
  slots key hkey := by
    show key.1 < (s.generations.set slot _).length
    rw [List.length_set]
    exact h.slots key hkey
  stale key hkey hp := by
    change key.2 ≠ (s.bump slot).generation key.1
    by_cases hkeySlot : key.1 = slot
    · rw [hkeySlot, generation_bump hslot]
      intro hgen
      have hmem : (slot, s.generation slot + 1) ∈ s.keys := by
        rw [← hkeySlot, ← hgen] at *
        exact hkey
      exact hn.succ_notMem_keys hwrap hmem
    · rw [generation_bump_ne hkeySlot]
      have hlt : key.1 < slot + 1 := hp
      apply h.stale key hkey
      rw [passed, hs]
      show key.1 < slot
      omega

theorem renewedStep (h : Retired s) {slot : Nat} (hslot : slot < s.generations.length)
    (hnot : ¬ s.passed slot) : Retired (s.renewed slot) := by
  have hlen : (s.renewed slot).generations.length = s.generations.length := List.length_set
  have hpassed : ∀ other, (s.renewed slot).passed other → s.passed other := by
    intro other ho
    rw [passed] at ho ⊢
    rw [hlen] at ho
    exact ho
  constructor
  · rw [keys_renewed, hlen]
    exact Slots.forall_mem_push h.slots hslot
  · rw [keys_renewed]
    refine Slots.forall_mem_push ?_ fun hp => absurd (hpassed slot hp) hnot
    intro key hkey hp
    have hne : key.1 ≠ slot := fun heq => hnot (heq ▸ hpassed key.1 hp)
    show key.2 ≠ (s.bump slot).generation key.1
    rw [generation_bump_ne hne]
    exact h.stale key hkey (hpassed key.1 hp)

/-- What one step keeps. -/
theorem step (h : Retired s) (hn : Numbered s) (hwrap : NoWrap s e) (hunpassed : Unpassed s e)
    (ht : s.Takes e s') : Retired s' := by
  cases ht with
  | cooling => exact h
  | triggered | claimed _ | refused _ | begun _ | replaced _ _ | openFailed _ | finished _ =>
    exact h.frame rfl rfl fun _ _ => id
  | notified _ => exact h.frame (keys_notifyWaiters s) rfl fun _ _ => id
  | bumped ht =>
    have hslot := hn.lengths ▸ hn.bumping _ _ ht
    exact (h.renewedStep hslot (hunpassed _ ht)).frame rfl rfl fun _ _ => id
  | spawned _ hj | moved hj => exact h.frame (keys_setLoop hj _) rfl fun _ _ => id
  | shutdownBegun hs => exact h.frame rfl rfl fun slot _ hp => absurd hp (Nat.not_lt_zero slot)
  | shutdownBumped hs hslot => exact h.shutdownBumped hn hs hslot (hwrap _ hs)
  | @shutdownDone next hs hslot =>
    refine h.frame (keys_notifyWaiters s) rfl ?_
    intro slot hlt _
    rw [passed, hs]
    show slot < next
    omega

end Retired

/-! ### No loop sleeps through its retirement -/

/-- A refresh that has yet to notify the loops. -/
def Running (phase : RefreshPhase) : Prop :=
  match phase with
  | .opening _ | .bumping _ | .spawning _ _ => True
  | _ => False

/-- A refresh or `shutdown` will notify the loops. -/
def NotifyDue (s : UdpSystem) : Prop :=
  (∃ (t : Nat) (phase : RefreshPhase), s.refreshes[t]? = some phase ∧ Running phase) ∨
    ∃ slot, s.shutdown = .bumping slot

/-- A loop that waits unwoken is current or will be notified. -/
def NoLostWakeup (s : UdpSystem) : Prop :=
  ∀ (j : Nat) (loop : RecvLoop) (socket : Nat), s.loops[j]? = some loop →
    loop.phase = .waiting false socket → s.generation loop.slot = loop.gen ∨ s.NotifyDue

namespace NotifyDue

theorem setRefresh (h : s.NotifyDue) {t : Nat} {old phase : RefreshPhase}
    (ht : s.refreshes[t]? = some old) (hrun : Running old → Running phase) :
    (s.setRefresh t phase).NotifyDue := by
  rcases h with ⟨u, p, hu, hp⟩ | hs
  · by_cases hut : u = t
    · subst hut
      rw [ht] at hu
      obtain rfl := Option.some.inj hu
      exact .inl ⟨u, phase, Slots.getElem?_set_self ht, hrun hp⟩
    · exact .inl ⟨u, p, by rw [UdpSystem.setRefresh, List.getElem?_set_ne (Ne.symm hut)]; exact hu, hp⟩
  · exact .inr hs

theorem push (h : s.NotifyDue) (phase : RefreshPhase) :
    NotifyDue { s with refreshes := s.refreshes ++ [phase] } := by
  rcases h with ⟨u, p, hu, hp⟩ | hs
  · exact .inl ⟨u, p, Slots.getElem?_push_of_some hu, hp⟩
  · exact .inr hs

end NotifyDue

namespace NoLostWakeup

theorem start (poolSize : Nat) : NoLostWakeup (start poolSize) := by
  intro j loop socket hj hphase
  simp only [UdpSystem.start, List.getElem?_map, Option.map_eq_some_iff] at hj
  obtain ⟨slot, -, rfl⟩ := hj
  simp at hphase

theorem of_due (h : s.NotifyDue) : NoLostWakeup s := fun _ _ _ _ _ => .inr h

theorem frame (h : NoLostWakeup s) (hloops : s'.loops = s.loops)
    (hgens : s'.generations = s.generations) (hdue : s.NotifyDue → s'.NotifyDue) : NoLostWakeup s' := by
  intro j loop socket hj hphase
  rw [hloops] at hj
  rw [generation, hgens]
  exact (h j loop socket hj hphase).imp id hdue

theorem of_notified (hloops : s'.loops = s.notifyWaiters.loops) : NoLostWakeup s' := by
  intro j loop socket hj hphase
  rw [hloops, notifyWaiters, List.getElem?_map, Option.map_eq_some_iff] at hj
  obtain ⟨old, -, rfl⟩ := hj
  have hne : old.phase.notified ≠ .waiting false socket := by
    cases old.phase <;> simp [RecvPhase.notified]
  exact absurd hphase hne

theorem setLoop (h : NoLostWakeup s) {j : Nat} {loop : RecvLoop} {phase : RecvPhase}
    (hcurrent : ∀ socket, phase = .waiting false socket → s.generation loop.slot = loop.gen) :
    NoLostWakeup (s.setLoop j loop phase) := by
  intro k other socket hk hphase
  rcases Slots.of_getElem?_set hk with ⟨-, rfl⟩ | ⟨-, hk⟩
  · exact .inl (hcurrent socket hphase)
  · exact h k other socket hk hphase

/-- What one step keeps. -/
theorem step (h : NoLostWakeup s) (ht : s.Takes e s') : NoLostWakeup s' := by
  cases ht with
  | triggered => exact h.frame rfl rfl fun hdue => hdue.push _
  | cooling => exact h
  | claimed ht | refused ht | finished ht =>
    exact h.frame rfl rfl fun hdue => hdue.setRefresh ht False.elim
  | begun ht | replaced ht _ | openFailed ht | bumped ht | spawned ht _ =>
    exact of_due (.inl ⟨_, _, Slots.getElem?_set_self ht, trivial⟩)
  | notified _ | shutdownDone _ => exact of_notified rfl
  | shutdownBegun _ | shutdownBumped _ _ => exact of_due (.inr ⟨_, rfl⟩)
  | moved hj hcurrent => exact h.setLoop hcurrent

end NoLostWakeup

/-- Every task has taken its remaining steps: refreshes have ended, and a loop that has not left waits
for its socket. -/
structure Quiet (s : UdpSystem) : Prop where
  refreshes : ∀ (t : Nat) (phase : RefreshPhase), s.refreshes[t]? = some phase → phase = .done
  loops : ∀ (j : Nat) (loop : RecvLoop), s.loops[j]? = some loop →
    loop.phase = .exited ∨ ∃ socket, loop.phase = .waiting false socket

theorem Quiet.not_notifyDue (h : Quiet s) (hs : s.shutdown = .done) : ¬ s.NotifyDue := by
  intro hdue
  rcases hdue with ⟨t, phase, ht, hrun⟩ | ⟨slot, hslot⟩
  · rw [h.refreshes t phase ht] at hrun
    exact hrun
  · rw [hs] at hslot
    simp at hslot

/-- What every run keeps while no counter wraps. -/
structure Sound (s : UdpSystem) : Prop where
  numbered : Numbered s
  wakeup : NoLostWakeup s

end

/-- In every run in which no counter wraps, at most one receive loop of a slot has the slot's
generation. If no refresh bumps a slot that `shutdown` has passed, then none has it once `shutdown` is
through, and every loop has left once all tasks have taken their remaining steps. -/
theorem run_loops (poolSize : Nat) {es : List UdpEvent} {s : UdpSystem}
    (hwrap : Meets step NoWrap (start poolSize) es) (hrun : run step (start poolSize) es = some s) :
    (∀ (j k : Nat) (a b : RecvLoop), s.loops[j]? = some a → s.loops[k]? = some b → a.slot = b.slot →
      a.gen = s.generation a.slot → b.gen = s.generation b.slot → j = k) ∧
    (Meets step Unpassed (start poolSize) es → s.shutdown = .done →
      (∀ loop ∈ s.loops, loop.gen ≠ s.generation loop.slot) ∧
      (Quiet s → ∀ loop ∈ s.loops, loop.phase = .exited)) := by
  have hsound : Sound s := by
    refine run_invariant ?_ (I := Sound) ⟨.start poolSize, .start poolSize⟩ hwrap hrun
    intro s e s' h hc hstep
    exact ⟨h.numbered.step hc (takes_of_step hstep), h.wakeup.step (takes_of_step hstep)⟩
  constructor
  · intro j k a b hj hk hslot ha hb
    exact hsound.numbered.loop_unique hj hk hslot (by rw [ha, hb, hslot])
  · intro hunpassed hdone
    have hretired : Numbered s ∧ Retired s := by
      refine run_invariant ?_ (I := fun s => Numbered s ∧ Retired s) ⟨.start poolSize, .start poolSize⟩
        (hwrap.and hunpassed) hrun
      intro s e s' h hc hstep
      exact ⟨h.1.step hc.1 (takes_of_step hstep), h.2.step h.1 hc.1 hc.2 (takes_of_step hstep)⟩
    have hstale : ∀ loop ∈ s.loops, loop.gen ≠ s.generation loop.slot := by
      intro loop hloop
      have hkey : (loop.slot, loop.gen) ∈ s.keys := List.mem_map_of_mem hloop
      apply hretired.2.stale _ hkey
      rw [passed, hdone]
      exact hretired.2.slots _ hkey
    refine ⟨hstale, ?_⟩
    intro hquiet loop hloop
    obtain ⟨j, hj⟩ := List.mem_iff_getElem?.mp hloop
    rcases hquiet.loops j loop hj with hexit | ⟨socket, hwait⟩
    · exact hexit
    · rcases hsound.wakeup j loop socket hj hwait with hcurrent | hdue
      · exact absurd hcurrent.symm (hstale loop hloop)
      · exact absurd hdue (hquiet.not_notifyDue hdone)

/-- A condition on the slot that a refresh is about to bump can be decided. -/
def decidableBumping (o : Option RefreshPhase) (p : Nat → Prop) [DecidablePred p] :
    Decidable (∀ slot, o = some (.bumping slot) → p slot) :=
  match o with
  | some (.bumping slot) => decidable_of_iff (p slot) (by simp)
  | none | some (.checked _) | some (.claimed _) | some (.opening _) | some (.spawning _ _)
  | some .finishing | some .done => .isTrue (by simp)

instance (s : UdpSystem) (slot : Nat) : Decidable (s.passed slot) :=
  match h : s.shutdown with
  | .idle => .isFalse (by simp [passed, h])
  | .bumping next => decidable_of_iff (slot < next) (by simp [passed, h])
  | .done => decidable_of_iff (slot < s.generations.length) (by simp [passed, h])

instance (s : UdpSystem) (e : UdpEvent) : Decidable (NoWrap s e) :=
  match e with
  | .refresh t _ => decidableBumping (s.refreshes[t]?) fun slot => (s.generation slot).toNat + 1 < 2 ^ 64
  | .shutdown =>
    match h : s.shutdown with
    | .bumping slot => decidable_of_iff ((s.generation slot).toNat + 1 < 2 ^ 64) (by simp [NoWrap, h])
    | .idle | .done => .isTrue (by simp [NoWrap, h])
  | .trigger _ | .recv .. => .isTrue trivial

instance (s : UdpSystem) (e : UdpEvent) : Decidable (Unpassed s e) :=
  match e with
  | .refresh t _ => decidableBumping (s.refreshes[t]?) fun slot => ¬ s.passed slot
  | .shutdown | .trigger _ | .recv .. => .isTrue trivial

/-- A refresh of one slot of two, the other one cannot be opened; then the shutdown. -/
def refreshThenShutdown : List UdpEvent :=
  [.recv 0 .enable, .recv 0 .check, .recv 1 .enable, .recv 1 .check, .trigger 0, .refresh 0 true,
    .refresh 0 true, .refresh 0 true, .refresh 0 true, .refresh 0 true, .refresh 0 false, .refresh 0 true,
    .refresh 0 true, .recv 0 .wake, .recv 0 .enable, .recv 0 .check, .recv 1 .wake, .recv 2 .enable,
    .recv 2 .check, .shutdown, .shutdown, .shutdown, .shutdown, .recv 1 .enable, .recv 1 .check,
    .recv 2 .wake, .recv 2 .enable, .recv 2 .check]

theorem run_loops_refreshThenShutdown :
    ∃ s, run step (start 2) refreshThenShutdown = some s ∧ s.shutdown = .done ∧
      ∀ loop ∈ s.loops, loop.gen ≠ s.generation loop.slot := by
  have hwrap : Meets step NoWrap (start 2) refreshThenShutdown :=
    (meets_of_computed (C := fun s e => decide (NoWrap s e)) (by decide +kernel)).mono
      fun _ _ => of_decide_eq_true
  have hunpassed : Meets step Unpassed (start 2) refreshThenShutdown :=
    (meets_of_computed (C := fun s e => decide (Unpassed s e)) (by decide +kernel)).mono
      fun _ _ => of_decide_eq_true
  obtain ⟨s, hrun, hs⟩ := (Option.any_eq_true _ _).mp (show (run step (start 2) refreshThenShutdown).any
    (fun s => decide (s.shutdown = .done)) = true by decide +kernel)
  have hdone := of_decide_eq_true hs
  exact ⟨s, hrun, hdone, ((run_loops 2 hwrap hrun).2 hunpassed hdone).1⟩

/-- A refresh has replaced the socket when `shutdown` runs, and goes on. -/
def refreshAcrossShutdown : List UdpEvent :=
  [.trigger 0, .refresh 0 true, .refresh 0 true, .refresh 0 true, .shutdown, .shutdown, .shutdown,
    .refresh 0 true, .refresh 0 true, .refresh 0 true, .refresh 0 true, .recv 0 .enable, .recv 0 .check,
    .recv 1 .enable, .recv 1 .check]

/-- All tasks have taken their steps and the loop that was spawned last is current. -/
theorem refresh_outlives_shutdown :
    (run step (start 1) refreshAcrossShutdown).any (fun s => decide (s.shutdown = .done ∧
      s.refreshes = [.done] ∧ s.generations = [2] ∧
      s.loops = [⟨0, 0, .exited⟩, ⟨0, 2, .waiting false 1⟩])) = true := by
  decide +kernel

/-- In every run, also where counters wrap or a refresh outlives `shutdown`, a loop that waits unwoken is
current or will be notified. Once all tasks have taken their steps, every loop has left or is current. -/
theorem run_no_stale_wait (poolSize : Nat) {es : List UdpEvent} {s : UdpSystem}
    (hrun : run step (start poolSize) es = some s) :
    NoLostWakeup s ∧ (Quiet s → (∀ slot, s.shutdown ≠ .bumping slot) → ∀ loop ∈ s.loops,
      loop.phase = .exited ∨ loop.gen = s.generation loop.slot) := by
  have hwakeup : NoLostWakeup s :=
    run_invariant (fun _ _ _ h _ hstep => h.step (takes_of_step hstep)) (.start poolSize)
      (meets_true _ _) hrun
  refine ⟨hwakeup, fun hquiet hstill loop hloop => ?_⟩
  obtain ⟨j, hj⟩ := List.mem_iff_getElem?.mp hloop
  apply (hquiet.loops j loop hj).imp_right
  intro ⟨socket, hwait⟩
  rcases hwakeup j loop socket hj hwait with hcurrent | ⟨t, phase, ht, hrunning⟩ | ⟨slot, hslot⟩
  · exact hcurrent.symm
  · rw [hquiet.refreshes t phase ht] at hrunning
    exact hrunning.elim
  · exact absurd hslot (hstill slot)

theorem run_no_stale_wait_refreshAcrossShutdown :
    ∃ s, run step (start 1) refreshAcrossShutdown = some s ∧ NoLostWakeup s := by
  obtain ⟨s, hrun⟩ := Option.isSome_iff_exists.mp
    (show (run step (start 1) refreshAcrossShutdown).isSome = true by decide +kernel)
  exact ⟨s, hrun, (run_no_stale_wait 1 hrun).1⟩

end UdpSystem

end PathDns
