import PathDns.Lib.Runs
import PathDns.Lib.Slots
import PathDns.Upstream.Inflight

/-!
# Concurrent use of the in-flight registry

Any number of tasks call `register`, `complete`, `clear` and drop guards. A call of `register` is known by
its number, which also stands for the channel it opens. It goes through the phases of `RegisterPhase`,
and between any two of them other tasks can take steps.

Each invariant is derived from `Takes`, which says once what a step can do:

* `PermitsKept`: the free permits and the calls that hold one add up to the cap.
* `EntriesGuarded`: an entry of the table belongs to a call whose guard is live and names its ID.
* `DeliveriesSound`: what was taken out of the table for a packet, and for whom.
* `TokensNumbered`: the tokens follow the order in which calls took them, modulo 2^64.
-/

namespace PathDns

open Bytes Runs

/-- Where a call of `register` is, and what became of the guard it returned. -/
inductive RegisterPhase where
  /-- it holds a permit, or there is no cap -/
  | acquired
  /-- it has its token and is at the head of the loop, with `left` turns to go -/
  | trying (token : UInt64) (left : Nat)
  /-- it has drawn an ID and is about to lock its shard -/
  | locking (token : UInt64) (left : Nat) (id : UInt16)
  /-- it has returned, and the guard is live -/
  | guarded (guard : InflightGuard)
  /-- the body of the guard's drop has run, its permit is still held -/
  | dropping (guard : InflightGuard)
  | dropped (guard : InflightGuard)
  /-- it has returned an error -/
  | failed
deriving DecidableEq, Repr

namespace RegisterPhase

/-- The call or its guard holds a permit, where there is a cap. -/
def holdsPermit : RegisterPhase → Bool
  | .dropped _ | .failed => false
  | _ => true

/-- The guard that the call returned is live. -/
def liveGuard : RegisterPhase → Bool
  | .guarded _ | .dropping _ => true
  | _ => false

/-- The guard that the call returned. -/
def guard? : RegisterPhase → Option InflightGuard
  | .guarded g | .dropping g | .dropped g => some g
  | _ => none

def token? : RegisterPhase → Option UInt64
  | .trying token _ | .locking token _ _ => some token
  | .guarded g | .dropping g | .dropped g => some g.token
  | .acquired | .failed => none

def id? : RegisterPhase → Option UInt16
  | .locking _ _ id => some id
  | .guarded g | .dropping g | .dropped g => some g.id
  | _ => none

end RegisterPhase

/-- A call of `register`. -/
structure RegisterCall where
  clientId : UInt16
  question : List UInt8
  phase : RegisterPhase
deriving DecidableEq, Repr

/-- A packet that `complete` took an entry out for: the number of the packet among all that arrived, its
bytes, the waiter, the bytes for it, and whether they were sent yet. -/
structure Delivery where
  packet : Nat
  received : Packet
  waiter : Nat
  response : Packet
  sent : Bool
deriving DecidableEq, Repr

/-- The registry with the calls and the packets so far; `tokenOrder` has the calls in the order in which
they took their tokens. -/
structure InflightSystem where
  registry : InflightRegistry
  calls : List RegisterCall
  packets : Nat
  deliveries : List Delivery
  tokenOrder : List Nat

inductive InflightEvent where
  | register (clientId : UInt16) (question : List UInt8)
  /-- a call of `register` takes its next step -/
  | proceed (call : Nat)
  | complete (packet : Packet)
  | send (delivery : Nat)
  | dropGuard (call : Nat)
  | releasePermit (call : Nat)
  /-- one turn of the loop of `clear` -/
  | clearShard (shard : Fin SHARDS)
deriving DecidableEq, Repr

namespace InflightSystem

/-- The system at the start. -/
def start (maxInflight : Nat) (seed : UInt32) : InflightSystem where
  registry := .new maxInflight seed
  calls := []
  packets := 0
  deliveries := []
  tokenOrder := []

/-- Call `k` goes on to the given phase. -/
def setPhase (s : InflightSystem) (k : Nat) (call : RegisterCall) (phase : RegisterPhase) :
    InflightSystem :=
  { s with calls := s.calls.set k { call with phase := phase } }

/-- The turns of the loop of `register`, `u16::MAX`. -/
def idAttempts : Nat := 65535

/-- `register`, up to the permit. -/
def registerStep (s : InflightSystem) (clientId : UInt16) (question : List UInt8) : InflightSystem :=
  match s.registry.tryAcquire with
  | some registry =>
    { s with registry := registry, calls := s.calls ++ [⟨clientId, question, .acquired⟩] }
  | none => { s with calls := s.calls ++ [⟨clientId, question, .failed⟩] }

/-- `next_token.fetch_add`. -/
def fetchToken (s : InflightSystem) (k : Nat) : InflightSystem :=
  { s with
    registry := { s.registry with nextToken := s.registry.nextToken + 1 },
    tokenOrder := s.tokenOrder ++ [k] }

/-- `next_id.fetch_add`. -/
def fetchId (s : InflightSystem) : InflightSystem :=
  { s with registry := { s.registry with nextId := s.registry.nextId + 1 } }

/-- The registry of the system, changed. -/
def withRegistry (s : InflightSystem) (registry : InflightRegistry) : InflightSystem :=
  { s with registry := registry }

/-- The entry of call `k`. -/
def entryOf (k : Nat) (call : RegisterCall) (token : UInt64) : InflightEntry :=
  ⟨k, call.clientId, call.question, token⟩

/-- `register` behind the permit: the token, and then the loop. -/
def proceedStep (s : InflightSystem) (k : Nat) (call : RegisterCall) : Option InflightSystem :=
  match call.phase with
  | .acquired => some ((s.fetchToken k).setPhase k call (.trying s.registry.nextToken idAttempts))
  | .trying _ 0 => some ((s.withRegistry s.registry.release).setPhase k call .failed)
  | .trying token (left + 1) =>
    some (s.fetchId.setPhase k call (.locking token left (mix16 s.registry.nextId)))
  | .locking token left id =>
    match s.registry.get id with
    | none =>
      some ((s.withRegistry (s.registry.insert id (entryOf k call token))).setPhase k call
        (.guarded ⟨id, token⟩))
    | some _ => some (s.setPhase k call (.trying token left))
  | _ => none

/-- A packet arrives. -/
def completeStep (s : InflightSystem) (packet : Packet) : InflightSystem :=
  let done := s.registry.complete packet
  match done.response with
  | none => { s with registry := done.registry, packets := s.packets + 1 }
  | some (waiter, response) =>
    { s with
      registry := done.registry,
      packets := s.packets + 1,
      deliveries := s.deliveries ++ [⟨s.packets, packet, waiter, response, false⟩] }

def step (s : InflightSystem) : InflightEvent → Option InflightSystem
  | .register clientId question => some (s.registerStep clientId question)
  | .proceed k => (s.calls[k]?).bind (s.proceedStep k)
  | .complete packet => some (s.completeStep packet)
  | .send n => (s.deliveries[n]?).bind fun d =>
    if d.sent then none else some { s with deliveries := s.deliveries.set n { d with sent := true } }
  | .dropGuard k => (s.calls[k]?).bind fun call =>
    match call.phase with
    | .guarded guard =>
      some ((s.withRegistry (guard.drop s.registry)).setPhase k call (.dropping guard))
    | _ => none
  | .releasePermit k => (s.calls[k]?).bind fun call =>
    match call.phase with
    | .dropping guard =>
      some ((s.withRegistry s.registry.release).setPhase k call (.dropped guard))
    | _ => none
  | .clearShard i => some (s.withRegistry (s.registry.clearShard i))

/-! ### What a step can do -/

/-- The steps, one constructor for each way a step can go. -/
inductive Takes (s : InflightSystem) : InflightEvent → InflightSystem → Prop
  | acquired {clientId question registry} (hfree : s.registry.tryAcquire = some registry) :
    Takes s (.register clientId question)
      { s with registry := registry, calls := s.calls ++ [⟨clientId, question, .acquired⟩] }
  | refused {clientId question} (hfull : s.registry.tryAcquire = none) :
    Takes s (.register clientId question)
      { s with calls := s.calls ++ [⟨clientId, question, .failed⟩] }
  | tokenTaken {k call} (hcall : s.calls[k]? = some call) (hphase : call.phase = .acquired) :
    Takes s (.proceed k) ((s.fetchToken k).setPhase k call (.trying s.registry.nextToken idAttempts))
  | exhausted {k call token} (hcall : s.calls[k]? = some call) (hphase : call.phase = .trying token 0) :
    Takes s (.proceed k) ((s.withRegistry s.registry.release).setPhase k call .failed)
  | idDrawn {k call token left} (hcall : s.calls[k]? = some call)
    (hphase : call.phase = .trying token (left + 1)) :
    Takes s (.proceed k) (s.fetchId.setPhase k call (.locking token left (mix16 s.registry.nextId)))
  | inserted {k call token left id} (hcall : s.calls[k]? = some call)
    (hphase : call.phase = .locking token left id) (hvacant : s.registry.get id = none) :
    Takes s (.proceed k) ((s.withRegistry (s.registry.insert id (entryOf k call token))).setPhase k call
      (.guarded ⟨id, token⟩))
  | occupied {k call token left id} (hcall : s.calls[k]? = some call)
    (hphase : call.phase = .locking token left id) :
    Takes s (.proceed k) (s.setPhase k call (.trying token left))
  | passedOver {packet} (hdropped : (s.registry.complete packet).outcome ≠ .delivered) :
    Takes s (.complete packet) { s with packets := s.packets + 1 }
  | taken {packet entry} (hget : s.registry.get (InflightRegistry.packetId packet) = some entry)
    (hanswers : InflightRegistry.Answers packet entry.question) :
    Takes s (.complete packet)
      { s with
        registry := s.registry.remove (InflightRegistry.packetId packet),
        packets := s.packets + 1,
        deliveries := s.deliveries ++
          [⟨s.packets, packet, entry.tx, setId packet entry.clientId.toNat, false⟩] }
  | sent {n d} (hd : s.deliveries[n]? = some d) :
    Takes s (.send n) { s with deliveries := s.deliveries.set n { d with sent := true } }
  | guardDropped {k call guard} (hcall : s.calls[k]? = some call) (hphase : call.phase = .guarded guard) :
    Takes s (.dropGuard k)
      ((s.withRegistry (guard.drop s.registry)).setPhase k call (.dropping guard))
  | permitReleased {k call guard} (hcall : s.calls[k]? = some call)
    (hphase : call.phase = .dropping guard) :
    Takes s (.releasePermit k)
      ((s.withRegistry s.registry.release).setPhase k call (.dropped guard))
  | cleared {i} : Takes s (.clearShard i) (s.withRegistry (s.registry.clearShard i))

theorem takes_of_completeStep (s : InflightSystem) (packet : Packet) :
    s.Takes (.complete packet) (s.completeStep packet) := by
  rcases s.registry.complete_cases packet with ⟨hreg, hresp, hout⟩ | ⟨entry, hget, hanswers, hdone⟩
  · simpa only [completeStep, hresp, hreg] using Takes.passedOver hout
  · simpa only [completeStep, hdone] using Takes.taken hget hanswers

variable {k : Nat} {call : RegisterCall}

theorem takes_of_proceedStep {s s' : InflightSystem} (hcall : s.calls[k]? = some call)
    (h : s.proceedStep k call = some s') : s.Takes (.proceed k) s' := by
  revert h
  fun_cases proceedStep s k call <;> rintro ⟨⟩
  case case1 hphase => exact .tokenTaken hcall hphase
  case case2 hphase => exact .exhausted hcall hphase
  case case3 hphase => exact .idDrawn hcall hphase
  case case4 hphase hvacant => exact .inserted hcall hphase hvacant
  case case5 hphase _ _ => exact .occupied hcall hphase

theorem takes_of_step {s s' : InflightSystem} {e : InflightEvent} (h : s.step e = some s') :
    s.Takes e s' := by
  cases e with
  | register clientId question =>
    cases h
    fun_cases registerStep s clientId question
    case case1 hfree => exact .acquired hfree
    case case2 hfull => exact .refused hfull
  | proceed k =>
    obtain ⟨call, hcall, h⟩ := Option.bind_eq_some_iff.mp h
    exact takes_of_proceedStep hcall h
  | complete packet => exact Option.some.inj h ▸ takes_of_completeStep s packet
  | send n =>
    obtain ⟨d, hd, h⟩ := Option.bind_eq_some_iff.mp h
    split_ifs at h
    exact Option.some.inj h ▸ .sent hd
  | dropGuard k | releasePermit k =>
    obtain ⟨call, hcall, h⟩ := Option.bind_eq_some_iff.mp h
    split at h <;> cases h
    first | exact .guardDropped hcall ‹_› | exact .permitReleased hcall ‹_›
  | clearShard i => exact Option.some.inj h ▸ .cleared

/-! ### Permits -/

/-- The free permits and the calls that hold one add up to the cap; without a cap there are none. -/
def PermitsKept (maxInflight : Nat) (s : InflightSystem) : Prop :=
  match s.registry.cap with
  | none => maxInflight = 0
  | some free => free + s.calls.countP (·.phase.holdsPermit) = maxInflight

variable {s s' : InflightSystem} {e : InflightEvent} {maxInflight : Nat}

theorem permitsKept_start (seed : UInt32) : PermitsKept maxInflight (start maxInflight seed) := by
  rw [PermitsKept, start, InflightRegistry.new]
  rcases Nat.eq_zero_or_pos maxInflight with rfl | hcap
  · simp
  · simp [hcap]

variable {phase : RegisterPhase} {r : InflightRegistry}

theorem PermitsKept.setPhase (h : PermitsKept maxInflight s) (hcap : r.cap = s.registry.cap)
    (hcall : s.calls[k]? = some call) (hsame : phase.holdsPermit = call.phase.holdsPermit) :
    PermitsKept maxInflight ((s.withRegistry r).setPhase k call phase) := by
  have hcount : (s.calls.set k { call with phase := phase }).countP (·.phase.holdsPermit) =
      s.calls.countP (·.phase.holdsPermit) := Slots.countP_set_same hcall hsame
  simp only [PermitsKept, withRegistry, InflightSystem.setPhase, hcap, hcount] at h ⊢
  exact h

theorem PermitsKept.release (h : PermitsKept maxInflight s) (hcall : s.calls[k]? = some call)
    (hheld : call.phase.holdsPermit = true) (hgone : phase.holdsPermit = false) :
    PermitsKept maxInflight ((s.withRegistry s.registry.release).setPhase k call phase) := by
  have hcount := Slots.countP_set_drop (p := fun c : RegisterCall => c.phase.holdsPermit)
    (a := { call with phase := phase }) hcall hheld hgone
  simp only [PermitsKept, withRegistry, InflightSystem.setPhase, InflightRegistry.release] at h ⊢
  cases hcap : s.registry.cap <;> rw [hcap] at h
  · exact h
  · simp only [Option.map_some] at h ⊢
    omega

theorem cap_drop (guard : InflightGuard) (r : InflightRegistry) : (guard.drop r).cap = r.cap := by
  rcases InflightRegistry.drop_cases guard r with hdrop | hdrop <;> rw [hdrop]
  rfl

theorem PermitsKept.step (h : PermitsKept maxInflight s) (ht : s.Takes e s') :
    PermitsKept maxInflight s' := by
  cases ht with
  | acquired hfree =>
    revert hfree
    fun_cases InflightRegistry.tryAcquire s.registry <;> rintro ⟨⟩
    · simp_all only [PermitsKept]
    · simp_all only [PermitsKept, List.countP_append, List.countP_singleton, RegisterPhase.holdsPermit,
        if_true]
      omega
  | refused hfull =>
    simp only [PermitsKept, List.countP_append, List.countP_singleton, RegisterPhase.holdsPermit,
      Bool.false_eq_true, if_false, Nat.add_zero] at h ⊢
    exact h
  | tokenTaken hcall hphase | idDrawn hcall hphase | inserted hcall hphase | occupied hcall hphase =>
    exact h.setPhase rfl hcall (by rw [hphase]; rfl)
  | exhausted hcall hphase | permitReleased hcall hphase => exact h.release hcall (by rw [hphase]; rfl) rfl
  | passedOver | taken | sent | cleared => exact h
  | guardDropped hcall hphase => exact h.setPhase (cap_drop _ _) hcall (by rw [hphase]; rfl)

/-! ### Entries -/

/-- The entry under an ID belongs to a call whose guard is live and has the ID and the entry's token. -/
def EntriesGuarded (s : InflightSystem) : Prop :=
  ∀ id entry, s.registry.get id = some entry → ∃ call, s.calls[entry.tx]? = some call ∧
    call.clientId = entry.clientId ∧ call.question = entry.question ∧
    call.phase = .guarded ⟨id, entry.token⟩

variable {registry : InflightRegistry}

theorem tryAcquire_frame (h : r.tryAcquire = some registry) :
    registry.shards = r.shards ∧ registry.nextToken = r.nextToken := by
  revert h
  fun_cases InflightRegistry.tryAcquire r <;> rintro ⟨⟩
  all_goals exact ⟨rfl, rfl⟩

theorem get_tryAcquire (h : r.tryAcquire = some registry) (id : UInt16) : registry.get id = r.get id := by
  rw [InflightRegistry.get, (tryAcquire_frame h).1]
  rfl

theorem EntriesGuarded.step (h : EntriesGuarded s) (ht : s.Takes e s') : EntriesGuarded s' := by
  intro id entry hget
  cases ht with
  | acquired hfree =>
    have hbefore := h id entry (get_tryAcquire hfree id ▸ hget)
    grind
  | refused =>
    have hbefore := h id entry hget
    grind
  | tokenTaken hcall hphase | exhausted hcall hphase | idDrawn hcall hphase | occupied hcall hphase
  | permitReleased hcall hphase =>
    have hbefore := h id entry hget
    grind [setPhase, withRegistry, fetchToken, fetchId]
  | inserted hcall hphase =>
    have hbefore := h id entry
    grind [setPhase, withRegistry, entryOf]
  | passedOver | sent => exact h id entry hget
  | taken => exact h id entry (Sharded.of_get_remove hget).2
  | guardDropped hcall hphase =>
    -- the call's own entry is the one that goes
    obtain ⟨hold, hother⟩ := InflightRegistry.get_of_get_drop hget
    have hbefore := h id entry hold
    grind [setPhase, withRegistry]
  | cleared => exact h id entry (Sharded.of_get_clear hget)

/-! ### IDs -/

/-- No call has drawn the ID zero. -/
def IdsNonzero (s : InflightSystem) : Prop :=
  Slots.Holds (fun _ call => ∀ id, call.phase.id? = some id → id ≠ 0) s.calls

theorem IdsNonzero.setPhase (h : IdsNonzero s) (hphase : ∀ id, phase.id? = some id → id ≠ 0) :
    IdsNonzero (s.setPhase k call phase) :=
  Slots.Holds.set h hphase

theorem IdsNonzero.step (h : IdsNonzero s) (ht : s.Takes e s') : IdsNonzero s' := by
  cases ht with
  | acquired | refused => exact Slots.Holds.push h (by simp [RegisterPhase.id?])
  | tokenTaken | exhausted | occupied => exact h.setPhase (by simp [RegisterPhase.id?])
  | idDrawn =>
    refine h.setPhase ?_
    intro id hid
    exact Option.some.inj hid ▸ mix16_ne_zero _
  | inserted hcall hphase | guardDropped hcall hphase | permitReleased hcall hphase =>
    refine h.setPhase ?_
    intro id hid
    exact h _ _ hcall id (by rw [hphase]; exact hid)
  | passedOver | taken | sent | cleared => exact h

theorem placed_step (h : s.registry.Placed) (ht : s.Takes e s') : s'.registry.Placed := by
  cases ht with
  | acquired hfree =>
    intro i id entry hlook
    exact h i id entry ((tryAcquire_frame hfree).1 ▸ hlook)
  | inserted => exact Sharded.Placed.insert h
  | taken => exact Sharded.Placed.remove h
  | guardDropped => exact InflightRegistry.Placed.drop h _
  | cleared => exact Sharded.Placed.clear h
  | _ => exact h

/-! ### Deliveries -/

/-- A delivery goes to a call that registered under the packet's ID, answers its question and carries
its client's ID. -/
structure DeliverySound (s : InflightSystem) (d : Delivery) : Prop where
  number : d.packet < s.packets
  waiter : ∃ call guard, s.calls[d.waiter]? = some call ∧ call.phase.guard? = some guard ∧
    guard.id = InflightRegistry.packetId d.received ∧
    InflightRegistry.Answers d.received call.question ∧
    d.response = setId d.received call.clientId.toNat

/-- The deliveries so far: no packet and no waiter occurs twice, and who has been served waits no more. -/
structure DeliveriesSound (s : InflightSystem) : Prop where
  each : ∀ d ∈ s.deliveries, DeliverySound s d
  packets : (s.deliveries.map (·.packet)).Nodup
  waiters : (s.deliveries.map (·.waiter)).Nodup
  served : ∀ d ∈ s.deliveries, ∀ id entry, s.registry.get id = some entry → entry.tx ≠ d.waiter

/-- A step that delivers nothing: calls keep their guards, and a new entry is one of a call that had none. -/
theorem DeliveriesSound.keep (h : DeliveriesSound s) (hsame : s'.deliveries = s.deliveries)
    (hpackets : s.packets ≤ s'.packets)
    (hcalls : ∀ (k : Nat) (call : RegisterCall) (g : InflightGuard), s.calls[k]? = some call →
      call.phase.guard? = some g → ∃ call', s'.calls[k]? = some call' ∧ call'.phase.guard? = some g ∧
        call'.question = call.question ∧ call'.clientId = call.clientId)
    (hentries : ∀ id entry, s'.registry.get id = some entry → s.registry.get id = some entry ∨
      ∃ call, s.calls[entry.tx]? = some call ∧ call.phase.guard? = none) : DeliveriesSound s' where
  each := by
    intro d hd
    obtain ⟨hnumber, call, guard, hcall, hguard, hid, hanswers, hresponse⟩ := h.each d (hsame ▸ hd)
    obtain ⟨call', hcall', hguard', hquestion, hclient⟩ := hcalls _ _ _ hcall hguard
    exact ⟨by omega, call', guard, hcall', hguard', hid, hquestion ▸ hanswers, hclient ▸ hresponse⟩
  packets := hsame ▸ h.packets
  waiters := hsame ▸ h.waiters
  served := by
    intro d hd id entry hget
    obtain ⟨-, call, guard, hcall, hguard, -⟩ := h.each d (hsame ▸ hd)
    have hbefore := h.served d (hsame ▸ hd) id entry
    grind

theorem DeliveriesSound.taken (h : DeliveriesSound s) (hentries : EntriesGuarded s) {packet : Packet}
    {entry : InflightEntry} (hget : s.registry.get (InflightRegistry.packetId packet) = some entry)
    (hanswers : InflightRegistry.Answers packet entry.question) :
    DeliveriesSound
      { s with
        registry := s.registry.remove (InflightRegistry.packetId packet),
        packets := s.packets + 1,
        deliveries := s.deliveries ++
          [⟨s.packets, packet, entry.tx, setId packet entry.clientId.toNat, false⟩] } := by
  obtain ⟨owner, howner, hclient, hquestion, hphase⟩ := hentries _ _ hget
  constructor
  · intro d hd
    rcases List.mem_append.mp hd with hd | hd
    · obtain ⟨hnumber, hwaiter⟩ := h.each d hd
      exact ⟨Nat.lt_succ_of_lt hnumber, hwaiter⟩
    · obtain rfl := List.mem_singleton.mp hd
      refine ⟨Nat.lt_succ_self _, owner, _, howner, by rw [hphase]; rfl, rfl, ?_, ?_⟩
      · rw [hquestion]
        exact hanswers
      · rw [hclient]
  · rw [List.map_append, List.map_singleton]
    apply List.Nodup.append h.packets (List.nodup_singleton _)
    intro n hn hn'
    obtain ⟨d, hd, rfl⟩ := List.mem_map.mp hn
    exact absurd (List.mem_singleton.mp hn') (h.each d hd).number.ne
  · rw [List.map_append, List.map_singleton]
    apply List.Nodup.append h.waiters (List.nodup_singleton _)
    intro w hw hw'
    obtain ⟨d, hd, rfl⟩ := List.mem_map.mp hw
    exact h.served d hd _ entry hget (List.mem_singleton.mp hw').symm
  · intro d hd id' entry' hget'
    obtain ⟨hid, hold⟩ := Sharded.of_get_remove hget'
    rcases List.mem_append.mp hd with hd | hd
    · exact h.served d hd id' entry' hold
    · obtain rfl := List.mem_singleton.mp hd
      -- an entry of the same call would be under the same ID
      have howner' := hentries _ _ hold
      grind

theorem DeliveriesSound.sent (h : DeliveriesSound s) {n : Nat} {d : Delivery}
    (hd : s.deliveries[n]? = some d) :
    DeliveriesSound { s with deliveries := s.deliveries.set n { d with sent := true } } := by
  have hmem := List.mem_of_getElem? hd
  constructor
  · intro d' hd'
    rcases List.mem_or_eq_of_mem_set hd' with hd' | rfl
    · exact ⟨(h.each d' hd').number, (h.each d' hd').waiter⟩
    · exact ⟨(h.each d hmem).number, (h.each d hmem).waiter⟩
  · have hmap : (s.deliveries.set n { d with sent := true }).map (·.packet) =
        s.deliveries.map (·.packet) := Slots.map_set_same hd rfl
    rw [hmap]
    exact h.packets
  · have hmap : (s.deliveries.set n { d with sent := true }).map (·.waiter) =
        s.deliveries.map (·.waiter) := Slots.map_set_same hd rfl
    rw [hmap]
    exact h.waiters
  · intro d' hd'
    rcases List.mem_or_eq_of_mem_set hd' with hd' | rfl
    · exact h.served d' hd'
    · exact h.served d hmem

theorem DeliveriesSound.step (h : DeliveriesSound s) (hentries : EntriesGuarded s)
    (ht : s.Takes e s') : DeliveriesSound s' := by
  cases ht with
  | acquired hfree =>
    exact h.keep rfl le_rfl (by grind) fun id entry hget => .inl (get_tryAcquire hfree id ▸ hget)
  | refused => exact h.keep rfl le_rfl (by grind) fun _ _ hget => .inl hget
  | tokenTaken hcall hphase | exhausted hcall hphase | idDrawn hcall hphase | occupied hcall hphase
  | permitReleased hcall hphase =>
    refine h.keep rfl le_rfl ?_ fun _ _ hget => .inl hget
    grind [setPhase, withRegistry, fetchToken, fetchId, RegisterPhase.guard?]
  | inserted hcall hphase =>
    refine h.keep rfl le_rfl ?_ ?_ <;> grind [setPhase, withRegistry, entryOf, RegisterPhase.guard?]
  | passedOver => exact h.keep rfl (Nat.le_succ _) (by grind) fun _ _ hget => .inl hget
  | taken hget hanswers => exact h.taken hentries hget hanswers
  | sent hd => exact h.sent hd
  | guardDropped hcall hphase =>
    refine h.keep rfl le_rfl ?_ fun _ _ hget => .inl (InflightRegistry.get_of_get_drop hget).1
    grind [setPhase, withRegistry, RegisterPhase.guard?]
  | cleared => exact h.keep rfl le_rfl (by grind [withRegistry]) fun _ _ hget => .inl (Sharded.of_get_clear hget)

/-! ### Tokens -/

/-- The `n`-th call to take a token has token `n`, modulo 2^64. -/
structure TokensNumbered (s : InflightSystem) : Prop where
  next : s.registry.nextToken = UInt64.ofNat s.tokenOrder.length
  nodup : s.tokenOrder.Nodup
  taken : ∀ k ∈ s.tokenOrder, ∃ call, s.calls[k]? = some call ∧ call.phase ≠ .acquired
  numbered : Slots.Holds (fun k call => ∀ token, call.phase.token? = some token →
    ∃ n, s.tokenOrder[n]? = some k ∧ token = UInt64.ofNat n) s.calls

theorem TokensNumbered.keep (h : TokensNumbered s) (hnext : s'.registry.nextToken = s.registry.nextToken)
    (horder : s'.tokenOrder = s.tokenOrder)
    (hpast : ∀ (k : Nat) (call : RegisterCall), s.calls[k]? = some call → call.phase ≠ .acquired →
      ∃ call', s'.calls[k]? = some call' ∧ call'.phase ≠ .acquired)
    (htoken : ∀ (k : Nat) (call' : RegisterCall) (token : UInt64), s'.calls[k]? = some call' →
      call'.phase.token? = some token → ∃ call, s.calls[k]? = some call ∧ call.phase.token? = some token) :
    TokensNumbered s' where
  next := by rw [hnext, horder, h.next]
  nodup := horder ▸ h.nodup
  taken := by
    intro k hk
    obtain ⟨call, hcall, hphase⟩ := h.taken k (horder ▸ hk)
    exact hpast k call hcall hphase
  numbered := by
    intro k call' hcall' token ht
    obtain ⟨call, hcall, ht⟩ := htoken k call' token hcall' ht
    exact horder ▸ h.numbered k call hcall token ht

theorem TokensNumbered.tokenTaken (h : TokensNumbered s) (hcall : s.calls[k]? = some call)
    (hphase : call.phase = .acquired) :
    TokensNumbered
      ((s.fetchToken k).setPhase k call (.trying s.registry.nextToken idAttempts)) := by
  have hnew : k ∉ s.tokenOrder := by
    intro hk
    have hpast := h.taken k hk
    grind
  constructor
  · simp only [InflightSystem.setPhase, fetchToken, h.next, List.length_append, List.length_singleton,
      UInt64.ofNat_add]
    rfl
  · exact List.nodup_append.mpr ⟨h.nodup, List.nodup_singleton k, fun a ha b hb heq =>
      hnew (List.mem_singleton.mp hb ▸ heq ▸ ha)⟩
  · intro j hj
    have hpast := h.taken j
    grind [fetchToken, setPhase]
  · apply Slots.Holds.set
    · intro j call' hcall' token htoken
      obtain ⟨n, hn, heq⟩ := h.numbered j call' hcall' token htoken
      exact ⟨n, Slots.getElem?_push_of_some hn, heq⟩
    · intro token htoken
      refine ⟨s.tokenOrder.length, ?_, ?_⟩
      · simp [fetchToken, InflightSystem.setPhase]
      · rw [← Option.some.inj htoken, h.next]

theorem nextToken_drop (guard : InflightGuard) (r : InflightRegistry) :
    (guard.drop r).nextToken = r.nextToken := by
  rcases InflightRegistry.drop_cases guard r with hdrop | hdrop <;> rw [hdrop]
  rfl

theorem TokensNumbered.step (h : TokensNumbered s) (ht : s.Takes e s') : TokensNumbered s' := by
  cases ht with
  | tokenTaken hcall hphase => exact h.tokenTaken hcall hphase
  | acquired hfree =>
    refine h.keep (tryAcquire_frame hfree).2 rfl ?_ ?_ <;> grind [RegisterPhase.token?]
  | refused => refine h.keep rfl rfl ?_ ?_ <;> grind [RegisterPhase.token?]
  | exhausted hcall hphase | idDrawn hcall hphase | inserted hcall hphase | occupied hcall hphase
  | permitReleased hcall hphase =>
    refine h.keep rfl rfl ?_ ?_ <;> grind [setPhase, withRegistry, fetchId, RegisterPhase.token?]
  | guardDropped hcall hphase =>
    refine h.keep (nextToken_drop _ _) rfl ?_ ?_ <;> grind [setPhase, withRegistry, RegisterPhase.token?]
  | passedOver | taken | sent | cleared => exact ⟨h.next, h.nodup, h.taken, h.numbered⟩

variable {token : UInt64} {id : UInt16}

/-- Up to 2^64 calls, no two calls have the same token. -/
theorem TokensNumbered.call_eq (h : TokensNumbered s) (hcalls : s.calls.length ≤ 2 ^ 64) {j : Nat}
    {callj callk : RegisterCall} (hj : s.calls[j]? = some callj) (hk : s.calls[k]? = some callk)
    (htj : callj.phase.token? = some token) (htk : callk.phase.token? = some token) : j = k := by
  obtain ⟨n, hn, hnt⟩ := h.numbered j callj hj token htj
  obtain ⟨m, hm, hmt⟩ := h.numbered k callk hk token htk
  have hle : s.tokenOrder.length ≤ s.calls.length := by
    apply Slots.length_le_of_nodup h.nodup
    intro i hi
    obtain ⟨call, hcall, -⟩ := h.taken i hi
    exact Slots.lt_length hcall
  have hnlt := Slots.lt_length hn
  have hmlt := Slots.lt_length hm
  have heq : n = m := by
    have := congrArg UInt64.toNat (hnt.symm.trans hmt)
    rw [UInt64.toNat_ofNat', UInt64.toNat_ofNat', Nat.mod_eq_of_lt (by omega),
      Nat.mod_eq_of_lt (by omega)] at this
    exact this
  rw [heq, hm] at hn
  exact (Option.some.inj hn).symm

/-! ### Whole runs -/

/-- What every run keeps. -/
structure Invariant (maxInflight : Nat) (s : InflightSystem) : Prop where
  permits : PermitsKept maxInflight s
  placed : s.registry.Placed
  entries : EntriesGuarded s
  ids : IdsNonzero s
  deliveries : DeliveriesSound s
  tokens : TokensNumbered s

theorem get_new (seed : UInt32) (id : UInt16) :
    (InflightRegistry.new maxInflight seed).get id = none :=
  Sharded.get_empty

theorem invariant_start (seed : UInt32) : Invariant maxInflight (start maxInflight seed) where
  permits := permitsKept_start seed
  placed := Sharded.placed_empty
  entries := fun id entry hget => by
    rw [start, get_new] at hget
    simp at hget
  ids := fun k call hcall => by simp [start] at hcall
  deliveries := ⟨by simp [start], by simp [start], by simp [start], by simp [start]⟩
  tokens := ⟨rfl, by simp [start], by simp [start], fun k call hcall => by simp [start] at hcall⟩

theorem Invariant.step (h : Invariant maxInflight s) (hstep : s.step e = some s') :
    Invariant maxInflight s' :=
  have ht := takes_of_step hstep
  { permits := h.permits.step ht
    placed := placed_step h.placed ht
    entries := h.entries.step ht
    ids := h.ids.step ht
    deliveries := h.deliveries.step h.entries ht
    tokens := h.tokens.step ht }

theorem run_invariant {seed : UInt32} {es : List InflightEvent}
    (hrun : run step (start maxInflight seed) es = some s) : Invariant maxInflight s :=
  Runs.run_invariant (C := fun _ _ => True) (fun _ _ _ h _ hstep => h.step hstep)
    (invariant_start seed) (Runs.meets_true _ _) hrun

/-- Call `k` waits in the table under `id`. -/
def Live (s : InflightSystem) (k : Nat) (id : UInt16) : Prop :=
  ∃ i entry, (s.registry.shards i).lookup id = some entry ∧ entry.tx = k

theorem Invariant.get_of_live (h : Invariant maxInflight s) (hlive : s.Live k id) :
    ∃ entry, s.registry.get id = some entry ∧ entry.tx = k := by
  obtain ⟨i, entry, hlook, hk⟩ := hlive
  exact ⟨entry, Sharded.Placed.get h.placed hlook, hk⟩

theorem live_of_get {entry : InflightEntry} (hget : s.registry.get id = some entry) : s.Live entry.tx id :=
  ⟨_, entry, hget, rfl⟩

/-- What holds in a state of the registry with its waiters. -/
structure Sound (maxInflight : Nat) (s : InflightSystem) : Prop where
  /-- the IDs of live registrations are pairwise distinct -/
  distinct : ∀ j k id, s.Live j id → s.Live k id → j = k
  nonzero : ∀ k id, s.Live k id → id ≠ 0
  /-- who got a packet was registered under its ID and asked its question -/
  delivered : ∀ d ∈ s.deliveries, DeliverySound s d
  carries : ∀ d ∈ s.deliveries, ∀ call, s.calls[d.waiter]? = some call →
    getId d.response = .ok call.clientId.toNat
  /-- a packet goes to at most one waiter -/
  packetOnce : (s.deliveries.map (·.packet)).Nodup
  /-- a waiter gets at most one response -/
  waiterOnce : (s.deliveries.map (·.waiter)).Nodup
  /-- the live guards stay within a nonzero cap -/
  capped : 0 < maxInflight → s.calls.countP (·.phase.liveGuard) ≤ maxInflight

theorem liveGuard_le_holdsPermit (calls : List RegisterCall) :
    calls.countP (·.phase.liveGuard) ≤ calls.countP (·.phase.holdsPermit) := by
  apply List.countP_mono_left
  intro call _ hlive
  cases hphase : call.phase
  all_goals simp_all [RegisterPhase.liveGuard, RegisterPhase.holdsPermit]

theorem Invariant.sound (h : Invariant maxInflight s) : Sound maxInflight s where
  distinct := by
    intro j k id hj hk
    obtain ⟨entry, hget, rfl⟩ := h.get_of_live hj
    obtain ⟨entry', hget', rfl⟩ := h.get_of_live hk
    rw [hget, Option.some.injEq] at hget'
    rw [hget']
  nonzero := by
    intro k id hk
    obtain ⟨entry, hget, -⟩ := h.get_of_live hk
    obtain ⟨call, hcall, -, -, hphase⟩ := h.entries id entry hget
    exact h.ids _ call hcall id (by rw [hphase]; rfl)
  delivered := h.deliveries.each
  carries := by
    intro d hd call hcall
    obtain ⟨waiter, -, hwaiter, -, -, hanswers, hresponse⟩ := (h.deliveries.each d hd).waiter
    obtain rfl : waiter = call := Option.some.inj (hwaiter.symm.trans hcall)
    have hlen : 12 ≤ d.received.length := by
      have := hanswers.reply
      simp only [isReply, Bool.and_eq_true, decide_eq_true_eq] at this
      exact this.1
    rw [hresponse]
    exact getId_setId (by omega) (UInt16.toNat_lt _)
  packetOnce := h.deliveries.packets
  waiterOnce := h.deliveries.waiters
  capped := by
    intro hpos
    have hle := liveGuard_le_holdsPermit s.calls
    have hkept := h.permits
    rw [PermitsKept] at hkept
    split at hkept <;> omega

/-- What a packet does: it changes nothing but the count of packets, or it goes to the call that waits
under its ID, if it answers its question. -/
def Completes (s : InflightSystem) (packet : Packet) (s' : InflightSystem) : Prop :=
  s' = { s with packets := s.packets + 1 } ∨
    ∃ (k : Nat) (call : RegisterCall), s.Live k (InflightRegistry.packetId packet) ∧
      s.calls[k]? = some call ∧ InflightRegistry.Answers packet call.question ∧
      s'.registry = s.registry.remove (InflightRegistry.packetId packet) ∧
      s'.deliveries = s.deliveries ++
        [⟨s.packets, packet, k, setId packet call.clientId.toNat, false⟩]

theorem Invariant.completes (h : Invariant maxInflight s) {packet : Packet}
    (hstep : s.step (.complete packet) = some s') : s.Completes packet s' := by
  cases takes_of_step hstep with
  | passedOver => exact .inl rfl
  | taken hget hanswers =>
    obtain ⟨call, hcall, hclient, hquestion, -⟩ := h.entries _ _ hget
    refine .inr ⟨_, call, live_of_get hget, hcall, ?_, rfl, ?_⟩
    · rw [hquestion]
      exact hanswers
    · rw [hclient]

theorem Invariant.live_after_drop (h : Invariant maxInflight s) (hcalls : s.calls.length ≤ 2 ^ 64) {j : Nat}
    (hstep : s.step (.dropGuard k) = some s') (hne : j ≠ k) (hlive : s.Live j id) : s'.Live j id := by
  obtain ⟨entry, hget, rfl⟩ := h.get_of_live hlive
  cases takes_of_step hstep with
  | guardDropped hcall hphase =>
    obtain ⟨owner, howner, -, -, howns⟩ := h.entries _ _ hget
    apply live_of_get
    refine InflightRegistry.get_drop hget ?_
    rintro ⟨-, htoken⟩
    apply hne
    apply h.tokens.call_eq hcalls howner hcall (by rw [howns]; rfl)
    rw [hphase, htoken]
    rfl

/-- In every run of calls of `register`, packets, drops and clears, the registry is sound, a packet that
does not match leaves it as it is, and, up to the 2^64-th call, a dropped guard leaves the entries of
all other calls in place. -/
theorem run_sound {seed : UInt32} {es : List InflightEvent}
    (hrun : run step (start maxInflight seed) es = some s) :
    Sound maxInflight s ∧
      (∀ packet s', s.step (.complete packet) = some s' → s.Completes packet s') ∧
      (s.calls.length ≤ 2 ^ 64 → ∀ j k id s', s.step (.dropGuard k) = some s' → j ≠ k →
        s.Live j id → s'.Live j id) := by
  have h := run_invariant hrun
  refine ⟨h.sound, ?_, ?_⟩
  · intro packet s' hstep
    exact h.completes hstep
  · intro hcalls j k id s' hstep hne hlive
    exact h.live_after_drop hcalls hstep hne hlive

/-- A call under a cap of one, a second call that is refused, and the response to the first. -/
def cappedRun : List InflightEvent :=
  [.register 7 InflightRegistry.rootQuestion, .proceed 0, .proceed 0, .proceed 0,
    .register 8 InflightRegistry.rootQuestion, .complete InflightRegistry.rootReply, .send 0]

theorem run_sound_cappedRun : ∃ s, run step (start 1 0) cappedRun = some s ∧
    s.deliveries.length = 1 ∧ Sound 1 s := by
  have hany : (run step (start 1 0) cappedRun).any (fun s => s.deliveries.length == 1) = true := by
    decide +kernel
  obtain ⟨s, hs, hlen⟩ := (Option.any_eq_true _ _).mp hany
  exact ⟨s, hs, by simpa using hlen, (run_sound hs).1⟩

/-- In every run nothing leaks: an entry of the table has a live guard, the free permits and those held
add up to the cap, and once every call has ended the table is empty and all permits are free. -/
theorem run_no_leak {seed : UInt32} {es : List InflightEvent}
    (hrun : run step (start maxInflight seed) es = some s) :
    EntriesGuarded s ∧ PermitsKept maxInflight s ∧
    ((∀ call ∈ s.calls, call.phase.holdsPermit = false) →
      (∀ id, s.registry.get id = none) ∧ ∀ free, s.registry.cap = some free → free = maxInflight) := by
  have h := run_invariant hrun
  refine ⟨h.entries, h.permits, fun hended => ⟨fun id => ?_, fun free hcap => ?_⟩⟩
  · by_contra hsome
    obtain ⟨entry, hget⟩ := Option.ne_none_iff_exists'.mp hsome
    obtain ⟨call, hcall, -, -, hphase⟩ := h.entries id entry hget
    have hends := hended call (List.mem_of_getElem? hcall)
    simp [hphase, RegisterPhase.holdsPermit] at hends
  · have hkept := h.permits
    have hnone : s.calls.countP (·.phase.holdsPermit) = 0 := by
      rw [List.countP_eq_zero]
      intro call hcall
      simp [hended call hcall]
    simpa only [PermitsKept, hcap, hnone, Nat.add_zero] using hkept

/-- A call that is answered, dropped and gives its permit back. -/
theorem run_no_leak_cappedRun : ∃ s,
    run step (start 1 0) (cappedRun ++ [.dropGuard 0, .releasePermit 0]) = some s ∧
    (∀ id, s.registry.get id = none) ∧ ∀ free, s.registry.cap = some free → free = 1 := by
  obtain ⟨s, hrun, hs⟩ := (Option.any_eq_true _ _).mp
    (show (run step (start 1 0) (cappedRun ++ [.dropGuard 0, .releasePermit 0])).any (fun s =>
      s.calls.all fun call => !call.phase.holdsPermit) = true by decide +kernel)
  exact ⟨s, hrun, (run_no_leak hrun).2.2 (by simpa using hs)⟩

/-! ### A run that exhausts the tokens -/

/-- A registry without a cap and with nothing in flight. -/
structure Idle (s : InflightSystem) : Prop where
  shards : s.registry.shards = fun _ => ∅
  cap : s.registry.cap = none

/-- Call `k` for `rootQuestion`, up to its guard. -/
def openCall (k : Nat) : List InflightEvent :=
  [.register 7 InflightRegistry.rootQuestion, .proceed k, .proceed k, .proceed k]

/-- The guard that `openCall` gets in an idle registry. -/
def nextGuard (s : InflightSystem) : InflightGuard := ⟨mix16 s.registry.nextId, s.registry.nextToken⟩

/-- The entry that `openCall` makes in an idle registry. -/
def nextEntry (s : InflightSystem) : InflightEntry :=
  ⟨s.calls.length, 7, InflightRegistry.rootQuestion, s.registry.nextToken⟩

/-- The counters behind one call that found its ID at once. -/
def counted (s : InflightSystem) : InflightRegistry :=
  { s.registry with nextId := s.registry.nextId + 1, nextToken := s.registry.nextToken + 1 }

/-- The state behind `openCall`. -/
def opened (s : InflightSystem) : InflightSystem :=
  { s with
    registry := s.counted.insert s.nextGuard.id s.nextEntry,
    calls := s.calls ++ [⟨7, InflightRegistry.rootQuestion, .guarded s.nextGuard⟩],
    tokenOrder := s.tokenOrder ++ [s.calls.length] }

theorem Idle.run_openCall (h : Idle s) : run step s (openCall s.calls.length) = some s.opened := by
  have hget : ∀ c : RegisterCall, (s.calls ++ [c])[s.calls.length]? = some c := fun c => by simp
  have hset : ∀ c d : RegisterCall, (s.calls ++ [c]).set s.calls.length d = s.calls ++ [d] :=
    fun c d => by simp
  have hfree : s.registry.tryAcquire = some s.registry := by
    rw [InflightRegistry.tryAcquire, h.cap]
  have hvacant : ∀ id, s.registry.get id = none := fun id => by
    rw [InflightRegistry.get, h.shards]
    exact Sharded.get_empty
  simp only [openCall, run, step, registerStep, hfree, Option.bind_some, hget, proceedStep,
    InflightSystem.setPhase, fetchToken, fetchId, hset, idAttempts, withRegistry]
  have hvacant' : s.counted.get (mix16 s.registry.nextId) = none := hvacant _
  rw [counted] at hvacant'
  simp only [hvacant']
  rfl

theorem shards_remove_insert (h : r.shards = fun _ => ∅) (id : UInt16) (entry : InflightEntry) :
    ((r.insert id entry).remove id).shards = fun _ => ∅ := by
  simp only [InflightRegistry.remove, InflightRegistry.insert, h]
  exact Sharded.remove_insert_empty

/-- A call that is opened and dropped at once. -/
def cycle (k : Nat) : List InflightEvent := openCall k ++ [.dropGuard k, .releasePermit k]

/-- An idle registry after `n` calls: the counters have moved on, the calls are on record. -/
structure Spent (s : InflightSystem) (n : Nat) (s' : InflightSystem) : Prop where
  idle : Idle s'
  nextId : s'.registry.nextId = s.registry.nextId + UInt32.ofNat n
  nextToken : s'.registry.nextToken = s.registry.nextToken + UInt64.ofNat n
  calls : ∃ cs, s'.calls = s.calls ++ cs ∧ cs.length = n

theorem drop_nextGuard (s : InflightSystem) :
    s.nextGuard.drop s.opened.registry = s.opened.registry.remove s.nextGuard.id := by
  have hget : s.opened.registry.get s.nextGuard.id = some s.nextEntry := Sharded.get_insert
  rw [InflightGuard.drop, hget]
  exact if_pos rfl

theorem Idle.run_cycle (h : Idle s) :
    ∃ s', run step s (cycle s.calls.length) = some s' ∧ Spent s 1 s' := by
  let closed (phase : RegisterPhase) (r : InflightRegistry) : InflightSystem :=
    { s.opened with
      registry := r,
      calls := s.calls ++ [⟨7, InflightRegistry.rootQuestion, phase⟩] }
  have hget : ∀ c : RegisterCall, (s.calls ++ [c])[s.calls.length]? = some c := fun c => by simp
  have hset : ∀ c d : RegisterCall, (s.calls ++ [c]).set s.calls.length d = s.calls ++ [d] :=
    fun c d => by simp
  let removed := s.opened.registry.remove s.nextGuard.id
  have hdrop : s.opened.step (.dropGuard s.calls.length) = some (closed (.dropping s.nextGuard) removed) := by
    simp only [step, opened, hget, Option.bind_some, InflightSystem.setPhase, hset, withRegistry]
    have hremove := drop_nextGuard s
    simp only [opened] at hremove
    rw [hremove]
    rfl
  have hrelease : (closed (.dropping s.nextGuard) removed).step (.releasePermit s.calls.length) =
      some (closed (.dropped s.nextGuard) removed.release) := by
    simp only [closed, step, hget, Option.bind_some, InflightSystem.setPhase, hset, withRegistry]
  refine ⟨closed (.dropped s.nextGuard) removed.release, ?_, ⟨⟨?_, ?_⟩, rfl, rfl, _, rfl, rfl⟩⟩
  · rw [cycle, run_append, h.run_openCall, Option.bind_some, run, hdrop, Option.bind_some, run, hrelease]
    rfl
  · exact shards_remove_insert (r := s.counted) h.shards _ _
  · simp only [closed, InflightRegistry.release]
    have hcap : removed.cap = none := h.cap
    rw [hcap]
    rfl

/-- `n` calls in a row, the first of them with number `k`. -/
def cycles (k : Nat) : Nat → List InflightEvent
  | 0 => []
  | n + 1 => cycle k ++ cycles (k + 1) n

theorem Idle.run_cycles (h : Idle s) (n : Nat) :
    ∃ s', run step s (cycles s.calls.length n) = some s' ∧ Spent s n s' := by
  induction n generalizing s with
  | zero => exact ⟨s, rfl, h, by simp, by simp, [], by simp⟩
  | succ n ih =>
    obtain ⟨s1, hrun1, hs1⟩ := h.run_cycle
    obtain ⟨cs1, hcs1, hlen1⟩ := hs1.calls
    obtain ⟨s2, hrun2, hs2⟩ := ih hs1.idle
    obtain ⟨cs2, hcs2, hlen2⟩ := hs2.calls
    have hnumber : s1.calls.length = s.calls.length + 1 := by rw [hcs1, List.length_append, hlen1]
    refine ⟨s2, ?_, hs2.idle, ?_, ?_, cs1 ++ cs2, ?_, ?_⟩
    · rw [cycles, run_append, hrun1, Option.bind_some, ← hnumber]
      exact hrun2
    · rw [hs2.nextId, hs1.nextId, Nat.add_comm n 1, UInt32.ofNat_add, UInt32.add_assoc]
    · rw [hs2.nextToken, hs1.nextToken, Nat.add_comm n 1, UInt64.ofNat_add, UInt64.add_assoc]
    · rw [hcs2, hcs1, List.append_assoc]
    · rw [List.length_append, hlen1, hlen2, Nat.add_comm]

/-- A call that is opened, and whose entry a response takes out while its guard is kept. -/
def answeredCall : List InflightEvent := openCall 0 ++ [.complete InflightRegistry.rootReply]

theorem answers_rootReply :
    InflightRegistry.Answers InflightRegistry.rootReply InflightRegistry.rootQuestion where
  reply := by decide
  opcode := by decide
  oneQuestion := by decide
  same := questionsMatch_iff.mp (by decide +kernel)

theorem run_answeredCall : ∃ s, run step (start 0 0) answeredCall = some s ∧ Idle s ∧
    s.registry.nextId = 1 ∧ s.registry.nextToken = 1 ∧
    s.calls = [⟨7, InflightRegistry.rootQuestion, .guarded ⟨1, 0⟩⟩] := by
  have hidle : Idle (start 0 0) := ⟨rfl, rfl⟩
  have hid : InflightRegistry.packetId InflightRegistry.rootReply = (start 0 0).nextGuard.id := by decide
  have hget : (start 0 0).opened.registry.get (InflightRegistry.packetId InflightRegistry.rootReply) =
      some (start 0 0).nextEntry := hid ▸ Sharded.get_insert
  have hdone := InflightRegistry.complete_of_answers hget answers_rootReply
  refine ⟨(start 0 0).opened.completeStep InflightRegistry.rootReply, ?_, ⟨?_, ?_⟩, ?_, ?_, ?_⟩
  · have hopen : run step (start 0 0) (openCall 0) = some (start 0 0).opened := hidle.run_openCall
    rw [answeredCall, run_append, hopen]
    rfl
  · rw [completeStep, hdone, hid]
    exact shards_remove_insert (r := (start 0 0).counted) rfl _ _
  all_goals
    rw [completeStep, hdone]
    rfl

/-- After 2^64 calls the tokens and the IDs come round again, and a guard that was kept all the time
removes the entry of the call that got its token anew. -/
theorem kept_guard_removes_other_entry :
    ∃ es s s', run step (start 0 0) es = some s ∧ s.step (.dropGuard 0) = some s' ∧
      s.Live (2 ^ 64) 1 ∧ ¬ s'.Live (2 ^ 64) 1 := by
  obtain ⟨s1, hrun1, hidle, hid, htoken, hcalls⟩ := run_answeredCall
  obtain ⟨s2, hrun2, hspent⟩ := hidle.run_cycles (2 ^ 64 - 1)
  obtain ⟨cs, hcs, hlen⟩ := hspent.calls
  have hnumber : s2.calls.length = 2 ^ 64 := by
    rw [hcs, List.length_append, hlen, hcalls]
    rfl
  have hguard : s2.nextGuard = ⟨1, 0⟩ := by
    rw [nextGuard, hspent.nextId, hspent.nextToken, hid, htoken]
    decide
  have hfirst : s2.opened.calls[0]? = some ⟨7, InflightRegistry.rootQuestion, .guarded ⟨1, 0⟩⟩ := by
    rw [opened, hcs, hcalls]
    rfl
  have hrun : run step (start 0 0) (answeredCall ++ cycles s1.calls.length (2 ^ 64 - 1) ++
      openCall s2.calls.length) = some s2.opened := by
    rw [run_append, run_append, hrun1, Option.bind_some, hrun2, Option.bind_some,
      hspent.idle.run_openCall]
  have hdrop : s2.opened.step (.dropGuard 0) = some ((s2.opened.withRegistry
      ((⟨1, 0⟩ : InflightGuard).drop s2.opened.registry)).setPhase 0
        ⟨7, InflightRegistry.rootQuestion, .guarded ⟨1, 0⟩⟩ (.dropping ⟨1, 0⟩)) := by
    rw [step, hfirst]
    rfl
  refine ⟨_, s2.opened, _, hrun, hdrop, ?_, ?_⟩
  · have hget : s2.opened.registry.get s2.nextGuard.id = some s2.nextEntry :=
      Sharded.get_insert
    rw [hguard] at hget
    have hlive := live_of_get hget
    rw [nextEntry, hnumber] at hlive
    exact hlive
  · intro hlive
    obtain ⟨entry, hget, -⟩ := ((run_invariant hrun).step hdrop).get_of_live hlive
    have hremove := drop_nextGuard s2
    rw [hguard] at hremove
    have hnone : (s2.opened.registry.remove 1).get 1 = none := Sharded.get_remove
    rw [← hremove] at hnone
    exact absurd (hnone.symm.trans hget) (by simp)

end InflightSystem

end PathDns
