import PathDns.Upstream.InflightRuns
import PathDns.Upstream.RefreshRuns

/-!
# The TCP multiplexer (`upstream/tcp_mux.rs`)

Exchanges share one connection at a time. A connection is known by its number among all that were made,
its generation is one more. An exchange has the number of its `register` call. A step is what a task does
between two awaits while it holds one lock, or one operation on an atomic.

Teardowns are tasks of their own: a reader or writer that failed runs `disconnect`, a forced reconnect
runs its own body. Both wipe the table of waiting queries, and the forced one also the sender and the
teardown signal, without looking at the generation again. So a later connection is spared as long as none
is made before the teardown is through (`run_teardown_spares`).
-/

namespace PathDns

open Bytes Runs

/-- The bound on frames queued to a connection. -/
def WRITE_QUEUE_CAP : Nat := 1024

/-- A reader or writer task. -/
inductive LinkTask where
  /-- it is not spawned yet -/
  | unborn
  | running
  /-- it failed and runs the teardown with this number -/
  | failing (teardown : Nat)
  | ended
deriving DecidableEq, Repr

/-- A connection: the generation its tasks were given, the queued frames by the numbers of their
exchanges, its tasks, and how often its teardown signal was given. -/
structure MuxLink where
  gen : UInt64
  queue : List Nat
  reader : LinkTask
  writer : LinkTask
  signals : Nat
deriving DecidableEq, Repr

/-- Where an exchange is. -/
inductive MuxPhase where
  | registering
  /-- it waits for the lock of the sender -/
  | locking
  /-- it holds the lock and connects -/
  | connecting
  /-- it holds the lock and has installed the sender of this connection -/
  | installing (link : Nat)
  /-- it waits for a place in the queue -/
  | sending (link : Nat)
  | waiting
  | ended
deriving DecidableEq, Repr

/-- An exchange and the connection its frame was queued to. -/
structure MuxExchange where
  phase : MuxPhase
  queuedTo : Option Nat
deriving DecidableEq, Repr

/-- Who tears down what: a task of a connection, or a forced reconnect that started when this many
connections had been made. -/
inductive TeardownKind where
  | disconnect (link : Nat)
  | forced (made : Nat)
deriving DecidableEq, Repr

inductive TeardownPhase where
  /-- `try_begin` has found the cooldown over -/
  | checked (now : Nat)
  | claimed (now : Nat)
  /-- it waits for the lock of the sender -/
  | locking
  /-- `pending.clear()` has cleared the shards below this one -/
  | clearing (shard : Nat)
  | signalling (link : Option Nat)
  | finishing
  | done
deriving DecidableEq, Repr

structure Teardown where
  kind : TeardownKind
  phase : TeardownPhase
deriving DecidableEq, Repr

/-- The generation that is torn down. -/
def Teardown.generation (d : Teardown) : Nat :=
  match d.kind with
  | .disconnect link => link + 1
  | .forced made => made

/-- `TcpMux` with its tasks; `writerLock` is the exchange that holds the lock of the sender across an
await. -/
structure MuxSystem where
  pending : InflightSystem
  exchanges : List MuxExchange
  writerTx : Option Nat
  writerLock : Option Nat
  generation : UInt64
  reconnectNotBeforeMs : Nat
  reconnectFailCount : UInt32
  currentTornDown : Option Nat
  refreshGuard : RefreshGuard
  links : List MuxLink
  teardowns : List Teardown

inductive ExchangeEvent where
  /-- `prepare_query` and the check of the length -/
  | prepare (ok : Bool)
  | lock (now : Nat)
  | connected
  | connectFailed (now : Nat)
  | install
  | send
  /-- an await ends the exchange: with a response, a closed channel, a timeout or its cancellation -/
  | finish
deriving DecidableEq, Repr

inductive LinkEvent where
  | receive (packet : Packet)
  | readerFail
  | readerQuit
  /-- the writer takes a batch of frames out of its queue and writes it -/
  | write (count : Nat) (ok : Bool)
  | writerQuit
  | readerReturn
  | writerReturn
deriving DecidableEq, Repr

inductive MuxEvent where
  | register (clientId : UInt16) (question : List UInt8)
  | proceed (exchange : Nat)
  | exchange (exchange : Nat) (e : ExchangeEvent)
  | dropGuard (exchange : Nat)
  | releasePermit (exchange : Nat)
  | deliver (delivery : Nat)
  | link (link : Nat) (e : LinkEvent)
  /-- `force_reconnect` is called -/
  | force (now : Nat)
  | teardown (teardown : Nat)
deriving DecidableEq, Repr

namespace MuxSystem

/-- `TcpMux::new`. -/
def start (maxInflight : Nat) (seed : UInt32) : MuxSystem where
  pending := .start maxInflight seed
  exchanges := []
  writerTx := none
  writerLock := none
  generation := 0
  reconnectNotBeforeMs := 0
  reconnectFailCount := 0
  currentTornDown := none
  refreshGuard := .fresh
  links := []
  teardowns := []

def setExchange (s : MuxSystem) (k : Nat) (x : MuxExchange) : MuxSystem :=
  { s with exchanges := s.exchanges.set k x }

def setLink (s : MuxSystem) (n : Nat) (link : MuxLink) : MuxSystem :=
  { s with links := s.links.set n link }

def setTeardown (s : MuxSystem) (t : Nat) (d : Teardown) (phase : TeardownPhase) : MuxSystem :=
  { s with teardowns := s.teardowns.set t { d with phase := phase } }

/-- A task fails and starts to run `disconnect`. -/
def startTeardown (s : MuxSystem) (kind : TeardownKind) (phase : TeardownPhase) : MuxSystem :=
  { s with teardowns := s.teardowns ++ [⟨kind, phase⟩] }

def withPending (s : MuxSystem) (pending : InflightSystem) : MuxSystem := { s with pending := pending }

/-- The wait after a failed attempt: `(50u64 << failures.min(7)).min(5000)`. -/
def backoffMs (failures : UInt32) : Nat := min (50 <<< min failures.toNat 7) 5000

/-- `ensure_connection` behind its lock, up to the connect. -/
def lockStep (s : MuxSystem) (k : Nat) (x : MuxExchange) (now : Nat) : MuxSystem :=
  match s.writerTx with
  | some n => s.setExchange k { x with phase := .sending n }
  | none =>
    if now < s.reconnectNotBeforeMs then s.setExchange k { x with phase := .ended }
    else { s with writerLock := some k }.setExchange k { x with phase := .connecting }

/-- The connection is made: the counter goes up and the sender is set. -/
def connectedStep (s : MuxSystem) (k : Nat) (x : MuxExchange) : MuxSystem :=
  { s with
    reconnectFailCount := 0,
    reconnectNotBeforeMs := 0,
    generation := s.generation + 1,
    writerTx := some s.links.length,
    links := s.links ++ [(⟨s.generation + 1, [], .unborn, .unborn, 0⟩ : MuxLink)]
  }.setExchange k { x with phase := .installing s.links.length }

def connectFailedStep (s : MuxSystem) (k : Nat) (x : MuxExchange) (now : Nat) : MuxSystem :=
  { s with
    reconnectFailCount := s.reconnectFailCount + 1,
    reconnectNotBeforeMs := now + backoffMs (s.reconnectFailCount + 1),
    writerLock := none }.setExchange k { x with phase := .ended }

/-- The teardown signal is set, the tasks are spawned and the lock is released. -/
def installStep (s : MuxSystem) (k : Nat) (x : MuxExchange) (n : Nat) (link : MuxLink) : MuxSystem :=
  ({ s with currentTornDown := some n, writerLock := none }.setLink n
    { link with reader := .running, writer := .running }).setExchange k { x with phase := .sending n }

/-- `tx.send(frame)`: it fails when the receiver is gone and waits when the queue is full. -/
def sendStep (s : MuxSystem) (k : Nat) (x : MuxExchange) (n : Nat) (link : MuxLink) : Option MuxSystem :=
  if link.writer = .ended then some (s.setExchange k { x with phase := .ended })
  else if link.queue.length < WRITE_QUEUE_CAP then
    some ((s.setLink n { link with queue := link.queue ++ [k] }).setExchange k
      { x with phase := .waiting, queuedTo := some n })
  else none

/-- A step of an exchange. -/
def exchangeStep (s : MuxSystem) (k : Nat) (x : MuxExchange) : ExchangeEvent → Option MuxSystem
  | .prepare ok =>
    match x.phase, (s.pending.calls[k]?).map RegisterCall.phase with
    | .registering, some (.guarded _) =>
      some (s.setExchange k { x with phase := if ok then .locking else .ended })
    | _, _ => none
  | .lock now =>
    if x.phase = .locking ∧ s.writerLock = none then some (s.lockStep k x now) else none
  | .connected => if x.phase = .connecting then some (s.connectedStep k x) else none
  | .connectFailed now => if x.phase = .connecting then some (s.connectFailedStep k x now) else none
  | .install =>
    match x.phase with
    | .installing n => (s.links[n]?).map (s.installStep k x n)
    | _ => none
  | .send =>
    match x.phase with
    | .sending n => (s.links[n]?).bind (s.sendStep k x n)
    | _ => none
  | .finish =>
    match x.phase with
    | .connecting => some ({ s with writerLock := none }.setExchange k { x with phase := .ended })
    | .locking | .sending _ | .waiting => some (s.setExchange k { x with phase := .ended })
    | _ => none

/-- No sender to the connection is left. -/
def senderless (s : MuxSystem) (n : Nat) : Bool :=
  s.writerTx ≠ some n ∧
    s.exchanges.all fun x => x.phase ≠ .sending n ∧ x.phase ≠ .installing n

/-- The teardown has returned. -/
def tornDown (s : MuxSystem) (t : Nat) : Bool := (s.teardowns[t]?).any (·.phase = .done)

/-- A step of a task of a connection. -/
def linkStep (s : MuxSystem) (n : Nat) (link : MuxLink) : LinkEvent → Option MuxSystem
  | .receive packet =>
    if link.reader = .running then (s.pending.step (.complete packet)).map s.withPending else none
  | .readerFail =>
    if link.reader = .running then
      some ((s.startTeardown (.disconnect n) .locking).setLink n
        { link with reader := .failing s.teardowns.length })
    else none
  | .readerQuit =>
    if link.reader = .running ∧ s.generation ≠ link.gen then
      some (s.setLink n { link with reader := .ended })
    else none
  | .write count ok =>
    if link.writer = .running ∧ s.generation = link.gen ∧ 0 < count ∧ count ≤ link.queue.length then
      let link := { link with queue := link.queue.drop count }
      if ok then some (s.setLink n link)
      else some ((s.startTeardown (.disconnect n) .locking).setLink n
        { link with writer := .failing s.teardowns.length })
    else none
  | .writerQuit =>
    if link.writer = .running ∧
        (if link.queue = [] then s.senderless n = true else s.generation ≠ link.gen) then
      some (s.setLink n { link with writer := .ended })
    else none
  | .readerReturn =>
    match link.reader with
    | .failing t => if s.tornDown t then some (s.setLink n { link with reader := .ended }) else none
    | _ => none
  | .writerReturn =>
    match link.writer with
    | .failing t => if s.tornDown t then some (s.setLink n { link with writer := .ended }) else none
    | _ => none

/-- The lock of the sender is acquired: `disconnect` looks at the generation first, a forced reconnect
does not. -/
def wipeSender (s : MuxSystem) (t : Nat) (d : Teardown) : Option MuxSystem :=
  let wiped := { s with writerTx := none }.setTeardown t d (.clearing 0)
  match d.kind with
  | .disconnect n => (s.links[n]?).map fun link =>
    if s.generation ≠ link.gen then s.setTeardown t d .done else wiped
  | .forced _ => some wiped

/-- `torn_down.notify_waiters()`. -/
def signal (s : MuxSystem) : Option Nat → MuxSystem
  | some n =>
    match s.links[n]? with
    | some link => s.setLink n { link with signals := link.signals + 1 }
    | none => s
  | none => s

/-- One turn of `pending.clear()`, or what follows it: `disconnect` signals its own connection, a forced
reconnect takes the current signal. -/
def clearStep (s : MuxSystem) (t : Nat) (d : Teardown) (shard : Nat) : MuxSystem :=
  if h : shard < SHARDS then
    (s.withPending (s.pending.withRegistry (s.pending.registry.clearShard ⟨shard, h⟩))).setTeardown t d
      (.clearing (shard + 1))
  else
    match d.kind with
    | .disconnect n => s.setTeardown t d (.signalling (some n))
    | .forced _ => { s with currentTornDown := none }.setTeardown t d (.signalling s.currentTornDown)

/-- A step of a teardown. -/
def teardownStep (s : MuxSystem) (t : Nat) (d : Teardown) : Option MuxSystem :=
  match d.phase with
  | .checked now =>
    match s.refreshGuard.claim with
    | some guard => some ({ s with refreshGuard := guard }.setTeardown t d (.claimed now))
    | none => some (s.setTeardown t d .done)
  | .claimed now =>
    some ({ s with refreshGuard := s.refreshGuard.coolDown now REFRESH_COOLDOWN_MS }.setTeardown t d
      .locking)
  | .locking => if s.writerLock = none then s.wipeSender t d else none
  | .clearing shard => some (s.clearStep t d shard)
  | .signalling link =>
    some ((s.signal link).setTeardown t d (match d.kind with
      | .disconnect _ => .done
      | .forced _ => .finishing))
  | .finishing => some ({ s with refreshGuard := s.refreshGuard.finish }.setTeardown t d .done)
  | .done => none

def step (s : MuxSystem) : MuxEvent → Option MuxSystem
  | .register clientId question =>
    (s.pending.step (.register clientId question)).map fun pending =>
      { s with pending := pending, exchanges := s.exchanges ++ [⟨.registering, none⟩] }
  | .proceed k => (s.pending.step (.proceed k)).map s.withPending
  | .exchange k e => (s.exchanges[k]?).bind (s.exchangeStep k · e)
  | .dropGuard k =>
    if (s.exchanges[k]?).any (·.phase = .ended) then
      (s.pending.step (.dropGuard k)).map s.withPending
    else none
  | .releasePermit k => (s.pending.step (.releasePermit k)).map s.withPending
  | .deliver n => (s.pending.step (.send n)).map s.withPending
  | .link n e => (s.links[n]?).bind (s.linkStep n · e)
  | .force now =>
    if s.refreshGuard.cooledDown now then
      some (s.startTeardown (.forced s.links.length) (.checked now))
    else some s
  | .teardown t => (s.teardowns[t]?).bind (s.teardownStep t)

/-! ### Nothing names a connection that was not made -/

/-- A teardown is of a generation that was reached, and signals none after it. -/
structure TeardownWithin (made : Nat) (d : Teardown) : Prop where
  reached : d.generation ≤ made
  signalling : ∀ n, d.phase = .signalling (some n) → n < d.generation

structure Bounded (s : MuxSystem) : Prop where
  count : s.links.length < 2 ^ 64
  generation : s.generation = UInt64.ofNat s.links.length
  gens : ∀ (n : Nat) (link : MuxLink), s.links[n]? = some link → link.gen = UInt64.ofNat (n + 1)
  sender : ∀ n, s.writerTx = some n → n < s.links.length
  signal : ∀ n, s.currentTornDown = some n → n < s.links.length
  queued : ∀ (k : Nat) (x : MuxExchange) (n : Nat), s.exchanges[k]? = some x → x.queuedTo = some n →
    n < s.links.length
  teardowns : ∀ (t : Nat) (d : Teardown), s.teardowns[t]? = some d → TeardownWithin s.links.length d

/-- A frame is queued to a connection that was made. -/
def Queueable (s : MuxSystem) (x : MuxExchange) : Prop :=
  ∀ n, x.queuedTo = some n → n < s.links.length

namespace Bounded

variable {s s' : MuxSystem} {x : MuxExchange} {link : MuxLink} {phase : TeardownPhase} {k n t : Nat} {d : Teardown}

theorem start (maxInflight : Nat) (seed : UInt32) : Bounded (start maxInflight seed) where
  count := by simp [MuxSystem.start]
  generation := rfl
  gens := by simp [MuxSystem.start]
  sender := by simp [MuxSystem.start]
  signal := by simp [MuxSystem.start]
  queued := by simp [MuxSystem.start]
  teardowns := by simp [MuxSystem.start]

theorem setExchange (h : Bounded s) (k : Nat) (hx : s.Queueable x) : Bounded (s.setExchange k x) := by
  refine { h with queued := ?_ }
  have hqueued := h.queued
  grind [MuxSystem.setExchange, Queueable]

theorem setLink (h : Bounded s) {link' : MuxLink} (hlink : s.links[n]? = some link)
    (hgen : link'.gen = link.gen) : Bounded (s.setLink n link') := by
  obtain ⟨hcount, hgeneration, hgens, hsender, hsignal, hqueued, hteardowns⟩ := h
  constructor <;> grind [MuxSystem.setLink]

theorem setTeardown (h : Bounded s) (ht : s.teardowns[t]? = some d)
    (hphase : ∀ n, phase = .signalling (some n) → n < d.generation) : Bounded (s.setTeardown t d phase) := by
  refine { h with teardowns := ?_ }
  intro j e he
  rcases Slots.of_getElem?_set he with ⟨-, rfl⟩ | ⟨-, he⟩
  · exact ⟨(h.teardowns t d ht).reached, hphase⟩
  · exact h.teardowns j e he

theorem startTeardown (h : Bounded s) {kind : TeardownKind} (hd : TeardownWithin s.links.length ⟨kind, phase⟩) :
    Bounded (s.startTeardown kind phase) := by
  refine { h with teardowns := ?_ }
  have hteardowns := h.teardowns
  grind [MuxSystem.startTeardown]

theorem withPending (h : Bounded s) (pending : InflightSystem) : Bounded (s.withPending pending) :=
  { h with }

theorem connectedStep (h : Bounded s) (hx : s.exchanges[k]? = some x) (hcount : s.links.length + 1 < 2 ^ 64) :
    Bounded (s.connectedStep k x) := by
  have hgen : s.generation + 1 = UInt64.ofNat (s.links.length + 1) := by
    rw [h.generation, UInt64.ofNat_add]
    rfl
  have hlen : (s.connectedStep k x).links.length = s.links.length + 1 := by
    simp [MuxSystem.connectedStep, MuxSystem.setExchange]
  obtain ⟨-, -, hgens, hsender, hsignal, hqueued, hteardowns⟩ := h
  constructor
  · omega
  · rw [hlen]
    exact hgen
  all_goals grind [MuxSystem.connectedStep, MuxSystem.setExchange, TeardownWithin]

theorem exchangeStep (h : Bounded s) (hx : s.exchanges[k]? = some x) {e : ExchangeEvent}
    (hcount : e = .connected → s.links.length + 1 < 2 ^ 64) (hstep : s.exchangeStep k x e = some s') :
    Bounded s' := by
  have hq : s.Queueable x := fun n => h.queued k x n hx
  have hsame : ∀ {s' phase}, Bounded s' → s'.links = s.links →
      Bounded (s'.setExchange k { x with phase := phase }) :=
    fun h' hlinks => h'.setExchange k (by rw [Queueable, hlinks]; exact hq)
  revert hstep
  fun_cases MuxSystem.exchangeStep s k x e <;> intro hstep
  case case9 =>
    obtain ⟨link, hlink, rfl⟩ := Option.map_eq_some_iff.mp hstep
    obtain ⟨hcount, hgeneration, hgens, hsender, hsignal, hqueued, hteardowns⟩ := h
    constructor <;> grind [installStep, MuxSystem.setExchange, MuxSystem.setLink]
  case case11 =>
    obtain ⟨link, hlink, hstep⟩ := Option.bind_eq_some_iff.mp hstep
    obtain ⟨hcount, hgeneration, hgens, hsender, hsignal, hqueued, hteardowns⟩ := h
    constructor <;> grind [sendStep, MuxSystem.setExchange, MuxSystem.setLink]
  all_goals cases hstep
  case case3 now _ =>
    fun_cases lockStep s k x now
    case case3 => exact hsame { h with } rfl
    all_goals exact hsame h rfl
  case case5 => exact h.connectedStep hx (hcount rfl)
  case case7 | case13 => exact hsame { h with } rfl
  all_goals exact hsame h rfl

theorem taskFails (h : Bounded s) {link' : MuxLink} (hlink : s.links[n]? = some link)
    (hgen : link'.gen = link.gen) : Bounded ((s.startTeardown (.disconnect n) .locking).setLink n link') := by
  have hstart : Bounded (s.startTeardown (.disconnect n) .locking) :=
    h.startTeardown ⟨Slots.lt_length hlink, by simp⟩
  exact hstart.setLink hlink hgen

theorem linkStep (h : Bounded s) (hlink : s.links[n]? = some link) {e : LinkEvent}
    (hstep : s.linkStep n link e = some s') : Bounded s' := by
  revert hstep
  fun_cases MuxSystem.linkStep s n link e <;> intro hstep
  case case1 =>
    obtain ⟨pending, -, rfl⟩ := Option.map_eq_some_iff.mp hstep
    exact h.withPending pending
  all_goals cases hstep
  case case3 | case8 => exact h.taskFails hlink rfl
  all_goals exact h.setLink hlink rfl

theorem signalStep (h : Bounded s) (o : Option Nat) : Bounded (s.signal o) := by
  cases o with
  | none => exact h
  | some n =>
    rw [MuxSystem.signal]
    split
    · next hlink => exact h.setLink hlink rfl
    · exact h

theorem teardowns_signal (s : MuxSystem) (o : Option Nat) : (s.signal o).teardowns = s.teardowns := by
  cases o with
  | none => rfl
  | some n =>
    rw [MuxSystem.signal]
    split <;> rfl

theorem advance (h : Bounded s) (ht : s.teardowns[t]? = some d) (hphase : ∀ n, phase ≠ .signalling (some n)) :
    Bounded (s.setTeardown t d phase) :=
  h.setTeardown ht fun n hn => absurd hn (hphase n)

theorem advanceGuard (h : Bounded s) (ht : s.teardowns[t]? = some d) (guard : RefreshGuard)
    (hphase : ∀ n, phase ≠ .signalling (some n)) :
    Bounded ({ s with refreshGuard := guard }.setTeardown t d phase) :=
  advance { h with } ht hphase

end Bounded

/-- A connection is made while the counter cannot wrap. A teardown clears the table, and a forced one also
takes sender and signal, while no connection was made since the generation it tears down. -/
def Timely (s : MuxSystem) : MuxEvent → Prop
  | .exchange _ .connected => s.links.length + 1 < 2 ^ 64
  | .teardown t => ∀ d, s.teardowns[t]? = some d →
    match d.kind, d.phase with
    | .disconnect _, .clearing shard => shard < SHARDS → s.links.length = d.generation
    | .forced _, .locking | .forced _, .clearing _ => s.links.length = d.generation
    | _, _ => True
  | _ => True

namespace Bounded

variable {s s' : MuxSystem} {d : Teardown} {t : Nat}

theorem clearStep (h : Bounded s) (ht : s.teardowns[t]? = some d) {shard : Nat}
    (hphase : d.phase = .clearing shard) (htimely : Timely s (.teardown t)) :
    Bounded (s.clearStep t d shard) := by
  have hd := htimely d ht
  rw [MuxSystem.clearStep]
  split
  · exact (h.withPending _).advance ht (by simp)
  · split
    · next n hkind =>
      apply h.setTeardown ht
      grind [Teardown.generation]
    · next made hkind =>
      simp only [hkind, hphase] at hd
      have hsignal := h.signal
      apply Bounded.setTeardown
      · exact { h with signal := by simp }
      · exact ht
      · grind

theorem wipeSender (h : Bounded s) (ht : s.teardowns[t]? = some d) (hstep : s.wipeSender t d = some s') :
    Bounded s' := by
  have hwiped : Bounded ({ s with writerTx := none }.setTeardown t d (.clearing 0)) :=
    advance { h with sender := by simp } ht (by simp)
  revert hstep
  fun_cases MuxSystem.wipeSender s t d <;> intro hstep
  case case1 =>
    obtain ⟨link, -, rfl⟩ := Option.map_eq_some_iff.mp hstep
    split_ifs
    · exact h.advance ht (by simp)
    · exact hwiped
  case case2 => exact Option.some.inj hstep ▸ hwiped

theorem teardownStep (h : Bounded s) (ht : s.teardowns[t]? = some d)
    (htimely : Timely s (.teardown t)) (hstep : s.teardownStep t d = some s') : Bounded s' := by
  revert hstep
  fun_cases MuxSystem.teardownStep s t d <;> intro hstep
  case case4 => exact h.wipeSender ht hstep
  all_goals cases hstep
  case case1 | case3 | case8 => exact h.advanceGuard ht _ (by simp)
  case case2 => exact h.advance ht (by simp)
  case case6 hphase => exact h.clearStep ht hphase htimely
  case case7 =>
    refine (h.signalStep _).advance ?_ (by split <;> simp)
    rw [teardowns_signal]
    exact ht

/-- What one step keeps. -/
theorem step (h : Bounded s) {e : MuxEvent} (htimely : Timely s e) (hstep : s.step e = some s') :
    Bounded s' := by
  revert hstep
  fun_cases MuxSystem.step s e <;> intro hstep
  case case1 =>
    obtain ⟨pending, -, rfl⟩ := Option.map_eq_some_iff.mp hstep
    refine { h with queued := ?_ }
    have hqueued := h.queued
    grind
  case case2 | case4 | case6 | case7 =>
    obtain ⟨pending, -, rfl⟩ := Option.map_eq_some_iff.mp hstep
    exact h.withPending pending
  case case3 =>
    obtain ⟨x, hx, hstep⟩ := Option.bind_eq_some_iff.mp hstep
    exact h.exchangeStep hx (fun he => by subst he; exact htimely) hstep
  case case8 =>
    obtain ⟨link, hlink, hstep⟩ := Option.bind_eq_some_iff.mp hstep
    exact h.linkStep hlink hstep
  case case11 =>
    obtain ⟨d, hd, hstep⟩ := Option.bind_eq_some_iff.mp hstep
    exact h.teardownStep hd htimely hstep
  all_goals cases hstep
  case case9 => exact h.startTeardown ⟨Nat.le_refl _, by simp⟩
  case case10 => exact h

end Bounded

/-! ### What a teardown spares -/

/-- The sender, the waiting queries and the signal of every connection of a generation after `g` are left
alone; connection `n` has generation `n + 1`. -/
structure Spares (g : Nat) (s s' : MuxSystem) : Prop where
  sender : ∀ n, g < n + 1 → s.writerTx = some n → s'.writerTx = some n
  entries : ∀ (id : UInt16) (entry : InflightEntry) (x : MuxExchange) (n : Nat), g < n + 1 →
    s.pending.registry.get id = some entry → s.exchanges[entry.tx]? = some x → x.queuedTo = some n →
    s'.pending.registry.get id = some entry
  signals : ∀ (n : Nat) (link : MuxLink), g < n + 1 → s.links[n]? = some link →
    s'.links[n]? = some link

theorem Spares.of_same {g : Nat} {s s' : MuxSystem} (hsender : s'.writerTx = s.writerTx)
    (hpending : s'.pending = s.pending) (hlinks : s'.links = s.links) : Spares g s s' where
  sender _ _ h := hsender ▸ h
  entries _ _ _ _ _ h _ _ := hpending ▸ h
  signals _ _ _ h := hlinks ▸ h

namespace Bounded

variable {s s' : MuxSystem} {t : Nat} {d : Teardown}

theorem spares_of_current (h : Bounded s) {g : Nat} (hg : s.links.length = g)
    (hlinks : s'.links = s.links) : Spares g s s' where
  sender n hn hs := by
    have := h.sender n hs
    omega
  entries id entry x n hn _ hx hq := by
    have := h.queued entry.tx x n hx hq
    omega
  signals n link _ hl := hlinks ▸ hl

theorem current_of_gen (h : Bounded s) {n : Nat} {link : MuxLink} (hlink : s.links[n]? = some link)
    (hgen : s.generation = link.gen) : s.links.length = n + 1 := by
  rw [h.generation, h.gens n link hlink] at hgen
  have hn : n + 1 < 2 ^ 64 := Nat.lt_of_le_of_lt (Slots.lt_length hlink) h.count
  have hnat := congrArg UInt64.toNat hgen
  rwa [UInt64.toNat_ofNat_of_lt' h.count, UInt64.toNat_ofNat_of_lt' hn] at hnat

theorem spares_wipeSender (h : Bounded s) (ht : s.teardowns[t]? = some d) (hphase : d.phase = .locking)
    (htimely : Timely s (.teardown t)) (hstep : s.wipeSender t d = some s') :
    Spares d.generation s s' := by
  have hd := htimely d ht
  rw [MuxSystem.wipeSender] at hstep
  split at hstep
  · next n hkind =>
    obtain ⟨link, hlink, rfl⟩ := Option.map_eq_some_iff.mp hstep
    have hg : d.generation = n + 1 := by simp [Teardown.generation, hkind]
    split_ifs with hgen
    · exact .of_same rfl rfl rfl
    · rw [hg]
      exact h.spares_of_current (h.current_of_gen hlink (not_not.mp hgen)) rfl
  · next made hkind =>
    obtain rfl := Option.some.inj hstep
    simp only [hkind, hphase] at hd
    exact h.spares_of_current hd rfl

theorem spares_clearStep (h : Bounded s) (ht : s.teardowns[t]? = some d) {shard : Nat}
    (hphase : d.phase = .clearing shard) (htimely : Timely s (.teardown t)) :
    Spares d.generation s (s.clearStep t d shard) := by
  have hd := htimely d ht
  rw [MuxSystem.clearStep]
  split
  · next hshard =>
    have hg : s.links.length = d.generation := by
      cases hkind : d.kind with
      | disconnect n =>
        simp only [hkind, hphase] at hd
        exact hd hshard
      | forced made =>
        simp only [hkind, hphase] at hd
        exact hd
    exact h.spares_of_current hg rfl
  · split
    · exact .of_same rfl rfl rfl
    · exact .of_same rfl rfl rfl

theorem spares_signal (h : Bounded s) (ht : s.teardowns[t]? = some d) {o : Option Nat}
    (hphase : d.phase = .signalling o) (phase : TeardownPhase) :
    Spares d.generation s ((s.signal o).setTeardown t d phase) := by
  cases o with
  | none => exact .of_same rfl rfl rfl
  | some m =>
    have hm := (h.teardowns t d ht).signalling m hphase
    rw [MuxSystem.signal]
    split
    · next l hl =>
      refine ⟨fun n _ hs => hs, fun _ _ _ _ _ he _ _ => he, ?_⟩
      intro n link hn hlink
      have hne : m ≠ n := by omega
      show (s.links.set m _)[n]? = some link
      rw [List.getElem?_set_ne hne]
      exact hlink
    · exact .of_same rfl rfl rfl

/-- A timely step of a teardown spares every later connection. -/
theorem spares (h : Bounded s) (ht : s.teardowns[t]? = some d) (htimely : Timely s (.teardown t))
    (hstep : s.step (.teardown t) = some s') : Spares d.generation s s' := by
  rw [MuxSystem.step, ht, Option.bind_some] at hstep
  revert hstep
  fun_cases MuxSystem.teardownStep s t d <;> intro hstep
  case case4 hphase _ => exact h.spares_wipeSender ht hphase htimely hstep
  all_goals cases hstep
  case case6 hphase => exact h.spares_clearStep ht hphase htimely
  case case7 hphase => exact h.spares_signal ht hphase _
  all_goals exact .of_same rfl rfl rfl

end Bounded

/-- In every run of timely steps, a teardown spares the connections after the one it tears down, step for
step. -/
theorem run_teardown_spares (maxInflight : Nat) (seed : UInt32) {es : List MuxEvent} {s s' : MuxSystem}
    {t : Nat} {d : Teardown} (hmeets : Meets step Timely (start maxInflight seed) es)
    (hrun : run step (start maxInflight seed) es = some s) (ht : s.teardowns[t]? = some d)
    (htimely : Timely s (.teardown t)) (hstep : s.step (.teardown t) = some s') :
    Spares d.generation s s' := by
  have hbounded : Bounded s :=
    run_invariant (fun _ _ _ h hc hs => h.step hc hs) (.start maxInflight seed) hmeets hrun
  exact hbounded.spares ht htimely hstep

/-- Exchange `k` registers and gets ready to send. -/
def readyRun (k : Nat) : List MuxEvent :=
  [.register 0 [], .proceed k, .proceed k, .proceed k, .exchange k (.prepare true), .exchange k (.lock 0)]

/-- Exchange `k` makes a connection and queues its frame to it. -/
def connectRun (k : Nat) : List MuxEvent :=
  readyRun k ++ [.exchange k .connected, .exchange k .install, .exchange k .send]

/-- The reader of the first connection fails; its teardown has wiped the sender when a second connection
is made. -/
def disconnectRace : List MuxEvent :=
  connectRun 0 ++ [.link 0 .readerFail, .teardown 0] ++ connectRun 1

/-- A forced reconnect starts in the first generation and waits; the reader fails meanwhile and a second
connection is made. -/
def forcedRace : List MuxEvent :=
  connectRun 0 ++ [.force 0, .teardown 0, .teardown 0, .link 0 .readerFail, .teardown 1] ++ connectRun 1

instance (s : MuxSystem) (e : MuxEvent) : Decidable (Timely s e) :=
  match e with
  | .exchange _ .connected => inferInstanceAs (Decidable (_ < _))
  | .teardown t =>
    match h : s.teardowns[t]? with
    | none => .isTrue (by simp [Timely, h])
    | some ⟨.disconnect n, .clearing shard⟩ =>
      decidable_of_iff (shard < SHARDS → s.links.length = n + 1) (by
        simp [Timely, h, Teardown.generation])
    | some ⟨.forced made, .locking⟩ =>
      decidable_of_iff (s.links.length = made) (by simp [Timely, h, Teardown.generation])
    | some ⟨.forced made, .clearing shard⟩ =>
      decidable_of_iff (s.links.length = made) (by simp [Timely, h, Teardown.generation])
    | some ⟨.disconnect _, .checked _⟩ | some ⟨.disconnect _, .claimed _⟩ | some ⟨.disconnect _, .locking⟩
    | some ⟨.disconnect _, .signalling _⟩ | some ⟨.disconnect _, .finishing⟩
    | some ⟨.disconnect _, .done⟩ | some ⟨.forced _, .checked _⟩ | some ⟨.forced _, .claimed _⟩
    | some ⟨.forced _, .signalling _⟩ | some ⟨.forced _, .finishing⟩ | some ⟨.forced _, .done⟩ =>
      .isTrue (by simp [Timely, h])
  | .register .. | .proceed _ | .dropGuard _ | .releasePermit _ | .deliver _ | .link .. | .force _
  | .exchange _ (.prepare _) | .exchange _ (.lock _) | .exchange _ (.connectFailed _)
  | .exchange _ .install | .exchange _ .send | .exchange _ .finish => .isTrue trivial

/-- Reader and writer of the first connection fail, the reader's teardown runs to its end, and a second
connection is made before the writer's teardown has the lock. -/
def staleDisconnect : List MuxEvent :=
  connectRun 0 ++ [.link 0 .readerFail, .link 0 (.write 1 false)] ++ List.replicate 67 (.teardown 0) ++
    connectRun 1

theorem run_teardown_spares_staleDisconnect :
    ∃ s s', run step (start 0 97) staleDisconnect = some s ∧ s.step (.teardown 1) = some s' ∧
      s.writerTx = some 1 ∧ s'.writerTx = some 1 := by
  have hmeets : Meets step Timely (start 0 97) staleDisconnect :=
    (meets_of_computed (C := fun s e => decide (Timely s e)) (by decide +kernel)).mono
      fun _ _ => of_decide_eq_true
  obtain ⟨s, hrun, hs⟩ := (Option.any_eq_true _ _).mp (show (run step (start 0 97) staleDisconnect).any
    (fun s => (s.step (.teardown 1)).isSome && decide (s.writerTx = some 1 ∧
      s.teardowns[1]? = some ⟨.disconnect 0, .locking⟩ ∧ Timely s (.teardown 1))) = true by decide +kernel)
  rw [Bool.and_eq_true, decide_eq_true_eq] at hs
  obtain ⟨hsome, hsender, ht, htimely⟩ := hs
  obtain ⟨s', hstep⟩ := Option.isSome_iff_exists.mp hsome
  have hspares := run_teardown_spares 0 97 hmeets hrun ht htimely hstep
  exact ⟨s, s', hrun, hstep, hsender, hspares.sender 1 (by decide) hsender⟩

/-- Teardowns of the first generation that drop the waiting query of the second connection, remove its
sender, and signal its tasks. -/
theorem teardown_hits_later_connection :
    (run step (start 0 97) disconnectRace).any (fun s => (s.step (.teardown 0)).any fun s' =>
      decide ((s.teardowns[0]?).map Teardown.generation = some 1 ∧
        s.pending.registry.get 24384 = some ⟨1, 0, [], 1⟩ ∧
        (s.exchanges[1]?).map MuxExchange.queuedTo = some (some 1) ∧
        s'.pending.registry.get 24384 = none)) ∧
    (run step (start 0 97) forcedRace).any (fun s => (s.step (.teardown 0)).any fun s' =>
      decide ((s.teardowns[0]?).map Teardown.generation = some 1 ∧ s.writerTx = some 1 ∧
        s'.writerTx = none)) ∧
    (run step (start 0 97) (forcedRace ++ List.replicate 66 (.teardown 0))).any (fun s =>
      (s.step (.teardown 0)).any fun s' =>
        decide ((s.teardowns[0]?).map Teardown.generation = some 1 ∧
          (s.links[1]?).map MuxLink.signals = some 0 ∧ (s'.links[1]?).map MuxLink.signals = some 1)) := by
  decide +kernel

end MuxSystem

end PathDns
