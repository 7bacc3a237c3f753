import PathDns.Upstream.TcpMux

/-!
# The reader of a connection and its teardown signal

`mux_reader_loop` checks the generation, looks through the shards of the table and, when they are all
empty, waits for the next byte without a timeout, raced only against the teardown signal. The steps of the
reader are put into the runs of the multiplexer (`MuxReaders`); every such run is one of the multiplexer
(`run_mux`).

A signal wakes the waits that exist. Between the generation check and the creation of the wait nothing
keeps a teardown from coming to its end: the wait is then created for a signal that was already given, and
the generation does not change until the next connection is made.
-/

namespace PathDns

open Bytes Runs

/-- The exchange holds the lock of the sender across an await. -/
def MuxPhase.HoldsLock : MuxPhase → Prop
  | .connecting | .installing _ => True
  | _ => False

namespace MuxSystem

variable {s s' : MuxSystem} {e : MuxEvent}

/-! ### The lock of the sender -/

/-- Whoever connects holds the lock, and meanwhile there is no sender. -/
structure LockHeld (s : MuxSystem) : Prop where
  holder : ∀ (k : Nat) (x : MuxExchange), s.exchanges[k]? = some x → x.phase.HoldsLock →
    s.writerLock = some k
  sender : ∀ (k : Nat) (x : MuxExchange), s.exchanges[k]? = some x → x.phase = .connecting →
    s.writerTx = none

namespace LockHeld

theorem start (maxInflight : Nat) (seed : UInt32) : LockHeld (start maxInflight seed) := by
  constructor <;> simp [MuxSystem.start]

theorem frame (h : LockHeld s) (hexchanges : s'.exchanges = s.exchanges)
    (hlock : s'.writerLock = s.writerLock) (hsender : s'.writerTx = s.writerTx ∨ s'.writerTx = none) :
    LockHeld s' := by
  obtain ⟨holder, sender⟩ := h
  constructor <;> grind

variable {k : Nat} {x y : MuxExchange}

theorem setExchange (h : LockHeld s) (hy : ¬ y.phase.HoldsLock)
    (hexchanges : s'.exchanges = s.exchanges.set k y) (hlock : s'.writerLock = s.writerLock)
    (hsender : s'.writerTx = s.writerTx) : LockHeld s' := by
  obtain ⟨holder, sender⟩ := h
  constructor <;> grind [MuxPhase.HoldsLock]

theorem unique (h : LockHeld s) {j : Nat} (hx : s.exchanges[k]? = some x) (hxh : x.phase.HoldsLock)
    (hy : s.exchanges[j]? = some y) (hyh : y.phase.HoldsLock) : j = k :=
  Option.some.inj ((h.holder j y hy hyh).symm.trans (h.holder k x hx hxh))

theorem release (h : LockHeld s) (hx : s.exchanges[k]? = some x) (hxh : x.phase.HoldsLock)
    (hy : ¬ y.phase.HoldsLock) (hexchanges : s'.exchanges = s.exchanges.set k y) : LockHeld s' := by
  have hunique := @h.unique _ k x
  constructor <;> grind [MuxPhase.HoldsLock]

theorem acquire (h : LockHeld s) (hfree : s.writerLock = none) (hnone : s.writerTx = none)
    (hexchanges : s'.exchanges = s.exchanges.set k y) (hlock : s'.writerLock = some k)
    (hsender : s'.writerTx = s.writerTx) : LockHeld s' := by
  obtain ⟨holder, -⟩ := h
  constructor <;> grind

theorem connected (h : LockHeld s) (hx : s.exchanges[k]? = some x) (hphase : x.phase = .connecting) :
    LockHeld (s.connectedStep k x) := by
  have hxh : x.phase.HoldsLock := by rw [hphase]; trivial
  obtain ⟨holder, sender⟩ := h
  constructor <;> grind [connectedStep, MuxSystem.setExchange, MuxPhase.HoldsLock]

theorem push (h : LockHeld s) (hy : ¬ y.phase.HoldsLock) (hexchanges : s'.exchanges = s.exchanges ++ [y])
    (hlock : s'.writerLock = s.writerLock) (hsender : s'.writerTx = s.writerTx) : LockHeld s' := by
  obtain ⟨holder, sender⟩ := h
  constructor <;> grind [MuxPhase.HoldsLock]

theorem signal (h : LockHeld s) (o : Option Nat) : LockHeld (s.signal o) := by
  cases o with
  | none => exact h
  | some n =>
    rw [MuxSystem.signal]
    split
    · exact h.frame rfl rfl (.inl rfl)
    · exact h

end LockHeld

/-! ### Sender and signals under a step -/

/-- The teardown signal of connection `n` was given. -/
def signalled (s : MuxSystem) (n : Nat) : Bool := (s.links[n]?).any (0 < ·.signals)

/-- Teardown `t` is at the lock of the sender and will remove it: a `disconnect` does so for the current
generation only. -/
def wipes (s : MuxSystem) (t : Nat) : Bool := (s.teardowns[t]?).any fun d => d.phase = .locking &&
  match d.kind with
  | .disconnect n => (s.links[n]?).any (s.generation = ·.gen)
  | .forced _ => true

/-- The connection that teardown `t` signals next. -/
def signalling (s : MuxSystem) (t : Nat) : Option Nat := (s.teardowns[t]?).bind fun d =>
  match d.phase with
  | .signalling link => link
  | _ => none

/-- Neither the sender nor a signal changes, and the lock is kept. -/
structure Quiet (s s' : MuxSystem) : Prop where
  sender : s'.writerTx = s.writerTx
  signals : ∀ n, s'.signalled n = s.signalled n
  lock : LockHeld s → LockHeld s'

theorem Quiet.of_links (hsender : s'.writerTx = s.writerTx) (hlinks : s'.links = s.links)
    (hlock : LockHeld s → LockHeld s') : Quiet s s' :=
  ⟨hsender, fun n => by rw [signalled, signalled, hlinks], hlock⟩

theorem Quiet.outside (hsender : s'.writerTx = s.writerTx) (hlinks : s'.links = s.links)
    (hexchanges : s'.exchanges = s.exchanges) (hlock : s'.writerLock = s.writerLock) : Quiet s s' :=
  .of_links hsender hlinks fun h => h.frame hexchanges hlock (.inl hsender)

variable {n : Nat} {link link' : MuxLink}

theorem signalled_set (hlink : s.links[n]? = some link) (hlinks : s'.links = s.links.set n link')
    (hsignals : link'.signals = link.signals) (m : Nat) : s'.signalled m = s.signalled m := by
  rw [signalled, signalled, hlinks]
  by_cases hm : m = n
  · rw [hm, Slots.getElem?_set_self hlink, hlink]
    simp only [Option.any_some, hsignals]
  · rw [List.getElem?_set_ne (Ne.symm hm)]

theorem Quiet.of_set (hsender : s'.writerTx = s.writerTx) (hlink : s.links[n]? = some link)
    (hlinks : s'.links = s.links.set n link') (hsignals : link'.signals = link.signals)
    (hlock : LockHeld s → LockHeld s') : Quiet s s' :=
  ⟨hsender, signalled_set hlink hlinks hsignals, hlock⟩

/-- What a step does to sender and signals; the lock is kept as it was found. -/
inductive Effect (s : MuxSystem) : MuxEvent → MuxSystem → Prop
  | quiet {e : MuxEvent} {s' : MuxSystem} (h : Quiet s s') : Effect s e s'
  | connected {k : Nat} {x : MuxExchange} (hx : s.exchanges[k]? = some x) (hphase : x.phase = .connecting) :
    Effect s (.exchange k .connected) (s.connectedStep k x)
  | wiped {t : Nat} {s' : MuxSystem} (hwipes : s.wipes t = true) (hsender : s'.writerTx = none)
    (hsignals : ∀ n, s'.signalled n = s.signalled n) (hlock : LockHeld s → LockHeld s') :
    Effect s (.teardown t) s'
  | signal {t n : Nat} {s' : MuxSystem} (hnext : s.signalling t = some n) (hsender : s'.writerTx = s.writerTx)
    (hsignals : ∀ m, m ≠ n → s'.signalled m = s.signalled m) (hlock : LockHeld s → LockHeld s') :
    Effect s (.teardown t) s'

theorem effect_exchangeStep {k : Nat} {x : MuxExchange} (hx : s.exchanges[k]? = some x) {e : ExchangeEvent}
    (h : s.exchangeStep k x e = some s') : Effect s (.exchange k e) s' := by
  revert h
  fun_cases exchangeStep s k x e <;> intro h
  case case9 hphase =>
    obtain ⟨link, hlink, rfl⟩ := Option.map_eq_some_iff.mp h
    exact .quiet (.of_set rfl hlink rfl rfl fun held => held.release hx (by rw [hphase]; trivial) id rfl)
  case case11 n _ =>
    obtain ⟨link, hlink, h⟩ := Option.bind_eq_some_iff.mp h
    revert h
    fun_cases sendStep s k x n link <;> rintro ⟨⟩
    · exact .quiet (.of_links rfl rfl fun held => held.setExchange id rfl rfl rfl)
    · exact .quiet (.of_set rfl hlink rfl rfl fun held => held.setExchange id rfl rfl rfl)
  all_goals cases h
  case case1 =>
    exact .quiet (.of_links rfl rfl fun held => held.setExchange (by split <;> exact id) rfl rfl rfl)
  case case3 now hfree =>
    fun_cases lockStep s k x now
    case case3 hnone _ => exact .quiet (.of_links rfl rfl fun held => held.acquire hfree.2 hnone rfl rfl rfl)
    all_goals exact .quiet (.of_links rfl rfl fun held => held.setExchange id rfl rfl rfl)
  case case5 hphase => exact .connected hx hphase
  case case7 hphase | case13 hphase =>
    exact .quiet (.of_links rfl rfl fun held => held.release hx (by rw [hphase]; trivial) id rfl)
  all_goals exact .quiet (.of_links rfl rfl fun held => held.setExchange id rfl rfl rfl)

theorem quiet_setLink (hlink : s.links[n]? = some link) (hlinks : s'.links = s.links.set n link')
    (hsignals : link'.signals = link.signals) (hsender : s'.writerTx = s.writerTx)
    (hexchanges : s'.exchanges = s.exchanges) (hlock : s'.writerLock = s.writerLock) : Quiet s s' :=
  .of_set hsender hlink hlinks hsignals fun held => held.frame hexchanges hlock (.inl hsender)

theorem quiet_linkStep (hlink : s.links[n]? = some link) {e : LinkEvent} (h : s.linkStep n link e = some s') :
    Quiet s s' := by
  revert h
  fun_cases linkStep s n link e <;> intro h
  case case1 =>
    obtain ⟨pending, -, rfl⟩ := Option.map_eq_some_iff.mp h
    exact .outside rfl rfl rfl rfl
  all_goals cases h
  all_goals exact quiet_setLink hlink rfl rfl rfl rfl rfl

variable {t : Nat}

theorem effect_wipeSender {d : Teardown} (hd : s.teardowns[t]? = some d) (hphase : d.phase = .locking)
    (h : s.wipeSender t d = some s') : Effect s (.teardown t) s' := by
  obtain ⟨kind, phase⟩ := d
  obtain rfl : phase = .locking := hphase
  cases kind with
  | disconnect n =>
    rw [wipeSender] at h
    obtain ⟨link, hlink, rfl⟩ := Option.map_eq_some_iff.mp h
    split_ifs with hgen
    · exact .quiet (.outside rfl rfl rfl rfl)
    · have hwipes : s.wipes t = true := by simp [wipes, hd, hlink, not_not.mp hgen]
      exact .wiped hwipes rfl (fun _ => rfl) fun held => held.frame rfl rfl (.inr rfl)
  | forced made =>
    obtain rfl := Option.some.inj h
    have hwipes : s.wipes t = true := by simp [wipes, hd]
    exact .wiped hwipes rfl (fun _ => rfl) fun held => held.frame rfl rfl (.inr rfl)

theorem signalled_signal_ne {m : Nat} (hm : m ≠ n) : (s.signal (some n)).signalled m = s.signalled m := by
  rw [signal]
  split
  · rw [signalled, signalled, setLink, List.getElem?_set_ne (Ne.symm hm)]
  · rfl

theorem writerTx_signal (s : MuxSystem) (o : Option Nat) : (s.signal o).writerTx = s.writerTx := by
  cases o with
  | none => rfl
  | some n =>
    rw [signal]
    split <;> rfl

theorem effect_teardownStep {d : Teardown} (hd : s.teardowns[t]? = some d) (h : s.teardownStep t d = some s') :
    Effect s (.teardown t) s' := by
  revert h
  fun_cases teardownStep s t d <;> intro h
  case case4 hphase _ => exact effect_wipeSender hd hphase h
  all_goals cases h
  case case6 shard hphase =>
    fun_cases clearStep s t d shard <;> exact .quiet (.outside rfl rfl rfl rfl)
  case case7 link hphase =>
    cases link with
    | none => exact .quiet (.outside rfl rfl rfl rfl)
    | some n =>
      have hnext : s.signalling t = some n := by rw [signalling, hd, Option.bind_some, hphase]
      refine .signal hnext ?_ (fun m hm => ?_) fun held => (held.signal (some n)).frame rfl rfl (.inl rfl)
      · exact writerTx_signal s (some n)
      · exact signalled_signal_ne hm
  all_goals exact .quiet (.outside rfl rfl rfl rfl)

theorem effect_of_step (h : s.step e = some s') : Effect s e s' := by
  revert h
  fun_cases step s e <;> intro h
  case case1 =>
    obtain ⟨pending, -, rfl⟩ := Option.map_eq_some_iff.mp h
    exact .quiet (.of_links rfl rfl fun held => held.push id rfl rfl rfl)
  case case2 | case4 | case6 | case7 =>
    obtain ⟨pending, -, rfl⟩ := Option.map_eq_some_iff.mp h
    exact .quiet (.outside rfl rfl rfl rfl)
  case case3 =>
    obtain ⟨x, hx, h⟩ := Option.bind_eq_some_iff.mp h
    exact effect_exchangeStep hx h
  case case8 =>
    obtain ⟨link, hlink, h⟩ := Option.bind_eq_some_iff.mp h
    exact .quiet (quiet_linkStep hlink h)
  case case11 =>
    obtain ⟨d, hd, h⟩ := Option.bind_eq_some_iff.mp h
    exact effect_teardownStep hd h
  all_goals cases h
  all_goals exact .quiet (.outside rfl rfl rfl rfl)

theorem LockHeld.step (h : LockHeld s) (hstep : s.step e = some s') : LockHeld s' := by
  cases effect_of_step hstep with
  | quiet hquiet => exact hquiet.lock h
  | connected hx hphase => exact h.connected hx hphase
  | wiped hwipes hsender hsignals hlock => exact hlock h
  | signal hnext hsender hsignals hlock => exact hlock h

theorem writerTx_of_wipes (hwipes : s.wipes t = true) (h : s.step (.teardown t) = some s') :
    s'.writerTx = none := by
  obtain ⟨⟨kind, phase⟩, hd, h⟩ := Option.bind_eq_some_iff.mp h
  simp only [wipes, hd, Option.any_some, Bool.and_eq_true, decide_eq_true_eq] at hwipes
  obtain ⟨rfl, hkind⟩ := hwipes
  rw [teardownStep] at h
  split_ifs at h
  cases kind with
  | disconnect n =>
    rw [wipeSender] at h
    obtain ⟨link, hlink, rfl⟩ := Option.map_eq_some_iff.mp h
    have hgen : s.generation = link.gen := by simpa [hlink] using hkind
    rw [if_neg (not_not.mpr hgen)]
    rfl
  | forced made =>
    obtain rfl := Option.some.inj h
    rfl

theorem signalling_of_wipes (hwipes : s.wipes t = true) : s.signalling t = none := by
  cases hd : s.teardowns[t]? with
  | none => rw [signalling, hd, Option.bind_none]
  | some d =>
    simp only [wipes, hd, Option.any_some, Bool.and_eq_true, decide_eq_true_eq] at hwipes
    rw [signalling, hd, Option.bind_some, hwipes.1]

end MuxSystem

/-! ### The reader loop -/

/-- Where the reader of a connection is in its loop. -/
inductive ReaderPhase where
  /-- at the check of the generation -/
  | top
  /-- `is_empty` has found the shards below this one empty -/
  | looking (shard : Nat)
  /-- it waits without a timeout for the first byte or the signal -/
  | waiting
  /-- it was waiting when the signal was given -/
  | woken
  /-- the first byte has come; the second is read under the timeout -/
  | second
  /-- both bytes of the length are read under the timeout -/
  | active
  | body (len : UInt16)
  | gone
deriving DecidableEq, Repr

inductive ReaderEvent where
  /-- the check of the generation -/
  | check
  /-- `is_empty` locks the next shard -/
  | look
  /-- `select!` is entered, which creates the wait for the signal -/
  | wait
  | firstByte
  | length (len : UInt16)
  | body (packet : Packet)
  /-- a read fails or times out, or the signal is seen -/
  | fail
deriving DecidableEq, Repr

/-- A step of the multiplexer or of the reader of a connection. -/
inductive MuxReadersEvent where
  | mux (e : MuxEvent)
  | reader (link : Nat) (e : ReaderEvent)
deriving DecidableEq, Repr

/-- The multiplexer with the readers of its connections. -/
structure MuxReaders where
  mux : MuxSystem
  maxResponseBytes : Nat
  readers : Nat → ReaderPhase

/-- The step belongs to a reader, which takes it at the places of its loop only. -/
def MuxEvent.ofReader : MuxEvent → Bool
  | .link _ (.receive _) | .link _ .readerFail | .link _ .readerQuit => true
  | _ => false

/-- One shard of `is_empty`. -/
def InflightRegistry.shardEmpty (r : InflightRegistry) (i : Fin SHARDS) : Bool := (r.shards i).entries.isEmpty

namespace MuxReaders

def start (maxInflight : Nat) (seed : UInt32) (maxResponseBytes : Nat) : MuxReaders :=
  ⟨.start maxInflight seed, maxResponseBytes, fun _ => .top⟩

def setReader (s : MuxReaders) (n : Nat) (phase : ReaderPhase) : MuxReaders :=
  { s with readers := Function.update s.readers n phase }

/-- The reader takes a step of the multiplexer. -/
def takeStep (s : MuxReaders) (n : Nat) (e : LinkEvent) (phase : ReaderPhase) : Option MuxReaders :=
  (s.mux.step (.link n e)).map fun mux => { s with mux := mux }.setReader n phase

/-- `resp_len` is too short for a header or longer than allowed. -/
def refusesLength (s : MuxReaders) (len : UInt16) : Bool :=
  len.toNat < 12 || (0 < s.maxResponseBytes && s.maxResponseBytes < len.toNat)

/-- A step of the reader of connection `n`. -/
def readerStep (s : MuxReaders) (n : Nat) (link : MuxLink) (e : ReaderEvent) : Option MuxReaders :=
  match e, s.readers n with
  | .check, .top =>
    if s.mux.generation ≠ link.gen then s.takeStep n .readerQuit .gone
    else some (s.setReader n (.looking 0))
  | .look, .looking shard =>
    if h : shard < SHARDS then
      some (s.setReader n (if s.mux.pending.registry.shardEmpty ⟨shard, h⟩ then .looking (shard + 1) else .active))
    else none
  | .wait, .looking shard => if shard = SHARDS then some (s.setReader n .waiting) else none
  | .firstByte, .waiting | .firstByte, .woken => some (s.setReader n .second)
  | .length len, .second | .length len, .active =>
    if s.refusesLength len then s.takeStep n .readerFail .gone else some (s.setReader n (.body len))
  | .body packet, .body len =>
    if packet.length = len.toNat then s.takeStep n (.receive packet) .top else none
  | .fail, .waiting | .fail, .woken | .fail, .second | .fail, .active | .fail, .body _ =>
    s.takeStep n .readerFail .gone
  | _, _ => none

/-- A signal wakes the wait of its connection, if there is one. -/
def wake (s : MuxReaders) : MuxEvent → Nat → ReaderPhase
  | .teardown t, n =>
    if s.mux.signalling t = some n ∧ s.readers n = .waiting then .woken else s.readers n
  | _, n => s.readers n

def step (s : MuxReaders) : MuxReadersEvent → Option MuxReaders
  | .mux e =>
    if e.ofReader then none
    else (s.mux.step e).map fun mux => { s with mux := mux, readers := s.wake e }
  | .reader n e => (s.mux.links[n]?).bind fun link =>
    if link.reader = .running then s.readerStep n link e else none

variable {s s' : MuxReaders} {e : MuxReadersEvent} {es : List MuxReadersEvent}

variable {n : Nat} {phase : ReaderPhase}

theorem of_takeStep {e : LinkEvent} (h : s.takeStep n e phase = some s') :
    s'.readers = Function.update s.readers n phase ∧ s.mux.step (.link n e) = some s'.mux := by
  obtain ⟨mux, hmux, rfl⟩ := Option.map_eq_some_iff.mp h
  exact ⟨rfl, hmux⟩

/-- The reader of connection `n` goes to a place of its loop without an untimed wait. -/
structure Moves (s : MuxReaders) (n : Nat) (s' : MuxReaders) : Prop where
  readers : ∃ phase, phase ≠ .waiting ∧ s'.readers = Function.update s.readers n phase
  mux : s'.mux = s.mux ∨ ∃ e, s.mux.step (.link n e) = some s'.mux

theorem moves_setReader (hphase : phase ≠ .waiting) : Moves s n (s.setReader n phase) :=
  ⟨⟨phase, hphase, rfl⟩, .inl rfl⟩

theorem moves_takeStep {e : LinkEvent} (h : s.takeStep n e phase = some s') (hphase : phase ≠ .waiting) :
    Moves s n s' :=
  ⟨⟨phase, hphase, (of_takeStep h).1⟩, .inr ⟨e, (of_takeStep h).2⟩⟩

theorem readerStep_cases {link : MuxLink} {e : ReaderEvent} (h : s.readerStep n link e = some s') :
    (e = .wait ∧ s' = s.setReader n .waiting) ∨ (e ≠ .wait ∧ Moves s n s') := by
  delta readerStep at h
  generalize s.readers n = phase at h
  cases e <;> cases phase <;> dsimp only at h <;> try cases h
  case wait.looking =>
    split_ifs at h
    exact .inl ⟨rfl, (Option.some.inj h).symm⟩
  all_goals refine .inr ⟨nofun, ?_⟩
  case check.top | length.second | length.active =>
    split_ifs at h
    · exact moves_takeStep h nofun
    · exact Option.some.inj h ▸ moves_setReader nofun
  case look.looking => split_ifs at h <;> exact Option.some.inj h ▸ moves_setReader nofun
  case body.body =>
    split_ifs at h
    exact moves_takeStep h nofun
  case firstByte.waiting | firstByte.woken => exact moves_setReader nofun
  all_goals exact moves_takeStep h nofun

theorem step_cases (h : s.step e = some s') :
    (∃ e', e = .mux e' ∧ s.mux.step e' = some s'.mux ∧ s'.readers = s.wake e') ∨
    (∃ n, e = .reader n .wait ∧ s' = s.setReader n .waiting) ∨
    (∃ n e', e = .reader n e' ∧ e' ≠ .wait ∧ Moves s n s') := by
  cases e with
  | mux e =>
    rw [step] at h
    split_ifs at h
    obtain ⟨mux, hmux, rfl⟩ := Option.map_eq_some_iff.mp h
    exact .inl ⟨e, rfl, hmux, rfl⟩
  | reader n e =>
    obtain ⟨link, hlink, h⟩ := Option.bind_eq_some_iff.mp h
    split_ifs at h
    rcases readerStep_cases h with ⟨rfl, hs'⟩ | ⟨he, hmoves⟩
    · exact .inr (.inl ⟨n, rfl, hs'⟩)
    · exact .inr (.inr ⟨n, e, rfl, he, hmoves⟩)

theorem run_mux (hrun : run step s es = some s') :
    ∃ muxEvents, run MuxSystem.step s.mux muxEvents = some s'.mux := by
  refine run_invariant (I := fun t => ∃ muxEvents, run MuxSystem.step s.mux muxEvents = some t.mux)
    ?_ ⟨[], rfl⟩ (meets_true _ _) hrun
  rintro t e t' ⟨muxEvents, hmux⟩ - hstep
  rcases step_cases hstep with ⟨e', -, hmux', -⟩ | ⟨n, -, rfl⟩ | ⟨n, e', -, -, hmoves⟩
  · exact ⟨muxEvents ++ [e'], by simp [run_append, hmux, run, hmux']⟩
  · exact ⟨muxEvents, hmux⟩
  · rcases hmoves.mux with hsame | ⟨d, hd⟩
    · exact ⟨muxEvents, hsame ▸ hmux⟩
    · exact ⟨muxEvents ++ [.link n d], by simp [run_append, hmux, run, hd]⟩

/-! ### Lost signals -/

/-- Connection `n` is torn down and was signalled, and its reader is in an untimed wait: a wait that was
there at the signal would have been woken. -/
def LostWake (s : MuxReaders) (n : Nat) : Prop :=
  s.readers n = .waiting ∧ s.mux.writerTx ≠ some n ∧ s.mux.signalled n = true

instance (s : MuxReaders) (n : Nat) : Decidable (LostWake s n) := inferInstanceAs (Decidable (_ ∧ _))

/-- An untimed wait is created while the connection has its sender or was not signalled, and no sender is
removed while the reader is in an untimed wait that a signal came before. -/
def Prompt (s : MuxReaders) : MuxReadersEvent → Prop
  | .reader n .wait => s.mux.writerTx = some n ∨ s.mux.signalled n = false
  | .mux (.teardown t) => s.mux.wipes t = true → ∀ n ∈ s.mux.writerTx, s.readers n = .waiting →
    s.mux.signalled n = false
  | _ => True

theorem waiting_of_wake {e : MuxEvent} (h : s.wake e n = .waiting) : s.readers n = .waiting := by
  cases e with
  | teardown t =>
    rw [wake] at h
    split_ifs at h
    exact h
  | register | proceed | exchange | dropGuard | releasePermit | deliver | link | force => exact h

/-- The next state of a step that neither creates a wait nor changes sender or signals. -/
theorem not_lost_of_quiet (h : ∀ n, ¬ LostWake s n) (hquiet : MuxSystem.Quiet s.mux s'.mux)
    (hreaders : ∀ n, s'.readers n = .waiting → s.readers n = .waiting) (n : Nat) : ¬ LostWake s' n := by
  rintro ⟨hwaiting, hsender, hsignal⟩
  rw [hquiet.sender] at hsender
  rw [hquiet.signals] at hsignal
  exact h n ⟨hreaders n hwaiting, hsender, hsignal⟩

theorem not_lost_of_moves (h : ∀ n, ¬ LostWake s n) {m : Nat} (hmoves : Moves s m s') (n : Nat) :
    ¬ LostWake s' n := by
  have hreaders : ∀ n, s'.readers n = .waiting → s.readers n = .waiting := by
    obtain ⟨phase, hphase, heq⟩ := hmoves.readers
    intro n hn
    rw [heq, Function.update_apply] at hn
    split_ifs at hn with hnm
    · exact absurd hn hphase
    · exact hn
  rcases hmoves.mux with hsame | ⟨e, hstep⟩
  · rintro ⟨hwaiting, hlost⟩
    rw [hsame] at hlost
    exact h n ⟨hreaders n hwaiting, hlost⟩
  · obtain ⟨link, hlink, hstep⟩ := Option.bind_eq_some_iff.mp hstep
    exact not_lost_of_quiet h (MuxSystem.quiet_linkStep hlink hstep) hreaders n

theorem not_lost_connected (h : ∀ n, ¬ LostWake s n) (hlock : MuxSystem.LockHeld s.mux) {k : Nat}
    {x : MuxExchange} (hx : s.mux.exchanges[k]? = some x) (hphase : x.phase = .connecting)
    (hmux : s'.mux = s.mux.connectedStep k x) (hreaders : ∀ n, s'.readers n = .waiting → s.readers n = .waiting)
    (n : Nat) : ¬ LostWake s' n := by
  rintro ⟨hwaiting, -, hsignal⟩
  have hnone : s.mux.writerTx = none := hlock.sender k x hx hphase
  have hold : s.mux.signalled n = true := by
    rw [hmux, MuxSystem.signalled, Option.any_eq_true] at hsignal
    obtain ⟨link, hlink, hpos⟩ := hsignal
    rcases Slots.of_getElem?_push hlink with ⟨-, rfl⟩ | hlink
    · cases hpos
    · rw [MuxSystem.signalled, hlink]
      exact hpos
  exact h n ⟨hreaders n hwaiting, by rw [hnone]; nofun, hold⟩

theorem wiped_iff (h : ∀ n, ¬ LostWake s n) {t : Nat} (hwipes : s.mux.wipes t = true)
    (hsender : s'.mux.writerTx = none) (hsignals : ∀ n, s'.mux.signalled n = s.mux.signalled n)
    (hreaders : s'.readers = s.wake (.teardown t)) :
    (∀ n, ¬ LostWake s' n) ↔ Prompt s (.mux (.teardown t)) := by
  have hsame : s'.readers = s.readers := by
    rw [hreaders]
    funext n
    rw [wake, MuxSystem.signalling_of_wipes hwipes, if_neg (by simp)]
  constructor
  · intro hnext _ n _ hwaiting
    rw [← hsame] at hwaiting
    have hnot := hnext n
    rw [LostWake, hsender, hsignals] at hnot
    exact Bool.eq_false_iff.mpr fun hsignal => hnot ⟨hwaiting, nofun, hsignal⟩
  · rintro hprompt n ⟨hwaiting, -, hsignal⟩
    rw [hsame] at hwaiting
    rw [hsignals] at hsignal
    by_cases hn : s.mux.writerTx = some n
    · rw [hprompt hwipes n hn hwaiting] at hsignal
      cases hsignal
    · exact h n ⟨hwaiting, hn, hsignal⟩

theorem wait_iff (h : ∀ n, ¬ LostWake s n) (n : Nat) :
    (∀ m, ¬ LostWake (s.setReader n .waiting) m) ↔ Prompt s (.reader n .wait) := by
  constructor
  · intro hnext
    by_contra hprompt
    rw [Prompt, not_or, Bool.not_eq_false] at hprompt
    exact hnext n ⟨Function.update_self .., hprompt⟩
  · rintro hprompt m ⟨hwaiting, hsent, hsignal⟩
    by_cases hmn : m = n
    · subst hmn
      rcases hprompt with hsender | hnone
      · exact hsent hsender
      · exact absurd (hsignal.symm.trans hnone) (by decide)
    · have hbefore : s.readers m = .waiting := by simpa [setReader, Function.update_of_ne hmn] using hwaiting
      exact h m ⟨hbefore, hsent, hsignal⟩

theorem prompt_of_sender {e : MuxEvent} (hstep : s.mux.step e = some s'.mux)
    (hsender : s'.mux.writerTx = s.mux.writerTx) : Prompt s (.mux e) := by
  cases e with
  | teardown t =>
    intro hwipes n hn
    rw [← hsender, MuxSystem.writerTx_of_wipes hwipes hstep] at hn
    cases hn
  | register | proceed | exchange | dropGuard | releasePermit | deliver | link | force => trivial

/-- What one step keeps, and when. -/
theorem step_not_lost_iff (hlock : MuxSystem.LockHeld s.mux) (h : ∀ n, ¬ LostWake s n)
    (hstep : s.step e = some s') : (∀ n, ¬ LostWake s' n) ↔ Prompt s e := by
  rcases step_cases hstep with ⟨e', rfl, hmux, hreaders⟩ | ⟨n, rfl, rfl⟩ | ⟨n, e', rfl, he, hmoves⟩
  · have hwaits : ∀ n, s'.readers n = .waiting → s.readers n = .waiting := fun n hn =>
      waiting_of_wake (hreaders ▸ hn)
    have heffect := MuxSystem.effect_of_step hmux
    generalize hm : s'.mux = mux' at heffect
    cases heffect with
    | quiet hquiet =>
      subst hm
      exact iff_of_true (not_lost_of_quiet h hquiet hwaits) (prompt_of_sender hmux hquiet.sender)
    | connected hx hphase => exact iff_of_true (not_lost_connected h hlock hx hphase hm hwaits) trivial
    | wiped hwipes hsender hsignals _ =>
      subst hm
      exact wiped_iff h hwipes hsender hsignals hreaders
    | @signal t n _ hnext hsender hsignals _ =>
      subst hm
      refine iff_of_true (fun m hlost => ?_) (prompt_of_sender hmux hsender)
      obtain ⟨hwaiting, hsent, hsignal⟩ := hlost
      have hbefore := hwaits m hwaiting
      by_cases hmn : m = n
      · -- the wait that was there is woken
        rw [hreaders, wake, if_pos ⟨hmn ▸ hnext, hbefore⟩] at hwaiting
        cases hwaiting
      · rw [hsender] at hsent
        rw [hsignals m hmn] at hsignal
        exact h m ⟨hbefore, hsent, hsignal⟩
  · exact wait_iff h n
  · refine iff_of_true (not_lost_of_moves h hmoves) ?_
    cases e' with
    | wait => exact absurd rfl he
    | check | look | firstByte | length | body | fail => trivial

theorem lockHeld_step (hlock : MuxSystem.LockHeld s.mux) (hstep : s.step e = some s') :
    MuxSystem.LockHeld s'.mux := by
  rcases step_cases hstep with ⟨e', -, hmux, -⟩ | ⟨n, -, rfl⟩ | ⟨n, e', -, -, hmoves⟩
  · exact hlock.step hmux
  · exact hlock
  · rcases hmoves.mux with hsame | ⟨d, hd⟩
    · exact hsame ▸ hlock
    · exact hlock.step hd

/-- The runs without a lost signal are those in which every wait and every teardown is prompt. -/
theorem no_lost_wake_iff (maxInflight : Nat) (seed : UInt32) (maxResponseBytes : Nat)
    (es : List MuxReadersEvent) (hrun : (run step (start maxInflight seed maxResponseBytes) es).isSome = true) :
    Throughout step (fun s => ∀ n, ¬ LostWake s n) (start maxInflight seed maxResponseBytes) es ↔
      Meets step Prompt (start maxInflight seed maxResponseBytes) es := by
  refine throughout_iff_meets (I := fun s => MuxSystem.LockHeld s.mux)
    (fun s e s' hlock hstep => lockHeld_step hlock hstep)
    (fun s e s' hlock h hstep => step_not_lost_iff hlock h hstep) ?_ ?_ hrun
  · exact .start maxInflight seed
  · rintro n ⟨hwaiting, -⟩
    cases hwaiting

instance (s : MuxReaders) (e : MuxReadersEvent) : Decidable (Prompt s e) :=
  match e with
  | .reader _ .wait => inferInstanceAs (Decidable (_ ∨ _))
  | .mux (.teardown _) => inferInstanceAs (Decidable (_ → _))
  | .reader _ .check | .reader _ .look | .reader _ .firstByte | .reader _ (.length _)
  | .reader _ (.body _) | .reader _ .fail | .mux (.register ..) | .mux (.proceed _)
  | .mux (.exchange ..) | .mux (.dropGuard _) | .mux (.releasePermit _) | .mux (.deliver _)
  | .mux (.link ..) | .mux (.force _) => .isTrue trivial

/-- The reader of connection 0 checks the generation and looks through all shards. -/
def lookRun : List MuxReadersEvent := .reader 0 .check :: List.replicate SHARDS (.reader 0 .look)

/-- A connection is made and a write on it fails; the teardown is through but for the signal. -/
def writeFailed : List MuxReadersEvent :=
  List.map .mux (MuxSystem.connectRun 0 ++ [.link 0 (.write 1 false)] ++ List.replicate 66 (.teardown 0))

/-- A connection is made and a forced reconnect takes it; its teardown is through but for the signal. -/
def forcedReconnect : List MuxReadersEvent :=
  List.map .mux (MuxSystem.connectRun 0 ++ [.force 0] ++ List.replicate 68 (.teardown 0))

/-- A reader that waits before the signal is woken by it. -/
theorem no_lost_wake_iff_woken :
    Throughout step (fun s => ∀ n, ¬ LostWake s n) (start 0 97 0)
      (writeFailed ++ lookRun ++ [.reader 0 .wait, .mux (.teardown 0)]) := by
  refine (no_lost_wake_iff 0 97 0 _ (by decide +kernel)).mpr ?_
  exact (meets_of_computed (C := fun s e => decide (Prompt s e)) (by decide +kernel)).mono
    fun _ _ => of_decide_eq_true

/-- The signal comes between the look through the shards and the creation of the wait, in both kinds of
teardown. -/
theorem wake_lost :
    (run step (start 0 97 0) (writeFailed ++ lookRun ++ [.mux (.teardown 0), .reader 0 .wait])).any
      (fun s => decide (LostWake s 0)) = true ∧
    (run step (start 0 97 0) (forcedReconnect ++ lookRun ++ [.mux (.teardown 0), .reader 0 .wait])).any
      (fun s => decide (LostWake s 0)) = true := by
  decide +kernel

end MuxReaders

end PathDns
