import PathDns.Lib.Sharded
import PathDns.Dns.Question
import PathDns.Resolver.Exchange

/-!
# The in-flight registry (`upstream/inflight.rs`)

Queries on a shared socket or stream are told apart by a 16-bit upstream ID. The registry maps each ID
to the entry of the query that waits under it. The table is cut into 64 shards, each behind its own
lock; a step below is what happens while one lock is held, or one operation on an atomic counter or on
the semaphore of the cap. A shard is never poisoned: nothing that runs under its lock panics.

* `complete`: what a received packet does to the table and which waiter gets it (`complete_cases`).
* `InflightGuard.drop`: what a dropped guard removes.
* The other validator of responses, `validate_upstream_response`, agrees with `complete` on packets of
  the standard opcode with one question, and lets through others (`validators_agree_iff`).
-/

namespace PathDns

open Bytes

/-- `mix16`: a counter value scattered over the nonzero IDs. -/
def mix16 (x : UInt32) : UInt16 :=
  let x := x * 0x45d9f3b
  let x := x ^^^ (x >>> 16)
  let id := x.toUInt16
  if id = 0 then 1 else id

theorem mix16_ne_zero (x : UInt32) : mix16 x ≠ 0 := by
  rw [mix16]
  split_ifs with h
  · decide
  · exact h

/-- The number of shards. -/
abbrev SHARDS : Nat := 64

/-- `Entry`; a channel is known by its number. -/
structure InflightEntry where
  tx : Nat
  clientId : UInt16
  question : List UInt8
  token : UInt64
deriving DecidableEq, Repr

inductive Completion where
  | delivered
  | noWaiter
  | mismatch (id : UInt16)
deriving DecidableEq, Repr

/-- `InflightGuard`; the permit it may hold is counted by the registry. -/
structure InflightGuard where
  id : UInt16
  token : UInt64
deriving DecidableEq, Repr

/-- `InflightRegistry`; `cap` is the number of free permits. -/
structure InflightRegistry where
  shards : Sharded.Table UInt16 InflightEntry (Fin SHARDS)
  nextId : UInt32
  nextToken : UInt64
  cap : Option Nat

namespace InflightRegistry

/-- `InflightRegistry::new`; the seed stands for `random_id_seed`. -/
def new (maxInflight : Nat) (seed : UInt32) : InflightRegistry where
  shards := fun _ => ∅
  nextId := seed
  nextToken := 0
  cap := if 0 < maxInflight then some maxInflight else none

/-- The index of the shard that owns an ID. -/
def shardIndex (id : UInt16) : Fin SHARDS :=
  ⟨id.toNat &&& (SHARDS - 1), Nat.lt_of_le_of_lt Nat.and_le_right (by decide)⟩

/-- The entry that waits under an ID. -/
def get (r : InflightRegistry) (id : UInt16) : Option InflightEntry :=
  Sharded.get shardIndex r.shards id

def insert (r : InflightRegistry) (id : UInt16) (entry : InflightEntry) : InflightRegistry :=
  { r with shards := Sharded.insert shardIndex r.shards id entry }

/-- `shard.remove(&id)`. -/
def remove (r : InflightRegistry) (id : UInt16) : InflightRegistry :=
  { r with shards := Sharded.remove shardIndex r.shards id }

/-- `try_acquire_owned` on the semaphore, where there is one. -/
def tryAcquire (r : InflightRegistry) : Option InflightRegistry :=
  match r.cap with
  | none => some r
  | some 0 => none
  | some (free + 1) => some { r with cap := some free }

/-- The drop of a permit. -/
def release (r : InflightRegistry) : InflightRegistry := { r with cap := r.cap.map (· + 1) }

/-- What `complete` leaves behind: the table, what it returns, and the channel and the bytes it sends. -/
structure Completed where
  registry : InflightRegistry
  outcome : Completion
  response : Option (Nat × Packet)

def complete (r : InflightRegistry) (packet : Packet) : Completed :=
  if !isReply packet then ⟨r, .noWaiter, none⟩
  else if (byteAt packet 2 >>> 3) &&& 0x0f ≠ 0 then ⟨r, .noWaiter, none⟩
  else if u16be packet 4 ≠ 1 then ⟨r, .noWaiter, none⟩
  else
    match getId packet with
    | .error _ => ⟨r, .noWaiter, none⟩
    | .ok id =>
      let id := UInt16.ofNat id
      match r.get id with
      | none => ⟨r, .noWaiter, none⟩
      | some entry =>
        if !questionsMatch (responseQuestion packet) entry.question then ⟨r, .mismatch id, none⟩
        else ⟨r.remove id, .delivered, some (entry.tx, setId packet entry.clientId.toNat)⟩

/-- One turn of the loop of `clear`. -/
def clearShard (r : InflightRegistry) (i : Fin SHARDS) : InflightRegistry :=
  { r with shards := Sharded.clear r.shards i }

end InflightRegistry

/-- `InflightGuard::drop`, up to the release of the permit. -/
def InflightGuard.drop (guard : InflightGuard) (r : InflightRegistry) : InflightRegistry :=
  match r.get guard.id with
  | some entry => if entry.token = guard.token then r.remove guard.id else r
  | none => r

namespace InflightRegistry

variable {r : InflightRegistry} {id id' : UInt16} {entry : InflightEntry}

@[grind =] theorem get_insert (r : InflightRegistry) (id id' : UInt16) (entry : InflightEntry) :
    (r.insert id entry).get id' = if id' = id then some entry else r.get id' :=
  Sharded.get_insert_ite

@[grind =] theorem get_remove (r : InflightRegistry) (id id' : UInt16) :
    (r.remove id).get id' = if id' = id then none else r.get id' :=
  Sharded.get_remove_ite

/-! ### What a dropped guard does -/

theorem drop_cases (guard : InflightGuard) (r : InflightRegistry) :
    guard.drop r = r ∨ guard.drop r = r.remove guard.id := by
  grind [InflightGuard.drop]

theorem get_of_get_drop {guard : InflightGuard} (h : (guard.drop r).get id' = some entry) :
    r.get id' = some entry ∧ ¬ (id' = guard.id ∧ entry.token = guard.token) := by
  grind [InflightGuard.drop]

theorem get_drop {guard : InflightGuard} (h : r.get id' = some entry)
    (hother : ¬ (id' = guard.id ∧ entry.token = guard.token)) : (guard.drop r).get id' = some entry := by
  grind [InflightGuard.drop]

/-- Every entry is in the shard that owns its ID. -/
def Placed (r : InflightRegistry) : Prop := Sharded.Placed shardIndex r.shards

theorem Placed.drop (h : r.Placed) (guard : InflightGuard) : (guard.drop r).Placed := by
  rcases drop_cases guard r with hdrop | hdrop <;> rw [hdrop]
  · exact h
  · exact Sharded.Placed.remove h

/-! ### What `complete` does -/

/-- The packet is a reply of the standard opcode with one question, the given one up to letter case. -/
structure Answers (packet : Packet) (question : List UInt8) : Prop where
  reply : isReply packet = true
  opcode : (byteAt packet 2 >>> 3) &&& 0x0f = 0
  oneQuestion : u16be packet 4 = 1
  same : SameQuestion (responseQuestion packet) question

variable {packet : Packet}

theorem getId_of_isReply (h : isReply packet = true) : getId packet = .ok (u16be packet 0) := by
  rw [isReply, Bool.and_eq_true, decide_eq_true_eq] at h
  rw [getId, if_neg (by omega)]

/-- The ID a packet carries. -/
def packetId (packet : Packet) : UInt16 := UInt16.ofNat (u16be packet 0)

theorem toNat_packetId (packet : Packet) : (packetId packet).toNat = u16be packet 0 := by
  rw [packetId, UInt16.toNat_ofNat', Nat.mod_eq_of_lt (u16be_lt packet 0)]

/-- A packet either leaves the registry as it is and goes to no one, or it answers the question of the
entry under its ID, which is then removed. -/
theorem complete_cases (r : InflightRegistry) (packet : Packet) :
    ((r.complete packet).registry = r ∧ (r.complete packet).response = none ∧
      (r.complete packet).outcome ≠ .delivered) ∨
    ∃ entry, r.get (packetId packet) = some entry ∧ Answers packet entry.question ∧
      r.complete packet = ⟨r.remove (packetId packet), .delivered,
        some (entry.tx, setId packet entry.clientId.toNat)⟩ := by
  rw [complete]
  split_ifs with hreply hop hone
  · exact .inl ⟨rfl, rfl, by simp⟩
  · exact .inl ⟨rfl, rfl, by simp⟩
  · exact .inl ⟨rfl, rfl, by simp⟩
  · simp only [Bool.not_eq_true', Bool.not_eq_false, ne_eq, not_not] at hreply hop hone
    rw [getId_of_isReply hreply]
    dsimp only
    split
    · exact .inl ⟨rfl, rfl, by simp⟩
    · next entry hget =>
      split_ifs with hmatch
      · exact .inl ⟨rfl, rfl, by simp⟩
      · simp only [Bool.not_eq_true', Bool.not_eq_false] at hmatch
        exact .inr ⟨entry, hget, ⟨hreply, hop, hone, questionsMatch_iff.mp hmatch⟩, rfl⟩

/-- A packet that answers the entry under its ID is delivered. -/
theorem complete_of_answers (hget : r.get (packetId packet) = some entry) (h : Answers packet entry.question) :
    r.complete packet = ⟨r.remove (packetId packet), .delivered,
      some (entry.tx, setId packet entry.clientId.toNat)⟩ := by
  rw [packetId] at hget
  rw [complete, h.reply, getId_of_isReply h.reply]
  simp only [Bool.not_true, Bool.false_eq_true, if_false, h.opcode, h.oneQuestion, ne_eq, not_true,
    hget, questionsMatch_iff.mpr h.same, packetId]

/-! ### The two validators -/

/-- `complete` gives the packet to the waiter registered under `id`. -/
def DeliversUnder (r : InflightRegistry) (id : UInt16) (packet : Packet) : Prop :=
  ∃ entry, r.get id = some entry ∧ r.complete packet = ⟨r.remove id, .delivered,
    some (entry.tx, setId packet entry.clientId.toNat)⟩

theorem deliversUnder_iff (hget : r.get id = some entry) :
    r.DeliversUnder id packet ↔ packetId packet = id ∧ Answers packet entry.question := by
  constructor
  · rintro ⟨entry', hget', h⟩
    rcases complete_cases r packet with ⟨-, -, hnot⟩ | ⟨waiter, hwaiter, hanswers, hcomplete⟩
    · rw [h] at hnot
      exact absurd rfl hnot
    · rw [hcomplete, Completed.mk.injEq] at h
      -- the entry that is gone afterwards is the one under the packet's ID
      have hid : packetId packet = id := by
        have hgone : (r.remove (packetId packet)).get id = (r.remove id).get id := by rw [h.1]
        grind
      rw [hid, hget, Option.some.injEq] at hwaiter
      exact ⟨hid, hwaiter ▸ hanswers⟩
  · intro h
    obtain ⟨hid, hanswers⟩ := h
    subst hid
    exact ⟨entry, hget, complete_of_answers hget hanswers⟩

/-- `validate_upstream_response` looks at the QR bit, the ID and the question. -/
theorem validateUpstreamResponse_iff {question : List UInt8} :
    validateUpstreamResponse packet id.toNat question = .ok () ↔
      isReply packet = true ∧ packetId packet = id ∧
        SameQuestion (responseQuestion packet) question := by
  have hid : u16be packet 0 = id.toNat ↔ packetId packet = id := by
    rw [← toNat_packetId, UInt16.toNat_inj]
  have heq : validateUpstreamResponse packet id.toNat question =
      if !isReply packet then .error "response QR bit not set"
      else if u16be packet 0 ≠ id.toNat then .error "response ID mismatch"
      else if questionsMatch (responseQuestion packet) question then .ok ()
      else .error "response question mismatch" := rfl
  rw [← questionsMatch_iff, ← hid, heq]
  split_ifs with hreply hother hmatch
  · simp_all
  · simp_all
  · simp_all
  · simp_all

/-- The header tests that `complete` makes and `validate_upstream_response` does not. -/
def StandardHeader (packet : Packet) : Prop :=
  (byteAt packet 2 >>> 3) &&& 0x0f = 0 ∧ u16be packet 4 = 1

/-- The two validators agree on a packet exactly if it has the standard opcode and one question, or
fails for another reason: it is no reply, or carries another ID or another question. -/
theorem validators_agree_iff (r : InflightRegistry) (id : UInt16) (entry : InflightEntry)
    (packet : Packet) (hget : r.get id = some entry) :
    (r.DeliversUnder id packet ↔ validateUpstreamResponse packet id.toNat entry.question = .ok ()) ↔
      (StandardHeader packet ∨ isReply packet = false ∨ packetId packet ≠ id ∨
        ¬ SameQuestion (responseQuestion packet) entry.question) := by
  rw [deliversUnder_iff hget, validateUpstreamResponse_iff]
  constructor
  · intro hagree
    by_cases haccept : isReply packet = true ∧ packetId packet = id ∧
        SameQuestion (responseQuestion packet) entry.question
    · obtain ⟨-, hanswers⟩ := hagree.mpr haccept
      exact .inl ⟨hanswers.opcode, hanswers.oneQuestion⟩
    · simp only [not_and_or, Bool.not_eq_true] at haccept
      exact .inr haccept
  · intro hcond
    refine ⟨fun h => ⟨h.2.reply, h.1, h.2.same⟩, ?_⟩
    rintro ⟨hreply, hid, hsame⟩
    rcases hcond with ⟨hop, hone⟩ | hnot
    · exact ⟨hid, hreply, hop, hone, hsame⟩
    · simp [hreply, hid, hsame] at hnot

/-- The question for the A record of the root. -/
def rootQuestion : List UInt8 := [0, 0, 1, 0, 1]

/-- A registry with one query for `rootQuestion` under ID 1. -/
def oneWaiting : InflightRegistry := (new 0 0).insert 1 ⟨0, 7, rootQuestion, 0⟩

/-- A reply with ID 1 that asks `rootQuestion` once. -/
def rootReply : Packet := [0, 1, 0x80, 0, 0, 1, 0, 0, 0, 0, 0, 0] ++ rootQuestion

theorem validators_agree_on_rootReply :
    oneWaiting.DeliversUnder 1 rootReply ↔
      validateUpstreamResponse rootReply (1 : UInt16).toNat rootQuestion = .ok () :=
  (validators_agree_iff oneWaiting 1 ⟨0, 7, rootQuestion, 0⟩ rootReply Sharded.get_insert).mpr
    (.inl ⟨by decide, by decide⟩)

/-- A reply with ID 1 and two questions, the registered one and another. -/
def twoQuestionReply : Packet :=
  [0, 1, 0x80, 0, 0, 2, 0, 0, 0, 0, 0, 0] ++ rootQuestion ++ [0, 0, 28, 0, 1]

/-- The DoH, DoQ, H3 and TCP fallback validator accepts a reply with two questions that the registry
turns away. -/
theorem two_questions_accepted :
    oneWaiting.get 1 = some ⟨0, 7, rootQuestion, 0⟩ ∧
      validateUpstreamResponse twoQuestionReply 1 rootQuestion = .ok () ∧
      (oneWaiting.complete twoQuestionReply).outcome = .noWaiter := by
  refine ⟨Sharded.get_insert, ?_, ?_⟩
  · decide +kernel
  · decide +kernel

end InflightRegistry

end PathDns
