import PathDns.Lib.Bytes
import PathDns.Lib.FinMap
import PathDns.Lib.Utf8

/-!
# The verdict cache (`verdict_cache.rs`)

Which side of a primary/secondary final a name was decided for. The capacity is that of a cache that may
forget bindings at any time, so it is not part of the state. Wall-clock times are whole seconds.
-/

namespace PathDns

structure VerdictEntry where
  isPrimary : Bool
  insertedUnix : Nat
deriving DecidableEq, Repr

abbrev VerdictMap := AList (fun _ : Utf8.Text => VerdictEntry)

structure VerdictCache where
  inner : Option VerdictMap
  ttlSecs : Nat

namespace VerdictCache

/-- `VerdictCache::new`, from the capacity and the TTL of its configuration. -/
def new (cfg : Option (Nat × Nat)) : VerdictCache :=
  match cfg with
  | none => ⟨none, 0⟩
  | some (capacity, ttl) => if capacity = 0 then ⟨none, 0⟩ else ⟨some ∅, ttl⟩

def enabled (c : VerdictCache) : Bool := c.inner.isSome

/-- `is_expired`; the deadline saturates. -/
def isExpired (c : VerdictCache) (insertedUnix now : Nat) : Bool :=
  0 < c.ttlSecs && min (insertedUnix + c.ttlSecs) (2 ^ 64 - 1) ≤ now

def get (c : VerdictCache) (now : Nat) (qname : Utf8.Text) : Option Bool :=
  match c.inner.bind (·.lookup qname) with
  | none => none
  | some entry => if c.isExpired entry.insertedUnix now then none else some entry.isPrimary

def invalidateAll (c : VerdictCache) : VerdictCache := { c with inner := c.inner.map (fun _ => ∅) }

def add (c : VerdictCache) (now : Nat) (qname : Utf8.Text) (isPrimaryDomain : Bool) : VerdictCache :=
  { c with inner := c.inner.map (·.insert qname ⟨isPrimaryDomain, now⟩) }

/-- A binding the cache forgets. -/
def remove (c : VerdictCache) (qname : Utf8.Text) : VerdictCache :=
  { c with inner := c.inner.map (·.erase qname) }

end VerdictCache

end PathDns
