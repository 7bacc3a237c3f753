import Mathlib.Data.List.Forall2
import PathDns.Lib.Bytes

/-!
# Fallible computations and the reading of a byte stream

First what a computation that has returned a result has gone through.

A reader consumes a prefix of a byte string and returns the rest, or fails. Each read undoes the write
of the same shape in front of any tail; `many` reads a given number of items.
-/

namespace Fallible

variable {α β ε : Type} {x : Except ε α} {b : β}

theorem bind_eq_ok_iff {f : α → Except ε β} : (x >>= f) = .ok b ↔ ∃ a, x = .ok a ∧ f a = .ok b := by
  cases x <;> simp [bind, Except.bind]

theorem map_eq_ok_iff {f : α → β} : x.map f = .ok b ↔ ∃ a, x = .ok a ∧ f a = b := by
  cases x <;> simp [Except.map]

theorem toOption_eq_some_iff {a : α} : x.toOption = some a ↔ x = .ok a := by
  cases x <;> simp [Except.toOption]

theorem mapM_eq_ok_iff {f : α → Except ε β} {xs : List α} {ys : List β} :
    xs.mapM f = .ok ys ↔ List.Forall₂ (fun x y => f x = .ok y) xs ys := by
  induction xs generalizing ys with
  | nil => simp [pure, Except.pure, eq_comm]
  | cons x xs ih =>
    simp only [List.mapM_cons, bind_eq_ok_iff, ih, pure, Except.pure, Except.ok.injEq, List.forall₂_cons_left_iff,
      exists_and_left, eq_comm (b := ys)]

theorem exists_mapM {f : α → Except ε β} {xs : List α} (h : ∀ x ∈ xs, ∃ y, f x = .ok y) :
    ∃ ys, xs.mapM f = .ok ys := by
  induction xs with
  | nil => exact ⟨[], rfl⟩
  | cons x xs ih =>
    obtain ⟨y, hy⟩ := h x List.mem_cons_self
    obtain ⟨ys, hys⟩ := ih (fun z hz => h z (List.mem_cons_of_mem x hz))
    exact ⟨y :: ys, mapM_eq_ok_iff.mpr (.cons hy (mapM_eq_ok_iff.mp hys))⟩

theorem forM_eq_ok_iff {f : α → Except ε Unit} {xs : List α} : xs.forM f = .ok () ↔ ∀ x ∈ xs, f x = .ok () := by
  induction xs with
  | nil => simp [pure, Except.pure]
  | cons x xs ih =>
    change (f x >>= fun _ => xs.forM f) = _ ↔ _
    rw [bind_eq_ok_iff, List.forall_mem_cons, ← ih]
    exact ⟨fun ⟨⟨⟩, h⟩ => h, fun h => ⟨_, h⟩⟩

/-- Each result of a `mapM` comes from the element at its place. -/
theorem of_getElem?_mapM {f : α → Except ε β} {xs : List α} {ys : List β} {k : Nat} {y : β}
    (h : xs.mapM f = .ok ys) (hy : ys[k]? = some y) : ∃ x, xs[k]? = some x ∧ f x = .ok y := by
  obtain ⟨hlen, hall⟩ := List.forall₂_iff_get.mp (mapM_eq_ok_iff.mp h)
  obtain ⟨hk, rfl⟩ := List.getElem?_eq_some_iff.mp hy
  exact ⟨xs[k], List.getElem?_eq_getElem (hlen ▸ hk), hall k (hlen ▸ hk) hk⟩

end Fallible

namespace Reader

open Bytes

/-- Consume a prefix, or fail. -/
abbrev Read (α : Type) := List UInt8 → Except String (α × List UInt8)

/-- `read_exact` of `n` bytes. -/
def exact (n : Nat) : Read (List UInt8) := fun input =>
  if input.length < n then .error "failed to fill whole buffer" else .ok (input.take n, input.drop n)

/-- A little-endian integer of `w` bytes. -/
def le (w : Nat) : Read Nat := fun input => do
  let (bytes, rest) ← exact w input
  return (decLe bytes, rest)

/-- The error for a byte string over the limit. -/
def tooLarge (len limit : Nat) : String :=
  s!"persisted byte field too large ({len} > {limit}); file is likely corrupt"

/-- A byte string behind its 32-bit length, of at most `limit` bytes. -/
def sized (limit : Nat) : Read (List UInt8) := fun input => do
  let (len, rest) ← le 4 input
  if limit < len then throw (tooLarge len limit)
  exact len rest

/-- The bytes `sized` reads. -/
def encSized (bytes : List UInt8) : List UInt8 := encLe 4 bytes.length ++ bytes

/-- `n` items one after the other. -/
def many {α : Type} (item : Read α) : Nat → Read (List α)
  | 0, input => .ok ([], input)
  | n + 1, input => do
    let (x, rest) ← item input
    let (xs, rest) ← many item n rest
    return (x :: xs, rest)

variable {bytes : List UInt8}

theorem exact_append {n : Nat} (h : bytes.length = n) (tail : List UInt8) :
    exact n (bytes ++ tail) = .ok (bytes, tail) := by
  subst h
  simp [exact]

theorem le_append_mod (w n : Nat) (tail : List UInt8) :
    le w (encLe w n ++ tail) = .ok (n % 256 ^ w, tail) := by
  simp [le, exact_append (length_encLe w n), bind, Except.bind, pure, Except.pure, decLe_encLe_mod]

theorem le_append {w n : Nat} (h : n < 256 ^ w) (tail : List UInt8) :
    le w (encLe w n ++ tail) = .ok (n, tail) := by
  rw [le_append_mod, Nat.mod_eq_of_lt h]

theorem sized_append {limit : Nat} (hlimit : bytes.length ≤ limit) (h : bytes.length < 256 ^ 4)
    (tail : List UInt8) : sized limit (encSized bytes ++ tail) = .ok (bytes, tail) := by
  rw [sized, encSized, List.append_assoc, le_append h]
  simp [bind, Except.bind, if_neg (Nat.not_lt.mpr hlimit), exact_append]

theorem sized_append_error {limit : Nat} (hlimit : limit < bytes.length) (h : bytes.length < 256 ^ 4)
    (tail : List UInt8) : sized limit (encSized bytes ++ tail) = .error (tooLarge bytes.length limit) := by
  rw [sized, encSized, List.append_assoc, le_append h]
  simp [bind, Except.bind, hlimit, throw, throwThe, MonadExceptOf.throw]

theorem many_flatMap {α : Type} {item : Read α} {enc : α → List UInt8} {xs : List α}
    (h : ∀ x ∈ xs, ∀ tail, item (enc x ++ tail) = .ok (x, tail)) (tail : List UInt8) :
    many item xs.length (xs.flatMap enc ++ tail) = .ok (xs, tail) := by
  induction xs with
  | nil => rfl
  | cons x xs ih =>
    have hx := h x List.mem_cons_self (xs.flatMap enc ++ tail)
    have hxs := ih (fun y hy => h y (List.mem_cons_of_mem _ hy))
    simp [many, List.flatMap_cons, List.append_assoc, hx, hxs, bind, Except.bind, pure, Except.pure]

end Reader
