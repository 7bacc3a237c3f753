import Mathlib.Data.List.Basic

/-!
# UTF-8 text

A text is a byte string that passes the UTF-8 check, so that its bytes can be written to a file and
read back. The check is the automaton of the well-formed byte sequences: how many continuation bytes
are still due, and in which range the next one lies.
-/

namespace Utf8

/-- One byte of the check: continuation bytes due, and the range of the next one. -/
def step : Nat × UInt8 × UInt8 → UInt8 → Option (Nat × UInt8 × UInt8)
  | (0, _, _), b =>
    if b < 0x80 then some (0, 0, 0)
    else if 0xc2 ≤ b ∧ b ≤ 0xdf then some (1, 0x80, 0xbf)
    else if b = 0xe0 then some (2, 0xa0, 0xbf)
    else if b = 0xed then some (2, 0x80, 0x9f)
    else if 0xe1 ≤ b ∧ b ≤ 0xef then some (2, 0x80, 0xbf)
    else if b = 0xf0 then some (3, 0x90, 0xbf)
    else if 0xf1 ≤ b ∧ b ≤ 0xf3 then some (3, 0x80, 0xbf)
    else if b = 0xf4 then some (3, 0x80, 0x8f)
    else none
  | (n + 1, lo, hi), b => if lo ≤ b ∧ b ≤ hi then some (n, 0x80, 0xbf) else none

/-- Whether the bytes are well-formed UTF-8. -/
def valid (bytes : List UInt8) : Bool :=
  match bytes.foldlM step (0, 0, 0) with
  | some (0, _, _) => true
  | _ => false

/-- A text: bytes that are well-formed UTF-8. -/
structure Text where
  bytes : List UInt8
  valid : valid bytes = true
deriving DecidableEq, Repr

theorem valid_letter : valid [97] = true := by decide

theorem Text.eq_of_bytes {a b : Text} (h : a.bytes = b.bytes) : a = b := by
  cases a
  cases b
  cases h
  rfl

def Text.fromUtf8 (bytes : List UInt8) : Option Text :=
  if h : Utf8.valid bytes = true then some ⟨bytes, h⟩ else none

theorem Text.fromUtf8_bytes (t : Text) : Text.fromUtf8 t.bytes = some t := by
  simp [fromUtf8, t.valid]

/-! ### Putting texts together -/

theorem step_zero (lo hi lo' hi' b : UInt8) : step (0, lo, hi) b = step (0, lo', hi') b := rfl

theorem foldlM_zero (lo hi : UInt8) (bytes : List UInt8) :
    (bytes.foldlM step (0, lo, hi)).map (·.1) = (bytes.foldlM step (0, 0, 0)).map (·.1) := by
  cases bytes with
  | nil => rfl
  | cons b bs => rw [List.foldlM_cons, List.foldlM_cons, step_zero lo hi 0 0]

variable {bytes : List UInt8}

theorem valid_iff : valid bytes = true ↔ (bytes.foldlM step (0, 0, 0)).map (·.1) = some 0 := by
  rw [valid]
  cases h : bytes.foldlM step (0, 0, 0) with
  | none => simp
  | some st =>
    obtain ⟨n, lo, hi⟩ := st
    cases n with
    | zero => simp
    | succ n => simp

theorem valid_append {a b : List UInt8} (ha : valid a = true) (hb : valid b = true) :
    valid (a ++ b) = true := by
  rw [valid_iff] at *
  obtain ⟨⟨n, lo, hi⟩, hst, hn⟩ := Option.map_eq_some_iff.mp ha
  obtain rfl : n = 0 := hn
  rw [List.foldlM_append, hst]
  exact (foldlM_zero lo hi b).trans hb

theorem step_ascii {b : UInt8} (h : b < 0x80) (lo hi : UInt8) : step (0, lo, hi) b = some (0, 0, 0) := by
  rw [step, if_pos h]

theorem valid_of_ascii (h : ∀ b ∈ bytes, b < 0x80) : valid bytes = true := by
  rw [valid_iff]
  induction bytes with
  | nil => rfl
  | cons b bs ih =>
    rw [List.foldlM_cons, step_ascii (h b List.mem_cons_self)]
    exact ih (fun c hc => h c (List.mem_cons_of_mem b hc))

/-- Continuation bytes are never ASCII. -/
def Due (st : Nat × UInt8 × UInt8) : Prop := st.1 = 0 ∨ 0x80 ≤ st.2.1

variable {st st' : Nat × UInt8 × UInt8}

theorem step_due {b : UInt8} (h : step st b = some st') : Due st' := by
  obtain ⟨n, lo, hi⟩ := st
  cases n with
  | zero =>
    rw [step] at h
    split_ifs at h <;> obtain rfl := Option.some.inj h
    · exact .inl rfl
    all_goals exact .inr (by decide)
  | succ n =>
    rw [step] at h
    split_ifs at h
    obtain rfl := Option.some.inj h
    exact .inr (UInt8.le_refl 0x80)

theorem foldlM_due (hst : Due st) (h : bytes.foldlM step st = some st') : Due st' := by
  induction bytes generalizing st with
  | nil => exact Option.some.inj h ▸ hst
  | cons b bs ih =>
    rw [List.foldlM_cons] at h
    obtain ⟨st1, hstep, hrest⟩ := Option.bind_eq_some_iff.mp h
    exact ih (step_due hstep) hrest

/-- An ASCII byte stands between characters, so a text can be cut there. -/
theorem valid_of_append_ascii {a b : List UInt8} {c : UInt8} (hc : c < 0x80)
    (h : valid (a ++ c :: b) = true) : valid a = true ∧ valid b = true := by
  rw [valid_iff] at *
  rw [valid_iff]
  obtain ⟨end', hfold, hend⟩ := Option.map_eq_some_iff.mp h
  rw [List.foldlM_append] at hfold
  obtain ⟨⟨n, lo, hi⟩, ha, hrest⟩ := Option.bind_eq_some_iff.mp hfold
  rw [List.foldlM_cons] at hrest
  obtain ⟨st, hstep, hb⟩ := Option.bind_eq_some_iff.mp hrest
  have hdue : Due (n, lo, hi) := foldlM_due (.inl rfl) ha
  cases n with
  | zero =>
    rw [step_ascii hc] at hstep
    obtain rfl := Option.some.inj hstep
    exact ⟨by rw [ha]; rfl, by rw [hb]; exact congrArg some hend⟩
  | succ n =>
    have hlo : (0x80 : UInt8) ≤ lo := hdue.resolve_left (Nat.succ_ne_zero n)
    rw [step, if_neg] at hstep
    · exact absurd hstep (by simp)
    · rintro ⟨hle, -⟩
      rw [UInt8.lt_iff_toNat_lt] at hc
      rw [UInt8.le_iff_toNat_le] at hle hlo
      omega

/-- A change of ASCII bytes to ASCII bytes. -/
structure AsciiMap (f : UInt8 → UInt8) : Prop where
  ascii : ∀ b, b < 0x80 → f b < 0x80
  other : ∀ b, ¬ b < 0x80 → f b = b

variable {f : UInt8 → UInt8}

theorem AsciiMap.step_eq (hf : AsciiMap f) (hst : Due st) (b : UInt8) : step st (f b) = step st b := by
  by_cases hb : b < 0x80
  · obtain ⟨n, lo, hi⟩ := st
    cases n with
    | zero => rw [step_ascii hb, step_ascii (hf.ascii b hb)]
    | succ n =>
      have hlo : (0x80 : UInt8) ≤ lo := hst.resolve_left (Nat.succ_ne_zero n)
      have hno : ∀ c : UInt8, c < 0x80 → ¬ (lo ≤ c ∧ c ≤ hi) := by
        rintro c hc ⟨hle, -⟩
        rw [UInt8.lt_iff_toNat_lt] at hc
        rw [UInt8.le_iff_toNat_le] at hle hlo
        omega
      rw [step, step, if_neg (hno b hb), if_neg (hno _ (hf.ascii b hb))]
  · rw [hf.other b hb]

theorem AsciiMap.foldlM_eq (hf : AsciiMap f) (hst : Due st) (bytes : List UInt8) :
    (bytes.map f).foldlM step st = bytes.foldlM step st := by
  induction bytes generalizing st with
  | nil => rfl
  | cons b bs ih =>
    rw [List.map_cons, List.foldlM_cons, List.foldlM_cons, hf.step_eq hst]
    cases h : step st b with
    | none => rfl
    | some st' => exact ih (step_due h)

theorem AsciiMap.valid_map (hf : AsciiMap f) (h : valid bytes = true) : valid (bytes.map f) = true := by
  rw [valid_iff] at *
  rw [hf.foldlM_eq (.inl rfl)]
  exact h

/-! ### Replacing what is not well-formed -/

/-- The bytes of U+FFFD. -/
def replacement : List UInt8 := [0xef, 0xbf, 0xbd]

/-- The loop of `from_utf8_lossy`: `pending` is the character that has begun. A byte that does not go on
with it replaces what has begun and is read again as the first of a character. -/
def lossyLoop : List UInt8 → (pending : List UInt8) → Nat × UInt8 × UInt8 → List UInt8
  | [], pending, _ => if pending.isEmpty then [] else replacement
  | b :: bs, pending, st =>
    match step st b with
    | some (0, _, _) => pending ++ [b] ++ lossyLoop bs [] (0, 0, 0)
    | some st' => lossyLoop bs (pending ++ [b]) st'
    | none =>
      if pending.isEmpty then replacement ++ lossyLoop bs [] (0, 0, 0)
      else
        replacement ++
          match step (0, 0, 0) b with
          | some (0, _, _) => [b] ++ lossyLoop bs [] (0, 0, 0)
          | some st' => lossyLoop bs [b] st'
          | none => replacement ++ lossyLoop bs [] (0, 0, 0)

/-- `String::from_utf8_lossy`. -/
def lossy (bytes : List UInt8) : List UInt8 := lossyLoop bytes [] (0, 0, 0)

/-- The state is the one the begun character leads to. -/
def Begun (pending : List UInt8) (st : Nat × UInt8 × UInt8) : Prop :=
  pending.foldlM step (0, 0, 0) = some st ∧ (pending = [] ∨ st.1 ≠ 0)

theorem begun_nil : Begun [] (0, 0, 0) := ⟨rfl, .inl rfl⟩

variable {pending : List UInt8}

theorem Begun.foldlM_concat {b : UInt8} (h : Begun pending st) (hb : step st b = some st') :
    (pending ++ [b]).foldlM step (0, 0, 0) = some st' := by
  rw [List.foldlM_append, h.1, Option.bind_eq_bind, Option.bind_some, List.foldlM_cons, hb]
  rfl

theorem valid_replacement : valid replacement = true := by decide

theorem valid_lossyLoop (h : Begun pending st) : valid (lossyLoop bytes pending st) = true := by
  induction bytes generalizing pending st with
  | nil =>
    rw [lossyLoop]
    split_ifs
    · rfl
    · exact valid_replacement
  | cons b bs ih =>
    -- a complete character in front, and one that has begun
    have hdone : ∀ {pending st lo hi}, Begun pending st → step st b = some (0, lo, hi) →
        valid (pending ++ [b]) = true := by
      intro pending st lo hi hst hb
      rw [valid_iff, hst.foldlM_concat hb]
      rfl
    have hmore : ∀ {pending st n lo hi}, Begun pending st → step st b = some (n + 1, lo, hi) →
        Begun (pending ++ [b]) (n + 1, lo, hi) :=
      fun hst hb => ⟨hst.foldlM_concat hb, .inr (Nat.succ_ne_zero _)⟩
    rw [lossyLoop]
    split
    · next lo hi hb => exact valid_append (hdone h hb) (ih begun_nil)
    · next st' hne hb =>
      obtain ⟨n, lo, hi⟩ := st'
      cases n with
      | zero => exact absurd rfl (hne lo hi)
      | succ n => exact ih (hmore h hb)
    · split_ifs
      · exact valid_append valid_replacement (ih begun_nil)
      · apply valid_append valid_replacement
        split
        · next lo hi hb => exact valid_append (hdone begun_nil hb) (ih begun_nil)
        · next st' hne hb =>
          obtain ⟨n, lo, hi⟩ := st'
          cases n with
          | zero => exact absurd rfl (hne lo hi)
          | succ n => exact ih (hmore begun_nil hb)
        · exact valid_append valid_replacement (ih begun_nil)

theorem lossyLoop_of_valid (h : Begun pending st) (hvalid : (bytes.foldlM step st).map (·.1) = some 0) :
    lossyLoop bytes pending st = pending ++ bytes := by
  induction bytes generalizing pending st with
  | nil =>
    have hzero : st.1 = 0 := by simpa using hvalid
    rw [h.2.resolve_right (not_not.mpr hzero)]
    rfl
  | cons b bs ih =>
    rw [List.foldlM_cons] at hvalid
    rw [lossyLoop]
    cases hb : step st b with
    | none => simp [hb] at hvalid
    | some st' =>
      rw [hb, Option.bind_eq_bind, Option.bind_some] at hvalid
      obtain ⟨n, lo, hi⟩ := st'
      cases n with
      | zero =>
        rw [foldlM_zero] at hvalid
        simp only
        rw [ih begun_nil hvalid]
        simp
      | succ n =>
        simp only
        rw [ih ⟨h.foldlM_concat hb, .inr (Nat.succ_ne_zero n)⟩ hvalid]
        simp

theorem lossy_of_valid (h : valid bytes = true) : lossy bytes = bytes :=
  lossyLoop_of_valid begun_nil (valid_iff.mp h)

theorem replacement_ne_nil : replacement ≠ [] := by decide

theorem lossyLoop_ne_nil (h : pending ≠ [] ∨ bytes ≠ []) : lossyLoop bytes pending st ≠ [] := by
  induction bytes generalizing pending st with
  | nil =>
    have hp := h.resolve_right (not_not.mpr rfl)
    rw [lossyLoop, if_neg (by simpa using hp)]
    exact replacement_ne_nil
  | cons b bs ih =>
    rw [lossyLoop]
    split
    · simp
    · exact ih (.inl (by simp))
    · split_ifs <;> simp [replacement]

theorem lossy_ne_nil (h : bytes ≠ []) : lossy bytes ≠ [] := lossyLoop_ne_nil (.inr h)

/-- A replacement character has three bytes and stands for at least one. -/
theorem length_lossyLoop_le (bytes pending : List UInt8) (st : Nat × UInt8 × UInt8) :
    (lossyLoop bytes pending st).length ≤ 3 * (pending.length + bytes.length) := by
  have hreplacement : replacement.length = 3 := rfl
  induction bytes generalizing pending st with
  | nil =>
    rw [lossyLoop]
    split_ifs with hp
    · exact Nat.zero_le _
    · have hpos : 0 < pending.length := List.length_pos_iff.mpr (by simpa using hp)
      omega
  | cons b bs ih =>
    have hclean := ih [] (0, 0, 0)
    rw [List.length_nil] at hclean
    rw [lossyLoop, List.length_cons]
    split
    · simp only [List.length_append, List.length_singleton]
      omega
    · next st' _ _ =>
      have hgoes := ih (pending ++ [b]) st'
      rw [List.length_append, List.length_singleton] at hgoes
      omega
    · split_ifs with hp
      · rw [List.length_append]
        omega
      · -- the character that had begun is replaced, and the byte begins a new one
        have hpos : 0 < pending.length := List.length_pos_iff.mpr (by simpa using hp)
        rw [List.length_append]
        split
        · rw [List.length_append, List.length_singleton]
          omega
        · next st' _ _ =>
          have hbegins := ih [b] st'
          rw [List.length_singleton] at hbegins
          omega
        · rw [List.length_append]
          omega

theorem length_lossy_le (bytes : List UInt8) : (lossy bytes).length ≤ 3 * bytes.length := by
  have h := length_lossyLoop_le bytes [] (0, 0, 0)
  rwa [List.length_nil, Nat.zero_add] at h

namespace Text

/-- The empty string. -/
def empty : Text := ⟨[], rfl⟩

/-- `push_str`. -/
def append (a b : Text) : Text := ⟨a.bytes ++ b.bytes, valid_append a.valid b.valid⟩

/-- ASCII bytes pushed as characters. -/
def ofAscii (bytes : List UInt8) (h : ∀ b ∈ bytes, b < 0x80) : Text := ⟨bytes, valid_of_ascii h⟩

def fromUtf8Lossy (bytes : List UInt8) : Text := ⟨lossy bytes, valid_lossyLoop begun_nil⟩

/-- A change of the ASCII characters. -/
def mapAscii (f : UInt8 → UInt8) (hf : AsciiMap f) (t : Text) : Text :=
  ⟨t.bytes.map f, hf.valid_map t.valid⟩

end Text

end Utf8
