import Mathlib.Data.List.Basic
import Mathlib.Data.List.Forall2

/-!
# Texts that can be read back

When values are written one after the other, a value can be read back if its text cannot be confused with
the text of another value, given what may come next. Two texts are `Apart` before continuations of a kind
when equal concatenations force them to be equal; an encoding whose texts are pairwise apart and that is
injective is `Readable`.

Texts without certain letters are apart before these letters. Texts joined by a separator are apart when
their parts are apart before the separator and before what ends the sequence; parts that never begin with
the end also determine how many there are.
-/

namespace Reading

variable {α β γ : Type}

/-- Before continuations of kind `K` the two texts are not confused. -/
def Apart (K : List α → Prop) (t u : List α) : Prop :=
  ∀ r r', K r → K r' → t ++ r = u ++ r' → t = u

/-- The text begins with one of the letters. -/
def Starts (S : List α) (r : List α) : Prop := ∃ c ∈ S, ∃ r', r = c :: r'

/-- Any text. -/
def Anything (_ : List α) : Prop := True

/-- The encoding can be read back before continuations of kind `K`. -/
structure Readable (K : List α → Prop) (f : β → List α) : Prop where
  apart : ∀ x y, Apart K (f x) (f y)
  inj : Function.Injective f

variable {K L : List α → Prop} {S T : List α} {t u r r' : List α}

theorem Apart.mono (h : Apart K t u) (hLK : ∀ r, L r → K r) : Apart L t u :=
  fun r r' hr hr' heq => h r r' (hLK r hr) (hLK r' hr') heq

theorem starts_cons {c : α} (h : c ∈ S) : Starts S (c :: r) := ⟨c, h, r, rfl⟩

theorem Starts.mono (h : Starts S r) (hST : S ⊆ T) : Starts T r := by
  obtain ⟨c, hc, r', rfl⟩ := h
  exact starts_cons (hST hc)

/-- Texts without the letters are apart before them. -/
theorem apart_of_free (ht : ∀ c ∈ t, c ∉ S) (hu : ∀ c ∈ u, c ∉ S) : Apart (Starts S) t u := by
  rintro r r' ⟨c, hc, r, rfl⟩ ⟨c', hc', r', rfl⟩ heq
  induction t generalizing u with
  | nil =>
    cases u with
    | nil => rfl
    | cons d u =>
      obtain ⟨rfl, -⟩ := List.cons.inj heq
      exact absurd hc (hu c List.mem_cons_self)
  | cons d t ih =>
    cases u with
    | nil =>
      obtain ⟨rfl, -⟩ := List.cons.inj heq
      exact absurd hc' (ht d List.mem_cons_self)
    | cons d' u =>
      obtain ⟨rfl, htail⟩ := List.cons.inj heq
      rw [ih (fun x hx => ht x (List.mem_cons_of_mem _ hx))
        (fun x hx => hu x (List.mem_cons_of_mem _ hx)) htail]

namespace Readable

variable {f : β → List α}

theorem mono (h : Readable K f) (hLK : ∀ r, L r → K r) : Readable L f where
  apart := fun x y => (h.apart x y).mono hLK
  inj := h.inj

theorem of_anything (h : Readable Anything f) : Readable K f := h.mono (fun _ _ => trivial)

theorem subset (h : Readable (Starts S) f) (hTS : T ⊆ S) : Readable (Starts T) f :=
  h.mono (fun _ hr => hr.mono hTS)

theorem comp (h : Readable K f) {g : γ → β} (hg : Function.Injective g) :
    Readable K (fun x => f (g x)) where
  apart := fun x y => h.apart (g x) (g y)
  inj := h.inj.comp hg

theorem of_free (hinj : Function.Injective f) (hfree : ∀ x, ∀ c ∈ f x, c ∉ S) :
    Readable (Starts S) f where
  apart := fun x y => apart_of_free (hfree x) (hfree y)
  inj := hinj

theorem of_reads (h : ∀ x y r r', f x ++ r = f y ++ r' → x = y) : Readable Anything f where
  apart := by
    intro x y r r' _ _ heq
    rw [h x y r r' heq]
  inj := fun x y heq => h x y [] [] (by rw [heq])

theorem reads (h : Readable K f) {x y : β} (hr : K r) (hr' : K r') (heq : f x ++ r = f y ++ r') :
    x = y ∧ r = r' := by
  have ht := h.apart x y r r' hr hr' heq
  rw [ht] at heq
  exact ⟨h.inj ht, List.append_cancel_left heq⟩

end Readable

/-! ### Sequences -/

/-- A sequence is read back item by item, when no item is confused with the end. -/
theorem flatMap_inj {f : β → List α} {R : β → β → Prop} {e e' : List α} {xs ys : List β}
    (hitem : ∀ x ∈ xs, ∀ y ∈ ys, ∀ zs zs' : List β,
      f x ++ (zs.flatMap f ++ e) = f y ++ (zs'.flatMap f ++ e') →
        R x y ∧ zs.flatMap f ++ e = zs'.flatMap f ++ e')
    (hend : ∀ y ∈ ys, ∀ zs : List β, e ≠ f y ++ (zs.flatMap f ++ e'))
    (hend' : ∀ x ∈ xs, ∀ zs : List β, e' ≠ f x ++ (zs.flatMap f ++ e))
    (h : xs.flatMap f ++ e = ys.flatMap f ++ e') : List.Forall₂ R xs ys ∧ e = e' := by
  induction xs generalizing ys with
  | nil =>
    cases ys with
    | nil => exact ⟨.nil, h⟩
    | cons y ys =>
      rw [List.flatMap_cons, List.append_assoc] at h
      exact absurd h (hend y List.mem_cons_self ys)
  | cons x xs ih =>
    rw [List.flatMap_cons, List.append_assoc] at h
    cases ys with
    | nil => exact absurd h.symm (hend' x List.mem_cons_self xs)
    | cons y ys =>
      rw [List.flatMap_cons, List.append_assoc] at h
      obtain ⟨hxy, h⟩ := hitem x List.mem_cons_self y List.mem_cons_self xs ys h
      obtain ⟨hrest, heq⟩ := ih
        (fun x hx y hy => hitem x (List.mem_cons_of_mem _ hx) y (List.mem_cons_of_mem _ hy))
        (fun y hy => hend y (List.mem_cons_of_mem _ hy)) (fun x hx => hend' x (List.mem_cons_of_mem _ hx)) h
      exact ⟨.cons hxy hrest, heq⟩

theorem flatMap_injective {f : β → List α} (hne : ∀ x, f x ≠ [])
    (hitem : ∀ x y r r', f x ++ r = f y ++ r' → x = y ∧ r = r') :
    Function.Injective (fun xs : List β => xs.flatMap f) := by
  intro xs ys h
  have hend : ∀ x r, [] ≠ f x ++ r := fun x r h => hne x (List.append_eq_nil_iff.mp h.symm).1
  have hread := @flatMap_inj _ _ f Eq [] [] xs ys (fun x _ y _ _ _ => hitem x y _ _)
    (fun y _ _ => hend y _) (fun x _ _ => hend x _) (by simpa using h)
  simpa using hread.1

/-! ### Joined texts -/

section Joined

variable {c stop : α} {s : List α}

theorem intercalate_cons_eq {parts : List (List α)} {p : List α} :
    (c :: s).intercalate (p :: parts) = p ++ parts.flatMap (c :: s ++ ·) := by
  induction parts generalizing p with
  | nil => simp
  | cons q parts ih => simp [List.intercalate_cons_cons, ih]

theorem starts_flatMap (parts : List (List α)) :
    Starts [c, stop] (parts.flatMap (c :: s ++ ·) ++ stop :: r) := by
  cases parts <;> exact starts_cons (by simp)

theorem joined_inj {ps qs : List (List α)} (h : List.Forall₂ (Apart (Starts [c, stop])) ps qs)
    (heq : (c :: s).intercalate ps ++ stop :: r = (c :: s).intercalate qs ++ stop :: r') :
    ps = qs ∧ r = r' := by
  induction h with
  | nil => simpa using heq
  | @cons p q ps qs hpq hrest ih =>
    have hread := heq
    rw [intercalate_cons_eq, intercalate_cons_eq, List.append_assoc, List.append_assoc] at hread
    obtain rfl := hpq _ _ (starts_flatMap ps) (starts_flatMap qs) hread
    cases hrest with
    | nil => simpa using heq
    | cons hpq' hrest' =>
      rw [List.intercalate_cons_cons, List.intercalate_cons_cons] at heq
      simp only [List.append_assoc] at heq
      have hrec := ih (List.append_cancel_left (List.append_cancel_left heq))
      exact ⟨by rw [hrec.1], hrec.2⟩

/-- Parts that do not begin with the end of the sequence determine the sequence. -/
theorem joined_list_inj {f : β → List α} (hf : Readable (Starts [c, stop]) f) (hc : c ≠ stop)
    (hstart : ∀ x, ∃ d ∈ (f x).head?, d ≠ stop) {xs ys : List β}
    (heq : (c :: s).intercalate (xs.map f) ++ stop :: r = (c :: s).intercalate (ys.map f) ++ stop :: r') :
    xs = ys ∧ r = r' := by
  have hne : ∀ (x : β) (r r' : List α), stop :: r ≠ f x ++ r' := by
    intro x r r' h
    obtain ⟨d, hd, hne⟩ := hstart x
    obtain ⟨rest, hd⟩ := List.head?_eq_some_iff.mp hd
    rw [hd] at h
    exact hne (List.cons.inj h).1.symm
  have hitem : ∀ (x y : β) (xs ys : List (List α)),
      f x ++ (xs.flatMap (c :: s ++ ·) ++ stop :: r) = f y ++ (ys.flatMap (c :: s ++ ·) ++ stop :: r') →
        x = y ∧ xs.flatMap (c :: s ++ ·) ++ stop :: r = ys.flatMap (c :: s ++ ·) ++ stop :: r' :=
    fun x y xs ys => hf.reads (starts_flatMap xs) (starts_flatMap ys)
  cases xs with
  | nil =>
    cases ys with
    | nil => simpa using heq
    | cons y ys =>
      rw [List.map_cons, intercalate_cons_eq, List.append_assoc] at heq
      exact absurd heq (hne y _ _)
  | cons x xs =>
    rw [List.map_cons, intercalate_cons_eq, List.append_assoc] at heq
    cases ys with
    | nil => exact absurd heq.symm (hne x _ _)
    | cons y ys =>
      rw [List.map_cons, intercalate_cons_eq, List.append_assoc] at heq
      obtain ⟨rfl, htail⟩ := hitem x y _ _ heq
      rw [List.flatMap_map, List.flatMap_map] at htail
      obtain ⟨hrest, hend⟩ := @flatMap_inj _ _ (fun z => c :: s ++ f z) Eq _ _ xs ys (by
        intro z _ z' _ zs zs' h
        rw [List.append_assoc, List.append_assoc] at h
        have hread := hitem z z' (zs.map f) (zs'.map f)
        rw [List.flatMap_map, List.flatMap_map] at hread
        exact hread (List.append_cancel_left h))
        (fun _ _ _ h => hc (List.cons.inj h).1.symm) (fun _ _ _ h => hc (List.cons.inj h).1.symm) htail
      rw [List.forall₂_eq_eq_eq] at hrest
      exact ⟨by rw [hrest], (List.cons.inj hend).2⟩

end Joined

/-! ### Framed sequences -/

section Framed

variable {τ : Type} {b : α → τ} {sep : τ}

/-- Texts one after the other, each with a separator that is no letter. -/
def framed (b : α → τ) (sep : τ) (texts : List (List α)) : List τ :=
  texts.flatMap (fun t => t.map b ++ [sep])

theorem framed_injective (hb : Function.Injective b) (hsep : ∀ x, b x ≠ sep) :
    Function.Injective (framed b sep) := by
  have hfree : ∀ t : List α, ∀ y ∈ t.map b, y ∉ [sep] := by
    intro t y hy hmem
    obtain ⟨x, -, rfl⟩ := List.mem_map.mp hy
    exact hsep x (List.mem_singleton.mp hmem)
  have hread : Readable (Starts [sep]) (fun t : List α => t.map b) :=
    .of_free (List.map_injective_iff.mpr hb) hfree
  apply flatMap_injective (by simp)
  intro t u r r' h
  simp only [List.append_assoc, List.cons_append, List.nil_append] at h
  obtain ⟨rfl, hrest⟩ := hread.reads (starts_cons (by simp)) (starts_cons (by simp)) h
  exact ⟨rfl, (List.cons.inj hrest).2⟩

/-- Two sequences that end in letters without a mark agree up to the last marked letter. -/
theorem last_marked_inj {p : α → Prop} {xs xs' ys ys' : List α} {a a' : α} (ha : p a) (ha' : p a')
    (hys : ∀ y ∈ ys, ¬ p y) (hys' : ∀ y ∈ ys', ¬ p y) (h : xs ++ a :: ys = xs' ++ a' :: ys') :
    xs = xs' ∧ a = a' ∧ ys = ys' := by
  have hone : ∀ {xs xs' ys ys' zs : List α} {a a' : α}, p a' → (∀ y ∈ ys, ¬ p y) → xs' = xs ++ zs →
      a :: ys = zs ++ a' :: ys' → zs = [] := by
    intro xs xs' ys ys' zs a a' ha' hys _ htail
    cases zs with
    | nil => rfl
    | cons z zs =>
      have hmem : a' ∈ ys := by
        rw [(List.cons.inj htail).2]
        simp
      exact absurd ha' (hys a' hmem)
  rcases List.append_eq_append_iff.mp h with ⟨zs, hxs, htail⟩ | ⟨zs, hxs, htail⟩
  · have hnil := hone ha' hys hxs htail
    subst hnil
    simp only [List.nil_append, List.cons.injEq] at htail
    exact ⟨by simp [hxs], htail⟩
  · have hnil := hone ha hys' hxs htail
    subst hnil
    simp only [List.nil_append, List.cons.injEq] at htail
    exact ⟨by simp [hxs], htail.1.symm, htail.2.symm⟩

end Framed

end Reading
