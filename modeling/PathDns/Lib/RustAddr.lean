import PathDns.Lib.RustFmt

/-!
# Texts of network addresses

The texts of IPv4 and IPv6 addresses in Rust, and that no two addresses share one. An IPv6 text is cut at
its colons: the parts before and after the empty part are the segments around the compressed zeros, and
the number of the zeros follows from the number of the parts.
-/

namespace RustFmt

open Reading

/-- Octet `i` of an IPv4 address, from the left. -/
def octet (a : BitVec 32) (i : Nat) : Nat := (a >>> (8 * (3 - i))).toNat % 256

/-- `Display` and `Debug` of an IPv4 address. -/
def ipv4Text (a : BitVec 32) : Text :=
  ['.'].intercalate [dec (octet a 0), dec (octet a 1), dec (octet a 2), dec (octet a 3)]

/-- The segments of an IPv6 address. -/
def segments (a : BitVec 128) : List Nat :=
  (List.range 8).map (fun i => (a >>> (16 * (7 - i))).toNat % 65536)

/-- The start and length of the longest run of zero segments, the first of several. -/
def longestZeros : List Nat → Nat → Nat × Nat → Nat × Nat → Nat × Nat
  | [], _, _, longest => longest
  | s :: ss, i, current, longest =>
    if s = 0 then
      let current := (if current.2 = 0 then i else current.1, current.2 + 1)
      longestZeros ss (i + 1) current (if longest.2 < current.2 then current else longest)
    else longestZeros ss (i + 1) (0, 0) longest

/-- `Display` and `Debug` of an IPv6 address. -/
def ipv6Text (a : BitVec 128) : Text :=
  let segs := segments a
  if segs.take 6 = [0, 0, 0, 0, 0, 0xffff] then lit "::ffff:" ++ ipv4Text (a.setWidth 32)
  else
    let zeroes := longestZeros segs 0 (0, 0) (0, 0)
    if 1 < zeroes.2 then
      [':'].intercalate ((segs.take zeroes.1).map hex) ++ [':', ':'] ++
        [':'].intercalate ((segs.drop (zeroes.1 + zeroes.2)).map hex)
    else [':'].intercalate (segs.map hex)

example : ipv6Text 0x20010db8000000000000000000000001#128 = "2001:db8::1".toList := by decide +kernel

example : ipv6Text 0xffff01020304#128 = "::ffff:1.2.3.4".toList := by decide +kernel

/-! ### IPv4 -/

theorem octet_eq (a : BitVec 32) (i : Nat) : octet a i = a.toNat / 2 ^ (8 * (3 - i)) % 256 := by
  rw [octet, BitVec.toNat_ushiftRight, Nat.shiftRight_eq_div_pow]

theorem ipv4Text_injective : Function.Injective ipv4Text := by
  intro a b h
  have hdot : ∀ n, '.' ∉ dec n := fun n hmem => dec_free (S := ['.']) (by decide) n _ hmem (by simp)
  have hparts := congrArg (List.splitOn '.') h
  rw [ipv4Text, ipv4Text, List.splitOn_intercalate '.' (by simp [hdot]) (by simp),
    List.splitOn_intercalate '.' (by simp [hdot]) (by simp)] at hparts
  simp only [List.cons.injEq, dec_injective.eq_iff, octet_eq, and_true] at hparts
  apply BitVec.eq_of_toNat_eq
  have ha := a.isLt
  have hb := b.isLt
  omega

variable {S : List Char}

theorem ipv4Text_free (hS : ∀ d < 16, Nat.digitChar d ∉ S) (hdot : '.' ∉ S) (a : BitVec 32) :
    ∀ c ∈ ipv4Text a, c ∉ S := by
  intro c hc
  simp only [ipv4Text, List.intercalate_cons_cons, List.intercalate_singleton, List.mem_append,
    List.mem_singleton] at hc
  rcases hc with (hc | rfl) | (hc | rfl) | (hc | rfl) | hc
  · exact dec_free hS _ c hc
  · exact hdot
  · exact dec_free hS _ c hc
  · exact hdot
  · exact dec_free hS _ c hc
  · exact hdot
  · exact dec_free hS _ c hc

/-! ### IPv6 -/

theorem segments_eq (a : BitVec 128) : segments a =
    (List.range 8).map (fun i => a.toNat / 2 ^ (16 * (7 - i)) % 65536) := by
  apply List.map_congr_left
  intro i _
  rw [BitVec.toNat_ushiftRight, Nat.shiftRight_eq_div_pow]

theorem length_segments (a : BitVec 128) : (segments a).length = 8 := by simp [segments]

theorem div_eq_of_segment {m n : Nat} (i : Nat) (hhigh : m / 2 ^ (i + 16) = n / 2 ^ (i + 16))
    (hlow : m / 2 ^ i % 65536 = n / 2 ^ i % 65536) : m / 2 ^ i = n / 2 ^ i := by
  rw [Nat.pow_add, ← Nat.div_div_eq_div_mul, ← Nat.div_div_eq_div_mul] at hhigh
  omega

theorem segments_injective : Function.Injective segments := by
  intro a b h
  rw [segments_eq, segments_eq] at h
  simp only [List.range_succ, List.range_zero, List.nil_append, List.cons_append, List.map_cons,
    List.map_nil, List.cons.injEq, and_true, Nat.reduceMul, Nat.reduceSub] at h
  obtain ⟨h0, h1, h2, h3, h4, h5, h6, h7⟩ := h
  apply BitVec.eq_of_toNat_eq
  -- from the highest segment down
  have hd := div_eq_of_segment 112
    (by rw [Nat.div_eq_of_lt a.isLt, Nat.div_eq_of_lt b.isLt]) h0
  have hd := div_eq_of_segment 96 hd h1
  have hd := div_eq_of_segment 80 hd h2
  have hd := div_eq_of_segment 64 hd h3
  have hd := div_eq_of_segment 48 hd h4
  have hd := div_eq_of_segment 32 hd h5
  have hd := div_eq_of_segment 16 hd h6
  have hd := div_eq_of_segment 0 hd h7
  simpa using hd

variable {a : BitVec 128}

theorem mapped_inj {b : BitVec 128} (ha : (segments a).take 6 = [0, 0, 0, 0, 0, 0xffff])
    (hb : (segments b).take 6 = [0, 0, 0, 0, 0, 0xffff]) (h : a.setWidth 32 = b.setWidth 32) : a = b := by
  rw [segments_eq] at ha hb
  simp only [List.range_succ, List.range_zero, List.nil_append, List.cons_append, List.map_cons,
    List.map_nil, List.take_succ_cons, List.take_zero, List.cons.injEq, and_true, Nat.reduceMul,
    Nat.reduceSub, Nat.reducePow] at ha hb
  have hlow := congrArg BitVec.toNat h
  rw [BitVec.toNat_setWidth, BitVec.toNat_setWidth] at hlow
  apply BitVec.eq_of_toNat_eq
  have ha' := a.isLt
  have hb' := b.isLt
  omega

/-- The segments of the run are zero. -/
def ZeroRun (all : List Nat) (run : Nat × Nat) : Prop :=
  ∀ k, run.1 ≤ k → k < run.1 + run.2 → all[k]? = some 0

variable {all : List Nat}

theorem ZeroRun.extend {current : Nat × Nat} {i : Nat} (h : ZeroRun all current)
    (hend : current.2 = 0 ∨ current.1 + current.2 = i) (hi : all[i]? = some 0) :
    ZeroRun all (if current.2 = 0 then i else current.1, current.2 + 1) := by
  intro k hk hk'
  simp only at hk hk'
  by_cases hki : k = i
  · rw [hki]
    exact hi
  · split_ifs at hk hk' with hnew
    · omega
    · exact h k hk (by omega)

theorem longestZeros_zeroRun {ss : List Nat} {i : Nat} {current longest : Nat × Nat} (hss : all.drop i = ss)
    (hcurrent : ZeroRun all current) (hend : current.2 = 0 ∨ current.1 + current.2 = i)
    (hlongest : ZeroRun all longest) : ZeroRun all (longestZeros ss i current longest) := by
  induction ss generalizing i current longest with
  | nil => exact hlongest
  | cons s ss ih =>
    have hnext : all.drop (i + 1) = ss := by
      rw [← List.tail_drop, hss, List.tail_cons]
    have hhead : all[i]? = some s := by
      rw [← List.head?_drop, hss, List.head?_cons]
    rw [longestZeros]
    by_cases hs : s = 0
    · rw [if_pos hs]
      have hrun := hcurrent.extend hend (hs ▸ hhead)
      apply ih hnext hrun
      · right
        simp only
        split_ifs <;> omega
      · by_cases hlong : longest.2 < current.2 + 1
        · rw [if_pos hlong]
          exact hrun
        · rw [if_neg hlong]
          exact hlongest
    · rw [if_neg hs]
      exact ih hnext (fun k hk hk' => absurd hk' (by simp)) (.inl rfl) hlongest

theorem ZeroRun.eq_around {run : Nat × Nat} (h : ZeroRun all run) (hpos : 0 < run.2) :
    all = all.take run.1 ++ List.replicate run.2 0 ++ all.drop (run.1 + run.2) ∧
      run.1 + run.2 ≤ all.length := by
  have hlen : run.1 + run.2 ≤ all.length := by
    have hlast := h (run.1 + run.2 - 1) (by omega) (by omega)
    obtain ⟨hlt, -⟩ := List.getElem?_eq_some_iff.mp hlast
    omega
  refine ⟨?_, hlen⟩
  have hmid : (all.drop run.1).take run.2 = List.replicate run.2 0 := by
    apply List.ext_getElem?
    intro k
    by_cases hk : k < run.2
    · rw [List.getElem?_take_of_lt hk, List.getElem?_drop, h (run.1 + k) (by omega) (by omega),
        List.getElem?_replicate_of_lt hk]
    · rw [List.getElem?_eq_none (by simp; omega), List.getElem?_eq_none (by simp; omega)]
  rw [← hmid, ← List.drop_drop, List.append_assoc, List.take_append_drop, List.take_append_drop]

theorem colons_append {ts us : List Text} (ht : ts ≠ []) (hu : us ≠ []) :
    [':'].intercalate (ts ++ us) = [':'].intercalate ts ++ ':' :: [':'].intercalate us := by
  induction ts with
  | nil => exact absurd rfl ht
  | cons t ts ih =>
    cases ts with
    | nil =>
      obtain ⟨u, us, rfl⟩ := List.exists_cons_of_ne_nil hu
      simp [List.intercalate_cons_cons]
    | cons t' ts =>
      have hrec := ih (by simp)
      simp only [List.cons_append, List.intercalate_cons_cons, List.append_assoc] at hrec ⊢
      rw [hrec]

/-- The parts of a side of the compressed zeros: an empty side leaves an empty part. -/
def sideParts (side : List Text) : List Text := if side = [] then [[]] else side

theorem colons_sideParts (side : List Text) :
    [':'].intercalate (sideParts side) = [':'].intercalate side := by
  unfold sideParts
  split_ifs with h
  · simp [h]
  · rfl

theorem sideParts_ne_nil (side : List Text) : sideParts side ≠ [] := by
  unfold sideParts
  split_ifs with h
  · simp
  · exact h

theorem compressed_eq (left right : List Text) :
    [':'].intercalate left ++ [':', ':'] ++ [':'].intercalate right =
      [':'].intercalate (sideParts left ++ ([] :: sideParts right)) := by
  rw [colons_append (sideParts_ne_nil left) (by simp), colons_sideParts]
  obtain ⟨t, ts, ht⟩ := List.exists_cons_of_ne_nil (sideParts_ne_nil right)
  rw [ht, List.intercalate_cons_cons, ← ht, colons_sideParts]
  simp

theorem sideParts_inj {left right left' right' : List Text} (hl : ∀ t ∈ left, t ≠ [])
    (hr : ∀ t ∈ right, t ≠ []) (hl' : ∀ t ∈ left', t ≠ []) (hr' : ∀ t ∈ right', t ≠ [])
    (h : sideParts left ++ ([] :: sideParts right) = sideParts left' ++ ([] :: sideParts right')) :
    left = left' ∧ right = right' := by
  have hside : ∀ {l l' : List Text}, (∀ t ∈ l, t ≠ []) → (∀ t ∈ l', t ≠ []) →
      sideParts l = sideParts l' → l = l' := by
    intro l l' hl hl' heq
    unfold sideParts at heq
    split_ifs at heq with h1 h2 h2
    · rw [h1, h2]
    · exact absurd rfl (hl' [] (by simp [← heq]))
    · exact absurd rfl (hl [] (by simp [heq]))
    · exact heq
  have hleft : left = left' := by
    by_cases h1 : left = [] <;> by_cases h2 : left' = []
    · rw [h1, h2]
    · obtain ⟨t, ts, rfl⟩ := List.exists_cons_of_ne_nil h2
      simp only [sideParts, h1, if_true, reduceCtorEq, if_false, List.cons_append,
        List.cons.injEq] at h
      exact absurd h.1.symm (hl' t List.mem_cons_self)
    · obtain ⟨t, ts, rfl⟩ := List.exists_cons_of_ne_nil h1
      simp only [sideParts, h2, if_true, reduceCtorEq, if_false, List.cons_append,
        List.cons.injEq] at h
      exact absurd h.1 (hl t List.mem_cons_self)
    · simp only [sideParts, h1, h2, if_false] at h
      refine apart_of_free (S := [[]]) ?_ ?_ _ _ (starts_cons (by simp)) (starts_cons (by simp)) h
      · exact fun t ht hmem => hl t ht (List.mem_singleton.mp hmem)
      · exact fun t ht hmem => hl' t ht (List.mem_singleton.mp hmem)
  subst hleft
  have hcancel := List.append_cancel_left h
  exact ⟨rfl, hside hr hr' (List.cons.inj hcancel).2⟩

/-- The parts of a text that is not of the mapped form. -/
inductive Parts (a : BitVec 128) : List Text → Prop
  | compressed (left right : List Nat) (n : Nat) (h : segments a = left ++ List.replicate n 0 ++ right) :
    Parts a (sideParts (left.map hex) ++ ([] :: sideParts (right.map hex)))
  | full : Parts a ((segments a).map hex)

theorem ipv6Text_cases (a : BitVec 128) :
    ((segments a).take 6 = [0, 0, 0, 0, 0, 0xffff] ∧
      ipv6Text a = lit "::ffff:" ++ ipv4Text (a.setWidth 32)) ∨
    ∃ parts, Parts a parts ∧ ipv6Text a = [':'].intercalate parts := by
  unfold ipv6Text
  simp only
  split_ifs with hmapped hzeros
  · exact .inl ⟨hmapped, rfl⟩
  · right
    have hrun : ZeroRun (segments a) (longestZeros (segments a) 0 (0, 0) (0, 0)) :=
      longestZeros_zeroRun List.drop_zero (fun k _ hk => absurd hk (by simp)) (.inl rfl)
        (fun k _ hk => absurd hk (by simp))
    exact ⟨_, .compressed _ _ _ (hrun.eq_around (by omega)).1, compressed_eq _ _⟩
  · exact .inr ⟨_, .full, rfl⟩

theorem hex_ne_nil : ∀ {xs : List Nat}, ∀ t ∈ xs.map hex, t ≠ [] := by
  intro xs t ht
  obtain ⟨n, -, rfl⟩ := List.mem_map.mp ht
  exact natText_ne_nil n

variable {parts : List Text}

theorem Parts.free (h : Parts a parts) (hS : ∀ d < 16, Nat.digitChar d ∉ S) : ∀ t ∈ parts, ∀ c ∈ t, c ∉ S := by
  have hhex : ∀ (xs : List Nat), ∀ t ∈ xs.map hex, ∀ c ∈ t, c ∉ S := by
    intro xs t ht
    obtain ⟨n, -, rfl⟩ := List.mem_map.mp ht
    exact hex_free hS n
  have hside : ∀ (xs : List Nat), ∀ t ∈ sideParts (xs.map hex), ∀ c ∈ t, c ∉ S := by
    intro xs t ht
    unfold sideParts at ht
    split_ifs at ht
    · rw [List.mem_singleton.mp ht]
      simp
    · exact hhex xs t ht
  intro t ht
  cases h with
  | compressed left right n _ =>
    rcases List.mem_append.mp ht with ht | ht
    · exact hside left t ht
    · rcases List.mem_cons.mp ht with rfl | ht
      · simp
      · exact hside right t ht
  | full => exact hhex _ t ht

theorem Parts.ne_nil (h : Parts a parts) : parts ≠ [] := by
  cases h with
  | compressed left right n _ => simp
  | full =>
    intro hnil
    have hlen := congrArg List.length hnil
    simp [length_segments] at hlen

theorem Parts.inj {b : BitVec 128} (ha : Parts a parts) (hb : Parts b parts) : a = b := by
  apply segments_injective
  generalize hparts : parts = parts' at hb
  cases ha with
  | compressed left right n h =>
    cases hb with
    | compressed left' right' n' h' =>
      obtain ⟨hl, hr⟩ := sideParts_inj hex_ne_nil hex_ne_nil hex_ne_nil hex_ne_nil hparts
      have hl := List.map_injective_iff.mpr hex_injective hl
      have hr := List.map_injective_iff.mpr hex_injective hr
      subst hl hr
      have hlen := congrArg List.length h
      have hlen' := congrArg List.length h'
      simp only [length_segments, List.length_append, List.length_replicate] at hlen hlen'
      rw [h, h', show n = n' by omega]
    | full => exact absurd rfl (hex_ne_nil [] (by rw [← hparts]; simp))
  | full =>
    cases hb with
    | compressed left' right' n' h' => exact absurd rfl (hex_ne_nil [] (by rw [hparts]; simp))
    | full => exact List.map_injective_iff.mpr hex_injective hparts

theorem mem_colons {c : Char} (h : c ∈ [':'].intercalate parts) : c = ':' ∨ ∃ t ∈ parts, c ∈ t := by
  induction parts with
  | nil => simp at h
  | cons t parts ih =>
    cases parts with
    | nil =>
      rw [List.intercalate_singleton] at h
      exact .inr ⟨t, List.mem_cons_self, h⟩
    | cons u parts =>
      simp only [List.intercalate_cons_cons, List.mem_append, List.mem_singleton] at h
      rcases h with (h | h) | h
      · exact .inr ⟨t, List.mem_cons_self, h⟩
      · exact .inl h
      · rcases ih h with hc | ⟨v, hv, hc⟩
        · exact .inl hc
        · exact .inr ⟨v, List.mem_cons_of_mem _ hv, hc⟩

theorem dot_notMem_colons (h : Parts a parts) : '.' ∉ [':'].intercalate parts := by
  intro hmem
  rcases mem_colons hmem with hc | ⟨t, ht, hc⟩
  · exact absurd hc (by decide)
  · exact h.free (S := ['.']) (by decide) t ht _ hc (by simp)

theorem dot_mem_ipv4Text (a : BitVec 32) : '.' ∈ ipv4Text a := by
  simp [ipv4Text, List.intercalate_cons_cons]

theorem ipv6Text_injective : Function.Injective ipv6Text := by
  intro a b h
  rcases ipv6Text_cases a with ⟨hma, hta⟩ | ⟨pa, hpa, hta⟩ <;>
    rcases ipv6Text_cases b with ⟨hmb, htb⟩ | ⟨pb, hpb, htb⟩ <;> rw [hta, htb] at h
  · exact mapped_inj hma hmb (ipv4Text_injective (List.append_cancel_left h))
  · exact absurd (h ▸ List.mem_append_right _ (dot_mem_ipv4Text _)) (dot_notMem_colons hpb)
  · exact absurd (h ▸ List.mem_append_right _ (dot_mem_ipv4Text _)) (dot_notMem_colons hpa)
  · have hcolon : ∀ {c : BitVec 128} {parts : List Text}, Parts c parts → ∀ t ∈ parts, ':' ∉ t :=
      fun hp t ht hmem => hp.free (S := [':']) (by decide) t ht _ hmem (by simp)
    have hparts := congrArg (List.splitOn ':') h
    rw [List.splitOn_intercalate ':' (hcolon hpa) hpa.ne_nil,
      List.splitOn_intercalate ':' (hcolon hpb) hpb.ne_nil] at hparts
    subst hparts
    exact hpa.inj hpb

theorem ipv6Text_free (hS : ∀ d < 16, Nat.digitChar d ∉ S) (hdot : '.' ∉ S) (hcolon : ':' ∉ S)
    (a : BitVec 128) : ∀ c ∈ ipv6Text a, c ∉ S := by
  intro c hc
  rcases ipv6Text_cases a with ⟨-, ht⟩ | ⟨parts, hp, ht⟩ <;> rw [ht] at hc
  · rcases List.mem_append.mp hc with hc | hc
    · have hpre : c = ':' ∨ c = Nat.digitChar 15 := by
        simp [lit] at hc
        tauto
      rcases hpre with rfl | rfl
      · exact hcolon
      · exact hS 15 (by decide)
    · exact ipv4Text_free hS hdot _ c hc
  · rcases mem_colons hc with rfl | ⟨t, ht, hc⟩
    · exact hcolon
    · exact hp.free hS t ht c hc

theorem colon_mem_ipv6Text (a : BitVec 128) : ':' ∈ ipv6Text a := by
  rcases ipv6Text_cases a with ⟨-, ht⟩ | ⟨parts, hp, ht⟩ <;> rw [ht]
  · simp [lit]
  · cases hp with
    | compressed left right n _ =>
      rw [colons_append (sideParts_ne_nil _) (by simp)]
      simp
    | full =>
      rw [segments_eq]
      simp [List.range_succ, List.intercalate_cons_cons]

end RustFmt
