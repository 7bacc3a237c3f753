import PathDns.Dns.EcsStrip

/-!
# Option data in responses (`strip_opt_rdata`)

`clearOptRdata` empties the RDATA of every OPT record of a packet, in whatever section it stands; two
packets with the same image differ in option data only. `strip_opt_rdata` empties one record, the first
OPT record of the additional section. The two agree on packets whose option data is all there
(`sanitized_eq_clear`).
-/

namespace PathDns

open Bytes

/-- The bytes from `pos` on, with the RDATA of every OPT record among the next `n` records removed. -/
def clearOptFrom (packet : Packet) : Nat → Nat → List UInt8
  | 0, pos => packet.drop pos
  | n + 1, pos =>
    match parseRr packet pos with
    | none => packet.drop pos
    | some r =>
      if r.rrType = 41 then
        slice packet pos (r.nameEnd + 8) ++ encU16be 0 ++ clearOptFrom packet n r.rrEnd
      else slice packet pos r.rrEnd ++ clearOptFrom packet n r.rrEnd

/-- The packet without any option data. -/
def clearOptRdata (packet : Packet) : Packet :=
  match skipQuestions packet (u16be packet 4) 12 with
  | none => packet
  | some pos => packet.take pos ++
      clearOptFrom packet (u16be packet 6 + u16be packet 8 + u16be packet 10) pos

/-- The RDATA of the OPT records of the answer and authority sections. -/
def strayOptRdatas (packet : Packet) : List (List UInt8) :=
  match skipQuestions packet (u16be packet 4) 12 with
  | none => []
  | some pos => optRdatasFrom packet (u16be packet 6 + u16be packet 8) pos

/-- No OPT record of the packet has option data. -/
def NoOptData (packet : Packet) : Prop :=
  (∀ rdata ∈ strayOptRdatas packet, rdata = []) ∧ ∀ rdata ∈ optRdatas packet, rdata = []

/-- Only the first OPT record of the additional section may have option data. -/
def OneOptData (packet : Packet) : Prop :=
  (∀ rdata ∈ strayOptRdatas packet, rdata = []) ∧ ∀ rdata ∈ (optRdatas packet).tail, rdata = []

instance (packet : Packet) : Decidable (NoOptData packet) := inferInstanceAs (Decidable (_ ∧ _))

instance (packet : Packet) : Decidable (OneOptData packet) := inferInstanceAs (Decidable (_ ∧ _))

/-- The copy of a response that is cached. -/
def sanitized (packet : Packet) : Packet := (stripOptRdata packet).getD packet

/-! ### Records without option data -/

variable {p : Packet} {pos : Nat}

theorem encU16be_zero_of_empty {r : Rr} (hr : parseRr p pos = some r) (hempty : r.rrEnd = r.rdataStart) :
    encU16be 0 = slice p (r.nameEnd + 8) r.rrEnd := by
  obtain ⟨-, -, hstart, hend, hlen⟩ := parseRr_fields hr
  have hrdlen : u16be p (r.nameEnd + 8) = 0 := by omega
  rw [← hrdlen, ← slice_two (by omega), hempty, hstart]

variable {n : Nat} {r : Rr}

theorem clearOptFrom_succ (hr : parseRr p pos = some r)
    (hempty : r.isOpt = true → slice p r.rdataStart r.rrEnd = []) :
    clearOptFrom p (n + 1) pos = slice p pos r.rrEnd ++ clearOptFrom p n r.rrEnd := by
  have hb := parseRr_bounds hr
  rw [clearOptFrom, hr]
  simp only
  split_ifs with htype
  · have hnil := congrArg List.length (hempty (by simp [Rr.isOpt, htype]))
    rw [length_slice hb.2.2.2, List.length_nil] at hnil
    rw [encU16be_zero_of_empty hr (by omega), slice_append_slice (by omega) (by omega)]
  · rfl

theorem clearOptFrom_of_empty
    (h : ∀ r ∈ readable p n pos, r.isOpt = true → slice p r.rdataStart r.rrEnd = []) :
    clearOptFrom p n pos = p.drop pos := by
  induction n generalizing pos with
  | zero => rfl
  | succ n ih =>
    cases hr : parseRr p pos with
    | none => rw [clearOptFrom, hr]
    | some r =>
      have hb := parseRr_bounds hr
      simp only [readable, hr, List.forall_mem_cons] at h
      rw [clearOptFrom_succ hr h.1, ih h.2, slice_append_drop (by omega)]

/-- Clearing records of which only one has option data. -/
theorem clearOptFrom_of_one {front back : List Rr} (h : readable p n pos = front ++ r :: back)
    (hr : r.isOpt = true)
    (hempty : ∀ s ∈ front ++ back, s.isOpt = true → slice p s.rdataStart s.rrEnd = []) :
    clearOptFrom p n pos = slice p pos (r.nameEnd + 8) ++ encU16be 0 ++ p.drop r.rrEnd := by
  induction front generalizing n pos with
  | nil =>
    obtain ⟨m, rfl, hparse, rfl⟩ := readable_eq_cons_iff.mp h
    rw [clearOptFrom, hparse, ← clearOptFrom_of_empty hempty]
    exact if_pos (by simpa [Rr.isOpt] using hr)
  | cons f front ih =>
    obtain ⟨m, rfl, hparse, hrest⟩ := readable_eq_cons_iff.mp h
    have hb := parseRr_bounds hparse
    have hrb := readable_bounds (show r ∈ readable p m f.rrEnd by simp [hrest])
    rw [List.cons_append, List.forall_mem_cons] at hempty
    rw [clearOptFrom_succ hparse hempty.1, ih hrest hempty.2, ← List.append_assoc, ← List.append_assoc,
      slice_append_slice (by omega) (by omega)]

/-! ### Whole packets -/

theorem take_append_slice {i j : Nat} (hij : i ≤ j) : p.take i ++ slice p i j = p.take j := by
  obtain ⟨d, rfl⟩ := Nat.exists_eq_add_of_le hij
  rw [slice, Nat.add_sub_cancel_left, ← List.take_add]

theorem mem_optRdatas (hr : r ∈ additionalRecords p) (hopt : r.isOpt = true) :
    slice p r.rdataStart r.rrEnd ∈ optRdatas p := by
  rw [optRdatas_eq]
  exact List.mem_map_of_mem (List.mem_filter.mpr ⟨hr, hopt⟩)

theorem mem_strayOptRdatas {mid : Nat} (hmid : skipQuestions p (u16be p 4) 12 = some mid)
    (hr : r ∈ readable p (u16be p 6 + u16be p 8) mid) (hopt : r.isOpt = true) :
    slice p r.rdataStart r.rrEnd ∈ strayOptRdatas p := by
  rw [strayOptRdatas, hmid]
  simp only [optRdatasFrom_eq]
  exact List.mem_map_of_mem (List.mem_filter.mpr ⟨hr, hopt⟩)

theorem clearOptRdata_of_noOptData (h : NoOptData p) : clearOptRdata p = p := by
  rw [clearOptRdata]
  cases hmid : skipQuestions p (u16be p 4) 12 with
  | none => rfl
  | some mid =>
    simp only
    rw [clearOptFrom_of_empty, List.take_append_drop]
    intro r hr hopt
    rw [readable_sections hmid] at hr
    rcases List.mem_append.mp hr with hr | hr
    · exact h.1 _ (mem_strayOptRdatas hmid hr hopt)
    · exact h.2 _ (mem_optRdatas hr hopt)

/-- Where all option data is in the first OPT record of the additional section, the cached copy has
none of it, and is else the packet. -/
theorem sanitized_eq_clear (h : OneOptData p) : sanitized p = clearOptRdata p := by
  rw [sanitized, stripOptRdata_eq, locateOpt_join]
  cases hfind : (additionalRecords p).find? Rr.isOpt with
  | none =>
    have hnil : optRdatas p = [] := by
      rw [optRdatas_eq, List.filter_eq_nil_iff.mpr (List.find?_eq_none.mp hfind)]
      rfl
    rw [clearOptRdata_of_noOptData ⟨h.1, by simp [hnil]⟩]
    rfl
  | some r =>
    obtain ⟨hopt, front, back, hsplit, hfront⟩ := List.find?_eq_some_iff_append.mp hfind
    replace hfront : ∀ s ∈ front, s.isOpt = false := fun s hs => by simpa using hfront s hs
    obtain ⟨mid, hmid, hr⟩ := mem_additionalRecords (List.mem_of_find?_eq_some hfind)
    obtain ⟨i, hi, hparse⟩ := mem_readable hr
    have hb := parseRr_bounds hparse
    have hempty : ∀ s ∈ (readable p (u16be p 6 + u16be p 8) mid ++ front) ++ back, s.isOpt = true →
        slice p s.rdataStart s.rrEnd = [] := by
      intro s hs hs41
      rcases List.mem_append.mp hs with hs | hs
      · rcases List.mem_append.mp hs with hs | hs
        · exact h.1 _ (mem_strayOptRdatas hmid hs hs41)
        · exact absurd hs41 (by simp [hfront s hs])
      · refine h.2 _ ?_
        rw [optRdatas_of_first hsplit hfront hopt]
        exact List.mem_map_of_mem (List.mem_filter.mpr ⟨hs, hs41⟩)
    have hall : readable p (u16be p 6 + u16be p 8 + u16be p 10) mid =
        (readable p (u16be p 6 + u16be p 8) mid ++ front) ++ r :: back := by
      rw [readable_sections hmid, hsplit, List.append_assoc]
    have hclear : clearOptRdata p = p.take (r.nameEnd + 8) ++ encU16be 0 ++ p.drop r.rrEnd := by
      rw [clearOptRdata, hmid]
      simp only
      rw [clearOptFrom_of_one hall hopt hempty, ← List.append_assoc, ← List.append_assoc,
        take_append_slice (by omega)]
    rw [hclear]
    simp only [Option.map_some, Option.bind_some]
    split_ifs with hnone
    · -- the record is empty already: its length field is zero
      rw [Option.getD_none, encU16be_zero_of_empty hparse hnone, take_append_slice (by omega),
        List.take_append_drop]
    · rfl

end PathDns
