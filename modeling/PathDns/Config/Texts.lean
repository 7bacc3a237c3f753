import PathDns.Config.Fingerprint

/-!
# The debug texts of the configuration can be read back

`cache_fingerprint` feeds servers and matchers as their debug texts. No two servers and no two lists of
matchers share a text.
-/

namespace PathDns

open Reading RustFmt

/-! ### Addresses -/

theorem ipText_readable : Readable (Starts closers) ipText := by
  apply Readable.of_free
  · have hfree : ∀ a, ':' ∉ ipv4Text a :=
      fun a hmem => ipv4Text_free (S := [':']) (by decide) (by decide) a _ hmem (by simp)
    rintro (a | a) (b | b) h <;> simp only [ipText] at h
    · rw [ipv4Text_injective h]
    · exact absurd (h ▸ colon_mem_ipv6Text b) (hfree a)
    · exact absurd (h ▸ colon_mem_ipv6Text a) (hfree b)
    · rw [ipv6Text_injective h]
  · rintro (a | a)
    · exact ipv4Text_free (by decide) (by decide) a
    · exact ipv6Text_free (by decide) (by decide) (by decide) a

theorem socketText_v4_inj {ip ip' : BitVec 32} {port port' : UInt16}
    (h : socketText (.v4 ip port) = socketText (.v4 ip' port')) : ip = ip' ∧ port = port' := by
  have hip : Readable (Starts [':']) ipv4Text :=
    .of_free ipv4Text_injective (ipv4Text_free (by decide) (by decide))
  obtain ⟨rfl, hport⟩ := hip.reads (starts_cons (by simp)) (starts_cons (by simp)) h
  exact ⟨rfl, UInt16.toNat_inj.mp (dec_injective (List.cons.inj hport).2)⟩

theorem socketText_v6_inj {ip ip' : BitVec 128} {port port' : UInt16} {scope scope' : UInt32}
    (h : socketText (.v6 ip port scope) = socketText (.v6 ip' port' scope')) :
    ip = ip' ∧ port = port' ∧ scope = scope' := by
  have hip : Readable (Starts ['%', ']']) ipv6Text :=
    .of_free ipv6Text_injective (ipv6Text_free (by decide) (by decide) (by decide))
  have hscope : Readable (Starts [']']) dec := .of_free dec_injective (dec_free (by decide))
  have hstarts : ∀ (scope : UInt32) (rest : Text), Starts ['%', ']']
      ((if scope = 0 then [] else '%' :: dec scope.toNat) ++ (']' :: rest)) := by
    intro scope rest
    split_ifs
    · exact starts_cons (by simp)
    · exact starts_cons (by simp)
  simp only [socketText, List.cons_append, List.append_assoc, List.nil_append, List.cons.injEq,
    true_and] at h
  obtain ⟨rfl, hrest⟩ := hip.reads (hstarts _ _) (hstarts _ _) h
  have hport : ∀ {m n : UInt16}, ':' :: dec m.toNat = ':' :: dec n.toNat → m = n :=
    fun heq => UInt16.toNat_inj.mp (dec_injective (List.cons.inj heq).2)
  refine ⟨rfl, ?_⟩
  split_ifs at hrest with h0 h0' h0'
  · exact ⟨hport (List.cons.inj hrest).2, by rw [h0, h0']⟩
  · simp at hrest
  · simp at hrest
  · obtain ⟨hnat, hrest⟩ := hscope.reads (starts_cons (by simp)) (starts_cons (by simp))
      (List.cons.inj hrest).2
    exact ⟨hport (List.cons.inj hrest).2, UInt32.toNat_inj.mp hnat⟩

theorem socketText_readable : Readable (Starts [',', ' ']) socketText := by
  apply Readable.of_free
  · have hne : ∀ ip port rest, socketText (.v4 ip port) ≠ '[' :: rest := by
      intro ip port rest h
      have hmem : '[' ∈ socketText (.v4 ip port) := by simp [h]
      rcases List.mem_append.mp hmem with hmem | hmem
      · exact ipv4Text_free (S := ['[']) (by decide) (by decide) ip _ hmem (by simp)
      · rcases List.mem_cons.mp hmem with hmem | hmem
        · exact absurd hmem (by decide)
        · exact dec_free (S := ['[']) (by decide) _ _ hmem (by simp)
    rintro (⟨ip, port⟩ | ⟨ip, port, scope⟩) (⟨ip', port'⟩ | ⟨ip', port', scope'⟩) h
    · obtain ⟨rfl, rfl⟩ := socketText_v4_inj h
      rfl
    · exact absurd h (hne ip port _)
    · exact absurd h.symm (hne ip' port' _)
    · obtain ⟨rfl, rfl, rfl⟩ := socketText_v6_inj h
      rfl
  · have hdec : ∀ n, ∀ c ∈ dec n, c ∉ [',', ' '] := dec_free (by decide)
    rintro (⟨ip, port⟩ | ⟨ip, port, scope⟩) c hc
    · rcases List.mem_append.mp hc with hc | hc
      · exact ipv4Text_free (by decide) (by decide) ip c hc
      · rcases List.mem_cons.mp hc with rfl | hc
        · decide
        · exact hdec _ c hc
    · simp only [socketText, List.cons_append, List.mem_cons, List.mem_append] at hc
      rcases hc with rfl | ((hc | hc) | rfl | rfl | hc) | hc
      · decide
      · exact ipv6Text_free (by decide) (by decide) (by decide) ip c hc
      · split_ifs at hc
        · simp at hc
        · rcases List.mem_cons.mp hc with rfl | hc
          · decide
          · exact hdec _ c hc
      · decide
      · decide
      · simp at hc
      · exact hdec _ c hc

/-! ### Servers -/

theorem subnetText_readable : Readable Anything subnetText := by
  apply Readable.of_reads
  rintro ⟨addr, len⟩ ⟨addr', len'⟩ r r' h
  have hfields := structText_inj h
    (.cons ⟨rfl, (ipText_readable.subset (by simp)).apart addr addr'⟩
      (.cons ⟨rfl, (dec_readable.subset (by simp)).apart len.toNat len'.toNat⟩ .nil))
  simp only [List.cons.injEq, Prod.mk.injEq, true_and, and_true] at hfields
  rw [ipText_readable.inj hfields.1, UInt8.toNat_inj.mp (dec_injective hfields.2)]

theorem ecsModeText_readable : Readable Anything ecsModeText := by
  apply Readable.of_reads
  rintro (_ | _ | subnet) (_ | _ | subnet') r r' h
  case fixed.fixed =>
    have hfields := tupleText_inj h (.cons (subnetText_readable.of_anything.apart subnet subnet') .nil)
    rw [subnetText_readable.inj (List.cons.inj hfields).1]
  all_goals first | rfl | simp [ecsModeText, tupleText, lit] at h

theorem protoText_readable : Readable (Starts closers) protoText := by
  apply Readable.of_free
  · intro p q h
    cases p <;> cases q <;> simp_all [protoText, lit]
  · intro p
    cases p <;> simp [protoText, lit]

section

variable {special : Char → Bool}

theorem endpointText_readable : Readable Anything (endpointText special) := by
  have hopt : Readable (Starts [',', ' ']) (optionText (strText special)) :=
    (optionText_readable strText_readable.of_anything).of_anything
  have hmode : Readable (Starts [',', ' ']) (optionText ecsModeText) :=
    (optionText_readable ecsModeText_readable.of_anything).of_anything
  have hmark : Readable (Starts [',', ' ']) (optionText (fun m : UInt32 => dec m.toNat)) :=
    (optionText_readable ((dec_readable.comp (fun _ _ => UInt32.toNat_inj.mp)).subset
      (by simp))).of_anything
  apply Readable.of_reads
  rintro ⟨proto, addr, name, path, noSni, mode, mark⟩ ⟨proto', addr', name', path', noSni', mode', mark'⟩
    r r' h
  have hfields := structText_inj h
    (.cons ⟨rfl, (protoText_readable.subset (by simp)).apart proto proto'⟩
    (.cons ⟨rfl, socketText_readable.apart addr addr'⟩
    (.cons ⟨rfl, hopt.apart name name'⟩
    (.cons ⟨rfl, hopt.apart path path'⟩
    (.cons ⟨rfl, (boolText_readable.subset (by simp)).apart noSni noSni'⟩
    (.cons ⟨rfl, hmode.apart mode mode'⟩
    (.cons ⟨rfl, hmark.apart mark mark'⟩ .nil)))))))
  simp only [List.cons.injEq, Prod.mk.injEq, true_and, and_true] at hfields
  obtain ⟨h1, h2, h3, h4, h5, h6, h7⟩ := hfields
  rw [protoText_readable.inj h1, socketText_readable.inj h2, hopt.inj h3, hopt.inj h4,
    boolText_readable.inj h5, hmode.inj h6, hmark.inj h7]

theorem answerText_readable : Readable Anything answerText := by
  have hv4 : Readable (Starts [',', ')']) ipv4Text :=
    .of_free ipv4Text_injective (ipv4Text_free (by decide) (by decide))
  have hv6 : Readable (Starts [',', ')']) ipv6Text :=
    .of_free ipv6Text_injective (ipv6Text_free (by decide) (by decide) (by decide))
  have hdec : Readable (Starts [',', ')']) dec := dec_readable.subset (by simp)
  apply Readable.of_reads
  rintro (⟨addr, ttl⟩ | ⟨addr, ttl⟩) (⟨addr', ttl'⟩ | ⟨addr', ttl'⟩) r r' h
  · have hfields := tupleText_inj h
      (.cons (hv4.apart addr addr') (.cons (hdec.apart ttl.toNat ttl'.toNat) .nil))
    simp only [List.cons.injEq, and_true] at hfields
    rw [hv4.inj hfields.1, UInt32.toNat_inj.mp (hdec.inj hfields.2)]
  · simp [answerText, tupleText, lit] at h
  · simp [answerText, tupleText, lit] at h
  · have hfields := tupleText_inj h
      (.cons (hv6.apart addr addr') (.cons (hdec.apart ttl.toNat ttl'.toNat) .nil))
    simp only [List.cons.injEq, and_true] at hfields
    rw [hv6.inj hfields.1, UInt32.toNat_inj.mp (hdec.inj hfields.2)]

theorem answerSetText_readable : Readable Anything answerSetText := by
  have hrcode : Readable (Starts [',', ' ']) (optionText (fun r : UInt8 => dec r.toNat)) :=
    (optionText_readable ((dec_readable.comp (fun _ _ => UInt8.toNat_inj.mp)).subset
      (by simp))).of_anything
  have hanswers : Readable (Starts [',', ' ']) (listText answerText) := by
    apply Readable.of_anything
    apply listText_readable answerText_readable.of_anything
    rintro (⟨addr, ttl⟩ | ⟨addr, ttl⟩)
    · exact ⟨'A', by simp [answerText, tupleText, lit], by decide⟩
    · exact ⟨'A', by simp [answerText, tupleText, lit], by decide⟩
  apply Readable.of_reads
  rintro ⟨rcode, ttl, answers⟩ ⟨rcode', ttl', answers'⟩ r r' h
  have hfields := structText_inj h
    (.cons ⟨rfl, hrcode.apart rcode rcode'⟩
    (.cons ⟨rfl, (dec_readable.subset (by simp)).apart ttl.toNat ttl'.toNat⟩
    (.cons ⟨rfl, hanswers.apart answers answers'⟩ .nil)))
  simp only [List.cons.injEq, Prod.mk.injEq, true_and, and_true] at hfields
  obtain ⟨h1, h2, h3⟩ := hfields
  rw [hrcode.inj h1, UInt32.toNat_inj.mp (dec_injective h2), hanswers.inj h3]

theorem serverText_injective : Function.Injective (serverText special) := by
  have hendpoints : Readable (Starts [',', ')']) (listText (endpointText special)) := by
    apply Readable.of_anything
    apply listText_readable endpointText_readable.of_anything
    exact fun e => ⟨'U', by simp [endpointText, structText, lit], by decide⟩
  rintro (endpoints | set) (endpoints' | set') h
  · have hfields := tupleText_inj (congrArg (· ++ []) h)
      (.cons (hendpoints.apart endpoints endpoints') .nil)
    rw [hendpoints.inj (List.cons.inj hfields).1]
  · simp [serverText, tupleText, lit] at h
  · simp [serverText, tupleText, lit] at h
  · have hfields := tupleText_inj (congrArg (· ++ []) h)
      (.cons (answerSetText_readable.of_anything.apart set set') .nil)
    rw [answerSetText_readable.inj (List.cons.inj hfields).1]

/-! ### Matchers -/

theorem matcherText_readable : Readable Anything (matcherText special) := by
  have hstrs : Readable (Starts [',', ' ']) (listText (strText special)) := by
    apply Readable.of_anything
    apply listText_readable strText_readable.of_anything
    exact fun s => ⟨'"', by simp [strText], by decide⟩
  apply Readable.of_reads
  rintro (pattern | ⟨includes, excludes⟩) (pattern' | ⟨includes', excludes'⟩) r r' h
  · have hfields := tupleText_inj h (.cons (strText_readable.of_anything.apart pattern pattern') .nil)
    rw [strText_readable.inj (List.cons.inj hfields).1]
  · simp [matcherText, tupleText, structText, lit] at h
  · simp [matcherText, tupleText, structText, lit] at h
  · have hfields := structText_inj h
      (.cons ⟨rfl, hstrs.apart includes includes'⟩
      (.cons ⟨rfl, hstrs.apart excludes excludes'⟩ .nil))
    simp only [List.cons.injEq, Prod.mk.injEq, true_and, and_true] at hfields
    rw [hstrs.inj hfields.1, hstrs.inj hfields.2]

theorem matchersText_injective : Function.Injective (listText (matcherText special)) := by
  have hlist : Readable Anything (listText (matcherText special)) := by
    apply listText_readable matcherText_readable.of_anything
    rintro (pattern | ⟨includes, excludes⟩)
    · exact ⟨'D', by simp [matcherText, tupleText, lit], by decide⟩
    · exact ⟨'T', by simp [matcherText, structText, lit], by decide⟩
  exact hlist.inj

end

end PathDns
