import PathDns.Config.UpstreamUrl

/-!
# The port of an upstream authority

`authority_host` and `authority_port` split the text of an authority each in its own way: the host of a
bracketed address ends at the first `]`, its port is looked for behind the last one; a text that is not a
port leaves the default port and, without brackets, stays with the host. What `resolve_authority` looks up
is described by the text alone (`LooksUp`), and so are the texts whose port is the one that is used
(`portKept_iff`).
-/

namespace PathDns

open RustParse

/-- The port of a socket address. -/
def SocketAddr.port : SocketAddr → UInt16
  | .v4 _ port | .v6 _ port _ => port

@[simp] theorem SocketAddr.port_ofIp (ip : IpAddr) (port : UInt16) : (SocketAddr.ofIp ip port).port = port := by
  cases ip <;> rfl

/-! ### Ports -/

/-- The text is a decimal number below 65536; `signed` says whether a plus sign may come before it. -/
def IsPort (signed : Bool) (s : Str) (port : Nat) : Prop :=
  ∃ digits : Str, (s = digits ∨ signed = true ∧ s = '+' :: digits) ∧ digits ≠ [] ∧
    (∀ c ∈ digits, c.isDigit = true) ∧ decimalFrom 0 digits = port ∧ port < 65536

variable {s : Str}

theorem IsPort.signed {signed : Bool} {port : Nat} (h : IsPort signed s port) : IsPort true s port := by
  obtain ⟨digits, hs, h⟩ := h
  exact ⟨digits, hs.imp_right fun hs => ⟨rfl, hs.2⟩, h⟩

theorem IsPort.not_mem {port : Nat} (h : IsPort true s port) {c : Char} (hc : c.isDigit = false)
    (hplus : c ≠ '+') : c ∉ s := by
  obtain ⟨digits, hs, -, hdigits, -⟩ := h
  have hnot : c ∉ digits := fun hmem => by
    rw [hdigits c hmem] at hc
    cases hc
  rcases hs with rfl | ⟨-, rfl⟩
  · exact hnot
  · simp [hplus, hnot]

theorem IsPort.lt {signed : Bool} {port : Nat} (h : IsPort signed s port) : port < 65536 := by
  obtain ⟨-, -, -, -, -, hlt⟩ := h
  exact hlt

theorem parseUnsigned_eq_some {n : Nat} : parseUnsigned 10 (2 ^ 16) s = some n ↔ IsPort true s n := by
  have hdigits : ∀ digits : Str, (if digits.isEmpty then none else parseDigits 10 (2 ^ 16) digits 0) = some n ↔
      digits ≠ [] ∧ (∀ c ∈ digits, c.isDigit = true) ∧ decimalFrom 0 digits = n ∧ n < 65536 := by
    intro digits
    cases digits with
    | nil => simp
    | cons c cs =>
      rw [if_neg (by simp), parseDigits_ten_eq_some (by decide)]
      simp
  by_cases hplus : ∃ rest, s = '+' :: rest
  · obtain ⟨rest, rfl⟩ := hplus
    refine (hdigits rest).trans ⟨fun h => ⟨rest, .inr ⟨rfl, rfl⟩, h⟩, ?_⟩
    rintro ⟨digits, rfl | ⟨-, hrest⟩, h⟩
    · have hsign := h.2.1 '+' List.mem_cons_self
      exact absurd hsign (by decide)
    · obtain rfl := (List.cons.inj hrest).2
      exact h
  · have hsame : parseUnsigned 10 (2 ^ 16) s =
        if s.isEmpty then none else parseDigits 10 (2 ^ 16) s 0 := by
      rw [parseUnsigned]
      intro rest hrest
      exact hplus ⟨rest, hrest⟩
    rw [hsame, hdigits]
    refine ⟨fun h => ⟨s, .inl rfl, h⟩, ?_⟩
    rintro ⟨digits, rfl | ⟨-, hrest⟩, h⟩
    · exact h
    · exact absurd ⟨digits, hrest⟩ hplus

theorem parseU16_eq_some {port : UInt16} : parseU16 s = some port ↔ IsPort true s port.toNat := by
  rw [parseU16, Option.map_eq_some_iff]
  constructor
  · rintro ⟨n, hn, rfl⟩
    have hport := parseUnsigned_eq_some.mp hn
    rw [UInt16.toNat_ofNat', Nat.mod_eq_of_lt hport.lt]
    exact hport
  · intro h
    exact ⟨port.toNat, parseUnsigned_eq_some.mpr h, UInt16.ofNat_toNat⟩

theorem parseU16_eq_none : parseU16 s = none ↔ ∀ n, ¬ IsPort true s n := by
  rw [parseU16, Option.map_eq_none_iff, Option.eq_none_iff_forall_ne_some]
  exact forall_congr' fun n => not_congr parseUnsigned_eq_some

/-! ### Hosts -/

/-- What `authority_host` takes for the host. -/
inductive LooksUp : Str → Str → Prop
  /-- a bracketed address, with nothing or a colon behind it -/
  | bracketed {host tail : Str} (hhost : ']' ∉ host) (htail : tail = [] ∨ ∃ port, tail = ':' :: port) :
    LooksUp ('[' :: (host ++ ']' :: tail)) host
  /-- no colon -/
  | bare {host : Str} (hfront : host.head? ≠ some '[') (hhost : ':' ∉ host) : LooksUp host host
  /-- one colon with a port behind it -/
  | ported {host port : Str} {n : Nat} (hfront : (host ++ ':' :: port).head? ≠ some '[') (hhost : ':' ∉ host)
    (hport : IsPort true port n) : LooksUp (host ++ ':' :: port) host
  /-- one colon with something else behind it -/
  | whole {host port : Str} (hfront : (host ++ ':' :: port).head? ≠ some '[') (hhost : ':' ∉ host)
    (hcolon : ':' ∉ port) (hport : ∀ n, ¬ IsPort true port n) :
    LooksUp (host ++ ':' :: port) (host ++ ':' :: port)

variable {authority : Str}

theorem authorityHost_colons (hfront : authority.head? ≠ some '[')
    (hcount : 2 ≤ authority.count ':') : ∃ e, authorityHost authority = .error e := by
  rw [authorityHost]
  · exact ⟨_, if_pos hcount⟩
  · rintro rest rfl
    exact hfront rfl

theorem authorityHost_plain (hfront : authority.head? ≠ some '[')
    (hcount : ¬ 2 ≤ authority.count ':') :
    authorityHost authority =
      match rsplitOnce ':' authority with
      | some (host, port) => .ok (if (parseU16 port).isSome then host else authority)
      | none => .ok authority := by
  rw [authorityHost]
  · exact if_neg hcount
  · rintro rest rfl
    exact hfront rfl

variable {host : Str}

theorem count_colon_lt_two {port : Str} (hport : ':' ∉ port) :
    ¬ 2 ≤ (host ++ ':' :: port).count ':' ↔ ':' ∉ host := by
  rw [List.count_append, List.count_cons_self, List.count_eq_zero.mpr hport, ← List.count_eq_zero]
  omega

theorem authorityHost_eq_ok : authorityHost authority = .ok host ↔ LooksUp authority host := by
  constructor
  · intro h
    by_cases hfront : authority.head? = some '['
    · obtain ⟨rest, rfl⟩ := List.head?_eq_some_iff.mp hfront
      rw [authorityHost] at h
      cases hsplit : splitOnce [']'] rest with
      | none => simp [hsplit] at h
      | some r =>
        obtain ⟨host', tail⟩ := r
        obtain ⟨rfl, hhost⟩ := splitOnce_char_eq_some.mp hsplit
        simp only [hsplit] at h
        split_ifs at h with htail
        cases h
        refine .bracketed hhost ?_
        cases tail with
        | nil => exact .inl rfl
        | cons c cs =>
          have hc : c = ':' := by simpa using htail
          exact .inr ⟨cs, by rw [hc]⟩
    · have hcount : ¬ 2 ≤ authority.count ':' := fun hcount => by
        obtain ⟨e, herror⟩ := authorityHost_colons hfront hcount
        rw [herror] at h
        cases h
      rw [authorityHost_plain hfront hcount] at h
      cases hsplit : rsplitOnce ':' authority with
      | none =>
        rw [hsplit] at h
        cases h
        exact .bare hfront (rsplitOnce_eq_none.mp hsplit)
      | some r =>
        obtain ⟨host', port⟩ := r
        obtain ⟨rfl, hport⟩ := rsplitOnce_char_eq_some.mp hsplit
        have hhost : ':' ∉ host' := (count_colon_lt_two hport).mp hcount
        rw [hsplit] at h
        cases hparse : parseU16 port with
        | none =>
          simp only [hparse, Option.isSome_none, Bool.false_eq_true, if_false, Except.ok.injEq] at h
          exact h ▸ .whole hfront hhost hport (parseU16_eq_none.mp hparse)
        | some n =>
          simp only [hparse, Option.isSome_some, if_true, Except.ok.injEq] at h
          exact h ▸ .ported hfront hhost (parseU16_eq_some.mp hparse)
  · intro h
    cases h with
    | @bracketed host tail hhost htail =>
      rw [authorityHost, splitOnce_char hhost]
      rcases htail with rfl | ⟨port, rfl⟩
      · rfl
      · rfl
    | bare hfront hhost =>
      have hcount : ¬ 2 ≤ authority.count ':' := by rw [List.count_eq_zero.mpr hhost]; omega
      rw [authorityHost_plain hfront hcount, rsplitOnce_eq_none.mpr hhost]
    | @ported _ port n hfront hhost hport =>
      have hcolon : ':' ∉ port := hport.not_mem (by decide) (by decide)
      have hparse : (parseU16 port).isSome = true := by
        rw [Option.isSome_iff_ne_none, Ne, parseU16_eq_none]
        exact fun h => h n hport
      rw [authorityHost_plain hfront ((count_colon_lt_two hcolon).mpr hhost), rsplitOnce_char host hcolon]
      simp only [hparse, if_true]
    | @whole host port hfront hhost hcolon hport =>
      rw [authorityHost_plain hfront ((count_colon_lt_two hcolon).mpr hhost), rsplitOnce_char host hcolon]
      simp only [parseU16_eq_none.mpr hport, Option.isSome_none, Bool.false_eq_true, if_false]

/-! ### Addresses -/

variable {query : BootstrapQuery} {bootstrap : List BootstrapTarget}

/-- The host is an address, or a bootstrap server answers a query for it. -/
def Resolves (query : BootstrapQuery) (host : Str) (bootstrap : List BootstrapTarget) : Prop :=
  (parseIpAddr (stripIpv6Brackets host)).isSome = true ∨
    ∃ target ∈ bootstrap, ∃ qtype ∈ [1, 28], ∃ ip, query host qtype target.addr target.mark = .ok ip

theorem queryTargets_ok_iff {queries : List (BootstrapTarget × Nat)} {lastErr : Option Chain} :
    (∃ ip, queryTargets query host queries lastErr = .ok ip) ↔
      ∃ q ∈ queries, ∃ ip, query host q.2 q.1.addr q.1.mark = .ok ip := by
  induction queries generalizing lastErr with
  | nil => simp [queryTargets]
  | cons q queries ih =>
    obtain ⟨target, qtype⟩ := q
    rw [queryTargets]
    cases hq : query host qtype target.addr target.mark with
    | ok ip => simp [hq]
    | error e =>
      dsimp only
      rw [ih]
      simp [hq]

theorem exists_query_iff :
    (∃ q ∈ bootstrap.flatMap (fun t => [(t, 1), (t, 28)]), ∃ ip, query host q.2 q.1.addr q.1.mark = .ok ip) ↔
      ∃ target ∈ bootstrap, ∃ qtype ∈ [1, 28], ∃ ip, query host qtype target.addr target.mark = .ok ip := by
  constructor
  · rintro ⟨q, hq, hok⟩
    obtain ⟨target, htarget, hq⟩ := List.mem_flatMap.mp hq
    refine ⟨target, htarget, q.2, ?_, ?_⟩
    · rcases List.mem_pair.mp hq with rfl | rfl <;> simp
    · rcases List.mem_pair.mp hq with rfl | rfl <;> exact hok
  · rintro ⟨target, htarget, qtype, hqtype, hok⟩
    refine ⟨(target, qtype), List.mem_flatMap.mpr ⟨target, htarget, ?_⟩, hok⟩
    rcases List.mem_pair.mp hqtype with rfl | rfl <;> simp

/-- A host resolves exactly when `resolve_host` gives an address. -/
theorem resolveHost_ok_iff {port : UInt16} :
    (∃ addr, resolveHost query host port bootstrap = .ok addr) ↔ Resolves query host bootstrap := by
  rw [Resolves, resolveHost]
  cases hip : parseIpAddr (stripIpv6Brackets host) with
  | some ip => simp
  | none =>
    dsimp only
    by_cases hempty : bootstrap.isEmpty = true
    · rw [if_pos hempty, List.isEmpty_iff.mp hempty]
      simp
    · rw [if_neg hempty]
      have hqueries :
          (∃ ip, queryTargets query host (bootstrap.flatMap fun t => [(t, 1), (t, 28)]) none = .ok ip) ↔ _ :=
        queryTargets_ok_iff
      cases hquery : queryTargets query host (bootstrap.flatMap fun t => [(t, 1), (t, 28)]) none with
      | ok ip =>
        exact iff_of_true ⟨_, rfl⟩ (.inr (exists_query_iff.mp (hqueries.mp ⟨ip, hquery⟩)))
      | error lastErr =>
        refine iff_of_false (by simp [withContext, Except.mapError]) fun h => ?_
        rcases h with h | h
        · cases h
        · obtain ⟨ip, hok⟩ := hqueries.mpr (exists_query_iff.mpr h)
          rw [hquery] at hok
          cases hok

variable {addr : SocketAddr}

theorem port_of_resolveHost {port : UInt16} (h : resolveHost query host port bootstrap = .ok addr) :
    addr.port = port := by
  rw [resolveHost] at h
  split at h
  · cases h
    exact SocketAddr.port_ofIp _ port
  · split_ifs at h
    split at h
    · cases h
      exact SocketAddr.port_ofIp _ port
    · cases h

/-! ### The port that is used -/

/-- The text of the port: what follows the colon behind the closing bracket, or behind the host. -/
def portText (authority : Str) : Option Str :=
  if authority.head? = some '[' then
    (splitOnce [']'] authority).bind fun r => stripPrefix [':'] r.2
  else (splitOnce [':'] authority).map (·.2)

theorem portText_bracketed (hhost : ']' ∉ host) (tail : Str) :
    portText ('[' :: (host ++ ']' :: tail)) = stripPrefix [':'] tail := by
  have hsplit : splitOnce [']'] ('[' :: (host ++ ']' :: tail)) = some ('[' :: host, tail) :=
    splitOnce_char (show ']' ∉ '[' :: host by simp [hhost]) tail
  rw [portText, List.head?_cons, if_pos rfl, hsplit, Option.bind_some]

theorem portText_colon {port : Str} (hfront : (host ++ ':' :: port).head? ≠ some '[')
    (hhost : ':' ∉ host) : portText (host ++ ':' :: port) = some port := by
  rw [portText, if_neg hfront, splitOnce_char hhost, Option.map_some]

variable {defaultPort : UInt16}

theorem authorityPort_of_none (h : LooksUp authority host) (hport : portText authority = none) :
    authorityPort authority defaultPort = defaultPort := by
  cases h with
  | @bracketed host tail hhost htail =>
    rcases htail with rfl | ⟨port, rfl⟩
    · have hlast : rsplitOnce ']' ('[' :: (host ++ [']'])) = some ('[' :: host, []) :=
        rsplitOnce_char ('[' :: host) (by simp)
      rw [authorityPort, List.head?_cons, if_pos rfl, hlast]
      rfl
    · have hcolon : stripPrefix [':'] (':' :: port) = some port := stripPrefix_eq_some.mpr rfl
      rw [portText_bracketed hhost, hcolon] at hport
      cases hport
  | bare hfront hhost =>
    rw [authorityPort, if_neg hfront, rsplitOnce_eq_none.mpr hhost]
    rfl
  | ported hfront hhost =>
    rw [portText_colon hfront hhost] at hport
    cases hport
  | whole hfront hhost =>
    rw [portText_colon hfront hhost] at hport
    cases hport

theorem authorityPort_of_isPort {port : Str} {n : Nat} (h : LooksUp authority host)
    (hport : portText authority = some port) (hn : IsPort true port n) :
    (authorityPort authority defaultPort).toNat = n := by
  have hparse : parseU16 port = some (UInt16.ofNat n) := by
    rw [parseU16_eq_some, UInt16.toNat_ofNat', Nat.mod_eq_of_lt hn.lt]
    exact hn
  have hnum : (UInt16.ofNat n).toNat = n := by rw [UInt16.toNat_ofNat', Nat.mod_eq_of_lt hn.lt]
  cases h with
  | @bracketed host tail hhost htail =>
    rw [portText_bracketed hhost] at hport
    obtain rfl := stripPrefix_eq_some.mp hport
    have hclosed : ']' ∉ [':'] ++ port := by simp [hn.not_mem]
    have hlast : rsplitOnce ']' ('[' :: (host ++ ']' :: ([':'] ++ port))) = some ('[' :: host, [':'] ++ port) :=
      rsplitOnce_char ('[' :: host) hclosed
    rw [authorityPort, List.head?_cons, if_pos rfl, hlast]
    simp only [Option.bind_some, hport, hparse, Option.getD_some]
    exact hnum
  | bare hfront hhost =>
    rw [portText, if_neg hfront, splitOnce_char_eq_none.mpr hhost] at hport
    cases hport
  | ported hfront hhost =>
    rw [portText_colon hfront hhost, Option.some.injEq] at hport
    subst hport
    rw [authorityPort, if_neg hfront, rsplitOnce_char _ (hn.not_mem (by decide) (by decide))]
    simp only [Option.bind_some, hparse, Option.getD_some]
    exact hnum
  | whole hfront hhost hcolon hnot =>
    rw [portText_colon hfront hhost, Option.some.injEq] at hport
    exact absurd hn (hport ▸ hnot n)

/-- The authority is not accepted: it has no host, or the host does not resolve. -/
def Refused (query : BootstrapQuery) (authority : Str) (bootstrap : List BootstrapTarget) : Prop :=
  ∀ host, LooksUp authority host → ¬ Resolves query host bootstrap

theorem resolveAuthority_eq_ok :
    resolveAuthority query authority defaultPort bootstrap = .ok (host, addr) ↔
      LooksUp authority host ∧
        resolveHost query host (authorityPort authority defaultPort) bootstrap = .ok addr := by
  rw [← authorityHost_eq_ok, resolveAuthority]
  cases hhost : authorityHost authority with
  | error e => simp [bind, Except.bind]
  | ok host' =>
    cases haddr : resolveHost query host' (authorityPort authority defaultPort) bootstrap with
    | error e =>
      simp only [bind, Except.bind, haddr]
      refine iff_of_false nofun ?_
      rintro ⟨heq, hok⟩
      cases heq
      rw [haddr] at hok
      cases hok
    | ok addr' =>
      simp only [bind, Except.bind, haddr, Except.ok.injEq, Prod.mk.injEq]
      refine and_congr_right ?_
      rintro rfl
      rw [haddr, Except.ok.injEq]

/-- Whenever the authority is accepted, the text behind the colon is the port that is used, and without a
colon the default is. -/
def PortKept (signed : Bool) (query : BootstrapQuery) (authority : Str) (defaultPort : UInt16)
    (bootstrap : List BootstrapTarget) : Prop :=
  ∀ host addr, resolveAuthority query authority defaultPort bootstrap = .ok (host, addr) →
    match portText authority with
    | some port => IsPort signed port addr.port.toNat
    | none => addr.port = defaultPort

/-- The port is kept exactly when its text is a port or the authority is not accepted. -/
theorem portKept_iff (signed : Bool) (query : BootstrapQuery) (authority : Str) (defaultPort : UInt16)
    (bootstrap : List BootstrapTarget) :
    PortKept signed query authority defaultPort bootstrap ↔
      (∀ port, portText authority = some port → ∃ n, IsPort signed port n) ∨
        Refused query authority bootstrap := by
  constructor
  · intro h
    by_contra hnot
    obtain ⟨⟨port, hport, hbad⟩, host, hhost, hresolves⟩ :
        (∃ port, portText authority = some port ∧ ∀ n, ¬ IsPort signed port n) ∧
          ∃ host, LooksUp authority host ∧ Resolves query host bootstrap := by
      simpa [Refused, not_or] using hnot
    obtain ⟨addr, haddr⟩ :
        ∃ addr, resolveHost query host (authorityPort authority defaultPort) bootstrap = .ok addr :=
      resolveHost_ok_iff.mpr hresolves
    have hkept := h host addr (resolveAuthority_eq_ok.mpr ⟨hhost, haddr⟩)
    rw [hport] at hkept
    exact hbad _ hkept
  · intro h host addr hok
    obtain ⟨hhost, haddr⟩ := resolveAuthority_eq_ok.mp hok
    have hused := port_of_resolveHost haddr
    rcases h with hports | hrefused
    · cases hport : portText authority with
      | none => exact hused.trans (authorityPort_of_none hhost hport)
      | some port =>
        obtain ⟨n, hn⟩ := hports port hport
        dsimp only
        rw [hused, authorityPort_of_isPort hhost hport hn.signed]
        exact hn
    · exact absurd (resolveHost_ok_iff.mp ⟨addr, haddr⟩) (hrefused host hhost)

/-- No bootstrap server answers. -/
def noAnswer : BootstrapQuery := fun _ _ _ _ => .error []

/-- Every bootstrap server answers with 8.8.8.8. -/
def oneAnswer : BootstrapQuery := fun _ _ _ _ => .ok (.v4 0x08080808)

theorem not_portKept {query : BootstrapQuery} {port : Str} {bootstrap : List BootstrapTarget}
    (hok : resolveAuthority query authority defaultPort bootstrap = .ok (host, addr))
    (hport : portText authority = some port) (hparse : parseU16 port = none) :
    ¬ PortKept true query authority defaultPort bootstrap := by
  intro h
  have hkept := h host addr hok
  rw [hport] at hkept
  exact parseU16_eq_none.mp hparse _ hkept

/-- A port out of range behind an address, and one that is no number behind a name that a bootstrap server
answers for: the default port 853 is used for both. -/
theorem malformed_ports_replaced :
    (resolveAuthority noAnswer "[::1]:99999".toList 853 [] = .ok ("::1".toList, .v6 1 853 0) ∧
      ¬ PortKept true noAnswer "[::1]:99999".toList 853 []) ∧
    resolveAuthority oneAnswer "dns.google:abc".toList 853 [⟨.v4 0x01010101 53, none⟩] =
        .ok ("dns.google:abc".toList, .v4 0x08080808 853) ∧
      ¬ PortKept true oneAnswer "dns.google:abc".toList 853 [⟨.v4 0x01010101 53, none⟩] := by
  have hnumber : resolveAuthority noAnswer "[::1]:99999".toList 853 [] = .ok ("::1".toList, .v6 1 853 0) := by
    decide +kernel
  have hname : resolveAuthority oneAnswer "dns.google:abc".toList 853 [⟨.v4 0x01010101 53, none⟩] =
      .ok ("dns.google:abc".toList, .v4 0x08080808 853) := by
    decide +kernel
  refine ⟨⟨hnumber, ?_⟩, hname, ?_⟩
  · exact not_portKept hnumber (show portText _ = some "99999".toList by decide +kernel) (by decide +kernel)
  · exact not_portKept hname (show portText _ = some "abc".toList by decide +kernel) (by decide +kernel)

end PathDns
