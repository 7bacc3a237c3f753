import Mathlib.Data.Char
import Mathlib.Data.List.Lex
import Mathlib.Data.List.Sort
import PathDns.Config.Types
import PathDns.Dns.Query
import PathDns.Lib.RustAddr

/-!
# The config fingerprint (`config/fingerprint.rs`)

What `cache_fingerprint` feeds to its hasher, as a stream of bytes and separators, and the hash of the
stream. The metadata of the ruleset files is an input: for each specification the modification time of its
file in nanoseconds and its length.
-/

namespace PathDns

open Bytes RustFmt

/-- What is fed to the hasher. -/
inductive Token where
  | byte (b : UInt8)
  | sep
deriving DecidableEq, Repr

/-- `str::as_bytes`. -/
def strBytes (s : Str) : List UInt8 := s.flatMap String.utf8EncodeChar

/-- `feed!`. -/
def feed (bytes : List UInt8) : List Token := bytes.map .byte

def feedStr (s : Str) : List Token := feed (strBytes s)

/-! ### Debug texts of the configuration -/

section DebugTexts

-- the characters the standard library writes as a Unicode escape
variable (special : Char → Bool)

def ipText : IpAddr → Text
  | .v4 a => ipv4Text a
  | .v6 a => ipv6Text a

def socketText : SocketAddr → Text
  | .v4 ip port => ipv4Text ip ++ ':' :: dec port.toNat
  | .v6 ip port scopeId =>
    '[' :: ipv6Text ip ++ (if scopeId = 0 then [] else '%' :: dec scopeId.toNat) ++ [']', ':'] ++
      dec port.toNat

def subnetText (subnet : EcsSubnet) : Text :=
  structText "EcsSubnet" [("addr", ipText subnet.addr), ("prefix_len", dec subnet.prefixLen.toNat)]

def ecsModeText : EcsMode → Text
  | .strip => lit "Strip"
  | .forward => lit "Forward"
  | .fixed subnet => tupleText "Fixed" [subnetText subnet]

def protoText : UpstreamProto → Text
  | .udp => lit "Udp"
  | .tcp => lit "Tcp"
  | .tls => lit "Tls"
  | .https => lit "Https"
  | .quic => lit "Quic"
  | .h3 => lit "H3"

def endpointText (e : UpstreamEndpoint) : Text :=
  structText "UpstreamEndpoint"
    [("proto", protoText e.proto), ("addr", socketText e.addr),
      ("server_name", optionText (strText special) e.serverName),
      ("path", optionText (strText special) e.path), ("no_sni", boolText e.noSni),
      ("ecs_mode", optionText ecsModeText e.ecsMode),
      ("mark", optionText (fun m : UInt32 => dec m.toNat) e.mark)]

def answerText : FixedAnswer → Text
  | .a addr ttl => tupleText "A" [ipv4Text addr, dec ttl.toNat]
  | .aaaa addr ttl => tupleText "Aaaa" [ipv6Text addr, dec ttl.toNat]

def answerSetText (set : FixedAnswerSet) : Text :=
  structText "FixedAnswerSet"
    [("rcode", optionText (fun r : UInt8 => dec r.toNat) set.rcode),
      ("rcode_ttl", dec set.rcodeTtl.toNat), ("answers", listText answerText set.answers)]

def serverText : ServerSpec → Text
  | .upstream endpoints => tupleText "Upstream" [listText (endpointText special) endpoints]
  | .fixed set => tupleText "Fixed" [answerSetText set]

def matcherText : RuleMatcher → Text
  | .domain pattern => tupleText "Domain" [strText special pattern]
  | .tag includes excludes => structText "Tag"
      [("include", listText (strText special) includes), ("exclude", listText (strText special) excludes)]

end DebugTexts

/-! ### The stream -/

/-- `sort_unstable` on strings: their byte order is that of their code points. -/
def sortTags (tags : List Str) : List Str := tags.insertionSort (· ≤ ·)

/-- Tags fed one by one, each with its separator. -/
def feedTags (tags : List Str) : List Token := (sortTags tags).flatMap (fun t => feedStr t ++ [.sep])

/-- What one filter feeds. -/
def feedFilter (f : RuleFilterSpec) : List Token :=
  feedTags f.answerIp.includes ++ [.sep] ++ feedTags f.answerIp.excludes ++ [.sep] ++
    feed (f.responseType.flatMap (fun t => encLe 2 t.toNat)) ++ [.sep] ++
    feed f.responseRcode ++ [.sep] ++
    feed (f.responseQclass.flatMap (fun c => encLe 2 c.toNat)) ++ [.sep] ++
    (match f.action with
      | .accept => feedStr (lit "accept")
      | .drop => feedStr (lit "drop")
      | .forward name => feedStr (lit "forward") ++ feedStr name) ++ [.sep]

/-- What the cache policy of a rule feeds; a missing TTL is fed as zero. -/
def policyBytes : Option RuleCachePolicy → List UInt8
  | none => []
  | some p => [if p.skip then 1 else 0] ++ encLe 4 (p.minTtl.getD 0).toNat ++
      encLe 4 (p.maxTtl.getD 0).toNat

/-- What one rule feeds. -/
def feedRule (special : Char → Bool) (g : RuleSpec) : List Token :=
  feedStr g.server ++ [.sep] ++ feedStr (listText (matcherText special) g.matcher) ++ [.sep] ++
    g.filters.flatMap feedFilter ++ [.sep] ++ feed (policyBytes g.cachePolicy) ++ [.sep]

/-- What the fallback target feeds. Nothing separates the two servers and the first tag. -/
def feedFallback : FallbackTarget → List Token
  | .lastRule => feedStr (lit "last-rule")
  | .server name => feedStr (lit "server") ++ feedStr name
  | .dual primary secondary answerIp =>
    feedStr (lit "none") ++ feedStr primary ++ feedStr secondary ++ feedTags answerIp.includes ++
      [.sep] ++ feedTags answerIp.excludes

/-- `as u8` of the format and the behaviour. -/
def RuleSetFormat.toByte : RuleSetFormat → UInt8
  | .text => 0
  | .mrs => 1

def RuleSetBehavior.toByte : RuleSetBehavior → UInt8
  | .domain => 0
  | .ipCidr => 1

/-- Modification time and length of the file of a specification, none when they cannot be read. -/
abbrev Metadata := RuleSetSpec → Option (UInt64 × UInt64)

def metadataBytes : Option (UInt64 × UInt64) → List UInt8
  | none => []
  | some (mtime, len) => encLe 8 mtime.toNat ++ encLe 8 len.toNat

/-- What one ruleset specification feeds. -/
def feedRuleset (metadata : Metadata) (spec : RuleSetSpec) : List Token :=
  feedStr spec.tag ++ feed [spec.format.toByte, spec.behavior.toByte] ++ feedStr spec.path ++
    feed (metadataBytes (metadata spec)) ++ [.sep]

/-- The stream `cache_fingerprint` feeds to its hasher. -/
def fingerprintTokens (special : Char → Bool) (metadata : Metadata) (cfg : Config) : List Token :=
  cfg.servers.flatMap (fun s => feedStr s.1 ++ [.sep] ++ feedStr (serverText special s.2) ++ [.sep]) ++
    [.sep] ++ cfg.rules.flatMap (feedRule special) ++ feedFallback cfg.fallback.target ++ [.sep] ++
    feed [if cfg.fallback.noipAsPrimaryIp then 1 else 0] ++ [.sep] ++
    feed (encLe 4 cfg.cacheMinTtl.toNat ++ encLe 4 cfg.cacheMaxTtl.toNat) ++ [.sep] ++
    cfg.rulesetSpecs.flatMap (feedRuleset metadata)

def Fnv1a.writeToken (h : Fnv1a) : Token → Fnv1a
  | .byte b => h.writeByte b
  | .sep => h.writeSep

def cacheFingerprint (special : Char → Bool) (metadata : Metadata) (cfg : Config) : UInt64 :=
  ((fingerprintTokens special metadata cfg).foldl Fnv1a.writeToken Fnv1a.new).finish

end PathDns
