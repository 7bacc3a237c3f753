import Mathlib.Data.List.Basic

/-!
# Configuration data (`config/mod.rs`)

The parsed configuration, as far as routing, caching and fingerprinting read it. Text is a list of
characters.
-/

namespace PathDns

/-- A text of the configuration: a name, a tag, a pattern, a path. -/
abbrev Str := List Char

inductive IpAddr where
  | v4 (addr : BitVec 32)
  | v6 (addr : BitVec 128)
deriving DecidableEq, Repr

/-- `std::net::SocketAddr`; the flow label of an IPv6 address is always zero here. -/
inductive SocketAddr where
  | v4 (ip : BitVec 32) (port : UInt16)
  | v6 (ip : BitVec 128) (port : UInt16) (scopeId : UInt32)
deriving DecidableEq, Repr

structure EcsSubnet where
  addr : IpAddr
  prefixLen : UInt8
deriving DecidableEq, Repr

inductive EcsMode where
  | strip
  | forward
  | fixed (subnet : EcsSubnet)
deriving DecidableEq, Repr

inductive UpstreamProto where
  | udp
  | tcp
  | tls
  | https
  | quic
  | h3
deriving DecidableEq, Repr

structure UpstreamEndpoint where
  proto : UpstreamProto
  addr : SocketAddr
  serverName : Option Str
  path : Option Str
  noSni : Bool
  ecsMode : Option EcsMode
  mark : Option UInt32
deriving DecidableEq, Repr

inductive FixedAnswer where
  | a (addr : BitVec 32) (ttl : UInt32)
  | aaaa (addr : BitVec 128) (ttl : UInt32)
deriving DecidableEq, Repr

structure FixedAnswerSet where
  rcode : Option UInt8
  rcodeTtl : UInt32
  answers : List FixedAnswer
deriving DecidableEq, Repr

inductive ServerSpec where
  | upstream (endpoints : List UpstreamEndpoint)
  | fixed (set : FixedAnswerSet)
deriving DecidableEq, Repr

structure RuleCachePolicy where
  skip : Bool
  minTtl : Option UInt32
  maxTtl : Option UInt32
deriving DecidableEq, Repr

inductive RuleMatcher where
  | domain (pattern : Str)
  | tag (includes excludes : List Str)
deriving DecidableEq, Repr

structure AnswerIpMatcher where
  includes : List Str
  excludes : List Str
deriving DecidableEq, Repr

def AnswerIpMatcher.isEmpty (m : AnswerIpMatcher) : Bool := m.includes.isEmpty && m.excludes.isEmpty

inductive RuleFilterActionSpec where
  | accept
  | drop
  | forward (server : Str)
deriving DecidableEq, Repr

/-- `RuleFilterSpec`, without the set name of its `add-ip` side effect. -/
structure RuleFilterSpec where
  answerIp : AnswerIpMatcher
  responseType : List UInt16
  responseRcode : List UInt8
  responseQclass : List UInt16
  action : RuleFilterActionSpec
deriving DecidableEq, Repr

structure RuleSpec where
  matcher : List RuleMatcher
  server : Str
  cachePolicy : Option RuleCachePolicy
  filters : List RuleFilterSpec
deriving DecidableEq, Repr

/-- `IpSetConfig`: rule index, filter index, set name and whether the set is one of IPv6 addresses. -/
structure IpSetConfig where
  addRules : List (Nat × Nat × Str × Bool)
deriving DecidableEq, Repr

inductive FallbackTarget where
  | lastRule
  | server (name : Str)
  | dual (primary secondary : Str) (answerIp : AnswerIpMatcher)
deriving DecidableEq, Repr

structure FallbackConfig where
  target : FallbackTarget
  noipAsPrimaryIp : Bool
deriving DecidableEq, Repr

/-- `RuleSetFormat`, in the order of its discriminants. -/
inductive RuleSetFormat where
  | text
  | mrs
deriving DecidableEq, Repr

/-- `RuleSetBehavior`, in the order of its discriminants. -/
inductive RuleSetBehavior where
  | domain
  | ipCidr
deriving DecidableEq, Repr

structure RuleSetSpec where
  tag : Str
  format : RuleSetFormat
  behavior : RuleSetBehavior
  path : Str
deriving DecidableEq, Repr

/-- `Config`: the fields that routing, caching and the fingerprint read. -/
structure Config where
  fallback : FallbackConfig
  cacheMinTtl : UInt32
  cacheMaxTtl : UInt32
  servers : List (Str × ServerSpec)
  rules : List RuleSpec
  rulesetSpecs : List RuleSetSpec
deriving DecidableEq, Repr

end PathDns
