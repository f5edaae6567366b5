import BuiltOnEnvoy.Dns.VirtualIpCache
import Mathlib.Data.List.DropRight

/-!
# Configuration and query handling of the DNS gateway

The configuration check, the domain patterns, and the choice of the matcher
whose range answers a query. DNS names are parsed by a third-party library,
which is a parameter; messages are taken in decoded form and encoding a
response is taken to succeed.
-/

namespace BuiltOnEnvoy.Dns

open Foundations

structure DomainMatcher where
  domain : String
  metadata : Metadata
  baseIp : String
  prefixLen : ℕ
  deriving DecidableEq, Repr

structure DnsGateway where
  domains : List DomainMatcher
  failOpen : Bool
  deriving DecidableEq, Repr

namespace DomainMatcher

def parseBaseIp (m : DomainMatcher) : Option IpAddr :=
  IpAddr.parse m.baseIp

def maxPrefixLen (addr : IpAddr) : ℕ :=
  addr.width

end DomainMatcher

/-- What the configuration check reads off a parsed DNS name. -/
structure Name where
  isWildcard : Bool
  numLabels : ℕ
  deriving DecidableEq, Repr

/-- `Name::from_utf8`. -/
abbrev NameSyntax := String → Option Name

/-- The pattern check; a bare star skips the name parser. -/
def DomainMatcher.domainValid (fromUtf8 : NameSyntax) (m : DomainMatcher) : Bool :=
  m.domain == "*" ||
    match fromUtf8 m.domain with
    | none => false
    | some name => !(name.isWildcard && decide (name.numLabels < 2))

def DomainMatcher.valid (fromUtf8 : NameSyntax) (m : DomainMatcher) : Bool :=
  m.domainValid fromUtf8 &&
    match m.parseBaseIp with
    | none => false
    | some base => decide (1 ≤ m.prefixLen ∧ m.prefixLen ≤ DomainMatcher.maxPrefixLen base)

/-- A configuration that passed the check. -/
structure DnsGatewayFilterConfig (fromUtf8 : NameSyntax) where
  config : DnsGateway
  valid : ∀ m ∈ config.domains, m.valid fromUtf8 = true

def DnsGatewayFilterConfig.new? (fromUtf8 : NameSyntax) (g : DnsGateway) :
    Option (DnsGatewayFilterConfig fromUtf8) :=
  if h : ∀ m ∈ g.domains, m.valid fromUtf8 = true then some ⟨g, h⟩ else none

/-- The range of a matcher. -/
def DomainMatcher.range? (m : DomainMatcher) : Option IpNet :=
  m.parseBaseIp.map fun base => ⟨base, m.prefixLen⟩

theorem DomainMatcher.range_of_valid {fromUtf8 : NameSyntax} {m : DomainMatcher}
    (h : m.valid fromUtf8 = true) :
    ∃ net, m.range? = some net ∧ 1 ≤ net.prefixLen ∧ net.prefixLen ≤ net.addr.width := by
  cases hbase : m.parseBaseIp with
  | none => simp [valid, hbase] at h
  | some base =>
    have hlen : 1 ≤ m.prefixLen ∧ m.prefixLen ≤ base.width := by
      simp only [valid, hbase, Bool.and_eq_true, decide_eq_true_eq] at h
      exact h.2
    exact ⟨⟨base, m.prefixLen⟩, by simp [range?, hbase], hlen⟩

/-- A bare star matches every name; `*.base` matches exactly one more label. -/
def matchesDomain (pattern domain : String) : Bool :=
  if pattern = "*" then true
  else match pattern.toList.dropPrefix? ['*', '.'] with
    | none => domain == pattern
    | some base =>
      match domain.toList.dropSuffix? base with
      | none => false
      | some front =>
        match front.dropSuffix? ['.'] with
        | none => false
        | some label => !label.isEmpty && !label.contains '.'

inductive RecordType
  | a
  | aaaa
  | other (code : ℕ)
  deriving DecidableEq, Repr

inductive MessageType
  | query
  | response
  deriving DecidableEq, Repr

inductive ResponseCode
  | noError
  | other (code : ℕ)
  deriving DecidableEq, Repr

/-- A question; the name is the text the library renders it to. -/
structure Question where
  name : String
  queryType : RecordType
  deriving DecidableEq, Repr

structure Record where
  name : String
  ttl : ℕ
  data : IpAddr
  deriving DecidableEq, Repr

structure Message where
  messageType : MessageType
  responseCode : ResponseCode
  recursionAvailable : Bool
  authoritative : Bool
  queries : List Question
  answers : List Record
  deriving DecidableEq, Repr

def buildNodataResponse (query : Message) : Message :=
  { query with
    messageType := .response
    responseCode := .noError
    recursionAvailable := true
    authoritative := true }

def buildDnsResponse (query : Message) (name : String) (ip : IpAddr) : Message :=
  { buildNodataResponse query with answers := query.answers ++ [⟨name, 600, ip⟩] }

/-- The name of a question without its trailing dots. -/
def queriedDomain (question : Question) : String :=
  String.ofList (question.name.toList.rdropWhile (· == '.'))

/-- The first matcher whose pattern matches. -/
def DnsGateway.owner (g : DnsGateway) (domain : String) : Option DomainMatcher :=
  g.domains.find? fun m => matchesDomain m.domain domain

/-- The first matcher of the wanted family that has the owner's pattern. -/
def DnsGateway.familyMatcher (g : DnsGateway) (owner : DomainMatcher) (wantV6 : Bool) :
    Option DomainMatcher :=
  g.domains.find? fun m =>
    m.domain == owner.domain &&
      match m.parseBaseIp with
      | none => false
      | some ip => ip.isIpv6 == wantV6

/-- Allocate from the range of a matcher. The length of the range is narrowed
to a byte. -/
def DomainMatcher.allocate (m : DomainMatcher) (domain : String) (now : ℕ)
    (c : VirtualIpCache) : VirtualIpCache.Allocation :=
  match m.parseBaseIp with
  | none => ⟨none, c, []⟩
  | some base => c.allocateAt domain m.metadata base (m.prefixLen % 2 ^ 8) now

/-- The answer for one address family, once the owner of the name is known. -/
def DnsGateway.answer (g : DnsGateway) (query : Message) (question : Question)
    (owner : DomainMatcher) (wantV6 : Bool) (now : ℕ) (c : VirtualIpCache) :
    Option Message × VirtualIpCache :=
  match g.familyMatcher owner wantV6 with
  | none => (some (buildNodataResponse query), c)
  | some m =>
    match m.allocate (queriedDomain question) now c with
    | ⟨some ip, c, _⟩ => (some (buildDnsResponse query question.name ip), c)
    | ⟨none, c, _⟩ => (if g.failOpen then none else some (buildNodataResponse query), c)

/-- The answer to a decoded query, `none` to forward it, and the cache. -/
def DnsGateway.processDnsQuery (g : DnsGateway) (query : Message) (now : ℕ)
    (c : VirtualIpCache) : Option Message × VirtualIpCache :=
  if query.messageType ≠ .query then (none, c)
  else match query.queries.head? with
    | none => (none, c)
    | some question =>
      match g.owner (queriedDomain question) with
      | none => (none, c)
      | some owner =>
        match question.queryType with
        | .a => g.answer query question owner false now c
        | .aaaa => g.answer query question owner true now c
        | .other _ => (some (buildNodataResponse query), c)

section

variable (g : DnsGateway) (query : Message) (now : ℕ) (c : VirtualIpCache)

theorem DnsGateway.answer_cache_of_matcher (question : Question) {owner m : DomainMatcher}
    {wantV6 : Bool} (hm : g.familyMatcher owner wantV6 = some m) :
    (g.answer query question owner wantV6 now c).2 =
      (m.allocate (queriedDomain question) now c).cache := by
  rcases hip : m.allocate (queriedDomain question) now c with ⟨_ | ip, cache, evicted⟩ <;>
    simp [answer, hm, hip]

theorem DnsGateway.answer_cache (question : Question) (owner : DomainMatcher) (wantV6 : Bool) :
    (g.answer query question owner wantV6 now c).2 = c ∨
      ∃ m, g.familyMatcher owner wantV6 = some m ∧
        (g.answer query question owner wantV6 now c).2 =
          (m.allocate (queriedDomain question) now c).cache := by
  cases hm : g.familyMatcher owner wantV6 with
  | none => left; simp [answer, hm]
  | some m => exact Or.inr ⟨m, rfl, g.answer_cache_of_matcher query now c question hm⟩

/-- A query changes the cache by at most one allocation, from the range of the
matcher that is chosen for a domain. -/
theorem DnsGateway.processDnsQuery_cache :
    (g.processDnsQuery query now c).2 = c ∨
      ∃ domain owner wantV6 m, g.owner domain = some owner ∧
        g.familyMatcher owner wantV6 = some m ∧
        (g.processDnsQuery query now c).2 = (m.allocate domain now c).cache := by
  fun_cases DnsGateway.processDnsQuery g query now c with
  | case1 | case2 | case3 => exact Or.inl rfl
  | case4 _ question _ owner howner _ =>
    rcases g.answer_cache query now c question owner false with heq | ⟨m, hm, heq⟩
    · exact Or.inl heq
    · exact Or.inr ⟨_, owner, false, m, howner, hm, heq⟩
  | case5 _ question _ owner howner _ =>
    rcases g.answer_cache query now c question owner true with heq | ⟨m, hm, heq⟩
    · exact Or.inl heq
    · exact Or.inr ⟨_, owner, true, m, howner, hm, heq⟩
  | case6 => exact Or.inl rfl

end

end BuiltOnEnvoy.Dns
