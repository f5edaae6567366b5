import BuiltOnEnvoy.Foundations.IpNet
import Mathlib

/-!
# The virtual IP cache of the DNS gateway

The cache hands out addresses of configured ranges to domains. It keeps a map
in each direction and one offset counter for each range. Operations run one
after another and take the time in milliseconds as an argument; a `u64` is a
natural number, reduced modulo `2 ^ 64` where the source can wrap.

Beside what the source returns, `evictIdleAt` and `allocateAt` return the
addresses whose entries they evicted.
-/

namespace BuiltOnEnvoy.Dns

open Foundations

abbrev Metadata := List (String × String)

/-- A CIDR range as `IpNet::new` builds it: host bits are kept. -/
abbrev IpNet := Foundations.IpNet

def IpNet.new? (addr : IpAddr) (prefixLen : ℕ) : Option IpNet :=
  if prefixLen ≤ addr.width then some ⟨addr, prefixLen⟩ else none

/-- Safety limits; durations are in nanoseconds. -/
structure CacheLimits where
  maxEntries : ℕ
  idleTtl : ℕ
  maxAllocsPerWindow : ℕ
  rateWindow : ℕ
  deriving DecidableEq, Repr

def CacheLimits.default : CacheLimits :=
  { maxEntries := 65536
    idleTtl := 3600 * 10 ^ 9
    maxAllocsPerWindow := 1000
    rateWindow := 10 ^ 9 }

/-- `as_millis() as u64`. -/
def asMillis (duration : ℕ) : ℕ :=
  duration / 10 ^ 6 % 2 ^ 64

def u64Max : ℕ := 2 ^ 64 - 1

/-- Addresses in a CIDR range, saturating at `u128::MAX` for an IPv6 `/0`. -/
def cidrCapacity (base : IpAddr) (prefixLen : ℕ) : ℕ :=
  let hostBits := base.width - prefixLen
  if hostBits < 128 then 2 ^ hostBits else 2 ^ 128 - 1

/-- The number of offsets that can be minted from a range. -/
def IpNet.capacity (net : IpNet) : ℕ :=
  min (cidrCapacity net.addr net.prefixLen) u64Max

structure CacheEntry where
  domain : String
  metadata : Metadata
  lastUsedMs : ℕ
  deriving DecidableEq, Repr

structure VirtualIpCache where
  ipToDest : AList fun _ : IpAddr => CacheEntry
  domainToIp : AList fun _ : String × Bool => IpAddr
  offsets : AList fun _ : IpNet => ℕ
  limits : CacheLimits
  rateWindowStartMs : ℕ
  rateWindowCount : ℕ

namespace VirtualIpCache

def withLimits (limits : CacheLimits) : VirtualIpCache :=
  { ipToDest := ∅
    domainToIp := ∅
    offsets := ∅
    limits := limits
    rateWindowStartMs := 0
    rateWindowCount := 0 }

def len (c : VirtualIpCache) : ℕ := c.ipToDest.entries.length

/-- Refresh the idle timer of an address, if it has an entry. -/
def touch (c : VirtualIpCache) (ip : IpAddr) (now : ℕ) : VirtualIpCache :=
  match c.ipToDest.lookup ip with
  | none => c
  | some e => { c with ipToDest := c.ipToDest.insert ip { e with lastUsedMs := now } }

/-- The fixed-window rate limiter. Without concurrent callers its
compare-and-swap always succeeds. -/
def tryConsumeRateToken (c : VirtualIpCache) (now : ℕ) : Bool × VirtualIpCache :=
  let windowMs := asMillis c.limits.rateWindow
  if windowMs = 0 ∨ c.limits.maxAllocsPerWindow = 0 then
    (c.limits.maxAllocsPerWindow ≠ 0, c)
  else if now - c.rateWindowStartMs ≥ windowMs then
    (true, { c with rateWindowStartMs := now, rateWindowCount := 1 })
  else if c.rateWindowCount < c.limits.maxAllocsPerWindow then
    (true, { c with rateWindowCount := (c.rateWindowCount + 1) % 2 ^ 64 })
  else
    (false, { c with rateWindowCount := c.limits.maxAllocsPerWindow })

/-- The address and the reverse key of every entry idle for at least the TTL. -/
def stale (c : VirtualIpCache) (now : ℕ) : List (IpAddr × (String × Bool)) :=
  (c.ipToDest.entries.filter fun e => now - e.2.lastUsedMs ≥ asMillis c.limits.idleTtl).map
    fun e => (e.1, (e.2.domain, e.1.isIpv6))

/-- Drop one stale entry, and its reverse mapping if that still points at it. -/
def removeStale (c : VirtualIpCache) (s : IpAddr × (String × Bool)) : VirtualIpCache :=
  { c with
    ipToDest := c.ipToDest.erase s.1
    domainToIp := if c.domainToIp.lookup s.2 = some s.1 then c.domainToIp.erase s.2
      else c.domainToIp }

/-- Evict every idle entry. -/
def evictIdleAt (c : VirtualIpCache) (now : ℕ) : VirtualIpCache × List IpAddr :=
  if asMillis c.limits.idleTtl = 0 then (c, [])
  else
    let stale := c.stale now
    (stale.foldl removeStale c, stale.map Prod.fst)

/-- Take the next offset of a range; `none` when the range is exhausted. -/
def nextOffset (c : VirtualIpCache) (net : IpNet) : Option ℕ × VirtualIpCache :=
  let n := (c.offsets.lookup net).getD 0
  if n < net.capacity then (some n, { c with offsets := c.offsets.insert net (n + 1) })
  else (none, { c with offsets := c.offsets.insert net n })

/-- The vacant branch of the allocation: mint an address and store both maps. -/
def mint (c : VirtualIpCache) (domain : String) (metadata : Metadata) (base : IpAddr)
    (prefixLen now : ℕ) : Option IpAddr × VirtualIpCache :=
  match IpNet.new? base prefixLen with
  | none => (none, c)
  | some net =>
    match c.nextOffset net with
    | (none, c) => (none, c)
    | (some offset, c) =>
      match base.add offset with
      | none => (none, c)
      | some ip =>
        (some ip, { c with
          ipToDest := c.ipToDest.insert ip ⟨domain, metadata, now⟩
          domainToIp := c.domainToIp.insert (domain, base.isIpv6) ip })

/-- Make room when the entry cap is reached. -/
def reclaim (c : VirtualIpCache) (now : ℕ) : VirtualIpCache × List IpAddr :=
  if c.len ≥ c.limits.maxEntries then c.evictIdleAt now else (c, [])

structure Allocation where
  ip : Option IpAddr
  cache : VirtualIpCache
  evicted : List IpAddr

def allocateAt (c : VirtualIpCache) (domain : String) (metadata : Metadata) (base : IpAddr)
    (prefixLen now : ℕ) : Allocation :=
  match c.domainToIp.lookup (domain, base.isIpv6) with
  | some ip => ⟨some ip, c.touch ip now, []⟩
  | none =>
    match c.tryConsumeRateToken now with
    | (false, c) => ⟨none, c, []⟩
    | (true, c) =>
      match c.reclaim now with
      | (c, evicted) =>
        if c.len ≥ c.limits.maxEntries then ⟨none, c, evicted⟩
        else match c.domainToIp.lookup (domain, base.isIpv6) with
          | some ip => ⟨some ip, c.touch ip now, evicted⟩
          | none =>
            match c.mint domain metadata base prefixLen now with
            | (ip, c) => ⟨ip, c, evicted⟩

def lookup (c : VirtualIpCache) (ip : IpAddr) (now : ℕ) :
    Option (String × Metadata) × VirtualIpCache :=
  ((c.ipToDest.lookup ip).map fun e => (e.domain, e.metadata), c.touch ip now)

def flush (c : VirtualIpCache) : VirtualIpCache :=
  { c with
    ipToDest := ∅
    domainToIp := ∅
    offsets := ∅
    rateWindowStartMs := 0
    rateWindowCount := 0 }

end VirtualIpCache

end BuiltOnEnvoy.Dns
