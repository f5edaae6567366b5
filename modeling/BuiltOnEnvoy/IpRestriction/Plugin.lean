import BuiltOnEnvoy.Foundations.IpNet
import Mathlib.Data.Finset.Basic

/-!
# The IP restriction filter

The configuration and `on_request_headers`. Decoding the JSON configuration and
blocks of addresses are parameters, and so is the order in which a hash set is
visited. A slice out of range panics and has no result. The rendered
peer address is a text of ASCII characters, one for each byte.
-/

namespace BuiltOnEnvoy.IpRestriction

open Foundations

structure RawFilterConfig where
  denyAddresses : Finset String
  allowAddresses : Finset String

structure FilterConfigImpl where
  denyAddressesExact : Finset IpAddr
  allowAddressesExact : Finset IpAddr
  denyAddressesCidr : List IpNet
  allowAddressesCidr : List IpNet

/-- The libraries: `serde_json::from_str`, `IpNet::from_str`, `IpNet::contains` and the
iteration of a hash set. A block contains the addresses of its network. -/
structure Library where
  fromStr : String → Option RawFilterConfig
  parseNet : String → Option IpNet
  contains : IpNet → IpAddr → Bool
  iter : Finset String → List String
  contains_iff : ∀ net ip, contains net ip = true ↔ net.Covers ip

variable (lib : Library)

/-- One turn of the loop over the entries of a list. -/
def addEntry (acc : Finset IpAddr × List IpNet) (entry : String) :
    Option (Finset IpAddr × List IpNet) :=
  match IpAddr.parse entry with
  | some ip => some (insert ip acc.1, acc.2)
  | none =>
    match lib.parseNet entry with
    | some net => some (acc.1, acc.2 ++ [net])
    | none => none

def parseEntries (entries : Finset String) : Option (Finset IpAddr × List IpNet) :=
  (lib.iter entries).foldlM (addEntry lib) (∅, [])

/-- `FilterConfig::new` -/
def newFilterConfig (filterConfig : String) : Option FilterConfigImpl :=
  match lib.fromStr filterConfig with
  | none => none
  | some raw =>
    if raw.denyAddresses = ∅ ↔ raw.allowAddresses = ∅ then none
    else
      match parseEntries lib raw.allowAddresses with
      | none => none
      | some allow =>
        match parseEntries lib raw.denyAddresses with
        | none => none
        | some deny =>
          some { denyAddressesExact := deny.1
                 allowAddressesExact := allow.1
                 denyAddressesCidr := deny.2
                 allowAddressesCidr := allow.2 }

/-- `matches` -/
def matchesAny (ip : IpAddr) (exact : Finset IpAddr) (cidrs : List IpNet) : Bool :=
  ip ∈ exact ∨ cidrs.any fun net => lib.contains net ip

/-- `&text[start..stop]` -/
def slice (text : List Char) (start stop : ℕ) : Option (List Char) :=
  if start ≤ stop ∧ stop ≤ text.length then some ((text.take stop).drop start) else none

/-- The address without the colon and the port. The length of the slice is
computed without a check, and wraps around to a length out of range. -/
def stripPort (address : List Char) (port : ℤ) : Option (List Char) :=
  let digits := (toString port).length
  if address.length < digits + 1 then none
  else slice address 0 (address.length - digits - 1)

/-- The address without the brackets of an IPv6 address. -/
def stripBrackets (address : List Char) : Option (List Char) :=
  if address.head? = some '[' ∧ address.getLast? = some ']' then
    slice address 1 (address.length - 1)
  else some address

inductive Reply
  | continue
  | localResponse (status : ℕ) (body : String)
  deriving DecidableEq

def noRemoteAddress : Reply := .localResponse 403 "No remote address and request is forbidden."

def forbidden : Reply := .localResponse 403 "Request is forbidden."

/-- The checks of the allow list and of the deny list. -/
def checkAddress (cfg : FilterConfigImpl) (ip : IpAddr) : Reply :=
  if (cfg.allowAddressesExact ≠ ∅ ∨ cfg.allowAddressesCidr ≠ []) ∧
      ¬matchesAny lib ip cfg.allowAddressesExact cfg.allowAddressesCidr then
    forbidden
  else if matchesAny lib ip cfg.denyAddressesExact cfg.denyAddressesCidr then forbidden
  else .continue

/-- The reply to a request from an address with its port; none is a panic. -/
def onRequestHeaders (cfg : FilterConfigImpl) (sourceAddress : Option (List Char))
    (sourcePort : Option ℤ) : Option Reply :=
  match sourceAddress, sourcePort with
  | some address, some port =>
    match stripPort address port with
    | none => none
    | some downstreamAddr =>
      match stripBrackets downstreamAddr with
      | none => none
      | some ipStr =>
        match IpAddr.parse (String.ofList ipStr) with
        | none => some noRemoteAddress
        | some ip => some (checkAddress lib cfg ip)
  | _, _ => some noRemoteAddress

end BuiltOnEnvoy.IpRestriction
