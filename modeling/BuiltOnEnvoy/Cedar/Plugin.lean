import BuiltOnEnvoy.Opa.Plugin

/-!
# The Cedar filter

The filter decides in the callback for the request headers and lets everything else
pass. The policies are a function of the authorization request. The attributes of
the handle, the header map and the parsing of a path are those of the OPA filter.
A set is the list of its values.
-/

namespace BuiltOnEnvoy.Cedar

open Foundations
open Opa (Attributes Decision MetadataValue orElse content)
open Saml (DataSource)

structure Config where
  principalType : String
  principalIDHeader : String
  actionType : String
  resourceType : String
  denyStatus : ℤ
  denyBody : String
  denyHeaders : List (String × String)
  failOpen : Bool
  dryRun : Bool
  metadataNamespaces : List String

structure Library extends Opa.Library where
  /-- `%q` -/
  quote : String → String

structure EntityUID where
  entityType : String
  id : String
  deriving DecidableEq

inductive ContextMetadata
  | text (value : String)
  | long (value : ℤ)

structure Context where
  method : String
  path : String
  host : String
  scheme : String
  protocol : String
  headers : GoMap String String
  sourceAddress : String
  uriSan : String
  dnsSan : String
  subject : String
  sha256Digest : String
  destinationAddress : String
  mtls : Bool
  tlsVersion : String
  dynamicMetadata : GoMap String (GoMap String ContextMetadata)
  parsedPath : List String
  parsedQuery : GoMap String (List String)

structure Request where
  principal : EntityUID
  action : EntityUID
  resource : EntityUID
  context : Context

def contextMetadata : MetadataValue → ContextMetadata
  | .text value => .text value
  | .number value => .long (truncate value)

def dynamicMetadataMap (config : Config) (attrs : Attributes) :
    GoMap String (GoMap String ContextMetadata) :=
  (Opa.dynamicMetadataMap config.metadataNamespaces attrs).filterMap fun _ ns =>
    some (ns.filterMap fun _ value => some (contextMetadata value))

def buildContext (lib : Opa.Library) (config : Config) (attrs : Attributes) (headers : Headers) :
    Context :=
  let path := headers.getOne ":path"
  { method := headers.getOne ":method"
    path := path
    host := headers.getOne ":authority"
    scheme := orElse (headers.getOne ":scheme") "http"
    protocol := orElse attrs.protocol "HTTP/1.1"
    headers := Opa.headerMap headers
    sourceAddress := attrs.sourceAddress
    uriSan := attrs.uriSanPeer
    dnsSan := attrs.dnsSanPeer
    subject := attrs.subjectPeer
    sha256Digest := attrs.sha256Digest
    destinationAddress := attrs.destinationAddress
    mtls := attrs.mtls
    tlsVersion := attrs.tlsVersion
    dynamicMetadata := dynamicMetadataMap config attrs
    parsedPath := (Opa.parsePath lib path).1
    parsedQuery := (Opa.parsePath lib path).2 }

def buildRequest (lib : Library) (config : Config) (attrs : Attributes) (headers : Headers) :
    Except String Request :=
  let principalID :=
    if config.principalIDHeader ≠ "" then headers.getOne config.principalIDHeader else ""
  if principalID = "" then
    .error ("principal header " ++ lib.quote config.principalIDHeader ++ " is empty or missing")
  else
    .ok
      { principal := ⟨config.principalType, principalID⟩
        action := ⟨orElse config.actionType "Action", headers.getOne ":method"⟩
        resource := ⟨orElse config.resourceType "Resource",
          String.ofList ((headers.getOne ":path").toList.takeWhile (· ≠ '?'))⟩
        context := buildContext lib.toLibrary config attrs headers }

/-- The decision of the policies and the errors in their evaluation. -/
structure Answer where
  allow : Bool
  errors : List String

abbrev Policies := Request → Answer

structure LocalResponse where
  status : ℕ
  headers : List (String × String)
  body : String
  details : String

/-- What the callback does: whether it continues, what it sends and the value under which the
request is counted if the counter is defined. -/
structure Outcome where
  continues : Bool
  response : Option LocalResponse
  counted : List Decision

def denial (config : Config) : LocalResponse where
  status := ((if config.denyStatus = 0 then 403 else config.denyStatus) % 2 ^ 32).toNat
  headers := config.denyHeaders
  body := orElse config.denyBody "Forbidden"
  details := "cedar_denied"

def onRequestHeaders (lib : Library) (config : Config) (policies : Policies)
    (attrs : Attributes) (headers : Headers) : Outcome :=
  match buildRequest lib config attrs headers with
  | .error _ =>
    if config.failOpen then ⟨true, none, [.failOpen]⟩
    else ⟨false, some ⟨403, [], "Forbidden", "cedar_denied"⟩, [.denied]⟩
  | .ok request =>
    let answer := policies request
    if answer.errors ≠ [] then
      if config.failOpen then ⟨true, none, [.failOpen]⟩
      else ⟨false, some ⟨500, [], "Internal Server Error", "cedar_eval_error"⟩, [.denied]⟩
    else if answer.allow then ⟨true, none, if config.dryRun then [] else [.allowed]⟩
    else if config.dryRun then ⟨true, none, [.dryAllow]⟩
    else ⟨false, some (denial config), [.denied]⟩

structure RawConfig extends Config where
  policy : DataSource
  entitiesFile : String

/-- What parsing a configuration takes from the libraries and the file system. -/
structure Sources (Entities : Type) where
  unmarshal : Bytes → Except String RawConfig
  readFile : String → Except String Bytes
  newPolicySet : Bytes → Except String (Entities → Policies)
  noEntities : Entities
  unmarshalEntities : Bytes → Except String Entities

def parseEntities {Entities : Type} (src : Sources Entities) (file : String) :
    Except String Entities :=
  if file = "" then .ok src.noEntities
  else
    match src.readFile file with
    | .error err => .error ("failed to read entities file: " ++ err)
    | .ok text =>
      match src.unmarshalEntities text with
      | .error err => .error ("failed to parse entities: " ++ err)
      | .ok entities => .ok entities

/-- There is no configuration for an empty text. -/
def parseConfig {Entities : Type} (src : Sources Entities) (data : Bytes) :
    Except String (Option (Config × Policies)) :=
  if data = [] then .ok none
  else
    match src.unmarshal data with
    | .error err => .error ("failed to parse config: " ++ err)
    | .ok raw =>
      if raw.principalType = "" then .error "principal_type is required"
      else if raw.principalIDHeader = "" then .error "principal_id_header is required"
      else
        match raw.policy.validate with
        | .error err => .error ("invalid 'policy' configuration: " ++ err)
        | .ok () =>
          match content src.readFile raw.policy with
          | .error err => .error ("failed to get policy content: " ++ err)
          | .ok text =>
            match src.newPolicySet text with
            | .error err => .error ("failed to parse policy: " ++ err)
            | .ok policySet =>
              match parseEntities src raw.entitiesFile with
              | .error err => .error err
              | .ok entities => .ok (some (raw.toConfig, policySet entities))

end BuiltOnEnvoy.Cedar
