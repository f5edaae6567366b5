import BuiltOnEnvoy.Foundations.GoAny
import BuiltOnEnvoy.Foundations.Numbers
import BuiltOnEnvoy.OpenApiValidator.Plugin
import BuiltOnEnvoy.Saml.Config

/-!
# The OPA filter

The policy is evaluated with the headers of a request, or with `with_body` at its
end. The engine is a function of the input document; queries and numbers are parsed
by `Library`. A loop over a map visits its entries in their order. The ways to
deliver a request are those of the OpenAPI validator, and the data sources of the
policies are those of the SAML filter.
-/

namespace BuiltOnEnvoy.Opa

open Foundations
open OpenApiValidator (Callback Framing bytesOf)
open Saml (DataSource)

/-- The parsed configuration, without the policies: they are in the engine. -/
structure Config where
  failOpen : Bool
  dryRun : Bool
  withBody : Bool
  metadataNamespaces : List String

/-- The values of a tag of the counter. -/
inductive Decision
  | allowed
  | denied
  | failOpen
  | dryAllow
  deriving DecidableEq

inductive MetadataValue
  | text (value : String)
  | number (value : ℚ)

/-- What the filter reads from its handle besides headers and body. -/
structure Attributes where
  protocol : String
  sourceAddress : String
  destinationAddress : String
  uriSanPeer : String
  dnsSanPeer : String
  subjectPeer : String
  sha256Digest : String
  tlsVersion : String
  mtls : Bool
  /-- The keys of a namespace, with a value when it is a text or a number. -/
  metadata : String → List (String × Option MetadataValue)

structure Library where
  /-- `url.ParseQuery` -/
  parseQuery : String → Option (GoMap String (List String))
  /-- The literal of a number is within the range of a float. -/
  floatFits : NumberLiteral → Bool
  /-- What decoding leaves of a number out of range, as for `leftover`. -/
  outOfRange : NumberLiteral → Option Bool

structure Input where
  method : String
  path : String
  host : String
  scheme : String
  protocol : String
  headers : GoMap String String
  sourceAddress : String
  uriSan : String
  dnsSan : String
  subject : String
  sha256Digest : String
  destinationAddress : String
  mtls : Bool
  tlsVersion : String
  dynamicMetadata : GoMap String (GoMap String MetadataValue)
  parsedPath : List String
  parsedQuery : GoMap String (List String)
  /-- Absent when the parsed body is nil. -/
  body : Option Any

/-- `cmp.Or` of two texts. -/
def orElse (text default : String) : String := if text = "" then default else text

def headerMap (headers : Headers) : GoMap String String :=
  headers.foldl (fun m h => if h.1.startsWith ":" then m else m.set h.1 h.2) .empty

def namespaceMap (entries : List (String × Option MetadataValue)) : GoMap String MetadataValue :=
  entries.foldl
    (fun m e => match e.2 with
      | some value => m.set e.1 value
      | none => m)
    .empty

def dynamicMetadataMap (namespaces : List String) (attrs : Attributes) :
    GoMap String (GoMap String MetadataValue) :=
  namespaces.foldl
    (fun dm ns =>
      let nsMap := namespaceMap (attrs.metadata ns)
      if nsMap.entries = [] then dm else dm.set ns nsMap)
    .empty

/-- The segments of the path and the parameters of the query. -/
def parsePath (lib : Library) (fullPath : String) : List String × GoMap String (List String) :=
  let pathPart := fullPath.toList.takeWhile (· ≠ '?')
  let queryPart := (fullPath.toList.dropWhile (· ≠ '?')).tail
  let trimmed := if pathPart.head? = some '/' then pathPart.tail else pathPart
  let query :=
    if queryPart = [] then .empty else (lib.parseQuery (String.ofList queryPart)).getD .empty
  ((trimmed.splitOn '/').map String.ofList, query)

def presentBody : Any → Option Any
  | .nil => none
  | value => some value

def buildInput (lib : Library) (config : Config) (attrs : Attributes) (headers : Headers)
    (parsedBody : Any) : Input :=
  let path := headers.getOne ":path"
  { method := headers.getOne ":method"
    path := path
    host := headers.getOne ":authority"
    scheme := orElse (headers.getOne ":scheme") "http"
    protocol := orElse attrs.protocol "HTTP/1.1"
    headers := headerMap headers
    sourceAddress := attrs.sourceAddress
    uriSan := attrs.uriSanPeer
    dnsSan := attrs.dnsSanPeer
    subject := attrs.subjectPeer
    sha256Digest := attrs.sha256Digest
    destinationAddress := attrs.destinationAddress
    mtls := attrs.mtls
    tlsVersion := attrs.tlsVersion
    dynamicMetadata := dynamicMetadataMap config.metadataNamespaces attrs
    parsedPath := (parsePath lib path).1
    parsedQuery := (parsePath lib path).2
    body := presentBody parsedBody }

/-- A value in a result, with the two types of numbers the filter looks for. The names of a map
are distinct. -/
inductive Value
  | bool (value : Bool)
  | jsonNumber (literal : String)
  | float64 (value : ℚ)
  | string (value : String)
  | map (entries : List (String × Value))
  | other

/-- The bindings of each result. -/
abbrev ResultSet := List (GoMap String Value)

abbrev Engine := Input → Except String ResultSet

structure PolicyResponse where
  httpStatus : ℤ := 0
  headers : List (String × String) := []
  body : String := ""

def statusOf : Option Value → ℤ
  | some (.jsonNumber literal) => (atoi literal).getD 0
  | some (.float64 value) => truncate value
  | _ => 0

def textEntry (entry : String × Value) : Option (String × String) :=
  match entry.2 with
  | .string value => some (entry.1, value)
  | _ => none

def interpretResult (rs : ResultSet) : Bool × PolicyResponse :=
  match rs with
  | [] => (false, {})
  | bindings :: _ =>
    if bindings.entries = [] then (false, {})
    else
      match bindings.get? "result" with
      | some (.bool value) => (value, {})
      | some (.map v) =>
        let allowed :=
          match v.lookup "allowed" with
          | some (.bool value) => value
          | _ => false
        let headers :=
          match v.lookup "headers" with
          | some (.map entries) => entries.filterMap textEntry
          | _ => []
        let body :=
          match v.lookup "body" with
          | some (.string value) => value
          | _ => ""
        (allowed, ⟨statusOf (v.lookup "http_status"), headers, body⟩)
      | _ => (false, {})

structure LocalResponse where
  status : ℕ
  headers : List (String × String)
  body : String
  details : String

/-- Whether the request is allowed, what is sent, the request headers after it and the value
under which it is counted if the counter is defined. -/
structure Decided where
  allowed : Bool
  response : Option LocalResponse
  headers : Headers
  counted : List Decision

def denial (resp : PolicyResponse) : LocalResponse where
  status := ((if resp.httpStatus = 0 then 403 else resp.httpStatus) % 2 ^ 32).toNat
  headers := resp.headers
  body := orElse resp.body "Forbidden"
  details := "opa_denied"

/-- The part of `evaluateAndDecide` after the evaluation. -/
def enforce (config : Config) (headers : Headers) : Except String ResultSet → Decided
  | .error _ =>
    if config.failOpen then ⟨true, none, headers, [.failOpen]⟩
    else ⟨false, some ⟨500, [], "Internal Server Error", "opa_eval_error"⟩, headers, [.denied]⟩
  | .ok rs =>
    let (allowed, resp) := interpretResult rs
    if allowed then
      ⟨true, none, headers.setAll resp.headers, if config.dryRun then [] else [.allowed]⟩
    else if config.dryRun then ⟨true, none, headers.setAll resp.headers, [.dryAllow]⟩
    else ⟨false, some (denial resp), headers, [.denied]⟩

/-- The parsed body of a request, nil unless it is JSON. A value that is decoded in part stays
in spite of the error. -/
def parsedBody (lib : Library) (headers : Headers) (body : Bytes) : Any :=
  if "application/json".toList <:+: (headers.getOne "content-type").toList then
    match Json.parse body with
    | some v => anyValue lib.floatFits lib.outOfRange v
    | none => .nil
  else .nil

/-- What a callback does: whether it continues, what it sends, and the input it evaluates with the
answer whether the request is let through. -/
structure Report where
  continues : Bool
  response : Option LocalResponse
  evaluated : Option (Input × Bool)
  counted : List Decision

/-- A stream in the filter. -/
structure Stream where
  requestProcessed : Bool
  headers : Headers
  buffered : Bytes

section

variable (lib : Library) (config : Config) (engine : Engine) (attrs : Attributes)

def evaluateAndDecide (s : Stream) (parsedBody : Any) : Report × Stream :=
  let input := buildInput lib config attrs s.headers parsedBody
  let decided := enforce config s.headers (engine input)
  (⟨decided.allowed, decided.response, some (input, decided.allowed), decided.counted⟩,
    ⟨true, decided.headers, s.buffered⟩)

def evaluateBodyPolicy (s : Stream) (whole : Bytes) : Report × Stream :=
  evaluateAndDecide lib config engine attrs s (parsedBody lib s.headers whole)

def onRequestHeaders (s : Stream) (endOfStream : Bool) : Report × Stream :=
  if config.withBody ∧ endOfStream = false then (⟨false, none, none, []⟩, s)
  else evaluateAndDecide lib config engine attrs s .nil

/-- The piece is buffered unless the request is over. -/
def onRequestBody (s : Stream) (piece : Bytes) (endOfStream : Bool) : Report × Stream :=
  if s.requestProcessed then (⟨true, none, none, []⟩, s)
  else if endOfStream = false then
    (⟨false, none, none, []⟩, { s with buffered := s.buffered ++ piece })
  else evaluateBodyPolicy lib config engine attrs s (s.buffered ++ piece)

def onRequestTrailers (s : Stream) : Report × Stream :=
  if s.requestProcessed then (⟨true, none, none, []⟩, s)
  else evaluateBodyPolicy lib config engine attrs s s.buffered

def step (s : Stream) : Callback → Report × Stream
  | .headers endOfStream => onRequestHeaders lib config engine attrs s endOfStream
  | .body piece endOfStream => onRequestBody lib config engine attrs s (piece.getD []) endOfStream
  | .trailers => onRequestTrailers lib config engine attrs s

/-- The reports of the callbacks; none follows a local response. -/
def run (s : Stream) : List Callback → List Report
  | [] => []
  | c :: cs =>
    let r := step lib config engine attrs s c
    r.1 :: if r.1.response.isSome then [] else run r.2 cs

/-- The reports for a request that is delivered this way. -/
def reports (headers : Headers) (framing : Framing) : List Report :=
  run lib config engine attrs ⟨false, headers, []⟩ framing.callbacks

end

structure RawConfig where
  policies : List DataSource
  decisionPath : String
  failOpen : Bool
  dryRun : Bool
  withBody : Bool
  metadataNamespaces : List String

/-- What parsing a configuration takes from the libraries and the file system. -/
structure Sources where
  unmarshal : Bytes → Except String RawConfig
  readFile : String → Except String Bytes
  /-- A compiled policy, for a query and its modules. -/
  prepareForEval : String → GoMap String Bytes → Except String Engine

/-- `Content` of a data source. -/
def content (readFile : String → Except String Bytes) (d : DataSource) : Except String Bytes :=
  if d.inline ≠ [] then .ok d.inline
  else if d.file ≠ "" then readFile d.file
  else .error "either 'inline' or 'file' must be set"

/-- The modules by their names; `i` policies came before. -/
def loadPolicies (src : Sources) (modules : GoMap String Bytes) :
    ℕ → List DataSource → Except String (GoMap String Bytes)
  | _, [] => .ok modules
  | i, p :: rest =>
    match content src.readFile p with
    | .error err => .error ("failed to load policy #" ++ toString (i + 1) ++ ": " ++ err)
    | .ok text =>
      let moduleName := orElse p.file ("inline_policy_" ++ toString (i + 1) ++ ".rego")
      loadPolicies src (modules.set moduleName text) (i + 1) rest

/-- There is no configuration for an empty text. -/
def parseConfig (src : Sources) (data : Bytes) : Except String (Option (Config × Engine)) :=
  if data = [] then .ok none
  else
    match src.unmarshal data with
    | .error err => .error ("failed to parse config: " ++ err)
    | .ok raw =>
      if raw.policies = [] then .error "no policies provided in config"
      else
        match loadPolicies src .empty 0 raw.policies with
        | .error err => .error err
        | .ok modules =>
          let query := "result = data." ++ orElse raw.decisionPath "envoy.authz.allow"
          match src.prepareForEval query modules with
          | .error err => .error ("failed to compile policy: " ++ err)
          | .ok engine =>
            .ok (some (⟨raw.failOpen, raw.dryRun, raw.withBody, raw.metadataNamespaces⟩, engine))

end BuiltOnEnvoy.Opa
