import BuiltOnEnvoy.Foundations.Bytes
import BuiltOnEnvoy.Foundations.Headers

/-!
# The OpenAPI validator filter

The decision on a request is taken in the callbacks for its headers, its body and
its trailers. What `net/http` makes of a method and a URL, the router and the
validator of the OpenAPI library are parameters. The validator may panic, and the
filter does not recover from that.
-/

namespace BuiltOnEnvoy.OpenApiValidator

open Foundations

structure Operation (Schema : Type) where
  requestBody : Option Schema

structure Route (Schema : Type) where
  path : String
  operation : Option (Operation Schema)

abbrev PathParams := List (String × String)

/-- The request that is validated: the parsed method and URL, the headers added to it, the host
and the body. -/
structure HttpRequest (Parsed : Type) where
  parsed : Parsed
  header : List (String × String)
  host : String
  body : Option Bytes

structure ValidationInput (Parsed Schema : Type) where
  request : HttpRequest Parsed
  pathParams : PathParams
  route : Option (Route Schema)

inductive Validation
  | valid
  | invalid (err : String)
  | panics

/-- The libraries the filter calls; an error is its text. -/
structure Library (Parsed Schema : Type) where
  newRequest : String → String → Except String Parsed
  findRoute : Parsed → Except String (Route Schema × PathParams)
  validateRequest : ValidationInput Parsed Schema → Validation

structure DenyResponse where
  status : ℤ
  body : String

structure Config where
  /-- 0 means no limit -/
  maxBodyBytes : ℕ
  allowUnmatchedPaths : Bool
  dryRun : Bool
  denyResponse : DenyResponse
  denyResponseHeaders : List (String × String)

structure LocalResponse where
  status : ℕ
  headers : List (String × String)
  body : String
  details : String
  deriving DecidableEq

/-- The fields of a filter. The body is held in memory, so its size does not wrap. -/
structure Filter (Schema : Type) where
  route : Option (Route Schema)
  pathParams : PathParams
  bodySize : ℕ
  requestProcessed : Bool

def Filter.init {Schema : Type} : Filter Schema := ⟨none, [], 0, false⟩

inductive HeadersStatus
  | continue
  | stop
  deriving DecidableEq

inductive BodyStatus
  | continue
  | stopAndBuffer
  | stopNoBuffer
  deriving DecidableEq

inductive TrailersStatus
  | continue
  | stop
  deriving DecidableEq

/-- What a function of the filter returns unless it panics, the filter after it, and the local
response it sent. -/
structure Reply (Schema α : Type) where
  value : Option α
  filter : Filter Schema
  sent : Option LocalResponse

variable {Parsed Schema : Type} (lib : Library Parsed Schema) (config : Config) (headers : Headers)

def scheme : String :=
  if headers.getOne ":scheme" = "" then "http" else headers.getOne ":scheme"

def url : String :=
  scheme headers ++ "://" ++ headers.getOne ":authority" ++ headers.getOne ":path"

def newRequest : Except String Parsed :=
  lib.newRequest (headers.getOne ":method") (url headers)

def buildHttpRequest (body : Option Bytes) : Except String (HttpRequest Parsed) :=
  match newRequest lib headers with
  | .error err => .error err
  | .ok parsed => .ok
    { parsed := parsed
      header := headers.filter fun h => !h.1.startsWith ":"
      host := headers.getOne ":authority"
      body := body }

def sendDenyResponse (validationErr : String) : LocalResponse where
  status := (config.denyResponse.status % 2 ^ 32).toNat
  headers := config.denyResponseHeaders
  body := if config.denyResponse.body = "" then validationErr else config.denyResponse.body
  details := "openapi_validation_failed"

/-- The text of the error for a request without an operation. -/
def noOperation : String :=
  "no matching operation for " ++ headers.getOne ":method" ++ " " ++ headers.getOne ":path"

def tooLarge : LocalResponse := ⟨413, [], "Request body too large", "openapi_body_too_large"⟩

namespace Filter

variable (f : Filter Schema)

/-- Whether the request is allowed through. -/
def validateRequest (body : Option Bytes) : Reply Schema Bool :=
  let f := { f with requestProcessed := true }
  match buildHttpRequest lib headers body with
  | .error err => ⟨some false, f, some (sendDenyResponse config err)⟩
  | .ok request =>
    match lib.validateRequest ⟨request, f.pathParams, f.route⟩ with
    | .invalid err =>
      if config.dryRun then ⟨some true, f, none⟩
      else ⟨some false, f, some (sendDenyResponse config err)⟩
    | .valid => ⟨some true, f, none⟩
    | .panics => ⟨none, f, none⟩

def denyRequest (err : String) : Reply Schema HeadersStatus :=
  if config.dryRun then ⟨some .continue, f, none⟩
  else ⟨some .stop, f, some (sendDenyResponse config err)⟩

def onRequestHeaders (endOfStream : Bool) : Reply Schema HeadersStatus :=
  match newRequest lib headers with
  | .error err => f.denyRequest config err
  | .ok parsed =>
    match lib.findRoute parsed with
    | .error _ =>
      if config.allowUnmatchedPaths then ⟨some .continue, f, none⟩
      else f.denyRequest config (noOperation headers)
    | .ok (route, pathParams) =>
      let f := { f with route := some route, pathParams := pathParams }
      if endOfStream = false ∧ (route.operation.bind Operation.requestBody).isSome then
        ⟨some .stop, f, none⟩
      else
        let r := f.validateRequest lib config headers none
        ⟨r.value.map fun allowed => if allowed then .continue else .stop, r.filter, r.sent⟩

/-- `whole` is the whole body as far as it has arrived, this piece included. -/
def onRequestBody (body : Option Bytes) (endOfStream : Bool) (whole : Bytes) :
    Reply Schema BodyStatus :=
  if f.requestProcessed then ⟨some .continue, f, none⟩
  else
    let f := { f with bodySize := f.bodySize + (body.getD []).length }
    if 0 < config.maxBodyBytes ∧ config.maxBodyBytes < f.bodySize then
      let f := { f with requestProcessed := true }
      if config.dryRun then ⟨some .continue, f, none⟩ else ⟨some .stopNoBuffer, f, some tooLarge⟩
    else if endOfStream then
      let r := f.validateRequest lib config headers (some whole)
      ⟨r.value.map fun allowed => if allowed then .continue else .stopNoBuffer, r.filter, r.sent⟩
    else ⟨some .stopAndBuffer, f, none⟩

def onRequestTrailers (whole : Bytes) : Reply Schema TrailersStatus :=
  if f.requestProcessed then ⟨some .continue, f, none⟩
  else
    let r := f.validateRequest lib config headers (some whole)
    ⟨r.value.map fun allowed => if allowed then .continue else .stop, r.filter, r.sent⟩

end Filter

inductive Callback
  | headers (endOfStream : Bool)
  | body (piece : Option Bytes) (endOfStream : Bool)
  | trailers

/-- A stream in the filter: what is buffered for it, whether its last callback let the data pass
on, and the local response or the panic that ended it. -/
structure Stream (Schema : Type) where
  filter : Filter Schema
  buffered : Bytes
  passed : Bool
  response : Option LocalResponse
  panicked : Bool

def Stream.init : Stream Schema := ⟨Filter.init, [], false, none, false⟩

def Stream.callback (s : Stream Schema) : Callback → Stream Schema
  | .headers endOfStream =>
    let r := s.filter.onRequestHeaders lib config headers endOfStream
    ⟨r.filter, s.buffered, r.value = some .continue, r.sent, r.value.isNone⟩
  | .body piece endOfStream =>
    let whole := s.buffered ++ piece.getD []
    let r := s.filter.onRequestBody lib config headers piece endOfStream whole
    let buffered :=
      match r.value with
      | some .continue => []
      | some .stopAndBuffer => whole
      | some .stopNoBuffer | none => s.buffered
    ⟨r.filter, buffered, r.value = some .continue, r.sent, r.value.isNone⟩
  | .trailers =>
    let r := s.filter.onRequestTrailers lib config headers s.buffered
    ⟨r.filter, s.buffered, r.value = some .continue, r.sent, r.value.isNone⟩

/-- The stream goes on: no local response and no panic has ended it. -/
def Stream.live (s : Stream Schema) : Bool := s.response.isNone && !s.panicked

/-- One callback, unless the stream is over. -/
def Stream.step (s : Stream Schema) (c : Callback) : Stream Schema :=
  if s.live then s.callback lib config headers c else s

def Stream.run (s : Stream Schema) (callbacks : List Callback) : Stream Schema :=
  callbacks.foldl (Stream.step lib config headers) s

/-- The ways to deliver a request. -/
inductive Framing
  | headersOnly
  | body (pieces : List (Option Bytes)) (last : Option Bytes)
  | trailers (pieces : List (Option Bytes))
  deriving DecidableEq

def bytesOf (pieces : List (Option Bytes)) : Bytes :=
  (pieces.map fun piece => piece.getD []).flatten

@[simp] theorem bytesOf_nil : bytesOf [] = [] := rfl

@[simp] theorem bytesOf_cons (piece : Option Bytes) (pieces : List (Option Bytes)) :
    bytesOf (piece :: pieces) = piece.getD [] ++ bytesOf pieces := rfl

namespace Framing

/-- The body that is delivered. -/
def bytes : Framing → Bytes
  | headersOnly => []
  | body pieces last => bytesOf pieces ++ last.getD []
  | trailers pieces => bytesOf pieces

/-- The headers end the stream. -/
def endsWithHeaders : Framing → Bool
  | headersOnly => true
  | _ => false

/-- The callbacks after the headers. -/
def rest : Framing → List Callback
  | headersOnly => []
  | body pieces last => pieces.map (Callback.body · false) ++ [.body last true]
  | trailers pieces => pieces.map (Callback.body · false) ++ [.trailers]

def callbacks (framing : Framing) : List Callback :=
  .headers framing.endsWithHeaders :: framing.rest

theorem headers_notMem_rest (framing : Framing) (endOfStream : Bool) :
    .headers endOfStream ∉ framing.rest := by
  cases framing <;> simp [rest]

end Framing

inductive Outcome
  | letThrough
  | denied (response : LocalResponse)
  | held
  | crashed
  deriving DecidableEq

def Stream.outcome (s : Stream Schema) : Outcome :=
  match s.response with
  | some response => .denied response
  | none => if s.panicked then .crashed else if s.passed then .letThrough else .held

/-- What becomes of a request that is delivered this way. -/
def outcome (framing : Framing) : Outcome :=
  (Stream.init.run lib config headers framing.callbacks).outcome

end BuiltOnEnvoy.OpenApiValidator
