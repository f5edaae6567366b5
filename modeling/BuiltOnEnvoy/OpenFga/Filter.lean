import BuiltOnEnvoy.OpenFga.Config

/-!
# The OpenFGA filter

The request headers lead to a decision at once or to a check with the OpenFGA
service, whose reply is handled by a callback. The effects on the handle are
listed in their order; the log is left out.
-/

namespace BuiltOnEnvoy.OpenFga

open Foundations

inductive Decision
  | allowed
  | denied
  | failOpen
  | dryAllow
  | error
  deriving DecidableEq

def Decision.text : Decision → String
  | allowed => "allowed"
  | denied => "denied"
  | failOpen => "failopen"
  | dryAllow => "dryrun_allow"
  | error => "error"

/-- The metrics that could be defined. -/
structure Metrics where
  enabled : Bool
  hasCheckDur : Bool

inductive Effect
  | continueRequest
  | sendLocalResponse (status : ℕ) (headers : List (String × String)) (body details : String)
  | incrementRequests (decision : Decision)
  | recordCheckDuration (ms : ℕ)
  | setMetadata (ns key value : String)
  | httpCallout (cluster : String) (headers : List (String × String)) (body : Bytes)
      (timeoutMs : ℕ)
  deriving DecidableEq

inductive HeadersStatus
  | continue
  | stop
  | stopAllAndBuffer
  deriving DecidableEq

/-- Whether a callout was started; only then its callback is called, once. -/
inductive CalloutInit
  | success
  | missingCluster
  | missingRequiredHeaders
  | cannotCreateRequest
  deriving DecidableEq

inductive CalloutResult
  | success
  | reset
  | exceedResponseBufferLimit
  deriving DecidableEq

/-- What becomes of a callout; `took` is in nanoseconds. -/
structure Callout where
  init : CalloutInit
  result : CalloutResult
  headers : List (String × String)
  body : List Bytes
  took : ℤ

namespace Metrics

variable (metrics : Metrics)

def inc (decision : Decision) : List Effect :=
  if metrics.enabled then [.incrementRequests decision] else []

def recordDuration (took : ℤ) : List Effect :=
  if metrics.hasCheckDur then [.recordCheckDuration (max 0 (took.tdiv 1000000)).toNat] else []

end Metrics

def errorResponseHeaders : List (String × String) := [("content-type", "text/plain")]

def badGateway (body details : String) : Effect :=
  .sendLocalResponse 502 errorResponseHeaders body details

def joinCalloutBody (body : List Bytes) : Bytes := body.flatten

/-- The first value of a key. -/
def calloutHeaderValue (headers : List (String × String)) (key : String) : String :=
  ((headers.find? fun h => h.1 = key).map Prod.snd).getD ""

def PreparedTuple.resolve (lib : Library) (t : PreparedTuple) (headers : Headers) : TupleKey :=
  ⟨t.user.resolve lib headers, t.relation.resolve lib headers, t.object.resolve lib headers⟩

/-- A part of the tuple is missing. -/
def TupleKey.Incomplete (t : TupleKey) : Prop :=
  t.user = "" ∨ t.relation = "" ∨ t.object = ""

instance (t : TupleKey) : Decidable t.Incomplete :=
  inferInstanceAs (Decidable (_ ∨ _ ∨ _))

namespace ParsedConfig

variable (lib : Library) (metrics : Metrics) (cfg : ParsedConfig)

def writeMetadata (decision : Decision) : List Effect :=
  match cfg.metadata with
  | none => []
  | some key => [.setMetadata key.ns key.key decision.text]

def sendDeny (detail : String) : Effect :=
  .sendLocalResponse (cfg.deny.status % 2 ^ 32).toNat cfg.denyHeaders cfg.deny.body detail

/-- The decision under which a request goes on although it is not allowed. -/
def waiver : Option Decision :=
  if cfg.dryRun then some .dryAllow else if cfg.failOpen then some .failOpen else none

/-- What is written and counted for a decision. -/
def note (decision : Decision) : List Effect :=
  cfg.writeMetadata decision ++ metrics.inc decision

def handleDeny (detail : String) (metricDecision : Decision) : HeadersStatus × List Effect :=
  match cfg.waiver with
  | some decision => (.continue, cfg.note metrics decision)
  | none =>
    (.stop,
      cfg.writeMetadata metricDecision ++ [cfg.sendDeny detail] ++ metrics.inc metricDecision)

def handleCalloutError : HeadersStatus × List Effect :=
  match cfg.waiver with
  | some decision => (.continue, cfg.note metrics decision)
  | none =>
    (.stop, cfg.writeMetadata .error ++
      [badGateway "Authorization service unavailable" "openfga_callout_failed"] ++
      metrics.inc .error)

def handleCallbackError (detail responseBody : String) : List Effect :=
  match cfg.waiver with
  | some decision => cfg.note metrics decision ++ [.continueRequest]
  | none => cfg.note metrics .error ++ [badGateway responseBody detail]

def matchRule (headers : Headers) : Option ParsedRule :=
  cfg.rules.find? fun r =>
    match r.condition with
    | none => true
    | some m => m.matches headers

/-- The body of the check: its tuple with what the configuration adds to it. -/
def checkRequest (headers : Headers) (tupleKey : TupleKey) : CheckRequest where
  tupleKey := tupleKey
  authorizationModelID := cfg.authorizationModelID
  consistency := cfg.consistency
  contextualTuples :=
    (cfg.contextualTuples.map fun ct => ct.resolve lib headers).filter fun t => ¬t.Incomplete
  context := cfg.context.filterMap fun _ vs =>
    if vs.resolve lib headers = "" then none else some (vs.resolve lib headers)

def callout (body : Bytes) : Effect :=
  .httpCallout cfg.cluster cfg.calloutHeaders body cfg.timeoutMs

def onRequestHeaders (headers : Headers) (init : CalloutInit) : HeadersStatus × List Effect :=
  match cfg.matchRule headers with
  | none => cfg.handleDeny metrics "openfga_no_rule" .denied
  | some rule =>
    let tupleKey := rule.resolve lib headers
    if tupleKey.Incomplete then cfg.handleDeny metrics "openfga_missing_params" .denied
    else
      match lib.marshal (cfg.checkRequest lib headers tupleKey) with
      | .error _ => cfg.handleCalloutError metrics
      | .ok body =>
        if init = .success then (.stopAllAndBuffer, [cfg.callout body])
        else
          let r := cfg.handleCalloutError metrics
          (r.1, cfg.callout body :: r.2)

def apiError : String := "Authorization service error"

/-- The end of `OnHttpCalloutDone`, for a check that was answered. -/
def onAnswer (allowed : Bool) : List Effect :=
  if allowed = false ∧ cfg.dryRun then cfg.note metrics .dryAllow ++ [.continueRequest]
  else if allowed = false then cfg.note metrics .denied ++ [cfg.sendDeny "openfga_denied"]
  else cfg.note metrics .allowed ++ [.continueRequest]

def onHttpCalloutDone (callout : Callout) : List Effect :=
  let fullBody := joinCalloutBody callout.body
  metrics.recordDuration callout.took ++
    if callout.result ≠ .success then
      cfg.handleCallbackError metrics "openfga_callout_error" apiError
    else if calloutHeaderValue callout.headers ":status" ≠ "200" then
      cfg.handleCallbackError metrics "openfga_api_error" apiError
    else if fullBody = [] then cfg.handleCallbackError metrics "openfga_empty_body" apiError
    else
      match lib.unmarshal fullBody with
      | .error _ => cfg.handleCallbackError metrics "openfga_parse_error" apiError
      | .ok allowed => cfg.onAnswer metrics allowed

/-- What a request leads to: the status for its headers and all effects, those of the callback
included if a callout is on its way. -/
def run (headers : Headers) (callout : Callout) : HeadersStatus × List Effect :=
  let r := cfg.onRequestHeaders lib metrics headers callout.init
  if r.1 = .stopAllAndBuffer then (r.1, r.2 ++ cfg.onHttpCalloutDone lib metrics callout) else r

end ParsedConfig

end BuiltOnEnvoy.OpenFga
