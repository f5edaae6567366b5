import BuiltOnEnvoy.Foundations.Headers
import BuiltOnEnvoy.Foundations.TextParsing

/-!
# The dynamic fault injection filter

A filter draws a response for a matched request, lets the request go upstream
and, when the response comes, adds the delay that is missing to the drawn one or
answers with the drawn status. All filters share a count of the requests in
flight. A distribution is a function of a random draw; the times are
nanoseconds; the text of a duration is a parameter.
-/

namespace BuiltOnEnvoy.FaultInjection

open Foundations

structure HeaderMatchConfig where
  name : String
  exactMatch : String
  presentMatch : Bool
  deriving DecidableEq

structure MatchConfig where
  pathPrefix : String
  exact : String
  headers : List HeaderMatchConfig
  deriving DecidableEq

def HeaderMatchConfig.holds (hm : HeaderMatchConfig) (headers : Headers) : Bool :=
  let value := headers.getOne hm.name
  if hm.presentMatch then value ≠ ""
  else if hm.exactMatch ≠ "" then value = hm.exactMatch
  else true

/-- The path without its query. -/
def stripQuery (path : String) : String :=
  String.ofList (path.toList.takeWhile (· ≠ '?'))

def matchRoute (config : MatchConfig) (path : String) (headers : Headers) : Bool :=
  if config.pathPrefix ≠ "" ∧ ¬config.pathPrefix.toList <+: path.toList then false
  else if config.exact ≠ "" ∧ stripQuery path ≠ config.exact then false
  else config.headers.all (·.holds headers)

structure LocalResponseConfig where
  body : Option String
  headers : List (String × String)
  deriving DecidableEq

structure ResponseSample where
  status : ℤ
  duration : ℤ
  localResponse : Option LocalResponseConfig
  deriving DecidableEq

variable {Draw : Type}

/-- A simple distribution, or one that depends on the load. -/
structure Sampler (Draw : Type) where
  distribution : Option (Draw → ResponseSample)
  loadBased : Option (ℤ → Draw → ResponseSample)

def Sampler.sample (s : Sampler Draw) (loadValue : ℤ) (draw : Draw) : Option ResponseSample :=
  match s.distribution, s.loadBased with
  | some distribution, _ => some (distribution draw)
  | none, some loadBased => some (loadBased loadValue draw)
  | none, none => none

structure EndpointEntry (Draw : Type) where
  route : MatchConfig
  sampler : Sampler Draw

/-- `latencyFaultFilterFactory`. -/
structure Factory (Draw : Type) where
  endpoints : List (EndpointEntry Draw)
  sampler : Sampler Draw
  direct : Bool
  diagnostic : Bool

def Factory.sample (f : Factory Draw) (loadValue : ℤ) (draw : Draw) : Option ResponseSample :=
  if f.direct then f.sampler.sample loadValue draw else none

/-- The first endpoint that matches decides. -/
def Factory.sampleEndpoint (f : Factory Draw) (headers : Headers) (loadValue : ℤ) (draw : Draw) :
    Option ResponseSample :=
  match f.endpoints.find? fun ep => matchRoute ep.route (headers.getOne ":path") headers with
  | some ep => ep.sampler.sample loadValue draw
  | none => none

/-- The sample for a request: of the factory itself, or else of an endpoint. -/
def Factory.sampleFor (f : Factory Draw) (headers : Headers) (loadValue : ℤ) (draw : Draw) :
    Option ResponseSample :=
  match f.sample loadValue draw with
  | some sample => some sample
  | none => f.sampleEndpoint headers loadValue draw

/-- `latencyFaultFilter`. -/
structure LatencyFaultFilter (Draw : Type) where
  factory : Factory Draw
  sample : ResponseSample
  matched : Bool
  counted : Bool
  requestEntryInFlight : ℤ
  requestStart : ℤ

/-- `Create`. -/
def create (factory : Factory Draw) : LatencyFaultFilter Draw :=
  ⟨factory, ⟨0, 0, none⟩, false, false, 0, 0⟩

namespace LatencyFaultFilter

/-- The filter and the shared count after the call. -/
def startRequest (f : LatencyFaultFilter Draw) (activeRequests : ℤ) :
    LatencyFaultFilter Draw × ℤ :=
  if f.counted then (f, activeRequests)
  else ({ f with counted := true }, activeRequests + 1)

def releaseRequest (f : LatencyFaultFilter Draw) (activeRequests : ℤ) :
    LatencyFaultFilter Draw × ℤ :=
  if !f.counted then (f, activeRequests)
  else ({ f with counted := false }, activeRequests + -1)

def onRequestHeaders (f : LatencyFaultFilter Draw) (activeRequests : ℤ) (headers : Headers)
    (draw : Draw) (now : ℤ) : LatencyFaultFilter Draw × ℤ :=
  let loadValue := activeRequests
  let f :=
    match f.factory.sampleFor headers loadValue draw with
    | some sample => { f with sample := sample, matched := true }
    | none => f
  if f.matched then
    { f with requestEntryInFlight := loadValue, requestStart := now }.startRequest activeRequests
  else (f, activeRequests)

end LatencyFaultFilter

inductive HeadersStatus
  | continue
  | stop
  | stopAllAndBuffer
  deriving DecidableEq

structure FaultAttributes where
  requestsInFlight : ℤ
  addedDelay : String := ""
  actualUpstream : String
  injectedDelay : String
  injected : String := ""
  status : String
  upstreamStatus : String
  workerIndex : String

/-- A value that is set unless it is empty. -/
def present (name value : String) : List (String × String) :=
  if value ≠ "" then [(name, value)] else []

/-- The attributes that are set, in the order of a header map and of a span, under names
that start with `word`. -/
def FaultAttributes.entries (attrs : FaultAttributes) (word : String) : List (String × String) :=
  present (word ++ "injected-delay") attrs.injectedDelay ++
    present (word ++ "actual-upstream") attrs.actualUpstream ++
    present (word ++ "added-delay") attrs.addedDelay ++ present (word ++ "status") attrs.status ++
    present (word ++ "upstream-status") attrs.upstreamStatus ++
    (if 0 ≤ attrs.requestsInFlight then
      [(word ++ "requests-in-flight", toString attrs.requestsInFlight)] else []) ++
    present (word ++ "injected") attrs.injected ++
    present (word ++ "worker-index") attrs.workerIndex

/-- `setFaultAttributesOnHeaderArray`: here `injected` comes first. -/
def FaultAttributes.append (attrs : FaultAttributes) (headers : List (String × String)) :
    List (String × String) :=
  headers ++ present "x-fault-injected" attrs.injected ++
    FaultAttributes.entries { attrs with injected := "" } "x-fault-"

/-- What a filter does on its handle. -/
inductive Effect
  | setHeaders (updates : List (String × String))
  | setTags (tags : List (String × String))
  /-- After a delay, which is zero for a call in the callback itself. -/
  | sendLocalResponse (delay : ℤ) (status : ℤ) (headers : List (String × String)) (body : String)
      (detail : String)
  | continueResponse (delay : ℤ)
  deriving DecidableEq

/-- What the handle and the time package answer. -/
structure Runtime where
  durationText : ℤ → String
  workerIndex : ℕ
  activeSpan : Bool

def Runtime.setTags (rt : Runtime) (attrs : FaultAttributes) : List Effect :=
  if rt.activeSpan then [.setTags (attrs.entries "fault.")] else []

def injectedResponseName (status : ℤ) : String :=
  if status < 400 then "response" else "abort"

def localResponseDetail (status : ℤ) : String :=
  if status < 400 then "fault_response" else "fault_abort"

/-- The body and the headers of a local response. -/
def localResponse (sample : ResponseSample) (attrs : FaultAttributes) :
    String × List (String × String) :=
  let default := if sample.status < 400 then "" else
    "fault filter abort: " ++ toString sample.status ++ "\n"
  let configured := sample.localResponse.elim [] LocalResponseConfig.headers
  let lowered := configured.map fun h => (Headers.lower h.1, h.2)
  let headers :=
    if configured.any fun h => Headers.Same h.1 "content-type" then lowered
    else ("content-type", "text/plain") :: lowered
  ((sample.localResponse.bind LocalResponseConfig.body).getD default, attrs.append headers)

def LatencyFaultFilter.onResponseHeaders (rt : Runtime) (f : LatencyFaultFilter Draw)
    (headers : Headers) (now : ℤ) : HeadersStatus × List Effect :=
  if !f.matched then (.continue, [])
  else
    let elapsed := now - f.requestStart
    let remainingDelay := max (f.sample.duration - elapsed) 0
    let status := headers.getOne ":status"
    match atoi status with
    | none => (.continue, [])
    | some upstreamStatus =>
      let attrs : FaultAttributes :=
        { requestsInFlight := f.requestEntryInFlight
          addedDelay := if remainingDelay > 0 then rt.durationText remainingDelay else ""
          actualUpstream := rt.durationText elapsed
          injectedDelay := rt.durationText f.sample.duration
          status := toString f.sample.status
          upstreamStatus := status
          workerIndex := if f.factory.diagnostic then toString rt.workerIndex else "" }
      if f.sample.status ≠ upstreamStatus then
        let attrs := { attrs with injected := injectedResponseName f.sample.status }
        let response := localResponse f.sample attrs
        (if remainingDelay > 0 then .stopAllAndBuffer else .stop,
          rt.setTags attrs ++ [.sendLocalResponse remainingDelay f.sample.status response.2
            response.1 (localResponseDetail f.sample.status)])
      else if remainingDelay > 0 then
        (.stopAllAndBuffer, [.setHeaders (attrs.entries "x-fault-")] ++ rt.setTags attrs ++
          [.continueResponse remainingDelay])
      else (.continue, [.setHeaders (attrs.entries "x-fault-")] ++ rt.setTags attrs)

end BuiltOnEnvoy.FaultInjection
