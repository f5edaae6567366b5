import BuiltOnEnvoy.Foundations.Headers
import BuiltOnEnvoy.Sse.LlmProxy

/-!
# The LLM proxy filter

The callbacks of one stream with the effects they have on the handle. The parsers
of the matched API are parameters; what they give is arbitrary.
-/

namespace BuiltOnEnvoy.LlmProxy

open Foundations Sse.LlmProxy

/-- A path matcher; `re` is the compiled regular expression. -/
structure StringMatcher where
  start : String
  ending : String
  re : Option (String → Bool)

def StringMatcher.matches (m : StringMatcher) (path : String) : Bool :=
  if m.start ≠ "" then path.startsWith m.start
  else if m.ending ≠ "" then path.endsWith m.ending
  else
    match m.re with
    | some re => re path
    | none => false

structure LLMRequest where
  model : String
  isStream : Bool

/-- The parsers of an API; an error is its text, and a result may be nil without one. -/
structure LLMFactory (Parser : Type) where
  parseRequest : Bytes → Option String × Option LLMRequest
  parseResponse : Bytes → Option String × Option LLMUsage
  newSSEParser : Parser
  feed : Parser → Bytes → Option String × Parser
  finish : Parser → Option String × Option LLMUsage

structure LLMConfig (Parser : Type) where
  matcher : StringMatcher
  kind : String
  factory : Option (LLMFactory Parser)

structure Config (Parser : Type) where
  llmConfigs : List (LLMConfig Parser)
  metadataNamespace : String
  llmModelHeader : String
  clearRouteCache : Bool

inductive Counter
  | requestTotal
  | requestError
  | inputTokens
  | outputTokens
  | totalTokens
  deriving DecidableEq

inductive Histogram
  | requestTTFT
  | requestTPOT
  deriving DecidableEq

inductive MetadataValue
  | text (value : String)
  | flag (value : Bool)
  | number (value : ℤ)
  deriving DecidableEq

inductive Effect
  | debug (text : String)
  | increment (counter : Counter) (value : ℕ) (kind model : String)
  | record (histogram : Histogram) (value : ℕ) (kind model : String)
  | setMetadata (ns key : String) (value : MetadataValue)
  | setRequestHeader (name value : String)
  | clearRouteCache
  deriving DecidableEq

inductive Status
  | continue
  | stop
  | stopAndBuffer
  deriving DecidableEq

/-- The matched rule: its kind and its parsers. -/
structure Api (Parser : Type) where
  kind : String
  factory : LLMFactory Parser

/-- The fields of a filter; it is matched when it has an API. Times are in nanoseconds. -/
structure Filter (Parser : Type) where
  api : Option (Api Parser)
  hasError : Bool
  sseParser : Option Parser
  model : String
  isStream : Bool
  usage : LLMUsage
  requestSentAt : Option ℤ
  firstChunkAt : Option ℤ

def Filter.init {Parser : Type} : Filter Parser :=
  ⟨none, false, none, "", false, LLMUsage.zero, none, none⟩

/-- The time when a callback starts and when it computes durations. -/
structure Clock where
  now : ℤ
  later : ℤ

structure Reply (Parser : Type) where
  status : Status
  filter : Filter Parser
  effects : List Effect

variable {Parser : Type}

def errorText (err : Option String) : String := err.getD "<nil>"

/-- The text contains a word. -/
def contains (text word : String) : Bool := decide (word.toList <:+: text.toList)

/-- The first rule that matches. -/
def matchRule (config : Config Parser) (path : String) : Option (LLMConfig Parser) :=
  config.llmConfigs.find? fun rule => rule.matcher.matches path

/-- The API of a request: the first rule that matches, if it has parsers. -/
def apiOf (config : Config Parser) (path : String) : Option (Api Parser) :=
  match matchRule config path with
  | none => none
  | some rule => rule.factory.map fun factory => ⟨rule.kind, factory⟩

namespace Filter

variable (config : Config Parser) (api : Api Parser) (clock : Clock) (f : Filter Parser)

def increment (counter : Counter) (value : ℕ) : Effect :=
  .increment counter value api.kind f.model

def onError (errorString : String) : Reply Parser where
  status := .continue
  filter := { f with hasError := true }
  effects :=
    [.debug ("llm-proxy: error during request processing and skipping further parsing: " ++
        errorString),
      f.increment api .requestError 1] ++
    if f.requestSentAt = none then [f.increment api .requestTotal 1] else []

def onRequestSuccess : Reply Parser where
  status := .continue
  filter := { f with requestSentAt := some clock.now }
  effects :=
    [.setMetadata config.metadataNamespace "kind" (.text api.kind),
      .setMetadata config.metadataNamespace "model" (.text f.model),
      .setMetadata config.metadataNamespace "is_stream" (.flag f.isStream),
      f.increment api .requestTotal 1] ++
    (if config.llmModelHeader ≠ "" then
      [.setRequestHeader config.llmModelHeader f.model] else []) ++
    if config.clearRouteCache then [.clearRouteCache] else []

/-- The latencies, unless one of their times is missing or there is no output. -/
def latencyEffects : List Effect :=
  match f.requestSentAt, f.firstChunkAt with
  | some sent, some first =>
    if f.usage.outputTokens = 0 then []
    else
      let ttft := (first - sent).tdiv 1000000
      let tpot := ((clock.later - first).tdiv 1000000).tdiv f.usage.outputTokens.toNat
      [.setMetadata config.metadataNamespace "request_ttft" (.number ttft),
        .setMetadata config.metadataNamespace "request_tpot" (.number tpot),
        .record .requestTTFT (max ttft 0).toNat api.kind f.model,
        .record .requestTPOT (max tpot 0).toNat api.kind f.model]
  | _, _ => []

def onResponseSuccess : Reply Parser where
  status := .continue
  filter := f
  effects :=
    [.setMetadata config.metadataNamespace "input_tokens" (.number f.usage.inputTokens.toNat),
      .setMetadata config.metadataNamespace "output_tokens" (.number f.usage.outputTokens.toNat),
      .setMetadata config.metadataNamespace "total_tokens" (.number f.usage.totalTokens.toNat),
      f.increment api .inputTokens f.usage.inputTokens.toNat,
      f.increment api .outputTokens f.usage.outputTokens.toNat,
      f.increment api .totalTokens f.usage.totalTokens.toNat] ++
    f.latencyEffects config api clock

/-- `whole` is the whole request body. -/
def parseRequestBody (whole : Bytes) : Reply Parser :=
  if whole = [] then f.onError api "empty request body is not expected for LLM APIs"
  else
    match api.factory.parseRequest whole with
    | (none, some req) =>
      let f := { f with model := req.model }
      if f.model = "" then f.onError api "model name is not specified in the request"
      else { f with isStream := req.isStream }.onRequestSuccess config api clock
    | (err, _) => f.onError api ("failed to parse request body: " ++ errorText err)

/-- `whole` is the whole response body. -/
def parseResponseBody (whole : Bytes) : Reply Parser :=
  if whole = [] then f.onError api "empty response body is not expected for LLM APIs"
  else
    match api.factory.parseResponse whole with
    | (none, some usage) => { f with usage := usage }.onResponseSuccess config api clock
    | (err, _) => f.onError api ("failed to parse response body: " ++ errorText err)

def finishStreamingResponse (parser : Parser) : Reply Parser :=
  match api.factory.finish parser with
  | (none, some usage) => { f with usage := usage }.onResponseSuccess config api clock
  | (err, _) => f.onError api ("failed to finish streaming response: " ++ errorText err)

/-- The chunks in turn, up to the first error. -/
def feedAll (factory : LLMFactory Parser) : Parser → List Bytes → Option String × Parser
  | parser, [] => (none, parser)
  | parser, chunk :: chunks =>
    match factory.feed parser chunk with
    | (some err, parser) => (some err, parser)
    | (none, parser) => feedAll factory parser chunks

/-- A stream that is not matched or has an error is left alone. -/
def guarded (body : Api Parser → Reply Parser) : Reply Parser :=
  match f.api with
  | none => ⟨.continue, f, []⟩
  | some api => if f.hasError then ⟨.continue, f, []⟩ else body api

def onRequestHeaders (path : String) (headers : Headers) (endOfStream : Bool) : Reply Parser :=
  match apiOf config path with
  | none => ⟨.continue, f, []⟩
  | some api =>
    let f := { f with api := some api }
    let ct := headers.getOne "content-type"
    if endOfStream then f.onError api "headers-only request is not expected for LLM APIs"
    else if contains ct "application/json" = false then
      f.onError api ("unexpected request content-type " ++ ct)
    else ⟨.stop, f, []⟩

def onRequestBody (endOfStream : Bool) (whole : Bytes) : Reply Parser :=
  f.guarded fun api =>
    if endOfStream then f.parseRequestBody config api clock whole else ⟨.stopAndBuffer, f, []⟩

def onRequestTrailers (whole : Bytes) : Reply Parser :=
  f.guarded fun api => f.parseRequestBody config api clock whole

def onResponseHeaders (headers : Headers) (endOfStream : Bool) : Reply Parser :=
  f.guarded fun api =>
    let st := headers.getOne ":status"
    let ct := headers.getOne "content-type"
    if endOfStream then f.onError api "headers-only response is not expected for LLM APIs"
    else if st ≠ "200" then f.onError api ("unexpected response status " ++ st)
    else if contains ct "text/event-stream" then
      ⟨.continue, { f with sseParser := some api.factory.newSSEParser }, []⟩
    else if contains ct "application/json" = false then
      f.onError api ("unexpected response content-type " ++ ct)
    else ⟨.stop, f, []⟩

/-- `chunks` are the chunks of this callback, `whole` the whole body so far. -/
def onResponseBody (chunks : List Bytes) (endOfStream : Bool) (whole : Bytes) : Reply Parser :=
  f.guarded fun api =>
    let f := { f with firstChunkAt := f.firstChunkAt.or (some clock.now) }
    match f.sseParser with
    | some parser =>
      match feedAll api.factory parser chunks with
      | (some err, parser) =>
        { f with sseParser := some parser }.onError api ("event stream error: " ++ err)
      | (none, parser) =>
        let f := { f with sseParser := some parser }
        if endOfStream then f.finishStreamingResponse config api clock parser
        else ⟨.continue, f, []⟩
    | none =>
      if endOfStream then f.parseResponseBody config api clock whole else ⟨.stopAndBuffer, f, []⟩

def onResponseTrailers (whole : Bytes) : Reply Parser :=
  f.guarded fun api =>
    match f.sseParser with
    | some parser => f.finishStreamingResponse config api clock parser
    | none => f.parseResponseBody config api clock whole

end Filter

inductive Callback
  | requestHeaders (path : String) (headers : Headers) (endOfStream : Bool)
  | requestBody (endOfStream : Bool) (whole : Bytes)
  | requestTrailers (whole : Bytes)
  | responseHeaders (headers : Headers) (endOfStream : Bool)
  | responseBody (chunks : List Bytes) (endOfStream : Bool) (whole : Bytes)
  | responseTrailers (whole : Bytes)

def Filter.on (config : Config Parser) (f : Filter Parser) (clock : Clock) :
    Callback → Reply Parser
  | .requestHeaders path headers endOfStream => f.onRequestHeaders config path headers endOfStream
  | .requestBody endOfStream whole => f.onRequestBody config clock endOfStream whole
  | .requestTrailers whole => f.onRequestTrailers config clock whole
  | .responseHeaders headers endOfStream => f.onResponseHeaders headers endOfStream
  | .responseBody chunks endOfStream whole =>
    f.onResponseBody config clock chunks endOfStream whole
  | .responseTrailers whole => f.onResponseTrailers config clock whole

/-- A filter with all the effects of its callbacks so far. -/
structure Stream (Parser : Type) where
  filter : Filter Parser
  effects : List Effect

def Stream.init : Stream Parser := ⟨Filter.init, []⟩

def Stream.step (config : Config Parser) (s : Stream Parser) (c : Callback × Clock) :
    Stream Parser :=
  let reply := s.filter.on config c.2 c.1
  ⟨reply.filter, s.effects ++ reply.effects⟩

def Stream.run (config : Config Parser) (callbacks : List (Callback × Clock)) : Stream Parser :=
  callbacks.foldl (Stream.step config) Stream.init

end BuiltOnEnvoy.LlmProxy
