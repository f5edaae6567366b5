import BuiltOnEnvoy.Foundations.Bytes

/-!
# The Bedrock guardrails filter

The chain of callouts that applies the configured guardrails to a chat request
one after another. JSON is encoded and decoded by the standard library; those
calls are the fields of a codec, over which everything is generic. The calls
made on the filter handle are recorded in order, log calls left out.
-/

namespace BuiltOnEnvoy.Bedrock

open Foundations

structure Guardrail where
  identifier : String
  version : String
  deriving DecidableEq, Repr

structure GuardrailsConfig where
  bedrockEndpoint : String
  cluster : String
  bedrockAPIKey : String
  bedrockGuardrails : List Guardrail
  timeoutMs : ℕ
  deriving DecidableEq, Repr

/-- A message; its content is kept as raw JSON. -/
structure ChatMessage where
  role : String
  content : Bytes
  name : Option String
  toolCallID : Option String
  toolCalls : List Bytes
  deriving DecidableEq, Repr

/-- A chat request; `Rest` stands for the fields that are only passed on. -/
structure ChatRequest (Rest : Type) where
  messages : List ChatMessage
  rest : Rest

structure ContentPart where
  type : String
  text : String
  deriving DecidableEq, Repr

/-- A JSON value decoded without a type. -/
inductive JsonValue
  | null
  | bool (value : Bool)
  | number (text : String)
  | string (value : String)
  | array (items : List JsonValue)
  | object (members : List (String × JsonValue))

structure Filter where
  action : String
  confidence : String
  detected : Bool
  filterStrength : String
  type : String
  deriving DecidableEq, Repr

structure Topic where
  name : String
  type : String
  action : String
  deriving DecidableEq, Repr

structure PiiEntity where
  type : String
  «match» : String
  action : String
  deriving DecidableEq, Repr

structure Assessment where
  guardrailID : String
  guardrailVersion : String
  filters : List Filter
  topics : List Topic
  piiEntities : List PiiEntity
  regexes : List JsonValue

structure ApplyGuardrailResponse where
  action : String
  outputs : List String
  assessments : List Assessment

structure ApplyGuardrailRequest where
  source : String
  content : List String
  deriving DecidableEq, Repr

/-- The JSON calls. A decoded response is `none` for the value `null`; the
marshal calls without an error have inputs that cannot fail. -/
structure Codec (Rest : Type) where
  unmarshalRequest : Bytes → Except String (ChatRequest Rest)
  marshalRequest : ChatRequest Rest → Except String Bytes
  unmarshalString : Bytes → Option String
  unmarshalParts : Bytes → Option (List ContentPart)
  marshalPart : ContentPart → Bytes
  quote : String → Bytes
  marshalApply : ApplyGuardrailRequest → Bytes
  unmarshalResponse : Bytes → Except String (Option ApplyGuardrailResponse)

/-- How a callout ended, or how starting it went. -/
inductive CalloutResult
  | success
  | failure (code : ℕ)
  deriving DecidableEq, Repr

def CalloutResult.text : CalloutResult → String
  | success => "0"
  | failure code => toString code

/-- The state of `applyGuardrailCallback` besides the handle and the config. -/
structure Callback where
  body : Bytes
  index : ℕ
  deriving DecidableEq, Repr

inductive HandleCall
  /-- The content length and both body buffers are dropped. -/
  | clearBody
  | httpCallout (cluster : String) (headers : List (String × String)) (body : Bytes)
      (timeoutMs : ℕ) (callback : Callback) (result : CalloutResult)
  | sendLocalResponse (status : ℕ) (message : String)
  | appendBody (body : Bytes)
  | continueRequest
  /-- The callback does not return. -/
  | panic
  deriving DecidableEq, Repr

structure Answer where
  result : CalloutResult
  headers : List (String × String)
  body : List Bytes
  deriving DecidableEq, Repr

section

variable {Rest : Type} (codec : Codec Rest) (cfg : GuardrailsConfig)

def extractContent (raw : Bytes) : String :=
  if raw = [] then ""
  else match codec.unmarshalString raw with
    | some s => s
    | none =>
      match codec.unmarshalParts raw with
      | some parts =>
        "\n".intercalate ((parts.filter fun p => p.type == "text" && p.text != "").map (·.text))
      | none => ""

def parseChatRequest (body : Bytes) : Except String (List String) :=
  (codec.unmarshalRequest body).map fun req =>
    (req.messages.filter (·.role == "user")).map fun msg => extractContent codec msg.content

def isText (content : Bytes) : Bool :=
  content != [] && (codec.unmarshalParts content).isSome

def isString (content : Bytes) : Bool :=
  content != [] && (codec.unmarshalString content).isSome

/-- The new content of a user message; empty when the old one is neither a
string nor a list of parts. -/
def replacedContent (content : Bytes) (text : String) : Bytes :=
  if isText codec content then codec.marshalPart ⟨"text", text⟩
  else if isString codec content then codec.quote text
  else []

/-- The loop over the messages: only user messages are kept, and running out of
replacement texts is an error. -/
def replaceMessages (texts : List String) : ℕ → List ChatMessage → Option (List ChatMessage)
  | _, [] => some []
  | userIndex, msg :: rest =>
    if userIndex = texts.length then none
    else if msg.role ≠ "user" then replaceMessages texts userIndex rest
    else
      (replaceMessages texts (userIndex + 1) rest).map
        ({ msg with content := replacedContent codec msg.content (texts.getD userIndex "") } :: ·)

def replaceUserPrompts (requestBytes : Bytes) (texts : List String) : Option Bytes :=
  match codec.unmarshalRequest requestBytes with
  | .error _ => none
  | .ok req =>
    match replaceMessages codec texts 0 req.messages with
    | none => none
    | some messages => (codec.marshalRequest { req with messages := messages }).toOption

def applyPath (g : Guardrail) : String :=
  "/guardrail/" ++ g.identifier ++ "/version/" ++ g.version ++ "/apply"

/-- The headers and the body of a callout. -/
def getCalloutHeaders (g : Guardrail) (body : Bytes) :
    Except String (List (String × String) × Bytes) :=
  match parseChatRequest codec body with
  | .error e => .error ("getting content: parsing chat request: " ++ e)
  | .ok content => .ok
    ([(":method", "POST"),
      (":path", applyPath g),
      (":authority", cfg.bedrockEndpoint),
      (":scheme", "https"),
      ("Authorization", "Bearer " ++ cfg.bedrockAPIKey),
      ("Content-type", "application/json")],
      codec.marshalApply ⟨"INPUT", content⟩)

/-- Apply the first guardrail. The returned flag lets the request go on; `init`
answers the callout if one is made. -/
def processRequestBody (body : Bytes) (init : CalloutResult) : Bool × List HandleCall :=
  if body = [] then (true, [])
  else match cfg.bedrockGuardrails.head? with
    | none => (true, [])
    | some g =>
      match getCalloutHeaders codec cfg g body with
      | .error e =>
        (false, [.clearBody, .sendLocalResponse 502 ("error getting callout headers: " ++ e)])
      | .ok (headers, calloutBody) =>
        let callout := HandleCall.httpCallout cfg.cluster headers calloutBody 20000 ⟨body, 0⟩ init
        if init ≠ .success then
          (false, [.clearBody, callout,
            .sendLocalResponse 502 ("error calling out: " ++ init.text)])
        else (false, [.clearBody, callout])

def headerValue (headers : List (String × String)) (key : String) : String :=
  match headers.find? (·.1 == key) with
  | some h => h.2
  | none => ""

def Answer.statusCode (a : Answer) : String := headerValue a.headers ":status"

/-- Some content filter, topic or PII entity is blocked. -/
def Assessment.blocked (x : Assessment) : Bool :=
  x.filters.any (·.action == "BLOCKED") || x.topics.any (·.action == "BLOCKED") ||
    x.piiEntities.any (·.action == "BLOCKED")

def ApplyGuardrailResponse.blocked (resp : ApplyGuardrailResponse) : Bool :=
  resp.action == "GUARDRAIL_INTERVENED" && resp.assessments.any Assessment.blocked

/-- The request body for the next guardrail: masked when there are outputs. -/
def maskedBody (body : Bytes) (outputs : List String) : Option Bytes :=
  if outputs = [] then some body else replaceUserPrompts codec body outputs

/-- The end of the callback: start the next guardrail or continue. -/
def applyNext (body : Bytes) (nextIndex : ℕ) (init : CalloutResult) : List HandleCall :=
  match cfg.bedrockGuardrails[nextIndex]? with
  | none => [.appendBody body, .continueRequest]
  | some g =>
    match getCalloutHeaders codec cfg g body with
    | .error _ => [.sendLocalResponse 502 "bedrock-guardrails: getting callout headers"]
    | .ok (headers, calloutBody) =>
      let callout :=
        HandleCall.httpCallout cfg.cluster headers calloutBody cfg.timeoutMs ⟨body, nextIndex⟩ init
      if init ≠ .success then
        [callout,
          .sendLocalResponse 502 ("bedrock-guardrails: execute callout status=" ++ init.text)]
      else [callout]

/-- `OnHttpCalloutDone`; `init` answers the next callout if one is made. -/
def onHttpCalloutDone (cb : Callback) (init : CalloutResult) (a : Answer) : List HandleCall :=
  if a.result ≠ .success then
    [.sendLocalResponse 502 ("failed to apply guardrail, result: " ++ a.result.text)]
  else if a.statusCode.toList.head? ≠ some '2' then
    [.sendLocalResponse 502 ("failed to apply guardrail, status: " ++ a.statusCode)]
  else match codec.unmarshalResponse a.body.flatten with
    | .error e => [.sendLocalResponse 502 ("failed to unmarshal response: " ++ e)]
    | .ok none => [.panic]
    | .ok (some resp) =>
      if resp.blocked then
        [.sendLocalResponse 400 "bedrock-guardrails: request blocked by guardrail"]
      else match maskedBody codec cb.body resp.outputs with
        | none => [.sendLocalResponse 502 "bedrock-guardrails: request blocked by guardrail"]
        | some newBody =>
          -- the first assessment is read without a check
          if resp.assessments = [] then [.panic]
          else applyNext codec cfg newBody (cb.index + 1) init

end

end BuiltOnEnvoy.Bedrock
