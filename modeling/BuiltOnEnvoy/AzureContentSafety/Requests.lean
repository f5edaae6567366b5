import BuiltOnEnvoy.AzureContentSafety.Analysis
import BuiltOnEnvoy.Foundations.JsonDecode

/-!
# The requests the content-safety filter reads

The format of a request body is guessed from three of its top-level names; the
parser of that format then extracts the prompt and the documents that are
analysed. A body of no known format, one that does not decode and one without a
prompt are passed on without an analysis. The errors of decoding are only logged.
-/

namespace BuiltOnEnvoy.AzureContentSafety

open Foundations

inductive ApiFormat
  | unknown
  | chatCompletions
  | responses
  | anthropic
  deriving DecidableEq, Repr

structure RequestProbe where
  input : Bytes
  messages : Bytes
  system : Bytes
  deriving DecidableEq, Repr

def probeFields : List (JsonField RequestProbe) :=
  [jsonField "input" RequestProbe.input (fun p input => { p with input }) decodeRaw,
    jsonField "messages" RequestProbe.messages (fun p messages => { p with messages }) decodeRaw,
    jsonField "system" RequestProbe.system (fun p system => { p with system }) decodeRaw]

def detectRequestFormat (body : Bytes) : ApiFormat :=
  match unmarshal (decodeStruct probeFields) ⟨[], [], []⟩ body with
  | none => .unknown
  | some probe =>
    if probe.input ≠ [] then .responses
    else if probe.messages ≠ [] then
      if probe.system ≠ [] then .anthropic else .chatCompletions
    else .unknown

/-- The text of a content: a string, or the texts of those parts that are kept. What is
neither has no text. -/
def textOf {Part : Type} (zero : Part) (fields : List (JsonField Part)) (keep : Part → Bool)
    (text : Part → String) (raw : Bytes) : String :=
  if raw = [] then ""
  else match unmarshal decodeString "" raw with
    | some s => s
    | none =>
      match unmarshal (decodeSlice zero (decodeStruct fields)) .nil raw with
      | some parts => "\n".intercalate ((parts.toList.filter keep).map text)
      | none => ""

structure ContentPart where
  type : String
  text : String
  deriving DecidableEq, Repr

def partFields : List (JsonField ContentPart) :=
  [jsonField "type" ContentPart.type (fun p type => { p with type }) decodeString,
    jsonField "text" ContentPart.text (fun p text => { p with text }) decodeString]

def extractContent (raw : Bytes) : String :=
  textOf ⟨"", ""⟩ partFields (fun p => p.type == "text" && p.text != "") ContentPart.text raw

/-- Parts of every type are kept. -/
def extractResponsesContent (raw : Bytes) : String :=
  textOf ⟨"", ""⟩ partFields (fun p => p.text != "") ContentPart.text raw

structure AnthropicContentBlock where
  type : String
  text : String
  id : String
  name : String
  input : Bytes
  toolUseID : String
  content : Bytes
  deriving DecidableEq, Repr

def emptyBlock : AnthropicContentBlock := ⟨"", "", "", "", [], "", []⟩

def blockFields : List (JsonField AnthropicContentBlock) :=
  [jsonField "type" AnthropicContentBlock.type (fun b type => { b with type }) decodeString,
    jsonField "text" AnthropicContentBlock.text (fun b text => { b with text }) decodeString,
    jsonField "id" AnthropicContentBlock.id (fun b id => { b with id }) decodeString,
    jsonField "name" AnthropicContentBlock.name (fun b name => { b with name }) decodeString,
    jsonField "input" AnthropicContentBlock.input (fun b input => { b with input }) decodeRaw,
    jsonField "tool_use_id" AnthropicContentBlock.toolUseID
      (fun b toolUseID => { b with toolUseID }) decodeString,
    jsonField "content" AnthropicContentBlock.content (fun b content => { b with content })
      decodeRaw]

def extractAnthropicContent (raw : Bytes) : String :=
  textOf emptyBlock blockFields (fun b => b.type == "text" && b.text != "")
    AnthropicContentBlock.text raw

def extractAnthropicSystem (raw : Bytes) : String :=
  textOf emptyBlock blockFields (fun b => b.type == "text" && b.text != "")
    AnthropicContentBlock.text raw

/-- A message, with its content kept as raw JSON. -/
structure Message where
  role : String
  content : Bytes
  deriving DecidableEq, Repr

def messageFields : List (JsonField Message) :=
  [jsonField "role" Message.role (fun m role => { m with role }) decodeString,
    jsonField "content" Message.content (fun m content => { m with content }) decodeRaw]

def decodeMessages : Decoder (Slice Message) :=
  decodeSlice ⟨"", []⟩ (decodeStruct messageFields)

/-- The texts of the messages of a role that have one. -/
def roleTexts (role : String) (messages : List (String × String)) : List String :=
  ((messages.filter (·.1 == role)).map (·.2)).filter (· != "")

structure ChatCompletionRequest where
  messages : Slice Message

def chatFields : List (JsonField ChatCompletionRequest) :=
  [jsonField "messages" ChatCompletionRequest.messages (fun _ messages => ⟨messages⟩)
    decodeMessages]

def ChatCompletionRequest.texts (req : ChatCompletionRequest) : List (String × String) :=
  req.messages.toList.map fun msg => (msg.role, extractContent msg.content)

def parseChatRequest (body : Bytes) : Option (String × List String) :=
  (unmarshal (decodeStruct chatFields) ⟨.nil⟩ body).map fun req =>
    ("\n".intercalate (roleTexts "user" req.texts), roleTexts "system" req.texts)

structure AnthropicTool where
  name : String
  description : String
  inputSchema : Bytes
  deriving DecidableEq, Repr

def anthropicToolFields : List (JsonField AnthropicTool) :=
  [jsonField "name" AnthropicTool.name (fun t name => { t with name }) decodeString,
    jsonField "description" AnthropicTool.description
      (fun t description => { t with description }) decodeString,
    jsonField "input_schema" AnthropicTool.inputSchema
      (fun t inputSchema => { t with inputSchema }) decodeRaw]

structure AnthropicRequest where
  system : Bytes
  messages : Slice Message
  tools : Slice AnthropicTool

def anthropicFields : List (JsonField AnthropicRequest) :=
  [jsonField "system" AnthropicRequest.system (fun r system => { r with system }) decodeRaw,
    jsonField "messages" AnthropicRequest.messages (fun r messages => { r with messages })
      decodeMessages,
    jsonField "tools" AnthropicRequest.tools (fun r tools => { r with tools })
      (decodeSlice ⟨"", "", []⟩ (decodeStruct anthropicToolFields))]

def AnthropicRequest.texts (req : AnthropicRequest) : List (String × String) :=
  req.messages.toList.map fun msg => (msg.role, extractAnthropicContent msg.content)

def parseAnthropicRequest (body : Bytes) : Option (String × List String) :=
  (unmarshal (decodeStruct anthropicFields) ⟨[], .nil, .nil⟩ body).map fun req =>
    ("\n".intercalate (roleTexts "user" req.texts),
      [extractAnthropicSystem req.system].filter (· != ""))

structure ResponsesTool where
  type : String
  name : String
  description : String
  deriving DecidableEq, Repr

def responsesToolFields : List (JsonField ResponsesTool) :=
  [jsonField "type" ResponsesTool.type (fun t type => { t with type }) decodeString,
    jsonField "name" ResponsesTool.name (fun t name => { t with name }) decodeString,
    jsonField "description" ResponsesTool.description
      (fun t description => { t with description }) decodeString]

structure ResponsesInputItem where
  type : String
  role : String
  content : Bytes
  callID : String
  name : String
  arguments : String
  output : String
  deriving DecidableEq, Repr

def inputItemFields : List (JsonField ResponsesInputItem) :=
  [jsonField "type" ResponsesInputItem.type (fun i type => { i with type }) decodeString,
    jsonField "role" ResponsesInputItem.role (fun i role => { i with role }) decodeString,
    jsonField "content" ResponsesInputItem.content (fun i content => { i with content }) decodeRaw,
    jsonField "call_id" ResponsesInputItem.callID (fun i callID => { i with callID }) decodeString,
    jsonField "name" ResponsesInputItem.name (fun i name => { i with name }) decodeString,
    jsonField "arguments" ResponsesInputItem.arguments (fun i arguments => { i with arguments })
      decodeString,
    jsonField "output" ResponsesInputItem.output (fun i output => { i with output }) decodeString]

structure ResponsesRequest where
  input : Bytes
  tools : Slice ResponsesTool

def responsesFields : List (JsonField ResponsesRequest) :=
  [jsonField "input" ResponsesRequest.input (fun r input => { r with input }) decodeRaw,
    jsonField "tools" ResponsesRequest.tools (fun r tools => { r with tools })
      (decodeSlice ⟨"", "", ""⟩ (decodeStruct responsesToolFields))]

/-- A string is the whole prompt; otherwise the input is a list of items. -/
def parseInput (input : Bytes) : Option (String × List String) :=
  match unmarshal decodeString "" input with
  | some simpleInput => some (simpleInput, [])
  | none =>
    (unmarshal (decodeSlice ⟨"", "", [], "", "", "", ""⟩ (decodeStruct inputItemFields)) .nil
      input).map fun items =>
        let texts := items.toList.map fun item => (item.role, extractResponsesContent item.content)
        ("\n".intercalate (roleTexts "user" texts), roleTexts "developer" texts)

def parseResponsesRequest (body : Bytes) : Option (String × List String) :=
  (unmarshal (decodeStruct responsesFields) ⟨[], .nil⟩ body).bind fun req => parseInput req.input

/-- The prompt and the documents that the parser of the format extracts. -/
def parseRequest : ApiFormat → Bytes → Option (String × List String)
  | .unknown, _ => none
  | .chatCompletions, body => parseChatRequest body
  | .responses, body => parseResponsesRequest body
  | .anthropic, body => parseAnthropicRequest body

/-- The analysis that is started, if there is one; without one the request goes on.
`parseTask` translates a body of a format for the task adherence check. -/
def processRequestBody {TaskRequest : Type} (cfg : AzureContentSafetyConfig)
    (metricsEnabled : Bool) (client : Client TaskRequest)
    (parseTask : ApiFormat → Bytes → Except String TaskRequest) (body : Bytes) :
    Option (Analysis TaskRequest) :=
  if body = [] then none
  else
    let format := detectRequestFormat body
    match parseRequest format body with
    | none => none
    | some (userPrompt, documents) =>
      if userPrompt = "" then none
      else
        some (analyzeRequest cfg metricsEnabled client userPrompt documents
          (parseTask format body))

end BuiltOnEnvoy.AzureContentSafety
