import BuiltOnEnvoy.Sse.Events
import Mathlib.Data.List.AList

/-!
# The chat completions decoder

The accumulator that assembles the choices of a streamed chat completion. The
payloads are decoded by the standard library: the fields of a codec. A chunk
that does not decode is logged and skipped.
-/

namespace BuiltOnEnvoy.Sse.ChatCompletions

open Foundations

structure CompletionTokensDetails where
  reasoningTokens : ℤ
  audioTokens : ℤ
  deriving DecidableEq

structure ChatUsage where
  promptTokens : ℤ
  completionTokens : ℤ
  totalTokens : ℤ
  completionTokensDetails : Option CompletionTokensDetails
  deriving DecidableEq

structure ChatToolCallFunction where
  name : String
  arguments : String
  deriving DecidableEq

structure ChatToolCall where
  id : String
  type : String
  function : ChatToolCallFunction
  deriving DecidableEq

structure ChatStreamingToolCallDelta where
  index : ℤ
  id : String
  type : String
  function : ChatToolCallFunction

structure ContentPart where
  type : String
  text : String

structure ChatDelta where
  role : String
  content : Bytes
  toolCalls : List ChatStreamingToolCallDelta

structure ChatChunkChoice where
  index : ℤ
  delta : ChatDelta

structure ChatCompletionChunk where
  choices : List ChatChunkChoice
  usage : Option ChatUsage

structure Codec where
  unmarshalChunk : Bytes → Option ChatCompletionChunk
  unmarshalString : Bytes → Option String
  unmarshalParts : Bytes → Option (List ContentPart)
  marshalString : String → Option Bytes

variable (codec : Codec)

/-- A string, or the texts of the text parts on lines of their own. -/
def extractContent (raw : Bytes) : String :=
  if raw = [] then ""
  else
    match codec.unmarshalString raw with
    | some s => s
    | none =>
      match codec.unmarshalParts raw with
      | some parts =>
        let texts := parts.filterMap fun p =>
          if p.type = "text" ∧ p.text ≠ "" then some p.text else none
        String.intercalate "\n" texts
      | none => ""

abbrev ToolCalls := AList fun _ : ℤ => ChatToolCall

structure SseAccumulator where
  usage : Option ChatUsage
  roleByChoice : AList fun _ : ℤ => String
  contentByChoice : AList fun _ : ℤ => String
  toolCallsByChoice : AList fun _ : ℤ => ToolCalls
  maxChoiceIdx : ℤ

def newSSEAccumulator : SseAccumulator := ⟨none, ∅, ∅, ∅, -1⟩

/-- Append to the arguments of a call that is there, or start it. -/
def addToolCall (calls : ToolCalls) (d : ChatStreamingToolCallDelta) : ToolCalls :=
  match calls.lookup d.index with
  | some tc =>
    let arguments := tc.function.arguments ++ d.function.arguments
    calls.insert d.index { tc with function := { tc.function with arguments := arguments } }
  | none => calls.insert d.index ⟨d.id, d.type, d.function⟩

def addToolCalls (idx : ℤ) (byChoice : AList fun _ : ℤ => ToolCalls)
    (deltas : List ChatStreamingToolCallDelta) : AList fun _ : ℤ => ToolCalls :=
  deltas.foldl (fun m d => m.insert idx (addToolCall ((m.lookup idx).getD ∅) d)) byChoice

def addChoice (a : SseAccumulator) (choice : ChatChunkChoice) : SseAccumulator :=
  let idx := choice.index
  let content := extractContent codec choice.delta.content
  { a with
    maxChoiceIdx := max a.maxChoiceIdx idx
    roleByChoice :=
      if choice.delta.role ≠ "" then a.roleByChoice.insert idx choice.delta.role
      else a.roleByChoice
    contentByChoice :=
      if content ≠ "" then
        a.contentByChoice.insert idx ((a.contentByChoice.lookup idx).getD "" ++ content)
      else a.contentByChoice
    toolCallsByChoice := addToolCalls idx a.toolCallsByChoice choice.delta.toolCalls }

def processChunk (a : SseAccumulator) (data : Bytes) : Option Empty × SseAccumulator :=
  match codec.unmarshalChunk data with
  | none => (none, a)
  | some chunk =>
    let a := if chunk.usage.isSome then { a with usage := chunk.usage } else a
    (none, chunk.choices.foldl (addChoice codec) a)

structure ChatMessage where
  role : String
  content : Bytes
  toolCalls : List ChatToolCall
  deriving DecidableEq

structure ChatChoice where
  index : ℤ
  message : ChatMessage
  deriving DecidableEq

structure ChatCompletionResponse where
  choices : List ChatChoice
  usage : Option ChatUsage
  deriving DecidableEq

/-- The content as a JSON string; none when it is empty or is not encoded. -/
def rawContent (content : String) : Bytes :=
  if content ≠ "" then (codec.marshalString content).getD [] else []

/-- The calls in the order of their indices. -/
def sortedToolCalls (calls : ToolCalls) : List ChatToolCall :=
  (calls.keys.mergeSort (· ≤ ·)).filterMap calls.lookup

def finish (a : SseAccumulator) : ChatCompletionResponse :=
  if a.maxChoiceIdx < 0 then ⟨[], a.usage⟩
  else
    let choices := (List.range (a.maxChoiceIdx.toNat + 1)).map fun (i : ℕ) =>
      { index := i
        message :=
          { role := (a.roleByChoice.lookup (i : ℤ)).getD ""
            content := rawContent codec ((a.contentByChoice.lookup (i : ℤ)).getD "")
            toolCalls := ((a.toolCallsByChoice.lookup (i : ℤ)).map sortedToolCalls).getD [] } }
    ⟨choices, a.usage⟩

/-- The response assembled from a stream that arrives in these pieces. -/
def decode (pieces : List Bytes) : ChatCompletionResponse :=
  let r := (dataMachine (processChunk codec)).result ⟨false, newSSEAccumulator⟩ pieces
  finish codec r.2.acc

end BuiltOnEnvoy.Sse.ChatCompletions
