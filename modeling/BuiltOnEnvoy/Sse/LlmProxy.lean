import BuiltOnEnvoy.Sse.Events

/-!
# The usage parsers of the LLM proxy

The parsers that read the token usage off a streamed response. An event that
does not decode is an error; the filter feeds a parser until the first one.
-/

namespace BuiltOnEnvoy.Sse.LlmProxy

open Foundations

structure LLMUsage where
  inputTokens : UInt32
  outputTokens : UInt32
  totalTokens : UInt32
  deriving DecidableEq

def LLMUsage.zero : LLMUsage := ⟨0, 0, 0⟩

structure AnthropicUsage where
  inputTokens : UInt32
  outputTokens : UInt32
  deriving DecidableEq

structure OpenaiUsage where
  promptTokens : UInt32
  completionTokens : UInt32
  totalTokens : UInt32
  deriving DecidableEq

/-- The decoding of the payloads to the usage they carry, or the error text. -/
structure Codec where
  anthropicMessageStart : Bytes → Except String AnthropicUsage
  /-- The output tokens alone. -/
  anthropicMessageDelta : Bytes → Except String UInt32
  openaiChunk : Bytes → Except String OpenaiUsage

variable (codec : Codec)

def anthropicUsageToLLM (u : AnthropicUsage) : LLMUsage :=
  ⟨u.inputTokens, u.outputTokens, u.inputTokens + u.outputTokens⟩

def parseAnthropicChunk (type : EventType) (data : Bytes) : Except String LLMUsage :=
  match type with
  | .messageStart => (codec.anthropicMessageStart data).map anthropicUsageToLLM
  | .messageDelta => (codec.anthropicMessageDelta data).map fun tokens => ⟨0, tokens, 0⟩
  | _ => .ok LLMUsage.zero

structure AnthropicSSEParser where
  inputTokens : UInt32
  outputTokens : UInt32
  deriving DecidableEq

/-- The event type in quotes; no error names an event of another type, since
only these two are decoded. -/
def quotedType : EventType → String
  | .messageStart => "\"message_start\""
  | .messageDelta => "\"message_delta\""
  | _ => "\"\""

/-- The `message_stop` case is the loop's. -/
def processEvent (a : AnthropicSSEParser) (type : EventType) (data : Bytes) :
    Option String × AnthropicSSEParser :=
  match parseAnthropicChunk codec type data with
  | .error e =>
    (some ("llm-proxy: failed to parse Anthropic SSE event " ++ quotedType type ++ ": " ++ e), a)
  | .ok u =>
    if u ≠ LLMUsage.zero then
      (none,
        { inputTokens := if 0 < u.inputTokens then u.inputTokens else a.inputTokens
          outputTokens := if 0 < u.outputTokens then u.outputTokens else a.outputTokens })
    else (none, a)

def AnthropicSSEParser.finish (a : AnthropicSSEParser) : LLMUsage :=
  ⟨a.inputTokens, a.outputTokens, a.inputTokens + a.outputTokens⟩

/-- The error and the usage. -/
def report (p : Option String × AnthropicSSEParser) : Option String × LLMUsage :=
  (p.1, p.2.finish)

def newAnthropicSSEParser : EventReader AnthropicSSEParser := ⟨false, [], ⟨0, 0⟩⟩

/-- The first error and the usage of a stream that arrives in these pieces. -/
def anthropicUsage (pieces : List Bytes) : Option String × LLMUsage :=
  let r := (eventMachine (processEvent codec)).result newAnthropicSSEParser pieces
  report (r.1, r.2.acc)

/-- A count is kept: the event carries none, or the same. -/
def QuietTokens (count carried : UInt32) : Prop := carried = 0 ∨ carried = count

/-- The event decodes, and changes no count. -/
def QuietEvent (a : AnthropicSSEParser) (type : EventType) (data : Bytes) : Prop :=
  match type with
  | .messageStart =>
    ∃ u, codec.anthropicMessageStart data = .ok u ∧
      QuietTokens a.inputTokens u.inputTokens ∧ QuietTokens a.outputTokens u.outputTokens
  | .messageDelta =>
    ∃ tokens, codec.anthropicMessageDelta data = .ok tokens ∧ QuietTokens a.outputTokens tokens
  | _ => True

attribute [local simp] QuietTokens LLMUsage.zero QuietEvent

theorem quietTokens_iff (count carried : UInt32) :
    QuietTokens count carried ↔ (if 0 < carried then carried else count) = count := by
  by_cases h : carried = 0
  · simp [h]
  · have hpos : 0 < carried := UInt32.pos_iff_ne_zero.mpr h
    simp [h, hpos]

theorem processEvent_ok {a : AnthropicSSEParser} {type : EventType} {data : Bytes} {u : LLMUsage}
    (hparse : parseAnthropicChunk codec type data = .ok u) :
    processEvent codec a type data = (none,
      { inputTokens := if 0 < u.inputTokens then u.inputTokens else a.inputTokens
        outputTokens := if 0 < u.outputTokens then u.outputTokens else a.outputTokens }) := by
  simp only [processEvent, hparse]
  by_cases hzero : u = LLMUsage.zero
  · subst hzero
    simp
  · rw [if_pos hzero]

theorem finish_eq_iff (a b : AnthropicSSEParser) :
    a.finish = b.finish ↔ a.inputTokens = b.inputTokens ∧ a.outputTokens = b.outputTokens := by
  simp only [AnthropicSSEParser.finish, LLMUsage.mk.injEq]
  constructor
  · rintro ⟨hin, hout, -⟩
    exact ⟨hin, hout⟩
  · rintro ⟨hin, hout⟩
    exact ⟨hin, hout, by rw [hin, hout]⟩

/-- The quiet events are those after which the error and the usage are the
same. -/
theorem quietEvent_iff (a : AnthropicSSEParser) (type : EventType) (data : Bytes) :
    QuietEvent codec a type data ↔ report (processEvent codec a type data) = report (none, a) := by
  have hcounts : ∀ u, parseAnthropicChunk codec type data = .ok u →
      (report (processEvent codec a type data) = report (none, a) ↔
        QuietTokens a.inputTokens u.inputTokens ∧ QuietTokens a.outputTokens u.outputTokens) := by
    intro u hparse
    rw [processEvent_ok codec hparse, report, report, Prod.mk.injEq, finish_eq_iff,
      quietTokens_iff, quietTokens_iff]
    simp
  have hfails : ∀ e, parseAnthropicChunk codec type data = .error e →
      report (processEvent codec a type data) ≠ report (none, a) := by
    intro e hparse
    simp [report, processEvent, hparse]
  cases type with
  | messageStart =>
    have hparse : parseAnthropicChunk codec .messageStart data =
        (codec.anthropicMessageStart data).map anthropicUsageToLLM := rfl
    cases hdecode : codec.anthropicMessageStart data with
    | error e =>
      rw [hdecode] at hparse
      simpa [hdecode] using hfails e hparse
    | ok u =>
      rw [hdecode] at hparse
      rw [hcounts _ hparse]
      simp [hdecode, anthropicUsageToLLM]
  | messageDelta =>
    have hparse : parseAnthropicChunk codec .messageDelta data =
        (codec.anthropicMessageDelta data).map fun tokens => ⟨0, tokens, 0⟩ := rfl
    cases hdecode : codec.anthropicMessageDelta data with
    | error e =>
      rw [hdecode] at hparse
      simpa [hdecode] using hfails e hparse
    | ok tokens =>
      rw [hdecode] at hparse
      rw [hcounts _ hparse]
      simp [hdecode]
  | contentBlockStart | contentBlockDelta | messageStop | other => simp [hcounts _ rfl]

def openaiUsageToLLM (u : OpenaiUsage) : LLMUsage :=
  ⟨u.promptTokens, u.completionTokens, u.totalTokens⟩

def parseOpenAIChunk (data : Bytes) : Except String LLMUsage :=
  (codec.openaiChunk data).map openaiUsageToLLM

/-- The parser's usage after one payload. -/
def processChunk (usage : LLMUsage) (payload : Bytes) : Option String × LLMUsage :=
  match parseOpenAIChunk codec payload with
  | .error e => (some ("llm-proxy: failed to parse OpenAI streaming chunk: " ++ e), usage)
  | .ok u => (none, if u ≠ LLMUsage.zero then u else usage)

/-- The first error and the usage of a stream that arrives in these pieces. -/
def openaiUsage (pieces : List Bytes) : Option String × LLMUsage :=
  let r := (dataMachine (processChunk codec)).result ⟨false, LLMUsage.zero⟩ pieces
  (r.1, r.2.acc)

end BuiltOnEnvoy.Sse.LlmProxy
