import BuiltOnEnvoy.Sse.AnthropicDecoder
import BuiltOnEnvoy.Sse.ChatCompletions
import BuiltOnEnvoy.Sse.LlmProxy

/-!
# Cutting a stream into pieces

Both OpenAI readers give the same result however their input is cut. The
Anthropic readers do so exactly for the streams in which no event after
`message_stop` changes the result: such an event is read when it arrives in the
same piece as the stop event, and dropped when it arrives later.
-/

namespace BuiltOnEnvoy.Sse

open Foundations

/-- However the stream is cut, the result is the same. -/
def SameForAllCuts {ω : Type*} (result : List Bytes → ω) (stream : Bytes) : Prop :=
  ∀ p q : List Bytes, p.flatten = stream → q.flatten = stream → result p = result q

theorem openai_sameForAllCuts (decoder : ChatCompletions.Codec) (proxy : LlmProxy.Codec)
    (stream : Bytes) :
    SameForAllCuts (ChatCompletions.decode decoder) stream ∧
      SameForAllCuts (LlmProxy.openaiUsage proxy) stream := by
  constructor
  · exact dataMachine_chunkingInvariant (ChatCompletions.processChunk decoder)
      (fun p => ChatCompletions.finish decoder p.2) _ stream
  · exact dataMachine_chunkingInvariant (LlmProxy.processChunk proxy) id _ stream

namespace AnthropicDecoder

/-- Every event after the stop event leaves the message as it is. -/
def QuietAfterStop (codec : Codec) (stream : Bytes) : Prop :=
  (eventMachine (processEvent codec)).Settled (QuietLine (QuietEvent codec)) reader (lines stream)

end AnthropicDecoder

namespace LlmProxy

/-- Every event after the stop event decodes and leaves the counts as they are. -/
def QuietAfterStop (codec : Codec) (stream : Bytes) : Prop :=
  (eventMachine (processEvent codec)).Settled (QuietLine (QuietEvent codec))
    newAnthropicSSEParser (lines stream)

end LlmProxy

theorem anthropic_sameForAllCuts_iff (decoder : AnthropicDecoder.Codec) (proxy : LlmProxy.Codec)
    (stream : Bytes) :
    (SameForAllCuts (AnthropicDecoder.decode decoder) stream ↔
        AnthropicDecoder.QuietAfterStop decoder stream) ∧
      (SameForAllCuts (LlmProxy.anthropicUsage proxy) stream ↔
        LlmProxy.QuietAfterStop proxy stream) := by
  constructor
  · exact eventMachine_chunkingInvariant_iff
      (AnthropicDecoder.quietEvent_iff decoder) _ stream
  · exact eventMachine_chunkingInvariant_iff (LlmProxy.quietEvent_iff proxy) _ stream

def stopPiece : Bytes := ascii "event: message_stop\ndata: \x7b\x7d\n"

/-- The payload of a `message_start`. -/
def latePayload : Bytes :=
  ascii "\x7b\"message\":\x7b\"role\":\"a\",\"usage\":\x7b\"input_tokens\":1\x7d\x7d\x7d"

def latePiece : Bytes := ascii "event: message_start\ndata: " ++ latePayload ++ [newline]

/-- A `message_start` whose payload is cut short. -/
def brokenPiece : Bytes := ascii "event: message_start\ndata: \x7b\n"

/-- The decoding of the payload above; every other one is refused. -/
def lateDecoder : AnthropicDecoder.Codec where
  messageStart data :=
    if data = latePayload then some ⟨"a", some ⟨1, 0, 0, 0⟩⟩ else none
  contentBlockStart _ := none
  contentBlockDelta _ := none
  messageDelta _ := none

def lateProxy : LlmProxy.Codec where
  anthropicMessageStart data :=
    if data = latePayload then .ok ⟨1, 0⟩ else .error "unexpected end of JSON input"
  anthropicMessageDelta _ := .error "unexpected end of JSON input"
  openaiChunk _ := .error "unexpected end of JSON input"

/-- The message, the usage and the error that come from an event after the stop
event depend on the cut. -/
theorem event_after_stop_shows_the_cut :
    ¬SameForAllCuts (AnthropicDecoder.decode lateDecoder) (stopPiece ++ latePiece) ∧
      ¬SameForAllCuts (LlmProxy.anthropicUsage lateProxy) (stopPiece ++ latePiece) ∧
      ¬SameForAllCuts (LlmProxy.anthropicUsage lateProxy) (stopPiece ++ brokenPiece) := by
  refine ⟨fun hsame => ?_, fun hsame => ?_, fun hsame => ?_⟩
  · have heq := hsame [stopPiece ++ latePiece] [stopPiece, latePiece] (by simp) (by simp)
    exact absurd heq (by decide +kernel)
  · have heq := hsame [stopPiece ++ latePiece] [stopPiece, latePiece] (by simp) (by simp)
    exact absurd heq (by decide +kernel)
  · have heq := hsame [stopPiece ++ brokenPiece] [stopPiece, brokenPiece] (by simp) (by simp)
    exact absurd heq (by decide +kernel)

end BuiltOnEnvoy.Sse
