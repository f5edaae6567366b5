import BuiltOnEnvoy.Sse.AnthropicDecoder

/-!
# Response callbacks of the Anthropic decoder

The filter reads an event stream as it arrives and any other response as one
JSON document, and writes what it decoded as filter metadata. A callback that
panics returns a fault. Besides the panics of the source there is the one of the
run time when a slice of blocks outgrows what it can hold.
-/

namespace BuiltOnEnvoy.Sse.AnthropicDecoder

open Foundations List

inductive Fault
  | indexOutOfRange
  | sliceTooLong
  | nilDereference
  deriving DecidableEq

def Panic.fault : Panic → Fault
  | indexOutOfRange => .indexOutOfRange

/-- A response as the JSON library builds it; the content holds pointers, and
an entry can be nil. -/
structure DecodedResponse where
  role : String
  content : List (Option AnthropicContentBlock)
  usage : Option AnthropicUsage

/-- What the filter runs on: the JSON library and the longest slice of blocks
that the run time can make. -/
structure Runtime where
  codec : Codec
  decodeAnthropicResponse : Bytes → Option DecodedResponse
  maxBlocks : ℕ

inductive MetadataValue
  | int (value : ℤ)
  | text (value : String)
  | raw (value : Bytes)
  deriving DecidableEq

structure MetadataEntry where
  key : String
  value : MetadataValue
  deriving DecidableEq

/-- The texts and the tool calls among the blocks seen so far. -/
structure Parts where
  textParts : List String
  toolCalls : List AnthropicContentBlock

def Parts.add (parts : Parts) (block : AnthropicContentBlock) : Parts where
  textParts :=
    if block.type = "text" ∧ block.text ≠ "" then parts.textParts ++ [block.text]
    else parts.textParts
  toolCalls := if block.type = "tool_use" then parts.toolCalls ++ [block] else parts.toolCalls

def addBlock (parts : Parts) : Option AnthropicContentBlock → Except Fault Parts
  | none => .error .nilDereference
  | some block => .ok (parts.add block)

def toolCallMetadata (j : ℕ) (tc : AnthropicContentBlock) : List MetadataEntry :=
  let call := "llm.output_messages.0.message.tool_calls." ++ toString j ++ ".tool_call."
  [⟨call ++ "id", .text tc.id⟩, ⟨call ++ "function.name", .text tc.name⟩,
    ⟨call ++ "function.arguments", .raw tc.input⟩]

/-- A sum of `int` values. -/
def intAdd (a b : ℤ) : ℤ := (a + b).bmod (2 ^ 64)

def usageMetadata (usage : AnthropicUsage) : List MetadataEntry :=
  [⟨"llm.token_count.prompt", .int usage.inputTokens⟩,
    ⟨"llm.token_count.completion", .int usage.outputTokens⟩,
    ⟨"llm.token_count.total", .int (intAdd usage.inputTokens usage.outputTokens)⟩] ++
  (if usage.cacheCreationInputTokens > 0 then
    [⟨"llm.token_count.completion_details.cache_creation_input_tokens",
      .int usage.cacheCreationInputTokens⟩]
  else []) ++
  if usage.cacheReadInputTokens > 0 then
    [⟨"llm.token_count.completion_details.cache_read_input_tokens",
      .int usage.cacheReadInputTokens⟩]
  else []

/-- The entries written for a response, all in the configured namespace. -/
def setResponseMetadata (resp : DecodedResponse) : Except Fault (List MetadataEntry) := do
  let parts ← resp.content.foldlM addBlock ⟨[], []⟩
  let content := String.intercalate "\n" parts.textParts
  let message : List MetadataEntry :=
    [⟨"llm.output_messages.count", .int 1⟩,
      ⟨"llm.output_messages.0.message.role", .text resp.role⟩]
  let text : List MetadataEntry :=
    if content ≠ "" then [⟨"llm.output_messages.0.message.content", .text content⟩] else []
  let calls : List MetadataEntry :=
    if parts.toolCalls = [] then []
    else
      ⟨"llm.output_messages.0.message.tool_calls.count", .int parts.toolCalls.length⟩ ::
        (parts.toolCalls.mapIdx toolCallMetadata).flatten
  let usage := (resp.usage.map usageMetadata).getD []
  return message ++ text ++ calls ++ usage

/-- Handle one event. Before a block is stored the slice grows to its index. -/
def processEventIn (rt : Runtime) (a : AnthropicSSEAccumulator) (type : EventType)
    (data : Bytes) : Option Fault × AnthropicSSEAccumulator :=
  let handled := processEvent rt.codec a type data
  match type, rt.codec.contentBlockStart data with
  | .contentBlockStart, some cbs =>
    if rt.maxBlocks ≤ cbs.index then (some .sliceTooLong, a)
    else (handled.1.map Panic.fault, handled.2)
  | _, _ => (handled.1.map Panic.fault, handled.2)

def sseMachine (rt : Runtime) : LineMachine (EventReader AnthropicSSEAccumulator) Fault :=
  eventMachine (processEventIn rt)

/-- The assembled message; the accumulator keeps the addresses of its own blocks. -/
def streamedResponse (a : AnthropicSSEAccumulator) : DecodedResponse :=
  { role := (finish a).role
    content := (finish a).content.map some
    usage := (finish a).usage }

structure DecoderFilter where
  responseProcessed : Bool
  sseAcc : Option (LineReader (EventReader AnthropicSSEAccumulator))
  metadata : List MetadataEntry

def newDecoderFilter : DecoderFilter := ⟨false, none, []⟩

inductive HeadersStatus
  | continue
  | stop
  deriving DecidableEq

inductive BodyStatus
  | continue
  | stopAndBuffer
  deriving DecidableEq

def isEventStream (contentType : String) : Bool :=
  "text/event-stream".toList.isPrefixOf contentType.toList

def onResponseHeaders (f : DecoderFilter) (contentType : String) (endOfStream : Bool) :
    HeadersStatus × DecoderFilter :=
  if endOfStream then (.continue, f)
  else if isEventStream contentType then (.continue, { f with sseAcc := some ⟨[], reader⟩ })
  else (.stop, f)

section

variable (rt : Runtime)

def decodeStreamingResponse (f : DecoderFilter)
    (acc : LineReader (EventReader AnthropicSSEAccumulator)) : Except Fault DecoderFilter := do
  let entries ← setResponseMetadata (streamedResponse acc.state.acc)
  return { f with responseProcessed := true, metadata := f.metadata ++ entries }

/-- `body` is the whole response body. A body that does not decode is logged. -/
def decodeResponseBody (f : DecoderFilter) (body : Bytes) : Except Fault DecoderFilter :=
  let f := { f with responseProcessed := true }
  if body = [] then .ok f
  else
    match rt.decodeAnthropicResponse body with
    | none => .ok f
    | some decoded => do
      let entries ← setResponseMetadata decoded
      return { f with metadata := f.metadata ++ entries }

def onResponseBody (f : DecoderFilter) (chunks : List Bytes) (body : Bytes)
    (endOfStream : Bool) : Except Fault (BodyStatus × DecoderFilter) :=
  match f.sseAcc with
  | some acc =>
    match (sseMachine rt).feedAll acc chunks with
    | (some fault, _) => .error fault
    | (none, acc) => do
      let f := { f with sseAcc := some acc }
      if endOfStream then
        let f ← decodeStreamingResponse f acc
        return (.continue, f)
      else return (.continue, f)
  | none => do
    if !endOfStream then return (.stopAndBuffer, f)
    else
      let f ← decodeResponseBody rt f body
      return (.continue, f)

def onResponseTrailers (f : DecoderFilter) (body : Bytes) : Except Fault DecoderFilter :=
  if f.responseProcessed then .ok f
  else
    match f.sseAcc with
    | some acc => decodeStreamingResponse f acc
    | none => decodeResponseBody rt f body

/-- A response as the host delivers it: the chunks of each body callback, and
whether it ends with trailers. -/
structure Response where
  contentType : String
  bodies : List (List Bytes)
  trailers : Bool

/-- The body callbacks from some point on. The last one ends the stream unless
there are trailers. -/
def deliverBodies (body : Bytes) (trailers : Bool) (f : DecoderFilter) :
    List (List Bytes) → Except Fault DecoderFilter
  | [] => if trailers then onResponseTrailers rt f body else .ok f
  | chunks :: rest => do
    let r ← onResponseBody rt f chunks body (rest.isEmpty && !trailers)
    deliverBodies body trailers r.2 rest

def deliver (r : Response) : Except Fault DecoderFilter :=
  let f := (onResponseHeaders newDecoderFilter r.contentType (r.bodies.isEmpty && !r.trailers)).2
  deliverBodies rt r.bodies.flatten.flatten r.trailers f r.bodies

end

/-- The block of the event can be stored. -/
def SafeEvent (rt : Runtime) (type : EventType) (data : Bytes) : Prop :=
  type = .contentBlockStart → ∀ cbs, rt.codec.contentBlockStart data = some cbs →
    0 ≤ cbs.index ∧ cbs.index < rt.maxBlocks

attribute [local simp] processEventIn SafeEvent processEvent eventStep onResponseTrailers
  onResponseHeaders

/-- A reader that only notes the events. -/
def noteEvent (seen : List (EventType × Bytes)) (type : EventType) (data : Bytes) :
    Option Empty × List (EventType × Bytes) :=
  (none, seen ++ [(type, data)])

/-- The events that are handled when a stream arrives in these pieces. -/
def readEvents (pieces : List Bytes) : List (EventType × Bytes) :=
  ((eventMachine noteEvent).result ⟨false, [], []⟩ pieces).2.acc

/-- The blocks of a stream can be stored; the content of a document has no nil
entry. -/
def Response.Safe (rt : Runtime) (r : Response) : Prop :=
  if isEventStream r.contentType then
    ∀ event ∈ readEvents r.bodies.flatten, SafeEvent rt event.1 event.2
  else
    ∀ decoded, r.bodies.flatten.flatten ≠ [] →
      rt.decodeAnthropicResponse r.bodies.flatten.flatten = some decoded → none ∉ decoded.content

/-- The computation returns. -/
def Completes {α : Type} (x : Except Fault α) : Prop := ∃ a, x = .ok a

section

variable {α β : Type}

@[simp] theorem completes_ok (a : α) : Completes (.ok a) := ⟨a, rfl⟩

@[simp] theorem not_completes_error (fault : Fault) :
    ¬Completes (.error fault : Except Fault α) := by
  rintro ⟨a, h⟩
  cases h

theorem completes_bind_iff {x : Except Fault α} {next : α → Except Fault β}
    (h : ∀ a, Completes (next a)) : Completes (x >>= next) ↔ Completes x := by
  cases x with
  | error fault =>
    have herror : (Except.error fault >>= next) = .error fault := rfl
    simp [herror]
  | ok a => exact ⟨fun _ => completes_ok a, fun _ => h a⟩

end

theorem processEventIn_completes_iff (rt : Runtime) (a : AnthropicSSEAccumulator)
    (type : EventType) (data : Bytes) :
    (processEventIn rt a type data).1 = none ↔ SafeEvent rt type data := by
  cases type with
  | contentBlockStart =>
    cases hdecode : rt.codec.contentBlockStart data with
    | none => simp [hdecode]
    | some cbs =>
      by_cases hlong : (rt.maxBlocks : ℤ) ≤ cbs.index
      · simp [hdecode, hlong]
      · by_cases hneg : cbs.index < 0
        · simp [hdecode, hlong, hneg]
        · simp [hdecode, hlong, hneg, not_lt.mp hneg, not_le.mp hlong]
  | messageStart =>
    cases hdecode : rt.codec.messageStart data <;>
      simp [hdecode]
  | contentBlockDelta =>
    cases hdecode : rt.codec.contentBlockDelta data with
    | none => simp [hdecode]
    | some cbd =>
      simp only [processEventIn, SafeEvent, processEvent, hdecode]
      split_ifs <;> simp
  | messageDelta =>
    cases hdecode : rt.codec.messageDelta data with
    | none => simp [hdecode]
    | some md =>
      cases hmd : md.usage <;> cases husage : a.usage <;>
        simp [hdecode, hmd, husage]
  | messageStop | other => simp

section

variable (rt : Runtime)

/-- The two readers are at the same line and every event so far was safe. -/
def InStep (r : EventReader AnthropicSSEAccumulator) (t : EventReader (List (EventType × Bytes))) :
    Prop :=
  r.done = t.done ∧ r.currentEvent = t.currentEvent ∧
    ∀ event ∈ t.acc, SafeEvent rt event.1 event.2

def SawUnsafe (t : EventReader (List (EventType × Bytes))) : Prop :=
  ¬∀ event ∈ t.acc, SafeEvent rt event.1 event.2

theorem noteEvent_step (t : EventReader (List (EventType × Bytes))) (raw : Bytes) :
    ∃ t', eventStep noteEvent t raw = .next t' ∧ ∀ event ∈ t.acc, event ∈ t'.acc := by
  cases hline : Line.ofBytes raw with
  | event type => exact ⟨{ t with currentEvent := type }, by simp [hline], fun _ h => h⟩
  | other => exact ⟨t, by simp [hline], fun _ h => h⟩
  | data payload =>
    by_cases hstop : EventType.ofBytes t.currentEvent = .messageStop
    · exact ⟨_, eventStep_stop hline hstop, fun _ h => h⟩
    · exact ⟨_, by rw [eventStep_data hline hstop]; rfl, fun _ h => mem_append_left _ h⟩

theorem inStep_step {r : EventReader AnthropicSSEAccumulator}
    {t : EventReader (List (EventType × Bytes))} (h : InStep rt r t) (raw : Bytes) :
    ∃ t', eventStep noteEvent t raw = .next t' ∧
      ((∃ r', eventStep (processEventIn rt) r raw = .next r' ∧ InStep rt r' t') ∨
        (∃ fault r', eventStep (processEventIn rt) r raw = .fail fault r') ∧ SawUnsafe rt t') := by
  obtain ⟨hdone, hevent, hsafe⟩ := h
  cases hline : Line.ofBytes raw with
  | event type =>
    refine ⟨{ t with currentEvent := type }, by simp [hline], Or.inl ?_⟩
    exact ⟨{ r with currentEvent := type }, by simp [hline], hdone, rfl, hsafe⟩
  | other =>
    refine ⟨t, by simp [hline], Or.inl ⟨r, ?_, hdone, hevent, hsafe⟩⟩
    simp only [eventStep, hline]
  | data payload =>
    by_cases hstop : EventType.ofBytes r.currentEvent = .messageStop
    · have hstop' : EventType.ofBytes t.currentEvent = .messageStop := by rwa [← hevent]
      exact ⟨_, eventStep_stop hline hstop',
        Or.inl ⟨_, eventStep_stop hline hstop, rfl, rfl, hsafe⟩⟩
    · have hstop' : EventType.ofBytes t.currentEvent ≠ .messageStop := by rwa [← hevent]
      refine ⟨_, by rw [eventStep_data hline hstop']; rfl, ?_⟩
      have hiff := processEventIn_completes_iff rt r.acc (EventType.ofBytes r.currentEvent) payload
      rw [eventStep_data hline hstop]
      rcases hprocess : processEventIn rt r.acc (EventType.ofBytes r.currentEvent) payload with
        ⟨_ | fault, acc⟩
      · rw [hprocess] at hiff
        have hnew := hiff.mp rfl
        refine Or.inl ⟨_, rfl, hdone, rfl, ?_⟩
        intro event hmem
        rcases mem_append.mp hmem with hmem | hmem
        · exact hsafe event hmem
        · rw [mem_singleton.mp hmem, ← hevent]
          exact hnew
      · rw [hprocess] at hiff
        refine Or.inr ⟨⟨fault, _, rfl⟩, ?_⟩
        intro hall
        have hnew := hall (EventType.ofBytes t.currentEvent, payload) (by simp)
        rw [← hevent] at hnew
        exact absurd (hiff.mpr hnew) (by simp)

theorem watches_noteEvent :
    LineMachine.Watches (sseMachine rt) (eventMachine noteEvent) (InStep rt) (SawUnsafe rt) where
  done h := h.1
  good h := not_not.mpr h.2.2
  step h raw := inStep_step rt h raw
  stays {t} h raw := by
    obtain ⟨t', hstep, hkept⟩ := noteEvent_step t raw
    exact ⟨t', hstep, fun hall => h fun event hmem => hall event (hkept event hmem)⟩

theorem feedAll_completes_iff (pieces : List Bytes) :
    ((sseMachine rt).feedAll ⟨[], reader⟩ pieces).1 = none ↔
      ∀ event ∈ readEvents pieces, SafeEvent rt event.1 event.2 := by
  have hstart : InStep rt reader ⟨false, [], []⟩ := ⟨rfl, rfl, by simp⟩
  rw [(watches_noteEvent rt).feedAll hstart [] pieces]
  exact not_not

end

theorem foldlM_addBlock_completes_iff (content : List (Option AnthropicContentBlock))
    (parts : Parts) : Completes (content.foldlM addBlock parts) ↔ none ∉ content := by
  induction content generalizing parts with
  | nil => exact ⟨fun _ => not_mem_nil, fun _ => completes_ok parts⟩
  | cons block content ih =>
    cases block with
    | none =>
      have herror : (none :: content).foldlM addBlock parts = .error .nilDereference := rfl
      simp [herror]
    | some block =>
      have hnext : (some block :: content).foldlM addBlock parts =
          content.foldlM addBlock (parts.add block) := rfl
      simp [hnext, ih]

theorem setResponseMetadata_completes_iff (resp : DecodedResponse) :
    Completes (setResponseMetadata resp) ↔ none ∉ resp.content := by
  rw [← foldlM_addBlock_completes_iff resp.content ⟨[], []⟩]
  exact completes_bind_iff fun parts => completes_ok _

section

variable (rt : Runtime) (f : DecoderFilter)

theorem decodeStreamingResponse_ok
    (acc : LineReader (EventReader AnthropicSSEAccumulator)) :
    ∃ f', decodeStreamingResponse f acc = .ok f' ∧ f'.sseAcc = f.sseAcc := by
  obtain ⟨entries, hentries⟩ := (setResponseMetadata_completes_iff
    (streamedResponse acc.state.acc)).mpr (by simp [streamedResponse])
  refine ⟨{ f with responseProcessed := true, metadata := f.metadata ++ entries }, ?_, rfl⟩
  rw [decodeStreamingResponse, hentries]
  rfl

theorem decodeResponseBody_completes_iff (body : Bytes) :
    Completes (decodeResponseBody rt f body) ↔
      ∀ decoded, body ≠ [] → rt.decodeAnthropicResponse body = some decoded →
        none ∉ decoded.content := by
  by_cases hempty : body = []
  · simp [decodeResponseBody, hempty, Completes]
  · cases hdecode : rt.decodeAnthropicResponse body with
    | none => simp [decodeResponseBody, hempty, hdecode, Completes]
    | some decoded =>
      simp only [ne_eq, hempty, not_false_eq_true, Option.some.injEq, forall_const, forall_eq']
      rw [← setResponseMetadata_completes_iff]
      simp only [decodeResponseBody, hempty, if_false, hdecode]
      exact completes_bind_iff fun entries => completes_ok _

variable {f}

theorem onResponseBody_stream {acc : LineReader (EventReader AnthropicSSEAccumulator)}
    (hacc : f.sseAcc = some acc) (chunks : List Bytes) (body : Bytes) (endOfStream : Bool) :
    match (sseMachine rt).feedAll acc chunks with
    | (some fault, _) => onResponseBody rt f chunks body endOfStream = .error fault
    | (none, acc') => ∃ status f', onResponseBody rt f chunks body endOfStream = .ok (status, f') ∧
        f'.sseAcc = some acc' := by
  rcases hfeed : (sseMachine rt).feedAll acc chunks with ⟨_ | fault, acc'⟩
  · simp only [onResponseBody, hacc, hfeed]
    cases endOfStream with
    | false => exact ⟨.continue, _, rfl, rfl⟩
    | true =>
      obtain ⟨f', hok, hkept⟩ := decodeStreamingResponse_ok { f with sseAcc := some acc' } acc'
      refine ⟨.continue, f', ?_, hkept⟩
      rw [if_pos rfl, hok]
      rfl
  · simp only [onResponseBody, hacc, hfeed]

theorem deliverBodies_stream (body : Bytes) (trailers : Bool) (bodies : List (List Bytes))
    {acc : LineReader (EventReader AnthropicSSEAccumulator)} (hacc : f.sseAcc = some acc) :
    Completes (deliverBodies rt body trailers f bodies) ↔
      ((sseMachine rt).feedAll acc bodies.flatten).1 = none := by
  induction bodies generalizing f acc with
  | nil =>
    have hcompletes : Completes (deliverBodies rt body trailers f []) := by
      cases trailers with
      | false => exact ⟨f, rfl⟩
      | true =>
        obtain ⟨f', hok, -⟩ := decodeStreamingResponse_ok f acc
        by_cases hprocessed : f.responseProcessed = true
        · exact ⟨f, by simp [deliverBodies, hprocessed]⟩
        · exact ⟨f', by simp [deliverBodies, hprocessed, hacc, hok]⟩
    simpa [LineMachine.feedAll] using hcompletes
  | cons chunks rest ih =>
    have hstep := onResponseBody_stream rt hacc chunks body (rest.isEmpty && !trailers)
    rw [flatten_cons, LineMachine.feedAll_append]
    rcases hfeed : (sseMachine rt).feedAll acc chunks with ⟨_ | fault, acc'⟩
    · rw [hfeed] at hstep
      obtain ⟨status, f', hok, hacc'⟩ := hstep
      rw [deliverBodies, hok]
      exact ih hacc'
    · rw [hfeed] at hstep
      have herror : deliverBodies rt body trailers f (chunks :: rest) = .error fault := by
        rw [deliverBodies, hstep]
        rfl
      simp [herror]

theorem deliverBodies_document (hacc : f.sseAcc = none) (hprocessed : f.responseProcessed = false)
    (body : Bytes) (trailers : Bool) (bodies : List (List Bytes))
    (hsome : (bodies.isEmpty && !trailers) = false) :
    Completes (deliverBodies rt body trailers f bodies) ↔
      Completes (decodeResponseBody rt f body) := by
  induction bodies with
  | nil =>
    have htrailers : trailers = true := by simpa using hsome
    simp [deliverBodies, htrailers, hprocessed, hacc]
  | cons chunks rest ih =>
    cases hlast : (rest.isEmpty && !trailers) with
    | true =>
      obtain ⟨hrest, htrailers⟩ : rest = [] ∧ trailers = false := by simpa using hlast
      subst hrest
      subst htrailers
      have hbody : Completes (onResponseBody rt f chunks body true) ↔
          Completes (decodeResponseBody rt f body) := by
        simp only [onResponseBody, hacc]
        exact completes_bind_iff fun f' => completes_ok _
      rw [← hbody]
      exact completes_bind_iff fun r => completes_ok r.2
    | false =>
      rw [← ih hlast]
      simp [deliverBodies, onResponseBody, hacc, hlast]

end

/-- The callbacks of a response return exactly when the indices of a stream's
blocks are in range and the content of a document has no nil entry. -/
theorem deliver_completes_iff (rt : Runtime) (r : Response) :
    Completes (deliver rt r) ↔ r.Safe rt := by
  unfold deliver Response.Safe
  cases hend : (r.bodies.isEmpty && !r.trailers) with
  | true =>
    -- the headers end the response
    obtain ⟨hbodies, htrailers⟩ : r.bodies = [] ∧ r.trailers = false := by simpa using hend
    simp [hbodies, htrailers, deliverBodies, readEvents, LineMachine.result, LineMachine.feedAll]
  | false =>
    by_cases hstream : isEventStream r.contentType = true
    · rw [if_pos hstream, ← feedAll_completes_iff]
      apply deliverBodies_stream
      simp [hstream]
    · rw [if_neg hstream, ← decodeResponseBody_completes_iff rt newDecoderFilter]
      have hheaders : (onResponseHeaders newDecoderFilter r.contentType false).2 =
          newDecoderFilter := by
        simp [hstream]
      rw [hheaders]
      exact deliverBodies_document rt rfl rfl _ _ _ hend

def negativePayload : Bytes := ascii "\x7b\"index\":-1\x7d"

def negativePiece : Bytes :=
  ascii "event: content_block_start\ndata: " ++ negativePayload ++ [newline]

def nullDocument : Bytes := ascii "\x7b\"content\":[null]\x7d"

/-- The decoding of the payload and the document above; others are refused. -/
def strictRuntime : Runtime where
  codec :=
    { messageStart := fun _ => none
      contentBlockStart := fun data =>
        if data = negativePayload then some ⟨-1, emptyBlock⟩ else none
      contentBlockDelta := fun _ => none
      messageDelta := fun _ => none }
  decodeAnthropicResponse := fun data =>
    if data = nullDocument then some ⟨"", [none], none⟩ else none
  maxBlocks := 2 ^ 20

/-- One body callback ends the response; the stream panics with an index out of
range, the document with a nil dereference. -/
theorem upstream_bytes_panic :
    deliver strictRuntime ⟨"text/event-stream", [[negativePiece]], false⟩ =
        .error .indexOutOfRange ∧
      deliver strictRuntime ⟨"application/json", [[nullDocument]], false⟩ =
        .error .nilDereference := by
  constructor
  · rcases hfeed : (sseMachine strictRuntime).feedAll ⟨[], reader⟩ [negativePiece] with ⟨e, acc⟩
    have hfault : ((sseMachine strictRuntime).feedAll ⟨[], reader⟩ [negativePiece]).1 =
        some .indexOutOfRange := by
      decide +kernel
    rw [hfeed] at hfault
    subst hfault
    have hbody := onResponseBody_stream strictRuntime (f := ⟨false, some ⟨[], reader⟩, []⟩) rfl
      [negativePiece] negativePiece true
    rw [hfeed] at hbody
    exact congrArg (· >>= fun r => .ok r.2) hbody
  · rfl

end BuiltOnEnvoy.Sse.AnthropicDecoder
