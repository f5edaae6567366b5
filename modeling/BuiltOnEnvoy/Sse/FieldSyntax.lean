import BuiltOnEnvoy.Sse.Chunking

/-!
# The optional space of a field

In an event stream one space may follow the colon of a field. The four readers
of streamed responses ask for it: a field without the space is not read. So the
spelling of a stream decides which of its fields are read. The result is the same
for all spellings when no data line, alone or after an event line, has anything to
add to an empty result.
-/

namespace BuiltOnEnvoy.Sse

open Foundations List

inductive FieldName
  | event
  | data
  deriving DecidableEq

def FieldName.bytes : FieldName → Bytes
  | event => ascii "event:"
  | data => ascii "data:"

def space : UInt8 := 0x20

/-- A field of the stream. The value does not start with a space, which would be
the optional one. -/
structure Field where
  name : FieldName
  value : Bytes
  unbroken : newline ∉ value
  unspaced : value.head? ≠ some space

/-- A line of the stream: a field with or without the space, or any line. -/
inductive Item
  | field (spaced : Bool) (f : Field)
  | line (text : Bytes) (unbroken : newline ∉ text)

def Item.bytes : Item → Bytes
  | field spaced f => f.name.bytes ++ (if spaced then [space] else []) ++ f.value
  | line text _ => text

def render (items : List Item) : Bytes := items.flatMap fun item => item.bytes ++ [newline]

/-- A stream with an unfinished line at its end. -/
structure EventStream where
  items : List Item
  tail : Bytes
  unfinished : newline ∉ tail

/-- The item with the space. -/
def Item.withSpace : Item → Item
  | field _ f => field true f
  | item => item

/-- The streams have the same fields and lines, up to the spaces. -/
def SameFields (items items' : List Item) : Prop :=
  items.map Item.withSpace = items'.map Item.withSpace

inductive Parser
  | anthropicDecoder
  | chatCompletionsDecoder
  | llmProxyAnthropic
  | llmProxyOpenai

structure Codecs where
  anthropic : AnthropicDecoder.Codec
  chatCompletions : ChatCompletions.Codec
  llmProxy : LlmProxy.Codec

/-- What a reader has accumulated. -/
inductive Outcome
  | message (response : Option AnthropicDecoder.AnthropicResponse)
  | completion (response : ChatCompletions.ChatCompletionResponse)
  | usage (report : Option String × LlmProxy.LLMUsage)
  deriving DecidableEq

def Parser.read (codecs : Codecs) (stream : Bytes) : Parser → Outcome
  | anthropicDecoder => .message (AnthropicDecoder.decode codecs.anthropic [stream])
  | chatCompletionsDecoder =>
    .completion (ChatCompletions.decode codecs.chatCompletions [stream])
  | llmProxyAnthropic => .usage (LlmProxy.anthropicUsage codecs.llmProxy [stream])
  | llmProxyOpenai => .usage (LlmProxy.openaiUsage codecs.llmProxy [stream])

/-- The spaces after the colons do not change what a reader accumulates. -/
def IgnoresSpacing (codecs : Codecs) (parser : Parser) (s : EventStream) : Prop :=
  ∀ items, SameFields s.items items →
    parser.read codecs (render s.items ++ s.tail) = parser.read codecs (render items ++ s.tail)

/-- The lines of the stream when every field has the space. -/
def EventStream.spaced (s : EventStream) : List Bytes :=
  s.items.map fun item => item.withSpace.bytes

/-- The chunk does not decode, or it has no usage and no choice that shows. -/
def ChatCompletions.SilentChunk (codec : ChatCompletions.Codec) (payload : Bytes) : Prop :=
  ∀ chunk, codec.unmarshalChunk payload = some chunk →
    chunk.usage = none ∧ ∀ choice ∈ chunk.choices, choice.index < 0

/-- The event of an event line and a data line after it. -/
def Paired (ls : List Bytes) (x : Event) : Prop :=
  ∃ e d type, [e, d] <+ ls ∧ Line.ofBytes e = .event type ∧ Line.ofBytes d = .data x.2 ∧
    x.1 = .ofBytes type

/-- The lines have nothing to add to an empty result: no data line under the type of an event line
before it, and for the readers that do not look at event lines no data line at all. -/
def Parser.Silent (codecs : Codecs) (ls : List Bytes) : Parser → Prop
  | anthropicDecoder => ∀ x, Paired ls x →
    AnthropicDecoder.QuietEvent codecs.anthropic AnthropicDecoder.newAnthropicSSEAccumulator x.1 x.2
  | llmProxyAnthropic => ∀ x, Paired ls x → LlmProxy.QuietEvent codecs.llmProxy ⟨0, 0⟩ x.1 x.2
  | chatCompletionsDecoder =>
    ∀ d ∈ ls, ∀ payload, Line.ofBytes d = .data payload → payload ≠ ascii "[DONE]" →
      ChatCompletions.SilentChunk codecs.chatCompletions payload
  | llmProxyOpenai =>
    ∀ d ∈ ls, ∀ payload, Line.ofBytes d = .data payload → payload ≠ ascii "[DONE]" →
      codecs.llmProxy.openaiChunk payload = .ok ⟨0, 0, 0⟩

theorem Item.unbroken (item : Item) : newline ∉ item.bytes := by
  cases item with
  | field spaced f =>
    have hname : newline ∉ f.name.bytes := by cases f.name <;> decide
    have hspace : newline ∉ (if spaced then [space] else []) := by cases spaced <;> decide
    simp only [Item.bytes, mem_append, not_or]
    exact ⟨⟨hname, hspace⟩, f.unbroken⟩
  | line text unbroken => exact unbroken

theorem lines_render (items : List Item) {tail : Bytes} (htail : newline ∉ tail) :
    lines (render items ++ tail) = items.map Item.bytes := by
  induction items with
  | nil =>
    have hcarry := splitLines_carry htail [] []
    rw [append_nil] at hcarry
    exact congrArg Prod.fst hcarry
  | cons item items ih =>
    have hsplit : render (item :: items) ++ tail =
        item.bytes ++ newline :: (render items ++ tail) := by
      simp [render]
    rw [hsplit, lines_cons item.unbroken, ih]
    rfl

theorem head_of_isPrefix {word : Bytes} {f : Field} (hword : word ≠ [])
    (h : word <+: f.name.bytes ++ f.value) : word.head? = f.name.bytes.head? := by
  have hname : f.name.bytes ≠ [] := by cases f.name <;> decide
  obtain ⟨rest, hrest⟩ := h
  have hhead := congrArg List.head? hrest
  rwa [head?_append_of_ne_nil _ hword, head?_append_of_ne_nil _ hname] at hhead

/-- The beginnings that are looked for are not those of a field without a space. -/
theorem afterPrefix_unspaced (f : Field) (name : FieldName) :
    afterPrefix (name.bytes ++ [space]) (trimSpace (Item.field false f).bytes) = none := by
  have hbytes : (Item.field false f).bytes = f.name.bytes ++ f.value := by simp [Item.bytes]
  have htrim : trimSpace (f.name.bytes ++ f.value) <+: f.name.bytes ++ f.value := by
    have hstart : ∀ word ∈ whiteSpace, word ≠ [] ∧ word.head? ≠ f.name.bytes.head? := by
      cases f.name <;> decide
    exact trimSpace_isPrefix fun word hword h =>
      (hstart word hword).2 (head_of_isPrefix (hstart word hword).1 h)
  have hnot : ¬name.bytes ++ [space] <+: f.name.bytes ++ f.value := by
    intro h
    have hhead := head_of_isPrefix (by simp) h
    have hname : name = f.name := by
      revert hhead
      cases name <;> cases f.name <;> decide
    rw [hname, prefix_append_right_inj] at h
    obtain ⟨rest, hrest⟩ := h
    exact f.unspaced (by rw [← hrest]; rfl)
  rw [hbytes, afterPrefix, if_neg]
  intro h
  have hstart := List.isPrefixOf_iff_prefix.mp h
  exact hnot (hstart.trans htrim)

theorem ofBytes_unspaced (f : Field) : Line.ofBytes (Item.field false f).bytes = .other := by
  have hevent := afterPrefix_unspaced f .event
  have hdata := afterPrefix_unspaced f .data
  change afterPrefix sseEventPrefix _ = none at hevent
  change afterPrefix sseDataPrefix _ = none at hdata
  simp only [Line.ofBytes, hevent, hdata]

/-- The OpenAI loop takes the same data lines. -/
theorem afterPrefix_data (raw : Bytes) :
    afterPrefix sseDataPrefix (trimSpace raw) =
      match Line.ofBytes raw with
      | .data payload => some payload
      | _ => none := by
  rw [Line.ofBytes]
  cases hevent : afterPrefix sseEventPrefix (trimSpace raw) with
  | none => cases afterPrefix sseDataPrefix (trimSpace raw) <;> rfl
  | some type =>
    -- the two prefixes differ in their first byte
    unfold afterPrefix at hevent ⊢
    split_ifs at hevent with hprefix
    rw [if_neg]
    intro hdata
    obtain ⟨rest, hrest⟩ := List.isPrefixOf_iff_prefix.mp hprefix
    obtain ⟨rest', hrest'⟩ := List.isPrefixOf_iff_prefix.mp hdata
    have hhead := congrArg List.head? (hrest.trans hrest'.symm)
    rw [head?_append_of_ne_nil _ (by decide), head?_append_of_ne_nil _ (by decide)] at hhead
    revert hhead
    decide

/-- The line is an event or a data line. -/
def isRead (raw : Bytes) : Bool := Line.ofBytes raw ≠ .other

theorem filter_isRead_cons {raw : Bytes} (h : Line.ofBytes raw = .other) (ls : List Bytes) :
    (raw :: ls).filter isRead = ls.filter isRead :=
  filter_cons_of_neg (by simp [isRead, h])

/-- What is read of a spelling is among the lines of the stream with all its spaces. -/
theorem read_sublist {items items' : List Item} (h : SameFields items items') :
    (items'.map Item.bytes).filter isRead <+ items.map fun item => item.withSpace.bytes := by
  have hspaced : (items.map fun item => item.withSpace.bytes) =
      items'.map fun item => item.withSpace.bytes := by
    have hmap := congrArg (List.map Item.bytes) h
    rwa [List.map_map, List.map_map] at hmap
  rw [hspaced]
  clear h hspaced
  induction items' with
  | nil => exact .slnil
  | cons item items' ih =>
    have hkept : item.withSpace = item → ((item :: items').map Item.bytes).filter isRead <+
        (item :: items').map fun item => item.withSpace.bytes := by
      intro hsame
      rw [map_cons, map_cons, hsame, filter_cons]
      split_ifs
      · exact ih.cons_cons _
      · exact ih.cons _
    rcases item with ⟨_ | _, f⟩ | ⟨text, unbroken⟩
    · rw [map_cons, filter_isRead_cons (ofBytes_unspaced f)]
      exact ih.cons _
    · exact hkept rfl
    · exact hkept rfl

/-- What a reader accumulates from complete lines. -/
def Parser.readLines (codecs : Codecs) (ls : List Bytes) : Parser → Outcome
  | anthropicDecoder => .message (AnthropicDecoder.message
    (handleAll (AnthropicDecoder.processEvent codecs.anthropic)
      AnthropicDecoder.newAnthropicSSEAccumulator (events [] ls)))
  | chatCompletionsDecoder => .completion (ChatCompletions.finish codecs.chatCompletions
    (handleEach (ChatCompletions.processChunk codecs.chatCompletions)
      ChatCompletions.newSSEAccumulator (payloads ls)).2)
  | llmProxyAnthropic => .usage (LlmProxy.report
    (handleAll (LlmProxy.processEvent codecs.llmProxy) ⟨0, 0⟩ (events [] ls)))
  | llmProxyOpenai => .usage
    (handleEach (LlmProxy.processChunk codecs.llmProxy) LlmProxy.LLMUsage.zero (payloads ls))

theorem read_eq_readLines (codecs : Codecs) (parser : Parser) (stream : Bytes) :
    parser.read codecs stream = parser.readLines codecs (lines stream) := by
  cases parser with
  | anthropicDecoder =>
    exact congrArg (fun p => Outcome.message (AnthropicDecoder.message p))
      (result_events _ _ stream)
  | chatCompletionsDecoder =>
    have hchunks := result_chunks (ChatCompletions.processChunk codecs.chatCompletions)
      ChatCompletions.newSSEAccumulator stream
    rw [Parser.readLines, ← hchunks]
    rfl
  | llmProxyAnthropic =>
    exact congrArg (fun p => Outcome.usage (LlmProxy.report p)) (result_events _ _ stream)
  | llmProxyOpenai => exact congrArg Outcome.usage (result_chunks _ _ stream)

theorem read_eq (codecs : Codecs) (parser : Parser) (items : List Item) {tail : Bytes}
    (htail : newline ∉ tail) :
    parser.read codecs (render items ++ tail) =
      parser.readLines codecs (items.map Item.bytes) := by
  rw [read_eq_readLines, lines_render items htail]

section

variable {α β ε ω : Type*} {process : α → β → Option ε × α} {observe : Option ε × α → ω} {acc : α}
  {blank : α → Prop} {quiet : β → Prop}

/-- The handler on values that are quiet at the start: they are so in every state that looks like
the start. -/
structure Quiets (process : α → β → Option ε × α) (observe : Option ε × α → ω) (acc : α)
    (blank : α → Prop) (quiet : β → Prop) : Prop where
  start : blank acc
  observed : ∀ a, blank a → observe (none, a) = observe (none, acc)
  keeps : ∀ a b, blank a → quiet b → ∃ a', process a b = (none, a') ∧ blank a'

theorem Quiets.handleEach (h : Quiets process observe acc blank quiet) {a : α} (ha : blank a)
    {bs : List β} (hbs : ∀ b ∈ bs, quiet b) :
    observe (handleEach process a bs) = observe (none, acc) := by
  induction bs generalizing a with
  | nil => exact h.observed a ha
  | cons b bs ih =>
    obtain ⟨hb, hbs⟩ := forall_mem_cons.mp hbs
    obtain ⟨a', hstep, ha'⟩ := h.keeps a b ha hb
    rw [Sse.handleEach, hstep]
    exact ih ha' hbs

theorem Paired.mono {ls ls' : List Bytes} {x : Event} (h : Paired ls x)
    (hls : ls <+ ls') : Paired ls' x := by
  obtain ⟨e, d, type, hpair, hlines⟩ := h
  exact ⟨e, d, type, hpair.trans hls, hlines⟩

/-- Where an event comes from, when an event line before is the one of the current type. -/
theorem mem_events {front ls : List Bytes} {current : Bytes} {x : Event}
    (hcurrent : current = [] ∨ ∃ e ∈ front, Line.ofBytes e = .event current)
    (h : x ∈ events current ls) : x.1 = .other ∨ Paired (front ++ ls) x := by
  induction ls generalizing front current with
  | nil => cases h
  | cons raw ls ih =>
    rw [events] at h
    cases hline : Line.ofBytes raw with
    | event type =>
      simp only [hline] at h
      exact (@ih [raw] type (.inr ⟨raw, mem_singleton_self raw, hline⟩) h).imp_right
        fun hpaired => hpaired.mono (sublist_append_right front _)
    | other =>
      simp only [hline] at h
      exact (ih hcurrent h).imp_right
        fun hpaired => hpaired.mono ((sublist_cons_self raw ls).append_left front)
    | data payload =>
      simp only [hline, mem_cons] at h
      rcases h with rfl | h
      · rcases hcurrent with rfl | ⟨e, he, htype⟩
        · exact .inl rfl
        · have hpair := (singleton_sublist.mpr he).append
            (singleton_sublist.mpr (@mem_cons_self _ raw ls))
          exact .inr ⟨e, raw, current, hpair, htype, hline, rfl⟩
      · -- the event type is used up
        exact (@ih [] [] (.inl rfl) h).imp_right fun hpaired => hpaired.mono
          ((sublist_cons_self raw ls).trans (sublist_append_right front _))

theorem handleAll_eq (processEvent : α → EventType → Bytes → Option ε × α) (acc : α)
    (es : List Event) :
    handleAll processEvent acc es = handleEach (fun a x => processEvent a x.1 x.2) acc
      (es.filter fun x => x.1 ≠ .messageStop) := by
  induction es generalizing acc with
  | nil => rfl
  | cons x es ih =>
    rw [handleAll, filter_cons]
    by_cases hstop : x.1 = .messageStop
    · simp only [hstop, ih, if_true, ne_eq, not_true_eq_false, decide_false, Bool.false_eq_true,
        if_false]
    · simp only [hstop, if_false, ne_eq, not_false_eq_true, decide_true, if_true, handleEach, ih]

theorem mem_payloads {ls : List Bytes} {payload : Bytes} (h : payload ∈ payloads ls) :
    ∃ d ∈ ls, Line.ofBytes d = .data payload ∧ payload ≠ ascii "[DONE]" := by
  induction ls with
  | nil => cases h
  | cons raw ls ih =>
    simp only [payloads, afterPrefix_data] at h
    cases hline : Line.ofBytes raw with
    | event type | other =>
      simp only [hline] at h
      obtain ⟨d, hd, hpayload⟩ := ih h
      exact ⟨d, mem_cons_of_mem raw hd, hpayload⟩
    | data first =>
      simp only [hline] at h
      split_ifs at h with hdone
      · cases h
      · rcases mem_cons.mp h with rfl | h
        · exact ⟨raw, mem_cons_self, hline, hdone⟩
        · obtain ⟨d, hd, hpayload⟩ := ih h
          exact ⟨d, mem_cons_of_mem raw hd, hpayload⟩

end

namespace AnthropicDecoder

/-- Nothing of a message has arrived; texts without a block do not show. -/
structure Blank (a : AnthropicSSEAccumulator) : Prop where
  role : a.role = ""
  usage : a.usage = none
  contentBlocks : a.contentBlocks = []

theorem quiets (codec : Codec) :
    Quiets (fun a (x : Event) => processEvent codec a x.1 x.2) message
      newAnthropicSSEAccumulator Blank
      (fun x => QuietEvent codec newAnthropicSSEAccumulator x.1 x.2) where
  start := ⟨rfl, rfl, rfl⟩
  observed a ha := by
    simp [message, finish, ha.role, ha.usage, ha.contentBlocks, newAnthropicSSEAccumulator]
  keeps a x ha hquiet := by
    obtain ⟨type, payload⟩ := x
    obtain ⟨hrole, husage, hblocks⟩ := ha
    cases type with
    | messageStart =>
      cases hdecode : codec.messageStart payload with
      | none => exact ⟨a, by simp [processEvent, hdecode], ⟨hrole, husage, hblocks⟩⟩
      | some msg =>
        obtain ⟨hmsg, hnone⟩ := hquiet msg hdecode
        have hkept : (if msg.usage.isSome then msg.usage else a.usage) = none := by
          rcases hnone with hnone | hnone <;> simp [hnone, husage, newAnthropicSSEAccumulator]
        have hstep : processEvent codec a .messageStart payload =
            (none, { a with
              role := msg.role, usage := if msg.usage.isSome then msg.usage else a.usage }) := by
          simp only [processEvent, hdecode]
        exact ⟨_, hstep, ⟨hmsg, hkept, hblocks⟩⟩
    | contentBlockStart =>
      cases hdecode : codec.contentBlockStart payload with
      | none => exact ⟨a, by simp [processEvent, hdecode], ⟨hrole, husage, hblocks⟩⟩
      | some cbs =>
        obtain ⟨-, block, hblock, -⟩ := hquiet cbs hdecode
        simp [newAnthropicSSEAccumulator] at hblock
    | contentBlockDelta =>
      simp only [processEvent]
      split
      · exact ⟨a, rfl, ⟨hrole, husage, hblocks⟩⟩
      · split_ifs <;> exact ⟨_, rfl, ⟨hrole, husage, hblocks⟩⟩
    | messageDelta =>
      simp only [processEvent, husage]
      split
      · exact ⟨a, rfl, ⟨hrole, husage, hblocks⟩⟩
      · exact ⟨a, by simp, ⟨hrole, husage, hblocks⟩⟩
    | messageStop | other => exact ⟨a, rfl, ⟨hrole, husage, hblocks⟩⟩

end AnthropicDecoder

namespace LlmProxy

theorem quiets (codec : Codec) :
    Quiets (fun a (x : Event) => processEvent codec a x.1 x.2) report ⟨0, 0⟩ (· = ⟨0, 0⟩)
      (fun x => QuietEvent codec ⟨0, 0⟩ x.1 x.2) where
  start := rfl
  observed := by
    rintro a rfl
    rfl
  keeps := by
    rintro a ⟨type, payload⟩ rfl hquiet
    have hreport := (quietEvent_iff codec _ type payload).mp hquiet
    rcases hstep : processEvent codec ⟨0, 0⟩ type payload with ⟨err, input, output⟩
    rw [hstep] at hreport
    obtain ⟨hnone, hfinish⟩ := Prod.mk.inj hreport
    obtain ⟨hinput, houtput⟩ := (finish_eq_iff _ _).mp hfinish
    dsimp only at hnone hinput houtput
    exact ⟨_, by rw [hnone], by rw [hinput, houtput]⟩

theorem quietChunks (codec : Codec) :
    Quiets (processChunk codec) id LLMUsage.zero (· = LLMUsage.zero)
      (fun payload => codec.openaiChunk payload = .ok ⟨0, 0, 0⟩) where
  start := rfl
  observed := by
    rintro a rfl
    rfl
  keeps := by
    rintro a payload rfl hquiet
    exact ⟨_, by simp [processChunk, parseOpenAIChunk, hquiet, Except.map, openaiUsageToLLM,
      LLMUsage.zero], rfl⟩

end LlmProxy

namespace ChatCompletions

/-- No usage and no choice has arrived. -/
structure Blank (a : SseAccumulator) : Prop where
  usage : a.usage = none
  maxChoiceIdx : a.maxChoiceIdx < 0

theorem foldl_addChoice_usage (codec : Codec) (choices : List ChatChunkChoice)
    (a : SseAccumulator) : (choices.foldl (addChoice codec) a).usage = a.usage := by
  induction choices generalizing a with
  | nil => rfl
  | cons choice choices ih => exact ih _

theorem foldl_addChoice_max_lt (codec : Codec) (choices : List ChatChunkChoice)
    (a : SseAccumulator) :
    (choices.foldl (addChoice codec) a).maxChoiceIdx < 0 ↔
      a.maxChoiceIdx < 0 ∧ ∀ choice ∈ choices, choice.index < 0 := by
  induction choices generalizing a with
  | nil => simp
  | cons choice choices ih =>
    rw [foldl_cons, ih, forall_mem_cons, ← and_assoc]
    exact and_congr_left' max_lt_iff

theorem processChunk_some (codec : Codec) {payload : Bytes} {chunk : ChatCompletionChunk}
    (hdecode : codec.unmarshalChunk payload = some chunk) (a : SseAccumulator) :
    processChunk codec a payload = (none, chunk.choices.foldl (addChoice codec)
      (if chunk.usage.isSome then { a with usage := chunk.usage } else a)) := by
  simp only [processChunk, hdecode]

theorem Blank.finish_eq {a : SseAccumulator} (h : Blank a) (codec : Codec) :
    finish codec a = finish codec newSSEAccumulator := by
  rw [finish, if_pos h.maxChoiceIdx, h.usage]
  rfl

theorem quietChunks (codec : Codec) :
    Quiets (processChunk codec) (fun p => finish codec p.2) newSSEAccumulator Blank
      (SilentChunk codec) where
  start := ⟨rfl, by decide⟩
  observed _ ha := ha.finish_eq codec
  keeps a payload ha hquiet := by
    cases hdecode : codec.unmarshalChunk payload with
    | none => exact ⟨a, by simp [processChunk, hdecode], ha⟩
    | some chunk =>
      obtain ⟨husage, hchoices⟩ := hquiet chunk hdecode
      refine ⟨_, processChunk_some codec hdecode a, ?_⟩
      rw [if_neg (by simp [husage])]
      exact ⟨(foldl_addChoice_usage codec _ _).trans ha.usage,
        (foldl_addChoice_max_lt codec _ _).mpr ⟨ha.maxChoiceIdx, hchoices⟩⟩

end ChatCompletions

section

variable {items items' : List Item}

theorem Paired.spaced {x : Event} (h : Paired (items'.map Item.bytes) x)
    (hsame : SameFields items items') : Paired (items.map fun item => item.withSpace.bytes) x := by
  obtain ⟨e, d, type, hpair, he, hd, htype⟩ := h
  have hread := hpair.filter isRead
  rw [filter_eq_self.mpr (by simp [isRead, he, hd])] at hread
  exact ⟨e, d, type, hread.trans (read_sublist hsame), he, hd, htype⟩

theorem mem_spaced {d payload : Bytes} (h : d ∈ items'.map Item.bytes)
    (hd : Line.ofBytes d = .data payload) (hsame : SameFields items items') :
    d ∈ items.map fun item => item.withSpace.bytes :=
  (read_sublist hsame).subset (mem_filter.mpr ⟨h, by simp [isRead, hd]⟩)

/-- No spelling of a silent stream has anything to add. -/
theorem Parser.Silent.readLines {codecs : Codecs} {parser : Parser}
    (h : parser.Silent codecs (items.map fun item => item.withSpace.bytes))
    (hsame : SameFields items items') :
    parser.readLines codecs (items'.map Item.bytes) = parser.readLines codecs [] := by
  have hevents : ∀ x ∈ events [] (items'.map Item.bytes), x.1 = .other ∨
      Paired (items.map fun item => item.withSpace.bytes) x := fun x hx =>
    (@mem_events [] _ [] x (.inl rfl) hx).imp_right fun hpaired => hpaired.spaced hsame
  cases parser with
  | anthropicDecoder =>
    simp only [Parser.readLines, handleAll_eq]
    refine congrArg Outcome.message ((AnthropicDecoder.quiets codecs.anthropic).handleEach
      (AnthropicDecoder.quiets codecs.anthropic).start fun x hx => ?_)
    rcases hevents x (mem_of_mem_filter hx) with hother | hpaired
    · rw [hother]
      exact trivial
    · exact h x hpaired
  | llmProxyAnthropic =>
    simp only [Parser.readLines, handleAll_eq]
    refine congrArg Outcome.usage ((LlmProxy.quiets codecs.llmProxy).handleEach rfl fun x hx => ?_)
    rcases hevents x (mem_of_mem_filter hx) with hother | hpaired
    · rw [hother]
      exact trivial
    · exact h x hpaired
  | chatCompletionsDecoder =>
    refine congrArg Outcome.completion
      ((ChatCompletions.quietChunks codecs.chatCompletions).handleEach
        (ChatCompletions.quietChunks codecs.chatCompletions).start fun payload hpayload => ?_)
    obtain ⟨d, hd, hline, hdone⟩ := mem_payloads hpayload
    exact h d (mem_spaced hd hline hsame) payload hline hdone
  | llmProxyOpenai =>
    refine congrArg Outcome.usage
      ((LlmProxy.quietChunks codecs.llmProxy).handleEach rfl fun payload hpayload => ?_)
    obtain ⟨d, hd, hline, hdone⟩ := mem_payloads hpayload
    exact h d (mem_spaced hd hline hsame) payload hline hdone

end

/-- The payload of a chunk with a usage. -/
def usagePayload : Bytes := ascii "\x7b\"usage\":\x7b\"total_tokens\":3\x7d\x7d"

/-- The decoding of this payload and of the `message_start` above. -/
def usageCodecs : Codecs where
  anthropic := lateDecoder
  chatCompletions :=
    { unmarshalChunk := fun data =>
        if data = usagePayload then some ⟨[], some ⟨0, 0, 3, none⟩⟩ else none
      unmarshalString := fun _ => none
      unmarshalParts := fun _ => none
      marshalString := fun _ => none }
  llmProxy :=
    { lateProxy with
      openaiChunk := fun data =>
        if data = usagePayload then .ok ⟨0, 0, 3⟩ else .error "unexpected end of JSON input" }

/-- The stream of these lines. -/
def streamOf (items : List Item) : EventStream := ⟨items, [], by decide⟩

def messageStartItems (spaced : Bool) : List Item :=
  [.field true ⟨.event, ascii "message_start", by decide, by decide⟩,
    .field spaced ⟨.data, latePayload, by decide +kernel, by decide +kernel⟩]

def usageItems (spaced : Bool) : List Item :=
  [.field spaced ⟨.data, usagePayload, by decide +kernel, by decide +kernel⟩]

def pingItems : List Item :=
  [.field true ⟨.event, ascii "ping", by decide, by decide⟩,
    .field true ⟨.data, ascii "\x7b\"type\":\"ping\"\x7d", by decide, by decide⟩]

theorem not_ignoresSpacing {codecs : Codecs} {parser : Parser} {items : Bool → List Item}
    (hsame : SameFields (items true) (items false))
    (h : parser.read codecs (render (items true)) ≠ parser.read codecs (render (items false))) :
    ¬IgnoresSpacing codecs parser (streamOf (items true)) := by
  intro hignores
  have heq := hignores (items false) hsame
  simp only [streamOf, append_nil] at heq
  exact h heq

end BuiltOnEnvoy.Sse
