import BuiltOnEnvoy.Foundations.Runs
import BuiltOnEnvoy.Sse.AnthropicDecoder

/-!
# The content blocks of a streamed message

The events of one content block act on that block alone, and those of the
message on its role and usage. So the message is the same for every
interleaving of them. The text of a block is that of its deltas: once there is
one, the text that the block was started with is dropped.
-/

namespace BuiltOnEnvoy.Sse.AnthropicDecoder

open Foundations List

variable (codec : Codec)

/-- What an event says; nothing when it does not decode. -/
inductive Content
  | messageStart (msg : AnthropicMessageStart)
  | blockStart (cbs : AnthropicContentBlockStart)
  | blockDelta (cbd : AnthropicContentBlockDelta)
  | messageDelta (md : AnthropicMessageDelta)
  | nothing

def contentOf : Event → Content
  | (.messageStart, data) => ((codec.messageStart data).map .messageStart).getD .nothing
  | (.contentBlockStart, data) => ((codec.contentBlockStart data).map .blockStart).getD .nothing
  | (.contentBlockDelta, data) => ((codec.contentBlockDelta data).map .blockDelta).getD .nothing
  | (.messageDelta, data) => ((codec.messageDelta data).map .messageDelta).getD .nothing
  | _ => .nothing

/-- The index of the content block that an event is about. -/
def Content.index : Content → Option ℤ
  | blockStart cbs => some cbs.index
  | blockDelta cbd => some cbd.index
  | _ => none

/-- The block that an event starts at an index. -/
def Content.startAt (i : ℤ) : Content → Option AnthropicContentBlock
  | blockStart cbs => if cbs.index = i then some cbs.contentBlock else none
  | _ => none

/-- What an event adds to the block at an index, for deltas of one type. -/
def Content.deltaAt (type : String) (i : ℤ) : Content → Option AnthropicDelta
  | blockDelta cbd => if cbd.index = i ∧ cbd.delta.type = type then some cbd.delta else none
  | _ => none

def ofBlock (i : ℤ) (e : Event) : Bool := (contentOf codec e).index = some i

def ofMessage (e : Event) : Bool :=
  e.1 = .messageStart ∨ e.1 = .messageDelta ∨ e.1 = .messageStop

def starts (i : ℤ) (es : List Event) : List AnthropicContentBlock :=
  es.filterMap fun e => (contentOf codec e).startAt i

def textDeltas (i : ℤ) (es : List Event) : List String :=
  (es.filterMap fun e => (contentOf codec e).deltaAt "text_delta" i).map (·.text)

def jsonDeltas (i : ℤ) (es : List Event) : List Bytes :=
  (es.filterMap fun e => (contentOf codec e).deltaAt "input_json_delta" i).map (·.partialJSON)

/-- The events agree, in order, for every block and for the message. -/
structure SameEvents (es es' : List Event) : Prop where
  block : ∀ i, es.filter (ofBlock codec i) = es'.filter (ofBlock codec i)
  message : es.filter ofMessage = es'.filter ofMessage

/-- Every block is started once and before its deltas, at an index that is not
negative, and the stop event is the last one. -/
structure Orderly (es : List Event) : Prop where
  nonneg : ∀ e ∈ es, ∀ i, (contentOf codec e).index = some i → 0 ≤ i
  block : ∀ i, es.filter (ofBlock codec i) = [] ∨
    ∃ start deltas, es.filter (ofBlock codec i) = start :: deltas ∧
      start.1 = .contentBlockStart ∧ ∀ d ∈ deltas, d.1 = .contentBlockDelta
  stop : ∀ front e back, es = front ++ e :: back → e.1 = .messageStop → back = []

/-- The message after a sequence of events. -/
def messageOf (es : List Event) : Option AnthropicResponse :=
  message (handleAll (processEvent codec) newAnthropicSSEAccumulator es)

theorem decode_eq_messageOf (stream : Bytes) :
    decode codec [stream] = messageOf codec (events [] (lines stream)) :=
  congrArg message (result_events (processEvent codec) newAnthropicSSEAccumulator stream)

/-- The message is the same for every interleaving of the events. -/
def IgnoresInterleaving (es : List Event) : Prop :=
  ∀ es', SameEvents codec es es' → messageOf codec es = messageOf codec es'

/-- There is a message. Its text blocks have the text they were started with and
that of their deltas, its tool blocks have the JSON of their deltas. -/
def AssemblesBlocks (es : List Event) : Prop :=
  ∃ response, messageOf codec es = some response ∧
    ∀ (n : ℕ) (start : AnthropicContentBlock), start ∈ starts codec n es →
      ∃ block, response.content[n]? = some block ∧
        (start.type = "text" → block.text = start.text ++ String.join (textDeltas codec n es)) ∧
        (start.type = "tool_use" → block.input = (jsonDeltas codec n es).flatten)

/-- What an event makes of the role and the usage. -/
def Content.onMessage (p : String × Option AnthropicUsage) :
    Content → String × Option AnthropicUsage
  | messageStart msg => (msg.role, if msg.usage.isSome then msg.usage else p.2)
  | messageDelta md =>
    match md.usage, p.2 with
    | some outputTokens, some usage => (p.1, some { usage with outputTokens := outputTokens })
    | _, _ => p
  | _ => p

/-- What an event makes of the accumulator. -/
def Content.apply (a : AnthropicSSEAccumulator) : Content → AnthropicSSEAccumulator
  | blockStart cbs =>
    if cbs.index < 0 then a
    else { a with contentBlocks := placeBlock a.contentBlocks cbs.index.toNat cbs.contentBlock }
  | blockDelta cbd =>
    if cbd.delta.type = "text_delta" then
      { a with
        textByIndex := a.textByIndex.insert cbd.index
          ((a.textByIndex.lookup cbd.index).getD "" ++ cbd.delta.text) }
    else if cbd.delta.type = "input_json_delta" then
      { a with
        jsonByIndex := a.jsonByIndex.insert cbd.index
          ((a.jsonByIndex.lookup cbd.index).getD [] ++ cbd.delta.partialJSON) }
    else a
  | c => { a with role := (c.onMessage (a.role, a.usage)).1,
                  usage := (c.onMessage (a.role, a.usage)).2 }

/-- The event starts a block at a negative index. -/
def Content.NegativeStart : Content → Prop
  | blockStart cbs => cbs.index < 0
  | _ => False

attribute [local simp] processEvent Content.NegativeStart Content.apply Content.onMessage ofBlock
  starts

/-- The handler panics at a negative index and otherwise has the effect of the
event. -/
theorem processEvent_spec (a : AnthropicSSEAccumulator) (e : Event) :
    ((processEvent codec a e.1 e.2).1 = none ↔ ¬(contentOf codec e).NegativeStart) ∧
      (processEvent codec a e.1 e.2).2 = (contentOf codec e).apply a := by
  obtain ⟨type, data⟩ := e
  cases type with
  | messageStart =>
    cases h : codec.messageStart data <;>
      simp [contentOf, h]
  | contentBlockStart =>
    cases h : codec.contentBlockStart data with
    | none =>
      simp [contentOf, h]
    | some cbs =>
      by_cases hneg : cbs.index < 0 <;>
        simp [contentOf, h, hneg]
  | contentBlockDelta =>
    cases h : codec.contentBlockDelta data with
    | none =>
      simp [contentOf, h]
    | some cbd =>
      by_cases htext : cbd.delta.type = "text_delta"
      · simp [contentOf, h, htext]
      · by_cases hjson : cbd.delta.type = "input_json_delta" <;>
          simp [contentOf, h, htext, hjson]
  | messageDelta =>
    obtain ⟨role, usage, blocks, texts, jsons⟩ := a
    cases h : codec.messageDelta data with
    | none =>
      simp [contentOf, h]
    | some md =>
      cases hmd : md.usage <;> cases usage <;>
        simp [contentOf, h, hmd]
  | messageStop | other => simp [contentOf]

/-- The accumulator after an event. -/
def absorb (a : AnthropicSSEAccumulator) (e : Event) : AnthropicSSEAccumulator :=
  (contentOf codec e).apply a

variable {codec}

open Classical in
/-- There is no message after a start at a negative index. -/
theorem message_handleAll (es : List Event) (a : AnthropicSSEAccumulator) :
    message (handleAll (processEvent codec) a es) =
      if ∃ e ∈ es, (contentOf codec e).NegativeStart then none
      else some (finish (es.foldl (absorb codec) a)) := by
  induction es generalizing a with
  | nil => simp [handleAll, message]
  | cons e es ih =>
    obtain ⟨type, data⟩ := e
    obtain ⟨hpanic, heffect⟩ := processEvent_spec codec a (type, data)
    rw [foldl_cons, handleAll]
    simp only [exists_mem_cons_iff]
    by_cases htype : type = .messageStop
    · subst htype
      rw [if_pos rfl, ih]
      exact if_congr (or_iff_right not_false).symm rfl rfl
    · rw [if_neg htype]
      rcases hprocess : processEvent codec a type data with ⟨_ | panic, a'⟩
      · rw [hprocess] at hpanic heffect
        have hnot := hpanic.mp rfl
        rw [if_congr (or_iff_right hnot) rfl rfl, absorb, ← heffect]
        exact ih a'
      · rw [hprocess] at hpanic
        rw [if_pos (.inl (not_not.mp fun hnot => Option.some_ne_none _ (hpanic.mpr hnot)))]
        rfl

/-- The part for the message. -/
def messagePart (a : AnthropicSSEAccumulator) : String × Option AnthropicUsage := (a.role, a.usage)

/-- The part for the block at one index. -/
def blockPart (n : ℕ) (a : AnthropicSSEAccumulator) :
    AnthropicContentBlock × Option String × Option Bytes :=
  (a.contentBlocks[n]?.getD emptyBlock, a.textByIndex.lookup (n : ℤ), a.jsonByIndex.lookup (n : ℤ))

theorem placeBlock_getD (blocks : List AnthropicContentBlock) (n i : ℕ)
    (block : AnthropicContentBlock) :
    (placeBlock blocks n block)[i]?.getD emptyBlock =
      if n = i then block else blocks[i]?.getD emptyBlock := by
  have hlength : n < (blocks ++ List.replicate (n + 1 - blocks.length) emptyBlock).length := by
    rw [length_append, length_replicate]
    omega
  rw [placeBlock, getElem?_set]
  by_cases hi : n = i
  · subst hi
    rw [if_pos rfl, if_pos rfl, if_pos hlength, Option.getD_some]
  · rw [if_neg hi, if_neg hi, getElem?_append]
    by_cases hold : i < blocks.length
    · rw [if_pos hold]
    · rw [if_neg hold, getElem?_replicate, getElem?_eq_none (not_lt.mp hold)]
      split_ifs <;> rfl

theorem messagePart_apply (c : Content) (a : AnthropicSSEAccumulator) :
    messagePart (c.apply a) = c.onMessage (messagePart a) := by
  cases c with
  | blockStart cbs =>
    by_cases hneg : cbs.index < 0 <;> simp [messagePart, hneg]
  | blockDelta cbd =>
    by_cases htext : cbd.delta.type = "text_delta"
    · simp [messagePart, htext]
    · by_cases hjson : cbd.delta.type = "input_json_delta" <;>
        simp [messagePart, htext, hjson]
  | messageStart msg | messageDelta md | nothing => rfl

/-- The block at an index after an event: it may be started there, or text or
JSON may be added. -/
theorem blockPart_apply (n : ℕ) (c : Content) (a : AnthropicSSEAccumulator) :
    blockPart n (c.apply a) =
      ((c.startAt n).getD (blockPart n a).1,
        match c.deltaAt "text_delta" n with
        | some d => some ((blockPart n a).2.1.getD "" ++ d.text)
        | none => (blockPart n a).2.1,
        match c.deltaAt "input_json_delta" n with
        | some d => some ((blockPart n a).2.2.getD [] ++ d.partialJSON)
        | none => (blockPart n a).2.2) := by
  cases c with
  | blockStart cbs =>
    by_cases hneg : cbs.index < 0
    · have hne : cbs.index ≠ n := by omega
      simp [Content.startAt, Content.deltaAt, hneg, hne]
    · have hiff : cbs.index = n ↔ cbs.index.toNat = n := by omega
      by_cases hn : cbs.index.toNat = n <;>
        simp [Content.startAt, Content.deltaAt, blockPart, hneg, hiff, hn, placeBlock_getD]
  | blockDelta cbd =>
    obtain ⟨i, d⟩ := cbd
    by_cases htext : d.type = "text_delta"
    · by_cases hn : i = n
      · subst hn
        simp [Content.startAt, Content.deltaAt, blockPart, htext]
      · simp [Content.startAt, Content.deltaAt, blockPart, htext, hn,
          AList.lookup_insert_ne (Ne.symm hn)]
    · by_cases hjson : d.type = "input_json_delta"
      · by_cases hn : i = n
        · subst hn
          simp [Content.startAt, Content.deltaAt, blockPart, hjson]
        · simp [Content.startAt, Content.deltaAt, blockPart, hjson, hn,
            AList.lookup_insert_ne (Ne.symm hn)]
      · simp [Content.startAt, Content.deltaAt, htext, hjson]
  | messageStart msg | messageDelta md | nothing => rfl

theorem length_apply_le_iff (c : Content) (a : AnthropicSSEAccumulator) (bound : ℕ) :
    (c.apply a).contentBlocks.length ≤ bound ↔
      a.contentBlocks.length ≤ bound ∧ ∀ n : ℕ, c.startAt n ≠ none → n < bound := by
  cases c with
  | blockStart cbs =>
    by_cases hneg : cbs.index < 0
    · have hne : ∀ n : ℕ, cbs.index ≠ n := fun n => by omega
      simp [Content.startAt, hneg, hne]
    · have hiff : ∀ n : ℕ, cbs.index = n ↔ cbs.index.toNat = n := fun n => by omega
      simp [Content.startAt, hneg, hiff, length_placeBlock]
  | blockDelta cbd =>
    by_cases htext : cbd.delta.type = "text_delta"
    · simp [Content.startAt, htext]
    · by_cases hjson : cbd.delta.type = "input_json_delta" <;>
        simp [Content.startAt, htext, hjson]
  | messageStart msg | messageDelta md | nothing => simp [Content.startAt]

theorem onMessage_of_not {e : Event} (he : ofMessage e = false)
    (p : String × Option AnthropicUsage) : (contentOf codec e).onMessage p = p := by
  obtain ⟨type, data⟩ := e
  cases type with
  | messageStart => simp [ofMessage] at he
  | contentBlockStart =>
    cases h : codec.contentBlockStart data <;> simp [contentOf, h]
  | contentBlockDelta =>
    cases h : codec.contentBlockDelta data <;> simp [contentOf, h]
  | messageDelta => simp [ofMessage] at he
  | messageStop | other => rfl

theorem at_of_not {e : Event} {i : ℤ} (he : ofBlock codec i e = false) :
    (contentOf codec e).startAt i = none ∧
      ∀ type, (contentOf codec e).deltaAt type i = none := by
  cases hc : contentOf codec e with
  | blockStart cbs =>
    have hne : cbs.index ≠ i := by simpa [hc, Content.index] using he
    simp [Content.startAt, Content.deltaAt, hne]
  | blockDelta cbd =>
    have hne : cbd.index ≠ i := by simpa [hc, Content.index] using he
    simp [Content.startAt, Content.deltaAt, hne]
  | messageStart msg | messageDelta md | nothing => exact ⟨rfl, fun _ => rfl⟩

theorem starts_filter (i : ℤ) (es : List Event) :
    starts codec i (es.filter (ofBlock codec i)) = starts codec i es := by
  rw [starts, filterMap_filter]
  refine filterMap_congr fun e _ => ?_
  cases he : ofBlock codec i e with
  | true => rfl
  | false => exact (at_of_not he).1.symm

theorem starts_ne_nil (i : ℤ) (es : List Event) :
    starts codec i es ≠ [] ↔ ∃ e ∈ es, (contentOf codec e).startAt i ≠ none := by
  simp [filterMap_eq_nil_iff]

theorem length_absorb_le_iff (es : List Event) (a : AnthropicSSEAccumulator) (bound : ℕ) :
    (es.foldl (absorb codec) a).contentBlocks.length ≤ bound ↔
      a.contentBlocks.length ≤ bound ∧ ∀ n : ℕ, starts codec n es ≠ [] → n < bound := by
  induction es generalizing a with
  | nil => simp
  | cons e es ih =>
    rw [foldl_cons, ih, absorb, length_apply_le_iff, and_assoc]
    simp only [starts_ne_nil, exists_mem_cons_iff, or_imp, forall_and]

section

variable {es es' : List Event} (h : SameEvents codec es es') (a : AnthropicSSEAccumulator)
include h

theorem SameEvents.length_eq :
    (es.foldl (absorb codec) a).contentBlocks.length =
      (es'.foldl (absorb codec) a).contentBlocks.length := by
  refine eq_of_forall_ge_iff fun bound => ?_
  have hstarts : ∀ n : ℕ, starts codec n es = starts codec n es' := by
    intro n
    rw [← starts_filter, h.block, starts_filter]
  simp only [length_absorb_le_iff, hstarts]

theorem SameEvents.messagePart_eq :
    messagePart (es.foldl (absorb codec) a) = messagePart (es'.foldl (absorb codec) a) := by
  refine foldl_part_eq (fun a e he => ?_) (fun a a' e _ ha => ?_) a h.message
  · rw [absorb, messagePart_apply, onMessage_of_not he]
  · rw [absorb, absorb, messagePart_apply, messagePart_apply, ha]

theorem SameEvents.blockPart_eq (n : ℕ) :
    blockPart n (es.foldl (absorb codec) a) = blockPart n (es'.foldl (absorb codec) a) := by
  refine foldl_part_eq (fun a e he => ?_) (fun a a' e _ ha => ?_) a (h.block n)
  · obtain ⟨hstart, hdelta⟩ := at_of_not he
    rw [absorb, blockPart_apply, hstart, hdelta, hdelta]
    rfl
  · rw [absorb, absorb, blockPart_apply, blockPart_apply, ha]

theorem SameEvents.finish_eq :
    finish (es.foldl (absorb codec) a) = finish (es'.foldl (absorb codec) a) := by
  have hmessage := h.messagePart_eq a
  simp only [messagePart, Prod.mk.injEq] at hmessage
  rw [finish_eq_iff]
  refine ⟨hmessage.1, ext_getElem? fun n => ?_, hmessage.2⟩
  have hblock := h.blockPart_eq a n
  simp only [blockPart, Prod.mk.injEq] at hblock
  rw [finish_content_getElem?, finish_content_getElem?, hblock.2.1, hblock.2.2]
  congr 1
  -- both lists have the same length, and the same blocks up to it
  have hlength := h.length_eq a
  by_cases hn : n < (es.foldl (absorb codec) a).contentBlocks.length
  · grind
  · rw [getElem?_eq_none (not_lt.mp hn),
      getElem?_eq_none (hlength ▸ not_lt.mp hn)]

theorem SameEvents.negativeStart (hneg : ∃ e ∈ es, (contentOf codec e).NegativeStart) :
    ∃ e ∈ es', (contentOf codec e).NegativeStart := by
  obtain ⟨e, he, hneg⟩ := hneg
  cases hc : contentOf codec e with
  | blockStart cbs =>
    have hof : ofBlock codec cbs.index e = true := by simp [hc, Content.index]
    have hmem : e ∈ es.filter (ofBlock codec cbs.index) := mem_filter.mpr ⟨he, hof⟩
    rw [h.block] at hmem
    exact ⟨e, mem_of_mem_filter hmem, hneg⟩
  | _ => simp [hc] at hneg

end

theorem SameEvents.symm {es es' : List Event} (h : SameEvents codec es es') :
    SameEvents codec es' es :=
  ⟨fun i => (h.block i).symm, h.message.symm⟩

variable (codec)

theorem ignoresInterleaving (es : List Event) : IgnoresInterleaving codec es := by
  classical
  intro es' h
  rw [messageOf, messageOf, message_handleAll, message_handleAll, h.finish_eq]
  exact if_congr ⟨h.negativeStart, h.symm.negativeStart⟩ rfl rfl

/-- Pieces that are appended to what may be there. -/
def appended {α : Type*} (append : α → α → α) (empty : α) (old : Option α) (pieces : List α) :
    Option α :=
  pieces.foldl (fun acc piece => some (append (acc.getD empty) piece)) old

variable {codec}

theorem blockPart_absorb (n : ℕ) (es : List Event) (a : AnthropicSSEAccumulator) :
    blockPart n (es.foldl (absorb codec) a) =
      ((starts codec n es).getLast?.getD (blockPart n a).1,
        appended (· ++ ·) "" (blockPart n a).2.1 (textDeltas codec n es),
        appended (· ++ ·) [] (blockPart n a).2.2 (jsonDeltas codec n es)) := by
  induction es generalizing a with
  | nil => rfl
  | cons e es ih =>
    rw [foldl_cons, ih, absorb, blockPart_apply]
    refine Prod.ext ?_ (Prod.ext ?_ ?_)
    · cases hstart : (contentOf codec e).startAt n <;> simp [hstart, getLast?_cons]
    · cases hdelta : (contentOf codec e).deltaAt "text_delta" n <;>
        simp [textDeltas, hdelta, appended]
    · cases hdelta : (contentOf codec e).deltaAt "input_json_delta" n <;>
        simp [jsonDeltas, hdelta, appended]

theorem appended_some {α : Type*} (append : α → α → α) (empty old : α) (pieces : List α) :
    appended append empty (some old) pieces = some (pieces.foldl append old) := by
  induction pieces generalizing old with
  | nil => rfl
  | cons piece pieces ih => exact ih (append old piece)

/-- The text that is shown is the one from the start and the deltas together
when one of them is missing. -/
theorem appended_text_iff (own : String) (pieces : List String) :
    (appended (· ++ ·) "" none pieces).getD own = own ++ String.join pieces ↔
      own = "" ∨ pieces = [] := by
  cases pieces with
  | nil => simp [appended]
  | cons piece pieces =>
    have hjoin : (appended (· ++ ·) "" none (piece :: pieces)).getD own =
        String.join (piece :: pieces) :=
      congrArg (·.getD own) (appended_some (· ++ ·) "" ("" ++ piece) pieces)
    rw [hjoin, eq_comm, ← String.toList_inj, String.toList_append, append_left_eq_self]
    simp

theorem appended_json_iff (own : Bytes) (pieces : List Bytes) :
    (appended (· ++ ·) [] none pieces).getD own = pieces.flatten ↔ own = [] ∨ pieces ≠ [] := by
  cases pieces with
  | nil => simp [appended]
  | cons piece pieces =>
    have hjoin : (appended (· ++ ·) [] none (piece :: pieces)).getD own =
        pieces.foldl (· ++ ·) piece :=
      congrArg (·.getD own) (appended_some (· ++ ·) [] ([] ++ piece) pieces)
    have hflatten : pieces.foldl (· ++ ·) piece = piece ++ pieces.flatten := by
      simpa using @foldl_append_eq_append _ _ pieces id piece
    rw [hjoin, hflatten]
    simp

variable {start : AnthropicContentBlock}

theorem Orderly.starts_eq {es : List Event} (h : Orderly codec es) {i : ℤ}
    (hstart : start ∈ starts codec i es) :
    starts codec i es = [start] := by
  rw [← starts_filter] at hstart ⊢
  rcases h.block i with hnone | ⟨first, deltas, hblock, -, hdeltas⟩
  · rw [hnone] at hstart
    cases hstart
  · have hrest : starts codec i deltas = [] := by
      rw [starts, filterMap_eq_nil_iff]
      intro e he
      obtain ⟨type, data⟩ := e
      obtain rfl : type = .contentBlockDelta := hdeltas _ he
      cases hdata : codec.contentBlockDelta data <;> simp [contentOf, hdata, Content.startAt]
    have hfirst : starts codec i (first :: deltas) =
        ((contentOf codec first).startAt i).toList := by
      cases hat : (contentOf codec first).startAt i <;> simpa [hat] using hrest
    rw [hblock, hfirst] at hstart ⊢
    rw [Option.mem_toList] at hstart
    rw [hstart]
    rfl

theorem Orderly.not_negativeStart {es : List Event} (h : Orderly codec es) {e : Event}
    (he : e ∈ es) : ¬(contentOf codec e).NegativeStart := by
  cases hc : contentOf codec e with
  | blockStart cbs =>
    have hindex := h.nonneg e he cbs.index (by rw [hc]; rfl)
    exact not_lt.mpr hindex
  | _ => exact not_false

theorem Orderly.content {es : List Event} (h : Orderly codec es) {n : ℕ}
    (hstart : start ∈ starts codec n es) :
    (finish (es.foldl (absorb codec) newAnthropicSSEAccumulator)).content[n]? =
      some (finishBlock (appended (· ++ ·) "" none (textDeltas codec n es))
        (appended (· ++ ·) [] none (jsonDeltas codec n es)) start) := by
  have hstarts := h.starts_eq hstart
  have hpart := @blockPart_absorb codec n es newAnthropicSSEAccumulator
  have hlength := ((@length_absorb_le_iff codec es newAnthropicSSEAccumulator _).mp le_rfl).2 n
    (by rw [hstarts]; exact cons_ne_nil _ _)
  simp only [blockPart, hstarts, Prod.mk.injEq] at hpart
  obtain ⟨hblock, htext, hjson⟩ := hpart
  rw [finish_content_getElem?, htext, hjson, getElem?_eq_getElem hlength]
  rw [getElem?_eq_getElem hlength] at hblock
  exact congrArg (fun block => some (finishBlock _ _ block)) hblock

theorem finishBlock_text (htype : start.type = "text") (text : Option String)
    (json : Option Bytes) :
    (finishBlock text json start).text = text.getD start.text := by
  rw [finishBlock, if_pos htype]

theorem finishBlock_input (htype : start.type = "tool_use") (text : Option String)
    (json : Option Bytes) :
    (finishBlock text json start).input = json.getD start.input := by
  rw [finishBlock, if_neg (by rw [htype]; decide), if_pos htype]

/-- The interleaving of the events is not seen. The blocks are put together as
they should be exactly when no text block is started with a text that its deltas
replace, and no tool block without deltas is started with an input. -/
theorem blocks_of_events_iff (codec : Codec) (es : List Event) (h : Orderly codec es) :
    (IgnoresInterleaving codec es ∧ AssemblesBlocks codec es) ↔
      ∀ (n : ℕ) (start : AnthropicContentBlock), start ∈ starts codec n es →
        (start.type = "text" → start.text = "" ∨ textDeltas codec n es = []) ∧
          (start.type = "tool_use" → start.input = [] ∨ jsonDeltas codec n es ≠ []) := by
  have hmessage : messageOf codec es =
      some (finish (es.foldl (absorb codec) newAnthropicSSEAccumulator)) := by
    rw [messageOf, message_handleAll, if_neg]
    rintro ⟨e, he, hneg⟩
    exact h.not_negativeStart he hneg
  rw [and_iff_right (ignoresInterleaving codec es), AssemblesBlocks, hmessage]
  simp only [Option.some.injEq, exists_eq_left']
  refine forall_congr' fun n => forall_congr' fun start => forall_congr' fun hstart => ?_
  rw [h.content hstart]
  simp only [Option.some.injEq, exists_eq_left']
  refine and_congr (forall_congr' fun htype => ?_) (forall_congr' fun htype => ?_)
  · rw [finishBlock_text htype, appended_text_iff]
  · rw [finishBlock_input htype, appended_json_iff]

def helloPayload : Bytes :=
  ascii "\x7b\"index\":0,\"content_block\":\x7b\"type\":\"text\",\"text\":\"Hello\"\x7d\x7d"

def emptyPayload : Bytes :=
  ascii "\x7b\"index\":0,\"content_block\":\x7b\"type\":\"text\",\"text\":\"\"\x7d\x7d"

def toolPayload : Bytes :=
  ascii "\x7b\"index\":1,\"content_block\":\x7b\"type\":\"tool_use\",\"input\":\x7b\x7d\x7d\x7d"

def worldPayload : Bytes :=
  ascii "\x7b\"index\":0,\"delta\":\x7b\"type\":\"text_delta\",\"text\":\" world\"\x7d\x7d"

def jsonPayload : Bytes :=
  ascii ("\x7b\"index\":1,\"delta\":" ++
    "\x7b\"type\":\"input_json_delta\",\"partial_json\":\"\x7b\x7d\"\x7d\x7d")

/-- The decoding of these starts and deltas. -/
def helloCodec : Codec where
  messageStart _ := none
  contentBlockStart data :=
    if data = helloPayload then some ⟨0, { type := "text", text := "Hello" }⟩
    else if data = emptyPayload then some ⟨0, { type := "text" }⟩
    else if data = toolPayload then some ⟨1, { type := "tool_use", input := ascii "\x7b\x7d" }⟩
    else none
  contentBlockDelta data :=
    if data = worldPayload then some ⟨0, "text_delta", " world", []⟩
    else if data = jsonPayload then some ⟨1, "input_json_delta", "", ascii "\x7b\x7d"⟩
    else none
  messageDelta _ := none

/-- A text block and a tool block, with their deltas. -/
def twoBlocks : List Event :=
  [(.contentBlockStart, emptyPayload), (.contentBlockStart, toolPayload),
    (.contentBlockDelta, worldPayload), (.contentBlockDelta, jsonPayload)]

def helloWorld : List Event :=
  [(.contentBlockStart, helloPayload), (.contentBlockDelta, worldPayload)]

theorem orderly_helloWorld : Orderly helloCodec helloWorld := by
  have hstart : (contentOf helloCodec (.contentBlockStart, helloPayload)).index = some 0 := by
    decide +kernel
  have hdelta : (contentOf helloCodec (.contentBlockDelta, worldPayload)).index = some 0 := by
    decide +kernel
  refine ⟨?_, fun i => ?_, fun front e back hes hstop => ?_⟩
  · simp only [helloWorld, forall_mem_cons, hstart, hdelta, Option.some.injEq]
    simp
  · by_cases hi : i = 0
    · subst hi
      exact Or.inr ⟨(.contentBlockStart, helloPayload), [(.contentBlockDelta, worldPayload)],
        by simp [helloWorld, hstart, hdelta], rfl, by simp⟩
    · exact Or.inl (by simp [helloWorld, hstart, hdelta, Ne.symm hi])
  · have he : e ∈ helloWorld := by simp [hes]
    simp only [helloWorld, mem_cons, not_mem_nil, or_false] at he
    rcases he with rfl | rfl <;> cases hstop

theorem twoBlocks_ofBlock (i : ℤ) :
    twoBlocks.filter (ofBlock helloCodec i) =
      if i = 0 then [(.contentBlockStart, emptyPayload), (.contentBlockDelta, worldPayload)]
      else if i = 1 then [(.contentBlockStart, toolPayload), (.contentBlockDelta, jsonPayload)]
      else [] := by
  have hstart : (contentOf helloCodec (.contentBlockStart, emptyPayload)).index = some 0 := by
    decide +kernel
  have hdelta : (contentOf helloCodec (.contentBlockDelta, worldPayload)).index = some 0 := by
    decide +kernel
  have htool : (contentOf helloCodec (.contentBlockStart, toolPayload)).index = some 1 := by
    decide +kernel
  have hjson : (contentOf helloCodec (.contentBlockDelta, jsonPayload)).index = some 1 := by
    decide +kernel
  by_cases h0 : i = 0
  · simp [twoBlocks, hstart, hdelta, htool, hjson, h0]
  · by_cases h1 : i = 1
    · simp [twoBlocks, hstart, hdelta, htool, hjson, h1]
    · simp [twoBlocks, hstart, hdelta, htool, hjson, h0, h1, Ne.symm h0, Ne.symm h1]

theorem orderly_twoBlocks : Orderly helloCodec twoBlocks := by
  refine ⟨fun e he i hi => ?_, fun i => ?_, fun front e back hes hstop => ?_⟩
  · have hmem : e ∈ twoBlocks.filter (ofBlock helloCodec i) :=
      mem_filter.mpr ⟨he, by simp [hi]⟩
    rw [twoBlocks_ofBlock] at hmem
    split_ifs at hmem with h0 h1
    · exact h0.ge
    · exact h1 ▸ zero_le_one
    · cases hmem
  · rw [twoBlocks_ofBlock]
    split_ifs
    · exact Or.inr ⟨_, _, rfl, rfl, by simp⟩
    · exact Or.inr ⟨_, _, rfl, rfl, by simp⟩
    · exact Or.inl rfl
  · have he : e ∈ twoBlocks := by simp [hes]
    simp only [twoBlocks, mem_cons, not_mem_nil, or_false] at he
    rcases he with rfl | rfl | rfl | rfl <;> cases hstop

theorem twoBlocks_assembled :
    Orderly helloCodec twoBlocks ∧ IgnoresInterleaving helloCodec twoBlocks ∧
      AssemblesBlocks helloCodec twoBlocks := by
  refine ⟨orderly_twoBlocks, (blocks_of_events_iff helloCodec twoBlocks orderly_twoBlocks).mpr ?_⟩
  intro n start hstart
  rcases n with _ | _ | n
  · have hstarts : starts helloCodec (0 : ℕ) twoBlocks = [{ type := "text" }] := by decide +kernel
    obtain rfl := mem_singleton.mp (hstarts ▸ hstart)
    exact ⟨fun _ => Or.inl rfl, fun htool => absurd htool (by decide)⟩
  · have hjson : jsonDeltas helloCodec (1 : ℕ) twoBlocks ≠ [] := by decide +kernel
    have hstarts : starts helloCodec (1 : ℕ) twoBlocks =
        [{ type := "tool_use", input := ascii "\x7b\x7d" }] := by decide +kernel
    obtain rfl := mem_singleton.mp (hstarts ▸ hstart)
    exact ⟨fun htext => absurd htext (by decide), fun _ => Or.inr hjson⟩
  · have hnone : starts helloCodec (n + 1 + 1 : ℕ) twoBlocks = [] := by
      rw [← starts_filter, twoBlocks_ofBlock, if_neg (by omega), if_neg (by omega)]
      rfl
    rw [hnone] at hstart
    cases hstart

/-- The block is started with `Hello` and continued with ` world`; the message
has the latter only. -/
theorem start_text_dropped :
    Orderly helloCodec helloWorld ∧
      messageOf helloCodec helloWorld =
        some ⟨"", [{ type := "text", text := " world" }], none⟩ ∧
      ¬AssemblesBlocks helloCodec helloWorld := by
  have hmessage : messageOf helloCodec helloWorld =
      some ⟨"", [{ type := "text", text := " world" }], none⟩ := by decide +kernel
  refine ⟨orderly_helloWorld, hmessage, ?_⟩
  rintro ⟨response, hresponse, hblocks⟩
  rw [hmessage] at hresponse
  cases hresponse
  have hstart : starts helloCodec (0 : ℕ) helloWorld = [{ type := "text", text := "Hello" }] := by
    decide +kernel
  obtain ⟨block, hblock, htext, -⟩ := hblocks 0 { type := "text", text := "Hello" }
    (by rw [hstart]; exact mem_singleton_self _)
  cases hblock
  exact absurd (htext rfl) (by decide +kernel)

end BuiltOnEnvoy.Sse.AnthropicDecoder
