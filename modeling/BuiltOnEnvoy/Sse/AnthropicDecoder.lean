import BuiltOnEnvoy.Sse.Events
import Mathlib.Data.List.AList

/-!
# The Anthropic message decoder

The accumulator that assembles a streamed message. The payloads are decoded by
the standard library: the fields of a codec, which return nothing when the
decoder logs an error and skips the event. A string that ends up in a raw JSON
message is kept as its bytes.
-/

namespace BuiltOnEnvoy.Sse.AnthropicDecoder

open Foundations List

structure AnthropicUsage where
  inputTokens : ℤ
  outputTokens : ℤ
  cacheCreationInputTokens : ℤ
  cacheReadInputTokens : ℤ
  deriving DecidableEq

structure AnthropicContentBlock where
  type : String := ""
  text : String := ""
  id : String := ""
  name : String := ""
  input : Bytes := []
  toolUseID : String := ""
  content : Bytes := []
  deriving DecidableEq

/-- The fields of `message_start` that are read. -/
structure AnthropicMessageStart where
  role : String
  usage : Option AnthropicUsage

structure AnthropicContentBlockStart where
  index : ℤ
  contentBlock : AnthropicContentBlock

structure AnthropicDelta where
  type : String
  text : String
  partialJSON : Bytes

structure AnthropicContentBlockDelta where
  index : ℤ
  delta : AnthropicDelta

/-- The output tokens of a `message_delta`, when it has a usage. -/
structure AnthropicMessageDelta where
  usage : Option ℤ

structure Codec where
  messageStart : Bytes → Option AnthropicMessageStart
  contentBlockStart : Bytes → Option AnthropicContentBlockStart
  contentBlockDelta : Bytes → Option AnthropicContentBlockDelta
  messageDelta : Bytes → Option AnthropicMessageDelta

structure AnthropicSSEAccumulator where
  role : String
  usage : Option AnthropicUsage
  contentBlocks : List AnthropicContentBlock
  textByIndex : AList fun _ : ℤ => String
  jsonByIndex : AList fun _ : ℤ => Bytes

def newAnthropicSSEAccumulator : AnthropicSSEAccumulator := ⟨"", none, [], ∅, ∅⟩

/-- The run-time panic of an index out of range. -/
inductive Panic
  | indexOutOfRange
  deriving DecidableEq

def emptyBlock : AnthropicContentBlock := {}

/-- Store a block, after empty blocks up to its place. -/
def placeBlock (blocks : List AnthropicContentBlock) (n : ℕ) (block : AnthropicContentBlock) :
    List AnthropicContentBlock :=
  (blocks ++ List.replicate (n + 1 - blocks.length) emptyBlock).set n block

/-- The `message_stop` case is the loop's. -/
def processEvent (codec : Codec) (a : AnthropicSSEAccumulator) (type : EventType) (data : Bytes) :
    Option Panic × AnthropicSSEAccumulator :=
  match type with
  | .messageStart =>
    match codec.messageStart data with
    | none => (none, a)
    | some msg =>
      (none, { a with role := msg.role, usage := if msg.usage.isSome then msg.usage else a.usage })
  | .contentBlockStart =>
    match codec.contentBlockStart data with
    | none => (none, a)
    | some cbs =>
      if cbs.index < 0 then (some .indexOutOfRange, a)
      else
        (none, { a with
          contentBlocks := placeBlock a.contentBlocks cbs.index.toNat cbs.contentBlock })
  | .contentBlockDelta =>
    match codec.contentBlockDelta data with
    | none => (none, a)
    | some cbd =>
      if cbd.delta.type = "text_delta" then
        let text := (a.textByIndex.lookup cbd.index).getD "" ++ cbd.delta.text
        (none, { a with textByIndex := a.textByIndex.insert cbd.index text })
      else if cbd.delta.type = "input_json_delta" then
        let json := (a.jsonByIndex.lookup cbd.index).getD [] ++ cbd.delta.partialJSON
        (none, { a with jsonByIndex := a.jsonByIndex.insert cbd.index json })
      else (none, a)
  | .messageDelta =>
    match codec.messageDelta data with
    | none => (none, a)
    | some md =>
      match md.usage, a.usage with
      | some outputTokens, some usage =>
        (none, { a with usage := some { usage with outputTokens := outputTokens } })
      | _, _ => (none, a)
  | .messageStop => (none, a)
  | .other => (none, a)

/-- The fields of the response that are set. -/
structure AnthropicResponse where
  role : String
  content : List AnthropicContentBlock
  usage : Option AnthropicUsage
  deriving DecidableEq

/-- The block at index `n` with the text or the JSON accumulated for it. -/
def finishBlock (text : Option String) (json : Option Bytes) (block : AnthropicContentBlock) :
    AnthropicContentBlock :=
  if block.type = "text" then { block with text := text.getD block.text }
  else if block.type = "tool_use" then { block with input := json.getD block.input }
  else block

def finish (a : AnthropicSSEAccumulator) : AnthropicResponse :=
  { role := a.role
    content := a.contentBlocks.mapIdx fun n block =>
      finishBlock (a.textByIndex.lookup (n : ℤ)) (a.jsonByIndex.lookup (n : ℤ)) block
    usage := a.usage }

/-- The message, unless the accumulator panicked. -/
def message (p : Option Panic × AnthropicSSEAccumulator) : Option AnthropicResponse :=
  match p with
  | (none, a) => some (finish a)
  | (some _, _) => none

def reader : EventReader AnthropicSSEAccumulator := ⟨false, [], newAnthropicSSEAccumulator⟩

/-- The message assembled from a stream that arrives in these pieces. -/
def decode (codec : Codec) (pieces : List Bytes) : Option AnthropicResponse :=
  let r := (eventMachine (processEvent codec)).result reader pieces
  message (r.1, r.2.acc)

/-- Text appended to a block changes nothing when it is empty, or when it is the
first and repeats the text the block came with. -/
def QuietAppend {α : Type} (accumulated : Option α) (own empty piece : α) : Prop :=
  match accumulated with
  | some _ => piece = empty
  | none => piece = own

/-- The event leaves the assembled message as it is. -/
def QuietEvent (codec : Codec) (a : AnthropicSSEAccumulator) (type : EventType) (data : Bytes) :
    Prop :=
  match type with
  | .messageStart =>
    ∀ msg, codec.messageStart data = some msg →
      msg.role = a.role ∧ (msg.usage = none ∨ msg.usage = a.usage)
  | .contentBlockStart =>
    ∀ cbs, codec.contentBlockStart data = some cbs →
      0 ≤ cbs.index ∧ ∃ block, a.contentBlocks[cbs.index.toNat]? = some block ∧
        let text := a.textByIndex.lookup cbs.index
        let json := a.jsonByIndex.lookup cbs.index
        finishBlock text json cbs.contentBlock = finishBlock text json block
  | .contentBlockDelta =>
    ∀ cbd, codec.contentBlockDelta data = some cbd →
      ∀ (n : ℕ) (block : AnthropicContentBlock), cbd.index = n →
        a.contentBlocks[n]? = some block →
        (cbd.delta.type = "text_delta" → block.type = "text" →
          QuietAppend (a.textByIndex.lookup cbd.index) block.text "" cbd.delta.text) ∧
        (cbd.delta.type = "input_json_delta" → block.type = "tool_use" →
          QuietAppend (a.jsonByIndex.lookup cbd.index) block.input [] cbd.delta.partialJSON)
  | .messageDelta =>
    ∀ md, codec.messageDelta data = some md →
      ∀ outputTokens usage, md.usage = some outputTokens → a.usage = some usage →
        outputTokens = usage.outputTokens
  | .messageStop => True
  | .other => True

attribute [local simp] finish QuietAppend QuietEvent processEvent

theorem finish_eq_iff (a b : AnthropicSSEAccumulator) :
    finish a = finish b ↔ a.role = b.role ∧ (finish a).content = (finish b).content ∧
      a.usage = b.usage := by
  simp

variable (a : AnthropicSSEAccumulator)

theorem finish_content_getElem? (n : ℕ) :
    (finish a).content[n]? = a.contentBlocks[n]?.map
      (finishBlock (a.textByIndex.lookup (n : ℤ)) (a.jsonByIndex.lookup (n : ℤ))) := by
  simp

theorem finish_content_eq_iff (a b : AnthropicSSEAccumulator) :
    (finish a).content = (finish b).content ↔
      ∀ n : ℕ, (finish a).content[n]? = (finish b).content[n]? := by
  constructor
  · intro h n
    rw [h]
  · exact ext_getElem?

theorem placeBlock_getElem? (blocks : List AnthropicContentBlock) (n : ℕ)
    (block : AnthropicContentBlock) (hn : n < blocks.length) (i : ℕ) :
    (placeBlock blocks n block)[i]? = if n = i then some block else blocks[i]? := by
  have hgrow : n + 1 - blocks.length = 0 := by omega
  rw [placeBlock, hgrow, replicate_zero, append_nil, getElem?_set]
  split_ifs with hi
  · rfl
  · rfl

theorem length_placeBlock (blocks : List AnthropicContentBlock) (n : ℕ)
    (block : AnthropicContentBlock) :
    (placeBlock blocks n block).length = max blocks.length (n + 1) := by
  simp only [placeBlock, length_set, length_append, length_replicate]
  omega

theorem finishBlock_text_iff (text : Option String) (json : Option Bytes) (piece : String)
    (block : AnthropicContentBlock) :
    finishBlock (some (text.getD "" ++ piece)) json block = finishBlock text json block ↔
      (block.type = "text" → QuietAppend text block.text "" piece) := by
  by_cases htype : block.type = "text"
  · cases text with
    | none | some old => simp [finishBlock, htype]
  · simp [finishBlock, htype]

theorem finishBlock_json_iff (text : Option String) (json : Option Bytes) (piece : Bytes)
    (block : AnthropicContentBlock) :
    finishBlock text (some (json.getD [] ++ piece)) block = finishBlock text json block ↔
      (block.type = "tool_use" → QuietAppend json block.input [] piece) := by
  by_cases htype : block.type = "tool_use"
  · cases json with
    | none | some old => simp [finishBlock, htype]
  · by_cases htext : block.type = "text"
    · simp [finishBlock, htext]
    · simp [finishBlock, htype, htext]

/-- Storing a block changes the content unless the block in its place is shown
the same. -/
theorem finish_placeBlock_iff (n : ℕ) (block : AnthropicContentBlock) :
    finish { a with contentBlocks := placeBlock a.contentBlocks n block } = finish a ↔
      ∃ old, a.contentBlocks[n]? = some old ∧
        finishBlock (a.textByIndex.lookup (n : ℤ)) (a.jsonByIndex.lookup (n : ℤ)) block =
          finishBlock (a.textByIndex.lookup (n : ℤ)) (a.jsonByIndex.lookup (n : ℤ)) old := by
  rw [finish_eq_iff]
  simp only [true_and, and_true]
  constructor
  · intro hsame
    have hlength := congrArg List.length hsame
    simp only [finish, length_mapIdx, length_placeBlock] at hlength
    have hn : n < a.contentBlocks.length := by omega
    refine ⟨_, getElem?_eq_getElem hn, ?_⟩
    have hplace := (finish_content_eq_iff _ _).mp hsame n
    simpa [finish_content_getElem?, placeBlock_getElem? _ _ _ hn, hn] using hplace
  · rintro ⟨old, hold, hshown⟩
    obtain ⟨hn, -⟩ := List.getElem?_eq_some_iff.mp hold
    rw [finish_content_eq_iff]
    intro i
    simp only [finish_content_getElem?, placeBlock_getElem? _ _ _ hn]
    by_cases hi : n = i
    · subst hi
      simp [hold, hshown]
    · rw [if_neg hi]

/-- What is accumulated for one index shows in the block at that index alone. -/
theorem finish_accumulated_iff {a b : AnthropicSSEAccumulator} (index : ℤ)
    (hrole : b.role = a.role) (husage : b.usage = a.usage)
    (hblocks : b.contentBlocks = a.contentBlocks)
    (hother : ∀ i, i ≠ index → b.textByIndex.lookup i = a.textByIndex.lookup i ∧
      b.jsonByIndex.lookup i = a.jsonByIndex.lookup i) :
    finish b = finish a ↔
      ∀ (n : ℕ) (block : AnthropicContentBlock), index = n → a.contentBlocks[n]? = some block →
        finishBlock (b.textByIndex.lookup index) (b.jsonByIndex.lookup index) block =
          finishBlock (a.textByIndex.lookup index) (a.jsonByIndex.lookup index) block := by
  rw [finish_eq_iff]
  simp only [hrole, husage, true_and, and_true]
  rw [finish_content_eq_iff]
  simp only [finish_content_getElem?, hblocks]
  apply forall_congr'
  intro n
  by_cases hn : index = n
  · subst hn
    cases a.contentBlocks[n]? with
    | none | some block => simp
  · obtain ⟨htext, hjson⟩ := hother n (Ne.symm hn)
    simp [htext, hjson, hn]

theorem finish_text_iff (index : ℤ) (piece : String) :
    finish { a with
        textByIndex := a.textByIndex.insert index
          ((a.textByIndex.lookup index).getD "" ++ piece) } = finish a ↔
      ∀ (n : ℕ) (block : AnthropicContentBlock), index = n → a.contentBlocks[n]? = some block →
        block.type = "text" → QuietAppend (a.textByIndex.lookup index) block.text "" piece := by
  rw [finish_accumulated_iff index]
  · simp only [AList.lookup_insert, finishBlock_text_iff]
  · rfl
  · rfl
  · rfl
  · intro i hi
    exact ⟨AList.lookup_insert_ne hi, rfl⟩

theorem finish_json_iff (index : ℤ) (piece : Bytes) :
    finish { a with
        jsonByIndex := a.jsonByIndex.insert index
          ((a.jsonByIndex.lookup index).getD [] ++ piece) } = finish a ↔
      ∀ (n : ℕ) (block : AnthropicContentBlock), index = n → a.contentBlocks[n]? = some block →
        block.type = "tool_use" →
          QuietAppend (a.jsonByIndex.lookup index) block.input [] piece := by
  rw [finish_accumulated_iff index]
  · simp only [AList.lookup_insert, finishBlock_json_iff]
  · rfl
  · rfl
  · rfl
  · intro i hi
    exact ⟨rfl, AList.lookup_insert_ne hi⟩

theorem quietEvent_iff (codec : Codec) (a : AnthropicSSEAccumulator) (type : EventType)
    (data : Bytes) :
    QuietEvent codec a type data ↔
      message (processEvent codec a type data) = message (none, a) := by
  cases type with
  | messageStart =>
    cases hdecode : codec.messageStart data with
    | none => simp [hdecode]
    | some msg =>
      simp only [QuietEvent, processEvent, hdecode, Option.some.injEq, forall_eq', message]
      rw [finish_eq_iff]
      cases husage : msg.usage with
      | none | some usage => simp
  | contentBlockStart =>
    cases hdecode : codec.contentBlockStart data with
    | none => simp [hdecode]
    | some cbs =>
      simp only [QuietEvent, processEvent, hdecode, Option.some.injEq, forall_eq']
      by_cases hneg : cbs.index < 0
      · simp only [if_pos hneg, message, reduceCtorEq, iff_false]
        intro h
        omega
      · have hindex : ((cbs.index.toNat : ℕ) : ℤ) = cbs.index := by omega
        simp only [if_neg hneg, message, Option.some.injEq]
        rw [finish_placeBlock_iff, hindex]
        simp only [and_iff_right_iff_imp]
        intro _
        omega
  | contentBlockDelta =>
    cases hdecode : codec.contentBlockDelta data with
    | none => simp [hdecode]
    | some cbd =>
      simp only [QuietEvent, processEvent, hdecode, Option.some.injEq, forall_eq']
      by_cases htext : cbd.delta.type = "text_delta"
      · simp only [htext, if_true, message, Option.some.injEq, finish_text_iff]
        simp
      · by_cases hjson : cbd.delta.type = "input_json_delta"
        · simp only [hjson, if_true, message]
          rw [if_neg (by decide)]
          simp only [Option.some.injEq, finish_json_iff]
          simp
        · simp [htext, hjson]
  | messageDelta =>
    cases hdecode : codec.messageDelta data with
    | none => simp [hdecode]
    | some md =>
      simp only [QuietEvent, processEvent, hdecode, Option.some.injEq, forall_eq']
      cases hmd : md.usage with
      | none => simp
      | some outputTokens =>
        cases husage : a.usage with
        | none => simp
        | some usage =>
          simp only [message, Option.some.injEq, finish_eq_iff, husage]
          constructor
          · intro hsame
            refine ⟨trivial, rfl, ?_⟩
            rw [hsame outputTokens usage rfl rfl]
          · rintro ⟨-, -, hsame⟩ _ _ rfl rfl
            exact congrArg AnthropicUsage.outputTokens hsame
  | messageStop | other => simp

end BuiltOnEnvoy.Sse.AnthropicDecoder
