import BuiltOnEnvoy.Foundations.Numbers
import BuiltOnEnvoy.Sse.ChatCompletions
import Mathlib.Data.Finset.Sort

/-!
# The deltas of a streamed chat completion

What the accumulator of the chat completions decoder holds after any sequence
of chunks, choice by choice and tool call by tool call. The choices that it
assembles are therefore the same for all ways to interleave the deltas of
different choices and of different tool calls.
-/

namespace BuiltOnEnvoy.Sse.ChatCompletions

open Foundations List

/-- The role and the content in the deltas of one choice. -/
def messageDeltas (cs : List ChatChunkChoice) (idx : ℤ) : List (String × Bytes) :=
  (cs.filter (·.index = idx)).map fun c => (c.delta.role, c.delta.content)

/-- The deltas of all tool calls of one choice. -/
def callDeltas (cs : List ChatChunkChoice) (idx : ℤ) : List ChatStreamingToolCallDelta :=
  (cs.filter (·.index = idx)).flatMap (·.delta.toolCalls)

/-- The deltas of one tool call of one choice. -/
def toolDeltas (cs : List ChatChunkChoice) (idx tcIdx : ℤ) : List ChatStreamingToolCallDelta :=
  (callDeltas cs idx).filter (·.index = tcIdx)

attribute [local simp] messageDeltas toolDeltas ChatCompletions.addChoice

/-- The deltas agree, in order, for every choice and for every tool call. -/
structure SameDeltas (cs cs' : List ChatChunkChoice) : Prop where
  message : ∀ idx, messageDeltas cs idx = messageDeltas cs' idx
  tool : ∀ idx tcIdx, toolDeltas cs idx tcIdx = toolDeltas cs' idx tcIdx

def maxIndex (cs : List ChatChunkChoice) : ℤ := (cs.map (·.index)).foldl max (-1)

def toolIndices (cs : List ChatChunkChoice) (idx : ℤ) : Finset ℤ :=
  ((callDeltas cs idx).map (·.index)).toFinset

theorem messageDeltas_append (cs cs' : List ChatChunkChoice) (idx : ℤ) :
    messageDeltas (cs ++ cs') idx = messageDeltas cs idx ++ messageDeltas cs' idx := by
  simp

theorem messageDeltas_singleton (c : ChatChunkChoice) (idx : ℤ) :
    messageDeltas [c] idx = if c.index = idx then [(c.delta.role, c.delta.content)] else [] := by
  by_cases h : c.index = idx <;> simp [h]

theorem toolDeltas_append (cs cs' : List ChatChunkChoice) (idx tcIdx : ℤ) :
    toolDeltas (cs ++ cs') idx tcIdx = toolDeltas cs idx tcIdx ++ toolDeltas cs' idx tcIdx := by
  simp [callDeltas]

theorem toolDeltas_singleton (c : ChatChunkChoice) (idx tcIdx : ℤ) :
    toolDeltas [c] idx tcIdx =
      if c.index = idx then c.delta.toolCalls.filter (·.index = tcIdx) else [] := by
  by_cases h : c.index = idx <;> simp [callDeltas, h]

theorem maxIndex_append_singleton (cs : List ChatChunkChoice) (c : ChatChunkChoice) :
    maxIndex (cs ++ [c]) = max (maxIndex cs) c.index := by
  simp [maxIndex]

theorem mem_toolIndices (cs : List ChatChunkChoice) (idx tcIdx : ℤ) :
    tcIdx ∈ toolIndices cs idx ↔ toolDeltas cs idx tcIdx ≠ [] := by
  simp [toolIndices, filter_eq_nil_iff]

theorem mem_indices (cs : List ChatChunkChoice) (idx : ℤ) :
    idx ∈ cs.map (·.index) ↔ messageDeltas cs idx ≠ [] := by
  simp [filter_eq_nil_iff]

theorem le_maxIndex_iff (cs : List ChatChunkChoice) (bound : ℤ) :
    maxIndex cs ≤ bound ↔ -1 ≤ bound ∧ ∀ idx ∈ cs.map (·.index), idx ≤ bound := by
  unfold maxIndex
  generalize cs.map (·.index) = indices
  generalize (-1 : ℤ) = start
  induction indices generalizing start with
  | nil => simp
  | cons idx indices ih =>
    rw [foldl_cons, ih, max_le_iff, forall_mem_cons, and_assoc]

theorem sameDeltas_swap {c c' : ChatChunkChoice} (h : c.index ≠ c'.index)
    (before after : List ChatChunkChoice) :
    SameDeltas (before ++ [c] ++ [c'] ++ after) (before ++ [c'] ++ [c] ++ after) := by
  constructor
  · intro idx
    simp only [messageDeltas_append, messageDeltas_singleton]
    by_cases hc : c.index = idx
    · have hc' : c'.index ≠ idx := fun hc' => h (hc.trans hc'.symm)
      simp [hc, hc']
    · simp [hc]
  · intro idx tcIdx
    simp only [toolDeltas_append, toolDeltas_singleton]
    by_cases hc : c.index = idx
    · have hc' : c'.index ≠ idx := fun hc' => h (hc.trans hc'.symm)
      simp [hc, hc']
    · simp [hc]

theorem SameDeltas.maxIndex_eq {cs cs' : List ChatChunkChoice} (h : SameDeltas cs cs') :
    maxIndex cs = maxIndex cs' := by
  refine eq_of_forall_ge_iff fun bound => ?_
  simp only [le_maxIndex_iff, mem_indices, h.message]

theorem SameDeltas.toolIndices_eq {cs cs' : List ChatChunkChoice} (h : SameDeltas cs cs')
    (idx : ℤ) : toolIndices cs idx = toolIndices cs' idx := by
  ext tcIdx
  rw [mem_toolIndices, mem_toolIndices, h.tool]

variable (codec : Codec)

/-- The last role that is not empty. -/
def joinedRole (deltas : List (String × Bytes)) : String :=
  ((deltas.map (·.1)).filter (· ≠ "")).getLast?.getD ""

def joinedContent (deltas : List (String × Bytes)) : String :=
  String.join (deltas.map fun d => extractContent codec d.2)

/-- The first delta names the call, and all of them add to its arguments. -/
def joinedCall : List ChatStreamingToolCallDelta → Option ChatToolCall
  | [] => none
  | d :: rest =>
    some ⟨d.id, d.type,
      ⟨d.function.name, String.join ((d :: rest).map (·.function.arguments))⟩⟩

def joinedChoice (cs : List ChatChunkChoice) (i : ℕ) : ChatChoice where
  index := i
  message :=
    { role := joinedRole (messageDeltas cs i)
      content := rawContent codec (joinedContent codec (messageDeltas cs i))
      toolCalls :=
        (toolIndices cs i).sort.filterMap fun tcIdx => joinedCall (toolDeltas cs i tcIdx) }

theorem SameDeltas.joinedChoice_eq {cs cs' : List ChatChunkChoice} (h : SameDeltas cs cs') :
    joinedChoice codec cs = joinedChoice codec cs' := by
  funext i
  simp only [joinedChoice, h.message, h.tool, h.toolIndices_eq]

/-- One more delta for a call, as the loop adds it. -/
def extendCall (call : Option ChatToolCall) (d : ChatStreamingToolCallDelta) : ChatToolCall :=
  match call with
  | some tc =>
    { tc with function :=
        { tc.function with arguments := tc.function.arguments ++ d.function.arguments } }
  | none => ⟨d.id, d.type, d.function⟩

theorem joinedCall_append_singleton (deltas : List ChatStreamingToolCallDelta)
    (d : ChatStreamingToolCallDelta) :
    joinedCall (deltas ++ [d]) = some (extendCall (joinedCall deltas) d) := by
  cases deltas with
  | nil => simp [joinedCall, extendCall]
  | cons first rest => simp [joinedCall, extendCall, String.append_assoc]

/-- The call of a choice in the two levels of maps. -/
def lookupCall (byChoice : AList fun _ : ℤ => ToolCalls) (idx tcIdx : ℤ) : Option ChatToolCall :=
  (byChoice.lookup idx).bind (AList.lookup tcIdx)

theorem addToolCall_lookup (calls : ToolCalls) (d : ChatStreamingToolCallDelta) (tcIdx : ℤ) :
    (addToolCall calls d).lookup tcIdx =
      if tcIdx = d.index then some (extendCall (calls.lookup tcIdx) d) else calls.lookup tcIdx := by
  unfold addToolCall
  by_cases h : tcIdx = d.index
  · subst h
    rw [if_pos rfl]
    cases calls.lookup d.index <;> simp [extendCall]
  · rw [if_neg h]
    cases calls.lookup d.index <;> simp [AList.lookup_insert_ne h]

theorem lookupCall_insert (byChoice : AList fun _ : ℤ => ToolCalls) (idx idx' tcIdx : ℤ)
    (d : ChatStreamingToolCallDelta) :
    lookupCall (byChoice.insert idx (addToolCall ((byChoice.lookup idx).getD ∅) d)) idx' tcIdx =
      if idx' = idx ∧ tcIdx = d.index then some (extendCall (lookupCall byChoice idx' tcIdx) d)
      else lookupCall byChoice idx' tcIdx := by
  by_cases hidx : idx' = idx
  · subst hidx
    have hcalls :
        ((byChoice.lookup idx').getD ∅).lookup tcIdx = lookupCall byChoice idx' tcIdx := by
      cases h : byChoice.lookup idx' <;> simp [lookupCall, h]
    have hinsert : lookupCall
        (byChoice.insert idx' (addToolCall ((byChoice.lookup idx').getD ∅) d)) idx' tcIdx =
        (addToolCall ((byChoice.lookup idx').getD ∅) d).lookup tcIdx := by
      simp [lookupCall]
    rw [hinsert, addToolCall_lookup, hcalls]
    simp
  · simp [lookupCall, AList.lookup_insert_ne hidx, hidx]

theorem addToolCalls_lookup {byChoice : AList fun _ : ℤ => ToolCalls}
    {before : ℤ → ℤ → List ChatStreamingToolCallDelta}
    (h : ∀ idx tcIdx, lookupCall byChoice idx tcIdx = joinedCall (before idx tcIdx))
    (idx : ℤ) (deltas : List ChatStreamingToolCallDelta) (idx' tcIdx : ℤ) :
    lookupCall (addToolCalls idx byChoice deltas) idx' tcIdx =
      joinedCall (before idx' tcIdx ++
        if idx = idx' then deltas.filter (·.index = tcIdx) else []) := by
  induction deltas generalizing byChoice before with
  | nil => simp [addToolCalls, h]
  | cons d deltas ih =>
    have hstep : ∀ i j, lookupCall
        (byChoice.insert idx (addToolCall ((byChoice.lookup idx).getD ∅) d)) i j =
        joinedCall (before i j ++ if idx = i ∧ d.index = j then [d] else []) := by
      intro i j
      rw [lookupCall_insert, h]
      by_cases hij : idx = i ∧ d.index = j
      · rw [if_pos hij, if_pos ⟨hij.1.symm, hij.2.symm⟩, joinedCall_append_singleton]
      · rw [if_neg hij, if_neg (fun hji => hij ⟨hji.1.symm, hji.2.symm⟩), append_nil]
    have hrest := ih hstep
    rw [addToolCalls, foldl_cons]
    refine hrest.trans ?_
    by_cases hidx : idx = idx'
    · by_cases htc : d.index = tcIdx <;> simp [hidx, htc]
    · simp [hidx]

/-- The accumulator holds what is assembled from these deltas. -/
structure Holds (a : SseAccumulator) (cs : List ChatChunkChoice) : Prop where
  maxIdx : a.maxChoiceIdx = maxIndex cs
  role : ∀ idx, (a.roleByChoice.lookup idx).getD "" = joinedRole (messageDeltas cs idx)
  content : ∀ idx,
    (a.contentByChoice.lookup idx).getD "" = joinedContent codec (messageDeltas cs idx)
  call : ∀ idx tcIdx,
    lookupCall a.toolCallsByChoice idx tcIdx = joinedCall (toolDeltas cs idx tcIdx)

theorem holds_newSSEAccumulator : Holds codec newSSEAccumulator [] :=
  ⟨rfl, fun _ => rfl, fun _ => rfl, fun _ _ => rfl⟩

variable {codec}

variable {a : SseAccumulator} {cs : List ChatChunkChoice}

theorem Holds.addChoice (h : Holds codec a cs) (c : ChatChunkChoice) :
    Holds codec (addChoice codec a c) (cs ++ [c]) := by
  refine ⟨?_, fun idx => ?_, fun idx => ?_, fun idx tcIdx => ?_⟩
  · rw [maxIndex_append_singleton, ← h.maxIdx]
    rfl
  · rw [messageDeltas_append, messageDeltas_singleton]
    by_cases hrole : c.delta.role = ""
    · have hsame : (ChatCompletions.addChoice codec a c).roleByChoice = a.roleByChoice := by
        simp [hrole]
      rw [hsame, h.role]
      by_cases hidx : c.index = idx <;> simp [joinedRole, hidx, hrole]
    · have hinsert : (ChatCompletions.addChoice codec a c).roleByChoice =
          a.roleByChoice.insert c.index c.delta.role := by
        simp [hrole]
      rw [hinsert]
      by_cases hidx : c.index = idx
      · subst hidx
        simp [joinedRole, hrole]
      · rw [AList.lookup_insert_ne (Ne.symm hidx), h.role, if_neg hidx, append_nil]
  · rw [messageDeltas_append, messageDeltas_singleton]
    by_cases hcontent : extractContent codec c.delta.content = ""
    · have hsame : (ChatCompletions.addChoice codec a c).contentByChoice = a.contentByChoice := by
        simp [hcontent]
      rw [hsame, h.content]
      by_cases hidx : c.index = idx <;> simp [joinedContent, hidx, hcontent]
    · have hinsert : (ChatCompletions.addChoice codec a c).contentByChoice =
          a.contentByChoice.insert c.index ((a.contentByChoice.lookup c.index).getD "" ++
            extractContent codec c.delta.content) := by
        simp [hcontent]
      rw [hinsert]
      by_cases hidx : c.index = idx
      · subst hidx
        simp [h.content, joinedContent]
      · rw [AList.lookup_insert_ne (Ne.symm hidx), h.content, if_neg hidx, append_nil]
  · rw [toolDeltas_append, toolDeltas_singleton]
    exact addToolCalls_lookup h.call c.index c.delta.toolCalls idx tcIdx

theorem Holds.foldl_addChoice (h : Holds codec a cs) (cs' : List ChatChunkChoice) :
    Holds codec (cs'.foldl (ChatCompletions.addChoice codec) a) (cs ++ cs') := by
  induction cs' generalizing a cs with
  | nil => simpa using h
  | cons c cs' ih =>
    rw [foldl_cons, append_cons]
    exact ih (h.addChoice c)

variable (codec)

/-- The choices of the chunks that decode, in the order of their arrival. -/
def choicesOf (payloads : List Bytes) : List ChatChunkChoice :=
  (payloads.filterMap codec.unmarshalChunk).flatMap (·.choices)

/-- The accumulator after a sequence of payloads. -/
def accumulate (payloads : List Bytes) : SseAccumulator :=
  payloads.foldl (fun a data => (processChunk codec a data).2) newSSEAccumulator

variable {codec}

theorem Holds.processChunk (h : Holds codec a cs) (data : Bytes) :
    Holds codec (processChunk codec a data).2 (cs ++ choicesOf codec [data]) := by
  unfold ChatCompletions.processChunk
  cases hdecode : codec.unmarshalChunk data with
  | none => simpa [choicesOf, hdecode] using h
  | some chunk =>
    have husage : Holds codec (if chunk.usage.isSome then { a with usage := chunk.usage } else a)
        cs := by
      split_ifs
      · exact ⟨h.maxIdx, h.role, h.content, h.call⟩
      · exact h
    simpa [choicesOf, hdecode] using husage.foldl_addChoice chunk.choices

variable (codec)

theorem holds_accumulate (payloads : List Bytes) :
    Holds codec (accumulate codec payloads) (choicesOf codec payloads) := by
  have hrun : ∀ (payloads : List Bytes) (a : SseAccumulator) (cs : List ChatChunkChoice),
      Holds codec a cs →
      Holds codec (payloads.foldl (fun a data => (processChunk codec a data).2) a)
        (cs ++ choicesOf codec payloads) := by
    intro payloads
    induction payloads with
    | nil =>
      intro a cs h
      simpa [choicesOf] using h
    | cons data payloads ih =>
      intro a cs h
      have hsplit : choicesOf codec (data :: payloads) =
          choicesOf codec [data] ++ choicesOf codec payloads := by
        unfold choicesOf
        cases hdecode : codec.unmarshalChunk data <;> simp [hdecode]
      rw [foldl_cons, hsplit, ← append_assoc]
      exact ih _ _ (h.processChunk data)
  exact hrun payloads _ [] (holds_newSSEAccumulator codec)

inductive Panic
  /-- `makeslice: len out of range` -/
  | lenOutOfRange
  deriving DecidableEq

/-- The number of slots that `finish` allocates, where `make` takes no more
than `maxLen` of them. -/
def slots (maxLen : ℕ) (maxChoiceIdx : ℤ) : Except Panic ℕ :=
  if maxChoiceIdx < 0 then .ok 0
  else
    let len := wrap64 (maxChoiceIdx + 1)
    if len < 0 ∨ maxLen < len then .error .lenOutOfRange else .ok len.toNat

/-- `finish` with its allocation. -/
def finishIn (maxLen : ℕ) (a : SseAccumulator) : Except Panic ChatCompletionResponse :=
  (slots maxLen a.maxChoiceIdx).map fun _ => finish codec a

/-- The decoded indices fit into an `int`. -/
def Codec.IntIndices (codec : Codec) : Prop :=
  ∀ data chunk, codec.unmarshalChunk data = some chunk → ∀ c ∈ chunk.choices, Int64Range c.index

theorem maxIndex_range {codec : Codec} (hint : codec.IntIndices) (payloads : List Bytes) :
    Int64Range (maxIndex (choicesOf codec payloads)) := by
  have hlow : (-1 : ℤ) ≤ maxIndex (choicesOf codec payloads) :=
    ((le_maxIndex_iff _ _).mp le_rfl).1
  have hhigh : maxIndex (choicesOf codec payloads) ≤ 2 ^ 63 - 1 := by
    rw [le_maxIndex_iff]
    refine ⟨by norm_num, fun idx hidx => ?_⟩
    obtain ⟨c, hc, rfl⟩ := List.mem_map.mp hidx
    obtain ⟨chunk, hchunk, hc⟩ := mem_flatMap.mp hc
    obtain ⟨data, -, hdecode⟩ := mem_filterMap.mp hchunk
    have := (hint data chunk hdecode c hc).2
    omega
  unfold Int64Range
  omega

theorem wrap64_succ_of_slots {maxLen n : ℕ} {maxChoiceIdx : ℤ} (hrange : Int64Range maxChoiceIdx)
    (hmax : 0 ≤ maxChoiceIdx) (h : slots maxLen maxChoiceIdx = .ok n) :
    n = maxChoiceIdx.toNat + 1 := by
  rw [slots, if_neg (not_lt.mpr hmax)] at h
  dsimp only at h
  split_ifs at h with hlen
  rw [not_or, not_lt] at hlen
  by_cases hfits : Int64Range (maxChoiceIdx + 1)
  · rw [wrap64_eq_self hfits, Except.ok.injEq] at h
    omega
  · -- the largest index: its successor wraps around to the smallest integer
    have htop : maxChoiceIdx + 1 = 2 ^ 63 := by
      unfold Int64Range at hrange hfits
      omega
    rw [htop] at hlen
    exact absurd hlen.1 (by decide)

theorem sortedToolCalls_eq (calls : ToolCalls) {indices : Finset ℤ}
    (hindices : ∀ tcIdx, tcIdx ∈ indices ↔ calls.lookup tcIdx ≠ none) :
    sortedToolCalls calls = indices.sort.filterMap fun tcIdx => calls.lookup tcIdx := by
  have hnodup : (calls.keys.mergeSort (· ≤ ·)).Nodup :=
    (mergeSort_perm _ _).nodup_iff.mpr calls.keys_nodup
  have hset : (calls.keys.mergeSort (· ≤ ·)).toFinset = indices := by
    ext tcIdx
    rw [List.mem_toFinset, mem_mergeSort, hindices, ← AList.mem_keys,
      Option.ne_none_iff_isSome, AList.lookup_isSome]
  have hsorted : (calls.keys.mergeSort (· ≤ ·)).Pairwise (· ≤ ·) := by
    simpa using @pairwise_mergeSort ℤ (fun a b => decide (a ≤ b))
      (by simpa using fun a b c => le_trans) (by simpa using le_total) calls.keys
  rw [sortedToolCalls, ← hset, (toFinset_sort _ hnodup).mpr hsorted]

theorem joinedCall_ne_none (deltas : List ChatStreamingToolCallDelta) :
    joinedCall deltas ≠ none ↔ deltas ≠ [] := by
  cases deltas <;> simp [joinedCall]

theorem Holds.toolCalls {codec : Codec} (h : Holds codec a cs) (idx : ℤ) :
    ((a.toolCallsByChoice.lookup idx).map sortedToolCalls).getD [] =
      (toolIndices cs idx).sort.filterMap fun tcIdx => joinedCall (toolDeltas cs idx tcIdx) := by
  have hcall := h.call idx
  have hmem := mem_toolIndices cs idx
  simp only [← joinedCall_ne_none, ← hcall] at hmem ⊢
  cases hcalls : a.toolCallsByChoice.lookup idx with
  | none =>
    have hnone : toolIndices cs idx = ∅ := by
      ext tcIdx
      simp [hmem, lookupCall, hcalls]
    simp [hnone]
  | some calls =>
    simp only [lookupCall, hcalls, Option.bind_some] at hmem ⊢
    exact sortedToolCalls_eq calls hmem

theorem Holds.finish_choices {codec : Codec} (h : Holds codec a cs) (hmax : 0 ≤ a.maxChoiceIdx) :
    (finish codec a).choices =
      (List.range (a.maxChoiceIdx.toNat + 1)).map (joinedChoice codec cs) := by
  rw [finish, if_neg (not_lt.mpr hmax)]
  refine map_congr_left fun i _ => ?_
  simp only [joinedChoice, h.role, h.content, h.toolCalls]

theorem finishIn_choices {codec : Codec} (hint : codec.IntIndices) (maxLen : ℕ)
    (payloads : List Bytes) :
    (finishIn codec maxLen (accumulate codec payloads)).map (·.choices) =
      (slots maxLen (maxIndex (choicesOf codec payloads))).map fun n =>
        (List.range n).map (joinedChoice codec (choicesOf codec payloads)) := by
  have hholds := holds_accumulate codec payloads
  have hrange := maxIndex_range hint payloads
  rw [finishIn, hholds.maxIdx]
  cases hslots : slots maxLen (maxIndex (choicesOf codec payloads)) with
  | error panic => rfl
  | ok n =>
    simp only [Except.map, Except.ok.injEq]
    by_cases hmax : 0 ≤ maxIndex (choicesOf codec payloads)
    · rw [hholds.finish_choices (by rwa [hholds.maxIdx]), hholds.maxIdx,
        wrap64_succ_of_slots hrange hmax hslots]
    · rw [slots, if_pos (not_le.mp hmax), Except.ok.injEq] at hslots
      subst hslots
      rw [finish, if_pos (by rw [hholds.maxIdx]; exact not_le.mp hmax)]
      rfl

/-- The choices are assembled index by index, with the tool calls in the order
of their indices, and are the same for every interleaving of the deltas. -/
theorem choices_of_deltas (codec : Codec) (hint : codec.IntIndices) (maxLen : ℕ)
    (payloads payloads' : List Bytes) :
    ((finishIn codec maxLen (accumulate codec payloads)).map (·.choices) =
        (slots maxLen (maxIndex (choicesOf codec payloads))).map fun n =>
          (List.range n).map (joinedChoice codec (choicesOf codec payloads))) ∧
      (SameDeltas (choicesOf codec payloads) (choicesOf codec payloads') →
        (finishIn codec maxLen (accumulate codec payloads)).map (·.choices) =
          (finishIn codec maxLen (accumulate codec payloads')).map (·.choices)) := by
  refine ⟨finishIn_choices hint maxLen payloads, fun hsame => ?_⟩
  rw [finishIn_choices hint, finishIn_choices hint, hsame.maxIndex_eq, hsame.joinedChoice_eq]

def contentPayload : Bytes :=
  ascii ("\x7b\"choices\":[\x7b\"index\":0,\"delta\":" ++
    "\x7b\"role\":\"assistant\",\"content\":\"Hi\"\x7d\x7d]\x7d")

def callPayload : Bytes :=
  ascii ("\x7b\"choices\":[\x7b\"index\":1,\"delta\":\x7b\"tool_calls\":[" ++
    "\x7b\"index\":0,\"id\":\"id\",\"type\":\"function\"," ++
    "\"function\":\x7b\"name\":\"f\",\"arguments\":\"\x7b\x7d\"\x7d\x7d]\x7d\x7d]\x7d")

def contentDelta : ChatChunkChoice := ⟨0, "assistant", ascii "\"Hi\"", []⟩

def callDelta : ChatChunkChoice := ⟨1, "", [], [⟨0, "id", "function", "f", "\x7b\x7d"⟩]⟩

/-- The decoding of the two payloads, for two choices. -/
def pairCodec : Codec where
  unmarshalChunk data :=
    if data = contentPayload then some ⟨[contentDelta], none⟩
    else if data = callPayload then some ⟨[callDelta], none⟩
    else none
  unmarshalString raw := if raw = ascii "\"Hi\"" then some "Hi" else none
  unmarshalParts _ := none
  marshalString text := if text = "Hi" then some (ascii "\"Hi\"") else none

def pairChoices (payloads : List Bytes) : Except Panic (List ChatChoice) :=
  (finishIn pairCodec 2 (accumulate pairCodec payloads)).map (·.choices)

theorem choices_of_pair :
    pairCodec.IntIndices ∧
      SameDeltas (choicesOf pairCodec [contentPayload, callPayload])
        (choicesOf pairCodec [callPayload, contentPayload]) ∧
      pairChoices [contentPayload, callPayload] =
        .ok [⟨0, "assistant", ascii "\"Hi\"", []⟩,
          ⟨1, "", [], [⟨"id", "function", "f", "\x7b\x7d"⟩]⟩] ∧
      pairChoices [callPayload, contentPayload] =
        pairChoices [contentPayload, callPayload] := by
  have hint : pairCodec.IntIndices := by
    intro data chunk hdecode c hc
    simp only [pairCodec] at hdecode
    split_ifs at hdecode
    · cases hdecode
      simp only [mem_singleton] at hc
      subst hc
      decide
    · cases hdecode
      simp only [mem_singleton] at hc
      subst hc
      decide
  have hcontent : pairCodec.unmarshalChunk contentPayload = some ⟨[contentDelta], none⟩ := by
    simp [pairCodec]
  have hne : callPayload ≠ contentPayload := by decide +kernel
  have hcall : pairCodec.unmarshalChunk callPayload = some ⟨[callDelta], none⟩ := by
    simp [pairCodec, hne]
  have hsame : SameDeltas (choicesOf pairCodec [contentPayload, callPayload])
      (choicesOf pairCodec [callPayload, contentPayload]) := by
    simp only [choicesOf, filterMap_cons, hcontent, hcall]
    exact sameDeltas_swap (by decide) [] []
  refine ⟨hint, hsame, ?_, ((choices_of_deltas pairCodec hint 2 _ _).2 hsame).symm⟩
  rw [pairChoices, (choices_of_deltas pairCodec hint 2 _ []).1]
  decide +kernel

end BuiltOnEnvoy.Sse.ChatCompletions
