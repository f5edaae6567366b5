import BuiltOnEnvoy.Bedrock.Masking
import BuiltOnEnvoy.Foundations.GoQuote
import BuiltOnEnvoy.Foundations.JsonDecode

/-!
# The JSON calls of the guardrails filter

The codec over which the filter is generic, as `encoding/json` and the `%q`
verb implement it. A raw message is kept as the compact text of its value. The
fields of a request that are only passed on are handled by a codec of their
own. The texts of errors, the printable characters and the range of a float are
the library's.

A request that was decoded can be encoded again, and what the encoding is
decoded to are the same messages with the raw texts read once more.
-/

namespace BuiltOnEnvoy.Bedrock

open List hiding utf8Encode
open Foundations Option

/-- A slice of raw messages; every element is overwritten as a whole. -/
def decodeRaws : Decoder (List Bytes)
  | _, .null => some []
  | _, .array items => some (items.map Json.marshal)
  | _, _ => none

def emptyMessage : ChatMessage := ⟨"", [], none, none, []⟩

def messageFields : List (JsonField ChatMessage) :=
  [jsonField "role" ChatMessage.role (fun msg role => { msg with role }) decodeString,
    jsonField "content" ChatMessage.content (fun msg content => { msg with content })
      fun _ v => some v.marshal,
    jsonField "name" ChatMessage.name (fun msg name => { msg with name })
      (decodePointer "" decodeString),
    jsonField "tool_call_id" ChatMessage.toolCallID (fun msg toolCallID => { msg with toolCallID })
      (decodePointer "" decodeString),
    jsonField "tool_calls" ChatMessage.toolCalls (fun msg toolCalls => { msg with toolCalls })
      decodeRaws]

def decodeMessages : Decoder (Slice ChatMessage) :=
  decodeSlice emptyMessage (decodeStruct messageFields)

def partFields : List (JsonField ContentPart) :=
  [jsonField "type" ContentPart.type (fun part type => { part with type }) decodeString,
    jsonField "text" ContentPart.text (fun part text => { part with text }) decodeString]

def decodeParts (v : Json) : Option (List ContentPart) :=
  (decodeSlice ⟨"", ""⟩ (decodeStruct partFields) .nil v).map Slice.toList

def jsonString (text : String) : Json := .string text.toList

attribute [local simp] jsonString Json.depth

/-- A string behind a pointer; a nil pointer is left out. -/
def stringMember (name : String) (value : Option String) : List (List Char × Json) :=
  value.toList.map fun text => (name.toList, jsonString text)

/-- A raw message has to be JSON; an empty one is left out. -/
def rawMember (name : String) (raw : Bytes) : Option (List (List Char × Json)) :=
  if raw = [] then some [] else (Json.parse raw).map fun v => [(name.toList, v)]

def rawsMember (name : String) (raws : List Bytes) : Option (List (List Char × Json)) :=
  if raws = [] then some [] else (raws.mapM Json.parse).map fun vs => [(name.toList, .array vs)]

def messageJson (msg : ChatMessage) : Option Json := do
  let content ← rawMember "content" msg.content
  let toolCalls ← rawsMember "tool_calls" msg.toolCalls
  return .object (("role".toList, jsonString msg.role) :: (content ++
    (stringMember "name" msg.name ++ (stringMember "tool_call_id" msg.toolCallID ++ toolCalls))))

/-- No messages are a nil slice. -/
def messagesJson (messages : List ChatMessage) : Option Json :=
  if messages = [] then some .null else (messages.mapM messageJson).map Json.array

def partJson (part : ContentPart) : Json :=
  .object [("type".toList, jsonString part.type), ("text".toList, jsonString part.text)]

/-- No content is a nil slice. -/
def applyJson (req : ApplyGuardrailRequest) : Json :=
  .object [("source".toList, jsonString req.source),
    ("content".toList,
      if req.content = [] then .null
      else .array (req.content.map fun text =>
        .object [("text".toList, .object [("text".toList, jsonString text)])]))]

/-- The fields of a request besides its messages. What was decoded within the limit of
nesting is encoded within it and can be decoded again. -/
structure RestCodec (Rest : Type) where
  zero : Rest
  decode : Rest → List Char × Json → Option Rest
  encode : Rest → List (List Char × Json)
  names : ∀ r, ∀ m ∈ encode r, equalFold "messages" (String.ofList m.1) = false
  again : ∀ (ms : List (List Char × Json)) (r : Rest), (∀ m ∈ ms, m.2.depth < maxNestingDepth) →
    ms.foldlM decode zero = some r →
      (∀ m ∈ encode r, m.2.depth < maxNestingDepth) ∧
        ∃ r', (encode r).foldlM decode zero = some r'

section

variable {Rest : Type} (rest : RestCodec Rest)

def decodeRequestMember (s : Slice ChatMessage × Rest) (m : List Char × Json) :
    Option (Slice ChatMessage × Rest) :=
  if hasName "messages" m then (decodeMessages s.1 m.2).map fun messages => (messages, s.2)
  else (rest.decode s.2 m).map fun r => (s.1, r)

def decodeRequest : Json → Option (ChatRequest Rest)
  | .null => some ⟨[], rest.zero⟩
  | .object members =>
    (members.foldlM (decodeRequestMember rest) (.nil, rest.zero)).map fun s => ⟨s.1.toList, s.2⟩
  | _ => none

def requestJson (req : ChatRequest Rest) : Option Json :=
  (messagesJson req.messages).map fun messages =>
    .object (("messages".toList, messages) :: rest.encode req.rest)

end

mutual

/-- A value decoded without a type; a number has to be in the range of a float. -/
def decodeAny (floatFits : NumberLiteral → Bool) : Json → Option JsonValue
  | .null => some .null
  | .bool value => some (.bool value)
  | .number literal =>
    if floatFits literal then some (.number (String.ofList literal.text)) else none
  | .string value => some (.string (String.ofList value))
  | .array items => (decodeAnyItems floatFits items).map .array
  | .object members => (decodeAnyMembers floatFits members).map .object

def decodeAnyItems (floatFits : NumberLiteral → Bool) : List Json → Option (List JsonValue)
  | [] => some []
  | v :: vs => do return (← decodeAny floatFits v) :: (← decodeAnyItems floatFits vs)

/-- The member of a name that comes again is replaced. -/
def decodeAnyMembers (floatFits : NumberLiteral → Bool) :
    List (List Char × Json) → Option (List (String × JsonValue))
  | [] => some []
  | (name, v) :: ms => do
    let value ← decodeAny floatFits v
    let others ← decodeAnyMembers floatFits ms
    return if others.any (·.1 == String.ofList name) then others
      else (String.ofList name, value) :: others

end

/-- An assessment and a response while they are decoded. -/
structure WireAssessment where
  guardrailID : String
  guardrailVersion : String
  filters : Slice Filter
  topics : Slice Topic
  piiEntities : Slice PiiEntity
  regexes : Slice JsonValue

structure WireResponse where
  action : String
  outputs : Slice String
  assessments : Slice WireAssessment

def outputFields : List (JsonField String) :=
  [jsonField "text" id (fun _ text => text) decodeString]

def filterFields : List (JsonField Filter) :=
  [jsonField "action" Filter.action (fun x action => { x with action }) decodeString,
    jsonField "confidence" Filter.confidence (fun x confidence => { x with confidence })
      decodeString,
    jsonField "detected" Filter.detected (fun x detected => { x with detected }) decodeBool,
    jsonField "filterStrength" Filter.filterStrength
      (fun x filterStrength => { x with filterStrength }) decodeString,
    jsonField "type" Filter.type (fun x type => { x with type }) decodeString]

def topicFields : List (JsonField Topic) :=
  [jsonField "name" Topic.name (fun x name => { x with name }) decodeString,
    jsonField "type" Topic.type (fun x type => { x with type }) decodeString,
    jsonField "action" Topic.action (fun x action => { x with action }) decodeString]

def piiEntityFields : List (JsonField PiiEntity) :=
  [jsonField "type" PiiEntity.type (fun x type => { x with type }) decodeString,
    jsonField "match" PiiEntity.match (fun x «match» => { x with «match» }) decodeString,
    jsonField "action" PiiEntity.action (fun x action => { x with action }) decodeString]

def assessmentFields (floatFits : NumberLiteral → Bool) : List (JsonField WireAssessment) :=
  [⟨"appliedGuardrailDetails", decodeStruct
      [jsonField "guardrailId" WireAssessment.guardrailID
          (fun x guardrailID => { x with guardrailID }) decodeString,
        jsonField "guardrailVersion" WireAssessment.guardrailVersion
          (fun x guardrailVersion => { x with guardrailVersion }) decodeString]⟩,
    ⟨"contentPolicy", decodeStruct
      [jsonField "filters" WireAssessment.filters (fun x filters => { x with filters })
        (decodeSlice ⟨"", "", false, "", ""⟩ (decodeStruct filterFields))]⟩,
    ⟨"topicPolicy", decodeStruct
      [jsonField "topics" WireAssessment.topics (fun x topics => { x with topics })
        (decodeSlice ⟨"", "", ""⟩ (decodeStruct topicFields))]⟩,
    ⟨"sensitiveInformationPolicy", decodeStruct
      [jsonField "piiEntities" WireAssessment.piiEntities
          (fun x piiEntities => { x with piiEntities })
          (decodeSlice ⟨"", "", ""⟩ (decodeStruct piiEntityFields)),
        jsonField "regexes" WireAssessment.regexes (fun x regexes => { x with regexes })
          (decodeSlice .null fun _ v => decodeAny floatFits v)]⟩]

def responseFields (floatFits : NumberLiteral → Bool) : List (JsonField WireResponse) :=
  [jsonField "action" WireResponse.action (fun x action => { x with action }) decodeString,
    jsonField "outputs" WireResponse.outputs (fun x outputs => { x with outputs })
      (decodeSlice "" (decodeStruct outputFields)),
    jsonField "assessments" WireResponse.assessments (fun x assessments => { x with assessments })
      (decodeSlice ⟨"", "", .nil, .nil, .nil, .nil⟩ (decodeStruct (assessmentFields floatFits)))]

def WireAssessment.value (x : WireAssessment) : Assessment where
  guardrailID := x.guardrailID
  guardrailVersion := x.guardrailVersion
  filters := x.filters.toList
  topics := x.topics.toList
  piiEntities := x.piiEntities.toList
  regexes := x.regexes.toList

def WireResponse.value (x : WireResponse) : ApplyGuardrailResponse where
  action := x.action
  outputs := x.outputs.toList
  assessments := x.assessments.toList.map WireAssessment.value

/-- A response behind a pointer. -/
def decodeResponse (floatFits : NumberLiteral → Bool) (v : Json) :
    Option (Option ApplyGuardrailResponse) :=
  (decodePointer ⟨"", .nil, .nil⟩ (decodeStruct (responseFields floatFits)) none v).map
    (Option.map WireResponse.value)

/-- What the standard library is left to decide. -/
structure Library where
  printable : Char → Bool
  floatFits : NumberLiteral → Bool
  requestError : Bytes → String
  responseError : Bytes → String
  marshalError : String

def orError {α : Type} (message : String) : Option α → Except String α
  | some a => .ok a
  | none => .error message

def goCodec {Rest : Type} (lib : Library) (rest : RestCodec Rest) : Codec Rest where
  unmarshalRequest body :=
    orError (lib.requestError body) ((Json.parse body).bind (decodeRequest rest))
  marshalRequest req := orError lib.marshalError ((requestJson rest req).map Json.marshal)
  unmarshalString raw := (Json.parse raw).bind (decodeString "")
  unmarshalParts raw := (Json.parse raw).bind decodeParts
  marshalPart part := (partJson part).marshal
  quote text := utf8Encode (goQuote lib.printable text.toList)
  marshalApply req := (applyJson req).marshal
  unmarshalResponse body :=
    orError (lib.responseError body) ((Json.parse body).bind (decodeResponse lib.floatFits))

section

variable {Rest : Type} (lib : Library) (rest : RestCodec Rest)

theorem goCodec_unmarshalString (raw : Bytes) :
    (goCodec lib rest).unmarshalString raw = (Json.parse raw).bind (decodeString "") := rfl

theorem goCodec_unmarshalParts (raw : Bytes) :
    (goCodec lib rest).unmarshalParts raw = (Json.parse raw).bind decodeParts := rfl

theorem goCodec_marshalPart (part : ContentPart) :
    (goCodec lib rest).marshalPart part = (partJson part).marshal := rfl

theorem goCodec_quote (text : String) :
    (goCodec lib rest).quote text = utf8Encode (goQuote lib.printable text.toList) := rfl

end

theorem orError_eq_ok {α : Type} {message : String} {o : Option α} {a : α} :
    orError message o = .ok a ↔ o = some a := by
  cases o <;> simp [orError]

/-- A raw text after it was encoded and decoded. -/
def rereadRaw (raw : Bytes) : Bytes := ((Json.parse raw).map Json.marshal).getD []

def rereadMessage (msg : ChatMessage) : ChatMessage :=
  { msg with content := rereadRaw msg.content, toolCalls := msg.toolCalls.map rereadRaw }

theorem decodeString_jsonString (s text : String) :
    decodeString s (jsonString text) = some text := by
  simp [decodeString]

theorem decodePointer_jsonString (old : Option String) (text : String) :
    decodePointer "" decodeString old (jsonString text) = some (some text) := by
  have h : decodePointer "" decodeString old (jsonString text) =
      (decodeString (old.getD "") (jsonString text)).map some := rfl
  rw [h, decodeString_jsonString, map_some]

theorem decodeMember_role (msg : ChatMessage) (role : String) :
    decodeMember messageFields msg ("role".toList, jsonString role) = some { msg with role } := by
  have hfield : fieldOf messageFields "role".toList = some
      (jsonField "role" ChatMessage.role (fun msg role => { msg with role }) decodeString) := rfl
  rw [decodeMember_jsonField hfield, decodeString_jsonString, map_some]

theorem foldlM_stringMember {name : String} (get : ChatMessage → Option String)
    (set : ChatMessage → Option String → ChatMessage)
    (hfield : fieldOf messageFields name.toList =
      some (jsonField name get set (decodePointer "" decodeString)))
    {msg : ChatMessage} (hnil : set msg none = msg) (value : Option String) :
    (stringMember name value).foldlM (decodeMember messageFields) msg = some (set msg value) := by
  cases value with
  | none => exact congrArg some hnil.symm
  | some text =>
    have hmember : stringMember name (some text) = [(name.toList, jsonString text)] := rfl
    rw [hmember, foldlM_singleton, decodeMember_jsonField hfield, decodePointer_jsonString,
      map_some]

theorem foldlM_content (msg : ChatMessage) {raw : Bytes} {ms : List (List Char × Json)}
    (hmsg : msg.content = []) (h : rawMember "content" raw = some ms) :
    ms.foldlM (decodeMember messageFields) msg = some { msg with content := rereadRaw raw } := by
  have hfield : fieldOf messageFields "content".toList = some
      (jsonField "content" ChatMessage.content (fun msg content => { msg with content })
        fun _ v => some v.marshal) := rfl
  unfold rawMember at h
  split_ifs at h with hraw
  · cases h
    rw [hraw, rereadRaw, Json.parse_nil, map_none, getD_none]
    exact congrArg (fun content => some { msg with content }) hmsg
  · obtain ⟨v, hv, rfl⟩ := map_eq_some_iff.mp h
    rw [foldlM_singleton, decodeMember_jsonField hfield, map_some, rereadRaw, hv,
      map_some, getD_some]

theorem map_rereadRaw {raws : List Bytes} {vs : List Json} (h : raws.mapM Json.parse = some vs) :
    raws.map rereadRaw = vs.map Json.marshal := by
  have hall := forall₂_of_mapM h
  induction hall with
  | nil => rfl
  | cons hv hvs ih =>
    rw [map_cons, map_cons, ih (mapM_of_forall₂ hvs), rereadRaw, hv]
    rfl

theorem foldlM_toolCalls (msg : ChatMessage) {raws : List Bytes} {ms : List (List Char × Json)}
    (hmsg : msg.toolCalls = []) (h : rawsMember "tool_calls" raws = some ms) :
    ms.foldlM (decodeMember messageFields) msg =
      some { msg with toolCalls := raws.map rereadRaw } := by
  have hfield : fieldOf messageFields "tool_calls".toList = some
      (jsonField "tool_calls" ChatMessage.toolCalls (fun msg toolCalls => { msg with toolCalls })
        decodeRaws) := rfl
  unfold rawsMember at h
  split_ifs at h with hraws
  · cases h
    rw [hraws, map_nil]
    exact congrArg (fun toolCalls => some { msg with toolCalls }) hmsg
  · obtain ⟨vs, hvs, rfl⟩ := map_eq_some_iff.mp h
    rw [foldlM_singleton, decodeMember_jsonField hfield, map_rereadRaw hvs, decodeRaws,
      map_some]

variable {msg : ChatMessage}

theorem decode_messageJson {v : Json} (h : messageJson msg = some v) :
    decodeStruct messageFields emptyMessage v = some (rereadMessage msg) := by
  simp only [messageJson, bind_eq_bind, bind_eq_some_iff] at h
  obtain ⟨content, hcontent, toolCalls, htoolCalls, h⟩ := h
  cases h
  rw [decodeStruct, foldlM_cons, decodeMember_role, bind_eq_bind, bind_some,
    foldlM_append, foldlM_content _ rfl hcontent, bind_eq_bind, bind_some,
    foldlM_append, foldlM_stringMember ChatMessage.name (fun msg name => { msg with name }) rfl rfl,
    bind_eq_bind, bind_some, foldlM_append, foldlM_stringMember ChatMessage.toolCallID
      (fun msg toolCallID => { msg with toolCallID }) rfl rfl,
    bind_eq_bind, bind_some, foldlM_toolCalls _ rfl htoolCalls]
  rfl

theorem decode_messagesJson {messages : List ChatMessage} {v : Json}
    (h : messagesJson messages = some v) :
    (decodeMessages .nil v).map Slice.toList = some (messages.map rereadMessage) := by
  unfold messagesJson at h
  split_ifs at h with hempty
  · cases h
    rw [hempty]
    rfl
  · obtain ⟨vs, hvs, rfl⟩ := map_eq_some_iff.mp h
    apply toList_decodeSlice_nil
    apply mapM_of_forall₂
    have hall := (forall₂_of_mapM hvs).flip
    rw [forall₂_map_right_iff]
    exact hall.imp fun _ _ hmsg => decode_messageJson hmsg

/-- The tool calls of a message are within the limit of nesting at their place in a request. -/
def ShallowCalls (msg : ChatMessage) : Prop :=
  ∀ raw ∈ msg.toolCalls, ∃ v : Json, raw = v.marshal ∧ v.depth + 4 ≤ maxNestingDepth

/-- So is the content. -/
def ShallowContent (msg : ChatMessage) : Prop :=
  ∀ v, Json.parse msg.content = some v → v.depth + 3 ≤ maxNestingDepth

theorem decodeRaws_keeps {depth : ℕ} :
    Decoder.Keeps decodeRaws (depth + 1) fun raws => ∀ raw ∈ raws, ∃ v : Json, raw = v.marshal ∧
      v.depth ≤ depth := by
  intro s v raws _ hdepth h
  cases v with
  | null =>
    cases h
    simp
  | array items =>
    cases h
    intro raw hraw
    obtain ⟨v, hv, rfl⟩ := List.mem_map.mp hraw
    rw [Json.depth] at hdepth
    exact ⟨v, rfl, Json.depthItems_le.mp (by omega) v hv⟩
  | _ => cases h

theorem decodeMessages_keeps :
    Decoder.Keeps decodeMessages (maxNestingDepth - 1) fun s => ∀ msg ∈ s.memory,
      ShallowCalls msg := by
  have hzero : ShallowCalls emptyMessage := fun _ hraw => absurd hraw not_mem_nil
  have hfields : ∀ f ∈ messageFields, Decoder.Keeps f.decode 9997 ShallowCalls := by
    intro f hf
    simp only [messageFields, mem_cons, not_mem_nil, or_false] at hf
    rcases hf with rfl | rfl | rfl | rfl | rfl
    iterate 4 exact jsonField_keeps (Decoder.keeps_true _ _) (fun _ _ => trivial) fun _ _ h _ => h
    · have hdepth : maxNestingDepth = 10000 := rfl
      refine jsonField_keeps decodeRaws_keeps ?_ ?_
      · intro msg hmsg raw hraw
        obtain ⟨v, hv, hle⟩ := hmsg raw hraw
        exact ⟨v, hv, by omega⟩
      · intro msg raws _ hraws raw hraw
        obtain ⟨v, hv, hle⟩ := hraws raw hraw
        exact ⟨v, hv, by omega⟩
  exact decodeSlice_keeps hzero (decodeStruct_keeps hfields)

theorem parse_toolCalls (h : ShallowCalls msg) :
    ∃ vs : List Json, msg.toolCalls.mapM Json.parse = some vs ∧
      ∀ v ∈ vs, v.depth + 4 ≤ maxNestingDepth := by
  unfold ShallowCalls at h
  generalize msg.toolCalls = raws at h ⊢
  induction raws with
  | nil => exact ⟨[], rfl, by simp⟩
  | cons raw raws ih =>
    obtain ⟨⟨v, rfl, hv⟩, hraws⟩ := forall_mem_cons.mp h
    obtain ⟨vs, hvs, hdepth⟩ := ih hraws
    refine ⟨v :: vs, ?_, forall_mem_cons.mpr ⟨hv, hdepth⟩⟩
    rw [mapM_cons, Json.parse_marshal (by omega), hvs]
    rfl

/-- A message with shallow tool calls can be encoded when its content is empty or JSON. -/
theorem messageJson_isSome (hcalls : ShallowCalls msg) :
    (messageJson msg).isSome ↔ msg.content = [] ∨ (Json.parse msg.content).isSome := by
  obtain ⟨vs, hvs, -⟩ := parse_toolCalls hcalls
  have hraws : ∃ ms, rawsMember "tool_calls" msg.toolCalls = some ms := by
    unfold rawsMember
    split_ifs
    · exact ⟨[], rfl⟩
    · exact ⟨_, congrArg (Option.map _) hvs⟩
  obtain ⟨toolCalls, htoolCalls⟩ := hraws
  unfold messageJson rawMember
  rw [htoolCalls]
  split_ifs with hcontent
  · simp [hcontent]
  · cases Json.parse msg.content <;> simp [hcontent]

theorem depth_messageJson {v : Json} (hcalls : ShallowCalls msg) (hcontent : ShallowContent msg)
    (h : messageJson msg = some v) :
    v.depth + 2 ≤ maxNestingDepth := by
  have hmax : maxNestingDepth = 10000 := rfl
  simp only [messageJson, bind_eq_bind, bind_eq_some_iff] at h
  obtain ⟨content, hraw, toolCalls, hraws, h⟩ := h
  cases h
  have hcontent' : ∀ m ∈ content, m.2.depth ≤ maxNestingDepth - 3 := by
    unfold rawMember at hraw
    split_ifs at hraw
    · cases hraw
      simp
    · obtain ⟨v, hv, rfl⟩ := map_eq_some_iff.mp hraw
      have := hcontent v hv
      simp only [mem_singleton, forall_eq]
      omega
  have htoolCalls : ∀ m ∈ toolCalls, m.2.depth ≤ maxNestingDepth - 3 := by
    obtain ⟨vs, hvs, hdepth⟩ := parse_toolCalls hcalls
    unfold rawsMember at hraws
    split_ifs at hraws
    · cases hraws
      simp
    · rw [hvs] at hraws
      cases hraws
      have hitems : Json.depthItems vs ≤ maxNestingDepth - 4 :=
        Json.depthItems_le.mpr fun v hv => by have := hdepth v hv; omega
      simp only [mem_singleton, forall_eq, Json.depth]
      omega
  have hstrings : ∀ name value, ∀ m ∈ stringMember name value, m.2.depth ≤ maxNestingDepth - 3 := by
    intro name value m hm
    obtain ⟨text, -, rfl⟩ := List.mem_map.mp hm
    simp
  have hmembers := Json.depthMembers_le.mpr (forall_mem_cons.mpr
    ⟨show (("role".toList, jsonString msg.role) : List Char × Json).2.depth ≤ maxNestingDepth - 3 by
      simp,
    forall_mem_append.mpr ⟨hcontent', forall_mem_append.mpr
      ⟨hstrings "name" msg.name, forall_mem_append.mpr
        ⟨hstrings "tool_call_id" msg.toolCallID, htoolCalls⟩⟩⟩⟩)
  rw [Json.depth]
  omega

theorem depth_messagesJson {messages : List ChatMessage} {v : Json}
    (hcalls : ∀ msg ∈ messages, ShallowCalls msg)
    (hcontents : ∀ msg ∈ messages, ShallowContent msg) (h : messagesJson messages = some v) :
    v.depth < maxNestingDepth := by
  have hmax : maxNestingDepth = 10000 := rfl
  unfold messagesJson at h
  split_ifs at h
  · cases h
    simp [hmax]
  · obtain ⟨vs, hvs, rfl⟩ := map_eq_some_iff.mp h
    have hitems : Json.depthItems vs ≤ maxNestingDepth - 2 := by
      refine Json.depthItems_le.mpr fun v hv => ?_
      obtain ⟨msg, hmsg, hv⟩ := exists_left_of_forall₂ (forall₂_of_mapM hvs) hv
      have := depth_messageJson (hcalls msg hmsg) (hcontents msg hmsg) hv
      omega
    rw [Json.depth]
    omega

section

variable {Rest : Type} {rest : RestCodec Rest}

theorem decode_apart {members : List (List Char × Json)} {s s' : Slice ChatMessage × Rest}
    (h : members.foldlM (decodeRequestMember rest) s = some s') :
    ((members.filter (hasName "messages")).map (·.2)).foldlM decodeMessages s.1 = some s'.1 ∧
      (members.filter fun m => !hasName "messages" m).foldlM rest.decode s.2 = some s'.2 := by
  induction members generalizing s with
  | nil =>
    cases h
    exact ⟨rfl, rfl⟩
  | cons m members ih =>
    rw [foldlM_cons, bind_eq_bind, bind_eq_some_iff] at h
    obtain ⟨next, hnext, h⟩ := h
    obtain ⟨hmessages, hrest⟩ := ih h
    unfold decodeRequestMember at hnext
    split_ifs at hnext with hm
    · obtain ⟨messages, hdecode, rfl⟩ := map_eq_some_iff.mp hnext
      rw [filter_cons_of_pos hm, filter_cons_of_neg (by simp [hm]), map_cons,
        foldlM_cons, hdecode]
      exact ⟨hmessages, hrest⟩
    · obtain ⟨r, hdecode, rfl⟩ := map_eq_some_iff.mp hnext
      rw [filter_cons_of_neg hm, filter_cons_of_pos (by simp [hm]), foldlM_cons,
        hdecode]
      exact ⟨hmessages, hrest⟩

theorem decode_others {members : List (List Char × Json)} (hnames : ∀ m ∈ members,
    hasName "messages" m = false) (messages : Slice ChatMessage) {r r' : Rest}
    (h : members.foldlM rest.decode r = some r') :
    members.foldlM (decodeRequestMember rest) (messages, r) = some (messages, r') := by
  induction members generalizing r with
  | nil =>
    cases h
    rfl
  | cons m members ih =>
    obtain ⟨hm, hnames⟩ := forall_mem_cons.mp hnames
    rw [foldlM_cons, bind_eq_bind, bind_eq_some_iff] at h
    obtain ⟨next, hnext, h⟩ := h
    have hstep : decodeRequestMember rest (messages, r) m = some (messages, next) := by
      simp only [decodeRequestMember, hm, Bool.false_eq_true, if_false, hnext, map_some]
    rw [foldlM_cons, hstep]
    exact ih hnames h

/-- What decoding a request gives: shallow tool calls, and other fields that can be encoded and
decoded again. -/
structure Decoded (rest : RestCodec Rest) (req : ChatRequest Rest) : Prop where
  calls : ∀ msg ∈ req.messages, ShallowCalls msg
  depth : ∀ m ∈ rest.encode req.rest, m.2.depth < maxNestingDepth
  again : ∃ r, (rest.encode req.rest).foldlM rest.decode rest.zero = some r

variable {req : ChatRequest Rest}

theorem decoded_of_decodeRequest {v : Json} (hdepth : v.depth ≤ maxNestingDepth)
    (h : decodeRequest rest v = some req) : Decoded rest req := by
  have hmax : maxNestingDepth = 10000 := rfl
  cases v with
  | null =>
    cases h
    obtain ⟨hrest, hagain⟩ := rest.again [] rest.zero (by simp) rfl
    exact ⟨by simp, hrest, hagain⟩
  | object members =>
    obtain ⟨s, hs, rfl⟩ := map_eq_some_iff.mp h
    have hmembers : ∀ m ∈ members, m.2.depth ≤ maxNestingDepth - 1 := by
      rw [Json.depth] at hdepth
      exact Json.depthMembers_le.mp (by omega)
    obtain ⟨hmessages, hothers⟩ := decode_apart hs
    have hshallow : ∀ msg ∈ s.1.memory, ShallowCalls msg := by
      refine foldlM_keeps decodeMessages_keeps ?_ (by simp [Slice.nil]) hmessages
      intro v hv
      obtain ⟨m, hm, rfl⟩ := List.mem_map.mp hv
      exact hmembers m (mem_of_mem_filter hm)
    obtain ⟨hrest, hagain⟩ := rest.again _ s.2 (fun m hm => by
      have := hmembers m (mem_of_mem_filter hm)
      omega) hothers
    exact ⟨fun msg hmsg => hshallow msg (mem_of_mem_take hmsg), hrest, hagain⟩
  | _ => cases h

variable {lib : Library}

theorem decoded_of_unmarshal {body : Bytes}
    (h : (goCodec lib rest).unmarshalRequest body = .ok req) : Decoded rest req := by
  obtain ⟨v, hv, hreq⟩ := bind_eq_some_iff.mp (orError_eq_ok.mp h)
  exact decoded_of_decodeRequest (Json.depth_of_parse hv) hreq

/-- A decoded request whose messages got other contents, encoded and decoded once more. -/
theorem unmarshal_marshal (hreq : Decoded rest req) {messages : List ChatMessage}
    (hcalls : ∀ msg ∈ messages, ShallowCalls msg)
    (hcontents : ∀ msg ∈ messages, ShallowContent msg) {out : Bytes}
    (hout : (goCodec lib rest).marshalRequest { req with messages := messages } = .ok out) :
    ∃ r, (goCodec lib rest).unmarshalRequest out = .ok ⟨messages.map rereadMessage, r⟩ := by
  have hmax : maxNestingDepth = 10000 := rfl
  obtain ⟨v, hv, rfl⟩ := map_eq_some_iff.mp (orError_eq_ok.mp hout)
  obtain ⟨w, hw, rfl⟩ := map_eq_some_iff.mp hv
  obtain ⟨r, hr⟩ := hreq.again
  have hdepth : (Json.object (("messages".toList, w) :: rest.encode req.rest)).depth ≤
      maxNestingDepth := by
    have hmembers : Json.depthMembers (("messages".toList, w) :: rest.encode req.rest) ≤
        maxNestingDepth - 1 := by
      refine Json.depthMembers_le.mpr (forall_mem_cons.mpr ⟨?_, fun m hm => ?_⟩)
      · have := depth_messagesJson hcalls hcontents hw
        change w.depth ≤ _
        omega
      · have := hreq.depth m hm
        omega
    rw [Json.depth]
    omega
  obtain ⟨s, hs, hslice⟩ := map_eq_some_iff.mp (decode_messagesJson hw)
  have hmessages : hasName "messages" ("messages".toList, w) = true := by simp [hasName, equalFold]
  have hfirst : decodeRequestMember rest (.nil, rest.zero) ("messages".toList, w) =
      some (s, rest.zero) := by
    rw [decodeRequestMember, if_pos hmessages]
    change (decodeMessages .nil w).map _ = _
    rw [hs, map_some]
  refine ⟨r, orError_eq_ok.mpr ?_⟩
  rw [Json.parse_marshal hdepth, bind_some, decodeRequest, foldlM_cons, hfirst,
    bind_eq_bind, bind_some, decode_others (rest.names req.rest) s hr,
    map_some, hslice]

/-- The new request can be encoded exactly when every content is empty or JSON. -/
theorem marshalRequest_ok_iff {req : ChatRequest Rest} {messages : List ChatMessage}
    (hcalls : ∀ msg ∈ messages, ShallowCalls msg) :
    (∃ out, (goCodec lib rest).marshalRequest { req with messages := messages } = .ok out) ↔
      ∀ msg ∈ messages, msg.content = [] ∨ (Json.parse msg.content).isSome := by
  have hjson : (messages.mapM messageJson).isSome ↔ ∀ msg ∈ messages, (messageJson msg).isSome := by
    clear hcalls
    induction messages with
    | nil => simp
    | cons msg messages ih =>
      rw [forall_mem_cons, ← ih, mapM_cons]
      cases messageJson msg <;> cases messages.mapM messageJson <;> simp
  have hmessages : (messagesJson messages).isSome ↔ (messages.mapM messageJson).isSome := by
    unfold messagesJson
    split_ifs with hempty
    · simp [hempty]
    · simp
  have hencode : (∃ out, (goCodec lib rest).marshalRequest { req with messages := messages } =
      .ok out) ↔ (messagesJson messages).isSome := by
    simp only [goCodec, orError_eq_ok, requestJson]
    cases messagesJson messages <;> simp
  rw [hencode, hmessages, hjson]
  exact forall₂_congr fun msg hmsg => messageJson_isSome (hcalls msg hmsg)

theorem decodeParts_partJson (part : ContentPart) : decodeParts (partJson part) = none := rfl

theorem decodeParts_string (text : List Char) : decodeParts (.string text) = none := rfl

theorem parse_partJson (part : ContentPart) :
    Json.parse (partJson part).marshal = some (partJson part) :=
  Json.parse_marshal (by simp [partJson, Json.depthMembers, maxNestingDepth])

theorem goCodec_lawful (lib : Library) (rest : RestCodec Rest) : (goCodec lib rest).Lawful where
  marshalPart part := by
    rw [goCodec_unmarshalParts, goCodec_marshalPart, parse_partJson, bind_some,
      decodeParts_partJson]
  quote text := by
    rw [goCodec_unmarshalParts, goCodec_quote, parse_goQuote]
    split_ifs
    · rw [bind_some, decodeParts_string]
    · rfl
  marshalRequest body req ms hbody hms := by
    have hcalls : ∀ msg ∈ ms, ShallowCalls msg := by
      have hdecoded := (decoded_of_unmarshal hbody).calls
      intro msg hmsg
      obtain ⟨i, hi, rfl⟩ := mem_iff_getElem.mp hmsg
      have hlength := hms.length_eq
      have hi' : i < req.messages.length := by omega
      have hsame := (hms.get hi' hi).1
      intro raw hraw
      simp only [get_eq_getElem] at hsame
      rw [hsame] at hraw
      exact hdecoded req.messages[i] (getElem_mem hi') raw hraw
    refine (marshalRequest_ok_iff hcalls).mpr fun msg hmsg => ?_
    obtain ⟨i, hi, rfl⟩ := mem_iff_getElem.mp hmsg
    have hlength := hms.length_eq
    rcases (hms.get (by omega) hi).2 with hempty | hstring
    · exact .inl hempty
    · right
      simp only [get_eq_getElem, goCodec_unmarshalString] at hstring
      cases hparse : Json.parse ms[i].content with
      | none => simp [hparse] at hstring
      | some v => rfl

end

/-- Of the other fields, only the model is passed on. -/
def modelCodec : RestCodec String where
  zero := ""
  decode model m :=
    if equalFold "model" (String.ofList m.1) then decodeString model m.2 else some model
  encode model := [("model".toList, jsonString model)]
  names model := by
    simp only [List.mem_singleton, forall_eq]
    decide
  again ms model _ _ := by
    refine ⟨?_, model, ?_⟩
    · simp [maxNestingDepth]
    · have hname : equalFold "model" (String.ofList "model".toList) = true := by
        simp [equalFold]
      simp only [List.foldlM_cons, List.foldlM_nil, hname, if_true, decodeString_jsonString]
      rfl

def sampleLibrary : Library where
  printable c := decide (0xA1 ≤ c.toNat ∧ c.toNat < 0xE000)
  floatFits _ := true
  requestError _ := "invalid request"
  responseError _ := "invalid response"
  marshalError := "invalid content"

def modelJsonCodec : Codec String := goCodec sampleLibrary modelCodec

end BuiltOnEnvoy.Bedrock
