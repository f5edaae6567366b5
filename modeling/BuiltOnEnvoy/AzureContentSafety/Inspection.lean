import BuiltOnEnvoy.AzureContentSafety.Requests

/-!
# Which user messages are inspected

Every text of a user message in the `messages` of a body should reach the prompt
analysis. The parser is chosen by the names at the top level, and a body with an
`input` is read as another format, in which `messages` means nothing. A body
that does not decode is passed on as well, and names are matched without regard to
letter case, so that a second `Messages` takes the place of the first.

A body is inspected when it has no `input`, no name is given twice, and the values
have the types that the parser of its format reads.
-/

namespace BuiltOnEnvoy.AzureContentSafety

open Foundations List Option

/-- The value of a name in an object, the last one when the name comes again. -/
def member (name : String) : Json → Option Json
  | .object members => ((members.filter fun m => m.1 = name.toList).getLast?).map (·.2)
  | _ => none

def partText (part : Json) : List (List Char) :=
  match member "type" part, member "text" part with
  | some (.string type), some (.string text) => if type = "text".toList then [text] else []
  | _, _ => []

/-- The text of a string, or the texts of the text parts of a list. -/
def contentTexts : Json → List (List Char)
  | .string text => [text]
  | .array parts => parts.flatMap partText
  | _ => []

/-- A text of a user message. -/
def UserText (v : Json) (text : List Char) : Prop :=
  ∃ items msg content, member "messages" v = some (.array items) ∧ msg ∈ items ∧
    member "role" msg = some (.string "user".toList) ∧ member "content" msg = some content ∧
    text ∈ contentTexts content ∧ text ≠ []

section

variable {TaskRequest : Type}

/-- The text is part of a prompt that is submitted. -/
def Analysis.Submits (a : Analysis TaskRequest) (text : List Char) : Prop :=
  ∃ prompt documents outcome, ApiCall.shieldPrompt prompt documents outcome ∈ a.performed ∧
    text <:+: prompt.toList

variable (cfg : AzureContentSafetyConfig) (metricsEnabled : Bool) (client : Client TaskRequest)
  (parseTask : ApiFormat → Bytes → Except String TaskRequest)

/-- An analysis is started and gets every user text of the body. -/
def Inspects (body : Bytes) (v : Json) : Prop :=
  ∀ text, UserText v text → ∃ a,
    processRequestBody cfg metricsEnabled client parseTask body = some a ∧ a.Submits text

end

/-- Some top-level name is this one up to letter case. -/
def hasKey (name : String) : Json → Bool
  | .object members => members.any (hasName name)
  | _ => false

def formatOf (v : Json) : ApiFormat :=
  if hasKey "input" v then .responses
  else if hasKey "messages" v then
    if hasKey "system" v then .anthropic else .chatCompletions
  else .unknown

def Textual : Json → Prop
  | .null => True
  | .string _ => True
  | _ => False

/-- `null`, or an object with texts under these names, in any letter case. -/
def HasTexts (names : List String) : Json → Prop
  | .null => True
  | .object members => ∀ m ∈ members, ∀ name ∈ names, hasName name m = true → Textual m.2
  | _ => False

/-- `null`, or a list of such objects. -/
def ListsTexts (names : List String) : Json → Prop
  | .null => True
  | .array items => ∀ item ∈ items, HasTexts names item
  | _ => False

/-- At most one member has this name, in any letter case. -/
def Unambiguous (name : String) (v : Json) : Prop :=
  ∀ members, v = .object members → (members.filter (hasName name)).length ≤ 1

/-- The names under which the parts of a message have texts. A body with a `system` is read as one
of the Anthropic format, where a part may be a tool call as well. -/
def partNames (v : Json) : List String :=
  if hasKey "system" v then ["type", "text", "id", "name", "tool_use_id"] else ["type", "text"]

/-- A message whose parts have texts. None of the names that are read comes twice. -/
structure PlainMessage (names : List String) (msg : Json) : Prop where
  role : Unambiguous "role" msg
  content : Unambiguous "content" msg
  parts : ∀ parts, member "content" msg = some (.array parts) → ∀ part ∈ parts,
    HasTexts names part ∧ Unambiguous "type" part ∧ Unambiguous "text" part

/-- A body without an `input`, with one list of messages, of which those of the user are plain. In
the Anthropic format the tools are read too. -/
structure Plain (v : Json) : Prop where
  depth : v.depth ≤ maxNestingDepth
  input : hasKey "input" v = false
  messages : Unambiguous "messages" v
  roles : ∀ items, member "messages" v = some (.array items) →
    ∀ msg ∈ items, HasTexts ["role"] msg
  users : ∀ items, member "messages" v = some (.array items) → ∀ msg ∈ items,
    member "role" msg = some (.string "user".toList) → PlainMessage (partNames v) msg
  tools : hasKey "system" v = true → ∀ members, v = .object members →
    ∀ m ∈ members, hasName "tools" m = true → ListsTexts ["name", "description"] m.2

theorem decodeString_takes {v : Json} (h : Textual v) : Decoder.Takes decodeString v := by
  cases v with
  | null => exact fun s => ⟨s, rfl⟩
  | string text => exact fun _ => ⟨String.ofList text, rfl⟩
  | _ => cases h

theorem foldlM_decodeRaw (vs : List Json) (raw : Bytes) :
    ∃ raw', vs.foldlM decodeRaw raw = some raw' ∧ (raw' = [] ↔ vs = [] ∧ raw = []) := by
  induction vs generalizing raw with
  | nil => exact ⟨raw, rfl, by simp⟩
  | cons v vs ih =>
    obtain ⟨raw', hraw, hempty⟩ := ih v.marshal
    refine ⟨raw', hraw, ?_⟩
    simp [hempty, v.marshal_ne_nil]

theorem probe_takes (members : List (List Char × Json)) :
    Decoder.Takes (decodeStruct probeFields) (.object members) := by
  refine decodeStruct_takes fun m _ f hf _ => ?_
  simp only [probeFields, mem_cons, not_mem_nil, or_false] at hf
  rcases hf with rfl | rfl | rfl
  all_goals exact jsonField_takes (decodeRaw_takes _)

variable {name : String}

/-- A raw field of the probe is filled exactly when some member has its name. -/
theorem probe_field {get : RequestProbe → Bytes}
    (hreads : ReadsField probeFields name get decodeRaw) {members : List (List Char × Json)}
    {probe probe' : RequestProbe} (hget : get probe = [])
    (h : members.foldlM (decodeMember probeFields) probe = some probe') :
    get probe' ≠ [] ↔ members.any (hasName name) = true := by
  obtain ⟨raw, hraw, hempty⟩ :=
    foldlM_decodeRaw ((members.filter (hasName name)).map (·.2)) (get probe)
  have hfield := hreads members probe probe' h
  rw [hraw, Option.some.injEq] at hfield
  rw [← hfield, Ne, hempty]
  simp [hget, filter_eq_nil_iff]

theorem probe_input : ReadsField probeFields "input" RequestProbe.input decodeRaw :=
  FieldApart.readsField rfl (fun _ _ => rfl)
    (.cons (.inl (by decide)) (.cons (.inr fun _ _ => rfl) (.cons (.inr fun _ _ => rfl) .nil)))

theorem probe_messages : ReadsField probeFields "messages" RequestProbe.messages decodeRaw :=
  FieldApart.readsField rfl (fun _ _ => rfl)
    (.cons (.inr fun _ _ => rfl) (.cons (.inl (by decide)) (.cons (.inr fun _ _ => rfl) .nil)))

theorem probe_system : ReadsField probeFields "system" RequestProbe.system decodeRaw :=
  FieldApart.readsField rfl (fun _ _ => rfl)
    (.cons (.inr fun _ _ => rfl) (.cons (.inr fun _ _ => rfl) (.cons (.inl (by decide)) .nil)))

theorem detectRequestFormat_eq {body : Bytes} {v : Json} (h : Json.parse body = some v) :
    detectRequestFormat body = formatOf v := by
  unfold detectRequestFormat unmarshal
  rw [h, bind_some]
  cases v with
  | object members =>
    obtain ⟨probe, hprobe⟩ := probe_takes members ⟨[], [], []⟩
    simp only [hprobe]
    exact if_congr (probe_field probe_input rfl hprobe) rfl
      (if_congr (probe_field probe_messages rfl hprobe)
        (if_congr (probe_field probe_system rfl hprobe) rfl rfl) rfl)
  | _ => rfl

section

variable {TaskRequest : Type} {cfg : AzureContentSafetyConfig} {metricsEnabled : Bool}
  {client : Client TaskRequest} {parseTask : ApiFormat → Bytes → Except String TaskRequest}

theorem submits_analyzeRequest (userPrompt : String) (documents : List String)
    (parsed : Except String TaskRequest) (text : List Char) :
    (analyzeRequest cfg metricsEnabled client userPrompt documents parsed).Submits text ↔
      text <:+: userPrompt.toList := by
  unfold Analysis.Submits analyzeRequest
  cases client.shieldPrompt userPrompt documents with
  | error e => simp
  | ok result =>
    cases hattack : isPromptAttackDetected result with
    | true => simp [hattack]
    | false =>
      cases htask : cfg.enableTaskAdherence with
      | false => simp [hattack]
      | true =>
        cases parsed with
        | error e => simp [hattack]
        | ok taReq =>
          cases hta : client.analyzeTaskAdherence taReq cfg.taskAdherenceVersion with
          | error e => simp [hattack, hta]
          | ok taResult => cases hrisk : taResult.taskRiskDetected <;> simp [hattack, hta, hrisk]

theorem exists_of_member {v w : Json} (h : member name v = some w) :
    ∃ members, v = .object members ∧ ∃ m ∈ members, hasName name m = true ∧ m.2 = w := by
  cases v with
  | object members =>
    obtain ⟨m, hm, rfl⟩ := map_eq_some_iff.mp h
    have hmem := mem_filter.mp (mem_of_getLast? hm)
    have hname : m.1 = name.toList := of_decide_eq_true hmem.2
    exact ⟨members, rfl, m, hmem.1, by simp [hasName, hname, equalFold], rfl⟩
  | _ => cases h

theorem exists_key_of_member {v w : Json} (h : member name v = some w) :
    hasKey name v = true := by
  obtain ⟨members, rfl, m, hm, hname, -⟩ := exists_of_member h
  exact List.any_eq_true.mpr ⟨m, hm, hname⟩

/-- What is part of the prompt that the parser finds is submitted. -/
theorem processRequestBody_submits {body : Bytes} {v : Json} (hparse : Json.parse body = some v)
    {prompt : String} {documents : List String}
    (hprompt : parseRequest (formatOf v) body = some (prompt, documents)) {text : List Char}
    (htext : text ≠ []) (hinside : text <:+: prompt.toList) :
    ∃ a, processRequestBody cfg metricsEnabled client parseTask body = some a ∧
      a.Submits text := by
  have hne : body ≠ [] := by
    rintro rfl
    cases hparse
  have hnonempty : prompt ≠ "" := by
    rintro rfl
    exact htext (eq_nil_of_infix_nil hinside)
  refine ⟨analyzeRequest cfg metricsEnabled client prompt documents (parseTask (formatOf v) body),
    ?_, (submits_analyzeRequest _ _ _ _).mpr hinside⟩
  simp only [processRequestBody, hne, if_false, detectRequestFormat_eq hparse, hprompt, hnonempty]

end

theorem infix_intercalate {sep : String} {texts : List String} {text : String}
    (h : text ∈ texts) : text.toList <:+: (sep.intercalate texts).toList := by
  rw [String.toList_intercalate]
  induction texts with
  | nil => cases h
  | cons first rest ih =>
    cases rest with
    | nil =>
      rw [mem_singleton.mp h]
      simp
    | cons second rest =>
      rw [map_cons, map_cons, intercalate_cons_cons]
      rcases mem_cons.mp h with rfl | h
      · rw [append_assoc]
        exact (prefix_append _ _).isInfix
      · exact (ih h).trans (suffix_append _ _).isInfix

theorem values_of_unambiguous {v w : Json} (h : Unambiguous name v)
    (hw : member name v = some w) :
    ∃ members, v = .object members ∧ (members.filter (hasName name)).map (·.2) = [w] := by
  obtain ⟨members, rfl, m, hm, hname, rfl⟩ := exists_of_member hw
  refine ⟨members, rfl, ?_⟩
  have hlength := h members rfl
  obtain ⟨rest, more, hsplit⟩ := append_of_mem (mem_filter.mpr ⟨hm, hname⟩)
  rw [hsplit] at hlength ⊢
  simp only [length_append, length_cons] at hlength
  have hrest : rest = [] := length_eq_zero_iff.mp (by omega)
  have hmore : more = [] := length_eq_zero_iff.mp (by omega)
  rw [hrest, hmore]
  rfl

theorem depth_member {v w : Json} (h : member name v = some w) :
    w.depth ≤ v.depth := by
  obtain ⟨members, rfl, m, hm, -, rfl⟩ := exists_of_member h
  have hdepth := Json.depthMembers_le.mp (le_refl (Json.depthMembers members)) m hm
  rw [Json.depth]
  omega

theorem depth_item {items : List Json} {v : Json} (h : v ∈ items) :
    v.depth ≤ (Json.array items).depth := by
  have hdepth := Json.depthItems_le.mp (le_refl (Json.depthItems items)) v h
  rw [Json.depth]
  omega

theorem decode_of_reads {σ α : Type} {fields : List (JsonField σ)} {get : σ → α}
    {decode : Decoder α} (hreads : ReadsField fields name get decode) {v w : Json}
    (hplain : Unambiguous name v) (hv : member name v = some w) {s s' : σ}
    (h : decodeStruct fields s v = some s') : decode (get s) w = some (get s') := by
  obtain ⟨members, rfl, hvalues⟩ := values_of_unambiguous hplain hv
  have hfold := hreads members s s' h
  rw [hvalues] at hfold
  simpa using hfold

section

variable {σ : Type} {names : List String} {fields : List (JsonField σ)}

/-- The fields store every value, those of these names every text. -/
def TakesTexts (names : List String) (fields : List (JsonField σ)) : Prop :=
  ∀ f ∈ fields, ∀ v, (f.name ∈ names → Textual v) → Decoder.Takes f.decode v

theorem TakesTexts.nil : TakesTexts names ([] : List (JsonField σ)) :=
  fun _ hf => absurd hf not_mem_nil

theorem TakesTexts.text {get : σ → String} {set : σ → String → σ} (hname : name ∈ names)
    (hrest : TakesTexts names fields) :
    TakesTexts names (jsonField name get set decodeString :: fields) := by
  intro f hf v hv
  rcases mem_cons.mp hf with rfl | hf
  · exact jsonField_takes (decodeString_takes (hv hname))
  · exact hrest f hf v hv

theorem TakesTexts.raw {get : σ → Bytes} {set : σ → Bytes → σ}
    (hrest : TakesTexts names fields) :
    TakesTexts names (jsonField name get set decodeRaw :: fields) := by
  intro f hf v hv
  rcases mem_cons.mp hf with rfl | hf
  · exact jsonField_takes (decodeRaw_takes v)
  · exact hrest f hf v hv

theorem TakesTexts.decodeStruct (hfields : TakesTexts names fields) {v : Json}
    (h : HasTexts names v) : Decoder.Takes (decodeStruct fields) v := by
  cases v with
  | null => exact fun s => ⟨s, rfl⟩
  | object members =>
    exact decodeStruct_takes fun m hm f hf hname =>
      hfields f hf m.2 fun hmem => h m hm f.name hmem hname
  | _ => cases h

end

/-- Parts whose type and text are read, and which are kept when they are texts. -/
structure ReadsParts {Part : Type} (names : List String) (fields : List (JsonField Part))
    (type text : Part → String) (keep : Part → Bool) : Prop where
  takes : TakesTexts names fields
  readsType : ReadsField fields "type" type decodeString
  readsText : ReadsField fields "text" text decodeString
  kept : ∀ part, type part = "text" → text part ≠ "" → keep part = true

theorem readsParts_content : ReadsParts ["type", "text"] partFields ContentPart.type
    ContentPart.text fun p => p.type == "text" && p.text != "" where
  takes := .text (by decide) (.text (by decide) .nil)
  readsType := FieldApart.readsField rfl (fun _ _ => rfl)
    (.cons (.inl (by decide)) (.cons (.inr fun _ _ => rfl) .nil))
  readsText := FieldApart.readsField rfl (fun _ _ => rfl)
    (.cons (.inr fun _ _ => rfl) (.cons (.inl (by decide)) .nil))
  kept p htype htext := by simp [htype, htext]

theorem readsParts_block : ReadsParts ["type", "text", "id", "name", "tool_use_id"] blockFields
    AnthropicContentBlock.type AnthropicContentBlock.text
    fun b => b.type == "text" && b.text != "" where
  takes := .text (by decide) (.text (by decide) (.text (by decide) (.text (by decide)
    (.raw (.text (by decide) (.raw .nil))))))
  readsType := FieldApart.readsField rfl (fun _ _ => rfl)
    (.cons (.inl (by decide)) (.cons (.inr fun _ _ => rfl) (.cons (.inr fun _ _ => rfl)
      (.cons (.inr fun _ _ => rfl) (.cons (.inr fun _ _ => rfl) (.cons (.inr fun _ _ => rfl)
        (.cons (.inr fun _ _ => rfl) .nil)))))))
  readsText := FieldApart.readsField rfl (fun _ _ => rfl)
    (.cons (.inr fun _ _ => rfl) (.cons (.inl (by decide)) (.cons (.inr fun _ _ => rfl)
      (.cons (.inr fun _ _ => rfl) (.cons (.inr fun _ _ => rfl) (.cons (.inr fun _ _ => rfl)
        (.cons (.inr fun _ _ => rfl) .nil)))))))
  kept b htype htext := by simp [htype, htext]

theorem message_role : ReadsField messageFields "role" Message.role decodeString :=
  FieldApart.readsField rfl (fun _ _ => rfl)
    (.cons (.inl (by decide)) (.cons (.inr fun _ _ => rfl) .nil))

theorem message_content : ReadsField messageFields "content" Message.content decodeRaw :=
  FieldApart.readsField rfl (fun _ _ => rfl)
    (.cons (.inr fun _ _ => rfl) (.cons (.inl (by decide)) .nil))

theorem message_takes : TakesTexts ["role"] messageFields := .text (by decide) (.raw .nil)

theorem chat_messages :
    ReadsField chatFields "messages" ChatCompletionRequest.messages decodeMessages :=
  FieldApart.readsField rfl (fun _ _ => rfl) (.cons (.inl (by decide)) .nil)

theorem anthropic_messages :
    ReadsField anthropicFields "messages" AnthropicRequest.messages decodeMessages :=
  FieldApart.readsField rfl (fun _ _ => rfl)
    (.cons (.inr fun _ _ => rfl) (.cons (.inl (by decide)) (.cons (.inr fun _ _ => rfl) .nil)))

section

variable {Part : Type} {zero : Part} {names : List String} {fields : List (JsonField Part)}
  {type text : Part → String} {keep : Part → Bool}

variable {t : List Char}

theorem textOf_string :
    textOf zero fields keep text (Json.string t).marshal = String.ofList t := by
  have hparse : Json.parse (Json.string t).marshal = some (.string t) :=
    Json.parse_marshal (Nat.zero_le _)
  simp [textOf, Json.marshal_ne_nil, unmarshal, hparse, decodeString]

theorem textOf_array {parts : List Json} (hdepth : (Json.array parts).depth ≤ maxNestingDepth)
    {s : Slice Part}
    (hs : decodeSlice zero (decodeStruct fields) .nil (.array parts) = some s) :
    textOf zero fields keep text (Json.array parts).marshal =
      "\n".intercalate ((s.toList.filter keep).map text) := by
  have hstring : decodeString "" (.array parts) = none := rfl
  simp [textOf, Json.marshal_ne_nil, unmarshal, Json.parse_marshal hdepth, hstring, hs]

theorem mem_texts_of_part (hreads : ReadsParts names fields type text keep) {parts : List Json}
    {s : Slice Part} (hs : decodeSlice zero (decodeStruct fields) .nil (.array parts) = some s)
    {part : Json} (hpart : part ∈ parts) (htype : Unambiguous "type" part)
    (htext : Unambiguous "text" part) (ht : t ∈ partText part) (hne : t ≠ []) :
    String.ofList t ∈ (s.toList.filter keep).map text := by
  have hall := forall₂_of_mapM (mapM_of_decodeSlice_nil hs)
  obtain ⟨q, hq, hdecode⟩ := exists_right_of_forall₂ hall hpart
  unfold partText at ht
  split at ht
  case h_1 ty tx hty htx =>
    split_ifs at ht with heq
    · obtain rfl := mem_singleton.mp ht
      have hqtype := decode_of_reads hreads.readsType htype hty hdecode
      have hqtext := decode_of_reads hreads.readsText htext htx hdecode
      simp only [decodeString, Option.some.injEq] at hqtype hqtext
      refine List.mem_map.mpr ⟨q, mem_filter.mpr ⟨hq, ?_⟩, hqtext.symm⟩
      refine hreads.kept q ?_ ?_
      · rw [← hqtype, heq, String.ofList_toList]
      · rw [← hqtext]
        intro hempty
        exact hne (by simpa using congrArg String.toList hempty)
    · cases ht
  case h_2 => cases ht

theorem infix_textOf (hreads : ReadsParts names fields type text keep) {content : Json}
    (hdepth : content.depth ≤ maxNestingDepth)
    (hparts : ∀ parts, content = .array parts → ∀ part ∈ parts,
      HasTexts names part ∧ Unambiguous "type" part ∧ Unambiguous "text" part)
    (ht : t ∈ contentTexts content) (hne : t ≠ []) :
    t <:+: (textOf zero fields keep text content.marshal).toList := by
  cases content with
  | string value =>
    rw [mem_singleton.mp ht, textOf_string, String.toList_ofList]
  | array parts =>
    have hplain := hparts parts rfl
    obtain ⟨s, hs⟩ := @decodeSlice_takes _ zero _ parts
      (fun part hpart => hreads.takes.decodeStruct (hplain part hpart).1) .nil
    obtain ⟨part, hpart, ht⟩ := mem_flatMap.mp ht
    obtain ⟨-, htype, htext⟩ := hplain part hpart
    rw [textOf_array hdepth hs]
    have hinside := @infix_intercalate "\n" _ _
      (mem_texts_of_part hreads hs hpart htype htext ht hne)
    rwa [String.toList_ofList] at hinside
  | _ => cases ht

theorem infix_prompt (hreads : ReadsParts names fields type text keep) {items : List Json}
    (hdepth : (Json.array items).depth ≤ maxNestingDepth) {s : Slice Message}
    (hs : decodeMessages .nil (.array items) = some s) {msg content : Json} (hmsg : msg ∈ items)
    (hplain : PlainMessage names msg)
    (hrole : member "role" msg = some (.string "user".toList))
    (hcontent : member "content" msg = some content) (ht : t ∈ contentTexts content)
    (hne : t ≠ []) :
    t <:+: ("\n".intercalate (roleTexts "user" (s.toList.map fun m =>
      (m.role, textOf zero fields keep text m.content)))).toList := by
  have hall := forall₂_of_mapM (mapM_of_decodeSlice_nil hs)
  obtain ⟨m, hm, hdecode⟩ := exists_right_of_forall₂ hall hmsg
  have hmrole := decode_of_reads message_role hplain.role hrole hdecode
  have hmcontent := decode_of_reads message_content hplain.content hcontent hdecode
  simp only [decodeString, decodeRaw, Option.some.injEq, String.ofList_toList] at hmrole hmcontent
  have hcontentDepth : content.depth ≤ maxNestingDepth :=
    ((depth_member hcontent).trans (depth_item hmsg)).trans hdepth
  have hinside : t <:+: (textOf zero fields keep text m.content).toList := by
    rw [← hmcontent]
    exact infix_textOf hreads hcontentDepth (fun parts hparts =>
      hplain.parts parts (hparts ▸ hcontent)) ht hne
  have hnonempty : textOf zero fields keep text m.content ≠ "" := by
    intro hempty
    rw [hempty] at hinside
    exact hne (eq_nil_of_infix_nil hinside)
  refine hinside.trans (infix_intercalate ?_)
  refine mem_filter.mpr ⟨List.mem_map.mpr ⟨(m.role, _), mem_filter.mpr
    ⟨List.mem_map.mpr ⟨m, hm, rfl⟩, ?_⟩, rfl⟩, ?_⟩
  · simp [← hmrole]
  · simpa using hnonempty

end

theorem decodeMessages_takes {items : List Json} (h : ∀ msg ∈ items, HasTexts ["role"] msg) :
    Decoder.Takes decodeMessages (.array items) :=
  decodeSlice_takes fun msg hmsg => message_takes.decodeStruct (h msg hmsg)

theorem tools_takes {v : Json} (h : ListsTexts ["name", "description"] v) :
    Decoder.Takes (decodeSlice ⟨"", "", []⟩ (decodeStruct anthropicToolFields)) v := by
  have htool : TakesTexts ["name", "description"] anthropicToolFields :=
    .text (by decide) (.text (by decide) (.raw .nil))
  cases v with
  | null => exact fun _ => ⟨.nil, rfl⟩
  | array items => exact decodeSlice_takes fun tool hmem => htool.decodeStruct (h tool hmem)
  | _ => cases h

section

variable {v : Json} {items : List Json}

theorem Plain.takes_messages (h : Plain v) (hitems : member "messages" v = some (.array items))
    {members : List (List Char × Json)} (hv : v = .object members) :
    ∀ m ∈ members, hasName "messages" m = true → Decoder.Takes decodeMessages m.2 := by
  obtain ⟨_, hobject, hvalues⟩ := values_of_unambiguous h.messages hitems
  cases hv.symm.trans hobject
  intro m hm hname
  have hmem : m.2 ∈ (members.filter (hasName "messages")).map (·.2) :=
    List.mem_map_of_mem (mem_filter.mpr ⟨hm, hname⟩)
  rw [hvalues] at hmem
  rw [mem_singleton.mp hmem]
  exact decodeMessages_takes (h.roles items hitems)

theorem Plain.takes_chat (h : Plain v) (hitems : member "messages" v = some (.array items)) :
    Decoder.Takes (decodeStruct chatFields) v := by
  obtain ⟨members, hv, -⟩ := exists_of_member hitems
  have hmessages := h.takes_messages hitems hv
  rw [hv]
  refine decodeStruct_takes fun m hm f hf hname => ?_
  obtain rfl := mem_singleton.mp hf
  exact jsonField_takes (hmessages m hm hname)

theorem Plain.takes_anthropic (h : Plain v) (hsystem : hasKey "system" v = true)
    (hitems : member "messages" v = some (.array items)) :
    Decoder.Takes (decodeStruct anthropicFields) v := by
  obtain ⟨members, hv, -⟩ := exists_of_member hitems
  have hmessages := h.takes_messages hitems hv
  have htools := h.tools hsystem members hv
  rw [hv]
  refine decodeStruct_takes fun m hm f hf hname => ?_
  simp only [anthropicFields, mem_cons, not_mem_nil, or_false] at hf
  rcases hf with rfl | rfl | rfl
  · exact jsonField_takes (decodeRaw_takes m.2)
  · exact jsonField_takes (hmessages m hm hname)
  · exact jsonField_takes (tools_takes (htools m hm hname))

end

/-- The parser of its format finds every user text of a plain body. -/
theorem Plain.parseRequest {body : Bytes} {v : Json} (h : Plain v)
    (hparse : Json.parse body = some v) {text : List Char} (htext : UserText v text) :
    ∃ prompt documents, parseRequest (formatOf v) body = some (prompt, documents) ∧
      text <:+: prompt.toList := by
  obtain ⟨items, msg, content, hitems, hmsg, hrole, hcontent, hmem, hne⟩ := htext
  have hdepth := (depth_member hitems).trans h.depth
  have hplain := h.users items hitems msg hmsg hrole
  simp only [partNames] at hplain
  simp only [formatOf, h.input, exists_key_of_member hitems, if_true, Bool.false_eq_true, if_false]
  split_ifs at hplain ⊢ with hsystem
  · obtain ⟨req, hreq⟩ := h.takes_anthropic hsystem hitems ⟨[], .nil, .nil⟩
    have hs := decode_of_reads anthropic_messages h.messages hitems hreq
    refine ⟨"\n".intercalate (roleTexts "user" req.texts),
      [extractAnthropicSystem req.system].filter (· != ""), ?_,
      infix_prompt readsParts_block hdepth hs hmsg hplain hrole hcontent hmem hne⟩
    simp only [AzureContentSafety.parseRequest, parseAnthropicRequest, unmarshal, hparse,
      bind_some, hreq, map_some]
  · obtain ⟨req, hreq⟩ := h.takes_chat hitems ⟨.nil⟩
    have hs := decode_of_reads chat_messages h.messages hitems hreq
    refine ⟨"\n".intercalate (roleTexts "user" req.texts), roleTexts "system" req.texts, ?_,
      infix_prompt readsParts_content hdepth hs hmsg hplain hrole hcontent hmem hne⟩
    simp only [AzureContentSafety.parseRequest, parseChatRequest, unmarshal, hparse, bind_some,
      hreq, map_some]

def blockConfig : AzureContentSafetyConfig :=
  ⟨"block", false, none, none, none, none, [], false, false, ""⟩

def quietClient : Client Unit where
  shieldPrompt _ _ := .ok ⟨none, []⟩
  analyzeText _ _ := .ok ⟨[]⟩
  detectProtectedMaterial _ := .ok ⟨none⟩
  analyzeTaskAdherence _ _ := .ok ⟨false, ""⟩

def noTask (_ : ApiFormat) (_ : Bytes) : Except String Unit := .ok ()

def attackMessages : List Char × Json :=
  ("messages".toList, .array [.object
    [("role".toList, .string "user".toList), ("content".toList, .string "attack".toList)]])

/-- The messages alone, and with an `input` before them. -/
def chatJson : Json := .object [attackMessages]

def inputJson (input : Json) : Json := .object [("input".toList, input), attackMessages]

def chatBody : Bytes :=
  ascii "\x7b\"messages\":[\x7b\"role\":\"user\",\"content\":\"attack\"\x7d]\x7d"

def inputBody : Bytes :=
  ascii ("\x7b\"input\":\"hi\"," ++
    "\"messages\":[\x7b\"role\":\"user\",\"content\":\"attack\"\x7d]\x7d")

def nullBody : Bytes :=
  ascii ("\x7b\"input\":null," ++
    "\"messages\":[\x7b\"role\":\"user\",\"content\":\"attack\"\x7d]\x7d")

theorem read_of_marshal {body : Bytes} {v : Json} (h : body = v.marshal) :
    Json.read body = some v := by
  rw [h, Json.read_marshal]

theorem userText_of_member {v : Json} (h : member "messages" v = some attackMessages.2) :
    UserText v "attack".toList :=
  ⟨_, _, .string "attack".toList, h, mem_singleton_self _, rfl, rfl,
    mem_singleton_self _, by decide⟩

theorem plain_chatJson : Plain chatJson where
  depth := by decide
  input := by decide +kernel
  messages := by
    intro members hmembers
    cases hmembers
    exact length_filter_le _ _
  roles := by
    intro items hitems msg hmsg
    cases hitems
    obtain rfl := mem_singleton.mp hmsg
    intro m hm name hname hrole
    simp only [mem_cons, not_mem_nil, or_false] at hm
    rcases hm with rfl | rfl
    · trivial
    · trivial
  users := by
    intro items hitems msg hmsg _
    cases hitems
    obtain rfl := mem_singleton.mp hmsg
    refine ⟨?_, ?_, ?_⟩
    · intro members hmembers
      cases hmembers
      decide +kernel
    · intro members hmembers
      cases hmembers
      decide +kernel
    · intro parts hparts
      cases hparts
  tools := fun hsystem => absurd hsystem (by decide +kernel)

end BuiltOnEnvoy.AzureContentSafety
