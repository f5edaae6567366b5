import BuiltOnEnvoy.Bedrock.Wire

/-!
# Masked texts on their way to the next guardrail

The texts that `replaceUserPrompts` puts into a request are read again by
`parseChatRequest` when the next guardrail is applied, and should come back as they
were. They do when the last message is a user message, no text put in place of a
string has a character whose Go escape JSON does not know, and only empty texts are
put in place of lists of parts: a single part is not a list, and no text is read
from it.
-/

namespace BuiltOnEnvoy.Bedrock

open List hiding utf8Encode
open Foundations Option

def StringContent (content : Bytes) : Prop := ∃ text, Json.parse content = some (.string text)

def PartsContent (content : Bytes) : Prop :=
  ∃ items parts, Json.parse content = some (.array items) ∧ decodeParts (.array items) = some parts

/-- The text put in place of a content is read back. -/
def Readable (printable : Char → Bool) (msg : ChatMessage) (text : String) : Prop :=
  (StringContent msg.content → text.toList.all (hasJsonEscape printable) = true) ∧
    (PartsContent msg.content → text = "")

section

variable {Rest : Type} (codec : Codec Rest)

def isUser (msg : ChatMessage) : Bool := decide (msg.role = "user")

def putText (msg : ChatMessage) (text : String) : ChatMessage :=
  { msg with content := replacedContent codec msg.content text }

def RoundTrips (body : Bytes) (texts : List String) : Prop :=
  ∃ out, replaceUserPrompts codec body texts = some out ∧ parseChatRequest codec out = .ok texts

variable {codec}

variable {texts : List String}

/-- With a text for every user message, the loop fails at a message after the last of them. -/
theorem replaceMessages_eq {index : ℕ} {ms : List ChatMessage}
    (h : index + userCount ms = texts.length) :
    replaceMessages codec texts index ms =
      if ∀ msg ∈ ms.getLast?, msg.role = "user" then
        some (List.zipWith (putText codec) (ms.filter isUser) (texts.drop index))
      else none := by
  induction ms generalizing index with
  | nil => simp [replaceMessages]
  | cons msg ms ih =>
    rw [replaceMessages]
    by_cases hrole : msg.role = "user"
    · have hcount : userCount (msg :: ms) = userCount ms + 1 := by simp [userCount, hrole]
      have hindex : index < texts.length := by omega
      have htext : texts.getD index "" = texts[index] := by simp [hindex]
      have hlast : (∀ m ∈ (msg :: ms).getLast?, m.role = "user") ↔
          ∀ m ∈ ms.getLast?, m.role = "user" := by
        cases ms with
        | nil => simp [hrole]
        | cons _ _ => rw [getLast?_cons_cons]
      rw [if_neg (by omega), if_neg (by simp [hrole]), ih (by omega)]
      simp only [hlast]
      split_ifs
      · rw [map_some, filter_cons_of_pos (by simp [isUser, hrole]),
          drop_eq_getElem_cons hindex, zipWith_cons_cons, htext]
        rfl
      · rfl
    · have hcount : userCount (msg :: ms) = userCount ms := by simp [userCount, hrole]
      by_cases hend : index = texts.length
      · -- no user message is left, so the last message is not one
        have hnone : userCount (msg :: ms) = 0 := by omega
        obtain ⟨m, hm⟩ : ∃ m, (msg :: ms).getLast? = some m :=
          ⟨_, getLast?_eq_some_getLast (cons_ne_nil msg ms)⟩
        rw [userCount, countP_eq_zero] at hnone
        have hlast : ¬ ∀ msg' ∈ (msg :: ms).getLast?, msg'.role = "user" := by
          intro hall
          exact absurd (hall m hm) (by simpa using hnone m (mem_of_getLast? hm))
        rw [if_pos hend, if_neg hlast]
      · have hne : ms ≠ [] := by
          rintro rfl
          have hzero : userCount [] = 0 := rfl
          omega
        rw [if_neg hend, if_pos hrole, ih (by omega),
          filter_cons_of_neg (by simp [isUser, hrole])]
        obtain ⟨m, ms, rfl⟩ := exists_cons_of_ne_nil hne
        rw [getLast?_cons_cons]

theorem replaceUserPrompts_eq_some_iff {body : Bytes} {req : ChatRequest Rest}
    {ms : List ChatMessage} (hbody : codec.unmarshalRequest body = .ok req)
    (hloop : replaceMessages codec texts 0 req.messages = some ms) (out : Bytes) :
    replaceUserPrompts codec body texts = some out ↔
      codec.marshalRequest { req with messages := ms } = .ok out := by
  rw [replaceUserPrompts, hbody]
  simp only [hloop]
  cases codec.marshalRequest { req with messages := ms } <;> simp [Except.toOption]

theorem roundTrips_iff_map {body : Bytes} :
    RoundTrips codec body texts ↔
      (replaceUserPrompts codec body texts).map (parseChatRequest codec) = some (.ok texts) :=
  map_eq_some_iff.symm

end

section

variable {Rest : Type} {lib : Library} {rest : RestCodec Rest}

theorem replacedContent_string {content : Bytes} (h : StringContent content) (text : String) :
    replacedContent (goCodec lib rest) content text =
      utf8Encode (goQuote lib.printable text.toList) := by
  obtain ⟨old, hold⟩ := h
  have htext : isText (goCodec lib rest) content = false := by
    simp [isText, goCodec_unmarshalParts, hold, decodeParts_string]
  have hstring : isString (goCodec lib rest) content = true := by
    simp [isString, goCodec_unmarshalString, hold, decodeString, Json.ne_nil_of_parse hold]
  rw [replacedContent, htext, hstring, goCodec_quote]
  rfl

theorem replacedContent_parts {content : Bytes} (h : PartsContent content) (text : String) :
    replacedContent (goCodec lib rest) content text = (partJson ⟨"text", text⟩).marshal := by
  obtain ⟨items, parts, hitems, hparts⟩ := h
  have htext : isText (goCodec lib rest) content = true := by
    simp [isText, goCodec_unmarshalParts, hitems, hparts, Json.ne_nil_of_parse hitems]
  rw [replacedContent, htext, goCodec_marshalPart]
  rfl

variable {raw : Bytes}

theorem rereadRaw_of_parse {v : Json} (h : Json.parse raw = some v) :
    rereadRaw raw = v.marshal := by
  rw [rereadRaw, h, map_some, getD_some]

theorem parse_rereadRaw {v : Json} (h : Json.parse raw = some v) :
    Json.parse (rereadRaw raw) = some v := by
  rw [rereadRaw_of_parse h, Json.parse_marshal (Json.depth_of_parse h)]

theorem extractContent_of_string {text : List Char} (h : Json.parse raw = some (.string text)) :
    extractContent (goCodec lib rest) raw = String.ofList text := by
  simp [extractContent, Json.ne_nil_of_parse h, goCodec_unmarshalString, h, decodeString]

theorem extractContent_of_part {part : ContentPart} (h : Json.parse raw = some (partJson part)) :
    extractContent (goCodec lib rest) raw = "" := by
  have hstring : decodeString "" (partJson part) = none := rfl
  simp [extractContent, Json.ne_nil_of_parse h, goCodec_unmarshalString, goCodec_unmarshalParts, h,
    hstring, decodeParts_partJson]

/-- What became of the content: it is JSON, within the limits, and the text is read back. -/
theorem readable_iff {msg : ChatMessage}
    (h : StringContent msg.content ∨ PartsContent msg.content) (text : String) :
    ((Json.parse (putText (goCodec lib rest) msg text).content).isSome ∧
      extractContent (goCodec lib rest)
        (rereadRaw (putText (goCodec lib rest) msg text).content) = text) ↔
      Readable lib.printable msg text := by
  rcases h with hstring | hparts
  · have hno : ¬ PartsContent msg.content := by
      rintro ⟨items, parts, hitems, -⟩
      obtain ⟨old, hold⟩ := hstring
      cases hold.symm.trans hitems
    have hparse : Json.parse (utf8Encode (goQuote lib.printable text.toList)) =
        if text.toList.all (hasJsonEscape lib.printable) then some (.string text.toList)
        else none :=
      parse_goQuote text.toList
    simp only [putText, replacedContent_string hstring, Readable, hstring, hno, true_implies,
      false_implies, and_true]
    split_ifs at hparse with hall
    · simp [hparse, hall, extractContent_of_string (parse_rereadRaw hparse)]
    · simp [hparse, hall]
  · have hno : ¬ StringContent msg.content := by
      rintro ⟨old, hold⟩
      obtain ⟨items, parts, hitems, -⟩ := hparts
      cases hold.symm.trans hitems
    have hparse := parse_partJson ⟨"text", text⟩
    simp only [putText, replacedContent_parts hparts, Readable, hparts, hno, true_implies,
      false_implies, true_and, extractContent_of_part (parse_rereadRaw hparse), hparse,
      isSome_some]
    exact eq_comm

theorem shallowContent_putText {msg : ChatMessage}
    (h : StringContent msg.content ∨ PartsContent msg.content) (text : String) :
    ShallowContent (putText (goCodec lib rest) msg text) := by
  intro v hv
  rcases h with hstring | hparts
  · rw [putText, replacedContent_string hstring, parse_goQuote] at hv
    split_ifs at hv
    cases hv
    simp [Json.depth, maxNestingDepth]
  · rw [putText, replacedContent_parts hparts, parse_partJson] at hv
    cases hv
    simp [partJson, jsonString, Json.depth, Json.depthMembers, maxNestingDepth]

theorem putText_content_ne_nil {msg : ChatMessage}
    (h : StringContent msg.content ∨ PartsContent msg.content) (text : String) :
    (putText (goCodec lib rest) msg text).content ≠ [] := by
  rcases h with hstring | hparts
  · rw [putText, replacedContent_string hstring, goQuote]
    simp [utf8Encode, String.utf8EncodeChar]
  · rw [putText, replacedContent_parts hparts]
    exact Json.ne_nil_of_parse (parse_partJson _)

end

section

variable {Rest : Type} {lib : Library} {rest : RestCodec Rest}

theorem readable_zipWith_iff {users : List ChatMessage} {texts : List String}
    (hcontents : ∀ msg ∈ users, StringContent msg.content ∨ PartsContent msg.content)
    (hlength : users.length = texts.length) :
    ((∀ msg ∈ List.zipWith (putText (goCodec lib rest)) users texts,
        (Json.parse msg.content).isSome) ∧
      (List.zipWith (putText (goCodec lib rest)) users texts).map
        (fun msg => extractContent (goCodec lib rest) (rereadRaw msg.content)) = texts) ↔
      List.Forall₂ (Readable lib.printable) users texts := by
  induction users generalizing texts with
  | nil =>
    obtain rfl : texts = [] := length_eq_zero_iff.mp hlength.symm
    simp
  | cons msg users ih =>
    cases texts with
    | nil => cases hlength
    | cons text texts =>
      obtain ⟨hcontent, hcontents⟩ := forall_mem_cons.mp hcontents
      rw [forall₂_cons, ← readable_iff hcontent text,
        ← ih hcontents (Nat.succ.inj hlength), zipWith_cons_cons, forall_mem_cons,
        map_cons, List.cons.injEq]
      exact and_and_and_comm

theorem mem_zipWith_putText {codec : Codec Rest} {users : List ChatMessage} {texts : List String}
    {msg : ChatMessage} (h : msg ∈ List.zipWith (putText codec) users texts) :
    ∃ old ∈ users, ∃ text, msg = putText codec old text := by
  rw [← map_uncurry_zip_eq_zipWith] at h
  obtain ⟨⟨old, text⟩, hmem, rfl⟩ := List.mem_map.mp h
  exact ⟨old, (of_mem_zip hmem).1, text, rfl⟩

theorem parseChatRequest_of_marshal {req : ChatRequest Rest} (hreq : Decoded rest req)
    {masked : List ChatMessage} (hroles : ∀ msg ∈ masked, msg.role = "user")
    (hcalls : ∀ msg ∈ masked, ShallowCalls msg) (hcontents : ∀ msg ∈ masked, ShallowContent msg)
    {out : Bytes}
    (hout : (goCodec lib rest).marshalRequest { req with messages := masked } = .ok out) :
    parseChatRequest (goCodec lib rest) out =
      .ok (masked.map fun msg => extractContent (goCodec lib rest) (rereadRaw msg.content)) := by
  obtain ⟨r, hr⟩ := unmarshal_marshal hreq hcalls hcontents hout
  have hall : (masked.map rereadMessage).filter (·.role == "user") = masked.map rereadMessage := by
    refine filter_eq_self.mpr fun msg hmsg => ?_
    obtain ⟨old, hold, rfl⟩ := List.mem_map.mp hmsg
    simpa [rereadMessage] using hroles old hold
  rw [parseChatRequest, hr, Except.map, hall, List.map_map]
  rfl

/-- The texts are read back exactly when nothing comes after the last user message and each of
them can be read in its place. -/
theorem roundTrips_iff (lib : Library) (rest : RestCodec Rest) (body : Bytes)
    (req : ChatRequest Rest) (hbody : (goCodec lib rest).unmarshalRequest body = .ok req)
    (hcontents : ∀ msg ∈ req.messages, msg.role = "user" →
      StringContent msg.content ∨ PartsContent msg.content)
    (texts : List String) (htexts : texts.length = userCount req.messages) :
    RoundTrips (goCodec lib rest) body texts ↔
      (∀ msg ∈ req.messages.getLast?, msg.role = "user") ∧
        List.Forall₂ (Readable lib.printable) (req.messages.filter isUser) texts := by
  have hloop : replaceMessages (goCodec lib rest) texts 0 req.messages =
      if ∀ msg ∈ req.messages.getLast?, msg.role = "user" then
        some (List.zipWith (putText (goCodec lib rest)) (req.messages.filter isUser) texts)
      else none :=
    replaceMessages_eq (by omega)
  by_cases hlast : ∀ msg ∈ req.messages.getLast?, msg.role = "user"
  · rw [if_pos hlast] at hloop
    have husers : ∀ msg ∈ req.messages.filter isUser,
        StringContent msg.content ∨ PartsContent msg.content := by
      intro msg hmsg
      obtain ⟨hmem, huser⟩ := mem_filter.mp hmsg
      exact hcontents msg hmem (of_decide_eq_true huser)
    have hlength : (req.messages.filter isUser).length = texts.length := by
      rw [htexts, userCount, countP_eq_length_filter]
      rfl
    have hreadable := @readable_zipWith_iff Rest lib rest _ _ husers hlength
    have hdecoded := decoded_of_unmarshal hbody
    generalize hmasked : List.zipWith (putText (goCodec lib rest)) (req.messages.filter isUser)
      texts = masked at hloop hreadable
    have hnew : ∀ msg ∈ masked, msg.role = "user" ∧ ShallowCalls msg ∧ ShallowContent msg ∧
        msg.content ≠ [] := by
      intro msg hmsg
      rw [← hmasked] at hmsg
      obtain ⟨old, hold, text, rfl⟩ := mem_zipWith_putText hmsg
      obtain ⟨hmem, huser⟩ := mem_filter.mp hold
      exact ⟨of_decide_eq_true huser, hdecoded.calls old hmem,
        shallowContent_putText (husers old hold) text,
        putText_content_ne_nil (husers old hold) text⟩
    have hmarshal := @marshalRequest_ok_iff Rest rest lib req masked
      fun msg hmsg => (hnew msg hmsg).2.1
    have hreplace := replaceUserPrompts_eq_some_iff hbody hloop
    have hparse := @parseChatRequest_of_marshal Rest lib rest req hdecoded masked
      (fun msg hmsg => (hnew msg hmsg).1) (fun msg hmsg => (hnew msg hmsg).2.1)
      fun msg hmsg => (hnew msg hmsg).2.2.1
    rw [← hreadable, and_iff_right hlast]
    constructor
    · rintro ⟨out, hout, htext⟩
      rw [hreplace] at hout
      refine ⟨fun msg hmsg => (hmarshal.mp ⟨out, hout⟩ msg hmsg).resolve_left
        (hnew msg hmsg).2.2.2, ?_⟩
      rw [hparse hout] at htext
      exact Except.ok.inj htext
    · rintro ⟨hjson, htext⟩
      obtain ⟨out, hout⟩ := hmarshal.mpr fun msg hmsg => .inr (hjson msg hmsg)
      exact ⟨out, (hreplace out).mpr hout, by rw [hparse hout, htext]⟩
  · rw [if_neg hlast] at hloop
    simp only [hlast, false_and, iff_false]
    rintro ⟨out, hout, -⟩
    rw [replaceUserPrompts, hbody] at hout
    simp [hloop] at hout

end

deriving instance DecidableEq for ChatRequest

/-- A string takes a text without control characters. -/
theorem promptOnly_roundTrips :
    RoundTrips modelJsonCodec (encodeMessages promptOnly) ["[NAME]"] := by
  have hcontent : StringContent (quoted "hi") := by
    have hquoted : quoted "hi" = (Json.string "hi".toList).marshal := by decide +kernel
    exact ⟨"hi".toList, by rw [hquoted, Json.parse_marshal (Nat.zero_le _)]⟩
  have hparts : ¬ PartsContent (quoted "hi") := by
    rintro ⟨items, parts, hitems, -⟩
    obtain ⟨text, htext⟩ := hcontent
    cases htext.symm.trans hitems
  refine (roundTrips_iff sampleLibrary modelCodec _ ⟨promptOnly, ""⟩ (by decide +kernel) ?_
    ["[NAME]"] (by decide)).mpr ⟨by simp [promptOnly, plainMessage], ?_⟩
  · intro msg hmsg _
    rw [mem_singleton.mp hmsg]
    exact .inl hcontent
  · exact .cons ⟨fun _ => by decide +kernel, fun h => absurd h hparts⟩ .nil

/-- A bell in a string makes the replacement fail, as does a message after the last user message;
from what is put in place of parts no text is read. -/
theorem masked_text_lost :
    modelJsonCodec.unmarshalRequest (encodeMessages promptParts) = .ok ⟨promptParts, ""⟩ ∧
      (replaceUserPrompts modelJsonCodec (encodeMessages promptParts) ["[NAME]"]).map
        (parseChatRequest modelJsonCodec) = some (.ok [""]) ∧
      ¬ RoundTrips modelJsonCodec (encodeMessages promptParts) ["[NAME]"] ∧
      replaceUserPrompts modelJsonCodec (encodeMessages promptOnly) ["\x07"] = none ∧
      ¬ RoundTrips modelJsonCodec (encodeMessages promptOnly) ["\x07"] ∧
      replaceUserPrompts modelJsonCodec (encodeMessages answerLast) ["[NAME]"] = none ∧
      ¬ RoundTrips modelJsonCodec (encodeMessages answerLast) ["[NAME]"] := by
  have hparts : (replaceUserPrompts modelJsonCodec (encodeMessages promptParts) ["[NAME]"]).map
      (parseChatRequest modelJsonCodec) = some (.ok [""]) := by decide +kernel
  have hbell : replaceUserPrompts modelJsonCodec (encodeMessages promptOnly) ["\x07"] = none := by
    decide +kernel
  have hanswer : replaceUserPrompts modelJsonCodec (encodeMessages answerLast) ["[NAME]"] =
      none := by decide +kernel
  refine ⟨by decide +kernel, hparts, ?_, hbell, ?_, hanswer, ?_⟩
  · rw [roundTrips_iff_map, hparts]
    decide
  · rw [roundTrips_iff_map, hbell]
    simp
  · rw [roundTrips_iff_map, hanswer]
    simp

end BuiltOnEnvoy.Bedrock
