import BuiltOnEnvoy.Bedrock.Guardrails

/-!
# Masked conversations

A guardrail may answer with masked texts, one for each user message, which are
put into the request in place of the texts of the user messages. Nothing else of
the conversation should change. `replaceUserPrompts` leaves out every message of
another role, stops with an error at a message after the last user message, and
makes a single part out of a list of parts; so it does what it should exactly on
conversations of user messages with plain strings.
-/

namespace BuiltOnEnvoy.Bedrock

open Foundations List

variable {Rest : Type} (codec : Codec Rest)

/-- The text of a content is replaced and its shape is kept. -/
inductive TextReplaced (text : String) : Bytes → Bytes → Prop
  | string {old new : Bytes} (hstring : isString codec old = true)
      (htext : isText codec old = false) (hnew : codec.unmarshalString new = some text)
      (hparts : codec.unmarshalParts new = none) :
      TextReplaced text old new
  | parts {old new : Bytes} {oldParts newParts : List ContentPart}
      (hstring : isString codec old = false) (hold : codec.unmarshalParts old = some oldParts)
      (hnew : codec.unmarshalParts new = some newParts)
      (htext : extractContent codec new = text)
      (hother : (newParts.filter fun p => p.type ≠ "text") =
        oldParts.filter fun p => p.type ≠ "text") :
      TextReplaced text old new
  /-- `null`, which decodes as both, and what decodes as neither hold no text. -/
  | none {old : Bytes} (hshape : isString codec old = isText codec old) :
      TextReplaced text old old

/-- The same messages, with the texts of the user messages replaced in order. -/
inductive Masked : List ChatMessage → List String → List ChatMessage → Prop
  | nil : Masked [] [] []
  | other {msg : ChatMessage} {ms ms' : List ChatMessage} {texts : List String}
      (hrole : msg.role ≠ "user") (hrest : Masked ms texts ms') :
      Masked (msg :: ms) texts (msg :: ms')
  | user {msg : ChatMessage} {ms ms' : List ChatMessage} {text : String} {texts : List String}
      {content : Bytes} (hrole : msg.role = "user")
      (hcontent : TextReplaced codec text msg.content content) (hrest : Masked ms texts ms') :
      Masked (msg :: ms) (text :: texts) ({ msg with content := content } :: ms')

/-- The replacement succeeds with the encoding of the masked conversation. -/
def PreservesConversation (body : Bytes) (req : ChatRequest Rest) (texts : List String) : Prop :=
  ∃ ms out, replaceMessages codec texts 0 req.messages = some ms ∧
    codec.marshalRequest { req with messages := ms } = .ok out ∧
    replaceUserPrompts codec body texts = some out ∧ Masked codec req.messages texts ms

/-- A user message whose content is absent, or a string in whose place the quoted text
is a JSON string for that text. -/
def Maskable (msg : ChatMessage) (text : String) : Prop :=
  msg.role = "user" ∧
    (msg.content = [] ∨ isString codec msg.content = true ∧ isText codec msg.content = false ∧
      codec.unmarshalString (codec.quote text) = some text)

/-- What the standard library does with contents: an encoded part and a quoted text are not lists,
and a decoded request can be encoded again with other contents that are absent or strings. -/
structure Codec.Lawful (codec : Codec Rest) : Prop where
  marshalPart : ∀ part, codec.unmarshalParts (codec.marshalPart part) = none
  quote : ∀ text, codec.unmarshalParts (codec.quote text) = none
  marshalRequest : ∀ body req ms, codec.unmarshalRequest body = .ok req →
    List.Forall₂ (fun old new => new = { old with content := new.content } ∧
      (new.content = [] ∨ (codec.unmarshalString new.content).isSome)) req.messages ms →
    ∃ out, codec.marshalRequest { req with messages := ms } = .ok out

variable {codec}

/-- The number of messages with the role `user`. -/
def userCount (ms : List ChatMessage) : ℕ :=
  ms.countP fun msg => msg.role = "user"

variable {texts : List String}

theorem Masked.length_eq {ms ms' : List ChatMessage} (h : Masked codec ms texts ms') :
    ms'.length = ms.length := by
  induction h with
  | nil => rfl
  | other _ _ ih => simp [ih]
  | user _ _ _ ih => simp [ih]

theorem length_of_replaceMessages {index : ℕ} {ms ms' : List ChatMessage}
    (h : replaceMessages codec texts index ms = some ms') : ms'.length = userCount ms := by
  induction ms generalizing index ms' with
  | nil =>
    cases h
    rfl
  | cons msg ms ih =>
    rw [replaceMessages] at h
    split_ifs at h with hend hrole
    · rw [ih h]
      simp [userCount, hrole]
    · obtain ⟨rest, hrest, rfl⟩ := Option.map_eq_some_iff.mp h
      rw [length_cons, ih hrest]
      simp [userCount, not_not.mp hrole]

variable {ms : List ChatMessage}

theorem replaceMessages_of_users {index : ℕ} (hroles : ∀ msg ∈ ms, msg.role = "user")
    (hlength : index + ms.length ≤ texts.length) :
    replaceMessages codec texts index ms =
      some (List.zipWith (fun msg text =>
        { msg with content := replacedContent codec msg.content text }) ms (texts.drop index)) := by
  induction ms generalizing index with
  | nil => simp [replaceMessages]
  | cons msg ms ih =>
    obtain ⟨hrole, hroles⟩ := forall_mem_cons.mp hroles
    rw [length_cons] at hlength
    have hindex : index < texts.length := by omega
    have htext : texts.getD index "" = texts[index] := by simp [hindex]
    rw [replaceMessages, if_neg (by omega), if_neg (by simp [hrole]),
      ih hroles (by omega), drop_eq_getElem_cons hindex, zipWith_cons_cons,
      Option.map_some, htext]

theorem textReplaced_iff (hcodec : codec.Lawful) (text : String) (content : Bytes) :
    TextReplaced codec text content (replacedContent codec content text) ↔
      content = [] ∨ isString codec content = true ∧ isText codec content = false ∧
        codec.unmarshalString (codec.quote text) = some text := by
  unfold replacedContent
  cases htext : isText codec content with
  | true =>
    -- one part is not a list of parts, and so it is not `null` either
    have hparts : (codec.unmarshalParts content).isSome := by
      simp only [isText, Bool.and_eq_true] at htext
      exact htext.2
    have hne : content ≠ [] := by
      rintro rfl
      simp [isText] at htext
    simp only [if_true, Bool.true_eq_false, false_and, and_false, or_false, hne, iff_false]
    intro h
    generalize hnew : codec.marshalPart ⟨"text", text⟩ = new at h
    have hnone : codec.unmarshalParts new = none := hnew ▸ hcodec.marshalPart _
    cases h with
    | string _ htext' => simp [htext] at htext'
    | parts _ _ hnew' => simp [hnone] at hnew'
    | none => simp [hnone] at hparts
  | false =>
    cases hstring : isString codec content with
    | true =>
      have hne : content ≠ [] := by
        rintro rfl
        simp [isString] at hstring
      simp only [Bool.false_eq_true, if_false, if_true, hne, false_or, true_and]
      constructor
      · intro h
        generalize hnew : codec.quote text = new at h ⊢
        cases h with
        | string _ _ hnew' => exact hnew'
        | parts hstring' => simp [hstring] at hstring'
        | none hshape => simp [hstring, htext] at hshape
      · intro h
        exact .string hstring htext h (hcodec.quote text)
    | false =>
      simp only [Bool.false_eq_true, if_false, false_and, or_false]
      have hkept : ∀ new, TextReplaced codec text content new → new = [] → content = [] := by
        intro new h hnew
        cases h with
        | string hstring' => simp [hstring] at hstring'
        | parts _ hold => simpa [isText, hold] using htext
        | none => exact hnew
      constructor
      · intro h
        exact hkept [] h rfl
      · rintro rfl
        exact .none (by rw [hstring, htext])

theorem masked_zipWith_iff (hcodec : codec.Lawful) (hroles : ∀ msg ∈ ms, msg.role = "user")
    (hlength : ms.length = texts.length) :
    Masked codec ms texts (List.zipWith (fun msg text =>
        { msg with content := replacedContent codec msg.content text }) ms texts) ↔
      List.Forall₂ (Maskable codec) ms texts := by
  induction ms generalizing texts with
  | nil =>
    obtain rfl : texts = [] := length_eq_zero_iff.mp hlength.symm
    exact ⟨fun _ => .nil, fun _ => .nil⟩
  | cons msg ms ih =>
    obtain ⟨hrole, hroles⟩ := forall_mem_cons.mp hroles
    cases texts with
    | nil => cases hlength
    | cons text texts =>
      have hrest := ih hroles (Nat.succ.inj hlength)
      rw [zipWith_cons_cons, forall₂_cons, ← hrest, Maskable,
        ← textReplaced_iff hcodec]
      constructor
      · generalize hnew : replacedContent codec msg.content text = content
        intro h
        generalize hmsg : ({ msg with content := content } : ChatMessage) = new at h
        cases h with
        | other hrole' => exact absurd hrole hrole'
        | user _ hcontent htail =>
          cases hmsg
          exact ⟨⟨hrole, hcontent⟩, htail⟩
      · rintro ⟨⟨-, hcontent⟩, htail⟩
        exact .user hrole hcontent htail

theorem forall₂_replaced (h : List.Forall₂ (Maskable codec) ms texts) :
    List.Forall₂ (fun old new : ChatMessage => new = { old with content := new.content } ∧
        (new.content = [] ∨ (codec.unmarshalString new.content).isSome)) ms
      (List.zipWith (fun msg text =>
        { msg with content := replacedContent codec msg.content text }) ms texts) := by
  induction h with
  | nil => exact .nil
  | cons hmsg _ ih =>
    refine .cons ⟨rfl, ?_⟩ ih
    rcases hmsg.2 with hempty | ⟨hstring, htext, hquote⟩
    · exact .inl (by simp [replacedContent, hempty, isText, isString])
    · exact .inr (by simp [replacedContent, hstring, htext, hquote])

theorem roles_of_userCount (h : userCount ms = ms.length) :
    ∀ msg ∈ ms, msg.role = "user" := by
  simpa [userCount, countP_eq_length] using h

def plainMessage (role : String) (content : Bytes) : ChatMessage := ⟨role, content, none, none, []⟩

def quoted (text : String) : Bytes := 0x22 :: (ascii text ++ [0x22])

def partsContent : Bytes := ascii "[\x7b\"type\":\"text\",\"text\":\"hi\"\x7d]"

def encodeMessage (msg : ChatMessage) : Bytes :=
  ascii "\x7b\"role\":" ++ quoted msg.role ++ ascii ",\"content\":" ++ msg.content ++ ascii "\x7d"

def encodeMessages (ms : List ChatMessage) : Bytes :=
  ascii "\x7b\"messages\":[" ++ (ascii ",").intercalate (ms.map encodeMessage) ++
    ascii "],\"model\":\"\"\x7d"

def promptOnly : List ChatMessage := [plainMessage "user" (quoted "hi")]

def systemFirst : List ChatMessage :=
  [plainMessage "system" (quoted "be kind"), plainMessage "user" (quoted "hi")]

def answerLast : List ChatMessage :=
  [plainMessage "user" (quoted "hi"), plainMessage "assistant" (quoted "hello")]

def promptParts : List ChatMessage := [plainMessage "user" partsContent]

/-- The JSON calls on the four conversations and on texts that need no escapes. -/
def plainCodec : Codec Unit where
  unmarshalRequest body :=
    match [promptOnly, systemFirst, answerLast, promptParts].find? (encodeMessages · = body) with
    | some ms => .ok ⟨ms, ()⟩
    | none => .error "invalid request"
  marshalRequest req := .ok (encodeMessages req.messages)
  unmarshalString raw :=
    match raw with
    | 0x22 :: rest =>
      if rest.getLast? = some 0x22 ∧ 0x22 ∉ rest.dropLast ∧ 0x5C ∉ rest.dropLast then
        some (String.ofList (rest.dropLast.map fun b => Char.ofNat b.toNat))
      else none
    | _ => none
  unmarshalParts raw :=
    if raw = ascii "null" then some []
    else if raw = partsContent then some [⟨"text", "hi"⟩]
    else none
  marshalPart part :=
    0x7B :: (ascii "\"type\":" ++ quoted part.type ++ ascii ",\"text\":" ++ quoted part.text ++
      ascii "\x7d")
  quote text := quoted text
  marshalApply _ := []
  unmarshalResponse _ := .error "not needed"

theorem plainCodec_lawful : plainCodec.Lawful where
  marshalPart part := by simp [plainCodec, ascii, partsContent]
  quote text := by simp [plainCodec, ascii, partsContent, quoted]
  marshalRequest _ req ms _ _ := ⟨encodeMessages ms, rfl⟩

end BuiltOnEnvoy.Bedrock
