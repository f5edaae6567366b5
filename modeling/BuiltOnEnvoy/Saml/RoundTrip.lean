import BuiltOnEnvoy.Foundations.JsonDecode
import BuiltOnEnvoy.Saml.Gate

/-!
# The round trip of a session

A session is written as JSON into a signed token, the token into a cookie, and
the cookie comes back among others. Here the JSON form is the one that
`encoding/json` gives the structure; only the text of a time and the tag stay
open.
-/

namespace BuiltOnEnvoy.Saml

open Foundations List Option

/-- The RFC 3339 text of a time. Times with a year above 9999 have none. -/
structure TimeFormat where
  format : ℤ → Except String (List Char)
  parse : List Char → Option ℤ
  parse_format : ∀ {time text}, format time = .ok text → parse text = some time

/-- A nil slice is written as `null`. -/
def valuesJson (isNil : Bool) (values : List String) : Json :=
  if values = [] ∧ isNil then .null else .array (values.map fun value => .string (runes value))

/-- The keys of a map are written in their order. -/
def attributesJson (isNil : String → Bool) (attributes : GoMap String (List String)) : Json :=
  .object ((attributes.entries.mergeSort fun e e' => e.1 ≤ e'.1).map fun e =>
    (runes e.1, valuesJson (isNil e.1) e.2))

/-- An empty map is left out. -/
def sessionJson (isNil : String → Bool) (data : SessionData) (expires : List Char) : Json :=
  .object (("sub".toList, .string (runes data.nameID)) ::
    ((if data.attributes.entries = [] then []
      else [("attrs".toList, attributesJson isNil data.attributes)]) ++
      [("exp".toList, .string expires)]))

def marshalSession (times : TimeFormat) (isNil : String → Bool) (data : SessionData) :
    Except String (List UInt8) :=
  match times.format data.expiresAt with
  | .error err => .error ("json: error calling MarshalJSON for type time.Time: " ++ err)
  | .ok expires => .ok (sessionJson isNil data expires).marshal

/-- A string with one character for each byte. -/
def decodeText : Decoder String
  | s, .null => some s
  | _, .string value => some (ofRunes value)
  | _, _ => none

/-- The values of an attribute, stored into a nil slice. -/
def decodeValues : Decoder (List String) := fun _ v =>
  (decodeSlice "" decodeText .nil v).map Slice.toList

def decodeTime (times : TimeFormat) : Decoder ℤ
  | t, .null => some t
  | _, .string text => times.parse text
  | _, _ => none

def subField : JsonField SessionData :=
  jsonField "sub" (·.nameID) (fun s v => { s with nameID := v }) decodeText

def attrsField : JsonField SessionData :=
  jsonField "attrs" (·.attributes) (fun s v => { s with attributes := v })
    (decodeMap ofRunes [] decodeValues)

def expField (times : TimeFormat) : JsonField SessionData :=
  jsonField "exp" (·.expiresAt) (fun s v => { s with expiresAt := v }) (decodeTime times)

def sessionFields (times : TimeFormat) : List (JsonField SessionData) :=
  [subField, attrsField, expField times]

/-- The zero time is the start of the year 1. -/
def SessionData.zero : SessionData := ⟨"", .empty, -62135596800000000000⟩

/-- The codec of the filter. The texts of decoding errors stay open. -/
def sessionCodec (computeHMAC : List UInt8 → String → List UInt8) (times : TimeFormat)
    (isNil : String → Bool) (decodeError : List UInt8 → String) : Codec where
  computeHMAC := computeHMAC
  marshal := marshalSession times isNil
  unmarshal payload :=
    match unmarshal (decodeStruct (sessionFields times)) .zero payload with
    | some data => .ok data
    | none => .error (decodeError payload)

/-- The name and the attributes are valid UTF-8. -/
structure SessionData.IsUtf8 (data : SessionData) : Prop where
  nameID : Foundations.IsUtf8 data.nameID
  attributes : ∀ e ∈ data.attributes.entries,
    Foundations.IsUtf8 e.1 ∧ ∀ value ∈ e.2, Foundations.IsUtf8 value

theorem decodeText_string {text : String} (h : IsUtf8 text) (old : String) :
    decodeText old (.string (runes text)) = some text :=
  congrArg some h

theorem decodeValues_valuesJson {values : List String} (h : ∀ value ∈ values, IsUtf8 value)
    (isNil : Bool) : decodeValues [] (valuesJson isNil values) = some values := by
  unfold valuesJson
  split_ifs with hnil
  · rw [hnil.1]
    rfl
  · refine toList_decodeSlice_nil ?_
    refine mapM_of_forall₂ ?_
    rw [forall₂_map_left_iff, forall₂_same]
    exact fun value hvalue => decodeText_string (h value hvalue) ""

/-- The members of the written map are stored back in the order of their keys. -/
theorem decodeMap_attributesJson {attributes : GoMap String (List String)}
    (h : ∀ e ∈ attributes.entries, IsUtf8 e.1 ∧ ∀ value ∈ e.2, IsUtf8 value)
    (isNil : String → Bool) :
    ∃ read, decodeMap ofRunes [] decodeValues .empty (attributesJson isNil attributes) = some read ∧
      read.entries.Perm attributes.entries := by
  have hperm := attributes.entries.mergeSort_perm fun e e' => e.1 ≤ e'.1
  have hnodup : (([] ++ attributes.entries.mergeSort fun e e' => e.1 ≤ e'.1).map Prod.fst).Nodup :=
    ((hperm.map Prod.fst).nodup_iff).mpr attributes.nodup
  obtain ⟨read, hread, hentries⟩ := @foldlM_decodeEntry _ _ _ ofRunes [] decodeValues
    (fun e => (runes e.1, valuesJson (isNil e.1) e.2)) _
    (fun e he => ⟨(h e (hperm.mem_iff.mp he)).1,
      decodeValues_valuesJson (h e (hperm.mem_iff.mp he)).2 (isNil e.1)⟩) .empty hnodup
  exact ⟨read, hread, by rw [hentries]; exact hperm⟩

theorem depth_valuesJson (isNil : Bool) (values : List String) :
    (valuesJson isNil values).depth ≤ 1 := by
  unfold valuesJson
  split_ifs
  · simp [Json.depth]
  · rw [Json.depth, Nat.add_le_add_iff_right, Json.depthItems_le, List.forall_mem_map]
    exact fun value _ => (Json.depth.eq_def _).le

theorem depth_attributesJson (isNil : String → Bool) (attributes : GoMap String (List String)) :
    (attributesJson isNil attributes).depth ≤ 2 := by
  rw [attributesJson, Json.depth, Nat.add_le_add_iff_right, Json.depthMembers_le,
    List.forall_mem_map]
  exact fun e _ => depth_valuesJson (isNil e.1) e.2

theorem depth_sessionJson (isNil : String → Bool) (data : SessionData) (expires : List Char) :
    (sessionJson isNil data expires).depth ≤ maxNestingDepth := by
  have hattributes := depth_attributesJson isNil data.attributes
  have hdepth : (sessionJson isNil data expires).depth ≤ 2 + 1 := by
    rw [sessionJson, Json.depth, Nat.add_le_add_iff_right, Json.depthMembers_le,
      forall_mem_cons, forall_mem_append]
    refine ⟨by simp [Json.depth], ?_, by simp [Json.depth]⟩
    split_ifs
    · simp
    · simpa using hattributes
  exact hdepth.trans (by decide)

section

variable (times : TimeFormat) (s : SessionData) (v : Json)

theorem decodeMember_sub : decodeMember (sessionFields times) s ("sub".toList, v) =
    (decodeText s.nameID v).map fun name => { s with nameID := name } := by
  have hfield : fieldOf (sessionFields times) "sub".toList = some subField := rfl
  exact decodeMember_jsonField hfield s v

theorem decodeMember_attrs : decodeMember (sessionFields times) s ("attrs".toList, v) =
    (decodeMap ofRunes [] decodeValues s.attributes v).map fun attributes =>
      { s with attributes := attributes } := by
  have hfield : fieldOf (sessionFields times) "attrs".toList = some attrsField := rfl
  exact decodeMember_jsonField hfield s v

theorem decodeMember_exp : decodeMember (sessionFields times) s ("exp".toList, v) =
    (decodeTime times s.expiresAt v).map fun expires => { s with expiresAt := expires } := by
  have hfield : fieldOf (sessionFields times) "exp".toList = some (expField times) := by
    simp [fieldOf, sessionFields, subField, attrsField, expField, jsonField]
  exact decodeMember_jsonField hfield s v

end

/-- What is stored back has the name, the time and, in some order, the attributes. -/
theorem decodeStruct_sessionJson {times : TimeFormat} {data : SessionData} {expires : List Char}
    (h : data.IsUtf8) (hexpires : times.parse expires = some data.expiresAt)
    (isNil : String → Bool) :
    ∃ read, decodeStruct (sessionFields times) .zero (sessionJson isNil data expires) = some read ∧
      read.nameID = data.nameID ∧ read.attributes.entries.Perm data.attributes.entries ∧
      read.expiresAt = data.expiresAt := by
  have hsub := decodeText_string h.nameID SessionData.zero.nameID
  have hexp : ∀ old, decodeTime times old (.string expires) = some data.expiresAt :=
    fun _ => hexpires
  by_cases hempty : data.attributes.entries = []
  · refine ⟨⟨data.nameID, .empty, data.expiresAt⟩, ?_, rfl, by rw [hempty]; rfl, rfl⟩
    rw [sessionJson, if_pos hempty, nil_append, decodeStruct, foldlM_cons,
      decodeMember_sub, hsub, map_some, bind_eq_bind, bind_some,
      foldlM_singleton, decodeMember_exp, hexp]
    rfl
  · obtain ⟨read, hread, hperm⟩ := decodeMap_attributesJson h.attributes isNil
    refine ⟨⟨data.nameID, read, data.expiresAt⟩, ?_, rfl, hperm, rfl⟩
    rw [sessionJson, if_neg hempty, singleton_append, decodeStruct, foldlM_cons,
      decodeMember_sub, hsub, map_some, bind_eq_bind, bind_some,
      foldlM_cons, decodeMember_attrs]
    change ((decodeMap ofRunes [] decodeValues .empty _).map _).bind _ = _
    rw [hread, map_some, bind_some, foldlM_singleton, decodeMember_exp, hexp]
    rfl

section

variable {computeHMAC : List UInt8 → String → List UInt8} {times : TimeFormat}
  {isNil : String → Bool} {decodeError : List UInt8 → String}

variable {data : SessionData}

theorem unmarshal_marshal {payload : List UInt8} (h : data.IsUtf8)
    (hpayload : (sessionCodec computeHMAC times isNil decodeError).marshal data = .ok payload) :
    ∃ read, (sessionCodec computeHMAC times isNil decodeError).unmarshal payload = .ok read ∧
      read.nameID = data.nameID ∧ read.attributes.entries.Perm data.attributes.entries ∧
      read.expiresAt = data.expiresAt := by
  change marshalSession times isNil data = .ok payload at hpayload
  unfold marshalSession at hpayload
  cases hexpires : times.format data.expiresAt with
  | error err => simp [hexpires] at hpayload
  | ok expires =>
    simp only [hexpires, Except.ok.injEq] at hpayload
    obtain ⟨read, hread, hsame⟩ :=
      decodeStruct_sessionJson h (times.parse_format hexpires) isNil
    refine ⟨read, ?_, hsame⟩
    have hunmarshal : unmarshal (decodeStruct (sessionFields times)) .zero payload = some read := by
      rw [unmarshal, ← hpayload, Json.parse_marshal (depth_sessionJson isNil data expires)]
      exact hread
    simp only [sessionCodec, hunmarshal]

theorem createSessionToken_isOk_iff (signingKey : List UInt8) (data : SessionData) :
    (∃ token, createSessionToken (sessionCodec computeHMAC times isNil decodeError) signingKey
      data = .ok token) ↔ ∃ expires, times.format data.expiresAt = .ok expires := by
  have hmarshal : (sessionCodec computeHMAC times isNil decodeError).marshal data =
      marshalSession times isNil data := rfl
  cases hexpires : times.format data.expiresAt with
  | error err | ok expires => simp [createSessionToken, hmarshal, marshalSession, hexpires]

theorem createSessionToken_eq_ok {codec : Codec} {signingKey : List UInt8} {token : String}
    (h : createSessionToken codec signingKey data = .ok token) :
    ∃ payload, codec.marshal data = .ok payload ∧ token = Base64.encode payload ++ "." ++
      Base64.encode (codec.computeHMAC signingKey (Base64.encode payload)) := by
  unfold createSessionToken at h
  cases hpayload : codec.marshal data with
  | error err => simp [hpayload] at h
  | ok payload =>
    simp only [hpayload, Except.ok.injEq] at h
    exact ⟨payload, rfl, h.symm⟩

/-- The token of a session validates, with the key that signed it, until the session expires. -/
theorem validateSessionToken_createSessionToken {signingKey : List UInt8} {token : String}
    {now : ℤ} (h : data.IsUtf8)
    (htoken : createSessionToken (sessionCodec computeHMAC times isNil decodeError) signingKey
      data = .ok token)
    (hnow : now ≤ data.expiresAt) :
    ∃ read, validateSessionToken (sessionCodec computeHMAC times isNil decodeError) signingKey
        token now = .ok read ∧
      read.nameID = data.nameID ∧ read.attributes.entries.Perm data.attributes.entries := by
  obtain ⟨payload, hpayload, rfl⟩ := createSessionToken_eq_ok htoken
  obtain ⟨read, hread, hname, hattributes, hexpires⟩ := unmarshal_marshal h hpayload
  refine ⟨read, ?_, hname, hattributes⟩
  have hsplit := @splitToken_append (Base64.encode payload) _ (dot_notMem_encode
    ((sessionCodec computeHMAC times isNil decodeError).computeHMAC signingKey
      (Base64.encode payload)))
  have hfresh : ¬read.expiresAt < now := by
    rw [hexpires]
    exact not_lt.mpr hnow
  simp only [validateSessionToken, hsplit, Base64.decode_encode, ne_eq, not_true_eq_false,
    if_false, hread, hfresh]

end

/-- A cookie of a `Cookie` header. -/
structure Cookie where
  name : List Char
  value : List Char
  name_equals : '=' ∉ name
  name_semicolon : ';' ∉ name
  name_space : name.head? ≠ some ' '
  value_semicolon : ';' ∉ value

def Cookie.pair (c : Cookie) : List Char := c.name ++ '=' :: c.value

/-- A cookie after some spaces. -/
def spaced (c : ℕ × Cookie) : List Char := List.replicate c.1 ' ' ++ c.2.pair

def cookieHeader (parts : List (List Char)) : String :=
  String.ofList ([';'].intercalate parts)

/-- The part of a `Set-Cookie` header that comes back. -/
def cookiePair (setCookie : String) : List Char :=
  setCookie.toList.takeWhile (· ≠ ';')

theorem parseCookiePair_spaced (c : ℕ × Cookie) :
    parseCookiePair (spaced c) = (String.ofList c.2.name, String.ofList c.2.value) := by
  have htrim : (spaced c).dropWhile (· = ' ') = c.2.pair := by
    rw [spaced, dropWhile_append_of_pos (by simp)]
    have hspace := c.2.name_space
    rw [Cookie.pair]
    cases hname : c.2.name with
    | nil => simp
    | cons first rest =>
      have hfirst : first ≠ ' ' := by simpa [hname] using hspace
      simp [hfirst]
  have hname : ∀ a ∈ c.2.name, decide (a ≠ '=') = true := by
    intro a ha
    rw [decide_eq_true_eq]
    rintro rfl
    exact c.2.name_equals ha
  rw [parseCookiePair, htrim, Cookie.pair, takeWhile_append_of_pos hname,
    dropWhile_append_of_pos hname]
  simp

theorem semicolon_notMem_spaced (c : ℕ × Cookie) : ';' ∉ spaced c := by
  intro hmem
  rcases mem_append.mp hmem with hmem | hmem
  · exact absurd (eq_of_mem_replicate hmem) (by decide)
  · rcases mem_append.mp hmem with hmem | hmem
    · exact c.2.name_semicolon hmem
    · rcases mem_cons.mp hmem with hmem | hmem
      · exact absurd hmem (by decide)
      · exact c.2.value_semicolon hmem

theorem splitCookies_cookieHeader {cookies : List (ℕ × Cookie)} (h : cookies ≠ []) :
    splitCookies (cookieHeader (cookies.map spaced)) = cookies.map spaced := by
  rw [splitCookies, cookieHeader, String.toList_ofList]
  refine splitOn_intercalate ';' ?_ (by simpa using h)
  rw [List.forall_mem_map]
  exact fun c _ => semicolon_notMem_spaced c

theorem extractSessionCookie_cookieHeader {before after : List (ℕ × Cookie)} {c : ℕ × Cookie}
    (h : ∀ other ∈ before, String.ofList other.2.name ≠ String.ofList c.2.name) :
    extractSessionCookie (cookieHeader ((before ++ c :: after).map spaced))
      (String.ofList c.2.name) = String.ofList c.2.value := by
  have hfind : (splitCookies (cookieHeader ((before ++ c :: after).map spaced))).find?
      (fun part => (parseCookiePair part).1 = String.ofList c.2.name) = some (spaced c) := by
    rw [splitCookies_cookieHeader (by simp), map_append, find?_append,
      find?_eq_none.mpr, none_or, map_cons, find?_cons_of_pos]
    · simp [parseCookiePair_spaced]
    · rw [List.forall_mem_map]
      intro other hmem
      simpa [parseCookiePair_spaced] using h other hmem
  simp only [extractSessionCookie, hfind, parseCookiePair_spaced]

theorem cookiePair_buildSessionCookie {cfg : Config} {token : String}
    (hname : ';' ∉ cfg.cookieName.toList) (htoken : ';' ∉ token.toList) :
    cookiePair (buildSessionCookie cfg token) = cfg.cookieName.toList ++ '=' :: token.toList := by
  have hkeep : ∀ a ∈ cfg.cookieName.toList ++ '=' :: token.toList, decide (a ≠ ';') = true := by
    intro a ha
    rw [decide_eq_true_eq]
    rintro rfl
    simp [hname, htoken] at ha
  have htext : ∃ rest, (buildSessionCookie cfg token).toList =
      (cfg.cookieName.toList ++ '=' :: token.toList) ++ ';' :: rest := by
    simp [buildSessionCookie, String.toList_append]
  obtain ⟨rest, hrest⟩ := htext
  rw [cookiePair, hrest, takeWhile_append_of_pos hkeep]
  simp

theorem semicolon_notMem_token {codec : Codec} {signingKey : List UInt8} {data : SessionData}
    {token : String} (h : createSessionToken codec signingKey data = .ok token) :
    ';' ∉ token.toList := by
  obtain ⟨payload, -, rfl⟩ := createSessionToken_eq_ok h
  have hencode : ∀ bytes, ';' ∉ (Base64.encode bytes).toList :=
    fun bytes hmem => Base64.sextet_of_mem_encode hmem (by decide)
  simp [String.toList_append, hencode]

/-- The cookie of a session, sent back among cookies with other names, is read as the
session it was made from. -/
theorem session_roundTrip (computeHMAC : List UInt8 → String → List UInt8) (times : TimeFormat)
    (isNil : String → Bool) (decodeError : List UInt8 → String) (cfg : Config)
    {session : SessionData} {token : String} {now : ℤ} {spaces : ℕ}
    {before after : List (ℕ × Cookie)} (hutf8 : session.IsUtf8) (hnow : now ≤ session.expiresAt)
    (hequals : '=' ∉ cfg.cookieName.toList) (hsemicolon : ';' ∉ cfg.cookieName.toList)
    (hspace : cfg.cookieName.toList.head? ≠ some ' ')
    (htoken : createSessionToken (sessionCodec computeHMAC times isNil decodeError)
      cfg.cookieSigningKey session = .ok token)
    (hothers : ∀ other ∈ before ++ after, String.ofList other.2.name ≠ cfg.cookieName) :
    ∃ read, validateSessionToken (sessionCodec computeHMAC times isNil decodeError)
        cfg.cookieSigningKey (extractSessionCookie (cookieHeader (before.map spaced ++
          (List.replicate spaces ' ' ++ cookiePair (buildSessionCookie cfg token)) ::
            after.map spaced)) cfg.cookieName) now = .ok read ∧
      read.nameID = session.nameID ∧
      ∀ name, read.attributes.get? name = session.attributes.get? name := by
  obtain ⟨read, hread, hnameID, hattributes⟩ :=
    validateSessionToken_createSessionToken hutf8 htoken hnow
  refine ⟨read, ?_, hnameID, GoMap.get?_eq_of_perm hattributes⟩
  have hplain := semicolon_notMem_token htoken
  let issued : Cookie := ⟨cfg.cookieName.toList, token.toList, hequals, hsemicolon, hspace, hplain⟩
  have hissued : List.replicate spaces ' ' ++ cookiePair (buildSessionCookie cfg token) =
      spaced (spaces, issued) := by
    rw [cookiePair_buildSessionCookie hsemicolon hplain]
    rfl
  have hname : cfg.cookieName = String.ofList issued.name := String.ofList_toList.symm
  have hvalue : String.ofList issued.value = token := String.ofList_toList
  have hextract :=
    @extractSessionCookie_cookieHeader before after (spaces, issued) fun other hmem =>
      hname ▸ hothers other (mem_append_left after hmem)
  rw [map_append, map_cons, hvalue, ← hname] at hextract
  rw [hissued, hextract, hread]

/-- Only the start of 1970 has a text. -/
def epochFormat : TimeFormat where
  format time := if time = 0 then .ok "1970-01-01T00:00:00Z".toList else .error "no such time"
  parse text := if text = "1970-01-01T00:00:00Z".toList then some 0 else none
  parse_format := by
    intro time text h
    split_ifs at h with htime
    rw [Except.ok.injEq] at h
    rw [← h, if_pos rfl, htime]

/-- A session whose name and attribute have letters of two bytes. -/
def zoeSession : SessionData where
  nameID := ofRunes ['Z', 'o', '\u00eb']
  attributes := ⟨[("Role", ["admin", ofRunes ['\u00e9']])], List.nodup_singleton _⟩
  expiresAt := 0

def themeCookie : Cookie :=
  ⟨"theme".toList, "a=b".toList, by decide, by decide, by decide, by decide⟩

theorem zoeSession_isUtf8 : zoeSession.IsUtf8 where
  nameID := isUtf8_ofRunes _
  attributes := by
    have hrole : IsUtf8 "Role" ∧ IsUtf8 "admin" := by decide +kernel
    simp [zoeSession, hrole, isUtf8_ofRunes]

def zoeCodec : Codec := sessionCodec (fun _ _ => [1, 2]) epochFormat (fun _ => false) fun _ => ""

theorem zoeSession_roundTrip : ∃ token,
    createSessionToken zoeCodec roleConfig.cookieSigningKey zoeSession = .ok token ∧
    ∃ read, validateSessionToken zoeCodec roleConfig.cookieSigningKey
        (extractSessionCookie (cookieHeader ([(0, themeCookie)].map spaced ++
          (List.replicate 1 ' ' ++ cookiePair (buildSessionCookie roleConfig token)) ::
            [(1, themeCookie)].map spaced)) roleConfig.cookieName) (-1) = .ok read ∧
      read.nameID = zoeSession.nameID ∧
      ∀ name, read.attributes.get? name = zoeSession.attributes.get? name := by
  have hformat : epochFormat.format zoeSession.expiresAt = .ok "1970-01-01T00:00:00Z".toList := rfl
  obtain ⟨token, htoken⟩ := (createSessionToken_isOk_iff roleConfig.cookieSigningKey
    zoeSession).mpr ⟨_, hformat⟩
  refine ⟨token, htoken, ?_⟩
  exact session_roundTrip _ _ _ _ roleConfig zoeSession_isUtf8 (by decide) (by decide) (by decide)
    (by decide) htoken (by decide)

end BuiltOnEnvoy.Saml
