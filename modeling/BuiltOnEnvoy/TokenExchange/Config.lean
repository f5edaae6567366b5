import BuiltOnEnvoy.Foundations.Base64
import BuiltOnEnvoy.Foundations.FormEncoding

/-!
# The token exchange request

`parseConfig` of the token exchange filter prepares the request to the token
service: the credentials and all of the form but the value of its last field. A
request adds the presented token. The server splits the credentials at their first
colon and form-decodes both sides, but the filter does not form-encode them.

Go strings are byte lists. JSON, `url.Parse` and `%q` are calls of the library.
-/

namespace BuiltOnEnvoy.TokenExchange

open Foundations List

structure TokenExchangeConfig where
  cluster : Bytes
  tokenExchangeURL : Bytes
  clientID : Bytes
  clientSecret : Bytes
  subjectTokenType : Bytes
  resource : Bytes
  audience : Bytes
  scope : Bytes
  requestedTokenType : Bytes
  actorToken : Bytes
  actorTokenType : Bytes
  timeoutMs : ℕ
  tokenExchangeHost : String := ""
  tokenExchangePath : String := ""
  calloutHeaders : List (String × String) := []
  stsPostBodyPrefix : String := ""

/-- What is read of a parsed URL. -/
structure ParsedUrl where
  host : String
  path : String
  requestURI : String
  isAbs : Bool
  fragment : String

structure Library where
  unmarshal : Bytes → Except String TokenExchangeConfig
  parseURL : Bytes → Option ParsedUrl
  quote : Bytes → String

def defaultSubjectTokenType : Bytes := ascii "urn:ietf:params:oauth:token-type:access_token"

def grantTypeTokenExchange : Bytes := ascii "urn:ietf:params:oauth:grant-type:token-exchange"

def defaultTimeoutMs : ℕ := 5000

def parseTokenExchangeURL (lib : Library) (inputURL : Bytes) : Except String (String × String) :=
  if inputURL = [] then .error "missing required field: token_exchange_url"
  else
    let parsedURL :=
      if ascii "://" <:+: inputURL then inputURL else ascii "scheme://" ++ inputURL
    let failed := .error ("token_exchange_url must contain a host and path, got " ++
      lib.quote inputURL)
    match lib.parseURL parsedURL with
    | none => failed
    | some u => if u.host = "" ∨ u.path = "" then failed else .ok (u.host, u.requestURI)

namespace TokenExchangeConfig

variable (cfg : TokenExchangeConfig)

def stsPostBody (subjectToken : Bytes) : String :=
  cfg.stsPostBodyPrefix ++ queryEscape (byteText subjectToken)

def missing (field : String) (value : Bytes) : List String :=
  if value = [] then ["missing required field: " ++ field] else []

def resourceErrors (lib : Library) (resource : Bytes) : List String :=
  let accepted : Bool := match lib.parseURL resource with
    | none => false
    | some u => u.isAbs && u.fragment = ""
  if resource ≠ [] ∧ ¬accepted then
    ["resource must be an absolute URI without fragment, got " ++ lib.quote resource]
  else []

def actorErrors : List String :=
  if cfg.actorToken ≠ [] ∧ cfg.actorTokenType = [] then
    ["actor_token_type is required when actor_token is present"]
  else []

def withDefaults : TokenExchangeConfig :=
  { cfg with
    subjectTokenType :=
      if cfg.subjectTokenType = [] then defaultSubjectTokenType else cfg.subjectTokenType
    timeoutMs := if cfg.timeoutMs = 0 then defaultTimeoutMs else cfg.timeoutMs }

def creds : String :=
  Base64.encodeStd (cfg.clientID ++ ascii ":" ++ cfg.clientSecret)

/-- A field that is left out when it is empty. -/
def optionalField (name : String) (value : Bytes) : List (String × Bytes) :=
  if value ≠ [] then [(name, value)] else []

def static : List (String × Bytes) :=
  [("grant_type", grantTypeTokenExchange), ("subject_token_type", cfg.subjectTokenType)] ++
    optionalField "requested_token_type" cfg.requestedTokenType ++
    optionalField "audience" cfg.audience ++ optionalField "resource" cfg.resource ++
    optionalField "scope" cfg.scope ++
    if cfg.actorToken ≠ [] then
      [("actor_token", cfg.actorToken), ("actor_token_type", cfg.actorTokenType)]
    else []

/-- `url.Values.Encode`, for values with one entry for each name. -/
def encodeValues (values : List (String × Bytes)) : String :=
  "&".intercalate ((values.mergeSort fun a b => a.1 ≤ b.1).map encodePair)

def precompute : TokenExchangeConfig :=
  { cfg with
    calloutHeaders := [(":method", "POST"), (":path", cfg.tokenExchangePath),
      ("host", cfg.tokenExchangeHost), ("content-type", "application/x-www-form-urlencoded"),
      ("authorization", "Basic " ++ cfg.creds)]
    stsPostBodyPrefix := encodeValues cfg.static ++ "&subject_token=" }

end TokenExchangeConfig

open TokenExchangeConfig

/-- No configuration at all is accepted too. -/
def parseConfig (lib : Library) (data : Bytes) : Except String (Option TokenExchangeConfig) :=
  if data = [] then .ok none
  else
    match lib.unmarshal data with
    | .error err => .error ("token-exchange: failed to parse config: " ++ err)
    | .ok cfg =>
      let url := parseTokenExchangeURL lib cfg.tokenExchangeURL
      let urlErrors := match url with
        | .error err => [err]
        | .ok _ => []
      let errs := missing "cluster" cfg.cluster ++ urlErrors ++ missing "client_id" cfg.clientID ++
        missing "client_secret" cfg.clientSecret ++ resourceErrors lib cfg.resource ++
        cfg.actorErrors
      match url with
      | .ok (host, path) =>
        if errs = [] then
          let cfg := { cfg with tokenExchangeHost := host, tokenExchangePath := path }
          .ok (some cfg.withDefaults.precompute)
        else .error ("token-exchange: " ++ "\n".intercalate errs)
      | .error _ => .error ("token-exchange: " ++ "\n".intercalate errs)

/-- The client id and secret of the header. -/
def decodeCredentials (authorization : String) : Option (String × String) :=
  (authorization.toList.dropPrefix? "Basic ".toList).bind fun creds =>
    (Base64.decodeStd (String.ofList creds)).bind fun bytes =>
      decodePair ':' (byteText bytes).toList

/-- The parameters that the configuration sets. -/
def TokenExchangeConfig.parameters (cfg : TokenExchangeConfig) : List (String × Bytes) :=
  [("grant_type", grantTypeTokenExchange), ("subject_token_type", cfg.subjectTokenType),
    ("requested_token_type", cfg.requestedTokenType), ("audience", cfg.audience),
    ("resource", cfg.resource), ("scope", cfg.scope), ("actor_token", cfg.actorToken),
    ("actor_token_type", cfg.actorTokenType)].filter fun p => p.2 ≠ []

def fieldNames : List String :=
  ["grant_type", "subject_token_type", "requested_token_type", "audience", "resource", "scope",
    "actor_token", "actor_token_type", "subject_token"]

/-- The server reads what was configured: the credentials, each parameter with one value and the
presented token. -/
structure Recovers (cfg : TokenExchangeConfig) (subjectToken : Bytes) : Prop where
  credentials : (cfg.calloutHeaders.lookup "authorization").bind decodeCredentials =
    some (byteText cfg.clientID, byteText cfg.clientSecret)
  form : ∃ fields, decodeForm (cfg.stsPostBody subjectToken) = some fields ∧
    (fields.map Prod.fst).Nodup ∧
    ∀ p, p ∈ fields ↔ p ∈ cfg.parameters ∨ p = ("subject_token", subjectToken)

namespace TokenExchangeConfig

variable {cfg : TokenExchangeConfig}

/-- What is accepted is prepared, and has a type for each of its tokens. -/
theorem of_parseConfig {lib : Library} {data : Bytes}
    (h : parseConfig lib data = .ok (some cfg)) :
    ∃ raw : TokenExchangeConfig, cfg = raw.precompute ∧ raw.subjectTokenType ≠ [] ∧
      (raw.actorToken ≠ [] → raw.actorTokenType ≠ []) := by
  unfold parseConfig at h
  split_ifs at h with hdata
  · cases h
  · cases hcfg : lib.unmarshal data with
    | error err => simp [hcfg] at h
    | ok raw =>
      cases hurl : parseTokenExchangeURL lib raw.tokenExchangeURL with
      | error err => simp [hcfg, hurl] at h
      | ok url =>
        simp only [hcfg, hurl] at h
        split_ifs at h with herrs
        simp only [Except.ok.injEq, Option.some.injEq] at h
        refine ⟨_, h.symm, ?_, ?_⟩
        · simp only [withDefaults]
          split_ifs with hdefault
          · decide
          · exact hdefault
        · have hactor : raw.actorErrors = [] := (append_eq_nil_iff.mp herrs).2
          simpa [actorErrors, withDefaults] using hactor

theorem filter_set_cons (name : String) (value : Bytes) (rest : List (String × Bytes)) :
    ((name, value) :: rest).filter (fun p => p.2 ≠ []) =
      optionalField name value ++ rest.filter fun p => p.2 ≠ [] := by
  by_cases h : value = [] <;> simp [optionalField, h]

/-- The form has the configured parameters if an actor token type does not stand alone. -/
theorem static_eq_parameters (hsubject : cfg.subjectTokenType ≠ [])
    (hactor : cfg.actorToken ≠ [] → cfg.actorTokenType ≠ [])
    (htype : cfg.actorTokenType ≠ [] → cfg.actorToken ≠ []) : cfg.static = cfg.parameters := by
  have hgrant : grantTypeTokenExchange ≠ [] := by decide
  have hboth : (if cfg.actorToken ≠ [] then
      [("actor_token", cfg.actorToken), ("actor_token_type", cfg.actorTokenType)] else []) =
      optionalField "actor_token" cfg.actorToken ++
        optionalField "actor_token_type" cfg.actorTokenType := by
    by_cases htoken : cfg.actorToken = []
    · simp [optionalField, htoken, not_imp_not.mp htype htoken]
    · simp [optionalField, htoken, hactor htoken]
  rw [static, hboth, parameters]
  simp only [filter_set_cons, filter_nil, append_nil, append_assoc]
  simp [optionalField, hgrant, hsubject]

theorem names_static_sublist (cfg : TokenExchangeConfig) (subjectToken : Bytes) :
    ((cfg.static ++ [("subject_token", subjectToken)]).map Prod.fst).Sublist fieldNames := by
  have hoptional : ∀ name value, ((optionalField name value).map Prod.fst).Sublist [name] := by
    intro name value
    unfold optionalField
    split_ifs <;> simp
  have hactor : ((if cfg.actorToken ≠ [] then
      [("actor_token", cfg.actorToken), ("actor_token_type", cfg.actorTokenType)]
      else []).map Prod.fst).Sublist ["actor_token", "actor_token_type"] := by
    split_ifs <;> simp
  simp only [static, map_append]
  exact ((((((Sublist.refl ["grant_type", "subject_token_type"]).append (hoptional _ _)).append
    (hoptional _ _)).append (hoptional _ _)).append (hoptional _ _)).append hactor).append
    (Sublist.refl ["subject_token"])

/-- The server reads the fields of the form, in the order of their names, and then the token. -/
theorem decodeForm_stsPostBody (cfg : TokenExchangeConfig) (subjectToken : Bytes) :
    ∃ fields, decodeForm (cfg.precompute.stsPostBody subjectToken) = some fields ∧
      fields.Perm (cfg.static ++ [("subject_token", subjectToken)]) := by
  let sorted := cfg.static.mergeSort fun a b => a.1 ≤ b.1
  have hperm : (sorted ++ [("subject_token", subjectToken)]).Perm
      (cfg.static ++ [("subject_token", subjectToken)]) := (mergeSort_perm _ _).append_right _
  have hne : sorted ≠ [] := by
    intro hnil
    have hlength := hperm.length_eq
    simp [hnil, static] at hlength
  have hbody : cfg.precompute.stsPostBody subjectToken =
      "&".intercalate ((sorted ++ [("subject_token", subjectToken)]).map encodePair) := by
    have hname : queryEscape "subject_token" = "subject_token" := by decide
    rw [map_append, String.intercalate_append_of_ne_nil (by simpa using hne) (by simp),
      map_singleton, String.intercalate_singleton, encodePair, hname]
    refine String.toList_injective ?_
    simp [stsPostBody, precompute, encodeValues, sorted]
  have hascii : ∀ name ∈ fieldNames, ∀ c ∈ name.toList, c.toNat < 256 := by
    have hall : (fieldNames.all fun name => name.toList.all fun c => c.toNat < 256) = true := by
      decide +kernel
    simpa only [List.all_eq_true, decide_eq_true_eq] using hall
  refine ⟨_, hbody ▸ decodeForm_encode (by simp) fun p hp => hascii _ ?_, hperm⟩
  exact (names_static_sublist cfg subjectToken).subset (mem_map_of_mem (hperm.mem_iff.mp hp))

theorem decodeCredentials_iff (cfg : TokenExchangeConfig) :
    (cfg.precompute.calloutHeaders.lookup "authorization").bind decodeCredentials =
        some (byteText cfg.clientID, byteText cfg.clientSecret) ↔
      ':' ∉ (byteText cfg.clientID).toList ∧ Plain (byteText cfg.clientID).toList ∧
        Plain (byteText cfg.clientSecret).toList := by
  have hheader : cfg.precompute.calloutHeaders.lookup "authorization" =
      some ("Basic " ++ cfg.creds) := rfl
  have hcreds : ("Basic " ++ cfg.creds).toList.dropPrefix? "Basic ".toList =
      some cfg.creds.toList := by
    rw [String.toList_append, dropPrefix?_eq_some_iff]
    exact ⟨_, rfl, by simp⟩
  have htext : (byteText (cfg.clientID ++ ascii ":" ++ cfg.clientSecret)).toList =
      (byteText cfg.clientID).toList ++ ':' :: (byteText cfg.clientSecret).toList := by
    simp [byteText, ascii]
  rw [hheader, Option.bind_some, decodeCredentials, hcreds, Option.bind_some,
    String.ofList_toList, creds, Base64.decodeStd_encodeStd, Option.bind_some, htext,
    decodePair_self_iff]

end TokenExchangeConfig

/-- The server reads what was configured exactly if the client id holds no colon, neither of the
credentials a plus or percent sign, and an actor token type comes with an actor token. -/
theorem recovers_iff (lib : Library) (data : Bytes) (cfg : TokenExchangeConfig)
    (h : parseConfig lib data = .ok (some cfg)) (subjectToken : Bytes) :
    Recovers cfg subjectToken ↔
      (':' ∉ (byteText cfg.clientID).toList ∧ Plain (byteText cfg.clientID).toList ∧
        Plain (byteText cfg.clientSecret).toList) ∧
        (cfg.actorTokenType ≠ [] → cfg.actorToken ≠ []) := by
  obtain ⟨raw, rfl, hsubject, hactor⟩ := of_parseConfig h
  obtain ⟨fields, hfields, hperm⟩ := decodeForm_stsPostBody raw subjectToken
  have hnodup : (fields.map Prod.fst).Nodup :=
    (hperm.map _).nodup_iff.mpr ((names_static_sublist raw subjectToken).nodup (by decide))
  have hmem : ∀ p, p ∈ fields ↔ p ∈ raw.static ∨ p = ("subject_token", subjectToken) := by
    intro p
    rw [hperm.mem_iff, mem_append, mem_singleton]
  constructor
  · rintro ⟨hcredentials, other, hother, -, hread⟩
    refine ⟨(decodeCredentials_iff raw).mp hcredentials, fun htype htoken => ?_⟩
    obtain rfl : fields = other := Option.some.inj (hfields.symm.trans hother)
    -- the type stands alone: it is configured, but no field of the form has its name
    have hset : ("actor_token_type", raw.precompute.actorTokenType) ∈
        raw.precompute.parameters := by
      simpa [parameters] using htype
    have hsent := (hmem _).mp ((hread _).mpr (.inl hset))
    simp [static, optionalField, show raw.actorToken = [] from htoken] at hsent
  · rintro ⟨hcredentials, htype⟩
    refine ⟨(decodeCredentials_iff raw).mpr hcredentials, fields, hfields, hnodup, fun p => ?_⟩
    rw [hmem, static_eq_parameters hsubject hactor htype]
    rfl

/-- A small configuration with this client id. -/
def sampleText (clientID : String) : Bytes :=
  ascii ("\x7b\"cluster\":\"sts\",\"token_exchange_url\":\"https://sts/token\",") ++
    ascii "\"client_id\":\"" ++ ascii clientID ++
    ascii "\",\"client_secret\":\"s\",\"audience\":\"a b\"\x7d"

def sampleLibrary (clientID : String) : Library where
  unmarshal := fun data =>
    if data = sampleText clientID then
      .ok { cluster := ascii "sts", tokenExchangeURL := ascii "https://sts/token"
            clientID := ascii clientID, clientSecret := ascii "s", subjectTokenType := []
            resource := [], audience := ascii "a b", scope := [], requestedTokenType := []
            actorToken := [], actorTokenType := [], timeoutMs := 0 }
    else .error "unexpected end of JSON input"
  parseURL := fun url =>
    if url = ascii "https://sts/token" then some ⟨"sts", "/token", "/token", true, ""⟩ else none
  quote := byteText

theorem plain_client_recovered :
    ∃ cfg, parseConfig (sampleLibrary "client") (sampleText "client") = .ok (some cfg) ∧
      Recovers cfg (ascii "a+b&c=d") :=
  ⟨_, rfl, (recovers_iff (sampleLibrary "client") (sampleText "client") _ rfl _).mpr
    ⟨⟨by decide, ⟨by decide, by decide⟩, by decide, by decide⟩, fun h => absurd rfl h⟩⟩

/-- The server takes a client id with a colon for a shorter one. -/
theorem colon_client_not_recovered :
    ∃ cfg, parseConfig (sampleLibrary "urn:client") (sampleText "urn:client") = .ok (some cfg) ∧
      ¬Recovers cfg (ascii "token") := by
  refine ⟨_, rfl, fun hrecovers => ?_⟩
  exact ((decodeCredentials_iff _).mp hrecovers.credentials).1 (by decide)

end BuiltOnEnvoy.TokenExchange
