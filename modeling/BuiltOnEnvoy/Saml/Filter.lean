import BuiltOnEnvoy.Foundations.CaseFolding
import BuiltOnEnvoy.Foundations.Headers
import BuiltOnEnvoy.Saml.Session

/-!
# The SAML filter

The request callbacks of one stream. The metadata of the identity provider can
arrive between two callbacks, so each callback brings its own view of it. XML,
URLs and the SAML protocol itself are behind `Library`.
-/

namespace BuiltOnEnvoy.Saml

open Foundations

structure IDPMetadata where
  entityID : String
  ssoURL : String
  /-- The parsed document, which only the library reads. -/
  descriptor : List UInt8

structure Url where
  scheme : String
  host : String

structure Attribute where
  name : String
  friendlyName : String
  values : List String

structure Assertion where
  /-- The name of the subject, when there is one. -/
  nameID : Option String
  attributeStatements : List (List Attribute)

/-- The error of the library's validation, with the cause it keeps private. -/
structure ResponseError where
  text : String
  privateErr : Option String

structure Library extends Codec where
  parseQuery : List UInt8 → Except String (List (String × String))
  /-- `base64.StdEncoding`. -/
  decodeStd : String → Except String (List UInt8)
  urlParse : String → Except String Url
  parseXMLResponse : Config → IDPMetadata → List UInt8 → Url → Except ResponseError Assertion
  generateAuthnRequest : Config → IDPMetadata → String → String → String → Except String String
  generateSPMetadata : Config → IDPMetadata → Except String (List UInt8)
  urlString : String → String → String → String
  folding : CaseFolding := .plain

/-- A failed call, with its public message, or a nil dereference. -/
inductive AcsError
  | failure (message : String)
  | panic

structure AssertionResult where
  nameID : String
  attributes : GoMap String (List String)

def buildACSURL (cfg : Config) (scheme host : String) : String :=
  (if scheme = "" then "https" else scheme) ++ "://" ++ host ++ cfg.acsPath

def extractSAMLError (err : ResponseError) : AcsError :=
  match err.privateErr with
  | some _ => .failure "failed to validate SAML response: Authentication failed"
  | none => .failure ("failed to validate SAML response: " ++ err.text)

def extractAttributes (assertion : Assertion) : GoMap String (List String) :=
  assertion.attributeStatements.flatten.foldl
    (fun attrs attr =>
      if attr.values ≠ [] then
        attrs.set (if attr.name = "" then attr.friendlyName else attr.name) attr.values
      else attrs)
    .empty

/-- The URL is dereferenced without a look at the error of its parser. -/
def validateSAMLResponse (lib : Library) (cfg : Config) (idpMeta : IDPMetadata)
    (responseXML : List UInt8) (requestScheme requestHost : String) :
    Except AcsError AssertionResult :=
  match lib.urlParse (buildACSURL cfg requestScheme requestHost) with
  | .error _ => .error .panic
  | .ok acsURL =>
    match lib.parseXMLResponse cfg idpMeta responseXML acsURL with
    | .error err => .error (extractSAMLError err)
    | .ok assertion =>
      let nameID := assertion.nameID.getD ""
      if nameID = "" then .error (.failure "no NameID found in SAML assertion")
      else .ok ⟨nameID, extractAttributes assertion⟩

/-- Relative paths, and URLs with the origin of the entity. -/
def isSafeRedirectURL (lib : Library) (target entityID : String) : Bool :=
  if "/".toList.isPrefixOf target.toList ∧ ¬"//".toList.isPrefixOf target.toList then true
  else
    match lib.urlParse target, lib.urlParse entityID with
    | .ok targetURL, .ok entityURL =>
      lib.folding.equalFold targetURL.scheme entityURL.scheme &&
        lib.folding.equalFold targetURL.host entityURL.host
    | _, _ => false

/-- `values.Get`. -/
def getValue (values : List (String × String)) (key : String) : String :=
  (values.lookup key).getD ""

def handleACSPost (lib : Library) (cfg : Config) (idpMeta : IDPMetadata) (body : List UInt8)
    (requestScheme requestHost : String) (now : ℤ) : Except AcsError (SessionData × String) :=
  match lib.parseQuery body with
  | .error err => .error (.failure ("failed to parse ACS POST body: " ++ err))
  | .ok values =>
    let samlResponseB64 := getValue values "SAMLResponse"
    if samlResponseB64 = "" then
      .error (.failure "SAMLResponse not found in ACS POST body")
    else
      match lib.decodeStd samlResponseB64 with
      | .error err => .error (.failure ("failed to decode SAMLResponse: " ++ err))
      | .ok samlResponseXML =>
        match validateSAMLResponse lib cfg idpMeta samlResponseXML requestScheme requestHost with
        | .error .panic => .error .panic
        | .error (.failure message) =>
          .error (.failure ("SAML assertion validation failed: " ++ message))
        | .ok result =>
          let relayState := getValue values "RelayState"
          let redirectURL :=
            if relayState ≠ "" ∧ isSafeRedirectURL lib relayState cfg.entityID then relayState
            else cfg.defaultRedirectPath
          .ok (⟨result.nameID, result.attributes, now + cfg.sessionDuration⟩, redirectURL)

/-- The counters that were defined. -/
structure SamlMetrics where
  hasAuthnRequests : Bool
  hasAssertionsValidated : Bool
  hasSessionsCreated : Bool
  hasSessionsValidated : Bool

inductive Metric
  | authnRequests
  | assertionsValidated (result : String)
  | sessionsCreated
  | sessionsValidated (result : String)
  deriving DecidableEq

structure Filter where
  cfg : Config
  metrics : Option SamlMetrics
  isACSRequest : Bool := false
  requestScheme : String := ""
  requestHost : String := ""
  requestID : String := ""

/-- The filter that the factory makes for a stream. Its metrics are not set. -/
def Filter.create (cfg : Config) : Filter where
  cfg := cfg
  metrics := none

/-- One increment, when the filter has metrics and this one is defined. -/
def Filter.increment (f : Filter) (defined : SamlMetrics → Bool) (metric : Metric) : List Metric :=
  match f.metrics with
  | some m => if defined m then [metric] else []
  | none => []

structure LocalResponse where
  status : ℕ
  headers : List (String × String)
  body : List UInt8
  details : String

/-- What a callback answers; a callback that panics does not answer. -/
inductive Status
  | continue
  | stop
  | stopAndBuffer
  | stopNoBuffer
  | panicked
  deriving DecidableEq

structure Outcome where
  filter : Filter
  status : Status
  response : Option LocalResponse
  /-- The request headers as the callback leaves them. -/
  headers : Headers
  counted : List Metric

def text (message : String) : List UInt8 :=
  message.toList.map fun c => UInt8.ofNat c.toNat

def plainResponse (status : ℕ) (message details : String) : LocalResponse :=
  ⟨status, [], text message, details⟩

def metadataPending : LocalResponse :=
  plainResponse 503 "Service Unavailable: SAML metadata not yet loaded" "saml-metadata-pending"

def internalError : LocalResponse :=
  plainResponse 500 "Internal Server Error" "saml"

/-- What `OnRequestHeaders` reads. -/
structure RequestHeaders where
  path : String
  method : String
  scheme : String
  host : String
  headers : Headers
  endStream : Bool
  idpMetadata : Option IDPMetadata
  now : ℤ

/-- The path without the query. -/
def getRequestPath (path : String) : String :=
  String.ofList (path.toList.takeWhile (· ≠ '?'))

/-- The header for an attribute, when the session has a value of it. -/
def attributeUpdate (session : SessionData) (entry : String × String) : Option (String × String) :=
  match session.attributes.get? entry.1 with
  | some values => if values ≠ [] then some (entry.2, ",".intercalate values) else none
  | none => none

/-- The loop over the attribute headers visits them in some order. -/
def setUpstreamHeaders (cfg : Config) (session : SessionData) (order : List (String × String))
    (headers : Headers) : Headers :=
  (headers.set cfg.subjectHeader session.nameID).setAll (order.filterMap (attributeUpdate session))

def serveMetadata (lib : Library) (cfg : Config) (idpMeta : IDPMetadata) : LocalResponse :=
  match lib.generateSPMetadata cfg idpMeta with
  | .error _ => internalError
  | .ok metadataXML =>
    ⟨200, [("content-type", "application/samlmetadata+xml"),
      ("cache-control", "public, max-age=3600")], metadataXML, "saml-metadata"⟩

/-- The session of a request, or the counter of a failed validation. -/
def readSession (codec : Codec) (cfg : Config) (headers : Headers) (now : ℤ) :
    Except (Option Metric) SessionData :=
  let cookieHeader := headers.getOne "cookie"
  let token := extractSessionCookie cookieHeader cfg.cookieName
  if cookieHeader = "" ∨ token = "" then .error none
  else
    match validateSessionToken codec cfg.cookieSigningKey token now with
    | .ok session => .ok session
    | .error err =>
      if "expired".toList <:+: err.toList then .error (some (.sessionsValidated "expired"))
      else .error (some (.sessionsValidated "invalid"))

def buildOriginalURL (lib : Library) (f : Filter) (path : String) : String :=
  lib.urlString (if f.requestScheme = "" then "https" else f.requestScheme) f.requestHost path

/-- The redirect to the identity provider. -/
def redirectToIdP (lib : Library) (f : Filter) (idpMeta : IDPMetadata) (r : RequestHeaders)
    (counted : List Metric) : Outcome :=
  match lib.generateAuthnRequest f.cfg idpMeta f.requestScheme f.requestHost
      (buildOriginalURL lib f r.path) with
  | .error _ => ⟨f, .stop, some internalError, r.headers, counted⟩
  | .ok redirectURL =>
    ⟨f, .stop, some ⟨302, [("location", redirectURL), ("cache-control", "no-cache, no-store")], [],
        "saml-redirect"⟩, r.headers,
      counted ++ f.increment (·.hasAuthnRequests) .authnRequests⟩

def onRequestHeaders (lib : Library) (f : Filter) (order : List (String × String))
    (r : RequestHeaders) : Outcome :=
  let path := getRequestPath r.path
  let f := { f with
    requestID := r.headers.getOne "x-request-id"
    requestScheme := r.scheme
    requestHost := r.host }
  if path ∈ f.cfg.bypassPaths then ⟨f, .continue, none, r.headers, []⟩
  else
    match r.idpMetadata with
    | none => ⟨f, .stop, some metadataPending, r.headers, []⟩
    | some idpMeta =>
      if path = f.cfg.metadataPath then
        ⟨f, .stop, some (serveMetadata lib f.cfg idpMeta), r.headers, []⟩
      else if path = f.cfg.acsPath ∧ equalFold r.method "POST" then
        let f := { f with isACSRequest := true }
        if r.endStream then
          ⟨f, .stop, some (plainResponse 400 "Bad Request: empty ACS POST body" "saml"),
            r.headers, []⟩
        else ⟨f, .stop, none, r.headers, []⟩
      else
        match readSession lib.toCodec f.cfg r.headers r.now with
        | .ok session =>
          ⟨f, .continue, none, setUpstreamHeaders f.cfg session order r.headers,
            f.increment (·.hasSessionsValidated) (.sessionsValidated "valid")⟩
        | .error none => redirectToIdP lib f idpMeta r []
        | .error (some metric) =>
          redirectToIdP lib f idpMeta r (f.increment (·.hasSessionsValidated) metric)

/-- The path and the method leave a request to the check of its session. -/
def RequestHeaders.NeedsSession (r : RequestHeaders) (cfg : Config) : Prop :=
  getRequestPath r.path ≠ cfg.metadataPath ∧
    ¬(getRequestPath r.path = cfg.acsPath ∧ equalFold r.method "POST")

/-- The four ways through `onRequestHeaders`. -/
inductive HeadersCase (lib : Library) (f : Filter) (order : List (String × String))
    (r : RequestHeaders) (out : Outcome) : Prop
  | bypass (hpath : getRequestPath r.path ∈ f.cfg.bypassPaths) (hstatus : out.status = .continue)
      (hresponse : out.response = none) (hheaders : out.headers = r.headers)
  | session (session : SessionData) (hpath : getRequestPath r.path ∉ f.cfg.bypassPaths)
      (hneeds : r.NeedsSession f.cfg)
      (hsession : readSession lib.toCodec f.cfg r.headers r.now = .ok session)
      (hstatus : out.status = .continue) (hresponse : out.response = none)
      (hheaders : out.headers = setUpstreamHeaders f.cfg session order r.headers)
  | consumer (hpath : getRequestPath r.path = f.cfg.acsPath) (hmethod : equalFold r.method "POST")
      (hacs : out.filter.isACSRequest = true) (hstatus : out.status = .stop)
      (hresponse : out.response = none)
  | answered (hpath : getRequestPath r.path ∉ f.cfg.bypassPaths) (hstatus : out.status = .stop)
      (hresponse : out.response ≠ none)

theorem redirectToIdP_answered (lib : Library) (f : Filter) (idpMeta : IDPMetadata)
    (r : RequestHeaders) (counted : List Metric) :
    (redirectToIdP lib f idpMeta r counted).status = .stop ∧
      (redirectToIdP lib f idpMeta r counted).response ≠ none := by
  unfold redirectToIdP
  split <;> simp

theorem onRequestHeaders_cases (lib : Library) (f : Filter) (order : List (String × String))
    (r : RequestHeaders) : HeadersCase lib f order r (onRequestHeaders lib f order r) := by
  unfold onRequestHeaders
  by_cases hpath : getRequestPath r.path ∈ f.cfg.bypassPaths
  · simp only [hpath, if_true]
    exact .bypass hpath rfl rfl rfl
  simp only [hpath, if_false]
  cases r.idpMetadata with
  | none => exact .answered hpath rfl (by simp)
  | some idpMeta =>
    by_cases hmetadata : getRequestPath r.path = f.cfg.metadataPath
    · simp only [hmetadata, if_true]
      exact .answered hpath rfl (by simp)
    simp only [hmetadata, if_false]
    by_cases hacs : getRequestPath r.path = f.cfg.acsPath ∧ equalFold r.method "POST"
    · simp only [hacs, and_self, if_true]
      cases r.endStream with
      | true => exact .answered hpath rfl (by simp)
      | false => exact .consumer hacs.1 hacs.2 rfl rfl rfl
    simp only [hacs, if_false]
    cases hsession : readSession lib.toCodec f.cfg r.headers r.now with
    | ok session => exact .session session hpath ⟨hmetadata, hacs⟩ hsession rfl rfl rfl
    | error counted =>
      cases counted with
      | none =>
        obtain ⟨hstatus, hresponse⟩ := redirectToIdP_answered lib _ idpMeta r []
        exact .answered hpath hstatus hresponse
      | some metric =>
        obtain ⟨hstatus, hresponse⟩ := redirectToIdP_answered lib _ idpMeta r _
        exact .answered hpath hstatus hresponse

/-- What `onRequestComplete` reads. -/
structure Completion where
  body : List UInt8
  idpMetadata : Option IDPMetadata
  now : ℤ

/-- The answer whether the request goes on, the local response and the counters. -/
structure Completed where
  proceeds : Bool
  response : LocalResponse
  counted : List Metric

/-- `none` stands for a panic. -/
def onRequestComplete (lib : Library) (f : Filter) (c : Completion) : Option Completed :=
  match c.idpMetadata with
  | none => some ⟨false, metadataPending, []⟩
  | some idpMeta =>
    match handleACSPost lib f.cfg idpMeta c.body f.requestScheme f.requestHost c.now with
    | .error .panic => none
    | .error (.failure publicMsg) =>
      some ⟨false, ⟨401, [("content-type", "text/plain")], text ("Unauthorized: " ++ publicMsg),
          "saml-acs-error"⟩,
        f.increment (·.hasAssertionsValidated) (.assertionsValidated "failure")⟩
    | .ok (session, redirectURL) =>
      let counted := f.increment (·.hasAssertionsValidated) (.assertionsValidated "success")
      match createSessionToken lib.toCodec f.cfg.cookieSigningKey session with
      | .error _ => some ⟨false, internalError, counted⟩
      | .ok token =>
        some ⟨false, ⟨302,
            [("location", redirectURL), ("set-cookie", buildSessionCookie f.cfg token),
              ("cache-control", "no-cache, no-store")], [], "saml-acs-redirect"⟩,
          counted ++ f.increment (·.hasSessionsCreated) .sessionsCreated⟩

/-- The outcome of a callback that ends the request, with its own status for a
request that is not forwarded. -/
def complete (lib : Library) (f : Filter) (c : Completion) (stopped : Status) : Outcome :=
  match onRequestComplete lib f c with
  | none => ⟨f, .panicked, none, [], []⟩
  | some done =>
    ⟨f, if done.proceeds then .continue else stopped, some done.response, [], done.counted⟩

def onRequestBody (lib : Library) (f : Filter) (c : Completion) (endStream : Bool) : Outcome :=
  if ¬f.isACSRequest then ⟨f, .continue, none, [], []⟩
  else if ¬endStream then ⟨f, .stopAndBuffer, none, [], []⟩
  else complete lib f c .stopNoBuffer

def onRequestTrailers (lib : Library) (f : Filter) (c : Completion) : Outcome :=
  if ¬f.isACSRequest then ⟨f, .continue, none, [], []⟩
  else complete lib f c .stop

end BuiltOnEnvoy.Saml
