import BuiltOnEnvoy.Foundations.GoMap
import BuiltOnEnvoy.Foundations.TextParsing

/-!
# Configuration of the SAML filter

`parseConfig` with its checks in their order and its defaults. What it takes
from the standard library and the file system is `Sources`. Durations are in
nanoseconds. A certificate and a key are represented by their PEM text.
-/

namespace BuiltOnEnvoy.Saml

open Foundations

structure DataSource where
  inline : List UInt8
  file : String

structure RawSessionConfig where
  cookieName : String := ""
  duration : String := ""
  cookieDomain : String := ""
  cookieSecure : Option Bool := none
  cookieSigningKey : String := ""

/-- The JSON configuration. -/
structure RawConfig where
  entityID : String := ""
  acsPath : String := ""
  idpMetadataXML : Option DataSource := none
  idpMetadataURL : String := ""
  idpMetadataCluster : String := ""
  idpMetadataFetchDelay : String := ""
  idpMetadataFetchMaxAttempts : Option ℤ := none
  spCertPEM : Option DataSource := none
  spKeyPEM : Option DataSource := none
  session : Option RawSessionConfig := none
  bypassPaths : List String := []
  subjectHeader : String := ""
  attributeHeaders : GoMap String String := .empty
  signAuthnRequests : Option Bool := none
  allowedClockSkew : String := ""
  nameIDFormat : String := ""
  defaultRedirectPath : String := ""
  sloPath : String := ""
  metadataPath : String := ""

structure Config where
  entityID : String
  acsPath : String
  idpMetadataXML : List UInt8
  idpMetadataURL : String
  idpMetadataCluster : String
  idpMetadataFetchDelay : ℤ
  idpMetadataFetchMaxAttempts : ℤ
  spCertPEM : List UInt8
  spKeyPEM : List UInt8
  spCertAutoGenerated : Bool
  cookieName : String := "_saml_session"
  sessionDuration : ℤ := 8 * 3600 * 1000000000
  cookieDomain : String := ""
  cookieSecure : Bool := true
  cookieSigningKey : List UInt8 := []
  bypassPaths : List String
  subjectHeader : String := "x-saml-subject"
  /-- From the names of SAML attributes to request headers. -/
  attributeHeaders : GoMap String String
  signAuthnRequests : Bool := true
  allowedClockSkew : ℤ := 5 * 1000000000
  nameIDFormat : String := "urn:oasis:names:tc:SAML:1.1:nameid-format:unspecified"
  defaultRedirectPath : String := "/"
  sloPath : String := "/saml/slo"
  metadataPath : String := "/saml/metadata"

structure Sources where
  unmarshal : List UInt8 → Except String RawConfig
  parseDuration : String → Except String ℤ
  readFile : String → Except String (List UInt8)
  /-- A certificate and its key for a common name. -/
  generateSelfSignedCertAndKey : String → Except String (List UInt8 × List UInt8)
  parseCertificatePEM : List UInt8 → Except String Unit
  parsePrivateKeyPEM : List UInt8 → Except String Unit
  randomKey : ℕ → Except String (List UInt8)

def DataSource.validate (d : DataSource) : Except String Unit :=
  if d.inline ≠ [] ∧ d.file ≠ "" then .error "only one of 'inline' or 'file' can be set"
  else if d.inline = [] ∧ d.file = "" then .error "either 'inline' or 'file' must be set"
  else .ok ()

def DataSource.content (src : Sources) (d : DataSource) : Except String (List UInt8) :=
  if d.inline ≠ [] then .ok d.inline
  else if d.file ≠ "" then src.readFile d.file
  else .error "either 'inline' or 'file' must be set"

/-- An error with the text before it. -/
def wrap {α : Type} (before : String) (result : Except String α) : Except String α :=
  result.mapError (before ++ ·)

def require (holds : Bool) (message : String) : Except String Unit :=
  if holds then .ok () else .error message

def parsePEM (src : Sources) (name : String) : Option DataSource → Except String (List UInt8)
  | none => .ok []
  | some d => do
    wrap (name ++ ": ") d.validate
    wrap (name ++ ": ") (d.content src)

def parseMetadataXML (src : Sources) : Option DataSource → Except String (List UInt8)
  | none => .ok []
  | some d => do
    wrap "idp_metadata_xml: " d.validate
    match d.content src with
    | .error err => .error ("idp_metadata_xml: error " ++ err ++ " or empty content")
    | .ok [] => .error "idp_metadata_xml: error %!w(<nil>) or empty content"
    | .ok content => .ok content

/-- The checks on the fields about the metadata of the identity provider. -/
def checkMetadataFields (raw : RawConfig) : Except String Unit := do
  let hasInlineMetadata := raw.idpMetadataXML.isSome
  let hasURLMetadata := raw.idpMetadataURL != ""
  require (!(hasInlineMetadata && hasURLMetadata))
    "idp_metadata_xml and idp_metadata_url are mutually exclusive"
  require (hasInlineMetadata || hasURLMetadata)
    "one of idp_metadata_xml or idp_metadata_url is required"
  require (!(hasURLMetadata && raw.idpMetadataCluster == ""))
    "idp_metadata_cluster is required when idp_metadata_url is set"
  require (hasURLMetadata || raw.idpMetadataCluster == "")
    "idp_metadata_cluster requires idp_metadata_url to be set"
  require (hasURLMetadata || raw.idpMetadataFetchDelay == "")
    "idp_metadata_fetch_delay requires idp_metadata_url to be set"
  require (hasURLMetadata || raw.idpMetadataFetchMaxAttempts.isNone)
    "idp_metadata_fetch_max_attempts requires idp_metadata_url to be set"

def parseFetchDelay (src : Sources) (raw : RawConfig) : Except String ℤ :=
  if raw.idpMetadataFetchDelay = "" then .ok 1000000000
  else do
    let d ← wrap "failed to parse idp_metadata_fetch_delay: "
      (src.parseDuration raw.idpMetadataFetchDelay)
    require (0 ≤ d) "idp_metadata_fetch_delay must be non-negative"
    return d

def parseMaxAttempts (raw : RawConfig) : Except String ℤ :=
  match raw.idpMetadataFetchMaxAttempts with
  | none => .ok 3
  | some n => do
    require (1 ≤ n) ("idp_metadata_fetch_max_attempts must be >= 1, got " ++ toString n)
    return n

/-- The certificate and the key, generated when both are left out, and whether
they were. -/
def parseKeyPair (src : Sources) (raw : RawConfig) :
    Except String (List UInt8 × List UInt8 × Bool) := do
  let spCertPEM ← parsePEM src "sp_cert_pem" raw.spCertPEM
  let spKeyPEM ← parsePEM src "sp_key_pem" raw.spKeyPEM
  require ((spCertPEM == []) == (spKeyPEM == []))
    "sp_cert_pem and sp_key_pem must both be provided, or both omitted"
  if spCertPEM = [] then do
    let (cert, key) ← wrap "failed to auto-generate SP certificate and key: "
      (src.generateSelfSignedCertAndKey raw.entityID)
    return (cert, key, true)
  else do
    wrap "failed to parse sp_cert_pem: " (src.parseCertificatePEM spCertPEM)
    wrap "failed to parse sp_key_pem: " (src.parsePrivateKeyPEM spKeyPEM)
    return (spCertPEM, spKeyPEM, false)

/-- A text that replaces a default unless it is empty. -/
def orDefault (text default : String) : String :=
  if text = "" then default else text

/-- The key of 64 hexadecimal digits, when there is one. What the decoder says
about a bad digit is left out. -/
def parseSigningKey (text : String) (key : List UInt8) : Except String (List UInt8) :=
  if text = "" then .ok key
  else
    match hexDecode text.toList with
    | none => .error "failed to decode cookie_signing_key (expected hex)"
    | some key =>
      if key.length ≠ 32 then
        .error ("cookie_signing_key must be 32 bytes (64 hex chars), got " ++
          toString key.length ++ " bytes")
      else .ok key

def applySessionConfig (src : Sources) (cfg : Config) (raw : RawSessionConfig) :
    Except String Config := do
  let sessionDuration ←
    if raw.duration = "" then pure cfg.sessionDuration
    else wrap "failed to parse session duration: " (src.parseDuration raw.duration)
  let cookieSigningKey ← parseSigningKey raw.cookieSigningKey cfg.cookieSigningKey
  return { cfg with
    cookieName := orDefault raw.cookieName cfg.cookieName
    sessionDuration := sessionDuration
    cookieDomain := orDefault raw.cookieDomain cfg.cookieDomain
    cookieSecure := raw.cookieSecure.getD cfg.cookieSecure
    cookieSigningKey := cookieSigningKey }

def parseConfig (src : Sources) (data : List UInt8) : Except String Config := do
  let raw ← if data = [] then pure {} else wrap "failed to parse config JSON: " (src.unmarshal data)
  require (raw.entityID != "") "entity_id is required"
  require (raw.acsPath != "") "acs_path is required"
  checkMetadataFields raw
  let idpMetadataFetchDelay ← parseFetchDelay src raw
  let idpMetadataFetchMaxAttempts ← parseMaxAttempts raw
  let idpMetadataXML ← parseMetadataXML src raw.idpMetadataXML
  let (spCertPEM, spKeyPEM, spCertAutoGenerated) ← parseKeyPair src raw
  let cfg : Config := {
    entityID := raw.entityID
    acsPath := raw.acsPath
    idpMetadataXML := idpMetadataXML
    idpMetadataURL := raw.idpMetadataURL
    idpMetadataCluster := raw.idpMetadataCluster
    idpMetadataFetchDelay := idpMetadataFetchDelay
    idpMetadataFetchMaxAttempts := idpMetadataFetchMaxAttempts
    spCertPEM := spCertPEM
    spKeyPEM := spKeyPEM
    spCertAutoGenerated := spCertAutoGenerated
    bypassPaths := raw.bypassPaths
    attributeHeaders := raw.attributeHeaders }
  let cfg ← match raw.session with
    | none => pure cfg
    | some session => applySessionConfig src cfg session
  let cookieSigningKey ←
    if cfg.cookieSigningKey = [] then
      wrap "failed to generate cookie signing key: " (src.randomKey 32)
    else pure cfg.cookieSigningKey
  let allowedClockSkew ←
    if raw.allowedClockSkew = "" then pure cfg.allowedClockSkew
    else wrap "failed to parse allowed_clock_skew: " (src.parseDuration raw.allowedClockSkew)
  return { cfg with
    cookieSigningKey := cookieSigningKey
    subjectHeader := orDefault raw.subjectHeader cfg.subjectHeader
    signAuthnRequests := raw.signAuthnRequests.getD cfg.signAuthnRequests
    allowedClockSkew := allowedClockSkew
    nameIDFormat := orDefault raw.nameIDFormat cfg.nameIDFormat
    defaultRedirectPath := orDefault raw.defaultRedirectPath cfg.defaultRedirectPath
    sloPath := orDefault raw.sloPath cfg.sloPath
    metadataPath := orDefault raw.metadataPath cfg.metadataPath }

end BuiltOnEnvoy.Saml
