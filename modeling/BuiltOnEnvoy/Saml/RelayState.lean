import BuiltOnEnvoy.Foundations.FormEncoding
import BuiltOnEnvoy.Foundations.GoUrl
import BuiltOnEnvoy.Saml.Gate

/-!
# The way back after a login

A request without a session is sent to the identity provider with its own URL as
the relay state. The provider posts the relay state back with its assertion, and
the filter redirects to it, or to the default path when the relay state does not
pass the check.
-/

namespace BuiltOnEnvoy.Saml

open Foundations

structure AuthnLibrary where
  /-- The request with a new ID, as XML, deflated and in Base64. -/
  encodeRequest : Config → IDPMetadata → String → String → Except String String
  /-- The values in the query of a URL. -/
  ssoQuery : String → Except String (GoMap String (List String))
  /-- The signature in Base64. -/
  signPayload : Config → String → Except String String
  /-- A URL with other values in its query. -/
  withQuery : String → GoMap String (List String) → String

/-- `url.Values.Get`. -/
def getFirst (q : GoMap String (List String)) (key : String) : String :=
  ((q.get? key).getD []).head?.getD ""

def buildSignedPayload (q : GoMap String (List String)) : String :=
  "SAMLRequest=" ++ queryEscape (getFirst q "SAMLRequest") ++
    (if getFirst q "RelayState" ≠ "" then "&RelayState=" ++ queryEscape (getFirst q "RelayState")
      else "") ++
    "&SigAlg=" ++ queryEscape (getFirst q "SigAlg")

/-- The values of the query that goes to the identity provider. -/
def authnValues (authn : AuthnLibrary) (cfg : Config) (idpMeta : IDPMetadata)
    (requestScheme requestHost originalURL : String) :
    Except String (GoMap String (List String)) :=
  match authn.encodeRequest cfg idpMeta requestScheme requestHost with
  | .error err => .error err
  | .ok encoded =>
    match authn.ssoQuery idpMeta.ssoURL with
    | .error err => .error ("failed to parse IdP SSO URL: " ++ err)
    | .ok q =>
      let q := q.set "SAMLRequest" [encoded]
      let q := if originalURL ≠ "" then q.set "RelayState" [originalURL] else q
      if cfg.signAuthnRequests then
        let q := q.set "SigAlg" ["http://www.w3.org/2001/04/xmldsig-more#rsa-sha256"]
        match authn.signPayload cfg (buildSignedPayload q) with
        | .error err => .error ("failed to sign AuthnRequest: " ++ err)
        | .ok sig => .ok (q.set "Signature" [sig])
      else .ok q

def generateAuthnRequest (authn : AuthnLibrary) (cfg : Config) (idpMeta : IDPMetadata)
    (requestScheme requestHost originalURL : String) : Except String String :=
  (authnValues authn cfg idpMeta requestScheme requestHost originalURL).map
    (authn.withQuery idpMeta.ssoURL)

theorem getFirst_relayState {authn : AuthnLibrary} {cfg : Config} {idpMeta : IDPMetadata}
    {requestScheme requestHost originalURL : String} {q : GoMap String (List String)}
    (h : authnValues authn cfg idpMeta requestScheme requestHost originalURL = .ok q)
    (horiginal : originalURL ≠ "") : getFirst q "RelayState" = originalURL := by
  have hset : ∀ m : GoMap String (List String),
      (m.set "RelayState" [originalURL]).get? "RelayState" = some [originalURL] :=
    fun m => m.get?_set_self _ _
  have hkeep : ∀ (m : GoMap String (List String)) (key : String) (values : List String),
      "RelayState" ≠ key → (m.set key values).get? "RelayState" = m.get? "RelayState" :=
    fun m key values hne => m.get?_set_of_ne hne values
  have hget : q.get? "RelayState" = some [originalURL] := by
    unfold authnValues at h
    cases hencoded : authn.encodeRequest cfg idpMeta requestScheme requestHost with
    | error err => simp [hencoded] at h
    | ok encoded =>
      cases hquery : authn.ssoQuery idpMeta.ssoURL with
      | error err => simp [hencoded, hquery] at h
      | ok q' =>
        simp only [hencoded, hquery, ne_eq, horiginal, not_false_eq_true, if_true] at h
        split_ifs at h with hsign
        · split at h
          · cases h
          · rw [Except.ok.injEq] at h
            rw [← h, hkeep _ _ _ (by decide), hkeep _ _ _ (by decide), hset]
        · rw [Except.ok.injEq] at h
          rw [← h, hset]
  rw [getFirst, hget]
  rfl

/-- A library with the URLs of `net/url`. Nobody reads the text of a parse error. -/
def goLibrary (hosts : HostSyntax) (authn : AuthnLibrary) (lib : Library) : Library :=
  { lib with
    urlParse := fun text =>
      match GoUrl.parse hosts text.toList with
      | some u => .ok ⟨String.ofList u.scheme, String.ofList u.host⟩
      | none => .error ""
    urlString := fun scheme host path =>
      String.ofList (GoUrl.string scheme.toList host.toList path.toList)
    generateAuthnRequest := generateAuthnRequest authn }

section

variable {hosts : HostSyntax} (authn : AuthnLibrary) (lib : Library)

theorem buildOriginalURL_goLibrary {f : Filter} (h : f.requestScheme ≠ "") (path : String) :
    buildOriginalURL (goLibrary hosts authn lib) f path =
      String.ofList (GoUrl.string f.requestScheme.toList f.requestHost.toList path.toList) := by
  rw [buildOriginalURL, if_neg h]
  rfl

theorem urlParse_goLibrary (text : String) : (goLibrary hosts authn lib).urlParse text =
    match GoUrl.parse hosts text.toList with
    | some u => .ok ⟨String.ofList u.scheme, String.ofList u.host⟩
    | none => .error "" :=
  rfl

/-- The check of a URL that is written with the scheme and the host of the entity. -/
theorem isSafeRedirectURL_string {entityID : String} {u : GoUrl}
    (hentity : GoUrl.parse hosts entityID.toList = some u) (hscheme : u.scheme ≠ [])
    (hhost : u.host ≠ []) (path : List Char) :
    isSafeRedirectURL (goLibrary hosts authn lib)
      (String.ofList (GoUrl.string u.scheme u.host path)) entityID =
        hosts.accepts (escape keptInHost u.host) := by
  obtain ⟨_, _, hostText, _, -, -, -, -, hparse, -⟩ := spelled_of_parse hentity hscheme hhost
  obtain ⟨hwritten, hagain⟩ := scheme_of_parse hentity hscheme
  have hdecoded : pathUnescape (escape keptInHost u.host) = some u.host :=
    pathUnescape_escape_bytes (by decide) (hosts.toNat_lt_of_parse hparse)
  -- the text starts with a letter
  have hslash : ¬"/".toList.isPrefixOf (GoUrl.string u.scheme u.host path) = true := by
    rw [string_eq hscheme hhost]
    obtain ⟨first, hfirst, halpha⟩ := hwritten.head
    cases hletters : u.scheme with
    | nil => exact absurd hletters hscheme
    | cons c rest =>
      rw [hletters, List.head?_cons, Option.mem_some_iff] at hfirst
      rintro hpre
      have hc : '/' = c := by simpa using hpre
      rw [← hfirst, ← hc] at halpha
      exact absurd halpha (by decide)
  have htarget : (goLibrary hosts authn lib).urlParse
      (String.ofList (GoUrl.string u.scheme u.host path)) =
      if hosts.accepts (escape keptInHost u.host) then
        .ok ⟨String.ofList u.scheme, String.ofList u.host⟩
      else .error "" := by
    rw [urlParse_goLibrary, String.toList_ofList, parse_string hosts hwritten hagain hhost,
      HostSyntax.parse]
    split_ifs
    · rw [hdecoded]
      rfl
    · rfl
  have hentityURL : (goLibrary hosts authn lib).urlParse entityID =
      .ok ⟨String.ofList u.scheme, String.ofList u.host⟩ := by
    rw [urlParse_goLibrary, hentity]
  have htext : (String.ofList (GoUrl.string u.scheme u.host path)).toList =
      GoUrl.string u.scheme u.host path := String.toList_ofList
  rw [isSafeRedirectURL, htext, if_neg (fun h => hslash h.1), htarget, hentityURL]
  split_ifs with haccepts
  · simp [haccepts]
  · simp [haccepts]

end

/-- The request is answered by a redirect to the identity provider with these values. -/
def SentToIdP (hosts : HostSyntax) (authn : AuthnLibrary) (lib : Library) (cfg : Config)
    (order : List (String × String)) (r : RequestHeaders) (q : GoMap String (List String)) :
    Prop :=
  ∃ idpMeta, r.idpMetadata = some idpMeta ∧
    authnValues authn cfg idpMeta r.scheme r.host
      (buildOriginalURL (goLibrary hosts authn lib)
        { Filter.create cfg with requestScheme := r.scheme, requestHost := r.host } r.path) =
      .ok q ∧
    (onRequestHeaders (goLibrary hosts authn lib) (.create cfg) order r).response =
      some ⟨302, [("location", authn.withQuery idpMeta.ssoURL q),
        ("cache-control", "no-cache, no-store")], [], "saml-redirect"⟩

/-- A post with this relay state is answered by a redirect to this location. -/
def PostedBack (lib : Library) (f : Filter) (c : Completion) (relayState location : String) :
    Prop :=
  ∃ values done, lib.parseQuery c.body = .ok values ∧ getValue values "RelayState" = relayState ∧
    onRequestComplete lib f c = some done ∧
    done.response.headers.lookup "location" = some location

theorem redirectURL_of_handleACSPost {lib : Library} {cfg : Config} {idpMeta : IDPMetadata}
    {body : List UInt8} {requestScheme requestHost : String} {now : ℤ}
    {values : List (String × String)} {session : SessionData} {redirectURL : String}
    (hvalues : lib.parseQuery body = .ok values)
    (h : handleACSPost lib cfg idpMeta body requestScheme requestHost now =
      .ok (session, redirectURL)) :
    redirectURL =
      if getValue values "RelayState" ≠ "" ∧
          isSafeRedirectURL lib (getValue values "RelayState") cfg.entityID then
        getValue values "RelayState"
      else cfg.defaultRedirectPath := by
  simp only [handleACSPost, hvalues] at h
  by_cases hresponse : getValue values "SAMLResponse" = ""
  · rw [if_pos hresponse] at h
    cases h
  rw [if_neg hresponse] at h
  cases hxml : lib.decodeStd (getValue values "SAMLResponse") with
  | error err => simp [hxml] at h
  | ok samlResponseXML =>
    simp only [hxml] at h
    cases hresult : validateSAMLResponse lib cfg idpMeta samlResponseXML requestScheme
        requestHost with
    | error err => cases err <;> simp [hresult] at h
    | ok result =>
      simp only [hresult, Except.ok.injEq, Prod.mk.injEq] at h
      exact h.2.symm

theorem handleACSPost_of_location {lib : Library} {f : Filter} {c : Completion} {done : Completed}
    {location : String} (hdone : onRequestComplete lib f c = some done)
    (hlocation : done.response.headers.lookup "location" = some location) :
    ∃ idpMeta session, handleACSPost lib f.cfg idpMeta c.body f.requestScheme f.requestHost c.now =
      .ok (session, location) := by
  unfold onRequestComplete at hdone
  cases hmetadata : c.idpMetadata with
  | none =>
    simp only [hmetadata, Option.some.injEq] at hdone
    rw [← hdone] at hlocation
    cases hlocation
  | some idpMeta =>
    simp only [hmetadata] at hdone
    cases hpost : handleACSPost lib f.cfg idpMeta c.body f.requestScheme f.requestHost c.now with
    | error err =>
      cases err with
      | panic => simp [hpost] at hdone
      | failure publicMsg => grind
    | ok result =>
      obtain ⟨session, redirectURL⟩ := result
      simp only [hpost] at hdone
      split at hdone
      · rw [Option.some.injEq] at hdone
        rw [← hdone] at hlocation
        cases hlocation
      · grind

/-- A target that is written into a URL as it is. -/
def PlainTarget (target : List Char) : Prop :=
  (target = [] ∨ target.head? = some '/') ∧ target.all keptInPath = true

instance (target : List Char) : Decidable (PlainTarget target) :=
  inferInstanceAs (Decidable ((target = [] ∨ target.head? = some '/') ∧
    target.all keptInPath = true))

/-- A login on the entity's own host comes back to the page it started from exactly when the
target is plain: a query or an escaped byte is escaped once more. Where the standard library
does not read the host it writes, the default path decides. -/
theorem returnsToPage_iff (hosts : HostSyntax) (authn : AuthnLibrary) (lib : Library)
    (cfg : Config) (order : List (String × String)) {r : RequestHeaders}
    {q : GoMap String (List String)} {f : Filter} {c : Completion} {location : String} {u : GoUrl}
    (hentity : GoUrl.parse hosts cfg.entityID.toList = some u) (hscheme : u.scheme ≠ [])
    (hhost : u.host ≠ []) (hrscheme : r.scheme.toList = u.scheme) (hrhost : r.host.toList = u.host)
    (hsent : SentToIdP hosts authn lib cfg order r q) (hf : f.cfg = cfg)
    (hback : PostedBack (goLibrary hosts authn lib) f c (getFirst q "RelayState") location) :
    pathAndQuery location.toList = r.path.toList ↔
      if hosts.accepts (escape keptInHost u.host) then PlainTarget r.path.toList
      else pathAndQuery cfg.defaultRedirectPath.toList = r.path.toList := by
  obtain ⟨idpMeta, -, hq, -⟩ := hsent
  obtain ⟨values, done, hvalues, hrelay, hdone, hlocation⟩ := hback
  obtain ⟨idpMeta', session, hpost⟩ := handleACSPost_of_location hdone hlocation
  have hsome : r.scheme ≠ "" := by
    intro hempty
    rw [hempty] at hrscheme
    exact hscheme hrscheme.symm
  rw [buildOriginalURL_goLibrary authn lib hsome] at hq
  dsimp only at hq
  rw [hrscheme, hrhost] at hq
  have hword := (scheme_of_parse hentity hscheme).1
  have hwritten : String.ofList (GoUrl.string u.scheme u.host r.path.toList) ≠ "" := by
    intro hempty
    have hnil := congrArg String.toList hempty
    rw [String.toList_ofList, string_eq hscheme hhost] at hnil
    simp at hnil
  rw [getFirst_relayState hq hwritten] at hrelay
  have hredirect := redirectURL_of_handleACSPost hvalues hpost
  have hsafe := isSafeRedirectURL_string authn lib hentity hscheme hhost r.path.toList
  rw [hrelay, hf, hsafe] at hredirect
  rw [hredirect]
  by_cases haccepts : hosts.accepts (escape keptInHost u.host) = true
  · rw [if_pos ⟨hwritten, haccepts⟩, if_pos haccepts, String.toList_ofList,
      pathAndQuery_string hword hhost, pathText_eq_self_iff, PlainTarget, List.all_eq_true]
  · rw [if_neg (fun h => haccepts h.2), if_neg haccepts]

/-- Hosts of letters, digits, hyphens and dots. -/
def plainHosts : HostSyntax where
  accepts text := text.all (alphanumOr "-.")
  chars := by
    intro text h c hc
    have hplain := List.all_eq_true.mp h c hc
    exact .inr (.inl (alphanumOr_mono (by decide) hplain))
  escapes := by
    intro text h
    refine ⟨text, pathUnescape_of_notMem fun hmem => ?_⟩
    exact absurd (List.all_eq_true.mp h '%' hmem) (by decide)

def sampleAuthn : AuthnLibrary where
  encodeRequest := fun _ _ _ _ => .ok "request"
  ssoQuery := fun _ => .ok .empty
  signPayload := fun _ _ => .ok "signature"
  withQuery := fun url q => url ++ "?RelayState=" ++ queryEscape (getFirst q "RelayState")

def sampleIdP : IDPMetadata := ⟨"idp", "https://idp/sso", []⟩

/-- A library for which every post carries this relay state and a valid assertion. -/
def loginLibrary (relayState : String) : Library :=
  { oneSession ⟨"zoe", .empty, 0⟩ with
    parseQuery := fun _ => .ok [("SAMLResponse", "eA=="), ("RelayState", relayState)]
    decodeStd := fun _ => .ok []
    parseXMLResponse := fun _ _ _ _ => .ok ⟨some "zoe", []⟩ }

def pageRequest (path : String) : RequestHeaders where
  path := path
  method := "GET"
  scheme := "https"
  host := "sp"
  headers := []
  endStream := true
  idpMetadata := some sampleIdP
  now := 0

def samplePost : Completion := ⟨[], some sampleIdP, 0⟩

theorem sample_entity : GoUrl.parse plainHosts roleConfig.entityID.toList =
    some ⟨"https".toList, "sp".toList⟩ := rfl

/-- The page of a query comes back as a path with a question mark in it. -/
theorem query_escaped : ∃ q,
    SentToIdP plainHosts sampleAuthn (loginLibrary "https://sp/app%3Fid=7") roleConfig []
      (pageRequest "/app?id=7") q ∧
    PostedBack (goLibrary plainHosts sampleAuthn (loginLibrary "https://sp/app%3Fid=7"))
      (.create roleConfig) samplePost (getFirst q "RelayState") "https://sp/app%3Fid=7" ∧
    pathAndQuery "https://sp/app%3Fid=7".toList ≠ (pageRequest "/app?id=7").path.toList := by
  refine ⟨_, ⟨sampleIdP, rfl, rfl, rfl⟩, ⟨_, _, rfl, rfl, rfl, rfl⟩, by decide⟩

theorem app_returned :
    pathAndQuery "https://sp/app".toList = (pageRequest "/app").path.toList := by
  have hsent : ∃ q, SentToIdP plainHosts sampleAuthn (loginLibrary "https://sp/app") roleConfig []
      (pageRequest "/app") q ∧ getFirst q "RelayState" = "https://sp/app" :=
    ⟨_, ⟨sampleIdP, rfl, rfl, rfl⟩, rfl⟩
  obtain ⟨q, hsent, hrelay⟩ := hsent
  have hback : PostedBack (goLibrary plainHosts sampleAuthn (loginLibrary "https://sp/app"))
      (.create roleConfig) samplePost (getFirst q "RelayState") "https://sp/app" := by
    rw [hrelay]
    exact ⟨_, _, rfl, rfl, rfl, rfl⟩
  exact (returnsToPage_iff plainHosts sampleAuthn (loginLibrary "https://sp/app") roleConfig []
    sample_entity (by decide) (by decide) rfl rfl hsent rfl hback).mpr (by decide)

end BuiltOnEnvoy.Saml
