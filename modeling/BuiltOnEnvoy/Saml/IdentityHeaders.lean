import BuiltOnEnvoy.Saml.Filter

/-!
# Headers with the identity of the user

Two requests with one session cookie that differ only in the configured
identity headers. What reaches the upstream service in these headers is
determined by the session exactly when the path is not a bypass path and the
session has a value for every attribute header, one for each.
-/

namespace BuiltOnEnvoy.Saml

open Foundations List

/-- The subject header and the attribute headers. -/
def identityHeaders (cfg : Config) : List String :=
  cfg.subjectHeader :: cfg.attributeHeaders.entries.map Prod.snd

/-- The attribute headers that a session sets, with their values. -/
def attributeUpdates (cfg : Config) (session : SessionData) : List (String × String) :=
  cfg.attributeHeaders.entries.filterMap (attributeUpdate session)

/-- The values that the session gives to an identity header. -/
def identityValues (cfg : Config) (session : SessionData) (name : String) : List String :=
  match (attributeUpdates cfg session).find? fun u => Headers.Same u.1 name with
  | some u => [u.2]
  | none => if Headers.Same cfg.subjectHeader name then [session.nameID] else []

/-- The headers of a request that are not identity headers. -/
def otherHeaders (cfg : Config) (headers : Headers) : Headers :=
  headers.filter fun h => ∀ name ∈ identityHeaders cfg, ¬Headers.Same h.1 name

/-- The client sends the same but for the identity headers. -/
structure SameRequest (cfg : Config) (r r' : RequestHeaders) : Prop where
  path : r'.path = r.path
  method : r'.method = r.method
  scheme : r'.scheme = r.scheme
  host : r'.host = r.host
  endStream : r'.endStream = r.endStream
  headers : otherHeaders cfg r'.headers = otherHeaders cfg r.headers

/-- The request has a session cookie with a valid token. -/
structure Carries (codec : Codec) (cfg : Config) (r : RequestHeaders) (token : String)
    (session : SessionData) : Prop where
  cookie : extractSessionCookie (r.headers.getOne "cookie") cfg.cookieName = token
  nonempty : token ≠ ""
  valid : validateSessionToken codec cfg.cookieSigningKey token r.now = .ok session

/-- In every two runs the identity headers are forwarded with the same values,
those that the session gives. -/
def Unspoofable (lib : Library) (f : Filter) (r : RequestHeaders) (token : String)
    (session : SessionData) : Prop :=
  ∀ r₁ r₂, SameRequest f.cfg r r₁ → SameRequest f.cfg r r₂ →
    Carries lib.toCodec f.cfg r₁ token session → Carries lib.toCodec f.cfg r₂ token session →
    ∀ order₁ order₂, f.cfg.attributeHeaders.Visits order₁ →
      f.cfg.attributeHeaders.Visits order₂ →
      (onRequestHeaders lib f order₁ r₁).status = .continue →
      (onRequestHeaders lib f order₂ r₂).status = .continue →
      ∀ name ∈ identityHeaders f.cfg,
        (onRequestHeaders lib f order₁ r₁).headers.values name =
            (onRequestHeaders lib f order₂ r₂).headers.values name ∧
          (onRequestHeaders lib f order₁ r₁).headers.values name =
            identityValues f.cfg session name

/-- The session has a value for every attribute header, and one only. -/
structure SessionDecides (cfg : Config) (session : SessionData) : Prop where
  covered : ∀ e ∈ cfg.attributeHeaders.entries, Headers.Same cfg.subjectHeader e.2 ∨
    ∃ u ∈ attributeUpdates cfg session, Headers.Same u.1 e.2
  single : ∀ u ∈ attributeUpdates cfg session, ∀ u' ∈ attributeUpdates cfg session,
    Headers.Same u.1 u'.1 → u.2 = u'.2

/-- The request is not let past the filter, and if it comes to the check of its
session, the session decides. -/
def Protected (cfg : Config) (session : SessionData) (r : RequestHeaders) : Prop :=
  getRequestPath r.path ∉ cfg.bypassPaths ∧ (r.NeedsSession cfg → SessionDecides cfg session)

variable {lib : Library} {f : Filter} {r r' : RequestHeaders} {token : String}
  {session : SessionData} {order : List (String × String)}

theorem extractSessionCookie_empty (cookieName : String) :
    extractSessionCookie "" cookieName = "" := by
  unfold extractSessionCookie
  split
  · rename_i part hpart
    have hmem : part ∈ splitCookies "" := mem_of_find?_eq_some hpart
    have hnil : part = [] := by simpa [splitCookies] using hmem
    rw [hnil]
    rfl
  · rfl

variable {cfg : Config}

theorem Carries.cookie_ne {codec : Codec} (h : Carries codec cfg r token session) :
    r.headers.getOne "cookie" ≠ "" := by
  intro hempty
  apply h.nonempty
  rw [← h.cookie, hempty, extractSessionCookie_empty]

theorem Carries.readSession {codec : Codec} (h : Carries codec cfg r token session) :
    readSession codec cfg r.headers r.now = .ok session := by
  simp [Saml.readSession, h.cookie_ne, h.cookie, h.nonempty, h.valid]

/-- A request that is forwarded with its session has the headers of the session. -/
theorem headers_of_session (hpath : getRequestPath r.path ∉ f.cfg.bypassPaths)
    (hcarries : Carries lib.toCodec f.cfg r token session)
    (hstatus : (onRequestHeaders lib f order r).status = .continue) :
    r.NeedsSession f.cfg ∧ (onRequestHeaders lib f order r).headers =
      setUpstreamHeaders f.cfg session order r.headers := by
  cases onRequestHeaders_cases lib f order r with
  | bypass hbypass => exact absurd hbypass hpath
  | session session' _ hneeds hsession _ _ hheaders =>
    rw [hcarries.readSession, Except.ok.injEq] at hsession
    exact ⟨hneeds, hsession ▸ hheaders⟩
  | consumer _ _ _ hstop => simp [hstop] at hstatus
  | answered _ hstop => simp [hstop] at hstatus

theorem forwards_bypass (lib : Library) (order : List (String × String)) (r : RequestHeaders)
    (hpath : getRequestPath r.path ∈ f.cfg.bypassPaths) :
    (onRequestHeaders lib f order r).status = .continue ∧
      (onRequestHeaders lib f order r).headers = r.headers := by
  simp [onRequestHeaders, hpath]

theorem forwards_session (order : List (String × String)) (r : RequestHeaders)
    {idpMeta : IDPMetadata} (hmetadata : r.idpMetadata = some idpMeta)
    (hpath : getRequestPath r.path ∉ f.cfg.bypassPaths) (hneeds : r.NeedsSession f.cfg)
    (hcarries : Carries lib.toCodec f.cfg r token session) :
    (onRequestHeaders lib f order r).status = .continue ∧
      (onRequestHeaders lib f order r).headers =
        setUpstreamHeaders f.cfg session order r.headers := by
  simp only [onRequestHeaders, hpath, hmetadata, hneeds.1, hneeds.2, if_false,
    hcarries.readSession, and_self]

theorem setUpstreamHeaders_entries (cfg : Config) (session : SessionData) (headers : Headers) :
    setUpstreamHeaders cfg session cfg.attributeHeaders.entries headers =
      (headers.set cfg.subjectHeader session.nameID).setAll (attributeUpdates cfg session) := rfl

theorem mem_updates_iff (horder : cfg.attributeHeaders.Visits order) (u : String × String) :
    u ∈ order.filterMap (attributeUpdate session) ↔ u ∈ attributeUpdates cfg session :=
  (horder.filterMap _).mem_iff

/-- When the session decides, the order of the loop and the headers of the
client do not matter. -/
theorem values_setUpstreamHeaders (hdecides : SessionDecides cfg session)
    (horder : cfg.attributeHeaders.Visits order) (headers : Headers) {name : String}
    (hname : name ∈ identityHeaders cfg) :
    (setUpstreamHeaders cfg session order headers).values name =
      identityValues cfg session name := by
  rw [setUpstreamHeaders, identityValues]
  cases hfind : (attributeUpdates cfg session).find? fun u => Headers.Same u.1 name with
  | some u =>
    have hmem := mem_of_find?_eq_some hfind
    have hsame : Headers.Same u.1 name := by simpa using find?_some hfind
    apply Headers.values_setAll_of_forall_eq
    · exact ⟨u, (mem_updates_iff horder u).mpr hmem, hsame⟩
    · intro u' hu' hsame'
      exact hdecides.single u' ((mem_updates_iff horder u').mp hu') u hmem
        (hsame'.trans hsame.symm)
  | none =>
    have hnone : ∀ u ∈ attributeUpdates cfg session, ¬Headers.Same u.1 name := by
      simpa using hfind
    have hsubject : Headers.Same cfg.subjectHeader name := by
      rcases mem_cons.mp hname with rfl | hattribute
      · rfl
      · obtain ⟨e, he, rfl⟩ := List.mem_map.mp hattribute
        rcases hdecides.covered e he with hsubject | ⟨u, hu, hsame⟩
        · exact hsubject
        · exact absurd hsame (hnone u hu)
    rw [Headers.values_setAll_of_forall_not fun u hu => hnone u ((mem_updates_iff horder u).mp hu)]
    simp only [hsubject, if_true]
    rw [← Headers.values_congr _ hsubject, Headers.values_set_self]

/-- The same request with one more value of a header, when the metadata is there. -/
def addHeader (r : RequestHeaders) (name : String) : RequestHeaders :=
  { r with headers := r.headers ++ [(name, "x")], idpMetadata := some ⟨"", "", []⟩ }

theorem sameRequest_addHeader (r : RequestHeaders) {name : String}
    (hname : name ∈ identityHeaders cfg) : SameRequest cfg r (addHeader r name) := by
  refine ⟨rfl, rfl, rfl, rfl, rfl, ?_⟩
  have hdropped : otherHeaders cfg [(name, "x")] = [] := by
    rw [otherHeaders, filter_eq_nil_iff]
    intro h hh
    rw [mem_singleton] at hh
    simp only [decide_eq_true_eq, not_forall, not_not]
    exact ⟨name, hname, by rw [hh]; rfl⟩
  have happend : otherHeaders cfg (r.headers ++ [(name, "x")]) =
      otherHeaders cfg r.headers ++ otherHeaders cfg [(name, "x")] := filter_append _ _
  rw [addHeader, happend, hdropped, append_nil]

theorem Carries.addHeader {codec : Codec} (h : Carries codec cfg r token session) (name : String) :
    Carries codec cfg (addHeader r name) token session := by
  refine ⟨?_, h.nonempty, h.valid⟩
  have hcookie : (Saml.addHeader r name).headers.getOne "cookie" = r.headers.getOne "cookie" :=
    Headers.getOne_append _ h.cookie_ne
  rw [hcookie, h.cookie]

theorem values_addHeader (r : RequestHeaders) (name : String) :
    (addHeader r name).headers.values name = r.headers.values name ++ ["x"] := by
  have hself : Headers.Same name name := rfl
  simp [addHeader, Headers.values, hself]

theorem Unspoofable.not_bypass (hcarries : Carries lib.toCodec f.cfg r token session)
    (h : Unspoofable lib f r token session) : getRequestPath r.path ∉ f.cfg.bypassPaths := by
  intro hpath
  -- one run with the headers of the client, one with another subject
  have hname : f.cfg.subjectHeader ∈ identityHeaders f.cfg := mem_cons_self
  obtain ⟨hstatus, hheaders⟩ := forwards_bypass lib f.cfg.attributeHeaders.entries r hpath
  obtain ⟨hstatus', hheaders'⟩ :=
    forwards_bypass lib f.cfg.attributeHeaders.entries (addHeader r f.cfg.subjectHeader) hpath
  have hsame := (h r (addHeader r f.cfg.subjectHeader) ⟨rfl, rfl, rfl, rfl, rfl, rfl⟩
    (sameRequest_addHeader r hname) hcarries (hcarries.addHeader _) _ _
    f.cfg.attributeHeaders.visits_entries f.cfg.attributeHeaders.visits_entries
    hstatus hstatus' _ hname).1
  rw [hheaders, hheaders', values_addHeader] at hsame
  simpa using congrArg List.length hsame

section

variable (h : Unspoofable lib f r token session)
  (hcarries : Carries lib.toCodec f.cfg r token session)
  (hpath : getRequestPath r.path ∉ f.cfg.bypassPaths) (hneeds : r.NeedsSession f.cfg)
include h hcarries hpath hneeds

/-- On the way of the session every order of the loop and every further header
of the client leave the values of the session. -/
theorem Unspoofable.values_eq (horder : f.cfg.attributeHeaders.Visits order) {name other : String}
    (hname : name ∈ identityHeaders f.cfg) (hother : other ∈ identityHeaders f.cfg) :
    (setUpstreamHeaders f.cfg session order (addHeader r name).headers).values other =
      identityValues f.cfg session other := by
  have hsame := sameRequest_addHeader r hname
  have hcarries' := hcarries.addHeader name
  obtain ⟨hstatus, hheaders⟩ :=
    forwards_session order (addHeader r name) rfl hpath hneeds hcarries'
  have hvalues := (h _ _ hsame hsame hcarries' hcarries' order order horder horder
    hstatus hstatus other hother).2
  rwa [hheaders] at hvalues

theorem Unspoofable.sessionDecides : SessionDecides f.cfg session := by
  have hvisits := f.cfg.attributeHeaders.visits_entries
  have hsubject : f.cfg.subjectHeader ∈ identityHeaders f.cfg := mem_cons_self
  constructor
  · intro e he
    by_contra hnot
    rw [not_or] at hnot
    push Not at hnot
    obtain ⟨hne, hnone⟩ := hnot
    have hname : e.2 ∈ identityHeaders f.cfg :=
      mem_cons_of_mem _ (List.mem_map.mpr ⟨e, he, rfl⟩)
    -- the header of the client is forwarded, the session gives none
    have hvalues := h.values_eq hcarries hpath hneeds hvisits hname hname
    have hfind : ((attributeUpdates f.cfg session).find? fun u => Headers.Same u.1 e.2) = none := by
      simpa using hnone
    rw [setUpstreamHeaders_entries, Headers.values_setAll_of_forall_not hnone,
      Headers.values_set_of_ne _ _ hne, values_addHeader, identityValues, hfind] at hvalues
    simp [hne] at hvalues
  · intro u hu u' hu' hsame
    -- each of the two updates can be the last one of the loop
    have hlast : ∀ v ∈ attributeUpdates f.cfg session,
        identityValues f.cfg session v.1 = [v.2] := by
      intro v hv
      obtain ⟨e, he, hev⟩ := mem_filterMap.mp hv
      obtain ⟨front, hfront⟩ := GoMap.exists_visits_last he
      have hname : v.1 ∈ identityHeaders f.cfg := by
        refine mem_cons_of_mem _ (List.mem_map.mpr ⟨e, he, ?_⟩)
        unfold attributeUpdate at hev
        split at hev
        · split_ifs at hev
          rw [Option.some.injEq] at hev
          rw [← hev]
        · cases hev
      rw [← h.values_eq hcarries hpath hneeds hfront hsubject hname, setUpstreamHeaders,
        filterMap_append, filterMap_cons_some hev, filterMap_nil,
        Headers.values_setAll_last]
    have hvalue : identityValues f.cfg session u.1 = identityValues f.cfg session u'.1 := by
      have hiff : ∀ w : String, Headers.Same w u.1 ↔ Headers.Same w u'.1 :=
        fun w => ⟨fun hw => hw.trans hsame, fun hw => hw.trans hsame.symm⟩
      simp only [identityValues, hiff]
    rw [hlast u hu, hlast u' hu'] at hvalue
    simpa using hvalue

end

/-- The identity headers of a request with a valid session cannot be spoofed
exactly when the request is protected. -/
theorem unspoofable_iff (lib : Library) (f : Filter) (r : RequestHeaders) (token : String)
    (session : SessionData) (hcarries : Carries lib.toCodec f.cfg r token session) :
    Unspoofable lib f r token session ↔ Protected f.cfg session r := by
  constructor
  · intro h
    have hpath := h.not_bypass hcarries
    exact ⟨hpath, h.sessionDecides hcarries hpath⟩
  · rintro ⟨hpath, hdecides⟩
    have hone : ∀ r', SameRequest f.cfg r r' → Carries lib.toCodec f.cfg r' token session →
        ∀ order, f.cfg.attributeHeaders.Visits order →
          (onRequestHeaders lib f order r').status = .continue →
          ∀ name ∈ identityHeaders f.cfg, (onRequestHeaders lib f order r').headers.values name =
            identityValues f.cfg session name := by
      intro r' hsame hcarries' order horder hstatus name hname
      rw [← hsame.path] at hpath
      obtain ⟨hneeds, hheaders⟩ := headers_of_session hpath hcarries' hstatus
      have hneeds' : r.NeedsSession f.cfg := by
        rwa [RequestHeaders.NeedsSession, hsame.path, hsame.method] at hneeds
      rw [hheaders]
      exact values_setUpstreamHeaders (hdecides hneeds') horder _ hname
    intro r₁ r₂ hsame₁ hsame₂ hcarries₁ hcarries₂ order₁ order₂ horder₁ horder₂ hstatus₁ hstatus₂
      name hname
    have h₁ := hone r₁ hsame₁ hcarries₁ order₁ horder₁ hstatus₁ name hname
    have h₂ := hone r₂ hsame₂ hcarries₂ order₂ horder₂ hstatus₂ name hname
    exact ⟨h₁.trans h₂.symm, h₁⟩

/-- One attribute header, and random keys of zeros. -/
def roleSources : Sources where
  unmarshal := fun _ => .ok {
    entityID := "https://sp"
    acsPath := "/saml/acs"
    idpMetadataXML := some ⟨[60], ""⟩
    attributeHeaders := ⟨[("Role", "X-Saml-Role")], List.nodup_singleton _⟩ }
  parseDuration := fun _ => .error "invalid duration"
  readFile := fun _ => .error "no such file"
  generateSelfSignedCertAndKey := fun _ => .ok ([1], [2])
  parseCertificatePEM := fun _ => .ok ()
  parsePrivateKeyPEM := fun _ => .ok ()
  randomKey := fun n => .ok (List.replicate n 0)

def roleConfig : Config where
  entityID := "https://sp"
  acsPath := "/saml/acs"
  idpMetadataXML := [60]
  idpMetadataURL := ""
  idpMetadataCluster := ""
  idpMetadataFetchDelay := 1000000000
  idpMetadataFetchMaxAttempts := 3
  spCertPEM := [1]
  spKeyPEM := [2]
  spCertAutoGenerated := true
  cookieSigningKey := List.replicate 32 0
  bypassPaths := []
  attributeHeaders := ⟨[("Role", "X-Saml-Role")], List.nodup_singleton _⟩

def roleFilter : Filter := .create roleConfig

/-- A library that knows one session; its tag of a message is the message. -/
def oneSession (session : SessionData) : Library where
  computeHMAC := fun _ message => message.toUTF8.data.toList
  marshal := fun _ => .ok [1]
  unmarshal := fun _ => .ok session
  parseQuery := fun _ => .error "no query"
  decodeStd := fun _ => .error "no text"
  urlParse := fun _ => .error "no URL"
  parseXMLResponse := fun _ _ _ _ => .error ⟨"no response", none⟩
  generateAuthnRequest := fun _ _ _ _ _ => .ok "https://idp"
  generateSPMetadata := fun _ _ => .ok []
  urlString := fun scheme host path => scheme ++ "://" ++ host ++ path

def roleRequest (role : String) : RequestHeaders where
  path := "/app?q"
  method := "GET"
  scheme := "https"
  host := "sp"
  headers := [("cookie", "a=b; _saml_session=AQ.QVE"), ("x-saml-role", role)]
  endStream := true
  idpMetadata := some ⟨"https://idp", "https://idp/sso", []⟩
  now := 10

def noRole : SessionData := ⟨"alice", .empty, 20⟩

def withRole : SessionData := ⟨"alice", ⟨[("Role", ["dev", "ops"])], List.nodup_singleton _⟩, 20⟩

theorem roleRequest_carries (session : SessionData) (hexpires : 10 ≤ session.expiresAt)
    (role : String) :
    Carries (oneSession session).toCodec roleConfig (roleRequest role) "AQ.QVE" session := by
  have hcookie : (roleRequest role).headers.getOne "cookie" = "a=b; _saml_session=AQ.QVE" := rfl
  refine ⟨by rw [hcookie]; decide +kernel, by decide, ?_⟩
  have hsplit : splitToken "AQ.QVE" = some ("AQ", "QVE") := by decide +kernel
  have hsig : Base64.decode "QVE" =
      some ((oneSession session).computeHMAC roleConfig.cookieSigningKey "AQ") := by
    show Base64.decode "QVE" = some "AQ".toUTF8.data.toList
    decide +kernel
  have hpayload : Base64.decode "AQ" = some [1] := by decide +kernel
  simp only [validateSessionToken, hsplit, hsig, hpayload, ne_eq, not_true_eq_false, if_false]
  show (if session.expiresAt < 10 then _ else Except.ok session) = _
  rw [if_neg (not_lt.mpr hexpires)]

/-- What the role request is forwarded with. -/
def forwardedRole (session : SessionData) (role : String) : Outcome :=
  onRequestHeaders (oneSession session) roleFilter roleFilter.cfg.attributeHeaders.entries
    (roleRequest role)

/-- The role that the client sends is forwarded. -/
theorem absent_role_spoofed :
    parseConfig roleSources [123] = .ok roleConfig ∧
      SameRequest roleConfig (roleRequest "user") (roleRequest "admin") ∧
      Carries (oneSession noRole).toCodec roleConfig (roleRequest "user") "AQ.QVE" noRole ∧
      Carries (oneSession noRole).toCodec roleConfig (roleRequest "admin") "AQ.QVE" noRole ∧
      (forwardedRole noRole "user").status = .continue ∧
      (forwardedRole noRole "admin").status = .continue ∧
      (forwardedRole noRole "user").headers.values "X-Saml-Role" = ["user"] ∧
      (forwardedRole noRole "admin").headers.values "X-Saml-Role" = ["admin"] ∧
      ¬Unspoofable (oneSession noRole) roleFilter (roleRequest "user") "AQ.QVE" noRole := by
  have hcarries := roleRequest_carries noRole (by decide)
  have hsame : SameRequest roleConfig (roleRequest "user") (roleRequest "admin") :=
    ⟨rfl, rfl, rfl, rfl, rfl, by decide +kernel⟩
  have huser : (forwardedRole noRole "user").status = .continue := by decide +kernel
  have hadmin : (forwardedRole noRole "admin").status = .continue := by decide +kernel
  have huserRole : (forwardedRole noRole "user").headers.values "X-Saml-Role" = ["user"] := by
    decide +kernel
  have hadminRole : (forwardedRole noRole "admin").headers.values "X-Saml-Role" = ["admin"] := by
    decide +kernel
  refine ⟨by rfl, hsame, hcarries _, hcarries _, huser, hadmin, huserRole, hadminRole, ?_⟩
  intro h
  have heq : (forwardedRole noRole "user").headers.values "X-Saml-Role" =
      (forwardedRole noRole "admin").headers.values "X-Saml-Role" :=
    (h (roleRequest "user") (roleRequest "admin") ⟨rfl, rfl, rfl, rfl, rfl, rfl⟩ hsame
      (hcarries _) (hcarries _) _ _ (GoMap.visits_entries _) (GoMap.visits_entries _)
      huser hadmin "X-Saml-Role" (by decide)).1
  rw [huserRole, hadminRole] at heq
  exact absurd heq (by decide)

/-- With the role in the session the request is protected. -/
theorem role_unspoofable :
    Carries (oneSession withRole).toCodec roleFilter.cfg (roleRequest "admin") "AQ.QVE" withRole ∧
      Unspoofable (oneSession withRole) roleFilter (roleRequest "admin") "AQ.QVE" withRole := by
  have hcarries : Carries (oneSession withRole).toCodec roleFilter.cfg (roleRequest "admin")
      "AQ.QVE" withRole := roleRequest_carries withRole (by decide) "admin"
  have hupdates : attributeUpdates roleFilter.cfg withRole = [("X-Saml-Role", "dev,ops")] := by
    decide +kernel
  refine ⟨hcarries, (unspoofable_iff _ roleFilter _ _ _ hcarries).mpr ?_⟩
  refine ⟨by decide, fun _ => ⟨?_, ?_⟩⟩
  · intro e he
    rw [mem_singleton.mp he, hupdates]
    exact .inr ⟨_, mem_singleton_self _, rfl⟩
  · intro u hu u' hu' _
    rw [hupdates, mem_singleton] at hu hu'
    rw [hu, hu']

end BuiltOnEnvoy.Saml
