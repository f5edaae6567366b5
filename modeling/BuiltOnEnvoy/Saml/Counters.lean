import BuiltOnEnvoy.Saml.Gate

/-!
# The counters of the SAML filter

The factory defines the counters and keeps them, but the filters it makes do not
get them: a filter without counters counts nothing in any of its callbacks. The
filters of the factory count what happens exactly if there is nothing to count, which
is a matter of the requests and of what the libraries answer for them.
-/

namespace BuiltOnEnvoy.Saml

open Foundations List

/-- `samlFilterFactory`. -/
structure FilterFactory where
  config : Config
  metrics : SamlMetrics

/-- The counters, each of them if its definition succeeds. -/
def defineMetrics (defineCounter : String → Bool) : SamlMetrics where
  hasAuthnRequests := defineCounter "saml_authn_requests_total"
  hasAssertionsValidated := defineCounter "saml_assertions_validated_total"
  hasSessionsCreated := defineCounter "saml_sessions_created_total"
  hasSessionsValidated := defineCounter "saml_sessions_validated_total"

/-- `samlFilterFactory.Create`: the configuration of the route comes first. -/
def FilterFactory.create (factory : FilterFactory) (perRoute : Option Config) : Filter :=
  .create (perRoute.getD factory.config)

/-- A request to be served: the configuration of its route, the order in which the attribute
headers are visited, and its callbacks. -/
structure Served where
  perRoute : Option Config
  order : List (String × String)
  request : RequestHeaders
  events : List Event

/-- The outcomes of all callbacks of the requests, with a filter for each. -/
def history (lib : Library) (create : Option Config → Filter) (requests : List Served) :
    List Outcome :=
  requests.flatMap fun q => serve lib (create q.perRoute) q.order q.request q.events

/-- The callback sends the user to the identity provider. -/
def Outcome.redirects (out : Outcome) : Bool :=
  out.response.any fun response => response.details == "saml-redirect"

def Outcome.setsCookie (out : Outcome) : Bool :=
  out.response.any fun response => response.headers.any fun h => h.1 == "set-cookie"

/-- The result of validating a token, as it is counted. -/
def validationResult (codec : Codec) (cfg : Config) (token : String) (now : ℤ) : String :=
  match validateSessionToken codec cfg.cookieSigningKey token now with
  | .ok _ => "valid"
  | .error err => if "expired".toList <:+: err.toList then "expired" else "invalid"

/-- The results of the tokens that a request has validated: one if it gets that far and has a
session cookie. -/
def validations (codec : Codec) (cfg : Config) (r : RequestHeaders) : List String :=
  let cookieHeader := r.headers.getOne "cookie"
  let token := extractSessionCookie cookieHeader cfg.cookieName
  if getRequestPath r.path ∉ cfg.bypassPaths ∧ r.idpMetadata.isSome = true ∧
      getRequestPath r.path ≠ cfg.metadataPath ∧
      ¬(getRequestPath r.path = cfg.acsPath ∧ equalFold r.method "POST") ∧
      cookieHeader ≠ "" ∧ token ≠ "" then
    [validationResult codec cfg token r.now]
  else []

def Metric.validated : Metric → Option String
  | .sessionsValidated result => some result
  | _ => none

/-- The counters are the numbers of redirects and of session cookies, and every validated token is
counted once, with its result. -/
structure CountsWhatHappened (lib : Library) (create : Option Config → Filter)
    (requests : List Served) : Prop where
  authnRequests : ((history lib create requests).flatMap (·.counted)).count .authnRequests =
    (history lib create requests).countP (·.redirects)
  sessionsCreated : ((history lib create requests).flatMap (·.counted)).count .sessionsCreated =
    (history lib create requests).countP (·.setsCookie)
  sessionsValidated : ((history lib create requests).flatMap (·.counted)).filterMap (·.validated) =
    requests.flatMap fun q => validations lib.toCodec (create q.perRoute).cfg q.request

/-- A callback of a filter without counters counts nothing and leaves the filter without them. -/
structure Uncounted (out : Outcome) : Prop where
  counted : out.counted = []
  metrics : out.filter.metrics = none

section

variable {f : Filter} (h : f.metrics = none)

include h

theorem increment_nil (defined : SamlMetrics → Bool) (metric : Metric) :
    f.increment defined metric = [] := by
  rw [Filter.increment, h]

theorem redirectToIdP_uncounted (lib : Library) (idpMeta : IDPMetadata) (r : RequestHeaders) :
    Uncounted (redirectToIdP lib f idpMeta r []) := by
  unfold redirectToIdP
  cases lib.generateAuthnRequest f.cfg idpMeta f.requestScheme f.requestHost
      (buildOriginalURL lib f r.path) with
  | error err => exact ⟨rfl, h⟩
  | ok redirectURL => exact ⟨increment_nil h _ _, h⟩

theorem onRequestHeaders_uncounted (lib : Library) (order : List (String × String))
    (r : RequestHeaders) : Uncounted (onRequestHeaders lib f order r) := by
  unfold onRequestHeaders
  cases r.idpMetadata with
  | none =>
    dsimp only
    split_ifs <;> exact ⟨rfl, h⟩
  | some idpMeta =>
    dsimp only
    split_ifs
    iterate 4 exact ⟨rfl, h⟩
    cases readSession lib.toCodec f.cfg r.headers r.now with
    | ok session => exact ⟨increment_nil h _ _, h⟩
    | error metric =>
      cases metric with
      | none =>
        apply redirectToIdP_uncounted
        exact h
      | some metric =>
        dsimp only
        rw [increment_nil]
        · apply redirectToIdP_uncounted
          exact h
        · exact h

theorem complete_uncounted (lib : Library) (c : Completion) (stopped : Status) :
    Uncounted (complete lib f c stopped) := by
  unfold complete onRequestComplete
  cases c.idpMetadata with
  | none => exact ⟨rfl, h⟩
  | some idpMeta =>
    dsimp only
    cases handleACSPost lib f.cfg idpMeta c.body f.requestScheme f.requestHost c.now with
    | error err =>
      cases err with
      | panic => exact ⟨rfl, h⟩
      | failure message => exact ⟨increment_nil h _ _, h⟩
    | ok posted =>
      dsimp only
      cases createSessionToken lib.toCodec f.cfg.cookieSigningKey posted.1 with
      | error err => exact ⟨increment_nil h _ _, h⟩
      | ok token =>
        refine ⟨?_, h⟩
        dsimp only
        rw [increment_nil h, increment_nil h, append_nil]

theorem step_uncounted (lib : Library) (e : Event) : Uncounted (step lib f e) := by
  cases e with
  | requestBody c endStream =>
    rw [step, onRequestBody]
    split_ifs
    · exact complete_uncounted h lib c _
    · exact ⟨rfl, h⟩
    · exact ⟨rfl, h⟩
  | requestTrailers c =>
    rw [step, onRequestTrailers]
    split_ifs
    · exact complete_uncounted h lib c _
    · exact ⟨rfl, h⟩

theorem run_uncounted (lib : Library) (events : List Event) :
    ∀ out ∈ run lib f events, Uncounted out := by
  induction events generalizing f with
  | nil => simp [run]
  | cons e rest ih =>
    have hstep := step_uncounted h lib e
    rw [run, forall_mem_cons]
    refine ⟨hstep, ?_⟩
    split_ifs
    · simp
    · exact ih hstep.metrics

theorem serve_uncounted (lib : Library) (order : List (String × String)) (r : RequestHeaders)
    (events : List Event) : ∀ out ∈ serve lib f order r events, Uncounted out := by
  have hheaders := onRequestHeaders_uncounted h lib order r
  rw [serve, forall_mem_cons]
  refine ⟨hheaders, ?_⟩
  split_ifs
  · simp
  · exact run_uncounted hheaders.metrics lib events

end

theorem history_counted_nil (lib : Library) (factory : FilterFactory) (requests : List Served) :
    (history lib factory.create requests).flatMap (·.counted) = [] := by
  rw [flatMap_eq_nil_iff]
  intro out hout
  obtain ⟨q, -, hserved⟩ := mem_flatMap.mp hout
  exact (serve_uncounted rfl lib q.order q.request q.events out hserved).counted

/-- The callback with which a post is complete: the end of its body, or its trailers. -/
def Event.completion : Event → Option Completion
  | .requestBody c true => some c
  | .requestBody _ false => none
  | .requestTrailers c => some c

/-- The post has a response of the identity provider for a user whose session can be written. -/
def SignsIn (lib : Library) (cfg : Config) (scheme host : String) (c : Completion) : Prop :=
  ∃ idpMeta values responseXML acsURL assertion payload,
    c.idpMetadata = some idpMeta ∧ lib.parseQuery c.body = .ok values ∧
    getValue values "SAMLResponse" ≠ "" ∧
    lib.decodeStd (getValue values "SAMLResponse") = .ok responseXML ∧
    lib.urlParse (buildACSURL cfg scheme host) = .ok acsURL ∧
    lib.parseXMLResponse cfg idpMeta responseXML acsURL = .ok assertion ∧
    assertion.nameID.getD "" ≠ "" ∧
    lib.marshal ⟨assertion.nameID.getD "", extractAttributes assertion,
      c.now + cfg.sessionDuration⟩ = .ok payload

/-- The request has no session token and cannot be redirected. -/
def Unsent (lib : Library) (cfg : Config) (r : RequestHeaders) (idpMeta : IDPMetadata) : Prop :=
  (r.headers.getOne "cookie" = "" ∨
    extractSessionCookie (r.headers.getOne "cookie") cfg.cookieName = "") ∧
  ∃ err, lib.generateAuthnRequest cfg idpMeta r.scheme r.host (lib.urlString
    (if r.scheme = "" then "https" else r.scheme) r.host r.path) = .error err

/-- Nothing that is counted happens in a request. Past the bypassed paths, the wait for the
metadata and their own path, a post signs nobody in, and any other request is not sent on. -/
def Uneventful (lib : Library) (cfg : Config) (r : RequestHeaders) (events : List Event) : Prop :=
  getRequestPath r.path ∉ cfg.bypassPaths → ∀ idpMeta, r.idpMetadata = some idpMeta →
    getRequestPath r.path ≠ cfg.metadataPath →
      if getRequestPath r.path = cfg.acsPath ∧ equalFold r.method "POST" then
        r.endStream = false → ∀ c, events.findSome? Event.completion = some c →
          ¬SignsIn lib cfg r.scheme r.host c
      else Unsent lib cfg r idpMeta

def Outcome.Quiet (out : Outcome) : Prop :=
  out.redirects = false ∧ out.setsCookie = false

theorem quiet_of_none {out : Outcome} (h : out.response = none) : out.Quiet := by
  simp [Outcome.Quiet, Outcome.redirects, Outcome.setsCookie, h]

theorem complete_quiet_iff (lib : Library) (f : Filter) (c : Completion) (stopped : Status) :
    (complete lib f c stopped).Quiet ↔ ¬SignsIn lib f.cfg f.requestScheme f.requestHost c := by
  unfold complete onRequestComplete handleACSPost validateSAMLResponse createSessionToken SignsIn
    Outcome.Quiet Outcome.redirects Outcome.setsCookie
  cases hmeta : c.idpMetadata with
  | none => simp [metadataPending, plainResponse]
  | some idpMeta =>
    cases hquery : lib.parseQuery c.body with
    | error err => simp
    | ok values =>
      by_cases hvalue : getValue values "SAMLResponse" = ""
      · simp [hvalue]
      cases hdecode : lib.decodeStd (getValue values "SAMLResponse") with
      | error err => simp [hvalue, hdecode]
      | ok responseXML =>
        cases hurl : lib.urlParse (buildACSURL f.cfg f.requestScheme f.requestHost) with
        | error err => simp [hvalue, hdecode]
        | ok acsURL =>
          cases hparse : lib.parseXMLResponse f.cfg idpMeta responseXML acsURL with
          | error err =>
            cases hprivate : err.privateErr <;>
              simp [hvalue, hdecode, hparse, extractSAMLError, hprivate]
          | ok assertion =>
            by_cases hname : assertion.nameID.getD "" = ""
            · simp [hvalue, hdecode, hparse, hname]
            · cases hmarshal : lib.marshal ⟨assertion.nameID.getD "",
                extractAttributes assertion, c.now + f.cfg.sessionDuration⟩ <;>
                simp [hvalue, hdecode, hparse, hname, hmarshal, internalError, plainResponse]

theorem complete_ends (lib : Library) (f : Filter) (c : Completion) (stopped : Status) :
    (complete lib f c stopped).ends = true := by
  unfold complete
  cases onRequestComplete lib f c <;> rfl

theorem run_plain (lib : Library) {f : Filter} (h : f.isACSRequest = false) (events : List Event) :
    ∀ out ∈ run lib f events, out.Quiet := by
  induction events with
  | nil => simp [run]
  | cons e rest ih =>
    have hstep : step lib f e = ⟨f, .continue, none, [], []⟩ := by
      cases e <;> simp [step, onRequestBody, onRequestTrailers, h]
    rw [run, forall_mem_cons, hstep]
    exact ⟨quiet_of_none rfl, ih⟩

theorem run_post (lib : Library) {f : Filter} (h : f.isACSRequest = true) (events : List Event) :
    (∀ out ∈ run lib f events, out.Quiet) ↔
      ∀ c, events.findSome? Event.completion = some c →
        ¬SignsIn lib f.cfg f.requestScheme f.requestHost c := by
  induction events with
  | nil => simp [run]
  | cons e rest ih =>
    have hlast : ∀ c stopped, step lib f e = complete lib f c stopped → e.completion = some c →
        ((∀ out ∈ run lib f (e :: rest), out.Quiet) ↔
          ∀ c, (e :: rest).findSome? Event.completion = some c →
            ¬SignsIn lib f.cfg f.requestScheme f.requestHost c) := by
      intro c stopped hstep hcompletion
      rw [run, hstep, if_pos (complete_ends lib f c stopped), findSome?_cons, hcompletion]
      simpa using complete_quiet_iff lib f c stopped
    cases e with
    | requestBody c endStream =>
      cases endStream with
      | true => exact hlast c .stopNoBuffer (by simp [step, onRequestBody, h]) rfl
      | false =>
        have hstep : step lib f (.requestBody c false) = ⟨f, .stopAndBuffer, none, [], []⟩ := by
          simp [step, onRequestBody, h]
        rw [run, forall_mem_cons, hstep, findSome?_cons]
        exact (and_iff_right (quiet_of_none rfl)).trans ih
    | requestTrailers c => exact hlast c .stop (by simp [step, onRequestTrailers, h]) rfl

theorem redirectToIdP_quiet_iff (lib : Library) (f : Filter) (idpMeta : IDPMetadata)
    (r : RequestHeaders) (counted : List Metric) :
    (redirectToIdP lib f idpMeta r counted).Quiet ↔
      ∃ err, lib.generateAuthnRequest f.cfg idpMeta f.requestScheme f.requestHost
        (buildOriginalURL lib f r.path) = .error err := by
  unfold redirectToIdP
  cases lib.generateAuthnRequest f.cfg idpMeta f.requestScheme f.requestHost
      (buildOriginalURL lib f r.path) with
  | error err =>
    simp [Outcome.Quiet, Outcome.redirects, Outcome.setsCookie, internalError, plainResponse]
  | ok redirectURL => simp [Outcome.Quiet, Outcome.redirects]

theorem serve_answered {lib : Library} {f : Filter} {order : List (String × String)}
    {r : RequestHeaders} {events : List Event} {out : Outcome} {response : LocalResponse}
    (hout : onRequestHeaders lib f order r = out) (hresponse : out.response = some response) :
    serve lib f order r events = [out] := by
  simp [serve, hout, Outcome.ends, hresponse]

/-- Nothing is to be counted in a request. -/
def ServedQuietly (lib : Library) (cfg : Config) (order : List (String × String))
    (r : RequestHeaders) (events : List Event) : Prop :=
  (∀ out ∈ serve lib (.create cfg) order r events, out.Quiet) ∧ validations lib.toCodec cfg r = []

section

variable {lib : Library} {cfg : Config} {order : List (String × String)} {r : RequestHeaders}
  {events : List Event} {idpMeta : IDPMetadata}
  (hbypass : getRequestPath r.path ∉ cfg.bypassPaths) (hmeta : r.idpMetadata = some idpMeta)
  (hmetadata : getRequestPath r.path ≠ cfg.metadataPath)
include hbypass hmeta hmetadata

theorem servedQuietly_acs (hacs : getRequestPath r.path = cfg.acsPath ∧ equalFold r.method "POST") :
    ServedQuietly lib cfg order r events ↔ Uneventful lib cfg r events := by
  have hvalidations : validations lib.toCodec cfg r = [] := by simp [validations, hacs]
  have huneventful : Uneventful lib cfg r events ↔ (r.endStream = false → ∀ c,
      events.findSome? Event.completion = some c → ¬SignsIn lib cfg r.scheme r.host c) := by
    simp [Uneventful, hbypass, hmeta, hmetadata, if_pos hacs]
  have hheaders := @onRequestHeaders.eq_1 lib (.create cfg) order r
  simp only [Filter.create, hbypass, if_false, hmeta, hmetadata] at hheaders
  simp only [hacs, and_self, if_true] at hheaders
  rw [ServedQuietly, huneventful, and_iff_left hvalidations]
  cases hend : r.endStream with
  | true =>
    simp only [hend, if_true] at hheaders
    refine iff_of_true ?_ (by simp)
    rw [Filter.create, serve_answered hheaders rfl, forall_mem_singleton]
    exact ⟨rfl, rfl⟩
  | false =>
    simp only [hend, Bool.false_eq_true, if_false] at hheaders
    rw [Filter.create, serve, hheaders, forall_mem_cons, and_iff_right (quiet_of_none rfl),
      forall_prop_of_true rfl]
    exact run_post lib rfl events

theorem servedQuietly_session
    (hacs : ¬(getRequestPath r.path = cfg.acsPath ∧ equalFold r.method "POST")) :
    ServedQuietly lib cfg order r events ↔ Uneventful lib cfg r events := by
  have huneventful : Uneventful lib cfg r events ↔ Unsent lib cfg r idpMeta := by
    simp [Uneventful, hbypass, hmeta, hmetadata, if_neg hacs]
  have hheaders := @onRequestHeaders.eq_1 lib (.create cfg) order r
  simp only [Filter.create, hbypass, if_false, hmeta, hmetadata, hacs] at hheaders
  by_cases hcookie : r.headers.getOne "cookie" = "" ∨
      extractSessionCookie (r.headers.getOne "cookie") cfg.cookieName = ""
  · have hsession : readSession lib.toCodec cfg r.headers r.now = .error none := if_pos hcookie
    have hvalidations : validations lib.toCodec cfg r = [] := by
      rw [validations, if_neg]
      rintro ⟨-, -, -, -, hnonempty, htoken⟩
      exact hcookie.elim hnonempty htoken
    simp only [hsession] at hheaders
    obtain ⟨-, hresponse⟩ := redirectToIdP_answered lib _ idpMeta r []
    obtain ⟨response, hresponse⟩ := Option.ne_none_iff_exists'.mp hresponse
    rw [ServedQuietly, Filter.create, serve_answered hheaders hresponse, forall_mem_singleton,
      redirectToIdP_quiet_iff, and_iff_left hvalidations, huneventful, Unsent,
      and_iff_right hcookie]
    rfl
  · refine iff_of_false (fun h => ?_) fun h => hcookie (huneventful.mp h).1
    have hvalidations := h.2
    rw [not_or] at hcookie
    simp [validations, hbypass, hmeta, hmetadata, hacs, hcookie] at hvalidations

end

/-- Nothing is to be counted in a request exactly if it is uneventful. -/
theorem servedQuietly_iff (lib : Library) (cfg : Config) (order : List (String × String))
    (r : RequestHeaders) (events : List Event) :
    ServedQuietly lib cfg order r events ↔ Uneventful lib cfg r events := by
  have hheaders := @onRequestHeaders.eq_1 lib (.create cfg) order r
  dsimp only [Filter.create] at hheaders
  by_cases hbypass : getRequestPath r.path ∈ cfg.bypassPaths
  · simp only [hbypass, if_true] at hheaders
    refine iff_of_true ⟨?_, by simp [validations, hbypass]⟩ (absurd hbypass)
    rw [serve, Filter.create, hheaders, forall_mem_cons]
    exact ⟨quiet_of_none rfl, run_plain lib rfl events⟩
  simp only [hbypass, if_false] at hheaders
  cases hmeta : r.idpMetadata with
  | none =>
    simp only [hmeta] at hheaders
    refine iff_of_true ⟨?_, by simp [validations, hmeta]⟩ (by simp [Uneventful, hmeta])
    rw [Filter.create, serve_answered hheaders rfl, forall_mem_singleton]
    exact ⟨rfl, rfl⟩
  | some idpMeta =>
    simp only [hmeta] at hheaders
    by_cases hmetadata : getRequestPath r.path = cfg.metadataPath
    · simp only [hmetadata, if_true] at hheaders
      refine iff_of_true ⟨?_, by simp [validations, hmetadata]⟩ fun _ _ _ h => absurd hmetadata h
      rw [Filter.create, serve_answered hheaders rfl, forall_mem_singleton, serveMetadata]
      cases lib.generateSPMetadata cfg idpMeta <;> exact ⟨rfl, rfl⟩
    by_cases hacs : getRequestPath r.path = cfg.acsPath ∧ equalFold r.method "POST"
    · exact servedQuietly_acs hbypass hmeta hmetadata hacs
    · exact servedQuietly_session hbypass hmeta hmetadata hacs

/-- With the filters of the factory, whatever counters it has defined, the counters are right
exactly if all requests are uneventful. -/
theorem countsWhatHappened_iff (lib : Library) (factory : FilterFactory) (requests : List Served) :
    CountsWhatHappened lib factory.create requests ↔
      ∀ q ∈ requests, Uneventful lib (q.perRoute.getD factory.config) q.request q.events := by
  have hnone := history_counted_nil lib factory requests
  have hquiet : (∀ q ∈ requests,
      Uneventful lib (q.perRoute.getD factory.config) q.request q.events) ↔
      (∀ out ∈ history lib factory.create requests, out.Quiet) ∧
        ∀ q ∈ requests, validations lib.toCodec (factory.create q.perRoute).cfg q.request = [] := by
    simp only [history, forall_mem_flatMap]
    rw [← forall₂_and]
    exact forall₂_congr fun q _ => (servedQuietly_iff lib _ q.order q.request q.events).symm
  rw [hquiet]
  constructor
  · intro h
    have hredirects := h.authnRequests
    have hcreated := h.sessionsCreated
    have hvalidated := h.sessionsValidated
    rw [hnone, count_nil, eq_comm, countP_eq_zero] at hredirects hcreated
    rw [hnone, filterMap_nil, eq_comm, flatMap_eq_nil_iff] at hvalidated
    refine ⟨fun out hout => ⟨?_, ?_⟩, hvalidated⟩
    · exact Bool.eq_false_iff.mpr (hredirects out hout)
    · exact Bool.eq_false_iff.mpr (hcreated out hout)
  · rintro ⟨hquiet, hvalidated⟩
    refine ⟨?_, ?_, ?_⟩
    · rw [hnone, count_nil, eq_comm, countP_eq_zero]
      exact fun out hout => Bool.eq_false_iff.mp (hquiet out hout).1
    · rw [hnone, count_nil, eq_comm, countP_eq_zero]
      exact fun out hout => Bool.eq_false_iff.mp (hquiet out hout).2
    · rw [hnone, filterMap_nil, eq_comm, flatMap_eq_nil_iff]
      exact hvalidated

/-- The factory for a configuration, with every counter defined. -/
def countingFactory : FilterFactory := ⟨roleConfig, defineMetrics fun _ => true⟩

/-- The metadata are served, and there is nothing to count. -/
theorem metadata_counted :
    CountsWhatHappened (oneSession noRole) countingFactory.create
      [⟨none, [], { roleRequest "user" with path := "/saml/metadata" }, []⟩] := by
  rw [countsWhatHappened_iff, forall_mem_singleton]
  exact fun _ _ _ h => absurd (by decide +kernel) h

/-- A request without a cookie. -/
def firstVisit : Served := ⟨none, [], { roleRequest "user" with headers := [] }, []⟩

/-- A user is sent to the identity provider and no counter changes. -/
theorem redirect_notCounted :
    countingFactory.metrics = ⟨true, true, true, true⟩ ∧
      (history (oneSession noRole) countingFactory.create [firstVisit]).map (·.redirects) =
        [true] ∧
      (history (oneSession noRole) countingFactory.create [firstVisit]).flatMap (·.counted) = [] ∧
      ¬CountsWhatHappened (oneSession noRole) countingFactory.create [firstVisit] := by
  have hnone := history_counted_nil (oneSession noRole) countingFactory [firstVisit]
  refine ⟨rfl, by decide +kernel, hnone, fun h => ?_⟩
  have hcount := h.authnRequests
  rw [hnone] at hcount
  revert hcount
  decide +kernel

end BuiltOnEnvoy.Saml
