import BuiltOnEnvoy.Saml.IdentityHeaders

/-!
# The authentication gate

The request callbacks of a stream, headers first and none after a local
response. A request reaches the upstream service when one of its callbacks
answers that it continues: later callbacks also release what earlier ones held
back.
-/

namespace BuiltOnEnvoy.Saml

open Foundations List

inductive Event
  | requestBody (c : Completion) (endStream : Bool)
  | requestTrailers (c : Completion)

def step (lib : Library) (f : Filter) : Event → Outcome
  | .requestBody c endStream => onRequestBody lib f c endStream
  | .requestTrailers c => onRequestTrailers lib f c

/-- No callback follows. -/
def Outcome.ends (out : Outcome) : Bool :=
  out.response.isSome || out.status == .panicked

/-- The outcomes of the callbacks after the headers. -/
def run (lib : Library) (f : Filter) : List Event → List Outcome
  | [] => []
  | e :: rest =>
    let out := step lib f e
    out :: if out.ends then [] else run lib out.filter rest

/-- The outcomes of the callbacks of a stream with this filter. -/
def serve (lib : Library) (f : Filter) (order : List (String × String)) (r : RequestHeaders)
    (events : List Event) : List Outcome :=
  let out := onRequestHeaders lib f order r
  out :: if out.ends then [] else run lib out.filter events

def stream (lib : Library) (cfg : Config) (order : List (String × String)) (r : RequestHeaders)
    (events : List Event) : List Outcome :=
  serve lib (.create cfg) order r events

def Forwarded (outcomes : List Outcome) : Prop :=
  ∃ out ∈ outcomes, out.status = .continue

theorem onRequestComplete_stops {lib : Library} {f : Filter} {c : Completion} {done : Completed}
    (h : onRequestComplete lib f c = some done) : done.proceeds = false := by
  unfold onRequestComplete at h
  cases hmetadata : c.idpMetadata with
  | none =>
    simp only [hmetadata, Option.some.injEq] at h
    rw [← h]
  | some idpMeta =>
    simp only [hmetadata] at h
    cases hpost : handleACSPost lib f.cfg idpMeta c.body f.requestScheme f.requestHost c.now with
    | error err =>
      cases err with
      | panic => simp [hpost] at h
      | failure publicMsg =>
        simp only [hpost, Option.some.injEq] at h
        rw [← h]
    | ok result =>
      simp only [hpost] at h
      split at h <;> cases h <;> rfl

theorem complete_stops (lib : Library) (f : Filter) (c : Completion) {stopped : Status}
    (hstopped : stopped ≠ .continue) :
    (complete lib f c stopped).status ≠ .continue ∧ (complete lib f c stopped).filter = f := by
  unfold complete
  cases hdone : onRequestComplete lib f c with
  | none => simp
  | some done => simpa [onRequestComplete_stops hdone] using hstopped

/-- A callback of a post holds the request back and leaves the filter as it is. -/
theorem step_consumer (lib : Library) {f : Filter} (hacs : f.isACSRequest = true) (e : Event) :
    (step lib f e).status ≠ .continue ∧ (step lib f e).filter = f := by
  cases e with
  | requestBody c endStream =>
    cases endStream with
    | false => simp [step, onRequestBody, hacs]
    | true => simpa [step, onRequestBody, hacs] using complete_stops lib f c (by decide)
  | requestTrailers c =>
    simpa [step, onRequestTrailers, hacs] using complete_stops lib f c (by decide)

theorem run_consumer (lib : Library) {f : Filter} (hacs : f.isACSRequest = true)
    (events : List Event) : ¬Forwarded (run lib f events) := by
  induction events with
  | nil =>
    rintro ⟨out, hout, -⟩
    cases hout
  | cons e rest ih =>
    obtain ⟨hstatus, hfilter⟩ := step_consumer lib hacs e
    rintro ⟨out, hout, hcontinue⟩
    rcases mem_cons.mp hout with rfl | hout
    · exact hstatus hcontinue
    · split_ifs at hout
      · cases hout
      · rw [hfilter] at hout
        exact ih ⟨out, hout, hcontinue⟩

theorem forwarded_stream {lib : Library} {cfg : Config} {order : List (String × String)}
    {r : RequestHeaders} {events : List Event} (h : Forwarded (stream lib cfg order r events)) :
    (onRequestHeaders lib (.create cfg) order r).status = .continue := by
  by_contra hstatus
  obtain ⟨out, hout, hcontinue⟩ := h
  rcases mem_cons.mp hout with rfl | hout
  · exact hstatus hcontinue
  cases onRequestHeaders_cases lib (.create cfg) order r with
  | bypass _ hforward => exact hstatus hforward
  | session _ _ _ _ hforward => exact hstatus hforward
  | consumer _ _ hacs =>
    split_ifs at hout
    · cases hout
    · exact run_consumer lib hacs events ⟨out, hout, hcontinue⟩
  | answered _ _ hresponse =>
    have hends : (onRequestHeaders lib (.create cfg) order r).ends = true := by
      simp [Outcome.ends, Option.isSome_iff_ne_none.mpr hresponse]
    rw [if_pos hends] at hout
    cases hout

/-- The session was made into a token with this tag. -/
def TagIssued (codec : Codec) (signingKey : List UInt8) (issued : List SessionData)
    (tag : List UInt8) : Prop :=
  ∃ data ∈ issued, ∃ payload, codec.marshal data = .ok payload ∧
    tag = codec.computeHMAC signingKey (Base64.encode payload)

/-- Tags are injective and cannot be forged: a tag of some message that a client
presents was issued. -/
structure Unforgeable (codec : Codec) (signingKey : List UInt8) (issued : List SessionData)
    (token : String) : Prop where
  injective : Function.Injective (codec.computeHMAC signingKey)
  presented : ∀ encodedPayload encodedSig message,
    splitToken token = some (encodedPayload, encodedSig) →
    Base64.decode encodedSig = some (codec.computeHMAC signingKey message) →
    TagIssued codec signingKey issued (codec.computeHMAC signingKey message)

/-- The payload of the token is the payload of a token that `createSessionToken`
made, and the session in it has not expired. -/
def Authenticated (codec : Codec) (signingKey : List UInt8) (issued : List SessionData)
    (token : String) (now : ℤ) : Prop :=
  ∃ data ∈ issued, ∃ issuedToken encodedPayload encodedSig issuedSig payload session,
    createSessionToken codec signingKey data = .ok issuedToken ∧
    splitToken issuedToken = some (encodedPayload, issuedSig) ∧
    splitToken token = some (encodedPayload, encodedSig) ∧
    codec.marshal data = .ok payload ∧ Base64.decode encodedPayload = some payload ∧
    codec.unmarshal payload = .ok session ∧ now ≤ session.expiresAt

theorem splitToken_append {first second : String} (h : '.' ∉ second.toList) :
    splitToken (first ++ "." ++ second) = some (first, second) := by
  have hlist : (first ++ "." ++ second).toList = first.toList ++ '.' :: second.toList := by
    simp [String.toList_append]
  have hindex : lastIndexOf '.' (first ++ "." ++ second).toList = some first.toList.length := by
    rw [hlist, lastIndexOf_append _ h]
  rw [splitToken, hindex]
  simp [hlist]

theorem dot_notMem_encode (bytes : List UInt8) : '.' ∉ (Base64.encode bytes).toList :=
  fun h => Base64.sextet_of_mem_encode h (by decide)

theorem authenticated_of_valid {codec : Codec} {signingKey : List UInt8}
    {issued : List SessionData} {token : String} {now : ℤ} {session : SessionData}
    (hunforgeable : Unforgeable codec signingKey issued token)
    (hvalid : validateSessionToken codec signingKey token now = .ok session) :
    Authenticated codec signingKey issued token now := by
  obtain ⟨encodedPayload, encodedSig, payload, hsplit, hsig, hpayload, hsession, hexpires⟩ :=
    validateSessionToken_eq_ok hvalid
  obtain ⟨data, hdata, issuedPayload, hmarshal, htag⟩ :=
    hunforgeable.presented encodedPayload encodedSig encodedPayload hsplit hsig
  -- equal tags come from equal messages
  have hencoded : encodedPayload = Base64.encode issuedPayload := hunforgeable.injective htag
  have hsame : payload = issuedPayload := by
    rw [hencoded, Base64.decode_encode, Option.some.injEq] at hpayload
    exact hpayload.symm
  subst hsame hencoded
  have htoken : createSessionToken codec signingKey data = .ok (Base64.encode payload ++ "." ++
      Base64.encode (codec.computeHMAC signingKey (Base64.encode payload))) := by
    simp only [createSessionToken, hmarshal]
  exact ⟨data, hdata, _, _, encodedSig, _, payload, session, htoken,
    splitToken_append (dot_notMem_encode _), hsplit, hmarshal, hpayload, hsession, hexpires⟩

theorem readSession_eq_ok {codec : Codec} {cfg : Config} {headers : Headers} {now : ℤ}
    {session : SessionData} (h : readSession codec cfg headers now = .ok session) :
    validateSessionToken codec cfg.cookieSigningKey
      (extractSessionCookie (headers.getOne "cookie") cfg.cookieName) now = .ok session := by
  simp only [readSession] at h
  split_ifs at h
  split at h
  · rename_i session' hvalid
    rw [Except.ok.injEq] at h
    rw [hvalid, h]
  · split_ifs at h

/-- A request is forwarded only on a bypass path or with an issued token that
has not expired, and a post to the assertion consumer service never. -/
theorem stream_gated (lib : Library) (cfg : Config) (issued : List SessionData)
    (order : List (String × String)) (r : RequestHeaders) (events : List Event) :
    (Unforgeable lib.toCodec cfg.cookieSigningKey issued
        (extractSessionCookie (r.headers.getOne "cookie") cfg.cookieName) →
      Forwarded (stream lib cfg order r events) → getRequestPath r.path ∈ cfg.bypassPaths ∨
        Authenticated lib.toCodec cfg.cookieSigningKey issued
          (extractSessionCookie (r.headers.getOne "cookie") cfg.cookieName) r.now) ∧
    (getRequestPath r.path = cfg.acsPath → equalFold r.method "POST" →
      getRequestPath r.path ∉ cfg.bypassPaths → ¬Forwarded (stream lib cfg order r events)) := by
  constructor
  · intro hunforgeable h
    have hstatus := forwarded_stream h
    cases onRequestHeaders_cases lib (.create cfg) order r with
    | bypass hpath => exact .inl hpath
    | session session _ _ hsession =>
      exact .inr (authenticated_of_valid hunforgeable (readSession_eq_ok hsession))
    | consumer _ _ _ hstop => simp [hstop] at hstatus
    | answered _ hstop => simp [hstop] at hstatus
  · intro hacs hpost hpath h
    have hstatus := forwarded_stream h
    cases onRequestHeaders_cases lib (.create cfg) order r with
    | bypass hbypass => exact hpath hbypass
    | session _ _ hneeds => exact hneeds.2 ⟨hacs, hpost⟩
    | consumer _ _ _ hstop => simp [hstop] at hstatus
    | answered _ hstop => simp [hstop] at hstatus

theorem oneSession_injective (session : SessionData) (signingKey : List UInt8) :
    Function.Injective ((oneSession session).computeHMAC signingKey) := by
  intro message message' h
  have hbytes : message.toUTF8 = message'.toUTF8 := ByteArray.ext (Array.toList_inj.mp h)
  exact String.toByteArray_inj.mp hbytes

/-- A stream with a body, forwarded with the session that was issued. -/
theorem stream_gated_role :
    Unforgeable (oneSession noRole).toCodec roleConfig.cookieSigningKey [noRole] "AQ.QVE" ∧
      Forwarded (stream (oneSession noRole) roleConfig [] (roleRequest "user")
        [.requestBody ⟨[104], none, 11⟩ true]) ∧
      (getRequestPath (roleRequest "user").path ∈ roleConfig.bypassPaths ∨
        Authenticated (oneSession noRole).toCodec roleConfig.cookieSigningKey [noRole] "AQ.QVE"
          10) := by
  have hcookie : extractSessionCookie ((roleRequest "user").headers.getOne "cookie")
      roleConfig.cookieName = "AQ.QVE" := by decide +kernel
  have hunforgeable : Unforgeable (oneSession noRole).toCodec roleConfig.cookieSigningKey [noRole]
      "AQ.QVE" := by
    refine ⟨oneSession_injective noRole _, ?_⟩
    intro encodedPayload encodedSig message hsplit hsig
    have hparts : splitToken "AQ.QVE" = some ("AQ", "QVE") := by decide +kernel
    rw [hparts, Option.some.injEq, Prod.mk.injEq] at hsplit
    have hdecode : Base64.decode "QVE" = some ((oneSession noRole).computeHMAC
        roleConfig.cookieSigningKey (Base64.encode [1])) := by decide +kernel
    rw [← hsplit.2, hdecode, Option.some.injEq] at hsig
    exact ⟨noRole, mem_singleton_self _, [1], rfl, hsig.symm⟩
  have hforwarded : Forwarded (stream (oneSession noRole) roleConfig [] (roleRequest "user")
      [.requestBody ⟨[104], none, 11⟩ true]) :=
    ⟨_, mem_cons_self, by decide +kernel⟩
  refine ⟨hunforgeable, hforwarded, ?_⟩
  have hgated := (stream_gated (oneSession noRole) roleConfig [noRole] [] (roleRequest "user")
    [.requestBody ⟨[104], none, 11⟩ true]).1
  rw [hcookie] at hgated
  exact hgated hunforgeable hforwarded

end BuiltOnEnvoy.Saml
