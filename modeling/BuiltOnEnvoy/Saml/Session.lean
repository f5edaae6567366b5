import BuiltOnEnvoy.Foundations.Base64
import BuiltOnEnvoy.Saml.Config

/-!
# Sessions of the SAML filter

Signed session tokens and the cookies that carry them. The tag and the JSON
form of a session come from `Codec`. Texts have one character for each byte.
-/

namespace BuiltOnEnvoy.Saml

open Foundations

structure SessionData where
  nameID : String
  attributes : GoMap String (List String)
  /-- In nanoseconds, as `now` everywhere. -/
  expiresAt : ℤ

structure Codec where
  /-- HMAC-SHA256 of a message under a key. -/
  computeHMAC : List UInt8 → String → List UInt8
  marshal : SessionData → Except String (List UInt8)
  unmarshal : List UInt8 → Except String SessionData

def createSessionToken (codec : Codec) (signingKey : List UInt8) (data : SessionData) :
    Except String String :=
  match codec.marshal data with
  | .error err => .error ("failed to marshal session data: " ++ err)
  | .ok payload =>
    let encodedPayload := Base64.encode payload
    .ok (encodedPayload ++ "." ++ Base64.encode (codec.computeHMAC signingKey encodedPayload))

/-- The parts of a token before and after its last dot. -/
def splitToken (token : String) : Option (String × String) :=
  match lastIndexOf '.' token.toList with
  | none => none
  | some dotIdx =>
    some (String.ofList (token.toList.take dotIdx), String.ofList (token.toList.drop (dotIdx + 1)))

def validateSessionToken (codec : Codec) (signingKey : List UInt8) (token : String) (now : ℤ) :
    Except String SessionData :=
  match splitToken token with
  | none => .error "invalid session token format"
  | some (encodedPayload, encodedSig) =>
    match Base64.decode encodedSig with
    | none => .error "invalid session token signature encoding"
    | some actualSig =>
      if actualSig ≠ codec.computeHMAC signingKey encodedPayload then
        .error "invalid session token signature"
      else
        match Base64.decode encodedPayload with
        | none => .error "invalid session token payload encoding"
        | some payload =>
          match codec.unmarshal payload with
          | .error err => .error ("failed to unmarshal session data: " ++ err)
          | .ok data => if data.expiresAt < now then .error "session token expired" else .ok data

theorem validateSessionToken_eq_ok {codec : Codec} {signingKey : List UInt8} {token : String}
    {now : ℤ} {data : SessionData}
    (h : validateSessionToken codec signingKey token now = .ok data) :
    ∃ encodedPayload encodedSig payload, splitToken token = some (encodedPayload, encodedSig) ∧
      Base64.decode encodedSig = some (codec.computeHMAC signingKey encodedPayload) ∧
      Base64.decode encodedPayload = some payload ∧ codec.unmarshal payload = .ok data ∧
      now ≤ data.expiresAt := by
  unfold validateSessionToken at h
  cases hsplit : splitToken token with
  | none => simp [hsplit] at h
  | some parts =>
    obtain ⟨encodedPayload, encodedSig⟩ := parts
    simp only [hsplit] at h
    cases hsig : Base64.decode encodedSig with
    | none => simp [hsig] at h
    | some actualSig =>
      simp only [hsig] at h
      split_ifs at h with htag
      cases hpayload : Base64.decode encodedPayload with
      | none => simp [hpayload] at h
      | some payload =>
        simp only [hpayload] at h
        cases hdata : codec.unmarshal payload with
        | error err => simp [hdata] at h
        | ok data' =>
          simp only [hdata] at h
          split_ifs at h with hexpired
          rw [Except.ok.injEq] at h
          refine ⟨encodedPayload, encodedSig, payload, rfl, ?_, hpayload, ?_, ?_⟩
          · rw [hsig, not_not.mp htag]
          · rw [hdata, h]
          · rw [← h]
            exact not_lt.mp hexpired

def splitCookies (header : String) : List (List Char) :=
  header.toList.splitOn ';'

def parseCookiePair (pair : List Char) : String × String :=
  let pair := pair.dropWhile (· = ' ')
  (String.ofList (pair.takeWhile (· ≠ '=')), String.ofList (pair.dropWhile (· ≠ '=')).tail)

/-- The value of the first cookie with the name, or the empty text. -/
def extractSessionCookie (cookieHeader cookieName : String) : String :=
  match (splitCookies cookieHeader).find? fun part => (parseCookiePair part).1 = cookieName with
  | some part => (parseCookiePair part).2
  | none => ""

def buildSessionCookie (cfg : Config) (token : String) : String :=
  cfg.cookieName ++ "=" ++ token ++ "; Path=/; HttpOnly; SameSite=Lax" ++
    (if cfg.cookieSecure then "; Secure" else "") ++
    (if cfg.cookieDomain ≠ "" then "; Domain=" ++ cfg.cookieDomain else "") ++
    "; Max-Age=" ++ toString (cfg.sessionDuration.tdiv 1000000000)

example : extractSessionCookie "a=1;  s=x=y; s=2" "s" = "x=y" := by decide +kernel

end BuiltOnEnvoy.Saml
