import BuiltOnEnvoy.Foundations.TextParsing
import BuiltOnEnvoy.OpenApiValidator.Framing

/-!
# Dry run of the OpenAPI validator

With `dry_run` a request should never be answered by the filter. The check of the
flag is missing where the request cannot be built: such a request passes with its
headers and is denied at its end, unless it is over by then or too large to be
looked at again.
-/

namespace BuiltOnEnvoy.OpenApiValidator

open Foundations List

variable {Parsed Schema : Type} {lib : Library Parsed Schema} {config : Config} {headers : Headers}

/-- No callback of the delivery sends a local response. -/
def NeverAnswers (lib : Library Parsed Schema) (config : Config) (headers : Headers)
    (framing : Framing) : Prop :=
  ∀ delivered, delivered <+: framing.callbacks →
    (Stream.init.run lib config headers delivered).response = none

namespace Filter

variable {parsed : Parsed}

variable (hdry : config.dryRun = true) (hnew : newRequest lib headers = .ok parsed)
include hdry hnew

theorem validateRequest_dryRun (f : Filter Schema) (body : Option Bytes) :
    (f.validateRequest lib config headers body).sent = none := by
  simp only [validateRequest, buildHttpRequest, hnew]
  split
  · rw [if_pos hdry]
  · rfl
  · rfl

theorem onRequestHeaders_dryRun (f : Filter Schema) (endOfStream : Bool) :
    (f.onRequestHeaders lib config headers endOfStream).sent = none := by
  simp only [onRequestHeaders, hnew]
  cases lib.findRoute parsed with
  | error err =>
    dsimp only
    split
    · rfl
    · rw [denyRequest, if_pos hdry]
  | ok found =>
    dsimp only
    split
    · rfl
    · exact validateRequest_dryRun hdry hnew _ none

theorem onRequestBody_dryRun (f : Filter Schema) (piece : Option Bytes) (endOfStream : Bool)
    (whole : Bytes) :
    (f.onRequestBody lib config headers piece endOfStream whole).sent = none := by
  rw [onRequestBody]
  split
  · rfl
  dsimp only
  split
  · rfl
  split
  · exact validateRequest_dryRun hdry hnew _ (some whole)
  · rfl

theorem onRequestTrailers_dryRun (f : Filter Schema) (whole : Bytes) :
    (f.onRequestTrailers lib config headers whole).sent = none := by
  rw [onRequestTrailers]
  split
  · rfl
  · exact validateRequest_dryRun hdry hnew f (some whole)

end Filter

namespace Stream

variable {s : Stream Schema} (hdry : config.dryRun = true)
include hdry

theorem step_dryRun {parsed : Parsed} (hnew : newRequest lib headers = .ok parsed)
    (h : s.response = none) (c : Callback) :
    (s.step lib config headers c).response = none := by
  cases hlive : s.live with
  | false => rwa [step_over lib config headers hlive]
  | true =>
    rw [step_live lib config headers hlive]
    cases c with
    | headers endOfStream =>
      exact Filter.onRequestHeaders_dryRun hdry hnew s.filter endOfStream
    | body piece endOfStream =>
      exact Filter.onRequestBody_dryRun hdry hnew s.filter piece endOfStream _
    | trailers => exact Filter.onRequestTrailers_dryRun hdry hnew s.filter s.buffered

theorem run_dryRun {parsed : Parsed} (hnew : newRequest lib headers = .ok parsed)
    (h : s.response = none) (cs : List Callback) :
    (s.run lib config headers cs).response = none := by
  induction cs generalizing s with
  | nil => exact h
  | cons c cs ih => exact ih (step_dryRun hdry hnew h c)

variable {err : String}

/-- Such a request passes with its headers, and nothing is known of it after. -/
theorem headers_unparsed (hnew : newRequest lib headers = .error err) (endOfStream : Bool) :
    Waiting config none [] (init.step lib config headers (.headers endOfStream)) [] := by
  rw [step_live lib config headers rfl]
  simp only [callback, init, Filter.onRequestHeaders, hnew, Filter.denyRequest, if_pos hdry]
  exact ⟨rfl, rfl, rfl, rfl, rfl, rfl, by simp [TooLarge]⟩

omit hdry

variable {route : Option (Route Schema)} {pathParams : PathParams} {body : Bytes}
variable (lib headers)

theorem Waiting.passes (h : Waiting config route pathParams s body) (hdry : config.dryRun = true)
    (piece : Option Bytes) (endOfStream : Bool)
    (hlarge : TooLarge config (body ++ piece.getD []).length) :
    (s.step lib config headers (.body piece endOfStream)).Passing := by
  have hsize := (h.tooLarge_iff piece).mpr hlarge
  unfold TooLarge at hsize
  rw [step_live lib config headers h.live]
  simp only [callback, Filter.onRequestBody, h.unprocessed, if_pos hsize, if_pos hdry]
  exact ⟨rfl, rfl, by simp⟩

variable {lib headers}

theorem Waiting.rest_unparsed (h : Waiting config route pathParams s [])
    (hdry : config.dryRun = true) (hnew : newRequest lib headers = .error err) {framing : Framing}
    (hframing : framing.endsWithHeaders = false) :
    (s.run lib config headers framing.rest).response = none ↔
      TooLarge config framing.bytes.length := by
  have hrest := h.rest lib headers Passing
    (fun piece endOfStream h => h.passes lib headers hdry piece endOfStream)
    (fun hc h => h.step lib config headers hc) hframing
  split_ifs at hrest with hlarge
  · exact ⟨fun _ => hlarge, fun _ => response_of_live hrest.live⟩
  · obtain ⟨f, -, -, hresponse, -⟩ := hrest
    simp only [Filter.validateRequest, buildHttpRequest, hnew] at hresponse
    simp [hresponse, hlarge]

/-- A local response stays, so the end of a delivery tells whether there was one. -/
theorem response_of_append {cs rest : List Callback}
    (h : (s.run lib config headers (cs ++ rest)).response = none) :
    (s.run lib config headers cs).response = none := by
  rw [run_append] at h
  cases hsent : (s.run lib config headers cs).response with
  | none => rfl
  | some r =>
    rw [run_over lib config headers (live_of_response hsent), hsent] at h
    cases h

end Stream

theorem neverAnswers_iff_response {framing : Framing} :
    NeverAnswers lib config headers framing ↔
      (Stream.init.run lib config headers framing.callbacks).response = none := by
  constructor
  · exact fun h => h framing.callbacks (prefix_refl _)
  · rintro h delivered ⟨rest, hrest⟩
    rw [← hrest] at h
    exact Stream.response_of_append h

/-- With `dry_run` the filter never answers a request exactly if the request can be built, or is
over with its headers, or is larger than the limit. -/
theorem neverAnswers_iff (lib : Library Parsed Schema) (hdry : config.dryRun = true)
    (headers : Headers) (framing : Framing) :
    NeverAnswers lib config headers framing ↔
      (newRequest lib headers).isOk = true ∨ framing.endsWithHeaders = true ∨
        TooLarge config framing.bytes.length := by
  rw [neverAnswers_iff_response]
  cases hnew : newRequest lib headers with
  | ok parsed =>
    have hsilent := Stream.run_dryRun (s := Stream.init) hdry hnew rfl framing.callbacks
    simp [hsilent, Except.isOk, Except.toBool]
  | error err =>
    have hwait := Stream.headers_unparsed hdry hnew framing.endsWithHeaders
    have hsplit : Stream.init.run lib config headers framing.callbacks =
        (Stream.init.step lib config headers (.headers framing.endsWithHeaders)).run lib config
          headers framing.rest := rfl
    rw [hsplit]
    cases hends : framing.endsWithHeaders with
    | true =>
      cases framing with
      | headersOnly =>
        rw [hends] at hwait
        simpa [Framing.rest, Stream.run] using Stream.response_of_live hwait.live
      | body pieces last | trailers pieces => cases hends
    | false =>
      rw [hends] at hwait
      have hrest := hwait.rest_unparsed hdry hnew hends
      rw [hrest]
      simp [Except.isOk, Except.toBool]

/-- The library of one operation, with URLs whose percent signs are not escapes rejected. -/
def strictLibrary : Library String Unit :=
  { itemsLibrary with
    newRequest := fun _ url =>
      match pathUnescape url.toList with
      | some _ => .ok url
      | none => .error ("parse \"" ++ url ++ "\": invalid URL escape") }

def dryConfig : Config := ⟨10, false, true, ⟨400, ""⟩, []⟩

theorem neverAnswers_items :
    NeverAnswers strictLibrary dryConfig (postTo "/items") (.body [some [1]] (some [2])) :=
  (neverAnswers_iff strictLibrary (show dryConfig.dryRun = true from rfl) (postTo "/items") _).mpr
    (.inl (by decide +kernel))

/-- A body after a path that is no URL is answered with the denial. -/
theorem dryRun_denies_body :
    dryConfig.dryRun = true ∧
      (Stream.init.run strictLibrary dryConfig (postTo "/%zz")
        (Framing.callbacks (.body [] (some [1])))).response =
      some ⟨400, [], "parse \"http://api/%zz\": invalid URL escape",
        "openapi_validation_failed"⟩ ∧
      ¬NeverAnswers strictLibrary dryConfig (postTo "/%zz") (.body [] (some [1])) := by
  refine ⟨rfl, by decide +kernel, fun h => ?_⟩
  have hsilent := neverAnswers_iff_response.mp h
  revert hsilent
  decide +kernel

end BuiltOnEnvoy.OpenApiValidator
