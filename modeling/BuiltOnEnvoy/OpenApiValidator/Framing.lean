import BuiltOnEnvoy.OpenApiValidator.Plugin

/-!
# The outcome and the framing of a request

What should become of a request depends on its headers and its whole body. The
filter gives that outcome for every delivery, except that a request without an
operation which is to be let through is rejected as soon as a callback follows its
headers.
-/

namespace BuiltOnEnvoy.OpenApiValidator

open Foundations List

variable {Parsed Schema : Type} (lib : Library Parsed Schema) (config : Config) (headers : Headers)

/-- The operation of the request. -/
def operationOf : Except String (Route Schema × PathParams) :=
  match newRequest lib headers with
  | .error err => .error err
  | .ok parsed =>
    match lib.findRoute parsed with
    | .error _ => .error (noOperation headers)
    | .ok found => .ok found

def Route.definesBody (route : Route Schema) : Bool :=
  (route.operation.bind Operation.requestBody).isSome

def TooLarge (size : ℕ) : Prop :=
  0 < config.maxBodyBytes ∧ config.maxBodyBytes < size

instance (size : ℕ) : Decidable (TooLarge config size) :=
  inferInstanceAs (Decidable (_ ∧ _))

variable {config} in
theorem TooLarge.append {body : Bytes} (h : TooLarge config body.length) (more : Bytes) :
    TooLarge config (body ++ more).length := by
  unfold TooLarge at h ⊢
  rw [length_append]
  omega

/-- Validation of the request with this body. -/
def validation (route : Option (Route Schema)) (pathParams : PathParams) (body : Option Bytes) :
    Validation :=
  match buildHttpRequest lib headers body with
  | .error err => .invalid err
  | .ok request => lib.validateRequest ⟨request, pathParams, route⟩

def ruling : Validation → Outcome
  | .valid => .letThrough
  | .invalid err => .denied (sendDenyResponse config err)
  | .panics => .crashed

/-- The outcome for a request whose body counts. -/
def bodyRuling (route : Option (Route Schema)) (pathParams : PathParams) (body : Bytes) : Outcome :=
  if TooLarge config body.length then .denied tooLarge
  else ruling config (validation lib headers route pathParams (some body))

/-- The outcome by the headers and the whole body. -/
def expected (body : Bytes) : Outcome :=
  match operationOf lib headers with
  | .error err =>
    if config.allowUnmatchedPaths then .letThrough else .denied (sendDenyResponse config err)
  | .ok (route, pathParams) =>
    if route.definesBody then bodyRuling lib config headers (some route) pathParams body
    else ruling config (validation lib headers (some route) pathParams none)

/-- What is assumed of the library: it rejects a missing route or panics, and a body that is
absent is as good as an empty one. -/
structure Library.Lawful : Prop where
  noRoute : ∀ request pathParams, lib.validateRequest ⟨request, pathParams, none⟩ ≠ .valid
  emptyBody : ∀ parsed header host pathParams route,
    lib.validateRequest ⟨⟨parsed, header, host, some []⟩, pathParams, route⟩ =
      lib.validateRequest ⟨⟨parsed, header, host, none⟩, pathParams, route⟩

variable {lib config headers}

variable {found : Route Schema × PathParams}

theorem operationOf_eq_ok :
    operationOf lib headers = .ok found ↔
      ∃ parsed, newRequest lib headers = .ok parsed ∧ lib.findRoute parsed = .ok found := by
  unfold operationOf
  cases newRequest lib headers with
  | error err => simp
  | ok parsed =>
    cases hfind : lib.findRoute parsed with
    | error err | ok found' => simp [hfind]

theorem validation_empty (hlib : lib.Lawful) (route : Option (Route Schema))
    (pathParams : PathParams) :
    validation lib headers route pathParams (some []) =
      validation lib headers route pathParams none := by
  unfold validation buildHttpRequest
  cases newRequest lib headers with
  | error err => rfl
  | ok parsed => exact hlib.emptyBody ..

theorem validation_noRoute (hlib : lib.Lawful) (headers : Headers) (pathParams : PathParams)
    (body : Option Bytes) : validation lib headers none pathParams body ≠ .valid := by
  unfold validation
  cases buildHttpRequest lib headers body with
  | error err => simp
  | ok request => exact hlib.noRoute request pathParams

namespace Filter

variable {f : Filter Schema}

/-- The filter after a validation, whatever it gave. -/
def validated (f : Filter Schema) : Filter Schema := { f with requestProcessed := true }

theorem validateRequest_spec (hdry : config.dryRun = false) (f : Filter Schema)
    (body : Option Bytes) :
    f.validateRequest lib config headers body =
      match validation lib headers f.route f.pathParams body with
      | .valid => ⟨some true, f.validated, none⟩
      | .invalid err => ⟨some false, f.validated, some (sendDenyResponse config err)⟩
      | .panics => ⟨none, f.validated, none⟩ := by
  unfold validateRequest validation
  cases buildHttpRequest lib headers body with
  | error err => rfl
  | ok request =>
    dsimp only
    cases lib.validateRequest ⟨request, f.pathParams, f.route⟩ with
    | invalid err =>
      simp only [hdry]
      rfl
    | valid | panics => rfl

theorem onRequestBody_processed (h : f.requestProcessed = true) (piece : Option Bytes)
    (endOfStream : Bool) (whole : Bytes) :
    f.onRequestBody lib config headers piece endOfStream whole = ⟨some .continue, f, none⟩ := by
  rw [onRequestBody, if_pos h]

variable {piece : Option Bytes}

theorem onRequestBody_large (h : f.requestProcessed = false) (hdry : config.dryRun = false)
    (hlarge : TooLarge config (f.bodySize + (piece.getD []).length)) (endOfStream : Bool)
    (whole : Bytes) :
    f.onRequestBody lib config headers piece endOfStream whole =
      ⟨some .stopNoBuffer, ⟨f.route, f.pathParams, f.bodySize + (piece.getD []).length, true⟩,
        some tooLarge⟩ := by
  unfold TooLarge at hlarge
  rw [onRequestBody, if_neg (by simp [h])]
  dsimp only
  rw [if_pos hlarge, if_neg (by simp [hdry])]

theorem onRequestBody_more (h : f.requestProcessed = false)
    (hfits : ¬TooLarge config (f.bodySize + (piece.getD []).length)) (whole : Bytes) :
    f.onRequestBody lib config headers piece false whole =
      ⟨some .stopAndBuffer, { f with bodySize := f.bodySize + (piece.getD []).length }, none⟩ := by
  unfold TooLarge at hfits
  rw [onRequestBody, if_neg (by simp [h])]
  dsimp only
  rw [if_neg hfits, if_neg (by simp)]

end Filter

namespace Stream

variable {s : Stream Schema} (lib config headers)

theorem run_append (s : Stream Schema) (cs cs' : List Callback) :
    s.run lib config headers (cs ++ cs') =
      (s.run lib config headers cs).run lib config headers cs' :=
  foldl_append

theorem step_live (h : s.live = true) (c : Callback) :
    s.step lib config headers c = s.callback lib config headers c :=
  if_pos h

theorem step_over (h : s.live = false) (c : Callback) : s.step lib config headers c = s :=
  if_neg (by simp [h])

theorem run_over (h : s.live = false) (cs : List Callback) : s.run lib config headers cs = s := by
  induction cs with
  | nil => rfl
  | cons c cs ih =>
    rw [run, foldl_cons, step_over lib config headers h]
    exact ih

theorem live_of_response {r : LocalResponse} (h : s.response = some r) : s.live = false := by
  simp [live, h]

theorem response_of_live (h : s.live = true) : s.response = none := by
  cases hsent : s.response with
  | none => rfl
  | some r => simp [live_of_response hsent] at h

theorem outcome_of_response {r : LocalResponse} (h : s.response = some r) :
    s.outcome = .denied r := by
  simp only [outcome, h]

theorem outcome_of_passed (h : s.live = true) (hpassed : s.passed = true) :
    s.outcome = .letThrough := by
  simp only [live, Bool.and_eq_true, Option.isNone_iff_eq_none, Bool.not_eq_true'] at h
  simp [outcome, h.1, h.2, hpassed]

/-- The request is validated and passes. -/
structure Passing (s : Stream Schema) : Prop where
  live : s.live = true
  processed : s.filter.requestProcessed = true
  passed : s.passed = true

/-- The callback is for the body or the trailers. -/
def Follows (c : Callback) : Prop :=
  ∀ endOfStream, c ≠ .headers endOfStream

theorem Passing.step (h : s.Passing) {c : Callback} (hc : Follows c) :
    (s.step lib config headers c).Passing := by
  cases c with
  | headers endOfStream => exact absurd rfl (hc endOfStream)
  | body piece endOfStream =>
    rw [step_live lib config headers h.live]
    simp only [callback, Filter.onRequestBody_processed h.processed]
    exact ⟨rfl, h.processed, by simp⟩
  | trailers =>
    rw [step_live lib config headers h.live]
    simp only [callback, Filter.onRequestTrailers, h.processed, if_true]
    exact ⟨rfl, h.processed, by simp⟩

/-- What every callback after the headers preserves. -/
theorem run_follows {P : Stream Schema → Prop}
    (hstep : ∀ {s} {c : Callback}, Follows c → P s → P (s.step lib config headers c))
    {cs : List Callback} (hcs : ∀ c ∈ cs, Follows c) (h : P s) :
    P (s.run lib config headers cs) := by
  induction cs generalizing s with
  | nil => exact h
  | cons c cs ih =>
    rw [forall_mem_cons] at hcs
    exact ih hcs.2 (hstep hcs.1 h)

theorem Passing.run (h : s.Passing) {cs : List Callback} (hcs : ∀ c ∈ cs, Follows c) :
    (s.run lib config headers cs).Passing :=
  run_follows lib config headers (fun hc h => h.step lib config headers hc) hcs h

/-- The body so far is buffered and within the limit, nothing is decided. -/
structure Waiting (config : Config) (route : Option (Route Schema)) (pathParams : PathParams)
    (s : Stream Schema) (body : Bytes) : Prop where
  live : s.live = true
  unprocessed : s.filter.requestProcessed = false
  route : s.filter.route = route
  pathParams : s.filter.pathParams = pathParams
  size : s.filter.bodySize = body.length
  buffered : s.buffered = body
  fits : ¬TooLarge config body.length

variable {route : Option (Route Schema)} {pathParams : PathParams} {body : Bytes} {config}

theorem Waiting.tooLarge_iff (h : Waiting config route pathParams s body) (piece : Option Bytes) :
    TooLarge config (s.filter.bodySize + (piece.getD []).length) ↔
      TooLarge config (body ++ piece.getD []).length := by
  rw [h.size, length_append]

/-- A piece that goes beyond the limit ends the stream, whether it is the last one or not. -/
theorem Waiting.exceeds (h : Waiting config route pathParams s body)
    (hdry : config.dryRun = false) (piece : Option Bytes) (endOfStream : Bool)
    (hlarge : TooLarge config (body ++ piece.getD []).length) :
    (s.step lib config headers (.body piece endOfStream)).response = some tooLarge := by
  rw [step_live lib config headers h.live]
  simp only [callback,
    Filter.onRequestBody_large h.unprocessed hdry ((h.tooLarge_iff piece).mpr hlarge)]

theorem Waiting.piece (h : Waiting config route pathParams s body) (piece : Option Bytes)
    (hfits : ¬TooLarge config (body ++ piece.getD []).length) :
    Waiting config route pathParams (s.step lib config headers (.body piece false))
      (body ++ piece.getD []) := by
  rw [step_live lib config headers h.live]
  simp only [callback,
    Filter.onRequestBody_more h.unprocessed (mt (h.tooLarge_iff piece).mp hfits)]
  exact ⟨rfl, h.unprocessed, h.route, h.pathParams, by simp [h.size], by simp [h.buffered], hfits⟩

/-- The stream ended with the validation of the body. -/
def Validated (config : Config) (route : Option (Route Schema)) (pathParams : PathParams)
    (s : Stream Schema) (body : Bytes) : Prop :=
  ∃ f : Filter Schema, f.route = route ∧ f.pathParams = pathParams ∧
    s.response = (f.validateRequest lib config headers (some body)).sent ∧
    s.passed = decide ((f.validateRequest lib config headers (some body)).value = some true) ∧
    s.panicked = (f.validateRequest lib config headers (some body)).value.isNone

/-- What the callback of the last piece or of the trailers makes of the verdict. -/
theorem map_verdict {α : Type} [DecidableEq α] {go stop : α} (h : stop ≠ go)
    (verdict : Option Bool) :
    decide ((verdict.map fun allowed => if allowed then go else stop) = some go) =
        decide (verdict = some true) ∧
      (verdict.map fun allowed => if allowed then go else stop).isNone = verdict.isNone := by
  rcases verdict with _ | _ | _ <;> simp [h]

theorem Waiting.last (h : Waiting config route pathParams s body) (piece : Option Bytes)
    (hfits : ¬TooLarge config (body ++ piece.getD []).length) :
    Validated lib headers config route pathParams (s.step lib config headers (.body piece true))
      (body ++ piece.getD []) := by
  have hsize := mt (h.tooLarge_iff piece).mp hfits
  unfold TooLarge at hsize
  refine ⟨{ s.filter with bodySize := s.filter.bodySize + (piece.getD []).length }, h.route,
    h.pathParams, ?_⟩
  rw [step_live lib config headers h.live]
  simp only [callback, h.buffered, Filter.onRequestBody, h.unprocessed, Bool.false_eq_true,
    if_false, if_true, if_neg hsize]
  exact ⟨trivial, map_verdict (by simp) _⟩

theorem Waiting.trailers (h : Waiting config route pathParams s body) :
    Validated lib headers config route pathParams (s.step lib config headers .trailers) body := by
  refine ⟨s.filter, h.route, h.pathParams, ?_⟩
  rw [step_live lib config headers h.live]
  simp only [callback, h.buffered, Filter.onRequestTrailers, h.unprocessed, Bool.false_eq_true,
    if_false]
  exact ⟨trivial, map_verdict (by simp) _⟩

section

variable (Over : Stream Schema → Prop)
  (hover : ∀ {s body} (piece : Option Bytes) (endOfStream : Bool),
    Waiting config route pathParams s body → TooLarge config (body ++ piece.getD []).length →
      Over (s.step lib config headers (.body piece endOfStream)))
  (hstep : ∀ {s} {c : Callback}, Follows c → Over s → Over (s.step lib config headers c))

include hover hstep

/-- The pieces before the end: one of them goes beyond the limit, or all are buffered. `Over` is
what the piece beyond the limit brings about and those after it leave as it is. -/
theorem Waiting.pieces (h : Waiting config route pathParams s body)
    (pieces : List (Option Bytes)) :
    (TooLarge config (body ++ bytesOf pieces).length ∧
      Over (s.run lib config headers (pieces.map (Callback.body · false)))) ∨
    Waiting config route pathParams (s.run lib config headers (pieces.map (Callback.body · false)))
      (body ++ bytesOf pieces) := by
  induction pieces generalizing s body with
  | nil =>
    right
    rw [bytesOf_nil, append_nil]
    exact h
  | cons piece pieces ih =>
    rw [bytesOf_cons, ← append_assoc]
    by_cases hlarge : TooLarge config (body ++ piece.getD []).length
    · have hfollows : ∀ c ∈ pieces.map (Callback.body · false), Follows c := by simp [Follows]
      have hrun := run_follows lib config headers hstep hfollows (hover piece false h hlarge)
      exact .inl ⟨hlarge.append (bytesOf pieces), hrun⟩
    · exact ih (h.piece lib headers piece hlarge)

/-- A stream that waits for its body ends with the validation of the whole body, however the
body arrives, unless the body goes beyond the limit. -/
theorem Waiting.rest (h : Waiting config route pathParams s []) {framing : Framing}
    (hframing : framing.endsWithHeaders = false) :
    if TooLarge config framing.bytes.length then Over (s.run lib config headers framing.rest)
    else Validated lib headers config route pathParams (s.run lib config headers framing.rest)
      framing.bytes := by
  cases framing with
  | headersOnly => cases hframing
  | body pieces last =>
    rw [Framing.rest, Framing.bytes, run_append]
    rcases h.pieces lib headers Over hover hstep pieces with ⟨hlarge, hsent⟩ | hwait
    · rw [nil_append] at hlarge
      rw [if_pos (hlarge.append (last.getD []))]
      exact hstep (c := .body last true) (by simp [Follows]) hsent
    · rw [nil_append] at hwait
      split_ifs with hlarge
      · exact hover last true hwait hlarge
      · exact hwait.last lib headers last hlarge
  | trailers pieces =>
    rw [Framing.rest, Framing.bytes, run_append]
    rcases h.pieces lib headers Over hover hstep pieces with ⟨hlarge, hsent⟩ | hwait
    · rw [nil_append] at hlarge
      rw [if_pos hlarge]
      exact hstep (c := .trailers) (by simp [Follows]) hsent
    · rw [nil_append] at hwait
      rw [if_neg hwait.fits]
      exact hwait.trailers lib headers

end

theorem Waiting.outcome (h : Waiting config route pathParams s []) (hdry : config.dryRun = false)
    {framing : Framing} (hframing : framing.endsWithHeaders = false) :
    (s.run lib config headers framing.rest).outcome =
      bodyRuling lib config headers route pathParams framing.bytes := by
  have hrest := h.rest lib headers (·.response = some tooLarge)
    (fun piece endOfStream h => h.exceeds lib headers hdry piece endOfStream)
    (fun _ hsent => by rwa [step_over lib config headers (live_of_response hsent)]) hframing
  rw [bodyRuling]
  split_ifs at hrest ⊢
  · exact outcome_of_response hrest
  · obtain ⟨f, rfl, rfl, hresponse, hpassed, hpanicked⟩ := hrest
    rw [Filter.validateRequest_spec hdry] at hresponse hpassed hpanicked
    cases hvalid : validation lib headers f.route f.pathParams (some framing.bytes) <;>
      simp [hvalid, Stream.outcome, hresponse, hpassed, hpanicked, ruling]

variable {lib headers}

theorem headers_wait {found : Route Schema × PathParams}
    (hop : operationOf lib headers = .ok found) (hbody : found.1.definesBody = true) :
    Waiting config (some found.1) found.2 (init.step lib config headers (.headers false)) [] := by
  obtain ⟨parsed, hnew, hfind⟩ := operationOf_eq_ok.mp hop
  rw [Route.definesBody] at hbody
  rw [step_live lib config headers rfl]
  simp only [callback, init, Filter.onRequestHeaders, hnew, hfind, hbody, and_self, if_true]
  exact ⟨rfl, rfl, rfl, rfl, rfl, rfl, by simp [TooLarge]⟩

variable (hdry : config.dryRun = false)
include hdry

theorem headers_validate {found : Route Schema × PathParams}
    (hop : operationOf lib headers = .ok found) {endOfStream : Bool}
    (hnow : ¬(endOfStream = false ∧ found.1.definesBody = true)) :
    let s := init.step lib config headers (.headers endOfStream)
    match validation lib headers (some found.1) found.2 none with
    | .valid => s.Passing
    | .invalid err => s.response = some (sendDenyResponse config err)
    | .panics => s.live = false ∧ s.outcome = .crashed := by
  obtain ⟨parsed, hnew, hfind⟩ := operationOf_eq_ok.mp hop
  rw [Route.definesBody] at hnow
  rw [step_live lib config headers rfl]
  simp only [callback, init, Filter.onRequestHeaders, hnew, hfind, if_neg hnow,
    Filter.validateRequest_spec hdry]
  cases validation lib headers (some found.1) found.2 none with
  | valid => exact ⟨rfl, rfl, by simp⟩
  | invalid err => rfl
  | panics => exact ⟨rfl, rfl⟩

theorem headers_unmatched {err : String} (hop : operationOf lib headers = .error err)
    (endOfStream : Bool) :
    let s := init.step lib config headers (.headers endOfStream)
    if config.allowUnmatchedPaths = true ∧ (newRequest lib headers).isOk then
      Waiting config none [] s [] ∧ s.passed = true
    else s.response = some (sendDenyResponse config err) := by
  unfold operationOf at hop
  rw [step_live lib config headers rfl]
  cases hnew : newRequest lib headers with
  | error err' =>
    simp only [hnew, Except.error.injEq] at hop
    simp [callback, init, Filter.onRequestHeaders, hnew, Filter.denyRequest, hdry, hop, Except.isOk,
      Except.toBool]
  | ok parsed =>
    cases hfind : lib.findRoute parsed with
    | ok found => simp [hnew, hfind] at hop
    | error err' =>
      simp only [hnew, hfind, Except.error.injEq] at hop
      simp only [callback, init, Filter.onRequestHeaders, hnew, hfind]
      cases config.allowUnmatchedPaths with
      | false => simp [Filter.denyRequest, hdry, hop]
      | true =>
        simp only [if_true, Except.isOk, Except.toBool, and_self]
        exact ⟨⟨rfl, rfl, rfl, rfl, rfl, rfl, by simp [TooLarge]⟩, by simp⟩

end Stream

theorem Framing.rest_follows (framing : Framing) : ∀ c ∈ framing.rest, Stream.Follows c := by
  intro c hc endOfStream heq
  exact framing.headers_notMem_rest endOfStream (heq ▸ hc)

theorem outcome_eq_run (framing : Framing) :
    outcome lib config headers framing =
      ((Stream.init.step lib config headers (.headers framing.endsWithHeaders)).run lib config
        headers framing.rest).outcome :=
  rfl

theorem outcome_of_response {r : LocalResponse} {framing : Framing}
    (h : (Stream.init.step lib config headers (.headers framing.endsWithHeaders)).response =
      some r) : outcome lib config headers framing = .denied r := by
  rw [outcome_eq_run, Stream.run_over lib config headers (Stream.live_of_response h)]
  exact Stream.outcome_of_response h

section

variable (hlib : lib.Lawful) (hdry : config.dryRun = false)
include hdry

theorem outcome_of_validate (hop : operationOf lib headers = .ok found) {framing : Framing}
    (hnow : ¬(framing.endsWithHeaders = false ∧ found.1.definesBody = true)) :
    outcome lib config headers framing =
      ruling config (validation lib headers (some found.1) found.2 none) := by
  have hspec := Stream.headers_validate hdry hop hnow
  cases hvalid : validation lib headers (some found.1) found.2 none with
  | valid =>
    simp only [hvalid] at hspec
    have hend := hspec.run lib config headers framing.rest_follows
    exact Stream.outcome_of_passed hend.live hend.passed
  | invalid err =>
    simp only [hvalid] at hspec
    exact outcome_of_response hspec
  | panics =>
    simp only [hvalid] at hspec
    rw [outcome_eq_run, Stream.run_over lib config headers hspec.1]
    exact hspec.2

include hlib

theorem outcome_of_operation (hop : operationOf lib headers = .ok found) (framing : Framing) :
    outcome lib config headers framing = expected lib config headers framing.bytes := by
  simp only [expected, hop]
  by_cases hbody : found.1.definesBody = true
  · rw [if_pos hbody]
    by_cases hends : framing.endsWithHeaders = true
    · -- the headers end the stream: the body is absent where the rule has an empty one
      rw [outcome_of_validate hdry hop (by simp [hends]), ← validation_empty hlib]
      cases framing with
      | headersOnly => simp [bodyRuling, Framing.bytes, TooLarge]
      | body pieces last | trailers pieces => cases hends
    · rw [Bool.not_eq_true] at hends
      rw [outcome_eq_run, hends]
      exact (Stream.headers_wait hop hbody).outcome lib headers hdry hends
  · rw [if_neg hbody]
    exact outcome_of_validate hdry hop (by simp [hbody])

/-- A request that should be let through without an operation is, as long as nothing follows its
headers. -/
theorem outcome_of_allowed (hallow : config.allowUnmatchedPaths = true) {err : String}
    (hop : operationOf lib headers = .error err) (framing : Framing) :
    outcome lib config headers framing = .letThrough ↔
      framing.endsWithHeaders = true ∧ (newRequest lib headers).isOk = true := by
  have hspec := Stream.headers_unmatched hdry hop framing.endsWithHeaders
  by_cases hnew : (newRequest lib headers).isOk = true
  · rw [if_pos ⟨hallow, hnew⟩] at hspec
    cases hends : framing.endsWithHeaders with
    | true =>
      cases framing with
      | headersOnly =>
        have hpass := Stream.outcome_of_passed hspec.1.live hspec.2
        simp only [hnew, and_self, iff_true]
        exact hpass
      | body pieces last | trailers pieces => cases hends
    | false =>
      have hrest := hspec.1.outcome lib headers hdry hends
      have hinvalid := validation_noRoute hlib headers [] (some framing.bytes)
      rw [outcome_eq_run, hrest, bodyRuling]
      cases hvalid : validation lib headers none [] (some framing.bytes) with
      | valid => exact absurd hvalid hinvalid
      | invalid err' | panics => split <;> simp [ruling]
  · rw [if_neg (by simp [hnew])] at hspec
    rw [outcome_of_response hspec]
    simp [hnew]

end

/-- The outcome is the one that the headers and the whole body call for, exactly if the request
has an operation, or is not to be let through without one, or is over with its headers and can be
parsed. -/
theorem outcome_eq_expected_iff (hlib : lib.Lawful) (hdry : config.dryRun = false)
    (headers : Headers) (framing : Framing) :
    outcome lib config headers framing = expected lib config headers framing.bytes ↔
      (config.allowUnmatchedPaths = true →
        (operationOf lib headers).isOk = true ∨
          framing.endsWithHeaders = true ∧ (newRequest lib headers).isOk = true) := by
  cases hop : operationOf lib headers with
  | ok found =>
    have hsame := outcome_of_operation hlib hdry hop framing
    simp [hsame, Except.isOk, Except.toBool]
  | error err =>
    cases hallow : config.allowUnmatchedPaths with
    | true =>
      have hallowed := outcome_of_allowed hlib hdry hallow hop framing
      have hexpected : expected lib config headers framing.bytes = .letThrough := by
        simp [expected, hop, hallow]
      rw [hexpected, hallowed]
      simp [Except.isOk, Except.toBool]
    | false =>
      have hspec := Stream.headers_unmatched hdry hop framing.endsWithHeaders
      rw [if_neg (by simp [hallow])] at hspec
      have hexpected : expected lib config headers framing.bytes =
          .denied (sendDenyResponse config err) := by
        simp [expected, hop, hallow]
      rw [hexpected, outcome_of_response hspec]
      simp

/-- A library with one operation, which has a body; every request with a route is valid, and
without a route the validator panics. -/
def itemsLibrary : Library String Unit where
  newRequest := fun _ url => .ok url
  findRoute := fun url =>
    if url = "http://api/items" then .ok (⟨"/items", some ⟨some ()⟩⟩, [])
    else .error "no matching operation was found"
  validateRequest := fun input =>
    match input.route with
    | none => .panics
    | some _ => .valid

theorem itemsLibrary_lawful : itemsLibrary.Lawful :=
  ⟨fun _ _ => nofun, fun _ _ _ _ _ => rfl⟩

def lenientConfig (maxBodyBytes : ℕ) : Config := ⟨maxBodyBytes, true, false, ⟨400, ""⟩, []⟩

def postTo (path : String) : Headers :=
  [(":method", "POST"), (":path", path), (":authority", "api")]

/-- A body in two pieces for the operation. -/
theorem items_outcome :
    outcome itemsLibrary (lenientConfig 10) (postTo "/items") (.body [some [1, 2]] (some [3])) =
      expected itemsLibrary (lenientConfig 10) (postTo "/items") [1, 2, 3] :=
  (outcome_eq_expected_iff itemsLibrary_lawful rfl (postTo "/items")
    (.body [some [1, 2]] (some [3]))).mpr fun _ => .inl (by decide +kernel)

/-- With `allow_unmatched_paths` a request without an operation is rejected for the size of its
body. -/
theorem unmatched_body_denied :
    expected itemsLibrary (lenientConfig 1) (postTo "/other") [1, 2] = .letThrough ∧
      outcome itemsLibrary (lenientConfig 1) (postTo "/other") .headersOnly = .letThrough ∧
      outcome itemsLibrary (lenientConfig 1) (postTo "/other") (.body [] (some [1, 2])) =
        .denied ⟨413, [], "Request body too large", "openapi_body_too_large"⟩ := by
  decide +kernel

end BuiltOnEnvoy.OpenApiValidator
