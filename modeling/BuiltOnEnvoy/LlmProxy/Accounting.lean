import BuiltOnEnvoy.Foundations.Runs
import BuiltOnEnvoy.LlmProxy.Filter

/-!
# The accounting of the LLM proxy

A stream counts one request when its body is parsed or at its first error, whatever
comes first, and one error at most. After the error nothing is written.
-/

namespace BuiltOnEnvoy.LlmProxy

open Foundations List

variable {Parser : Type}

/-- How far the request has been delivered. -/
inductive Phase
  | start
  | body
  | done
  deriving DecidableEq

/-- The order of the request callbacks; those of the response come at any time. -/
def Phase.next : Phase → Callback → Option Phase
  | start, .requestHeaders _ _ endOfStream => some (if endOfStream then done else body)
  | body, .requestBody endOfStream _ => some (if endOfStream then done else body)
  | body, .requestTrailers _ => some done
  | phase, .responseHeaders _ _ => some phase
  | phase, .responseBody _ _ _ => some phase
  | phase, .responseTrailers _ => some phase
  | _, _ => none

/-- The phase after callbacks that can be delivered in this order. -/
def phaseAfter (callbacks : List (Callback × Clock)) : Option Phase :=
  callbacks.foldlM (fun phase c => phase.next c.1) Phase.start

/-- The callback with which the request body is complete. -/
def Callback.EndsBody : Callback → Prop
  | requestBody endOfStream _ => endOfStream = true
  | requestTrailers _ => True
  | _ => False

/-- The request of the stream is for one of the configured APIs. -/
def Matched (config : Config Parser) (callbacks : List (Callback × Clock)) : Prop :=
  ∃ path headers endOfStream clock,
    (Callback.requestHeaders path headers endOfStream, clock) ∈ callbacks ∧
      (apiOf config path).isSome

namespace Effect

def countsTotal : Effect → Bool
  | increment .requestTotal _ _ _ => true
  | _ => false

def countsError : Effect → Bool
  | increment .requestError _ _ _ => true
  | _ => false

/-- Metadata, a token counter or a latency. -/
def isWrite : Effect → Bool
  | setMetadata _ _ _ => true
  | increment .inputTokens _ _ _ => true
  | increment .outputTokens _ _ _ => true
  | increment .totalTokens _ _ _ => true
  | record _ _ _ _ => true
  | _ => false

end Effect

/-- The part of a filter that the accounting depends on. -/
structure Books (Parser : Type) where
  api : Option (Api Parser)
  hasError : Bool
  requestSentAt : Option ℤ

def Filter.books (f : Filter Parser) : Books Parser := ⟨f.api, f.hasError, f.requestSentAt⟩

def Books.withApi (b : Books Parser) (api : Api Parser) : Books Parser :=
  ⟨some api, b.hasError, b.requestSentAt⟩

/-- The stream is matched and has no error. -/
def Books.Active (b : Books Parser) : Prop := b.api.isSome = true ∧ b.hasError = false

/-- Nothing at all. -/
structure Skipped (b : Books Parser) (r : Reply Parser) : Prop where
  books : r.filter.books = b
  effects : r.effects = []

/-- Nothing that counts a request. -/
structure Idle (b : Books Parser) (r : Reply Parser) : Prop where
  books : r.filter.books = b
  effects : ∀ e ∈ r.effects, e.countsTotal = false ∧ e.countsError = false

/-- An error. -/
structure Failed (b : Books Parser) (r : Reply Parser) : Prop where
  books : r.filter.books = { b with hasError := true }
  effects : ∃ text kind model, r.effects =
    [.debug text, .increment .requestError 1 kind model] ++
      if b.requestSentAt = none then [.increment .requestTotal 1 kind model] else []

/-- The request is parsed. -/
structure Sent (b : Books Parser) (r : Reply Parser) : Prop where
  books : ∃ now, r.filter.books = { b with requestSentAt := some now }
  total : r.effects.countP Effect.countsTotal = 1
  noError : ∀ e ∈ r.effects, e.countsError = false

namespace Filter

variable (config : Config Parser) (api : Api Parser) (clock : Clock) (f : Filter Parser)

theorem onError_failed (text : String) : Failed f.books (f.onError api text) :=
  ⟨rfl, _, api.kind, f.model, rfl⟩

theorem onRequestSuccess_sent : Sent f.books (f.onRequestSuccess config api clock) := by
  refine ⟨⟨clock.now, rfl⟩, ?_, ?_⟩
  · unfold onRequestSuccess
    split_ifs <;> rfl
  · unfold onRequestSuccess
    split_ifs <;> simp [Effect.countsError, increment]

theorem latencyEffects_idle : ∀ e ∈ f.latencyEffects config api clock,
    e.countsTotal = false ∧ e.countsError = false := by
  unfold latencyEffects
  split
  · split_ifs <;> simp [Effect.countsTotal, Effect.countsError]
  · simp

theorem onResponseSuccess_idle : Idle f.books (f.onResponseSuccess config api clock) := by
  refine ⟨rfl, fun e he => ?_⟩
  rcases mem_append.mp he with htokens | hlatency
  · simp only [mem_cons, not_mem_nil, or_false] at htokens
    rcases htokens with rfl | rfl | rfl | rfl | rfl | rfl <;> exact ⟨rfl, rfl⟩
  · exact latencyEffects_idle config api clock f e hlatency

theorem parseRequestBody_moves (whole : Bytes) :
    Failed f.books (f.parseRequestBody config api clock whole) ∨
      Sent f.books (f.parseRequestBody config api clock whole) := by
  unfold parseRequestBody
  split_ifs
  · exact .inl (onError_failed api f _)
  · split
    · rename_i req _
      dsimp only
      split_ifs
      · exact .inl (onError_failed api { f with model := req.model } _)
      · exact .inr (onRequestSuccess_sent config api clock
          { f with model := req.model, isStream := req.isStream })
    · exact .inl (onError_failed api f _)

theorem parseResponseBody_moves (whole : Bytes) :
    Idle f.books (f.parseResponseBody config api clock whole) ∨
      Failed f.books (f.parseResponseBody config api clock whole) := by
  unfold parseResponseBody
  split_ifs
  · exact .inr (onError_failed api f _)
  · split
    · rename_i usage _
      exact .inl (onResponseSuccess_idle config api clock { f with usage := usage })
    · exact .inr (onError_failed api f _)

theorem finishStreamingResponse_moves (parser : Parser) :
    Idle f.books (f.finishStreamingResponse config api clock parser) ∨
      Failed f.books (f.finishStreamingResponse config api clock parser) := by
  unfold finishStreamingResponse
  split
  · rename_i usage _
    exact .inl (onResponseSuccess_idle config api clock { f with usage := usage })
  · exact .inr (onError_failed api f _)

/-- A guarded callback is skipped, or the stream is matched and has no error. -/
theorem guarded_cases (body : Api Parser → Reply Parser) :
    ¬f.books.Active ∧ Skipped f.books (f.guarded body) ∨
      f.books.Active ∧ ∃ api, f.guarded body = body api := by
  unfold guarded Books.Active books
  cases hapi : f.api with
  | none => exact .inl ⟨by simp, by simp [books, hapi], rfl⟩
  | some api =>
    cases herror : f.hasError with
    | true => exact .inl ⟨by simp, by simp [books, hapi, herror], rfl⟩
    | false => exact .inr ⟨by simp, api, rfl⟩

/-- What a callback for the response can do. -/
def RespondsWell (b : Books Parser) (r : Reply Parser) : Prop :=
  Skipped b r ∨ b.Active ∧ (Idle b r ∨ Failed b r)

theorem respondsWell_guarded {body : Api Parser → Reply Parser}
    (h : ∀ api, Idle f.books (body api) ∨ Failed f.books (body api)) :
    RespondsWell f.books (f.guarded body) := by
  rcases f.guarded_cases body with ⟨-, hskip⟩ | ⟨hactive, api, hbody⟩
  · exact .inl hskip
  · rw [hbody]
    exact .inr ⟨hactive, h api⟩

theorem onResponseHeaders_moves (headers : Headers) (endOfStream : Bool) :
    RespondsWell f.books (f.onResponseHeaders headers endOfStream) := by
  apply respondsWell_guarded
  intro api
  dsimp only
  split_ifs
  · exact .inr (onError_failed api f _)
  · exact .inr (onError_failed api f _)
  · exact .inl ⟨rfl, nofun⟩
  · exact .inr (onError_failed api f _)
  · exact .inl ⟨rfl, nofun⟩

theorem onResponseBody_moves (chunks : List Bytes) (endOfStream : Bool) (whole : Bytes) :
    RespondsWell f.books (f.onResponseBody config clock chunks endOfStream whole) := by
  apply respondsWell_guarded
  intro api
  -- the time of the first chunk and the parser are no part of the books
  let first (parser : Option Parser) : Filter Parser :=
    { f with firstChunkAt := f.firstChunkAt.or (some clock.now), sseParser := parser }
  dsimp only
  cases f.sseParser with
  | some parser =>
    dsimp only
    rcases feedAll api.factory parser chunks with ⟨_ | err, parser⟩
    · dsimp only
      split_ifs
      · exact finishStreamingResponse_moves config api clock (first (some parser)) parser
      · exact .inl ⟨rfl, nofun⟩
    · exact .inr (onError_failed api (first (some parser)) _)
  | none =>
    dsimp only
    split_ifs
    · exact parseResponseBody_moves config api clock (first none) whole
    · exact .inl ⟨rfl, nofun⟩

theorem onResponseTrailers_moves (whole : Bytes) :
    RespondsWell f.books (f.onResponseTrailers config clock whole) := by
  apply respondsWell_guarded
  intro api
  split
  · exact finishStreamingResponse_moves config api clock f _
  · exact parseResponseBody_moves config api clock f whole

theorem endBody_moves (whole : Bytes) :
    let r := f.guarded fun api => f.parseRequestBody config api clock whole
    ¬f.books.Active ∧ Skipped f.books r ∨
      f.books.Active ∧ (Failed f.books r ∨ Sent f.books r) := by
  rcases f.guarded_cases fun api => f.parseRequestBody config api clock whole with
    hskip | ⟨hactive, api, hbody⟩
  · exact .inl hskip
  · rw [hbody]
    exact .inr ⟨hactive, parseRequestBody_moves config api clock f whole⟩

theorem onRequestHeaders_moves (path : String) (headers : Headers) (endOfStream : Bool) :
    let r := f.onRequestHeaders config path headers endOfStream
    apiOf config path = none ∧ Skipped f.books r ∨
      ∃ api, apiOf config path = some api ∧
        (Failed (f.books.withApi api) r ∨
          endOfStream = false ∧ Skipped (f.books.withApi api) r) := by
  unfold onRequestHeaders
  cases hapi : apiOf config path with
  | none => exact .inl ⟨rfl, rfl, rfl⟩
  | some api =>
    refine .inr ⟨api, rfl, ?_⟩
    dsimp only
    split_ifs with hend hjson
    · exact .inl (onError_failed api { f with api := some api } _)
    · exact .inl (onError_failed api { f with api := some api } _)
    · exact .inr ⟨by simpa using hend, rfl, rfl⟩

end Filter

/-- The counters agree with the books, and nothing is written after an error. -/
structure Counted (b : Books Parser) (effects : List Effect) : Prop where
  errors : effects.countP Effect.countsError = if b.hasError then 1 else 0
  totals : effects.countP Effect.countsTotal =
    if b.hasError ∨ b.requestSentAt.isSome then 1 else 0
  silent : effects.Pairwise fun e e' => e.countsError = true → e'.isWrite = false

namespace Counted

variable {b : Books Parser} {effects : List Effect} {r : Reply Parser}

theorem withApi (h : Counted b effects) (api : Api Parser) : Counted (b.withApi api) effects :=
  ⟨h.errors, h.totals, h.silent⟩

theorem skipped (h : Counted b effects) (hr : Skipped b r) :
    Counted r.filter.books (effects ++ r.effects) := by
  rw [hr.books, hr.effects, append_nil]
  exact h

/-- Without an error so far, effects can follow if nothing is written after an error among them. -/
theorem append (h : Counted b effects) (herror : b.hasError = false) {b' : Books Parser}
    {new : List Effect}
    (herrors : new.countP Effect.countsError = if b'.hasError then 1 else 0)
    (htotals : (if b.requestSentAt.isSome then 1 else 0) + new.countP Effect.countsTotal =
      if b'.hasError ∨ b'.requestSentAt.isSome then 1 else 0)
    (hsilent : new.Pairwise fun e e' => e.countsError = true → e'.isWrite = false) :
    Counted b' (effects ++ new) := by
  have hnone : effects.countP Effect.countsError = 0 := by
    rw [h.errors, if_neg (by simp [herror])]
  constructor
  · rw [countP_append, hnone, herrors, Nat.zero_add]
  · rw [countP_append, h.totals, ← htotals]
    simp [herror]
  · rw [pairwise_append]
    refine ⟨h.silent, hsilent, fun e he e' _ hcounts => ?_⟩
    exact absurd hcounts (countP_eq_zero.mp hnone e he)

theorem append_noError (h : Counted b effects) (herror : b.hasError = false) {b' : Books Parser}
    {new : List Effect} (hnew : ∀ e ∈ new, e.countsError = false) (herror' : b'.hasError = false)
    (htotals : (if b.requestSentAt.isSome then 1 else 0) + new.countP Effect.countsTotal =
      if b'.requestSentAt.isSome then 1 else 0) :
    Counted b' (effects ++ new) := by
  have herrors : new.countP Effect.countsError = 0 :=
    countP_eq_zero.mpr fun e he => by simp [hnew e he]
  refine h.append herror (by simp [herrors, herror']) (by simpa [herror'] using htotals) ?_
  exact pairwise_of_forall_mem_list fun e he _ _ hcounts => by simp [hnew e he] at hcounts

theorem idle (h : Counted b effects) (herror : b.hasError = false) (hr : Idle b r) :
    Counted r.filter.books (effects ++ r.effects) := by
  have htotals : r.effects.countP Effect.countsTotal = 0 :=
    countP_eq_zero.mpr fun e he => by simp [hr.effects e he]
  rw [hr.books]
  exact h.append_noError herror (fun e he => (hr.effects e he).2) herror
    (by rw [htotals, Nat.add_zero])

theorem failed (h : Counted b effects) (herror : b.hasError = false) (hr : Failed b r) :
    Counted r.filter.books (effects ++ r.effects) := by
  obtain ⟨text, kind, model, heffects⟩ := hr.effects
  rw [hr.books, heffects]
  -- the request is counted here unless it was counted when it was sent
  apply h.append herror <;> cases b.requestSentAt <;>
    simp [countP_cons, Effect.countsError, Effect.countsTotal, Effect.isWrite]

theorem sent (h : Counted b effects) (herror : b.hasError = false)
    (hunsent : b.requestSentAt = none) (hr : Sent b r) :
    Counted r.filter.books (effects ++ r.effects) := by
  obtain ⟨now, hbooks⟩ := hr.books
  rw [hbooks]
  exact h.append_noError herror hr.noError herror (by simp [hunsent, hr.total])

end Counted

/-- What the books say in a phase. -/
def Phase.Fits : Phase → Books Parser → Prop
  | start, b => b.api = none ∧ b.hasError = false ∧ b.requestSentAt = none
  | body, b => b.requestSentAt = none
  | done, b => b.api.isSome = true → b.hasError = true ∨ b.requestSentAt.isSome = true

theorem Phase.Fits.failed {phase : Phase} {b : Books Parser} (h : phase.Fits b)
    (hactive : b.Active) : phase.Fits { b with hasError := true } := by
  cases phase with
  | start =>
    obtain ⟨hapi, -⟩ := h
    simp [Books.Active, hapi] at hactive
  | body => exact h
  | done => exact fun _ => .inl rfl

/-- What holds of a stream after callbacks that lead to this phase. -/
structure Balanced (config : Config Parser) (callbacks : List (Callback × Clock)) (phase : Phase)
    (s : Stream Parser) : Prop where
  counted : Counted s.filter.books s.effects
  fits : phase.Fits s.filter.books
  matched : s.filter.books.api.isSome = true ↔ Matched config callbacks

theorem balanced_init (config : Config Parser) : Balanced config [] .start Stream.init where
  counted := ⟨rfl, rfl, List.Pairwise.nil⟩
  fits := ⟨rfl, rfl, rfl⟩
  matched := by simp [Stream.init, Filter.init, Filter.books, Matched]

variable {config : Config Parser} {callbacks : List (Callback × Clock)} {phase phase' : Phase}
  {s : Stream Parser} {c : Callback} {clock : Clock}

theorem matched_concat (c : Callback × Clock) :
    Matched config (callbacks ++ [c]) ↔ Matched config callbacks ∨ Matched config [c] := by
  simp only [Matched, mem_append]
  grind

/-- The callback is not the one for the request headers. -/
def Callback.Follows (c : Callback) : Prop :=
  ∀ path headers endOfStream, c ≠ .requestHeaders path headers endOfStream

theorem Callback.Follows.not_matched (hc : c.Follows) : ¬Matched config [(c, clock)] := by
  rintro ⟨path, headers, endOfStream, clock', hmem, -⟩
  rw [mem_singleton] at hmem
  exact hc path headers endOfStream (congrArg Prod.fst hmem).symm

namespace Balanced

theorem extend (h : Balanced config callbacks phase s)
    (hcounted : Counted (s.filter.on config clock c).filter.books
      (s.effects ++ (s.filter.on config clock c).effects))
    (hfits : phase'.Fits (s.filter.on config clock c).filter.books)
    (hmatched : (s.filter.on config clock c).filter.books.api.isSome = true ↔
      s.filter.books.api.isSome = true ∨ Matched config [(c, clock)]) :
    Balanced config (callbacks ++ [(c, clock)]) phase' (s.step config (c, clock)) := by
  refine ⟨hcounted, hfits, hmatched.trans ?_⟩
  rw [h.matched, matched_concat]

theorem follow (h : Balanced config callbacks phase s) (hc : c.Follows)
    (hapi : (s.filter.on config clock c).filter.books.api = s.filter.books.api)
    (hcounted : Counted (s.filter.on config clock c).filter.books
      (s.effects ++ (s.filter.on config clock c).effects))
    (hfits : phase'.Fits (s.filter.on config clock c).filter.books) :
    Balanced config (callbacks ++ [(c, clock)]) phase' (s.step config (c, clock)) :=
  h.extend hcounted hfits (by rw [hapi, or_iff_left hc.not_matched])

theorem response (h : Balanced config callbacks phase s)
    (hr : Filter.RespondsWell s.filter.books (s.filter.on config clock c)) (hc : c.Follows) :
    Balanced config (callbacks ++ [(c, clock)]) phase (s.step config (c, clock)) := by
  rcases hr with hskip | ⟨hactive, hidle | hfailed⟩
  · exact h.follow hc (by rw [hskip.books]) (h.counted.skipped hskip) (hskip.books ▸ h.fits)
  · exact h.follow hc (by rw [hidle.books]) (h.counted.idle hactive.2 hidle)
      (hidle.books ▸ h.fits)
  · exact h.follow hc (by rw [hfailed.books]) (h.counted.failed hactive.2 hfailed)
      (hfailed.books ▸ h.fits.failed hactive)

theorem endBody (h : Balanced config callbacks .body s) {whole : Bytes} (hc : c.Follows)
    (hon : s.filter.on config clock c =
      s.filter.guarded fun api => s.filter.parseRequestBody config api clock whole) :
    Balanced config (callbacks ++ [(c, clock)]) .done (s.step config (c, clock)) := by
  have hunsent : s.filter.books.requestSentAt = none := h.fits
  have hmoves := s.filter.endBody_moves config clock whole
  rw [← hon] at hmoves
  rcases hmoves with ⟨hinactive, hskip⟩ | ⟨hactive, hfailed | hsent⟩
  · refine h.follow hc (by rw [hskip.books]) (h.counted.skipped hskip) ?_
    rw [hskip.books]
    intro hapi
    by_contra hnone
    exact hinactive ⟨hapi, by simpa using fun herror => hnone (.inl herror)⟩
  · refine h.follow hc (by rw [hfailed.books]) (h.counted.failed hactive.2 hfailed) ?_
    rw [hfailed.books]
    exact fun _ => .inl rfl
  · obtain ⟨now, hbooks⟩ := hsent.books
    refine h.follow hc (by rw [hbooks]) (h.counted.sent hactive.2 hunsent hsent) ?_
    rw [hbooks]
    exact fun _ => .inr rfl

/-- The request headers come first, so that the stream is matched by them or not at all. -/
theorem first (h : Balanced config callbacks .start s) {path : String} {headers : Headers}
    {endOfStream : Bool} {r : Reply Parser}
    (hon : s.filter.onRequestHeaders config path headers endOfStream = r)
    (hapi : r.filter.books.api = apiOf config path)
    (hcounted : Counted r.filter.books (s.effects ++ r.effects))
    (hfits : phase'.Fits r.filter.books) :
    Balanced config (callbacks ++ [(.requestHeaders path headers endOfStream, clock)]) phase'
      (s.step config (.requestHeaders path headers endOfStream, clock)) := by
  subst hon
  refine h.extend hcounted hfits ?_
  rw [Filter.on, hapi, h.fits.1]
  simp [Matched]

theorem requestHeaders (h : Balanced config callbacks .start s) (path : String)
    (headers : Headers) (endOfStream : Bool) (clock : Clock) :
    Balanced config (callbacks ++ [(.requestHeaders path headers endOfStream, clock)])
      (if endOfStream then .done else .body)
      (s.step config (.requestHeaders path headers endOfStream, clock)) := by
  obtain ⟨hnone, herror, hunsent⟩ := h.fits
  rcases s.filter.onRequestHeaders_moves config path headers endOfStream with
    ⟨hapi, hskip⟩ | ⟨api, hapi, hfailed | ⟨hbody, hskip⟩⟩
  · refine h.first rfl (by rw [hskip.books, hapi, hnone]) (h.counted.skipped hskip) ?_
    rw [hskip.books]
    cases endOfStream with
    | true => simp [Phase.Fits, hnone]
    | false => exact hunsent
  · refine h.first rfl (by rw [hfailed.books, hapi]; rfl)
      ((h.counted.withApi api).failed herror hfailed) ?_
    rw [hfailed.books]
    cases endOfStream with
    | true => exact fun _ => .inl rfl
    | false => exact hunsent
  · refine h.first rfl (by rw [hskip.books, hapi]; rfl)
      ((h.counted.withApi api).skipped hskip) ?_
    rw [hskip.books, hbody]
    exact hunsent

theorem step (h : Balanced config callbacks phase s) (hnext : phase.next c = some phase') :
    Balanced config (callbacks ++ [(c, clock)]) phase' (s.step config (c, clock)) := by
  cases c with
  | requestHeaders path headers endOfStream =>
    cases phase <;> cases hnext
    exact h.requestHeaders path headers endOfStream clock
  | requestBody endOfStream whole =>
    cases phase <;> cases hnext
    cases endOfStream with
    | true => exact h.endBody nofun rfl
    | false => exact h.response (s.filter.respondsWell_guarded fun _ => .inl ⟨rfl, nofun⟩) nofun
  | requestTrailers whole =>
    cases phase <;> cases hnext
    exact h.endBody nofun rfl
  | responseHeaders headers endOfStream =>
    obtain rfl : phase = phase' := by cases phase <;> exact Option.some.inj hnext
    exact h.response (s.filter.onResponseHeaders_moves headers endOfStream) nofun
  | responseBody chunks endOfStream whole =>
    obtain rfl : phase = phase' := by cases phase <;> exact Option.some.inj hnext
    exact h.response (s.filter.onResponseBody_moves config clock chunks endOfStream whole) nofun
  | responseTrailers whole =>
    obtain rfl : phase = phase' := by cases phase <;> exact Option.some.inj hnext
    exact h.response (s.filter.onResponseTrailers_moves config clock whole) nofun

end Balanced

theorem balanced_run (config : Config Parser) (hphase : phaseAfter callbacks = some phase) :
    Balanced config callbacks phase (Stream.run config callbacks) := by
  refine run_induction (P := fun callbacks phase =>
    Balanced config callbacks phase (Stream.run config callbacks)) (balanced_init config) ?_ hphase
  intro callbacks phase c phase' _ ih hnext
  rw [Stream.run, foldl_append]
  exact ih.step hnext

theorem phaseAfter_done (hphase : phaseAfter callbacks = some phase) :
    (∃ c ∈ callbacks, c.1.EndsBody) → phase = .done := by
  refine run_induction (P := fun callbacks phase =>
    (∃ c ∈ callbacks, c.1.EndsBody) → phase = .done) (by simp) ?_ hphase
  rintro callbacks phase ⟨c, clock⟩ phase' - ih hnext ⟨last, hmem, hends⟩
  have hdone : phase = .done ∨ c.EndsBody := by
    rcases mem_append.mp hmem with hold | hlast
    · exact .inl (ih ⟨last, hold, hends⟩)
    · obtain rfl := mem_singleton.mp hlast
      exact .inr hends
  cases phase <;> cases c <;> simp_all [Phase.next, Callback.EndsBody]

/-- On every stream both counters are incremented at most once, the error counter exactly if there
was an error; a matched stream whose body is complete or that had an error counts as one request;
and nothing is written after the error. -/
theorem accounting_exact (config : Config Parser) (callbacks : List (Callback × Clock))
    (phase : Phase) (hphase : phaseAfter callbacks = some phase) :
    let s := Stream.run config callbacks
    s.effects.countP Effect.countsTotal ≤ 1 ∧
      s.effects.countP Effect.countsError = (if s.filter.hasError then 1 else 0) ∧
      (Matched config callbacks →
        (∃ c ∈ callbacks, c.1.EndsBody) ∨ s.filter.hasError = true →
        s.effects.countP Effect.countsTotal = 1) ∧
      s.effects.Pairwise fun e e' => e.countsError = true → e'.isWrite = false := by
  have h := balanced_run config hphase
  refine ⟨?_, h.counted.errors, ?_, h.counted.silent⟩
  · rw [h.counted.totals]
    split <;> omega
  · intro hmatched hdone
    rw [h.counted.totals, if_pos]
    rcases hdone with hends | herror
    · have hfits := h.fits
      rw [phaseAfter_done hphase hends] at hfits
      exact hfits (h.matched.mpr hmatched)
    · exact .inl herror

/-- One rule, whose parsers accept everything. -/
def chatConfig : Config Unit where
  llmConfigs := [⟨⟨"", "/chat", none⟩, "openai", some
    { parseRequest := fun _ => (none, some ⟨"m", false⟩)
      parseResponse := fun _ => (none, some ⟨3, 4, 7⟩)
      newSSEParser := ()
      feed := fun _ _ => (none, ())
      finish := fun _ => (none, some ⟨0, 0, 0⟩) }⟩]
  metadataNamespace := "llm"
  llmModelHeader := ""
  clearRouteCache := false

/-- A response with another status arrives before the request body is complete. -/
def earlyResponse : List (Callback × Clock) :=
  [(.requestHeaders "/chat" [("content-type", "application/json")] false, ⟨0, 0⟩),
    (.requestBody false [1], ⟨1, 1⟩), (.responseHeaders [(":status", "503")] false, ⟨2, 2⟩),
    (.requestBody true [1, 2], ⟨3, 3⟩), (.responseBody [] true [], ⟨4, 4⟩)]

theorem earlyResponse_counted :
    (Stream.run chatConfig earlyResponse).effects.countP Effect.countsTotal = 1 ∧
      (Stream.run chatConfig earlyResponse).effects.countP Effect.countsError = 1 := by
  have herror : (Stream.run chatConfig earlyResponse).filter.hasError = true := by decide +kernel
  obtain ⟨-, herrors, htotal, -⟩ := accounting_exact chatConfig earlyResponse .done rfl
  refine ⟨htotal ⟨"/chat", _, _, _, mem_cons_self, by decide +kernel⟩ (.inr herror), ?_⟩
  rw [herrors, if_pos herror]

end BuiltOnEnvoy.LlmProxy
