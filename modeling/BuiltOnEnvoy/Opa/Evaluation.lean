import BuiltOnEnvoy.Opa.Plugin

/-!
# One evaluation for each request

The callbacks of a request hold it back, one of them evaluates the policy, and
those after it let it pass; a denial ends the stream. With `with_body` the input
has the body as it is decoded, which is not the whole value when a number is out
of range or the nesting is too deep.
-/

namespace BuiltOnEnvoy.Opa

open Foundations List
open OpenApiValidator (Callback Framing bytesOf bytesOf_cons)

variable {lib : Library} {config : Config} {engine : Engine} {attrs : Attributes}
  {headers : Headers} {framing : Framing} {s : Stream}

/-- A request is denied with a local response, and only then is there one. -/
theorem enforce_response (config : Config) (headers : Headers) (answer : Except String ResultSet) :
    (enforce config headers answer).response.isSome = !(enforce config headers answer).allowed := by
  cases answer with
  | error err =>
    rw [enforce]
    split <;> rfl
  | ok rs =>
    simp only [enforce]
    split
    · rfl
    · split <;> rfl

/-- The report of a callback that evaluates the policy. -/
def evaluation (lib : Library) (config : Config) (engine : Engine) (attrs : Attributes)
    (headers : Headers) (parsedBody : Any) : Report :=
  (evaluateAndDecide lib config engine attrs ⟨false, headers, []⟩ parsedBody).1

theorem evaluateAndDecide_report (s : Stream) (parsedBody : Any) :
    (evaluateAndDecide lib config engine attrs s parsedBody).1 =
      evaluation lib config engine attrs s.headers parsedBody :=
  rfl

theorem evaluation_response (headers : Headers) (parsedBody : Any) :
    (evaluation lib config engine attrs headers parsedBody).response.isSome =
      !(evaluation lib config engine attrs headers parsedBody).continues :=
  enforce_response config headers _

theorem evaluation_evaluated (headers : Headers) (parsedBody : Any) :
    (evaluation lib config engine attrs headers parsedBody).evaluated =
      some (buildInput lib config attrs headers parsedBody,
        (evaluation lib config engine attrs headers parsedBody).continues) :=
  rfl

def holding : Report := ⟨false, none, none, []⟩

def passing : Report := ⟨true, none, none, []⟩

/-- The callback is for the body or the trailers. -/
def Follows (c : Callback) : Prop := ∀ endOfStream, c ≠ .headers endOfStream

section

variable (lib config engine attrs)

theorem step_processed (h : s.requestProcessed = true) {c : Callback} (hc : Follows c) :
    step lib config engine attrs s c = (passing, s) := by
  cases c with
  | headers endOfStream => exact absurd rfl (hc endOfStream)
  | body piece endOfStream => rw [step, onRequestBody, if_pos h, passing]
  | trailers => rw [step, onRequestTrailers, if_pos h, passing]

theorem run_processed (h : s.requestProcessed = true) {cs : List Callback}
    (hcs : ∀ c ∈ cs, Follows c) :
    run lib config engine attrs s cs = List.replicate cs.length passing := by
  induction cs with
  | nil => rfl
  | cons c cs ih =>
    rw [forall_mem_cons] at hcs
    rw [run, step_processed lib config engine attrs h hcs.1, length_cons,
      replicate_succ, ← ih hcs.2]
    rfl

theorem run_pieces (h : s.requestProcessed = false) (pieces : List (Option Bytes))
    (cs : List Callback) :
    run lib config engine attrs s (pieces.map (Callback.body · false) ++ cs) =
      List.replicate pieces.length holding ++
        run lib config engine attrs { s with buffered := s.buffered ++ bytesOf pieces } cs := by
  induction pieces generalizing s with
  | nil => simp [bytesOf]
  | cons piece pieces ih =>
    have hstep : step lib config engine attrs s (.body piece false) =
        (holding, { s with buffered := s.buffered ++ piece.getD [] }) := by
      rw [step, onRequestBody, if_neg (by simp [h]), if_pos rfl, holding]
    rw [map_cons, cons_append, run, hstep, length_cons, replicate_succ,
      bytesOf_cons, ← append_assoc]
    simp only [holding, Option.isSome_none, Bool.false_eq_true, if_false, cons_append]
    congr 1
    exact ih h

theorem run_rest (h : s.requestProcessed = false) (hbuffered : s.buffered = [])
    (hframing : framing.endsWithHeaders = false) :
    holding :: run lib config engine attrs s framing.rest =
      List.replicate framing.rest.length holding ++
        [evaluation lib config engine attrs s.headers
          (parsedBody lib s.headers framing.bytes)] := by
  cases framing with
  | headersOnly => cases hframing
  | body pieces last =>
    rw [Framing.rest, Framing.bytes, run_pieces lib config engine attrs h, hbuffered,
      nil_append, length_append, length_map, length_singleton,
      replicate_succ, cons_append, run, step, onRequestBody, if_neg (by simp [h]),
      if_neg (by simp), evaluateBodyPolicy, evaluateAndDecide_report]
    simp [run]
  | trailers pieces =>
    rw [Framing.rest, Framing.bytes, run_pieces lib config engine attrs h, hbuffered,
      nil_append, length_append, length_map, length_singleton,
      replicate_succ, cons_append, run, step, onRequestTrailers, if_neg (by simp [h]),
      evaluateBodyPolicy, evaluateAndDecide_report]
    simp [run]

end

/-- The request waits for its end. -/
def Waits (config : Config) (framing : Framing) : Prop :=
  config.withBody = true ∧ framing.endsWithHeaders = false

instance : Decidable (Waits config framing) := inferInstanceAs (Decidable (_ ∧ _))

theorem onRequestHeaders_waits (h : Waits config framing) (s : Stream) :
    onRequestHeaders lib config engine attrs s framing.endsWithHeaders = (holding, s) :=
  if_pos h

theorem onRequestHeaders_evaluates (h : ¬Waits config framing) (s : Stream) :
    onRequestHeaders lib config engine attrs s framing.endsWithHeaders =
      evaluateAndDecide lib config engine attrs s .nil :=
  if_neg h

/-- The body that the policy sees. -/
def seenBody (lib : Library) (config : Config) (headers : Headers) (framing : Framing) : Any :=
  if Waits config framing then parsedBody lib headers framing.bytes else .nil

def theEvaluation (lib : Library) (config : Config) (engine : Engine) (attrs : Attributes)
    (headers : Headers) (framing : Framing) : Report :=
  evaluation lib config engine attrs headers (seenBody lib config headers framing)

/-- Callbacks that hold the request back, one that evaluates the policy, and callbacks that let the
request pass unless it was denied. -/
theorem reports_eq (lib : Library) (config : Config) (engine : Engine) (attrs : Attributes)
    (headers : Headers) (framing : Framing) :
    ∃ held passed, reports lib config engine attrs headers framing =
        List.replicate held holding ++
          theEvaluation lib config engine attrs headers framing :: List.replicate passed passing ∧
      ((theEvaluation lib config engine attrs headers framing).continues = false → passed = 0) := by
  rw [reports, Framing.callbacks, run, step, theEvaluation, seenBody]
  by_cases hwaits : Waits config framing
  · rw [onRequestHeaders_waits hwaits, if_pos hwaits]
    refine ⟨framing.rest.length, 0, ?_, fun _ => rfl⟩
    exact run_rest lib config engine attrs (s := ⟨false, headers, []⟩) rfl rfl hwaits.2
  · rw [onRequestHeaders_evaluates hwaits, if_neg hwaits, evaluateAndDecide_report,
      evaluation_response]
    have hfollows : ∀ c ∈ framing.rest, Follows c := by
      intro c hc endOfStream heq
      exact framing.headers_notMem_rest endOfStream (heq ▸ hc)
    have hrest := run_processed lib config engine attrs
      (s := (evaluateAndDecide lib config engine attrs ⟨false, headers, []⟩ .nil).2) rfl hfollows
    rw [hrest]
    cases hcontinues : (evaluation lib config engine attrs headers .nil).continues with
    | false => exact ⟨0, 0, rfl, fun _ => rfl⟩
    | true => exact ⟨0, framing.rest.length, rfl, fun h => by cases h⟩

def hasJsonType (headers : Headers) : Prop :=
  "application/json".toList <:+: (headers.getOne "content-type").toList

/-- The policy is evaluated exactly once; a callback that continues comes with or after an
evaluation that let the request through; a denied request gets one local response and no other gets
any; and with `with_body` the input has the value of a JSON body other than null. -/
structure EvaluatesOnce (lib : Library) (config : Config) (engine : Engine) (attrs : Attributes)
    (headers : Headers) (framing : Framing) : Prop where
  once : ∃ e, (reports lib config engine attrs headers framing).filterMap (·.evaluated) = [e]
  released : ∀ before r after, reports lib config engine attrs headers framing =
    before ++ r :: after → r.continues = true →
    ∃ input, (before ++ [r]).filterMap (·.evaluated) = [(input, true)]
  answered : ∀ input allowed,
    (reports lib config engine attrs headers framing).filterMap (·.evaluated) = [(input, allowed)] →
    ((reports lib config engine attrs headers framing).filterMap (·.response)).length =
      if allowed then 0 else 1
  body : config.withBody = true → hasJsonType headers →
    ∀ v, Json.read framing.bytes = some v → v ≠ .null →
    ∀ e, (reports lib config engine attrs headers framing).filterMap (·.evaluated) = [e] →
    e.1.body = some v.value

/-- With `with_body`, a JSON body other than null is decoded in full. -/
def DecodesBody (lib : Library) (config : Config) (headers : Headers) (framing : Framing) : Prop :=
  config.withBody = true → hasJsonType headers →
    ∀ v, Json.read framing.bytes = some v → v ≠ .null →
    v.depth ≤ maxNestingDepth ∧ v.value.Fits lib.floatFits = true

section

variable {held passed : ℕ} {r : Report} {e : Input × Bool}

theorem evaluated_split (hr : r.evaluated = some e) :
    (List.replicate held holding ++ r :: List.replicate passed passing).filterMap
      (·.evaluated) = [e] := by
  have hheld : (List.replicate held holding).filterMap (·.evaluated) = [] := by
    simp [holding]
  have hpassed : (List.replicate passed passing).filterMap (·.evaluated) = [] := by
    simp [passing]
  rw [filterMap_append, hheld, filterMap_cons_some hr, hpassed, nil_append]

theorem released_split (hr : r.evaluated = some e) (hdenied : r.continues = false → passed = 0)
    {before after : List Report} {r' : Report}
    (h : List.replicate held holding ++ r :: List.replicate passed passing = before ++ r' :: after)
    (hcontinues : r'.continues = true) :
    (before ++ [r']).filterMap (·.evaluated) = [e] ∧ r.continues = true := by
  rcases append_eq_append_iff.mp h with ⟨between, hbefore, hrest⟩ | ⟨between, hheld, hrest⟩
  · cases between with
    | nil =>
      rw [append_nil] at hbefore
      obtain ⟨hsame, -⟩ := List.cons.inj hrest
      have hone := @evaluated_split held 0 r e hr
      rw [hbefore, ← hsame]
      exact ⟨hone, hsame ▸ hcontinues⟩
    | cons first between =>
      rw [cons_append] at hrest
      obtain ⟨rfl, hpassing⟩ := List.cons.inj hrest
      -- what lies between the evaluation and this report are passing reports
      have hbetween : between ++ [r'] = List.replicate (between.length + 1) passing := by
        refine eq_replicate_iff.mpr ⟨by simp, fun x hx => ?_⟩
        have hmem : x ∈ List.replicate passed passing := by
          rw [hpassing, append_cons]
          exact mem_append_left after hx
        exact eq_of_mem_replicate hmem
      constructor
      · rw [hbefore, append_assoc, cons_append, hbetween]
        exact evaluated_split hr
      · by_contra hstops
        rw [hdenied (Bool.not_eq_true _ ▸ hstops)] at hpassing
        simp at hpassing
  · cases between with
    | nil =>
      rw [append_nil] at hheld
      obtain ⟨hsame, -⟩ := List.cons.inj hrest
      have hone := @evaluated_split held 0 r e hr
      rw [← hheld, hsame]
      exact ⟨hone, hsame ▸ hcontinues⟩
    | cons first between =>
      -- the report would be one that holds the request back
      rw [cons_append] at hrest
      obtain ⟨rfl, -⟩ := List.cons.inj hrest
      have hmem : r' ∈ List.replicate held holding := by
        rw [hheld]
        exact mem_append_right _ mem_cons_self
      rw [eq_of_mem_replicate hmem, holding] at hcontinues
      cases hcontinues

theorem responses_split :
    (List.replicate held holding ++ r :: List.replicate passed passing).filterMap (·.response) =
      r.response.toList := by
  have hheld : (List.replicate held holding).filterMap (·.response) = [] := by
    simp [holding]
  have hpassed : (List.replicate passed passing).filterMap (·.response) = [] := by
    simp [passing]
  rw [filterMap_append, hheld, nil_append]
  cases hresponse : r.response with
  | none => rw [filterMap_cons_none hresponse, hpassed]; rfl
  | some response => rw [filterMap_cons_some hresponse, hpassed]; rfl

end

theorem evaluated_reports (lib : Library) (config : Config) (engine : Engine) (attrs : Attributes)
    (headers : Headers) (framing : Framing) :
    (reports lib config engine attrs headers framing).filterMap (·.evaluated) =
      [(buildInput lib config attrs headers (seenBody lib config headers framing),
        (theEvaluation lib config engine attrs headers framing).continues)] := by
  obtain ⟨held, passed, hreports, -⟩ := reports_eq lib config engine attrs headers framing
  rw [hreports]
  exact evaluated_split (evaluation_evaluated headers _)

theorem presentBody_eq_some {value whole : Any} (h : whole ≠ .nil) :
    presentBody value = some whole ↔ value = whole := by
  cases value with
  | nil => simpa [presentBody] using h.symm
  | _ => simp [presentBody]

theorem buildInput_body_eq_iff {value : Any} {v : Json} (hv : v ≠ .null) :
    (buildInput lib config attrs headers value).body = some v.value ↔ value = v.value :=
  presentBody_eq_some (mt value_eq_nil_iff.mp hv)

theorem parsedBody_of_json (htype : hasJsonType headers) (body : Bytes) :
    parsedBody lib headers body =
      match Json.parse body with
      | some v => anyValue lib.floatFits lib.outOfRange v
      | none => .nil :=
  if_pos htype

/-- The body of the input is the value of the JSON exactly if it is decoded in full. -/
theorem seenBody_eq_iff (hbody : config.withBody = true) (htype : hasJsonType headers) {v : Json}
    (hread : Json.read framing.bytes = some v) :
    seenBody lib config headers framing = v.value ↔
      v = .null ∨ v.depth ≤ maxNestingDepth ∧ v.value.Fits lib.floatFits = true := by
  have hends : framing.endsWithHeaders = false := by
    cases framing with
    | headersOnly =>
      rw [Framing.bytes, Json.read_nil] at hread
      cases hread
    | _ => rfl
  have hwaits : Waits config framing := ⟨hbody, hends⟩
  rw [seenBody, if_pos hwaits, parsedBody_of_json htype]
  cases hparse : Json.parse framing.bytes with
  | none =>
    have hdeep : ¬v.depth ≤ maxNestingDepth := by
      intro hdepth
      rw [Json.parse_eq_some_iff.mpr ⟨hread, hdepth⟩] at hparse
      cases hparse
    simp only [hdeep, false_and, or_false]
    rw [eq_comm, value_eq_nil_iff]
  | some v' =>
    obtain ⟨hread', hdepth⟩ := Json.parse_eq_some_iff.mp hparse
    rw [hread, Option.some.injEq] at hread'
    subst hread'
    dsimp only
    rw [anyValue_eq_iff]
    constructor
    · exact fun hfits => .inr ⟨hdepth, hfits⟩
    · rintro (rfl | ⟨-, hfits⟩)
      · rfl
      · exact hfits

/-- The filter evaluates once and before release for every request; the input has the whole body
exactly if that is decoded in full. -/
theorem evaluatesOnce_iff (lib : Library) (config : Config) (engine : Engine) (attrs : Attributes)
    (headers : Headers) (framing : Framing) :
    EvaluatesOnce lib config engine attrs headers framing ↔
      DecodesBody lib config headers framing := by
  have hevaluated := evaluated_reports lib config engine attrs headers framing
  constructor
  · intro h hwith htype v hread hv
    have hinput := h.body hwith htype v hread hv _ hevaluated
    rw [buildInput_body_eq_iff hv, seenBody_eq_iff hwith htype hread] at hinput
    exact hinput.resolve_left hv
  · intro h
    obtain ⟨held, passed, hreports, hdenied⟩ :=
      reports_eq lib config engine attrs headers framing
    refine ⟨⟨_, hevaluated⟩, ?_, ?_, ?_⟩
    · intro before r after hsplit hcontinues
      rw [hreports] at hsplit
      obtain ⟨hone, hallowed⟩ :=
        released_split (evaluation_evaluated headers _) hdenied hsplit hcontinues
      exact ⟨_, hone.trans (by rw [← hallowed])⟩
    · intro input allowed hone
      rw [hevaluated] at hone
      obtain ⟨-, hallowed⟩ := Prod.mk.inj (List.cons.inj hone).1
      have hresponse : (theEvaluation lib config engine attrs headers framing).response.isSome =
          !allowed := by
        rw [← hallowed]
        exact evaluation_response headers _
      rw [hreports, responses_split]
      cases hsent : (theEvaluation lib config engine attrs headers framing).response with
      | none =>
        rw [hsent] at hresponse
        cases allowed with
        | true => rfl
        | false => cases hresponse
      | some response =>
        rw [hsent] at hresponse
        cases allowed with
        | true => cases hresponse
        | false => rfl
    · intro hwith htype v hread hv e hone
      rw [hevaluated] at hone
      rw [← (List.cons.inj hone).1, buildInput_body_eq_iff hv,
        seenBody_eq_iff hwith htype hread]
      exact .inr (h hwith htype v hread hv)

def sampleLibrary : Library where
  parseQuery := fun _ => some .empty
  floatFits := fun _ => true
  outOfRange := fun _ => none

def bodyConfig : Config := ⟨false, false, true, []⟩

def sampleAttributes : Attributes :=
  ⟨"", "", "", "", "", "", "", "", false, fun _ => []⟩

def jsonPost : Headers :=
  [(":method", "POST"), (":path", "/pay"), (":authority", "api"),
    ("content-type", "application/json")]

theorem jsonPost_type : hasJsonType jsonPost := by
  unfold hasJsonType
  decide +kernel

/-- The value in one body callback. -/
def delivery (v : Json) : Framing := .body [] (some v.marshal)

theorem read_delivery (v : Json) : Json.read (delivery v).bytes = some v :=
  Json.read_marshal v

def amount : Json := .object [("amount".toList, .number ⟨"5".toList, by decide⟩)]

theorem amount_evaluatedOnce :
    EvaluatesOnce sampleLibrary bodyConfig (fun _ => .ok []) sampleAttributes jsonPost
      (delivery amount) := by
  refine (evaluatesOnce_iff _ _ _ _ _ _).mpr fun _ _ v hread _ => ?_
  rw [read_delivery, Option.some.injEq] at hread
  subst hread
  exact ⟨by decide, by decide⟩

/-- Arrays one in the other. -/
def nested : ℕ → Json
  | 0 => .array []
  | n + 1 => .array [nested n]

theorem depth_nested (n : ℕ) : (nested n).depth = n + 1 := by
  induction n with
  | zero => rfl
  | succ n ih => simp [nested, Json.depth, Json.depthItems, ih]

theorem nested_ne_null (n : ℕ) : nested n ≠ .null := by
  cases n <;> simp [nested]

section

variable {n : ℕ} (hn : maxNestingDepth ≤ n) (lib : Library) (engine : Engine)

include hn

theorem not_evaluatesOnce_nested :
    ¬EvaluatesOnce lib bodyConfig engine sampleAttributes jsonPost (delivery (nested n)) := by
  intro h
  have hinput := h.body rfl jsonPost_type (nested n) (read_delivery _) (nested_ne_null n) _
    (evaluated_reports lib bodyConfig engine sampleAttributes jsonPost (delivery (nested n)))
  have hseen := (buildInput_body_eq_iff (nested_ne_null n)).mp hinput
  rcases (seenBody_eq_iff rfl jsonPost_type (read_delivery _)).mp hseen with hnull | ⟨hdepth, -⟩
  · exact nested_ne_null n hnull
  · rw [depth_nested] at hdepth
    omega

theorem evaluated_nested :
    (reports lib bodyConfig engine sampleAttributes jsonPost (delivery (nested n))).filterMap
        (fun r => r.evaluated.map fun e => e.1.body) = [none] := by
  have hparse : Json.parse (delivery (nested n)).bytes = none := by
    cases hv : Json.parse (delivery (nested n)).bytes with
    | none => rfl
    | some v =>
      obtain ⟨hread, hdepth⟩ := Json.parse_eq_some_iff.mp hv
      rw [read_delivery, Option.some.injEq] at hread
      rw [← hread, depth_nested] at hdepth
      omega
  have hseen : seenBody lib bodyConfig jsonPost (delivery (nested n)) = .nil := by
    rw [seenBody, if_pos ⟨rfl, rfl⟩, parsedBody_of_json jsonPost_type, hparse]
  have hmap := congrArg (List.map fun e => e.1.body)
    (evaluated_reports lib bodyConfig engine sampleAttributes jsonPost (delivery (nested n)))
  rw [map_filterMap, hseen] at hmap
  exact hmap

end

/-- Twenty thousand and one arrays, one in the other, are JSON, and the policy sees no body. -/
theorem deepArrays_notEvaluated :
    Json.read (delivery (nested 20000)).bytes = some (nested 20000) ∧
      ∀ lib engine,
        (reports lib bodyConfig engine sampleAttributes jsonPost
            (delivery (nested 20000))).filterMap
          (fun r => r.evaluated.map fun e => e.1.body) = [none] ∧
        ¬EvaluatesOnce lib bodyConfig engine sampleAttributes jsonPost (delivery (nested 20000)) :=
  have hdeep : maxNestingDepth ≤ 20000 := by decide
  ⟨read_delivery _, fun lib engine =>
    ⟨evaluated_nested hdeep lib engine, not_evaluatesOnce_nested hdeep lib engine⟩⟩

end BuiltOnEnvoy.Opa
