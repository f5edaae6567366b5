import BuiltOnEnvoy.Bedrock.Guardrails

/-!
# The guardrail chain is fail-closed

A run of the chain delivers an answer to the callout in flight, if there is
one, and so on. The chain is fail-closed in every run in which no delivered
answer has a blocked regex entry that nothing else blocks, none is the JSON
value `null`, and none that passes is without assessments.
-/

namespace BuiltOnEnvoy.Bedrock

open Foundations List

/-- A regex entry with the action `BLOCKED`. -/
def JsonValue.blocked : JsonValue → Prop
  | .object members => ("action", .string "BLOCKED") ∈ members
  | _ => False

/-- Some policy element of the answer has the action `BLOCKED`. -/
def Assessment.HasBlocked (x : Assessment) : Prop :=
  x.blocked = true ∨ ∃ r ∈ x.regexes, r.blocked

def ApplyGuardrailResponse.HasBlocked (resp : ApplyGuardrailResponse) : Prop :=
  ∃ x ∈ resp.assessments, x.HasBlocked

/-- The callout a list of calls left in flight. -/
def inFlight (calls : List HandleCall) : Option Callback :=
  calls.findSome? fun
    | .httpCallout _ _ _ _ callback .success => some callback
    | _ => none

/-- The calls of a run, the callout in flight after it, and the answers that
were delivered, each with the callback that received it. -/
structure Outcome where
  calls : List HandleCall
  pending : Option Callback
  delivered : List (Callback × Answer)

section

variable {Rest : Type} (codec : Codec Rest) (cfg : GuardrailsConfig)

/-- Deliver answers to the callout in flight. Every answer comes with the
result that starting the next callout would have. -/
def run : List (Answer × CalloutResult) → Option Callback → Outcome
  | _, none => ⟨[], none, []⟩
  | [], some cb => ⟨[], some cb, []⟩
  | (a, init) :: rest, some cb =>
    let calls := onHttpCalloutDone codec cfg cb init a
    let r := run rest (inFlight calls)
    ⟨calls ++ r.calls, r.pending, (cb, a) :: r.delivered⟩

/-- The run that a request body starts. -/
def chain (body : Bytes) (init : CalloutResult) (answers : List (Answer × CalloutResult)) :
    Outcome :=
  let calls := (processRequestBody codec cfg body init).2
  let r := run codec cfg answers (inFlight calls)
  ⟨calls ++ r.calls, r.pending, r.delivered⟩

/-- The answer is a success, has a 2xx status and decodes to a response. -/
def Passes (a : Answer) (resp : ApplyGuardrailResponse) : Prop :=
  a.result = .success ∧ a.statusCode.toList.head? = some '2' ∧
    codec.unmarshalResponse a.body.flatten = .ok (some resp)

/-- The service reports an intervention whenever some element is blocked. -/
def Reports (a : Answer) : Prop :=
  ∀ resp, Passes codec a resp → resp.HasBlocked → resp.action = "GUARDRAIL_INTERVENED"

/-- What the callback relies on: a successful 2xx answer is not `null`, and
when no filter, topic or PII entity blocks it and its masking does not fail, it
has an assessment and no blocked regex entry. -/
def Regular (cb : Callback) (a : Answer) : Prop :=
  a.result = .success → a.statusCode.toList.head? = some '2' →
    codec.unmarshalResponse a.body.flatten ≠ .ok none ∧
    ∀ resp, codec.unmarshalResponse a.body.flatten = .ok (some resp) → resp.blocked = false →
      maskedBody codec cb.body resp.outputs ≠ none →
      resp.assessments ≠ [] ∧ ∀ x ∈ resp.assessments, ∀ r ∈ x.regexes, ¬r.blocked

end

def HandleCall.isLocalResponse : HandleCall → Bool
  | .sendLocalResponse _ _ => true
  | _ => false

/-- The `:path` headers of the callouts, in order. -/
def calloutPaths (calls : List HandleCall) : List String :=
  calls.filterMap fun
    | .httpCallout _ headers _ _ _ _ => some (headerValue headers ":path")
    | _ => none

/-- From the guardrail at `first` on: the request is continued only after every
further guardrail was invoked once in order and every answer passed without a
blocked element; a chain that ended otherwise has sent exactly one local
response. The guardrail at `first` itself was invoked before. -/
structure ClosedFrom {Rest : Type} (codec : Codec Rest) (cfg : GuardrailsConfig) (first : ℕ)
    (o : Outcome) : Prop where
  invoked : .continueRequest ∈ o.calls →
    calloutPaths o.calls = (cfg.bedrockGuardrails.drop (first + 1)).map applyPath
  answered : .continueRequest ∈ o.calls →
    o.delivered.map (·.1.index) = List.range' first (cfg.bedrockGuardrails.length - first)
  clean : .continueRequest ∈ o.calls →
    ∀ p ∈ o.delivered, ∃ resp, Passes codec p.2 resp ∧ ¬resp.HasBlocked
  refused : o.pending = none → .continueRequest ∉ o.calls →
    o.calls.countP HandleCall.isLocalResponse = 1

/-- The request is continued only after every guardrail was invoked once in
order and every answer passed without a blocked element; a chain that ended
otherwise has sent exactly one local response. -/
structure FailClosed {Rest : Type} (codec : Codec Rest) (cfg : GuardrailsConfig) (o : Outcome) :
    Prop where
  invoked : .continueRequest ∈ o.calls →
    calloutPaths o.calls = cfg.bedrockGuardrails.map applyPath
  answered : .continueRequest ∈ o.calls →
    o.delivered.map (·.1.index) = List.range cfg.bedrockGuardrails.length
  clean : .continueRequest ∈ o.calls →
    ∀ p ∈ o.delivered, ∃ resp, Passes codec p.2 resp ∧ ¬resp.HasBlocked
  refused : o.pending = none → .continueRequest ∉ o.calls →
    o.calls.countP HandleCall.isLocalResponse = 1

section

variable {Rest : Type} {codec : Codec Rest} {cfg : GuardrailsConfig}

/-- Calls that end the chain with a local response. -/
structure Refuses (calls : List HandleCall) : Prop where
  once : calls.countP HandleCall.isLocalResponse = 1
  stopped : .continueRequest ∉ calls
  idle : inFlight calls = none

theorem refuses_local (status : ℕ) (message : String) :
    Refuses [.sendLocalResponse status message] :=
  ⟨rfl, by simp, rfl⟩

theorem Refuses.run_none {calls : List HandleCall} (h : Refuses calls) (codec : Codec Rest)
    (cfg : GuardrailsConfig) (answers : List (Answer × CalloutResult)) :
    .continueRequest ∉ calls ++ (run codec cfg answers none).calls ∧
      (calls ++ (run codec cfg answers none).calls).countP HandleCall.isLocalResponse = 1 := by
  simp only [run, append_nil]
  exact ⟨h.stopped, h.once⟩

/-- Calls that invoke a guardrail and otherwise leave the request alone. -/
structure Asks (g : Guardrail) (calls : List HandleCall) : Prop where
  path : calloutPaths calls = [applyPath g]
  stopped : .continueRequest ∉ calls
  unsent : calls.countP HandleCall.isLocalResponse = 0

section

variable {g : Guardrail} {calls : List HandleCall} {o : Outcome} {first : ℕ}

theorem Asks.continued (h : Asks g calls) (hmem : .continueRequest ∈ calls ++ o.calls) :
    .continueRequest ∈ o.calls :=
  (mem_append.mp hmem).resolve_left h.stopped

theorem Asks.invoked (h : Asks g calls)
    (hnext : cfg.bedrockGuardrails[first]? = some g)
    (hrest : calloutPaths o.calls = (cfg.bedrockGuardrails.drop (first + 1)).map applyPath) :
    calloutPaths (calls ++ o.calls) = (cfg.bedrockGuardrails.drop first).map applyPath := by
  obtain ⟨hlt, hg⟩ := List.getElem?_eq_some_iff.mp hnext
  have happend : calloutPaths (calls ++ o.calls) = calloutPaths calls ++ calloutPaths o.calls :=
    filterMap_append
  rw [happend, h.path, hrest, drop_eq_getElem_cons hlt, hg]
  rfl

theorem Asks.refused (h : Asks g calls) (hclosed : ClosedFrom codec cfg first o)
    (hpending : o.pending = none) (hnot : .continueRequest ∉ calls ++ o.calls) :
    (calls ++ o.calls).countP HandleCall.isLocalResponse = 1 := by
  have hrest : .continueRequest ∉ o.calls := fun hmem => hnot (mem_append_right _ hmem)
  rw [countP_append, h.unsent, hclosed.refused hpending hrest]

end

/-- The calls after an answer that lets the chain go on. -/
inductive GoesOn (cfg : GuardrailsConfig) (next : ℕ) : List HandleCall → Prop
  | continues (body : Bytes) (hlast : cfg.bedrockGuardrails[next]? = none) :
      GoesOn cfg next [.appendBody body, .continueRequest]
  | invokes (g : Guardrail) (hnext : cfg.bedrockGuardrails[next]? = some g)
      (cluster : String) (headers : List (String × String)) (body calloutBody : Bytes)
      (timeoutMs : ℕ) (hpath : headerValue headers ":path" = applyPath g) :
      GoesOn cfg next [.httpCallout cluster headers calloutBody timeoutMs ⟨body, next⟩ .success]

theorem getCalloutHeaders_path {g : Guardrail} {body : Bytes}
    {r : List (String × String) × Bytes} (h : getCalloutHeaders codec cfg g body = .ok r) :
    headerValue r.1 ":path" = applyPath g := by
  unfold getCalloutHeaders at h
  cases hparse : parseChatRequest codec body with
  | error e => simp [hparse] at h
  | ok content =>
    rw [hparse] at h
    cases h
    rfl

theorem applyNext_cases (codec : Codec Rest) (cfg : GuardrailsConfig) (body : Bytes) (next : ℕ)
    (init : CalloutResult) :
    Refuses (applyNext codec cfg body next init) ∨
      GoesOn cfg next (applyNext codec cfg body next init) := by
  cases hg : cfg.bedrockGuardrails[next]? with
  | none =>
    simp only [applyNext, hg]
    exact Or.inr (.continues body hg)
  | some g =>
    cases hheaders : getCalloutHeaders codec cfg g body with
    | error e =>
      simp only [applyNext, hg, hheaders]
      exact Or.inl (refuses_local _ _)
    | ok r =>
      have hpath := getCalloutHeaders_path hheaders
      simp only [applyNext, hg, hheaders]
      cases init with
      | failure code => exact Or.inl ⟨rfl, by simp, rfl⟩
      | success => exact Or.inr (.invokes g hg _ r.1 body r.2 _ hpath)

/-- A regular answer either ends the chain with one local response, or passes
without a blocked element and lets the chain go on. -/
theorem onHttpCalloutDone_cases (cfg : GuardrailsConfig) {cb : Callback} {a : Answer}
    (init : CalloutResult)
    (hreports : Reports codec a) (hregular : Regular codec cb a) :
    Refuses (onHttpCalloutDone codec cfg cb init a) ∨
      (∃ resp, Passes codec a resp ∧ ¬resp.HasBlocked) ∧
        GoesOn cfg (cb.index + 1) (onHttpCalloutDone codec cfg cb init a) := by
  unfold onHttpCalloutDone
  split_ifs with hresult hstatus
  · exact Or.inl (refuses_local _ _)
  · exact Or.inl (refuses_local _ _)
  rw [not_not] at hresult hstatus
  obtain ⟨hnull, hdecoded⟩ := hregular hresult hstatus
  cases hresp : codec.unmarshalResponse a.body.flatten with
  | error e =>
    simp only
    exact Or.inl (refuses_local _ _)
  | ok decoded =>
    cases decoded with
    | none => exact absurd hresp hnull
    | some resp =>
      have hpasses : Passes codec a resp := ⟨hresult, hstatus, hresp⟩
      simp only
      cases hblocked : resp.blocked with
      | true => exact Or.inl (refuses_local _ _)
      | false =>
        cases hbody : maskedBody codec cb.body resp.outputs with
        | none => exact Or.inl (refuses_local _ _)
        | some newBody =>
          obtain ⟨hassessed, hregexes⟩ := hdecoded resp hresp hblocked (by simp [hbody])
          simp only [hassessed, if_false, Bool.false_eq_true]
          have hclean : ¬resp.HasBlocked := by
            intro hhas
            have haction := hreports resp hpasses hhas
            obtain ⟨x, hx, hxblocked | ⟨r, hr, hrblocked⟩⟩ := hhas
            · have hany : resp.assessments.any Assessment.blocked = true :=
                List.any_eq_true.mpr ⟨x, hx, hxblocked⟩
              simp [ApplyGuardrailResponse.blocked, haction, hany] at hblocked
            · exact hregexes x hx r hr hrblocked
          rcases applyNext_cases codec cfg newBody (cb.index + 1) init with hrefuse | hon
          · exact Or.inl hrefuse
          · exact Or.inr ⟨⟨resp, hpasses, hclean⟩, hon⟩

theorem closedFrom_run (answers : List (Answer × CalloutResult)) (cb : Callback)
    (hcb : cb.index < cfg.bedrockGuardrails.length)
    (hreports : ∀ p ∈ (run codec cfg answers (some cb)).delivered, Reports codec p.2)
    (hregular : ∀ p ∈ (run codec cfg answers (some cb)).delivered, Regular codec p.1 p.2) :
    ClosedFrom codec cfg cb.index (run codec cfg answers (some cb)) := by
  induction answers generalizing cb with
  | nil => exact ⟨by simp [run], by simp [run], by simp [run], by simp [run]⟩
  | cons event rest ih =>
    obtain ⟨a, init⟩ := event
    simp only [run, forall_mem_cons] at hreports hregular ⊢
    rcases onHttpCalloutDone_cases cfg init hreports.1 hregular.1 with hrefuses | ⟨hclean, hon⟩
    · obtain ⟨hcont, honce⟩ := hrefuses.run_none codec cfg rest
      rw [hrefuses.idle]
      exact ⟨fun h => absurd h hcont, fun h => absurd h hcont, fun h => absurd h hcont,
        fun _ _ => honce⟩
    · generalize onHttpCalloutDone codec cfg cb init a = calls at hon hreports hregular ⊢
      cases hon with
      | continues body hlast =>
        have hlen : cfg.bedrockGuardrails.length = cb.index + 1 := by
          rw [List.getElem?_eq_none_iff] at hlast
          omega
        constructor
        · intro _
          simp [inFlight, run, calloutPaths, hlen]
        · intro _
          simp [inFlight, run, hlen]
        · intro _ p hp
          simp only [inFlight, run, List.findSome?] at hp
          rw [mem_singleton] at hp
          subst hp
          exact hclean
        · intro _ hnot
          simp at hnot
      | invokes g hnext cluster headers body calloutBody timeoutMs hpath =>
        have hlt : cb.index + 1 < cfg.bedrockGuardrails.length :=
          (List.getElem?_eq_some_iff.mp hnext).1
        have hflight : inFlight [.httpCallout cluster headers calloutBody timeoutMs
            ⟨body, cb.index + 1⟩ .success] = some ⟨body, cb.index + 1⟩ := rfl
        have hasks : Asks g [.httpCallout cluster headers calloutBody timeoutMs
            ⟨body, cb.index + 1⟩ .success] :=
          ⟨congrArg (fun path => [path]) hpath, by simp, rfl⟩
        rw [hflight] at hreports hregular ⊢
        have hrest := ih ⟨body, cb.index + 1⟩ hlt hreports.2 hregular.2
        constructor
        · intro h
          exact hasks.invoked hnext (hrest.invoked (hasks.continued h))
        · intro h
          have hsucc : cfg.bedrockGuardrails.length - cb.index =
              cfg.bedrockGuardrails.length - (cb.index + 1) + 1 := by omega
          rw [map_cons, hrest.answered (hasks.continued h), hsucc, range'_succ]
        · intro h
          rw [forall_mem_cons]
          exact ⟨hclean, hrest.clean (hasks.continued h)⟩
        · exact hasks.refused hrest

end

section

variable {Rest : Type} (codec : Codec Rest) (cfg : GuardrailsConfig)

theorem processRequestBody_cases (g : Guardrail) (rest : List Guardrail)
    (hcfg : cfg.bedrockGuardrails = g :: rest) (body : Bytes) (hbody : body ≠ [])
    (init : CalloutResult) :
    (processRequestBody codec cfg body init).1 = false ∧
      (Refuses (processRequestBody codec cfg body init).2 ∨
        ∃ cluster headers calloutBody timeoutMs, headerValue headers ":path" = applyPath g ∧
          (processRequestBody codec cfg body init).2 =
            [.clearBody,
              .httpCallout cluster headers calloutBody timeoutMs ⟨body, 0⟩ .success]) := by
  have hhead : cfg.bedrockGuardrails.head? = some g := by rw [hcfg]; rfl
  cases hheaders : getCalloutHeaders codec cfg g body with
  | error e =>
    simp only [processRequestBody, hbody, hhead, hheaders, if_false]
    exact ⟨trivial, Or.inl ⟨rfl, by simp, rfl⟩⟩
  | ok r =>
    have hpath := getCalloutHeaders_path hheaders
    simp only [processRequestBody, hbody, hhead, hheaders, if_false]
    cases init with
    | failure code => exact ⟨rfl, Or.inl ⟨rfl, by simp, rfl⟩⟩
    | success => exact ⟨rfl, Or.inr ⟨_, r.1, r.2, _, hpath, rfl⟩⟩

/-- The chain is fail-closed in every run whose delivered answers are regular. -/
theorem chain_failClosed (body : Bytes) (hbody : body ≠ [])
    (hcfg : cfg.bedrockGuardrails ≠ []) (init : CalloutResult)
    (answers : List (Answer × CalloutResult))
    (hreports : ∀ p ∈ (chain codec cfg body init answers).delivered, Reports codec p.2)
    (hregular : ∀ p ∈ (chain codec cfg body init answers).delivered, Regular codec p.1 p.2) :
    (processRequestBody codec cfg body init).1 = false ∧
      FailClosed codec cfg (chain codec cfg body init answers) := by
  obtain ⟨g, rest, hlist⟩ := exists_cons_of_ne_nil hcfg
  obtain ⟨hstop, hfirst⟩ := processRequestBody_cases codec cfg g rest hlist body hbody init
  refine ⟨hstop, ?_⟩
  simp only [chain] at hreports hregular ⊢
  rcases hfirst with hrefuses | ⟨cluster, headers, calloutBody, timeoutMs, hpath, hcalls⟩
  · obtain ⟨hcont, honce⟩ := hrefuses.run_none codec cfg answers
    rw [hrefuses.idle]
    exact ⟨fun h => absurd h hcont, fun h => absurd h hcont, fun h => absurd h hcont,
      fun _ _ => honce⟩
  · rw [hcalls] at hreports hregular ⊢
    have hflight : inFlight [.clearBody, .httpCallout cluster headers calloutBody timeoutMs
        ⟨body, 0⟩ .success] = some ⟨body, 0⟩ := rfl
    have hasks : Asks g [.clearBody, .httpCallout cluster headers calloutBody timeoutMs
        ⟨body, 0⟩ .success] :=
      ⟨congrArg (fun path => [path]) hpath, by simp, rfl⟩
    rw [hflight] at hreports hregular ⊢
    have hlen : 0 < cfg.bedrockGuardrails.length := length_pos_iff.mpr hcfg
    have hclosed := closedFrom_run answers ⟨body, 0⟩ hlen hreports hregular
    constructor
    · intro h
      have hhead : cfg.bedrockGuardrails[0]? = some g := by rw [hlist]; rfl
      exact hasks.invoked hhead (hclosed.invoked (hasks.continued h))
    · intro h
      rw [hclosed.answered (hasks.continued h), Nat.sub_zero, range_eq_range']
    · intro h
      exact hclosed.clean (hasks.continued h)
    · exact hasks.refused hclosed

end

def userRequest : Bytes :=
  ascii "\x7b\"messages\":[\x7b\"role\":\"user\",\"content\":\"hi\"\x7d],\"model\":\"m\"\x7d"

/-- Only a regex entry is blocked. -/
def regexText : Bytes :=
  ascii ("\x7b\"action\":\"GUARDRAIL_INTERVENED\",\"assessments\":[" ++
    "\x7b\"sensitiveInformationPolicy\":" ++
    "\x7b\"regexes\":[\x7b\"name\":\"ssn\",\"action\":\"BLOCKED\"\x7d]\x7d\x7d]\x7d")

def regexResponse : ApplyGuardrailResponse :=
  { action := "GUARDRAIL_INTERVENED"
    outputs := []
    assessments :=
      [⟨"", "", [], [], [],
        [.object [("name", .string "ssn"), ("action", .string "BLOCKED")]]⟩] }

/-- No policy found anything. -/
def quietText : Bytes :=
  ascii "\x7b\"action\":\"NONE\",\"assessments\":[\x7b\x7d]\x7d"

def quietResponse : ApplyGuardrailResponse :=
  { action := "NONE", outputs := [], assessments := [⟨"", "", [], [], [], []⟩] }

def emptyText : Bytes := ascii "\x7b\x7d"

def emptyResponse : ApplyGuardrailResponse :=
  { action := "", outputs := [], assessments := [] }

attribute [local simp] quietResponse

/-- The JSON calls on the texts above, as the standard library answers them. -/
def sampleCodec : Codec Unit where
  unmarshalRequest body :=
    if body = userRequest then .ok ⟨[⟨"user", ascii "\"hi\"", none, none, []⟩], ()⟩
    else .error "invalid request"
  marshalRequest _ := .error "not needed"
  unmarshalString raw := if raw = ascii "\"hi\"" then some "hi" else none
  unmarshalParts _ := none
  marshalPart _ := []
  quote text := ascii ("\"" ++ text ++ "\"")
  marshalApply _ :=
    ascii "\x7b\"source\":\"INPUT\",\"content\":[\x7b\"text\":\x7b\"text\":\"hi\"\x7d\x7d]\x7d"
  unmarshalResponse body :=
    if body = regexText then .ok (some regexResponse)
    else if body = quietText then .ok (some quietResponse)
    else if body = emptyText then .ok (some emptyResponse)
    else .error "invalid response"

def oneGuardrail : GuardrailsConfig := ⟨"bedrock", "cluster", "key", [⟨"g", "1"⟩], 10000⟩

def okAnswer (body : Bytes) : Answer := ⟨.success, [(":status", "200")], [body]⟩

def runWith (body : Bytes) : Outcome :=
  chain sampleCodec oneGuardrail userRequest .success [(okAnswer body, .success)]

theorem decode_regexText :
    sampleCodec.unmarshalResponse (okAnswer regexText).body.flatten = .ok (some regexResponse) := by
  simp [sampleCodec, okAnswer]

theorem decode_quietText :
    sampleCodec.unmarshalResponse (okAnswer quietText).body.flatten = .ok (some quietResponse) := by
  have hother : quietText ≠ regexText := by decide +kernel
  simp [sampleCodec, okAnswer, hother]

/-- A blocked regex entry does not stop the request, and an answer without
assessments ends the chain in a panic with no local response. -/
theorem regex_block_continues :
    (∀ p ∈ (runWith regexText).delivered, Reports sampleCodec p.2) ∧
      .continueRequest ∈ (runWith regexText).calls ∧
      ¬FailClosed sampleCodec oneGuardrail (runWith regexText) ∧
      .panic ∈ (runWith emptyText).calls ∧
      ¬FailClosed sampleCodec oneGuardrail (runWith emptyText) := by
  have hdelivered : (runWith regexText).delivered = [(⟨userRequest, 0⟩, okAnswer regexText)] := by
    decide +kernel
  have hcontinued : .continueRequest ∈ (runWith regexText).calls := by decide +kernel
  have hpasses : ∀ resp, Passes sampleCodec (okAnswer regexText) resp → resp = regexResponse := by
    intro resp hresp
    have hdecode := hresp.2.2
    rw [decode_regexText] at hdecode
    cases hdecode
    rfl
  refine ⟨?_, hcontinued, ?_, by decide +kernel, ?_⟩
  · intro p hp resp hresp _
    rw [hdelivered, mem_singleton] at hp
    subst hp
    rw [hpasses resp hresp]
    rfl
  · intro hclosed
    obtain ⟨resp, hresp, hclean⟩ :=
      hclosed.clean hcontinued (⟨userRequest, 0⟩, okAnswer regexText) (by simp [hdelivered])
    apply hclean
    rw [hpasses resp hresp]
    exact ⟨_, mem_singleton_self _,
      Or.inr ⟨_, mem_singleton_self _, by simp [JsonValue.blocked]⟩⟩
  · intro hclosed
    have hone := hclosed.refused (by decide +kernel) (by decide +kernel)
    exact absurd hone (by decide +kernel)

/-- An answer in which nothing was found lets the request go on. -/
theorem chain_failClosed_quiet :
    (processRequestBody sampleCodec oneGuardrail userRequest .success).1 = false ∧
      FailClosed sampleCodec oneGuardrail (runWith quietText) ∧
      .continueRequest ∈ (runWith quietText).calls := by
  have hdelivered : (runWith quietText).delivered = [(⟨userRequest, 0⟩, okAnswer quietText)] := by
    decide +kernel
  have hdecodes : ∀ a, sampleCodec.unmarshalResponse (okAnswer quietText).body.flatten = .ok a →
      a = some quietResponse := by
    intro a ha
    rw [decode_quietText] at ha
    cases ha
    rfl
  have hmain := chain_failClosed sampleCodec oneGuardrail userRequest (by decide)
    (by decide) .success [(okAnswer quietText, .success)] ?_ ?_
  · exact ⟨hmain.1, hmain.2, by decide +kernel⟩
  · intro p hp resp hpasses hblocked
    change p ∈ (runWith quietText).delivered at hp
    rw [hdelivered, mem_singleton] at hp
    subst hp
    cases hdecodes _ hpasses.2.2
    simp [ApplyGuardrailResponse.HasBlocked, Assessment.HasBlocked, Assessment.blocked] at hblocked
  · intro p hp _ _
    change p ∈ (runWith quietText).delivered at hp
    rw [hdelivered, mem_singleton] at hp
    subst hp
    constructor
    · intro hnull
      cases hdecodes _ hnull
    · intro resp hresp _ _
      cases hdecodes _ hresp
      simp

end BuiltOnEnvoy.Bedrock
