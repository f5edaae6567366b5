import Mathlib.Tactic

/-!
# The analyses of the content-safety filter

A request analysis and a response analysis run off the worker thread. Each
makes its calls to the service one after another and, at the first one that
settles the matter, schedules a function that continues the message or answers
it. The answers of the service are those of an arbitrary client; log calls are
left out.

Both analyses are the same scheme over their own list of calls: the first call
that failed or reported something decides. The results are proved of the scheme.
-/

namespace BuiltOnEnvoy.AzureContentSafety

/-- The configuration, without what only the client reads. -/
structure AzureContentSafetyConfig where
  mode : String
  failOpen : Bool
  hateThreshold : Option ℤ
  selfHarmThreshold : Option ℤ
  sexualThreshold : Option ℤ
  violenceThreshold : Option ℤ
  categories : List String
  enableProtectedMaterial : Bool
  enableTaskAdherence : Bool
  taskAdherenceAPIVersion : String
  deriving DecidableEq, Repr

def defaultTaskAdherenceAPIVersion : String := "2025-09-15-preview"

def defaultThreshold : ℤ := 2

/-- A lower-case letter, exact where the result is compared with an ASCII text: two
letters outside ASCII have an ASCII lower case. -/
def lowerLetter (c : Char) : Char :=
  if c = '\u0130' then 'i' else if c = '\u212a' then 'k' else c.toLower

namespace AzureContentSafetyConfig

variable (c : AzureContentSafetyConfig)

/-- `taskAdherenceAPIVersion()`, with its default. -/
def taskAdherenceVersion : String :=
  if c.taskAdherenceAPIVersion ≠ "" then c.taskAdherenceAPIVersion
  else defaultTaskAdherenceAPIVersion

def threshold (category : String) : ℤ :=
  let configured :=
    match String.ofList (category.toList.map lowerLetter) with
    | "hate" => c.hateThreshold
    | "selfharm" => c.selfHarmThreshold
    | "sexual" => c.sexualThreshold
    | "violence" => c.violenceThreshold
    | _ => none
  configured.getD defaultThreshold

/-- `categories()`, with its default. -/
def analyzedCategories : List String :=
  if c.categories ≠ [] then c.categories else ["Hate", "SelfHarm", "Sexual", "Violence"]

def isBlockMode : Bool := c.mode ≠ "monitor"

end AzureContentSafetyConfig

structure PromptAnalysis where
  attackDetected : Bool
  deriving DecidableEq, Repr

structure PromptShieldResponse where
  userPromptAnalysis : Option PromptAnalysis
  documentsAnalysis : List PromptAnalysis
  deriving DecidableEq, Repr

structure CategoryAnalysis where
  category : String
  severity : ℤ
  deriving DecidableEq, Repr

structure TextAnalyzeResponse where
  categoriesAnalysis : List CategoryAnalysis
  deriving DecidableEq, Repr

structure ProtectedMaterialAnalysis where
  detected : Bool
  deriving DecidableEq, Repr

structure ProtectedMaterialResponse where
  protectedMaterialAnalysis : Option ProtectedMaterialAnalysis
  deriving DecidableEq, Repr

structure TaskAdherenceResponse where
  taskRiskDetected : Bool
  details : String
  deriving DecidableEq, Repr

/-- The answers of the service; `TaskRequest` is a request for the task adherence check. -/
structure Client (TaskRequest : Type) where
  shieldPrompt : String → List String → Except String PromptShieldResponse
  analyzeText : String → List String → Except String TextAnalyzeResponse
  detectProtectedMaterial : String → Except String ProtectedMaterialResponse
  analyzeTaskAdherence : TaskRequest → String → Except String TaskAdherenceResponse

/-- A call an analysis makes, with its arguments and its outcome. -/
inductive ApiCall (TaskRequest : Type)
  | shieldPrompt (userPrompt : String) (documents : List String)
      (outcome : Except String PromptShieldResponse)
  /-- The parser's translation of the request body for the task adherence check. -/
  | parseTaskAdherence (outcome : Except String TaskRequest)
  | analyzeTaskAdherence (request : TaskRequest) (apiVersion : String)
      (outcome : Except String TaskAdherenceResponse)
  | analyzeText (text : String) (categories : List String)
      (outcome : Except String TextAnalyzeResponse)
  | detectProtectedMaterial (text : String) (outcome : Except String ProtectedMaterialResponse)

inductive HandleCall
  | continueRequest
  | continueResponse
  | sendLocalResponse (status : ℕ) (body details : String)
  | incrementCounterValue (decision : String)
  deriving DecidableEq, Repr

/-- The calls of an analysis in order, and the functions it schedules. -/
structure Analysis (TaskRequest : Type) where
  performed : List (ApiCall TaskRequest)
  scheduled : List (List HandleCall)

def isPromptAttackDetected (result : PromptShieldResponse) : Bool :=
  result.userPromptAnalysis.any (·.attackDetected) ||
    result.documentsAnalysis.any (·.attackDetected)

def ProtectedMaterialResponse.isDetected (result : ProtectedMaterialResponse) : Bool :=
  result.protectedMaterialAnalysis.any (·.detected)

section

variable {TaskRequest : Type} (cfg : AzureContentSafetyConfig) (metricsEnabled : Bool)

/-- The categories that reach their threshold, as they are logged. -/
def checkThresholds (result : TextAnalyzeResponse) : List String :=
  (result.categoriesAnalysis.filter fun ca => cfg.threshold ca.category ≤ ca.severity).map fun ca =>
    ca.category ++ "(severity=" ++ toString ca.severity ++ ")"

def inc (decision : String) : List HandleCall :=
  if metricsEnabled then [.incrementCounterValue decision] else []

def handleAPIErrorAsync (continueStream : HandleCall) : List HandleCall :=
  if cfg.failOpen then inc metricsEnabled "failopen" ++ [continueStream]
  else
    .sendLocalResponse 500 "Internal Server Error" "azure_content_safety_api_error" ::
      inc metricsEnabled "error"

/-- The function scheduled after something was reported. -/
def handleReport (continueStream : HandleCall) (body details : String) : List HandleCall :=
  if cfg.isBlockMode then .sendLocalResponse 403 body details :: inc metricsEnabled "blocked"
  else inc metricsEnabled "monitored" ++ [continueStream]

def handleAllowed (continueStream : HandleCall) : List HandleCall :=
  inc metricsEnabled "allowed" ++ [continueStream]

variable (client : Client TaskRequest)

/-- `parsed` is the request body as the parser translates it for the task adherence check. -/
def analyzeRequest (userPrompt : String) (documents : List String)
    (parsed : Except String TaskRequest) : Analysis TaskRequest :=
  let shield := client.shieldPrompt userPrompt documents
  let shieldCall := .shieldPrompt userPrompt documents shield
  match shield with
  | .error _ => ⟨[shieldCall], [handleAPIErrorAsync cfg metricsEnabled .continueRequest]⟩
  | .ok result =>
    if isPromptAttackDetected result then
      ⟨[shieldCall], [handleReport cfg metricsEnabled .continueRequest
        "Request blocked: prompt injection detected" "azure_content_safety_prompt_blocked"]⟩
    else if cfg.enableTaskAdherence then
      match parsed with
      | .error _ => ⟨[shieldCall, .parseTaskAdherence parsed],
          [handleAPIErrorAsync cfg metricsEnabled .continueRequest]⟩
      | .ok taReq =>
        let ta := client.analyzeTaskAdherence taReq cfg.taskAdherenceVersion
        let performed := [shieldCall, .parseTaskAdherence parsed,
          .analyzeTaskAdherence taReq cfg.taskAdherenceVersion ta]
        match ta with
        | .error _ => ⟨performed, [handleAPIErrorAsync cfg metricsEnabled .continueRequest]⟩
        | .ok taResult =>
          if taResult.taskRiskDetected then
            ⟨performed, [handleReport cfg metricsEnabled .continueRequest
              "Request blocked: task adherence risk detected"
              "azure_content_safety_task_adherence_blocked"]⟩
          else ⟨performed, [handleAllowed metricsEnabled .continueRequest]⟩
    else ⟨[shieldCall], [handleAllowed metricsEnabled .continueRequest]⟩

def analyzeResponse (content : String) : Analysis TaskRequest :=
  let text := client.analyzeText content cfg.analyzedCategories
  let textCall := .analyzeText content cfg.analyzedCategories text
  match text with
  | .error _ => ⟨[textCall], [handleAPIErrorAsync cfg metricsEnabled .continueResponse]⟩
  | .ok result =>
    if checkThresholds cfg result ≠ [] then
      ⟨[textCall], [handleReport cfg metricsEnabled .continueResponse
        "Response blocked: harmful content detected" "azure_content_safety_response_blocked"]⟩
    else if cfg.enableProtectedMaterial then
      let pm := client.detectProtectedMaterial content
      let performed := [textCall, .detectProtectedMaterial content pm]
      match pm with
      | .error _ => ⟨performed, [handleAPIErrorAsync cfg metricsEnabled .continueResponse]⟩
      | .ok pmResult =>
        if pmResult.isDetected then
          ⟨performed, [handleReport cfg metricsEnabled .continueResponse
            "Response blocked: protected material detected"
            "azure_content_safety_protected_material_blocked"]⟩
        else ⟨performed, [handleAllowed metricsEnabled .continueResponse]⟩
    else ⟨[textCall], [handleAllowed metricsEnabled .continueResponse]⟩

end

namespace ApiCall

variable {TaskRequest : Type}

/-- The call ended with an error. -/
def Failed : ApiCall TaskRequest → Prop
  | shieldPrompt _ _ outcome => ∃ e, outcome = .error e
  | parseTaskAdherence outcome => ∃ e, outcome = .error e
  | analyzeTaskAdherence _ _ outcome => ∃ e, outcome = .error e
  | analyzeText _ _ outcome => ∃ e, outcome = .error e
  | detectProtectedMaterial _ outcome => ∃ e, outcome = .error e

/-- The call reports an attack, a risk, protected material, or a category that
reaches its threshold. -/
def Reports (cfg : AzureContentSafetyConfig) : ApiCall TaskRequest → Prop
  | shieldPrompt _ _ outcome => ∃ result, outcome = .ok result ∧
      ∃ analysis ∈ result.userPromptAnalysis.toList ++ result.documentsAnalysis,
        analysis.attackDetected = true
  | parseTaskAdherence _ => False
  | analyzeTaskAdherence _ _ outcome => ∃ result, outcome = .ok result ∧
      result.taskRiskDetected = true
  | analyzeText _ _ outcome => ∃ result, outcome = .ok result ∧
      ∃ ca ∈ result.categoriesAnalysis, cfg.threshold ca.category ≤ ca.severity
  | detectProtectedMaterial _ outcome => ∃ result, outcome = .ok result ∧
      ∃ analysis ∈ result.protectedMaterialAnalysis, analysis.detected = true

end ApiCall

section

variable {TaskRequest : Type}

/-- The enabled calls of a request analysis, with the answers of the client. -/
def requestCalls (cfg : AzureContentSafetyConfig) (client : Client TaskRequest)
    (userPrompt : String) (documents : List String) (parsed : Except String TaskRequest) :
    List (ApiCall TaskRequest) :=
  .shieldPrompt userPrompt documents (client.shieldPrompt userPrompt documents) ::
    if cfg.enableTaskAdherence then
      .parseTaskAdherence parsed ::
        match parsed with
        | .error _ => []
        | .ok taReq => [.analyzeTaskAdherence taReq cfg.taskAdherenceVersion
            (client.analyzeTaskAdherence taReq cfg.taskAdherenceVersion)]
    else []

/-- The enabled calls of a response analysis, with the answers of the client. -/
def responseCalls (cfg : AzureContentSafetyConfig) (client : Client TaskRequest)
    (content : String) : List (ApiCall TaskRequest) :=
  .analyzeText content cfg.analyzedCategories (client.analyzeText content cfg.analyzedCategories) ::
    if cfg.enableProtectedMaterial then
      [.detectProtectedMaterial content (client.detectProtectedMaterial content)]
    else []

end

def HandleCall.isLocalResponse : HandleCall → Bool
  | sendLocalResponse _ _ _ => true
  | _ => false

namespace Analysis

variable {TaskRequest : Type}

/-- All calls on the handle. -/
def calls (a : Analysis TaskRequest) : List HandleCall := a.scheduled.flatten

/-- Either the message is continued once and not answered, or it is answered once
and not continued. -/
def CompletesOnce (continueStream : HandleCall) (calls : List HandleCall) : Prop :=
  (calls.count continueStream = 1 ∧ calls.countP HandleCall.isLocalResponse = 0) ∨
    (calls.count continueStream = 0 ∧ calls.countP HandleCall.isLocalResponse = 1)

/-- Of the enabled calls those up to the first that failed or reported something are made. One
function is scheduled, which completes the message once, and neither a report in block mode nor
an error without `fail_open` lets the message go on. -/
structure Decides (cfg : AzureContentSafetyConfig) (continueStream : HandleCall)
    (enabled : List (ApiCall TaskRequest)) (a : Analysis TaskRequest) : Prop where
  made : a.performed <+: enabled
  early : a.performed ≠ enabled → ∃ call ∈ a.performed, call.Failed ∨ call.Reports cfg
  scheduled : a.scheduled.length = 1
  once : CompletesOnce continueStream a.calls
  blocks : cfg.isBlockMode = true → (∃ call ∈ a.performed, call.Reports cfg) →
    continueStream ∉ a.calls
  closed : cfg.failOpen = false → (∃ call ∈ a.performed, call.Failed) → continueStream ∉ a.calls

end Analysis

inductive Verdict
  | failed
  | reported (body details : String)
  | clean

section

variable {TaskRequest : Type} {cfg : AzureContentSafetyConfig} {metricsEnabled : Bool}
  {continueStream : HandleCall}

/-- A report with the texts of the answer in block mode. -/
def reportIf (detected : Bool) (body details : String) : Verdict :=
  if detected then .reported body details else .clean

/-- What one call says about the message. -/
def ApiCall.verdict (cfg : AzureContentSafetyConfig) : ApiCall TaskRequest → Verdict
  | shieldPrompt _ _ (.ok result) => reportIf (isPromptAttackDetected result)
      "Request blocked: prompt injection detected" "azure_content_safety_prompt_blocked"
  | analyzeTaskAdherence _ _ (.ok result) => reportIf result.taskRiskDetected
      "Request blocked: task adherence risk detected" "azure_content_safety_task_adherence_blocked"
  | analyzeText _ _ (.ok result) => reportIf (checkThresholds cfg result ≠ [])
      "Response blocked: harmful content detected" "azure_content_safety_response_blocked"
  | detectProtectedMaterial _ (.ok result) => reportIf result.isDetected
      "Response blocked: protected material detected"
      "azure_content_safety_protected_material_blocked"
  | parseTaskAdherence (.ok _) => .clean
  | _ => .failed

/-- Make the calls until one of them is not clean. -/
def firstVerdict (cfg : AzureContentSafetyConfig) (metricsEnabled : Bool)
    (continueStream : HandleCall) : List (ApiCall TaskRequest) → Analysis TaskRequest
  | [] => ⟨[], [handleAllowed metricsEnabled continueStream]⟩
  | call :: rest =>
    match call.verdict cfg with
    | .failed => ⟨[call], [handleAPIErrorAsync cfg metricsEnabled continueStream]⟩
    | .reported body details =>
      ⟨[call], [handleReport cfg metricsEnabled continueStream body details]⟩
    | .clean =>
      let a := firstVerdict cfg metricsEnabled continueStream rest
      ⟨call :: a.performed, a.scheduled⟩

attribute [local simp] firstVerdict ApiCall.verdict ApiCall.Reports Analysis.calls

theorem analyzeRequest_eq (cfg : AzureContentSafetyConfig) (metricsEnabled : Bool)
    (client : Client TaskRequest) (userPrompt : String) (documents : List String)
    (parsed : Except String TaskRequest) :
    analyzeRequest cfg metricsEnabled client userPrompt documents parsed =
      firstVerdict cfg metricsEnabled .continueRequest
        (requestCalls cfg client userPrompt documents parsed) := by
  unfold analyzeRequest requestCalls
  cases client.shieldPrompt userPrompt documents with
  | error e => rfl
  | ok result =>
    cases hattack : isPromptAttackDetected result with
    | true => simp [reportIf, hattack]
    | false =>
      cases htask : cfg.enableTaskAdherence with
      | false => simp [reportIf, hattack]
      | true =>
        cases parsed with
        | error e => simp [reportIf, hattack]
        | ok taReq =>
          cases hta : client.analyzeTaskAdherence taReq cfg.taskAdherenceVersion with
          | error e => simp [reportIf, hattack, hta]
          | ok taResult =>
            cases hrisk : taResult.taskRiskDetected <;>
              simp [reportIf, hattack, hta, hrisk]

theorem analyzeResponse_eq (cfg : AzureContentSafetyConfig) (metricsEnabled : Bool)
    (client : Client TaskRequest) (content : String) :
    analyzeResponse cfg metricsEnabled client content =
      firstVerdict cfg metricsEnabled .continueResponse (responseCalls cfg client content) := by
  unfold analyzeResponse responseCalls
  cases client.analyzeText content cfg.analyzedCategories with
  | error e => rfl
  | ok result =>
    by_cases hharm : checkThresholds cfg result = []
    · cases hmaterial : cfg.enableProtectedMaterial with
      | false => simp [reportIf, hharm]
      | true =>
        cases client.detectProtectedMaterial content with
        | error e => simp [reportIf, hharm]
        | ok pmResult =>
          cases hdetected : pmResult.isDetected <;>
            simp [reportIf, hharm, hdetected]
    · simp [reportIf, hharm]

theorem reportIf_reported {detected : Bool} {body details : String} :
    (∃ b d, reportIf detected body details = .reported b d) ↔ detected = true := by
  cases detected <;> simp [reportIf]

theorem reportIf_ne_failed {detected : Bool} {body details : String} :
    reportIf detected body details ≠ .failed := by
  cases detected <;> simp [reportIf]

theorem verdict_failed (call : ApiCall TaskRequest) :
    call.verdict cfg = .failed ↔ call.Failed := by
  cases call with
  | shieldPrompt _ _ outcome | parseTaskAdherence outcome | analyzeTaskAdherence _ _ outcome
  | analyzeText _ _ outcome | detectProtectedMaterial _ outcome =>
    cases outcome <;> simp [ApiCall.Failed, reportIf_ne_failed]

theorem verdict_reported (call : ApiCall TaskRequest) :
    (∃ body details, call.verdict cfg = .reported body details) ↔ call.Reports cfg := by
  cases call with
  | shieldPrompt _ _ outcome =>
    cases outcome with
    | error e => simp
    | ok result =>
      simp only [ApiCall.verdict, ApiCall.Reports, reportIf_reported]
      simp [isPromptAttackDetected, Option.any_eq_true, or_and_right, exists_or]
  | parseTaskAdherence outcome => cases outcome <;> simp
  | analyzeTaskAdherence _ _ outcome =>
    cases outcome <;> simp [reportIf_reported]
  | analyzeText _ _ outcome =>
    cases outcome with
    | error e => simp
    | ok result =>
      simp only [ApiCall.verdict, ApiCall.Reports, reportIf_reported]
      simp [checkThresholds]
  | detectProtectedMaterial _ outcome =>
    cases outcome with
    | error e => simp
    | ok result =>
      simp only [ApiCall.verdict, ApiCall.Reports, reportIf_reported]
      simp [ProtectedMaterialResponse.isDetected, Option.any_eq_true]

/-- The call continues a request or a response. -/
def HandleCall.isContinue : HandleCall → Bool
  | continueRequest | continueResponse => true
  | _ => false

variable (hcontinue : continueStream.isContinue = true)
include hcontinue

theorem completesOnce_continue (decision : String) :
    Analysis.CompletesOnce continueStream (inc metricsEnabled decision ++ [continueStream]) := by
  cases continueStream with
  | continueRequest | continueResponse => cases metricsEnabled <;> exact Or.inl ⟨rfl, rfl⟩
  | _ => cases hcontinue

theorem answers_local (status : ℕ) (body details decision : String) :
    Analysis.CompletesOnce continueStream
        (.sendLocalResponse status body details :: inc metricsEnabled decision) ∧
      continueStream ∉ .sendLocalResponse status body details :: inc metricsEnabled decision := by
  cases continueStream with
  | continueRequest | continueResponse =>
    cases metricsEnabled <;> exact ⟨Or.inr ⟨rfl, rfl⟩, by simp [inc]⟩
  | _ => cases hcontinue

theorem handleAPIErrorAsync_spec :
    Analysis.CompletesOnce continueStream
        (handleAPIErrorAsync cfg metricsEnabled continueStream) ∧
      (cfg.failOpen = false →
        continueStream ∉ handleAPIErrorAsync cfg metricsEnabled continueStream) := by
  unfold handleAPIErrorAsync
  cases cfg.failOpen with
  | true => exact ⟨completesOnce_continue hcontinue "failopen", by simp⟩
  | false =>
    obtain ⟨honce, hnot⟩ := answers_local hcontinue 500 "Internal Server Error"
      "azure_content_safety_api_error" "error"
    exact ⟨honce, fun _ => hnot⟩

theorem handleReport_spec (body details : String) :
    Analysis.CompletesOnce continueStream
        (handleReport cfg metricsEnabled continueStream body details) ∧
      (cfg.isBlockMode = true →
        continueStream ∉ handleReport cfg metricsEnabled continueStream body details) := by
  unfold handleReport
  cases cfg.isBlockMode with
  | false => exact ⟨completesOnce_continue hcontinue "monitored", by simp⟩
  | true =>
    obtain ⟨honce, hnot⟩ := answers_local hcontinue 403 body details "blocked"
    exact ⟨honce, fun _ => hnot⟩

/-- The first call that is not clean decides; the clean ones before it neither
report nor fail. -/
theorem decides_firstVerdict (calls : List (ApiCall TaskRequest)) :
    (firstVerdict cfg metricsEnabled continueStream calls).Decides cfg continueStream calls := by
  induction calls with
  | nil =>
    refine ⟨List.prefix_rfl, nofun, rfl, ?_, by simp, by simp⟩
    simpa [handleAllowed] using completesOnce_continue hcontinue "allowed"
  | cons call rest ih =>
    have hfailed : call.verdict cfg = .failed ↔ call.Failed := verdict_failed call
    have hreported : (∃ body details, call.verdict cfg = .reported body details) ↔
        call.Reports cfg := verdict_reported call
    unfold firstVerdict
    cases hverdict : call.verdict cfg with
    | failed =>
      obtain ⟨honce, hclosed⟩ :=
        @handleAPIErrorAsync_spec cfg metricsEnabled continueStream hcontinue
      refine ⟨by simp, fun _ => ⟨call, by simp, .inl (hfailed.mp hverdict)⟩, rfl,
        by simpa using honce, ?_, fun hopen _ => ?_⟩
      · grind
      · simpa using hclosed hopen
    | reported body details =>
      obtain ⟨honce, hblocks⟩ :=
        @handleReport_spec cfg metricsEnabled continueStream hcontinue body details
      refine ⟨by simp, fun _ => ⟨call, by simp, .inr (hreported.mp ⟨_, _, hverdict⟩)⟩, rfl,
        by simpa using honce, fun hblock _ => ?_, ?_⟩
      · simpa using hblocks hblock
      · grind
    | clean =>
      rw [hverdict] at hfailed hreported
      refine ⟨by simpa using ih.made, fun hne => ?_, ih.scheduled, ih.once,
        fun hblock hsome => ?_, fun hopen hsome => ?_⟩
      · obtain ⟨call', hcall', hsettles⟩ := ih.early fun heq => hne (by simp [heq])
        exact ⟨call', List.mem_cons_of_mem call hcall', hsettles⟩
      · obtain ⟨call', hcall', hreports⟩ := hsome
        refine ih.blocks hblock ⟨call', ?_, hreports⟩
        refine (List.mem_cons.mp hcall').resolve_left ?_
        rintro rfl
        simpa using hreported.mpr hreports
      · obtain ⟨call', hcall', hfails⟩ := hsome
        refine ih.closed hopen ⟨call', ?_, hfails⟩
        refine (List.mem_cons.mp hcall').resolve_left ?_
        rintro rfl
        cases hfailed.mpr hfails

end

/-- Whatever the configuration and the answers of the client, both analyses make the enabled
calls up to the first that settles the matter, complete their message once, and never let it go
on after a report in block mode or after an error without `fail_open`. -/
theorem analyses_decide {TaskRequest : Type} (cfg : AzureContentSafetyConfig)
    (metricsEnabled : Bool) (client : Client TaskRequest) (userPrompt : String)
    (documents : List String) (parsed : Except String TaskRequest) (content : String) :
    (analyzeRequest cfg metricsEnabled client userPrompt documents parsed).Decides cfg
        .continueRequest (requestCalls cfg client userPrompt documents parsed) ∧
      (analyzeResponse cfg metricsEnabled client content).Decides cfg .continueResponse
        (responseCalls cfg client content) := by
  constructor
  · rw [analyzeRequest_eq]
    exact decides_firstVerdict rfl _
  · rw [analyzeResponse_eq]
    exact decides_firstVerdict rfl _

end BuiltOnEnvoy.AzureContentSafety
