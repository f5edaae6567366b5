import BuiltOnEnvoy.OpenFga.Filter

/-!
# The authorization decision

What a check should be about and what its reply means is said from the accepted
configuration, without the prepared rules. Every request is then continued or
answered, once, according to that verdict and the two flags.
-/

namespace BuiltOnEnvoy.OpenFga

open Foundations List Option

def RuleMatch.Holds (m : RuleMatch) (headers : Headers) : Prop :=
  ∀ e ∈ m.headers.entries,
    headers.getOne e.1 ≠ "" ∧ (e.2 = "*" ∨ headers.getOne e.1 = e.2)

instance (m : RuleMatch) (headers : Headers) : Decidable (m.Holds headers) :=
  inferInstanceAs (Decidable (∀ e ∈ m.headers.entries, _))

/-- A rule with its defaults. -/
structure Check where
  condition : Option RuleMatch
  sources : TupleSource

def Check.Holds (c : Check) (headers : Headers) : Prop :=
  ∀ m ∈ c.condition, m.Holds headers

instance (c : Check) (headers : Headers) : Decidable (c.Holds headers) :=
  inferInstanceAs (Decidable (∀ m ∈ c.condition, _))

/-- The rules of a configuration; without rules the top-level sources are the only one. -/
def OpenfgaConfig.checks (cfg : OpenfgaConfig) : List Check :=
  match cfg.rules with
  | [] => [⟨none, ⟨cfg.user, cfg.relation, cfg.object⟩⟩]
  | rules => rules.map fun cr => ⟨cr.condition, cr.sources cfg⟩

def TupleSource.extract (lib : Library) (t : TupleSource) (headers : Headers) : TupleKey :=
  ⟨t.user.extract lib headers, t.relation.extract lib headers, t.object.extract lib headers⟩

inductive Verdict
  | allowed
  | denied
  | undecided
  deriving DecidableEq

/-- What the reply of the service says. -/
def Callout.verdict (lib : Library) (c : Callout) : Verdict :=
  if c.init = .success ∧ c.result = .success ∧ calloutHeaderValue c.headers ":status" = "200" ∧
      joinCalloutBody c.body ≠ [] then
    match lib.unmarshal (joinCalloutBody c.body) with
    | .ok true => .allowed
    | .ok false => .denied
    | .error _ => .undecided
  else .undecided

/-- The body of the check: the first rule whose condition holds gives its tuple. -/
def checkBody (lib : Library) (cfg : OpenfgaConfig) (p : ParsedConfig) (headers : Headers) :
    Option Bytes :=
  match cfg.checks.find? fun c => decide (c.Holds headers) with
  | none => none
  | some c =>
    let tupleKey := c.sources.extract lib headers
    if tupleKey.Incomplete then none
    else
      match lib.marshal (p.checkRequest lib headers tupleKey) with
      | .error _ => none
      | .ok body => some body

/-- A request for which no check can be sent is undecided. -/
def verdict (lib : Library) (cfg : OpenfgaConfig) (p : ParsedConfig) (headers : Headers)
    (callout : Callout) : Verdict :=
  match checkBody lib cfg p headers with
  | none => .undecided
  | some _ => callout.verdict lib

/-- Whether a request with this verdict goes on. -/
def ParsedConfig.Proceeds (p : ParsedConfig) (v : Verdict) : Prop :=
  v = .allowed ∨ p.dryRun = true ∨ p.failOpen = true ∧ v = .undecided

instance (p : ParsedConfig) (v : Verdict) : Decidable (p.Proceeds v) :=
  inferInstanceAs (Decidable (_ ∨ _ ∨ _))

def TupleSource.prepared (t : TupleSource) : PreparedTuple :=
  ⟨t.user.precompute, t.relation.precompute, t.object.precompute⟩

/-- The prepared form of a rule. -/
def Check.parsed (c : Check) : ParsedRule :=
  ⟨c.sources.prepared, c.condition.filter fun m => !m.headers.entries.isEmpty⟩

attribute [local simp] Check.parsed Callout.verdict

theorem TupleSource.prepared_resolve (lib : Library) (t : TupleSource) (headers : Headers) :
    t.prepared.resolve lib headers = t.extract lib headers := by
  simp only [PreparedTuple.resolve, extract, PreparedSource.resolve_eq_extract]
  rfl

theorem TupleSource.prepare_eq_ok {name : String} {t : TupleSource} {s : PreparedTuple}
    (h : t.prepare name = .ok s) : s = t.prepared := by
  unfold prepare at h
  split at h
  · exact (Except.ok.inj h).symm
  · cases h

theorem buildRulesFrom_eq_ok {cfg : OpenfgaConfig} {i : ℕ} {seen : Bool} {errs : List String}
    {rules out : List ParsedRule} {crs : List CheckRule}
    (h : buildRulesFrom cfg i seen errs rules crs = .ok out) :
    errs = [] ∧
      out = rules ++ crs.map fun cr => Check.parsed ⟨cr.condition, cr.sources cfg⟩ := by
  induction crs generalizing i seen errs rules with
  | nil =>
    cases errs with
    | nil =>
      rw [buildRulesFrom, Except.ok.injEq] at h
      exact ⟨rfl, by simp [h]⟩
    | cons err errs => cases h
  | cons cr crs ih =>
    rw [buildRulesFrom] at h
    split_ifs at h
    split at h
    · -- an error is never taken back
      rename_i ruleErrs hprepare
      obtain ⟨hnil, -⟩ := ih h
      have hnone : ruleErrs = [] := (append_eq_nil_iff.mp hnil).2
      subst hnone
      unfold TupleSource.prepare at hprepare
      split at hprepare
      · cases hprepare
      · rename_i hne
        exact absurd (Except.error.inj hprepare) hne
    · rename_i sources hprepare
      obtain ⟨hnil, hout⟩ := ih h
      rw [hout, TupleSource.prepare_eq_ok hprepare, append_assoc]
      exact ⟨hnil, rfl⟩

theorem buildRules_eq_ok {cfg : OpenfgaConfig} {rules : List ParsedRule}
    (h : buildRules cfg = .ok rules) : rules = cfg.checks.map Check.parsed := by
  unfold buildRules at h
  unfold OpenfgaConfig.checks
  cases hcfg : cfg.rules with
  | nil =>
    simp only [hcfg, buildLegacyRule] at h
    split at h
    · cases h
    · rename_i sources hprepare
      rw [← Except.ok.inj h, TupleSource.prepare_eq_ok hprepare]
      rfl
  | cons cr crs =>
    simp only [hcfg] at h
    split_ifs at h
    rw [(buildRulesFrom_eq_ok h).2]
    simp [Function.comp_def]

/-- What acceptance says about the fields that decide. -/
structure Accepted (cfg : OpenfgaConfig) (p : ParsedConfig) : Prop where
  rules : p.rules = cfg.checks.map Check.parsed
  dryRun : p.dryRun = cfg.dryRun
  failOpen : p.failOpen = cfg.failOpen

theorem accepted_of_parseConfig {lib : Library} {cfg : OpenfgaConfig} {p : ParsedConfig}
    (h : parseConfig lib cfg = .ok p) : Accepted cfg p := by
  unfold parseConfig at h
  split at h
  · rename_i rules tuples context _ hrules _ _
    rw [← Except.ok.inj h]
    exact ⟨buildRules_eq_ok hrules, rfl, rfl⟩
  · cases h

theorem RuleMatch.matches_iff (m : RuleMatch) (headers : Headers) :
    m.matches headers = true ↔ m.Holds headers := by
  unfold RuleMatch.matches Holds
  rw [List.all_eq_true]
  refine forall₂_congr fun e _ => ?_
  dsimp only
  split_ifs with hempty hother
  · simp [hempty]
  · simp [hempty, hother]
  · simp only [true_iff]
    exact ⟨hempty, by tauto⟩

theorem Check.parsed_holds_iff (c : Check) (headers : Headers) :
    (match c.parsed.condition with
      | none => true
      | some m => m.matches headers) = decide (c.Holds headers) := by
  rw [Bool.eq_iff_iff, decide_eq_true_iff]
  obtain ⟨condition, sources⟩ := c
  cases condition with
  | none => simp [Check.Holds]
  | some m =>
    cases hempty : m.headers.entries.isEmpty with
    | true =>
      rw [List.isEmpty_iff] at hempty
      simp [Check.Holds, Option.filter, hempty, RuleMatch.Holds]
    | false => simp [Check.Holds, Option.filter, hempty, RuleMatch.matches_iff]

theorem Accepted.matchRule {cfg : OpenfgaConfig} {p : ParsedConfig} (h : Accepted cfg p)
    (headers : Headers) :
    p.matchRule headers =
      (cfg.checks.find? fun c => decide (c.Holds headers)).map Check.parsed := by
  rw [ParsedConfig.matchRule, h.rules, find?_map]
  congr 2
  funext c
  exact c.parsed_holds_iff headers

namespace Effect

def isContinue : Effect → Bool
  | continueRequest => true
  | _ => false

def isResponse : Effect → Bool
  | sendLocalResponse _ _ _ _ => true
  | _ => false

def isDecision : Effect → Bool
  | incrementRequests _ => true
  | _ => false

def callout? : Effect → Option Bytes
  | httpCallout _ _ body _ => some body
  | _ => none

/-- An effect that neither continues nor answers the request, counts nothing and sends nothing. -/
def Neutral (e : Effect) : Prop :=
  e.isContinue = false ∧ e.isResponse = false ∧ e.isDecision = false ∧ e.callout? = none

end Effect

/-- The request is continued by these effects, or answered; one decision is counted if the counter
could be defined; and these checks are sent. -/
structure Settled (metrics : Metrics) (effects : List Effect) (proceeds : Prop)
    [Decidable proceeds] (sent : List Bytes) : Prop where
  continues : effects.countP Effect.isContinue = if proceeds then 1 else 0
  responses : effects.countP Effect.isResponse = if proceeds then 0 else 1
  decisions : effects.countP Effect.isDecision = if metrics.enabled then 1 else 0
  checks : effects.filterMap Effect.callout? = sent

namespace Settled

variable {metrics : Metrics} {effects front : List Effect} {proceeds proceeds' : Prop}
  [Decidable proceeds] [Decidable proceeds'] {sent : List Bytes}

theorem neutral_append (h : Settled metrics effects proceeds sent)
    (hfront : ∀ e ∈ front, e.Neutral) : Settled metrics (front ++ effects) proceeds sent := by
  have hzero : ∀ p : Effect → Bool, (∀ e, e.Neutral → p e = false) → front.countP p = 0 :=
    fun p hp => countP_eq_zero.mpr fun e he => by simp [hp e (hfront e he)]
  constructor
  · rw [countP_append, hzero _ fun e he => he.1, Nat.zero_add, h.continues]
  · rw [countP_append, hzero _ fun e he => he.2.1, Nat.zero_add, h.responses]
  · rw [countP_append, hzero _ fun e he => he.2.2.1, Nat.zero_add, h.decisions]
  · have hnone : front.filterMap Effect.callout? = [] :=
      filterMap_eq_nil_iff.mpr fun e he => (hfront e he).2.2.2
    rw [filterMap_append, hnone, nil_append, h.checks]

theorem congr (h : Settled metrics effects proceeds sent) (hiff : proceeds ↔ proceeds') :
    Settled metrics effects proceeds' sent := by
  constructor
  · rw [h.continues, if_congr hiff rfl rfl]
  · rw [h.responses, if_congr hiff rfl rfl]
  · exact h.decisions
  · exact h.checks

theorem continue_mem_iff (h : Settled metrics effects proceeds sent) :
    Effect.continueRequest ∈ effects ↔ proceeds := by
  have hmem : Effect.continueRequest ∈ effects ↔ 0 < effects.countP Effect.isContinue := by
    rw [countP_pos_iff]
    constructor
    · exact fun hmem => ⟨_, hmem, rfl⟩
    · rintro ⟨e, hmem, hcontinue⟩
      cases e with
      | continueRequest => exact hmem
      | _ => cases hcontinue
  rw [hmem, h.continues]
  split <;> simp_all

theorem callout_cons (h : Settled metrics effects proceeds sent) (p : ParsedConfig)
    (body : Bytes) : Settled metrics (p.callout body :: effects) proceeds (body :: sent) :=
  ⟨h.continues, h.responses, h.decisions, congrArg (body :: ·) h.checks⟩

end Settled

namespace ParsedConfig

variable (lib : Library) (metrics : Metrics) (p : ParsedConfig)

theorem writeMetadata_neutral (decision : Decision) :
    ∀ e ∈ p.writeMetadata decision, e.Neutral := by
  unfold writeMetadata
  split <;>
    simp [Effect.Neutral, Effect.isContinue, Effect.isResponse, Effect.isDecision, Effect.callout?]

theorem recordDuration_neutral (took : ℤ) : ∀ e ∈ metrics.recordDuration took, e.Neutral := by
  unfold Metrics.recordDuration
  split_ifs <;>
    simp [Effect.Neutral, Effect.isContinue, Effect.isResponse, Effect.isDecision, Effect.callout?]

theorem note_continue_settled (decision : Decision) :
    Settled metrics (p.note metrics decision ++ [.continueRequest]) True [] := by
  rw [note, append_assoc]
  refine Settled.neutral_append ?_ (p.writeMetadata_neutral decision)
  unfold Metrics.inc
  constructor <;> cases metrics.enabled <;> rfl

theorem respond_settled (decision : Decision) {response : Effect}
    (hresponse : response.isResponse = true) :
    Settled metrics (metrics.inc decision ++ [response]) False [] ∧
      Settled metrics ([response] ++ metrics.inc decision) False [] := by
  cases response with
  | sendLocalResponse status headers body details =>
    unfold Metrics.inc
    constructor <;> constructor <;> cases metrics.enabled <;> rfl
  | _ => cases hresponse

theorem note_respond_settled (decision : Decision) {response : Effect}
    (hresponse : response.isResponse = true) :
    Settled metrics (p.note metrics decision ++ [response]) False [] := by
  rw [note, append_assoc]
  exact (respond_settled metrics decision hresponse).1.neutral_append
    (p.writeMetadata_neutral decision)

theorem respond_count_settled (decision : Decision) {response : Effect}
    (hresponse : response.isResponse = true) :
    Settled metrics (p.writeMetadata decision ++ [response] ++ metrics.inc decision) False [] := by
  rw [append_assoc]
  exact (respond_settled metrics decision hresponse).2.neutral_append
    (p.writeMetadata_neutral decision)

theorem waiver_isSome : p.waiver.isSome = true ↔ p.Proceeds .undecided := by
  unfold waiver Proceeds
  cases p.dryRun <;> cases p.failOpen <;> simp

theorem handleCallbackError_settled (detail body : String) :
    Settled metrics (p.handleCallbackError metrics detail body) (p.Proceeds .undecided) [] := by
  have hwaiver := p.waiver_isSome
  unfold handleCallbackError
  cases h : p.waiver with
  | some decision =>
    exact (p.note_continue_settled metrics decision).congr (by simp [← hwaiver, h])
  | none => exact (p.note_respond_settled metrics .error rfl).congr (by simp [← hwaiver, h])

/-- The effects with the status as the effect it stands for. -/
def outcome (r : HeadersStatus × List Effect) : List Effect :=
  match r.1 with
  | .continue => r.2 ++ [.continueRequest]
  | _ => r.2

theorem outcome_cons (r : HeadersStatus × List Effect) (e : Effect) :
    outcome (r.1, e :: r.2) = e :: outcome r := by
  unfold outcome
  cases r.1 <;> rfl

/-- A request without a check that could be answered. -/
structure Refused (r : HeadersStatus × List Effect) : Prop where
  status : r.1 ≠ .stopAllAndBuffer
  settled : Settled metrics (outcome r) (p.Proceeds .undecided) []

theorem refused_of_waiver {effects : List Effect} (h : Settled metrics effects False []) :
    p.Refused metrics
      (match p.waiver with
        | some decision => (.continue, p.note metrics decision)
        | none => (.stop, effects)) := by
  have hwaiver := p.waiver_isSome
  cases hw : p.waiver with
  | some decision =>
    exact ⟨nofun, (p.note_continue_settled metrics decision).congr (by simp [← hwaiver, hw])⟩
  | none => exact ⟨nofun, h.congr (by simp [← hwaiver, hw])⟩

theorem handleDeny_refused (detail : String) (decision : Decision) :
    p.Refused metrics (p.handleDeny metrics detail decision) :=
  p.refused_of_waiver metrics (p.respond_count_settled metrics decision rfl)

theorem handleCalloutError_refused : p.Refused metrics (p.handleCalloutError metrics) :=
  p.refused_of_waiver metrics (p.respond_count_settled metrics .error rfl)

theorem onAnswer_settled (allowed : Bool) :
    Settled metrics (p.onAnswer metrics allowed)
      (p.Proceeds (if allowed then .allowed else .denied)) [] := by
  unfold onAnswer
  cases allowed with
  | true => exact (p.note_continue_settled metrics .allowed).congr (by simp [Proceeds])
  | false =>
    cases hdry : p.dryRun with
    | true =>
      exact (p.note_continue_settled metrics .dryAllow).congr (by simp [Proceeds, hdry])
    | false =>
      exact (p.note_respond_settled metrics .denied rfl).congr (by simp [Proceeds, hdry])

theorem onHttpCalloutDone_settled {callout : Callout} (hinit : callout.init = .success) :
    Settled metrics (p.onHttpCalloutDone lib metrics callout)
      (p.Proceeds (callout.verdict lib)) [] := by
  refine Settled.neutral_append ?_ (recordDuration_neutral metrics callout.took)
  -- every way out before the body is read leaves the check undecided
  have hundecided : ∀ detail, callout.verdict lib = .undecided →
      Settled metrics (p.handleCallbackError metrics detail apiError)
        (p.Proceeds (callout.verdict lib)) [] := by
    intro detail hverdict
    rw [hverdict]
    exact p.handleCallbackError_settled metrics detail apiError
  split_ifs with hresult hstatus hbody
  · exact hundecided _ (by simp [hresult])
  · exact hundecided _ (by simp [hstatus])
  · exact hundecided _ (by simp [hbody])
  · rw [not_not] at hresult hstatus
    have hverdict : callout.verdict lib =
        match lib.unmarshal (joinCalloutBody callout.body) with
        | .ok true => .allowed
        | .ok false => .denied
        | .error _ => .undecided := by
      rw [Callout.verdict, if_pos ⟨hinit, hresult, hstatus, hbody⟩]
    cases hreply : lib.unmarshal (joinCalloutBody callout.body) with
    | error err => exact hundecided _ (by rw [hverdict, hreply])
    | ok allowed =>
      have hanswer : callout.verdict lib = if allowed then .allowed else .denied := by
        rw [hverdict, hreply]
        cases allowed <;> rfl
      rw [hanswer]
      exact p.onAnswer_settled metrics allowed

end ParsedConfig

namespace Accepted

variable (lib : Library) {cfg : OpenfgaConfig} {p : ParsedConfig}

theorem onRequestHeaders_cases (h : Accepted cfg p) (metrics : Metrics) (headers : Headers)
    (init : CalloutInit) :
    let r := p.onRequestHeaders lib metrics headers init
    match checkBody lib cfg p headers with
    | none => p.Refused metrics r
    | some body =>
      r = if init = .success then (.stopAllAndBuffer, [p.callout body])
        else ((p.handleCalloutError metrics).1,
          p.callout body :: (p.handleCalloutError metrics).2) := by
  have hmatch := h.matchRule headers
  cases hfind : cfg.checks.find? fun c => decide (c.Holds headers) with
  | none =>
    rw [hfind] at hmatch
    simp only [checkBody, hfind, ParsedConfig.onRequestHeaders, hmatch, map_none]
    exact p.handleDeny_refused metrics "openfga_no_rule" .denied
  | some c =>
    rw [hfind] at hmatch
    have hresolve : c.parsed.resolve lib headers = c.sources.extract lib headers :=
      c.sources.prepared_resolve lib headers
    simp only [checkBody, hfind, ParsedConfig.onRequestHeaders, hmatch, map_some, hresolve]
    by_cases hincomplete : (c.sources.extract lib headers).Incomplete
    · simp only [if_pos hincomplete]
      exact p.handleDeny_refused metrics "openfga_missing_params" .denied
    · simp only [if_neg hincomplete]
      cases lib.marshal (p.checkRequest lib headers (c.sources.extract lib headers)) with
      | error err => exact p.handleCalloutError_refused metrics
      | ok body => rfl

theorem run_settled (h : Accepted cfg p) (metrics : Metrics) (headers : Headers)
    (callout : Callout) :
    Settled metrics (ParsedConfig.outcome (p.run lib metrics headers callout))
      (p.Proceeds (verdict lib cfg p headers callout)) (checkBody lib cfg p headers).toList := by
  have hcases := h.onRequestHeaders_cases lib metrics headers callout.init
  unfold verdict
  cases hbody : checkBody lib cfg p headers with
  | none =>
    simp only [hbody] at hcases
    rw [ParsedConfig.run, if_neg hcases.status]
    exact hcases.settled
  | some body =>
    simp only [hbody] at hcases
    by_cases hinit : callout.init = .success
    · rw [if_pos hinit] at hcases
      rw [ParsedConfig.run, hcases, if_pos rfl]
      exact (p.onHttpCalloutDone_settled lib metrics hinit).callout_cons p body
    · have herror := p.handleCalloutError_refused metrics
      have hverdict : callout.verdict lib = .undecided := by simp [hinit]
      rw [if_neg hinit] at hcases
      rw [ParsedConfig.run, hcases, if_neg herror.status, ParsedConfig.outcome_cons, hverdict]
      exact herror.settled.callout_cons p body

end Accepted

theorem checkBody_eq_some {lib : Library} {cfg : OpenfgaConfig} {p : ParsedConfig}
    {headers : Headers} {body : Bytes} (h : checkBody lib cfg p headers = some body) :
    ∃ front c rear, cfg.checks = front ++ c :: rear ∧ c.Holds headers ∧
      (∀ c' ∈ front, ¬c'.Holds headers) ∧
      ∃ request : CheckRequest, request.tupleKey = c.sources.extract lib headers ∧
        lib.marshal request = .ok body := by
  unfold checkBody at h
  cases hfind : cfg.checks.find? fun c => decide (c.Holds headers) with
  | none => simp [hfind] at h
  | some c =>
    obtain ⟨hholds, front, rear, hsplit, hfront⟩ := find?_eq_some_iff_append.mp hfind
    simp only [hfind] at h
    split_ifs at h
    cases hmarshal : lib.marshal (p.checkRequest lib headers (c.sources.extract lib headers)) with
    | error err => simp [hmarshal] at h
    | ok body' =>
      simp only [hmarshal, Option.some.injEq] at h
      subst h
      exact ⟨front, c, rear, hsplit, of_decide_eq_true hholds,
        fun c' hc' => by simpa using hfront c' hc', _, rfl, hmarshal⟩

/-- A request is continued or answered, exactly once, with one decision counted; the check is sent
once, if it can be, and is about the tuple of the first rule whose condition holds; and the request
goes on if and only if the check allows it, or in a dry run, or if the filter fails open and the
check is undecided. -/
theorem decision_correct (lib : Library) (metrics : Metrics) (cfg : OpenfgaConfig)
    (p : ParsedConfig) (hcfg : parseConfig lib cfg = .ok p) (headers : Headers)
    (callout : Callout) :
    let effects := ParsedConfig.outcome (p.run lib metrics headers callout)
    effects.countP Effect.isContinue + effects.countP Effect.isResponse = 1 ∧
      effects.countP Effect.isDecision = (if metrics.enabled then 1 else 0) ∧
      effects.filterMap Effect.callout? = (checkBody lib cfg p headers).toList ∧
      (∀ body ∈ effects.filterMap Effect.callout?,
        ∃ front c rear, cfg.checks = front ++ c :: rear ∧ c.Holds headers ∧
          (∀ c' ∈ front, ¬c'.Holds headers) ∧
          ∃ request : CheckRequest, request.tupleKey = c.sources.extract lib headers ∧
            lib.marshal request = .ok body) ∧
      (Effect.continueRequest ∈ effects ↔
        verdict lib cfg p headers callout = .allowed ∨ cfg.dryRun = true ∨
          cfg.failOpen = true ∧ verdict lib cfg p headers callout = .undecided) := by
  have haccepted := accepted_of_parseConfig hcfg
  have hsettled := haccepted.run_settled lib metrics headers callout
  dsimp only
  refine ⟨?_, hsettled.decisions, hsettled.checks, ?_, ?_⟩
  · rw [hsettled.continues, hsettled.responses]
    split <;> rfl
  · intro body hbody
    rw [hsettled.checks, mem_toList] at hbody
    exact checkBody_eq_some hbody
  · rw [← haccepted.dryRun, ← haccepted.failOpen]
    exact hsettled.continue_mem_iff

def allowedJSON (allowed : Bool) : Bytes :=
  ascii (if allowed then "\x7b\"allowed\":true\x7d" else "\x7b\"allowed\":false\x7d")

/-- The JSON of checks that have a tuple only, and the two replies. -/
def plainLibrary : Library where
  quote := id
  parseQuery := fun _ => none
  marshal := fun request => .ok (ascii ("\x7b\"tuple_key\":\x7b\"user\":\"" ++
    request.tupleKey.user ++ "\",\"relation\":\"" ++ request.tupleKey.relation ++
    "\",\"object\":\"" ++ request.tupleKey.object ++ "\"\x7d\x7d"))
  unmarshal := fun body =>
    if body = allowedJSON true then .ok true
    else if body = allowedJSON false then .ok false
    else .error "unexpected end of JSON input"

def fixed (value : String) : ValueSource := ⟨value, "", none, "", ""⟩

/-- Requests with a team header are checked for the document of the team, all others for a
default. -/
def teamConfig : OpenfgaConfig where
  cluster := "openfga"
  openFGAHost := "openfga.local"
  storeID := "store"
  authorizationModelID := ""
  user := ⟨"", "x-user", none, "", "user:"⟩
  relation := fixed ""
  object := fixed ""
  rules :=
    [⟨some ⟨GoMap.empty.set "x-team" "*"⟩, none, fixed "reader", ⟨"", "x-team", none, "", "team:"⟩⟩,
      ⟨none, none, fixed "reader", fixed "team:none"⟩]
  failOpen := true
  dryRun := false
  timeoutMs := 0
  denyStatus := 0
  denyBody := ""
  consistency := ""
  metadata := none
  calloutHeaders := GoMap.empty
  contextualTuples := []
  context := GoMap.empty

/-- The check of a request with a team is denied, and the filter does not fail open for that. -/
theorem team_denied :
    ∃ p, parseConfig plainLibrary teamConfig = .ok p ∧
      Effect.continueRequest ∉ ParsedConfig.outcome
        (p.run plainLibrary ⟨true, false⟩ [("x-user", "ann"), ("x-team", "red")]
          ⟨.success, .success, [(":status", "200")], [allowedJSON false], 5⟩) := by
  obtain ⟨p, hp, hverdict⟩ : ∃ p, parseConfig plainLibrary teamConfig = .ok p ∧
      verdict plainLibrary teamConfig p [("x-user", "ann"), ("x-team", "red")]
        ⟨.success, .success, [(":status", "200")], [allowedJSON false], 5⟩ = .denied :=
    ⟨_, rfl, by decide +kernel⟩
  refine ⟨p, hp, ?_⟩
  rw [(decision_correct plainLibrary ⟨true, false⟩ teamConfig p hp _ _).2.2.2.2, hverdict]
  decide

end BuiltOnEnvoy.OpenFga
