import BuiltOnEnvoy.Cedar.Plugin
import BuiltOnEnvoy.Opa.Evaluation

/-!
# Dry run of the policy filters

With `dry_run` a denial by the policy is let through. The flag is not looked at
where the evaluation fails, nor where the Cedar filter cannot build a request: these
are decided by `fail_open` alone.
-/

namespace BuiltOnEnvoy

open Foundations List
open OpenApiValidator (Framing)

namespace Opa

/-- No callback sends a local response and the last one continues. -/
structure LetsThrough (reports : List Report) : Prop where
  silent : ∀ r ∈ reports, r.response = none
  released : ∃ r, reports.getLast? = some r ∧ r.continues = true

variable {lib : Library} {config : Config} {engine : Engine} {attrs : Attributes}
  {headers : Headers} {framing : Framing}

theorem letsThrough_iff_continues :
    LetsThrough (reports lib config engine attrs headers framing) ↔
      (theEvaluation lib config engine attrs headers framing).continues = true := by
  obtain ⟨held, passed, hreports, hdenied⟩ := reports_eq lib config engine attrs headers framing
  have hresponse := @evaluation_response lib config engine attrs headers
    (seenBody lib config headers framing)
  rw [← theEvaluation] at hresponse
  rw [hreports]
  constructor
  · intro h
    have hsilent := h.silent (theEvaluation lib config engine attrs headers framing) (by simp)
    rw [hsilent] at hresponse
    simpa using hresponse.symm
  · intro hcontinues
    rw [hcontinues, Bool.not_true, Option.isSome_eq_false_iff, Option.isNone_iff_eq_none]
      at hresponse
    constructor
    · intro r hr
      rcases mem_append.mp hr with hr | hr
      · rw [eq_of_mem_replicate hr, holding]
      · rcases mem_cons.mp hr with rfl | hr
        · exact hresponse
        · rw [eq_of_mem_replicate hr, passing]
    · cases passed with
      | zero => exact ⟨_, by simp, hcontinues⟩
      | succ n =>
        refine ⟨passing, ?_, rfl⟩
        rw [replicate_succ', ← cons_append, ← append_assoc, getLast?_concat]

theorem enforce_dryRun (hdry : config.dryRun = true) (headers : Headers)
    (answer : Except String ResultSet) :
    (enforce config headers answer).allowed = true ↔
      config.failOpen = true ∨ answer.isOk = true := by
  cases answer with
  | error err =>
    rw [enforce]
    cases config.failOpen <;> simp [Except.isOk, Except.toBool]
  | ok rs =>
    simp only [enforce, hdry, if_true, Except.isOk, Except.toBool, or_true, iff_true]
    split <;> rfl

/-- The input that the request is evaluated with. -/
def inputOf (lib : Library) (config : Config) (attrs : Attributes) (headers : Headers)
    (framing : Framing) : Input :=
  buildInput lib config attrs headers (seenBody lib config headers framing)

theorem letsThrough_iff (hdry : config.dryRun = true) :
    LetsThrough (reports lib config engine attrs headers framing) ↔
      config.failOpen = true ∨ (engine (inputOf lib config attrs headers framing)).isOk = true := by
  rw [letsThrough_iff_continues]
  exact enforce_dryRun hdry headers _

end Opa

namespace Cedar

/-- The headers continue without a local response; the filter has no other callbacks. -/
structure LetsThrough (out : Outcome) : Prop where
  silent : out.response = none
  released : out.continues = true

variable {lib : Library} {config : Config} {policies : Policies} {attrs : Opa.Attributes}
  {headers : Headers}

theorem letsThrough_iff (hdry : config.dryRun = true) :
    LetsThrough (onRequestHeaders lib config policies attrs headers) ↔
      config.failOpen = true ∨
        ∃ request, buildRequest lib config attrs headers = .ok request ∧
          (policies request).errors = [] := by
  rw [onRequestHeaders]
  cases buildRequest lib config attrs headers with
  | error err =>
    cases config.failOpen with
    | true => exact ⟨fun _ => .inl rfl, fun _ => ⟨rfl, rfl⟩⟩
    | false => exact ⟨fun h => absurd h.released (by simp), by simp⟩
  | ok request =>
    by_cases herrors : (policies request).errors = []
    · have hright : ∃ request', Except.ok request = (.ok request' : Except String Request) ∧
          (policies request').errors = [] := ⟨request, rfl, herrors⟩
      simp only [herrors, ne_eq, not_true_eq_false, if_false, hdry, if_true]
      refine ⟨fun _ => .inr hright, fun _ => ?_⟩
      split <;> exact ⟨rfl, rfl⟩
    · cases config.failOpen with
      | true =>
        simp only [ne_eq, herrors, not_false_eq_true, if_true]
        exact ⟨fun _ => .inl trivial, fun _ => ⟨rfl, rfl⟩⟩
      | false =>
        simp only [ne_eq, herrors, not_false_eq_true, if_true, Bool.false_eq_true, if_false]
        constructor
        · exact fun h => absurd h.released (by simp)
        · rintro (h | ⟨request', hrequest, hnone⟩)
          · cases h
          · cases hrequest
            exact absurd hnone herrors

theorem buildRequest_anonymous (h : headers.getOne config.principalIDHeader = "") :
    ∃ err, buildRequest lib config attrs headers = .error err := by
  rw [buildRequest, h, ite_self]
  exact ⟨_, rfl⟩

theorem onRequestHeaders_anonymous (hopen : config.failOpen = false)
    (h : headers.getOne config.principalIDHeader = "") :
    onRequestHeaders lib config policies attrs headers =
      ⟨false, some ⟨403, [], "Forbidden", "cedar_denied"⟩, [.denied]⟩ := by
  obtain ⟨err, herr⟩ := @buildRequest_anonymous lib config attrs headers h
  simp only [onRequestHeaders, herr, hopen, Bool.false_eq_true, if_false]

end Cedar

/-- With `dry_run` a policy filter lets a request through exactly if `fail_open` is set, or the
evaluation has no error and, for Cedar, there is a request to evaluate. -/
theorem dryRun_letsThrough_iff (opaLib : Opa.Library) (opa : Opa.Config) (engine : Opa.Engine)
    (cedarLib : Cedar.Library) (cedar : Cedar.Config) (policies : Cedar.Policies)
    (attrs : Opa.Attributes) (headers : Headers) (framing : Framing) :
    (opa.dryRun = true →
      (Opa.LetsThrough (Opa.reports opaLib opa engine attrs headers framing) ↔
        opa.failOpen = true ∨
          (engine (Opa.inputOf opaLib opa attrs headers framing)).isOk = true)) ∧
    (cedar.dryRun = true →
      (Cedar.LetsThrough (Cedar.onRequestHeaders cedarLib cedar policies attrs headers) ↔
        cedar.failOpen = true ∨
          ∃ request, Cedar.buildRequest cedarLib cedar attrs headers = .ok request ∧
            (policies request).errors = [])) :=
  ⟨fun hdry => Opa.letsThrough_iff hdry, fun hdry => Cedar.letsThrough_iff hdry⟩

def opaRaw : Opa.RawConfig := ⟨[⟨ascii "package envoy.authz", ""⟩], "", false, true, false, []⟩

/-- Every policy compiles, and no evaluation succeeds. -/
def failingOpa : Opa.Sources where
  unmarshal := fun _ => .ok opaRaw
  readFile := fun _ => .error "file does not exist"
  prepareForEval := fun _ _ => .ok fun _ => .error "evaluation error"

def cedarConfig : Cedar.Config := ⟨"User", "x-user", "", "", 0, "", [], false, true, []⟩

def permissiveCedar : Cedar.Sources Unit where
  unmarshal := fun _ => .ok ⟨cedarConfig, ⟨ascii "permit(principal,action,resource);", ""⟩, ""⟩
  readFile := fun _ => .error "file does not exist"
  newPolicySet := fun _ => .ok fun _ _ => ⟨true, []⟩
  noEntities := ()
  unmarshalEntities := fun _ => .ok ()

def sampleCedar : Cedar.Library := ⟨Opa.sampleLibrary, fun s => s⟩

def getRoot : Headers := [(":method", "GET"), (":path", "/"), (":authority", "api")]

def aliceGet : Headers := ("x-user", "alice") :: getRoot

theorem dryRun_letsDenialsThrough :
    Opa.LetsThrough (Opa.reports Opa.sampleLibrary ⟨false, true, false, []⟩ (fun _ => .ok [])
      Opa.sampleAttributes aliceGet .headersOnly) ∧
    Cedar.LetsThrough (Cedar.onRequestHeaders sampleCedar cedarConfig (fun _ => ⟨false, []⟩)
      Opa.sampleAttributes aliceGet) := by
  obtain ⟨hopa, hcedar⟩ := dryRun_letsThrough_iff Opa.sampleLibrary ⟨false, true, false, []⟩
    (fun _ => .ok []) sampleCedar cedarConfig (fun _ => ⟨false, []⟩) Opa.sampleAttributes aliceGet
    .headersOnly
  exact ⟨(hopa rfl).mpr (.inr rfl), (hcedar rfl).mpr (.inr ⟨_, rfl, rfl⟩)⟩

/-- An evaluation error of the OPA filter and a missing principal of the Cedar filter are answered
in spite of the flag. -/
theorem dryRun_blocks :
    (∃ config engine, Opa.parseConfig failingOpa (ascii "config") = .ok (some (config, engine)) ∧
      config.dryRun = true ∧
      (Opa.reports Opa.sampleLibrary config engine Opa.sampleAttributes getRoot
        .headersOnly).map (·.response) =
        [some ⟨500, [], "Internal Server Error", "opa_eval_error"⟩]) ∧
    ∃ config policies, Cedar.parseConfig permissiveCedar (ascii "config") =
        .ok (some (config, policies)) ∧
      config.dryRun = true ∧
      (Cedar.onRequestHeaders sampleCedar config policies Opa.sampleAttributes getRoot).response =
        some ⟨403, [], "Forbidden", "cedar_denied"⟩ := by
  refine ⟨⟨_, _, rfl, rfl, rfl⟩, ⟨_, _, rfl, rfl, ?_⟩⟩
  have hanonymous : getRoot.getOne cedarConfig.principalIDHeader = "" := by decide +kernel
  have hopen : cedarConfig.failOpen = false := rfl
  exact congrArg Cedar.Outcome.response (Cedar.onRequestHeaders_anonymous hopen hanonymous)

end BuiltOnEnvoy
