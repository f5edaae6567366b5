import BuiltOnEnvoy.Bedrock.Chain
import BuiltOnEnvoy.Bedrock.Wire

/-!
# What the callback makes of an answer

Whatever the answer to a callout, the callback should return after one decision:
the next callout is in flight, the request is continued, or there is one local
response. It does so unless it follows a nil pointer, which is what the JSON text
`null` decodes to, or reads the first of no assessments.
-/

namespace BuiltOnEnvoy.Bedrock

open Foundations

/-- A call that decides what becomes of the request. A callout that could not be started
decides nothing. -/
def HandleCall.decides : HandleCall → Bool
  | .httpCallout _ _ _ _ _ .success => true
  | .sendLocalResponse _ _ => true
  | .continueRequest => true
  | _ => false

/-- The callback returned after exactly one decision. -/
structure Settles (calls : List HandleCall) : Prop where
  returns : .panic ∉ calls
  once : calls.countP HandleCall.decides = 1

section

variable {Rest : Type} (codec : Codec Rest)

/-- A successful answer is not `null`, and one that is neither blocked nor fails to be masked
has an assessment. -/
def Answer.Expected (body : Bytes) (a : Answer) : Prop :=
  a.result = .success → a.statusCode.toList.head? = some '2' →
    codec.unmarshalResponse a.body.flatten ≠ .ok none ∧
    ∀ resp, codec.unmarshalResponse a.body.flatten = .ok (some resp) → resp.blocked = false →
      maskedBody codec body resp.outputs ≠ none → resp.assessments ≠ []

variable {codec} {cfg : GuardrailsConfig}

theorem settles_local (status : ℕ) (message : String) :
    Settles [.sendLocalResponse status message] :=
  ⟨by simp, rfl⟩

theorem not_settles_panic : ¬ Settles [.panic] := fun h => h.returns (List.mem_singleton_self _)

theorem settles_applyNext (body : Bytes) (next : ℕ) (init : CalloutResult) :
    Settles (applyNext codec cfg body next init) := by
  cases hg : cfg.bedrockGuardrails[next]? with
  | none =>
    simp only [applyNext, hg]
    exact ⟨by simp, rfl⟩
  | some g =>
    cases hheaders : getCalloutHeaders codec cfg g body with
    | error e =>
      simp only [applyNext, hg, hheaders]
      exact settles_local _ _
    | ok r =>
      simp only [applyNext, hg, hheaders]
      cases init with
      | success | failure code => exact ⟨by simp, rfl⟩

/-- The callback returns after one decision exactly on the answers it expects. -/
theorem settles_iff (codec : Codec Rest) (cfg : GuardrailsConfig) (cb : Callback)
    (init : CalloutResult) (a : Answer) :
    Settles (onHttpCalloutDone codec cfg cb init a) ↔ a.Expected codec cb.body := by
  unfold onHttpCalloutDone Answer.Expected
  by_cases hresult : a.result = .success
  · by_cases hstatus : a.statusCode.toList.head? = some '2'
    · simp only [hresult, hstatus, ne_eq, not_true_eq_false, if_false, true_implies]
      cases hdecoded : codec.unmarshalResponse a.body.flatten with
      | error e => simp [settles_local]
      | ok decoded =>
        cases decoded with
        | none => simp [not_settles_panic]
        | some resp =>
          -- the answer decodes to this response only
          simp only [Except.ok.injEq, reduceCtorEq, not_false_eq_true, true_and,
            Option.some.injEq, forall_eq']
          cases hblocked : resp.blocked with
          | true => simp [settles_local]
          | false =>
            cases hmasked : maskedBody codec cb.body resp.outputs with
            | none => simp [settles_local]
            | some newBody =>
              by_cases hassessed : resp.assessments = []
              · simp [hassessed, not_settles_panic]
              · simp [hassessed, settles_applyNext]
    · simp [hresult, hstatus, settles_local]
  · simp [hresult, settles_local]

end

/-- On the texts `null` and `{}` the callback does not return. -/
theorem null_answer_panics :
    onHttpCalloutDone modelJsonCodec oneGuardrail ⟨userRequest, 0⟩ .success
        (okAnswer (ascii "null")) = [.panic] ∧
      ¬ Settles (onHttpCalloutDone modelJsonCodec oneGuardrail ⟨userRequest, 0⟩ .success
        (okAnswer (ascii "null"))) ∧
      ¬ Settles (onHttpCalloutDone modelJsonCodec oneGuardrail ⟨userRequest, 0⟩ .success
        (okAnswer emptyText)) := by
  have hnull : onHttpCalloutDone modelJsonCodec oneGuardrail ⟨userRequest, 0⟩ .success
      (okAnswer (ascii "null")) = [.panic] := by decide +kernel
  have hempty : onHttpCalloutDone modelJsonCodec oneGuardrail ⟨userRequest, 0⟩ .success
      (okAnswer emptyText) = [.panic] := by decide +kernel
  refine ⟨hnull, ?_, ?_⟩
  · rw [hnull]
    exact not_settles_panic
  · rw [hempty]
    exact not_settles_panic

end BuiltOnEnvoy.Bedrock
