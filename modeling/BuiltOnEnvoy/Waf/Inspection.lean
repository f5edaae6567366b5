import BuiltOnEnvoy.Waf.Lifecycle

/-!
# Nothing passes uninspected

In a stream that starts with the request headers and whose response callbacks
follow the request callbacks, a callback before the first local response
returns `Continue` only after the body phase of its side has been run. A
callback in which the transaction reports an interruption or an error sends one
local response and does not return `Continue`.
-/

namespace BuiltOnEnvoy.Waf

open Foundations List

/-- The request headers, the rest of the request, and then the response. -/
def Ordered (callbacks : List Callback) : Prop :=
  ∃ first requests responses, callbacks = first :: (requests ++ responses) ∧
    first.isRequestHeaders = true ∧
    (∀ cb ∈ requests, cb.side = .request ∧ cb.isRequestHeaders = false) ∧
    ∀ cb ∈ responses, cb.side = .response

/-- What a callback does, after the events `log`. -/
structure Guarded {T : Type} (cfg : Settings) (cb : Callback) (log : List Event)
    (o : Outcome T) : Prop where
  inspected : cfg.mode.skips cb.side = false → o.status = .continue →
    ∃ e ∈ log ++ o.events, e.runsBody cb.side = true
  blocked : (∃ e ∈ o.events, e.reports = true) →
    o.events.countP Event.isLocalResponse = 1 ∧ o.status ≠ .continue

/-- The rule engine was on at every call that asked. -/
def EngineOn (log : List Event) : Prop := .tx (.isRuleEngineOff true) ∉ log

def NothingSent (log : List Event) : Prop := ∀ e ∈ log, e.isLocalResponse = false

theorem EngineOn.of_append {a b : List Event} (h : EngineOn (a ++ b)) : EngineOn a ∧ EngineOn b :=
  ⟨fun ha => h (mem_append_left b ha), fun hb => h (mem_append_right a hb)⟩

theorem NothingSent.of_append {a b : List Event} (h : NothingSent (a ++ b)) :
    NothingSent a ∧ NothingSent b :=
  ⟨fun e he => h e (mem_append_left b he), fun e he => h e (mem_append_right a he)⟩

theorem NothingSent.countP {log : List Event} (h : NothingSent log) :
    log.countP Event.isLocalResponse = 0 :=
  countP_of_none h

section

variable {T : Type} (coraza : Coraza T) (cfg : Settings) (env : Environment)

/-- Why the analysis counts as done, apart from an interruption. -/
def AnalysisOver (f : Fields) : Prop :=
  f.responseBodyProcessed = true ∨ cfg.mode = .requestOnly ∧ f.requestBodyProcessed = true

def Silent (e : Event) : Prop := e.isLocalResponse = false ∧ e.reports = false

/-- What the deferred call leaves behind. -/
structure TrackResult (start : Live T) (released : Bool) (s : Live T) (events : List Event) :
    Prop where
  body : ∀ x, s.bodyProcessed x = start.bodyProcessed x
  txReleased : s.txReleased = (start.txReleased || released)
  silent : ∀ e ∈ events, Silent e
  reason : released = true → EngineOn events → AnalysisOver cfg start.toFields

variable {cfg} in
theorem AnalysisOver.congr {f g : Fields} (h : AnalysisOver cfg f)
    (hbody : ∀ x, g.bodyProcessed x = f.bodyProcessed x) : AnalysisOver cfg g := by
  have hresponse : g.responseBodyProcessed = f.responseBodyProcessed := hbody .response
  have hrequest : g.requestBodyProcessed = f.requestBodyProcessed := hbody .request
  rwa [AnalysisOver, hresponse, hrequest]

variable {coraza}

attribute [local simp] Silent Event.isLocalResponse Event.reports isInterrupted
  isRuleEngineOff Act.bind_apply Act.pure_apply Act.get Act.modify Act.emit

theorem silent_record {event : Event} (h : Silent event) (enabled : Bool) :
    ∀ e ∈ record enabled event, Silent e := by
  intro e he
  rwa [mem_record he]

/-- A getter leaves the transaction as it is. -/
theorem ask_steady {method : T → Bool × T} (hsame : ∀ t, (method t).2 = t) (call : Bool → TxCall)
    (s : Live T) : ask method call s = ((method s.tx).1, s, [.tx (call (method s.tx).1)]) := by
  rw [ask, hsame]

theorem analysisDone_steady (hsteady : coraza.Steady) (s : Live T) :
    ∃ done asked, analysisDone coraza cfg s = (done, s, asked) ∧ (∀ e ∈ asked, Silent e) ∧
      (done = true → (coraza.isInterrupted s.tx).1 = false → EngineOn asked →
        AnalysisOver cfg s.toFields) := by
  have hinterrupted := ask_steady hsteady.isInterrupted .isInterrupted s
  have hoff := ask_steady hsteady.isRuleEngineOff .isRuleEngineOff s
  cases hi : (coraza.isInterrupted s.tx).1 with
  | true =>
    refine ⟨true, [.tx (.isInterrupted true)], ?_, by simp, nofun⟩
    simp [analysisDone, hinterrupted, hi]
  | false =>
    cases ho : (coraza.isRuleEngineOff s.tx).1 with
    | true =>
      refine ⟨true, [.tx (.isInterrupted false), .tx (.isRuleEngineOff true)], ?_, by simp, ?_⟩
      · simp [analysisDone, hinterrupted, hi, hoff, ho]
      · intro _ _ hon
        exact absurd (by simp) hon
    | false =>
      refine ⟨s.responseBodyProcessed || (cfg.mode = .requestOnly && s.requestBodyProcessed),
        [.tx (.isInterrupted false), .tx (.isRuleEngineOff false)], ?_, by simp, ?_⟩
      · simp [analysisDone, hinterrupted, hi, hoff, ho]
      · intro hdone _ _
        simpa [AnalysisOver] using hdone

theorem recordTxMetrics_steady (hsteady : coraza.Steady) (s : Live T) :
    ∃ counted, recordTxMetrics coraza cfg s = ((), { s with txDone := true }, counted) ∧
      ∀ e ∈ counted, Silent e := by
  have hoff := ask_steady hsteady.isRuleEngineOff .isRuleEngineOff { s with txDone := true }
  refine ⟨.tx (.isRuleEngineOff (coraza.isRuleEngineOff s.tx).1) ::
    if (coraza.isRuleEngineOff s.tx).1 then [] else record cfg.metrics.txTotal .txTotal ++
      record cfg.metrics.txDuration (.txDuration (s.wafElapsed / 1000)), ?_, ?_⟩
  · cases ho : (coraza.isRuleEngineOff s.tx).1 <;> simp [recordTxMetrics, hoff, ho]
  · rw [forall_mem_cons]
    refine ⟨by simp, ?_⟩
    split_ifs
    · simp
    · rw [forall_mem_append]
      exact ⟨silent_record ⟨rfl, rfl⟩ _, silent_record ⟨rfl, rfl⟩ _⟩

theorem releaseTransaction_silent (s : Live T) :
    ∃ t closing, releaseTransaction coraza cfg s =
        ((), { s with tx := t, txReleased := true }, closing) ∧ ∀ e ∈ closing, Silent e := by
  refine ⟨(coraza.close (coraza.processLogging s.tx)).2, .tx .processLogging ::
    .tx (.close (coraza.close (coraza.processLogging s.tx)).1) ::
      record cfg.metrics.txActive (.txActive (-1)), ?_, ?_⟩
  · simp [releaseTransaction, tell, ask]
  · rw [forall_mem_cons, forall_mem_cons]
    exact ⟨by simp, by simp, silent_record ⟨rfl, rfl⟩ _⟩

theorem trackAndMarkTxDone_result (hsteady : coraza.Steady) (s : Live T) :
    TrackResult cfg s (trackAndMarkTxDone coraza cfg env s).1
      (trackAndMarkTxDone coraza cfg env s).2.1 (trackAndMarkTxDone coraza cfg env s).2.2 := by
  let timed : Live T := { s with wafElapsed := s.wafElapsed + env.took }
  let counted : Live T := { timed with txDone := true }
  obtain ⟨done, asked, hanalysis, hasked, hreason⟩ := analysisDone_steady cfg hsteady timed
  obtain ⟨metrics, hmetrics, hcounted⟩ := recordTxMetrics_steady cfg hsteady timed
  have hagain := ask_steady hsteady.isInterrupted .isInterrupted counted
  obtain ⟨t, closing, hrelease, hclosing⟩ := @releaseTransaction_silent T coraza cfg counted
  have hrun : trackAndMarkTxDone coraza cfg env s =
      if s.txDone then (false, s, [])
      else if done then
        if s.isUpgrade || s.isSSE then
          if (coraza.isInterrupted s.tx).1 then
            (false, counted, asked ++ (metrics ++ [.tx (.isInterrupted true)]))
          else
            (true, { counted with tx := t, txReleased := true },
              asked ++ (metrics ++ (.tx (.isInterrupted false) :: closing)))
        else (false, counted, asked ++ metrics)
      else (false, timed, asked) := by
    simp only [timed, counted] at *
    split_ifs <;> simp_all [trackAndMarkTxDone]
  rw [hrun]
  split_ifs with htx hdone hlong hi
  · exact ⟨fun _ => rfl, by simp, by simp, by simp⟩
  · refine ⟨fun x => by cases x <;> rfl, by simp [counted, timed], ?_, by simp⟩
    rw [forall_mem_append, forall_mem_append]
    exact ⟨hasked, hcounted, by simp⟩
  · -- the second answer is the first, so there was no interruption
    refine ⟨fun x => by cases x <;> rfl, by simp, ?_, fun _ hon => ?_⟩
    · rw [forall_mem_append, forall_mem_append, forall_mem_cons]
      exact ⟨hasked, hcounted, by simp, hclosing⟩
    · exact hreason hdone (by simpa using hi) hon.of_append.1
  · refine ⟨fun x => by cases x <;> rfl, by simp [counted, timed], ?_, by simp⟩
    exact forall_mem_append.mpr ⟨hasked, hcounted⟩
  · exact ⟨fun x => by cases x <;> rfl, by simp [timed], hasked, by simp⟩

end

/-- A callback that did not block. -/
structure CalmOutcome {T : Type} (cfg : Settings) (side : Side) (start : Fields) (o : Outcome T) :
    Prop where
  unsent : NothingSent o.events
  unreported : ∀ e ∈ o.events, e.reports = false
  passes : o.status = .continue → MayPass cfg side start o.plugin.toFields o.events
  ran : o.plugin.bodyProcessed side = true →
    start.bodyProcessed side = true ∨ ∃ e ∈ o.events, e.runsBody side = true
  other : ∀ x, x ≠ side → o.plugin.bodyProcessed x = start.bodyProcessed x
  gone : start.txReleased = false → (o.plugin.txContext = none ↔ o.plugin.txReleased = true)
  released : o.plugin.txReleased = true → EngineOn o.events →
    start.txReleased = true ∨ AnalysisOver cfg o.plugin.toFields

/-- A callback that blocked. -/
def BlockedOutcome {T : Type} (o : Outcome T) : Prop :=
  o.events.countP Event.isLocalResponse = 1 ∧ o.status ≠ .continue

section

variable {T : Type} {coraza : Coraza T} {cfg : Settings} {p : WafPlugin T} {cb : Callback}
  {log : List Event}

theorem countP_silent {events : List Event} (h : ∀ e ∈ events, Silent e) :
    events.countP Event.isLocalResponse = 0 :=
  NothingSent.countP fun e he => (h e he).1

/-- What the inspection of a callback and the deferred call after it come to. -/
theorem deferred_outcome (cfg : Settings) (hsteady : coraza.Steady) (cb : Callback) (s : Live T) :
    BlockedOutcome (deferred coraza cfg cb.env (cb.inspection coraza cfg) s) ∨
      CalmOutcome cfg cb.side s.toFields
        (deferred coraza cfg cb.env (cb.inspection coraza cfg) s) := by
  have hanswered := cb.inspection_answered coraza cfg s
  have htrack := trackAndMarkTxDone_result cfg cb.env hsteady (cb.inspection coraza cfg s).2.1
  rcases hanswered with ⟨hblocked, hstatus⟩ | ⟨hcalm, hpass⟩
  · left
    refine ⟨?_, hstatus⟩
    simp only [deferred]
    rw [countP_append, hblocked.sent, countP_silent htrack.silent]
  · right
    have hreleased : (deferred coraza cfg cb.env (cb.inspection coraza cfg) s).plugin.txReleased =
        (s.txReleased || (trackAndMarkTxDone coraza cfg cb.env
          (cb.inspection coraza cfg s).2.1).1) := by
      rw [← hcalm.txReleased]
      exact htrack.txReleased
    refine ⟨?_, ?_, ?_, ?_, ?_, ?_, ?_⟩
    · intro e he
      exact (mem_append.mp he).elim (hcalm.unsent e) fun h => (htrack.silent e h).1
    · intro e he
      exact (mem_append.mp he).elim (hcalm.unreported e) fun h => (htrack.silent e h).2
    · intro hstatus
      rcases hpass hstatus with h | h | h | h | h
      · exact Or.inl h
      · exact Or.inr (Or.inl h)
      · exact Or.inr (Or.inr (Or.inl (mem_append_left _ h)))
      · exact Or.inr (Or.inr (Or.inr (Or.inl h)))
      · exact Or.inr (Or.inr (Or.inr (Or.inr ((htrack.body cb.side).trans h))))
    · intro hprocessed
      rcases hcalm.ran ((htrack.body cb.side).symm.trans hprocessed) with h | ⟨e, he, hruns⟩
      · exact Or.inl h
      · exact Or.inr ⟨e, mem_append_left _ he, hruns⟩
    · intro x hx
      exact (htrack.body x).trans (hcalm.other x hx)
    · intro hstart
      rw [hreleased, hstart, Bool.false_or]
      simp [deferred, Live.park]
    · intro hgone hon
      rw [hreleased, Bool.or_eq_true] at hgone
      exact hgone.imp_right fun h =>
        (htrack.reason h hon.of_append.2).congr htrack.body

variable {o : Outcome T}

theorem CalmOutcome.congr {side : Side} {f g : Fields} (h : CalmOutcome cfg side f o)
    (hflags : SameFlags f g) : CalmOutcome cfg side g o where
  unsent := h.unsent
  unreported := h.unreported
  passes hstatus := by
    have hpass := h.passes hstatus
    rwa [MayPass, hflags.txReleased, hflags.body side] at hpass
  ran hprocessed := by
    have hran := h.ran hprocessed
    rwa [hflags.body side] at hran
  other x hx := (h.other x hx).trans (hflags.body x)
  gone hstart := h.gone (hflags.txReleased.trans hstart)
  released hreleased hon := by
    have hwhy := h.released hreleased hon
    rwa [hflags.txReleased] at hwhy

theorem CalmOutcome.prepend {side : Side} {f : Fields} {events : List Event}
    (h : CalmOutcome cfg side f o) (hevents : ∀ e ∈ events, Silent e) :
    CalmOutcome cfg side f { o with events := events ++ o.events } where
  unsent e he := (mem_append.mp he).elim (fun hold => (hevents e hold).1) (h.unsent e)
  unreported e he :=
    (mem_append.mp he).elim (fun hold => (hevents e hold).2) (h.unreported e)
  passes hstatus := (h.passes hstatus).imp_right fun hpass => hpass.imp_right fun hpass =>
    hpass.imp_left (mem_append_right events)
  ran hprocessed := (h.ran hprocessed).imp_right fun ⟨e, he, hruns⟩ =>
    ⟨e, mem_append_right events he, hruns⟩
  other := h.other
  gone := h.gone
  released hreleased hon := h.released hreleased hon.of_append.2

theorem handle_outcome (cfg : Settings) (hsteady : coraza.Steady)
    (hpresent : p.txContext = none → cb.isRequestHeaders = true) :
    BlockedOutcome (handle coraza cfg p cb) ∨
      CalmOutcome cfg cb.side p.toFields (handle coraza cfg p cb) := by
  cases htx : p.txContext with
  | some t =>
    obtain ⟨s, hflags, heq⟩ := handle_some coraza cfg cb htx
    rw [heq]
    exact (deferred_outcome cfg hsteady cb s).imp_right fun h => h.congr hflags
  | none =>
    obtain ⟨s, id, hflags, heq⟩ := handle_first coraza cfg htx (hpresent htx)
    have hopening : ∀ e ∈ Event.newTransaction id ::
        record cfg.metrics.txActive (.txActive 1), Silent e := by
      intro e he
      rcases mem_cons.mp he with rfl | hgauge
      · exact ⟨rfl, rfl⟩
      · rw [mem_record hgauge]
        exact ⟨rfl, rfl⟩
    rw [heq]
    rcases deferred_outcome cfg hsteady cb s with hblocked | hcalm
    · left
      refine ⟨?_, hblocked.2⟩
      rw [countP_append, countP_silent hopening, hblocked.1]
    · right
      exact (hcalm.congr hflags).prepend hopening

/-- While nothing was sent and the engine was on: a body that counts as
processed has been through its phase, and a transaction was released only when
its analysis was over. -/
structure Inspected (cfg : Settings) (f : Fields) (log : List Event) : Prop where
  ran : ∀ side, f.bodyProcessed side = true → ∃ e ∈ log, e.runsBody side = true
  released : f.txReleased = true → AnalysisOver cfg f

theorem Inspected.of_released {f : Fields} (h : Inspected cfg f log) {side : Side}
    (hskips : cfg.mode.skips side = false)
    (hfresh : side = .request → f.responseBodyProcessed = false) (hreleased : f.txReleased = true) :
    ∃ e ∈ log, e.runsBody side = true := by
  apply h.ran
  rcases h.released hreleased with hresponse | ⟨hmode, hrequest⟩
  · cases side with
    | request =>
      rw [hfresh rfl] at hresponse
      cases hresponse
    | response => exact hresponse
  · cases side with
    | request => exact hrequest
    | response =>
      rw [hmode] at hskips
      cases hskips

theorem CalmOutcome.guarded (hinspected : Inspected cfg p.toFields log)
    (hfresh : cb.side = .request → p.responseBodyProcessed = false) (hon : EngineOn o.events)
    (h : CalmOutcome cfg cb.side p.toFields o) :
    Guarded cfg cb log o := by
  have hold : (∃ e ∈ log, e.runsBody cb.side = true) →
      ∃ e ∈ log ++ o.events, e.runsBody cb.side = true := by
    rintro ⟨e, he, hruns⟩
    exact ⟨e, mem_append_left _ he, hruns⟩
  refine ⟨fun hskips hstatus => ?_, ?_⟩
  · rcases h.passes hstatus with hpass | hpass | hpass | hpass | hpass
    · exact hold (hinspected.of_released hskips hfresh hpass)
    · rw [hskips] at hpass
      cases hpass
    · exact absurd hpass hon
    · exact hold (hinspected.ran cb.side hpass)
    · rcases h.ran hpass with hprocessed | ⟨e, he, hruns⟩
      · exact hold (hinspected.ran cb.side hprocessed)
      · exact ⟨e, mem_append_right _ he, hruns⟩
  · rintro ⟨e, he, hreports⟩
    rw [h.unreported e he] at hreports
    cases hreports

theorem CalmOutcome.inspected (hinspected : Inspected cfg p.toFields log)
    (hlive : p.txReleased = false) (hon : EngineOn o.events)
    (h : CalmOutcome cfg cb.side p.toFields o) :
    Inspected cfg o.plugin.toFields (log ++ o.events) := by
  refine ⟨fun side hprocessed => ?_, fun hreleased => ?_⟩
  · have hold : p.bodyProcessed side = true →
        ∃ e ∈ log ++ o.events, e.runsBody side = true := by
      intro hbefore
      obtain ⟨e, he, hruns⟩ := hinspected.ran side hbefore
      exact ⟨e, mem_append_left _ he, hruns⟩
    by_cases hside : side = cb.side
    · subst hside
      rcases h.ran hprocessed with hbefore | ⟨e, he, hruns⟩
      · exact hold hbefore
      · exact ⟨e, mem_append_right _ he, hruns⟩
    · exact hold ((h.other side hside).symm.trans hprocessed)
  · apply (h.released hreleased hon).resolve_left
    rw [hlive]
    exact Bool.false_ne_true

/-- What holds before a callback: the transaction was released, or it is there
or about to be opened. -/
structure Underway (cfg : Settings) (cb : Callback) (p : WafPlugin T) (log : List Event) :
    Prop where
  inspected : Inspected cfg p.toFields log
  present : (p.txContext = none ∧ p.txReleased = true ∧ cb.isRequestHeaders = false) ∨
    (p.txReleased = false ∧ (p.txContext = none → cb.isRequestHeaders = true))

/-- What holds after the first callback. -/
structure Followed (cfg : Settings) (p : WafPlugin T) (log : List Event) : Prop where
  inspected : Inspected cfg p.toFields log
  gone : p.txContext = none ↔ p.txReleased = true

theorem Followed.underway (h : Followed cfg p log) (hcb : cb.isRequestHeaders = false) :
    Underway cfg cb p log := by
  refine ⟨h.inspected, ?_⟩
  cases hreleased : p.txReleased with
  | true => exact Or.inl ⟨h.gone.mpr hreleased, rfl, hcb⟩
  | false =>
    refine Or.inr ⟨rfl, fun hnone => ?_⟩
    rw [h.gone.mp hnone] at hreleased
    cases hreleased

theorem underway_newPlugin (hcb : cb.isRequestHeaders = true) :
    Underway cfg cb (newPlugin : WafPlugin T) [] := by
  refine ⟨⟨fun side hprocessed => ?_, fun hreleased => ?_⟩, Or.inr ⟨rfl, fun _ => hcb⟩⟩
  · cases side <;> cases hprocessed
  · cases hreleased

theorem handle_guarded (hsteady : coraza.Steady) (h : Underway cfg cb p log)
    (hfresh : cb.side = .request → p.responseBodyProcessed = false)
    (hon : EngineOn (handle coraza cfg p cb).events) :
    Guarded cfg cb log (handle coraza cfg p cb) := by
  rcases h.present with ⟨htx, hreleased, hcb⟩ | ⟨-, hpresent⟩
  · rw [handle_none coraza cfg htx hcb]
    refine ⟨fun hskips _ => ?_, by simp⟩
    rw [append_nil]
    exact h.inspected.of_released hskips hfresh hreleased
  · rcases handle_outcome cfg hsteady hpresent with hblocked | hcalm
    · exact ⟨fun _ hstatus => absurd hstatus hblocked.2, fun _ => hblocked⟩
    · exact hcalm.guarded h.inspected hfresh hon

/-- One callback without a local response keeps the invariant, and a request
callback does not process the response. -/
theorem handle_followed (hsteady : coraza.Steady) (h : Underway cfg cb p log)
    (hsent : NothingSent (handle coraza cfg p cb).events)
    (hon : EngineOn (handle coraza cfg p cb).events) :
    Followed cfg (handle coraza cfg p cb).plugin (log ++ (handle coraza cfg p cb).events) ∧
      (cb.side = .request →
        (handle coraza cfg p cb).plugin.responseBodyProcessed = p.responseBodyProcessed) := by
  rcases h.present with ⟨htx, hreleased, hcb⟩ | ⟨hlive, hpresent⟩
  · rw [handle_none coraza cfg htx hcb, append_nil]
    exact ⟨⟨h.inspected, by simp [htx, hreleased]⟩, fun _ => rfl⟩
  · rcases handle_outcome cfg hsteady hpresent with hblocked | hcalm
    · exact absurd hblocked.1 (by simp [hsent.countP])
    · refine ⟨⟨hcalm.inspected h.inspected hlive hon, hcalm.gone hlive⟩, fun hside => ?_⟩
      exact hcalm.other .response (by simp [hside])

end

section

variable {T : Type} (coraza : Coraza T) (cfg : Settings)

theorem run_append (p : WafPlugin T) (before after : List Callback) :
    (run coraza cfg p (before ++ after)).2 = (run coraza cfg p before).2 ++
      (run coraza cfg (run coraza cfg p before).1 after).2 := by
  induction before generalizing p with
  | nil => rfl
  | cons cb before ih => simp [run, ih]

variable {coraza} in
theorem run_followed (hsteady : coraza.Steady) {p : WafPlugin T} {log : List Event}
    (callbacks : List Callback) (hlater : ∀ cb ∈ callbacks, cb.isRequestHeaders = false)
    (h : Followed cfg p log) (hsent : NothingSent (run coraza cfg p callbacks).2)
    (hon : EngineOn (run coraza cfg p callbacks).2) :
    Followed cfg (run coraza cfg p callbacks).1 (log ++ (run coraza cfg p callbacks).2) ∧
      ((∀ cb ∈ callbacks, cb.side = .request) →
        (run coraza cfg p callbacks).1.responseBodyProcessed = p.responseBodyProcessed) := by
  induction callbacks generalizing p log with
  | nil => simpa [run] using h
  | cons cb rest ih =>
    obtain ⟨hcb, hrest⟩ := forall_mem_cons.mp hlater
    obtain ⟨hstep, hkept⟩ :=
      handle_followed hsteady (h.underway hcb) hsent.of_append.1 hon.of_append.1
    obtain ⟨hfollowed, hall⟩ := ih hrest hstep hsent.of_append.2 hon.of_append.2
    simp only [run]
    rw [← append_assoc]
    refine ⟨hfollowed, fun hsides => ?_⟩
    obtain ⟨hside, hsides⟩ := forall_mem_cons.mp hsides
    exact (hall hsides).trans (hkept hside)

/-- A callback of an ordered stream is the request headers, or comes after them
and, on the request side, only after request callbacks. -/
theorem Ordered.split {before after : List Callback} {cb : Callback}
    (h : Ordered (before ++ cb :: after)) :
    before = [] ∧ cb.isRequestHeaders = true ∨
      ∃ first rest, before = first :: rest ∧ first.isRequestHeaders = true ∧
        (∀ x ∈ rest, x.isRequestHeaders = false) ∧ cb.isRequestHeaders = false ∧
        (cb.side = .request → ∀ x ∈ rest, x.side = .request) := by
  obtain ⟨first, requests, responses, heq, hfirst, hrequests, hresponses⟩ := h
  have hlater : ∀ x ∈ requests ++ responses, x.isRequestHeaders = false := by
    intro x hx
    rcases mem_append.mp hx with hx | hx
    · exact (hrequests x hx).2
    · have hside := hresponses x hx
      cases x <;> first | rfl | cases hside
  cases before with
  | nil =>
    obtain ⟨rfl, -⟩ := cons_eq_cons.mp heq
    exact Or.inl ⟨rfl, hfirst⟩
  | cons x rest =>
    obtain ⟨rfl, hrest⟩ := cons_eq_cons.mp heq
    rw [← hrest] at hlater
    refine Or.inr ⟨x, rest, rfl, hfirst, fun y hy => hlater y (mem_append_left _ hy),
      hlater cb (by simp), fun hside y hy => ?_⟩
    -- the callback is a request callback, so the requests go on at least until it
    rcases append_eq_append_iff.mp hrest with ⟨more, hmore, -⟩ | ⟨more, -, hmore⟩
    · refine (hrequests y ?_).1
      rw [hmore]
      exact mem_append_left _ hy
    · have hcb := hresponses cb (by simp [hmore])
      rw [hside] at hcb
      cases hcb

/-- Every callback before the first local response, and the one that sends it. -/
theorem stream_guarded (hsteady : coraza.Steady) (before after : List Callback) (cb : Callback)
    (hordered : Ordered (before ++ cb :: after))
    (hunsent : NothingSent (run coraza cfg newPlugin before).2)
    (hon : EngineOn (run coraza cfg newPlugin (before ++ [cb])).2) :
    Guarded cfg cb (run coraza cfg newPlugin before).2
      (handle coraza cfg (run coraza cfg newPlugin before).1 cb) := by
  have hlast : (run coraza cfg (run coraza cfg newPlugin before).1 [cb]).2 =
      (handle coraza cfg (run coraza cfg newPlugin before).1 cb).events := by simp [run]
  rw [run_append, hlast] at hon
  rcases hordered.split with ⟨rfl, hcb⟩ | ⟨first, rest, rfl, hfirst, hrest, hcb, hsides⟩
  · exact handle_guarded hsteady (underway_newPlugin hcb) (fun _ => rfl) hon.of_append.2
  · have hside : first.side = .request := by cases first <;> first | rfl | cases hfirst
    obtain ⟨hstep, hfresh⟩ := handle_followed hsteady (underway_newPlugin hfirst)
      hunsent.of_append.1 hon.of_append.1.of_append.1
    obtain ⟨hfollowed, hall⟩ := run_followed cfg hsteady rest hrest hstep
      hunsent.of_append.2 hon.of_append.1.of_append.2
    refine handle_guarded hsteady (hfollowed.underway hcb) (fun hrequest => ?_) hon.of_append.2
    exact (hall (hsides hrequest)).trans (hfresh hside)

end

def sampleUpload : HeaderMap :=
  [(":authority", "shop.example"), (":method", "POST"), (":path", "/upload")]

def uploadHeaders : Callback := .requestHeaders sampleEnvironment sampleUpload false

def uploadBody (text : String) : Callback :=
  .requestBody sampleEnvironment (some [ascii text]) true

theorem upload_ordered (text : String) : Ordered ([uploadHeaders] ++ [uploadBody text]) :=
  ⟨uploadHeaders, [uploadBody text], [], rfl, rfl, by simp [uploadBody, Callback.side,
    Callback.isRequestHeaders], by simp⟩

/-- An upload that passes, and one that is blocked. -/
theorem upload_guarded :
    (∃ e ∈ (run attackCoraza (sampleSettings .full) newPlugin
        [uploadHeaders, uploadBody "photo"]).2, e.runsBody .request = true) ∧
      (handle attackCoraza (sampleSettings .full)
        (run attackCoraza (sampleSettings .full) newPlugin [uploadHeaders]).1
        (uploadBody "attack")).events.countP Event.isLocalResponse = 1 := by
  have hunsent : NothingSent (run attackCoraza (sampleSettings .full) newPlugin
      [uploadHeaders]).2 := by
    unfold NothingSent
    decide +kernel
  have hon : ∀ text ∈ ["photo", "attack"], EngineOn (run attackCoraza (sampleSettings .full)
      newPlugin ([uploadHeaders] ++ [uploadBody text])).2 := by
    unfold EngineOn
    decide +kernel
  have hpassed := stream_guarded attackCoraza (sampleSettings .full) attackCoraza_steady
    [uploadHeaders] [] (uploadBody "photo") (upload_ordered _) hunsent (hon _ (by decide))
  have hblocked := stream_guarded attackCoraza (sampleSettings .full) attackCoraza_steady
    [uploadHeaders] [] (uploadBody "attack") (upload_ordered _) hunsent (hon _ (by decide))
  exact ⟨hpassed.inspected rfl (by decide +kernel), (hblocked.blocked (by decide +kernel)).1⟩

end BuiltOnEnvoy.Waf
