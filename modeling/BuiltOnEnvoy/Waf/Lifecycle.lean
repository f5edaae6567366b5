import BuiltOnEnvoy.Waf.Steps

/-!
# The life of a transaction

In every stream whose request headers arrive at most once, at most one
transaction is opened. It is closed once, nothing is called on it afterwards,
the gauge of active transactions ends where it began, and the transaction is
counted at most once.
-/

namespace BuiltOnEnvoy.Waf

open Foundations List

/-- The change of the gauge of active transactions. -/
def gaugeTotal (log : List Event) : ℤ := (log.map Event.gaugeChange).sum

/-- The log of a stream in which the transaction was treated as it should be. -/
structure Lifecycle (log : List Event) : Prop where
  opened : log.countP Event.isNew ≤ 1
  closed : log.countP Event.isClose = log.countP Event.isNew
  quiet : log.Pairwise fun earlier later => earlier.isClose = true → later.isTx = false
  gauge : gaugeTotal log = 0
  counted : log.countP Event.isTotal ≤ 1 ∧ log.countP Event.isDuration ≤ 1

section

variable {T : Type} (coraza : Coraza T) (cfg : Settings)

def newPlugin : WafPlugin T := ⟨⟨0, false, false, "", false, false, false, false, ""⟩, none⟩

/-- The filter and the events after callbacks. -/
def run (p : WafPlugin T) : List Callback → WafPlugin T × List Event
  | [] => (p, [])
  | cb :: rest =>
    let o := handle coraza cfg p cb
    let r := run o.plugin rest
    (r.1, o.events ++ r.2)

/-- The events of a whole stream, which ends in `OnStreamComplete`. -/
def stream (callbacks : List Callback) : List Event :=
  let r := run coraza cfg newPlugin callbacks
  r.2 ++ (onStreamComplete coraza cfg r.1).2

end

/-- While there is a transaction. -/
structure Active (cfg : Settings) (f : Fields) (log : List Event) : Prop where
  opened : log.countP Event.isNew = 1
  unclosed : ∀ e ∈ log, e.isClose = false
  gauge : gaugeTotal log = if cfg.metrics.txActive then 1 else 0
  totals : log.countP Event.isTotal ≤ if f.txDone then 1 else 0
  durations : log.countP Event.isDuration ≤ if f.txDone then 1 else 0

theorem gaugeTotal_append (log more : List Event) :
    gaugeTotal (log ++ more) = gaugeTotal log + gaugeTotal more := by
  simp [gaugeTotal]

theorem gaugeTotal_record (enabled : Bool) (change : ℤ) :
    gaugeTotal (record enabled (.txActive change)) = if enabled then change else 0 := by
  cases enabled <;> simp [record, gaugeTotal, Event.gaugeChange]

theorem countP_record {q : Event → Bool} {enabled : Bool} {event : Event}
    (h : q event = false) : (record enabled event).countP q = 0 := by
  cases enabled <;> simp [record, h]

theorem countP_record_le (q : Event → Bool) (enabled : Bool) (event : Event) :
    (record enabled event).countP q ≤ 1 := by
  cases enabled with
  | true => exact countP_le_length
  | false => exact Nat.zero_le 1

theorem isClose_record {enabled : Bool} {event e : Event} (h : event.isClose = false)
    (he : e ∈ record enabled event) : e.isClose = false := by
  rw [mem_record he]
  exact h

/-- Inner events have no part in the life of the transaction. -/
structure Neutral (events : List Event) : Prop where
  new : events.countP Event.isNew = 0
  close : ∀ e ∈ events, e.isClose = false
  gauge : gaugeTotal events = 0
  total : events.countP Event.isTotal = 0
  duration : events.countP Event.isDuration = 0

theorem neutral_of_inner {events : List Event} (h : ∀ e ∈ events, e.inner = true) :
    Neutral events := by
  have heach : ∀ e : Event, e.inner = true → e.isNew = false ∧ e.isClose = false ∧
      e.gaugeChange = 0 ∧ e.isTotal = false ∧ e.isDuration = false := by
    intro e he
    cases e with
    | tx call => cases call <;> first | exact ⟨rfl, rfl, rfl, rfl, rfl⟩ | cases he
    | _ => first | exact ⟨rfl, rfl, rfl, rfl, rfl⟩ | cases he
  refine ⟨?_, ?_, ?_, ?_, ?_⟩
  · exact countP_of_none fun e he => (heach e (h e he)).1
  · intro e he
    exact (heach e (h e he)).2.1
  · apply sum_eq_zero
    intro x hx
    obtain ⟨e, he, rfl⟩ := List.mem_map.mp hx
    exact (heach e (h e he)).2.2.1
  · exact countP_of_none fun e he => (heach e (h e he)).2.2.2.1
  · exact countP_of_none fun e he => (heach e (h e he)).2.2.2.2

theorem Active.append {cfg : Settings} {f g : Fields} {log events : List Event}
    (h : Active cfg f log) (hinner : ∀ e ∈ events, e.inner = true) (hdone : g.txDone = f.txDone) :
    Active cfg g (log ++ events) := by
  have hneutral := neutral_of_inner hinner
  refine ⟨?_, ?_, ?_, ?_, ?_⟩
  · rw [countP_append, h.opened, hneutral.new]
  · intro e he
    exact (mem_append.mp he).elim (h.unclosed e) (hneutral.close e)
  · rw [gaugeTotal_append, h.gauge, hneutral.gauge, add_zero]
  · rw [countP_append, hneutral.total, hdone]
    exact h.totals
  · rw [countP_append, hneutral.duration, hdone]
    exact h.durations

theorem Active.recorded {cfg : Settings} {f : Fields} {log : List Event} (h : Active cfg f log)
    (hdone : f.txDone = true) (htotals : log.countP Event.isTotal = 0)
    (hdurations : log.countP Event.isDuration = 0) (elapsed : ℕ) :
    Active cfg f (log ++ (record cfg.metrics.txTotal .txTotal ++
      record cfg.metrics.txDuration (.txDuration elapsed))) := by
  refine ⟨?_, ?_, ?_, ?_, ?_⟩
  · rw [countP_append, countP_append, h.opened, countP_record rfl, countP_record rfl]
  · intro e he
    simp only [mem_append] at he
    rcases he with hold | htotal | hduration
    · exact h.unclosed e hold
    · exact isClose_record rfl htotal
    · exact isClose_record rfl hduration
  · rw [gaugeTotal_append, gaugeTotal_append, h.gauge]
    simp only [record]
    split_ifs <;> rfl
  · have hone := countP_record_le Event.isTotal cfg.metrics.txTotal .txTotal
    have hnone : (record cfg.metrics.txDuration (.txDuration elapsed)).countP Event.isTotal = 0 :=
      countP_record rfl
    rw [countP_append, countP_append, if_pos hdone]
    omega
  · have hone := countP_record_le Event.isDuration cfg.metrics.txDuration (.txDuration elapsed)
    have hnone : (record cfg.metrics.txTotal .txTotal).countP Event.isDuration = 0 :=
      countP_record rfl
    rw [countP_append, countP_append, if_pos hdone]
    omega

section

variable {T : Type} (coraza : Coraza T) (cfg : Settings) (env : Environment)

theorem ask_active {α : Type} {method : T → α × T} {call : α → TxCall} {done : Bool}
    (hinner : ∀ a, (Event.tx (call a)).inner = true) :
    Leads (fun f log => Active cfg f log ∧ f.txDone = done) (ask method call) fun _ f log =>
      Active cfg f log ∧ f.txDone = done := by
  apply Leads.ask
  rintro f log a ⟨h, hdone⟩
  exact ⟨h.append (by simpa using hinner a) rfl, hdone⟩

theorem recordTxMetrics_active :
    Leads (fun f log => Active cfg f log ∧ f.txDone = false) (recordTxMetrics coraza cfg)
      fun _ f log => Active cfg f log ∧ f.txDone = true := by
  -- marked, with nothing counted so far
  let marked (f : Fields) (log : List Event) : Prop :=
    (Active cfg f log ∧ f.txDone = true) ∧ log.countP Event.isTotal = 0 ∧
      log.countP Event.isDuration = 0
  apply Leads.bind (Q := fun _ => marked)
  · apply Leads.modify
    rintro s log ⟨h, hdone⟩
    have htotals : log.countP Event.isTotal = 0 := by simpa [hdone] using h.totals
    have hdurations : log.countP Event.isDuration = 0 := by simpa [hdone] using h.durations
    exact ⟨⟨⟨h.opened, h.unclosed, h.gauge, by simp [htotals], by simp [hdurations]⟩, rfl⟩,
      htotals, hdurations⟩
  · intro _
    apply Leads.bind (Q := fun _ => marked)
    · apply Leads.ask
      rintro f log off ⟨⟨h, hdone⟩, htotals, hdurations⟩
      refine ⟨⟨h.append (by simp [Event.inner]) rfl, hdone⟩, ?_, ?_⟩
      · simp [htotals, Event.isTotal]
      · simp [hdurations, Event.isDuration]
    · intro off
      apply Leads.ite
      · intro _
        apply Leads.pure
        intro f log h
        exact h.1
      · intro _
        apply Leads.get_bind
        intro s
        apply Act.Triple.emit
        rintro s' log ⟨-, ⟨h, hdone⟩, htotals, hdurations⟩
        exact ⟨h.recorded hdone htotals hdurations (s.wafElapsed / 1000), hdone⟩

theorem analysisDone_active {done : Bool} :
    Leads (fun f log => Active cfg f log ∧ f.txDone = done) (analysisDone coraza cfg)
      fun _ f log => Active cfg f log ∧ f.txDone = done := by
  apply (ask_active cfg fun _ => rfl).bind
  intro interrupted
  apply Leads.ite
  · intro _
    exact Leads.pure_same
  · intro _
    apply (ask_active cfg fun _ => rfl).bind
    intro off
    apply Leads.ite
    · intro _
      exact Leads.pure_same
    · intro _
      apply Leads.get_bind_same
      intro s
      exact Leads.pure_same

theorem pairwise_of_unclosed {log : List Event} (h : ∀ e ∈ log, e.isClose = false) :
    log.Pairwise fun earlier later => earlier.isClose = true → later.isTx = false := by
  induction log with
  | nil => exact List.Pairwise.nil
  | cons e log ih =>
    refine List.Pairwise.cons (fun later _ hclose => ?_) (ih fun x hx => ?_)
    · rw [h e mem_cons_self] at hclose
      cases hclose
    · exact h x (mem_cons_of_mem _ hx)

theorem Active.closed {f : Fields} {log : List Event} (h : Active cfg f log) (err : Option String) :
    Lifecycle (log ++ .tx (.close err) :: record cfg.metrics.txActive (.txActive (-1))) := by
  have hclose : log.countP Event.isClose = 0 := countP_of_none h.unclosed
  have htotal : log.countP Event.isTotal ≤ 1 := h.totals.trans (by split_ifs <;> decide)
  have hduration : log.countP Event.isDuration ≤ 1 := h.durations.trans (by split_ifs <;> decide)
  have hgone : ∀ e ∈ record cfg.metrics.txActive (.txActive (-1)), e.isTx = false := by
    intro e he
    rw [mem_record he]
    rfl
  refine ⟨?_, ?_, ?_, ?_, ?_, ?_⟩
  · rw [countP_append, countP_cons, countP_record rfl, h.opened]
    rfl
  · rw [countP_append, countP_cons, countP_record rfl, hclose, countP_append,
      countP_cons, countP_record rfl, h.opened]
    rfl
  · rw [pairwise_append]
    refine ⟨pairwise_of_unclosed h.unclosed, ?_, ?_⟩
    · refine List.Pairwise.cons (fun later hlater _ => hgone later hlater) ?_
      apply pairwise_of_unclosed
      intro e he
      have htx := hgone e he
      cases e <;> first | rfl | cases htx
    · grind
  · have hcons : gaugeTotal (.tx (.close err) :: record cfg.metrics.txActive (.txActive (-1))) =
        gaugeTotal (record cfg.metrics.txActive (.txActive (-1))) := by
      simp [gaugeTotal, Event.gaugeChange]
    rw [gaugeTotal_append, hcons, gaugeTotal_record, h.gauge]
    split_ifs <;> rfl
  · rw [countP_append, countP_cons, countP_record rfl]
    exact htotal
  · rw [countP_append, countP_cons, countP_record rfl]
    exact hduration

theorem releaseTransaction_lifecycle :
    Leads (Active cfg) (releaseTransaction coraza cfg) fun _ _ log => Lifecycle log := by
  apply Leads.bind (Q := fun _ => Active cfg)
  · apply Leads.ask
    intro f log _ h
    exact h.append (by simp [Event.inner]) rfl
  · intro _ s log h
    have hlife := h.closed cfg (coraza.close s.tx).1
    change Lifecycle (log ++ .tx (.close (coraza.close s.tx).1) ::
      (record cfg.metrics.txActive (.txActive (-1)) ++ []))
    rwa [append_nil]

theorem trackAndMarkTxDone_lifecycle :
    Leads (Active cfg) (trackAndMarkTxDone coraza cfg env) fun released f log =>
      if released then Lifecycle log else Active cfg f log := by
  apply Leads.get_bind
  intro s
  apply Leads.ite
  · intro _
    apply Leads.pure
    rintro f log ⟨-, h⟩
    exact h
  · intro hdone
    simp only [Bool.not_eq_true] at hdone
    apply Leads.bind (Q := fun _ f log => Active cfg f log ∧ f.txDone = false)
    · apply Leads.modify
      rintro s' log ⟨hs, h⟩
      exact ⟨⟨h.opened, h.unclosed, h.gauge, h.totals, h.durations⟩, by rw [← hdone, ← hs]⟩
    · intro _
      apply (analysisDone_active coraza cfg).bind
      intro done
      apply Leads.ite
      · intro _
        apply (recordTxMetrics_active coraza cfg).bind
        intro _
        apply Leads.ite
        · intro _
          apply (ask_active cfg fun _ => rfl).bind
          intro interrupted
          apply Leads.ite
          · intro _
            apply Leads.pure
            intro f log h
            exact h.1
          · intro _
            apply Leads.bind (Q := fun _ _ log => Lifecycle log)
            · exact (releaseTransaction_lifecycle coraza cfg).strengthen fun f log h => h.1
            · intro _
              apply Leads.pure
              intro f log h
              exact h
        · intro _
          apply Leads.pure
          intro f log h
          exact h.1
      · intro _
        apply Leads.pure
        intro f log h
        exact h.1

theorem finishTransaction_lifecycle :
    Leads (Active cfg) (finishTransaction coraza cfg) fun _ _ log => Lifecycle log := by
  have hrelease := releaseTransaction_lifecycle coraza cfg
  apply Leads.get_bind
  intro s
  apply Leads.ite
  · intro _
    exact hrelease.strengthen fun f log h => h.2
  · intro hdone
    apply ((recordTxMetrics_active coraza cfg).strengthen ?_).bind
    · intro _
      exact hrelease.strengthen fun f log h => h.1
    · rintro f log ⟨rfl, h⟩
      exact ⟨h, by simpa using hdone⟩

end

/-- Nothing has happened to a transaction. -/
structure Absent {T : Type} (p : WafPlugin T) (log : List Event) : Prop where
  txContext : p.txContext = none
  log : log = []

/-- The stages of a stream: no transaction yet, a transaction, or one that is
over. -/
inductive Stage {T : Type} (cfg : Settings) (p : WafPlugin T) (log : List Event) : Prop
  | absent (h : Absent p log)
  | active (t : T) (htx : p.txContext = some t) (h : Active cfg p.toFields log)
  | ended (htx : p.txContext = none) (h : Lifecycle log)

section

variable {T : Type} (coraza : Coraza T) (cfg : Settings) {p : WafPlugin T} {log : List Event}

theorem deferred_stage {cb : Callback} {s : Live T} (h : Active cfg s.toFields log) :
    let o := deferred coraza cfg cb.env (cb.inspection coraza cfg) s
    Stage cfg o.plugin (log ++ o.events) := by
  have hprogress := (cb.inspection_answered coraza cfg s).progress
  have hinspected := h.append hprogress.inner hprogress.txDone
  have htracked := trackAndMarkTxDone_lifecycle coraza cfg cb.env _ _ hinspected
  simp only [deferred]
  rw [← append_assoc]
  cases hreleased : (trackAndMarkTxDone coraza cfg cb.env
    (cb.inspection coraza cfg s).2.1).1 with
  | true =>
    rw [hreleased] at htracked
    exact .ended rfl htracked
  | false =>
    rw [hreleased] at htracked
    exact .active _ rfl htracked

theorem handle_stage_first {cb : Callback} (h : Absent p log) (hcb : cb.isRequestHeaders = true) :
    Stage cfg (handle coraza cfg p cb).plugin (log ++ (handle coraza cfg p cb).events) := by
  obtain ⟨s, id, hflags, heq⟩ := handle_first coraza cfg h.txContext hcb
  have hopened : Active cfg s.toFields
      (.newTransaction id :: record cfg.metrics.txActive (.txActive 1)) := by
    refine ⟨?_, ?_, ?_, ?_, ?_⟩
    · rw [countP_cons, countP_record rfl]
      rfl
    · intro e he
      rcases mem_cons.mp he with rfl | hgauge
      · rfl
      · exact isClose_record rfl hgauge
    · have hcons : gaugeTotal (.newTransaction id :: record cfg.metrics.txActive (.txActive 1)) =
          gaugeTotal (record cfg.metrics.txActive (.txActive 1)) := by
        simp [gaugeTotal, Event.gaugeChange]
      rw [hcons, gaugeTotal_record]
    · rw [countP_cons, countP_record rfl]
      exact Nat.zero_le _
    · rw [countP_cons, countP_record rfl]
      exact Nat.zero_le _
  rw [heq, h.log, nil_append]
  exact deferred_stage coraza cfg hopened

theorem handle_stage {cb : Callback} (h : Stage cfg p log) (hcb : cb.isRequestHeaders = false) :
    Stage cfg (handle coraza cfg p cb).plugin (log ++ (handle coraza cfg p cb).events) ∧
      (Absent p log → Absent (handle coraza cfg p cb).plugin
        (log ++ (handle coraza cfg p cb).events)) := by
  cases h with
  | absent h =>
    rw [handle_none coraza cfg h.txContext hcb, append_nil]
    exact ⟨.absent h, id⟩
  | active t htx h =>
    obtain ⟨s, hflags, heq⟩ := handle_some coraza cfg cb htx
    rw [heq]
    have hs : Active cfg s.toFields log :=
      ⟨h.opened, h.unclosed, h.gauge, by rw [hflags.txDone]; exact h.totals,
        by rw [hflags.txDone]; exact h.durations⟩
    refine ⟨deferred_stage coraza cfg hs, fun habsent => ?_⟩
    rw [habsent.txContext] at htx
    cases htx
  | ended htx h =>
    rw [handle_none coraza cfg htx hcb, append_nil]
    exact ⟨.ended htx h, id⟩

theorem run_stage (callbacks : List Callback) (h : Stage cfg p log)
    (honce : Absent p log ∧ callbacks.countP Callback.isRequestHeaders ≤ 1 ∨
      callbacks.countP Callback.isRequestHeaders = 0) :
    Stage cfg (run coraza cfg p callbacks).1 (log ++ (run coraza cfg p callbacks).2) := by
  induction callbacks generalizing p log with
  | nil => simpa [run] using h
  | cons cb rest ih =>
    simp only [run]
    rw [← append_assoc]
    rw [countP_cons] at honce
    cases hcb : cb.isRequestHeaders with
    | true =>
      simp only [hcb, if_true] at honce
      have hfirst := honce.resolve_right (by omega)
      exact ih (handle_stage_first coraza cfg hfirst.1 hcb) (Or.inr (by omega))
    | false =>
      obtain ⟨hstage, habsent⟩ := handle_stage coraza cfg h hcb
      apply ih hstage
      simp only [hcb, Bool.false_eq_true, if_false, Nat.add_zero] at honce
      exact honce.imp_left fun hfirst => ⟨habsent hfirst.1, hfirst.2⟩

theorem onStreamComplete_lifecycle (h : Stage cfg p log) :
    Lifecycle (log ++ (onStreamComplete coraza cfg p).2) := by
  cases h with
  | absent h =>
    simp only [onStreamComplete, h.txContext, h.log]
    exact ⟨by simp, by simp, List.Pairwise.nil, rfl, by simp⟩
  | ended htx h =>
    simp only [onStreamComplete, htx, append_nil]
    exact h
  | active t htx h =>
    simp only [onStreamComplete, htx]
    exact finishTransaction_lifecycle coraza cfg { p with tx := t } log h

theorem stream_lifecycle (callbacks : List Callback)
    (honce : callbacks.countP Callback.isRequestHeaders ≤ 1) :
    Lifecycle (stream coraza cfg callbacks) := by
  have habsent : Absent (newPlugin : WafPlugin T) [] := ⟨rfl, rfl⟩
  have hrun := run_stage coraza cfg callbacks (.absent habsent) (Or.inl ⟨habsent, honce⟩)
  rw [nil_append] at hrun
  exact onStreamComplete_lifecycle coraza cfg hrun

end

def sampleSettings (mode : WafMode) : Settings where
  mode := mode
  requestURIPathOnly := true
  metrics := ⟨⟨false, .authority⟩, true, true, true, true⟩

def sampleEnvironment : Environment where
  requestProtocol := "HTTP/2"
  sourceAddress := "10.0.0.7:4321"
  routeName := none
  virtualHostName := none
  receivedBuffered := false
  bufferLimit := 1024
  bufferedSize := 0
  receivedSize := 6
  took := 2000

def sampleUpgrade : HeaderMap :=
  [(":authority", "shop.example:443"), (":method", "GET"), (":path", "/live"),
    ("connection", "Upgrade"), ("upgrade", "websocket")]

def upgradeStream : List Callback :=
  [.requestHeaders sampleEnvironment sampleUpgrade false,
    .responseHeaders sampleEnvironment [(":status", "101")] false,
    .requestBody sampleEnvironment (some [ascii "attack"]) false]

/-- An upgraded stream, whose transaction is released by its request headers. -/
theorem upgradeStream_lifecycle :
    upgradeStream.countP Callback.isRequestHeaders ≤ 1 ∧
      (.newTransaction "" ∈ stream attackCoraza (sampleSettings .requestOnly) upgradeStream) ∧
      (run attackCoraza (sampleSettings .requestOnly) newPlugin upgradeStream).1.txReleased = true ∧
      Lifecycle (stream attackCoraza (sampleSettings .requestOnly) upgradeStream) :=
  ⟨by decide, by decide +kernel, by decide +kernel,
    stream_lifecycle attackCoraza (sampleSettings .requestOnly) upgradeStream (by decide)⟩

end BuiltOnEnvoy.Waf
