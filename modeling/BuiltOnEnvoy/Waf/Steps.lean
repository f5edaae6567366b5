import BuiltOnEnvoy.Waf.Plugin

/-!
# What an inspection can do

An inspection that starts from the fields `start` either goes on calmly, so
that nothing was reported and a body phase that counts as processed has been
run, or it is blocked, with one local response. It never opens, closes or
counts the transaction, and leaves the other side's body alone.
-/

namespace BuiltOnEnvoy.Waf

open Foundations List

/-- A part of an inspection: the fields now, and the events so far. -/
structure Progress (side : Side) (start now : Fields) (events : List Event) : Prop where
  inner : ∀ e ∈ events, e.inner = true
  txDone : now.txDone = start.txDone
  txReleased : now.txReleased = start.txReleased
  other : ∀ x, x ≠ side → now.bodyProcessed x = start.bodyProcessed x

/-- No local response was sent yet. -/
structure Unsent (side : Side) (start now : Fields) (events : List Event) : Prop
    extends Progress side start now events where
  unsent : ∀ e ∈ events, e.isLocalResponse = false

/-- Nothing was reported yet. -/
structure Unreported (side : Side) (start now : Fields) (events : List Event) : Prop
    extends Unsent side start now events where
  unreported : ∀ e ∈ events, e.reports = false

/-- Moreover a body phase that counts as processed has been run. -/
structure Calm (side : Side) (start now : Fields) (events : List Event) : Prop
    extends Unreported side start now events where
  ran : now.bodyProcessed side = true →
    start.bodyProcessed side = true ∨ ∃ e ∈ events, e.runsBody side = true

structure Blocked (side : Side) (start now : Fields) (events : List Event) : Prop
    extends Progress side start now events where
  sent : events.countP Event.isLocalResponse = 1

/-- A reason for which a callback may let its data pass. -/
def MayPass (cfg : Settings) (side : Side) (start now : Fields) (events : List Event) : Prop :=
  start.txReleased = true ∨ cfg.mode.skips side = true ∨
    .tx (.isRuleEngineOff true) ∈ events ∨ start.bodyProcessed side = true ∨
    now.bodyProcessed side = true

/-- The two ways an inspection ends. -/
def Answered (cfg : Settings) (side : Side) (start : Fields) (status : Status) (now : Fields)
    (events : List Event) : Prop :=
  (Blocked side start now events ∧ status ≠ .continue) ∨
    (Calm side start now events ∧
      (status = .continue → MayPass cfg side start now events))

section

variable {side : Side} {start now : Fields} {events : List Event} {e : Event}

theorem countP_of_none {q : Event → Bool} (h : ∀ e ∈ events, q e = false) :
    events.countP q = 0 := by
  rw [countP_eq_zero]
  intro e he
  simp [h e he]

theorem Calm.refl (side : Side) (start : Fields) : Calm side start start [] where
  inner := by simp
  txDone := rfl
  txReleased := rfl
  other _ _ := rfl
  unsent := by simp
  unreported := by simp
  ran := Or.inl

theorem Progress.append (h : Progress side start now events) {more : List Event}
    (hinner : ∀ e ∈ more, e.inner = true) : Progress side start now (events ++ more) where
  inner e he := (mem_append.mp he).elim (h.inner e) (hinner e)
  txDone := h.txDone
  txReleased := h.txReleased
  other := h.other

theorem Unsent.append (h : Unsent side start now events) (hinner : e.inner = true)
    (hunsent : e.isLocalResponse = false) : Unsent side start now (events ++ [e]) where
  toProgress := h.toProgress.append (by simpa using hinner)
  unsent x hx := (mem_append.mp hx).elim (h.unsent x) (by
    intro hlast
    rw [mem_singleton.mp hlast]
    exact hunsent)

theorem Unreported.append (h : Unreported side start now events) (hinner : e.inner = true)
    (hunsent : e.isLocalResponse = false) (hquiet : e.reports = false) :
    Unreported side start now (events ++ [e]) where
  toUnsent := h.toUnsent.append hinner hunsent
  unreported x hx := (mem_append.mp hx).elim (h.unreported x) (by
    intro hlast
    rw [mem_singleton.mp hlast]
    exact hquiet)

theorem Calm.append (h : Calm side start now events) (hinner : e.inner = true)
    (hunsent : e.isLocalResponse = false) (hquiet : e.reports = false) :
    Calm side start now (events ++ [e]) where
  toUnreported := h.toUnreported.append hinner hunsent hquiet
  ran hnow := (h.ran hnow).imp_right fun ⟨x, hx, hruns⟩ =>
    ⟨x, mem_append_left _ hx, hruns⟩

theorem Unreported.calm (h : Unreported side start now events) (he : e ∈ events)
    (hruns : e.runsBody side = true) : Calm side start now events where
  toUnreported := h
  ran _ := Or.inr ⟨e, he, hruns⟩

end

section

variable {T α : Type} {P : Fields → List Event → Prop} {Q : α → Fields → List Event → Prop}

/-- A triple that speaks of the fields alone. -/
def Leads (P : Fields → List Event → Prop) (x : Inspection T α)
    (Q : α → Fields → List Event → Prop) : Prop :=
  Act.Triple (fun s events => P s.toFields events) x fun a s events => Q a s.toFields events

namespace Leads

variable {β : Type} {Q' : α → Fields → List Event → Prop} {x : Inspection T α}

theorem pure {a : α} (h : ∀ f events, P f events → Q a f events) :
    Leads (T := T) P (Pure.pure a) Q :=
  Act.Triple.pure fun s events => h s.toFields events

theorem pure_same {a : α} : Leads (T := T) P (Pure.pure a) fun _ => P :=
  Leads.pure fun _ _ h => h

theorem bind {g : α → Inspection T β} {R : β → Fields → List Event → Prop} (hx : Leads P x Q)
    (hg : ∀ a, Leads (Q a) (g a) R) : Leads P (x >>= g) R :=
  Act.Triple.bind hx hg

theorem weaken (hx : Leads P x Q) (hQ : ∀ a f events, Q a f events → Q' a f events) :
    Leads P x Q' :=
  Act.Triple.weaken hx fun a s events => hQ a s.toFields events

theorem strengthen {P' : Fields → List Event → Prop} (hx : Leads P x Q)
    (hP : ∀ f events, P' f events → P f events) : Leads P' x Q :=
  Act.Triple.conseq hx (fun s events => hP s.toFields events) fun _ _ _ h => h

theorem ite {c : Prop} [Decidable c] {x y : Inspection T α} (hx : c → Leads P x Q)
    (hy : ¬c → Leads P y Q) : Leads P (if c then x else y) Q :=
  Act.Triple.ite hx hy

theorem modify {g : Live T → Live T} {R : Unit → Fields → List Event → Prop}
    (h : ∀ s : Live T, ∀ events, P s.toFields events → R () (g s).toFields events) :
    Leads P (Act.modify g) R :=
  Act.Triple.modify h

theorem pull {φ : Prop} (hφ : ∀ f events, P f events → φ) (h : φ → Leads P x Q) :
    Leads P x Q := by
  intro s events hP
  exact h (hφ _ _ hP) s events hP

theorem get_bind {g : Live T → Inspection T β} {R : β → Fields → List Event → Prop}
    (h : ∀ s : Live T, Leads (fun f events => f = s.toFields ∧ P f events) (g s) R) :
    Leads P (Act.get >>= g) R := by
  intro s events hP
  exact h s s events ⟨rfl, hP⟩

theorem get_bind_same {g : Live T → Inspection T β} {R : β → Fields → List Event → Prop}
    (h : ∀ s : Live T, Leads P (g s) R) : Leads P (Act.get >>= g) R :=
  get_bind fun s => (h s).strengthen fun _ _ hP => hP.2

theorem ask {method : T → α × T} {call : α → TxCall}
    (h : ∀ f events a, P f events → Q a f (events ++ [.tx (call a)])) :
    Leads P (ask method call) Q := by
  intro s events hP
  exact h s.toFields events _ hP

theorem ask_calm {side : Side} {start : Fields} {method : T → α × T} {call : α → TxCall}
    (hinner : ∀ a, (Event.tx (call a)).inner = true)
    (hquiet : ∀ a, (Event.tx (call a)).reports = false) :
    Leads (Calm side start) (Waf.ask method call) fun a f events =>
      Calm side start f events ∧ .tx (call a) ∈ events := by
  apply Leads.ask
  intro f events a h
  exact ⟨h.append (hinner a) rfl (hquiet a), by simp⟩

end Leads

variable (coraza : Coraza T) (cfg : Settings) (env : Environment) {side : Side} {start : Fields}

theorem isRuleEngineOff_calm :
    Leads (Calm side start) (isRuleEngineOff coraza) fun off f events =>
      Calm side start f events ∧ (off = true → .tx (.isRuleEngineOff true) ∈ events) := by
  apply Leads.weaken (Leads.ask_calm (fun _ => rfl) (fun _ => rfl))
  rintro off f events ⟨hcalm, hmem⟩
  refine ⟨hcalm, fun hoff => ?_⟩
  rwa [hoff] at hmem

theorem tell_calm {method : T → T} {call : TxCall} (hinner : (Event.tx call).inner = true)
    (hquiet : (Event.tx call).reports = false) :
    Leads (Calm side start) (tell method call) fun _ => Calm side start := by
  apply Leads.weaken (Leads.ask_calm (fun _ => hinner) (fun _ => hquiet))
  intro _ f events h
  exact h.1

theorem addHeaders_calm (on : Side) (headers : HeaderMap) :
    Leads (Calm side start) (addHeaders coraza on headers) fun _ => Calm side start := by
  induction headers with
  | nil => exact Leads.pure_same
  | cons header rest ih =>
    have hfirst : Leads (Calm side start) (addHeader coraza on header) fun _ => Calm side start :=
      tell_calm rfl rfl
    exact hfirst.bind fun _ => ih

theorem mem_record {enabled : Bool} {event e : Event} (h : e ∈ record enabled event) :
    e = event := by
  cases enabled with
  | true => exact mem_singleton.mp h
  | false => cases h

theorem blockEvents_inner (authority : String) (interruption : Option Interruption)
    (phase : RulePhase) (reason : String) :
    ∀ e ∈ blockEvents cfg env authority interruption phase reason, e.inner = true := by
  intro e he
  cases interruption with
  | none =>
    simp only [blockEvents, mem_append, mem_cons, not_mem_nil, or_false] at he
    rcases he with hblocked | rfl | rfl
    · rw [mem_record hblocked]
      rfl
    · rfl
    · rfl
  | some i =>
    simp only [blockEvents, mem_append, mem_cons, not_mem_nil, or_false] at he
    rcases he with hblocked | rfl | rfl | rfl
    · rw [mem_record hblocked]
      rfl
    · rfl
    · rfl
    · rfl

theorem blockEvents_sent (authority : String) (interruption : Option Interruption)
    (phase : RulePhase) (reason : String) :
    (blockEvents cfg env authority interruption phase reason).countP
      Event.isLocalResponse = 1 := by
  cases interruption with
  | none =>
    simp only [blockEvents, record]
    split_ifs <;> rfl
  | some i =>
    simp only [blockEvents, record]
    split_ifs <;> rfl

theorem blockRequest_blocked (interruption : Option Interruption) (phase : RulePhase)
    (reason : String) :
    Leads (Unsent side start) (blockRequest (T := T) cfg env interruption phase reason) fun _ =>
      Blocked side start := by
  intro s events h
  change Blocked side start s.toFields
    (events ++ ([] ++ blockEvents cfg env s.authority interruption phase reason))
  rw [nil_append]
  refine ⟨h.toProgress.append (blockEvents_inner cfg env _ _ _ _), ?_⟩
  rw [countP_append, countP_of_none h.unsent, blockEvents_sent]

/-- What a step that may block leaves behind: it went on calmly, or it sent the
local response. -/
def GoesOn (side : Side) (start : Fields) (ok : Bool) (f : Fields) (events : List Event) : Prop :=
  if ok then Calm side start f events else Blocked side start f events

theorem block_return {β : Type} {P : Fields → List Event → Prop}
    {Q : β → Fields → List Event → Prop} {b : β}
    (hP : ∀ f events, P f events → Unsent side start f events)
    (hQ : ∀ f events, Blocked side start f events → Q b f events)
    (interruption : Option Interruption) (phase : RulePhase) (reason : String) :
    Leads P
      (do
        blockRequest (T := T) cfg env interruption phase reason
        return b)
      Q := by
  apply ((blockRequest_blocked cfg env interruption phase reason).strengthen hP).bind
  intro _
  exact Leads.pure hQ

theorem markProcessed_progress {s : Live T} {events : List Event}
    (h : Unreported side start s.toFields events) :
    Unreported side start (s.markProcessed side).toFields events := by
  have hother : ∀ x, x ≠ side →
      (s.markProcessed side).toFields.bodyProcessed x = s.toFields.bodyProcessed x := by
    intro x hx
    cases side <;> cases x <;> first | rfl | exact absurd rfl hx
  refine ⟨⟨⟨h.inner, ?_, ?_, fun x hx => (hother x hx).trans (h.other x hx)⟩, h.unsent⟩,
    h.unreported⟩
  · rw [← h.txDone]
    cases side <;> rfl
  · rw [← h.txReleased]
    cases side <;> rfl

theorem markProcessed_bodyProcessed (s : Live T) (side : Side) :
    (s.markProcessed side).toFields.bodyProcessed side = true := by
  cases side <;> rfl

theorem handleBody_goesOn :
    Leads (Calm side start) (handleBody coraza cfg env side) fun ok f events =>
      GoesOn side start ok f events ∧ (ok = true → f.bodyProcessed side = true) := by
  -- marking first leaves the phase without a run until the answer is there
  have hmark : Leads (T := T) (Calm side start) (Act.modify fun s => s.markProcessed side)
      fun _ f events => Unreported side start f events ∧ f.bodyProcessed side = true := by
    apply Leads.modify
    intro s events h
    exact ⟨markProcessed_progress h.toUnreported, markProcessed_bodyProcessed s side⟩
  have hask : Leads
      (fun f events => Unreported side start f events ∧ f.bodyProcessed side = true)
      (ask (coraza.processBody side) (.processBody side)) fun answer f events =>
        Unsent side start f events ∧ f.bodyProcessed side = true ∧
          (answer.err = none → answer.interruption = none → Calm side start f events) := by
    apply Leads.ask
    rintro f events answer ⟨h, hprocessed⟩
    refine ⟨h.toUnsent.append rfl rfl, hprocessed, fun herr hint => ?_⟩
    apply Unreported.calm (e := .tx (.processBody side answer))
    · exact h.append rfl rfl (by simp [Event.reports, herr, hint])
    · simp
    · simp [Event.runsBody, herr, hint]
  apply hmark.bind
  intro _
  apply hask.bind
  intro answer
  apply Leads.ite
  · intro _
    exact block_return cfg env (fun _ _ h => h.1) (fun _ _ h => ⟨h, by simp⟩) _ _ _
  · intro herr
    apply Leads.ite
    · intro _
      exact block_return cfg env (fun _ _ h => h.1) (fun _ _ h => ⟨h, by simp⟩) _ _ _
    · intro hint
      apply Leads.pure
      rintro f events ⟨-, hprocessed, hcalm⟩
      simp only [Option.isSome_iff_ne_none, ne_eq, not_not] at herr hint
      exact ⟨hcalm herr hint, fun _ => hprocessed⟩

theorem writeChunks_goesOn (chunks : List Bytes) :
    Leads (Calm side start) (writeChunks coraza cfg env side chunks) (GoesOn side start) := by
  induction chunks with
  | nil => exact Leads.pure fun _ _ h => h
  | cons chunk rest ih =>
    have hask : Leads (Calm side start) (ask (coraza.writeBody side chunk) (.writeBody side chunk))
        fun answer f events => Unsent side start f events ∧
          (answer.err = none → answer.interruption = none →
            Calm side start f events ∧ .tx (.writeBody side chunk answer) ∈ events) := by
      apply Leads.ask
      intro f events answer h
      refine ⟨h.toUnsent.append rfl rfl, fun herr hint => ⟨?_, by simp⟩⟩
      exact h.append rfl rfl (by simp [Event.reports, herr, hint])
    apply hask.bind
    intro answer
    apply Leads.ite
    · intro _
      apply block_return cfg env
      · intro f events h
        exact h.1
      · intro f events h
        exact h
    · intro herr
      apply Leads.ite
      · intro _
        apply block_return cfg env
        · intro f events h
          exact h.1
        · intro f events h
          exact h
      · intro hint
        simp only [Option.isSome_iff_ne_none, ne_eq, not_not] at herr hint
        apply Leads.strengthen (P := fun f events =>
          Calm side start f events ∧ .tx (.writeBody side chunk answer) ∈ events)
        · apply Leads.ite
          · -- a short write has run the body phase
            intro hshort
            apply Leads.bind (Q := fun _ => Calm side start)
            · apply Leads.modify
              rintro s events ⟨hcalm, hmem⟩
              apply (markProcessed_progress hcalm.toUnreported).calm hmem
              simp [Event.runsBody, herr, hint, hshort]
            · intro _
              exact Leads.pure fun _ _ h => h
          · intro _
            exact ih.strengthen fun f events h => h.1
        · intro f events h
          exact h.2 herr hint

theorem writeBody_goesOn (body : Option (List Bytes)) :
    Leads (Calm side start) (writeBody coraza cfg env side body) (GoesOn side start) := by
  cases body with
  | none => exact Leads.pure fun _ _ h => h
  | some chunks => exact writeChunks_goesOn coraza cfg env chunks

theorem enlargeBufferLimitIfNeeded_calm :
    Leads (T := T) (fun f events => Calm side start f events ∧ f.bodyProcessed side = true)
      (enlargeBufferLimitIfNeeded env)
      fun _ f events => Calm side start f events ∧ f.bodyProcessed side = true := by
  apply Leads.ite
  · intro _
    exact Leads.pure_same
  · intro _
    apply Leads.ite
    · intro _
      apply Act.Triple.emit
      rintro s events ⟨hcalm, hprocessed⟩
      exact ⟨hcalm.append rfl rfl rfl, hprocessed⟩
    · intro _
      exact Leads.pure_same

variable {status : Status}

theorem answered_blocked {f : Fields} {events : List Event} (h : Blocked side start f events)
    (hstatus : status ≠ .continue) :
    Answered cfg side start status f events :=
  Or.inl ⟨h, hstatus⟩

theorem stop_answered (hstatus : status ≠ .continue) :
    Leads (T := T) (Calm side start) (pure status) (Answered cfg side start) := by
  apply Leads.pure
  intro f events h
  exact Or.inr ⟨h, fun hcontinue => absurd hcontinue hstatus⟩

theorem pass_answered :
    Leads (T := T) (fun f events => Calm side start f events ∧ MayPass cfg side start f events)
      (pure .continue) (Answered cfg side start) := by
  apply Leads.pure
  rintro f events ⟨hcalm, hpass⟩
  exact Or.inr ⟨hcalm, fun _ => hpass⟩

theorem handleBody_answered (hstatus : status ≠ .continue) :
    Leads (Calm side start)
      (do
        let ok ← handleBody coraza cfg env side
        return if ok then .continue else status)
      (Answered cfg side start) := by
  apply (handleBody_goesOn coraza cfg env).bind
  intro ok
  apply Leads.pure
  rintro f events ⟨hgoes, hprocessed⟩
  cases ok with
  | true => exact Or.inr ⟨hgoes, fun _ => by simp [MayPass, hprocessed rfl]⟩
  | false => exact answered_blocked cfg hgoes hstatus

theorem block_answered (interruption : Option Interruption) (phase : RulePhase) (reason : String)
    (hstatus : status ≠ .continue) :
    Leads (Unsent side start)
      (do
        blockRequest (T := T) cfg env interruption phase reason
        return status)
      (Answered cfg side start) :=
  block_return cfg env (fun _ _ h => h) (fun _ _ h => answered_blocked cfg h hstatus) _ _ _

theorem gate_answered {gate : Bool → Bool} {rest : Inspection T Status}
    (hgate : ∀ off, gate off = true →
      off = true ∨ cfg.mode.skips side = true ∨ start.bodyProcessed side = true)
    (hrest : Leads (Calm side start) rest (Answered cfg side start)) :
    Leads (Calm side start)
      (do
        let off ← isRuleEngineOff coraza
        if gate off then return .continue else rest)
      (Answered cfg side start) := by
  apply (isRuleEngineOff_calm coraza).bind
  intro off
  apply Leads.ite
  · intro hpassed
    apply (pass_answered cfg).strengthen
    rintro f events ⟨hcalm, hoff⟩
    refine ⟨hcalm, ?_⟩
    rcases hgate off hpassed with h | h | h
    · exact Or.inr (Or.inr (Or.inl (hoff h)))
    · exact Or.inr (Or.inl h)
    · exact Or.inr (Or.inr (Or.inr (Or.inl h)))
  · intro _
    exact hrest.strengthen fun f events h => h.1

theorem bodyGate {s : Live T} (hs : s.toFields = start) (off : Bool)
    (hpassed : (off || cfg.mode.skips side || s.bodyProcessed side) = true) :
    off = true ∨ cfg.mode.skips side = true ∨ start.bodyProcessed side = true := by
  rw [← hs]
  simpa [or_assoc] using hpassed

theorem released_answered {rest : Live T → Inspection T Status}
    (hrest : ∀ s : Live T, s.toFields = start →
      Leads (Calm side start) (rest s) (Answered cfg side start)) :
    Leads (fun f events => f = start ∧ events = [])
      (do
        let s ← Act.get
        if s.txReleased then return .continue else rest s)
      (Answered cfg side start) := by
  apply Leads.get_bind
  intro s
  apply Leads.pull (φ := s.toFields = start)
  · rintro f events ⟨rfl, rfl, -⟩
    rfl
  · intro hs
    have hcalm : ∀ f events, f = s.toFields ∧ f = start ∧ events = [] →
        Calm side start f events := by
      rintro f events ⟨-, rfl, rfl⟩
      exact Calm.refl side _
    apply Leads.ite
    · intro hreleased
      apply (pass_answered cfg).strengthen
      intro f events h
      refine ⟨hcalm f events h, Or.inl ?_⟩
      rw [← hs]
      exact hreleased
    · intro _
      exact (hrest s hs).strengthen hcalm

theorem onTrailers_answered :
    Leads (fun f events => f = start ∧ events = []) (onTrailers coraza cfg env side)
      (Answered cfg side start) := by
  apply released_answered cfg
  intro s hs
  apply gate_answered coraza cfg (bodyGate cfg hs)
  exact handleBody_answered coraza cfg env (by decide)

theorem bodyInspectable_calm (on : Side) :
    Leads (Calm side start) (bodyInspectable coraza on) fun _ => Calm side start := by
  have haccessible : ∀ x, Leads (Calm side start) (isBodyAccessible coraza x) fun _ =>
      Calm side start := by
    intro x
    apply Leads.weaken (Leads.ask_calm (fun _ => rfl) (fun _ => rfl))
    intro _ f events h
    exact h.1
  cases on with
  | request => exact haccessible .request
  | response =>
    apply (haccessible .response).bind
    intro accessible
    apply Leads.ite
    · intro _
      apply Leads.weaken (Leads.ask_calm (fun _ => rfl) (fun _ => rfl))
      intro _ f events h
      exact h.1
    · intro _
      exact Leads.pure_same

theorem enlarge_answered :
    Leads (T := T) (fun f events => Calm side start f events ∧ f.bodyProcessed side = true)
      (do
        enlargeBufferLimitIfNeeded env
        return .continue)
      (Answered cfg side start) := by
  apply (enlargeBufferLimitIfNeeded_calm env).bind
  intro _
  apply (pass_answered cfg).strengthen
  rintro f events ⟨hcalm, hprocessed⟩
  exact ⟨hcalm, by simp [MayPass, hprocessed]⟩

theorem onBody_answered (body : Option (List Bytes)) (endOfStream : Bool) :
    Leads (fun f events => f = start ∧ events = [])
      (onBody coraza cfg env side body endOfStream) (Answered cfg side start) := by
  apply released_answered cfg
  intro s hs
  apply gate_answered coraza cfg (bodyGate cfg hs)
  apply (bodyInspectable_calm coraza side).bind
  intro inspectable
  apply Leads.ite
  · intro _
    exact handleBody_answered coraza cfg env (by decide)
  · intro _
    apply (writeBody_goesOn coraza cfg env body).bind
    intro written
    apply Leads.get_bind
    intro s
    cases written with
    | false =>
      apply Leads.pure
      rintro f events ⟨-, h⟩
      exact answered_blocked cfg h (by decide)
    | true =>
      apply Leads.ite
      · intro h
        cases h
      · intro _
        apply Leads.ite
        · intro hprocessed
          apply (enlarge_answered cfg env).strengthen
          rintro f events ⟨rfl, hcalm⟩
          exact ⟨hcalm, hprocessed⟩
        · intro _
          apply Leads.strengthen (P := Calm side start)
          · apply Leads.ite
            · intro _
              apply (handleBody_goesOn coraza cfg env).bind
              intro ok
              cases ok with
              | true =>
                apply (enlarge_answered cfg env).strengthen
                rintro f events ⟨hcalm, hprocessed⟩
                exact ⟨hcalm, hprocessed rfl⟩
              | false =>
                apply Leads.pure
                rintro f events ⟨h, -⟩
                exact answered_blocked cfg h (by decide)
            · intro _
              exact stop_answered cfg (by decide)
          · rintro f events ⟨-, h⟩
            exact h

theorem headers_answered {method : T → Option Interruption × T}
    {call : Option Interruption → TxCall} {phase : RulePhase} {reason : String}
    {rest : Inspection T Status} (hinner : ∀ a, (Event.tx (call a)).inner = true)
    (hreports : (Event.tx (call none)).reports = false)
    (hrest : Leads (Calm side start) rest (Answered cfg side start)) :
    Leads (Calm side start)
      (do
        let interruption ← ask method call
        if interruption.isSome then
          blockRequest cfg env interruption phase reason
          return .stop
        else rest)
      (Answered cfg side start) := by
  have hask : Leads (Calm side start) (ask method call) fun interruption f events =>
      Unsent side start f events ∧ (interruption = none → Calm side start f events) := by
    apply Leads.ask
    intro f events interruption h
    refine ⟨h.toUnsent.append (hinner interruption) rfl, ?_⟩
    rintro rfl
    exact h.append (hinner none) rfl hreports
  apply hask.bind
  intro interruption
  apply Leads.ite
  · intro _
    apply (block_answered cfg env interruption phase reason (by decide)).strengthen
    intro f events h
    exact h.1
  · intro hnone
    apply hrest.strengthen
    intro f events h
    exact h.2 (by simpa using hnone)

theorem inspectRequestHeaders_answered (headers : HeaderMap) (endOfStream : Bool) :
    Leads (Calm .request start) (inspectRequestHeaders coraza cfg env headers endOfStream)
      (Answered cfg .request start) := by
  apply gate_answered
  · intro off hpassed
    simp only [Bool.or_eq_true] at hpassed
    exact hpassed.imp_right Or.inl
  · apply Leads.get_bind_same
    intro s
    have htell : ∀ {method : T → T} {call : TxCall} {rest : Unit → Inspection T Status},
        (Event.tx call).inner = true → (Event.tx call).reports = false →
        Leads (Calm .request start) (rest ()) (Answered cfg .request start) →
        Leads (Calm .request start) (tell method call >>= rest) (Answered cfg .request start) := by
      intro method call rest hinner hquiet hrest
      exact (tell_calm hinner hquiet).bind fun _ => hrest
    apply htell rfl rfl
    apply htell rfl rfl
    apply (addHeaders_calm coraza .request headers).bind
    intro _
    apply htell rfl rfl
    apply htell rfl rfl
    apply headers_answered cfg env (fun _ => rfl) rfl
    apply Leads.ite
    · intro _
      exact handleBody_answered coraza cfg env (by decide)
    · intro _
      exact stop_answered cfg (by decide)

theorem Calm.congr {f g : Fields} {events : List Event} (h : Calm side start f events)
    (hdone : g.txDone = f.txDone) (hreleased : g.txReleased = f.txReleased)
    (hbody : ∀ x, g.bodyProcessed x = f.bodyProcessed x) : Calm side start g events where
  inner := h.inner
  txDone := hdone.trans h.txDone
  txReleased := hreleased.trans h.txReleased
  other x hx := (hbody x).trans (h.other x hx)
  unsent := h.unsent
  unreported := h.unreported
  ran hg := h.ran ((hbody side).symm.trans hg)

theorem onResponseHeaders_answered (headers : HeaderMap) (endOfStream : Bool) :
    Leads (fun f events => f = start ∧ events = [])
      (onResponseHeaders coraza cfg env headers endOfStream) (Answered cfg .response start) := by
  apply released_answered cfg
  intro s hs
  apply gate_answered
  · intro off hpassed
    simp only [Bool.or_eq_true] at hpassed
    exact hpassed.imp_right Or.inl
  · have hmodify : ∀ {g : Live T → Live T}, (∀ s, (g s).txDone = s.txDone) →
        (∀ s, (g s).txReleased = s.txReleased) →
        (∀ s x, (g s).bodyProcessed x = s.bodyProcessed x) →
        Leads (Calm .response start) (Act.modify g) fun _ => Calm .response start := by
      intro g hdone hreleased hbody
      apply Leads.modify
      intro s events h
      exact h.congr (hdone s) (hreleased s) (hbody s)
    refine Leads.bind (Q := fun _ => Calm .response start)
      (hmodify (fun _ => rfl) (fun _ => rfl) fun _ x => by cases x <;> rfl) fun _ => ?_
    apply (addHeaders_calm coraza .response headers).bind
    intro _
    refine Leads.bind (Q := fun _ => Calm .response start)
      (hmodify (fun _ => rfl) (fun _ => rfl) fun _ x => by cases x <;> rfl) fun _ => ?_
    dsimp only
    cases atoi (if getOne headers ":status" = "" then "500" else getOne headers ":status") with
    | none =>
      apply (block_answered cfg env none .responseHeaders "waf_internal_error"
        (by decide)).strengthen
      intro f events h
      exact h.toUnsent
    | some code =>
      apply Leads.get_bind_same
      intro s
      apply headers_answered cfg env (fun _ => rfl) rfl
      apply Leads.ite
      · intro _
        exact handleBody_answered coraza cfg env (by decide)
      · intro _
        exact stop_answered cfg (by decide)

end

namespace Callback

def side : Callback → Side
  | requestHeaders _ _ _ => .request
  | requestBody _ _ _ => .request
  | requestTrailers _ => .request
  | responseHeaders _ _ _ => .response
  | responseBody _ _ _ => .response
  | responseTrailers _ => .response

def env : Callback → Environment
  | requestHeaders env _ _ => env
  | requestBody env _ _ => env
  | requestTrailers env => env
  | responseHeaders env _ _ => env
  | responseBody env _ _ => env
  | responseTrailers env => env

def isRequestHeaders : Callback → Bool
  | requestHeaders _ _ _ => true
  | _ => false

variable {T : Type} (coraza : Coraza T) (cfg : Settings)

/-- What the callback does once there is a transaction. -/
def inspection : Callback → Inspection T Status
  | requestHeaders env headers endOfStream =>
    inspectRequestHeaders coraza cfg env headers endOfStream
  | requestBody env body endOfStream => onRequestBody coraza cfg env body endOfStream
  | requestTrailers env => onRequestTrailers coraza cfg env
  | responseHeaders env headers endOfStream =>
    onResponseHeaders coraza cfg env headers endOfStream
  | responseBody env body endOfStream => onResponseBody coraza cfg env body endOfStream
  | responseTrailers env => onResponseTrailers coraza cfg env

theorem inspection_answered (cb : Callback) (s : Live T) :
    Answered cfg cb.side s.toFields (cb.inspection coraza cfg s).1
      (cb.inspection coraza cfg s).2.1.toFields (cb.inspection coraza cfg s).2.2 := by
  have hall : Leads (fun f events => f = s.toFields ∧ events = []) (cb.inspection coraza cfg)
      (Answered cfg cb.side s.toFields) := by
    cases cb with
    | requestHeaders env headers endOfStream =>
      apply (inspectRequestHeaders_answered coraza cfg env headers endOfStream).strengthen
      rintro f events ⟨rfl, rfl⟩
      exact Calm.refl .request _
    | requestBody env body endOfStream => exact onBody_answered coraza cfg env body endOfStream
    | requestTrailers env => exact onTrailers_answered coraza cfg env
    | responseHeaders env headers endOfStream =>
      exact onResponseHeaders_answered coraza cfg env headers endOfStream
    | responseBody env body endOfStream => exact onBody_answered coraza cfg env body endOfStream
    | responseTrailers env => exact onTrailers_answered coraza cfg env
  exact hall s [] ⟨rfl, rfl⟩

end Callback

theorem Answered.progress {cfg : Settings} {side : Side} {start now : Fields} {status : Status}
    {events : List Event} (h : Answered cfg side start status now events) :
    Progress side start now events := by
  rcases h with ⟨h, -⟩ | ⟨h, -⟩
  · exact h.toProgress
  · exact h.toProgress

/-- The fields that the assertions speak of. -/
structure SameFlags (f g : Fields) : Prop where
  txDone : f.txDone = g.txDone
  txReleased : f.txReleased = g.txReleased
  body : ∀ x, f.bodyProcessed x = g.bodyProcessed x

section

variable {T : Type} (coraza : Coraza T) (cfg : Settings) {p : WafPlugin T} {cb : Callback}

/-- Without a transaction, every callback but the first headers passes through. -/
theorem handle_none (hp : p.txContext = none) (hcb : cb.isRequestHeaders = false) :
    handle coraza cfg p cb = ⟨.continue, p, []⟩ := by
  cases cb with
  | requestHeaders env headers endOfStream => cases hcb
  | _ => simp [handle, withTransaction, hp]

theorem handle_some (cb : Callback) {t : T} (hp : p.txContext = some t) :
    ∃ s : Live T, SameFlags s.toFields p.toFields ∧
      handle coraza cfg p cb = deferred coraza cfg cb.env (cb.inspection coraza cfg) s := by
  cases cb with
  | requestHeaders env headers endOfStream =>
    refine ⟨(initializeTransaction coraza cfg headers { p with
      protocol := getRequestProtocol env
      authority := hostAuthority (getOne headers ":authority") }).1, ?_, ?_⟩
    · simp only [initializeTransaction, hp]
      exact ⟨rfl, rfl, fun x => by cases x <;> rfl⟩
    · simp [handle, onRequestHeaders, initializeTransaction, hp, Callback.env,
        Callback.inspection]
  | _ =>
    refine ⟨{ p with tx := t }, ⟨rfl, rfl, fun _ => rfl⟩, ?_⟩
    simp [handle, withTransaction, hp, Callback.env, Callback.inspection]

theorem handle_first (hp : p.txContext = none) (hcb : cb.isRequestHeaders = true) :
    ∃ (s : Live T) (id : String), SameFlags s.toFields p.toFields ∧
      handle coraza cfg p cb =
        let r := deferred coraza cfg cb.env (cb.inspection coraza cfg) s
        { r with events :=
            .newTransaction id :: record cfg.metrics.txActive (.txActive 1) ++ r.events } := by
  cases cb with
  | requestHeaders env headers endOfStream =>
    refine ⟨(initializeTransaction coraza cfg headers { p with
      protocol := getRequestProtocol env
      authority := hostAuthority (getOne headers ":authority") }).1,
      getOne headers "x-request-id", ?_, ?_⟩
    · simp only [initializeTransaction, hp]
      exact ⟨rfl, rfl, fun x => by cases x <;> rfl⟩
    · simp [handle, onRequestHeaders, initializeTransaction, hp, Callback.env,
        Callback.inspection]
  | _ => cases hcb

end

end BuiltOnEnvoy.Waf
