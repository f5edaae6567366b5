import BuiltOnEnvoy.Foundations.LineStream

/-!
# Server-sent events

The two loops in which the decoders and the proxy read a streamed response.
The OpenAI loop takes `data:` lines alone and returns at the `[DONE]` marker.
The Anthropic loop pairs every `data:` line with the last `event:` line; the
`message_stop` event sets the done flag and the loop goes on.
-/

namespace BuiltOnEnvoy.Sse

open Foundations

def sseEventPrefix : Bytes := ascii "event: "

def sseDataPrefix : Bytes := ascii "data: "

/-- What the Anthropic loop makes of a line. -/
inductive Line
  | event (type : Bytes)
  | data (payload : Bytes)
  | other
  deriving DecidableEq

def Line.ofBytes (raw : Bytes) : Line :=
  let line := trimSpace raw
  match afterPrefix sseEventPrefix line with
  | some type => .event type
  | none =>
    match afterPrefix sseDataPrefix line with
    | some payload => .data payload
    | none => .other

/-- The event types that some handler looks at. -/
inductive EventType
  | messageStart
  | contentBlockStart
  | contentBlockDelta
  | messageDelta
  | messageStop
  | other
  deriving DecidableEq

def EventType.ofBytes (type : Bytes) : EventType :=
  if type = ascii "message_start" then .messageStart
  else if type = ascii "content_block_start" then .contentBlockStart
  else if type = ascii "content_block_delta" then .contentBlockDelta
  else if type = ascii "message_delta" then .messageDelta
  else if type = ascii "message_stop" then .messageStop
  else .other

section

variable {α ε ω : Type*}

structure EventReader (α : Type*) where
  done : Bool
  /-- The type of the last `event:` line that no `data:` line has used. -/
  currentEvent : Bytes
  acc : α

variable (processEvent : α → EventType → Bytes → Option ε × α)

/-- One turn of the loop, for a handler of the events other than
`message_stop`. A handler that fails leaves the event type in place. -/
def eventStep (r : EventReader α) (raw : Bytes) : Verdict (EventReader α) ε :=
  match Line.ofBytes raw with
  | .event type => .next { r with currentEvent := type }
  | .other => .next r
  | .data payload =>
    match EventType.ofBytes r.currentEvent with
    | .messageStop => .next { r with done := true, currentEvent := [] }
    | type =>
      match processEvent r.acc type payload with
      | (none, acc) => .next { r with acc := acc, currentEvent := [] }
      | (some e, acc) => .fail e { r with acc := acc }

variable {processEvent} {r : EventReader α} {raw payload : Bytes}

theorem eventStep_stop (hline : Line.ofBytes raw = .data payload)
    (htype : EventType.ofBytes r.currentEvent = .messageStop) :
    eventStep processEvent r raw = .next { r with done := true, currentEvent := [] } := by
  simp [eventStep, hline, htype]

theorem eventStep_data (hline : Line.ofBytes raw = .data payload)
    (htype : EventType.ofBytes r.currentEvent ≠ .messageStop) :
    eventStep processEvent r raw =
      match processEvent r.acc (EventType.ofBytes r.currentEvent) payload with
      | (none, acc) => .next { r with acc := acc, currentEvent := [] }
      | (some e, acc) => .fail e { r with acc := acc } := by
  unfold eventStep
  rw [hline]
  cases hevent : EventType.ofBytes r.currentEvent <;> simp_all

variable (processEvent)

theorem eventStep_not_halt (r r' : EventReader α) (raw : Bytes) :
    eventStep processEvent r raw ≠ .halt r' := by
  cases hline : Line.ofBytes raw with
  | event type | other => simp [eventStep, hline]
  | data payload =>
    by_cases htype : EventType.ofBytes r.currentEvent = .messageStop
    · simp [eventStep_stop hline htype]
    · rw [eventStep_data hline htype]
      split <;> simp

def eventMachine : LineMachine (EventReader α) ε where
  step := eventStep processEvent
  done := EventReader.done
  halt_done h := absurd h (eventStep_not_halt _ _ _ _)

variable {processEvent}

theorem eventStep_done {r' : EventReader α} (hdone : r.done = true)
    (hstep : eventStep processEvent r raw = .next r') : r'.done = true := by
  cases hline : Line.ofBytes raw with
  | event type =>
    simp only [eventStep, hline, Verdict.next.injEq] at hstep
    rw [← hstep]
    exact hdone
  | other =>
    simp only [eventStep, hline, Verdict.next.injEq] at hstep
    rw [← hstep]
    exact hdone
  | data payload =>
    by_cases htype : EventType.ofBytes r.currentEvent = .messageStop
    · rw [eventStep_stop hline htype] at hstep
      cases hstep
      rfl
    · rw [eventStep_data hline htype] at hstep
      split at hstep
      · cases hstep
        exact hdone
      · cases hstep

/-- A line is quiet when it carries no event, the stop event, or one that is
quiet for what has been accumulated. -/
def QuietLine (quiet : α → EventType → Bytes → Prop) (r : EventReader α) (raw : Bytes) : Prop :=
  ∀ payload, Line.ofBytes raw = .data payload →
    EventType.ofBytes r.currentEvent ≠ .messageStop →
      quiet r.acc (EventType.ofBytes r.currentEvent) payload

attribute [local simp] QuietLine Verdict.ending

/-- The cuts of a stream are not seen exactly when every event that follows
the stop event is a quiet one. -/
theorem eventMachine_chunkingInvariant_iff {quiet : α → EventType → Bytes → Prop}
    {observe : Option ε × α → ω}
    (hquiet : ∀ acc type payload, quiet acc type payload ↔
      observe (processEvent acc type payload) = observe (none, acc))
    (acc : α) (stream : Bytes) :
    (eventMachine processEvent).ChunkingInvariant (fun p => observe (p.1, p.2.acc))
        ⟨false, [], acc⟩ stream ↔
      (eventMachine processEvent).Settled (QuietLine quiet) ⟨false, [], acc⟩ (lines stream) := by
  apply LineMachine.chunkingInvariant_iff_settled
  · intro r raw r' hdone hstep
    exact eventStep_done hdone hstep
  · intro r raw _
    change _ ↔ observe ((eventStep processEvent r raw).ending.1,
      (eventStep processEvent r raw).ending.2.acc) = observe (none, r.acc)
    cases hline : Line.ofBytes raw with
    | event type | other => simp [eventStep, hline]
    | data payload =>
      by_cases htype : EventType.ofBytes r.currentEvent = .messageStop
      · simp [eventStep_stop hline htype, htype]
      · have hending : ((eventStep processEvent r raw).ending.1,
            (eventStep processEvent r raw).ending.2.acc) =
            processEvent r.acc (EventType.ofBytes r.currentEvent) payload := by
          rw [eventStep_data hline htype]
          rcases processEvent r.acc (EventType.ofBytes r.currentEvent) payload with ⟨_ | e, acc⟩
          · rfl
          · rfl
        rw [hending, ← hquiet]
        simp [hline, htype]
  · rfl

abbrev Event := EventType × Bytes

/-- The events in the lines, after an `event:` line of the given type. -/
def events (currentEvent : Bytes) : List Bytes → List Event
  | [] => []
  | raw :: rest =>
    match Line.ofBytes raw with
    | .event type => events type rest
    | .other => events currentEvent rest
    | .data payload => (EventType.ofBytes currentEvent, payload) :: events [] rest

variable (processEvent)

/-- The handler on a sequence of events, up to the first one that fails. -/
def handleAll : α → List Event → Option ε × α
  | acc, [] => (none, acc)
  | acc, (type, payload) :: rest =>
    if type = .messageStop then handleAll acc rest
    else
      match processEvent acc type payload with
      | (none, acc) => handleAll acc rest
      | (some e, acc) => (some e, acc)

theorem runLines_events (r : EventReader α) (ls : List Bytes) :
    (((eventMachine processEvent).runLines r ls).ending.1,
        ((eventMachine processEvent).runLines r ls).ending.2.acc) =
      handleAll processEvent r.acc (events r.currentEvent ls) := by
  induction ls generalizing r with
  | nil => rfl
  | cons raw ls ih =>
    cases hline : Line.ofBytes raw with
    | event type =>
      have hstep : (eventMachine processEvent).step r raw =
          .next { r with currentEvent := type } := by
        simp [eventMachine, eventStep, hline]
      rw [LineMachine.runLines_next hstep, ih, events, hline]
    | other =>
      have hstep : (eventMachine processEvent).step r raw = .next r := by
        simp [eventMachine, eventStep, hline]
      rw [LineMachine.runLines_next hstep, ih, events, hline]
    | data payload =>
      simp only [events, hline, handleAll]
      by_cases htype : EventType.ofBytes r.currentEvent = .messageStop
      · have hstep : (eventMachine processEvent).step r raw =
            .next { r with done := true, currentEvent := [] } := eventStep_stop hline htype
        rw [LineMachine.runLines_next hstep, ih, if_pos htype]
      · have hstep := @eventStep_data _ _ processEvent _ _ _ hline htype
        rw [if_neg htype]
        rcases hprocess : processEvent r.acc (EventType.ofBytes r.currentEvent) payload with
          ⟨_ | e, acc⟩
        · rw [hprocess] at hstep
          rw [@LineMachine.runLines_next _ _ (eventMachine processEvent) _ _ _ hstep, ih]
        · rw [hprocess] at hstep
          rw [@LineMachine.runLines_fail _ _ (eventMachine processEvent) _ _ _ _ hstep]
          rfl

theorem result_events (acc : α) (stream : Bytes) :
    (((eventMachine processEvent).result ⟨false, [], acc⟩ [stream]).1,
        ((eventMachine processEvent).result ⟨false, [], acc⟩ [stream]).2.acc) =
      handleAll processEvent acc (events [] (lines stream)) := by
  rw [LineMachine.result_whole rfl]
  exact runLines_events processEvent ⟨false, [], acc⟩ (lines stream)

end

section

variable {α ε ω : Type*}

structure DataReader (α : Type*) where
  done : Bool
  acc : α

variable (processChunk : α → Bytes → Option ε × α)

/-- One turn of the loop, for a handler of the payloads other than `[DONE]`. -/
def dataStep (r : DataReader α) (raw : Bytes) : Verdict (DataReader α) ε :=
  match afterPrefix sseDataPrefix (trimSpace raw) with
  | none => .next r
  | some payload =>
    if payload = ascii "[DONE]" then .halt { r with done := true }
    else
      match processChunk r.acc payload with
      | (none, acc) => .next { r with acc := acc }
      | (some e, acc) => .fail e { r with acc := acc }

theorem dataStep_done (r : DataReader α) (raw : Bytes) :
    match dataStep processChunk r raw with
    | .next r' => r'.done = r.done
    | .halt r' => r'.done = true
    | .fail _ r' => r'.done = r.done := by
  unfold dataStep
  cases afterPrefix sseDataPrefix (trimSpace raw) with
  | none => rfl
  | some payload =>
    by_cases hmarker : payload = ascii "[DONE]"
    · simp only [if_pos hmarker]
    · simp only [if_neg hmarker]
      rcases processChunk r.acc payload with ⟨_ | e, acc⟩
      · rfl
      · rfl

def dataMachine : LineMachine (DataReader α) ε where
  step := dataStep processChunk
  done := DataReader.done
  halt_done {r raw r'} h := by
    have hdone := dataStep_done processChunk r raw
    rwa [h] at hdone

theorem dataMachine_chunkingInvariant (observe : Option ε × α → ω) (acc : α)
    (stream : Bytes) :
    (dataMachine processChunk).ChunkingInvariant (fun p => observe (p.1, p.2.acc))
      ⟨false, acc⟩ stream := by
  apply LineMachine.chunkingInvariant_of_halts
  · rfl
  · intro r raw r' hdone hstep
    have hkept := dataStep_done processChunk r raw
    change dataStep processChunk r raw = .next r' at hstep
    rw [hstep] at hkept
    exact hkept.trans hdone

/-- A handler on values one after another, up to the first one that fails. -/
def handleEach {β : Type*} (process : α → β → Option ε × α) : α → List β → Option ε × α
  | acc, [] => (none, acc)
  | acc, b :: bs =>
    match process acc b with
    | (none, acc) => handleEach process acc bs
    | (some e, acc) => (some e, acc)

theorem handleEach_eq_foldl {β : Type*} {process : α → β → Option ε × α}
    (hok : ∀ acc b, (process acc b).1 = none) (acc : α) (bs : List β) :
    handleEach process acc bs = (none, bs.foldl (fun acc b => (process acc b).2) acc) := by
  induction bs generalizing acc with
  | nil => rfl
  | cons b bs ih =>
    have hnone := hok acc b
    rw [handleEach, List.foldl_cons]
    rcases hprocess : process acc b with ⟨_ | e, acc'⟩
    · exact ih acc'
    · rw [hprocess] at hnone
      cases hnone

/-- The payloads of the `data:` lines before the `[DONE]` marker. -/
def payloads : List Bytes → List Bytes
  | [] => []
  | raw :: rest =>
    match afterPrefix sseDataPrefix (trimSpace raw) with
    | none => payloads rest
    | some payload => if payload = ascii "[DONE]" then [] else payload :: payloads rest

theorem runLines_chunks (r : DataReader α) (ls : List Bytes) :
    (((dataMachine processChunk).runLines r ls).ending.1,
        ((dataMachine processChunk).runLines r ls).ending.2.acc) =
      handleEach processChunk r.acc (payloads ls) := by
  induction ls generalizing r with
  | nil => rfl
  | cons raw ls ih =>
    simp only [LineMachine.runLines, dataMachine, dataStep, payloads]
    cases afterPrefix sseDataPrefix (trimSpace raw) with
    | none => exact ih r
    | some payload =>
      by_cases hmarker : payload = ascii "[DONE]"
      · simp only [if_pos hmarker]
        rfl
      · simp only [if_neg hmarker, handleEach]
        rcases processChunk r.acc payload with ⟨_ | e, acc⟩
        · exact ih { r with acc := acc }
        · rfl

theorem result_chunks (acc : α) (stream : Bytes) :
    (((dataMachine processChunk).result ⟨false, acc⟩ [stream]).1,
        ((dataMachine processChunk).result ⟨false, acc⟩ [stream]).2.acc) =
      handleEach processChunk acc (payloads (lines stream)) := by
  rw [LineMachine.result_whole rfl]
  exact runLines_chunks processChunk ⟨false, acc⟩ (lines stream)

variable {processChunk}

theorem result_payloads (hok : ∀ acc payload, (processChunk acc payload).1 = none) (acc : α)
    (pieces : List Bytes) :
    ((dataMachine processChunk).result ⟨false, acc⟩ pieces).2.acc =
      (payloads (lines pieces.flatten)).foldl (fun acc payload => (processChunk acc payload).2)
        acc := by
  have hsame := dataMachine_chunkingInvariant processChunk Prod.snd acc pieces.flatten pieces
    [pieces.flatten] rfl (by simp)
  have hchunks := congrArg Prod.snd (result_chunks processChunk acc pieces.flatten)
  dsimp only at hsame hchunks
  rw [hsame, hchunks, handleEach_eq_foldl hok]

end

end BuiltOnEnvoy.Sse
