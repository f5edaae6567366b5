import BuiltOnEnvoy.Foundations.Acts
import BuiltOnEnvoy.Foundations.Bytes

/-!
# Coraza transactions

The interface of a Coraza transaction as the filter uses it, over any type of
transaction states: every method gives an answer and the next state, the
getters too. The calls the filter makes are recorded as events, with the calls
on the filter handle and on the metrics. Log calls are left out.
-/

namespace BuiltOnEnvoy.Waf

open Foundations

/-- The half of the exchange a callback belongs to. -/
inductive Side
  | request
  | response
  deriving DecidableEq

structure Interruption where
  ruleID : ℤ
  status : ℤ
  deriving DecidableEq

/-- The answer of `WriteRequestBody` and `WriteResponseBody`. -/
structure WriteAnswer where
  interruption : Option Interruption
  writtenBytes : ℤ
  err : Option String
  deriving DecidableEq

/-- The answer of `ProcessRequestBody` and `ProcessResponseBody`. -/
structure BodyAnswer where
  interruption : Option Interruption
  err : Option String
  deriving DecidableEq

structure Coraza (T : Type) where
  newTransactionWithID : String → T
  isRuleEngineOff : T → Bool × T
  isInterrupted : T → Bool × T
  isBodyAccessible : Side → T → Bool × T
  isResponseBodyProcessable : T → Bool × T
  setServerName : String → T → T
  addHeader : Side → String → String → T → T
  processConnection : String → ℤ → String → ℤ → T → T
  processURI : String → String → String → T → T
  processRequestHeaders : T → Option Interruption × T
  processResponseHeaders : ℤ → String → T → Option Interruption × T
  writeBody : Side → Bytes → T → WriteAnswer × T
  processBody : Side → T → BodyAnswer × T
  processLogging : T → T
  close : T → Option String × T

/-- The getters that `trackAndMarkTxDone` repeats do not change the transaction. -/
structure Coraza.Steady {T : Type} (coraza : Coraza T) : Prop where
  isInterrupted : ∀ t, (coraza.isInterrupted t).2 = t
  isRuleEngineOff : ∀ t, (coraza.isRuleEngineOff t).2 = t

/-- Transactions that are interrupted by a body chunk `attack`; their state says
whether they were. -/
def attackCoraza : Coraza Bool where
  newTransactionWithID _ := false
  isRuleEngineOff t := (false, t)
  isInterrupted t := (t, t)
  isBodyAccessible _ t := (true, t)
  isResponseBodyProcessable t := (true, t)
  setServerName _ t := t
  addHeader _ _ _ t := t
  processConnection _ _ _ _ t := t
  processURI _ _ _ t := t
  processRequestHeaders t := (none, t)
  processResponseHeaders _ _ t := (none, t)
  writeBody _ data t :=
    if data = ascii "attack" then (⟨some ⟨1001, 403⟩, 0, none⟩, true)
    else (⟨none, data.length, none⟩, t)
  processBody _ t := (⟨none, none⟩, t)
  processLogging t := t
  close t := (none, t)

theorem attackCoraza_steady : attackCoraza.Steady := ⟨fun _ => rfl, fun _ => rfl⟩

/-- A method call on the transaction, with its answer. -/
inductive TxCall
  | isRuleEngineOff (answer : Bool)
  | isInterrupted (answer : Bool)
  | isBodyAccessible (side : Side) (answer : Bool)
  | isResponseBodyProcessable (answer : Bool)
  | setServerName (name : String)
  | addHeader (side : Side) (key value : String)
  | processConnection (client : String) (clientPort : ℤ) (server : String) (serverPort : ℤ)
  | processURI (uri method protocol : String)
  | processRequestHeaders (answer : Option Interruption)
  | processResponseHeaders (code : ℤ) (protocol : String) (answer : Option Interruption)
  | writeBody (side : Side) (data : Bytes) (answer : WriteAnswer)
  | processBody (side : Side) (answer : BodyAnswer)
  | processLogging
  | close (err : Option String)
  deriving DecidableEq

inductive RulePhase
  | requestHeaders
  | requestBody
  | responseHeaders
  | responseBody
  deriving DecidableEq

def RulePhase.toInt : RulePhase → ℤ
  | requestHeaders => 1
  | requestBody => 2
  | responseHeaders => 3
  | responseBody => 4

inductive Event
  | newTransaction (id : String)
  | tx (call : TxCall)
  /-- The gauge `waf_tx_active`. -/
  | txActive (change : ℤ)
  | txTotal
  | txDuration (microseconds : ℕ)
  | txBlocked (tags : List String)
  | setMetadata (key : String) (value : ℤ)
  | sendLocalResponse (status : ℕ) (reason : String)
  | setBufferLimit (limit : UInt64)
  deriving DecidableEq

namespace Event

def isTx : Event → Bool
  | tx _ => true
  | _ => false

def isNew : Event → Bool
  | newTransaction _ => true
  | _ => false

def isClose : Event → Bool
  | tx (.close _) => true
  | _ => false

def isTotal : Event → Bool
  | txTotal => true
  | _ => false

def isDuration : Event → Bool
  | txDuration _ => true
  | _ => false

def isLocalResponse : Event → Bool
  | sendLocalResponse _ _ => true
  | _ => false

def gaugeChange : Event → ℤ
  | txActive change => change
  | _ => 0

/-- A header-processing, body-write or body-processing call that reports an
interruption or an error. -/
def reports : Event → Bool
  | tx (.processRequestHeaders answer) => answer.isSome
  | tx (.processResponseHeaders _ _ answer) => answer.isSome
  | tx (.writeBody _ _ answer) => answer.err.isSome || answer.interruption.isSome
  | tx (.processBody _ answer) => answer.err.isSome || answer.interruption.isSome
  | _ => false

/-- A call that ran the body phase of the side without a report: the processing
of the body, or a write that fell short because it hit the body limit. -/
def runsBody (side : Side) : Event → Bool
  | tx (.processBody s answer) => s = side && answer.err.isNone && answer.interruption.isNone
  | tx (.writeBody s data answer) =>
    s = side && answer.err.isNone && answer.interruption.isNone &&
      answer.writtenBytes < data.length
  | _ => false

/-- An event of a callback's inspection: nothing that opens, closes or counts
the transaction. -/
def inner : Event → Bool
  | newTransaction _ => false
  | tx (.close _) => false
  | txActive _ => false
  | txTotal => false
  | txDuration _ => false
  | _ => true

end Event

end BuiltOnEnvoy.Waf
