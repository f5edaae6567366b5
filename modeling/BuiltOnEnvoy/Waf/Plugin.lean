import BuiltOnEnvoy.Waf.Transaction
import BuiltOnEnvoy.Foundations.TextParsing

/-!
# The WAF filter

The callbacks of one stream. A callback runs its inspection on the transaction
and then, deferred, `trackAndMarkTxDone`. The functions for the request and the
response body are one, by the side they are about.
-/

namespace BuiltOnEnvoy.Waf

open Foundations

inductive WafMode
  | requestOnly
  | full
  | responseOnly
  deriving DecidableEq

/-- The mode leaves a side uninspected. -/
def WafMode.skips : WafMode → Side → Bool
  | .responseOnly, .request => true
  | .requestOnly, .response => true
  | _, _ => false

inductive LabelSource
  | authority
  | routeName
  | virtualHostName
  deriving DecidableEq

structure AuthorityLabel where
  disabled : Bool
  source : LabelSource

/-- The metrics that could be defined, and the authority tag. -/
structure Metrics where
  authority : AuthorityLabel
  txTotal : Bool
  txBlocked : Bool
  txDuration : Bool
  txActive : Bool

structure Settings where
  mode : WafMode
  requestURIPathOnly : Bool
  metrics : Metrics

abbrev HeaderMap := List (String × String)

def getOne (headers : HeaderMap) (key : String) : String :=
  match headers.find? (·.1 == key) with
  | some h => h.2
  | none => ""

/-- What a callback can read from the filter handle, and the time it takes. -/
structure Environment where
  requestProtocol : String
  sourceAddress : String
  routeName : Option String
  virtualHostName : Option String
  receivedBuffered : Bool
  bufferLimit : UInt64
  bufferedSize : UInt64
  receivedSize : UInt64
  /-- In nanoseconds. -/
  took : ℕ

/-- The fields of the filter other than the transaction. -/
structure Fields where
  wafElapsed : ℕ
  txDone : Bool
  txReleased : Bool
  protocol : String
  isUpgrade : Bool
  isSSE : Bool
  requestBodyProcessed : Bool
  responseBodyProcessed : Bool
  authority : String

structure WafPlugin (T : Type) extends Fields where
  txContext : Option T

/-- The filter while it has a transaction. -/
structure Live (T : Type) extends Fields where
  tx : T

def Fields.bodyProcessed (f : Fields) : Side → Bool
  | .request => f.requestBodyProcessed
  | .response => f.responseBodyProcessed

def Live.markProcessed {T : Type} (s : Live T) : Side → Live T
  | .request => { s with requestBodyProcessed := true }
  | .response => { s with responseBodyProcessed := true }

abbrev Inspection (T : Type) : Type → Type := Act (Live T) Event

section

variable {T α : Type}

/-- A method call on the transaction. -/
def ask (method : T → α × T) (call : α → TxCall) : Inspection T α := fun s =>
  ((method s.tx).1, { s with tx := (method s.tx).2 }, [.tx (call (method s.tx).1)])

def tell (method : T → T) (call : TxCall) : Inspection T Unit :=
  ask (fun t => ((), method t)) fun _ => call

variable (coraza : Coraza T)

def isRuleEngineOff : Inspection T Bool := ask coraza.isRuleEngineOff .isRuleEngineOff

def isInterrupted : Inspection T Bool := ask coraza.isInterrupted .isInterrupted

def isBodyAccessible (side : Side) : Inspection T Bool :=
  ask (coraza.isBodyAccessible side) (.isBodyAccessible side)

def isResponseBodyProcessable : Inspection T Bool :=
  ask coraza.isResponseBodyProcessable .isResponseBodyProcessable

def addHeader (side : Side) (header : String × String) : Inspection T Unit :=
  tell (coraza.addHeader side header.1 header.2) (.addHeader side header.1 header.2)

def addHeaders (side : Side) : HeaderMap → Inspection T Unit
  | [] => pure ()
  | header :: rest => do
    addHeader coraza side header
    addHeaders side rest

def processRequestHeaders : Inspection T (Option Interruption) :=
  ask coraza.processRequestHeaders .processRequestHeaders

def processResponseHeaders (code : ℤ) (protocol : String) :
    Inspection T (Option Interruption) :=
  ask (coraza.processResponseHeaders code protocol) (.processResponseHeaders code protocol)

end

section

variable (cfg : Settings) (env : Environment)

/-- A metric that could not be defined is not recorded. -/
def record (enabled : Bool) (event : Event) : List Event := if enabled then [event] else []

def AuthorityLabel.value (a : AuthorityLabel) (requestAuthority : String) : String :=
  let orUnresolved : Option String → String
    | some v => if v ≠ "" then v else "unresolved"
    | none => "unresolved"
  match a.source with
  | .routeName => orUnresolved env.routeName
  | .virtualHostName => orUnresolved env.virtualHostName
  | .authority => requestAuthority

def AuthorityLabel.tags (a : AuthorityLabel) (requestAuthority : String) (rest : List String) :
    List String :=
  if a.disabled then rest else a.value env requestAuthority :: rest

def blockEvents (authority : String) (interruption : Option Interruption) (phase : RulePhase)
    (reason : String) : List Event :=
  let blocked (ruleID : String) := record cfg.metrics.txBlocked
    (.txBlocked (cfg.metrics.authority.tags env authority [toString phase.toInt, ruleID]))
  match interruption with
  | none =>
    blocked "" ++ [.setMetadata "block_phase" phase.toInt, .sendLocalResponse 500 reason]
  | some i =>
    let status := if i.status = 0 then 403 else i.status
    blocked (toString i.ruleID) ++
      [.setMetadata "block_rule" i.ruleID, .setMetadata "block_phase" phase.toInt,
        .sendLocalResponse (status % 2 ^ 32).toNat reason]

def blockRequest {T : Type} (interruption : Option Interruption) (phase : RulePhase)
    (reason : String) : Inspection T Unit := do
  let s ← Act.get
  Act.emit (blockEvents cfg env s.authority interruption phase reason)

end

section

variable {T : Type} (coraza : Coraza T) (cfg : Settings) (env : Environment)

def bodyPhase : Side → RulePhase
  | .request => .requestBody
  | .response => .responseBody

def bodyBlocked : Side → String
  | .request => "waf_request_body_blocked"
  | .response => "waf_response_body_blocked"

def bodyOverflow : Side → String
  | .request => "waf_request_body_overflow"
  | .response => "waf_response_body_overflow"

/-- The status of the interruption when the body limit rejects a body. -/
def overflowStatus : Side → ℤ
  | .request => 413
  | .response => 500

def handleBody (side : Side) : Inspection T Bool := do
  Act.modify fun s => s.markProcessed side
  let answer ← ask (coraza.processBody side) (.processBody side)
  if answer.err.isSome then
    blockRequest cfg env none (bodyPhase side) "waf_internal_error"
    return false
  else if answer.interruption.isSome then
    blockRequest cfg env answer.interruption (bodyPhase side) (bodyBlocked side)
    return false
  else return true

def writeChunks (side : Side) : List Bytes → Inspection T Bool
  | [] => pure true
  | chunk :: rest => do
    let answer ← ask (coraza.writeBody side chunk) (.writeBody side chunk)
    if answer.err.isSome then
      blockRequest cfg env none (bodyPhase side) "waf_internal_error"
      return false
    else if answer.interruption.isSome then
      let overflow := answer.interruption.any fun i => i.status = overflowStatus side
      blockRequest cfg env answer.interruption (bodyPhase side)
        (if overflow then bodyOverflow side else bodyBlocked side)
      return false
    else if answer.writtenBytes < chunk.length then
      -- the write hit the body limit and ran the body phase without a match
      Act.modify fun s => s.markProcessed side
      return true
    else writeChunks side rest

def writeBody (side : Side) (body : Option (List Bytes)) : Inspection T Bool :=
  match body with
  | none => pure true
  | some chunks => writeChunks coraza cfg env side chunks

def handleRequestBody : Inspection T Bool := handleBody coraza cfg env .request

def handleResponseBody : Inspection T Bool := handleBody coraza cfg env .response

def enlargeBufferLimitIfNeeded : Inspection T Unit :=
  let total := env.bufferedSize + env.receivedSize
  if env.receivedBuffered then pure ()
  else if env.bufferLimit ≤ total then Act.emit [.setBufferLimit (total + 32)]
  else pure ()

end

inductive Status
  | continue
  | stop
  | stopAndBuffer
  | stopNoBuffer
  deriving DecidableEq

/-- The lower-cased text contains a lower-case word. -/
def containsFold (word text : String) : Bool :=
  decide (word.toList <:+: text.toList.map Char.toLower)

def checkUpgrade (headers : HeaderMap) : Bool :=
  containsFold "upgrade" (getOne headers "connection") && getOne headers "upgrade" != ""

def checkSSE (headers : HeaderMap) : Bool :=
  containsFold "text/event-stream" (getOne headers "content-type")

def getSourceAddress (env : Environment) : String × ℤ :=
  match splitHostPort env.sourceAddress with
  | none => ("127.0.0.1", 80)
  | some (ip, portText) =>
    match atoi portText with
    | none => ("127.0.0.1", 80)
    | some port => (ip, port)

def getRequestProtocol (env : Environment) : String :=
  if env.requestProtocol = "" then "HTTP/1.1" else env.requestProtocol

def hostAuthority (host : String) : String :=
  match splitHostPort host with
  | some (authority, _) => authority
  | none => host

def requestURI (cfg : Settings) (headers : HeaderMap) : String :=
  let host := getOne headers ":authority"
  let path := getOne headers ":path"
  if ¬cfg.requestURIPathOnly then
    let scheme := getOne headers ":scheme"
    (if scheme = "" then "http" else scheme) ++ "://" ++ host ++ path
  else if path = "" then "//" ++ host
  else path

section

variable {T : Type} (coraza : Coraza T) (cfg : Settings) (env : Environment)

/-- `OnRequestHeaders` once there is a transaction. -/
def inspectRequestHeaders (headers : HeaderMap) (endOfStream : Bool) : Inspection T Status := do
  let off ← isRuleEngineOff coraza
  if off || cfg.mode.skips .request then return .continue
  else
    let host := getOne headers ":authority"
    let source := getSourceAddress env
    let uri := requestURI cfg headers
    let method := getOne headers ":method"
    let s ← Act.get
    addHeader coraza .request ("Host", host)
    tell (coraza.setServerName host) (.setServerName host)
    addHeaders coraza .request headers
    tell (coraza.processConnection source.1 source.2 "127.0.0.1" 80)
      (.processConnection source.1 source.2 "127.0.0.1" 80)
    tell (coraza.processURI uri method s.protocol) (.processURI uri method s.protocol)
    let interruption ← processRequestHeaders coraza
    if interruption.isSome then
      blockRequest cfg env interruption .requestHeaders "waf_request_headers_blocked"
      return .stop
    else if endOfStream || s.isUpgrade then
      let ok ← handleRequestBody coraza cfg env
      return if ok then .continue else .stop
    else return .stop

def onResponseHeaders (headers : HeaderMap) (endOfStream : Bool) : Inspection T Status := do
  let s ← Act.get
  if s.txReleased then return .continue
  else
    let off ← isRuleEngineOff coraza
    if off || cfg.mode.skips .response then return .continue
    else
      Act.modify fun s => { s with isSSE := checkSSE headers }
      addHeaders coraza .response headers
      Act.modify fun s =>
        { s with protocol := if s.protocol = "" then getRequestProtocol env else s.protocol }
      let status := getOne headers ":status"
      match atoi (if status = "" then "500" else status) with
      | none =>
        blockRequest cfg env none .responseHeaders "waf_internal_error"
        return .stop
      | some code =>
        let s ← Act.get
        let interruption ← processResponseHeaders coraza code s.protocol
        if interruption.isSome then
          blockRequest cfg env interruption .responseHeaders "waf_response_headers_blocked"
          return .stop
        else if endOfStream || s.isUpgrade || s.isSSE then
          let ok ← handleResponseBody coraza cfg env
          return if ok then .continue else .stop
        else return .stop

/-- The body can be given to the transaction. -/
def bodyInspectable : Side → Inspection T Bool
  | .request => isBodyAccessible coraza .request
  | .response => do
    let accessible ← isBodyAccessible coraza .response
    if accessible then isResponseBodyProcessable coraza else return false

def onBody (side : Side) (body : Option (List Bytes)) (endOfStream : Bool) :
    Inspection T Status := do
  let s ← Act.get
  if s.txReleased then return .continue
  else
    let off ← isRuleEngineOff coraza
    if off || cfg.mode.skips side || s.bodyProcessed side then return .continue
    else
      let inspectable ← bodyInspectable coraza side
      if !inspectable then
        let ok ← handleBody coraza cfg env side
        return if ok then .continue else .stopNoBuffer
      else
        let written ← writeBody coraza cfg env side body
        let s ← Act.get
        if !written then return .stopNoBuffer
        else if s.bodyProcessed side then
          -- the body limit was reached: the rest of the body streams through
          enlargeBufferLimitIfNeeded env
          return .continue
        else if endOfStream then
          let ok ← handleBody coraza cfg env side
          if ok then
            enlargeBufferLimitIfNeeded env
            return .continue
          else return .stopNoBuffer
        else return .stopAndBuffer

def onTrailers (side : Side) : Inspection T Status := do
  let s ← Act.get
  if s.txReleased then return .continue
  else
    let off ← isRuleEngineOff coraza
    if off || cfg.mode.skips side || s.bodyProcessed side then return .continue
    else
      let ok ← handleBody coraza cfg env side
      return if ok then .continue else .stop

def onRequestBody : Option (List Bytes) → Bool → Inspection T Status :=
  onBody coraza cfg env .request

def onResponseBody : Option (List Bytes) → Bool → Inspection T Status :=
  onBody coraza cfg env .response

def onRequestTrailers : Inspection T Status := onTrailers coraza cfg env .request

def onResponseTrailers : Inspection T Status := onTrailers coraza cfg env .response

end

section

variable {T : Type} (coraza : Coraza T) (cfg : Settings) (env : Environment)

def recordTxMetrics : Inspection T Unit := do
  Act.modify fun s => { s with txDone := true }
  let off ← isRuleEngineOff coraza
  if off then pure ()
  else
    let s ← Act.get
    Act.emit (record cfg.metrics.txTotal .txTotal ++
      record cfg.metrics.txDuration (.txDuration (s.wafElapsed / 1000)))

def releaseTransaction : Inspection T Unit := do
  tell coraza.processLogging .processLogging
  let _ ← ask coraza.close .close
  Act.emit (record cfg.metrics.txActive (.txActive (-1)))
  Act.modify fun s => { s with txReleased := true }

/-- No further analysis will run. -/
def analysisDone : Inspection T Bool := do
  let interrupted ← isInterrupted coraza
  if interrupted then return true
  else
    let off ← isRuleEngineOff coraza
    if off then return true
    else
      let s ← Act.get
      return s.responseBodyProcessed || (cfg.mode = .requestOnly && s.requestBodyProcessed)

/-- Whether the transaction was released. -/
def trackAndMarkTxDone : Inspection T Bool := do
  let s ← Act.get
  if s.txDone then return false
  else
    Act.modify fun s => { s with wafElapsed := s.wafElapsed + env.took }
    let done ← analysisDone coraza cfg
    if done then
      recordTxMetrics coraza cfg
      if s.isUpgrade || s.isSSE then
        let interrupted ← isInterrupted coraza
        if interrupted then return false
        else
          releaseTransaction coraza cfg
          return true
      else return false
    else return false

/-- The filter after an inspection: a released transaction is gone. -/
def Live.park (s : Live T) (released : Bool) : WafPlugin T :=
  { s with txContext := if released then none else some s.tx }

/-- The status a callback returns, the filter after it, and its events. -/
structure Outcome (T : Type) where
  status : Status
  plugin : WafPlugin T
  events : List Event

/-- An inspection with `trackAndMarkTxDone` deferred. -/
def deferred (inspection : Inspection T Status) (s : Live T) : Outcome T :=
  let r := inspection s
  let d := trackAndMarkTxDone coraza cfg env r.2.1
  ⟨r.1, d.2.1.park d.1, r.2.2 ++ d.2.2⟩

def initializeTransaction (headers : HeaderMap) (p : WafPlugin T) : Live T × List Event :=
  match p.txContext with
  | some t => ({ p with tx := t }, [])
  | none =>
    let id := getOne headers "x-request-id"
    ({ p with tx := coraza.newTransactionWithID id, isUpgrade := checkUpgrade headers },
      .newTransaction id :: record cfg.metrics.txActive (.txActive 1))

def onRequestHeaders (headers : HeaderMap) (endOfStream : Bool) (p : WafPlugin T) : Outcome T :=
  let authority := hostAuthority (getOne headers ":authority")
  let p := { p with protocol := getRequestProtocol env, authority := authority }
  let start := initializeTransaction coraza cfg headers p
  let r := deferred coraza cfg env (inspectRequestHeaders coraza cfg env headers endOfStream)
    start.1
  { r with events := start.2 ++ r.events }

/-- A callback that passes through when there is no transaction. -/
def withTransaction (inspection : Inspection T Status) (p : WafPlugin T) : Outcome T :=
  match p.txContext with
  | none => ⟨.continue, p, []⟩
  | some t => deferred coraza cfg env inspection { p with tx := t }

/-- `OnStreamComplete` when there is a transaction. -/
def finishTransaction : Inspection T Unit := do
  let s ← Act.get
  if s.txDone then pure () else recordTxMetrics coraza cfg
  releaseTransaction coraza cfg

def onStreamComplete (p : WafPlugin T) : WafPlugin T × List Event :=
  match p.txContext with
  | none => (p, [])
  | some t =>
    let r := finishTransaction coraza cfg { p with tx := t }
    (r.2.1.park true, r.2.2)

inductive Callback
  | requestHeaders (env : Environment) (headers : HeaderMap) (endOfStream : Bool)
  | requestBody (env : Environment) (body : Option (List Bytes)) (endOfStream : Bool)
  | requestTrailers (env : Environment)
  | responseHeaders (env : Environment) (headers : HeaderMap) (endOfStream : Bool)
  | responseBody (env : Environment) (body : Option (List Bytes)) (endOfStream : Bool)
  | responseTrailers (env : Environment)

def handle (p : WafPlugin T) : Callback → Outcome T
  | .requestHeaders env headers endOfStream =>
    onRequestHeaders coraza cfg env headers endOfStream p
  | .requestBody env body endOfStream =>
    withTransaction coraza cfg env (onRequestBody coraza cfg env body endOfStream) p
  | .requestTrailers env =>
    withTransaction coraza cfg env (onRequestTrailers coraza cfg env) p
  | .responseHeaders env headers endOfStream =>
    withTransaction coraza cfg env (onResponseHeaders coraza cfg env headers endOfStream) p
  | .responseBody env body endOfStream =>
    withTransaction coraza cfg env (onResponseBody coraza cfg env body endOfStream) p
  | .responseTrailers env =>
    withTransaction coraza cfg env (onResponseTrailers coraza cfg env) p

end

end BuiltOnEnvoy.Waf
