import BuiltOnEnvoy.Foundations.Bytes
import BuiltOnEnvoy.Foundations.GoMap
import BuiltOnEnvoy.Foundations.Headers

/-!
# The configuration of the OpenFGA filter

A configuration is a list of rules, each with the sources of a user, a relation
and an object. Accepted configurations are prepared: defaults are merged in and
static values are computed once. The JSON library, the parser of query strings
and the quoting of texts are parameters.
-/

namespace BuiltOnEnvoy.OpenFga

open Foundations

structure ValueSource where
  value : String
  header : String
  pathSegment : Option ℤ
  queryParam : String
  lead : String
  deriving DecidableEq

structure TupleKey where
  user : String
  relation : String
  object : String
  deriving DecidableEq

structure CheckRequest where
  tupleKey : TupleKey
  authorizationModelID : String
  consistency : String
  contextualTuples : List TupleKey
  context : GoMap String String

/-- The libraries; an error is its text. -/
structure Library where
  quote : String → String
  parseQuery : String → Option (List (String × String))
  marshal : CheckRequest → Except String Bytes
  /-- The field `allowed` of a response. -/
  unmarshal : Bytes → Except String Bool

/-- The part before the first question mark, and the part after it if there is one. -/
def cutQuery (fullPath : String) : String × Option String :=
  let path := fullPath.toList.takeWhile (· ≠ '?')
  (String.ofList path,
    if path.length < fullPath.length then
      some (String.ofList (fullPath.toList.drop (path.length + 1)))
    else none)

def extractPathSegment (fullPath : String) (idx : ℤ) : String :=
  let path := (cutQuery fullPath).1.toList
  let trimmed := if path.head? = some '/' then path.tail else path
  let segments := (trimmed.splitOn '/').map String.ofList
  let idx := if idx < 0 then segments.length + idx else idx
  if idx < 0 ∨ segments.length ≤ idx then "" else segments.getD idx.toNat ""

def extractQueryParam (lib : Library) (fullPath name : String) : String :=
  match (cutQuery fullPath).2 with
  | none => ""
  | some query =>
    match lib.parseQuery query with
    | none => ""
    | some values => ((values.find? fun e => e.1 = name).map Prod.snd).getD ""

namespace ValueSource

def isEmpty (v : ValueSource) : Bool :=
  v.value = "" && v.header = "" && v.pathSegment = none && v.queryParam = ""

/-- The value before the text that is put in front of it. -/
def raw (lib : Library) (v : ValueSource) (headers : Headers) : String :=
  if v.value ≠ "" then v.value
  else if v.header ≠ "" then headers.getOne v.header
  else
    match v.pathSegment with
    | some idx => extractPathSegment (headers.getOne ":path") idx
    | none =>
      if v.queryParam ≠ "" then extractQueryParam lib (headers.getOne ":path") v.queryParam else ""

/-- What the source stands for in a request. -/
def extract (lib : Library) (v : ValueSource) (headers : Headers) : String :=
  if v.raw lib headers = "" then "" else v.lead ++ v.raw lib headers

def validate (name : String) (v : ValueSource) : Option String :=
  let set := (if v.value ≠ "" then 1 else 0) + (if v.header ≠ "" then 1 else 0) +
    (if v.pathSegment.isSome then 1 else 0) + (if v.queryParam ≠ "" then 1 else 0)
  if set = 0 then
    some (name ++ ": one of 'value', 'header', 'path_segment', or 'query_param' must be set")
  else if 1 < set then
    some (name ++ ": only one of 'value', 'header', 'path_segment', or 'query_param' may be set")
  else none

end ValueSource

/-- A source with its static value, if it has one. -/
structure PreparedSource extends ValueSource where
  resolved : String
  static : resolved ≠ "" → value ≠ "" ∧ resolved = lead ++ value

def ValueSource.precompute (v : ValueSource) : PreparedSource where
  toValueSource := v
  resolved := if v.value ≠ "" then v.lead ++ v.value else ""
  static := by
    intro h
    split_ifs at h ⊢ with hvalue
    · exact ⟨hvalue, rfl⟩
    · exact absurd rfl h

def PreparedSource.resolve (lib : Library) (v : PreparedSource) (headers : Headers) : String :=
  if v.resolved ≠ "" then v.resolved
  else if v.raw lib headers = "" then ""
  else v.lead ++ v.raw lib headers

theorem PreparedSource.resolve_eq_extract (lib : Library) (v : PreparedSource)
    (headers : Headers) : v.resolve lib headers = v.extract lib headers := by
  unfold resolve ValueSource.extract
  split_ifs with hresolved hraw
  · obtain ⟨hvalue, -⟩ := v.static hresolved
    rw [ValueSource.raw, if_pos hvalue] at hraw
    exact absurd hraw hvalue
  · obtain ⟨hvalue, heq⟩ := v.static hresolved
    rw [heq, ValueSource.raw, if_pos hvalue]
  · rfl
  · rfl

/-- All headers must be there, with the given value or with any for a star. -/
structure RuleMatch where
  headers : GoMap String String

def RuleMatch.matches (m : RuleMatch) (headers : Headers) : Bool :=
  m.headers.entries.all fun (name, want) =>
    let got := headers.getOne name
    if got = "" then false else if want ≠ "*" ∧ got ≠ want then false else true

/-- A rule as it is configured. -/
structure CheckRule where
  condition : Option RuleMatch
  user : Option ValueSource
  relation : ValueSource
  object : ValueSource

structure TupleSource where
  user : ValueSource
  relation : ValueSource
  object : ValueSource

structure MetadataKey where
  ns : String
  key : String

structure OpenfgaConfig where
  cluster : String
  openFGAHost : String
  storeID : String
  authorizationModelID : String
  user : ValueSource
  relation : ValueSource
  object : ValueSource
  rules : List CheckRule
  failOpen : Bool
  dryRun : Bool
  timeoutMs : ℕ
  denyStatus : ℤ
  denyBody : String
  consistency : String
  metadata : Option MetadataKey
  calloutHeaders : GoMap String String
  contextualTuples : List TupleSource
  context : GoMap String ValueSource

/-- The sources of a tuple, ready to use. -/
structure PreparedTuple where
  user : PreparedSource
  relation : PreparedSource
  object : PreparedSource

structure ParsedRule extends PreparedTuple where
  condition : Option RuleMatch

structure LocalResponse where
  status : ℤ
  body : String
  headers : GoMap String String

structure ParsedConfig where
  cluster : String
  storeID : String
  authorizationModelID : String
  failOpen : Bool
  dryRun : Bool
  timeoutMs : ℕ
  deny : LocalResponse
  denyHeaders : List (String × String)
  checkPath : String
  calloutHeaders : List (String × String)
  rules : List ParsedRule
  metadata : Option MetadataKey
  consistency : String
  contextualTuples : List PreparedTuple
  context : GoMap String PreparedSource

/-- The text of joined errors. -/
def joinErrors (errs : List String) : String := "openfga: " ++ "\n".intercalate errs

/-- The three sources of a tuple, validated under their names. -/
def TupleSource.prepare (name : String) (t : TupleSource) : Except (List String) PreparedTuple :=
  match [t.user.validate (name ++ "user"), t.relation.validate (name ++ "relation"),
    t.object.validate (name ++ "object")].reduceOption with
  | [] => .ok ⟨t.user.precompute, t.relation.precompute, t.object.precompute⟩
  | errs => .error errs

/-- The rule applies to every request. -/
def CheckRule.isCatchAll (cr : CheckRule) : Bool :=
  match cr.condition with
  | none => true
  | some m => m.headers.entries.isEmpty

/-- The condition of the rule, unless it is empty. -/
def CheckRule.match? (cr : CheckRule) : Option RuleMatch :=
  cr.condition.filter fun m => !m.headers.entries.isEmpty

/-- The sources of the rule; the user may be the default. -/
def CheckRule.sources (cfg : OpenfgaConfig) (cr : CheckRule) : TupleSource :=
  ⟨cr.user.getD cfg.user, cr.relation, cr.object⟩

def ruleName (i : ℕ) : String := "rule[" ++ toString i ++ "]"

/-- The loop over the rules, with the errors and the rules so far. -/
def buildRulesFrom (cfg : OpenfgaConfig) :
    ℕ → Bool → List String → List ParsedRule → List CheckRule → Except String (List ParsedRule)
  | _, _, [], rules, [] => .ok rules
  | _, _, errs, _, [] => .error (joinErrors errs)
  | i, catchAllSeen, errs, rules, cr :: rest =>
    if catchAllSeen then
      .error ("openfga: " ++ ruleName i ++ ": catch-all rule (no match) must be last")
    else
      match (cr.sources cfg).prepare (ruleName i ++ ".") with
      | .error ruleErrs => buildRulesFrom cfg (i + 1) cr.isCatchAll (errs ++ ruleErrs) rules rest
      | .ok sources =>
        buildRulesFrom cfg (i + 1) cr.isCatchAll errs (rules ++ [⟨sources, cr.match?⟩]) rest

/-- One rule for every request from the top-level sources. -/
def buildLegacyRule (cfg : OpenfgaConfig) : Except String (List ParsedRule) :=
  match TupleSource.prepare "" ⟨cfg.user, cfg.relation, cfg.object⟩ with
  | .error errs => .error (joinErrors errs)
  | .ok sources => .ok [⟨sources, none⟩]

def buildRules (cfg : OpenfgaConfig) : Except String (List ParsedRule) :=
  match cfg.rules with
  | [] => buildLegacyRule cfg
  | rules =>
    if cfg.user.isEmpty then
      .error (joinErrors ["top-level user is required when using rules (serves as default)"])
    else buildRulesFrom cfg 0 false [] [] rules

def buildContextualTuplesFrom :
    ℕ → List String → List PreparedTuple → List TupleSource → Except String (List PreparedTuple)
  | _, [], parsed, [] => .ok parsed
  | _, errs, _, [] => .error (joinErrors errs)
  | i, errs, parsed, ct :: rest =>
    match ct.prepare ("contextual_tuples[" ++ toString i ++ "].") with
    | .error tupleErrs => buildContextualTuplesFrom (i + 1) (errs ++ tupleErrs) parsed rest
    | .ok sources => buildContextualTuplesFrom (i + 1) errs (parsed ++ [sources]) rest

def buildContextualTuples (tuples : List TupleSource) : Except String (List PreparedTuple) :=
  buildContextualTuplesFrom 0 [] [] tuples

def buildContext (ctx : GoMap String ValueSource) : Except String (GoMap String PreparedSource) :=
  match ctx.entries.filterMap fun (name, vs) => vs.validate ("context[" ++ name ++ "]") with
  | [] => .ok (ctx.filterMap fun _ vs => some vs.precompute)
  | errs => .error (joinErrors errs)

def validateConsistency (lib : Library) (s : String) : Option String :=
  if s = "" ∨ s = "UNSPECIFIED" ∨ s = "MINIMIZE_LATENCY" ∨ s = "HIGHER_CONSISTENCY" then none
  else some ("openfga: invalid consistency " ++ lib.quote s ++
    ", must be UNSPECIFIED, MINIMIZE_LATENCY, or HIGHER_CONSISTENCY")

def LocalResponse.validate (r : LocalResponse) : Option String :=
  if r.status < 100 ∨ 599 < r.status then
    some "invalid HTTP status code: must be between 100 and 599"
  else none

def MetadataKey.validate (k : MetadataKey) : Option String :=
  if k.ns = "" ∨ k.key = "" then some "metadata key must have both namespace and key" else none

def buildDenyHeaders (deny : LocalResponse) : List (String × String) :=
  let headers := deny.headers.entries
  if headers.any fun h => h.1 = "content-type" then headers
  else ("content-type", "text/plain") :: headers

/-- The response for denials, with its defaults. -/
def OpenfgaConfig.deny (cfg : OpenfgaConfig) : LocalResponse where
  status := if cfg.denyStatus = 0 then 403 else cfg.denyStatus
  body := if cfg.denyBody = "" then "Forbidden" else cfg.denyBody
  headers := GoMap.empty

def missing (name value : String) : Option String :=
  if value = "" then some ("missing required field: " ++ name) else none

def denyErrors (deny : LocalResponse) : Option String :=
  if deny.status < 100 ∨ 599 < deny.status then
    some ("openfga: deny_status must be between 100 and 599, got " ++ toString deny.status)
  else deny.validate.map ("openfga: " ++ ·)

/-- The errors outside the rules, the contextual tuples and the context. -/
def fieldErrors (lib : Library) (cfg : OpenfgaConfig) : List String :=
  [missing "cluster" cfg.cluster, missing "openfga_host" cfg.openFGAHost,
    missing "store_id" cfg.storeID, validateConsistency lib cfg.consistency, denyErrors cfg.deny,
    (cfg.metadata.bind MetadataKey.validate).map
      ("openfga: invalid metadata config: " ++ ·)].reduceOption

def errorOf {α : Type} : Except String α → List String
  | .ok _ => []
  | .error err => [err]

def parseConfig (lib : Library) (cfg : OpenfgaConfig) : Except String ParsedConfig :=
  match fieldErrors lib cfg, buildRules cfg, buildContextualTuples cfg.contextualTuples,
    buildContext cfg.context with
  | [], .ok rules, .ok tuples, .ok context =>
    let checkPath := "/stores/" ++ cfg.storeID ++ "/check"
    .ok
      { cluster := cfg.cluster
        storeID := cfg.storeID
        authorizationModelID := cfg.authorizationModelID
        failOpen := cfg.failOpen
        dryRun := cfg.dryRun
        timeoutMs := if cfg.timeoutMs = 0 then 5000 else cfg.timeoutMs
        deny := cfg.deny
        denyHeaders := buildDenyHeaders cfg.deny
        checkPath := checkPath
        calloutHeaders :=
          [(":method", "POST"), (":path", checkPath), ("host", cfg.openFGAHost),
            ("content-type", "application/json")] ++ cfg.calloutHeaders.entries
        rules := rules
        metadata := cfg.metadata
        consistency := cfg.consistency
        contextualTuples := tuples
        context := context }
  | errs, rules, tuples, context =>
    .error (joinErrors (errs ++ errorOf rules ++ errorOf tuples ++ errorOf context))

end BuiltOnEnvoy.OpenFga
