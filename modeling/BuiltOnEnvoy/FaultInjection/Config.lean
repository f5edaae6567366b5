import BuiltOnEnvoy.FaultInjection.Percentiles
import BuiltOnEnvoy.FaultInjection.Plugin

/-!
# The configuration of the fault injection filter

The checks of status distributions and of load-based behaviour, over any type of
floats. The checks go on after an error, and the texts of all errors are joined.
What `ParsePercentileDistribution` and the libraries answer is a parameter.
-/

namespace BuiltOnEnvoy.FaultInjection

open Foundations

structure StatusDistribution where
  status : ℤ
  resolution : ℤ
  distribution : GoMap String String
  localResponse : Option LocalResponseConfig

structure LoadTier (F : Type) where
  thresholdInFlight : F
  responses : List StatusDistribution

structure GreyZoneConfig (F : Type) where
  penaltyBase : String
  spikeThreshold : F
  spikePenaltyDuration : String
  spikePenaltyMultiplier : F
  recoveryRate : F

structure LoadBasedConfig (F : Type) where
  healthy : Option (LoadTier F)
  tippingPoint : Option (LoadTier F)
  greyZone : Option (GreyZoneConfig F)

/-- The orders in which the loops of successive calls visit a map. -/
structure MapOrders where
  order : ℕ → GoMap String String → List (String × String)
  visits : ∀ call (dist : GoMap String String), dist.Visits (order call dist)

/-- Every map is visited in the order in which it is listed. -/
def MapOrders.listed : MapOrders :=
  ⟨fun _ dist => dist.entries, fun _ dist => dist.visits_entries⟩

/-- What is used of `httpguts`, `strings`, `time` and `fmt`, and the percentiles of a map that
is visited in an order. -/
structure ConfigLibrary (F : Type) where
  parsePercentileDistribution : List (String × String) → Except String (List (Percentile F))
  parseDuration : String → Except String ℤ
  validHeaderFieldName : String → Bool
  validHeaderFieldValue : String → Bool
  trimSpace : String → String
  /-- `%q` -/
  quote : String → String

/-- `errors.Join`. -/
def joinErrors : List String → Option String
  | [] => none
  | errs => some ("\n".intercalate errs)

theorem joinErrors_eq_none {errs : List String} : joinErrors errs = none ↔ errs = [] := by
  cases errs <;> simp [joinErrors]

/-- The error, if the condition holds. -/
def errorIf (condition : Prop) [Decidable condition] (message : String) : List String :=
  if condition then [message] else []

theorem errorIf_eq_nil {condition : Prop} [Decidable condition] {message : String} :
    errorIf condition message = [] ↔ ¬condition := by
  simp [errorIf]

def errorOf {α : Type} (result : Except String α) (describe : String → String) : List String :=
  match result with
  | .error err => [describe err]
  | .ok _ => []

def reservedHeaders : List String :=
  ["content-length", "transfer-encoding", "connection", "keep-alive", "proxy-connection",
    "upgrade", "trailer", "te"]

namespace ConfigLibrary

variable {F : Type} (lib : ConfigLibrary F)

/-- The errors of one header. -/
def headerErrors (context : String) (i : ℕ) (header : String × String) : List String :=
  let which := context ++ " local_response header " ++ toString i
  if lib.validHeaderFieldName header.1 = false ∨ ":".toList <+: header.1.toList then
    [which ++ ": invalid header name " ++ lib.quote header.1]
  else
    let name := Headers.lower header.1
    errorIf (name ∈ reservedHeaders ∨ "x-fault-".toList <+: name.toList)
        (which ++ ": header " ++ lib.quote header.1 ++ " is reserved") ++
      errorIf (lib.validHeaderFieldValue header.2 = false) (which ++ ": invalid value") ++
      errorIf (name = "content-type" ∧ lib.trimSpace header.2 = "")
        (context ++ " local_response content-type must not be empty")

/-- The headers that are counted as content types. -/
def contentTypes (headers : List (String × String)) : ℕ :=
  headers.countP fun header =>
    lib.validHeaderFieldName header.1 ∧ ¬":".toList <+: header.1.toList ∧
      Headers.lower header.1 = "content-type"

def localResponseErrors (context : String) (status : ℤ) (response : LocalResponseConfig) :
    List String :=
  errorIf ((status = 204 ∨ status = 205 ∨ status = 304) ∧ response.body.getD "" ≠ "")
      (context ++ ": local_response.body must be empty for status " ++ toString status) ++
    (response.headers.zipIdx.flatMap fun (header, i) => lib.headerErrors context i header) ++
    errorIf (1 < lib.contentTypes response.headers)
      (context ++ " local_response may configure content-type only once")

def validateStatusDistribution (sd : StatusDistribution) (order : List (String × String))
    (context : String) : Option String :=
  joinErrors <|
    errorIf (sd.status < 200 ∨ 599 < sd.status) (context ++ ": invalid HTTP status code " ++
        toString sd.status ++ "; supported status codes are 200-599") ++
      errorIf (sd.resolution ≤ 0)
        (context ++ ": resolution must be positive, got " ++ toString sd.resolution) ++
      errorIf (sd.distribution.entries = [])
        (context ++ ": distribution must have at least one entry") ++
      errorOf (lib.parsePercentileDistribution order) (context ++ ": " ++ ·) ++
      sd.localResponse.elim [] (lib.localResponseErrors context sd.status)

/-- The errors of a list of responses, each with its index. -/
def responsesErrors (responses : List StatusDistribution) (orders : MapOrders) (context : String) :
    List String :=
  responses.zipIdx.filterMap fun (sd, j) =>
    lib.validateStatusDistribution sd (orders.order j sd.distribution)
      (context ++ " response " ++ toString j)

section

variable [Zero F] [One F] [LE F] [LT F] [DecidableLE F] [DecidableLT F]

def tierErrors (healthy tippingPoint : LoadTier F) (healthyOrders tippingOrders : MapOrders)
    (context : String) : List String :=
  errorIf (tippingPoint.thresholdInFlight ≤ healthy.thresholdInFlight)
      (context ++ ": load_based.tipping_point.threshold_in_flight must be greater than " ++
        "healthy.threshold_in_flight") ++
    errorIf (healthy.responses = [])
      (context ++ ": load_based.healthy.responses must have at least one entry") ++
    errorIf (tippingPoint.responses = [])
      (context ++ ": load_based.tipping_point.responses must have at least one entry") ++
    lib.responsesErrors healthy.responses healthyOrders (context ++ " healthy") ++
    lib.responsesErrors tippingPoint.responses tippingOrders (context ++ " tipping_point")

def greyZoneErrors (gz : GreyZoneConfig F) (context : String) : List String :=
  errorOf (lib.parseDuration gz.penaltyBase) (context ++ ": grey_zone.penalty_base: " ++ ·) ++
    errorOf (lib.parseDuration gz.spikePenaltyDuration)
      (context ++ ": grey_zone.spike_penalty_duration: " ++ ·) ++
    errorIf (gz.spikeThreshold ≤ 0 ∨ 1 ≤ gz.spikeThreshold)
      (context ++ ": grey_zone.spike_threshold must be between 0 and 1 exclusive") ++
    errorIf (gz.spikePenaltyMultiplier ≤ 0)
      (context ++ ": grey_zone.spike_penalty_multiplier must be positive") ++
    errorIf (gz.recoveryRate ≤ 0 ∨ 1 < gz.recoveryRate)
      (context ++ ": grey_zone.recovery_rate must be between 0 exclusive and 1 inclusive")

def validateLoadBased (lb : LoadBasedConfig F) (healthyOrders tippingOrders : MapOrders)
    (context : String) : Option String :=
  joinErrors <|
    (match lb.healthy with
      | none => [context ++ ": load_based.healthy is required"]
      | some healthy => errorIf (healthy.thresholdInFlight ≤ 0)
          (context ++ ": load_based.healthy.threshold_in_flight must be positive")) ++
      (if lb.tippingPoint.isNone then [context ++ ": load_based.tipping_point is required"]
        else []) ++
      (match lb.tippingPoint, lb.healthy with
        | some tippingPoint, some healthy =>
          lib.tierErrors healthy tippingPoint healthyOrders tippingOrders context
        | _, _ => []) ++
      lb.greyZone.elim [] (lib.greyZoneErrors · context)

end

variable {lib}

theorem resolution_pos {sd : StatusDistribution} {order : List (String × String)}
    {context : String} (h : lib.validateStatusDistribution sd order context = none) :
    0 < sd.resolution := by
  unfold validateStatusDistribution at h
  simp only [joinErrors_eq_none, List.append_eq_nil_iff, errorIf_eq_nil] at h
  exact not_le.mp h.1.1.1.2

theorem responsesErrors_eq_nil {responses : List StatusDistribution} {orders : MapOrders}
    {context : String} (h : lib.responsesErrors responses orders context = []) {j : ℕ}
    {sd : StatusDistribution} (hsd : responses[j]? = some sd) :
    lib.validateStatusDistribution sd (orders.order j sd.distribution)
      (context ++ " response " ++ toString j) = none := by
  have hmem : (sd, j) ∈ responses.zipIdx := List.mk_mem_zipIdx_iff_getElem?.mpr hsd
  exact List.filterMap_eq_nil_iff.mp h (sd, j) hmem

end ConfigLibrary

/-- Exact percentiles in whole numbers, with headers that are all valid. -/
def wholeLibrary : ConfigLibrary ℚ where
  parsePercentileDistribution := parsePercentileDistribution wholeText
  parseDuration := wholeText.parseDuration
  validHeaderFieldName := fun _ => true
  validHeaderFieldValue := fun _ => true
  trimSpace := id
  quote := wholeText.quote

end BuiltOnEnvoy.FaultInjection
