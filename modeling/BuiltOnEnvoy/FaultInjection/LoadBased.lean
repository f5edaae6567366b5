import BuiltOnEnvoy.FaultInjection.GreyZone
import BuiltOnEnvoy.FaultInjection.ResponseDistribution

/-!
# Load-based distributions of the fault injection filter

A sample comes from the healthy tier, from the tipping point or, between the
thresholds, from one of them by chance and with a penalty. What a sample leaves
of the tiers and of the grey zone is the same whichever tier it comes from.
-/

namespace BuiltOnEnvoy.FaultInjection

open Foundations

structure LoadBasedResponseDistribution (F : Type) where
  healthy : ResponseDistribution F
  tippingPoint : ResponseDistribution F
  thresholds : Thresholds F
  greyZone : Option (GreyZoneState F ℤ ℤ)
  deriving DecidableEq

/-- A load, the time, and what a sample may draw. -/
structure LoadObservation (F : Type) where
  currentInFlight : F
  now : ℤ
  tier : Fin (2 ^ 53)
  draws : SampleDraws

inductive Tier
  | healthy
  | tippingPoint

namespace LoadBasedResponseDistribution

variable {F : Type}

def distribution (lb : LoadBasedResponseDistribution F) : Tier → ResponseDistribution F
  | .healthy => lb.healthy
  | .tippingPoint => lb.tippingPoint

def setDistribution (lb : LoadBasedResponseDistribution F) :
    Tier → ResponseDistribution F → LoadBasedResponseDistribution F
  | .healthy, rd => { lb with healthy := rd }
  | .tippingPoint, rd => { lb with tippingPoint := rd }

def setGreyZone (lb : LoadBasedResponseDistribution F) (zone : Option (GreyZoneState F ℤ ℤ)) :
    LoadBasedResponseDistribution F :=
  { lb with greyZone := zone }

@[simp]
theorem distribution_setGreyZone (lb : LoadBasedResponseDistribution F)
    (zone : Option (GreyZoneState F ℤ ℤ)) (tier : Tier) :
    (lb.setGreyZone zone).distribution tier = lb.distribution tier := by
  cases tier <;> rfl

@[simp]
theorem setDistribution_greyZone (lb : LoadBasedResponseDistribution F) (tier : Tier)
    (rd : ResponseDistribution F) : (lb.setDistribution tier rd).greyZone = lb.greyZone := by
  cases tier <;> rfl

end LoadBasedResponseDistribution

section

variable {F : Type} [Zero F] [One F] [Sub F] [Mul F] [Div F] [IntCast F] [LE F] [DecidableLE F]
variable [LT F] [DecidableLT F] [Min F] [Max F] [BEq F] (toInt : F → ℤ)

/-- Durations of 64 bits; `Sub` ends at their limits. -/
def machineDurations : DurationArithmetic F ℤ ℤ :=
  ⟨Int.cast, toInt, fun now start => saturate64 (now - start)⟩

/-- `NewLoadBasedResponseDistributionWithMode`. -/
def newLoadBasedResponseDistribution (lib : ConfigLibrary F)
    (healthyEnv tippingEnv : BuildEnvironment) (healthyDists : List StatusDistribution)
    (healthyThreshold : F) (tippingDists : List StatusDistribution) (tippingThreshold : F)
    (gz : Option (GreyZoneConfig F)) (distributionMode : String) :
    Except Failure (LoadBasedResponseDistribution F) := do
  let healthy ← newResponseDistribution toInt lib healthyEnv healthyDists distributionMode
  let tipping ← newResponseDistribution toInt lib tippingEnv tippingDists distributionMode
  -- The error of a duration is ignored.
  let duration (text : String) := (lib.parseDuration text).toOption.getD 0
  return ⟨healthy, tipping, ⟨healthyThreshold, tippingThreshold⟩, gz.map fun gz =>
    .new (duration gz.penaltyBase) (duration gz.spikePenaltyDuration) gz.spikeThreshold
      gz.spikePenaltyMultiplier gz.recoveryRate⟩

namespace LoadBasedResponseDistribution

variable (lb : LoadBasedResponseDistribution F) (o : LoadObservation F)

/-- The penalty, and the state of the grey zone after it. -/
def penalize (currentInFlight : F) (now : ℤ) : ℤ × Option (GreyZoneState F ℤ ℤ) :=
  match lb.greyZone with
  | none => (0, none)
  | some gz =>
    let result := observe (machineDurations toInt) lb.thresholds gz ⟨currentInFlight, now⟩
    (result.1, some result.2)

def sample : Option (ResponseSample × LoadBasedResponseDistribution F) :=
  let greyPosition := lb.thresholds.greyPosition o.currentInFlight
  let penalty := (lb.penalize toInt o.currentInFlight o.now).1
  let lb := lb.setGreyZone (lb.penalize toInt o.currentInFlight o.now).2
  if o.currentInFlight ≤ lb.thresholds.healthy then
    (lb.healthy.sample toInt o.draws).map fun r => (r.1, { lb with healthy := r.2 })
  else if lb.thresholds.tipping ≤ o.currentInFlight then
    (lb.tippingPoint.sample toInt o.draws).map fun r => (r.1, { lb with tippingPoint := r.2 })
  else if greyPosition < cryptoFloat64 o.tier then
    (lb.healthy.sample toInt o.draws).map fun r =>
      ({ r.1 with duration := wrap64 (r.1.duration + penalty) }, { lb with healthy := r.2 })
  else
    (lb.tippingPoint.sample toInt o.draws).map fun r =>
      ({ r.1 with duration := wrap64 (r.1.duration + penalty) }, { lb with tippingPoint := r.2 })

/-- The distribution after a sequence of samples. -/
def samples (observations : List (LoadObservation F)) :
    Option (LoadBasedResponseDistribution F) :=
  observations.foldlM (fun lb o => (lb.sample toInt o).map Prod.snd) lb

end LoadBasedResponseDistribution

namespace Thresholds

variable (thresholds : Thresholds F) (currentInFlight : F)

/-- The tier that is sampled. -/
def tier (u : Fin (2 ^ 53)) : Tier :=
  if currentInFlight ≤ thresholds.healthy then .healthy
  else if thresholds.tipping ≤ currentInFlight then .tippingPoint
  else if thresholds.greyPosition currentInFlight < cryptoFloat64 u then .healthy
  else .tippingPoint

def InGreyZone : Prop :=
  ¬currentInFlight ≤ thresholds.healthy ∧ ¬thresholds.tipping ≤ currentInFlight

instance : Decidable (thresholds.InGreyZone currentInFlight) :=
  inferInstanceAs (Decidable (_ ∧ _))

end Thresholds

namespace LoadBasedResponseDistribution

variable (lb : LoadBasedResponseDistribution F) (o : LoadObservation F)

/-- The duration of a sample of the tier, with the penalty. -/
def delay (currentInFlight : F) (now : ℤ) (duration : ℤ) : ℤ :=
  if lb.thresholds.InGreyZone currentInFlight then
    wrap64 (duration + (lb.penalize toInt currentInFlight now).1)
  else duration

attribute [local simp] sample delay Thresholds.tier Thresholds.InGreyZone distribution
  setDistribution setGreyZone

omit [LT F] [DecidableLT F] [Min F] [Max F] in
theorem outline_setDistribution {lb : LoadBasedResponseDistribution F} {changed : Tier}
    {rd : ResponseDistribution F}
    (h : rd.outline toInt = (lb.distribution changed).outline toInt) (tier : Tier) :
    ((lb.setDistribution changed rd).distribution tier).outline toInt =
      (lb.distribution tier).outline toInt := by
  cases changed with
  | healthy =>
    cases tier with
    | healthy => exact h
    | tippingPoint => rfl
  | tippingPoint =>
    cases tier with
    | healthy => rfl
    | tippingPoint => exact h

theorem sample_eq :
    lb.sample toInt o =
      ((lb.distribution (lb.thresholds.tier o.currentInFlight o.tier)).sample toInt o.draws).map
        fun r => ({ r.1 with duration := lb.delay toInt o.currentInFlight o.now r.1.duration },
          (lb.setGreyZone (lb.penalize toInt o.currentInFlight o.now).2).setDistribution
            (lb.thresholds.tier o.currentInFlight o.tier) r.2) := by
  by_cases hhealthy : o.currentInFlight ≤ lb.thresholds.healthy
  · simp [hhealthy]
  · by_cases htipping : lb.thresholds.tipping ≤ o.currentInFlight
    · simp [hhealthy, htipping]
    · by_cases hposition : lb.thresholds.greyPosition o.currentInFlight < cryptoFloat64 o.tier
      · simp [hhealthy, htipping, hposition]
      · simp [hhealthy, htipping, hposition]

end LoadBasedResponseDistribution

end

end BuiltOnEnvoy.FaultInjection
