import BuiltOnEnvoy.FaultInjection.LoadBased
import BuiltOnEnvoy.FaultInjection.StatusWeights

/-!
# The delays of load-based distributions

The configuration asks for percentiles that are not negative, but not for such a base
penalty. With one, and delays that fit into 64 bits, no delay is negative over any
sequence of loads and draws. Numbers are exact, and the clock never goes back.
-/

namespace BuiltOnEnvoy.FaultInjection

open Foundations List Option

namespace GreyZoneState

variable {gz : GreyZoneState ℚ ℤ ℤ} {reach g : ℚ} {now : ℤ}

/-- The base penalty is not negative, and penalties stay within a reach. -/
structure Mild (gz : GreyZoneState ℚ ℤ ℤ) (reach : ℚ) : Prop where
  base : 0 ≤ gz.penaltyBase
  base_le : gz.penaltyBase ≤ reach
  multiplier : 0 ≤ gz.spikePenaltyMultiplier
  multiplied_le : gz.penaltyBase * gz.spikePenaltyMultiplier ≤ reach
  rate : 0 ≤ gz.recoveryRate
  rate_le : gz.recoveryRate ≤ 1

namespace Mild

theorem basePenalty (h : gz.Mild reach) (hg0 : 0 ≤ g) (hg1 : g ≤ 1) :
    0 ≤ gz.basePenalty (machineDurations truncate) g ∧
      gz.basePenalty (machineDurations truncate) g ≤ gz.penaltyBase := by
  have hbase : (0 : ℚ) ≤ gz.penaltyBase := by exact_mod_cast h.base
  have hproduct : 0 ≤ gz.penaltyBase * g := mul_nonneg hbase hg0
  exact ⟨truncate_nonneg hproduct, truncate_le hproduct (mul_le_of_le_one_right hbase hg1)⟩

/-- A part of the penalty in a spike. -/
theorem scaled (h : gz.Mild reach) (hg0 : 0 ≤ g) (hg1 : g ≤ 1) {x : ℚ} (hx0 : 0 ≤ x)
    (hx1 : x ≤ 1) :
    0 ≤ truncate (gz.basePenalty (machineDurations truncate) g * gz.spikePenaltyMultiplier * x) ∧
      (truncate (gz.basePenalty (machineDurations truncate) g * gz.spikePenaltyMultiplier * x) : ℚ)
        ≤ reach := by
  obtain ⟨hlow, hhigh⟩ := h.basePenalty hg0 hg1
  have hlow' : (0 : ℚ) ≤ gz.basePenalty (machineDurations truncate) g := by exact_mod_cast hlow
  have hspike : 0 ≤ gz.basePenalty (machineDurations truncate) g * gz.spikePenaltyMultiplier :=
    mul_nonneg hlow' h.multiplier
  have hproduct := mul_nonneg hspike hx0
  refine ⟨truncate_nonneg hproduct, ?_⟩
  rw [truncate_of_nonneg hproduct]
  calc (⌊gz.basePenalty (machineDurations truncate) g * gz.spikePenaltyMultiplier * x⌋ : ℚ)
      ≤ gz.basePenalty (machineDurations truncate) g * gz.spikePenaltyMultiplier * x :=
        Int.floor_le _
    _ ≤ gz.basePenalty (machineDurations truncate) g * gz.spikePenaltyMultiplier :=
        mul_le_of_le_one_right hspike hx1
    _ ≤ gz.penaltyBase * gz.spikePenaltyMultiplier :=
        mul_le_mul_of_nonneg_right (by exact_mod_cast hhigh) h.multiplier
    _ ≤ reach := h.multiplied_le

theorem remaining (h : gz.Mild reach) {elapsed duration : ℤ} (h0 : 0 ≤ elapsed)
    (hless : elapsed < duration) :
    0 ≤ 1 - (elapsed : ℚ) / duration * gz.recoveryRate ∧
      1 - (elapsed : ℚ) / duration * gz.recoveryRate ≤ 1 := by
  have helapsed : (0 : ℚ) ≤ elapsed := by exact_mod_cast h0
  have hduration : (elapsed : ℚ) ≤ duration := by exact_mod_cast hless.le
  have hfraction : 0 ≤ (elapsed : ℚ) / duration := div_nonneg helapsed (helapsed.trans hduration)
  have hfraction1 : (elapsed : ℚ) / duration ≤ 1 :=
    div_le_one_of_le₀ hduration (helapsed.trans hduration)
  have hproduct := mul_nonneg hfraction h.rate
  have hproduct1 := mul_le_one₀ hfraction1 h.rate h.rate_le
  constructor <;> linarith

/-- One observation: the penalty stays within the reach, and a recovery has started before or
starts now. -/
theorem penalty (h : gz.Mild reach) (hg0 : 0 ≤ g) (hg1 : g ≤ 1)
    (hstart : ∀ t ∈ gz.recoveryStart, t ≤ now) {result : ℤ × GreyZoneState ℚ ℤ ℤ}
    (hresult : calculateGreyZonePenalty (machineDurations truncate) gz g now = result) :
    (0 ≤ result.1 ∧ (result.1 : ℚ) ≤ reach) ∧ result.2.Mild reach ∧
      ∀ t ∈ result.2.recoveryStart, t ∈ gz.recoveryStart ∨ t = now := by
  obtain ⟨hbase0, hbase1⟩ := h.basePenalty hg0 hg1
  have hbase : 0 ≤ gz.basePenalty (machineDurations truncate) g ∧
      ((gz.basePenalty (machineDurations truncate) g : ℤ) : ℚ) ≤ reach :=
    ⟨hbase0, (Int.cast_le.mpr hbase1).trans h.base_le⟩
  have hmild : ∀ inSpike recoveryStart,
      { gz with inSpike := inSpike, recoveryStart := recoveryStart }.Mild reach := fun _ _ =>
    ⟨h.base, h.base_le, h.multiplier, h.multiplied_le, h.rate, h.rate_le⟩
  dsimp only [calculateGreyZonePenalty] at hresult
  split_ifs at hresult with hspike hinSpike hend
  · have hscaled := h.scaled hg0 hg1 zero_le_one le_rfl
    rw [mul_one] at hscaled
    rw [← hresult]
    exact ⟨hscaled, hmild _ _, by simp⟩
  · rw [← hresult]
    exact ⟨hbase, hmild _ _, by simp⟩
  · have helapsed : 0 ≤ saturate64 (now - gz.recoveryStart.getD now) := by
      cases hrecovery : gz.recoveryStart with
      | none => simp [saturate64]
      | some start =>
        have := hstart start hrecovery
        rw [getD_some, saturate64]
        omega
    obtain ⟨hx0, hx1⟩ := h.remaining helapsed (not_le.mp hend)
    rw [← hresult]
    refine ⟨h.scaled hg0 hg1 hx0 hx1, hmild _ _, ?_⟩
    cases gz.recoveryStart <;> simp
  · rw [← hresult]
    exact ⟨hbase, h, fun t ht => .inl ht⟩

end Mild

end GreyZoneState

/-- The base penalty of the configuration. -/
def GreyZoneConfig.base (lib : ConfigLibrary ℚ) (zone : GreyZoneConfig ℚ) : ℤ :=
  (lib.parseDuration zone.penaltyBase).toOption.getD 0

/-- The largest penalty. -/
def GreyZoneConfig.reach (lib : ConfigLibrary ℚ) (zone : GreyZoneConfig ℚ) : ℚ :=
  zone.base lib * max 1 zone.spikePenaltyMultiplier

namespace LoadBasedResponseDistribution

variable {lb lb' : LoadBasedResponseDistribution ℚ} {reach : ℚ} {times : List ℤ} {d now : ℤ}

/-- The durations leave room for a penalty, and the grey zone recovers since one of the times. -/
structure Steady (lb : LoadBasedResponseDistribution ℚ) (reach : ℚ) (times : List ℤ) : Prop where
  durations : ∀ tier, ∀ d ∈ (lb.distribution tier).durations truncate, 0 ≤ d ∧ d + reach < 2 ^ 63
  greyZone : ∀ gz, lb.greyZone = some gz →
    gz.Mild reach ∧ ∀ t ∈ gz.recoveryStart, t ∈ times

theorem Steady.penalize (h : lb.Steady reach times) (hreach : 0 ≤ reach)
    (hnow : ∀ t ∈ times, t ≤ now) (load : ℚ) :
    (0 ≤ (lb.penalize truncate load now).1 ∧ ((lb.penalize truncate load now).1 : ℚ) ≤ reach) ∧
      ∀ gz, (lb.penalize truncate load now).2 = some gz →
        gz.Mild reach ∧ ∀ t ∈ gz.recoveryStart, t ∈ times ++ [now] := by
  unfold LoadBasedResponseDistribution.penalize
  cases hgz : lb.greyZone with
  | none => simpa using hreach
  | some gz =>
    obtain ⟨hmild, hstarted⟩ := h.greyZone gz hgz
    have hg0 : 0 ≤ lb.thresholds.clamped load := le_min (le_max_right _ _) zero_le_one
    obtain ⟨hpenalty, hmild', hstart⟩ := hmild.penalty hg0 (min_le_right _ _)
      (fun t ht => hnow t (hstarted t ht)) rfl
    refine ⟨hpenalty, ?_⟩
    rintro state ⟨⟩
    refine ⟨hmild', fun t ht => ?_⟩
    rcases hstart t ht with hbefore | rfl
    · exact mem_append_left _ (hstarted t hbefore)
    · exact mem_append_right _ mem_cons_self

/-- One sample: its delay is not negative, and the distribution stays steady. -/
theorem Steady.sample (h : lb.Steady reach times) (hreach : 0 ≤ reach) {o : LoadObservation ℚ}
    {s : ResponseSample} (hsample : lb.sample truncate o = some (s, lb'))
    (hnow : ∀ t ∈ times, t ≤ o.now) : 0 ≤ s.duration ∧ lb'.Steady reach (times ++ [o.now]) := by
  obtain ⟨⟨hpenalty0, hpenalty1⟩, hzone⟩ := h.penalize hreach hnow o.currentInFlight
  rw [sample_eq] at hsample
  obtain ⟨⟨t, rd⟩, hrd, heq⟩ := map_eq_some_iff.mp hsample
  cases heq
  obtain ⟨houtline, hmem⟩ := ResponseDistribution.sample_spec hrd
  obtain ⟨hnonneg, hfits⟩ := h.durations _ t.duration hmem
  constructor
  · dsimp only [delay]
    split_ifs
    · have hsum : ((t.duration + (lb.penalize truncate o.currentInFlight o.now).1 : ℤ) : ℚ) <
          2 ^ 63 := by
        push_cast
        linarith
      rw [wrap64_eq_self ⟨by omega, by exact_mod_cast hsum⟩]
      omega
    · exact hnonneg
  · refine ⟨fun tier d hd => ?_, fun gz hgz => ?_⟩
    · rw [ResponseDistribution.durations_of_outline (outline_setDistribution truncate
        (by rwa [distribution_setGreyZone]) tier), distribution_setGreyZone] at hd
      exact h.durations tier d hd
    · rw [setDistribution_greyZone] at hgz
      exact hzone gz hgz

theorem Steady.of_samples (h : lb.Steady reach []) (hreach : 0 ≤ reach)
    {observations : List (LoadObservation ℚ)}
    (hclock : observations.Pairwise fun earlier later => earlier.now ≤ later.now)
    (hsamples : lb.samples truncate observations = some lb') :
    lb'.Steady reach (observations.map LoadObservation.now) := by
  revert hclock
  refine @run_induction _ _ _ _ (fun observations reached =>
    (observations.Pairwise fun earlier later => earlier.now ≤ later.now) →
      reached.Steady reach (observations.map LoadObservation.now)) (fun _ => h) ?_ _ _ hsamples
  intro before s o s' _ hsteady hstep hclock
  obtain ⟨⟨sample, next⟩, hsample, rfl⟩ := map_eq_some_iff.mp hstep
  obtain ⟨hbefore, -, hlast⟩ := pairwise_append.mp hclock
  rw [map_append]
  refine ((hsteady hbefore).sample hreach hsample ?_).2
  simpa using fun x hx => hlast x hx o mem_cons_self

/-- Twice every configured duration fits into 64 bits, together with the largest penalty. -/
def DelaysFit (text : Text) (responses : List StatusDistribution) (reach : ℚ) : Prop :=
  ∀ sd ∈ responses, ∀ entry ∈ sd.distribution.entries, ∀ d, text.parseDuration entry.2 = .ok d →
    2 * d + reach < 2 ^ 63

section

variable {text : Text} {lib : ConfigLibrary ℚ}
  (hparser : lib.parsePercentileDistribution = parsePercentileDistribution text)
include hparser

theorem durations_bounds {env : BuildEnvironment} {responses : List StatusDistribution}
    {distributionMode : String} {rd : ResponseDistribution ℚ} {reach : ℚ}
    (hbuild : newResponseDistribution truncate lib env responses distributionMode = .ok rd)
    (hfits : DelaysFit text responses reach) (hreach : 0 ≤ reach)
    (hd : d ∈ rd.durations truncate) : 0 ≤ d ∧ d + reach < 2 ^ 63 := by
  obtain ⟨-, hentries, -⟩ := newResponseDistribution_eq_ok hbuild
  obtain ⟨r, entry, -, -, hentry, hd⟩ := hd
  obtain ⟨j, sd, hsd, hnew⟩ := (mem_collect hentries).mp (mem_of_getElem? hentry)
  obtain ⟨ps, hparse, hnew⟩ := bind_eq_ok hnew
  obtain ⟨dist, hdist, hnew⟩ := bind_eq_ok hnew
  cases hnew
  rw [mapError_eq_ok, hparser] at hparse
  -- The largest delay that leaves room for the penalty.
  have htop : ∀ p ∈ ps, 2 * p.duration ≤ ⌈2 ^ 63 - reach⌉ - 1 := by
    intro p hp
    obtain ⟨source, hsource, hp⟩ := PercentileParser.exists_entry text.sort_perm hparse hp
    have hduration := (PercentileParser.parsePercentile_eq_ok hp).2.1
    have hless := hfits sd (mem_of_getElem? hsd) source
      ((env.orders.visits j sd.distribution).mem_iff.mp hsource) p.duration hduration
    have hceil : 2 * p.duration < ⌈2 ^ 63 - reach⌉ := by
      rw [Int.lt_ceil]
      push_cast
      linarith
    omega
  have hceil : ⌈2 ^ 63 - reach⌉ ≤ 2 ^ 63 := by
    rw [Int.ceil_le]
    push_cast
    linarith
  obtain ⟨hnonneg, hle⟩ := DurationDistribution.durations_bounds (accepted_of_parse hparse)
    (by omega) htop hdist hd
  have hless : (d : ℚ) < 2 ^ 63 - reach := Int.lt_ceil.mp (by omega)
  exact ⟨hnonneg, by linarith⟩

variable {healthy tippingPoint : LoadTier ℚ} {gz : Option (GreyZoneConfig ℚ)}
  {healthyOrders tippingOrders : MapOrders} {context : String}
  (haccepted : lib.validateLoadBased ⟨some healthy, some tippingPoint, gz⟩ healthyOrders
    tippingOrders context = none)
  {healthyEnv tippingEnv : BuildEnvironment} {distributionMode : String}
  (hbuild : newLoadBasedResponseDistribution truncate lib healthyEnv tippingEnv
    healthy.responses healthy.thresholdInFlight tippingPoint.responses
    tippingPoint.thresholdInFlight gz distributionMode = .ok lb)
  (hbase : ∀ zone, gz = some zone → 0 ≤ zone.base lib)
  (hfits : DelaysFit text (healthy.responses ++ tippingPoint.responses)
    (gz.elim 0 (GreyZoneConfig.reach lib)))
include haccepted hbuild hbase hfits

theorem steady_of_build :
    0 ≤ gz.elim 0 (GreyZoneConfig.reach lib) ∧
      lb.Steady (gz.elim 0 (GreyZoneConfig.reach lib)) [] := by
  simp only [ConfigLibrary.validateLoadBased, joinErrors_eq_none, append_eq_nil_iff] at haccepted
  obtain ⟨-, hzone⟩ := haccepted
  obtain ⟨healthyRd, hhealthy, hbuild⟩ := bind_eq_ok hbuild
  obtain ⟨tippingRd, htipping, hbuild⟩ := bind_eq_ok hbuild
  cases hbuild
  have hreach : 0 ≤ gz.elim 0 (GreyZoneConfig.reach lib) := by
    cases gz with
    | none => exact le_rfl
    | some zone =>
      exact mul_nonneg (by exact_mod_cast hbase zone rfl) (zero_le_one.trans (le_max_left _ _))
  refine ⟨hreach, fun tier d hd => ?_, fun state hstate => ?_⟩
  · cases tier with
    | healthy =>
      exact durations_bounds hparser hhealthy
        (fun sd hsd => hfits sd (mem_append_left _ hsd)) hreach hd
    | tippingPoint =>
      exact durations_bounds hparser htipping
        (fun sd hsd => hfits sd (mem_append_right _ hsd)) hreach hd
  · obtain ⟨zone, rfl, rfl⟩ := map_eq_some_iff.mp hstate
    simp only [elim_some, ConfigLibrary.greyZoneErrors, append_eq_nil_iff, errorIf_eq_nil, not_or,
      not_le, not_lt] at hzone
    obtain ⟨⟨-, hmultiplier⟩, hrate, hrate1⟩ := hzone
    have hbase' : (0 : ℚ) ≤ zone.base lib := by exact_mod_cast hbase zone rfl
    exact ⟨⟨hbase zone rfl, le_mul_of_one_le_right hbase' (le_max_left _ _), hmultiplier.le,
      mul_le_mul_of_nonneg_left (le_max_right _ _) hbase', hrate.le, hrate1⟩, by rintro t ⟨⟩⟩

end

end LoadBasedResponseDistribution

def healthyTier : LoadTier ℚ := ⟨10, medians [(200, 1)]⟩

def tippingTier : LoadTier ℚ := ⟨20, medians [(503, 1)]⟩

def greyZoneOf (penaltyBase : String) : GreyZoneConfig ℚ := ⟨penaltyBase, 3 / 4, "5ns", 2, 1⟩

def buildWith (penaltyBase distributionMode : String) :
    Except Failure (LoadBasedResponseDistribution ℚ) :=
  newLoadBasedResponseDistribution truncate wholeLibrary plainEnvironment plainEnvironment
    healthyTier.responses healthyTier.thresholdInFlight tippingTier.responses
    tippingTier.thresholdInFlight (some (greyZoneOf penaltyBase)) distributionMode

/-- What is built with a base penalty of ten nanoseconds: each tier has one duration. -/
def steadyLoad : LoadBasedResponseDistribution ℚ where
  healthy := ⟨[⟨200, 1, .stateful ⟨[10], 0⟩, none⟩], 1⟩
  tippingPoint := ⟨[⟨503, 1, .stateful ⟨[10], 0⟩, none⟩], 1⟩
  thresholds := ⟨10, 20⟩
  greyZone := some (.new 10 5 (3 / 4) 2 1)

theorem steadyLoad_fits :
    LoadBasedResponseDistribution.DelaysFit wholeText
      (healthyTier.responses ++ tippingTier.responses)
      ((greyZoneOf "10ns").reach wholeLibrary) := by
  have hreach : (greyZoneOf "10ns").reach wholeLibrary = 20 := by decide +kernel
  intro sd hsd entry hentry d hd
  have hduration : d = 10 := by
    fin_cases hsd <;> fin_cases hentry <;>
      exact Except.ok.inj (hd.symm.trans (by decide +kernel))
  rw [hreach, hduration]
  norm_num

end BuiltOnEnvoy.FaultInjection
