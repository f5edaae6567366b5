import Mathlib.Algebra.Order.Field.Rat
import Mathlib.Data.List.DropRight
import Mathlib.Tactic.Linarith
import Mathlib.Tactic.Ring

/-!
# The grey zone of the fault injection filter

Between the thresholds of a load-based distribution a penalty is added to the
delay. The code keeps whether it is in a spike and when the recovery from it
started; both are updated for every observed load. In exact arithmetic the
penalty is a function of the loads observed so far.
-/

namespace BuiltOnEnvoy.FaultInjection

open List

/-- The conversions between durations and floats, and the time between two instants. -/
structure DurationArithmetic (F D T : Type) where
  /-- `float64(d)` -/
  toFloat : D → F
  /-- `time.Duration(x)` -/
  ofFloat : F → D
  /-- `now.Sub(start)` -/
  sub : T → T → D

/-- `greyZoneState`. The zero time, which no clock shows, is none. -/
structure GreyZoneState (F D T : Type) where
  penaltyBase : D
  spikePenaltyDuration : D
  spikeThreshold : F
  spikePenaltyMultiplier : F
  recoveryRate : F
  recoveryStart : Option T
  inSpike : Bool
  deriving DecidableEq

structure Observation (F T : Type) where
  currentInFlight : F
  now : T

section

variable {F D T : Type} (arith : DurationArithmetic F D T)
variable [One F] [Sub F] [Mul F] [Div F] [LE F] [DecidableLE F] [LE D] [DecidableLE D]

def calculateGreyZonePenalty (gz : GreyZoneState F D T) (greyPosition : F) (now : T) :
    D × GreyZoneState F D T :=
  let basePenalty := arith.ofFloat (arith.toFloat gz.penaltyBase * greyPosition)
  if gz.spikeThreshold ≤ greyPosition then
    (arith.ofFloat (arith.toFloat basePenalty * gz.spikePenaltyMultiplier),
      { gz with inSpike := true, recoveryStart := none })
  else if gz.inSpike then
    let recoveryStart := gz.recoveryStart.getD now
    let elapsed := arith.sub now recoveryStart
    if gz.spikePenaltyDuration ≤ elapsed then
      (basePenalty, { gz with inSpike := false, recoveryStart := none })
    else
      let remaining :=
        1 - arith.toFloat elapsed / arith.toFloat gz.spikePenaltyDuration * gz.recoveryRate
      (arith.ofFloat (arith.toFloat basePenalty * gz.spikePenaltyMultiplier * remaining),
        { gz with recoveryStart := some recoveryStart })
  else (basePenalty, gz)

def GreyZoneState.basePenalty (gz : GreyZoneState F D T) (greyPosition : F) : D :=
  arith.ofFloat (arith.toFloat gz.penaltyBase * greyPosition)

def GreyZoneState.spikePenalty (gz : GreyZoneState F D T) (greyPosition : F) : D :=
  arith.ofFloat (arith.toFloat (gz.basePenalty arith greyPosition) * gz.spikePenaltyMultiplier)

/-- The penalty some time after the start of a recovery. -/
def GreyZoneState.recoveryPenalty (gz : GreyZoneState F D T) (greyPosition : F) (elapsed : D) : D :=
  arith.ofFloat (arith.toFloat (gz.basePenalty arith greyPosition) * gz.spikePenaltyMultiplier *
    (1 - arith.toFloat elapsed / arith.toFloat gz.spikePenaltyDuration * gz.recoveryRate))

/-- In a spike, with the time at which the recovery started, if it has. -/
def GreyZoneState.spiking (gz : GreyZoneState F D T) (start : Option T) : GreyZoneState F D T :=
  { gz with inSpike := true, recoveryStart := start }

def GreyZoneState.recovered (gz : GreyZoneState F D T) : GreyZoneState F D T :=
  { gz with inSpike := false, recoveryStart := none }

/-- The state as it is built. -/
def GreyZoneState.new (penaltyBase spikePenaltyDuration : D)
    (spikeThreshold spikePenaltyMultiplier recoveryRate : F) : GreyZoneState F D T where
  penaltyBase := penaltyBase
  spikePenaltyDuration := spikePenaltyDuration
  spikeThreshold := spikeThreshold
  spikePenaltyMultiplier := spikePenaltyMultiplier
  recoveryRate := recoveryRate
  recoveryStart := none
  inSpike := false

section

variable (gz : GreyZoneState F D T) {greyPosition : F} {now : T}

theorem calculateGreyZonePenalty_spike (h : gz.spikeThreshold ≤ greyPosition) :
    calculateGreyZonePenalty arith gz greyPosition now =
      (gz.spikePenalty arith greyPosition, gz.spiking none) :=
  if_pos h

theorem calculateGreyZonePenalty_calm (h : ¬gz.spikeThreshold ≤ greyPosition)
    (hspike : gz.inSpike = false) :
    calculateGreyZonePenalty arith gz greyPosition now =
      (gz.basePenalty arith greyPosition, gz) :=
  (if_neg h).trans (if_neg (by simp [hspike]))

theorem calculateGreyZonePenalty_recovered (h : ¬gz.spikeThreshold ≤ greyPosition)
    (start : Option T) (hend : gz.spikePenaltyDuration ≤ arith.sub now (start.getD now)) :
    calculateGreyZonePenalty arith (gz.spiking start) greyPosition now =
      (gz.basePenalty arith greyPosition, gz.recovered) :=
  (if_neg h).trans ((if_pos rfl).trans (if_pos hend))

theorem calculateGreyZonePenalty_recovering (h : ¬gz.spikeThreshold ≤ greyPosition)
    (start : Option T) (hend : ¬gz.spikePenaltyDuration ≤ arith.sub now (start.getD now)) :
    calculateGreyZonePenalty arith (gz.spiking start) greyPosition now =
      (gz.recoveryPenalty arith greyPosition (arith.sub now (start.getD now)),
        gz.spiking (some (start.getD now))) :=
  (if_neg h).trans ((if_pos rfl).trans (if_neg hend))

end

variable [Zero F] [Min F] [Max F]

/-- The thresholds of the two tiers. -/
structure Thresholds (F : Type) where
  healthy : F
  tipping : F
  deriving DecidableEq

def Thresholds.greyPosition (thresholds : Thresholds F) (currentInFlight : F) : F :=
  (currentInFlight - thresholds.healthy) / (thresholds.tipping - thresholds.healthy)

def Thresholds.clamped (thresholds : Thresholds F) (currentInFlight : F) : F :=
  min (max (thresholds.greyPosition currentInFlight) 0) 1

/-- The penalty for an observed load, and the state after it. -/
def observe (thresholds : Thresholds F) (gz : GreyZoneState F D T) (o : Observation F T) :
    D × GreyZoneState F D T :=
  calculateGreyZonePenalty arith gz (thresholds.clamped o.currentInFlight) o.now

/-- The state after a sequence of observed loads. -/
def observeAll (thresholds : Thresholds F) (gz : GreyZoneState F D T)
    (observations : List (Observation F T)) : GreyZoneState F D T :=
  observations.foldl (fun gz o => (observe arith thresholds gz o).2) gz

end

def exactDurations : DurationArithmetic ℚ ℚ ℚ := ⟨id, id, fun now start => now - start⟩

namespace GreyZoneState

variable (gz : GreyZoneState ℚ ℚ ℚ) (thresholds : Thresholds ℚ)

def Spikes (o : Observation ℚ ℚ) : Prop :=
  gz.spikeThreshold ≤ thresholds.clamped o.currentInFlight

instance : DecidablePred (gz.Spikes thresholds) := fun _ => inferInstanceAs (Decidable (_ ≤ _))

/-- The observations after the last one at or above the spike threshold. -/
def sinceSpike (before : List (Observation ℚ ℚ)) : List (Observation ℚ ℚ) :=
  before.rtakeWhile fun x => ¬gz.Spikes thresholds x

/-- The penalty after a spike, with `t0` the time of the first observation since. -/
def penaltySince (g t0 now : ℚ) : ℚ :=
  if now - t0 < gz.spikePenaltyDuration then
    gz.penaltyBase * g * gz.spikePenaltyMultiplier *
      (1 - gz.recoveryRate * (now - t0) / gz.spikePenaltyDuration)
  else gz.penaltyBase * g

/-- The penalty as a function of the observations so far. The first observation since a spike
may be the present one. -/
def documentedPenalty (before : List (Observation ℚ ℚ)) (o : Observation ℚ ℚ) : ℚ :=
  let g := thresholds.clamped o.currentInFlight
  if gz.Spikes thresholds o then gz.penaltyBase * g * gz.spikePenaltyMultiplier
  else if ∀ x ∈ before, ¬gz.Spikes thresholds x then gz.penaltyBase * g
  else gz.penaltySince g ((gz.sinceSpike thresholds before).headD o).now o.now

/-- The state after a spike and the observations since. -/
def recovery : List (Observation ℚ ℚ) → GreyZoneState ℚ ℚ ℚ
  | [] => gz.spiking none
  | first :: more =>
    if ∀ x ∈ first :: more, x.now - first.now < gz.spikePenaltyDuration then
      gz.spiking (some first.now)
    else gz.recovered

variable {gz thresholds}

theorem sinceSpike_append_spike {before : List (Observation ℚ ℚ)} {o : Observation ℚ ℚ}
    (h : gz.Spikes thresholds o) : gz.sinceSpike thresholds (before ++ [o]) = [] :=
  rtakeWhile_concat_neg _ _ _ (by simpa using h)

theorem sinceSpike_append {before : List (Observation ℚ ℚ)} {o : Observation ℚ ℚ}
    (h : ¬gz.Spikes thresholds o) :
    gz.sinceSpike thresholds (before ++ [o]) = gz.sinceSpike thresholds before ++ [o] :=
  rtakeWhile_concat_pos _ _ _ (by simpa using h)

section

variable {rest before : List (Observation ℚ ℚ)} {o : Observation ℚ ℚ}

theorem observe_spiking (h : ¬gz.Spikes thresholds o) (start : Option ℚ) :
    observe exactDurations thresholds (gz.spiking start) o =
      (gz.penaltySince (thresholds.clamped o.currentInFlight) (start.getD o.now) o.now,
        if o.now - start.getD o.now < gz.spikePenaltyDuration then
          gz.spiking (some (start.getD o.now))
        else gz.recovered) := by
  by_cases hend : o.now - start.getD o.now < gz.spikePenaltyDuration
  · have hrunning : ¬gz.spikePenaltyDuration ≤ o.now - start.getD o.now := not_le.mpr hend
    rw [observe, calculateGreyZonePenalty_recovering _ gz h start hrunning, penaltySince,
      if_pos hend, if_pos hend, recoveryPenalty, basePenalty]
    simp only [exactDurations, id]
    ring_nf
  · rw [observe, calculateGreyZonePenalty_recovered _ gz h start (not_lt.mp hend), penaltySince,
      if_neg hend, if_neg hend]
    rfl

theorem observe_recovery (h : ¬gz.Spikes thresholds o) (htimes : ∀ x ∈ rest, x.now ≤ o.now) :
    observe exactDurations thresholds (gz.recovery rest) o =
      (gz.penaltySince (thresholds.clamped o.currentInFlight) (rest.headD o).now o.now,
        gz.recovery (rest ++ [o])) := by
  cases rest with
  | nil =>
    rw [recovery, observe_spiking h none]
    simp [recovery]
  | cons first more =>
    rw [cons_append, headD_cons, recovery, recovery]
    have hall : (∀ x ∈ first :: (more ++ [o]), x.now - first.now < gz.spikePenaltyDuration) ↔
        (∀ x ∈ first :: more, x.now - first.now < gz.spikePenaltyDuration) ∧
          o.now - first.now < gz.spikePenaltyDuration := by
      rw [← cons_append, forall_mem_append, forall_mem_singleton]
    by_cases hrunning : ∀ x ∈ first :: more, x.now - first.now < gz.spikePenaltyDuration
    · rw [if_pos hrunning, observe_spiking h (some first.now)]
      simp only [Option.getD_some, hall.trans (and_iff_right hrunning)]
    · -- The recovery has ended, and the times do not go back.
      have hover : ¬o.now - first.now < gz.spikePenaltyDuration := by
        intro hlast
        apply hrunning
        intro x hx
        linarith [htimes x hx]
      rw [if_neg hrunning, if_neg fun hboth => hover (hall.mp hboth).2, penaltySince,
        if_neg hover, observe, calculateGreyZonePenalty_calm _ gz.recovered h rfl]
      rfl

theorem observeAll_append (s : GreyZoneState ℚ ℚ ℚ) :
    observeAll exactDurations thresholds s (before ++ [o]) =
      (observe exactDurations thresholds (observeAll exactDurations thresholds s before) o).2 := by
  simp [observeAll]

theorem recovery_spiking (rest : List (Observation ℚ ℚ)) (start : Option ℚ) :
    (gz.recovery rest).spiking start = gz.spiking start := by
  cases rest with
  | nil => rfl
  | cons first more =>
    rw [recovery]
    split_ifs <;> rfl

theorem observe_spike {s : GreyZoneState ℚ ℚ ℚ} (hs : s.spiking none = gz.spiking none)
    (h : gz.Spikes thresholds o) :
    observe exactDurations thresholds s o =
      (gz.penaltyBase * thresholds.clamped o.currentInFlight * gz.spikePenaltyMultiplier,
        gz.spiking none) := by
  obtain ⟨hbase, -, hthreshold, hmultiplier, -⟩ := mk.inj hs
  rw [observe, calculateGreyZonePenalty_spike _ s (hthreshold.trans_le h), hs, spikePenalty,
    basePenalty, hbase, hmultiplier]
  rfl

theorem forall_append_not_spikes (h : ¬gz.Spikes thresholds o) :
    (∀ x ∈ before ++ [o], ¬gz.Spikes thresholds x) ↔ ∀ x ∈ before, ¬gz.Spikes thresholds x := by
  rw [forall_mem_append, forall_mem_singleton, and_iff_left h]

/-- The state that the observations have left. -/
def remembered (gz : GreyZoneState ℚ ℚ ℚ) (thresholds : Thresholds ℚ)
    (before : List (Observation ℚ ℚ)) : GreyZoneState ℚ ℚ ℚ :=
  if ∀ x ∈ before, ¬gz.Spikes thresholds x then gz
  else gz.recovery (gz.sinceSpike thresholds before)

/-- One observation, after any others: the documented penalty, and what is left of it. -/
theorem observe_remembered (hcalm : gz.inSpike = false) (htimes : ∀ x ∈ before, x.now ≤ o.now) :
    observe exactDurations thresholds (gz.remembered thresholds before) o =
      (gz.documentedPenalty thresholds before o, gz.remembered thresholds (before ++ [o])) := by
  unfold documentedPenalty remembered
  by_cases hspike : gz.Spikes thresholds o
  · have hsome : ¬∀ x ∈ before ++ [o], ¬gz.Spikes thresholds x := fun hnone =>
      hnone o (by simp) hspike
    rw [if_pos hspike, if_neg hsome, sinceSpike_append_spike hspike]
    apply observe_spike _ hspike
    split_ifs
    · rfl
    · exact recovery_spiking _ none
  · rw [if_neg hspike]
    simp only [forall_append_not_spikes hspike]
    split_ifs with hnone
    · exact calculateGreyZonePenalty_calm _ gz hspike hcalm
    · have hsince : ∀ x ∈ gz.sinceSpike thresholds before, x.now ≤ o.now := fun x hx =>
        htimes x ((rtakeWhile_suffix _ _).subset hx)
      rw [observe_recovery hspike hsince, sinceSpike_append hspike]

theorem observeAll_eq (hcalm : gz.inSpike = false)
    (htimes : before.Pairwise fun x y => x.now ≤ y.now) :
    observeAll exactDurations thresholds gz before = gz.remembered thresholds before := by
  induction before using List.reverseRecOn with
  | nil => simp [observeAll, remembered]
  | append_singleton before o ih =>
    obtain ⟨hbefore, -, hlast⟩ := pairwise_append.mp htimes
    have hle : ∀ x ∈ before, x.now ≤ o.now := fun x hx => hlast x hx o (by simp)
    rw [observeAll_append, ih hbefore, observe_remembered hcalm hle]

end

/-- The penalty at each observation is the one that is documented for its history. -/
theorem penalty_of_history (penaltyBase spikePenaltyDuration spikeThreshold
    spikePenaltyMultiplier recoveryRate : ℚ) (thresholds : Thresholds ℚ)
    (before : List (Observation ℚ ℚ)) (o : Observation ℚ ℚ)
    (htimes : (before ++ [o]).Pairwise fun x y => x.now ≤ y.now) :
    let gz := new penaltyBase spikePenaltyDuration spikeThreshold spikePenaltyMultiplier
      recoveryRate
    (observe exactDurations thresholds (observeAll exactDurations thresholds gz before) o).1 =
      gz.documentedPenalty thresholds before o := by
  intro gz
  obtain ⟨hbefore, -, hlast⟩ := pairwise_append.mp htimes
  have hle : ∀ x ∈ before, x.now ≤ o.now := fun x hx => hlast x hx o (by simp)
  have hcalm : gz.inSpike = false := rfl
  rw [observeAll_eq hcalm hbefore, observe_remembered hcalm hle]

/-- Two units of time into a recovery of four. -/
theorem penalty_halfway :
    (observe exactDurations ⟨0, 10⟩
      (observeAll exactDurations ⟨0, 10⟩ (new 10 4 (1 / 2) 3 (1 / 2)) [⟨8, 0⟩, ⟨4, 1⟩])
      ⟨4, 3⟩).1 = 9 :=
  (penalty_of_history 10 4 (1 / 2) 3 (1 / 2) ⟨0, 10⟩ [⟨8, 0⟩, ⟨4, 1⟩] ⟨4, 3⟩
    (by norm_num)).trans (by decide +kernel)

end GreyZoneState

end BuiltOnEnvoy.FaultInjection
