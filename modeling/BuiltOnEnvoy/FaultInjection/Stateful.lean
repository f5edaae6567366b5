import BuiltOnEnvoy.FaultInjection.Percentiles
import BuiltOnEnvoy.Foundations.Shuffle

/-!
# The stateful distribution of the fault injection filter

A table of `resolution` durations is filled bucket by bucket, shuffled and handed
out again and again. The arithmetic of the quantiles is a parameter: what holds of
the cycles holds for any rounding, what holds of the values is shown for exact
numbers. The number of slots of each bucket is rounded down, and the slots that are
left over are filled with durations from the last one up to twice that.
-/

namespace BuiltOnEnvoy.FaultInjection

open Foundations List

/-- `StatefulProbabilityDistribution`. -/
abbrev StatefulDistribution := Deck ℤ

/-- The slots of the table, those that are not written yet among them, and the next index. -/
structure Table where
  slots : List (Option ℤ)
  idx : ℕ

def Table.make (resolution : ℕ) : Table := ⟨List.replicate resolution none, 0⟩

def Table.write (t : Table) (dur : ℤ) : Table := ⟨t.slots.set t.idx (some dur), t.idx + 1⟩

/-- The durations as they are read: a slot that is not written holds zero. -/
def Table.values (t : Table) : List ℤ := t.slots.map fun slot => slot.getD 0

section

variable {F : Type} [Mul F] [Div F] [IntCast F] (toInt : F → ℤ)

/-- A duration between two others, for slot `i` of `count` slots. -/
def slotDuration (low span i count : ℤ) : ℤ :=
  low + toInt ((i : F) / (count : F) * (span : F))

/-- The slots of one bucket, while there is room. -/
def fillBucket (resolution : ℕ) (low high count : ℤ) (t : Table) : Table :=
  (List.range count.toNat).foldl
    (fun t (i : ℕ) =>
      if t.idx < resolution then t.write (slotDuration toInt low (high - low) i count) else t) t

/-- The slots beyond the last percentile. -/
def fillTail (resolution : ℕ) (lastDuration : ℤ) (t : Table) : Table :=
  let remaining : ℤ := resolution - t.idx
  (List.range remaining.toNat).foldl
    (fun t (i : ℕ) => t.write (slotDuration toInt lastDuration lastDuration i remaining)) t

variable [Sub F]

def bucketCount (resolution : ℕ) (prevQuantile quantile : F) : ℤ :=
  toInt (((resolution : ℤ) : F) * (quantile - prevQuantile))

/-- The loop over the percentiles, and the duration of the last one. -/
def fillBuckets (resolution : ℕ) (prevQuantile : F) (prevDuration : ℤ) (t : Table) :
    List (Percentile F) → Table × ℤ
  | [] => (t, prevDuration)
  | p :: rest =>
    let count := bucketCount toInt resolution prevQuantile p.quantile
    fillBuckets resolution p.quantile p.duration
      (fillBucket toInt resolution prevDuration p.duration count t) rest

variable [Zero F]

/-- The table before it is shuffled. -/
def precompute (percentiles : List (Percentile F)) (resolution : ℕ) : Table :=
  let filled := fillBuckets toInt resolution 0 0 (.make resolution) percentiles
  fillTail toInt resolution filled.2 filled.1

/-- The table holds the durations as they are stored: each slot is written once. -/
def newStatefulProbabilityDistribution (store : ℤ → ℤ) (percentiles : List (Percentile F))
    (resolution : ℕ) (draw : Draws) : StatefulDistribution :=
  ⟨shuffle draw ((precompute toInt percentiles resolution).values.map store), 0⟩

end

/-- `Sample`: there is no result when the index is out of range. -/
def StatefulDistribution.sample (spd : StatefulDistribution) (draw : Draws) :
    Option (ℤ × StatefulDistribution) :=
  spd.next draw

/-- The results of successive calls of `Sample`, each with the draws of its shuffle. -/
def StatefulDistribution.samples (spd : StatefulDistribution) (draws : List Draws) :
    Option (List ℤ × StatefulDistribution) :=
  spd.take draws

/-- The first slots hold these durations and the others are not written. -/
structure Table.Holds (t : Table) (resolution : ℕ) (durations : List ℤ) : Prop where
  slots : t.slots = durations.map some ++ List.replicate (resolution - durations.length) none
  idx : t.idx = durations.length
  fits : durations.length ≤ resolution

namespace Table

variable {t : Table} {resolution : ℕ} {durations : List ℤ}

theorem holds_make (resolution : ℕ) : (make resolution).Holds resolution [] :=
  ⟨rfl, rfl, Nat.zero_le resolution⟩

theorem Holds.write (h : t.Holds resolution durations) (hroom : durations.length < resolution)
    (dur : ℤ) : (t.write dur).Holds resolution (durations ++ [dur]) := by
  have hleft : resolution - durations.length = resolution - (durations.length + 1) + 1 := by omega
  refine ⟨?_, ?_, ?_⟩
  · rw [Table.write, h.slots, h.idx, set_append_right _ _ (by simp), length_map,
      Nat.sub_self, hleft, replicate_succ, set_cons_zero, map_append,
      length_append]
    simp
  · simp [Table.write, h.idx]
  · rw [length_append, length_singleton]
    exact hroom

theorem Holds.write_while (h : t.Holds resolution durations) (more : List ℤ) :
    (more.foldl (fun t dur => if t.idx < resolution then t.write dur else t) t).Holds resolution
      (durations ++ more.take (resolution - durations.length)) := by
  induction more generalizing t durations with
  | nil => simpa using h
  | cons dur more ih =>
    rw [foldl_cons, h.idx]
    split
    case isTrue hroom =>
      have hleft : resolution - durations.length = resolution - (durations.length + 1) + 1 := by
        omega
      have hrest := ih (h.write hroom dur)
      rw [length_append, length_singleton, append_assoc] at hrest
      rw [hleft, take_succ_cons]
      exact hrest
    case isFalse hfull =>
      have hleft : resolution - durations.length = 0 := by omega
      have hrest := ih h
      rw [hleft, take_zero] at hrest ⊢
      exact hrest

theorem Holds.write_all (h : t.Holds resolution durations) {more : List ℤ}
    (hroom : durations.length + more.length ≤ resolution) :
    (more.foldl Table.write t).Holds resolution (durations ++ more) := by
  induction more generalizing t durations with
  | nil => simpa using h
  | cons dur more ih =>
    rw [length_cons] at hroom
    have hrest := ih (h.write (by omega) dur) (by simp; omega)
    rwa [append_assoc] at hrest

theorem Holds.values_eq (h : t.Holds resolution durations) (hfull : durations.length = resolution) :
    t.values = durations := by
  rw [values, h.slots, hfull, Nat.sub_self, replicate_zero, append_nil, List.map_map]
  exact List.map_id _

end Table

section

variable {F : Type} [Mul F] [Div F] [IntCast F] (toInt : F → ℤ)

def bucketDurations (low high count : ℤ) : List ℤ :=
  (List.range count.toNat).map fun i : ℕ => slotDuration toInt low (high - low) i count

def tailDurations (lastDuration : ℤ) (remaining : ℕ) : List ℤ :=
  (List.range remaining).map fun i : ℕ => slotDuration toInt lastDuration lastDuration i remaining

variable {t : Table} {resolution : ℕ} {durations : List ℤ}

theorem fillBucket_holds (h : t.Holds resolution durations) (low high count : ℤ) :
    (fillBucket toInt resolution low high count t).Holds resolution
      (durations ++
        (bucketDurations toInt low high count).take (resolution - durations.length)) := by
  have hfold := h.write_while (bucketDurations toInt low high count)
  rw [bucketDurations, foldl_map] at hfold
  exact hfold

theorem fillTail_holds (h : t.Holds resolution durations) (lastDuration : ℤ) :
    (fillTail toInt resolution lastDuration t).Holds resolution
      (durations ++ tailDurations toInt lastDuration (resolution - durations.length)) := by
  have hremaining : (resolution - t.idx : ℤ) = (resolution - durations.length : ℕ) := by
    have := h.fits
    have := h.idx
    omega
  have hlength : durations.length +
      (tailDurations toInt lastDuration (resolution - durations.length)).length ≤ resolution := by
    have := h.fits
    simp [tailDurations]
    omega
  have hfold := h.write_all hlength
  rw [tailDurations, foldl_map] at hfold
  rw [fillTail, hremaining, Int.toNat_natCast]
  exact hfold

variable [Sub F]

/-- The durations of all buckets. -/
def allBuckets (resolution : ℕ) (prevQuantile : F) (prevDuration : ℤ) :
    List (Percentile F) → List ℤ
  | [] => []
  | p :: rest =>
    bucketDurations toInt prevDuration p.duration
      (bucketCount toInt resolution prevQuantile p.quantile) ++
        allBuckets resolution p.quantile p.duration rest

/-- The number of slots that the buckets ask for, each rounded on its own. -/
def slotCount (resolution : ℕ) (prevQuantile : F) : List (Percentile F) → ℕ
  | [] => 0
  | p :: rest =>
    (bucketCount toInt resolution prevQuantile p.quantile).toNat +
      slotCount resolution p.quantile rest

/-- The duration of the last percentile. -/
def lastDuration (prevDuration : ℤ) : List (Percentile F) → ℤ
  | [] => prevDuration
  | p :: rest => lastDuration p.duration rest

theorem length_allBuckets (percentiles : List (Percentile F)) (prevQuantile : F)
    (prevDuration : ℤ) :
    (allBuckets toInt resolution prevQuantile prevDuration percentiles).length =
      slotCount toInt resolution prevQuantile percentiles := by
  induction percentiles generalizing prevQuantile prevDuration with
  | nil => rfl
  | cons p rest ih =>
    rw [allBuckets, slotCount, length_append, ih, bucketDurations, length_map,
      length_range]

theorem fillBuckets_holds (percentiles : List (Percentile F)) (prevQuantile : F)
    (prevDuration : ℤ) (h : t.Holds resolution durations) :
    (fillBuckets toInt resolution prevQuantile prevDuration t percentiles).1.Holds resolution
      (durations ++ (allBuckets toInt resolution prevQuantile prevDuration percentiles).take
        (resolution - durations.length)) := by
  induction percentiles generalizing t durations prevQuantile prevDuration with
  | nil => simpa [fillBuckets, allBuckets] using h
  | cons p rest ih =>
    have hbucket := fillBucket_holds toInt h prevDuration p.duration
      (bucketCount toInt resolution prevQuantile p.quantile)
    have hrest := ih p.quantile p.duration hbucket
    rw [fillBuckets, allBuckets, List.take_append]
    rw [append_assoc, length_append, length_take] at hrest
    have hroom : ∀ n : ℕ, resolution - (durations.length + min (resolution - durations.length) n) =
        resolution - durations.length - n := by
      intro n
      omega
    rw [hroom] at hrest
    exact hrest

theorem fillBuckets_last (percentiles : List (Percentile F)) (prevQuantile : F)
    (prevDuration : ℤ) (t : Table) :
    (fillBuckets toInt resolution prevQuantile prevDuration t percentiles).2 =
      lastDuration prevDuration percentiles := by
  induction percentiles generalizing prevQuantile prevDuration t with
  | nil => rfl
  | cons p rest ih => rw [fillBuckets, ih, lastDuration]

variable [Zero F] (percentiles : List (Percentile F))

/-- The table in full: the durations of the buckets, and those of the tail for the slots that are
left. -/
def allDurations (resolution : ℕ) : List ℤ :=
  (allBuckets toInt resolution 0 0 percentiles).take resolution ++
    tailDurations toInt (lastDuration 0 percentiles)
      (resolution - slotCount toInt resolution 0 percentiles)

theorem precompute_holds (resolution : ℕ) :
    (precompute toInt percentiles resolution).Holds resolution
      (allDurations toInt percentiles resolution) := by
  have hbuckets := fillBuckets_holds toInt percentiles 0 0 (Table.holds_make resolution)
  rw [nil_append, length_nil, Nat.sub_zero] at hbuckets
  have htail := fillTail_holds toInt hbuckets (lastDuration 0 percentiles)
  rw [length_take, length_allBuckets] at htail
  have hremaining : resolution - min resolution (slotCount toInt resolution 0 percentiles) =
      resolution - slotCount toInt resolution 0 percentiles := by
    omega
  rw [hremaining] at htail
  rw [precompute, fillBuckets_last]
  exact htail

theorem precompute_full (resolution : ℕ) :
    (allDurations toInt percentiles resolution).length = resolution := by
  rw [allDurations, length_append, length_take, length_allBuckets, tailDurations, length_map,
    length_range]
  omega

theorem precompute_values (resolution : ℕ) :
    (precompute toInt percentiles resolution).values =
      allDurations toInt percentiles resolution :=
  (precompute_holds toInt percentiles resolution).values_eq (precompute_full toInt percentiles _)

theorem precompute_written (resolution : ℕ) :
    (precompute toInt percentiles resolution).slots.length = resolution ∧
      ∀ slot ∈ (precompute toInt percentiles resolution).slots, slot.isSome = true := by
  have hslots := (precompute_holds toInt percentiles resolution).slots
  rw [precompute_full, Nat.sub_self, replicate_zero, append_nil] at hslots
  rw [hslots]
  constructor
  · rw [length_map]
    exact precompute_full toInt percentiles resolution
  · intro slot hslot
    obtain ⟨dur, -, rfl⟩ := List.mem_map.mp hslot
    rfl

theorem length_newStatefulProbabilityDistribution (store : ℤ → ℤ)
    (percentiles : List (Percentile F)) (resolution : ℕ) (draw : Draws) :
    (newStatefulProbabilityDistribution toInt store percentiles resolution draw).values.length =
      resolution := by
  rw [newStatefulProbabilityDistribution, length_shuffle, length_map, precompute_values,
    precompute_full]

/-- Whatever the draws are, each cycle of samples is a permutation of the precomputed durations:
the calls up to the end of a cycle succeed, and the last `resolution` results are the table in
some order. -/
theorem sample_cycle (store : ℤ → ℤ) (percentiles : List (Percentile F)) (resolution : ℕ)
    (first : Draws) (draws : ℕ → Draws) (k : ℕ) :
    ∃ samples spd,
      (newStatefulProbabilityDistribution toInt store percentiles resolution first).samples
        ((List.range ((k + 1) * resolution)).map draws) = some (samples, spd) ∧
      samples.length = (k + 1) * resolution ∧
      (samples.drop (k * resolution)).Perm
        ((precompute toInt percentiles resolution).values.map store) := by
  have hlength :=
    length_newStatefulProbabilityDistribution toInt store percentiles resolution first
  have hdraws : ((List.range ((k + 1) * resolution)).map draws).length = (k + 1) *
      (newStatefulProbabilityDistribution toInt store percentiles resolution first).values.length
      := by
    rw [length_map, length_range, hlength]
  obtain ⟨before, cycle, htake, hbefore, hperm⟩ :=
    (newStatefulProbabilityDistribution toInt store percentiles resolution first).take_cycles rfl
      k hdraws
  rw [hlength] at hbefore
  refine ⟨before ++ cycle, _, htake, ?_, ?_⟩
  · rw [length_append, hbefore, hperm.length_eq, hlength, Nat.succ_mul]
  · rw [← hbefore, drop_left]
    exact hperm.trans (shuffle_perm first _)

end

theorem slotDuration_bounds {low span count i : ℤ} (hspan : 0 ≤ span) (hi : 0 ≤ i)
    (hcount : i < count) :
    low ≤ slotDuration truncate low span i count ∧
      slotDuration truncate low span i count ≤ low + span := by
  have hcount' : (0 : ℚ) < count := by exact_mod_cast (hi.trans_lt hcount)
  have hi' : (0 : ℚ) ≤ i := by exact_mod_cast hi
  have hspan' : (0 : ℚ) ≤ span := by exact_mod_cast hspan
  have hfraction : (i : ℚ) / count ≤ 1 := by
    rw [div_le_one hcount']
    exact_mod_cast hcount.le
  have hshare := mul_nonneg (div_nonneg hi' hcount'.le) hspan'
  have hlow := truncate_nonneg hshare
  have hhigh : truncate ((i : ℚ) / count * span) ≤ span :=
    truncate_le hshare (mul_le_of_le_one_left hspan' hfraction)
  rw [slotDuration]
  omega

theorem mem_bucketDurations_bounds {low high count v : ℤ} (h : low ≤ high)
    (hv : v ∈ bucketDurations (F := ℚ) truncate low high count) : low ≤ v ∧ v ≤ high := by
  obtain ⟨i, hi, rfl⟩ := List.mem_map.mp hv
  rw [mem_range] at hi
  have hbounds := @slotDuration_bounds low _ _ _ (sub_nonneg.mpr h) (Int.natCast_nonneg i)
    (show (i : ℤ) < count by omega)
  rwa [add_sub_cancel] at hbounds

theorem le_lastDuration {percentiles : List (Percentile ℚ)} {prevDuration : ℤ}
    (h : (prevDuration :: percentiles.map (·.duration)).Pairwise (· ≤ ·)) :
    prevDuration ≤ lastDuration prevDuration percentiles := by
  induction percentiles generalizing prevDuration with
  | nil => exact le_refl _
  | cons p rest ih =>
    rw [map_cons, pairwise_cons] at h
    exact (h.1 p.duration mem_cons_self).trans (ih h.2)

theorem mem_allBuckets_bounds {percentiles : List (Percentile ℚ)} {resolution : ℕ}
    {prevQuantile : ℚ} {prevDuration v : ℤ}
    (h : (prevDuration :: percentiles.map (·.duration)).Pairwise (· ≤ ·))
    (hv : v ∈ allBuckets truncate resolution prevQuantile prevDuration percentiles) :
    prevDuration ≤ v ∧ v ≤ lastDuration prevDuration percentiles := by
  induction percentiles generalizing prevQuantile prevDuration with
  | nil => cases hv
  | cons p rest ih =>
    rw [map_cons, pairwise_cons] at h
    rcases mem_append.mp hv with hbucket | hrest
    · obtain ⟨hlow, hhigh⟩ := mem_bucketDurations_bounds (h.1 p.duration mem_cons_self) hbucket
      exact ⟨hlow, hhigh.trans (le_lastDuration h.2)⟩
    · obtain ⟨hlow, hhigh⟩ := ih h.2 hrest
      exact ⟨(h.1 p.duration mem_cons_self).trans hlow, hhigh⟩

theorem mem_tailDurations_bounds {last v : ℤ} {remaining : ℕ} (hlast : 0 ≤ last)
    (hv : v ∈ tailDurations (F := ℚ) truncate last remaining) : last ≤ v ∧ v ≤ 2 * last := by
  obtain ⟨i, hi, rfl⟩ := List.mem_map.mp hv
  rw [mem_range] at hi
  rw [two_mul]
  exact slotDuration_bounds hlast (Int.natCast_nonneg i) (by exact_mod_cast hi)

/-- A slot of the tail stays at the last duration when its share of it is less than one. -/
theorem slotDuration_le_iff {last : ℤ} (hlast : 0 ≤ last) {i remaining : ℕ} (hi : i < remaining) :
    slotDuration (F := ℚ) truncate last last i remaining ≤ last ↔ (i : ℤ) * last < remaining := by
  have hpos : (0 : ℚ) < (remaining : ℤ) := by exact_mod_cast (by omega : 0 < remaining)
  have hi' : (0 : ℚ) ≤ ((i : ℤ) : ℚ) := by exact_mod_cast Int.natCast_nonneg i
  have hlast' : (0 : ℚ) ≤ last := by exact_mod_cast hlast
  have hnonneg : (0 : ℚ) ≤ ((i : ℤ) : ℚ) / ((remaining : ℤ) : ℚ) * last :=
    mul_nonneg (div_nonneg hi' hpos.le) hlast'
  have hshare : ⌊((i : ℤ) : ℚ) / ((remaining : ℤ) : ℚ) * last⌋ < 1 ↔
      (i : ℤ) * last < remaining := by
    rw [Int.floor_lt, Int.cast_one, div_mul_eq_mul_div, div_lt_one hpos]
    exact_mod_cast Iff.rfl
  have hfloor := Int.floor_nonneg.mpr hnonneg
  rw [slotDuration, truncate_of_nonneg hnonneg, ← hshare]
  omega

/-- The tail stays at the last duration exactly if it has at most one slot or there is nothing to
add. -/
theorem tailDurations_le_iff {last : ℤ} (hlast : 0 ≤ last) (remaining : ℕ) :
    (∀ v ∈ tailDurations (F := ℚ) truncate last remaining, v ≤ last) ↔
      remaining ≤ 1 ∨ last ≤ 1 := by
  constructor
  · intro h
    by_contra! hmore
    obtain ⟨hremaining, hone⟩ := hmore
    -- the last slot of the tail
    have hmem : slotDuration (F := ℚ) truncate last last (remaining - 1 : ℕ) remaining ∈
        tailDurations (F := ℚ) truncate last remaining :=
      List.mem_map.mpr ⟨remaining - 1, mem_range.mpr (by omega), rfl⟩
    have hshare := (slotDuration_le_iff hlast (by omega)).mp (h _ hmem)
    have hcast : ((remaining - 1 : ℕ) : ℤ) = (remaining : ℤ) - 1 := by omega
    have htwo : (2 : ℤ) ≤ remaining := by omega
    rw [hcast] at hshare
    nlinarith
  · intro h v hv
    obtain ⟨i, hi, rfl⟩ := List.mem_map.mp hv
    rw [mem_range] at hi
    rw [slotDuration_le_iff hlast hi]
    rcases h with hone | hone
    · obtain rfl : i = 0 := by omega
      rw [Nat.cast_zero, zero_mul]
      omega
    · nlinarith

/-- The table has as many values as the resolution, all of them written, and none above the
maximum. -/
structure RespectsMaximum (ps : List (Percentile ℚ)) (resolution : ℕ) (maximum : ℤ) : Prop where
  length : (precompute truncate ps resolution).slots.length = resolution
  written : ∀ slot ∈ (precompute truncate ps resolution).slots, slot.isSome = true
  bounded : ∀ v ∈ (precompute truncate ps resolution).values, v ≤ maximum

theorem lastDuration_eq {ps : List (Percentile ℚ)} {last : Percentile ℚ} (prevDuration : ℤ)
    (h : ps.getLast? = some last) : lastDuration prevDuration ps = last.duration := by
  induction ps generalizing prevDuration with
  | nil => cases h
  | cons p rest ih =>
    cases rest with
    | nil =>
      cases h
      rfl
    | cons q rest =>
      rw [getLast?_cons_cons] at h
      exact ih p.duration h

theorem Accepted.rising {ps : List (Percentile ℚ)} (h : Accepted ps) :
    (0 :: ps.map (·.duration)).Pairwise (· ≤ ·) := by
  rw [pairwise_cons]
  constructor
  · intro d hd
    obtain ⟨p, hp, rfl⟩ := List.mem_map.mp hd
    exact h.nonneg p hp
  · exact pairwise_map.mpr h.nondecreasing

/-- The durations of the table are between zero and twice the largest one. -/
theorem Accepted.mem_values {ps : List (Percentile ℚ)} (h : Accepted ps) {top : ℤ}
    (htop : ∀ p ∈ ps, 2 * p.duration ≤ top) {resolution : ℕ} {v : ℤ}
    (hv : v ∈ (precompute truncate ps resolution).values) : 0 ≤ v ∧ v ≤ top := by
  have hlast := htop _ (getLast_mem h.nonempty)
  rw [← lastDuration_eq 0 (getLast?_eq_some_getLast h.nonempty)] at hlast
  have hnonneg := le_lastDuration h.rising
  rw [precompute_values] at hv
  rcases mem_append.mp hv with hbucket | htail
  · obtain ⟨hlow, hhigh⟩ := mem_allBuckets_bounds h.rising (mem_of_mem_take hbucket)
    omega
  · obtain ⟨hlow, hhigh⟩ := mem_tailDurations_bounds hnonneg htail
    omega

/-- The table of an accepted list respects the maximum exactly if the buckets leave at most one
slot to the tail, or the maximum is at most one nanosecond. -/
theorem respectsMaximum_iff {text : Text} {dist : GoMap String String} {ps : List (Percentile ℚ)}
    {last : Percentile ℚ} (h : Accepts text dist ps) (hlast : ps.getLast? = some last)
    (resolution : ℕ) :
    RespectsMaximum ps resolution last.duration ↔
      resolution ≤ slotCount truncate resolution 0 ps + 1 ∨ last.duration ≤ 1 := by
  have haccepted := h.accepted
  have hmaximum := lastDuration_eq 0 hlast
  have hnonneg : 0 ≤ last.duration := by
    rw [← hmaximum]
    exact le_lastDuration haccepted.rising
  obtain ⟨hlength, hwritten⟩ := precompute_written truncate ps resolution
  have htail := tailDurations_le_iff hnonneg (resolution - slotCount truncate resolution 0 ps)
  have hremaining : resolution - slotCount truncate resolution 0 ps ≤ 1 ↔
      resolution ≤ slotCount truncate resolution 0 ps + 1 := by
    omega
  rw [← hremaining, ← htail]
  constructor
  · intro hrespects v hv
    apply hrespects.bounded v
    rw [precompute_values, allDurations, hmaximum]
    exact mem_append_right _ hv
  · intro hbounded
    refine ⟨hlength, hwritten, ?_⟩
    rw [precompute_values, allDurations, hmaximum]
    intro v hv
    rcases mem_append.mp hv with hbucket | hrest
    · rw [← hmaximum]
      exact (mem_allBuckets_bounds haccepted.rising (mem_of_mem_take hbucket)).2
    · exact hbounded v hrest

def quarters : GoMap String String :=
  ⟨[("p25", "4ns"), ("p50", "4ns"), ("p75", "4ns"), ("p100", "4ns")], by decide⟩

def quarterList : List (Percentile ℚ) := [⟨1 / 4, 4⟩, ⟨1 / 2, 4⟩, ⟨3 / 4, 4⟩, ⟨1, 4⟩]

theorem accepts_quarters : Accepts wholeText quarters quarterList :=
  ⟨quarters.entries, quarters.visits_entries, by decide +kernel⟩

theorem quarters_respectMaximum : RespectsMaximum quarterList 4 4 :=
  (respectsMaximum_iff accepts_quarters (show quarterList.getLast? = some ⟨1, 4⟩ from rfl) 4).mpr
    (.inl (by decide +kernel))

/-- Four buckets of three quarters of a slot each get no slot, and the tail fills the table. -/
theorem quarters_exceedMaximum :
    Accepts wholeText quarters quarterList ∧ quarterList.getLast? = some ⟨1, 4⟩ ∧
      (precompute truncate quarterList 3).values = [4, 5, 6] ∧
      ¬RespectsMaximum quarterList 3 4 := by
  have hvalues : (precompute truncate quarterList 3).values = [4, 5, 6] := by decide +kernel
  refine ⟨accepts_quarters, rfl, hvalues, fun h => ?_⟩
  have hle := h.bounded 6 (by rw [hvalues]; decide)
  omega

end BuiltOnEnvoy.FaultInjection
