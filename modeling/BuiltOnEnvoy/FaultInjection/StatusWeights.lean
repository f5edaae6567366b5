import BuiltOnEnvoy.FaultInjection.ResponseDistribution
import BuiltOnEnvoy.Foundations.WeightedChoice

/-!
# Statuses by their weights

A status is chosen by as many of the possible draws as its resolution, and no
sample panics, exactly when the sum of the resolutions fits into 64 bits. Nothing
in the configuration bounds it.
-/

namespace BuiltOnEnvoy.FaultInjection

open Foundations List Option

namespace ResponseDistribution

theorem selectFrom_eq_pick {F : Type} {entries : List (ResponseEntry F)} {r cumulative : ℤ}
    (hcumulative : 0 ≤ cumulative) (hr : cumulative ≤ r)
    (hweights : ∀ entry ∈ entries, 0 ≤ entry.weight)
    (hfits : cumulative + (entries.map ResponseEntry.weight).sum < 2 ^ 63) :
    selectFrom r cumulative entries =
      pick (entries.map fun entry => entry.weight.toNat) (r - cumulative).toNat := by
  induction entries generalizing cumulative with
  | nil => rfl
  | cons entry rest ih =>
    rw [forall_mem_cons] at hweights
    rw [map_cons, sum_cons] at hfits
    have hrest : 0 ≤ (rest.map ResponseEntry.weight).sum :=
      sum_nonneg (List.forall_mem_map.mpr hweights.2)
    have hwrap : wrap64 (cumulative + entry.weight) = cumulative + entry.weight := by
      have := hweights.1
      apply wrap64_eq_self
      unfold Int64Range
      omega
    have hweight := hweights.1
    rw [selectFrom, map_cons, pick, hwrap]
    by_cases hless : r < cumulative + entry.weight
    · rw [if_pos hless, if_pos (by omega)]
    · rw [if_neg hless, if_neg (by omega), ih (by omega) (by omega) hweights.2 (by omega)]
      congr 2
      omega

end ResponseDistribution

section

variable {F : Type} [Zero F] [One F] [Sub F] [Mul F] [Div F] [IntCast F] [LE F] [DecidableLE F]
variable [BEq F] {toInt : F → ℤ} {lib : ConfigLibrary F} {env : BuildEnvironment}
variable {distributionMode : String}

theorem newDurationDistribution_nonempty {percentiles : List (Percentile F)} {resolution : ℤ}
    (hresolution : 0 < resolution) {allocates : ℤ → Bool} {draw : Draws}
    {d : DurationDistribution F}
    (h : newDurationDistribution toInt lib allocates percentiles resolution distributionMode draw =
      .ok d) : (d.durations toInt).Nonempty := by
  unfold newDurationDistribution at h
  split_ifs at h
  · cases h
    apply exists_mem_of_ne_nil
    intro hempty
    have hlength := congrArg List.length hempty
    rw [length_newStatefulProbabilityDistribution, length_nil] at hlength
    omega
  · cases h
    exact ⟨_, 0, rfl⟩

theorem newResponseEntry_spec {i : ℕ} {sd : StatusDistribution} {entry : ResponseEntry F}
    (h : newResponseEntry toInt lib env distributionMode i sd = .ok entry) :
    entry.status = sd.status ∧ entry.weight = sd.resolution ∧
      entry.localResponse = sd.localResponse ∧
        (0 < sd.resolution → (entry.distribution.durations toInt).Nonempty) := by
  obtain ⟨percentiles, -, h⟩ := bind_eq_ok h
  obtain ⟨dist, hdist, h⟩ := bind_eq_ok h
  cases h
  exact ⟨rfl, rfl, rfl, fun hpos => newDurationDistribution_nonempty hpos hdist⟩

section

variable {statusDists : List StatusDistribution} {rd : ResponseDistribution F}
  (h : newResponseDistribution toInt lib env statusDists distributionMode = .ok rd)
include h

omit [One F] [LE F] [DecidableLE F] [BEq F] in
theorem newResponseDistribution_eq_ok :
    statusDists ≠ [] ∧
      collect (newResponseEntry toInt lib env distributionMode) statusDists = .ok rd.entries ∧
      rd.totalWeight = wrap64 (statusDists.map StatusDistribution.resolution).sum := by
  unfold newResponseDistribution at h
  split_ifs at h with hempty
  obtain ⟨entries, hentries, h⟩ := bind_eq_ok h
  cases h
  refine ⟨hempty, hentries, ?_⟩
  have hfold := foldl_wrap64 StatusDistribution.resolution statusDists 0
  rwa [wrap64_eq_self (by decide), zero_add] at hfold

theorem entries_weights :
    rd.entries.map ResponseEntry.weight = statusDists.map StatusDistribution.resolution := by
  obtain ⟨-, hentries, -⟩ := newResponseDistribution_eq_ok h
  apply ext_getElem?
  intro j
  rw [getElem?_map, getElem?_map]
  rcases collectFrom_getElem? hentries j with ⟨hsd, hentry⟩ | ⟨sd, entry, hsd, hentry, hnew⟩
  · rw [hsd, hentry]
    rfl
  · rw [hsd, hentry, map_some, map_some, (newResponseEntry_spec hnew).2.1]

/-- The weights, if they are positive and their sum fits, make a distribution that is ready. -/
theorem ready_of_build (hpositive : ∀ sd ∈ statusDists, 0 < sd.resolution)
    (htotal : 0 < rd.totalWeight) : rd.Ready toInt := by
  obtain ⟨hempty, hentries, -⟩ := newResponseDistribution_eq_ok h
  refine ⟨htotal, ?_, ?_⟩
  · intro hnone
    have hweights := entries_weights h
    rw [hnone, map_nil, eq_comm, map_eq_nil_iff] at hweights
    exact hempty hweights
  · intro entry hentry
    obtain ⟨j, sd, hsd, hnew⟩ := (mem_collect hentries).mp hentry
    exact (newResponseEntry_spec hnew).2.2.2 (hpositive sd (mem_of_getElem? hsd))

end

/-- The statuses are chosen as configured. -/
structure SelectsByWeight (toInt : F → ℤ) (rd : ResponseDistribution F)
    (statusDists : List StatusDistribution) : Prop where
  positive : 0 < rd.totalWeight
  fits : rd.totalWeight = (statusDists.map StatusDistribution.resolution).sum
  /-- As many of the possible draws select an entry as its resolution says. -/
  counts : ∀ i sd, statusDists[i]? = some sd →
    (((Finset.range rd.totalWeight.toNat).filter fun r => rd.select (r : ℕ) = some i).card : ℤ) =
      sd.resolution
  /-- The loop returns for every possible draw. -/
  returns : ∀ r : ℤ, 0 ≤ r → r < rd.totalWeight → (rd.select r).isSome
  /-- No sequence of samples panics. -/
  samples : ∀ draws, ∃ rd', rd.samples toInt draws = some rd'

/-- The weights as numbers of draws. -/
def weights (statusDists : List StatusDistribution) : List ℕ :=
  statusDists.map fun sd => sd.resolution.toNat

theorem sum_weights {statusDists : List StatusDistribution}
    (h : ∀ sd ∈ statusDists, 0 < sd.resolution) :
    ((weights statusDists).sum : ℤ) = (statusDists.map StatusDistribution.resolution).sum := by
  rw [weights, Nat.cast_list_sum, List.map_map]
  congr 1
  apply map_congr_left
  intro sd hsd
  exact Int.toNat_of_nonneg (h sd hsd).le

theorem sum_resolutions_pos {statusDists : List StatusDistribution} (hempty : statusDists ≠ [])
    (h : ∀ sd ∈ statusDists, 0 < sd.resolution) :
    0 < (statusDists.map StatusDistribution.resolution).sum :=
  sum_pos _ (List.forall_mem_map.mpr h) (by simpa using hempty)

theorem select_eq_pick {statusDists : List StatusDistribution} {rd : ResponseDistribution F}
    (hbuild : newResponseDistribution toInt lib env statusDists distributionMode = .ok rd)
    (hpositive : ∀ sd ∈ statusDists, 0 < sd.resolution)
    (hsum : (statusDists.map StatusDistribution.resolution).sum < 2 ^ 63) {r : ℤ} (hr : 0 ≤ r) :
    rd.select r = pick (weights statusDists) r.toNat := by
  have hweights := entries_weights hbuild
  have hnonneg : ∀ entry ∈ rd.entries, 0 ≤ entry.weight := by
    intro entry hentry
    have hmem : entry.weight ∈ statusDists.map StatusDistribution.resolution := by
      rw [← hweights]
      exact List.mem_map_of_mem hentry
    obtain ⟨sd, hsd, heq⟩ := List.mem_map.mp hmem
    rw [← heq]
    exact (hpositive sd hsd).le
  rw [ResponseDistribution.select, ResponseDistribution.selectFrom_eq_pick le_rfl hr hnonneg
    (by rwa [hweights, zero_add]), sub_zero]
  have hnats := congrArg (List.map Int.toNat) hweights
  rw [List.map_map, List.map_map] at hnats
  exact congrArg (pick · r.toNat) hnats

theorem selectsByWeight_iff {statusDists : List StatusDistribution} {orders : MapOrders}
    {context : String} {rd : ResponseDistribution F}
    (haccepted : lib.responsesErrors statusDists orders context = [])
    (hbuild : newResponseDistribution toInt lib env statusDists distributionMode = .ok rd) :
    SelectsByWeight toInt rd statusDists ↔
      (statusDists.map StatusDistribution.resolution).sum < 2 ^ 63 := by
  have hpositive : ∀ sd ∈ statusDists, 0 < sd.resolution := by
    intro sd hsd
    obtain ⟨j, hj⟩ := mem_iff_getElem?.mp hsd
    exact ConfigLibrary.resolution_pos (ConfigLibrary.responsesErrors_eq_nil haccepted hj)
  obtain ⟨hempty, -, htotal⟩ := newResponseDistribution_eq_ok hbuild
  constructor
  · intro h
    rw [h.fits, eq_comm, wrap64_eq_self_iff] at htotal
    exact htotal.2
  · intro hsum
    have hpos := sum_resolutions_pos hempty hpositive
    rw [wrap64_eq_self ⟨by omega, hsum⟩] at htotal
    have hnat : rd.totalWeight.toNat = (weights statusDists).sum := by
      have := sum_weights hpositive
      omega
    constructor
    · rwa [htotal]
    · exact htotal
    · intro i sd hsd
      simp only [select_eq_pick hbuild hpositive hsum (Int.natCast_nonneg _), Int.toNat_natCast]
      rw [hnat, card_pick, weights]
      have hres := hpositive sd (mem_of_getElem? hsd)
      simp only [getD_eq_getElem?_getD, getElem?_map, hsd, map_some,
        getD_some]
      omega
    · intro r hr hless
      rw [select_eq_pick hbuild hpositive hsum hr, pick_isSome_iff]
      omega
    · exact (ready_of_build hbuild hpositive (htotal ▸ hpos)).exists_samples

end

/-- Maps are visited as they are listed, nothing is exchanged, and slices are small. -/
def plainEnvironment : BuildEnvironment where
  allocates := fun length => length ≤ 1000
  orders := .listed
  exchanges := fun _ i => Fin.last i

def medians (statuses : List (ℤ × ℤ)) : List StatusDistribution :=
  statuses.map fun s => ⟨s.1, s.2, ⟨[("p50", "10ns")], by decide⟩, none⟩

/-- One response in four is a failure. -/
theorem quarter_selected :
    ∃ rd, newResponseDistribution truncate wholeLibrary plainEnvironment
        (medians [(200, 3), (503, 1)]) "stateful" = .ok rd ∧
      SelectsByWeight truncate rd (medians [(200, 3), (503, 1)]) := by
  obtain ⟨rd, hbuild⟩ := exists_eq_ok (x := newResponseDistribution truncate wholeLibrary
    plainEnvironment (medians [(200, 3), (503, 1)]) "stateful") (by decide +kernel)
  have haccepted : wholeLibrary.responsesErrors (medians [(200, 3), (503, 1)]) .listed
      "configuration" = [] := by decide +kernel
  exact ⟨rd, hbuild, (selectsByWeight_iff haccepted hbuild).mpr (by decide)⟩

/-- Two equal weights whose sum does not fit are accepted, and every sample panics. -/
theorem large_weights_panic :
    wholeLibrary.responsesErrors (medians [(200, 2 ^ 62), (503, 2 ^ 62)]) .listed
        "configuration" = [] ∧
      ∃ rd, newResponseDistribution truncate wholeLibrary plainEnvironment
          (medians [(200, 2 ^ 62), (503, 2 ^ 62)]) "stateless" = .ok rd ∧
        (∀ draws, rd.sample truncate draws = none) ∧
        ¬SelectsByWeight truncate rd (medians [(200, 2 ^ 62), (503, 2 ^ 62)]) := by
  obtain ⟨rd, hbuild⟩ := exists_eq_ok (x := newResponseDistribution truncate wholeLibrary
    plainEnvironment (medians [(200, 2 ^ 62), (503, 2 ^ 62)]) "stateless") (by decide +kernel)
  have htotal : rd.totalWeight = -2 ^ 63 := by
    rw [(newResponseDistribution_eq_ok hbuild).2.2]
    decide +kernel
  refine ⟨by decide +kernel, rd, hbuild, fun draws => ?_, fun h => ?_⟩
  · have hnone : cryptoIntn rd.totalWeight draws.choice = none := if_pos (by rw [htotal]; decide)
    simp [ResponseDistribution.sample, hnone]
  · have hpositive := h.positive
    rw [htotal] at hpositive
    exact absurd hpositive (by decide)

end BuiltOnEnvoy.FaultInjection
