import BuiltOnEnvoy.FaultInjection.Config
import BuiltOnEnvoy.FaultInjection.Stateful
import BuiltOnEnvoy.FaultInjection.Stateless

/-!
# Response distributions of the fault injection filter

A status is chosen by its weight, and a delay is drawn from its distribution.
The floats, their arithmetic and their conversion to integers are parameters, and
integers are those of 64 bits. A panic has no result.
-/

namespace BuiltOnEnvoy.FaultInjection

open Foundations List Option

/-- `cryptoIntn`: a random number below `n`. -/
def cryptoIntn (n : ℤ) (draw : Draws) : Option ℤ :=
  if n ≤ 0 then none else some (draw (n.toNat - 1))

theorem cryptoIntn_eq_some {n : ℤ} (h : 0 < n) (draw : Draws) :
    ∃ r, cryptoIntn n draw = some r ∧ 0 ≤ r ∧ r < n := by
  refine ⟨draw (n.toNat - 1), if_neg (by omega), by omega, ?_⟩
  have := (draw (n.toNat - 1)).isLt
  omega

theorem cryptoIntn_range {n r : ℤ} {draw : Draws} (h : cryptoIntn n draw = some r) :
    0 ≤ r ∧ r < n := by
  unfold cryptoIntn at h
  split_ifs at h with hn
  obtain ⟨r', hr', hlow, hhigh⟩ := cryptoIntn_eq_some (not_le.mp hn) draw
  rw [cryptoIntn, if_neg hn, h] at hr'
  cases hr'
  exact ⟨hlow, hhigh⟩

/-- What one sample may draw: a status, a value, and the exchanges of a shuffle. -/
structure SampleDraws where
  choice : Draws
  value : Fin (2 ^ 53)
  exchanges : Draws

inductive DurationDistribution (F : Type)
  | stateful (distribution : StatefulDistribution)
  | stateless (percentiles : List (Percentile F))
  deriving DecidableEq

structure ResponseEntry (F : Type) where
  status : ℤ
  weight : ℤ
  distribution : DurationDistribution F
  localResponse : Option LocalResponseConfig
  deriving DecidableEq

structure ResponseDistribution (F : Type) where
  entries : List (ResponseEntry F)
  totalWeight : ℤ
  deriving DecidableEq

namespace ResponseDistribution

variable {F : Type} {rd rd' : ResponseDistribution F}

/-- The entry at which the loop returns, if it does. -/
def selectFrom (r : ℤ) : ℤ → List (ResponseEntry F) → Option ℕ
  | _, [] => none
  | cumulative, entry :: rest =>
    let cumulative := wrap64 (cumulative + entry.weight)
    if r < cumulative then some 0 else (selectFrom r cumulative rest).map (· + 1)

def select (rd : ResponseDistribution F) (r : ℤ) : Option ℕ :=
  selectFrom r 0 rd.entries

theorem selectFrom_lt_length {entries : List (ResponseEntry F)} {r cumulative : ℤ} {i : ℕ}
    (h : selectFrom r cumulative entries = some i) : i < entries.length := by
  induction entries generalizing cumulative i with
  | nil => cases h
  | cons entry rest ih =>
    rw [selectFrom] at h
    split_ifs at h
    · cases h
      exact Nat.succ_pos _
    · obtain ⟨j, hj, rfl⟩ := map_eq_some_iff.mp h
      exact Nat.succ_lt_succ (ih hj)

/-- The entry that is sampled: the fallback is the last one. -/
def index (rd : ResponseDistribution F) (r : ℤ) : ℕ :=
  (rd.select r).getD (rd.entries.length - 1)

theorem index_lt_length (h : rd.entries ≠ []) (r : ℤ) : rd.index r < rd.entries.length := by
  unfold index
  cases hselect : rd.select r with
  | some i => exact selectFrom_lt_length hselect
  | none => exact Nat.sub_lt (length_pos_iff.mpr h) one_pos

theorem selectFrom_congr {entries entries' : List (ResponseEntry F)}
    (h : entries'.map ResponseEntry.weight = entries.map ResponseEntry.weight)
    (r cumulative : ℤ) : selectFrom r cumulative entries' = selectFrom r cumulative entries := by
  induction entries generalizing entries' cumulative with
  | nil =>
    rw [map_nil, map_eq_nil_iff] at h
    rw [h]
  | cons entry rest ih =>
    obtain ⟨entry', rest', rfl, hweight, hrest⟩ := map_eq_cons_iff.mp h
    rw [selectFrom, selectFrom, hweight, ih hrest]

theorem index_congr (h : rd'.entries.map ResponseEntry.weight =
    rd.entries.map ResponseEntry.weight) (r : ℤ) : rd'.index r = rd.index r := by
  have hlength := congrArg List.length h
  rw [length_map, length_map] at hlength
  rw [index, index, select, select, selectFrom_congr h, hlength]

/-- The distribution with another state of the durations of an entry. -/
def update (rd : ResponseDistribution F) (i : ℕ) (entry : ResponseEntry F)
    (distribution : DurationDistribution F) : ResponseDistribution F :=
  { rd with entries := rd.entries.set i { entry with distribution := distribution } }

variable {entry : ResponseEntry F}

theorem set_self {i : ℕ} (hentry : rd.entries[i]? = some entry) :
    rd.entries.set i entry = rd.entries := by
  obtain ⟨hi, hget⟩ := List.getElem?_eq_some_iff.mp hentry
  rw [← hget]
  exact set_getElem_self hi

end ResponseDistribution

section

variable {F : Type} [Zero F] [One F] [Sub F] [Mul F] [Div F] [IntCast F] [LE F] [DecidableLE F]
variable [BEq F] (toInt : F → ℤ)

def cryptoFloat64 (n : Fin (2 ^ 53)) : F :=
  (((n : ℕ) : ℤ) : F) / ((2 ^ 53 : ℤ) : F)

namespace DurationDistribution

def machineArithmetic : SampleArithmetic Id F := ⟨fun x y => x / y, toInt, wrap64⟩

def sampleWithValue (percentiles : List (Percentile F)) (r : F) : ℤ :=
  (machineArithmetic toInt).sampleWithValue percentiles r

def sample (d : DurationDistribution F) (draws : SampleDraws) :
    Option (ℤ × DurationDistribution F) :=
  match d with
  | stateful distribution =>
    (distribution.sample draws.exchanges).map fun r => (r.1, stateful r.2)
  | stateless percentiles =>
    some (sampleWithValue toInt percentiles (cryptoFloat64 draws.value), d)

end DurationDistribution

/-- Why nothing is built. -/
inductive Failure
  | error (message : String)
  | panic
  deriving DecidableEq

/-- What a build depends on: which slices can be allocated, the orders of the maps and the
exchanges of the first shuffles. -/
structure BuildEnvironment where
  allocates : ℤ → Bool
  orders : MapOrders
  exchanges : ℕ → Draws

def newDurationDistribution (lib : ConfigLibrary F) (allocates : ℤ → Bool)
    (percentiles : List (Percentile F)) (resolution : ℤ) (distributionMode : String)
    (draw : Draws) : Except Failure (DurationDistribution F) :=
  if distributionMode = "stateful" then
    if 0 ≤ resolution ∧ allocates resolution then
      .ok (.stateful
        (newStatefulProbabilityDistribution toInt wrap64 percentiles resolution.toNat draw))
    else .error .panic
  else if distributionMode = "stateless" then .ok (.stateless percentiles)
  else .error (.error ("unsupported probability distribution mode: " ++ lib.quote distributionMode))

/-- One round of the loop over the status distributions. -/
def newResponseEntry (lib : ConfigLibrary F) (env : BuildEnvironment) (distributionMode : String)
    (i : ℕ) (sd : StatusDistribution) : Except Failure (ResponseEntry F) := do
  let percentiles ← (lib.parsePercentileDistribution
    (env.orders.order i sd.distribution)).mapError Failure.error
  let dist ← newDurationDistribution toInt lib env.allocates percentiles sd.resolution
    distributionMode (env.exchanges i)
  return ⟨sd.status, sd.resolution, dist, sd.localResponse⟩

/-- `NewResponseDistributionWithMode`. -/
def newResponseDistribution (lib : ConfigLibrary F) (env : BuildEnvironment)
    (statusDists : List StatusDistribution) (distributionMode : String) :
    Except Failure (ResponseDistribution F) :=
  if statusDists = [] then
    .error (.error "response distribution must have at least one status entry")
  else do
    let entries ← collect (newResponseEntry toInt lib env distributionMode) statusDists
    return ⟨entries,
      statusDists.foldl (fun totalWeight sd => wrap64 (totalWeight + sd.resolution)) 0⟩

namespace ResponseDistribution

/-- A sample, and the distribution after it: the entry that is drawn from may be shuffled. -/
def sample (rd : ResponseDistribution F) (draws : SampleDraws) :
    Option (ResponseSample × ResponseDistribution F) := do
  let r ← cryptoIntn rd.totalWeight draws.choice
  let entry ← rd.entries[rd.index r]?
  let (duration, distribution) ← entry.distribution.sample toInt draws
  return (⟨entry.status, duration, entry.localResponse⟩,
    rd.update (rd.index r) entry distribution)

/-- The distribution after a sequence of samples. -/
def samples (rd : ResponseDistribution F) (draws : List SampleDraws) :
    Option (ResponseDistribution F) :=
  draws.foldlM (fun rd draw => (rd.sample toInt draw).map Prod.snd) rd

end ResponseDistribution

namespace DurationDistribution

/-- The durations that can be drawn. -/
def durations : DurationDistribution F → Set ℤ
  | stateful distribution => {x | x ∈ distribution.values}
  | stateless percentiles =>
    Set.range fun n => sampleWithValue toInt percentiles (cryptoFloat64 n)

variable {toInt} {d d' : DurationDistribution F} {x : ℤ}

theorem exists_sample (h : (d.durations toInt).Nonempty) (draws : SampleDraws) :
    ∃ x d', d.sample toInt draws = some (x, d') := by
  cases d with
  | stateful distribution =>
    obtain ⟨y, hy⟩ := h
    obtain ⟨x, deck, hnext⟩ := distribution.exists_next (ne_nil_of_mem hy) draws.exchanges
    refine ⟨x, stateful deck, ?_⟩
    simp [sample, StatefulDistribution.sample, hnext]
  | stateless percentiles => exact ⟨_, _, rfl⟩

theorem sample_spec {draws : SampleDraws} (h : d.sample toInt draws = some (x, d')) :
    x ∈ d.durations toInt ∧ d'.durations toInt = d.durations toInt := by
  cases d with
  | stateful distribution =>
    obtain ⟨⟨y, deck⟩, hnext, heq⟩ := map_eq_some_iff.mp h
    cases heq
    obtain ⟨hmem, hperm⟩ := Deck.next_spec hnext
    exact ⟨hmem, Set.ext fun z => hperm.mem_iff⟩
  | stateless percentiles =>
    cases h
    exact ⟨⟨draws.value, rfl⟩, rfl⟩

end DurationDistribution

/-- What a response entry is, apart from the state of its distribution. -/
structure EntryOutline where
  status : ℤ
  weight : ℤ
  durations : Set ℤ
  localResponse : Option LocalResponseConfig

def ResponseEntry.outline (entry : ResponseEntry F) : EntryOutline :=
  ⟨entry.status, entry.weight, entry.distribution.durations toInt, entry.localResponse⟩

namespace ResponseDistribution

def outline (rd : ResponseDistribution F) : List EntryOutline × ℤ :=
  (rd.entries.map (·.outline toInt), rd.totalWeight)

/-- The durations that can be sampled. -/
def durations (rd : ResponseDistribution F) : Set ℤ :=
  {x | ∃ r entry, 0 ≤ r ∧ r < rd.totalWeight ∧ rd.entries[rd.index r]? = some entry ∧
    x ∈ entry.distribution.durations toInt}

/-- A number can be drawn, and a duration for every status. -/
structure Ready (rd : ResponseDistribution F) : Prop where
  positive : 0 < rd.totalWeight
  nonempty : rd.entries ≠ []
  durations : ∀ entry ∈ rd.entries, (entry.distribution.durations toInt).Nonempty

variable {toInt} {rd rd' : ResponseDistribution F}

variable {entry : ResponseEntry F}

theorem update_outline {i : ℕ} {distribution : DurationDistribution F}
    (hentry : rd.entries[i]? = some entry)
    (hsame : distribution.durations toInt = entry.distribution.durations toInt) :
    (rd.update i entry distribution).outline toInt = rd.outline toInt := by
  have houtline : ResponseEntry.outline toInt { entry with distribution := distribution } =
      entry.outline toInt := by
    rw [ResponseEntry.outline, hsame]
    rfl
  simp only [outline, update, map_set, houtline]
  rw [← map_set, set_self hentry]

variable {draws : SampleDraws}

theorem sample_spec {s : ResponseSample} (h : rd.sample toInt draws = some (s, rd')) :
    rd'.outline toInt = rd.outline toInt ∧ s.duration ∈ rd.durations toInt := by
  obtain ⟨r, hr, h⟩ := bind_eq_some_iff.mp h
  obtain ⟨entry, hentry, h⟩ := bind_eq_some_iff.mp h
  obtain ⟨⟨duration, distribution⟩, hsample, h⟩ := bind_eq_some_iff.mp h
  cases h
  obtain ⟨hmem, hsame⟩ := DurationDistribution.sample_spec hsample
  obtain ⟨hlow, hhigh⟩ := cryptoIntn_range hr
  exact ⟨update_outline hentry hsame, r, entry, hlow, hhigh, hentry, hmem⟩

theorem weights_of_outline (h : rd'.outline toInt = rd.outline toInt) :
    rd'.entries.map ResponseEntry.weight = rd.entries.map ResponseEntry.weight := by
  have hentries := congrArg (List.map EntryOutline.weight) (Prod.mk.inj h).1
  rwa [List.map_map, List.map_map] at hentries

theorem durations_of_outline (h : rd'.outline toInt = rd.outline toInt) :
    rd'.durations toInt = rd.durations toInt := by
  -- One inclusion, for both directions.
  have hsub : ∀ {a b : ResponseDistribution F}, a.outline toInt = b.outline toInt →
      a.durations toInt ⊆ b.durations toInt := by
    rintro a b hab x ⟨r, entry, hlow, hhigh, hentry, hx⟩
    obtain ⟨hentries, htotal⟩ := Prod.mk.inj hab
    have hget := congrArg (·[a.index r]?) hentries
    simp only [getElem?_map, hentry, map_some] at hget
    obtain ⟨entry', hentry', hsame⟩ := map_eq_some_iff.mp hget.symm
    have hdurations : entry'.distribution.durations toInt = entry.distribution.durations toInt :=
      congrArg EntryOutline.durations hsame
    rw [index_congr (weights_of_outline hab)] at hentry'
    exact ⟨r, entry', hlow, htotal ▸ hhigh, hentry', hdurations ▸ hx⟩
  exact Set.Subset.antisymm (hsub h) (hsub h.symm)

theorem sample_eq {r duration : ℤ} {distribution : DurationDistribution F}
    (hr : cryptoIntn rd.totalWeight draws.choice = some r)
    (hentry : rd.entries[rd.index r]? = some entry)
    (hsample : entry.distribution.sample toInt draws = some (duration, distribution)) :
    rd.sample toInt draws =
      some (⟨entry.status, duration, entry.localResponse⟩,
        rd.update (rd.index r) entry distribution) := by
  simp only [sample, hr, hentry, hsample, bind_eq_bind, bind_some]
  rfl

theorem Ready.of_outline (h : rd.Ready toInt) (heq : rd'.outline toInt = rd.outline toInt) :
    rd'.Ready toInt := by
  obtain ⟨hentries, htotal⟩ := Prod.mk.inj heq
  constructor
  · rw [htotal]
    exact h.positive
  · intro hempty
    rw [hempty, map_nil, eq_comm, map_eq_nil_iff] at hentries
    exact h.nonempty hentries
  · intro entry hentry
    have hmem : entry.outline toInt ∈ rd.entries.map (·.outline toInt) := by
      rw [← hentries]
      exact List.mem_map_of_mem hentry
    obtain ⟨old, hold, hsame⟩ := List.mem_map.mp hmem
    have hdurations : entry.distribution.durations toInt = old.distribution.durations toInt :=
      (congrArg EntryOutline.durations hsame).symm
    rw [hdurations]
    exact h.durations old hold

theorem Ready.exists_sample (h : rd.Ready toInt) (draws : SampleDraws) :
    ∃ s rd', rd.sample toInt draws = some (s, rd') := by
  obtain ⟨r, hr, -, -⟩ := cryptoIntn_eq_some h.positive draws.choice
  have hi := index_lt_length h.nonempty r
  obtain ⟨duration, distribution, hsample⟩ :=
    DurationDistribution.exists_sample (h.durations _ (getElem_mem hi)) draws
  exact ⟨_, _, sample_eq hr (getElem?_eq_getElem hi) hsample⟩

theorem Ready.exists_samples (h : rd.Ready toInt) (draws : List SampleDraws) :
    ∃ rd', rd.samples toInt draws = some rd' := by
  induction draws generalizing rd with
  | nil => exact ⟨rd, rfl⟩
  | cons draw draws ih =>
    obtain ⟨s, rd', hsample⟩ := h.exists_sample draw
    obtain ⟨rd'', hrest⟩ := ih (h.of_outline (sample_spec hsample).1)
    refine ⟨rd'', ?_⟩
    rw [samples, foldlM_cons, hsample]
    exact hrest

end ResponseDistribution

end

namespace DurationDistribution

variable {r : ℚ} {d : ℤ}

theorem sampleAfter_exact {lower : Percentile ℚ} {rest : List (Percentile ℚ)}
    (h : sampleAfter r lower rest = some d) (hd : Int64Range d) :
    (machineArithmetic truncate).sampleAfter r lower rest = d := by
  induction rest generalizing lower with
  | nil =>
    rw [sampleAfter, SampleArithmetic.sampleAfter] at h
    rw [SampleArithmetic.sampleAfter]
    split_ifs at h ⊢
    · exact Option.some.inj h
    · obtain ⟨fraction, hfraction, h⟩ := bind_eq_some_iff.mp h
      rw [← quotient_eq_some hfraction] at h
      exact (congrArg wrap64 (Option.some.inj h)).trans (wrap64_eq_self hd)
  | cons upper rest ih =>
    rw [sampleAfter, SampleArithmetic.sampleAfter] at h
    rw [SampleArithmetic.sampleAfter]
    split_ifs at h ⊢
    · obtain ⟨fraction, hfraction, h⟩ := bind_eq_some_iff.mp h
      rw [← quotient_eq_some hfraction] at h
      exact (congrArg wrap64 (Option.some.inj h)).trans (wrap64_eq_self hd)
    · exact ih h

theorem sampleWithValue_exact {percentiles : List (Percentile ℚ)}
    (h : FaultInjection.sampleWithValue percentiles r = some d) (hd : Int64Range d) :
    sampleWithValue truncate percentiles r = d := by
  cases percentiles with
  | nil => exact Option.some.inj h
  | cons first rest =>
    rw [FaultInjection.sampleWithValue, SampleArithmetic.sampleWithValue] at h
    rw [sampleWithValue, SampleArithmetic.sampleWithValue]
    split_ifs at h ⊢
    · exact Option.some.inj h
    · obtain ⟨fraction, hfraction, h⟩ := bind_eq_some_iff.mp h
      rw [← quotient_eq_some hfraction] at h
      exact Option.some.inj h
    · exact sampleAfter_exact h hd

/-- Where the largest delay of an accepted list fits, the 64-bit samples are the exact ones. -/
theorem sampleWithValue_accepted {text : Text} {dist : GoMap String String}
    {ps : List (Percentile ℚ)} (h : Accepts text dist ps) {top : ℤ}
    (htop : FaultInjection.sampleWithValue ps 1 = some top) (hfits : top < 2 ^ 63) (h0 : 0 ≤ r)
    (h1 : r ≤ 1) :
    FaultInjection.sampleWithValue ps r = some (sampleWithValue truncate ps r) := by
  obtain ⟨d, hd, hnonneg⟩ := h.accepted.exists_sample h0 h1
  have hle : d ≤ top := h.accepted.sample_mono h0 h1 le_rfl hd htop
  rw [hd, sampleWithValue_exact hd ⟨by omega, by omega⟩]

theorem cryptoFloat64_range (n : Fin (2 ^ 53)) :
    0 ≤ (cryptoFloat64 n : ℚ) ∧ (cryptoFloat64 n : ℚ) ≤ 1 - 1 / 2 ^ 53 := by
  have hlt : ((n : ℕ) : ℚ) + 1 ≤ 2 ^ 53 := by exact_mod_cast n.isLt
  rw [cryptoFloat64]
  push_cast
  refine ⟨by positivity, ?_⟩
  rw [div_le_iff₀ (by norm_num)]
  linarith

/-- The durations of what is built from an accepted list, where the largest delay fits. -/
theorem durations_bounds {lib : ConfigLibrary ℚ} {allocates : ℤ → Bool}
    {ps : List (Percentile ℚ)} {resolution : ℤ} {distributionMode : String} {draw : Draws}
    {dist : DurationDistribution ℚ} (hps : Accepted ps) {top : ℤ} (hfits : top < 2 ^ 63)
    (htop : ∀ p ∈ ps, 2 * p.duration ≤ top)
    (h : newDurationDistribution truncate lib allocates ps resolution distributionMode draw =
      .ok dist) (hd : d ∈ dist.durations truncate) : 0 ≤ d ∧ d ≤ top := by
  unfold newDurationDistribution at h
  split_ifs at h
  · cases h
    have hmem := (shuffle_perm draw _).mem_iff.mp hd
    obtain ⟨v, hv, rfl⟩ := List.mem_map.mp hmem
    have hbounds := hps.mem_values htop hv
    rwa [wrap64_eq_self ⟨by omega, by omega⟩]
  · cases h
    obtain ⟨n, rfl⟩ := hd
    obtain ⟨h0, h1⟩ := cryptoFloat64_range n
    have h1 : (cryptoFloat64 n : ℚ) ≤ 1 := h1.trans (by norm_num)
    obtain ⟨e, he, hnonneg⟩ := hps.exists_sample h0 h1
    have hle := hps.sample_le htop h0 h1 he
    dsimp only
    rw [sampleWithValue_exact he ⟨by omega, by omega⟩]
    exact ⟨hnonneg, hle⟩

theorem sampleWithValue_repeatedMedian :
    FaultInjection.sampleWithValue [⟨1 / 2, 10⟩, ⟨1 / 2, 20⟩, ⟨9 / 10, 40⟩] (3 / 5) =
      some (sampleWithValue truncate [⟨1 / 2, 10⟩, ⟨1 / 2, 20⟩, ⟨9 / 10, 40⟩] (3 / 5)) :=
  sampleWithValue_accepted (show Accepts wholeText repeatedMedian _ from
    ⟨repeatedMedian.entries, repeatedMedian.visits_entries, by decide +kernel⟩)
    (show _ = some 80 by decide +kernel) (by decide) (by decide +kernel) (by decide +kernel)

end DurationDistribution

end BuiltOnEnvoy.FaultInjection
