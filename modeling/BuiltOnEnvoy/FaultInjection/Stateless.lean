import BuiltOnEnvoy.FaultInjection.Percentiles

/-!
# The stateless distribution of the fault injection filter

`SampleWithValue` interpolates between the configured percentiles, from zero below
the first one and up to twice the last duration above the last one, in any
arithmetic. In the exact one a division by zero has no result. There every segment is
a nondecreasing function between the durations at its ends, and this carries over the
whole list.
-/

namespace BuiltOnEnvoy.FaultInjection

open Foundations List

/-- How numbers are divided and converted to integers, and how a duration is stored. -/
structure SampleArithmetic (m : Type → Type) (F : Type) where
  divide : F → F → m F
  toInt : F → ℤ
  store : ℤ → ℤ

namespace SampleArithmetic

variable {m : Type → Type} [Monad m] {F : Type} [Zero F] [One F] [Sub F] [Mul F] [IntCast F]
variable [LE F] [DecidableLE F] [BEq F] (arith : SampleArithmetic m F)

/-- The search behind `lower`, and the tail when it is the last percentile. -/
def sampleAfter (r : F) (lower : Percentile F) : List (Percentile F) → m ℤ
  | upper :: rest =>
    if r ≤ upper.quantile then do
      let fraction ← arith.divide (r - lower.quantile) (upper.quantile - lower.quantile)
      -- Accepted durations are not negative, so that their difference fits.
      let span := ((upper.duration - lower.duration : ℤ) : F)
      return arith.store (lower.duration + arith.toInt (fraction * span))
    else sampleAfter r upper rest
  | [] =>
    if 1 ≤ lower.quantile then return lower.duration
    else do
      let fraction ← arith.divide (r - lower.quantile) (1 - lower.quantile)
      return arith.store (lower.duration + arith.toInt (fraction * (lower.duration : F)))

def sampleWithValue (percentiles : List (Percentile F)) (r : F) : m ℤ :=
  match percentiles with
  | [] => return 0
  | first :: rest =>
    if r ≤ first.quantile then
      if first.quantile == 0 then return first.duration
      else do
        let fraction ← arith.divide r first.quantile
        return arith.toInt ((first.duration : F) * fraction)
    else arith.sampleAfter r first rest

end SampleArithmetic

/-- A quotient, unless the divisor is zero. -/
def quotient (x y : ℚ) : Option ℚ :=
  if y = 0 then none else some (x / y)

theorem quotient_eq_some {x y z : ℚ} (h : quotient x y = some z) : x / y = z := by
  unfold quotient at h
  split_ifs at h
  exact Option.some.inj h

def exactArithmetic : SampleArithmetic Option ℚ := ⟨quotient, truncate, id⟩

def sampleAfter (r : ℚ) (lower : Percentile ℚ) (rest : List (Percentile ℚ)) : Option ℤ :=
  exactArithmetic.sampleAfter r lower rest

def sampleWithValue (percentiles : List (Percentile ℚ)) (r : ℚ) : Option ℤ :=
  exactArithmetic.sampleWithValue percentiles r

/-- A duration on the way from one to another. -/
def interpolate (low high : ℤ) (fraction : ℚ) : ℤ :=
  low + truncate (fraction * (high - low : ℤ))

section

variable {low high : ℤ} {x y : ℚ}

theorem scaled_nonneg (h : low ≤ high) (hx : 0 ≤ x) : 0 ≤ x * (high - low : ℤ) := by
  have hgap : (0 : ℚ) ≤ (high - low : ℤ) := by exact_mod_cast sub_nonneg.mpr h
  exact mul_nonneg hx hgap

theorem low_le_interpolate (h : low ≤ high) (hx : 0 ≤ x) : low ≤ interpolate low high x := by
  have hpart := truncate_nonneg (scaled_nonneg h hx)
  rw [interpolate]
  omega

theorem interpolate_mono (h : low ≤ high) (hx : 0 ≤ x) (hxy : x ≤ y) :
    interpolate low high x ≤ interpolate low high y := by
  have hgap : (0 : ℚ) ≤ (high - low : ℤ) := by exact_mod_cast sub_nonneg.mpr h
  have hpart := truncate_mono (scaled_nonneg h hx) (mul_le_mul_of_nonneg_right hxy hgap)
  rw [interpolate, interpolate]
  omega

theorem interpolate_one : interpolate low high 1 = high := by
  rw [interpolate, one_mul, truncate_intCast]
  omega

theorem interpolate_le_high (h : low ≤ high) (hx : 0 ≤ x) (hx1 : x ≤ 1) :
    interpolate low high x ≤ high := by
  calc interpolate low high x ≤ interpolate low high 1 := interpolate_mono h hx hx1
    _ = high := interpolate_one

end

/-- Where a number lies between two others, from 0 to 1. -/
structure Within (low high r : ℚ) : Prop where
  above : low < r
  below : r ≤ high

namespace Within

variable {low high r r' : ℚ}

theorem width_pos (h : Within low high r) : 0 < high - low :=
  sub_pos.mpr (h.above.trans_le h.below)

theorem quotient_eq (h : Within low high r) :
    quotient (r - low) (high - low) = some ((r - low) / (high - low)) :=
  if_neg h.width_pos.ne'

theorem fraction_nonneg (h : Within low high r) : 0 ≤ (r - low) / (high - low) :=
  div_nonneg (sub_nonneg.mpr h.above.le) h.width_pos.le

theorem fraction_le_one (h : Within low high r) : (r - low) / (high - low) ≤ 1 := by
  rw [div_le_one h.width_pos]
  linarith [h.below]

theorem fraction_mono (h : Within low high r) (hr : r ≤ r') :
    (r - low) / (high - low) ≤ (r' - low) / (high - low) := by
  apply div_le_div_of_nonneg_right _ h.width_pos.le
  linarith

theorem fraction_end (h : low < high) : (high - low) / (high - low) = 1 :=
  div_self (sub_pos.mpr h).ne'

end Within

/-- The list is sorted behind its first percentile, and no quantile is beyond 1. -/
structure Ascends (lower : Percentile ℚ) (rest : List (Percentile ℚ)) : Prop where
  nonneg : 0 ≤ lower.duration
  bounded : lower.quantile ≤ 1
  quantiles : (lower :: rest).Pairwise fun p q => p.quantile ≤ q.quantile
  durations : (lower :: rest).Pairwise fun p q => p.duration ≤ q.duration
  range : ∀ p ∈ rest, p.quantile ≤ 1

namespace Ascends

variable {lower upper : Percentile ℚ} {rest : List (Percentile ℚ)} {r r' : ℚ} {d d' : ℤ}

theorem tail (h : Ascends lower (upper :: rest)) : Ascends upper rest where
  nonneg := h.nonneg.trans ((pairwise_cons.mp h.durations).1 upper mem_cons_self)
  bounded := h.range upper mem_cons_self
  quantiles := (pairwise_cons.mp h.quantiles).2
  durations := (pairwise_cons.mp h.durations).2
  range := fun p hp => h.range p (mem_cons_of_mem upper hp)

theorem duration_le (h : Ascends lower (upper :: rest)) : lower.duration ≤ upper.duration :=
  (pairwise_cons.mp h.durations).1 upper mem_cons_self

theorem sampleAfter_here (h : Within lower.quantile upper.quantile r) :
    sampleAfter r lower (upper :: rest) =
      some (interpolate lower.duration upper.duration
        ((r - lower.quantile) / (upper.quantile - lower.quantile))) := by
  rw [sampleAfter, SampleArithmetic.sampleAfter, if_pos h.below]
  exact congrArg (Option.bind · _) h.quotient_eq

theorem sampleAfter_later (h : upper.quantile < r) :
    sampleAfter r lower (upper :: rest) = sampleAfter r upper rest := by
  rw [sampleAfter, SampleArithmetic.sampleAfter, if_neg (not_le.mpr h), sampleAfter]

theorem sampleAfter_tail (h : Within lower.quantile 1 r) :
    sampleAfter r lower [] =
      some (interpolate lower.duration (2 * lower.duration)
        ((r - lower.quantile) / (1 - lower.quantile))) := by
  have hlast : ¬1 ≤ lower.quantile := not_le.mpr (h.above.trans_le h.below)
  have hgap : 2 * lower.duration - lower.duration = lower.duration := by omega
  rw [sampleAfter, SampleArithmetic.sampleAfter, if_neg hlast, interpolate, hgap]
  exact congrArg (Option.bind · _) h.quotient_eq

theorem le_double (h : Ascends lower rest) : lower.duration ≤ 2 * lower.duration := by
  have := h.nonneg
  omega

/-- Behind a percentile the search gives a duration, not below the percentile's. -/
theorem exists_sampleAfter (h : Ascends lower rest) (hlow : lower.quantile < r) (hr : r ≤ 1) :
    ∃ d, sampleAfter r lower rest = some d ∧ lower.duration ≤ d := by
  induction rest generalizing lower with
  | nil =>
    have hwithin : Within lower.quantile 1 r := ⟨hlow, hr⟩
    exact ⟨_, sampleAfter_tail hwithin, low_le_interpolate h.le_double hwithin.fraction_nonneg⟩
  | cons upper rest ih =>
    rcases le_or_gt r upper.quantile with hhere | hlater
    · have hwithin : Within lower.quantile upper.quantile r := ⟨hlow, hhere⟩
      exact ⟨_, sampleAfter_here hwithin,
        low_le_interpolate h.duration_le hwithin.fraction_nonneg⟩
    · obtain ⟨d, hd, hle⟩ := ih h.tail hlater
      exact ⟨d, (sampleAfter_later hlater).trans hd, h.duration_le.trans hle⟩

theorem sampleAfter_le (h : Ascends lower rest) {top : ℤ}
    (htop : ∀ p ∈ lower :: rest, 2 * p.duration ≤ top) (hlow : lower.quantile < r) (hr : r ≤ 1)
    (hd : sampleAfter r lower rest = some d) : d ≤ top := by
  induction rest generalizing lower with
  | nil =>
    have hwithin : Within lower.quantile 1 r := ⟨hlow, hr⟩
    rw [sampleAfter_tail hwithin, Option.some.injEq] at hd
    rw [← hd]
    exact (interpolate_le_high h.le_double hwithin.fraction_nonneg hwithin.fraction_le_one).trans
      (htop lower mem_cons_self)
  | cons upper rest ih =>
    have hrest := (forall_mem_cons.mp htop).2
    rcases le_or_gt r upper.quantile with hhere | hlater
    · have hwithin : Within lower.quantile upper.quantile r := ⟨hlow, hhere⟩
      have hle := interpolate_le_high h.duration_le hwithin.fraction_nonneg hwithin.fraction_le_one
      have := h.tail.nonneg
      have := hrest upper mem_cons_self
      rw [sampleAfter_here hwithin, Option.some.injEq] at hd
      omega
    · rw [sampleAfter_later hlater] at hd
      exact ih h.tail hrest hlater hd

theorem sampleAfter_mono (h : Ascends lower rest) (hlow : lower.quantile < r) (hr : r ≤ r')
    (hr' : r' ≤ 1) (hd : sampleAfter r lower rest = some d)
    (hd' : sampleAfter r' lower rest = some d') : d ≤ d' := by
  induction rest generalizing lower with
  | nil =>
    have hwithin : Within lower.quantile 1 r := ⟨hlow, hr.trans hr'⟩
    have hwithin' : Within lower.quantile 1 r' := ⟨hlow.trans_le hr, hr'⟩
    rw [sampleAfter_tail hwithin, Option.some.injEq] at hd
    rw [sampleAfter_tail hwithin', Option.some.injEq] at hd'
    rw [← hd, ← hd']
    exact interpolate_mono h.le_double hwithin.fraction_nonneg (hwithin.fraction_mono hr)
  | cons upper rest ih =>
    rcases le_or_gt r' upper.quantile with hhere | hlater
    · -- both in this segment
      have hwithin : Within lower.quantile upper.quantile r := ⟨hlow, hr.trans hhere⟩
      have hwithin' : Within lower.quantile upper.quantile r' := ⟨hlow.trans_le hr, hhere⟩
      rw [sampleAfter_here hwithin, Option.some.injEq] at hd
      rw [sampleAfter_here hwithin', Option.some.injEq] at hd'
      rw [← hd, ← hd']
      exact interpolate_mono h.duration_le hwithin.fraction_nonneg (hwithin.fraction_mono hr)
    · rw [sampleAfter_later hlater] at hd'
      rcases le_or_gt r upper.quantile with hfirst | hsecond
      · -- the duration at the end of this segment lies between the two
        have hwithin : Within lower.quantile upper.quantile r := ⟨hlow, hfirst⟩
        rw [sampleAfter_here hwithin, Option.some.injEq] at hd
        obtain ⟨e, he, hle⟩ := h.tail.exists_sampleAfter hlater hr'
        rw [hd', Option.some.injEq] at he
        calc d ≤ upper.duration := by
              rw [← hd]
              exact interpolate_le_high h.duration_le hwithin.fraction_nonneg
                hwithin.fraction_le_one
          _ ≤ d' := by rw [he]; exact hle
      · rw [sampleAfter_later hsecond] at hd
        exact ih h.tail hsecond hd hd'

/-- At a quantile behind the first percentile the search stops at the first percentile that has
it. -/
theorem sampleAfter_quantile (h : Ascends lower rest) {p : Percentile ℚ} (hp : p ∈ rest)
    (hlow : lower.quantile < p.quantile) :
    ∃ q ∈ rest, q.quantile = p.quantile ∧
      sampleAfter p.quantile lower rest = some q.duration ∧
      ∀ q' ∈ rest, q'.quantile = p.quantile → q.duration ≤ q'.duration := by
  induction rest generalizing lower with
  | nil => cases hp
  | cons upper rest ih =>
    have hsorted := pairwise_cons.mp h.tail.quantiles
    have hdurations := pairwise_cons.mp h.tail.durations
    rcases lt_or_ge upper.quantile p.quantile with hlater | hhere
    · have hrest : p ∈ rest := by
        rcases mem_cons.mp hp with rfl | hrest
        · exact absurd hlater (lt_irrefl _)
        · exact hrest
      obtain ⟨q, hq, hquantile, hsample, hleast⟩ := ih h.tail hrest hlater
      refine ⟨q, mem_cons_of_mem upper hq, hquantile,
        (sampleAfter_later hlater).trans hsample, ?_⟩
      rw [forall_mem_cons]
      exact ⟨fun heq => absurd heq hlater.ne, hleast⟩
    · -- the list is sorted, so the quantile is the upper one's
      have hsame : upper.quantile = p.quantile := by
        rcases mem_cons.mp hp with rfl | hrest
        · rfl
        · exact le_antisymm (hsorted.1 p hrest) hhere
      have hwithin : Within lower.quantile upper.quantile p.quantile := ⟨hlow, hhere⟩
      refine ⟨upper, mem_cons_self, hsame, ?_, ?_⟩
      · rw [sampleAfter_here hwithin, ← hsame, Within.fraction_end (hsame ▸ hlow),
          interpolate_one]
      · rw [forall_mem_cons]
        exact ⟨fun _ => le_refl _, fun q' hq' _ => hdurations.1 q' hq'⟩

end Ascends

variable {first : Percentile ℚ} {rest : List (Percentile ℚ)} {ps : List (Percentile ℚ)}
  {r r' : ℚ} {d d' : ℤ}

theorem Accepted.ascends (h : Accepted (first :: rest)) : Ascends first rest where
  nonneg := h.nonneg first mem_cons_self
  bounded := (h.range first mem_cons_self).2
  quantiles := h.sorted
  durations := h.nondecreasing
  range := fun p hp => (h.range p (mem_cons_of_mem first hp)).2

theorem sampleWithValue_zero (h : first.quantile = 0) (hr : r ≤ 0) :
    sampleWithValue (first :: rest) r = some first.duration := by
  rw [sampleWithValue, SampleArithmetic.sampleWithValue, if_pos (h ▸ hr), if_pos (beq_iff_eq.mpr h)]
  rfl

theorem sampleWithValue_first (hq : 0 < first.quantile) (hr : r ≤ first.quantile) :
    sampleWithValue (first :: rest) r =
      some (interpolate 0 first.duration (r / first.quantile)) := by
  have hquotient : quotient r first.quantile = some (r / first.quantile) := if_neg hq.ne'
  have hbeq : ¬(first.quantile == 0) = true := by simpa using hq.ne'
  rw [sampleWithValue, SampleArithmetic.sampleWithValue, if_pos hr, if_neg hbeq, interpolate,
    zero_add, sub_zero, mul_comm]
  exact congrArg (Option.bind · _) hquotient

theorem sampleWithValue_after (hr : first.quantile < r) :
    sampleWithValue (first :: rest) r = sampleAfter r first rest := by
  rw [sampleWithValue, SampleArithmetic.sampleWithValue, if_neg (not_le.mpr hr), sampleAfter]

/-- Up to the first percentile there is a duration, and not above the percentile's. -/
theorem Accepted.sample_first (h : Accepted (first :: rest)) (hr0 : 0 ≤ r)
    (hr : r ≤ first.quantile) :
    ∃ d, sampleWithValue (first :: rest) r = some d ∧ 0 ≤ d ∧ d ≤ first.duration := by
  have hnonneg := h.ascends.nonneg
  rcases (h.range first mem_cons_self).1.eq_or_lt with hzero | hpos
  · exact ⟨first.duration, sampleWithValue_zero hzero.symm (hzero ▸ hr), hnonneg, le_refl _⟩
  · have hfraction : 0 ≤ r / first.quantile := div_nonneg hr0 hpos.le
    have hone : r / first.quantile ≤ 1 := (div_le_one hpos).mpr hr
    exact ⟨_, sampleWithValue_first hpos hr, low_le_interpolate hnonneg hfraction,
      interpolate_le_high hnonneg hfraction hone⟩

theorem Accepted.exists_sample (h : Accepted ps) (hr0 : 0 ≤ r) (hr1 : r ≤ 1) :
    ∃ d, sampleWithValue ps r = some d ∧ 0 ≤ d := by
  cases ps with
  | nil => exact absurd rfl h.nonempty
  | cons first rest =>
    rcases le_or_gt r first.quantile with hhere | hafter
    · obtain ⟨d, hd, hpos, -⟩ := h.sample_first hr0 hhere
      exact ⟨d, hd, hpos⟩
    · obtain ⟨d, hd, hle⟩ := h.ascends.exists_sampleAfter hafter hr1
      exact ⟨d, (sampleWithValue_after hafter).trans hd, h.ascends.nonneg.trans hle⟩

/-- No delay is above twice the largest duration. -/
theorem Accepted.sample_le (h : Accepted ps) {top : ℤ} (htop : ∀ p ∈ ps, 2 * p.duration ≤ top)
    (hr0 : 0 ≤ r) (hr1 : r ≤ 1) (hd : sampleWithValue ps r = some d) : d ≤ top := by
  cases ps with
  | nil => exact absurd rfl h.nonempty
  | cons first rest =>
    rcases le_or_gt r first.quantile with hhere | hafter
    · obtain ⟨e, he, -, hle⟩ := h.sample_first hr0 hhere
      have := h.ascends.nonneg
      have := htop first mem_cons_self
      rw [hd, Option.some.injEq] at he
      omega
    · rw [sampleWithValue_after hafter] at hd
      exact h.ascends.sampleAfter_le htop hafter hr1 hd

theorem Accepted.sample_mono (h : Accepted ps) (hr0 : 0 ≤ r) (hr : r ≤ r') (hr1 : r' ≤ 1)
    (hd : sampleWithValue ps r = some d) (hd' : sampleWithValue ps r' = some d') : d ≤ d' := by
  cases ps with
  | nil => exact absurd rfl h.nonempty
  | cons first rest =>
    rcases le_or_gt r first.quantile with hhere | hafter
    · rcases le_or_gt r' first.quantile with hhere' | hafter'
      · rcases (h.range first mem_cons_self).1.eq_or_lt with hzero | hpos
        · grind
        · rw [sampleWithValue_first hpos hhere, Option.some.injEq] at hd
          rw [sampleWithValue_first hpos hhere', Option.some.injEq] at hd'
          rw [← hd, ← hd']
          exact interpolate_mono h.ascends.nonneg (div_nonneg hr0 hpos.le)
            (div_le_div_of_nonneg_right hr hpos.le)
      · obtain ⟨e, he, -, hle⟩ := h.sample_first hr0 hhere
        obtain ⟨e', he', hle'⟩ := h.ascends.exists_sampleAfter hafter' hr1
        rw [hd, Option.some.injEq] at he
        rw [sampleWithValue_after hafter', he', Option.some.injEq] at hd'
        rw [he, ← hd']
        exact hle.trans hle'
    · rw [sampleWithValue_after hafter] at hd
      rw [sampleWithValue_after (hafter.trans_le hr)] at hd'
      exact h.ascends.sampleAfter_mono hafter hr hr1 hd hd'

theorem Accepted.sample_quantile (h : Accepted ps) {p : Percentile ℚ} (hp : p ∈ ps) :
    ∃ q ∈ ps, q.quantile = p.quantile ∧ sampleWithValue ps p.quantile = some q.duration ∧
      ∀ q' ∈ ps, q'.quantile = p.quantile → q.duration ≤ q'.duration := by
  cases ps with
  | nil => cases hp
  | cons first rest =>
    have hsorted := pairwise_cons.mp h.sorted
    have hdurations := pairwise_cons.mp h.nondecreasing
    have hfirst : first.quantile ≤ p.quantile := by
      rcases mem_cons.mp hp with rfl | hrest
      · exact le_refl _
      · exact hsorted.1 p hrest
    rcases hfirst.eq_or_lt with hsame | hafter
    · refine ⟨first, mem_cons_self, hsame, ?_, ?_⟩
      · rw [← hsame]
        rcases (h.range first mem_cons_self).1.eq_or_lt with hzero | hpos
        · exact sampleWithValue_zero hzero.symm hzero.symm.le
        · rw [sampleWithValue_first hpos (le_refl _), div_self hpos.ne', interpolate_one]
      · rw [forall_mem_cons]
        exact ⟨fun _ => le_refl _, fun q' hq' _ => hdurations.1 q' hq'⟩
    · have hrest : p ∈ rest := by
        rcases mem_cons.mp hp with rfl | hrest
        · exact absurd hafter (lt_irrefl _)
        · exact hrest
      obtain ⟨q, hq, hquantile, hsample, hleast⟩ := h.ascends.sampleAfter_quantile hrest hafter
      refine ⟨q, mem_cons_of_mem first hq, hquantile,
        (sampleWithValue_after hafter).trans hsample, ?_⟩
      rw [forall_mem_cons]
      exact ⟨fun heq => absurd heq hafter.ne, hleast⟩

/-- Sampling has a result without a division by zero, is never negative and nondecreasing, and
gives the configured duration at every configured quantile, the smallest one of those that share
it. -/
structure QuantileFunction (ps : List (Percentile ℚ)) : Prop where
  defined : ∀ r, 0 ≤ r → r ≤ 1 → ∃ d, sampleWithValue ps r = some d ∧ 0 ≤ d
  monotone : ∀ r r' d d', 0 ≤ r → r ≤ r' → r' ≤ 1 → sampleWithValue ps r = some d →
    sampleWithValue ps r' = some d' → d ≤ d'
  configured : ∀ p ∈ ps, ∃ q ∈ ps, q.quantile = p.quantile ∧
    sampleWithValue ps p.quantile = some q.duration ∧
    ∀ q' ∈ ps, q'.quantile = p.quantile → q.duration ≤ q'.duration

theorem sampleWithValue_quantileFunction {text : Text} {dist : GoMap String String}
    (h : Accepts text dist ps) : QuantileFunction ps :=
  have haccepted := h.accepted
  ⟨fun _ => haccepted.exists_sample, fun _ _ _ _ => haccepted.sample_mono,
    fun _ => haccepted.sample_quantile⟩

/-- Two keys for one quantile. -/
def repeatedMedian : GoMap String String :=
  ⟨[("p50", "10ns"), ("p050", "20ns"), ("p90", "40ns")], by decide⟩

theorem repeatedMedian_quantileFunction :
    QuantileFunction [⟨1 / 2, 10⟩, ⟨1 / 2, 20⟩, ⟨9 / 10, 40⟩] :=
  sampleWithValue_quantileFunction
    (show Accepts wholeText repeatedMedian _ from
      ⟨repeatedMedian.entries, repeatedMedian.visits_entries, by decide +kernel⟩)

end BuiltOnEnvoy.FaultInjection
