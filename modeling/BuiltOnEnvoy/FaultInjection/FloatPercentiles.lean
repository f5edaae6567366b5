import BuiltOnEnvoy.FaultInjection.Percentiles

/-!
# Percentiles in floating-point numbers

`ParsePercentileDistribution` with what `strconv.ParseFloat` can return. Keys
that are spelled differently can stand for the same quantile, and a key can
stand for no number at all. The order in which a map is visited is not seen,
and the list is as it should be, exactly when neither happens in a list that is
accepted.
-/

namespace BuiltOnEnvoy.FaultInjection

open Foundations List

namespace Percentile

/-- The quantile is a finite number. -/
def Numeric (p : Percentile Number) : Prop :=
  ∃ value, p.quantile = .finite value

/-- The quantile of the second is not less. -/
def NotAbove (p q : Percentile Number) : Prop :=
  ¬q.quantile < p.quantile

instance : DecidableRel NotAbove := fun p q =>
  inferInstanceAs (Decidable (¬q.quantile < p.quantile))

variable {p q : Percentile Number}

theorem notAbove_iff (hp : p.Numeric) (hq : q.Numeric) :
    p.NotAbove q ↔ p.quantile.toRat ≤ q.quantile.toRat := by
  obtain ⟨a, ha⟩ := hp
  obtain ⟨b, hb⟩ := hq
  rw [NotAbove, ha, hb, Number.finite_lt, not_lt]
  rfl

theorem quantile_eq_of_toRat_eq (hp : p.Numeric) (hq : q.Numeric)
    (h : p.quantile.toRat = q.quantile.toRat) : p.quantile = q.quantile := by
  obtain ⟨a, ha⟩ := hp
  obtain ⟨b, hb⟩ := hq
  rw [ha, hb] at h ⊢
  exact congrArg Number.finite h

/-- With one quantile, they have one duration. -/
def SameDuration (p q : Percentile Number) : Prop :=
  p.quantile = q.quantile → p.duration = q.duration

instance : Std.Symm SameDuration := ⟨fun _ _ h heq => (h heq.symm).symm⟩

/-- The key of an order by the quantile in which equal quantiles have falling durations. -/
def falling (p : Percentile Number) : ℚ ×ₗ ℤᵒᵈ :=
  toLex (p.quantile.toRat, OrderDual.toDual p.duration)

theorem toRat_le_of_falling (h : p.falling ≤ q.falling) :
    p.quantile.toRat ≤ q.quantile.toRat := by
  rcases Prod.Lex.toLex_le_toLex.mp h with hlt | ⟨heq, -⟩
  · exact hlt.le
  · exact heq.le

theorem duration_le_of_falling (h : p.falling ≤ q.falling) (heq : p.quantile = q.quantile) :
    q.duration ≤ p.duration := by
  rcases Prod.Lex.toLex_le_toLex.mp h with hlt | ⟨-, hle⟩
  · exact absurd (congrArg Number.toRat heq) hlt.ne
  · exact hle

/-- The list with equal quantiles in the order of falling durations. -/
def fall (ps : List (Percentile Number)) : List (Percentile Number) :=
  ps.insertionSort (Order.Preimage falling (· ≤ ·))

theorem fall_perm (ps : List (Percentile Number)) : (fall ps).Perm ps :=
  perm_insertionSort _ ps

theorem fall_pairwise (ps : List (Percentile Number)) :
    (fall ps).Pairwise fun p q => p.falling ≤ q.falling :=
  pairwise_insertionSort (Order.Preimage falling (· ≤ ·)) ps

/-- If the durations rise in this order, equal quantiles have one duration. -/
theorem sameDuration_of_fall {ps : List (Percentile Number)}
    (h : (fall ps).Pairwise fun p q => p.duration ≤ q.duration) (hp : p ∈ ps) (hq : q ∈ ps) :
    p.SameDuration q := by
  have hpairs : (fall ps).Pairwise SameDuration := by
    apply ((fall_pairwise ps).and h).imp
    rintro p q ⟨hfall, hrise⟩ heq
    exact le_antisymm hrise (duration_le_of_falling hfall heq)
  exact hpairs.forall_of_forall (fun _ _ _ => rfl) ((fall_perm ps).mem_iff.mpr hp)
    ((fall_perm ps).mem_iff.mpr hq)

end Percentile

/-- What is used of the libraries, and the division by `100.0`. The sort is known for lists of
numbers: it puts them in order, and leaves them alone when they are. Where it puts equal
quantiles is not said. -/
structure Floats where
  parseFloat : String → Except String Number
  hundredth : Number → Number
  parseDuration : String → Except String ℤ
  quote : String → String
  durationText : ℤ → String
  percentText : Number → String
  sort : List (Percentile Number) → List (Percentile Number)
  hundredth_nan : hundredth .nan = .nan
  hundredth_finite : ∀ val, 0 ≤ val → val ≤ 100 →
    ∃ quantile, hundredth (.finite val) = .finite quantile ∧ 0 ≤ quantile ∧ quantile ≤ 1
  sort_perm : ∀ l, (sort l).Perm l
  sort_sorted : ∀ l, (∀ p ∈ l, p.Numeric) → (sort l).Pairwise Percentile.NotAbove
  sort_of_sorted : ∀ l, (∀ p ∈ l, p.Numeric) → l.Pairwise Percentile.NotAbove → sort l = l

namespace Floats

variable (floats : Floats)

@[simps]
def parser : PercentileParser Number :=
  { floats with outOfRange := fun val => val < .finite 0 ∨ .finite 100 < val }

def parsePercentileDistribution (order : List (String × String)) :
    Except String (List (Percentile Number)) :=
  floats.parser.parsePercentileDistribution order

/-- Whether the map is accepted, and the list that results, are the same for all orders. -/
def IgnoresOrder (dist : GoMap String String) : Prop :=
  ∀ order order', dist.Visits order → dist.Visits order' →
    (floats.parsePercentileDistribution order).toOption =
      (floats.parsePercentileDistribution order').toOption

/-- An entry of the map stands for the percentile. -/
def Reads (dist : GoMap String String) (p : Percentile Number) : Prop :=
  ∃ entry ∈ dist.entries, floats.parser.parsePercentile entry = .ok p

/-- Every key stands for a number, and keys for one quantile have one duration. -/
structure Unambiguous (dist : GoMap String String) : Prop where
  numeric : ∀ p, floats.Reads dist p → p.Numeric
  single : ∀ p q, floats.Reads dist p → floats.Reads dist q → p.SameDuration q

end Floats

/-- The quantiles are numbers in order between 0 and 1, with durations in order. -/
structure WellFormed (ps : List (Percentile Number)) : Prop where
  range : ∀ p ∈ ps, ∃ quantile, p.quantile = .finite quantile ∧ 0 ≤ quantile ∧ quantile ≤ 1
  nonneg : ∀ p ∈ ps, 0 ≤ p.duration
  sorted : ps.Pairwise Percentile.NotAbove
  nondecreasing : ps.Pairwise fun p q => p.duration ≤ q.duration

namespace Floats

variable {floats : Floats}

theorem hundredth_range {val : Number} (h : floats.parser.outOfRange val = false) :
    floats.hundredth val = .nan ∨
      ∃ value, floats.hundredth val = .finite value ∧ 0 ≤ value ∧ value ≤ 1 := by
  have hrange : ¬val < .finite 0 ∧ ¬.finite 100 < val := by simpa using h
  rcases Number.between hrange.1 hrange.2 with rfl | ⟨val, rfl, hlow, hhigh⟩
  · exact Or.inl floats.hundredth_nan
  · exact Or.inr (floats.hundredth_finite val hlow hhigh)

theorem parsePercentileDistribution_eq_ok_iff {order : List (String × String)}
    {ps : List (Percentile Number)} :
    floats.parsePercentileDistribution order = .ok ps ↔
      order ≠ [] ∧ ∃ result, floats.parser.Rounds order result ∧ floats.sort result = ps ∧
        ps.Pairwise fun p q => p.duration ≤ q.duration :=
  PercentileParser.parsePercentileDistribution_eq_ok_iff

section

variable {dist : GoMap String String} {order order' : List (String × String)}
variable {result result' ps : List (Percentile Number)}

theorem mem_rounds_iff (horder : dist.Visits order) (h : floats.parser.Rounds order result)
    {p : Percentile Number} : p ∈ result ↔ floats.Reads dist p := by
  rw [mem_results_iff h]
  constructor
  · rintro ⟨entry, hentry, hp⟩
    exact ⟨entry, horder.mem_iff.mp hentry, hp⟩
  · rintro ⟨entry, hentry, hp⟩
    exact ⟨entry, horder.mem_iff.mpr hentry, hp⟩

theorem Unambiguous.sort_eq (h : floats.Unambiguous dist)
    (hreads : ∀ p ∈ result, floats.Reads dist p) (hperm : result'.Perm result) :
    floats.sort result' = floats.sort result := by
  have hnumeric : ∀ p ∈ result, p.Numeric := fun p hp => h.numeric p (hreads p hp)
  have hreads' : ∀ p ∈ floats.sort result', floats.Reads dist p := fun p hp =>
    hreads p (hperm.mem_iff.mp ((floats.sort_perm result').mem_iff.mp hp))
  apply @List.Perm.eq_of_pairwise _ Percentile.NotAbove
  · intro p q hp hq hpq hqp
    have hp := hreads' p hp
    have hq := hreads q ((floats.sort_perm result).mem_iff.mp hq)
    rw [Percentile.notAbove_iff (h.numeric p hp) (h.numeric q hq)] at hpq
    rw [Percentile.notAbove_iff (h.numeric q hq) (h.numeric p hp)] at hqp
    have heq := Percentile.quantile_eq_of_toRat_eq (h.numeric p hp) (h.numeric q hq)
      (le_antisymm hpq hqp)
    cases p
    cases q
    exact congrArg₂ Percentile.mk heq (h.single _ _ hp hq heq)
  · exact floats.sort_sorted result' fun p hp => hnumeric p (hperm.mem_iff.mp hp)
  · exact floats.sort_sorted result hnumeric
  · exact (floats.sort_perm result').trans (hperm.trans (floats.sort_perm result).symm)

theorem sort_fall (hnumeric : ∀ p ∈ result, p.Numeric) :
    floats.sort (Percentile.fall result) = Percentile.fall result := by
  have hmem : ∀ p ∈ Percentile.fall result, p.Numeric := fun p hp =>
    hnumeric p ((Percentile.fall_perm result).mem_iff.mp hp)
  apply floats.sort_of_sorted _ hmem
  refine (Percentile.fall_pairwise result).imp_of_mem fun {p q} hp hq hle => ?_
  exact (Percentile.notAbove_iff (hmem p hp) (hmem q hq)).mpr (Percentile.toRat_le_of_falling hle)

theorem wellFormed_of_parse (h : floats.parsePercentileDistribution order = .ok ps)
    (hnumeric : ∀ p ∈ ps, p.Numeric) : WellFormed ps := by
  have hentry : ∀ p ∈ ps, ∃ entry ∈ order, floats.parser.parsePercentile entry = .ok p :=
    fun p => PercentileParser.exists_entry floats.sort_perm h
  obtain ⟨-, result, hrounds, rfl, hcheck⟩ := parsePercentileDistribution_eq_ok_iff.mp h
  constructor
  · intro p hp
    obtain ⟨entry, -, hparse⟩ := hentry p hp
    obtain ⟨⟨val, hval, heq⟩, -⟩ := PercentileParser.parsePercentile_eq_ok hparse
    obtain ⟨value, hvalue⟩ := hnumeric p hp
    rcases hundredth_range hval with hnan | hrange
    · rw [heq, show floats.parser.hundredth val = .nan from hnan] at hvalue
      cases hvalue
    · rw [heq]
      exact hrange
  · intro p hp
    obtain ⟨entry, -, hparse⟩ := hentry p hp
    exact (PercentileParser.parsePercentile_eq_ok hparse).2.2
  · exact floats.sort_sorted result fun p hp =>
      hnumeric p ((floats.sort_perm result).mem_iff.mpr hp)
  · exact hcheck

theorem Unambiguous.ignoresOrder (h : floats.Unambiguous dist) : floats.IgnoresOrder dist := by
  -- A list accepted in one order is accepted in every other.
  have hall : ∀ order order', dist.Visits order → dist.Visits order' → ∀ ps,
      floats.parsePercentileDistribution order = .ok ps →
        floats.parsePercentileDistribution order' = .ok ps := by
    intro order order' horder horder' ps hok
    obtain ⟨hempty, result, hrounds, rfl, hcheck⟩ := parsePercentileDistribution_eq_ok_iff.mp hok
    have hperm : order'.Perm order := horder'.trans horder.symm
    obtain ⟨result', hrounds', hperm'⟩ := hrounds.reorder hperm
    refine parsePercentileDistribution_eq_ok_iff.mpr ⟨?_, result', hrounds', ?_, hcheck⟩
    · rintro rfl
      exact hempty (nil_perm.mp hperm)
    · exact h.sort_eq (fun p hp => (mem_rounds_iff horder hrounds).mp hp) hperm'
  intro order order' horder horder'
  apply Option.ext
  intro ps
  rw [toOption_eq_some_iff, toOption_eq_some_iff]
  exact ⟨hall order order' horder horder' ps, hall order' order horder' horder ps⟩

theorem IgnoresOrder.unambiguous (h : floats.IgnoresOrder dist) (horder : dist.Visits order)
    (hok : floats.parsePercentileDistribution order = .ok ps) (hnumeric : ∀ p ∈ ps, p.Numeric) :
    floats.Unambiguous dist := by
  obtain ⟨-, result, hrounds, rfl, -⟩ := parsePercentileDistribution_eq_ok_iff.mp hok
  have hnumeric : ∀ p ∈ result, p.Numeric := fun p hp =>
    hnumeric p ((floats.sort_perm result).mem_iff.mpr hp)
  -- The loop can visit equal quantiles in the order of falling durations.
  obtain ⟨order', hperm, hrounds'⟩ := hrounds.exists_order (Percentile.fall_perm result).symm
  have hok' : floats.parsePercentileDistribution order' = .ok (floats.sort result) := by
    have hsame := h order order' horder (hperm.symm.trans horder)
    rw [hok] at hsame
    exact toOption_eq_some_iff.mp hsame.symm
  obtain ⟨-, result', hrounds'', hsort, hcheck⟩ := parsePercentileDistribution_eq_ok_iff.mp hok'
  obtain rfl : Percentile.fall result = result' :=
    Except.ok.inj ((mapM_eq_ok_iff.mpr hrounds').symm.trans (mapM_eq_ok_iff.mpr hrounds''))
  rw [← hsort, sort_fall hnumeric] at hcheck
  constructor
  · exact fun p hp => hnumeric p ((mem_rounds_iff horder hrounds).mpr hp)
  · intro p q hp hq
    exact Percentile.sameDuration_of_fall hcheck ((mem_rounds_iff horder hrounds).mpr hp)
      ((mem_rounds_iff horder hrounds).mpr hq)

end

/-- The order of the map is not seen and every accepted list is well-formed exactly when a
map that is accepted in some order is unambiguous. -/
theorem deterministic_iff (floats : Floats) (dist : GoMap String String) :
    (floats.IgnoresOrder dist ∧ ∀ order ps, dist.Visits order →
      floats.parsePercentileDistribution order = .ok ps → WellFormed ps) ↔
      ∀ order ps, dist.Visits order → floats.parsePercentileDistribution order = .ok ps →
        floats.Unambiguous dist := by
  constructor
  · rintro ⟨hignores, hformed⟩ order ps horder hok
    refine hignores.unambiguous horder hok fun p hp => ?_
    obtain ⟨value, hvalue, -⟩ := (hformed order ps horder hok).range p hp
    exact ⟨value, hvalue⟩
  · intro h
    constructor
    · by_cases hsome : ∃ order ps, dist.Visits order ∧
          floats.parsePercentileDistribution order = .ok ps
      · obtain ⟨order, ps, horder, hok⟩ := hsome
        exact (h order ps horder hok).ignoresOrder
      · -- Every order is refused.
        have hnone : ∀ order, dist.Visits order →
            (floats.parsePercentileDistribution order).toOption = none := by
          intro order horder
          rw [Option.eq_none_iff_forall_ne_some]
          intro ps hps
          exact hsome ⟨order, ps, horder, toOption_eq_some_iff.mp hps⟩
        intro order order' horder horder'
        rw [hnone order horder, hnone order' horder']
    · intro order ps horder hok
      refine wellFormed_of_parse hok fun p hp => (h order ps horder hok).numeric p ?_
      obtain ⟨-, result, hrounds, rfl, -⟩ := parsePercentileDistribution_eq_ok_iff.mp hok
      exact (mem_rounds_iff horder hrounds).mp ((floats.sort_perm result).mem_iff.mp hp)

/-- The percentile with its exact quantile as a number. -/
def embed (p : Percentile ℚ) : Percentile Number :=
  ⟨.finite p.quantile, p.duration⟩

/-- The text behind the first character of a key. -/
def keyNumber (key : String) : String := String.ofList key.toList.tail

/-- The floats are exact on the entries of a map: on the numbers of the keys and the hundredths
of those, and the percentiles are printed and sorted by them. -/
structure Exact (floats : Floats) (text : Text) (order : List (String × String)) : Prop where
  parseFloat : ∀ entry ∈ order, floats.parseFloat (keyNumber entry.1) =
    (text.parseFloat (keyNumber entry.1)).map .finite
  hundredth : ∀ entry ∈ order, ∀ val, text.parseFloat (keyNumber entry.1) = .ok val →
    0 ≤ val → val ≤ 100 → floats.hundredth (.finite val) = .finite (val / 100)
  parseDuration : floats.parseDuration = text.parseDuration
  quote : floats.quote = text.quote
  durationText : floats.durationText = text.durationText
  percentText : ∀ result, text.parser.Rounds order result → ∀ p ∈ result,
    floats.percentText (.finite p.quantile) = text.oneDecimal (p.quantile * 100)
  sort : ∀ result, text.parser.Rounds order result →
    floats.sort (result.map embed) = (text.sort result).map embed

namespace Exact

variable {text : Text} {order : List (String × String)} (h : Exact floats text order)
include h

theorem parsePercentileKey {entry : String × String} (hentry : entry ∈ order) :
    floats.parser.parsePercentileKey entry.1 =
      (text.parser.parsePercentileKey entry.1).map .finite := by
  have hparse := h.parseFloat entry hentry
  have hhundredth := h.hundredth entry hentry
  unfold keyNumber at hparse hhundredth
  simp only [PercentileParser.parsePercentileKey, parser_parseFloat, parser_quote,
    parser_outOfRange, parser_hundredth, Text.parser_parseFloat, Text.parser_quote,
    Text.parser_outOfRange, Text.parser_hundredth, h.quote]
  cases hkey : entry.1.toList with
  | nil => rfl
  | cons c numStr =>
    rw [hkey, tail_cons] at hparse hhundredth
    by_cases hc : c = 'p'
    · subst hc
      simp only [hparse]
      cases hval : text.parseFloat (String.ofList numStr) with
      | error err => rfl
      | ok val =>
        simp only [Except.map, Number.finite_lt, decide_eq_true_eq]
        split_ifs with hrange
        · rfl
        · rw [not_or, not_lt, not_lt] at hrange
          rw [hhundredth val hval hrange.1 hrange.2]
    · simp [hc, Except.map]

theorem parsePercentile {entry : String × String} (hentry : entry ∈ order) :
    floats.parser.parsePercentile entry = (text.parser.parsePercentile entry).map embed := by
  simp only [PercentileParser.parsePercentile, h.parsePercentileKey hentry]
  simp only [parser_parseDuration, parser_quote, parser_durationText, Text.parser_parseDuration,
    Text.parser_quote, Text.parser_durationText, h.parseDuration, h.quote, h.durationText]
  cases PercentileParser.parsePercentileKey _ entry.1 with
  | error err => rfl
  | ok quantile =>
    cases text.parseDuration entry.2 with
    | error err => rfl
    | ok dur =>
      simp only [Except.map, bind, Except.bind]
      split_ifs <;> rfl

omit h in
theorem checkDurations (hduration : floats.durationText = text.durationText)
    {ps : List (Percentile ℚ)} (hpercent : ∀ p ∈ ps,
      floats.percentText (.finite p.quantile) = text.oneDecimal (p.quantile * 100)) :
    floats.parser.checkDurations (ps.map embed) = text.parser.checkDurations ps := by
  induction ps with
  | nil => rfl
  | cons p rest ih =>
    obtain ⟨hp, hrest⟩ := forall_mem_cons.mp hpercent
    cases rest with
    | nil => rfl
    | cons q rest =>
      have hq := hrest q mem_cons_self
      have hlater := ih hrest
      rw [map_cons] at hlater
      simp only [map_cons, PercentileParser.checkDurations, hlater]
      simp only [embed, parser_percentText, parser_durationText, Text.parser_percentText,
        Text.parser_durationText, hduration, hp, hq]

theorem parsePercentileDistribution_eq :
    floats.parsePercentileDistribution order =
      (FaultInjection.parsePercentileDistribution text order).map (List.map embed) := by
  unfold Floats.parsePercentileDistribution FaultInjection.parsePercentileDistribution
    PercentileParser.parsePercentileDistribution
  split_ifs with hempty
  · rfl
  · rw [mapM_map fun _ => h.parsePercentile]
    cases hresult : order.mapM text.parser.parsePercentile with
    | error err => rfl
    | ok result =>
      have hrounds : text.parser.Rounds order result := mapM_eq_ok_iff.mp hresult
      have hsort : floats.parser.sort (result.map embed) = (text.parser.sort result).map embed :=
        h.sort result hrounds
      have hcheck := checkDurations h.durationText fun p hp =>
        h.percentText result hrounds p ((text.sort_perm result).mem_iff.mp hp)
      change (floats.parser.checkDurations (floats.parser.sort (result.map embed)) >>= fun _ =>
        .ok (floats.parser.sort (result.map embed))) = _
      rw [hsort, show text.parser.sort result = text.sort result from rfl, hcheck]
      change _ = (text.parser.checkDurations (text.sort result) >>= fun _ =>
        .ok (text.sort result)).map (List.map embed)
      cases text.parser.checkDurations (text.sort result) <;> rfl

end Exact

/-- A number with at most one point, or none at all. -/
def parseDecimal (number : String) : Except String Number :=
  if number = "NaN" then .ok .nan
  else
    let whole := number.toList.takeWhile (· ≠ '.')
    let fraction := (number.toList.dropWhile (· ≠ '.')).drop 1
    match atoi (String.ofList (whole ++ fraction)) with
    | some n => .ok (.finite (n / 10 ^ fraction.length))
    | none => .error "invalid syntax"

/-- Decimal numbers, hundredths with 53 binary places, and a stable sort. -/
def decimalFloats : Floats where
  parseFloat := parseDecimal
  hundredth
    | .finite val => .finite (⌊val / 100 * 2 ^ 53⌋ / 2 ^ 53)
    | other => other
  parseDuration := wholeText.parseDuration
  quote := wholeText.quote
  durationText := wholeText.durationText
  percentText quantile := wholeText.oneDecimal (quantile.toRat * 100)
  sort := List.insertionSort Percentile.NotAbove
  hundredth_nan := rfl
  hundredth_finite val hlow hhigh := by
    have hfloor : (⌊val / 100 * 2 ^ 53⌋ : ℚ) ≤ 2 ^ 53 := by
      linarith [Int.floor_le (val / 100 * 2 ^ 53)]
    have hnonneg : 0 ≤ ⌊val / 100 * 2 ^ 53⌋ := Int.floor_nonneg.mpr (by positivity)
    exact ⟨_, rfl, div_nonneg (by exact_mod_cast hnonneg) (by norm_num),
      (div_le_one (by norm_num)).mpr hfloor⟩
  sort_perm := List.perm_insertionSort _
  sort_sorted l hnumeric := by
    -- Among numbers the sort is the one by their values, whose order is total.
    have hsame : l.insertionSort Percentile.NotAbove =
        l.insertionSort (Order.Preimage (fun p => p.quantile.toRat) (· ≤ ·)) := by
      simpa using List.map_insertionSort Percentile.NotAbove
        (Order.Preimage (fun p : Percentile Number => p.quantile.toRat) (· ≤ ·)) id l
        fun p hp q hq => Percentile.notAbove_iff (hnumeric p hp) (hnumeric q hq)
    have hmem : ∀ p ∈ l.insertionSort Percentile.NotAbove, p.Numeric := fun p hp =>
      hnumeric p ((List.mem_insertionSort _).mp hp)
    refine List.Pairwise.imp_of_mem (fun {p q} hp hq hle => ?_)
      (hsame ▸ List.pairwise_insertionSort
        (Order.Preimage (fun p : Percentile Number => p.quantile.toRat) (· ≤ ·)) l)
    exact (Percentile.notAbove_iff (hmem p hp) (hmem q hq)).mpr hle
  sort_of_sorted _ _ := List.Pairwise.insertionSort_eq

/-- Quarters have exact hundredths. -/
theorem quarters_exact :
    decimalFloats.parsePercentileDistribution [("p75", "40ns"), ("p50", "10ns")] =
      (FaultInjection.parsePercentileDistribution wholeText
        [("p75", "40ns"), ("p50", "10ns")]).map (List.map embed) := by
  apply Exact.parsePercentileDistribution_eq
  refine ⟨by decide +kernel, ?_, rfl, rfl, rfl, fun _ _ _ _ => rfl, fun l _ => ?_⟩
  · intro entry hentry val hval _ _
    have hnumber : val = 75 ∨ val = 50 := by
      fin_cases hentry
      · exact .inl (Except.ok.inj (hval.symm.trans (by decide +kernel)))
      · exact .inr (Except.ok.inj (hval.symm.trans (by decide +kernel)))
    rcases hnumber with rfl | rfl <;> decide +kernel
  · refine (List.map_insertionSort _ _ embed l fun p _ q _ => ?_).symm
    simp [Percentile.NotAbove, embed, Number.finite_lt]

/-- One quantile in two spellings. -/
def halves : GoMap String String where
  entries := [("p50", "10ns"), ("p50.0", "20ns")]
  nodup := by decide

/-- A quantile that is not a number. -/
def unordered : GoMap String String where
  entries := [("pNaN", "1ns")]
  nodup := by decide

/-- Of two spellings of one quantile, the one that is visited first decides whether the map is
accepted, and a key that stands for no number is accepted. -/
theorem spelling_decides :
    ¬decimalFloats.IgnoresOrder halves ∧
      ¬∀ order ps, unordered.Visits order →
        decimalFloats.parsePercentileDistribution order = .ok ps → WellFormed ps := by
  constructor
  · intro h
    have hsame := h halves.entries halves.entries.reverse halves.visits_entries
      (reverse_perm _)
    revert hsame
    decide +kernel
  · intro h
    have hformed := h unordered.entries [⟨.nan, 1⟩] unordered.visits_entries (by decide +kernel)
    obtain ⟨value, hvalue, -⟩ := hformed.range _ mem_cons_self
    cases hvalue

end Floats

end BuiltOnEnvoy.FaultInjection
