import BuiltOnEnvoy.Foundations.Fallible
import BuiltOnEnvoy.Foundations.GoMap
import BuiltOnEnvoy.Foundations.Numbers
import BuiltOnEnvoy.Foundations.TextParsing
import Mathlib.Data.List.Sort

/-!
# Percentiles of the fault injection filter

`ParsePercentileDistribution`, over any type of floats, and with exact quantiles. A
loop visits the configured map in some order, and the sort leaves equal quantiles in
some order. What the standard library parses and prints is a parameter. Durations
are in nanoseconds and do not wrap.
-/

namespace BuiltOnEnvoy.FaultInjection

open Foundations List

structure Percentile (F : Type) where
  quantile : F
  duration : ℤ
  deriving DecidableEq

/-- What is used of `strconv`, `time`, `fmt` and `sort`, and the arithmetic of the keys. -/
structure PercentileParser (F : Type) where
  parseFloat : String → Except String F
  /-- `val < 0 || val > 100` -/
  outOfRange : F → Bool
  /-- `val / 100.0` -/
  hundredth : F → F
  parseDuration : String → Except String ℤ
  /-- `%q` -/
  quote : String → String
  /-- `%v` of a duration -/
  durationText : ℤ → String
  /-- `%.1f` of the quantile times 100 -/
  percentText : F → String
  /-- `sort.Slice` by the quantile. -/
  sort : List (Percentile F) → List (Percentile F)

namespace PercentileParser

variable {F : Type} (parser : PercentileParser F)

def parsePercentileKey (key : String) : Except String F :=
  match key.toList with
  | 'p' :: numStr =>
    match parser.parseFloat (String.ofList numStr) with
    | .error err => .error ("invalid percentile key " ++ parser.quote key ++ ": " ++ err)
    | .ok val =>
      if parser.outOfRange val then
        .error ("percentile key " ++ parser.quote key ++ ": value must be between 0 and 100")
      else .ok (parser.hundredth val)
  | _ => .error ("percentile key must start with 'p', got " ++ parser.quote key)

/-- One round of the loop over the map. -/
def parsePercentile (entry : String × String) : Except String (Percentile F) := do
  let quantile ← parser.parsePercentileKey entry.1
  match parser.parseDuration entry.2 with
  | .error err => .error ("invalid duration for " ++ parser.quote entry.1 ++ ": " ++ err)
  | .ok dur =>
    if dur < 0 then
      .error ("negative duration for " ++ parser.quote entry.1 ++ ": " ++ parser.durationText dur)
    else .ok ⟨quantile, dur⟩

/-- The check of the durations, each with the one before it. -/
def checkDurations : List (Percentile F) → Except String Unit
  | p :: q :: rest =>
    if q.duration < p.duration then
      .error ("distribution values must be non-decreasing: p" ++ parser.percentText q.quantile ++
        " (" ++ parser.durationText q.duration ++ ") < p" ++ parser.percentText p.quantile ++
        " (" ++ parser.durationText p.duration ++ ")")
    else checkDurations (q :: rest)
  | _ => .ok ()

/-- The loop visits the entries of the map in this order. -/
def parsePercentileDistribution (order : List (String × String)) :
    Except String (List (Percentile F)) :=
  if order = [] then .error "distribution must have at least one entry"
  else do
    let result ← order.mapM parser.parsePercentile
    parser.checkDurations (parser.sort result)
    return parser.sort result

variable {parser}

theorem parsePercentileKey_eq_ok {key : String} {quantile : F}
    (h : parser.parsePercentileKey key = .ok quantile) :
    ∃ val, parser.outOfRange val = false ∧ quantile = parser.hundredth val := by
  unfold parsePercentileKey at h
  split at h
  · split at h
    · cases h
    · split_ifs at h with hrange
      cases h
      exact ⟨_, Bool.eq_false_iff.mpr hrange, rfl⟩
  · cases h

theorem parsePercentile_eq_ok {entry : String × String} {p : Percentile F}
    (h : parser.parsePercentile entry = .ok p) :
    (∃ val, parser.outOfRange val = false ∧ p.quantile = parser.hundredth val) ∧
      parser.parseDuration entry.2 = .ok p.duration ∧ 0 ≤ p.duration := by
  obtain ⟨quantile, hkey, h⟩ := bind_eq_ok h
  split at h
  · cases h
  case h_2 dur hdur =>
    split_ifs at h with hneg
    cases h
    exact ⟨parsePercentileKey_eq_ok hkey, hdur, not_lt.mp hneg⟩

theorem checkDurations_eq_ok_iff {ps : List (Percentile F)} :
    parser.checkDurations ps = .ok () ↔ ps.Pairwise fun p q => p.duration ≤ q.duration := by
  rw [← isChain_iff_pairwise]
  induction ps with
  | nil => simp [checkDurations]
  | cons p rest ih =>
    cases rest with
    | nil => simp [checkDurations]
    | cons q rest =>
      rw [checkDurations, isChain_cons_cons]
      by_cases hless : q.duration < p.duration
      · simp [hless]
      · rw [if_neg hless, ih]
        simp [not_lt.mp hless]

variable (parser) in
/-- The percentiles of the entries, in their order. -/
def Rounds (order : List (String × String)) (result : List (Percentile F)) : Prop :=
  List.Forall₂ (fun entry p => parser.parsePercentile entry = .ok p) order result

theorem parsePercentileDistribution_eq_ok_iff {order : List (String × String)}
    {ps : List (Percentile F)} :
    parser.parsePercentileDistribution order = .ok ps ↔
      order ≠ [] ∧ ∃ result, parser.Rounds order result ∧ parser.sort result = ps ∧
        ps.Pairwise fun p q => p.duration ≤ q.duration := by
  unfold parsePercentileDistribution
  constructor
  · intro h
    split_ifs at h with hempty
    obtain ⟨result, hparse, h⟩ := bind_eq_ok h
    obtain ⟨u, hcheck, h⟩ := bind_eq_ok h
    cases h
    exact ⟨hempty, result, mapM_eq_ok_iff.mp hparse, rfl, checkDurations_eq_ok_iff.mp hcheck⟩
  · rintro ⟨hempty, result, hrounds, rfl, hcheck⟩
    rw [if_neg hempty, mapM_eq_ok_iff.mpr hrounds]
    have hok : parser.checkDurations (parser.sort result) = .ok () :=
      checkDurations_eq_ok_iff.mpr hcheck
    change (parser.checkDurations (parser.sort result) >>= fun _ => .ok (parser.sort result)) = _
    rw [hok]
    rfl

theorem Rounds.reorder {order order' : List (String × String)} {result : List (Percentile F)}
    (h : parser.Rounds order result) (hperm : order'.Perm order) :
    ∃ result', parser.Rounds order' result' ∧ result'.Perm result :=
  perm_comp_forall₂ hperm h

theorem Rounds.exists_order {order : List (String × String)} {result result' : List (Percentile F)}
    (h : parser.Rounds order result) (hperm : result.Perm result') :
    ∃ order', order.Perm order' ∧ parser.Rounds order' result' := by
  have hcomp : Relation.Comp (parser.Rounds) List.Perm order result' := ⟨result, h, hperm⟩
  unfold Rounds at hcomp
  rw [forall₂_comp_perm_eq_perm_comp_forall₂] at hcomp
  exact hcomp

/-- An accepted percentile is that of an entry. -/
theorem exists_entry {order : List (String × String)} {ps : List (Percentile F)}
    (hperm : ∀ l, (parser.sort l).Perm l) (h : parser.parsePercentileDistribution order = .ok ps)
    {p : Percentile F} (hp : p ∈ ps) : ∃ entry ∈ order, parser.parsePercentile entry = .ok p := by
  obtain ⟨-, result, hrounds, rfl, -⟩ := parsePercentileDistribution_eq_ok_iff.mp h
  exact (mem_results_iff hrounds).mp ((hperm result).mem_iff.mp hp)

end PercentileParser

/-- What is used of the libraries, with exact numbers. -/
structure Text where
  parseFloat : String → Except String ℚ
  parseDuration : String → Except String ℤ
  quote : String → String
  durationText : ℤ → String
  /-- `%.1f` -/
  oneDecimal : ℚ → String
  sort : List (Percentile ℚ) → List (Percentile ℚ)
  sort_perm : ∀ l, (sort l).Perm l
  sort_sorted : ∀ l, (sort l).Pairwise fun p q => p.quantile ≤ q.quantile

variable (text : Text)

@[simps]
def Text.parser : PercentileParser ℚ :=
  { text with
    outOfRange := fun val => val < 0 ∨ 100 < val
    hundredth := fun val => val / 100
    percentText := fun quantile => text.oneDecimal (quantile * 100) }

def parsePercentileDistribution (order : List (String × String)) :
    Except String (List (Percentile ℚ)) :=
  text.parser.parsePercentileDistribution order

/-- The lists that the parser accepts for a map. -/
def Accepts (dist : GoMap String String) (ps : List (Percentile ℚ)) : Prop :=
  ∃ order, dist.Visits order ∧ parsePercentileDistribution text order = .ok ps

/-- What is true of every accepted list. -/
structure Accepted (ps : List (Percentile ℚ)) : Prop where
  nonempty : ps ≠ []
  range : ∀ p ∈ ps, 0 ≤ p.quantile ∧ p.quantile ≤ 1
  nonneg : ∀ p ∈ ps, 0 ≤ p.duration
  sorted : ps.Pairwise fun p q => p.quantile ≤ q.quantile
  nondecreasing : ps.Pairwise fun p q => p.duration ≤ q.duration

variable {text} {ps : List (Percentile ℚ)}

theorem hundredth_range {val : ℚ} (h : text.parser.outOfRange val = false) :
    0 ≤ text.parser.hundredth val ∧ text.parser.hundredth val ≤ 1 := by
  have hrange : 0 ≤ val ∧ val ≤ 100 := by simpa using h
  constructor
  · exact div_nonneg hrange.1 (by norm_num)
  · rw [Text.parser_hundredth, div_le_one (by norm_num)]
    exact hrange.2

theorem accepted_of_parse {order : List (String × String)}
    (h : parsePercentileDistribution text order = .ok ps) : Accepted ps := by
  have hentry : ∀ p ∈ ps, ∃ entry ∈ order, text.parser.parsePercentile entry = .ok p :=
    fun p => PercentileParser.exists_entry text.sort_perm h
  obtain ⟨hempty, result, hrounds, rfl, hcheck⟩ :=
    PercentileParser.parsePercentileDistribution_eq_ok_iff.mp h
  refine ⟨?_, ?_, ?_, text.sort_sorted result, hcheck⟩
  · intro hnil
    have hlength := (text.sort_perm result).length_eq
    rw [show text.sort result = [] from hnil, ← hrounds.length_eq] at hlength
    exact hempty (length_eq_zero_iff.mp hlength.symm)
  · intro p hp
    obtain ⟨entry, -, hparse⟩ := hentry p hp
    obtain ⟨⟨val, hval, heq⟩, -⟩ := PercentileParser.parsePercentile_eq_ok hparse
    rw [heq]
    exact hundredth_range hval
  · intro p hp
    obtain ⟨entry, -, hparse⟩ := hentry p hp
    exact (PercentileParser.parsePercentile_eq_ok hparse).2.2

theorem Accepts.accepted {dist : GoMap String String} (h : Accepts text dist ps) : Accepted ps := by
  obtain ⟨order, -, hparse⟩ := h
  exact accepted_of_parse hparse

/-- Percentiles and durations in whole numbers of nanoseconds. -/
def wholeText : Text where
  parseFloat := fun number =>
    match atoi number with
    | some n => .ok n
    | none => .error "invalid syntax"
  parseDuration := fun duration =>
    match duration.toList.reverse with
    | 's' :: 'n' :: digits =>
      match atoi (String.ofList digits.reverse) with
      | some n => .ok n
      | none => .error "time: invalid duration"
    | _ => .error "time: missing unit in duration"
  quote := fun s => "\"" ++ s ++ "\""
  durationText := fun d => toString d ++ "ns"
  oneDecimal := fun x => toString x.num ++ "/" ++ toString x.den
  sort := List.insertionSort fun p q => p.quantile ≤ q.quantile
  sort_perm := List.perm_insertionSort _
  sort_sorted := fun l =>
    have : Std.Total fun p q : Percentile ℚ => p.quantile ≤ q.quantile :=
      ⟨fun p q => le_total p.quantile q.quantile⟩
    have : IsTrans (Percentile ℚ) fun p q => p.quantile ≤ q.quantile :=
      ⟨fun _ _ _ => le_trans⟩
    List.pairwise_insertionSort _ l

end BuiltOnEnvoy.FaultInjection
