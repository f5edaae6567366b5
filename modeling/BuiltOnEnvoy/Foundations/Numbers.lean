import Mathlib.Data.Rat.Floor
import Mathlib.Tactic

/-!
# Numbers of a machine

Exact numbers are converted to integers towards zero. A result that does not fit
into a 64-bit integer is wrapped around. A float is not a number, an infinity or a
rational; nothing is below or above what is not a number, and the two zeros are
one number.
-/

namespace BuiltOnEnvoy.Foundations

def truncate (x : ℚ) : ℤ := x.num.tdiv x.den

theorem truncate_of_nonneg {x : ℚ} (h : 0 ≤ x) : truncate x = ⌊x⌋ := by
  rw [truncate, Rat.floor_def', Int.tdiv_eq_ediv_of_nonneg (Rat.num_nonneg.mpr h)]

@[simp]
theorem truncate_intCast (n : ℤ) : truncate (n : ℚ) = n := by
  simp [truncate]

theorem truncate_nonneg {x : ℚ} (h : 0 ≤ x) : 0 ≤ truncate x := by
  rw [truncate_of_nonneg h]
  exact Int.floor_nonneg.mpr h

theorem truncate_mono {x y : ℚ} (hx : 0 ≤ x) (hxy : x ≤ y) : truncate x ≤ truncate y := by
  rw [truncate_of_nonneg hx, truncate_of_nonneg (hx.trans hxy)]
  exact Int.floor_le_floor hxy

theorem truncate_le {x : ℚ} {n : ℤ} (hx : 0 ≤ x) (hxn : x ≤ n) : truncate x ≤ n := by
  rw [← truncate_intCast n]
  exact truncate_mono hx hxn

/-- The integer fits into 64 bits. -/
def Int64Range (z : ℤ) : Prop := -2 ^ 63 ≤ z ∧ z < 2 ^ 63

instance (z : ℤ) : Decidable (Int64Range z) := inferInstanceAs (Decidable (_ ∧ _))

def wrap64 (z : ℤ) : ℤ := z.bmod (2 ^ 64)

theorem wrap64_range (z : ℤ) : Int64Range (wrap64 z) := by
  have hlow := @Int.le_bmod z (2 ^ 64) (by norm_num)
  have hhigh := @Int.bmod_lt z (2 ^ 64) (by norm_num)
  unfold wrap64 Int64Range
  omega

theorem wrap64_eq_self {z : ℤ} (h : Int64Range z) : wrap64 z = z := by
  unfold Int64Range at h
  unfold wrap64
  rw [Int.bmod_eq_of_le] <;> omega

theorem wrap64_wrap64_add (a b : ℤ) : wrap64 (wrap64 a + b) = wrap64 (a + b) :=
  Int.bmod_add_bmod

theorem foldl_wrap64 {α : Type*} (f : α → ℤ) (l : List α) (total : ℤ) :
    l.foldl (fun total x => wrap64 (total + f x)) (wrap64 total) =
      wrap64 (total + (l.map f).sum) := by
  induction l generalizing total with
  | nil => simp
  | cons x l ih =>
    rw [List.foldl_cons, wrap64_wrap64_add, ih, List.map_cons, List.sum_cons, add_assoc]

theorem wrap64_eq_self_iff (z : ℤ) : wrap64 z = z ↔ Int64Range z := by
  refine ⟨fun h => ?_, wrap64_eq_self⟩
  rw [← h]
  exact wrap64_range z

/-- The nearest integer that fits. -/
def saturate64 (z : ℤ) : ℤ := max (-2 ^ 63) (min z (2 ^ 63 - 1))

inductive Number
  | nan
  | inf (negative : Bool)
  | finite (value : ℚ)
  deriving DecidableEq

namespace Number

def below : Number → Number → Bool
  | finite a, finite b => a < b
  | inf true, finite _ => true
  | inf true, inf false => true
  | finite _, inf false => true
  | _, _ => false

instance : LT Number := ⟨fun a b => below a b = true⟩

instance (a b : Number) : Decidable (a < b) := inferInstanceAs (Decidable (below a b = true))

@[simp] theorem finite_lt (a b : ℚ) : finite a < finite b ↔ a < b := decide_eq_true_iff

/-- The value of a finite number. -/
def toRat : Number → ℚ
  | finite value => value
  | _ => 0

/-- What is neither below nor above two numbers is between them, or not a number. -/
theorem between {low high : ℚ} {a : Number} (hlow : ¬a < finite low) (hhigh : ¬finite high < a) :
    a = nan ∨ ∃ value, a = finite value ∧ low ≤ value ∧ value ≤ high := by
  cases a with
  | nan => exact Or.inl rfl
  | inf negative =>
    cases negative with
    | true => exact absurd rfl hlow
    | false => exact absurd rfl hhigh
  | finite value =>
    rw [finite_lt, not_lt] at hlow hhigh
    exact Or.inr ⟨value, rfl, hlow, hhigh⟩

end Number

end BuiltOnEnvoy.Foundations
