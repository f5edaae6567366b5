import Mathlib.Algebra.BigOperators.Group.List.Basic
import Mathlib.Order.Interval.Finset.Nat
import Mathlib.Tactic

/-!
# Choices by weight

A draw below the sum of a list of weights chooses one of them: the first whose
weight is not passed. Each index is chosen by as many draws as its weight.
-/

namespace BuiltOnEnvoy.Foundations

open List Option

/-- The index that a draw chooses, if the draw is below the sum. -/
def pick : List ℕ → ℕ → Option ℕ
  | [], _ => none
  | w :: ws, r => if r < w then some 0 else (pick ws (r - w)).map (· + 1)

variable (ws : List ℕ)

theorem pick_isSome_iff (r : ℕ) : (pick ws r).isSome ↔ r < ws.sum := by
  induction ws generalizing r with
  | nil => simp [pick]
  | cons w ws ih =>
    rw [pick, sum_cons]
    split_ifs with h
    · simp only [isSome_some, true_iff]
      omega
    · rw [isSome_map, ih]
      omega

/-- An index is chosen by the draws between the sum of the weights before it and the next sum. -/
theorem pick_eq_some_iff (r i : ℕ) :
    pick ws r = some i ↔ (ws.take i).sum ≤ r ∧ r < (ws.take i).sum + ws.getD i 0 := by
  induction ws generalizing r i with
  | nil => simp [pick]
  | cons w ws ih =>
    rw [pick]
    cases i with
    | zero =>
      split_ifs with h
      · simp [h]
      · simp [h]
    | succ i =>
      rw [take_succ_cons, sum_cons, getD_cons_succ]
      split_ifs with h
      · simp only [Option.some.injEq, Nat.zero_ne_add_one, false_iff]
        omega
      · rw [map_eq_some_iff]
        simp only [Nat.add_right_cancel_iff, exists_eq_right, ih]
        omega

theorem sum_take_add_getD_le (i : ℕ) :
    (ws.take i).sum + ws.getD i 0 ≤ ws.sum := by
  induction ws generalizing i with
  | nil => simp
  | cons w ws ih =>
    cases i with
    | zero => simp
    | succ i => grind

theorem card_pick (i : ℕ) :
    ((Finset.range ws.sum).filter fun r => pick ws r = some i).card = ws.getD i 0 := by
  have hinterval : (Finset.range ws.sum).filter (fun r => pick ws r = some i) =
      Finset.Ico (ws.take i).sum ((ws.take i).sum + ws.getD i 0) := by
    ext r
    have := sum_take_add_getD_le ws i
    rw [Finset.mem_filter, Finset.mem_range, Finset.mem_Ico, pick_eq_some_iff]
    omega
  rw [hinterval, Nat.card_Ico]
  omega

end BuiltOnEnvoy.Foundations
