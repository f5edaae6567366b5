import BuiltOnEnvoy.Foundations.Runs

/-!
# Shuffles and cycles

The shuffle that goes down a list and exchanges each element with one that is not
behind it, for any draws, and a list that is handed out element by element and
shuffled again each time it is used up.
-/

namespace BuiltOnEnvoy.Foundations

open List Option

/-- A draw for each index of a shuffle, not beyond the index. -/
abbrev Draws := (i : ℕ) → Fin (i + 1)

variable {α : Type}

/-- The loop of a shuffle, from an index down to 1. -/
def shuffleFrom (draw : Draws) : ℕ → List α → List α
  | 0, values => values
  | i + 1, values => shuffleFrom draw i (values.swap (i + 1) (draw (i + 1)))

def shuffle (draw : Draws) (values : List α) : List α :=
  shuffleFrom draw (values.length - 1) values

theorem shuffleFrom_perm (draw : Draws) (i : ℕ) (values : List α) :
    (shuffleFrom draw i values).Perm values := by
  induction i generalizing values with
  | zero => exact List.Perm.refl values
  | succ i ih => exact (ih _).trans (swap_perm values (i + 1) (draw (i + 1)))

theorem shuffle_perm (draw : Draws) (values : List α) : (shuffle draw values).Perm values :=
  shuffleFrom_perm draw _ values

@[simp]
theorem length_shuffle (draw : Draws) (values : List α) :
    (shuffle draw values).length = values.length :=
  (shuffle_perm draw values).length_eq

/-- The draws that exchange nothing. -/
def still : Draws := fun i => Fin.last i

structure Deck (α : Type) where
  values : List α
  index : ℕ
  deriving DecidableEq

namespace Deck

variable {c c' : Deck α} {x : α}

/-- The next element, after a shuffle if the list is used up. There is none in the empty list. -/
def next (c : Deck α) (draw : Draws) : Option (α × Deck α) :=
  let c := if c.values.length ≤ c.index then ⟨shuffle draw c.values, 0⟩ else c
  c.values[c.index]?.map fun x => (x, ⟨c.values, c.index + 1⟩)

/-- The elements of successive calls, each with its draws. -/
def take (c : Deck α) : List Draws → Option (List α × Deck α)
  | [] => some ([], c)
  | draw :: draws => do
    let (x, c) ← c.next draw
    let (xs, c) ← c.take draws
    return (x :: xs, c)

theorem next_of_lt (h : c.index < c.values.length) (draw : Draws) :
    c.next draw = some (c.values[c.index], ⟨c.values, c.index + 1⟩) := by
  have hrest : ¬c.values.length ≤ c.index := by omega
  simp only [next, if_neg hrest, getElem?_eq_getElem h, map_some]

theorem exists_next (h : c.values ≠ []) (draw : Draws) : ∃ x c', c.next draw = some (x, c') := by
  by_cases hindex : c.index < c.values.length
  · exact ⟨_, _, next_of_lt hindex draw⟩
  · have hpos : 0 < (shuffle draw c.values).length := by
      rw [length_shuffle]
      exact length_pos_iff.mpr h
    refine ⟨(shuffle draw c.values)[0], ⟨shuffle draw c.values, 1⟩, ?_⟩
    simp only [next, if_pos (not_lt.mp hindex), getElem?_eq_getElem hpos, map_some]

/-- An element of the list is handed out, and the list is at most shuffled. -/
theorem next_spec {draw : Draws} (h : c.next draw = some (x, c')) :
    x ∈ c.values ∧ c'.values.Perm c.values := by
  obtain ⟨y, hy, heq⟩ := map_eq_some_iff.mp h
  cases heq
  have hmem := mem_of_getElem? hy
  split_ifs at hmem ⊢
  · exact ⟨(shuffle_perm draw c.values).mem_iff.mp hmem, shuffle_perm draw c.values⟩
  · exact ⟨hmem, List.Perm.refl _⟩

theorem take_cons (h : c.next x₀ = some (x, c')) (draws : List Draws) {xs : List α}
    {c'' : Deck α} (hrest : c'.take draws = some (xs, c'')) :
    c.take (x₀ :: draws) = some (x :: xs, c'') := by
  simp only [take, h, bind_eq_bind, bind_some, hrest]
  rfl

theorem take_append (c : Deck α) (draws more : List Draws) :
    c.take (draws ++ more) =
      (c.take draws).bind fun r => (r.2.take more).map fun r' => (r.1 ++ r'.1, r'.2) := by
  induction draws generalizing c with
  | nil => simp [take]
  | cons draw draws ih =>
    cases hnext : c.next draw with
    | none => simp [take, hnext]
    | some r =>
      obtain ⟨x, c'⟩ := r
      simp only [cons_append, take, hnext, bind_eq_bind, bind_some, ih]
      cases c'.take draws with
      | none => rfl
      | some r' =>
        cases hmore : r'.2.take more with
        | none | some r'' => simp [hmore]

variable {draws : List Draws}

theorem take_rest (h : c.index + draws.length = c.values.length) :
    c.take draws = some (c.values.drop c.index, ⟨c.values, c.values.length⟩) := by
  induction draws generalizing c with
  | nil =>
    rw [length_nil, Nat.add_zero] at h
    obtain ⟨values, index⟩ := c
    obtain rfl : index = values.length := h
    simp [take]
  | cons draw draws ih =>
    rw [length_cons] at h
    have hindex : c.index < c.values.length := by omega
    have hrest := ih (c := ⟨c.values, c.index + 1⟩) (by dsimp only; omega)
    rw [take_cons (next_of_lt hindex draw) draws hrest, drop_eq_getElem_cons hindex]

theorem take_again (h : c.index = c.values.length) (hdraws : draws.length = c.values.length) :
    ∃ values, values.Perm c.values ∧ c.take draws = some (values, ⟨values, values.length⟩) := by
  cases draws with
  | nil =>
    refine ⟨c.values, List.Perm.refl _, ?_⟩
    obtain ⟨values, index⟩ := c
    obtain rfl : values = [] := length_eq_zero_iff.mp hdraws.symm
    obtain rfl : index = 0 := h
    rfl
  | cons draw draws =>
    rw [length_cons] at hdraws
    refine ⟨shuffle draw c.values, shuffle_perm draw c.values, ?_⟩
    -- the call that shuffles is the first call on the shuffled list
    have hfirst : c.next draw = (⟨shuffle draw c.values, 0⟩ : Deck α).next draw := by
      have hempty : ¬c.values.length ≤ 0 := by omega
      simp only [next, h, le_refl, if_true, length_shuffle, if_neg hempty]
    have hsame : c.take (draw :: draws) =
        (⟨shuffle draw c.values, 0⟩ : Deck α).take (draw :: draws) := by
      simp only [take, hfirst]
    rw [hsame, take_rest (by simp [hdraws]), drop_zero]

/-- After any number of whole cycles the next cycle is a permutation of the list. -/
theorem take_cycles (hindex : c.index = 0) (k : ℕ)
    (hdraws : draws.length = (k + 1) * c.values.length) :
    ∃ before cycle, c.take draws = some (before ++ cycle, ⟨cycle, cycle.length⟩) ∧
      before.length = k * c.values.length ∧ cycle.Perm c.values := by
  induction k generalizing draws with
  | zero =>
    have hfull : c.index + draws.length = c.values.length := by omega
    have hrest := take_rest hfull
    rw [hindex, drop_zero] at hrest
    exact ⟨[], c.values, by rw [hrest, nil_append], by simp, List.Perm.refl _⟩
  | succ k ih =>
    -- the draws of the last cycle are split off
    have hlen : (k + 1 + 1) * c.values.length = (k + 1) * c.values.length + c.values.length :=
      Nat.succ_mul _ _
    have hfront : (draws.take ((k + 1) * c.values.length)).length = (k + 1) * c.values.length := by
      rw [length_take]
      omega
    have hback : (draws.drop ((k + 1) * c.values.length)).length = c.values.length := by
      rw [length_drop]
      omega
    obtain ⟨before, cycle, htake, hbefore, hperm⟩ := ih hfront
    obtain ⟨values, hvalues, hagain⟩ := take_again (c := ⟨cycle, cycle.length⟩) rfl
      (hback.trans hperm.length_eq.symm)
    refine ⟨before ++ cycle, values, ?_, ?_, hvalues.trans hperm⟩
    · conv_lhs => rw [← take_append_drop ((k + 1) * c.values.length) draws]
      rw [take_append, htake, bind_some, hagain]
      rfl
    · rw [length_append, hbefore, hperm.length_eq, Nat.succ_mul]

end Deck

end BuiltOnEnvoy.Foundations
