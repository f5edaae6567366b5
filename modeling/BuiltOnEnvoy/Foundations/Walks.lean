import Mathlib.Order.Bounds.Basic
import Mathlib.Tactic

/-!
# Walks over a link relation

A walk is stored as the list of nodes visited after its start, so that its
length is its hop count. Walks end in a goal set; the goal is not a single
node because several nodes may offer the same destination.
-/

namespace BuiltOnEnvoy.Foundations

variable {ι : Type*} (link : ι → ι → Prop) (goal : ι → Prop)

/-- `Reaches link goal i path`: following `path` from `i` ends in a goal node. -/
inductive Reaches : ι → List ι → Prop
  | here {i} : goal i → Reaches i []
  | hop {i j path} : link i j → Reaches j path → Reaches i (j :: path)

/-- The hop counts of the walks from `i` into the goal. -/
def hopCounts (i : ι) : Set ℕ :=
  {n | ∃ path, Reaches link goal i path ∧ path.length = n}

variable {link goal}

/-- From every node of a walk the goal is strictly closer than from its start. -/
theorem Reaches.of_mem {i j : ι} {path : List ι} (h : Reaches link goal i path)
    (hj : j ∈ path) : ∃ rest, Reaches link goal j rest ∧ rest.length < path.length := by
  induction h with
  | here => simp at hj
  | @hop i k path hlink hrest ih =>
    rcases List.mem_cons.mp hj with rfl | hj
    · exact ⟨path, hrest, by simp⟩
    · obtain ⟨rest, hr, hlt⟩ := ih hj
      exact ⟨rest, hr, by simpa using hlt.trans (Nat.lt_succ_self _)⟩

theorem Reaches.exists_goal {i : ι} {path : List ι} (h : Reaches link goal i path) :
    ∃ k, goal k := by
  induction h with
  | @here i hg => exact ⟨i, hg⟩
  | hop _ _ ih => exact ih

theorem exists_closer_neighbour {i : ι} {n : ℕ}
    (h : IsLeast (hopCounts link goal i) (n + 1)) :
    ∃ j, link i j ∧ IsLeast (hopCounts link goal j) n := by
  obtain ⟨⟨path, hpath, hlen⟩, hmin⟩ := h
  cases hpath with
  | here => simp at hlen
  | @hop _ j path hlink hrest =>
    refine ⟨j, hlink, ⟨path, hrest, by simpa using hlen⟩, ?_⟩
    rintro m ⟨other, hother, rfl⟩
    have := hmin ⟨j :: other, Reaches.hop hlink hother, rfl⟩
    simpa using this

theorem goal_of_isLeast_zero {i : ι} (h : IsLeast (hopCounts link goal i) 0) : goal i := by
  obtain ⟨path, hpath, hlen⟩ := h.1
  cases hpath with
  | here hg => exact hg
  | hop => simp at hlen

theorem exists_isLeast_hopCounts {i : ι} {n : ℕ} (h : n ∈ hopCounts link goal i) :
    ∃ d ≤ n, IsLeast (hopCounts link goal i) d := by
  classical
  have hex : ∃ m, m ∈ hopCounts link goal i := ⟨n, h⟩
  exact ⟨Nat.find hex, Nat.find_le h, Nat.find_spec hex, fun m hm => Nat.find_le hm⟩

end BuiltOnEnvoy.Foundations
