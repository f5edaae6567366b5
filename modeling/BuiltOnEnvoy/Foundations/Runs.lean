import Mathlib.Tactic

/-!
# Runs of a step function

A run takes steps one after another, each of which may not be possible in the
state reached so far. What holds at the start and is kept by every step of a run
holds of the whole run. The last step of a run is the last one of every suffix.
A part of the state that only some of the steps read and write is the same for
every run with the same steps of that kind.
-/

namespace BuiltOnEnvoy.Foundations

open List

variable {σ ε : Type*} {step : σ → ε → Option σ} {init : σ}

/-- A property of a run and the state it ends in; a step may use the run before it. -/
theorem run_induction {P : List ε → σ → Prop} (hinit : P [] init)
    (hstep : ∀ events s e s', events.foldlM step init = some s → P events s →
      step s e = some s' → P (events ++ [e]) s')
    {events : List ε} {s : σ} (h : events.foldlM step init = some s) : P events s := by
  induction events using List.reverseRecOn generalizing s with
  | nil =>
    cases h
    exact hinit
  | append_singleton events e ih =>
    rw [foldlM_append] at h
    obtain ⟨s₀, hrun, hlast⟩ := Option.bind_eq_some_iff.mp h
    exact hstep events s₀ e s hrun (ih hrun) (by simpa using hlast)

theorem concat_eq_append_cons {events front back : List ε} {last e : ε} :
    events ++ [last] = front ++ e :: back ↔
      (events = front ∧ last = e ∧ back = []) ∨
        ∃ between, back = between ++ [last] ∧ events = front ++ e :: between := by
  constructor
  · intro h
    rcases eq_nil_or_concat back with rfl | ⟨between, x, rfl⟩
    · obtain ⟨hevents, hlast⟩ := append_inj' h rfl
      exact .inl ⟨hevents, by simpa using hlast, rfl⟩
    · rw [concat_eq_append, ← cons_append, ← append_assoc] at h
      obtain ⟨hevents, hlast⟩ := append_inj' h rfl
      obtain rfl : last = x := by simpa using hlast
      exact .inr ⟨between, concat_eq_append, hevents⟩
  · rintro (⟨rfl, rfl, rfl⟩ | ⟨between, rfl, rfl⟩)
    · rfl
    · simp

section

variable {τ : Type*} {f : σ → ε → σ} {part : σ → τ} {acts : ε → Bool}

theorem foldl_part (hskip : ∀ s e, acts e = false → part (f s e) = part s)
    (hlocal : ∀ s s' e, acts e = true → part s = part s' → part (f s e) = part (f s' e))
    {s s' : σ} (h : part s = part s') (events : List ε) :
    part (events.foldl f s) = part ((events.filter acts).foldl f s') := by
  induction events generalizing s s' with
  | nil => exact h
  | cons e events ih =>
    rw [foldl_cons]
    cases he : acts e with
    | false =>
      rw [filter_cons_of_neg (by simp [he])]
      exact ih ((hskip s e he).trans h)
    | true =>
      rw [filter_cons_of_pos he, foldl_cons]
      exact ih (hlocal s s' e he h)

theorem foldl_part_eq (hskip : ∀ s e, acts e = false → part (f s e) = part s)
    (hlocal : ∀ s s' e, acts e = true → part s = part s' → part (f s e) = part (f s' e))
    (s : σ) {events events' : List ε} (h : events.filter acts = events'.filter acts) :
    part (events.foldl f s) = part (events'.foldl f s) := by
  rw [foldl_part hskip hlocal rfl events, foldl_part hskip hlocal rfl events', h]

end

end BuiltOnEnvoy.Foundations
