import Mathlib.Tactic

/-!
# Fixed-window rate limiting

A counter of the requests granted since the start of a window. The first request
that comes when the window has passed starts the next one, so windows do not lie
on a grid: two starts are at least one window length apart, and no request comes
later than one length after the start of its window.
-/

namespace BuiltOnEnvoy.Foundations

open List

structure FixedWindow where
  start : ℕ
  count : ℕ
  deriving DecidableEq, Repr

namespace FixedWindow

/-- A request with its answer and the start of the window it falls into. -/
structure Answered where
  time : ℕ
  start : ℕ
  granted : Bool
  deriving DecidableEq, Repr

/-- One request. A limit of zero grants nothing. -/
def request (length max : ℕ) (w : FixedWindow) (now : ℕ) : Bool × FixedWindow :=
  if max = 0 then (false, w)
  else if length ≤ now - w.start then (true, ⟨now, 1⟩)
  else if w.count < max then (true, ⟨w.start, w.count + 1⟩)
  else (false, ⟨w.start, max⟩)

/-- Serve one more request, with the requests answered before it. -/
def serve (length max : ℕ) (s : FixedWindow × List Answered) (now : ℕ) :
    FixedWindow × List Answered :=
  let r := s.1.request length max now
  (r.2, s.2 ++ [⟨now, r.2.start, r.1⟩])

def serveAll (length max : ℕ) (times : List ℕ) : FixedWindow × List Answered :=
  times.foldl (serve length max) (⟨0, 0⟩, [])

/-- The requests granted in the window with this start. -/
def grants (rs : List Answered) (start : ℕ) : ℕ :=
  rs.countP fun r => r.granted && r.start == start

/-- The requests granted at the times of a set. -/
def grantsAt (rs : List Answered) (during : ℕ → Bool) : ℕ :=
  rs.countP fun r => r.granted && during r.time

variable {length max : ℕ}

@[simp] theorem serveAll_concat (times : List ℕ) (now : ℕ) :
    serveAll length max (times ++ [now]) = serve length max (serveAll length max times) now := by
  simp [serveAll]

@[simp] theorem grants_concat (rs : List Answered) (r : Answered) (start : ℕ) :
    grants (rs ++ [r]) start =
      grants rs start + if r.granted = true ∧ r.start = start then 1 else 0 := by
  simp [grants, countP_append, countP_cons]

/-- What a limiter and the requests it answered have to do with each other. -/
structure Counts (length max : ℕ) (s : FixedWindow × List Answered) : Prop where
  count : s.1.count = grants s.2 s.1.start
  bound : ∀ start, grants s.2 start ≤ max
  latest : ∀ r ∈ s.2, r.start ≤ s.1.start
  within : ∀ r ∈ s.2, r.granted = true → r.start ≤ r.time ∧ r.time < r.start + length
  apart : ∀ r ∈ s.2, r.start < s.1.start → r.start + length ≤ s.1.start
  spaced : ∀ r ∈ s.2, ∀ r' ∈ s.2, r.start < r'.start → r.start + length ≤ r'.start

variable {s : FixedWindow × List Answered}

theorem Counts.count_le (h : Counts length max s) :
    s.1.count ≤ max := by
  rw [h.count]
  exact h.bound s.1.start

theorem counts_nil : Counts length max (⟨0, 0⟩, []) where
  count := rfl
  bound _ := by simp [grants]
  latest := by simp
  within := by simp
  apart := by simp
  spaced := by simp

theorem grants_eq_zero {rs : List Answered} {start : ℕ} (h : ∀ r ∈ rs, r.start < start) :
    grants rs start = 0 := by
  rw [grants, countP_eq_zero]
  intro r hr
  have hlt := h r hr
  simp only [Bool.and_eq_true, beq_iff_eq, not_and]
  omega

/-- One more answered request, in the window in force or in one that starts after it. -/
theorem Counts.concat (h : Counts length max s) {now start count : ℕ} {granted : Bool}
    (hstart : start = s.1.start ∨ s.1.start + length ≤ start)
    (hcount : count = grants s.2 start + if granted = true then 1 else 0) (hmax : count ≤ max)
    (hnow : granted = true → start ≤ now ∧ now < start + length) :
    Counts length max (⟨start, count⟩, s.2 ++ [⟨now, start, granted⟩]) := by
  have hcurrent : count = grants (s.2 ++ [⟨now, start, granted⟩]) start := by
    rw [grants_concat, hcount]
    simp
  have hlatest : ∀ r ∈ s.2, r.start ≤ start := by
    intro r hr
    have hle := h.latest r hr
    omega
  have hapart : ∀ r ∈ s.2, r.start < start → r.start + length ≤ start := by
    intro r hr hlt
    have hle := h.latest r hr
    have hold := h.apart r hr
    omega
  constructor
  · exact hcurrent
  · intro other
    by_cases hother : start = other
    · rw [← hother, ← hcurrent]
      exact hmax
    · rw [grants_concat, if_neg (by simp [hother]), Nat.add_zero]
      exact h.bound other
  · exact forall_mem_append.mpr ⟨hlatest, by simp⟩
  · exact forall_mem_append.mpr ⟨h.within, by simpa using hnow⟩
  · exact forall_mem_append.mpr ⟨hapart, by simp⟩
  · refine forall_mem_append.mpr ⟨fun r hr => ?_, ?_⟩
    · exact forall_mem_append.mpr ⟨h.spaced r hr, by simpa using hapart r hr⟩
    · -- no window starts after the one of the last request
      simp only [mem_singleton, forall_eq]
      refine forall_mem_append.mpr ⟨fun r' hr' hlt => ?_, by simp⟩
      have hle := hlatest r' hr'
      omega

theorem Counts.serve (h : Counts length max s) {now : ℕ} (hlength : 0 < length)
    (hnow : s.1.start ≤ now) :
    Counts length max (serve length max s now) := by
  have hcount := h.count
  have hle := h.count_le
  simp only [FixedWindow.serve, request]
  split_ifs with hzero hroll hfew
  · exact h.concat (.inl rfl) (by simp [hcount]) hle (by simp)
  · have hnew : grants s.2 now = 0 := by
      refine grants_eq_zero fun r hr => ?_
      have hlatest := h.latest r hr
      omega
    exact h.concat (.inr (by omega)) (by simp [hnew]) (by omega) (fun _ => by omega)
  · exact h.concat (.inl rfl) (by simp [hcount]) (by omega) (fun _ => by omega)
  · have hfull : max = s.1.count := by omega
    exact h.concat (.inl rfl) (by simp [← hcount, hfull]) le_rfl (by simp)

theorem serve_start_le {now : ℕ} (h : s.1.start ≤ now) :
    (serve length max s now).1.start ≤ now := by
  simp only [FixedWindow.serve, request]
  split_ifs <;> simp [h]

theorem start_serveAll_le {times : List ℕ} (hsorted : times.Pairwise (· ≤ ·)) {now : ℕ}
    (hnow : ∀ t ∈ times, t ≤ now) : (serveAll length max times).1.start ≤ now := by
  induction times using List.reverseRecOn generalizing now with
  | nil => exact Nat.zero_le now
  | append_singleton times t ih =>
    rw [pairwise_append] at hsorted
    rw [serveAll_concat]
    have hstart := ih hsorted.1 fun x hx => hsorted.2.2 x hx t (by simp)
    exact (serve_start_le hstart).trans (hnow t (by simp))

theorem counts_serveAll (hlength : 0 < length) {times : List ℕ}
    (hsorted : times.Pairwise (· ≤ ·)) : Counts length max (serveAll length max times) := by
  induction times using List.reverseRecOn with
  | nil => exact counts_nil
  | append_singleton times now ih =>
    rw [pairwise_append] at hsorted
    rw [serveAll_concat]
    refine (ih hsorted.1).serve hlength (start_serveAll_le hsorted.1 ?_)
    exact fun t ht => hsorted.2.2 t ht now (by simp)

theorem Counts.granted_of_lt (h : Counts length max s) (now : ℕ)
    (hfew : grants s.2 (s.1.request length max now).2.start < max) :
    (s.1.request length max now).1 = true := by
  unfold request at *
  split_ifs at * with hzero hroll hcount
  · omega
  · rfl
  · rfl
  · rw [← h.count] at hfew
    exact absurd hfew hcount

/-- Granted requests at most one length apart come from at most two windows. -/
theorem Counts.two_windows (h : Counts length max s) {during : ℕ → Bool}
    (hspan : ∀ t t', during t = true → during t' = true → t' ≤ t + length) :
    ∃ first second, ∀ r ∈ s.2, r.granted = true → during r.time = true →
      r.start = first ∨ r.start = second := by
  by_contra hmany
  push Not at hmany
  -- three requests of pairwise distinct windows
  obtain ⟨a, ha, hagrant, hatime, -, -⟩ := hmany 0 0
  obtain ⟨b, hb, hbgrant, hbtime, hab, -⟩ := hmany a.start a.start
  obtain ⟨c, hc, hcgrant, hctime, hac, hbc⟩ := hmany a.start b.start
  have hwa := h.within a ha hagrant
  have hwb := h.within b hb hbgrant
  have hwc := h.within c hc hcgrant
  have hspaced : ∀ x ∈ s.2, ∀ y ∈ s.2, x.start ≠ y.start →
      x.start + length ≤ y.start ∨ y.start + length ≤ x.start := by
    intro x hx y hy hne
    rcases Nat.lt_or_gt_of_ne hne with hlt | hlt
    · exact .inl (h.spaced x hx y hy hlt)
    · exact .inr (h.spaced y hy x hx hlt)
  have h1 := hspaced b hb a ha hab
  have h2 := hspaced c hc a ha hac
  have h3 := hspaced c hc b hb hbc
  have hab' := hspan a.time b.time hatime hbtime
  have hba' := hspan b.time a.time hbtime hatime
  have hac' := hspan a.time c.time hatime hctime
  have hca' := hspan c.time a.time hctime hatime
  have hbc' := hspan b.time c.time hbtime hctime
  have hcb' := hspan c.time b.time hctime hbtime
  omega

theorem countP_le_add {α : Type*} {p q q' : α → Bool} {l : List α}
    (h : ∀ a ∈ l, p a = true → q a = true ∨ q' a = true) :
    l.countP p ≤ l.countP q + l.countP q' := by
  induction l with
  | nil => simp
  | cons a l ih => grind

theorem Counts.grantsAt_le (h : Counts length max s) {during : ℕ → Bool}
    (hspan : ∀ t t', during t = true → during t' = true → t' ≤ t + length) :
    grantsAt s.2 during ≤ 2 * max := by
  obtain ⟨first, second, hwindows⟩ := h.two_windows hspan
  have hsplit : grantsAt s.2 during ≤ grants s.2 first + grants s.2 second := by
    refine countP_le_add fun r hr hin => ?_
    rw [Bool.and_eq_true] at hin
    rcases hwindows r hr hin.1 hin.2 with hstart | hstart <;> simp [hin.1, hstart]
  have hfirst := h.bound first
  have hsecond := h.bound second
  omega

end FixedWindow

end BuiltOnEnvoy.Foundations
