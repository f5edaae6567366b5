import BuiltOnEnvoy.Foundations.FixedWindow
import BuiltOnEnvoy.Dns.CacheInvariant

/-!
# The allocation rate limit

Runs of token requests against a new cache. As long as the window length fits
into 64 bits of milliseconds, the limiter is a fixed-window counter, and its
bounds are those of every such counter.
-/

namespace BuiltOnEnvoy.Dns

open Foundations FixedWindow

namespace VirtualIpCache

def limiter (c : VirtualIpCache) : FixedWindow :=
  ⟨c.rateWindowStartMs, c.rateWindowCount⟩

/-- One token request, with the requests answered before it. -/
def requestToken (s : VirtualIpCache × List Answered) (now : ℕ) :
    VirtualIpCache × List Answered :=
  let r := s.1.tryConsumeRateToken now
  (r.2, s.2 ++ [⟨now, r.2.rateWindowStartMs, r.1⟩])

/-- The token requests made at the given times of a new cache. -/
def requestTokens (limits : CacheLimits) (times : List ℕ) : VirtualIpCache × List Answered :=
  times.foldl requestToken (withLimits limits, [])

/-- The values that one token request stores in the counter: a request over the
limit is counted first, and then the counter is set back. -/
def storedCounts (c : VirtualIpCache) (now : ℕ) : List ℕ :=
  let windowMs := asMillis c.limits.rateWindow
  if windowMs = 0 ∨ c.limits.maxAllocsPerWindow = 0 then []
  else if now - c.rateWindowStartMs ≥ windowMs then [1]
  else if c.rateWindowCount < c.limits.maxAllocsPerWindow then
    [(c.rateWindowCount + 1) % 2 ^ 64]
  else [(c.rateWindowCount + 1) % 2 ^ 64, c.limits.maxAllocsPerWindow]

@[simp] theorem requestTokens_concat (limits : CacheLimits) (times : List ℕ) (now : ℕ) :
    requestTokens limits (times ++ [now]) = requestToken (requestTokens limits times) now := by
  simp [requestTokens]

@[simp] theorem requestTokens_limits (limits : CacheLimits) (times : List ℕ) :
    (requestTokens limits times).1.limits = limits := by
  induction times using List.reverseRecOn with
  | nil => rfl
  | append_singleton times now ih => simp [requestToken, ih]

theorem tryConsumeRateToken_eq {c : VirtualIpCache} (now : ℕ)
    (hwindow : asMillis c.limits.rateWindow ≠ 0) (hmax : c.limits.maxAllocsPerWindow < 2 ^ 64) :
    ((c.tryConsumeRateToken now).1, (c.tryConsumeRateToken now).2.limiter) =
      c.limiter.request (asMillis c.limits.rateWindow) c.limits.maxAllocsPerWindow now := by
  by_cases hzero : c.limits.maxAllocsPerWindow = 0
  · simp [tryConsumeRateToken, request, hzero]
  by_cases hroll : asMillis c.limits.rateWindow ≤ now - c.rateWindowStartMs
  · simp [tryConsumeRateToken, request, limiter, hwindow, hzero, hroll]
  by_cases hcount : c.rateWindowCount < c.limits.maxAllocsPerWindow
  · have hfits : (c.rateWindowCount + 1) % 2 ^ 64 = c.rateWindowCount + 1 :=
      Nat.mod_eq_of_lt (by omega)
    simp only [tryConsumeRateToken, request, limiter, hwindow, hzero, hroll, hcount, or_self,
      if_true, if_false, hfits]
  · simp [tryConsumeRateToken, request, limiter, hwindow, hzero, hroll, hcount]

theorem requestTokens_eq {limits : CacheLimits} (hwindow : asMillis limits.rateWindow ≠ 0)
    (hmax : limits.maxAllocsPerWindow < 2 ^ 64) (times : List ℕ) :
    ((requestTokens limits times).1.limiter, (requestTokens limits times).2) =
      serveAll (asMillis limits.rateWindow) limits.maxAllocsPerWindow times := by
  induction times using List.reverseRecOn with
  | nil => rfl
  | append_singleton times now ih =>
    have hlimits := requestTokens_limits limits times
    have hstep := tryConsumeRateToken_eq now (hlimits.symm ▸ hwindow) (hlimits.symm ▸ hmax)
    rw [hlimits] at hstep
    rw [serveAll_concat, ← ih, requestTokens_concat, serve, ← hstep]
    rfl

theorem counts_requestTokens {limits : CacheLimits} (hwindow : asMillis limits.rateWindow ≠ 0)
    (hmax : limits.maxAllocsPerWindow < 2 ^ 64) {times : List ℕ}
    (hsorted : times.Pairwise (· ≤ ·)) :
    Counts (asMillis limits.rateWindow) limits.maxAllocsPerWindow
      ((requestTokens limits times).1.limiter, (requestTokens limits times).2) := by
  rw [requestTokens_eq hwindow hmax]
  exact counts_serveAll (Nat.pos_of_ne_zero hwindow) hsorted

end VirtualIpCache

open VirtualIpCache

/-- The bounds on the tokens of a run. The ends of an interval are in
nanoseconds, as the window is. -/
structure RateBound (limits : CacheLimits) (times : List ℕ) : Prop where
  window : ∀ start, grants (requestTokens limits times).2 start ≤ limits.maxAllocsPerWindow
  interval : ∀ first last, last - first < limits.rateWindow →
    grantsAt (requestTokens limits times).2 (fun t => first ≤ t * 10 ^ 6 ∧ t * 10 ^ 6 ≤ last) ≤
      2 * limits.maxAllocsPerWindow
  granted : ∀ before now after, times = before ++ now :: after →
    grants (requestTokens limits before).2
        ((requestTokens limits before).1.tryConsumeRateToken now).2.rateWindowStartMs <
      limits.maxAllocsPerWindow →
    ((requestTokens limits before).1.tryConsumeRateToken now).1 = true
  counter : ∀ before now after, times = before ++ now :: after →
    ∀ n ∈ (requestTokens limits before).1.storedCounts now, n ≤ limits.maxAllocsPerWindow + 1

theorem asMillis_of_fits {duration : ℕ} (h : duration / 10 ^ 6 < 2 ^ 64) :
    asMillis duration = duration / 10 ^ 6 :=
  Nat.mod_eq_of_lt h

/-- Times in an interval shorter than the window are at most its whole milliseconds apart. -/
theorem le_add_of_interval {duration first last t t' : ℕ} (hshort : last - first < duration)
    (ht : first ≤ t * 10 ^ 6) (ht' : t' * 10 ^ 6 ≤ last) : t' ≤ t + duration / 10 ^ 6 := by
  omega

theorem storedCounts_le {c : VirtualIpCache} (now : ℕ)
    (hcount : c.rateWindowCount ≤ c.limits.maxAllocsPerWindow) :
    ∀ n ∈ c.storedCounts now, n ≤ c.limits.maxAllocsPerWindow + 1 := by
  have hmod : (c.rateWindowCount + 1) % 2 ^ 64 ≤ c.rateWindowCount + 1 := Nat.mod_le _ _
  simp only [storedCounts]
  split_ifs <;> simp <;> omega

theorem rate_bounded (limits : CacheLimits) (hwindow : 10 ^ 6 ≤ limits.rateWindow)
    (hfits : limits.rateWindow / 10 ^ 6 < 2 ^ 64) (hmax : limits.maxAllocsPerWindow < 2 ^ 64)
    (times : List ℕ) (hsorted : times.Pairwise (· ≤ ·)) : RateBound limits times := by
  have hmillis := asMillis_of_fits hfits
  have hne : asMillis limits.rateWindow ≠ 0 := by
    rw [hmillis]
    omega
  have hcounts := counts_requestTokens hne hmax hsorted
  have hbefore : ∀ before now after, times = before ++ now :: after →
      before.Pairwise (· ≤ ·) := by
    rintro before now after rfl
    exact (List.pairwise_append.mp hsorted).1
  constructor
  · exact hcounts.bound
  · intro first last hshort
    refine hcounts.grantsAt_le fun t t' ht ht' => ?_
    rw [hmillis]
    exact le_add_of_interval hshort (of_decide_eq_true ht).1 (of_decide_eq_true ht').2
  · intro before now after htimes hfew
    have hprior := counts_requestTokens hne hmax (hbefore before now after htimes)
    have hlimits := requestTokens_limits limits before
    have hstep := tryConsumeRateToken_eq now (hlimits.symm ▸ hne) (hlimits.symm ▸ hmax)
    rw [hlimits] at hstep
    have hgranted := hprior.granted_of_lt now
    rw [← hstep] at hgranted
    exact hgranted hfew
  · intro before now after htimes
    have hprior := counts_requestTokens hne hmax (hbefore before now after htimes)
    have hstored := storedCounts_le (c := (requestTokens limits before).1) now
    rw [requestTokens_limits] at hstored
    exact hstored hprior.count_le

def onePerSecond : CacheLimits :=
  { CacheLimits.default with maxAllocsPerWindow := 1 }

theorem onePerSecond_bounded :
    RateBound onePerSecond [0, 999, 1000, 1001] ∧
      grants (requestTokens onePerSecond [0, 999, 1000, 1001]).2 1000 = 1 :=
  ⟨rate_bounded onePerSecond (by decide) (by decide) (by decide) _ (by decide), by decide +kernel⟩

/-- One token in `2 ^ 64` milliseconds, whose low 64 bits are zero. -/
def onePerAge : CacheLimits :=
  { CacheLimits.default with maxAllocsPerWindow := 1, rateWindow := 2 ^ 64 * 10 ^ 6 }

theorem onePerAge_unbounded : ¬RateBound onePerAge [0, 0] := by
  intro h
  have hwindow := h.window 0
  revert hwindow
  decide +kernel

end BuiltOnEnvoy.Dns
