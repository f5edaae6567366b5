import BuiltOnEnvoy.Dns.CacheCalls

/-!
# Idle eviction

An entry is touched when an allocation returns its address and when a lookup
finds it. The time stored in an entry is that of its last touch, over every run
of calls, so an eviction removes exactly the entries whose last touch is old
enough. The idle time is cut to whole milliseconds before it is compared.
-/

namespace BuiltOnEnvoy.Dns

open Foundations VirtualIpCache List

/-- The address a call touches, and when. -/
def Call.touched (c : VirtualIpCache) : Call → Option (IpAddr × ℕ)
  | allocate domain metadata net now =>
    (c.allocateAt domain metadata net.addr net.prefixLen now).ip.map fun ip => (ip, now)
  | lookup ip now => if (c.lookup ip now).1.isSome then some (ip, now) else none
  | evictIdle _ => none
  | flush => none

/-- The touches of a run, in order. -/
def touches : List Call → VirtualIpCache → List (IpAddr × ℕ)
  | [], _ => []
  | call :: calls, c => (call.touched c).toList ++ touches calls (call.step c)

def lastTouch (ts : List (IpAddr × ℕ)) (ip : IpAddr) : Option ℕ :=
  (ts.reverse.find? fun t => t.1 = ip).map Prod.snd

/-- The last touch is at least the duration, in nanoseconds, in the past. -/
def IdleFor (ts : List (IpAddr × ℕ)) (duration now : ℕ) (ip : IpAddr) : Prop :=
  ∃ t, lastTouch ts ip = some t ∧ t * 10 ^ 6 + duration ≤ now * 10 ^ 6

/-- Both maps lose exactly the idle addresses, and nothing else changes. -/
structure EvictsExactly (c c' : VirtualIpCache) (idle : IpAddr → Prop) : Prop where
  entries : ∀ ip e, c'.ipToDest.lookup ip = some e ↔ c.ipToDest.lookup ip = some e ∧ ¬idle ip
  keys : ∀ k ip, c'.domainToIp.lookup k = some ip ↔ c.domainToIp.lookup k = some ip ∧ ¬idle ip
  offsets : c'.offsets = c.offsets
  limits : c'.limits = c.limits
  windowStart : c'.rateWindowStartMs = c.rateWindowStartMs
  windowCount : c'.rateWindowCount = c.rateWindowCount

theorem lastTouch_concat (ts : List (IpAddr × ℕ)) (ip ip' : IpAddr) (now : ℕ) :
    lastTouch (ts ++ [(ip, now)]) ip' = if ip' = ip then some now else lastTouch ts ip' := by
  unfold lastTouch
  by_cases hip : ip' = ip
  · simp [hip]
  · simp [hip, Ne.symm hip]

namespace VirtualIpCache

variable {c : VirtualIpCache} {ts : List (IpAddr × ℕ)} {now : ℕ}

theorem lookup_foldl_removeStale (stale : List (IpAddr × (String × Bool))) (c : VirtualIpCache)
    (ip : IpAddr) :
    (stale.foldl removeStale c).ipToDest.lookup ip =
      if ip ∈ stale.map Prod.fst then none else c.ipToDest.lookup ip := by
  induction stale generalizing c with
  | nil => simp
  | cons s rest ih =>
    rw [foldl_cons, ih, map_cons]
    by_cases hrest : ip ∈ rest.map Prod.fst
    · rw [if_pos hrest, if_pos (mem_cons_of_mem _ hrest)]
    · rw [if_neg hrest]
      by_cases hip : ip = s.1
      · rw [hip]
        simp [removeStale]
      · rw [if_neg (by simpa [hip] using hrest)]
        exact AList.lookup_erase_ne hip

theorem foldl_removeStale_rest (stale : List (IpAddr × (String × Bool))) (c : VirtualIpCache) :
    (stale.foldl removeStale c).offsets = c.offsets ∧
      (stale.foldl removeStale c).limits = c.limits ∧
      (stale.foldl removeStale c).rateWindowStartMs = c.rateWindowStartMs ∧
      (stale.foldl removeStale c).rateWindowCount = c.rateWindowCount := by
  induction stale generalizing c with
  | nil => exact ⟨rfl, rfl, rfl, rfl⟩
  | cons s rest ih => exact ih (c.removeStale s)

theorem mem_stale_iff (c : VirtualIpCache) (now : ℕ) (ip : IpAddr) :
    ip ∈ (c.stale now).map Prod.fst ↔
      ∃ e, c.ipToDest.lookup ip = some e ∧ asMillis c.limits.idleTtl ≤ now - e.lastUsedMs := by
  simp only [stale, List.map_map, List.mem_map, mem_filter, decide_eq_true_eq,
    Function.comp_apply, ge_iff_le]
  constructor
  · rintro ⟨⟨ip, e⟩, ⟨hmem, hold⟩, rfl⟩
    exact ⟨e, AList.mem_lookup_iff.mpr hmem, hold⟩
  · rintro ⟨e, he, hold⟩
    exact ⟨⟨ip, e⟩, ⟨AList.mem_lookup_iff.mp he, hold⟩, rfl⟩

theorem lookup_evictIdleAt (c : VirtualIpCache) (now : ℕ) (ip : IpAddr) (e : CacheEntry) :
    (c.evictIdleAt now).1.ipToDest.lookup ip = some e ↔
      c.ipToDest.lookup ip = some e ∧
        (asMillis c.limits.idleTtl = 0 ∨ now - e.lastUsedMs < asMillis c.limits.idleTtl) := by
  unfold evictIdleAt
  split_ifs with hdisabled
  · simp [hdisabled]
  · simp only [lookup_foldl_removeStale, mem_stale_iff]
    split_ifs with hstale
    · grind
    · constructor
      · grind
      · exact fun h => h.1

/-- Every entry carries the time of its last touch. -/
def Timed (c : VirtualIpCache) (ts : List (IpAddr × ℕ)) : Prop :=
  ∀ ip e, c.ipToDest.lookup ip = some e → lastTouch ts ip = some e.lastUsedMs

variable {c' : VirtualIpCache}

theorem Timed.mono (h : Timed c ts)
    (hsub : ∀ ip e, c'.ipToDest.lookup ip = some e → c.ipToDest.lookup ip = some e) :
    Timed c' ts :=
  fun ip e he => h ip e (hsub ip e he)

theorem Timed.evictIdleAt (h : Timed c ts) (now : ℕ) : Timed (c.evictIdleAt now).1 ts :=
  h.mono fun ip e he => ((c.lookup_evictIdleAt now ip e).mp he).1

theorem Timed.tryConsumeRateToken (h : Timed c ts) (now : ℕ) :
    Timed (c.tryConsumeRateToken now).2 ts := by
  refine h.mono fun ip e he => ?_
  rwa [(c.tryConsumeRateToken_maps now).1] at he

theorem Timed.reclaim (h : Timed c ts) (now : ℕ) : Timed (c.reclaim now).1 ts := by
  unfold VirtualIpCache.reclaim
  split_ifs
  · exact h.evictIdleAt now
  · exact h

theorem Timed.prepared (h : Timed c ts) {evicted : List IpAddr}
    (hprep : c.Prepared now c' evicted) : Timed c' ts := by
  rcases hprep with ⟨rfl, rfl⟩ | ⟨rfl, rfl⟩ | ⟨rfl, rfl⟩
  · exact h
  · exact h.tryConsumeRateToken now
  · exact (h.tryConsumeRateToken now).reclaim now

theorem Timed.insert (h : Timed c ts) {ip : IpAddr} {e : CacheEntry}
    (hinsert : c'.ipToDest = c.ipToDest.insert ip e) :
    Timed c' (ts ++ [(ip, e.lastUsedMs)]) := by
  intro ip' e' he'
  rw [hinsert] at he'
  rw [lastTouch_concat]
  by_cases hip : ip' = ip
  · subst hip
    rw [AList.lookup_insert, Option.some.injEq] at he'
    rw [if_pos rfl, he']
  · rw [AList.lookup_insert_ne hip] at he'
    rw [if_neg hip]
    exact h ip' e' he'

theorem Timed.touch (h : Timed c ts) (ip : IpAddr) (now : ℕ) :
    Timed (c.touch ip now) (ts ++ [(ip, now)]) := by
  unfold VirtualIpCache.touch
  split
  · next hnone =>
    intro ip' e' he'
    have hne : ip' ≠ ip := by
      rintro rfl
      simp [hnone] at he'
    rw [lastTouch_concat, if_neg hne]
    exact h ip' e' he'
  · next e he => exact h.insert (e := { e with lastUsedMs := now }) rfl

theorem Timed.lookup (h : Timed c ts) (ip : IpAddr) (now : ℕ) :
    Timed (c.lookup ip now).2 (ts ++ ((Call.lookup ip now).touched c).toList) := by
  cases hip : c.ipToDest.lookup ip with
  | none => simpa [Call.touched, VirtualIpCache.lookup, VirtualIpCache.touch, hip] using h
  | some e =>
    have htouched : (Call.lookup ip now).touched c = some (ip, now) := by
      simp [Call.touched, VirtualIpCache.lookup, hip]
    rw [htouched]
    exact h.touch ip now

theorem Timed.allocate (h : Timed c ts) (domain : String) (metadata : Metadata) {net : IpNet}
    (hnet : net.prefixLen ≤ net.addr.width) (now : ℕ) :
    Timed (c.allocateAt domain metadata net.addr net.prefixLen now).cache
      (ts ++ ((Call.allocate domain metadata net now).touched c).toList) := by
  obtain ⟨c', evicted, hprep, hcases⟩ :=
    c.allocateAt_cases domain metadata net.addr net.prefixLen now
  have h' := h.prepared hprep
  simp only [Call.touched]
  rcases hcases with ⟨ip, -, heq⟩ | ⟨-, heq⟩ | ⟨-, -, heq⟩
  · rw [heq]
    exact h'.touch ip now
  · rw [heq]
    simpa using h'
  · rw [heq]
    obtain ⟨ip, -, -, hmint⟩ | ⟨n, -, -, hmint⟩ := c'.mint_cases domain metadata now hnet
    · rw [hmint]
      exact h'.insert (e := ⟨domain, metadata, now⟩) rfl
    · rw [hmint]
      have hkept : Timed { c' with offsets := c'.offsets.insert net n } ts :=
        h'.mono fun _ _ he => he
      simpa using hkept

variable {nets : Set IpNet}

theorem Timed.step (h : Timed c ts) (haligned : ∀ net ∈ nets, net.Aligned) {call : Call}
    (hcall : call.Draws nets) :
    Timed (call.step c) (ts ++ (call.touched c).toList) := by
  cases call with
  | allocate domain metadata net now =>
    exact h.allocate domain metadata (haligned net hcall).length now
  | lookup ip now => exact h.lookup ip now
  | evictIdle now => simpa [Call.touched, Call.step] using h.evictIdleAt now
  | flush =>
    intro ip e he
    simp [Call.step, VirtualIpCache.flush] at he

theorem Timed.runAll (h : Timed c ts) (haligned : ∀ net ∈ nets, net.Aligned) (calls : List Call)
    (hcalls : ∀ call ∈ calls, call.Draws nets) :
    Timed (Call.runAll calls c) (ts ++ touches calls c) := by
  induction calls generalizing c ts with
  | nil => simpa [touches, Call.runAll] using h
  | cons call calls ih =>
    rw [forall_mem_cons] at hcalls
    have hrest := ih (h.step haligned hcalls.1) hcalls.2
    rw [append_assoc] at hrest
    exact hrest

theorem timed_runAll (haligned : ∀ net ∈ nets, net.Aligned) (limits : CacheLimits)
    (calls : List Call) (hcalls : ∀ call ∈ calls, call.Draws nets) :
    Timed (Call.runAll calls (withLimits limits)) (touches calls (withLimits limits)) := by
  have hempty : Timed (withLimits limits) [] := by
    intro ip e he
    simp [withLimits] at he
  exact hempty.runAll haligned calls hcalls

theorem Timed.stale_iff (h : Timed c ts) {ip : IpAddr} {e : CacheEntry}
    (he : c.ipToDest.lookup ip = some e) {millis : ℕ} (hmillis : 0 < millis) :
    millis ≤ now - e.lastUsedMs ↔ IdleFor ts (millis * 10 ^ 6) now ip := by
  have htouch := h ip e he
  constructor
  · intro hold
    exact ⟨e.lastUsedMs, htouch, by omega⟩
  · rintro ⟨t, ht, hidle⟩
    rw [htouch, Option.some.injEq] at ht
    omega

theorem Sound.evictsExactly (hsound : Sound nets c) (htimed : Timed c ts)
    (hmillis : asMillis c.limits.idleTtl ≠ 0) (now : ℕ) :
    EvictsExactly c (c.evictIdleAt now).1
      (IdleFor ts (asMillis c.limits.idleTtl * 10 ^ 6) now) := by
  have hentries : ∀ ip e, (c.evictIdleAt now).1.ipToDest.lookup ip = some e ↔
      c.ipToDest.lookup ip = some e ∧
        ¬IdleFor ts (asMillis c.limits.idleTtl * 10 ^ 6) now ip := by
    intro ip e
    rw [lookup_evictIdleAt]
    refine and_congr_right fun he => ?_
    rw [← htimed.stale_iff he (Nat.pos_of_ne_zero hmillis)]
    omega
  have hkeys : ∀ k ip, (c.evictIdleAt now).1.domainToIp.lookup k = some ip ↔
      c.domainToIp.lookup k = some ip ∧
        ¬IdleFor ts (asMillis c.limits.idleTtl * 10 ^ 6) now ip := by
    -- both maps say the same pairs, before the eviction and after it
    intro k ip
    rw [(hsound.evictIdleAt now).inverse k ip, hsound.inverse k ip]
    constructor
    · grind
    · rintro ⟨⟨e, he, hkey⟩, hfresh⟩
      exact ⟨e, (hentries ip e).mpr ⟨he, hfresh⟩, hkey⟩
  have hcache : (c.evictIdleAt now).1 = (c.stale now).foldl VirtualIpCache.removeStale c := by
    simp [VirtualIpCache.evictIdleAt, hmillis]
  obtain ⟨hoffsets, hlimits, hstart, hcount⟩ := foldl_removeStale_rest (c.stale now) c
  rw [← hcache] at hoffsets hlimits hstart hcount
  exact ⟨hentries, hkeys, hoffsets, hlimits, hstart, hcount⟩

end VirtualIpCache

/-- An eviction is exact up to the whole milliseconds of the idle time. -/
theorem idle_eviction_exact (nets : Set IpNet) (haligned : ∀ net ∈ nets, net.Aligned)
    (hdisjoint : nets.PairwiseDisjoint IpNet.block) (limits : CacheLimits)
    (hmilli : 10 ^ 6 ≤ limits.idleTtl) (hfits : limits.idleTtl / 10 ^ 6 < 2 ^ 64)
    (calls : List Call) (hcalls : ∀ call ∈ calls, call.Draws nets) (now : ℕ) :
    EvictsExactly (Call.runAll calls (withLimits limits))
      ((Call.runAll calls (withLimits limits)).evictIdleAt now).1
      (IdleFor (touches calls (withLimits limits)) (limits.idleTtl / 10 ^ 6 * 10 ^ 6) now) := by
  have hlimits : (Call.runAll calls (withLimits limits)).limits = limits := by
    have hempty : Within limits (withLimits limits) := ⟨rfl, Nat.zero_le _⟩
    exact (hempty.runAll haligned calls hcalls).limits_eq
  have hmillis : asMillis limits.idleTtl = limits.idleTtl / 10 ^ 6 := Nat.mod_eq_of_lt hfits
  have hsound := Call.sound_runAll haligned hdisjoint calls hcalls (sound_withLimits limits)
  have hexact := hsound.evictsExactly (timed_runAll haligned limits calls hcalls)
  rw [hlimits, hmillis] at hexact
  exact hexact (by omega) now

/-- Two allocations from one range and a lookup of the first address. -/
def touchedTwice : List Call :=
  [.allocate "a" [] ⟨.v4 0x0a000000#32, 30⟩ 0, .allocate "b" [] ⟨.v4 0x0a000000#32, 30⟩ 1000,
    .lookup (.v4 0x0a000000#32) 1500]

theorem touchedTwice_draws : ∀ call ∈ touchedTwice, call.Draws smallRanges := by
  simp [touchedTwice, Call.Draws, smallRanges]

/-- At time 2000 the second address has been idle for a second, the first one has not. -/
theorem touchedTwice_evicted :
    (((Call.runAll touchedTwice (withLimits slowLimits)).evictIdleAt 2000).1.ipToDest.lookup
        (.v4 0x0a000000#32)).isSome ∧
      ((Call.runAll touchedTwice (withLimits slowLimits)).evictIdleAt 2000).1.domainToIp.lookup
        ("b", false) ≠ some (.v4 0x0a000001#32) := by
  have hexact := idle_eviction_exact smallRanges smallRanges_aligned smallRanges_disjoint slowLimits
    (by decide) (by decide) touchedTwice touchedTwice_draws 2000
  have htouches : touches touchedTwice (withLimits slowLimits) =
      [(.v4 0x0a000000#32, 0), (.v4 0x0a000001#32, 1000), (.v4 0x0a000000#32, 1500)] := by
    decide +kernel
  constructor
  · have hlive : (Call.runAll touchedTwice (withLimits slowLimits)).ipToDest.lookup
        (.v4 0x0a000000#32) = some ⟨"a", [], 1500⟩ := by decide +kernel
    have hkept := (hexact.entries (.v4 0x0a000000#32) ⟨"a", [], 1500⟩).mpr ⟨hlive, ?_⟩
    · simp [hkept]
    · rintro ⟨t, ht, hidle⟩
      rw [htouches] at ht
      cases ht
      revert hidle
      decide
  · intro hkept
    refine ((hexact.keys _ _).mp hkept).2 ⟨1000, ?_, by decide⟩
    rw [htouches]
    rfl

/-- Idle for one and a half milliseconds. -/
def fractionLimits : CacheLimits :=
  { slowLimits with idleTtl := 1500000 }

/-- An entry is evicted one millisecond after it was touched. -/
theorem fraction_evicted_early :
    ¬EvictsExactly
      (Call.runAll [.allocate "a" [] ⟨.v4 0x0a000000#32, 30⟩ 0] (withLimits fractionLimits))
      ((Call.runAll [.allocate "a" [] ⟨.v4 0x0a000000#32, 30⟩ 0]
        (withLimits fractionLimits)).evictIdleAt 1).1
      (IdleFor (touches [.allocate "a" [] ⟨.v4 0x0a000000#32, 30⟩ 0] (withLimits fractionLimits))
        fractionLimits.idleTtl 1) := by
  intro hexact
  have htouches : touches [.allocate "a" [] ⟨.v4 0x0a000000#32, 30⟩ 0]
      (withLimits fractionLimits) = [(.v4 0x0a000000#32, 0)] := by decide +kernel
  have hkept := (hexact.keys ("a", false) (.v4 0x0a000000#32)).mpr ⟨by decide +kernel, ?_⟩
  · revert hkept
    decide +kernel
  · rintro ⟨t, ht, hidle⟩
    rw [htouches] at ht
    cases ht
    revert hidle
    decide

end BuiltOnEnvoy.Dns
