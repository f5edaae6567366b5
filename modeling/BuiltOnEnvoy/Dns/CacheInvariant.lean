import BuiltOnEnvoy.Dns.Gateway
import BuiltOnEnvoy.Foundations.InverseMaps

/-!
# What every cache operation preserves

The two maps of the cache are mutually inverse, and every held address lies
below the offset counter of one of the configured ranges. Each function of the
cache has one lemma for the invariant and one for the owner of an address.
-/

namespace BuiltOnEnvoy.Dns

open Foundations List

/-- The addresses a range can hand out. -/
def IpNet.mintable (net : IpNet) : Set IpAddr :=
  {ip | ∃ offset < net.capacity, net.addr.add offset = some ip}

/-- Two different ranges never hand out the same address. -/
def Separated (nets : Set IpNet) : Prop :=
  ∀ a ∈ nets, ∀ b ∈ nets, a ≠ b → Disjoint a.mintable b.mintable

namespace VirtualIpCache

def keyOf (ip : IpAddr) (e : CacheEntry) : String × Bool := (e.domain, ip.isIpv6)

/-- `domainToIp` maps `(d, family)` to `ip` exactly when the entry of `ip`
belongs to `d` and `ip` has that family. -/
def MapsInverse (c : VirtualIpCache) : Prop :=
  MutuallyInverse keyOf c.domainToIp c.ipToDest

/-- The domain whose destination a lookup of the address returns. -/
def owner (c : VirtualIpCache) (ip : IpAddr) : Option String :=
  (c.ipToDest.lookup ip).map CacheEntry.domain

def nextOf (c : VirtualIpCache) (net : IpNet) : ℕ := (c.offsets.lookup net).getD 0

structure Sound (nets : Set IpNet) (c : VirtualIpCache) : Prop where
  inverse : c.MapsInverse
  minted : ∀ ip ∈ c.ipToDest, ∃ net ∈ nets, ∃ offset < c.nextOf net,
    net.addr.add offset = some ip
  bounded : ∀ net, c.nextOf net ≤ net.capacity

variable {nets : Set IpNet} {c : VirtualIpCache}

theorem lookup_fst_map (c : VirtualIpCache) (ip : IpAddr) (now : ℕ) :
    (c.lookup ip now).1.map Prod.fst = c.owner ip := by
  simp [lookup, owner, Function.comp_def]

theorem sound_withLimits (limits : CacheLimits) : Sound nets (withLimits limits) where
  inverse := MutuallyInverse.empty
  minted := by simp [withLimits]
  bounded := by simp [nextOf, withLimits]

theorem Sound.congr {c' : VirtualIpCache} (h : Sound nets c) (hip : c'.ipToDest = c.ipToDest)
    (hdomain : c'.domainToIp = c.domainToIp) (hoffsets : c'.offsets = c.offsets) :
    Sound nets c' where
  inverse := by
    rw [MapsInverse, hip, hdomain]
    exact h.inverse
  minted := by
    simp only [nextOf, hip, hoffsets]
    exact h.minted
  bounded := by
    simp only [nextOf, hoffsets]
    exact h.bounded

@[simp] theorem owner_touch (c : VirtualIpCache) (ip ip' : IpAddr) (now : ℕ) :
    (c.touch ip now).owner ip' = c.owner ip' := by
  unfold touch owner
  split
  · rfl
  · next e he =>
    by_cases hip : ip' = ip
    · subst hip
      simp [he]
    · simp [AList.lookup_insert_ne hip]

theorem Sound.touch (h : Sound nets c) (ip : IpAddr) (now : ℕ) : Sound nets (c.touch ip now) := by
  unfold VirtualIpCache.touch
  split
  · exact h
  · next e he =>
    refine ⟨h.inverse.update he rfl, ?_, h.bounded⟩
    intro ip' hip'
    apply h.minted
    rcases (AList.mem_insert _).mp hip' with rfl | hmem
    · exact AList.lookup_isSome.mp (by simp [he])
    · exact hmem

theorem tryConsumeRateToken_maps (c : VirtualIpCache) (now : ℕ) :
    (c.tryConsumeRateToken now).2.ipToDest = c.ipToDest ∧
      (c.tryConsumeRateToken now).2.domainToIp = c.domainToIp ∧
      (c.tryConsumeRateToken now).2.offsets = c.offsets := by
  simp only [tryConsumeRateToken]
  split_ifs <;> exact ⟨rfl, rfl, rfl⟩

@[simp] theorem tryConsumeRateToken_limits (c : VirtualIpCache) (now : ℕ) :
    (c.tryConsumeRateToken now).2.limits = c.limits := by
  simp only [tryConsumeRateToken]
  split_ifs <;> rfl

@[simp] theorem owner_tryConsumeRateToken (c : VirtualIpCache) (now : ℕ) (ip : IpAddr) :
    (c.tryConsumeRateToken now).2.owner ip = c.owner ip := by
  simp [owner, (c.tryConsumeRateToken_maps now).1]

theorem Sound.tryConsumeRateToken (h : Sound nets c) (now : ℕ) :
    Sound nets (c.tryConsumeRateToken now).2 := by
  obtain ⟨hip, hdomain, hoffsets⟩ := c.tryConsumeRateToken_maps now
  exact h.congr hip hdomain hoffsets

variable {s : IpAddr × (String × Bool)} {ip : IpAddr}

theorem owner_removeStale (hne : ip ≠ s.1) :
    (c.removeStale s).owner ip = c.owner ip := by
  simp [removeStale, owner, AList.lookup_erase_ne hne]

theorem owner_foldl_removeStale (stale : List (IpAddr × (String × Bool)))
    (hip : ip ∉ stale.map Prod.fst) : (stale.foldl removeStale c).owner ip = c.owner ip := by
  induction stale generalizing c with
  | nil => rfl
  | cons s rest ih =>
    rw [map_cons, mem_cons, not_or] at hip
    rw [foldl_cons, ih hip.2, owner_removeStale hip.1]

/-- The reverse key collected for an address is the one of its entry. -/
def KeyedBy (c : VirtualIpCache) (s : IpAddr × (String × Bool)) : Prop :=
  ∀ e, c.ipToDest.lookup s.1 = some e → keyOf s.1 e = s.2

theorem keyedBy_of_mem_stale {now : ℕ} (hs : s ∈ c.stale now) :
    c.KeyedBy s := by
  obtain ⟨⟨ip, e⟩, hmem, rfl⟩ := List.mem_map.mp hs
  intro e' he'
  have he : c.ipToDest.lookup ip = some e := AList.mem_lookup_iff.mpr (mem_filter.mp hmem).1
  have heq : e = e' := Option.some.inj (he.symm.trans he')
  rw [heq]
  rfl

theorem KeyedBy.removeStale {s t : IpAddr × (String × Bool)} (h : c.KeyedBy s) :
    (c.removeStale t).KeyedBy s := by
  intro e he
  apply h
  simp only [VirtualIpCache.removeStale] at he
  by_cases hne : s.1 = t.1
  · rw [hne, AList.lookup_erase] at he
    cases he
  · rwa [AList.lookup_erase_ne hne] at he

theorem Sound.removeStale (h : Sound nets c) (hs : c.KeyedBy s) :
    Sound nets (c.removeStale s) where
  inverse := h.inverse.erase hs
  minted := fun ip hip => h.minted ip (AList.mem_erase.mp hip).2
  bounded := h.bounded

theorem Sound.foldl_removeStale (stale : List (IpAddr × (String × Bool))) (h : Sound nets c)
    (hs : ∀ s ∈ stale, c.KeyedBy s) : Sound nets (stale.foldl VirtualIpCache.removeStale c) := by
  induction stale generalizing c with
  | nil => exact h
  | cons s rest ih =>
    rw [forall_mem_cons] at hs
    exact ih (h.removeStale hs.1) fun t ht => (hs.2 t ht).removeStale

theorem Sound.evictIdleAt (h : Sound nets c) (now : ℕ) : Sound nets (c.evictIdleAt now).1 := by
  unfold VirtualIpCache.evictIdleAt
  split_ifs with hdisabled
  · exact h
  · exact h.foldl_removeStale _ fun s hs => keyedBy_of_mem_stale hs

theorem owner_evictIdleAt {now : ℕ} (hip : ip ∉ (c.evictIdleAt now).2) :
    (c.evictIdleAt now).1.owner ip = c.owner ip := by
  unfold evictIdleAt at hip ⊢
  split_ifs at hip ⊢ with hdisabled
  · rfl
  · exact owner_foldl_removeStale _ hip

theorem sound_flush (c : VirtualIpCache) : Sound nets c.flush :=
  (sound_withLimits c.limits).congr rfl rfl rfl

theorem nextOf_insert (c : VirtualIpCache) (net net' : IpNet) (n : ℕ) :
    nextOf { c with offsets := c.offsets.insert net n } net' =
      if net' = net then n else c.nextOf net' := by
  unfold nextOf
  split_ifs with h
  · subst h
    simp
  · rw [AList.lookup_insert_ne h]

theorem mint_some {base : IpAddr} {prefixLen now : ℕ} {domain : String} {metadata : Metadata}
    (hlen : prefixLen ≤ base.width)
    (hroom : c.nextOf ⟨base, prefixLen⟩ < IpNet.capacity ⟨base, prefixLen⟩)
    (hadd : base.add (c.nextOf ⟨base, prefixLen⟩) = some ip) :
    c.mint domain metadata base prefixLen now = (some ip, { c with
      ipToDest := c.ipToDest.insert ip ⟨domain, metadata, now⟩
      domainToIp := c.domainToIp.insert (domain, base.isIpv6) ip
      offsets := c.offsets.insert ⟨base, prefixLen⟩ (c.nextOf ⟨base, prefixLen⟩ + 1) }) := by
  unfold nextOf at hroom hadd ⊢
  simp [mint, IpNet.new?, hlen, nextOffset, hroom, hadd]

theorem mint_exhausted {base : IpAddr} {prefixLen : ℕ} (domain : String) (metadata : Metadata)
    (now : ℕ) (hlen : prefixLen ≤ base.width)
    (hroom : ¬c.nextOf ⟨base, prefixLen⟩ < IpNet.capacity ⟨base, prefixLen⟩) :
    c.mint domain metadata base prefixLen now =
      (none, { c with
        offsets := c.offsets.insert ⟨base, prefixLen⟩ (c.nextOf ⟨base, prefixLen⟩) }) := by
  unfold nextOf at hroom ⊢
  simp [mint, IpNet.new?, hlen, nextOffset, hroom]

theorem mint_cases (c : VirtualIpCache) (domain : String) (metadata : Metadata) {base : IpAddr}
    {prefixLen : ℕ} (now : ℕ) (hlen : prefixLen ≤ base.width) :
    (∃ ip, c.nextOf ⟨base, prefixLen⟩ < IpNet.capacity ⟨base, prefixLen⟩ ∧
      base.add (c.nextOf ⟨base, prefixLen⟩) = some ip ∧
      c.mint domain metadata base prefixLen now = (some ip, { c with
        ipToDest := c.ipToDest.insert ip ⟨domain, metadata, now⟩
        domainToIp := c.domainToIp.insert (domain, base.isIpv6) ip
        offsets := c.offsets.insert ⟨base, prefixLen⟩ (c.nextOf ⟨base, prefixLen⟩ + 1) })) ∨
    (∃ n, c.nextOf ⟨base, prefixLen⟩ ≤ n ∧
      (n ≤ c.nextOf ⟨base, prefixLen⟩ ∨ n ≤ IpNet.capacity ⟨base, prefixLen⟩) ∧
      c.mint domain metadata base prefixLen now =
        (none, { c with offsets := c.offsets.insert ⟨base, prefixLen⟩ n })) := by
  by_cases hroom : c.nextOf ⟨base, prefixLen⟩ < IpNet.capacity ⟨base, prefixLen⟩
  · cases hadd : base.add (c.nextOf ⟨base, prefixLen⟩) with
    | some ip => exact Or.inl ⟨ip, hroom, rfl, mint_some hlen hroom hadd⟩
    | none =>
      -- the counter is consumed although the address overflows
      refine Or.inr ⟨_, Nat.le_succ _, Or.inr hroom, ?_⟩
      unfold nextOf at hroom hadd ⊢
      simp [mint, IpNet.new?, hlen, nextOffset, hroom, hadd]
  · exact Or.inr ⟨_, le_refl _, Or.inl (le_refl _), mint_exhausted domain metadata now hlen hroom⟩

/-- The next address of a range was never handed out: its own range has only
handed out smaller offsets, and no other range hands it out at all. -/
theorem Sound.next_not_minted (h : Sound nets c) (hsep : Separated nets) {net net' : IpNet}
    (hnet : net ∈ nets) (hnet' : net' ∈ nets) (hroom : c.nextOf net < net.capacity)
    (hadd : net.addr.add (c.nextOf net) = some ip) {offset : ℕ} (hlt : offset < c.nextOf net') :
    net'.addr.add offset ≠ some ip := by
  intro hadd'
  by_cases heq : net = net'
  · subst heq
    have hsame : c.nextOf net = offset := IpAddr.add_injective hadd hadd'
    omega
  · have hbelow : offset < net'.capacity := lt_of_lt_of_le hlt (h.bounded net')
    exact Set.disjoint_left.mp (hsep net hnet net' hnet' heq) ⟨_, hroom, hadd⟩
      ⟨offset, hbelow, hadd'⟩

theorem Sound.fresh (h : Sound nets c) (hsep : Separated nets) {net : IpNet} (hnet : net ∈ nets)
    (hroom : c.nextOf net < net.capacity) (hadd : net.addr.add (c.nextOf net) = some ip) :
    c.ipToDest.lookup ip = none := by
  rw [AList.lookup_eq_none]
  intro hmem
  obtain ⟨net', hnet', offset, hlt, hadd'⟩ := h.minted ip hmem
  exact h.next_not_minted hsep hnet hnet' hroom hadd hlt hadd'

theorem Sound.advance (h : Sound nets c) {net : IpNet} {n : ℕ} (hle : c.nextOf net ≤ n)
    (hbound : n ≤ c.nextOf net ∨ n ≤ net.capacity) :
    Sound nets { c with offsets := c.offsets.insert net n } where
  inverse := h.inverse
  minted := by
    intro ip hip
    obtain ⟨net', hnet', offset, hlt, hadd⟩ := h.minted ip hip
    refine ⟨net', hnet', offset, ?_, hadd⟩
    rw [c.nextOf_insert]
    split_ifs with hcase
    · subst hcase; omega
    · exact hlt
  bounded := by
    intro net'
    have hold := h.bounded net'
    rw [c.nextOf_insert]
    split_ifs with hcase
    · subst hcase; omega
    · exact hold

theorem Sound.store (h : Sound nets c) {net : IpNet} (hnet : net ∈ nets) {offset : ℕ}
    (hlt : offset < c.nextOf net) (hadd : net.addr.add offset = some ip) (e : CacheEntry)
    (hnew : c.domainToIp.lookup (e.domain, net.addr.isIpv6) = none)
    (hfresh : c.ipToDest.lookup ip = none) :
    Sound nets { c with
      ipToDest := c.ipToDest.insert ip e
      domainToIp := c.domainToIp.insert (e.domain, net.addr.isIpv6) ip } where
  inverse := by
    have hfamily : ip.isIpv6 = net.addr.isIpv6 := (IpAddr.add_spec hadd).1
    exact h.inverse.insert hnew hfresh (by rw [keyOf, hfamily])
  minted := by
    intro ip' hip'
    rcases (AList.mem_insert _).mp hip' with rfl | hmem
    · exact ⟨net, hnet, offset, hlt, hadd⟩
    · exact h.minted ip' hmem
  bounded := h.bounded

section

variable {domain : String} {metadata : Metadata} {base : IpAddr} {prefixLen now : ℕ}

theorem Sound.mint (h : Sound nets c) (hsep : Separated nets)
    (hnet : ⟨base, prefixLen⟩ ∈ nets) (hlen : prefixLen ≤ base.width)
    (hnew : c.domainToIp.lookup (domain, base.isIpv6) = none) :
    Sound nets (c.mint domain metadata base prefixLen now).2 := by
  obtain ⟨ip, hroom, hadd, heq⟩ | ⟨n, hle, hbound, heq⟩ :=
    c.mint_cases domain metadata now hlen
  · rw [heq]
    have hadvance := h.advance (Nat.le_succ _) (Or.inr hroom)
    refine hadvance.store hnet ?_ hadd ⟨domain, metadata, now⟩ hnew (h.fresh hsep hnet hroom hadd)
    simp [nextOf_insert]
  · rw [heq]
    exact h.advance hle hbound

theorem owner_mint (hlen : prefixLen ≤ base.width) (ip : IpAddr) :
    (c.mint domain metadata base prefixLen now).2.owner ip =
      if (c.mint domain metadata base prefixLen now).1 = some ip then some domain
      else c.owner ip := by
  obtain ⟨minted, hroom, hadd, heq⟩ | ⟨n, hle, hbound, heq⟩ :=
    c.mint_cases domain metadata now hlen
  · rw [heq]
    by_cases hip : ip = minted
    · subst hip
      simp [owner]
    · simp [owner, AList.lookup_insert_ne hip, Ne.symm hip]
  · rw [heq]
    simp [owner]

/-- The caches an allocation works on after its bookkeeping: the given one,
that one with a rate token taken, or that one with idle entries reclaimed. -/
def Prepared (c : VirtualIpCache) (now : ℕ) (c' : VirtualIpCache) (evicted : List IpAddr) : Prop :=
  (c' = c ∧ evicted = []) ∨
    (c' = (c.tryConsumeRateToken now).2 ∧ evicted = []) ∨
    (c' = ((c.tryConsumeRateToken now).2.reclaim now).1 ∧
      evicted = ((c.tryConsumeRateToken now).2.reclaim now).2)

theorem Sound.reclaim (h : Sound nets c) (now : ℕ) : Sound nets (c.reclaim now).1 := by
  unfold VirtualIpCache.reclaim
  split_ifs
  · exact h.evictIdleAt now
  · exact h

variable {ip : IpAddr}

theorem owner_reclaim (hip : ip ∉ (c.reclaim now).2) :
    (c.reclaim now).1.owner ip = c.owner ip := by
  unfold reclaim at hip ⊢
  split_ifs at hip ⊢
  · exact owner_evictIdleAt hip
  · rfl

theorem Prepared.sound {c' : VirtualIpCache} {evicted : List IpAddr}
    (hprep : c.Prepared now c' evicted) (h : Sound nets c) : Sound nets c' := by
  rcases hprep with ⟨rfl, rfl⟩ | ⟨rfl, rfl⟩ | ⟨rfl, rfl⟩
  · exact h
  · exact h.tryConsumeRateToken now
  · exact (h.tryConsumeRateToken now).reclaim now

theorem Prepared.owner {c' : VirtualIpCache} {evicted : List IpAddr}
    (hprep : c.Prepared now c' evicted) (hip : ip ∉ evicted) :
    c'.owner ip = c.owner ip := by
  rcases hprep with ⟨rfl, rfl⟩ | ⟨rfl, rfl⟩ | ⟨rfl, rfl⟩
  · rfl
  · simp
  · rw [owner_reclaim hip, owner_tryConsumeRateToken]

/-- An allocation finds the domain, is refused, or mints below the entry cap,
each time on a prepared cache. -/
theorem allocateAt_cases (c : VirtualIpCache) (domain : String) (metadata : Metadata)
    (base : IpAddr) (prefixLen now : ℕ) : ∃ c' evicted, c.Prepared now c' evicted ∧
      ((∃ ip, c'.domainToIp.lookup (domain, base.isIpv6) = some ip ∧
        c.allocateAt domain metadata base prefixLen now = ⟨some ip, c'.touch ip now, evicted⟩) ∨
      (c.domainToIp.lookup (domain, base.isIpv6) = none ∧
        c.allocateAt domain metadata base prefixLen now = ⟨none, c', evicted⟩) ∨
      (c'.len < c'.limits.maxEntries ∧ c'.domainToIp.lookup (domain, base.isIpv6) = none ∧
        c.allocateAt domain metadata base prefixLen now =
          ⟨(c'.mint domain metadata base prefixLen now).1,
            (c'.mint domain metadata base prefixLen now).2, evicted⟩)) := by
  cases hhit : c.domainToIp.lookup (domain, base.isIpv6) with
  | some ip => exact ⟨c, [], Or.inl ⟨rfl, rfl⟩, Or.inl ⟨ip, hhit, by simp [allocateAt, hhit]⟩⟩
  | none =>
    rcases htoken : c.tryConsumeRateToken now with ⟨_ | _, c₁⟩
    · exact ⟨c₁, [], Or.inr (Or.inl ⟨by rw [htoken], rfl⟩),
        Or.inr (Or.inl ⟨rfl, by simp [allocateAt, hhit, htoken]⟩)⟩
    · rcases hreclaim : c₁.reclaim now with ⟨c₂, evicted⟩
      refine ⟨c₂, evicted, Or.inr (Or.inr (by simp [htoken, hreclaim])), ?_⟩
      by_cases hfull : c₂.len ≥ c₂.limits.maxEntries
      · right; left
        simp [allocateAt, hhit, htoken, hreclaim, hfull]
      · cases hraced : c₂.domainToIp.lookup (domain, base.isIpv6) with
        | some ip =>
          exact Or.inl ⟨ip, rfl, by simp [allocateAt, hhit, htoken, hreclaim, hfull, hraced]⟩
        | none =>
          exact Or.inr (Or.inr ⟨not_le.mp hfull, rfl,
            by simp [allocateAt, hhit, htoken, hreclaim, hfull, hraced]⟩)

theorem Sound.allocateAt (h : Sound nets c) (hsep : Separated nets)
    (hnet : ⟨base, prefixLen⟩ ∈ nets) (hlen : prefixLen ≤ base.width) :
    Sound nets (c.allocateAt domain metadata base prefixLen now).cache := by
  obtain ⟨c', evicted, hprep, hcases⟩ := c.allocateAt_cases domain metadata base prefixLen now
  have h' := hprep.sound h
  rcases hcases with ⟨ip, _, heq⟩ | ⟨_, heq⟩ | ⟨_, hnew, heq⟩
  · rw [heq]
    exact h'.touch ip now
  · rw [heq]
    exact h'
  · rw [heq]
    exact h'.mint hsep hnet hlen hnew

theorem Sound.owner_allocated (h : Sound nets c) (hlen : prefixLen ≤ base.width)
    (hip : (c.allocateAt domain metadata base prefixLen now).ip = some ip) :
    (c.allocateAt domain metadata base prefixLen now).cache.owner ip = some domain := by
  obtain ⟨c', evicted, hprep, hcases⟩ := c.allocateAt_cases domain metadata base prefixLen now
  have h' := hprep.sound h
  rcases hcases with ⟨found, hfound, heq⟩ | ⟨_, heq⟩ | ⟨_, hnew, heq⟩
  · rw [heq] at hip ⊢
    cases hip
    obtain ⟨e, he, hkey⟩ := (h'.inverse _ _).mp hfound
    have hdomain : e.domain = domain := congrArg Prod.fst hkey
    rw [owner_touch, VirtualIpCache.owner, he, Option.map_some, hdomain]
  · rw [heq] at hip
    cases hip
  · rw [heq] at hip ⊢
    rw [owner_mint hlen, if_pos hip]

/-- An allocation takes no address away from the domain that holds it, unless
it evicted the address. -/
theorem Sound.owner_allocateAt (h : Sound nets c) (hsep : Separated nets)
    (hnet : ⟨base, prefixLen⟩ ∈ nets) (hlen : prefixLen ≤ base.width) {d : String}
    (hd : c.owner ip = some d)
    (hip : ip ∉ (c.allocateAt domain metadata base prefixLen now).evicted) :
    (c.allocateAt domain metadata base prefixLen now).cache.owner ip = some d := by
  obtain ⟨c', evicted, hprep, hcases⟩ := c.allocateAt_cases domain metadata base prefixLen now
  have h' := hprep.sound h
  rcases hcases with ⟨found, _, heq⟩ | ⟨_, heq⟩ | ⟨_, hnew, heq⟩
  · rw [heq] at hip ⊢
    rw [owner_touch, hprep.owner hip, hd]
  · rw [heq] at hip ⊢
    rw [hprep.owner hip, hd]
  · rw [heq] at hip ⊢
    have howner : c'.owner ip = some d := by rw [hprep.owner hip, hd]
    rw [owner_mint hlen, if_neg, howner]
    intro hminted
    obtain ⟨minted, hroom, hadd, hmint⟩ | ⟨n, _, _, hmint⟩ :=
      c'.mint_cases domain metadata now hlen
    · rw [hmint] at hminted
      cases hminted
      have hfresh := h'.fresh hsep hnet hroom hadd
      simp [VirtualIpCache.owner, hfresh] at howner
    · rw [hmint] at hminted
      cases hminted

end

end VirtualIpCache

end BuiltOnEnvoy.Dns
