import BuiltOnEnvoy.Dns.CacheInvariant

/-!
# Runs of cache calls

The calls of the virtual IP cache with the ranges they draw on, for a set of
aligned and disjoint ranges. In every run the maps stay within the entry cap, a
known domain keeps its address, and a refused allocation stores nothing.
-/

namespace BuiltOnEnvoy.Dns

open Foundations VirtualIpCache List

namespace IpNet

/-- The length fits the family and the base has no host bits. -/
structure Aligned (net : IpNet) : Prop where
  length : net.prefixLen ≤ net.addr.width
  base : 2 ^ net.hostBits ∣ net.addr.toNat

theorem capacity_eq (net : IpNet) : net.capacity = min (2 ^ net.hostBits) (2 ^ 64 - 1) := by
  simp only [capacity, cidrCapacity, IpNet.hostBits, u64Max]
  split_ifs with hsmall
  · rfl
  · have hlarge : 2 ^ 128 ≤ 2 ^ (net.addr.width - net.prefixLen) :=
      Nat.pow_le_pow_right (by decide) (by omega)
    omega

theorem lt_of_lt_capacity {net : IpNet} {offset : ℕ} (h : offset < net.capacity) :
    offset < 2 ^ net.hostBits := by
  rw [capacity_eq] at h
  exact lt_of_lt_of_le h (min_le_left _ _)

theorem Aligned.add_eq_some {net : IpNet} (h : net.Aligned) {offset : ℕ}
    (hoffset : offset < net.capacity) : ∃ ip, net.addr.add offset = some ip := by
  obtain ⟨k, hk⟩ := h.base
  have hlt := lt_of_lt_capacity hoffset
  have hsplit : 2 ^ net.addr.width = 2 ^ net.hostBits * 2 ^ net.prefixLen := by
    rw [← pow_add, IpNet.hostBits, Nat.sub_add_cancel h.length]
  have hbase : net.addr.toNat < 2 ^ net.addr.width := net.addr.toNat_lt
  have hk' : k + 1 ≤ 2 ^ net.prefixLen := by
    rw [hk, hsplit] at hbase
    exact Nat.lt_of_mul_lt_mul_left hbase
  have hroom : net.addr.toNat + offset < 2 ^ net.addr.width :=
    calc net.addr.toNat + offset < 2 ^ net.hostBits * k + 2 ^ net.hostBits := by omega
      _ = 2 ^ net.hostBits * (k + 1) := by ring
      _ ≤ 2 ^ net.addr.width := by
        rw [hsplit]
        exact Nat.mul_le_mul_left _ hk'
  exact IpAddr.add_of_lt hroom

theorem Aligned.covers_of_add {net : IpNet} (h : net.Aligned) {offset : ℕ}
    (hoffset : offset < net.capacity) {ip : IpAddr} (hadd : net.addr.add offset = some ip) :
    net.Covers ip := by
  obtain ⟨hfamily, hvalue⟩ := IpAddr.add_spec hadd
  obtain ⟨k, hk⟩ := h.base
  have hlt := lt_of_lt_capacity hoffset
  have hpos : 0 < 2 ^ net.hostBits := Nat.two_pow_pos _
  have hprefix : ip.toNat / 2 ^ net.hostBits = net.addr.toNat / 2 ^ net.hostBits := by
    rw [hvalue, hk, Nat.mul_add_div hpos, Nat.div_eq_of_lt hlt, Nat.mul_div_cancel_left _ hpos,
      Nat.add_zero]
  exact ⟨hfamily, hprefix⟩

end IpNet

theorem IpNet.disjoint_of_family {a b : IpNet} (h : a.addr.isIpv6 ≠ b.addr.isIpv6) :
    Disjoint a.block b.block := by
  refine Set.disjoint_left.mpr ?_
  intro ip ha hb
  exact h (ha.1.symm.trans hb.1)

theorem separated_of_disjoint {nets : Set IpNet} (haligned : ∀ net ∈ nets, net.Aligned)
    (hdisjoint : nets.PairwiseDisjoint IpNet.block) : Separated nets := by
  intro a ha b hb hne
  refine Set.disjoint_left.mpr ?_
  intro ip ⟨i, hi, hadd⟩ ⟨j, hj, hadd'⟩
  exact Set.disjoint_left.mp (hdisjoint ha hb hne)
    ((haligned a ha).covers_of_add hi hadd) ((haligned b hb).covers_of_add hj hadd')

/-- The calls of the cache. An allocation draws on a range. -/
inductive Call
  | allocate (domain : String) (metadata : Metadata) (net : IpNet) (now : ℕ)
  | lookup (ip : IpAddr) (now : ℕ)
  | evictIdle (now : ℕ)
  | flush
  deriving DecidableEq, Repr

namespace Call

def step (c : VirtualIpCache) : Call → VirtualIpCache
  | allocate domain metadata net now =>
    (c.allocateAt domain metadata net.addr net.prefixLen now).cache
  | lookup ip now => (c.lookup ip now).2
  | evictIdle now => (c.evictIdleAt now).1
  | flush => c.flush

def runAll (calls : List Call) (c : VirtualIpCache) : VirtualIpCache :=
  calls.foldl step c

/-- Allocations draw on these ranges. -/
def Draws (nets : Set IpNet) : Call → Prop
  | allocate _ _ net _ => net ∈ nets
  | _ => True

end Call

/-- The cache after a run of calls that draw on the ranges. -/
def Reachable (nets : Set IpNet) (limits : CacheLimits) (c : VirtualIpCache) : Prop :=
  ∃ calls : List Call, (∀ call ∈ calls, call.Draws nets) ∧
    Call.runAll calls (withLimits limits) = c

section

variable {nets : Set IpNet} (haligned : ∀ net ∈ nets, net.Aligned)
variable (hdisjoint : nets.PairwiseDisjoint IpNet.block)

include haligned hdisjoint

theorem Call.sound_step {c : VirtualIpCache} (h : Sound nets c) {call : Call}
    (hcall : call.Draws nets) : Sound nets (call.step c) := by
  cases call with
  | allocate domain metadata net now =>
    exact h.allocateAt (separated_of_disjoint haligned hdisjoint) hcall (haligned net hcall).length
  | lookup ip now => exact h.touch ip now
  | evictIdle now => exact h.evictIdleAt now
  | flush => exact sound_flush c

theorem Call.sound_runAll {c : VirtualIpCache} (calls : List Call)
    (hcalls : ∀ call ∈ calls, call.Draws nets) (h : Sound nets c) :
    Sound nets (Call.runAll calls c) := by
  induction calls generalizing c with
  | nil => exact h
  | cons call calls ih =>
    rw [forall_mem_cons] at hcalls
    exact ih hcalls.2 (Call.sound_step haligned hdisjoint h hcalls.1)

end

namespace VirtualIpCache

/-- Only mappings of the first cache are left, and no counter has moved. -/
structure Trimmed (c c' : VirtualIpCache) : Prop where
  live : ∀ k ip, c'.domainToIp.lookup k = some ip → c.domainToIp.lookup k = some ip
  nextOf : ∀ net, c'.nextOf net = c.nextOf net
  limits : c'.limits = c.limits
  len : c'.len ≤ c.len

variable {c c₁ c₂ : VirtualIpCache}

theorem Trimmed.refl (c : VirtualIpCache) : Trimmed c c :=
  ⟨fun _ _ h => h, fun _ => rfl, rfl, le_refl _⟩

theorem Trimmed.trans (h : Trimmed c c₁) (h' : Trimmed c₁ c₂) : Trimmed c c₂ where
  live := fun k ip hk => h.live k ip (h'.live k ip hk)
  nextOf := fun net => (h'.nextOf net).trans (h.nextOf net)
  limits := h'.limits.trans h.limits
  len := h'.len.trans h.len

theorem len_eq (c : VirtualIpCache) : c.len = c.ipToDest.keys.length := by
  simp [len, AList.keys, List.keys]

theorem trimmed_touch (c : VirtualIpCache) (ip : IpAddr) (now : ℕ) :
    Trimmed c (c.touch ip now) := by
  unfold touch
  split
  · exact Trimmed.refl c
  · next e he =>
    refine ⟨fun _ _ h => h, fun _ => rfl, rfl, ?_⟩
    have hmem : ip ∈ c.ipToDest.keys := AList.mem_keys.mp (AList.lookup_isSome.mp (by simp [he]))
    have hpos : 0 < c.ipToDest.keys.length := length_pos_of_mem hmem
    simp only [len_eq, AList.keys_insert, length_cons, length_erase_of_mem hmem]
    omega

@[simp] theorem domainToIp_touch (c : VirtualIpCache) (ip : IpAddr) (now : ℕ) :
    (c.touch ip now).domainToIp = c.domainToIp := by
  unfold touch
  split <;> rfl

theorem trimmed_tryConsumeRateToken (c : VirtualIpCache) (now : ℕ) :
    Trimmed c (c.tryConsumeRateToken now).2 := by
  obtain ⟨hip, hdomain, hoffsets⟩ := c.tryConsumeRateToken_maps now
  refine ⟨?_, fun net => by simp only [nextOf, hoffsets], c.tryConsumeRateToken_limits now, ?_⟩
  · intro k ip hk
    rwa [hdomain] at hk
  · rw [len, hip, len]

theorem trimmed_removeStale (c : VirtualIpCache) (s : IpAddr × (String × Bool)) :
    Trimmed c (c.removeStale s) where
  live := by
    intro k ip hk
    simp only [removeStale] at hk
    split_ifs at hk with hpoint
    · by_cases hne : k = s.2
      · rw [hne, AList.lookup_erase] at hk
        cases hk
      · rwa [AList.lookup_erase_ne hne] at hk
    · exact hk
  nextOf := fun _ => rfl
  limits := rfl
  len := by
    simp only [len_eq, removeStale, AList.keys_erase]
    exact length_erase_le

theorem trimmed_foldl_removeStale (stale : List (IpAddr × (String × Bool))) (c : VirtualIpCache) :
    Trimmed c (stale.foldl removeStale c) := by
  induction stale generalizing c with
  | nil => exact Trimmed.refl c
  | cons s rest ih => exact (trimmed_removeStale c s).trans (ih _)

theorem trimmed_evictIdleAt (c : VirtualIpCache) (now : ℕ) :
    Trimmed c (c.evictIdleAt now).1 := by
  unfold evictIdleAt
  split_ifs
  · exact Trimmed.refl c
  · exact trimmed_foldl_removeStale _ c

theorem trimmed_reclaim (c : VirtualIpCache) (now : ℕ) : Trimmed c (c.reclaim now).1 := by
  unfold reclaim
  split_ifs
  · exact trimmed_evictIdleAt c now
  · exact Trimmed.refl c

theorem Prepared.trimmed {now : ℕ} {evicted : List IpAddr} (h : c.Prepared now c₁ evicted) :
    Trimmed c c₁ := by
  rcases h with ⟨rfl, rfl⟩ | ⟨rfl, rfl⟩ | ⟨rfl, rfl⟩
  · exact Trimmed.refl _
  · exact trimmed_tryConsumeRateToken _ now
  · exact (trimmed_tryConsumeRateToken _ now).trans (trimmed_reclaim _ now)

/-- The cache after a new address was stored and its counter moved. -/
def minted (c : VirtualIpCache) (domain : String) (metadata : Metadata) (net : IpNet)
    (ip : IpAddr) (now : ℕ) : VirtualIpCache :=
  { c with
    ipToDest := c.ipToDest.insert ip ⟨domain, metadata, now⟩
    domainToIp := c.domainToIp.insert (domain, net.addr.isIpv6) ip
    offsets := c.offsets.insert net (c.nextOf net + 1) }

theorem nextOf_minted (c : VirtualIpCache) (domain : String) (metadata : Metadata) (net : IpNet)
    (ip : IpAddr) (now : ℕ) (net' : IpNet) :
    (c.minted domain metadata net ip now).nextOf net' =
      if net' = net then c.nextOf net + 1 else c.nextOf net' :=
  c.nextOf_insert net net' (c.nextOf net + 1)

/-- What an allocation from an aligned range does to a trimmed cache: it finds
the domain, stores nothing, or mints the next address of the range. -/
inductive AllocationCase (c : VirtualIpCache) (domain : String) (metadata : Metadata)
    (net : IpNet) (now : ℕ) : Allocation → Prop
  | found (c' : VirtualIpCache) (ip : IpAddr) (evicted : List IpAddr) (htrim : Trimmed c c')
      (hfound : c'.domainToIp.lookup (domain, net.addr.isIpv6) = some ip) :
      AllocationCase c domain metadata net now ⟨some ip, c', evicted⟩
  | refused (c' : VirtualIpCache) (evicted : List IpAddr) (htrim : Trimmed c c')
      (hnew : c'.domainToIp.lookup (domain, net.addr.isIpv6) = none) :
      AllocationCase c domain metadata net now ⟨none, c', evicted⟩
  | minted (c' : VirtualIpCache) (ip : IpAddr) (evicted : List IpAddr) (htrim : Trimmed c c')
      (hcap : c'.len < c'.limits.maxEntries)
      (hnew : c'.domainToIp.lookup (domain, net.addr.isIpv6) = none)
      (hroom : c'.nextOf net < net.capacity) (hadd : net.addr.add (c'.nextOf net) = some ip) :
      AllocationCase c domain metadata net now
        ⟨some ip, c'.minted domain metadata net ip now, evicted⟩

theorem allocateAt_case (c : VirtualIpCache) (domain : String) (metadata : Metadata) {net : IpNet}
    (now : ℕ) (h : net.Aligned) :
    AllocationCase c domain metadata net now
      (c.allocateAt domain metadata net.addr net.prefixLen now) := by
  obtain ⟨c', evicted, hprep, hcases⟩ :=
    c.allocateAt_cases domain metadata net.addr net.prefixLen now
  have htrim := hprep.trimmed
  rcases hcases with ⟨ip, hfound, heq⟩ | ⟨hnew, heq⟩ | ⟨hcap, hnew, heq⟩
  · rw [heq]
    have htouch := trimmed_touch c' ip now
    refine .found _ ip evicted (htrim.trans htouch) ?_
    rwa [domainToIp_touch]
  · rw [heq]
    refine .refused _ evicted htrim ?_
    rw [Option.eq_none_iff_forall_not_mem] at hnew ⊢
    intro ip hip
    exact hnew ip (htrim.live _ _ hip)
  · rw [heq]
    by_cases hroom : c'.nextOf net < net.capacity
    · obtain ⟨ip, hadd⟩ := h.add_eq_some hroom
      rw [mint_some h.length hroom hadd]
      exact .minted c' ip evicted htrim hcap hnew hroom hadd
    · rw [mint_exhausted domain metadata now h.length hroom]
      refine .refused _ evicted (htrim.trans ⟨fun _ _ hk => hk, ?_, rfl, le_refl _⟩) hnew
      intro net'
      rw [nextOf_insert]
      split_ifs with hnet
      · rw [hnet]
      · rfl

theorem len_minted_le (c : VirtualIpCache) (domain : String) (metadata : Metadata) (net : IpNet)
    (ip : IpAddr) (now : ℕ) : (c.minted domain metadata net ip now).len ≤ c.len + 1 := by
  simp only [len_eq, minted, AList.keys_insert, length_cons]
  exact Nat.succ_le_succ length_erase_le

/-- The cache runs under these limits and is not above the cap. -/
structure Within (limits : CacheLimits) (c : VirtualIpCache) : Prop where
  limits_eq : c.limits = limits
  len_le : c.len ≤ limits.maxEntries

variable {limits : CacheLimits}

theorem Within.trimmed (h : Within limits c) (htrim : Trimmed c c₁) : Within limits c₁ :=
  ⟨htrim.limits.trans h.limits_eq, htrim.len.trans h.len_le⟩

theorem Within.step (h : Within limits c) {nets : Set IpNet}
    (haligned : ∀ net ∈ nets, net.Aligned) {call : Call} (hcall : call.Draws nets) :
    Within limits (call.step c) := by
  cases call with
  | allocate domain metadata net now =>
    have hcase := allocateAt_case c domain metadata now (haligned net hcall)
    simp only [Call.step]
    generalize c.allocateAt domain metadata net.addr net.prefixLen now = result at hcase ⊢
    cases hcase with
    | found c' ip evicted htrim hfound => exact h.trimmed htrim
    | refused c' evicted htrim hnew => exact h.trimmed htrim
    | minted c' ip evicted htrim hcap hnew hroom hadd =>
      have hlimits := (h.trimmed htrim).limits_eq
      have hlen := c'.len_minted_le domain metadata net ip now
      rw [hlimits] at hcap
      exact ⟨hlimits, hlen.trans hcap⟩
  | lookup ip now => exact h.trimmed (trimmed_touch c ip now)
  | evictIdle now => exact h.trimmed (trimmed_evictIdleAt c now)
  | flush => exact ⟨h.limits_eq, Nat.zero_le _⟩

theorem Within.runAll (h : Within limits c) {nets : Set IpNet}
    (haligned : ∀ net ∈ nets, net.Aligned) (calls : List Call)
    (hcalls : ∀ call ∈ calls, call.Draws nets) : Within limits (Call.runAll calls c) := by
  induction calls generalizing c with
  | nil => exact h
  | cons call calls ih =>
    rw [forall_mem_cons] at hcalls
    exact ih (h.step haligned hcalls.1) hcalls.2

/-- Neither map mentions the key. -/
def Free (c : VirtualIpCache) (k : String × Bool) : Prop :=
  c.domainToIp.lookup k = none ∧ ∀ ip e, c.ipToDest.lookup ip = some e → keyOf ip e ≠ k

theorem MapsInverse.free (h : c.MapsInverse) {k : String × Bool}
    (hk : c.domainToIp.lookup k = none) : c.Free k := by
  refine ⟨hk, ?_⟩
  intro ip e he hkey
  have hlive : c.domainToIp.lookup k = some ip := (h k ip).mpr ⟨e, he, hkey⟩
  rw [hk] at hlive
  cases hlive

theorem allocateAt_of_live {domain : String} {base ip : IpAddr}
    (h : c.domainToIp.lookup (domain, base.isIpv6) = some ip) (metadata : Metadata)
    (prefixLen now : ℕ) : (c.allocateAt domain metadata base prefixLen now).ip = some ip := by
  simp [allocateAt, h]

theorem refused_of_ip_none {domain : String} {metadata : Metadata} {net : IpNet} {now : ℕ}
    (hnet : net.Aligned)
    (h : (c.allocateAt domain metadata net.addr net.prefixLen now).ip = none) :
    Trimmed c (c.allocateAt domain metadata net.addr net.prefixLen now).cache ∧
      (c.allocateAt domain metadata net.addr net.prefixLen now).cache.domainToIp.lookup
        (domain, net.addr.isIpv6) = none := by
  have hcase := allocateAt_case c domain metadata now hnet
  generalize c.allocateAt domain metadata net.addr net.prefixLen now = result at hcase h ⊢
  cases hcase with
  | found c' ip evicted htrim hfound => cases h
  | refused c' evicted htrim hnew => exact ⟨htrim, hnew⟩
  | minted c' ip evicted htrim hcap hnew hroom hadd => cases h

end VirtualIpCache

/-- In every run both maps stay within the entry cap, a live key keeps its
address whatever the cap and the rate limiter say, and a refused allocation
adds no mapping and leaves neither map with the refused key. -/
theorem cache_bounded_and_available (nets : Set IpNet) (haligned : ∀ net ∈ nets, net.Aligned)
    (hdisjoint : nets.PairwiseDisjoint IpNet.block) (limits : CacheLimits) (c : VirtualIpCache)
    (hreach : Reachable nets limits c) :
    (c.ipToDest.keys.length ≤ limits.maxEntries ∧ c.domainToIp.keys.length ≤ limits.maxEntries) ∧
      (∀ domain metadata base prefixLen now ip,
        c.domainToIp.lookup (domain, base.isIpv6) = some ip →
        (c.allocateAt domain metadata base prefixLen now).ip = some ip) ∧
      ∀ domain metadata net now, net ∈ nets →
        (c.allocateAt domain metadata net.addr net.prefixLen now).ip = none →
        (c.allocateAt domain metadata net.addr net.prefixLen now).cache.Free
            (domain, net.addr.isIpv6) ∧
          ∀ k ip, (c.allocateAt domain metadata net.addr net.prefixLen now).cache.domainToIp.lookup
            k = some ip → c.domainToIp.lookup k = some ip := by
  obtain ⟨calls, hcalls, rfl⟩ := hreach
  have hsound := Call.sound_runAll haligned hdisjoint calls hcalls (sound_withLimits limits)
  have hempty : Within limits (withLimits limits) := ⟨rfl, Nat.zero_le _⟩
  have hwithin := (hempty.runAll haligned calls hcalls).len_le
  rw [len_eq] at hwithin
  refine ⟨⟨hwithin, hsound.inverse.length_le.trans hwithin⟩, ?_, ?_⟩
  · intro domain metadata base prefixLen now ip hlive
    exact allocateAt_of_live hlive metadata prefixLen now
  · intro domain metadata net now hnet hrefused
    obtain ⟨htrim, hnew⟩ := refused_of_ip_none (haligned net hnet) hrefused
    have hcall : (Call.allocate domain metadata net now).Draws nets := hnet
    have hsound' := Call.sound_step haligned hdisjoint hsound hcall
    exact ⟨hsound'.inverse.free hnew, htrim.live⟩

/-- A range of each family. -/
def smallRanges : Set IpNet := {⟨.v4 0x0a000000#32, 30⟩, ⟨.v6 0xfd00#128, 126⟩}

theorem smallRanges_aligned : ∀ net ∈ smallRanges, net.Aligned := by
  rintro net (rfl | rfl)
  · exact ⟨by decide, by decide⟩
  · exact ⟨by decide, by decide⟩

theorem smallRanges_disjoint : smallRanges.PairwiseDisjoint IpNet.block := by
  rintro net (rfl | rfl) net' (rfl | rfl) hne
  · exact absurd rfl hne
  · exact IpNet.disjoint_of_family (by decide)
  · exact IpNet.disjoint_of_family (by decide)
  · exact absurd rfl hne

/-- One allocation a second, four entries. -/
def slowLimits : CacheLimits :=
  { maxEntries := 4, idleTtl := 10 ^ 9, maxAllocsPerWindow := 1, rateWindow := 10 ^ 9 }

/-- A domain that holds an IPv6 address only. -/
def singleStack : VirtualIpCache :=
  Call.runAll [.allocate "a" [] ⟨.v6 0xfd00#128, 126⟩ 1000] (withLimits slowLimits)

theorem reachable_singleStack : Reachable smallRanges slowLimits singleStack :=
  ⟨[.allocate "a" [] ⟨.v6 0xfd00#128, 126⟩ 1000], by simp [Call.Draws, smallRanges], rfl⟩

theorem singleStack_bounded_and_available :
    singleStack.domainToIp.keys.length ≤ 4 ∧
      (singleStack.allocateAt "a" [] (.v6 0xfd00#128) 126 1001).ip = some (.v6 0xfd00#128) ∧
      (singleStack.allocateAt "b" [] (.v6 0xfd00#128) 126 1001).cache.Free ("b", true) := by
  obtain ⟨hbound, hlive, hrefused⟩ := cache_bounded_and_available smallRanges smallRanges_aligned
    smallRanges_disjoint slowLimits singleStack reachable_singleStack
  refine ⟨hbound.2, hlive "a" [] (.v6 0xfd00#128) 126 1001 _ (by decide +kernel), ?_⟩
  exact (hrefused "b" [] ⟨.v6 0xfd00#128, 126⟩ 1001 (by simp [smallRanges]) (by decide +kernel)).1

/-- An IPv4 allocation of the domain is refused, and both maps still mention
the domain: it keeps its IPv6 address. -/
theorem refused_domain_keeps_other_family :
    Reachable smallRanges slowLimits singleStack ∧
      (singleStack.allocateAt "a" [] (.v4 0x0a000000#32) 30 1001).ip = none ∧
      (singleStack.allocateAt "a" [] (.v4 0x0a000000#32) 30 1001).cache.domainToIp.lookup
        ("a", true) = some (.v6 0xfd00#128) ∧
      ((singleStack.allocateAt "a" [] (.v4 0x0a000000#32) 30 1001).cache.ipToDest.lookup
        (.v6 0xfd00#128)).map CacheEntry.domain = some "a" :=
  ⟨reachable_singleStack, by decide +kernel, by decide +kernel, by decide +kernel⟩

end BuiltOnEnvoy.Dns
