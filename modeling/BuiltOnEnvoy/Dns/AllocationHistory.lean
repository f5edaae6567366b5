import BuiltOnEnvoy.Dns.CacheCalls

/-!
# Addresses handed out between flushes

The cache forgets an address when it evicts it, so the maps do not show whether
an address comes back. A run is therefore kept together with the addresses that
its allocations returned since the last flush.
-/

namespace BuiltOnEnvoy.Dns

open Foundations VirtualIpCache List

/-- A domain and an address family. -/
abbrev Key := String × Bool

/-- A cache and what its allocations returned since the last flush. -/
structure Generation where
  cache : VirtualIpCache
  history : List (Key × IpAddr)

namespace Generation

def start (limits : CacheLimits) : Generation := ⟨withLimits limits, []⟩

def step (s : Generation) (call : Call) : Generation :=
  match call with
  | .allocate domain metadata net now =>
    match (s.cache.allocateAt domain metadata net.addr net.prefixLen now).ip with
    | some ip => ⟨call.step s.cache, s.history ++ [((domain, net.addr.isIpv6), ip)]⟩
    | none => ⟨call.step s.cache, s.history⟩
  | .lookup _ _ => ⟨call.step s.cache, s.history⟩
  | .evictIdle _ => ⟨call.step s.cache, s.history⟩
  | .flush => ⟨call.step s.cache, []⟩

def runAll (calls : List Call) (s : Generation) : Generation :=
  calls.foldl step s

/-- What the allocations of a run returned since its last flush. -/
def returned (limits : CacheLimits) (calls : List Call) : List (Key × IpAddr) :=
  (runAll calls (start limits)).history

end Generation

/-- The addresses of a range among those returned, each where it first occurs. -/
def IpNet.handedOut (net : IpNet) (history : List (Key × IpAddr)) : List IpAddr :=
  ((history.map Prod.snd).filter (net.Covers ·)).eraseDups

theorem eraseDups_concat {α : Type*} [DecidableEq α] (l : List α) (a : α) :
    (l ++ [a]).eraseDups = if a ∈ l then l.eraseDups else l.eraseDups ++ [a] := by
  rw [eraseDups_append]
  split_ifs with hmem
  · simp [List.removeAll, hmem]
  · simp [List.removeAll, hmem, eraseDups_cons]

theorem IpNet.handedOut_concat (net : IpNet) (history : List (Key × IpAddr)) (k : Key)
    (ip : IpAddr) :
    net.handedOut (history ++ [(k, ip)]) =
      if net.Covers ip ∧ ip ∉ history.map Prod.snd then net.handedOut history ++ [ip]
      else net.handedOut history := by
  unfold handedOut
  rw [map_append, filter_append, map_singleton]
  by_cases hin : net.Covers ip
  · rw [filter_singleton, decide_eq_true hin, cond_true, eraseDups_concat]
    by_cases hmem : ip ∈ history.map Prod.snd <;> simp [mem_filter, hin, hmem]
  · simp [hin]

/-- What the history says about the cache: live mappings were returned, no
address went to two keys, and each range has handed out the offsets below its
counter one after another. -/
structure Recorded (nets : Set IpNet) (s : Generation) : Prop where
  sound : Sound nets s.cache
  live : ∀ k ip, s.cache.domainToIp.lookup k = some ip → (k, ip) ∈ s.history
  unique : ∀ k k' ip, (k, ip) ∈ s.history → (k', ip) ∈ s.history → k = k'
  minted : ∀ ip ∈ s.history.map Prod.snd, ∃ net ∈ nets, ∃ offset < s.cache.nextOf net,
    net.addr.add offset = some ip
  sequence : ∀ net ∈ nets,
    (net.handedOut s.history).map IpAddr.toNat = List.range' net.addr.toNat (s.cache.nextOf net)

section

variable {nets : Set IpNet} {s : Generation}

theorem recorded_withLimits (limits : CacheLimits) : Recorded nets ⟨withLimits limits, []⟩ where
  sound := sound_withLimits limits
  live := by simp [withLimits]
  unique := by simp
  minted := by simp
  sequence := fun _ _ => rfl

theorem Recorded.trimmed (h : Recorded nets s) {c : VirtualIpCache} (hsound : Sound nets c)
    (htrim : Trimmed s.cache c) : Recorded nets ⟨c, s.history⟩ where
  sound := hsound
  live := fun k ip hk => h.live k ip (htrim.live k ip hk)
  unique := h.unique
  minted := by
    simp only [htrim.nextOf]
    exact h.minted
  sequence := by
    simp only [htrim.nextOf]
    exact h.sequence

theorem Recorded.again (h : Recorded nets s) {k : Key} {ip : IpAddr} (hmem : (k, ip) ∈ s.history) :
    Recorded nets ⟨s.cache, s.history ++ [(k, ip)]⟩ := by
  have hsame : ∀ p, p ∈ s.history ++ [(k, ip)] ↔ p ∈ s.history := by
    intro p
    rw [mem_append, mem_singleton, or_iff_left_iff_imp]
    rintro rfl
    exact hmem
  have hip : ip ∈ s.history.map Prod.snd := List.mem_map_of_mem hmem
  refine ⟨h.sound, ?_, ?_, ?_, ?_⟩
  · intro k' ip' hlive
    exact (hsame _).mpr (h.live k' ip' hlive)
  · intro k₁ k₂ ip' h₁ h₂
    exact h.unique k₁ k₂ ip' ((hsame _).mp h₁) ((hsame _).mp h₂)
  · intro ip' hip'
    obtain ⟨p, hp, rfl⟩ := List.mem_map.mp hip'
    exact h.minted p.2 (List.mem_map_of_mem ((hsame p).mp hp))
  · intro net hnet
    rw [IpNet.handedOut_concat, if_neg (by simp [hip])]
    exact h.sequence net hnet

section

variable {c : VirtualIpCache} {domain : String} {metadata : Metadata} {net : IpNet} {ip : IpAddr}
variable {now : ℕ}

theorem Recorded.next_notMem (h : Recorded nets s) (hsep : Separated nets) (hnet : net ∈ nets)
    (hroom : s.cache.nextOf net < net.capacity)
    (hadd : net.addr.add (s.cache.nextOf net) = some ip) : ip ∉ s.history.map Prod.snd := by
  intro hmem
  obtain ⟨net', hnet', offset, hlt, hadd'⟩ := h.minted ip hmem
  exact h.sound.next_not_minted hsep hnet hnet' hroom hadd hlt hadd'

theorem Recorded.mint (h : Recorded nets s) (haligned : ∀ net ∈ nets, net.Aligned)
    (hdisjoint : nets.PairwiseDisjoint IpNet.block) (hnet : net ∈ nets)
    (htrim : Trimmed s.cache c) (hroom : c.nextOf net < net.capacity)
    (hadd : net.addr.add (c.nextOf net) = some ip)
    (hsound : Sound nets (c.minted domain metadata net ip now)) :
    Recorded nets ⟨c.minted domain metadata net ip now,
      s.history ++ [((domain, net.addr.isIpv6), ip)]⟩ := by
  have hin := (haligned net hnet).covers_of_add hroom hadd
  have hvalue : ip.toNat = net.addr.toNat + c.nextOf net := (IpAddr.add_spec hadd).2
  have hfresh : ip ∉ s.history.map Prod.snd := by
    rw [htrim.nextOf] at hroom hadd
    exact h.next_notMem (separated_of_disjoint haligned hdisjoint) hnet hroom hadd
  refine ⟨hsound, ?_, ?_, ?_, ?_⟩
  · intro k ip' hlive
    by_cases hk : k = (domain, net.addr.isIpv6)
    · subst hk
      rw [VirtualIpCache.minted, AList.lookup_insert, Option.some.injEq] at hlive
      simp [hlive]
    · rw [VirtualIpCache.minted, AList.lookup_insert_ne hk] at hlive
      exact mem_append_left _ (h.live k ip' (htrim.live k ip' hlive))
  · -- a fresh address stands in the last pair only
    have hlast : ∀ k, (k, ip) ∉ s.history := fun k hk => hfresh (List.mem_map_of_mem hk)
    intro k k' ip' hk hk'
    rw [mem_append, mem_singleton, Prod.mk.injEq] at hk hk'
    rcases hk with hk | ⟨rfl, rfl⟩
    · rcases hk' with hk' | ⟨rfl, rfl⟩
      · exact h.unique k k' ip' hk hk'
      · exact absurd hk (hlast k)
    · rcases hk' with hk' | ⟨rfl, _⟩
      · exact absurd hk' (hlast k')
      · rfl
  · intro ip' hip'
    simp only [nextOf_minted]
    rw [map_append, mem_append] at hip'
    rcases hip' with hip' | hip'
    · obtain ⟨net', hnet', offset, hlt, hadd'⟩ := h.minted ip' hip'
      rw [← htrim.nextOf] at hlt
      refine ⟨net', hnet', offset, ?_, hadd'⟩
      split_ifs with hsame
      · subst hsame
        omega
      · exact hlt
    · grind
  · intro net' hnet'
    have hsequence := h.sequence net' hnet'
    rw [← htrim.nextOf] at hsequence
    rw [nextOf_minted, IpNet.handedOut_concat]
    by_cases hsame : net' = net
    · subst hsame
      rw [if_pos ⟨hin, hfresh⟩, if_pos rfl, map_append, hsequence, range'_1_concat,
        map_singleton, hvalue]
    · have hout : ¬net'.Covers ip := fun hin' =>
        Set.disjoint_left.mp (hdisjoint hnet' hnet hsame) hin' hin
      rw [if_neg (fun hnext => hout hnext.1), if_neg hsame]
      exact hsequence

end

theorem Recorded.step (h : Recorded nets s) (haligned : ∀ net ∈ nets, net.Aligned)
    (hdisjoint : nets.PairwiseDisjoint IpNet.block) {call : Call} (hcall : call.Draws nets) :
    Recorded nets (s.step call) := by
  have hsound := Call.sound_step haligned hdisjoint h.sound hcall
  cases call with
  | allocate domain metadata net now =>
    have hcase := allocateAt_case s.cache domain metadata now (haligned net hcall)
    unfold Generation.step
    simp only [Call.step] at hsound ⊢
    generalize s.cache.allocateAt domain metadata net.addr net.prefixLen now = result
      at hcase hsound ⊢
    cases hcase with
    | found c' ip evicted htrim hfound =>
      exact (h.trimmed hsound htrim).again (h.live _ _ (htrim.live _ _ hfound))
    | refused c' evicted htrim hnew => exact h.trimmed hsound htrim
    | minted c' ip evicted htrim hcap hnew hroom hadd =>
      exact h.mint haligned hdisjoint hcall htrim hroom hadd hsound
  | lookup ip now => exact h.trimmed hsound (trimmed_touch s.cache ip now)
  | evictIdle now => exact h.trimmed hsound (trimmed_evictIdleAt s.cache now)
  | flush => exact recorded_withLimits s.cache.limits

theorem Recorded.runAll (h : Recorded nets s) (haligned : ∀ net ∈ nets, net.Aligned)
    (hdisjoint : nets.PairwiseDisjoint IpNet.block) (calls : List Call)
    (hcalls : ∀ call ∈ calls, call.Draws nets) : Recorded nets (Generation.runAll calls s) := by
  induction calls generalizing s with
  | nil => exact h
  | cons call calls ih =>
    rw [forall_mem_cons] at hcalls
    exact ih (h.step haligned hdisjoint hcalls.1) hcalls.2

end

/-- Between two flushes no address is returned for two keys, every returned
address lies in a range, and each range hands out its base and the addresses
that follow one after another, up to its capacity. -/
theorem addresses_not_reused (nets : Set IpNet) (haligned : ∀ net ∈ nets, net.Aligned)
    (hdisjoint : nets.PairwiseDisjoint IpNet.block) (limits : CacheLimits) (calls : List Call)
    (hcalls : ∀ call ∈ calls, call.Draws nets) :
    (∀ k k' ip, (k, ip) ∈ Generation.returned limits calls →
        (k', ip) ∈ Generation.returned limits calls → k = k') ∧
      (∀ k ip, (k, ip) ∈ Generation.returned limits calls → ∃ net ∈ nets, ip ∈ net.block) ∧
      ∀ net ∈ nets, ∃ n ≤ min (2 ^ (net.addr.width - net.prefixLen)) (2 ^ 64 - 1),
        (net.handedOut (Generation.returned limits calls)).map IpAddr.toNat =
          List.range' net.addr.toNat n := by
  have h : Recorded nets (Generation.runAll calls (.start limits)) :=
    (recorded_withLimits limits).runAll haligned hdisjoint calls hcalls
  refine ⟨h.unique, ?_, ?_⟩
  · intro k ip hmem
    obtain ⟨net, hnet, offset, hlt, hadd⟩ := h.minted ip (List.mem_map_of_mem hmem)
    exact ⟨net, hnet, (haligned net hnet).covers_of_add (hlt.trans_le (h.sound.bounded net)) hadd⟩
  · intro net hnet
    refine ⟨_, ?_, h.sequence net hnet⟩
    exact (h.sound.bounded net).trans_eq net.capacity_eq

/-- A domain is evicted and comes back after another one. -/
def churnCalls : List Call :=
  [.allocate "a" [] ⟨.v4 0x0a000000#32, 30⟩ 0, .evictIdle 3600000,
    .allocate "b" [] ⟨.v4 0x0a000000#32, 30⟩ 3600000,
    .allocate "b" [] ⟨.v6 0xfd00#128, 126⟩ 3600000,
    .allocate "a" [] ⟨.v4 0x0a000000#32, 30⟩ 3600001,
    .allocate "b" [] ⟨.v4 0x0a000000#32, 30⟩ 3600002]

theorem smallRanges_not_reused :
    Generation.returned .default churnCalls =
        [(("a", false), .v4 0x0a000000#32), (("b", false), .v4 0x0a000001#32),
          (("b", true), .v6 0xfd00#128), (("a", false), .v4 0x0a000002#32),
          (("b", false), .v4 0x0a000001#32)] ∧
      ∀ k k' ip, (k, ip) ∈ Generation.returned .default churnCalls →
        (k', ip) ∈ Generation.returned .default churnCalls → k = k' := by
  have hcalls : ∀ call ∈ churnCalls, call.Draws smallRanges := by
    simp [churnCalls, Call.Draws, smallRanges]
  exact ⟨by decide +kernel,
    (addresses_not_reused smallRanges smallRanges_aligned smallRanges_disjoint .default churnCalls
      hcalls).1⟩

end BuiltOnEnvoy.Dns
