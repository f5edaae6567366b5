import BuiltOnEnvoy.Dns.CacheInvariant

/-!
# Virtual addresses identify domains

Runs of the cache under one gateway configuration. The maps stay mutually
inverse in every run exactly when different configured ranges share no address
that can be handed out.
-/

namespace BuiltOnEnvoy.Dns

open Foundations VirtualIpCache List

/-- The operations on the cache. An allocation draws on a matcher's range. -/
inductive Op
  | allocate (domain : String) (matcher : DomainMatcher) (now : ℕ)
  | lookup (ip : IpAddr) (now : ℕ)
  | evictIdle (now : ℕ)
  | flush
  deriving Repr

/-- The cache after an operation and the addresses it evicted or flushed. -/
def Op.step (c : VirtualIpCache) : Op → VirtualIpCache × List IpAddr
  | allocate domain m now => ((m.allocate domain now c).cache, (m.allocate domain now c).evicted)
  | lookup ip now => ((c.lookup ip now).2, [])
  | evictIdle now => c.evictIdleAt now
  | flush => (c.flush, c.ipToDest.keys)

/-- The cache after a run and every address dropped on the way. -/
def run : List Op → VirtualIpCache → VirtualIpCache × List IpAddr
  | [], c => (c, [])
  | op :: ops, c => ((run ops (op.step c).1).1, (op.step c).2 ++ (run ops (op.step c).1).2)

/-- Allocations use matchers of the configuration. -/
def Op.Issued (g : DnsGateway) : Op → Prop
  | allocate _ m _ => m ∈ g.domains
  | _ => True

def DnsGateway.ranges (g : DnsGateway) : Set IpNet :=
  {net | ∃ m ∈ g.domains, m.range? = some net}

theorem run_append (ops ops' : List Op) (c : VirtualIpCache) :
    (run (ops ++ ops') c).1 = (run ops' (run ops c).1).1 := by
  induction ops generalizing c with
  | nil => rfl
  | cons op ops ih => exact ih _

theorem DomainMatcher.allocate_of_range {m : DomainMatcher} {net : IpNet}
    (hnet : m.range? = some net) (hlen : net.prefixLen ≤ net.addr.width) (domain : String)
    (now : ℕ) (c : VirtualIpCache) :
    m.allocate domain now c =
      c.allocateAt domain m.metadata net.addr net.prefixLen now := by
  unfold range? at hnet
  cases hbase : m.parseBaseIp with
  | none => simp [hbase] at hnet
  | some base =>
    rw [hbase, Option.map_some, Option.some.injEq] at hnet
    subst hnet
    have hwidth : base.width ≤ 128 := by cases base <;> simp [IpAddr.width]
    have hbyte : m.prefixLen % 2 ^ 8 = m.prefixLen := by
      apply Nat.mod_eq_of_lt
      simp only at hlen
      omega
    rw [allocate, hbase, hbyte]

section

variable {fromUtf8 : NameSyntax} (g : DnsGatewayFilterConfig fromUtf8)
variable {c : VirtualIpCache} {m : DomainMatcher}

theorem DnsGatewayFilterConfig.range_of_mem (hm : m ∈ g.config.domains) :
    ∃ net ∈ g.config.ranges, m.range? = some net ∧ net.prefixLen ≤ net.addr.width := by
  obtain ⟨net, hnet, _, hlen⟩ := DomainMatcher.range_of_valid (g.valid m hm)
  exact ⟨net, ⟨m, hm, hnet⟩, hnet, hlen⟩

variable (hsep : Separated g.config.ranges)

include hsep

theorem sound_step (h : Sound g.config.ranges c) {op : Op} (hop : op.Issued g.config) :
    Sound g.config.ranges (op.step c).1 := by
  cases op with
  | allocate domain m now =>
    obtain ⟨net, hmem, hnet, hlen⟩ := g.range_of_mem hop
    simp only [Op.step, DomainMatcher.allocate_of_range hnet hlen]
    exact h.allocateAt hsep hmem hlen
  | lookup ip now => exact h.touch ip now
  | evictIdle now => exact h.evictIdleAt now
  | flush => exact sound_flush c

theorem sound_run (ops : List Op) (hops : ∀ op ∈ ops, op.Issued g.config)
    (h : Sound g.config.ranges c) : Sound g.config.ranges (run ops c).1 := by
  induction ops generalizing c with
  | nil => exact h
  | cons op ops ih =>
    rw [forall_mem_cons] at hops
    exact ih hops.2 (sound_step g hsep h hops.1)

theorem owner_step (h : Sound g.config.ranges c) {op : Op} (hop : op.Issued g.config)
    {ip : IpAddr} {d : String} (hd : c.owner ip = some d) (hip : ip ∉ (op.step c).2) :
    (op.step c).1.owner ip = some d := by
  cases op with
  | allocate domain m now =>
    obtain ⟨net, hmem, hnet, hlen⟩ := g.range_of_mem hop
    simp only [Op.step, DomainMatcher.allocate_of_range hnet hlen] at hip ⊢
    exact h.owner_allocateAt hsep hmem hlen hd hip
  | lookup ip' now =>
    rw [← hd]
    exact owner_touch c ip' ip now
  | evictIdle now =>
    rw [← hd]
    exact owner_evictIdleAt hip
  | flush =>
    -- a flush drops every address that has an owner
    have hmem : ip ∈ c.ipToDest := by
      rw [← AList.lookup_isSome]
      unfold owner at hd
      cases he : c.ipToDest.lookup ip with
      | none => simp [he] at hd
      | some e => rfl
    exact absurd (AList.mem_keys.mp hmem) hip

theorem owner_run (ops : List Op) (hops : ∀ op ∈ ops, op.Issued g.config)
    (h : Sound g.config.ranges c) {ip : IpAddr} {d : String} (hd : c.owner ip = some d)
    (hip : ip ∉ (run ops c).2) : (run ops c).1.owner ip = some d := by
  induction ops generalizing c with
  | nil => exact hd
  | cons op ops ih =>
    rw [forall_mem_cons] at hops
    rw [run, mem_append, not_or] at hip
    exact ih hops.2 (sound_step g hsep h hops.1) (owner_step g hsep h hops.1 hd hip.1) hip.2

end

/-- Limits under which a run can move the counter of a range as far as it likes
and leave the maps empty: allocate at time zero, evict one millisecond later. -/
def churnLimits : CacheLimits :=
  { maxEntries := 2, idleTtl := 10 ^ 6, maxAllocsPerWindow := 1, rateWindow := 0 }

/-- An empty cache under `churnLimits` with the given counters. -/
structure Drained (counters : IpNet → ℕ) (c : VirtualIpCache) : Prop where
  ipToDest : c.ipToDest = ∅
  domainToIp : c.domainToIp = ∅
  limits : c.limits = churnLimits
  nextOf : ∀ net, c.nextOf net = counters net

section

variable {c : VirtualIpCache} {m : DomainMatcher} {net : IpNet} {ip : IpAddr}

/-- The cache after a new pair was stored and a counter moved. -/
def stored (c : VirtualIpCache) (m : DomainMatcher) (net : IpNet) (ip : IpAddr)
    (domain : String) : VirtualIpCache :=
  { c with
    ipToDest := c.ipToDest.insert ip ⟨domain, m.metadata, 0⟩
    domainToIp := c.domainToIp.insert (domain, net.addr.isIpv6) ip
    offsets := c.offsets.insert net (c.nextOf net + 1) }

theorem allocate_of_room (hlimits : c.limits = churnLimits) (hlen : c.len < 2)
    (hnet : m.range? = some net) (hwidth : net.prefixLen ≤ net.addr.width) {domain : String}
    (hnew : c.domainToIp.lookup (domain, net.addr.isIpv6) = none)
    (hroom : c.nextOf net < net.capacity) (hadd : net.addr.add (c.nextOf net) = some ip) :
    m.allocate domain 0 c = ⟨some ip, stored c m net ip domain, []⟩ := by
  have htoken : c.tryConsumeRateToken 0 = (true, c) := by
    simp [tryConsumeRateToken, hlimits, churnLimits, asMillis]
  have hreclaim : c.reclaim 0 = (c, []) := by
    simp [reclaim, hlimits, churnLimits, hlen]
  have hfull : ¬c.len ≥ c.limits.maxEntries := by
    simpa [hlimits, churnLimits] using hlen
  rw [DomainMatcher.allocate_of_range hnet hwidth]
  simp [allocateAt, hnew, htoken, hreclaim, hfull, mint_some hwidth hroom hadd, stored]

theorem nextOf_stored (c : VirtualIpCache) (m : DomainMatcher) (net : IpNet) (ip : IpAddr)
    (domain : String) (net' : IpNet) :
    (stored c m net ip domain).nextOf net' =
      if net' = net then c.nextOf net + 1 else c.nextOf net' :=
  c.nextOf_insert net net' (c.nextOf net + 1)

/-- An allocation at time zero and an eviction one millisecond later. -/
def churn (m : DomainMatcher) (domain : String) (c : VirtualIpCache) : VirtualIpCache :=
  ((m.allocate domain 0 c).cache.evictIdleAt 1).1

variable {counters : IpNet → ℕ}

section

variable (hnet : m.range? = some net) (hwidth : net.prefixLen ≤ net.addr.width)
include hnet hwidth

theorem Drained.churn (h : Drained counters c) (domain : String)
    (hroom : counters net < net.capacity) (hadd : net.addr.add (counters net) = some ip) :
    Drained (Function.update counters net (counters net + 1)) (churn m domain c) := by
  rw [← h.nextOf] at hroom hadd
  have hlen : c.len < 2 := by simp [len, h.ipToDest]
  have hnew : c.domainToIp.lookup (domain, net.addr.isIpv6) = none := by simp [h.domainToIp]
  have halloc := allocate_of_room h.limits hlen hnet hwidth hnew hroom hadd
  have hstale : (stored c m net ip domain).stale 1 = [(ip, (domain, ip.isIpv6))] := by
    simp [stale, stored, h.ipToDest, h.limits, churnLimits, asMillis]
  have hfamily : ip.isIpv6 = net.addr.isIpv6 := (IpAddr.add_spec hadd).1
  have hevict : Dns.churn m domain c =
      (stored c m net ip domain).removeStale (ip, (domain, net.addr.isIpv6)) := by
    have henabled : asMillis (stored c m net ip domain).limits.idleTtl ≠ 0 := by
      simp [stored, h.limits, churnLimits, asMillis]
    simp [Dns.churn, halloc, evictIdleAt, henabled, hstale, hfamily]
  rw [hevict]
  constructor
  · simp [removeStale, stored, h.ipToDest, erase_singleton]
  · have hpoint : (stored c m net ip domain).domainToIp.lookup (domain, net.addr.isIpv6) =
        some ip := AList.lookup_insert _
    simp only [removeStale, hpoint, if_true]
    simp [stored, h.domainToIp, erase_singleton]
  · exact h.limits
  · intro net'
    have hnext := nextOf_stored c m net ip domain net'
    rw [h.nextOf, h.nextOf] at hnext
    rw [Function.update_apply]
    exact hnext

theorem Drained.iterate (h : Drained counters c) (domain : String) (hzero : counters net = 0)
    (offset : ℕ) (hroom : offset ≤ net.capacity) (hadd : net.addr.add offset = some ip) :
    Drained (Function.update counters net offset) ((Dns.churn m domain)^[offset] c) := by
  induction offset generalizing ip with
  | zero =>
    have hsame : Function.update counters net 0 = counters := by
      rw [← hzero, Function.update_eq_self]
    rw [hsame]
    exact h
  | succ offset ih =>
    obtain ⟨ip', hadd'⟩ := IpAddr.add_of_le hadd (Nat.le_succ offset)
    have hdrained := ih (by omega) hadd'
    have hstep := hdrained.churn hnet hwidth domain (by simpa using hroom) (by simpa using hadd')
    rw [Function.iterate_succ_apply']
    simpa using hstep

omit hnet hwidth in
theorem run_replicate (m : DomainMatcher) (domain : String) (c : VirtualIpCache) (n : ℕ) :
    (run (List.replicate n [.allocate domain m 0, .evictIdle 1]).flatten c).1 =
      (churn m domain)^[n] c := by
  induction n generalizing c with
  | zero => rfl
  | succ n ih =>
    rw [replicate_succ, flatten_cons, run_append, ih, Function.iterate_succ_apply]
    rfl

/-- A run from a drained cache can move a counter to any offset of its range. -/
theorem Drained.reach {g : DnsGateway} (hm : m ∈ g.domains) (h : Drained counters c)
    (hzero : counters net = 0) (offset : ℕ) (hroom : offset ≤ net.capacity)
    (hadd : net.addr.add offset = some ip) :
    ∃ ops, (∀ op ∈ ops, op.Issued g) ∧
      Drained (Function.update counters net offset) (run ops c).1 := by
  refine ⟨(List.replicate offset [.allocate "a" m 0, .evictIdle 1]).flatten, ?_, ?_⟩
  · intro op hop
    obtain ⟨ops, hops, hop⟩ := mem_flatten.mp hop
    rw [eq_of_mem_replicate hops, mem_pair] at hop
    rcases hop with rfl | rfl
    · exact hm
    · trivial
  · rw [run_replicate]
    exact h.iterate hnet hwidth "a" hzero offset hroom hadd

end

theorem Drained.not_mapsInverse {m' : DomainMatcher} {net' : IpNet} (h : Drained counters c)
    (hne : net ≠ net') (hnet : m.range? = some net) (hwidth : net.prefixLen ≤ net.addr.width)
    (hroom : counters net < net.capacity) (hadd : net.addr.add (counters net) = some ip)
    (hnet' : m'.range? = some net') (hwidth' : net'.prefixLen ≤ net'.addr.width)
    (hroom' : counters net' < net'.capacity) (hadd' : net'.addr.add (counters net') = some ip) :
    ¬(run [.allocate "a" m 0, .allocate "b" m' 0] c).1.MapsInverse := by
  rw [← h.nextOf] at hroom hadd hroom' hadd'
  have hfirst : m.allocate "a" 0 c = ⟨some ip, stored c m net ip "a", []⟩ :=
    allocate_of_room h.limits (by simp [len, h.ipToDest]) hnet hwidth (by simp [h.domainToIp])
      hroom hadd
  have hnext : (stored c m net ip "a").nextOf net' = c.nextOf net' := by
    rw [nextOf_stored, if_neg hne.symm]
  have hsecond : m'.allocate "b" 0 (stored c m net ip "a") =
      ⟨some ip, stored (stored c m net ip "a") m' net' ip "b", []⟩ := by
    have hlimits : (stored c m net ip "a").limits = churnLimits := h.limits
    apply allocate_of_room hlimits _ hnet' hwidth'
    · simp only [stored]
      rw [AList.lookup_insert_ne (by simp), h.domainToIp, AList.lookup_empty]
    · rwa [hnext]
    · rwa [hnext]
    · simp [len, stored, h.ipToDest]
  have hrun : (run [.allocate "a" m 0, .allocate "b" m' 0] c).1 =
      stored (stored c m net ip "a") m' net' ip "b" := by
    simp [run, Op.step, hfirst, hsecond]
  rw [hrun]
  intro hinv
  have ha : (stored (stored c m net ip "a") m' net' ip "b").domainToIp.lookup
      ("a", net.addr.isIpv6) = some ip := by
    simp [stored]
  have hb : (stored (stored c m net ip "a") m' net' ip "b").domainToIp.lookup
      ("b", net'.addr.isIpv6) = some ip := by
    simp [stored]
  have hsame := congrArg Prod.fst (hinv.injective ha hb)
  simp at hsame

end

/-- The maps are mutually inverse after every run under every limits, and a
lookup of an address that `allocate` returned for `d` answers `d` for as long
as the address has not been evicted or flushed. -/
def DnsGateway.AddressesIdentify (g : DnsGateway) : Prop :=
  ∀ (limits : CacheLimits) (ops : List Op), (∀ op ∈ ops, op.Issued g) →
    (run ops (withLimits limits)).1.MapsInverse ∧
    ∀ (d : String) (m : DomainMatcher) (now : ℕ) (ip : IpAddr) (later : List Op) (now' : ℕ),
      m ∈ g.domains → (∀ op ∈ later, op.Issued g) →
      (m.allocate d now (run ops (withLimits limits)).1).ip = some ip →
      ip ∉ (run later (m.allocate d now (run ops (withLimits limits)).1).cache).2 →
      ((run later (m.allocate d now (run ops (withLimits limits)).1).cache).1.lookup
        ip now').1.map Prod.fst = some d

/-- Addresses identify domains exactly for configurations in which two
different ranges never hand out the same address. -/
theorem addressesIdentify_iff_separated {fromUtf8 : NameSyntax}
    (g : DnsGatewayFilterConfig fromUtf8) :
    g.config.AddressesIdentify ↔ Separated g.config.ranges := by
  constructor
  · intro h net ⟨m, hm, hnet⟩ net' ⟨m', hm', hnet'⟩ hne
    rw [Set.disjoint_left]
    intro ip ⟨offset, hroom, hadd⟩ ⟨offset', hroom', hadd'⟩
    obtain ⟨_, _, heq, hwidth⟩ := g.range_of_mem hm
    rw [hnet, Option.some.injEq] at heq
    subst heq
    obtain ⟨_, _, heq', hwidth'⟩ := g.range_of_mem hm'
    rw [hnet', Option.some.injEq] at heq'
    subst heq'
    -- move both counters to the shared address, then give it to two domains
    have hstart : Drained (fun _ => 0) (withLimits churnLimits) := ⟨rfl, rfl, rfl, fun _ => rfl⟩
    obtain ⟨ops, hops, hdrained⟩ := hstart.reach hnet hwidth hm rfl offset hroom.le hadd
    obtain ⟨ops', hops', hdrained'⟩ :=
      hdrained.reach hnet' hwidth' hm' (by simp [hne.symm]) offset' hroom'.le hadd'
    apply hdrained'.not_mapsInverse hne hnet hwidth
      (by simpa [Function.update_of_ne hne] using hroom)
      (by simpa [Function.update_of_ne hne] using hadd) hnet' hwidth' (by simpa using hroom')
      (by simpa using hadd')
    rw [← run_append, ← run_append]
    apply (h churnLimits _ _).1
    intro op hop
    simp only [mem_append, mem_cons, not_mem_nil, or_false] at hop
    rcases hop with hop | hop | rfl | rfl
    · exact hops op hop
    · exact hops' op hop
    · exact hm
    · exact hm'
  · intro hsep limits ops hops
    have hsound := sound_run g hsep ops hops (sound_withLimits limits)
    refine ⟨hsound.inverse, ?_⟩
    intro d m now ip later now' hm hlater hip hkept
    have hissued : (Op.allocate d m now).Issued g.config := hm
    have hsound' := sound_step g hsep hsound hissued
    obtain ⟨net, hmem, hnet, hlen⟩ := g.range_of_mem hm
    have howner : (m.allocate d now (run ops (withLimits limits)).1).cache.owner ip = some d := by
      rw [DomainMatcher.allocate_of_range hnet hlen] at hip ⊢
      exact hsound.owner_allocated hlen hip
    rw [lookup_fst_map]
    exact owner_run g hsep later hlater hsound' howner hkept

/-- Names written as labels between dots, without escapes. -/
def dottedNames : NameSyntax := fun text =>
  let labels := text.toList.splitOn '.'
  let isWildcard := labels.head? == some ['*']
  some ⟨isWildcard, if isWildcard then labels.length - 1 else labels.length⟩

def overlapping : DnsGateway :=
  { domains :=
      [⟨"*.a.com", [("cluster", "a")], "10.0.0.0", 24⟩,
        ⟨"*.b.com", [("cluster", "b")], "10.0.0.0", 25⟩]
    failOpen := false }

def addressQuery (name : String) : Message :=
  ⟨.query, .noError, false, false, [⟨name, .a⟩], []⟩

/-- Two queries to the gateway, one for each pattern. -/
def afterQueries : VirtualIpCache :=
  (overlapping.processDnsQuery (addressQuery "x.b.com.") 1
    (overlapping.processDnsQuery (addressQuery "x.a.com.") 0 (withLimits .default)).2).2

/-- The allocations those queries make. -/
def sharingRun : List Op :=
  [.allocate "x.a.com" ⟨"*.a.com", [("cluster", "a")], "10.0.0.0", 24⟩ 0,
    .allocate "x.b.com" ⟨"*.b.com", [("cluster", "b")], "10.0.0.0", 25⟩ 1]

/-- Both domains hold `10.0.0.0`, and traffic for the first is looked up as the
second. -/
theorem overlapping_ranges_share_address :
    (DnsGatewayFilterConfig.new? dottedNames overlapping).isSome = true ∧
      afterQueries.domainToIp.lookup ("x.a.com", false) = some (.v4 0x0a000000#32) ∧
      afterQueries.domainToIp.lookup ("x.b.com", false) = some (.v4 0x0a000000#32) ∧
      (afterQueries.lookup (.v4 0x0a000000#32) 2).1 = some ("x.b.com", [("cluster", "b")]) ∧
      ¬overlapping.AddressesIdentify := by
  refine ⟨by decide, by decide, by decide, by decide, ?_⟩
  intro h
  have hinv := (h .default sharingRun (by simp [sharingRun, Op.Issued, overlapping])).1
  have ha : (run sharingRun (withLimits .default)).1.domainToIp.lookup ("x.a.com", false) =
      some (.v4 0x0a000000#32) := by decide
  have hb : (run sharingRun (withLimits .default)).1.domainToIp.lookup ("x.b.com", false) =
      some (.v4 0x0a000000#32) := by decide
  exact absurd (hinv.injective ha hb) (by decide)

end BuiltOnEnvoy.Dns
