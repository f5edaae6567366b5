import BuiltOnEnvoy.Dns.Interception

/-!
# Addresses outside of the configured network

The gateway accepts a base address with host bits, and offsets are added to the
base address itself. Addresses stay inside of the network exactly when the
offsets that can be minted do not carry out of the host bits. The cache is
shared by all gateways of the process, so a name that two of them intercept may
also be answered from the other one's range.
-/

namespace BuiltOnEnvoy.Dns

open Foundations VirtualIpCache List

/-- No offset of the range carries into the prefix, or the carry leaves the
address family, in which case no address is returned. -/
def IpNet.Fits (net : IpNet) : Prop :=
  net.addr.toNat % 2 ^ net.hostBits + net.capacity ≤ 2 ^ net.hostBits ∨
    2 ^ net.addr.width ≤ (net.addr.toNat / 2 ^ net.hostBits + 1) * 2 ^ net.hostBits

theorem IpNet.covers_iff {net : IpNet} {ip : IpAddr} {offset : ℕ}
    (hadd : net.addr.add offset = some ip) :
    net.Covers ip ↔
      net.addr.toNat + offset < (net.addr.toNat / 2 ^ net.hostBits + 1) * 2 ^ net.hostBits := by
  obtain ⟨hfamily, hvalue⟩ := IpAddr.add_spec hadd
  have hpos : 0 < 2 ^ net.hostBits := Nat.two_pow_pos _
  have hle : net.addr.toNat / 2 ^ net.hostBits ≤ ip.toNat / 2 ^ net.hostBits :=
    Nat.div_le_div_right (by omega)
  rw [IpNet.Covers, and_iff_right hfamily, ← hvalue, ← Nat.div_lt_iff_lt_mul hpos]
  omega

theorem IpNet.carry_eq (net : IpNet) :
    (net.addr.toNat / 2 ^ net.hostBits + 1) * 2 ^ net.hostBits =
      net.addr.toNat + (2 ^ net.hostBits - net.addr.toNat % 2 ^ net.hostBits) := by
  have hsplit := Nat.div_add_mod' net.addr.toNat (2 ^ net.hostBits)
  have hlt := Nat.mod_lt net.addr.toNat (Nat.two_pow_pos net.hostBits)
  rw [Nat.add_mul, Nat.one_mul]
  omega

theorem IpNet.mintable_subset_block_iff (net : IpNet) : net.mintable ⊆ net.block ↔ net.Fits := by
  have hcarry := net.carry_eq
  have hlt := Nat.mod_lt net.addr.toNat (Nat.two_pow_pos net.hostBits)
  constructor
  · intro hsubset
    by_contra hfits
    rw [Fits, not_or, not_le, not_le, hcarry] at hfits
    -- the first offset that carries is minted and does not overflow
    obtain ⟨ip, hadd⟩ := IpAddr.add_of_lt hfits.2
    have hin : ip ∈ net.block := hsubset ⟨_, by omega, hadd⟩
    have hbelow := (covers_iff hadd).mp hin
    omega
  · rintro hfits ip ⟨offset, hroom, hadd⟩
    refine (covers_iff hadd).mpr ?_
    rcases hfits with hfits | hlast
    · omega
    · have hfamily := (IpAddr.add_spec hadd).1
      have hwidth : ip.width = net.addr.width := by
        cases ip <;> cases haddr : net.addr <;> simp_all [IpAddr.isIpv6, IpAddr.width]
      have hbound := ip.toNat_lt
      rw [hwidth, (IpAddr.add_spec hadd).2] at hbound
      omega

variable {fromUtf8 : NameSyntax}

/-- The matcher, and its range, from which the gateway answers a name. -/
def DnsGateway.Chooses (g : DnsGateway) (domain : String) (wantV6 : Bool) (m : DomainMatcher)
    (net : IpNet) : Prop :=
  ∃ owner, g.owner domain = some owner ∧ g.familyMatcher owner wantV6 = some m ∧
    m.range? = some net

/-- After every run of the cache under these gateways, an address returned for
a matcher lies in its network. -/
def StaysInside (configs : Set (DnsGatewayFilterConfig fromUtf8)) : Prop :=
  ∀ (limits : CacheLimits) (events : List (Event fromUtf8)),
    (∀ event ∈ events, event.Of (DnsGatewayFilterConfig.config '' configs)) →
    ∀ g ∈ configs, ∀ question wantV6 m net now ip,
      g.config.Chooses (queriedDomain question) wantV6 m net →
      (m.allocate (queriedDomain question) now
        (Event.runAll events (withLimits limits))).ip = some ip →
      ip ∈ net.block

section

variable {g : DnsGatewayFilterConfig fromUtf8} {domain : String} {wantV6 : Bool}
variable {m : DomainMatcher} {net : IpNet}

theorem DnsGateway.Chooses.range (h : g.config.Chooses domain wantV6 m net) :
    m.range? = some net ∧ net.prefixLen ≤ net.addr.width ∧ net.addr.isIpv6 = wantV6 := by
  obtain ⟨owner, -, hm, hnet⟩ := h
  obtain ⟨net', -, hnet', hlen⟩ := g.range_of_mem (mem_of_find?_eq_some hm)
  rw [hnet, Option.some.injEq] at hnet'
  subst hnet'
  exact ⟨hnet, hlen, DnsGateway.family_of_familyMatcher hm hnet⟩

/-- An address query for the name. -/
def Question.asked (question : Question) (wantV6 : Bool) : Message :=
  { messageType := .query
    responseCode := .noError
    recursionAvailable := false
    authoritative := false
    queries := [{ question with queryType := addressType wantV6 }]
    answers := [] }

theorem step_query {question : Question}
    (h : g.config.Chooses (queriedDomain question) wantV6 m net) (now : ℕ) (c : VirtualIpCache) :
    Event.step c (.query g (question.asked wantV6) now) =
      (m.allocate (queriedDomain question) now c).cache := by
  obtain ⟨owner, howner, hm, -⟩ := h
  have hanswer := g.config.answer_cache_of_matcher (question.asked wantV6) now c
    { question with queryType := addressType wantV6 } hm
  have hquestion : (question.asked wantV6).queries.head? =
      some { question with queryType := addressType wantV6 } := rfl
  rw [Event.step, processDnsQuery_owned rfl hquestion howner]
  cases wantV6 <;> exact hanswer

theorem Event.runAll_append (events events' : List (Event fromUtf8)) (c : VirtualIpCache) :
    Event.runAll (events ++ events') c = Event.runAll events' (Event.runAll events c) :=
  foldl_append

/-- Asking and evicting again and again churns the range of the chosen matcher. -/
theorem runAll_replicate {question : Question}
    (h : g.config.Chooses (queriedDomain question) wantV6 m net) (c : VirtualIpCache) (n : ℕ) :
    Event.runAll
        (List.replicate n [.query g (question.asked wantV6) 0, .evictIdle 1]).flatten c =
      (churn m (queriedDomain question))^[n] c := by
  induction n generalizing c with
  | zero => rfl
  | succ n ih =>
    have honce : Event.runAll [.query g (question.asked wantV6) 0, .evictIdle 1] c =
        churn m (queriedDomain question) c := by
      simp only [Event.runAll, foldl_cons, foldl_nil, step_query h]
      rfl
    rw [replicate_succ, flatten_cons, Event.runAll_append, honce, ih,
      Function.iterate_succ_apply]

end

section

variable {configs : Set (DnsGatewayFilterConfig fromUtf8)} {g g' : DnsGatewayFilterConfig fromUtf8}
variable {question : Question} {wantV6 : Bool} {m m' : DomainMatcher} {net net' : IpNet}

/-- Every address that one gateway can hand out for a name is returned for the matcher that
another gateway chooses for it. -/
theorem StaysInside.subset (h : StaysInside configs) (hg : g ∈ configs) (hg' : g' ∈ configs)
    (hchoice : g.config.Chooses (queriedDomain question) wantV6 m net)
    (hchoice' : g'.config.Chooses (queriedDomain question) wantV6 m' net') :
    net'.mintable ⊆ net.block := by
  rintro ip ⟨offset, hroom, hadd⟩
  obtain ⟨hnet, hwidth, hfamily⟩ := hchoice.range
  obtain ⟨hnet', hwidth', hfamily'⟩ := hchoice'.range
  have hstart : Drained (fun _ => 0) (withLimits churnLimits) := ⟨rfl, rfl, rfl, fun _ => rfl⟩
  have hdrained := hstart.iterate hnet' hwidth' (queriedDomain question) rfl offset hroom.le hadd
  have hnext := hdrained.nextOf net'
  rw [Function.update_self] at hnext
  -- the other gateway mints the address, and the key stays alive
  have hnew : ((churn m' (queriedDomain question))^[offset]
      (withLimits churnLimits)).domainToIp.lookup
        (queriedDomain question, net'.addr.isIpv6) = none := by
    simp [hdrained.domainToIp]
  have hmint := allocate_of_room hdrained.limits (by simp [len, hdrained.ipToDest]) hnet' hwidth'
    hnew (hnext.symm ▸ hroom) (hnext.symm ▸ hadd)
  refine h churnLimits ((List.replicate offset [.query g' (question.asked wantV6) 0,
    .evictIdle 1]).flatten ++ [.query g' (question.asked wantV6) 0]) ?_ g hg question wantV6 m net
    0 ip hchoice ?_
  · intro event hevent
    rcases mem_append.mp hevent with hevent | hevent
    · obtain ⟨events, hevents, hevent⟩ := mem_flatten.mp hevent
      rw [eq_of_mem_replicate hevents, mem_pair] at hevent
      rcases hevent with rfl | rfl
      · exact ⟨g', hg', rfl⟩
      · trivial
    · rw [mem_singleton] at hevent
      subst hevent
      exact ⟨g', hg', rfl⟩
  · rw [Event.runAll_append, runAll_replicate hchoice', DomainMatcher.allocate_of_range hnet hwidth]
    refine allocateAt_of_live ?_ _ _ _
    simp only [Event.runAll, foldl_cons, foldl_nil, step_query hchoice', hmint]
    rw [hfamily, ← hfamily']
    exact AList.lookup_insert _

theorem staysInside_of_subset
    (hsubset : ∀ g ∈ configs, ∀ g' ∈ configs, ∀ question wantV6 m net m' net',
      g.config.Chooses (queriedDomain question) wantV6 m net →
      g'.config.Chooses (queriedDomain question) wantV6 m' net' → net'.mintable ⊆ net.block) :
    StaysInside configs := by
  intro limits events hevents g hg question wantV6 m net now ip hchoice hip
  have hmapped := mapped_runAll events hevents (mapped_withLimits limits)
  have hchoice' := hchoice
  obtain ⟨owner, howner, hm, hnet⟩ := hchoice'
  have hgranted := (g.allocate_chosen howner hm
    (fun ip hip => ⟨g.config, ⟨g, hg, rfl⟩, hip⟩) hmapped now).2 ip hip
  obtain ⟨_, ⟨g', hg', rfl⟩, owner', m', net', howner', hm', hnet', hmint⟩ := hgranted
  exact hsubset g hg g' hg' question wantV6 m net m' net' hchoice ⟨owner', howner', hm', hnet'⟩
    hmint

end

/-- Addresses stay inside of the configured networks exactly when no chosen range carries out of
its network and no name is answered by two gateways from different ranges that are not one inside
of the other's network. -/
theorem staysInside_iff (configs : Set (DnsGatewayFilterConfig fromUtf8)) :
    StaysInside configs ↔
      ∀ g ∈ configs, ∀ question wantV6 m net,
        g.config.Chooses (queriedDomain question) wantV6 m net →
        net.Fits ∧ ∀ g' ∈ configs, ∀ m' net',
          g'.config.Chooses (queriedDomain question) wantV6 m' net' → net' ≠ net →
          net'.mintable ⊆ net.block := by
  constructor
  · intro h g hg question wantV6 m net hchoice
    refine ⟨net.mintable_subset_block_iff.mp (h.subset hg hg hchoice hchoice), ?_⟩
    intro g' hg' m' net' hchoice' _
    exact h.subset hg hg' hchoice hchoice'
  · intro h
    refine staysInside_of_subset ?_
    intro g hg g' hg' question wantV6 m net m' net' hchoice hchoice'
    obtain ⟨hfits, hother⟩ := h g hg question wantV6 m net hchoice
    by_cases hsame : net' = net
    · rw [hsame]
      exact net.mintable_subset_block_iff.mpr hfits
    · exact hother g' hg' m' net' hchoice' hsame

/-- A network of four addresses, given by its last one. -/
def unaligned : DnsGatewayFilterConfig dottedNames where
  config := { domains := [⟨"*", [], "10.0.0.3", 30⟩], failOpen := false }
  valid := by decide

theorem unaligned_leaves_network : ¬StaysInside {unaligned} := by
  intro h
  have hin := h .default [.query unaligned (addressQuery "a.") 1] (by simp [Event.Of]) unaligned rfl
    ⟨"b.", .a⟩ false ⟨"*", [], "10.0.0.3", 30⟩ ⟨.v4 0x0a000003#32, 30⟩ 2 (.v4 0x0a000004#32)
    ⟨⟨"*", [], "10.0.0.3", 30⟩, by decide +kernel, by decide +kernel, by decide +kernel⟩
    (by decide +kernel)
  revert hin
  simp only [IpNet.block, Set.mem_ofPred_eq]
  decide +kernel

end BuiltOnEnvoy.Dns
