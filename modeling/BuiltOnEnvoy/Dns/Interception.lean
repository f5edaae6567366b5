import BuiltOnEnvoy.Dns.CacheCalls
import BuiltOnEnvoy.Dns.Injectivity

/-!
# Which matcher answers a query

The first matching pattern owns a name, and an address query for an owned name
is answered from the first matcher with that pattern and the queried family or
not at all. The cache is shared: it has served any queries of any accepted
configurations before.
-/

namespace BuiltOnEnvoy.Dns

open Foundations VirtualIpCache List

namespace VirtualIpCache

/-- Every live mapping satisfies the condition. -/
def Mapped (P : String × Bool → IpAddr → Prop) (c : VirtualIpCache) : Prop :=
  ∀ k ip, c.domainToIp.lookup k = some ip → P k ip

variable {P : String × Bool → IpAddr → Prop} {c c' : VirtualIpCache}

theorem mapped_withLimits (limits : CacheLimits) : Mapped P (withLimits limits) := by
  simp [Mapped, withLimits]

theorem Mapped.trimmed (h : Mapped P c) (htrim : Trimmed c c') : Mapped P c' :=
  fun k ip hk => h k ip (htrim.live k ip hk)

section

variable {domain : String} {metadata : Metadata} {base : IpAddr} {prefixLen now : ℕ}

theorem Mapped.mint (h : Mapped P c) (hlen : prefixLen ≤ base.width)
    (hnew : ∀ ip ∈ IpNet.mintable ⟨base, prefixLen⟩, P (domain, base.isIpv6) ip) :
    Mapped P (c.mint domain metadata base prefixLen now).2 ∧
      ∀ ip, (c.mint domain metadata base prefixLen now).1 = some ip →
        P (domain, base.isIpv6) ip := by
  obtain ⟨minted, hroom, hadd, heq⟩ | ⟨n, _, _, heq⟩ := c.mint_cases domain metadata now hlen
  · rw [heq]
    have hminted := hnew minted ⟨_, hroom, hadd⟩
    constructor
    · intro k ip hk
      by_cases hkey : k = (domain, base.isIpv6)
      · subst hkey
        rw [AList.lookup_insert, Option.some.injEq] at hk
        rwa [← hk]
      · rw [AList.lookup_insert_ne hkey] at hk
        exact h k ip hk
    · intro ip hip
      cases hip
      exact hminted
  · rw [heq]
    refine ⟨h, ?_⟩
    intro ip hip
    cases hip

/-- An allocation keeps the condition if the addresses of its range satisfy it,
and so does the address it returns. -/
theorem Mapped.allocateAt (h : Mapped P c) (hlen : prefixLen ≤ base.width)
    (hnew : ∀ ip ∈ IpNet.mintable ⟨base, prefixLen⟩, P (domain, base.isIpv6) ip) :
    Mapped P (c.allocateAt domain metadata base prefixLen now).cache ∧
      ∀ ip, (c.allocateAt domain metadata base prefixLen now).ip = some ip →
        P (domain, base.isIpv6) ip := by
  obtain ⟨c', evicted, hprep, hcases⟩ := c.allocateAt_cases domain metadata base prefixLen now
  have h' := h.trimmed hprep.trimmed
  rcases hcases with ⟨found, hfound, heq⟩ | ⟨_, heq⟩ | ⟨_, _, heq⟩
  · rw [heq]
    refine ⟨h'.trimmed (trimmed_touch c' found now), ?_⟩
    intro ip hip
    cases hip
    exact h' _ _ hfound
  · rw [heq]
    refine ⟨h', ?_⟩
    intro ip hip
    cases hip
  · rw [heq]
    exact h'.mint hlen hnew

end

end VirtualIpCache

/-- The first element of the list with a property. -/
def First {α : Type*} (p : α → Prop) (l : List α) (x : α) : Prop :=
  ∃ front rear, l = front ++ x :: rear ∧ p x ∧ ∀ y ∈ front, ¬p y

/-- The matcher has the pattern and a range of the family. -/
def DomainMatcher.Serves (pattern : String) (wantV6 : Bool) (m : DomainMatcher) : Prop :=
  m.domain = pattern ∧ ∃ base, m.parseBaseIp = some base ∧ base.isIpv6 = wantV6

theorem first_of_find? {α : Type*} {p : α → Bool} {q : α → Prop} (hpq : ∀ x, p x = true ↔ q x)
    {l : List α} {x : α} (h : l.find? p = some x) : First q l x := by
  obtain ⟨hx, front, rear, hl, hfront⟩ := find?_eq_some_iff_append.mp h
  refine ⟨front, rear, hl, (hpq x).mp hx, ?_⟩
  intro y hy hqy
  have hno := hfront y hy
  rw [(hpq y).mpr hqy] at hno
  cases hno

theorem none_of_find? {α : Type*} {p : α → Bool} {q : α → Prop} (hpq : ∀ x, p x = true ↔ q x)
    {l : List α} (h : l.find? p = none) : ∀ x ∈ l, ¬q x := by
  intro x hx hqx
  exact find?_eq_none.mp h x hx ((hpq x).mpr hqx)

section

variable {g : DnsGateway} {owner m : DomainMatcher} {wantV6 : Bool} {domain : String}

theorem serves_iff (m : DomainMatcher) :
    (m.domain == owner.domain &&
        match m.parseBaseIp with
        | none => false
        | some ip => ip.isIpv6 == wantV6) = true ↔
      m.Serves owner.domain wantV6 := by
  cases hbase : m.parseBaseIp <;> simp [DomainMatcher.Serves, hbase]

theorem DnsGateway.first_of_owner (h : g.owner domain = some owner) :
    First (fun m => matchesDomain m.domain domain = true) g.domains owner :=
  first_of_find? (fun _ => Iff.rfl) h

theorem DnsGateway.first_of_familyMatcher (h : g.familyMatcher owner wantV6 = some m) :
    First (DomainMatcher.Serves owner.domain wantV6) g.domains m :=
  first_of_find? serves_iff h

theorem DnsGateway.family_of_familyMatcher (h : g.familyMatcher owner wantV6 = some m)
    {net : IpNet} (hnet : m.range? = some net) : net.addr.isIpv6 = wantV6 := by
  obtain ⟨_, _, -, ⟨-, base, hbase, hv6⟩, -⟩ := DnsGateway.first_of_familyMatcher h
  rw [DomainMatcher.range?, hbase, Option.map_some, Option.some.injEq] at hnet
  rw [← hnet, hv6]

theorem DnsGateway.none_of_familyMatcher (h : g.familyMatcher owner wantV6 = none) :
    ∀ m ∈ g.domains, ¬m.Serves owner.domain wantV6 :=
  none_of_find? serves_iff h

end

/-- The address can be minted from the range of the matcher that the gateway
chooses for the domain and the family. -/
def DnsGateway.Grants (g : DnsGateway) (k : String × Bool) (ip : IpAddr) : Prop :=
  ∃ owner m net, g.owner k.1 = some owner ∧ g.familyMatcher owner k.2 = some m ∧
    m.range? = some net ∧ ip ∈ net.mintable

/-- What happens to the cache: queries of gateways that share it, and the other
calls. -/
inductive Event (fromUtf8 : NameSyntax)
  | query (gateway : DnsGatewayFilterConfig fromUtf8) (message : Message) (now : ℕ)
  | lookup (ip : IpAddr) (now : ℕ)
  | evictIdle (now : ℕ)
  | flush

variable {fromUtf8 : NameSyntax}

namespace Event

def step (c : VirtualIpCache) : Event fromUtf8 → VirtualIpCache
  | query g message now => (g.config.processDnsQuery message now c).2
  | lookup ip now => (c.lookup ip now).2
  | evictIdle now => (c.evictIdleAt now).1
  | flush => c.flush

def runAll (events : List (Event fromUtf8)) (c : VirtualIpCache) : VirtualIpCache :=
  events.foldl step c

/-- Queries go to gateways with these configurations. -/
def Of (configs : Set DnsGateway) : Event fromUtf8 → Prop
  | query g _ _ => g.config ∈ configs
  | _ => True

end Event

section

variable {P : String × Bool → IpAddr → Prop} {c : VirtualIpCache}
variable (g : DnsGatewayFilterConfig fromUtf8) {domain : String} {owner m : DomainMatcher}
variable {wantV6 : Bool}

/-- The chosen matcher allocates for the wanted family, from addresses that the
gateway grants. -/
theorem DnsGatewayFilterConfig.allocate_chosen (howner : g.config.owner domain = some owner)
    (hm : g.config.familyMatcher owner wantV6 = some m)
    (hgrants : ∀ ip, g.config.Grants (domain, wantV6) ip → P (domain, wantV6) ip)
    (h : Mapped P c) (now : ℕ) :
    Mapped P (m.allocate domain now c).cache ∧
      ∀ ip, (m.allocate domain now c).ip = some ip → P (domain, wantV6) ip := by
  obtain ⟨net, -, hnet, hlen⟩ := g.range_of_mem (mem_of_find?_eq_some hm)
  have hfamily := DnsGateway.family_of_familyMatcher hm hnet
  rw [DomainMatcher.allocate_of_range hnet hlen, ← hfamily]
  refine h.allocateAt hlen ?_
  intro ip hip
  rw [hfamily]
  exact hgrants ip ⟨owner, m, net, howner, hm, hnet, hip⟩

variable {configs : Set DnsGateway}

/-- Some gateway of the set grants the address. -/
def GrantedBy (configs : Set DnsGateway) (k : String × Bool) (ip : IpAddr) : Prop :=
  ∃ g ∈ configs, g.Grants k ip

theorem mapped_step {event : Event fromUtf8} (hevent : event.Of configs)
    (h : Mapped (GrantedBy configs) c) : Mapped (GrantedBy configs) (event.step c) := by
  cases event with
  | query g message now =>
    rcases g.config.processDnsQuery_cache message now c with
      heq | ⟨domain, owner, wantV6, m, howner, hm, heq⟩
    · rwa [Event.step, heq]
    · rw [Event.step, heq]
      exact (g.allocate_chosen howner hm (fun ip hip => ⟨g.config, hevent, hip⟩) h now).1
  | lookup ip now => exact h.trimmed (trimmed_touch c ip now)
  | evictIdle now => exact h.trimmed (trimmed_evictIdleAt c now)
  | flush => exact mapped_withLimits c.limits

theorem mapped_runAll (events : List (Event fromUtf8))
    (hevents : ∀ event ∈ events, event.Of configs)
    (h : Mapped (GrantedBy configs) c) : Mapped (GrantedBy configs) (Event.runAll events c) := by
  induction events generalizing c with
  | nil => exact h
  | cons event events ih =>
    rw [forall_mem_cons] at hevents
    exact ih hevents.2 (mapped_step hevents.1 h)

theorem DnsGateway.Grants.isIpv6 {g : DnsGateway} {ip : IpAddr}
    (h : g.Grants (domain, wantV6) ip) : ip.isIpv6 = wantV6 := by
  obtain ⟨owner, m, net, -, hm, hnet, offset, -, hadd⟩ := h
  rw [(IpAddr.add_spec hadd).1, DnsGateway.family_of_familyMatcher hm hnet]

end

/-- A response without an error and with these records. -/
def Message.Responds (r : Message) (answers : List Record) : Prop :=
  r.messageType = .response ∧ r.responseCode = .noError ∧ r.answers = answers

/-- The query type that asks for an address of the family. -/
def addressType (wantV6 : Bool) : RecordType := if wantV6 then .aaaa else .a

/-- What becomes of an address query for a name with this owner: an address
from the first matcher with the owner's pattern and the family, an empty
response or none if that matcher has no address left, and an empty response if
there is no such matcher. An address lies in the matcher's range if the cache
has served this configuration only. -/
inductive AddressOutcome (g : DnsGateway) (exclusive : Prop) (c : VirtualIpCache)
    (question : Question) (owner : DomainMatcher) (wantV6 : Bool) (now : ℕ) :
    Option Message → Prop
  | address (m : DomainMatcher) (ip : IpAddr) (r : Message)
      (hm : First (DomainMatcher.Serves owner.domain wantV6) g.domains m)
      (hip : (m.allocate (queriedDomain question) now c).ip = some ip)
      (hrange : exclusive → ∃ net, m.range? = some net ∧ ip ∈ net.mintable)
      (hfamily : ip.isIpv6 = wantV6) (hr : r.Responds [⟨question.name, 600, ip⟩]) :
      AddressOutcome g exclusive c question owner wantV6 now (some r)
  | refused (m : DomainMatcher) (r : Message)
      (hm : First (DomainMatcher.Serves owner.domain wantV6) g.domains m)
      (hip : (m.allocate (queriedDomain question) now c).ip = none) (hclosed : g.failOpen = false)
      (hr : r.Responds []) : AddressOutcome g exclusive c question owner wantV6 now (some r)
  | passed (m : DomainMatcher)
      (hm : First (DomainMatcher.Serves owner.domain wantV6) g.domains m)
      (hip : (m.allocate (queriedDomain question) now c).ip = none) (hopen : g.failOpen = true) :
      AddressOutcome g exclusive c question owner wantV6 now none
  | noMatcher (r : Message) (hm : ∀ m ∈ g.domains, ¬m.Serves owner.domain wantV6)
      (hr : r.Responds []) : AddressOutcome g exclusive c question owner wantV6 now (some r)

section

variable {g : DnsGatewayFilterConfig fromUtf8} {c : VirtualIpCache} {query : Message}
variable {question : Question} {owner : DomainMatcher} {wantV6 : Bool}

theorem responds_nodata (h : query.answers = []) : (buildNodataResponse query).Responds [] :=
  ⟨rfl, rfl, h⟩

theorem responds_address (h : query.answers = []) (name : String) (ip : IpAddr) :
    (buildDnsResponse query name ip).Responds [⟨name, 600, ip⟩] :=
  ⟨rfl, rfl, by simp [buildDnsResponse, h]⟩

theorem addressOutcome_answer {exclusive : Prop} (hanswers : query.answers = [])
    (howner : g.config.owner (queriedDomain question) = some owner)
    (hshared : Mapped (GrantedBy Set.univ) c)
    (hown : exclusive → Mapped (GrantedBy {g.config}) c) (now : ℕ) :
    AddressOutcome g.config exclusive c question owner wantV6 now
      (g.config.answer query question owner wantV6 now c).1 := by
  cases hm : g.config.familyMatcher owner wantV6 with
  | none =>
    simp only [DnsGateway.answer, hm]
    exact .noMatcher _ (DnsGateway.none_of_familyMatcher hm) (responds_nodata hanswers)
  | some m =>
    have hfirst := DnsGateway.first_of_familyMatcher hm
    rcases hip : m.allocate (queriedDomain question) now c with ⟨_ | ip, cache, evicted⟩
    · have hnone : (m.allocate (queriedDomain question) now c).ip = none := by rw [hip]
      cases hopen : g.config.failOpen with
      | true =>
        simp only [DnsGateway.answer, hm, hip, hopen, if_true]
        exact .passed m hfirst hnone hopen
      | false =>
        simp only [DnsGateway.answer, hm, hip, hopen, Bool.false_eq_true, if_false]
        exact .refused m _ hfirst hnone hopen (responds_nodata hanswers)
    · have hsome : (m.allocate (queriedDomain question) now c).ip = some ip := by rw [hip]
      simp only [DnsGateway.answer, hm, hip]
      refine .address m ip _ hfirst hsome ?_ ?_ (responds_address hanswers question.name ip)
      · intro hexclusive
        have hgrants := (g.allocate_chosen howner hm (fun ip hip => ⟨g.config, rfl, hip⟩)
          (hown hexclusive) now).2 ip hsome
        obtain ⟨_, rfl, owner', m', net, howner', hm', hnet, hmint⟩ := hgrants
        rw [howner, Option.some.injEq] at howner'
        subst howner'
        rw [hm, Option.some.injEq] at hm'
        subst hm'
        exact ⟨net, hnet, hmint⟩
      · obtain ⟨_, -, hgrants⟩ := (g.allocate_chosen howner hm
          (fun ip hip => ⟨g.config, Set.mem_univ _, hip⟩) hshared now).2 ip hsome
        exact hgrants.isIpv6

theorem processDnsQuery_owned (hquery : query.messageType = .query)
    (hquestion : query.queries.head? = some question)
    (howner : g.config.owner (queriedDomain question) = some owner) (now : ℕ) :
    g.config.processDnsQuery query now c =
      match question.queryType with
      | .a => g.config.answer query question owner false now c
      | .aaaa => g.config.answer query question owner true now c
      | .other _ => (some (buildNodataResponse query), c) := by
  cases htype : question.queryType <;>
    simp only [DnsGateway.processDnsQuery, hquery, hquestion, howner, htype, ne_eq,
      not_true_eq_false, if_false]

theorem AddressOutcome.isSome {exclusive : Prop} {now : ℕ} {result : Option Message}
    (h : AddressOutcome g.config exclusive c question owner wantV6 now result)
    (hclosed : g.config.failOpen = false) : ∃ r, result = some r := by
  cases h with
  | address m ip r hm hip hrange hfamily hr => exact ⟨r, rfl⟩
  | refused m r hm hip hclosed' hr => exact ⟨r, rfl⟩
  | passed m hm hip hopen => simp [hclosed] at hopen
  | noMatcher r hm hr => exact ⟨r, rfl⟩

end

/-- The first matching pattern owns the name; without fail-open an owned name
always gets a response; an address query gets an address of its family from the
first matcher with the owning pattern and that family, or no address at all. -/
theorem query_intercepted (g : DnsGatewayFilterConfig fromUtf8) (limits : CacheLimits)
    (events : List (Event fromUtf8)) (query : Message) (question : Question) (now : ℕ)
    (hquery : query.messageType = .query) (hquestion : query.queries.head? = some question)
    (hanswers : query.answers = [])
    (hmatch : ∃ m ∈ g.config.domains, matchesDomain m.domain (queriedDomain question) = true) :
    ∃ owner,
      First (fun m => matchesDomain m.domain (queriedDomain question) = true) g.config.domains
        owner ∧
      (g.config.failOpen = false → ∃ r, (g.config.processDnsQuery query now
        (Event.runAll events (withLimits limits))).1 = some r) ∧
      ∀ wantV6, question.queryType = addressType wantV6 →
        AddressOutcome g.config (∀ event ∈ events, event.Of {g.config})
          (Event.runAll events (withLimits limits)) question owner wantV6 now
          (g.config.processDnsQuery query now (Event.runAll events (withLimits limits))).1 := by
  obtain ⟨owner, howner⟩ : ∃ owner, g.config.owner (queriedDomain question) = some owner := by
    obtain ⟨m, hmem, hm⟩ := hmatch
    exact Option.isSome_iff_exists.mp (find?_isSome.mpr ⟨m, hmem, hm⟩)
  have hshared : Mapped (GrantedBy Set.univ) (Event.runAll events (withLimits limits)) := by
    refine mapped_runAll events ?_ (mapped_withLimits limits)
    intro event _
    cases event <;> trivial
  have houtcome : ∀ wantV6, AddressOutcome g.config (∀ event ∈ events, event.Of {g.config})
      (Event.runAll events (withLimits limits)) question owner wantV6 now
      (g.config.answer query question owner wantV6 now
        (Event.runAll events (withLimits limits))).1 := by
    intro wantV6
    refine addressOutcome_answer hanswers howner hshared ?_ now
    exact fun hown => mapped_runAll events hown (mapped_withLimits limits)
  rw [processDnsQuery_owned hquery hquestion howner]
  refine ⟨owner, DnsGateway.first_of_owner howner, ?_, ?_⟩
  · intro hclosed
    cases question.queryType with
    | a => exact (houtcome false).isSome hclosed
    | aaaa => exact (houtcome true).isSome hclosed
    | other code => exact ⟨_, rfl⟩
  · intro wantV6 htype
    cases wantV6 with
    | false =>
      rw [htype]
      exact houtcome false
    | true =>
      rw [htype]
      exact houtcome true

/-- An IPv6 range for one pattern and an IPv4 range for everything. -/
def layered : DnsGatewayFilterConfig dottedNames where
  config :=
    { domains := [⟨"*.a.com", [("cluster", "a")], "fd00::", 120⟩, ⟨"*", [], "10.0.0.0", 24⟩]
      failOpen := false }
  valid := by decide

/-- The catch-all has an address of the queried family and is not asked. -/
theorem layered_intercepted :
    (layered.config.processDnsQuery (addressQuery "x.a.com.") 1 (withLimits .default)).1 =
        some (buildNodataResponse (addressQuery "x.a.com.")) ∧
      ∃ owner,
        First (fun m => matchesDomain m.domain "x.a.com" = true) layered.config.domains owner ∧
        AddressOutcome layered.config True (withLimits .default) ⟨"x.a.com.", .a⟩ owner false 1
          (some (buildNodataResponse (addressQuery "x.a.com."))) := by
  have hdomain : queriedDomain ⟨"x.a.com.", .a⟩ = "x.a.com" := by decide +kernel
  have hresult : (layered.config.processDnsQuery (addressQuery "x.a.com.") 1
      (withLimits .default)).1 = some (buildNodataResponse (addressQuery "x.a.com.")) := by
    decide +kernel
  refine ⟨hresult, ?_⟩
  obtain ⟨owner, hfirst, -, houtcome⟩ := query_intercepted layered .default []
    (addressQuery "x.a.com.") ⟨"x.a.com.", .a⟩ 1 rfl rfl rfl (by decide +kernel)
  rw [hdomain] at hfirst
  refine ⟨owner, hfirst, ?_⟩
  have hfinal := houtcome false rfl
  simp only [not_mem_nil, false_implies, implies_true] at hfinal
  rw [← hresult]
  exact hfinal

end BuiltOnEnvoy.Dns
