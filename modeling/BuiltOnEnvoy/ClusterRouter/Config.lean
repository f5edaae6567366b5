import BuiltOnEnvoy.ClusterRouter.BestPath

/-!
# Configuration of the cluster router

`validate` fills in defaults and collects every problem of a configuration
instead of stopping at the first one. The two parsers of the Go library it
calls, for durations and for URLs, only decide whether their own field is
rejected, so they are parameters. What an accepted configuration promises about
peers and terminals is `DaemonConfig.Accepted`.
-/

namespace BuiltOnEnvoy.ClusterRouter

open List

structure DaemonConfig where
  envoyID : String
  peers : List PeerSpec
  terminals : List String
  staleAfter : ℤ
  deriving DecidableEq, Repr

/-- The JSON configuration of the plugin. -/
structure Config where
  envoyID : String
  advertiseListen : String
  targetClusterSource : String
  targetClusterHeader : String
  nextHopHeader : String
  peers : List PeerSpec
  terminals : List String
  pollInterval : String
  staleAfter : String
  metadataNamespace : String

/-- The results of `time.ParseDuration`, in nanoseconds, and of `url.Parse`,
as scheme and host. -/
structure Parsers where
  parseDuration : String → Option ℤ
  parseURL : String → Option (String × String)

/-- The problems `validate` reports, with the index of the entry they are about. -/
inductive ConfigError
  | envoyIDRequired
  | advertiseListenRequired
  | targetClusterSource
  | pollInterval
  | pollIntervalTooShort
  | staleAfter
  | staleAfterBeforePoll (staleAfter pollInterval : ℤ)
  | peerRequired (index : ℕ)
  | peerEndpoint (index : ℕ) (endpoint : String)
  | peerSelf (index : ℕ) (envoyID : String)
  | peerDuplicate (index : ℕ) (id : String)
  | terminalRequired (index : ℕ)
  | terminalDuplicate (index : ℕ) (name : String)
  | terminalIsPeer (index : ℕ) (name : String)
  deriving DecidableEq, Repr

def minPollInterval : ℤ := 100 * 1000000

def orDefault (s default : String) : String :=
  if s = "" then default else s

def Config.withDefaults (c : Config) : Config :=
  { c with
    targetClusterSource := orDefault c.targetClusterSource "header"
    targetClusterHeader := orDefault c.targetClusterHeader "x-target-cluster"
    nextHopHeader := orDefault c.nextHopHeader "x-next-hop"
    pollInterval := orDefault c.pollInterval "10s"
    staleAfter := orDefault c.staleAfter "60s"
    metadataNamespace := orDefault c.metadataNamespace "io.builtonenvoy.cluster_router" }

/-- The endpoint check of one peer. -/
def endpointErrors (P : Parsers) (index : ℕ) (endpoint : String) : List ConfigError :=
  if endpoint = "" then []
  else match P.parseURL endpoint with
    | none => [.peerEndpoint index endpoint]
    | some (scheme, host) =>
      if scheme = "" ∨ host = "" then [.peerEndpoint index endpoint] else []

/-- All checks of one peer, given the ids seen before it. -/
def peerErrors (P : Parsers) (envoyID : String) (seen : List String) (index : ℕ)
    (p : PeerSpec) : List ConfigError :=
  (if p.id = "" ∨ p.endpoint = "" ∨ p.localCluster = "" then [.peerRequired index] else []) ++
  endpointErrors P index p.endpoint ++
  (if p.id = envoyID then [.peerSelf index envoyID] else []) ++
  (if p.id ∈ seen then [.peerDuplicate index p.id] else [])

def validatePeers (P : Parsers) (envoyID : String) :
    List String → ℕ → List PeerSpec → List ConfigError
  | _, _, [] => []
  | seen, index, p :: peers =>
    peerErrors P envoyID seen index p ++ validatePeers P envoyID (p.id :: seen) (index + 1) peers

/-- All checks of one terminal, given the names seen before it. -/
def terminalErrors (peerLocals seen : List String) (index : ℕ) (name : String) :
    List ConfigError :=
  (if name = "" then [.terminalRequired index] else []) ++
  (if name ∈ seen then [.terminalDuplicate index name] else []) ++
  (if name ∈ peerLocals then [.terminalIsPeer index name] else [])

def validateTerminals (peerLocals : List String) : List String → ℕ → List String → List ConfigError
  | _, _, [] => []
  | seen, index, name :: names =>
    terminalErrors peerLocals seen index name ++
      validateTerminals peerLocals (name :: seen) (index + 1) names

def pollErrors (P : Parsers) (text : String) : List ConfigError :=
  match P.parseDuration text with
  | none => [.pollInterval]
  | some d => if d < minPollInterval then [.pollIntervalTooShort] else []

def staleErrors (P : Parsers) (text : String) : List ConfigError :=
  match P.parseDuration text with
  | none => [.staleAfter]
  | some _ => []

/-- The parsed poll interval, left at zero when it was rejected. -/
def Config.pollNanos (P : Parsers) (c : Config) : ℤ :=
  match P.parseDuration c.pollInterval with
  | none => 0
  | some d => if d < minPollInterval then 0 else d

def Config.staleNanos (P : Parsers) (c : Config) : ℤ :=
  (P.parseDuration c.staleAfter).getD 0

/-- The comparison of the two durations, made only when both were parsed. -/
def orderErrors (poll stale : ℤ) : List ConfigError :=
  if 0 < poll ∧ 0 < stale ∧ stale < poll then [.staleAfterBeforePoll stale poll] else []

def Config.validate (P : Parsers) (config : Config) : Config × List ConfigError :=
  let c := config.withDefaults
  (c,
    (if c.envoyID = "" then [.envoyIDRequired] else []) ++
    (if c.advertiseListen = "" then [.advertiseListenRequired] else []) ++
    (if c.targetClusterSource ≠ "header" then [.targetClusterSource] else []) ++
    pollErrors P c.pollInterval ++ staleErrors P c.staleAfter ++
    orderErrors (c.pollNanos P) (c.staleNanos P) ++
    validatePeers P c.envoyID [] 0 c.peers ++
    validateTerminals (c.peers.map PeerSpec.localCluster) [] 0 c.terminals)

/-- The daemon configuration of an accepted plugin configuration. -/
def Config.daemonConfig (P : Parsers) (c : Config) : DaemonConfig :=
  { envoyID := c.envoyID
    peers := c.peers
    terminals := c.terminals
    staleAfter := c.staleNanos P }

/-- What `validate` guarantees about the peers and terminals of a daemon. -/
structure DaemonConfig.Accepted (cfg : DaemonConfig) : Prop where
  envoyID : cfg.envoyID ≠ ""
  notSelf : ∀ p ∈ cfg.peers, p.id ≠ cfg.envoyID
  peerIDs : (cfg.peers.map PeerSpec.id).Nodup
  terminals : cfg.terminals.Nodup
  named : "" ∉ cfg.terminals
  notTerminal : ∀ p ∈ cfg.peers, p.localCluster ∉ cfg.terminals

theorem ite_singleton_eq_nil {α : Type*} {P : Prop} [Decidable P] {a : α} :
    (if P then [a] else []) = [] ↔ ¬ P := by
  split_ifs with h <;> simp [h]

variable {index : ℕ}

theorem peerErrors_eq_nil {P : Parsers} {envoyID : String} {seen : List String} {p : PeerSpec}
    (h : peerErrors P envoyID seen index p = []) :
    p.id ≠ envoyID ∧ p.id ∉ seen ∧ p.localCluster ≠ "" := by
  simp only [peerErrors, append_eq_nil_iff, ite_singleton_eq_nil, not_or] at h
  exact ⟨h.1.2, h.2, h.1.1.1.2.2⟩

theorem terminalErrors_eq_nil {peerLocals seen : List String} {name : String}
    (h : terminalErrors peerLocals seen index name = []) :
    name ≠ "" ∧ name ∉ seen ∧ name ∉ peerLocals := by
  simp only [terminalErrors, append_eq_nil_iff, ite_singleton_eq_nil] at h
  exact ⟨h.1.1, h.1.2, h.2⟩

theorem validatePeers_eq_nil {P : Parsers} {envoyID : String} {seen : List String}
    {peers : List PeerSpec} (h : validatePeers P envoyID seen index peers = []) :
    (∀ p ∈ peers, p.id ≠ envoyID ∧ p.id ∉ seen ∧ p.localCluster ≠ "") ∧
      (peers.map PeerSpec.id).Nodup := by
  induction peers generalizing seen index with
  | nil => simp
  | cons p peers ih =>
    rw [validatePeers, append_eq_nil_iff] at h
    obtain ⟨hself, hseen, hcluster⟩ := peerErrors_eq_nil h.1
    obtain ⟨hrest, hnd⟩ := ih h.2
    constructor
    · intro q hq
      rcases mem_cons.mp hq with rfl | hq
      · exact ⟨hself, hseen, hcluster⟩
      · obtain ⟨h1, h2, h3⟩ := hrest q hq
        exact ⟨h1, fun hmem => h2 (mem_cons_of_mem _ hmem), h3⟩
    · grind

theorem validateTerminals_eq_nil {peerLocals seen : List String} {names : List String}
    (h : validateTerminals peerLocals seen index names = []) :
    (∀ name ∈ names, name ≠ "" ∧ name ∉ seen ∧ name ∉ peerLocals) ∧ names.Nodup := by
  induction names generalizing seen index with
  | nil => simp
  | cons name names ih =>
    rw [validateTerminals, append_eq_nil_iff] at h
    obtain ⟨hname, hseen, hlocal⟩ := terminalErrors_eq_nil h.1
    obtain ⟨hrest, hnd⟩ := ih h.2
    constructor
    · intro n hn
      rcases mem_cons.mp hn with rfl | hn
      · exact ⟨hname, hseen, hlocal⟩
      · obtain ⟨h1, h2, h3⟩ := hrest n hn
        exact ⟨h1, fun hmem => h2 (mem_cons_of_mem _ hmem), h3⟩
    · exact nodup_cons.mpr ⟨fun hmem => (hrest name hmem).2.1 mem_cons_self, hnd⟩

theorem Config.accepted (P : Parsers) (config : Config) (h : (config.validate P).2 = []) :
    ((config.validate P).1.daemonConfig P).Accepted := by
  simp only [Config.validate, append_eq_nil_iff, ite_singleton_eq_nil] at h
  obtain ⟨⟨⟨⟨⟨⟨⟨hid, -⟩, -⟩, -⟩, -⟩, -⟩, hpeers⟩, hterminals⟩ := h
  obtain ⟨hp, hnd⟩ := validatePeers_eq_nil hpeers
  obtain ⟨ht, htnd⟩ := validateTerminals_eq_nil hterminals
  exact
    { envoyID := hid
      notSelf := fun p hmem => (hp p hmem).1
      peerIDs := hnd
      terminals := htnd
      named := fun hmem => (ht "" hmem).1 rfl
      notTerminal := fun p hmem hterm => (ht _ hterm).2.2 (List.mem_map_of_mem hmem) }

/-- The local clusters of the peers of an accepted configuration have names. -/
theorem Config.localCluster_ne (P : Parsers) (config : Config) (h : (config.validate P).2 = []) :
    ∀ p ∈ ((config.validate P).1.daemonConfig P).peers, p.localCluster ≠ "" := by
  simp only [Config.validate, append_eq_nil_iff] at h
  exact fun p hp => ((validatePeers_eq_nil h.1.2).1 p hp).2.2

end BuiltOnEnvoy.ClusterRouter
