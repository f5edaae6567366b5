import BuiltOnEnvoy.ClusterRouter.Freshness

/-!
# Next hops and peers

A request follows a route by its next-hop local cluster, the routing protocol by
the peer at the head of the path. The two agree when the local clusters tell
the peers apart, and `validate` does not ask for that: it rejects a terminal with
the name of a local cluster, but not two peers with the same one.
-/

namespace BuiltOnEnvoy.ClusterRouter

open List

/-- The next hop of a learned route is the local cluster of the peer it was learned from. -/
def NextHopNamesPeer (t : Table) : Prop :=
  ∀ target r, t.routes.lookup target = some r → r.asPath ≠ [] →
    ∃ lc, t.localClusters.lookup r.nextHopLocalCluster = some lc ∧
      r.asPath.head? = some lc.peerID

/-- In every table the daemon stores, the next hops identify the advertising peers. -/
structure NextHopsIdentify (cfg : DaemonConfig) : Prop where
  names : ∀ ticks, (∀ t ∈ ticks, t.Of cfg) → NextHopNamesPeer (runTicks cfg ticks).table
  apart : ∀ p ∈ cfg.peers, ∀ q ∈ cfg.peers, p ≠ q → p.localCluster ≠ q.localCluster

section

variable {cfg : DaemonConfig}

theorem lookup_buildLocals_of_nodup (haccepted : cfg.Accepted)
    (hnd : (cfg.peers.map PeerSpec.localCluster).Nodup) {p : PeerSpec} (hp : p ∈ cfg.peers) :
    (buildLocals cfg).lookup p.localCluster =
      some { name := p.localCluster, role := .peer, peerID := p.id } := by
  rw [lookup_buildLocals, if_neg (haccepted.notTerminal p hp)]
  have hfind : (cfg.peers.reverse.find? fun q => q.localCluster = p.localCluster) = some p :=
    find?_key (mem_reverse.mpr hp) fun q hq hcluster =>
      inj_on_of_nodup_map hnd (mem_reverse.mp hq) hp hcluster
  rw [hfind]
  rfl

theorem nextHopNamesPeer_tickTable (haccepted : cfg.Accepted)
    (hnd : (cfg.peers.map PeerSpec.localCluster).Nodup) {advs : List PeerAdvertisement}
    (hadvs : ∀ pa ∈ advs, pa.peer ∈ cfg.peers) : NextHopNamesPeer (tickTable cfg advs) := by
  intro target r hr hpath
  rcases lookup_compute_cases hr with ⟨-, rfl⟩ | ⟨-, -, hcandidate⟩
  · exact absurd rfl hpath
  · obtain ⟨pa, hpa, hc⟩ := mem_allCandidates.mp hcandidate
    obtain ⟨route, -, -, -, -, rfl⟩ := mem_candidates hc
    exact ⟨_, lookup_buildLocals_of_nodup haccepted hnd (hadvs pa hpa), rfl⟩

theorem nextHopNamesPeer_runTicks (haccepted : cfg.Accepted)
    (hnd : (cfg.peers.map PeerSpec.localCluster).Nodup) {ticks : List Tick}
    (hof : ∀ t ∈ ticks, t.Of cfg) : NextHopNamesPeer (runTicks cfg ticks).table := by
  cases ticks using List.reverseRecOn with
  | nil =>
    intro target r hr
    cases hr
  | append_singleton history last =>
    rw [table_runTicks haccepted.peerIDs hof]
    refine nextHopNamesPeer_tickTable haccepted hnd fun pa hpa => ?_
    exact (contributions_sublist cfg history last).subset (List.mem_map_of_mem hpa)

/-- A local cluster names one peer only, so a table can hold a route of the other. -/
theorem nodup_of_nextHopNamesPeer (haccepted : cfg.Accepted)
    (hnamed : ∀ p ∈ cfg.peers, p.localCluster ≠ "")
    (h : ∀ ticks, (∀ t ∈ ticks, t.Of cfg) → NextHopNamesPeer (runTicks cfg ticks).table) :
    (cfg.peers.map PeerSpec.localCluster).Nodup := by
  -- the entry of its local cluster names every peer, by a tick in which only it answers
  have hname : ∀ p ∈ cfg.peers, ∃ lc, (buildLocals cfg).lookup p.localCluster = some lc ∧
      lc.peerID = p.id := by
    intro p hp
    obtain ⟨lc, hlc, hhead⟩ := h _ (soloTick_of cfg p) _ _
      (lookup_soloTick haccepted hp (hnamed p hp)) (by simp [candidateRoute, prepend])
    rw [table_soloTick haccepted] at hlc
    exact ⟨lc, hlc, (Option.some.inj hhead).symm⟩
  refine List.Nodup.map_on ?_ (List.Nodup.of_map _ haccepted.peerIDs)
  intro p hp q hq hcluster
  obtain ⟨lc, hlc, hid⟩ := hname p hp
  obtain ⟨lc', hlc', hid'⟩ := hname q hq
  rw [hcluster, hlc', Option.some.injEq] at hlc
  refine inj_on_of_nodup_map haccepted.peerIDs hp hq ?_
  rw [← hid, ← hid', hlc]

end

/-- The next hops of an accepted configuration identify the advertising peers
exactly when no two peers are configured with the same local cluster. -/
theorem nextHopsIdentify_iff (P : Parsers) (config : Config)
    (haccepted : (config.validate P).2 = []) :
    NextHopsIdentify ((config.validate P).1.daemonConfig P) ↔
      (config.peers.map PeerSpec.localCluster).Nodup := by
  have hcfg := config.accepted P haccepted
  have hnamed := config.localCluster_ne P haccepted
  constructor
  · intro h
    exact nodup_of_nextHopNamesPeer hcfg hnamed h.names
  · intro hnd
    exact
      { names := fun ticks hof => nextHopNamesPeer_runTicks hcfg hnd hof
        apart := fun p hp q hq hne hcluster =>
          hne (inj_on_of_nodup_map hnd hp hq hcluster) }

theorem sampleConfig_nextHops : ((sampleConfig "").validate sampleParsers).2 = [] ∧
    NextHopsIdentify (((sampleConfig "").validate sampleParsers).1.daemonConfig sampleParsers) := by
  have haccepted : ((sampleConfig "").validate sampleParsers).2 = [] := by decide +kernel
  exact ⟨haccepted, (nextHopsIdentify_iff sampleParsers _ haccepted).mpr (by decide)⟩

/-- Two peers behind one local cluster. -/
def sharedClusterConfig : Config :=
  { sampleConfig "" with peers := [samplePeer, ⟨"c", "http://c", "peer_b"⟩] }

/-- The route learned from `b` has a next hop that belongs to `c`. -/
theorem sharedCluster_names_other_peer :
    (sharedClusterConfig.validate sampleParsers).2 = [] ∧
      (let cfg := (sharedClusterConfig.validate sampleParsers).1.daemonConfig sampleParsers
       let tick := ⟨0, fun p => if p = samplePeer then some sampleAdvertisement else none, [0, 1]⟩
       let table := (runTicks cfg [tick]).table
       tick.Of cfg ∧ table.routes.lookup "svc" = some ⟨"svc", "peer_b", 1, ["b"]⟩ ∧
         table.localClusters.lookup "peer_b" = some ⟨"peer_b", .peer, "c"⟩ ∧
         ¬ NextHopsIdentify cfg) := by
  refine ⟨by decide +kernel, List.Perm.refl _, by decide +kernel, by decide +kernel, ?_⟩
  intro h
  exact h.apart samplePeer (by decide +kernel) ⟨"c", "http://c", "peer_b"⟩ (by decide +kernel)
    (by decide) rfl

end BuiltOnEnvoy.ClusterRouter
