import BuiltOnEnvoy.ClusterRouter.Mesh
import BuiltOnEnvoy.Foundations.Walks

/-!
# Safety of every run of a mesh

`SoundRoute` is what a route of a node may look like. It is about the static
configuration only, so it holds of a route for ever: an old answer on the wire
or in a cache is as sound as a fresh one. One lemma says that accepting a sound
route of a peer gives a sound route, and the steps of a mesh move sound routes
around.
-/

namespace BuiltOnEnvoy.ClusterRouter

open Foundations List

variable {ι : Type*} {M : Mesh ι} {i j : ι}

/-- A route the node `i` may hold: its AS-PATH spells a loop-free walk over
configured links from `i` to an owner of the target. -/
structure SoundRoute (M : Mesh ι) (i : ι) (r : Route) : Prop where
  nodup : r.asPath.Nodup
  notOwner : (M.cfg i).envoyID ∉ r.asPath
  distance_eq : r.distance = r.asPath.length
  distance_le : r.distance ≤ maxASPath + 1
  spells : ∃ path, r.asPath = path.map (fun k => (M.cfg k).envoyID) ∧
    Reaches M.Link (M.Owns r.targetCluster) i path

def SoundAdvertisement (M : Mesh ι) (j : ι) (adv : Advertisement) : Prop :=
  ∀ r ∈ adv.routes, SoundRoute M j r

/-- An advertisement as a poll of `i` uses it. -/
def SoundPeerAdvertisement (M : Mesh ι) (i : ι) (pa : PeerAdvertisement) : Prop :=
  pa.peer ∈ (M.cfg i).peers ∧
    ∃ j, pa.peer.id = (M.cfg j).envoyID ∧ SoundAdvertisement M j pa.adv

/-- Routes are stored under their target, and only an own terminal is stored
without an AS-PATH. -/
def SoundTable (M : Mesh ι) (i : ι) (t : Table) : Prop :=
  ∀ target r, t.routes.lookup target = some r →
    r.targetCluster = target ∧ SoundRoute M i r ∧ (r.asPath = [] → r = terminalRoute target)

theorem soundRoute_terminal {t : String} (h : M.Owns t i) : SoundRoute M i (terminalRoute t) where
  nodup := List.nodup_nil
  notOwner := by simp [terminalRoute]
  distance_eq := rfl
  distance_le := by simp [terminalRoute, maxASPath]
  spells := ⟨[], rfl, Reaches.here h⟩

variable {p : PeerSpec}

/-- The loop check, the prepend and the distance check together keep routes
sound when they travel over one link. -/
theorem SoundRoute.candidate {r : Route} (hr : SoundRoute M j r) (hp : p ∈ (M.cfg i).peers)
    (hid : p.id = (M.cfg j).envoyID) (hself : p.id ≠ (M.cfg i).envoyID)
    (hv : validAdvertisedRoute r = true) (hlocal : (M.cfg i).envoyID ∉ r.asPath)
    (hpeer : p.id ∉ r.asPath) :
    SoundRoute M i (candidateRoute p r) := by
  obtain ⟨-, -, hdist, -⟩ := (validAdvertisedRoute_iff r).mp hv
  obtain ⟨path, hspell, hreach⟩ := hr.spells
  refine ⟨?_, ?_, ?_, ?_, j :: path, ?_, Reaches.hop ⟨p, hp, hid⟩ hreach⟩
  · exact nodup_cons.mpr ⟨hpeer, hr.nodup⟩
  · rintro hmem
    rcases mem_cons.mp hmem with h | h
    · exact hself h.symm
    · exact hlocal h
  · simp [candidateRoute, prepend, hopCost, hr.distance_eq]
  · simpa [candidateRoute, hopCost, maxDistance] using hdist
  · simp [candidateRoute, prepend, hspell, hid]

theorem soundTable_tickTable (hM : M.Honest) {advs : List PeerAdvertisement}
    (h : ∀ pa ∈ advs, SoundPeerAdvertisement M i pa) :
    SoundTable M i (tickTable (M.cfg i) advs) := by
  intro target r hr
  rcases lookup_compute_cases hr with ⟨ht, rfl⟩ | ⟨-, htarget, hmem⟩
  · exact ⟨rfl, soundRoute_terminal ((isTerminal_buildLocals _ _).mp ht), fun _ => rfl⟩
  · obtain ⟨pa, hpa, hc⟩ := mem_allCandidates.mp hmem
    obtain ⟨hpeer, j, hid, hadv⟩ := h pa hpa
    obtain ⟨r', hr', hv, hlocal, hloop, rfl⟩ := mem_candidates hc
    exact ⟨htarget,
      (hadv r' hr').candidate hpeer hid ((hM.accepted i).notSelf _ hpeer) hv hlocal hloop,
      fun hnil => absurd hnil (allCandidates_asPath hmem)⟩

theorem SoundTable.advertiseTo {t t' : Table} (h : SoundTable M j t) (hsame : t.SameRoutes t')
    (peerID : String) : SoundAdvertisement M j (handle (M.cfg j) t' peerID) := by
  intro r hr
  obtain ⟨⟨key, hkey⟩, -⟩ := (mem_advertiseTo t' peerID r).mp hr
  rw [AList.perm_lookup hsame] at hkey
  exact (h key r hkey).2.1

/-- What holds of one node at every moment. -/
structure SoundDaemon (M : Mesh ι) (i : ι) (d : Daemon) : Prop where
  table : SoundTable M i d.table
  cache : ∀ id entry, d.lastPeer.lookup id = some entry →
    ∃ j, id = (M.cfg j).envoyID ∧ SoundAdvertisement M j entry.adv
  poll : ∀ poll, d.poll = some poll → ∀ pa, .done (some pa) ∈ poll.fetches →
    SoundPeerAdvertisement M i pa

structure SoundState (M : Mesh ι) (s : MeshState ι) : Prop where
  nodes : ∀ i, SoundDaemon M i (s.nodes i)
  sent : ∀ a ∈ s.sent, SoundAdvertisement M a.server a.adv

theorem soundDaemon_newDaemon (M : Mesh ι) (i : ι) : SoundDaemon M i (newDaemon (M.cfg i)) where
  table := by simp [SoundTable, newDaemon]
  cache := by simp [newDaemon]
  poll := by simp [newDaemon]

theorem soundState_init (M : Mesh ι) : SoundState M M.init where
  nodes := soundDaemon_newDaemon M
  sent := by simp [Mesh.init]

variable {d : Daemon}

theorem SoundDaemon.startPoll (h : SoundDaemon M i d) (now : ℤ) :
    SoundDaemon M i (d.startPoll (M.cfg i) now) where
  table := h.table
  cache := h.cache
  poll := by
    rintro poll hpoll pa hpa
    simp only [Daemon.startPoll, Option.some.injEq] at hpoll
    subst hpoll
    simp at hpa

variable {poll : Poll}

theorem Poll.mem_finish {k : ℕ} {result : Option PeerAdvertisement} {pa : PeerAdvertisement}
    (h : .done (some pa) ∈ (poll.finish k result).fetches) :
    .done (some pa) ∈ poll.fetches ∨ result = some pa := by
  rcases mem_or_eq_of_mem_set h with h | h
  · exact Or.inl h
  · exact Or.inr (Fetch.done.inj h).symm

theorem SoundDaemon.fetched (h : SoundDaemon M i d) (hpoll : d.poll = some poll) (k : ℕ)
    {adv : Advertisement} (hp : p ∈ (M.cfg i).peers) (hid : p.id = (M.cfg j).envoyID)
    (hadv : SoundAdvertisement M j adv) : SoundDaemon M i (d.fetched poll k p adv) where
  table := h.table
  cache := by
    intro id entry hentry
    by_cases hk : id = p.id
    · subst hk
      simp only [Daemon.fetched, AList.lookup_insert, Option.some.injEq] at hentry
      subst hentry
      exact ⟨j, hid, hadv⟩
    · simp only [Daemon.fetched, AList.lookup_insert_ne hk] at hentry
      exact h.cache id entry hentry
  poll := by
    intro poll' hpoll' pa hpa
    simp only [Daemon.fetched, Option.some.injEq] at hpoll'
    subst hpoll'
    rcases Poll.mem_finish hpa with hold | hnew
    · exact h.poll poll hpoll pa hold
    · cases hnew
      exact ⟨hp, j, hid, hadv⟩

theorem SoundDaemon.cachedAdvertisement (h : SoundDaemon M i d) (hp : p ∈ (M.cfg i).peers)
    {now : ℤ} {pa : PeerAdvertisement}
    (hc : cachedAdvertisement (M.cfg i) d.lastPeer p now = some pa) :
    SoundPeerAdvertisement M i pa := by
  unfold ClusterRouter.cachedAdvertisement at hc
  cases hl : d.lastPeer.lookup p.id with
  | none => simp [hl] at hc
  | some entry =>
    simp only [hl] at hc
    split_ifs at hc
    cases hc
    obtain ⟨j, hid, hadv⟩ := h.cache p.id entry hl
    exact ⟨hp, j, hid, hadv⟩

theorem SoundDaemon.failed (h : SoundDaemon M i d) (hpoll : d.poll = some poll) (k : ℕ)
    (hp : p ∈ (M.cfg i).peers) :
    SoundDaemon M i (d.failed (M.cfg i) poll k p) where
  table := h.table
  cache := h.cache
  poll := by
    intro poll' hpoll' pa hpa
    simp only [Daemon.failed, Option.some.injEq] at hpoll'
    subst hpoll'
    rcases Poll.mem_finish hpa with hold | hnew
    · exact h.poll poll hpoll pa hold
    · exact h.cachedAdvertisement hp hnew

theorem SoundDaemon.publish (hM : M.Honest) (h : SoundDaemon M i d) (hpoll : d.poll = some poll) :
    SoundDaemon M i (d.publish (M.cfg i) poll) where
  table := by
    apply soundTable_tickTable hM
    intro pa hpa
    obtain ⟨f, hf, hused⟩ := mem_filterMap.mp hpa
    cases f with
    | running => simp [Fetch.used] at hused
    | done result =>
      simp only [Fetch.used] at hused
      subst hused
      exact h.poll poll hpoll pa hf
  cache := h.cache
  poll := by simp [Daemon.publish]

variable [DecidableEq ι]

theorem SoundState.setNode {s : MeshState ι} (h : SoundState M s) (hd : SoundDaemon M i d) :
    SoundState M (s.setNode i d) where
  nodes := by
    intro k
    by_cases hk : k = i
    · subst hk
      simpa [MeshState.setNode] using hd
    · simpa [MeshState.setNode, hk] using h.nodes k
  sent := h.sent

/-- Every step of a mesh keeps all tables, caches, polls and answers sound. -/
theorem SoundState.step (hM : M.Honest) {s s' : MeshState ι} (h : SoundState M s)
    (hs : M.Step s s') : SoundState M s' := by
  cases hs with
  | start i now hidle => exact h.setNode ((h.nodes i).startPoll now)
  | serve j peerID t ht =>
    refine ⟨h.nodes, ?_⟩
    intro a ha
    rcases mem_cons.mp ha with rfl | ha
    · exact (h.nodes j).table.advertiseTo ht peerID
    · exact h.sent a ha
  | fetched i j k p poll adv hpoll hrun hp hat hsent =>
    have hmem : p ∈ (M.cfg i).peers := mem_of_getElem? hp
    exact h.setNode ((h.nodes i).fetched hpoll k hmem (hM.peerIDs i p hmem j hat)
      (h.sent _ hsent))
  | failed i k p poll hpoll hrun hp =>
    exact h.setNode ((h.nodes i).failed hpoll k (mem_of_getElem? hp))
  | publish i poll hpoll hdone => exact h.setNode ((h.nodes i).publish hM hpoll)

theorem soundState_of_reachable (hM : M.Honest) {s : MeshState ι} (hs : M.Reachable s) :
    SoundState M s := by
  induction hs with
  | refl => exact soundState_init M
  | tail _ hstep ih => exact ih.step hM hstep

/-- What a learned route of the node `i` looks like. -/
structure LearnedRoute (M : Mesh ι) (i : ι) (r : Route) : Prop where
  nodup : r.asPath.Nodup
  notOwner : (M.cfg i).envoyID ∉ r.asPath
  distance_eq : r.distance = r.asPath.length
  distance_le : r.distance ≤ maxASPath + 1
  spells : ∃ first path, r.asPath = (first :: path).map (fun k => (M.cfg k).envoyID) ∧
    M.Link i first ∧ Reaches M.Link (M.Owns r.targetCluster) first path

/-- In every reachable state, a route is the node's own terminal or a learned
route whose AS-PATH is loop free, does not contain the node, is as long as the
distance, and spells a walk over configured links from a direct peer to a node
that fronts the target. -/
theorem mesh_routes_sound (hM : M.Honest) {s : MeshState ι} (hs : M.Reachable s) (i : ι)
    (target : String) (r : Route) (hr : (s.nodes i).table.routes.lookup target = some r) :
    r.targetCluster = target ∧
      ((r = terminalRoute target ∧ M.Owns target i) ∨ LearnedRoute M i r) := by
  obtain ⟨rfl, hsound, hnil⟩ := ((soundState_of_reachable hM hs).nodes i).table target r hr
  refine ⟨rfl, ?_⟩
  obtain ⟨path, hspell, hreach⟩ := hsound.spells
  cases hreach with
  | here hown => exact Or.inl ⟨hnil hspell, hown⟩
  | @hop _ first path hlink hrest =>
    exact Or.inr ⟨hsound.nodup, hsound.notOwner, hsound.distance_eq, hsound.distance_le,
      first, path, hspell, hlink, hrest⟩

/-- Two nodes: `a` peers with `b`, and `b` fronts `svc`. -/
def pairMesh : Mesh Bool where
  cfg
    | false => ⟨"a", [⟨"b", "http://b", "peer_b"⟩], [], 60⟩
    | true => ⟨"b", [], ["svc"], 60⟩
  nodeAt endpoint := if endpoint = "http://b" then some true else none

theorem pairMesh_accepted (i : Bool) : (pairMesh.cfg i).Accepted := by
  cases i <;> constructor <;> simp [pairMesh]

theorem pairMesh_honest : pairMesh.Honest where
  accepted := pairMesh_accepted
  ids := by
    intro i j h
    cases i <;> cases j <;> simp_all [pairMesh]
  peerIDs := by
    intro i p hp j hj
    cases i <;> simp_all [pairMesh]

def pairRoute : Route := ⟨"svc", "peer_b", 1, ["b"]⟩

theorem pairMesh_learns : ∃ s, pairMesh.Reachable s ∧
    (s.nodes false).table.routes.lookup "svc" = some pairRoute := by
  have hb : pairMesh.Reachable _ := (Relation.ReflTransGen.refl.tail
    (.start _ true 0 rfl)).tail (.publish _ true _ rfl (by simp [pairMesh]))
  have hserve := hb.tail (.serve _ true "a" _ (List.Perm.refl _))
  have hfetch := (hserve.tail (.start _ false 1 rfl)).tail
    (.fetched _ false true 0 ⟨"b", "http://b", "peer_b"⟩ _ _ rfl rfl rfl rfl mem_cons_self)
  refine ⟨_, hfetch.tail (.publish _ false _ rfl ?_), ?_⟩
  · simp [Poll.finish, pairMesh]
  · decide

theorem mesh_routes_sound_pair : pairRoute.targetCluster = "svc" ∧
    ((pairRoute = terminalRoute "svc" ∧ pairMesh.Owns "svc" false) ∨
      LearnedRoute pairMesh false pairRoute) := by
  obtain ⟨s, hs, hr⟩ := pairMesh_learns
  exact mesh_routes_sound pairMesh_honest hs false "svc" pairRoute hr

end BuiltOnEnvoy.ClusterRouter
