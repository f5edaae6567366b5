import BuiltOnEnvoy.ClusterRouter.MeshSafety

/-!
# Converged meshes route along shortest paths

At a fixpoint of polling, the tables agree with the hop metric of the peer
links. Soundness is an induction over the AS-PATH: a learned route is the
candidate of the route its first peer holds. Completeness is an induction over
the hop distance: the next node of a shortest walk holds a route whose path
cannot contain the receiver, so neither split horizon nor the loop check
withholds it.
-/

namespace BuiltOnEnvoy.ClusterRouter

open Foundations List

variable {ι : Type*}

/-- The advertisements of a poll in which every peer answers from its current
table. -/
def Mesh.freshAdvertisements (M : Mesh ι) (T : ι → Table) (i : ι) : List PeerAdvertisement :=
  (M.cfg i).peers.filterMap fun p =>
    (M.nodeAt p.endpoint).map fun j => ⟨p, handle (M.cfg j) (T j) (M.cfg i).envoyID⟩

/-- Polling changes no route of any node. -/
def Mesh.IsFixpoint (M : Mesh ι) (T : ι → Table) : Prop :=
  ∀ i target, (T i).routes.lookup target =
    (tickTable (M.cfg i) (M.freshAdvertisements T i)).routes.lookup target

/-- An honest mesh in which every peer endpoint answers and the peers of a node
have distinct local clusters. -/
structure Mesh.WellConfigured (M : Mesh ι) : Prop extends M.Honest where
  answers : ∀ i, ∀ p ∈ (M.cfg i).peers, ∃ j, M.nodeAt p.endpoint = some j
  clusters : ∀ i, ((M.cfg i).peers.map PeerSpec.localCluster).Nodup

variable {M : Mesh ι} {T : ι → Table} {i j : ι} {target : String} {r : Route}

theorem mem_freshAdvertisements {pa : PeerAdvertisement} :
    pa ∈ M.freshAdvertisements T i ↔ ∃ p ∈ (M.cfg i).peers, ∃ j, M.nodeAt p.endpoint = some j ∧
      pa = ⟨p, handle (M.cfg j) (T j) (M.cfg i).envoyID⟩ := by
  simp only [Mesh.freshAdvertisements, mem_filterMap, Option.map_eq_some_iff]
  constructor
  · rintro ⟨p, hp, j, hj, rfl⟩
    exact ⟨p, hp, j, hj, rfl⟩
  · rintro ⟨p, hp, j, hj, rfl⟩
    exact ⟨p, hp, j, hj, rfl⟩

theorem targetCluster_eq (hT : M.IsFixpoint T) (h : (T i).routes.lookup target = some r) :
    r.targetCluster = target := by
  rw [hT i target] at h
  rcases lookup_compute_cases h with ⟨-, rfl⟩ | ⟨-, ht, -⟩
  · rfl
  · exact ht

theorem mem_advertiseTo_fixpoint (hT : M.IsFixpoint T) {peerID : String} :
    r ∈ advertiseTo (T j) peerID ↔
      (T j).routes.lookup r.targetCluster = some r ∧ peerID ∉ r.asPath := by
  rw [mem_advertiseTo]
  constructor
  · rintro ⟨⟨key, hkey⟩, hp⟩
    rw [targetCluster_eq hT hkey]
    exact ⟨hkey, hp⟩
  · rintro ⟨hkey, hp⟩
    exact ⟨⟨_, hkey⟩, hp⟩

/-- At a fixpoint a route is an own terminal, or comes from the route that the
peer it names holds for the same target. -/
theorem fixpoint_cases (hT : M.IsFixpoint T) (h : (T i).routes.lookup target = some r) :
    (M.Owns target i ∧ r = terminalRoute target) ∨
      (¬ M.Owns target i ∧ ∃ p ∈ (M.cfg i).peers, ∃ j, M.nodeAt p.endpoint = some j ∧
        ∃ r', (T j).routes.lookup target = some r' ∧ validAdvertisedRoute r' = true ∧
          (M.cfg i).envoyID ∉ r'.asPath ∧ p.id ∉ r'.asPath ∧ r = candidateRoute p r') := by
  rw [hT i target] at h
  rcases lookup_compute_cases h with ⟨ht, rfl⟩ | ⟨ht, htarget, hmem⟩
  · exact Or.inl ⟨(isTerminal_buildLocals _ _).mp ht, rfl⟩
  · refine Or.inr ⟨fun hown => ht ((isTerminal_buildLocals _ _).mpr hown), ?_⟩
    obtain ⟨pa, hpa, hc⟩ := mem_allCandidates.mp hmem
    obtain ⟨p, hp, j, hj, rfl⟩ := mem_freshAdvertisements.mp hpa
    obtain ⟨r', hr', hv, hlocal, hloop, rfl⟩ := mem_candidates hc
    have hlook := ((mem_advertiseTo_fixpoint hT).mp hr').1
    have htr : r'.targetCluster = target := htarget
    rw [htr] at hlook
    exact ⟨p, hp, j, hj, r', hlook, hv, hlocal, hloop, rfl⟩

theorem soundRoute_fixpoint (hM : M.Honest) (hT : M.IsFixpoint T) (n : ℕ) :
    ∀ i r, r.asPath.length = n → (T i).routes.lookup target = some r → SoundRoute M i r := by
  induction n with
  | zero =>
    intro i r hlen h
    rcases fixpoint_cases hT h with ⟨hown, rfl⟩ | ⟨-, p, -, j, -, r', -, -, -, -, rfl⟩
    · exact soundRoute_terminal hown
    · simp [candidateRoute, prepend] at hlen
  | succ n ih =>
    intro i r hlen h
    rcases fixpoint_cases hT h with ⟨hown, rfl⟩ | ⟨-, p, hp, j, hj, r', hr', hv, hloc, hloop, rfl⟩
    · exact soundRoute_terminal hown
    · have hlen' : r'.asPath.length = n := by simpa [candidateRoute, prepend] using hlen
      exact (ih j r' hlen' hr').candidate hp (hM.peerIDs i p hp j hj) ((hM.accepted i).notSelf p hp)
        hv hloc hloop

theorem distance_mem_hopCounts (hM : M.Honest) (hT : M.IsFixpoint T)
    (h : (T i).routes.lookup target = some r) :
    ∃ d : ℕ, r.distance = d ∧ d ≤ maxASPath + 1 ∧ d ∈ hopCounts M.Link (M.Owns target) i := by
  have hs := soundRoute_fixpoint hM hT r.asPath.length i r rfl h
  obtain ⟨path, hspell, hreach⟩ := hs.spells
  rw [targetCluster_eq hT h] at hreach
  have hd := hs.distance_eq
  have hle := hs.distance_le
  refine ⟨r.asPath.length, hd, by omega, path, hreach, ?_⟩
  rw [hspell, length_map]

theorem candidate_mem (hT : M.IsFixpoint T) {p : PeerSpec} (hp : p ∈ (M.cfg i).peers)
    (hj : M.nodeAt p.endpoint = some j) {r' : Route}
    (hr' : (T j).routes.lookup r'.targetCluster = some r') (hv : validAdvertisedRoute r' = true)
    (hloc : (M.cfg i).envoyID ∉ r'.asPath) (hloop : p.id ∉ r'.asPath) :
    candidateRoute p r' ∈
      allCandidates (M.cfg i).envoyID (buildLocals (M.cfg i)) (M.freshAdvertisements T i) := by
  refine mem_allCandidates.mpr ⟨_, mem_freshAdvertisements.mpr ⟨p, hp, j, hj, rfl⟩, ?_⟩
  obtain ⟨c, hc⟩ := Option.isSome_iff_exists.mp (buildLocals_peer hp)
  unfold candidates
  simp only [hc]
  refine List.mem_map_of_mem (mem_acceptedRoutes_of_unique ?_ hv hloc hloop (by simp) ?_)
  · exact (mem_advertiseTo_fixpoint hT).mpr ⟨hr', hloc⟩
  · intro x hx hxt
    have hlook := ((mem_advertiseTo_fixpoint hT).mp hx).1
    rw [hxt, hr'] at hlook
    exact (Option.some.inj hlook).symm

theorem target_ne_empty (hM : M.WellConfigured)
    (h : (hopCounts M.Link (M.Owns target) i).Nonempty) : target ≠ "" := by
  rintro rfl
  obtain ⟨_, walk, hwalk, -⟩ := h
  obtain ⟨k, hk⟩ := hwalk.exists_goal
  exact (hM.accepted k).named hk

/-- A route does not lead through a node that is further from every owner than it is long. -/
theorem envoyID_notMem_asPath (hM : M.WellConfigured) (hT : M.IsFixpoint T)
    (h : (T j).routes.lookup target = some r)
    (hfar : ∀ n ∈ hopCounts M.Link (M.Owns target) i, r.asPath.length < n) :
    (M.cfg i).envoyID ∉ r.asPath := by
  have hs := soundRoute_fixpoint hM.toHonest hT r.asPath.length j r rfl h
  obtain ⟨path, hspell, hreach⟩ := hs.spells
  rw [targetCluster_eq hT h] at hreach
  intro hmem
  rw [hspell, List.mem_map] at hmem
  obtain ⟨k, hkmem, hkid⟩ := hmem
  obtain rfl : k = i := hM.ids hkid
  obtain ⟨rest, hrest, hlt⟩ := hreach.of_mem hkmem
  have hshort := hfar rest.length ⟨rest, hrest, rfl⟩
  rw [hspell, length_map] at hshort
  omega

/-- A node within the cap of an owner holds a route of the shortest length. -/
theorem fixpoint_complete (hM : M.WellConfigured) (hT : M.IsFixpoint T) (d : ℕ) :
    ∀ i, IsLeast (hopCounts M.Link (M.Owns target) i) d → d ≤ maxASPath + 1 →
      ∃ r, (T i).routes.lookup target = some r ∧ r.distance = d := by
  induction d with
  | zero =>
    intro i hd _
    have hown : M.Owns target i := goal_of_isLeast_zero hd
    refine ⟨terminalRoute target, ?_, rfl⟩
    rw [hT i target]
    exact lookup_compute_terminal _ _ ((isTerminal_buildLocals _ _).mpr hown)
  | succ d ih =>
    intro i hd hcap
    obtain ⟨k, ⟨p, hp, hid⟩, hk⟩ := exists_closer_neighbour hd
    obtain ⟨j, hj⟩ := hM.answers i p hp
    have hjk : j = k := hM.ids ((hM.peerIDs i p hp j hj).symm.trans hid)
    subst hjk
    obtain ⟨r', hr', hdist⟩ := ih j hk (by omega)
    have hs := soundRoute_fixpoint hM.toHonest hT r'.asPath.length j r' rfl hr'
    have htarget := targetCluster_eq hT hr'
    have hlen : r'.asPath.length = d := by
      have hlength := hs.distance_eq
      omega
    have hnot : ¬ M.Owns target i := by
      intro hown
      have hzero : d + 1 ≤ 0 := hd.2 ⟨[], Reaches.here hown, rfl⟩
      omega
    have hloc : (M.cfg i).envoyID ∉ r'.asPath := by
      apply envoyID_notMem_asPath hM hT hr'
      intro n hn
      have hmin := hd.2 hn
      omega
    have hloop : p.id ∉ r'.asPath := hid ▸ hs.notOwner
    have hv : validAdvertisedRoute r' = true := by
      rw [validAdvertisedRoute_iff, htarget]
      refine ⟨target_ne_empty hM ⟨_, hd.1⟩, ?_, ?_, ?_⟩
      · omega
      · unfold maxDistance
        omega
      · omega
    have hr'' : (T j).routes.lookup r'.targetCluster = some r' := by rw [htarget, hr']
    have hcand := candidate_mem hT hp hj hr'' hv hloc hloop
    have hterm : ¬ IsTerminal (buildLocals (M.cfg i)) (candidateRoute p r').targetCluster := by
      rw [isTerminal_buildLocals]
      exact htarget.symm ▸ hnot
    obtain ⟨r, hr, hle⟩ := lookup_compute_le hterm hcand
    have hlook : (T i).routes.lookup target = some r := by
      rw [hT i target, ← htarget]
      exact hr
    refine ⟨r, hlook, ?_⟩
    obtain ⟨m, hm, -, hmem⟩ := distance_mem_hopCounts hM.toHonest hT hlook
    have hmin := hd.2 hmem
    have hcd : (candidateRoute p r').distance = r'.distance + 1 := rfl
    push_cast
    omega

theorem isLeast_distance (hM : M.WellConfigured) (hT : M.IsFixpoint T)
    (h : (T i).routes.lookup target = some r) :
    ∃ d : ℕ, r.distance = d ∧ d ≤ maxASPath + 1 ∧
      IsLeast (hopCounts M.Link (M.Owns target) i) d := by
  obtain ⟨n, hn, hcap, hmem⟩ := distance_mem_hopCounts hM.toHonest hT h
  obtain ⟨d, hdn, hd⟩ := exists_isLeast_hopCounts hmem
  obtain ⟨r', hr', hdist⟩ := fixpoint_complete hM hT d i hd (hdn.trans hcap)
  have hrr : r = r' := Option.some.inj (h.symm.trans hr')
  subst hrr
  exact ⟨d, hdist, hdn.trans hcap, hd⟩

/-- The node a request for `target` is sent to from node `i`: the peer behind
the local cluster that the request handler writes into the next-hop header. -/
def nextNode (M : Mesh ι) (T : ι → Table) (target : String) (i : ι) : Option ι :=
  match (T i).routes.lookup target with
  | none => none
  | some r =>
    match (M.cfg i).peers.find? fun p => p.localCluster = r.nextHopLocalCluster with
    | none => none
    | some p => M.nodeAt p.endpoint

/-- The nodes a request visits in at most `fuel` hops. -/
def forward (M : Mesh ι) (T : ι → Table) (target : String) : ℕ → ι → List ι
  | 0, i => [i]
  | fuel + 1, i => i :: (nextNode M T target i).elim [] (forward M T target fuel)

theorem find_localCluster (hM : M.WellConfigured) {p : PeerSpec} (hp : p ∈ (M.cfg i).peers) :
    (M.cfg i).peers.find? (fun q => q.localCluster = p.localCluster) = some p :=
  find?_key hp fun _ hq hcluster => inj_on_of_nodup_map (hM.clusters i) hq hp hcluster

theorem nextNode_learned (hM : M.WellConfigured) (hT : M.IsFixpoint T) {n : ℕ}
    (h : (T i).routes.lookup target = some r) (hn : r.distance = (n + 1 : ℕ)) :
    ∃ j r', nextNode M T target i = some j ∧ (T j).routes.lookup target = some r' ∧
      r'.distance = n := by
  rcases fixpoint_cases hT h with ⟨-, rfl⟩ | ⟨-, p, hp, j, hj, r', hr', -, -, -, rfl⟩
  · simp [terminalRoute] at hn
    omega
  · refine ⟨j, r', ?_, hr', ?_⟩
    · unfold nextNode
      simp only [h, candidateRoute, find_localCluster hM hp, hj]
    · have : (candidateRoute p r').distance = r'.distance + 1 := rfl
      omega

theorem nextNode_owner (hM : M.WellConfigured) (hT : M.IsFixpoint T) (hown : M.Owns target i) :
    nextNode M T target i = none := by
  have hlook : (T i).routes.lookup target = some (terminalRoute target) := by
    rw [hT i target]
    exact lookup_compute_terminal _ _ ((isTerminal_buildLocals _ _).mpr hown)
  have hfind : (M.cfg i).peers.find? (fun p => p.localCluster = target) = none := by
    rw [find?_eq_none]
    intro p hp heq
    exact (hM.accepted i).notTerminal p hp (of_decide_eq_true heq ▸ hown)
  unfold nextNode
  simp [hlook, terminalRoute, hfind]

theorem forward_spec (hM : M.WellConfigured) (hT : M.IsFixpoint T) (d : ℕ) :
    ∀ i r, (T i).routes.lookup target = some r → r.distance = d →
      ∃ visited, (∀ fuel ≥ d, forward M T target fuel i = visited) ∧
        visited.length = d + 1 ∧ visited.Nodup ∧
        (∀ k ∈ visited, ∃ rk, (T k).routes.lookup target = some rk ∧ rk.distance ≤ d) ∧
        ∃ owner, visited.getLast? = some owner ∧ M.Owns target owner := by
  induction d with
  | zero =>
    intro i r h hd
    have hown : M.Owns target i := by
      obtain ⟨m, hm, -, hleast⟩ := isLeast_distance hM hT h
      have hm0 : m = 0 := by omega
      exact goal_of_isLeast_zero (hm0 ▸ hleast)
    refine ⟨[i], ?_, rfl, nodup_singleton i, ?_, i, rfl, hown⟩
    · intro fuel _
      cases fuel with
      | zero => rfl
      | succ fuel => simp [forward, nextNode_owner hM hT hown]
    · intro k hk
      rw [mem_singleton] at hk
      subst hk
      exact ⟨r, h, hd.le⟩
  | succ d ih =>
    intro i r h hd
    obtain ⟨j, r', hnext, hr', hd'⟩ := nextNode_learned hM hT h hd
    obtain ⟨visited, hrun, hlen, hnd, hdist, owner, hlast, hown⟩ := ih j r' hr' hd'
    refine ⟨i :: visited, ?_, by simp [hlen], ?_, ?_, owner, ?_, hown⟩
    · intro fuel hfuel
      obtain ⟨fuel, rfl⟩ : ∃ f, fuel = f + 1 := ⟨fuel - 1, by omega⟩
      simp [forward, hnext, hrun fuel (by omega)]
    · grind
    · intro k hk
      rcases mem_cons.mp hk with rfl | hk
      · exact ⟨r, h, hd.le⟩
      · obtain ⟨rk, hrk, hle⟩ := hdist k hk
        exact ⟨rk, hrk, by push_cast; omega⟩
    · rw [getLast?_cons, hlast]
      rfl

/-- At a fixpoint a node has a route exactly when an owner is within the cap,
the distance is the shortest hop count, and a request that follows the next
hops reaches an owner in exactly that many hops without revisiting a node. -/
theorem fixpoint_routes_shortest (hM : M.WellConfigured) (hT : M.IsFixpoint T) (target : String)
    (i : ι) :
    ((∃ r, (T i).routes.lookup target = some r) ↔
      ∃ n ∈ hopCounts M.Link (M.Owns target) i, (n : ℤ) ≤ maxDistance + hopCost) ∧
    ∀ r, (T i).routes.lookup target = some r →
      ∃ d : ℕ, r.distance = d ∧ IsLeast (hopCounts M.Link (M.Owns target) i) d ∧
        ∃ visited owner, (∀ fuel ≥ d, forward M T target fuel i = visited) ∧
          visited.length = d + 1 ∧ visited.Nodup ∧ visited.getLast? = some owner ∧
          M.Owns target owner := by
  refine ⟨⟨?_, ?_⟩, ?_⟩
  · rintro ⟨r, hr⟩
    obtain ⟨d, -, hcap, hd⟩ := isLeast_distance hM hT hr
    refine ⟨d, hd.1, ?_⟩
    unfold maxDistance hopCost
    omega
  · rintro ⟨n, hn, hcap⟩
    obtain ⟨d, hdn, hd⟩ := exists_isLeast_hopCounts hn
    unfold maxDistance hopCost at hcap
    obtain ⟨r, hr, -⟩ := fixpoint_complete hM hT d i hd (by omega)
    exact ⟨r, hr⟩
  · intro r hr
    obtain ⟨d, hdist, -, hd⟩ := isLeast_distance hM hT hr
    obtain ⟨visited, hrun, hlen, hnd, -, owner, hlast, hown⟩ := forward_spec hM hT d i r hr hdist
    exact ⟨d, hdist, hd, visited, owner, hrun, hlen, hnd, hlast, hown⟩

/-- The converged tables of the two-node mesh. -/
def pairTables : Bool → Table
  | false => tickTable (pairMesh.cfg false)
      [⟨⟨"b", "http://b", "peer_b"⟩,
        handle (pairMesh.cfg true) (tickTable (pairMesh.cfg true) []) "a"⟩]
  | true => tickTable (pairMesh.cfg true) []

theorem pairTables_isFixpoint : pairMesh.IsFixpoint pairTables := by
  intro i target
  cases i <;> rfl

theorem pairMesh_wellConfigured : pairMesh.WellConfigured where
  toHonest := pairMesh_honest
  answers := by
    intro i p hp
    cases i <;> simp_all [pairMesh]
  clusters := by
    intro i
    cases i <;> simp [pairMesh]

theorem fixpoint_routes_shortest_pair :
    (∃ r, (pairTables false).routes.lookup "svc" = some r) ↔
      ∃ n ∈ hopCounts pairMesh.Link (pairMesh.Owns "svc") false,
        (n : ℤ) ≤ maxDistance + hopCost :=
  (fixpoint_routes_shortest pairMesh_wellConfigured pairTables_isFixpoint "svc" false).1

example : (pairTables false).routes.lookup "svc" = some pairRoute := by decide

end BuiltOnEnvoy.ClusterRouter
