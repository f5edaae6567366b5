import BuiltOnEnvoy.ClusterRouter.Mesh

/-!
# Withdrawn targets leave the mesh

Synchronous rounds from arbitrary tables, which may name any distance and any
path and may even be stored under the wrong key. A target that nobody fronts is
only ever learned from a peer, one hop farther than the peer held it, so after
`k` rounds the distance of what is left is at least `k`. The distance check
then removes the rest.
-/

namespace BuiltOnEnvoy.ClusterRouter

variable {ι : Type*}

/-- `advs` are fresh answers of all configured peers of `i`. Every answer may
walk the peer's table in an order of its own. -/
def Mesh.Fresh (M : Mesh ι) (T : ι → Table) (i : ι) (advs : List PeerAdvertisement) : Prop :=
  List.Forall₂ (fun p pa => pa.peer = p ∧ ∃ j, M.nodeAt p.endpoint = some j ∧
    ∃ t, (T j).SameRoutes t ∧ pa.adv = handle (M.cfg j) t (M.cfg i).envoyID) (M.cfg i).peers advs

/-- Every node recomputes its table from fresh answers of all its peers. -/
def Mesh.SyncRound (M : Mesh ι) (T T' : ι → Table) : Prop :=
  ∀ i, ∃ advs, M.Fresh T i advs ∧ T' i = tickTable (M.cfg i) advs

/-- `k` synchronous rounds lead from `T` to `T'`. -/
inductive Mesh.Rounds (M : Mesh ι) (T : ι → Table) : ℕ → (ι → Table) → Prop
  | zero : Rounds M T 0 T
  | succ {k T' T''} : Rounds M T k T' → M.SyncRound T' T'' → Rounds M T (k + 1) T''

variable {M : Mesh ι} {T T' : ι → Table} {target : String}

theorem Mesh.Fresh.mem {i : ι} {advs : List PeerAdvertisement} (h : M.Fresh T i advs)
    {pa : PeerAdvertisement} (hpa : pa ∈ advs) {r : Route} (hr : r ∈ pa.adv.routes) :
    ∃ j key, (T j).routes.lookup key = some r := by
  unfold Mesh.Fresh at h
  generalize (M.cfg i).peers = peers at h
  induction h with
  | nil => simp at hpa
  | cons hhead _ ih =>
    rcases List.mem_cons.mp hpa with rfl | hpa
    · obtain ⟨-, j, -, t, hsame, hadv⟩ := hhead
      rw [hadv] at hr
      obtain ⟨⟨key, hkey⟩, -⟩ := (mem_advertiseTo t _ r).mp hr
      exact ⟨j, key, (AList.perm_lookup hsame).symm.trans hkey⟩
    · exact ih hpa

/-- After a round, a route to a target without owner is one hop longer than a
route that some node held before, and within the cap. -/
theorem Mesh.SyncRound.source (h : M.SyncRound T T') (hown : ∀ i, ¬ M.Owns target i) {i : ι}
    {r : Route} (hr : (T' i).routes.lookup target = some r) :
    ∃ j key r', (T j).routes.lookup key = some r' ∧ r'.targetCluster = target ∧
      0 ≤ r'.distance ∧ r'.distance ≤ maxDistance ∧ r.distance = r'.distance + hopCost := by
  obtain ⟨advs, hfresh, htable⟩ := h i
  rw [htable] at hr
  rcases lookup_compute_cases hr with ⟨ht, -⟩ | ⟨-, htarget, hmem⟩
  · exact absurd ((isTerminal_buildLocals _ _).mp ht) (hown i)
  · obtain ⟨pa, hpa, hc⟩ := mem_allCandidates.mp hmem
    obtain ⟨r', hr', hv, -, -, rfl⟩ := mem_candidates hc
    obtain ⟨j, key, hkey⟩ := hfresh.mem hpa hr'
    obtain ⟨-, hnonneg, hcap, -⟩ := (validAdvertisedRoute_iff r').mp hv
    exact ⟨j, key, r', hkey, htarget, hnonneg, hcap, rfl⟩

theorem Mesh.SyncRound.targetCluster_eq (h : M.SyncRound T T') {i : ι} {key : String} {r : Route}
    (hr : (T' i).routes.lookup key = some r) : r.targetCluster = key := by
  obtain ⟨advs, -, htable⟩ := h i
  rw [htable] at hr
  rcases lookup_compute_cases hr with ⟨-, rfl⟩ | ⟨-, htarget, -⟩
  · rfl
  · exact htarget

theorem Mesh.Rounds.distance_ge {k : ℕ} (h : M.Rounds T (k + 1) T')
    (hown : ∀ i, ¬ M.Owns target i) {i : ι} {r : Route}
    (hr : (T' i).routes.lookup target = some r) : ((k + 1 : ℕ) : ℤ) ≤ r.distance := by
  induction k generalizing T' i r with
  | zero =>
    cases h with
    | succ _ hround =>
      obtain ⟨j, key, r', -, -, hnonneg, -, hdist⟩ := hround.source hown hr
      unfold hopCost at hdist
      push_cast
      omega
  | succ k ih =>
    cases h with
    | succ hprev hround =>
      obtain ⟨j, key, r', hkey, htarget, -, -, hdist⟩ := hround.source hown hr
      -- The table before this round is the result of a round itself.
      have hstored : key = target := by
        cases hprev with
        | succ _ hbefore => exact (hbefore.targetCluster_eq hkey).symm.trans htarget
      subst hstored
      have hle := ih hprev hkey
      unfold hopCost at hdist
      push_cast at hle ⊢
      omega

/-- No count to infinity: after `k` rounds from arbitrary tables, what is left
for a target without owner has distance at least `k`, and after
`MaxDistance + 2` rounds nothing is left. Zero rounds leave the starting tables
as they are, so there the bound is one on these. -/
theorem no_count_to_infinity {k : ℕ} (h : M.Rounds T k T') (hown : ∀ i, ¬ M.Owns target i) :
    ((0 < k ∨ ∀ i key r, (T i).routes.lookup key = some r → 0 ≤ r.distance) →
      ∀ i r, (T' i).routes.lookup target = some r → (k : ℤ) ≤ r.distance) ∧
    (maxDistance + 2 ≤ k → ∀ i, (T' i).routes.lookup target = none) := by
  constructor
  · intro hk i r hr
    cases k with
    | zero =>
      cases h with
      | zero => exact hk.resolve_left (lt_irrefl 0) i target r hr
    | succ k => exact h.distance_ge hown hr
  · intro hk i
    cases k with
    | zero =>
      unfold maxDistance at hk
      omega
    | succ k =>
      rw [Option.eq_none_iff_forall_ne_some]
      intro r hr
      have hge := h.distance_ge hown hr
      cases h with
      | succ _ hround =>
        obtain ⟨j, key, r', -, -, -, hcap, hdist⟩ := hround.source hown hr
        unfold hopCost at hdist
        omega

/-- Two peers that advertise a withdrawn target to each other. -/
def ghostMesh : Mesh Bool where
  cfg
    | false => ⟨"a", [⟨"b", "http://b", "peer_b"⟩], [], 60⟩
    | true => ⟨"b", [⟨"a", "http://a", "peer_a"⟩], [], 60⟩
  nodeAt endpoint :=
    if endpoint = "http://a" then some false else if endpoint = "http://b" then some true else none

/-- Both nodes believe to front `svc` themselves. -/
def ghostTables (i : Bool) : Table :=
  { envoyID := (ghostMesh.cfg i).envoyID
    routes := (∅ : Routes).insert "svc" (terminalRoute "svc")
    localClusters := ∅ }

def ghostNext (i : Bool) : Table :=
  tickTable (ghostMesh.cfg i) [⟨((ghostMesh.cfg i).peers.head?).getD ⟨"", "", ""⟩,
    handle (ghostMesh.cfg !i) (ghostTables !i) (ghostMesh.cfg i).envoyID⟩]

theorem ghostMesh_round : ghostMesh.SyncRound ghostTables ghostNext := by
  intro i
  refine ⟨_, ?_, rfl⟩
  cases i with
  | false => exact .cons ⟨rfl, true, rfl, _, List.Perm.refl _, rfl⟩ .nil
  | true => exact .cons ⟨rfl, false, rfl, _, List.Perm.refl _, rfl⟩ .nil

theorem no_count_to_infinity_ghost :
    (ghostNext false).routes.lookup "svc" = some ⟨"svc", "peer_b", 1, ["b"]⟩ ∧
      ∀ i r, (ghostNext i).routes.lookup "svc" = some r → ((1 : ℕ) : ℤ) ≤ r.distance := by
  refine ⟨by decide, ?_⟩
  have hown : ∀ i, ¬ ghostMesh.Owns "svc" i := by
    intro i
    cases i <;> simp [Mesh.Owns, ghostMesh]
  exact (no_count_to_infinity (.succ .zero ghostMesh_round) hown).1 (Or.inl Nat.one_pos)

end BuiltOnEnvoy.ClusterRouter
