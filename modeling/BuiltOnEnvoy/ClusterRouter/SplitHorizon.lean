import BuiltOnEnvoy.ClusterRouter.BestPath

/-!
# Split horizon

A node withholds from a peer the routes that go through that peer. The peer
would reject them, so what it computes is the same with and without them, as
long as no two routes of the table have the same target: a rejected route hides
a later one for its target.
-/

namespace BuiltOnEnvoy.ClusterRouter

open List

/-- The routes of a table in the order of an iteration over its map. -/
def Table.Lists (t : Table) (routes : List Route) : Prop :=
  routes.Perm (t.routes.entries.map Sigma.snd)

/-- No two routes of the table have the same target. -/
def Table.DistinctTargets (t : Table) : Prop :=
  ∀ key key' r r', t.routes.lookup key = some r → t.routes.lookup key' = some r' →
    r.targetCluster = r'.targetCluster → key = key'

variable (localEnvoyID : String)

theorem distinctTargets_compute (locals : Locals) (advs : List PeerAdvertisement) :
    Table.DistinctTargets ⟨localEnvoyID, compute localEnvoyID locals advs, locals⟩ := by
  have hkey : ∀ {key r}, (compute localEnvoyID locals advs).lookup key = some r →
      r.targetCluster = key := by
    intro key r h
    rcases lookup_compute_cases h with ⟨-, rfl⟩ | ⟨-, htarget, -⟩
    · rfl
    · exact htarget
  intro key key' r r' h h' heq
  rw [← hkey h, ← hkey h', heq]

variable {routes : List Route}

theorem Table.DistinctTargets.nodup {t : Table} (h : t.DistinctTargets) (hroutes : t.Lists routes) :
    (routes.map Route.targetCluster).Nodup := by
  rw [(hroutes.map Route.targetCluster).nodup_iff, List.map_map]
  refine List.Nodup.map_on ?_ (t.routes.nodupKeys.nodup)
  rintro ⟨key, r⟩ he ⟨key', r'⟩ he' heq
  have hr : t.routes.lookup key = some r := AList.mem_lookup_iff.mpr he
  have hr' : t.routes.lookup key' = some r' := AList.mem_lookup_iff.mpr he'
  obtain rfl := h key key' r r' hr hr' heq
  rw [hr, Option.some.injEq] at hr'
  rw [hr']

theorem advertiseTo_perm {t : Table} (hroutes : t.Lists routes) (peerID : String) :
    (advertiseTo t peerID).Perm (routes.filter fun r => !hasInPath r.asPath peerID) :=
  (perm_insertionSort _ _).trans (hroutes.symm.filter _)

/-- The checks on a single route. -/
def usable (localEnvoyID : String) (peer : PeerSpec) (r : Route) : Bool :=
  validAdvertisedRoute r && !hasInPath r.asPath localEnvoyID && !hasInPath r.asPath peer.id

theorem acceptedRoutes_of_nodup (peer : PeerSpec) {seen : List String} {rs : List Route}
    (hnodup : (rs.map Route.targetCluster).Nodup) (hseen : ∀ r ∈ rs, r.targetCluster ∉ seen) :
    acceptedRoutes localEnvoyID peer seen rs = rs.filter (usable localEnvoyID peer) := by
  induction rs generalizing seen with
  | nil => rfl
  | cons r rs ih =>
    rw [map_cons, nodup_cons] at hnodup
    obtain ⟨hnew, hrest⟩ := hnodup
    have hr : r.targetCluster ∉ seen := hseen r mem_cons_self
    have htail : ∀ x ∈ rs, x.targetCluster ∉ seen :=
      fun x hx => hseen x (mem_cons_of_mem r hx)
    -- the target of this route does not come again
    have htail' : ∀ x ∈ rs, x.targetCluster ∉ r.targetCluster :: seen := by
      intro x hx hmem
      rcases mem_cons.mp hmem with heq | hmem
      · exact hnew (heq ▸ List.mem_map_of_mem hx)
      · exact htail x hx hmem
    unfold acceptedRoutes
    cases hv : validAdvertisedRoute r with
    | false => simp [usable, hv, ih hrest htail]
    | true =>
      by_cases hp : localEnvoyID ∈ r.asPath ∨ peer.id ∈ r.asPath
      · have hunusable : usable localEnvoyID peer r = false := by
          simp only [usable, hv, Bool.true_and, Bool.and_eq_false_iff, Bool.not_eq_false',
            hasInPath_iff]
          exact hp
        simp [hr, hp, hunusable, ih hrest htail']
      · have husable : usable localEnvoyID peer r = true := by
          simpa [usable, hv] using hp
        simp [hr, hp, husable, ih hrest htail']

/-- In a list with distinct values of `f`, what has one value does not depend on the order. -/
theorem filter_eq_of_perm {α β : Type*} [DecidableEq β] {f : α → β} {l l' : List α}
    (h : l.Perm l') (hnodup : (l.map f).Nodup) (b : β) :
    (l.filter fun a => f a = b) = l'.filter fun a => f a = b := by
  have hperm := h.filter fun a => decide (f a = b)
  cases hl : l.filter fun a => f a = b with
  | nil =>
    rw [hl] at hperm
    exact hperm.nil_eq
  | cons a rest =>
    cases rest with
    | nil =>
      rw [hl] at hperm
      exact hperm.singleton_eq
    | cons a' rest =>
      have hsub : [a, a'].Sublist l := by
        refine List.Sublist.trans ?_ (filter_sublist (p := fun a => decide (f a = b)))
        rw [hl]
        simp
      have ha : ∀ x ∈ a :: a' :: rest, f x = b := by
        intro x hx
        rw [← hl] at hx
        exact of_decide_eq_true (mem_filter.mp hx).2
      have hpair := hnodup.sublist (hsub.map f)
      simp [ha a (by simp), ha a' (by simp)] at hpair

theorem acceptedRoutes_advertiseTo {t : Table} (ht : t.DistinctTargets) (hroutes : t.Lists routes)
    (localEnvoyID : String) (peer : PeerSpec) (target : String) :
    ((acceptedRoutes localEnvoyID peer [] (advertiseTo t localEnvoyID)).filter
        fun r => r.targetCluster = target) =
      (acceptedRoutes localEnvoyID peer [] routes).filter fun r => r.targetCluster = target := by
  have hnodup := ht.nodup hroutes
  have hperm := advertiseTo_perm hroutes localEnvoyID
  have hnodup' : ((advertiseTo t localEnvoyID).map Route.targetCluster).Nodup := by
    rw [(hperm.map _).nodup_iff]
    exact hnodup.sublist (filter_sublist.map _)
  rw [acceptedRoutes_of_nodup localEnvoyID peer hnodup (by simp),
    acceptedRoutes_of_nodup localEnvoyID peer hnodup' (by simp)]
  have husable : routes.filter (usable localEnvoyID peer) =
      (routes.filter fun r => !hasInPath r.asPath localEnvoyID).filter
        (usable localEnvoyID peer) := by
    rw [List.filter_filter]
    refine filter_congr fun r _ => ?_
    cases hv : hasInPath r.asPath localEnvoyID <;> simp [usable, hv]
  rw [husable]
  refine filter_eq_of_perm (hperm.filter _) ?_ target
  exact hnodup'.sublist (filter_sublist.map _)

/-- Two advertisements of a peer with the same candidates for every target. -/
structure SameCandidates (localEnvoyID : String) (locals : Locals) (pa pa' : PeerAdvertisement) :
    Prop where
  peer : pa.peer = pa'.peer
  candidates : ∀ target,
    ((ClusterRouter.candidates localEnvoyID locals pa).filter fun c => c.targetCluster = target) =
      (ClusterRouter.candidates localEnvoyID locals pa').filter fun c => c.targetCluster = target

theorem sameCandidates_refl (locals : Locals) (pa : PeerAdvertisement) :
    SameCandidates localEnvoyID locals pa pa :=
  ⟨rfl, fun _ => rfl⟩

theorem sameCandidates_advertiseTo {t : Table} (ht : t.DistinctTargets) (hroutes : t.Lists routes)
    (localEnvoyID : String) (locals : Locals) (peer : PeerSpec) (envoyID : String) :
    SameCandidates localEnvoyID locals ⟨peer, envoyID, advertiseTo t localEnvoyID⟩
      ⟨peer, envoyID, routes⟩ where
  peer := rfl
  candidates target := by
    unfold candidates
    cases locals.lookup peer.localCluster with
    | none => rfl
    | some c =>
      have htarget : (fun c => decide (c.targetCluster = target)) ∘ candidateRoute peer =
          fun r => decide (r.targetCluster = target) := rfl
      simp only [List.filter_map, htarget]
      rw [acceptedRoutes_advertiseTo ht hroutes]

/-- The sort looks at the peers only, so it moves both advertisements of a pair alike. -/
theorem lookup_compute_congr {localEnvoyID : String} {locals : Locals}
    (pairs : List (PeerAdvertisement × PeerAdvertisement))
    (h : ∀ e ∈ pairs, SameCandidates localEnvoyID locals e.1 e.2) (target : String) :
    (compute localEnvoyID locals (pairs.map Prod.fst)).lookup target =
      (compute localEnvoyID locals (pairs.map Prod.snd)).lookup target := by
  have hfst : (pairs.map Prod.fst).insertionSort (fun a b => a.peer.id ≤ b.peer.id) =
      (pairs.insertionSort fun a b => a.1.peer.id ≤ b.1.peer.id).map Prod.fst :=
    (map_insertionSort _ _ Prod.fst pairs fun a _ b _ => Iff.rfl).symm
  have hsnd : (pairs.map Prod.snd).insertionSort (fun a b => a.peer.id ≤ b.peer.id) =
      (pairs.insertionSort fun a b => a.1.peer.id ≤ b.1.peer.id).map Prod.snd := by
    refine (map_insertionSort _ _ Prod.snd pairs fun a ha b hb => ?_).symm
    rw [(h a ha).peer, (h b hb).peer]
  rw [compute_eq_foldl_install, compute_eq_foldl_install, lookup_foldl_install,
    lookup_foldl_install]
  congr 1
  unfold allCandidates
  rw [hfst, hsnd, flatMap_map, flatMap_map, filter_flatMap, filter_flatMap]
  refine flatMap_congr fun e he => ?_
  exact (h e ((mem_insertionSort _).mp he)).candidates target

/-- Split horizon does not change the routes of the receiver. -/
theorem split_horizon_same_routes (t : Table) (ht : t.DistinctTargets) (receiver : String)
    (locals : Locals) (before after : List PeerAdvertisement) (peer : PeerSpec) (envoyID : String)
    (routes : List Route) (hroutes : t.Lists routes) (target : String) :
    (compute receiver locals
        (before ++ ⟨peer, envoyID, advertiseTo t receiver⟩ :: after)).lookup target =
      (compute receiver locals (before ++ ⟨peer, envoyID, routes⟩ :: after)).lookup target := by
  -- the two lists of advertisements side by side
  have hpairs : ∀ e ∈ before.map (fun pa => (pa, pa)) ++
      (⟨peer, envoyID, advertiseTo t receiver⟩, ⟨peer, envoyID, routes⟩) ::
        after.map fun pa => (pa, pa), SameCandidates receiver locals e.1 e.2 := by
    intro e he
    rcases mem_append.mp he with he | he
    · obtain ⟨pa, -, rfl⟩ := List.mem_map.mp he
      exact sameCandidates_refl receiver locals pa
    · rcases mem_cons.mp he with rfl | he
      · exact sameCandidates_advertiseTo ht hroutes receiver locals peer envoyID
      · obtain ⟨pa, -, rfl⟩ := List.mem_map.mp he
        exact sameCandidates_refl receiver locals pa
  simpa [Function.comp_def] using lookup_compute_congr _ hpairs target

/-- The local clusters of a node `p` with the peer `s`. -/
def linkLocals : Locals := AList.singleton "peer_s" ⟨"peer_s", .peer, "s"⟩

/-- The peer `s` has a terminal and a route through `p` to another node. -/
def linkTable : Table :=
  ⟨"s", compute "s" ((AList.singleton "peer_p" ⟨"peer_p", .peer, "p"⟩).insert "svc"
    ⟨"svc", .terminal, ""⟩) [⟨⟨"p", "http://p", "peer_p"⟩, "p", [⟨"far", "peer_q", 1, ["q"]⟩]⟩], ∅⟩

theorem linkTable_same_routes :
    (compute "p" linkLocals
        ([] ++ ⟨⟨"s", "http://s", "peer_s"⟩, "s", advertiseTo linkTable "p"⟩ :: [])).lookup "svc" =
      (compute "p" linkLocals ([] ++ ⟨⟨"s", "http://s", "peer_s"⟩, "s",
        linkTable.routes.entries.map Sigma.snd⟩ :: [])).lookup "svc" :=
  split_horizon_same_routes linkTable (distinctTargets_compute "s" _ _) "p" linkLocals [] []
    ⟨"s", "http://s", "peer_s"⟩ "s" _ (List.Perm.refl _) "svc"

/-- A table that holds two routes for `svc` under other names. -/
def twinTable : Table :=
  ⟨"s", (AList.singleton "y" ⟨"svc", "peer_q", 1, ["q"]⟩).insert "x" ⟨"svc", "peer_p", 1, ["p"]⟩, ∅⟩

/-- From all its routes `p` learns nothing, since the one through `p` comes first;
from the filtered ones it learns the other. -/
theorem twinTable_routes_differ :
    twinTable.Lists (twinTable.routes.entries.map Sigma.snd) ∧
      (compute "p" linkLocals [⟨⟨"s", "http://s", "peer_s"⟩, "s",
        twinTable.routes.entries.map Sigma.snd⟩]).lookup "svc" = none ∧
      (compute "p" linkLocals [⟨⟨"s", "http://s", "peer_s"⟩, "s",
        advertiseTo twinTable "p"⟩]).lookup "svc" = some ⟨"svc", "peer_s", 2, ["s", "q"]⟩ := by
  refine ⟨List.Perm.refl _, by decide +kernel, by decide +kernel⟩

end BuiltOnEnvoy.ClusterRouter
