import BuiltOnEnvoy.ClusterRouter.SplitHorizon
import Mathlib.Data.List.MinMax
import Mathlib.Data.Prod.Lex
import Mathlib.Data.String.Basic
import Mathlib.Order.Filter.Extr

/-!
# Best-path selection as a minimum

The loops of `compute` keep one best route per target. This module says which
one it is, without the loops: every advertisement offers at most one route for a
target, and the table holds the offer of least rank. With one advertisement
per peer no two offers have the same rank, so nothing is left to the order of
the advertisements.
-/

namespace BuiltOnEnvoy.ClusterRouter

open List Option

/-- Distance, then length of the path, then the peer the route was learned from. -/
def rank (r : Route) : ℤ ×ₗ ℕ ×ₗ String :=
  toLex (r.distance, toLex (r.asPath.length, r.asPath.headD ""))

theorem better_iff (a b : Route) : better a b = true ↔ rank a < rank b := by
  unfold better rank
  by_cases hd : a.distance = b.distance
  · by_cases hp : a.asPath.length = b.asPath.length
    · simp [Prod.Lex.toLex_lt_toLex, hd, hp]
    · simp [Prod.Lex.toLex_lt_toLex, hd, hp]
  · simp [Prod.Lex.toLex_lt_toLex, hd]

/-- The first valid route for the target in a list of routes. -/
def firstValid (target : String) (routes : List Route) : Option Route :=
  routes.find? fun r => validAdvertisedRoute r && (r.targetCluster == target)

/-- What an advertisement offers for a target: its first valid route, unless the
local node or the sending peer is in the path. -/
def offer (localEnvoyID target : String) (pa : PeerAdvertisement) : Option Route :=
  ((firstValid target pa.adv.routes).filter fun r =>
    !hasInPath r.asPath localEnvoyID && !hasInPath r.asPath pa.peer.id).map
      (candidateRoute pa.peer)

/-- All offers for a target. -/
def offers (localEnvoyID : String) (advs : List PeerAdvertisement) (target : String) :
    Set Route :=
  {c | ∃ pa ∈ advs, offer localEnvoyID target pa = some c}

/-- The advertisements whose peer has one of the local clusters. -/
def known (locals : Locals) (advs : List PeerAdvertisement) : List PeerAdvertisement :=
  advs.filter fun pa => (locals.lookup pa.peer.localCluster).isSome

variable (localEnvoyID : String) {target : String}

theorem acceptedRoutes_filter_of_seen (peer : PeerSpec) {seen : List String}
    (hseen : target ∈ seen) (rs : List Route) :
    ((acceptedRoutes localEnvoyID peer seen rs).filter fun r => r.targetCluster = target) = [] := by
  induction rs generalizing seen with
  | nil => rfl
  | cons r rs ih =>
    unfold acceptedRoutes
    split_ifs with hv hs hp
    · exact ih hseen
    · exact ih hseen
    · exact ih (mem_cons_of_mem _ hseen)
    · grind

/-- The loop over an advertisement lets through its first valid route for a target. -/
theorem acceptedRoutes_filter (peer : PeerSpec) {seen : List String} (hseen : target ∉ seen)
    (rs : List Route) :
    ((acceptedRoutes localEnvoyID peer seen rs).filter fun r => r.targetCluster = target) =
      ((firstValid target rs).filter fun r =>
        !hasInPath r.asPath localEnvoyID && !hasInPath r.asPath peer.id).toList := by
  induction rs generalizing seen with
  | nil => rfl
  | cons r rs ih =>
    unfold acceptedRoutes
    cases hv : validAdvertisedRoute r with
    | false => simpa [firstValid, hv] using ih hseen
    | true =>
      by_cases htarget : r.targetCluster = target
      · -- the first one is decided here and hides the others
        have hrest := acceptedRoutes_filter_of_seen localEnvoyID peer
          (mem_cons_self (a := target) (l := seen)) rs
        have hfirst : firstValid target (r :: rs) = some r := by
          simp [firstValid, hv, htarget]
        rw [hfirst]
        by_cases hp : localEnvoyID ∈ r.asPath ∨ peer.id ∈ r.asPath
        · grind
        · grind
      · have htail : target ∉ r.targetCluster :: seen := by
          simp [hseen, Ne.symm htarget]
        have hfirst : firstValid target (r :: rs) = firstValid target rs := by
          simp [firstValid, htarget]
        rw [hfirst]
        split_ifs
        · simp_all
        · exact ih hseen
        · exact ih htail
        · rw [filter_cons_of_neg (by simpa using htarget)]
          exact ih htail

variable {locals : Locals} {advs : List PeerAdvertisement}

theorem mem_filter_allCandidates {localEnvoyID : String} {c : Route} :
    (c ∈ (allCandidates localEnvoyID locals advs).filter fun c => c.targetCluster = target) ↔
      c ∈ offers localEnvoyID (known locals advs) target := by
  have hone : ∀ pa : PeerAdvertisement, (locals.lookup pa.peer.localCluster).isSome →
      ((candidates localEnvoyID locals pa).filter fun c => c.targetCluster = target) =
        (offer localEnvoyID target pa).toList := by
    intro pa hpa
    obtain ⟨lc, hlc⟩ := isSome_iff_exists.mp hpa
    have htarget : (fun c => decide (c.targetCluster = target)) ∘ candidateRoute pa.peer =
        fun r => decide (r.targetCluster = target) := rfl
    simp only [candidates, hlc, List.filter_map, htarget]
    rw [acceptedRoutes_filter localEnvoyID pa.peer (by simp), offer, toList_map]
  rw [mem_filter, mem_allCandidates]
  constructor
  · rintro ⟨⟨pa, hpa, hc⟩, htarget⟩
    have hknown : (locals.lookup pa.peer.localCluster).isSome := by
      by_contra hnone
      rw [not_isSome_iff_eq_none] at hnone
      simp [candidates, hnone] at hc
    refine ⟨pa, mem_filter.mpr ⟨hpa, hknown⟩, ?_⟩
    rw [← mem_toList, ← hone pa hknown]
    exact mem_filter.mpr ⟨hc, htarget⟩
  · rintro ⟨pa, hpa, hc⟩
    obtain ⟨hmem, hknown⟩ := mem_filter.mp hpa
    rw [← mem_toList, ← hone pa hknown, mem_filter] at hc
    exact ⟨⟨pa, hmem, hc.1⟩, hc.2⟩

/-- As long as no local terminal is in place, the loop keeps a route of least rank. -/
theorem foldl_pick_eq_argmin {cs : List Route} (hcs : ∀ c ∈ cs, c.asPath ≠ []) :
    cs.foldl pick none = cs.argmin rank := by
  induction cs using List.reverseRecOn with
  | nil => rfl
  | append_singleton cs c ih =>
    have hfront : ∀ c ∈ cs, c.asPath ≠ [] := fun x hx => hcs x (by simp [hx])
    rw [foldl_append, ih hfront, argmin_concat, foldl_cons, foldl_nil]
    cases hbest : cs.argmin rank with
    | none => rfl
    | some e =>
      have he : e.asPath ≠ [] := hfront e (argmin_mem hbest)
      simp [pick, he, better_iff]

/-- The one element of least rank of a set of routes, if there is any. -/
structure IsArgmin (S : Set Route) (best : Option Route) : Prop where
  eq_none : best = none ↔ S = ∅
  eq_some : ∀ c, best = some c ↔ c ∈ S ∧ IsMinOn rank S c

theorem isArgmin_argmin {cs : List Route} {S : Set Route} (hcs : ∀ c, c ∈ cs ↔ c ∈ S)
    (hrank : Set.InjOn rank S) : IsArgmin S (cs.argmin rank) where
  eq_none := by
    rw [argmin_eq_none, eq_nil_iff_forall_not_mem, Set.eq_empty_iff_forall_notMem]
    exact forall_congr' fun c => not_congr (hcs c)
  eq_some c := by
    constructor
    · intro h
      have hmin : ∀ x ∈ S, rank c ≤ rank x :=
        fun x hx => le_of_mem_argmin ((hcs x).mpr hx) h
      exact ⟨(hcs c).mp (argmin_mem h), isMinOn_iff.mpr hmin⟩
    · rintro ⟨hc, hmin⟩
      cases hbest : cs.argmin rank with
      | none =>
        rw [argmin_eq_none] at hbest
        subst hbest
        exact absurd ((hcs c).mpr hc) (by simp)
      | some best =>
        have hmem : best ∈ S := (hcs best).mp (argmin_mem hbest)
        have hle : rank best ≤ rank c := le_of_mem_argmin ((hcs c).mpr hc) hbest
        rw [hrank hmem hc (hle.antisymm (isMinOn_iff.mp hmin best hmem))]

theorem IsArgmin.unique {S : Set Route} {best best' : Option Route} (h : IsArgmin S best)
    (h' : IsArgmin S best') : best = best' := by
  ext c
  rw [h.eq_some c, h'.eq_some c]

theorem rank_injOn_offers (hids : (advs.map fun pa => pa.peer.id).Nodup) (target : String) :
    Set.InjOn rank (offers localEnvoyID advs target) := by
  rintro c ⟨pa, hpa, hc⟩ c' ⟨pa', hpa', hc'⟩ hrank
  have hhead : ∀ {pa : PeerAdvertisement} {c : Route}, offer localEnvoyID target pa = some c →
      c.asPath.headD "" = pa.peer.id := by
    intro pa c h
    obtain ⟨r, -, rfl⟩ := map_eq_some_iff.mp h
    rfl
  have hid : pa.peer.id = pa'.peer.id := by
    rw [← hhead hc, ← hhead hc']
    exact congrArg (fun k => (ofLex (ofLex k).2).2) hrank
  obtain rfl := inj_on_of_nodup_map hids hpa hpa' hid
  exact Option.some.inj (hc.symm.trans hc')

theorem nodup_known (hids : (advs.map fun pa => pa.peer.id).Nodup) :
    ((known locals advs).map fun pa => pa.peer.id).Nodup :=
  hids.sublist (filter_sublist.map _)

theorem isArgmin_lookup_compute (hids : (advs.map fun pa => pa.peer.id).Nodup)
    (ht : ¬ IsTerminal locals target) :
    IsArgmin (offers localEnvoyID (known locals advs) target)
      ((compute localEnvoyID locals advs).lookup target) := by
  have hpaths : ∀ c ∈ (allCandidates localEnvoyID locals advs).filter
      fun c => c.targetCluster = target, c.asPath ≠ [] :=
    fun c hc => allCandidates_asPath (mem_of_mem_filter hc)
  rw [compute_eq_foldl_install, lookup_foldl_install, lookup_terminalRoutes_of_not ht,
    foldl_pick_eq_argmin hpaths]
  exact isArgmin_argmin (fun c => mem_filter_allCandidates)
    (rank_injOn_offers localEnvoyID (nodup_known hids) target)

theorem lookup_compute_of_offers {localEnvoyID : String} {advs advs' : List PeerAdvertisement}
    (hids : (advs.map fun pa => pa.peer.id).Nodup)
    (hids' : (advs'.map fun pa => pa.peer.id).Nodup)
    (h : offers localEnvoyID (known locals advs) target =
      offers localEnvoyID (known locals advs') target) :
    (compute localEnvoyID locals advs).lookup target =
      (compute localEnvoyID locals advs').lookup target := by
  by_cases ht : IsTerminal locals target
  · rw [lookup_compute_terminal localEnvoyID advs ht, lookup_compute_terminal localEnvoyID advs' ht]
  · have hleft := isArgmin_lookup_compute localEnvoyID hids ht
    rw [h] at hleft
    exact hleft.unique (isArgmin_lookup_compute localEnvoyID hids' ht)

theorem offers_of_perm (locals : Locals) {advs advs' : List PeerAdvertisement}
    (h : advs.Perm advs') (target : String) :
    offers localEnvoyID (known locals advs) target =
      offers localEnvoyID (known locals advs') target := by
  ext c
  have hmem : ∀ pa, pa ∈ known locals advs ↔ pa ∈ known locals advs' :=
    fun pa => (h.filter _).mem_iff
  simp only [offers, Set.mem_ofPred_eq, hmem]

theorem offer_of_absent {pa : PeerAdvertisement}
    (h : ∀ r ∈ pa.adv.routes, r.targetCluster ≠ target) : offer localEnvoyID target pa = none := by
  have hnone : firstValid target pa.adv.routes = none := by
    rw [firstValid, find?_eq_none]
    intro r hr
    simp [h r hr]
  rw [offer, hnone]
  rfl

theorem offers_of_absent (locals : Locals) (before after : List PeerAdvertisement)
    {pa : PeerAdvertisement} (h : ∀ r ∈ pa.adv.routes, r.targetCluster ≠ target) :
    offers localEnvoyID (known locals (before ++ pa :: after)) target =
      offers localEnvoyID (known locals (before ++ after)) target := by
  have hoffer := offer_of_absent localEnvoyID h
  ext c
  constructor
  · rintro ⟨pa', hpa', hc⟩
    refine ⟨pa', ?_, hc⟩
    obtain ⟨hmem, hknown⟩ := mem_filter.mp hpa'
    have hne : pa' ≠ pa := by
      rintro rfl
      rw [hoffer] at hc
      cases hc
    refine mem_filter.mpr ⟨?_, hknown⟩
    simpa [hne] using hmem
  · rintro ⟨pa', hpa', hc⟩
    refine ⟨pa', ?_, hc⟩
    obtain ⟨hmem, hknown⟩ := mem_filter.mp hpa'
    refine mem_filter.mpr ⟨?_, hknown⟩
    rcases mem_append.mp hmem with hmem | hmem
    · simp [hmem]
    · simp [hmem]

/-- The computed route of every target is the local terminal or the least of the
offers of the known peers, whatever the order of the advertisements, and an
advertisement has no influence on the targets it does not contain. -/
theorem compute_argmin (localEnvoyID : String) (locals : Locals) (advs : List PeerAdvertisement)
    (hids : (advs.map fun pa => pa.peer.id).Nodup) (target : String) :
    (IsTerminal locals target →
        (compute localEnvoyID locals advs).lookup target = some (terminalRoute target)) ∧
      (¬ IsTerminal locals target →
        IsArgmin (offers localEnvoyID (known locals advs) target)
          ((compute localEnvoyID locals advs).lookup target)) ∧
      (∀ advs', advs'.Perm advs → (compute localEnvoyID locals advs').lookup target =
        (compute localEnvoyID locals advs).lookup target) ∧
      ∀ before pa after, advs = before ++ pa :: after →
        (∀ r ∈ pa.adv.routes, r.targetCluster ≠ target) →
        (compute localEnvoyID locals advs).lookup target =
          (compute localEnvoyID locals (before ++ after)).lookup target := by
  refine ⟨lookup_compute_terminal localEnvoyID advs, isArgmin_lookup_compute localEnvoyID hids,
    ?_, ?_⟩
  · intro advs' hperm
    have hids' : (advs'.map fun pa => pa.peer.id).Nodup := (hperm.map _).nodup_iff.mpr hids
    exact lookup_compute_of_offers hids' hids (offers_of_perm localEnvoyID locals hperm target)
  · rintro before pa after rfl habsent
    have hsub : (before ++ after).Sublist (before ++ pa :: after) :=
      (List.Sublist.refl before).append (sublist_cons_self pa after)
    exact lookup_compute_of_offers hids (hids.sublist (hsub.map _))
      (offers_of_absent localEnvoyID locals before after habsent)

/-- The local clusters of a node with the peers `q` and `s`. -/
def twoPeerLocals : Locals := linkLocals.insert "peer_q" ⟨"peer_q", .peer, "q"⟩

/-- Both peers know a route for `svc`, the one of `s` being shorter. -/
def twoOffers : List PeerAdvertisement :=
  [⟨⟨"q", "http://q", "peer_q"⟩, "q", [⟨"svc", "peer_x", 1, ["x"]⟩]⟩,
    ⟨⟨"s", "http://s", "peer_s"⟩, "s", [⟨"svc", "svc", 0, []⟩, ⟨"svc", "svc", 0, ["p"]⟩]⟩]

theorem twoOffers_argmin : (twoOffers.map fun pa => pa.peer.id).Nodup ∧
    (compute "p" twoPeerLocals twoOffers).lookup "svc" = some ⟨"svc", "peer_s", 1, ["s"]⟩ ∧
    IsArgmin (offers "p" (known twoPeerLocals twoOffers) "svc")
      ((compute "p" twoPeerLocals twoOffers).lookup "svc") := by
  have hnot : ¬ IsTerminal twoPeerLocals "svc" := by
    rintro ⟨c, hc, -⟩
    have hnone : twoPeerLocals.lookup "svc" = none := by decide
    rw [hnone] at hc
    cases hc
  refine ⟨by decide, by decide +kernel, ?_⟩
  exact (compute_argmin "p" twoPeerLocals twoOffers (by decide) "svc").2.1 hnot

/-- An offer of a peer without a local cluster is ignored, even if it is the only one. -/
theorem unknown_peer_ignored : ¬ ∀ localEnvoyID locals advs,
    (advs.map fun pa : PeerAdvertisement => pa.peer.id).Nodup → ∀ target,
      ¬ IsTerminal locals target →
        IsArgmin (offers localEnvoyID advs target)
          ((compute localEnvoyID locals advs).lookup target) := by
  intro h
  have hnot : ¬ IsTerminal ∅ "svc" := by
    rintro ⟨c, hc, -⟩
    cases hc
  have hargmin := h "p" ∅ twoOffers (by decide) "svc" hnot
  have hnone : (compute "p" ∅ twoOffers).lookup "svc" = none := by decide +kernel
  have hempty := hargmin.eq_none.mp hnone
  have hoffer : (⟨"svc", "peer_s", 1, ["s"]⟩ : Route) ∈ offers "p" twoOffers "svc" :=
    ⟨twoOffers[1], by simp, by decide +kernel⟩
  rw [hempty] at hoffer
  exact hoffer

end BuiltOnEnvoy.ClusterRouter
