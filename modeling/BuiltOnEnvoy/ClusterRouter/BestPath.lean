import Mathlib.Data.List.AList
import Mathlib.Data.List.Sort
import Mathlib.Tactic

/-!
# Best-path selection of the cluster router

The routing table of one Envoy and the two functions that move routes between
tables: `compute` builds a fresh table from the local clusters and the
advertisements of the peers, and `advertiseTo` selects what a table tells one
peer. A Go map is an association list with distinct keys; its order stands for
the iteration order of the map, which no result below depends on.

The second half states once what `compute` can put into a table. `compute`
is the fold of `install` over a flat list of candidates, so a lookup in its
result is the fold of `pick` over the candidates for that target.
-/

namespace BuiltOnEnvoy.ClusterRouter

open List

/-- An outbound peer this Envoy pulls advertisements from. -/
structure PeerSpec where
  id : String
  endpoint : String
  localCluster : String
  deriving DecidableEq, Repr

inductive ClusterRole
  | terminal
  | peer
  | ignore
  deriving DecidableEq, Repr

structure LocalCluster where
  name : String
  role : ClusterRole
  peerID : String
  deriving DecidableEq, Repr

/-- One row of the routing table, on the wire and in memory. -/
structure Route where
  targetCluster : String
  nextHopLocalCluster : String
  distance : ℤ
  asPath : List String
  deriving DecidableEq, Repr

structure Advertisement where
  envoyID : String
  routes : List Route
  deriving DecidableEq, Repr

/-- An inbound advertisement with the local peer entry it arrived through. -/
structure PeerAdvertisement where
  peer : PeerSpec
  adv : Advertisement
  deriving DecidableEq, Repr

abbrev Routes := AList fun _ : String => Route

abbrev Locals := AList fun _ : String => LocalCluster

structure Table where
  envoyID : String
  routes : Routes
  localClusters : Locals

/-- The longest AS-PATH accepted from a peer. -/
def maxASPath : ℕ := 32

/-- The largest advertised distance accepted from a peer. -/
def maxDistance : ℤ := maxASPath

def hopCost : ℤ := 1

def hasInPath (path : List String) (id : String) : Bool :=
  path.any fun p => p == id

def prepend (id : String) (path : List String) : List String :=
  id :: path

def validAdvertisedRoute (r : Route) : Bool :=
  if r.targetCluster = "" then false
  else if r.distance < 0 ∨ r.distance > maxDistance then false
  else if r.asPath.length > maxASPath then false
  else true

/-- Lower distance, then shorter AS-PATH, then smaller first peer id. -/
def better (a b : Route) : Bool :=
  if a.distance ≠ b.distance then a.distance < b.distance
  else if a.asPath.length ≠ b.asPath.length then a.asPath.length < b.asPath.length
  else a.asPath.headD "" < b.asPath.headD ""

def terminalRoute (name : String) : Route :=
  { targetCluster := name, nextHopLocalCluster := name, distance := 0, asPath := [] }

/-- One entry of the first loop of `compute`. -/
def addTerminal (out : Routes) (e : Sigma fun _ : String => LocalCluster) : Routes :=
  if e.2.role = .terminal then out.insert e.1 (terminalRoute e.1) else out

/-- The first loop of `compute`: every terminal routes to itself. -/
def terminalRoutes (locals : Locals) : Routes :=
  locals.entries.foldl addTerminal ∅

/-- What a route of a peer's advertisement becomes in the own table. -/
def candidateRoute (peer : PeerSpec) (r : Route) : Route :=
  { targetCluster := r.targetCluster
    nextHopLocalCluster := peer.localCluster
    distance := r.distance + hopCost
    asPath := prepend peer.id r.asPath }

/-- Store a candidate unless a local terminal or a better route is in place. -/
def install (out : Routes) (candidate : Route) : Routes :=
  match out.lookup candidate.targetCluster with
  | none => out.insert candidate.targetCluster candidate
  | some existing =>
    if existing.asPath.length = 0 then out
    else if better candidate existing then out.insert candidate.targetCluster candidate
    else out

/-- The body of the loop over one advertisement. The second component holds
the targets already seen in this advertisement. -/
def considerRoute (localEnvoyID : String) (peer : PeerSpec) (s : Routes × List String)
    (r : Route) : Routes × List String :=
  if !validAdvertisedRoute r then s
  else if s.2.contains r.targetCluster then s
  else
    let seen := r.targetCluster :: s.2
    if hasInPath r.asPath localEnvoyID || hasInPath r.asPath peer.id then (s.1, seen)
    else (install s.1 (candidateRoute peer r), seen)

def considerAdvertisement (localEnvoyID : String) (locals : Locals) (out : Routes)
    (pa : PeerAdvertisement) : Routes :=
  match locals.lookup pa.peer.localCluster with
  | none => out
  | some _ => (pa.adv.routes.foldl (considerRoute localEnvoyID pa.peer) (out, [])).1

/-- A fresh route map from the local clusters and the peer advertisements. -/
def compute (localEnvoyID : String) (locals : Locals) (advs : List PeerAdvertisement) : Routes :=
  let sorted := advs.insertionSort fun a b => a.peer.id ≤ b.peer.id
  sorted.foldl (considerAdvertisement localEnvoyID locals) (terminalRoutes locals)

/-- Split horizon: routes whose AS-PATH contains `peerID` are withheld. -/
def advertiseTo (t : Table) (peerID : String) : List Route :=
  let out := (t.routes.entries.map Sigma.snd).filter fun r => !hasInPath r.asPath peerID
  out.insertionSort fun a b => a.targetCluster ≤ b.targetCluster

@[simp] theorem hasInPath_iff (path : List String) (id : String) :
    hasInPath path id = true ↔ id ∈ path := by
  simp [hasInPath]

@[simp] theorem hasInPath_eq_false (path : List String) (id : String) :
    hasInPath path id = false ↔ id ∉ path := by
  rw [← Bool.not_eq_true, hasInPath_iff]

theorem validAdvertisedRoute_iff (r : Route) :
    validAdvertisedRoute r = true ↔ r.targetCluster ≠ "" ∧ 0 ≤ r.distance ∧
      r.distance ≤ maxDistance ∧ r.asPath.length ≤ maxASPath := by
  unfold validAdvertisedRoute
  split_ifs with ht hd hp
  · simp [ht]
  · constructor
    · simp
    · rintro ⟨-, h0, h1, -⟩
      omega
  · constructor
    · simp
    · rintro ⟨-, -, -, h⟩
      omega
  · push Not at hd
    exact ⟨fun _ => ⟨ht, hd.1, hd.2, by omega⟩, fun _ => rfl⟩

theorem mem_advertiseTo (t : Table) (peerID : String) (r : Route) :
    r ∈ advertiseTo t peerID ↔
      (∃ key, t.routes.lookup key = some r) ∧ peerID ∉ r.asPath := by
  unfold advertiseTo
  rw [mem_insertionSort, mem_filter, List.mem_map]
  have hkeys : (∃ e ∈ t.routes.entries, e.snd = r) ↔ ∃ key, t.routes.lookup key = some r := by
    constructor
    · rintro ⟨⟨key, value⟩, he, rfl⟩
      exact ⟨key, AList.mem_lookup_iff.mpr he⟩
    · rintro ⟨key, hk⟩
      exact ⟨⟨key, r⟩, AList.mem_lookup_iff.mp hk, rfl⟩
  rw [hkeys]
  simp

/-- The routes of an advertisement that reach `install`, with the targets seen. -/
def acceptedRoutes (localEnvoyID : String) (peer : PeerSpec) : List String → List Route → List Route
  | _, [] => []
  | seen, r :: rs =>
    if !validAdvertisedRoute r then acceptedRoutes localEnvoyID peer seen rs
    else if seen.contains r.targetCluster then acceptedRoutes localEnvoyID peer seen rs
    else if hasInPath r.asPath localEnvoyID || hasInPath r.asPath peer.id then
      acceptedRoutes localEnvoyID peer (r.targetCluster :: seen) rs
    else r :: acceptedRoutes localEnvoyID peer (r.targetCluster :: seen) rs

def candidates (localEnvoyID : String) (locals : Locals) (pa : PeerAdvertisement) : List Route :=
  match locals.lookup pa.peer.localCluster with
  | none => []
  | some _ => (acceptedRoutes localEnvoyID pa.peer [] pa.adv.routes).map (candidateRoute pa.peer)

theorem foldl_considerRoute (localEnvoyID : String) (peer : PeerSpec) (rs : List Route)
    (out : Routes) (seen : List String) :
    (rs.foldl (considerRoute localEnvoyID peer) (out, seen)).1 =
      ((acceptedRoutes localEnvoyID peer seen rs).map (candidateRoute peer)).foldl install out := by
  induction rs generalizing out seen with
  | nil => rfl
  | cons r rs ih =>
    rw [foldl_cons]
    unfold considerRoute acceptedRoutes
    dsimp only
    split_ifs with hv hs hp
    · exact ih out seen
    · exact ih out seen
    · exact ih out _
    · rw [map_cons, foldl_cons]
      exact ih _ _

theorem considerAdvertisement_eq (localEnvoyID : String) (locals : Locals) (out : Routes)
    (pa : PeerAdvertisement) :
    considerAdvertisement localEnvoyID locals out pa =
      (candidates localEnvoyID locals pa).foldl install out := by
  unfold considerAdvertisement candidates
  cases locals.lookup pa.peer.localCluster with
  | none => rfl
  | some c => exact foldl_considerRoute localEnvoyID pa.peer pa.adv.routes out []

/-- All candidates in the order in which `compute` looks at them. -/
def allCandidates (localEnvoyID : String) (locals : Locals)
    (advs : List PeerAdvertisement) : List Route :=
  (advs.insertionSort fun a b => a.peer.id ≤ b.peer.id).flatMap (candidates localEnvoyID locals)

theorem compute_eq_foldl_install (localEnvoyID : String) (locals : Locals)
    (advs : List PeerAdvertisement) :
    compute localEnvoyID locals advs =
      (allCandidates localEnvoyID locals advs).foldl install (terminalRoutes locals) := by
  have hstep : considerAdvertisement localEnvoyID locals =
      fun out pa => (candidates localEnvoyID locals pa).foldl install out := by
    funext out pa
    exact considerAdvertisement_eq localEnvoyID locals out pa
  unfold compute allCandidates
  rw [foldl_flatMap, hstep]

variable {localEnvoyID : String}

theorem mem_acceptedRoutes {peer : PeerSpec} {seen : List String} {rs : List Route} {r : Route}
    (h : r ∈ acceptedRoutes localEnvoyID peer seen rs) :
    r ∈ rs ∧ validAdvertisedRoute r = true ∧ localEnvoyID ∉ r.asPath ∧ peer.id ∉ r.asPath := by
  induction rs generalizing seen with
  | nil => simp [acceptedRoutes] at h
  | cons x xs ih =>
    unfold acceptedRoutes at h
    split_ifs at h with hv hs hp
    · exact (ih h).imp_left (mem_cons_of_mem x)
    · exact (ih h).imp_left (mem_cons_of_mem x)
    · exact (ih h).imp_left (mem_cons_of_mem x)
    · rcases mem_cons.mp h with rfl | h
      · simp only [Bool.or_eq_true, hasInPath_iff, not_or] at hp
        exact ⟨mem_cons_self, by simpa using hv, hp.1, hp.2⟩
      · exact (ih h).imp_left (mem_cons_of_mem x)

/-- A usable route is accepted when no other route of the advertisement has
its target, as in every table that `compute` built. -/
theorem mem_acceptedRoutes_of_unique {peer : PeerSpec} {seen : List String} {rs : List Route}
    {r : Route} (hr : r ∈ rs) (hv : validAdvertisedRoute r = true) (hl : localEnvoyID ∉ r.asPath)
    (hp : peer.id ∉ r.asPath) (hs : r.targetCluster ∉ seen)
    (hu : ∀ x ∈ rs, x.targetCluster = r.targetCluster → x = r) :
    r ∈ acceptedRoutes localEnvoyID peer seen rs := by
  induction rs generalizing seen with
  | nil => simp at hr
  | cons x xs ih =>
    have hux : ∀ y ∈ xs, y.targetCluster = r.targetCluster → y = r :=
      fun y hy => hu y (mem_cons_of_mem x hy)
    by_cases hx : x = r
    · subst hx
      simp [acceptedRoutes, hv, hs, hl, hp]
    · have hr' : r ∈ xs := (mem_cons.mp hr).resolve_left fun h => hx h.symm
      have hne : r.targetCluster ≠ x.targetCluster :=
        fun h => hx (hu x mem_cons_self h.symm)
      have hs' : r.targetCluster ∉ x.targetCluster :: seen := by simp [hne, hs]
      unfold acceptedRoutes
      split_ifs
      · exact ih hr' hs hux
      · exact ih hr' hs hux
      · exact ih hr' hs' hux
      · exact mem_cons_of_mem x (ih hr' hs' hux)

variable {locals : Locals} {advs : List PeerAdvertisement}

theorem mem_allCandidates {c : Route} :
    c ∈ allCandidates localEnvoyID locals advs ↔
      ∃ pa ∈ advs, c ∈ candidates localEnvoyID locals pa := by
  simp [allCandidates, mem_flatMap, mem_insertionSort]

theorem mem_candidates {pa : PeerAdvertisement} {c : Route}
    (h : c ∈ candidates localEnvoyID locals pa) :
    ∃ r ∈ pa.adv.routes, validAdvertisedRoute r = true ∧ localEnvoyID ∉ r.asPath ∧
      pa.peer.id ∉ r.asPath ∧ c = candidateRoute pa.peer r := by
  unfold candidates at h
  cases hl : locals.lookup pa.peer.localCluster with
  | none => simp [hl] at h
  | some lc =>
    simp only [hl, List.mem_map] at h
    obtain ⟨r, hr, rfl⟩ := h
    obtain ⟨hmem, hv, hloc, hpeer⟩ := mem_acceptedRoutes hr
    exact ⟨r, hmem, hv, hloc, hpeer, rfl⟩

/-- `install` seen from the single target of the candidate. -/
def pick (existing : Option Route) (candidate : Route) : Option Route :=
  match existing with
  | none => some candidate
  | some e =>
    if e.asPath.length = 0 then some e
    else if better candidate e then some candidate
    else some e

theorem lookup_install (out : Routes) (c : Route) (t : String) :
    (install out c).lookup t =
      if c.targetCluster = t then pick (out.lookup t) c else out.lookup t := by
  unfold install
  by_cases ht : c.targetCluster = t
  · subst ht
    rw [if_pos rfl]
    cases hout : out.lookup c.targetCluster with
    | none => exact AList.lookup_insert out
    | some e =>
      dsimp only [pick]
      split_ifs
      · exact hout
      · exact AList.lookup_insert out
      · exact hout
  · rw [if_neg ht]
    have hins : (out.insert c.targetCluster c).lookup t = out.lookup t :=
      AList.lookup_insert_ne fun h => ht h.symm
    cases hout : out.lookup c.targetCluster with
    | none => exact hins
    | some e =>
      dsimp only
      split_ifs
      · rfl
      · exact hins
      · rfl

theorem lookup_foldl_install (cs : List Route) (out : Routes) (t : String) :
    (cs.foldl install out).lookup t =
      (cs.filter fun c => c.targetCluster = t).foldl pick (out.lookup t) := by
  induction cs generalizing out with
  | nil => rfl
  | cons c cs ih =>
    rw [foldl_cons, ih, lookup_install]
    by_cases ht : c.targetCluster = t <;> simp [ht]

theorem foldl_pick_mem {cs : List Route} {start : Option Route} {r : Route}
    (h : cs.foldl pick start = some r) : start = some r ∨ r ∈ cs := by
  induction cs generalizing start with
  | nil => exact Or.inl h
  | cons c cs ih =>
    rcases ih h with hs | hr
    · cases start with
      | none =>
        simp only [pick, Option.some.injEq] at hs
        exact Or.inr (by simp [hs])
      | some e =>
        simp only [pick] at hs
        split_ifs at hs
        · exact Or.inl hs
        · exact Or.inr (by simp [Option.some.inj hs])
        · exact Or.inl hs
    · exact Or.inr (mem_cons_of_mem c hr)

theorem better_distance {a b : Route} (h : better a b = true) : a.distance ≤ b.distance := by
  unfold better at h
  split_ifs at h with hd
  · exact (of_decide_eq_true h).le
  · exact (not_not.mp hd).le
  · exact (not_not.mp hd).le

theorem distance_le_of_not_better {a b : Route} (h : better a b = false) :
    b.distance ≤ a.distance := by
  unfold better at h
  split_ifs at h with hd
  · exact not_lt.mp (of_decide_eq_false h)
  · exact (not_not.mp hd).ge
  · exact (not_not.mp hd).ge

/-- Neither the starting value nor a candidate is closer than the result,
unless a local terminal blocks the target. -/
theorem foldl_pick_le {cs : List Route} {start : Option Route}
    (hlocal : ∀ e, start = some e → e.asPath ≠ []) (hcs : ∀ c ∈ cs, c.asPath ≠ [])
    (c : Route) (hc : start = some c ∨ c ∈ cs) :
    ∃ r, cs.foldl pick start = some r ∧ r.distance ≤ c.distance := by
  induction cs generalizing start c with
  | nil => exact ⟨c, hc.resolve_right (by simp), le_rfl⟩
  | cons x xs ih =>
    have hxs : ∀ c ∈ xs, c.asPath ≠ [] := fun c hc => hcs c (mem_cons_of_mem x hc)
    have hx : x.asPath ≠ [] := hcs x mem_cons_self
    rw [foldl_cons]
    -- The next accumulator is learned again and no farther than both inputs.
    obtain ⟨y, hy, hylocal, hyx, hystart⟩ : ∃ y, pick start x = some y ∧ y.asPath ≠ [] ∧
        y.distance ≤ x.distance ∧ ∀ e, start = some e → y.distance ≤ e.distance := by
      cases start with
      | none => exact ⟨x, rfl, hx, le_rfl, by simp⟩
      | some e =>
        have he := hlocal e rfl
        simp only [pick, length_eq_zero_iff, he, if_false]
        cases hb : better x e with
        | true => exact ⟨x, by simp, hx, le_rfl, by simpa using better_distance hb⟩
        | false => exact ⟨e, by simp, he, distance_le_of_not_better hb, by simp⟩
    rw [hy]
    have hnext : ∀ e, some y = some e → e.asPath ≠ [] := by
      intro e he
      exact Option.some.inj he ▸ hylocal
    rcases hc with hc | hc
    · obtain ⟨r, hr, hle⟩ := ih hnext hxs y (Or.inl rfl)
      exact ⟨r, hr, hle.trans (hystart c hc)⟩
    · rcases mem_cons.mp hc with rfl | hc
      · obtain ⟨r, hr, hle⟩ := ih hnext hxs y (Or.inl rfl)
        exact ⟨r, hr, hle.trans hyx⟩
      · exact ih hnext hxs c (Or.inr hc)

theorem foldl_pick_local (cs : List Route) {e : Route} (he : e.asPath = []) :
    cs.foldl pick (some e) = some e := by
  induction cs with
  | nil => rfl
  | cons c cs ih => simpa [pick, he] using ih

/-- The terminals among the entries of the local clusters. -/
def ListedTerminal (es : List (Sigma fun _ : String => LocalCluster)) (t : String) : Prop :=
  ∃ c, ⟨t, c⟩ ∈ es ∧ c.role = .terminal

variable {t : String}

theorem lookup_addTerminal_ne {out : Routes} {e : Sigma fun _ : String => LocalCluster}
    (h : ¬ (e.1 = t ∧ e.2.role = .terminal)) :
    (addTerminal out e).lookup t = out.lookup t := by
  unfold addTerminal
  split_ifs with hrole
  · exact AList.lookup_insert_ne fun ht => h ⟨ht.symm, hrole⟩
  · rfl

theorem lookup_foldl_addTerminal_of_not {es : List (Sigma fun _ : String => LocalCluster)}
    (h : ¬ ListedTerminal es t) (out : Routes) :
    (es.foldl addTerminal out).lookup t = out.lookup t := by
  induction es generalizing out with
  | nil => rfl
  | cons e es ih =>
    obtain ⟨k, c⟩ := e
    have hrest : ¬ ListedTerminal es t :=
      fun ⟨c', hc', hrole⟩ => h ⟨c', mem_cons_of_mem _ hc', hrole⟩
    rw [foldl_cons, ih hrest]
    apply lookup_addTerminal_ne
    rintro ⟨rfl, hrole⟩
    exact h ⟨c, mem_cons_self, hrole⟩

theorem lookup_foldl_addTerminal {es : List (Sigma fun _ : String => LocalCluster)}
    (h : ListedTerminal es t) (out : Routes) :
    (es.foldl addTerminal out).lookup t = some (terminalRoute t) := by
  induction es generalizing out with
  | nil => simp [ListedTerminal] at h
  | cons e es ih =>
    rw [foldl_cons]
    by_cases hrest : ListedTerminal es t
    · exact ih hrest _
    · obtain ⟨c, hc, hrole⟩ := h
      have he : ⟨t, c⟩ = e :=
        (mem_cons.mp hc).resolve_right fun hc => hrest ⟨c, hc, hrole⟩
      subst he
      rw [lookup_foldl_addTerminal_of_not hrest, addTerminal, if_pos hrole, AList.lookup_insert]

/-- A name is a terminal of the local clusters. -/
def IsTerminal (locals : Locals) (t : String) : Prop :=
  ∃ c, locals.lookup t = some c ∧ c.role = .terminal

theorem listedTerminal_iff (locals : Locals) (t : String) :
    ListedTerminal locals.entries t ↔ IsTerminal locals t := by
  unfold ListedTerminal IsTerminal
  simp only [← Option.mem_def, AList.mem_lookup_iff]

theorem lookup_terminalRoutes (h : IsTerminal locals t) :
    (terminalRoutes locals).lookup t = some (terminalRoute t) :=
  lookup_foldl_addTerminal ((listedTerminal_iff locals t).mpr h) ∅

theorem lookup_terminalRoutes_of_not (h : ¬ IsTerminal locals t) :
    (terminalRoutes locals).lookup t = none :=
  lookup_foldl_addTerminal_of_not (fun hl => h ((listedTerminal_iff locals t).mp hl)) ∅

theorem allCandidates_asPath {c : Route} (h : c ∈ allCandidates localEnvoyID locals advs) :
    c.asPath ≠ [] := by
  obtain ⟨pa, -, hc⟩ := mem_allCandidates.mp h
  obtain ⟨r, -, -, -, -, rfl⟩ := mem_candidates hc
  simp [candidateRoute, prepend]

theorem lookup_compute_terminal (localEnvoyID : String) (advs : List PeerAdvertisement)
    (ht : IsTerminal locals t) :
    (compute localEnvoyID locals advs).lookup t = some (terminalRoute t) := by
  rw [compute_eq_foldl_install, lookup_foldl_install, lookup_terminalRoutes ht]
  exact foldl_pick_local _ rfl

/-- Every entry of a computed table is a terminal or a candidate stored under
its own target. -/
theorem lookup_compute_cases {r : Route}
    (h : (compute localEnvoyID locals advs).lookup t = some r) :
    (IsTerminal locals t ∧ r = terminalRoute t) ∨
      (¬ IsTerminal locals t ∧ r.targetCluster = t ∧
        r ∈ allCandidates localEnvoyID locals advs) := by
  by_cases ht : IsTerminal locals t
  · rw [lookup_compute_terminal localEnvoyID advs ht] at h
    exact Or.inl ⟨ht, (Option.some.inj h).symm⟩
  · rw [compute_eq_foldl_install, lookup_foldl_install, lookup_terminalRoutes_of_not ht] at h
    have hr := (foldl_pick_mem h).resolve_left (by simp)
    rw [mem_filter] at hr
    exact Or.inr ⟨ht, of_decide_eq_true hr.2, hr.1⟩

theorem lookup_compute_le {c : Route} (ht : ¬ IsTerminal locals c.targetCluster)
    (hc : c ∈ allCandidates localEnvoyID locals advs) :
    ∃ r, (compute localEnvoyID locals advs).lookup c.targetCluster = some r ∧
      r.distance ≤ c.distance := by
  rw [compute_eq_foldl_install, lookup_foldl_install, lookup_terminalRoutes_of_not ht]
  refine foldl_pick_le (by simp) ?_ c (Or.inr (by simp [hc]))
  intro x hx
  exact allCandidates_asPath (mem_of_mem_filter hx)

/-- The distance of a target; without a route it is infinite. -/
def distanceIn (out : Routes) (target : String) : WithTop ℤ :=
  (out.lookup target).elim ⊤ fun r => (r.distance : ℤ)

/-- Advertisements that come in between bring no target farther away. -/
theorem distanceIn_compute_le (before between after : List PeerAdvertisement) :
    distanceIn (compute localEnvoyID locals (before ++ between ++ after)) t ≤
      distanceIn (compute localEnvoyID locals (before ++ after)) t := by
  unfold distanceIn
  cases h : (compute localEnvoyID locals (before ++ after)).lookup t with
  | none => exact le_top
  | some r =>
    rcases lookup_compute_cases h with ⟨ht, rfl⟩ | ⟨ht, rfl, hr⟩
    · rw [lookup_compute_terminal _ _ ht]
    · obtain ⟨pa, hpa, hoffer⟩ := mem_allCandidates.mp hr
      have hmem : pa ∈ before ++ between ++ after := by grind
      obtain ⟨r', h', hle⟩ := lookup_compute_le ht (mem_allCandidates.mpr ⟨pa, hmem, hoffer⟩)
      rw [h']
      exact WithTop.coe_le_coe.mpr hle

end BuiltOnEnvoy.ClusterRouter
