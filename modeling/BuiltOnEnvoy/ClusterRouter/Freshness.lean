import BuiltOnEnvoy.ClusterRouter.Mesh
import BuiltOnEnvoy.Foundations.Runs

/-!
# Freshness of advertisements

A daemon ticks again and again. In a tick every peer is asked once, the answers
come in any order, and a peer that does not answer is represented by its last
answer while that is fresh enough. So what a peer contributes to a table is
decided by the history of its fetches alone.
-/

namespace BuiltOnEnvoy.ClusterRouter

open List

open Foundations (concat_eq_append_cons)

/-- What happens in one tick. -/
structure Tick where
  now : ℤ
  /-- The result of the fetch from each peer. -/
  fetch : PeerSpec → Option Advertisement
  /-- The order in which the fetches end, by the positions of the peers. -/
  order : List ℕ

/-- Each configured peer is fetched once. -/
def Tick.Of (t : Tick) (cfg : DaemonConfig) : Prop :=
  t.order.Perm (List.range cfg.peers.length)

/-- The end of the fetch from the peer at a position. -/
def Daemon.endFetch (cfg : DaemonConfig) (t : Tick) (d : Daemon) (k : ℕ) : Daemon :=
  match d.poll, cfg.peers[k]? with
  | some poll, some p =>
    match t.fetch p with
    | some adv => d.fetched poll k p adv
    | none => d.failed cfg poll k p
  | _, _ => d

def Daemon.endPoll (cfg : DaemonConfig) (d : Daemon) : Daemon :=
  match d.poll with
  | some poll => d.publish cfg poll
  | none => d

def Daemon.tick (cfg : DaemonConfig) (d : Daemon) (t : Tick) : Daemon :=
  (t.order.foldl (Daemon.endFetch cfg t) (d.startPoll cfg t.now)).endPoll cfg

/-- A new daemon after these ticks. -/
def runTicks (cfg : DaemonConfig) (ticks : List Tick) : Daemon :=
  ticks.foldl (Daemon.tick cfg) (newDaemon cfg)

/-- What the cache holds for a peer after one more fetch. -/
def remember (p : PeerSpec) (last : Option PeerCacheEntry) (t : Tick) : Option PeerCacheEntry :=
  match t.fetch p with
  | some adv => some ⟨adv, t.now⟩
  | none => last

/-- The latest successful fetch of a peer. -/
def latestFetch (p : PeerSpec) (ticks : List Tick) : Option PeerCacheEntry :=
  ticks.foldl (remember p) none

/-- What a peer contributes to the table of a tick, given its history before. -/
def contribution (cfg : DaemonConfig) (p : PeerSpec) (last : Option PeerCacheEntry) (t : Tick) :
    Option PeerAdvertisement :=
  match t.fetch p with
  | some adv => some ⟨p, adv⟩
  | none =>
    match last with
    | none => none
    | some entry => if t.now - entry.received ≤ cfg.staleAfter then some ⟨p, entry.adv⟩ else none

variable {p : PeerSpec}

theorem latestFetch_eq_some {ticks : List Tick} {entry : PeerCacheEntry} :
    latestFetch p ticks = some entry ↔
      ∃ front s back, ticks = front ++ s :: back ∧ s.fetch p = some entry.adv ∧
        s.now = entry.received ∧ ∀ u ∈ back, u.fetch p = none := by
  induction ticks using List.reverseRecOn with
  | nil => simp [latestFetch]
  | append_singleton ticks t ih =>
    rw [latestFetch, foldl_append, foldl_cons, foldl_nil, remember]
    cases hfetch : t.fetch p with
    | some adv =>
      simp only [Option.some.injEq]
      constructor
      · rintro rfl
        exact ⟨ticks, t, [], rfl, hfetch, rfl, by simp⟩
      · rintro ⟨front, s, back, hsplit, hs, hnow, hback⟩
        rcases concat_eq_append_cons.mp hsplit with ⟨-, rfl, -⟩ | ⟨between, rfl, -⟩
        · rw [hfetch, Option.some.injEq] at hs
          rw [hs, hnow]
        · -- the last tick has a fetch of its own
          grind
    | none =>
      refine ih.trans ⟨?_, ?_⟩
      · rintro ⟨front, s, back, rfl, hs, hnow, hback⟩
        refine ⟨front, s, back ++ [t], by simp, hs, hnow, ?_⟩
        intro u hu
        rcases mem_append.mp hu with hu | hu
        · exact hback u hu
        · rw [mem_singleton.mp hu, hfetch]
      · rintro ⟨front, s, back, hsplit, hs, hnow, hback⟩
        rcases concat_eq_append_cons.mp hsplit with ⟨-, rfl, -⟩ | ⟨between, rfl, hticks⟩
        · rw [hfetch] at hs
          cases hs
        · exact ⟨front, s, between, hticks, hs, hnow, fun v hv => hback v (by simp [hv])⟩

section

variable {cfg : DaemonConfig} {t : Tick} {d₀ d : Daemon} {past : List ℕ}

/-- A tick in which the fetches at these positions have ended. -/
structure Midway (cfg : DaemonConfig) (t : Tick) (d₀ : Daemon) (past : List ℕ) (d : Daemon) :
    Prop where
  poll : ∃ fetches, d.poll = some ⟨t.now, fetches⟩ ∧ fetches.length = cfg.peers.length ∧
    ∀ k p, k ∈ past → cfg.peers[k]? = some p →
      fetches[k]? = some (.done (contribution cfg p (d₀.lastPeer.lookup p.id) t))
  ended : ∀ k p, k ∈ past → cfg.peers[k]? = some p →
    d.lastPeer.lookup p.id = remember p (d₀.lastPeer.lookup p.id) t
  running : ∀ k p, k ∉ past → cfg.peers[k]? = some p →
    d.lastPeer.lookup p.id = d₀.lastPeer.lookup p.id

theorem midway_startPoll (cfg : DaemonConfig) (t : Tick) (d₀ : Daemon) :
    Midway cfg t d₀ [] (d₀.startPoll cfg t.now) where
  poll := ⟨_, rfl, by simp, by simp⟩
  ended := by simp
  running := fun _ _ _ _ => rfl

theorem eq_of_id_eq (hids : (cfg.peers.map PeerSpec.id).Nodup) {k k' : ℕ} {p p' : PeerSpec}
    (hp : cfg.peers[k]? = some p) (hp' : cfg.peers[k']? = some p') (hid : p.id = p'.id) :
    k = k' := by
  have hk : (cfg.peers.map PeerSpec.id)[k]? = some p.id := by simp [hp]
  have hk' : (cfg.peers.map PeerSpec.id)[k']? = some p.id := by simp [hp', hid]
  have hlt : k < (cfg.peers.map PeerSpec.id).length := (List.getElem?_eq_some_iff.mp hk).1
  exact (getElem?_inj hlt hids).mp (hk.trans hk'.symm)

theorem cachedAdvertisement_eq {p : PeerSpec} {lastPeer : AList fun _ : String => PeerCacheEntry}
    (hfetch : t.fetch p = none) :
    cachedAdvertisement cfg lastPeer p t.now = contribution cfg p (lastPeer.lookup p.id) t := by
  cases hlast : lastPeer.lookup p.id <;> simp [contribution, cachedAdvertisement, hfetch, hlast]

/-- One more fetch has ended when the poll has its contribution and the cache its entry. -/
theorem Midway.cons (h : Midway cfg t d₀ past d) {k : ℕ} {p : PeerSpec}
    (hp : cfg.peers[k]? = some p) {fetches : List Fetch}
    (hpoll : d.poll = some ⟨t.now, fetches⟩) {d' : Daemon}
    (hset : d'.poll = some
      ⟨t.now, fetches.set k (.done (contribution cfg p (d₀.lastPeer.lookup p.id) t))⟩)
    (hentry : d'.lastPeer.lookup p.id = remember p (d₀.lastPeer.lookup p.id) t)
    (hrest : ∀ k' p', k' ≠ k → cfg.peers[k']? = some p' →
      d'.lastPeer.lookup p'.id = d.lastPeer.lookup p'.id) :
    Midway cfg t d₀ (k :: past) d' := by
  obtain ⟨fetches', hpoll', hlength, hfetches⟩ := h.poll
  obtain rfl : fetches = fetches' := by
    rw [hpoll, Option.some.injEq, Poll.mk.injEq] at hpoll'
    exact hpoll'.2
  have hlt : k < fetches.length := by
    rw [hlength]
    exact (List.getElem?_eq_some_iff.mp hp).1
  constructor
  · refine ⟨_, hset, by rw [length_set, hlength], ?_⟩
    intro k' p' hk' hp'
    by_cases heq : k' = k
    · grind
    · rw [getElem?_set_ne (Ne.symm heq)]
      exact hfetches k' p' ((mem_cons.mp hk').resolve_left heq) hp'
  · intro k' p' hk' hp'
    by_cases heq : k' = k
    · subst heq
      rw [hp, Option.some.injEq] at hp'
      subst hp'
      exact hentry
    · rw [hrest k' p' heq hp']
      exact h.ended k' p' ((mem_cons.mp hk').resolve_left heq) hp'
  · intro k' p' hk' hp'
    rw [mem_cons, not_or] at hk'
    rw [hrest k' p' hk'.1 hp']
    exact h.running k' p' hk'.2 hp'

theorem Midway.endFetch (hids : (cfg.peers.map PeerSpec.id).Nodup) (h : Midway cfg t d₀ past d)
    {k : ℕ} {p : PeerSpec} (hk : k ∉ past) (hp : cfg.peers[k]? = some p) :
    Midway cfg t d₀ (k :: past) (d.endFetch cfg t k) := by
  obtain ⟨fetches, hpoll, -, -⟩ := h.poll
  have hlast := h.running k p hk hp
  cases hfetch : t.fetch p with
  | some adv =>
    have hstep : d.endFetch cfg t k = d.fetched ⟨t.now, fetches⟩ k p adv := by
      simp only [Daemon.endFetch, hpoll, hp, hfetch]
    have hdone : contribution cfg p (d₀.lastPeer.lookup p.id) t = some ⟨p, adv⟩ := by
      simp only [contribution, hfetch]
    rw [hstep]
    refine h.cons hp hpoll ?_ ?_ ?_
    · rw [hdone]
      rfl
    · rw [remember, hfetch]
      exact AList.lookup_insert _
    · intro k' p' hk' hp'
      exact AList.lookup_insert_ne fun hid => hk' (eq_of_id_eq hids hp' hp hid)
  | none =>
    have hstep : d.endFetch cfg t k = d.failed cfg ⟨t.now, fetches⟩ k p := by
      simp only [Daemon.endFetch, hpoll, hp, hfetch]
    rw [hstep]
    refine h.cons hp hpoll ?_ ?_ fun _ _ _ _ => rfl
    · rw [← hlast, ← cachedAdvertisement_eq hfetch]
      rfl
    · rw [remember, hfetch]
      exact hlast

theorem Midway.foldl_endFetch (hids : (cfg.peers.map PeerSpec.id).Nodup)
    (h : Midway cfg t d₀ past d) {order : List ℕ} (hnodup : order.Nodup)
    (hnew : ∀ k ∈ order, k ∉ past) (hbound : ∀ k ∈ order, k < cfg.peers.length) :
    Midway cfg t d₀ (order.reverse ++ past) (order.foldl (Daemon.endFetch cfg t) d) := by
  induction order generalizing past d with
  | nil => exact h
  | cons k order ih =>
    obtain ⟨hk, hnodup⟩ := nodup_cons.mp hnodup
    obtain ⟨hkpast, hnew⟩ := forall_mem_cons.mp hnew
    obtain ⟨hklt, hbound⟩ := forall_mem_cons.mp hbound
    have hp : cfg.peers[k]? = some cfg.peers[k] := getElem?_eq_getElem hklt
    rw [reverse_cons, append_assoc, foldl_cons]
    refine ih (h.endFetch hids hkpast hp) hnodup ?_ hbound
    intro k' hk' hmem
    rcases mem_cons.mp hmem with rfl | hmem
    · exact hk hk'
    · exact hnew k' hk' hmem

theorem tick_spec (hids : (cfg.peers.map PeerSpec.id).Nodup) (hof : t.Of cfg) (d₀ : Daemon) :
    (d₀.tick cfg t).table = tickTable cfg (cfg.peers.filterMap fun p =>
        contribution cfg p (d₀.lastPeer.lookup p.id) t) ∧
      ∀ p ∈ cfg.peers,
        (d₀.tick cfg t).lastPeer.lookup p.id = remember p (d₀.lastPeer.lookup p.id) t := by
  have hall : ∀ k p, cfg.peers[k]? = some p → k ∈ t.order.reverse ++ [] := by
    intro k p hp
    have hlt := (List.getElem?_eq_some_iff.mp hp).1
    simpa using hof.mem_iff.mpr (mem_range.mpr hlt)
  have hend := (midway_startPoll cfg t d₀).foldl_endFetch hids
    (hof.nodup_iff.mpr nodup_range) (by simp)
    (fun k hk => mem_range.mp (hof.mem_iff.mp hk))
  obtain ⟨fetches, hpoll, hlength, hfetches⟩ := hend.poll
  have hdone : fetches = cfg.peers.map fun p =>
      Fetch.done (contribution cfg p (d₀.lastPeer.lookup p.id) t) := by
    refine ext_getElem? fun k => ?_
    rw [getElem?_map]
    cases hp : cfg.peers[k]? with
    | none => simpa [hlength] using hp
    | some p => exact hfetches k p (hall k p hp) hp
  have hpublish : d₀.tick cfg t =
      (t.order.foldl (Daemon.endFetch cfg t) (d₀.startPoll cfg t.now)).publish cfg
        ⟨t.now, fetches⟩ := by
    rw [Daemon.tick, Daemon.endPoll, hpoll]
  rw [hpublish]
  constructor
  · rw [Daemon.publish, hdone, filterMap_map]
    rfl
  · intro p hp
    obtain ⟨k, hk⟩ := mem_iff_getElem?.mp hp
    exact hend.ended k p (hall k p hk) hk

end

theorem lookup_runTicks {cfg : DaemonConfig} (hids : (cfg.peers.map PeerSpec.id).Nodup)
    {ticks : List Tick} (hof : ∀ t ∈ ticks, t.Of cfg) (hp : p ∈ cfg.peers) :
    (runTicks cfg ticks).lastPeer.lookup p.id = latestFetch p ticks := by
  induction ticks using List.reverseRecOn with
  | nil => rfl
  | append_singleton ticks t ih =>
    have hbefore := ih fun s hs => hof s (mem_append_left _ hs)
    rw [runTicks, latestFetch, foldl_append, foldl_append]
    rw [runTicks, latestFetch] at hbefore
    simp only [foldl_cons, foldl_nil]
    rw [(tick_spec hids (hof t (by simp)) _).2 p hp, hbefore]

/-- A fetch of the tick itself, or one that is not too old for it. -/
def Usable (cfg : DaemonConfig) (last s : Tick) (back : List Tick) : Prop :=
  back = [] ∨ last.now - s.now ≤ cfg.staleAfter

theorem contribution_eq_some {cfg : DaemonConfig} {history : List Tick} {last : Tick}
    {adv : Advertisement} :
    contribution cfg p (latestFetch p history) last = some ⟨p, adv⟩ ↔
      ∃ front s back, history ++ [last] = front ++ s :: back ∧ s.fetch p = some adv ∧
        (∀ u ∈ back, u.fetch p = none) ∧ Usable cfg last s back := by
  unfold contribution
  cases hfetch : last.fetch p with
  | some adv' =>
    simp only [Option.some.injEq, PeerAdvertisement.mk.injEq, true_and]
    constructor
    · rintro rfl
      exact ⟨history, last, [], rfl, hfetch, by simp, Or.inl rfl⟩
    · rintro ⟨front, s, back, heq, hs, hback, -⟩
      rcases concat_eq_append_cons.mp heq with ⟨-, rfl, -⟩ | ⟨between, rfl, -⟩
      · rw [hfetch, Option.some.injEq] at hs
        exact hs
      · rw [hback last (by simp)] at hfetch
        cases hfetch
  | none =>
    constructor
    · intro h
      cases hlatest : latestFetch p history with
      | none => simp [hlatest] at h
      | some entry =>
        simp only [hlatest] at h
        split_ifs at h with hfresh
        obtain ⟨front, s, back, rfl, hs, hnow, hback⟩ := latestFetch_eq_some.mp hlatest
        cases h
        refine ⟨front, s, back ++ [last], by simp, hs, ?_, Or.inr (by rwa [hnow])⟩
        intro u hu
        rcases mem_append.mp hu with hu | hu
        · exact hback u hu
        · rw [mem_singleton.mp hu, hfetch]
    · rintro ⟨front, s, back, heq, hs, hback, husable⟩
      rcases concat_eq_append_cons.mp heq with ⟨-, rfl, -⟩ | ⟨between, rfl, hhistory⟩
      · rw [hfetch] at hs
        cases hs
      · have hlatest : latestFetch p history = some ⟨adv, s.now⟩ :=
          latestFetch_eq_some.mpr ⟨front, s, between, hhistory, hs, rfl,
            fun u hu => hback u (mem_append_left _ hu)⟩
        have hfresh : last.now - s.now ≤ cfg.staleAfter := husable.resolve_left (by simp)
        simp only [hlatest, if_pos hfresh]

theorem contribution_peer {cfg : DaemonConfig} {last : Option PeerCacheEntry} {t : Tick}
    {pa : PeerAdvertisement} (h : contribution cfg p last t = some pa) :
    pa.peer = p := by
  unfold contribution at h
  split at h
  · cases h
    rfl
  · split at h
    · cases h
    · split_ifs at h
      cases h
      rfl

/-- The advertisements from which the table of a tick is computed. -/
def contributions (cfg : DaemonConfig) (history : List Tick) (last : Tick) :
    List PeerAdvertisement :=
  cfg.peers.filterMap fun p => contribution cfg p (latestFetch p history) last

theorem contributions_sublist (cfg : DaemonConfig) (history : List Tick) (last : Tick) :
    ((contributions cfg history last).map PeerAdvertisement.peer).Sublist cfg.peers := by
  unfold contributions
  generalize hf : (fun p => contribution cfg p (latestFetch p history) last) = f
  have hpeer : ∀ {p pa}, f p = some pa → pa.peer = p := by
    intro p pa h
    rw [← hf] at h
    exact contribution_peer h
  clear hf
  induction cfg.peers with
  | nil => exact List.Sublist.slnil
  | cons p peers ih =>
    cases hp : f p with
    | none =>
      rw [filterMap_cons_none hp]
      exact ih.cons p
    | some pa =>
      rw [filterMap_cons_some hp, map_cons, hpeer hp]
      exact ih.cons_cons p

theorem mem_contributions {cfg : DaemonConfig} {history : List Tick} {last : Tick}
    (hp : p ∈ cfg.peers) {adv : Advertisement} :
    ⟨p, adv⟩ ∈ contributions cfg history last ↔
      contribution cfg p (latestFetch p history) last = some ⟨p, adv⟩ := by
  rw [contributions, mem_filterMap]
  constructor
  · rintro ⟨q, -, hq⟩
    obtain rfl : p = q := contribution_peer hq
    exact hq
  · intro h
    exact ⟨p, hp, h⟩

theorem table_runTicks {cfg : DaemonConfig} (hids : (cfg.peers.map PeerSpec.id).Nodup)
    {history : List Tick} {last : Tick} (hof : ∀ t ∈ history ++ [last], t.Of cfg) :
    (runTicks cfg (history ++ [last])).table = tickTable cfg (contributions cfg history last) := by
  have hhistory : ∀ t ∈ history, t.Of cfg := fun t ht => hof t (mem_append_left _ ht)
  have htick := (tick_spec hids (hof last (by simp)) (runTicks cfg history)).1
  have hrun : runTicks cfg (history ++ [last]) = (runTicks cfg history).tick cfg last := by
    simp [runTicks]
  rw [hrun, htick]
  congr 1
  refine filterMap_congr fun p hp => ?_
  rw [lookup_runTicks hids hhistory hp]

theorem exists_last {α : Type*} {q : α → Prop} {l : List α} (h : ∃ a ∈ l, q a) :
    ∃ front a back, l = front ++ a :: back ∧ q a ∧ ∀ b ∈ back, ¬ q b := by
  induction l with
  | nil => simp at h
  | cons x l ih =>
    by_cases hl : ∃ a ∈ l, q a
    · obtain ⟨front, a, back, rfl, ha, hback⟩ := ih hl
      exact ⟨x :: front, a, back, rfl, ha, hback⟩
    · obtain ⟨a, ha, hqa⟩ := h
      rcases mem_cons.mp ha with rfl | ha
      · exact ⟨[], a, l, rfl, hqa, fun b hb hqb => hl ⟨b, hb, hqb⟩⟩
      · exact absurd ⟨a, ha, hqa⟩ hl

theorem exists_latest {cfg : DaemonConfig} {ticks : List Tick} {last : Tick}
    (hmono : ticks.Pairwise fun a b => a.now ≤ b.now) {front back : List Tick} {s : Tick}
    (hsplit : ticks = front ++ s :: back) (hs : (s.fetch p).isSome)
    (husable : Usable cfg last s back) :
    ∃ adv front' s' back', ticks = front' ++ s' :: back' ∧ s'.fetch p = some adv ∧
      (∀ u ∈ back', u.fetch p = none) ∧ Usable cfg last s' back' := by
  obtain ⟨mid, s', back', hlast, hs', hback'⟩ :=
    exists_last (q := fun u => (u.fetch p).isSome = true) ⟨s, mem_cons_self (l := back), hs⟩
  obtain ⟨adv, hadv⟩ := Option.isSome_iff_exists.mp hs'
  refine ⟨adv, front ++ mid, s', back', ?_, hadv, ?_, ?_⟩
  · rw [hsplit, hlast, append_assoc]
  · intro u hu
    simpa using hback' u hu
  · rcases husable with rfl | hfresh
    · -- nothing comes after the tick of the fetch
      refine Or.inl ?_
      have hlength := congrArg List.length hlast
      simp only [length_append, length_cons, length_nil] at hlength
      exact length_eq_zero_iff.mp (by omega)
    · have hle : s.now ≤ s'.now := by
        rw [hsplit] at hmono
        have htail := (pairwise_append.mp hmono).2.1
        have hmem : s' ∈ s :: back := by
          rw [hlast]
          simp
        rcases mem_cons.mp hmem with rfl | hmem
        · exact le_rfl
        · exact (pairwise_cons.mp htail).1 s' hmem
      exact Or.inr (by omega)

/-- The table of a tick is computed from the latest successful fetch of each peer, and a
peer counts when it has a successful fetch that is at most `staleAfter` old. -/
def FreshTable (cfg : DaemonConfig) (history : List Tick) (last : Tick) : Prop :=
  ∃ advs, (runTicks cfg (history ++ [last])).table = tickTable cfg advs ∧
    (advs.map PeerAdvertisement.peer).Sublist cfg.peers ∧
    ∀ p ∈ cfg.peers,
      (∀ adv, ⟨p, adv⟩ ∈ advs ↔
        ∃ front s back, history ++ [last] = front ++ s :: back ∧ s.fetch p = some adv ∧
          (∀ u ∈ back, u.fetch p = none) ∧ last.now - s.now ≤ cfg.staleAfter) ∧
      ((∃ adv, ⟨p, adv⟩ ∈ advs) ↔
        ∃ s ∈ history ++ [last], (s.fetch p).isSome ∧ last.now - s.now ≤ cfg.staleAfter)

section

variable {cfg : DaemonConfig}

theorem usable_iff (hstale : 0 ≤ cfg.staleAfter) {history front back : List Tick} {last s : Tick}
    (hsplit : history ++ [last] = front ++ s :: back) :
    Usable cfg last s back ↔ last.now - s.now ≤ cfg.staleAfter := by
  refine ⟨fun h => ?_, Or.inr⟩
  rcases h with rfl | hage
  · -- the fetch of the tick itself has no age
    rcases concat_eq_append_cons.mp hsplit with ⟨-, rfl, -⟩ | ⟨between, hback, -⟩
    · simpa using hstale
    · simp at hback
  · exact hage

theorem freshTable_of_nonneg (hids : (cfg.peers.map PeerSpec.id).Nodup)
    (hstale : 0 ≤ cfg.staleAfter) {history : List Tick} {last : Tick}
    (hof : ∀ t ∈ history ++ [last], t.Of cfg)
    (hmono : (history ++ [last]).Pairwise fun a b => a.now ≤ b.now) :
    FreshTable cfg history last := by
  refine ⟨contributions cfg history last, table_runTicks hids hof,
    contributions_sublist cfg history last, fun p hp => ?_⟩
  have hmem : ∀ adv, ⟨p, adv⟩ ∈ contributions cfg history last ↔ _ :=
    fun adv => (mem_contributions hp).trans contribution_eq_some
  constructor
  · intro adv
    rw [hmem adv]
    constructor
    · rintro ⟨front, s, back, hsplit, hs, hback, husable⟩
      exact ⟨front, s, back, hsplit, hs, hback, (usable_iff hstale hsplit).mp husable⟩
    · rintro ⟨front, s, back, hsplit, hs, hback, hage⟩
      exact ⟨front, s, back, hsplit, hs, hback, (usable_iff hstale hsplit).mpr hage⟩
  · simp only [hmem]
    constructor
    · rintro ⟨adv, front, s, back, hsplit, hs, -, husable⟩
      exact ⟨s, by simp [hsplit], by simp [hs], (usable_iff hstale hsplit).mp husable⟩
    · rintro ⟨s, hmem, hs, hage⟩
      obtain ⟨front, back, hsplit⟩ := append_of_mem hmem
      exact exists_latest hmono hsplit hs (Or.inr hage)

/-- A tick in which one peer answers and announces its own local cluster as a terminal. -/
def soloTick (cfg : DaemonConfig) (p : PeerSpec) : Tick where
  now := 0
  fetch q := if q = p then some ⟨p.id, [terminalRoute p.localCluster]⟩ else none
  order := List.range cfg.peers.length

theorem soloTick_of (cfg : DaemonConfig) (p : PeerSpec) : ∀ t ∈ [soloTick cfg p], t.Of cfg := by
  intro t ht
  rw [mem_singleton.mp ht]
  exact List.Perm.refl _

theorem table_soloTick (haccepted : cfg.Accepted) (p : PeerSpec) :
    (runTicks cfg [soloTick cfg p]).table =
      tickTable cfg (contributions cfg [] (soloTick cfg p)) :=
  @table_runTicks cfg haccepted.peerIDs [] (soloTick cfg p) (soloTick_of cfg p)

theorem contributions_soloTick (hp : p ∈ cfg.peers) {pa : PeerAdvertisement} :
    pa ∈ contributions cfg [] (soloTick cfg p) ↔
      pa = ⟨p, p.id, [terminalRoute p.localCluster]⟩ := by
  rw [contributions, mem_filterMap]
  constructor
  · rintro ⟨q, -, hq⟩
    by_cases hqp : q = p
    · subst hqp
      simpa [contribution, soloTick, eq_comm] using hq
    · simp [contribution, soloTick, hqp, latestFetch] at hq
  · rintro rfl
    exact ⟨p, hp, by simp [contribution, soloTick]⟩

theorem lookup_soloTick (haccepted : cfg.Accepted) (hp : p ∈ cfg.peers)
    (hnamed : p.localCluster ≠ "") :
    (runTicks cfg [soloTick cfg p]).table.routes.lookup p.localCluster =
      some (candidateRoute p (terminalRoute p.localCluster)) := by
  rw [table_soloTick haccepted]
  have hnot : ¬ IsTerminal (buildLocals cfg) p.localCluster :=
    fun h => haccepted.notTerminal p hp ((isTerminal_buildLocals cfg _).mp h)
  obtain ⟨lc, hlc⟩ := Option.isSome_iff_exists.mp (buildLocals_peer hp)
  have hcandidates : candidates cfg.envoyID (buildLocals cfg)
      ⟨p, p.id, [terminalRoute p.localCluster]⟩ =
        [candidateRoute p (terminalRoute p.localCluster)] := by
    have hvalid : validAdvertisedRoute (terminalRoute p.localCluster) = true :=
      (validAdvertisedRoute_iff _).mpr ⟨hnamed, le_rfl, Int.natCast_nonneg 32, Nat.zero_le _⟩
    have hpath : (terminalRoute p.localCluster).asPath = [] := rfl
    simp [candidates, hlc, acceptedRoutes, hvalid, hpath]
  have hmem : ∀ c, c ∈ allCandidates cfg.envoyID (buildLocals cfg)
      (contributions cfg [] (soloTick cfg p)) ↔
        c = candidateRoute p (terminalRoute p.localCluster) := by
    intro c
    rw [mem_allCandidates]
    simp only [contributions_soloTick hp, exists_eq_left, hcandidates, mem_singleton]
  obtain ⟨r, hr, -⟩ := lookup_compute_le hnot ((hmem _).mpr rfl)
  rcases lookup_compute_cases hr with ⟨hterminal, -⟩ | ⟨-, -, hc⟩
  · exact absurd hterminal hnot
  · rw [(hmem r).mp hc] at hr
    exact hr

/-- With a negative `staleAfter` no fetch is recent enough, not even one of the tick itself. -/
theorem FreshTable.table_eq {t : Tick} (h : FreshTable cfg [] t) (hstale : cfg.staleAfter < 0) :
    (runTicks cfg [t]).table = tickTable cfg [] := by
  obtain ⟨advs, htable, hsublist, hfresh⟩ := h
  have hnone : advs = [] := by
    refine eq_nil_iff_forall_not_mem.mpr fun pa hpa => ?_
    have hpeer := hsublist.subset (List.mem_map_of_mem hpa)
    obtain ⟨s, hs, -, hage⟩ := (hfresh pa.peer hpeer).2.mp ⟨pa.adv, hpa⟩
    rw [nil_append, mem_singleton] at hs
    rw [hs, sub_self] at hage
    omega
  rwa [hnone] at htable

theorem not_freshTable_soloTick (haccepted : cfg.Accepted) (hp : p ∈ cfg.peers)
    (hnamed : p.localCluster ≠ "") (hstale : cfg.staleAfter < 0) :
    ¬ FreshTable cfg [] (soloTick cfg p) := by
  intro h
  -- the answer of the tick itself is used all the same
  have hroute := lookup_soloTick haccepted hp hnamed
  rw [h.table_eq hstale] at hroute
  rcases lookup_compute_cases hroute with ⟨-, hterminal⟩ | ⟨-, -, hcandidate⟩
  · cases hterminal
  · cases hcandidate

end

/-- Every table of an accepted configuration is computed from fresh advertisements exactly
when no peer is configured or `stale_after` is not negative. -/
theorem contributions_fresh_iff (P : Parsers) (config : Config)
    (haccepted : (config.validate P).2 = []) :
    (∀ history last,
        (∀ t ∈ history ++ [last], t.Of ((config.validate P).1.daemonConfig P)) →
        ((history ++ [last]).Pairwise fun a b => a.now ≤ b.now) →
        FreshTable ((config.validate P).1.daemonConfig P) history last) ↔
      config.peers = [] ∨ 0 ≤ (config.validate P).1.staleNanos P := by
  have hcfg := config.accepted P haccepted
  have hnamed := config.localCluster_ne P haccepted
  constructor
  · intro h
    by_contra hcon
    rw [not_or, not_le] at hcon
    obtain ⟨p, hp⟩ := exists_mem_of_ne_nil _ hcon.1
    exact not_freshTable_soloTick hcfg hp (hnamed p hp) hcon.2
      (h [] (soloTick _ p) (soloTick_of _ p) (pairwise_singleton _ _))
  · rintro (hpeers | hstale) history last hof hmono
    · refine ⟨_, table_runTicks hcfg.peerIDs hof, contributions_sublist _ history last, ?_⟩
      intro p hp
      have hp : p ∈ config.peers := hp
      simp [hpeers] at hp
    · exact freshTable_of_nonneg hcfg.peerIDs hstale hof hmono

/-- Parsers that know three durations and accept every URL. -/
def sampleParsers : Parsers where
  parseDuration text :=
    if text = "10s" then some 10000000000
    else if text = "60s" then some 60000000000
    else if text = "-1s" then some (-1000000000)
    else none
  parseURL _ := some ("http", "b")

def samplePeer : PeerSpec := ⟨"b", "http://b", "peer_b"⟩

/-- A configuration with one peer, and defaults but for `stale_after`. -/
def sampleConfig (staleAfter : String) : Config :=
  ⟨"a", ":8080", "", "", "", [samplePeer], [], "", staleAfter, ""⟩

def sampleDaemon (staleAfter : String) : DaemonConfig :=
  ((sampleConfig staleAfter).validate sampleParsers).1.daemonConfig sampleParsers

def sampleAdvertisement : Advertisement := ⟨"b", [⟨"svc", "svc", 0, []⟩]⟩

def sampleTick (now : ℤ) (answer : Option Advertisement) : Tick :=
  ⟨now, fun _ => answer, [0]⟩

theorem sampleTick_of (now : ℤ) (answer : Option Advertisement) (staleAfter : String) :
    (sampleTick now answer).Of (sampleDaemon staleAfter) :=
  List.Perm.refl _

/-- A failed fetch after thirty seconds: the cached advertisement is used. -/
theorem sampleConfig_uses_cache :
    ((sampleConfig "").validate sampleParsers).2 = [] ∧
    ∃ advs, (runTicks (sampleDaemon "")
        ([sampleTick 0 (some sampleAdvertisement)] ++ [sampleTick 30000000000 none])).table =
        tickTable (sampleDaemon "") advs ∧
      ⟨samplePeer, sampleAdvertisement⟩ ∈ advs := by
  have haccepted : ((sampleConfig "").validate sampleParsers).2 = [] := by decide +kernel
  obtain ⟨advs, htable, -, hadvs⟩ :=
    (contributions_fresh_iff sampleParsers (sampleConfig "") haccepted).mpr
      (Or.inr (by decide +kernel)) [sampleTick 0 (some sampleAdvertisement)]
      (sampleTick 30000000000 none)
      (by
        intro t ht
        simp only [cons_append, nil_append, mem_cons, not_mem_nil, or_false] at ht
        rcases ht with rfl | rfl
        · exact sampleTick_of 0 _ ""
        · exact sampleTick_of 30000000000 _ "")
      (by simp [sampleTick])
  refine ⟨haccepted, advs, htable, ((hadvs samplePeer (by decide +kernel)).1 _).mpr ?_⟩
  refine ⟨[], _, [sampleTick 30000000000 none], rfl, rfl, by simp [sampleTick], ?_⟩
  decide +kernel

/-- A negative `stale_after` is accepted. The fetch of the tick itself contributes all
the same, although no fetch is at most that old. -/
theorem negative_stale_after_contributes :
    ((sampleConfig "-1s").validate sampleParsers).2 = [] ∧
      (runTicks (sampleDaemon "-1s")
        [sampleTick 0 (some sampleAdvertisement)]).table.routes.lookup "svc" =
        some ⟨"svc", "peer_b", 1, ["b"]⟩ ∧
      ¬ FreshTable (sampleDaemon "-1s") [] (sampleTick 0 (some sampleAdvertisement)) := by
  have hroute : (runTicks (sampleDaemon "-1s")
      [sampleTick 0 (some sampleAdvertisement)]).table.routes.lookup "svc" =
        some ⟨"svc", "peer_b", 1, ["b"]⟩ := by
    decide +kernel
  refine ⟨by decide +kernel, hroute, fun h => ?_⟩
  rw [h.table_eq (by decide +kernel)] at hroute
  revert hroute
  decide +kernel

end BuiltOnEnvoy.ClusterRouter
