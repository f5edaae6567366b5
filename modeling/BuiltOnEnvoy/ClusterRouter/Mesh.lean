import BuiltOnEnvoy.ClusterRouter.Config
import Mathlib.Logic.Relation

/-!
# The routing daemon and a mesh of daemons

One poll of a daemon starts a fetch per configured peer, waits for all of them,
and publishes the table computed from the advertisements it got. A failed fetch
falls back to the last advertisement of that peer while it is fresh enough.

The fetches of a poll run concurrently with the polls of all other nodes, so a
poll is split into its atomic steps: it starts, single fetches end, it
publishes. The answers on the wire are kept for ever: a fetch may complete
with any answer that the peer ever gave to this node, however late.
-/

namespace BuiltOnEnvoy.ClusterRouter

open List

/-- Local clusters from the configured peers and terminals. -/
def buildLocals (cfg : DaemonConfig) : Locals :=
  let out := cfg.peers.foldl (fun out p =>
    out.insert p.localCluster { name := p.localCluster, role := .peer, peerID := p.id }) ∅
  cfg.terminals.foldl (fun out name =>
    out.insert name { name := name, role := .terminal, peerID := "" }) out

structure PeerCacheEntry where
  adv : Advertisement
  received : ℤ

/-- The part of a poll that belongs to one peer. -/
inductive Fetch
  | running
  | done (result : Option PeerAdvertisement)

/-- A poll in progress: its time and one fetch for each configured peer. -/
structure Poll where
  now : ℤ
  fetches : List Fetch

structure Daemon where
  table : Table
  lastPeer : AList fun _ : String => PeerCacheEntry
  poll : Option Poll

def newDaemon (cfg : DaemonConfig) : Daemon :=
  { table := { envoyID := cfg.envoyID, routes := ∅, localClusters := ∅ }
    lastPeer := ∅
    poll := none }

/-- What a failed fetch contributes: the cached advertisement while it is fresh. -/
def cachedAdvertisement (cfg : DaemonConfig) (lastPeer : AList fun _ : String => PeerCacheEntry)
    (p : PeerSpec) (now : ℤ) : Option PeerAdvertisement :=
  match lastPeer.lookup p.id with
  | none => none
  | some entry => if now - entry.received ≤ cfg.staleAfter then some ⟨p, entry.adv⟩ else none

def Fetch.used : Fetch → Option PeerAdvertisement
  | running => none
  | done result => result

/-- The table published at the end of a poll. -/
def tickTable (cfg : DaemonConfig) (advs : List PeerAdvertisement) : Table :=
  let locals := buildLocals cfg
  { envoyID := cfg.envoyID
    routes := compute cfg.envoyID locals advs
    localClusters := locals }

/-- The body of a `GET /advertisements?peer=peerID` answer. -/
def handle (cfg : DaemonConfig) (t : Table) (peerID : String) : Advertisement :=
  { envoyID := cfg.envoyID, routes := advertiseTo t peerID }

/-- A poll starts with all its fetches running. -/
def Daemon.startPoll (d : Daemon) (cfg : DaemonConfig) (now : ℤ) : Daemon :=
  { d with poll := some ⟨now, cfg.peers.map fun _ => Fetch.running⟩ }

def Poll.finish (poll : Poll) (k : ℕ) (result : Option PeerAdvertisement) : Poll :=
  { poll with fetches := poll.fetches.set k (.done result) }

/-- A successful fetch refreshes the cache. -/
def Daemon.fetched (d : Daemon) (poll : Poll) (k : ℕ) (p : PeerSpec) (adv : Advertisement) :
    Daemon :=
  { d with
    lastPeer := d.lastPeer.insert p.id ⟨adv, poll.now⟩
    poll := some (poll.finish k (some ⟨p, adv⟩)) }

/-- After a failed fetch the cache is asked instead. -/
def Daemon.failed (d : Daemon) (cfg : DaemonConfig) (poll : Poll) (k : ℕ) (p : PeerSpec) :
    Daemon :=
  { d with poll := some (poll.finish k (cachedAdvertisement cfg d.lastPeer p poll.now)) }

/-- The end of a poll, after all fetches have ended. -/
def Daemon.publish (d : Daemon) (cfg : DaemonConfig) (poll : Poll) : Daemon :=
  { d with table := tickTable cfg (poll.fetches.filterMap Fetch.used), poll := none }

theorem lookup_foldl_insert {α β : Type*} (key : α → String) (value : α → β) (l : List α)
    (out : AList fun _ : String => β) (k : String) :
    (l.foldl (fun out a => out.insert (key a) (value a)) out).lookup k =
      ((l.reverse.find? fun a => key a = k).map value).or (out.lookup k) := by
  induction l using List.reverseRecOn with
  | nil => rfl
  | append_singleton l a ih =>
    rw [foldl_append, foldl_cons, foldl_nil, reverse_append,
      reverse_singleton, singleton_append]
    by_cases hk : key a = k
    · subst hk
      rw [AList.lookup_insert, find?_cons_of_pos (by simp)]
      rfl
    · rw [AList.lookup_insert_ne (Ne.symm hk), find?_cons_of_neg (by simpa using hk), ih]

theorem find?_key {α β : Type*} [DecidableEq β] {f : α → β} {l : List α} {a : α} (ha : a ∈ l)
    (hunique : ∀ b ∈ l, f b = f a → b = a) : (l.find? fun b => f b = f a) = some a := by
  cases hfind : l.find? fun b => f b = f a with
  | none => exact absurd (decide_eq_true rfl) (find?_eq_none.mp hfind a ha)
  | some b =>
    have hkey : f b = f a := by simpa using find?_some hfind
    rw [hunique b (mem_of_find?_eq_some hfind) hkey]

/-- A local cluster is a terminal, or it belongs to the last peer configured with it. -/
theorem lookup_buildLocals (cfg : DaemonConfig) (name : String) :
    (buildLocals cfg).lookup name =
      if name ∈ cfg.terminals then some { name := name, role := .terminal, peerID := "" }
      else (cfg.peers.reverse.find? fun p => p.localCluster = name).map fun p =>
        { name := p.localCluster, role := .peer, peerID := p.id } := by
  have hterminals := lookup_foldl_insert id
    (fun name : String => ({ name := name, role := .terminal, peerID := "" } : LocalCluster))
    cfg.terminals
  have hpeers := lookup_foldl_insert PeerSpec.localCluster
    (fun p => ({ name := p.localCluster, role := .peer, peerID := p.id } : LocalCluster))
    cfg.peers ∅ name
  refine (hterminals _ name).trans ?_
  rw [hpeers]
  split_ifs with hname
  · have hfind : (cfg.terminals.reverse.find? fun a => id a = id name) = some name :=
      find?_key (mem_reverse.mpr hname) fun b _ h => h
    simp only [id_eq] at hfind ⊢
    rw [hfind]
    rfl
  · have hfind : (cfg.terminals.reverse.find? fun a => id a = name) = none := by
      rw [find?_eq_none]
      rintro a ha hname'
      rw [mem_reverse] at ha
      exact hname (of_decide_eq_true hname' ▸ ha)
    rw [hfind]
    simp

theorem isTerminal_buildLocals (cfg : DaemonConfig) (t : String) :
    IsTerminal (buildLocals cfg) t ↔ t ∈ cfg.terminals := by
  unfold IsTerminal
  rw [lookup_buildLocals]
  split_ifs with ht
  · exact ⟨fun _ => ht, fun _ => ⟨_, rfl, rfl⟩⟩
  · constructor
    · rintro ⟨c, hc, hrole⟩
      obtain ⟨p, -, rfl⟩ := Option.map_eq_some_iff.mp hc
      cases hrole
    · exact fun h => absurd h ht

theorem buildLocals_peer {cfg : DaemonConfig} {p : PeerSpec} (hp : p ∈ cfg.peers) :
    ((buildLocals cfg).lookup p.localCluster).isSome := by
  rw [lookup_buildLocals]
  split_ifs
  · rfl
  · rw [Option.isSome_map, find?_isSome]
    exact ⟨p, mem_reverse.mpr hp, by simp⟩

/-- A mesh: the configuration of every node, and which node answers at which
endpoint. -/
structure Mesh (ι : Type*) where
  cfg : ι → DaemonConfig
  nodeAt : String → Option ι

variable {ι : Type*}

/-- A configured peer link. -/
def Mesh.Link (M : Mesh ι) (i j : ι) : Prop :=
  ∃ p ∈ (M.cfg i).peers, p.id = (M.cfg j).envoyID

/-- The node fronts the target as one of its own terminals. -/
def Mesh.Owns (M : Mesh ι) (t : String) (i : ι) : Prop :=
  t ∈ (M.cfg i).terminals

/-- An answer to `peer` given by the node `server`. -/
structure Answer (ι : Type*) where
  server : ι
  peer : String
  adv : Advertisement

structure MeshState (ι : Type*) where
  nodes : ι → Daemon
  sent : List (Answer ι)

def Mesh.init (M : Mesh ι) : MeshState ι :=
  { nodes := fun i => newDaemon (M.cfg i), sent := [] }

/-- The same map in another iteration order. -/
def Table.SameRoutes (t t' : Table) : Prop :=
  t'.routes.entries.Perm t.routes.entries

variable [DecidableEq ι]

def MeshState.setNode (s : MeshState ι) (i : ι) (d : Daemon) : MeshState ι :=
  { s with nodes := Function.update s.nodes i d }

/-- One atomic step of one node of the mesh. -/
inductive Mesh.Step (M : Mesh ι) : MeshState ι → MeshState ι → Prop
  | start (s : MeshState ι) (i : ι) (now : ℤ) (hidle : (s.nodes i).poll = none) :
      Step M s (s.setNode i ((s.nodes i).startPoll (M.cfg i) now))
  /-- A node answers a request from its current table. -/
  | serve (s : MeshState ι) (j : ι) (peerID : String) (t : Table)
      (ht : (s.nodes j).table.SameRoutes t) :
      Step M s { s with sent := ⟨j, peerID, handle (M.cfg j) t peerID⟩ :: s.sent }
  /-- A fetch succeeds with an answer of the node at the peer's endpoint. -/
  | fetched (s : MeshState ι) (i j : ι) (k : ℕ) (p : PeerSpec) (poll : Poll) (adv : Advertisement)
      (hpoll : (s.nodes i).poll = some poll) (hrun : poll.fetches[k]? = some .running)
      (hp : (M.cfg i).peers[k]? = some p) (hat : M.nodeAt p.endpoint = some j)
      (hsent : ⟨j, (M.cfg i).envoyID, adv⟩ ∈ s.sent) :
      Step M s (s.setNode i ((s.nodes i).fetched poll k p adv))
  | failed (s : MeshState ι) (i : ι) (k : ℕ) (p : PeerSpec) (poll : Poll)
      (hpoll : (s.nodes i).poll = some poll) (hrun : poll.fetches[k]? = some .running)
      (hp : (M.cfg i).peers[k]? = some p) :
      Step M s (s.setNode i ((s.nodes i).failed (M.cfg i) poll k p))
  | publish (s : MeshState ι) (i : ι) (poll : Poll) (hpoll : (s.nodes i).poll = some poll)
      (hdone : ∀ f ∈ poll.fetches, ∃ result, f = .done result) :
      Step M s (s.setNode i ((s.nodes i).publish (M.cfg i) poll))

/-- The states of all runs that start from empty tables. -/
def Mesh.Reachable (M : Mesh ι) (s : MeshState ι) : Prop :=
  Relation.ReflTransGen M.Step M.init s

/-- Accepted configurations, distinct envoy ids, and peers configured under
their real ids. -/
structure Mesh.Honest (M : Mesh ι) : Prop where
  accepted : ∀ i, (M.cfg i).Accepted
  ids : Function.Injective fun i => (M.cfg i).envoyID
  peerIDs : ∀ i, ∀ p ∈ (M.cfg i).peers, ∀ j, M.nodeAt p.endpoint = some j →
    p.id = (M.cfg j).envoyID

end BuiltOnEnvoy.ClusterRouter
