import BuiltOnEnvoy.Cli.Scan
import BuiltOnEnvoy.Foundations.Fallible

/-!
# Extensions in the order of the command line

`sort` is to return one manifest for each requested extension, in the order of
the command line. It does so exactly when the flags that the scan has noted are,
one for one, the requested extensions. A flag written `--extension=name` is not
noted, and a list after `--extension` is noted as one reference.
-/

namespace BuiltOnEnvoy.Cli

open Foundations List Option

section

variable {κ μ : Type} {find : κ → Option μ} {notFound : κ → Fault}

/-- Each value is written to its position, in this order. -/
def fill {α : Type} (sorted : List α) (writes : List (ℕ × α)) : List α :=
  writes.foldl (fun sorted w => sorted.set w.1 w.2) sorted

section

variable {α : Type} {writes : List (ℕ × α)} {sorted : List α}

@[simp]
theorem length_fill : (fill sorted writes).length = sorted.length := by
  induction writes generalizing sorted with
  | nil => rfl
  | cons w writes ih => exact ih.trans length_set

theorem getElem?_fill {value : ℕ → α}
    (hvalue : ∀ w ∈ writes, w.1 < sorted.length ∧ w.2 = value w.1) (p : ℕ) :
    (fill sorted writes)[p]? =
      if p ∈ writes.map Prod.fst then some (value p) else sorted[p]? := by
  induction writes generalizing sorted with
  | nil => rfl
  | cons w writes ih =>
    obtain ⟨⟨hlt, hw⟩, hvalue⟩ := forall_mem_cons.mp hvalue
    rw [fill, foldl_cons, ← fill, ih (by simpa using hvalue), map_cons]
    by_cases hp : p = w.1
    · subst hp
      simp [hw, hlt]
    · rw [getElem?_set_ne (Ne.symm hp), if_congr (mem_cons.trans (or_iff_right hp)) rfl rfl]

end

variable {order : List (κ × List ℕ)} {slot : ℕ → Option κ} {sorted result : List (Option μ)}

theorem setAll_eq_ok_iff {m : μ} {positions : List ℕ} :
    setAll m sorted positions = .ok result ↔ (∀ p ∈ positions, p < sorted.length) ∧
      result = fill sorted (positions.map (·, some m)) := by
  induction positions generalizing sorted with
  | nil => simp [setAll, fill, eq_comm]
  | cons q positions ih =>
    rw [setAll]
    split_ifs with hq
    · simp [ih, hq, fill]
    · simp [hq]

theorem place_eq_ok_iff :
    place find notFound sorted order = .ok result ↔
      (∀ e ∈ order, (find e.1).isSome ∧ ∀ p ∈ e.2, p < sorted.length) ∧
        result = fill sorted (order.flatMap fun e => e.2.map (·, find e.1)) := by
  induction order generalizing sorted with
  | nil => exact ⟨fun h => ⟨nofun, (Except.ok.inj h).symm⟩, fun h => congrArg _ h.2.symm⟩
  | cons e order ih =>
    rw [place, forall_mem_cons, flatMap_cons]
    cases hfind : find e.1 with
    | none => simp
    | some m =>
      have hfill : ∀ ws, fill sorted (e.2.map (·, some m) ++ ws) =
          fill (fill sorted (e.2.map (·, some m))) ws := fun ws => foldl_append
      rw [hfill]
      constructor
      · intro h
        obtain ⟨next, hnext, h⟩ := bind_eq_ok h
        obtain ⟨hpositions, rfl⟩ := setAll_eq_ok_iff.mp hnext
        obtain ⟨hrest, rfl⟩ := ih.mp h
        exact ⟨⟨⟨rfl, hpositions⟩, by simpa using hrest⟩, rfl⟩
      · rintro ⟨⟨⟨-, hpositions⟩, hrest⟩, rfl⟩
        simp only [setAll_eq_ok_iff.mpr ⟨hpositions, rfl⟩]
        exact ih.mpr ⟨by simpa using hrest, rfl⟩

theorem Indexes.place_ok (h : Indexes order slot) (find : κ → Option μ) (notFound : κ → Fault)
    (sorted : List (Option μ))
    (hslots : ∀ p k, slot p = some k → (find k).isSome ∧ p < sorted.length) :
    ∃ result, place find notFound sorted order = .ok result ∧ result.length = sorted.length ∧
      ∀ p, result[p]? = (slot p).elim sorted[p]? fun k => some (find k) := by
  refine ⟨_, place_eq_ok_iff.mpr ⟨fun e he => ?_, rfl⟩, length_fill, fun p => ?_⟩
  · obtain ⟨p, hp⟩ := exists_mem_of_ne_nil e.2 (h.nonempty e he)
    exact ⟨(hslots p e.1 (h.slot_eq he hp)).1, fun p hp => (hslots p e.1 (h.slot_eq he hp)).2⟩
  · have hwritten : p ∈ (order.flatMap fun e => e.2.map (·, find e.1)).map Prod.fst ↔
        (slot p).isSome := by
      simp only [isSome_iff_exists, h.slot_iff]
      simp
    rw [@getElem?_fill _ _ _ fun p => (slot p).bind find]
    · rw [if_congr hwritten rfl rfl]
      cases slot p <;> rfl
    · intro w hw
      obtain ⟨e, he, hw⟩ := mem_flatMap.mp hw
      obtain ⟨q, hq, rfl⟩ := List.mem_map.mp hw
      have hslot := h.slot_eq he hq
      exact ⟨(hslots q e.1 hslot).2, by rw [hslot, bind_some]⟩

theorem Indexes.place_of_ok (h : Indexes order slot)
    (hresult : place find notFound sorted order = .ok result) {p : ℕ} {k : κ}
    (hp : slot p = some k) : (find k).isSome ∧ p < sorted.length := by
  obtain ⟨e, he, rfl, hmem⟩ := (h.slot_iff p k).mp hp
  obtain ⟨hfound, hbound⟩ := (place_eq_ok_iff.mp hresult).1 e he
  exact ⟨hfound, hbound p hmem⟩

end

/-- The manifest that `sort` finds for a key. -/
def Key.lookup (cwd : UnixPath) (manifests : List Manifest) : Key → Option Manifest
  | localDir path => findLocal cwd manifests path
  | extension ref => findRemote manifests ref

theorem slot_path {keys : List Key} {p : ℕ} {path : UnixPath} :
    (keys.map Key.path?)[p]?.join = some path ↔ keys[p]? = some (.localDir path) := by
  rw [getElem?_map]
  rcases keys[p]? with _ | (_ | _) <;> simp [Key.path?]

theorem slot_ref {keys : List Key} {p : ℕ} {ref : String} :
    (keys.map Key.ref?)[p]?.join = some ref ↔ keys[p]? = some (.extension ref) := by
  rw [getElem?_map]
  rcases keys[p]? with _ | (_ | _) <;> simp [Key.ref?]

section

variable {cwd : UnixPath} {positions : ExtensionPositions} {keys : List Key}
  {localOrder : List (UnixPath × List ℕ)} {remoteOrder : List (String × List ℕ)}
  {manifests : List Manifest}

theorem sort_eq (h : positions.Holds keys) (hlocal : positions.localDirs.Visits localOrder)
    (hremote : positions.remote.Visits remoteOrder)
    (hfound : ∀ key ∈ keys, (key.lookup cwd manifests).isSome)
    (hlength : keys.length ≤ manifests.length) :
    sort cwd localOrder remoteOrder manifests =
      .ok (keys.map (Key.lookup cwd manifests) ++
        List.replicate (manifests.length - keys.length) none) := by
  -- every slot of a key is in range and its key is found
  have hkey : ∀ p key, keys[p]? = some key →
      (key.lookup cwd manifests).isSome ∧ p < manifests.length := by
    intro p key hp
    obtain ⟨hlt, -⟩ := List.getElem?_eq_some_iff.mp hp
    exact ⟨hfound key (mem_of_getElem? hp), by omega⟩
  obtain ⟨first, hfirst, hfirstLength, hfirstSlots⟩ :=
    (h.localDirs.perm hlocal).place_ok (findLocal cwd manifests) .localNotFound
      (List.replicate manifests.length none)
      (fun p path hp => by simpa [Key.lookup] using hkey p _ (slot_path.mp hp))
  rw [length_replicate] at hfirstLength
  obtain ⟨second, hsecond, hsecondLength, hsecondSlots⟩ :=
    (h.remote.perm hremote).place_ok (findRemote manifests) .remoteNotFound first
      (fun p ref hp => by simpa [Key.lookup, hfirstLength] using hkey p _ (slot_ref.mp hp))
  rw [sort, hfirst]
  refine hsecond.trans (congrArg Except.ok (ext_getElem? fun p => ?_))
  rw [hsecondSlots, hfirstSlots]
  cases hp : keys[p]? with
  | none => grind
  | some key =>
    obtain ⟨hlt, -⟩ := List.getElem?_eq_some_iff.mp hp
    rw [getElem?_append_left (by simpa using hlt)]
    cases key <;> simp [hp, Key.path?, Key.ref?, Key.lookup]

theorem sort_of_ok {sorted : List (Option Manifest)} (h : positions.Holds keys)
    (hlocal : positions.localDirs.Visits localOrder)
    (hremote : positions.remote.Visits remoteOrder)
    (hsort : sort cwd localOrder remoteOrder manifests = .ok sorted) :
    (∀ key ∈ keys, (key.lookup cwd manifests).isSome) ∧ keys.length ≤ manifests.length := by
  rw [sort] at hsort
  cases hfirst : place (findLocal cwd manifests) .localNotFound
      (List.replicate manifests.length none) localOrder with
  | error fault =>
    rw [hfirst] at hsort
    cases hsort
  | ok first =>
    rw [hfirst] at hsort
    have hfirstLength : first.length = manifests.length := by
      rw [(place_eq_ok_iff.mp hfirst).2, length_fill, length_replicate]
    have hkey : ∀ p key, keys[p]? = some key →
        (key.lookup cwd manifests).isSome ∧ p < manifests.length := by
      intro p key hp
      cases key with
      | localDir path =>
        simpa [Key.lookup] using
          (h.localDirs.perm hlocal).place_of_ok hfirst (slot_path.mpr hp)
      | extension ref =>
        rw [← hfirstLength]
        exact (h.remote.perm hremote).place_of_ok hsort (slot_ref.mpr hp)
    constructor
    · intro key hmem
      obtain ⟨p, hp⟩ := mem_iff_getElem?.mp hmem
      exact (hkey p key hp).1
    · -- the last key has a slot
      by_contra hlong
      have hlt : manifests.length < keys.length := by omega
      have hlast := (hkey _ _ (getElem?_eq_getElem hlt)).2
      omega

end

section

variable (cwd : UnixPath) (cachedPath : String → String)

/-- `append(downloaded, local...)`. -/
def loadManifests (requested : List Request) : List Manifest :=
  downloadExtensions cachedPath (values .extension requested) ++
    loadLocalManifests (values .localDir requested)

/-- The manifest of a requested extension: the one downloaded for its reference, or
one that is loaded from its directory. -/
def Describes (request : Request) (m : Manifest) : Prop :=
  match request.flag with
  | .extension => m = ⟨true, request.value, cachedPath request.value⟩
  | .localDir =>
    m.remote = false ∧
      m.absDir cwd = Manifest.absDir cwd ⟨false, "", request.value ++ "/manifest.yaml"⟩

/-- In whatever order the maps are visited, `sort` returns one manifest for each
requested extension, in their order. -/
def Ordered (osArgs : List String) (requested : List Request) : Prop :=
  ∃ positions, saveExtensionPositions cwd osArgs = .ok positions ∧
    ∀ localOrder remoteOrder, positions.localDirs.Visits localOrder →
      positions.remote.Visits remoteOrder →
      ∃ sorted, sort cwd localOrder remoteOrder (loadManifests cachedPath requested) = .ok sorted ∧
        List.Forall₂ (fun request slot => ∃ m ∈ loadManifests cachedPath requested,
          slot = some m ∧ Describes cwd cachedPath request m) requested sorted

/-- A noted flag stands for a requested extension: an `--extension` with its very
reference, or a `--local` with a directory whose first loaded manifest is that of
the extension. -/
def StandsFor (requested : List Request) (key : Key) (request : Request) : Prop :=
  match key with
  | .extension ref => request = ⟨.extension, ref⟩
  | .localDir path =>
    ∃ m, findLocal cwd (loadManifests cachedPath requested) path = some m ∧
      Describes cwd cachedPath request m

variable {cwd cachedPath}

theorem length_loadManifests (requested : List Request) :
    (loadManifests cachedPath requested).length = requested.length := by
  simp only [loadManifests, downloadExtensions, loadLocalManifests, values, length_append,
    length_map]
  induction requested with
  | nil => rfl
  | cons request requested ih =>
    cases hflag : request.flag <;> simp [hflag] <;> omega

variable {requested : List Request}

theorem eq_of_mem_of_remote {m : Manifest} (h : m ∈ loadManifests cachedPath requested)
    (hremote : m.remote = true) :
    m = ⟨true, m.remoteRef, cachedPath m.remoteRef⟩ := by
  rcases mem_append.mp h with h | h
  · obtain ⟨ref, -, rfl⟩ := List.mem_map.mp h
    rfl
  · obtain ⟨path, -, rfl⟩ := List.mem_map.mp h
    cases hremote

theorem mem_loadManifests_of_extension (cachedPath : String → String) {ref : String}
    (h : ⟨.extension, ref⟩ ∈ requested) :
    (⟨true, ref, cachedPath ref⟩ : Manifest) ∈ loadManifests cachedPath requested := by
  apply mem_append_left
  refine List.mem_map.mpr ⟨ref, ?_, rfl⟩
  exact List.mem_map.mpr ⟨⟨.extension, ref⟩, mem_filter.mpr ⟨h, rfl⟩, rfl⟩

theorem findRemote_eq_some {ref : String} {m : Manifest}
    (h : findRemote (loadManifests cachedPath requested) ref = some m) :
    m = ⟨true, ref, cachedPath ref⟩ := by
  have hm := find?_some h
  rw [Bool.and_eq_true, decide_eq_true_eq] at hm
  obtain ⟨hremote, rfl⟩ := hm
  exact eq_of_mem_of_remote (mem_of_find?_eq_some h) hremote

/-- A key stands for a request when the manifest that is found describes it. -/
theorem standsFor_iff {key : Key} {request : Request} (hrequest : request ∈ requested) :
    StandsFor cwd cachedPath requested key request ↔
      ∃ m, key.lookup cwd (loadManifests cachedPath requested) = some m ∧
        Describes cwd cachedPath request m := by
  cases key with
  | localDir path => rfl
  | extension ref =>
    constructor
    · rintro rfl
      have hmem := mem_loadManifests_of_extension cachedPath hrequest
      obtain ⟨m, hm⟩ : ∃ m, findRemote (loadManifests cachedPath requested) ref = some m := by
        apply isSome_iff_exists.mp
        exact find?_isSome.mpr ⟨_, hmem, by simp⟩
      exact ⟨m, hm, findRemote_eq_some hm⟩
    · rintro ⟨m, hm, hdescribes⟩
      have heq := findRemote_eq_some hm
      obtain ⟨flag, value⟩ := request
      cases flag with
      | extension =>
        have hvalue : m = ⟨true, value, cachedPath value⟩ := hdescribes
        rw [heq] at hvalue
        cases hvalue
        rfl
      | localDir =>
        have hremote : m.remote = false := hdescribes.1
        rw [heq] at hremote
        cases hremote

theorem Key.mem_of_lookup {manifests : List Manifest} {key : Key} {m : Manifest}
    (h : key.lookup cwd manifests = some m) : m ∈ manifests := by
  cases key <;> exact mem_of_find?_eq_some h

/-- The slots of the noted flags hold the manifests of the requests that they stand for. -/
theorem forall₂_standsFor {keys : List Key} :
    List.Forall₂ (fun request slot => ∃ m ∈ loadManifests cachedPath requested,
        slot = some m ∧ Describes cwd cachedPath request m) requested
        (keys.map (Key.lookup cwd (loadManifests cachedPath requested))) ↔
      List.Forall₂ (StandsFor cwd cachedPath requested) keys requested := by
  rw [forall₂_map_right_iff]
  have hself : ∀ request ∈ requested, request ∈ requested := fun _ h => h
  constructor
  · intro h
    refine List.Forall₂.flip (((forall₂_and_left _ _).mpr ⟨hself, h⟩).imp ?_)
    rintro request key ⟨hrequest, m, -, hm, hdescribes⟩
    exact (standsFor_iff hrequest).mpr ⟨m, hm, hdescribes⟩
  · intro h
    refine ((forall₂_and_left _ _).mpr ⟨hself, List.Forall₂.flip h⟩).imp ?_
    rintro request key ⟨hrequest, hstands⟩
    obtain ⟨m, hm, hdescribes⟩ := (standsFor_iff hrequest).mp hstands
    exact ⟨m, Key.mem_of_lookup hm, hm, hdescribes⟩

theorem ordered_iff {osArgs : List String} {keys : List Key} (requested : List Request)
    (hscan : scanKeys cwd osArgs = some keys) :
    Ordered cwd cachedPath osArgs requested ↔
      List.Forall₂ (StandsFor cwd cachedPath requested) keys requested := by
  obtain ⟨positions, hsave, hholds⟩ := saveExtensionPositions_of_scan hscan
  have hcount : (loadManifests cachedPath requested).length = requested.length :=
    length_loadManifests requested
  constructor
  · rintro ⟨positions', hsave', hsort⟩
    obtain rfl : positions = positions' := by
      rw [hsave] at hsave'
      exact Except.ok.inj hsave'
    obtain ⟨sorted, hsorted, hslots⟩ := hsort _ _ (GoMap.visits_entries _) (GoMap.visits_entries _)
    obtain ⟨hfound, hlength⟩ :=
      sort_of_ok hholds (GoMap.visits_entries _) (GoMap.visits_entries _) hsorted
    rw [sort_eq hholds (GoMap.visits_entries _) (GoMap.visits_entries _) hfound hlength,
      Except.ok.injEq] at hsorted
    subst hsorted
    -- a slot beyond the noted flags is nil
    have hall : (loadManifests cachedPath requested).length - keys.length = 0 := by
      by_contra hmore
      have hnil : none ∈ keys.map (Key.lookup cwd (loadManifests cachedPath requested)) ++
          List.replicate ((loadManifests cachedPath requested).length - keys.length) none :=
        mem_append_right _ (mem_replicate.mpr ⟨hmore, rfl⟩)
      obtain ⟨request, -, m, -, hm, -⟩ := exists_left_of_forall₂ hslots hnil
      cases hm
    rw [hall, replicate_zero, append_nil] at hslots
    exact forall₂_standsFor.mp hslots
  · intro h
    have hslots := forall₂_standsFor.mpr h
    have hlength : keys.length = requested.length := h.length_eq
    have hfound : ∀ key ∈ keys,
        (key.lookup cwd (loadManifests cachedPath requested)).isSome := by
      intro key hkey
      obtain ⟨request, -, m, -, hm, -⟩ :=
        exists_left_of_forall₂ hslots (List.mem_map_of_mem hkey)
      simp [hm]
    refine ⟨positions, hsave, fun localOrder remoteOrder hlocal hremote => ⟨_, ?_, hslots⟩⟩
    rw [sort_eq hholds hlocal hremote hfound (by omega), hcount, hlength, Nat.sub_self,
      replicate_zero, append_nil]

end

def separateArgs : List String :=
  ["gen-config", "--local", "filters/auth", "--extension", "cors", "--config=x"]

def separateOccurrences : List Occurrence :=
  [⟨.localDir, true, "filters/auth", ["filters/auth"]⟩, ⟨.extension, true, "cors", ["cors"]⟩]

/-- A parser that accepts three command lines and refuses all others. -/
def sampleParser : Parser where
  parse args :=
    if args = separateArgs then some separateOccurrences
    else if args = ["gen-config", "--extension=cors"] then
      some [⟨.extension, false, "cors", ["cors"]⟩]
    else if args = ["gen-config", "--extension", "cors,jwt"] then
      some [⟨.extension, true, "cors,jwt", ["cors", "jwt"]⟩]
    else none

theorem sampleParser_lawful : sampleParser.Lawful where
  command := by decide
  reads args occurrences h := by
    have hword : ∀ arg ∈ ["gen-config", "--config=x", "--extension=cors", "filters/auth", "cors",
        "cors,jwt"], ∀ flag : ExtensionFlag, arg ≠ flag.arg := by
      intro arg harg flag
      revert arg
      cases flag <;> decide
    simp only [sampleParser] at h
    split_ifs at h with h1 h2 h3 <;> cases h
    · subst h1
      exact @Reads.other _ [] _ _ (hword _ (by simp)) nofun
        (@Reads.apart .localDir _ _ _ _ (hword _ (by simp))
          (@Reads.apart .extension _ _ _ _ (hword _ (by simp))
            (@Reads.other _ [] _ _ (hword _ (by simp)) nofun .nil)))
    · subst h2
      exact @Reads.other _ [] _ _ (hword _ (by simp)) nofun
        (@Reads.other _ [_] _ _ (hword _ (by simp)) (by simp) .nil)
    · subst h3
      exact @Reads.other _ [] _ _ (hword _ (by simp)) nofun
        (@Reads.apart .extension _ _ _ _ (hword _ (by simp)) .nil)

def workDir : UnixPath := ⟨true, ["work"]⟩

/-- A cache with a directory for each reference. -/
def cachedManifest (ref : String) : String := "/cache/" ++ ref ++ "/manifest.yaml"

end BuiltOnEnvoy.Cli
