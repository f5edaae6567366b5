import BuiltOnEnvoy.Foundations.Runs
import BuiltOnEnvoy.Waf.RecordingFs

/-!
# The cache of shared WAFs

The cache holds weak pointers. A shared WAF is held by handles; when none is left
the runtime may collect it at any later time, from then on its weak pointers are
nil, and its cleanup runs at any time after that. Until it is collected the cache
can still hand it out.
-/

namespace BuiltOnEnvoy.Coraza

open Foundations List

structure SharedWaf (Digest W : Type) where
  waf : W
  inputs : WafInputs Digest

/-- A shared WAF as the runtime sees it. -/
structure Object (Digest W : Type) where
  shared : SharedWaf Digest W
  /-- the handles that are still reachable -/
  handles : ℕ
  collected : Bool
  /-- the key of the cleanup, until the cleanup has run -/
  cleanup : Option Digest
  /-- how often its WAF was closed -/
  closed : ℕ

/-- The hash, the construction of a WAF, and which WAFs can be closed. -/
structure Engine (Digest W : Type) where
  sha256 : Bytes → Digest
  newWaf : Bytes → Build W
  isCloser : W → Bool

/-- The cache and all shared WAFs there ever were. A weak pointer is a position in that list. -/
structure World (Digest W : Type) where
  entries : GoMap Digest ℕ
  objects : List (Object Digest W)

/-- What can happen: a call, or something in the runtime. -/
inductive Event
  | getOrCreate (directives : Bytes) (root : Root)
  | drop (i : ℕ)
  | collect (i : ℕ)
  | cleanup (i : ℕ)

variable {Digest W : Type} [DecidableEq Digest] [Inhabited Digest] (engine : Engine Digest W)

namespace World

variable (w : World Digest W)

def init : World Digest W := ⟨GoMap.empty, []⟩

/-- The value of a weak pointer. -/
def value (i : ℕ) : Option (SharedWaf Digest W) :=
  match w.objects[i]? with
  | none => none
  | some o => if o.collected then none else some o.shared

/-- The shared WAF that is reused. -/
def cached (key : Digest) (root : Root) : Option ℕ :=
  match w.entries.get? key with
  | none => none
  | some i =>
    match w.value i with
    | none => none
    | some s => if s.inputs.unchanged engine.sha256 root then some i else none

/-- The caller gets one more handle. -/
def handOut (i : ℕ) : World Digest W :=
  { w with objects := w.objects.modify i fun o => { o with handles := o.handles + 1 } }

def getOrCreate (directives : Bytes) (root : Root) : Except String ℕ × World Digest W :=
  match w.cached engine (engine.sha256 directives) root with
  | some i => (.ok i, w.handOut i)
  | none =>
    match (engine.newWaf directives).record engine.sha256 (newRecordingFs root) with
    | (.error err, _) => (.error ("failed to create WAF from directives: " ++ err), w)
    | (.ok waf, recorder) =>
      (.ok w.objects.length,
        { entries := w.entries.set (engine.sha256 directives) w.objects.length
          objects := w.objects ++
            [⟨⟨waf, recorder.inputs⟩, 1, false, some (engine.sha256 directives), 0⟩] })

/-- The entry of the key is dropped, unless it holds a newer WAF. -/
def releaseEntry (key : Digest) : GoMap Digest ℕ :=
  match w.entries.get? key with
  | none => w.entries
  | some j => if (w.value j).isNone then w.entries.erase key else w.entries

/-- The cleanup of the object `i`. -/
def release (key : Digest) (i : ℕ) : World Digest W where
  entries := w.releaseEntry key
  objects := w.objects.modify i fun o =>
    { o with cleanup := none
             closed := if engine.isCloser o.shared.waf then o.closed + 1 else o.closed }

/-- One step, if it is possible. -/
def step : Event → Option (World Digest W)
  | .getOrCreate directives root => some (w.getOrCreate engine directives root).2
  | .drop i =>
    match w.objects[i]? with
    | none => none
    | some o =>
      if o.handles = 0 then none
      else some { w with objects := w.objects.set i { o with handles := o.handles - 1 } }
  | .collect i =>
    match w.objects[i]? with
    | none => none
    | some o =>
      if o.handles = 0 ∧ o.collected = false then
        some { w with objects := w.objects.set i { o with collected := true } }
      else none
  | .cleanup i =>
    match w.objects[i]? with
    | none => none
    | some o =>
      match o.cleanup with
      | none => none
      | some key => if o.collected then some (w.release engine key i) else none

def run (events : List Event) : Option (World Digest W) :=
  events.foldlM (fun w e => w.step engine e) init

end World

/-- The steps in the life of a shared WAF. -/
inductive Object.Step : Object Digest W → Object Digest W → Prop
  | handOut (o : Object Digest W) (h : o.collected = false) :
    Step o { o with handles := o.handles + 1 }
  | drop (o : Object Digest W) (h : 0 < o.handles) : Step o { o with handles := o.handles - 1 }
  | collect (o : Object Digest W) (h : o.handles = 0) : Step o { o with collected := true }
  | cleanup (o : Object Digest W) {key : Digest} {closed : ℕ} (hcleanup : o.cleanup = some key)
    (hcollected : o.collected = true) (hclosed : closed ≤ o.closed + 1) :
    Step o { o with cleanup := none, closed := closed }

/-- What a step does to the shared WAFs: one of them moves, or a new one is stored. -/
inductive World.Moves (w w' : World Digest W) : Event → Prop
  | idle {e : Event} (hobjects : w'.objects = w.objects) (hentries : w'.entries = w.entries) :
    Moves w w' e
  | life {e : Event} {i : ℕ} {o o' : Object Digest W} (hi : w.objects[i]? = some o)
    (hstep : o.Step o') (hobjects : w'.objects = w.objects.set i o')
    (hentries : ∀ entry ∈ w'.entries.entries, entry ∈ w.entries.entries) : Moves w w' e
  | create {directives : Bytes} {root : Root} {waf : W} {recorder : RecordingFs Digest}
    (hbuild : (engine.newWaf directives).record engine.sha256 (newRecordingFs root) =
      (.ok waf, recorder))
    (hanswer : (w.getOrCreate engine directives root).1 = .ok w.objects.length)
    (hobjects : w'.objects = w.objects ++
      [⟨⟨waf, recorder.inputs⟩, 1, false, some (engine.sha256 directives), 0⟩])
    (hentries : w'.entries = w.entries.set (engine.sha256 directives) w.objects.length) :
    Moves w w' (.getOrCreate directives root)

theorem modify_of_getElem? {α : Type*} {l : List α} {i : ℕ} {a : α} (h : l[i]? = some a)
    {f : α → α} : l.modify i f = l.set i (f a) := by
  rw [modify_eq_set_getElem?, h]
  rfl

namespace World

variable {engine} {w w' : World Digest W}

omit [DecidableEq Digest] [Inhabited Digest] in
theorem value_eq_some {i : ℕ} {s : SharedWaf Digest W} :
    w.value i = some s ↔ ∃ o, w.objects[i]? = some o ∧ o.collected = false ∧ o.shared = s := by
  unfold value
  cases w.objects[i]? with
  | none => simp
  | some o => cases o.collected <;> simp

theorem cached_eq_some {key : Digest} {root : Root} {i : ℕ} :
    w.cached engine key root = some i ↔ w.entries.get? key = some i ∧
      ∃ s, w.value i = some s ∧ s.inputs.unchanged engine.sha256 root = true := by
  unfold cached
  cases w.entries.get? key with
  | none => simp
  | some j =>
    simp only [Option.some.injEq]
    cases hvalue : w.value j with
    | none => grind
    | some s =>
      simp only [Option.ite_none_right_eq_some, Option.some.injEq]
      constructor
      · rintro ⟨hunchanged, rfl⟩
        exact ⟨rfl, s, hvalue, hunchanged⟩
      · grind

omit [Inhabited Digest] in
theorem mem_releaseEntry {key : Digest} {entry : Digest × ℕ}
    (h : entry ∈ (w.releaseEntry key).entries) : entry ∈ w.entries.entries := by
  unfold releaseEntry at h
  split at h
  · exact h
  · split at h
    · exact (GoMap.mem_erase_entries.mp h).1
    · exact h

theorem getOrCreate_moves (directives : Bytes) (root : Root) :
    w.Moves engine (w.getOrCreate engine directives root).2 (.getOrCreate directives root) := by
  cases hcached : w.cached engine (engine.sha256 directives) root with
  | some i =>
    obtain ⟨-, s, hvalue, -⟩ := cached_eq_some.mp hcached
    obtain ⟨o, hi, hlive, -⟩ := value_eq_some.mp hvalue
    simp only [getOrCreate, hcached]
    exact .life hi (.handOut o hlive) (modify_of_getElem? hi) fun entry hentry => hentry
  | none =>
    cases hbuild : (engine.newWaf directives).record engine.sha256 (newRecordingFs root) with
    | mk result recorder =>
      cases result with
      | error err =>
        simp only [getOrCreate, hcached, hbuild]
        exact .idle rfl rfl
      | ok waf =>
        simp only [getOrCreate, hcached, hbuild]
        exact .create hbuild (by simp only [getOrCreate, hcached, hbuild]) rfl rfl

theorem step_cleanup {i : ℕ} (h : w.step engine (.cleanup i) = some w') :
    ∃ o key, w.objects[i]? = some o ∧ o.cleanup = some key ∧ o.collected = true ∧
      w' = w.release engine key i := by
  rw [step] at h
  cases hi : w.objects[i]? with
  | none => simp [hi] at h
  | some o =>
    cases hcleanup : o.cleanup with
    | none => simp [hi, hcleanup] at h
    | some key =>
      simp only [hi, hcleanup] at h
      split_ifs at h with hcollected
      exact ⟨o, key, rfl, hcleanup, hcollected, (Option.some.inj h).symm⟩

theorem step_moves {e : Event} (h : w.step engine e = some w') : w.Moves engine w' e := by
  cases e with
  | getOrCreate directives root =>
    cases h
    exact getOrCreate_moves directives root
  | drop i =>
    rw [step] at h
    cases hi : w.objects[i]? with
    | none => simp [hi] at h
    | some o =>
      simp only [hi] at h
      split_ifs at h with hhandles
      cases h
      exact .life hi (.drop o (by omega)) rfl fun entry hentry => hentry
  | collect i =>
    rw [step] at h
    cases hi : w.objects[i]? with
    | none => simp [hi] at h
    | some o =>
      simp only [hi] at h
      split_ifs at h with hfree
      cases h
      exact .life hi (.collect o hfree.1) rfl fun entry hentry => hentry
  | cleanup i =>
    obtain ⟨o, key, hi, hcleanup, hcollected, rfl⟩ := step_cleanup h
    have hclosed : (if engine.isCloser o.shared.waf then o.closed + 1 else o.closed) ≤
        o.closed + 1 := by
      split <;> omega
    exact .life hi (.cleanup o hcleanup hcollected hclosed) (modify_of_getElem? hi)
      fun _ => mem_releaseEntry

end World

/-- What holds of a shared WAF at any time. -/
structure Object.Sound (o : Object Digest W) : Prop where
  held : 0 < o.handles → o.collected = false
  registered : o.collected = false → o.cleanup.isSome
  unclosed : o.cleanup.isSome → o.closed = 0
  once : o.closed ≤ 1

omit [DecidableEq Digest] [Inhabited Digest] in
theorem Object.Sound.step {o o' : Object Digest W} (h : o.Sound) (hstep : o.Step o') :
    o'.Sound := by
  cases hstep with
  | handOut hlive => exact ⟨fun _ => hlive, h.registered, h.unclosed, h.once⟩
  | drop hhandles => exact ⟨fun _ => h.held hhandles, h.registered, h.unclosed, h.once⟩
  | collect hfree =>
    refine ⟨fun hheld => ?_, nofun, h.unclosed, h.once⟩
    simp only at hheld
    omega
  | cleanup hcleanup hcollected hclosed =>
    have hzero := h.unclosed (by rw [hcleanup]; rfl)
    refine ⟨h.held, fun hlive => ?_, nofun, by simp only; omega⟩
    simp only at hlive
    rw [hcollected] at hlive
    cases hlive

variable {events : List Event}

theorem World.sound_run {engine : Engine Digest W} {w : World Digest W}
    (h : World.run engine events = some w) : ∀ o ∈ w.objects, o.Sound := by
  refine run_induction (P := fun _ w => ∀ o ∈ w.objects, o.Sound) nofun ?_ h
  intro events w e w' _ ih hstep o ho
  cases World.step_moves hstep with
  | idle hobjects _ => exact ih o (hobjects ▸ ho)
  | life hi hlife hobjects _ =>
    rw [hobjects] at ho
    rcases mem_or_eq_of_mem_set ho with hold | rfl
    · exact ih o hold
    · exact (ih _ (mem_of_getElem? hi)).step hlife
  | create _ _ hobjects _ =>
    rw [hobjects, mem_append, mem_singleton] at ho
    rcases ho with hold | rfl
    · exact ih o hold
    · exact ⟨fun _ => rfl, fun _ => rfl, fun _ => rfl, Nat.zero_le 1⟩

namespace World

variable {engine} {w w' : World Digest W}

omit [Inhabited Digest] in
theorem releaseEntry_of_value {key key' : Digest} {j : ℕ} {s : SharedWaf Digest W}
    (hentry : w.entries.get? key' = some j) (hvalue : w.value j = some s) :
    (w.releaseEntry key).get? key' = some j := by
  unfold releaseEntry
  split
  · exact hentry
  · rename_i j' hj'
    split
    · rename_i hnil
      have hne : key' ≠ key := by
        rintro rfl
        rw [hj'] at hentry
        cases hentry
        simp [hvalue] at hnil
      have hmem := GoMap.get?_eq_some.mp hentry
      exact GoMap.get?_eq_some.mpr (GoMap.mem_erase_entries.mpr ⟨hmem, hne⟩)
    · exact hentry

omit [Inhabited Digest] in
theorem release_value (key : Digest) (i j : ℕ) :
    (w.release engine key i).value j = w.value j := by
  simp only [value, release, getElem?_modify]
  cases w.objects[j]? with
  | none => rfl
  | some o => by_cases hij : i = j <;> simp [hij]

end World

/-- After any interleaving a WAF was closed at most once, and only if no handle to it is left; a
WAF with a handle is live; and no cleanup that can run next removes the entry of a live WAF. -/
theorem sharedWaf_lifetime (events : List Event) (w : World Digest W)
    (h : World.run engine events = some w) :
    (∀ i o, w.objects[i]? = some o → o.closed ≤ 1 ∧ (0 < o.closed → o.handles = 0) ∧
      (0 < o.handles → w.value i = some o.shared)) ∧
    ∀ i w', w.step engine (.cleanup i) = some w' →
      ∀ key j s, w.entries.get? key = some j → w.value j = some s →
        w'.entries.get? key = some j ∧ w'.value j = some s := by
  constructor
  · intro i o hi
    have hsound := World.sound_run h o (mem_of_getElem? hi)
    refine ⟨hsound.once, fun hclosed => ?_, fun hheld => ?_⟩
    · by_contra hhandles
      have hlive := hsound.held (by omega)
      have hzero := hsound.unclosed (hsound.registered hlive)
      omega
    · exact World.value_eq_some.mpr ⟨o, hi, hsound.held hheld, rfl⟩
  · intro i w' hstep key j s hentry hvalue
    obtain ⟨-, key', -, -, -, rfl⟩ := World.step_cleanup hstep
    exact ⟨World.releaseEntry_of_value hentry hvalue, by rwa [World.release_value]⟩

/-- An engine whose hash is the text itself and whose WAF is the content of one rule file. -/
def fileEngine : Engine Bytes Bytes where
  sha256 := id
  newWaf := fun directives => .readFile "rules.conf" fun
    | .content bytes => .done (.ok (directives ++ bytes))
    | _ => .done (.error "no rules")
  isCloser := fun _ => true

/-- A file system with one rule file. -/
def rulesRoot (bytes : Bytes) : Root :=
  ⟨fun name => if name = "rules.conf" then .content bytes else .missing, fun _ => some [],
    fun _ => .missing⟩

/-- The rule file changes, so the first WAF is replaced; its cleanup comes after that. -/
def replacement : List Event :=
  [.getOrCreate [1] (rulesRoot [2]), .drop 0, .getOrCreate [1] (rulesRoot [3]), .collect 0]

theorem replacement_keeps_newer :
    ∃ w w', World.run fileEngine replacement = some w ∧
      w.step fileEngine (.cleanup 0) = some w' ∧ w'.entries.get? [1] = some 1 ∧
      w'.objects.map Object.closed = [1, 0] := by
  obtain ⟨w, hw, w', hw', hentry, s, hs, hclosed⟩ : ∃ w, World.run fileEngine replacement = some w ∧
      ∃ w', w.step fileEngine (.cleanup 0) = some w' ∧ w.entries.get? [1] = some 1 ∧
        ∃ s, w.value 1 = some s ∧ w'.objects.map Object.closed = [1, 0] :=
    ⟨_, rfl, _, rfl, rfl, _, rfl, rfl⟩
  have hkept := (sharedWaf_lifetime fileEngine replacement w hw).2 0 w' hw' [1] 1 s hentry hs
  exact ⟨w, w', hw, hw', hkept.1, hclosed⟩

/-- The object `i` was made by an earlier call with these directives. -/
structure BuiltBy (events : List Event) (directives : Bytes) (i : ℕ)
    (shared : SharedWaf Digest W) (root₀ : Root) : Prop where
  call : ∃ front back w₀, events = front ++ .getOrCreate directives root₀ :: back ∧
    World.run engine front = some w₀ ∧ w₀.objects.length = i ∧
    (w₀.getOrCreate engine directives root₀).1 = .ok i
  record : ∃ recorder, (engine.newWaf directives).record engine.sha256 (newRecordingFs root₀) =
    (.ok shared.waf, recorder) ∧ recorder.inputs = shared.inputs

/-- Every entry leads to a WAF that was made for the directives of its key. -/
def World.Traced (events : List Event) (w : World Digest W) : Prop :=
  ∀ key i, (key, i) ∈ w.entries.entries → ∃ directives o root₀, key = engine.sha256 directives ∧
    w.objects[i]? = some o ∧ BuiltBy engine events directives i o.shared root₀

variable {engine}

theorem BuiltBy.snoc {directives : Bytes} {i : ℕ} {shared : SharedWaf Digest W} {root₀ : Root}
    (h : BuiltBy engine events directives i shared root₀) (e : Event) :
    BuiltBy engine (events ++ [e]) directives i shared root₀ where
  call := by
    obtain ⟨front, back, w₀, rfl, hcall⟩ := h.call
    exact ⟨front, back ++ [e], w₀, by simp, hcall⟩
  record := h.record

theorem World.Moves.keeps_shared {w w' : World Digest W} {e : Event} (h : w.Moves engine w' e)
    {i : ℕ} {o : Object Digest W} (hi : w.objects[i]? = some o) :
    ∃ o', w'.objects[i]? = some o' ∧ o'.shared = o.shared := by
  cases h with
  | idle hobjects _ => exact ⟨o, by rw [hobjects, hi], rfl⟩
  | @life _ j _ o₂ hj hlife hobjects _ =>
    rw [hobjects]
    by_cases hij : j = i
    · subst hij
      obtain rfl := Option.some.inj (hj.symm.trans hi)
      have hlt := (List.getElem?_eq_some_iff.mp hj).1
      exact ⟨o₂, getElem?_set_self hlt, by cases hlife <;> rfl⟩
    · exact ⟨o, by rw [getElem?_set_ne hij, hi], rfl⟩
  | create _ _ hobjects _ =>
    have hlt := (List.getElem?_eq_some_iff.mp hi).1
    exact ⟨o, by rw [hobjects, getElem?_append_left hlt, hi], rfl⟩

theorem World.Traced.keep {w w' : World Digest W} {e : Event} (h : w.Traced engine events)
    (hmoves : w.Moves engine w' e) {key : Digest} {i : ℕ} (hmem : (key, i) ∈ w.entries.entries) :
    ∃ directives o root₀, key = engine.sha256 directives ∧ w'.objects[i]? = some o ∧
      BuiltBy engine (events ++ [e]) directives i o.shared root₀ := by
  obtain ⟨directives, o, root₀, hkey, hi, hbuilt⟩ := h key i hmem
  obtain ⟨o', hi', hshared⟩ := hmoves.keeps_shared hi
  exact ⟨directives, o', root₀, hkey, hi', hshared ▸ hbuilt.snoc e⟩

theorem World.traced_run {w : World Digest W} (h : World.run engine events = some w) :
    w.Traced engine events := by
  refine run_induction (P := fun events w => w.Traced engine events) nofun ?_ h
  intro events w e w' hrun ih hstep key i hmem
  have hmoves := World.step_moves hstep
  cases World.step_moves hstep with
  | idle _ hentries => exact ih.keep hmoves (hentries ▸ hmem)
  | life _ _ _ hentries => exact ih.keep hmoves (hentries _ hmem)
  | create hbuild hanswer hobjects hentries =>
    rename_i directives root waf recorder
    rw [hentries, GoMap.mem_set_entries] at hmem
    rcases hmem with ⟨hold, -⟩ | hnew
    · exact ih.keep hmoves hold
    · cases hnew
      refine ⟨directives, ⟨⟨waf, recorder.inputs⟩, 1, false, some (engine.sha256 directives), 0⟩,
        root, rfl, by simp [hobjects], ?_, recorder, hbuild, rfl⟩
      exact ⟨events, [], w, rfl, hrun, rfl, hanswer⟩

theorem World.cached_of_getOrCreate {w : World Digest W} {directives : Bytes} {root : Root} {i : ℕ}
    (hanswer : (w.getOrCreate engine directives root).1 = .ok i) (hold : i < w.objects.length) :
    w.cached engine (engine.sha256 directives) root = some i := by
  unfold getOrCreate at hanswer
  cases hcached : w.cached engine (engine.sha256 directives) root with
  | some j =>
    simp only [hcached, Except.ok.injEq] at hanswer
    rw [hanswer]
  | none =>
    simp only [hcached] at hanswer
    split at hanswer
    · cases hanswer
    · simp only [Except.ok.injEq] at hanswer
      omega

/-- When a call returns a WAF that was there before, that WAF was made by an earlier call with the
same directives, and a build on the present file system would ask the same questions, get the same
answers and give the same WAF. -/
theorem reuse_sound (hsha : Function.Injective engine.sha256) (events : List Event)
    (w : World Digest W) (hrun : World.run engine events = some w) (directives : Bytes)
    (root : Root) (i : ℕ) (hanswer : (w.getOrCreate engine directives root).1 = .ok i)
    (hold : i < w.objects.length) :
    ∃ o root₀, w.objects[i]? = some o ∧ BuiltBy engine events directives i o.shared root₀ ∧
      (engine.newWaf directives).accesses root = (engine.newWaf directives).accesses root₀ ∧
      (engine.newWaf directives).result root₀ = .ok o.shared.waf ∧
      (engine.newWaf directives).result root = .ok o.shared.waf := by
  have hcached := World.cached_of_getOrCreate hanswer hold
  obtain ⟨hentry, s, hvalue, hunchanged⟩ := World.cached_eq_some.mp hcached
  obtain ⟨o, hi, -, rfl⟩ := World.value_eq_some.mp hvalue
  obtain ⟨directives', o', root₀, hkey, hi', hbuilt⟩ :=
    World.traced_run hrun _ i (GoMap.get?_eq_some.mp hentry)
  obtain rfl := hsha hkey
  obtain rfl := Option.some.inj (hi'.symm.trans hi)
  obtain ⟨recorder, hrecord, hinputs⟩ := hbuilt.record
  obtain ⟨hresult₀, -, -⟩ :=
    Build.record_spec engine.sha256 (engine.newWaf directives) (newRecordingFs root₀)
  rw [hrecord] at hresult₀
  have hsame :
      (engine.newWaf directives).accesses root = (engine.newWaf directives).accesses root₀ ∧
      (engine.newWaf directives).result root = (engine.newWaf directives).result root₀ := by
    refine Build.congr_of_unchanged hsha ?_
    rw [hrecord, hinputs]
    exact hunchanged
  exact ⟨o', root₀, hi, hbuilt, hsame.1, hresult₀.symm, hsame.2.trans hresult₀.symm⟩

/-- A second call with the same rule file reuses the first WAF. -/
theorem fileEngine_reuses :
    ∃ w, World.run fileEngine [.getOrCreate [1] (rulesRoot [2])] = some w ∧
      (w.getOrCreate fileEngine [1] (rulesRoot [2])).1 = .ok 0 ∧
      ∃ o, w.objects[0]? = some o ∧
        (fileEngine.newWaf [1]).result (rulesRoot [2]) = .ok o.shared.waf := by
  obtain ⟨w, hw, hanswer, hlength⟩ :
      ∃ w, World.run fileEngine [.getOrCreate [1] (rulesRoot [2])] = some w ∧
        (w.getOrCreate fileEngine [1] (rulesRoot [2])).1 = .ok 0 ∧ w.objects.length = 1 :=
    ⟨_, rfl, rfl, rfl⟩
  have hsha : Function.Injective fileEngine.sha256 := Function.injective_id
  obtain ⟨o, root₀, hi, -, -, -, hresult⟩ :=
    reuse_sound hsha _ w hw [1] (rulesRoot [2]) 0 hanswer (by omega)
  exact ⟨w, hw, hanswer, o, hi, hresult⟩

end BuiltOnEnvoy.Coraza
