import Mathlib
import BuiltOnEnvoy.Foundations.Runs

/-!
# The selection of the extension manager

The store of the user interface keeps the selected instances of extensions, their
configs and the order in which they run. An instance is named by its extension and
a number. The counter behind the numbers starts again when the last instance of an
extension goes away, so that an id can be handed out a second time.

Maps are read and written one key at a time here, so they are functions.
-/

namespace BuiltOnEnvoy.Ui

open Foundations List

structure Extension where
  name : String
  deriving DecidableEq, Repr

structure Store where
  selected : String → Option Extension := fun _ => none
  configs : String → Option String := fun _ => none
  runOrder : List String := []
  instanceCounter : String → Option ℕ := fun _ => none

inductive Operation
  | addExtensionInstance (ext : Extension)
  | deselectAllInstancesOf (name : String)
  | deselectExtension (instanceId : String)
  | setConfig (instanceId cfg : String)
  | reorderRun (fromIdx toIdx : ℕ)

def instanceId (name : String) (count : ℕ) : String := name ++ "#" ++ count.repr

/-- The part before the last number sign. -/
def instanceExtName (instanceId : String) : String :=
  match instanceId.toList.reverse.dropWhile (· ≠ '#') with
  | [] => instanceId
  | _ :: name => String.ofList name.reverse

namespace Store

def getInstancesOf (s : Store) (name : String) : List String :=
  s.runOrder.filter fun id => instanceExtName id = name

/-- The number that the next instance of an extension gets. -/
def nextCount (s : Store) (name : String) : ℕ := (s.instanceCounter name).getD 0 + 1

/-- The id that `addExtensionInstance` returns. -/
def nextId (s : Store) (ext : Extension) : String := instanceId ext.name (s.nextCount ext.name)

def addExtensionInstance (s : Store) (ext : Extension) : Store where
  selected := Function.update s.selected (s.nextId ext) (some ext)
  configs := s.configs
  runOrder := s.runOrder ++ [s.nextId ext]
  instanceCounter := Function.update s.instanceCounter ext.name (some (s.nextCount ext.name))

/-- What both ways of deselecting delete. -/
def removeInstances (s : Store) (ids : List String) : Store where
  selected := fun id => if id ∈ ids then none else s.selected id
  configs := fun id => if id ∈ ids then none else s.configs id
  runOrder := s.runOrder.filter (· ∉ ids)
  instanceCounter := s.instanceCounter

def resetCounter (s : Store) (name : String) : Store :=
  { s with instanceCounter := Function.update s.instanceCounter name none }

def deselectAllInstancesOf (s : Store) (name : String) : Store :=
  let toRemove := s.getInstancesOf name
  if toRemove = [] then s else (s.removeInstances toRemove).resetCounter name

def deselectExtension (s : Store) (instanceId : String) : Store :=
  let name := instanceExtName instanceId
  let s := s.removeInstances [instanceId]
  if s.getInstancesOf name = [] then s.resetCounter name else s

def setConfig (s : Store) (instanceId cfg : String) : Store :=
  { s with configs := Function.update s.configs instanceId (if cfg ≠ "" then some cfg else none) }

/-- The two calls of `splice`. They are on positions of the run order. -/
def reorderRun (s : Store) (fromIdx toIdx : ℕ) : Option Store :=
  match s.runOrder[fromIdx]? with
  | some moved =>
    if toIdx < s.runOrder.length then
      some { s with runOrder := (s.runOrder.eraseIdx fromIdx).insertIdx toIdx moved }
    else none
  | none => none

def step (s : Store) : Operation → Option Store
  | .addExtensionInstance ext => some (s.addExtensionInstance ext)
  | .deselectAllInstancesOf name => some (s.deselectAllInstancesOf name)
  | .deselectExtension instanceId => some (s.deselectExtension instanceId)
  | .setConfig instanceId cfg => some (s.setConfig instanceId cfg)
  | .reorderRun fromIdx toIdx => s.reorderRun fromIdx toIdx

/-- The ids for which a config was saved while they were not selected, and neither cleared nor
deselected since. -/
def lateSaves (s : Store) (late : List String) : Operation → List String
  | .setConfig instanceId cfg =>
    if cfg = "" then late.filter (· ≠ instanceId)
    else if instanceId ∈ s.runOrder then late else instanceId :: late
  | .deselectAllInstancesOf name => late.filter (· ∉ s.getInstancesOf name)
  | .deselectExtension instanceId => late.filter (· ≠ instanceId)
  | .addExtensionInstance _ => late
  | .reorderRun _ _ => late

/-- A run of the store, with the late saves of the run beside it. -/
def perform (state : Store × List String) (op : Operation) : Option (Store × List String) :=
  (state.1.step op).map fun s => (s, state.1.lateSaves state.2 op)

def run (ops : List Operation) : Option (Store × List String) :=
  ops.foldlM perform ({}, [])

/-- The run order has no duplicates and lists exactly the selected instances. -/
structure Consistent (s : Store) : Prop where
  nodup : s.runOrder.Nodup
  mem_iff : ∀ id, id ∈ s.runOrder ↔ s.selected id ≠ none

/-- What every operation keeps: the selected instances have numbers that were counted, and the
configs of the others are the late saves. -/
structure Invariant (s : Store) (late : List String) : Prop extends s.Consistent where
  counted : ∀ id ∈ s.runOrder, ∃ name count, id = instanceId name count ∧ count < s.nextCount name
  late_iff : ∀ id ∉ s.runOrder, id ∈ late ↔ s.configs id ≠ none

end Store

theorem instanceExtName_instanceId (name : String) (count : ℕ) :
    instanceExtName (instanceId name count) = name := by
  have hdigits : ∀ c ∈ count.repr.toList.reverse, decide (c ≠ '#') = true := by
    intro c hc
    rw [mem_reverse, Nat.repr_eq_ofList_toDigits, String.toList_ofList] at hc
    have hdigit := Nat.isDigit_of_mem_toDigits (by decide) (by decide) hc
    exact decide_eq_true fun hsign => absurd (hsign ▸ hdigit) (by decide)
  have hreverse : (instanceId name count).toList.reverse =
      count.repr.toList.reverse ++ '#' :: name.toList.reverse := by
    simp [instanceId]
  rw [instanceExtName, hreverse, dropWhile_append_of_pos hdigits]
  simp

theorem instanceId_inj {name name' : String} {count count' : ℕ}
    (h : instanceId name count = instanceId name' count') : name = name' ∧ count = count' := by
  have hname : name = name' := by
    rw [← instanceExtName_instanceId name count, h, instanceExtName_instanceId]
  subst hname
  exact ⟨rfl, Nat.repr_injective ((String.append_right_inj _).mp h)⟩

namespace Store

variable {s s' : Store} {late : List String}

theorem mem_getInstancesOf {name id : String} :
    id ∈ s.getInstancesOf name ↔ id ∈ s.runOrder ∧ instanceExtName id = name := by
  simp [getInstancesOf]

/-- The number of a new instance was not counted yet. -/
theorem Invariant.nextId_notMem (h : s.Invariant late) (ext : Extension) :
    s.nextId ext ∉ s.runOrder := by
  intro hmem
  obtain ⟨name, count, hid, hlt⟩ := h.counted _ hmem
  obtain ⟨rfl, rfl⟩ := instanceId_inj hid
  exact lt_irrefl _ hlt

theorem Invariant.add (h : s.Invariant late) (ext : Extension) :
    (s.addExtensionInstance ext).Invariant late := by
  have hfresh := h.nextId_notMem ext
  have hcount : ∀ name, s.nextCount name ≤ (s.addExtensionInstance ext).nextCount name := by
    intro name
    by_cases hname : name = ext.name
    · subst hname
      simp [addExtensionInstance, nextCount]
    · simp [addExtensionInstance, nextCount, Function.update_of_ne hname]
  refine ⟨⟨?_, fun id => ?_⟩, fun id hid => ?_, fun id hid => ?_⟩
  · exact nodup_append_comm.mp (nodup_cons.mpr ⟨hfresh, h.nodup⟩)
  · by_cases hid : id = s.nextId ext
    · simp [addExtensionInstance, hid]
    · simp [addExtensionInstance, hid, h.mem_iff]
  · rcases mem_append.mp hid with hold | hnew
    · obtain ⟨name, count, hname, hlt⟩ := h.counted id hold
      exact ⟨name, count, hname, hlt.trans_le (hcount name)⟩
    · refine ⟨ext.name, s.nextCount ext.name, mem_singleton.mp hnew, ?_⟩
      simp [addExtensionInstance, nextCount]
  · exact h.late_iff id fun hold => hid (mem_append_left _ hold)

/-- Deselecting keeps the invariant with any counter that still counts what stays. -/
theorem Invariant.remove (h : s.Invariant late) (ids : List String)
    (hrun : s'.runOrder = s.runOrder.filter (· ∉ ids))
    (hselected : s'.selected = (s.removeInstances ids).selected)
    (hconfigs : s'.configs = (s.removeInstances ids).configs)
    (hcounter : ∀ id ∈ s'.runOrder,
      s'.instanceCounter (instanceExtName id) = s.instanceCounter (instanceExtName id)) :
    s'.Invariant (late.filter (· ∉ ids)) := by
  have hmem : ∀ id, id ∈ s'.runOrder ↔ id ∈ s.runOrder ∧ id ∉ ids := by simp [hrun]
  refine ⟨⟨hrun ▸ h.nodup.filter _, fun id => ?_⟩, fun id hid => ?_, fun id hid => ?_⟩
  · rw [hmem, hselected]
    by_cases hin : id ∈ ids <;> simp [removeInstances, hin, h.mem_iff]
  · obtain ⟨name, count, rfl, hlt⟩ := h.counted id ((hmem id).mp hid).1
    have hsame := hcounter _ hid
    rw [instanceExtName_instanceId] at hsame
    exact ⟨name, count, rfl, by rwa [nextCount, hsame]⟩
  · rw [hconfigs]
    by_cases hin : id ∈ ids
    · simp [removeInstances, hin]
    · have hold := h.late_iff id fun hold => hid ((hmem id).mpr ⟨hold, hin⟩)
      simpa [removeInstances, hin] using hold

theorem Invariant.deselectAll (h : s.Invariant late) (name : String) :
    (s.deselectAllInstancesOf name).Invariant (late.filter (· ∉ s.getInstancesOf name)) := by
  rw [deselectAllInstancesOf]
  split_ifs with hnone
  · simpa [hnone] using h
  · refine h.remove (s.getInstancesOf name) rfl rfl rfl fun id hid => ?_
    obtain ⟨hold, hkept⟩ : id ∈ s.runOrder ∧ id ∉ s.getInstancesOf name := by
      simpa [resetCounter, removeInstances] using hid
    exact Function.update_of_ne (fun hname => hkept (mem_getInstancesOf.mpr ⟨hold, hname⟩)) _ _

theorem Invariant.deselect (h : s.Invariant late) (id : String) :
    (s.deselectExtension id).Invariant (late.filter (· ≠ id)) := by
  have hlate : late.filter (· ≠ id) = late.filter (· ∉ [id]) := by simp
  rw [hlate, deselectExtension]
  split_ifs with hlast
  · refine h.remove [id] rfl rfl rfl fun other hother => ?_
    have hname : instanceExtName other ≠ instanceExtName id := fun hname =>
      not_mem_nil (hlast ▸ mem_getInstancesOf.mpr ⟨hother, hname⟩)
    exact Function.update_of_ne hname _ _
  · exact h.remove [id] rfl rfl rfl fun _ _ => rfl

theorem Invariant.save (h : s.Invariant late) (id cfg : String) :
    (s.setConfig id cfg).Invariant (s.lateSaves late (.setConfig id cfg)) := by
  refine ⟨⟨h.nodup, h.mem_iff⟩, h.counted, fun other hother => ?_⟩
  have hold := h.late_iff other hother
  by_cases hsame : other = id
  · subst hsame
    by_cases hempty : cfg = ""
    · simp [lateSaves, setConfig, hempty]
    · simp [lateSaves, setConfig, hempty, show other ∉ s.runOrder from hother]
  · simp only [lateSaves, setConfig, Function.update_of_ne hsame]
    split_ifs <;> simp [hsame, hold]

theorem Invariant.reorder (h : s.Invariant late) {fromIdx toIdx : ℕ}
    (hstep : s.reorderRun fromIdx toIdx = some s') : s'.Invariant late := by
  unfold reorderRun at hstep
  split at hstep
  case h_1 moved hmoved =>
    split_ifs at hstep with hto
    obtain rfl := Option.some.inj hstep
    obtain ⟨hfrom, hget⟩ := List.getElem?_eq_some_iff.mp hmoved
    have hperm : ((s.runOrder.eraseIdx fromIdx).insertIdx toIdx moved).Perm s.runOrder := by
      refine (perm_insertIdx moved _ ?_).trans ?_
      · rw [length_eraseIdx_of_lt hfrom]
        omega
      · rw [← hget]
        exact getElem_cons_eraseIdx_perm hfrom
    refine ⟨⟨hperm.nodup_iff.mpr h.nodup, fun id => ?_⟩, fun id hid => ?_, fun id hid => ?_⟩
    · exact hperm.mem_iff.trans (h.mem_iff id)
    · exact h.counted id (hperm.mem_iff.mp hid)
    · exact h.late_iff id fun hold => hid (hperm.mem_iff.mpr hold)
  case h_2 => cases hstep

theorem Invariant.step (h : s.Invariant late) (op : Operation) (hstep : s.step op = some s') :
    s'.Invariant (s.lateSaves late op) := by
  cases op with
  | addExtensionInstance ext =>
    cases hstep
    exact h.add ext
  | deselectAllInstancesOf name =>
    cases hstep
    exact h.deselectAll name
  | deselectExtension id =>
    cases hstep
    exact h.deselect id
  | setConfig id cfg =>
    cases hstep
    exact h.save id cfg
  | reorderRun fromIdx toIdx => exact h.reorder hstep

theorem run_invariant {ops : List Operation} (hrun : run ops = some (s, late)) :
    s.Invariant late := by
  refine @run_induction _ _ perform ({}, []) (fun _ state => state.1.Invariant state.2) ?_ ?_
    ops (s, late) hrun
  · exact ⟨⟨nodup_nil, by simp⟩, by simp, by simp⟩
  · intro _ state op state' _ ih hperform
    obtain ⟨next, hstep, rfl⟩ := Option.map_eq_some_iff.mp hperform
    exact ih.step op hstep

/-- After any run, the store is consistent and the next instance of any extension has an id that
is not selected; it starts without a config exactly when no config was saved late for its id. -/
theorem next_instance_fresh_iff (ops : List Operation) (s : Store) (late : List String)
    (hrun : run ops = some (s, late)) (ext : Extension) :
    (s.Consistent ∧ s.selected (s.nextId ext) = none ∧
      (s.addExtensionInstance ext).configs (s.nextId ext) = none) ↔ s.nextId ext ∉ late := by
  have h := run_invariant hrun
  have hfresh := h.nextId_notMem ext
  have hselected : s.selected (s.nextId ext) = none := by
    by_contra hsome
    exact hfresh ((h.mem_iff _).mpr hsome)
  have hconfig : (s.addExtensionInstance ext).configs (s.nextId ext) = none ↔
      s.nextId ext ∉ late := by
    rw [h.late_iff _ hfresh, not_not]
    rfl
  exact ⟨fun hall => hconfig.mp hall.2.2,
    fun hlate => ⟨h.toConsistent, hselected, hconfig.mpr hlate⟩⟩

/-- With one instance selected, the second one is fresh. -/
theorem second_instance_fresh :
    ∃ s late, run [.addExtensionInstance ⟨"waf"⟩, .setConfig "waf#1" "mode"] = some (s, late) ∧
      s.Consistent ∧ s.selected "waf#2" = none ∧
        (s.addExtensionInstance ⟨"waf"⟩).configs "waf#2" = none := by
  have hfresh := next_instance_fresh_iff
    [.addExtensionInstance ⟨"waf"⟩, .setConfig "waf#1" "mode"] _ _ rfl ⟨"waf"⟩
  exact ⟨_, _, rfl, hfresh.mpr (by decide)⟩

/-- A config that is saved for a removed instance is there when the id is handed out again. -/
theorem removed_instance_keeps_config :
    ∃ s late, run [.addExtensionInstance ⟨"waf"⟩, .deselectExtension "waf#1",
      .setConfig "waf#1" "mode"] = some (s, late) ∧
        (s.addExtensionInstance ⟨"waf"⟩).configs (s.nextId ⟨"waf"⟩) = some "mode" :=
  ⟨_, _, rfl, by decide⟩

end Store

end BuiltOnEnvoy.Ui
