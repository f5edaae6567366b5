import Mathlib.Tactic

/-!
# Maps whose order is not fixed

A Go map has at most one value for a key. A loop over it visits its entries in
an order that may be another one each time.
-/

namespace BuiltOnEnvoy.Foundations

open List

structure GoMap (κ α : Type) where
  entries : List (κ × α)
  nodup : (entries.map Prod.fst).Nodup

namespace GoMap

variable {κ α : Type}

def empty : GoMap κ α := ⟨[], List.nodup_nil⟩

def get? [DecidableEq κ] (m : GoMap κ α) (key : κ) : Option α :=
  (m.entries.find? fun e => e.1 = key).map Prod.snd

/-- `m[key] = value`. -/
def set [DecidableEq κ] (m : GoMap κ α) (key : κ) (value : α) : GoMap κ α where
  entries := m.entries.filter (fun e => e.1 ≠ key) ++ [(key, value)]
  nodup := by
    rw [List.map_append, List.nodup_append]
    refine ⟨m.nodup.sublist (List.filter_sublist.map _), List.nodup_singleton key, ?_⟩
    intro a ha b hb
    obtain ⟨e, he, rfl⟩ := List.mem_map.mp ha
    have hne : e.1 ≠ key := by simpa using (List.mem_filter.mp he).2
    rw [List.map_singleton, List.mem_singleton] at hb
    rwa [hb]

/-- `delete(m, key)`. -/
def erase [DecidableEq κ] (m : GoMap κ α) (key : κ) : GoMap κ α where
  entries := m.entries.filter fun e => e.1 ≠ key
  nodup := m.nodup.sublist (List.filter_sublist.map _)

theorem filterMap_keys_sublist {β : Type} (f : κ → α → Option β) (l : List (κ × α)) :
    ((l.filterMap fun e => (f e.1 e.2).map (e.1, ·)).map Prod.fst).Sublist (l.map Prod.fst) := by
  induction l with
  | nil => exact List.Sublist.refl _
  | cons e l ih =>
    cases hf : f e.1 e.2 with
    | none => simpa [hf] using ih.trans (sublist_cons_self _ _)
    | some b => simpa [hf] using ih

/-- A new map with the keys for which the function gives a value. -/
def filterMap {β : Type} (m : GoMap κ α) (f : κ → α → Option β) : GoMap κ β where
  entries := m.entries.filterMap fun e => (f e.1 e.2).map (e.1, ·)
  nodup := m.nodup.sublist (filterMap_keys_sublist f m.entries)

variable {m : GoMap κ α}

theorem get?_eq_some [DecidableEq κ] {key : κ} {value : α} :
    m.get? key = some value ↔ (key, value) ∈ m.entries := by
  rw [get?, Option.map_eq_some_iff]
  constructor
  · grind
  · intro hmem
    cases hfind : m.entries.find? fun e => e.1 = key with
    | none => simpa using find?_eq_none.mp hfind _ hmem
    | some e =>
      have hkey : e.1 = key := by simpa using find?_some hfind
      have heq : e = (key, value) :=
        inj_on_of_nodup_map m.nodup (mem_of_find?_eq_some hfind) hmem hkey
      exact ⟨e, rfl, by rw [heq]⟩

theorem mem_set_entries [DecidableEq κ] {key : κ} {value : α} {e : κ × α} :
    e ∈ (m.set key value).entries ↔ e ∈ m.entries ∧ e.1 ≠ key ∨ e = (key, value) := by
  simp [set]

theorem get?_set_self [DecidableEq κ] (m : GoMap κ α) (key : κ) (value : α) :
    (m.set key value).get? key = some value := by
  rw [get?_eq_some, mem_set_entries]
  exact .inr rfl

theorem get?_set_of_ne [DecidableEq κ] (m : GoMap κ α) {key other : κ} (h : other ≠ key)
    (value : α) : (m.set key value).get? other = m.get? other := by
  apply Option.ext
  intro x
  rw [get?_eq_some, get?_eq_some, mem_set_entries]
  constructor
  · rintro (⟨hmem, -⟩ | heq)
    · exact hmem
    · exact absurd (Prod.mk.inj heq).1 h
  · exact fun hmem => .inl ⟨hmem, h⟩

theorem entries_set_of_notMem [DecidableEq κ] {key : κ} (value : α)
    (h : key ∉ m.entries.map Prod.fst) :
    (m.set key value).entries = m.entries ++ [(key, value)] := by
  have hkeep : m.entries.filter (fun e => e.1 ≠ key) = m.entries := by
    rw [filter_eq_self]
    intro e he
    have hne : e.1 ≠ key := fun heq => h (heq ▸ List.mem_map_of_mem he)
    simpa using hne
  exact congrArg (· ++ [(key, value)]) hkeep

theorem get?_eq_of_perm [DecidableEq κ] {m m' : GoMap κ α} (h : m.entries.Perm m'.entries)
    (key : κ) : m.get? key = m'.get? key := by
  apply Option.ext
  intro value
  rw [get?_eq_some, get?_eq_some, h.mem_iff]

theorem mem_erase_entries [DecidableEq κ] {key : κ} {e : κ × α} :
    e ∈ (m.erase key).entries ↔ e ∈ m.entries ∧ e.1 ≠ key := by
  simp [erase]

/-- An order in which a loop can visit the map. -/
def Visits (m : GoMap κ α) (order : List (κ × α)) : Prop :=
  order.Perm m.entries

theorem visits_entries (m : GoMap κ α) : m.Visits m.entries :=
  List.Perm.refl _

theorem exists_visits_last {e : κ × α} (h : e ∈ m.entries) :
    ∃ front, m.Visits (front ++ [e]) := by
  obtain ⟨left, right, hsplit⟩ := append_of_mem h
  refine ⟨left ++ right, ?_⟩
  rw [Visits, hsplit, append_assoc]
  exact List.Perm.append_left left perm_append_comm

end GoMap

end BuiltOnEnvoy.Foundations
