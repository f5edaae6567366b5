import Mathlib.Tactic

/-!
# Header maps

Names and values in their order of arrival. Names are compared without regard
to case; setting a name removes all its earlier values.
-/

namespace BuiltOnEnvoy.Foundations

open List

abbrev Headers := List (String × String)

namespace Headers

def lower (name : String) : String :=
  String.ofList (name.toList.map Char.toLower)

/-- Two names of one header. -/
def Same (name other : String) : Prop :=
  lower name = lower other

instance (name other : String) : Decidable (Same name other) :=
  inferInstanceAs (Decidable (lower name = lower other))

variable {name other : String}

theorem Same.symm (h : Same name other) : Same other name :=
  Eq.symm h

theorem Same.trans {a b c : String} (h : Same a b) (h' : Same b c) : Same a c :=
  Eq.trans h h'

def values (headers : Headers) (name : String) : List String :=
  (headers.filter fun h => Same h.1 name).map Prod.snd

/-- The first value, or the empty text. -/
def getOne (headers : Headers) (name : String) : String :=
  (headers.values name).headD ""

def remove (headers : Headers) (name : String) : Headers :=
  headers.filter fun h => ¬Same h.1 name

def set (headers : Headers) (name value : String) : Headers :=
  headers.remove name ++ [(lower name, value)]

/-- A sequence of calls of `set`. -/
def setAll (headers : Headers) (updates : List (String × String)) : Headers :=
  updates.foldl (fun headers u => headers.set u.1 u.2) headers

theorem lower_lower (name : String) : lower (lower name) = lower name := by
  have hchar : ∀ c : Char, c.toLower.toLower = c.toLower := by
    intro c
    unfold Char.toLower
    split_ifs with h h'
    · exact absurd h' (by grind)
    · rfl
    · rfl
  simp only [lower, String.toList_ofList, List.map_map]
  congr 2
  funext c
  exact hchar c

theorem values_append (headers more : Headers) (name : String) :
    (headers ++ more).values name = headers.values name ++ more.values name := by
  simp [values]

variable (headers : Headers)

@[simp] theorem values_set_self (name value : String) :
    (headers.set name value).values name = [value] := by
  have hremoved : (headers.remove name).values name = [] := by
    simp [values, remove]
  rw [set, values_append, hremoved]
  simp [values, Same, lower_lower]

theorem values_congr (h : Same name other) :
    headers.values name = headers.values other := by
  have hiff : ∀ x : String × String, Same x.1 name ↔ Same x.1 other :=
    fun x => ⟨fun hx => hx.trans h, fun hx => hx.trans h.symm⟩
  simp only [values, hiff]

theorem values_set_of_ne (value : String) (h : ¬Same name other) :
    (headers.set name value).values other = headers.values other := by
  have hkept : (headers.remove name).values other = headers.values other := by
    unfold values remove
    rw [List.filter_filter]
    congr 1
    apply filter_congr
    intro x _
    by_cases hx : Same x.1 other
    · have hname : ¬Same x.1 name := fun hsame => h (hsame.symm.trans hx)
      simp [hx, hname]
    · simp [hx]
  have hnew : values [(lower name, value)] other = [] := by
    have hne : ¬Same (lower name) other := by
      rwa [Same, lower_lower]
    simp [values, hne]
  rw [set, values_append, hkept, hnew, append_nil]

theorem getOne_append {headers : Headers} {name : String} (more : Headers)
    (h : headers.getOne name ≠ "") : (headers ++ more).getOne name = headers.getOne name := by
  unfold getOne at *
  rw [values_append]
  cases hvalues : headers.values name with
  | nil => simp [hvalues] at h
  | cons value rest => rfl

theorem values_setAll_last (front : List (String × String)) (u : String × String) :
    (headers.setAll (front ++ [u])).values u.1 = [u.2] := by
  simp [setAll]

theorem values_setAll_of_forall_not {headers : Headers} {updates : List (String × String)}
    {name : String} (h : ∀ u ∈ updates, ¬Same u.1 name) :
    (headers.setAll updates).values name = headers.values name := by
  induction updates generalizing headers with
  | nil => rfl
  | cons u rest ih =>
    obtain ⟨hu, hrest⟩ := forall_mem_cons.mp h
    exact (ih hrest).trans (values_set_of_ne headers u.2 hu)

/-- When all updates of a header have one value, their order does not matter. -/
theorem values_setAll_of_forall_eq {headers : Headers} {updates : List (String × String)}
    {name value : String} (hex : ∃ u ∈ updates, Same u.1 name)
    (heq : ∀ u ∈ updates, Same u.1 name → u.2 = value) :
    (headers.setAll updates).values name = [value] := by
  induction updates generalizing headers with
  | nil =>
    obtain ⟨u, hu, -⟩ := hex
    cases hu
  | cons u rest ih =>
    obtain ⟨hu, hrest⟩ := forall_mem_cons.mp heq
    by_cases hlater : ∃ u' ∈ rest, Same u'.1 name
    · exact ih hlater hrest
    · -- the first update is the only one of this header
      push Not at hlater
      have hsame : Same u.1 name := by
        obtain ⟨u', hmem, hsame⟩ := hex
        rcases mem_cons.mp hmem with rfl | hmem
        · exact hsame
        · exact absurd hsame (hlater u' hmem)
      have hkeep : ((headers.set u.1 u.2).setAll rest).values name =
          (headers.set u.1 u.2).values name := values_setAll_of_forall_not hlater
      have hset : (headers.set u.1 u.2).values name = [value] := by
        rw [← values_congr _ hsame, values_set_self, hu hsame]
      exact hkeep.trans hset

end Headers

end BuiltOnEnvoy.Foundations
