import BuiltOnEnvoy.Foundations.JsonText

/-!
# JSON decoded into an interface value

A JSON value becomes a tree of Go values: of members with one name the last one
stays. A number that does not fit a float leaves something else where it stands, nil
or an infinity as the version of the library has it, and the rest is decoded as if
nothing had happened.
-/

namespace BuiltOnEnvoy.Foundations

open List

inductive Any
  | nil
  | bool (value : Bool)
  | float64 (literal : NumberLiteral)
  | infinity (negative : Bool)
  | string (value : List Char)
  | slice (items : List Any)
  | map (entries : List (List Char × Any))

variable (fits : NumberLiteral → Bool)

/-- What is left of a number that does not fit: nil, or an infinity with this sign. -/
def leftover : Option Bool → Any
  | none => .nil
  | some negative => .infinity negative

/-- An entry goes before the others, unless a later one has its name. -/
def insertFirst (name : List Char) (value : Any) (others : List (List Char × Any)) :
    List (List Char × Any) :=
  if others.any (·.1 == name) then others else (name, value) :: others

section

variable (outOfRange : NumberLiteral → Option Bool)

mutual

def anyValue : Json → Any
  | .null => .nil
  | .bool value => .bool value
  | .number literal =>
    if fits literal then .float64 literal else leftover (outOfRange literal)
  | .string value => .string value
  | .array items => .slice (anyItems items)
  | .object members => .map (anyEntries members)

def anyItems : List Json → List Any
  | [] => []
  | v :: vs => anyValue v :: anyItems vs

def anyEntries : List (List Char × Json) → List (List Char × Any)
  | [] => []
  | (name, v) :: ms => insertFirst name (anyValue v) (anyEntries ms)

end

end

/-- The whole value, with every number in it. -/
def Json.value (v : Json) : Any := anyValue (fun _ => true) (fun _ => none) v

namespace Any

mutual

/-- Every number fits. -/
def Fits : Any → Bool
  | float64 literal => fits literal
  | slice items => FitsItems items
  | map entries => FitsEntries entries
  | _ => true

def FitsItems : List Any → Bool
  | [] => true
  | v :: vs => v.Fits && FitsItems vs

def FitsEntries : List (List Char × Any) → Bool
  | [] => true
  | (_, v) :: es => v.Fits && FitsEntries es

end

end Any

variable {fits} {outOfRange : NumberLiteral → Option Bool}

theorem any_name (name : List Char) (entries : List (List Char × Any)) :
    entries.any (·.1 == name) = (entries.map Prod.fst).any (· == name) := by
  rw [List.any_map]
  rfl

theorem names_anyEntries (members : List (List Char × Json)) :
    (anyEntries fits outOfRange members).map Prod.fst =
      (anyEntries (fun _ => true) (fun _ => none) members).map Prod.fst := by
  induction members with
  | nil => rfl
  | cons m ms ih =>
    obtain ⟨name, v⟩ := m
    rw [anyEntries, anyEntries, insertFirst, insertFirst, any_name, any_name, ih]
    split
    · exact ih
    · rw [map_cons, map_cons, ih]

/-- The entries are those of the whole map exactly if they are so one by one, given that this is
known of each member. -/
theorem anyEntries_eq_iff {members : List (List Char × Json)}
    (h : ∀ m ∈ members, anyValue fits outOfRange m.2 = m.2.value ↔ m.2.value.Fits fits = true) :
    anyEntries fits outOfRange members = anyEntries (fun _ => true) (fun _ => none) members ↔
      Any.FitsEntries fits (anyEntries (fun _ => true) (fun _ => none) members) = true := by
  induction members with
  | nil => simp [anyEntries, Any.FitsEntries]
  | cons m ms ih =>
    obtain ⟨name, v⟩ := m
    rw [forall_mem_cons] at h
    have hrest := ih h.2
    have hany : (anyEntries fits outOfRange ms).any (·.1 == name) =
        (anyEntries (fun _ => true) (fun _ => none) ms).any (·.1 == name) := by
      rw [any_name, any_name, names_anyEntries]
    rw [anyEntries, anyEntries, insertFirst, insertFirst, hany]
    split
    · exact hrest
    · rw [List.cons.injEq, Prod.mk.injEq, Any.FitsEntries, Bool.and_eq_true, ← hrest]
      have hvalue := h.1
      rw [Json.value] at hvalue
      rw [hvalue]
      tauto

theorem anyItems_eq_iff {items : List Json}
    (h : ∀ v ∈ items, anyValue fits outOfRange v = v.value ↔ v.value.Fits fits = true) :
    anyItems fits outOfRange items = anyItems (fun _ => true) (fun _ => none) items ↔
      Any.FitsItems fits (anyItems (fun _ => true) (fun _ => none) items) = true := by
  induction items with
  | nil => simp [anyItems, Any.FitsItems]
  | cons v vs ih =>
    rw [forall_mem_cons] at h
    have hvalue := h.1
    rw [Json.value] at hvalue
    rw [anyItems, anyItems, List.cons.injEq, Any.FitsItems, Bool.and_eq_true, hvalue, ih h.2]

theorem anyValue_eq_iff (v : Json) :
    anyValue fits outOfRange v = v.value ↔ v.value.Fits fits = true := by
  induction v using Json.inductOn with
  | null => simp [Json.value, anyValue, Any.Fits]
  | bool value => simp [Json.value, anyValue, Any.Fits]
  | string value => simp [Json.value, anyValue, Any.Fits]
  | number literal =>
    simp only [Json.value, anyValue, if_true, Any.Fits]
    cases fits literal with
    | true => simp
    | false => cases outOfRange literal <;> simp [leftover]
  | array items ih =>
    rw [Json.value, anyValue, anyValue, Any.slice.injEq, Any.Fits]
    exact anyItems_eq_iff ih
  | object members ih =>
    rw [Json.value, anyValue, anyValue, Any.map.injEq, Any.Fits]
    exact anyEntries_eq_iff ih

theorem value_eq_nil_iff {v : Json} : v.value = .nil ↔ v = .null := by
  cases v <;> simp [Json.value, anyValue]

end BuiltOnEnvoy.Foundations
