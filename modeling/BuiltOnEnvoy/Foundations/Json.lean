import Mathlib.Tactic

/-!
# JSON values

A JSON value is a tree; the members of an object keep their order, and a name
may occur more than once. The structure of a text is a sequence of tokens: the
tokens of a value are written by `tokens` and read back by a machine with a
stack of open brackets, one token at a time. How a token is spelled is left to
the texts.
-/

namespace BuiltOnEnvoy.Foundations

open List

/-- How far the literal of a number has been read. -/
inductive NumberState
  | start
  | minus
  | zero
  | digits
  | point
  | fraction
  | exponent
  | sign
  | power
  deriving DecidableEq, Repr

/-- One more character of the literal of a number. -/
def NumberState.step (s : NumberState) (c : Char) : Option NumberState :=
  match s with
  | start => if c = '-' then some minus else leading
  | minus => leading
  | zero => afterInteger
  | digits => if c.isDigit then some digits else afterInteger
  | point => if c.isDigit then some fraction else none
  | fraction => if c.isDigit then some fraction else afterFraction
  | exponent => if c = '+' ∨ c = '-' then some sign else if c.isDigit then some power else none
  | sign => if c.isDigit then some power else none
  | power => if c.isDigit then some power else none
where
  leading : Option NumberState :=
    if c = '0' then some zero else if c.isDigit then some digits else none
  afterFraction : Option NumberState := if c = 'e' ∨ c = 'E' then some exponent else none
  afterInteger : Option NumberState := if c = '.' then some point else afterFraction

def NumberState.accepts : NumberState → Bool
  | zero | digits | fraction | power => true
  | _ => false

def isNumber (literal : List Char) : Bool :=
  (literal.foldlM NumberState.step NumberState.start).any NumberState.accepts

/-- The literal of a number. -/
structure NumberLiteral where
  text : List Char
  valid : isNumber text = true
  deriving DecidableEq

inductive Json
  | null
  | bool (value : Bool)
  | number (literal : NumberLiteral)
  | string (value : List Char)
  | array (items : List Json)
  | object (members : List (List Char × Json))

namespace Json

/-- Induction over a value, with the hypothesis for all items and members. -/
theorem inductOn {motive : Json → Prop} (v : Json) (null : motive null)
    (bool : ∀ value, motive (bool value)) (number : ∀ literal, motive (number literal))
    (string : ∀ value, motive (string value))
    (array : ∀ items, (∀ v ∈ items, motive v) → motive (array items))
    (object : ∀ members, (∀ m ∈ members, motive m.2) → motive (object members)) : motive v :=
  @Json.rec motive (fun items => ∀ v ∈ items, motive v) (fun ms => ∀ m ∈ ms, motive m.2)
    (fun m => motive m.2) null bool number string array object (by simp)
    (fun _ _ hv hvs => forall_mem_cons.mpr ⟨hv, hvs⟩) (by simp)
    (fun _ _ hm hms => forall_mem_cons.mpr ⟨hm, hms⟩) (fun _ _ hv => hv) v

mutual

/-- The number of brackets open at once. -/
def depth : Json → ℕ
  | array items => depthItems items + 1
  | object members => depthMembers members + 1
  | _ => 0

def depthItems : List Json → ℕ
  | [] => 0
  | v :: vs => max v.depth (depthItems vs)

def depthMembers : List (List Char × Json) → ℕ
  | [] => 0
  | (_, v) :: ms => max v.depth (depthMembers ms)

end

theorem depthItems_le {items : List Json} {n : ℕ} :
    depthItems items ≤ n ↔ ∀ v ∈ items, v.depth ≤ n := by
  induction items with
  | nil => simp [depthItems]
  | cons v vs ih => rw [depthItems, max_le_iff, ih, forall_mem_cons]

theorem depthMembers_le {members : List (List Char × Json)} {n : ℕ} :
    depthMembers members ≤ n ↔ ∀ m ∈ members, m.2.depth ≤ n := by
  induction members with
  | nil => simp [depthMembers]
  | cons m ms ih =>
    obtain ⟨name, v⟩ := m
    rw [depthMembers, max_le_iff, ih, forall_mem_cons]

end Json

inductive Token
  | beginArray
  | endArray
  | beginObject
  | endObject
  | comma
  | colon
  | null
  | bool (value : Bool)
  | number (literal : NumberLiteral)
  | string (value : List Char)
  deriving DecidableEq

namespace Json

mutual

def tokens : Json → List Token
  | null => [.null]
  | bool value => [.bool value]
  | number literal => [.number literal]
  | string value => [.string value]
  | array [] => [.beginArray, .endArray]
  | array (v :: vs) => .beginArray :: (v.tokens ++ moreItems vs)
  | object [] => [.beginObject, .endObject]
  | object ((name, v) :: ms) =>
    .beginObject :: .string name :: .colon :: (v.tokens ++ moreMembers ms)

/-- The rest of an array after an item. -/
def moreItems : List Json → List Token
  | [] => [.endArray]
  | v :: vs => .comma :: (v.tokens ++ moreItems vs)

/-- The rest of an object after a member. -/
def moreMembers : List (List Char × Json) → List Token
  | [] => [.endObject]
  | (name, v) :: ms => .comma :: .string name :: .colon :: (v.tokens ++ moreMembers ms)

end

end Json

/-- An open bracket with what was read after it. -/
inductive Frame
  | array (items : List Json)
  | object (members : List (List Char × Json)) (name : List Char)

/-- What may come next. -/
inductive Expect
  | value
  /-- After the opening bracket of an array. -/
  | valueOrEnd
  /-- After the opening brace of an object. -/
  | nameOrEnd
  | name (members : List (List Char × Json))
  | colon (members : List (List Char × Json)) (name : List Char)
  /-- A value has ended. -/
  | more (v : Json)

structure Reader where
  frames : List Frame
  expect : Expect

/-- The first token of a value. -/
def Reader.beginValue (frames : List Frame) : Token → Option Reader
  | .null => some ⟨frames, .more .null⟩
  | .bool value => some ⟨frames, .more (.bool value)⟩
  | .number literal => some ⟨frames, .more (.number literal)⟩
  | .string value => some ⟨frames, .more (.string value)⟩
  | .beginArray => some ⟨.array [] :: frames, .valueOrEnd⟩
  | .beginObject => some ⟨frames, .nameOrEnd⟩
  | _ => none

/-- The token after a value. -/
def Reader.afterValue (v : Json) : List Frame → Token → Option Reader
  | .array items :: frames, .comma => some ⟨.array (items ++ [v]) :: frames, .value⟩
  | .array items :: frames, .endArray => some ⟨frames, .more (.array (items ++ [v]))⟩
  | .object members name :: frames, .comma => some ⟨frames, .name (members ++ [(name, v)])⟩
  | .object members name :: frames, .endObject =>
    some ⟨frames, .more (.object (members ++ [(name, v)]))⟩
  | _, _ => none

def Reader.step : Reader → Token → Option Reader
  | ⟨frames, .value⟩, t => beginValue frames t
  | ⟨frames, .valueOrEnd⟩, t =>
    match frames, t with
    | .array [] :: outer, .endArray => some ⟨outer, .more (.array [])⟩
    | _, _ => beginValue frames t
  | ⟨frames, .nameOrEnd⟩, .endObject => some ⟨frames, .more (.object [])⟩
  | ⟨frames, .nameOrEnd⟩, .string name => some ⟨frames, .colon [] name⟩
  | ⟨frames, .name members⟩, .string name => some ⟨frames, .colon members name⟩
  | ⟨frames, .colon members name⟩, .colon => some ⟨.object members name :: frames, .value⟩
  | ⟨frames, .more v⟩, t => afterValue v frames t
  | _, _ => none

/-- The value of a whole sequence of tokens. -/
def readTokens (ts : List Token) : Option Json :=
  match ts.foldlM Reader.step ⟨[], .value⟩ with
  | some ⟨[], .more v⟩ => some v
  | _ => none

namespace Reader

/-- A value may begin here. -/
def Ready (r : Reader) : Prop := r.expect = .value ∨ r.expect = .valueOrEnd

theorem Ready.step {r : Reader} (h : r.Ready) {t : Token} (ht : t ≠ .endArray) :
    r.step t = beginValue r.frames t := by
  obtain ⟨frames, expect⟩ := r
  rcases h with h | h
  · obtain rfl : expect = .value := h
    rfl
  · obtain rfl : expect = .valueOrEnd := h
    cases t with
    | endArray => exact absurd rfl ht
    | _ => rcases frames with _ | ⟨⟨_ | ⟨v, vs⟩⟩ | ⟨ms, name⟩, frames⟩ <;> rfl

variable {frames : List Frame} {rest : List Token}

/-- What reading the tokens of a value amounts to. -/
def Reads (v : Json) : Prop :=
  ∀ (r : Reader) (rest : List Token), r.Ready →
    (v.tokens ++ rest).foldlM step r = rest.foldlM step ⟨r.frames, .more v⟩

theorem reads_items {vs : List Json} (hvs : ∀ v ∈ vs, Reads v) (done : List Json) (v : Json) :
    (Json.moreItems vs ++ rest).foldlM step ⟨.array done :: frames, .more v⟩ =
      rest.foldlM step ⟨frames, .more (.array (done ++ v :: vs))⟩ := by
  induction vs generalizing done v with
  | nil => rfl
  | cons w ws ih =>
    obtain ⟨hw, hws⟩ := forall_mem_cons.mp hvs
    have hcomma : (Json.moreItems (w :: ws) ++ rest).foldlM step
        ⟨.array done :: frames, .more v⟩ = (w.tokens ++ (Json.moreItems ws ++ rest)).foldlM step
          ⟨.array (done ++ [v]) :: frames, .value⟩ := by
      rw [Json.moreItems, cons_append, append_assoc]
      rfl
    rw [hcomma, hw _ _ (Or.inl rfl), ih hws]
    simp

theorem reads_members {ms : List (List Char × Json)} (hms : ∀ m ∈ ms, Reads m.2)
    (done : List (List Char × Json)) (name : List Char) (v : Json) :
    (Json.moreMembers ms ++ rest).foldlM step ⟨.object done name :: frames, .more v⟩ =
      rest.foldlM step ⟨frames, .more (.object (done ++ (name, v) :: ms))⟩ := by
  induction ms generalizing done name v with
  | nil => rfl
  | cons m ms ih =>
    obtain ⟨name', w⟩ := m
    obtain ⟨hw, hws⟩ := forall_mem_cons.mp hms
    have hcomma : (Json.moreMembers ((name', w) :: ms) ++ rest).foldlM step
        ⟨.object done name :: frames, .more v⟩ =
          (w.tokens ++ (Json.moreMembers ms ++ rest)).foldlM step
            ⟨.object (done ++ [(name, v)]) name' :: frames, .value⟩ := by
      rw [Json.moreMembers, cons_append, cons_append, cons_append,
        append_assoc]
      rfl
    rw [hcomma, hw _ _ (Or.inl rfl), ih hws]
    simp

theorem reads (v : Json) : Reads v := by
  induction v using Json.inductOn with
  | null | bool | number | string =>
    intro r rest hr
    rw [Json.tokens, singleton_append, foldlM_cons, hr.step (by simp)]
    rfl
  | array items ih =>
    intro r rest hr
    cases items with
    | nil =>
      rw [Json.tokens, cons_append, foldlM_cons, hr.step (by simp)]
      rfl
    | cons v vs =>
      obtain ⟨hv, hvs⟩ := forall_mem_cons.mp ih
      rw [Json.tokens, cons_append, foldlM_cons, hr.step (by simp), append_assoc]
      exact (hv _ _ (Or.inr rfl)).trans (reads_items hvs [] v)
  | object members ih =>
    intro r rest hr
    cases members with
    | nil =>
      rw [Json.tokens, cons_append, foldlM_cons, hr.step (by simp)]
      rfl
    | cons m ms =>
      obtain ⟨name, v⟩ := m
      obtain ⟨hv, hms⟩ := forall_mem_cons.mp ih
      rw [Json.tokens, cons_append, foldlM_cons, hr.step (by simp)]
      have hread := hv ⟨.object [] name :: r.frames, .value⟩ (Json.moreMembers ms ++ rest)
        (Or.inl rfl)
      rw [← append_assoc] at hread
      exact hread.trans (by simpa using reads_members hms [] name v)

end Reader

theorem readTokens_tokens (v : Json) : readTokens v.tokens = some v := by
  have h := Reader.reads v ⟨[], .value⟩ [] (Or.inl rfl)
  rw [append_nil] at h
  rw [readTokens, h]
  rfl

end BuiltOnEnvoy.Foundations
