import BuiltOnEnvoy.Foundations.Fallible
import BuiltOnEnvoy.Foundations.GoMap
import BuiltOnEnvoy.Foundations.JsonText

/-!
# Decoding into Go values

How `encoding/json` stores a JSON value into an existing Go value. A member of
an object belongs to the field of its name, or else to the field whose name
differs from it in letter case only; a member without a field is skipped. A value
of the wrong type makes the whole decoding fail. `null` leaves a string or a
structure as it is. A name may come again, and is then decoded into what the
earlier member left.
-/

namespace BuiltOnEnvoy.Foundations

open List Option

/-- Store a value into a variable with the given content. -/
abbrev Decoder (σ : Type) := σ → Json → Option σ

structure JsonField (σ : Type) where
  name : String
  decode : Decoder σ

section

variable {σ α : Type}

/-- The field a member of an object belongs to. -/
def fieldOf (fields : List (JsonField σ)) (name : List Char) : Option (JsonField σ) :=
  (fields.find? fun f => f.name.toList = name).or
    (fields.find? fun f => equalFold f.name (String.ofList name))

def decodeMember (fields : List (JsonField σ)) (s : σ) (m : List Char × Json) : Option σ :=
  match fieldOf fields m.1 with
  | none => some s
  | some f => f.decode s m.2

def decodeStruct (fields : List (JsonField σ)) : Decoder σ
  | s, .null => some s
  | s, .object members => members.foldlM (decodeMember fields) s
  | _, _ => none

def decodeString : Decoder String
  | s, .null => some s
  | _, .string value => some (String.ofList value)
  | _, _ => none

def decodeBool : Decoder Bool
  | b, .null => some b
  | _, .bool value => some value
  | _, _ => none

/-- A pointer: `null` resets it, and another value is stored behind it. -/
def decodePointer (zero : α) (elem : Decoder α) : Decoder (Option α)
  | _, .null => some none
  | old, v => (elem (old.getD zero) v).map some

/-- A slice: the elements in its memory, of which the first ones belong to it. -/
structure Slice (α : Type) where
  memory : List α
  length : ℕ

def Slice.nil : Slice α := ⟨[], 0⟩

def Slice.toList (s : Slice α) : List α := s.memory.take s.length

/-- The items of an array, each stored into what is left in the memory at its place. -/
def decodeItems (zero : α) (elem : Decoder α) : List α → List Json → Option (List α)
  | memory, [] => some memory
  | [], v :: vs =>
    match elem zero v with
    | none => none
    | some a => (decodeItems zero elem [] vs).map (a :: ·)
  | old :: memory, v :: vs =>
    match elem old v with
    | none => none
    | some a => (decodeItems zero elem memory vs).map (a :: ·)

def decodeSlice (zero : α) (elem : Decoder α) : Decoder (Slice α)
  | _, .null => some .nil
  | _, .array [] => some .nil
  | s, .array items => (decodeItems zero elem s.memory items).map (⟨·, items.length⟩)
  | _, _ => none

section

variable {κ : Type} [DecidableEq κ]

/-- A member of an object that goes into a map. Its value is decoded into a new element. -/
def decodeEntry (key : List Char → κ) (zero : α) (elem : Decoder α) (m : GoMap κ α)
    (e : List Char × Json) : Option (GoMap κ α) :=
  (elem zero e.2).map (m.set (key e.1))

/-- A map: `null` resets it, and an object adds its members. -/
def decodeMap (key : List Char → κ) (zero : α) (elem : Decoder α) : Decoder (GoMap κ α)
  | _, .null => some .empty
  | m, .object members => members.foldlM (decodeEntry key zero elem) m
  | _, _ => none

end

/-- A field of a structure, by its value and how it is set. -/
def jsonField (name : String) (get : σ → α) (set : σ → α → σ) (decode : Decoder α) :
    JsonField σ where
  name := name
  decode s v := (decode (get s) v).map (set s)

variable {fields : List (JsonField σ)}

theorem mem_of_fieldOf {name : List Char} {f : JsonField σ} (h : fieldOf fields name = some f) :
    f ∈ fields := by
  rcases or_eq_some_iff.mp h with hf | ⟨-, hf⟩
  · exact mem_of_find?_eq_some hf
  · exact mem_of_find?_eq_some hf

variable {zero : α} {elem : Decoder α}

theorem decodeMember_jsonField {name : List Char} {field : String} {get : σ → α} {set : σ → α → σ}
    {decode : Decoder α} (h : fieldOf fields name = some (jsonField field get set decode)) (s : σ)
    (v : Json) :
    decodeMember fields s (name, v) = (decode (get s) v).map (set s) := by
  simp only [decodeMember, h, jsonField]

theorem foldlM_singleton (fields : List (JsonField σ)) (s : σ) (m : List Char × Json) :
    [m].foldlM (decodeMember fields) s = decodeMember fields s m := by
  simp

/-- `json.Unmarshal` into a variable with the given content. -/
def unmarshal (decode : Decoder σ) (s : σ) (text : Bytes) : Option σ :=
  (Json.parse text).bind (decode s)

/-- A raw message takes every value. -/
def decodeRaw : Decoder Bytes := fun _ v => some v.marshal

/-- The name of the member is the name of the field up to letter case. -/
def hasName (name : String) (m : List Char × Json) : Bool := equalFold name (String.ofList m.1)

theorem equalFold_iff {text other : String} :
    equalFold text other = true ↔
      text.toList.map foldLetter = other.toList.map foldLetter := by
  simp [equalFold]

theorem hasName_of_fieldOf {f : JsonField σ} {m : List Char × Json}
    (h : fieldOf fields m.1 = some f) : hasName f.name m = true := by
  rcases or_eq_some_iff.mp h with hexact | ⟨-, hfold⟩
  · have hname : f.name.toList = m.1 := by simpa using find?_some hexact
    simp [hasName, ← hname, equalFold]
  · simpa [hasName] using find?_some hfold

theorem fieldOf_eq_some_iff {fields : List (JsonField σ)} {f : JsonField σ}
    (honly : fields.filter (fun g => equalFold f.name g.name) = [f]) (m : List Char × Json) :
    fieldOf fields m.1 = some f ↔ hasName f.name m = true := by
  have hunique : ∀ g ∈ fields, equalFold f.name g.name = true → g = f := by
    intro g hg hname
    have hmem : g ∈ fields.filter fun g => equalFold f.name g.name :=
      mem_filter.mpr ⟨hg, hname⟩
    rw [honly] at hmem
    exact mem_singleton.mp hmem
  have hf : f ∈ fields := by
    have hmem : f ∈ fields.filter fun g => equalFold f.name g.name := by simp [honly]
    exact mem_of_mem_filter hmem
  refine ⟨hasName_of_fieldOf, fun h => ?_⟩
  have hfound : ∀ g ∈ fields, hasName g.name m = true → g = f := by
    intro g hg hname
    refine hunique g hg ?_
    rw [hasName, equalFold_iff] at h hname
    rw [equalFold_iff, h, hname]
  rw [fieldOf]
  cases hexact : fields.find? fun g => g.name.toList = m.1 with
  | some g =>
    have hname : g.name.toList = m.1 := by simpa using find?_some hexact
    have hg : hasName g.name m = true := by simp [hasName, ← hname, equalFold]
    rw [hfound g (mem_of_find?_eq_some hexact) hg]
    rfl
  | none =>
    cases hfold : fields.find? fun g => equalFold g.name (String.ofList m.1) with
    | none => exact absurd h (by simpa [hasName] using find?_eq_none.mp hfold f hf)
    | some g =>
      have hg : hasName g.name m = true := by simpa [hasName] using find?_some hfold
      rw [hfound g (mem_of_find?_eq_some hfold) hg]
      rfl

/-- The value is stored, whatever the variable holds. -/
def Decoder.Takes (d : Decoder σ) (v : Json) : Prop := ∀ s, ∃ s', d s v = some s'

theorem decodeRaw_takes (v : Json) : Decoder.Takes decodeRaw v := fun _ => ⟨v.marshal, rfl⟩

theorem jsonField_takes {name : String} {get : σ → α} {set : σ → α → σ} {decode : Decoder α}
    {v : Json} (h : Decoder.Takes decode v) :
    Decoder.Takes (jsonField name get set decode).decode v := by
  intro s
  obtain ⟨a, ha⟩ := h (get s)
  exact ⟨set s a, by simp only [jsonField, ha, map_some]⟩

theorem decodeMember_takes {m : List Char × Json}
    (h : ∀ f ∈ fields, hasName f.name m = true → Decoder.Takes f.decode m.2) (s : σ) :
    ∃ s', decodeMember fields s m = some s' := by
  unfold decodeMember
  cases hfield : fieldOf fields m.1 with
  | none => exact ⟨s, rfl⟩
  | some f => exact h f (mem_of_fieldOf hfield) (hasName_of_fieldOf hfield) s

theorem decodeStruct_takes {members : List (List Char × Json)}
    (h : ∀ m ∈ members, ∀ f ∈ fields, hasName f.name m = true → Decoder.Takes f.decode m.2) :
    Decoder.Takes (decodeStruct fields) (.object members) := by
  intro s
  change ∃ s', members.foldlM (decodeMember fields) s = some s'
  induction members generalizing s with
  | nil => exact ⟨s, rfl⟩
  | cons m members ih =>
    obtain ⟨hm, hmembers⟩ := forall_mem_cons.mp h
    obtain ⟨next, hnext⟩ := decodeMember_takes hm s
    rw [foldlM_cons, hnext]
    exact ih hmembers next

theorem decodeItems_takes (zero : α) {items : List Json} (h : ∀ v ∈ items, Decoder.Takes elem v)
    (memory : List α) : ∃ memory', decodeItems zero elem memory items = some memory' := by
  induction items generalizing memory with
  | nil => exact ⟨memory, by cases memory <;> rfl⟩
  | cons v vs ih =>
    obtain ⟨hv, hvs⟩ := forall_mem_cons.mp h
    cases memory with
    | nil =>
      obtain ⟨a, ha⟩ := hv zero
      obtain ⟨rest, hrest⟩ := ih hvs []
      exact ⟨a :: rest, by simp only [decodeItems, ha, hrest, map_some]⟩
    | cons old memory =>
      obtain ⟨a, ha⟩ := hv old
      obtain ⟨rest, hrest⟩ := ih hvs memory
      exact ⟨a :: rest, by simp only [decodeItems, ha, hrest, map_some]⟩

theorem decodeSlice_takes {items : List Json} (h : ∀ v ∈ items, Decoder.Takes elem v) :
    Decoder.Takes (decodeSlice zero elem) (.array items) := by
  intro s
  cases items with
  | nil => exact ⟨.nil, rfl⟩
  | cons v vs =>
    obtain ⟨memory, hmemory⟩ := decodeItems_takes zero h s.memory
    exact ⟨⟨memory, (v :: vs).length⟩, by simp only [decodeSlice, hmemory, map_some]⟩

/-- The other fields do not touch the content of this one. -/
def FieldApart (fields : List (JsonField σ)) (name : String) (get : σ → α) : Prop :=
  ∀ g ∈ fields, equalFold name g.name = false → ∀ s v s', g.decode s v = some s' → get s' = get s

theorem FieldApart.nil {name : String} {get : σ → α} : FieldApart [] name get :=
  fun _ hg => absurd hg not_mem_nil

/-- A further field has this name itself, or its setter leaves the content alone. -/
theorem FieldApart.cons {β : Type} {fields : List (JsonField σ)} {name field : String}
    {get : σ → α} {getField : σ → β} {set : σ → β → σ} {decode : Decoder β}
    (hfield : equalFold name field = true ∨ ∀ s b, get (set s b) = get s)
    (hrest : FieldApart fields name get) :
    FieldApart (jsonField field getField set decode :: fields) name get := by
  intro g hg hname s v s' hdecode
  rcases mem_cons.mp hg with rfl | hg
  · obtain ⟨b, -, rfl⟩ := map_eq_some_iff.mp hdecode
    rcases hfield with hsame | hkeep
    · change equalFold name field = false at hname
      rw [hsame] at hname
      cases hname
    · exact hkeep s b
  · exact hrest g hg hname s v s' hdecode

/-- What a field holds is decoded from the members with its name alone. -/
def ReadsField (fields : List (JsonField σ)) (name : String) (get : σ → α) (decode : Decoder α) :
    Prop :=
  ∀ (members : List (List Char × Json)) (s s' : σ),
    members.foldlM (decodeMember fields) s = some s' →
      ((members.filter (hasName name)).map (·.2)).foldlM decode (get s) = some (get s')

theorem FieldApart.readsField {fields : List (JsonField σ)} {name : String} {get : σ → α}
    {set : σ → α → σ} {decode : Decoder α}
    (honly : fields.filter (fun g => equalFold name g.name) = [jsonField name get set decode])
    (hset : ∀ s a, get (set s a) = a) (hapart : FieldApart fields name get) :
    ReadsField fields name get decode := by
  intro members s s' h
  induction members generalizing s with
  | nil =>
    cases h
    rfl
  | cons m members ih =>
    rw [foldlM_cons, bind_eq_bind, bind_eq_some_iff] at h
    obtain ⟨next, hnext, h⟩ := h
    have hfield := @fieldOf_eq_some_iff σ fields (jsonField name get set decode) honly m
    by_cases hm : hasName name m = true
    · rw [decodeMember, hfield.mpr hm] at hnext
      obtain ⟨a, ha, rfl⟩ := map_eq_some_iff.mp hnext
      have hrest := ih _ h
      rw [hset] at hrest
      rw [filter_cons_of_pos hm, map_cons, foldlM_cons, ha]
      exact hrest
    · have hkept : get next = get s := by
        unfold decodeMember at hnext
        cases hother : fieldOf fields m.1 with
        | none =>
          simp only [hother, Option.some.injEq] at hnext
          rw [hnext]
        | some g =>
          simp only [hother] at hnext
          have hg := mem_of_fieldOf hother
          refine hapart g hg ?_ s m.2 next hnext
          rw [Bool.eq_false_iff]
          intro hname
          have hmem : g ∈ fields.filter fun g => equalFold name g.name :=
            mem_filter.mpr ⟨hg, hname⟩
          rw [honly] at hmem
          rw [mem_singleton.mp hmem] at hother
          exact hm (hfield.mp hother)
      rw [filter_cons_of_neg hm, ← hkept]
      exact ih next h

/-- Every value of at most this depth is stored so that the property holds again. -/
def Decoder.Keeps (d : Decoder σ) (depth : ℕ) (P : σ → Prop) : Prop :=
  ∀ s v s', P s → v.depth ≤ depth → d s v = some s' → P s'

theorem Decoder.keeps_true (d : Decoder σ) (depth : ℕ) : d.Keeps depth fun _ => True :=
  fun _ _ _ _ _ _ => trivial

variable {depth : ℕ}

theorem foldlM_keeps {d : Decoder σ} {P : σ → Prop} (hd : Decoder.Keeps d depth P)
    {vs : List Json} (hvs : ∀ v ∈ vs, v.depth ≤ depth) {s s' : σ} (hs : P s)
    (h : vs.foldlM d s = some s') : P s' := by
  induction vs generalizing s with
  | nil =>
    cases h
    exact hs
  | cons v vs ih =>
    obtain ⟨hv, hvs⟩ := forall_mem_cons.mp hvs
    rw [foldlM_cons, bind_eq_bind, bind_eq_some_iff] at h
    obtain ⟨next, hnext, h⟩ := h
    exact ih hvs (hd s v next hs hv hnext) h

theorem foldlM_decodeMember_keeps {P : σ → Prop}
    (hfields : ∀ f ∈ fields, Decoder.Keeps f.decode depth P) {members : List (List Char × Json)}
    (hmembers : ∀ m ∈ members, m.2.depth ≤ depth) {s s' : σ} (hs : P s)
    (h : members.foldlM (decodeMember fields) s = some s') : P s' := by
  induction members generalizing s with
  | nil =>
    cases h
    exact hs
  | cons m members ih =>
    obtain ⟨hm, hmembers⟩ := forall_mem_cons.mp hmembers
    rw [foldlM_cons, bind_eq_bind, bind_eq_some_iff] at h
    obtain ⟨next, hnext, h⟩ := h
    refine ih hmembers ?_ h
    unfold decodeMember at hnext
    cases hfield : fieldOf fields m.1 with
    | none =>
      simp only [hfield, Option.some.injEq] at hnext
      exact hnext ▸ hs
    | some f =>
      simp only [hfield] at hnext
      exact hfields f (mem_of_fieldOf hfield) s m.2 next hs hm hnext

theorem decodeStruct_keeps {P : σ → Prop} (hfields : ∀ f ∈ fields, Decoder.Keeps f.decode depth P) :
    Decoder.Keeps (decodeStruct fields) (depth + 1) P := by
  intro s v s' hs hdepth h
  cases v with
  | null =>
    cases h
    exact hs
  | object members =>
    have hmembers : ∀ m ∈ members, m.2.depth ≤ depth := by
      rw [Json.depth] at hdepth
      exact Json.depthMembers_le.mp (by omega)
    exact foldlM_decodeMember_keeps hfields hmembers hs h
  | _ => cases h

theorem decodeItems_keeps {P : α → Prop} (hzero : P zero) (helem : Decoder.Keeps elem depth P)
    {memory memory' : List α} {items : List Json} (hmemory : ∀ a ∈ memory, P a)
    (hitems : ∀ v ∈ items, v.depth ≤ depth)
    (h : decodeItems zero elem memory items = some memory') : ∀ a ∈ memory', P a := by
  fun_induction decodeItems zero elem memory items generalizing memory' with
  | case1 memory =>
    cases h
    exact hmemory
  | case2 v vs hnone => cases h
  | case3 v vs a ha ih =>
    obtain ⟨hv, hvs⟩ := forall_mem_cons.mp hitems
    obtain ⟨rest, hrest, rfl⟩ := map_eq_some_iff.mp h
    exact forall_mem_cons.mpr ⟨helem _ _ _ hzero hv ha, ih (by simp) hvs hrest⟩
  | case4 old memory v vs hnone => cases h
  | case5 old memory v vs a ha ih =>
    obtain ⟨hv, hvs⟩ := forall_mem_cons.mp hitems
    obtain ⟨hold, hmemory⟩ := forall_mem_cons.mp hmemory
    obtain ⟨rest, hrest, rfl⟩ := map_eq_some_iff.mp h
    exact forall_mem_cons.mpr ⟨helem _ _ _ hold hv ha, ih hmemory hvs hrest⟩

theorem decodeSlice_keeps {P : α → Prop} (hzero : P zero) (helem : Decoder.Keeps elem depth P) :
    Decoder.Keeps (decodeSlice zero elem) (depth + 1) fun s => ∀ a ∈ s.memory, P a := by
  intro s v s' hs hdepth h
  cases v with
  | null =>
    cases h
    simp [Slice.nil]
  | array items =>
    cases items with
    | nil =>
      cases h
      simp [Slice.nil]
    | cons v vs =>
      have hitems : ∀ w ∈ v :: vs, w.depth ≤ depth := by
        rw [Json.depth] at hdepth
        exact Json.depthItems_le.mp (by omega)
      obtain ⟨memory, hmemory, rfl⟩ := map_eq_some_iff.mp h
      exact decodeItems_keeps hzero helem hs hitems hmemory
  | _ => cases h

theorem jsonField_keeps {name : String} {get : σ → α} {set : σ → α → σ} {decode : Decoder α}
    {P : σ → Prop} {Q : α → Prop} (hdecode : Decoder.Keeps decode depth Q)
    (hget : ∀ s, P s → Q (get s)) (hset : ∀ s a, P s → Q a → P (set s a)) :
    Decoder.Keeps (jsonField name get set decode).decode depth P := by
  intro s v s' hs hdepth h
  obtain ⟨a, ha, rfl⟩ := map_eq_some_iff.mp h
  exact hset s a hs (hdecode _ _ _ (hget s hs) hdepth ha)

theorem decodeItems_nil (items : List Json) :
    decodeItems zero elem [] items = items.mapM (elem zero) := by
  induction items with
  | nil => rfl
  | cons v vs ih =>
    rw [decodeItems, mapM_cons, ih]
    cases elem zero v with
    | none => rfl
    | some a => cases vs.mapM (elem zero) <;> rfl

variable {f : α → Option σ} {l : List α} {l' : List σ}

theorem forall₂_of_mapM (h : l.mapM f = some l') :
    List.Forall₂ (fun a b => f a = some b) l l' := by
  induction l generalizing l' with
  | nil =>
    cases h
    exact .nil
  | cons a l ih =>
    rw [mapM_cons, bind_eq_bind, bind_eq_some_iff] at h
    obtain ⟨b, hb, h⟩ := h
    rw [bind_eq_bind, bind_eq_some_iff] at h
    obtain ⟨bs, hbs, h⟩ := h
    cases h
    exact .cons hb (ih hbs)

theorem mapM_of_forall₂ (h : List.Forall₂ (fun a b => f a = some b) l l') : l.mapM f = some l' := by
  induction h with
  | nil => rfl
  | cons hb _ ih =>
    rw [mapM_cons, hb, ih]
    rfl

theorem toList_decodeSlice_nil {items : List Json} {as : List α}
    (h : items.mapM (elem zero) = some as) :
    (decodeSlice zero elem .nil (.array items)).map Slice.toList = some as := by
  cases items with
  | nil =>
    cases h
    rfl
  | cons v vs =>
    have hlength := (forall₂_of_mapM h).length_eq
    have hdecode : decodeSlice zero elem .nil (.array (v :: vs)) =
        (decodeItems zero elem [] (v :: vs)).map (⟨·, (v :: vs).length⟩) := rfl
    rw [hdecode, decodeItems_nil, h, map_some, map_some, Slice.toList, hlength,
      take_length]

theorem mapM_of_decodeSlice_nil {items : List Json} {s : Slice α}
    (h : decodeSlice zero elem .nil (.array items) = some s) :
    items.mapM (elem zero) = some s.toList := by
  cases items with
  | nil =>
    cases h
    rfl
  | cons v vs =>
    obtain ⟨memory, hmemory, rfl⟩ := map_eq_some_iff.mp h
    change decodeItems zero elem [] (v :: vs) = some memory at hmemory
    rw [decodeItems_nil] at hmemory
    have hlength := (forall₂_of_mapM hmemory).length_eq
    rw [hmemory, Slice.toList, hlength, take_length]

theorem foldlM_decodeEntry {κ : Type} [DecidableEq κ] {key : List Char → κ} {zero : α}
    {elem : Decoder α} (member : κ × α → List Char × Json) {es : List (κ × α)}
    (hmember : ∀ e ∈ es, key (member e).1 = e.1 ∧ elem zero (member e).2 = some e.2)
    {m : GoMap κ α} (hnodup : ((m.entries ++ es).map Prod.fst).Nodup) :
    ∃ m', (es.map member).foldlM (decodeEntry key zero elem) m = some m' ∧
      m'.entries = m.entries ++ es := by
  induction es generalizing m with
  | nil => exact ⟨m, rfl, (append_nil _).symm⟩
  | cons e es ih =>
    obtain ⟨⟨hkey, helem⟩, hrest⟩ := forall_mem_cons.mp hmember
    have hnew : e.1 ∉ m.entries.map Prod.fst := by
      rw [map_append, nodup_append] at hnodup
      intro hmem
      exact hnodup.2.2 _ hmem _ mem_cons_self rfl
    have hset : (m.set e.1 e.2).entries = m.entries ++ [e] := GoMap.entries_set_of_notMem _ hnew
    have happend : (m.set e.1 e.2).entries ++ es = m.entries ++ e :: es := by
      rw [hset, append_assoc, singleton_append]
    obtain ⟨m', hm', hentries⟩ := @ih hrest (m.set e.1 e.2) (by rwa [happend])
    refine ⟨m', ?_, by rw [hentries, happend]⟩
    rw [map_cons, foldlM_cons, decodeEntry, helem, hkey]
    exact hm'

end

end BuiltOnEnvoy.Foundations
