import Mathlib.Tactic

/-!
# Steps that may fail

A sequence of steps succeeds when each of them does. A loop over a list keeps
the result of every iteration and ends with the first failure.
-/

namespace BuiltOnEnvoy.Foundations

open List

variable {ε α β : Type}

variable {x : Except ε α}

theorem bind_eq_ok {f : α → Except ε β} {b : β} (h : x >>= f = .ok b) :
    ∃ a, x = .ok a ∧ f a = .ok b := by
  cases x with
  | error e => cases h
  | ok a => exact ⟨a, rfl, h⟩

theorem mapError_eq_ok {ε' : Type} {f : ε → ε'} {a : α} :
    x.mapError f = .ok a ↔ x = .ok a := by
  cases x <;> simp [Except.mapError]

theorem toOption_eq_some_iff {a : α} : x.toOption = some a ↔ x = .ok a := by
  cases x <;> simp [Except.toOption]

theorem exists_eq_ok (h : x.toOption.isSome) : ∃ a, x = .ok a := by
  obtain ⟨a, ha⟩ := Option.isSome_iff_exists.mp h
  exact ⟨a, toOption_eq_some_iff.mp ha⟩

variable {l : List α} {bs : List β}

theorem mapM_map_eq_some {f : α → β} {g : β → Option α} (h : ∀ a ∈ l, g (f a) = some a) :
    (l.map f).mapM g = some l := by
  induction l with
  | nil => rfl
  | cons a l ih =>
    obtain ⟨ha, hl⟩ := forall_mem_cons.mp h
    rw [map_cons, mapM_cons, ha, ih hl]
    rfl

theorem exists_left_of_forall₂ {R : α → β → Prop} (h : List.Forall₂ R l bs) {b : β}
    (hb : b ∈ bs) : ∃ a ∈ l, R a b := by
  induction h with
  | nil => cases hb
  | cons hab _ ih =>
    rcases mem_cons.mp hb with rfl | hb
    · exact ⟨_, mem_cons_self, hab⟩
    · obtain ⟨a, ha, hR⟩ := ih hb
      exact ⟨a, mem_cons_of_mem _ ha, hR⟩

theorem exists_right_of_forall₂ {R : α → β → Prop} (h : List.Forall₂ R l bs) {a : α}
    (ha : a ∈ l) : ∃ b ∈ bs, R a b := by
  have hflip : List.Forall₂ (flip R) bs l := h.flip
  exact exists_left_of_forall₂ hflip ha

theorem mapM_map {γ : Type} {f : α → Except ε β} {f' : α → Except ε γ} {g : β → γ}
    (h : ∀ a ∈ l, f' a = (f a).map g) : l.mapM f' = (l.mapM f).map (List.map g) := by
  induction l with
  | nil => rfl
  | cons a l ih =>
    obtain ⟨ha, hl⟩ := forall_mem_cons.mp h
    rw [mapM_cons, mapM_cons, ha, ih hl]
    cases f a with
    | error e => rfl
    | ok b => cases l.mapM f <;> rfl

theorem mapM_eq_ok_iff {f : α → Except ε β} :
    l.mapM f = .ok bs ↔ List.Forall₂ (fun a b => f a = .ok b) l bs := by
  induction l generalizing bs with
  | nil =>
    rw [mapM_nil, forall₂_nil_left_iff]
    exact ⟨fun h => (Except.ok.inj h).symm, fun h => h ▸ rfl⟩
  | cons a l ih =>
    rw [mapM_cons, forall₂_cons_left_iff]
    constructor
    · intro h
      obtain ⟨b, hb, h⟩ := bind_eq_ok h
      obtain ⟨rest, hrest, h⟩ := bind_eq_ok h
      cases h
      exact ⟨b, rest, hb, ih.mp hrest, rfl⟩
    · rintro ⟨b, rest, hb, hrest, rfl⟩
      rw [hb, ih.mpr hrest]
      rfl

theorem mem_results_iff {f : α → Except ε β} (h : List.Forall₂ (fun a b => f a = .ok b) l bs)
    {b : β} :
    b ∈ bs ↔ ∃ a ∈ l, f a = .ok b := by
  refine ⟨exists_left_of_forall₂ h, ?_⟩
  rintro ⟨a, ha, hab⟩
  obtain ⟨b', hb', hab'⟩ := exists_right_of_forall₂ h ha
  rwa [Except.ok.inj (hab.symm.trans hab')]

/-- The results for the elements of a list, the first of which has the given index. -/
def collectFrom (f : ℕ → α → Except ε β) : ℕ → List α → Except ε (List β)
  | _, [] => .ok []
  | i, a :: rest => do
    let b ← f i a
    let more ← collectFrom f (i + 1) rest
    return b :: more

def collect (f : ℕ → α → Except ε β) (l : List α) : Except ε (List β) :=
  collectFrom f 0 l

variable {f : ℕ → α → Except ε β}

theorem collectFrom_cons {i : ℕ} {a : α} {rest : List α}
    (h : collectFrom f i (a :: rest) = .ok bs) :
    ∃ b more, f i a = .ok b ∧ collectFrom f (i + 1) rest = .ok more ∧ bs = b :: more := by
  obtain ⟨b, hb, h⟩ := bind_eq_ok h
  obtain ⟨more, hmore, h⟩ := bind_eq_ok h
  cases h
  exact ⟨b, more, hb, hmore, rfl⟩

/-- Every element has its result in the list of results, at its own place. -/
theorem collectFrom_getElem? {i : ℕ} (h : collectFrom f i l = .ok bs) (j : ℕ) :
    (l[j]? = none ∧ bs[j]? = none) ∨
      ∃ a b, l[j]? = some a ∧ bs[j]? = some b ∧ f (i + j) a = .ok b := by
  induction l generalizing i bs j with
  | nil =>
    cases h
    exact .inl ⟨rfl, rfl⟩
  | cons a rest ih =>
    obtain ⟨b, more, hb, hmore, rfl⟩ := collectFrom_cons h
    cases j with
    | zero => exact .inr ⟨a, b, rfl, rfl, hb⟩
    | succ j =>
      rw [show i + (j + 1) = i + 1 + j by omega]
      exact ih hmore j

theorem mem_collect (h : collect f l = .ok bs) {b : β} :
    b ∈ bs ↔ ∃ j a, l[j]? = some a ∧ f j a = .ok b := by
  constructor
  · intro hmem
    obtain ⟨j, hj⟩ := mem_iff_getElem?.mp hmem
    rcases collectFrom_getElem? h j with ⟨-, hnone⟩ | ⟨a, b', ha, hb', hf⟩
    · rw [hnone] at hj
      cases hj
    · rw [hb', Option.some.injEq] at hj
      rw [Nat.zero_add, hj] at hf
      exact ⟨j, a, ha, hf⟩
  · rintro ⟨j, a, ha, hf⟩
    rcases collectFrom_getElem? h j with ⟨hnone, -⟩ | ⟨a', b', ha', hb', hf'⟩
    · rw [hnone] at ha
      cases ha
    · grind

theorem collect_defined (h : collect f l = .ok bs) {j : ℕ} {a : α} (ha : l[j]? = some a) :
    ∃ b, f j a = .ok b := by
  rcases collectFrom_getElem? h j with ⟨hnone, -⟩ | ⟨a', b, ha', -, hf⟩
  · rw [hnone] at ha
    cases ha
  · rw [ha', Option.some.injEq] at ha
    rw [Nat.zero_add, ha] at hf
    exact ⟨b, hf⟩

end BuiltOnEnvoy.Foundations
