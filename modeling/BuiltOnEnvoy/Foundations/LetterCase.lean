import Mathlib

attribute [local simp] UInt32.le_iff_toNat_le

/-!
# The case of ASCII letters

Texts that differ only in the case of their letters, and the text with every
letter in the other case.
-/

namespace BuiltOnEnvoy.Foundations

open List

/-- The same text up to the case of ASCII letters. -/
def SameUpToCase (text other : List Char) : Prop :=
  text.map Char.toLower = other.map Char.toLower

def LetterFree (text : List Char) : Prop :=
  ∀ c ∈ text, c.isAlpha = false

instance (text other : List Char) : Decidable (SameUpToCase text other) :=
  inferInstanceAs (Decidable (text.map Char.toLower = other.map Char.toLower))

instance (text : List Char) : Decidable (LetterFree text) :=
  List.decidableBAll _ text

def swapCase (c : Char) : Char :=
  if c.isUpper then c.toLower else c.toUpper

section

variable {c x : Char}

theorem isUpper_iff : c.isUpper = true ↔ 65 ≤ c.toNat ∧ c.toNat ≤ 90 := by
  simp [Char.isUpper]

theorem isLower_iff : c.isLower = true ↔ 97 ≤ c.toNat ∧ c.toNat ≤ 122 := by
  simp [Char.isLower]

theorem isDigit_iff : c.isDigit = true ↔ 48 ≤ c.toNat ∧ c.toNat ≤ 57 := by
  simp [Char.isDigit]

theorem isAlpha_eq_false_iff :
    c.isAlpha = false ↔ ¬(65 ≤ c.toNat ∧ c.toNat ≤ 90) ∧ ¬(97 ≤ c.toNat ∧ c.toNat ≤ 122) := by
  rw [Char.isAlpha, Bool.or_eq_false_iff, ← isUpper_iff, ← isLower_iff, Bool.not_eq_true,
    Bool.not_eq_true]

theorem toNat_toLower (c : Char) :
    c.toLower.toNat = if 65 ≤ c.toNat ∧ c.toNat ≤ 90 then c.toNat + 32 else c.toNat := by
  have hval : (c.val ≥ 'A'.val ∧ c.val ≤ 'Z'.val) ↔ 65 ≤ c.toNat ∧ c.toNat ≤ 90 := by
    simp
  by_cases hcode : 65 ≤ c.toNat ∧ c.toNat ≤ 90
  · rw [if_pos hcode, Char.toLower, dif_pos (hval.mpr hcode)]
    change (c.toNat + 32) % 2 ^ 32 = c.toNat + 32
    omega
  · rw [if_neg hcode, Char.toLower, dif_neg (hval.not.mpr hcode)]

theorem toNat_toUpper (c : Char) :
    c.toUpper.toNat = if 97 ≤ c.toNat ∧ c.toNat ≤ 122 then c.toNat - 32 else c.toNat := by
  have hval : ('a'.val ≤ c.val ∧ c.val ≤ 'z'.val) ↔ 97 ≤ c.toNat ∧ c.toNat ≤ 122 := by
    simp
  by_cases hcode : 97 ≤ c.toNat ∧ c.toNat ≤ 122
  · rw [if_pos hcode, Char.toUpper, dif_pos (hval.mpr hcode)]
    have hdown : ('A'.val - 'a'.val).toNat = 2 ^ 32 - 32 := by decide
    change (c.val + ('A'.val - 'a'.val)).toNat = c.toNat - 32
    rw [UInt32.toNat_add, hdown, Char.toNat_val]
    omega
  · rw [if_neg hcode, Char.toUpper, dif_neg (hval.not.mpr hcode)]

theorem toNat_swapCase (c : Char) :
    (swapCase c).toNat =
      if 65 ≤ c.toNat ∧ c.toNat ≤ 90 then c.toNat + 32
      else if 97 ≤ c.toNat ∧ c.toNat ≤ 122 then c.toNat - 32
      else c.toNat := by
  simp only [swapCase, isUpper_iff]
  split_ifs with hupper hlower <;> simp [toNat_toLower, toNat_toUpper, *]

theorem toLower_eq_iff (hx : x.isAlpha = false) : c.toLower = x ↔ c = x := by
  rw [isAlpha_eq_false_iff] at hx
  rw [← Char.toNat_inj, ← Char.toNat_inj, toNat_toLower]
  split_ifs <;> omega

theorem toLower_toLower (c : Char) : c.toLower.toLower = c.toLower := by
  rw [← Char.toNat_inj, toNat_toLower, toNat_toLower]
  split_ifs <;> omega

theorem toLower_swapCase (c : Char) : (swapCase c).toLower = c.toLower := by
  rw [← Char.toNat_inj, toNat_toLower, toNat_toLower, toNat_swapCase]
  split_ifs <;> omega

theorem swapCase_eq_self_iff : swapCase c = c ↔ c.isAlpha = false := by
  rw [isAlpha_eq_false_iff, ← Char.toNat_inj, toNat_swapCase]
  split_ifs <;> omega

theorem swapCase_eq_iff (hx : x.isAlpha = false) : swapCase c = x ↔ c = x := by
  rw [isAlpha_eq_false_iff] at hx
  rw [← Char.toNat_inj, ← Char.toNat_inj, toNat_swapCase]
  split_ifs <;> omega

end

section

variable {text other : List Char}

theorem SameUpToCase.eq_of_letterFree (h : SameUpToCase text other) (hfree : LetterFree text) :
    other = text := by
  unfold SameUpToCase at h
  induction text generalizing other with
  | nil => simpa using h.symm
  | cons c text ih =>
    cases other with
    | nil => simp at h
    | cons c' other =>
      rw [map_cons, map_cons, List.cons.injEq] at h
      have hc : c.isAlpha = false := hfree c mem_cons_self
      have hlower : c.toLower = c := (toLower_eq_iff hc).mpr rfl
      have hhead : c' = c := (toLower_eq_iff hc).mp (h.1.symm.trans hlower)
      rw [hhead, ih h.2 fun x hx => hfree x (mem_cons_of_mem c hx)]

theorem SameUpToCase.append_left {front rear : List Char} (h : SameUpToCase (front ++ rear) other) :
    ∃ front' rear', other = front' ++ rear' ∧ SameUpToCase front front' ∧
      SameUpToCase rear rear' := by
  unfold SameUpToCase at h
  rw [map_append] at h
  obtain ⟨front', rear', hother, hfront, hrear⟩ := map_eq_append_iff.mp h.symm
  exact ⟨front', rear', hother, hfront.symm, hrear.symm⟩

theorem SameUpToCase.mem_iff (h : SameUpToCase text other) {x : Char} (hx : x.isAlpha = false) :
    x ∈ text ↔ x ∈ other := by
  have hmap : ∀ l : List Char, x ∈ l ↔ x ∈ l.map Char.toLower := by
    intro l
    simp only [List.mem_map, toLower_eq_iff hx, exists_eq_right]
  rw [hmap text, hmap other, h]

theorem SameUpToCase.rdropWhile (h : SameUpToCase text other) {x : Char}
    (hx : x.isAlpha = false) :
    SameUpToCase (text.rdropWhile (· == x)) (other.rdropWhile (· == x)) := by
  have hmap : ∀ l : List Char, (l.rdropWhile (· == x)).map Char.toLower =
      (l.map Char.toLower).rdropWhile (· == x) := by
    intro l
    have hsame : ((· == x) ∘ Char.toLower : Char → Bool) = (· == x) := by
      funext c
      rw [Function.comp_apply, Bool.eq_iff_iff, beq_iff_eq, beq_iff_eq, toLower_eq_iff hx]
    rw [List.rdropWhile, List.rdropWhile, ← map_reverse, dropWhile_map, hsame,
      map_reverse]
  unfold SameUpToCase
  rw [hmap, hmap, h]

theorem sameUpToCase_swapCase (text : List Char) : SameUpToCase text (text.map swapCase) := by
  simp [SameUpToCase, Function.comp_def, toLower_swapCase]

theorem letterFree_of_swapCase (h : text.map swapCase = text) : LetterFree text := by
  intro c hc
  have hid : text.map swapCase = text.map id := by rw [h, List.map_id]
  exact swapCase_eq_self_iff.mp (map_inj_left.mp hid c hc)

end

end BuiltOnEnvoy.Foundations
