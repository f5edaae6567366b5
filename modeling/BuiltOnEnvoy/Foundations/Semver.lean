import Mathlib

/-!
# Semantic versions

A release is spelled `major.minor.patch`, and releases are ordered number by
number. What other texts stand for is left to the library that compares them.
-/

namespace BuiltOnEnvoy.Foundations

abbrev Release := ℕ ×ₗ ℕ ×ₗ ℕ

namespace Release

def ofNumbers (major minor patch : ℕ) : Release := toLex (major, toLex (minor, patch))

def numbers (v : Release) : List ℕ :=
  [(ofLex v).1, (ofLex (ofLex v).2).1, (ofLex (ofLex v).2).2]

def text (v : Release) : String := ".".intercalate (v.numbers.map Nat.repr)

theorem toList_text (v : Release) :
    v.text.toList = ['.'].intercalate (v.numbers.map fun n => n.repr.toList) := by
  simp [text, String.toList_intercalate, Function.comp_def]

theorem dot_mem_text (v : Release) : '.' ∈ v.text.toList := by
  simp [toList_text, numbers, List.intercalate, List.intersperse]

theorem text_ne (v : Release) {other : String} (h : '.' ∉ other.toList) : v.text ≠ other :=
  fun heq => h (heq ▸ v.dot_mem_text)

@[simp] theorem text_ne_empty (v : Release) : v.text ≠ "" :=
  v.text_ne (by simp)

@[simp] theorem empty_ne_text (v : Release) : "" ≠ v.text :=
  v.text_ne_empty.symm

theorem splitOn_text (v : Release) :
    v.text.toList.splitOn '.' = v.numbers.map fun n => n.repr.toList := by
  rw [toList_text, List.splitOn_intercalate _ _ (by simp [numbers])]
  intro digits hdigits hdot
  obtain ⟨n, -, rfl⟩ := List.mem_map.mp hdigits
  rw [Nat.repr_eq_ofList_toDigits, String.toList_ofList] at hdot
  exact absurd (Nat.isDigit_of_mem_toDigits (by decide) (by decide) hdot) (by decide)

theorem text_injective : Function.Injective text := by
  intro v w h
  have hdigits : (v.numbers.map fun n => n.repr.toList) = w.numbers.map fun n => n.repr.toList := by
    rw [← splitOn_text, ← splitOn_text, h]
  have hrepr : Function.Injective fun n : ℕ => n.repr.toList :=
    fun _ _ h => Nat.repr_injective (String.toList_injective h)
  have hnumbers := List.map_injective_iff.mpr hrepr hdigits
  simp only [numbers, List.cons.injEq, and_true] at hnumbers
  obtain ⟨hmajor, hminor, hpatch⟩ := hnumbers
  exact Prod.ext hmajor (Prod.ext hminor hpatch)

end Release

/-- What texts with the leading `v` stand for; `⊥` if they are no versions. The
releases are among the versions. -/
structure Semver (α : Type) [LinearOrder α] where
  version : String → WithBot α
  release : Release ↪o α
  version_release (v : Release) : version ("v" ++ v.text) = release v

namespace Semver

/-- `semver.Compare`. -/
def compare {α : Type} [LinearOrder α] (semver : Semver α) (a b : String) : Ordering :=
  cmp (semver.version a) (semver.version b)

theorem compare_release {α : Type} [LinearOrder α] (semver : Semver α) (v w : Release) :
    semver.compare ("v" ++ v.text) ("v" ++ w.text) = cmp v w := by
  rw [compare, semver.version_release, semver.version_release]
  exact (WithBot.coe_strictMono.comp semver.release.strictMono).cmp_map_eq v w

/-- The library that knows the releases only. -/
noncomputable def releasesOnly : Semver Release where
  version := Function.partialInv fun v => "v" ++ v.text
  release := RelEmbedding.refl _
  version_release := Function.partialInv_left fun _ _ h =>
    Release.text_injective (String.append_right_inj _ |>.mp h)

end Semver

end BuiltOnEnvoy.Foundations
