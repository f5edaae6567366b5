import BuiltOnEnvoy.Foundations.ByteText
import BuiltOnEnvoy.Foundations.LetterCase
import BuiltOnEnvoy.Foundations.TextParsing

/-!
# Simple case folding

`strings.EqualFold` compares the runes of two texts up to simple case folding.
The Unicode tables stay open; what they say about ASCII is fixed: two characters
outside ASCII fold to a letter of ASCII, and no other one to anything in it.
-/

namespace BuiltOnEnvoy.Foundations

/-- Representatives of the characters that fold to nothing in ASCII. -/
structure CaseFolding where
  other : Char → Char
  other_notAscii : ∀ c, 128 ≤ (other c).toNat

namespace CaseFolding

def fold (f : CaseFolding) (c : Char) : Char :=
  if c.toNat < 128 ∨ c = 'ſ' ∨ c = 'K' then foldLetter c else f.other c

/-- `strings.EqualFold` of texts with one character for each byte. -/
def equalFold (f : CaseFolding) (text other : String) : Bool :=
  (runes text).map f.fold = (runes other).map f.fold

/-- Outside ASCII, every character for itself. -/
def plain : CaseFolding where
  other c := if 128 ≤ c.toNat then c else '\u0080'
  other_notAscii c := by
    split_ifs with h
    · exact h
    · decide

variable (f : CaseFolding)

@[simp]
theorem equalFold_refl (text : String) : f.equalFold text text = true :=
  decide_eq_true rfl

theorem fold_of_ascii {c : Char} (h : c.toNat < 128) : f.fold c = c.toLower := by
  have hlong : c ≠ 'ſ' := by
    rintro rfl
    exact absurd h (by decide)
  have hkelvin : c ≠ 'K' := by
    rintro rfl
    exact absurd h (by decide)
  rw [fold, if_pos (.inl h), foldLetter, if_neg hlong, if_neg hkelvin]

theorem sameUpToCase_of_equalFold {text other : String}
    (htext : ∀ c ∈ text.toList, c.toNat < 128) (hother : ∀ c ∈ other.toList, c.toNat < 128)
    (h : f.equalFold text other = true) : SameUpToCase text.toList other.toList := by
  rw [equalFold, decide_eq_true_eq, runes_of_ascii htext, runes_of_ascii hother] at h
  rw [SameUpToCase]
  calc text.toList.map Char.toLower = text.toList.map f.fold :=
        List.map_congr_left fun c hc => (f.fold_of_ascii (htext c hc)).symm
    _ = other.toList.map f.fold := h
    _ = other.toList.map Char.toLower :=
        List.map_congr_left fun c hc => f.fold_of_ascii (hother c hc)

end CaseFolding

end BuiltOnEnvoy.Foundations
