import Mathlib.Tactic

/-!
# Byte strings

Texts as lists of bytes, with the trimming of Unicode white space from both
ends. A white-space character is recognised by its UTF-8 encoding; a byte that
belongs to no valid encoding is not white space.
-/

namespace BuiltOnEnvoy.Foundations

open List

abbrev Bytes := List UInt8

/-- The bytes of an ASCII text. -/
def ascii (text : String) : Bytes :=
  text.toList.map fun c => UInt8.ofNat c.toNat

/-- The encodings of the characters with the Unicode property White_Space. -/
def whiteSpace : List Bytes :=
  [[0x09], [0x0A], [0x0B], [0x0C], [0x0D], [0x20], [0xC2, 0x85], [0xC2, 0xA0],
    [0xE1, 0x9A, 0x80], [0xE2, 0x80, 0x80], [0xE2, 0x80, 0x81], [0xE2, 0x80, 0x82],
    [0xE2, 0x80, 0x83], [0xE2, 0x80, 0x84], [0xE2, 0x80, 0x85], [0xE2, 0x80, 0x86],
    [0xE2, 0x80, 0x87], [0xE2, 0x80, 0x88], [0xE2, 0x80, 0x89], [0xE2, 0x80, 0x8A],
    [0xE2, 0x80, 0xA8], [0xE2, 0x80, 0xA9], [0xE2, 0x80, 0xAF], [0xE2, 0x81, 0x9F],
    [0xE3, 0x80, 0x80]]

/-- Drop leading words of the list; every drop shortens the text, so its length
is fuel enough. -/
def dropWords (words : List Bytes) : ℕ → Bytes → Bytes
  | 0, text => text
  | fuel + 1, text =>
    match words.find? (·.isPrefixOf text) with
    | none => text
    | some word => dropWords words fuel (text.drop word.length)

def trimSpace (text : Bytes) : Bytes :=
  let right := dropWords whiteSpace text.length text
  (dropWords (whiteSpace.map List.reverse) right.length right.reverse).reverse

/-- The rest of the text after a word it starts with. -/
def afterPrefix (word text : Bytes) : Option Bytes :=
  if word.isPrefixOf text then some (text.drop word.length) else none

example : trimSpace (ascii " data: x\r") = ascii "data: x" := by decide +kernel

theorem dropWords_suffix (words : List Bytes) (fuel : ℕ) (text : Bytes) :
    dropWords words fuel text <:+ text := by
  induction fuel generalizing text with
  | zero => exact suffix_rfl
  | succ fuel ih =>
    rw [dropWords]
    cases words.find? (·.isPrefixOf text) with
    | none => exact suffix_rfl
    | some word => exact (ih _).trans (drop_suffix _ _)

/-- From a text that starts with no white space, it is cut off at the end only. -/
theorem trimSpace_isPrefix {text : Bytes} (h : ∀ word ∈ whiteSpace, ¬word <+: text) :
    trimSpace text <+: text := by
  have hleft : dropWords whiteSpace text.length text = text := by
    cases hlength : text.length with
    | zero => rfl
    | succ fuel =>
      have hnone : whiteSpace.find? (·.isPrefixOf text) = none := by
        rw [find?_eq_none]
        intro word hword hword'
        exact h word hword <| isPrefixOf_iff_prefix.mp hword'
      rw [dropWords, hnone]
  rw [trimSpace]
  simp only [hleft]
  rw [← reverse_suffix, reverse_reverse]
  exact dropWords_suffix _ _ _

end BuiltOnEnvoy.Foundations
