import Mathlib.Tactic

/-!
# Small text parsers

Decimal integers of 64 bits, addresses of the form `host:port` with an optional
pair of brackets around the host, and percent encoding. Texts that may hold any
bytes have one character for each byte.
-/

namespace BuiltOnEnvoy.Foundations

open List

def digitsValue (digits : List Char) : ℕ :=
  digits.foldl (fun n c => 10 * n + (c.toNat - '0'.toNat)) 0

/-- A decimal integer with an optional sign, within 64 bits. -/
def atoi (text : String) : Option ℤ :=
  let negative := text.toList.head? = some '-'
  let digits :=
    if negative ∨ text.toList.head? = some '+' then text.toList.tail else text.toList
  if digits = [] ∨ ¬digits.all Char.isDigit then none
  else
    let n : ℤ := if negative then -(digitsValue digits : ℤ) else digitsValue digits
    if -2 ^ 63 ≤ n ∧ n < 2 ^ 63 then some n else none

theorem takeWhile_append_stop {p : Char → Bool} {first second : List Char}
    (hfirst : ∀ c ∈ first, p c = true) (hsecond : ∀ c ∈ second.head?, p c = false) :
    (first ++ second).takeWhile p = first ∧ (first ++ second).dropWhile p = second := by
  rw [takeWhile_append_of_pos hfirst, dropWhile_append_of_pos hfirst]
  cases second with
  | nil => simp
  | cons c second =>
    have hc : p c = false := hsecond c rfl
    simp [hc]

def lastIndexOf (c : Char) (text : List Char) : Option ℕ :=
  (text.reverse.idxOf? c).map fun n => text.length - 1 - n

theorem lastIndexOf_append {c : Char} {second : List Char} (first : List Char)
    (h : c ∉ second) : lastIndexOf c (first ++ c :: second) = some first.length := by
  have hbehind : second.reverse.findIdx? (· == c) = none := by
    rw [findIdx?_eq_none_iff]
    intro x hx
    rw [mem_reverse] at hx
    rw [beq_eq_false_iff_ne]
    rintro rfl
    exact h hx
  have hreverse : (first ++ c :: second).reverse.idxOf? c = some second.length := by
    rw [reverse_append, reverse_cons, append_assoc, List.idxOf?,
      findIdx?_append, hbehind]
    simp [findIdx?_cons]
  rw [lastIndexOf, hreverse]
  simp

theorem lastIndexOf_eq_none {c : Char} {text : List Char} (h : c ∉ text) :
    lastIndexOf c text = none := by
  rw [lastIndexOf, Option.map_eq_none_iff, List.idxOf?, findIdx?_eq_none_iff]
  intro x hx
  rw [mem_reverse] at hx
  rw [beq_eq_false_iff_ne]
  rintro rfl
  exact h hx

theorem lastIndexOf_eq_some {c : Char} {text : List Char} {i : ℕ}
    (h : lastIndexOf c text = some i) : text = text.take i ++ c :: text.drop (i + 1) := by
  by_cases hmem : c ∈ text
  · -- the first occurrence from behind
    obtain ⟨behind, front, hsplit, hnot⟩ :=
      eq_append_cons_of_mem (mem_reverse.mpr hmem)
    have htext : text = front.reverse ++ c :: behind.reverse := by
      rw [← reverse_reverse text, hsplit]
      simp
    have hindex := lastIndexOf_append front.reverse (by simpa using hnot : c ∉ behind.reverse)
    rw [← htext, h, Option.some.injEq] at hindex
    rw [hindex, htext, take_left, drop_append]
    simp
  · rw [lastIndexOf_eq_none hmem] at h
    cases h

/-- The host and the port around the last colon. Brackets may stand around the
whole host and nowhere else; without them the host has no colon. -/
def splitHostPort (hostport : String) : Option (String × String) :=
  let text := hostport.toList
  match lastIndexOf ':' text with
  | none => none
  | some i =>
    if text.head? = some '[' then
      match text.idxOf? ']' with
      | none => none
      | some close =>
        if close + 1 ≠ i then none
        else if '[' ∈ text.drop 1 ∨ ']' ∈ text.drop (close + 1) then none
        else some (String.ofList ((text.take close).drop 1), String.ofList (text.drop (i + 1)))
    else if ':' ∈ text.take i then none
    else if '[' ∈ text ∨ ']' ∈ text then none
    else some (String.ofList (text.take i), String.ofList (text.drop (i + 1)))

example : splitHostPort "[::1]:80" = some ("::1", "80") := by decide +kernel

def parseUint (digits : List Char) : Option ℕ :=
  if digits = [] ∨ ¬digits.all Char.isDigit then none
  else if digitsValue digits < 2 ^ 64 then some (digitsValue digits)
  else none

def unhex (c : Char) : Option ℕ :=
  if '0' ≤ c ∧ c ≤ '9' then some (c.toNat - '0'.toNat)
  else if 'a' ≤ c ∧ c ≤ 'f' then some (c.toNat - 'a'.toNat + 10)
  else if 'A' ≤ c ∧ c ≤ 'F' then some (c.toNat - 'A'.toNat + 10)
  else none

/-- `hex.DecodeString`: pairs of hexadecimal digits. -/
def hexDecode : List Char → Option (List UInt8)
  | [] => some []
  | [_] => none
  | high :: low :: rest =>
    match unhex high, unhex low with
    | some h, some l => (hexDecode rest).map (UInt8.ofNat (16 * h + l) :: ·)
    | _, _ => none

example : hexDecode "0fA0".toList = some [15, 160] := by decide +kernel

/-- A letter without its case, for comparisons with ASCII letters. Two letters
outside ASCII fold to one. -/
def foldLetter (c : Char) : Char :=
  if c = '\u017f' then 's' else if c = '\u212a' then 'k' else c.toLower

/-- `strings.EqualFold`. -/
def equalFold (text other : String) : Bool :=
  text.toList.map foldLetter = other.toList.map foldLetter

/-- `url.PathUnescape`: every percent sign stands before two hexadecimal digits. -/
def pathUnescape : List Char → Option (List Char)
  | [] => some []
  | '%' :: high :: low :: rest =>
    match unhex high, unhex low with
    | some h, some l => (pathUnescape rest).map (Char.ofNat (16 * h + l) :: ·)
    | _, _ => none
  | c :: rest => if c = '%' then none else (pathUnescape rest).map (c :: ·)

example : pathUnescape "/a%2e%2E".toList = some "/a..".toList := by decide +kernel

end BuiltOnEnvoy.Foundations
