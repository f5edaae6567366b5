import BuiltOnEnvoy.Foundations.JsonText

/-!
# Go string literals

The `%q` verb writes a text as a Go string literal. Most of these are JSON
texts for the same string, but not all: Go has escapes that JSON does not know,
for most control characters and for unprintable characters outside the basic
plane. Which characters above ASCII are printable is a table of the Unicode
version and a parameter here.
-/

namespace BuiltOnEnvoy.Foundations

open List

section

variable (printable : Char → Bool)

/-- `strconv.IsPrint`. -/
def isPrint (c : Char) : Bool :=
  if c.toNat < 0x80 then decide (0x20 ≤ c.toNat ∧ c.toNat < 0x7F) else printable c

/-- `appendEscapedRune` for a double quote. -/
def quoteRune (c : Char) : List Char :=
  if c = '"' ∨ c = '\\' then ['\\', c]
  else if isPrint printable c then [c]
  else match c with
    | '\x07' => ['\\', 'a']
    | '\x08' => ['\\', 'b']
    | '\x0c' => ['\\', 'f']
    | '\n' => ['\\', 'n']
    | '\r' => ['\\', 'r']
    | '\t' => ['\\', 't']
    | '\x0b' => ['\\', 'v']
    | c =>
      if c < ' ' ∨ c = '\x7f' then
        ['\\', 'x', hexDigit (c.toNat / 16 % 16), hexDigit (c.toNat % 16)]
      else if c.toNat < 0x10000 then '\\' :: 'u' :: hex4 c.toNat
      else '\\' :: 'U' :: (hex4 (c.toNat / 0x10000) ++ hex4 (c.toNat % 0x10000))

/-- The `%q` verb. -/
def goQuote (text : List Char) : List Char :=
  '"' :: (text.flatMap (quoteRune printable) ++ ['"'])

/-- The characters for which Go and JSON have the same escape or none. -/
def hasJsonEscape (c : Char) : Bool :=
  if c < ' ' then ['\x08', '\x0c', '\n', '\r', '\t'].contains c
  else if c.toNat < 0x80 then c != '\x7f'
  else decide (c.toNat < 0x10000) || printable c

/-- The piece a JSON reader takes the literal of a character for. -/
def quotePiece (c : Char) : Piece :=
  if isPrint printable c || decide (c.toNat < 0x80) then .char c else .code c.toNat

variable {printable}

theorem quotePiece_whole (c : Char) : (quotePiece printable c).Whole := by
  unfold quotePiece
  split_ifs
  · trivial
  · exact isSurrogate_toNat c

theorem quotePiece_value (c : Char) : (quotePiece printable c).value = c := by
  unfold quotePiece
  split_ifs
  · rfl
  · exact codeChar_toNat c

/-- The text of a character is an escape that JSON does not know. -/
def ForeignEscape (text : List Char) : Prop :=
  ∃ e more, text = '\\' :: e :: more ∧ e ≠ 'u' ∧ escapedChar e = none

theorem lt_space_iff (c : Char) : c < ' ' ↔ c.toNat < 32 := Iff.rfl

attribute [local simp] hasJsonEscape lt_space_iff

theorem isPrint_spec {c : Char} (h : isPrint printable c = true) :
    ¬ c < ' ' ∧ hasJsonEscape printable c = true ∧ quotePiece printable c = .char c := by
  have hpiece : quotePiece printable c = .char c := by simp [quotePiece, h]
  rw [lt_space_iff]
  by_cases hascii : c.toNat < 0x80
  · simp only [isPrint, hascii, if_true, decide_eq_true_eq] at h
    have hdel : c ≠ '\x7f' := by
      rintro rfl
      exact absurd h.2 (by decide)
    refine ⟨by omega, ?_, hpiece⟩
    simp [hascii, hdel, Nat.not_lt.mpr h.1]
  · simp only [isPrint, hascii, if_false] at h
    refine ⟨by omega, ?_, hpiece⟩
    have hspace : ¬ c.toNat < 32 := by omega
    simp [hascii, hspace, h]

/-- Every character is written in a way a JSON reader takes for it, or as an escape it
does not know. -/
theorem quoteRune_spec (c : Char) :
    (hasJsonEscape printable c = true ∧
        Lexer.Spells (quoteRune printable c) (quotePiece printable c)) ∨
      (hasJsonEscape printable c = false ∧ ForeignEscape (quoteRune printable c)) := by
  unfold quoteRune
  split_ifs with hquote hprint
  · rcases hquote with rfl | rfl
    · exact Or.inl ⟨rfl, Lexer.spells_escape rfl (by decide)⟩
    · exact Or.inl ⟨rfl, Lexer.spells_escape rfl (by decide)⟩
  · obtain ⟨hspace, hescape, hpiece⟩ := isPrint_spec hprint
    rw [not_or] at hquote
    rw [hpiece]
    exact Or.inl ⟨hescape, Lexer.spells_char hquote.1 hquote.2 hspace⟩
  · split
    · exact Or.inr ⟨rfl, 'a', [], rfl, by decide, rfl⟩
    · exact Or.inl ⟨rfl, Lexer.spells_escape rfl (by decide)⟩
    · exact Or.inl ⟨rfl, Lexer.spells_escape rfl (by decide)⟩
    · exact Or.inl ⟨rfl, Lexer.spells_escape rfl (by decide)⟩
    · exact Or.inl ⟨rfl, Lexer.spells_escape rfl (by decide)⟩
    · exact Or.inl ⟨rfl, Lexer.spells_escape rfl (by decide)⟩
    · exact Or.inr ⟨rfl, 'v', [], rfl, by decide, rfl⟩
    · rename_i hbell hback hfeed hline hreturn htab hvertical
      split_ifs with hcontrol hplane
      · refine Or.inr ⟨?_, 'x', _, rfl, by decide, rfl⟩
        rcases hcontrol with hcontrol | rfl
        · simpa [hcontrol] using ⟨hback, hfeed, hline, hreturn, htab⟩
        · rfl
      · rw [not_or, lt_space_iff] at hcontrol
        -- an unprintable character above ASCII
        have hascii : ¬ c.toNat < 0x80 := by
          intro hascii
          have hdel : c.toNat ≠ 0x7F := fun hdel => hcontrol.2 (Char.toNat_inj.mp hdel)
          simp only [isPrint, hascii, if_true, decide_eq_true_eq] at hprint
          omega
        refine Or.inl ⟨?_, ?_⟩
        · simp [hcontrol.1, hascii, hplane]
        · simp only [quotePiece, hprint, hascii]
          exact Lexer.spells_code hplane
      · refine Or.inr ⟨?_, 'U', _, rfl, by decide, rfl⟩
        have hascii : ¬ c.toNat < 0x80 := by omega
        have hspace : ¬ c.toNat < 32 := by omega
        simp only [isPrint, hascii, if_false] at hprint
        simp [hspace, hascii, hplane, hprint]

/-- At an escape that JSON does not know the text is not read any further. -/
theorem ForeignEscape.run_none {text : List Char} (h : ForeignEscape text) (read : List Piece)
    (rest : List Char) : Lexer.run (.string read) (text ++ rest) = none := by
  obtain ⟨e, more, rfl, hu, hnone⟩ := h
  have hslash : (Lexer.string read).step '\\' = some ([], .escape read) := by simp [Lexer.step]
  rw [cons_append, Lexer.run_step hslash, cons_append, Lexer.run, Lexer.step, if_neg hu,
    hnone]
  rfl

theorem run_quoted (read : List Piece) (text rest : List Char) :
    Lexer.run (.string read) (text.flatMap (quoteRune printable) ++ rest) =
      if text.all (hasJsonEscape printable) then
        Lexer.run (.string (read ++ text.map (quotePiece printable))) rest
      else none := by
  induction text generalizing read with
  | nil => simp
  | cons c text ih =>
    rw [flatMap_cons, append_assoc, all_cons]
    rcases @quoteRune_spec printable c with ⟨hc, hspells⟩ | ⟨hc, hforeign⟩
    · rw [hspells, ih, hc, Bool.true_and]
      simp
    · rw [hforeign.run_none, hc]
      rfl

theorem lex_goQuote (text : List Char) :
    lex (goQuote printable text) =
      if text.all (hasJsonEscape printable) then some [.string text] else none := by
  have hopen : Lexer.idle.step '"' = some ([], .string []) := rfl
  have hvalue : joinPieces (text.map (quotePiece printable)) = text := by
    rw [joinPieces_of_whole (by simp [quotePiece_whole]), List.map_map]
    simp [Function.comp_def, quotePiece_value]
  rw [lex, goQuote, Lexer.run_step hopen, run_quoted, nil_append, Lexer.run_quote, hvalue]
  rfl

theorem parse_goQuote (text : List Char) :
    Json.parse (utf8Encode (goQuote printable text)) =
      if text.all (hasJsonEscape printable) then some (.string text) else none := by
  rw [Json.parse, utf8Decode_encode, lex_goQuote]
  split_ifs
  · rfl
  · rfl

end

example : goQuote (fun _ => true) "a\tb".toList = "\"a\\tb\"".toList := by decide +kernel

end BuiltOnEnvoy.Foundations
