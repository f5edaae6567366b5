import BuiltOnEnvoy.Foundations.ByteText
import BuiltOnEnvoy.Foundations.Json
import BuiltOnEnvoy.Foundations.TextParsing

/-!
# JSON texts

The texts of JSON values as `encoding/json` reads and writes them. A text is
read one character at a time into tokens; white space between tokens is
skipped, and a `\u` escape of half a surrogate pair is the replacement
character. A value is written without white space, with the characters that
are special in HTML escaped. What is written is read back unchanged.
-/

namespace BuiltOnEnvoy.Foundations

open List Option

/-- A character of a string literal, or the code of a `\u` escape. -/
inductive Piece
  | char (c : Char)
  | code (n : ℕ)
  deriving DecidableEq

def isSurrogate (n : ℕ) : Bool := decide (0xD800 ≤ n ∧ n < 0xE000)

/-- `utf16.DecodeRune`. -/
def surrogatePair (high low : ℕ) : Option Char :=
  if 0xD800 ≤ high ∧ high < 0xDC00 ∧ 0xDC00 ≤ low ∧ low < 0xE000 then
    some (Char.ofNat (0x10000 + (high - 0xD800) * 0x400 + (low - 0xDC00)))
  else none

def codeChar (n : ℕ) : Char := if isSurrogate n then '\ufffd' else Char.ofNat n

/-- The characters of a string; two `\u` escapes may make up one. -/
def joinPieces : List Piece → List Char
  | [] => []
  | .char c :: ps => c :: joinPieces ps
  | [.code n] => [codeChar n]
  | .code n :: .char c :: ps => codeChar n :: c :: joinPieces ps
  | .code high :: .code low :: ps =>
    match surrogatePair high low with
    | some c => c :: joinPieces ps
    | none => codeChar high :: joinPieces (.code low :: ps)

/-- What was read of the current token. -/
inductive Lexer
  | idle
  /-- In a number or a literal name. -/
  | word (text : List Char)
  | string (read : List Piece)
  | escape (read : List Piece)
  /-- In a `\u` escape, with so many digits left. -/
  | hex (read : List Piece) (code left : ℕ)

def isWordChar (c : Char) : Bool := c.isAlphanum || c == '+' || c == '-' || c == '.'

def isSpace (c : Char) : Bool := c == ' ' || c == '\t' || c == '\n' || c == '\r'

def wordToken (text : List Char) : Option Token :=
  if text = "null".toList then some .null
  else if text = "true".toList then some (.bool true)
  else if text = "false".toList then some (.bool false)
  else if h : isNumber text = true then some (.number ⟨text, h⟩)
  else none

def escapedChar : Char → Option Char
  | '"' => some '"'
  | '\\' => some '\\'
  | '/' => some '/'
  | 'b' => some '\x08'
  | 'f' => some '\x0c'
  | 'n' => some '\n'
  | 'r' => some '\r'
  | 't' => some '\t'
  | _ => none

namespace Lexer

/-- A character between tokens. -/
def between (c : Char) : Option (List Token × Lexer) :=
  if isSpace c then some ([], idle)
  else if c = '"' then some ([], string [])
  else if isWordChar c then some ([], word [c])
  else match c with
    | '[' => some ([.beginArray], idle)
    | ']' => some ([.endArray], idle)
    | '\x7b' => some ([.beginObject], idle)
    | '\x7d' => some ([.endObject], idle)
    | ',' => some ([.comma], idle)
    | ':' => some ([.colon], idle)
    | _ => none

/-- One character; the tokens it completes come first. -/
def step : Lexer → Char → Option (List Token × Lexer)
  | idle, c => between c
  | word text, c =>
    if isWordChar c then some ([], word (text ++ [c]))
    else
      match wordToken text, between c with
      | some t, some (ts, s) => some (t :: ts, s)
      | _, _ => none
  | string read, c =>
    if c = '"' then some ([.string (joinPieces read)], idle)
    else if c = '\\' then some ([], escape read)
    else if c < ' ' then none
    else some ([], string (read ++ [.char c]))
  | escape read, c =>
    if c = 'u' then some ([], hex read 0 4)
    else (escapedChar c).map fun e => ([], string (read ++ [.char e]))
  | hex read code left, c =>
    (unhex c).map fun digit =>
      if left ≤ 1 then ([], string (read ++ [.code (16 * code + digit)]))
      else ([], hex read (16 * code + digit) (left - 1))

/-- The tokens that end with the text. -/
def finish : Lexer → Option (List Token)
  | idle => some []
  | word text => (wordToken text).map fun t => [t]
  | _ => none

def run : Lexer → List Char → Option (List Token)
  | s, [] => s.finish
  | s, c :: cs =>
    match s.step c with
    | none => none
    | some (ts, s') => (run s' cs).map (ts ++ ·)

end Lexer

def lex (text : List Char) : Option (List Token) := Lexer.run .idle text

/-- The deepest nesting that is read. -/
def maxNestingDepth : ℕ := 10000

/-- The value of a text. -/
def Json.parse (text : Bytes) : Option Json :=
  match (lex (utf8Decode text)).bind readTokens with
  | none => none
  | some v => if v.depth ≤ maxNestingDepth then some v else none

/-- The value of a text of any depth. -/
def Json.read (text : Bytes) : Option Json := (lex (utf8Decode text)).bind readTokens

theorem Json.parse_eq_some_iff {text : Bytes} {v : Json} :
    Json.parse text = some v ↔ Json.read text = some v ∧ v.depth ≤ maxNestingDepth := by
  unfold parse read
  cases (lex (utf8Decode text)).bind readTokens with
  | none => simp
  | some w =>
    by_cases hdepth : w.depth ≤ maxNestingDepth
    · simp only [hdepth, if_true, Option.some.injEq, iff_self_and]
      rintro rfl
      exact hdepth
    · grind

def hexDigit (n : ℕ) : Char :=
  if n < 10 then Char.ofNat (48 + n) else Char.ofNat (87 + n)

/-- Four hexadecimal digits. -/
def hex4 (n : ℕ) : List Char :=
  [hexDigit (n / 4096 % 16), hexDigit (n / 256 % 16), hexDigit (n / 16 % 16), hexDigit (n % 16)]

/-- The characters written as `\u` escapes. -/
def escapesAsCode (c : Char) : Bool :=
  c < ' ' || c == '<' || c == '>' || c == '&' || c == '\u2028' || c == '\u2029'

/-- The letter of a short escape. -/
def shortEscape : Char → Option Char
  | '"' => some '"'
  | '\\' => some '\\'
  | '\x08' => some 'b'
  | '\x0c' => some 'f'
  | '\n' => some 'n'
  | '\r' => some 'r'
  | '\t' => some 't'
  | _ => none

def escapeChar (c : Char) : List Char :=
  match shortEscape c with
  | some e => ['\\', e]
  | none => if escapesAsCode c then '\\' :: 'u' :: hex4 c.toNat else [c]

def Token.text : Token → List Char
  | beginArray => ['[']
  | endArray => [']']
  | beginObject => ['\x7b']
  | endObject => ['\x7d']
  | comma => [',']
  | colon => [':']
  | null => "null".toList
  | bool true => "true".toList
  | bool false => "false".toList
  | number literal => literal.text
  | string value => '"' :: (value.flatMap escapeChar ++ ['"'])

def Json.render (v : Json) : List Char := v.tokens.flatMap Token.text

def Json.marshal (v : Json) : Bytes := utf8Encode v.render

theorem unhex_hexDigit : ∀ n < 16, unhex (hexDigit n) = some n := by
  decide

theorem hexDigit_value {n : ℕ} (h : n < 16) : unhex (hexDigit n) = some n := unhex_hexDigit n h

namespace Lexer

variable {read : List Piece} {rest : List Char}

theorem run_step {s s' : Lexer} {c : Char} (h : s.step c = some ([], s')) (rest : List Char) :
    run s (c :: rest) = run s' rest := by
  rw [run, h]
  cases hrun : run s' rest <;> simp [hrun]

/-- A text that the reader of a string literal takes for one piece. -/
def Spells (text : List Char) (p : Piece) : Prop :=
  ∀ read rest, run (.string read) (text ++ rest) = run (.string (read ++ [p])) rest

theorem spells_char {c : Char} (hquote : c ≠ '"') (hslash : c ≠ '\\') (hcontrol : ¬ c < ' ') :
    Spells [c] (.char c) := by
  intro read rest
  exact run_step (by simp [step, hquote, hslash, hcontrol]) rest

theorem spells_escape {e c : Char} (h : escapedChar e = some c) (hu : e ≠ 'u') :
    Spells ['\\', e] (.char c) := by
  intro read rest
  have hslash : (string read).step '\\' = some ([], escape read) := by simp [step]
  have hescape : (escape read).step e = some ([], string (read ++ [.char c])) := by
    simp [step, hu, h]
  exact (run_step hslash _).trans (run_step hescape rest)

theorem spells_code {n : ℕ} (hn : n < 0x10000) : Spells ('\\' :: 'u' :: hex4 n) (.code n) := by
  intro read rest
  have hslash : (string read).step '\\' = some ([], escape read) := by simp [step]
  have hescape : (escape read).step 'u' = some ([], hex read 0 4) := by simp [step]
  have hdigit : ∀ code digit left, digit < 16 → 1 < left →
      (hex read code left).step (hexDigit digit) =
        some ([], hex read (16 * code + digit) (left - 1)) := by
    intro code digit left hdigit hleft
    simp [step, hexDigit_value hdigit, Nat.not_le.mpr hleft]
  have hlast : ∀ code digit, digit < 16 →
      (hex read code 1).step (hexDigit digit) =
        some ([], string (read ++ [.code (16 * code + digit)])) := by
    intro code digit hdigit
    simp [step, hexDigit_value hdigit]
  have hvalue : 16 * (16 * (16 * (16 * 0 + n / 4096 % 16) + n / 256 % 16) + n / 16 % 16) + n % 16 =
      n := by omega
  calc run (string read) ('\\' :: 'u' :: hex4 n ++ rest)
      = run (hex read 0 4) (hex4 n ++ rest) := (run_step hslash _).trans (run_step hescape _)
    _ = run (string (read ++ [.code (16 * (16 * (16 * (16 * 0 + n / 4096 % 16) + n / 256 % 16) +
          n / 16 % 16) + n % 16)])) rest := by
        have hdigits : hex4 n ++ rest = hexDigit (n / 4096 % 16) :: hexDigit (n / 256 % 16) ::
          hexDigit (n / 16 % 16) :: hexDigit (n % 16) :: rest := rfl
        rw [hdigits, run_step (hdigit 0 _ 4 (Nat.mod_lt _ (by omega)) (by omega)),
          run_step (hdigit _ _ 3 (Nat.mod_lt _ (by omega)) (by omega)),
          run_step (hdigit _ _ 2 (Nat.mod_lt _ (by omega)) (by omega)),
          run_step (hlast _ _ (Nat.mod_lt _ (by omega)))]
    _ = run (string (read ++ [.code n])) rest := by rw [hvalue]

theorem run_flatMap {spell : Char → List Char} {piece : Char → Piece} {text : List Char}
    (h : ∀ c ∈ text, Spells (spell c) (piece c)) (read : List Piece) (rest : List Char) :
    run (.string read) (text.flatMap spell ++ rest) =
      run (.string (read ++ text.map piece)) rest := by
  induction text generalizing read with
  | nil => simp
  | cons c text ih =>
    obtain ⟨hc, htext⟩ := forall_mem_cons.mp h
    rw [flatMap_cons, append_assoc, hc, ih htext, append_assoc]
    rfl

theorem run_quote (read : List Piece) (rest : List Char) :
    run (.string read) ('"' :: rest) =
      (run .idle rest).map (.string (joinPieces read) :: ·) := by
  simp [run, step]

/-- The text goes on with something that ends a word. -/
def Delimited (text : List Char) : Prop := ∀ c ∈ text.head?, isWordChar c = false

theorem run_word_end {text : List Char} {t : Token} (ht : wordToken text = some t)
    {rest : List Char} (hrest : Delimited rest) :
    run (.word text) rest = (run .idle rest).map (t :: ·) := by
  cases rest with
  | nil => simp [run, finish, ht]
  | cons c rest =>
    have hc : isWordChar c = false := hrest c rfl
    rw [run, run, step, step, hc]
    cases between c with
    | none => simp [ht]
    | some p => simp [ht, Function.comp_def]

theorem run_word_append {more : List Char} (hmore : ∀ c ∈ more, isWordChar c = true)
    (text rest : List Char) :
    run (.word text) (more ++ rest) = run (.word (text ++ more)) rest := by
  induction more generalizing text with
  | nil => simp
  | cons c more ih =>
    obtain ⟨hc, hmore⟩ := forall_mem_cons.mp hmore
    have hstep : (word text).step c = some ([], word (text ++ [c])) := by simp [step, hc]
    rw [cons_append, run_step hstep, ih hmore, append_assoc]
    rfl

end Lexer

/-- The character of a piece on its own. -/
def Piece.value : Piece → Char
  | char c => c
  | code n => codeChar n

/-- No piece is half a surrogate pair. -/
def Piece.Whole : Piece → Prop
  | char _ => True
  | code n => isSurrogate n = false

theorem joinPieces_of_whole {ps : List Piece} (h : ∀ p ∈ ps, p.Whole) :
    joinPieces ps = ps.map Piece.value := by
  fun_induction joinPieces ps with
  | case1 => rfl
  | case2 c ps ih =>
    rw [ih fun p hp => h p (mem_cons_of_mem _ hp)]
    rfl
  | case3 n => rfl
  | case4 n c ps ih =>
    rw [ih fun p hp => h p (mem_cons_of_mem _ (mem_cons_of_mem _ hp))]
    rfl
  | case5 high low ps c hpair ih =>
    -- a pair would start with a surrogate
    have hhigh : isSurrogate high = false := h _ mem_cons_self
    simp only [surrogatePair, isSurrogate, decide_eq_false_iff_not] at hpair hhigh
    split_ifs at hpair
    omega
  | case6 high low ps hpair ih =>
    rw [ih fun p hp => h p (mem_cons_of_mem _ hp)]
    rfl

variable (c : Char)

theorem isSurrogate_toNat : isSurrogate c.toNat = false := by
  have hvalid : c.toNat < 0xD800 ∨ 0xDFFF < c.toNat ∧ c.toNat < 0x110000 := c.valid
  rw [isSurrogate, decide_eq_false_iff_not]
  omega

theorem codeChar_toNat : codeChar c.toNat = c := by
  rw [codeChar, isSurrogate_toNat, if_neg Bool.false_ne_true, Char.ofNat_toNat]

/-- The piece for which a character is written. -/
def escapePiece (c : Char) : Piece :=
  if (shortEscape c).isNone && escapesAsCode c then .code c.toNat else .char c

theorem escapePiece_whole : (escapePiece c).Whole := by
  unfold escapePiece
  split_ifs
  · exact isSurrogate_toNat c
  · trivial

theorem escapePiece_value : (escapePiece c).value = c := by
  unfold escapePiece
  split_ifs
  · exact codeChar_toNat c
  · rfl

theorem shortEscape_eq_some {c e : Char} (h : shortEscape c = some e) :
    escapedChar e = some c ∧ e ≠ 'u' := by
  unfold shortEscape at h
  split at h <;> first
    | (cases h; exact ⟨rfl, by decide⟩)
    | cases h

theorem escapesAsCode_lt {c : Char} (h : escapesAsCode c = true) : c.toNat < 0x10000 := by
  simp only [escapesAsCode, Bool.or_eq_true, decide_eq_true_eq, beq_iff_eq] at h
  rcases h with ((((h | rfl) | rfl) | rfl) | rfl) | rfl
  · have hlt : c.toNat < ' '.toNat := h
    have hspace : ' '.toNat = 32 := rfl
    omega
  all_goals decide

theorem spells_escapeChar : Lexer.Spells (escapeChar c) (escapePiece c) := by
  unfold escapeChar escapePiece
  cases hshort : shortEscape c with
  | some e =>
    obtain ⟨hchar, hu⟩ := shortEscape_eq_some hshort
    exact Lexer.spells_escape hchar hu
  | none =>
    cases hcode : escapesAsCode c with
    | true => exact Lexer.spells_code (escapesAsCode_lt hcode)
    | false =>
      refine Lexer.spells_char ?_ ?_ ?_
      · rintro rfl
        cases hshort
      · rintro rfl
        cases hshort
      · intro hlt
        simp [escapesAsCode, hlt] at hcode

theorem run_string (value rest : List Char) :
    Lexer.run .idle ((Token.string value).text ++ rest) =
      (Lexer.run .idle rest).map (.string value :: ·) := by
  have hopen : Lexer.idle.step '"' = some ([], .string []) := rfl
  have hvalue : joinPieces (value.map escapePiece) = value := by
    rw [joinPieces_of_whole (by simp [escapePiece_whole]), List.map_map]
    simp [Function.comp_def, escapePiece_value]
  rw [Token.text, cons_append, append_assoc, singleton_append,
    Lexer.run_step hopen, Lexer.run_flatMap fun c _ => spells_escapeChar c, Lexer.run_quote,
    nil_append, hvalue]

theorem isWordChar_of_step {s s' : NumberState} {c : Char} (h : s.step c = some s') :
    isWordChar c = true := by
  have hc : c.isDigit = true ∨ c = '-' ∨ c = '+' ∨ c = '.' ∨ c = 'e' ∨ c = 'E' ∨ c = '0' := by
    cases s <;>
      simp only [NumberState.step, NumberState.step.leading, NumberState.step.afterInteger,
        NumberState.step.afterFraction] at h <;>
      split_ifs at h <;> tauto
  rcases hc with hc | rfl | rfl | rfl | rfl | rfl | rfl
  · simp [isWordChar, Char.isAlphanum, hc]
  all_goals decide

theorem isWordChar_of_foldlM {text : List Char} {s s' : NumberState}
    (h : text.foldlM NumberState.step s = some s') : ∀ c ∈ text, isWordChar c = true := by
  induction text generalizing s with
  | nil => simp
  | cons c text ih =>
    rw [foldlM_cons, bind_eq_bind, bind_eq_some_iff] at h
    obtain ⟨next, hnext, htext⟩ := h
    exact forall_mem_cons.mpr ⟨isWordChar_of_step hnext, ih htext⟩

theorem NumberLiteral.isWordChar (literal : NumberLiteral) :
    ∀ c ∈ literal.text, isWordChar c = true := by
  have hvalid := literal.valid
  cases hfold : literal.text.foldlM NumberState.step NumberState.start with
  | none => simp [isNumber, hfold] at hvalid
  | some s => exact isWordChar_of_foldlM hfold

theorem wordToken_number (literal : NumberLiteral) :
    wordToken literal.text = some (.number literal) := by
  obtain ⟨text, hvalid⟩ := literal
  have hname : ∀ name : List Char, isNumber name = false → text ≠ name := by
    rintro name hname rfl
    rw [hname] at hvalid
    cases hvalid
  simp only [wordToken, hname _ (by decide : isNumber "null".toList = false),
    hname _ (by decide : isNumber "true".toList = false),
    hname _ (by decide : isNumber "false".toList = false), if_false, hvalid, dif_pos]

/-- The tokens that are spelled with word characters. -/
def Token.isWord : Token → Bool
  | null | bool _ | number _ => true
  | _ => false

theorem Token.isWord_spec {t : Token} (h : t.isWord = true) :
    wordToken t.text = some t ∧ ∀ c ∈ t.text, isWordChar c = true := by
  cases t with
  | null => exact ⟨rfl, List.all_eq_true.mp (by decide)⟩
  | bool value => cases value <;> exact ⟨rfl, List.all_eq_true.mp (by decide)⟩
  | number literal => exact ⟨wordToken_number literal, literal.isWordChar⟩
  | _ => cases h

theorem between_of_isWordChar {c : Char} (h : isWordChar c = true) :
    Lexer.between c = some ([], .word [c]) := by
  have hspace : isSpace c = false := by
    by_contra hspace
    simp only [isSpace, Bool.not_eq_false, Bool.or_eq_true, beq_iff_eq] at hspace
    rcases hspace with ((rfl | rfl) | rfl) | rfl <;> revert h <;> decide
  have hquote : c ≠ '"' := by
    rintro rfl
    revert h
    decide
  simp [Lexer.between, hspace, hquote, h]

theorem run_word {t : Token} (ht : t.isWord = true) {rest : List Char}
    (hrest : Lexer.Delimited rest) :
    Lexer.run .idle (t.text ++ rest) = (Lexer.run .idle rest).map (t :: ·) := by
  obtain ⟨htoken, hchars⟩ := Token.isWord_spec ht
  cases htext : t.text with
  | nil =>
    have hnone : wordToken [] = none := by decide
    rw [htext, hnone] at htoken
    cases htoken
  | cons c more =>
    rw [htext] at htoken hchars
    obtain ⟨hc, hmore⟩ := forall_mem_cons.mp hchars
    have hstep : Lexer.idle.step c = some ([], .word [c]) := between_of_isWordChar hc
    rw [cons_append, Lexer.run_step hstep, Lexer.run_word_append hmore]
    exact Lexer.run_word_end htoken hrest

theorem run_token {t : Token} {rest : List Char} (h : t.isWord = true → Lexer.Delimited rest) :
    Lexer.run .idle (t.text ++ rest) = (Lexer.run .idle rest).map (t :: ·) := by
  cases t with
  | null | bool | number => exact run_word rfl (h rfl)
  | string value => exact run_string value rest
  | _ => simp [Token.text, Lexer.run, Lexer.step, Lexer.between, isSpace, isWordChar]

/-- Two words do not follow each other. -/
def Apart (t t' : Token) : Prop := t.isWord = false ∨ t'.isWord = false

theorem delimited_text {t : Token} (h : t.isWord = false) (rest : List Char) :
    Lexer.Delimited (t.text ++ rest) := by
  intro c hc
  cases t with
  | null | bool | number => cases h
  | _ =>
    simp only [Token.text, cons_append, head?_cons, mem_def,
      Option.some.injEq] at hc
    subst hc
    decide

theorem lex_tokens {ts : List Token} (h : ts.IsChain Apart) :
    lex (ts.flatMap Token.text) = some ts := by
  unfold lex
  induction ts with
  | nil => rfl
  | cons t ts ih =>
    rw [List.isChain_cons] at h
    rw [flatMap_cons, run_token, ih h.2]
    · rfl
    · intro ht
      cases ts with
      | nil => simp [Lexer.Delimited]
      | cons t' ts =>
        rw [flatMap_cons]
        exact delimited_text ((h.1 t' rfl).resolve_left (by simp [ht])) _

namespace Json

theorem isChain_tokens_append {ts ts' : List Token} (h : ts.IsChain Apart)
    (h' : ts'.IsChain Apart) (hhead : ∀ t ∈ ts'.head?, t.isWord = false) :
    (ts ++ ts').IsChain Apart :=
  isChain_append.mpr ⟨h, h', fun _ _ t ht => Or.inr (hhead t ht)⟩

theorem isChain_cons {t : Token} (ht : t.isWord = false) {ts : List Token}
    (h : ts.IsChain Apart) : (t :: ts).IsChain Apart :=
  List.isChain_cons.mpr ⟨fun _ _ => Or.inl ht, h⟩

theorem isChain_moreItems {vs : List Json} (h : ∀ v ∈ vs, v.tokens.IsChain Apart) :
    (moreItems vs).IsChain Apart ∧ ∀ t ∈ (moreItems vs).head?, t.isWord = false := by
  induction vs with
  | nil => exact ⟨isChain_singleton _, by simp [moreItems, Token.isWord]⟩
  | cons v vs ih =>
    obtain ⟨hv, hvs⟩ := forall_mem_cons.mp h
    obtain ⟨hchain, hhead⟩ := ih hvs
    exact ⟨isChain_cons rfl (isChain_tokens_append hv hchain hhead),
      by simp [moreItems, Token.isWord]⟩

theorem isChain_moreMembers {ms : List (List Char × Json)}
    (h : ∀ m ∈ ms, m.2.tokens.IsChain Apart) :
    (moreMembers ms).IsChain Apart ∧ ∀ t ∈ (moreMembers ms).head?, t.isWord = false := by
  induction ms with
  | nil => exact ⟨isChain_singleton _, by simp [moreMembers, Token.isWord]⟩
  | cons m ms ih =>
    obtain ⟨hm, hms⟩ := forall_mem_cons.mp h
    obtain ⟨hchain, hhead⟩ := ih hms
    exact ⟨isChain_cons rfl (isChain_cons rfl (isChain_cons rfl
      (isChain_tokens_append hm hchain hhead))), by simp [moreMembers, Token.isWord]⟩

theorem isChain_tokens (v : Json) : v.tokens.IsChain Apart := by
  induction v using inductOn with
  | null | bool | number | string => exact isChain_singleton _
  | array items ih =>
    cases items with
    | nil => exact isChain_cons rfl (isChain_singleton _)
    | cons v vs =>
      obtain ⟨hv, hvs⟩ := forall_mem_cons.mp ih
      obtain ⟨hchain, hhead⟩ := isChain_moreItems hvs
      exact isChain_cons rfl (isChain_tokens_append hv hchain hhead)
  | object members ih =>
    cases members with
    | nil => exact isChain_cons rfl (isChain_singleton _)
    | cons m ms =>
      obtain ⟨hm, hms⟩ := forall_mem_cons.mp ih
      obtain ⟨hchain, hhead⟩ := isChain_moreMembers hms
      exact isChain_cons rfl (isChain_cons rfl (isChain_cons rfl
        (isChain_tokens_append hm hchain hhead)))

theorem lex_render (v : Json) : lex v.render = some v.tokens := lex_tokens v.isChain_tokens

theorem read_marshal (v : Json) : read v.marshal = some v := by
  rw [read, marshal, utf8Decode_encode, lex_render, bind_some, readTokens_tokens]

theorem parse_marshal {v : Json} (h : v.depth ≤ maxNestingDepth) : parse v.marshal = some v :=
  parse_eq_some_iff.mpr ⟨read_marshal v, h⟩

theorem marshal_ne_nil (v : Json) : v.marshal ≠ [] := by
  intro h
  have hread := read_marshal v
  rw [h] at hread
  cases hread

theorem parse_nil : parse [] = none := rfl

theorem read_nil : read [] = none := rfl

theorem ne_nil_of_parse {text : Bytes} {v : Json} (h : parse text = some v) : text ≠ [] := by
  rintro rfl
  rw [parse_nil] at h
  cases h

theorem depth_of_parse {text : Bytes} {v : Json} (h : parse text = some v) :
    v.depth ≤ maxNestingDepth :=
  (parse_eq_some_iff.mp h).2

end Json

example : (Json.parse (ascii " [1, \"a\\u00e9\"] ")).map Json.render =
    some "[1,\"a\u00e9\"]".toList := by decide +kernel

end BuiltOnEnvoy.Foundations
