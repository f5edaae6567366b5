import BuiltOnEnvoy.Foundations.Bytes

/-!
# Texts in UTF-8

A byte string is read as a list of characters the way Go reads it: every byte
that belongs to no valid encoding is one replacement character. What was
encoded is read back unchanged.

A Go string holds bytes. Where single bytes matter, the model keeps such a
string as a text with one character for each byte; its runes are what the bytes
say in UTF-8.
-/

namespace BuiltOnEnvoy.Foundations

open List

def utf8Encode (text : List Char) : Bytes :=
  text.flatMap String.utf8EncodeChar

/-- `utf8.DecodeRune`: the first character of a text and the number of bytes after the
first one that belong to it. -/
def decodeRune (bytes : Bytes) : Char × ℕ :=
  match (bytes.take 4).toByteArray.utf8DecodeChar? 0 with
  | some c => (c, c.utf8Size - 1)
  | none => ('\ufffd', 0)

/-- The characters of a text after so many bytes. -/
def decodeFrom : ℕ → Bytes → List Char
  | _, [] => []
  | skip + 1, _ :: rest => decodeFrom skip rest
  | 0, b :: rest => (decodeRune (b :: rest)).1 :: decodeFrom (decodeRune (b :: rest)).2 rest

def utf8Decode (bytes : Bytes) : List Char := decodeFrom 0 bytes

theorem decodeFrom_append (skipped rest : Bytes) :
    decodeFrom skipped.length (skipped ++ rest) = decodeFrom 0 rest := by
  induction skipped with
  | nil => rfl
  | cons b skipped ih => exact ih

theorem decodeRune_encode (c : Char) (rest : Bytes) :
    decodeRune (String.utf8EncodeChar c ++ rest) = (c, c.utf8Size - 1) := by
  have hlength : (String.utf8EncodeChar c).length ≤ 4 := by
    rw [String.length_utf8EncodeChar]
    exact Char.utf8Size_le_four c
  have htake : (String.utf8EncodeChar c ++ rest).take 4 =
      String.utf8EncodeChar c ++ rest.take (4 - (String.utf8EncodeChar c).length) := by
    rw [List.take_append, take_of_length_le hlength]
  rw [decodeRune, htake, toByteArray_append, ByteArray.utf8DecodeChar?_utf8EncodeChar_append]

theorem decodeFrom_encode (c : Char) (rest : Bytes) :
    decodeFrom 0 (String.utf8EncodeChar c ++ rest) = c :: decodeFrom 0 rest := by
  have hrune := decodeRune_encode c rest
  have hlength := String.length_utf8EncodeChar c
  cases hencode : String.utf8EncodeChar c with
  | nil => exact absurd hencode (String.utf8EncodeChar_ne_nil)
  | cons b tail =>
    rw [hencode] at hrune hlength
    rw [cons_append] at hrune ⊢
    have htail : c.utf8Size - 1 = tail.length := by
      rw [length_cons] at hlength
      omega
    rw [decodeFrom, hrune, htail, decodeFrom_append]

theorem utf8Decode_encode (text : List Char) : utf8Decode (utf8Encode text) = text := by
  unfold utf8Decode utf8Encode
  induction text with
  | nil => rfl
  | cons c text ih => rw [flatMap_cons, decodeFrom_encode, ih]

example : utf8Decode [0x61, 0xC3, 0xA9, 0xC3, 0x62] = ['a', '\u00e9', '\ufffd', 'b'] := by
  decide +kernel

def byteText (bytes : Bytes) : String :=
  String.ofList (bytes.map fun b => Char.ofNat b.toNat)

theorem toNat_byte (b : UInt8) : (Char.ofNat b.toNat).toNat = b.toNat := by
  have hlt := UInt8.toNat_lt b
  have hvalid : b.toNat.isValidChar := Or.inl (by omega)
  rw [Char.ofNat, dif_pos hvalid]
  rfl

theorem ascii_byteText (bytes : Bytes) : ascii (byteText bytes) = bytes := by
  rw [ascii, byteText, String.toList_ofList, List.map_map]
  refine map_id'' (fun b => ?_) bytes
  rw [Function.comp_apply, toNat_byte, UInt8.ofNat_toNat]

/-- The characters a text spells in UTF-8. -/
def runes (text : String) : List Char := utf8Decode (ascii text)

def ofRunes (text : List Char) : String := byteText (utf8Encode text)

@[simp]
theorem runes_ofRunes (text : List Char) : runes (ofRunes text) = text := by
  rw [runes, ofRunes, ascii_byteText, utf8Decode_encode]

theorem runes_eq_nil_iff {text : String} : runes text = [] ↔ text = "" := by
  constructor
  · intro h
    cases htext : text.toList with
    | nil => rw [← String.toList_inj, htext, String.toList_empty]
    | cons c rest =>
      rw [runes, ascii, htext] at h
      cases h
  · rintro rfl
    rfl

/-- The bytes are the UTF-8 encoding of a text. -/
def IsUtf8 (text : String) : Prop := ofRunes (runes text) = text

instance (text : String) : Decidable (IsUtf8 text) :=
  inferInstanceAs (Decidable (ofRunes (runes text) = text))

theorem isUtf8_ofRunes (text : List Char) : IsUtf8 (ofRunes text) := by
  rw [IsUtf8, runes_ofRunes]

theorem utf8EncodeChar_of_ascii {c : Char} (h : c.toNat < 128) :
    String.utf8EncodeChar c = [UInt8.ofNat c.toNat] := by
  have hle : ¬127 < c.toNat := by omega
  simp [String.utf8EncodeChar, hle]

theorem utf8Encode_of_ascii {text : List Char} (h : ∀ c ∈ text, c.toNat < 128) :
    utf8Encode text = text.map fun c => UInt8.ofNat c.toNat := by
  induction text with
  | nil => rfl
  | cons c text ih =>
    obtain ⟨hc, htext⟩ := forall_mem_cons.mp h
    rw [utf8Encode, flatMap_cons, utf8EncodeChar_of_ascii hc, singleton_append,
      map_cons]
    exact congrArg _ (ih htext)

theorem ofRunes_of_ascii {text : List Char} (h : ∀ c ∈ text, c.toNat < 128) :
    ofRunes text = String.ofList text := by
  rw [ofRunes, byteText, utf8Encode_of_ascii h, List.map_map]
  refine congrArg String.ofList ((map_congr_left fun c hc => ?_).trans (List.map_id text))
  have hlt := h c hc
  have hbyte : (UInt8.ofNat c.toNat).toNat = c.toNat := by
    rw [UInt8.toNat_ofNat']
    exact Nat.mod_eq_of_lt (by omega)
  rw [Function.comp_apply, hbyte, Char.ofNat_toNat]
  rfl

theorem runes_of_ascii {text : String} (h : ∀ c ∈ text.toList, c.toNat < 128) :
    runes text = text.toList := by
  have hbytes := ofRunes_of_ascii h
  rw [String.ofList_toList] at hbytes
  rw [← hbytes, runes_ofRunes, hbytes]

end BuiltOnEnvoy.Foundations
