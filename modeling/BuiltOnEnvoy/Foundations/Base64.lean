import BuiltOnEnvoy.Foundations.Fallible

/-!
# Base64

The URL alphabet of Go's `base64.RawURLEncoding`, without padding. The decoder
passes over line breaks, rejects every other character outside the alphabet and
ignores the spare bits of a last incomplete group.
-/

namespace BuiltOnEnvoy.Foundations.Base64

open List Option

/-- The letter of a sextet. -/
def letter (n : ℕ) : Char :=
  if n < 26 then Char.ofNat ('A'.toNat + n)
  else if n < 52 then Char.ofNat ('a'.toNat + (n - 26))
  else if n < 62 then Char.ofNat ('0'.toNat + (n - 52))
  else if n = 62 then '-'
  else '_'

def sextet (c : Char) : Option ℕ :=
  if 'A' ≤ c ∧ c ≤ 'Z' then some (c.toNat - 'A'.toNat)
  else if 'a' ≤ c ∧ c ≤ 'z' then some (c.toNat - 'a'.toNat + 26)
  else if '0' ≤ c ∧ c ≤ '9' then some (c.toNat - '0'.toNat + 52)
  else if c = '-' then some 62
  else if c = '_' then some 63
  else none

theorem sextet_letter {n : ℕ} (h : n < 64) : sextet (letter n) = some n := by
  have hall : ∀ k : Fin 64, sextet (letter k) = some k.val := by decide
  exact hall ⟨n, h⟩

/-- The sextets of some bytes. -/
def split : List UInt8 → List ℕ
  | [] => []
  | [x] => [x.toNat / 4, x.toNat % 4 * 16]
  | [x, y] => [x.toNat / 4, x.toNat % 4 * 16 + y.toNat / 16, y.toNat % 16 * 4]
  | x :: y :: z :: rest =>
    x.toNat / 4 :: (x.toNat % 4 * 16 + y.toNat / 16) :: (y.toNat % 16 * 4 + z.toNat / 64) ::
      z.toNat % 64 :: split rest

/-- The bytes of some sextets; a single last sextet has none. -/
def join : List ℕ → Option (List UInt8)
  | [] => some []
  | [_] => none
  | [a, b] => some [UInt8.ofNat (a * 4 + b / 16)]
  | [a, b, c] => some [UInt8.ofNat (a * 4 + b / 16), UInt8.ofNat (b % 16 * 16 + c / 4)]
  | a :: b :: c :: d :: rest =>
    (join rest).map fun bytes =>
      UInt8.ofNat (a * 4 + b / 16) :: UInt8.ofNat (b % 16 * 16 + c / 4) ::
        UInt8.ofNat (c % 4 * 64 + d) :: bytes

def encode (bytes : List UInt8) : String :=
  String.ofList ((split bytes).map letter)

def decode (text : String) : Option (List UInt8) :=
  ((text.toList.filter fun c => c ≠ '\r' ∧ c ≠ '\n').mapM sextet).bind join

variable (bytes : List UInt8)

theorem split_lt : ∀ n ∈ split bytes, n < 64 := by
  fun_induction split bytes with
  | case1 => simp
  | case2 x =>
    have hx := x.toNat_lt
    simp only [forall_mem_cons, not_mem_nil, false_imp_iff, implies_true, and_true]
    omega
  | case3 x y =>
    have hx := x.toNat_lt
    have hy := y.toNat_lt
    simp only [forall_mem_cons, not_mem_nil, false_imp_iff, implies_true, and_true]
    omega
  | case4 x y z rest ih =>
    have hx := x.toNat_lt
    have hy := y.toNat_lt
    have hz := z.toNat_lt
    simp only [forall_mem_cons]
    refine ⟨?_, ?_, ?_, ?_, ih⟩ <;> omega

theorem ofNat_group {n : ℕ} {x : UInt8} (h : n = x.toNat) : UInt8.ofNat n = x := by
  rw [h, UInt8.ofNat_toNat]

theorem join_split : join (split bytes) = some bytes := by
  fun_induction split bytes with
  | case1 => rfl
  | case2 x =>
    rw [join, ofNat_group (x := x) (by omega)]
  | case3 x y =>
    have hy := y.toNat_lt
    rw [join, ofNat_group (x := x) (by omega), ofNat_group (x := y) (by omega)]
  | case4 x y z rest ih =>
    have hy := y.toNat_lt
    have hz := z.toNat_lt
    rw [join, ih, map_some, ofNat_group (x := x) (by omega),
      ofNat_group (x := y) (by omega), ofNat_group (x := z) (by omega)]

theorem sextet_of_mem_encode {bytes : List UInt8} {c : Char} (h : c ∈ (encode bytes).toList) :
    sextet c ≠ none := by
  rw [encode, String.toList_ofList] at h
  obtain ⟨n, hn, rfl⟩ := List.mem_map.mp h
  rw [sextet_letter (split_lt bytes n hn)]
  exact some_ne_none n

theorem decode_encode : decode (encode bytes) = some bytes := by
  have hkeep : (encode bytes).toList.filter (fun c => c ≠ '\r' ∧ c ≠ '\n') =
      (encode bytes).toList := by
    rw [filter_eq_self]
    intro c hc
    have hsextet := sextet_of_mem_encode hc
    rw [decide_eq_true_iff]
    constructor
    · rintro rfl
      exact hsextet (by decide)
    · rintro rfl
      exact hsextet (by decide)
  rw [decode, hkeep, encode, String.toList_ofList,
    mapM_map_eq_some fun n hn => sextet_letter (split_lt bytes n hn), bind_some, join_split]

example : decode "TWFu-z" = some [77, 97, 110, 251] := by decide +kernel

def stdLetter (n : ℕ) : Char := if n = 62 then '+' else if n = 63 then '/' else letter n

def stdSextet (c : Char) : Option ℕ :=
  if c = '+' then some 62 else if c = '/' then some 63
  else if c = '-' ∨ c = '_' then none else sextet c

/-- `base64.StdEncoding`. -/
def encodeStd (bytes : List UInt8) : String :=
  String.ofList ((split bytes).map stdLetter ++ replicate ((3 - bytes.length % 3) % 3) '=')

def decodeStd (text : String) : Option (List UInt8) :=
  ((text.toList.filter (· ≠ '=')).mapM stdSextet).bind join

theorem decodeStd_encodeStd : decodeStd (encodeStd bytes) = some bytes := by
  have hall : ∀ k : Fin 64, stdSextet (stdLetter k) = some k.val ∧ stdLetter k ≠ '=' := by decide
  have hletters : ((split bytes).map stdLetter).filter (· ≠ '=') = (split bytes).map stdLetter := by
    rw [filter_eq_self]
    intro c hc
    obtain ⟨n, hn, rfl⟩ := List.mem_map.mp hc
    exact decide_eq_true (hall ⟨n, split_lt bytes n hn⟩).2
  rw [decodeStd, encodeStd, String.toList_ofList, filter_append, hletters, filter_replicate,
    if_neg (by simp), append_nil, mapM_map_eq_some fun n hn => (hall ⟨n, split_lt bytes n hn⟩).1,
    bind_some, join_split]

end BuiltOnEnvoy.Foundations.Base64
