import BuiltOnEnvoy.Foundations.LetterCase
import BuiltOnEnvoy.Foundations.TextParsing

/-!
# Percent encoding

How `net/url` escapes the bytes of a text that its place in a URL does not take,
and that unescaping gives the bytes back. Texts have one character for each byte.
-/

namespace BuiltOnEnvoy.Foundations

open List Option

/-- The letters and digits of ASCII and some signs. -/
def alphanumOr (signs : String) (c : Char) : Bool := c.isAlphanum || signs.toList.contains c

/-- What a path keeps. -/
def keptInPath : Char → Bool := alphanumOr "-_.~$&+,/:;=@"

/-- What a host keeps. -/
def keptInHost : Char → Bool := alphanumOr "-_.~!$&\x27()*+,;=:[]<>\""

def upperHex (n : ℕ) : Char :=
  if n < 10 then Char.ofNat (48 + n) else Char.ofNat (55 + n)

def escapeByte (c : Char) : List Char :=
  ['%', upperHex (c.toNat / 16 % 16), upperHex (c.toNat % 16)]

def escape (kept : Char → Bool) (text : List Char) : List Char :=
  text.flatMap fun c => if kept c then [c] else escapeByte c

variable {c : Char}

theorem forall_ascii {P : Char → Bool} (h : ∀ n < 128, P (Char.ofNat n) = true)
    (hc : c.toNat < 128) : P c = true := by
  have hn := h c.toNat hc
  rwa [Char.ofNat_toNat] at hn

theorem toNat_of_isAlphanum (h : c.isAlphanum = true) :
    48 ≤ c.toNat ∧ c.toNat ≤ 122 := by
  rw [Char.isAlphanum, Char.isAlpha, Bool.or_eq_true, Bool.or_eq_true, isUpper_iff, isLower_iff,
    isDigit_iff] at h
  omega

theorem alphanumOr_of_isAlphanum (signs : String) (c : Char) (h : c.isAlphanum = true) :
    alphanumOr signs c = true := by
  rw [alphanumOr, h, Bool.true_or]

theorem alphanumOr_mono {signs more : String} (hmore : signs.toList.all more.toList.contains)
    (h : alphanumOr signs c = true) : alphanumOr more c = true := by
  rw [alphanumOr, Bool.or_eq_true, contains_iff_mem] at h
  rcases h with h | h
  · exact alphanumOr_of_isAlphanum more c h
  · rw [alphanumOr, List.all_eq_true.mp hmore c h, Bool.or_true]

theorem toNat_of_alphanumOr {signs : String}
    (hsigns : signs.toList.all fun c => 32 < c.toNat && c.toNat < 127)
    (h : alphanumOr signs c = true) : 32 < c.toNat ∧ c.toNat < 127 := by
  rw [alphanumOr, Bool.or_eq_true, contains_iff_mem] at h
  rcases h with h | h
  · have hrange := toNat_of_isAlphanum h
    omega
  · simpa using List.all_eq_true.mp hsigns c h

theorem unhex_upperHex {n : ℕ} (h : n < 16) : unhex (upperHex n) = some n := by
  have hall : ∀ m < 16, unhex (upperHex m) = some m := by decide
  exact hall n h

theorem isAlphanum_upperHex {n : ℕ} (h : n < 16) : (upperHex n).isAlphanum = true := by
  have hall : ∀ m < 16, (upperHex m).isAlphanum = true := by decide
  exact hall n h

theorem pathUnescape_cons (h : c ≠ '%') (rest : List Char) :
    pathUnescape (c :: rest) = (pathUnescape rest).map (c :: ·) := by
  rw [pathUnescape.eq_def]
  split
  · rename_i heq
    cases heq
  · rename_i heq
    exact absurd (List.cons.inj heq).1 h
  · rename_i heq
    obtain ⟨rfl, rfl⟩ := List.cons.inj heq
    rw [if_neg h]

theorem pathUnescape_escapeByte (c : Char) (rest : List Char) :
    pathUnescape (escapeByte c ++ rest) =
      (pathUnescape rest).map (Char.ofNat (c.toNat % 256) :: ·) := by
  have hvalue : 16 * (c.toNat / 16 % 16) + c.toNat % 16 = c.toNat % 256 := by omega
  simp only [escapeByte, cons_append, nil_append, pathUnescape,
    unhex_upperHex (Nat.mod_lt _ (by decide : 16 > 0)), hvalue]

theorem unhex_lt {n : ℕ} (h : unhex c = some n) : n < 16 := by
  unfold unhex at h
  split_ifs at h with hdigit hlower hupper <;> rw [Option.some.injEq] at h
  · have hle : c.toNat ≤ '9'.toNat := hdigit.2
    change c.toNat ≤ 57 at hle
    change c.toNat - 48 = n at h
    omega
  · have hle : c.toNat ≤ 'f'.toNat := hlower.2
    change c.toNat ≤ 102 at hle
    change c.toNat - 97 + 10 = n at h
    omega
  · have hle : c.toNat ≤ 'F'.toNat := hupper.2
    change c.toNat ≤ 70 at hle
    change c.toNat - 65 + 10 = n at h
    omega

theorem pathUnescape_of_notMem {text : List Char} (h : '%' ∉ text) :
    pathUnescape text = some text := by
  induction text with
  | nil => rfl
  | cons c text ih =>
    rw [mem_cons, not_or] at h
    rw [pathUnescape_cons (Ne.symm h.1), ih h.2, map_some]

theorem pathUnescape_append (hpercent : c ≠ '%') (hhex : unhex c = none)
    (first second : List Char) :
    pathUnescape (first ++ c :: second) =
      (pathUnescape first).bind fun f => (pathUnescape second).map fun s => f ++ c :: s := by
  fun_induction pathUnescape first with
  | case1 => rw [nil_append, pathUnescape_cons hpercent, bind_some]; rfl
  | case2 high low rest h l hhigh hlow ih =>
    simp only [cons_append, pathUnescape, hhigh, hlow, ih]
    cases pathUnescape rest with
    | none => rfl
    | some f => cases pathUnescape second <;> rfl
  | case3 high low rest hbad =>
    simp only [cons_append, pathUnescape]
    rfl
  | case4 rest hshort =>
    -- the escape is cut short, and the separator is no digit of it
    rcases rest with _ | ⟨high, _ | ⟨low, rest⟩⟩
    · cases second <;> simp [pathUnescape, hhex]
    · cases h : unhex high <;> simp [pathUnescape, hhex, h]
    · exact absurd rfl (hshort high low rest rfl)
  | case5 d rest _ hd ih =>
    rw [cons_append, pathUnescape_cons hd, ih]
    cases pathUnescape rest with
    | none => rfl
    | some f => cases pathUnescape second <;> rfl

theorem toNat_lt_of_pathUnescape {text decoded : List Char} (h : pathUnescape text = some decoded)
    (htext : ∀ c ∈ text, c.toNat < 256) : ∀ c ∈ decoded, c.toNat < 256 := by
  fun_induction pathUnescape text generalizing decoded with
  | case1 =>
    cases h
    simp
  | case2 high low rest hi lo hhigh hlow ih =>
    obtain ⟨out, hout, rfl⟩ := map_eq_some_iff.mp h
    have hrest := ih hout fun c hc => htext c (by simp [hc])
    have hlt : 16 * hi + lo < 256 := by
      have := unhex_lt hhigh
      have := unhex_lt hlow
      omega
    have hvalid : (16 * hi + lo).isValidChar := .inl (by omega)
    refine forall_mem_cons.mpr ⟨?_, hrest⟩
    rw [Char.ofNat, dif_pos hvalid]
    exact hlt
  | case3 | case4 rest => cases h
  | case5 c rest hpattern hne ih =>
    obtain ⟨out, hout, rfl⟩ := map_eq_some_iff.mp h
    obtain ⟨hc, hrest⟩ := forall_mem_cons.mp htext
    exact forall_mem_cons.mpr ⟨hc, ih hout hrest⟩

section

variable {kept : Char → Bool} {text : List Char}

theorem escape_cons (c : Char) (text : List Char) :
    escape kept (c :: text) = (if kept c then [c] else escapeByte c) ++ escape kept text :=
  flatMap_cons

theorem pathUnescape_escape (hpercent : kept '%' = false) (text : List Char) :
    pathUnescape (escape kept text) =
      some (text.map fun c => if kept c then c else Char.ofNat (c.toNat % 256)) := by
  induction text with
  | nil => rfl
  | cons c text ih =>
    rw [escape_cons, map_cons]
    by_cases hc : kept c = true
    · have hne : c ≠ '%' := by
        rintro rfl
        rw [hc] at hpercent
        cases hpercent
      rw [if_pos hc, if_pos hc, singleton_append, pathUnescape_cons hne, ih, map_some]
    · rw [if_neg hc, if_neg hc, pathUnescape_escapeByte, ih, map_some]

theorem pathUnescape_escape_bytes (hpercent : kept '%' = false) (h : ∀ c ∈ text, c.toNat < 256) :
    pathUnescape (escape kept text) = some text := by
  rw [pathUnescape_escape hpercent]
  refine congrArg some ((map_congr_left ?_).trans (List.map_id text))
  intro c hc
  split_ifs
  · rfl
  · rw [Nat.mod_eq_of_lt (h c hc), Char.ofNat_toNat]
    rfl

theorem length_le_escape (text : List Char) : text.length ≤ (escape kept text).length := by
  induction text with
  | nil => exact Nat.zero_le _
  | cons c text ih =>
    rw [escape_cons, length_append, length_cons]
    split_ifs
    · rw [length_singleton]
      omega
    · rw [escapeByte]
      simp only [length_cons, length_nil]
      omega

theorem escape_eq_self_iff : escape kept text = text ↔ ∀ c ∈ text, kept c = true := by
  induction text with
  | nil => simp [escape]
  | cons c text ih =>
    rw [escape_cons, forall_mem_cons]
    by_cases hc : kept c = true
    · rw [if_pos hc, singleton_append, cons_inj_right, ih]
      exact (and_iff_right hc).symm
    · rw [if_neg hc]
      constructor
      · intro h
        have hlength := congrArg List.length h
        have hle := @length_le_escape kept text
        simp only [escapeByte, length_append, length_cons, length_nil] at hlength
        omega
      · exact fun h => absurd h.1 hc

end

theorem mem_escape {signs : String} {text : List Char} (h : c ∈ escape (alphanumOr signs) text) :
    alphanumOr signs c = true ∨ c = '%' := by
  have hhex : ∀ n, alphanumOr signs (upperHex (n % 16)) = true := fun n =>
    alphanumOr_of_isAlphanum signs _ (isAlphanum_upperHex (Nat.mod_lt n (by decide)))
  obtain ⟨a, -, hc⟩ := mem_flatMap.mp h
  split_ifs at hc with ha
  · rw [mem_singleton] at hc
    exact .inl (hc ▸ ha)
  · simp only [escapeByte, mem_cons, not_mem_nil, or_false] at hc
    rcases hc with rfl | rfl | rfl
    · exact .inr rfl
    · exact .inl (hhex _)
    · exact .inl (hhex _)

end BuiltOnEnvoy.Foundations
