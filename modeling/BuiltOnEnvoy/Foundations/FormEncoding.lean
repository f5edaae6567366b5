import BuiltOnEnvoy.Foundations.ByteText
import BuiltOnEnvoy.Foundations.Fallible
import BuiltOnEnvoy.Foundations.PercentEncoding

/-!
# Form encoding

`url.QueryEscape` and the form with one pair of name and value after another, with
the reader of both. A pair is split at its first separator, and each part is
decoded for itself.
-/

namespace BuiltOnEnvoy.Foundations

open List Option

def queryEscape (text : String) : String :=
  String.ofList (text.toList.flatMap fun c =>
    if c = ' ' then ['+'] else if alphanumOr "-_.~" c then [c] else escapeByte c)

def spaceOfPlus (c : Char) : Char := if c = '+' then ' ' else c

/-- `url.QueryUnescape`. -/
def formDecode (text : List Char) : Option String :=
  (pathUnescape (text.map spaceOfPlus)).map String.ofList

/-- The two sides of the first separator. -/
def decodePair (separator : Char) (text : List Char) : Option (String × String) :=
  (formDecode (text.takeWhile (· ≠ separator))).bind fun left =>
    (formDecode (text.dropWhile (· ≠ separator)).tail).map fun right => (left, right)

def encodePair (pair : String × Bytes) : String :=
  queryEscape pair.1 ++ "=" ++ queryEscape (byteText pair.2)

def decodeForm (body : String) : Option (List (String × Bytes)) :=
  (body.toList.splitOn '&').mapM fun text => (decodePair '=' text).map (Prod.map id ascii)

/-- No character that the decoder rewrites. -/
def Plain (text : List Char) : Prop := '+' ∉ text ∧ '%' ∉ text

theorem length_of_pathUnescape {text decoded : List Char}
    (h : pathUnescape text = some decoded) :
    decoded.length + 2 * text.count '%' = text.length := by
  fun_induction pathUnescape text generalizing decoded with
  | case1 => simp_all
  | case2 high low rest hi lo hhigh hlow ih =>
    obtain ⟨out, hout, rfl⟩ := map_eq_some_iff.mp h
    have hnot : ∀ c n, unhex c = some n → c ≠ '%' := by
      rintro c n hc rfl
      rw [show unhex '%' = none by decide] at hc
      cases hc
    have hlength := ih hout
    rw [count_cons_self, count_cons_of_ne (hnot high hi ‹_›),
      count_cons_of_ne (hnot low lo ‹_›)]
    simp only [length_cons]
    omega
  | case3 | case4 => cases h
  | case5 c rest _ hc ih =>
    obtain ⟨out, hout, rfl⟩ := map_eq_some_iff.mp h
    rw [count_cons_of_ne hc, length_cons, length_cons, ← ih hout]
    omega

theorem length_le_of_formDecode {text : List Char} {decoded : String}
    (h : formDecode text = some decoded) : decoded.toList.length ≤ text.length := by
  obtain ⟨out, hout, rfl⟩ := map_eq_some_iff.mp h
  have hlength := length_of_pathUnescape hout
  rw [length_map] at hlength
  rw [String.toList_ofList]
  omega

theorem map_spaceOfPlus_eq_iff {text : List Char} :
    text.map spaceOfPlus = text ↔ '+' ∉ text := by
  have hchar : ∀ c, spaceOfPlus c = c ↔ c ≠ '+' := by
    intro c
    unfold spaceOfPlus
    split_ifs with hc
    · simp [hc]
    · simp [hc]
  calc text.map spaceOfPlus = text ↔ text.map spaceOfPlus = text.map id := by rw [List.map_id]
    _ ↔ ∀ c ∈ text, c ≠ '+' := map_inj_left.trans (forall₂_congr fun c _ => hchar c)
    _ ↔ '+' ∉ text := ⟨fun h hmem => h _ hmem rfl, fun h c hc => ne_of_mem_of_not_mem hc h⟩

theorem percent_mem_map_spaceOfPlus {text : List Char} :
    '%' ∈ text.map spaceOfPlus ↔ '%' ∈ text := by
  have hchar : ∀ c, spaceOfPlus c = '%' ↔ c = '%' := by
    intro c
    unfold spaceOfPlus
    split_ifs with hc
    · simp [hc]
    · rfl
  simp [hchar]

/-- Decoding shortens every escape, so a text that stays the same has none. -/
theorem formDecode_self_iff (text : String) :
    formDecode text.toList = some text ↔ Plain text.toList := by
  constructor
  · intro h
    obtain ⟨out, hout, hself⟩ := map_eq_some_iff.mp h
    have htext : text.toList = out := by rw [← hself, String.toList_ofList]
    have hlength := length_of_pathUnescape hout
    rw [length_map, htext] at hlength
    have hpercent : '%' ∉ text.toList.map spaceOfPlus := by
      rw [← count_eq_zero, htext]
      omega
    rw [pathUnescape_of_notMem hpercent, Option.some.injEq, ← htext] at hout
    exact ⟨map_spaceOfPlus_eq_iff.mp hout, fun hmem =>
      hpercent (percent_mem_map_spaceOfPlus.mpr hmem)⟩
  · rintro ⟨hplus, hpercent⟩
    rw [formDecode, map_spaceOfPlus_eq_iff.mpr hplus, pathUnescape_of_notMem hpercent, map_some,
      String.ofList_toList]

theorem decodePair_append {separator : Char} {left : List Char} (h : separator ∉ left)
    (right : List Char) :
    decodePair separator (left ++ separator :: right) =
      (formDecode left).bind fun l => (formDecode right).map fun r => (l, r) := by
  have hstop := @takeWhile_append_stop (· ≠ separator) left (separator :: right)
    (fun c hc => decide_eq_true (ne_of_mem_of_not_mem hc h)) (by simp)
  rw [decodePair, hstop.1, hstop.2, tail_cons]

theorem decodePair_eq_some {separator : Char} {left right : List Char} {l r : String}
    (h : separator ∉ left)
    (hpair : decodePair separator (left ++ separator :: right) = some (l, r)) :
    formDecode left = some l ∧ formDecode right = some r := by
  rw [decodePair_append h] at hpair
  obtain ⟨l', hleft, hpair⟩ := bind_eq_some_iff.mp hpair
  obtain ⟨r', hright, heq⟩ := map_eq_some_iff.mp hpair
  cases heq
  exact ⟨hleft, hright⟩

/-- A pair that is not escaped is read as it stands exactly if its left side does not hold the
separator and neither side an escape: what an earlier separator cuts off is too short. -/
theorem decodePair_self_iff {separator : Char} (left right : String) :
    decodePair separator (left.toList ++ separator :: right.toList) = some (left, right) ↔
      separator ∉ left.toList ∧ Plain left.toList ∧ Plain right.toList := by
  rw [← formDecode_self_iff, ← formDecode_self_iff]
  constructor
  · intro h
    by_cases hmem : separator ∈ left.toList
    · obtain ⟨front, back, hsplit, hfront⟩ := eq_append_cons_of_mem hmem
      rw [hsplit, append_assoc, cons_append] at h
      have hshort := length_le_of_formDecode (decodePair_eq_some hfront h).1
      rw [hsplit, length_append, length_cons] at hshort
      omega
    · exact ⟨hmem, decodePair_eq_some hmem h⟩
  · rintro ⟨hmem, hleft, hright⟩
    rw [decodePair_append hmem, hleft, hright]
    rfl

theorem map_spaceOfPlus_queryEscape (text : String) :
    (queryEscape text).toList.map spaceOfPlus = escape (alphanumOr "-_.~ ") text.toList := by
  rw [queryEscape, String.toList_ofList, map_flatMap, escape]
  refine flatMap_congr fun c _ => ?_
  by_cases hspace : c = ' '
  · rw [hspace]
    decide
  · have hkept : alphanumOr "-_.~ " c = alphanumOr "-_.~" c := by
      simp [alphanumOr, hspace]
    rw [if_neg hspace, hkept]
    split_ifs with hc
    · refine map_spaceOfPlus_eq_iff.mpr fun hplus => ?_
      rw [← mem_singleton.mp hplus] at hc
      exact absurd hc (by decide)
    · refine map_spaceOfPlus_eq_iff.mpr fun hplus => ?_
      have hmem : '+' ∈ escape (alphanumOr "-_.~") [c] := by simpa [escape, hc] using hplus
      exact absurd (mem_escape hmem) (by decide)

theorem formDecode_queryEscape {text : String} (h : ∀ c ∈ text.toList, c.toNat < 256) :
    formDecode (queryEscape text).toList = some text := by
  rw [formDecode, map_spaceOfPlus_queryEscape, pathUnescape_escape_bytes (by decide) h, map_some,
    String.ofList_toList]

theorem notMem_queryEscape {c : Char}
    (hc : ¬(alphanumOr "-_.~ " (spaceOfPlus c) = true ∨ spaceOfPlus c = '%')) (text : String) :
    c ∉ (queryEscape text).toList := by
  intro hmem
  have hescape := List.mem_map_of_mem (f := spaceOfPlus) hmem
  rw [map_spaceOfPlus_queryEscape] at hescape
  exact hc (mem_escape hescape)

theorem toNat_lt_of_mem_byteText {bytes : Bytes} :
    ∀ c ∈ (byteText bytes).toList, c.toNat < 256 := by
  intro c hc
  rw [byteText, String.toList_ofList] at hc
  obtain ⟨b, -, rfl⟩ := List.mem_map.mp hc
  rw [toNat_byte]
  exact b.toNat_lt

theorem decodeForm_encode {pairs : List (String × Bytes)} (hne : pairs ≠ [])
    (hnames : ∀ p ∈ pairs, ∀ c ∈ p.1.toList, c.toNat < 256) :
    decodeForm ("&".intercalate (pairs.map encodePair)) = some pairs := by
  have hsplit : ("&".intercalate (pairs.map encodePair)).toList.splitOn '&' =
      pairs.map fun p => (encodePair p).toList := by
    rw [String.toList_intercalate, List.map_map]
    refine splitOn_intercalate '&' ?_ (by simpa using hne)
    intro text htext hmem
    obtain ⟨p, -, rfl⟩ := List.mem_map.mp htext
    simp only [Function.comp_apply, encodePair, String.toList_append, mem_append] at hmem
    rcases hmem with (hname | hsign) | hvalue
    · exact notMem_queryEscape (by decide) _ hname
    · exact absurd hsign (by decide)
    · exact notMem_queryEscape (by decide) _ hvalue
  rw [decodeForm, hsplit]
  refine mapM_map_eq_some fun p hp => ?_
  have hpair : (encodePair p).toList =
      (queryEscape p.1).toList ++ '=' :: (queryEscape (byteText p.2)).toList := by
    simp [encodePair]
  rw [hpair, decodePair_append (notMem_queryEscape (by decide) _),
    formDecode_queryEscape (hnames p hp), formDecode_queryEscape toNat_lt_of_mem_byteText]
  simp [ascii_byteText]

end BuiltOnEnvoy.Foundations
