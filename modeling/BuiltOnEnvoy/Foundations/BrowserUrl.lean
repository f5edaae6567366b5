import Mathlib.Data.List.DropRight
import BuiltOnEnvoy.Foundations.ByteText
import BuiltOnEnvoy.Foundations.GoUrl

/-!
# URLs as browsers resolve them

The URL parser of the WHATWG URL standard, as far as the origin of the result
goes, for a base URL with the scheme http or https. The tables behind domains
and the syntax of IPv6 addresses stay open. Texts have one character for each
byte; all that the parser looks at is in ASCII.
-/

namespace BuiltOnEnvoy.Foundations

open List

/-- The host parser behind the percent decoding. Neither part minds the case of ASCII
letters. -/
structure BrowserHosts (H : Type) where
  /-- Domain to ASCII, with its checks and the numbers of IPv4. -/
  domain : List Char → Option H
  ipv6 : List Char → Option H
  domain_lower : ∀ text, domain (text.map Char.toLower) = domain text
  ipv6_lower : ∀ text, ipv6 (text.map Char.toLower) = ipv6 text

/-- A tuple, or an origin that is the same as no other. -/
inductive Origin (H : Type)
  | tuple (scheme : List Char) (host : H) (port : Option ℕ)
  | isolated

/-- The base URL, by its origin. -/
structure Service (H : Type) where
  scheme : List Char
  host : H
  port : Option ℕ
  http : scheme = "http".toList ∨ scheme = "https".toList

def Service.origin {H : Type} (service : Service H) : Origin H :=
  .tuple service.scheme service.host service.port

/-- A percent sign without two hexadecimal digits stands for itself. -/
def percentDecode : List Char → List Char
  | [] => []
  | '%' :: high :: low :: rest =>
    match unhex high, unhex low with
    | some h, some l => Char.ofNat (16 * h + l) :: percentDecode rest
    | _, _ => '%' :: percentDecode (high :: low :: rest)
  | c :: rest => c :: percentDecode rest

section

variable {H : Type} (b : BrowserHosts H)

def BrowserHosts.host (text : List Char) : Option H :=
  if text.head? = some '[' then
    if text.getLast? = some ']' then b.ipv6 text.tail.dropLast else none
  else b.domain (runes (String.ofList (percentDecode text)))

/-- The host ends at the first colon outside brackets. -/
def hostPart : Bool → List Char → List Char
  | _, [] => []
  | inside, c :: rest =>
    if c = ':' ∧ inside = false then []
    else c :: hostPart (if c = '[' then true else if c = ']' then false else inside) rest

def defaultPort (scheme : List Char) : Option ℕ :=
  if scheme = "http".toList ∨ scheme = "ws".toList then some 80
  else if scheme = "https".toList ∨ scheme = "wss".toList then some 443
  else if scheme = "ftp".toList then some 21
  else none

/-- The port, without the default one. -/
def portNumber (scheme text : List Char) : Option (Option ℕ) :=
  if ¬text.all Char.isDigit then none
  else if text = [] then some none
  else if 65535 < digitsValue text then none
  else if defaultPort scheme = some (digitsValue text) then some none
  else some (some (digitsValue text))

def hostOrigin (scheme text : List Char) : Option (Origin H) :=
  if hostPart false text = [] then none
  else
    match b.host (hostPart false text),
      portNumber scheme (text.drop (hostPart false text).length).tail with
    | some host, some port => some (.tuple scheme host port)
    | _, _ => none

def afterLast (c : Char) (text : List Char) : List Char :=
  (text.reverse.takeWhile (· ≠ c)).reverse

/-- In a URL with a special scheme, a backslash ends the authority too. -/
def authorityOrigin (scheme text : List Char) : Option (Origin H) :=
  hostOrigin b scheme
    (afterLast '@' (text.takeWhile fun c => !isDelimiter c && c ≠ '\\'))

def isBlank (c : Char) : Bool := c.toNat ≤ 32

def isTabOrNewline (c : Char) : Bool := c = '\t' || c = '\n' || c = '\r'

def cleaned (text : List Char) : List Char :=
  ((text.dropWhile isBlank).rdropWhile isBlank).filter (!isTabOrNewline ·)

def isSlash (c : Char) : Bool := c = '/' || c = '\\'

/-- The special schemes but `file`. -/
def specialSchemes : List (List Char) :=
  ["http".toList, "https".toList, "ws".toList, "wss".toList, "ftp".toList]

/-- The text behind two slashes at the start, and behind the slashes that follow these. -/
def slashedAuthority : List Char → Option (List Char)
  | c :: c' :: rest => if isSlash c ∧ isSlash c' then some (rest.dropWhile isSlash) else none
  | _ => none

def resolveRelative (service : Service H) (text : List Char) : Option (Origin H) :=
  match slashedAuthority text with
  | some authority => authorityOrigin b service.scheme authority
  | none => some service.origin

/-- The origin of a URL, or of a reference in a page of the service. -/
def resolve (service : Service H) (text : List Char) : Option (Origin H) :=
  match getScheme (cleaned text) with
  | some (first :: word, rest) =>
    let scheme := (first :: word).map Char.toLower
    if scheme ∈ specialSchemes then
      if scheme = service.scheme ∧ ¬"//".toList.isPrefixOf rest then
        resolveRelative b service rest
      else authorityOrigin b scheme (rest.dropWhile isSlash)
    else some .isolated
  | _ => resolveRelative b service (cleaned text)

end

/-- ASCII without a percent sign. -/
def isPlainHostChar (c : Char) : Bool := c.toNat < 128 && c ≠ '%'

variable {text : List Char}

theorem percentDecode_of_notMem (h : '%' ∉ text) :
    percentDecode text = text := by
  induction text with
  | nil => rfl
  | cons c text ih =>
    rw [mem_cons, not_or] at h
    rw [percentDecode.eq_def]
    split
    · rename_i heq
      cases heq
    · rename_i heq
      exact absurd (List.cons.inj heq).1.symm h.1
    · rename_i heq
      obtain ⟨rfl, rfl⟩ := List.cons.inj heq
      rw [ih h.2]

theorem runes_of_plain (h : text.all isPlainHostChar = true) :
    runes (String.ofList (percentDecode text)) = text := by
  have hplain := List.all_eq_true.mp h
  have hpercent : '%' ∉ text := fun hmem => absurd (hplain '%' hmem) (by decide)
  have hascii : ∀ c ∈ text, c.toNat < 128 := by
    intro c hc
    have hchar := hplain c hc
    rw [isPlainHostChar, Bool.and_eq_true, decide_eq_true_eq] at hchar
    exact hchar.1
  rw [percentDecode_of_notMem hpercent, runes_of_ascii, String.toList_ofList]
  rwa [String.toList_ofList]

theorem isPlainHostChar_toLower (c : Char) : isPlainHostChar c.toLower = isPlainHostChar c := by
  have hpercent : c.toLower = '%' ↔ c = '%' := toLower_eq_iff (by decide)
  have hascii : c.toLower.toNat < 128 ↔ c.toNat < 128 := by
    rw [toNat_toLower]
    split_ifs <;> omega
  simp [isPlainHostChar, hpercent, hascii]

section

variable {H : Type} (b : BrowserHosts H)

theorem BrowserHosts.host_lower {text : List Char} (h : text.all isPlainHostChar = true) :
    b.host (text.map Char.toLower) = b.host text := by
  have hlower : (text.map Char.toLower).all isPlainHostChar = true := by
    rw [List.all_map]
    simpa [Function.comp_def, isPlainHostChar_toLower] using h
  have hopen : (text.map Char.toLower).head? = some '[' ↔ text.head? = some '[' := by
    rw [head?_map, Option.map_eq_some_iff]
    simp [toLower_eq_iff (by decide : '['.isAlpha = false)]
  have hclose : (text.map Char.toLower).getLast? = some ']' ↔ text.getLast? = some ']' := by
    rw [getLast?_map, Option.map_eq_some_iff]
    simp [toLower_eq_iff (by decide : ']'.isAlpha = false)]
  unfold BrowserHosts.host
  by_cases hbracket : text.head? = some '['
  · rw [if_pos (hopen.mpr hbracket), if_pos hbracket]
    by_cases hend : text.getLast? = some ']'
    · rw [if_pos (hclose.mpr hend), if_pos hend, ← map_tail, ← map_dropLast, b.ipv6_lower]
    · rw [if_neg (hclose.not.mpr hend), if_neg hend]
  · rw [if_neg (hopen.not.mpr hbracket), if_neg hbracket, runes_of_plain hlower, runes_of_plain h,
      b.domain_lower]

theorem hostPart_lower (text : List Char) (inside : Bool) :
    hostPart inside (text.map Char.toLower) = (hostPart inside text).map Char.toLower := by
  induction text generalizing inside with
  | nil => rfl
  | cons c text ih =>
    have hcolon : c.toLower = ':' ↔ c = ':' := toLower_eq_iff (by decide)
    have hopen : c.toLower = '[' ↔ c = '[' := toLower_eq_iff (by decide)
    have hclose : c.toLower = ']' ↔ c = ']' := toLower_eq_iff (by decide)
    rw [map_cons, hostPart, hostPart]
    simp only [hcolon, hopen, hclose, ih]
    split_ifs <;> rfl

theorem isDigit_toLower (c : Char) : c.toLower.isDigit = c.isDigit := by
  rw [Bool.eq_iff_iff, isDigit_iff, isDigit_iff, toNat_toLower]
  split_ifs <;> omega

theorem portNumber_lower (scheme text : List Char) :
    portNumber scheme (text.map Char.toLower) = portNumber scheme text := by
  have hall : (text.map Char.toLower).all Char.isDigit = text.all Char.isDigit := by
    rw [List.all_map]
    congr 1
    funext c
    exact isDigit_toLower c
  by_cases hdigits : text.all Char.isDigit = true
  · -- digits have no case
    have hsame : text.map Char.toLower = text := by
      refine (map_congr_left fun c hc => ?_).trans (List.map_id text)
      have hdigit := isDigit_iff.mp (List.all_eq_true.mp hdigits c hc)
      rw [id_eq, ← Char.toNat_inj, toNat_toLower, if_neg (by omega)]
    rw [hsame]
  · rw [portNumber, portNumber, hall, if_pos hdigits, if_pos hdigits]

theorem mem_of_mem_hostPart {text : List Char} {inside : Bool} {c : Char}
    (h : c ∈ hostPart inside text) : c ∈ text := by
  induction text generalizing inside with
  | nil => cases h
  | cons a text ih =>
    rw [hostPart] at h
    split_ifs at h
    · cases h
    all_goals
      rcases mem_cons.mp h with rfl | h
      · exact mem_cons_self
      · exact mem_cons_of_mem _ (ih h)

theorem hostOrigin_lower (scheme : List Char) {text : List Char}
    (h : text.all isPlainHostChar = true) :
    hostOrigin b scheme (text.map Char.toLower) = hostOrigin b scheme text := by
  have hhost : (hostPart false text).all isPlainHostChar = true :=
    List.all_eq_true.mpr fun c hc => List.all_eq_true.mp h c (mem_of_mem_hostPart hc)
  simp only [hostOrigin, hostPart_lower, b.host_lower hhost, length_map, map_eq_nil_iff,
    ← map_drop, ← map_tail, portNumber_lower]

/-- Hosts in plain ASCII that differ in the case of letters have one origin. -/
theorem hostOrigin_sameUpToCase (scheme : List Char) {text other : List Char}
    (htext : text.all isPlainHostChar = true) (hother : other.all isPlainHostChar = true)
    (h : SameUpToCase text other) : hostOrigin b scheme text = hostOrigin b scheme other := by
  rw [← hostOrigin_lower b scheme htext, ← hostOrigin_lower b scheme hother, h]

end

theorem rdropWhile_append_of_last {p : Char → Bool} {front : List Char}
    (h : ∀ c ∈ front, p c = false) (tail : List Char) :
    (front ++ tail).rdropWhile p = front ++ tail.rdropWhile p := by
  induction tail using List.reverseRecOn with
  | nil =>
    rw [append_nil, rdropWhile_nil, append_nil, rdropWhile_eq_self_iff]
    intro hl
    rw [h _ (getLast_mem hl)]
    decide
  | append_singleton tail c ih =>
    rw [← append_assoc, rdropWhile_concat, rdropWhile_concat, ih]
    split_ifs
    · rfl
    · rw [append_assoc]

/-- What is left of the end of a text. -/
def cleanedTail (tail : List Char) : List Char :=
  (tail.rdropWhile isBlank).filter (!isTabOrNewline ·)

theorem isTabOrNewline_of_not_isBlank {c : Char} (h : isBlank c = false) :
    isTabOrNewline c = false := by
  have hne : ∀ x, isBlank x = true → c ≠ x := by
    rintro x hx rfl
    rw [h] at hx
    cases hx
  simp [isTabOrNewline, hne '\t' (by decide), hne '\n' (by decide), hne '\r' (by decide)]

theorem cleaned_append {front : List Char} (hne : front ≠ []) (h : ∀ c ∈ front, isBlank c = false)
    (tail : List Char) : cleaned (front ++ tail) = front ++ cleanedTail tail := by
  have hstart : (front ++ tail).dropWhile isBlank = front ++ tail := by
    cases front with
    | nil => exact absurd rfl hne
    | cons c front => simp [h c mem_cons_self]
  have hkeep : front.filter (!isTabOrNewline ·) = front := by
    rw [filter_eq_self]
    intro c hc
    rw [isTabOrNewline_of_not_isBlank (h c hc)]
    rfl
  rw [cleaned, hstart, rdropWhile_append_of_last h, filter_append, hkeep, cleanedTail]

theorem startsDelimited_cleanedTail {tail : List Char} (h : StartsDelimited tail) :
    StartsDelimited (cleanedTail tail) := by
  cases tail with
  | nil => exact h
  | cons c tail =>
    have hdelimiter : isDelimiter c = true := h c rfl
    have hblank : isBlank c = false := by
      simp only [isDelimiter, Bool.or_eq_true, decide_eq_true_eq] at hdelimiter
      rcases hdelimiter with (rfl | rfl) | rfl <;> decide
    have hone : ∀ x ∈ [c], isBlank x = false := by simpa using hblank
    have hcleaned : cleanedTail (c :: tail) = c :: cleanedTail tail := by
      rw [cleanedTail, ← singleton_append, rdropWhile_append_of_last hone,
        singleton_append, filter_cons_of_pos, cleanedTail]
      rw [isTabOrNewline_of_not_isBlank hblank]
      rfl
    rw [hcleaned]
    exact h

theorem afterLast_append {c : Char} {front text : List Char}
    (hfront : ∀ x ∈ front.getLast?, x = c) (h : c ∉ text) : afterLast c (front ++ text) = text := by
  have hall : ∀ x ∈ text.reverse, decide (x ≠ c) = true := by
    intro x hx
    rw [decide_eq_true_eq]
    rintro rfl
    exact h (mem_reverse.mp hx)
  have hstop : ∀ x ∈ front.reverse.head?, decide (x ≠ c) = false := by
    intro x hx
    rw [head?_reverse] at hx
    simp [hfront x hx]
  rw [afterLast, reverse_append, (takeWhile_append_stop hall hstop).1, reverse_reverse]

/-- Characters that both parsers read as part of an authority. -/
def isAuthorityChar (c : Char) : Bool := !isBlank c && !isDelimiter c && c ≠ '\\'

theorem isAuthorityChar_of_alphanumOr {signs : String}
    (hsigns : signs.toList.all fun c => 32 < c.toNat && c.toNat < 127)
    (hends : ['/', '?', '#', '\\'].all fun c => !alphanumOr signs c) {c : Char}
    (h : alphanumOr signs c = true) : isAuthorityChar c = true := by
  have hrange := toNat_of_alphanumOr hsigns h
  have hblank : isBlank c = false := by
    rw [isBlank, decide_eq_false_iff_not]
    omega
  simp only [all_cons, all_nil, Bool.and_true, Bool.and_eq_true, Bool.not_eq_true']
    at hends
  simp [isAuthorityChar, isDelimiter, hblank, ne_of_class h hends.1, ne_of_class h hends.2.1,
    ne_of_class h hends.2.2.1, ne_of_class h hends.2.2.2]

theorem isAuthorityChar_of_isUserinfo {userinfo : List Char} (h : IsUserinfo userinfo) :
    ∀ c ∈ userinfo, isAuthorityChar c = true := by
  rcases h with rfl | ⟨user, rfl, huser⟩
  · simp
  · rw [forall_mem_append]
    exact ⟨fun c hc => isAuthorityChar_of_alphanumOr (by decide) (by decide) (huser c hc),
      forall_mem_singleton.mpr (by decide)⟩

theorem isAuthorityChar_of_accepts {hosts : HostSyntax} (h : hosts.accepts text = true) :
    ∀ c ∈ text, isAuthorityChar c = true := by
  intro c hc
  rcases hosts.chars h c hc with rfl | hkept | ⟨hbyte, -⟩
  · decide
  · exact isAuthorityChar_of_alphanumOr (by decide) (by decide) hkept
  · have hne : ∀ x : Char, x.toNat < 128 → c ≠ x := by
      rintro x hx rfl
      omega
    have hblank : isBlank c = false := by
      rw [isBlank, decide_eq_false_iff_not]
      omega
    simp [isAuthorityChar, isDelimiter, hblank, hne '/' (by decide), hne '?' (by decide),
      hne '#' (by decide), hne '\\' (by decide)]

/-- The host and the port, as they are spelled. -/
def hostTextOf (text : List Char) : List Char := afterLast '@' (authorityText text)

theorem hostText_ne_nil {hosts : HostSyntax} {text host : List Char}
    (h : hosts.parse text = some host) (hhost : host ≠ []) : text ≠ [] := by
  rintro rfl
  exact hhost (Option.some.inj (hosts.parse_eq_some h).2).symm

section

variable {hosts : HostSyntax} {userinfo hostText : List Char} (huserinfo : IsUserinfo userinfo)
  (haccepts : hosts.accepts hostText = true)
include huserinfo haccepts

theorem isAuthorityChar_of_mem :
    ∀ c ∈ userinfo ++ hostText, isAuthorityChar c = true := by
  rw [forall_mem_append]
  exact ⟨isAuthorityChar_of_isUserinfo huserinfo, isAuthorityChar_of_accepts haccepts⟩

theorem afterLast_authority : afterLast '@' (userinfo ++ hostText) = hostText := by
  have hat : '@' ∉ hostText := by
    intro hmem
    exact absurd (hosts.chars haccepts '@' hmem) (by decide)
  apply afterLast_append _ hat
  rcases huserinfo with rfl | ⟨user, rfl, -⟩
  · simp
  · simp

/-- An authority ends at its first delimiter, for both ways to look for one. -/
theorem takeWhile_authority {tail : List Char} (htail : StartsDelimited tail) {p : Char → Bool}
    (hchar : ∀ c, isAuthorityChar c = true → p c = true)
    (hdelimiter : ∀ c, isDelimiter c = true → p c = false) :
    (userinfo ++ hostText ++ tail).takeWhile p = userinfo ++ hostText :=
  (takeWhile_append_stop
    (fun c hc => hchar c (isAuthorityChar_of_mem huserinfo haccepts c hc))
    (fun c hc => hdelimiter c (htail c hc))).1

theorem authorityOrigin_append {H : Type} (b : BrowserHosts H) (scheme : List Char)
    {tail : List Char} (htail : StartsDelimited tail) :
    authorityOrigin b scheme (userinfo ++ hostText ++ tail) = hostOrigin b scheme hostText := by
  have hchar : ∀ c, isAuthorityChar c = true → (!isDelimiter c && c ≠ '\\') = true := by
    intro c hc
    simp only [isAuthorityChar, Bool.and_assoc, Bool.and_eq_true] at hc
    simpa using hc.2
  have hdelimiter : ∀ c, isDelimiter c = true → (!isDelimiter c && c ≠ '\\') = false := by
    intro c hc
    rw [hc]
    rfl
  rw [authorityOrigin, takeWhile_authority huserinfo haccepts htail hchar hdelimiter,
    afterLast_authority huserinfo haccepts]

theorem hostTextOf_append {word tail : List Char} (hword : SchemeWord word)
    (htail : StartsDelimited tail) :
    hostTextOf (word ++ ':' :: '/' :: '/' :: (userinfo ++ hostText ++ tail)) = hostText := by
  have hchar : ∀ c, isAuthorityChar c = true → (!isDelimiter c) = true := by
    intro c hc
    simp only [isAuthorityChar, Bool.and_eq_true] at hc
    exact hc.1.2
  have hdelimiter : ∀ c, isDelimiter c = true → (!isDelimiter c) = false := by
    intro c hc
    rw [hc]
    rfl
  rw [hostTextOf, authorityText, dropScheme_append hword]
  change afterLast '@' ((userinfo ++ hostText ++ tail).takeWhile (!isDelimiter ·)) = _
  rw [takeWhile_authority huserinfo haccepts htail hchar hdelimiter,
    afterLast_authority huserinfo haccepts]

theorem cleaned_authority {word : List Char} (hword : SchemeWord word) (tail : List Char) :
    cleaned (word ++ ':' :: '/' :: '/' :: (userinfo ++ hostText ++ tail)) =
      word ++ ':' :: '/' :: '/' :: (userinfo ++ hostText ++ cleanedTail tail) := by
  have hfront : ∀ c ∈ word ++ ':' :: '/' :: '/' :: (userinfo ++ hostText), isBlank c = false := by
    rw [forall_mem_append]
    refine ⟨fun c hc => ?_, ?_⟩
    · have hrange := toNat_of_alphanumOr (by decide) (hword.chars c hc)
      rw [isBlank, decide_eq_false_iff_not]
      omega
    · simp only [forall_mem_cons]
      refine ⟨by decide, by decide, by decide, fun c hc => ?_⟩
      have hchar := isAuthorityChar_of_mem huserinfo haccepts c hc
      simp only [isAuthorityChar, Bool.and_eq_true, Bool.not_eq_true'] at hchar
      exact hchar.1.1
  have happend := cleaned_append (by simp) hfront tail
  simpa only [append_assoc, cons_append] using happend

end

/-- Behind the scheme and two slashes stands an authority, whatever the base is. -/
theorem resolve_of_cleaned {H : Type} (b : BrowserHosts H) (service : Service H)
    {text word rest : List Char} (hclean : cleaned text = word ++ ':' :: '/' :: '/' :: rest)
    (hword : SchemeWord word) (hspecial : word.map Char.toLower ∈ specialSchemes)
    (hrest : ∀ c ∈ rest.head?, isSlash c = false) :
    resolve b service text = authorityOrigin b (word.map Char.toLower) rest := by
  have hget := getScheme_append hword ('/' :: '/' :: rest)
  have hdrop : ('/' :: '/' :: rest).dropWhile isSlash = rest :=
    (@takeWhile_append_stop isSlash ['/', '/'] rest
      (forall_mem_cons.mpr ⟨by decide, forall_mem_singleton.mpr (by decide)⟩) hrest).2
  cases word with
  | nil => exact absurd rfl hword.ne_nil
  | cons first word =>
    rw [resolve, hclean, hget]
    dsimp only
    rw [if_pos hspecial, if_neg (fun h => h.2 rfl), hdrop]

theorem resolve_spelled {H : Type} (b : BrowserHosts H) (service : Service H) {hosts : HostSyntax}
    {u : GoUrl} (h : Spelled hosts u text)
    (hscheme : u.scheme = "http".toList ∨ u.scheme = "https".toList) (hhost : u.host ≠ []) :
    hosts.parse (hostTextOf text) = some u.host ∧
      resolve b service text = hostOrigin b u.scheme (hostTextOf text) := by
  obtain ⟨word, userinfo, hostText, tail, rfl, hword, hlower, huserinfo, hparse, htail⟩ := h
  have haccepts := (hosts.parse_eq_some hparse).1
  have hspecial : word.map Char.toLower ∈ specialSchemes := by
    rw [← hlower]
    rcases hscheme with hscheme | hscheme <;> rw [hscheme] <;> decide
  have hhead : ∀ c ∈ (userinfo ++ hostText ++ cleanedTail tail).head?, isSlash c = false := by
    intro c hc
    rw [head?_append_of_ne_nil _ (by simp [hostText_ne_nil hparse hhost])] at hc
    have hchar := isAuthorityChar_of_mem huserinfo haccepts c (mem_of_mem_head? hc)
    simp only [isAuthorityChar, isDelimiter, Bool.and_eq_true, Bool.not_eq_true',
      Bool.or_eq_false_iff, decide_eq_true_eq] at hchar
    simp [isSlash, hchar.2, hchar.1.2.1.1]
  rw [hostTextOf_append huserinfo haccepts hword htail]
  refine ⟨hparse, ?_⟩
  rw [resolve_of_cleaned b service (cleaned_authority huserinfo haccepts hword tail) hword hspecial
    hhead, hlower,
    authorityOrigin_append huserinfo haccepts b _ (startsDelimited_cleanedTail htail)]

theorem resolve_slash {H : Type} (b : BrowserHosts H) (service : Service H) (rest : List Char) :
    resolve b service ('/' :: rest) = resolveRelative b service (cleaned ('/' :: rest)) := by
  have hone : ∀ c ∈ ['/'], isBlank c = false := forall_mem_singleton.mpr (by decide)
  have hclean : cleaned ('/' :: rest) = '/' :: cleanedTail rest :=
    cleaned_append (by simp) hone rest
  have hget : ∀ text, getScheme ('/' :: text) = some ([], '/' :: text) := fun _ => rfl
  rw [resolve, hclean, hget]

end BuiltOnEnvoy.Foundations
