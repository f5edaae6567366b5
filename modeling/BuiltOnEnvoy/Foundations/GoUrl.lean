import Mathlib.Data.List.TakeWhile
import BuiltOnEnvoy.Foundations.PercentEncoding

/-!
# URLs as `net/url` reads and writes them

`url.Parse` as far as the scheme and the host of the result go, with every check
that makes it fail, and `String` for a URL with a scheme, a host and a path.
Which texts are hosts is left to `HostSyntax`. Texts have one character for each
byte.
-/

namespace BuiltOnEnvoy.Foundations

open List Option

/-- The texts that `url.Parse` takes for a host with an optional port. Bytes outside
ASCII may stand as they are, and everything that is escaped can be unescaped. -/
structure HostSyntax where
  accepts : List Char → Bool
  chars : ∀ {text}, accepts text = true →
    ∀ c ∈ text, c = '%' ∨ keptInHost c = true ∨ 128 ≤ c.toNat ∧ c.toNat < 256
  escapes : ∀ {text}, accepts text = true → ∃ host, pathUnescape text = some host

def HostSyntax.parse (hosts : HostSyntax) (text : List Char) : Option (List Char) :=
  if hosts.accepts text then pathUnescape text else none

structure GoUrl where
  scheme : List Char
  host : List Char

def isControl (c : Char) : Bool := c < ' ' || c = '\x7f'

def isSchemeChar : Char → Bool := alphanumOr "+-."

/-- The scheme and the text after it. -/
def getScheme (text : List Char) : Option (List Char × List Char) :=
  match text.takeWhile isSchemeChar, text.dropWhile isSchemeChar with
  | [], ':' :: _ => none
  | first :: word, ':' :: rest =>
    if first.isAlpha then some (first :: word, rest) else some ([], text)
  | _, _ => some ([], text)

def isUserinfoChar : Char → Bool := alphanumOr "-._:~!$&\x27()*+,;=%@"

/-- The name and the password are unescaped each on its own. -/
def validUserinfo (user : List Char) : Bool :=
  user.all isUserinfoChar && (pathUnescape (user.takeWhile (· ≠ ':'))).isSome &&
    (pathUnescape (user.dropWhile (· ≠ ':')).tail).isSome

def parseAuthority (hosts : HostSyntax) (authority : List Char) : Option (List Char) :=
  match lastIndexOf '@' authority with
  | none => hosts.parse authority
  | some i =>
    match hosts.parse (authority.drop (i + 1)) with
    | none => none
    | some host => if validUserinfo (authority.take i) then some host else none

/-- An authority and a path, or only a path. -/
def parseHierarchy (hosts : HostSyntax) (scheme rest : List Char) : Option GoUrl :=
  if "//".toList.isPrefixOf rest ∧ (scheme ≠ [] ∨ ¬"///".toList.isPrefixOf rest) then
    match parseAuthority hosts ((rest.drop 2).takeWhile (· ≠ '/')) with
    | none => none
    | some host =>
      if (pathUnescape ((rest.drop 2).dropWhile (· ≠ '/'))).isSome then some ⟨scheme, host⟩
      else none
  else if (pathUnescape rest).isSome then some ⟨scheme, []⟩
  else none

/-- A URL without its fragment. A text without a slash after its scheme is opaque. -/
def parseReference (hosts : HostSyntax) (text : List Char) : Option GoUrl :=
  if text.any isControl then none
  else if text = ['*'] then some ⟨[], []⟩
  else
    match getScheme text with
    | none => none
    | some (scheme, rest) =>
      let scheme := scheme.map Char.toLower
      let rest := rest.takeWhile (· ≠ '?')
      if rest.head? = some '/' then parseHierarchy hosts scheme rest
      else if scheme ≠ [] then some ⟨scheme, []⟩
      else if ':' ∈ rest.takeWhile (· ≠ '/') then none
      else parseHierarchy hosts [] rest

def GoUrl.parse (hosts : HostSyntax) (text : List Char) : Option GoUrl :=
  match parseReference hosts (text.takeWhile (· ≠ '#')) with
  | none => none
  | some u => if (pathUnescape (text.dropWhile (· ≠ '#')).tail).isSome then some u else none

def escapedPath (path : List Char) : List Char :=
  if path = ['*'] then path else escape keptInPath path

/-- The scheme and the host, with the slashes between them. -/
def originText (scheme host path : List Char) : List Char :=
  (if scheme ≠ [] then scheme ++ [':'] else []) ++
    (if (scheme ≠ [] ∨ host ≠ []) ∧ (host ≠ [] ∨ path ≠ []) then "//".toList else []) ++
    escape keptInHost host

/-- What stands between the host and the path. -/
def pathSeparator (scheme host path : List Char) : List Char :=
  if escapedPath path ≠ [] ∧ (escapedPath path).head? ≠ some '/' ∧ host ≠ [] then ['/']
  else if originText scheme host path = [] ∧ ':' ∈ (escapedPath path).takeWhile (· ≠ '/') then
    "./".toList
  else []

def GoUrl.string (scheme host path : List Char) : List Char :=
  originText scheme host path ++ pathSeparator scheme host path ++ escapedPath path

def isDelimiter (c : Char) : Bool := c = '/' || c = '?' || c = '#'

def dropScheme (text : List Char) : List Char :=
  match text.takeWhile (fun c => c ≠ ':' && !isDelimiter c),
    text.dropWhile (fun c => c ≠ ':' && !isDelimiter c) with
  | _ :: _, ':' :: rest => rest
  | _, _ => text

def authorityText (text : List Char) : List Char :=
  match dropScheme text with
  | '/' :: '/' :: rest => rest.takeWhile (!isDelimiter ·)
  | _ => []

/-- The path and the query, as they are spelled. -/
def pathAndQuery (text : List Char) : List Char :=
  (match dropScheme text with
    | '/' :: '/' :: rest => rest.dropWhile (!isDelimiter ·)
    | rest => rest).takeWhile (· ≠ '#')

/-- A letter, and then letters, digits and the signs of schemes. -/
structure SchemeWord (word : List Char) : Prop where
  head : ∃ first ∈ word.head?, first.isAlpha = true
  chars : ∀ c ∈ word, isSchemeChar c = true

variable {word : List Char}

theorem SchemeWord.ne_nil (h : SchemeWord word) : word ≠ [] := by
  rintro rfl
  obtain ⟨first, hfirst, -⟩ := h.head
  cases hfirst

theorem getScheme_append (h : SchemeWord word) (rest : List Char) :
    getScheme (word ++ ':' :: rest) = some (word, rest) := by
  have hcolon : ∀ c ∈ (':' :: rest).head?, isSchemeChar c = false := by
    rw [head?_cons]
    rintro c ⟨⟩
    decide
  obtain ⟨htake, hdrop⟩ := takeWhile_append_stop h.chars hcolon
  obtain ⟨first, hfirst, halpha⟩ := h.head
  cases word with
  | nil => cases hfirst
  | cons c word =>
    have hc : c.isAlpha = true := by
      rw [head?_cons, mem_some_iff] at hfirst
      rw [hfirst, halpha]
    simp only [getScheme, htake, hdrop, hc, if_true]

theorem getScheme_eq_some {text scheme rest : List Char}
    (h : getScheme text = some (scheme, rest)) (hscheme : scheme ≠ []) :
    text = scheme ++ ':' :: rest ∧ SchemeWord scheme := by
  have hsplit := takeWhile_append_dropWhile (p := isSchemeChar) (l := text)
  have hchars : ∀ c ∈ text.takeWhile isSchemeChar, isSchemeChar c = true :=
    fun c => mem_takeWhile_imp
  unfold getScheme at h
  split at h
  · cases h
  · rename_i first word rest' htake hdrop
    split_ifs at h with halpha
    · obtain ⟨rfl, rfl⟩ := Prod.mk.inj (Option.some.inj h)
      rw [htake, hdrop] at hsplit
      rw [htake] at hchars
      exact ⟨hsplit.symm, ⟨first, rfl, halpha⟩, hchars⟩
    · exact absurd (Prod.mk.inj (Option.some.inj h)).1.symm hscheme
  · exact absurd (Prod.mk.inj (Option.some.inj h)).1.symm hscheme

/-- What may stand before a host: nothing, or a user with the sign that ends it. -/
def IsUserinfo (userinfo : List Char) : Prop :=
  userinfo = [] ∨ ∃ user, userinfo = user ++ ['@'] ∧ ∀ c ∈ user, isUserinfoChar c = true

variable {hosts : HostSyntax}

theorem HostSyntax.parse_eq_some {text host : List Char} (h : hosts.parse text = some host) :
    hosts.accepts text = true ∧ pathUnescape text = some host := by
  unfold HostSyntax.parse at h
  split_ifs at h with haccepts
  exact ⟨haccepts, h⟩

theorem HostSyntax.toNat_lt_of_parse {text host : List Char} (h : hosts.parse text = some host) :
    ∀ c ∈ host, c.toNat < 256 := by
  obtain ⟨haccepts, hhost⟩ := hosts.parse_eq_some h
  refine toNat_lt_of_pathUnescape hhost fun c hc => ?_
  rcases hosts.chars haccepts c hc with rfl | hkept | hbyte
  · decide
  · have hrange := toNat_of_alphanumOr (by decide) hkept
    omega
  · exact hbyte.2

theorem parseAuthority_eq_some {authority host : List Char}
    (h : parseAuthority hosts authority = some host) :
    ∃ userinfo hostText, authority = userinfo ++ hostText ∧ IsUserinfo userinfo ∧
      hosts.parse hostText = some host := by
  unfold parseAuthority at h
  cases hindex : lastIndexOf '@' authority with
  | none =>
    simp only [hindex] at h
    exact ⟨[], authority, rfl, .inl rfl, h⟩
  | some i =>
    simp only [hindex] at h
    cases hhost : hosts.parse (authority.drop (i + 1)) with
    | none => simp [hhost] at h
    | some host' =>
      simp only [hhost] at h
      split_ifs at h with huser
      rw [validUserinfo, Bool.and_assoc, Bool.and_eq_true, List.all_eq_true] at huser
      refine ⟨authority.take i ++ ['@'], authority.drop (i + 1), ?_,
        .inr ⟨_, rfl, huser.1⟩, hhost.trans h⟩
      rw [append_assoc, singleton_append]
      exact lastIndexOf_eq_some hindex

/-- Nothing, or a text that starts with a delimiter. -/
def StartsDelimited (text : List Char) : Prop := ∀ c ∈ text.head?, isDelimiter c = true

theorem startsDelimited_dropWhile {stop : Char} (hstop : isDelimiter stop = true)
    (text : List Char) : StartsDelimited (text.dropWhile (· ≠ stop)) := by
  intro c hc
  have hnot := head?_dropWhile_not (fun c => decide (c ≠ stop)) text
  rw [mem_def.mp hc] at hnot
  have hceq : c = stop := by simpa using hnot
  rw [hceq, hstop]

theorem StartsDelimited.append {first second : List Char} (h : StartsDelimited first)
    (h' : StartsDelimited second) : StartsDelimited (first ++ second) := by
  cases first with
  | nil => exact h'
  | cons c first => exact h

/-- A text with a scheme and a host, by its pieces. -/
inductive Spelled (hosts : HostSyntax) (u : GoUrl) (text : List Char) : Prop
  | mk (word userinfo hostText tail : List Char)
      (htext : text = word ++ ':' :: '/' :: '/' :: (userinfo ++ hostText ++ tail))
      (hword : SchemeWord word) (hscheme : u.scheme = word.map Char.toLower)
      (huserinfo : IsUserinfo userinfo) (hhost : hosts.parse hostText = some u.host)
      (htail : StartsDelimited tail)

variable {u : GoUrl}

theorem parseHierarchy_eq_some {scheme rest : List Char}
    (h : parseHierarchy hosts scheme rest = some u) :
    u.scheme = scheme ∧ (u.host ≠ [] → ∃ authority path,
      rest = '/' :: '/' :: (authority ++ path) ∧ StartsDelimited path ∧
        parseAuthority hosts authority = some u.host) := by
  unfold parseHierarchy at h
  by_cases hslashes : "//".toList.isPrefixOf rest ∧ (scheme ≠ [] ∨ ¬"///".toList.isPrefixOf rest)
  · rw [if_pos hslashes] at h
    cases hauthority : parseAuthority hosts ((rest.drop 2).takeWhile (· ≠ '/')) with
    | none =>
      rw [hauthority] at h
      cases h
    | some host =>
      rw [hauthority] at h
      split_ifs at h
      rw [Option.some.injEq] at h
      obtain ⟨behind, hbehind⟩ := isPrefixOf_iff_prefix.mp hslashes.1
      have hrest : rest = '/' :: '/' :: rest.drop 2 := by
        rw [← hbehind]
        rfl
      refine ⟨by rw [← h], fun _ => ⟨(rest.drop 2).takeWhile (· ≠ '/'),
        (rest.drop 2).dropWhile (· ≠ '/'), ?_, startsDelimited_dropWhile (by decide) _, ?_⟩⟩
      · rw [takeWhile_append_dropWhile]
        exact hrest
      · rw [hauthority, ← h]
  · grind

theorem parseReference_eq_some {text : List Char} (h : parseReference hosts text = some u)
    (hscheme : u.scheme ≠ []) :
    ∃ word rest, getScheme text = some (word, rest) ∧ u.scheme = word.map Char.toLower ∧
      (u.host ≠ [] →
        parseHierarchy hosts (word.map Char.toLower) (rest.takeWhile (· ≠ '?')) = some u) := by
  unfold parseReference at h
  by_cases hcontrol : text.any isControl = true
  · rw [if_pos hcontrol] at h
    cases h
  rw [if_neg hcontrol] at h
  by_cases hstar : text = ['*']
  · rw [if_pos hstar, Option.some.injEq] at h
    exact absurd (by rw [← h]) hscheme
  rw [if_neg hstar] at h
  cases hget : getScheme text with
  | none =>
    rw [hget] at h
    cases h
  | some found =>
    obtain ⟨word, rest⟩ := found
    rw [hget] at h
    dsimp only at h
    split_ifs at h with hslash hopaque
    · exact ⟨word, rest, rfl, (parseHierarchy_eq_some h).1, fun _ => h⟩
    · rw [Option.some.injEq] at h
      exact ⟨word, rest, rfl, by rw [← h], fun hhost => absurd (by rw [← h]) hhost⟩
    · exact absurd (parseHierarchy_eq_some h).1 hscheme

theorem GoUrl.parse_eq_some {text : List Char} (h : GoUrl.parse hosts text = some u) :
    parseReference hosts (text.takeWhile (· ≠ '#')) = some u := by
  unfold GoUrl.parse at h
  cases href : parseReference hosts (text.takeWhile (· ≠ '#')) with
  | none =>
    rw [href] at h
    cases h
  | some u' =>
    rw [href] at h
    split_ifs at h
    exact h

theorem spelled_of_parse {text : List Char} (h : GoUrl.parse hosts text = some u)
    (hscheme : u.scheme ≠ []) (hhost : u.host ≠ []) :
    Spelled hosts u text := by
  obtain ⟨word, rest, hget, hlower, hparse⟩ :=
    parseReference_eq_some (GoUrl.parse_eq_some h) hscheme
  obtain ⟨authority, path, hrest, hpath, hauthority⟩ :=
    (parseHierarchy_eq_some (hparse hhost)).2 hhost
  obtain ⟨userinfo, hostText, hsplit, huserinfo, htext⟩ := parseAuthority_eq_some hauthority
  have hword : word ≠ [] := by
    rintro rfl
    exact hscheme hlower
  obtain ⟨hbefore, hscheme'⟩ := getScheme_eq_some hget hword
  -- the path, the query and the fragment follow the host
  have hspell : text = word ++ ':' :: '/' :: '/' :: (userinfo ++ hostText ++
      (path ++ rest.dropWhile (· ≠ '?') ++ text.dropWhile (· ≠ '#'))) := by
    have hquery := takeWhile_append_dropWhile (p := (· ≠ '?')) (l := rest)
    have hfragment := takeWhile_append_dropWhile (p := (· ≠ '#')) (l := text)
    rw [hrest, hsplit] at hquery
    rw [hbefore] at hfragment
    calc text = word ++ ':' :: rest ++ text.dropWhile (· ≠ '#') := hfragment.symm
      _ = word ++ ':' :: ('/' :: '/' :: (userinfo ++ hostText ++ path) ++
            rest.dropWhile (· ≠ '?')) ++ text.dropWhile (· ≠ '#') := by rw [hquery]
      _ = _ := by simp only [append_assoc, cons_append]
  exact .mk word userinfo hostText _ hspell hscheme' hlower huserinfo htext
    ((hpath.append (startsDelimited_dropWhile (by decide) _)).append
      (startsDelimited_dropWhile (by decide) _))

theorem ne_of_class {P : Char → Bool} {c x : Char} (hc : P c = true) (hx : P x = false) :
    c ≠ x := by
  rintro rfl
  rw [hc] at hx
  cases hx

theorem SchemeWord.lower (h : SchemeWord word) :
    SchemeWord (word.map Char.toLower) where
  head := by
    obtain ⟨first, hfirst, halpha⟩ := h.head
    refine ⟨first.toLower, ?_, ?_⟩
    · rw [head?_map]
      exact Option.mem_map_of_mem _ hfirst
    · simpa using halpha
  chars := by
    rw [List.forall_mem_map]
    intro c hc
    have hclass : ∀ n < 128, (!isSchemeChar (Char.ofNat n) || isSchemeChar (Char.ofNat n).toLower) =
        true := by
      decide
    have hrange := toNat_of_alphanumOr (by decide) (h.chars c hc)
    have hfact := forall_ascii (P := fun c => !isSchemeChar c || isSchemeChar c.toLower) hclass
      (by omega : c.toNat < 128)
    simpa [h.chars c hc] using hfact

theorem scheme_of_parse {text : List Char} (h : GoUrl.parse hosts text = some u)
    (hscheme : u.scheme ≠ []) :
    SchemeWord u.scheme ∧ u.scheme.map Char.toLower = u.scheme := by
  obtain ⟨word, rest, hget, hlower, -⟩ := parseReference_eq_some (GoUrl.parse_eq_some h) hscheme
  have hword : word ≠ [] := by
    rintro rfl
    exact hscheme hlower
  rw [hlower, List.map_map]
  exact ⟨(getScheme_eq_some hget hword).2.lower,
    map_congr_left fun c _ => toLower_toLower c⟩

theorem dropScheme_append (h : SchemeWord word) (rest : List Char) :
    dropScheme (word ++ ':' :: rest) = rest := by
  have hword : ∀ c ∈ word, (c ≠ ':' && !isDelimiter c) = true := by
    intro c hc
    have hne : ∀ x, isSchemeChar x = false → c ≠ x := fun x => ne_of_class (h.chars c hc)
    simp [isDelimiter, hne ':' (by decide), hne '/' (by decide), hne '?' (by decide),
      hne '#' (by decide)]
  have hcolon : ∀ c ∈ (':' :: rest).head?, (c ≠ ':' && !isDelimiter c) = false := by
    rw [head?_cons]
    rintro c ⟨⟩
    decide
  obtain ⟨htake, hdrop⟩ := takeWhile_append_stop hword hcolon
  obtain ⟨first, hfirst, -⟩ := h.head
  cases word with
  | nil => cases hfirst
  | cons c word => simp only [dropScheme, htake, hdrop]

/-- The path behind a host. -/
def pathText (path : List Char) : List Char :=
  if escapedPath path ≠ [] ∧ (escapedPath path).head? ≠ some '/' then '/' :: escapedPath path
  else escapedPath path

variable {scheme host : List Char}

theorem string_eq (hscheme : scheme ≠ []) (hhost : host ≠ []) (path : List Char) :
    GoUrl.string scheme host path =
      scheme ++ ':' :: '/' :: '/' :: (escape keptInHost host ++ pathText path) := by
  have horigin : originText scheme host path =
      scheme ++ ':' :: '/' :: '/' :: escape keptInHost host := by
    simp [originText, hscheme, hhost]
  have hpath : pathSeparator scheme host path ++ escapedPath path = pathText path := by
    rw [pathSeparator, pathText, horigin]
    split_ifs <;> simp_all
  rw [GoUrl.string, append_assoc, hpath, horigin]
  simp

theorem mem_escapedPath {path : List Char} {c : Char} (h : c ∈ escapedPath path) :
    keptInPath c = true ∨ c = '%' ∨ c = '*' := by
  unfold escapedPath at h
  split_ifs at h with hstar
  · rw [hstar, mem_singleton] at h
    exact .inr (.inr h)
  · rcases mem_escape h with hc | hc
    · exact .inl hc
    · exact .inr (.inl hc)

theorem mem_pathText {path : List Char} {c : Char} (h : c ∈ pathText path) :
    keptInPath c = true ∨ c = '%' ∨ c = '*' := by
  unfold pathText at h
  split_ifs at h
  · rcases mem_cons.mp h with rfl | h
    · exact .inl (by decide)
    · exact mem_escapedPath h
  · exact mem_escapedPath h

theorem head_pathText (path : List Char) : ∀ c ∈ (pathText path).head?, c = '/' := by
  intro c hc
  unfold pathText at hc
  split_ifs at hc with hslash
  · rw [head?_cons, mem_some_iff] at hc
    exact hc.symm
  · grind

theorem pathUnescape_pathText (path : List Char) :
    ∃ decoded, pathUnescape (pathText path) = some decoded := by
  have hescaped : ∃ decoded, pathUnescape (escapedPath path) = some decoded := by
    unfold escapedPath
    split_ifs with hstar
    · rw [hstar]
      exact ⟨['*'], by decide⟩
    · exact ⟨_, pathUnescape_escape (by decide) path⟩
  obtain ⟨decoded, hdecoded⟩ := hescaped
  unfold pathText
  split_ifs
  · exact ⟨'/' :: decoded, by rw [pathUnescape_cons (by decide), hdecoded]; rfl⟩
  · exact ⟨decoded, hdecoded⟩

/-- A visible character that ends neither a path nor a query. -/
def isPlain (c : Char) : Bool := 32 < c.toNat && c.toNat < 127 && c ≠ '#' && c ≠ '?'

theorem isPlain_of_alphanumOr {signs : String}
    (hsigns : signs.toList.all fun c => 32 < c.toNat && c.toNat < 127)
    (hhash : alphanumOr signs '#' = false) (hquestion : alphanumOr signs '?' = false) {c : Char}
    (h : alphanumOr signs c = true) : isPlain c = true := by
  have hrange := toNat_of_alphanumOr hsigns h
  simp [isPlain, hrange, ne_of_class h hhash, ne_of_class h hquestion]

theorem isPlain_of_mem_pathText {path : List Char} {c : Char} (h : c ∈ pathText path) :
    isPlain c = true := by
  rcases mem_pathText h with hc | rfl | rfl
  · exact isPlain_of_alphanumOr (by decide) (by decide) (by decide) hc
  · decide
  · decide

theorem isPlain_of_mem_escape_host {host : List Char} {c : Char}
    (h : c ∈ escape keptInHost host) : isPlain c = true := by
  rcases mem_escape h with hc | rfl
  · exact isPlain_of_alphanumOr (by decide) (by decide) (by decide) hc
  · decide

section

variable {text : List Char} (h : ∀ c ∈ text, isPlain c = true)
include h

theorem any_isControl_of_plain : text.any isControl = false := by
  rw [List.any_eq_false]
  intro c hc
  have hplain := h c hc
  simp only [isPlain, Bool.and_eq_true, decide_eq_true_eq] at hplain
  have hrange : 32 < c.toNat ∧ c.toNat < 127 := hplain.1.1
  have hspace : ¬c < ' ' := by
    change ¬c.toNat < 32
    omega
  have hdelete : c ≠ '\x7f' := by
    rintro rfl
    exact absurd hrange.2 (by decide)
  simp [isControl, hspace, hdelete]

theorem takeWhile_of_plain {stop : Char} (hstop : isPlain stop = false) :
    text.takeWhile (· ≠ stop) = text ∧ text.dropWhile (· ≠ stop) = [] := by
  have hne : ∀ c ∈ text, decide (c ≠ stop) = true :=
    fun c hc => decide_eq_true (ne_of_class (h c hc) hstop)
  exact ⟨takeWhile_eq_self_iff.mpr hne, dropWhile_eq_nil_iff.mpr hne⟩

end

theorem parseAuthority_of_notMem {hosts : HostSyntax} {authority : List Char}
    (h : '@' ∉ authority) : parseAuthority hosts authority = hosts.parse authority := by
  rw [parseAuthority, lastIndexOf_eq_none h]

theorem notMem_escape_host {x : Char} (hx : keptInHost x = false) (hpercent : x ≠ '%')
    (host : List Char) : x ∉ escape keptInHost host := by
  intro hmem
  rcases mem_escape hmem with hkept | heq
  · exact ne_of_class hkept hx rfl
  · exact hpercent heq

theorem split_hostText (host path : List Char) {p : Char → Bool} (hslash : p '/' = false)
    (hhost : ∀ c, keptInHost c = true ∨ c = '%' → p c = true) :
    (escape keptInHost host ++ pathText path).takeWhile p = escape keptInHost host ∧
      (escape keptInHost host ++ pathText path).dropWhile p = pathText path :=
  takeWhile_append_stop (fun c hc => hhost c (mem_escape hc))
    fun c hc => by rw [head_pathText path c hc, hslash]

theorem parseHierarchy_hostText (hosts : HostSyntax) {scheme : List Char} (hscheme : scheme ≠ [])
    (host path : List Char) :
    parseHierarchy hosts scheme ('/' :: '/' :: (escape keptInHost host ++ pathText path)) =
      (hosts.parse (escape keptInHost host)).map (GoUrl.mk scheme) := by
  have hstop : ∀ c, keptInHost c = true ∨ c = '%' → decide (c ≠ '/') = true := by
    rintro c (hc | rfl)
    · exact decide_eq_true (ne_of_class hc (by decide))
    · decide
  obtain ⟨htake, hdrop⟩ := split_hostText host path (by decide) hstop
  obtain ⟨decoded, hdecoded⟩ := pathUnescape_pathText path
  have hauthority := @parseAuthority_of_notMem hosts _
    (notMem_escape_host (by decide : keptInHost '@' = false) (by decide) host)
  have hbehind : ('/' :: '/' :: (escape keptInHost host ++ pathText path)).drop 2 =
      escape keptInHost host ++ pathText path := rfl
  rw [parseHierarchy, if_pos ⟨rfl, .inl hscheme⟩, hbehind, htake, hdrop, hauthority, hdecoded]
  cases hosts.parse (escape keptInHost host) <;> rfl

theorem parse_string (hosts : HostSyntax) (hword : SchemeWord scheme)
    (hlower : scheme.map Char.toLower = scheme) (hhost : host ≠ []) (path : List Char) :
    GoUrl.parse hosts (GoUrl.string scheme host path) =
      (hosts.parse (escape keptInHost host)).map (GoUrl.mk scheme) := by
  have hrest : ∀ c ∈ '/' :: '/' :: (escape keptInHost host ++ pathText path),
      isPlain c = true := by
    simp only [forall_mem_cons, forall_mem_append]
    exact ⟨by decide, by decide, fun c => isPlain_of_mem_escape_host,
      fun c => isPlain_of_mem_pathText⟩
  have hall : ∀ c ∈ GoUrl.string scheme host path, isPlain c = true := by
    rw [string_eq hword.ne_nil hhost, forall_mem_append, forall_mem_cons]
    exact ⟨fun c hc => isPlain_of_alphanumOr (by decide) (by decide) (by decide)
      (hword.chars c hc), by decide, hrest⟩
  obtain ⟨hfragment, hnone⟩ := takeWhile_of_plain hall (by decide : isPlain '#' = false)
  have hquery := (takeWhile_of_plain hrest (by decide : isPlain '?' = false)).1
  have hreference : parseReference hosts (GoUrl.string scheme host path) =
      (hosts.parse (escape keptInHost host)).map (GoUrl.mk scheme) := by
    have hstar : GoUrl.string scheme host path ≠ ['*'] := by
      intro heq
      have hlength := congrArg List.length heq
      rw [string_eq hword.ne_nil hhost, length_append] at hlength
      simp only [length_cons, length_nil] at hlength
      omega
    rw [parseReference, if_neg (by rw [any_isControl_of_plain hall]; decide), if_neg hstar,
      string_eq hword.ne_nil hhost, getScheme_append hword]
    dsimp only
    rw [hlower, hquery, if_pos head?_cons]
    exact parseHierarchy_hostText hosts hword.ne_nil host path
  rw [GoUrl.parse, hfragment, hnone, hreference]
  cases hosts.parse (escape keptInHost host) <;> rfl

theorem pathAndQuery_string (hword : SchemeWord scheme) (hhost : host ≠ []) (path : List Char) :
    pathAndQuery (GoUrl.string scheme host path) = pathText path := by
  have hstop : ∀ c, keptInHost c = true ∨ c = '%' → (!isDelimiter c) = true := by
    rintro c (hc | rfl)
    · simp [isDelimiter, ne_of_class hc (by decide : keptInHost '/' = false),
        ne_of_class hc (by decide : keptInHost '?' = false),
        ne_of_class hc (by decide : keptInHost '#' = false)]
    · decide
  have hdrop := (split_hostText host path (by decide) hstop).2
  have hfragment := (takeWhile_of_plain (fun c => @isPlain_of_mem_pathText path c)
    (by decide : isPlain '#' = false)).1
  rw [pathAndQuery, string_eq hword.ne_nil hhost, dropScheme_append hword]
  change ((escape keptInHost host ++ pathText path).dropWhile (!isDelimiter ·)).takeWhile _ = _
  rw [hdrop, hfragment]

/-- The path is written as it is when it is empty, or starts with a slash and has only
characters that a path keeps. -/
theorem pathText_eq_self_iff {path : List Char} :
    pathText path = path ↔
      (path = [] ∨ path.head? = some '/') ∧ ∀ c ∈ path, keptInPath c = true := by
  constructor
  · intro h
    have hhead : path = [] ∨ path.head? = some '/' := by
      cases path with
      | nil => exact .inl rfl
      | cons c path => exact .inr (congrArg some (head_pathText (c :: path) c (by rw [h]; rfl)))
    have hstar : path ≠ ['*'] := by
      rintro rfl
      exact absurd hhead (by decide)
    refine ⟨hhead, escape_eq_self_iff.mp ?_⟩
    rw [pathText, escapedPath, if_neg hstar] at h
    split_ifs at h
    · -- the text grew
      have hlength := congrArg List.length h
      have hle := @length_le_escape keptInPath path
      rw [length_cons] at hlength
      omega
    · exact h
  · rintro ⟨hhead, hkept⟩
    have hstar : path ≠ ['*'] := by
      rintro rfl
      exact absurd (hkept '*' mem_cons_self) (by decide)
    have hescaped : escapedPath path = path := by
      rw [escapedPath, if_neg hstar, escape_eq_self_iff.mpr hkept]
    rw [pathText, hescaped, if_neg]
    rintro ⟨hne, hslash⟩
    exact hhead.elim hne hslash

example : pathAndQuery "https://sp/a%20b?c=/d#e".toList = "/a%20b?c=/d".toList := by decide

example : GoUrl.string "https".toList "sp".toList "/a b?c".toList =
    "https://sp/a%20b%3Fc".toList := by decide

end BuiltOnEnvoy.Foundations
