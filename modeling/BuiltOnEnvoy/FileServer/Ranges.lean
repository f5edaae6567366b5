import BuiltOnEnvoy.FileServer.Confinement

/-!
# Byte ranges of the file server

A range that is closed on both sides is answered with exactly its bytes, or not
at all, except for the end `2^64 - 1`: adding one to it gives zero, which stands
for an open end. An end that is not a number also stands for an open end.
-/

namespace BuiltOnEnvoy.FileServer

open Foundations List

/-- A range header with two parts. -/
def rangeText (first second : List Char) : List Char :=
  "bytes=".toList ++ (first ++ '-' :: second)

/-- The header is `bytes=a-b`. -/
def ClosedRange (range : List Char) (a b : ℕ) : Prop :=
  ∃ first second, range = rangeText first second ∧ parseUint first = some a ∧
    parseUint second = some b

/-- The header is `bytes=a-`. -/
def OpenRange (range : List Char) (a : ℕ) : Prop :=
  ∃ first, range = rangeText first [] ∧ parseUint first = some a

/-- The header is of one of the two forms. -/
def WellFormed (range : List Char) : Prop :=
  (∃ a b, ClosedRange range a b) ∨ ∃ a, OpenRange range a

variable {first second range : List Char} {a b : ℕ}

theorem isDigit_of_parseUint (h : parseUint first = some a) : ∀ c ∈ first, c.isDigit = true := by
  unfold parseUint at h
  split_ifs at h with hdigits
  rw [not_or, not_not] at hdigits
  exact List.all_eq_true.mp hdigits.2

theorem parseUint_lt (h : parseUint first = some a) : a < 2 ^ 64 := by
  unfold parseUint at h
  split_ifs at h with _ hlt
  cases h
  exact hlt

theorem notMem_of_parseUint (h : parseUint first = some a) {c : Char} (hc : c.isDigit = false) :
    c ∉ first := by
  intro hmem
  rw [isDigit_of_parseUint h c hmem] at hc
  cases hc

theorem span_dash (hdash : '-' ∉ first) :
    (first ++ '-' :: second).takeWhile (fun c => decide (c ≠ '-')) = first ∧
      (first ++ '-' :: second).dropWhile (fun c => decide (c ≠ '-')) = '-' :: second := by
  refine takeWhile_append_stop ?_ (by simp)
  intro c hc
  exact decide_eq_true (ne_of_mem_of_not_mem hc hdash)

theorem rangeText_inj {first' second' : List Char} (h : '-' ∉ first) (h' : '-' ∉ first')
    (heq : rangeText first second = rangeText first' second') :
    first = first' ∧ second = second' := by
  have hspec := append_cancel_left heq
  obtain ⟨htake, hdrop⟩ := @span_dash first second h
  obtain ⟨htake', hdrop'⟩ := @span_dash first' second' h'
  rw [hspec, htake'] at htake
  rw [hspec, hdrop'] at hdrop
  exact ⟨htake.symm, (tail_eq_of_cons_eq hdrop).symm⟩

theorem parseRangeHeader_rangeText (hfirst : parseUint first = some a) (hsecond : ',' ∉ second) :
    parseRangeHeader (rangeText first second) =
      (a, match parseUint second with
        | none => 0
        | some b => (b + 1) % 2 ^ 64) := by
  have hcomma : ',' ∉ first := notMem_of_parseUint hfirst rfl
  obtain ⟨htake, hdrop⟩ := @span_dash first second (notMem_of_parseUint hfirst rfl)
  unfold parseRangeHeader rangeText
  rw [if_neg (by simp), drop_left, if_neg (by simp [hcomma, hsecond])]
  dsimp only
  rw [htake, hdrop, hfirst, tail_cons]
  cases parseUint second <;> rfl

theorem parseRangeHeader_ignored
    (h : ∀ first second a, range = rangeText first second → parseUint first = some a →
      ',' ∈ second) : parseRangeHeader range = (0, 0) := by
  unfold parseRangeHeader
  dsimp only
  by_cases hbytes : "bytes=".toList.isPrefixOf range
  · rw [if_neg (not_not.mpr hbytes)]
    obtain ⟨spec, rfl⟩ := isPrefixOf_iff_prefix.mp hbytes
    rw [drop_left]
    split_ifs with hspec
    · rfl
    · rw [not_or, not_not] at hspec
      obtain ⟨before, after, rfl, hbefore⟩ := eq_append_cons_of_mem hspec.2
      obtain ⟨htake, -⟩ := @span_dash before after hbefore
      rw [htake]
      cases hfirst : parseUint before with
      | none => rfl
      | some a =>
        have hcomma : ',' ∈ after := h before after a rfl hfirst
        exact absurd (by simp [hcomma]) hspec.1
  · rw [if_pos hbytes]

/-- The headers of a file, apart from its length and range. -/
def entityHeaders (c : FileServerConfig) (filePath : UnixPath) : List (String × String) :=
  ("accept-ranges", "bytes") ::
    if c.contentTypeForPath filePath ≠ "" then [("content-type", c.contentTypeForPath filePath)]
    else []

/-- The bytes from `start` up to `stop`, with status 206. -/
def rangeResponse (headers : List (String × String)) (content : List UInt8) (start stop : ℕ) :
    Reply :=
  .response ((":status", "206") :: headers ++
    [("content-length", toString (stop - start)),
      ("content-range", "bytes " ++ toString start ++ "-" ++ toString (stop - 1) ++ "/" ++
        toString content.length)])
    ((content.drop start).take (stop - start))

/-- The whole file, with status 200. -/
def wholeResponse (headers : List (String × String)) (content : List UInt8) : Reply :=
  .response ((":status", "200") :: headers ++ [("content-length", toString content.length)])
    content

/-- What a `GET` answers for the two positions. -/
def respond (headers : List (String × String)) (content : List UInt8) (start stop : ℕ) : Reply :=
  if content.length < start ∨ (stop ≠ 0 ∧ content.length < stop) ∨ (stop ≠ 0 ∧ stop < start) then
    rangeNotSatisfiable
  else if start ≠ 0 ∨ stop ≠ 0 then
    let stop := if stop = 0 then content.length else stop
    if stop ≤ start then rangeNotSatisfiable else rangeResponse headers content start stop
  else wholeResponse headers content

variable {headers : List (String × String)} {content : List UInt8} {start stop : ℕ}

theorem respond_closed (hstop : stop ≠ 0) :
    respond headers content start stop =
      if start < stop ∧ stop ≤ content.length then rangeResponse headers content start stop
      else rangeNotSatisfiable := by
  unfold respond
  dsimp only
  rw [if_pos (Or.inr hstop), if_neg hstop]
  by_cases hin : start < stop ∧ stop ≤ content.length
  · rw [if_pos hin, if_neg (by omega), if_neg (by omega)]
  · rw [if_neg hin]
    split_ifs
    · rfl
    · rfl
    · omega

theorem respond_open :
    respond headers content start 0 =
      if start = 0 then wholeResponse headers content
      else if start < content.length then rangeResponse headers content start content.length
      else rangeNotSatisfiable := by
  unfold respond
  dsimp only
  rw [if_pos (rfl : (0 : ℕ) = 0)]
  by_cases hstart : start = 0
  · simp [hstart]
  · rw [if_pos (Or.inl hstart), if_neg hstart]
    by_cases hin : start < content.length
    · rw [if_pos hin, if_neg (by omega), if_neg (by omega)]
    · rw [if_neg hin]
      split_ifs
      · rfl
      · rfl
      · omega

theorem rangeResponse_ne_whole : rangeResponse headers content start stop ≠
    wholeResponse headers content := by
  intro h
  injection h with hheaders
  injection hheaders with hstatus
  injection hstatus with _ hcode
  exact absurd hcode (by decide)

variable {info : FileInfo}

theorem size_eq {os : Os} {filePath : UnixPath} (hstat : os.stat filePath = .ok info)
    (hread : os.readFile filePath = .ok content) :
    info.size = content.length := by
  unfold Os.readFile at hread
  unfold Os.stat at hstat
  split at hread
  · grind
  · cases hread

theorem onRequestHeaders_get {os : Os} {c : FileServerConfig} {request : Request}
    {p filePath : UnixPath} (hmethod : request.method = "GET")
    (hmap : mapRequest c request = .ok p) (hlocate : locate os c p = .ok (filePath, info))
    (hread : os.readFile filePath = .ok content) :
    onRequestHeaders os c request =
      respond (entityHeaders c filePath) content (parseRangeHeader request.range).1
        (parseRangeHeader request.range).2 := by
  have hsize := size_eq (locate_eq_ok hlocate).1 hread
  have hhead : ¬request.method = "HEAD" := by
    rw [hmethod]
    decide
  simp only [onRequestHeaders, hmap, hlocate, serve, respond, hsize, hhead, readFileRange, hread,
    Except.map, if_false]
  rfl

/-- A closed range is answered with exactly its bytes, or not at all; a header of another form is
ignored; and the bytes of every answer with status 206 are in the file. -/
structure RangeExact (headers : List (String × String)) (content : List UInt8)
    (range : List Char) (reply : Reply) : Prop where
  closed : ∀ a b, ClosedRange range a b →
    reply = if a ≤ b ∧ b < content.length then rangeResponse headers content a (b + 1)
      else rangeNotSatisfiable
  ignored : ¬WellFormed range → reply = wholeResponse headers content
  within : ∀ fields body, reply = .response fields body → fields.lookup ":status" = some "206" →
    ∃ start stop, reply = rangeResponse headers content start stop ∧ start < stop ∧
      stop ≤ content.length

/-- The header has the largest end, or an end that is not a number, and the range of its start to
the end of the file is answered. -/
def Misread (range : List Char) (size : ℕ) : Prop :=
  ∃ first second a, range = rangeText first second ∧ parseUint first = some a ∧
    (parseUint second = some (2 ^ 64 - 1) ∧ (a = 0 ∨ a < size) ∨
      parseUint second = none ∧ second ≠ [] ∧ ',' ∉ second ∧ a ≠ 0)

theorem respond_within (headers : List (String × String)) (content : List UInt8)
    (start stop : ℕ) :
    respond headers content start stop = rangeNotSatisfiable ∨
      respond headers content start stop = wholeResponse headers content ∨
      ∃ stop', respond headers content start stop = rangeResponse headers content start stop' ∧
        start < stop' ∧ stop' ≤ content.length := by
  by_cases hstop : stop = 0
  · subst hstop
    rw [respond_open]
    split_ifs with hstart hin
    · exact Or.inr (Or.inl rfl)
    · exact Or.inr (Or.inr ⟨content.length, rfl, hin, le_rfl⟩)
    · exact Or.inl rfl
  · rw [respond_closed hstop]
    split_ifs with hin
    · exact Or.inr (Or.inr ⟨stop, rfl, hin⟩)
    · exact Or.inl rfl

theorem respond_closedRange (hmisread : ¬Misread range content.length)
    (h : ClosedRange range a b) :
    respond headers content (parseRangeHeader range).1 (parseRangeHeader range).2 =
      if a ≤ b ∧ b < content.length then rangeResponse headers content a (b + 1)
      else rangeNotSatisfiable := by
  obtain ⟨first, second, rfl, hfirst, hsecond⟩ := h
  have hlt := parseUint_lt hsecond
  rw [parseRangeHeader_rangeText hfirst (notMem_of_parseUint hsecond rfl), hsecond]
  dsimp only
  by_cases hlast : b = 2 ^ 64 - 1
  · -- The end wraps to zero, which is harmless only for a start behind the end of the file.
    have hstart : ¬(a = 0 ∨ a < content.length) := fun hstart =>
      hmisread ⟨first, second, a, rfl, hfirst, Or.inl ⟨hlast ▸ hsecond, hstart⟩⟩
    have hwrap : (b + 1) % 2 ^ 64 = 0 := by
      rw [hlast]
      norm_num
    rw [hwrap, respond_open, if_neg (by omega), if_neg (by omega), if_neg (by omega)]
  · rw [Nat.mod_eq_of_lt (by omega), respond_closed (Nat.succ_ne_zero b)]
    exact if_congr (by omega) rfl rfl

theorem respond_ignored (hmisread : ¬Misread range content.length) (h : ¬WellFormed range) :
    respond headers content (parseRangeHeader range).1 (parseRangeHeader range).2 =
      wholeResponse headers content := by
  by_cases hform : ∀ first second a, range = rangeText first second →
      parseUint first = some a → ',' ∈ second
  · rw [parseRangeHeader_ignored hform, respond_open, if_pos rfl]
  · push Not at hform
    obtain ⟨first, second, a, rfl, hfirst, hcomma⟩ := hform
    have hsecond : parseUint second = none := by
      cases hsecond : parseUint second with
      | none => rfl
      | some b => exact absurd (Or.inl ⟨a, b, first, second, rfl, hfirst, hsecond⟩) h
    have hne : second ≠ [] := by
      rintro rfl
      exact h (Or.inr ⟨a, first, rfl, hfirst⟩)
    have hzero : a = 0 := by
      by_contra ha
      exact hmisread ⟨first, second, a, rfl, hfirst, Or.inr ⟨hsecond, hne, hcomma, ha⟩⟩
    rw [parseRangeHeader_rangeText hfirst hcomma, hsecond]
    dsimp only
    rw [respond_open, if_pos hzero]

theorem Misread.parseRangeHeader_eq {size : ℕ} (h : Misread range size) :
    (parseRangeHeader range).2 = 0 := by
  obtain ⟨first, second, a, rfl, hfirst, ⟨hsecond, -⟩ | ⟨hsecond, -, hcomma, -⟩⟩ := h
  · rw [parseRangeHeader_rangeText hfirst (notMem_of_parseUint hsecond rfl), hsecond]
    norm_num
  · rw [parseRangeHeader_rangeText hfirst hcomma, hsecond]

theorem Misread.not_rangeExact (hsize : content.length < 2 ^ 63)
    (h : Misread range content.length) :
    ¬RangeExact headers content range
      (respond headers content (parseRangeHeader range).1 (parseRangeHeader range).2) := by
  intro hexact
  have hstop := h.parseRangeHeader_eq
  obtain ⟨first, second, a, rfl, hfirst, ⟨hsecond, hstart⟩ | ⟨hsecond, hne, hcomma, ha⟩⟩ := h
  · -- Bytes are sent although the range ends behind the file.
    have hclosed := hexact.closed a _ ⟨first, second, rfl, hfirst, hsecond⟩
    rw [if_neg (by omega), hstop,
      parseRangeHeader_rangeText hfirst (notMem_of_parseUint hsecond rfl), respond_open] at hclosed
    split_ifs at hclosed
    · cases hclosed
    · cases hclosed
    · omega
  · -- The header has none of the two forms, and is not ignored.
    have hdash : '-' ∉ first := notMem_of_parseUint hfirst rfl
    have hform : ¬WellFormed (rangeText first second) := by
      rintro (⟨a', b, first', second', heq, hfirst', hsecond'⟩ | ⟨a', first', heq, hfirst'⟩)
      · obtain ⟨-, rfl⟩ := rangeText_inj hdash (notMem_of_parseUint hfirst' rfl) heq
        rw [hsecond] at hsecond'
        cases hsecond'
      · exact hne (rangeText_inj hdash (notMem_of_parseUint hfirst' rfl) heq).2
    have hignored := hexact.ignored hform
    rw [hstop, parseRangeHeader_rangeText hfirst hcomma, respond_open, if_neg ha] at hignored
    split_ifs at hignored
    · exact rangeResponse_ne_whole hignored
    · cases hignored

/-- Ranges are exact exactly when the header is not misread. -/
theorem rangeExact_iff (os : Os) (c : FileServerConfig) (request : Request)
    (hmethod : request.method = "GET") (p filePath : UnixPath) (info : FileInfo)
    (content : List UInt8) (hmap : mapRequest c request = .ok p)
    (hlocate : locate os c p = .ok (filePath, info)) (hread : os.readFile filePath = .ok content)
    (hsize : content.length < 2 ^ 63) :
    RangeExact (entityHeaders c filePath) content request.range (onRequestHeaders os c request) ↔
      ¬Misread request.range content.length := by
  rw [onRequestHeaders_get hmethod hmap hlocate hread]
  constructor
  · exact fun hexact h => h.not_rangeExact hsize hexact
  · intro h
    refine ⟨fun a b => respond_closedRange h, respond_ignored h, ?_⟩
    intro fields body hreply hstatus
    obtain hnone | hwhole | ⟨stop, hrange, hwithin⟩ :=
      respond_within (entityHeaders c filePath) content (parseRangeHeader request.range).1
        (parseRangeHeader request.range).2
    · rw [hnone] at hreply
      cases hreply
    · rw [hwhole] at hreply
      cases hreply
      exact absurd hstatus (by simp)
    · exact ⟨_, stop, hrange, hwithin⟩

/-- The first byte of a file, and what a range that ends behind it gives. -/
theorem rangeExact_site :
    RangeExact (entityHeaders siteConfig ⟨true, ["srv", "docs", "index.html"]⟩) [104, 105]
      "bytes=0-0".toList (onRequestHeaders siteOs siteConfig
        ⟨"/docs/index.html".toList, "GET", "bytes=0-0".toList⟩) := by
  have hmap : mapRequest siteConfig ⟨"/docs/index.html".toList, "GET", "bytes=0-0".toList⟩ =
      .ok ⟨true, ["srv", "docs", "index.html"]⟩ := by rfl
  refine (rangeExact_iff siteOs siteConfig _ rfl _ _ _ _ hmap rfl rfl (by decide)).mpr ?_
  exact fun h => absurd h.parseRangeHeader_eq (by decide)

/-- The largest end is taken for an open one, and so is an end that is not a number. -/
theorem open_ends :
    ClosedRange "bytes=1-18446744073709551615".toList 1 (2 ^ 64 - 1) ∧
      onRequestHeaders siteOs siteConfig
          ⟨"/docs/index.html".toList, "GET", "bytes=1-18446744073709551615".toList⟩ =
        rangeResponse [("accept-ranges", "bytes")] [104, 105] 1 2 ∧
      onRequestHeaders siteOs siteConfig
          ⟨"/docs/index.html".toList, "GET", "bytes=1-x".toList⟩ =
        rangeResponse [("accept-ranges", "bytes")] [104, 105] 1 2 := by
  have hmap : ∀ range, mapRequest siteConfig ⟨"/docs/index.html".toList, "GET", range⟩ =
      .ok ⟨true, ["srv", "docs", "index.html"]⟩ := fun _ => rfl
  have hget : ∀ range,
      onRequestHeaders siteOs siteConfig ⟨"/docs/index.html".toList, "GET", range⟩ =
      respond [("accept-ranges", "bytes")] [104, 105] (parseRangeHeader range).1
        (parseRangeHeader range).2 := fun range =>
    onRequestHeaders_get rfl (hmap range) rfl rfl
  refine ⟨⟨"1".toList, "18446744073709551615".toList, by decide, by decide, by decide⟩, ?_, ?_⟩
  · have hrange : parseRangeHeader "bytes=1-18446744073709551615".toList = (1, 0) := by decide
    rw [hget, hrange]
    rfl
  · have hrange : parseRangeHeader "bytes=1-x".toList = (1, 0) := by decide
    rw [hget, hrange]
    rfl

end BuiltOnEnvoy.FileServer
