import BuiltOnEnvoy.FileServer.Confinement
import BuiltOnEnvoy.Foundations.PercentEncoding

/-!
# The query of a request

The filter decodes the path and picks the mapping with the query still on it;
the query is cut off only after that. So an escape that is not valid makes the
whole request pass by, and a mapping whose prefix has a question mark can be
picked because of the query.
-/

namespace BuiltOnEnvoy.FileServer

open Foundations List Option

/-- A request is answered in the same way with the query and without it, by
every file system. -/
def IgnoresQuery (c : FileServerConfig) (path query : List Char) : Prop :=
  ∀ os method range, onRequestHeaders os c ⟨path ++ '?' :: query, method, range⟩ =
    onRequestHeaders os c ⟨path, method, range⟩

/-- What the mappings make of a decoded path: nothing, a path that is refused,
or a file path. -/
def FileServerConfig.target (c : FileServerConfig) (decodedPath : List Char) :
    Option (Option UnixPath) :=
  (c.findLongestMatchingMapping decodedPath).map (applyPathMapping decodedPath)

/-- The reply to a request with the given target. -/
def answer (os : Os) (c : FileServerConfig) (request : Request) :
    Option (Option UnixPath) → Reply
  | none => .continue
  | some file =>
    if request.method ≠ "GET" ∧ request.method ≠ "HEAD" then
      .localResponse 405 plain "Method Not Allowed" "file_server_rejected_method"
    else
      match file with
      | none => .localResponse 400 plain "Bad Request" "file_server_rejected_non_normalized_path"
      | some filePath =>
        match locate os c filePath with
        | .error reply => reply
        | .ok (filePath, info) => serve os c request filePath info

variable {c : FileServerConfig}

theorem target_nil (hnonempty : ∀ m ∈ c.pathMappings, m.requestPathPrefix ≠ "") :
    c.target [] = none := by
  have hnone : c.findLongestMatchingMapping [] = none := by
    rw [findLongestMatchingMapping_eq, argmax_eq_none, filter_eq_nil_iff]
    intro m hm happlies
    rw [PathMapping.appliesTo, isPrefixOf_iff_prefix, prefix_nil] at happlies
    exact hnonempty m hm (String.toList_injective happlies)
  rw [FileServerConfig.target, hnone, map_none]

theorem onRequestHeaders_eq (hnonempty : ∀ m ∈ c.pathMappings, m.requestPathPrefix ≠ "") (os : Os)
    (request : Request) :
    onRequestHeaders os c request =
      answer os c request ((pathUnescape request.path).bind c.target) := by
  unfold onRequestHeaders mapRequest
  by_cases hpath : request.path = []
  · rw [if_pos hpath, hpath]
    simp only [pathUnescape, bind_some, target_nil hnonempty, answer]
  · rw [if_neg hpath]
    cases hdecode : pathUnescape request.path with
    | none => rfl
    | some decodedPath =>
      simp only [bind_some, FileServerConfig.target]
      cases c.findLongestMatchingMapping decodedPath with
      | none => rfl
      | some mapping =>
        simp only [map_some, answer]
        by_cases hmethod : request.method ≠ "GET" ∧ request.method ≠ "HEAD"
        · simp only [if_pos hmethod]
        · simp only [if_neg hmethod]
          cases applyPathMapping decodedPath mapping <;> rfl

/-- No call on the file system succeeds. The path `p` is not there, and no
other path may be looked at. -/
def withoutFile (p : UnixPath) : Os where
  fs := siteOs.fs
  statFault := fun _ => true
  readFault := fun _ => true
  error := fun q => if q = p then .notExist else .permission

attribute [local simp] answer locate Os.stat withoutFile

/-- Different targets are told apart by a `GET` on a suitable file system. -/
theorem target_eq_of_answer {c : FileServerConfig} {path path' : List Char}
    {target target' : Option (Option UnixPath)}
    (h : ∀ os, answer os c ⟨path, "GET", []⟩ target = answer os c ⟨path', "GET", []⟩ target') :
    target = target' := by
  match target, target' with
  | none, none | some none, some none => rfl
  | none, some none | some none, none => simpa using h siteOs
  | none, some (some p) | some (some p), none | some none, some (some p)
  | some (some p), some none => simpa using h (withoutFile p)
  | some (some p), some (some p') =>
    by_contra hne
    have hne' : p' ≠ p := fun heq => hne (by rw [heq])
    have := h (withoutFile p)
    simp [hne'] at this

theorem takeWhile_query (first second : List Char) :
    (first ++ '?' :: second).takeWhile (· ≠ '?') = first.takeWhile (· ≠ '?') := by
  induction first with
  | nil => rfl
  | cons c first ih =>
    rw [cons_append, takeWhile_cons, takeWhile_cons, ih]

theorem applyPathMapping_query (first second : List Char) (m : PathMapping) :
    applyPathMapping (first ++ '?' :: second) m = applyPathMapping first m := by
  unfold applyPathMapping
  rw [takeWhile_query]

/-- The query changes nothing in two cases only, when the path can be decoded:
the query cannot be decoded and no mapping applies to the path, or the mapping
that applies to both leads to the target of the path alone. -/
def QueryHarmless (c : FileServerConfig) (path query : List Char) : Prop :=
  ∀ decodedPath, pathUnescape path = some decodedPath →
    match pathUnescape query with
    | none => c.findLongestMatchingMapping decodedPath = none
    | some decodedQuery =>
      (c.findLongestMatchingMapping (decodedPath ++ '?' :: decodedQuery)).map
          (applyPathMapping decodedPath) =
        (c.findLongestMatchingMapping decodedPath).map (applyPathMapping decodedPath)

/-- The reply ignores the query exactly when decoding it does not fail for a path
that is mapped and it does not lead to a mapping with another target. -/
theorem ignoresQuery_iff (unmarshal : List UInt8 → Except String FileServerConfig)
    (config : List UInt8) (c : FileServerConfig) (haccepted : parseConfig unmarshal config = .ok c)
    (path query : List Char) :
    IgnoresQuery c path query ↔ QueryHarmless c path query := by
  have hnonempty := parseConfig_requestPathPrefix haccepted
  have htargets : IgnoresQuery c path query ↔
      (pathUnescape (path ++ '?' :: query)).bind c.target = (pathUnescape path).bind c.target := by
    constructor
    · intro h
      refine @target_eq_of_answer c (path ++ '?' :: query) path _ _ fun os => ?_
      have := h os "GET" []
      rwa [onRequestHeaders_eq hnonempty, onRequestHeaders_eq hnonempty] at this
    · intro h os method range
      rw [onRequestHeaders_eq hnonempty, onRequestHeaders_eq hnonempty, h]
      rfl
  rw [htargets, pathUnescape_append (by decide) (by decide), QueryHarmless]
  cases hdecode : pathUnescape path with
  | none => simp
  | some decodedPath =>
    cases pathUnescape query with
    | none =>
      simp only [map_none, bind_some, bind_none, Option.some.injEq,
        forall_eq', FileServerConfig.target]
      rw [eq_comm, map_eq_none_iff]
    | some decodedQuery =>
      simp only [map_some, bind_some, Option.some.injEq, forall_eq',
        FileServerConfig.target]
      have hsame : applyPathMapping (decodedPath ++ '?' :: decodedQuery) =
          applyPathMapping decodedPath := by
        funext m
        exact applyPathMapping_query decodedPath decodedQuery m
      rw [hsame]

/-- A query that decodes, under mappings without a question mark. -/
theorem ignoresQuery_plain :
    parseConfig (fun _ => .ok siteConfig) [123] = .ok siteConfig ∧
      IgnoresQuery siteConfig "/docs/a".toList "x=%7A".toList := by
  have hconfig : parseConfig (fun _ => .ok siteConfig) [123] = .ok siteConfig := by rfl
  refine ⟨hconfig, (ignoresQuery_iff _ _ _ hconfig _ _).mpr ?_⟩
  intro decodedPath hdecode
  cases hdecode
  rfl

/-- The file at the path is served; with the query `x=%zz` the request goes on
to the next filter. -/
theorem query_not_ignored :
    parseConfig (fun _ => .ok siteConfig) [123] = .ok siteConfig ∧
      '?' ∉ "/docs/index.html".toList ∧
      onRequestHeaders siteOs siteConfig ⟨"/docs/index.html?x=%zz".toList, "HEAD", []⟩ =
        .continue ∧
      onRequestHeaders siteOs siteConfig ⟨"/docs/index.html".toList, "HEAD", []⟩ =
        .response [(":status", "200"), ("accept-ranges", "bytes"), ("content-length", "2")] [] ∧
      ¬IgnoresQuery siteConfig "/docs/index.html".toList "x=%zz".toList := by
  have hquery : onRequestHeaders siteOs siteConfig
      ⟨"/docs/index.html?x=%zz".toList, "HEAD", []⟩ = .continue := by rfl
  have hmap : mapRequest siteConfig ⟨"/docs/index.html".toList, "HEAD", []⟩ =
      .ok ⟨true, ["srv", "docs", "index.html"]⟩ := by rfl
  have hlocate : locate siteOs siteConfig ⟨true, ["srv", "docs", "index.html"]⟩ =
      .ok (⟨true, ["srv", "docs", "index.html"]⟩, ⟨false, 2⟩) := by rfl
  have hplain : onRequestHeaders siteOs siteConfig ⟨"/docs/index.html".toList, "HEAD", []⟩ =
      .response [(":status", "200"), ("accept-ranges", "bytes"), ("content-length", "2")] [] := by
    unfold onRequestHeaders
    rw [hmap]
    simp only [hlocate]
    rfl
  refine ⟨by rfl, by decide, hquery, hplain, fun h => ?_⟩
  have hsame := (h siteOs "HEAD" []).symm.trans hquery
  rw [hplain] at hsame
  cases hsame

end BuiltOnEnvoy.FileServer
