import BuiltOnEnvoy.FileServer.Plugin
import BuiltOnEnvoy.Foundations.Bytes

/-!
# Requests stay inside their mapping

Under an accepted configuration the mapping of a request is the longest one
that matches, in whatever order the mappings are listed. The file path of the
request, and the index file found for it when it is a directory, are inside the
file path prefix of that mapping.
-/

namespace BuiltOnEnvoy.FileServer

open Foundations List Option

/-- What the checks on a configuration give. -/
structure Accepted (c : FileServerConfig) : Prop where
  distinct : (c.pathMappings.map (·.requestPathPrefix)).Nodup
  filePathPrefix : ∀ m ∈ c.pathMappings, m.filePathPrefix ≠ ""
  index : ∀ f ∈ c.directoryIndexFiles, '/' ∉ f.toList

variable {mappings : List PathMapping}

theorem validateMappings_eq_none {seen : List String} (h : validateMappings seen mappings = none) :
    (mappings.map (·.requestPathPrefix)).Nodup ∧
      ∀ m ∈ mappings, m.requestPathPrefix ≠ "" ∧ m.filePathPrefix ≠ "" ∧
        m.requestPathPrefix ∉ seen := by
  induction mappings generalizing seen with
  | nil => simp
  | cons m rest ih =>
    rw [validateMappings] at h
    split_ifs at h with hrequest hfile hseen
    obtain ⟨hnodup, hrest⟩ := ih h
    constructor
    · grind
    · intro m' hm'
      rcases mem_cons.mp hm' with rfl | hm'
      · exact ⟨hrequest, hfile, hseen⟩
      · obtain ⟨hrequest', hfile', hseen'⟩ := hrest m' hm'
        exact ⟨hrequest', hfile', fun hmem => hseen' (mem_cons_of_mem _ hmem)⟩

variable {c : FileServerConfig}

theorem mappings_of_validate (h : c.validate = none) :
    validateMappings [] c.pathMappings = none := by
  unfold FileServerConfig.validate at h
  split_ifs at h
  cases hmappings : validateMappings [] c.pathMappings with
  | some problem => simp [hmappings] at h
  | none => rfl

theorem validate_eq_none (h : c.validate = none) : Accepted c := by
  have hmappings := mappings_of_validate h
  obtain ⟨hnodup, hall⟩ := validateMappings_eq_none hmappings
  refine ⟨hnodup, fun m hm => (hall m hm).2.1, ?_⟩
  unfold FileServerConfig.validate at h
  split_ifs at h
  cases htypes : c.contentTypes.find? fun t => '.' ∈ t.1.toList with
  | some t => simp [hmappings, htypes] at h
  | none =>
    cases hindex : c.directoryIndexFiles.find? fun f => '/' ∈ f.toList with
    | some f => simp [hmappings, htypes, hindex] at h
    | none => simpa using hindex

section

variable {unmarshal : List UInt8 → Except String FileServerConfig} {config : List UInt8}
  (h : parseConfig unmarshal config = .ok c)

include h

theorem parseConfig_eq_ok :
    c.pathMappings = [] ∧ c.directoryIndexFiles = [] ∨ c.validate = none := by
  unfold parseConfig at h
  split_ifs at h
  · cases h
    exact .inl ⟨rfl, rfl⟩
  · cases hdecode : unmarshal config with
    | error err => simp [hdecode] at h
    | ok cfg =>
      simp only [hdecode] at h
      cases hvalid : cfg.validate with
      | some problem => simp [hvalid] at h
      | none =>
        simp only [hvalid, Except.ok.injEq] at h
        exact .inr (h ▸ hvalid)

theorem parseConfig_accepted : Accepted c := by
  rcases parseConfig_eq_ok h with ⟨hmappings, hindex⟩ | hvalid
  · exact ⟨by simp [hmappings], by simp [hmappings], by simp [hindex]⟩
  · exact validate_eq_none hvalid

theorem parseConfig_requestPathPrefix : ∀ m ∈ c.pathMappings, m.requestPathPrefix ≠ "" := by
  rcases parseConfig_eq_ok h with ⟨hmappings, -⟩ | hvalid
  · simp [hmappings]
  · intro m hm
    exact ((validateMappings_eq_none (mappings_of_validate hvalid)).2 m hm).1

end

/-- A mapping that applies to the path, and none that applies is longer. -/
def IsLongest (mappings : List PathMapping) (requestPath : List Char) (m : PathMapping) : Prop :=
  m ∈ mappings ∧ m.appliesTo requestPath = true ∧
    ∀ m' ∈ mappings, m'.appliesTo requestPath = true →
      m'.requestPathPrefix.length ≤ m.requestPathPrefix.length

theorem findLongestMatchingMapping_eq (c : FileServerConfig) (requestPath : List Char) :
    c.findLongestMatchingMapping requestPath =
      (c.pathMappings.filter (·.appliesTo requestPath)).argmax (·.requestPathPrefix.length) := by
  rw [FileServerConfig.findLongestMatchingMapping, List.argmax, foldl_filter]
  congr 1
  funext best m
  cases best <;> rfl

theorem IsLongest.eq {requestPath : List Char} {m m' : PathMapping}
    (hdistinct : (mappings.map (·.requestPathPrefix)).Nodup)
    (h : IsLongest mappings requestPath m) (h' : IsLongest mappings requestPath m') : m = m' := by
  obtain ⟨hmem, happlies, hmax⟩ := h
  obtain ⟨hmem', happlies', hmax'⟩ := h'
  have hlength : m.requestPathPrefix.toList.length = m'.requestPathPrefix.toList.length := by
    rw [String.length_toList, String.length_toList]
    exact le_antisymm (hmax' m hmem happlies) (hmax m' hmem' happlies')
  have htext : m.requestPathPrefix.toList = m'.requestPathPrefix.toList := by
    rw [PathMapping.appliesTo, isPrefixOf_iff_prefix] at happlies happlies'
    exact (prefix_of_prefix_length_le happlies happlies' hlength.le).eq_of_length hlength
  exact inj_on_of_nodup_map hdistinct hmem hmem' (String.toList_injective htext)

theorem findLongestMatchingMapping_eq_some_iff (haccepted : Accepted c) (requestPath : List Char)
    (m : PathMapping) :
    c.findLongestMatchingMapping requestPath = some m ↔
      IsLongest c.pathMappings requestPath m := by
  have hfound : ∀ m, c.findLongestMatchingMapping requestPath = some m →
      IsLongest c.pathMappings requestPath m := by
    intro m h
    rw [findLongestMatchingMapping_eq] at h
    obtain ⟨hmem, happlies⟩ := mem_filter.mp (argmax_mem h)
    refine ⟨hmem, happlies, fun m' hm' happlies' => ?_⟩
    exact le_of_mem_argmax (f := fun m : PathMapping => m.requestPathPrefix.length)
      (mem_filter.mpr ⟨hm', happlies'⟩) h
  refine ⟨hfound m, fun h => ?_⟩
  cases hresult : c.findLongestMatchingMapping requestPath with
  | some m' => rw [(hfound m' hresult).eq haccepted.distinct h]
  | none =>
    rw [findLongestMatchingMapping_eq, argmax_eq_none, filter_eq_nil_iff] at hresult
    exact absurd h.2.1 (hresult m h.1)

theorem findLongestMatchingMapping_perm (haccepted : Accepted c)
    (hperm : mappings.Perm c.pathMappings) (requestPath : List Char) :
    { c with pathMappings := mappings }.findLongestMatchingMapping requestPath =
      c.findLongestMatchingMapping requestPath := by
  have haccepted' : Accepted { c with pathMappings := mappings } :=
    ⟨(hperm.map _).nodup_iff.mpr haccepted.distinct,
      fun m hm => haccepted.filePathPrefix m (hperm.mem_iff.mp hm), haccepted.index⟩
  apply Option.ext
  intro m
  rw [findLongestMatchingMapping_eq_some_iff haccepted,
    findLongestMatchingMapping_eq_some_iff haccepted']
  simp only [IsLongest, hperm.mem_iff]

theorem applyPathMapping_within {requestPath : List Char} {mapping : PathMapping}
    (hfile : mapping.filePathPrefix ≠ "") {filePath : UnixPath}
    (h : applyPathMapping requestPath mapping = some filePath) :
    UnixPath.Within (UnixPath.ofString mapping.filePathPrefix).clean filePath := by
  simp only [applyPathMapping] at h
  generalize trimPrefix mapping.requestPathPrefix.toList (requestPath.takeWhile (· ≠ '?')) =
    trimmed at h
  generalize (if trimmed.head? = some '/' then trimmed.tail else trimmed) = remaining at h
  split_ifs at h with hslash hlead hparts
  rw [Option.some.injEq] at h
  rw [← h, UnixPath.join_eq_child _ _ hfile]
  apply UnixPath.child_within
  intro part hpart
  obtain ⟨hmem, hne⟩ := mem_filter.mp hpart
  obtain ⟨chars, hchars, rfl⟩ := List.mem_map.mp hmem
  rw [String.toList_ofList] at hchars
  have hremaining : remaining ≠ [] := by
    rintro rfl
    rw [splitOn_nil, mem_singleton] at hchars
    simp [hchars] at hne
  have hnone : ¬(chars = ['.', '.'] ∨ chars = ['.'] ∨ chars = []) := by
    intro hbad
    exact hparts ⟨hremaining, List.any_eq_true.mpr ⟨chars, hchars, decide_eq_true hbad⟩⟩
  simp only [not_or] at hnone
  refine ⟨fun hdot => hnone.2.1 ?_, fun hup => hnone.1 ?_⟩
  · simpa using congrArg String.toList hdot
  · simpa using congrArg String.toList hup

theorem node_up {os : Os} {p : UnixPath} (h : os.node p = some .dir) :
    os.node (p.child "..") = some .dir := by
  obtain ⟨r, hr, hdir⟩ := bind_eq_some_iff.mp h
  have hat : os.fs.dirAt p = some r := (os.fs.dirAt_eq_some).mpr ⟨hr, hdir⟩
  have hlookup : os.node p.dir = some .dir := by
    obtain ⟨r', hr'⟩ := os.fs.dirAt_dir hat
    obtain ⟨hr', hdir'⟩ := (os.fs.dirAt_eq_some).mp hr'
    exact bind_eq_some_iff.mpr ⟨r', hr', hdir'⟩
  have happend : os.node ⟨p.rooted, p.parts ++ [".."]⟩ = some .dir := by
    have hup : os.fs.walk true r.2 [".."] r.1 = some (r.1.dropLast, r.2) := by
      cases r.2 <;> rfl
    rw [Os.node, os.fs.lookup_append _ _ _ _ (by simp), hat, bind_some, hup,
      bind_some]
    exact os.fs.dropLast_dir hdir
  have hcomponents : UnixPath.components ".." = [".."] := by decide
  obtain ⟨rooted, parts⟩ := p
  rw [UnixPath.child, hcomponents]
  rcases eq_nil_or_concat parts with rfl | ⟨front, last, rfl⟩
  · cases rooted with
    | true => exact h
    | false => exact happend
  · rw [concat_eq_append] at *
    by_cases hlast : last = ".."
    · simpa [UnixPath.cleanStep, UnixPath.cleanUp, hlast] using happend
    · simpa [UnixPath.cleanStep, UnixPath.cleanUp, hlast, UnixPath.dir] using hlookup

variable {info : FileInfo}

theorem stat_isDir {os : Os} {p : UnixPath} (h : os.stat p = .ok info) :
    os.node p = some .dir ↔ info.isDir = true := by
  unfold Os.stat at h
  split_ifs at h
  cases hnode : os.node p with
  | none => simp [hnode] at h
  | some x =>
    cases x with
    | dir =>
      simp only [hnode, Except.ok.injEq] at h
      simp [← h]
    | file content =>
      simp only [hnode, Except.ok.injEq] at h
      simp [← h]
    | link target => simp [hnode] at h

theorem index_within {os : Os} {dirPath : UnixPath} {indexFile : String}
    (hdir : os.node dirPath = some .dir) (hslash : '/' ∉ indexFile.toList)
    (hstat : os.stat (dirPath.child indexFile) = .ok info) (hfile : info.isDir = false) :
    UnixPath.Within dirPath (dirPath.child indexFile) := by
  have hcomponents :
      UnixPath.components indexFile = if indexFile = "" then [] else [indexFile] := by
    simp only [UnixPath.components, splitOn_eq_singleton hslash]
    by_cases hempty : indexFile = "" <;> simp [hempty]
  have hnot : os.node (dirPath.child indexFile) ≠ some .dir := by
    rw [Ne, stat_isDir hstat, hfile]
    exact Bool.false_ne_true
  apply UnixPath.child_within
  intro part hpart
  rw [hcomponents] at hpart
  split_ifs at hpart
  · cases hpart
  · rw [mem_singleton] at hpart
    subst hpart
    -- the names of directories were passed over
    refine ⟨fun hdot => hnot ?_, fun hup => hnot ?_⟩
    · subst hdot
      have hsame : dirPath.child "." = dirPath := by
        have hdots : UnixPath.components "." = ["."] := by decide
        simp [UnixPath.child, hdots, UnixPath.cleanStep]
      rwa [hsame]
    · subst hup
      exact node_up hdir

theorem resolveDirectoryIndex_eq_some {os : Os} {dirPath found : UnixPath} {files : List String}
    (h : resolveDirectoryIndex os dirPath files = some (found, info)) :
    ∃ f ∈ files, found = dirPath.child f ∧ os.stat found = .ok info ∧ info.isDir = false := by
  induction files with
  | nil => cases h
  | cons indexFile rest ih =>
    rw [exists_mem_cons_iff]
    rw [resolveDirectoryIndex] at h
    cases hstat : os.stat (dirPath.child indexFile) with
    | error e =>
      simp only [hstat] at h
      exact .inr (ih h)
    | ok info' =>
      simp only [hstat] at h
      split_ifs at h with hisDir
      · exact .inr (ih h)
      · cases h
        exact .inl ⟨rfl, hstat, by simpa using hisDir⟩

section

variable {os : Os} {filePath found : UnixPath} (h : locate os c filePath = .ok (found, info))

include h

theorem locate_eq_ok :
    os.stat found = .ok info ∧ (found = filePath ∨ os.node filePath = some .dir ∧
      ∃ f ∈ c.directoryIndexFiles, found = filePath.child f ∧ info.isDir = false) := by
  unfold locate at h
  cases hstat : os.stat filePath with
  | error e => cases e <;> simp [hstat] at h
  | ok info' =>
    simp only [hstat] at h
    split_ifs at h with hisDir
    · cases hindex : resolveDirectoryIndex os filePath c.directoryIndexFiles with
      | none => simp [hindex] at h
      | some result =>
        simp only [hindex, Except.ok.injEq] at h
        obtain ⟨f, hf, hfound, hstat', hfile⟩ := resolveDirectoryIndex_eq_some (h ▸ hindex)
        exact ⟨hstat', .inr ⟨(stat_isDir hstat).mpr hisDir, f, hf, hfound, hfile⟩⟩
    · cases h
      exact ⟨hstat, .inl rfl⟩

theorem locate_within (haccepted : Accepted c) : UnixPath.Within filePath found := by
  obtain ⟨hstat, rfl | ⟨hdir, f, hf, rfl, hfile⟩⟩ := locate_eq_ok h
  · exact ⟨[], by simp, by simp⟩
  · exact index_within hdir (haccepted.index f hf) hstat hfile

end

theorem mapRequest_eq_ok {request : Request} {filePath : UnixPath}
    (h : mapRequest c request = .ok filePath) :
    ∃ decodedPath mapping, pathUnescape request.path = some decodedPath ∧
      c.findLongestMatchingMapping decodedPath = some mapping ∧
      applyPathMapping decodedPath mapping = some filePath := by
  unfold mapRequest at h
  cases hdecode : pathUnescape request.path with
  | none => simp [hdecode] at h
  | some decodedPath =>
    simp only [hdecode] at h
    cases hmapping : c.findLongestMatchingMapping decodedPath with
    | none => simp [hmapping] at h
    | some mapping =>
      simp only [hmapping] at h
      split_ifs at h
      cases happly : applyPathMapping decodedPath mapping with
      | none => simp [happly] at h
      | some result =>
        simp only [happly, Except.ok.injEq] at h
        exact ⟨decodedPath, mapping, rfl, hmapping, by rw [happly, h]⟩

/-- The file path of a request and the file that is served are inside the file
path prefix of the longest mapping, which no order of the mappings changes. -/
theorem request_confined (unmarshal : List UInt8 → Except String FileServerConfig)
    (config : List UInt8) (c : FileServerConfig) (haccepted : parseConfig unmarshal config = .ok c)
    (os : Os) (request : Request) :
    (∀ filePath, mapRequest c request = .ok filePath →
      ∃ decodedPath mapping, pathUnescape request.path = some decodedPath ∧
        IsLongest c.pathMappings decodedPath mapping ∧
        UnixPath.Within (UnixPath.ofString mapping.filePathPrefix).clean filePath ∧
        ∀ found info, locate os c filePath = .ok (found, info) →
          UnixPath.Within (UnixPath.ofString mapping.filePathPrefix).clean found) ∧
    ∀ mappings : List PathMapping, mappings.Perm c.pathMappings → ∀ requestPath,
      { c with pathMappings := mappings }.findLongestMatchingMapping requestPath =
        c.findLongestMatchingMapping requestPath := by
  have hc := parseConfig_accepted haccepted
  refine ⟨fun filePath h => ?_, fun mappings hperm => findLongestMatchingMapping_perm hc hperm⟩
  obtain ⟨decodedPath, mapping, hdecode, hmapping, happly⟩ := mapRequest_eq_ok h
  have hlongest := (findLongestMatchingMapping_eq_some_iff hc decodedPath mapping).mp hmapping
  have hwithin := applyPathMapping_within (hc.filePathPrefix mapping hlongest.1) happly
  exact ⟨decodedPath, mapping, hdecode, hlongest, hwithin,
    fun found info hfound => hwithin.trans (locate_within hfound hc)⟩

/-- One mapping below another, with an index file. -/
def siteConfig : FileServerConfig where
  pathMappings := [⟨"/", "/pub"⟩, ⟨"/docs", "/srv/./docs/"⟩]
  directoryIndexFiles := ["..", "index.html"]

def siteText : Bytes :=
  ascii ("\x7b\"path_mappings\":[" ++
    "\x7b\"request_path_prefix\":\"/\",\"file_path_prefix\":\"/pub\"\x7d," ++
    "\x7b\"request_path_prefix\":\"/docs\",\"file_path_prefix\":\"/srv/./docs/\"\x7d]," ++
    "\"directory_index_files\":[\"..\",\"index.html\"]\x7d")

def siteUnmarshal (config : Bytes) : Except String FileServerConfig :=
  if config = siteText then .ok siteConfig else .error "unexpected end of JSON input"

/-- The directories `/srv` and `/srv/docs`, with an index file. -/
def siteOs : Os where
  fs := {
    node := fun p =>
      if p = [] ∨ p = ["srv"] ∨ p = ["srv", "docs"] then some .dir
      else if p = ["srv", "docs", "index.html"] then some (.file [104, 105]) else none
    cwd := []
    root := by simp
    cwd_dir := by simp
    parent := by
      intro p name h
      rcases p with _ | ⟨a, _ | ⟨b, _ | ⟨c, rest⟩⟩⟩
      · simp
      · have ha : a = "srv" := by
          by_contra hne
          simp [hne] at h
        simp [ha]
      · have hab : a = "srv" ∧ b = "docs" := by
          by_contra hne
          rw [not_and] at hne
          simp +contextual [hne] at h
        simp [hab]
      · simp at h }
  statFault := fun _ => false
  readFault := fun _ => false
  error := fun _ => .notExist

theorem request_confined_site :
    parseConfig siteUnmarshal siteText = .ok siteConfig ∧
      mapRequest siteConfig ⟨"/%64ocs/".toList, "GET", []⟩ = .ok ⟨true, ["srv", "docs"]⟩ ∧
      (locate siteOs siteConfig ⟨true, ["srv", "docs"]⟩).map (·.1) =
        .ok ⟨true, ["srv", "docs", "index.html"]⟩ ∧
      ∃ decodedPath mapping, pathUnescape "/%64ocs/".toList = some decodedPath ∧
        IsLongest siteConfig.pathMappings decodedPath mapping ∧
        UnixPath.Within (UnixPath.ofString mapping.filePathPrefix).clean
          ⟨true, ["srv", "docs"]⟩ := by
  have hne : siteText ≠ [] := by decide +kernel
  have hconfig : parseConfig siteUnmarshal siteText = .ok siteConfig := by
    simp only [parseConfig, siteUnmarshal, hne, if_true, if_false]
    rfl
  have hmap : mapRequest siteConfig ⟨"/%64ocs/".toList, "GET", []⟩ =
      .ok ⟨true, ["srv", "docs"]⟩ := by rfl
  obtain ⟨decodedPath, mapping, hdecode, hlongest, hwithin, -⟩ :=
    (request_confined _ _ _ hconfig siteOs _).1 _ hmap
  exact ⟨hconfig, hmap, by rfl, decodedPath, mapping, hdecode, hlongest, hwithin⟩

end BuiltOnEnvoy.FileServer
