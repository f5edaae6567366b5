import BuiltOnEnvoy.Foundations.GoMap
import BuiltOnEnvoy.Foundations.PathJoin

/-!
# Downloading an extension

From the reference of an extension to the directory into which its artifact is
pulled. What a registry returns is arbitrary: its tags, its manifests with all
their annotations and every failure. The steps after the pull only read.
-/

namespace BuiltOnEnvoy.Extensions

open Foundations UnixPath

inductive ExtensionType
  | lua
  | wasm
  | rust
  | extProc
  | go
  | composer
  | other (name : String)
  deriving DecidableEq

def ExtensionType.ofString : String → ExtensionType
  | "lua" => .lua
  | "wasm" => .wasm
  | "rust" => .rust
  | "ext_proc" => .extProc
  | "go" => .go
  | "composer" => .composer
  | name => .other name

/-- The fields of an extension manifest that a download reads. -/
structure Manifest where
  name : String
  parent : String := ""
  version : String
  composerVersion : String := ""
  type : ExtensionType
  cShared : Bool := false
  debug : Bool := false

structure OciManifest where
  annotations : GoMap String String

def OciManifest.annotation (m : OciManifest) (key : String) : String :=
  (m.annotations.get? key).getD ""

def annotationTitle : String := "org.opencontainers.image.title"

def annotationVersion : String := "org.opencontainers.image.version"

def annotationExtensionType : String := "io.tetratelabs.built-on-envoy.extension.type"

def annotationCShared : String := "io.tetratelabs.built-on-envoy.extension.cshared"

def annotationComposerVersion : String :=
  "io.tetratelabs.built-on-envoy.extension.composer_version"

def annotationArtifact : String := "io.tetratelabs.built-on-envoy.extension.artifact"

/-- The defaults that are applied at the end concern other fields. -/
def manifestFromOCI (m : OciManifest) : Manifest where
  name := m.annotation annotationTitle
  version := m.annotation annotationVersion
  composerVersion := m.annotation annotationComposerVersion
  type := .ofString (m.annotation annotationExtensionType)
  cShared := m.annotation annotationCShared = "true"

def isSourceArtifact (m : OciManifest) : Bool :=
  m.annotation annotationArtifact = "source"

structure Directories where
  dataHome : String

def debugVersion (version : String) : String := version ++ "-debug"

def moduleName (m : Manifest) : String :=
  if m.type = .go ∧ ¬m.cShared then m.name
  else if m.parent ≠ "" then m.parent
  else m.name

def composerDir (dirs : Directories) (name version : String) : UnixPath :=
  joinAll [dirs.dataHome, "extensions", "dym", name, version]

def localCacheExtensionDir (dirs : Directories) (m : Manifest) : UnixPath :=
  let version := if m.debug then debugVersion m.version else m.version
  match m.type with
  | .go =>
    if m.cShared then joinAll [dirs.dataHome, "extensions", "dym", moduleName m, version]
    else joinAll [dirs.dataHome, "extensions", "goplugin", moduleName m, version]
  | .rust => joinAll [dirs.dataHome, "extensions", "dym", moduleName m, version]
  | .wasm => joinAll [dirs.dataHome, "extensions", "wasm", moduleName m, version]
  | .extProc => joinAll [dirs.dataHome, "extensions", "extproc", moduleName m, version]
  | .composer => composerDir dirs (moduleName m) version
  | .lua | .other _ => joinAll [dirs.dataHome, "extensions", moduleName m, version]

def localCacheExtensionSourceArtifactDir (dirs : Directories) (m : Manifest) : UnixPath :=
  joinAll [dirs.dataHome, "extensions", "src", moduleName m, m.version]

structure Platform where
  os : String
  architecture : String
  deriving DecidableEq

/-- What a tag resolves to. An index that is decoded as a manifest has its own
annotations. -/
inductive Artifact
  | manifest (m : OciManifest)
  | index (m : OciManifest) (entries : List (Option Platform × Except String OciManifest))

structure RepositoryClient where
  tags : Except String (List String)
  resolve : String → Except String Artifact
  /-- The error of fetching and extracting the layers of a tag, if any. -/
  extract : String → UnixPath → Option String

def orDash (text : String) : String :=
  if text = "" then "-" else text

def platformLogValue : Option Platform → String
  | none => "any"
  | some platform => orDash platform.os ++ "/" ++ orDash platform.architecture

inductive FetchError
  | platformNotFound (index : OciManifest)
  | failed (message : String)

/-- The first entry for the platform; entries of attestations are skipped, and
the platform of a wasm artifact does not matter. -/
def selectIndexManifest (m : OciManifest)
    (entries : List (Option Platform × Except String OciManifest)) (platform : Platform) :
    Option (Except String OciManifest) :=
  let ignorePlatform := m.annotation annotationExtensionType = "wasm"
  (entries.find? fun e =>
    e.1 ≠ some ⟨"unknown", "unknown"⟩ ∧ (ignorePlatform ∨ e.1 = some platform)).map Prod.snd

def fetchManifest (client : RepositoryClient) (tag : String) (platform : Option Platform) :
    Except FetchError OciManifest :=
  match client.resolve tag, platform with
  | .error err, _ => .error (.failed err)
  | .ok (.index m entries), some platform =>
    match selectIndexManifest m entries platform with
    | none => .error (.platformNotFound m)
    | some (.error err) => .error (.failed err)
    | some (.ok found) => .ok found
  | .ok (.index m _), none => .ok m
  | .ok (.manifest m), _ => .ok m

def hasDevSuffix (tag : String) : Bool :=
  "-dev".toList.isSuffixOf tag.toList

/-- Tags are in descending order; the first eligible one is the latest. -/
def getLatestTag (client : RepositoryClient) (repository : String) (allowDevVersions : Bool) :
    Except String String :=
  match client.tags with
  | .error err => .error ("failed to list tags for repository \"" ++ repository ++ "\": " ++ err)
  | .ok tags =>
    match tags.find? fun tag => allowDevVersions || !hasDevSuffix tag with
    | some tag => .ok tag
    | none => .error ("no tags found for repository: " ++ repository)

def repositoryName (registry name : String) : String :=
  if name = "composer" ∨ name = "composer-lite" then registry ++ "/" ++ name
  else registry ++ "/extension-" ++ name

def sourceRepositoryName (registry : String) (m : Manifest) : String :=
  if (m.type = .go ∧ ¬m.cShared) ∨ m.type = .composer then registry ++ "/composer-src"
  else registry ++ "/extension-src-" ++ m.name

structure Downloader where
  registry : String
  dirs : Directories
  os : String
  arch : String
  devVersions : Bool
  disableSourceFallback : Bool
  newClient : String → Except String RepositoryClient

/-- A pull: the manifest that chose its directory, the directory and the error
of the pull, if any. -/
structure Pull where
  manifest : OciManifest
  dir : UnixPath
  error : Option String

/-- One download; `fallback` is called with the repository and the version of a
source artifact when the platform is not found. -/
def downloadFrom (d : Downloader) (platform : Option Platform)
    (getDownloadDir : OciManifest → UnixPath)
    (fallback : String → String → Except String Pull) (repository version : String) :
    Except String Pull :=
  match d.newClient repository with
  | .error err => .error ("failed to create OCI client for \"" ++ repository ++ "\": " ++ err)
  | .ok client =>
    let resolved :=
      if version = "latest" then
        (getLatestTag client repository d.devVersions).mapError
          (("failed to resolve latest tag for \"" ++ repository ++ "\": ") ++ ·)
      else .ok version
    match resolved with
    | .error err => .error err
    | .ok version =>
      match fetchManifest client version platform with
      | .error (.platformNotFound index) =>
        if ¬d.disableSourceFallback then
          let extensionManifest := manifestFromOCI index
          fallback (sourceRepositoryName d.registry extensionManifest)
            (if extensionManifest.type = .go then extensionManifest.composerVersion else version)
        else
          .error ("failed to fetch manifest for " ++ repository ++ ":" ++ version ++
            ": no manifest found for specified platform: " ++ platformLogValue platform)
      | .error (.failed err) =>
        .error ("failed to fetch manifest for " ++ repository ++ ":" ++ version ++ ": " ++ err)
      | .ok manifest =>
        let downloadDir := getDownloadDir manifest
        .ok ⟨manifest, downloadDir, client.extract version downloadDir⟩

/-- The source artifact is downloaded without a platform, for which there is no
further fallback. -/
def download (d : Downloader) (repository version : String)
    (getDownloadDir : OciManifest → UnixPath) : Except String Pull :=
  let platform := if d.os ≠ "" ∧ d.arch ≠ "" then some ⟨d.os, d.arch⟩ else none
  downloadFrom d platform getDownloadDir
    (downloadFrom { d with os := "", arch := "", disableSourceFallback := false } none
      getDownloadDir fun _ _ => .error "")
    repository version

/-- The directory of an extension. -/
def extensionDownloadDir (dirs : Directories) (m : OciManifest) : UnixPath :=
  if isSourceArtifact m then localCacheExtensionSourceArtifactDir dirs (manifestFromOCI m)
  else localCacheExtensionDir dirs (manifestFromOCI m)

def downloadExtension (d : Downloader) (bundle version : String) : Except String Pull :=
  download d (repositoryName d.registry bundle) version (extensionDownloadDir d.dirs)

theorem downloadFrom_dir {d : Downloader} {platform : Option Platform}
    {getDownloadDir : OciManifest → UnixPath} {fallback : String → String → Except String Pull}
    {repository version : String} {pull : Pull}
    (hfallback : ∀ repository version pull, fallback repository version = .ok pull →
      pull.dir = getDownloadDir pull.manifest)
    (h : downloadFrom d platform getDownloadDir fallback repository version = .ok pull) :
    pull.dir = getDownloadDir pull.manifest := by
  simp only [downloadFrom] at h
  cases hclient : d.newClient repository with
  | error err => simp [hclient] at h
  | ok client =>
    simp only [hclient] at h
    split at h
    · cases h
    · rename_i version' _
      cases hfetch : fetchManifest client version' platform with
      | ok manifest =>
        simp only [hfetch, Except.ok.injEq] at h
        rw [← h]
      | error err =>
        cases err with
        | failed message => simp [hfetch] at h
        | platformNotFound index =>
          simp only [hfetch] at h
          by_cases hdisabled : d.disableSourceFallback = true
          · simp [hdisabled] at h
          · rw [if_pos hdisabled] at h
            exact hfallback _ _ _ h

theorem download_dir {d : Downloader} {repository version : String}
    {getDownloadDir : OciManifest → UnixPath} {pull : Pull}
    (h : download d repository version getDownloadDir = .ok pull) :
    pull.dir = getDownloadDir pull.manifest := by
  refine downloadFrom_dir ?_ h
  intro repository version pull hsource
  refine downloadFrom_dir ?_ hsource
  intro _ _ _ hnone
  cases hnone

/-- The directory for all extensions. -/
def extensionsDir (dirs : Directories) : UnixPath :=
  joinAll [dirs.dataHome, "extensions"]

/-- The names below the directory for all extensions that the annotations of a
manifest choose. -/
def cacheNames (m : OciManifest) : List String :=
  let title := m.annotation annotationTitle
  let version := m.annotation annotationVersion
  if m.annotation annotationArtifact = "source" then ["src", title, version]
  else
    match ExtensionType.ofString (m.annotation annotationExtensionType) with
    | .go =>
      if m.annotation annotationCShared = "true" then ["dym", title, version]
      else ["goplugin", title, version]
    | .rust | .composer => ["dym", title, version]
    | .wasm => ["wasm", title, version]
    | .extProc => ["extproc", title, version]
    | .lua | .other _ => [title, version]

theorem moduleName_manifestFromOCI (m : OciManifest) :
    moduleName (manifestFromOCI m) = m.annotation annotationTitle := by
  simp [moduleName, manifestFromOCI]

theorem extensionDownloadDir_eq (dirs : Directories) (m : OciManifest) :
    extensionDownloadDir dirs m = (extensionsDir dirs).childAll (cacheNames m) := by
  have hjoin : extensionDownloadDir dirs m =
      joinAll (dirs.dataHome :: "extensions" :: cacheNames m) := by
    by_cases hsource : m.annotation annotationArtifact = "source"
    · simp only [extensionDownloadDir, isSourceArtifact, hsource, decide_true, if_true, cacheNames,
        localCacheExtensionSourceArtifactDir, moduleName_manifestFromOCI]
      rfl
    · simp only [extensionDownloadDir, isSourceArtifact, hsource, decide_false, Bool.false_eq_true,
        if_false, cacheNames, localCacheExtensionDir, moduleName_manifestFromOCI]
      cases htype : ExtensionType.ofString (m.annotation annotationExtensionType) with
      | go =>
        by_cases hshared : m.annotation annotationCShared = "true"
        · simp [manifestFromOCI, htype, hshared]
        · simp [manifestFromOCI, htype, hshared]
      | _ => simp [manifestFromOCI, htype, composerDir]
  rw [hjoin, joinAll_cons_cons _ (by decide), extensionsDir]

/-- An extension is pulled into the directory for all extensions exactly when its
title and version come back through the levels they climb. -/
theorem downloadExtension_within_iff (d : Downloader) (bundle version : String) (pull : Pull)
    (h : downloadExtension d bundle version = .ok pull) :
    Within (extensionsDir d.dirs) pull.dir ↔
      Reenters (extensionsDir d.dirs) (relative (cacheNames pull.manifest)) := by
  rw [download_dir h, extensionDownloadDir_eq]
  exact childAll_within_iff (isClean_clean _) _

/-- A registry with one artifact, whose title is given. -/
def titledDownloader (title : String) : Downloader where
  registry := "registry"
  dirs := ⟨"/home/u/.local/share/boe"⟩
  os := "linux"
  arch := "amd64"
  devVersions := false
  disableSourceFallback := false
  newClient := fun _ => .ok {
    tags := .ok ["1.0.0"]
    resolve := fun _ => .ok (.manifest ⟨⟨[(annotationTitle, title), (annotationVersion, "1.0.0"),
      (annotationExtensionType, "rust")], by
        show [annotationTitle, annotationVersion, annotationExtensionType].Nodup
        decide +kernel⟩⟩)
    extract := fun _ _ => none }

/-- The artifact is extracted into the directory for the keys of the user. -/
theorem climbing_title_escapes :
    (downloadExtension (titledDownloader "../../../../../.ssh") "cors" "latest").map
        (fun pull => (pull.dir, pull.error)) =
      .ok (⟨true, ["home", "u", ".ssh", "1.0.0"]⟩, none) ∧
      ¬Within (extensionsDir ⟨"/home/u/.local/share/boe"⟩)
        ⟨true, ["home", "u", ".ssh", "1.0.0"]⟩ := by
  have hbase : extensionsDir ⟨"/home/u/.local/share/boe"⟩ =
      ⟨true, ["home", "u", ".local", "share", "boe", "extensions"]⟩ := by decide +kernel
  refine ⟨by decide +kernel, ?_⟩
  rw [hbase]
  rintro ⟨names, heq, -⟩
  simp at heq

theorem plain_title_within :
    ∃ pull, downloadExtension (titledDownloader "cors") "cors" "latest" = .ok pull ∧
      Within (extensionsDir ⟨"/home/u/.local/share/boe"⟩) pull.dir := by
  refine ⟨_, rfl,
    (downloadExtension_within_iff (titledDownloader "cors") "cors" "latest" _ rfl).mpr ?_⟩
  exact ⟨.inl (by decide +kernel), by decide +kernel⟩

end BuiltOnEnvoy.Extensions
