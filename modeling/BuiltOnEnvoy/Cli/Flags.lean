import BuiltOnEnvoy.Foundations.GoMap
import BuiltOnEnvoy.Cli.Arguments

/-!
# The positions of extensions

The parser keeps the values of `--extension` and of `--local` in two lists, so
the order between them is lost. `saveExtensionPositions` recovers it by a scan
of its own over the raw arguments, and `sort` moves the loaded manifests to the
positions that the scan has found.
-/

namespace BuiltOnEnvoy.Cli

open Foundations

/-- `filepath.Abs`, for a working directory. -/
def abs (cwd p : UnixPath) : UnixPath :=
  if p.rooted then p.clean else UnixPath.clean { cwd with parts := cwd.parts ++ p.parts }

/-- `extensionPositions`. -/
structure ExtensionPositions where
  localDirs : GoMap UnixPath (List ℕ)
  remote : GoMap String (List ℕ)

inductive Fault
  /-- An index out of range, which ends the program. -/
  | indexOutOfRange
  /-- Failed to find manifest for local extension with path. -/
  | localNotFound (path : UnixPath)
  /-- Failed to find manifest for remote extension with reference. -/
  | remoteNotFound (ref : String)
  deriving DecidableEq

namespace ExtensionPositions

def empty : ExtensionPositions := ⟨GoMap.empty, GoMap.empty⟩

/-- `m[key] = append(m[key], index)`. -/
def append {κ : Type} [DecidableEq κ] (m : GoMap κ (List ℕ)) (key : κ) (index : ℕ) :
    GoMap κ (List ℕ) :=
  m.set key ((m.get? key).getD [] ++ [index])

end ExtensionPositions

/-- The loop of `saveExtensionPositions`. The argument after a flag is its key and
is looked at again as an argument. -/
def saveFrom (cwd : UnixPath) (extensionIndex : ℕ) (positions : ExtensionPositions) :
    List String → Except Fault ExtensionPositions
  | [] => .ok positions
  | arg :: rest =>
    if arg = "--local" then
      match rest.head? with
      | none => .error .indexOutOfRange
      | some value =>
        let key := abs cwd (UnixPath.ofString value)
        saveFrom cwd (extensionIndex + 1)
          { positions with
            localDirs := ExtensionPositions.append positions.localDirs key extensionIndex }
          rest
    else if arg = "--extension" then
      match rest.head? with
      | none => .error .indexOutOfRange
      | some key =>
        saveFrom cwd (extensionIndex + 1)
          { positions with remote := ExtensionPositions.append positions.remote key extensionIndex }
          rest
    else saveFrom cwd extensionIndex positions rest

def saveExtensionPositions (cwd : UnixPath) (args : List String) :
    Except Fault ExtensionPositions :=
  saveFrom cwd 0 ExtensionPositions.empty args

/-- The fields of a manifest that `sort` reads. -/
structure Manifest where
  remote : Bool
  remoteRef : String
  path : String
  deriving DecidableEq

/-- `downloadExtensions`, when every download succeeds. The path of a manifest is
the one in the cache, or empty for an artifact without a manifest file. -/
def downloadExtensions (cachedPath : String → String) (refs : List String) : List Manifest :=
  refs.map fun ref => ⟨true, ref, cachedPath ref⟩

/-- `loadLocalManifests`, when every manifest can be loaded. -/
def loadLocalManifests (paths : List String) : List Manifest :=
  paths.map fun path => ⟨false, "", path ++ "/manifest.yaml"⟩

/-- `filepath.Abs(filepath.Dir(m.Path))`. -/
def Manifest.absDir (cwd : UnixPath) (m : Manifest) : UnixPath :=
  abs cwd (UnixPath.ofString m.path).dir.clean

def findLocal (cwd : UnixPath) (manifests : List Manifest) (path : UnixPath) : Option Manifest :=
  manifests.find? fun m => m.absDir cwd = path

def findRemote (manifests : List Manifest) (ref : String) : Option Manifest :=
  manifests.find? fun m => m.remote && m.remoteRef = ref

/-- `sorted[p] = m` for the positions of one key. -/
def setAll {μ : Type} (m : μ) : List (Option μ) → List ℕ → Except Fault (List (Option μ))
  | sorted, [] => .ok sorted
  | sorted, p :: positions =>
    if p < sorted.length then setAll m (sorted.set p (some m)) positions
    else .error .indexOutOfRange

/-- One of the two loops of `sort`, over the entries of its map in the order of the visit. -/
def place {κ μ : Type} (find : κ → Option μ) (notFound : κ → Fault) :
    List (Option μ) → List (κ × List ℕ) → Except Fault (List (Option μ))
  | sorted, [] => .ok sorted
  | sorted, (key, positions) :: rest =>
    match find key with
    | none => .error (notFound key)
    | some m => do
      let sorted ← setAll m sorted positions
      place find notFound sorted rest

/-- `sort`; the two loops visit their maps in the given orders. An unset slot is
`none`, the nil pointer. -/
def sort (cwd : UnixPath) (localOrder : List (UnixPath × List ℕ))
    (remoteOrder : List (String × List ℕ)) (manifests : List Manifest) :
    Except Fault (List (Option Manifest)) := do
  let sorted ← place (findLocal cwd manifests) .localNotFound
    (List.replicate manifests.length none) localOrder
  place (findRemote manifests) .remoteNotFound sorted remoteOrder

end BuiltOnEnvoy.Cli
