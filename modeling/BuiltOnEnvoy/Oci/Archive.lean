import BuiltOnEnvoy.Foundations.Fallible
import BuiltOnEnvoy.Foundations.PathJoin
import BuiltOnEnvoy.Oci.Package

/-!
# Packaging a directory

`PackageDirectory` over the tree that `filepath.Walk` finds below a directory:
files, directories and symbolic links, siblings in the order of the walk. The
archive is the sequence of entries that its tar reader will deliver.
-/

namespace BuiltOnEnvoy.Oci

open Foundations List

/-- The entries of a directory. -/
inductive Forest
  | nil
  | file (name : String) (content : List UInt8) (rest : Forest)
  | link (name target : String) (rest : Forest)
  | dir (name : String) (below rest : Forest)
  deriving DecidableEq

/-- A name that a directory entry can have. -/
def ValidName (name : String) : Prop :=
  name ≠ "" ∧ '/' ∉ name.toList ∧ UnixPath.Normal name

namespace Forest

def names : Forest → List String
  | .nil => []
  | .file name _ rest => name :: rest.names
  | .link name _ rest => name :: rest.names
  | .dir name _ rest => name :: rest.names

/-- Names are valid and not repeated among siblings; no link is empty. -/
def Valid : Forest → Prop
  | .nil => True
  | .file name _ rest => ValidName name ∧ name ∉ rest.names ∧ rest.Valid
  | .link name target rest => ValidName name ∧ name ∉ rest.names ∧ target ≠ "" ∧ rest.Valid
  | .dir name below rest => ValidName name ∧ name ∉ rest.names ∧ below.Valid ∧ rest.Valid

/-- What stands at a relative path. -/
def node? : Forest → List String → Option Node
  | .nil, _ => none
  | .file name content rest, p => if p = [name] then some (.file content) else rest.node? p
  | .link name target rest, p => if p = [name] then some (.link target) else rest.node? p
  | .dir name below rest, p =>
    if p.head? = some name then
      if p.tail = [] then some .dir else below.node? p.tail
    else rest.node? p

end Forest

/-- A directory tree. -/
structure Tree where
  entries : Forest
  valid : entries.Valid

inductive PackageError
  | walk
  | rel
  | externalSymlink (path target : String)
  deriving DecidableEq

/-- The names joined by slashes. -/
def slashed (names : List String) : String :=
  String.ofList (['/'].intercalate (names.map String.toList))

/-- The name of an entry in the archive. -/
def archiveName (dir path : UnixPath) : Except PackageError String :=
  match UnixPath.rel dir path with
  | none => .error .rel
  | some parts => .ok (slashed parts)

/-- The target of a link, seen from the link's own directory. -/
def resolveLink (path : UnixPath) (link : String) : UnixPath :=
  if link.toList.head? = some '/' then (UnixPath.ofString link).clean else path.dir.child link

/-- The walk below one directory, at a path; both are clean names. -/
def packageEntries (dir path : UnixPath) : Forest → Except PackageError (List TarItem)
  | .nil => .ok []
  | .file name content rest => do
    let relPath ← archiveName dir (path.child name)
    let items ← packageEntries dir path rest
    return .entry ⟨relPath, .reg, ""⟩ content true :: items
  | .link name target rest => do
    let relPath ← archiveName dir (path.child name)
    if isInsideDir (resolveLink (path.child name) target) dir then
      let items ← packageEntries dir path rest
      return .entry ⟨relPath, .symlink, target⟩ [] true :: items
    else .error (.externalSymlink relPath target)
  | .dir name below rest => do
    let relPath ← archiveName dir (path.child name)
    let inner ← packageEntries dir (path.child name) below
    let items ← packageEntries dir path rest
    return .entry ⟨relPath, .dir, ""⟩ [] true :: (inner ++ items)

/-- The empty name is no directory. -/
def packageDirectory (dir : String) (tree : Tree) : Except PackageError (List TarItem) :=
  if dir = "" then .error .walk
  else packageEntries (UnixPath.ofString dir).clean (UnixPath.ofString dir).clean tree.entries

/-- The archive of a forest below some names. -/
def Forest.items (above : List String) : Forest → List TarItem
  | .nil => []
  | .file name content rest =>
    .entry ⟨slashed (above ++ [name]), .reg, ""⟩ content true :: rest.items above
  | .link name target rest =>
    .entry ⟨slashed (above ++ [name]), .symlink, target⟩ [] true :: rest.items above
  | .dir name below rest =>
    .entry ⟨slashed (above ++ [name]), .dir, ""⟩ [] true ::
      (below.items (above ++ [name]) ++ rest.items above)

variable {name : String}

theorem components_of_valid (h : ValidName name) :
    UnixPath.components name = [name] := by
  obtain ⟨hne, hslash, -⟩ := h
  simp [UnixPath.components, splitOn_eq_singleton hslash, hne]

theorem child_of_valid (h : ValidName name) (p : UnixPath) :
    p.child name = ⟨p.rooted, p.parts ++ [name]⟩ := by
  obtain ⟨hne, hslash, hdot, hup⟩ := h
  simp [UnixPath.child, components_of_valid ⟨hne, hslash, hdot, hup⟩, UnixPath.cleanStep, hne,
    hdot, hup]

theorem stripCommon_append (base names : List String) :
    UnixPath.stripCommon base (base ++ names) = ([], names) := by
  induction base with
  | nil => cases names <;> rfl
  | cons part base ih => simpa [UnixPath.stripCommon] using ih

theorem rel_append (base : UnixPath) {names : List String} (h : names ≠ []) :
    UnixPath.rel base ⟨base.rooted, base.parts ++ names⟩ = some names := by
  have hne : base ≠ ⟨base.rooted, base.parts ++ names⟩ := by
    intro heq
    exact h (by simpa using congrArg UnixPath.parts heq)
  simp [UnixPath.rel, hne, h, stripCommon_append]

theorem archiveName_below (base : UnixPath) (above : List String) (h : ValidName name) :
    archiveName base (UnixPath.child ⟨base.rooted, base.parts ++ above⟩ name) =
      .ok (slashed (above ++ [name])) := by
  rw [archiveName, child_of_valid h, append_assoc, rel_append base (by simp)]

/-- An accepted forest is archived under its relative paths, in its order. -/
theorem packageEntries_eq {base : UnixPath} {forest : Forest} (hvalid : forest.Valid)
    {above : List String} {items : List TarItem}
    (h : packageEntries base ⟨base.rooted, base.parts ++ above⟩ forest = .ok items) :
    items = forest.items above := by
  induction forest generalizing above items with
  | nil =>
    cases h
    rfl
  | file name content rest ih =>
    obtain ⟨hname, -, hrest⟩ := hvalid
    obtain ⟨relPath, hrel, h⟩ := bind_eq_ok h
    obtain ⟨more, hmore, h⟩ := bind_eq_ok h
    rw [archiveName_below base above hname, Except.ok.injEq] at hrel
    cases h
    rw [Forest.items, ih hrest hmore, hrel]
  | link name target rest ih =>
    obtain ⟨hname, -, -, hrest⟩ := hvalid
    obtain ⟨relPath, hrel, h⟩ := bind_eq_ok h
    rw [archiveName_below base above hname, Except.ok.injEq] at hrel
    split_ifs at h
    obtain ⟨more, hmore, h⟩ := bind_eq_ok h
    cases h
    rw [Forest.items, ih hrest hmore, hrel]
  | dir name below rest ihBelow ihRest =>
    obtain ⟨hname, -, hbelow, hrest⟩ := hvalid
    obtain ⟨relPath, hrel, h⟩ := bind_eq_ok h
    obtain ⟨inner, hinner, h⟩ := bind_eq_ok h
    obtain ⟨more, hmore, h⟩ := bind_eq_ok h
    rw [archiveName_below base above hname, Except.ok.injEq] at hrel
    rw [child_of_valid hname, append_assoc] at hinner
    cases h
    rw [Forest.items, ihBelow hbelow hinner, ihRest hrest hmore, hrel]

theorem packageDirectory_eq {dir : String} {tree : Tree} {items : List TarItem}
    (h : packageDirectory dir tree = .ok items) : items = tree.entries.items [] := by
  unfold packageDirectory at h
  split_ifs at h
  apply packageEntries_eq tree.valid
  rwa [append_nil]

theorem Forest.head_of_node? {forest : Forest} {p : List String} {x : Node}
    (h : forest.node? p = some x) : ∃ name rest, p = name :: rest ∧ name ∈ forest.names := by
  induction forest with
  | nil => cases h
  | file name _ rest ih | link name _ rest ih =>
    rw [Forest.node?] at h
    split_ifs at h with hp
    · exact ⟨name, [], hp, mem_cons_self⟩
    · obtain ⟨first, below, hp, hmem⟩ := ih h
      exact ⟨first, below, hp, mem_cons_of_mem _ hmem⟩
  | dir name below rest _ ih =>
    rw [Forest.node?] at h
    by_cases hp : p.head? = some name
    · exact ⟨name, p.tail, eq_cons_of_mem_head? hp, mem_cons_self⟩
    · rw [if_neg hp] at h
      obtain ⟨first, below, hp, hmem⟩ := ih h
      exact ⟨first, below, hp, mem_cons_of_mem _ hmem⟩

theorem Forest.node?_nil (forest : Forest) : forest.node? [] = none := by
  by_contra h
  obtain ⟨x, hx⟩ := Option.ne_none_iff_exists'.mp h
  obtain ⟨name, rest, hp, -⟩ := forest.head_of_node? hx
  cases hp

theorem Forest.node?_of_notMem {forest : Forest} (h : name ∉ forest.names) (rest : List String) :
    forest.node? (name :: rest) = none := by
  by_contra hne
  obtain ⟨x, hx⟩ := Option.ne_none_iff_exists'.mp hne
  obtain ⟨first, below, hp, hmem⟩ := forest.head_of_node? hx
  rw [List.cons.injEq] at hp
  exact h (hp.1 ▸ hmem)

theorem components_slashed {names : List String} (hne : names ≠ [])
    (h : ∀ name ∈ names, ValidName name) : UnixPath.components (slashed names) = names := by
  have hsplit : (['/'].intercalate (names.map String.toList)).splitOn '/' =
      names.map String.toList := by
    apply splitOn_intercalate
    · simpa using fun name hname => (h name hname).2.1
    · simpa using hne
  have hback : ((names.map String.toList).map String.ofList) = names := by simp
  rw [UnixPath.components, slashed, String.toList_ofList, hsplit, hback, filter_eq_self]
  intro name hname
  simpa using (h name hname).1

end BuiltOnEnvoy.Oci
