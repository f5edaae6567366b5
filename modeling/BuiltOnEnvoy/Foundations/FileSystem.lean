import BuiltOnEnvoy.Foundations.UnixPath

/-!
# A file system with symbolic links

A tree of directories, files and links as one process sees it, path lookup as
the kernel does it, and the calls of Go's `os` package that create or write.
Permission bits, hard links and mounts are left out. Every call returns the
places where it created, truncated or wrote something.
-/

namespace BuiltOnEnvoy.Foundations

open List

/-- A place in the tree: the names on the way from the root. -/
abbrev Place := List String

inductive Node
  | dir
  | file (content : List UInt8)
  | link (target : String)
  deriving DecidableEq, Repr

/-- Every node but the root stands in a directory. -/
structure FileSystem where
  node : Place → Option Node
  cwd : Place
  root : node [] = some .dir
  cwd_dir : node cwd = some .dir
  parent : ∀ p name, node (p ++ [name]) ≠ none → node p = some .dir

namespace FileSystem

/-- The number of links one lookup may follow. -/
def maxLinks : ℕ := 40

/-- Look up components from a directory. A link is handed to `jump` together
with the components behind it, except a final one when it is not followed. The
last component need not exist. -/
def walkFrom (fs : FileSystem) (follow : Bool) (jump : List String → Place → Option (Place × ℕ))
    (budget : ℕ) : List String → Place → Option (Place × ℕ)
  | [], cur => some (cur, budget)
  | name :: rest, cur =>
    if name = "." then walkFrom fs follow jump budget rest cur
    else if name = ".." then walkFrom fs follow jump budget rest cur.dropLast
    else match fs.node (cur ++ [name]) with
      | some .dir => walkFrom fs follow jump budget rest (cur ++ [name])
      | some (.link target) =>
        if rest = [] ∧ follow = false then some (cur ++ [name], budget)
        else jump ((UnixPath.ofString target).parts ++ rest)
          (if (UnixPath.ofString target).rooted then [] else cur)
      | _ => if rest = [] then some (cur ++ [name], budget) else none

/-- Look up components with a budget of links; the rest of the budget is
returned beside the place. -/
def walk (fs : FileSystem) (follow : Bool) : ℕ → List String → Place → Option (Place × ℕ)
  | 0 => fs.walkFrom follow (fun _ _ => none) 0
  | budget + 1 => fs.walkFrom follow (fs.walk follow budget) (budget + 1)

def start (fs : FileSystem) (rooted : Bool) : Place :=
  if rooted then [] else fs.cwd

def lookup (fs : FileSystem) (follow : Bool) (p : UnixPath) : Option (Place × ℕ) :=
  fs.walk follow maxLinks p.parts (fs.start p.rooted)

/-- The directory a path leads to. -/
def dirAt (fs : FileSystem) (p : UnixPath) : Option (Place × ℕ) :=
  (fs.lookup true p).filter fun r => fs.node r.1 = some .dir

/-- Whether `Stat` finds a directory; `none` when it finds nothing. -/
def statIsDir (fs : FileSystem) (p : UnixPath) : Option Bool :=
  (fs.lookup true p).bind fun r => (fs.node r.1).map (· == .dir)

def lstatIsDir (fs : FileSystem) (p : UnixPath) : Bool :=
  ((fs.lookup false p).bind fun r => fs.node r.1) == some .dir

/-- Put a node at a free place of a directory. -/
def insert (fs : FileSystem) (p : Place) (x : Node) (hfree : fs.node p = none)
    (hdir : fs.node p.dropLast = some .dir) : FileSystem where
  node := Function.update fs.node p (some x)
  cwd := fs.cwd
  root := by
    rw [Function.update_of_ne, fs.root]
    rintro rfl
    simp [fs.root] at hfree
  cwd_dir := by
    rw [Function.update_of_ne, fs.cwd_dir]
    rintro rfl
    simp [fs.cwd_dir] at hfree
  parent := by
    intro q name hq
    have hnode : fs.node q = some .dir := by
      by_cases hp : q ++ [name] = p
      · rw [← hp, List.dropLast_concat] at hdir
        exact hdir
      · rw [Function.update_of_ne hp] at hq
        exact fs.parent q name hq
    rw [Function.update_of_ne, hnode]
    rintro rfl
    simp [hnode] at hfree

/-- Replace the content of a file. -/
def overwrite (fs : FileSystem) (p : Place) (content old : List UInt8)
    (hfile : fs.node p = some (.file old)) : FileSystem where
  node := Function.update fs.node p (some (.file content))
  cwd := fs.cwd
  root := by
    rw [Function.update_of_ne, fs.root]
    rintro rfl
    simp [fs.root] at hfile
  cwd_dir := by
    rw [Function.update_of_ne, fs.cwd_dir]
    rintro rfl
    simp [fs.cwd_dir] at hfile
  parent := by
    intro q name hq
    have hnode : fs.node q = some .dir := by
      by_cases hp : q ++ [name] = p
      · apply fs.parent q name
        simp [hp, hfile]
      · rw [Function.update_of_ne hp] at hq
        exact fs.parent q name hq
    rw [Function.update_of_ne, hnode]
    rintro rfl
    simp [hnode] at hfile

/-- What a call left behind: the tree, the places it changed, its success. -/
structure Effect where
  fs : FileSystem
  touched : List Place
  ok : Bool

def fail (fs : FileSystem) : Effect := ⟨fs, [], false⟩

/-- Run a second call when the first one succeeded. -/
def Effect.andThen (e : Effect) (next : FileSystem → Effect) : Effect :=
  if e.ok then ⟨(next e.fs).fs, e.touched ++ (next e.fs).touched, (next e.fs).ok⟩ else e

def create (fs : FileSystem) (p : Place) (x : Node) : Effect :=
  if h : fs.node p = none ∧ fs.node p.dropLast = some .dir then ⟨fs.insert p x h.1 h.2, [p], true⟩
  else fs.fail

/-- Create a node under a name that must not exist, without following it. -/
def make (fs : FileSystem) (p : UnixPath) (x : Node) : Effect :=
  match fs.lookup false p with
  | none => fs.fail
  | some (place, _) => fs.create place x

/-- `os.Mkdir`. -/
def mkdir (fs : FileSystem) (p : UnixPath) : Effect := fs.make p .dir

/-- `os.Symlink`; an empty target is refused. -/
def symlink (fs : FileSystem) (target : String) (p : UnixPath) : Effect :=
  if target = "" then fs.fail else fs.make p (.link target)

/-- Open with create and truncate, then write: a final link is followed, also
to a file that does not exist yet. -/
def writeFile (fs : FileSystem) (p : UnixPath) (content : List UInt8) : Effect :=
  match fs.lookup true p with
  | none => fs.fail
  | some (place, _) =>
    match h : fs.node place with
    | none => fs.create place (.file content)
    | some (.file old) => ⟨fs.overwrite place content old h, [place], true⟩
    | some _ => fs.fail

/-- `Mkdir` whose failure is forgiven when the directory is there. -/
def mkdirLast (fs : FileSystem) (p : UnixPath) : Effect :=
  let e := fs.mkdir p
  if e.ok then e else ⟨e.fs, e.touched, e.fs.lstatIsDir p⟩

/-- `os.MkdirAll` on the components in reverse. -/
def mkdirAllRev (fs : FileSystem) (rooted : Bool) : List String → Effect
  | [] =>
    match fs.statIsDir ⟨rooted, []⟩ with
    | some isDir => ⟨fs, [], isDir⟩
    | none => fs.mkdirLast ⟨rooted, []⟩
  | name :: above =>
    match fs.statIsDir ⟨rooted, (name :: above).reverse⟩ with
    | some isDir => ⟨fs, [], isDir⟩
    | none =>
      (fs.mkdirAllRev rooted above).andThen (·.mkdirLast ⟨rooted, (name :: above).reverse⟩)

def mkdirAll (fs : FileSystem) (p : UnixPath) : Effect :=
  fs.mkdirAllRev p.rooted p.parts.reverse

section

variable (fs : FileSystem)

theorem start_dir (rooted : Bool) : fs.node (fs.start rooted) = some .dir := by
  unfold start
  split_ifs
  · exact fs.root
  · exact fs.cwd_dir

theorem dropLast_dir {p : Place} (h : fs.node p = some .dir) : fs.node p.dropLast = some .dir := by
  rcases eq_nil_or_concat p with rfl | ⟨q, name, rfl⟩
  · exact fs.root
  · rw [concat_eq_append] at h ⊢
    rw [dropLast_concat]
    exact fs.parent q name (by simp [h])

theorem node_below_none {p : Place} (h : fs.node p = none) (below : List String) :
    fs.node (p ++ below) = none := by
  induction below using List.reverseRecOn with
  | nil => simpa using h
  | append_singleton below name ih =>
    by_contra hne
    rw [← append_assoc] at hne
    have hdir := fs.parent _ name hne
    rw [ih] at hdir
    cases hdir

/-- Continue a lookup of `back` from the directory another lookup led to. -/
def continueAt (follow : Bool) (back : List String) (r : Place × ℕ) : Option (Place × ℕ) :=
  if fs.node r.1 = some .dir then fs.walk follow r.2 back r.1 else none

theorem walkFrom_append (follow : Bool) (budget : ℕ)
    (jump jump' : List String → Place → Option (Place × ℕ)) (back : List String)
    (hback : back ≠ [])
    (hwalk : ∀ cur, fs.walk follow budget back cur = fs.walkFrom follow jump budget back cur)
    (hjump : ∀ parts cur, fs.node cur = some .dir →
      jump (parts ++ back) cur = (jump' parts cur).bind (fs.continueAt follow back))
    (front : List String) (cur : Place) (hcur : fs.node cur = some .dir) :
    fs.walkFrom follow jump budget (front ++ back) cur =
      (fs.walkFrom true jump' budget front cur).bind (fs.continueAt follow back) := by
  induction front generalizing cur with
  | nil => simp [walkFrom, continueAt, hcur, hwalk]
  | cons name rest ih =>
    rw [cons_append, walkFrom, walkFrom]
    by_cases hdot : name = "."
    · rw [if_pos hdot, if_pos hdot]
      exact ih cur hcur
    by_cases hup : name = ".."
    · rw [if_neg hdot, if_neg hdot, if_pos hup, if_pos hup]
      exact ih cur.dropLast (fs.dropLast_dir hcur)
    rw [if_neg hdot, if_neg hdot, if_neg hup, if_neg hup]
    have hne : ¬rest ++ back = [] := by simp [hback]
    -- only a directory or a link can be passed
    cases hnode : fs.node (cur ++ [name]) with
    | none => by_cases hrest : rest = [] <;> simp [hback, hrest, continueAt, hnode]
    | some x =>
      cases x with
      | dir => exact ih (cur ++ [name]) hnode
      | file content => by_cases hrest : rest = [] <;> simp [hback, hrest, continueAt, hnode]
      | link target =>
        have hdir : fs.node (if (UnixPath.ofString target).rooted then [] else cur) =
            some .dir := by
          split_ifs
          · exact fs.root
          · exact hcur
        simp only [hne, false_and, if_false, Bool.true_eq_false, and_false]
        rw [← append_assoc]
        exact hjump _ _ hdir

theorem walk_append (follow : Bool) (budget : ℕ) (front back : List String) (hback : back ≠ [])
    (cur : Place) (hcur : fs.node cur = some .dir) :
    fs.walk follow budget (front ++ back) cur =
      (fs.walk true budget front cur).bind (fs.continueAt follow back) := by
  induction budget generalizing front cur with
  | zero =>
    exact fs.walkFrom_append follow 0 _ (fun _ _ => none) back hback (fun _ => rfl)
      (fun _ _ _ => rfl) front cur hcur
  | succ n ih =>
    exact fs.walkFrom_append follow (n + 1) _ (fs.walk true n) back hback (fun _ => rfl)
      (fun parts cur hdir => ih parts cur hdir) front cur hcur

variable {r : Place × ℕ}

theorem dirAt_eq_some {p : UnixPath} :
    fs.dirAt p = some r ↔ fs.lookup true p = some r ∧ fs.node r.1 = some .dir := by
  simp [dirAt, Option.filter_eq_some_iff]

theorem lookup_append (follow rooted : Bool) (front back : List String) (hback : back ≠ []) :
    fs.lookup follow ⟨rooted, front ++ back⟩ =
      (fs.dirAt ⟨rooted, front⟩).bind fun r => fs.walk follow r.2 back r.1 := by
  rw [lookup, fs.walk_append follow maxLinks front back hback _ (fs.start_dir rooted)]
  unfold dirAt lookup
  cases fs.walk true maxLinks front (fs.start rooted) with
  | none => rfl
  | some r => by_cases hdir : fs.node r.1 = some .dir <;> simp [continueAt, Option.filter, hdir]

theorem dirAt_dir {p : UnixPath} (h : fs.dirAt p = some r) :
    ∃ r', fs.dirAt p.dir = some r' := by
  obtain ⟨rooted, parts⟩ := p
  rcases eq_nil_or_concat parts with rfl | ⟨front, last, rfl⟩
  · exact ⟨r, h⟩
  · rw [concat_eq_append] at h ⊢
    rw [dirAt_eq_some, lookup_append _ _ _ _ _ (by simp)] at h
    rw [UnixPath.dir, dropLast_concat]
    cases hfront : fs.dirAt ⟨rooted, front⟩ with
    | none => simp [hfront] at h
    | some r' => exact ⟨r', rfl⟩

/-- Where a lookup that follows links can end: at a directory, at a file, or at
a free place of a directory. -/
def Endpoint (p : Place) : Prop :=
  fs.node p = some .dir ∨ (∃ content, fs.node p = some (.file content)) ∨
    (fs.node p = none ∧ fs.node p.dropLast = some .dir)

theorem walkFrom_endpoint (budget : ℕ) {jump : List String → Place → Option (Place × ℕ)}
    (hjump : ∀ parts cur r, fs.node cur = some .dir → jump parts cur = some r → fs.Endpoint r.1)
    (parts : List String) (cur : Place) (hcur : fs.node cur = some .dir)
    (h : fs.walkFrom true jump budget parts cur = some r) : fs.Endpoint r.1 := by
  induction parts generalizing cur with
  | nil =>
    simp only [walkFrom, Option.some.injEq] at h
    subst h
    exact Or.inl hcur
  | cons name rest ih =>
    rw [walkFrom] at h
    by_cases hdot : name = "."
    · rw [if_pos hdot] at h
      exact ih cur hcur h
    by_cases hup : name = ".."
    · rw [if_neg hdot, if_pos hup] at h
      exact ih cur.dropLast (fs.dropLast_dir hcur) h
    rw [if_neg hdot, if_neg hup] at h
    cases hnode : fs.node (cur ++ [name]) with
    | none =>
      rw [hnode] at h
      by_cases hrest : rest = []
      · simp only [hrest, if_true, Option.some.injEq] at h
        subst h
        exact Or.inr (Or.inr ⟨hnode, by simpa using hcur⟩)
      · simp [hrest] at h
    | some x =>
      rw [hnode] at h
      cases x with
      | dir => exact ih _ hnode h
      | file content =>
        by_cases hrest : rest = []
        · simp only [hrest, if_true, Option.some.injEq] at h
          subst h
          exact Or.inr (Or.inl ⟨content, hnode⟩)
        · simp [hrest] at h
      | link target =>
        simp only [Bool.true_eq_false, and_false, if_false] at h
        refine hjump _ _ r ?_ h
        split_ifs
        · exact fs.root
        · exact hcur

theorem lookup_endpoint {p : UnixPath} (h : fs.lookup true p = some r) :
    fs.Endpoint r.1 := by
  have hwalk : ∀ budget parts cur (r : Place × ℕ), fs.node cur = some .dir →
      fs.walk true budget parts cur = some r → fs.Endpoint r.1 := by
    intro budget
    induction budget with
    | zero =>
      intro parts cur r hcur h
      exact fs.walkFrom_endpoint 0 (by simp) parts cur hcur h
    | succ n ih =>
      intro parts cur r hcur h
      exact fs.walkFrom_endpoint (n + 1) ih parts cur hcur h
  exact hwalk maxLinks p.parts _ r (fs.start_dir p.rooted) h

variable {name : String} (hname : UnixPath.Normal name) (cur : Place) (budget : ℕ)

include hname

/-- A final component that is not followed stands in the current directory. -/
theorem walk_last : fs.walk false budget [name] cur = some (cur ++ [name], budget) := by
  obtain ⟨hdot, hup⟩ := hname
  cases budget <;> simp only [walk, walkFrom, if_neg hdot, if_neg hup] <;>
    cases fs.node (cur ++ [name]) with
    | none => rfl
    | some x => cases x <;> rfl

theorem walk_dir (follow : Bool) (hdir : fs.node (cur ++ [name]) = some .dir) :
    fs.walk follow budget [name] cur = some (cur ++ [name], budget) := by
  obtain ⟨hdot, hup⟩ := hname
  cases budget <;> simp only [walk, walkFrom, if_neg hdot, if_neg hup, hdir]

theorem walk_missing (follow : Bool) (hfree : fs.node (cur ++ [name]) = none)
    (rest : List String) :
    fs.walk follow budget (name :: rest) cur =
      if rest = [] then some (cur ++ [name], budget) else none := by
  obtain ⟨hdot, hup⟩ := hname
  cases budget <;> simp only [walk, walkFrom, if_neg hdot, if_neg hup, hfree]

end

end FileSystem

end BuiltOnEnvoy.Foundations
