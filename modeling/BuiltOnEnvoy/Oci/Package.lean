import BuiltOnEnvoy.Foundations.FileSystem

/-!
# Extracting an extension package

`ExtractPackage` over the entries its tar reader delivers. The gzip and tar
formats are left out: the input is the sequence of headers, with the bytes that
were read for each and whether reading them ended in an error. Modes are left
out with the permission bits of the file system.
-/

namespace BuiltOnEnvoy.Oci

open Foundations

inductive Typeflag
  | dir
  | reg
  | symlink
  | other
  deriving DecidableEq, Repr

structure Header where
  name : String
  typeflag : Typeflag
  linkname : String
  deriving DecidableEq, Repr

/-- What the tar reader delivers: an entry with its content, or an error in
place of the next header. -/
inductive TarItem
  | entry (header : Header) (body : List UInt8) (bodyOk : Bool)
  | broken
  deriving DecidableEq, Repr

inductive ExtractError
  | gzip
  | tar
  | pathTraversal (path : String)
  | os
  | copy
  deriving DecidableEq, Repr

/-- The relative path does not begin with the text `..`. It is never absolute,
and it begins so exactly when its first component does. -/
def isInsideDir (target dest : UnixPath) : Bool :=
  match UnixPath.rel dest target with
  | none => false
  | some parts => !(['.', '.'].isPrefixOf (parts.headD "").toList)

structure Extraction where
  fs : FileSystem
  touched : List Place
  error : Option ExtractError

/-- The calls made for one entry whose target passed the check. -/
def writeEntry (fs : FileSystem) (target : UnixPath) (header : Header) (body : List UInt8) :
    FileSystem.Effect :=
  match header.typeflag with
  | .dir => fs.mkdirAll target
  | .reg => (fs.mkdirAll target.dir).andThen (·.writeFile target body)
  | .symlink => (fs.mkdirAll target.dir).andThen (·.symlink header.linkname target)
  | .other => ⟨fs, [], true⟩

def extractEntry (dest : String) (header : Header) (body : List UInt8) (bodyOk : Bool)
    (fs : FileSystem) : Extraction :=
  let target := UnixPath.join dest header.name
  if isInsideDir target (UnixPath.ofString dest).clean then
    let e := writeEntry fs target header body
    { fs := e.fs
      touched := e.touched
      error :=
        if !e.ok then some .os
        else if header.typeflag = .reg ∧ bodyOk = false then some .copy
        else none }
  else ⟨fs, [], some (.pathTraversal header.name)⟩

/-- The loop over the entries; it stops at the first error. -/
def extractItems (dest : String) : List TarItem → FileSystem → Extraction
  | [], fs => ⟨fs, [], none⟩
  | .broken :: _, fs => ⟨fs, [], some .tar⟩
  | .entry header body bodyOk :: rest, fs =>
    match extractEntry dest header body bodyOk fs with
    | ⟨fs, touched, some error⟩ => ⟨fs, touched, some error⟩
    | ⟨fs, touched, none⟩ =>
      match extractItems dest rest fs with
      | ⟨fs, touched', error⟩ => ⟨fs, touched ++ touched', error⟩

/-- `none` is data that has no gzip header. -/
def extractPackage (data : Option (List TarItem)) (dest : String) (fs : FileSystem) : Extraction :=
  match data with
  | none => ⟨fs, [], some .gzip⟩
  | some items => extractItems dest items fs

theorem isInsideDir_spec {target dest : UnixPath} (hdest : UnixPath.Cleaned dest.parts)
    (h : isInsideDir target dest = true) :
    ∃ r, target = ⟨dest.rooted, dest.parts ++ r⟩ ∧ r.head? ≠ some ".." := by
  unfold isInsideDir UnixPath.rel at h
  by_cases heq : dest = target
  · exact ⟨[], by simp [heq], by simp⟩
  by_cases hrooted : dest.rooted ≠ target.rooted
  · simp [heq, hrooted] at h
  rw [not_not] at hrooted
  simp only [heq, hrooted, ne_eq, not_true_eq_false, if_false] at h
  generalize hparts : (if target.parts = [] ∧ (!target.rooted) = true then ["."]
    else target.parts) = parts at h
  rcases hstrip : UnixPath.stripCommon dest.parts parts with ⟨up, down⟩
  rw [hstrip] at h
  simp only at h
  split_ifs at h
  have hup : up = [] := by
    cases up with
    | nil => rfl
    | cons name up => simp [List.replicate_succ] at h
  subst hup
  have hsplit : parts = dest.parts ++ down := by
    have hnil : (UnixPath.stripCommon dest.parts parts).1 = [] := by rw [hstrip]
    have hback := UnixPath.stripCommon_fst_nil hnil
    rwa [hstrip] at hback
  have hhead : down.head? ≠ some ".." := by
    intro hup
    cases down with
    | nil => cases hup
    | cons first rest =>
      rw [List.head?_cons, Option.some.injEq] at hup
      subst hup
      simp at h
  have htarget : parts = target.parts := by
    rw [← hparts]
    split_ifs with hcase
    · -- the destination has no component `.`
      exfalso
      rw [if_pos hcase] at hparts
      rw [← hparts] at hsplit
      cases hbase : dest.parts with
      | nil =>
        apply heq
        rw [UnixPath.ext_iff]
        exact ⟨hrooted, hbase.trans hcase.1.symm⟩
      | cons first rest =>
        rw [hbase, List.cons_append, List.cons.injEq] at hsplit
        have hdot := hdest.mem (show first ∈ dest.parts by simp [hbase])
        rw [← hsplit.1] at hdot
        rcases hdot with hup | hnormal
        · exact absurd hup (by decide)
        · exact hnormal.1 rfl
    · rfl
  refine ⟨down, ?_, hhead⟩
  rw [← hsplit, htarget, hrooted]

end BuiltOnEnvoy.Oci
