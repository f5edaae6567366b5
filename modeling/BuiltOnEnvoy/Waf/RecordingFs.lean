import BuiltOnEnvoy.Foundations.Bytes
import BuiltOnEnvoy.Foundations.GoMap

/-!
# The file system that records what a WAF build reads

A build asks the file system one question after another and goes on with the
answers. The recording file system passes the questions on and notes the answers:
a hash for the content of a file, that a file is missing or cannot be read, the
matches of a glob. As long as a file system gives the noted answers, a build on
it asks the same questions and ends the same way.
-/

namespace BuiltOnEnvoy.Coraza

open Foundations List

/-- What a read gives; of an error only its kind counts. -/
inductive ReadResult
  | content (bytes : Bytes)
  | missing
  | failed
  deriving DecidableEq

/-- A file system at one moment. A glob fails with `none`. -/
structure Root where
  readFile : String → ReadResult
  glob : String → Option (List String)
  openFile : String → ReadResult

/-- A build as the questions it asks. -/
inductive Build (W : Type)
  | done (result : Except String W)
  | readFile (name : String) (next : ReadResult → Build W)
  | glob (pattern : String) (next : Option (List String) → Build W)
  | openFile (name : String) (next : ReadResult → Build W)

/-- A question with its answer. -/
inductive Access
  | readFile (name : String) (result : ReadResult)
  | glob (pattern : String) (result : Option (List String))
  | openFile (name : String) (result : ReadResult)
  deriving DecidableEq

/-- The file system gives this answer. -/
def Access.On (root : Root) : Access → Prop
  | readFile name result => root.readFile name = result
  | glob pattern result => root.glob pattern = result
  | openFile name result => root.openFile name = result

namespace Build

variable {W : Type}

/-- The result of a build on a file system that does not change meanwhile. -/
def result (root : Root) : Build W → Except String W
  | done result => result
  | readFile name next => (next (root.readFile name)).result root
  | glob pattern next => (next (root.glob pattern)).result root
  | openFile name next => (next (root.openFile name)).result root

/-- The questions of that build with their answers, in order. -/
def accesses (root : Root) : Build W → List Access
  | done _ => []
  | readFile name next =>
    .readFile name (root.readFile name) :: (next (root.readFile name)).accesses root
  | glob pattern next =>
    .glob pattern (root.glob pattern) :: (next (root.glob pattern)).accesses root
  | openFile name next =>
    .openFile name (root.openFile name) :: (next (root.openFile name)).accesses root

/-- A file system that gives the same answers leads the build the same way. -/
theorem congr_of_on {root root₀ : Root} {b : Build W}
    (h : ∀ a ∈ b.accesses root₀, a.On root) :
    b.accesses root = b.accesses root₀ ∧ b.result root = b.result root₀ := by
  induction b with
  | done r => exact ⟨rfl, rfl⟩
  | readFile name next ih =>
    rw [accesses, forall_mem_cons] at h
    have hanswer : root.readFile name = root₀.readFile name := h.1
    obtain ⟨hacc, hres⟩ := ih _ h.2
    simp only [accesses, result, hanswer, hacc, hres, and_self]
  | glob pattern next ih =>
    rw [accesses, forall_mem_cons] at h
    have hanswer : root.glob pattern = root₀.glob pattern := h.1
    obtain ⟨hacc, hres⟩ := ih _ h.2
    simp only [accesses, result, hanswer, hacc, hres, and_self]
  | openFile name next ih =>
    rw [accesses, forall_mem_cons] at h
    have hanswer : root.openFile name = root₀.openFile name := h.1
    obtain ⟨hacc, hres⟩ := ih _ h.2
    simp only [accesses, result, hanswer, hacc, hres, and_self]

end Build

/-- A content hash, or why the file could not be read. -/
structure FileState (Digest : Type) where
  sum : Digest
  missing : Bool
  readFail : Bool
  deriving DecidableEq

structure WafInputs (Digest : Type) where
  files : GoMap String (FileState Digest)
  globs : GoMap String (List String)
  untracked : Bool

structure RecordingFs (Digest : Type) where
  root : Root
  inputs : WafInputs Digest

variable {Digest : Type} [Inhabited Digest] (sha256 : Bytes → Digest)

def newFileState : ReadResult → FileState Digest
  | .content bytes => ⟨sha256 bytes, false, false⟩
  | .missing => ⟨default, true, false⟩
  | .failed => ⟨default, false, true⟩

theorem newFileState_injective {sha256 : Bytes → Digest} (hsha : Function.Injective sha256) :
    Function.Injective (newFileState sha256) := by
  intro a b h
  cases a with
  | content x =>
    cases b with
    | content y =>
      rw [newFileState, newFileState, FileState.mk.injEq] at h
      rw [hsha h.1]
    | missing | failed => simp [newFileState] at h
  | missing | failed => cases b <;> simp [newFileState] at h ⊢

def newRecordingFs (root : Root) : RecordingFs Digest :=
  ⟨root, ⟨GoMap.empty, GoMap.empty, false⟩⟩

namespace RecordingFs

def openFile (r : RecordingFs Digest) (name : String) : ReadResult × RecordingFs Digest :=
  (r.root.openFile name, { r with inputs := { r.inputs with untracked := true } })

def readFile (r : RecordingFs Digest) (name : String) : ReadResult × RecordingFs Digest :=
  let result := r.root.readFile name
  (result, { r with
    inputs := { r.inputs with files := r.inputs.files.set name (newFileState sha256 result) } })

def glob (r : RecordingFs Digest) (pattern : String) :
    Option (List String) × RecordingFs Digest :=
  match r.root.glob pattern with
  | none => (none, { r with inputs := { r.inputs with untracked := true } })
  | some matched =>
    (some matched, { r with
      inputs := { r.inputs with globs := r.inputs.globs.set pattern matched } })

end RecordingFs

/-- The build on the recording file system. -/
def Build.record {W : Type} : Build W → RecordingFs Digest → Except String W × RecordingFs Digest
  | done result, r => (result, r)
  | readFile name next, r => (next (r.readFile sha256 name).1).record (r.readFile sha256 name).2
  | glob pattern next, r => (next (r.glob pattern).1).record (r.glob pattern).2
  | openFile name next, r => (next (r.openFile name).1).record (r.openFile name).2

/-- Reading the inputs from the root gives the same results as when the WAF was built. -/
def WafInputs.unchanged [DecidableEq Digest] (inputs : WafInputs Digest) (root : Root) : Bool :=
  if inputs.untracked then false
  else if inputs.globs.entries.all fun (pattern, matched) => root.glob pattern = some matched then
    inputs.files.entries.all fun (name, state) => newFileState sha256 (root.readFile name) = state
  else false

/-- The answer is noted, or it cannot be and that is noted. -/
def WafInputs.Covers (inputs : WafInputs Digest) : Access → Prop
  | .readFile name result => inputs.files.get? name = some (newFileState sha256 result)
  | .glob pattern (some matched) => inputs.globs.get? pattern = some matched
  | .glob _ none => inputs.untracked = true
  | .openFile _ _ => inputs.untracked = true

theorem WafInputs.on_of_unchanged [DecidableEq Digest] {sha256 : Bytes → Digest}
    (hsha : Function.Injective sha256) {inputs : WafInputs Digest} {root : Root}
    (h : inputs.unchanged sha256 root = true) {a : Access} (ha : inputs.Covers sha256 a) :
    a.On root := by
  unfold unchanged at h
  split at h
  · cases h
  · rename_i htracked
    split at h
    · rename_i hglobs
      cases a with
      | readFile name result =>
        have hmem := GoMap.get?_eq_some.mp ha
        have hsame := List.all_eq_true.mp h _ hmem
        exact newFileState_injective hsha (of_decide_eq_true hsame)
      | glob pattern result =>
        cases result with
        | none => exact absurd ha htracked
        | some matched =>
          have hsame := List.all_eq_true.mp hglobs _ (GoMap.get?_eq_some.mp ha)
          have hanswer : root.glob pattern = some matched := of_decide_eq_true hsame
          exact hanswer
      | openFile name result => exact absurd ha htracked
    · cases h

/-- A later question on the same root keeps what is covered and covers its own answer. -/
structure RecordingFs.Extends (r r' : RecordingFs Digest) : Prop where
  root : r'.root = r.root
  covers : ∀ a : Access, a.On r.root → r.inputs.Covers sha256 a → r'.inputs.Covers sha256 a

namespace RecordingFs

variable {sha256} {r : RecordingFs Digest}

theorem Extends.refl : r.Extends sha256 r :=
  ⟨rfl, fun _ _ h => h⟩

theorem Extends.trans {r₁ r₂ : RecordingFs Digest} (h : r.Extends sha256 r₁)
    (h₁ : r₁.Extends sha256 r₂) : r.Extends sha256 r₂ where
  root := h₁.root.trans h.root
  covers := by
    intro a hon ha
    exact h₁.covers a (h.root ▸ hon) (h.covers a hon ha)

/-- Marking the record as untracked covers every question whose answer is not noted. -/
theorem extends_untracked :
    r.Extends sha256 { r with inputs := { r.inputs with untracked := true } } where
  root := rfl
  covers := by
    intro a _ ha
    cases a with
    | readFile name result => exact ha
    | glob pattern result =>
      cases result with
      | none => rfl
      | some matched => exact ha
    | openFile name result => rfl

/-- An answer that is covered right after its question stays so until the end. -/
theorem Extends.covers_cons {r' : RecordingFs Digest} (h : r.Extends sha256 r') {first : Access}
    {rest : List Access} (hon : first.On r.root) (hfirst : r.inputs.Covers sha256 first)
    (hrest : ∀ a ∈ rest, r'.inputs.Covers sha256 a) :
    ∀ a ∈ first :: rest, r'.inputs.Covers sha256 a :=
  forall_mem_cons.mpr ⟨h.covers first hon hfirst, hrest⟩

theorem readFile_spec (sha256 : Bytes → Digest) (r : RecordingFs Digest) (name : String) :
    (r.readFile sha256 name).1 = r.root.readFile name ∧
      r.Extends sha256 (r.readFile sha256 name).2 ∧
      (r.readFile sha256 name).2.inputs.Covers sha256
        (.readFile name (r.root.readFile name)) := by
  have hown : (r.inputs.files.set name (newFileState sha256 (r.root.readFile name))).get? name =
      some (newFileState sha256 (r.root.readFile name)) :=
    GoMap.get?_eq_some.mpr (GoMap.mem_set_entries.mpr (.inr rfl))
  refine ⟨rfl, ⟨rfl, ?_⟩, hown⟩
  intro a hon ha
  cases a with
  | readFile other result =>
    by_cases hname : other = name
    · -- the root has not changed, so the second entry is the first one
      subst hname
      have hresult : r.root.readFile other = result := hon
      rw [← hresult]
      exact hown
    · have hmem := GoMap.get?_eq_some.mp ha
      exact GoMap.get?_eq_some.mpr (GoMap.mem_set_entries.mpr (.inl ⟨hmem, hname⟩))
  | glob pattern result => cases result <;> exact ha
  | openFile other result => exact ha

theorem glob_spec (sha256 : Bytes → Digest) (r : RecordingFs Digest) (pattern : String) :
    (r.glob pattern).1 = r.root.glob pattern ∧
      r.Extends sha256 (r.glob pattern).2 ∧
      (r.glob pattern).2.inputs.Covers sha256 (.glob pattern (r.root.glob pattern)) := by
  unfold glob
  cases hglob : r.root.glob pattern with
  | none => exact ⟨rfl, extends_untracked, rfl⟩
  | some matched =>
    have hown : (r.inputs.globs.set pattern matched).get? pattern = some matched :=
      GoMap.get?_eq_some.mpr (GoMap.mem_set_entries.mpr (.inr rfl))
    refine ⟨rfl, ⟨rfl, ?_⟩, hown⟩
    intro a hon ha
    cases a with
    | readFile name result => exact ha
    | glob other result =>
      cases result with
      | none => exact ha
      | some earlier =>
        by_cases hpattern : other = pattern
        · subst hpattern
          have hsame : some matched = some earlier := hglob.symm.trans hon
          rw [Option.some.inj hsame] at hown ⊢
          exact hown
        · have hmem := GoMap.get?_eq_some.mp ha
          exact GoMap.get?_eq_some.mpr (GoMap.mem_set_entries.mpr (.inl ⟨hmem, hpattern⟩))
    | openFile name result => exact ha

end RecordingFs

/-- A recorded build ends as it does on the root itself, and all its questions are covered. -/
theorem Build.record_spec {W : Type} (b : Build W) (r : RecordingFs Digest) :
    (b.record sha256 r).1 = b.result r.root ∧ r.Extends sha256 (b.record sha256 r).2 ∧
      ∀ a ∈ b.accesses r.root, (b.record sha256 r).2.inputs.Covers sha256 a := by
  induction b generalizing r with
  | done result => exact ⟨rfl, .refl, by simp [accesses]⟩
  | readFile name next ih =>
    obtain ⟨hanswer, hext, hown⟩ := r.readFile_spec sha256 name
    obtain ⟨hresult, hrest, hcovers⟩ := ih (r.root.readFile name) (r.readFile sha256 name).2
    rw [hext.root] at hresult hcovers
    simp only [record, result, accesses, hanswer]
    exact ⟨hresult, hext.trans hrest, hrest.covers_cons rfl hown hcovers⟩
  | glob pattern next ih =>
    obtain ⟨hanswer, hext, hown⟩ := r.glob_spec sha256 pattern
    obtain ⟨hresult, hrest, hcovers⟩ := ih (r.root.glob pattern) (r.glob pattern).2
    rw [hext.root] at hresult hcovers
    simp only [record, result, accesses, hanswer]
    exact ⟨hresult, hext.trans hrest, hrest.covers_cons (by rw [hext.root]; rfl) hown hcovers⟩
  | openFile name next ih =>
    obtain ⟨hresult, hrest, hcovers⟩ := ih (r.root.openFile name) (r.openFile name).2
    exact ⟨hresult, RecordingFs.extends_untracked.trans hrest, hrest.covers_cons rfl rfl hcovers⟩

/-- A build goes the same way on every root on which its recorded inputs are unchanged. -/
theorem Build.congr_of_unchanged [DecidableEq Digest] {W : Type} {sha256 : Bytes → Digest}
    (hsha : Function.Injective sha256) {b : Build W} {root₀ root : Root}
    (h : (b.record sha256 (newRecordingFs root₀)).2.inputs.unchanged sha256 root = true) :
    b.accesses root = b.accesses root₀ ∧ b.result root = b.result root₀ := by
  obtain ⟨-, -, hcovers⟩ := b.record_spec sha256 (newRecordingFs root₀)
  exact Build.congr_of_on fun a ha => WafInputs.on_of_unchanged hsha h (hcovers a ha)

end BuiltOnEnvoy.Coraza
