import BuiltOnEnvoy.Cli.Flags

/-!
# Two readings of the command line

The scan of `saveExtensionPositions` and the flag parser read the same
arguments. On arguments that the parser accepts, the scan finds the flags whose
value is an argument of its own and no others, each with its value as it is
written. What the maps of positions hold is a list: the scanned keys in order.
-/

namespace BuiltOnEnvoy.Cli

open Foundations List Option

/-- What the scan notes for one flag. -/
inductive Key
  | localDir (path : UnixPath)
  | extension (ref : String)
  deriving DecidableEq

def Key.path? : Key → Option UnixPath
  | localDir path => some path
  | extension _ => none

def Key.ref? : Key → Option String
  | localDir _ => none
  | extension ref => some ref

def flagKey (cwd : UnixPath) (value : String) : ExtensionFlag → Key
  | .extension => .extension value
  | .localDir => .localDir (abs cwd (UnixPath.ofString value))

/-- The flag that an argument is, for the scan. -/
def scannedFlag (arg : String) : Option ExtensionFlag :=
  if arg = "--local" then some .localDir
  else if arg = "--extension" then some .extension
  else none

theorem scannedFlag_eq_none {arg : String} (h : ∀ flag : ExtensionFlag, arg ≠ flag.arg) :
    scannedFlag arg = none := by
  have hlocal : arg ≠ "--local" := h .localDir
  have hextension : arg ≠ "--extension" := h .extension
  rw [scannedFlag, if_neg hlocal, if_neg hextension]

theorem scannedFlag_arg (flag : ExtensionFlag) : scannedFlag flag.arg = some flag := by
  cases flag <;> decide

/-- The keys in the order of the scan, unless the last argument is a flag. -/
def scanKeys (cwd : UnixPath) : List String → Option (List Key)
  | [] => some []
  | arg :: rest =>
    match scannedFlag arg with
    | none => scanKeys cwd rest
    | some flag => do
      let value ← rest.head?
      let keys ← scanKeys cwd rest
      return flagKey cwd value flag :: keys

variable {arg : String}

theorem scanKeys_cons_none (cwd : UnixPath) (rest : List String) (h : scannedFlag arg = none) :
    scanKeys cwd (arg :: rest) = scanKeys cwd rest := by
  rw [scanKeys, h]

variable {flag : ExtensionFlag}

theorem scanKeys_cons_some (cwd : UnixPath) (value : String) (rest : List String)
    (h : scannedFlag arg = some flag) :
    scanKeys cwd (arg :: value :: rest) =
      (scanKeys cwd (value :: rest)).map (flagKey cwd value flag :: ·) := by
  rw [scanKeys, h]
  cases scanKeys cwd (value :: rest) <;> rfl

namespace ExtensionPositions

def record (positions : ExtensionPositions) (index : ℕ) : Key → ExtensionPositions
  | .localDir path => { positions with localDirs := append positions.localDirs path index }
  | .extension ref => { positions with remote := append positions.remote ref index }

def recordAll (positions : ExtensionPositions) (index : ℕ) : List Key → ExtensionPositions
  | [] => positions
  | key :: keys => recordAll (positions.record index key) (index + 1) keys

end ExtensionPositions

theorem saveFrom_eq (cwd : UnixPath) (index : ℕ) (positions : ExtensionPositions)
    (args : List String) :
    saveFrom cwd index positions args =
      (scanKeys cwd args).elim (.error .indexOutOfRange)
        fun keys => .ok (positions.recordAll index keys) := by
  induction args generalizing index positions with
  | nil => rfl
  | cons arg rest ih =>
    rw [saveFrom, scanKeys, scannedFlag]
    split_ifs with hlocal hremote
    case neg => exact ih index positions
    -- the two flags: the key is the next argument, from which the scan goes on
    all_goals
      cases rest.head? with
      | none => rfl
      | some value =>
        simp only [ih]
        cases scanKeys cwd rest <;> rfl

/-- The entries of a map of positions, for the key that stands at each position. -/
structure Indexes {κ : Type} (entries : List (κ × List ℕ)) (slot : ℕ → Option κ) : Prop where
  nonempty : ∀ e ∈ entries, e.2 ≠ []
  slot_iff : ∀ p k, slot p = some k ↔ ∃ e ∈ entries, e.1 = k ∧ p ∈ e.2

namespace Indexes

variable {κ : Type} {entries : List (κ × List ℕ)} {slot : ℕ → Option κ}

theorem perm {order : List (κ × List ℕ)} (h : Indexes entries slot) (hperm : order.Perm entries) :
    Indexes order slot where
  nonempty e he := h.nonempty e (hperm.mem_iff.mp he)
  slot_iff p k := by
    rw [h.slot_iff]
    simp only [hperm.mem_iff]

theorem slot_eq (h : Indexes entries slot) {e : κ × List ℕ} (he : e ∈ entries) {p : ℕ}
    (hp : p ∈ e.2) : slot p = some e.1 :=
  (h.slot_iff p e.1).mpr ⟨e, he, rfl, hp⟩

end Indexes

theorem join_getElem?_concat {κ : Type} (slots : List (Option κ)) (last : Option κ) (p : ℕ) :
    (slots ++ [last])[p]?.join = if p = slots.length then last else slots[p]?.join := by
  rcases Nat.lt_trichotomy p slots.length with hlt | rfl | hgt
  · rw [getElem?_append_left hlt, if_neg (Nat.ne_of_lt hlt)]
  · simp
  · rw [getElem?_eq_none (by simpa using hgt), getElem?_eq_none hgt.le,
      if_neg (Nat.ne_of_gt hgt)]

theorem Indexes.append {κ : Type} [DecidableEq κ] {m : GoMap κ (List ℕ)} {slots : List (Option κ)}
    (h : Indexes m.entries fun p => slots[p]?.join) (key : κ) :
    Indexes (ExtensionPositions.append m key slots.length).entries
      fun p => (slots ++ [some key])[p]?.join where
  nonempty e he := by
    rcases GoMap.mem_set_entries.mp he with ⟨hold, -⟩ | rfl
    · exact h.nonempty e hold
    · simp
  slot_iff p k := by
    -- the old positions are below the new one
    have hold := h.slot_iff p k
    have hcurrent : p ∈ (m.get? key).getD [] ↔ slots[p]?.join = some key := by
      rw [h.slot_iff]
      constructor
      · intro hp
        cases hget : m.get? key with
        | none => simp [hget] at hp
        | some positions =>
          rw [hget] at hp
          exact ⟨(key, positions), GoMap.get?_eq_some.mp hget, rfl, hp⟩
      · rintro ⟨e, he, rfl, hp⟩
        rw [GoMap.get?_eq_some.mpr he]
        exact hp
    have hnew : (slots ++ [some key])[p]?.join = some k ↔
        slots[p]?.join = some k ∨ (p = slots.length ∧ k = key) := by
      rw [join_getElem?_concat]
      split_ifs with hp
      · simp [hp, eq_comm]
      · simp [hp]
    rw [hnew, hold]
    simp only [ExtensionPositions.append, GoMap.mem_set_entries]
    constructor
    · rintro (⟨e, he, rfl, hp⟩ | ⟨rfl, rfl⟩)
      · by_cases hkey : e.1 = key
        · refine ⟨_, .inr rfl, hkey.symm, ?_⟩
          exact mem_append_left _ (hcurrent.mpr (hkey ▸ h.slot_eq he hp))
        · exact ⟨e, .inl ⟨he, hkey⟩, rfl, hp⟩
      · exact ⟨_, .inr rfl, rfl, by simp⟩
    · rintro ⟨e, ⟨he, -⟩ | rfl, rfl, hp⟩
      · exact .inl ⟨e, he, rfl, hp⟩
      · rcases mem_append.mp hp with hp | hp
        · exact .inl (hold.mp (hcurrent.mp hp))
        · exact .inr ⟨by simpa using hp, rfl⟩

theorem Indexes.append_none {κ : Type} {entries : List (κ × List ℕ)} {slots : List (Option κ)}
    (h : Indexes entries fun p => slots[p]?.join) :
    Indexes entries fun p => (slots ++ [none])[p]?.join := by
  have hslots : (fun p : ℕ => (slots ++ [none])[p]?.join) = fun p => slots[p]?.join := by
    funext p
    rw [join_getElem?_concat]
    split_ifs with hp
    · simp [hp]
    · rfl
  rwa [hslots]

/-- The maps hold the scanned keys. -/
structure ExtensionPositions.Holds (positions : ExtensionPositions) (keys : List Key) : Prop where
  localDirs : Indexes positions.localDirs.entries fun p => (keys.map Key.path?)[p]?.join
  remote : Indexes positions.remote.entries fun p => (keys.map Key.ref?)[p]?.join

namespace ExtensionPositions

theorem empty_holds : empty.Holds [] := by
  constructor <;> constructor <;> simp [empty, GoMap.empty]

theorem Holds.record {positions : ExtensionPositions} {keys : List Key} (h : positions.Holds keys)
    (key : Key) : (positions.record keys.length key).Holds (keys ++ [key]) := by
  cases key with
  | localDir path =>
    constructor
    · simpa [ExtensionPositions.record, Key.path?] using h.localDirs.append path
    · simpa [ExtensionPositions.record, Key.ref?] using h.remote.append_none
  | extension ref =>
    constructor
    · simpa [ExtensionPositions.record, Key.path?] using h.localDirs.append_none
    · simpa [ExtensionPositions.record, Key.ref?] using h.remote.append ref

theorem Holds.recordAll {positions : ExtensionPositions} {past : List Key}
    (h : positions.Holds past) (keys : List Key) :
    (positions.recordAll past.length keys).Holds (past ++ keys) := by
  induction keys generalizing positions past with
  | nil => simpa [ExtensionPositions.recordAll] using h
  | cons key keys ih =>
    have hnext := ih (h.record key)
    simpa [ExtensionPositions.recordAll] using hnext

end ExtensionPositions

theorem saveExtensionPositions_of_scan {cwd : UnixPath} {args : List String} {keys : List Key}
    (h : scanKeys cwd args = some keys) :
    ∃ positions, saveExtensionPositions cwd args = .ok positions ∧ positions.Holds keys := by
  refine ⟨ExtensionPositions.empty.recordAll 0 keys, ?_,
    ExtensionPositions.empty_holds.recordAll keys⟩
  rw [saveExtensionPositions, saveFrom_eq, h]
  rfl

/-- The flags whose value is an argument of its own, as the scan notes them. -/
def keysApart (cwd : UnixPath) (occurrences : List Occurrence) : List Key :=
  (occurrences.filter Occurrence.apart).map fun o => flagKey cwd o.value o.flag

/-- The scan finds the flags with a value of its own. -/
theorem scanKeys_of_reads (cwd : UnixPath) {args : List String} {occurrences : List Occurrence}
    (h : Reads args occurrences) : scanKeys cwd args = some (keysApart cwd occurrences) := by
  induction h with
  | nil => rfl
  | @apart flag value elements rest _ hvalue _ ih =>
    rw [scanKeys_cons_some cwd value rest (scannedFlag_arg flag),
      scanKeys_cons_none cwd rest (scannedFlag_eq_none hvalue), ih]
    rfl
  | @other arg attached rest _ harg hattached _ ih =>
    have hnone : attached.filter Occurrence.apart = [] :=
      filter_eq_nil_iff.mpr fun o ho => by simp [hattached o ho]
    rw [scanKeys_cons_none cwd rest (scannedFlag_eq_none harg), ih, keysApart, keysApart,
      filter_append, hnone, nil_append]

namespace Parser

/-- The name of the program, at which the scan starts and which the parser does not read. -/
def programKeys (cwd : UnixPath) (program : String) (args : List String) : List Key :=
  match scannedFlag program with
  | none => []
  | some flag => (args.head?.map fun value => flagKey cwd value flag).toList

theorem scanKeys_of_accepted {P : Parser} (hP : P.Lawful) (cwd : UnixPath) (program : String)
    {args : List String} {occurrences : List Occurrence} (h : P.parse args = some occurrences) :
    scanKeys cwd (program :: args) =
      some (programKeys cwd program args ++ keysApart cwd occurrences) := by
  have hscan := scanKeys_of_reads cwd (hP.reads _ _ h)
  cases args with
  | nil =>
    rw [hP.command] at h
    cases h
  | cons arg rest =>
    rw [programKeys]
    cases hprogram : scannedFlag program with
    | none =>
      rw [scanKeys_cons_none cwd _ hprogram, hscan]
      rfl
    | some flag =>
      rw [scanKeys_cons_some cwd arg rest hprogram, hscan]
      rfl

end Parser

end BuiltOnEnvoy.Cli
