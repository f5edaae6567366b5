import BuiltOnEnvoy.Foundations.FileSystemCalls
import BuiltOnEnvoy.Oci.Package

/-!
# Where extraction writes

An extraction stays inside its destination exactly when, before each entry, the
links on the way to the entry's target lead to places inside it. The check on
names alone does not give that, since an entry may be a link that leads out and
a later entry may be written through it.
-/

namespace BuiltOnEnvoy.Oci

open Foundations FileSystem List

/-- Every place is the directory `d` or stands below it. -/
def Inside (d : Place) (touched : List Place) : Prop :=
  ∀ p ∈ touched, d <+: p

theorem inside_append {d : Place} {touched touched' : List Place} :
    Inside d (touched ++ touched') ↔ Inside d touched ∧ Inside d touched' :=
  forall_mem_append

/-- Whenever a directory on the way is missing, it is missing from a directory
inside `d`. -/
def MissingInside (fs : FileSystem) (rooted : Bool) (base r : List String) (d : Place) : Prop :=
  ∀ mid name rest q budget, r = mid ++ name :: rest →
    fs.Missing rooted (base ++ mid) name q budget → d <+: q

/-- The file a path leads to, links followed, is inside `d`, unless it is a
directory. -/
def OpensInside (fs : FileSystem) (target : UnixPath) (d : Place) : Prop :=
  ∀ r, fs.lookup true target = some r → fs.node r.1 ≠ some .dir → d <+: r.1

section

variable {fs : FileSystem} {rooted : Bool} {base : List String} {d : Place} {b : ℕ}

theorem isPrefix_of_free {q : Place} {name : String} (hd : fs.node d = some .dir)
    (hfree : fs.node (q ++ [name]) = none) (h : d <+: q ++ [name]) : d <+: q := by
  rcases prefix_concat_iff.mp h with heq | hq
  · rw [heq, hfree] at hd
    cases hd
  · exact hq

theorem inside_writeFile (fs : FileSystem) (target : UnixPath) (body : List UInt8) (d : Place) :
    Inside d (fs.writeFile target body).touched ↔ OpensInside fs target d := by
  unfold OpensInside
  cases hlookup : fs.lookup true target with
  | none => simp [writeFile, hlookup, fail, Inside]
  | some r =>
    rw [writeFile_touched hlookup]
    by_cases hdir : fs.node r.1 = some .dir <;> simp [hdir, Inside]

theorem lookup_none_of_missing {mid rest : List String} {name last : String} {q : Place}
    {budget : ℕ} (hmissing : fs.Missing rooted (base ++ mid) name q budget)
    (hname : UnixPath.Normal name) (follow : Bool) :
    fs.lookup follow ⟨rooted, base ++ (mid ++ name :: rest) ++ [last]⟩ = none := by
  rw [lookup_append _ _ _ _ _ (by simp), ← append_assoc, hmissing.dirAt_none hname rest]
  rfl

theorem missingInside_concat {dirs : List String} {last : String} :
    MissingInside fs rooted base (dirs ++ [last]) d ↔
      MissingInside fs rooted base dirs d ∧
        ∀ q budget, fs.Missing rooted (base ++ dirs) last q budget → d <+: q := by
  constructor
  · intro h
    constructor
    · intro mid name rest q budget heq
      exact h mid name (rest ++ [last]) q budget (by simp [heq])
    · intro q budget
      exact h dirs last [] q budget rfl
  · intro ⟨hdirs, hlast⟩ mid name rest q budget heq hmissing
    rcases eq_nil_or_concat rest with rfl | ⟨rest, final, rfl⟩
    · obtain ⟨rfl, hname⟩ := append_inj' heq rfl
      rw [List.cons.injEq] at hname
      rw [← hname.1] at hmissing
      exact hlast q budget hmissing
    · rw [concat_eq_append, ← cons_append, ← append_assoc] at heq
      exact hdirs mid name rest q budget (append_inj' heq rfl).1 hmissing

variable (hbase : fs.dirAt ⟨rooted, base⟩ = some (d, b))

include hbase

theorem base_dir : fs.node d = some .dir :=
  ((fs.dirAt_eq_some).mp hbase).2

theorem inside_mkdirAll (r : List String) (hr : ∀ n ∈ r, UnixPath.Normal n) :
    Inside d (fs.mkdirAll ⟨rooted, base ++ r⟩).touched ↔ MissingInside fs rooted base r d := by
  constructor
  · intro hinside mid name rest q budget heq hmissing
    subst heq
    rw [← append_assoc] at hinside
    rw [forall_mem_append, forall_mem_cons] at hr
    obtain ⟨hmakes, _⟩ := mkdirAll_missing hmissing hr.2.1 rest hr.2.2
    exact isPrefix_of_free (base_dir hbase) hmissing.free (hinside _ hmakes.first)
  · intro hmissing
    by_cases hnone : ∀ mid name rest q budget, r = mid ++ name :: rest →
        ¬fs.Missing rooted (base ++ mid) name q budget
    · obtain ⟨ok, heq, _⟩ := mkdirAll_quiet hbase r hr hnone
      simp [heq, Inside]
    · push Not at hnone
      obtain ⟨mid, name, rest, q, budget, rfl, hfirst⟩ := hnone
      have hq := hmissing mid name rest q budget rfl hfirst
      rw [← append_assoc]
      rw [forall_mem_append, forall_mem_cons] at hr
      obtain ⟨hmakes, _⟩ := mkdirAll_missing hfirst hr.2.1 rest hr.2.2
      intro p hp
      exact (hq.trans (prefix_append q [name])).trans (hmakes.between p hp).1

theorem missing_or_quiet (r : List String) (hr : ∀ n ∈ r, UnixPath.Normal n) :
    (∃ mid name rest q budget, r = mid ++ name :: rest ∧
      fs.Missing rooted (base ++ mid) name q budget) ∨
    ∃ ok, fs.mkdirAll ⟨rooted, base ++ r⟩ = ⟨fs, [], ok⟩ ∧
      (ok = true ↔ ∃ d', fs.dirAt ⟨rooted, base ++ r⟩ = some d') := by
  by_cases hnone : ∀ mid name rest q budget, r = mid ++ name :: rest →
      ¬fs.Missing rooted (base ++ mid) name q budget
  · exact Or.inr (mkdirAll_quiet hbase r hr hnone)
  · push Not at hnone
    exact Or.inl hnone

variable {dirs : List String} {last : String} (hdirs : ∀ n ∈ dirs, UnixPath.Normal n)
variable (hlast : UnixPath.Normal last)

include hdirs hlast

theorem inside_file (body : List UInt8) :
    Inside d ((fs.mkdirAll ⟨rooted, base ++ dirs⟩).andThen
        (·.writeFile ⟨rooted, base ++ dirs ++ [last]⟩ body)).touched ↔
      MissingInside fs rooted base dirs d ∧ OpensInside fs ⟨rooted, base ++ dirs ++ [last]⟩ d := by
  have hmade := inside_mkdirAll hbase dirs hdirs
  rcases missing_or_quiet hbase dirs hdirs with
    ⟨mid, name, rest, q, budget, rfl, hmissing⟩ | ⟨ok, heq, hok⟩
  · rw [forall_mem_append, forall_mem_cons] at hdirs
    obtain ⟨hmakes, hdir⟩ := mkdirAll_missing hmissing hdirs.2.1 rest hdirs.2.2
    have hfree := hmissing.free_below (fs.mkdirAll_grows _) rest last fun p hp =>
      (hmakes.between p hp).2
    have hopens : OpensInside fs ⟨rooted, base ++ (mid ++ name :: rest) ++ [last]⟩ d := by
      intro r hr
      rw [lookup_none_of_missing hmissing hdirs.2.1] at hr
      cases hr
    rw [append_assoc] at hmakes hdir hfree
    rw [Effect.andThen, if_pos hmakes.ok, inside_append, hmade, inside_writeFile]
    simp only [hopens, and_true]
    constructor
    · exact And.left
    · intro hinside
      refine ⟨hinside, ?_⟩
      intro r hr _
      rw [lookup_append _ _ _ _ _ (by simp), hdir, Option.bind_some,
        walk_missing _ hlast _ _ _ hfree, if_pos rfl, Option.some.injEq] at hr
      rw [← hr]
      exact (hinside mid name rest q budget rfl hmissing).trans ⟨name :: rest ++ [last], by simp⟩
  · rw [heq] at hmade ⊢
    have hinside : MissingInside fs rooted base dirs d := hmade.mp (by simp [Inside])
    cases ok with
    | true => simp [Effect.andThen, inside_writeFile, hinside]
    | false =>
      have hnone : fs.dirAt ⟨rooted, base ++ dirs⟩ = none := by
        cases hdir : fs.dirAt ⟨rooted, base ++ dirs⟩ with
        | none => rfl
        | some d' => exact absurd (hok.mpr ⟨d', hdir⟩) (by simp)
      have hopens : OpensInside fs ⟨rooted, base ++ dirs ++ [last]⟩ d := by
        intro r hr
        rw [lookup_append _ _ _ _ _ (by simp), hnone] at hr
        cases hr
      constructor
      · intro _
        exact ⟨hinside, hopens⟩
      · intro _
        simp [Effect.andThen, Inside]

theorem inside_make (x : Node) :
    Inside d ((fs.mkdirAll ⟨rooted, base ++ dirs⟩).andThen
        (·.make ⟨rooted, base ++ dirs ++ [last]⟩ x)).touched ↔
      MissingInside fs rooted base (dirs ++ [last]) d := by
  have hmade := inside_mkdirAll hbase dirs hdirs
  rw [missingInside_concat]
  rcases missing_or_quiet hbase dirs hdirs with
    ⟨mid, name, rest, q, budget, rfl, hmissing⟩ | ⟨ok, heq, hok⟩
  · rw [forall_mem_append, forall_mem_cons] at hdirs
    obtain ⟨hmakes, hdir⟩ := mkdirAll_missing hmissing hdirs.2.1 rest hdirs.2.2
    have hnone := hmissing.dirAt_none hdirs.2.1 rest
    rw [append_assoc] at hmakes hdir hnone
    rw [Effect.andThen, if_pos hmakes.ok, inside_append, hmade, make_child hdir hlast]
    apply and_congr_right
    intro hinside
    constructor
    · intro _ q' budget' hlastMissing
      rw [hlastMissing.dirAt] at hnone
      cases hnone
    · intro _ p hp
      rw [create_touched _ _ _ p hp]
      exact (hinside mid name rest q budget rfl hmissing).trans ⟨name :: rest ++ [last], by simp⟩
  · rw [heq] at hmade ⊢
    have hinside : MissingInside fs rooted base dirs d := hmade.mp (by simp [Inside])
    simp only [hinside, true_and]
    cases ok with
    | false =>
      constructor
      · intro _ q budget hmissing
        exact absurd (hok.mpr ⟨_, hmissing.dirAt⟩) (by simp)
      · intro _
        simp [Effect.andThen, Inside]
    | true =>
      obtain ⟨⟨q, budget⟩, hdir⟩ := hok.mp rfl
      have hq : fs.node q = some .dir := ((fs.dirAt_eq_some).mp hdir).2
      simp only [Effect.andThen, if_true, nil_append, make_child hdir hlast]
      constructor
      · intro hcreated q' budget' hmissing
        rw [hmissing.dirAt, Option.some.injEq, Prod.mk.injEq] at hdir
        rw [hdir.1] at hmissing ⊢
        apply isPrefix_of_free (base_dir hbase) hmissing.free
        apply hcreated
        rw [(create_free hq hmissing.free).2.1]
        simp
      · intro hlastInside p hp
        rw [create_touched _ _ _ p hp]
        have hfree : fs.node (q ++ [last]) = none := by
          by_contra htaken
          rw [create_taken htaken] at hp
          cases hp
        exact (hlastInside q budget ⟨hdir, hfree⟩).trans (prefix_append q [last])

end

/-- The names of a target below the destination. -/
def namesBelow (dest target : UnixPath) : List String :=
  target.parts.drop dest.parts.length

/-- Before the entry is written, the way to its target leads through places
inside `d`: where a directory is missing it is missing from one inside, and a
regular file is opened inside. -/
def EntryConfined (fs : FileSystem) (dest target : UnixPath) (header : Header) (d : Place) :
    Prop :=
  match header.typeflag with
  | .dir => MissingInside fs dest.rooted dest.parts (namesBelow dest target) d
  | .reg =>
    MissingInside fs dest.rooted dest.parts (namesBelow dest target).dropLast d ∧
      OpensInside fs target d
  | .symlink =>
    MissingInside fs dest.rooted dest.parts
      (if header.linkname = "" then (namesBelow dest target).dropLast
        else namesBelow dest target) d
  | .other => True

theorem writeEntry_grows (fs : FileSystem) (target : UnixPath) (header : Header)
    (body : List UInt8) : (writeEntry fs target header body).Grows fs := by
  unfold writeEntry
  split
  · exact fs.mkdirAll_grows _
  · exact (fs.mkdirAll_grows _).andThen (writeFile_grows _ _ _)
  · exact (fs.mkdirAll_grows _).andThen (symlink_grows _ _ _)
  · exact ⟨Extends.refl fs, fun _ _ => rfl⟩

section

variable {fs : FileSystem} {dest : UnixPath} {d : Place} {b : ℕ}
variable (hdest : fs.dirAt dest = some (d, b))

include hdest

theorem writeEntry_dest (header : Header) (body : List UInt8) :
    (writeEntry fs dest header body).touched = [] := by
  obtain ⟨r, hparent⟩ := fs.dirAt_dir hdest
  have hdir : fs.mkdirAll dest.dir = ⟨fs, [], true⟩ := mkdirAll_of_stat (statIsDir_eq_true hparent)
  have hlookup := (fs.dirAt_eq_some).mp hdest
  unfold writeEntry
  split
  · rw [mkdirAll_of_stat (statIsDir_eq_true hdest)]
  · simp [hdir, Effect.andThen, writeFile_touched hlookup.1, hlookup.2]
  · rw [hdir]
    simp only [Effect.andThen, if_true, nil_append, symlink]
    split_ifs
    · rfl
    · rw [make_taken hdest]
      rfl
  · rfl

theorem inside_writeEntry (header : Header) (body : List UInt8) (r : List String)
    (hr : ∀ n ∈ r, UnixPath.Normal n) :
    Inside d (writeEntry fs ⟨dest.rooted, dest.parts ++ r⟩ header body).touched ↔
      EntryConfined fs dest ⟨dest.rooted, dest.parts ++ r⟩ header d := by
  have hbelow : namesBelow dest ⟨dest.rooted, dest.parts ++ r⟩ = r := by simp [namesBelow]
  rcases eq_nil_or_concat r with rfl | ⟨dirs, last, rfl⟩
  · have htarget : (⟨dest.rooted, dest.parts ++ []⟩ : UnixPath) = dest := by simp
    have hnone : MissingInside fs dest.rooted dest.parts [] d := by
      intro mid name rest q budget heq
      simp at heq
    have hopens : OpensInside fs dest d := by
      intro r hr hnotDir
      have hlookup := (fs.dirAt_eq_some).mp hdest
      rw [hlookup.1, Option.some.injEq] at hr
      rw [← hr] at hnotDir
      exact absurd hlookup.2 hnotDir
    rw [htarget] at hbelow ⊢
    rw [writeEntry_dest hdest]
    unfold EntryConfined
    rw [hbelow]
    split <;> simp [Inside, hnone, hopens]
  · rw [concat_eq_append] at hr hbelow ⊢
    have hdirs : ∀ n ∈ dirs, UnixPath.Normal n := fun n hn => hr n (by simp [hn])
    have hlast : UnixPath.Normal last := hr last (by simp)
    have hdirPath : UnixPath.dir ⟨dest.rooted, dest.parts ++ (dirs ++ [last])⟩ =
        ⟨dest.rooted, dest.parts ++ dirs⟩ := by
      rw [UnixPath.dir, ← append_assoc, dropLast_concat]
    unfold writeEntry EntryConfined
    rw [hbelow, dropLast_concat, hdirPath]
    cases header.typeflag with
    | dir => exact inside_mkdirAll hdest (dirs ++ [last]) hr
    | reg =>
      rw [← append_assoc]
      exact inside_file hdest hdirs hlast body
    | symlink =>
      by_cases hempty : header.linkname = ""
      · simp only [hempty, symlink, if_true]
        have htouched : ((fs.mkdirAll ⟨dest.rooted, dest.parts ++ dirs⟩).andThen fail).touched =
            (fs.mkdirAll ⟨dest.rooted, dest.parts ++ dirs⟩).touched := by
          unfold Effect.andThen
          split_ifs <;> simp [fail]
        rw [htouched]
        exact inside_mkdirAll hdest dirs hdirs
      · simp only [hempty, symlink, if_false]
        rw [← append_assoc]
        exact inside_make hdest hdirs hlast (.link header.linkname)
    | other => simp [Inside]

end

/-- The condition on the tree before an entry: if its name passes the check,
the way to its target stays inside. -/
def StepConfined (dest : String) (d : Place) (header : Header) (fs : FileSystem) : Prop :=
  isInsideDir (UnixPath.join dest header.name) (UnixPath.ofString dest).clean = true →
    EntryConfined fs (UnixPath.ofString dest).clean (UnixPath.join dest header.name) header d

/-- The condition holds before every entry that the extraction reaches. -/
def RunConfined (dest : String) (d : Place) : List TarItem → FileSystem → Prop
  | [], _ => True
  | .broken :: _, _ => True
  | .entry header body bodyOk :: rest, fs =>
    StepConfined dest d header fs ∧
      ((extractEntry dest header body bodyOk fs).error = none →
        RunConfined dest d rest (extractEntry dest header body bodyOk fs).fs)

/-- Nothing was created, truncated or written outside `d`, and no place outside
`d` differs from before. -/
def Confined (fs : FileSystem) (d : Place) (x : Extraction) : Prop :=
  Inside d x.touched ∧ ∀ p, ¬d <+: p → x.fs.node p = fs.node p

theorem extractEntry_grows (dest : String) (header : Header) (body : List UInt8) (bodyOk : Bool)
    (fs : FileSystem) :
    Extends fs (extractEntry dest header body bodyOk fs).fs ∧
      ∀ p, p ∉ (extractEntry dest header body bodyOk fs).touched →
        (extractEntry dest header body bodyOk fs).fs.node p = fs.node p := by
  by_cases hcheck : isInsideDir (UnixPath.join dest header.name) (UnixPath.ofString dest).clean
  · simp only [extractEntry, hcheck, if_true]
    exact ⟨(writeEntry_grows fs _ header body).ext, (writeEntry_grows fs _ header body).frame⟩
  · rw [extractEntry, if_neg hcheck]
    exact ⟨Extends.refl fs, fun _ _ => rfl⟩

theorem inside_extractEntry {dest : String} {d : Place} {b : ℕ} {fs : FileSystem}
    (hdest : fs.dirAt (UnixPath.ofString dest).clean = some (d, b)) (header : Header)
    (body : List UInt8) (bodyOk : Bool) :
    Inside d (extractEntry dest header body bodyOk fs).touched ↔ StepConfined dest d header fs := by
  unfold StepConfined
  by_cases hcheck : isInsideDir (UnixPath.join dest header.name) (UnixPath.ofString dest).clean
  · simp only [extractEntry, hcheck, if_true, forall_true_left]
    obtain ⟨r, htarget, hhead⟩ := isInsideDir_spec (UnixPath.clean_cleaned _) hcheck
    have hcleaned := UnixPath.join_cleaned dest header.name
    rw [htarget] at hcleaned
    rw [htarget]
    exact inside_writeEntry hdest header body r (hcleaned.normal_of_head hhead)
  · simp [extractEntry, hcheck, Inside]

theorem extractItems_entry (dest : String) (header : Header) (body : List UInt8) (bodyOk : Bool)
    (rest : List TarItem) (fs : FileSystem) :
    extractItems dest (.entry header body bodyOk :: rest) fs =
      let step := extractEntry dest header body bodyOk fs
      if step.error = none then
        ⟨(extractItems dest rest step.fs).fs,
          step.touched ++ (extractItems dest rest step.fs).touched,
          (extractItems dest rest step.fs).error⟩
      else step := by
  rw [extractItems]
  rcases extractEntry dest header body bodyOk fs with ⟨fs', touched, _ | error⟩ <;> simp

theorem extractItems_frame (dest : String) (items : List TarItem) (fs : FileSystem) (p : Place)
    (hp : p ∉ (extractItems dest items fs).touched) :
    (extractItems dest items fs).fs.node p = fs.node p := by
  induction items generalizing fs with
  | nil => rfl
  | cons item rest ih =>
    cases item with
    | broken => rfl
    | entry header body bodyOk =>
      have hframe := (extractEntry_grows dest header body bodyOk fs).2 p
      rw [extractItems_entry] at hp ⊢
      simp only at hp ⊢
      split_ifs at hp ⊢ with herror
      · rw [mem_append, not_or] at hp
        rw [ih _ hp.2, hframe hp.1]
      · exact hframe hp

theorem inside_extractItems {dest : String} {d : Place} {b : ℕ} (items : List TarItem)
    (fs : FileSystem) (hdest : fs.dirAt (UnixPath.ofString dest).clean = some (d, b)) :
    Inside d (extractItems dest items fs).touched ↔ RunConfined dest d items fs := by
  induction items generalizing fs with
  | nil => simp [extractItems, RunConfined, Inside]
  | cons item rest ih =>
    cases item with
    | broken => simp [extractItems, RunConfined, Inside]
    | entry header body bodyOk =>
      have hdest' := (extractEntry_grows dest header body bodyOk fs).1.dirAt hdest
      rw [extractItems_entry, RunConfined, ← inside_extractEntry hdest header body bodyOk]
      by_cases herror : (extractEntry dest header body bodyOk fs).error = none
      · simp only [herror, if_true, forall_true_left, inside_append, ih _ hdest']
      · simp [herror]

/-- Extraction into an existing directory is confined to it exactly when, before
every entry it reaches, the way to the entry's target stays inside. -/
theorem extractPackage_confined_iff (items : List TarItem) (dest : String) (fs : FileSystem)
    (d : Place) (b : ℕ) (hdest : fs.dirAt (UnixPath.ofString dest).clean = some (d, b)) :
    Confined fs d (extractPackage (some items) dest fs) ↔ RunConfined dest d items fs := by
  rw [← inside_extractItems items fs hdest]
  constructor
  · exact And.left
  · intro hinside
    refine ⟨hinside, fun p hp => ?_⟩
    apply extractItems_frame
    intro hmem
    exact hp (hinside p hmem)

/-- The directories `/d` and `/etc`. -/
def twoDirs : FileSystem where
  node := fun p => if p = [] ∨ p = ["d"] ∨ p = ["etc"] then some .dir else none
  cwd := []
  root := by simp
  cwd_dir := by simp
  parent := by
    intro p name h
    have hnil : p = [] := by
      by_contra hne
      simp [List.append_eq_cons_iff, hne] at h
    simp [hnil]

def linkOut : List TarItem :=
  [.entry ⟨"x", .symlink, "../etc"⟩ [] true, .entry ⟨"x/passwd", .reg, ""⟩ [104, 105] true]

def linkIn : List TarItem :=
  [.entry ⟨"sub/", .dir, ""⟩ [] true, .entry ⟨"x", .symlink, "sub"⟩ [] true,
    .entry ⟨"x/f", .reg, ""⟩ [104, 105] true]

/-- The extraction succeeds and has written `/etc/passwd`. -/
theorem linkOut_escapes :
    (extractPackage (some linkOut) "/d" twoDirs).error = none ∧
      (extractPackage (some linkOut) "/d" twoDirs).touched = [["d", "x"], ["etc", "passwd"]] ∧
      (extractPackage (some linkOut) "/d" twoDirs).fs.node ["etc", "passwd"] =
        some (.file [104, 105]) ∧
      ¬Confined twoDirs ["d"] (extractPackage (some linkOut) "/d" twoDirs) := by
  have htouched : (extractPackage (some linkOut) "/d" twoDirs).touched =
      [["d", "x"], ["etc", "passwd"]] := by decide +kernel
  refine ⟨by decide +kernel, htouched, by decide +kernel, ?_⟩
  intro h
  have houtside : ["d"] <+: ["etc", "passwd"] := h.1 _ (by simp [htouched])
  exact absurd houtside (by decide)

/-- A package whose links stay inside meets the condition. -/
theorem linkIn_confined :
    twoDirs.dirAt (UnixPath.ofString "/d").clean = some (["d"], maxLinks) ∧
      RunConfined "/d" ["d"] linkIn twoDirs := by
  have hdest : twoDirs.dirAt (UnixPath.ofString "/d").clean = some (["d"], maxLinks) := by
    decide +kernel
  refine ⟨hdest, (extractPackage_confined_iff linkIn "/d" twoDirs ["d"] maxLinks hdest).mp ?_⟩
  have htouched : (extractPackage (some linkIn) "/d" twoDirs).touched =
      [["d", "sub"], ["d", "x"], ["d", "sub", "f"]] := by decide +kernel
  have hinside : ∀ p ∈ (extractPackage (some linkIn) "/d" twoDirs).touched, ["d"] <+: p := by
    rw [htouched]
    decide
  refine ⟨hinside, ?_⟩
  intro p hp
  apply extractItems_frame
  intro hmem
  exact hp (hinside p hmem)

end BuiltOnEnvoy.Oci
