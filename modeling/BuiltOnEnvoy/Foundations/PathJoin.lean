import BuiltOnEnvoy.Foundations.UnixPath

/-!
# Joins of several path names

`filepath.Join` of a list of names, and when names that are joined to a
directory lead back into it. The names alone, cleaned as a relative path, climb
some levels and then descend; they stay inside exactly when they descend first
through the levels they climbed.
-/

namespace BuiltOnEnvoy.Foundations.UnixPath

open List

/-- `filepath.Join`; the join of empty names alone is the empty name, which
stands for `.` in every call. -/
def joinAll (elems : List String) : UnixPath :=
  (ofString (String.ofList
    (['/'].intercalate ((elems.filter (· ≠ "")).map String.toList)))).clean

/-- The names joined to a clean name. -/
def childAll (dir : UnixPath) (names : List String) : UnixPath :=
  { dir with parts :=
      ((names.flatMap components).foldl (cleanStep dir.rooted) dir.parts.reverse).reverse }

/-- The names as a relative path. -/
def relative (names : List String) : UnixPath :=
  clean ⟨false, names.flatMap components⟩

/-- A relative path that climbs through the last levels of a directory and comes
back into them. -/
def Reenters (dir below : UnixPath) : Prop :=
  let up := (below.parts.takeWhile (· = "..")).length
  (dir.rooted = true ∨ up ≤ dir.parts.length) ∧
    dir.parts.drop (dir.parts.length - up) <+: below.parts.dropWhile (· = "..")

theorem components_flatMap_slash (first : List Char) (rest : List (List Char)) :
    components (String.ofList (first ++ rest.flatMap ('/' :: ·))) =
      components (String.ofList first) ++
        rest.flatMap fun piece => components (String.ofList piece) := by
  induction rest generalizing first with
  | nil => simp
  | cons piece rest ih =>
    have hassoc : first ++ (piece :: rest).flatMap ('/' :: ·) =
        (first ++ '/' :: piece) ++ rest.flatMap ('/' :: ·) := by simp
    rw [hassoc, ih, components_append_slash, append_assoc]
    rfl

theorem intercalate_cons (sep first : List Char) (rest : List (List Char)) :
    sep.intercalate (first :: rest) = first ++ rest.flatMap (sep ++ ·) := by
  induction rest generalizing first with
  | nil => simp [List.intercalate]
  | cons piece rest ih =>
    have hstep : sep.intercalate (first :: piece :: rest) =
        first ++ sep ++ sep.intercalate (piece :: rest) := by
      simp [List.intercalate, List.intersperse]
    rw [hstep, ih]
    simp

theorem components_empty : components "" = [] := by decide

theorem flatMap_components_filter (names : List String) :
    (names.filter (· ≠ "")).flatMap components = names.flatMap components := by
  induction names with
  | nil => rfl
  | cons name names ih =>
    by_cases hname : name = ""
    · simpa [hname, components_empty] using ih
    · simpa [hname] using ih

theorem joinAll_cons {first : String} (hfirst : first ≠ "") (rest : List String) :
    joinAll (first :: rest) = (ofString first).clean.childAll rest := by
  have hlist : first.toList ≠ [] := by simpa using hfirst
  have hfilter : (first :: rest).filter (· ≠ "") = first :: rest.filter (· ≠ "") := by
    simp [hfirst]
  have hhead : ∀ more : List Char, (first.toList ++ more).head? = first.toList.head? := by
    intro more
    cases h : first.toList with
    | nil => exact absurd h hlist
    | cons c chars => rfl
  have hpieces : ((rest.filter (· ≠ "")).map String.toList).flatMap
      (fun piece => components (String.ofList piece)) = rest.flatMap components := by
    rw [flatMap_map, ← flatMap_components_filter rest]
    simp only [String.ofList_toList]
  rw [joinAll, hfilter, map_cons, intercalate_cons, clean_ofString]
  simp only [String.toList_ofList, hhead, singleton_append, components_flatMap_slash, hpieces,
    String.ofList_toList, foldl_append, childAll, clean_ofString, reverse_reverse]

theorem childAll_append (dir : UnixPath) (front back : List String) :
    dir.childAll (front ++ back) = (dir.childAll front).childAll back := by
  simp [childAll]

/-- The join of a directory, which may be empty, a name and further names. -/
theorem joinAll_cons_cons (dir : String) {name : String} (hname : name ≠ "")
    (rest : List String) :
    joinAll (dir :: name :: rest) = (joinAll [dir, name]).childAll rest := by
  by_cases hdir : dir = ""
  · have hskip : ∀ names, joinAll (dir :: names) = joinAll names := by
      intro names
      simp [joinAll, hdir]
    rw [hskip, hskip, joinAll_cons hname, joinAll_cons hname, ← childAll_append]
    rfl
  · rw [joinAll_cons hdir, joinAll_cons hdir, ← childAll_append]
    rfl

/-- A clean name: `..` only at the front, and nowhere when it is rooted. -/
structure IsClean (p : UnixPath) : Prop where
  cleaned : Cleaned p.parts
  rooted : p.rooted = true → ∀ name ∈ p.parts, Normal name

theorem cleanStep_rooted_normal {acc : List String} (name : String)
    (h : ∀ n ∈ acc, Normal n) : ∀ n ∈ cleanStep true acc name, Normal n := by
  unfold cleanStep
  split_ifs with hskip hup
  · exact h
  · cases acc with
    | nil => simp [cleanUp]
    | cons top above =>
      obtain ⟨htop, habove⟩ := forall_mem_cons.mp h
      simpa [cleanUp, htop.2] using habove
  · rw [forall_mem_cons]
    exact ⟨⟨fun hdot => hskip (.inr hdot), hup⟩, h⟩

theorem isClean_clean (p : UnixPath) : IsClean p.clean := by
  refine ⟨clean_cleaned p, ?_⟩
  intro hrooted
  have hfold : ∀ (rest acc : List String), (∀ n ∈ acc, Normal n) →
      ∀ n ∈ rest.foldl (cleanStep true) acc, Normal n := by
    intro rest
    induction rest with
    | nil => exact fun acc h => h
    | cons name rest ih => exact fun acc h => ih _ (cleanStep_rooted_normal name h)
  have hp : p.rooted = true := hrooted
  intro name hname
  rw [clean, mem_reverse, hp] at hname
  exact hfold p.parts [] (by simp) name hname

/-- The directory and the relative path take the same steps: both have the same
names below the level that was climbed to. -/
theorem foldl_cleanStep_climb (rooted : Bool) (top names : List String) :
    ∃ up below, names.foldl (cleanStep false) [] = below ++ List.replicate up ".." ∧
      (∀ name ∈ below, Normal name) ∧
      names.foldl (cleanStep rooted) top = below ++ (cleanUp rooted)^[up] top := by
  induction names using List.reverseRecOn with
  | nil => exact ⟨0, [], rfl, by simp, rfl⟩
  | append_singleton names name ih =>
    obtain ⟨up, below, hrelative, hnormal, hdir⟩ := ih
    simp only [foldl_append, foldl_cons, foldl_nil, hrelative, hdir]
    by_cases hskip : name = "" ∨ name = "."
    · simp only [cleanStep, hskip, if_true]
      exact ⟨up, below, rfl, hnormal, rfl⟩
    by_cases hup : name = ".."
    · have hstep : ∀ r acc, cleanStep r acc name = cleanUp r acc := by simp [cleanStep, hup]
      simp only [hstep]
      cases below with
      | nil =>
        refine ⟨up + 1, [], ?_, by simp, ?_⟩
        · cases up with
          | zero => rfl
          | succ n => simp [replicate_succ, cleanUp]
        · rw [nil_append, nil_append, Function.iterate_succ_apply']
      | cons last below =>
        obtain ⟨hlast, hbelow⟩ := forall_mem_cons.mp hnormal
        refine ⟨up, below, ?_, hbelow, ?_⟩
        · simp [cleanUp, hlast.2]
        · simp [cleanUp, hlast.2]
    · simp only [cleanStep, hskip, if_false, hup]
      refine ⟨up, name :: below, rfl, ?_, rfl⟩
      rw [forall_mem_cons]
      exact ⟨⟨fun hdot => hskip (.inr hdot), hup⟩, hnormal⟩

theorem iterate_cleanUp_normal (rooted : Bool) {top : List String} (above : List String)
    (h : ∀ name ∈ top, Normal name) {up : ℕ} (hup : up ≤ top.length) :
    (cleanUp rooted)^[up] (top ++ above) = top.drop up ++ above := by
  induction up generalizing top with
  | zero => rfl
  | succ n ih =>
    cases top with
    | nil => simp at hup
    | cons last top =>
      obtain ⟨hlast, htop⟩ := forall_mem_cons.mp h
      rw [Function.iterate_succ_apply]
      have hstep : cleanUp rooted (last :: top ++ above) = top ++ above := by
        simp [cleanUp, hlast.2]
      rw [hstep, ih htop (by simpa using hup)]
      rfl

theorem iterate_cleanUp_root (up : ℕ) : (cleanUp true)^[up] [] = [] := by
  induction up with
  | zero => rfl
  | succ n ih => rw [Function.iterate_succ_apply', ih]; rfl

theorem iterate_cleanUp_dots (up k : ℕ) :
    (cleanUp false)^[up] (List.replicate k "..") = List.replicate (k + up) ".." := by
  induction up with
  | zero => rfl
  | succ n ih =>
    rw [Function.iterate_succ_apply', ih, ← Nat.add_assoc, replicate_succ]
    cases h : List.replicate (k + n) ".." with
    | nil => rfl
    | cons last above =>
      have hlast : last = ".." := eq_of_mem_replicate (h ▸ mem_cons_self)
      simp [cleanUp, hlast]

theorem reverse_iterate_cleanUp (rooted : Bool) (front : List String) {own : List String}
    (hown : ∀ name ∈ own, Normal name) {up : ℕ} (hup : up ≤ own.length) :
    ((cleanUp rooted)^[up] (front ++ own).reverse).reverse =
      (front ++ own).take ((front ++ own).length - up) := by
  have hreverse : ∀ name ∈ own.reverse, Normal name := by simpa using hown
  rw [reverse_append, iterate_cleanUp_normal rooted _ hreverse (by simpa using hup),
    reverse_append, reverse_reverse, length_append, List.take_append,
    take_of_length_le (by omega), drop_reverse, reverse_reverse]
  congr 2
  omega

theorem reverse_iterate_cleanUp_root {own : List String} (hown : ∀ name ∈ own, Normal name)
    (up : ℕ) : ((cleanUp true)^[up] own.reverse).reverse = own.take (own.length - up) := by
  by_cases hup : up ≤ own.length
  · simpa using reverse_iterate_cleanUp true [] hown hup
  · obtain ⟨more, rfl⟩ : ∃ more, up = more + own.length := ⟨up - own.length, by omega⟩
    have hall : (cleanUp true)^[own.length] own.reverse = [] := by
      simpa using congrArg List.reverse (reverse_iterate_cleanUp true [] hown le_rfl)
    rw [Function.iterate_add_apply, hall, iterate_cleanUp_root]
    simp

theorem reverse_iterate_cleanUp_dots (k : ℕ) {own : List String}
    (hown : ∀ name ∈ own, Normal name) {up : ℕ} (hup : own.length < up) :
    ((cleanUp false)^[up] (List.replicate k ".." ++ own).reverse).reverse =
      List.replicate (k + (up - own.length)) ".." := by
  obtain ⟨more, rfl⟩ : ∃ more, up = more + own.length := ⟨up - own.length, by omega⟩
  have hall : (cleanUp false)^[own.length] (List.replicate k ".." ++ own).reverse =
      List.replicate k ".." := by
    have h := reverse_iterate_cleanUp false (List.replicate k "..") hown le_rfl
    simpa using congrArg List.reverse h
  rw [Function.iterate_add_apply, hall, iterate_cleanUp_dots, reverse_replicate]
  congr 1
  omega

/-- Below a climb through some of the directory's own names, or to the root, the
path is inside exactly when it comes back through them. -/
theorem within_take_iff {dir : UnixPath} {up : ℕ} {names : List String}
    (hnames : ∀ name ∈ names, Normal name) :
    Within dir ⟨dir.rooted, dir.parts.take (dir.parts.length - up) ++ names⟩ ↔
      dir.parts.drop (dir.parts.length - up) <+: names := by
  constructor
  · rintro ⟨extra, heq, -⟩
    have hparts : dir.parts.take (dir.parts.length - up) ++ names = dir.parts ++ extra :=
      congrArg UnixPath.parts heq
    refine ⟨extra, ?_⟩
    rw [← append_cancel_left_eq (dir.parts.take (dir.parts.length - up)), hparts,
      ← append_assoc, take_append_drop]
  · rintro ⟨extra, rfl⟩
    refine ⟨extra, ?_, fun name hname => hnames name (mem_append_right _ hname)⟩
    rw [← append_assoc, take_append_drop]

/-- Above all the names of a relative directory there is no way back into it. -/
theorem not_within_dots {dir : UnixPath} {k up : ℕ} {own names : List String}
    (hparts : dir.parts = List.replicate k ".." ++ own) (hown : ∀ name ∈ own, Normal name)
    (hup : own.length < up) :
    ¬Within dir ⟨dir.rooted, List.replicate (k + (up - own.length)) ".." ++ names⟩ := by
  rintro ⟨extra, heq, hextra⟩
  have hlists : List.replicate (k + (up - own.length)) ".." ++ names = dir.parts ++ extra :=
    congrArg UnixPath.parts heq
  rw [hparts, replicate_add, append_assoc, append_assoc,
    append_cancel_left_eq] at hlists
  have hmem : ".." ∈ own ++ extra := by
    rw [← hlists, mem_append, mem_replicate]
    exact .inl ⟨by omega, rfl⟩
  rcases mem_append.mp hmem with hmem | hmem
  · exact (hown _ hmem).2 rfl
  · exact (hextra _ hmem).2 rfl

theorem takeWhile_dots (up : ℕ) {names : List String} (h : ∀ name ∈ names, Normal name) :
    (List.replicate up ".." ++ names).takeWhile (· = "..") = List.replicate up ".." ∧
      (List.replicate up ".." ++ names).dropWhile (· = "..") = names := by
  induction up with
  | zero =>
    cases names with
    | nil => exact ⟨rfl, rfl⟩
    | cons name names =>
      have hname := (forall_mem_cons.mp h).1.2
      simp [hname]
  | succ n ih => simpa [replicate_succ] using ih

/-- Names that are joined to a clean directory stay inside it exactly when, as a
relative path, they come back through the levels they climb. -/
theorem childAll_within_iff {dir : UnixPath} (hdir : IsClean dir) (names : List String) :
    Within dir (dir.childAll names) ↔ Reenters dir (relative names) := by
  obtain ⟨up, below, hrelative, hnormal, hchild⟩ :=
    foldl_cleanStep_climb dir.rooted dir.parts.reverse (names.flatMap components)
  have hbelow : ∀ name ∈ below.reverse, Normal name := by simpa using hnormal
  have hparts : (relative names).parts = List.replicate up ".." ++ below.reverse := by
    rw [relative, clean, hrelative]
    simp
  have hreenters : Reenters dir (relative names) ↔ (dir.rooted = true ∨ up ≤ dir.parts.length) ∧
      dir.parts.drop (dir.parts.length - up) <+: below.reverse := by
    rw [Reenters, hparts, (takeWhile_dots up hbelow).1, (takeWhile_dots up hbelow).2,
      length_replicate]
  have hpath : dir.childAll names =
      ⟨dir.rooted, ((cleanUp dir.rooted)^[up] dir.parts.reverse).reverse ++ below.reverse⟩ := by
    rw [childAll, hchild, reverse_append]
  rw [hreenters, hpath]
  cases hrooted : dir.rooted with
  | true =>
    rw [reverse_iterate_cleanUp_root (hdir.rooted hrooted), ← hrooted, within_take_iff hbelow]
    simp [hrooted]
  | false =>
    obtain ⟨k, own, hown, hownNormal⟩ := hdir.cleaned
    by_cases hup : up ≤ own.length
    · have hlength : up ≤ dir.parts.length := by
        rw [hown, length_append]
        omega
      have hclimb : ((cleanUp false)^[up] dir.parts.reverse).reverse =
          dir.parts.take (dir.parts.length - up) := by
        rw [hown, reverse_iterate_cleanUp false _ hownNormal hup]
      rw [hclimb, ← hrooted, within_take_iff hbelow]
      simp [hlength]
    · have hlt : own.length < up := not_le.mp hup
      have hclimb : ((cleanUp false)^[up] dir.parts.reverse).reverse =
          List.replicate (k + (up - own.length)) ".." := by
        rw [hown, reverse_iterate_cleanUp_dots k hownNormal hlt]
      rw [hclimb, ← hrooted]
      refine iff_of_false (not_within_dots hown hownNormal hlt) ?_
      rintro ⟨hlength, hfront⟩
      -- the part that was climbed begins with a `..`, which the descent has not
      have hle : up ≤ dir.parts.length := by simpa [hrooted] using hlength
      have hmem : ".." ∈ dir.parts.drop (dir.parts.length - up) := by
        rw [hown, length_append, length_replicate] at hle ⊢
        rw [drop_append, mem_append, drop_replicate, mem_replicate]
        exact .inl ⟨by omega, rfl⟩
      exact (hbelow _ (hfront.subset hmem)).2 rfl

end BuiltOnEnvoy.Foundations.UnixPath
