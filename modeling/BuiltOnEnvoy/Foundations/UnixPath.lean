import Mathlib.Tactic

/-!
# Slash-separated path names

Path names with the lexical operations of Go's `path/filepath` on Unix. A name
is kept as its components; a trailing slash is kept as a final `.`, which asks
for a directory in the same way.
-/

namespace BuiltOnEnvoy.Foundations

open List

@[ext] structure UnixPath where
  rooted : Bool
  parts : List String
  deriving DecidableEq, Repr

namespace UnixPath

/-- The components of a path name. -/
def ofString (text : String) : UnixPath :=
  let pieces := (text.toList.splitOn '/').map String.ofList
  { rooted := text.toList.head? == some '/'
    parts := pieces.filter (· ≠ "") ++ if pieces.getLast? = some "" then ["."] else [] }

/-- The non-empty pieces of a text between slashes. -/
def components (text : String) : List String :=
  ((text.toList.splitOn '/').map String.ofList).filter (· ≠ "")

/-- A component that names an entry of a directory. -/
def Normal (name : String) : Prop := name ≠ "." ∧ name ≠ ".."

/-- A `..` after the components of a clean name, which are in reverse. -/
def cleanUp (rooted : Bool) : List String → List String
  | [] => if rooted then [] else [".."]
  | top :: above => if top = ".." then ".." :: top :: above else above

/-- Add one component to the components of a clean name. -/
def cleanStep (rooted : Bool) (acc : List String) (name : String) : List String :=
  if name = "" ∨ name = "." then acc
  else if name = ".." then cleanUp rooted acc
  else name :: acc

/-- `filepath.Clean`; the name `.` has no components. -/
def clean (p : UnixPath) : UnixPath :=
  { p with parts := (p.parts.foldl (cleanStep p.rooted) []).reverse }

/-- `filepath.Join` of two names: empty names are skipped. -/
def join (first second : String) : UnixPath :=
  if first = "" then (ofString second).clean
  else if second = "" then (ofString first).clean
  else (ofString (first ++ "/" ++ second)).clean

/-- `filepath.Join` of a clean name and a second one. -/
def child (dir : UnixPath) (name : String) : UnixPath :=
  { dir with parts :=
      ((components name).foldl (cleanStep dir.rooted) dir.parts.reverse).reverse }

/-- `filepath.Base` of a clean name. -/
def base (p : UnixPath) : String :=
  p.parts.getLast?.getD (if p.rooted then "/" else ".")

/-- `filepath.Dir` of a clean name. -/
def dir (p : UnixPath) : UnixPath :=
  { p with parts := p.parts.dropLast }

/-- The parts of two lists after their longest common prefix. -/
def stripCommon : List String → List String → List String × List String
  | b :: base, t :: targ => if b = t then stripCommon base targ else (b :: base, t :: targ)
  | base, targ => (base, targ)

/-- `filepath.Rel` of clean names, as the components of its result. -/
def rel (base targ : UnixPath) : Option (List String) :=
  if base = targ then some ["."]
  else if base.rooted ≠ targ.rooted then none
  else
    let targParts := if targ.parts = [] ∧ !targ.rooted then ["."] else targ.parts
    match stripCommon base.parts targParts with
    | (up, down) =>
      if up.head? = some ".." ∧ down ≠ [] then none
      else some (List.replicate up.length ".." ++ down)

/-- Lexically inside a directory: the directory itself or names below it. -/
def Within (dir p : UnixPath) : Prop :=
  ∃ names, p = ⟨dir.rooted, dir.parts ++ names⟩ ∧ ∀ name ∈ names, Normal name

/-- The components of a clean name: `..` only at the front. -/
def Cleaned (parts : List String) : Prop :=
  ∃ k names, parts = List.replicate k ".." ++ names ∧ ∀ name ∈ names, Normal name

theorem Cleaned.eq_replicate {front : List String} (h : Cleaned (front ++ [".."])) :
    ∃ k, front = List.replicate k ".." := by
  obtain ⟨k, names, heq, hnames⟩ := h
  rcases eq_nil_or_concat names with rfl | ⟨init, last, rfl⟩
  · rw [append_nil, append_eq_replicate_iff] at heq
    exact ⟨_, heq.2.1⟩
  · rw [concat_eq_append, ← append_assoc] at heq
    have hlast : last = ".." := by simpa using (append_inj' heq rfl).2.symm
    exact absurd hlast (hnames last (by simp)).2

theorem Cleaned.dropLast {front : List String} {last : String} (h : Cleaned (front ++ [last]))
    (hlast : last ≠ "..") : Cleaned front := by
  obtain ⟨k, names, heq, hnames⟩ := h
  rcases eq_nil_or_concat names with rfl | ⟨init, final, rfl⟩
  · have hmem : last ∈ List.replicate k ".." := by
      rw [← append_nil (List.replicate k ".."), ← heq]
      simp
    exact absurd (eq_of_mem_replicate hmem) hlast
  · refine ⟨k, init, ?_, fun n hn => hnames n (by simp [hn])⟩
    rw [concat_eq_append, ← append_assoc] at heq
    exact (append_inj' heq rfl).1

variable (rooted : Bool)

theorem cleanUp_cleaned (acc : List String) (h : Cleaned acc.reverse) :
    Cleaned (cleanUp rooted acc).reverse := by
  cases acc with
  | nil =>
    cases rooted with
    | true => exact h
    | false => exact ⟨1, [], rfl, by simp⟩
  | cons top above =>
    rw [reverse_cons] at h
    by_cases htop : top = ".."
    · subst htop
      obtain ⟨k, hk⟩ := h.eq_replicate
      refine ⟨k + 2, [], ?_, by simp⟩
      simp [cleanUp, hk, replicate_succ']
    · simpa [cleanUp, htop] using h.dropLast htop

theorem cleanStep_cleaned (acc : List String) (name : String) (h : Cleaned acc.reverse) :
    Cleaned (cleanStep rooted acc name).reverse := by
  unfold cleanStep
  split_ifs with hskip hup
  · exact h
  · exact cleanUp_cleaned rooted acc h
  · obtain ⟨k, names, heq, hnames⟩ := h
    refine ⟨k, names ++ [name], by simp [heq], ?_⟩
    intro n hn
    rcases mem_append.mp hn with hold | hnew
    · exact hnames n hold
    · rw [mem_singleton] at hnew
      subst hnew
      exact ⟨fun h => hskip (Or.inr h), hup⟩

theorem clean_cleaned (p : UnixPath) : Cleaned p.clean.parts := by
  have hfold : ∀ (rest acc : List String), Cleaned acc.reverse →
      Cleaned (rest.foldl (cleanStep p.rooted) acc).reverse := by
    intro rest
    induction rest with
    | nil => intro acc h; exact h
    | cons name rest ih => intro acc h; exact ih _ (cleanStep_cleaned p.rooted acc name h)
  exact hfold p.parts [] ⟨0, [], rfl, by simp⟩

theorem join_cleaned (first second : String) : Cleaned (join first second).parts := by
  unfold join
  split_ifs <;> exact clean_cleaned _

theorem Cleaned.mem {parts : List String} (h : Cleaned parts) {name : String}
    (hname : name ∈ parts) : name = ".." ∨ Normal name := by
  obtain ⟨k, names, rfl, hnames⟩ := h
  rcases mem_append.mp hname with hup | hnormal
  · exact Or.inl (eq_of_mem_replicate hup)
  · exact Or.inr (hnames name hnormal)

theorem Cleaned.normal_of_head {front back : List String} (h : Cleaned (front ++ back))
    (hhead : back.head? ≠ some "..") : ∀ name ∈ back, Normal name := by
  obtain ⟨k, names, heq, hnames⟩ := h
  rcases append_eq_append_iff.mp heq with ⟨mid, hrep, hback⟩ | ⟨mid, hfront, hnamesEq⟩
  · cases mid with
    | nil =>
      intro name hname
      rw [hback] at hname
      exact hnames name hname
    | cons up mid =>
      have hup : up ∈ List.replicate k ".." := by simp [hrep]
      rw [hback, eq_of_mem_replicate hup] at hhead
      exact absurd rfl hhead
  · intro name hname
    exact hnames name (by simp [hnamesEq, hname])

theorem stripCommon_fst_nil {base targ : List String} (h : (stripCommon base targ).1 = []) :
    targ = base ++ (stripCommon base targ).2 := by
  fun_induction stripCommon base targ with
  | case1 b base targ ih => rw [cons_append, ← ih h]
  | case2 b base t targ hne => cases h
  | case3 base targ hne => simp_all

theorem components_append_slash (first second : List Char) :
    components (String.ofList (first ++ '/' :: second)) =
      components (String.ofList first) ++ components (String.ofList second) := by
  simp [components, splitOn_append_cons_self]

theorem foldl_cleanStep_dots (acc parts : List String) (c : Prop) [Decidable c] :
    (parts ++ if c then ["."] else []).foldl (cleanStep rooted) acc =
      parts.foldl (cleanStep rooted) acc := by
  split_ifs <;> simp [cleanStep]

theorem clean_ofString (text : String) :
    (ofString text).clean = ⟨text.toList.head? == some '/',
      ((components text).foldl (cleanStep (text.toList.head? == some '/')) []).reverse⟩ := by
  simp only [clean, ofString, foldl_cleanStep_dots, components]

theorem foldl_cleanStep_normal {names : List String} (h : ∀ name ∈ names, name ≠ "" ∧ Normal name)
    (acc : List String) :
    names.foldl (cleanStep rooted) acc = names.reverse ++ acc := by
  induction names generalizing acc with
  | nil => rfl
  | cons name names ih =>
    obtain ⟨⟨hname, hdot, hup⟩, hrest⟩ := forall_mem_cons.mp h
    have hstep : cleanStep rooted acc name = name :: acc := by simp [cleanStep, hname, hdot, hup]
    rw [foldl_cons, hstep, ih hrest]
    simp

theorem join_eq_child (first second : String) (hfirst : first ≠ "") :
    join first second = (ofString first).clean.child second := by
  have hlist : first.toList ≠ [] := by simpa using hfirst
  by_cases hsecond : second = ""
  · subst hsecond
    simp [join, hfirst, child, clean_ofString, components]
  · have hhead : (first.toList ++ '/' :: second.toList).head? = first.toList.head? := by
      cases h : first.toList with
      | nil => exact absurd h hlist
      | cons c rest => rfl
    have htext : first ++ "/" ++ second = String.ofList (first.toList ++ '/' :: second.toList) := by
      apply String.ext
      simp
    rw [join, if_neg hfirst, if_neg hsecond, htext, clean_ofString, components_append_slash]
    simp only [String.toList_ofList, hhead, foldl_append, child, clean_ofString,
      reverse_reverse, String.ofList_toList]

theorem child_within {dir : UnixPath} {name : String}
    (h : ∀ part ∈ components name, Normal part) : Within dir (dir.child name) := by
  refine ⟨components name, ?_, h⟩
  have hnames : ∀ part ∈ components name, part ≠ "" ∧ Normal part := by
    intro part hpart
    exact ⟨by simpa using (mem_filter.mp hpart).2, h part hpart⟩
  rw [child, foldl_cleanStep_normal dir.rooted hnames]
  simp

theorem Within.trans {a b c : UnixPath} (hab : Within a b) (hbc : Within b c) : Within a c := by
  obtain ⟨names, rfl, hnames⟩ := hab
  obtain ⟨more, rfl, hmore⟩ := hbc
  refine ⟨names ++ more, by simp, ?_⟩
  intro name hname
  exact (mem_append.mp hname).elim (hnames name) (hmore name)

end UnixPath

end BuiltOnEnvoy.Foundations
