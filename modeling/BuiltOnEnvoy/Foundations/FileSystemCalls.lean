import BuiltOnEnvoy.Foundations.FileSystem

/-!
# What the file system calls change

Every call keeps the nodes that exist, up to the content of files, and changes
nothing outside the places it reports. `os.MkdirAll` either finds its
directory, or fails without a change, or creates the missing directories below
the first one that is missing.
-/

namespace BuiltOnEnvoy.Foundations

open List Option

def Node.SameKind : Node → Node → Prop
  | .dir, .dir => True
  | .file _, .file _ => True
  | .link target, .link target' => target = target'
  | _, _ => False

theorem Node.SameKind.refl (x : Node) : x.SameKind x := by
  cases x <;> simp [SameKind]

namespace FileSystem

/-- Every node is still there, files perhaps with other content. -/
structure Extends (fs fs' : FileSystem) : Prop where
  cwd : fs'.cwd = fs.cwd
  node : ∀ p x, fs.node p = some x → ∃ x', fs'.node p = some x' ∧ x.SameKind x'

namespace Extends

variable {fs fs' fs'' : FileSystem}

theorem refl (fs : FileSystem) : Extends fs fs :=
  ⟨rfl, fun _ x hx => ⟨x, hx, Node.SameKind.refl x⟩⟩

theorem dir (h : Extends fs fs') {p : Place} (hp : fs.node p = some .dir) :
    fs'.node p = some .dir := by
  obtain ⟨x, hx, hkind⟩ := h.node p _ hp
  cases x <;> simp_all [Node.SameKind]

theorem link (h : Extends fs fs') {p : Place} {target : String}
    (hp : fs.node p = some (.link target)) : fs'.node p = some (.link target) := by
  obtain ⟨x, hx, hkind⟩ := h.node p _ hp
  cases x <;> simp_all [Node.SameKind]

theorem file (h : Extends fs fs') {p : Place} {content : List UInt8}
    (hp : fs.node p = some (.file content)) : ∃ content', fs'.node p = some (.file content') := by
  obtain ⟨x, hx, hkind⟩ := h.node p _ hp
  cases x <;> simp_all [Node.SameKind]

theorem trans (h : Extends fs fs') (h' : Extends fs' fs'') : Extends fs fs'' where
  cwd := h'.cwd.trans h.cwd
  node := by
    intro p x hx
    cases x with
    | dir => exact ⟨.dir, h'.dir (h.dir hx), trivial⟩
    | link target => exact ⟨.link target, h'.link (h.link hx), rfl⟩
    | file content =>
      obtain ⟨content', hx'⟩ := h.file hx
      obtain ⟨content'', hx''⟩ := h'.file hx'
      exact ⟨.file content'', hx'', trivial⟩

theorem walkFrom (h : Extends fs fs') (follow : Bool) (budget : ℕ)
    {jump jump' : List String → Place → Option (Place × ℕ)}
    (hjump : ∀ parts cur r, jump parts cur = some r → fs.node r.1 ≠ none →
      jump' parts cur = some r)
    (parts : List String) (cur : Place) {r : Place × ℕ}
    (hwalk : fs.walkFrom follow jump budget parts cur = some r) (hr : fs.node r.1 ≠ none) :
    fs'.walkFrom follow jump' budget parts cur = some r := by
  induction parts generalizing cur with
  | nil => exact hwalk
  | cons name rest ih =>
    rw [FileSystem.walkFrom] at hwalk ⊢
    by_cases hdot : name = "."
    · rw [if_pos hdot] at hwalk ⊢
      exact ih cur hwalk
    by_cases hup : name = ".."
    · rw [if_neg hdot, if_pos hup] at hwalk ⊢
      exact ih cur.dropLast hwalk
    rw [if_neg hdot, if_neg hup] at hwalk ⊢
    cases hnode : fs.node (cur ++ [name]) with
    | none =>
      -- the lookup would end at a place that is free
      rw [hnode] at hwalk
      by_cases hrest : rest = []
      · grind
      · simp [hrest] at hwalk
    | some x =>
      cases x with
      | dir =>
        rw [hnode] at hwalk
        rw [h.dir hnode]
        exact ih _ hwalk
      | file content =>
        obtain ⟨content', hnode'⟩ := h.file hnode
        rw [hnode] at hwalk
        rw [hnode']
        exact hwalk
      | link target =>
        rw [hnode] at hwalk
        rw [h.link hnode]
        by_cases hlast : rest = [] ∧ follow = false
        · simp only [hlast, and_self, if_true] at hwalk ⊢
          exact hwalk
        · simp only [hlast, if_false] at hwalk ⊢
          exact hjump _ _ r hwalk hr

theorem walk (h : Extends fs fs') (follow : Bool) (budget : ℕ) (parts : List String) (cur : Place)
    {r : Place × ℕ} (hwalk : fs.walk follow budget parts cur = some r)
    (hr : fs.node r.1 ≠ none) : fs'.walk follow budget parts cur = some r := by
  induction budget generalizing parts cur r with
  | zero => exact h.walkFrom follow 0 (by simp) parts cur hwalk hr
  | succ n ih =>
    exact h.walkFrom follow (n + 1) (fun parts cur r' => ih parts cur) parts cur hwalk hr

theorem dirAt (h : Extends fs fs') {p : UnixPath} {r : Place × ℕ} (hp : fs.dirAt p = some r) :
    fs'.dirAt p = some r := by
  rw [dirAt_eq_some] at hp ⊢
  refine ⟨?_, h.dir hp.2⟩
  have hstart : fs'.start p.rooted = fs.start p.rooted := by simp [start, h.cwd]
  rw [lookup, hstart]
  exact h.walk true maxLinks p.parts _ hp.1 (by simp [hp.2])

end Extends

/-- The nodes that exist stay, and only reported places change. -/
structure Effect.Grows (fs : FileSystem) (e : Effect) : Prop where
  ext : Extends fs e.fs
  frame : ∀ p, p ∉ e.touched → e.fs.node p = fs.node p

section

variable {fs : FileSystem} {rooted : Bool} {front : List String} {name : String} {q : Place}
variable {budget : ℕ}

theorem grows_fail (fs : FileSystem) : fs.fail.Grows fs :=
  ⟨Extends.refl fs, fun _ _ => rfl⟩

theorem create_grows (fs : FileSystem) (p : Place) (x : Node) : (fs.create p x).Grows fs := by
  unfold create
  split_ifs with h
  · constructor
    · refine ⟨rfl, fun p' x' hx' => ⟨x', ?_, Node.SameKind.refl x'⟩⟩
      have hne : p' ≠ p := by
        rintro rfl
        simp [h.1] at hx'
      simpa [insert, Function.update_of_ne hne] using hx'
    · intro p' hp'
      rw [mem_singleton] at hp'
      simp [insert, Function.update_of_ne hp']
  · exact grows_fail fs

theorem make_grows (fs : FileSystem) (p : UnixPath) (x : Node) : (fs.make p x).Grows fs := by
  unfold make
  cases fs.lookup false p with
  | none => exact grows_fail fs
  | some r => exact fs.create_grows r.1 x

theorem symlink_grows (fs : FileSystem) (target : String) (p : UnixPath) :
    (fs.symlink target p).Grows fs := by
  unfold symlink
  split_ifs
  · exact grows_fail fs
  · exact fs.make_grows p _

theorem writeFile_grows (fs : FileSystem) (p : UnixPath) (content : List UInt8) :
    (fs.writeFile p content).Grows fs := by
  unfold writeFile
  cases fs.lookup true p with
  | none => exact grows_fail fs
  | some r =>
    simp only
    split
    · exact fs.create_grows r.1 _
    · next old h =>
      constructor
      · refine ⟨rfl, fun p' x' hx' => ?_⟩
        by_cases hp' : p' = r.1
        · subst hp'
          rw [h, Option.some.injEq] at hx'
          subst hx'
          exact ⟨.file content, by simp [overwrite], trivial⟩
        · exact ⟨x', by simpa [overwrite, Function.update_of_ne hp'] using hx',
            Node.SameKind.refl x'⟩
      · intro p' hp'
        rw [mem_singleton] at hp'
        simp [overwrite, Function.update_of_ne hp']
    · exact grows_fail fs

theorem mkdirLast_grows (fs : FileSystem) (p : UnixPath) : (fs.mkdirLast p).Grows fs := by
  have h : (fs.mkdir p).Grows fs := fs.make_grows p .dir
  simp only [mkdirLast]
  split_ifs
  · exact h
  · exact ⟨h.ext, h.frame⟩

theorem Effect.Grows.andThen {e : Effect} {next : FileSystem → Effect} (he : e.Grows fs)
    (hnext : (next e.fs).Grows e.fs) : (e.andThen next).Grows fs := by
  unfold Effect.andThen
  split_ifs
  · constructor
    · exact he.ext.trans hnext.ext
    · intro p hp
      rw [mem_append, not_or] at hp
      rw [hnext.frame p hp.2, he.frame p hp.1]
  · exact he

theorem mkdirAll_grows (fs : FileSystem) (p : UnixPath) : (fs.mkdirAll p).Grows fs := by
  have hrev : ∀ rev, (fs.mkdirAllRev p.rooted rev).Grows fs := by
    intro rev
    induction rev with
    | nil =>
      rw [mkdirAllRev]
      split
      · exact ⟨Extends.refl fs, fun _ _ => rfl⟩
      · exact fs.mkdirLast_grows _
    | cons name above ih =>
      rw [mkdirAllRev]
      split
      · exact ⟨Extends.refl fs, fun _ _ => rfl⟩
      · exact ih.andThen (mkdirLast_grows _ _)
  exact hrev _

theorem make_child (hdir : fs.dirAt ⟨rooted, front⟩ = some (q, budget))
    (hname : UnixPath.Normal name) (x : Node) :
    fs.make ⟨rooted, front ++ [name]⟩ x = fs.create (q ++ [name]) x := by
  rw [make, lookup_append _ _ _ _ _ (by simp), hdir, bind_some, walk_last fs hname]

theorem create_free {x : Node} (hdir : fs.node q = some .dir)
    (hfree : fs.node (q ++ [name]) = none) :
    (fs.create (q ++ [name]) x).ok = true ∧ (fs.create (q ++ [name]) x).touched = [q ++ [name]] ∧
      (fs.create (q ++ [name]) x).fs.node (q ++ [name]) = some x := by
  have h : fs.node (q ++ [name]) = none ∧ fs.node (q ++ [name]).dropLast = some .dir := by
    rw [dropLast_concat]
    exact ⟨hfree, hdir⟩
  rw [create, dif_pos h]
  simp [insert]

theorem create_taken {x : Node} {p : Place} (htaken : fs.node p ≠ none) :
    fs.create p x = fs.fail := by
  rw [create, dif_neg]
  exact fun h => htaken h.1

theorem create_touched (fs : FileSystem) (p : Place) (x : Node) :
    ∀ p' ∈ (fs.create p x).touched, p' = p := by
  unfold create
  split_ifs <;> simp [fail]

/-- Writing changes the place its lookup ends at, unless that is a directory. -/
theorem writeFile_touched {p : UnixPath} {content : List UInt8} {r : Place × ℕ}
    (h : fs.lookup true p = some r) :
    (fs.writeFile p content).touched = if fs.node r.1 = some .dir then [] else [r.1] := by
  unfold writeFile
  simp only [h]
  rcases fs.lookup_endpoint h with hdir | ⟨old, hfile⟩ | ⟨hfree, hparent⟩
  · split <;> simp_all [fail]
  · split <;> simp_all
  · split <;> simp_all [create]

/-- A name under which there is a directory, perhaps through a link, is taken. -/
theorem make_taken {p : UnixPath} {r : Place × ℕ} (h : fs.dirAt p = some r) (x : Node) :
    fs.make p x = fs.fail := by
  have htaken : ∀ r', fs.lookup false p = some r' → fs.node r'.1 ≠ none := by
    obtain ⟨rooted, parts⟩ := p
    intro r' hr' hfree
    rcases eq_nil_or_concat parts with rfl | ⟨front, last, rfl⟩
    · have hr : r' = (fs.start rooted, maxLinks) := (Option.some.inj hr').symm
      simp [hr, fs.start_dir rooted] at hfree
    · rw [concat_eq_append] at h hr'
      rw [dirAt_eq_some, lookup_append _ _ _ _ _ (by simp)] at h
      rw [lookup_append _ _ _ _ _ (by simp)] at hr'
      cases hfront : fs.dirAt ⟨rooted, front⟩ with
      | none => simp [hfront] at h
      | some d =>
        rw [hfront, bind_some] at h hr'
        have hd : fs.node d.1 = some .dir := ((fs.dirAt_eq_some).mp hfront).2
        have hsame : fs.walk true d.2 [last] d.1 = fs.walk false d.2 [last] d.1 := by
          by_cases hdots : last = "." ∨ last = ".."
          · rcases hdots with rfl | rfl <;> cases d.2 <;> rfl
          · have hlast : UnixPath.Normal last := not_or.mp hdots
            rw [walk_last fs hlast, Option.some.injEq] at hr'
            rw [← hr'] at hfree
            rw [walk_last fs hlast, walk_missing fs hlast _ _ _ hfree, if_pos rfl]
        rw [hsame, hr', Option.some.injEq] at h
        rw [← h.1, hfree] at h
        cases h.2
  rw [make]
  cases hlookup : fs.lookup false p with
  | none => rfl
  | some r' => exact create_taken (htaken r' hlookup)

theorem statIsDir_eq_true {p : UnixPath} {r : Place × ℕ} (h : fs.dirAt p = some r) :
    fs.statIsDir p = some true := by
  rw [dirAt_eq_some] at h
  simp [statIsDir, h.1, h.2]

theorem dirAt_of_statIsDir {p : UnixPath} (h : fs.statIsDir p = some true) :
    ∃ r, fs.dirAt p = some r := by
  unfold statIsDir at h
  cases hr : fs.lookup true p with
  | none => simp [hr] at h
  | some r =>
    refine ⟨r, (fs.dirAt_eq_some).mpr ⟨hr, ?_⟩⟩
    simpa [hr] using h

theorem mkdirAll_of_stat {p : UnixPath} {isDir : Bool} (h : fs.statIsDir p = some isDir) :
    fs.mkdirAll p = ⟨fs, [], isDir⟩ := by
  rcases hrev : p.parts.reverse with _ | ⟨name, above⟩
  · have hparts : p = ⟨p.rooted, []⟩ := by
      rw [reverse_eq_nil_iff] at hrev
      rw [← hrev]
    rw [hparts] at h
    rw [mkdirAll, hrev, mkdirAllRev, h]
  · have hparts : p = ⟨p.rooted, (name :: above).reverse⟩ := by
      rw [← hrev, reverse_reverse]
    rw [hparts] at h
    rw [mkdirAll, hrev, mkdirAllRev, h]

theorem mkdirAll_concat (h : fs.statIsDir ⟨rooted, front ++ [name]⟩ = none) :
    fs.mkdirAll ⟨rooted, front ++ [name]⟩ =
      (fs.mkdirAll ⟨rooted, front⟩).andThen (·.mkdirLast ⟨rooted, front ++ [name]⟩) := by
  have hrev : (front ++ [name]).reverse = name :: front.reverse := by simp
  have hback : (name :: front.reverse).reverse = front ++ [name] := by simp
  rw [mkdirAll, mkdirAll, hrev, mkdirAllRev, hback, h]

/-- `q ++ [name]` is the first directory that is missing on the way. -/
structure Missing (fs : FileSystem) (rooted : Bool) (front : List String) (name : String)
    (q : Place) (budget : ℕ) : Prop where
  dirAt : fs.dirAt ⟨rooted, front⟩ = some (q, budget)
  free : fs.node (q ++ [name]) = none

section

variable (h : fs.Missing rooted front name q budget) (hname : UnixPath.Normal name)
include h hname

theorem Missing.dirAt_none (rest : List String) :
    fs.dirAt ⟨rooted, front ++ name :: rest⟩ = none := by
  have hlookup : fs.lookup true ⟨rooted, front ++ name :: rest⟩ =
      if rest = [] then some (q ++ [name], budget) else none := by
    rw [lookup_append _ _ _ _ _ (by simp), h.dirAt, bind_some,
      walk_missing fs hname _ _ _ h.free]
  rw [FileSystem.dirAt, hlookup]
  split_ifs
  · simp [Option.filter, h.free]
  · rfl

theorem Missing.statIsDir_none (rest : List String) :
    fs.statIsDir ⟨rooted, front ++ name :: rest⟩ = none := by
  rw [statIsDir, lookup_append _ _ _ _ _ (by simp), h.dirAt, bind_some,
    walk_missing fs hname _ _ _ h.free]
  split_ifs
  · simp [h.free]
  · rfl

theorem mkdirLast_missing :
    (fs.mkdirLast ⟨rooted, front ++ [name]⟩).ok = true ∧
      (fs.mkdirLast ⟨rooted, front ++ [name]⟩).touched = [q ++ [name]] ∧
      (fs.mkdirLast ⟨rooted, front ++ [name]⟩).fs.dirAt ⟨rooted, front ++ [name]⟩ =
        some (q ++ [name], budget) := by
  have hq : fs.node q = some .dir := ((fs.dirAt_eq_some).mp h.dirAt).2
  obtain ⟨hok, htouched, hnode⟩ := create_free (x := .dir) hq h.free
  have heq : fs.mkdirLast ⟨rooted, front ++ [name]⟩ = fs.create (q ++ [name]) .dir := by
    simp [mkdirLast, mkdir, make_child h.dirAt hname, hok]
  rw [heq]
  refine ⟨hok, htouched, ?_⟩
  have hfront := (fs.create_grows (q ++ [name]) .dir).ext.dirAt h.dirAt
  rw [dirAt_eq_some, lookup_append _ _ _ _ _ (by simp), hfront, bind_some]
  exact ⟨walk_dir _ hname q budget true hnode, hnode⟩

end

theorem Missing.free_below (h : fs.Missing rooted front name q budget) {e : Effect}
    (he : e.Grows fs) (rest : List String) (last : String)
    (hbetween : ∀ p ∈ e.touched, p <+: q ++ name :: rest) :
    e.fs.node ((q ++ name :: rest) ++ [last]) = none := by
  rw [he.frame]
  · simpa using fs.node_below_none h.free (rest ++ [last])
  · intro hmem
    have hlen := (hbetween _ hmem).length_le
    simp at hlen

/-- What `MkdirAll` does when a directory is missing. -/
structure MakesFrom (q : Place) (name : String) (rest : List String) (e : Effect) : Prop where
  ok : e.ok = true
  first : q ++ [name] ∈ e.touched
  between : ∀ p ∈ e.touched, q ++ [name] <+: p ∧ p <+: q ++ name :: rest

theorem mkdirAll_missing (h : fs.Missing rooted front name q budget)
    (hname : UnixPath.Normal name) (rest : List String)
    (hrest : ∀ n ∈ rest, UnixPath.Normal n) :
    MakesFrom q name rest (fs.mkdirAll ⟨rooted, front ++ name :: rest⟩) ∧
      (fs.mkdirAll ⟨rooted, front ++ name :: rest⟩).fs.dirAt ⟨rooted, front ++ name :: rest⟩ =
        some (q ++ name :: rest, budget) := by
  induction rest using List.reverseRecOn with
  | nil =>
    obtain ⟨hok, htouched, hdir⟩ := mkdirLast_missing h hname
    have heq : fs.mkdirAll ⟨rooted, front ++ [name]⟩ =
        fs.mkdirLast ⟨rooted, front ++ [name]⟩ := by
      rw [mkdirAll_concat (h.statIsDir_none hname []),
        mkdirAll_of_stat (statIsDir_eq_true h.dirAt)]
      simp [Effect.andThen]
    rw [heq]
    exact ⟨⟨hok, by simp [htouched], by simp [htouched]⟩, hdir⟩
  | append_singleton rest last ih =>
    rw [forall_mem_append] at hrest
    obtain ⟨hmakes, hdir⟩ := ih hrest.1
    have hlast : UnixPath.Normal last := hrest.2 last (by simp)
    have hsplit : front ++ name :: (rest ++ [last]) = (front ++ name :: rest) ++ [last] := by simp
    have hsplitq : q ++ name :: (rest ++ [last]) = (q ++ name :: rest) ++ [last] := by simp
    have hfree := h.free_below (fs.mkdirAll_grows _) rest last fun p hp =>
      (hmakes.between p hp).2
    obtain ⟨hok', htouched', hdir'⟩ := mkdirLast_missing ⟨hdir, hfree⟩ hlast
    have hstat := h.statIsDir_none hname (rest ++ [last])
    rw [hsplit] at hstat
    rw [hsplit, hsplitq, mkdirAll_concat hstat]
    simp only [Effect.andThen, hmakes.ok, if_true]
    refine ⟨⟨hok', ?_, ?_⟩, hdir'⟩
    · exact mem_append_left _ hmakes.first
    · intro p hp
      rcases mem_append.mp hp with hold | hnew
      · obtain ⟨hlow, hhigh⟩ := hmakes.between p hold
        exact ⟨hlow, hhigh.trans ⟨[last], by simp⟩⟩
      · rw [htouched', mem_singleton] at hnew
        subst hnew
        exact ⟨⟨rest ++ [last], by simp⟩, by simp⟩

/-- With nothing missing, `MkdirAll` finds its directory or fails, and changes
nothing. -/
theorem mkdirAll_quiet {base : List String} {d : Place × ℕ}
    (hbase : fs.dirAt ⟨rooted, base⟩ = some d) (r : List String)
    (hr : ∀ n ∈ r, UnixPath.Normal n)
    (hnone : ∀ mid name rest q budget, r = mid ++ name :: rest →
      ¬fs.Missing rooted (base ++ mid) name q budget) :
    ∃ ok, fs.mkdirAll ⟨rooted, base ++ r⟩ = ⟨fs, [], ok⟩ ∧
      (ok = true ↔ ∃ d', fs.dirAt ⟨rooted, base ++ r⟩ = some d') := by
  induction r using List.reverseRecOn with
  | nil =>
    rw [append_nil]
    exact ⟨true, mkdirAll_of_stat (statIsDir_eq_true hbase), by simp [hbase]⟩
  | append_singleton r last ih =>
    rw [forall_mem_append] at hr
    obtain ⟨ok, hall, hok⟩ := ih hr.1 fun mid name rest q budget heq =>
      hnone mid name (rest ++ [last]) q budget (by simp [heq])
    have hlast : UnixPath.Normal last := hr.2 last (by simp)
    rw [← append_assoc]
    cases hstat : fs.statIsDir ⟨rooted, base ++ r ++ [last]⟩ with
    | some isDir =>
      refine ⟨isDir, mkdirAll_of_stat hstat, ?_⟩
      constructor
      · rintro rfl
        exact dirAt_of_statIsDir hstat
      · rintro ⟨d', hd'⟩
        rw [statIsDir_eq_true hd'] at hstat
        exact (Option.some.inj hstat).symm
    | none =>
      refine ⟨false, ?_, ?_⟩
      · rw [mkdirAll_concat hstat, hall]
        cases ok with
        | false => rfl
        | true =>
          -- the last name is taken, but not by a directory
          obtain ⟨⟨q, budget⟩, hdir⟩ := hok.mp rfl
          have htaken : fs.node (q ++ [last]) ≠ none := by
            intro hfree
            exact hnone r last [] q budget rfl ⟨hdir, hfree⟩
          have hnodir : fs.node (q ++ [last]) ≠ some .dir := by
            intro hlastDir
            rw [statIsDir, lookup_append _ _ _ _ _ (by simp), hdir, bind_some,
              walk_dir fs hlast q budget true hlastDir] at hstat
            simp [hlastDir] at hstat
          have hlstat : fs.lstatIsDir ⟨rooted, base ++ r ++ [last]⟩ = false := by
            rw [lstatIsDir, lookup_append _ _ _ _ _ (by simp), hdir, bind_some,
              walk_last fs hlast]
            simpa using hnodir
          have hmake : fs.mkdir ⟨rooted, base ++ r ++ [last]⟩ = fs.fail := by
            rw [mkdir, make_child hdir hlast, create_taken htaken]
          have hmkdir : fs.mkdirLast ⟨rooted, base ++ r ++ [last]⟩ = ⟨fs, [], false⟩ := by
            rw [mkdirLast, hmake]
            simp only [fail, hlstat, Bool.false_eq_true, if_false]
          simp only [Effect.andThen, if_true, hmkdir, append_nil]
      · constructor
        · intro hfalse
          cases hfalse
        · rintro ⟨d', hd'⟩
          rw [statIsDir_eq_true hd'] at hstat
          cases hstat

end

end FileSystem

end BuiltOnEnvoy.Foundations
