import BuiltOnEnvoy.Oci.Archive
import BuiltOnEnvoy.Oci.Confinement

/-!
# Extracting what was packaged

The archive of a tree, extracted into an empty directory, gives the tree back
exactly when no name at its top begins with two dots: the guard of the
extraction takes such a name for a way out of the directory.
-/

namespace BuiltOnEnvoy.Oci

open Foundations FileSystem List

/-- The name begins with two dots. -/
def Dotted (name : String) : Bool := ['.', '.'].isPrefixOf name.toList

/-- What an entry creates. -/
def entryNode (header : Header) (body : List UInt8) : Option Node :=
  match header.typeflag with
  | .dir => some .dir
  | .reg => some (.file body)
  | .symlink => if header.linkname = "" then none else some (.link header.linkname)
  | .other => none

section

variable {fs : FileSystem} {rooted : Bool} {front : List String} {name : String} {q : Place}
variable {b : ℕ}

/-- In a directory with a free name the calls for an entry create its node. -/
theorem writeEntry_fresh (hdir : fs.dirAt ⟨rooted, front⟩ = some (q, b))
    (hname : UnixPath.Normal name) (hfree : fs.node (q ++ [name]) = none) {header : Header}
    {body : List UInt8} {x : Node} (hnode : entryNode header body = some x) :
    writeEntry fs ⟨rooted, front ++ [name]⟩ header body = fs.create (q ++ [name]) x := by
  have hq : fs.node q = some .dir := ((fs.dirAt_eq_some).mp hdir).2
  have hmissing : fs.Missing rooted front name q b := ⟨hdir, hfree⟩
  have hparent : fs.mkdirAll ⟨rooted, front⟩ = ⟨fs, [], true⟩ :=
    mkdirAll_of_stat (statIsDir_eq_true hdir)
  have hdirName : UnixPath.dir ⟨rooted, front ++ [name]⟩ = ⟨rooted, front⟩ := by
    simp [UnixPath.dir]
  have hthen : ∀ next : FileSystem → Effect,
      (Effect.mk fs [] true).andThen next = next fs := by
    intro next
    simp [Effect.andThen]
  unfold entryNode at hnode
  unfold writeEntry
  cases htype : header.typeflag with
  | dir =>
    rw [htype, Option.some.injEq] at hnode
    subst hnode
    have hok := (create_free (x := .dir) hq hfree).1
    rw [mkdirAll_concat (hmissing.statIsDir_none hname []), hparent, hthen]
    simp [mkdirLast, mkdir, make_child hdir hname, hok]
  | reg =>
    rw [htype, Option.some.injEq] at hnode
    subst hnode
    have hlookup : fs.lookup true ⟨rooted, front ++ [name]⟩ = some (q ++ [name], b) := by
      rw [lookup_append _ _ _ _ _ (by simp), hdir, Option.bind_some,
        walk_missing fs hname _ _ _ hfree, if_pos rfl]
    simp only [hdirName, hparent, hthen, writeFile, hlookup]
    split
    · rfl
    · simp_all
    · simp_all
  | symlink =>
    rw [htype] at hnode
    simp only at hnode
    split_ifs at hnode with hempty
    rw [Option.some.injEq] at hnode
    subst hnode
    simp only [hdirName, hparent, hthen, symlink, hempty, if_false]
    exact make_child hdir hname _
  | other => simp [htype] at hnode

theorem create_node (hq : fs.node q = some .dir) (hfree : fs.node (q ++ [name]) = none)
    (x : Node) : (fs.create (q ++ [name]) x).fs.node =
      Function.update fs.node (q ++ [name]) (some x) := by
  have h : fs.node (q ++ [name]) = none ∧ fs.node (q ++ [name]).dropLast = some .dir := by
    rw [dropLast_concat]
    exact ⟨hfree, hq⟩
  rw [create, dif_pos h]
  rfl

end

theorem join_slashed (dest : String) {names : List String} (hne : names ≠ [])
    (h : ∀ name ∈ names, ValidName name) :
    UnixPath.join dest (slashed names) = ⟨(UnixPath.ofString dest).clean.rooted,
      (UnixPath.ofString dest).clean.parts ++ names⟩ := by
  have hparts : ∀ name ∈ names, name ≠ "" ∧ UnixPath.Normal name :=
    fun name hname => ⟨(h name hname).1, (h name hname).2.2⟩
  by_cases hdest : dest = ""
  · have hhead : ((slashed names).toList.head? == some '/') = false := by
      cases names with
      | nil => exact absurd rfl hne
      | cons first rest =>
        obtain ⟨hfirst, hslash, -⟩ := h first mem_cons_self
        rw [slashed, String.toList_ofList, map_cons, UnixPath.intercalate_cons]
        cases hchars : first.toList with
        | nil => exact absurd (by simpa using hchars) hfirst
        | cons c chars => grind
    have hempty : (UnixPath.ofString "").clean = ⟨false, []⟩ := by decide
    rw [hdest, UnixPath.join, if_pos rfl, UnixPath.clean_ofString, hhead, components_slashed hne h,
      UnixPath.foldl_cleanStep_normal _ hparts, hempty]
    simp
  · rw [UnixPath.join_eq_child _ _ hdest, UnixPath.child, components_slashed hne h,
      UnixPath.foldl_cleanStep_normal _ hparts]
    simp

theorem isInsideDir_append (base : UnixPath) {names : List String} (hne : names ≠ []) :
    isInsideDir ⟨base.rooted, base.parts ++ names⟩ base = !Dotted (names.headD "") := by
  rw [isInsideDir, rel_append base hne]
  rfl

section

variable {dest : String} {d : Place} {b : ℕ} {fs : FileSystem}

/-- The directory of some names below the destination. -/
def Below (dest : String) (d : Place) (b : ℕ) (above : List String) (fs : FileSystem) : Prop :=
  fs.dirAt ⟨(UnixPath.ofString dest).clean.rooted,
    (UnixPath.ofString dest).clean.parts ++ above⟩ = some (d ++ above, b)

theorem Below.node {above : List String} (h : Below dest d b above fs) :
    fs.node (d ++ above) = some .dir :=
  ((fs.dirAt_eq_some).mp h).2

/-- One entry of the archive is extracted: its node is there and nothing else
has changed. -/
theorem extractEntry_fresh {above : List String} {name : String}
    (hdir : Below dest d b above fs) (hvalid : ∀ n ∈ above ++ [name], ValidName n)
    (hguard : Dotted ((above ++ [name]).headD "") = false)
    (hfree : fs.node (d ++ above ++ [name]) = none) (header : Header) (body : List UInt8)
    {x : Node} (hheader : header.name = slashed (above ++ [name]))
    (hnode : entryNode header body = some x) :
    (extractEntry dest header body true fs).error = none ∧
      (extractEntry dest header body true fs).fs.node =
        Function.update fs.node (d ++ above ++ [name]) (some x) := by
  have hname : UnixPath.Normal name := (hvalid name (by simp)).2.2
  have htarget : UnixPath.join dest header.name =
      ⟨(UnixPath.ofString dest).clean.rooted,
        (UnixPath.ofString dest).clean.parts ++ above ++ [name]⟩ := by
    rw [hheader, join_slashed dest (by simp) hvalid, append_assoc]
  have hinside : isInsideDir (UnixPath.join dest header.name) (UnixPath.ofString dest).clean =
      true := by
    rw [htarget, append_assoc, isInsideDir_append _ (by simp), hguard]
    rfl
  have hwrite := writeEntry_fresh hdir hname hfree hnode
  obtain ⟨hok, -, -⟩ := create_free (x := x) hdir.node hfree
  rw [extractEntry, if_pos hinside, htarget]
  simp only [hwrite, hok]
  exact ⟨by simp, create_node hdir.node hfree x⟩

theorem extractItems_cons {header : Header} {body : List UInt8} (rest : List TarItem)
    (h : (extractEntry dest header body true fs).error = none) :
    (extractItems dest (.entry header body true :: rest) fs).fs =
        (extractItems dest rest (extractEntry dest header body true fs).fs).fs ∧
      (extractItems dest (.entry header body true :: rest) fs).error =
        (extractItems dest rest (extractEntry dest header body true fs).fs).error := by
  rw [extractItems_entry]
  simp [h]

theorem extractItems_append {first : List TarItem} (second : List TarItem)
    (h : (extractItems dest first fs).error = none) :
    (extractItems dest (first ++ second) fs).fs =
        (extractItems dest second (extractItems dest first fs).fs).fs ∧
      (extractItems dest (first ++ second) fs).error =
        (extractItems dest second (extractItems dest first fs).fs).error := by
  induction first generalizing fs with
  | nil => exact ⟨rfl, rfl⟩
  | cons item rest ih =>
    cases item with
    | broken => cases h
    | entry header body bodyOk =>
      rw [cons_append]
      rw [extractItems_entry] at h ⊢
      simp only at h ⊢
      split_ifs at h ⊢ with hstep
      · simpa [extractItems_entry, hstep] using ih h
      · exact absurd h hstep

/-- A forest was written at a place, and nothing else was changed. -/
structure Overlays (forest : Forest) (place : Place) (fs fs' : FileSystem) : Prop where
  inside : ∀ p x, forest.node? p = some x → fs'.node (place ++ p) = some x
  outside : ∀ q, (∀ p, q = place ++ p → forest.node? p = none) → fs'.node q = fs.node q
  extended : Extends fs fs'

/-- A forest can be written below some names: its places are free, and the guard
lets its names pass. -/
structure Fits (dest : String) (d : Place) (b : ℕ) (above : List String) (forest : Forest)
    (fs : FileSystem) : Prop where
  dir : Below dest d b above fs
  names : ∀ n ∈ above, ValidName n
  free : ∀ p x, forest.node? p = some x → fs.node (d ++ above ++ p) = none
  guard : ∀ name ∈ forest.names, Dotted ((above ++ [name]).headD "") = false

/-- A file or a link at the front of a forest. -/
def IsLeaf (forest : Forest) (name : String) (x : Node) (rest : Forest) : Prop :=
  forest.names = name :: rest.names ∧
    ∀ p, forest.node? p = if p = [name] then some x else rest.node? p

theorem ne_of_notMem {rest : Forest} {name : String} (hname : name ∉ rest.names)
    {p : List String} {x : Node} (h : rest.node? p = some x) : p.head? ≠ some name := by
  intro hhead
  obtain ⟨first, below, rfl, hmem⟩ := rest.head_of_node? h
  rw [head?_cons, Option.some.injEq] at hhead
  exact hname (hhead ▸ hmem)

section

variable {forest rest : Forest} {above : List String} {name : String} {x : Node}
variable {fs₁ fs₂ : FileSystem}

theorem Fits.free_leaf (h : Fits dest d b above forest fs) (hleaf : IsLeaf forest name x rest) :
    fs.node (d ++ above ++ [name]) = none :=
  h.free [name] x (by rw [hleaf.2, if_pos rfl])

theorem Fits.rest_leaf (h : Fits dest d b above forest fs) (hleaf : IsLeaf forest name x rest)
    (hname : name ∉ rest.names) (hext : Extends fs fs₁)
    (hstep : fs₁.node = Function.update fs.node (d ++ above ++ [name]) (some x)) :
    Fits dest d b above rest fs₁ := by
  refine ⟨hext.dirAt h.dir, h.names, ?_, ?_⟩
  · intro p y hp
    have hne : p ≠ [name] := by
      rintro rfl
      exact ne_of_notMem hname hp rfl
    rw [hstep, Function.update_of_ne (by simpa using hne)]
    exact h.free p y (by rw [hleaf.2, if_neg hne, hp])
  · intro n hn
    exact h.guard n (by rw [hleaf.1]; exact mem_cons_of_mem _ hn)

theorem Overlays.leaf (hrest : Overlays rest (d ++ above) fs₁ fs₂)
    (hleaf : IsLeaf forest name x rest) (hname : name ∉ rest.names) (hext : Extends fs fs₁)
    (hstep : fs₁.node = Function.update fs.node (d ++ above ++ [name]) (some x)) :
    Overlays forest (d ++ above) fs fs₂ := by
  refine ⟨?_, ?_, hext.trans hrest.extended⟩
  · intro p y hp
    rw [hleaf.2] at hp
    split_ifs at hp with hfirst
    · -- the rest does not touch the node again
      rw [hfirst, hrest.outside, hstep, Function.update_self, hp]
      intro p' hp'
      rw [append_cancel_left_eq] at hp'
      rw [← hp']
      exact rest.node?_of_notMem hname []
    · exact hrest.inside p y hp
  · intro q hq
    have hne : q ≠ d ++ above ++ [name] := by
      intro heq
      have hnone := hq [name] heq
      rw [hleaf.2, if_pos rfl] at hnone
      cases hnone
    rw [hrest.outside, hstep, Function.update_of_ne hne]
    intro p hp
    have hnone := hq p hp
    rw [hleaf.2] at hnone
    split_ifs at hnone
    exact hnone

end

section

variable {below rest : Forest} {above : List String} {name : String} {fs₁ fs₂ fs₃ : FileSystem}

theorem Forest.node?_dir_cons (below rest : Forest) (name : String) {p : List String}
    (hp : p ≠ []) : (Forest.dir name below rest).node? (name :: p) = below.node? p := by
  simp [Forest.node?, hp]

theorem Forest.node?_dir_of_ne {below rest : Forest} {name : String} {p : List String}
    (hp : p.head? ≠ some name) : (Forest.dir name below rest).node? p = rest.node? p := by
  simp [Forest.node?, hp]

theorem Fits.free_dir (h : Fits dest d b above (.dir name below rest) fs) :
    fs.node (d ++ above ++ [name]) = none :=
  h.free [name] .dir (by simp [Forest.node?])

theorem Fits.below_dir (h : Fits dest d b above (.dir name below rest) fs)
    (hname : ValidName name) (hext : Extends fs fs₁)
    (hstep : fs₁.node = Function.update fs.node (d ++ above ++ [name]) (some .dir)) :
    Fits dest d b (above ++ [name]) below fs₁ := by
  refine ⟨?_, ?_, ?_, ?_⟩
  · have hnode : fs₁.node (d ++ above ++ [name]) = some .dir := by
      rw [hstep, Function.update_self]
    have habove := hext.dirAt h.dir
    rw [Below, ← append_assoc, dirAt_eq_some, lookup_append _ _ _ _ _ (by simp), habove,
      Option.bind_some, walk_dir _ hname.2.2 _ _ _ hnode, ← append_assoc]
    exact ⟨rfl, hnode⟩
  · intro n hn
    rcases mem_append.mp hn with hn | hn
    · exact h.names n hn
    · rwa [mem_singleton.mp hn]
  · intro p x hp
    have hne : p ≠ [] := by
      rintro rfl
      simp [Forest.node?_nil] at hp
    rw [hstep, Function.update_of_ne (by simpa using hne), ← append_assoc, append_assoc]
    exact h.free (name :: p) x (by rw [Forest.node?_dir_cons _ _ _ hne, hp])
  · intro n _
    have hguard := h.guard name mem_cons_self
    cases habove : above with
    | nil | cons first rest => simpa [habove] using hguard

variable (hname : name ∉ rest.names) (hext : Extends fs fs₁)
  (hstep : fs₁.node = Function.update fs.node (d ++ above ++ [name]) (some .dir))
  (hbelow : Overlays below (d ++ (above ++ [name])) fs₁ fs₂)
include hname hext hstep hbelow

theorem Fits.rest_dir (h : Fits dest d b above (.dir name below rest) fs) :
    Fits dest d b above rest fs₂ := by
  refine ⟨(hext.trans hbelow.extended).dirAt h.dir, h.names, ?_, ?_⟩
  · intro p x hp
    have hhead := ne_of_notMem hname hp
    have hne : p ≠ [name] := by
      rintro rfl
      exact hhead rfl
    rw [hbelow.outside, hstep, Function.update_of_ne (by simpa using hne)]
    · exact h.free p x (by rw [Forest.node?_dir_of_ne hhead, hp])
    · intro p' hp'
      have hp'' : p = name :: p' := by simpa using hp'
      exact absurd (by rw [hp'']; rfl) hhead
  · exact fun n hn => h.guard n (mem_cons_of_mem _ hn)

theorem Overlays.dir (hrest : Overlays rest (d ++ above) fs₂ fs₃) :
    Overlays (.dir name below rest) (d ++ above) fs fs₃ := by
  -- what stands below the directory is not touched by its siblings
  have hkeep : ∀ p, fs₃.node (d ++ above ++ name :: p) = fs₂.node (d ++ above ++ name :: p) := by
    intro p
    apply hrest.outside
    intro p' hp'
    rw [append_cancel_left_eq] at hp'
    rw [← hp']
    exact rest.node?_of_notMem hname p
  refine ⟨?_, ?_, hext.trans (hbelow.extended.trans hrest.extended)⟩
  · intro p x hp
    by_cases hhead : p.head? = some name
    · obtain ⟨p', rfl⟩ : ∃ p', p = name :: p' := ⟨p.tail, eq_cons_of_mem_head? hhead⟩
      rw [hkeep]
      cases p' with
      | nil =>
        have hx : x = .dir := by simpa [Forest.node?] using hp.symm
        rw [hbelow.outside, hstep, Function.update_self, hx]
        intro p' hp'
        have hnil : p' = [] := by simpa using hp'
        rw [hnil, Forest.node?_nil]
      | cons first more =>
        rw [Forest.node?_dir_cons _ _ _ (by simp)] at hp
        simpa using hbelow.inside _ _ hp
    · rw [Forest.node?_dir_of_ne hhead] at hp
      exact hrest.inside p x hp
  · intro q hq
    have hne : q ≠ d ++ above ++ [name] := by
      intro heq
      have hnone := hq [name] heq
      simp [Forest.node?] at hnone
    rw [hrest.outside, hbelow.outside, hstep, Function.update_of_ne hne]
    · intro p hp
      by_cases hnil : p = []
      · rw [hnil, Forest.node?_nil]
      · rw [← Forest.node?_dir_cons below rest name hnil]
        exact hq _ (by simpa using hp)
    · intro p hp
      by_cases hhead : p.head? = some name
      · obtain ⟨p', rfl⟩ : ∃ p', p = name :: p' := ⟨p.tail, eq_cons_of_mem_head? hhead⟩
        exact rest.node?_of_notMem hname p'
      · rw [← Forest.node?_dir_of_ne hhead]
        exact hq p hp

end

/-- What the extraction of a forest is to do. -/
def Extracts (dest : String) (d : Place) (above : List String) (forest : Forest)
    (fs : FileSystem) : Prop :=
  (extractItems dest (forest.items above) fs).error = none ∧
    Overlays forest (d ++ above) fs (extractItems dest (forest.items above) fs).fs

theorem Fits.valid_names {forest : Forest} {above : List String} {name : String}
    (h : Fits dest d b above forest fs) (hname : ValidName name) :
    ∀ n ∈ above ++ [name], ValidName n := by
  intro n hn
  rcases mem_append.mp hn with hn | hn
  · exact h.names n hn
  · rwa [mem_singleton.mp hn]

theorem extracts_leaf {forest rest : Forest} {above : List String} {name : String} {x : Node}
    {header : Header} {body : List UInt8} (h : Fits dest d b above forest fs)
    (hleaf : IsLeaf forest name x rest) (hname : ValidName name) (hnot : name ∉ rest.names)
    (hheader : header.name = slashed (above ++ [name])) (hnode : entryNode header body = some x)
    (hitems : forest.items above = .entry header body true :: rest.items above)
    (ih : ∀ fs₁, Fits dest d b above rest fs₁ → Extracts dest d above rest fs₁) :
    Extracts dest d above forest fs := by
  have hguard := h.guard name (by rw [hleaf.1]; exact mem_cons_self)
  obtain ⟨herror, hstep⟩ := extractEntry_fresh h.dir (h.valid_names hname) hguard
    (h.free_leaf hleaf) header body hheader hnode
  have hext := (extractEntry_grows dest header body true fs).1
  obtain ⟨hfs, herror'⟩ := extractItems_cons (rest.items above) herror
  obtain ⟨hdone, hover⟩ := ih _ (h.rest_leaf hleaf hnot hext hstep)
  rw [Extracts, hitems, hfs, herror']
  exact ⟨hdone, hover.leaf hleaf hnot hext hstep⟩

theorem extracts_forest {forest : Forest} (hvalid : forest.Valid) {above : List String}
    (h : Fits dest d b above forest fs) : Extracts dest d above forest fs := by
  induction forest generalizing above fs with
  | nil =>
    refine ⟨rfl, ?_, fun q _ => rfl, Extends.refl fs⟩
    intro p x hp
    cases hp
  | file name content rest ih =>
    obtain ⟨hname, hnot, hrest⟩ := hvalid
    exact extracts_leaf h ⟨rfl, fun _ => rfl⟩ hname hnot rfl rfl rfl fun _ => ih hrest
  | link name target rest ih =>
    obtain ⟨hname, hnot, htarget, hrest⟩ := hvalid
    have hnode : entryNode ⟨slashed (above ++ [name]), .symlink, target⟩ [] = some (.link target) :=
      if_neg htarget
    exact extracts_leaf h ⟨rfl, fun _ => rfl⟩ hname hnot rfl hnode rfl fun _ => ih hrest
  | dir name below rest ihBelow ihRest =>
    obtain ⟨hname, hnot, hbelow, hrest⟩ := hvalid
    obtain ⟨herror, hstep⟩ := extractEntry_fresh h.dir (h.valid_names hname)
      (h.guard name mem_cons_self) h.free_dir ⟨slashed (above ++ [name]), .dir, ""⟩ [] rfl rfl
    have hext := (extractEntry_grows dest ⟨slashed (above ++ [name]), .dir, ""⟩ [] true fs).1
    obtain ⟨hfs, herror'⟩ :=
      extractItems_cons (below.items (above ++ [name]) ++ rest.items above) herror
    -- the entries below the directory come before its siblings
    obtain ⟨hinner, hoverBelow⟩ := ihBelow hbelow (h.below_dir hname hext hstep)
    obtain ⟨hfs', herror''⟩ := extractItems_append (rest.items above) hinner
    obtain ⟨hdone, hoverRest⟩ := ihRest hrest (h.rest_dir hnot hext hstep hoverBelow)
    rw [Extracts, Forest.items, hfs, herror', hfs', herror'']
    exact ⟨hdone, Overlays.dir hnot hext hstep hoverBelow hoverRest⟩

theorem extractItems_refused {items : List TarItem} {header : Header} {body : List UInt8}
    {bodyOk : Bool} (hmem : .entry header body bodyOk ∈ items)
    (hguard : isInsideDir (UnixPath.join dest header.name) (UnixPath.ofString dest).clean = false)
    (fs : FileSystem) : (extractItems dest items fs).error ≠ none := by
  induction items generalizing fs with
  | nil => cases hmem
  | cons item rest ih =>
    cases item with
    | broken => simp [extractItems]
    | entry header' body' bodyOk' =>
      rw [extractItems_entry]
      rcases mem_cons.mp hmem with heq | hmem
      · cases heq
        simp [extractEntry, hguard]
      · by_cases hstep : (extractEntry dest header' body' bodyOk' fs).error = none
        · simpa [hstep] using ih hmem _
        · simp [hstep]

theorem exists_item_of_name {forest : Forest} {name : String} (h : name ∈ forest.names)
    (above : List String) : ∃ header body,
      header.name = slashed (above ++ [name]) ∧ .entry header body true ∈ forest.items above := by
  induction forest with
  | nil => cases h
  | file first content rest ih | link first target rest ih =>
    rcases mem_cons.mp h with rfl | h
    · exact ⟨_, _, rfl, mem_cons_self⟩
    · obtain ⟨header, body, hname, hmem⟩ := ih h
      exact ⟨header, body, hname, mem_cons_of_mem _ hmem⟩
  | dir first below rest _ ih =>
    rcases mem_cons.mp h with rfl | h
    · exact ⟨_, _, rfl, mem_cons_self⟩
    · obtain ⟨header, body, hname, hmem⟩ := ih h
      exact ⟨header, body, hname, mem_cons_of_mem _ (mem_append_right _ hmem)⟩

theorem Forest.Valid.validName {forest : Forest} (h : forest.Valid) {name : String}
    (hname : name ∈ forest.names) : ValidName name := by
  induction forest with
  | nil => cases hname
  | file first content rest ih =>
    rcases mem_cons.mp hname with rfl | hname
    · exact h.1
    · exact ih h.2.2 hname
  | link first target rest ih =>
    rcases mem_cons.mp hname with rfl | hname
    · exact h.1
    · exact ih h.2.2.2 hname
  | dir first below rest _ ih =>
    rcases mem_cons.mp hname with rfl | hname
    · exact h.1
    · exact ih h.2.2.2 hname

end

/-- The extraction succeeds, and the destination holds the tree and nothing else. -/
def Reproduces (tree : Tree) (d : Place) (x : Extraction) : Prop :=
  x.error = none ∧ ∀ p, p ≠ [] → x.fs.node (d ++ p) = tree.entries.node? p

/-- A packaged tree is extracted into an empty directory as it was exactly when
no name at its top begins with two dots. -/
theorem roundTrip_iff (dir : String) (tree : Tree) (items : List TarItem)
    (haccepted : packageDirectory dir tree = .ok items) (dest : String) (fs : FileSystem)
    (d : Place) (b : ℕ) (hdest : fs.dirAt (UnixPath.ofString dest).clean = some (d, b))
    (hempty : ∀ p, p ≠ [] → fs.node (d ++ p) = none) :
    Reproduces tree d (extractPackage (some items) dest fs) ↔
      ∀ name ∈ tree.entries.names, Dotted name = false := by
  rw [packageDirectory_eq haccepted]
  constructor
  · rintro ⟨herror, -⟩ name hname
    by_contra hdotted
    obtain ⟨header, body, hheader, hmem⟩ := exists_item_of_name hname []
    have hvalid : ∀ n ∈ [name], ValidName n := by
      simpa using tree.valid.validName hname
    refine extractItems_refused hmem ?_ fs herror
    rw [hheader, nil_append, join_slashed dest (by simp) hvalid,
      isInsideDir_append _ (by simp)]
    simpa using hdotted
  · intro hguard
    have hfits : Fits dest d b [] tree.entries fs := by
      refine ⟨?_, by simp, ?_, by simpa using hguard⟩
      · simpa [Below] using hdest
      · intro p x hp
        rw [append_nil]
        apply hempty
        rintro rfl
        simp [Forest.node?_nil] at hp
    obtain ⟨herror, hover⟩ := extracts_forest tree.valid hfits
    rw [append_nil] at hover
    refine ⟨herror, fun p hp => ?_⟩
    cases hnode : tree.entries.node? p with
    | some x => exact hover.inside p x hnode
    | none =>
      refine (hover.outside (d ++ p) ?_).trans (hempty p hp)
      intro p' hp'
      rw [← append_cancel_left hp', hnode]

/-- One file, with a name that begins with two dots. -/
def dottedTree : Tree where
  entries := .file "..data" [104, 105] .nil
  valid := by simp [Forest.Valid, Forest.names, ValidName, UnixPath.Normal]

def dottedItems : List TarItem := [.entry ⟨"..data", .reg, ""⟩ [104, 105] true]

/-- The file is packaged and the extraction into an empty directory refuses its name. -/
theorem dottedTree_refused :
    packageDirectory "/pkg" dottedTree = .ok dottedItems ∧
      twoDirs.dirAt (UnixPath.ofString "/d").clean = some (["d"], maxLinks) ∧
      (∀ p, p ≠ [] → twoDirs.node (["d"] ++ p) = none) ∧
      (extractPackage (some dottedItems) "/d" twoDirs).error = some (.pathTraversal "..data") ∧
      ¬Reproduces dottedTree ["d"] (extractPackage (some dottedItems) "/d" twoDirs) := by
  have hrefused : (extractPackage (some dottedItems) "/d" twoDirs).error =
      some (.pathTraversal "..data") := by decide +kernel
  refine ⟨by decide +kernel, by decide +kernel, fun p hp => by simp [twoDirs, hp], hrefused, ?_⟩
  rintro ⟨herror, -⟩
  rw [hrefused] at herror
  cases herror

/-- A directory with a file, and a link to that file. -/
def linkedTree : Tree where
  entries := .dir "bin" (.file "run" [104, 105] .nil) (.link "start" "bin/run" .nil)
  valid := by simp [Forest.Valid, Forest.names, ValidName, UnixPath.Normal]

def linkedItems : List TarItem :=
  [.entry ⟨"bin", .dir, ""⟩ [] true, .entry ⟨"bin/run", .reg, ""⟩ [104, 105] true,
    .entry ⟨"start", .symlink, "bin/run"⟩ [] true]

theorem linkedTree_reproduced :
    packageDirectory "pkg" linkedTree = .ok linkedItems ∧
      Reproduces linkedTree ["d"] (extractPackage (some linkedItems) "/d" twoDirs) := by
  have haccepted : packageDirectory "pkg" linkedTree = .ok linkedItems := by decide +kernel
  have hempty : ∀ p, p ≠ [] → twoDirs.node (["d"] ++ p) = none := by
    intro p hp
    simp [twoDirs, hp]
  refine ⟨haccepted, ?_⟩
  rw [roundTrip_iff "pkg" linkedTree linkedItems haccepted "/d" twoDirs ["d"] maxLinks
    (by decide +kernel) hempty]
  decide +kernel

end BuiltOnEnvoy.Oci
