/-
  A tree of directories and files without links, and how an operating system finds a file in it.

  The names of a path are followed one by one (`walk`): `.` and an empty name stay where they are,
  `..` goes up, and all of them need a directory to stand in. What is found is a location: the
  names from the root directory down. A walk over names without dots ends at just these names
  (`walk_plain`), and a walk that ends at a file ends with a plain name (`walk_file`).
-/
import Mathlib.Data.List.Nodup
import Algiz.Lib.Path

namespace Algiz.Lib

/-- A file, with what the system knows of it, or a directory with its entries. -/
inductive Node (F : Type*) where
  | file (f : F)
  | dir (entries : List (Name × Node F))

namespace Node

variable {F : Type*}

/-- An entry of a directory. -/
def entry (name : Name) : List (Name × Node F) → Option (Node F)
  | [] => none
  | (other, node) :: entries => if other = name then some node else entry name entries

/-- What is at a location. -/
def get : (names : List Name) → (node : Node F) → Option (Node F)
  | [], node => some node
  | _ :: _, file _ => none
  | name :: names, dir entries => (entry name entries).bind (get names)

/-- Is it a directory? -/
def isDir : Node F → Bool
  | file _ => false
  | dir _ => true

/-- The file, if it is one. -/
def file? : Node F → Option F
  | file f => some f
  | dir _ => none

/-- Names are unique in a directory and can be written in a path. -/
inductive WellFormed : Node F → Prop
  | file (f : F) : WellFormed (file f)
  | dir (entries : List (Name × Node F)) (unique : (entries.map Prod.fst).Nodup)
      (named : ∀ e ∈ entries, Plain e.1 ∧ 0 ∉ e.1 ∧ 47 ∉ e.1)
      (below : ∀ e ∈ entries, WellFormed e.2) : WellFormed (dir entries)

end Node

/-- A file system without links. -/
structure FileSystem (F : Type*) where
  /-- the root directory -/
  tree : Node F
  isDir : tree.isDir = true
  wellFormed : tree.WellFormed

namespace FileSystem

variable {F : Type*} (fs : FileSystem F)

/-- Following names from a location. -/
def walk (here : List Name) : List Name → Option (List Name)
  | [] => some here
  | name :: names =>
    match fs.tree.get here with
    | some (.dir entries) =>
      if name = [] ∨ name = dot then walk here names
      else if name = dotdot then walk here.dropLast names
      else if (Node.entry name entries).isSome then walk (here ++ [name]) names
      else none
    | _ => none

/-- Following names without asking what is there. -/
def follow (here : List Name) (names : List Name) : List Name :=
  names.foldl (fun here name =>
    if name = [] ∨ name = dot then here
    else if name = dotdot then here.dropLast
    else here ++ [name]) here

/-- The location that the system finds for a path. Relative paths are not followed. -/
def resolve (p : Path) : Option (List Name) :=
  if p.absolute then fs.walk [] (Path.cut p.names) else none

/-- What the system finds for a path. -/
def find (p : Path) : Option (Node F) := (fs.resolve p).bind fs.tree.get

/-- `is_directory` -/
def isDirectory (p : Path) : Bool := (fs.find p).any Node.isDir

/-- The file that the system finds for a path. -/
def regularFile (p : Path) : Option F := (fs.find p).bind Node.file?

/-- `is_regular_file` -/
def isRegularFile (p : Path) : Bool := (fs.regularFile p).isSome

/-- `exists` -/
def pathExists (p : Path) : Bool := (fs.find p).isSome

/-- `canonical`; `none` if nothing is found. -/
def canonical (p : Path) : Option Path := (fs.resolve p).map (Path.mk true)

end FileSystem

/-! ## One place -/

/-- Nothing but what is at these names, and the directories on the way to it. -/
def Node.chain {F : Type*} (node : Node F) : List Name → Node F
  | [] => node
  | name :: names => .dir [(name, chain node names)]

theorem Node.chain_wellFormed {F : Type*} {node : Node F} (hnode : node.WellFormed)
    {names : List Name} (h : ∀ name ∈ names, Plain name ∧ 0 ∉ name ∧ 47 ∉ name) :
    (chain node names).WellFormed := by
  induction names with
  | nil => exact hnode
  | cons name names ih =>
    refine .dir _ (List.nodup_singleton name) ?_ ?_
    · intro e he
      rw [List.mem_singleton.mp he]
      exact h name List.mem_cons_self
    · intro e he
      rw [List.mem_singleton.mp he]
      exact ih fun n hn => h n (List.mem_cons_of_mem _ hn)

theorem Node.get_chain {F : Type*} (node : Node F) (names others : List Name) :
    (chain node (names ++ others)).get names = some (chain node others) := by
  induction names with
  | nil => rfl
  | cons name names ih =>
    show (entry name [(name, chain node (names ++ others))]).bind (get names) = _
    unfold entry
    rw [if_pos rfl]
    exact ih

/-- The file system that holds this, at these names. -/
def FileSystem.ofNode {F : Type*} (node : Node F) (hnode : node.WellFormed) (names : List Name)
    (hne : names ≠ []) (h : ∀ name ∈ names, Plain name ∧ 0 ∉ name ∧ 47 ∉ name) :
    FileSystem F where
  tree := Node.chain node names
  isDir := by
    cases names with
    | nil => exact absurd rfl hne
    | cons name names => rfl
  wellFormed := Node.chain_wellFormed hnode h

/-- The file system that holds one file. -/
def FileSystem.ofFile {F : Type*} (f : F) (names : List Name) (hne : names ≠ [])
    (h : ∀ name ∈ names, Plain name ∧ 0 ∉ name ∧ 47 ∉ name) : FileSystem F :=
  ofNode (.file f) (.file f) names hne h

/-! ## Locations -/

section Locations

variable {F : Type*} {node next : Node F} {names others : List Name} {name : Name}

open Node

theorem get_append (names others : List Name) (node : Node F) :
    node.get (names ++ others) = (node.get names).bind (get others) := by
  induction names generalizing node with
  | nil => rfl
  | cons name names ih =>
    cases node with
    | file f => rfl
    | dir entries =>
      rw [List.cons_append, Node.get, Node.get]
      cases entry name entries with
      | none => rfl
      | some next => exact ih next

theorem mem_of_entry {entries : List (Name × Node F)} (h : entry name entries = some node) :
    (name, node) ∈ entries := by
  induction entries with
  | nil => exact nomatch h
  | cons e entries ih =>
    obtain ⟨other, next⟩ := e
    unfold entry at h
    split at h
    · rename_i hname
      obtain rfl := Option.some.inj h
      subst hname
      exact List.mem_cons_self
    · exact List.mem_cons_of_mem _ (ih h)

theorem entry_of_mem {entries : List (Name × Node F)} (h : (entries.map Prod.fst).Nodup)
    (hmem : (name, node) ∈ entries) : entry name entries = some node := by
  induction entries with
  | nil => exact absurd hmem List.not_mem_nil
  | cons e entries ih =>
    obtain ⟨other, next⟩ := e
    rw [List.map_cons, List.nodup_cons] at h
    unfold entry
    rcases List.mem_cons.mp hmem with heq | hmem
    · obtain ⟨rfl, rfl⟩ := Prod.mk.inj heq
      exact if_pos rfl
    · rw [if_neg]
      · exact ih h.2 hmem
      · rintro rfl
        exact h.1 (List.mem_map.mpr ⟨_, hmem, rfl⟩)

/-- Whatever is at a longer location, there is a directory on the way. -/
theorem dir_of_get_append (h : node.get (names ++ [name]) = some next) :
    ∃ entries, node.get names = some (dir entries) ∧ entry name entries = some next := by
  rw [get_append] at h
  obtain ⟨on, hon, hnext⟩ := Option.bind_eq_some_iff.mp h
  cases on with
  | file f => exact nomatch hnext
  | dir entries =>
    obtain ⟨found, hfound, hlast⟩ := Option.bind_eq_some_iff.mp hnext
    obtain rfl := Option.some.inj hlast
    exact ⟨entries, hon, hfound⟩

/-- The names at a location can be written in a path. -/
theorem Node.WellFormed.get (h : node.WellFormed) {next : Node F}
    (hget : node.get names = some next) :
    next.WellFormed ∧ ∀ name ∈ names, Plain name ∧ 0 ∉ name ∧ 47 ∉ name := by
  induction names generalizing node with
  | nil =>
    obtain rfl := Option.some.inj hget
    exact ⟨h, fun name hname => absurd hname List.not_mem_nil⟩
  | cons name names ih =>
    cases h with
    | file f => exact nomatch hget
    | dir entries unique named below =>
      obtain ⟨found, hfound, hrest⟩ := Option.bind_eq_some_iff.mp hget
      have hmem := mem_of_entry hfound
      obtain ⟨hnext, hnames⟩ := ih (below _ hmem) hrest
      refine ⟨hnext, fun other hother => ?_⟩
      rcases List.mem_cons.mp hother with rfl | hother
      · exact named _ hmem
      · exact hnames other hother

end Locations

/-! ## Walking -/

section Walking

variable {F : Type*} {fs : FileSystem F} {here names others location : List Name} {name : Name}

open Node

/-- Is there a directory at the location? -/
def FileSystem.DirAt (fs : FileSystem F) (location : List Name) : Prop :=
  ∃ entries, fs.tree.get location = some (dir entries)

theorem dirAt_root (fs : FileSystem F) : fs.DirAt [] := by
  have hdir := fs.isDir
  unfold FileSystem.DirAt
  cases htree : fs.tree with
  | file f =>
    rw [htree] at hdir
    exact nomatch hdir
  | dir entries => exact ⟨entries, rfl⟩

theorem FileSystem.DirAt.parent (h : fs.DirAt here) : fs.DirAt here.dropLast := by
  rcases List.eq_nil_or_concat' here with rfl | ⟨front, last, rfl⟩
  · exact h
  · obtain ⟨entries, hget⟩ := h
    obtain ⟨above, habove, -⟩ := dir_of_get_append hget
    rw [List.dropLast_concat]
    exact ⟨above, habove⟩

theorem walk_append (here names others : List Name) :
    fs.walk here (names ++ others) =
      (fs.walk here names).bind fun there => fs.walk there others := by
  induction names generalizing here with
  | nil => rfl
  | cons name names ih =>
    rw [List.cons_append, FileSystem.walk, FileSystem.walk]
    split
    · split
      · exact ih here
      · split
        · exact ih here.dropLast
        · split
          · exact ih (here ++ [name])
          · rfl
    · rfl

/-- One step of a walk, from a directory. -/
theorem walk_singleton (h : fs.walk here [name] = some location) :
    fs.DirAt here ∧ (((name = [] ∨ name = dot) ∧ location = here) ∨
      (name = dotdot ∧ location = here.dropLast) ∨
      (Plain name ∧ location = here ++ [name] ∧ (fs.tree.get location).isSome = true)) := by
  unfold FileSystem.walk at h
  split at h
  · rename_i entries hget
    refine ⟨⟨entries, hget⟩, ?_⟩
    split at h
    · rename_i hdot
      exact .inl ⟨hdot, (Option.some.inj h).symm⟩
    · rename_i hdot
      obtain ⟨hne, hndot⟩ := not_or.mp hdot
      split at h
      · rename_i hdots
        exact .inr (.inl ⟨hdots, (Option.some.inj h).symm⟩)
      · rename_i hdots
        split at h
        · rename_i hentry
          obtain rfl := Option.some.inj h
          refine .inr (.inr ⟨⟨hne, hndot, hdots⟩, rfl, ?_⟩)
          obtain ⟨next, hnext⟩ := Option.isSome_iff_exists.mp hentry
          rw [get_append, hget]
          show ((entry name entries).bind (get [])).isSome = true
          rw [hnext]
          rfl
        · exact nomatch h
  · exact nomatch h

/-- A walk from something ends at something. -/
theorem walk_isSome (hhere : (fs.tree.get here).isSome = true)
    (h : fs.walk here names = some location) : (fs.tree.get location).isSome = true := by
  induction names generalizing here with
  | nil =>
    obtain rfl := Option.some.inj h
    exact hhere
  | cons name names ih =>
    rw [← List.singleton_append, walk_append] at h
    obtain ⟨next, hnext, hrest⟩ := Option.bind_eq_some_iff.mp h
    refine ih ?_ hrest
    obtain ⟨hdir, ⟨-, rfl⟩ | ⟨-, rfl⟩ | ⟨-, -, hsome⟩⟩ := walk_singleton hnext
    · exact hhere
    · obtain ⟨entries, hparent⟩ := hdir.parent
      rw [hparent]
      rfl
    · exact hsome

/-- A walk without `..` goes down: to the names that are plain. -/
theorem walk_down (hnames : dotdot ∉ names) (h : fs.walk here names = some location) :
    location = here ++ names.filter Plain := by
  induction names generalizing here with
  | nil =>
    obtain rfl := Option.some.inj h
    exact (List.append_nil here).symm
  | cons name names ih =>
    obtain ⟨hname, hnames⟩ := not_or.mp (fun hor => hnames (List.mem_cons.mpr hor))
    rw [← List.singleton_append, walk_append] at h
    obtain ⟨next, hnext, hrest⟩ := Option.bind_eq_some_iff.mp h
    have hlocation := ih hnames hrest
    obtain ⟨-, ⟨hdot, rfl⟩ | ⟨hdots, -⟩ | ⟨hplain, rfl, -⟩⟩ := walk_singleton hnext
    · have hnot : ¬Plain name := fun hplain => hdot.elim hplain.1 hplain.2.1
      rw [List.filter_cons_of_neg (by simpa using hnot), hlocation]
    · exact absurd hdots.symm hname
    · rw [List.filter_cons_of_pos (by simpa using hplain), hlocation, List.append_assoc]
      rfl

/-- Plain names lead to what is there. -/
theorem walk_plain (hnames : ∀ name ∈ names, Plain name)
    (hsome : (fs.tree.get (here ++ names)).isSome = true) :
    fs.walk here names = some (here ++ names) := by
  induction names generalizing here with
  | nil =>
    rw [List.append_nil]
    rfl
  | cons name names ih =>
    have hplain := hnames name List.mem_cons_self
    have happend : here ++ name :: names = (here ++ [name]) ++ names := by simp
    rw [happend] at hsome ⊢
    -- something is at the first name, or nothing would be behind it
    obtain ⟨last, hlast⟩ := Option.isSome_iff_exists.mp hsome
    rw [get_append] at hlast
    obtain ⟨next, hnext, -⟩ := Option.bind_eq_some_iff.mp hlast
    obtain ⟨entries, hdir, hentry⟩ := dir_of_get_append hnext
    rw [FileSystem.walk, hdir]
    dsimp only
    rw [if_neg (not_or.mpr ⟨hplain.1, hplain.2.1⟩), if_neg hplain.2.2, hentry]
    exact ih (fun n hn => hnames n (List.mem_cons_of_mem _ hn)) hsome

/-- Without links, a walk ends where the names say. -/
theorem walk_follow (h : fs.walk here names = some location) :
    location = FileSystem.follow here names := by
  induction names generalizing here with
  | nil => exact (Option.some.inj h).symm
  | cons name names ih =>
    unfold FileSystem.follow
    rw [List.foldl_cons]
    unfold FileSystem.walk at h
    split at h
    · split at h
      · rename_i hdot
        rw [if_pos hdot]
        exact ih h
      · rename_i hdot
        rw [if_neg hdot]
        split at h
        · rename_i hdots
          rw [if_pos hdots]
          exact ih h
        · rename_i hdots
          rw [if_neg hdots]
          split at h
          · exact ih h
          · exact nomatch h
    · exact nomatch h

/-- Names that are followed are names of the path. -/
theorem mem_follow (h : name ∈ FileSystem.follow here names) : name ∈ here ∨ name ∈ names := by
  induction names generalizing here with
  | nil => exact .inl h
  | cons next names ih =>
    unfold FileSystem.follow at h
    rw [List.foldl_cons] at h
    have hmem := ih h
    split at hmem
    · exact hmem.imp_right (List.mem_cons_of_mem _)
    · split at hmem
      · exact hmem.imp (List.dropLast_subset _ ·) (List.mem_cons_of_mem _)
      · rcases hmem with hmem | hmem
        · rcases List.mem_append.mp hmem with hmem | hmem
          · exact .inl hmem
          · exact .inr (List.mem_cons.mpr (.inl (List.mem_singleton.mp hmem)))
        · exact .inr (List.mem_cons_of_mem _ hmem)

/-- A walk that ends at a file ends with a plain name, in a directory. -/
theorem walk_file {f : F} (h : fs.walk [] (names ++ [name]) = some location)
    (hfile : fs.tree.get location = some (.file f)) :
    Plain name ∧ ∃ there, fs.walk [] names = some there ∧ fs.DirAt there ∧
      location = there ++ [name] := by
  rw [walk_append] at h
  obtain ⟨there, hthere, hlast⟩ := Option.bind_eq_some_iff.mp h
  have hnot : ¬fs.DirAt location := by
    rintro ⟨entries, hdir⟩
    rw [hfile] at hdir
    exact nomatch hdir
  obtain ⟨hdir, ⟨-, rfl⟩ | ⟨-, rfl⟩ | ⟨hplain, rfl, -⟩⟩ := walk_singleton hlast
  · exact absurd hdir hnot
  · exact absurd hdir.parent hnot
  · exact ⟨hplain, there, hthere, hdir, rfl⟩

/-- A walk over plain names ends at these names. -/
theorem walk_eq_of_plain (hnames : ∀ name ∈ names, Plain name)
    (h : fs.walk here names = some location) : location = here ++ names := by
  have hlocation := walk_down (fun hdots => (hnames dotdot hdots).2.2 rfl) h
  rwa [List.filter_eq_self.mpr fun name hname => decide_eq_true (hnames name hname)] at hlocation

end Walking

/-! ## Paths -/

section Paths

variable {F : Type*} {fs : FileSystem F} {p web : Path} {names : List Name} {f : F}

open Node Algiz.Lib.Path FileSystem

theorem find_eq_some {node : Node F} (h : fs.find p = some node) :
    p.absolute = true ∧ ∃ location, fs.walk [] (cut p.names) = some location ∧
      fs.tree.get location = some node := by
  obtain ⟨location, hlocation, hget⟩ := Option.bind_eq_some_iff.mp h
  unfold FileSystem.resolve at hlocation
  split at hlocation
  · exact ⟨‹_›, location, hlocation, hget⟩
  · exact nomatch hlocation

/-- Paths that an operating system does not tell apart. -/
theorem find_congr {q : Path} (habsolute : p.absolute = q.absolute)
    (hcut : cut p.names = cut q.names) : fs.find p = fs.find q := by
  unfold FileSystem.find FileSystem.resolve
  rw [habsolute, hcut]

theorem regularFile_eq_some : fs.regularFile p = some f ↔ fs.find p = some (.file f) := by
  unfold FileSystem.regularFile
  constructor
  · intro h
    obtain ⟨node, hnode, hfile⟩ := Option.bind_eq_some_iff.mp h
    cases node with
    | file g =>
      obtain rfl := Option.some.inj hfile
      exact hnode
    | dir entries => exact nomatch hfile
  · intro h
    rw [h]
    rfl

/-- What a file system with one place in it holds on the way to the place, and there. -/
theorem find_ofNode {node : Node F} {hnode : node.WellFormed} {hne : names ≠ []}
    {h : ∀ name ∈ names, Plain name ∧ 0 ∉ name ∧ 47 ∉ name} {rest : List Name}
    (habsolute : p.absolute = true) (hnames : names = cut p.names ++ rest) :
    (ofNode node hnode names hne h).resolve p = some (cut p.names) ∧
      (ofNode node hnode names hne h).find p = some (chain node rest) := by
  have hget : (ofNode node hnode names hne h).tree.get (cut p.names) = some (chain node rest) := by
    show (chain node names).get (cut p.names) = _
    rw [hnames]
    exact get_chain node (cut p.names) rest
  have hplain : ∀ name ∈ cut p.names, Plain name := fun name hname =>
    (h name (hnames ▸ List.mem_append_left _ hname)).1
  have hresolve : (ofNode node hnode names hne h).resolve p = some (cut p.names) := by
    unfold FileSystem.resolve
    rw [if_pos habsolute]
    have hsome : ((ofNode node hnode names hne h).tree.get ([] ++ cut p.names)).isSome = true := by
      rw [List.nil_append, hget]
      rfl
    exact walk_plain hplain hsome
  refine ⟨hresolve, ?_⟩
  unfold FileSystem.find
  rw [hresolve]
  exact hget

theorem isDirectory_iff :
    fs.isDirectory p = true ↔ ∃ entries, fs.find p = some (.dir entries) := by
  unfold FileSystem.isDirectory
  cases fs.find p with
  | none => exact iff_of_false Bool.false_ne_true fun ⟨_, h⟩ => nomatch h
  | some node =>
    cases node with
    | file g => exact iff_of_false Bool.false_ne_true fun ⟨_, h⟩ => nomatch h
    | dir entries => exact iff_of_true rfl ⟨entries, rfl⟩

/-- The canonical path of something that is there. -/
theorem canonical_spec {root : Path} (h : fs.canonical p = some root) :
    fs.resolve p = some root.names ∧ root.absolute = true ∧
      (fs.tree.get root.names).isSome = true := by
  obtain ⟨location, hlocation, rfl⟩ := Option.map_eq_some_iff.mp h
  refine ⟨hlocation, rfl, ?_⟩
  unfold FileSystem.resolve at hlocation
  split at hlocation
  · obtain ⟨entries, hroot⟩ := dirAt_root fs
    exact walk_isSome (hroot ▸ rfl) hlocation
  · exact nomatch hlocation

theorem canonical_follow {root : Path} (h : fs.canonical p = some root) :
    root = ⟨true, FileSystem.follow [] (cut p.names)⟩ := by
  obtain ⟨hresolve, habsolute, -⟩ := canonical_spec h
  unfold FileSystem.resolve at hresolve
  split at hresolve
  · rw [← walk_follow hresolve, ← habsolute]
  · exact nomatch hresolve

theorem canonical_slashless {root : Path} (h : fs.canonical p = some root) :
    ∀ name ∈ root.names, 47 ∉ name := by
  obtain ⟨node, hnode⟩ := Option.isSome_iff_exists.mp (canonical_spec h).2.2
  exact fun name hname => ((fs.wellFormed.get hnode).2 name hname).2.2

/-- What is seen of the path of a file ends with a plain name. -/
theorem file_last (h : fs.regularFile p = some f) :
    ∃ front last, cut p.names = front ++ [last] ∧ Plain last := by
  obtain ⟨-, location, hwalk, hget⟩ := find_eq_some (regularFile_eq_some.mp h)
  rcases List.eq_nil_or_concat' (cut p.names) with hnil | ⟨front, last, hcut⟩
  · rw [hnil] at hwalk
    obtain rfl := Option.some.inj hwalk
    obtain ⟨entries, hroot⟩ := dirAt_root fs
    exact nomatch hroot.symm.trans hget
  · rw [hcut] at hwalk
    exact ⟨front, last, hcut, (walk_file hwalk hget).1⟩

/-- A file behind plain names is at the location of the names that are seen. -/
theorem resolve_file (hplain : ∀ name ∈ names.dropLast, Plain name)
    (hfile : fs.regularFile ⟨true, names⟩ = some f) :
    fs.resolve ⟨true, names⟩ = some (cut names) := by
  obtain ⟨-, location, hwalk, -⟩ := find_eq_some (regularFile_eq_some.mp hfile)
  obtain ⟨front, last, hcut, hlast⟩ := file_last hfile
  dsimp only at hwalk hcut
  have hnames : ∀ name ∈ cut names, Plain name := by
    intro name hname
    rw [hcut] at hname
    rcases List.mem_append.mp hname with hname | hname
    · exact hplain name ((cut_concat hcut).1.subset hname)
    · exact List.mem_singleton.mp hname ▸ hlast
  obtain rfl := walk_eq_of_plain hnames hwalk
  exact hwalk

/-- Whether a slash is behind it or not, a directory is found. -/
theorem resolve_directory {there : List Name} (habsolute : p.absolute = true)
    (hzero : ∀ name ∈ unslashed p.names, 0 ∉ name)
    (hwalk : fs.walk [] (unslashed p.names) = some there) (hdir : fs.DirAt there) :
    fs.resolve p = some there := by
  obtain ⟨entries, hget⟩ := hdir
  unfold FileSystem.resolve
  rw [if_pos habsolute]
  rcases unslashed_cases p.names with heq | heq
  · rw [heq, cut_of_not_mem hzero, hwalk]
  · have hslash : fs.walk there [[]] = some there := by
      unfold FileSystem.walk
      rw [hget]
      rfl
    rw [heq, cut_append_of_not_mem hzero, walk_append, hwalk]
    exact hslash

/-- A path is that of a directory if a file is found behind it. -/
theorem isDirectory_of_file {name : Name} (habsolute : p.absolute = true)
    (hzero : ∀ name ∈ unslashed p.names, 0 ∉ name)
    (hfile : fs.regularFile ⟨true, unslashed p.names ++ [name]⟩ = some f) :
    fs.isDirectory p = true := by
  obtain ⟨-, location, hwalk, hlocation⟩ := find_eq_some (regularFile_eq_some.mp hfile)
  obtain ⟨seen, hseen⟩ := cut_singleton name
  dsimp only at hwalk
  rw [cut_append_of_not_mem hzero, hseen] at hwalk
  obtain ⟨-, there, hthere, hdir, -⟩ := walk_file hwalk hlocation
  obtain ⟨entries, hentries⟩ := id hdir
  refine isDirectory_iff.mpr ⟨entries, ?_⟩
  unfold FileSystem.find
  rw [resolve_directory habsolute hzero hthere hdir]
  exact hentries

/-- A directory in normal form is at the location of its names. -/
theorem resolve_plain {location : List Name} (h : fs.resolve web = some location)
    (hplain : ∀ name ∈ unslashed web.names, Plain name)
    (hzero : ∀ name ∈ unslashed web.names, 0 ∉ name) : location = unslashed web.names := by
  have hwalk : fs.walk [] (cut web.names) = some location := by
    unfold FileSystem.resolve at h
    split at h
    · exact h
    · exact nomatch h
  have hfilter : (unslashed web.names).filter Plain = unslashed web.names :=
    List.filter_eq_self.mpr fun name hname => decide_eq_true (hplain name hname)
  have hdots : dotdot ∉ unslashed web.names := fun hmem => (hplain dotdot hmem).2.2 rfl
  rcases unslashed_cases web.names with heq | heq
  · rw [heq, cut_of_not_mem hzero] at hwalk
    exact (walk_down hdots hwalk).trans hfilter
  · rw [heq, cut_append_of_not_mem hzero] at hwalk
    have hslash : dotdot ∉ unslashed web.names ++ [[]] := fun hmem =>
      (List.mem_append.mp hmem).elim hdots fun hlast => nomatch List.mem_singleton.mp hlast
    have hlocation := walk_down hslash hwalk
    rw [List.filter_append, hfilter] at hlocation
    rw [hlocation]
    exact List.append_nil _

/-- A file whose path begins with the names of a directory is found below the directory: where the
    system looks, there are the names of the directory and at least one more. -/
theorem file_below {location : List Name} {entries : List (Name × Node F)}
    (hweb : fs.find web = some (.dir entries)) (hlocation : fs.resolve web = some location)
    (hplain : ∀ name ∈ unslashed web.names, Plain name) (hbegins : unslashed web.names <+: names)
    (hdots : dotdot ∉ names.dropLast) (hfile : fs.regularFile ⟨true, names⟩ = some f) :
    location = unslashed web.names ∧ (∀ name ∈ location, 0 ∉ name) ∧
      ∃ rest, rest ≠ [] ∧ dotdot ∉ rest ∧ cut names = location ++ rest := by
  obtain ⟨rest, rfl⟩ := hbegins
  obtain ⟨habsolute, there, hthere, hdir⟩ := find_eq_some hweb
  obtain ⟨-, found, hfound, hget⟩ := find_eq_some (regularFile_eq_some.mp hfile)
  dsimp only at hfound
  by_cases hzero : ∃ name ∈ unslashed web.names, 0 ∈ name
  · -- the system sees no more of the path than of the directory's
    have hcut : cut web.names = cut (unslashed web.names) := by
      rcases unslashed_cases web.names with heq | heq
      · rw [← heq]
      · conv => lhs; rw [heq]
        exact cut_append_of_mem hzero _
    rw [cut_append_of_mem hzero, ← hcut, hthere] at hfound
    obtain rfl := Option.some.inj hfound
    exact nomatch hdir.symm.trans hget
  · have hnone : ∀ name ∈ unslashed web.names, 0 ∉ name := fun name hname hmem =>
      hzero ⟨name, hname, hmem⟩
    have heq := resolve_plain hlocation hplain hnone
    have hresolve : fs.resolve web = some there := by
      unfold FileSystem.resolve
      rw [if_pos habsolute]
      exact hthere
    obtain rfl := Option.some.inj (hresolve.symm.trans hlocation)
    have hcut := cut_append_of_not_mem hnone rest
    refine ⟨heq, heq ▸ hnone, cut rest, ?_, ?_, heq ▸ hcut⟩
    · intro hnil
      rw [hcut, hnil, List.append_nil] at hfound
      have hsame := walk_eq_of_plain hplain hfound
      rw [List.nil_append, ← heq] at hsame
      rw [hsame] at hget
      exact nomatch hdir.symm.trans hget
    · intro hmem
      obtain ⟨front, last, hconcat, hlast⟩ := file_last hfile
      have hbefore := (cut_concat hconcat).1
      dsimp only at hconcat
      have hall : dotdot ∈ front ++ [last] := by
        rw [← hconcat, hcut]
        exact List.mem_append_right _ hmem
      rcases List.mem_append.mp hall with hfront | hend
      · exact hdots (hbefore.subset hfront)
      · exact hlast.2.2 (List.mem_singleton.mp hend).symm

end Paths

end Algiz.Lib
