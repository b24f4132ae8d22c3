/-
  What `HTTP::Server::getOption` gives.

  Its do-while loop goes up from the parent of a path, inside that of `isSubpath`, which goes up
  from the path. Both end on every path, because each turn drops the last name (`returns_iff`). For
  a path below the web root the value is that of the nearest directory on the way up to the web
  root that has one, or else that of the server (`getOption_nearest`). `isSubpath` goes by the
  elements of the paths, but never looks at the root directory (`isSubpath_says_prefix`).
-/
import Algiz.Lib.Loop
import Algiz.HTTP.Configs

namespace Algiz

open Lib

/-! ## The loops -/

/-- A turn of the loop of `isSubpath`. -/
def isSubpathTurn (base toCheck : Path) : Path ⊕ Bool :=
  if toCheck ≠ Path.root ∧ toCheck.isEmpty = false then
    if toCheck = base then .inr true else .inl toCheck.parentPath
  else .inr false

theorem parentPath_less {p : Path} (h : p.names ≠ []) :
    p.parentPath.names.length < p.names.length := by
  unfold Path.parentPath
  rw [List.length_dropLast]
  exact Nat.sub_one_lt_of_lt (List.length_pos_iff.mpr h)

/-- `isSubpath(base, toCheck)` ends, with this value. -/
def IsSubpathReturns (base toCheck : Path) (b : Bool) : Prop :=
  if base = toCheck then b = true else Loop (isSubpathTurn base) toCheck b

/-- The loop of `isSubpath` ends. -/
theorem isSubpath_loop (base toCheck : Path) :
    Loop (isSubpathTurn base) toCheck
      (isSubpathFrom base (toCheck.names.length + 1) toCheck) := by
  refine Loop.of_fuel (fun _ => True) (fun p => p.names.length) ?_ ?_ ?_ trivial
    (Nat.lt_succ_self _)
  · intro fuel p b _ hturn
    unfold isSubpathTurn at hturn
    rw [isSubpathFrom]
    split_ifs at hturn ⊢ <;> exact Sum.inr.inj hturn
  · intro fuel p t _ hturn
    unfold isSubpathTurn at hturn
    rw [isSubpathFrom]
    split_ifs at hturn ⊢
    rw [Sum.inl.inj hturn]
  · intro p t _ hturn
    unfold isSubpathTurn at hturn
    split_ifs at hturn with hgo hbase
    obtain rfl := Sum.inl.inj hturn
    refine ⟨trivial, parentPath_less fun hnil => ?_⟩
    -- the root directory and the empty path are not gone through
    obtain ⟨absolute, names⟩ := p
    dsimp only at hnil
    subst hnil
    cases absolute with
    | true => exact hgo.1 rfl
    | false => exact Bool.noConfusion hgo.2

/-- `isSubpath` ends for all paths, with what the function with fuel gives. -/
theorem isSubpathReturns_iff {base toCheck : Path} {b : Bool} :
    IsSubpathReturns base toCheck b ↔ b = isSubpath base toCheck := by
  unfold IsSubpathReturns isSubpath
  split_ifs with hself
  · rw [decide_eq_true hself, Bool.true_or]
  · rw [decide_eq_false hself, Bool.false_or]
    constructor
    · exact fun hloop => hloop.unique (isSubpath_loop base toCheck)
    · rintro rfl
      exact isSubpath_loop base toCheck

/-! ## What `isSubpath` says -/

section Subpaths

variable {base path : Path}

theorem elements_prefix (hbase : base.absolute = true) (hpath : path.absolute = true) :
    base.elements <+: path.elements ↔ base.names <+: path.names := by
  unfold Path.elements
  rw [if_pos hbase, if_pos hpath]
  exact List.prefix_append_right_inj _

/-- The root directory is an absolute path without names. -/
theorem names_ne_nil (hbase : base.absolute = true) : base.names ≠ [] ↔ base ≠ Path.root := by
  refine not_congr ⟨fun hnames => ?_, ?_⟩
  · obtain ⟨absolute, names⟩ := base
    dsimp only at hbase hnames
    rw [hbase, hnames]
    rfl
  · rintro rfl
    rfl

/-- `isSubpath` ends, and it tells whether the elements of the base begin those of the path, unless
    the base is the root directory and the path another one: the loop ends at the root directory
    before it compares it with the base. -/
theorem isSubpath_says_prefix (hbase : base.absolute = true) (hpath : path.absolute = true) :
    (∃ b, IsSubpathReturns base path b ∧ (b = true ↔ base.elements <+: path.elements)) ↔
      base ≠ Path.root ∨ path = Path.root := by
  have hreturns : (∃ b, IsSubpathReturns base path b ∧
      (b = true ↔ base.elements <+: path.elements)) ↔
        (isSubpath base path = true ↔ base.names <+: path.names) := by
    simp only [isSubpathReturns_iff, exists_eq_left, elements_prefix hbase hpath]
  rw [hreturns, HTTP.isSubpath_iff]
  by_cases hroot : base = Path.root
  · subst hroot
    have hnames : Path.root.names = [] := rfl
    simp [hnames, eq_comm]
  · have hnames := (names_ne_nil hbase).mpr hroot
    refine iff_of_true ⟨?_, fun hbegins => ?_⟩ (.inl hroot)
    · rintro (rfl | ⟨-, -, hbegins⟩)
      · exact List.prefix_refl _
      · exact hbegins
    · exact .inr ⟨hbase.trans hpath.symm, hnames, hbegins⟩

/-- `/srv/a` is below `/srv`, and `isSubpath` says so. -/
theorem isSubpath_says_prefix_srv :
    (∃ b, IsSubpathReturns ⟨true, [ascii "srv"]⟩ ⟨true, [ascii "srv", ascii "a"]⟩ b ∧
        (b = true ↔ Path.elements ⟨true, [ascii "srv"]⟩ <+:
          Path.elements ⟨true, [ascii "srv", ascii "a"]⟩)) ↔
      (⟨true, [ascii "srv"]⟩ : Path) ≠ Path.root ∨
        (⟨true, [ascii "srv", ascii "a"]⟩ : Path) = Path.root :=
  isSubpath_says_prefix rfl rfl

/-- `/a` is below the root directory, and `isSubpath` ends with the opposite. -/
theorem isSubpath_root_file :
    IsSubpathReturns Path.root ⟨true, [ascii "a"]⟩ false ∧
      Path.root.elements <+: Path.elements ⟨true, [ascii "a"]⟩ ∧
      ¬ ∃ b, IsSubpathReturns Path.root ⟨true, [ascii "a"]⟩ b ∧
        (b = true ↔ Path.root.elements <+: Path.elements ⟨true, [ascii "a"]⟩) := by
  have hends : IsSubpathReturns Path.root ⟨true, [ascii "a"]⟩ false :=
    isSubpathReturns_iff.mpr (by decide)
  have hbegins : Path.root.elements <+: Path.elements ⟨true, [ascii "a"]⟩ := ⟨[ascii "a"], rfl⟩
  refine ⟨hends, hbegins, ?_⟩
  rintro ⟨b, hb, hiff⟩
  rw [isSubpathReturns_iff.mp hb, ← isSubpathReturns_iff.mp hends] at hiff
  exact Bool.noConfusion (hiff.mpr hbegins)

end Subpaths

/-! ## The loop of `getOption` -/

namespace HTTP.ServerOptions

variable {server : ServerOptions} {path : Path} {name : Bytes}

/-- The value that the configuration of a directory has for a name. -/
def ownOption (server : ServerOptions) (name : Bytes) (dir : Path) : Option Json :=
  (server.configs dir).bind (Json.find name)

/-- A turn of the loop of `getOption`, and its condition. -/
def optionTurn (server : ServerOptions) (name : Bytes) (root dir : Path) : Path ⊕ Option Json :=
  match server.ownOption name dir with
  | some value => .inr (some value)
  | none =>
    if dir = server.webRoot then .inr (server.options.find name)
    else if dir.parentPath = root then .inr (server.options.find name)
    else .inl dir.parentPath

/-- A directory that has the option ends the loop. -/
theorem option_found {dir : Path} {value : Json} (hown : server.ownOption name dir = some value)
    (root : Path) (fuel : Nat) :
    server.optionTurn name root dir = .inr (some value) ∧
      server.optionFrom name (fuel + 1) dir = some value := by
  constructor
  · unfold optionTurn
    rw [hown]
  · have hconfig : (server.configs dir).bind (Json.find name) = some value := hown
    rw [optionFrom, hconfig]

/-- Where a directory has no such option, the loop goes on to its parent or ends there. -/
theorem option_missing {dir : Path} (hown : server.ownOption name dir = none) (root : Path)
    (hroot : root = ⟨dir.absolute, []⟩) (fuel : Nat) :
    server.optionTurn name root dir =
        (if dir = server.webRoot then .inr (server.options.find name)
        else if dir.parentPath = root then .inr (server.options.find name)
        else .inl dir.parentPath) ∧
      server.optionFrom name (fuel + 1) dir =
        (if dir = server.webRoot then server.options.find name
        else if dir.parentPath = root then server.options.find name
        else server.optionFrom name fuel dir.parentPath) := by
  constructor
  · unfold optionTurn
    rw [hown]
  · have hconfig : (server.configs dir).bind (Json.find name) = none := hown
    rw [optionFrom, hconfig, hroot]

/-- The loop of `getOption` ends. -/
theorem getOption_loop (server : ServerOptions) (name : Bytes) {dir : Path} {fuel : Nat}
    (hfuel : dir.names.length < fuel) :
    Loop (server.optionTurn name dir.rootPath) dir (server.optionFrom name fuel dir) := by
  have hroot : ∀ p : Path, p.absolute = dir.absolute → dir.rootPath = ⟨p.absolute, []⟩ := by
    intro p habsolute
    rw [habsolute]
    rfl
  refine Loop.of_fuel (fun p => p.absolute = dir.absolute) (fun p => p.names.length) ?_ ?_ ?_ rfl
    hfuel
  · intro fuel p b habsolute hturn
    cases hown : server.ownOption name p with
    | some value =>
      obtain ⟨hleave, hfrom⟩ := option_found hown dir.rootPath fuel
      rw [hfrom]
      exact Sum.inr.inj (hleave.symm.trans hturn)
    | none =>
      obtain ⟨hnext, hfrom⟩ := option_missing hown dir.rootPath (hroot p habsolute) fuel
      rw [hnext] at hturn
      rw [hfrom]
      split_ifs at hturn ⊢ <;> exact Sum.inr.inj hturn
  · intro fuel p t habsolute hturn
    cases hown : server.ownOption name p with
    | some value =>
      exact nomatch (option_found hown dir.rootPath fuel).1.symm.trans hturn
    | none =>
      obtain ⟨hnext, hfrom⟩ := option_missing hown dir.rootPath (hroot p habsolute) fuel
      rw [hnext] at hturn
      rw [hfrom]
      split_ifs at hturn ⊢
      rw [Sum.inl.inj hturn]
  · intro p t habsolute hturn
    cases hown : server.ownOption name p with
    | some value => exact nomatch (option_found hown dir.rootPath 0).1.symm.trans hturn
    | none =>
      rw [(option_missing hown dir.rootPath (hroot p habsolute) 0).1] at hturn
      split_ifs at hturn with hwebRoot htop
      obtain rfl := Sum.inl.inj hturn
      refine ⟨habsolute, parentPath_less fun hnil => htop ?_⟩
      unfold Path.parentPath Path.rootPath
      rw [hnil, habsolute]
      rfl

/-- `getOption(path, name)` ends, with this value or by an exception. -/
inductive Returns (server : ServerOptions) (path : Path) (name : Bytes) :
    Except Exception (Option Json) → Prop
  | found {result : Option Json} (hsubpath : IsSubpathReturns server.webRoot path true)
      (hloop : Loop (server.optionTurn name path.parentPath.rootPath) path.parentPath result) :
      Returns server path name (.ok result)
  | refused (hsubpath : IsSubpathReturns server.webRoot path false) :
      Returns server path name (.error (.invalidArgument
        (ascii "Not a subpath of the webroot (" ++ server.webRoot.toBytes ++ ascii "): " ++
          path.toBytes)))

/-- `getOption` ends on every path, and in one way. -/
theorem returns_iff {outcome : Except Exception (Option Json)} :
    Returns server path name outcome ↔ outcome = server.getOption path name := by
  have hfuel : path.parentPath.names.length < path.names.length + 1 := by
    unfold Path.parentPath
    rw [List.length_dropLast]
    omega
  have hloop := getOption_loop server name hfuel
  unfold getOption
  constructor
  · intro hreturns
    cases hreturns with
    | found hsubpath hfound =>
      rw [← isSubpathReturns_iff.mp hsubpath, hfound.unique hloop]
      rfl
    | refused hsubpath =>
      rw [← isSubpathReturns_iff.mp hsubpath]
      rfl
  · rintro rfl
    cases hsubpath : isSubpath server.webRoot path with
    | true => exact .found (isSubpathReturns_iff.mpr hsubpath.symm) hloop
    | false => exact .refused (isSubpathReturns_iff.mpr hsubpath.symm)

/-! ## What governs a path -/

/-- A path below a directory: its elements are those of the directory, and more. -/
structure StrictlyBelow (top path : Path) : Prop where
  absolute : path.absolute = top.absolute
  begins : top.names <+: path.names
  strict : path ≠ top

/-- The directories from the parent of a path up to the web root. -/
structure OnTheWay (server : ServerOptions) (path dir : Path) : Prop where
  absolute : dir.absolute = server.webRoot.absolute
  below : server.webRoot.names <+: dir.names
  above : dir.names <+: path.parentPath.names

/-- The value of an option for a path: that of the nearest directory on the way that has one, or
    else that of the server, if it has one. -/
inductive Governs (server : ServerOptions) (path : Path) (name : Bytes) : Option Json → Prop
  | config {dir : Path} {value : Json} (hdir : OnTheWay server path dir)
      (hvalue : server.ownOption name dir = some value)
      (hnearer : ∀ nearer, OnTheWay server path nearer → dir.names.length < nearer.names.length →
        server.ownOption name nearer = none) : Governs server path name (some value)
  | options (hnone : ∀ dir, OnTheWay server path dir → server.ownOption name dir = none) :
      Governs server path name (server.options.find name)

/-- One value at most governs a path. -/
theorem Governs.unique {result other : Option Json} (h : Governs server path name result)
    (h' : Governs server path name other) : result = other := by
  cases h with
  | options hnone =>
    cases h' with
    | options _ => rfl
    | config hdir hvalue _ => exact nomatch (hnone _ hdir).symm.trans hvalue
  | config hdir hvalue hnearer =>
    cases h' with
    | options hnone => exact nomatch (hnone _ hdir).symm.trans hvalue
    | config hdir' hvalue' hnearer' =>
      rename_i dir value dir' value'
      rcases Nat.lt_trichotomy dir.names.length dir'.names.length with hlt | hlength | hlt
      · exact nomatch (hnearer dir' hdir' hlt).symm.trans hvalue'
      · have hprefix : dir.names <+: dir'.names :=
          List.prefix_of_prefix_length_le hdir.above hdir'.above hlength.le
        have hsame : dir = dir' := by
          obtain ⟨absolute, names⟩ := dir
          obtain ⟨absolute', names'⟩ := dir'
          have habsolute : absolute = absolute' := hdir.absolute.trans hdir'.absolute.symm
          have hnames : names = names' := hprefix.eq_of_length hlength
          rw [habsolute, hnames]
        rw [← hvalue, hsame, hvalue']
      · exact nomatch (hnearer' dir hdir hlt).symm.trans hvalue

section Below

variable {rest : List Name}

/-- A directory on the way is the web root and some of the names that the parent has behind it. -/
theorem onTheWay_iff {dir : Path}
    (hparent : path.parentPath = ⟨server.webRoot.absolute, server.webRoot.names ++ rest⟩) :
    OnTheWay server path dir ↔
      ∃ names, names <+: rest ∧ dir = ⟨server.webRoot.absolute, server.webRoot.names ++ names⟩ := by
  constructor
  · intro h
    obtain ⟨names, hdir⟩ := h.below
    have habove := h.above
    rw [hparent, ← hdir] at habove
    refine ⟨names, (List.prefix_append_right_inj _).mp habove, ?_⟩
    rw [hdir, ← h.absolute]
  · rintro ⟨names, hnames, rfl⟩
    refine ⟨rfl, List.prefix_append _ _, ?_⟩
    rw [hparent]
    exact (List.prefix_append_right_inj _).mpr hnames

/-- What is found going upwards governs the path. -/
theorem governs_upward
    (hparent : path.parentPath = ⟨server.webRoot.absolute, server.webRoot.names ++ rest⟩) :
    Governs server path name ((upward (fun names => server.ownOption name
      ⟨server.webRoot.absolute, server.webRoot.names ++ names⟩) rest).or
        (server.options.find name)) := by
  rcases upward_cases (fun names => server.ownOption name
      ⟨server.webRoot.absolute, server.webRoot.names ++ names⟩) rest with
    ⟨front, value, hfront, hvalue, hupward, hnearer⟩ | ⟨hupward, hnothing⟩
  · rw [hupward, Option.some_or]
    have hdir : OnTheWay server path
        ⟨server.webRoot.absolute, server.webRoot.names ++ front⟩ :=
      (onTheWay_iff hparent).mpr ⟨front, hfront, rfl⟩
    refine .config hdir hvalue fun nearer hnear hlonger => ?_
    obtain ⟨names, hnames, rfl⟩ := (onTheWay_iff hparent).mp hnear
    dsimp only at hlonger
    rw [List.length_append, List.length_append] at hlonger
    exact hnearer names hnames (by omega)
  · rw [hupward, Option.none_or]
    refine .options fun dir hdir => ?_
    obtain ⟨names, hnames, rfl⟩ := (onTheWay_iff hparent).mp hdir
    exact hnothing names hnames

/-- The elements of a path below a directory, and those of its parent. -/
theorem StrictlyBelow.parent (h : StrictlyBelow server.webRoot path) :
    ∃ rest, path.parentPath = ⟨server.webRoot.absolute, server.webRoot.names ++ rest⟩ := by
  obtain ⟨rest, hrest⟩ := h.begins
  have hne : rest ≠ [] := by
    rintro rfl
    rw [List.append_nil] at hrest
    refine h.strict ?_
    obtain ⟨absolute, names⟩ := path
    dsimp only at hrest
    rw [← hrest, show absolute = server.webRoot.absolute from h.absolute]
  refine ⟨rest.dropLast, ?_⟩
  unfold Path.parentPath
  rw [← hrest, List.dropLast_append_of_ne_nil hne, h.absolute]

/-- What `getOption` gives for a path below the web root. -/
theorem getOption_eq_upward (hnames : server.webRoot.names ≠ [])
    (hbelow : StrictlyBelow server.webRoot path)
    (hparent : path.parentPath = ⟨server.webRoot.absolute, server.webRoot.names ++ rest⟩) :
    server.getOption path name = .ok ((upward (fun names => server.ownOption name
      ⟨server.webRoot.absolute, server.webRoot.names ++ names⟩) rest).or
        (server.options.find name)) := by
  have hsubpath : isSubpath server.webRoot path = true :=
    isSubpath_iff.mpr (.inr ⟨hbelow.absolute.symm, hnames, hbelow.begins⟩)
  have hfuel : rest.length < path.names.length + 1 := by
    have hlength : path.names.dropLast.length = (server.webRoot.names ++ rest).length :=
      congrArg (fun p : Path => p.names.length) hparent
    rw [List.length_dropLast, List.length_append] at hlength
    omega
  unfold getOption
  rw [hsubpath, hparent, optionFrom_spec hfuel (.inl hnames)]
  rfl

end Below

/-- For a path below the web root, which is not the root directory and has no slash at its end,
    `getOption` ends, and gives the value of the nearest directory from the parent of the path up to
    the web root, or else that of the options. The paths need not be in normal form, and what is
    configured outside of the web root does not count. -/
theorem getOption_nearest (server : ServerOptions) (path : Path) (name : Bytes)
    (hroot : server.webRoot.hasFilename = true) (hbelow : StrictlyBelow server.webRoot path) :
    ∃ result, (∀ other, Governs server path name other ↔ other = result) ∧
      ∀ outcome, Returns server path name outcome ↔ outcome = .ok result := by
  have hnames : server.webRoot.names ≠ [] := by
    intro hnil
    unfold Path.hasFilename Path.filename at hroot
    rw [hnil] at hroot
    exact absurd rfl (of_decide_eq_true hroot)
  obtain ⟨rest, hparent⟩ := hbelow.parent
  have hgoverns : Governs server path name _ := governs_upward hparent
  refine ⟨_, fun other => ⟨fun h => h.unique hgoverns, fun h => h ▸ hgoverns⟩, fun outcome => ?_⟩
  rw [returns_iff, getOption_eq_upward hnames hbelow hparent]

/-- The option `nodot` is set in `/srv` and in `/srv/a`; for `/srv/a/b/f` the latter counts. -/
theorem getOption_nearest_file :
    let server : ServerOptions :=
      { webRoot := ⟨true, [ascii "srv"]⟩
        options := .object []
        configs := fun dir =>
          if dir = ⟨true, [ascii "srv", ascii "a"]⟩ then
            some (.object [(ascii "nodot", .boolean true)])
          else if dir = ⟨true, [ascii "srv"]⟩ then
            some (.object [(ascii "nodot", .boolean false)])
          else none }
    ∃ result, (∀ other, Governs server ⟨true, [ascii "srv", ascii "a", ascii "b", ascii "f"]⟩
        (ascii "nodot") other ↔ other = result) ∧
      ∀ outcome, Returns server ⟨true, [ascii "srv", ascii "a", ascii "b", ascii "f"]⟩
        (ascii "nodot") outcome ↔ outcome = .ok result := by
  intro server
  refine getOption_nearest server _ _ (by decide) ⟨rfl, ?_, by decide⟩
  exact ⟨[ascii "a", ascii "b", ascii "f"], rfl⟩

end HTTP.ServerOptions

end Algiz
