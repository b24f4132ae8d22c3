/-
  The options of `HTTP::Server`: those it was started with, and the `.algiz` files in the tree of
  directories that it serves.

  `nlohmann::json::parse` is a parameter. `crawlConfigs` reads every `.algiz` file below the web
  root once, under the path of its directory as the crawl spells it; `getOption` looks for those
  paths from the parent of a path upwards (`crawlConfigs_spec`, `optionFrom_spec`).
-/
import Algiz.Lib.FileTree
import Algiz.Lib.Map
import Algiz.Bytes
import Algiz.Net.Connection

namespace Algiz

open Lib

/-! ## Files -/

/-- A file, with what `stat` says of it. -/
structure File where
  content : Bytes
  /-- can it be opened for reading? -/
  readable : Bool := true
  /-- the time of its last change, and how `setLastModified` writes it -/
  writeTime : Int := 0
  writeTimeText : Bytes := []
  ownerExec : Bool := false
  groupExec : Bool := false
  othersExec : Bool := false
  selfOwns : Bool := false
  groupOwns : Bool := false
  deriving DecidableEq

/-- `canExecute`, from the permissions of the file. -/
def File.canExecute (f : File) : Bool :=
  if f.ownerExec && f.groupExec && f.othersExec then true
  else if !(f.ownerExec || f.groupExec || f.othersExec) then false
  else if f.selfOwns then f.ownerExec
  else if f.groupOwns then f.groupExec
  else f.othersExec

/-- The loop of `isSubpath`. -/
def isSubpathFrom (base : Path) : Nat → Path → Bool
  | 0, _ => false
  | fuel + 1, toCheck =>
    if toCheck ≠ Path.root ∧ toCheck.isEmpty = false then
      if toCheck = base then true else isSubpathFrom base fuel toCheck.parentPath
    else false

/-- `isSubpath` -/
def isSubpath (base toCheck : Path) : Bool :=
  base = toCheck || isSubpathFrom base (toCheck.names.length + 1) toCheck

/-- A value of `nlohmann::json`. -/
inductive Json where
  | null
  | boolean (b : Bool)
  | number (n : Int)
  | string (s : Bytes)
  | array (items : List Json)
  | object (fields : List (Bytes × Json))

/-- The exceptions of `nlohmann::json`. -/
inductive JsonError where
  | outOfRange | typeError
  deriving DecidableEq

namespace Json

/-- The value of a key; `contains` asks whether there is one. -/
def find (key : Bytes) : Json → Option Json
  | object fields => (fields.find? fun field => field.1 = key).map Prod.snd
  | _ => none

/-- `at(key)` -/
def valueAt (key : Bytes) : Json → Except JsonError Json
  | object fields =>
    match find key (object fields) with
    | some value => .ok value
    | none => .error .outOfRange
  | _ => .error .typeError

theorem valueAt_of_find {key : Bytes} {json value : Json} (h : json.find key = some value) :
    json.valueAt key = .ok value := by
  cases json with
  | object fields =>
    show (match find key (object fields) with
      | some value => Except.ok value
      | none => .error JsonError.outOfRange) = .ok value
    rw [h]
  | _ => exact nomatch h

/-- The conversion to `std::string`. -/
def getString : Json → Except JsonError Bytes
  | string s => .ok s
  | _ => .error .typeError

/-- `get<bool>()` -/
def getBool : Json → Except JsonError Bool
  | boolean b => .ok b
  | _ => .error .typeError

end Json

namespace HTTP

/-- What has been read from `.algiz` files, by directory. -/
abbrev Configs := Map Path Json

/-- The options of `HTTP::Server`. -/
structure ServerOptions where
  webRoot : Path
  options : Json
  configs : Configs

/-! ## Crawling -/

/-- `.algiz` -/
def configName : Name := ascii ".algiz"

/-- `entry.path()`, for an entry of a directory that is iterated over. -/
def entryPath (base : Path) (name : Name) : Path := base.append ⟨false, [name]⟩

section Crawl

variable (parse : Bytes → Option Json)

/-- The branch of `crawlConfigs` for what is no directory; `none` if the file cannot be read, which
    is not caught. -/
def readConfig (base entry : Path) (f : File) (configs : Configs) : Option Configs :=
  if entry.filename ≠ configName then some configs
  else if !f.readable then none
  else match parse f.content with
    | none => some configs
    | some config => some (configs.emplace base config)

mutual

/-- `crawlConfigs(base, map)` -/
def crawl (base : Path) : Node File → Configs → Option Configs
  | .file _, _ => none
  | .dir entries, configs => crawlEntries base entries configs

/-- Its loop over the entries of the directory. -/
def crawlEntries (base : Path) : List (Name × Node File) → Configs → Option Configs
  | [], configs => some configs
  | (name, .file f) :: entries, configs =>
    (readConfig parse base (entryPath base name) f configs).bind (crawlEntries base entries)
  | (name, .dir below) :: entries, configs =>
    (crawl (entryPath base name) (.dir below) configs).bind (crawlEntries base entries)

end

/-- `crawlConfigs(base)` -/
def crawlConfigs (fs : FileSystem File) (base : Path) : Option Configs :=
  (fs.find base).bind fun node => crawl parse base node fun _ => none

end Crawl

/-- `Server::getWebRoot`; `std::filesystem::absolute` puts the working directory before a relative
    path. -/
def getWebRoot (workingDirectory : Path) (webRoot : Bytes) : Path :=
  (workingDirectory.append
    (Path.ofBytes (if webRoot.isEmpty then ascii "./www" else webRoot))).lexicallyNormal

/-- The root that the options set: `options.contains("root")? options.at("root") : ""`. -/
def rootSetting (options : Json) : Except JsonError Bytes :=
  match options.find (ascii "root") with
  | some setting => setting.getString
  | none => .ok []

/-- What the constructor of `Server` sets up; `none` if it throws. -/
def startServer (parse : Bytes → Option Json) (fs : FileSystem File) (workingDirectory : Path)
    (options : Json) : Option ServerOptions :=
  match rootSetting options with
  | .error _ => none
  | .ok setting =>
    let webRoot := getWebRoot workingDirectory setting
    (crawlConfigs parse fs webRoot).map fun configs => { webRoot, options, configs }

/-! ## Looking up -/

namespace ServerOptions

/-- The loop of `getOption`, from a directory upwards. -/
def optionFrom (server : ServerOptions) (name : Bytes) : Nat → Path → Option Json
  | 0, _ => server.options.find name
  | fuel + 1, dir =>
    match (server.configs dir).bind (Json.find name) with
    | some value => some value
    | none =>
      if dir = server.webRoot then server.options.find name
      else if dir.parentPath = ⟨dir.absolute, []⟩ then server.options.find name
      else optionFrom server name fuel dir.parentPath

/-- `getOption(path, name)` -/
def getOption (server : ServerOptions) (path : Path) (name : Bytes) :
    Except Exception (Option Json) :=
  if !isSubpath server.webRoot path then
    .error (.invalidArgument (ascii "Not a subpath of the webroot (" ++ server.webRoot.toBytes ++
      ascii "): " ++ path.toBytes))
  else .ok (server.optionFrom name (path.names.length + 1) path.parentPath)

/-- `getOption<bool>(path, name)` -/
def getBoolOption (server : ServerOptions) (path : Path) (name : Bytes) :
    Except Exception (Option Bool) :=
  match server.getOption path name with
  | .error e => .error e
  | .ok none => .ok none
  | .ok (some value) =>
    match value.getBool with
    | .error _ => .error .other
    | .ok b => .ok (some b)

end ServerOptions

/-! ## What is looked up -/

section Lookup

theorem isSubpathFrom_iff {base : Path} {fuel : Nat} {toCheck : Path}
    (hfuel : toCheck.names.length < fuel) :
    isSubpathFrom base fuel toCheck = true ↔
      base.absolute = toCheck.absolute ∧ base.names ≠ [] ∧ base.names <+: toCheck.names := by
  induction fuel generalizing toCheck with
  | zero => omega
  | succ fuel ih =>
    unfold isSubpathFrom
    by_cases hnil : toCheck.names = []
    · -- the root directory, or the empty path
      rw [if_neg]
      · refine iff_of_false Bool.false_ne_true fun ⟨_, hne, hbegins⟩ => hne ?_
        rw [hnil] at hbegins
        exact List.prefix_nil.mp hbegins
      · rintro ⟨hroot, hempty⟩
        obtain ⟨absolute, names⟩ := toCheck
        dsimp only at hnil
        subst hnil
        cases absolute
        · exact nomatch hempty
        · exact hroot rfl
    · obtain ⟨front, last, hfront⟩ := List.eq_nil_or_concat' toCheck.names |>.resolve_left hnil
      have hgo : toCheck ≠ Path.root ∧ toCheck.isEmpty = false := by
        refine ⟨fun hroot => hnil (congrArg Path.names hroot), ?_⟩
        unfold Path.isEmpty
        rw [List.isEmpty_eq_false_iff.mpr hnil, Bool.and_false]
      have hparent : toCheck.parentPath = ⟨toCheck.absolute, front⟩ := by
        unfold Path.parentPath
        rw [hfront, List.dropLast_concat]
      have hlength : front.length < fuel := by
        rw [hfront, List.length_append, List.length_singleton] at hfuel
        omega
      rw [if_pos hgo, hparent]
      split
      · rename_i heq
        subst heq
        exact iff_of_true rfl ⟨rfl, hnil, List.prefix_refl _⟩
      · rename_i hne
        rw [ih hlength, hfront, List.prefix_concat_iff]
        constructor
        · rintro ⟨habsolute, hbase, hbegins⟩
          exact ⟨habsolute, hbase, .inr hbegins⟩
        · rintro ⟨habsolute, hbase, heq | hbegins⟩
          · refine absurd ?_ hne
            obtain ⟨a, n⟩ := toCheck
            obtain ⟨a', n'⟩ := base
            dsimp only at habsolute heq hfront
            rw [habsolute, heq, hfront]
          · exact ⟨habsolute, hbase, hbegins⟩

/-- A path is a subpath of itself and of every directory on its way but the root directory. -/
theorem isSubpath_iff {base toCheck : Path} :
    isSubpath base toCheck = true ↔ base = toCheck ∨
      (base.absolute = toCheck.absolute ∧ base.names ≠ [] ∧ base.names <+: toCheck.names) := by
  unfold isSubpath
  rw [Bool.or_eq_true, decide_eq_true_iff, isSubpathFrom_iff (Nat.lt_succ_self _)]

/-- The names of a path begin with those of a path that it is below. -/
theorem isSubpath_names {base toCheck : Path} (h : isSubpath base toCheck = true) :
    base.absolute = toCheck.absolute ∧ base.names <+: toCheck.names := by
  rcases isSubpath_iff.mp h with rfl | ⟨habsolute, -, hbegins⟩
  · exact ⟨rfl, List.prefix_refl _⟩
  · exact ⟨habsolute, hbegins⟩

variable {server : ServerOptions} {name : Bytes}

/-- Looking up from a directory below the web root: the nearest directory that has the option. -/
theorem optionFrom_spec {fuel : Nat} {rest : List Name} (hfuel : rest.length < fuel)
    (hroot : server.webRoot.names ≠ [] ∨ rest = []) :
    server.optionFrom name fuel ⟨server.webRoot.absolute, server.webRoot.names ++ rest⟩ =
      (upward (fun names =>
        (server.configs ⟨server.webRoot.absolute, server.webRoot.names ++ names⟩).bind
          (Json.find name)) rest).or (server.options.find name) := by
  induction rest using List.reverseRecOn generalizing fuel with
  | nil =>
    obtain ⟨fuel, rfl⟩ := Nat.exists_eq_succ_of_ne_zero (Nat.ne_of_gt hfuel)
    unfold ServerOptions.optionFrom
    rw [upward_nil, List.append_nil]
    split
    · rename_i value hvalue
      rw [hvalue]
      rfl
    · rename_i hnone
      rw [hnone, if_pos rfl]
      rfl
  | append_singleton front last ih =>
    obtain ⟨fuel, rfl⟩ := Nat.exists_eq_succ_of_ne_zero (Nat.ne_of_gt (Nat.zero_lt_of_lt hfuel))
    rw [List.length_append, List.length_singleton] at hfuel
    have hnames := hroot.resolve_right (List.append_ne_nil_of_right_ne_nil _ (List.cons_ne_nil _ _))
    unfold ServerOptions.optionFrom
    rw [upward_concat]
    split
    · rename_i value hvalue
      rw [hvalue]
      rfl
    · rename_i hnone
      have hparent : Path.parentPath ⟨server.webRoot.absolute,
          server.webRoot.names ++ (front ++ [last])⟩ =
          ⟨server.webRoot.absolute, server.webRoot.names ++ front⟩ := by
        unfold Path.parentPath
        rw [← List.append_assoc, List.dropLast_concat]
      have hnotRoot : (⟨server.webRoot.absolute,
          server.webRoot.names ++ (front ++ [last])⟩ : Path) ≠ server.webRoot := by
        intro heq
        have hlength := congrArg (fun p : Path => p.names.length) heq
        simp at hlength
      have hnotTop : (⟨server.webRoot.absolute, server.webRoot.names ++ front⟩ : Path) ≠
          ⟨server.webRoot.absolute, []⟩ := fun heq =>
        List.append_ne_nil_of_left_ne_nil hnames _ (congrArg Path.names heq)
      rw [hnone, Option.none_or, if_neg hnotRoot, hparent, if_neg hnotTop]
      exact ih (by omega) (.inl hnames)

/-- Where no directory on the way up has a configuration, the server's own options count. -/
theorem optionFrom_none {fuel : Nat} {dir : Path}
    (h : ∀ names, names <+: dir.names → server.configs ⟨dir.absolute, names⟩ = none) :
    server.optionFrom name fuel dir = server.options.find name := by
  induction fuel generalizing dir with
  | zero => rfl
  | succ fuel ih =>
    unfold ServerOptions.optionFrom
    rw [h dir.names (List.prefix_refl _)]
    dsimp only [Option.bind]
    split
    · rfl
    · split
      · rfl
      · exact ih fun names hbegins => h names (hbegins.trans (List.dropLast_prefix _))

theorem getOption_eq_ok {path : Path} {value : Option Json} :
    server.getOption path name = .ok value ↔ isSubpath server.webRoot path = true ∧
      value = server.optionFrom name (path.names.length + 1) path.parentPath := by
  unfold ServerOptions.getOption
  cases isSubpath server.webRoot path with
  | false => simp
  | true => simp [eq_comm]

/-- An option that is read as a Boolean is one. -/
theorem getBoolOption_eq_ok {path : Path} {b : Option Bool}
    (h : server.getBoolOption path name = .ok b) :
    ∃ value, server.getOption path name = .ok value ∧ value = b.map .boolean := by
  unfold ServerOptions.getBoolOption at h
  split at h
  · exact nomatch h
  · rename_i hnone
    obtain rfl := Except.ok.inj h
    exact ⟨none, hnone, rfl⟩
  · rename_i value hvalue
    cases value with
    | boolean b =>
      obtain rfl := Except.ok.inj h
      exact ⟨_, hvalue, rfl⟩
    | _ => exact nomatch h

end Lookup

/-! ## What the crawl finds -/

section Found

variable {parse : Bytes → Option Json}

/-- The configuration in a directory. -/
def configOf (parse : Bytes → Option Json) : Node File → Option Json
  | .file _ => none
  | .dir entries => (Node.entry configName entries).bind fun node =>
      node.file?.bind fun f => parse f.content

theorem configOf_eq_some {node : Node File} {config : Json}
    (h : configOf parse node = some config) :
    ∃ entries f, node = .dir entries ∧ Node.entry configName entries = some (.file f) ∧
      parse f.content = some config := by
  cases node with
  | file f => exact nomatch h
  | dir entries =>
    obtain ⟨found, hfound, hread⟩ := Option.bind_eq_some_iff.mp h
    obtain ⟨f, hf, hparse⟩ := Option.bind_eq_some_iff.mp hread
    cases found with
    | dir below => exact nomatch hf
    | file g =>
      obtain rfl := Option.some.inj hf
      exact ⟨entries, g, rfl, hfound, hparse⟩

/-- The configurations that a crawl comes across: in the directory, and below it. -/
inductive Crawled (parse : Bytes → Option Json) : Path → Node File → Path → Json → Prop
  | here (base : Path) (entries : List (Name × Node File)) (f : File) (config : Json)
      (hmem : (configName, .file f) ∈ entries) (hparse : parse f.content = some config) :
      Crawled parse base (.dir entries) base config
  | deeper (base : Path) (entries : List (Name × Node File)) (name : Name) (node : Node File)
      (dir : Path) (config : Json) (hmem : (name, node) ∈ entries)
      (h : Crawled parse (entryPath base name) node dir config) :
      Crawled parse base (.dir entries) dir config

theorem entryPath_filename (base : Path) (name : Name) : (entryPath base name).filename = name := by
  unfold entryPath Path.append Path.filename
  dsimp only
  rw [if_neg Bool.false_ne_true, if_neg (List.cons_ne_nil name [])]
  split <;> simp

theorem readConfig_sound {base : Path} {name : Name} {f : File} {configs configs' : Configs}
    (h : readConfig parse base (entryPath base name) f configs = some configs') {dir : Path}
    {config : Json} (hdir : configs' dir = some config) :
    configs dir = some config ∨
      (name = configName ∧ parse f.content = some config ∧ dir = base) := by
  unfold readConfig at h
  rw [entryPath_filename] at h
  split at h
  · obtain rfl := Option.some.inj h
    exact .inl hdir
  rename_i hname
  split at h
  · exact nomatch h
  split at h
  · obtain rfl := Option.some.inj h
    exact .inl hdir
  · rename_i read hparse
    obtain rfl := Option.some.inj h
    unfold Map.emplace at hdir
    split at hdir
    · exact .inl hdir
    · obtain rfl | hne := eq_or_ne dir base
      · rw [Map.set_self] at hdir
        exact .inr ⟨not_not.mp hname, hparse.trans hdir, rfl⟩
      · rw [Map.set_of_ne configs hne] at hdir
        exact .inl hdir

theorem readConfig_keeps {base : Path} {entry : Path} {f : File} {configs configs' : Configs}
    (h : readConfig parse base entry f configs = some configs') {dir : Path}
    (hdir : (configs dir).isSome = true) : (configs' dir).isSome = true := by
  unfold readConfig at h
  split at h
  · obtain rfl := Option.some.inj h
    exact hdir
  split at h
  · exact nomatch h
  split at h
  · obtain rfl := Option.some.inj h
    exact hdir
  · obtain rfl := Option.some.inj h
    unfold Map.emplace
    split
    · exact hdir
    · obtain rfl | hne := eq_or_ne dir base
      · rw [Map.set_self]
        rfl
      · rwa [Map.set_of_ne configs hne]

theorem readConfig_finds {base : Path} {f : File} {configs configs' : Configs} {config : Json}
    (h : readConfig parse base (entryPath base configName) f configs = some configs')
    (hparse : parse f.content = some config) : (configs' base).isSome = true := by
  unfold readConfig at h
  rw [entryPath_filename, if_neg (not_not.mpr rfl), hparse] at h
  split at h
  · exact nomatch h
  · obtain rfl := Option.some.inj h
    unfold Map.emplace
    split
    · assumption
    · rw [Map.set_self]
      rfl

mutual

/-- Whatever is in the map was there before, or the crawl came across it. -/
theorem crawl_sound (base : Path) (node : Node File) {configs configs' : Configs}
    (h : crawl parse base node configs = some configs') {dir : Path} {config : Json}
    (hdir : configs' dir = some config) :
    configs dir = some config ∨ Crawled parse base node dir config := by
  cases node with
  | file f => exact nomatch h
  | dir entries =>
    rw [crawl] at h
    exact (crawlEntries_sound base entries h hdir).imp_right fun hcrawled =>
      hcrawled entries (List.Subset.refl _)

theorem crawlEntries_sound (base : Path) (entries : List (Name × Node File))
    {configs configs' : Configs} (h : crawlEntries parse base entries configs = some configs')
    {dir : Path} {config : Json} (hdir : configs' dir = some config) :
    configs dir = some config ∨
      ∀ all, entries ⊆ all → Crawled parse base (.dir all) dir config := by
  cases entries with
  | nil =>
    rw [crawlEntries] at h
    obtain rfl := Option.some.inj h
    exact .inl hdir
  | cons e entries =>
    obtain ⟨name, node⟩ := e
    cases node with
    | file f =>
      rw [crawlEntries] at h
      obtain ⟨read, hread, hrest⟩ := Option.bind_eq_some_iff.mp h
      rcases crawlEntries_sound base entries hrest hdir with hbefore | hcrawled
      · refine (readConfig_sound hread hbefore).imp_right ?_
        rintro ⟨rfl, hparse, rfl⟩ all hall
        exact .here _ _ f config (hall List.mem_cons_self) hparse
      · exact .inr fun all hall => hcrawled all (List.subset_of_cons_subset hall)
    | dir below =>
      rw [crawlEntries] at h
      obtain ⟨read, hread, hrest⟩ := Option.bind_eq_some_iff.mp h
      rcases crawlEntries_sound base entries hrest hdir with hbefore | hcrawled
      · refine (crawl_sound _ (.dir below) hread hbefore).imp_right fun hcrawled all hall => ?_
        exact .deeper _ _ name _ dir config (hall List.mem_cons_self) hcrawled
      · exact .inr fun all hall => hcrawled all (List.subset_of_cons_subset hall)

end

/-- What the loop does with one entry. -/
def visit (parse : Bytes → Option Json) (base : Path) (name : Name) :
    Node File → Configs → Option Configs
  | .file f, configs => readConfig parse base (entryPath base name) f configs
  | .dir entries, configs => crawl parse (entryPath base name) (.dir entries) configs

theorem crawlEntries_cons (base : Path) (name : Name) (node : Node File)
    (entries : List (Name × Node File)) (configs : Configs) :
    crawlEntries parse base ((name, node) :: entries) configs =
      (visit parse base name node configs).bind (crawlEntries parse base entries) := by
  cases node <;> rfl

/-- Is every directory that is in the first map in the second? -/
def Keeps (configs configs' : Configs) : Prop :=
  ∀ dir, (configs dir).isSome = true → (configs' dir).isSome = true

mutual

theorem crawl_keeps (base : Path) (node : Node File) {configs configs' : Configs}
    (h : crawl parse base node configs = some configs') : Keeps configs configs' := by
  cases node with
  | file f => exact nomatch h
  | dir entries =>
    rw [crawl] at h
    exact crawlEntries_keeps base entries h

theorem crawlEntries_keeps (base : Path) (entries : List (Name × Node File))
    {configs configs' : Configs} (h : crawlEntries parse base entries configs = some configs') :
    Keeps configs configs' := by
  cases entries with
  | nil =>
    rw [crawlEntries] at h
    obtain rfl := Option.some.inj h
    exact fun _ hdir => hdir
  | cons e entries =>
    obtain ⟨name, node⟩ := e
    cases node with
    | file f =>
      rw [crawlEntries] at h
      obtain ⟨read, hread, hrest⟩ := Option.bind_eq_some_iff.mp h
      exact fun dir hdir => crawlEntries_keeps base entries hrest dir (readConfig_keeps hread hdir)
    | dir below =>
      rw [crawlEntries] at h
      obtain ⟨read, hread, hrest⟩ := Option.bind_eq_some_iff.mp h
      exact fun dir hdir =>
        crawlEntries_keeps base entries hrest dir (crawl_keeps _ (.dir below) hread dir hdir)

end

/-- Every entry has its turn, and what it brings stays. -/
theorem crawlEntries_visits {base : Path} {entries : List (Name × Node File)} {name : Name}
    {node : Node File} (hmem : (name, node) ∈ entries) {configs configs' : Configs}
    (h : crawlEntries parse base entries configs = some configs') :
    ∃ before after, visit parse base name node before = some after ∧ Keeps after configs' := by
  induction entries generalizing configs with
  | nil => exact absurd hmem List.not_mem_nil
  | cons e entries ih =>
    obtain ⟨other, next⟩ := e
    rw [crawlEntries_cons] at h
    obtain ⟨read, hread, hrest⟩ := Option.bind_eq_some_iff.mp h
    rcases List.mem_cons.mp hmem with heq | hmem
    · obtain ⟨rfl, rfl⟩ := Prod.mk.inj heq
      exact ⟨configs, read, hread, crawlEntries_keeps base entries hrest⟩
    · exact ih hmem hrest

/-- What the crawl comes across is in the map. -/
theorem crawl_complete {base dir : Path} {node : Node File} {config : Json}
    (hcrawled : Crawled parse base node dir config) {configs configs' : Configs}
    (h : crawl parse base node configs = some configs') : (configs' dir).isSome = true := by
  induction hcrawled generalizing configs configs' with
  | here base entries f config hmem hparse =>
    rw [crawl] at h
    obtain ⟨before, after, hvisit, hkeeps⟩ := crawlEntries_visits hmem h
    exact hkeeps base (readConfig_finds hvisit hparse)
  | deeper base entries name node dir config hmem hdeeper ih =>
    rw [crawl] at h
    obtain ⟨before, after, hvisit, hkeeps⟩ := crawlEntries_visits hmem h
    cases node with
    | file f => exact nomatch hdeeper
    | dir entries => exact hkeeps dir (ih hvisit)

/-- The configurations in a directory and below it, by location. -/
theorem crawled_iff {base dir : Path} {node : Node File} {config : Json} (hnode : node.WellFormed) :
    Crawled parse base node dir config ↔
      ∃ rest, dir = base.below rest ∧ (node.get rest).bind (configOf parse) = some config := by
  constructor
  · intro hcrawled
    induction hcrawled with
    | here base entries f config hmem hparse =>
      cases hnode with
      | dir _ unique named below =>
        refine ⟨[], rfl, ?_⟩
        show (Node.entry configName entries).bind _ = some config
        rw [entry_of_mem unique hmem]
        exact hparse
    | deeper base entries name node dir config hmem hdeeper ih =>
      cases hnode with
      | dir _ unique named below =>
        obtain ⟨rest, rfl, hget⟩ := ih (below _ hmem)
        have hname : name ≠ [] := (named _ hmem).1.1
        refine ⟨name :: rest, ?_, ?_⟩
        · show (base.append ⟨false, [name]⟩).below rest = _
          rw [append_name, below_below base hname]
        · show ((Node.entry name entries).bind (Node.get rest)).bind _ = some config
          rw [entry_of_mem unique hmem]
          exact hget
  · rintro ⟨rest, rfl, hget⟩
    induction rest generalizing base node with
    | nil =>
      obtain ⟨entries, f, rfl, hentry, hparse⟩ := configOf_eq_some hget
      exact .here base entries f config (mem_of_entry hentry) hparse
    | cons name rest ih =>
      cases hnode with
      | file f => exact nomatch hget
      | dir entries unique named below =>
        obtain ⟨there, hthere, hconfig⟩ := Option.bind_eq_some_iff.mp hget
        obtain ⟨next, hnext, hrest⟩ := Option.bind_eq_some_iff.mp hthere
        have hmem := mem_of_entry hnext
        have hname : name ≠ [] := (named _ hmem).1.1
        have hread : (next.get rest).bind (configOf parse) = some config := by
          rw [hrest]
          exact hconfig
        have hdeeper : Crawled parse (base.below [name]) next ((base.below [name]).below rest)
            config := ih (below _ hmem) hread
        rw [below_below base hname, ← append_name] at hdeeper
        exact .deeper base entries name next _ config hmem hdeeper

/-- Only a directory is crawled. -/
theorem crawlConfigs_directory {fs : FileSystem File} {base : Path} {configs : Configs}
    (h : crawlConfigs parse fs base = some configs) :
    ∃ entries, fs.find base = some (.dir entries) := by
  obtain ⟨node, hfind, hcrawl⟩ := Option.bind_eq_some_iff.mp h
  cases node with
  | file f => exact nomatch hcrawl
  | dir entries => exact ⟨entries, hfind⟩

/-- The configuration of a directory that was crawled can be read. -/
theorem crawlConfigs_readable {fs : FileSystem File} {base : Path} {configs : Configs}
    {entries : List (Name × Node File)} {f : File} (h : crawlConfigs parse fs base = some configs)
    (hfind : fs.find base = some (.dir entries)) (hmem : (configName, .file f) ∈ entries) :
    f.readable = true := by
  unfold crawlConfigs at h
  rw [hfind] at h
  have hcrawl : crawlEntries parse base entries (fun _ => none) = some configs := h
  obtain ⟨before, after, hvisit, -⟩ := crawlEntries_visits hmem hcrawl
  have hread : readConfig parse base (entryPath base configName) f before = some after := hvisit
  unfold readConfig at hread
  rw [entryPath_filename, if_neg (not_not.mpr rfl)] at hread
  cases hreadable : f.readable with
  | true => rfl
  | false =>
    rw [hreadable] at hread
    exact nomatch hread

/-- The map holds the configuration of every directory below the base, and nothing else. -/
theorem crawlConfigs_spec {fs : FileSystem File} {base dir : Path} {node : Node File}
    {configs : Configs} {config : Json} (h : crawlConfigs parse fs base = some configs)
    (hfind : fs.find base = some node) :
    configs dir = some config ↔
      ∃ rest, dir = base.below rest ∧ (node.get rest).bind (configOf parse) = some config := by
  have hcrawl : crawl parse base node (fun _ => none) = some configs := by
    unfold crawlConfigs at h
    rw [hfind] at h
    exact h
  have hnode : node.WellFormed := by
    obtain ⟨location, -, hget⟩ := Option.bind_eq_some_iff.mp hfind
    exact (fs.wellFormed.get hget).1
  -- names at a location are not empty
  have hnames : ∀ rest config, (node.get rest).bind (configOf parse) = some config →
      ∀ name ∈ rest, name ≠ [] := by
    intro rest config hget name hname
    obtain ⟨there, hthere, -⟩ := Option.bind_eq_some_iff.mp hget
    exact ((hnode.get hthere).2 name hname).1.1
  constructor
  · intro hdir
    rcases crawl_sound base node hcrawl hdir with hnone | hcrawled
    · exact nomatch hnone
    · exact (crawled_iff hnode).mp hcrawled
  · rintro ⟨rest, rfl, hget⟩
    have hsome := crawl_complete ((crawled_iff hnode).mpr ⟨rest, rfl, hget⟩) hcrawl
    obtain ⟨other, hother⟩ := Option.isSome_iff_exists.mp hsome
    rcases crawl_sound base node hcrawl hother with hnone | hcrawled
    · exact nomatch hnone
    · obtain ⟨rest', hbelow, hget'⟩ := (crawled_iff hnode).mp hcrawled
      obtain rfl := below_injective (hnames _ _ hget) (hnames _ _ hget') hbelow
      rw [hother, ← hget, hget']

/-! ## Looking up what was crawled -/

/-- The value of an option for the files in a directory, that is some names below `top`: that of
    the nearest configuration from there up to `top`, or else that of the server. -/
def governing (parse : Bytes → Option Json) (fs : FileSystem File) (options : Json) (name : Bytes)
    (top dir : List Name) : Option Json :=
  (upward (fun names => ((fs.tree.get (top ++ names)).bind (configOf parse)).bind (Json.find name))
    dir).or (options.find name)

/-- The configuration of what is below the base is that of its location. -/
theorem configs_below {fs : FileSystem File} {base : Path} {configs : Configs}
    {top names : List Name} (h : crawlConfigs parse fs base = some configs)
    (hresolve : fs.resolve base = some top) (hnames : ∀ name ∈ names, name ≠ []) :
    configs (base.below names) = (fs.tree.get (top ++ names)).bind (configOf parse) := by
  obtain ⟨entries, hfind⟩ := crawlConfigs_directory h
  have htree : fs.tree.get top = some (.dir entries) := by
    unfold FileSystem.find at hfind
    rw [hresolve] at hfind
    exact hfind
  have hget : ∀ names, fs.tree.get (top ++ names) = Node.get names (.dir entries) := by
    intro names
    rw [get_append, htree]
    rfl
  apply Option.ext
  intro config
  rw [crawlConfigs_spec h hfind, hget]
  constructor
  · rintro ⟨rest, heq, hconfig⟩
    obtain ⟨node, hnode, -⟩ := Option.bind_eq_some_iff.mp hconfig
    have hrest : ∀ name ∈ rest, name ≠ [] := fun name hname =>
      ((fs.wellFormed.get ((hget rest).trans hnode)).2 name (List.mem_append_right _ hname)).1.1
    rwa [below_injective hnames hrest heq]
  · exact fun hconfig => ⟨names, rfl, hconfig⟩

variable {fs : FileSystem File} {server : ServerOptions} {name : Bytes} {top dir more : List Name}
  {fuel : Nat}

/-- Where the web root is set without a slash at its end, looking up from a directory finds what
    governs it. Names from a NUL on are those of no directory. -/
theorem optionFrom_crawled (h : crawlConfigs parse fs server.webRoot = some server.configs)
    (hresolve : fs.resolve server.webRoot = some top) (htop : top = server.webRoot.names)
    (hunslashed : Path.unslashed server.webRoot.names = server.webRoot.names)
    (hroot : top ≠ [] ∨ dir ++ more = []) (hnames : ∀ name ∈ dir ++ more, name ≠ [])
    (hmore : ∀ name ∈ more.head?, 0 ∈ name) (hfuel : (dir ++ more).length < fuel) :
    server.optionFrom name fuel ⟨server.webRoot.absolute, top ++ (dir ++ more)⟩ =
      governing parse fs server.options name top dir := by
  have hconfigs : ∀ front, front <+: dir ++ more →
      (server.configs ⟨server.webRoot.absolute, server.webRoot.names ++ front⟩).bind
        (Json.find name) =
      ((fs.tree.get (top ++ front)).bind (configOf parse)).bind (Json.find name) := by
    intro front hfront
    have hbelow : server.webRoot.below front =
        ⟨server.webRoot.absolute, server.webRoot.names ++ front⟩ := by
      unfold Path.below
      split
      · rename_i hnil
        rw [hnil, List.append_nil]
      · rw [hunslashed]
    rw [← hbelow, configs_below h hresolve fun n hn => hnames n (hfront.subset hn)]
  have hnothing : ∀ front, front ≠ [] → front <+: more →
      ((fs.tree.get (top ++ (dir ++ front))).bind (configOf parse)).bind (Json.find name) =
        none := by
    intro front hne hfront
    cases hget : fs.tree.get (top ++ (dir ++ front)) with
    | none => rfl
    | some node =>
      obtain ⟨first, rest, rfl⟩ := List.exists_cons_of_ne_nil hne
      obtain ⟨others, rfl⟩ := hfront
      have hmem : first ∈ top ++ (dir ++ first :: rest) := by simp
      exact absurd (hmore first rfl) ((fs.wellFormed.get hget).2 first hmem).2.1
  rw [htop, optionFrom_spec hfuel (htop ▸ hroot), upward_congr hconfigs,
    upward_append more hnothing]
  subst htop
  rfl

/-- Where it is set with a slash, looking up from the root directory finds no configuration. -/
theorem optionFrom_slashed (h : crawlConfigs parse fs server.webRoot = some server.configs)
    (hslash : server.webRoot.names = Path.unslashed server.webRoot.names ++ [[]]) :
    server.optionFrom name fuel ⟨server.webRoot.absolute, Path.unslashed server.webRoot.names⟩ =
      server.options.find name := by
  obtain ⟨entries, hfind⟩ := crawlConfigs_directory h
  apply optionFrom_none
  intro names hnames
  by_contra hsome
  obtain ⟨config, hconfig⟩ := Option.ne_none_iff_exists'.mp hsome
  obtain ⟨rest, heq, -⟩ := (crawlConfigs_spec h hfind).mp hconfig
  have hle : names.length ≤ (Path.unslashed server.webRoot.names).length := hnames.length_le
  have hbelow : names = (server.webRoot.below rest).names := congrArg Path.names heq
  have hlength := congrArg List.length hbelow
  unfold Path.below at hlength
  split at hlength
  · rw [hslash, List.length_append, List.length_singleton] at hlength
    omega
  · rename_i hne
    have hpos := List.length_pos_iff.mpr hne
    rw [List.length_append] at hlength
    omega

/-! ## Starting -/

/-- A web root is in normal form. -/
theorem getWebRoot_normal {workingDirectory : Path} (h : workingDirectory.absolute = true)
    (setting : Bytes) : (getWebRoot workingDirectory setting).Normal :=
  lexicallyNormal_normal (append_absolute h)

theorem startServer_eq_some {fs : FileSystem File} {workingDirectory : Path} {options : Json}
    {server : ServerOptions} (h : startServer parse fs workingDirectory options = some server) :
    server.options = options ∧ crawlConfigs parse fs server.webRoot = some server.configs ∧
      ∃ setting, server.webRoot = getWebRoot workingDirectory setting := by
  unfold startServer at h
  split at h
  · exact nomatch h
  · rename_i setting _
    obtain ⟨configs, hcrawl, rfl⟩ := Option.map_eq_some_iff.mp h
    exact ⟨rfl, hcrawl, setting, rfl⟩

end Found

end HTTP

end Algiz
