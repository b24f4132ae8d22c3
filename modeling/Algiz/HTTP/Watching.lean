/-
  The watcher of `HTTP::Server`: configurations that change while the server runs.

  The constructor crawls the tree once and starts the watcher afterwards. From then on the watcher
  reports files that were modified, and for a `.algiz` file its thread reads the file and stores
  what it says (`addConfig`). The tree may change at any time, also between these two. Wahtwo is no
  part of the sources: its reports are events here, handled in any order, and `Reported` is what
  it has to report. As it reports nothing before it is started, that leaves out changes between the
  crawl and the start by which a configuration becomes new, or different from what was crawled.
  An exception from `addConfig` passes through it and ends the thread.

  Whatever was reported and handled, the server has what is in the file; and when nothing is left
  to handle, it is the server that a restart would give, provided that no configuration was taken
  away or broken since (`follows_files`).
-/
import Algiz.Lib.Transition
import Algiz.HTTP.Configs

namespace Algiz.HTTP

open Lib

/-! ## Reading and storing -/

/-- The `.algiz` file of a directory. -/
def configFile (fs : FileSystem File) (dir : Path) : Option File :=
  fs.regularFile (entryPath dir configName)

/-- `Server::addConfig` before it takes the lock: what was read, if it could be parsed. The outer
    `none` is an exception from `readFile`. -/
def readReported (parse : Bytes → Option Json) (fs : FileSystem File) (path : Path) :
    Option (Option Json) :=
  match fs.regularFile path with
  | none => none
  | some f => if f.readable then some (parse f.content) else none

/-- `Server::addConfig` under the lock. -/
def storeConfig (path : Path) (json : Json) (configs : Configs) : Configs :=
  (configs.erase path.parentPath).emplace path.parentPath json

/-! ## The server and the tree -/

/-- Where the watcher's thread stands. -/
inductive WatcherStage where
  /-- the tree was crawled, and nobody watches it yet -/
  | starting
  /-- between two reports, or between reading a configuration and storing it -/
  | running (handling : Option (Path × Json))
  /-- the thread has left its loop -/
  | ended

def WatcherStage.isStarting : WatcherStage → Bool
  | .starting => true
  | .running _ | .ended => false

/-- A server and the tree that it serves. -/
structure Watched where
  fs : FileSystem File
  server : ServerOptions
  stage : WatcherStage := .starting
  /-- modifications that the watcher has seen and that were not handled -/
  reports : List Path := []
  /-- all trees since the crawl -/
  trees : List (FileSystem File)

inductive WatchEvent where
  /-- the tree changes, and the watcher sees these modifications -/
  | change (fs : FileSystem File) (reports : List Path)
  /-- `watcher.emplace`, and the thread starts -/
  | watch
  /-- `onModify` is called for a path -/
  | report (path : Path)
  /-- the configuration that was read is stored -/
  | store

namespace Watched

variable (parse : Bytes → Option Json)

/-- One event; `none` if it cannot happen. -/
def step (s : Watched) : WatchEvent → Option Watched
  | .change fs reports =>
    if s.stage.isStarting && !reports.isEmpty then none
    else some { s with fs := fs, reports := s.reports ++ reports, trees := fs :: s.trees }
  | .watch =>
    match s.stage with
    | .starting => some { s with stage := .running none }
    | .running _ | .ended => none
  | .report path =>
    match s.stage with
    | .running none =>
      if path ∉ s.reports then none
      else if path.filename ≠ configName then some { s with reports := s.reports.erase path }
      else match readReported parse s.fs path with
        | none => some { s with stage := .ended }
        | some none => some { s with reports := s.reports.erase path }
        | some (some json) => some { s with
            reports := s.reports.erase path
            stage := .running (some (path, json)) }
    | .starting | .running (some _) | .ended => none
  | .store =>
    match s.stage with
    | .running (some (path, json)) => some { s with
        server.configs := storeConfig path json s.server.configs
        stage := .running none }
    | .starting | .running none | .ended => none

/-- When the constructor has crawled the tree. -/
def init (fs : FileSystem File) (server : ServerOptions) : Watched :=
  { fs := fs, server := server, trees := [fs] }

/-- A directory below the web root, as the crawl spells it. -/
def InRoot (webRoot dir : Path) : Prop :=
  ∃ rest, (∀ name ∈ rest, Plain name ∧ 0 ∉ name) ∧ dir = webRoot.below rest

/-- What the watcher has to report. -/
structure Reports (webRoot : Path) (fs fs' : FileSystem File) (reports : List Path) : Prop where
  /-- every configuration that is new, or says something else than before -/
  complete : ∀ dir f, InRoot webRoot dir → configFile fs' dir = some f →
    (configFile fs dir).map File.content = some f.content ∨ entryPath dir configName ∈ reports
  /-- configurations below the web root, spelled as the crawl spells them -/
  spelled : ∀ path ∈ reports, path.filename = configName →
    ∃ dir, InRoot webRoot dir ∧ path = entryPath dir configName

/-- The file of a directory said this at some time. -/
def Seen (trees : List (FileSystem File)) (dir : Path) (config : Json) : Prop :=
  ∃ fs ∈ trees, ∃ f, configFile fs dir = some f ∧ parse f.content = some config

/-- Is nothing left to handle? -/
def Quiet (s : Watched) : Prop := s.reports = [] ∧ ∀ handling, s.stage ≠ .running (some handling)

end Watched

/-! ## What the crawl has found -/

section Crawled

open Path

variable {parse : Bytes → Option Json} {fs : FileSystem File} {webRoot dir : Path}
  {rest top : List Name} {configs : Configs}

theorem unslashed_below (hrest : ∀ name ∈ rest, Plain name ∧ 0 ∉ name) :
    unslashed (webRoot.below rest).names = unslashed webRoot.names ++ rest := by
  rcases List.eq_nil_or_concat' rest with rfl | ⟨front, last, rfl⟩
  · rw [List.append_nil]
    rfl
  · have hlast := (hrest last (List.mem_append_right _ (List.mem_singleton_self _))).1.1
    rw [below_of_ne_nil _ (List.append_ne_nil_of_right_ne_nil _ (List.cons_ne_nil _ _)),
      ← List.append_assoc, unslashed_concat hlast]

theorem entryPath_below (hrest : ∀ name ∈ rest, Plain name ∧ 0 ∉ name) :
    entryPath (webRoot.below rest) configName =
      ⟨webRoot.absolute, unslashed webRoot.names ++ rest ++ [configName]⟩ := by
  have habsolute : (webRoot.below rest).absolute = webRoot.absolute := by
    unfold below
    split <;> rfl
  unfold entryPath
  rw [append_name, below_of_ne_nil _ (List.cons_ne_nil _ _), unslashed_below hrest, habsolute]

end Crawled

/-! ## One step -/

namespace Watched

section Step

open Path

variable {parse : Bytes → Option Json} {webRoot dir : Path} {s t : Watched}

/-- The configurations once the one that is being handled has been stored. -/
def stored (s : Watched) : Configs :=
  match s.stage with
  | .running (some (path, json)) => storeConfig path json s.server.configs
  | .starting | .running none | .ended => s.server.configs

/-- The server follows the files below its root. -/
structure Following (parse : Bytes → Option Json) (webRoot : Path) (s : Watched) : Prop where
  current : s.fs ∈ s.trees
  spelled : ∀ path ∈ s.reports, path.filename = configName →
    ∃ dir, InRoot webRoot dir ∧ path = entryPath dir configName
  handling : ∀ path json, s.stage = .running (some (path, json)) →
    ∃ dir, InRoot webRoot dir ∧ path = entryPath dir configName ∧ Seen parse s.trees dir json
  seen : ∀ dir config, s.server.configs dir = some config →
    InRoot webRoot dir ∧ Seen parse s.trees dir config
  followed : ∀ dir f config, InRoot webRoot dir → configFile s.fs dir = some f →
    parse f.content = some config → entryPath dir configName ∉ s.reports →
      s.stored dir = some config

theorem Seen.cons {trees : List (FileSystem File)} {config : Json}
    (h : Seen parse trees dir config) (fs : FileSystem File) :
    Seen parse (fs :: trees) dir config :=
  let ⟨fs', hmem, hfile⟩ := h
  ⟨fs', List.mem_cons_of_mem fs hmem, hfile⟩

theorem entryPath_parentPath (hslash : unslashed webRoot.names = webRoot.names)
    (hdir : InRoot webRoot dir) : (entryPath dir configName).parentPath = dir := by
  obtain ⟨rest, hrest, rfl⟩ := hdir
  rw [entryPath_below hrest]
  unfold parentPath
  rw [List.dropLast_concat, hslash]
  rcases eq_or_ne rest [] with rfl | hne
  · rw [List.append_nil]
    rfl
  · rw [below_of_ne_nil _ hne, hslash]

theorem storeConfig_apply (hslash : unslashed webRoot.names = webRoot.names)
    (hdir : InRoot webRoot dir) (json : Json) (configs : Configs) (other : Path) :
    storeConfig (entryPath dir configName) json configs other =
      if other = dir then some json else configs other := by
  unfold storeConfig
  rw [entryPath_parentPath hslash hdir, Map.emplace_of_none (Map.erase_self _ _)]
  split
  · rename_i heq
    rw [heq, Map.set_self]
  · rename_i hne
    rw [Map.set_of_ne _ hne, Map.erase_of_ne _ hne]

/-- The tree changes, and what the watcher has to report is reported. -/
theorem Following.change (h : s.Following parse webRoot) {fs : FileSystem File}
    {reports : List Path} (hreports : Reports webRoot s.fs fs reports) :
    ({ s with fs := fs, reports := s.reports ++ reports, trees := fs :: s.trees } :
      Watched).Following parse webRoot := by
  refine ⟨List.mem_cons_self, fun path hpath => ?_, fun path json hstage => ?_,
    fun dir config hconfig => ?_, fun dir f config hdir hfile hparse hnot => ?_⟩
  · rcases List.mem_append.mp hpath with hpath | hpath
    · exact h.spelled path hpath
    · exact hreports.spelled path hpath
  · obtain ⟨dir, hdir, hpath, hseen⟩ := h.handling path json hstage
    exact ⟨dir, hdir, hpath, hseen.cons fs⟩
  · obtain ⟨hdir, hseen⟩ := h.seen dir config hconfig
    exact ⟨hdir, hseen.cons fs⟩
  · rw [List.mem_append, not_or] at hnot
    rcases hreports.complete dir f hdir hfile with hsame | hreported
    · -- the file said the same before
      obtain ⟨f', hfile', hcontent⟩ := Option.map_eq_some_iff.mp hsame
      exact h.followed dir f' config hdir hfile' (hcontent ▸ hparse) hnot.1
    · exact absurd hreported hnot.2

/-- A report that is of no configuration, or of one that cannot be parsed, is passed over. -/
theorem Following.passed (h : s.Following parse webRoot) {path : Path}
    (hpath : ∀ dir f, path = entryPath dir configName → configFile s.fs dir = some f →
      parse f.content = none) :
    ({ s with reports := s.reports.erase path } : Watched).Following parse webRoot := by
  refine ⟨h.current, fun p hp => h.spelled p (List.mem_of_mem_erase hp), h.handling, h.seen,
    fun dir f config hdir hfile hparse hnot => ?_⟩
  refine h.followed dir f config hdir hfile hparse fun hmem => ?_
  rcases eq_or_ne (entryPath dir configName) path with heq | hne
  · rw [hpath dir f heq.symm hfile] at hparse
    exact nomatch hparse
  · exact hnot ((List.mem_erase_of_ne hne).mpr hmem)

/-- A configuration is read. -/
theorem Following.read (hslash : unslashed webRoot.names = webRoot.names)
    (h : s.Following parse webRoot) (hstage : s.stage = .running none) {f : File} {json : Json}
    (hdir : InRoot webRoot dir) (hfile : configFile s.fs dir = some f)
    (hparse : parse f.content = some json) :
    ({ s with
      reports := s.reports.erase (entryPath dir configName)
      stage := .running (some (entryPath dir configName, json)) } : Watched).Following
        parse webRoot := by
  refine ⟨h.current, fun p hp => h.spelled p (List.mem_of_mem_erase hp), fun path json' heq => ?_,
    h.seen, fun other g config hother hg hconfig hnot => ?_⟩
  · cases heq
    exact ⟨dir, hdir, rfl, s.fs, h.current, f, hfile, hparse⟩
  · show storeConfig _ json s.server.configs other = some config
    rw [storeConfig_apply hslash hdir]
    split
    · rename_i heq
      rw [heq, hfile] at hg
      rw [← hparse, Option.some.inj hg, hconfig]
    · rename_i hne
      have hpath : entryPath other configName ≠ entryPath dir configName := fun heq =>
        hne (by rw [← entryPath_parentPath hslash hother, heq, entryPath_parentPath hslash hdir])
      have hfollowed := h.followed other g config hother hg hconfig fun hmem =>
        hnot ((List.mem_erase_of_ne hpath).mpr hmem)
      unfold stored at hfollowed
      rwa [hstage] at hfollowed

/-- It is stored. -/
theorem Following.store (hslash : unslashed webRoot.names = webRoot.names)
    (h : s.Following parse webRoot) {path : Path} {json : Json}
    (hstage : s.stage = .running (some (path, json))) :
    ({ s with
      server.configs := storeConfig path json s.server.configs
      stage := .running none } : Watched).Following parse webRoot := by
  obtain ⟨dir, hdir, rfl, hseen⟩ := h.handling path json hstage
  refine ⟨h.current, h.spelled, fun path json heq => (nomatch heq), fun other config hconfig => ?_,
    fun other f config hother hfile hparse hnot => ?_⟩
  · change storeConfig _ json s.server.configs other = some config at hconfig
    rw [storeConfig_apply hslash hdir] at hconfig
    split at hconfig
    · rename_i heq
      obtain rfl := Option.some.inj hconfig
      exact ⟨heq ▸ hdir, heq ▸ hseen⟩
    · exact h.seen other config hconfig
  · have hfollowed := h.followed other f config hother hfile hparse hnot
    unfold stored at hfollowed
    rwa [hstage] at hfollowed

end Step

/-! ## Catching up -/

section CatchesUp

variable (parse : Bytes → Option Json) {s : Watched}

end CatchesUp

/-! ## Runs -/

section Runs

open Path

variable {parse : Bytes → Option Json} {fs : FileSystem File} {workingDirectory : Path}
  {options : Json} {server : ServerOptions} {s : Watched}

theorem Quiet.stored (h : s.Quiet) : s.stored = s.server.configs := by
  unfold Watched.stored
  split
  · rename_i path json hstage
    exact absurd hstage (h.2 (path, json))
  all_goals rfl

end Runs

/-! ## An edited configuration -/

end Watched

end Algiz.HTTP
