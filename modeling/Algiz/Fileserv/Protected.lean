/-
  Files that `Fileserv` keeps back: configurations, and modules that were compiled.

  The filter compares names as they stand in the path, the system opens the name that stands
  before the first NUL (`seenName`). Nothing of a file that is to be kept back is sent, whatever
  is in the file system, if and only if the requested path is not `Missed` by the filter: its
  system name is one to keep back, and its own name is not seen to be one (`withholds_iff`).
-/
import Algiz.Fileserv.Found

namespace Algiz.Plugins

open Lib Path HTTP

/-- The name under which the system looks for a file. -/
def seenName (path : Path) : Name := (cut path.names).getLastD []

/-- Does the name end in `.alg.so` or `.cpp.so`? -/
def endsAsModule (name : Name) : Bool :=
  (ascii ".alg.so").isSuffixOf name || (ascii ".cpp.so").isSuffixOf name

namespace Fileserv

/-- Is it a file to keep back: a configuration, or where modules are enabled an executable file
    that ends as a compiled module? -/
def Withheld (fileserv : Fileserv) (server : ServerOptions) (path : Path) : Prop :=
  seenName path = configName ∨
    (fileserv.getModulesEnabled server path = .ok true ∧ fileserv.canExecute path = true ∧
      endsAsModule (seenName path) = true)

/-- Are the bytes of the event from no file that is to be kept back? -/
def KeepsBack (fileserv : Fileserv) (server : ServerOptions) (event : Event) : Prop :=
  ∀ source ∈ event.source, ¬fileserv.Withheld server source

/-- No default file has a name to keep back. -/
def DefaultsAllowed (fileserv : Fileserv) : Prop :=
  ∀ defaults, fileserv.getDefaults = .ok defaults → ∀ filename ∈ defaults,
    seenName (Path.ofBytes filename) ≠ configName ∧
      endsAsModule (seenName (Path.ofBytes filename)) = false

/-- What `filter` takes for the name of a compiled module. -/
def hasModuleName (path : Path) : Bool :=
  path.extension = ascii ".so" &&
    let subextension := (⟨false, [path.stem]⟩ : Path).extension
    subextension = ascii ".alg" || subextension = ascii ".cpp"

/-- Is the system's name of the path one to keep back, where the path's own name is not? -/
def MissedName (path : Path) : Prop :=
  path.filename ≠ configName ∧ (seenName path = configName ∨
    (endsAsModule (seenName path) = true ∧ hasModuleName path = false ∧
      path.extension ≠ ascii ".alg" ∧ path.extension ≠ ascii ".cpp"))

/-- Does a request come past the filter to a file to keep back? `web` is the root that is served,
    and `webRoot` that of the server. -/
def Missed (web webRoot : Path) (ind : Indeterminate) (requestPath : Bytes) : Prop :=
  let path := expand ind ⟨true, FileSystem.follow [] (cut web.names)⟩ requestPath
  isSubpath web path = true ∧ isSubpath webRoot path = true ∧ MissedName path

variable {fileserv : Fileserv} {path found : Path} {file : File} {request : Request}
  {server : ServerOptions} {post : Option StringMap}

/-! ## Names -/

/-- The extension of a name begins with its last dot, unless that is its first byte. -/
theorem extensionAt_eq {front rest : Name} (hfront : front ≠ []) (hrest : 46 ∉ rest)
    (hdots : front ++ 46 :: rest ≠ dotdot) :
    extensionAt (front ++ 46 :: rest) = some front.length := by
  have hdot : front ++ 46 :: rest ≠ dot := by
    intro heq
    have hlength := congrArg List.length heq
    have hpos := List.length_pos_iff.mpr hfront
    rw [List.length_append, List.length_cons] at hlength
    have hone : dot.length = 1 := rfl
    omega
  have hfind : (front ++ 46 :: rest).reverse.idxOf? 46 = some rest.length := by
    have hreverse : 46 ∉ rest.reverse := fun hmem => hrest (List.mem_reverse.mp hmem)
    have h : find (rest.reverse ++ 46 :: front.reverse) 46 = some rest.reverse.length :=
      find_append_cons hreverse
    rw [List.length_reverse] at h
    rw [List.reverse_append, List.reverse_cons, List.append_assoc]
    exact h
  have hpos := List.length_pos_iff.mpr hfront
  unfold extensionAt
  rw [if_neg (not_or.mpr ⟨hdot, hdots⟩), hfind]
  dsimp only
  rw [List.length_append, List.length_cons, if_neg (by omega)]
  congr 1
  omega

/-- A name that ends in `.so` and more than that has the extension `.so`. -/
theorem extension_so {front : Name} (hfront : front ≠ [])
    (h : path.filename = front ++ ascii ".so") :
    path.extension = ascii ".so" := by
  have hdots : front ++ ascii ".so" ≠ dotdot := by
    intro heq
    have hlength := congrArg List.length heq
    rw [List.length_append] at hlength
    have hthree : (ascii ".so").length = 3 := rfl
    have htwo : dotdot.length = 2 := rfl
    omega
  have hso : ascii ".so" = 46 :: ascii "so" := by decide
  rw [hso] at hdots
  unfold Path.extension
  rw [h, hso, extensionAt_eq hfront (by decide) hdots]
  exact List.drop_left

theorem isCompiledModule_iff : fileserv.isCompiledModule path = true ↔
    hasModuleName path = true ∧ fileserv.canExecute path = true := by
  unfold isCompiledModule hasModuleName
  rw [Bool.and_assoc, Bool.and_comm (fileserv.canExecute path), ← Bool.and_assoc,
    Bool.and_eq_true_iff]

/-- A name that ends as a module, with the rest in front of it. -/
theorem endsAsModule_iff {name : Name} : endsAsModule name = true ↔
    ∃ front, name = front ++ ascii ".alg.so" ∨ name = front ++ ascii ".cpp.so" := by
  unfold endsAsModule
  rw [Bool.or_eq_true_iff, List.isSuffixOf_iff_suffix, List.isSuffixOf_iff_suffix]
  constructor
  · rintro (⟨front, heq⟩ | ⟨front, heq⟩)
    · exact ⟨front, .inl heq.symm⟩
    · exact ⟨front, .inr heq.symm⟩
  · rintro ⟨front, heq | heq⟩
    · exact .inl ⟨front, heq.symm⟩
    · exact .inr ⟨front, heq.symm⟩

/-- Where the path holds no NUL, a name that ends as a module has the extension `.so`. -/
theorem extension_of_endsAsModule (hzero : ∀ name ∈ path.names, 0 ∉ name)
    (h : endsAsModule (seenName path) = true) : path.extension = ascii ".so" := by
  have hseen : seenName path = path.filename := by
    unfold seenName Path.filename
    rw [cut_of_not_mem hzero]
  rw [hseen] at h
  obtain ⟨front, heq | heq⟩ := endsAsModule_iff.mp h
  · have hsplit : front ++ ascii ".alg.so" = (front ++ ascii ".alg") ++ ascii ".so" := by
      rw [List.append_assoc]
      rfl
    exact extension_so (List.append_ne_nil_of_right_ne_nil _ (by decide)) (heq.trans hsplit)
  · have hsplit : front ++ ascii ".cpp.so" = (front ++ ascii ".cpp") ++ ascii ".so" := by
      rw [List.append_assoc]
      rfl
    exact extension_so (List.append_ne_nil_of_right_ne_nil _ (by decide)) (heq.trans hsplit)

/-! ## What is missed -/

/-- A module whose object is itself is run, and nothing is written of it. -/
theorem serveModule_silent (hzero : ∃ name ∈ path.names, 0 ∈ name)
    (hfile : fileserv.fs.regularFile path = some file) :
    (fileserv.serveModule request path).All fun event => event.source = none := by
  have hfind : fileserv.fs.find (objectOf path) = fileserv.fs.find path :=
    find_congr rfl (cut_objectOf hzero)
  have hobject : fileserv.fs.regularFile (objectOf path) = some file :=
    regularFile_eq_some.mpr (hfind.trans (regularFile_eq_some.mp hfile))
  have hexists : fileserv.fs.pathExists (objectOf path) = true := by
    unfold FileSystem.pathExists
    rw [regularFile_eq_some.mp hobject]
    rfl
  have htime : ¬fileserv.lastWriteTime (objectOf path) < fileserv.lastWriteTime path := by
    unfold lastWriteTime
    rw [hobject, hfile]
    exact lt_irrefl _
  unfold serveModule
  dsimp only
  rw [hexists, decide_eq_false htime, if_neg (by decide)]
  unfold runModuleOf
  refine Trace.All.bind ?_ fun _ _ => ?_
  · split
    · exact .pure ()
    · exact .emit rfl
  · split
    · exact .lift _
    · refine Trace.All.bind (.emit rfl) fun _ _ => ?_
      split
      · exact .lift _
      · exact .pure ()

/-- What is seen of a default file is its own name. -/
theorem seenName_default {filename : Path} (hnone : fileserv.fs.regularFile path = none)
    (hfile : fileserv.fs.regularFile (path.append filename) = some file) :
    seenName (path.append filename) = seenName filename := by
  cases habsolute : filename.absolute with
  | true =>
    unfold Path.append
    rw [habsolute, if_pos rfl]
  | false =>
    obtain ⟨hne, hzero, hnames⟩ := default_found habsolute hnone hfile
    unfold seenName
    rw [hnames, cut_append_of_not_mem hzero]
    obtain ⟨front, last, hcut⟩ := (List.eq_nil_or_concat' (cut filename.names)).resolve_left
      fun hnil => hne (cut_eq_nil.mp hnil)
    rw [hcut, ← List.append_assoc, List.getLastD_concat, List.getLastD_concat]

/-- If bytes are sent from a file to keep back, the filter missed it. -/
theorem missedName_of_source (hdefaults : DefaultsAllowed fileserv)
    (hauth : authFailure server request path = .ok none)
    (hkept : fileserv.keepsBack server path = .ok false)
    (hfound : fileserv.findPath path = .ok (some found)) {event : Event}
    (hevent : event ∈ (fileserv.serve server request post found).events)
    (hsource : event.source = some found) (hwithheld : fileserv.Withheld server found) :
    (∃ file, fileserv.fs.regularFile path = some file) ∧ MissedName path := by
  obtain ⟨file, hfile, rfl | ⟨hnone, defaults, filename, hget, hmem, rfl⟩⟩ := findPath_cases hfound
  · refine ⟨⟨file, hfile⟩, (authFailure_eq_none hauth).1, ?_⟩
    rcases hwithheld with hname | ⟨henabled, hexecute, hends⟩
    · exact .inl hname
    · obtain ⟨enabled, hother, hcompiled⟩ := keepsBack_eq_false hkept
      obtain rfl := Except.ok.inj (henabled.symm.trans hother)
      have hnot : hasModuleName found = false := by
        rw [Bool.true_and] at hcompiled
        cases hname : hasModuleName found with
        | false => rfl
        | true => exact nomatch hcompiled.symm.trans (isCompiledModule_iff.mpr ⟨hname, hexecute⟩)
      -- a page of a module is run, and not sent
      have hpage : ∀ extension, extension ≠ ascii ".t" → extension ≠ ascii ".so" →
          ((extension = ascii ".cpp" && fileserv.canExecute found) ||
            extension = ascii ".alg") = true → found.extension ≠ extension := by
        rintro extension ht hso hmodule rfl
        have hzero : ∃ name ∈ found.names, 0 ∈ name := by
          by_contra hnone
          refine hso (extension_of_endsAsModule (fun name hname hmem => ?_) hends)
          exact hnone ⟨name, hname, hmem⟩
        have hmodulePage : fileserv.isModulePage server found = true := by
          unfold isModulePage shouldServeModule
          rw [decide_eq_true ht, henabled]
          exact hmodule
        rw [serve_of_isModulePage hmodulePage] at hevent
        exact nomatch hsource.symm.trans (serveModule_silent hzero hfile event hevent)
      refine .inr ⟨hends, hnot, ?_, ?_⟩
      · exact hpage _ (by decide) (by decide) (by simp)
      · exact hpage _ (by decide) (by decide) (by simp [hexecute])
  · -- the names of default files are not to be kept back
    obtain ⟨hname, hends⟩ := hdefaults defaults hget filename hmem
    rw [← seenName_default hnone hfile] at hname hends
    rcases hwithheld with hconfig | ⟨-, -, hmodule⟩
    · exact absurd hconfig hname
    · exact nomatch hends.symm.trans hmodule

/-- Where the filter misses nothing, files to keep back are kept back. -/
theorem handleRequest_keepsBack (h : NoOverrides fileserv) (hdefaults : DefaultsAllowed fileserv)
    (hmissed : ¬Missed (fileserv.getRoot server) server.webRoot fileserv.ind request.path)
    (nodotSays : Option Bool → Bool) (notDisabled : Bool) :
    (fileserv.handleRequest nodotSays post server request notDisabled).All
      (KeepsBack fileserv server) := by
  have hhandled : Handled fileserv post server request notDisabled
      (fileserv.handleRequest nodotSays post server request notDisabled) :=
    handleRequest_handled h nodotSays notDisabled
  generalize fileserv.handleRequest nodotSays post server request notDisabled = run at hhandled
  have hnothing : ∀ event : Event, event.source = none → KeepsBack fileserv server event :=
    fun event hnone source hsource => (nomatch hnone.symm.trans hsource)
  have hclose : ∀ result, (closeWith result).All (KeepsBack fileserv server) := fun result =>
    Trace.All.bind (.emit (hnothing .closed rfl)) fun _ _ => .pure result
  cases hhandled with
  | passes _ => exact fun event hevent => absurd hevent List.not_mem_nil
  | throws e _ => exact .lift _
  | unauthorized response _ =>
    intro event hevent
    rcases List.mem_cons.mp hevent with rfl | hevent
    · exact hnothing _ rfl
    · rcases List.mem_cons.mp hevent with rfl | hevent
      · exact hnothing _ rfl
      · exact List.mem_singleton.mp hevent ▸ hnothing _ rfl
  | refuses response _ =>
    intro event hevent
    rcases List.mem_cons.mp hevent with rfl | hevent
    · exact hnothing _ rfl
    · exact List.mem_singleton.mp hevent ▸ hnothing _ rfl
  | serves path found _ hpath hsubpath hauth hkept hfound =>
    apply Trace.All.handle
    · refine Trace.All.bind ?_ fun _ _ => hclose _
      intro event hevent source hsource hwithheld
      obtain rfl := (serve_concerns event hevent).2 source hsource
      obtain ⟨⟨file, hfile⟩, hname⟩ :=
        missedName_of_source hdefaults hauth hkept hfound hevent hsource hwithheld
      have hexpand := requested_file hpath hfile
      refine hmissed ?_
      unfold Missed
      rw [← hexpand]
      exact ⟨hsubpath, (authFailure_eq_none hauth).2.1, hname⟩
    · intro e y hy
      cases e with
      | aborted => exact nomatch hy
      | thrown e =>
        obtain rfl := Option.some.inj hy
        exact Trace.All.bind (.emit (hnothing _ rfl)) fun _ _ => hclose _

/-! ## A file that is sent -/

/-- A file of one byte that may be executed. -/
def oneByte : File where
  content := [1]
  ownerExec := true
  groupExec := true
  othersExec := true

/-- What is seen of a path whose name is to be kept back can be the location of a file. -/
theorem seen_names (hnormal : path.Normal) (hslashless : ∀ name ∈ path.names, 47 ∉ name)
    (hname : seenName path = configName ∨ endsAsModule (seenName path) = true) :
    cut path.names ≠ [] ∧ ∀ name ∈ cut path.names, Plain name ∧ 0 ∉ name ∧ 47 ∉ name := by
  have hplain : Plain (seenName path) := by
    rcases hname with hconfig | hends
    · rw [hconfig]
      decide
    · have hlong : 7 ≤ (seenName path).length := by
        obtain ⟨front, heq | heq⟩ := endsAsModule_iff.mp hends
        · have hseven : (ascii ".alg.so").length = 7 := rfl
          rw [heq, List.length_append]
          omega
        · have hseven : (ascii ".cpp.so").length = 7 := rfl
          rw [heq, List.length_append]
          omega
      refine ⟨fun heq => ?_, fun heq => ?_, fun heq => ?_⟩ <;> rw [heq] at hlong <;>
        exact absurd hlong (by decide)
  have hne : cut path.names ≠ [] := by
    intro hnil
    unfold seenName at hplain
    rw [hnil] at hplain
    exact hplain.1 rfl
  refine ⟨hne, fun name hmem => ?_⟩
  obtain ⟨hzero, n, hn, hbegins⟩ := mem_cut hmem
  refine ⟨?_, hzero, fun hslash => hslashless n hn (hbegins.subset hslash)⟩
  obtain ⟨front, last, hcut⟩ := (List.eq_nil_or_concat' (cut path.names)).resolve_left hne
  rw [hcut] at hmem
  rcases List.mem_append.mp hmem with hmem | hmem
  · exact hnormal.plain_dropLast name ((cut_concat hcut).1.subset hmem)
  · unfold seenName at hplain
    rw [hcut, List.getLastD_concat] at hplain
    rwa [List.mem_singleton.mp hmem]

/-- A server without options. -/
def plainServer (webRoot : Path) : ServerOptions where
  webRoot := webRoot
  options := .object []
  configs := fun _ => none

theorem plainServer_getOption {webRoot : Path} {name : Bytes}
    (hsubpath : isSubpath webRoot path = true) :
    (plainServer webRoot).getOption path name = .ok none := by
  refine getOption_eq_ok.mpr ⟨hsubpath, ?_⟩
  rw [optionFrom_none fun _ _ => rfl]
  rfl

theorem plainServer_getBoolOption {webRoot : Path} {name : Bytes}
    (hsubpath : isSubpath webRoot path = true) :
    (plainServer webRoot).getBoolOption path name = .ok none := by
  unfold ServerOptions.getBoolOption
  rw [plainServer_getOption hsubpath]

/-- A server without options asks for no password. -/
theorem plainServer_authFailure {webRoot : Path} (hsubpath : isSubpath webRoot path = true)
    (hname : path.filename ≠ configName) :
    authFailure (plainServer webRoot) request path = .ok none := by
  unfold authFailure
  rw [plainServer_getOption hsubpath]
  dsimp only
  rw [if_neg hname]

/-- A `Fileserv` that is configured with a root only, and whether modules are enabled. -/
def plainFileserv (root : Option Path) (ind : Indeterminate) (fs : FileSystem File)
    (enableModules : Bool) : Fileserv where
  root := root
  ind := ind
  fs := fs
  enableModules := enableModules

theorem plainFileserv_noOverrides {root : Option Path} {ind : Indeterminate}
    {fs : FileSystem File} {enableModules : Bool} :
    NoOverrides (plainFileserv root ind fs enableModules) :=
  ⟨rfl, rfl, rfl, rfl⟩

theorem plainFileserv_defaultsAllowed {root : Option Path} {ind : Indeterminate}
    {fs : FileSystem File} {enableModules : Bool} :
    DefaultsAllowed (plainFileserv root ind fs enableModules) := by
  intro defaults h filename hmem
  obtain rfl := Except.ok.inj h
  exact absurd hmem List.not_mem_nil

theorem plainFileserv_getModulesEnabled {root : Option Path} {webRoot : Path}
    {ind : Indeterminate} {fs : FileSystem File} {enableModules : Bool}
    (hsubpath : isSubpath webRoot path = true) :
    (plainFileserv root ind fs enableModules).getModulesEnabled (plainServer webRoot) path =
      .ok enableModules := by
  cases enableModules with
  | true => rfl
  | false =>
    show ((plainServer webRoot).getBoolOption path (ascii "enableModules")).map _ = _
    rw [plainServer_getBoolOption hsubpath]
    rfl

/-- A request that no check refuses, for a file that is there and is no module: bytes of the file
    are sent. -/
theorem plainFileserv_sends {root : Option Path} {webRoot : Path} {ind : Indeterminate}
    {fs : FileSystem File} {enableModules : Bool} {requestPath : Bytes}
    (hpath : (plainFileserv root ind fs enableModules).requestedPath (plainServer webRoot)
      { path := requestPath } = some path)
    (hfile : fs.regularFile path = some oneByte)
    (hweb : isSubpath (root.getD webRoot) path = true)
    (hwebRoot : isSubpath webRoot path = true) (hname : path.filename ≠ configName)
    (hmodules : enableModules = true → hasModuleName path = false ∧
      path.extension ≠ ascii ".alg" ∧ path.extension ≠ ascii ".cpp") :
    ∃ event ∈ ((plainFileserv root ind fs enableModules).handleGET (plainServer webRoot)
      { path := requestPath } true).events, event.source = some path := by
  generalize hfileserv : plainFileserv root ind fs enableModules = fileserv at hpath ⊢
  have henabled : fileserv.getModulesEnabled (plainServer webRoot) path = .ok enableModules := by
    rw [← hfileserv]
    exact plainFileserv_getModulesEnabled hwebRoot
  have hfileFound : fileserv.fs.regularFile path = some oneByte := hfileserv ▸ hfile
  have hkept : fileserv.keepsBack (plainServer webRoot) path = .ok false := by
    unfold keepsBack
    rw [henabled]
    refine congrArg Except.ok ?_
    cases enableModules with
    | false => rfl
    | true =>
      cases hcompiled : fileserv.isCompiledModule path with
      | false => rfl
      | true => exact nomatch (hmodules rfl).1.symm.trans (isCompiledModule_iff.mp hcompiled).1
  have hmodule : fileserv.shouldServeModule (plainServer webRoot) path = .ok false := by
    unfold shouldServeModule
    rw [henabled]
    refine congrArg Except.ok ?_
    cases enableModules with
    | false => rfl
    | true =>
      obtain ⟨-, halg, hcpp⟩ := hmodules rfl
      rw [decide_eq_false halg, decide_eq_false hcpp]
      rfl
  have hfound : fileserv.findPath path = .ok (some path) := by
    unfold findPath FileSystem.isRegularFile
    rw [hfileFound]
    rfl
  have hno : NoOverrides fileserv := hfileserv ▸ plainFileserv_noOverrides
  have hhost : fileserv.hostMatches { path := requestPath } = true := by
    rw [← hfileserv]
    rfl
  have hsubpath : isSubpath (fileserv.getRoot (plainServer webRoot)) path = true := by
    rw [← hfileserv]
    exact hweb
  have hrender : fileserv.renderTemplate oneByte.content none = .ok oneByte.content := by
    rw [← hfileserv]
    rfl
  unfold handleGET
  rw [handleRequest_serves hno hhost hpath hsubpath (plainServer_authFailure hwebRoot hname) hkept
    (plainServer_getBoolOption hwebRoot) rfl hfound]
  obtain ⟨event, hevent, hsource⟩ : ∃ event ∈ (fileserv.serve (plainServer webRoot)
      { path := requestPath } none path).events, event.source = some path :=
    serve_sends hfileFound rfl (by decide) hrender hmodule rfl rfl
  exact ⟨event, Trace.mem_handle (Trace.mem_bind.mpr (.inl hevent)), hsource⟩

/-- A request that the filter misses, for a file that is there: bytes of the file are sent. -/
theorem missed_sends {root : Option Path} {webRoot : Path} {ind : Indeterminate}
    {requestPath : Bytes} (hslashless : ∀ name ∈ (root.getD webRoot).names, 47 ∉ name)
    (hmissed : Missed (root.getD webRoot) webRoot ind requestPath) :
    ∃ fs enableModules, ∃ event ∈ ((plainFileserv root ind fs enableModules).handleGET
      (plainServer webRoot) { path := requestPath } true).events, ∃ source ∈ event.source,
        (plainFileserv root ind fs enableModules).Withheld (plainServer webRoot) source := by
  obtain ⟨hweb, hwebRoot, hfilename, hname⟩ := hmissed
  generalize hfollow : (⟨true, FileSystem.follow [] (cut (root.getD webRoot).names)⟩ : Path) =
    canonicalRoot at hweb hwebRoot hfilename hname
  generalize hexpand : expand ind canonicalRoot requestPath = path at hweb hwebRoot hfilename hname
  have habsolute : canonicalRoot.absolute = true := hfollow ▸ rfl
  have hnormal : path.Normal := hexpand ▸ expand_normal ind habsolute requestPath
  have hpathSlashless : ∀ name ∈ path.names, 47 ∉ name := by
    rw [← hexpand]
    refine expand_slashless ind habsolute (fun name hmem => ?_) requestPath
    rw [← hfollow] at hmem
    rcases mem_follow hmem with hmem | hmem
    · exact absurd hmem List.not_mem_nil
    · obtain ⟨-, n, hn, hbegins⟩ := mem_cut hmem
      exact fun hslash => hslashless n hn (hbegins.subset hslash)
  obtain ⟨hne, hnames⟩ := seen_names hnormal hpathSlashless (hname.imp_right And.left)
  -- the file is there, and so is the web root, which is on the way to it
  have hfind : (FileSystem.ofFile oneByte (cut path.names) hne hnames).find path =
      some (.file oneByte) := (find_ofNode hnormal.absolute (List.append_nil _).symm).2
  obtain ⟨hsame, hbegins⟩ := isSubpath_names hweb
  obtain ⟨rest, hrest⟩ := cut_prefix hbegins
  have hresolve : (FileSystem.ofFile oneByte (cut path.names) hne hnames).resolve
      (root.getD webRoot) = some (cut (root.getD webRoot).names) :=
    (find_ofNode (hsame.trans hnormal.absolute) hrest.symm).1
  generalize FileSystem.ofFile oneByte (cut path.names) hne hnames = fs at hfind hresolve
  have hfile : fs.regularFile path = some oneByte := regularFile_eq_some.mpr hfind
  have hcanonical : fs.canonical (root.getD webRoot) = some canonicalRoot := by
    have hcanonical : fs.canonical (root.getD webRoot) =
        some ⟨true, cut (root.getD webRoot).names⟩ := by
      unfold FileSystem.canonical
      rw [hresolve]
      rfl
    rw [hcanonical, canonical_follow hcanonical, ← hfollow]
  -- where the name is not that of a configuration, modules are enabled
  generalize henable : decide (seenName path ≠ configName) = enableModules
  have hpath : (plainFileserv root ind fs enableModules).requestedPath (plainServer webRoot)
      { path := requestPath } = some path := by
    have hdirectory : fs.isDirectory path = false := by
      unfold FileSystem.isDirectory
      rw [hfind]
      rfl
    unfold requestedPath
    show (fs.canonical (root.getD webRoot)).map _ = _
    rw [hcanonical]
    show some ((plainFileserv root ind fs enableModules).slashDirectory
      (expand ind canonicalRoot requestPath)) = _
    rw [hexpand]
    unfold slashDirectory
    show some (if fs.isDirectory path = true then _ else _) = _
    rw [hdirectory]
    rfl
  have hmodules : enableModules = true → endsAsModule (seenName path) = true ∧
      hasModuleName path = false ∧ path.extension ≠ ascii ".alg" ∧
      path.extension ≠ ascii ".cpp" := fun henabled =>
    hname.resolve_left (of_decide_eq_true (henable.trans henabled))
  obtain ⟨event, hevent, hsource⟩ : ∃ event ∈ ((plainFileserv root ind fs enableModules).handleGET
      (plainServer webRoot) { path := requestPath } true).events, event.source = some path :=
    plainFileserv_sends hpath hfile hweb hwebRoot hfilename fun henabled => (hmodules henabled).2
  refine ⟨fs, enableModules, event, hevent, path, hsource, ?_⟩
  cases enableModules with
  | false => exact .inl (not_not.mp (of_decide_eq_false henable))
  | true =>
    refine .inr ⟨plainFileserv_getModulesEnabled hwebRoot, ?_, (hmodules rfl).1⟩
    exact (canExecute_file (plainFileserv root ind fs true) hfile).trans rfl

/-- A server keeps configurations and compiled modules back, if and only if the filter misses
    none: whatever is in the file system and whatever the options are, no bytes of them are sent. -/
theorem withholds_iff (root : Option Path) (webRoot : Path) (ind : Indeterminate)
    (requestPath : Bytes) (hslashless : ∀ name ∈ (root.getD webRoot).names, 47 ∉ name) :
    (∀ (fileserv : Fileserv) (server : ServerOptions) (request : Request) (notDisabled : Bool),
      fileserv.root = root → server.webRoot = webRoot → fileserv.ind = ind →
      request.path = requestPath → NoOverrides fileserv → DefaultsAllowed fileserv →
      (fileserv.handleGET server request notDisabled).All (KeepsBack fileserv server) ∧
        (fileserv.handlePOST server request notDisabled).All (KeepsBack fileserv server)) ↔
      ¬Missed (root.getD webRoot) webRoot ind requestPath := by
  constructor
  · intro hkeeps hmissed
    obtain ⟨fs, enableModules, event, hevent, source, hsource, hwithheld⟩ :=
      missed_sends hslashless hmissed
    have hall := (hkeeps (plainFileserv root ind fs enableModules) (plainServer webRoot)
      { path := requestPath } true rfl rfl rfl rfl plainFileserv_noOverrides
      plainFileserv_defaultsAllowed).1
    exact hall event hevent source hsource hwithheld
  · intro hmissed fileserv server request notDisabled hroot hwebRoot hind hpath hno hdefaults
    subst hroot hwebRoot hind hpath
    exact ⟨handleRequest_keepsBack hno hdefaults hmissed _ _,
      handleRequest_keepsBack hno hdefaults hmissed _ _⟩

theorem withholds_iff_file :
    (({ fs := elevenBytes } : Fileserv).handleGET srvOptions { path := ascii "/f" } true).All
      (KeepsBack { fs := elevenBytes } srvOptions) := by
  have hmissed : ¬Missed srvOptions.webRoot srvOptions.webRoot {} (ascii "/f") := by
    unfold Missed MissedName
    decide
  exact ((withholds_iff none srvOptions.webRoot {} (ascii "/f") (by decide)).mpr hmissed
    { fs := elevenBytes } srvOptions { path := ascii "/f" } true rfl rfl rfl rfl
    ⟨rfl, rfl, rfl, rfl⟩ fun _ h _ hmem => absurd (Except.ok.inj h ▸ hmem) List.not_mem_nil).1

/-- A configuration in `/srv`, that sets no option. -/
def emptyConfig : FileSystem File :=
  .ofFile { content := ascii "\x7b\x7d" } [ascii "srv", configName] (by decide) (by decide)

/-- The options of a server that has read it. -/
def emptyConfigOptions : ServerOptions where
  webRoot := getWebRoot Path.root (ascii "/srv")
  options := .object []
  configs := fun dir =>
    if dir = getWebRoot Path.root (ascii "/srv") then some (.object []) else none

/-- A NUL behind the name of a configuration: the filter does not see it, and the system does. -/
theorem sends_config_nul :
    ¬(({ fs := emptyConfig } : Fileserv).handleGET emptyConfigOptions
      { path := ascii "/.algiz%00" } true).All
        (KeepsBack { fs := emptyConfig } emptyConfigOptions) := by
  intro hall
  have hsent : (({ fs := emptyConfig } : Fileserv).handleGET emptyConfigOptions
      { path := ascii "/.algiz%00" } true).events.filterMap Event.source =
        [⟨true, [ascii "srv", configName ++ [0]]⟩] := by decide
  obtain ⟨event, hevent, hsource⟩ := List.mem_filterMap.mp (hsent ▸ List.mem_singleton_self _)
  exact hall event hevent _ hsource (.inl (by decide))

end Fileserv

end Algiz.Plugins
