/-
  Where the files are that the handlers of `Fileserv` open.

  A requested path is in normal form, and `isSubpath` lets it pass if the web root is a prefix of
  it. What is opened is a file, found under the bytes before the first NUL. If the web root is a
  directory, these cannot end within it, and the file is below it (`handlers_open_below`). A web
  root that is a file is opened itself.
-/
import Algiz.Fileserv.Found

namespace Algiz.Plugins

open Lib Path HTTP

/-- Is every file that is opened found below these names, and without going up? -/
def Event.OpensBelow (location : List Name) (event : Event) : Prop :=
  ∀ path ∈ event.opening, path.absolute = true ∧
    ∃ rest, rest ≠ [] ∧ dotdot ∉ rest ∧ components path.cstring = location ++ rest

namespace Fileserv

variable {fileserv : Fileserv} {path found : Path} {request : Request} {server : ServerOptions}
  {post : Option StringMap}

/-! ## What is found -/

/-- The names of default files can be put behind any directory. -/
def DefaultsBelow (fileserv : Fileserv) : Prop :=
  ∀ defaults, fileserv.getDefaults = .ok defaults → ∀ filename ∈ defaults,
    (Path.ofBytes filename).absolute = false ∧ dotdot ∉ (Path.ofBytes filename).names

/-- What is found below a web root that is a directory. -/
theorem found_below {root : Path} {web : Path} (hroot : fileserv.fs.canonical web = some root)
    (hdirectory : fileserv.fs.isDirectory web = true) (hdefaults : DefaultsBelow fileserv)
    (hnormal : path.Normal) (hsubpath : isSubpath web path = true)
    (hfound : fileserv.findPath path = .ok (some found)) :
    found.absolute = true ∧ ∃ rest, rest ≠ [] ∧ dotdot ∉ rest ∧
      cut found.names = root.names ++ rest := by
  obtain ⟨file, hfile, hcases⟩ := findPath_cases hfound
  obtain ⟨hresolve, -, -⟩ := canonical_spec hroot
  obtain ⟨entries, hweb⟩ := isDirectory_iff.mp hdirectory
  -- the names of the web root are those of the path, as far as they go
  obtain ⟨hunslashed, hplain⟩ := unslashed_of_isSubpath hnormal hsubpath
  have hdots : dotdot ∉ unslashed path.names := fun hmem => (hnormal.plain dotdot hmem).2.2 rfl
  have hbelow : ∀ names, unslashed path.names <+: names → dotdot ∉ names.dropLast →
      found = ⟨true, names⟩ → found.absolute = true ∧ ∃ rest, rest ≠ [] ∧ dotdot ∉ rest ∧
        cut found.names = root.names ++ rest := by
    rintro names hnames hdropLast rfl
    obtain ⟨-, -, hrest⟩ :=
      file_below hweb hresolve hplain (hunslashed.trans hnames) hdropLast hfile
    exact ⟨rfl, hrest⟩
  have hslash : dotdot ∉ path.names := by
    intro hmem
    rcases unslashed_cases path.names with heq | heq
    · exact hdots (heq ▸ hmem)
    · rw [heq] at hmem
      rcases List.mem_append.mp hmem with hmem | hmem
      · exact hdots hmem
      · exact nomatch List.mem_singleton.mp hmem
  have hpath : path = ⟨true, path.names⟩ := by
    rw [← hnormal.absolute]
  rcases hcases with rfl | ⟨-, defaults, filename, hget, hmem, rfl⟩
  · exact hbelow _ (unslashed_isPrefix _)
      (fun hmem => hslash (List.dropLast_subset _ hmem)) hpath
  · obtain ⟨hrelative, hnodots⟩ := hdefaults defaults hget filename hmem
    obtain ⟨habsolute, heq | heq | ⟨hne, heq⟩⟩ := append_cases path hrelative
    · refine hbelow path.names (unslashed_isPrefix _)
        (fun hmem => hslash (List.dropLast_subset _ hmem)) ?_
      rw [← heq, ← hnormal.absolute, ← habsolute]
    · refine hbelow (path.names ++ [[]])
        ((unslashed_isPrefix _).trans (List.prefix_append _ _)) ?_ ?_
      · rwa [List.dropLast_concat]
      · rw [← heq, ← hnormal.absolute, ← habsolute]
    · refine hbelow (unslashed path.names ++ (Path.ofBytes filename).names)
        (List.prefix_append _ _) ?_ ?_
      · rw [List.dropLast_append_of_ne_nil hne]
        intro hmem
        rcases List.mem_append.mp hmem with hmem | hmem
        · exact hdots hmem
        · exact hnodots (List.dropLast_subset _ hmem)
      · rw [← heq, ← hnormal.absolute, ← habsolute]

/-- The names of what is found hold no slash. -/
theorem found_slashless (hdefaults : DefaultsBelow fileserv)
    (hslashless : ∀ name ∈ path.names, 47 ∉ name)
    (hfound : fileserv.findPath path = .ok (some found)) : ∀ name ∈ found.names, 47 ∉ name := by
  obtain ⟨file, -, rfl | ⟨-, defaults, filename, hget, hmem, rfl⟩⟩ := findPath_cases hfound
  · exact hslashless
  · intro name hname
    rcases mem_append_names (hdefaults defaults hget filename hmem).1 hname with rfl | hname | hname
    · exact List.not_mem_nil
    · exact hslashless name hname
    · exact ofBytes_slashless filename name hname

/-- The object of a file below some names is below them. -/
theorem objectOf_below {location rest : List Name} (hrest : rest ≠ []) (hdots : dotdot ∉ rest)
    (hcut : cut path.names = location ++ rest) :
    ∃ rest, rest ≠ [] ∧ dotdot ∉ rest ∧ cut (objectOf path).names = location ++ rest := by
  obtain ⟨front, name, hnames⟩ : ∃ front name, path.names = front ++ [name] := by
    refine (List.eq_nil_or_concat' path.names).resolve_left fun hnil => ?_
    rw [hnil] at hcut
    exact List.append_ne_nil_of_right_ne_nil _ hrest hcut.symm
  by_cases hzero : ∃ n ∈ path.names, 0 ∈ n
  · exact ⟨rest, hrest, hdots, (cut_objectOf hzero).trans hcut⟩
  · rw [hnames] at hzero hcut
    have hnone : ∀ n ∈ front ++ [name], 0 ∉ n := fun n hn hmem => hzero ⟨n, hn, hmem⟩
    have hfront : ∀ n ∈ front, 0 ∉ n := fun n hn => hnone n (List.mem_append_left _ hn)
    have hname : 0 ∉ name := hnone name (List.mem_append_right _ (List.mem_singleton_self name))
    have hobject : 0 ∉ name ++ ascii ".so" := fun hmem =>
      (List.mem_append.mp hmem).elim hname (by decide)
    rw [cut_of_not_mem hnone] at hcut
    obtain ⟨before, last, rfl⟩ := (List.eq_nil_or_concat' rest).resolve_left hrest
    rw [← List.append_assoc] at hcut
    obtain ⟨rfl, -⟩ := List.append_inj' hcut rfl
    refine ⟨before ++ [name ++ ascii ".so"],
      List.append_ne_nil_of_right_ne_nil _ (List.cons_ne_nil _ _), ?_, ?_⟩
    · intro hmem
      rcases List.mem_append.mp hmem with hmem | hmem
      · exact hdots (List.mem_append_left _ hmem)
      · have hlength := congrArg List.length (List.mem_singleton.mp hmem)
        rw [List.length_append] at hlength
        have htwo : dotdot.length = 2 := rfl
        have hthree : (ascii ".so").length = 3 := rfl
        omega
    · rw [objectOf_names hnames, cut_append_of_not_mem hfront, cut_cons_of_not_mem hobject,
        List.append_assoc]
      rfl

theorem objectOf_slashless (hne : path.names ≠ []) (h : ∀ name ∈ path.names, 47 ∉ name) :
    ∀ name ∈ (objectOf path).names, 47 ∉ name := by
  obtain ⟨front, last, hnames⟩ := (List.eq_nil_or_concat' path.names).resolve_left hne
  rw [objectOf_names hnames]
  intro name hname
  rcases List.mem_append.mp hname with hname | hname
  · exact h name (hnames ▸ List.mem_append_left _ hname)
  · rw [List.mem_singleton.mp hname]
    intro hmem
    rcases List.mem_append.mp hmem with hmem | hmem
    · exact h last (hnames ▸ List.mem_append_right _ (List.mem_singleton_self last)) hmem
    · exact absurd hmem (by decide)

/-! ## Handlers -/

/-- Events that open nothing. -/
def OpensNothing (event : Event) : Prop := event.opening = none

/-- The functions that other plugins put in place of the filters open no file. -/
structure QuietOverrides (fileserv : Fileserv) : Prop where
  authCheck : ∀ f ∈ fileserv.algizAuthCheck, ∀ request path, (f request path).All OpensNothing
  authCheckFailed : ∀ f ∈ fileserv.algizAuthCheckFailed, ∀ request path,
    (f request path).All OpensNothing
  compiledModuleCheck : ∀ f ∈ fileserv.algizCompiledModuleCheck, ∀ request path,
    (f request path).All OpensNothing
  compiledModuleCheckFailed : ∀ f ∈ fileserv.algizCompiledModuleCheckFailed, ∀ request path,
    (f request path).All OpensNothing

theorem opensNothing_respond (response : Response) (source : Option Path) :
    OpensNothing (.respond response source) := rfl

theorem filter_opensNothing (h : QuietOverrides fileserv) :
    (fileserv.filter server request path).All OpensNothing :=
  filter_all (fun response _ => opensNothing_respond response none) h.authCheck
    h.authCheckFailed h.compiledModuleCheck h.compiledModuleCheckFailed

/-- What a handler opens is opened to serve what was found. -/
theorem handleRequest_opens {P : Event → Prop} (hnothing : ∀ event, OpensNothing event → P event)
    (h : QuietOverrides fileserv) (nodotSays : Option Bool → Bool) (notDisabled : Bool)
    (hserve : ∀ path found, fileserv.requestedPath server request = some path →
      isSubpath (fileserv.getRoot server) path = true →
      fileserv.findPath path = .ok (some found) →
      (fileserv.serve server request post found).All P) :
    (fileserv.handleRequest nodotSays post server request notDisabled).All P := by
  apply handleRequest_all
  · exact fun path event hevent => hnothing event (filter_opensNothing h event hevent)
  · exact fun response _ => hnothing _ (opensNothing_respond response none)
  · exact hnothing _ rfl
  · exact fun path found _ hpath hsubpath _ _ hfound => hserve path found hpath hsubpath hfound

/-- A handler opens files below the web root only, if that is a directory: the names that the
    system sees are those of the canonical root, and others behind them. -/
theorem handlers_open_below (fileserv : Fileserv) (server : ServerOptions) (request : Request)
    (notDisabled : Bool) (root : Path)
    (hroot : fileserv.fs.canonical (fileserv.getRoot server) = some root)
    (hdirectory : fileserv.fs.isDirectory (fileserv.getRoot server) = true)
    (hdefaults : DefaultsBelow fileserv) (hoverrides : QuietOverrides fileserv) :
    (fileserv.handleGET server request notDisabled).All (Event.OpensBelow root.names) ∧
      (fileserv.handlePOST server request notDisabled).All (Event.OpensBelow root.names) := by
  have hserve : ∀ (post : Option StringMap) (path found : Path),
      fileserv.requestedPath server request = some path →
      isSubpath (fileserv.getRoot server) path = true →
      fileserv.findPath path = .ok (some found) →
      (fileserv.serve server request post found).All (Event.OpensBelow root.names) := by
    intro post path found hpath hsubpath hfound event hevent opened heq
    obtain ⟨-, -, hnormal, hslashless⟩ := requestedPath_spec hpath
    obtain ⟨habsolute, rest, hrest, hdots, hcut⟩ :=
      found_below hroot hdirectory hdefaults hnormal hsubpath hfound
    have hfoundSlashless := found_slashless hdefaults hslashless hfound
    have hne : found.names ≠ [] := by
      intro hnil
      rw [hnil] at hcut
      exact List.append_ne_nil_of_right_ne_nil _ hrest hcut.symm
    rcases (serve_concerns event hevent).1 opened heq with rfl | rfl
    · refine ⟨habsolute, rest, hrest, hdots, ?_⟩
      rw [components_cstring habsolute hfoundSlashless hne, hcut]
    · obtain ⟨rest, hrest, hdots, hcut⟩ := objectOf_below hrest hdots hcut
      have hobject : (objectOf found).names ≠ [] := by
        intro hnil
        rw [hnil] at hcut
        exact List.append_ne_nil_of_right_ne_nil _ hrest hcut.symm
      have hsame : (objectOf found).absolute = true := habsolute
      refine ⟨hsame, rest, hrest, hdots, ?_⟩
      rw [components_cstring hsame (objectOf_slashless hne hfoundSlashless) hobject, hcut]
  have hnothing : ∀ event, OpensNothing event → event.OpensBelow root.names :=
    fun _ hnothing path hpath => (nomatch hnothing.symm.trans hpath)
  exact ⟨handleRequest_opens hnothing hoverrides _ _ (hserve none),
    handleRequest_opens hnothing hoverrides _ _ (hserve (some request.postParameters))⟩

theorem handlers_open_below_file :
    (({ fs := elevenBytes } : Fileserv).handleGET srvOptions { path := ascii "/f" } true).All
      (Event.OpensBelow [ascii "srv"]) :=
  (handlers_open_below { fs := elevenBytes } srvOptions { path := ascii "/f" } true
    ⟨true, [ascii "srv"]⟩ (by decide) (by decide)
    (fun _ h _ hmem => absurd (Except.ok.inj h ▸ hmem) List.not_mem_nil)
    ⟨fun _ h => (nomatch h), fun _ h => (nomatch h), fun _ h => (nomatch h),
      fun _ h => (nomatch h)⟩).1

/-- A web root that is a file is opened itself, where no name is left behind those of the root. -/
theorem opens_root_file :
    let fileserv : Fileserv := { fs := elevenBytes, root := some ⟨true, [ascii "srv", ascii "f"]⟩ }
    fileserv.fs.canonical (fileserv.getRoot srvOptions) = fileserv.root ∧
      ¬(fileserv.handleGET srvOptions { path := ascii "/../f" } true).All
        (Event.OpensBelow [ascii "srv", ascii "f"]) := by
  intro fileserv
  refine ⟨by decide, fun hall => ?_⟩
  have hopened : (fileserv.handleGET srvOptions { path := ascii "/../f" } true).events.filterMap
      Event.opening = [⟨true, [ascii "srv", ascii "f"]⟩] := by decide
  obtain ⟨event, hevent, hpath⟩ := List.mem_filterMap.mp (hopened ▸ List.mem_singleton_self _)
  obtain ⟨-, rest, hrest, -, hbelow⟩ := hall event hevent _ hpath
  have hcomponents : components (⟨true, [ascii "srv", ascii "f"]⟩ : Path).cstring =
      [ascii "srv", ascii "f"] := by decide
  rw [hcomponents] at hbelow
  exact hrest (List.append_right_eq_self.mp hbelow.symm)

end Fileserv

end Algiz.Plugins
