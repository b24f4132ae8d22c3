/-
  The path that a request asks for, and the file that is found for it.

  A requested path is in normal form, and its names hold no slash (`requestedPath_spec`). If it is
  the path of a file, it is what `expand` made of the request (`requested_file`); else a default
  file is found in the directory that it names (`default_found`).
-/
import Algiz.Fileserv.Runs

namespace Algiz.Plugins.Fileserv

open Lib Path HTTP

variable {fileserv : Fileserv} {path found : Path} {request : Request} {server : ServerOptions}

/-! ## The requested path -/

/-- What `expand` makes of a path behind a root. -/
theorem expand_normal (ind : Indeterminate) {root : Path} (h : root.absolute = true)
    (requestPath : Bytes) :
    (expand ind root requestPath).Normal := by
  unfold expand
  apply lexicallyNormal_normal
  rw [(append_cases root rfl).1]
  exact h

theorem expand_slashless (ind : Indeterminate) {root : Path} (h : root.absolute = true)
    (hroot : ∀ name ∈ root.names, 47 ∉ name) (requestPath : Bytes) :
    ∀ name ∈ (expand ind root requestPath).names, 47 ∉ name := by
  unfold expand
  apply lexicallyNormal_slashless
  · rw [(append_cases root rfl).1]
    exact h
  · intro name hname
    rcases mem_append_names rfl hname with rfl | hname | hname
    · exact List.not_mem_nil
    · exact hroot name hname
    · exact ofBytes_slashless _ name hname

/-- A requested path is in normal form, and its names hold no slash. -/
theorem requestedPath_spec (h : fileserv.requestedPath server request = some path) :
    ∃ root, fileserv.fs.canonical (fileserv.getRoot server) = some root ∧ path.Normal ∧
      ∀ name ∈ path.names, 47 ∉ name := by
  obtain ⟨root, hroot, rfl⟩ := Option.map_eq_some_iff.mp h
  obtain ⟨hresolve, habsolute, -⟩ := canonical_spec hroot
  have hslashless := canonical_slashless hroot
  have hnormal := expand_normal fileserv.ind habsolute request.path
  have hexpand := expand_slashless fileserv.ind habsolute hslashless request.path
  refine ⟨root, hroot, ?_⟩
  unfold slashDirectory
  split
  · refine ⟨hnormal.slash, fun name hname => ?_⟩
    rcases mem_append_names rfl hname with rfl | hname | hname
    · exact List.not_mem_nil
    · exact hexpand name hname
    · exact absurd hname List.not_mem_nil
  · exact ⟨hnormal, hexpand⟩

/-! ## The path that is found -/

/-- `findPath` leaves the path, or goes on to a default file. -/
theorem findPath_cases (h : fileserv.findPath path = .ok (some found)) :
    ∃ file, fileserv.fs.regularFile found = some file ∧ (found = path ∨
      (fileserv.fs.regularFile path = none ∧ ∃ defaults filename,
        fileserv.getDefaults = .ok defaults ∧ filename ∈ defaults ∧
        found = path.append (Path.ofBytes filename))) := by
  unfold findPath at h
  split at h
  · rename_i hregular
    obtain rfl := Option.some.inj (Except.ok.inj h)
    obtain ⟨file, hfile⟩ := Option.isSome_iff_exists.mp hregular
    exact ⟨file, hfile, .inl rfl⟩
  · rename_i hregular
    split at h
    · exact nomatch h
    · rename_i defaults hdefaults
      have hfind := Except.ok.inj h
      have hregularFound : fileserv.fs.isRegularFile found = true := List.find?_some hfind
      obtain ⟨file, hfile⟩ := Option.isSome_iff_exists.mp hregularFound
      obtain ⟨filename, hfilename, rfl⟩ := List.mem_map.mp (List.mem_of_find?_eq_some hfind)
      have hnone : fileserv.fs.regularFile path = none := by
        unfold FileSystem.isRegularFile at hregular
        exact Option.not_isSome_iff_eq_none.mp hregular
      exact ⟨file, hfile, .inr ⟨hnone, defaults, filename, hdefaults, hfilename, rfl⟩⟩

/-- A slash behind the path of a directory is not the path of a file. -/
theorem not_file_slash {fs : FileSystem File} {file : File}
    (hdirectory : fs.isDirectory path = true)
    (h : fs.regularFile (path.append ⟨false, []⟩) = some file) : False := by
  obtain ⟨entries, hfind⟩ := isDirectory_iff.mp hdirectory
  have hfile := regularFile_eq_some.mp h
  have hdir : ∀ q : Path, q.absolute = path.absolute → cut q.names = cut path.names →
      fs.find q = some (.file file) → False := by
    intro q habsolute hcut hq
    rw [find_congr habsolute hcut, hfind] at hq
    exact nomatch hq
  obtain ⟨habsolute, heq | heq | ⟨hne, -⟩⟩ := append_cases path (q := ⟨false, []⟩) rfl
  · exact hdir _ habsolute (congrArg cut heq) hfile
  · by_cases hzero : ∃ name ∈ path.names, 0 ∈ name
    · refine hdir _ habsolute ?_ hfile
      rw [heq, cut_append_of_mem hzero]
    · have hnone : ∀ name ∈ path.names, 0 ∉ name := fun name hname hmem => hzero ⟨name, hname, hmem⟩
      obtain ⟨front, last, hcut, hplain⟩ := file_last h
      rw [heq, cut_append_of_not_mem hnone] at hcut
      obtain ⟨-, hlast⟩ := List.append_inj' hcut rfl
      exact hplain.1 (List.singleton_inj.mp hlast).symm
  · exact hne rfl

/-- A requested path that is the path of a file is what `expand` made of the request. -/
theorem requested_file {file : File} (h : fileserv.requestedPath server request = some path)
    (hfile : fileserv.fs.regularFile path = some file) :
    path = expand fileserv.ind
      ⟨true, FileSystem.follow [] (cut (fileserv.getRoot server).names)⟩ request.path := by
  obtain ⟨root, hroot, hpath⟩ := Option.map_eq_some_iff.mp h
  rw [← canonical_follow hroot]
  unfold slashDirectory at hpath
  split at hpath
  · rename_i hdirectory
    rw [← hpath] at hfile
    exact (not_file_slash hdirectory hfile).elim
  · exact hpath.symm

/-- A default file is found in the directory that the path names. -/
theorem default_found {file : File} {filename : Path} (hrelative : filename.absolute = false)
    (hnone : fileserv.fs.regularFile path = none)
    (hfile : fileserv.fs.regularFile (path.append filename) = some file) :
    filename.names ≠ [] ∧ (∀ name ∈ unslashed path.names, 0 ∉ name) ∧
      (path.append filename).names = unslashed path.names ++ filename.names := by
  have hsame : ∀ q : Path, q.absolute = path.absolute → cut q.names = cut path.names →
      fileserv.fs.regularFile q = some file → False := by
    intro q habsolute hcut hq
    have hfind := regularFile_eq_some.mp hq
    rw [find_congr habsolute hcut] at hfind
    exact nomatch hnone.symm.trans (regularFile_eq_some.mpr hfind)
  obtain ⟨habsolute, heq | heq | ⟨hne, heq⟩⟩ := append_cases path hrelative
  · exact (hsame _ habsolute (congrArg cut heq) hfile).elim
  · by_cases hzero : ∃ name ∈ path.names, 0 ∈ name
    · refine (hsame _ habsolute ?_ hfile).elim
      rw [heq, cut_append_of_mem hzero]
    · have hnil : ∀ name ∈ path.names, 0 ∉ name := fun name hname hmem => hzero ⟨name, hname, hmem⟩
      obtain ⟨front, last, hcut, hplain⟩ := file_last hfile
      rw [heq, cut_append_of_not_mem hnil] at hcut
      obtain ⟨-, hlast⟩ := List.append_inj' hcut rfl
      exact (hplain.1 (List.singleton_inj.mp hlast).symm).elim
  · refine ⟨hne, fun name hname hmem => hsame _ habsolute ?_ hfile, heq⟩
    have hzero : ∃ n ∈ unslashed path.names, 0 ∈ n := ⟨name, hname, hmem⟩
    rw [heq, cut_append_of_mem hzero]
    rcases unslashed_cases path.names with hslash | hslash
    · rw [← hslash]
    · conv => rhs; rw [hslash]
      exact (cut_append_of_mem hzero _).symm

theorem unslashed_slashDirectory (fileserv : Fileserv) (path : Path) :
    unslashed (fileserv.slashDirectory path).names = unslashed path.names := by
  unfold slashDirectory
  split
  · exact unslashed_append_slash path
  · rfl

/-- Where a slash is behind the name of a directory, the directory is the parent. -/
theorem requested_directory (h : fileserv.requestedPath server request = some path)
    (hdirectory : fileserv.fs.isDirectory path = true) :
    path.names.dropLast = unslashed path.names := by
  obtain ⟨root, hroot, hpath⟩ := Option.map_eq_some_iff.mp h
  unfold slashDirectory at hpath
  split at hpath
  · rw [← hpath, dropLast_append_slash, unslashed_append_slash]
  · rename_i hnot
    rw [← hpath] at hdirectory
    exact absurd hdirectory hnot

/-- Do the names of default files hold no slash? -/
def DefaultsSlashless (fileserv : Fileserv) : Prop :=
  ∀ defaults, fileserv.getDefaults = .ok defaults → ∀ filename ∈ defaults, 47 ∉ filename

/-- What the names of a path begin with, below which it is. -/
theorem unslashed_of_isSubpath {web : Path} (hnormal : path.Normal)
    (hsubpath : isSubpath web path = true) :
    unslashed web.names <+: unslashed path.names ∧ ∀ name ∈ unslashed web.names, Plain name := by
  obtain ⟨-, hbegins⟩ := isSubpath_names hsubpath
  have hunslashed : unslashed web.names <+: unslashed path.names :=
    unslashed_prefix (fun name hname => (hnormal.plain_dropLast name hname).1) hbegins
  exact ⟨hunslashed, fun name hname => hnormal.plain name (hunslashed.subset hname)⟩

/-- Where a file is, that is found for a request below a directory: the directory it is in is the
    parent of the requested path, but for names from a NUL on. -/
theorem found_location {web : Path} {top : List Name}
    (hresolve : fileserv.fs.resolve web = some top)
    (hweb : fileserv.fs.isDirectory web = true) (hdefaults : DefaultsSlashless fileserv)
    (hpath : fileserv.requestedPath server request = some path)
    (hsubpath : isSubpath web path = true) (hfound : fileserv.findPath path = .ok (some found)) :
    (top = unslashed web.names ∧ ∀ name ∈ top, 0 ∉ name) ∧
      ∃ dir name more, fileserv.fs.resolve found = some (top ++ dir ++ [name]) ∧
        path.names.dropLast = top ++ dir ++ more ∧ ∀ name ∈ more.head?, 0 ∈ name := by
  obtain ⟨-, -, hnormal, -⟩ := requestedPath_spec hpath
  obtain ⟨file, hfile, hcases⟩ := findPath_cases hfound
  obtain ⟨entries, hdir⟩ := isDirectory_iff.mp hweb
  obtain ⟨hunslashed, hplain⟩ := unslashed_of_isSubpath hnormal hsubpath
  have hdots : ∀ names : List Name, (∀ name ∈ names, Plain name) → dotdot ∉ names :=
    fun names hnames hmem => (hnames dotdot hmem).2.2 rfl
  rcases hcases with rfl | ⟨hnone, defaults, filename, hget, hmem, rfl⟩
  · obtain ⟨absolute, names⟩ := found
    obtain rfl : absolute = true := hnormal.absolute
    obtain ⟨htop, hzero, rest, hrest, -, hcut⟩ := file_below hdir hresolve hplain
      (hunslashed.trans (unslashed_isPrefix names)) (hdots _ hnormal.plain_dropLast) hfile
    obtain ⟨dir, name, rfl⟩ := (List.eq_nil_or_concat' rest).resolve_left hrest
    rw [← List.append_assoc] at hcut
    obtain ⟨more, hmore, hhead⟩ := dropLast_of_cut hcut
    have hfound := resolve_file hnormal.plain_dropLast hfile
    rw [hcut] at hfound
    exact ⟨⟨htop, hzero⟩, dir, name, more, hfound, hmore, hhead⟩
  · -- a default file: it has one name, behind that of the directory
    have hslash := hdefaults defaults hget filename hmem
    have hne : filename ≠ [] := by
      rintro rfl
      exact (default_found rfl hnone hfile).1 rfl
    rw [ofBytes_of_not_mem hslash hne] at hfile ⊢
    obtain ⟨-, hzeroPath, hnames⟩ := default_found rfl hnone hfile
    have heq : path.append ⟨false, [filename]⟩ = ⟨true, unslashed path.names ++ [filename]⟩ := by
      rw [← hnames, ← append_absolute hnormal.absolute]
    rw [heq] at hfile ⊢
    have hdropLast : ∀ name ∈ (unslashed path.names ++ [filename]).dropLast, Plain name := by
      rw [List.dropLast_concat]
      exact hnormal.plain
    obtain ⟨htop, hzero, -⟩ := file_below hdir hresolve hplain
      (hunslashed.trans (List.prefix_append _ _)) (hdots _ hdropLast) hfile
    obtain ⟨dir, hdirNames⟩ := hunslashed
    rw [← htop] at hdirNames
    obtain ⟨name, hname⟩ := cut_singleton filename
    have hcut : cut (unslashed path.names ++ [filename]) = unslashed path.names ++ [name] := by
      rw [cut_append_of_not_mem hzeroPath, hname]
    -- the directory that the default file is in is what was asked for
    have hdirectory : fileserv.fs.isDirectory path = true :=
      isDirectory_of_file hnormal.absolute hzeroPath hfile
    refine ⟨⟨htop, hzero⟩, dir, name, [], ?_, ?_, fun _ hhead => nomatch hhead⟩
    · rw [hdirNames, ← hcut]
      exact resolve_file hdropLast hfile
    · rw [requested_directory hpath hdirectory, hdirNames, List.append_nil]

/-! ## The object of a module -/

theorem objectOf_names {front : List Name} {name : Name} (h : path.names = front ++ [name]) :
    (objectOf path).names = front ++ [name ++ ascii ".so"] := by
  have hfilename : path.filename = name := by
    unfold Path.filename
    rw [h, List.getLastD_concat]
  show path.names.dropLast ++ [path.stem ++ (path.extension ++ ascii ".so")] = _
  rw [← List.append_assoc, stem_append_extension, hfilename, h, List.dropLast_concat]

/-- Where the path holds a NUL, the object is the file itself. -/
theorem cut_objectOf (hzero : ∃ name ∈ path.names, 0 ∈ name) :
    cut (objectOf path).names = cut path.names := by
  obtain ⟨front, last, hnames⟩ : ∃ front last, path.names = front ++ [last] := by
    refine (List.eq_nil_or_concat' path.names).resolve_left fun hnil => ?_
    obtain ⟨name, hname, -⟩ := hzero
    exact absurd (hnil ▸ hname) List.not_mem_nil
  rw [objectOf_names hnames, hnames]
  rw [hnames] at hzero
  by_cases hfront : ∃ name ∈ front, 0 ∈ name
  · rw [cut_append_of_mem hfront, cut_append_of_mem hfront]
  · have hnone : ∀ name ∈ front, 0 ∉ name := fun name hname hmem => hfront ⟨name, hname, hmem⟩
    have hlast : 0 ∈ last := by
      obtain ⟨name, hname, hmem⟩ := hzero
      rcases List.mem_append.mp hname with hname | hname
      · exact absurd hmem (hnone name hname)
      · rwa [List.mem_singleton.mp hname] at hmem
    rw [cut_append_of_not_mem hnone, cut_append_of_not_mem hnone, cut_cons_of_mem hlast,
      cut_cons_of_mem (List.mem_append_left _ hlast), takeWhile_append_of_mem hlast]

end Algiz.Plugins.Fileserv
