/-
  The credentials without which a file is not sent.

  `authFailed` looks for the option `auth` from the parent of the requested path upwards. The file
  that is sent is in the directory of that name, as far as the system sees it (`found_location`),
  so that the value it finds is the one that governs the file. There is one exception: where the
  web root is set with a slash at its end, the configuration of the root directory is kept under
  the path with the slash, and looked for under the path without it. A request for the root
  directory comes past this configuration, and no other does (`guarded_iff`).
-/
import Algiz.Fileserv.Found

namespace Algiz.Plugins.Fileserv

open Lib Path HTTP

/-- The user name and the password that an option asks for, if it is well formed. -/
def credentials (auth : Json) : Option (Bytes × Bytes) :=
  match auth.find (ascii "username"), auth.find (ascii "password") with
  | some (.string username), some (.string password) => some (username, password)
  | _, _ => none

/-- Has the request the credentials that the option asks for, if it asks for any? -/
def Meets (request : Request) (auth : Option Json) : Prop :=
  ∀ username password, auth.bind credentials = some (username, password) →
    request.checkAuthentication username password = .success

/-- Are the bytes of the event from a file below the web root, and has the request the credentials
    that the option `auth` asks for, from the nearest configuration that has it? -/
def Guarded (parse : Bytes → Option Json) (fs : FileSystem File) (server : ServerOptions)
    (request : Request) (event : Event) : Prop :=
  ∀ source ∈ event.source, ∃ top dir name, fs.resolve server.webRoot = some top ∧
    fs.resolve source = some (top ++ dir ++ [name]) ∧
    Meets request (governing parse fs server.options (ascii "auth") top dir)

/-- No function takes the place of `authFailed`, no other plugin lets a path pass that it refused,
    and none sends what is in a file. -/
structure AuthInPlace (fileserv : Fileserv) : Prop where
  authCheck : fileserv.algizAuthCheck = none
  authCheckFailed : ∀ f ∈ fileserv.algizAuthCheckFailed, ∀ request path,
    (f request path).result ≠ .ok true
  quietFailed : ∀ f ∈ fileserv.algizAuthCheckFailed, ∀ request path,
    (f request path).All fun event => event.source = none
  quietCheck : ∀ f ∈ fileserv.algizCompiledModuleCheck, ∀ request path,
    (f request path).All fun event => event.source = none
  quietCheckFailed : ∀ f ∈ fileserv.algizCompiledModuleCheckFailed, ∀ request path,
    (f request path).All fun event => event.source = none

/-- Does `authFailed` let a request pass, where this is the option that it finds? -/
def Admits (request : Request) (auth : Option Json) : Prop :=
  ∀ value ∈ auth, authResponse request value = .ok none ∨
    authResponse request value = .error .outOfRange

/-- Can a request come past the configuration of the root directory? `root` is the root that is
    served, if it is set. -/
structure Unguarded (parse : Bytes → Option Json) (fs : FileSystem File) (server : ServerOptions)
    (root : Option Path) (ind : Indeterminate) (request : Request) : Prop where
  /-- the web root is set with a slash at its end -/
  slash : server.webRoot.names = unslashed server.webRoot.names ++ [[]]
  /-- and as the system sees it -/
  seen : ∀ name ∈ server.webRoot.names, 0 ∉ name
  /-- it is served, and asked for -/
  served : isSubpath (root.getD server.webRoot) server.webRoot = true
  asked : ∃ web, fs.canonical (root.getD server.webRoot) = some web ∧
    unslashed (expand ind web request.path).names = unslashed server.webRoot.names
  /-- its configuration asks for what the request does not have -/
  unmet : ¬Meets request
    (((fs.find server.webRoot).bind (configOf parse)).bind (Json.find (ascii "auth")))
  /-- and the options of the server do not -/
  admitted : Admits request (server.options.find (ascii "auth"))
  nodot : ∀ value ∈ server.options.find (ascii "nodot"), ∃ b, value = .boolean b

variable {parse : Bytes → Option Json} {fileserv : Fileserv} {path found : Path}
  {request : Request} {server : ServerOptions} {post : Option StringMap} {auth : Option Json}

/-! ## Credentials -/

/-- What `authFailed` answers where an option is well formed. -/
theorem authResponse_of_credentials {value : Json} {username password : Bytes}
    (h : credentials value = some (username, password)) :
    authResponse request value =
      match request.checkAuthentication username password with
      | .missing =>
        match value.find (ascii "realm") with
        | none => .ok (some (unauthorizedRealm []))
        | some realm => realm.getString.map fun realm => some (unauthorizedRealm realm)
      | .success => .ok none
      | _ => .ok (some unauthorized) := by
  unfold credentials at h
  split at h
  · rename_i name word hname hword
    obtain ⟨rfl, rfl⟩ := Prod.mk.inj (Option.some.inj h)
    unfold authResponse
    rw [Json.valueAt_of_find hname, Json.valueAt_of_find hword]
    show (match request.checkAuthentication name word with
      | .missing => _
      | .success => _
      | _ => _) = _
    cases request.checkAuthentication name word with
    | missing =>
      cases value.find (ascii "realm") with
      | none => rfl
      | some realm => cases realm <;> rfl
    | _ => rfl
  · exact nomatch h

/-- Whoever is let pass has the credentials. -/
theorem Admits.meets (h : Admits request auth) : Meets request auth := by
  intro username password hcredentials
  obtain ⟨value, rfl, hvalue⟩ := Option.bind_eq_some_iff.mp hcredentials
  have hadmits := h value rfl
  rw [authResponse_of_credentials hvalue] at hadmits
  cases hcheck : request.checkAuthentication username password with
  | success => rfl
  | missing =>
    rw [hcheck] at hadmits
    dsimp only at hadmits
    cases hrealm : value.find (ascii "realm") with
    | none =>
      rw [hrealm] at hadmits
      simp at hadmits
    | some realm =>
      rw [hrealm] at hadmits
      cases realm <;> simp [Json.getString, Except.map] at hadmits
  | _ =>
    rw [hcheck] at hadmits
    simp at hadmits

/-! ## What governs a file -/

/-- A slash is not in the middle of a path in normal form: below a path with a slash at its end is
    that path only. -/
theorem eq_of_isSubpath_slash {base : Path} (hnormal : path.Normal)
    (hslash : base.names = unslashed base.names ++ [[]]) (h : isSubpath base path = true) :
    path = base := by
  rcases isSubpath_iff.mp h with heq | ⟨habsolute, -, rest, hrest⟩
  · exact heq.symm
  · obtain rfl | hne := eq_or_ne rest []
    · rw [List.append_nil] at hrest
      calc path = ⟨path.absolute, path.names⟩ := rfl
        _ = base := by rw [← habsolute, ← hrest]
    · refine absurd rfl (hnormal.plain_dropLast [] ?_).1
      rw [← hrest, List.dropLast_append_of_ne_nil hne, hslash, List.append_assoc]
      exact List.mem_append_right _ List.mem_cons_self

/-- What a server finds for the requested path is what governs the file that is sent, unless the
    path is that of the root directory, which is set with a slash. -/
theorem found_governed
    (hcrawl : crawlConfigs parse fileserv.fs server.webRoot = some server.configs)
    (hweb : server.webRoot.Normal) (hdefaults : DefaultsSlashless fileserv)
    (hpath : fileserv.requestedPath server request = some path)
    (hsubpath : isSubpath server.webRoot path = true)
    (hfound : fileserv.findPath path = .ok (some found)) {fuel : Nat}
    (hfuel : path.names.length < fuel) :
    ∃ top dir name, fileserv.fs.resolve server.webRoot = some top ∧
      fileserv.fs.resolve found = some (top ++ dir ++ [name]) ∧
      ((∀ option, server.optionFrom option fuel path.parentPath =
          governing parse fileserv.fs server.options option top dir) ∨
        (server.webRoot.names = unslashed server.webRoot.names ++ [[]] ∧
          (∀ name ∈ server.webRoot.names, 0 ∉ name) ∧ path = server.webRoot ∧ dir = [] ∧
          ∀ option, server.optionFrom option fuel path.parentPath =
            server.options.find option)) := by
  obtain ⟨-, -, hnormal, -⟩ := requestedPath_spec hpath
  obtain ⟨entries, hdir⟩ := crawlConfigs_directory hcrawl
  obtain ⟨top, hresolve, -⟩ := Option.bind_eq_some_iff.mp hdir
  obtain ⟨⟨htop, hzero⟩, dir, name, more, hlocation, hparent, hmore⟩ :=
    found_location hresolve (isDirectory_iff.mpr ⟨entries, hdir⟩) hdefaults hpath hsubpath hfound
  have habsolute : path.absolute = server.webRoot.absolute :=
    hnormal.absolute.trans hweb.absolute.symm
  have hparentPath : path.parentPath = ⟨server.webRoot.absolute, top ++ (dir ++ more)⟩ := by
    unfold Path.parentPath
    rw [hparent, habsolute, List.append_assoc]
  refine ⟨top, dir, name, hresolve, hlocation, ?_⟩
  rw [hparentPath]
  rcases unslashed_cases server.webRoot.names with hslash | hslash
  · refine .inl fun option => optionFrom_crawled hcrawl hresolve (htop.trans hslash.symm)
      hslash.symm ?_ ?_ hmore ?_
    · -- below the root directory of the system is only that itself
      refine or_iff_not_imp_left.mpr fun htopNil => ?_
      have hnil : server.webRoot.names = [] := by
        rw [hslash, ← htop, not_not.mp htopNil]
      rcases isSubpath_iff.mp hsubpath with rfl | ⟨-, hne, -⟩
      · rw [hnil, not_not.mp htopNil] at hparent
        exact hparent.symm
      · exact absurd hnil hne
    · intro n hn
      refine (hnormal.plain_dropLast n ?_).1
      rw [hparent, List.append_assoc]
      exact List.mem_append_right _ hn
    · have hlength := congrArg List.length hparent
      rw [List.length_dropLast, List.append_assoc, List.length_append] at hlength
      omega
  · have hsame := eq_of_isSubpath_slash hnormal hslash hsubpath
    rw [hsame, hslash, List.dropLast_concat, ← htop, List.append_assoc] at hparent
    have hnil : dir ++ more = [] := List.append_right_eq_self.mp hparent.symm
    have hseen : ∀ n ∈ server.webRoot.names, 0 ∉ n := by
      rw [hslash, ← htop]
      intro n hn
      rcases List.mem_append.mp hn with hn | hn
      · exact hzero n hn
      · exact List.mem_singleton.mp hn ▸ List.not_mem_nil
    rw [hnil, List.append_nil, htop]
    exact .inr ⟨hslash, hseen, hsame, (List.append_eq_nil_iff.mp hnil).1,
      fun option => optionFrom_slashed hcrawl hslash⟩

/-- Nothing is before the names of the root directory. -/
theorem governing_nil (fs : FileSystem File) (options : Json) (option : Bytes) (top : List Name) :
    governing parse fs options option top [] =
      (((fs.tree.get top).bind (configOf parse)).bind (Json.find option)).or
        (options.find option) := by
  unfold governing
  rw [upward_nil, List.append_nil]

/-- Where no request comes past the configuration of the root directory, whoever is sent a file has
    the credentials. -/
theorem handleRequest_guarded (h : AuthInPlace fileserv) (hdefaults : DefaultsSlashless fileserv)
    (hcrawl : crawlConfigs parse fileserv.fs server.webRoot = some server.configs)
    (hweb : server.webRoot.Normal)
    (hguarded : ¬Unguarded parse fileserv.fs server fileserv.root fileserv.ind request)
    (nodotSays : Option Bool → Bool) (notDisabled : Bool) :
    (fileserv.handleRequest nodotSays post server request notDisabled).All
      (Guarded parse fileserv.fs server request) := by
  have hnothing : ∀ event : Event, event.source = none →
      Guarded parse fileserv.fs server request event :=
    fun event hnone source hsource => (nomatch hnone.symm.trans hsource)
  apply handleRequest_all
  · intro path
    apply filter_all
    · exact fun response _ => hnothing _ rfl
    · intro f hf
      rw [h.authCheck] at hf
      exact nomatch hf
    · exact fun f hf r p event hevent => hnothing event (h.quietFailed f hf r p event hevent)
    · exact fun f hf r p event hevent => hnothing event (h.quietCheck f hf r p event hevent)
    · exact fun f hf r p event hevent => hnothing event (h.quietCheckFailed f hf r p event hevent)
  · exact fun response _ => hnothing _ rfl
  · exact hnothing _ rfl
  · intro path found nodot hpath hsubpath hpassed hnodot hfound event hevent source hsource
    obtain rfl := (serve_concerns event hevent).2 source hsource
    obtain ⟨-, hbelow, value, hvalue, hadmits⟩ :=
      authFailure_eq_none (filter_passed h.authCheck h.authCheckFailed hpassed)
    obtain ⟨-, rfl⟩ := getOption_eq_ok.mp hvalue
    have hmeets := Admits.meets hadmits
    obtain ⟨top, dir, name, hresolve, hlocation, hgoverns | ⟨hslash, hseen, rfl, rfl, hoption⟩⟩ :=
      found_governed hcrawl hweb hdefaults hpath hbelow hfound (Nat.lt_succ_self path.names.length)
    · exact ⟨top, dir, name, hresolve, hlocation, hgoverns (ascii "auth") ▸ hmeets⟩
    · refine ⟨top, [], name, hresolve, hlocation, ?_⟩
      rw [hoption] at hadmits hmeets
      rw [governing_nil]
      by_contra hunmet
      refine hguarded ⟨hslash, hseen, hsubpath, ?_, ?_, hadmits, ?_⟩
      · obtain ⟨web, hcanonical, hexpand⟩ := Option.map_eq_some_iff.mp hpath
        exact ⟨web, hcanonical, by rw [← hexpand, unslashed_slashDirectory]⟩
      · unfold FileSystem.find
        rw [hresolve]
        dsimp only [Option.bind_some]
        cases hroot : ((fileserv.fs.tree.get top).bind (configOf parse)).bind
            (Json.find (ascii "auth")) with
        | none =>
          rw [hroot, Option.none_or] at hunmet
          exact absurd hmeets hunmet
        | some auth =>
          rw [hroot, Option.some_or] at hunmet
          exact hunmet
      · obtain ⟨value, hvalue, hbool⟩ := getBoolOption_eq_ok hnodot
        obtain ⟨-, rfl⟩ := getOption_eq_ok.mp hvalue
        rw [hoption] at hbool
        rw [hbool]
        intro value hmem
        obtain ⟨b, -, rfl⟩ := Option.map_eq_some_iff.mp hmem
        exact ⟨b, rfl⟩

/-! ## Past the configuration of the root directory -/

/-- The name of a configuration to the system, and that of a template to `serve`. -/
def configTemplate : Name := configName ++ 0 :: ascii ".t"

/-- A `Fileserv` that goes on to the configuration of a directory as its default file. -/
def sendsConfig (root : Option Path) (ind : Indeterminate) (fs : FileSystem File)
    (request : Request) : Fileserv where
  hostnames := (request.headers[ascii "host"]?).map ([·])
  root := root
  enableModules := true
  defaults := some (.string configTemplate)
  fs := fs
  ind := ind

section Slashed

variable {fs : FileSystem File}
  (hcrawl : crawlConfigs parse fs server.webRoot = some server.configs)
  (hslash : server.webRoot.names = unslashed server.webRoot.names ++ [[]])

include hslash in
theorem webRoot_filename : server.webRoot.filename = [] := by
  unfold Path.filename
  rw [hslash, List.getLastD_concat]

include hcrawl hslash in
/-- Of the root directory, only the options of the server are found. -/
theorem getOption_webRoot (option : Bytes) :
    server.getOption server.webRoot option = .ok (server.options.find option) := by
  refine getOption_eq_ok.mpr ⟨isSubpath_iff.mpr (.inl rfl), ?_⟩
  have hparent : server.webRoot.parentPath =
      ⟨server.webRoot.absolute, unslashed server.webRoot.names⟩ := by
    unfold Path.parentPath
    rw [hslash, List.dropLast_concat, unslashed_slash]
  rw [hparent, optionFrom_slashed hcrawl hslash]

include hcrawl hslash in
theorem authFailure_webRoot (hadmitted : Admits request (server.options.find (ascii "auth"))) :
    authFailure server request server.webRoot = .ok none := by
  have hname : server.webRoot.filename ≠ configName := by
    rw [webRoot_filename hslash]
    decide
  unfold authFailure
  rw [getOption_webRoot hcrawl hslash]
  dsimp only
  rw [if_neg hname]
  cases hauth : server.options.find (ascii "auth") with
  | none => rfl
  | some auth =>
    dsimp only
    rcases hadmitted auth hauth with hresponse | hresponse
    · rw [hresponse]
    · rw [hresponse]

include hcrawl hslash in
theorem getBoolOption_webRoot {option : Bytes}
    (hbool : ∀ value ∈ server.options.find option, ∃ b, value = .boolean b) :
    ∃ b, server.getBoolOption server.webRoot option = .ok b := by
  unfold ServerOptions.getBoolOption
  rw [getOption_webRoot hcrawl hslash]
  cases hoption : server.options.find option with
  | none => exact ⟨none, rfl⟩
  | some value =>
    obtain ⟨b, rfl⟩ := hbool value hoption
    exact ⟨some b, rfl⟩

end Slashed

section Unguarded

variable {fs : FileSystem File} {root : Option Path} {ind : Indeterminate}
  {entries : List (Name × Node File)} {top : List Name}

theorem hostMatches_sendsConfig : (sendsConfig root ind fs request).hostMatches request = true := by
  unfold hostMatches sendsConfig
  dsimp only
  cases hhost : request.headers[ascii "host"]? with
  | none =>
    show (!request.headers.contains (ascii "host")) = true
    rw [Std.ExtTreeMap.contains_eq_isSome_getElem?, hhost]
    rfl
  | some host => exact List.contains_iff_mem.mpr (List.mem_singleton_self host)

/-- The path of the root directory is what such a request asks for. -/
theorem requestedPath_webRoot (h : Unguarded parse fs server root ind request)
    (hweb : server.webRoot.Normal)
    (htree : fs.tree.get (unslashed server.webRoot.names) = some (.dir entries)) :
    (sendsConfig root ind fs request).requestedPath server request = some server.webRoot := by
  obtain ⟨web, hcanonical, hasked⟩ := h.asked
  have hnormal := expand_normal ind (canonical_spec hcanonical).2.1 request.path
  have hzero : ∀ name ∈ unslashed (expand ind web request.path).names, 0 ∉ name := by
    rw [hasked]
    exact fun name hname => h.seen name (unslashed_subset _ hname)
  have hwalk : fs.walk [] (unslashed (expand ind web request.path).names) =
      some (unslashed server.webRoot.names) := by
    have hsome : (fs.tree.get ([] ++ unslashed server.webRoot.names)).isSome = true := by
      rw [List.nil_append, htree]
      rfl
    rw [hasked]
    exact walk_plain hweb.plain hsome
  have hdirectory : fs.isDirectory (expand ind web request.path) = true := by
    refine isDirectory_iff.mpr ⟨entries, ?_⟩
    unfold FileSystem.find
    rw [resolve_directory hnormal.absolute hzero hwalk ⟨entries, htree⟩]
    exact htree
  have hslashed : ((expand ind web request.path).append ⟨false, []⟩).names =
      server.webRoot.names := by
    have hdropLast := dropLast_append_slash (expand ind web request.path)
    rw [hasked] at hdropLast
    rcases unslashed_cases ((expand ind web request.path).append ⟨false, []⟩).names with heq | heq
    · -- only the root directory of the system is the same with a slash
      rw [unslashed_append_slash, hasked] at heq
      rw [heq] at hdropLast
      have hlength := congrArg List.length hdropLast
      rw [List.length_dropLast] at hlength
      have hnil : unslashed server.webRoot.names = [] := List.length_eq_zero_iff.mp (by omega)
      have hslash := h.slash
      rw [hnil] at hslash
      exact absurd hslash hweb.named
    · rw [heq, unslashed_append_slash, hasked, ← h.slash]
  unfold requestedPath
  show (fs.canonical (root.getD server.webRoot)).map _ = _
  rw [hcanonical]
  show some (if fs.isDirectory (expand ind web request.path) = true then
    (expand ind web request.path).append ⟨false, []⟩ else expand ind web request.path) = _
  rw [if_pos hdirectory]
  congr 1
  calc (expand ind web request.path).append ⟨false, []⟩
      = ⟨((expand ind web request.path).append ⟨false, []⟩).absolute,
          ((expand ind web request.path).append ⟨false, []⟩).names⟩ := rfl
    _ = server.webRoot := by
        rw [append_absolute hnormal.absolute, hslashed, ← hweb.absolute]

/-- The configuration of a directory is found behind the directory, under its name as a default
    file. -/
theorem regularFile_configTemplate {f : File} (habsolute : server.webRoot.absolute = true)
    (htree : fs.tree.get (unslashed server.webRoot.names) = some (.dir entries))
    (hentry : Node.entry configName entries = some (.file f)) :
    server.webRoot.append ⟨false, [configTemplate]⟩ =
        ⟨true, unslashed server.webRoot.names ++ [configTemplate]⟩ ∧
      fs.resolve (server.webRoot.append ⟨false, [configTemplate]⟩) =
        some (unslashed server.webRoot.names ++ [configName]) ∧
      fs.regularFile (server.webRoot.append ⟨false, [configTemplate]⟩) = some f := by
  have heq : server.webRoot.append ⟨false, [configTemplate]⟩ =
      ⟨true, unslashed server.webRoot.names ++ [configTemplate]⟩ := by
    rw [append_name, below_of_ne_nil _ (List.cons_ne_nil _ _), habsolute]
  have hget : fs.tree.get (unslashed server.webRoot.names ++ [configName]) = some (.file f) := by
    rw [get_append, htree]
    show (Node.entry configName entries).bind (Node.get []) = _
    rw [hentry]
    rfl
  obtain ⟨-, hnames⟩ := fs.wellFormed.get hget
  have hcut : cut (unslashed server.webRoot.names ++ [configTemplate]) =
      unslashed server.webRoot.names ++ [configName] := by
    rw [cut_append_of_not_mem fun name hname => (hnames name (List.mem_append_left _ hname)).2.1]
    rfl
  have hresolve : fs.resolve ⟨true, unslashed server.webRoot.names ++ [configTemplate]⟩ =
      some (unslashed server.webRoot.names ++ [configName]) := by
    have hsome : (fs.tree.get ([] ++ (unslashed server.webRoot.names ++ [configName]))).isSome =
        true := by
      rw [List.nil_append, hget]
      rfl
    unfold FileSystem.resolve
    rw [if_pos rfl, hcut]
    exact walk_plain (fun name hname => (hnames name hname).1) hsome
  rw [heq]
  refine ⟨rfl, hresolve, regularFile_eq_some.mpr ?_⟩
  unfold FileSystem.find
  rw [hresolve]
  exact hget

/-- A request that comes past the configuration of the root directory is sent that configuration,
    if it is a default file. -/
theorem sendsConfig_sends
    (hcrawl : crawlConfigs parse fs server.webRoot = some server.configs)
    (hweb : server.webRoot.Normal) (h : Unguarded parse fs server root ind request) :
    ¬((sendsConfig root ind fs request).handleGET server request true).All
      (Guarded parse fs server request) := by
  obtain ⟨entries, hdir⟩ := crawlConfigs_directory hcrawl
  obtain ⟨top, hresolve, htree⟩ := Option.bind_eq_some_iff.mp hdir
  have hzero : ∀ name ∈ unslashed server.webRoot.names, 0 ∉ name := fun name hname =>
    h.seen name (unslashed_subset _ hname)
  have htop : top = unslashed server.webRoot.names := resolve_plain hresolve hweb.plain hzero
  -- the configuration is there, and it can be read
  obtain ⟨auth, hauth⟩ : ∃ auth, ((fs.find server.webRoot).bind (configOf parse)).bind
      (Json.find (ascii "auth")) = some auth := by
    refine Option.ne_none_iff_exists'.mp fun hnone => h.unmet ?_
    rw [hnone]
    exact fun _ _ heq => nomatch heq
  have hrootAuth := hauth
  rw [hdir, Option.bind_some] at hrootAuth
  obtain ⟨config, hconfig, -⟩ := Option.bind_eq_some_iff.mp hrootAuth
  obtain ⟨_, f, hsame, hentry, -⟩ := configOf_eq_some hconfig
  obtain rfl := Node.dir.inj hsame
  have hreadable := crawlConfigs_readable hcrawl hdir (mem_of_entry hentry)
  rw [htop] at htree
  obtain ⟨heq, hlocation, hfile⟩ := regularFile_configTemplate hweb.absolute htree hentry
  have hfound : (sendsConfig root ind fs request).findPath server.webRoot =
      .ok (some (server.webRoot.append ⟨false, [configTemplate]⟩)) := by
    have hbytes : Path.ofBytes configTemplate = ⟨false, [configTemplate]⟩ :=
      ofBytes_of_not_mem (by decide) (by decide)
    have hnone : fs.isRegularFile server.webRoot = false := by
      unfold FileSystem.isRegularFile FileSystem.regularFile
      rw [hdir]
      rfl
    have hsome : fs.isRegularFile (server.webRoot.append ⟨false, [configTemplate]⟩) = true := by
      unfold FileSystem.isRegularFile
      rw [hfile]
      rfl
    unfold findPath
    show (if fs.isRegularFile server.webRoot = true then _ else
      Except.ok ([server.webRoot.append (Path.ofBytes configTemplate)].find? fs.isRegularFile)) = _
    rw [hnone, if_neg Bool.false_ne_true, hbytes, List.find?_cons_of_pos hsome]
  have hextension : (server.webRoot.append ⟨false, [configTemplate]⟩).extension = ascii ".t" := by
    unfold Path.extension Path.filename
    rw [heq, List.getLastD_concat]
    decide
  have hno : NoOverrides (sendsConfig root ind fs request) := ⟨rfl, rfl, rfl, rfl⟩
  have hkept : (sendsConfig root ind fs request).keepsBack server server.webRoot = .ok false := by
    have hcompiled : (sendsConfig root ind fs request).isCompiledModule server.webRoot = false := by
      have hnone : server.webRoot.extension = [] := by
        unfold Path.extension
        rw [webRoot_filename h.slash]
        rfl
      unfold isCompiledModule
      rw [hnone]
      rfl
    show Except.ok (true && (sendsConfig root ind fs request).isCompiledModule server.webRoot) = _
    rw [hcompiled]
    rfl
  obtain ⟨nodot, hnodot⟩ := getBoolOption_webRoot hcrawl h.slash h.nodot
  have hallows : ((nodot.getD false) && server.webRoot.filename.head? = some 46) = false := by
    rw [webRoot_filename h.slash]
    exact Bool.and_false _
  intro hall
  unfold handleGET at hall
  rw [handleRequest_serves hno hostMatches_sendsConfig (requestedPath_webRoot h hweb htree) h.served
    (authFailure_webRoot hcrawl h.slash h.admitted) hkept hnodot hallows hfound] at hall
  have hserve : (sendsConfig root ind fs request).serve server request none
      (server.webRoot.append ⟨false, [configTemplate]⟩) =
      (sendsConfig root ind fs request).serveTemplate none
        (server.webRoot.append ⟨false, [configTemplate]⟩) := if_pos hextension
  obtain ⟨event, hevent, hsource⟩ : ∃ event ∈ ((sendsConfig root ind fs request).serve server
      request none (server.webRoot.append ⟨false, [configTemplate]⟩)).events,
      event.source = some (server.webRoot.append ⟨false, [configTemplate]⟩) := by
    rw [hserve]
    exact serveTemplate_sends hfile hreadable rfl
  obtain ⟨top', dir, name, hresolve', hlocation', hmeets⟩ :=
    hall event (Trace.mem_handle (Trace.mem_bind.mpr (.inl hevent))) _ hsource
  -- that is a file of the root directory, and its configuration governs it
  obtain rfl := Option.some.inj (hresolve'.symm.trans hresolve)
  rw [hlocation', htop] at hlocation
  have hnames := Option.some.inj hlocation
  rw [List.append_assoc] at hnames
  have hlast : dir ++ [name] = [] ++ [configName] := List.append_cancel_left hnames
  obtain ⟨rfl, -⟩ := List.append_inj' hlast rfl
  have hunmet := h.unmet
  rw [hdir] at hunmet hauth
  rw [governing_nil, htop, htree, hauth, Option.some_or] at hmeets
  rw [hauth] at hunmet
  exact hunmet hmeets

end Unguarded

/-- A file is sent to those who have the credentials that its configuration asks for, whatever the
    plugin is told of default files, hosts and modules, if and only if the request does not come
    past the configuration of the root directory. -/
theorem guarded_iff (parse : Bytes → Option Json) (fs : FileSystem File)
    (workingDirectory : Path) (hdirectory : workingDirectory.absolute = true) (options : Json)
    (server : ServerOptions) (hstart : startServer parse fs workingDirectory options = some server)
    (root : Option Path) (ind : Indeterminate) (request : Request) :
    (∀ (fileserv : Fileserv) (notDisabled : Bool), fileserv.root = root → fileserv.ind = ind →
      fileserv.fs = fs → AuthInPlace fileserv → DefaultsSlashless fileserv →
      (fileserv.handleGET server request notDisabled).All (Guarded parse fs server request) ∧
        (fileserv.handlePOST server request notDisabled).All (Guarded parse fs server request)) ↔
      ¬Unguarded parse fs server root ind request := by
  obtain ⟨-, hcrawl, setting, hsetting⟩ := startServer_eq_some hstart
  have hweb : server.webRoot.Normal := hsetting ▸ getWebRoot_normal hdirectory setting
  constructor
  · intro hall hunguarded
    refine sendsConfig_sends hcrawl hweb hunguarded
      (hall (sendsConfig root ind fs request) true rfl rfl rfl ?_ ?_).1
    · exact ⟨rfl, fun _ h => (nomatch h), fun _ h => (nomatch h), fun _ h => (nomatch h),
        fun _ h => (nomatch h)⟩
    · intro defaults h filename hmem
      obtain rfl : [configTemplate] = defaults := Except.ok.inj h
      rw [List.mem_singleton.mp hmem]
      decide
  · intro hguarded fileserv notDisabled hroot hind hfs hauth hdefaults
    subst hroot hind hfs
    exact ⟨handleRequest_guarded hauth hdefaults hcrawl hweb hguarded _ _,
      handleRequest_guarded hauth hdefaults hcrawl hweb hguarded _ _⟩

/-! ## A protected page -/

/-- Every text is read as a configuration that asks for the user name `u` and the password `p`. -/
def parseProtected (_ : Bytes) : Option Json :=
  some (.object [(ascii "auth",
    .object [(ascii "username", .string (ascii "u")), (ascii "password", .string (ascii "p"))])])

/-- A directory with a page and a configuration. -/
def protectedFiles : List (Name × Node File) :=
  [(configName, .file { content := ascii "u:p" }),
    (ascii "index.t", .file { content := ascii "page" })]

/-- The directory is `/srv/www`. -/
def protectedPage : FileSystem File :=
  .ofNode (.dir protectedFiles)
    (.dir _ (by decide) (by decide) (by
      intro e he
      rcases List.mem_cons.mp he with rfl | he
      · exact .file _
      · exact List.mem_singleton.mp he ▸ .file _))
    [ascii "srv", ascii "www"] (by decide) (by decide)

/-- What a server is started with that has this root. -/
def startPage (setting : Bytes) : Option ServerOptions :=
  startServer parseProtected protectedPage Path.root (.object [(ascii "root", .string setting)])

/-- The server, if it starts. -/
def pageServer (setting : Bytes) : ServerOptions :=
  (startPage setting).getD { webRoot := Path.root, options := .null, configs := fun _ => none }

theorem startPage_eq {setting : Bytes} (h : (startPage setting).isSome = true) :
    startPage setting = some (pageServer setting) := by
  obtain ⟨server, hserver⟩ := Option.isSome_iff_exists.mp h
  unfold pageServer
  rw [hserver]
  rfl

/-- A `Fileserv` with this page as its default file. -/
def servesIndex : Fileserv where
  defaults := some (.string (ascii "index.t"))
  fs := protectedPage

theorem servesIndex_defaultsSlashless : DefaultsSlashless servesIndex := by
  intro defaults h filename hmem
  obtain rfl : [ascii "index.t"] = defaults := Except.ok.inj h
  rw [List.mem_singleton.mp hmem]
  decide

theorem servesIndex_authInPlace : AuthInPlace servesIndex :=
  ⟨rfl, fun _ h => (nomatch h), fun _ h => (nomatch h), fun _ h => (nomatch h),
    fun _ h => (nomatch h)⟩

theorem guarded_iff_page :
    (servesIndex.handleGET (pageServer (ascii "/srv/www")) { path := ascii "/" } true).All
      (Guarded parseProtected protectedPage (pageServer (ascii "/srv/www"))
        { path := ascii "/" }) := by
  have hstart := startPage_eq (by decide : (startPage (ascii "/srv/www")).isSome = true)
  have hwebRoot : (pageServer (ascii "/srv/www")).webRoot = ⟨true, [ascii "srv", ascii "www"]⟩ := by
    decide
  refine ((guarded_iff parseProtected protectedPage Path.root rfl _ _ hstart none {}
    { path := ascii "/" }).mpr (fun h => ?_) servesIndex true rfl rfl rfl
      servesIndex_authInPlace servesIndex_defaultsSlashless).1
  have hslash := h.slash
  rw [hwebRoot] at hslash
  exact absurd hslash (by decide)

/-- With a slash behind the root, the page is sent to everyone. -/
theorem sends_protected_page :
    startPage (ascii "/srv/www/") = some (pageServer (ascii "/srv/www/")) ∧
      AuthInPlace servesIndex ∧ DefaultsSlashless servesIndex ∧
      ¬(servesIndex.handleGET (pageServer (ascii "/srv/www/")) { path := ascii "/" } true).All
        (Guarded parseProtected protectedPage (pageServer (ascii "/srv/www/"))
          { path := ascii "/" }) := by
  refine ⟨startPage_eq (by decide), servesIndex_authInPlace, servesIndex_defaultsSlashless,
    fun hall => ?_⟩
  have hsent : (servesIndex.handleGET (pageServer (ascii "/srv/www/"))
      { path := ascii "/" } true).events.filterMap Event.source =
        [⟨true, [ascii "srv", ascii "www", ascii "index.t"]⟩] := by decide
  obtain ⟨event, hevent, hsource⟩ := List.mem_filterMap.mp (hsent ▸ List.mem_singleton_self _)
  obtain ⟨top, dir, name, htop, hlocation, hmeets⟩ := hall event hevent _ hsource
  have hroot : protectedPage.resolve (pageServer (ascii "/srv/www/")).webRoot =
      some [ascii "srv", ascii "www"] := by decide
  obtain rfl := Option.some.inj (htop.symm.trans hroot)
  have hpage : protectedPage.resolve ⟨true, [ascii "srv", ascii "www", ascii "index.t"]⟩ =
      some ([ascii "srv", ascii "www"] ++ [ascii "index.t"]) := by decide
  rw [hlocation, List.append_assoc] at hpage
  have hlast : dir ++ [name] = [] ++ [ascii "index.t"] :=
    List.append_cancel_left (Option.some.inj hpage)
  obtain ⟨rfl, -⟩ := List.append_inj' hlast rfl
  -- the configuration in the directory asks for credentials, and the request has none
  have hcheck := hmeets (ascii "u") (ascii "p") (by decide)
  exact absurd hcheck (by decide)

end Algiz.Plugins.Fileserv
