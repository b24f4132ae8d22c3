/-
  `Fileserv`: what is decided about a request before anything is served.

  A handler lets a request pass, refuses it, or serves a file; up to there GET and POST run the
  same program twice in the source. A handler's run is that of its decision, and what follows from
  the decision (`handleRequest_eq`). The two decide differently where the option `nodot` is set to
  false and the name begins with a dot (`sameAccess_iff`).
-/
import Algiz.Fileserv.Runs

namespace Algiz.Plugins.Fileserv

open Lib HTTP

variable (fileserv : Fileserv)

/-- What a handler decides. -/
inductive Access where
  | pass
  | kill
  /-- this file is served -/
  | serves (found : Path)

/-! ## Deciding and acting -/

/-- The decision when the filters let a path pass. -/
def decideAfterFilter (nodotSays : Option Bool → Bool) (server : ServerOptions) (path : Path) :
    Run Access :=
  orThrow (server.getBoolOption path (ascii "nodot")) >>= fun nodot =>
    if nodotSays nodot && path.filename.head? = some 46 then
      Trace.emitAll [.respond unauthorized none, .closed] >>= fun _ => pure .kill
    else orThrow (fileserv.findPath path) >>= fun found => pure (found.elim .pass .serves)

/-- The decision when the path has been expanded. -/
def decideAfterExpand (nodotSays : Option Bool → Bool) (server : ServerOptions)
    (request : Request) (path : Path) : Run Access :=
  if !isSubpath (fileserv.getRoot server) path then pure .pass
  else fileserv.filter server request path >>= fun passed =>
    if !passed then Trace.emit .closed >>= fun _ => pure .kill
    else fileserv.decideAfterFilter nodotSays server path

/-- What a handler decides, and what it does until then. -/
def decideAccess (nodotSays : Option Bool → Bool) (server : ServerOptions) (request : Request)
    (notDisabled : Bool) : Run Access :=
  if !notDisabled then pure .pass
  else if !fileserv.hostMatches request then pure .pass
  else match fileserv.requestedPath server request with
    | none => throwing .other
    | some path => fileserv.decideAfterExpand nodotSays server request path

/-- What follows from a decision. -/
def act (server : ServerOptions) (request : Request) (post : Option StringMap) :
    Access → Run CancelableResult
  | .pass => pure .pass
  | .kill => pure .kill
  | .serves found => Trace.handle
      (fileserv.serve server request post found >>= fun _ => closeWith .approve) forbid

/-- `handleGET` and `handlePOST` act on the same decision, and do the same until then. -/
def SameAccess (server : ServerOptions) (request : Request) (notDisabled : Bool) : Prop :=
  ∃ access : Run Access,
    fileserv.handleGET server request notDisabled =
        access >>= fileserv.act server request none ∧
      fileserv.handlePOST server request notDisabled =
        access >>= fileserv.act server request (some request.postParameters)

/-- The filters let a path pass that has the option `nodot`, set to false, and a name that begins
    with a dot. -/
def DotsAllowed (server : ServerOptions) (request : Request) (notDisabled : Bool) : Prop :=
  notDisabled = true ∧ fileserv.hostMatches request = true ∧
    ∃ path, fileserv.requestedPath server request = some path ∧
      isSubpath (fileserv.getRoot server) path = true ∧
      (fileserv.filter server request path).result = .ok true ∧
      server.getBoolOption path (ascii "nodot") = .ok (some false) ∧
      path.filename.head? = some 46

section Decisions

variable {fileserv : Fileserv} {server : ServerOptions} {request : Request}
  {notDisabled : Bool} {path : Path}

theorem afterFilter_eq (nodotSays : Option Bool → Bool) (post : Option StringMap) :
    fileserv.afterFilter nodotSays post server request path =
      fileserv.decideAfterFilter nodotSays server path >>=
        fileserv.act server request post := by
  unfold afterFilter decideAfterFilter
  rw [Trace.bind_assoc]
  refine Trace.bind_congr fun nodot _ => ?_
  split
  · rfl
  · rw [Trace.bind_assoc]
    refine Trace.bind_congr fun found _ => ?_
    cases found with
    | none => rfl
    | some found => rfl

theorem afterExpand_eq (nodotSays : Option Bool → Bool) (post : Option StringMap) :
    fileserv.afterExpand nodotSays post server request path =
      fileserv.decideAfterExpand nodotSays server request path >>=
        fileserv.act server request post := by
  unfold afterExpand decideAfterExpand
  split
  · rfl
  · rw [Trace.bind_assoc]
    refine Trace.bind_congr fun passed _ => ?_
    cases passed with
    | false => rfl
    | true => exact afterFilter_eq nodotSays post

/-- A handler decides, and acts on that. -/
theorem handleRequest_eq (nodotSays : Option Bool → Bool) (post : Option StringMap) :
    fileserv.handleRequest nodotSays post server request notDisabled =
      fileserv.decideAccess nodotSays server request notDisabled >>=
        fileserv.act server request post := by
  unfold handleRequest decideAccess requestedPath
  split
  · rfl
  split
  · rfl
  cases fileserv.fs.canonical (fileserv.getRoot server) with
  | none => rfl
  | some root => exact afterExpand_eq nodotSays post

/-- Serving a file does not end in a refusal. -/
theorem act_kill {post : Option StringMap} {access : Access} :
    (fileserv.act server request post access).result = .ok .kill ↔ access = .kill := by
  cases access with
  | pass => exact iff_of_false (fun h => nomatch h) (fun h => nomatch h)
  | kill => exact iff_of_true rfl rfl
  | serves found =>
    refine iff_of_false (fun h => ?_) (fun h => nomatch h)
    rcases Trace.handle_eq_ok.mp h with hserved | ⟨e, y, -, hforbid, hkill⟩
    · obtain ⟨u, -, hclosed⟩ := Trace.bind_eq_ok.mp hserved
      exact nomatch hclosed
    · cases e with
      | aborted => exact nomatch hforbid
      | thrown e =>
        obtain rfl := Option.some.inj hforbid
        exact nomatch hkill

/-- A request is refused by what is decided. -/
theorem bind_act_kill {post : Option StringMap} {access : Run Access} :
    (access >>= fileserv.act server request post).result = .ok .kill ↔
      access.result = .ok .kill := by
  rw [Trace.bind_eq_ok]
  constructor
  · rintro ⟨a, ha, hkill⟩
    rw [ha, act_kill.mp hkill]
  · exact fun h => ⟨.kill, h, rfl⟩

/-! ## Where the handlers differ -/

/-- A name that begins with a dot, and `nodot` set to false: POST refuses it, and GET does not. -/
theorem DotsAllowed.decides (h : DotsAllowed fileserv server request notDisabled) :
    (fileserv.decideAccess Option.isSome server request notDisabled).result = .ok .kill ∧
      (fileserv.decideAccess (·.getD false) server request notDisabled).result ≠ .ok .kill := by
  obtain ⟨rfl, hhost, path, hpath, hsubpath, hfilter, hnodot, hdot⟩ := h
  have hreached : ∀ nodotSays, (fileserv.decideAccess nodotSays server request true).result =
      (fileserv.decideAfterFilter nodotSays server path).result := by
    intro nodotSays
    unfold decideAccess
    rw [hhost, hpath]
    show (fileserv.decideAfterExpand nodotSays server request path).result = _
    unfold decideAfterExpand
    rw [hsubpath, Trace.bind_of_ok hfilter]
    rfl
  rw [hreached, hreached]
  unfold decideAfterFilter
  rw [hnodot, hdot]
  refine ⟨rfl, fun hkill => ?_⟩
  obtain ⟨nodot, hfalse, hkill⟩ := Trace.bind_eq_ok.mp hkill
  obtain rfl : some false = nodot := Except.ok.inj hfalse
  obtain ⟨found, -, hkill⟩ := Trace.bind_eq_ok.mp hkill
  cases found with
  | none => exact nomatch hkill
  | some found => exact nomatch hkill

/-- Elsewhere they decide the same. -/
theorem decideAccess_same (h : ¬DotsAllowed fileserv server request notDisabled) :
    fileserv.decideAccess Option.isSome server request notDisabled =
      fileserv.decideAccess (·.getD false) server request notDisabled := by
  unfold decideAccess
  split
  · rfl
  rename_i hdisabled
  split
  · rfl
  rename_i hhost
  cases hpath : fileserv.requestedPath server request with
  | none => rfl
  | some path =>
    dsimp only
    unfold decideAfterExpand
    split
    · rfl
    rename_i hsubpath
    refine Trace.bind_congr fun passed hpassed => ?_
    cases passed with
    | false => rfl
    | true =>
      show fileserv.decideAfterFilter _ server path = fileserv.decideAfterFilter _ server path
      unfold decideAfterFilter
      refine Trace.bind_congr fun nodot hnodot => ?_
      have hsame : (nodot.isSome && path.filename.head? = some 46) =
          (nodot.getD false && path.filename.head? = some 46) := by
        match nodot with
        | none => rfl
        | some true => rfl
        | some false =>
          have hdot : path.filename.head? ≠ some 46 := fun hdot =>
            h ⟨by simpa using hdisabled, by simpa using hhost, path, hpath, by simpa using hsubpath,
              hpassed, orThrow_eq_ok.mp hnodot, hdot⟩
          simp [hdot]
      rw [hsame]

/-- The handlers of GET and of POST take the same decision, and do the same until then, if and only
    if it is no name with a dot for which `nodot` is set to false. -/
theorem sameAccess_iff (fileserv : Fileserv) (server : ServerOptions) (request : Request)
    (notDisabled : Bool) :
    SameAccess fileserv server request notDisabled ↔
      ¬DotsAllowed fileserv server request notDisabled := by
  constructor
  · rintro ⟨access, hget, hpost⟩ hdots
    obtain ⟨hpostKills, hgetServes⟩ := hdots.decides
    have hkill : access.result = .ok .kill := by
      rw [← bind_act_kill, ← hpost]
      unfold handlePOST
      rw [handleRequest_eq, bind_act_kill]
      exact hpostKills
    have hgetKills : (fileserv.handleGET server request notDisabled).result = .ok .kill := by
      rw [hget, bind_act_kill]
      exact hkill
    unfold handleGET at hgetKills
    rw [handleRequest_eq, bind_act_kill] at hgetKills
    exact hgetServes hgetKills
  · intro hdots
    refine ⟨fileserv.decideAccess (·.getD false) server request notDisabled,
      handleRequest_eq _ none, ?_⟩
    rw [← decideAccess_same hdots]
    exact handleRequest_eq _ _

/-- A file of one letter in `/srv`, with a dot before its name. -/
def dotFile : FileSystem File :=
  .ofFile { content := ascii "x" } [ascii "srv", ascii ".f"] (by decide) (by decide)

/-- A server of `/srv` that says that names with a dot are served. -/
def dotServer : ServerOptions where
  webRoot := getWebRoot Path.root (ascii "/srv")
  options := .object [(ascii "nodot", .boolean false)]
  configs := fun _ => none

/-- A GET request for the file is served, and a POST request is refused. -/
theorem dotFile_differs :
    (({ fs := dotFile } : Fileserv).handleGET dotServer { path := ascii "/.f" } true).result =
        .ok .approve ∧
      (({ fs := dotFile } : Fileserv).handlePOST dotServer { path := ascii "/.f" } true).result =
        .ok .kill ∧
      ¬SameAccess { fs := dotFile } dotServer { path := ascii "/.f" } true := by
  have hget : (({ fs := dotFile } : Fileserv).handleGET dotServer
      { path := ascii "/.f" } true).result = .ok .approve := by decide
  have hpost : (({ fs := dotFile } : Fileserv).handlePOST dotServer
      { path := ascii "/.f" } true).result = .ok .kill := by decide
  refine ⟨hget, hpost, ?_⟩
  rintro ⟨access, hgetActs, hpostActs⟩
  rw [hpostActs, bind_act_kill, ← bind_act_kill, ← hgetActs, hget] at hpost
  exact nomatch hpost

end Decisions

end Algiz.Plugins.Fileserv
