/-
  `Fileserv`: the handlers of GET and POST requests.

  A request's path is unescaped, put behind the web root and normalized (`expand`). `filter` asks
  for a password and keeps configurations and compiled modules back; it looks at the path as it
  was asked for, and at its bytes, while a file is found and opened by what stands before the
  first NUL. `findPath` goes on to a default file.
-/
import Algiz.Fileserv.Sending
import Algiz.Plugins

namespace Algiz.Plugins.Fileserv

open Lib HTTP

variable (fileserv : Fileserv)

/-! ## Paths -/

/-- `Fileserv::getRoot` -/
def getRoot (server : ServerOptions) : Path := fileserv.root.getD server.webRoot

/-- `Fileserv::hostMatches` -/
def hostMatches (request : Request) : Bool :=
  match fileserv.hostnames with
  | some hostnames =>
    match request.headers[ascii "host"]? with
    | some host => hostnames.contains host
    | none => false
  | none => !request.headers.contains (ascii "host")

/-- `expand`, behind the canonical web root. -/
def expand (ind : Indeterminate) (root : Path) (requestPath : Bytes) : Path :=
  (root.append (Path.ofBytes (ascii "./" ++ unescape ind requestPath true))).lexicallyNormal

/-- `if (is_directory(full_path)) full_path /= "";` -/
def slashDirectory (path : Path) : Path :=
  if fileserv.fs.isDirectory path then path.append ⟨false, []⟩ else path

/-- `Fileserv::getDefaults` -/
def getDefaults : Except Exception (List Bytes) :=
  match fileserv.defaults with
  | none => .ok []
  | some (.string filename) => .ok [filename]
  | some (.array filenames) => (filenames.mapM Json.getString).mapError fun _ => .other
  | some _ => .error (.runtimeError
      (ascii "httpfileserv.default is required to be a string or array of strings"))

/-- `Fileserv::findPath`: the path that it leaves if it returns true. -/
def findPath (path : Path) : Except Exception (Option Path) :=
  if fileserv.fs.isRegularFile path then .ok (some path)
  else match fileserv.getDefaults with
    | .error e => .error e
    | .ok defaults =>
      .ok ((defaults.map fun filename => path.append (Path.ofBytes filename)).find?
        fileserv.fs.isRegularFile)

/-! ## Filters -/

/-- `canExecute(path)`. Where nothing is, the permissions are unknown, and that is all of them; no
    directory is asked about. -/
def canExecute (path : Path) : Bool :=
  match fileserv.fs.regularFile path with
  | some file => file.canExecute
  | none => true

theorem canExecute_file {file : File} (h : fileserv.fs.regularFile path = some file) :
    fileserv.canExecute path = file.canExecute := by
  unfold canExecute
  rw [h]

/-- `Fileserv::getModulesEnabled` -/
def getModulesEnabled (server : ServerOptions) (path : Path) : Except Exception Bool :=
  if fileserv.enableModules then .ok true
  else (server.getBoolOption path (ascii "enableModules")).map (·.getD false)

/-- What `authFailed` answers to credentials: `none` if they are right. -/
def authResponse (request : Request) (auth : Json) : Except JsonError (Option Response) := do
  let username ← (← auth.valueAt (ascii "username")).getString
  let password ← (← auth.valueAt (ascii "password")).getString
  match request.checkAuthentication username password with
  | .missing =>
    match auth.find (ascii "realm") with
    | none => return some (unauthorizedRealm [])
    | some realm => return some (unauthorizedRealm (← realm.getString))
  | .success => return none
  | _ => return some unauthorized

/-- What `authFailed` answers: `none` if it returns false. -/
def authFailure (server : ServerOptions) (request : Request) (path : Path) :
    Except Exception (Option Response) :=
  let config := if path.filename = configName then some unauthorized else none
  match server.getOption path (ascii "auth") with
  | .error e => .error e
  | .ok none => .ok config
  | .ok (some auth) =>
    match authResponse request auth with
    | .ok (some response) => .ok (some response)
    | .ok none => .ok config
    -- a user name or a password is missing; any other flaw is not caught
    | .error .outOfRange => .ok config
    | .error .typeError => .error .other

/-- `Fileserv::authFailed` -/
def authFailed (server : ServerOptions) (request : Request) (path : Path) : Run Bool :=
  orThrow (authFailure server request path) >>= fun
    | some response => Trace.emit (.respond response none) >>= fun _ => pure true
    | none => pure false

/-- `doFilter` -/
def doFilter (function : Option (Request → Path → Run Bool)) (request : Request) (path : Path)
    (defaultAction : Run Bool) : Run Bool :=
  match function with
  | some function => function request path
  | none => defaultAction

/-- Is it an executable file that ends in `.alg.so` or `.cpp.so`? -/
def isCompiledModule (path : Path) : Bool :=
  path.extension = ascii ".so" && fileserv.canExecute path &&
    let subextension := (⟨false, [path.stem]⟩ : Path).extension
    subextension = ascii ".alg" || subextension = ascii ".cpp"

/-- `module_filter` -/
def moduleFilter (server : ServerOptions) (path : Path) : Run Bool :=
  orThrow (fileserv.getModulesEnabled server path) >>= fun enabled =>
    pure !(enabled && fileserv.isCompiledModule path)

/-- What follows if a file is refused. -/
def refuse (content : Bytes) : Run Bool :=
  Trace.emit (.respond { code := 401, content } none) >>= fun _ => pure false

/-- `Fileserv::filter` -/
def filter (server : ServerOptions) (request : Request) (path : Path) : Run Bool :=
  doFilter fileserv.algizAuthCheck request path
      (authFailed server request path >>= fun failed => pure !failed) >>= fun passed =>
    if !passed then
      doFilter fileserv.algizAuthCheckFailed request path (refuse (ascii "Unauthorized"))
    else
      doFilter fileserv.algizCompiledModuleCheck request path
          (fileserv.moduleFilter server path) >>= fun passed =>
        if !passed then
          doFilter fileserv.algizCompiledModuleCheckFailed request path (refuse (ascii "Nice try."))
        else pure true

/-! ## Serving -/

/-- `readFile` -/
def readFile (path : Path) : Run Bytes :=
  match fileserv.fs.regularFile path with
  | none => throwing .other
  | some file =>
    if !file.readable then throwing .other
    else Trace.emit (.opened path) >>= fun _ => pure file.content

/-- `Fileserv::shouldServeModule` -/
def shouldServeModule (server : ServerOptions) (path : Path) : Except Exception Bool :=
  (fileserv.getModulesEnabled server path).map fun enabled =>
    enabled && ((path.extension = ascii ".cpp" && fileserv.canExecute path) ||
      path.extension = ascii ".alg")

/-- `last_write_time` -/
def lastWriteTime (path : Path) : Int :=
  match fileserv.fs.regularFile path with
  | some file => file.writeTime
  | none => fileserv.directoryTime path

/-- The object of a module. -/
def objectOf (path : Path) : Path := path.replaceExtension (path.extension ++ ascii ".so")

/-- What follows when the object is up to date. -/
def runModuleOf (request : Request) (path : Path) : Run Unit :=
  let object := objectOf path
  (if fileserv.cached object then pure () else Trace.emit (.opened object)) >>= fun _ =>
    match fileserv.loadModule object with
    | some e => throwing e
    | none => Trace.emit (.ran object path) >>= fun _ =>
        match fileserv.runModule object path request with
        | some e => throwing e
        | none => pure ()

/-- The response to a file that does not compile. -/
def compilationFailed (errText : Option Bytes) : Response where
  code := 500
  content := errText.getD (ascii "Compilation failed")
  mime := ascii "text/plain"
  charset := ascii "utf-8"

/-- `Fileserv::serveModule` -/
def serveModule (request : Request) (path : Path) : Run Unit :=
  let object := objectOf path
  if !fileserv.fs.pathExists object ||
      fileserv.lastWriteTime object < fileserv.lastWriteTime path then
    Trace.emit (.opened path) >>= fun _ =>
      match fileserv.compileObject path object (path.extension = ascii ".alg") with
      | some errText => Trace.emit (.respond (compilationFailed errText) (some path))
      | none => fileserv.runModuleOf request path
  else fileserv.runModuleOf request path

/-- A template, rendered. -/
def serveTemplate (post : Option StringMap) (path : Path) : Run Unit :=
  fileserv.readFile path >>= fun text =>
    orThrow (fileserv.renderTemplate text post) >>= fun content =>
      Trace.emit (.respond { code := 200, content } (some path))

/-- What is in the `try` block of a handler, up to `client.close()`. -/
def serve (server : ServerOptions) (request : Request) (post : Option StringMap) (path : Path) :
    Run Unit :=
  if path.extension = ascii ".t" then fileserv.serveTemplate post path
  else orThrow (fileserv.shouldServeModule server path) >>= fun isModule =>
    if isModule then fileserv.serveModule request path
    else if !hacksRanges request && (!request.ranges.isEmpty || request.suffixLength ≠ 0) then
      fileserv.serveRange request path
    else fileserv.serveFull path

/-- `client.close(); return result;` -/
def closeWith (result : CancelableResult) : Run CancelableResult :=
  Trace.emit .closed >>= fun _ => pure result

/-- The handler of an exception in the `try` block. -/
def forbid : Stop → Option (Run CancelableResult)
  | .thrown _ => some (Trace.emit (.respond { code := 403, content := ascii "Forbidden" } none)
      >>= fun _ => closeWith .approve)
  | .aborted => none

/-- What follows when the filters let a path pass. -/
def afterFilter (nodotSays : Option Bool → Bool) (post : Option StringMap)
    (server : ServerOptions) (request : Request) (path : Path) : Run CancelableResult :=
  orThrow (server.getBoolOption path (ascii "nodot")) >>= fun nodot =>
    if nodotSays nodot && path.filename.head? = some 46 then
      Trace.emit (.respond unauthorized none) >>= fun _ => closeWith .kill
    else orThrow (fileserv.findPath path) >>= fun
      | none => pure .pass
      | some found => Trace.handle
          (fileserv.serve server request post found >>= fun _ => closeWith .approve) forbid

/-- What follows when the path has been expanded. -/
def afterExpand (nodotSays : Option Bool → Bool) (post : Option StringMap)
    (server : ServerOptions) (request : Request) (path : Path) : Run CancelableResult :=
  if !isSubpath (fileserv.getRoot server) path then pure .pass
  else fileserv.filter server request path >>= fun passed =>
    if !passed then closeWith .kill
    else fileserv.afterFilter nodotSays post server request path

/-- What the handlers of GET and of POST have in common. They differ in what they make of the
    option `nodot`, and in what templates are told. -/
def handleRequest (nodotSays : Option Bool → Bool) (post : Option StringMap)
    (server : ServerOptions) (request : Request) (notDisabled : Bool) : Run CancelableResult :=
  if !notDisabled then pure .pass
  else if !fileserv.hostMatches request then pure .pass
  else match fileserv.fs.canonical (fileserv.getRoot server) with
    | none => throwing .other
    | some root => fileserv.afterExpand nodotSays post server request
        (fileserv.slashDirectory (expand fileserv.ind root request.path))

/-- `Fileserv::handleGET` -/
def handleGET (server : ServerOptions) (request : Request) (notDisabled : Bool) :
    Run CancelableResult :=
  fileserv.handleRequest (·.getD false) none server request notDisabled

/-- `Fileserv::handlePOST`, for which `nodot` need only be there. -/
def handlePOST (server : ServerOptions) (request : Request) (notDisabled : Bool) :
    Run CancelableResult :=
  fileserv.handleRequest Option.isSome (some request.postParameters) server request notDisabled

end Algiz.Plugins.Fileserv
