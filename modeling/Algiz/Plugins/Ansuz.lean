/-
  `Ansuz`: loading a plugin while the server runs.

  One `try` block loads the plugin, sets its configuration and calls its `postinit`, and whatever
  it throws becomes an answer. Nothing takes the plugin out of the host again. So a load request
  that is answered with an error leaves the host as it was exactly if it fails before the plugin
  is put into the list (`load_unchanged_iff`). `LetsEncrypt::postinit` registers its handler
  before it reads the account key, and can fail behind that.
-/
import Algiz.Fileserv.Sending
import Algiz.HTTP.Configs
import Algiz.Lib.Unwinding
import Algiz.Plugins

namespace Algiz

/-- `escapeHTML` -/
def escapeHTML (view : Bytes) : Bytes :=
  view.flatMap fun ch =>
    if ch = 60 then ascii "&lt;"
    else if ch = 62 then ascii "&gt;"
    else if ch = 34 then ascii "&quot;"
    else [ch]

end Algiz

namespace Algiz.Plugins

open Lib HTTP

/-! ## The host -/

/-- What is thrown: a `std::exception` with its `what()`, or something else. -/
inductive Thrown where
  | standard (what : Bytes)
  | foreign
  deriving DecidableEq

/-- The lists in which plugins put their handlers. -/
inductive HandlerList where
  | get | post | webSocketConnection | ipFilters
  | webSocketMessage (client : Int)
  | webSocketClose (client : Int)
  deriving DecidableEq

/-- `PluginTuple` -/
structure PluginTuple (Object Handle : Type) where
  path : Bytes
  plugin : Object
  handle : Handle

/-- The plugins of a `PluginHost`, and the handlers of the server that it is. -/
structure PluginHost (Object Handle Handler : Type) where
  plugins : List (PluginTuple Object Handle) := []
  handlers : HandlerList → List Handler := fun _ => []

/-- `emplace_back` -/
def PluginHost.register {Object Handle Handler : Type} (host : PluginHost Object Handle Handler)
    (list : HandlerList) (handler : Handler) : PluginHost Object Handle Handler :=
  { host with
    handlers := Function.update host.handlers list (host.handlers list ++ [handler]) }

/-- What loading asks of the system, of the plugins and of the libraries. -/
structure Loader (Object Handle Handler : Type) where
  /-- `std::filesystem::canonical` -/
  canonical : Bytes → Except Thrown Bytes
  /-- `std::filesystem::exists` -/
  pathExists : Bytes → Except Thrown Bool
  dlopen : Bytes → Option Handle
  dlerror : Bytes → Bytes
  /-- `dlsym(lib, "make_plugin")`, and what the function comes to -/
  makePlugin : Handle → Option (Except Thrown Object)
  getName : Object → Bytes
  /-- what `postinit` makes of the host, given the plugin's configuration, and what it throws -/
  postinit : Object → Json → PluginHost Object Handle Handler →
    PluginHost Object Handle Handler × Option Thrown
  /-- A plugin does not unload itself in its `postinit`: `unloadPlugin` closes the library that the
      call would return to. -/
  postinit_keeps : ∀ object config host, ∀ tuple ∈ host.plugins, tuple.plugin = object →
    tuple ∈ (postinit object config host).1.plugins
  /-- `nlohmann::json::parse` and `dump` -/
  parse : Bytes → Except Thrown Json
  dump : Json → Bytes
  /-- `inja::render` of the template for messages, with this message -/
  render : Bytes → Except Thrown Bytes

/-- What a request is handled with: the host, the configurations of the plugins, and the client's
    connection. -/
structure Site (Object Handle Handler : Type) where
  host : PluginHost Object Handle Handler
  configs : Object → Json
  sent : List Response := []
  closed : Bool := false

/-- What is done for a request. -/
abbrev Action (Object Handle Handler α : Type) := EStateM Thrown (Site Object Handle Handler) α

namespace Loader

variable {Object Handle Handler : Type} (loader : Loader Object Handle Handler)

/-- `hasPlugin(path)` -/
def hasPlugin (path : Bytes) : Action Object Handle Handler Bool := do
  let canonical ← liftExcept (loader.canonical path)
  let site ← get
  return site.host.plugins.any fun tuple => tuple.path = canonical

/-- `getPlugin(name)` -/
def getPlugin (name : Bytes) :
    Action Object Handle Handler (Option (PluginTuple Object Handle)) := do
  let site ← get
  return site.host.plugins.find? fun tuple =>
    tuple.path = name || loader.getName tuple.plugin = name

/-- `loadPlugin`, up to the list. -/
def makes (path : Bytes) : Except Thrown (PluginTuple Object Handle) :=
  match loader.canonical path with
  | .error e => .error e
  | .ok canonical =>
    match loader.pathExists canonical with
    | .error e => .error e
    | .ok false => .error (.standard
        (ascii "filesystem error: No plugin found at path: No such file or directory"))
    | .ok true =>
      match loader.dlopen canonical with
      | none => .error (.standard (ascii "dlopen returned nullptr. " ++ loader.dlerror canonical))
      | some lib =>
        match loader.makePlugin lib with
        | none => .error (.standard (ascii "Plugin creation function is null"))
        | some (.error e) => .error e
        | some (.ok plugin) => .ok ⟨canonical, plugin, lib⟩

/-- `PluginHost::loadPlugin` -/
def loadPlugin (path : Bytes) : Action Object Handle Handler (PluginTuple Object Handle) := do
  let tuple ← liftExcept (loader.makes path)
  modify fun site => { site with host.plugins := site.host.plugins ++ [tuple] }
  return tuple

/-- `plugin->setConfig(json)` -/
def setConfig [DecidableEq Object] (plugin : Object) (json : Json) :
    Action Object Handle Handler Unit :=
  modify fun site => { site with configs := Function.update site.configs plugin json }

/-- `plugin->postinit(&http)` -/
def callPostinit (plugin : Object) : Action Object Handle Handler Unit := fun site =>
  match loader.postinit plugin (site.configs plugin) site.host with
  | (host, none) => .ok () { site with host }
  | (host, some e) => .error e { site with host }

/-! ## Answers -/

/-- `server->send(client.id, response)` -/
def send (response : Response) : Action Object Handle Handler Unit :=
  modify fun site => { site with sent := site.sent ++ [response] }

/-- `Ansuz::serve` of a message. -/
def serve (message : Bytes) (code : Int) : Action Object Handle Handler CancelableResult := do
  let content ← liftExcept (loader.render message)
  send { code, content }
  modify fun site => { site with closed := true }
  return .approve

/-- `Ansuz::checkAuth`; `config` is the configuration of `Ansuz` itself. -/
def checkAuth (config : Json) (request : Request) : Action Object Handle Handler Bool :=
  match config.find (ascii "password") with
  | some (.string password) =>
    match request.checkAuthentication (ascii "ansuz") password with
    | .missing => do
      send (unauthorizedRealm (ascii "Ansuz"))
      return false
    | .success => return true
    | _ => do
      let _ ← loader.serve (ascii "Bad authentication.") 401
      return false
  | _ => do
    let _ ← loader.serve (ascii "Ansuz needs a password in its configuration.") 200
    return false

/-- `parts[1] == "load"`, with both parameters. -/
def loadFrom [DecidableEq Object] (name text : Bytes) :
    Action Object Handle Handler CancelableResult := do
  if ← loader.hasPlugin name then
    loader.serve (ascii "Plugin already loaded.") 404
  else
    let json ← liftExcept (loader.parse text)
    let tuple ← loader.loadPlugin name
    setConfig tuple.plugin json
    loader.callPostinit tuple.plugin
    loader.serve (ascii "Plugin loaded. <pre>" ++ escapeHTML (loader.dump json) ++
      ascii "</pre>") 200

/-- `parts[1] == "edit"`, with both parameters. -/
def editFrom [DecidableEq Object] (name text : Bytes) :
    Action Object Handle Handler CancelableResult := do
  let json ← liftExcept (loader.parse text)
  let path ← liftExcept (loader.canonical name)
  if ← loader.hasPlugin path then
    match ← loader.getPlugin path with
    | none => loader.serve (ascii "Couldn't get plugin.") 500
    | some tuple =>
      setConfig tuple.plugin json
      loader.serve (ascii "Configuration updated.") 200
  else
    loader.serve (ascii "Plugin not loaded.") 404

/-- The parameters `pluginName` and `pluginConfig`. -/
def parameters (request : Request) : Option (Bytes × Bytes) :=
  match request.postParameters[ascii "pluginName"]?,
    request.postParameters[ascii "pluginConfig"]? with
  | some name, some text => some (name, text)
  | _, _ => none

/-- What is done with the parameters, in the `try` block. -/
def withParameters (request : Request)
    (action : Bytes → Bytes → Action Object Handle Handler CancelableResult) :
    Action Object Handle Handler CancelableResult :=
  match parameters request with
  | some (name, text) => action name text
  | none => loader.serve (ascii "Invalid request.") 400

/-- `catch (const std::exception &err)` -/
def caught : Thrown → Action Object Handle Handler CancelableResult
  | .standard what => loader.serve (escapeHTML what) 500
  | .foreign => throw .foreign

/-- `Ansuz::handlePOST` -/
def handlePOST [DecidableEq Object] (config : Json) (request : Request) (parts : List Bytes)
    (notDisabled : Bool) : Action Object Handle Handler CancelableResult :=
  if !notDisabled then return .pass
  else match parts with
    | first :: second :: _ =>
      if first = ascii "ansuz" then do
        if ← loader.checkAuth config request then
          if second = ascii "load" then
            tryCatch (loader.withParameters request loader.loadFrom) loader.caught
          else if second = ascii "edit" then
            tryCatch (loader.withParameters request loader.editFrom) loader.caught
          else return .pass
        else return .kill
      else return .pass
    | _ => return .pass

/-! ## What comes to the list -/

/-- The plugin that is put into the list, if loading gets as far as that. -/
def comesTo (name text : Bytes) (host : PluginHost Object Handle Handler) :
    Option (PluginTuple Object Handle) :=
  match loader.canonical name, loader.parse text, loader.makes name with
  | .ok canonical, .ok _, .ok tuple =>
    if host.plugins.any fun other => other.path = canonical then none else some tuple
  | _, _, _ => none

theorem comesTo_eq_some_iff {name text : Bytes} {host : PluginHost Object Handle Handler}
    {tuple : PluginTuple Object Handle} : loader.comesTo name text host = some tuple ↔
      ∃ canonical json, loader.canonical name = .ok canonical ∧ loader.parse text = .ok json ∧
        loader.makes name = .ok tuple ∧
        (host.plugins.any fun other => other.path = canonical) = false := by
  unfold comesTo
  constructor
  · intro h
    split at h
    · rename_i canonical json tuple' hcanonical hjson hmakes
      split at h
      · cases h
      · rename_i hany
        cases h
        exact ⟨canonical, json, hcanonical, hjson, hmakes, Bool.eq_false_of_not_eq_true hany⟩
    · cases h
  · rintro ⟨canonical, json, hcanonical, hjson, hmakes, hany⟩
    rw [hcanonical, hjson, hmakes]
    dsimp only
    rw [hany, if_neg Bool.false_ne_true]

/-- Do the credentials of the request pass `checkAuth`? -/
def authorized (config : Json) (request : Request) : Bool :=
  match config.find (ascii "password") with
  | some (.string password) =>
    request.checkAuthentication (ascii "ansuz") password = .success
  | _ => false

/-- The plugin that a load request puts into the list, if it is allowed to, and gets as far as
    that. -/
def loads (config : Json) (request : Request) (host : PluginHost Object Handle Handler) :
    Option (PluginTuple Object Handle) :=
  if authorized config request then
    (parameters request).bind fun (name, text) => loader.comesTo name text host
  else none

/-- A plugin that is made has the path that was asked for. -/
theorem makes_path {path : Bytes} {tuple : PluginTuple Object Handle}
    (h : loader.makes path = .ok tuple) : loader.canonical path = .ok tuple.path := by
  unfold makes at h
  split at h
  · cases h
  · rename_i canonical hcanonical
    rw [hcanonical]
    split at h
    · cases h
    · cases h
    · split at h
      · cases h
      · split at h
        · cases h
        · cases h
        · cases h
          rfl

/-- It was not in the list before. -/
theorem not_mem_of_comesTo {name text : Bytes} {host : PluginHost Object Handle Handler}
    {tuple : PluginTuple Object Handle} (h : loader.comesTo name text host = some tuple) :
    tuple ∉ host.plugins := by
  obtain ⟨canonical, json, hcanonical, -, hmakes, hany⟩ := loader.comesTo_eq_some_iff.mp h
  rw [loader.makes_path hmakes] at hcanonical
  intro hmem
  refine absurd (List.any_eq_false.mp hany tuple hmem) (not_not_intro ?_)
  rw [Except.ok.inj hcanonical, decide_eq_true rfl]

theorem not_mem_of_loads {config : Json} {request : Request}
    {host : PluginHost Object Handle Handler} {tuple : PluginTuple Object Handle}
    (h : loader.loads config request host = some tuple) : tuple ∉ host.plugins := by
  unfold loads at h
  split at h
  · obtain ⟨named, -, hcomes⟩ := Option.bind_eq_some_iff.mp h
    exact loader.not_mem_of_comesTo hcomes
  · cases h

/-! ## How the parts end -/

section EndsIn

variable (site : Site Object Handle Handler)

/-- A message is sent, or there is an exception before. -/
theorem serve_ends (message : Bytes) (code : Int) : EndsIn (loader.serve message code) site
    (fun _ t => t.host = site.host ∧
      ∃ content, t.sent = site.sent ++ [({ code, content } : Response)])
    (fun _ t => t = site) := by
  refine .bind (.lift (fun content _ => ?_) fun _ _ => rfl)
  exact ⟨rfl, content, rfl⟩

theorem hasPlugin_ends (path : Bytes) : EndsIn (loader.hasPlugin path) site
    (fun has t => t = site ∧ ∃ canonical, loader.canonical path = .ok canonical ∧
      has = site.host.plugins.any fun tuple => tuple.path = canonical)
    (fun _ t => t = site ∧ ∃ e, loader.canonical path = .error e) := by
  refine .bind (.lift (fun canonical hcanonical => ?_) fun e he => ⟨rfl, e, he⟩)
  exact ⟨rfl, canonical, hcanonical, rfl⟩

/-- A plugin's `postinit` leaves it in the list, whatever it ends in. -/
theorem callPostinit_ends {tuple : PluginTuple Object Handle} (h : tuple ∈ site.host.plugins) :
    EndsIn (loader.callPostinit tuple.plugin) site
      (fun _ t => t.sent = site.sent ∧ tuple ∈ t.host.plugins)
      (fun _ t => tuple ∈ t.host.plugins) := by
  have hkeeps :=
    loader.postinit_keeps tuple.plugin (site.configs tuple.plugin) site.host tuple h rfl
  unfold EndsIn callPostinit
  cases hpostinit : loader.postinit tuple.plugin (site.configs tuple.plugin) site.host with
  | mk host thrown =>
    rw [hpostinit] at hkeeps
    cases thrown with
    | none => exact ⟨rfl, hkeeps⟩
    | some e => exact hkeeps

/-- With a value: the host is as it was, or the plugin that came to the list was announced. -/
def LoadAnswered (site t : Site Object Handle Handler) :
    Option (PluginTuple Object Handle) → Prop
  | none => t.host = site.host
  | some _ => ∃ response, t.sent = site.sent ++ [response] ∧ response.code = 200

/-- With an exception: the host is as it was, or the plugin that came to the list is still there. -/
def LoadThrew (site t : Site Object Handle Handler) : Option (PluginTuple Object Handle) → Prop
  | none => t.host = site.host
  | some tuple => tuple ∈ t.host.plugins

theorem loadFrom_ends [DecidableEq Object] (name text : Bytes) :
    EndsIn (loader.loadFrom name text) site
      (fun _ t => LoadAnswered site t (loader.comesTo name text site.host))
      (fun _ t => LoadThrew site t (loader.comesTo name text site.host)) := by
  have hnone : (∀ tuple, loader.comesTo name text site.host ≠ some tuple) →
      loader.comesTo name text site.host = none := Option.eq_none_iff_forall_ne_some.mpr
  refine .bind ((loader.hasPlugin_ends site name).mono ?_ ?_)
  · rintro has t ⟨rfl, canonical, hcanonical, rfl⟩
    split
    · rename_i hany
      rw [hnone fun tuple h => ?_]
      · exact (loader.serve_ends t _ 404).mono (fun _ _ h => h.1) fun _ _ h => congrArg Site.host h
      · obtain ⟨canonical', json, hcanonical', -, -, hany'⟩ := loader.comesTo_eq_some_iff.mp h
        rw [Except.ok.inj (hcanonical.symm.trans hcanonical'), hany'] at hany
        cases hany
    · rename_i hany
      refine .bind (.lift (fun json hjson => ?_) fun e he => ?_)
      · refine .bind (.bind (.lift (fun tuple hmakes => ?_) fun e he => ?_))
        · have hsome : loader.comesTo name text t.host = some tuple :=
            loader.comesTo_eq_some_iff.mpr
              ⟨canonical, json, hcanonical, hjson, hmakes, Bool.eq_false_of_not_eq_true hany⟩
          rw [hsome]
          refine .bind (.modify (.pure (.bind (.modify ?_))))
          refine .bind ((loader.callPostinit_ends _ ?_).mono ?_ fun e u hkept => hkept)
          · exact List.mem_append_right _ (List.mem_singleton_self tuple)
          · rintro - u ⟨hsent, hkept⟩
            refine (loader.serve_ends u _ 200).mono ?_ fun e v hv => hv ▸ hkept
            rintro - v ⟨-, content, hcontent⟩
            exact ⟨_, hcontent.trans (congrArg (· ++ _) hsent), rfl⟩
        · rw [hnone fun tuple h => ?_]
          · rfl
          · obtain ⟨-, -, -, -, hmakes, -⟩ := loader.comesTo_eq_some_iff.mp h
            rw [he] at hmakes
            cases hmakes
      · rw [hnone fun tuple h => ?_]
        · rfl
        · obtain ⟨_, json, _, hjson, -⟩ := loader.comesTo_eq_some_iff.mp h
          rw [he] at hjson
          cases hjson
  · rintro e t ⟨rfl, e', hcanonical⟩
    rw [hnone fun tuple h => ?_]
    · rfl
    · obtain ⟨canonical', json, hcanonical', -⟩ := loader.comesTo_eq_some_iff.mp h
      rw [hcanonical'] at hcanonical
      cases hcanonical

theorem checkAuth_ends (config : Json) (request : Request) :
    EndsIn (loader.checkAuth config request) site
      (fun passed t => passed = authorized config request ∧ t.host = site.host ∧
        (passed = true → t = site))
      (fun _ _ => True) := by
  have hrefuse : ∀ message code, EndsIn (loader.serve message code >>= fun _ => pure false) site
      (fun passed t => passed = false ∧ t.host = site.host ∧ (passed = true → t = site))
      (fun _ _ => True) := by
    intro message code
    have hserve := loader.serve_ends site message code
    refine .bind (hserve.mono (fun _ t ht => ?_) fun _ _ _ => trivial)
    exact .pure ⟨rfl, ht.1, fun h => by cases h⟩
  unfold checkAuth authorized
  cases hpassword : config.find (ascii "password") with
  | none => exact hrefuse _ _
  | some value =>
    cases value with
    | string password =>
      dsimp only
      cases hcheck : request.checkAuthentication (ascii "ansuz") password with
      | missing => exact .bind (.modify (.pure ⟨rfl, rfl, fun h => by cases h⟩))
      | success => exact .pure ⟨rfl, rfl, fun _ => rfl⟩
      | _ => exact hrefuse _ _
    | _ => exact hrefuse _ _

/-- What is answered to an exception leaves the host alone. -/
theorem caught_ends (e : Thrown) : EndsIn (loader.caught e) site
    (fun _ t => t.host = site.host) (fun _ _ => True) := by
  cases e with
  | foreign => exact .throw trivial
  | standard what =>
    exact (loader.serve_ends site _ 500).mono (fun _ _ h => h.1) fun _ _ _ => trivial

/-- A load request: either nothing comes to the list and the host is as it was, or the plugin that
    comes to the list was announced or is still there. -/
theorem handlePOST_load_ends [DecidableEq Object] (config : Json) (request : Request)
    (rest : List Bytes) :
    EndsIn (loader.handlePOST config request (ascii "ansuz" :: ascii "load" :: rest) true) site
      (fun _ t => match loader.loads config request site.host with
        | none => t.host = site.host
        | some tuple => LoadAnswered site t (some tuple) ∨ LoadThrew site t (some tuple))
      (fun _ _ => True) := by
  show EndsIn (loader.checkAuth config request >>= _) site _ _
  refine .bind ((loader.checkAuth_ends site config request).mono ?_ fun _ _ _ => trivial)
  rintro passed t ⟨rfl, hhost, hsite⟩
  unfold loads
  cases hauthorized : authorized config request with
  | false => exact .pure hhost
  | true =>
    obtain rfl := hsite hauthorized
    show EndsIn (MonadExcept.tryCatch (loader.withParameters request loader.loadFrom) loader.caught)
      t _ _
    have hcaught : ∀ (expected : Option (PluginTuple Object Handle)) e u,
        LoadThrew t u expected → EndsIn (loader.caught e) u
          (fun _ v => match expected with
            | none => v.host = t.host
            | some tuple => LoadAnswered t v (some tuple) ∨ LoadThrew t v (some tuple))
          (fun _ _ => True) := by
      intro expected e u hu
      refine (loader.caught_ends u e).mono (fun _ v hv => ?_) fun _ _ _ => trivial
      cases expected with
      | none => exact hv.trans hu
      | some tuple =>
        refine Or.inr ?_
        unfold LoadThrew at hu ⊢
        rwa [hv]
    refine .tryCatch ?_
    unfold withParameters
    cases hparameters : parameters request with
    | none =>
      exact (loader.serve_ends t _ 400).mono (fun _ _ h => h.1) fun e u hu =>
        hcaught none e u (congrArg Site.host hu)
    | some named =>
      refine (loader.loadFrom_ends t named.1 named.2).mono (fun _ u hu => ?_) (hcaught _)
      dsimp only [if_true, Option.bind_some]
      cases hcomes : loader.comesTo named.1 named.2 t.host with
      | none =>
        rw [hcomes] at hu
        exact hu
      | some tuple =>
        rw [hcomes] at hu
        exact Or.inl hu

end EndsIn

end Loader

/-! ## A plugin that registers first -/

/-- What `LetsEncrypt::postinit` asks of the rest of the program. -/
structure LetsEncrypt.Setup where
  /-- `readFile(*iter)` -/
  readFile : Json → Except Thrown Bytes
  /-- what the end iterator comes to, of which `is_string()` is asked if there is no account key -/
  pastEnd : Except Thrown Bytes
  /-- `iter->get<std::unordered_set<std::string>>()` -/
  whitelist : Json → Except Thrown (List Bytes)
  /-- the client for an account key -/
  acmeClient : Bytes → Except Thrown Unit
  /-- `loadCache` and what follows it, if the server has certificates -/
  loadCache : Except Thrown Unit

/-- What `LetsEncrypt::postinit` does behind the handler. -/
def LetsEncrypt.Setup.run (setup : LetsEncrypt.Setup) (config : Json) : Except Thrown Unit := do
  let accountKey ← match config.find (ascii "accountKey") with
    | some name => setup.readFile name
    | none => setup.pastEnd
  match config.find (ascii "whitelist") with
  | some value => discard (setup.whitelist value)
  | none => pure ()
  setup.acmeClient accountKey
  setup.loadCache

/-- `LetsEncrypt::postinit`: what becomes of the host, and what is thrown. -/
def LetsEncrypt.postinit {Object Handle Handler : Type} (setup : LetsEncrypt.Setup)
    (handler : Handler) (config : Json) (host : PluginHost Object Handle Handler) :
    PluginHost Object Handle Handler × Option Thrown :=
  (host.register .get handler,
    match setup.run config with
    | .ok () => none
    | .error e => some e)

/-- No file is there to be read. -/
def LetsEncrypt.noFiles : LetsEncrypt.Setup where
  readFile := fun _ => .error (.standard (ascii "basic_ios::clear: iostream error"))
  pastEnd := .error .foreign
  whitelist := fun _ => .ok []
  acmeClient := fun _ => .ok ()
  loadCache := .ok ()

namespace Loader

/-! ## A server without plugins -/

/-- The text of a configuration. -/
def accountKeyText : Bytes := ascii "\x7b\"accountKey\":\"missing.pem\"\x7d"

theorem letsEncrypt_keeps : ∀ (object : Unit) config (host : PluginHost Unit Unit Unit),
    ∀ tuple ∈ host.plugins, tuple.plugin = object →
      tuple ∈ (LetsEncrypt.postinit LetsEncrypt.noFiles () config host).1.plugins :=
  fun _ _ _ _ htuple _ => htuple

/-- One shared object, which is `LetsEncrypt`'s, and one text that is JSON. -/
def letsEncrypt : Loader Unit Unit Unit where
  canonical := .ok
  pathExists := fun _ => .ok true
  dlopen := fun _ => some ()
  dlerror := fun _ => []
  makePlugin := fun _ => some (.ok ())
  getName := fun _ => ascii "LetsEncrypt"
  postinit := fun _ config host => LetsEncrypt.postinit LetsEncrypt.noFiles () config host
  postinit_keeps := letsEncrypt_keeps
  parse := fun text =>
    if text = accountKeyText then
      .ok (.object [(ascii "accountKey", .string (ascii "missing.pem"))])
    else .error (.standard (ascii "[json.exception.parse_error.101] parse error"))
  dump := fun _ => accountKeyText
  render := .ok

/-- The configuration of `Ansuz`. -/
def ansuzConfig : Json := .object [(ascii "password", .string (ascii "pw"))]

/-- A request with the password that asks for the plugin, with this configuration. -/
def loadRequest (text : Bytes) : Request where
  headers := (∅ : StringMap).insert (ascii "authorization") (ascii "Basic YW5zdXo6cHc=")
  postParameters := ((∅ : StringMap).insert (ascii "pluginConfig") text).insert
    (ascii "pluginName") (ascii "/plugin/letsencrypt.so")

/-- A server without plugins. -/
def noPlugins : Site Unit Unit Unit where
  host := {}
  configs := fun _ => .null

/-- What comes of the request. -/
def loadRun (text : Bytes) : EStateM.Result Thrown (Site Unit Unit Unit) CancelableResult :=
  letsEncrypt.handlePOST ansuzConfig (loadRequest text) [ascii "ansuz", ascii "load"] true noPlugins

/-- The codes of what is sent for the request, and how many plugins there are then. -/
def loadSummary (text : Bytes) : Option (List Int × Nat) :=
  match loadRun text with
  | .ok _ t => some (t.sent.map (·.code), t.host.plugins.length)
  | .error _ _ => none

theorem loadRun_of_summary {text : Bytes} {code : Int} {n : Nat}
    (h : loadSummary text = some ([code], n)) : ∃ result t response, loadRun text = .ok result t ∧
      t.sent = noPlugins.sent ++ [response] ∧ response.code = code ∧ t.host.plugins.length = n := by
  unfold loadSummary at h
  split at h
  · rename_i result t hrun
    obtain ⟨hcodes, hlength⟩ := Prod.mk.inj (Option.some.inj h)
    obtain ⟨response, hsent, hcode⟩ := List.map_eq_singleton_iff.mp hcodes
    exact ⟨result, t, response, hrun, hsent, hcode, hlength⟩
  · cases h

/-! ## Errors -/

/-- A request that is answered with an error leaves the plugin list and the handler lists as they
    were exactly if no plugin came to the list. -/
theorem load_unchanged_iff [DecidableEq Object] (loader : Loader Object Handle Handler)
    (config : Json) (request : Request) (rest : List Bytes)
    {site t : Site Object Handle Handler} {result : CancelableResult} {response : Response}
    (hrun : loader.handlePOST config request (ascii "ansuz" :: ascii "load" :: rest) true site =
      .ok result t)
    (hsent : t.sent = site.sent ++ [response]) (herror : response.code ≠ 200) :
    t.host = site.host ↔ loader.loads config request site.host = none := by
  have hends := (loader.handlePOST_load_ends site config request rest).of_ok hrun
  cases hloads : loader.loads config request site.host with
  | none =>
    rw [hloads] at hends
    exact iff_of_true hends rfl
  | some tuple =>
    rw [hloads] at hends
    refine iff_of_false (fun hhost => ?_) fun h => by cases h
    rcases hends with ⟨announced, hannounced, hcode⟩ | hthere
    · rw [hsent, List.append_cancel_left_eq] at hannounced
      exact herror ((List.cons.inj hannounced).1 ▸ hcode)
    · unfold LoadThrew at hthere
      rw [hhost] at hthere
      exact loader.not_mem_of_loads hloads hthere

theorem load_unchanged_invalid : ∃ result t, loadRun (ascii "accountKey") = .ok result t ∧
    t.host = noPlugins.host := by
  have hsummary : loadSummary (ascii "accountKey") = some ([500], 0) := by decide
  have hnone : (letsEncrypt.loads ansuzConfig (loadRequest (ascii "accountKey"))
      noPlugins.host).isNone = true := by decide
  obtain ⟨result, t, response, hrun, hsent, hcode, -⟩ := loadRun_of_summary hsummary
  exact ⟨result, t, hrun, (load_unchanged_iff letsEncrypt ansuzConfig _ [] hrun hsent
    (by rw [hcode]; decide)).mpr (Option.isNone_iff_eq_none.mp hnone)⟩

/-- The account key cannot be read: the request is answered with 500, and the plugin stays. -/
theorem load_letsEncrypt_stays : ¬ ∀ (loader : Loader Unit Unit Unit) (config : Json)
    (request : Request) (rest : List Bytes) (site t : Site Unit Unit Unit)
    (result : CancelableResult) (response : Response),
    loader.handlePOST config request (ascii "ansuz" :: ascii "load" :: rest) true site =
      .ok result t →
    t.sent = site.sent ++ [response] → response.code ≠ 200 → t.host = site.host := by
  intro h
  have hsummary : loadSummary accountKeyText = some ([500], 1) := by decide
  obtain ⟨result, t, response, hrun, hsent, hcode, hlength⟩ := loadRun_of_summary hsummary
  have hhost := h letsEncrypt ansuzConfig (loadRequest accountKeyText) [] noPlugins t result
    response hrun hsent (by rw [hcode]; decide)
  rw [hhost] at hlength
  cases hlength

end Loader

end Algiz.Plugins
