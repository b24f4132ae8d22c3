/-
  What the parts of a handler's run can do.

  Serving a file opens it, or the object of a module; what is written is from no file or from the
  one that is served (`serve_concerns`). A filter lets a path pass without a word, or it answers
  (`filter_filtered`): where the functions that other plugins may put in place of the filters are
  not loaded, these are the cases that the proofs about handlers go through.
-/
import Algiz.Fileserv.Fileserv

namespace Algiz.Plugins

open Lib HTTP

/-- Is a response head written? -/
def Event.isHead : Event → Bool
  | .respond _ _ | .head _ => true
  | _ => false

/-- Are bytes written to the client? -/
def Event.isWritten : Event → Bool
  | .respond _ _ | .head _ | .body _ _ => true
  | _ => false

/-- The file that is opened. -/
def Event.opening : Event → Option Path
  | .opened path => some path
  | _ => none

/-- The file that the written bytes are from. -/
def Event.source : Event → Option Path
  | .respond _ source | .body _ source => source
  | _ => none

/-- Opens the event no other file than this one and its object, and are its bytes from none other
    than this one? -/
def Event.Concerns (path : Path) (event : Event) : Prop :=
  (∀ other ∈ event.opening, other = path ∨ other = Fileserv.objectOf path) ∧
    ∀ source ∈ event.source, source = path

/-- A value that is no exception. -/
theorem orThrow_eq_ok {α : Type} {result : Except Exception α} {a : α} :
    (orThrow result).result = .ok a ↔ result = .ok a := by
  cases result with
  | error e => exact iff_of_false (fun h => nomatch h) (fun h => nomatch h)
  | ok b => exact ⟨fun h => congrArg Except.ok (Except.ok.inj h), fun h => h ▸ rfl⟩

namespace Fileserv

variable {fileserv : Fileserv} {path : Path} {file : File} {request : Request}
  {server : ServerOptions} {post : Option StringMap}

/-! ## Bodies -/

/-- Bytes behind a head, from no file or from this one. -/
def IsBody (path : Path) (event : Event) : Prop :=
  ∃ bytes source, event = .body bytes source ∧ ∀ p ∈ source, p = path

theorem IsBody.not_head {event : Event} (h : IsBody path event) : event.isHead = false := by
  obtain ⟨bytes, source, rfl, -⟩ := h
  rfl

theorem IsBody.concerns {event : Event} (h : IsBody path event) : event.Concerns path := by
  obtain ⟨bytes, source, rfl, hsource⟩ := h
  exact ⟨fun _ heq => (nomatch heq), hsource⟩

theorem isBody_text (path : Path) (bytes : Bytes) : IsBody path (.body bytes none) :=
  ⟨bytes, none, rfl, fun _ hp => (nomatch hp)⟩

theorem isBody_chunks {sent : List Bytes} :
    ∀ event ∈ sent.map (Event.body · (some path)), IsBody path event := by
  intro event hevent
  obtain ⟨bytes, -, rfl⟩ := List.mem_map.mp hevent
  exact ⟨bytes, some path, rfl, fun p hp => (Option.some.inj hp).symm⟩

theorem isBody_startOf (multi : Bool) (filesize start stop : Nat) :
    ∀ event ∈ fileserv.startOf multi filesize start stop, IsBody path event := by
  unfold startOf
  intro event hevent
  split at hevent
  · obtain rfl := List.mem_singleton.mp hevent
    exact isBody_text path _
  · exact absurd hevent List.not_mem_nil

theorem isBody_sendRanges (multi : Bool) (filesize : Nat) (ranges : List (Nat × Nat))
    (stream : Stream) (buffer : Bytes) :
    ∀ event ∈ (fileserv.sendRanges path multi filesize ranges stream buffer).1,
      IsBody path event := by
  induction ranges generalizing stream buffer with
  | nil => exact fun _ hevent => absurd hevent List.not_mem_nil
  | cons range ranges ih =>
    unfold sendRanges sendRange
    intro event hevent
    rcases List.mem_append.mp hevent with hevent | hevent
    · rcases List.mem_append.mp hevent with hevent | hevent
      · exact isBody_startOf multi filesize _ _ event hevent
      · exact isBody_chunks event hevent
    · exact ih _ _ event hevent

theorem isBody_sendSuffix (multi : Bool) (filesize suffixLength : Nat) (stream : Stream) :
    ∀ event ∈ fileserv.sendSuffix path multi filesize suffixLength stream, IsBody path event := by
  unfold sendSuffix
  intro event hevent
  split at hevent
  · rcases List.mem_append.mp hevent with hevent | hevent
    · exact isBody_startOf multi filesize _ _ event hevent
    · exact isBody_chunks event hevent
  · exact absurd hevent List.not_mem_nil

/-- A head, and bytes behind it. -/
def IsAnswer (path : Path) (events : List Event) : Prop :=
  ∃ response body, events = .head response :: body ∧ ∀ event ∈ body, IsBody path event

theorem rangeEvents_isAnswer (ranges : List (Nat × Nat)) (suffixLength : Nat) :
    IsAnswer path (fileserv.rangeEvents path file ranges suffixLength) := by
  unfold rangeEvents
  refine ⟨_, _, rfl, fun event hevent => ?_⟩
  rcases List.mem_append.mp hevent with hevent | hevent
  · rcases List.mem_append.mp hevent with hevent | hevent
    · exact isBody_sendRanges _ _ _ _ _ event hevent
    · exact isBody_sendSuffix _ _ _ _ event hevent
  · split at hevent
    · rcases List.mem_cons.mp hevent with rfl | hevent
      · exact isBody_text path _
      · obtain rfl := List.mem_singleton.mp hevent
        exact isBody_text path _
    · exact absurd hevent List.not_mem_nil

/-! ## Serving -/

/-- What serving a file that is no module comes to. -/
inductive Served (path : Path) : Run Unit → Prop
  /-- an exception, perhaps after the file was opened -/
  | throws (opened : List Event) (hopened : ∀ event ∈ opened, event = .opened path)
      (e : Exception) : Served path ⟨opened, .error (.thrown e)⟩
  /-- no range is asked for but a suffix -/
  | aborts : Served path ⟨[.opened path], .error .aborted⟩
  /-- the ranges are refused -/
  | refuses (response : Response) : Served path ⟨[.respond response none], .ok ()⟩
  /-- a template -/
  | renders (response : Response) :
      Served path ⟨[.opened path, .respond response (some path)], .ok ()⟩
  /-- a head, and the file or parts of it -/
  | sends (events : List Event) (hevents : IsAnswer path events) :
      Served path ⟨.opened path :: events, .ok ()⟩

theorem throwing_served (e : Exception) : Served path (throwing e) :=
  .throws [] (fun _ hevent => absurd hevent List.not_mem_nil) e

theorem serveRange_served : Served path (fileserv.serveRange request path) := by
  unfold serveRange
  split
  · exact throwing_served _
  · dsimp only
    split
    · exact .refuses _
    · unfold serveRanges
      split
      · exact throwing_served _
      · split
        · exact .aborts
        · exact .sends _ (rangeEvents_isAnswer _ _)

theorem serveFull_served : Served path (fileserv.serveFull path) := by
  unfold serveFull
  split
  · exact throwing_served _
  · split
    · exact throwing_served _
    · exact .sends _ ⟨_, _, rfl, isBody_chunks⟩

theorem serveTemplate_served : Served path (fileserv.serveTemplate post path) := by
  unfold serveTemplate readFile
  split
  · exact throwing_served _
  · split
    · exact throwing_served _
    · rename_i file _ _
      rw [Trace.bind_of_ok (rfl : ((Trace.emit (.opened path) >>= fun _ =>
        pure file.content : Run Bytes)).result = .ok file.content)]
      cases hrender : fileserv.renderTemplate file.content post with
      | error e =>
        exact .throws [.opened path] (fun _ hevent => List.mem_singleton.mp hevent) e
      | ok content => exact .renders _

/-- Is the file served as a module? -/
def isModulePage (fileserv : Fileserv) (server : ServerOptions) (path : Path) : Bool :=
  path.extension ≠ ascii ".t" &&
    match fileserv.shouldServeModule server path with
    | .ok isModule => isModule
    | .error _ => false

/-- Where no module is run, a file is served as a template, whole or in ranges. -/
theorem serve_served (hmodule : fileserv.isModulePage server path = false) :
    Served path (fileserv.serve server request post path) := by
  unfold isModulePage at hmodule
  unfold serve
  split
  · exact serveTemplate_served
  · rename_i hextension
    rw [decide_eq_true hextension, Bool.true_and] at hmodule
    cases hshould : fileserv.shouldServeModule server path with
    | error e => exact throwing_served e
    | ok isModule =>
      rw [hshould] at hmodule
      dsimp only at hmodule
      subst hmodule
      show Served path (if _ then _ else _)
      split
      · exact serveRange_served
      · exact serveFull_served

theorem serve_of_isModulePage (hmodule : fileserv.isModulePage server path = true) :
    fileserv.serve server request post path = fileserv.serveModule request path := by
  unfold isModulePage at hmodule
  obtain ⟨hextension, hshould⟩ := Bool.and_eq_true_iff.mp hmodule
  unfold serve
  rw [if_neg (of_decide_eq_true hextension)]
  cases hcase : fileserv.shouldServeModule server path with
  | error e =>
    rw [hcase] at hshould
    exact nomatch hshould
  | ok isModule =>
    rw [hcase] at hshould
    dsimp only at hshould
    subst hshould
    rfl

theorem concerns_opened (path : Path) : (Event.opened path).Concerns path :=
  ⟨fun _ heq => .inl (Option.some.inj heq).symm, fun _ hsource => (nomatch hsource)⟩

theorem Served.concerns {run : Run Unit} (h : Served path run) :
    run.All (Event.Concerns path) := by
  have hopened := concerns_opened path
  cases h with
  | throws opened hall e =>
    intro event hevent
    rw [hall event hevent]
    exact hopened
  | aborts =>
    intro event hevent
    obtain rfl := List.mem_singleton.mp hevent
    exact hopened
  | refuses response =>
    intro event hevent
    obtain rfl := List.mem_singleton.mp hevent
    exact ⟨fun _ heq => (nomatch heq), fun _ hsource => (nomatch hsource)⟩
  | renders response =>
    intro event hevent
    rcases List.mem_cons.mp hevent with rfl | hevent
    · exact hopened
    · obtain rfl := List.mem_singleton.mp hevent
      exact ⟨fun _ heq => (nomatch heq), fun _ hsource => (Option.some.inj hsource).symm⟩
  | sends events hanswer =>
    obtain ⟨response, body, rfl, hbody⟩ := hanswer
    intro event hevent
    rcases List.mem_cons.mp hevent with rfl | hevent
    · exact hopened
    · rcases List.mem_cons.mp hevent with rfl | hevent
      · exact ⟨fun _ heq => (nomatch heq), fun _ hsource => (nomatch hsource)⟩
      · exact (hbody event hevent).concerns

theorem runModuleOf_concerns : (fileserv.runModuleOf request path).All (Event.Concerns path) := by
  unfold runModuleOf
  have hobject : (Event.opened (objectOf path)).Concerns path :=
    ⟨fun _ heq => .inr (Option.some.inj heq).symm, fun _ hsource => (nomatch hsource)⟩
  have hran : (Event.ran (objectOf path) path).Concerns path :=
    ⟨fun _ heq => (nomatch heq), fun _ hsource => (nomatch hsource)⟩
  apply Trace.All.bind
  · split
    · exact .pure ()
    · exact .emit hobject
  · intro _ _
    split
    · exact .lift _
    · apply Trace.All.bind (.emit hran)
      intro _ _
      split
      · exact .lift _
      · exact .pure ()

theorem serveModule_concerns : (fileserv.serveModule request path).All (Event.Concerns path) := by
  unfold serveModule
  dsimp only
  split
  · apply Trace.All.bind (.emit (concerns_opened path))
    intro _ _
    split
    · exact .emit ⟨fun _ heq => (nomatch heq), fun _ hsource => (Option.some.inj hsource).symm⟩
    · exact runModuleOf_concerns
  · exact runModuleOf_concerns

/-- Serving a file opens it or its object, and writes nothing from another file. -/
theorem serve_concerns : (fileserv.serve server request post path).All (Event.Concerns path) := by
  cases hmodule : fileserv.isModulePage server path with
  | false => exact (serve_served hmodule).concerns
  | true =>
    rw [serve_of_isModulePage hmodule]
    exact serveModule_concerns

/-! ## Filters -/

/-- No other plugin puts its own functions in place of the filters. -/
structure NoOverrides (fileserv : Fileserv) : Prop where
  authCheck : fileserv.algizAuthCheck = none
  authCheckFailed : fileserv.algizAuthCheckFailed = none
  compiledModuleCheck : fileserv.algizCompiledModuleCheck = none
  compiledModuleCheckFailed : fileserv.algizCompiledModuleCheckFailed = none

/-- Is the path kept back as a compiled module? -/
def keepsBack (fileserv : Fileserv) (server : ServerOptions) (path : Path) :
    Except Exception Bool :=
  (fileserv.getModulesEnabled server path).map fun enabled =>
    enabled && fileserv.isCompiledModule path

/-- What `filter` comes to. -/
inductive Filtered (fileserv : Fileserv) (server : ServerOptions) (request : Request)
    (path : Path) : Run Bool → Prop
  /-- an option is malformed, or the path is outside the server's web root -/
  | throws (e : Exception)
      (hauth : ∀ response, authFailure server request path ≠ .ok (some response)) :
      Filtered fileserv server request path (throwing e)
  /-- `authFailed` answers, and the default action behind it once more -/
  | unauthorized (response : Response)
      (hauth : authFailure server request path = .ok (some response)) :
      Filtered fileserv server request path
        ⟨[.respond response none, .respond unauthorized none], .ok false⟩
  /-- a compiled module -/
  | keptBack (response : Response) (hauth : authFailure server request path = .ok none) :
      Filtered fileserv server request path ⟨[.respond response none], .ok false⟩
  | passes (hauth : authFailure server request path = .ok none)
      (hmodule : fileserv.keepsBack server path = .ok false) :
      Filtered fileserv server request path ⟨[], .ok true⟩

theorem filter_filtered (h : NoOverrides fileserv) :
    Filtered fileserv server request path (fileserv.filter server request path) := by
  unfold filter doFilter authFailed
  rw [h.authCheck, h.authCheckFailed, h.compiledModuleCheck, h.compiledModuleCheckFailed]
  dsimp only
  cases hauth : authFailure server request path with
  | error e => exact .throws e fun response heq => (nomatch hauth.symm.trans heq)
  | ok failure =>
    cases failure with
    | some response => exact .unauthorized response hauth
    | none =>
      have hpasses : ∀ response, authFailure server request path ≠ .ok (some response) :=
        fun response heq => (nomatch hauth.symm.trans heq)
      show Filtered fileserv server request path (fileserv.moduleFilter server path >>= _)
      unfold moduleFilter
      cases henabled : fileserv.getModulesEnabled server path with
      | error e => exact .throws e hpasses
      | ok enabled =>
        cases hmodule : (enabled && fileserv.isCompiledModule path) with
        | true =>
          show Filtered fileserv server request path
            ((pure !(enabled && fileserv.isCompiledModule path) : Run Bool) >>= _)
          rw [hmodule]
          exact .keptBack _ hauth
        | false =>
          show Filtered fileserv server request path
            ((pure !(enabled && fileserv.isCompiledModule path) : Run Bool) >>= _)
          rw [hmodule]
          refine .passes hauth ?_
          unfold keepsBack
          rw [henabled]
          exact congrArg Except.ok hmodule

/-- Where `authFailed` does not answer: the path is no configuration's, and it is below the web
    root; the option `auth` is right, or lacks a user name or a password. -/
theorem authFailure_eq_none (h : authFailure server request path = .ok none) :
    path.filename ≠ configName ∧ isSubpath server.webRoot path = true ∧
      ∃ value, server.getOption path (ascii "auth") = .ok value ∧ ∀ auth, value = some auth →
        authResponse request auth = .ok none ∨ authResponse request auth = .error .outOfRange := by
  unfold authFailure at h
  dsimp only at h
  have hname : (Except.ok (if path.filename = configName then some unauthorized else none) :
      Except Exception (Option Response)) = .ok none → path.filename ≠ configName := by
    intro heq hname
    rw [if_pos hname] at heq
    exact nomatch Except.ok.inj heq
  split at h
  · exact nomatch h
  · rename_i hoption
    exact ⟨hname h, (getOption_eq_ok.mp hoption).1, none, hoption, fun auth heq => (nomatch heq)⟩
  · rename_i auth hoption
    have hsubpath := (getOption_eq_ok.mp hoption).1
    split at h
    · exact nomatch Except.ok.inj h
    · rename_i hresponse
      refine ⟨hname h, hsubpath, some auth, hoption, fun other heq => .inl ?_⟩
      rwa [← Option.some.inj heq]
    · rename_i hresponse
      refine ⟨hname h, hsubpath, some auth, hoption, fun other heq => .inr ?_⟩
      rwa [← Option.some.inj heq]
    · exact nomatch h

theorem keepsBack_eq_false (h : fileserv.keepsBack server path = .ok false) :
    ∃ enabled, fileserv.getModulesEnabled server path = .ok enabled ∧
      (enabled && fileserv.isCompiledModule path) = false := by
  unfold keepsBack at h
  cases henabled : fileserv.getModulesEnabled server path with
  | error e =>
    rw [henabled] at h
    exact nomatch h
  | ok enabled =>
    rw [henabled] at h
    exact ⟨enabled, rfl, Except.ok.inj h⟩

/-- Where neither check answers, the path passes. -/
theorem filter_passes (h : NoOverrides fileserv)
    (hauth : authFailure server request path = .ok none)
    (hmodule : fileserv.keepsBack server path = .ok false) :
    fileserv.filter server request path = ⟨[], .ok true⟩ := by
  unfold filter doFilter authFailed
  rw [h.authCheck, h.authCheckFailed, h.compiledModuleCheck, h.compiledModuleCheckFailed, hauth]
  show (fileserv.moduleFilter server path >>= _) = _
  obtain ⟨enabled, henabled, hkept⟩ := keepsBack_eq_false hmodule
  unfold moduleFilter
  rw [henabled]
  show ((pure !(enabled && fileserv.isCompiledModule path) : Run Bool) >>= _) = _
  rw [hkept]
  rfl

theorem doFilter_all {P : Event → Prop} {function : Option (Request → Path → Run Bool)}
    {defaultAction : Run Bool} (h : ∀ f ∈ function, ∀ request path, (f request path).All P)
    (hdefault : defaultAction.All P) : (doFilter function request path defaultAction).All P := by
  unfold doFilter
  split
  · exact h _ rfl request path
  · exact hdefault

/-- A response that is the handlers' own, and made from no file. -/
inductive IsRefusal : Response → Prop
  | plain (code : Int) (content : Bytes) : IsRefusal { code, content }
  | realm (realm : Bytes) : IsRefusal (unauthorizedRealm realm)

theorem isRefusal_unauthorized : IsRefusal unauthorized := .plain 401 (ascii "Unauthorized")

theorem authResponse_isRefusal {auth : Json} {response : Response}
    (h : authResponse request auth = .ok (some response)) : IsRefusal response := by
  unfold authResponse at h
  simp only [except_bind_eq_ok] at h
  obtain ⟨-, -, username, -, -, -, password, -, h⟩ := h
  split at h
  · split at h
    · cases h
      exact .realm []
    · obtain ⟨realm, -, h⟩ := except_bind_eq_ok.mp h
      cases h
      exact .realm realm
  · cases h
  · cases h
    exact isRefusal_unauthorized

theorem authFailure_isRefusal {response : Response}
    (h : authFailure server request path = .ok (some response)) : IsRefusal response := by
  have hconfig : ∀ other, (if path.filename = configName then some unauthorized else none) =
      some other → IsRefusal other := by
    intro other hother
    split at hother
    · cases hother
      exact isRefusal_unauthorized
    · cases hother
  unfold authFailure at h
  dsimp only at h
  split at h
  · cases h
  · exact hconfig response (Except.ok.inj h)
  · split at h
    · rename_i hauth
      cases h
      exact authResponse_isRefusal hauth
    · exact hconfig response (Except.ok.inj h)
    · exact hconfig response (Except.ok.inj h)
    · cases h

/-- What a filter does is done by a function that another plugin put in its place, or it answers. -/
theorem filter_all {P : Event → Prop}
    (hanswer : ∀ response, IsRefusal response → P (.respond response none))
    (hauthCheck : ∀ f ∈ fileserv.algizAuthCheck, ∀ request path, (f request path).All P)
    (hauthCheckFailed : ∀ f ∈ fileserv.algizAuthCheckFailed, ∀ request path,
      (f request path).All P)
    (hmoduleCheck : ∀ f ∈ fileserv.algizCompiledModuleCheck, ∀ request path,
      (f request path).All P)
    (hmoduleCheckFailed : ∀ f ∈ fileserv.algizCompiledModuleCheckFailed, ∀ request path,
      (f request path).All P) :
    (fileserv.filter server request path).All P := by
  have hrefuse : ∀ content, (refuse content).All P := fun content =>
    Trace.All.bind (.emit (hanswer _ (.plain 401 content))) fun _ _ => .pure false
  have hauthFailed : (authFailed server request path).All P := by
    unfold authFailed
    refine Trace.All.bind (.lift _) fun failure hfailure => ?_
    cases failure with
    | none => exact .pure false
    | some response =>
      have hresponse := authFailure_isRefusal (orThrow_eq_ok.mp hfailure)
      exact Trace.All.bind (.emit (hanswer response hresponse)) fun _ _ => .pure true
  unfold filter
  apply Trace.All.bind
  · exact doFilter_all hauthCheck (Trace.All.bind hauthFailed fun _ _ => .pure _)
  · intro passed _
    split
    · exact doFilter_all hauthCheckFailed (hrefuse _)
    · apply Trace.All.bind
      · exact doFilter_all hmoduleCheck (Trace.All.bind (.lift _) fun _ _ => .pure _)
      · intro passed _
        split
        · exact doFilter_all hmoduleCheckFailed (hrefuse _)
        · exact .pure true

/-- Where no function takes the place of `authFailed`, and none lets a path pass that it refused,
    what passes was not refused. -/
theorem filter_passed (hauthCheck : fileserv.algizAuthCheck = none)
    (hauthCheckFailed : ∀ f ∈ fileserv.algizAuthCheckFailed, ∀ request path,
      (f request path).result ≠ .ok true)
    (h : (fileserv.filter server request path).result = .ok true) :
    authFailure server request path = .ok none := by
  unfold filter at h
  rw [hauthCheck] at h
  obtain ⟨passed, hpassed, hrest⟩ := Trace.bind_eq_ok.mp h
  cases passed with
  | false =>
    have hfailed : (doFilter fileserv.algizAuthCheckFailed request path
        (refuse (ascii "Unauthorized"))).result = .ok true := hrest
    unfold doFilter at hfailed
    split at hfailed
    · rename_i function heq
      exact absurd hfailed (hauthCheckFailed function heq request path)
    · exact nomatch hfailed
  | true =>
    obtain ⟨failed, hfailed, hnot⟩ := Trace.bind_eq_ok.mp hpassed
    obtain ⟨failure, hfailure, hanswer⟩ := Trace.bind_eq_ok.mp hfailed
    cases failure with
    | none => exact orThrow_eq_ok.mp hfailure
    | some response =>
      obtain rfl : true = failed := Except.ok.inj hanswer
      exact nomatch hnot

/-! ## Handlers -/

/-- The path that a request asks for, with a slash if it is a directory's. -/
def requestedPath (fileserv : Fileserv) (server : ServerOptions) (request : Request) :
    Option Path :=
  (fileserv.fs.canonical (fileserv.getRoot server)).map fun root =>
    fileserv.slashDirectory (expand fileserv.ind root request.path)

/-- What `authFailed` answers in a run of a handler; `none` if it does not answer, or is not
    asked. -/
def refusal (fileserv : Fileserv) (server : ServerOptions) (request : Request)
    (notDisabled : Bool) : Option Response :=
  if notDisabled && fileserv.hostMatches request then
    (fileserv.requestedPath server request).bind fun path =>
      if isSubpath (fileserv.getRoot server) path then
        match authFailure server request path with
        | .ok response => response
        | .error _ => none
      else none
  else none

/-- What a handler comes to. -/
inductive Handled (fileserv : Fileserv) (post : Option StringMap) (server : ServerOptions)
    (request : Request) (notDisabled : Bool) : Run CancelableResult → Prop
  | passes (h : fileserv.refusal server request notDisabled = none) :
      Handled fileserv post server request notDisabled ⟨[], .ok .pass⟩
  | throws (e : Exception) (h : fileserv.refusal server request notDisabled = none) :
      Handled fileserv post server request notDisabled (throwing e)
  | unauthorized (response : Response)
      (h : fileserv.refusal server request notDisabled = some response) :
      Handled fileserv post server request notDisabled
        ⟨[.respond response none, .respond Plugins.unauthorized none, .closed], .ok .kill⟩
  /-- a compiled module, or a name that begins with a dot -/
  | refuses (response : Response) (h : fileserv.refusal server request notDisabled = none) :
      Handled fileserv post server request notDisabled
        ⟨[.respond response none, .closed], .ok .kill⟩
  | serves (path found : Path) (h : fileserv.refusal server request notDisabled = none)
      (hpath : fileserv.requestedPath server request = some path)
      (hsubpath : isSubpath (fileserv.getRoot server) path = true)
      (hauth : authFailure server request path = .ok none)
      (hmodule : fileserv.keepsBack server path = .ok false)
      (hfound : fileserv.findPath path = .ok (some found)) :
      Handled fileserv post server request notDisabled
        (Trace.handle (fileserv.serve server request post found >>= fun _ => closeWith .approve)
          forbid)

theorem handleRequest_handled (h : NoOverrides fileserv) (nodotSays : Option Bool → Bool)
    (notDisabled : Bool) :
    Handled fileserv post server request notDisabled
      (fileserv.handleRequest nodotSays post server request notDisabled) := by
  unfold handleRequest
  cases hdisabled : notDisabled with
  | false => exact .passes rfl
  | true =>
  cases hhost : fileserv.hostMatches request with
  | false =>
    refine .passes ?_
    unfold refusal
    rw [hhost]
    rfl
  | true =>
  cases hroot : fileserv.fs.canonical (fileserv.getRoot server) with
  | none =>
    refine .throws _ ?_
    unfold refusal requestedPath
    rw [hroot, hhost]
    rfl
  | some root =>
  generalize hexpand : fileserv.slashDirectory (expand fileserv.ind root request.path) = path
  have hpath : fileserv.requestedPath server request = some path := by
    unfold requestedPath
    rw [hroot, ← hexpand]
    rfl
  have hrefusal : fileserv.refusal server request true =
      if isSubpath (fileserv.getRoot server) path then
        match authFailure server request path with
        | .ok response => response
        | .error _ => none
      else none := by
    unfold refusal
    rw [hhost, hpath]
    rfl
  show Handled fileserv post server request true
    (fileserv.afterExpand nodotSays post server request
      (fileserv.slashDirectory (expand fileserv.ind root request.path)))
  rw [hexpand]
  unfold afterExpand
  cases hsubpath : isSubpath (fileserv.getRoot server) path with
  | false =>
    rw [hsubpath] at hrefusal
    exact .passes hrefusal
  | true =>
  rw [hsubpath, if_pos rfl] at hrefusal
  have hnone : authFailure server request path = .ok none →
      fileserv.refusal server request true = none := by
    intro hauth
    rw [hrefusal, hauth]
  have hfiltered : Filtered fileserv server request path (fileserv.filter server request path) :=
    filter_filtered h
  generalize fileserv.filter server request path = filtered at hfiltered
  cases hfiltered with
  | throws e hauth =>
    refine .throws e ?_
    rw [hrefusal]
    split
    · rename_i response hresponse
      cases response with
      | none => rfl
      | some response => exact absurd hresponse (hauth response)
    · rfl
  | unauthorized response hauth =>
    refine .unauthorized response ?_
    rw [hrefusal, hauth]
  | keptBack response hauth => exact .refuses response (hnone hauth)
  | passes hauth hmodule =>
    show Handled fileserv post server request true
      (fileserv.afterFilter nodotSays post server request path)
    unfold afterFilter
    cases hnodot : server.getBoolOption path (ascii "nodot") with
    | error e => exact .throws e (hnone hauth)
    | ok nodot =>
      show Handled fileserv post server request true (if _ then _ else _)
      split
      · exact .refuses _ (hnone hauth)
      · cases hfound : fileserv.findPath path with
        | error e => exact .throws e (hnone hauth)
        | ok found =>
          cases found with
          | none => exact .passes (hnone hauth)
          | some found =>
            exact .serves path found (hnone hauth) hpath hsubpath hauth hmodule hfound

/-- What a handler does is done by the filter or to serve what was found, or it is an answer of its
    own. -/
theorem handleRequest_all {P : Event → Prop} (nodotSays : Option Bool → Bool) (notDisabled : Bool)
    (hfilter : ∀ path, (fileserv.filter server request path).All P)
    (hanswer : ∀ response, IsRefusal response → P (.respond response none)) (hclosed : P .closed)
    (hserve : ∀ path found nodot, fileserv.requestedPath server request = some path →
      isSubpath (fileserv.getRoot server) path = true →
      (fileserv.filter server request path).result = .ok true →
      server.getBoolOption path (ascii "nodot") = .ok nodot →
      fileserv.findPath path = .ok (some found) →
      (fileserv.serve server request post found).All P) :
    (fileserv.handleRequest nodotSays post server request notDisabled).All P := by
  have hclose : ∀ result, (closeWith result).All P := fun result =>
    Trace.All.bind (.emit hclosed) fun _ _ => .pure result
  unfold handleRequest
  split
  · exact .pure _
  split
  · exact .pure _
  cases hroot : fileserv.fs.canonical (fileserv.getRoot server) with
  | none => exact .lift _
  | some root =>
    have hpath : fileserv.requestedPath server request =
        some (fileserv.slashDirectory (expand fileserv.ind root request.path)) := by
      unfold requestedPath
      rw [hroot]
      rfl
    dsimp only
    generalize fileserv.slashDirectory (expand fileserv.ind root request.path) = path at hpath
    unfold afterExpand
    cases hsubpath : isSubpath (fileserv.getRoot server) path with
    | false => exact .pure _
    | true =>
      apply Trace.All.bind (hfilter path)
      intro passed hpassed
      cases passed with
      | false => exact hclose _
      | true =>
        show (fileserv.afterFilter nodotSays post server request path).All P
        unfold afterFilter
        refine Trace.All.bind (.lift _) fun nodot hnodot => ?_
        split
        · exact Trace.All.bind (.emit (hanswer _ isRefusal_unauthorized)) fun _ _ => hclose _
        · refine Trace.All.bind (.lift _) fun found hfound => ?_
          cases found with
          | none => exact .pure _
          | some found =>
            apply Trace.All.handle
            · exact Trace.All.bind (hserve path found nodot hpath hsubpath hpassed
                (orThrow_eq_ok.mp hnodot) (orThrow_eq_ok.mp hfound)) fun _ _ => hclose _
            · intro e y hy
              cases e with
              | aborted => exact nomatch hy
              | thrown e =>
                obtain rfl := Option.some.inj hy
                exact Trace.All.bind (.emit (hanswer _ (.plain 403 _))) fun _ _ => hclose _

/-- A request that no check refuses is served. -/
theorem handleRequest_serves {found : Path} {nodotSays : Option Bool → Bool} {nodot : Option Bool}
    (h : NoOverrides fileserv) (hhost : fileserv.hostMatches request = true)
    (hpath : fileserv.requestedPath server request = some path)
    (hsubpath : isSubpath (fileserv.getRoot server) path = true)
    (hauth : authFailure server request path = .ok none)
    (hmodule : fileserv.keepsBack server path = .ok false)
    (hnodot : server.getBoolOption path (ascii "nodot") = .ok nodot)
    (hallows : (nodotSays nodot && path.filename.head? = some 46) = false)
    (hfound : fileserv.findPath path = .ok (some found)) :
    fileserv.handleRequest nodotSays post server request true =
      Trace.handle (fileserv.serve server request post found >>= fun _ => closeWith .approve)
        forbid := by
  obtain ⟨root, hroot, hexpand⟩ := Option.map_eq_some_iff.mp hpath
  have hfilter := filter_passes h hauth hmodule
  unfold handleRequest
  rw [hhost, hroot]
  show fileserv.afterExpand nodotSays post server request
    (fileserv.slashDirectory (expand fileserv.ind root request.path)) = _
  rw [hexpand]
  unfold afterExpand
  rw [hsubpath, hfilter]
  show fileserv.afterFilter nodotSays post server request path = _
  unfold afterFilter
  rw [hnodot, hfound]
  show (if (nodotSays nodot && _) = true then _ else _) = _
  rw [hallows]
  rfl

/-- A file that is not empty is sent. -/
theorem serveFull_sends (hfile : fileserv.fs.regularFile path = some file)
    (hreadable : file.readable = true) (hcontent : file.content ≠ []) :
    ∃ event ∈ (fileserv.serveFull path).events, event.source = some path := by
  unfold serveFull
  rw [hfile]
  dsimp only
  rw [hreadable, if_neg (by decide)]
  obtain ⟨n, hn⟩ := Nat.exists_eq_succ_of_ne_zero fun h => hcontent (List.length_eq_zero_iff.mp h)
  rw [hn]
  unfold sendChunks
  rw [if_pos (Nat.succ_pos n)]
  exact ⟨_, List.mem_cons_of_mem _ (List.mem_cons_of_mem _ List.mem_cons_self), rfl⟩

/-- A template that can be rendered is sent. -/
theorem serveTemplate_sends {content : Bytes} (hfile : fileserv.fs.regularFile path = some file)
    (hreadable : file.readable = true)
    (hrender : fileserv.renderTemplate file.content post = .ok content) :
    ∃ event ∈ (fileserv.serveTemplate post path).events, event.source = some path := by
  unfold serveTemplate readFile
  rw [hfile]
  dsimp only
  rw [hreadable, if_neg (by decide),
    Trace.bind_of_ok (rfl : ((Trace.emit (.opened path) >>= fun _ =>
      pure file.content : Run Bytes)).result = .ok file.content), hrender]
  exact ⟨.respond { code := 200, content } (some path), List.mem_append_right _
    (List.mem_singleton_self _), rfl⟩

/-- A file that is no module is sent, if neither ranges nor a suffix are asked for. -/
theorem serve_sends {content : Bytes} (hfile : fileserv.fs.regularFile path = some file)
    (hreadable : file.readable = true) (hcontent : file.content ≠ [])
    (hrender : fileserv.renderTemplate file.content post = .ok content)
    (hmodule : fileserv.shouldServeModule server path = .ok false)
    (hranges : request.ranges = []) (hsuffix : request.suffixLength = 0) :
    ∃ event ∈ (fileserv.serve server request post path).events, event.source = some path := by
  unfold serve
  split
  · exact serveTemplate_sends hfile hreadable hrender
  · rw [hmodule, hranges, hsuffix]
    show ∃ event ∈ (if (!hacksRanges request && false) = true then
      fileserv.serveRange request path else fileserv.serveFull path).events, _
    rw [Bool.and_false, if_neg (by decide)]
    exact serveFull_sends hfile hreadable hcontent

end Fileserv

end Algiz.Plugins
