/-
  How many responses a handler of `Fileserv` writes.

  Serving a file writes one response head, or throws before the head, and then one is written for
  the exception (`served_sendsOnce`). But where `authFailed` has answered, the action for a failed
  check answers again: two heads (`handlers_sendsOnce_iff`).
-/
import Algiz.Fileserv.Runs

namespace Algiz.Plugins

open Lib HTTP

/-- One response head if the request was handled, and no byte if it was passed on. -/
def SendsOnce (run : Run CancelableResult) : Prop :=
  match run.result with
  | .ok .kill | .ok .approve => run.count Event.isHead = 1
  | .ok .pass => ∀ event ∈ run.events, event.isWritten = false
  | _ => True

namespace Fileserv

variable {fileserv : Fileserv} {path : Path} {request : Request} {server : ServerOptions}
  {post : Option StringMap}

theorem count_bodies {events : List Event} (h : ∀ event ∈ events, IsBody path event) :
    events.countP Event.isHead = 0 :=
  List.countP_eq_zero.mpr fun event hevent => by
    rw [(h event hevent).not_head]
    exact Bool.false_ne_true

theorem count_opened {events : List Event} (h : ∀ event ∈ events, event = .opened path) :
    events.countP Event.isHead = 0 :=
  List.countP_eq_zero.mpr fun event hevent => by
    rw [h event hevent]
    exact Bool.false_ne_true

/-- A file that is served is one response, and so is an exception on the way. -/
theorem served_sendsOnce {run : Run Unit} (h : Served path run) :
    SendsOnce (Trace.handle (run >>= fun _ => closeWith .approve) forbid) := by
  cases h with
  | throws opened hopened e =>
    show (opened ++ [Event.respond { code := 403, content := ascii "Forbidden" } none,
      .closed]).countP Event.isHead = 1
    rw [List.countP_append, count_opened hopened]
    rfl
  | aborts => exact trivial
  | refuses response => exact rfl
  | renders response => exact rfl
  | sends events hevents =>
    obtain ⟨response, body, rfl, hbody⟩ := hevents
    show ([Event.opened path, .head response] ++ body ++ [Event.closed]).countP Event.isHead = 1
    rw [List.countP_append, List.countP_append, count_bodies hbody]
    rfl

/-- Does a request ask for the page of a module? -/
def servesModule (fileserv : Fileserv) (server : ServerOptions) (request : Request) : Bool :=
  match fileserv.requestedPath server request with
  | none => false
  | some path =>
    match fileserv.findPath path with
    | .ok (some found) => fileserv.isModulePage server found
    | _ => false

theorem handled_sendsOnce_iff {notDisabled : Bool} {run : Run CancelableResult}
    (hmodule : fileserv.servesModule server request = false)
    (h : Handled fileserv post server request notDisabled run) :
    SendsOnce run ↔ fileserv.refusal server request notDisabled = none := by
  cases h with
  | passes h => exact iff_of_true (fun _ hevent => absurd hevent List.not_mem_nil) h
  | throws e h => exact iff_of_true trivial h
  | unauthorized response h =>
    refine iff_of_false (fun htwo : 2 = 1 => ?_) fun hnone => ?_
    · exact absurd htwo (by decide)
    · exact nomatch h.symm.trans hnone
  | refuses response h => exact iff_of_true rfl h
  | serves path found h hpath hsubpath hauth hkept hfound =>
    refine iff_of_true (served_sendsOnce (serve_served ?_)) h
    unfold servesModule at hmodule
    rw [hpath] at hmodule
    dsimp only at hmodule
    rw [hfound] at hmodule
    exact hmodule

/-- Module pages apart, GET and POST requests get one response if they are handled and none if
    they are passed on: but for those that `authFailed` answers, which get two. -/
theorem handlers_sendsOnce_iff (fileserv : Fileserv) (server : ServerOptions) (request : Request)
    (notDisabled : Bool) (hoverrides : NoOverrides fileserv)
    (hmodule : fileserv.servesModule server request = false) :
    (SendsOnce (fileserv.handleGET server request notDisabled) ↔
        fileserv.refusal server request notDisabled = none) ∧
      (SendsOnce (fileserv.handlePOST server request notDisabled) ↔
        fileserv.refusal server request notDisabled = none) :=
  ⟨handled_sendsOnce_iff hmodule (handleRequest_handled hoverrides _ _),
    handled_sendsOnce_iff hmodule (handleRequest_handled hoverrides _ _)⟩

theorem handlers_sendsOnce_iff_file :
    SendsOnce
        (({ fs := elevenBytes } : Fileserv).handleGET srvOptions { path := ascii "/f" } true) ∧
      SendsOnce
        (({ fs := elevenBytes } : Fileserv).handlePOST srvOptions { path := ascii "/f" } true) := by
  have hmodule : ({ fs := elevenBytes } : Fileserv).servesModule srvOptions
      { path := ascii "/f" } = false := by decide
  have hrefusal : (({ fs := elevenBytes } : Fileserv).refusal srvOptions
      { path := ascii "/f" } true).isNone = true := by decide
  have h := handlers_sendsOnce_iff { fs := elevenBytes } srvOptions { path := ascii "/f" } true
    ⟨rfl, rfl, rfl, rfl⟩ hmodule
  exact ⟨h.1.mpr (Option.isNone_iff_eq_none.mp hrefusal),
    h.2.mpr (Option.isNone_iff_eq_none.mp hrefusal)⟩

/-- The run of a GET request for `/.algiz`. -/
def algizRun : Run CancelableResult :=
  ({ fs := elevenBytes } : Fileserv).handleGET srvOptions { path := ascii "/.algiz" } true

/-- A request for `/.algiz` is killed with two response heads. -/
theorem algizRun_two_heads :
    algizRun.result = .ok .kill ∧ algizRun.count Event.isHead = 2 ∧ ¬SendsOnce algizRun := by
  have hresult : algizRun.result = .ok .kill := by decide
  have hcount : algizRun.count Event.isHead = 2 := by decide
  refine ⟨hresult, hcount, fun h => ?_⟩
  unfold SendsOnce at h
  rw [hresult] at h
  dsimp only at h
  omega

end Fileserv

end Algiz.Plugins
