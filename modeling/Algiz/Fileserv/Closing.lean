/-
  `Fileserv`: whether the connection is closed as the response head says.

  A constructed response says `Connection: close`, and `Fileserv` never takes that back
  (`handleRequest_keepsClose`). `Client::close` closes the connection only if `keepAlive` is off,
  and `keepAlive` is on until the client sends a header that is spelled `Connection: close`
  (`Client.keepAlive_eq`). So the two agree when the last `Connection` header of the client is
  that one, and only then (`closes_as_said_iff`).
-/
import Algiz.Fileserv.Responses
import Algiz.HTTP.Client
import Algiz.HTTP.Head
import Algiz.HTTP.HeaderNames
import Algiz.Split

namespace Algiz

open Lib

namespace HTTP

/-! ## What the client asks for -/

/-- What a call of `handleLine` does to the client. -/
def Client.read (opts : Options) (client : Client) (line : Bytes) : Client :=
  let o := client.request.handleLine opts line
  { client with request := o.request, keepAlive := o.keepAlive.getD client.keepAlive }

/-- A new client that has been read from. -/
def Client.after (opts : Options) (lines : List Bytes) : Client := lines.foldl (Client.read opts) {}

/-- The line, if it is read as a header of which the name is spelled `Connection`. -/
def Request.connectionHeader (q : Request) (line : Bytes) : Option Bytes :=
  if q.mode = .headers ∧ ascii "Connection: " <+: stripLine line then some (stripLine line)
  else none

/-- The `Connection` headers that are read. -/
def Request.connectionHeaders (opts : Options) : Request → List Bytes → List Bytes
  | _, [] => []
  | q, line :: lines => (q.connectionHeader line).toList ++
      connectionHeaders opts (q.handleLine opts line).request lines

/-- The last `Connection` header that was read is `Connection: close`. -/
def AsksToClose (opts : Options) (lines : List Bytes) : Prop :=
  (Request.connectionHeaders opts {} lines).getLast? = some (ascii "Connection: close")

namespace Request

variable {opts : Options} {q : Request} {line : Bytes}

theorem methodLine_keepAlive (opts : Options) (line : Bytes) (q : Request) :
    (q.methodLine opts line).keepAlive = none := by
  unfold methodLine
  dsimp only
  split
  · rfl
  · split
    · rfl
    · split
      · rfl
      · split <;> rfl

theorem contentPiece_keepAlive (opts : Options) (line : Bytes) (q : Request) :
    (q.contentPiece opts line).keepAlive = none := by
  unfold contentPiece
  dsimp only
  split <;> rfl

theorem blankLine_keepAlive (q : Request) : q.blankLine.keepAlive = none := by
  unfold blankLine
  dsimp only
  split <;> rfl

theorem contentLengthHeader_keepAlive (opts : Options) (content : Bytes) (q : Request) :
    (contentLengthHeader opts content q).keepAlive = none := by
  unfold contentLengthHeader
  split
  · rfl
  · dsimp only
    split <;> rfl

/-- Only a header of this name is about the connection. -/
theorem header_keepAlive (opts : Options) (name value : Bytes) (q : Request) :
    (q.header opts name value).keepAlive =
      if name = ascii "Connection" then some (decide (value ≠ ascii "close")) else none := by
  unfold header
  dsimp only
  split_ifs with hlength hconnection hrange hconnection hconnection
  · rw [hlength] at hconnection
    exact absurd hconnection (by decide)
  · exact contentLengthHeader_keepAlive opts value _
  · rw [hrange] at hconnection
    exact absurd hconnection (by decide)
  · split <;> rfl
  · rfl
  · rfl

theorem headerLine_keepAlive (opts : Options) (line : Bytes) (q : Request) :
    (q.headerLine opts line).keepAlive =
      if ascii "Connection: " <+: line then some (decide (line ≠ ascii "Connection: close"))
      else none := by
  have hself : ascii "Connection: " = ascii "Connection" ++ ascii ": " := by decide
  have hclose : ascii "Connection: close" = ascii "Connection: " ++ ascii "close" := by decide
  by_cases hstart : ascii "Connection: " <+: line
  · obtain ⟨value, rfl⟩ := hstart
    have htext : ascii "Connection: " ++ value = headerText (ascii "Connection") value := by
      rw [hself]
      rfl
    have hvalue : ascii "Connection: " ++ value = ascii "Connection: close" ↔
        value = ascii "close" := by
      rw [hclose, List.append_right_inj]
    rw [if_pos (List.prefix_append _ _), decide_eq_decide.mpr (not_congr hvalue), htext,
      headerLine_headerText opts (by decide), header_keepAlive, if_pos rfl]
  · rw [if_neg hstart]
    cases hfound : findString (ascii ": ") line with
    | none =>
      unfold headerLine
      rw [hfound]
    | some separator =>
      obtain ⟨rest, hrest⟩ := ((findString_eq_some_iff (by decide)).mp hfound).1
      have hsplit : line = line.take separator ++ (ascii ": " ++ rest) := by
        rw [hrest, List.take_append_drop]
      have hname : line.take separator ≠ ascii "Connection" := by
        intro hname
        rw [hname, ← List.append_assoc, ← hself] at hsplit
        exact hstart ⟨rest, hsplit.symm⟩
      have hheader : q.headerLine opts line =
          q.header opts (line.take separator) (line.drop (separator + 2)) := by
        unfold headerLine
        rw [hfound]
        rfl
      rw [hheader, header_keepAlive, if_neg hname]

/-- `handleLine` assigns `keepAlive` for a `Connection` header, and for nothing else. -/
theorem handleLine_keepAlive (opts : Options) (line : Bytes) (q : Request) :
    (q.handleLine opts line).keepAlive =
      (q.connectionHeader line).map fun header => decide (header ≠ ascii "Connection: close") := by
  unfold connectionHeader handleLine
  cases q.mode with
  | method => exact methodLine_keepAlive opts _ q
  | content => exact contentPiece_keepAlive opts line q
  | headers =>
    dsimp only
    simp only [true_and]
    by_cases hempty : (stripLine line).isEmpty = true
    · have hnil := List.isEmpty_iff.mp hempty
      rw [if_pos hempty, hnil, if_neg (by decide)]
      exact blankLine_keepAlive q
    · rw [if_neg hempty, headerLine_keepAlive]
      split <;> rfl

end Request

/-- The flag is what the last `Connection` header set it to. -/
theorem Client.keepAlive_eq (opts : Options) (lines : List Bytes) (client : Client) :
    (lines.foldl (Client.read opts) client).keepAlive =
      match (Request.connectionHeaders opts client.request lines).getLast? with
      | some header => decide (header ≠ ascii "Connection: close")
      | none => client.keepAlive := by
  induction lines generalizing client with
  | nil => rfl
  | cons line lines ih =>
    have hread : (Client.read opts client line).keepAlive =
        ((client.request.connectionHeader line).map fun header =>
          decide (header ≠ ascii "Connection: close")).getD client.keepAlive := by
      rw [← Request.handleLine_keepAlive opts]
      rfl
    rw [List.foldl_cons, ih, hread, Request.connectionHeaders, List.getLast?_append]
    show (match (Request.connectionHeaders opts (client.request.handleLine opts line).request
      lines).getLast? with | some header => _ | none => _) = _
    cases (Request.connectionHeaders opts (client.request.handleLine opts line).request
      lines).getLast? with
    | some header => rfl
    | none => cases client.request.connectionHeader line <;> rfl

/-- A new client's flag is off when it asked to close the connection. -/
theorem Client.after_keepAlive (opts : Options) (lines : List Bytes) :
    (Client.after opts lines).keepAlive = false ↔ AsksToClose opts lines := by
  unfold Client.after AsksToClose
  rw [Client.keepAlive_eq]
  cases (Request.connectionHeaders opts ({} : Client).request lines).getLast? with
  | none => exact iff_of_false (fun h => by cases h) (fun h => by cases h)
  | some header =>
    rw [decide_eq_false_iff_not, not_not, Option.some_inj]

/-! ## What a response says -/

/-- The head says `Connection: close`. -/
def Response.SaysClose (r : Response) : Prop :=
  ∃ header ∈ r.written, toLower header.1 = ascii "connection" ∧ header.2 = ascii "close"

/-- Nothing has been taken back of what the constructors set. -/
def Response.KeepsClose (r : Response) : Prop :=
  r.headers[ascii "connection"]? = some (ascii "close")

theorem Response.keepsClose_constructed (code : Int) (content mime charset : Bytes)
    (noContentType : Bool) :
    (Response.constructed code content mime charset noContentType).KeepsClose :=
  Std.ExtTreeMap.getElem?_insert_self

/-- Another header may be set. -/
theorem Response.KeepsClose.set {r : Response} (h : r.KeepsClose) (header value : Bytes)
    (hheader : header ≠ ascii "connection") : (r.set header value).KeepsClose := by
  unfold KeepsClose Response.set at *
  dsimp only
  rw [Std.ExtTreeMap.getElem?_insert, if_neg, h]
  intro heq
  exact hheader (Std.LawfulEqCmp.compare_eq_iff_eq.mp heq)

theorem Response.KeepsClose.saysClose {r : Response} (h : r.KeepsClose) : r.SaysClose := by
  unfold SaysClose written
  cases (codeDescription r.code).isSome with
  | false =>
    rw [if_neg Bool.false_ne_true]
    exact ⟨(ascii "Connection", ascii "close"), by decide, by decide, rfl⟩
  | true =>
    rw [if_pos rfl]
    have hmem := Std.ExtTreeMap.mem_toList_iff_getElem?_eq_some.mpr h
    exact ⟨(ascii "connection", ascii "close"), List.mem_append_right _ hmem, by decide, rfl⟩

end HTTP

namespace Plugins

open HTTP

/-- The response of which the head is written. -/
def Event.response : Event → Option Response
  | .respond response _ | .head response => some response
  | _ => none

/-- `client.close()` closes the connection unless it is to be kept. -/
def Scheduled (keepAlive : Bool) (events : List Event) : Prop :=
  .closed ∈ events ∧ keepAlive = false

/-- Behind every head that is written, the connection is scheduled for closing exactly if the head
    says so. -/
def ClosesAsSaid (keepAlive : Bool) (run : Run CancelableResult) : Prop :=
  ∀ before event after, run.events = before ++ event :: after →
    ∀ response ∈ event.response, (Scheduled keepAlive after ↔ response.SaysClose)

/-- A head is written, and the request is not passed on. -/
def Answered (run : Run CancelableResult) : Prop :=
  (∃ event ∈ run.events, event.isHead = true) ∧ ∃ result, run.result = .ok result ∧ result ≠ .pass

/-- The head, if the event is one, says what the constructors set. -/
def Event.KeepsClose (event : Event) : Prop := ∀ response ∈ event.response, response.KeepsClose

theorem Event.keepsClose_of_none {event : Event} (h : event.response = none) :
    event.KeepsClose := by
  intro response hresponse
  rw [h] at hresponse
  cases hresponse

theorem Event.keepsClose_respond {response : Response} (h : response.KeepsClose)
    (source : Option Path) : (Event.respond response source).KeepsClose := by
  intro other hother
  rwa [← Option.some.inj hother]

theorem Event.keepsClose_head {response : Response} (h : response.KeepsClose) :
    (Event.head response).KeepsClose := by
  intro other hother
  rwa [← Option.some.inj hother]

namespace Fileserv

variable {fileserv : Fileserv} {path : Path} {file : File} {request : Request}
  {server : ServerOptions} {post : Option StringMap}

/-! ## Heads -/

theorem IsRefusal.keepsClose {response : Response} (h : IsRefusal response) :
    response.KeepsClose := by
  cases h with
  | plain code content => exact Response.keepsClose_constructed code content _ [] false
  | realm realm =>
    have hplain := Response.keepsClose_constructed 401 (ascii "Unauthorized") (ascii "text/html")
      [] false
    exact hplain.set _ _ (by decide)

/-- The functions that other plugins put in place of the filters write responses as they are
    constructed. -/
structure FiltersKeepClose (fileserv : Fileserv) : Prop where
  authCheck : ∀ function ∈ fileserv.algizAuthCheck, ∀ request path,
    (function request path).All Event.KeepsClose
  authCheckFailed : ∀ function ∈ fileserv.algizAuthCheckFailed, ∀ request path,
    (function request path).All Event.KeepsClose
  compiledModuleCheck : ∀ function ∈ fileserv.algizCompiledModuleCheck, ∀ request path,
    (function request path).All Event.KeepsClose
  compiledModuleCheckFailed : ∀ function ∈ fileserv.algizCompiledModuleCheckFailed,
    ∀ request path, (function request path).All Event.KeepsClose

theorem keepsClose_opened (path : Path) : (Event.opened path).KeepsClose :=
  Event.keepsClose_of_none rfl

theorem keepsClose_bodies {events : List Event} (h : ∀ event ∈ events, IsBody path event) :
    ∀ event ∈ events, event.KeepsClose := by
  intro event hevent
  obtain ⟨bytes, source, rfl, -⟩ := h event hevent
  exact Event.keepsClose_of_none rfl

theorem rangeResponse_keepsClose (fileserv : Fileserv) (file : File) (ranges : List (Nat × Nat))
    (suffixLength : Nat) : (fileserv.rangeResponse file ranges suffixLength).KeepsClose := by
  have hconstructed := Response.keepsClose_constructed 206 [] (ascii "text/html") [] false
  have haccept := hconstructed.set (ascii "accept-ranges") (ascii "bytes") (by decide)
  have hlength := haccept.set (ascii "content-length")
    (decimalText (rangesLength ranges suffixLength)) (by decide)
  have hmodified := hlength.set (ascii "last-modified") file.writeTimeText (by decide)
  unfold rangeResponse
  dsimp only
  split
  · exact (hmodified.set _ _ (by decide)).set _ _ (by decide)
  · exact hmodified.set _ _ (by decide)

theorem serveRange_keepsClose : (fileserv.serveRange request path).All Event.KeepsClose := by
  unfold serveRange
  split
  · exact .lift _
  · rename_i file _
    dsimp only
    split
    · exact .emit (Event.keepsClose_respond (IsRefusal.plain 400 _).keepsClose none)
    · unfold serveRanges
      split
      · exact .lift _
      · split
        · exact .bind (.emit (keepsClose_opened path)) fun _ _ => .lift _
        · have hanswer : IsAnswer path (fileserv.rangeEvents path file
              (fileserv.sort request.ranges) request.suffixLength) := rangeEvents_isAnswer _ _
          obtain ⟨response, body, hevents, hbody⟩ := hanswer
          have hhead : Event.head (fileserv.rangeResponse file (fileserv.sort request.ranges)
              request.suffixLength) = .head response := (List.cons.inj hevents).1
          refine .emitAll (List.forall_mem_cons.mpr ⟨keepsClose_opened path, ?_⟩)
          rw [hevents, ← hhead]
          exact List.forall_mem_cons.mpr ⟨Event.keepsClose_head
            (rangeResponse_keepsClose fileserv file _ _), keepsClose_bodies hbody⟩

theorem serveFull_keepsClose : (fileserv.serveFull path).All Event.KeepsClose := by
  unfold serveFull
  split
  · exact .lift _
  · rename_i file _
    split
    · exact .lift _
    · have hconstructed := Response.keepsClose_constructed 200 [] (getMIME path.extension) [] false
      have hmodified := hconstructed.set (ascii "last-modified") file.writeTimeText (by decide)
      have haccept := hmodified.set (ascii "accept-ranges") (ascii "bytes") (by decide)
      have hresponse := haccept.set (ascii "content-length") (decimalText file.content.length)
        (by decide)
      refine .emitAll (List.forall_mem_cons.mpr ⟨keepsClose_opened path, ?_⟩)
      exact List.forall_mem_cons.mpr ⟨Event.keepsClose_head hresponse,
        keepsClose_bodies isBody_chunks⟩

theorem serveTemplate_keepsClose : (fileserv.serveTemplate post path).All Event.KeepsClose := by
  unfold serveTemplate
  refine .bind ?_ fun text _ => .bind (.lift _) fun content _ => ?_
  · unfold readFile
    split
    · exact .lift _
    · split
      · exact .lift _
      · exact .bind (.emit (keepsClose_opened path)) fun _ _ => .pure _
  · exact .emit (Event.keepsClose_respond (IsRefusal.plain 200 content).keepsClose (some path))

theorem runModuleOf_keepsClose :
    (fileserv.runModuleOf request path).All Event.KeepsClose := by
  unfold runModuleOf
  refine .bind ?_ fun _ _ => ?_
  · split
    · exact .pure ()
    · exact .emit (keepsClose_opened _)
  · split
    · exact .lift _
    · refine .bind (.emit (Event.keepsClose_of_none rfl)) fun _ _ => ?_
      split
      · exact .lift _
      · exact .pure ()

theorem serveModule_keepsClose :
    (fileserv.serveModule request path).All Event.KeepsClose := by
  unfold serveModule
  dsimp only
  split
  · refine .bind (.emit (keepsClose_opened path)) fun _ _ => ?_
    split
    · exact .emit (Event.keepsClose_respond
        (Response.keepsClose_constructed 500 _ (ascii "text/plain") (ascii "utf-8") false) _)
    · exact runModuleOf_keepsClose
  · exact runModuleOf_keepsClose

theorem serve_keepsClose : (fileserv.serve server request post path).All Event.KeepsClose := by
  unfold serve
  split
  · exact serveTemplate_keepsClose
  · refine .bind (.lift _) fun isModule _ => ?_
    split
    · exact serveModule_keepsClose
    · split
      · exact serveRange_keepsClose
      · exact serveFull_keepsClose

/-- No head that a handler writes takes back what the constructors set. -/
theorem handleRequest_keepsClose (h : FiltersKeepClose fileserv)
    (nodotSays : Option Bool → Bool) (notDisabled : Bool) :
    (fileserv.handleRequest nodotSays post server request notDisabled).All Event.KeepsClose := by
  have hanswer : ∀ response, IsRefusal response → (Event.respond response none).KeepsClose :=
    fun response hresponse => Event.keepsClose_respond hresponse.keepsClose none
  apply handleRequest_all
  · exact fun path => filter_all hanswer h.authCheck h.authCheckFailed h.compiledModuleCheck
      h.compiledModuleCheckFailed
  · exact hanswer
  · exact Event.keepsClose_of_none rfl
  · exact fun path found nodot _ _ _ _ _ => serve_keepsClose

/-! ## Closing -/

/-- Unless the request is passed on, `client.close()` is the last thing that is done. -/
def EndsClosed (run : Run CancelableResult) : Prop :=
  ∀ result, run.result = .ok result → result ≠ .pass → ∃ before, run.events = before ++ [.closed]

theorem endsClosed_pass : EndsClosed (pure .pass) := by
  intro result hresult hpass
  exact absurd (Except.ok.inj hresult).symm hpass

theorem endsClosed_closeWith (result : CancelableResult) : EndsClosed (closeWith result) :=
  fun _ _ _ => ⟨[], rfl⟩

theorem endsClosed_bind {α : Type} {x : Run α} {f : α → Run CancelableResult}
    (h : ∀ a, EndsClosed (f a)) : EndsClosed (x >>= f) := by
  intro result hresult hpass
  obtain ⟨a, hx, hf⟩ := Trace.bind_eq_ok.mp hresult
  obtain ⟨before, hbefore⟩ := h a result hf hpass
  refine ⟨x.events ++ before, ?_⟩
  rw [Trace.bind_of_ok hx, hbefore, List.append_assoc]

theorem endsClosed_handle {x : Run CancelableResult} (h : EndsClosed x) :
    EndsClosed (x.handle forbid) := by
  intro result hresult hpass
  cases hx : x.result with
  | ok value =>
    have hsame : x.handle forbid = x := by
      unfold Trace.handle
      rw [hx]
    rw [hsame] at hresult ⊢
    exact h result hresult hpass
  | error stop =>
    cases stop with
    | aborted =>
      unfold Trace.handle at hresult
      rw [hx] at hresult
      cases hx.symm.trans hresult
    | thrown e =>
      unfold Trace.handle
      rw [hx]
      exact ⟨_, (List.append_assoc x.events [_] [.closed]).symm⟩

theorem handleRequest_endsClosed (nodotSays : Option Bool → Bool) (notDisabled : Bool) :
    EndsClosed (fileserv.handleRequest nodotSays post server request notDisabled) := by
  unfold handleRequest
  split
  · exact endsClosed_pass
  split
  · exact endsClosed_pass
  split
  · exact fun result hresult => by cases hresult
  unfold afterExpand
  split
  · exact endsClosed_pass
  refine endsClosed_bind fun passed => ?_
  split
  · exact endsClosed_closeWith .kill
  unfold afterFilter
  refine endsClosed_bind fun nodot => ?_
  split
  · exact endsClosed_bind fun _ => endsClosed_closeWith .kill
  refine endsClosed_bind fun found => ?_
  cases found with
  | none => exact endsClosed_pass
  | some found =>
    exact endsClosed_handle (endsClosed_bind fun _ => endsClosed_closeWith .approve)

/-- Where every head says `Connection: close` and the run ends with `client.close()`, it depends
    on the client's flag alone. -/
theorem closesAsSaid_iff {run : Run CancelableResult} (hanswered : Answered run)
    (hkeeps : run.All Event.KeepsClose) (hends : EndsClosed run) (keepAlive : Bool) :
    ClosesAsSaid keepAlive run ↔ keepAlive = false := by
  obtain ⟨⟨event, hevent, hhead⟩, result, hresult, hpass⟩ := hanswered
  obtain ⟨start, hstart⟩ := hends result hresult hpass
  have hclosed : ∀ before event after, run.events = before ++ event :: after →
      event.response.isSome = true → Event.closed ∈ after := by
    intro before event after hsplit hsome
    rw [hstart] at hsplit
    cases hafter : after.getLast? with
    | none =>
      rw [List.getLast?_eq_none_iff.mp hafter] at hsplit
      obtain ⟨-, hlast⟩ := List.append_inj' hsplit rfl
      rw [← (List.cons.inj hlast).1] at hsome
      cases hsome
    | some last =>
      have hlast := congrArg List.getLast? hsplit
      rw [List.getLast?_concat, List.getLast?_append, List.getLast?_cons, hafter] at hlast
      rw [Option.some.inj hlast]
      exact List.mem_of_getLast? hafter
  constructor
  · intro h
    obtain ⟨before, after, hsplit⟩ := List.append_of_mem hevent
    obtain ⟨response, hresponse⟩ : ∃ response, event.response = some response := by
      cases event with
      | respond response source => exact ⟨response, rfl⟩
      | head response => exact ⟨response, rfl⟩
      | _ => cases hhead
    exact ((h before event after hsplit response hresponse).mpr
      (hkeeps event hevent response hresponse).saysClose).2
  · intro h before event after hsplit response hresponse
    have hmem : event ∈ run.events := hsplit ▸ List.mem_append_right before List.mem_cons_self
    refine iff_of_true ⟨hclosed before event after hsplit ?_, h⟩
      (hkeeps event hmem response hresponse).saysClose
    rw [Option.mem_def.mp hresponse]
    rfl

/-- Whatever has been read from a client, a request of it that is answered has its connection
    closed as the head says exactly if the client's last `Connection` header was
    `Connection: close`. -/
theorem closes_as_said_iff (fileserv : Fileserv) (server : ServerOptions) (opts : Options)
    (lines : List Bytes) (request : Request) (notDisabled : Bool)
    (hfilters : FiltersKeepClose fileserv) :
    (Answered (fileserv.handleGET server request notDisabled) →
      (ClosesAsSaid (Client.after opts lines).keepAlive
          (fileserv.handleGET server request notDisabled) ↔ AsksToClose opts lines)) ∧
      (Answered (fileserv.handlePOST server request notDisabled) →
        (ClosesAsSaid (Client.after opts lines).keepAlive
          (fileserv.handlePOST server request notDisabled) ↔ AsksToClose opts lines)) := by
  have hboth : ∀ (nodotSays : Option Bool → Bool) (post : Option StringMap),
      Answered (fileserv.handleRequest nodotSays post server request notDisabled) →
      (ClosesAsSaid (Client.after opts lines).keepAlive
        (fileserv.handleRequest nodotSays post server request notDisabled) ↔
          AsksToClose opts lines) := by
    intro nodotSays post hanswered
    rw [← Client.after_keepAlive]
    exact closesAsSaid_iff hanswered (handleRequest_keepsClose hfilters nodotSays notDisabled)
      (handleRequest_endsClosed nodotSays notDisabled) _
  exact ⟨hboth _ none, hboth _ (some request.postParameters)⟩

theorem filtersKeepClose_of_noOverrides (h : NoOverrides fileserv) : FiltersKeepClose fileserv := by
  constructor
  · rw [h.authCheck]
    exact fun function hfunction => by cases hfunction
  · rw [h.authCheckFailed]
    exact fun function hfunction => by cases hfunction
  · rw [h.compiledModuleCheck]
    exact fun function hfunction => by cases hfunction
  · rw [h.compiledModuleCheckFailed]
    exact fun function hfunction => by cases hfunction

/-- A request for the file of eleven bytes, with these headers. -/
def fileLines (headers : List Bytes) : List Bytes :=
  ascii "GET /f HTTP/1.1\x0d\n" :: headers ++ [ascii "\x0d\n"]

/-- What comes of it. -/
def fileRun (headers : List Bytes) : Run CancelableResult :=
  ({ fs := elevenBytes } : Fileserv).handleGET srvOptions
    (Client.after {} (fileLines headers)).request true

theorem answered_fileRun {headers : List Bytes}
    (hhead : (fileRun headers).events.any Event.isHead = true)
    (hresult : (fileRun headers).result = .ok .approve) : Answered (fileRun headers) := by
  obtain ⟨event, hevent, hisHead⟩ := List.any_eq_true.mp hhead
  exact ⟨⟨event, hevent, hisHead⟩, .approve, hresult, by decide⟩

theorem fileserv_filtersKeepClose (fs : FileSystem File) :
    FiltersKeepClose ({ fs := fs } : Fileserv) :=
  filtersKeepClose_of_noOverrides ⟨rfl, rfl, rfl, rfl⟩

theorem closes_as_said_close :
    ClosesAsSaid (Client.after {} (fileLines [ascii "Connection: close\x0d\n"])).keepAlive
      (fileRun [ascii "Connection: close\x0d\n"]) :=
  ((closes_as_said_iff { fs := elevenBytes } srvOptions {}
    (fileLines [ascii "Connection: close\x0d\n"]) _ true (fileserv_filtersKeepClose _)).1
      (answered_fileRun (by decide) (by decide))).mpr (by
        unfold AsksToClose
        decide)

/-- Without a `Connection` header the connection is announced to be closed, and kept. -/
theorem no_connection_header_kept_open : ¬ ∀ (fileserv : Fileserv) (server : ServerOptions)
    (opts : Options) (lines : List Bytes) (notDisabled : Bool), FiltersKeepClose fileserv →
      Answered (fileserv.handleGET server (Client.after opts lines).request notDisabled) →
      ClosesAsSaid (Client.after opts lines).keepAlive
        (fileserv.handleGET server (Client.after opts lines).request notDisabled) := by
  intro h
  have hfilters := fileserv_filtersKeepClose elevenBytes
  have hanswered : Answered (fileRun []) :=
    answered_fileRun (by decide) (by decide)
  have hkept : (Client.after {} (fileLines [])).keepAlive = true := by decide
  have hcloses : ClosesAsSaid (Client.after {} (fileLines [])).keepAlive (fileRun []) :=
    h { fs := elevenBytes } srvOptions {} (fileLines []) true hfilters hanswered
  rw [hkept, closesAsSaid_iff hanswered (handleRequest_keepsClose hfilters _ true)
    (handleRequest_endsClosed _ true)] at hcloses
  cases hcloses

end Fileserv

end Plugins

end Algiz
