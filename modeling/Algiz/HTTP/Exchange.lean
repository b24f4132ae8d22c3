/-
  Exchanges: what is handed to `handleInput` on one connection, call after call.

  `Exchange` is what the parser and the connection keep between two calls of `handleInput`, and
  what the calls came to; `Delivers` hands over a stream as `handleRead` does, complete lines in
  line mode, pieces of any size (`maxRead` permitting) otherwise. `At` is the state of an exchange
  that has been accepted so far, and what one call makes of it is read off what `handleLine` says
  (`At.continue`, `At.disable`, `At.done`, `At.rejected`).
-/
import Algiz.HTTP.Input

namespace Algiz.HTTP

variable {σ : Type*}

/-! ## Exchanges -/

/-- A connection between two calls of `handleInput`. -/
structure Exchange (σ : Type*) where
  client : Client := {}
  plugins : σ
  /-- `GenericClient::lineMode` -/
  lineMode : Bool := true
  /-- `GenericClient::maxRead` -/
  maxRead : Nat := 0
  /-- the `Request` object at each call of `handleRequest` so far -/
  handled : List Request := []
  /-- no call has ended in an exception or closed the connection -/
  accepted : Bool := true

/-- `maxRead` after these acts. -/
def maxReadAfter (before : Nat) (acts : List Net.Act) : Nat :=
  acts.foldl (fun n act => match act with
    | .setMaxRead m => m
    | .send _ | .close | .leaveLineMode => n) before

/-- A call of `handleInput` with a line or with bytes that have been read. -/
def Exchange.step (server : Server σ) (messageIn : Bytes) (x : Exchange σ) : Exchange σ :=
  let s := call server messageIn x.client x.plugins
  { client := s.client
    plugins := s.plugins
    lineMode := x.lineMode && decide (.leaveLineMode ∉ s.acts)
    maxRead := maxReadAfter (x.maxRead - messageIn.length) s.acts
    handled := x.handled ++ s.handledRequests
    accepted := x.accepted && s.thrown.isNone && decide (.close ∉ s.acts) }

/-- A stream is delivered, from one state of the exchange to another. A connection on which a
    call was not accepted gets nothing more. -/
inductive Delivers (server : Server σ) : Exchange σ → Bytes → Exchange σ → Prop
  | done (x : Exchange σ) : Delivers server x [] x
  | line {x y : Exchange σ} {line rest : Bytes} (haccepted : x.accepted = true)
      (hmode : x.lineMode = true) (hline : newline ∉ line)
      (hrest : Delivers server (x.step server line) rest y) :
      Delivers server x (line ++ newline :: rest) y
  | bytes {x y : Exchange σ} {piece rest : Bytes} (haccepted : x.accepted = true)
      (hmode : x.lineMode = false) (hpiece : piece ≠ [])
      (hsize : x.maxRead = 0 ∨ piece.length ≤ x.maxRead)
      (hrest : Delivers server (x.step server piece) rest y) :
      Delivers server x (piece ++ rest) y
  | rejected {x : Exchange σ} (hrejected : x.accepted = false) (stream : Bytes) :
      Delivers server x stream x

/-- Nothing is done to the connection but writing to it. -/
def SendsOnly (acts : List Net.Act) : Prop := ∀ act ∈ acts, ∃ data, act = .send data

/-- The handler answers the request, and leaves the connection as it is. -/
structure Answer.Replies (a : Answer σ) : Prop where
  thrown : a.thrown = none
  result : a.result = .kill
  sends : SendsOnly a.acts

/-- The plugins answer every request, and do not close the connection. -/
structure Server.Replies (server : Server σ) : Prop where
  get : ∀ plugins c r parts, (server.getHandlers plugins c r parts).Replies
  post : ∀ plugins c r parts, (server.postHandlers plugins c r parts).Replies

/-! ## One call -/

section Request

variable {server : Server σ}

theorem validatePath_getPath {target : Bytes} (h : target.head? = some 47) :
    Server.validatePath (getPath target) = true := by
  obtain ⟨rest, rfl⟩ := List.head?_eq_some_iff.mp h
  unfold getPath
  split
  · rfl
  · rename_i i hfound
    cases i with
    | zero =>
      obtain ⟨-, hsplit⟩ := find_eq_some hfound
      have hhead := congrArg List.head? hsplit
      rw [List.take_zero, List.nil_append, List.head?_cons, List.head?_cons] at hhead
      exact absurd (Option.some.inj hhead) (by decide)
    | succ i => rfl

theorem SendsOnly.not_mem {acts : List Net.Act} (h : SendsOnly acts) {act : Net.Act}
    (hact : ∀ data, act ≠ .send data) : act ∉ acts := by
  intro hmem
  obtain ⟨data, hdata⟩ := h act hmem
  exact hact data hdata

theorem SendsOnly.maxReadAfter {acts : List Net.Act} (h : SendsOnly acts) (n : Nat) :
    maxReadAfter n acts = n := by
  induction acts with
  | nil => rfl
  | cons act acts ih =>
    obtain ⟨data, rfl⟩ := h act List.mem_cons_self
    exact ih fun act hact => h act (List.mem_cons_of_mem _ hact)

/-- A request that the server passes on to the plugins. -/
structure Handed (q : Request) : Prop where
  method : q.method = .GET ∨ q.method = .POST
  path : Server.validatePath q.path = true
  noUpgrade : Server.asksForWebSocket q = false

/-- The session goes on with something written to the client. -/
def Replied (s s' : Session σ) : Prop :=
  s'.client = s.client ∧ s'.thrown = none ∧
    ∃ acts, SendsOnly acts ∧ s'.events = s.events ++ acts.map .act

theorem askHandlers_replied {handlers : σ → Client → Request → List Bytes → Answer σ}
    (hreplies : ∀ plugins c r parts, (handlers plugins c r parts).Replies) (q : Request)
    (s : Session σ) : Replied s (server.askHandlers handlers q s) := by
  have hanswer := hreplies s.plugins s.client q (server.getParts q.path)
  unfold Server.askHandlers
  dsimp only
  rw [Session.andThen_of_none hanswer.thrown, hanswer.result]
  exact ⟨rfl, hanswer.thrown, _, hanswer.sends, rfl⟩

theorem handleRequest_replied (hreplies : server.Replies) {s : Session σ}
    (h : Handed s.client.request) :
    Replied (s.emit (.handleRequest s.client.request)) (s.handleRequest server) := by
  have hpath : ¬ (!Server.validatePath s.client.request.path) = true := by rw [h.path]; decide
  have hupgrade : ¬ Server.asksForWebSocket s.client.request = true := by
    rw [h.noUpgrade]
    exact Bool.noConfusion
  unfold Session.handleRequest
  simp only [Session.emit_client]
  rcases h.method with hmethod | hmethod
  · rw [hmethod]
    dsimp only [Server.handleGET]
    rw [if_neg hpath, if_neg hupgrade]
    exact askHandlers_replied hreplies.get _ _
  · rw [hmethod]
    dsimp only [Server.handlePOST]
    rw [if_neg hpath]
    exact askHandlers_replied hreplies.post _ _

theorem Session.catchUnsupportedMethod_of_none {s : Session σ} (h : s.thrown = none) :
    s.catchUnsupportedMethod = s := by
  unfold Session.catchUnsupportedMethod
  rw [h]

/-- The state of an exchange between two calls. -/
structure At (x : Exchange σ) (lineMode : Bool) (maxRead : Nat) (q : Request)
    (handled : List Request) : Prop where
  accepted : x.accepted = true
  lineMode : x.lineMode = lineMode
  maxRead : x.maxRead = maxRead
  socket : x.client.isWebSocket = false
  request : x.client.request = q
  handled : x.handled = handled

variable {x : Exchange σ} {lineMode : Bool} {maxRead : Nat} {q q' : Request}
  {handled : List Request} {messageIn : Bytes}

/-- What a call that is accepted makes of the exchange. -/
theorem At.step (h : At x lineMode maxRead q handled) {s : Session σ}
    (hcall : call server messageIn x.client x.plugins = s)
    (hsocket : s.client.isWebSocket = false) (hthrown : s.thrown = none)
    (hclose : .close ∉ s.acts) :
    At (x.step server messageIn) (lineMode && decide (.leaveLineMode ∉ s.acts))
      (maxReadAfter (maxRead - messageIn.length) s.acts) s.client.request
      (handled ++ s.handledRequests) := by
  unfold Exchange.step
  rw [hcall]
  refine ⟨?_, ?_, ?_, hsocket, rfl, ?_⟩
  · simp [h.accepted, hthrown, hclose]
  · rw [h.lineMode]
  · rw [h.maxRead]
  · rw [h.handled]

/-- A call of a client that is no WebSocket is a line or a piece for the parser. -/
theorem At.call_eq (h : At x lineMode maxRead q handled) {o : Handled}
    (hline : q.handleLine server.options messageIn = o) :
    call server messageIn x.client x.plugins = Session.catchUnsupportedMethod
      (afterLine server o.result
        (({ client := x.client, plugins := x.plugins } : Session σ).absorbHandled o)) := by
  have hsocket : ¬ x.client.isWebSocket = true := by
    rw [h.socket]
    exact Bool.noConfusion
  unfold call handleInput
  rw [if_neg hsocket]
  unfold requestInput
  rw [h.request, hline]

/-- The parser takes the line and goes on. -/
theorem At.continue (h : At x lineMode maxRead q handled) {keepAlive : Option Bool}
    (hline : q.handleLine server.options messageIn =
      { request := q', keepAlive := keepAlive }) :
    At (x.step server messageIn) lineMode (maxRead - messageIn.length) q' handled := by
  have hstep := h.step (h.call_eq hline) h.socket rfl List.not_mem_nil
  have hmode : (lineMode && true) = lineMode := Bool.and_true _
  have hhandled : handled ++ [] = handled := List.append_nil _
  exact hmode ▸ hhandled ▸ hstep

/-- The parser leaves line mode for a body. -/
theorem At.disable (h : At x lineMode maxRead q handled) {n : Nat}
    (hline : q.handleLine server.options messageIn =
      { request := q', maxRead := some n, result := .ok .disableLineMode }) :
    At (x.step server messageIn) false n q' handled := by
  have hclose : Net.Act.close ∉ [.setMaxRead n, .leaveLineMode] := by simp
  have hleft : (lineMode && decide (Net.Act.leaveLineMode ∉ [.setMaxRead n, .leaveLineMode])) =
      false := by simp
  have hhandled : handled ++ [] = handled := List.append_nil _
  have hstep := h.step (h.call_eq hline) h.socket rfl hclose
  exact hleft ▸ hhandled ▸ hstep

/-- The parser has a request, and the plugins reply to it. -/
theorem At.done (hreplies : server.Replies) (h : At x lineMode maxRead q handled)
    (hhanded : Handed q')
    (hline : q.handleLine server.options messageIn =
      { request := q', result := .ok .done }) :
    At (x.step server messageIn) lineMode (maxRead - messageIn.length) q' (handled ++ [q']) := by
  generalize hs : (({ client := x.client, plugins := x.plugins } : Session σ).absorbHandled
    { request := q', result := .ok .done }) = s
  have hrequest : s.client.request = q' := by rw [← hs]; rfl
  have hsocket : s.client.isWebSocket = false := by rw [← hs]; exact h.socket
  have hevents₀ : s.events = [] := by rw [← hs]; rfl
  obtain ⟨hclient, hthrown, acts, hsends, hevents⟩ :=
    handleRequest_replied hreplies (hrequest.symm ▸ hhanded)
  have hcall : call server messageIn x.client x.plugins = s.handleRequest server := by
    rw [h.call_eq hline, hs]
    exact Session.catchUnsupportedMethod_of_none hthrown
  have hall : (s.handleRequest server).events = .handleRequest q' :: acts.map .act := by
    rw [hevents, Session.emit, hevents₀, hrequest]
    rfl
  have hacts : (s.handleRequest server).acts = acts := by
    unfold Session.acts
    rw [hall, List.filterMap_cons_none rfl, List.filterMap_map]
    exact List.filterMap_some
  have hrequests : (s.handleRequest server).handledRequests = [q'] := by
    have hnone : (acts.map Event.act).filterMap Event.toRequest = [] := by
      rw [List.filterMap_map, List.filterMap_eq_nil_iff]
      exact fun _ _ => rfl
    unfold Session.handledRequests
    rw [hall]
    exact congrArg (q' :: ·) hnone
  have hclose : .close ∉ acts := hsends.not_mem fun _ => Net.Act.noConfusion
  have hleave : .leaveLineMode ∉ acts := hsends.not_mem fun _ => Net.Act.noConfusion
  have hstep := h.step hcall (hclient ▸ hsocket) hthrown (hacts.symm ▸ hclose)
  rw [hacts, hrequests, hsends.maxReadAfter, hclient, decide_eq_true hleave, Bool.and_true] at hstep
  exact hrequest ▸ hstep

/-- The parser does not accept the line. -/
theorem At.rejected (h : At x lineMode maxRead q handled) {e : Exception}
    (hline : q.handleLine server.options messageIn =
      ⟨q', none, none, .error e⟩) :
    (x.step server messageIn).accepted = false := by
  have hcall := h.call_eq hline
  unfold Exchange.step
  rw [hcall]
  cases e with
  | unsupportedMethod what =>
    have hclosed : (decide (Net.Act.close ∉
        [.send (Response.toBytes { code := 400, content := ascii "Invalid request" }), .close])) =
        false := by simp
    exact (congrArg (x.accepted && true && ·) hclosed).trans (Bool.and_false _)
  | parseError what => simp [afterLine, Session.throw, Session.catchUnsupportedMethod]
  | runtimeError what => simp [afterLine, Session.throw, Session.catchUnsupportedMethod]
  | invalidArgument what => simp [afterLine, Session.throw, Session.catchUnsupportedMethod]
  | outOfRange => simp [afterLine, Session.throw, Session.catchUnsupportedMethod]
  | other => simp [afterLine, Session.throw, Session.catchUnsupportedMethod]

/-! ## Deliveries -/

/-- In line mode the next line is handed over, and nothing else. -/
theorem Delivers.line_iff (h : At x true maxRead q handled) {line rest : Bytes}
    (hline : newline ∉ line) {y : Exchange σ} :
    Delivers server x (line ++ newline :: rest) y ↔
      Delivers server (x.step server line) rest y := by
  refine ⟨fun hdelivers => ?_, Delivers.line h.accepted h.lineMode hline⟩
  generalize hstream : line ++ newline :: rest = stream at hdelivers
  cases hdelivers with
  | done => exact absurd hstream (by simp)
  | line _ _ hline' hrest =>
    have hfind : find (line ++ newline :: rest) newline = some line.length :=
      find_append_cons hline
    rw [hstream, find_append_cons hline', Option.some.injEq] at hfind
    obtain ⟨rfl, htail⟩ := List.append_inj hstream hfind.symm
    rw [List.cons.injEq] at htail
    exact htail.2 ▸ hrest
  | bytes _ hmode =>
    rw [h.lineMode] at hmode
    exact Bool.noConfusion hmode
  | rejected hrejected =>
    rw [h.accepted] at hrejected
    exact Bool.noConfusion hrejected

/-- Nothing is left to deliver. -/
theorem Delivers.nil_iff {y : Exchange σ} :
    Delivers server x [] y ↔ y = x := by
  refine ⟨fun hdelivers => ?_, fun heq => by rw [heq]; exact .done x⟩
  generalize hstream : [] = stream at hdelivers
  cases hdelivers with
  | done => rfl
  | line => exact absurd hstream (by simp)
  | bytes _ _ hpiece =>
    rw [eq_comm, List.append_eq_nil_iff] at hstream
    exact absurd hstream.1 hpiece
  | rejected => rfl

end Request

end Algiz.HTTP
