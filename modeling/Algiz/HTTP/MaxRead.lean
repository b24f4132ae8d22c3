/-
  `maxRead` while a body is read.

  The blank line of a head that announces a body has `maxRead` set to its length, and
  `handleRead` takes from it what it reads; the parser takes from `lengthRemaining` what it is
  handed. The two are to be the same as long as a part of the body is missing, so that no read goes
  beyond its end (`Counted`). They are, in every state of every run in which the blank line that
  begins a body is the last thing of its read (`maxRead_eq_lengthRemaining`). Bytes that stand
  behind it are handed to the parser without being taken from `maxRead`
  (`not_counted_postInOneRead`).
-/
import Algiz.Core
import Algiz.HTTP.Body
import Algiz.Net.Ensures

namespace Algiz.HTTP

open Algiz.Net

variable {σ : Type*}

/-! ## Requests whose body is being read -/

/-- Bytes of the body are missing. -/
def Request.Pending (q : Request) : Prop := q.mode = .content ∧ 0 < q.lengthRemaining

/-- This line is the blank one at the end of a head that announces a body. -/
def Request.BeginsBody (q : Request) (line : Bytes) : Prop :=
  q.mode = .headers ∧ Request.stripLine line = [] ∧ 0 < q.lengthRemaining

/-- What the parser keeps to: until a body is read the length of it that is missing is all of it,
    and it stands in the headers. -/
structure Request.Sized (q : Request) : Prop where
  whole : q.mode ≠ .content → q.lengthRemaining = 0 ∨ q.lengthRemaining = q.contentLength
  announced : 0 < q.lengthRemaining → q.headers.contains (ascii "content-length") = true

/-- What a call of the parser makes of a request. -/
structure Goes (q : Request) (line : Bytes) (o : Handled) : Prop where
  sized : o.request.Sized
  done : o.result = .ok .done → ¬ o.request.Pending
  /-- a request whose body is pending was so before, or this was the blank line -/
  pending : o.request.Pending →
    (q.Pending ∧ line.length < q.lengthRemaining ∧
        o = { request := { q with
          content := q.content ++ line
          lengthRemaining := q.lengthRemaining - line.length } }) ∨
      (q.BeginsBody line ∧ o = {
        request := { q with mode := .content }
        maxRead := some q.lengthRemaining
        result := .ok .disableLineMode })

namespace Request

theorem not_pending_of_mode {q : Request} (h : q.mode ≠ .content) : ¬ q.Pending := fun hp => h hp.1

/-- The method line assigns nothing that has to do with the body. -/
theorem methodLine_keeps (opts : Options) (line : Bytes) (q : Request) (hmode : q.mode ≠ .content) :
    (q.methodLine opts line).request.mode ≠ .content ∧
      (q.methodLine opts line).request.lengthRemaining = q.lengthRemaining ∧
      (q.methodLine opts line).request.contentLength = q.contentLength ∧
      (q.methodLine opts line).request.headers = q.headers ∧
      (q.methodLine opts line).result ≠ .ok .done := by
  unfold methodLine
  cases find line 32 with
  | none => exact ⟨hmode, rfl, rfl, rfl, by simp⟩
  | some firstSpace =>
    dsimp only
    cases Method.ofName (line.take firstSpace) with
    | none => exact ⟨hmode, rfl, rfl, rfl, by simp⟩
    | some method =>
      dsimp only
      cases find (line.drop (firstSpace + 1)) 32 with
      | none => exact ⟨hmode, rfl, rfl, rfl, by simp⟩
      | some nextSpace =>
        dsimp only
        split
        · exact ⟨hmode, rfl, rfl, rfl, by simp⟩
        · exact ⟨by simp, rfl, rfl, rfl, by simp⟩

/-- A header leaves the mode, and its length is in the map if it was assigned. -/
theorem header_sized (opts : Options) (name value : Bytes) {q : Request} (hq : q.Sized)
    (hmode : q.mode = .headers) :
    (q.header opts name value).request.Sized ∧
      (q.header opts name value).request.mode = .headers ∧
      (q.header opts name value).result ≠ .ok .done := by
  have hkeeps : ∀ key, q.headers.contains key = true →
      (addHeader q.headers (toLower name) value).contains key = true := by
    intro key hkey
    rw [contains_addHeader, hkey, Bool.or_true]
  have hwhole := hq.whole (by rw [hmode]; decide)
  have hadded : ({ q with headers := addHeader q.headers (toLower name) value } : Request).Sized :=
    ⟨fun _ => hwhole, fun hpos => hkeeps _ (hq.announced hpos)⟩
  unfold header
  dsimp only
  by_cases hlength : name = ascii "Content-Length"
  · have hname : (addHeader q.headers (toLower name) value).contains (ascii "content-length") =
        true := by
      rw [contains_addHeader, hlength]
      exact Bool.or_eq_true_iff.mpr (.inl (by decide))
    rw [if_pos hlength]
    unfold contentLengthHeader
    cases parseUlong opts.ind value with
    | error e => exact ⟨hadded, hmode, by simp⟩
    | ok n =>
      dsimp only
      split
      · exact ⟨⟨fun _ => .inr rfl, fun _ => hname⟩, hmode, by simp⟩
      · exact ⟨⟨fun _ => .inr rfl, fun _ => hname⟩, hmode, by simp⟩
  · rw [if_neg hlength]
    by_cases hrange : name = ascii "Range"
    · have heq := parseRange_eq opts.ind value (r := { q with
        headers := addHeader q.headers (toLower name) value }) rfl rfl
      rw [if_pos hrange]
      generalize parseRange opts.ind value _ = o at heq
      obtain ⟨r, error⟩ := o
      have heq : r = _ := heq
      cases error with
      | some e =>
        show r.Sized ∧ r.mode = .headers ∧ _
        rw [heq]
        exact ⟨⟨hadded.whole, hadded.announced⟩, hmode, by simp⟩
      | none =>
        show r.Sized ∧ r.mode = .headers ∧ _
        rw [heq]
        exact ⟨⟨hadded.whole, hadded.announced⟩, hmode, by simp⟩
    · rw [if_neg hrange]
      split
      · exact ⟨hadded, hmode, by simp⟩
      · exact ⟨hadded, hmode, by simp⟩

theorem headerLine_sized (opts : Options) (line : Bytes) {q : Request} (hq : q.Sized)
    (hmode : q.mode = .headers) :
    (q.headerLine opts line).request.Sized ∧ (q.headerLine opts line).request.mode = .headers ∧
      (q.headerLine opts line).result ≠ .ok .done := by
  cases hfind : findString (ascii ": ") line with
  | none =>
    unfold headerLine
    rw [hfind]
    exact ⟨hq, hmode, by simp⟩
  | some separator =>
    have heq : q.headerLine opts line =
        q.header opts (line.take separator) (line.drop (separator + 2)) := by
      unfold headerLine
      rw [hfind]
      rfl
    rw [heq]
    exact header_sized opts _ _ hq hmode

/-- The end of a body. -/
theorem finishContent_sized (ind : Indeterminate) {q : Request} (h : q.lengthRemaining = 0) :
    (q.finishContent ind).Sized ∧ ¬ (q.finishContent ind).Pending := by
  have hremaining : (q.finishContent ind).lengthRemaining = 0 := by
    unfold finishContent absorbPOST
    dsimp only
    split
    · split
      · split <;> exact h
      · exact h
    · exact h
  refine ⟨⟨fun _ => .inl hremaining, fun hpos => ?_⟩, fun hpending => ?_⟩
  · omega
  · have := hpending.2
    omega

/-- One call of the parser. -/
theorem handleLine_goes (opts : Options) (line : Bytes) {q : Request} (hq : q.Sized) :
    Goes q line (q.handleLine opts line) := by
  cases hmode : q.mode with
  | method =>
    have hline : q.handleLine opts line = q.methodLine opts (stripLine line) := by
      unfold handleLine
      rw [hmode]
    obtain ⟨hkept, hremaining, hlength, hheaders, hresult⟩ :=
      methodLine_keeps opts (stripLine line) q (by rw [hmode]; decide)
    have hwhole := hq.whole (by rw [hmode]; decide)
    rw [hline]
    refine ⟨⟨fun _ => ?_, fun hpos => ?_⟩, fun hdone => absurd hdone hresult,
      fun hpending => absurd hpending (not_pending_of_mode hkept)⟩
    · rwa [hremaining, hlength]
    · rw [hremaining] at hpos
      rw [hheaders]
      exact hq.announced hpos
  | headers =>
    by_cases hblank : stripLine line = []
    · have hline : q.handleLine opts line = q.blankLine := by
        unfold handleLine
        simp [hmode, hblank]
      have hwhole := hq.whole (by rw [hmode]; decide)
      have hsized : ({ q with mode := .content } : Request).Sized :=
        ⟨fun hne => absurd rfl hne, hq.announced⟩
      rw [hline]
      unfold blankLine
      dsimp only
      split
      · refine ⟨hsized, fun hdone => absurd hdone (by simp),
          fun hpending => .inr ⟨⟨hmode, hblank, hpending.2⟩, ?_⟩⟩
        have hpos : 0 < q.lengthRemaining := hpending.2
        have hequal : q.contentLength = q.lengthRemaining := by omega
        rw [hequal]
      · rename_i hcontains
        have hzero : q.lengthRemaining = 0 := by
          by_contra hne
          exact hcontains (hq.announced (by omega))
        have hnot : ¬ ({ q with mode := .content } : Request).Pending := by
          rintro ⟨-, hpos⟩
          have hpos : 0 < q.lengthRemaining := hpos
          omega
        exact ⟨hsized, fun _ => hnot, fun hpending => absurd hpending hnot⟩
    · have hline : q.handleLine opts line = q.headerLine opts (stripLine line) := by
        unfold handleLine
        simp [hmode, hblank]
      obtain ⟨hsized, hkept, hresult⟩ := headerLine_sized opts (stripLine line) hq hmode
      rw [hline]
      exact ⟨hsized, fun hdone => absurd hdone hresult,
        fun hpending => absurd hpending (not_pending_of_mode (by rw [hkept]; decide))⟩
  | content =>
    rcases Nat.lt_trichotomy line.length q.lengthRemaining with hmore | hlast | hlonger
    · rw [handleLine_more opts hmode hmore]
      refine ⟨⟨fun hne => absurd hmode hne, fun _ => hq.announced (by omega)⟩,
        fun hdone => absurd hdone (by simp), fun _ => .inl ⟨⟨hmode, by omega⟩, hmore, rfl⟩⟩
    · rw [handleLine_last opts hmode (.inr hlast.symm)]
      obtain ⟨hsized, hnot⟩ := finishContent_sized opts.ind (q := { q with
        content := q.content ++ line, lengthRemaining := 0 }) rfl
      exact ⟨hsized, fun _ => hnot, fun hpending => absurd hpending hnot⟩
    · rw [handleLine_longer opts hmode hlonger]
      obtain ⟨hsized, hnot⟩ := finishContent_sized opts.ind (q := { q with
        content := q.content ++ line.drop q.lengthRemaining, lengthRemaining := 0 }) rfl
      exact ⟨hsized, fun _ => hnot, fun hpending => absurd hpending hnot⟩

end Request

/-! ## Calls of the client -/

section Calls

variable (server : Server σ)

/-- The parser's object is not touched. -/
def SameRequest (s s' : Session σ) : Prop := s'.client.request = s.client.request

theorem SameRequest.andThen {s s' : Session σ} {k : Session σ → Session σ} (h : SameRequest s s')
    (hk : ∀ t, SameRequest t (k t)) : SameRequest s (s'.andThen k) := by
  cases hthrown : s'.thrown with
  | none =>
    rw [Session.andThen_of_none hthrown]
    exact (hk s').trans h
  | some e =>
    rw [Session.andThen_of_some hthrown]
    exact h

theorem askHandlers_sameRequest (handlers : σ → Client → Request → List Bytes → Answer σ)
    (r : Request) (s : Session σ) : SameRequest s (server.askHandlers handlers r s) := by
  have hreact : SameRequest s
      (s.react (handlers s.plugins s.client r (server.getParts r.path)).toReaction) := rfl
  unfold Server.askHandlers
  refine hreact.andThen fun t => ?_
  split <;> rfl

theorem upgrade_sameRequest (r : Request) (s : Session σ) : SameRequest s (server.upgrade r s) := by
  unfold Server.upgrade
  split
  · rfl
  · split
    · rfl
    · refine SameRequest.andThen rfl fun t => ?_
      split <;> rfl

theorem handleRequest_sameRequest (s : Session σ) : SameRequest s (s.handleRequest server) := by
  unfold Session.handleRequest
  dsimp only
  split
  · unfold Server.handleGET
    split
    · rfl
    · split
      · exact upgrade_sameRequest server _ (s.emit (.handleRequest s.client.request))
      · exact askHandlers_sameRequest server _ _ (s.emit (.handleRequest s.client.request))
  · unfold Server.handlePOST
    split
    · rfl
    · exact askHandlers_sameRequest server _ _ (s.emit (.handleRequest s.client.request))
  all_goals rfl

theorem closeWebSocket_sameRequest (s : Session σ) : SameRequest s (s.closeWebSocket server) := by
  unfold Session.closeWebSocket Server.closeWebSocket
  exact SameRequest.andThen rfl fun t => rfl

theorem finishPacket_sameRequest (fin : Bool) (s : Session σ) :
    SameRequest s (Session.finishPacket server fin s) := by
  unfold Session.finishPacket
  cases fin with
  | true => exact SameRequest.andThen rfl fun t => rfl
  | false => exact (closeWebSocket_sameRequest server s).andThen fun t => rfl

theorem afterPayload_sameRequest (fin : Bool) (rest : Bytes) (s : Session σ) :
    SameRequest s (afterPayload server fin rest s) := by
  unfold afterPayload
  split
  · exact finishPacket_sameRequest server fin _
  · refine SameRequest.andThen ?_ fun t => rfl
    split
    · exact finishPacket_sameRequest server fin _
    · rfl

theorem payloadInput_sameRequest (fin : Bool) (opcode : UInt8) (length : Nat) (mask : UInt32)
    (data : Bytes) (s : Session σ) :
    SameRequest s (payloadInput server fin opcode length mask data s) := by
  unfold payloadInput
  dsimp only
  split
  · split
    · rfl
    · exact closeWebSocket_sameRequest server _
  · exact afterPayload_sameRequest server fin _ _

theorem wait_sameRequest (hasLeftover : Bool) (message : Bytes) (s : Session σ) :
    SameRequest s (s.wait hasLeftover message) := by
  unfold Session.wait
  split <;> rfl

theorem headerInput_sameRequest (hasLeftover : Bool) (message : Bytes) (s : Session σ) :
    SameRequest s (headerInput server hasLeftover message s) := by
  unfold headerInput
  split
  · dsimp only
    split
    · exact wait_sameRequest hasLeftover _ _
    · split
      · rfl
      · split
        · exact wait_sameRequest hasLeftover _ _
        · have hpayload := fun fin opcode length mask data (s : Session σ) =>
            payloadInput_sameRequest server fin opcode length mask data s
          unfold SameRequest at hpayload ⊢
          rw [hpayload]
  · exact wait_sameRequest hasLeftover _ _

theorem restInput_sameRequest (message : Bytes) (s : Session σ) :
    SameRequest s (restInput server message s) := by
  have hcontinue : (s.client.continuePayload message).request = s.client.request := by
    unfold Client.continuePayload Client.absorb
    dsimp only
    split <;> rfl
  unfold restInput
  dsimp only
  split
  · split
    · exact (finishPacket_sameRequest server true _).trans hcontinue
    · exact hcontinue
  · exact hcontinue

theorem webSocketInput_sameRequest (messageIn : Bytes) (s : Session σ) :
    SameRequest s (webSocketInput server messageIn s) := by
  unfold webSocketInput
  dsimp only
  by_cases hleftover : s.client.leftoverMessage.isEmpty = true
  · simp only [hleftover, Bool.not_true, Bool.false_eq_true, if_false]
    split
    · exact headerInput_sameRequest server _ _ _
    · exact restInput_sameRequest server _ _
  · have hkept : SameRequest s
        { s with client.leftoverMessage := s.client.leftoverMessage ++ messageIn } := rfl
    simp only [hleftover, Bool.not_false, if_true]
    split
    · exact (headerInput_sameRequest server _ _ _).trans hkept
    · exact (restInput_sameRequest server _ _).trans hkept

/-- A client whose parser keeps to what it should, and that is a WebSocket only between bodies. -/
structure Steady (c : Client) : Prop where
  sized : c.request.Sized
  socket : c.isWebSocket = true → ¬ c.request.Pending

/-- A call after which a body is pending: it was so before, or the call began it. -/
inductive PendingAfter (c : Client) (message : Bytes) (c' : Client) (acts : List Act) : Prop
  | more (hbefore : c.request.Pending)
      (hremaining : c.request.lengthRemaining = message.length + c'.request.lengthRemaining)
      (hacts : acts = [])
  | begins (hbefore : c.request.BeginsBody message)
      (hacts : acts = [.setMaxRead c'.request.lengthRemaining, .leaveLineMode])

theorem catchParseError_client (s : Session σ) : (catchParseError s).client = s.client := by
  unfold catchParseError
  split <;> rfl

theorem catchParseError_of_none {s : Session σ} (h : s.thrown = none) : catchParseError s = s := by
  unfold catchParseError
  rw [h]

theorem catchUnsupportedMethod_sameClient (s : Session σ) :
    s.catchUnsupportedMethod.client = s.client := by
  unfold Session.catchUnsupportedMethod
  split <;> rfl

theorem absorbHandled_client (o : Handled) (s : Session σ) :
    (s.absorbHandled o).client.request = o.request ∧
      (s.absorbHandled o).client.isWebSocket = s.client.isWebSocket := by
  unfold Session.absorbHandled
  dsimp only
  split <;> exact ⟨rfl, rfl⟩

/-- What follows a call of the parser does not touch its object, and makes the client a WebSocket
    only if there was a request. -/
theorem afterLine_client (result : Except Exception HandleResult) (s : Session σ) :
    SameRequest s (afterLine server result s) ∧
      ((afterLine server result s).client.isWebSocket = s.client.isWebSocket ∨
        result = .ok .done) := by
  unfold afterLine
  split
  · exact ⟨rfl, .inl rfl⟩
  · exact ⟨rfl, .inl rfl⟩
  · exact ⟨handleRequest_sameRequest server s, .inr rfl⟩
  · exact ⟨rfl, .inl rfl⟩

/-- One call of the message handler. -/
theorem call_steady {c : Client} (h : Steady c) (message : Bytes) (plugins : σ) :
    let s := catchParseError (call server message c plugins)
    Steady s.client ∧
      (s.client.request.Pending → PendingAfter c message s.client s.acts) := by
  dsimp only
  rw [catchParseError_client]
  by_cases hsocket : c.isWebSocket = true
  · have hcall : call server message c plugins =
        webSocketInput server message { client := c, plugins := plugins } := if_pos hsocket
    have hsame : (call server message c plugins).client.request = c.request := by
      rw [hcall]
      exact webSocketInput_sameRequest server message _
    have hnot : ¬ (call server message c plugins).client.request.Pending := by
      rw [hsame]
      exact h.socket hsocket
    refine ⟨⟨?_, fun _ => hnot⟩, fun hpending => absurd hpending hnot⟩
    rw [hsame]
    exact h.sized
  · have hgoes := Request.handleLine_goes server.options message h.sized
    have hcall : call server message c plugins =
        requestInput server message { client := c, plugins := plugins } := if_neg hsocket
    unfold requestInput at hcall
    dsimp only at hcall
    generalize c.request.handleLine server.options message = o at hgoes hcall
    obtain ⟨habsorbed, hkept⟩ :=
      absorbHandled_client o ({ client := c, plugins := plugins } : Session σ)
    obtain ⟨hsame, hmade⟩ := afterLine_client server o.result
      (({ client := c, plugins := plugins } : Session σ).absorbHandled o)
    have hrequest : (call server message c plugins).client.request = o.request := by
      rw [hcall, catchUnsupportedMethod_sameClient]
      exact hsame.trans habsorbed
    rw [hrequest]
    refine ⟨⟨by rw [hrequest]; exact hgoes.sized, fun hnow => ?_⟩, fun hpending => ?_⟩
    · rw [hrequest]
      rw [hcall, catchUnsupportedMethod_sameClient] at hnow
      rcases hmade with hmade | hdone
      · rw [hmade, hkept] at hnow
        exact absurd hnow hsocket
      · exact hgoes.done hdone
    · rcases hgoes.pending hpending with ⟨hbefore, hshort, rfl⟩ | ⟨hbegins, rfl⟩
      · have hresult : call server message c plugins = {
            client := { c with
              request := { c.request with
                content := c.request.content ++ message
                lengthRemaining := c.request.lengthRemaining - message.length } }
            plugins := plugins } := hcall
        rw [hresult, catchParseError_of_none rfl]
        refine .more hbefore ?_ rfl
        show c.request.lengthRemaining =
          message.length + (c.request.lengthRemaining - message.length)
        omega
      · have hresult : call server message c plugins = {
            client := { c with request := { c.request with mode := .content } }
            plugins := plugins
            events := [.act (.setMaxRead c.request.lengthRemaining), .act .leaveLineMode] } := hcall
        rw [hresult, catchParseError_of_none rfl]
        exact .begins hbegins rfl

end Calls

/-! ## The read loop -/

/-- Nothing of a pending body is handed over that is not taken from `maxRead`: a read takes no more
    of it than is missing, and what is handed over was just read. -/
def Counted : Step (Client × σ) → Prop
  | .chunk before data =>
    before.app.1.request.Pending →
      before.client.maxRead = before.app.1.request.lengthRemaining ∧
        data.length ≤ before.app.1.request.lengthRemaining
  | .call before message _ =>
    before.app.1.request.Pending →
      before.client.maxRead + message.length = before.app.1.request.lengthRemaining
  | .act _ _ => True

/-- The blank line that begins a body is the last thing of its read. -/
def EndsRead : Step (Client × σ) → Prop
  | .call before message rest => before.app.1.request.BeginsBody message → rest = []
  | .chunk _ _ | .act _ _ => True

instance (q : Request) : Decidable q.Pending := inferInstanceAs (Decidable (_ ∧ _))

instance (q : Request) (line : Bytes) : Decidable (q.BeginsBody line) :=
  inferInstanceAs (Decidable (_ ∧ _ ∧ _))

instance : DecidablePred (Counted (σ := σ))
  | .chunk _ _ => inferInstanceAs (Decidable (_ → _ ∧ _))
  | .call _ _ _ => inferInstanceAs (Decidable (_ → _))
  | .act _ _ => isTrue trivial

instance : DecidablePred (EndsRead (σ := σ))
  | .call _ _ _ => inferInstanceAs (Decidable (_ → _))
  | .chunk _ _ | .act _ _ => isTrue trivial

/-- The connection when `view` is read and not handed over: while a body is pending that is
    nothing, and the two counts are the same. -/
structure InStep (view : Bytes) (c : Conn (Client × σ)) : Prop where
  steady : Steady c.app.1
  empty : c.app.1.request.Pending → view = []
  raw : c.app.1.request.Pending → c.client.lineMode = false
  maxRead : c.app.1.request.Pending → c.client.maxRead = c.app.1.request.lengthRemaining

section Loop

variable (server : Server σ)

/-- A call of the message handler. What it hands over of a pending body has been taken from
    `maxRead`, and if it begins a body nothing is left in hand. -/
theorem handleMessage_inStep {c : Conn (Client × σ)} (hreg : c.registered = true)
    (hsteady : Steady c.app.1) {message rest view : Bytes}
    (hraw : c.app.1.request.Pending → c.client.lineMode = false)
    (hmaxRead : c.app.1.request.Pending →
      c.client.maxRead + message.length = c.app.1.request.lengthRemaining)
    (hmore : c.app.1.request.Pending → message.length < c.app.1.request.lengthRemaining →
      view = [])
    (hbegins : c.app.1.request.BeginsBody message → view = []) :
    InStep view (Net.handleMessage (messageHandler server) message rest c).conn := by
  obtain ⟨hafter, hpending⟩ := call_steady server hsteady message c.app.2
  have happ : (Net.handleMessage (messageHandler server) message rest c).conn.app =
      ((catchParseError (call server message c.app.1 c.app.2)).client,
        (catchParseError (call server message c.app.1 c.app.2)).plugins) :=
    Net.handleMessage_app ..
  have hclient : (Net.handleMessage (messageHandler server) message rest c).conn.client =
      (Conn.perform (catchParseError (call server message c.app.1 c.app.2)).acts { c with
        app := ((catchParseError (call server message c.app.1 c.app.2)).client,
          (catchParseError (call server message c.app.1 c.app.2)).plugins) }).conn.client := rfl
  generalize catchParseError (call server message c.app.1 c.app.2) = s at *
  generalize (Net.handleMessage (messageHandler server) message rest c).conn = c' at *
  have hrequest : c'.app.1 = s.client := by rw [happ]
  suffices h : s.client.request.Pending → view = [] ∧ c'.client.lineMode = false ∧
      c'.client.maxRead = s.client.request.lengthRemaining by
    refine ⟨?_, ?_, ?_, ?_⟩
    · rwa [hrequest]
    · rw [hrequest]
      exact fun hp => (h hp).1
    · rw [hrequest]
      exact fun hp => (h hp).2.1
    · rw [hrequest]
      exact fun hp => (h hp).2.2
  intro hp
  rcases hpending hp with ⟨hbefore, hremaining, hacts⟩ | ⟨hbefore, hacts⟩
  · rw [hacts] at hclient
    have hclient : c'.client = c.client := hclient
    have hcount := hmaxRead hbefore
    have hpos := hp.2
    refine ⟨hmore hbefore (by omega), ?_, ?_⟩
    · rw [hclient]
      exact hraw hbefore
    · rw [hclient]
      omega
  · rw [hacts, Conn.perform_cons_conn, Conn.act_setMaxRead (by exact hreg),
      Conn.perform_cons_conn, Conn.act_leaveLineMode (by exact hreg)] at hclient
    rw [hclient]
    exact ⟨hbegins hbefore, rfl, rfl⟩

variable {bufferSize : Nat}

/-- The line loop: what is left of the view is in the read buffer after it. -/
theorem lineLoop_inStep (fuel : Nat) {view : Bytes} {toErase : Nat} {c : Conn (Client × σ)}
    (hreg : c.registered = true) (hview : c.readBuffer.drop toErase = view) (hc : InStep view c) :
    Ensures EndsRead Counted (lineLoop (messageHandler server) fuel view toErase c)
      fun c => c.registered = true → InStep c.readBuffer c := by
  induction fuel generalizing view toErase c with
  | zero => exact .stop (by simp)
  | succ fuel ih =>
    rw [lineLoop]
    cases hfound : isMessageComplete view with
    | none =>
      dsimp only
      rw [eraseFront_registered toErase hreg, hview]
      exact .ret fun _ => ⟨hc.steady, hc.empty, hc.raw, hc.maxRead⟩
    | some found =>
      obtain ⟨index, delimiterSize⟩ := found
      -- there is a line in the view, so no body is pending
      have hnot : ¬ c.app.1.request.Pending := by
        intro hp
        rw [hc.empty hp] at hfound
        cases hfound
      dsimp only
      have hcall : Ensures EndsRead Counted
          (Net.handleMessage (messageHandler server) (view.take index)
            (view.drop (index + delimiterSize)) c)
          fun c' => InStep (view.drop (index + delimiterSize)) c' ∧
            c'.readBuffer = c.readBuffer := by
        refine .handleMessage _ (fun _ _ => trivial) (fun hp => absurd hp hnot) fun hends => ?_
        refine ⟨handleMessage_inStep server hreg hc.steady (fun hp => absurd hp hnot)
          (fun hp => absurd hp hnot) (fun hp => absurd hp hnot) hends, ?_⟩
        rw [handleMessage_readBuffer]
      refine hcall.andThen fun c' hcalled => ?_
      obtain ⟨hc', hbuffer⟩ := hcalled
      split
      · rename_i hreg'
        refine ih hreg' ?_ hc'
        rw [hbuffer, ← hview, List.drop_drop]
      · rename_i hreg'
        unfold eraseFront
        split
        · exact (Ensures.touch fun h => absurd h hreg').andThen
            fun c hc => absurd hc.2 id
        · exact .ret fun h => absurd h hreg'

/-- What is done with a chunk, which has been taken from `maxRead`. -/
theorem handleChunk_inStep {data : Bytes} {c : Conn (Client × σ)} (hreg : c.registered = true)
    (hsteady : Steady c.app.1) (hraw : c.app.1.request.Pending → c.client.lineMode = false)
    (hmaxRead : c.app.1.request.Pending →
      c.client.maxRead + data.length = c.app.1.request.lengthRemaining) :
    Ensures EndsRead Counted (handleChunk (messageHandler server) data c)
      fun c => c.registered = true → InStep c.readBuffer c := by
  unfold handleChunk
  split
  · have hcall : Ensures EndsRead Counted
        (Net.handleMessage (messageHandler server) data [] c) (InStep []) :=
      .handleMessage _ (fun _ _ => trivial) hmaxRead fun _ =>
        handleMessage_inStep server hreg hsteady hraw hmaxRead (fun _ _ => rfl) fun _ => rfl
    refine hcall.andThen fun c hc => ?_
    refine (Ensures.touch fun _ => hc).andThen fun c ⟨_, hc⟩ => .ret fun _ => ?_
    exact ⟨hc.steady, fun _ => rfl, hc.raw, hc.maxRead⟩
  · rename_i hline
    have hnot : ¬ c.app.1.request.Pending := by
      intro hp
      rw [hraw hp] at hline
      exact hline rfl
    split
    · refine (Ensures.perform (Q := fun _ => True) (fun _ _ => trivial) trivial).andThen
        fun c _ => ?_
      unfold removeDescriptor
      split
      · exact .ret fun h => by cases h
      · exact .stop (by simp)
    · exact lineLoop_inStep server _ hreg rfl ⟨hsteady, fun hp => absurd hp hnot,
        fun hp => absurd hp hnot, fun hp => absurd hp hnot⟩

/-- What line mode left in the read buffer when it was left. -/
theorem leftOver_inStep {c : Conn (Client × σ)}
    (hc : c.registered = true → InStep c.readBuffer c) :
    Ensures EndsRead Counted (leftOver (messageHandler server) c) (InStep []) := by
  refine (Ensures.touch (Q := fun c => InStep c.readBuffer c) hc).andThen fun c ⟨hreg, hc⟩ => ?_
  split
  · rename_i hbuffer
    rw [hbuffer] at hc
    exact .ret hc
  · rename_i hbuffer
    have hnot : ¬ c.app.1.request.Pending := fun hp => hbuffer (hc.empty hp)
    split
    · exact .stop (by simp)
    · exact .handleMessage _ (fun _ _ => trivial) (fun hp => absurd hp hnot) fun _ =>
        handleMessage_inStep server hreg hc.steady (fun hp => absurd hp hnot)
          (fun hp => absurd hp hnot) (fun hp => absurd hp hnot) fun _ => rfl

theorem nextChunk_length_le (c : Conn (Client × σ)) (hmax : 0 < c.client.maxRead) :
    (nextChunk bufferSize c).length ≤ c.client.maxRead := by
  unfold nextChunk toRead
  dsimp only
  rw [if_pos hmax, List.length_take]
  omega

/-- One pass of the read loop. -/
theorem iteration_inStep {c : Conn (Client × σ)} (hreg : c.registered = true)
    (hc : InStep [] c) :
    Ensures EndsRead Counted (iteration (messageHandler server) bufferSize c) (InStep []) := by
  have hlength : c.app.1.request.Pending → 0 < c.client.maxRead ∧
      (nextChunk bufferSize c).length ≤ c.client.maxRead := by
    intro hp
    have hpos : 0 < c.client.maxRead := by
      rw [hc.maxRead hp]
      exact hp.2
    exact ⟨hpos, nextChunk_length_le c hpos⟩
  refine .step (fun _ hp => ⟨hc.maxRead hp, ?_⟩) fun _ => ?_
  · rw [← hc.maxRead hp]
    exact (hlength hp).2
  · have hread : c.app.1.request.Pending →
        (readChunk bufferSize c).client.maxRead + (nextChunk bufferSize c).length =
          c.app.1.request.lengthRemaining := by
      intro hp
      obtain ⟨hpos, hle⟩ := hlength hp
      show c.client.maxRead - (if 0 < c.client.maxRead then _ else 0) + _ = _
      rw [if_pos hpos, ← hc.maxRead hp]
      exact Nat.sub_add_cancel hle
    have hchunk := handleChunk_inStep server (c := readChunk bufferSize c) hreg hc.steady hc.raw
      hread
    exact hchunk.andThen fun c hc => (leftOver_inStep server hc).andThen fun c hc =>
      (Ensures.touch fun _ => hc).weaken fun _ h => h.2

/-- In every run in which the blank line that begins a body is the last thing of its read, for any
    plugins, any split of the stream and any size of the buffer: while a body is pending `maxRead`
    is the length of it that is missing, at every read, at every call and at the end. -/
theorem maxRead_eq_lengthRemaining (plugins : σ) (bufferSize : Nat) (es : List NetEvent)
    (h : ∀ s ∈ (run (messageHandler server) bufferSize es (newClient plugins)).trace, EndsRead s) :
    let o := run (messageHandler server) bufferSize es (newClient plugins)
    (∀ s ∈ o.trace, Counted s) ∧
      (o.flow = .next → o.conn.registered = true → o.conn.app.1.request.Pending →
        o.conn.client.maxRead = o.conn.app.1.request.lengthRemaining) := by
  have hnew : InStep [] (newClient plugins) := by
    have hnot : ¬ ({} : Request).Pending := by decide
    have hzero : ¬ 0 < ({} : Request).lengthRemaining := by decide
    exact ⟨⟨⟨fun _ => .inl rfl, fun hpos => absurd hpos hzero⟩, fun _ => hnot⟩,
      fun hp => absurd hp hnot, fun hp => absurd hp hnot, fun hp => absurd hp hnot⟩
  obtain ⟨hcounted, hlast⟩ := run_ensures (messageHandler server) bufferSize
    (fun c hreg hc => iteration_inStep server hreg hc)
    (fun c input hc => ⟨hc.steady, hc.empty, hc.raw, hc.maxRead⟩)
    (fun c hc => ⟨hc.steady, hc.empty, hc.raw, hc.maxRead⟩) es (fun _ => hnew) h
  exact ⟨hcounted, fun hnext hreg hp => (hlast hnext hreg).maxRead hp⟩

end Loop

/-- A POST whose body comes in two reads after its head. -/
theorem maxRead_eq_lengthRemaining_postInReads :
    let es : List NetEvent := [.readable (ascii "POST / HTTP/1.1\nContent-Length: 3\n\n"),
      .readable (ascii "a"), .readable (ascii "bcGET")]
    let o := run (messageHandler ({} : Server Unit)) 1024 es (newClient ())
    (∀ s ∈ o.trace, Counted s) ∧
      (o.flow = .next → o.conn.registered = true → o.conn.app.1.request.Pending →
        o.conn.client.maxRead = o.conn.app.1.request.lengthRemaining) :=
  maxRead_eq_lengthRemaining _ _ _ _ (by decide +kernel)

/-- The first byte of the body comes in the read of the head, the others with a byte of the next
    request. `maxRead` is then one more than what is missing, and the next read takes that byte
    too. -/
theorem not_counted_postInOneRead :
    let es : List NetEvent := [.readable (ascii "POST / HTTP/1.1\nContent-Length: 3\n\na")]
    let o := run (messageHandler ({} : Server Unit)) 1024 es (newClient ())
    o.flow = .next ∧ o.conn.registered = true ∧ o.conn.app.1.request.Pending ∧
      o.conn.app.1.request.lengthRemaining = 2 ∧ o.conn.client.maxRead = 3 ∧
      ¬ ∀ s ∈ (run (messageHandler ({} : Server Unit)) 1024
        (es ++ [.readable (ascii "bcG")]) (newClient ())).trace, Counted s := by
  decide

end Algiz.HTTP
