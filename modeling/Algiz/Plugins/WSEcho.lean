/-
  The plugin `WSEcho`, from the request for a WebSocket to the messages that come back.

  The server is any one on which no other plugin handles WebSockets; its other handlers are
  arbitrary. What a client is sent is read with the reader of `HTTP.readFrame`: after the 101
  response, the payloads of its frames, in order, each in one text frame (`echoed`). The stream of
  frames may be cut into calls in any way. A binary message comes back as a text frame.

  A client's list of handlers may hold several of the plugin's, some of them expired, where an id
  has been in use before (`HTTP.Hub`). The first that is alive approves, so there is one echo all
  the same.
-/
import Algiz.HTTP.Protocols
import Algiz.HTTP.WebSocketReceive
import Algiz.HTTP.WebSocketSend

namespace Algiz.HTTP

/-! ## What data frames lead to -/

section PassesOn

variable {σ : Type*} (server : Server σ)

/-- Nothing happens but, at most, that a message is passed on. -/
def PassesOn (s s' : Session σ) : Prop :=
  (s'.plugins = s.plugins ∧ s'.events = s.events) ∨
    ∃ c message, s'.plugins = (server.webSocketMessageHandlers s.plugins c message).state ∧
      s'.events = s.events ++ .webSocketMessage message ::
        (server.webSocketMessageHandlers s.plugins c message).acts.map .act

/-- Assignments to the client before a call do not matter. -/
theorem PassesOn.after {server : Server σ} {s₁ s s' : Session σ} (h : PassesOn server s₁ s')
    (hplugins : s₁.plugins = s.plugins) (hevents : s₁.events = s.events) :
    PassesOn server s s' := by
  unfold PassesOn at h ⊢
  rwa [hplugins, hevents] at h

theorem finishPacket_passesOn (s : Session σ) :
    PassesOn server s (Session.finishPacket server true s) := by
  have hhandled : PassesOn server s (server.handleWebSocketMessage s.client.packet s) := by
    refine .inr ⟨s.client, s.client.packet, rfl, ?_⟩
    exact List.append_assoc ..
  unfold Session.finishPacket
  rw [if_pos rfl]
  unfold Session.andThen
  split
  · exact hhandled
  · exact hhandled

theorem afterPayload_passesOn (rest : Bytes) (s : Session σ) :
    PassesOn server s (afterPayload server true rest s) := by
  unfold afterPayload
  split
  · exact (finishPacket_passesOn server _).after rfl rfl
  · unfold Session.andThen
    split
    · split
      · exact (finishPacket_passesOn server _).after rfl rfl
      · exact .inl ⟨rfl, rfl⟩
    · split
      · exact (finishPacket_passesOn server _).after rfl rfl
      · exact .inl ⟨rfl, rfl⟩

theorem payloadInput_passesOn {opcode : UInt8} (hopcode : opcode ≠ 9) (length : Nat)
    (mask : UInt32) (data : Bytes) (s : Session σ) :
    PassesOn server s (payloadInput server true opcode length mask data s) := by
  unfold payloadInput
  dsimp only
  rw [if_neg hopcode]
  exact (afterPayload_passesOn server _ _).after rfl rfl

theorem restInput_passesOn (message : Bytes) (s : Session σ) (hfin : s.client.lastFin = true) :
    PassesOn server s (restInput server message s) := by
  have hlast : (s.client.continuePayload message).lastFin = true := by
    unfold Client.continuePayload Client.absorb
    split <;> exact hfin
  unfold restInput
  simp only [hlast, if_true]
  split
  · exact (finishPacket_passesOn server _).after rfl rfl
  · exact .inl ⟨rfl, rfl⟩

/-- Bytes that begin a stream of data frames, and that begin with a header. -/
theorem headerInput_passesOn {frames : List Frame} {message : Bytes} (hasLeftover : Bool)
    {s : Session σ} (hlimit : ∀ f ∈ frames, f.payload.length ≤ s.client.maxWebSocketPacketLength)
    (hstream : message <+: stream frames) :
    PassesOn server s (headerInput server hasLeftover message s) := by
  have hwait : ∀ s' : Session σ, s'.plugins = s.plugins → s'.events = s.events →
      PassesOn server s (s'.wait hasLeftover message) := by
    intro s' hplugins hevents
    unfold Session.wait
    split
    · exact .inl ⟨hplugins, hevents⟩
    · exact .inl ⟨hplugins, hevents⟩
  cases frames with
  | nil =>
    obtain rfl := List.prefix_nil.mp hstream
    exact hwait s rfl rfl
  | cons f later =>
    have hf := hlimit f List.mem_cons_self
    rw [stream, List.map_cons, List.flatten_cons, Frame.encode_eq, List.append_assoc] at hstream
    rcases prefix_append_cases hstream with ⟨hbegins, hshort⟩ | ⟨data, rfl, -⟩
    · obtain ⟨fin, hwaits⟩ := headerInput_short server f f.byte1 hasLeftover s hf hbegins hshort
      rw [hwaits]
      exact hwait _ rfl rfl
    · have hread := headerInput_header server f f.byte1 hasLeftover s hf data
      rw [decide_eq_true f.fin] at hread
      have hheader : f.header = f.headerWith f.byte1 := rfl
      rw [hheader, hread]
      exact (payloadInput_passesOn server f.opcode_ne_ping _ _ _ _).after rfl rfl

/-- A call of a client that holds the beginning of a stream of data frames. -/
theorem handleInput_passesOn {frames : List Frame} {rest p : Bytes} {s : Session σ}
    (hsocket : s.client.isWebSocket = true)
    (hlimit : ∀ f ∈ frames, f.payload.length ≤ s.client.maxWebSocketPacketLength)
    (hholds : Holds s.client frames rest) (hstream : rest ++ p <+: stream frames) :
    PassesOn server s (handleInput server p s) := by
  have hinput : handleInput server p s = webSocketInput server p s := if_pos hsocket
  rw [hinput]
  cases hholds with
  | header h =>
    rw [webSocketInput_header server h]
    let s' : Session σ := { s with
      client.leftoverMessage := if rest.isEmpty then [] else rest ++ p }
    have hrest : PassesOn server s' (headerInput server (!rest.isEmpty) (rest ++ p) s') :=
      headerInput_passesOn server _ hlimit hstream
    exact hrest.after rfl rfl
  | payload hnext h =>
    unfold webSocketInput
    simp only [h.leftover, List.isEmpty_nil, Bool.not_true, Bool.false_eq_true, if_false,
      h.awaiting]
    exact restInput_passesOn server p s h.lastFin

end PassesOn

end Algiz.HTTP

namespace Algiz.Plugins.WSEcho

open Algiz.Lib Algiz.HTTP

/-! ## The plugin -/

/-- A handler in `webSocketMessageHandlers`. -/
structure MessageHandler where
  expired : Bool
  deriving DecidableEq

/-- `sendWebSocket(message, is_binary)` -/
def sendWebSocket (message : Bytes) (isBinary : Bool) : List Net.Act :=
  [.send (webSocketHeader message.length isBinary 255), .send message]

/-- `WSEcho::handleMessage`, after what earlier handlers did. -/
def handleMessage (message : Bytes) (acts : List Net.Act) (notDisabled : Bool) :
    List Net.Act × CancelableResult :=
  if !notDisabled then (acts, .pass)
  else (acts ++ sendWebSocket message false, .approve)

/-- `WSEcho::handleConnect`: the client's handlers, and `acceptedProtocol`. -/
def handleConnect (protocols : List Bytes) (args : List MessageHandler × Bytes)
    (notDisabled : Bool) : (List MessageHandler × Bytes) × CancelableResult :=
  if !notDisabled then (args, .pass)
  else if protocols.contains (ascii "echo") then ((args.1 ++ [⟨false⟩], ascii "echo"), .approve)
  else (args, .pass)

/-- The server, with `WSEcho` as the only plugin that handles WebSockets. The state is the list of
    the client's handlers. -/
def postinit (server : Server (List MessageHandler)) : Server (List MessageHandler) :=
  { server with
    webSocketConnectionHandlers := fun handlers _ _ _ protocols =>
      let asked := beforeMulti (fun _ => false) (fun _ => handleConnect protocols) [()]
        (handlers, []) true
      { state := asked.state.1, acceptedProtocol := asked.state.2, result := asked.result }
    webSocketMessageHandlers := fun handlers _ message =>
      { state := handlers
        acts := (beforeMulti MessageHandler.expired (fun _ => handleMessage message) handlers []
          true).state } }

/-- The first handler that is alive echoes, and the others are not asked. -/
theorem asked_echo {handlers : List MessageHandler} (h : ∃ f ∈ handlers, f.expired = false)
    (message : Bytes) :
    (beforeMulti MessageHandler.expired (fun _ => handleMessage message) handlers [] true).state =
      sendWebSocket message false := by
  induction handlers with
  | nil =>
    obtain ⟨f, hf, -⟩ := h
    exact absurd hf List.not_mem_nil
  | cons f handlers ih =>
    rw [beforeMulti]
    cases hexpired : f.expired with
    | true =>
      obtain ⟨g, hg, halive⟩ := h
      have hother : g ∈ handlers := by
        rcases List.mem_cons.mp hg with rfl | hg
        · exact absurd (hexpired.symm.trans halive) Bool.noConfusion
        · exact hg
      exact ih ⟨g, hother, halive⟩
    | false => rfl

/-! ## The handshake -/

/-- A request for a WebSocket that is well formed and lists `echo`. -/
structure AsksForEcho (r : Request) (key : Bytes) : Prop where
  path : Server.validatePath r.path = true
  asks : Server.asksForWebSocket r = true
  header : r.headers[ascii "sec-websocket-key"]? = some key
  length : key.length = 24
  version : r.headers.contains (ascii "sec-websocket-version") = true
  echo : ascii "echo" ∈ protocols r

variable {server : Server (List MessageHandler)}

/-- The client is sent the 101 response, and has a handler. -/
theorem handleGET_asksForEcho {r : Request} {key : Bytes} (h : AsksForEcho r key)
    (s : Session (List MessageHandler)) :
    (postinit server).handleGET r s = Server.respond ({ s with
        client.isWebSocket := true
        client.webSocketPath := server.getParts r.path
        plugins := s.plugins ++ [⟨false⟩]
        events := s.events ++ [.act .leaveLineMode]
        thrown := none })
      (server.switchingProtocols key (ascii "echo")) := by
  unfold Server.handleGET
  rw [h.path, h.asks]
  simp only [Bool.not_true, Bool.false_eq_true, if_false, if_true]
  rw [Server.upgrade_eq _ s h.header h.version h.length]
  have hconnect : ∀ handlers, handleConnect (protocols r) (handlers, []) true =
      ((handlers ++ [⟨false⟩], ascii "echo"), .approve) := by
    intro handlers
    unfold handleConnect
    rw [if_neg (by decide), if_pos (List.contains_iff_mem.mpr h.echo)]
  have hasked : ∀ handlers, beforeMulti (fun _ => false) (fun _ => handleConnect (protocols r))
      [()] (handlers, []) true =
      ⟨[()], (handlers ++ [⟨false⟩], ascii "echo"), true, .kill⟩ := by
    intro handlers
    simp [beforeMulti, hconnect, CancelableResult.stops, CancelableResult.shouldPass]
  unfold postinit
  simp only [hasked]
  unfold Session.react Session.andThen Session.emit
  simp
  rfl

/-! ## The messages -/

/-- What is written for a message. -/
def echoText (message : Bytes) : Bytes := webSocketHeader message.length false 255 ++ message

/-- A handler is alive, and what has been sent, after what was sent before, are the echoes of the
    messages. -/
structure Echoing (before : Bytes) (s : Session (List MessageHandler)) : Prop where
  alive : ∃ f ∈ s.plugins, f.expired = false
  sent : sentBytes s.acts = before ++ (s.webSocketMessages.map echoText).flatten

theorem Echoing.passesOn {before : Bytes} {s s' : Session (List MessageHandler)}
    (h : Echoing before s) (hpasses : PassesOn (postinit server) s s') : Echoing before s' := by
  rcases hpasses with ⟨hplugins, hevents⟩ | ⟨c, message, hplugins, hevents⟩
  · refine ⟨hplugins ▸ h.alive, ?_⟩
    unfold Session.acts Session.webSocketMessages
    rw [hevents]
    exact h.sent
  · have hacts : ((postinit server).webSocketMessageHandlers s.plugins c message).acts =
        sendWebSocket message false := asked_echo h.alive message
    refine ⟨hplugins ▸ h.alive, ?_⟩
    have hsent : sentBytes s'.acts = sentBytes s.acts ++ echoText message := by
      unfold Session.acts
      rw [hevents, hacts, List.filterMap_append, sentBytes_append]
      congr 1
      simp only [sendWebSocket, List.map_cons, List.map_nil, List.filterMap_cons,
        List.filterMap_nil, Event.toAct]
      simp [sentBytes, echoText]
    have hmessages : s'.webSocketMessages = s.webSocketMessages ++ [message] := by
      unfold Session.webSocketMessages
      rw [hevents, hacts, List.filterMap_append]
      rfl
    rw [hsent, hmessages, h.sent]
    simp

/-- The frame that a message comes back in. -/
def echoFrame (message : Bytes) : WebSocketFrame where
  fin := true
  reserved := 0
  opcode := 1
  mask := none
  form := shortestForm message.length
  payload := message

theorem readFrame_echoText {message : Bytes} (h : message.length < 2 ^ 63) (rest : Bytes) :
    readFrame (echoText message ++ rest) = some (echoFrame message, rest) :=
  (⟨message, false, 255, h, .inl rfl⟩ : WebSocketCall).readFrame_text rest

/-- The echoes of messages are read as frames, one for each. -/
theorem readFrames_echoes {messages : List Bytes}
    (h : ∀ message ∈ messages, message.length < 2 ^ 63) :
    readFrames (messages.map echoText).flatten = some (messages.map echoFrame) := by
  have hne : ∀ message ∈ messages, echoText message ≠ [] := fun _ _ => List.cons_ne_nil _ _
  exact readAll_flatten hne (fun message hmessage => readFrame_echoText (h message hmessage))
    (length_le_length_flatten hne)

theorem postinit_returns : (postinit server).MessageHandlersReturn := fun _ _ _ => rfl

/-- How many frames have been passed on after these calls, if no call completes two: all that are
    complete. -/
theorem passedOn_oneFrameACall {frames : List Frame} {calls : List Bytes} {p : Bytes} {k : Nat}
    (hk : OneFrameACall frames calls → k = complete (frames.map Frame.encode) calls.flatten.length)
    (hone : OneFrameACall frames (calls ++ [p])) :
    min (k + 1) (complete (frames.map Frame.encode) (calls ++ [p]).flatten.length) =
      complete (frames.map Frame.encode) (calls ++ [p]).flatten.length := by
  have hlast := hone calls.length (by simp)
  rw [List.take_of_length_le (by simp), List.take_left] at hlast
  have hbefore : OneFrameACall frames calls := by
    intro i hi
    have := hone i (by rw [List.length_append]; omega)
    rwa [List.take_append_of_le_length (by omega), List.take_append_of_le_length (by omega)] at this
  rw [hk hbefore]
  omega

/-- After every call the client has been sent the echoes of `k` messages. -/
theorem receive_echoing {frames : List Frame} {before : Bytes}
    {s : Session (List MessageHandler)} (hopened : Opened s.client) (hthrown : s.thrown = none)
    (hmessages : s.webSocketMessages = []) (hechoing : Echoing before s)
    (hlimit : ∀ f ∈ frames, f.payload.length ≤ s.client.maxWebSocketPacketLength)
    (calls : List Bytes) (hstream : calls.flatten <+: stream frames) :
    ∃ k, Received frames s.client.maxWebSocketPacketLength calls k
        (receive (postinit server) calls s) ∧
      Echoing before (receive (postinit server) calls s) ∧
      (OneFrameACall frames calls →
        k = complete (frames.map Frame.encode) calls.flatten.length) := by
  induction calls using List.reverseRecOn with
  | nil =>
    have hnone : complete (frames.map Frame.encode) 0 = 0 :=
      complete_zero (by simpa using fun f _ => f.encode_ne_nil)
    exact ⟨0, ⟨hthrown, hopened.isWebSocket, rfl, Nat.zero_le _, hmessages, [], rfl,
      .header hopened.awaits⟩, hechoing, fun _ => hnone.symm⟩
  | append_singleton calls p ih =>
    have hbefore : calls.flatten <+: stream frames := by
      rw [List.flatten_append] at hstream
      exact (List.prefix_append _ _).trans hstream
    obtain ⟨k, hreceived, hsent, hk⟩ := ih hbefore
    rw [receive_append_singleton]
    refine ⟨_, hreceived.step postinit_returns hlimit hstream, ?_, passedOn_oneFrameACall hk⟩
    obtain ⟨rest, hcalls, hholds⟩ := hreceived.holds
    have hnext : rest ++ p <+: stream (frames.drop k) := by
      have hsplit : stream frames = stream (frames.take k) ++ stream (frames.drop k) := by
        unfold stream
        rw [← List.flatten_append, ← List.map_append, List.take_append_drop]
      have htotal : (calls ++ [p]).flatten = stream (frames.take k) ++ (rest ++ p) := by
        rw [List.flatten_append, hcalls, List.append_assoc]
        simp
      rw [htotal, hsplit, List.prefix_append_right_inj] at hstream
      exact hstream
    rw [Session.andThen_of_none hreceived.thrown]
    refine hsent.passesOn (handleInput_passesOn _ hreceived.isWebSocket ?_ hholds hnext)
    intro f hf
    rw [hreceived.limit]
    exact hlimit f (List.mem_of_mem_drop hf)

/-- A client asks for a WebSocket with the protocol `echo`, and sends data frames, in whatever
    pieces. It is sent the 101 response, and then, after every call, what is read as the payloads
    of its first `k` frames, each in one final, unmasked text frame, and nothing else; whatever it
    sent after these frames is held. If no call completes two frames, all that are complete have
    come back. -/
theorem echoed {r : Request} {key : Bytes} (hasks : AsksForEcho r key) {c : Client}
    (hfresh : AwaitsHeader c []) (handlers : List MessageHandler) {frames : List Frame}
    (hlimit : ∀ f ∈ frames, f.payload.length ≤ c.maxWebSocketPacketLength)
    (hsize : c.maxWebSocketPacketLength < 2 ^ 63) (calls : List Bytes)
    (hstream : calls.flatten <+: stream frames) :
    let s := receive (postinit server) calls
      ((postinit server).handleGET r { client := c, plugins := handlers })
    ∃ k ≤ frames.length, ∃ bytes,
      sentBytes s.acts = (server.switchingProtocols key (ascii "echo")).toBytes ++ bytes ∧
      readFrames bytes = some ((frames.take k).map fun f => echoFrame f.payload) ∧
      (∃ rest, calls.flatten = stream (frames.take k) ++ rest ∧
        Holds s.client (frames.drop k) rest) ∧
      (OneFrameACall frames calls →
        k = complete (frames.map Frame.encode) calls.flatten.length) := by
  dsimp only
  rw [handleGET_asksForEcho hasks]
  generalize hs : Server.respond _ _ = s
  have hopened : Opened s.client := by
    subst hs
    exact ⟨rfl, hfresh.awaiting, hfresh.packet, hfresh.leftover⟩
  have hechoing : Echoing (server.switchingProtocols key (ascii "echo")).toBytes s := by
    subst hs
    refine ⟨⟨⟨false⟩, List.mem_append_right _ (List.mem_singleton_self _), rfl⟩, ?_⟩
    simp [Server.respond, Session.send, Session.emit, Session.acts, Session.webSocketMessages,
      Event.toAct, Event.toMessage, sentBytes]
  obtain ⟨k, hreceived, hsent, hk⟩ := receive_echoing hopened
    (by subst hs; rfl) (by subst hs; rfl) hechoing (by subst hs; exact hlimit) calls hstream
  refine ⟨k, hreceived.le, _, hsent.sent, ?_, hreceived.holds, hk⟩
  rw [hreceived.messages, readFrames_echoes, List.map_map]
  · rfl
  · intro message hmessage
    obtain ⟨f, hf, rfl⟩ := List.mem_map.mp hmessage
    exact Nat.lt_of_le_of_lt (hlimit f (List.mem_of_mem_take hf)) hsize

/-- The headers of a request for a WebSocket with the protocol `echo`. -/
def echoHeaders : List (Bytes × Bytes) :=
  [(ascii "Connection", ascii "Upgrade"), (ascii "Upgrade", ascii "websocket"),
    (ascii "Sec-WebSocket-Key", ascii "dGhlIHNhbXBsZSBub25jZQ=="),
    (ascii "Sec-WebSocket-Version", ascii "13"), (ascii "Sec-WebSocket-Protocol", ascii "echo")]

def cutFrames : List Frame := [oneByte 0x01020304 97, oneByte 0xa0b0c0d0 98]

/-- The two frames, cut inside the header of the second one. -/
def cutCalls : List Bytes :=
  [(oneByte 0x01020304 97).encode ++ (oneByte 0xa0b0c0d0 98).encode.take 3,
    (oneByte 0xa0b0c0d0 98).encode.drop 3]

/-- Both messages come back. -/
theorem echoed_cutFrames :
    let s := receive (postinit {}) cutCalls
      ((postinit {}).handleGET { path := ascii "/", headers := addHeaders echoHeaders ∅ }
        { client := {}, plugins := [] })
    ∃ bytes, sentBytes s.acts = (({} : Server (List MessageHandler)).switchingProtocols
        (ascii "dGhlIHNhbXBsZSBub25jZQ==") (ascii "echo")).toBytes ++ bytes ∧
      readFrames bytes = some [echoFrame [97], echoFrame [98]] := by
  have hasks : AsksForEcho { path := ascii "/", headers := addHeaders echoHeaders ∅ }
      (ascii "dGhlIHNhbXBsZSBub25jZQ==") :=
    ⟨by decide, by decide, by decide, by decide, by decide, by decide⟩
  have hone : OneFrameACall cutFrames cutCalls := by
    unfold OneFrameACall
    decide
  obtain ⟨k, -, bytes, hsent, hread, -, hk⟩ := @echoed {} _ _ hasks {} ⟨rfl, rfl, rfl⟩ []
    cutFrames (by decide) (by decide) cutCalls (by decide)
  have htwo : k = 2 := (hk hone).trans (by decide)
  subst htwo
  exact ⟨bytes, hsent, hread⟩

end Algiz.Plugins.WSEcho
