/-
  `HTTP::Client`, and one call into it.

  A call of `Client::handleInput` is a `Session`: the client, the plugins' own state, and what
  happened so far, in order (`Event`). A section of code takes a session and goes on with it; once
  an exception is thrown the rest is skipped (`Session.andThen`), and what was assigned before
  it stays.

  What the client does to its connection are events too: they are carried out, in order, on the
  `Conn` of `Net` (`Session.acts`). A client that is closed while nothing is left to be written is
  freed at once, under the call that closed it; nothing here looks at that.
-/
import Algiz.HTTP.Response

namespace Algiz.HTTP

/-- `HTTP::Client`. Its `lineMode`, `maxRead`, `maxLineSize` and `id` are the `GenericClient`'s. -/
structure Client where
  awaitingWebSocketHeader : Bool := true
  lastFin : Bool := false
  webSocketMask : UInt32 := 0
  maskOffset : Nat := 0
  remainingBytesInPacket : Nat := 0
  packet : Bytes := []
  leftoverMessage : Bytes := []
  request : Request := {}
  isWebSocket : Bool := false
  webSocketPath : List Bytes := []
  maxWebSocketPacketLength : Nat := 2 ^ 24
  keepAlive : Bool := true

/-- What happens during a call of `handleInput`. -/
inductive Event where
  /-- something is done to the client's connection -/
  | act (a : Net.Act)
  /-- `Client::handleRequest` is called; this is the `Request` object then -/
  | handleRequest (request : Request)
  /-- `Server::handleWebSocketMessage` is called -/
  | webSocketMessage (message : Bytes)
  /-- `Server::closeWebSocket` is called -/
  | closeWebSocket

namespace Event

def toAct : Event → Option Net.Act
  | act a => some a
  | handleRequest _ | webSocketMessage _ | closeWebSocket => none

def toMessage : Event → Option Bytes
  | webSocketMessage message => some message
  | act _ | handleRequest _ | closeWebSocket => none

def toRequest : Event → Option Request
  | handleRequest request => some request
  | act _ | webSocketMessage _ | closeWebSocket => none

end Event

/-- A call in progress. -/
structure Session (σ : Type*) where
  client : Client
  plugins : σ
  events : List Event := []
  thrown : Option Exception := none

namespace Session

variable {σ : Type*}

/-- `s`, and then `k` unless an exception was thrown. -/
def andThen (s : Session σ) (k : Session σ → Session σ) : Session σ :=
  match s.thrown with
  | none => k s
  | some _ => s

def throw (s : Session σ) (e : Exception) : Session σ := { s with thrown := some e }

/-- Something happens. -/
def emit (s : Session σ) (e : Event) : Session σ := { s with events := s.events ++ [e] }

/-- `client.send(data)`, `server.server->send(client.id, data)` -/
def send (s : Session σ) (data : Bytes) : Session σ := s.emit (.act (.send data))

/-- `server.server->close(client.id)`; also `Client::removeSelf` -/
def close (s : Session σ) : Session σ := s.emit (.act .close)

/-- What a plugin's handler came to. -/
def react (s : Session σ) (r : Net.Reaction σ) : Session σ :=
  { s with plugins := r.state, events := s.events ++ r.acts.map .act, thrown := r.thrown }

/-- What is done to the connection, in order. -/
def acts (s : Session σ) : List Net.Act := s.events.filterMap Event.toAct

/-- The messages passed to `handleWebSocketMessage`, in order. -/
def webSocketMessages (s : Session σ) : List Bytes := s.events.filterMap Event.toMessage

/-- The `Request` object at each call of `handleRequest`, in order. -/
def handledRequests (s : Session σ) : List Request := s.events.filterMap Event.toRequest

theorem andThen_of_none {s : Session σ} (h : s.thrown = none) (k : Session σ → Session σ) :
    s.andThen k = k s := by
  unfold andThen
  rw [h]

theorem andThen_of_some {s : Session σ} {e : Exception} (h : s.thrown = some e)
    (k : Session σ → Session σ) : s.andThen k = s := by
  unfold andThen
  rw [h]

@[simp] theorem emit_client (s : Session σ) (e : Event) : (s.emit e).client = s.client := rfl

@[simp] theorem emit_thrown (s : Session σ) (e : Event) : (s.emit e).thrown = s.thrown := rfl

theorem react_webSocketMessages (s : Session σ) (r : Net.Reaction σ) :
    (s.react r).webSocketMessages = s.webSocketMessages := by
  have hacts : (r.acts.map Event.act).filterMap Event.toMessage = [] := by
    rw [List.filterMap_map, List.filterMap_eq_nil_iff]
    exact fun _ _ => rfl
  unfold webSocketMessages react
  rw [List.filterMap_append, hacts, List.append_nil]

@[simp] theorem react_client (s : Session σ) (r : Net.Reaction σ) :
    (s.react r).client = s.client := rfl

@[simp] theorem react_thrown (s : Session σ) (r : Net.Reaction σ) :
    (s.react r).thrown = r.thrown := rfl

end Session

/-! ## Writing a WebSocket frame -/

/-- The `n` low bytes of a number, the most significant first. -/
def bigEndianBytes : Nat → Nat → Bytes
  | 0, _ => []
  | n + 1, value => UInt8.ofNat (value / 256 ^ n) :: bigEndianBytes n value

/-- The number that these bytes write, the most significant first. -/
def bigEndian (bytes : Bytes) : Nat := bytes.foldl (fun n b => 256 * n + b.toNat) 0

/-- The header that `Client::sendWebSocket` writes before the message. -/
def webSocketHeader (size : Nat) (isBinary : Bool) (opcodeOverride : UInt8) : Bytes :=
  let opcode := if opcodeOverride ≠ 255 then opcodeOverride else if isBinary then 2 else 1
  (128 ||| opcode) ::
    if size ≤ 125 then [UInt8.ofNat size]
    else if size < 65536 then 126 :: bigEndianBytes 2 size
    else 127 :: bigEndianBytes 8 size

/-- `Client::sendWebSocket` -/
def Session.sendWebSocket {σ : Type*} (s : Session σ) (message : Bytes) (isBinary : Bool)
    (opcodeOverride : UInt8) : Session σ :=
  (s.send (webSocketHeader message.length isBinary opcodeOverride)).send message

end Algiz.HTTP
