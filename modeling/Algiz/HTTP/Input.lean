/-
  `Client::handleInput`: a line or a piece of a body for the parser of requests, or bytes of a
  WebSocket.

  The WebSocket branch waits for a header or for the rest of a payload. Bytes of a header that is
  not there yet, and bytes behind the end of a payload, are kept in `leftoverMessage`; bytes of a
  payload are unmasked into `packet` at once.
-/
import Algiz.HTTP.Server

namespace Algiz.HTTP

variable {σ : Type*} (server : Server σ)

/-! ## WebSocket input -/

/-- `Client::closeWebSocket` -/
def Session.closeWebSocket (s : Session σ) : Session σ :=
  server.closeWebSocket (s.sendWebSocket (ascii "Error") false 8)

/-- `uint8_t(webSocketMask >> (8 * (3 - maskOffset)))` -/
def maskByte (mask : UInt32) (offset : Nat) : UInt8 :=
  UInt8.ofNat (mask.toNat / 256 ^ (3 - offset))

/-- The loop that unmasks: these bytes, of which the first is masked by the byte at `offset`. -/
def unmask (mask : UInt32) : Nat → Bytes → Bytes
  | _, [] => []
  | offset, b :: bytes => (b ^^^ maskByte mask offset) :: unmask mask ((offset + 1) % 4) bytes

/-- Bytes of a payload go into the packet. -/
def Client.absorb (c : Client) (bytes : Bytes) : Client :=
  { c with
    packet := c.packet ++ unmask c.webSocketMask c.maskOffset bytes
    maskOffset := (c.maskOffset + bytes.length) % 4 }

/-- A payload of this length begins with these bytes. -/
def Client.startPayload (c : Client) (mask : UInt32) (length : Nat) (bytes : Bytes) : Client :=
  ({ c with
    webSocketMask := mask
    remainingBytesInPacket := length - bytes.length
    maskOffset := 0 } : Client).absorb bytes

/-- `CHECKSIZE`, where the size is not reached. -/
def Session.wait (hasLeftover : Bool) (message : Bytes) (s : Session σ) : Session σ :=
  if hasLeftover then s else { s with client.leftoverMessage := message }

/-- The size of the length field that follows the second byte. -/
def lengthFieldSize (byte2 : UInt8) : Nat :=
  if byte2 &&& 0x7f = 126 then 2 else if byte2 &&& 0x7f = 127 then 8 else 0

/-- `payload_length`, from the second byte and the length field. -/
def payloadLength (byte2 : UInt8) (field : Bytes) : Nat :=
  if lengthFieldSize byte2 = 0 then (byte2 &&& 0x7f).toNat else bigEndian field

/-- `packet.clear()` -/
def Session.clearPacket (s : Session σ) : Session σ := { s with client.packet := [] }

/-- A payload is whole: with FIN it is a message, without the WebSocket is closed. -/
def Session.finishPacket (fin : Bool) (s : Session σ) : Session σ :=
  (if fin then server.handleWebSocketMessage s.client.packet s
    else s.closeWebSocket server).andThen Session.clearPacket

/-- What follows a header and the bytes of its payload that are there: `rest` comes after
    them. -/
def afterPayload (fin : Bool) (rest : Bytes) (s : Session σ) : Session σ :=
  if 0 < rest.length then
    Session.finishPacket server fin { s with
      client.awaitingWebSocketHeader := true
      client.leftoverMessage := rest
      client.remainingBytesInPacket := if fin then 0 else s.client.remainingBytesInPacket }
  else
    (if s.client.remainingBytesInPacket = 0 then
      Session.finishPacket server fin { s with client.awaitingWebSocketHeader := true }
    else { s with client.awaitingWebSocketHeader := false }).andThen fun s =>
      { s with client.leftoverMessage := [] }

/-- From the payload on: what follows the header is `data`. -/
def payloadInput (fin : Bool) (opcode : UInt8) (length : Nat) (mask : UInt32) (data : Bytes)
    (s : Session σ) : Session σ :=
  let here := min length data.length
  let s := { s with client := s.client.startPayload mask length (data.take here) }
  if opcode = 9 then
    if length ≤ 125 then s.sendWebSocket s.client.packet true 10 else s.closeWebSocket server
  else afterPayload server fin (data.drop here) s

/-- `if (awaitingWebSocketHeader)` -/
def headerInput (hasLeftover : Bool) (message : Bytes) (s : Session σ) : Session σ :=
  match message with
  | byte1 :: byte2 :: afterBytes =>
    let fin := byte1 >>> 7 &&& 1 = 1
    let s := { s with client.lastFin := fin }
    if afterBytes.length < lengthFieldSize byte2 then s.wait hasLeftover message
    else
      let length := payloadLength byte2 (afterBytes.take (lengthFieldSize byte2))
      let afterLength := afterBytes.drop (lengthFieldSize byte2)
      if byte2 >>> 7 &&& 1 ≠ 1 ∨ s.client.maxWebSocketPacketLength < length then
        (Server.send400 s).close
      else if afterLength.length < 4 then s.wait hasLeftover message
      else
        payloadInput server fin (byte1 &&& 0xf) length
          (UInt32.ofNat (bigEndian (afterLength.take 4))) (afterLength.drop 4) s
  | _ => s.wait hasLeftover message

/-- A payload goes on with these bytes; what comes after it is kept. -/
def Client.continuePayload (c : Client) (message : Bytes) : Client :=
  let here := min c.remainingBytesInPacket message.length
  let c' := c.absorb (message.take here)
  if c.remainingBytesInPacket < message.length then
    { c' with leftoverMessage := message.drop here, remainingBytesInPacket := 0 }
  else { c' with remainingBytesInPacket := c.remainingBytesInPacket - here }

/-- The rest of a payload whose header was there before. -/
def restInput (message : Bytes) (s : Session σ) : Session σ :=
  let s := { s with client := s.client.continuePayload message }
  if s.client.remainingBytesInPacket = 0 then
    let s := { s with client.awaitingWebSocketHeader := true }
    if s.client.lastFin then Session.finishPacket server true s else s
  else s

/-- `if (isWebSocket)` -/
def webSocketInput (messageIn : Bytes) (s : Session σ) : Session σ :=
  let hasLeftover := !s.client.leftoverMessage.isEmpty
  let s :=
    if hasLeftover then { s with client.leftoverMessage := s.client.leftoverMessage ++ messageIn }
    else s
  let message := if hasLeftover then s.client.leftoverMessage else messageIn
  if s.client.awaitingWebSocketHeader then headerInput server hasLeftover message s
  else restInput server message s

/-! ## Requests -/

/-- `Client::handleRequest` -/
def Session.handleRequest (s : Session σ) : Session σ :=
  let s := s.emit (.handleRequest s.client.request)
  match s.client.request.method with
  | .GET => server.handleGET s.client.request s
  | .POST => server.handlePOST s.client.request s
  | .invalid | .HEAD | .PUT =>
    s.throw (.parseError (ascii "Invalid method: " ++ decimalText s.client.request.method.toNat))

/-- What `handleLine` did to the client. -/
def Session.absorbHandled (h : Handled) (s : Session σ) : Session σ :=
  let s := { s with
    client.request := h.request
    client.keepAlive := h.keepAlive.getD s.client.keepAlive }
  match h.maxRead with
  | none => s
  | some n => s.emit (.act (.setMaxRead n))

/-- `catch (const UnsupportedMethod &)` -/
def Session.catchUnsupportedMethod (s : Session σ) : Session σ :=
  match s.thrown with
  | some (.unsupportedMethod _) => (Server.send400 { s with thrown := none }).close
  | _ => s

/-- What follows a call of `handleLine`. -/
def afterLine (result : Except Exception HandleResult) (s : Session σ) : Session σ :=
  match result with
  | .ok .continue => s
  | .ok .disableLineMode => s.emit (.act .leaveLineMode)
  | .ok .done => s.handleRequest server
  | .error e => s.throw e

/-- The branch for requests. -/
def requestInput (message : Bytes) (s : Session σ) : Session σ :=
  let handled := s.client.request.handleLine server.options message
  (afterLine server handled.result (s.absorbHandled handled)).catchUnsupportedMethod

/-- `Client::handleInput` -/
def handleInput (messageIn : Bytes) (s : Session σ) : Session σ :=
  if s.client.isWebSocket then webSocketInput server messageIn s
  else requestInput server messageIn s

/-- A call of `handleInput`, with nothing before it. -/
def call (messageIn : Bytes) (c : Client) (plugins : σ) : Session σ :=
  handleInput server messageIn { client := c, plugins := plugins }

end Algiz.HTTP
