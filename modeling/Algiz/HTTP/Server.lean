/-
  `HTTP::Server`: what becomes of a request, and of a WebSocket's messages and its end.

  The plugins are parameters. Each list of handlers is asked in turn by `beforeMulti`
  (`Plugins.beforeMulti`); the parameter is what asking all of them comes to: the plugins' new
  state, what they did to the client's connection, the exception they ended in, and for requests
  and connections the `HandlerResult`. A list without handlers does nothing and passes. A plugin
  may read the client, and no plugin writes to it.
-/
import Algiz.HTTP.Client
import Algiz.Plugins

namespace Algiz.HTTP

open Algiz.Plugins (HandlerResult)

/-- What asking the handlers of requests or of connections comes to. -/
structure Answer (σ : Type*) extends Net.Reaction σ where
  result : HandlerResult := .pass
  /-- `args.acceptedProtocol` -/
  acceptedProtocol : Bytes := []

/-- `HTTP::Server` -/
structure Server (σ : Type*) where
  options : Options := {}
  /-- `sha1`, which is OpenSSL's -/
  sha1 : Bytes → Bytes := fun _ => []
  getHandlers : σ → Client → Request → List Bytes → Answer σ := fun s _ _ _ => { state := s }
  postHandlers : σ → Client → Request → List Bytes → Answer σ := fun s _ _ _ => { state := s }
  webSocketConnectionHandlers : σ → Client → Request → List Bytes → List Bytes → Answer σ :=
    fun s _ _ _ _ => { state := s }
  webSocketMessageHandlers : σ → Client → Bytes → Net.Reaction σ := fun s _ _ => { state := s }
  webSocketCloseHandlers : σ → Client → Net.Reaction σ := fun s _ => { state := s }

namespace Server

variable {σ : Type*} (server : Server σ)

/-- `Server::validatePath` -/
def validatePath (path : Bytes) : Bool := path.head? == some 47

/-- `Server::getParts` -/
def getParts (path : Bytes) : List Bytes :=
  (split (path.drop 1) (ascii "/") true).map (unescape server.options.ind · true)

/-- `server->send(client.id, response)` -/
def respond (s : Session σ) (response : Response) : Session σ := s.send response.toBytes

/-- `Server::send400` -/
def send400 (s : Session σ) : Session σ :=
  respond s { code := 400, content := ascii "Invalid request" }

/-- `Server::closeWebSocket` -/
def closeWebSocket (s : Session σ) : Session σ :=
  let s := s.emit .closeWebSocket
  (s.react (server.webSocketCloseHandlers s.plugins s.client)).andThen Session.close

/-- `Server::handleWebSocketMessage` -/
def handleWebSocketMessage (message : Bytes) (s : Session σ) : Session σ :=
  let s := s.emit (.webSocketMessage message)
  s.react (server.webSocketMessageHandlers s.plugins s.client message)

/-- What follows when the plugins have been asked for a request. -/
def unhandled (s : Session σ) : Session σ :=
  (respond s { code := 501, content := ascii "Unhandled request" }).close

/-- The answer to a path that does not begin with a slash. -/
def invalidPath (s : Session σ) : Session σ :=
  (respond s { code := 403, content := ascii "Invalid path." }).close

/-- Is it a request to become a WebSocket? -/
def asksForWebSocket (r : Request) : Bool :=
  (r.headers[ascii "connection"]? == some (ascii "Upgrade") ||
    r.headers[ascii "connection"]? == some (ascii "keep-alive, Upgrade")) &&
  r.headers[ascii "upgrade"]? == some (ascii "websocket")

/-- The value of `Sec-WebSocket-Accept` that goes with a key. -/
def acceptKey (key : Bytes) : Bytes :=
  base64Encode (server.sha1 (key ++ ascii "258EAFA5-E914-47DA-95CA-C5AB0DC85B11"))

/-- The 101 response. -/
def switchingProtocols (key acceptedProtocol : Bytes) : Response :=
  let response := (({ code := 101, content := [] } : Response)
    |>.set (ascii "upgrade") (ascii "websocket")
    |>.set (ascii "connection") (ascii "Upgrade")
    |>.set (ascii "sec-websocket-accept") (server.acceptKey key))
  if acceptedProtocol.isEmpty then response
  else response.set (ascii "sec-websocket-protocol") acceptedProtocol

/-- The part of `Server::handleGET` for a request to become a WebSocket. -/
def upgrade (r : Request) (s : Session σ) : Session σ :=
  match r.headers[ascii "sec-websocket-key"]? with
  | none => send400 s
  | some key =>
    if !r.headers.contains (ascii "sec-websocket-version") || key.length ≠ 24 then send400 s
    else
      let protocols := match r.headers[ascii "sec-websocket-protocol"]? with
        | none => []
        | some protocol => split protocol (ascii " ") true
      let parts := server.getParts r.path
      let s := ({ s with client.isWebSocket := true, client.webSocketPath := parts }).emit
        (.act .leaveLineMode)
      let answer := server.webSocketConnectionHandlers s.plugins s.client r parts protocols
      (s.react answer.toReaction).andThen fun s =>
        match answer.result with
        | .pass => unhandled s
        | .kill => respond s (server.switchingProtocols key answer.acceptedProtocol)

/-- `beforeMulti(args, handlers)`, and what follows if all of them pass. -/
def askHandlers (handlers : σ → Client → Request → List Bytes → Answer σ) (r : Request)
    (s : Session σ) : Session σ :=
  let answer := handlers s.plugins s.client r (server.getParts r.path)
  (s.react answer.toReaction).andThen fun s =>
    match answer.result with
    | .pass => unhandled s
    | .kill => s

/-- `Server::handleGET` -/
def handleGET (r : Request) (s : Session σ) : Session σ :=
  if !validatePath r.path then invalidPath s
  else if asksForWebSocket r then server.upgrade r s
  else server.askHandlers server.getHandlers r s

/-- `Server::handlePOST` -/
def handlePOST (r : Request) (s : Session σ) : Session σ :=
  if !validatePath r.path then invalidPath s
  else server.askHandlers server.postHandlers r s

end Server

end Algiz.HTTP
