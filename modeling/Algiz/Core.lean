/-
  `makeHTTP`: the application that is put above the sockets, an `HTTP::Server` whose clients
  answer a `ParseError` with a 400 response and are then closed.

  With it the laws about a connection are laws about requests. A body that arrives in the same
  read as its head loses its newlines (`rawBytes_ne_postInOneRead`), and a second malformed line
  in one read gets a second response (`not_allAlone_twoBadLines`).
-/
import Algiz.HTTP.Input
import Algiz.Net.PendingClose
import Algiz.Net.RawMode

namespace Algiz

open Algiz.HTTP Algiz.Net

variable {σ : Type*}

/-- The answer to a `ParseError`. -/
def badRequest : Response where
  code := 400
  content := ascii "Hey dummy, learn to send a proper HTTP request and then we can talk."

/-- `catch (const ParseError &)` -/
def catchParseError (s : Session σ) : Session σ :=
  match s.thrown with
  | some (.parseError _) => (HTTP.Server.respond { s with thrown := none } badRequest).close
  | _ => s

/-- `server->messageHandler`, and `Client::onMaxLineSizeExceeded`. -/
def messageHandler (server : HTTP.Server σ) : Handler (Client × σ) where
  handleMessage state message :=
    let s := catchParseError (call server message state.1 state.2)
    { state := (s.client, s.plugins), acts := s.acts, thrown := s.thrown }
  onMaxLineSizeExceeded _ :=
    [.send (Response.toBytes { code := 413, content := ascii "Payload too large" })]

/-- A client that `accept` has just added. -/
def newClient (plugins : σ) : Conn (Client × σ) :=
  { client := { id := 0, maxLineSize := 8192 }, app := ({}, plugins) }

/-- A POST whose head and body come in reads of their own keeps the newline in its body. -/
theorem rawBytes_postInReads :
    let es : List NetEvent := [.readable (ascii "POST / HTTP/1.1\nContent-Length: 3\n"),
      .readable (ascii "\n"), .readable (ascii "a\nb")]
    let o := run (messageHandler ({} : HTTP.Server Unit)) 1024 es (newClient ())
    rawBytes o.trace = (received es).drop (lineBytes o.trace) := by
  refine (rawBytes_eq_iff _ _ _ (fun _ => rfl) rfl ?_ ?_).mpr ?_
  · decide +kernel
  · decide +kernel
  · decide +kernel

/-- A POST in one read. -/
theorem rawBytes_ne_postInOneRead :
    let es : List NetEvent := [.readable (ascii "POST / HTTP/1.1\nContent-Length: 3\n\na\nb")]
    let o := run (messageHandler ({} : HTTP.Server Unit)) 1024 es (newClient ())
    o.flow = .next ∧ o.conn.registered = true ∧
      rawBytes o.trace ≠ (received es).drop (lineBytes o.trace) := by
  decide

/-- After a malformed line, and the 400 response to it, nothing more is written. -/
theorem allAlone_oneBadLine :
    AllAlone (run (messageHandler ({} : HTTP.Server Unit)) 1024
      [.readable (ascii "What?\n"), .writeEmpty] (newClient ())).trace :=
  run_leavesAlone _ _ _ _ (by decide +kernel)

/-- Two malformed lines in one read: the second is dispatched, and answered, while the close is
    queued. -/
theorem not_allAlone_twoBadLines :
    ¬ AllAlone (run (messageHandler ({} : HTTP.Server Unit)) 1024
      [.readable (ascii "What?\nWhat?\n")] (newClient ())).trace := by
  decide +kernel

end Algiz
