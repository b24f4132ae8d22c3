/-
  `Fileserv`: sending a file, whole or in ranges.

  A handler's `Run` is what it does that others see: the files it opens, and what it writes to the
  client, with the file that the bytes are from. `serveRange` and `serveFull` write a response
  head, and the file in chunks behind it. Nothing that runs behind the head throws: the stream's
  exceptions are off, and a short read leaves what was in the buffer before.

  `std::sort` gets a comparison that is no order, so a sorted list of ranges is any permutation
  of it.
-/
import Algiz.Lib.Trace
import Algiz.HTTP.Authentication
import Algiz.HTTP.Configs
import Algiz.HTTP.MIME
import Algiz.HTTP.Response

namespace Algiz.Plugins

open Lib HTTP

/-- What a handler does. -/
inductive Event where
  /-- a file is opened -/
  | opened (path : Path)
  /-- `server->send(client.id, response)`; the content may be made from a file -/
  | respond (response : Response) (source : Option Path)
  /-- `server->send(client.id, response.noContent())` -/
  | head (response : Response)
  /-- bytes behind a head, from a file if there is a source -/
  | body (bytes : Bytes) (source : Option Path)
  /-- a module is run for a file -/
  | ran (object : Path) (path : Path)
  /-- `client.close()` -/
  | closed

/-- What a handler stops by: an exception, or a failed assertion. -/
inductive Stop where
  | thrown (e : Exception)
  | aborted
  deriving DecidableEq

/-- A run of a handler or of a part of it. -/
abbrev Run := Trace Event Stop

/-- `throw` -/
def throwing {α : Type} (e : Exception) : Run α := Trace.lift (.error (.thrown e))

/-- What a part comes to that does nothing but may throw. -/
def orThrow {α : Type} (result : Except Exception α) : Run α :=
  Trace.lift (result.mapError .thrown)

/-- The sixteen letters in a boundary, each from `'a'` to `'z'`. -/
structure Letters where
  bytes : Bytes
  length_eq : bytes.length = 16
  lower : ∀ b ∈ bytes, 97 ≤ b ∧ b ≤ 122

/-- Sixteen times `'a'`. -/
def Letters.sameLetter : Letters where
  bytes := List.replicate 16 97
  length_eq := List.length_replicate
  lower := by
    intro b hb
    rw [List.eq_of_mem_replicate hb]
    decide

theorem defaultChunkSize_pos : 0 < 2 ^ 20 := by decide

theorem id_perm (ranges : List (Nat × Nat)) : (id ranges).Perm ranges := List.Perm.refl _

/-- `Fileserv`, and what its code asks of the rest of the world. -/
structure Fileserv where
  chunkSize : Nat := 2 ^ 20
  chunkSize_pos : 0 < chunkSize := by first | exact defaultChunkSize_pos | decide
  hostnames : Option (List Bytes) := none
  root : Option Path := none
  enableModules : Bool := false
  /-- `config["default"]` -/
  defaults : Option Json := none
  fs : FileSystem File
  /-- what uninitialized reads find -/
  ind : Indeterminate := {}
  /-- `std::sort` with the comparison of `Request::valid` -/
  sort : List (Nat × Nat) → List (Nat × Nat) := id
  sort_perm : ∀ ranges, (sort ranges).Perm ranges := by exact id_perm
  /-- what `rng` makes for a boundary -/
  letters : Letters := .sameLetter
  /-- `renderTemplate`, with the parameters of a POST -/
  renderTemplate : Bytes → Option StringMap → Except Exception Bytes := fun text _ => .ok text
  /-- `last_write_time` of a directory -/
  directoryTime : Path → Int := fun _ => 0
  /-- `compileObject`: `none`, or the text of the errors if it throws -/
  compileObject : Path → Path → Bool → Option (Option Bytes) := fun _ _ _ => none
  /-- is it in `moduleCache`? -/
  cached : Path → Bool := fun _ => false
  /-- `dlopen` and `dlsym`: the exception if there is no such module -/
  loadModule : Path → Option Exception := fun _ => none
  /-- what the function of a module ends in -/
  runModule : Path → Path → Request → Option Exception := fun _ _ _ => none
  /-- the functions that `dlsym` finds under the names of the filters -/
  algizAuthCheck : Option (Request → Path → Run Bool) := none
  algizAuthCheckFailed : Option (Request → Path → Run Bool) := none
  algizCompiledModuleCheck : Option (Request → Path → Run Bool) := none
  algizCompiledModuleCheckFailed : Option (Request → Path → Run Bool) := none

/-! ## Responses -/

/-- `Server::send400` -/
def send400 : Run Unit :=
  Trace.emit (.respond { code := 400, content := ascii "Invalid request" } none)

/-- `escapeQuotes` -/
def escapeQuotes (view : Bytes) : Bytes :=
  view.flatMap fun ch => if ch = 34 then [92, 34] else [ch]

/-- The response of `Server::send401(client)`. -/
def unauthorized : Response := { code := 401, content := ascii "Unauthorized" }

/-- The response of `Server::send401(client, realm)`. -/
def unauthorizedRealm (realm : Bytes) : Response :=
  unauthorized.set (ascii "www-authenticate")
    (ascii "Basic realm=\"" ++ escapeQuotes realm ++ ascii "\"")

/-! ## Streams -/

/-- `std::ifstream`, open for reading, with its exceptions off. -/
structure Stream where
  content : Bytes
  position : Nat := 0
  failed : Bool := false

/-- `stream.seekg(position, std::ios::beg)`; an offset is a signed number. -/
def Stream.seek (stream : Stream) (position : Nat) : Stream :=
  if stream.failed then stream
  else if position < 2 ^ 63 then { stream with position := position }
  else { stream with failed := true }

/-- `stream.read(buffer, n)`; what is not read stays in the buffer. -/
def Stream.read (stream : Stream) (buffer : Bytes) (n : Nat) : Stream × Bytes :=
  if stream.failed then (stream, buffer)
  else
    let data := (stream.content.drop stream.position).take n
    ({ stream with position := stream.position + data.length, failed := data.length < n },
      data ++ buffer.drop data.length)

/-- `while (0 < remaining)`: what is sent, and the stream and the buffer after it. -/
def sendChunks (chunkSize : Nat) : Nat → Nat → Stream → Bytes → List Bytes × Stream × Bytes
  | 0, _, stream, buffer => ([], stream, buffer)
  | fuel + 1, remaining, stream, buffer =>
    if 0 < remaining then
      let toRead := min chunkSize remaining
      let read := stream.read buffer toRead
      let rest := sendChunks chunkSize fuel (remaining - toRead) read.1 read.2
      (read.2.take toRead :: rest.1, rest.2)
    else ([], stream, buffer)

/-! ## Ranges -/

/-- The conditions on two ranges that follow one another, in `Request::valid`. -/
def followsIn (totalSize : Nat) (previous next : Nat × Nat) : Bool :=
  !(next.2 ≤ next.1 || next.1 < previous.2 || totalSize ≤ next.1 || totalSize < next.2)

/-- `request.valid(totalSize)` for ranges that are sorted. -/
def validSorted (totalSize suffixLength : Nat) : List (Nat × Nat) → Bool
  | [] => true
  | [last] => last.2 ≤ totalSize - suffixLength
  | previous :: next :: ranges =>
    followsIn totalSize previous next && validSorted totalSize suffixLength (next :: ranges)

/-- `end - start + 1`, of `size_t` -/
def rangeLength (range : Nat × Nat) : Nat := (range.2 + 2 ^ 64 - range.1 + 1) % 2 ^ 64

/-- `length` in `serveRange` -/
def rangesLength (ranges : List (Nat × Nat)) (suffixLength : Nat) : Nat :=
  ranges.foldl (fun length range => (length + rangeLength range) % 2 ^ 64) suffixLength

/-- `request.hackRanges()`, without its change to the request. -/
def hacksRanges (request : Request) : Bool := request.ranges = [(0, 2 ^ 64 - 1)]

namespace Fileserv

variable (fileserv : Fileserv)

/-- `boundary` -/
def boundary : Bytes := ascii "--" ++ fileserv.letters.bytes

/-- `send_start`, for a file of that size. -/
def sendStart (filesize start stop : Nat) : Bytes :=
  fileserv.boundary ++ ascii "\r\nContent-Type: " ++ ascii "\r\nContent-Range: " ++
    decimalText start ++ ascii "-" ++ decimalText stop ++ ascii "/" ++ decimalText filesize ++
    ascii "\r\n\r\n"

/-- The response of `serveRange`. -/
def rangeResponse (file : File) (ranges : List (Nat × Nat)) (suffixLength : Nat) : Response :=
  let response := (({ code := 206, content := [] } : Response)
    |>.set (ascii "accept-ranges") (ascii "bytes")
    |>.set (ascii "content-length") (decimalText (rangesLength ranges suffixLength))
    |>.set (ascii "last-modified") file.writeTimeText)
  match ranges with
  | [(start, stop)] => (response.set (ascii "content-type") []).set (ascii "content-range")
      (ascii "bytes " ++ decimalText start ++ ascii "-" ++ decimalText stop ++ ascii "/" ++
        decimalText file.content.length)
  | _ => response.set (ascii "content-type") (ascii "; boundary=" ++ fileserv.letters.bytes)

/-- What goes before the bytes of a range. -/
def startOf (multi : Bool) (filesize start stop : Nat) : List Event :=
  if multi then [.body (fileserv.sendStart filesize start stop) none] else []

/-- One range: what is sent, and the stream and the buffer after it. -/
def sendRange (path : Path) (multi : Bool) (filesize : Nat) (range : Nat × Nat) (stream : Stream)
    (buffer : Bytes) : List Event × Stream × Bytes :=
  let remaining := rangeLength range
  let bufferLength := min fileserv.chunkSize remaining
  let buffer := if buffer.length = bufferLength then buffer else List.replicate bufferLength 0
  let sent := sendChunks fileserv.chunkSize remaining remaining (stream.seek range.1) buffer
  (fileserv.startOf multi filesize range.1 range.2 ++ sent.1.map (Event.body · (some path)),
    sent.2)

/-- The loop over the ranges. -/
def sendRanges (path : Path) (multi : Bool) (filesize : Nat) :
    List (Nat × Nat) → Stream → Bytes → List Event × Stream
  | [], stream, _ => ([], stream)
  | range :: ranges, stream, buffer =>
    let sent := fileserv.sendRange path multi filesize range stream buffer
    let rest := sendRanges path multi filesize ranges sent.2.1 sent.2.2
    (sent.1 ++ rest.1, rest.2)

/-- What follows the ranges if a suffix was asked for. -/
def sendSuffix (path : Path) (multi : Bool) (filesize suffixLength : Nat) (stream : Stream) :
    List Event :=
  if suffixLength ≠ 0 then
    let sent := sendChunks fileserv.chunkSize suffixLength suffixLength
      (stream.seek (filesize - suffixLength))
      (List.replicate (min fileserv.chunkSize suffixLength) 0)
    fileserv.startOf multi filesize (filesize - suffixLength) (filesize - 1) ++
      sent.1.map (Event.body · (some path))
  else []

/-- What `serveRange` writes, for ranges that are sorted. -/
def rangeEvents (path : Path) (file : File) (ranges : List (Nat × Nat)) (suffixLength : Nat) :
    List Event :=
  let multi : Bool := 1 < ranges.length
  let sent :=
    fileserv.sendRanges path multi file.content.length ranges { content := file.content } []
  .head (fileserv.rangeResponse file ranges suffixLength) :: (sent.1 ++
    fileserv.sendSuffix path multi file.content.length suffixLength sent.2 ++
    if multi then [.body fileserv.boundary none, .body (ascii "--") none] else [])

/-- The part of `serveRange` behind `request.valid(filesize)`. -/
def serveRanges (path : Path) (file : File) (ranges : List (Nat × Nat)) (suffixLength : Nat) :
    Run Unit :=
  -- `stream.open` throws: what asks whether the stream is open is never asked
  if !file.readable then throwing .other
  else if ranges.isEmpty then
    Trace.emit (.opened path) >>= fun _ => Trace.lift (.error .aborted)
  else Trace.emitAll (.opened path :: fileserv.rangeEvents path file ranges suffixLength)

/-- `Fileserv::serveRange` -/
def serveRange (request : Request) (path : Path) : Run Unit :=
  match fileserv.fs.regularFile path with
  | none => throwing .other
  | some file =>
    let ranges := fileserv.sort request.ranges
    if file.content.length < request.suffixLength ||
        !validSorted file.content.length request.suffixLength ranges then send400
    else fileserv.serveRanges path file ranges request.suffixLength

/-- `Fileserv::serveFull` -/
def serveFull (path : Path) : Run Unit :=
  match fileserv.fs.regularFile path with
  | none => throwing .other
  | some file =>
    if !file.readable then throwing .other
    else
      let remaining := file.content.length
      let response := (({ code := 200, content := [], mime := getMIME path.extension } : Response)
        |>.set (ascii "last-modified") file.writeTimeText
        |>.set (ascii "accept-ranges") (ascii "bytes")
        |>.set (ascii "content-length") (decimalText remaining))
      let sent := sendChunks fileserv.chunkSize remaining remaining
        { content := file.content } (List.replicate (min fileserv.chunkSize remaining) 0)
      Trace.emitAll (.opened path :: .head response :: sent.1.map (Event.body · (some path)))

end Fileserv

/-- A file of eleven bytes in `/srv`. -/
def elevenBytes : FileSystem File :=
  .ofFile { content := ascii "hello world" } [ascii "srv", ascii "f"] (by decide) (by decide)

/-- A server of `/srv` without options. -/
def srvOptions : ServerOptions where
  webRoot := getWebRoot Path.root (ascii "/srv")
  options := .object []
  configs := fun _ => none

end Algiz.Plugins
