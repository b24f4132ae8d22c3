/-
  `HTTP::Request`: the parser of requests, one line or one piece of a body at a time.

  A `Request` is one object for the whole connection. `handleLine` goes on from whatever the
  object holds, and an exception leaves what was assigned before it. What it does to the client
  on the way (`maxRead`, `keepAlive`) is part of its result.
-/
import Mathlib
import Algiz.Lib.Lines
import Algiz.Util

namespace Algiz.HTTP

open Algiz.Lib

/-- `std::map<std::string, std::string>` -/
abbrev StringMap := Std.ExtTreeMap Bytes Bytes

/-- `Request::Mode` -/
inductive Mode where
  | method | headers | content
  deriving DecidableEq

/-- `Request::Method` -/
inductive Method where
  | invalid | GET | HEAD | PUT | POST
  deriving DecidableEq

/-- `int(request.method)` -/
def Method.toNat : Method → Nat
  | .invalid => 0
  | .GET => 1
  | .HEAD => 2
  | .PUT => 3
  | .POST => 4

/-- The method of a name. -/
def Method.ofName (name : Bytes) : Option Method :=
  if name = ascii "GET" then some .GET
  else if name = ascii "HEAD" then some .HEAD
  else if name = ascii "PUT" then some .PUT
  else if name = ascii "POST" then some .POST
  else none

/-- `Request::HandleResult` -/
inductive HandleResult where
  | continue | disableLineMode | done
  deriving DecidableEq

/-- `HTTP::Request` -/
structure Request where
  mode : Mode := .method
  contentLength : Nat := 0
  lengthRemaining : Nat := 0
  method : Method := .invalid
  path : Bytes := []
  version : Bytes := []
  content : Bytes := []
  headers : StringMap := ∅
  parameters : StringMap := ∅
  postParameters : StringMap := ∅
  ranges : List (Nat × Nat) := []
  suffixLength : Nat := 0

/-- What the parser asks of the rest of the program. -/
structure Options where
  /-- what uninitialized reads find -/
  ind : Indeterminate := {}
  /-- `server.getOption<size_t>(path, "postMax")` -/
  postMax : Bytes → Except Exception (Option Nat) := fun _ => .ok none

/-- `POST_MAX` -/
def POST_MAX : Nat := 2 ^ 24

/-- What `handleLine` leaves: the request, the assignments to `client.maxRead` and
    `client.keepAlive`, and what it returns or throws. -/
structure Handled where
  request : Request
  maxRead : Option Nat := none
  keepAlive : Option Bool := none
  result : Except Exception HandleResult := .ok .continue

/-! ## Parts of a request -/

/-- `Request::getPath` -/
def getPath (path : Bytes) : Bytes :=
  match find path 63 with
  | none => path
  | some i => path.take i

/-- `add_parameter` -/
def addParameter (ind : Indeterminate) (parameters : StringMap) (pair : Bytes) : StringMap :=
  if pair.isEmpty then parameters
  else match find pair 61 with
    | none => parameters.insert (unescape ind pair true) []
    | some equals => parameters.insert (unescape ind (pair.take equals) true)
        (unescape ind (pair.drop (equals + 1)) true)

/-- The parameters of a string of pairs: each piece between ampersands is added. -/
def pairParameters (ind : Indeterminate) (pairs : Bytes) : StringMap :=
  (lines 38 pairs ++ [unfinished 38 pairs]).foldl (addParameter ind) ∅

/-- `Request::getParameters` -/
def getParameters (ind : Indeterminate) (path : Bytes) (chopQuestionMark : Bool) : StringMap :=
  if chopQuestionMark then
    match find path 63 with
    | none => ∅
    | some questionMark => pairParameters ind (path.drop (questionMark + 1))
  else pairParameters ind path

namespace Request

/-- One range of a `Range` header: a suffix, or a start and an end. -/
inductive RangeItem where
  | suffix (length : Nat)
  | range (start stop : Nat)

/-- What a piece of a `Range` header says. -/
def rangeItem (ind : Indeterminate) (piece : Bytes) : Except Exception RangeItem :=
  match find piece 45 with
  | some 0 =>
    if piece.length = 1 then .error (.parseError (ascii "parseRange: invalid range"))
    else (parseUlong ind (piece.drop 1)).map .suffix
  | none =>
    -- `npos + 1` is 0, and `piece.size() - 1` is not `npos`: the piece is read twice
    match parseUlong ind piece with
    | .error e => .error e
    | .ok start => (parseUlong ind piece).map (.range start)
  | some hyphen =>
    match parseUlong ind (piece.take hyphen) with
    | .error e => .error e
    | .ok start =>
      if hyphen ≠ piece.length - 1 then
        (parseUlong ind (piece.drop (hyphen + 1))).map (.range start)
      else .ok (.range start (2 ^ 64 - 1))

def RangeItem.assign (r : Request) : RangeItem → Request
  | suffix length => { r with suffixLength := length }
  | range start stop => { r with ranges := r.ranges ++ [(start, stop)] }

/-- `handle_piece` -/
def rangePiece (ind : Indeterminate) (piece : Bytes) (r : Request) : Request × Option Exception :=
  match rangeItem ind piece with
  | .error e => (r, some e)
  | .ok item => (item.assign r, none)

/-- `while (!content.empty())` -/
def rangeLoop (ind : Indeterminate) : Nat → Bytes → Request → Request × Option Exception
  | 0, _, r => (r, none)
  | fuel + 1, content, r =>
    if content.isEmpty then (r, none)
    else match findString (ascii ", ") content with
      | none => rangePiece ind content r
      | some separator =>
        match rangePiece ind (content.take separator) r with
        | (r, some e) => (r, some e)
        | (r, none) => rangeLoop ind fuel (content.drop (separator + 2)) r

/-- `catch (const std::invalid_argument &)` -/
def rangeError : Option Exception → Option Exception
  | some (.invalidArgument _) => some (.parseError (ascii "parseRange: number parsing failed"))
  | e => e

/-- `Request::parseRange`. `suffixLength` is not reset. -/
def parseRange (ind : Indeterminate) (content : Bytes) (r : Request) :
    Request × Option Exception :=
  if content.take 6 ≠ ascii "bytes=" then
    (r, some (.parseError (ascii "parseRange: invalid unit")))
  else
    let o := rangeLoop ind content.length (content.drop 6) { r with ranges := [] }
    (o.1, rangeError o.2)

/-- A range changes `ranges` or `suffixLength` only, and goes by these alone. -/
theorem RangeItem.assign_eq (item : RangeItem) {r r' : Request} (hranges : r.ranges = r'.ranges)
    (hsuffix : r.suffixLength = r'.suffixLength) :
    item.assign r = { r with
      ranges := (item.assign r').ranges
      suffixLength := (item.assign r').suffixLength } := by
  cases item with
  | suffix length => simp [assign, ← hranges]
  | range start stop => simp [assign, ← hranges, ← hsuffix]

/-- Whether ranges are accepted does not depend on the request. -/
theorem rangeLoop_error (ind : Indeterminate) (fuel : Nat) (content : Bytes) (r r' : Request) :
    (rangeLoop ind fuel content r).2 = (rangeLoop ind fuel content r').2 := by
  induction fuel generalizing content r r' with
  | zero => rfl
  | succ fuel ih =>
    unfold rangeLoop rangePiece
    split
    · rfl
    · split
      · cases rangeItem ind content <;> rfl
      · rename_i separator _
        cases rangeItem ind (content.take separator) with
        | error e => rfl
        | ok item => exact ih _ (item.assign r) (item.assign r')

theorem rangeLoop_eq (ind : Indeterminate) (fuel : Nat) (content : Bytes) {r r' : Request}
    (hranges : r.ranges = r'.ranges) (hsuffix : r.suffixLength = r'.suffixLength) :
    (rangeLoop ind fuel content r).1 = { r with
      ranges := (rangeLoop ind fuel content r').1.ranges
      suffixLength := (rangeLoop ind fuel content r').1.suffixLength } := by
  induction fuel generalizing content r r' with
  | zero => simp [rangeLoop, ← hranges, ← hsuffix]
  | succ fuel ih =>
    unfold rangeLoop rangePiece
    split
    · simp [← hranges, ← hsuffix]
    · split
      · cases rangeItem ind content with
        | error e => simp [← hranges, ← hsuffix]
        | ok item => exact item.assign_eq hranges hsuffix
      · rename_i separator _
        cases rangeItem ind (content.take separator) with
        | error e => simp [← hranges, ← hsuffix]
        | ok item =>
          have hitem := item.assign_eq hranges hsuffix
          have hnextRanges : (item.assign r).ranges = (item.assign r').ranges :=
            by rw [hitem]
          have hnextSuffix : (item.assign r).suffixLength = (item.assign r').suffixLength :=
            by rw [hitem]
          dsimp only
          rw [ih _ hnextRanges hnextSuffix, hitem]

/-- `parseRange` accepts the same values for every request. -/
theorem parseRange_error (ind : Indeterminate) (content : Bytes) (r r' : Request) :
    (parseRange ind content r).2 = (parseRange ind content r').2 := by
  unfold parseRange
  split
  · rfl
  · exact congrArg rangeError (rangeLoop_error ind _ _ _ _)

/-- `parseRange` assigns `ranges` and `suffixLength` only. -/
theorem parseRange_eq (ind : Indeterminate) (content : Bytes) {r r' : Request}
    (hranges : r.ranges = r'.ranges) (hsuffix : r.suffixLength = r'.suffixLength) :
    (parseRange ind content r).1 = { r with
      ranges := (parseRange ind content r').1.ranges
      suffixLength := (parseRange ind content r').1.suffixLength } := by
  unfold parseRange
  split
  · simp [← hranges, ← hsuffix]
  · have hcleared : ({ r with ranges := [] } : Request).ranges =
        ({ r' with ranges := [] } : Request).ranges := rfl
    exact rangeLoop_eq ind _ _ hcleared hsuffix

/-- The type under which `absorbPOST` takes a body for parameters. -/
def formType : Bytes := ascii "application/x-www-form-urlencoded"

/-- `Request::absorbPOST` -/
def absorbPOST (ind : Indeterminate) (r : Request) : Request :=
  match r.headers[ascii "content-type"]? with
  | some contentType =>
    if contentType ≠ formType then r
    else { r with postParameters := getParameters ind r.content false, content := [] }
  | none => { r with postParameters := getParameters ind r.content false, content := [] }

/-! ## `handleLine` -/

/-- A line without the newline and the carriage return at its end. -/
def stripLine (line : Bytes) : Bytes :=
  let line := if line.getLast? = some newline then line.dropLast else line
  if line.getLast? = some carriageReturn then line.dropLast else line

/-- `case Mode::Method` -/
def methodLine (opts : Options) (line : Bytes) (r : Request) : Handled :=
  match find line 32 with
  | none =>
    ⟨r, none, none, .error (.parseError (ascii "Bad method line: can't determine method"))⟩
  | some firstSpace =>
    match Method.ofName (line.take firstSpace) with
    | none => ⟨r, none, none, .error (.unsupportedMethod (line.take firstSpace))⟩
    | some method =>
      let r := { r with method := method }
      let line := line.drop (firstSpace + 1)
      match find line 32 with
      | none =>
        ⟨r, none, none, .error (.parseError (ascii "Bad method line: can't determine path"))⟩
      | some nextSpace =>
        let fullPath := line.take nextSpace
        let r := { r with
          path := getPath fullPath
          parameters := getParameters opts.ind fullPath true
          version := line.drop (nextSpace + 1) }
        if r.version ≠ ascii "HTTP/1.1" ∧ r.version ≠ ascii "HTTP/1.0" then
          ⟨r, none, none, .error (.parseError (ascii "Invalid HTTP version: " ++ r.version))⟩
        else { request := { r with mode := .headers } }

/-- The header in the map: what comes again is joined with a space. -/
def addHeader (headers : StringMap) (name content : Bytes) : StringMap :=
  match headers[name]? with
  | none => headers.insert name content
  | some before =>
    if before.isEmpty then headers.insert name content
    else headers.insert name (before ++ ascii " " ++ content)

/-- The check of a POST's length: what is thrown, if anything. -/
def checkLength (opts : Options) (r : Request) : Option Exception :=
  if r.method = .POST then
    match opts.postMax r.path with
    | .error e => some e
    | .ok postMax =>
      if postMax.getD POST_MAX < r.lengthRemaining then
        some (.parseError (ascii "POST length too long: " ++ decimalText r.lengthRemaining))
      else none
  else none

/-- `catch (const std::invalid_argument &err) { throw ParseError(err.what()); }` -/
def invalidIsParseError : Exception → Exception
  | .invalidArgument what => .parseError what
  | e => e

/-- A `Content-Length` header. -/
def contentLengthHeader (opts : Options) (content : Bytes) (r : Request) : Handled :=
  match parseUlong opts.ind content with
  | .error e => ⟨r, none, none, .error (invalidIsParseError e)⟩
  | .ok n =>
    let r := { r with contentLength := n, lengthRemaining := n }
    match checkLength opts r with
    | some e => ⟨r, none, none, .error (invalidIsParseError e)⟩
    | none => { request := r }

/-- `case Mode::Headers`. The names `Content-Length`, `Range` and `Connection` are compared as
    they are spelled. -/
def headerLine (opts : Options) (line : Bytes) (r : Request) : Handled :=
  match findString (ascii ": ") line with
  | none => ⟨r, none, none, .error (.parseError (ascii "Invalid HTTP header: no separator"))⟩
  | some separator =>
    let name := line.take separator
    let content := line.drop (separator + 2)
    let r := { r with headers := addHeader r.headers (toLower name) content }
    if name = ascii "Content-Length" then contentLengthHeader opts content r
    else if name = ascii "Range" then
      match parseRange opts.ind content r with
      | (r, some e) => ⟨r, none, none, .error e⟩
      | (r, none) => { request := r }
    else if name = ascii "Connection" then
      { request := r, keepAlive := some (decide (content ≠ ascii "close")) }
    else { request := r }

/-- The end of a body: `absorbPOST` if it is a POST's, and `Mode::Method` again. -/
def finishContent (ind : Indeterminate) (r : Request) : Request :=
  let r := if r.method = .POST then r.absorbPOST ind else r
  { r with mode := .method }

/-- The first half of `case Mode::Content`: a piece that is at least as long as what is missing.
    Of a longer one, what goes into the content is the part behind that length. -/
def lastPiece (line : Bytes) (r : Request) : Request :=
  if r.lengthRemaining < line.length then
    { r with content := r.content ++ line.drop r.lengthRemaining, lengthRemaining := 0 }
  else if r.lengthRemaining = line.length then
    { r with content := r.content ++ line, lengthRemaining := 0 }
  else r

/-- `case Mode::Content` -/
def contentPiece (opts : Options) (line : Bytes) (r : Request) : Handled :=
  let r := r.lastPiece line
  if r.lengthRemaining = 0 then
    { request := r.finishContent opts.ind, result := .ok .done }
  else
    { request := { r with
        content := r.content ++ line
        lengthRemaining := r.lengthRemaining - line.length } }

/-- The blank line after the headers. -/
def blankLine (r : Request) : Handled :=
  let r := { r with mode := .content }
  if r.headers.contains (ascii "content-length") then
    { request := r, maxRead := some r.contentLength, result := .ok .disableLineMode }
  else { request := r, result := .ok .done }

/-- `Request::handleLine` -/
def handleLine (opts : Options) (line : Bytes) (r : Request) : Handled :=
  match r.mode with
  | .method => r.methodLine opts (stripLine line)
  | .headers =>
    let line := stripLine line
    if line.isEmpty then r.blankLine else r.headerLine opts line
  | .content => r.contentPiece opts line

end Request

end Algiz.HTTP
