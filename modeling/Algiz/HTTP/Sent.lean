/-
  A request as a client sends it, and the parser on its head.

  `Sent.text` is the request's bytes, `Sent.data` what its `Request` object should hold when
  `handleRequest` is called for it. Both follow the request alone. What the parser makes of the
  head is `Sent.parsed` (`handleLine_methodText`, `handleLine_headerText`); it differs from the
  request in what `handleLine` reads off headers by the spelling of their names, that is in the
  length of the body and in the ranges.
-/
import Algiz.HTTP.Server
import Algiz.HTTP.Head

namespace Algiz.HTTP

/-- A request as it is sent. -/
structure Sent where
  method : Method
  target : Bytes
  version : Bytes
  headers : List (Bytes × Bytes)
  body : Option Bytes

/-- What a `Request` says of a request: all of it but the parser's own state. -/
structure RequestData where
  method : Method
  path : Bytes
  version : Bytes
  parameters : StringMap
  headers : StringMap
  ranges : List (Nat × Nat)
  suffixLength : Nat
  content : Bytes
  postParameters : StringMap

def Request.data (q : Request) : RequestData where
  method := q.method
  path := q.path
  version := q.version
  parameters := q.parameters
  headers := q.headers
  ranges := q.ranges
  suffixLength := q.suffixLength
  content := q.content
  postParameters := q.postParameters

namespace Sent

variable (opts : Options) (r : Sent)

/-! ## The bytes of a request -/

/-- The method line, with the carriage return that stands before its newline. -/
def methodText : Bytes :=
  r.method.name ++ ascii " " ++ r.target ++ ascii " " ++ r.version ++ [carriageReturn]

/-- The line of a header. -/
def headerText (header : Bytes × Bytes) : Bytes :=
  header.1 ++ ascii ": " ++ header.2 ++ [carriageReturn]

/-- The lines of a head, the blank one at its end included. -/
def head : List Bytes := r.methodText :: r.headers.map headerText ++ [[carriageReturn]]

/-- Lines as they are sent. -/
def lineTexts (lines : List Bytes) : Bytes := (lines.map (· ++ [newline])).flatten

/-- The bytes of a request. -/
def text : Bytes := lineTexts r.head ++ r.body.getD []

/-! ## What it says -/

/-- The headers of this name, in any case. -/
def headersNamed (name : Bytes) : List (Bytes × Bytes) :=
  r.headers.filter fun header => toLower header.1 = name

/-- The headers as they are kept: by their name in lower case, those of one name joined. -/
def headerMap : StringMap :=
  r.headers.foldl (fun headers header => Request.addHeader headers (toLower header.1) header.2) ∅

/-- The ranges and the suffix length that a `Range` header asks for. -/
def rangesOf (value : Bytes) : List (Nat × Nat) × Nat :=
  let q := (({} : Request).parseRange opts.ind value).1
  (q.ranges, q.suffixLength)

/-- The ranges and the suffix length of the request. -/
def ranges : List (Nat × Nat) × Nat :=
  match r.headersNamed (ascii "range") with
  | [] => ([], 0)
  | header :: _ => rangesOf opts header.2

/-- Is the body a form? It is then taken for parameters. -/
def isForm : Bool :=
  r.method = .POST &&
    (match r.headerMap[ascii "content-type"]? with
      | some contentType => contentType == Request.formType
      | none => true)

/-- What its `Request` object should hold. -/
def data : RequestData where
  method := r.method
  path := getPath r.target
  version := r.version
  parameters := getParameters opts.ind r.target true
  headers := r.headerMap
  ranges := (r.ranges opts).1
  suffixLength := (r.ranges opts).2
  content := if r.isForm then [] else r.body.getD []
  postParameters := if r.isForm then getParameters opts.ind (r.body.getD []) false else ∅

/-- A number in digits. -/
def Writes (value : Bytes) (n : Nat) : Prop :=
  value ≠ [] ∧ (∀ b ∈ value, isDigit b = true) ∧ decimal value = n

/-- The request is well formed: one that the server serves, and that asks for no WebSocket. -/
structure WellFormed : Prop where
  method : r.method = .GET ∨ r.method = .POST
  targetSlash : r.target.head? = some 47
  target : ∀ b ∈ r.target, b ≠ 32 ∧ b ≠ newline
  version : r.version = ascii "HTTP/1.1" ∨ r.version = ascii "HTTP/1.0"
  names : ∀ header ∈ r.headers, ∀ b ∈ header.1, b ≠ 58 ∧ b ≠ 32 ∧ b ≠ newline
  values : ∀ header ∈ r.headers, newline ∉ header.2
  /-- a body comes with its length in one `Content-Length` header -/
  length : match r.body with
    | none => r.headersNamed (ascii "content-length") = []
    | some body => ∃ name value, r.headersNamed (ascii "content-length") = [(name, value)] ∧
        Writes value body.length ∧ body.length < 2 ^ 64
  /-- a `Range` header comes at most once, and is one -/
  range : r.headersNamed (ascii "range") = [] ∨ ∃ header,
    r.headersNamed (ascii "range") = [header] ∧
      (({} : Request).parseRange opts.ind header.2).2 = none
  /-- the body of a POST is not longer than the server allows -/
  postMax : r.method = .POST → ∀ body, r.body = some body → ∃ limit,
    opts.postMax (getPath r.target) = .ok limit ∧ body.length ≤ limit.getD POST_MAX
  noUpgrade : Server.asksForWebSocket { headers := r.headerMap } = false

/-! ## What the parser makes of the head -/

/-- The request after its method line. -/
def afterMethod : Request where
  mode := .headers
  method := r.method
  path := getPath r.target
  version := r.version
  parameters := getParameters opts.ind r.target true

/-- A `Range` header, with the ranges and the suffix length before it. -/
def rangesAfter (before : List (Nat × Nat) × Nat) (value : Bytes) : List (Nat × Nat) × Nat :=
  let q := (({ ranges := before.1, suffixLength := before.2 } : Request).parseRange
    opts.ind value).1
  (q.ranges, q.suffixLength)

/-- The length the parser reads: the headers count that are spelled so. -/
def lengthRead (headers : List (Bytes × Bytes)) (before : Nat) : Nat :=
  headers.foldl (fun n header =>
    if header.1 = ascii "Content-Length" then decimal header.2 else n) before

/-- The ranges the parser reads. -/
def rangesRead (headers : List (Bytes × Bytes)) (before : List (Nat × Nat) × Nat) :
    List (Nat × Nat) × Nat :=
  headers.foldl (fun ranges header =>
    if header.1 = ascii "Range" then rangesAfter opts ranges header.2 else ranges) before

/-- A request after these headers. -/
def afterHeaders (q : Request) (headers : List (Bytes × Bytes)) : Request :=
  { q with
    headers := headers.foldl (fun map header =>
      Request.addHeader map (toLower header.1) header.2) q.headers
    contentLength := lengthRead headers q.contentLength
    lengthRemaining := lengthRead headers q.lengthRemaining
    ranges := (rangesRead opts headers (q.ranges, q.suffixLength)).1
    suffixLength := (rangesRead opts headers (q.ranges, q.suffixLength)).2 }

/-- The request after its headers. -/
def parsed : Request := afterHeaders opts (r.afterMethod opts) r.headers

/-- The request after the blank line. -/
def received : Request := { r.parsed opts with mode := .content }

theorem stripLine_cr (line : Bytes) : Request.stripLine (line ++ [carriageReturn]) = line := by
  have hcr : (some carriageReturn : Option UInt8) ≠ some newline := by decide
  unfold Request.stripLine
  dsimp only
  rw [List.getLast?_concat, if_neg hcr, List.getLast?_concat, if_pos rfl, List.dropLast_concat]

theorem separator_not_mem {name : Bytes} (h : 58 ∉ name) : ¬ ascii ": " <:+: name :=
  fun hin => h (hin.subset List.mem_cons_self)

/-- A header is among those of its name. -/
theorem mem_headersNamed {r : Sent} {header : Bytes × Bytes} (hmem : header ∈ r.headers)
    {name : Bytes} (hname : toLower header.1 = name) : header ∈ r.headersNamed name := by
  unfold headersNamed
  rw [List.mem_filter]
  exact ⟨hmem, decide_eq_true hname⟩

section Head

variable {opts r} (h : r.WellFormed opts)
include h

theorem WellFormed.ne_invalid : r.method ≠ .invalid := by
  rcases h.method with hm | hm
  · rw [hm]
    decide
  · rw [hm]
    decide

/-- The method line of a well-formed request. -/
theorem handleLine_methodText :
    Request.handleLine opts r.methodText {} = { request := r.afterMethod opts } := by
  have hline : Request.stripLine r.methodText = HTTP.methodText r.method r.target r.version :=
    stripLine_cr _
  have htarget : 32 ∉ r.target := fun hmem => (h.target 32 hmem).1 rfl
  show Request.methodLine opts (Request.stripLine r.methodText) {} = _
  rw [hline, methodLine_methodText opts h.ne_invalid htarget h.version]
  rfl

/-- A header that is spelled `Content-Length` is read, and allowed. -/
theorem contentLengthHeader_eq {header : Bytes × Bytes} (hmem : header ∈ r.headers)
    (hname : header.1 = ascii "Content-Length") {q : Request} (hmethod : q.method = r.method)
    (hpath : q.path = getPath r.target) :
    q.contentLengthHeader opts header.2 = { request := { q with
      contentLength := decimal header.2, lengthRemaining := decimal header.2 } } := by
  have hnamed := mem_headersNamed hmem (by rw [hname]; decide : _ = ascii "content-length")
  have hlength := h.length
  cases hbody : r.body with
  | none =>
    rw [hbody] at hlength
    rw [hlength] at hnamed
    exact absurd hnamed List.not_mem_nil
  | some body =>
    rw [hbody] at hlength
    obtain ⟨name, value, hone, ⟨hne, hdigits, hvalue⟩, hsize⟩ := hlength
    rw [hone, List.mem_singleton] at hnamed
    subst hnamed
    have hparse : parseUlong opts.ind value = .ok (decimal value) :=
      parseUlong_digits opts.ind hne hdigits (by rw [hvalue]; exact hsize)
    have hcheck : Request.checkLength opts { q with
        contentLength := decimal value, lengthRemaining := decimal value } = none := by
      unfold Request.checkLength
      dsimp only
      split
      · rename_i hpost
        obtain ⟨limit, hlimit, hle⟩ := h.postMax (hmethod ▸ hpost) body hbody
        rw [hpath, hlimit]
        dsimp only
        rw [if_neg (by omega)]
      · rfl
    unfold Request.contentLengthHeader
    dsimp only
    rw [hparse]
    dsimp only
    rw [hcheck]

/-- A header that is spelled `Range` is accepted, whatever the request. -/
theorem rangeHeader_accepted {header : Bytes × Bytes} (hmem : header ∈ r.headers)
    (hname : header.1 = ascii "Range") (q : Request) :
    (q.parseRange opts.ind header.2).2 = none := by
  have hnamed := mem_headersNamed hmem (by rw [hname]; decide : _ = ascii "range")
  rcases h.range with hnone | ⟨only, hone, haccepted⟩
  · rw [hnone] at hnamed
    exact absurd hnamed List.not_mem_nil
  · rw [hone, List.mem_singleton] at hnamed
    rw [hnamed, Request.parseRange_error opts.ind only.2 q {}, haccepted]

/-- A line of a header of a well-formed request. -/
theorem handleLine_headerText {header : Bytes × Bytes} (hmem : header ∈ r.headers) {q : Request}
    (hmode : q.mode = .headers) (hmethod : q.method = r.method)
    (hpath : q.path = getPath r.target) :
    ∃ keepAlive, Request.handleLine opts (headerText header) q =
      { request := afterHeaders opts q [header], keepAlive := keepAlive } := by
  have hname : 58 ∉ header.1 := fun hmem' => (h.names header hmem 58 hmem').1 rfl
  have hline : Request.stripLine (headerText header) = Request.headerText header.1 header.2 :=
    stripLine_cr _
  rw [Request.handleLine_headerText opts hmode (separator_not_mem hname) hline]
  unfold Request.header
  unfold afterHeaders lengthRead rangesRead
  simp only [List.foldl_cons, List.foldl_nil]
  by_cases hlength : header.1 = ascii "Content-Length"
  · have hrange : header.1 ≠ ascii "Range" := by
      rw [hlength]
      decide
    refine ⟨none, ?_⟩
    rw [if_pos hlength, if_pos hlength, if_pos hlength, if_neg hrange]
    exact contentLengthHeader_eq h hmem hlength
      (q := { q with headers := Request.addHeader q.headers (toLower header.1) header.2 })
      hmethod hpath
  · rw [if_neg hlength, if_neg hlength, if_neg hlength]
    by_cases hrange : header.1 = ascii "Range"
    · have hranges :
          ({ q with headers := Request.addHeader q.headers (toLower header.1) header.2 } :
            Request).ranges = ({ ranges := q.ranges, suffixLength := q.suffixLength } :
              Request).ranges := rfl
      have hassigned := Request.parseRange_eq opts.ind header.2 hranges rfl
      have hpair : Request.parseRange opts.ind header.2 { q with
          headers := Request.addHeader q.headers (toLower header.1) header.2 } = (_, none) :=
        Prod.ext hassigned (rangeHeader_accepted h hmem hrange _)
      refine ⟨none, ?_⟩
      rw [if_pos hrange, if_pos hrange, hpair]
      rfl
    · rw [if_neg hrange, if_neg hrange]
      split
      · exact ⟨_, rfl⟩
      · exact ⟨none, rfl⟩

end Head

/-! ## Names that are spelled otherwise -/

/-- The `Content-Length` header is spelled so. -/
def LengthSpelled : Prop :=
  ∀ header ∈ r.headersNamed (ascii "content-length"), header.1 = ascii "Content-Length"

/-- The `Range` header is spelled so, or it asks for nothing. -/
def RangeSpelled : Prop :=
  ∀ header ∈ r.headersNamed (ascii "range"),
    header.1 = ascii "Range" ∨ rangesOf opts header.2 = ([], 0)

/-- Only the headers of the name are read for the length. -/
theorem lengthRead_eq_headersNamed (n : Nat) :
    lengthRead r.headers n = lengthRead (r.headersNamed (ascii "content-length")) n := by
  unfold lengthRead headersNamed
  rw [List.foldl_filter]
  refine congrArg (fun f => r.headers.foldl f n) ?_
  funext m header
  by_cases hname : header.1 = ascii "Content-Length"
  · have hlower : toLower header.1 = ascii "content-length" := by
      rw [hname]
      decide
    rw [if_pos hname, decide_eq_true hlower, if_pos rfl]
  · rw [if_neg hname]
    split <;> rfl

theorem rangesRead_eq_headersNamed (before : List (Nat × Nat) × Nat) :
    rangesRead opts r.headers before = rangesRead opts (r.headersNamed (ascii "range")) before := by
  unfold rangesRead headersNamed
  rw [List.foldl_filter]
  refine congrArg (fun f => r.headers.foldl f before) ?_
  funext ranges header
  by_cases hname : header.1 = ascii "Range"
  · have hlower : toLower header.1 = ascii "range" := by
      rw [hname]
      decide
    rw [if_pos hname, decide_eq_true hlower, if_pos rfl]
  · rw [if_neg hname]
    split <;> rfl

theorem contains_headerMap (key : Bytes) :
    r.headerMap.contains key = decide (r.headersNamed key ≠ []) := by
  unfold headerMap headersNamed
  suffices ∀ map : StringMap, (r.headers.foldl (fun headers header =>
      Request.addHeader headers (toLower header.1) header.2) map).contains key =
      (map.contains key || decide ((r.headers.filter fun header => toLower header.1 = key) ≠ [])) by
    rw [this ∅]
    simp
  induction r.headers with
  | nil => simp
  | cons header headers ih =>
    intro map
    rw [List.foldl_cons, ih, contains_addHeader, List.filter_cons]
    by_cases hname : toLower header.1 = key
    · simp [hname]
    · have hout : ¬ decide (toLower header.1 = key) = true := by rwa [decide_eq_true_iff]
      rw [if_neg hout, decide_eq_false hname, Bool.false_or]

section Read

variable {opts r} (h : r.WellFormed opts)
include h

/-- A request has a `Content-Length` header exactly when it has a body. -/
theorem contains_contentLength :
    r.headerMap.contains (ascii "content-length") = r.body.isSome := by
  have hlength := h.length
  rw [contains_headerMap]
  cases hbody : r.body with
  | none =>
    rw [hbody] at hlength
    rw [hlength]
    rfl
  | some body =>
    rw [hbody] at hlength
    obtain ⟨name, value, hone, -⟩ := hlength
    rw [hone]
    rfl

/-- Without a body no length is read. -/
theorem lengthRead_of_none (hbody : r.body = none) : lengthRead r.headers 0 = 0 := by
  have hlength := h.length
  rw [hbody] at hlength
  rw [lengthRead_eq_headersNamed, hlength]
  rfl

/-- The length of a body is read if its header is spelled as expected. -/
theorem lengthRead_of_some {body : Bytes} (hbody : r.body = some body) :
    (r.LengthSpelled ∧ lengthRead r.headers 0 = body.length) ∨
      (¬ r.LengthSpelled ∧ lengthRead r.headers 0 = 0) := by
  have hlength := h.length
  rw [hbody] at hlength
  obtain ⟨name, value, hone, ⟨-, -, hvalue⟩, -⟩ := hlength
  rw [lengthRead_eq_headersNamed, LengthSpelled, hone, List.forall_mem_singleton]
  by_cases hname : name = ascii "Content-Length"
  · exact .inl ⟨hname, (if_pos hname).trans hvalue⟩
  · exact .inr ⟨hname, if_neg hname⟩

/-- The ranges read are those of the request exactly when their header is spelled as
    expected. -/
theorem rangesRead_eq_iff :
    rangesRead opts r.headers ([], 0) = r.ranges opts ↔ r.RangeSpelled opts := by
  rw [rangesRead_eq_headersNamed, RangeSpelled, ranges]
  rcases h.range with hnone | ⟨header, hone, -⟩
  · rw [hnone]
    exact ⟨fun _ _ hmem => absurd hmem List.not_mem_nil, fun _ => rfl⟩
  · rw [hone, List.forall_mem_singleton]
    show (if header.1 = ascii "Range" then rangesOf opts header.2 else ([], 0)) =
      rangesOf opts header.2 ↔ _
    by_cases hname : header.1 = ascii "Range"
    · rw [if_pos hname]
      exact ⟨fun _ => .inl hname, fun _ => rfl⟩
    · rw [if_neg hname]
      exact ⟨fun heq => .inr heq.symm, fun hor => (hor.resolve_left hname).symm⟩

end Read

end Sent

end Algiz.HTTP
