/-
  Requests one after another on a connection.

  A sequence of requests is served (`Serves`) when for every way of delivering it each request is
  handled once, with what it says, and none is rejected.

  The parser is not set back after a request: without a body it stays in `Mode::Content`, and
  takes the next request's first line for content; after a body the client stays in raw mode. So no
  second request of a connection is served, and a single one exactly when its body, if it has one,
  is not empty and is announced as the parser spells it (`serves_iff`).
-/
import Algiz.HTTP.Exchange
import Algiz.HTTP.Sent
import Algiz.HTTP.Body

namespace Algiz.HTTP

variable {σ : Type*}

/-- The requests as they are sent on a connection. -/
def texts (requests : List Sent) : Bytes := (requests.map Sent.text).flatten

/-- However the requests are delivered on a new connection, each is handled once, with what it
    says, and none is rejected. -/
def Serves (server : Server σ) (requests : List Sent) : Prop :=
  ∀ plugins y, Delivers server { plugins := plugins } (texts requests) y →
    y.accepted = true ∧ y.handled.map Request.data = requests.map (Sent.data server.options)

/-- What the requests must be for the server to serve them. -/
def ServedAlone (opts : Options) : List Sent → Prop
  | [] => True
  | [r] => r.RangeSpelled opts ∧ ∀ body, r.body = some body →
      body ≠ [] ∧ (r.LengthSpelled ∨ body.length = 1)
  | _ :: _ :: _ => False

/-! ## Heads -/

section Head

variable {server : Server σ} {r : Sent} (h : r.WellFormed server.options)
include h

theorem newline_not_mem_methodText : newline ∉ r.methodText := by
  have hname : newline ∉ r.method.name := by
    rcases h.method with hmethod | hmethod
    · rw [hmethod]
      decide
    · rw [hmethod]
      decide
  have htarget : newline ∉ r.target := fun hmem => (h.target _ hmem).2 rfl
  have hversion : newline ∉ r.version := by
    rcases h.version with hversion | hversion
    · rw [hversion]
      decide
    · rw [hversion]
      decide
  have hspace : newline ∉ ascii " " := by decide
  have hcr : newline ≠ carriageReturn := by decide
  unfold Sent.methodText
  simp only [List.mem_append, List.mem_singleton, not_or]
  exact ⟨⟨⟨⟨⟨hname, hspace⟩, htarget⟩, hspace⟩, hversion⟩, hcr⟩

theorem newline_not_mem_headerText {header : Bytes × Bytes} (hmem : header ∈ r.headers) :
    newline ∉ Sent.headerText header := by
  have hname : newline ∉ header.1 := fun hnewline => (h.names header hmem _ hnewline).2.2 rfl
  have hsep : newline ∉ ascii ": " := by decide
  have hcr : newline ≠ carriageReturn := by decide
  unfold Sent.headerText
  simp only [List.mem_append, List.mem_singleton, not_or]
  exact ⟨⟨⟨hname, hsep⟩, h.values header hmem⟩, hcr⟩

/-- A request with the method, the path and the headers of `r` is passed on to the plugins. -/
theorem handed {q : Request} (hmethod : q.method = r.method) (hpath : q.path = getPath r.target)
    (hheaders : q.headers = r.headerMap) : Handed q := by
  refine ⟨?_, ?_, ?_⟩
  · rw [hmethod]
    exact h.method
  · rw [hpath]
    exact validatePath_getPath h.targetSlash
  · have hsame : Server.asksForWebSocket q =
        Server.asksForWebSocket { headers := r.headerMap } := by
      unfold Server.asksForWebSocket
      rw [hheaders]
    rw [hsame]
    exact h.noUpgrade

/-- The lines of some headers bring the request from one state to another. -/
theorem deliver_headers (headers : List (Bytes × Bytes))
    (hmem : ∀ header ∈ headers, header ∈ r.headers)
    {x : Exchange σ} {q : Request} {handled : List Request} (hx : At x true 0 q handled)
    (hmode : q.mode = .headers) (hmethod : q.method = r.method)
    (hpath : q.path = getPath r.target) :
    ∃ x', At x' true 0 (Sent.afterHeaders server.options q headers) handled ∧
      ∀ rest y, Delivers server x (Sent.lineTexts (headers.map Sent.headerText) ++ rest) y ↔
        Delivers server x' rest y := by
  induction headers generalizing x q with
  | nil => exact ⟨x, hx, fun _ _ => Iff.rfl⟩
  | cons header headers ih =>
    have hheader := hmem header List.mem_cons_self
    obtain ⟨keepAlive, hline⟩ := Sent.handleLine_headerText h hheader hmode hmethod hpath
    have hnext := hx.continue hline
    rw [Nat.zero_sub] at hnext
    obtain ⟨x', hx', hdelivers⟩ := ih
      (fun header hrest => hmem header (List.mem_cons_of_mem _ hrest)) hnext hmode hmethod hpath
    refine ⟨x', hx', fun rest y => ?_⟩
    rw [← hdelivers, ← Delivers.line_iff hx (newline_not_mem_headerText h hheader)]
    simp [Sent.lineTexts]

/-- After its head the request waits for its body, if it has one; otherwise it has been
    handled. -/
theorem deliver_head (hreplies : server.Replies) {x : Exchange σ} {handled : List Request}
    (hx : At x true 0 {} handled) :
    ∃ x', (∀ rest y, Delivers server x (Sent.lineTexts r.head ++ rest) y ↔
        Delivers server x' rest y) ∧
      (r.body = none → At x' true 0 (r.received server.options)
        (handled ++ [r.received server.options])) ∧
      (∀ body, r.body = some body →
        At x' false (Sent.lengthRead r.headers 0) (r.received server.options) handled) := by
  have hcr : newline ∉ [carriageReturn] := by decide
  have hfirst := hx.continue (Sent.handleLine_methodText h)
  rw [Nat.zero_sub] at hfirst
  obtain ⟨x₁, hx₁, hdelivers⟩ := deliver_headers h r.headers (fun _ hmem => hmem) hfirst rfl rfl rfl
  have hblank : Request.handleLine server.options [carriageReturn] (r.parsed server.options) =
      (r.parsed server.options).blankLine := rfl
  have hcontains : (r.parsed server.options).headers.contains (ascii "content-length") =
      r.body.isSome := Sent.contains_contentLength h
  refine ⟨x₁.step server [carriageReturn], fun rest y => ?_, fun hbody => ?_, fun body hbody => ?_⟩
  · rw [← Delivers.line_iff hx₁ hcr, ← hdelivers,
      ← Delivers.line_iff hx (newline_not_mem_methodText h)]
    simp [Sent.lineTexts, Sent.head]
  · rw [hbody] at hcontains
    have hline : Request.handleLine server.options [carriageReturn] (r.parsed server.options) =
        { request := r.received server.options, result := .ok .done } := by
      rw [hblank, Request.blankLine]
      simp only [hcontains, Option.isSome_none, Bool.false_eq_true, if_false]
      rfl
    have hdone := hx₁.done hreplies (handed h rfl rfl rfl) hline
    rwa [Nat.zero_sub] at hdone
  · rw [hbody] at hcontains
    have hline : Request.handleLine server.options [carriageReturn] (r.parsed server.options) =
        { request := r.received server.options
          maxRead := some (Sent.lengthRead r.headers 0)
          result := .ok .disableLineMode } := by
      rw [hblank, Request.blankLine]
      simp only [hcontains, Option.isSome_some, if_true]
      rfl
    exact hx₁.disable hline

end Head

/-! ## Bodies -/

/-- The request at the end of a body. -/
def finished (opts : Options) (r : Sent) (body : Bytes) : Request :=
  ({ r.received opts with content := body, lengthRemaining := 0 } : Request).finishContent opts.ind

section Body

variable {server : Server σ} {x : Exchange σ} {lineMode : Bool} {maxRead : Nat} {q : Request}
  {handled : List Request}

/-- A line without a space is no method line. -/
theorem methodLine_no_space (opts : Options) {line : Bytes} (hline : 32 ∉ line) :
    ∃ e, q.methodLine opts line = ⟨q, none, none, .error e⟩ := by
  unfold Request.methodLine
  rw [find_eq_none.mpr hline]
  exact ⟨_, rfl⟩

/-- A line whose first word is no method is no method line. -/
theorem methodLine_no_method (opts : Options) {word rest : Bytes} (hword : 32 ∉ word)
    (hname : Method.ofName word = none) :
    ∃ e, q.methodLine opts (word ++ 32 :: rest) = ⟨q, none, none, .error e⟩ := by
  unfold Request.methodLine
  simp only [find_append_cons hword, List.take_left, hname]
  exact ⟨_, rfl⟩

/-- Between requests a single byte is no line that the parser accepts. -/
theorem handleLine_byte (opts : Options) (hmode : q.mode = .method) (b : UInt8) :
    ∃ e, q.handleLine opts [b] = ⟨q, none, none, .error e⟩ := by
  have hhandle : q.handleLine opts [b] = q.methodLine opts (Request.stripLine [b]) := by
    unfold Request.handleLine
    rw [hmode]
  rw [hhandle]
  by_cases hspace : b = 32
  · rw [hspace]
    have hnil : (32 : UInt8) ∉ ([] : Bytes) := List.not_mem_nil
    exact methodLine_no_method opts hnil (by decide)
  · have hstrip : Request.stripLine [b] ⊆ [b] := by
      unfold Request.stripLine
      by_cases hnewline : b = newline
      · simp [hnewline]
      · by_cases hreturn : b = carriageReturn
        · simp [hreturn, carriageReturn, newline]
        · simp [hnewline, hreturn]
    refine methodLine_no_space opts fun hmem => hspace ?_
    exact (List.mem_singleton.mp (hstrip hmem)).symm

/-- Is the body taken for parameters when it ends? -/
def Request.isForm (q : Request) : Bool :=
  q.method = .POST &&
    (match q.headers[ascii "content-type"]? with
      | some contentType => contentType == Request.formType
      | none => true)

/-- What the end of the body leaves. -/
theorem finishContent_data (ind : Indeterminate) (q : Request)
    (hparameters : q.postParameters = ∅) :
    (q.finishContent ind).data = { q.data with
      content := if q.isForm then [] else q.content
      postParameters := if q.isForm then getParameters ind q.content false else ∅ } := by
  unfold Request.finishContent Request.absorbPOST Request.data Request.isForm
  by_cases hpost : q.method = .POST
  · cases hheader : q.headers[ascii "content-type"]? with
    | none => simp [hpost]
    | some contentType =>
      by_cases hform : contentType = Request.formType
      · simp [hpost, hform]
      · simp [hpost, hform, hparameters]
  · simp [hpost, hparameters]

/-- The body's data is the request's, apart from the ranges. -/
theorem finished_data (opts : Options) {r : Sent} {body : Bytes} (hbody : r.body = some body) :
    (finished opts r body).data = { r.data opts with
      ranges := (Sent.rangesRead opts r.headers ([], 0)).1
      suffixLength := (Sent.rangesRead opts r.headers ([], 0)).2 } := by
  unfold finished
  rw [finishContent_data opts.ind _ rfl]
  unfold Sent.data
  rw [hbody, Option.getD_some]
  rfl

/-- Without a body there are no parameters to take. -/
theorem received_data (opts : Options) {r : Sent} (hbody : r.body = none) :
    (r.received opts).data = { r.data opts with
      ranges := (Sent.rangesRead opts r.headers ([], 0)).1
      suffixLength := (Sent.rangesRead opts r.headers ([], 0)).2 } := by
  have hnone : getParameters opts.ind [] false = ∅ := rfl
  unfold Sent.data
  rw [hbody, Option.getD_none, hnone, ite_self, ite_self]
  rfl

/-- Data with the ranges that were read is the request's exactly when they are spelled so. -/
theorem ranges_data_iff {opts : Options} {r : Sent} (h : r.WellFormed opts) :
    { r.data opts with
      ranges := (Sent.rangesRead opts r.headers ([], 0)).1
      suffixLength := (Sent.rangesRead opts r.headers ([], 0)).2 } = r.data opts ↔
      r.RangeSpelled opts := by
  rw [← Sent.rangesRead_eq_iff h, Prod.ext_iff]
  constructor
  · intro heq
    exact ⟨congrArg RequestData.ranges heq, congrArg RequestData.suffixLength heq⟩
  · rintro ⟨hranges, hsuffix⟩
    rw [hranges, hsuffix]
    rfl

/-- The request at the end of a body whose last piece this is. -/
def ended (ind : Indeterminate) (q : Request) (piece : Bytes) : Request :=
  ({ q with content := q.content ++ piece, lengthRemaining := 0 } : Request).finishContent ind

/-- The end of a body touches neither method nor path nor headers. -/
theorem ended_keeps (ind : Indeterminate) (q : Request) (piece : Bytes) :
    (ended ind q piece).method = q.method ∧ (ended ind q piece).path = q.path ∧
      (ended ind q piece).headers = q.headers := by
  unfold ended Request.finishContent Request.absorbPOST
  dsimp only
  split
  · split
    · split <;> exact ⟨rfl, rfl, rfl⟩
    · exact ⟨rfl, rfl, rfl⟩
  · exact ⟨rfl, rfl, rfl⟩

/-- A piece ends the body, and the plugins reply. -/
theorem At.last (hreplies : server.Replies) {n : Nat} (h : At x lineMode n q handled)
    (hmode : q.mode = .content) (hhanded : Handed q) (piece : Bytes)
    (hlast : q.lengthRemaining = 0 ∨ q.lengthRemaining = piece.length) :
    At (x.step server piece) lineMode (n - piece.length) (ended server.options.ind q piece)
      (handled ++ [ended server.options.ind q piece]) := by
  refine h.done hreplies ?_ (handleLine_last server.options hmode hlast)
  obtain ⟨hmethod, hpath, hheaders⟩ := ended_keeps server.options.ind q piece
  refine ⟨by rw [hmethod]; exact hhanded.method, by rw [hpath]; exact hhanded.path, ?_⟩
  have hupgrade := hhanded.noUpgrade
  unfold Server.asksForWebSocket at hupgrade ⊢
  rw [hheaders]
  exact hupgrade

/-- However the body comes in, it is handled once, with all of it. -/
theorem Delivers.body (hreplies : server.Replies) {n : Nat} {stream : Bytes} {y : Exchange σ}
    (hx : At x false n q handled) (hmode : q.mode = .content) (hhanded : Handed q)
    (hremaining : q.lengthRemaining = n) (hlength : stream.length = n) (hpos : 0 < n)
    (hdelivers : Delivers server x stream y) :
    At y false 0 (ended server.options.ind q stream)
      (handled ++ [ended server.options.ind q stream]) := by
  induction hdelivers generalizing q n with
  | done x => exact absurd hpos (by rw [← hlength]; exact Nat.lt_irrefl 0)
  | line _ hline =>
    rw [hx.lineMode] at hline
    cases hline
  | rejected hrejected =>
    rw [hx.accepted] at hrejected
    cases hrejected
  | @bytes x y piece rest _ _ hpiece hsize hrest ih =>
    have hle : piece.length ≤ n := by
      rw [hx.maxRead] at hsize
      omega
    rw [List.length_append] at hlength
    by_cases hnil : rest = []
    · subst hnil
      rw [List.append_nil]
      have hlast := hx.last hreplies hmode hhanded piece
        (.inr (by rw [hremaining]; simpa using hlength.symm))
      obtain rfl := Delivers.nil_iff.mp hrest
      have hzero : n - piece.length = 0 := by
        simp only [List.length_nil] at hlength
        omega
      rwa [hzero] at hlast
    · have hrestPos := List.length_pos_iff.mpr hnil
      have hmore := hx.continue (handleLine_more server.options hmode
        (by omega : piece.length < q.lengthRemaining))
      have hbody := ih hmore hmode ⟨hhanded.method, hhanded.path, hhanded.noUpgrade⟩
        (by show q.lengthRemaining - piece.length = n - piece.length; rw [hremaining])
        (by omega) (by omega)
      have hended : ended server.options.ind { q with
          content := q.content ++ piece
          lengthRemaining := q.lengthRemaining - piece.length } rest =
            ended server.options.ind q (piece ++ rest) := by
        unfold ended
        rw [List.append_assoc]
      rwa [hended] at hbody

/-- Between requests, in raw mode, the next byte is rejected. -/
theorem Delivers.rejected_byte (hx : At x false 0 q handled) (hmode : q.mode = .method)
    {stream : Bytes} (hstream : stream ≠ []) :
    ∃ y, Delivers server x stream y ∧ y.accepted = false := by
  obtain ⟨b, rest, rfl⟩ := List.exists_cons_of_ne_nil hstream
  obtain ⟨e, hline⟩ := handleLine_byte server.options hmode b
  have hrejected := hx.rejected hline
  have hbyte := Delivers.bytes hx.accepted hx.lineMode (List.cons_ne_nil b []) (.inl hx.maxRead)
    (.rejected hrejected rest)
  exact ⟨_, hbyte, hrejected⟩

/-- In raw mode a single byte is handed over as it is. -/
theorem Delivers.byte_iff (hx : At x false maxRead q handled) {b : UInt8} {y : Exchange σ}
    (hsize : maxRead = 0 ∨ 1 ≤ maxRead) :
    Delivers server x [b] y ↔ y = x.step server [b] := by
  constructor
  · intro hdelivers
    generalize hstream : [b] = stream at hdelivers
    cases hdelivers with
    | done => cases hstream
    | line _ hline =>
      rw [hx.lineMode] at hline
      cases hline
    | rejected hrejected =>
      rw [hx.accepted] at hrejected
      cases hrejected
    | @bytes _ _ piece rest _ _ hpiece _ hrest =>
      obtain ⟨c, piece, rfl⟩ := List.exists_cons_of_ne_nil hpiece
      rw [List.cons_append, List.cons.injEq, eq_comm (a := []), List.append_eq_nil_iff] at hstream
      obtain ⟨rfl, rfl, rfl⟩ := hstream
      exact Delivers.nil_iff.mp hrest
  · rintro rfl
    rw [← hx.maxRead] at hsize
    exact .bytes hx.accepted hx.lineMode (List.cons_ne_nil b []) hsize (.done _)

/-- What stands behind the piece that ends a body is rejected. -/
theorem rejected_behind (hreplies : server.Replies) {n : Nat} (hx : At x false n q handled)
    (hmode : q.mode = .content) (hhanded : Handed q) {piece rest : Bytes} (hpiece : piece ≠ [])
    (hrest : rest ≠ []) (hle : n ≤ piece.length) (hsize : n = 0 ∨ piece.length ≤ n)
    (hlast : q.lengthRemaining = 0 ∨ q.lengthRemaining = piece.length) :
    ∃ y, Delivers server x (piece ++ rest) y ∧ y.accepted = false := by
  have hnext := hx.last hreplies hmode hhanded _ hlast
  rw [Nat.sub_eq_zero_of_le hle] at hnext
  obtain ⟨y, hdelivers, hrejected⟩ := Delivers.rejected_byte hnext rfl hrest
  rw [← hx.maxRead] at hsize
  exact ⟨y, .bytes hx.accepted hx.lineMode hpiece hsize hdelivers, hrejected⟩

/-- The line behind a method line is no method line. -/
theorem head_second {r : Sent} (h : r.WellFormed server.options) :
    ∃ second others, r.head = r.methodText :: second :: others ∧ newline ∉ second ∧
      ∀ q : Request, q.mode = .method →
        ∃ e, q.handleLine server.options second = ⟨q, none, none, .error e⟩ := by
  have hhandle : ∀ (line : Bytes) (q : Request), q.mode = .method →
      q.handleLine server.options line = q.methodLine server.options (Request.stripLine line) := by
    intro line q hmode
    unfold Request.handleLine
    rw [hmode]
  unfold Sent.head
  cases hheaders : r.headers with
  | nil =>
    refine ⟨[carriageReturn], [], rfl, by decide, fun q hmode => ?_⟩
    rw [hhandle _ q hmode]
    exact methodLine_no_space server.options (by decide)
  | cons header headers =>
    have hmem : header ∈ r.headers := by
      rw [hheaders]
      exact List.mem_cons_self
    refine ⟨Sent.headerText header, headers.map Sent.headerText ++ [[carriageReturn]], rfl,
      newline_not_mem_headerText h hmem, fun q hmode => ?_⟩
    have hword : 32 ∉ header.1 ++ [58] := by
      simp only [List.mem_append, List.mem_singleton, not_or]
      exact ⟨fun hspace => (h.names header hmem 32 hspace).2.1 rfl, by decide⟩
    -- a word that ends in a colon is no method
    have hname : Method.ofName (header.1 ++ [58]) = none := by
      have hne : ∀ name : Bytes, name.getLast? ≠ some 58 → header.1 ++ [58] ≠ name := by
        rintro name hlast rfl
        exact hlast List.getLast?_concat
      unfold Method.ofName
      rw [if_neg (hne _ (by decide)), if_neg (hne _ (by decide)), if_neg (hne _ (by decide)),
        if_neg (hne _ (by decide))]
    have hline : Request.stripLine (Sent.headerText header) =
        (header.1 ++ [58]) ++ 32 :: header.2 := by
      rw [Sent.headerText, Sent.stripLine_cr]
      simp [ascii]
    rw [hhandle _ q hmode, hline]
    exact methodLine_no_method server.options hword hname

end Body

/-! ## Sequences -/

section Sequences

variable {server : Server σ}

theorem at_new (plugins : σ) : At ({ plugins := plugins } : Exchange σ) true 0 {} [] :=
  ⟨rfl, rfl, rfl, rfl, rfl, rfl⟩

theorem texts_cons (r : Sent) (requests : List Sent) :
    texts (r :: requests) = Sent.lineTexts r.head ++ (r.body.getD [] ++ texts requests) := by
  simp [texts, Sent.text]

variable [Inhabited σ]

/-- If every delivery of a request ends with one request handled, and there is one, the request is
    served exactly when that is what it says. -/
theorem serves_one_iff_data {r : Sent} {q : Request}
    (hall : ∀ plugins y, Delivers server { plugins := plugins } (texts [r]) y →
      y.accepted = true ∧ y.handled = [q])
    (hsome : ∃ y, Delivers server { plugins := default } (texts [r]) y) :
    Serves server [r] ↔ q.data = r.data server.options := by
  constructor
  · intro hserves
    obtain ⟨y, hdelivers⟩ := hsome
    have hhandled := (hserves default y hdelivers).2
    rw [(hall default y hdelivers).2] at hhandled
    exact List.head_eq_of_cons_eq hhandled
  · intro hdata plugins y hdelivers
    obtain ⟨haccepted, hhandled⟩ := hall plugins y hdelivers
    refine ⟨haccepted, ?_⟩
    rw [hhandled, List.map_singleton, List.map_singleton, hdata]

/-- Requests of which some delivery is rejected are not served. -/
theorem not_serves_of_rejected {requests : List Sent} (x : Exchange σ) (stream : Bytes)
    (hdelivers : ∀ y, Delivers server x stream y →
      Delivers server { plugins := default } (texts requests) y)
    (hrejected : ∃ y, Delivers server x stream y ∧ y.accepted = false) :
    ¬ Serves server requests := by
  intro hserves
  obtain ⟨y, hy, haccepted⟩ := hrejected
  rw [(hserves default y (hdelivers y hy)).1] at haccepted
  cases haccepted

variable (hreplies : server.Replies)
include hreplies

theorem serves_one_none {r : Sent} (h : r.WellFormed server.options) (hbody : r.body = none) :
    Serves server [r] ↔ r.RangeSpelled server.options := by
  rw [← ranges_data_iff h, ← received_data server.options hbody]
  refine serves_one_iff_data (q := r.received server.options) (fun plugins y hdelivers => ?_) ?_
  · obtain ⟨x', hhead, hnone, -⟩ := deliver_head h hreplies (at_new plugins)
    rw [texts_cons, hhead, hbody, Option.getD_none, List.nil_append] at hdelivers
    rw [Delivers.nil_iff.mp hdelivers]
    exact ⟨(hnone hbody).accepted, (hnone hbody).handled⟩
  · obtain ⟨x', hhead, -, -⟩ := deliver_head h hreplies (at_new default)
    refine ⟨x', ?_⟩
    rw [texts_cons, hhead, hbody]
    exact .done x'

/-- A body that is announced as the parser spells it is read to its end. -/
theorem serves_one_spelled {r : Sent} {body : Bytes} (h : r.WellFormed server.options)
    (hbody : r.body = some body) (hne : body ≠ [])
    (hlength : Sent.lengthRead r.headers 0 = body.length) :
    Serves server [r] ↔ r.RangeSpelled server.options := by
  have hpos := List.length_pos_iff.mpr hne
  rw [← ranges_data_iff h, ← finished_data server.options hbody]
  refine serves_one_iff_data (fun plugins y hdelivers => ?_) ?_
  · obtain ⟨x', hhead, -, hsome⟩ := deliver_head h hreplies (at_new plugins)
    have hx' := hsome body hbody
    rw [hlength] at hx'
    rw [texts_cons, hhead, hbody, Option.getD_some] at hdelivers
    have hy := Delivers.body hreplies hx' rfl (handed h rfl rfl rfl) hlength
      (by simp [texts]) hpos hdelivers
    refine ⟨hy.accepted, hy.handled.trans ?_⟩
    simp [ended, finished, texts, Sent.received, Sent.parsed, Sent.afterHeaders, Sent.afterMethod]
  · obtain ⟨x', hhead, -, hsome⟩ := deliver_head h hreplies (at_new default)
    have hx' := hsome body hbody
    rw [texts_cons, hbody, Option.getD_some]
    refine ⟨_, (hhead _ _).mpr (.bytes hx'.accepted hx'.lineMode hne (.inr ?_) (.done _))⟩
    rw [hx'.maxRead, hlength]

/-- Otherwise its first piece is taken for all of it. -/
theorem serves_one_byte {r : Sent} {b : UInt8} (h : r.WellFormed server.options)
    (hbody : r.body = some [b]) (hlength : Sent.lengthRead r.headers 0 = 0) :
    Serves server [r] ↔ r.RangeSpelled server.options := by
  rw [← ranges_data_iff h, ← finished_data server.options hbody]
  have htexts : r.body.getD [] ++ texts [] = [b] := by
    rw [hbody]
    rfl
  refine serves_one_iff_data (fun plugins y hdelivers => ?_) ?_
  · obtain ⟨x', hhead, -, hsome⟩ := deliver_head h hreplies (at_new plugins)
    have hx' := hsome [b] hbody
    rw [hlength] at hx'
    rw [texts_cons, hhead, htexts, Delivers.byte_iff hx' (.inl rfl)] at hdelivers
    have hlast := hx'.last hreplies rfl (handed h rfl rfl rfl) [b] (.inl hlength)
    rw [hdelivers]
    exact ⟨hlast.accepted, hlast.handled⟩
  · obtain ⟨x', hhead, -, hsome⟩ := deliver_head h hreplies (at_new default)
    have hx' := hsome [b] hbody
    rw [hlength] at hx'
    rw [texts_cons, htexts]
    exact ⟨_, (hhead _ _).mpr ((Delivers.byte_iff hx' (.inl rfl)).mpr rfl)⟩

/-- A body is not all of the connection's bytes behind its head: two or more bytes of which the
    first, if nothing or nothing else is expected, ends the body. -/
theorem not_serves_behind {r : Sent} {requests : List Sent} {body piece rest : Bytes}
    (h : r.WellFormed server.options) (hbody : r.body = some body)
    (hstream : body ++ texts requests = piece ++ rest) (hpiece : piece ≠ []) (hrest : rest ≠ [])
    (hlength : Sent.lengthRead r.headers 0 = 0 ∨
      Sent.lengthRead r.headers 0 = piece.length) :
    ¬ Serves server (r :: requests) := by
  obtain ⟨x', hhead, -, hsome⟩ := deliver_head h hreplies (at_new default)
  have hx' := hsome body hbody
  refine not_serves_of_rejected x' (piece ++ rest) (fun y hy => ?_)
    (rejected_behind hreplies hx' rfl (handed h rfl rfl rfl) hpiece hrest (by omega) (by omega)
      hlength)
  rw [texts_cons, hbody, Option.getD_some, hstream]
  exact (hhead _ _).mpr hy

/-- The end of an empty body is not noticed. -/
theorem not_serves_empty {r : Sent} (h : r.WellFormed server.options) (hbody : r.body = some []) :
    ¬ Serves server [r] := by
  intro hserves
  obtain ⟨x', hhead, -, hsome⟩ := deliver_head h hreplies (at_new default)
  have hdelivers : Delivers server { plugins := default } (texts [r]) x' := by
    rw [texts_cons, hbody]
    exact (hhead _ _).mpr (.done x')
  have hhandled := (hserves default x' hdelivers).2
  rw [(hsome [] hbody).handled] at hhandled
  cases hhandled

/-- A request without a body leaves the parser in its content: the next method line is taken for
    that, and the line behind it is rejected. -/
theorem not_serves_bodiless {r r' : Sent} {requests : List Sent} (h : r.WellFormed server.options)
    (h' : r'.WellFormed server.options) (hbody : r.body = none) :
    ¬ Serves server (r :: r' :: requests) := by
  obtain ⟨x', hhead, hnone, -⟩ := deliver_head h hreplies (at_new default)
  obtain ⟨second, others, hlines, hsecond, herror⟩ := head_second h'
  have hlast := (hnone hbody).last hreplies rfl (handed h rfl rfl rfl) r'.methodText
    (.inl (Sent.lengthRead_of_none h hbody))
  rw [Nat.zero_sub] at hlast
  obtain ⟨e, hline⟩ :=
    herror (ended server.options.ind (r.received server.options) r'.methodText) rfl
  have hrejected := hlast.rejected hline
  have hstream : ∃ rest, texts (r' :: requests) =
      r'.methodText ++ newline :: (second ++ newline :: rest) := by
    refine ⟨Sent.lineTexts others ++ (r'.body.getD [] ++ texts requests), ?_⟩
    rw [texts_cons, hlines]
    simp [Sent.lineTexts]
  obtain ⟨rest, hstream⟩ := hstream
  refine not_serves_of_rejected x' (texts (r' :: requests)) (fun y hy => ?_)
    ⟨_, ?_, hrejected⟩
  · rw [texts_cons, hbody, Option.getD_none, List.nil_append]
    exact (hhead _ _).mpr hy
  · rw [hstream, Delivers.line_iff (hnone hbody) (newline_not_mem_methodText h'),
      Delivers.line_iff hlast hsecond]
    exact .rejected hrejected rest

/-- What it takes to serve a single request. -/
theorem serves_one_iff {r : Sent} (h : r.WellFormed server.options) :
    Serves server [r] ↔ ServedAlone server.options [r] := by
  cases hbody : r.body with
  | none =>
    rw [serves_one_none hreplies h hbody]
    refine ⟨fun hrange => ⟨hrange, fun body hsome => ?_⟩, fun halone => halone.1⟩
    rw [hbody] at hsome
    cases hsome
  | some body =>
    have halone : ServedAlone server.options [r] ↔ r.RangeSpelled server.options ∧ body ≠ [] ∧
        (r.LengthSpelled ∨ body.length = 1) := by
      show (_ ∧ ∀ body, r.body = some body → body ≠ [] ∧ (_ ∨ body.length = 1)) ↔ _
      rw [hbody]
      simp
    rw [halone]
    by_cases hnil : body = []
    · subst hnil
      exact iff_of_false (not_serves_empty hreplies h hbody) fun hserved => hserved.2.1 rfl
    · rcases Sent.lengthRead_of_some h hbody with ⟨hspelled, hlength⟩ | ⟨hunspelled, hlength⟩
      · rw [serves_one_spelled hreplies h hbody hnil hlength]
        exact ⟨fun hrange => ⟨hrange, hnil, .inl hspelled⟩, fun hserved => hserved.1⟩
      · obtain ⟨b, rest, rfl⟩ := List.exists_cons_of_ne_nil hnil
        by_cases hrest : rest = []
        · subst hrest
          rw [serves_one_byte hreplies h hbody hlength]
          exact ⟨fun hrange => ⟨hrange, hnil, .inr rfl⟩, fun hserved => hserved.1⟩
        · have hlong := List.length_pos_iff.mpr hrest
          refine iff_of_false ?_ fun hserved => ?_
          · have hstream : b :: rest ++ texts [] = [b] ++ rest := by simp [texts]
            exact not_serves_behind hreplies h hbody hstream (List.cons_ne_nil b []) hrest
              (.inl hlength)
          · have hone := hserved.2.2.resolve_left hunspelled
            rw [List.length_cons] at hone
            omega

/-- No second request is served. -/
theorem not_serves_two {r r' : Sent} {requests : List Sent} (h : r.WellFormed server.options)
    (h' : r'.WellFormed server.options) : ¬ Serves server (r :: r' :: requests) := by
  have htwo : 2 ≤ (texts (r' :: requests)).length := by
    rw [texts_cons]
    simp [Sent.lineTexts, Sent.head, Sent.methodText]
    omega
  cases hbody : r.body with
  | none => exact not_serves_bodiless hreplies h h' hbody
  | some body =>
    by_cases hread : body ≠ [] ∧ Sent.lengthRead r.headers 0 = body.length
    · refine not_serves_behind hreplies h hbody rfl hread.1 (fun hnil => ?_) (.inr hread.2)
      rw [hnil] at htwo
      exact absurd htwo (by decide)
    · have hzero : Sent.lengthRead r.headers 0 = 0 := by
        rcases Sent.lengthRead_of_some h hbody with ⟨-, hlength⟩ | ⟨-, hlength⟩
        · by_contra hne
          refine hread ⟨fun hnil => hne ?_, hlength⟩
          rw [hlength, hnil]
          rfl
        · exact hlength
      have hstream : ∃ b c rest, body ++ texts (r' :: requests) = [b] ++ c :: rest := by
        have hlong : 2 ≤ (body ++ texts (r' :: requests)).length := by
          rw [List.length_append]
          omega
        match body ++ texts (r' :: requests), hlong with
        | b :: c :: rest, _ => exact ⟨b, c, rest, rfl⟩
      obtain ⟨b, c, rest, hstream⟩ := hstream
      exact not_serves_behind hreplies h hbody hstream (List.cons_ne_nil _ _)
        (List.cons_ne_nil _ _) (.inl hzero)

/-- **Requests on one connection.** A sequence of well-formed requests is served, however it is
    delivered, exactly when it is empty, or one request whose `Range` header is spelled as the
    parser spells it and whose body, if it has one, is not empty and is announced so. -/
theorem serves_iff {requests : List Sent} (h : ∀ r ∈ requests, r.WellFormed server.options) :
    Serves server requests ↔ ServedAlone server.options requests := by
  cases requests with
  | nil =>
    refine iff_of_true (fun plugins y hdelivers => ?_) trivial
    rw [Delivers.nil_iff.mp hdelivers]
    exact ⟨rfl, rfl⟩
  | cons r requests =>
    have hr := h r List.mem_cons_self
    cases requests with
    | nil => exact serves_one_iff hreplies hr
    | cons r' requests =>
      have hr' := h r' (List.mem_cons_of_mem _ List.mem_cons_self)
      exact iff_of_false (not_serves_two hreplies hr hr') id

end Sequences

/-- A server whose plugins answer everything. -/
def answering : Server Unit where
  getHandlers s _ _ _ := { state := s, acts := [.send (ascii "hello")], result := .kill }
  postHandlers s _ _ _ := { state := s, acts := [.send (ascii "hello")], result := .kill }

theorem answering_replies : answering.Replies where
  get _ _ _ _ := ⟨rfl, rfl, fun _ hact => ⟨_, List.mem_singleton.mp hact⟩⟩
  post _ _ _ _ := ⟨rfl, rfl, fun _ hact => ⟨_, List.mem_singleton.mp hact⟩⟩

/-- A request for the first five bytes of something. -/
def firstBytes : Sent where
  method := .GET
  target := ascii "/a?b=c"
  version := ascii "HTTP/1.1"
  headers := [(ascii "Range", ascii "bytes=0-4")]
  body := none

theorem firstBytes_wellFormed : firstBytes.WellFormed {} where
  method := .inl rfl
  targetSlash := rfl
  target := by decide +kernel
  version := .inl rfl
  names := by decide +kernel
  values := by decide
  length := (by decide : firstBytes.headersNamed (ascii "content-length") = [])
  range := .inr ⟨_, rfl, by decide⟩
  postMax := by intro h; cases h
  noUpgrade := by decide

theorem serves_iff_firstBytes : Serves answering [firstBytes] ↔ ServedAlone {} [firstBytes] :=
  serves_iff answering_replies fun r hr => by
    rw [List.mem_singleton.mp hr]
    exact firstBytes_wellFormed

/-- Sent twice, it is not served twice. -/
theorem not_serves_again : answering.Replies ∧ firstBytes.WellFormed {} ∧
    ¬ Serves answering [firstBytes, firstBytes] :=
  ⟨answering_replies, firstBytes_wellFormed,
    not_serves_two answering_replies firstBytes_wellFormed firstBytes_wellFormed⟩

end Algiz.HTTP
