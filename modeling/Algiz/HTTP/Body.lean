/-
  The body of a request, one piece at a time.

  After the blank line of a head that announces a body the pieces of it are handed to `handleLine`
  as they come in. It should say `Done` with the piece that brings the last byte announced, and
  keep the bytes up to that one (`ReadsBody`). The two slips: a body of no bytes is waited for, and
  of a piece that reaches beyond the end of the body what is kept is the part behind the number of
  bytes that were missing, not the part before it (`Fits`).
-/
import Algiz.HTTP.Head

namespace Algiz.HTTP

/-! ## Pieces of a body -/

section Pieces

variable {q : Request}

theorem handleLine_content (opts : Options) (piece : Bytes) (hmode : q.mode = .content) :
    q.handleLine opts piece = q.contentPiece opts piece := by
  unfold Request.handleLine
  rw [hmode]

/-- A piece that ends a body, or that comes when none is expected, is taken for the rest of
    it. -/
theorem handleLine_last (opts : Options) {piece : Bytes} (hmode : q.mode = .content)
    (hlast : q.lengthRemaining = 0 ∨ q.lengthRemaining = piece.length) :
    q.handleLine opts piece =
      { request := ({ q with content := q.content ++ piece, lengthRemaining := 0 } :
          Request).finishContent opts.ind
        result := .ok .done } := by
  have hpiece : q.lastPiece piece =
      { q with content := q.content ++ piece, lengthRemaining := 0 } := by
    unfold Request.lastPiece
    split
    · rename_i hlonger
      have hnone : q.lengthRemaining = 0 := by omega
      rw [hnone, List.drop_zero]
    · rw [if_pos (by omega)]
  rw [handleLine_content opts piece hmode, Request.contentPiece, hpiece]
  rfl

/-- Any other piece is added to it. -/
theorem handleLine_more (opts : Options) {piece : Bytes} (hmode : q.mode = .content)
    (hmore : piece.length < q.lengthRemaining) :
    q.handleLine opts piece =
      { request := { q with
          content := q.content ++ piece
          lengthRemaining := q.lengthRemaining - piece.length } } := by
  have hpiece : q.lastPiece piece = q := by
    unfold Request.lastPiece
    rw [if_neg (by omega), if_neg (by omega)]
  rw [handleLine_content opts piece hmode, Request.contentPiece, hpiece]
  exact if_neg (by omega)

/-- Of a piece that is longer than what is missing, what stands behind that length is kept. -/
theorem handleLine_longer (opts : Options) {piece : Bytes} (hmode : q.mode = .content)
    (hlonger : q.lengthRemaining < piece.length) :
    q.handleLine opts piece =
      { request := ({ q with
            content := q.content ++ piece.drop q.lengthRemaining
            lengthRemaining := 0 } : Request).finishContent opts.ind
        result := .ok .done } := by
  have hpiece : q.lastPiece piece =
      { q with content := q.content ++ piece.drop q.lengthRemaining, lengthRemaining := 0 } := by
    unfold Request.lastPiece
    rw [if_pos hlonger]
  rw [handleLine_content opts piece hmode, Request.contentPiece, hpiece]
  rfl

/-- The request after these lines. -/
def fed (opts : Options) (lines : List Bytes) (q : Request) : Request :=
  lines.foldl (fun q line => (q.handleLine opts line).request) q

/-- While bytes are missing every piece is added to the content. -/
theorem fed_more (opts : Options) {pieces : List Bytes} (hmode : q.mode = .content)
    (hmore : pieces.flatten.length < q.lengthRemaining) :
    fed opts pieces q = { q with
      content := q.content ++ pieces.flatten
      lengthRemaining := q.lengthRemaining - pieces.flatten.length } := by
  induction pieces generalizing q with
  | nil => simp [fed]
  | cons piece pieces ih =>
    rw [List.flatten_cons, List.length_append] at hmore
    have hpiece := handleLine_more opts hmode (by omega : piece.length < q.lengthRemaining)
    have hrest := ih (q := { q with
      content := q.content ++ piece
      lengthRemaining := q.lengthRemaining - piece.length }) hmode
        (by show pieces.flatten.length < q.lengthRemaining - piece.length; omega)
    have hfed : fed opts (piece :: pieces) q =
        fed opts pieces (q.handleLine opts piece).request := rfl
    rw [hfed, hpiece, hrest]
    simp [List.append_assoc, Nat.sub_sub]

end Pieces

/-! ## Heads that announce a body -/

/-- Each of the lines is answered with `Continue`. -/
def Takes (opts : Options) (lines : List Bytes) (q : Request) : Prop :=
  ∀ o ∈ feed opts lines q, o.result = .ok .continue

theorem takes_cons {opts : Options} {line : Bytes} {lines : List Bytes} {q : Request}
    (h : Takes opts (line :: lines) q) :
    (q.handleLine opts line).result = .ok .continue ∧
      Takes opts lines (q.handleLine opts line).request := by
  have hline : (q.handleLine opts line).result = .ok .continue := by
    obtain ⟨calls, hfeed⟩ := feed_cons opts line lines q
    exact h _ (hfeed ▸ List.mem_cons_self)
  refine ⟨hline, fun o ho => h o ?_⟩
  rw [feed_continue hline]
  exact List.mem_cons_of_mem _ ho

theorem takes_append {opts : Options} {front back : List Bytes} {q : Request}
    (h : Takes opts (front ++ back) q) :
    Takes opts front q ∧ Takes opts back (fed opts front q) := by
  induction front generalizing q with
  | nil => exact ⟨fun o ho => absurd ho List.not_mem_nil, h⟩
  | cons line front ih =>
    obtain ⟨hline, hrest⟩ := takes_cons h
    obtain ⟨hfront, hback⟩ := ih hrest
    refine ⟨fun o ho => ?_, hback⟩
    rw [feed_continue hline, List.mem_cons] at ho
    rcases ho with rfl | ho
    · exact hline
    · exact hfront o ho

/-- The lines of headers; a value comes with the ending of its line. -/
def headerLines (headers : List (Bytes × Bytes)) : List Bytes :=
  headers.map fun header => Request.headerText header.1 header.2

theorem headerLines_split (before after : List (Bytes × Bytes)) (name value : Bytes) :
    headerLines (before ++ (name, value) :: after) =
      headerLines before ++ Request.headerText name value :: headerLines after := by
  unfold headerLines
  rw [List.map_append, List.map_cons]

/-- A head that is accepted, and that announces a body of `n` bytes. -/
structure AnnouncedHead (opts : Options) (n : Nat) where
  methodLine : Bytes
  before : List (Bytes × Bytes)
  /-- of the `Content-Length` header, the last one if there are several -/
  value : Bytes
  after : List (Bytes × Bytes)
  blank : Bytes
  names : ∀ header ∈ before ++ after, ¬ ascii ": " <:+: header.1
  last : ∀ header ∈ after, header.1 ≠ ascii "Content-Length"
  length : parseUlong opts.ind (Request.stripLine value) = .ok n
  ends : Request.stripLine blank = []
  taken : Takes opts
    (methodLine :: headerLines (before ++ (ascii "Content-Length", value) :: after)) {}

namespace AnnouncedHead

variable {opts : Options} {n : Nat} (head : AnnouncedHead opts n)

/-- The lines up to the blank one. -/
def lines : List Bytes :=
  head.methodLine ::
    headerLines (head.before ++ (ascii "Content-Length", head.value) :: head.after)

/-- The request when the blank line comes. -/
def request : Request := fed opts head.lines {}

/-- What the blank line does. -/
def ended : Handled := head.request.handleLine opts head.blank

end AnnouncedHead

/-- A request in the headers, of whose body nothing has come. -/
structure InHeaders (q : Request) : Prop where
  mode : q.mode = .headers
  content : q.content = []

/-- The method line of a new request. -/
theorem inHeaders_methodLine {opts : Options} {line : Bytes}
    (h : (Request.handleLine opts line {}).result = .ok .continue) :
    InHeaders (Request.handleLine opts line {}).request := by
  have hline : Request.handleLine opts line {} =
      Request.methodLine opts (Request.stripLine line) {} := rfl
  rw [hline] at h ⊢
  revert h
  unfold Request.methodLine
  cases find (Request.stripLine line) 32 with
  | none => exact fun h => by cases h
  | some firstSpace =>
    dsimp only
    cases Method.ofName ((Request.stripLine line).take firstSpace) with
    | none => exact fun h => by cases h
    | some method =>
      dsimp only
      cases find ((Request.stripLine line).drop (firstSpace + 1)) 32 with
      | none => exact fun h => by cases h
      | some nextSpace =>
        dsimp only
        split
        · exact fun h => by cases h
        · exact fun _ => ⟨rfl, rfl⟩

/-- Headers that are accepted leave the request in the headers. The last one that is spelled
    `Content-Length` has its number assigned. -/
theorem inHeaders_headerLines {opts : Options} {headers : List (Bytes × Bytes)} {q : Request}
    (hnames : ∀ header ∈ headers, ¬ ascii ": " <:+: header.1) (hq : InHeaders q)
    (h : Takes opts (headerLines headers) q) :
    InHeaders (fed opts (headerLines headers) q) ∧
      (q.headers.contains (ascii "content-length") = true →
        (fed opts (headerLines headers) q).headers.contains (ascii "content-length") = true) ∧
      ((∀ header ∈ headers, header.1 ≠ ascii "Content-Length") →
        (fed opts (headerLines headers) q).lengthRemaining = q.lengthRemaining) := by
  induction headers generalizing q with
  | nil => exact ⟨hq, id, fun _ => rfl⟩
  | cons header headers ih =>
    obtain ⟨hname, hnames⟩ := List.forall_mem_cons.mp hnames
    obtain ⟨hline, hrest⟩ := takes_cons h
    have hhandled := Request.handleLine_headerText opts hq.mode hname
      (Request.stripLine_headerText header.1 header.2)
    rw [hhandled] at hline hrest
    have htook := Request.header_took opts hline
    have hnext : InHeaders (q.header opts header.1 (Request.stripLine header.2)).request :=
      ⟨htook.mode.trans hq.mode, htook.content.trans hq.content⟩
    obtain ⟨hin, hcontains, hkeeps⟩ := ih hnames hnext hrest
    have hfed : fed opts (headerLines (header :: headers)) q = fed opts (headerLines headers)
        (q.header opts header.1 (Request.stripLine header.2)).request := by
      rw [← hhandled]
      rfl
    rw [hfed]
    refine ⟨hin, fun hbefore => hcontains ?_, fun hothers => ?_⟩
    · rw [htook.headers, contains_addHeader, hbefore, Bool.or_true]
    · obtain ⟨hother, hothers⟩ := List.forall_mem_cons.mp hothers
      exact (hkeeps hothers).trans (htook.keeps hother).2

namespace AnnouncedHead

variable {opts : Options} {n : Nat} (head : AnnouncedHead opts n)

/-- When the blank line comes the length is known, and nothing has been read of the body. -/
theorem announces : InHeaders head.request ∧
    head.request.headers.contains (ascii "content-length") = true ∧
    head.request.lengthRemaining = n := by
  have hnames := head.names
  simp only [List.mem_append, or_imp, forall_and] at hnames
  obtain ⟨hfirst, hheaders⟩ := takes_cons head.taken
  have hstart := inHeaders_methodLine hfirst
  unfold request lines
  rw [headerLines_split] at hheaders ⊢
  obtain ⟨hbefore, hrest⟩ := takes_append hheaders
  obtain ⟨hin, -, -⟩ := inHeaders_headerLines hnames.1 hstart hbefore
  obtain ⟨hlength, hafter⟩ := takes_cons hrest
  generalize hq : fed opts (headerLines head.before)
    (Request.handleLine opts head.methodLine {}).request = q at hin hlength hafter
  have hhandled := Request.handleLine_headerText opts hin.mode
    (by decide : ¬ ascii ": " <:+: ascii "Content-Length")
    (Request.stripLine_headerText _ head.value)
  rw [hhandled] at hlength hafter
  have htook := Request.header_took opts hlength
  generalize hnext :
    (q.header opts (ascii "Content-Length") (Request.stripLine head.value)).request = next
    at htook hafter
  have hnextIn : InHeaders next := ⟨htook.mode.trans hin.mode, htook.content.trans hin.content⟩
  obtain ⟨hread, hremaining⟩ := htook.length rfl
  have hcontains : next.headers.contains (ascii "content-length") = true := by
    rw [htook.headers, contains_addHeader]
    exact Bool.or_eq_true_iff.mpr (.inl (by decide))
  obtain ⟨hend, hkept, hkeeps⟩ := inHeaders_headerLines hnames.2 hnextIn hafter
  have hfed : fed opts (head.methodLine :: (headerLines head.before ++
      Request.headerText (ascii "Content-Length") head.value :: headerLines head.after)) {} =
      fed opts (headerLines head.after) next := by
    rw [← hnext, ← hhandled, ← hq]
    unfold fed
    rw [List.foldl_cons, List.foldl_append, List.foldl_cons]
  have hn : next.contentLength = n := by
    rw [head.length] at hread
    exact (Except.ok.inj hread).symm
  rw [← hfed] at hend hkept hkeeps
  exact ⟨hend, hkept hcontains, (hkeeps head.last).trans (hremaining.trans hn)⟩

/-- The blank line leaves line mode for the body, however long it is. -/
theorem ended_eq : head.ended = {
    request := { head.request with mode := .content }
    maxRead := some head.request.contentLength
    result := .ok .disableLineMode } := by
  obtain ⟨hin, hcontains, -⟩ := head.announces
  unfold ended Request.handleLine Request.blankLine
  simp [hin.mode, head.ends, hcontains]

end AnnouncedHead

/-! ## What is kept of a body -/

/-- `handleLine` says `Done` for the piece with which `n` bytes have come, or at the blank line if
    there are none to come, and what it keeps of the body, or has `absorbPOST` read, are these
    bytes. -/
def ReadsBody {opts : Options} {n : Nat} (head : AnnouncedHead opts n) (pieces : List Bytes) :
    Prop :=
  (n = 0 → head.ended.result = .ok .done) ∧
  ∀ front piece rest, pieces = front ++ piece :: rest → front.flatten.length < n →
    let q := fed opts front head.ended.request
    let came := front.flatten.length + piece.length
    (q.handleLine opts piece).result = .ok (if n ≤ came then .done else .continue) ∧
    (n ≤ came → (q.lastPiece piece).content = pieces.flatten.take n)

/-- There is a body, and of the piece that ends it what reaches beyond its end, if anything does,
    is what belongs to it. -/
def Fits (n : Nat) (pieces : List Bytes) : Prop :=
  n ≠ 0 ∧ ∀ front piece rest, pieces = front ++ piece :: rest → front.flatten.length < n →
    n < front.flatten.length + piece.length →
    piece.drop (n - front.flatten.length) = piece.take (n - front.flatten.length)

/-- The body as it is kept is what `absorbPOST` reads if the request is a POST. -/
theorem handleLine_keeps (opts : Options) {q : Request} (hmode : q.mode = .content) {piece : Bytes}
    (h : q.lengthRemaining ≤ piece.length) :
    (q.handleLine opts piece).request = (q.lastPiece piece).finishContent opts.ind := by
  have hnone : (q.lastPiece piece).lengthRemaining = 0 := by
    unfold Request.lastPiece
    split
    · rfl
    · rw [if_pos (by omega)]
  rw [handleLine_content opts piece hmode, Request.contentPiece, if_pos hnone]

section Reads

variable {opts : Options} {n : Nat} (head : AnnouncedHead opts n) {front : List Bytes}

/-- The request while bytes of its body are missing. -/
theorem fed_front (h : front.flatten.length < n) :
    fed opts front head.ended.request = { head.request with
      mode := .content
      content := front.flatten
      lengthRemaining := n - front.flatten.length } := by
  obtain ⟨hin, -, hremaining⟩ := head.announces
  have hmore : front.flatten.length < ({ head.request with mode := .content } :
      Request).lengthRemaining := by
    show front.flatten.length < head.request.lengthRemaining
    rwa [hremaining]
  rw [head.ended_eq]
  dsimp only
  rw [fed_more opts rfl hmore]
  simp [hin.content, hremaining]

variable (piece : Bytes)

theorem piece_result (h : front.flatten.length < n) :
    ((fed opts front head.ended.request).handleLine opts piece).result =
      .ok (if n ≤ front.flatten.length + piece.length then .done else .continue) := by
  rw [fed_front head h]
  by_cases hcame : n ≤ front.flatten.length + piece.length
  · rw [if_pos hcame]
    by_cases hfits : n - front.flatten.length = piece.length
    · rw [handleLine_last opts rfl (.inr hfits)]
    · rw [handleLine_longer opts rfl (by dsimp only; omega)]
  · rw [if_neg hcame, handleLine_more opts rfl (by dsimp only; omega)]

theorem piece_content (h : front.flatten.length < n)
    (hcame : n ≤ front.flatten.length + piece.length) :
    ((fed opts front head.ended.request).lastPiece piece).content = front.flatten ++
      if n < front.flatten.length + piece.length then piece.drop (n - front.flatten.length)
      else piece := by
  rw [fed_front head h]
  unfold Request.lastPiece
  dsimp only
  by_cases hlonger : n < front.flatten.length + piece.length
  · rw [if_pos (by omega), if_pos hlonger]
  · rw [if_neg (by omega), if_pos (by omega), if_neg hlonger]

/-- The bytes announced, when a piece brings the last of them. -/
theorem take_flatten (rest : List Bytes) (h : front.flatten.length < n)
    (hcame : n ≤ front.flatten.length + piece.length) :
    (front ++ piece :: rest).flatten.take n =
      front.flatten ++ piece.take (n - front.flatten.length) := by
  rw [List.flatten_append, List.flatten_cons, List.take_append, List.take_append,
    List.take_of_length_le (by omega), Nat.sub_eq_zero_of_le (by omega : _ ≤ piece.length),
    List.take_zero, List.append_nil]

end Reads

/-- **Bodies.** The body is kept as it was sent, and its end noticed, exactly when it is not empty
    and nothing else comes in the piece that ends it (or the same bytes once more). -/
theorem readsBody_iff {opts : Options} {n : Nat} (head : AnnouncedHead opts n)
    (pieces : List Bytes) : ReadsBody head pieces ↔ Fits n pieces := by
  refine ⟨fun ⟨hempty, hreads⟩ => ⟨fun hzero => ?_, ?_⟩, fun ⟨hbody, hfits⟩ => ⟨?_, ?_⟩⟩
  · have hdone := hempty hzero
    rw [head.ended_eq] at hdone
    cases hdone
  · intro front piece rest hpieces hmissing hlonger
    have hcontent := (hreads front piece rest hpieces hmissing).2 (by omega)
    rw [piece_content head piece hmissing (by omega), if_pos hlonger, hpieces,
      take_flatten piece rest hmissing (by omega)] at hcontent
    exact List.append_cancel_left hcontent
  · exact fun hzero => absurd hzero hbody
  · intro front piece rest hpieces hmissing
    refine ⟨piece_result head piece hmissing, fun hcame => ?_⟩
    have hcame : n ≤ front.flatten.length + piece.length := hcame
    rw [piece_content head piece hmissing hcame, hpieces, take_flatten piece rest hmissing hcame]
    by_cases hlonger : n < front.flatten.length + piece.length
    · rw [if_pos hlonger, hfits front piece rest hpieces hmissing hlonger]
    · rw [if_neg hlonger, List.take_of_length_le (by omega)]

/-- A head that announces three bytes. -/
def threeBytes : AnnouncedHead {} 3 where
  methodLine := ascii "POST / HTTP/1.1\x0d"
  before := []
  value := ascii "3\x0d"
  after := []
  blank := [carriageReturn]
  names := by decide
  last := by decide
  length := by decide +kernel
  ends := by decide
  taken := by
    unfold Takes
    decide +kernel

/-- A head that announces a body of no bytes. -/
def noBytes : AnnouncedHead {} 0 where
  methodLine := ascii "POST / HTTP/1.1\x0d"
  before := []
  value := ascii "0\x0d"
  after := []
  blank := [carriageReturn]
  names := by decide
  last := by decide
  length := by decide +kernel
  ends := by decide
  taken := by
    unfold Takes
    decide +kernel

/-- Of `abcX` only the `X` is kept, and the end of an empty body is not noticed. -/
theorem not_readsBody : ¬ ReadsBody threeBytes [ascii "abcX"] ∧ ¬ ReadsBody noBytes [] := by
  refine ⟨fun h => ?_, fun h => ?_⟩
  · have hkept := (h.2 [] (ascii "abcX") [] rfl (by decide)).2 (by decide)
    have hcontent : ((fed {} [] threeBytes.ended.request).lastPiece (ascii "abcX")).content =
        ascii "X" := by decide
    rw [hcontent] at hkept
    revert hkept
    decide
  · have hdone := h.1 rfl
    have hresult : noBytes.ended.result = .ok .disableLineMode := by decide
    rw [hresult] at hdone
    cases hdone

end Algiz.HTTP
