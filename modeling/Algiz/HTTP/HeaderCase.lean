/-
  Letter case in the names of headers.

  Names are kept in lower case, and the end of the head asks for `content-length`, but what
  `handleLine` does for a header goes by its name as it is spelled. So two spellings of the names
  of a head are read alike, whatever the values, exactly when they agree on which headers are
  spelled `Content-Length`, `Range` or `Connection` (`caseInsensitive_iff`).
-/
import Algiz.HTTP.Client
import Algiz.HTTP.Body

namespace Algiz.HTTP

/-- What is left by a call: its result, the request and, of the client, `maxRead` and
    `keepAlive`. -/
structure ReadState where
  result : Except Exception HandleResult
  request : Request
  maxRead : Nat
  keepAlive : Bool

/-- What is left by each of these calls. -/
def readStates : Nat → Bool → List Handled → List ReadState
  | _, _, [] => []
  | maxRead, keepAlive, o :: calls =>
    let maxRead := o.maxRead.getD maxRead
    let keepAlive := o.keepAlive.getD keepAlive
    ⟨o.result, o.request, maxRead, keepAlive⟩ :: readStates maxRead keepAlive calls

/-- A request as it comes in on a new client: a head with these names and values, and the lines
    and pieces behind it. The values come with the endings of their lines. -/
def readStatesOf (opts : Options) (methodLine : Bytes) (names values rest : List Bytes) :
    List ReadState :=
  let lines := methodLine :: List.zipWith Request.headerText names values ++ rest
  readStates 0 ({} : Client).keepAlive (feed opts lines {})

/-- The same name but for the case of its letters. -/
def Recased (name name' : Bytes) : Prop :=
  toLower name = toLower name' ∧ ¬ ascii ": " <:+: name ∧ ¬ ascii ": " <:+: name'

/-- With either spelling of the names every call comes to the same. -/
def CaseInsensitive (names names' : List Bytes) : Prop :=
  ∀ opts methodLine values rest, values.length = names.length →
    readStatesOf opts methodLine names values rest = readStatesOf opts methodLine names' values rest

/-- The spellings agree on what is to be acted upon. -/
def AgreeOnActedUpon (names names' : List Bytes) : Prop :=
  List.Forall₂ (fun name name' => Request.ActedUpon name ↔ Request.ActedUpon name') names names'

/-- Two spellings of a name that are both acted upon are one. -/
theorem Recased.eq_of_actedUpon {name name' : Bytes} (h : Recased name name')
    (hname : Request.ActedUpon name) (hname' : Request.ActedUpon name') : name = name' := by
  have hlower := h.1
  rcases hname with rfl | rfl | rfl
  · rcases hname' with rfl | rfl | rfl
    · rfl
    · exact absurd hlower (by decide)
    · exact absurd hlower (by decide)
  · rcases hname' with rfl | rfl | rfl
    · exact absurd hlower (by decide)
    · rfl
    · exact absurd hlower (by decide)
  · rcases hname' with rfl | rfl | rfl
    · exact absurd hlower (by decide)
    · exact absurd hlower (by decide)
    · rfl

/-- A header is read the same under two spellings that agree. -/
theorem header_recased (opts : Options) {name name' : Bytes} (h : Recased name name')
    (hagree : Request.ActedUpon name ↔ Request.ActedUpon name') (value : Bytes) (q : Request) :
    q.header opts name value = q.header opts name' value := by
  by_cases hacted : Request.ActedUpon name
  · rw [h.eq_of_actedUpon hacted (hagree.mp hacted)]
  · have hother : ¬ Request.ActedUpon name' := fun h' => hacted (hagree.mpr h')
    rw [Request.header_of_not_actedUpon opts hacted, Request.header_of_not_actedUpon opts hother,
      h.1]

/-- The rest of a head, from a header on. -/
theorem feed_recased (opts : Options) {names names' : List Bytes}
    (h : List.Forall₂ Recased names names') (hagree : AgreeOnActedUpon names names') {q : Request}
    (hmode : q.mode = .headers) (values rest : List Bytes) :
    feed opts (List.zipWith Request.headerText names values ++ rest) q =
      feed opts (List.zipWith Request.headerText names' values ++ rest) q := by
  induction h generalizing q values with
  | nil => rfl
  | @cons name name' names names' hname hnames ih =>
    obtain ⟨hfirst, hothers⟩ := List.forall₂_cons.mp hagree
    cases values with
    | nil => rfl
    | cons value values =>
      have hline := Request.handleLine_headerText opts hmode hname.2.1
        (Request.stripLine_headerText name value)
      have hline' := Request.handleLine_headerText opts hmode hname.2.2
        (Request.stripLine_headerText name' value)
      rw [← header_recased opts hname hfirst] at hline'
      rw [List.zipWith_cons_cons, List.zipWith_cons_cons, List.cons_append, List.cons_append]
      by_cases hcontinue : (q.header opts name (Request.stripLine value)).result = .ok .continue
      · have hnext := (Request.header_took opts hcontinue).mode.trans hmode
        rw [feed_continue (by rw [hline, hcontinue]), feed_continue (by rw [hline', hcontinue]),
          hline, hline', ih hothers hnext]
      · rw [feed_stop (by rwa [hline]), feed_stop (by rwa [hline']), hline, hline']

/-! ## Values that tell spellings apart -/

/-- A value that is accepted, and changes nothing but the map and the ranges. -/
def acceptedValue (name : Bytes) : Bytes :=
  if name = ascii "Content-Length" then ascii "0"
  else if name = ascii "Range" then ascii "bytes="
  else []

theorem header_acceptedValue (name : Bytes) (q : Request) :
    (q.header {} name (acceptedValue name)).result = .ok .continue ∧
      (q.header {} name (acceptedValue name)).keepAlive.getD true = true ∧
      (q.header {} name (acceptedValue name)).maxRead = none := by
  unfold Request.header acceptedValue
  by_cases hlength : name = ascii "Content-Length"
  · have hparse : parseUlong {} (ascii "0") = .ok 0 := by decide
    have hcheck : ∀ r : Request, r.lengthRemaining = 0 → Request.checkLength {} r = none := by
      intro r hr
      unfold Request.checkLength
      rw [hr]
      split
      · rfl
      · rfl
    simp only [if_pos hlength, Request.contentLengthHeader, hparse]
    rw [hcheck _ rfl]
    exact ⟨rfl, rfl, rfl⟩
  · by_cases hrange : name = ascii "Range"
    · have haccepted : ∀ r : Request, Request.parseRange {} (ascii "bytes=") r =
          ({ r with ranges := [] }, none) := fun r => rfl
      simp only [if_neg hlength, if_pos hrange, haccepted, Option.getD_none, and_self]
    · simp only [if_neg hlength, if_neg hrange]
      split
      · have hclose : decide (([] : Bytes) ≠ ascii "close") = true := by decide
        exact ⟨rfl, hclose, rfl⟩
      · exact ⟨rfl, rfl, rfl⟩

/-- A header that is acted upon is refused with this value, or ends the connection. -/
theorem header_close (name : Bytes) (q : Request) :
    Request.ActedUpon name ↔
      (q.header {} name (ascii "close")).result ≠ .ok .continue ∨
        (q.header {} name (ascii "close")).keepAlive.getD true = false := by
  refine ⟨fun hacted => ?_, fun hclose => ?_⟩
  · rcases hacted with rfl | rfl | rfl
    · have hparse : ∃ e, parseUlong {} (ascii "close") = .error e := ⟨_, rfl⟩
      obtain ⟨e, hparse⟩ := hparse
      refine .inl ?_
      unfold Request.header Request.contentLengthHeader
      simp [hparse]
    · exact .inl fun h => by cases h
    · have hclose : decide (ascii "close" ≠ ascii "close") = false := by decide
      exact .inr hclose
  · by_contra hother
    rw [Request.header_of_not_actedUpon {} hother] at hclose
    rcases hclose with hresult | hkeepAlive
    · exact hresult rfl
    · cases hkeepAlive

theorem agree_of_readStates {names names' : List Bytes} (h : List.Forall₂ Recased names names')
    {q : Request} (hmode : q.mode = .headers) (maxRead : Nat)
    (hsame : ∀ values, values.length = names.length →
      readStates maxRead true (feed {} (List.zipWith Request.headerText names values) q) =
        readStates maxRead true (feed {} (List.zipWith Request.headerText names' values) q)) :
    AgreeOnActedUpon names names' := by
  induction h generalizing q with
  | nil => exact .nil
  | @cons name name' names names' hname hnames ih =>
    have hline : ∀ value, q.handleLine {} (Request.headerText name value) =
        q.header {} name (Request.stripLine value) := fun value =>
      Request.handleLine_headerText {} hmode hname.2.1 (Request.stripLine_headerText name value)
    have hline' : ∀ value, q.handleLine {} (Request.headerText name' value) =
        q.header {} name' (Request.stripLine value) := fun value =>
      Request.handleLine_headerText {} hmode hname.2.2 (Request.stripLine_headerText name' value)
    have hagree : Request.ActedUpon name ↔ Request.ActedUpon name' := by
      have hclose := hsame (ascii "close" :: List.replicate names.length []) (by simp)
      obtain ⟨calls, hfeed⟩ := feed_cons {} (Request.headerText name (ascii "close"))
        (List.zipWith Request.headerText names (List.replicate names.length [])) q
      obtain ⟨calls', hfeed'⟩ := feed_cons {} (Request.headerText name' (ascii "close"))
        (List.zipWith Request.headerText names' (List.replicate names.length [])) q
      rw [List.zipWith_cons_cons, List.zipWith_cons_cons, hfeed, hfeed', hline, hline'] at hclose
      unfold readStates at hclose
      rw [List.cons.injEq, ReadState.mk.injEq] at hclose
      obtain ⟨⟨hresult, -, -, hkeepAlive⟩, -⟩ := hclose
      have hstrip : Request.stripLine (ascii "close") = ascii "close" := by decide
      rw [hstrip] at hresult hkeepAlive
      rw [header_close name q, header_close name' q, hresult, hkeepAlive]
    have hstrip : Request.stripLine (acceptedValue name) = acceptedValue name := by
      unfold acceptedValue
      split
      · decide
      · split <;> decide
    obtain ⟨hcontinue, hkeepAlive, hmaxRead⟩ := header_acceptedValue name q
    have hnext := (Request.header_took {} hcontinue).mode.trans hmode
    refine .cons hagree (ih hnext fun values hlength => ?_)
    have hrest := hsame (acceptedValue name :: values) (by simp [hlength])
    rw [List.zipWith_cons_cons, List.zipWith_cons_cons,
      feed_continue (by rw [hline, hstrip, hcontinue]),
      feed_continue (by rw [hline', hstrip, ← header_recased {} hname hagree, hcontinue]),
      hline, hline', hstrip, ← header_recased {} hname hagree] at hrest
    unfold readStates at hrest
    dsimp only at hrest
    rw [hkeepAlive, hmaxRead] at hrest
    exact (List.cons.inj hrest).2

/-- **Letter case.** Two spellings of the names of a head are read alike exactly when they agree
    on which names are spelled `Content-Length`, `Range` or `Connection`. -/
theorem caseInsensitive_iff {names names' : List Bytes} (h : List.Forall₂ Recased names names') :
    CaseInsensitive names names' ↔ AgreeOnActedUpon names names' := by
  refine ⟨fun hsame => ?_, fun hagree opts methodLine values rest _ => ?_⟩
  · have hmethod : (Request.handleLine {} (ascii "GET / HTTP/1.1") {}).result = .ok .continue := by
      decide
    have hclient : (Request.handleLine {} (ascii "GET / HTTP/1.1") {}).keepAlive = none ∧
        (Request.handleLine {} (ascii "GET / HTTP/1.1") {}).maxRead = none := by decide
    refine agree_of_readStates h (inHeaders_methodLine hmethod).mode 0 fun values hlength => ?_
    have hrest := hsame {} (ascii "GET / HTTP/1.1") values [] hlength
    unfold readStatesOf at hrest
    dsimp only at hrest
    rw [List.append_nil, List.append_nil, feed_continue hmethod, feed_continue hmethod] at hrest
    unfold readStates at hrest
    dsimp only at hrest
    rw [hclient.1, hclient.2] at hrest
    exact (List.cons.inj hrest).2
  · unfold readStatesOf
    dsimp only
    rw [List.cons_append, List.cons_append]
    by_cases hcontinue : (Request.handleLine opts methodLine {}).result = .ok .continue
    · rw [feed_continue hcontinue, feed_continue hcontinue,
        feed_recased opts h hagree (inHeaders_methodLine hcontinue).mode]
    · rw [feed_stop hcontinue, feed_stop hcontinue]

/-- A name that nothing is done for may be spelled in any way. -/
theorem caseInsensitive_iff_accept :
    CaseInsensitive [ascii "Accept"] [ascii "ACCEPT"] ↔
      AgreeOnActedUpon [ascii "Accept"] [ascii "ACCEPT"] :=
  caseInsensitive_iff (.cons ⟨by decide, by decide, by decide⟩ .nil)

/-- `content-length: 3` announces a body, but not its length. -/
theorem not_caseInsensitive :
    ¬ CaseInsensitive [ascii "Content-Length"] [ascii "content-length"] := by
  intro h
  have hlengths := congrArg (List.map fun state => state.request.contentLength)
    (h {} (ascii "POST / HTTP/1.1") [ascii "3"] [[]] rfl)
  have hspelled : (readStatesOf {} (ascii "POST / HTTP/1.1") [ascii "Content-Length"] [ascii "3"]
      [[]]).map (fun state => state.request.contentLength) = [0, 3, 3] := by decide
  have hlower : (readStatesOf {} (ascii "POST / HTTP/1.1") [ascii "content-length"] [ascii "3"]
      [[]]).map (fun state => state.request.contentLength) = [0, 0, 0] := by decide
  rw [hspelled, hlower] at hlengths
  exact absurd hlengths (by decide)

end Algiz.HTTP
