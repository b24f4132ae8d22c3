/-
  The protocols that the handlers of WebSocket connections are offered.

  A client lists protocols in one header, with commas between them, or in several. The values are
  joined with a space and split at spaces, and a comma stays with the token that it stands beside.
  So a token is found that the client did list exactly if in some header there is a space, or an
  end of the value, on either side of it (`protocols_iff`).
-/
import Algiz.HTTP.Head
import Algiz.HTTP.Server
import Algiz.Lib.Tokens

namespace Algiz.HTTP

open Lib

/-- The name of the header, in lower case. -/
def protocolHeader : Bytes := ascii "sec-websocket-protocol"

/-- `protocols` in `Server::handleGET` -/
def protocols (r : Request) : List Bytes :=
  match r.headers[protocolHeader]? with
  | none => []
  | some protocol => split protocol (ascii " ") true

/-- The handlers of connections are asked with these protocols. -/
theorem Server.upgrade_eq {σ : Type*} (server : Server σ) {r : Request} (s : Session σ)
    {key : Bytes} (hkey : r.headers[ascii "sec-websocket-key"]? = some key)
    (hversion : r.headers.contains (ascii "sec-websocket-version") = true)
    (hlength : key.length = 24) :
    server.upgrade r s =
      let s := ({ s with
        client.isWebSocket := true
        client.webSocketPath := server.getParts r.path }).emit (.act .leaveLineMode)
      let answer := server.webSocketConnectionHandlers s.plugins s.client r
        (server.getParts r.path) (protocols r)
      (s.react answer.toReaction).andThen fun s =>
        match answer.result with
        | .pass => unhandled s
        | .kill => respond s (server.switchingProtocols key answer.acceptedProtocol) := by
  have hnot : ¬ ((!r.headers.contains (ascii "sec-websocket-version") || key.length ≠ 24) =
      true) := by
    rw [hversion, hlength]
    decide
  unfold upgrade
  rw [hkey]
  dsimp only
  rw [if_neg hnot]
  rfl

/-! ## What the protocols are -/

theorem mem_split_space {t str : Bytes} (hne : t ≠ []) :
    t ∈ split str (ascii " ") true ↔ t ∈ fields 32 str := by
  have hpieces : pieces (ascii " ") str.length str = fields 32 str :=
    pieces_singleton 32 (Nat.le_refl _)
  have hsome : t.isEmpty = false := List.isEmpty_eq_false_iff.mpr hne
  unfold split
  rw [hpieces]
  split
  · rename_i hempty
    rw [List.isEmpty_iff.mp hempty]
    exact iff_of_false List.not_mem_nil fun h => hne (List.mem_singleton.mp h)
  · cases hfields : fields 32 str with
    | nil => exact Iff.rfl
    | cons first rest => simp [List.mem_cons, List.mem_filter, hsome]

/-- The empty values that were replaced hold no token. -/
theorem mem_fields_joined {t : Bytes} (hne : t ≠ []) (values : List Bytes) :
    t ∈ fields 32 (joined values) ↔ ∃ value ∈ values, t ∈ fields 32 value := by
  have hspace : ascii " " = [32] := rfl
  unfold joined
  rw [hspace]
  induction values with
  | nil =>
    refine iff_of_false (fun h => hne (List.mem_singleton.mp h)) ?_
    rintro ⟨value, hvalue, -⟩
    exact absurd hvalue List.not_mem_nil
  | cons value values ih =>
    cases value with
    | nil =>
      have hnone : t ∉ fields 32 ([] : Bytes) := fun h => hne (List.mem_singleton.mp h)
      rw [List.dropWhile_cons_of_pos rfl]
      refine ih.trans ⟨?_, ?_⟩
      · rintro ⟨value, hvalue, ht⟩
        exact ⟨value, List.mem_cons_of_mem _ hvalue, ht⟩
      · rintro ⟨value, hvalue, ht⟩
        rcases List.mem_cons.mp hvalue with rfl | hvalue
        · exact absurd ht hnone
        · exact ⟨value, hvalue, ht⟩
    | cons b value =>
      rw [List.dropWhile_cons_of_neg Bool.false_ne_true,
        fields_intercalate 32 (List.cons_ne_nil _ _), List.mem_flatMap]

/-- What stands alone in a header's value is offered, and nothing else. -/
theorem mem_protocols_iff {r : Request} {headers : List (Bytes × Bytes)}
    (h : r.headers[protocolHeader]? = kept headers protocolHeader) {t : Bytes} (hne : t ≠ [])
    (hspace : 32 ∉ t) :
    t ∈ protocols r ↔ ∃ value ∈ valuesOf headers protocolHeader, StandsAlone 32 t value := by
  unfold protocols kept at *
  rw [h]
  by_cases hnone : valuesOf headers protocolHeader = []
  · rw [if_pos hnone, hnone]
    refine iff_of_false List.not_mem_nil ?_
    rintro ⟨value, hvalue, -⟩
    exact absurd hvalue List.not_mem_nil
  · rw [if_neg hnone]
    dsimp only
    rw [mem_split_space hne, mem_fields_joined hne]
    exact exists_congr fun value => and_congr_right fun _ => mem_fields_iff hspace

/-! ## The head of the request -/

theorem feed_single (opts : Options) (line : Bytes) (q : Request) :
    feed opts [line] q = [q.handleLine opts line] := by
  by_cases hcontinue : (q.handleLine opts line).result = .ok .continue
  · rw [feed_continue hcontinue]
    rfl
  · exact feed_stop hcontinue []

/-- The blank line leaves the headers. -/
theorem handleLine_blank_headers (opts : Options) {q : Request} (hmode : q.mode = .headers)
    {line : Bytes} (hline : Ended [] line) :
    (q.handleLine opts line).request.headers = q.headers := by
  have hstrip := hline.stripLine ⟨by decide, by decide⟩
  unfold Request.handleLine Request.blankLine
  simp only [hmode, hstrip, List.isEmpty_nil, if_true]
  split <;> rfl

/-- A head that is taken to its end leaves its headers in the map, whatever they are. -/
theorem feed_headers_read (opts : Options) {headers : List (Bytes × Bytes)}
    (hnames : ∀ header ∈ headers, ¬ ascii ": " <:+: header.1)
    (hvalues : ∀ header ∈ headers, carriageReturn ∉ header.2 ∧ newline ∉ header.2)
    {q : Request} (hmode : q.mode = .headers) {lines : List Bytes}
    (hlines : List.Forall₂ Ended
      (headers.map (fun header => Request.headerText header.1 header.2) ++ [[]]) lines)
    {last : HandleResult} (hread : (feed opts lines q).map Handled.result =
      List.replicate headers.length (.ok .continue) ++ [.ok last]) :
    ∃ r, (feed opts lines q).getLast?.map Handled.request = some r ∧
      r.headers = addHeaders headers q.headers := by
  induction headers generalizing q lines with
  | nil =>
    obtain ⟨line, hline, rfl⟩ := ended_single hlines
    rw [feed_single]
    exact ⟨_, rfl, handleLine_blank_headers opts hmode hline⟩
  | cons header headers ih =>
    cases hlines with
    | cons hline hrest =>
      rename_i line lines
      obtain ⟨hname, hnames⟩ := List.forall_mem_cons.mp hnames
      obtain ⟨hvalue, hvalues⟩ := List.forall_mem_cons.mp hvalues
      have hstrip := hline.stripLine (headerText_unended hvalue header.1)
      have hhandled := Request.handleLine_headerText opts hmode hname hstrip
      have hcontinue : (q.handleLine opts line).result = .ok .continue := by
        obtain ⟨calls, hcalls⟩ := feed_cons opts line lines q
        rw [hcalls, List.map_cons, List.length_cons, List.replicate_succ,
          List.cons_append] at hread
        exact (List.cons.inj hread).1
      rw [hhandled] at hcontinue
      have htook := Request.header_took opts hcontinue
      rw [← hhandled] at hcontinue htook
      rw [feed_continue hcontinue] at hread ⊢
      obtain ⟨r, hlast, hheaders⟩ := ih hnames hvalues (htook.mode.trans hmode) hrest
        (List.cons.inj hread).2
      obtain ⟨o, ho, hrequest⟩ := Option.map_eq_some_iff.mp hlast
      refine ⟨r, ?_, ?_⟩
      · rw [List.getLast?_cons, ho]
        exact congrArg some hrequest
      · rw [hheaders, htook.headers]
        rfl

/-! ## What the client lists -/

/-- A space or a tab. -/
def isBlank (b : UInt8) : Bool := b == 32 || b == 9

/-- A token: it is not empty, and there is neither a blank nor a comma in it. -/
def IsProtocol (t : Bytes) : Prop := t ≠ [] ∧ ∀ b ∈ t, isBlank b = false ∧ b ≠ 44

/-- The protocols that a client lists, header by header, as they are written. -/
structure Offer where
  headers : List (List (Padded UInt8))
  blanks : ∀ header ∈ headers, ∀ e ∈ header, e.WellFormed isBlank 44
  tokens : ∀ header ∈ headers, ∀ e ∈ header, IsProtocol e.token

/-- The values of the headers. -/
def Offer.values (offer : Offer) : List Bytes := offer.headers.map (Padded.written 44)

/-- The client listed it. -/
def Offer.Lists (offer : Offer) (t : Bytes) : Prop := ∃ header ∈ offer.headers, ∃ e ∈ header,
  e.token = t

/-- With a space or an end of the value on either side, in some header. -/
def Offer.Apart (offer : Offer) (t : Bytes) : Prop :=
  ∃ value ∈ offer.values, StandsAlone 32 t value

/-- What is offered was listed. -/
theorem Offer.lists_of_apart {offer : Offer} {t : Bytes} (ht : IsProtocol t)
    (h : offer.Apart t) : offer.Lists t := by
  obtain ⟨value, hvalue, halone⟩ := h
  obtain ⟨header, hheader, rfl⟩ := List.mem_map.mp hvalue
  obtain ⟨e, he, htoken⟩ := Padded.token_of_standsAlone halone (offer.blanks header hheader)
    (by decide) (by decide) ht.1 ht.2
  exact ⟨header, hheader, e, he, htoken⟩

/-- A head that lists protocols is taken to its end. The vector then holds a token exactly if the
    client listed it, provided that a listed token stands apart in some header. -/
theorem protocols_iff (opts : Options) {headers : List (Bytes × Bytes)}
    (hnames : ∀ header ∈ headers, ¬ ascii ": " <:+: header.1)
    (hvalues : ∀ header ∈ headers, carriageReturn ∉ header.2 ∧ newline ∉ header.2)
    {q : Request} (hmode : q.mode = .headers) (hempty : q.headers = ∅) {lines : List Bytes}
    (hlines : List.Forall₂ Ended
      (headers.map (fun header => Request.headerText header.1 header.2) ++ [[]]) lines)
    {last : HandleResult} (hread : (feed opts lines q).map Handled.result =
      List.replicate headers.length (.ok .continue) ++ [.ok last])
    {offer : Offer} (hoffer : valuesOf headers protocolHeader = offer.values) :
    ∃ r, (feed opts lines q).getLast?.map Handled.request = some r ∧
      ∀ t, IsProtocol t →
        ((t ∈ protocols r ↔ offer.Lists t) ↔ (offer.Lists t → offer.Apart t)) := by
  obtain ⟨r, hlast, hheaders⟩ := feed_headers_read opts hnames hvalues hmode hlines hread
  refine ⟨r, hlast, fun t ht => ?_⟩
  have hkept : r.headers[protocolHeader]? = kept headers protocolHeader := by
    rw [hheaders, hempty]
    exact addHeaders_get headers protocolHeader
  have hspace : 32 ∉ t := fun hin => absurd (ht.2 32 hin).1 (by decide)
  have hmem : t ∈ protocols r ↔ offer.Apart t := by
    rw [mem_protocols_iff hkept ht.1 hspace, hoffer]
    exact Iff.rfl
  rw [hmem]
  exact ⟨fun h => h.mpr, fun h => ⟨Offer.lists_of_apart ht, h⟩⟩

theorem isProtocol_of_all {t : Bytes} (hne : t ≠ [])
    (h : (t.all fun b => !isBlank b && b != 44) = true) : IsProtocol t := by
  refine ⟨hne, fun b hb => ?_⟩
  have hb' := List.all_eq_true.mp h b hb
  rw [Bool.and_eq_true_iff, Bool.not_eq_true', bne_iff_ne] at hb'
  exact hb'

section Pair

variable {first second : Bytes} (hfirst : IsProtocol first) (hsecond : IsProtocol second)

include hfirst hsecond

theorem pair_blanks : ∀ header ∈ [[(⟨[], first, []⟩ : Padded UInt8), ⟨[32], second, []⟩]],
    ∀ e ∈ header, e.WellFormed isBlank 44 := by
  intro header hheader e he
  rw [List.mem_singleton.mp hheader] at he
  rcases List.mem_cons.mp he with rfl | he
  · exact ⟨List.all_eq_true.mp rfl, List.all_eq_true.mp rfl, hfirst.2⟩
  · rw [List.mem_singleton.mp he]
    exact ⟨List.all_eq_true.mp rfl, List.all_eq_true.mp rfl, hsecond.2⟩

theorem pair_tokens : ∀ header ∈ [[(⟨[], first, []⟩ : Padded UInt8), ⟨[32], second, []⟩]],
    ∀ e ∈ header, IsProtocol e.token := by
  intro header hheader e he
  rw [List.mem_singleton.mp hheader] at he
  rcases List.mem_cons.mp he with rfl | he
  · exact hfirst
  · rw [List.mem_singleton.mp he]
    exact hsecond

/-- One header with two protocols, and a space behind the comma. -/
def Offer.pair : Offer where
  headers := [[⟨[], first, []⟩, ⟨[32], second, []⟩]]
  blanks := pair_blanks hfirst hsecond
  tokens := pair_tokens hfirst hsecond

end Pair

theorem isProtocol_chat : IsProtocol (ascii "chat") := isProtocol_of_all (by decide) (by decide)

theorem isProtocol_superchat : IsProtocol (ascii "superchat") :=
  isProtocol_of_all (by decide) (by decide)

/-- `chat, superchat` -/
def chatOffer : Offer := Offer.pair isProtocol_chat isProtocol_superchat

/-- The header in which they are listed. -/
def chatHeaders : List (Bytes × Bytes) :=
  [(ascii "Sec-WebSocket-Protocol", ascii "chat, superchat")]

/-- The lines of the header and of the end of the head. -/
def chatLines : List Bytes := [ascii "Sec-WebSocket-Protocol: chat, superchat\x0d\n", []]

theorem chatLines_ended : List.Forall₂ Ended
    (chatHeaders.map (fun header => Request.headerText header.1 header.2) ++ [[]]) chatLines :=
  .cons (.inr (by decide)) (.cons (.inl rfl) .nil)

theorem chatLines_read : (feed {} chatLines { mode := .headers }).map Handled.result =
    List.replicate chatHeaders.length (.ok .continue) ++ [.ok .done] := by decide

theorem protocols_chat :
    ∃ r, (feed {} chatLines { mode := .headers }).getLast?.map Handled.request = some r ∧
      ∀ t, IsProtocol t → ((t ∈ protocols r ↔ chatOffer.Lists t) ↔
        (chatOffer.Lists t → chatOffer.Apart t)) :=
  protocols_iff {} (by decide) (by decide) rfl rfl chatLines_ended chatLines_read (by decide)

/-- The comma stays with the token before it. -/
theorem protocols_comma : ¬ ∀ (r : Request) (headers : List (Bytes × Bytes)) (offer : Offer),
    r.headers = addHeaders headers ∅ → valuesOf headers protocolHeader = offer.values →
      ∀ t, IsProtocol t → (t ∈ protocols r ↔ offer.Lists t) := by
  intro h
  have hchat := h { headers := addHeaders chatHeaders ∅ } chatHeaders chatOffer rfl (by decide) _
    isProtocol_chat
  have hlists : chatOffer.Lists (ascii "chat") :=
    ⟨_, List.mem_singleton_self _, _, List.mem_cons_self, rfl⟩
  exact absurd (hchat.mpr hlists) (by decide)

end Algiz.HTTP
