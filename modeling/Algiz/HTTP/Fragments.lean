/-
  Frames without FIN.

  Messages in several frames are not put together: the client is to end the WebSocket when a frame
  without FIN comes, once, and its payload is to go nowhere (`Refused`). `handleInput` does so in
  two of the three places where a payload can be found whole. In the third, where a payload is
  gone on with whose header came in an earlier call, nothing is done about a frame without FIN:
  the payload stays in the packet, in front of that of the next frame. So the frame is refused
  exactly when the call that brings the end of its header brings all of its payload as well
  (`refused_iff`).
-/
import Algiz.HTTP.WebSocketReceive

namespace Algiz.HTTP

variable {σ : Type*}

/-! ## Ends of WebSockets -/

def Event.isCloseWebSocket : Event → Bool
  | closeWebSocket => true
  | act _ | handleRequest _ | webSocketMessage _ => false

/-- How many times the WebSocket has been ended. -/
def Session.webSocketCloses (s : Session σ) : Nat := s.events.countP Event.isCloseWebSocket

theorem Session.react_webSocketCloses (s : Session σ) (r : Net.Reaction σ) :
    (s.react r).webSocketCloses = s.webSocketCloses := by
  have hacts : (r.acts.map Event.act).countP Event.isCloseWebSocket = 0 := by
    rw [List.countP_map, List.countP_eq_zero]
    exact fun _ _ => Bool.false_ne_true
  unfold webSocketCloses react
  rw [List.countP_append, hacts, Nat.add_zero]

/-- What `closeWebSocket` leaves of the client and adds to what was done. -/
structure Ends (s s' : Session σ) : Prop where
  client : s'.client = s.client
  messages : s'.webSocketMessages = s.webSocketMessages
  closes : s'.webSocketCloses = s.webSocketCloses + 1

theorem closeWebSocket_ends (server : Server σ) (s : Session σ) :
    Ends s (s.closeWebSocket server) := by
  let started := (s.sendWebSocket (ascii "Error") false 8).emit .closeWebSocket
  have hmessages : started.webSocketMessages = s.webSocketMessages := by
    simp [started, Session.webSocketMessages, Session.sendWebSocket, Session.send, Session.emit,
      Event.toMessage]
  have hcloses : started.webSocketCloses = s.webSocketCloses + 1 := by
    simp [started, Session.webSocketCloses, Session.sendWebSocket, Session.send, Session.emit,
      Event.isCloseWebSocket]
  let reaction := server.webSocketCloseHandlers started.plugins started.client
  have hreact : s.closeWebSocket server = (started.react reaction).andThen Session.close := rfl
  rw [hreact]
  cases hthrown : (started.react reaction).thrown with
  | some e =>
    rw [Session.andThen_of_some hthrown]
    exact ⟨rfl, (Session.react_webSocketMessages ..).trans hmessages,
      (Session.react_webSocketCloses ..).trans hcloses⟩
  | none =>
    have hclosed : (started.react reaction).close.webSocketMessages =
        (started.react reaction).webSocketMessages := by
      simp [Session.close, Session.webSocketMessages, Session.emit, Event.toMessage]
    have hcount : (started.react reaction).close.webSocketCloses =
        (started.react reaction).webSocketCloses := by
      simp [Session.close, Session.webSocketCloses, Session.emit, Event.isCloseWebSocket]
    rw [Session.andThen_of_none hthrown]
    exact ⟨rfl, hclosed.trans ((Session.react_webSocketMessages ..).trans hmessages),
      hcount.trans ((Session.react_webSocketCloses ..).trans hcloses)⟩

/-! ## What becomes of a frame without FIN -/

/-- A data frame without FIN. -/
structure Fragment extends MaskedFrame where
  unfinished : toMaskedFrame.fin = false
  data : toMaskedFrame.opcode < 8

/-- The WebSocket is ended once, nothing is passed on, and whatever frames come later are passed
    on as they are. -/
structure Refused (server : Server σ) (calls : List Bytes) (s : Session σ) : Prop where
  closes : (receive server calls s).webSocketCloses = 1
  messages : (receive server calls s).webSocketMessages = []
  later : ∀ frames : List Frame,
    (∀ f ∈ frames, f.payload.length ≤ s.client.maxWebSocketPacketLength) →
    ∀ more : List Bytes, more.flatten <+: stream frames →
      ∃ k, (receive server (calls ++ more) s).webSocketMessages =
        (frames.take k).map Frame.payload

/-- One of the calls brings the last byte of the header, and all of the payload. -/
def ComesTogether (f : Fragment) (calls : List Bytes) : Prop :=
  ∃ front call rest, calls = front ++ call :: rest ∧ front.flatten.length < f.header.length ∧
    front.flatten ++ call = f.encode

/-- The client awaits the rest of the payload, of which `n` bytes are there. -/
structure AwaitsRest (c : Client) (f : Fragment) (n : Nat) : Prop where
  partly : n < f.payload.length
  awaiting : c.awaitingWebSocketHeader = false
  lastFin : c.lastFin = false
  mask : c.webSocketMask = f.mask
  packet : c.packet = f.payload.take n
  remaining : c.remainingBytesInPacket = f.payload.length - n
  offset : c.maskOffset = n % 4
  leftover : c.leftoverMessage = []

/-- The client has the whole payload in its packet, and awaits a header. -/
structure HoldsWhole (c : Client) (f : Fragment) : Prop where
  awaiting : c.awaitingWebSocketHeader = true
  packet : c.packet = f.payload
  leftover : c.leftoverMessage = []

/-- The client holds these bytes of the frame, and has not ended the WebSocket. -/
inductive HoldsPart (c : Client) (f : Fragment) : Bytes → Prop
  | header {bytes : Bytes} (hshort : bytes.length < f.header.length) (h : AwaitsHeader c bytes) :
      HoldsPart c f bytes
  | payload {n : Nat} (h : AwaitsRest c f n) :
      HoldsPart c f (f.header ++ unmask f.mask 0 (f.payload.take n))
  | whole (h : HoldsWhole c f) : HoldsPart c f f.encode

/-- Nothing has been done about the frame. -/
structure Unnoticed (s s' : Session σ) : Prop where
  thrown : s'.thrown = none
  events : s'.events = s.events
  isWebSocket : s'.client.isWebSocket = s.client.isWebSocket
  limit : s'.client.maxWebSocketPacketLength = s.client.maxWebSocketPacketLength

/-- The call ends the WebSocket, and the client awaits a header again. -/
structure Noticed (s s' : Session σ) : Prop where
  messages : s'.webSocketMessages = s.webSocketMessages
  closes : s'.webSocketCloses = s.webSocketCloses + 1
  isWebSocket : s'.client.isWebSocket = s.client.isWebSocket
  limit : s'.client.maxWebSocketPacketLength = s.client.maxWebSocketPacketLength
  awaits : s'.thrown = none → AwaitsHeader s'.client []

/-! ## One call -/

section Call

variable (server : Server σ) {f : Fragment}

theorem Fragment.opcode_ne_ping (f : Fragment) : f.byte1 &&& 0xf ≠ 9 := by
  have hdata : f.byte1 &&& 0xf < 8 := f.data
  intro hping
  rw [hping] at hdata
  exact absurd hdata (by decide)

/-- The end of a payload that came with the end of its header. -/
theorem afterPayload_notices {s : Session σ} (hwhole : s.client.remainingBytesInPacket = 0) :
    Noticed s (afterPayload server false [] s) := by
  have hinput : afterPayload server false [] s =
      (Session.finishPacket server false { s with client.awaitingWebSocketHeader := true }).andThen
        fun s => { s with client.leftoverMessage := [] } := by
    have hnil : ¬ 0 < ([] : Bytes).length := Nat.lt_irrefl 0
    unfold afterPayload
    rw [if_neg hnil, if_pos hwhole]
  have hends := closeWebSocket_ends server
    ({ s with client.awaitingWebSocketHeader := true } : Session σ)
  have hfinish : Session.finishPacket server false
      ({ s with client.awaitingWebSocketHeader := true } : Session σ) =
      (({ s with client.awaitingWebSocketHeader := true } : Session σ).closeWebSocket
        server).andThen Session.clearPacket := rfl
  generalize ({ s with client.awaitingWebSocketHeader := true } : Session σ).closeWebSocket server =
    ended at hends hfinish
  have hsocket : ended.client.isWebSocket = s.client.isWebSocket := by rw [hends.client]
  have hlimit : ended.client.maxWebSocketPacketLength = s.client.maxWebSocketPacketLength := by
    rw [hends.client]
  rw [hinput, hfinish]
  cases hthrown : ended.thrown with
  | some e =>
    rw [Session.andThen_of_some hthrown, Session.andThen_of_some hthrown]
    refine ⟨hends.messages, hends.closes, hsocket, hlimit, fun hnone => ?_⟩
    rw [hthrown] at hnone
    cases hnone
  | none =>
    have hcleared : ended.clearPacket.thrown = none := hthrown
    rw [Session.andThen_of_none hthrown, Session.andThen_of_none hcleared]
    refine ⟨hends.messages, hends.closes, hsocket, hlimit, fun _ => ⟨?_, rfl, rfl⟩⟩
    exact congrArg Client.awaitingWebSocketHeader hends.client

/-- What a call makes of a part of the frame: nothing is done about it, unless the call brings the
    end of the header and all of the payload. -/
inductive Handles (f : Fragment) (bytes p : Bytes) (s s' : Session σ) : Prop
  | part (h : Unnoticed s s') (hholds : HoldsPart s'.client f (bytes ++ p))
      (hapart : ¬ (bytes.length < f.header.length ∧ bytes ++ p = f.encode))
  | together (h : Noticed s s') (hshort : bytes.length < f.header.length)
      (hall : bytes ++ p = f.encode)

/-- A call while the header is not all there. -/
theorem webSocketInput_beforePayload {bytes p : Bytes} {s : Session σ}
    (hshort : bytes.length < f.header.length) (h : AwaitsHeader s.client bytes)
    (hthrown : s.thrown = none) (hlimit : f.payload.length ≤ s.client.maxWebSocketPacketLength)
    (hbytes : bytes ++ p <+: f.encode) :
    Handles f bytes p s (webSocketInput server p s) := by
  have hinput := webSocketInput_header server h p
  have hlen := f.length_encode
  rcases prefix_append_cases hbytes with ⟨hbegins, hpart⟩ | ⟨data, hdata, hrest⟩
  · obtain ⟨fin, hwaits⟩ := headerInput_short server f.asText f.byte1 (!bytes.isEmpty)
      { s with client.leftoverMessage := if bytes.isEmpty then [] else bytes ++ p } hlimit hbegins
      hpart
    have hinput := hinput.trans hwaits
    rw [hinput]
    unfold Session.wait
    have hapart : ¬ (bytes.length < f.header.length ∧ bytes ++ p = f.encode) := by
      rintro ⟨-, hall⟩
      rw [hall] at hpart
      omega
    cases hempty : bytes.isEmpty
    · exact .part ⟨hthrown, rfl, rfl, rfl⟩ (.header hpart ⟨h.awaiting, h.packet, rfl⟩) hapart
    · exact .part ⟨hthrown, rfl, rfl, rfl⟩ (.header hpart ⟨h.awaiting, h.packet, rfl⟩) hapart
  · have hread := headerInput_header server f.asText f.byte1 (!bytes.isEmpty) { s with
      client.leftoverMessage := if bytes.isEmpty then [] else bytes ++ p } hlimit data
    have hfin : decide (f.byte1 >>> 7 &&& 1 = 1) = false := f.unfinished
    rw [hfin] at hread
    have hheader : f.asText.headerWith f.byte1 ++ data = bytes ++ p := hdata.symm
    rw [hheader] at hread
    replace hinput := hinput.trans hread
    have happend : bytes ++ p = f.header ++ data := hdata
    rw [masked_eq_unmask, ← List.append_nil (unmask f.mask 0 f.payload)] at hrest
    rcases prefix_append_cases hrest with ⟨hpart, hmissing⟩ | ⟨more, rfl, hnone⟩
    · rw [length_unmask] at hmissing
      rw [List.prefix_iff_eq_take, take_unmask] at hpart
      generalize data.length = n at hmissing hpart
      subst hpart
      have hmiddle : (f.header ++ unmask f.mask 0 (f.payload.take n)).length < f.encode.length := by
        rw [List.length_append, length_unmask, List.length_take]
        omega
      have hpayload := payloadInput_part server f.mask f.payload false f.opcode_ne_ping hmissing
        (s := { s with
          client.leftoverMessage := if bytes.isEmpty then [] else bytes ++ p
          client.lastFin := false }) hthrown
      have hapart : ¬ (bytes.length < f.header.length ∧ bytes ++ p = f.encode) := by
        rintro ⟨-, hall⟩
        rw [← happend, hall] at hmiddle
        exact Nat.lt_irrefl _ hmiddle
      have hpacket : s.client.packet ++ f.payload.take n = f.payload.take n := by
        rw [h.packet, List.nil_append]
      have hresult := hinput.trans hpayload
      rw [hresult]
      refine .part ⟨hthrown, rfl, rfl, rfl⟩ ?_ hapart
      rw [happend]
      exact .payload ⟨hmissing, rfl, rfl, rfl, hpacket, rfl, rfl, rfl⟩
    · obtain rfl : more = [] := List.prefix_nil.mp hnone
      have hpayload := payloadInput_all server f.mask f.payload false f.opcode_ne_ping [] ({ s with
        client.leftoverMessage := if bytes.isEmpty then [] else bytes ++ p
        client.lastFin := false } : Session σ)
      have hnoticed := afterPayload_notices server (s := { s with client := { s.client with
        leftoverMessage := if bytes.isEmpty then [] else bytes ++ p
        lastFin := false
        webSocketMask := f.mask
        remainingBytesInPacket := 0
        maskOffset := f.payload.length % 4
        packet := s.client.packet ++ f.payload } }) rfl
      have hall : bytes ++ p = f.encode := by
        rw [happend, List.append_nil, f.encode_eq]
      have hresult := hinput.trans hpayload
      rw [hresult]
      refine .together ?_ hshort hall
      exact ⟨hnoticed.messages, hnoticed.closes, hnoticed.isWebSocket, hnoticed.limit,
        hnoticed.awaits⟩

/-- A call while the payload is not all there. -/
theorem webSocketInput_payload {n : Nat} {p : Bytes} {s : Session σ} (h : AwaitsRest s.client f n)
    (hthrown : s.thrown = none)
    (hbytes : f.header ++ unmask f.mask 0 (f.payload.take n) ++ p <+: f.encode) :
    Handles f (f.header ++ unmask f.mask 0 (f.payload.take n)) p s (webSocketInput server p s) := by
  have hinput : webSocketInput server p s = restInput server p s := by
    unfold webSocketInput
    simp only [h.leftover, h.awaiting, List.isEmpty_nil, Bool.not_true, Bool.false_eq_true,
      if_false]
  have hpartly := h.partly
  have hoffset : (0 + (f.payload.take n).length) % 4 = n % 4 := by
    rw [List.length_take, Nat.zero_add, Nat.min_eq_left (by omega)]
  have hencode : f.encode = f.header ++ unmask f.mask 0 (f.payload.take n) ++
      unmask f.mask (n % 4) (f.payload.drop n) := by
    rw [MaskedFrame.encode_eq]
    rw [List.append_assoc, ← hoffset, ← unmask_append _ _ (by omega), List.take_append_drop]
  have hapart : ∀ bytes',
      ¬ ((f.header ++ unmask f.mask 0 (f.payload.take n)).length < f.header.length ∧
        bytes' = f.encode) := by
    rintro bytes' ⟨hlt, -⟩
    rw [List.length_append] at hlt
    omega
  rw [hencode, List.prefix_append_right_inj, ← List.append_nil (unmask f.mask (n % 4) _)] at hbytes
  rw [hinput]
  rcases prefix_append_cases hbytes with ⟨hpart, hmissing⟩ | ⟨more, rfl, hnone⟩
  · rw [length_unmask, List.length_drop] at hmissing
    rw [List.prefix_iff_eq_take, take_unmask] at hpart
    generalize p.length = m at hmissing hpart
    subst hpart
    have hm : n + m < f.payload.length := by omega
    have hrest := restInput_part server f.mask f.payload hm h.mask h.offset h.remaining
    rw [hrest]
    refine .part ⟨hthrown, rfl, rfl, rfl⟩ ?_ (hapart _)
    have hgrown : f.header ++ unmask f.mask 0 (f.payload.take n) ++
        unmask f.mask (n % 4) ((f.payload.drop n).take m) =
        f.header ++ unmask f.mask 0 (f.payload.take (n + m)) := by
      rw [List.append_assoc, List.take_add, unmask_append _ _ (by omega), hoffset]
    rw [hgrown]
    refine .payload ⟨hm, h.awaiting, h.lastFin, h.mask, ?_, rfl, rfl, h.leftover⟩
    show s.client.packet ++ (f.payload.drop n).take m = f.payload.take (n + m)
    rw [h.packet, List.take_add]
  · obtain rfl : more = [] := List.prefix_nil.mp hnone
    have hrest := restInput_all server f.mask f.payload hpartly [] h.mask h.offset h.remaining
      h.leftover
    rw [hrest]
    dsimp only
    rw [if_neg (by rw [h.lastFin]; exact Bool.false_ne_true)]
    refine .part ⟨hthrown, rfl, rfl, rfl⟩ ?_ (hapart _)
    rw [List.append_nil, ← hencode]
    refine .whole ⟨rfl, ?_, rfl⟩
    show s.client.packet ++ f.payload.drop n = f.payload
    rw [h.packet, List.take_append_drop]

/-- A call of a client that awaits a header, and holds nothing of one. -/
theorem webSocketInput_noLeftover {s : Session σ}
    (hawaiting : s.client.awaitingWebSocketHeader = true)
    (hleftover : s.client.leftoverMessage = []) (p : Bytes) :
    webSocketInput server p s = headerInput server false p s := by
  unfold webSocketInput
  simp only [hleftover, hawaiting, List.isEmpty_nil, Bool.not_true, Bool.false_eq_true, if_false,
    if_true]

/-- A call that brings nothing, where nothing is held. -/
theorem webSocketInput_nil {s : Session σ} (hawaiting : s.client.awaitingWebSocketHeader = true)
    (hleftover : s.client.leftoverMessage = []) : webSocketInput server [] s = s := by
  have hsame : ({ s with client.leftoverMessage := [] } : Session σ) = s := by rw [← hleftover]
  rw [webSocketInput_noLeftover server hawaiting hleftover]
  exact hsame

/-- A call of a client that has ended no WebSocket yet. -/
theorem handleInput_handles {bytes p : Bytes} {s : Session σ}
    (hsocket : s.client.isWebSocket = true) (hthrown : s.thrown = none)
    (hlimit : f.payload.length ≤ s.client.maxWebSocketPacketLength)
    (hholds : HoldsPart s.client f bytes) (hbytes : bytes ++ p <+: f.encode) :
    Handles f bytes p s (handleInput server p s) := by
  have hinput : handleInput server p s = webSocketInput server p s := if_pos hsocket
  rw [hinput]
  cases hholds with
  | header hshort h => exact webSocketInput_beforePayload server hshort h hthrown hlimit hbytes
  | payload h => exact webSocketInput_payload server h hthrown hbytes
  | whole h =>
    rw [← List.append_nil f.encode, List.append_assoc, List.prefix_append_right_inj,
      List.nil_append, List.prefix_nil] at hbytes
    subst hbytes
    rw [webSocketInput_nil server h.awaiting h.leftover]
    refine .part ⟨hthrown, rfl, rfl, rfl⟩ ((List.append_nil f.encode).symm ▸ .whole h) ?_
    rintro ⟨hlt, -⟩
    rw [f.length_encode] at hlt
    omega

end Call

/-! ## Runs -/

section Runs

variable {server : Server σ} {f : Fragment}

theorem receive_append (server : Server σ) (front back : List Bytes) (s : Session σ) :
    receive server (front ++ back) s = receive server back (receive server front s) := by
  unfold receive
  rw [List.foldl_append]

theorem receive_thrown (calls : List Bytes) {s : Session σ} {e : Exception}
    (h : s.thrown = some e) : receive server calls s = s := by
  induction calls with
  | nil => rfl
  | cons p calls ih =>
    have hstep : receive server (p :: calls) s =
        receive server calls (s.andThen (handleInput server p)) := rfl
    rw [hstep, Session.andThen_of_some h, ih]

/-- Nothing is done about a frame that does not come together. -/
theorem receive_unnoticed (server : Server σ) {s : Session σ} (hopened : Opened s.client)
    (hthrown : s.thrown = none)
    (hlimit : f.payload.length ≤ s.client.maxWebSocketPacketLength) {calls : List Bytes}
    (hcalls : calls.flatten <+: f.encode) (hapart : ¬ ComesTogether f calls) :
    Unnoticed s (receive server calls s) ∧
      HoldsPart (receive server calls s).client f calls.flatten := by
  induction calls using List.reverseRecOn with
  | nil => exact ⟨⟨hthrown, rfl, rfl, rfl⟩, .header (Nat.succ_pos _) hopened.awaits⟩
  | append_singleton calls p ih =>
    have hflatten : (calls ++ [p]).flatten = calls.flatten ++ p := by simp
    rw [hflatten] at hcalls ⊢
    have hbefore : ¬ ComesTogether f calls := by
      rintro ⟨front, call, rest, rfl, htogether⟩
      exact hapart ⟨front, call, rest ++ [p], by simp, htogether⟩
    obtain ⟨hunnoticed, hholds⟩ := ih ((List.prefix_append _ _).trans hcalls) hbefore
    rw [receive_append_singleton, Session.andThen_of_none hunnoticed.thrown]
    have hsocket := hunnoticed.isWebSocket.trans hopened.isWebSocket
    cases handleInput_handles server hsocket hunnoticed.thrown (hunnoticed.limit.symm ▸ hlimit)
      hholds hcalls with
    | part h hholds _ =>
      exact ⟨⟨h.thrown, h.events.trans hunnoticed.events,
        h.isWebSocket.trans hunnoticed.isWebSocket, h.limit.trans hunnoticed.limit⟩, hholds⟩
    | together _ hshort hall => exact absurd ⟨calls, p, [], rfl, hshort, hall⟩ hapart

/-- Calls that bring nothing. -/
theorem receive_nils {calls : List Bytes} (hcalls : calls.flatten = []) {s : Session σ}
    (hsocket : s.client.isWebSocket = true) (hawaits : s.thrown = none → AwaitsHeader s.client []) :
    receive server calls s = s := by
  induction calls with
  | nil => rfl
  | cons p calls ih =>
    rw [List.flatten_cons, List.append_eq_nil_iff] at hcalls
    obtain ⟨rfl, hcalls⟩ := hcalls
    cases hthrown : s.thrown with
    | some e => exact receive_thrown _ hthrown
    | none =>
      have hinput : handleInput server [] s = s :=
        (if_pos hsocket).trans
          (webSocketInput_nil server (hawaits hthrown).awaiting (hawaits hthrown).leftover)
      have hstep : receive server ([] :: calls) s =
          receive server calls (s.andThen (handleInput server [])) := rfl
      rw [hstep, Session.andThen_of_none hthrown, hinput, ih hcalls]

/-- The calls up to the one that ends the WebSocket. -/
theorem receive_noticed (server : Server σ) {s : Session σ} (hopened : Opened s.client)
    (hthrown : s.thrown = none)
    (hlimit : f.payload.length ≤ s.client.maxWebSocketPacketLength) {front : List Bytes}
    {call : Bytes} (hshort : front.flatten.length < f.header.length)
    (hall : front.flatten ++ call = f.encode) :
    Noticed s (receive server (front ++ [call]) s) := by
  have hapart : ¬ ComesTogether f front := by
    rintro ⟨before, p, rest, rfl, -, hwhole⟩
    have hlen := congrArg List.length hwhole
    rw [f.length_encode, List.length_append] at hlen
    simp only [List.flatten_append, List.flatten_cons, List.length_append] at hshort
    omega
  obtain ⟨hunnoticed, hholds⟩ := receive_unnoticed server hopened hthrown hlimit
    (hall ▸ List.prefix_append _ _) hapart
  have hsocket := hunnoticed.isWebSocket.trans hopened.isWebSocket
  have hmessages : (receive server front s).webSocketMessages = s.webSocketMessages := by
    unfold Session.webSocketMessages
    rw [hunnoticed.events]
  have hcloses : (receive server front s).webSocketCloses = s.webSocketCloses := by
    unfold Session.webSocketCloses
    rw [hunnoticed.events]
  rw [receive_append_singleton, Session.andThen_of_none hunnoticed.thrown]
  have hbytes : front.flatten ++ call <+: f.encode := by rw [hall]
  cases handleInput_handles server hsocket hunnoticed.thrown (hunnoticed.limit.symm ▸ hlimit)
    hholds hbytes with
  | part _ _ happart => exact absurd ⟨hshort, hall⟩ happart
  | together h _ _ =>
    exact ⟨h.messages.trans hmessages, by rw [h.closes, hcloses],
      h.isWebSocket.trans hunnoticed.isWebSocket, h.limit.trans hunnoticed.limit, h.awaits⟩

/-- **Frames without FIN.** The WebSocket is ended for one, and its payload goes nowhere, exactly
    when the call that brings the end of its header brings all of its payload. -/
theorem refused_iff (hreturn : server.MessageHandlersReturn) {c : Client} (hopened : Opened c)
    (plugins : σ) (f : Fragment) (hlimit : f.payload.length ≤ c.maxWebSocketPacketLength)
    {calls : List Bytes} (hcalls : calls.flatten = f.encode) :
    Refused server calls { client := c, plugins := plugins } ↔ ComesTogether f calls := by
  constructor
  · intro hrefused
    by_contra hapart
    obtain ⟨hunnoticed, -⟩ := receive_unnoticed server
      (s := { client := c, plugins := plugins }) hopened rfl hlimit (hcalls ▸ List.prefix_rfl)
        hapart
    have hcloses := hrefused.closes
    unfold Session.webSocketCloses at hcloses
    rw [hunnoticed.events] at hcloses
    exact absurd hcloses (by simp)
  · rintro ⟨front, call, rest, rfl, hshort, hall⟩
    have hnoticed := receive_noticed server (s := { client := c, plugins := plugins })
      hopened rfl hlimit hshort hall
    generalize hs : receive server (front ++ [call]) { client := c, plugins := plugins } = s
      at hnoticed
    have hrest : rest.flatten = [] := by
      rw [List.flatten_append, List.flatten_cons, ← List.append_assoc, hall] at hcalls
      exact List.append_right_eq_self.mp hcalls
    have hsocket := hnoticed.isWebSocket.trans hopened.isWebSocket
    have hsplit : ∀ more, receive server (front ++ call :: rest ++ more)
        { client := c, plugins := plugins } = receive server (rest ++ more) s := by
      intro more
      rw [← hs, ← receive_append]
      simp
    have hend : receive server (front ++ call :: rest) { client := c, plugins := plugins } = s := by
      have hnone := hsplit []
      rw [List.append_nil, List.append_nil] at hnone
      rw [hnone, receive_nils hrest hsocket hnoticed.awaits]
    refine ⟨?_, ?_, fun frames hframes more hmore => ?_⟩
    · rw [hend, hnoticed.closes]
      rfl
    · rw [hend, hnoticed.messages]
      rfl
    · rw [hsplit]
      cases hthrown : s.thrown with
      | some e =>
        refine ⟨0, ?_⟩
        rw [receive_thrown _ hthrown, hnoticed.messages]
        rfl
      | none =>
        obtain ⟨k, hreceived⟩ := receive_received hreturn ⟨hsocket, hnoticed.awaits hthrown⟩ hthrown
          hnoticed.messages (hnoticed.limit.symm ▸ hframes) (rest ++ more)
          (by rw [List.flatten_append, hrest]; exact hmore)
        exact ⟨k, hreceived.messages⟩

end Runs

/-- The first half of a text of four letters. -/
def half : Fragment where
  byte1 := 0x01
  form := .short
  mask := 0
  payload := ascii "ab"
  fits := by decide
  unfinished := by decide
  data := by decide

/-- In one call the frame comes together. -/
theorem refused_iff_oneCall :
    Refused ({} : Server Unit) [half.encode] { client := { isWebSocket := true }, plugins := () } ↔
      ComesTogether half [half.encode] :=
  refused_iff (fun _ _ _ => rfl) ⟨rfl, rfl, rfl, rfl⟩ () half (by decide) (by simp)

/-- Cut behind its header it is not refused, and `ab` comes before the next message. -/
theorem not_refused_cut :
    ¬ Refused ({} : Server Unit) [half.header, ascii "ab"]
        { client := { isWebSocket := true }, plugins := () } ∧
      (receive ({} : Server Unit) [half.header, ascii "ab", (oneByte 0 99).encode]
        { client := { isWebSocket := true }, plugins := () }).webSocketMessages =
          [ascii "abc"] := by
  refine ⟨fun h => ?_, by decide⟩
  have hcloses := h.closes
  revert hcloses
  decide

end Algiz.HTTP
