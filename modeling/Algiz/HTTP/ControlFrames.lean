/-
  Control frames between messages.

  Each frame comes whole, in a call of its own. Messages should come through whatever pings, pongs
  and closes stand between them, up to the first close, and every ping should be answered with its
  payload (`Faithful`). Three slips are in the way: a ping leaves its payload in the packet, in
  front of what comes next; a pong or a close is passed on like a message; and nothing is
  remembered of a close. `Undisturbed` says what is left: no pong and no close has FIN, data frames
  are within the limit as long as no close has come (and beyond it afterwards), and a ping with a
  payload is followed by a close or a pong before the next ping or message (`faithful_iff`).
-/
import Algiz.HTTP.Fragments

namespace Algiz.HTTP

variable {σ : Type*}

/-! ## Frames -/

inductive FrameKind where
  | data | ping | pong | close
  deriving DecidableEq

/-- What makes a frame one of a kind: a message in one frame, or a control frame. -/
def FrameKind.IsOf (kind : FrameKind) (f : MaskedFrame) : Prop :=
  match kind with
  | data => f.fin = true ∧ (f.opcode = 1 ∨ f.opcode = 2)
  | ping => f.opcode = 9 ∧ f.payload.length ≤ 125
  | pong => f.opcode = 10 ∧ f.payload.length ≤ 125
  | close => f.opcode = 8 ∧ f.payload.length ≤ 125

/-- A message in one frame, or a control frame. -/
structure MixedFrame extends MaskedFrame where
  kind : FrameKind
  isOf : kind.IsOf toMaskedFrame

namespace MixedFrame

/-- Frames as they are sent, each in a call of its own. -/
def calls (frames : List MixedFrame) : List Bytes := frames.map fun f => f.encode

/-- The frames before the first close. -/
def beforeClose (frames : List MixedFrame) : List MixedFrame :=
  frames.takeWhile fun f => f.kind ≠ .close

/-- The payloads of the data frames. -/
def messages (frames : List MixedFrame) : List Bytes :=
  (frames.filter fun f => f.kind = .data).map fun f => f.payload

end MixedFrame

/-- A pong with this payload. -/
def pongOf (payload : Bytes) : List Event :=
  [.act (.send (webSocketHeader payload.length true 10)), .act (.send payload)]

/-- After every call the messages passed on are the payloads of the data frames up to the first
    close, and every ping has been answered by one pong with its payload. -/
structure Faithful (server : Server σ) (frames : List MixedFrame) (s : Session σ) : Prop where
  messages : ∀ front back, frames = front ++ back →
    (receive server (MixedFrame.calls front) s).webSocketMessages =
      MixedFrame.messages (MixedFrame.beforeClose front)
  pongs : ∀ front f back, frames = front ++ f :: back → f.kind = .ping →
    (receive server (MixedFrame.calls (front ++ [f])) s).events =
      (receive server (MixedFrame.calls front) s).events ++ pongOf f.payload

/-- No handler of WebSocket ends ends in an exception. -/
def Server.CloseHandlersReturn (server : Server σ) : Prop :=
  ∀ plugins c, (server.webSocketCloseHandlers plugins c).thrown = none

/-- Nothing comes between messages that they could be mixed up with. -/
structure Undisturbed (limit : Nat) (frames : List MixedFrame) : Prop where
  quiet : ∀ f ∈ frames, f.kind = .pong ∨ f.kind = .close → f.fin = false
  sized : ∀ front f back, frames = front ++ f :: back → f.kind = .data →
    (f.payload.length ≤ limit ↔ ∀ g ∈ front, g.kind ≠ .close)
  cleared : ∀ front f between g back, frames = front ++ f :: (between ++ g :: back) →
    f.kind = .ping → f.payload ≠ [] → g.kind = .ping ∨ (g.kind = .data ∧ g.payload.length ≤ limit) →
      ∃ h ∈ between, h.kind = .pong ∨ h.kind = .close

/-! ## One call -/

/-- The client awaits a header, with these bytes in its packet. -/
structure Idle (c : Client) (packet : Bytes) : Prop where
  awaiting : c.awaitingWebSocketHeader = true
  packet : c.packet = packet
  leftover : c.leftoverMessage = []

/-- What a frame leaves in the packet. -/
def packetAfter (limit : Nat) (packet : Bytes) (f : MixedFrame) : Bytes :=
  if limit < f.payload.length then packet
  else if f.kind = .ping then packet ++ f.payload
  else []

/-- The messages that are passed on when a frame comes. -/
def passedOn (limit : Nat) (packet : Bytes) (f : MixedFrame) : List Bytes :=
  if limit < f.payload.length then []
  else if f.kind = .ping then []
  else if f.fin then [packet ++ f.payload] else []

/-- What a call with a whole frame comes to. -/
structure TakesFrame (packet : Bytes) (f : MixedFrame) (s s' : Session σ) : Prop where
  thrown : s'.thrown = none
  isWebSocket : s'.client.isWebSocket = s.client.isWebSocket
  limit : s'.client.maxWebSocketPacketLength = s.client.maxWebSocketPacketLength
  idle : Idle s'.client (packetAfter s.client.maxWebSocketPacketLength packet f)
  messages : s'.webSocketMessages =
    s.webSocketMessages ++ passedOn s.client.maxWebSocketPacketLength packet f
  pong : f.kind = .ping → s'.events = s.events ++ pongOf (packet ++ f.payload)

section Call

variable (server : Server σ) (f : MixedFrame)

theorem MixedFrame.opcode_eq_ping_iff : f.byte1 &&& 0xf = 9 ↔ f.kind = .ping := by
  have hisOf := f.isOf
  cases hkind : f.kind with
  | ping =>
    rw [hkind] at hisOf
    exact ⟨fun _ => rfl, fun _ => hisOf.1⟩
  | data =>
    rw [hkind] at hisOf
    have hopcode : f.byte1 &&& 0xf = 1 ∨ f.byte1 &&& 0xf = 2 := hisOf.2
    refine ⟨fun hping => ?_, fun h => by cases h⟩
    rw [hping] at hopcode
    exact absurd hopcode (by decide)
  | pong =>
    rw [hkind] at hisOf
    have hopcode : f.byte1 &&& 0xf = 10 := hisOf.1
    rw [hopcode]
    decide
  | close =>
    rw [hkind] at hisOf
    have hopcode : f.byte1 &&& 0xf = 8 := hisOf.1
    rw [hopcode]
    decide

/-- Control frames are short. -/
theorem MixedFrame.short_of_ne_data (h : f.kind ≠ .data) : f.payload.length ≤ 125 := by
  have hisOf := f.isOf
  cases hkind : f.kind with
  | data => exact absurd hkind h
  | ping =>
    rw [hkind] at hisOf
    exact hisOf.2
  | pong =>
    rw [hkind] at hisOf
    exact hisOf.2
  | close =>
    rw [hkind] at hisOf
    exact hisOf.2

theorem MixedFrame.fin_of_data (h : f.kind = .data) : f.fin = true := by
  have hisOf := f.isOf
  rw [h] at hisOf
  exact hisOf.1

/-- A frame that is too long ends the connection, and leaves the packet as it is. -/
theorem headerInput_refuses {packet : Bytes} {s : Session σ} (h : Idle s.client packet)
    (hthrown : s.thrown = none) (hlong : s.client.maxWebSocketPacketLength < f.payload.length)
    (hkind : f.kind ≠ .ping) :
    TakesFrame packet f s (headerInput server false f.encode s) := by
  have hread := headerInput_tooLong server f.asText f.byte1 false s hlong
    (bigEndianBytes 4 f.mask.toNat ++ unmask f.mask 0 f.payload)
  have hencode : f.encode = f.byte1 :: f.asText.byte2 :: (f.asText.lengthField ++
      (bigEndianBytes 4 f.mask.toNat ++ unmask f.mask 0 f.payload)) := by
    rw [f.encode_eq, ← List.append_assoc]
    rfl
  rw [hencode, hread]
  refine ⟨hthrown, rfl, rfl, ?_, ?_, fun hping => absurd hping hkind⟩
  · rw [packetAfter, if_pos hlong]
    exact ⟨h.awaiting, h.packet, h.leftover⟩
  · rw [passedOn, if_pos hlong, List.append_nil]
    simp [Session.close, Session.webSocketMessages, Server.send400, Server.respond, Session.send,
      Session.emit, Event.toMessage]

/-- The payload of a ping goes into the packet, and what is there then is sent back. -/
theorem payloadInput_ping (fin : Bool) {mask : UInt32} {payload : Bytes}
    (hshort : payload.length ≤ 125) (s : Session σ) :
    payloadInput server fin 9 payload.length mask (unmask mask 0 payload) s =
      ({ s with client := { s.client with
          webSocketMask := mask
          remainingBytesInPacket := 0
          maskOffset := payload.length % 4
          packet := s.client.packet ++ payload } } : Session σ).sendWebSocket
        (s.client.packet ++ payload) true 10 := by
  have hlen : (unmask mask 0 payload).length = payload.length := length_unmask ..
  have htake : (unmask mask 0 payload).take payload.length = unmask mask 0 payload :=
    List.take_of_length_le (by omega)
  unfold payloadInput
  dsimp only
  rw [hlen, Nat.min_self, htake, if_pos rfl, if_pos hshort, Client.startPayload_unmask,
    Nat.sub_self]

variable {server}

theorem closeWebSocket_thrown (hclose : server.CloseHandlersReturn) (s : Session σ) :
    (s.closeWebSocket server).thrown = none := by
  unfold Session.closeWebSocket Server.closeWebSocket
  dsimp only
  rw [Session.andThen_of_none (hclose ..)]
  exact hclose ..

theorem afterPayload_thrown (hclose : server.CloseHandlersReturn) {s : Session σ}
    (hwhole : s.client.remainingBytesInPacket = 0) :
    (afterPayload server false [] s).thrown = none := by
  have hnil : ¬ 0 < ([] : Bytes).length := Nat.lt_irrefl 0
  have hended := closeWebSocket_thrown hclose
    ({ s with client.awaitingWebSocketHeader := true } : Session σ)
  have hcleared : (Session.finishPacket server false
      ({ s with client.awaitingWebSocketHeader := true } : Session σ)).thrown = none := by
    unfold Session.finishPacket
    rw [if_neg Bool.false_ne_true, Session.andThen_of_none hended]
    exact hended
  unfold afterPayload
  rw [if_neg hnil, if_pos hwhole, Session.andThen_of_none hcleared]
  exact hcleared

/-- A call with a whole frame. -/
theorem handleInput_takesFrame (hreturn : server.MessageHandlersReturn)
    (hclose : server.CloseHandlersReturn) {packet : Bytes} {s : Session σ}
    (hsocket : s.client.isWebSocket = true) (hthrown : s.thrown = none)
    (hlimit : 125 ≤ s.client.maxWebSocketPacketLength) (h : Idle s.client packet) :
    TakesFrame packet f s (handleInput server f.encode s) := by
  have hinput : handleInput server f.encode s = headerInput server false f.encode s :=
    (if_pos hsocket).trans (webSocketInput_noLeftover server h.awaiting h.leftover _)
  rw [hinput]
  by_cases hlong : s.client.maxWebSocketPacketLength < f.payload.length
  · refine headerInput_refuses server f h hthrown hlong fun hping => ?_
    have := f.short_of_ne_data (by rw [hping]; decide)
    omega
  · have hfits : f.payload.length ≤ s.client.maxWebSocketPacketLength := by omega
    have hread := headerInput_header server f.asText f.byte1 false s hfits
      (unmask f.mask 0 f.payload)
    have hresult : headerInput server false f.encode s = payloadInput server f.fin
        (f.byte1 &&& 0xf) f.payload.length f.mask (unmask f.mask 0 f.payload)
        { s with client.lastFin := f.fin } := by
      rw [f.encode_eq]
      exact hread
    rw [hresult]
    by_cases hping : f.kind = .ping
    · rw [f.opcode_eq_ping_iff.mpr hping,
        payloadInput_ping server f.fin (f.short_of_ne_data (by rw [hping]; decide))]
      refine ⟨hthrown, rfl, rfl, ?_, ?_, fun _ => ?_⟩
      · rw [packetAfter, if_neg hlong, if_pos hping]
        exact ⟨h.awaiting, congrArg (· ++ f.payload) h.packet, h.leftover⟩
      · rw [passedOn, if_neg hlong, if_pos hping, List.append_nil]
        simp [Session.sendWebSocket, Session.send, Session.emit, Session.webSocketMessages,
          Event.toMessage]
      · show _ ++ _ ++ _ = _
        rw [h.packet, List.append_assoc]
        rfl
    · have hopcode : f.byte1 &&& 0xf ≠ 9 := fun hnine => hping (f.opcode_eq_ping_iff.mp hnine)
      have hall := payloadInput_all server f.mask f.payload f.fin hopcode []
        ({ s with client.lastFin := f.fin } : Session σ)
      rw [List.append_nil] at hall
      rw [hall]
      have hpacket : s.client.packet ++ f.payload = packet ++ f.payload := by rw [h.packet]
      cases hfin : f.fin with
      | true =>
        obtain ⟨hawaits, hcontinues⟩ := afterPayload_whole hreturn [] (s := { s with
          client := { s.client with
            lastFin := true
            webSocketMask := f.mask
            remainingBytesInPacket := 0
            maskOffset := f.payload.length % 4
            packet := s.client.packet ++ f.payload } }) rfl
        refine ⟨hcontinues.thrown, hcontinues.isWebSocket, hcontinues.limit, ?_, ?_,
          fun hkind => absurd hkind hping⟩
        · rw [packetAfter, if_neg hlong, if_neg hping]
          exact ⟨hawaits.awaiting, hawaits.packet, hawaits.leftover⟩
        · rw [passedOn, if_neg hlong, if_neg hping, hfin, if_pos rfl, ← hpacket]
          exact hcontinues.messages
      | false =>
        have hnoticed := afterPayload_notices server (s := { s with
          client := { s.client with
            lastFin := false
            webSocketMask := f.mask
            remainingBytesInPacket := 0
            maskOffset := f.payload.length % 4
            packet := s.client.packet ++ f.payload } }) rfl
        have hended := afterPayload_thrown hclose (s := { s with
          client := { s.client with
            lastFin := false
            webSocketMask := f.mask
            remainingBytesInPacket := 0
            maskOffset := f.payload.length % 4
            packet := s.client.packet ++ f.payload } }) rfl
        have hawaits := hnoticed.awaits hended
        refine ⟨hended, hnoticed.isWebSocket, hnoticed.limit, ?_, ?_,
          fun hkind => absurd hkind hping⟩
        · rw [packetAfter, if_neg hlong, if_neg hping]
          exact ⟨hawaits.awaiting, hawaits.packet, hawaits.leftover⟩
        · rw [passedOn, if_neg hlong, if_neg hping, hfin, if_neg Bool.false_ne_true,
            List.append_nil]
          exact hnoticed.messages

end Call

/-! ## Runs -/

/-- What these frames leave in the packet. -/
def packetOf (limit : Nat) (frames : List MixedFrame) : Bytes :=
  frames.foldl (packetAfter limit) []

theorem packetOf_concat (limit : Nat) (front : List MixedFrame) (f : MixedFrame) :
    packetOf limit (front ++ [f]) = packetAfter limit (packetOf limit front) f := by
  unfold packetOf
  rw [List.foldl_append]
  rfl

theorem calls_concat (front : List MixedFrame) (f : MixedFrame) :
    MixedFrame.calls (front ++ [f]) = MixedFrame.calls front ++ [f.encode] := by
  unfold MixedFrame.calls
  rw [List.map_append]
  rfl

/-- The message that should be passed on for a frame behind these. -/
def expected (front : List MixedFrame) (f : MixedFrame) : List Bytes :=
  if f.kind = .data ∧ ∀ g ∈ front, g.kind ≠ .close then [f.payload] else []

theorem messages_beforeClose_concat (front : List MixedFrame) (f : MixedFrame) :
    MixedFrame.messages (MixedFrame.beforeClose (front ++ [f])) =
      MixedFrame.messages (MixedFrame.beforeClose front) ++ expected front f := by
  unfold MixedFrame.beforeClose expected
  by_cases hopen : ∀ g ∈ front, g.kind ≠ .close
  · have hfront : front.takeWhile (fun g => g.kind ≠ .close) = front :=
      List.takeWhile_eq_self_iff.mpr fun g hg => decide_eq_true (hopen g hg)
    have hall : ∀ g ∈ front, (decide (g.kind ≠ .close)) = true := fun g hg =>
      decide_eq_true (hopen g hg)
    rw [List.takeWhile_append_of_pos hall, hfront]
    unfold MixedFrame.messages
    rw [List.filter_append, List.map_append]
    cases hkind : f.kind with
    | data => simpa [hkind] using hopen
    | ping => simp [hkind]
    | pong => simp [hkind]
    | close => simp [hkind]
  · have hstop : (front ++ [f]).takeWhile (fun g => g.kind ≠ .close) =
        front.takeWhile fun g => g.kind ≠ .close := by
      rw [List.takeWhile_append, if_neg]
      intro hlen
      have hself := List.takeWhile_eq_self_iff.mp
        (List.IsPrefix.eq_of_length (List.takeWhile_prefix _) hlen)
      exact hopen fun g hg => of_decide_eq_true (hself g hg)
    rw [hstop, if_neg (fun hboth => hopen hboth.2), List.append_nil]

section Runs

variable {server : Server σ} (hreturn : server.MessageHandlersReturn)
  (hclose : server.CloseHandlersReturn) {s : Session σ} (hopened : Opened s.client)
  (hthrown : s.thrown = none) (hlimit : 125 ≤ s.client.maxWebSocketPacketLength)
include hreturn hclose hopened hthrown hlimit

/-- Between two calls the client is idle, with what the frames have left in the packet. -/
theorem receive_idle (frames : List MixedFrame) :
    let s' := receive server (MixedFrame.calls frames) s
    s'.thrown = none ∧ s'.client.isWebSocket = true ∧
      s'.client.maxWebSocketPacketLength = s.client.maxWebSocketPacketLength ∧
      Idle s'.client (packetOf s.client.maxWebSocketPacketLength frames) := by
  induction frames using List.reverseRecOn with
  | nil =>
    exact ⟨hthrown, hopened.isWebSocket, rfl, hopened.awaits.awaiting, hopened.awaits.packet,
      hopened.awaits.leftover⟩
  | append_singleton frames f ih =>
    obtain ⟨hnone, hsocket, hkept, hidle⟩ := ih
    have htakes := handleInput_takesFrame f hreturn hclose hsocket hnone (hkept.symm ▸ hlimit) hidle
    dsimp only
    rw [calls_concat, receive_append_singleton, Session.andThen_of_none hnone, packetOf_concat,
      ← hkept]
    exact ⟨htakes.thrown, htakes.isWebSocket.trans hsocket, htakes.limit, hkept ▸ htakes.idle⟩

/-- One more frame. -/
theorem receive_concat (front : List MixedFrame) (f : MixedFrame) :
    let limit := s.client.maxWebSocketPacketLength
    let before := receive server (MixedFrame.calls front) s
    let after := receive server (MixedFrame.calls (front ++ [f])) s
    after.webSocketMessages =
        before.webSocketMessages ++ passedOn limit (packetOf limit front) f ∧
      (f.kind = .ping →
        after.events = before.events ++ pongOf (packetOf limit front ++ f.payload)) := by
  obtain ⟨hnone, hsocket, hkept, hidle⟩ := receive_idle hreturn hclose hopened hthrown hlimit front
  have htakes := handleInput_takesFrame f hreturn hclose hsocket hnone (hkept.symm ▸ hlimit) hidle
  dsimp only
  rw [calls_concat, receive_append_singleton, Session.andThen_of_none hnone, ← hkept]
  exact ⟨hkept ▸ htakes.messages, hkept ▸ htakes.pong⟩

/-- What must be so when a frame comes behind these. -/
def StepFaithful (limit : Nat) (front : List MixedFrame) (f : MixedFrame) : Prop :=
  passedOn limit (packetOf limit front) f = expected front f ∧
    (f.kind = .ping → packetOf limit front = [])

theorem faithful_iff_steps (frames : List MixedFrame) (hempty : s.webSocketMessages = []) :
    Faithful server frames s ↔ ∀ front f back, frames = front ++ f :: back →
      StepFaithful s.client.maxWebSocketPacketLength front f := by
  constructor
  · intro hfaithful front f back hframes
    obtain ⟨hmessages, hpong⟩ := receive_concat hreturn hclose hopened hthrown hlimit front f
    refine ⟨?_, fun hping => ?_⟩
    · have hnext := hfaithful.messages (front ++ [f]) back (by rw [hframes]; simp)
      rw [hmessages, hfaithful.messages front (f :: back) hframes, messages_beforeClose_concat]
        at hnext
      exact List.append_cancel_left hnext
    · have hsent := hfaithful.pongs front f back hframes hping
      have hsame := List.append_cancel_left ((hpong hping).symm.trans hsent)
      unfold pongOf at hsame
      rw [List.cons.injEq, List.cons.injEq] at hsame
      have hpayload := Net.Act.send.inj (Event.act.inj hsame.2.1)
      exact List.append_left_eq_self.mp hpayload
  · intro hsteps
    refine ⟨fun front => ?_, fun front f back hframes hping => ?_⟩
    · induction front using List.reverseRecOn with
      | nil => exact fun _ _ => hempty
      | append_singleton front f ih =>
        intro back hframes
        have hsplit : frames = front ++ f :: back := by rw [hframes]; simp
        obtain ⟨hmessages, -⟩ := receive_concat hreturn hclose hopened hthrown hlimit front f
        rw [hmessages, ih (f :: back) hsplit, messages_beforeClose_concat,
          (hsteps front f back hsplit).1]
    · obtain ⟨-, hpong⟩ := receive_concat hreturn hclose hopened hthrown hlimit front f
      have hanswer := hpong hping
      rw [(hsteps front f back hframes).2 hping, List.nil_append] at hanswer
      exact hanswer

end Runs

/-! ## What the steps need -/

variable {limit : Nat} (hlimit : 125 ≤ limit)

/-- A message comes through exactly when it is within the limit, and nothing is in the packet; one
    that comes after a close is not passed on only if it is beyond the limit. -/
theorem stepFaithful_data {front : List MixedFrame} {f : MixedFrame} (hkind : f.kind = .data) :
    StepFaithful limit front f ↔
      (f.payload.length ≤ limit ↔ ∀ g ∈ front, g.kind ≠ .close) ∧
        (f.payload.length ≤ limit → packetOf limit front = []) := by
  have hping : f.kind ≠ .ping := by
    rw [hkind]
    decide
  have hpassed : passedOn limit (packetOf limit front) f =
      if limit < f.payload.length then [] else [packetOf limit front ++ f.payload] := by
    rw [passedOn, if_neg hping, f.fin_of_data hkind, if_pos rfl]
  unfold StepFaithful
  rw [hpassed]
  by_cases hopen : ∀ g ∈ front, g.kind ≠ .close
  · have hexpected : expected front f = [f.payload] := if_pos ⟨hkind, hopen⟩
    rw [hexpected]
    by_cases hlong : limit < f.payload.length
    · have hnot : ¬ f.payload.length ≤ limit := by omega
      rw [if_pos hlong]
      refine ⟨fun h => ?_, fun h => absurd (h.1.mpr hopen) hnot⟩
      cases h.1
    · have hfits : f.payload.length ≤ limit := by omega
      rw [if_neg hlong, List.cons.injEq, List.append_left_eq_self]
      exact ⟨fun h => ⟨⟨fun _ => hopen, fun _ => hfits⟩, fun _ => h.1.1⟩,
        fun h => ⟨⟨h.2 hfits, rfl⟩, fun hkind' => absurd hkind' hping⟩⟩
  · have hexpected : expected front f = [] := if_neg fun hboth => hopen hboth.2
    rw [hexpected]
    by_cases hlong : limit < f.payload.length
    · have hnot : ¬ f.payload.length ≤ limit := by omega
      rw [if_pos hlong]
      exact ⟨fun _ => ⟨⟨fun hfits => absurd hfits hnot, fun h => absurd h hopen⟩,
        fun hfits => absurd hfits hnot⟩, fun _ => ⟨rfl, fun hkind' => absurd hkind' hping⟩⟩
    · have hfits : f.payload.length ≤ limit := by omega
      rw [if_neg hlong]
      refine ⟨fun h => ?_, fun h => absurd (h.1.mp hfits) hopen⟩
      cases h.1

theorem stepFaithful_ping {front : List MixedFrame} {f : MixedFrame} (hkind : f.kind = .ping) :
    StepFaithful limit front f ↔ packetOf limit front = [] := by
  unfold StepFaithful passedOn expected
  simp [hkind]

include hlimit in
/-- A pong or a close is not passed on exactly when it has no FIN. -/
theorem stepFaithful_quiet {front : List MixedFrame} {f : MixedFrame}
    (hkind : f.kind = .pong ∨ f.kind = .close) :
    StepFaithful limit front f ↔ f.fin = false := by
  have hping : f.kind ≠ .ping := by
    rcases hkind with h | h <;> rw [h] <;> decide
  have hdata : f.kind ≠ .data := by
    rcases hkind with h | h <;> rw [h] <;> decide
  have hshort : ¬ limit < f.payload.length := by
    have := f.short_of_ne_data hdata
    omega
  unfold StepFaithful passedOn expected
  simp [hping, hdata, hshort]

include hlimit in
/-- Nothing is left in the packet if a pong or a close came behind each ping with a payload. -/
theorem packetOf_eq_nil {front : List MixedFrame}
    (h : ∀ before f after, front = before ++ f :: after → f.kind = .ping → f.payload ≠ [] →
      ∃ g ∈ after, g.kind = .pong ∨ g.kind = .close) : packetOf limit front = [] := by
  induction front using List.reverseRecOn with
  | nil => rfl
  | append_singleton front g ih =>
    rw [packetOf_concat]
    unfold packetAfter
    -- a ping with a payload before `g` had its pong or close before `g` as well, or `g` is it
    have hearlier : ¬ (g.kind = .pong ∨ g.kind = .close) → packetOf limit front = [] := by
      intro hother
      refine ih fun before f after hfront hping hpayload => ?_
      obtain ⟨x, hx, hxkind⟩ := h before f (after ++ [g]) (by rw [hfront]; simp) hping hpayload
      rcases List.mem_append.mp hx with hx | hx
      · exact ⟨x, hx, hxkind⟩
      · rw [List.mem_singleton.mp hx] at hxkind
        exact absurd hxkind hother
    by_cases hlong : limit < g.payload.length
    · rw [if_pos hlong]
      refine hearlier fun hquiet => ?_
      have hdata : g.kind ≠ .data := by
        rcases hquiet with hkind | hkind <;> rw [hkind] <;> decide
      have := g.short_of_ne_data hdata
      omega
    · rw [if_neg hlong]
      by_cases hping : g.kind = .ping
      · have hnil : g.payload = [] := by
          by_contra hpayload
          obtain ⟨x, hx, -⟩ := h front g [] rfl hping hpayload
          exact absurd hx List.not_mem_nil
        rw [if_pos hping, hearlier (by rw [hping]; decide), hnil]
        rfl
      · rw [if_neg hping]

include hlimit in
/-- The payload of a ping stays in the packet while neither a pong nor a close comes, and messages
    come through. -/
theorem packetOf_ne_nil {front : List MixedFrame} {f : MixedFrame} (hping : f.kind = .ping)
    (hpayload : f.payload ≠ []) {between : List MixedFrame}
    (hquiet : ∀ g ∈ between, ¬ (g.kind = .pong ∨ g.kind = .close))
    (hsteps : ∀ before g after, between = before ++ g :: after →
      StepFaithful limit (front ++ f :: before) g) :
    packetOf limit (front ++ f :: between) ≠ [] := by
  induction between using List.reverseRecOn with
  | nil =>
    have hshort : ¬ limit < f.payload.length := by
      have := f.short_of_ne_data (by rw [hping]; decide)
      omega
    rw [packetOf_concat, packetAfter, if_neg hshort, if_pos hping]
    exact List.append_ne_nil_of_right_ne_nil _ hpayload
  | append_singleton between g ih =>
    have hbefore := ih (fun x hx => hquiet x (List.mem_append_left _ hx))
      fun before x after hbetween => hsteps before x (after ++ [g]) (by rw [hbetween]; simp)
    have hstep := hsteps between g [] rfl
    have hsplit : front ++ f :: (between ++ [g]) = (front ++ f :: between) ++ [g] := by simp
    have hother := hquiet g (List.mem_append_right _ List.mem_cons_self)
    rw [hsplit, packetOf_concat, packetAfter]
    cases hkind : g.kind with
    | ping =>
      rw [stepFaithful_ping hkind] at hstep
      exact absurd hstep hbefore
    | data =>
      rw [stepFaithful_data hkind] at hstep
      by_cases hlong : limit < g.payload.length
      · rwa [if_pos hlong]
      · exact absurd (hstep.2 (by omega)) hbefore
    | pong => exact absurd (.inl hkind) hother
    | close => exact absurd (.inr hkind) hother

include hlimit in
theorem undisturbed_iff_steps (frames : List MixedFrame) :
    (∀ front f back, frames = front ++ f :: back → StepFaithful limit front f) ↔
      Undisturbed limit frames := by
  constructor
  · intro hsteps
    refine ⟨fun f hf hkind => ?_, fun front f back hframes hkind => ?_,
      fun front f between g back hframes hping hpayload hg => ?_⟩
    · obtain ⟨front, back, hframes⟩ := List.append_of_mem hf
      exact (stepFaithful_quiet hlimit hkind).mp (hsteps front f back hframes)
    · exact ((stepFaithful_data hkind).mp (hsteps front f back hframes)).1
    · by_contra hnone
      have hquiet : ∀ h ∈ between, ¬ (h.kind = .pong ∨ h.kind = .close) := fun h hmem hkind =>
        hnone ⟨h, hmem, hkind⟩
      have hpacket := packetOf_ne_nil hlimit hping hpayload hquiet
        fun before x after hbetween => hsteps (front ++ f :: before) x (after ++ g :: back)
          (by rw [hframes, hbetween]; simp)
      have hstep := hsteps (front ++ f :: between) g back (by rw [hframes]; simp)
      rcases hg with hkind | ⟨hkind, hfits⟩
      · exact hpacket ((stepFaithful_ping hkind).mp hstep)
      · exact hpacket (((stepFaithful_data hkind).mp hstep).2 hfits)
  · intro h front g back hframes
    have hpacket : g.kind = .ping ∨ (g.kind = .data ∧ g.payload.length ≤ limit) →
        packetOf limit front = [] := fun hg =>
      packetOf_eq_nil hlimit fun before f after hfront hping hpayload =>
        h.cleared before f after g back (by rw [hframes, hfront]; simp) hping hpayload hg
    cases hkind : g.kind with
    | data =>
      exact (stepFaithful_data hkind).mpr ⟨h.sized front g back hframes hkind,
        fun hfits => hpacket (.inr ⟨hkind, hfits⟩)⟩
    | ping => exact (stepFaithful_ping hkind).mpr (hpacket (.inl hkind))
    | pong =>
      have hmem : g ∈ frames := by rw [hframes]; simp
      exact (stepFaithful_quiet hlimit (.inl hkind)).mpr (h.quiet g hmem (.inl hkind))
    | close =>
      have hmem : g ∈ frames := by rw [hframes]; simp
      exact (stepFaithful_quiet hlimit (.inr hkind)).mpr (h.quiet g hmem (.inr hkind))

/-- **Control frames.** Messages and pings come through unharmed exactly when nothing comes between
    them that the packet could be left with, or that would be taken for a message. -/
theorem faithful_iff {server : Server σ} (hreturn : server.MessageHandlersReturn)
    (hclose : server.CloseHandlersReturn) {c : Client} (hopened : Opened c)
    (hlimit : 125 ≤ c.maxWebSocketPacketLength) (plugins : σ) (frames : List MixedFrame) :
    Faithful server frames { client := c, plugins := plugins } ↔
      Undisturbed c.maxWebSocketPacketLength frames :=
  (faithful_iff_steps hreturn hclose (s := { client := c, plugins := plugins }) hopened rfl hlimit
    frames rfl).trans (undisturbed_iff_steps hlimit frames)

/-- A ping with one byte. -/
def pingA : MixedFrame where
  byte1 := 0x89
  form := .short
  mask := 0
  payload := ascii "a"
  fits := by decide
  kind := .ping
  isOf := by
    unfold FrameKind.IsOf
    decide

/-- An unsolicited pong. -/
def pongA : MixedFrame where
  byte1 := 0x8a
  form := .short
  mask := 0
  payload := ascii "a"
  fits := by decide
  kind := .pong
  isOf := by
    unfold FrameKind.IsOf
    decide

/-- A message of one byte. -/
def textB : MixedFrame where
  byte1 := 0x81
  form := .short
  mask := 0
  payload := ascii "b"
  fits := by decide
  kind := .data
  isOf := by
    unfold FrameKind.IsOf
    decide

/-- A message, and a ping behind it. -/
theorem faithful_iff_pingLast :
    Faithful ({} : Server Unit) [textB, pingA]
        { client := { isWebSocket := true }, plugins := () } ↔
      Undisturbed (2 ^ 24) [textB, pingA] :=
  faithful_iff (fun _ _ _ => rfl) (fun _ _ => rfl) (c := { isWebSocket := true })
    ⟨rfl, rfl, rfl, rfl⟩ (by decide) () [textB, pingA]

/-- A ping's payload comes before the next message, and a pong's is taken for one. -/
theorem not_faithful :
    ¬ Faithful ({} : Server Unit) [pingA, textB]
        { client := { isWebSocket := true }, plugins := () } ∧
      ¬ Faithful ({} : Server Unit) [pongA]
        { client := { isWebSocket := true }, plugins := () } := by
  refine ⟨fun h => ?_, fun h => ?_⟩
  · have hmessages := h.messages [pingA, textB] [] rfl
    revert hmessages
    decide
  · have hmessages := h.messages [pongA] [] rfl
    revert hmessages
    decide

end Algiz.HTTP
