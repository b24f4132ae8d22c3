/-
  Receiving WebSocket messages, for every way of cutting the stream of frames into calls.

  After each call the messages passed on are those of the first frames, and nothing of the rest
  is lost (`received_frames`): either the client awaits a header and `leftoverMessage` is what came
  after these frames, or it awaits the rest of a payload whose received part is in `packet`. What
  one call makes of the bytes before it and of its own is `handleInput_receives`: it passes on
  one message at most, the one of the next frame if that is complete then.

  So a call that completes two frames leaves the second waiting in `leftoverMessage`, until more
  input arrives: the messages are passed on promptly exactly when no call completes two frames
  (`prompt_iff`).
-/
import Algiz.HTTP.Frame
import Algiz.Lib.Blocks

namespace Algiz.HTTP

open Algiz.Lib

variable {σ : Type*}

/-! ## What the client holds of a stream of frames -/

/-- The client awaits a header, of which `rest` is there. -/
structure AwaitsHeader (c : Client) (rest : Bytes) : Prop where
  awaiting : c.awaitingWebSocketHeader = true
  packet : c.packet = []
  leftover : c.leftoverMessage = rest

/-- The client awaits the rest of a payload, of which `n` bytes are there. -/
structure AwaitsPayload (c : Client) (f : Frame) (n : Nat) : Prop where
  partly : n < f.payload.length
  awaiting : c.awaitingWebSocketHeader = false
  lastFin : c.lastFin = true
  mask : c.webSocketMask = f.mask
  packet : c.packet = f.payload.take n
  remaining : c.remainingBytesInPacket = f.payload.length - n
  offset : c.maskOffset = n % 4
  leftover : c.leftoverMessage = []

/-- The header of a frame and `n` bytes of its payload, as they are received. -/
def Frame.beginning (f : Frame) (n : Nat) : Bytes :=
  f.header ++ masked f.mask (f.payload.take n)

theorem Frame.beginning_eq (f : Frame) (n : Nat) :
    f.beginning n = f.header ++ unmask f.mask 0 (f.payload.take n) := by
  rw [beginning, masked_eq_unmask]

theorem Frame.length_encode (f : Frame) :
    f.encode.length = f.header.length + f.payload.length := by
  rw [encode_eq, List.length_append, length_unmask]

theorem Frame.length_beginning_lt (f : Frame) {n : Nat} (h : n < f.payload.length) :
    (f.beginning n).length < f.encode.length := by
  rw [length_encode, beginning_eq, List.length_append, length_unmask, List.length_take]
  omega

/-- Frames as they are sent, one after another. -/
def stream (frames : List Frame) : Bytes := (frames.map Frame.encode).flatten

/-- The client holds these bytes, which begin the stream of `frames`. -/
inductive Holds (c : Client) (frames : List Frame) : Bytes → Prop
  | header {rest : Bytes} (h : AwaitsHeader c rest) : Holds c frames rest
  | payload {f : Frame} {n : Nat} (hnext : frames.head? = some f) (h : AwaitsPayload c f n) :
      Holds c frames (f.beginning n)

/-- `s'` comes after `s`: the connection is still open, and `messages` were passed on. -/
structure Continues (s s' : Session σ) (messages : List Bytes) : Prop where
  thrown : s'.thrown = none
  isWebSocket : s'.client.isWebSocket = s.client.isWebSocket
  limit : s'.client.maxWebSocketPacketLength = s.client.maxWebSocketPacketLength
  messages : s'.webSocketMessages = s.webSocketMessages ++ messages

/-- No handler of WebSocket messages ends in an exception. (An exception has the connection
    closed.) -/
def Server.MessageHandlersReturn (server : Server σ) : Prop :=
  ∀ plugins c message, (server.webSocketMessageHandlers plugins c message).thrown = none

/-- Assignments to other fields before a call do not matter. -/
theorem Continues.after {s₁ s s' : Session σ} {messages : List Bytes}
    (h : Continues s₁ s' messages) (hevents : s₁.events = s.events)
    (hsocket : s₁.client.isWebSocket = s.client.isWebSocket)
    (hlimit : s₁.client.maxWebSocketPacketLength = s.client.maxWebSocketPacketLength) :
    Continues s s' messages := by
  refine ⟨h.thrown, h.isWebSocket.trans hsocket, h.limit.trans hlimit, h.messages.trans ?_⟩
  unfold Session.webSocketMessages
  rw [hevents]

theorem Continues.refl {s : Session σ} (h : s.thrown = none) : Continues s s [] :=
  ⟨h, rfl, rfl, (List.append_nil _).symm⟩

section Step

variable (server : Server σ)

/-! ## The end of a payload -/

/-- A header and a part of its payload. -/
theorem payloadInput_partly (f : Frame) {n : Nat} (hn : n < f.payload.length) {s : Session σ}
    (hthrown : s.thrown = none) (hfin : s.client.lastFin = true) (hpacket : s.client.packet = []) :
    let s' := payloadInput server true (f.byte1 &&& 0xf) f.payload.length f.mask
      (unmask f.mask 0 (f.payload.take n)) s
    AwaitsPayload s'.client f n ∧ Continues s s' [] := by
  dsimp only
  rw [payloadInput_part server f.mask f.payload true f.opcode_ne_ping hn hthrown, hpacket]
  exact ⟨⟨hn, rfl, hfin, rfl, rfl, rfl, rfl, rfl⟩, ⟨hthrown, rfl, rfl, (List.append_nil _).symm⟩⟩

/-- A part of what is left of a payload. -/
theorem restInput_partly {f : Frame} {n m : Nat} (hm : n + m < f.payload.length) {s : Session σ}
    (h : AwaitsPayload s.client f n) (hthrown : s.thrown = none) :
    let s' := restInput server (unmask f.mask (n % 4) ((f.payload.drop n).take m)) s
    AwaitsPayload s'.client f (n + m) ∧ Continues s s' [] := by
  dsimp only
  rw [restInput_part server f.mask f.payload hm h.mask h.offset h.remaining, h.packet,
    ← List.take_add]
  exact ⟨⟨hm, h.awaiting, h.lastFin, h.mask, rfl, rfl, rfl, h.leftover⟩,
    ⟨hthrown, rfl, rfl, (List.append_nil _).symm⟩⟩

variable {server} (hreturn : server.MessageHandlersReturn)
include hreturn

/-- The packet is passed on, and cleared. -/
theorem finishPacket_delivers (s : Session σ) :
    (Session.finishPacket server true s).client = { s.client with packet := [] } ∧
      Continues s (Session.finishPacket server true s) [s.client.packet] := by
  have hhandled : (server.handleWebSocketMessage s.client.packet s).thrown = none :=
    hreturn ..
  have hmessages : (server.handleWebSocketMessage s.client.packet s).webSocketMessages =
      s.webSocketMessages ++ [s.client.packet] := by
    unfold Server.handleWebSocketMessage
    rw [Session.react_webSocketMessages]
    exact List.filterMap_append ..
  have hfinish : Session.finishPacket server true s =
      (server.handleWebSocketMessage s.client.packet s).clearPacket := by
    unfold Session.finishPacket
    rw [if_pos rfl, Session.andThen_of_none hhandled]
  rw [hfinish]
  exact ⟨rfl, hhandled, rfl, rfl, hmessages⟩

/-- A whole payload is passed on, and what comes after it is kept. -/
theorem afterPayload_whole (rest : Bytes) {s : Session σ}
    (hwhole : s.client.remainingBytesInPacket = 0) :
    AwaitsHeader (afterPayload server true rest s).client rest ∧
      Continues s (afterPayload server true rest s) [s.client.packet] := by
  unfold afterPayload
  split
  · obtain ⟨hclient, hcontinues⟩ := finishPacket_delivers hreturn { s with
      client.awaitingWebSocketHeader := true
      client.leftoverMessage := rest
      client.remainingBytesInPacket := 0 }
    refine ⟨⟨?_, ?_, ?_⟩, hcontinues.after rfl rfl rfl⟩
    · exact congrArg Client.awaitingWebSocketHeader hclient
    · exact congrArg Client.packet hclient
    · exact congrArg Client.leftoverMessage hclient
  · rename_i hrest
    have hnil : rest = [] := List.length_eq_zero_iff.mp (by omega)
    obtain ⟨hclient, hcontinues⟩ := finishPacket_delivers hreturn { s with
      client.awaitingWebSocketHeader := true }
    rw [Session.andThen_of_none hcontinues.thrown, hnil]
    refine ⟨⟨?_, ?_, rfl⟩, ⟨hcontinues.thrown, hcontinues.isWebSocket, hcontinues.limit,
      hcontinues.messages⟩⟩
    · exact congrArg Client.awaitingWebSocketHeader hclient
    · exact congrArg Client.packet hclient

/-- A header and its whole payload. -/
theorem payloadInput_whole (f : Frame) (more : Bytes) {s : Session σ}
    (hpacket : s.client.packet = []) :
    let s' := payloadInput server true (f.byte1 &&& 0xf) f.payload.length f.mask
      (unmask f.mask 0 f.payload ++ more) s
    AwaitsHeader s'.client more ∧ Continues s s' [f.payload] := by
  dsimp only
  rw [payloadInput_all server f.mask f.payload true f.opcode_ne_ping, hpacket]
  obtain ⟨hawaits, hcontinues⟩ := afterPayload_whole hreturn more (s := { s with
    client := { s.client with
      webSocketMask := f.mask
      remainingBytesInPacket := 0
      maskOffset := f.payload.length % 4
      packet := f.payload } }) rfl
  exact ⟨hawaits, hcontinues.after rfl rfl rfl⟩

/-- All that is left of a payload. -/
theorem restInput_whole {f : Frame} {n : Nat} {s : Session σ} (h : AwaitsPayload s.client f n)
    (more : Bytes) :
    let s' := restInput server (unmask f.mask (n % 4) (f.payload.drop n) ++ more) s
    AwaitsHeader s'.client more ∧ Continues s s' [f.payload] := by
  dsimp only
  rw [restInput_all server f.mask f.payload h.partly more h.mask h.offset h.remaining h.leftover,
    h.packet, List.take_append_drop]
  dsimp only
  rw [if_pos h.lastFin]
  obtain ⟨hfinished, hcontinues⟩ := finishPacket_delivers hreturn { s with
    client := { s.client with
      remainingBytesInPacket := 0
      maskOffset := f.payload.length % 4
      packet := f.payload
      leftoverMessage := more
      awaitingWebSocketHeader := true } }
  refine ⟨⟨?_, ?_, ?_⟩, hcontinues.after rfl rfl rfl⟩
  · exact congrArg Client.awaitingWebSocketHeader hfinished
  · exact congrArg Client.packet hfinished
  · exact congrArg Client.leftoverMessage hfinished

/-! ## One call -/

variable (server) in
omit hreturn in
/-- The bytes of a header that are there are followed by those of the call. -/
theorem webSocketInput_header {rest : Bytes} {s : Session σ} (h : AwaitsHeader s.client rest)
    (p : Bytes) :
    webSocketInput server p s = headerInput server (!rest.isEmpty) (rest ++ p)
      { s with client.leftoverMessage := if rest.isEmpty then [] else rest ++ p } := by
  obtain ⟨hawaiting, -, rfl⟩ := h
  unfold webSocketInput
  by_cases hempty : s.client.leftoverMessage = []
  · have hsame : ({ s with client.leftoverMessage := [] } : Session σ) = s := by rw [← hempty]
    simp only [hempty, List.isEmpty_nil, Bool.not_true, Bool.false_eq_true, if_false, if_true,
      List.nil_append]
    rw [hsame, if_pos hawaiting]
  · have hsome : s.client.leftoverMessage.isEmpty = false := by rwa [List.isEmpty_eq_false_iff]
    simp only [hsome, Bool.not_false, Bool.false_eq_true, if_false, if_true, hawaiting]

variable (server) in
omit hreturn in
/-- A call that does not complete a header. -/
theorem webSocketInput_short (f : Frame) {rest p : Bytes} {s : Session σ}
    (h : AwaitsHeader s.client rest) (hthrown : s.thrown = none)
    (hlimit : f.payload.length ≤ s.client.maxWebSocketPacketLength)
    (hbegins : rest ++ p <+: f.header) (hshort : (rest ++ p).length < f.header.length) :
    AwaitsHeader (webSocketInput server p s).client (rest ++ p) ∧
      Continues s (webSocketInput server p s) [] := by
  rw [webSocketInput_header server h]
  obtain ⟨fin, hwaits⟩ := headerInput_short server f f.byte1 (!rest.isEmpty)
    { s with client.leftoverMessage := if rest.isEmpty then [] else rest ++ p } hlimit hbegins
    hshort
  rw [hwaits]
  unfold Session.wait
  cases hempty : rest.isEmpty
  · exact ⟨⟨h.awaiting, h.packet, rfl⟩, ⟨hthrown, rfl, rfl, (List.append_nil _).symm⟩⟩
  · exact ⟨⟨h.awaiting, h.packet, rfl⟩, ⟨hthrown, rfl, rfl, (List.append_nil _).symm⟩⟩

/-- What a call makes of the bytes before it and its own: it waits, or it passes on the next
    message. -/
inductive Receives (frames : List Frame) (bytes : Bytes) (s s' : Session σ) : Prop
  | waits (hholds : Holds s'.client frames bytes) (hcontinues : Continues s s' [])
      (hnone : complete (frames.map Frame.encode) bytes.length = 0)
  | passes {f : Frame} {later : List Frame} {more : Bytes} (hframes : frames = f :: later)
      (hbytes : bytes = f.encode ++ more) (hholds : Holds s'.client later more)
      (hcontinues : Continues s s' [f.payload])

omit hreturn in
theorem complete_eq_zero {f : Frame} {later : List Frame} {n : Nat} (h : n < f.encode.length) :
    complete ((f :: later).map Frame.encode) n = 0 := by
  rw [List.map_cons, complete, if_neg (by omega)]

/-- A call of a client that awaits a header. -/
theorem webSocketInput_awaitsHeader {frames : List Frame} {rest p : Bytes} {s : Session σ}
    (h : AwaitsHeader s.client rest) (hthrown : s.thrown = none)
    (hlimit : ∀ f ∈ frames, f.payload.length ≤ s.client.maxWebSocketPacketLength)
    (hstream : rest ++ p <+: (frames.map Frame.encode).flatten) :
    Receives frames (rest ++ p) s (webSocketInput server p s) := by
  cases frames with
  | nil =>
    rw [List.map_nil, List.flatten_nil, List.prefix_nil, List.append_eq_nil_iff] at hstream
    obtain ⟨rfl, rfl⟩ := hstream
    refine .waits (.header ⟨?_, ?_, ?_⟩) ?_ rfl
    all_goals rw [webSocketInput_header server h]
    · exact h.awaiting
    · exact h.packet
    · rfl
    · exact ⟨hthrown, rfl, rfl, (List.append_nil _).symm⟩
  | cons f later =>
    have hf : f.payload.length ≤ s.client.maxWebSocketPacketLength := hlimit f List.mem_cons_self
    have hlen := f.length_encode
    rw [List.map_cons, List.flatten_cons, Frame.encode_eq, List.append_assoc] at hstream
    rcases prefix_append_cases hstream with ⟨hbegins, hshort⟩ | ⟨data, hdata, hrest⟩
    · obtain ⟨hawaits, hcontinues⟩ := webSocketInput_short server f h hthrown hf hbegins hshort
      exact .waits (.header hawaits) hcontinues (complete_eq_zero (by omega))
    · have hinput := webSocketInput_header server h p
      have hread := headerInput_header server f f.byte1 (!rest.isEmpty) { s with
        client.leftoverMessage := if rest.isEmpty then [] else f.header ++ data } hf data
      rw [decide_eq_true f.fin] at hread
      rw [hdata] at hinput
      replace hinput := hinput.trans hread
      rw [hinput, hdata]
      rcases prefix_append_cases hrest with ⟨hpart, hshort⟩ | ⟨more, rfl, -⟩
      · rw [length_unmask] at hshort
        rw [List.prefix_iff_eq_take, take_unmask] at hpart
        obtain ⟨hawaits, hcontinues⟩ := payloadInput_partly server f hshort (s := { s with
          client.leftoverMessage := if rest.isEmpty then [] else f.header ++ data
          client.lastFin := true }) hthrown rfl h.packet
        rw [← hpart] at hawaits hcontinues
        have hbeginning : f.header ++ data = f.beginning data.length := by
          rw [Frame.beginning_eq, ← hpart]
        rw [hbeginning] at hawaits hcontinues ⊢
        exact .waits (.payload rfl hawaits) (hcontinues.after rfl rfl rfl)
          (complete_eq_zero (f.length_beginning_lt hshort))
      · obtain ⟨hawaits, hcontinues⟩ := payloadInput_whole hreturn f more (s := { s with
          client.leftoverMessage := if rest.isEmpty then [] else f.header ++
            (unmask f.mask 0 f.payload ++ more)
          client.lastFin := true }) h.packet
        have hencode : f.header ++ (unmask f.mask 0 f.payload ++ more) = f.encode ++ more := by
          rw [Frame.encode_eq, List.append_assoc]
        exact .passes rfl hencode (.header hawaits) (hcontinues.after rfl rfl rfl)

/-- A call of a client that awaits the rest of a payload. -/
theorem webSocketInput_awaitsPayload {f : Frame} {n : Nat} {later : List Frame} {p : Bytes}
    {s : Session σ} (h : AwaitsPayload s.client f n) (hthrown : s.thrown = none)
    (hstream : f.beginning n ++ p <+: ((f :: later).map Frame.encode).flatten) :
    Receives (f :: later) (f.beginning n ++ p) s (webSocketInput server p s) := by
  have hinput : webSocketInput server p s = restInput server p s := by
    unfold webSocketInput
    simp only [h.leftover, h.awaiting, List.isEmpty_nil, Bool.not_true, Bool.false_eq_true,
      if_false]
  have hoffset : (0 + (f.payload.take n).length) % 4 = n % 4 := by
    have := h.partly
    rw [List.length_take, Nat.zero_add, Nat.min_eq_left (by omega)]
  have hencode : f.encode = f.beginning n ++ unmask f.mask (n % 4) (f.payload.drop n) := by
    rw [Frame.encode_eq, Frame.beginning_eq]
    rw [List.append_assoc, ← hoffset, ← unmask_append _ _ (by omega), List.take_append_drop]
  rw [List.map_cons, List.flatten_cons, hencode, List.append_assoc,
    List.prefix_append_right_inj] at hstream
  rw [hinput]
  rcases prefix_append_cases hstream with ⟨hpart, hshort⟩ | ⟨more, rfl, -⟩
  · rw [length_unmask, List.length_drop] at hshort
    rw [List.prefix_iff_eq_take, take_unmask] at hpart
    obtain ⟨hawaits, hcontinues⟩ := restInput_partly server (m := p.length) (by omega) h
      hthrown
    rw [← hpart] at hawaits hcontinues
    have hbeginning : f.beginning n ++ p = f.beginning (n + p.length) := by
      rw [Frame.beginning_eq, Frame.beginning_eq, List.take_add, unmask_append _ _ (by omega),
        hoffset, ← hpart, List.append_assoc]
    rw [hbeginning]
    exact .waits (.payload rfl hawaits) hcontinues
      (complete_eq_zero (f.length_beginning_lt hawaits.partly))
  · obtain ⟨hawaits, hcontinues⟩ := restInput_whole hreturn h more
    refine .passes rfl ?_ (.header hawaits) hcontinues
    rw [hencode, List.append_assoc]

/-- One call of a client that holds the beginning of a stream of frames. -/
theorem handleInput_receives {frames : List Frame} {rest p : Bytes} {s : Session σ}
    (hsocket : s.client.isWebSocket = true) (hthrown : s.thrown = none)
    (hlimit : ∀ f ∈ frames, f.payload.length ≤ s.client.maxWebSocketPacketLength)
    (hholds : Holds s.client frames rest) (hstream : rest ++ p <+: stream frames) :
    Receives frames (rest ++ p) s (handleInput server p s) := by
  have hinput : handleInput server p s = webSocketInput server p s := if_pos hsocket
  rw [hinput]
  cases hholds with
  | header h => exact webSocketInput_awaitsHeader hreturn h hthrown hlimit hstream
  | payload hnext h =>
    obtain ⟨later, rfl⟩ := List.head?_eq_some_iff.mp hnext
    exact webSocketInput_awaitsPayload hreturn h hthrown hstream

end Step

/-! ## Runs -/

/-- Calls one after another, as long as none ends in an exception. -/
def receive (server : Server σ) (calls : List Bytes) (s : Session σ) : Session σ :=
  calls.foldl (fun s messageIn => s.andThen (handleInput server messageIn)) s

/-- A client that has just become a WebSocket. -/
structure Opened (c : Client) : Prop where
  isWebSocket : c.isWebSocket = true
  awaits : AwaitsHeader c []

/-- After these calls `k` messages have been passed on, and nothing is lost. -/
structure Received (frames : List Frame) (limit : Nat) (calls : List Bytes) (k : Nat)
    (s : Session σ) : Prop where
  thrown : s.thrown = none
  isWebSocket : s.client.isWebSocket = true
  limit : s.client.maxWebSocketPacketLength = limit
  le : k ≤ frames.length
  messages : s.webSocketMessages = (frames.take k).map Frame.payload
  holds : ∃ rest, calls.flatten = stream (frames.take k) ++ rest ∧
    Holds s.client (frames.drop k) rest

theorem receive_append_singleton (server : Server σ) (calls : List Bytes) (p : Bytes)
    (s : Session σ) :
    receive server (calls ++ [p]) s = (receive server calls s).andThen (handleInput server p) := by
  unfold receive
  rw [List.foldl_append]
  rfl

section Runs

variable {server : Server σ} (hreturn : server.MessageHandlersReturn)
include hreturn

/-- One more call passes on one more message, if one more frame is complete then. -/
theorem Received.step {frames : List Frame} {limit : Nat}
    (hlimit : ∀ f ∈ frames, f.payload.length ≤ limit) {calls : List Bytes} {p : Bytes} {k : Nat}
    {s : Session σ} (h : Received frames limit calls k s)
    (hstream : (calls ++ [p]).flatten <+: stream frames) :
    Received frames limit (calls ++ [p])
      (min (k + 1) (complete (frames.map Frame.encode) (calls ++ [p]).flatten.length))
      (s.andThen (handleInput server p)) := by
  obtain ⟨rest, hcalls, hholds⟩ := h.holds
  have hsplit : stream frames = stream (frames.take k) ++ stream (frames.drop k) := by
    unfold stream
    rw [← List.flatten_append, ← List.map_append, List.take_append_drop]
  have htotal : (calls ++ [p]).flatten = stream (frames.take k) ++ (rest ++ p) := by
    rw [List.flatten_append, hcalls, List.append_assoc]
    simp
  have hcomplete : complete (frames.map Frame.encode) (calls ++ [p]).flatten.length =
      k + complete ((frames.drop k).map Frame.encode) (rest ++ p).length := by
    have := complete_append ((frames.take k).map Frame.encode) ((frames.drop k).map Frame.encode)
      (rest ++ p).length
    rw [← List.map_append, List.take_append_drop, List.length_map, List.length_take,
      Nat.min_eq_left h.le] at this
    rw [htotal, List.length_append]
    exact this
  have hnext : rest ++ p <+: stream (frames.drop k) := by
    rw [htotal, hsplit, List.prefix_append_right_inj] at hstream
    exact hstream
  have hlater : ∀ f ∈ frames.drop k, f.payload.length ≤ s.client.maxWebSocketPacketLength := by
    intro f hf
    rw [h.limit]
    exact hlimit f (List.mem_of_mem_drop hf)
  rw [Session.andThen_of_none h.thrown, hcomplete]
  cases handleInput_receives hreturn h.isWebSocket h.thrown hlater hholds hnext with
  | waits hholds hcontinues hnone =>
    have hk :
        min (k + 1) (k + complete ((frames.drop k).map Frame.encode) (rest ++ p).length) = k := by
      rw [hnone]
      omega
    rw [hk]
    refine ⟨hcontinues.thrown, hcontinues.isWebSocket.trans h.isWebSocket,
      hcontinues.limit.trans h.limit, h.le, ?_, rest ++ p, htotal, hholds⟩
    rw [hcontinues.messages, List.append_nil, h.messages]
  | @passes f later more hframes hbytes hholds hcontinues =>
    have hk : min (k + 1) (k + complete ((frames.drop k).map Frame.encode) (rest ++ p).length) =
        k + 1 := by
      rw [hframes, hbytes, List.map_cons, complete, if_pos (by rw [List.length_append]; omega)]
      omega
    have htake : frames.take (k + 1) = frames.take k ++ [f] := by
      rw [List.take_add, hframes]
      rfl
    have hdrop : frames.drop (k + 1) = later := by
      rw [← List.drop_drop, hframes]
      rfl
    have hlen : k + 1 ≤ frames.length := by
      have := congrArg List.length hframes
      rw [List.length_drop, List.length_cons] at this
      omega
    rw [hk]
    refine ⟨hcontinues.thrown, hcontinues.isWebSocket.trans h.isWebSocket,
      hcontinues.limit.trans h.limit, hlen, ?_, more, ?_, hdrop ▸ hholds⟩
    · rw [hcontinues.messages, h.messages, htake, List.map_append]
      rfl
    · rw [htotal, hbytes, htake, stream, stream, List.map_append, List.flatten_append]
      simp

/-- After every call the state is that of the frames passed on and of the bytes after them. -/
theorem receive_received {frames : List Frame} {s : Session σ} (hopened : Opened s.client)
    (hthrown : s.thrown = none) (hevents : s.webSocketMessages = [])
    (hlimit : ∀ f ∈ frames, f.payload.length ≤ s.client.maxWebSocketPacketLength)
    (calls : List Bytes) (hstream : calls.flatten <+: stream frames) :
    ∃ k, Received frames s.client.maxWebSocketPacketLength calls k (receive server calls s) := by
  induction calls using List.reverseRecOn with
  | nil =>
    exact ⟨0, hthrown, hopened.isWebSocket, rfl, Nat.zero_le _, hevents, [], rfl,
      .header hopened.awaits⟩
  | append_singleton calls p ih =>
    have hbefore : calls.flatten <+: stream frames := by
      rw [List.flatten_append] at hstream
      exact (List.prefix_append _ _).trans hstream
    obtain ⟨k, hreceived⟩ := ih hbefore
    rw [receive_append_singleton]
    exact ⟨_, hreceived.step hreturn hlimit hstream⟩

/-- After every call of `handleInput` the messages passed on are those of the first `k` frames,
    and the bytes received after these frames are all held. -/
theorem received_frames {c : Client} (hopened : Opened c) (plugins : σ) {frames : List Frame}
    (hlimit : ∀ f ∈ frames, f.payload.length ≤ c.maxWebSocketPacketLength) (calls : List Bytes)
    (hstream : calls.flatten <+: stream frames) :
    let s := receive server calls { client := c, plugins := plugins }
    ∃ k ≤ frames.length, s.webSocketMessages = (frames.take k).map Frame.payload ∧
      ∃ rest, calls.flatten = stream (frames.take k) ++ rest ∧
        Holds s.client (frames.drop k) rest := by
  obtain ⟨k, h⟩ := receive_received hreturn (s := { client := c, plugins := plugins }) hopened rfl
    rfl hlimit calls hstream
  exact ⟨k, h.le, h.messages, h.holds⟩

end Runs

/-- A text frame of one byte. -/
def oneByte (mask : UInt32) (b : UInt8) : Frame where
  byte1 := 0x81
  form := .short
  mask := mask
  payload := [b]
  fin := MaskedFrame.textByte_fin
  opcode := MaskedFrame.textByte_opcode
  fits := by
    show 1 < 126
    omega

/-- A frame and the header of the next one: one message, and six bytes that are held. -/
theorem received_frames_cutFrames :
    let s := receive ({} : Server Unit)
      [(oneByte 0x01020304 97).encode.take 6,
        (oneByte 0x01020304 97).encode.drop 6 ++ (oneByte 0xa0b0c0d0 98).encode.take 6]
      { client := { isWebSocket := true }, plugins := () }
    ∃ k ≤ 2, s.webSocketMessages =
        ([oneByte 0x01020304 97, oneByte 0xa0b0c0d0 98].take k).map Frame.payload ∧
      ∃ rest, (oneByte 0x01020304 97).encode ++ (oneByte 0xa0b0c0d0 98).encode.take 6 =
          stream ([oneByte 0x01020304 97, oneByte 0xa0b0c0d0 98].take k) ++ rest ∧
        Holds s.client ([oneByte 0x01020304 97, oneByte 0xa0b0c0d0 98].drop k) rest :=
  @received_frames Unit {} (fun _ _ _ => rfl) _ ⟨rfl, rfl, rfl, rfl⟩ ()
    [oneByte 0x01020304 97, oneByte 0xa0b0c0d0 98] (by decide) _ (by decide)

/-! ## Promptness -/

/-- After each of these calls, the messages of all frames that have been received whole have been
    passed on, and no whole frame is left in `leftoverMessage`. -/
def Prompt (server : Server σ) (frames : List Frame) (calls : List Bytes) (s : Session σ) : Prop :=
  ∀ i ≤ calls.length,
    let n := complete (frames.map Frame.encode) (calls.take i).flatten.length
    let s' := receive server (calls.take i) s
    s'.webSocketMessages = (frames.take n).map Frame.payload ∧
      complete ((frames.drop n).map Frame.encode) s'.client.leftoverMessage.length = 0

/-- Each call brings the last byte of no more than one frame. -/
def OneFrameACall (frames : List Frame) (calls : List Bytes) : Prop :=
  ∀ i < calls.length,
    complete (frames.map Frame.encode) (calls.take (i + 1)).flatten.length ≤
      complete (frames.map Frame.encode) (calls.take i).flatten.length + 1

section Prompt

variable {frames : List Frame} {limit : Nat} {calls : List Bytes} {s : Session σ}

/-- The number of messages passed on is that of the frames. -/
theorem Received.length_messages {k : Nat} (h : Received frames limit calls k s) :
    s.webSocketMessages.length = k := by
  rw [h.messages, List.length_map, List.length_take, Nat.min_eq_left h.le]

/-- What is held after frame `k` has no whole frame in it, if no more than `k` are whole. -/
theorem Received.no_frame_waits
    (h : Received frames limit calls (complete (frames.map Frame.encode) calls.flatten.length) s) :
    complete ((frames.drop (complete (frames.map Frame.encode) calls.flatten.length)).map
      Frame.encode) s.client.leftoverMessage.length = 0 := by
  obtain ⟨rest, hcalls, hholds⟩ := h.holds
  generalize hk : complete (frames.map Frame.encode) calls.flatten.length = k at h hcalls hholds ⊢
  cases hholds with
  | header hawaits =>
    have htotal := complete_append ((frames.take k).map Frame.encode)
      ((frames.drop k).map Frame.encode) rest.length
    rw [← List.map_append, List.take_append_drop, List.length_map, List.length_take,
      Nat.min_eq_left h.le] at htotal
    have hlen : calls.flatten.length =
        ((frames.take k).map Frame.encode).flatten.length + rest.length := by
      rw [hcalls, List.length_append, stream]
    rw [hawaits.leftover]
    rw [hlen, htotal] at hk
    omega
  | payload _ hawaits =>
    rw [hawaits.leftover]
    refine complete_zero ?_
    intro block hblock
    obtain ⟨f, -, rfl⟩ := List.mem_map.mp hblock
    exact f.encode_ne_nil

/-- The messages of the whole frames have been passed on as soon as there are as many. -/
theorem Received.messages_eq_iff {k : Nat} (h : Received frames limit calls k s) (n : Nat)
    (hn : n ≤ frames.length) :
    s.webSocketMessages = (frames.take n).map Frame.payload ↔ k = n := by
  constructor
  · intro hmessages
    have hlen := congrArg List.length hmessages
    rw [h.length_messages, List.length_map, List.length_take, Nat.min_eq_left hn] at hlen
    exact hlen
  · intro hk
    rw [h.messages, hk]

end Prompt

/-- Messages are passed on as soon as their frames are whole exactly when no call completes two
    frames. -/
theorem prompt_iff {server : Server σ} (hreturn : server.MessageHandlersReturn) {c : Client}
    (hopened : Opened c) (plugins : σ) {frames : List Frame}
    (hlimit : ∀ f ∈ frames, f.payload.length ≤ c.maxWebSocketPacketLength) (calls : List Bytes)
    (hstream : calls.flatten <+: stream frames) :
    Prompt server frames calls { client := c, plugins := plugins } ↔
      OneFrameACall frames calls := by
  let s : Nat → Session σ := fun i =>
    receive server (calls.take i) { client := c, plugins := plugins }
  have hpart : ∀ i, (calls.take i).flatten <+: stream frames := by
    intro i
    refine List.IsPrefix.trans ?_ hstream
    conv_rhs => rw [← List.take_append_drop i calls, List.flatten_append]
    exact List.prefix_append _ _
  have hreceived : ∀ i, Received frames c.maxWebSocketPacketLength (calls.take i)
      (s i).webSocketMessages.length (s i) := by
    intro i
    obtain ⟨k, h⟩ := receive_received hreturn (s := { client := c, plugins := plugins }) hopened
      rfl rfl hlimit (calls.take i) (hpart i)
    exact h.length_messages.symm ▸ h
  have hstep : ∀ i < calls.length, (s (i + 1)).webSocketMessages.length =
      min ((s i).webSocketMessages.length + 1)
        (complete (frames.map Frame.encode) (calls.take (i + 1)).flatten.length) := by
    intro i hi
    have htake : calls.take (i + 1) = calls.take i ++ [calls[i]] :=
      (List.take_append_getElem hi).symm
    have hnext := (hreceived i).step hreturn hlimit (p := calls[i]) (htake ▸ hpart (i + 1))
    rw [← receive_append_singleton, ← htake] at hnext
    exact hnext.length_messages
  have hbound : ∀ n, complete (frames.map Frame.encode) n ≤ frames.length := by
    intro n
    have := complete_le (frames.map Frame.encode) n
    rwa [List.length_map] at this
  refine Iff.trans ?_ (keepsUp_iff (frames.map Frame.encode)
    (fun i => (s i).webSocketMessages.length) (fun i => (calls.take i).flatten.length)
    calls.length ?_ hstep)
  · constructor
    · intro hprompt i hi
      exact ((hreceived i).messages_eq_iff _ (hbound _)).mp (hprompt i hi).1
    · intro htaken i hi
      refine ⟨((hreceived i).messages_eq_iff _ (hbound _)).mpr (htaken i hi), ?_⟩
      exact Received.no_frame_waits (htaken i hi ▸ hreceived i)
  · exact (complete_zero (by simpa using fun f _ => f.encode_ne_nil)).symm

/-- Two frames, cut inside the second frame's header and again inside its payload. -/
theorem prompt_iff_cutFrames :
    Prompt ({} : Server Unit) [oneByte 0x01020304 97, oneByte 0xa0b0c0d0 98]
      [(oneByte 0x01020304 97).encode ++ (oneByte 0xa0b0c0d0 98).encode.take 3,
        (oneByte 0xa0b0c0d0 98).encode.drop 3]
      { client := { isWebSocket := true }, plugins := () } := by
  refine (prompt_iff (fun _ _ _ => rfl) ⟨rfl, rfl, rfl, rfl⟩ () (by decide) _ (by decide)).mpr ?_
  unfold OneFrameACall
  decide

/-- Two frames in one call: the second message is not passed on. -/
theorem not_prompt_twoFrames :
    ¬ Prompt ({} : Server Unit) [oneByte 0 97, oneByte 0 98]
      [stream [oneByte 0 97, oneByte 0 98]]
      { client := { isWebSocket := true }, plugins := () } := by
  intro h
  have hmessages := (h 1 (by decide)).1
  revert hmessages
  decide

end Algiz.HTTP
