/-
  The frames a WebSocket client is sent, read as RFC 6455 has it.

  `readFrame` takes one frame off a stream, masked or not, with any of the three encodings of its
  length. What `Client::sendWebSocket` writes for a list of messages is read back as one frame
  for each, final, unmasked, with its length in the shortest form (`sendWebSocket_readFrames`).
-/
import Algiz.HTTP.Frame
import Algiz.Lib.Reader

namespace Algiz.HTTP

open Algiz.Lib

variable {σ : Type*}

/-! ## Reading frames -/

/-- A frame as it is read. -/
structure WebSocketFrame where
  fin : Bool
  /-- the three reserved bits -/
  reserved : Nat
  opcode : UInt8
  /-- the masking key, if there is one -/
  mask : Option UInt32
  form : LengthForm
  payload : Bytes
  deriving DecidableEq

/-- The shortest form that a length can be written in. -/
def shortestForm (length : Nat) : LengthForm :=
  if length < LengthForm.short.limit then .short
  else if length < LengthForm.medium.limit then .medium
  else .long

/-- So many bytes, and what follows them. -/
def readBytes (n : Nat) (input : Bytes) : Option (Bytes × Bytes) :=
  if n ≤ input.length then some (input.take n, input.drop n) else none

/-- The length of a payload, from the seven low bits of the second byte on. -/
def readLength (code : UInt8) (input : Bytes) : Option ((LengthForm × Nat) × Bytes) :=
  if code = 126 then
    (readBytes 2 input).map fun field => ((.medium, bigEndian field.1), field.2)
  else if code = 127 then
    -- the most significant bit is 0
    (readBytes 8 input).bind fun field =>
      if bigEndian field.1 < 2 ^ 63 then some ((.long, bigEndian field.1), field.2) else none
  else some ((.short, code.toNat), input)

/-- The masking key, if the bit for it is set. -/
def readMask (isMasked : Bool) (input : Bytes) : Option (Option UInt32 × Bytes) :=
  if isMasked then
    (readBytes 4 input).map fun key => (some (UInt32.ofNat (bigEndian key.1)), key.2)
  else some (none, input)

/-- The payload, unmasked. -/
def readPayload (mask : Option UInt32) (length : Nat) (input : Bytes) : Option (Bytes × Bytes) :=
  (readBytes length input).map fun payload =>
    (match mask with
      | none => payload.1
      | some key => masked key payload.1, payload.2)

/-- One frame, and what follows it. -/
def readFrame : Bytes → Option (WebSocketFrame × Bytes)
  | byte1 :: byte2 :: input =>
    (readLength (byte2 &&& 0x7f) input).bind fun length =>
      (readMask (byte2 >>> 7 &&& 1 = 1) length.2).bind fun mask =>
        (readPayload mask.1 length.1.2 mask.2).map fun payload =>
          ({ fin := byte1 >>> 7 &&& 1 = 1
             reserved := (byte1 >>> 4 &&& 7).toNat
             opcode := byte1 &&& 0xf
             mask := mask.1
             form := length.1.1
             payload := payload.1 }, payload.2)
  | _ => none

/-- The frames of a stream that ends where a frame does. -/
def readFrames (input : Bytes) : Option (List WebSocketFrame) :=
  readAll readFrame input.length input

theorem readBytes_append {n : Nat} {bytes : Bytes} (h : bytes.length = n) (rest : Bytes) :
    readBytes n (bytes ++ rest) = some (bytes, rest) := by
  unfold readBytes
  rw [if_pos (by rw [List.length_append]; omega), List.take_left' h, List.drop_left' h]

/-! ## Sending -/

/-- A call of `sendWebSocket`. -/
structure WebSocketCall where
  message : Bytes
  isBinary : Bool := false
  /-- 255 stands for none -/
  opcodeOverride : UInt8 := 255
  /-- it is shorter than the longest string -/
  fits : message.length < 2 ^ 63 := by decide
  allowed : opcodeOverride = 255 ∨ opcodeOverride < 16 := by decide

namespace WebSocketCall

variable (call : WebSocketCall)

/-- The opcode that is asked for. -/
def opcode : UInt8 :=
  if call.opcodeOverride ≠ 255 then call.opcodeOverride else if call.isBinary then 2 else 1

/-- What is written. -/
def text : Bytes :=
  webSocketHeader call.message.length call.isBinary call.opcodeOverride ++ call.message

/-- The frame that should be read. -/
def frame : WebSocketFrame where
  fin := true
  reserved := 0
  opcode := call.opcode
  mask := none
  form := shortestForm call.message.length
  payload := call.message

theorem text_ne_nil : call.text ≠ [] := List.cons_ne_nil _ _

theorem opcode_lt : call.opcode < 16 := by
  unfold opcode
  split
  · rename_i hother
    exact call.allowed.resolve_left hother
  · split <;> decide

/-- The first byte: FIN, no reserved bit, the opcode. -/
theorem byte1_bits {opcode : UInt8} (h : opcode < 16) :
    (128 ||| opcode) >>> 7 &&& 1 = 1 ∧ (128 ||| opcode) >>> 4 &&& 7 = 0 ∧
      (128 ||| opcode) &&& 0xf = opcode := by
  have hall : ∀ n : Fin 16, (128 ||| UInt8.ofNat n) >>> 7 &&& 1 = 1 ∧
      (128 ||| UInt8.ofNat n) >>> 4 &&& 7 = 0 ∧
      (128 ||| UInt8.ofNat n) &&& 0xf = UInt8.ofNat n := by decide
  have hlt : opcode.toNat < 16 := h
  have hopcode : UInt8.ofNat opcode.toNat = opcode := UInt8.ofNat_toNat
  rw [← hopcode]
  exact hall ⟨opcode.toNat, hlt⟩

/-- A short length: no mask bit, and seven bits of length. -/
theorem short_bits {n : Nat} (h : n < 126) :
    UInt8.ofNat n &&& 0x7f = UInt8.ofNat n ∧ UInt8.ofNat n >>> 7 &&& 1 ≠ 1 := by
  have hall : ∀ n : Fin 126, UInt8.ofNat n &&& 0x7f = UInt8.ofNat n ∧
      UInt8.ofNat n >>> 7 &&& 1 ≠ 1 := by decide
  exact hall ⟨n, h⟩

/-- A length as it is written: a second byte without the mask bit, from which, and from the field
    behind it, the length is read in its shortest form. -/
theorem length_written {size : Nat} (hsize : size < 2 ^ 63) (isBinary : Bool)
    (opcodeOverride : UInt8) :
    ∃ byte1 byte2 field, webSocketHeader size isBinary opcodeOverride = byte1 :: byte2 :: field ∧
      byte2 >>> 7 &&& 1 ≠ 1 ∧
      ∀ rest, readLength (byte2 &&& 0x7f) (field ++ rest) =
        some ((shortestForm size, size), rest) := by
  unfold webSocketHeader readLength
  by_cases hshort : size ≤ 125
  · obtain ⟨hlow, hmask⟩ := short_bits (n := size) (by omega)
    have hbyte : (UInt8.ofNat size).toNat = size := by
      rw [UInt8.toNat_ofNat', Nat.mod_eq_of_lt (by omega)]
    have hmedium : UInt8.ofNat size ≠ 126 := by
      intro heq
      have := congrArg UInt8.toNat heq
      rw [hbyte] at this
      simp at this
      omega
    have hlong : UInt8.ofNat size ≠ 127 := by
      intro heq
      have := congrArg UInt8.toNat heq
      rw [hbyte] at this
      simp at this
      omega
    refine ⟨_, UInt8.ofNat size, [], by rw [if_pos hshort], hmask, fun rest => ?_⟩
    have hform : shortestForm size = .short := if_pos (show size < 126 by omega)
    rw [hlow, if_neg hmedium, if_neg hlong, hbyte, hform]
    rfl
  · have hnotShort : ¬ size < LengthForm.short.limit := fun hlt => hshort (Nat.le_of_lt_succ hlt)
    by_cases hmedium : size < 65536
    · have hform : shortestForm size = .medium := (if_neg hnotShort).trans (if_pos hmedium)
      have hvalue : bigEndian (bigEndianBytes 2 size) = size := by
        rw [bigEndian_bigEndianBytes, Nat.mod_eq_of_lt (by omega)]
      refine ⟨_, 126, bigEndianBytes 2 size, by rw [if_neg hshort, if_pos hmedium], by decide,
        fun rest => ?_⟩
      rw [if_pos (by decide), readBytes_append (length_bigEndianBytes 2 size), hform]
      simp [hvalue]
    · have hform : shortestForm size = .long := (if_neg hnotShort).trans (if_neg hmedium)
      have hvalue : bigEndian (bigEndianBytes 8 size) = size := by
        rw [bigEndian_bigEndianBytes, Nat.mod_eq_of_lt (by omega)]
      refine ⟨_, 127, bigEndianBytes 8 size, by rw [if_neg hshort, if_neg hmedium], by decide,
        fun rest => ?_⟩
      rw [if_neg (by decide), if_pos (by decide), readBytes_append (length_bigEndianBytes 8 size),
        hform, Option.bind_some]
      dsimp only
      rw [hvalue, if_pos hsize]

/-- A frame without a masking key. -/
theorem readFrame_unmasked {byte1 byte2 : UInt8} {field payload : Bytes} {form : LengthForm}
    (hmask : byte2 >>> 7 &&& 1 ≠ 1)
    (hlength : ∀ rest, readLength (byte2 &&& 0x7f) (field ++ rest) =
      some ((form, payload.length), rest)) (rest : Bytes) :
    readFrame (byte1 :: byte2 :: (field ++ (payload ++ rest))) = some
      ({ fin := byte1 >>> 7 &&& 1 = 1
         reserved := (byte1 >>> 4 &&& 7).toNat
         opcode := byte1 &&& 0xf
         mask := none
         form := form
         payload := payload }, rest) := by
  unfold readFrame readMask readPayload
  dsimp only
  rw [hlength, decide_eq_false hmask]
  simp [readBytes_append]

/-- What a call writes is read as its frame, whatever follows. -/
theorem readFrame_text (rest : Bytes) :
    readFrame (call.text ++ rest) = some (call.frame, rest) := by
  obtain ⟨byte1, byte2, field, hheader, hmask, hlength⟩ :=
    length_written call.fits call.isBinary call.opcodeOverride
  have hbyte1 : byte1 = 128 ||| call.opcode := by
    have hhead := congrArg List.head? hheader
    exact (Option.some.inj hhead).symm
  have htext : call.text ++ rest = byte1 :: byte2 :: (field ++ (call.message ++ rest)) := by
    unfold text
    rw [hheader]
    simp
  obtain ⟨hfin, hreserved, hopcode⟩ := byte1_bits call.opcode_lt
  rw [htext, readFrame_unmasked hmask hlength, hbyte1]
  unfold frame
  rw [decide_eq_true hfin, hreserved, hopcode]
  rfl

end WebSocketCall

/-! ## A run of calls -/

/-- The bytes that are sent. -/
def sentBytes (acts : List Net.Act) : Bytes :=
  (acts.filterMap fun act => match act with
    | .send data => some data
    | .close | .leaveLineMode | .setMaxRead _ => none).flatten

theorem sentBytes_append (acts others : List Net.Act) :
    sentBytes (acts ++ others) = sentBytes acts ++ sentBytes others := by
  unfold sentBytes
  rw [List.filterMap_append, List.flatten_append]

/-- Calls of `sendWebSocket`, one after another. -/
def Session.sendAll (s : Session σ) (calls : List WebSocketCall) : Session σ :=
  calls.foldl (fun s call => s.sendWebSocket call.message call.isBinary call.opcodeOverride) s

theorem sentBytes_sendWebSocket (s : Session σ) (call : WebSocketCall) :
    sentBytes (s.sendWebSocket call.message call.isBinary call.opcodeOverride).acts =
      sentBytes s.acts ++ call.text := by
  have hacts : (s.sendWebSocket call.message call.isBinary call.opcodeOverride).acts =
      s.acts ++ [.send (webSocketHeader call.message.length call.isBinary call.opcodeOverride),
        .send call.message] := by
    unfold Session.acts Session.sendWebSocket Session.send Session.emit
    simp [Event.toAct]
  rw [hacts, sentBytes_append]
  simp [sentBytes, WebSocketCall.text]

/-- A run of calls writes their texts, one after another. -/
theorem sentBytes_sendAll (s : Session σ) (calls : List WebSocketCall) :
    sentBytes (s.sendAll calls).acts =
      sentBytes s.acts ++ (calls.map WebSocketCall.text).flatten := by
  induction calls generalizing s with
  | nil => simp [Session.sendAll]
  | cons call calls ih =>
    have hnext : s.sendAll (call :: calls) =
        (s.sendWebSocket call.message call.isBinary call.opcodeOverride).sendAll calls := rfl
    rw [hnext, ih, sentBytes_sendWebSocket]
    simp

/-- What a run of calls writes is read as their frames, and nothing is left over: each is final
    and unmasked, has the opcode that was asked for, and the message as its payload, its length in
    the shortest form. -/
theorem sendWebSocket_readFrames (s : Session σ) (calls : List WebSocketCall) :
    ∃ bytes, sentBytes (s.sendAll calls).acts = sentBytes s.acts ++ bytes ∧
      readFrames bytes = some (calls.map WebSocketCall.frame) := by
  refine ⟨_, sentBytes_sendAll s calls, ?_⟩
  have hne : ∀ call ∈ calls, call.text ≠ [] := fun call _ => call.text_ne_nil
  exact readAll_flatten hne (fun call _ rest => call.readFrame_text rest)
    (length_le_length_flatten hne)

example : readFrames [0x81, 2, 104, 105, 0x8a, 0] = some
    [(⟨ascii "hi", false, 255, by decide, by decide⟩ : WebSocketCall).frame,
      (⟨[], true, 10, by decide, by decide⟩ : WebSocketCall).frame] := by decide

end Algiz.HTTP
