/-
  The frames a WebSocket client sends: messages in one frame (FIN, opcode 1 or 2), masked, with
  any of the three encodings of the payload's length; and what `Client::handleInput` makes of the
  beginning of one. `masked` is what masks a payload, byte by byte; the running offset of the code
  comes to the same (`masked_eq_unmask`).

  A header is read in three steps (two bytes, the length field, the mask), and each step waits
  until its bytes are there: `headerInput_short`. Once they are, the payload goes on to
  `payloadInput`: `headerInput_header`.
-/
import Algiz.HTTP.Input

namespace Algiz.HTTP

/-! ## Numbers as bytes -/

@[simp] theorem length_bigEndianBytes (n value : Nat) : (bigEndianBytes n value).length = n := by
  induction n with
  | zero => rfl
  | succ n ih => rw [bigEndianBytes, List.length_cons, ih]

theorem bigEndian_append_singleton (bytes : Bytes) (b : UInt8) :
    bigEndian (bytes ++ [b]) = 256 * bigEndian bytes + b.toNat := by
  simp [bigEndian]

/-- The last of the bytes is the lowest. -/
theorem bigEndianBytes_succ (n value : Nat) :
    bigEndianBytes (n + 1) value = bigEndianBytes n (value / 256) ++ [UInt8.ofNat value] := by
  induction n with
  | zero => simp [bigEndianBytes]
  | succ n ih =>
    rw [bigEndianBytes, ih, bigEndianBytes, List.cons_append, Nat.div_div_eq_div_mul,
      Nat.pow_succ']

/-- Bytes are read as they were written, up to what does not fit. -/
theorem bigEndian_bigEndianBytes (n value : Nat) :
    bigEndian (bigEndianBytes n value) = value % 256 ^ n := by
  induction n generalizing value with
  | zero => simp [bigEndianBytes, bigEndian, Nat.mod_one]
  | succ n ih =>
    have hbyte : (UInt8.ofNat value).toNat = value % 256 := UInt8.toNat_ofNat'
    rw [bigEndianBytes_succ, bigEndian_append_singleton, ih, hbyte, Nat.pow_succ', Nat.mod_mul]
    omega

/-! ## Frames -/

/-- The three encodings of a payload's length. -/
inductive LengthForm where
  | short | medium | long
  deriving DecidableEq

/-- The lengths below this one can be written so. -/
def LengthForm.limit : LengthForm → Nat
  | .short => 126
  | .medium => 2 ^ 16
  | .long => 2 ^ 64

/-- A payload as it is masked: byte `i` with byte `i` modulo 4 of the mask, whose bytes are in the
    order in which the header has them. -/
def masked (mask : UInt32) (payload : Bytes) : Bytes :=
  payload.zipIdx.map fun (b, i) => b ^^^ (bigEndianBytes 4 mask.toNat).getD (i % 4) 0

/-- A masked frame that is a whole message. -/
structure Frame where
  byte1 : UInt8
  form : LengthForm
  mask : UInt32
  payload : Bytes
  /-- FIN is set -/
  fin : byte1 >>> 7 &&& 1 = 1
  /-- the opcode is 1 or 2 -/
  opcode : byte1 &&& 0xf = 1 ∨ byte1 &&& 0xf = 2
  fits : payload.length < form.limit

namespace Frame

/-- The bit that says that there is a mask, and seven bits of length. -/
def byte2 (f : Frame) : UInt8 :=
  match f.form with
  | .short => 128 + UInt8.ofNat f.payload.length
  | .medium => 128 + 126
  | .long => 128 + 127

def lengthField (f : Frame) : Bytes :=
  match f.form with
  | .short => []
  | .medium => bigEndianBytes 2 f.payload.length
  | .long => bigEndianBytes 8 f.payload.length

def header (f : Frame) : Bytes :=
  f.byte1 :: f.byte2 :: (f.lengthField ++ bigEndianBytes 4 f.mask.toNat)

/-- The frame as it is sent. -/
def encode (f : Frame) : Bytes := f.header ++ masked f.mask f.payload

theorem encode_ne_nil (f : Frame) : f.encode ≠ [] := List.cons_ne_nil _ _

theorem opcode_ne_ping (f : Frame) : f.byte1 &&& 0xf ≠ 9 := by
  rcases f.opcode with h | h
  · rw [h]
    decide
  · rw [h]
    decide

/-- Short lengths as bytes: the seven low bits and the mask bit of `128 + n`. -/
theorem short_byte2 (n : Nat) (h : n < 126) :
    (128 + UInt8.ofNat n) &&& 0x7f = UInt8.ofNat n ∧ (128 + UInt8.ofNat n) >>> 7 &&& 1 = 1 ∧
      UInt8.ofNat n ≠ 126 ∧ UInt8.ofNat n ≠ 127 := by
  have : ∀ n : Fin 126,
      (128 + UInt8.ofNat n) &&& 0x7f = UInt8.ofNat n ∧ (128 + UInt8.ofNat n) >>> 7 &&& 1 = 1 ∧
        UInt8.ofNat n ≠ 126 ∧ UInt8.ofNat n ≠ 127 := by decide
  exact this ⟨n, h⟩

theorem byte2_masked (f : Frame) : f.byte2 >>> 7 &&& 1 = 1 := by
  unfold byte2
  cases hform : f.form with
  | short =>
    have hfits := f.fits
    rw [hform] at hfits
    exact (short_byte2 _ hfits).2.1
  | medium => exact (by decide : (128 + 126 : UInt8) >>> 7 &&& 1 = 1)
  | long => exact (by decide : (128 + 127 : UInt8) >>> 7 &&& 1 = 1)

theorem lengthFieldSize_byte2 (f : Frame) : lengthFieldSize f.byte2 = f.lengthField.length := by
  unfold lengthFieldSize byte2 lengthField
  cases hform : f.form with
  | short =>
    have hfits := f.fits
    rw [hform] at hfits
    obtain ⟨hlow, -, hmedium, hlong⟩ := short_byte2 _ hfits
    simp only [hlow]
    rw [if_neg hmedium, if_neg hlong]
    rfl
  | medium =>
    have hlow : (128 + 126 : UInt8) &&& 0x7f = 126 := by decide
    dsimp only
    rw [length_bigEndianBytes, if_pos hlow]
  | long =>
    have hlow : (128 + 127 : UInt8) &&& 0x7f = 127 := by decide
    have hmedium : (127 : UInt8) ≠ 126 := by decide
    dsimp only
    rw [length_bigEndianBytes, hlow, if_neg hmedium, if_pos rfl]

/-- The length is read as it was written. -/
theorem payloadLength_byte2 (f : Frame) :
    payloadLength f.byte2 f.lengthField = f.payload.length := by
  have hfits := f.fits
  unfold payloadLength
  rw [lengthFieldSize_byte2]
  unfold lengthField byte2
  cases hform : f.form with
  | short =>
    rw [hform] at hfits
    dsimp only [List.length_nil]
    have hlimit : f.payload.length < 126 := hfits
    rw [if_pos rfl, (short_byte2 _ hlimit).1, UInt8.toNat_ofNat', Nat.mod_eq_of_lt (by omega)]
  | medium =>
    rw [hform] at hfits
    dsimp only
    rw [length_bigEndianBytes, if_neg (by decide), bigEndian_bigEndianBytes]
    exact Nat.mod_eq_of_lt hfits
  | long =>
    rw [hform] at hfits
    dsimp only
    rw [length_bigEndianBytes, if_neg (by decide), bigEndian_bigEndianBytes]
    exact Nat.mod_eq_of_lt hfits

/-- So is the mask. -/
theorem mask_read (f : Frame) :
    UInt32.ofNat (bigEndian (bigEndianBytes 4 f.mask.toNat)) = f.mask := by
  have hlt : f.mask.toNat < 256 ^ 4 := f.mask.toNat_lt
  rw [bigEndian_bigEndianBytes, Nat.mod_eq_of_lt hlt]
  exact UInt32.ofNat_toNat

end Frame

/-! ## Masks -/

@[simp] theorem length_unmask (mask : UInt32) (offset : Nat) (bytes : Bytes) :
    (unmask mask offset bytes).length = bytes.length := by
  induction bytes generalizing offset with
  | nil => rfl
  | cons b bytes ih => rw [unmask, List.length_cons, List.length_cons, ih]

/-- The code's byte of the mask is the one in the header. -/
theorem maskByte_eq (mask : UInt32) (n : Nat) :
    maskByte mask (n % 4) = (bigEndianBytes 4 mask.toNat).getD (n % 4) 0 := by
  have hlt : n % 4 < 4 := Nat.mod_lt n (by decide)
  generalize n % 4 = i at hlt
  match i with
  | 0 | 1 | 2 | 3 => rfl

/-- From byte `n` on. -/
theorem unmask_zipIdx (mask : UInt32) (n : Nat) (bytes : Bytes) :
    unmask mask (n % 4) bytes = (bytes.zipIdx n).map fun (b, i) =>
      b ^^^ (bigEndianBytes 4 mask.toNat).getD (i % 4) 0 := by
  induction bytes generalizing n with
  | nil => rfl
  | cons b bytes ih =>
    rw [unmask, maskByte_eq, Nat.mod_add_mod, ih, List.zipIdx_cons, List.map_cons]

/-- What the code does to a payload is what masks it, and so takes the mask off again. -/
theorem masked_eq_unmask (mask : UInt32) (payload : Bytes) :
    masked mask payload = unmask mask 0 payload := (unmask_zipIdx mask 0 payload).symm

theorem Frame.encode_eq (f : Frame) : f.encode = f.header ++ unmask f.mask 0 f.payload := by
  rw [encode, masked_eq_unmask]

theorem unmask_unmask (mask : UInt32) (offset : Nat) (bytes : Bytes) :
    unmask mask offset (unmask mask offset bytes) = bytes := by
  induction bytes generalizing offset with
  | nil => rfl
  | cons b bytes ih =>
    have hself : maskByte mask offset ^^^ maskByte mask offset = 0 := UInt8.xor_self
    rw [unmask, unmask, ih, UInt8.xor_assoc, hself, UInt8.xor_zero]

theorem unmask_append (mask : UInt32) (offset : Nat) (hoffset : offset < 4) (s t : Bytes) :
    unmask mask offset (s ++ t) =
      unmask mask offset s ++ unmask mask ((offset + s.length) % 4) t := by
  induction s generalizing offset with
  | nil => rw [List.nil_append, List.length_nil, Nat.add_zero, Nat.mod_eq_of_lt hoffset]; rfl
  | cons b s ih =>
    have hnext : ((offset + 1) % 4 + s.length) % 4 = (offset + (b :: s).length) % 4 := by
      rw [List.length_cons]
      omega
    rw [List.cons_append, unmask, ih _ (Nat.mod_lt _ (by omega)), hnext]
    rfl

theorem take_unmask (mask : UInt32) (offset n : Nat) (bytes : Bytes) :
    (unmask mask offset bytes).take n = unmask mask offset (bytes.take n) := by
  induction bytes generalizing offset n with
  | nil => rw [unmask, List.take_nil, unmask]
  | cons b bytes ih =>
    cases n with
    | zero => rfl
    | succ n => rw [unmask, List.take_succ_cons, List.take_succ_cons, unmask, ih]

/-! ## The beginning of a frame as input -/

/-- A prefix of two lists, one after the other: a part of the first, or all of it and a prefix of
    the second. -/
theorem prefix_append_cases {α : Type*} {l s t : List α} (h : l <+: s ++ t) :
    (l <+: s ∧ l.length < s.length) ∨ ∃ more, l = s ++ more ∧ more <+: t := by
  rcases Nat.lt_or_ge l.length s.length with hlen | hlen
  · exact .inl ⟨List.prefix_of_prefix_length_le h (List.prefix_append s t) (by omega), hlen⟩
  · obtain ⟨more, rfl⟩ := List.prefix_of_prefix_length_le (List.prefix_append s t) h hlen
    exact .inr ⟨more, rfl, (List.prefix_append_right_inj s).mp h⟩

/-- The header of a frame that has this first byte. -/
def Frame.headerWith (f : Frame) (byte1 : UInt8) : Bytes :=
  byte1 :: f.byte2 :: (f.lengthField ++ bigEndianBytes 4 f.mask.toNat)

section Input

variable {σ : Type*} (server : Server σ) (f : Frame)

/-- The header of a frame within the limit, from its length field on. -/
theorem headerInput_lengthField (byte1 : UInt8) (hasLeftover : Bool) (s : Session σ)
    (hlimit : f.payload.length ≤ s.client.maxWebSocketPacketLength) (afterLength : Bytes) :
    headerInput server hasLeftover (byte1 :: f.byte2 :: (f.lengthField ++ afterLength)) s =
      let fin := decide (byte1 >>> 7 &&& 1 = 1)
      let s : Session σ := { s with client.lastFin := fin }
      if afterLength.length < 4 then
        s.wait hasLeftover (byte1 :: f.byte2 :: (f.lengthField ++ afterLength))
      else
        payloadInput server fin (byte1 &&& 0xf) f.payload.length
          (UInt32.ofNat (bigEndian (afterLength.take 4))) (afterLength.drop 4) s := by
  have hsize : ¬ (f.lengthField ++ afterLength).length < f.lengthField.length := by
    rw [List.length_append]
    omega
  have haccepted : ¬ (f.byte2 >>> 7 &&& 1 ≠ 1 ∨
      s.client.maxWebSocketPacketLength < f.payload.length) := by
    rintro (hmask | hlong)
    · exact hmask f.byte2_masked
    · omega
  unfold headerInput
  simp only [f.lengthFieldSize_byte2]
  rw [if_neg hsize, List.take_left, List.drop_left, f.payloadLength_byte2, if_neg haccepted]

/-- The header of a frame that is too long has the connection closed. -/
theorem headerInput_tooLong (byte1 : UInt8) (hasLeftover : Bool) (s : Session σ)
    (hlong : s.client.maxWebSocketPacketLength < f.payload.length) (afterLength : Bytes) :
    headerInput server hasLeftover (byte1 :: f.byte2 :: (f.lengthField ++ afterLength)) s =
      (Server.send400 ({ s with
        client.lastFin := decide (byte1 >>> 7 &&& 1 = 1) } : Session σ)).close := by
  have hsize : ¬ (f.lengthField ++ afterLength).length < f.lengthField.length := by
    rw [List.length_append]
    omega
  unfold headerInput
  simp only [f.lengthFieldSize_byte2]
  rw [if_neg hsize, List.take_left, List.drop_left, f.payloadLength_byte2, if_pos (.inr hlong)]

/-- Too little of a header is kept, and the client goes on waiting. -/
theorem headerInput_short (byte1 : UInt8) (hasLeftover : Bool) (s : Session σ)
    (hlimit : f.payload.length ≤ s.client.maxWebSocketPacketLength) {message : Bytes}
    (hbegins : message <+: f.headerWith byte1)
    (hshort : message.length < (f.headerWith byte1).length) :
    ∃ fin, headerInput server hasLeftover message s =
      ({ s with client.lastFin := fin } : Session σ).wait hasLeftover message := by
  match message, hbegins, hshort with
  | [], _, _ => exact ⟨s.client.lastFin, rfl⟩
  | [_], _, _ => exact ⟨s.client.lastFin, rfl⟩
  | first :: byte2 :: afterBytes, hbegins, hshort =>
    unfold Frame.headerWith at hbegins hshort
    rw [List.cons_prefix_cons, List.cons_prefix_cons] at hbegins
    obtain ⟨rfl, rfl, hafter⟩ := hbegins
    simp only [List.length_cons, List.length_append, length_bigEndianBytes] at hshort
    refine ⟨decide (first >>> 7 &&& 1 = 1), ?_⟩
    rcases prefix_append_cases hafter with ⟨-, hfield⟩ | ⟨maskBytes, rfl, -⟩
    · unfold headerInput
      simp only [f.lengthFieldSize_byte2]
      rw [if_pos hfield]
    · rw [List.length_append] at hshort
      have hfour : maskBytes.length < 4 := by omega
      rw [headerInput_lengthField server f first _ s hlimit]
      exact if_pos hfour

/-- A whole header leads to its payload. -/
theorem headerInput_header (byte1 : UInt8) (hasLeftover : Bool) (s : Session σ)
    (hlimit : f.payload.length ≤ s.client.maxWebSocketPacketLength) (data : Bytes) :
    headerInput server hasLeftover (f.headerWith byte1 ++ data) s =
      payloadInput server (decide (byte1 >>> 7 &&& 1 = 1)) (byte1 &&& 0xf) f.payload.length f.mask
        data { s with client.lastFin := decide (byte1 >>> 7 &&& 1 = 1) } := by
  have hfour : (bigEndianBytes 4 f.mask.toNat).length = 4 := length_bigEndianBytes ..
  have htake : (bigEndianBytes 4 f.mask.toNat ++ data).take 4 = bigEndianBytes 4 f.mask.toNat :=
    List.take_left' hfour
  have hdrop : (bigEndianBytes 4 f.mask.toNat ++ data).drop 4 = data := List.drop_left' hfour
  have hlong : ¬ (bigEndianBytes 4 f.mask.toNat ++ data).length < 4 := by
    rw [List.length_append]
    omega
  unfold Frame.headerWith
  rw [List.cons_append, List.cons_append, List.append_assoc,
    headerInput_lengthField server f byte1 _ s hlimit]
  dsimp only
  rw [if_neg hlong, htake, hdrop, f.mask_read]

end Input

/-! ## Payloads as input -/

section Payload

variable {σ : Type*} (server : Server σ)

/-- Nothing is passed on as long as a part of the payload is missing. -/
theorem afterPayload_missing (fin : Bool) {s : Session σ}
    (hmissing : s.client.remainingBytesInPacket ≠ 0) (hthrown : s.thrown = none) :
    afterPayload server fin [] s =
      { s with client.awaitingWebSocketHeader := false, client.leftoverMessage := [] } := by
  have hnil : ¬ 0 < ([] : Bytes).length := Nat.lt_irrefl 0
  unfold afterPayload
  rw [if_neg hnil, if_neg hmissing, Session.andThen_of_none]
  exact hthrown

variable (mask : UInt32) (payload : Bytes)

/-- The beginning of a payload goes into the packet unmasked. -/
theorem Client.startPayload_unmask (c : Client) (length : Nat) (bytes : Bytes) :
    c.startPayload mask length (unmask mask 0 bytes) =
      { c with
        webSocketMask := mask
        remainingBytesInPacket := length - bytes.length
        maskOffset := bytes.length % 4
        packet := c.packet ++ bytes } := by
  unfold Client.startPayload Client.absorb
  simp only [unmask_unmask, length_unmask, Nat.zero_add]

/-- A payload of which `n` bytes are there: they go into the packet. -/
theorem payloadInput_part (fin : Bool) {opcode : UInt8} (hopcode : opcode ≠ 9) {n : Nat}
    (hn : n < payload.length) {s : Session σ} (hthrown : s.thrown = none) :
    payloadInput server fin opcode payload.length mask (unmask mask 0 (payload.take n)) s =
      { s with client := { s.client with
          webSocketMask := mask
          remainingBytesInPacket := payload.length - n
          maskOffset := n % 4
          packet := s.client.packet ++ payload.take n
          awaitingWebSocketHeader := false
          leftoverMessage := [] } } := by
  have htaken : (payload.take n).length = n := by
    rw [List.length_take]
    omega
  have hlen : (unmask mask 0 (payload.take n)).length = n := (length_unmask ..).trans htaken
  have hmin : min payload.length n = n := by omega
  have htake : (unmask mask 0 (payload.take n)).take n = unmask mask 0 (payload.take n) :=
    List.take_of_length_le (by omega)
  have hdrop : (unmask mask 0 (payload.take n)).drop n = [] := List.drop_of_length_le (by omega)
  have hmissing : payload.length - n ≠ 0 := by omega
  unfold payloadInput
  dsimp only
  rw [hlen, hmin, htake, hdrop, if_neg hopcode, Client.startPayload_unmask, htaken]
  exact afterPayload_missing server fin hmissing hthrown

/-- A payload that is all there, and what comes after it. -/
theorem payloadInput_all (fin : Bool) {opcode : UInt8} (hopcode : opcode ≠ 9) (more : Bytes)
    (s : Session σ) :
    payloadInput server fin opcode payload.length mask (unmask mask 0 payload ++ more) s =
      afterPayload server fin more { s with client := { s.client with
        webSocketMask := mask
        remainingBytesInPacket := 0
        maskOffset := payload.length % 4
        packet := s.client.packet ++ payload } } := by
  have hlen : (unmask mask 0 payload).length = payload.length := length_unmask ..
  have hmin : min payload.length (payload.length + more.length) = payload.length := by omega
  have htake : (unmask mask 0 payload ++ more).take payload.length = unmask mask 0 payload :=
    List.take_left' hlen
  have hdrop : (unmask mask 0 payload ++ more).drop payload.length = more := List.drop_left' hlen
  unfold payloadInput
  dsimp only
  rw [List.length_append, hlen, hmin, htake, hdrop, if_neg hopcode, Client.startPayload_unmask,
    Nat.sub_self]

/-- A payload goes on, with `m` bytes after the first `n`. -/
theorem restInput_part {n m : Nat} (hm : n + m < payload.length) {s : Session σ}
    (hmask : s.client.webSocketMask = mask) (hoffset : s.client.maskOffset = n % 4)
    (hremaining : s.client.remainingBytesInPacket = payload.length - n) :
    restInput server (unmask mask (n % 4) ((payload.drop n).take m)) s =
      { s with client := { s.client with
          remainingBytesInPacket := payload.length - (n + m)
          maskOffset := (n + m) % 4
          packet := s.client.packet ++ (payload.drop n).take m } } := by
  have hlen : (unmask mask (n % 4) ((payload.drop n).take m)).length = m := by
    rw [length_unmask, List.length_take, List.length_drop]
    omega
  have hmin : min (payload.length - n) m = m := by omega
  have htake : (unmask mask (n % 4) ((payload.drop n).take m)).take m =
      unmask mask (n % 4) ((payload.drop n).take m) := List.take_of_length_le (by omega)
  have hmore : ¬ payload.length - n < m := by omega
  have hleft : payload.length - n - m = payload.length - (n + m) := Nat.sub_sub ..
  have hmissing : ¬ payload.length - (n + m) = 0 := by omega
  have hnext : (n % 4 + m) % 4 = (n + m) % 4 := by omega
  have hclient : s.client.continuePayload (unmask mask (n % 4) ((payload.drop n).take m)) =
      { s.client with
        remainingBytesInPacket := payload.length - (n + m)
        maskOffset := (n + m) % 4
        packet := s.client.packet ++ (payload.drop n).take m } := by
    unfold Client.continuePayload Client.absorb
    simp only [hremaining, hlen, hmin, htake, if_neg hmore, hmask, hoffset, unmask_unmask, hnext,
      hleft]
  unfold restInput
  dsimp only
  rw [hclient]
  dsimp only
  rw [if_neg hmissing]

/-- The rest of a payload, and what comes after it. -/
theorem restInput_all {n : Nat} (hn : n < payload.length) (more : Bytes) {s : Session σ}
    (hmask : s.client.webSocketMask = mask) (hoffset : s.client.maskOffset = n % 4)
    (hremaining : s.client.remainingBytesInPacket = payload.length - n)
    (hleftover : s.client.leftoverMessage = []) :
    restInput server (unmask mask (n % 4) (payload.drop n) ++ more) s =
      let s' : Session σ := { s with client := { s.client with
        remainingBytesInPacket := 0
        maskOffset := payload.length % 4
        packet := s.client.packet ++ payload.drop n
        leftoverMessage := more
        awaitingWebSocketHeader := true } }
      if s.client.lastFin then Session.finishPacket server true s' else s' := by
  have hlen : (unmask mask (n % 4) (payload.drop n)).length = payload.length - n := by
    rw [length_unmask, List.length_drop]
  have hmin : min (payload.length - n) (payload.length - n + more.length) = payload.length - n := by
    omega
  have htake : (unmask mask (n % 4) (payload.drop n) ++ more).take (payload.length - n) =
      unmask mask (n % 4) (payload.drop n) := List.take_left' hlen
  have hdrop : (unmask mask (n % 4) (payload.drop n) ++ more).drop (payload.length - n) = more :=
    List.drop_left' hlen
  have hend : (n % 4 + (payload.length - n)) % 4 = payload.length % 4 := by omega
  have hclient : s.client.continuePayload (unmask mask (n % 4) (payload.drop n) ++ more) =
      { s.client with
        remainingBytesInPacket := 0
        maskOffset := payload.length % 4
        packet := s.client.packet ++ payload.drop n
        leftoverMessage := more } := by
    unfold Client.continuePayload Client.absorb
    simp only [hremaining, List.length_append, hlen, hmin, htake, hdrop, hmask, hoffset,
      unmask_unmask, hend]
    split
    · rfl
    · rename_i hmore
      have hnil : more = [] := List.length_eq_zero_iff.mp (by omega)
      rw [hnil, hleftover, Nat.sub_self]
  unfold restInput
  dsimp only
  rw [hclient]
  dsimp only
  rw [if_pos rfl]

end Payload

/-! ## Frames of any kind -/

/-- A masked frame of any kind. -/
structure MaskedFrame where
  byte1 : UInt8
  form : LengthForm
  mask : UInt32
  payload : Bytes
  fits : payload.length < form.limit

namespace MaskedFrame

variable (f : MaskedFrame)

/-- FIN -/
def fin : Bool := f.byte1 >>> 7 &&& 1 = 1

def opcode : UInt8 := f.byte1 &&& 0xf

theorem textByte_fin : (0x81 : UInt8) >>> 7 &&& 1 = 1 := by decide

theorem textByte_opcode : (0x81 : UInt8) &&& 0xf = 1 ∨ (0x81 : UInt8) &&& 0xf = 2 := by decide

/-- The text frame with this mask and payload. But for the first byte the header is the same. -/
def asText : Frame where
  byte1 := 0x81
  form := f.form
  mask := f.mask
  payload := f.payload
  fin := textByte_fin
  opcode := textByte_opcode
  fits := f.fits

def header : Bytes := f.asText.headerWith f.byte1

/-- The frame as it is sent. -/
def encode : Bytes := f.header ++ masked f.mask f.payload

theorem encode_eq : f.encode = f.header ++ unmask f.mask 0 f.payload := by
  rw [encode, masked_eq_unmask]

theorem length_encode : f.encode.length = f.header.length + f.payload.length := by
  rw [encode_eq, List.length_append, length_unmask]

end MaskedFrame

end Algiz.HTTP
