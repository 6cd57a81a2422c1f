import OnionRelay.Lib.Reader
import OnionRelay.Websocket.Codec

/-!
# The bounds of a packet

`toWebsocketPacket` once more, as a program that reads the bytes of the payload one after the
other (`value_toWebsocketPacketAt`).  Each class of lengths compares its length with the
capacity before it writes, but the short payload without a mask does not:
`packetInside_iff`.
-/

namespace OnionRelay.Websocket

open OnionRelay.Lib Reader

/-! ## Writing and reading -/

/-- `websocket_memcpy` from the payload. -/
def copyPayloadAt (raw : Mem) (offset len : Nat) : Reader Mem := do
  let bytes ← bytesAt 0 len
  return writeAt raw offset bytes

def maskGroupsAt (entity : WebSocketEntity) (offset len : Nat) (raw : Mem) (i : Nat) : Reader (Nat × Mem) :=
  if i + 4 ≤ len then do
    let a ← byteAt (i + 0)
    let raw := writeAt raw (offset + i + 0) [a ^^^ entity.keyByte 0]
    let b ← byteAt (i + 1)
    let raw := writeAt raw (offset + i + 1) [b ^^^ entity.keyByte 1]
    let c ← byteAt (i + 2)
    let raw := writeAt raw (offset + i + 2) [c ^^^ entity.keyByte 2]
    let d ← byteAt (i + 3)
    let raw := writeAt raw (offset + i + 3) [d ^^^ entity.keyByte 3]
    maskGroupsAt entity offset len raw (i + 4)
  else return (i, raw)
termination_by len - i

def maskTailAt (entity : WebSocketEntity) (offset len : Nat) (raw : Mem) (i : Nat) : Reader Mem :=
  if i < len then do
    let b ← byteAt i
    maskTailAt entity offset len (writeAt raw (offset + i) [b ^^^ entity.keyByte i]) (i + 1)
  else return raw
termination_by len - i

def putPayloadAt (entity : WebSocketEntity) (capacity : Nat) (raw : Mem) (offset : Nat)
    (extPayloadLen : UInt64) : Reader (Nat × Mem) :=
  let len := extPayloadLen.toNat
  if capacity < offset + len then return (0, raw)
  else if entity.mask ≠ 0 then do
    let (i, raw) ← maskGroupsAt entity offset len raw 0
    let raw ← maskTailAt entity offset len raw i
    return (offset + len, raw)
  else do
    let raw ← copyPayloadAt raw offset len
    return (offset + len, raw)

def putKeyAt (entity : WebSocketEntity) (capacity : Nat) (raw : Mem) (offset : Nat)
    (extPayloadLen : UInt64) : Reader (Nat × Mem) :=
  if entity.mask ≠ 0 then
    if capacity < offset + 4 then return (0, raw)
    else putPayloadAt entity capacity (writeAt raw offset entity.maskingKey.toList) (offset + 4) extPayloadLen
  else putPayloadAt entity capacity raw offset extPayloadLen

/-- `to_websocket_packet` -/
def toWebsocketPacketAt (entity : WebSocketEntity) (capacity : Nat) (raw : Mem) : Reader (Nat × Mem) :=
  if capacity < 2 then return (0, raw)
  else
    let raw := writeAt raw 0 [entity.firstByte]
    let extPayloadLen := entity.extPayloadLen
    if extPayloadLen ≤ 125 ∧ entity.mask = 0 then do
      let raw := writeAt raw 1 [(extPayloadLen &&& 0x7F).toUInt8]
      let raw ← copyPayloadAt raw 2 extPayloadLen.toNat
      return (2 + extPayloadLen.toNat, raw)
    else if 125 < extPayloadLen ∧ extPayloadLen ≤ 0xFFFF then
      let raw := writeAt raw 1 [entity.maskBit ||| 126]
      if capacity < 2 + 2 then return (0, raw)
      else
        let raw := writeAt raw 2 [((extPayloadLen >>> 8) &&& 0xFF).toUInt8]
        let raw := writeAt raw 3 [(extPayloadLen &&& 0xFF).toUInt8]
        putKeyAt entity capacity raw 4 extPayloadLen
    else if 0xFFFF < extPayloadLen then
      let raw := writeAt raw 1 [entity.maskBit ||| 127]
      if capacity < 2 + 8 then return (0, raw)
      else
        let (extPayloadLen, raw) := putLength raw 2 extPayloadLen 8
        putKeyAt entity capacity raw 10 extPayloadLen
    else putKeyAt entity capacity (writeAt raw 1 [entity.maskBit ||| extPayloadLen.toUInt8]) 2 extPayloadLen

section Value

variable (entity : WebSocketEntity)

@[simp] theorem value_copyPayloadAt (m raw : Mem) (offset len : Nat) :
    value (copyPayloadAt raw offset len) m = writeAt raw offset (readAt m 0 len) := by
  rw [copyPayloadAt, value_bind, value_bytesAt, value_pure]

theorem value_maskGroupsAt (offset len : Nat) (raw : Mem) (i : Nat) :
    value (maskGroupsAt entity offset len raw i) entity.payload = maskGroups entity offset len raw i := by
  induction raw, i using maskGroups.induct entity offset len with
  | case1 raw i hi a b c d ih =>
    rw [maskGroupsAt, maskGroups, if_pos hi, if_pos hi]
    simp only [value_bind, value_byteAt]
    exact ih
  | case2 raw i hi =>
    rw [maskGroupsAt, maskGroups, if_neg hi, if_neg hi, value_pure]

theorem value_maskTailAt (offset len : Nat) (raw : Mem) (i : Nat) :
    value (maskTailAt entity offset len raw i) entity.payload = maskTail entity offset len raw i := by
  induction raw, i using maskTail.induct entity offset len with
  | case1 raw i hi ih =>
    rw [maskTailAt, maskTail, if_pos hi, if_pos hi, value_bind, value_byteAt]
    exact ih
  | case2 raw i hi =>
    rw [maskTailAt, maskTail, if_neg hi, if_neg hi, value_pure]

theorem value_putPayloadAt (capacity : Nat) (raw : Mem) (offset : Nat) (len : UInt64) :
    value (putPayloadAt entity capacity raw offset len) entity.payload =
      putPayload entity capacity raw offset len := by
  rw [putPayloadAt, putPayload]
  simp only [value_ite, value_bind, value_pure, value_copyPayloadAt, value_maskGroupsAt, value_maskTailAt]

theorem value_putKeyAt (capacity : Nat) (raw : Mem) (offset : Nat) (len : UInt64) :
    value (putKeyAt entity capacity raw offset len) entity.payload = putKey entity capacity raw offset len := by
  rw [putKeyAt, putKey]
  simp only [value_ite, value_pure, value_putPayloadAt]

/-- **The reader is the encoder** of the frames. -/
theorem value_toWebsocketPacketAt (capacity : Nat) (raw : Mem) :
    value (toWebsocketPacketAt entity capacity raw) entity.payload = toWebsocketPacket entity capacity raw := by
  rw [toWebsocketPacketAt, toWebsocketPacket]
  simp only [value_ite, value_bind, value_pure, value_copyPayloadAt, value_putKeyAt]

end Value

/-! ## What is read of the payload -/

section Footprint

variable (entity : WebSocketEntity) {m : Mem}

theorem within_copyPayloadAt (raw : Mem) (offset len : Nat) : (copyPayloadAt raw offset len).Within m (· < len) :=
  within_bind (within_bytesAt fun a _ hhigh => by omega) (within_pure _)

theorem within_maskGroupsAt (offset len : Nat) (raw : Mem) (i : Nat) :
    (maskGroupsAt entity offset len raw i).Within m (· < len) := by
  induction raw, i using maskGroupsAt.induct entity offset len with
  | case1 raw i hi ih =>
    rw [maskGroupsAt, if_pos hi]
    refine within_bind (within_byteAt (by omega)) (within_bind (within_byteAt (by omega)) ?_)
    refine within_bind (within_byteAt (by omega)) (within_bind (within_byteAt (by omega)) ?_)
    exact ih _ _ _ _
  | case2 raw i hi =>
    rw [maskGroupsAt, if_neg hi]
    exact within_pure _

theorem within_maskTailAt (offset len : Nat) (raw : Mem) (i : Nat) :
    (maskTailAt entity offset len raw i).Within m (· < len) := by
  induction raw, i using maskTailAt.induct entity offset len with
  | case1 raw i hi ih =>
    rw [maskTailAt, if_pos hi]
    exact within_bind (within_byteAt hi) (ih _)
  | case2 raw i hi =>
    rw [maskTailAt, if_neg hi]
    exact within_pure _

theorem within_putPayloadAt (capacity : Nat) (raw : Mem) (offset : Nat) (len : UInt64) :
    (putPayloadAt entity capacity raw offset len).Within m (· < len.toNat) := by
  rw [putPayloadAt]
  refine within_ite (fun _ => within_pure _) fun _ => within_ite (fun _ => ?_) fun _ => ?_
  · exact within_bind (within_maskGroupsAt entity offset _ raw 0)
      (within_bind (within_maskTailAt entity offset _ _ _) (within_pure _))
  · exact within_bind (within_copyPayloadAt raw offset _) (within_pure _)

theorem within_putKeyAt (capacity : Nat) (raw : Mem) (offset : Nat) (len : UInt64) :
    (putKeyAt entity capacity raw offset len).Within m (· < len.toNat) := by
  rw [putKeyAt]
  refine within_ite (fun _ => within_ite (fun _ => within_pure _) fun _ => ?_) fun _ => ?_
  · exact within_putPayloadAt entity capacity _ _ len
  · exact within_putPayloadAt entity capacity raw offset len

/-- **Nothing but the payload** is read. -/
theorem within_toWebsocketPacketAt (capacity : Nat) (raw : Mem) :
    (toWebsocketPacketAt entity capacity raw).Within m (· < entity.extPayloadLen.toNat) := by
  rw [toWebsocketPacketAt]
  refine within_ite (fun _ => within_pure _) fun _ => within_ite (fun _ => ?_) fun _ =>
    within_ite (fun _ => within_ite (fun _ => within_pure _) fun _ => ?_) fun _ =>
      within_ite (fun _ => within_ite (fun _ => within_pure _) fun _ => ?_) fun _ => ?_
  · exact within_bind (within_copyPayloadAt _ 2 _) (within_pure _)
  · exact within_putKeyAt entity capacity _ 4 _
  · -- what the loop leaves of the length is 0
    have hleft := toNat_putLength (writeAt (writeAt raw 0 [entity.firstByte]) 1 [entity.maskBit ||| 127]) 2
      entity.extPayloadLen 8
    rw [Nat.div_eq_of_lt (show entity.extPayloadLen.toNat < 256 ^ 8 from entity.extPayloadLen.toNat_lt)] at hleft
    dsimp only
    generalize putLength (writeAt (writeAt raw 0 [entity.firstByte]) 1 [entity.maskBit ||| 127]) 2
      entity.extPayloadLen 8 = left at hleft ⊢
    intro a ha
    have hlt : a < left.1.toNat := within_putKeyAt entity capacity left.2 10 left.1 a ha
    omega
  · exact within_putKeyAt entity capacity _ 2 _

end Footprint

/-! ## What is written -/

/-- The length returned is at most the capacity, and nothing is written from there on. -/
def Inside (capacity : Nat) (raw : Mem) (r : Nat × Mem) : Prop :=
  r.1 ≤ capacity ∧ ∀ a, capacity ≤ a → r.2 a = raw a

section Inside

variable {entity : WebSocketEntity} {capacity : Nat} {raw raw' : Mem}

theorem inside_zero (h : ∀ a, capacity ≤ a → raw' a = raw a) : Inside capacity raw (0, raw') := ⟨Nat.zero_le _, h⟩

/-- A write inside changes nothing behind. -/
theorem writeAt_behind (h : ∀ a, capacity ≤ a → raw' a = raw a) {offset : Nat} {bytes : List UInt8}
    (hle : offset + bytes.length ≤ capacity) : ∀ a, capacity ≤ a → writeAt raw' offset bytes a = raw a := by
  intro a ha
  rw [writeAt_of_ge (Nat.le_trans hle ha), h a ha]

theorem inside_putPayload (h : ∀ a, capacity ≤ a → raw' a = raw a) (offset : Nat) (len : UInt64) :
    Inside capacity raw (putPayload entity capacity raw' offset len) := by
  by_cases hfits : offset + len.toNat ≤ capacity
  · rw [putPayload_eq entity raw' hfits]
    exact ⟨hfits, writeAt_behind h (by rwa [length_readAt])⟩
  · rw [putPayload, if_pos (Nat.not_le.mp hfits)]
    exact inside_zero h

theorem inside_putKey (h : ∀ a, capacity ≤ a → raw' a = raw a) (offset : Nat) (len : UInt64) :
    Inside capacity raw (putKey entity capacity raw' offset len) := by
  rw [putKey]
  split
  · split
    · exact inside_zero h
    · exact inside_putPayload (writeAt_behind h (by rw [Vector.length_toList]; omega)) _ len
  · exact inside_putPayload h offset len

theorem putLength_behind {offset : Nat} : ∀ (n : Nat) (raw' : Mem)
    (len : UInt64), (∀ a, capacity ≤ a → raw' a = raw a) → offset + n ≤ capacity →
      ∀ a, capacity ≤ a → (putLength raw' offset len n).2 a = raw a := by
  intro n
  induction n with
  | zero => exact fun _ _ h _ => h
  | succ n ih =>
    intro raw' len h hle
    exact ih _ _ (writeAt_behind h (by rw [List.length_singleton]; omega)) (by omega)

/-- **All classes of lengths but one** stay inside the buffer. -/
theorem inside_toWebsocketPacket (hcap : 2 ≤ capacity)
    (hshort : entity.mask = 0 → entity.extPayloadLen ≤ 125 → 2 + entity.extPayloadLen.toNat ≤ capacity) (raw : Mem) :
    Inside capacity raw (toWebsocketPacket entity capacity raw) := by
  have hhead : ∀ b : UInt8, ∀ a, capacity ≤ a → writeAt (writeAt raw 0 [entity.firstByte]) 1 [b] a = raw a :=
    fun b => writeAt_behind (writeAt_behind (fun _ _ => rfl) (by rw [List.length_singleton]; omega))
      (by rw [List.length_singleton]; omega)
  rw [toWebsocketPacket, if_neg (by omega)]
  dsimp only
  by_cases hfast : entity.extPayloadLen ≤ 125 ∧ entity.mask = 0
  · rw [if_pos hfast]
    have hle := hshort hfast.2 hfast.1
    exact ⟨hle, writeAt_behind (hhead _) (by rwa [length_readAt])⟩
  rw [if_neg hfast]
  by_cases htwo : 125 < entity.extPayloadLen ∧ entity.extPayloadLen ≤ 0xFFFF
  · rw [if_pos htwo]
    by_cases hcut : capacity < 2 + 2
    · rw [if_pos hcut]
      exact inside_zero (hhead _)
    · rw [if_neg hcut]
      refine inside_putKey (writeAt_behind (writeAt_behind (hhead _) ?_) ?_) 4 _
      · rw [List.length_singleton]
        omega
      · rw [List.length_singleton]
        omega
  rw [if_neg htwo]
  by_cases height : 0xFFFF < entity.extPayloadLen
  · rw [if_pos height]
    by_cases hcut : capacity < 2 + 8
    · rw [if_pos hcut]
      exact inside_zero (hhead _)
    · rw [if_neg hcut]
      exact inside_putKey (putLength_behind 8 _ _ (hhead _) (by omega)) 10 _
  · rw [if_neg height]
    exact inside_putKey (hhead _) 2 _

end Inside

/-! ## The theorem -/

/-- The encoder stays inside the buffer of the packet, and reads nothing but the payload. -/
def PacketInside (entity : WebSocketEntity) (capacity : Nat) (raw : Mem) : Prop :=
  Inside capacity raw (value (toWebsocketPacketAt entity capacity raw) entity.payload) ∧
    (toWebsocketPacketAt entity capacity raw).Within entity.payload (· < entity.extPayloadLen.toNat)

/-- **The encoder stays inside** unless a payload of at most 125 bytes without a mask does not
fit: its length is not compared with the capacity. -/
theorem packetInside_iff (entity : WebSocketEntity) {capacity : Nat} (hcap : 2 ≤ capacity) (raw : Mem) :
    PacketInside entity capacity raw ↔
      (entity.mask = 0 → entity.extPayloadLen ≤ 125 → 2 + entity.extPayloadLen.toNat ≤ capacity) := by
  rw [PacketInside, value_toWebsocketPacketAt]
  constructor
  · rintro ⟨⟨hlength, -⟩, -⟩ hmask h125
    rw [toWebsocketPacket, if_neg (by omega), if_pos ⟨h125, hmask⟩] at hlength
    exact hlength
  · exact fun hshort => ⟨inside_toWebsocketPacket hcap hshort raw, within_toWebsocketPacketAt entity capacity raw⟩

/-- A pong without a mask. -/
def pongOf (len : UInt64) : WebSocketEntity where
  fin := 1
  rsv1 := 0
  rsv2 := 0
  rsv3 := 0
  opcode := WEBSOCKET_OP_CODE_PONG
  mask := 0
  payloadLen := 0
  extPayloadLen := len
  maskingKey := Vector.replicate 4 0
  payload := fun _ => 0

theorem packetInside_iff_pong : PacketInside (pongOf 4) 6 fun _ => 0 :=
  (packetInside_iff (pongOf 4) (by decide) fun _ => 0).mpr fun _ _ => by decide

/-- Four bytes of payload in a packet of five. -/
theorem pong_outside : ¬ PacketInside (pongOf 4) 5 fun _ => 0 := by
  rintro ⟨⟨hlength, -⟩, -⟩
  rw [value_toWebsocketPacketAt] at hlength
  exact absurd hlength (by decide)

end OnionRelay.Websocket
