import Mathlib.Algebra.Order.Ring.Nat
import Mathlib.Tactic.Common
import OnionRelay.Lib.LittleEndian
import OnionRelay.Lib.Memory

/-!
# WebSocket frames

`toWebsocketPacket` writes a frame into a buffer and `toWebsocketEntityConsumed`
reads one from it.  `frameBytes` is the layout of a frame, with its three length
encodings, and `frameLength` its length.
-/

namespace OnionRelay.Websocket

open OnionRelay.Lib

/-- The result of parsing a packet. -/
structure WebSocketEntity where
  fin : UInt8
  rsv1 : UInt8
  rsv2 : UInt8
  rsv3 : UInt8
  opcode : UInt32
  mask : UInt8
  payloadLen : UInt8
  extPayloadLen : UInt64
  maskingKey : Vector UInt8 4
  payload : Mem

def WEBSOCKET_OP_CODE_TEXT : UInt32 := 0x1
def WEBSOCKET_OP_CODE_BINARY : UInt32 := 0x2
def WEBSOCKET_OP_CODE_CLOSE : UInt32 := 0x8
def WEBSOCKET_OP_CODE_PING : UInt32 := 0x9
def WEBSOCKET_OP_CODE_PONG : UInt32 := 0xA

namespace WebSocketEntity

variable (entity : WebSocketEntity)

/-- The byte of the masking key that covers byte `i` of the payload. -/
def keyByte (i : Nat) : UInt8 := entity.maskingKey.get (Fin.ofNat 4 i)

/-- The flags and the opcode. -/
def firstByte : UInt8 :=
  ((entity.fin &&& 0x01) <<< 7) ||| ((entity.rsv1 &&& 0x01) <<< 6) |||
    ((entity.rsv2 &&& 0x01) <<< 5) ||| ((entity.rsv3 &&& 0x01) <<< 4) |||
    (entity.opcode &&& 0x0F).toUInt8

def maskBit : UInt8 := if entity.mask ≠ 0 then 0x80 else 0x00

end WebSocketEntity

/-! ## Writing a packet -/

/-- The loop over whole groups of four bytes of the payload. -/
def maskGroups (entity : WebSocketEntity) (offset len : Nat) (raw : Mem) (i : Nat) : Nat × Mem :=
  if i + 4 ≤ len then
    let raw := writeAt raw (offset + i + 0) [entity.payload (i + 0) ^^^ entity.maskingKey[0]]
    let raw := writeAt raw (offset + i + 1) [entity.payload (i + 1) ^^^ entity.maskingKey[1]]
    let raw := writeAt raw (offset + i + 2) [entity.payload (i + 2) ^^^ entity.maskingKey[2]]
    let raw := writeAt raw (offset + i + 3) [entity.payload (i + 3) ^^^ entity.maskingKey[3]]
    maskGroups entity offset len raw (i + 4)
  else (i, raw)
termination_by len - i

/-- The loop over the bytes that are left. -/
def maskTail (entity : WebSocketEntity) (offset len : Nat) (raw : Mem) (i : Nat) : Mem :=
  if i < len then
    maskTail entity offset len
      (writeAt raw (offset + i) [entity.payload i ^^^ entity.keyByte i]) (i + 1)
  else raw
termination_by len - i

/-- The payload, from `offset` on. -/
def putPayload (entity : WebSocketEntity) (capacity : Nat) (raw : Mem) (offset : Nat)
    (extPayloadLen : UInt64) : Nat × Mem :=
  let len := extPayloadLen.toNat
  if capacity < offset + len then (0, raw)
  else if entity.mask ≠ 0 then
    let (i, raw) := maskGroups entity offset len raw 0
    (offset + len, maskTail entity offset len raw i)
  else (offset + len, writeAt raw offset (readAt entity.payload 0 len))

/-- The masking key, if the mask is set, and the payload. -/
def putKey (entity : WebSocketEntity) (capacity : Nat) (raw : Mem) (offset : Nat)
    (extPayloadLen : UInt64) : Nat × Mem :=
  if entity.mask ≠ 0 then
    if capacity < offset + 4 then (0, raw)
    else
      putPayload entity capacity (writeAt raw offset entity.maskingKey.toList) (offset + 4)
        extPayloadLen
  else putPayload entity capacity raw offset extPayloadLen

/-- The loop that writes a length in eight bytes, the last one first.  It leaves
what the shifts leave of the length. -/
def putLength (raw : Mem) (offset : Nat) (len : UInt64) : Nat → UInt64 × Mem
  | 0 => (len, raw)
  | i + 1 => putLength (writeAt raw (offset + i) [(len &&& 0xFF).toUInt8]) offset (len >>> 8) i

def toWebsocketPacket (entity : WebSocketEntity) (capacity : Nat) (raw : Mem) : Nat × Mem :=
  if capacity < 2 then (0, raw)
  else
    let raw := writeAt raw 0 [entity.firstByte]
    let extPayloadLen := entity.extPayloadLen
    if extPayloadLen ≤ 125 ∧ entity.mask = 0 then
      let raw := writeAt raw 1 [(extPayloadLen &&& 0x7F).toUInt8]
      (2 + extPayloadLen.toNat, writeAt raw 2 (readAt entity.payload 0 extPayloadLen.toNat))
    else if 125 < extPayloadLen ∧ extPayloadLen ≤ 0xFFFF then
      let raw := writeAt raw 1 [entity.maskBit ||| 126]
      if capacity < 2 + 2 then (0, raw)
      else
        let raw := writeAt raw 2 [((extPayloadLen >>> 8) &&& 0xFF).toUInt8]
        let raw := writeAt raw 3 [(extPayloadLen &&& 0xFF).toUInt8]
        putKey entity capacity raw 4 extPayloadLen
    else if 0xFFFF < extPayloadLen then
      let raw := writeAt raw 1 [entity.maskBit ||| 127]
      if capacity < 2 + 8 then (0, raw)
      else
        -- the loop's variable is the payload's length itself
        let (extPayloadLen, raw) := putLength raw 2 extPayloadLen 8
        putKey entity capacity raw 10 extPayloadLen
    else
      putKey entity capacity (writeAt raw 1 [entity.maskBit ||| extPayloadLen.toUInt8]) 2
        extPayloadLen

/-! ## Reading an entity -/

/-- The loop that unmasks the payload at `offset`. -/
def unmask (entity : WebSocketEntity) (raw : Mem) (offset : Nat) : Nat → Mem
  | 0 => entity.payload
  | i + 1 => writeAt (unmask entity raw offset i) i
      [raw (offset + i) ^^^ (if entity.mask ≠ 0 then entity.keyByte i else 0)]

def takePayload (raw : Mem) (capacity : Nat) (entity : WebSocketEntity) (offset : Nat) :
    Nat × WebSocketEntity :=
  let len := entity.extPayloadLen.toNat
  if capacity - offset < len then (0, entity)
  else (offset + len, { entity with payload := writeAt (unmask entity raw offset len) len [0] })

def takeKey (raw : Mem) (capacity : Nat) (entity : WebSocketEntity) (offset : Nat) :
    Nat × WebSocketEntity :=
  if entity.mask ≠ 0 then
    if capacity < offset + 4 then (0, entity)
    else
      takePayload raw capacity
        { entity with maskingKey := Vector.ofFn fun i => raw (offset + i.val) } (offset + 4)
  else takePayload raw capacity entity offset

/-- The loop that reads a length in eight bytes, the first one first. -/
def takeLength (raw : Mem) (offset : Nat) : Nat → UInt64
  | 0 => 0
  | i + 1 => (takeLength raw offset i <<< 8) ||| (raw (offset + i)).toUInt64

/-- The flags, the opcode, the mask and the seven bits of the length. -/
def takeHeader (raw : Mem) (entity : WebSocketEntity) : WebSocketEntity :=
  { entity with
    fin := (raw 0 &&& 0x80) >>> 7
    rsv1 := (raw 0 &&& 0x40) >>> 6
    rsv2 := (raw 0 &&& 0x20) >>> 5
    rsv3 := (raw 0 &&& 0x10) >>> 4
    opcode := (raw 0 &&& 0x0F).toUInt32
    mask := (raw 1 &&& 0x80) >>> 7
    payloadLen := raw 1 &&& 0x7F }

def toWebsocketEntityConsumed (raw : Mem) (capacity : Nat) (entity : WebSocketEntity) :
    Nat × WebSocketEntity :=
  if capacity < 2 then (0, entity)
  else
    let entity := takeHeader raw entity
    if entity.payloadLen = 126 then
      if capacity < 4 then (0, entity)
      else
        let entity := { entity with
          extPayloadLen := ((raw 2).toUInt64 <<< 8) ||| (raw 3).toUInt64 }
        if capacity < entity.extPayloadLen.toNat then (0, entity)
        else takeKey raw capacity entity 4
    else if entity.payloadLen = 127 then
      if capacity < 10 then (0, entity)
      else takeKey raw capacity { entity with extPayloadLen := takeLength raw 2 8 } 10
    else takeKey raw capacity { entity with extPayloadLen := entity.payloadLen.toUInt64 } 2

/-! ## The layout of a frame -/

namespace WebSocketEntity

variable (entity : WebSocketEntity)

/-- The payload as it is sent: under the masking key, if the mask is set. -/
def wire : Mem := fun i =>
  entity.payload i ^^^ (if entity.mask ≠ 0 then entity.keyByte i else 0)

/-- The mask bit and the three encodings of the length. -/
def lengthBytes : List UInt8 :=
  if entity.extPayloadLen ≤ 125 then [entity.maskBit ||| entity.extPayloadLen.toUInt8]
  else if entity.extPayloadLen ≤ 0xFFFF then
    (entity.maskBit ||| 126) :: (toLE 2 entity.extPayloadLen.toNat).reverse
  else (entity.maskBit ||| 127) :: (toLE 8 entity.extPayloadLen.toNat).reverse

def keyBytes : List UInt8 := if entity.mask ≠ 0 then entity.maskingKey.toList else []

/-- The frame, byte by byte. -/
def frameBytes : List UInt8 :=
  [entity.firstByte] ++ entity.lengthBytes ++ entity.keyBytes ++
    readAt entity.wire 0 entity.extPayloadLen.toNat

/-- The length of the frame. -/
def frameLength : Nat :=
  2 + (if entity.extPayloadLen ≤ 125 then 0 else if entity.extPayloadLen ≤ 0xFFFF then 2 else 8) +
    (if entity.mask ≠ 0 then 4 else 0) + entity.extPayloadLen.toNat

theorem length_frameBytes : entity.frameBytes.length = entity.frameLength := by
  rw [frameBytes, frameLength, lengthBytes, keyBytes]
  split_ifs <;> simp [Vector.length_toList] <;> omega

end WebSocketEntity

/-! ## Bits and bytes -/

/-- The flags and the opcode are read from the byte they were put in. -/
theorem firstByte_fields (entity : WebSocketEntity) :
    (entity.firstByte &&& 0x80) >>> 7 = entity.fin &&& 1 ∧
      (entity.firstByte &&& 0x40) >>> 6 = entity.rsv1 &&& 1 ∧
      (entity.firstByte &&& 0x20) >>> 5 = entity.rsv2 &&& 1 ∧
      (entity.firstByte &&& 0x10) >>> 4 = entity.rsv3 &&& 1 ∧
      entity.firstByte &&& 0x0F = (entity.opcode &&& 0x0F).toUInt8 := by
  have hbit : ∀ i < 8, i = 0 ∨ i = 1 ∨ i = 2 ∨ i = 3 ∨ i = 4 ∨ i = 5 ∨ i = 6 ∨ i = 7 := by omega
  refine ⟨?_, ?_, ?_, ?_, ?_⟩ <;> apply UInt8.toBitVec_inj.1 <;> ext i hi <;>
    rcases hbit i hi with rfl | rfl | rfl | rfl | rfl | rfl | rfl | rfl <;>
    simp [WebSocketEntity.firstByte]

theorem toUInt32_nibble (x : UInt32) : (x &&& 0x0F).toUInt8.toUInt32 = x &&& 0x0F := by
  have hnibble : (x &&& 0x0F).toNat = x.toNat % 16 := by
    rw [UInt32.toNat_and]
    exact Nat.and_two_pow_sub_one_eq_mod x.toNat 4
  apply UInt32.toNat.inj
  rw [UInt8.toNat_toUInt32, UInt32.toNat_toUInt8, hnibble]
  omega

theorem and_127 (b : UInt8) (hb : b.toNat < 128) : b &&& 0x7F = b := by
  apply UInt8.toNat.inj
  rw [UInt8.toNat_and]
  exact (Nat.and_two_pow_sub_one_eq_mod b.toNat 7).trans (Nat.mod_eq_of_lt hb)

theorem and_128 (b : UInt8) (hb : b.toNat < 128) : b &&& 0x80 = 0 := by
  rw [← and_127 b hb, UInt8.and_assoc, show (0x7F : UInt8) &&& 0x80 = 0 from rfl, UInt8.and_zero]

theorem or_and_right (a b c : UInt8) : (a ||| b) &&& c = (a &&& c) ||| (b &&& c) := by
  apply UInt8.toBitVec_inj.1
  ext i hi
  simp [Bool.and_or_distrib_right]

theorem maskBit_or (entity : WebSocketEntity) {b : UInt8} (hb : b.toNat < 128) :
    ((entity.maskBit ||| b) &&& 0x80) >>> 7 = (if entity.mask ≠ 0 then 1 else 0) ∧
      (entity.maskBit ||| b) &&& 0x7F = b := by
  rw [or_and_right, or_and_right, and_127 b hb, and_128 b hb, WebSocketEntity.maskBit]
  split
  · refine ⟨rfl, ?_⟩
    rw [show (0x80 : UInt8) &&& 0x7F = 0 from rfl, UInt8.zero_or]
  · refine ⟨rfl, ?_⟩
    rw [UInt8.zero_and, UInt8.zero_or]

theorem toNat_shift_or (x : UInt64) (b : UInt8) (h : x.toNat * 256 < 2 ^ 64) :
    ((x <<< 8) ||| b.toUInt64).toNat = b.toNat + 256 * x.toNat := by
  have hb := b.toNat_lt
  rw [UInt64.toNat_or, UInt64.toNat_shiftLeft, UInt8.toNat_toUInt64]
  show (x.toNat <<< 8) % 2 ^ 64 ||| b.toNat = _
  have hshift : x.toNat <<< 8 = x.toNat * 256 := Nat.shiftLeft_eq _ _
  have hor := Nat.shiftLeft_add_eq_or_of_lt hb x.toNat
  rw [Nat.mod_eq_of_lt (hshift ▸ h), ← hor, hshift]
  omega

theorem toNat_takeLength (raw : Mem) (offset : Nat) {n : Nat} (hn : n ≤ 8) :
    (takeLength raw offset n).toNat = ofLE (readAt raw offset n).reverse := by
  induction n with
  | zero => rfl
  | succ n ih =>
    have hlt := ofLE_lt (readAt raw offset n).reverse
    have hpow : (256 : Nat) ^ n ≤ 256 ^ 7 := Nat.pow_le_pow_right (by omega) (by omega)
    rw [List.length_reverse, length_readAt, ← ih (by omega)] at hlt
    rw [takeLength, toNat_shift_or _ _ (by omega), ih (by omega), readAt_add, List.reverse_append]
    simp [readAt, ofLE]

end OnionRelay.Websocket
