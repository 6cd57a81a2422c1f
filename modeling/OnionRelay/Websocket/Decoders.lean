import Mathlib.Tactic.Ring
import OnionRelay.Lib.Reader
import OnionRelay.Websocket.Receive

/-!
# The two decoders

`to_websocket_entity` and `to_websocket_entity_consumed` are two copies of one parser.  Here
both read the bytes of the packet one after the other, with the source's arithmetic on
64-bit sizes.

* `value_toWebsocketEntityConsumedAt`: the copy that returns the length is the one of
  `Frame.lean`.
* `decoders_agree_iff`: the other one agrees with it but where the length takes two bytes and
  the packet ends at or in front of them.
-/

namespace OnionRelay.Websocket

open OnionRelay.Lib Reader

/-! ## The functions -/

/-- The first two bytes. -/
def headerAt (entity : WebSocketEntity) : Reader WebSocketEntity := do
  let b ← byteAt 0
  let c ← byteAt 1
  return takeHeader (fun i => if i = 0 then b else c) entity

/-- A length of two bytes. -/
def twoBytesAt (offset : Nat) : Reader UInt64 := do
  let b ← byteAt offset
  let c ← byteAt (offset + 1)
  return (b.toUInt64 <<< 8) ||| c.toUInt64

/-- The loop that shifts `n` bytes into a length. -/
def shiftIn (len : UInt64) (offset : Nat) : Nat → Reader UInt64
  | 0 => return len
  | n + 1 => do
    let b ← byteAt offset
    shiftIn ((len <<< 8) ||| b.toUInt64) (offset + 1) n

/-- The loop that unmasks the payload at `offset`. -/
def unmaskAt (entity : WebSocketEntity) (offset : Nat) : Nat → Reader Mem
  | 0 => return entity.payload
  | i + 1 => do
    let payload ← unmaskAt entity offset i
    let b ← byteAt (offset + i)
    return writeAt payload i [b ^^^ (if entity.mask ≠ 0 then entity.keyByte i else 0)]

/-- The payload behind `packet_offset`; the length of the packet, `none` for a failure. -/
def payloadAt (capacity : UInt64) (entity : WebSocketEntity) (packetOffset : UInt64) :
    Reader (Option UInt64 × WebSocketEntity) :=
  if entity.extPayloadLen ≤ capacity - packetOffset then do
    let payload ← unmaskAt entity packetOffset.toNat entity.extPayloadLen.toNat
    return (some (packetOffset + entity.extPayloadLen),
      { entity with payload := writeAt payload entity.extPayloadLen.toNat [0] })
  else return (none, entity)

/-- The masking key and the payload. -/
def keyAt (capacity : UInt64) (entity : WebSocketEntity) (packetOffset : UInt64) :
    Reader (Option UInt64 × WebSocketEntity) :=
  if entity.mask ≠ 0 then
    if capacity < packetOffset + 4 then return (none, entity)
    else do
      let key ← bytesAt packetOffset.toNat 4
      payloadAt capacity { entity with maskingKey := Vector.ofFn fun i => key.getD i.val 0 } (packetOffset + 4)
  else payloadAt capacity entity packetOffset

/-- The body of `to_websocket_entity_consumed`. -/
def entityConsumedAt (capacity : UInt64) (entity : WebSocketEntity) : Reader (Option UInt64 × WebSocketEntity) :=
  if capacity < 2 then return (none, entity)
  else do
    let entity ← headerAt entity
    if entity.payloadLen = 126 then
      if capacity < 4 then return (none, entity)
      else do
        let len ← twoBytesAt 2
        if capacity < len then return (none, { entity with extPayloadLen := len })
        else keyAt capacity { entity with extPayloadLen := len } 4
    else if entity.payloadLen = 127 then
      if capacity < 10 then return (none, entity)
      else do
        let len ← shiftIn 0 2 8
        keyAt capacity { entity with extPayloadLen := len } 10
    else keyAt capacity { entity with extPayloadLen := entity.payloadLen.toUInt64 } 2

/-- The body of `to_websocket_entity`: `capacity - 4` wraps around below 4, and the length of
eight bytes is shifted into what the entity held. -/
def entityAt (capacity : UInt64) (entity : WebSocketEntity) : Reader (Option UInt64 × WebSocketEntity) :=
  if capacity < 2 then return (none, entity)
  else do
    let entity ← headerAt entity
    if entity.payloadLen = 126 then
      if capacity - 4 = 0 then return (none, entity)
      else do
        let len ← twoBytesAt 2
        if capacity < len then return (none, { entity with extPayloadLen := len })
        else keyAt capacity { entity with extPayloadLen := len } 4
    else if entity.payloadLen = 127 then
      if capacity < 10 then return (none, entity)
      else do
        let len ← shiftIn entity.extPayloadLen 2 8
        keyAt capacity { entity with extPayloadLen := len } 10
    else keyAt capacity { entity with extPayloadLen := entity.payloadLen.toUInt64 } 2

/-- `to_websocket_entity_consumed` -/
def toWebsocketEntityConsumedAt (capacity : UInt64) (entity : WebSocketEntity) :
    Reader (UInt64 × WebSocketEntity) := do
  let r ← entityConsumedAt capacity entity
  return (r.1.getD 0, r.2)

/-- `to_websocket_entity` -/
def toWebsocketEntity (capacity : UInt64) (entity : WebSocketEntity) : Reader (Bool × WebSocketEntity) := do
  let r ← entityAt capacity entity
  return (r.1.isSome, r.2)

/-! ## What the steps come to -/

section Steps

variable {raw : Mem}

@[simp] theorem value_headerAt (entity : WebSocketEntity) : value (headerAt entity) raw = takeHeader raw entity := (rfl)

@[simp] theorem value_twoBytesAt (offset : Nat) :
    value (twoBytesAt offset) raw = ((raw offset).toUInt64 <<< 8) ||| (raw (offset + 1)).toUInt64 := (rfl)

theorem value_unmaskAt (entity : WebSocketEntity) (offset n : Nat) :
    value (unmaskAt entity offset n) raw = unmask entity raw offset n := by
  induction n with
  | zero => rfl
  | succ n ih => rw [unmaskAt, value_bind, ih, unmask]; rfl

theorem toNat_shift_or_mod (x : UInt64) (b : UInt8) :
    ((x <<< 8) ||| b.toUInt64).toNat = (x.toNat * 256 + b.toNat) % 2 ^ 64 := by
  have hb := b.toNat_lt
  have hx := x.toNat_lt
  rw [UInt64.toNat_or, UInt64.toNat_shiftLeft, UInt8.toNat_toUInt64]
  show (x.toNat <<< 8) % 2 ^ 64 ||| b.toNat = _
  have hshift : (x.toNat <<< 8) % 2 ^ 64 = (x.toNat % 2 ^ 56) <<< 8 := by
    rw [Nat.shiftLeft_eq, Nat.shiftLeft_eq]
    omega
  have hor := Nat.shiftLeft_add_eq_or_of_lt hb (x.toNat % 2 ^ 56)
  rw [hshift, ← hor, Nat.shiftLeft_eq]
  omega

/-- What was there before is shifted to the left. -/
theorem toNat_shiftIn : ∀ (n : Nat) (len : UInt64) (offset : Nat),
    (value (shiftIn len offset n) raw).toNat =
      (len.toNat * 256 ^ n + ofLE (readAt raw offset n).reverse) % 2 ^ 64 := by
  intro n
  induction n with
  | zero =>
    intro len offset
    have hlen := len.toNat_lt
    show len.toNat = (len.toNat * 1 + 0) % 2 ^ 64
    omega
  | succ n ih =>
    intro len offset
    have hbytes : readAt raw offset (n + 1) = raw offset :: readAt raw (offset + 1) n := by
      rw [Nat.add_comm n 1, readAt_add, readAt_one]
      rfl
    have hmod : ∀ a b : Nat, (a % 2 ^ 64 * 256 ^ n + b) % 2 ^ 64 = (a * 256 ^ n + b) % 2 ^ 64 := by
      intro a b
      rw [Nat.add_mod, Nat.mod_mul_mod, ← Nat.add_mod]
    rw [shiftIn, value_bind, value_byteAt, ih, toNat_shift_or_mod, hmod, hbytes, List.reverse_cons, ofLE_append,
      List.length_reverse, length_readAt, Nat.pow_succ]
    refine congrArg (· % 2 ^ 64) ?_
    rw [ofLE, ofLE]
    ring

/-- Eight bytes leave nothing of it. -/
theorem value_shiftIn_eight (len : UInt64) (offset : Nat) :
    value (shiftIn len offset 8) raw = takeLength raw offset 8 := by
  apply UInt64.toNat.inj
  have hlt := ofLE_lt (readAt raw offset 8).reverse
  rw [List.length_reverse, length_readAt] at hlt
  rw [toNat_shiftIn, toNat_takeLength raw offset (Nat.le_refl 8)]
  omega

/-- The outcome of a decoder as a length that may be missing. -/
def outcome (r : Nat × WebSocketEntity) : Option UInt64 × WebSocketEntity :=
  (if r.1 = 0 then none else some (UInt64.ofNat r.1), r.2)

theorem value_payloadAt {capacity offset : UInt64} (entity : WebSocketEntity) (hle : offset ≤ capacity)
    (hpos : 0 < offset.toNat) : value (payloadAt capacity entity offset) raw =
      outcome (takePayload raw capacity.toNat entity offset.toNat) := by
  have hsub : (capacity - offset).toNat = capacity.toNat - offset.toNat := UInt64.toNat_sub_of_le _ _ hle
  have hcapacity := capacity.toNat_lt
  have hiff : entity.extPayloadLen ≤ capacity - offset ↔
      entity.extPayloadLen.toNat ≤ capacity.toNat - offset.toNat := by rw [UInt64.le_iff_toNat_le, hsub]
  rw [payloadAt, takePayload]
  by_cases hfits : entity.extPayloadLen.toNat ≤ capacity.toNat - offset.toNat
  · rw [if_pos (hiff.mpr hfits), if_neg (Nat.not_lt.mpr hfits), value_bind, value_unmaskAt, outcome, if_neg (by omega)]
    have hsum : offset + entity.extPayloadLen = UInt64.ofNat (offset.toNat + entity.extPayloadLen.toNat) := by
      rw [UInt64.ofNat_add, UInt64.ofNat_toNat, UInt64.ofNat_toNat]
    rw [hsum]
    rfl
  · rw [if_neg (mt hiff.mp hfits), if_pos (Nat.not_le.mp hfits)]
    rfl

theorem value_keyAt {capacity offset : UInt64} (entity : WebSocketEntity) (hle : offset ≤ capacity)
    (hpos : 0 < offset.toNat) (hsmall : offset.toNat ≤ 10) : value (keyAt capacity entity offset) raw =
      outcome (takeKey raw capacity.toNat entity offset.toNat) := by
  have hadd : (offset + 4).toNat = offset.toNat + 4 := by
    rw [UInt64.toNat_add]
    show (offset.toNat + 4) % 2 ^ 64 = _
    omega
  have hiff : capacity < offset + 4 ↔ capacity.toNat < offset.toNat + 4 := by rw [UInt64.lt_iff_toNat_lt, hadd]
  rw [keyAt, takeKey]
  by_cases hmask : entity.mask = 0
  · rw [if_neg (not_not.mpr hmask), if_neg (not_not.mpr hmask), value_payloadAt entity hle hpos]
  rw [if_pos hmask, if_pos hmask]
  by_cases hcut : capacity.toNat < offset.toNat + 4
  · rw [if_pos (hiff.mpr hcut), if_pos hcut]
    rfl
  have hkey : Vector.ofFn (fun i : Fin 4 => (readAt raw offset.toNat 4).getD i.val 0) =
      Vector.ofFn fun i : Fin 4 => raw (offset.toNat + i.val) :=
    congrArg Vector.ofFn (funext fun i => getD_readAt i.isLt)
  rw [if_neg (mt hiff.mp hcut), if_neg hcut, value_bind, value_bytesAt, hkey, ← hadd]
  exact value_payloadAt _ (UInt64.le_iff_toNat_le.mpr (by omega)) (by omega)

/-- **The reader is the decoder** of the packets. -/
theorem value_entityConsumedAt (capacity : UInt64) (old : WebSocketEntity) :
    value (entityConsumedAt capacity old) raw = outcome (toWebsocketEntityConsumed raw capacity.toNat old) := by
  have hlt : ∀ n : UInt64, capacity < n ↔ capacity.toNat < n.toNat := fun n => UInt64.lt_iff_toNat_lt
  have hle : ∀ n : UInt64, ¬ capacity < n → n ≤ capacity := fun n => UInt64.not_lt.mp
  rw [entityConsumedAt, toWebsocketEntityConsumed]
  by_cases htwo : capacity < 2
  · rw [if_pos htwo, if_pos (show capacity.toNat < 2 from (hlt 2).mp htwo)]
    rfl
  rw [if_neg htwo, if_neg (show ¬ capacity.toNat < 2 from mt (hlt 2).mpr htwo), value_bind, value_headerAt]
  dsimp only
  by_cases h126 : (takeHeader raw old).payloadLen = 126
  · rw [if_pos h126, if_pos h126]
    by_cases hfour : capacity < 4
    · rw [if_pos hfour, if_pos (show capacity.toNat < 4 from (hlt 4).mp hfour)]
      rfl
    rw [if_neg hfour, if_neg (show ¬ capacity.toNat < 4 from mt (hlt 4).mpr hfour), value_bind, value_twoBytesAt]
    by_cases hlong : capacity < ((raw 2).toUInt64 <<< 8) ||| (raw (2 + 1)).toUInt64
    · rw [if_pos hlong, if_pos ((hlt _).mp hlong)]
      rfl
    · rw [if_neg hlong, if_neg (mt (hlt _).mpr hlong)]
      exact value_keyAt _ (hle 4 hfour) (by decide) (by decide)
  rw [if_neg h126, if_neg h126]
  by_cases h127 : (takeHeader raw old).payloadLen = 127
  · rw [if_pos h127, if_pos h127]
    by_cases hten : capacity < 10
    · rw [if_pos hten, if_pos (show capacity.toNat < 10 from (hlt 10).mp hten)]
      rfl
    rw [if_neg hten, if_neg (show ¬ capacity.toNat < 10 from mt (hlt 10).mpr hten), value_bind, value_shiftIn_eight]
    exact value_keyAt _ (hle 10 hten) (by decide) (by decide)
  · rw [if_neg h127, if_neg h127]
    exact value_keyAt _ (hle 2 htwo) (by decide) (by decide)

end Steps

/-! ## What is read -/

section Footprint

variable {raw : Mem} {P : Nat → Prop}

theorem within_unmaskAt (entity : WebSocketEntity) {offset n : Nat} (hP : ∀ a, offset ≤ a → a < offset + n → P a) :
    (unmaskAt entity offset n).Within raw P := by
  induction n with
  | zero => exact within_pure _
  | succ n ih =>
    rw [unmaskAt]
    refine within_bind (ih fun a hlow hhigh => hP a hlow (by omega)) ?_
    exact within_bind (within_byteAt (hP _ (by omega) (by omega))) (within_pure _)

theorem within_shiftIn : ∀ (n : Nat) (len : UInt64) (offset : Nat), (∀ a, offset ≤ a → a < offset + n → P a) →
    (shiftIn len offset n).Within raw P := by
  intro n
  induction n with
  | zero => exact fun _ _ _ => within_pure _
  | succ n ih =>
    intro len offset hP
    rw [shiftIn]
    refine within_bind (within_byteAt (hP offset (Nat.le_refl _) (by omega))) ?_
    exact ih _ _ fun a hlow hhigh => hP a (by omega) (by omega)

theorem within_twoBytesAt {offset : Nat} (h : P offset) (h' : P (offset + 1)) : (twoBytesAt offset).Within raw P :=
  within_bind (within_byteAt h) (within_bind (within_byteAt h') (within_pure _))

theorem within_headerAt (entity : WebSocketEntity) (h : P 0) (h' : P 1) : (headerAt entity).Within raw P :=
  within_bind (within_byteAt h) (within_bind (within_byteAt h') (within_pure _))

theorem within_payloadAt {capacity offset : UInt64} (entity : WebSocketEntity) (hle : offset ≤ capacity) :
    (payloadAt capacity entity offset).Within raw (· < capacity.toNat) := by
  have hsub : (capacity - offset).toNat = capacity.toNat - offset.toNat := UInt64.toNat_sub_of_le _ _ hle
  have hle' := UInt64.le_iff_toNat_le.mp hle
  rw [payloadAt]
  refine within_ite (fun hfits => ?_) fun _ => within_pure _
  rw [UInt64.le_iff_toNat_le, hsub] at hfits
  exact within_bind (within_unmaskAt entity fun a _ hhigh => by omega) (within_pure _)

theorem within_keyAt {capacity offset : UInt64} (entity : WebSocketEntity) (hle : offset ≤ capacity)
    (hsmall : offset.toNat ≤ 10) : (keyAt capacity entity offset).Within raw (· < capacity.toNat) := by
  have hadd : (offset + 4).toNat = offset.toNat + 4 := by
    rw [UInt64.toNat_add]
    show (offset.toNat + 4) % 2 ^ 64 = _
    omega
  rw [keyAt]
  refine within_ite (fun _ => within_ite (fun _ => within_pure _) fun hcut => ?_) fun _ => within_payloadAt entity hle
  have hfits := UInt64.not_lt.mp hcut
  have hfits' := UInt64.le_iff_toNat_le.mp hfits
  rw [hadd] at hfits'
  exact within_bind (within_bytesAt fun a _ hhigh => by omega) (within_payloadAt _ hfits)

/-- Both decoders read inside the packet, from the length of the payload on. -/
theorem within_lengthAt {capacity : UInt64} (entity : WebSocketEntity) (start : UInt64)
    (htwo : ¬ capacity < 2) : Reader.Within raw (· < capacity.toNat)
      (if entity.payloadLen = 127 then
        if capacity < 10 then return (none, entity)
        else do
          let len ← shiftIn start 2 8
          keyAt capacity { entity with extPayloadLen := len } 10
      else keyAt capacity { entity with extPayloadLen := entity.payloadLen.toUInt64 } 2) := by
  refine within_ite (fun _ => within_ite (fun _ => within_pure _) fun hten => ?_) fun _ => ?_
  · have hle := UInt64.not_lt.mp hten
    have hle' : 10 ≤ capacity.toNat := UInt64.le_iff_toNat_le.mp hle
    exact within_bind (within_shiftIn 8 _ _ fun a _ hhigh => by omega) (within_keyAt _ hle (by decide))
  · exact within_keyAt _ (UInt64.not_lt.mp htwo) (by decide)

theorem toNat_two_le {capacity : UInt64} (htwo : ¬ capacity < 2) : 2 ≤ capacity.toNat :=
  UInt64.le_iff_toNat_le.mp (UInt64.not_lt.mp htwo)

/-- **No byte behind the packet** is read by `to_websocket_entity_consumed`. -/
theorem within_entityConsumedAt (capacity : UInt64) (old : WebSocketEntity) :
    (entityConsumedAt capacity old).Within raw (· < capacity.toNat) := by
  rw [entityConsumedAt]
  refine within_ite (fun _ => within_pure _) fun htwo => ?_
  have htwo' := toNat_two_le htwo
  refine within_bind (within_headerAt old (by omega) (by omega)) ?_
  rw [value_headerAt]
  refine within_ite (fun _ => within_ite (fun _ => within_pure _) fun hfour => ?_) fun _ => within_lengthAt _ 0 htwo
  have hle := UInt64.not_lt.mp hfour
  have hle' : 4 ≤ capacity.toNat := UInt64.le_iff_toNat_le.mp hle
  refine within_bind (within_twoBytesAt (by omega) (by omega)) ?_
  exact within_ite (fun _ => within_pure _) fun _ => within_keyAt _ hle (by decide)

theorem within_entityAt {capacity : UInt64} (old : WebSocketEntity)
    (h : raw 1 &&& 0x7F = 126 → capacity = 2 ∨ capacity = 3 → False) :
    (entityAt capacity old).Within raw (· < capacity.toNat) := by
  rw [entityAt]
  refine within_ite (fun _ => within_pure _) fun htwo => ?_
  have htwo' := toNat_two_le htwo
  refine within_bind (within_headerAt old (by omega) (by omega)) ?_
  rw [value_headerAt]
  refine within_ite (fun h126 => within_ite (fun _ => within_pure _) fun hzero => ?_) fun _ => within_lengthAt _ _ htwo
  have hle : 4 ≤ capacity := by
    by_contra hlt
    have hlt' : capacity.toNat < 4 := UInt64.lt_iff_toNat_lt.mp (UInt64.not_le.mp hlt)
    refine h h126 ?_
    rcases (show capacity.toNat = 2 ∨ capacity.toNat = 3 by omega) with h2 | h3
    · exact .inl (UInt64.toNat.inj h2)
    · exact .inr (UInt64.toNat.inj h3)
  have hle' : 4 ≤ capacity.toNat := UInt64.le_iff_toNat_le.mp hle
  refine within_bind (within_twoBytesAt (by omega) (by omega)) ?_
  exact within_ite (fun _ => within_pure _) fun _ => within_keyAt _ hle (by decide)

end Footprint

/-! ## The same entity -/

/-- The flags, the opcode, the mask and the length. -/
structure SameHeader (e e' : WebSocketEntity) : Prop where
  fin : e.fin = e'.fin
  rsv1 : e.rsv1 = e'.rsv1
  rsv2 : e.rsv2 = e'.rsv2
  rsv3 : e.rsv3 = e'.rsv3
  opcode : e.opcode = e'.opcode
  mask : e.mask = e'.mask
  payloadLen : e.payloadLen = e'.payloadLen
  extPayloadLen : e.extPayloadLen = e'.extPayloadLen

/-- The same packet: the payload up to the byte that ends it, and the masking key if there is
one. -/
structure SameEntity (e e' : WebSocketEntity) : Prop extends SameHeader e e' where
  maskingKey : e.mask ≠ 0 → e.maskingKey = e'.maskingKey
  payload : readAt e.payload 0 (e.extPayloadLen.toNat + 1) = readAt e'.payload 0 (e.extPayloadLen.toNat + 1)

/-- The same length, and then the same packet. -/
def SameOutcome (r r' : Option UInt64 × WebSocketEntity) : Prop := r.1 = r'.1 ∧ (r.1.isSome = true → SameEntity r.2 r'.2)

section Same

variable {raw : Mem} {e e' : WebSocketEntity}

theorem sameOutcome_none (e e' : WebSocketEntity) : SameOutcome (none, e) (none, e') :=
  ⟨rfl, fun h => absurd h Bool.false_ne_true⟩

theorem sameOutcome_payloadAt (h : SameHeader e e') (hkey : e.mask ≠ 0 → e.maskingKey = e'.maskingKey)
    (capacity offset : UInt64) :
    SameOutcome (value (payloadAt capacity e offset) raw) (value (payloadAt capacity e' offset) raw) := by
  rw [payloadAt, payloadAt, ← h.extPayloadLen]
  by_cases hfits : e.extPayloadLen ≤ capacity - offset
  swap
  · rw [if_neg hfits, if_neg hfits]
    exact sameOutcome_none e e'
  rw [if_pos hfits, if_pos hfits]
  simp only [value_bind, value_unmaskAt, value_pure, unmask_eq]
  refine ⟨rfl, fun _ => ⟨⟨h.fin, h.rsv1, h.rsv2, h.rsv3, h.opcode, h.mask, h.payloadLen, rfl⟩, hkey, ?_⟩⟩
  generalize e.extPayloadLen.toNat = len
  have hbytes : readAt (fun i => raw (offset.toNat + i) ^^^ (if e.mask ≠ 0 then e.keyByte i else 0)) 0 len =
      readAt (fun i => raw (offset.toNat + i) ^^^ (if e'.mask ≠ 0 then e'.keyByte i else 0)) 0 len := by
    refine readAt_congr fun i _ => ?_
    rw [← h.mask]
    by_cases hmask : e.mask = 0
    · rw [if_neg (not_not.mpr hmask), if_neg (not_not.mpr hmask)]
    · rw [if_pos hmask, if_pos hmask, WebSocketEntity.keyByte, WebSocketEntity.keyByte, hkey hmask]
  have hpart : ∀ payload : Mem, ∀ bytes : List UInt8, bytes.length = len →
      readAt (writeAt (writeAt payload 0 bytes) len [0]) 0 (len + 1) = bytes ++ [0] := by
    intro payload bytes hlength
    rw [readAt_add, readAt_writeAt_of_disjoint (.inl (by omega)), readAt_writeAt_same _ _ _ hlength.symm, Nat.zero_add,
      readAt_writeAt_same _ len [0] (show 1 = [0].length from rfl)]
  rw [hpart _ _ (length_readAt _ _ _), hpart _ _ (length_readAt _ _ _), hbytes]

theorem sameOutcome_keyAt (h : SameHeader e e') (capacity offset : UInt64) :
    SameOutcome (value (keyAt capacity e offset) raw) (value (keyAt capacity e' offset) raw) := by
  rw [keyAt, keyAt, ← h.mask]
  by_cases hmask : e.mask = 0
  · rw [if_neg (not_not.mpr hmask), if_neg (not_not.mpr hmask)]
    exact sameOutcome_payloadAt h (fun hne => absurd hmask hne) capacity offset
  rw [if_pos hmask, if_pos hmask]
  by_cases hcut : capacity < offset + 4
  · rw [if_pos hcut, if_pos hcut]
    exact sameOutcome_none e e'
  rw [if_neg hcut, if_neg hcut, value_bind, value_bind]
  generalize Vector.ofFn (fun i : Fin 4 => (value (bytesAt offset.toNat 4) raw).getD i.val 0) = key
  have hsame : SameHeader { e with maskingKey := key } { e' with mask := e.mask, maskingKey := key } :=
    ⟨h.fin, h.rsv1, h.rsv2, h.rsv3, h.opcode, rfl, h.payloadLen, h.extPayloadLen⟩
  exact sameOutcome_payloadAt hsame (fun _ => rfl) capacity (offset + 4)

end Same

/-! ## Agreement -/

/-- Both accept the packet or none does, what they accept is the same, and
`to_websocket_entity` reads no byte behind the packet. -/
def Agree (raw : Mem) (capacity : UInt64) (old old' : WebSocketEntity) : Prop :=
  ((value (toWebsocketEntity capacity old) raw).1 = true ↔
      0 < (value (toWebsocketEntityConsumedAt capacity old') raw).1) ∧
    ((value (toWebsocketEntity capacity old) raw).1 = true →
      SameEntity (value (toWebsocketEntity capacity old) raw).2
        (value (toWebsocketEntityConsumedAt capacity old') raw).2) ∧
    (toWebsocketEntity capacity old).Within raw (· < capacity.toNat)

/-- A length of two bytes is not where the packet ends: there are more than four bytes, or
four that are not the empty frame without a mask. -/
def LengthInside (raw : Mem) (capacity : UInt64) : Prop :=
  raw 1 &&& 0x7F = 126 → capacity ≠ 2 ∧ capacity ≠ 3 ∧ ¬ (capacity = 4 ∧ raw 1 = 126 ∧ raw 2 = 0 ∧ raw 3 = 0)

section Agree

variable {raw : Mem} {capacity : UInt64}

theorem sameHeader_takeHeader (old old' : WebSocketEntity) (len : UInt64) :
    SameHeader { takeHeader raw old with extPayloadLen := len } { takeHeader raw old' with extPayloadLen := len } :=
  ⟨rfl, rfl, rfl, rfl, rfl, rfl, rfl, rfl⟩

/-- A property of bytes, checked for each of them. -/
theorem forall_byte {p : UInt8 → Prop} (h : ∀ n : Fin 256, p (UInt8.ofFin n)) (b : UInt8) : p b := h b.toFin

/-- The byte in front of a length of two bytes, without a mask. -/
theorem unmasked_126 : ∀ b : UInt8, b &&& 0x7F = 126 → ((b &&& 0x80) >>> 7 = 0 ↔ b = 126) :=
  forall_byte (by decide +kernel)

/-- The length of two bytes is zero. -/
theorem twoBytes_le_zero (b c : UInt8) : (b.toUInt64 <<< 8) ||| c.toUInt64 ≤ 0 ↔ b = 0 ∧ c = 0 := by
  have hb := b.toNat_lt
  have htoNat := toNat_shift_or_mod b.toUInt64 c
  rw [UInt8.toNat_toUInt64] at htoNat
  rw [UInt64.le_iff_toNat_le, htoNat, ← UInt8.toNat_inj, ← UInt8.toNat_inj]
  show (b.toNat * 256 + c.toNat) % 2 ^ 64 ≤ 0 ↔ b.toNat = 0 ∧ c.toNat = 0
  have hc := c.toNat_lt
  omega

/-- Four bytes with a length of two: only the empty frame without a mask is a packet. -/
theorem keyAt_four (entity : WebSocketEntity) :
    (value (keyAt 4 entity 4) raw).1.isSome = true ↔ entity.mask = 0 ∧ entity.extPayloadLen ≤ 0 := by
  rw [keyAt]
  by_cases hmask : entity.mask = 0
  · rw [if_neg (not_not.mpr hmask), payloadAt]
    by_cases hzero : entity.extPayloadLen ≤ 4 - 4
    · rw [if_pos hzero, value_bind, value_unmaskAt]
      exact iff_of_true rfl ⟨hmask, hzero⟩
    · rw [if_neg hzero]
      exact iff_of_false Bool.false_ne_true fun h => hzero h.2
  · rw [if_pos hmask, if_pos (by decide)]
    exact iff_of_false Bool.false_ne_true fun h => hmask h.1

/-- **The bodies agree** where the packet does not end at a length of two bytes. -/
theorem sameOutcome_entityAt (h : LengthInside raw capacity) (old old' : WebSocketEntity) :
    SameOutcome (value (entityAt capacity old) raw) (value (entityConsumedAt capacity old') raw) := by
  rw [entityAt, entityConsumedAt]
  by_cases htwo : capacity < 2
  · rw [if_pos htwo, if_pos htwo]
    exact sameOutcome_none old old'
  rw [if_neg htwo, if_neg htwo, value_bind, value_bind, value_headerAt, value_headerAt]
  have hlen : (takeHeader raw old').payloadLen = (takeHeader raw old).payloadLen := rfl
  rw [hlen]
  by_cases h126 : (takeHeader raw old).payloadLen = 126
  · obtain ⟨hne2, hne3, hempty⟩ := h h126
    have hfour : ¬ capacity < 4 := by
      intro hlt
      have hlt' : capacity.toNat < 4 := UInt64.lt_iff_toNat_lt.mp hlt
      have htwo' := toNat_two_le htwo
      rcases (show capacity.toNat = 2 ∨ capacity.toNat = 3 by omega) with h2 | h3
      · exact hne2 (UInt64.toNat.inj h2)
      · exact hne3 (UInt64.toNat.inj h3)
    rw [if_pos h126, if_pos h126, if_neg hfour]
    by_cases hzero : capacity - 4 = 0
    · -- the packet ends behind the length, and is not the empty frame
      obtain rfl : capacity = 4 := by
        have hfour : capacity - 4 + 4 = 0 + 4 := congrArg (· + 4) hzero
        rwa [UInt64.sub_add_cancel, UInt64.zero_add] at hfour
      rw [if_pos hzero, value_bind, value_twoBytesAt]
      refine ⟨?_, fun hsome => absurd hsome Bool.false_ne_true⟩
      rw [value_ite]
      split
      · rfl
      refine (Option.not_isSome_iff_eq_none.mp fun hsome => ?_).symm
      obtain ⟨hmask, hext⟩ := (keyAt_four _).mp hsome
      exact hempty ⟨rfl, (unmasked_126 _ h126).mp hmask, (twoBytes_le_zero _ _).mp hext⟩
    · rw [if_neg hzero, value_bind, value_bind, value_ite, value_ite]
      split
      · exact sameOutcome_none _ _
      · exact sameOutcome_keyAt (sameHeader_takeHeader old old' _) capacity 4
  rw [if_neg h126, if_neg h126]
  by_cases h127 : (takeHeader raw old).payloadLen = 127
  · rw [if_pos h127, if_pos h127]
    by_cases hten : capacity < 10
    · rw [if_pos hten, if_pos hten]
      exact sameOutcome_none _ _
    · rw [if_neg hten, if_neg hten, value_bind, value_bind, value_shiftIn_eight, value_shiftIn_eight]
      exact sameOutcome_keyAt (sameHeader_takeHeader old old' _) capacity 10
  · rw [if_neg h127, if_neg h127]
    exact sameOutcome_keyAt (sameHeader_takeHeader old old' _) capacity 2

/-- A length that is returned is not 0. -/
theorem isSome_iff_consumed (old : WebSocketEntity) :
    (value (entityConsumedAt capacity old) raw).1.isSome = true ↔
      0 < (value (toWebsocketEntityConsumedAt capacity old) raw).1 := by
  rw [toWebsocketEntityConsumedAt, value_bind, value_pure, value_entityConsumedAt, outcome]
  dsimp only
  by_cases hzero : (toWebsocketEntityConsumed raw capacity.toNat old).1 = 0
  · rw [if_pos hzero]
    exact iff_of_false Bool.false_ne_true (by decide)
  · have hle := (frameLength_le_consumed hzero).2
    have hcapacity := capacity.toNat_lt
    rw [if_neg hzero, Option.getD_some, UInt64.lt_iff_toNat_lt,
      UInt64.toNat_ofNat_of_lt' (show _ < 2 ^ 64 by omega)]
    exact iff_of_true rfl (Nat.pos_of_ne_zero hzero)

/-- The byte behind a length of two bytes is read from a packet of two or three. -/
theorem not_within_entityAt (old : WebSocketEntity) (h126 : raw 1 &&& 0x7F = 126) (h : capacity = 2 ∨ capacity = 3) :
    ¬ (entityAt capacity old).Within raw (· < capacity.toNat) := by
  intro hwithin
  have hthree : capacity.toNat ≤ 3 := by rcases h with rfl | rfl <;> decide
  refine absurd (hwithin 3 ?_) (Nat.not_lt.mpr hthree)
  have hread : 3 ∈ reads (twoBytesAt 2) raw := List.mem_cons_of_mem _ List.mem_cons_self
  rw [entityAt, if_neg (by rcases h with rfl | rfl <;> decide), reads_bind, value_headerAt,
    if_pos (show (takeHeader raw old).payloadLen = 126 from h126),
    if_neg (by rcases h with rfl | rfl <;> decide), reads_bind]
  exact List.mem_append_right _ (List.mem_append_left _ hread)

/-- **The decoders agree** exactly where the packet does not end at a length of two bytes. -/
theorem decodersAgree_iff (raw : Mem) (capacity : UInt64) (old old' : WebSocketEntity) :
    Agree raw capacity old old' ↔ LengthInside raw capacity := by
  have hreads : (toWebsocketEntity capacity old).Within raw (· < capacity.toNat) ↔
      (entityAt capacity old).Within raw (· < capacity.toNat) := by
    rw [toWebsocketEntity, Within, reads_bind, reads_pure, List.append_nil, Within]
  have haccepts : (value (toWebsocketEntity capacity old) raw).1 = (value (entityAt capacity old) raw).1.isSome := by
    rw [toWebsocketEntity, value_bind, value_pure]
  rw [Agree, hreads, haccepts, ← isSome_iff_consumed]
  constructor
  · rintro ⟨hiff, -, hwithin⟩ h126
    refine ⟨fun h2 => not_within_entityAt old h126 (.inl h2) hwithin,
      fun h3 => not_within_entityAt old h126 (.inr h3) hwithin, ?_⟩
    rintro ⟨rfl, hbyte, hzero⟩
    have hnone : ¬ (value (entityAt 4 old) raw).1.isSome = true := by
      rw [entityAt, if_neg (by decide), value_bind, value_headerAt,
        if_pos (show (takeHeader raw old).payloadLen = 126 from h126), if_pos (by decide)]
      exact Bool.false_ne_true
    refine hnone (hiff.mpr ?_)
    have hext : (raw 2).toUInt64 <<< 8 ||| (raw (2 + 1)).toUInt64 ≤ 0 := (twoBytes_le_zero _ _).mpr hzero
    rw [entityConsumedAt, if_neg (by decide), value_bind, value_headerAt,
      if_pos (show (takeHeader raw old').payloadLen = 126 from h126), if_neg (by decide), value_bind, value_twoBytesAt,
      if_neg (UInt64.not_lt.mpr (UInt64.le_trans hext (by decide)))]
    exact (keyAt_four _).mpr ⟨(unmasked_126 _ h126).mpr hbyte, hext⟩
  · intro h
    obtain ⟨hlength, hsame⟩ := sameOutcome_entityAt h old old'
    refine ⟨by rw [hlength], ?_, within_entityAt old fun h126 hshort => ?_⟩
    · rw [toWebsocketEntity, toWebsocketEntityConsumedAt, value_bind, value_bind]
      exact hsame
    · rcases hshort with h2 | h3
      · exact (h h126).1 h2
      · exact (h h126).2.1 h3

/-- The empty frame with its length in two bytes. -/
def emptyLong : Mem := writeAt (fun _ => 0) 0 [0x81, 126, 0, 0]

/-- One decoder takes it and the other does not. -/
theorem emptyLong_disagree : ¬ Agree emptyLong 4 (.zero fun _ => 0) (.zero fun _ => 0) := by
  rintro ⟨hiff, -⟩
  have haccepted := hiff.mpr (by decide)
  exact absurd haccepted (by decide)

end Agree

end OnionRelay.Websocket
