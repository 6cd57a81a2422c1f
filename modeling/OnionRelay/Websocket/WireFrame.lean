import OnionRelay.Websocket.Decoders

/-!
# Frames on the wire

A frame as data: the flags, the opcode, the length of the payload in one of its three
encodings, the masking key if there is one, and the payload.  The encoding need not be the
shortest one.

`decoder_exact`: `to_websocket_entity_consumed` takes the bytes that start with a frame, and
leaves that frame in the entity.
-/

namespace OnionRelay.Websocket

open OnionRelay.Lib Reader

/-! ## Frames -/

/-- The length of a payload in seven bits, in two bytes or in eight. -/
inductive LengthField
  | seven (n : Nat) (h : n ≤ 125)
  | two (n : Nat) (h : n < 256 ^ 2)
  | eight (n : Nat) (h : n < 256 ^ 8)

namespace LengthField

def value : LengthField → Nat
  | seven n _ => n
  | two n _ => n
  | eight n _ => n

/-- The seven bits in the second byte. -/
def code : LengthField → UInt8
  | seven n _ => UInt8.ofNat n
  | two _ _ => 126
  | eight _ _ => 127

/-- The bytes behind them, the high one first. -/
def extended : LengthField → List UInt8
  | seven _ _ => []
  | two n _ => (toLE 2 n).reverse
  | eight n _ => (toLE 8 n).reverse

end LengthField

theorem mod_four_lt (i : Nat) : i % 4 < 4 := Nat.mod_lt i (by decide)

/-- The byte of the key over byte `i` of the payload. -/
def keyByteAt (key : Option (Vector UInt8 4)) (i : Nat) : UInt8 :=
  match key with
  | none => 0
  | some key => key.get ⟨i % 4, mod_four_lt i⟩

structure WireFrame where
  fin : Bool
  rsv1 : Bool
  rsv2 : Bool
  rsv3 : Bool
  opcode : Fin 16
  length : LengthField
  key : Option (Vector UInt8 4)
  payload : List UInt8
  fits : payload.length = length.value

/-- The byte of the flags and the opcode. -/
def flagsByte (fin rsv1 rsv2 rsv3 : Bool) (opcode : Fin 16) : UInt8 :=
  UInt8.ofNat (128 * fin.toNat + 64 * rsv1.toNat + 32 * rsv2.toNat + 16 * rsv3.toNat + opcode.val)

/-- The byte of the mask and the seven bits of the length. -/
def maskByte (masked : Bool) (code : UInt8) : UInt8 := UInt8.ofNat (128 * masked.toNat + code.toNat)

namespace WireFrame

variable (f : WireFrame)

def keyBytes : List UInt8 := (f.key.map Vector.toList).getD []

/-- The payload under the key. -/
def masked : List UInt8 := f.payload.mapIdx fun i b => b ^^^ keyByteAt f.key i

def bytes : List UInt8 :=
  [flagsByte f.fin f.rsv1 f.rsv2 f.rsv3 f.opcode, maskByte f.key.isSome f.length.code] ++
    (f.length.extended ++ (f.keyBytes ++ f.masked))

/-- The bytes of a packet start with the frame. -/
def StartsIn (raw : Mem) (capacity : Nat) : Prop :=
  f.bytes.length ≤ capacity ∧ readAt raw 0 f.bytes.length = f.bytes

/-- The entity holds the frame, with a byte 0 behind its payload. -/
structure HeldBy (entity : WebSocketEntity) : Prop where
  fin : entity.fin.toNat = f.fin.toNat
  rsv1 : entity.rsv1.toNat = f.rsv1.toNat
  rsv2 : entity.rsv2.toNat = f.rsv2.toNat
  rsv3 : entity.rsv3.toNat = f.rsv3.toNat
  opcode : entity.opcode.toNat = f.opcode.val
  mask : entity.mask.toNat = f.key.isSome.toNat
  maskingKey : ∀ key, f.key = some key → entity.maskingKey = key
  extPayloadLen : entity.extPayloadLen.toNat = f.payload.length
  payload : readAt entity.payload 0 (f.payload.length + 1) = f.payload ++ [0]

@[simp] theorem length_masked : f.masked.length = f.payload.length := List.length_mapIdx

theorem length_keyBytes : f.keyBytes.length = if f.key.isSome then 4 else 0 := by
  rw [keyBytes]
  cases f.key <;> simp

theorem length_bytes : f.bytes.length =
    2 + f.length.extended.length + f.keyBytes.length + f.payload.length := by
  simp only [bytes, List.length_append, length_masked, List.length_cons, List.length_nil]
  omega

end WireFrame

/-! ### The bits of the two bytes -/

theorem flagsByte_bits : ∀ (fin rsv1 rsv2 rsv3 : Bool) (opcode : Fin 16),
    ((flagsByte fin rsv1 rsv2 rsv3 opcode &&& 0x80) >>> 7).toNat = fin.toNat ∧
      ((flagsByte fin rsv1 rsv2 rsv3 opcode &&& 0x40) >>> 6).toNat = rsv1.toNat ∧
      ((flagsByte fin rsv1 rsv2 rsv3 opcode &&& 0x20) >>> 5).toNat = rsv2.toNat ∧
      ((flagsByte fin rsv1 rsv2 rsv3 opcode &&& 0x10) >>> 4).toNat = rsv3.toNat ∧
      (flagsByte fin rsv1 rsv2 rsv3 opcode &&& 0x0F).toNat = opcode.val := by
  decide +kernel

theorem flagsByte_of_bits : ∀ b : UInt8, flagsByte (b &&& 0x80 != 0) (b &&& 0x40 != 0) (b &&& 0x20 != 0)
    (b &&& 0x10 != 0) (Fin.ofNat 16 b.toNat) = b := forall_byte (by decide +kernel)

theorem maskByte_bits : ∀ (masked : Bool) (n : Fin 128),
    ((maskByte masked (UInt8.ofNat n.val) &&& 0x80) >>> 7).toNat = masked.toNat ∧
      maskByte masked (UInt8.ofNat n.val) &&& 0x7F = UInt8.ofNat n.val := by
  decide +kernel

theorem maskByte_of_bits : ∀ b : UInt8, maskByte ((b &&& 0x80) >>> 7 != 0) (b &&& 0x7F) = b :=
  forall_byte (by decide +kernel)

/-! ## A frame is read -/

section Take

variable {raw : Mem} {capacity offset : Nat} {e : WebSocketEntity}

/-- The entity gives the key of a frame. -/
def KeyOf (e : WebSocketEntity) (key : Option (Vector UInt8 4)) : Prop :=
  e.mask.toNat = key.isSome.toNat ∧ ∀ k, key = some k → e.maskingKey = k

theorem KeyOf.keyByte {key : Option (Vector UInt8 4)} (h : KeyOf e key) (i : Nat) :
    (if e.mask ≠ 0 then e.keyByte i else 0) = keyByteAt key i := by
  obtain ⟨hmask, hkey⟩ := h
  cases key with
  | none =>
    rw [if_neg (not_not.mpr (UInt8.toNat.inj hmask))]
    rfl
  | some k =>
    have hne : e.mask ≠ 0 := fun h0 => absurd (hmask.symm.trans (congrArg UInt8.toNat h0)) Nat.one_ne_zero
    rw [if_pos hne, WebSocketEntity.keyByte, hkey k rfl]
    rfl

/-- The payload is unmasked, and nothing behind the byte 0 is touched. -/
theorem takePayload_masked {key : Option (Vector UInt8 4)} {payload : List UInt8} (hkey : KeyOf e key)
    (hlength : e.extPayloadLen.toNat = payload.length)
    (hraw : readAt raw offset payload.length = payload.mapIdx fun i b => b ^^^ keyByteAt key i)
    (hcap : offset + payload.length ≤ capacity) :
    takePayload raw capacity e offset =
      (offset + payload.length, { e with payload := writeAt e.payload 0 (payload ++ [0]) }) := by
  have hunmask : readAt (fun i => raw (offset + i) ^^^ (if e.mask ≠ 0 then e.keyByte i else 0)) 0 payload.length =
      payload := by
    refine List.ext_getElem (length_readAt _ _ _) fun i hi hi' => ?_
    have hget := List.getElem_of_eq hraw (show i < (readAt raw offset payload.length).length by
      rwa [length_readAt])
    rw [getElem_readAt, List.getElem_mapIdx] at hget
    rw [getElem_readAt, Nat.zero_add, hget, hkey.keyByte, UInt8.xor_assoc, UInt8.xor_self, UInt8.xor_zero]
  rw [takePayload, hlength, if_neg (by omega), unmask_eq, hunmask, ← writeAt_append _ _ _ _ (Nat.zero_add _).symm]

theorem takeKey_masked {f : WireFrame} (hmask : e.mask.toNat = f.key.isSome.toNat)
    (hlength : e.extPayloadLen.toNat = f.payload.length)
    (hraw : readAt raw offset (f.keyBytes.length + f.payload.length) = f.keyBytes ++ f.masked)
    (hcap : offset + f.keyBytes.length + f.payload.length ≤ capacity) :
    ∃ key, (∀ k, f.key = some k → key = k) ∧ takeKey raw capacity e offset =
      (offset + f.keyBytes.length + f.payload.length,
        { e with maskingKey := key, payload := writeAt e.payload 0 (f.payload ++ [0]) }) := by
  rw [show f.payload.length = f.masked.length from f.length_masked.symm, ← List.length_append] at hraw
  obtain ⟨hkeyBytes, hmasked⟩ := readAt_eq_append hraw
  rw [f.length_masked] at hmasked
  rw [takeKey]
  cases hkey : f.key with
  | none =>
    rw [hkey] at hmask
    have hempty : f.keyBytes = [] := by rw [WireFrame.keyBytes, hkey]; rfl
    rw [hempty, List.length_nil] at hmasked hcap ⊢
    have hof : KeyOf e f.key := ⟨by rw [hkey]; exact hmask, fun k hk => by rw [hkey] at hk; cases hk⟩
    refine ⟨e.maskingKey, fun k hk => absurd hk (Option.some_ne_none k).symm, ?_⟩
    rw [if_neg (not_not.mpr (UInt8.toNat.inj hmask))]
    exact takePayload_masked hof hlength hmasked hcap
  | some k =>
    rw [hkey] at hmask
    have hne : e.mask ≠ 0 := fun h0 => absurd (hmask.symm.trans (congrArg UInt8.toNat h0)) Nat.one_ne_zero
    have hbytes : f.keyBytes = k.toList := by rw [WireFrame.keyBytes, hkey]; rfl
    have hfour : f.keyBytes.length = 4 := by rw [hbytes, Vector.length_toList]
    rw [hfour] at hkeyBytes hmasked hcap ⊢
    have htaken : Vector.ofFn (fun i : Fin 4 => raw (offset + i.val)) = k := by
      rw [hbytes] at hkeyBytes
      refine Vector.ext fun i hi => ?_
      have hget := List.getElem_of_eq hkeyBytes (show i < (readAt raw offset 4).length by rwa [length_readAt])
      rw [getElem_readAt] at hget
      rw [Vector.getElem_ofFn, hget, Vector.getElem_toList]
    refine ⟨k, fun k' hk' => Option.some.inj hk', ?_⟩
    rw [if_pos hne, if_neg (by omega), htaken]
    have hof : KeyOf { e with maskingKey := k } f.key :=
      ⟨by rw [hkey]; exact hmask, fun k' hk' => Option.some.inj (hkey.symm.trans hk')⟩
    exact takePayload_masked hof hlength hmasked hcap

end Take

section Read

variable {raw : Mem} {capacity : Nat} {f : WireFrame}

/-- The two bytes of the header. -/
theorem takeHeader_of_starts (h : f.StartsIn raw capacity) (old : WebSocketEntity) :
    (takeHeader raw old).fin.toNat = f.fin.toNat ∧ (takeHeader raw old).rsv1.toNat = f.rsv1.toNat ∧
      (takeHeader raw old).rsv2.toNat = f.rsv2.toNat ∧ (takeHeader raw old).rsv3.toNat = f.rsv3.toNat ∧
      (takeHeader raw old).opcode.toNat = f.opcode.val ∧ (takeHeader raw old).mask.toNat = f.key.isSome.toNat ∧
      (takeHeader raw old).payloadLen = f.length.code ∧
      readAt raw 2 (f.length.extended ++ (f.keyBytes ++ f.masked)).length =
        f.length.extended ++ (f.keyBytes ++ f.masked) := by
  obtain ⟨-, hraw⟩ := h
  obtain ⟨hhead, hrest⟩ := readAt_eq_append hraw
  obtain ⟨h0, h1⟩ := readAt_cons hhead
  obtain ⟨h1, -⟩ := readAt_cons h1
  obtain ⟨hfin, hrsv1, hrsv2, hrsv3, hopcode⟩ := flagsByte_bits f.fin f.rsv1 f.rsv2 f.rsv3 f.opcode
  have hcode : f.length.code.toNat < 128 := by
    cases f.length with
    | seven n hn =>
      show (UInt8.ofNat n).toNat < 128
      rw [UInt8.toNat_ofNat']
      omega
    | two n hn => show (126 : UInt8).toNat < 128; decide
    | eight n hn => show (127 : UInt8).toNat < 128; decide
  obtain ⟨hmask, hlen⟩ := maskByte_bits f.key.isSome ⟨f.length.code.toNat, hcode⟩
  rw [UInt8.ofNat_toNat] at hmask hlen
  rw [← h0] at hfin hrsv1 hrsv2 hrsv3 hopcode
  rw [Nat.zero_add] at h1
  rw [← h1] at hmask hlen
  exact ⟨hfin, hrsv1, hrsv2, hrsv3, hopcode, hmask, hlen, hrest⟩

/-- The entity that a frame leaves: `parsed` has all but the key and the payload. -/
theorem heldBy_taken {parsed : WebSocketEntity} (h : f.StartsIn raw capacity) {old : WebSocketEntity}
    (hparsed : ∃ len, parsed = { takeHeader raw old with extPayloadLen := len })
    (hlength : parsed.extPayloadLen.toNat = f.payload.length) {key : Vector UInt8 4}
    (hkey : ∀ k, f.key = some k → key = k) :
    f.HeldBy { parsed with maskingKey := key, payload := writeAt parsed.payload 0 (f.payload ++ [0]) } := by
  obtain ⟨hfin, hrsv1, hrsv2, hrsv3, hopcode, hmask, -, -⟩ := takeHeader_of_starts h old
  obtain ⟨len, rfl⟩ := hparsed
  refine ⟨hfin, hrsv1, hrsv2, hrsv3, hopcode, hmask, hkey, hlength, ?_⟩
  exact readAt_writeAt_same _ _ _ (by rw [List.length_append]; rfl)

/-- **A frame is taken whole** and left in the entity; behind its payload and the byte 0 the
buffer stays as it is. -/
theorem entityConsumed_of_starts (h : f.StartsIn raw capacity) (old : WebSocketEntity) :
    (toWebsocketEntityConsumed raw capacity old).1 = f.bytes.length ∧
      f.HeldBy (toWebsocketEntityConsumed raw capacity old).2 ∧
      (toWebsocketEntityConsumed raw capacity old).2.payload = writeAt old.payload 0 (f.payload ++ [0]) := by
  obtain ⟨-, -, -, -, -, hmask, hcode, hrest⟩ := takeHeader_of_starts h old
  have hlen := f.length_bytes
  have hcap := h.1
  obtain ⟨hextended, hbody⟩ := readAt_eq_append hrest
  rw [List.length_append, f.length_masked] at hbody
  -- what stands behind the length
  have htake : ∀ (parsed : WebSocketEntity) (len : UInt64) (offset : Nat),
      parsed = { takeHeader raw old with extPayloadLen := len } → len.toNat = f.payload.length →
      offset = 2 + f.length.extended.length →
      toWebsocketEntityConsumed raw capacity old = takeKey raw capacity parsed offset →
      (toWebsocketEntityConsumed raw capacity old).1 = f.bytes.length ∧
        f.HeldBy (toWebsocketEntityConsumed raw capacity old).2 ∧
        (toWebsocketEntityConsumed raw capacity old).2.payload = writeAt old.payload 0 (f.payload ++ [0]) := by
    intro parsed len offset hparsed hlength hoffset hconsumed
    have hmask' : parsed.mask.toNat = f.key.isSome.toNat := by rw [hparsed]; exact hmask
    have hlength' : parsed.extPayloadLen.toNat = f.payload.length := by rw [hparsed]; exact hlength
    obtain ⟨key, hkey, htaken⟩ := takeKey_masked hmask' hlength' (by rw [hoffset]; exact hbody)
      (show offset + f.keyBytes.length + f.payload.length ≤ capacity by omega)
    rw [hconsumed, htaken]
    refine ⟨by dsimp only; omega, heldBy_taken h ⟨len, hparsed⟩ hlength' hkey, ?_⟩
    rw [hparsed]
    rfl
  have hvalue := f.fits
  cases hfield : f.length with
  | seven n hn =>
    rw [hfield] at hcode hextended hvalue
    have hn' : (UInt8.ofNat n).toNat = n := by rw [UInt8.toNat_ofNat']; omega
    have hne : ∀ k : UInt8, 125 < k.toNat → (takeHeader raw old).payloadLen ≠ k := by
      intro k hk heq
      have hlt := congrArg UInt8.toNat (hcode.symm.trans heq)
      rw [show (LengthField.seven n hn).code = UInt8.ofNat n from rfl, hn'] at hlt
      omega
    refine htake _ _ 2 rfl ?_ (by rw [hfield]; rfl)
      (entityConsumed_seven (by omega) (hne 126 (by decide)) (hne 127 (by decide)))
    rw [hcode, UInt8.toNat_toUInt64, hvalue]
    exact hn'
  | two n hn =>
    rw [hfield] at hcode hextended hvalue
    have hext : (f.length.extended).length = 2 := by rw [hfield]; simp [LengthField.extended]
    have hn' : (takeLength raw 2 2).toNat = n := by
      rw [toNat_takeLength raw 2 (by decide)]
      have hbytes : readAt raw 2 2 = (toLE 2 n).reverse := by simpa [LengthField.extended] using hextended
      rw [hbytes, List.reverse_reverse, ofLE_toLE_of_lt hn]
    have hvalue' : f.payload.length = n := hvalue
    exact htake _ _ 4 rfl (hn'.trans hvalue.symm) (by rw [hext])
      (entityConsumed_two hcode (by omega) (by omega))
  | eight n hn =>
    rw [hfield] at hcode hextended hvalue
    have hext : (f.length.extended).length = 8 := by rw [hfield]; simp [LengthField.extended]
    have hn' : (takeLength raw 2 8).toNat = n := by
      rw [toNat_takeLength raw 2 (by decide)]
      have hbytes : readAt raw 2 8 = (toLE 8 n).reverse := by simpa [LengthField.extended] using hextended
      rw [hbytes, List.reverse_reverse, ofLE_toLE_of_lt hn]
    exact htake _ _ 10 rfl (hn'.trans hvalue.symm) (by rw [hext]) (entityConsumed_eight hcode (by omega))

end Read

/-! ## What is read is a frame -/

/-- The masking key at `offset`, if the mask is set. -/
def keyOf (raw : Mem) (offset : Nat) : Option (Vector UInt8 4) :=
  if (raw 1 &&& 0x80) >>> 7 != 0 then some (Vector.ofFn fun i => raw (offset + i.val)) else none

/-- The frame that the bytes start with, if this is its length. -/
def frameOf (raw : Mem) (field : LengthField) : WireFrame where
  fin := raw 0 &&& 0x80 != 0
  rsv1 := raw 0 &&& 0x40 != 0
  rsv2 := raw 0 &&& 0x20 != 0
  rsv3 := raw 0 &&& 0x10 != 0
  opcode := Fin.ofNat 16 (raw 0).toNat
  length := field
  key := keyOf raw (2 + field.extended.length)
  payload := (readAt raw (2 + field.extended.length +
    (if (raw 1 &&& 0x80) >>> 7 != 0 then 4 else 0)) field.value).mapIdx fun i b =>
      b ^^^ keyByteAt (keyOf raw (2 + field.extended.length)) i
  fits := by rw [List.length_mapIdx, length_readAt]

theorem mapIdx_xor_twice (key : Nat → UInt8) (bytes : List UInt8) :
    (bytes.mapIdx fun i b => b ^^^ key i).mapIdx (fun i b => b ^^^ key i) = bytes := by
  refine List.ext_getElem (by simp) fun i hi hi' => ?_
  rw [List.getElem_mapIdx, List.getElem_mapIdx, UInt8.xor_assoc, UInt8.xor_self, UInt8.xor_zero]

section FrameOf

variable {raw : Mem} {capacity : Nat}

theorem isSome_keyOf (offset : Nat) : (keyOf raw offset).isSome = ((raw 1 &&& 0x80) >>> 7 != 0) := by
  rw [keyOf]
  cases ((raw 1 &&& 0x80) >>> 7 != 0) <;> rfl

theorem keyBytes_frameOf (field : LengthField) :
    (frameOf raw field).keyBytes = readAt raw (2 + field.extended.length) (frameOf raw field).keyBytes.length := by
  rw [WireFrame.length_keyBytes, WireFrame.keyBytes, show (frameOf raw field).key =
    keyOf raw (2 + field.extended.length) from rfl, isSome_keyOf, keyOf]
  cases ((raw 1 &&& 0x80) >>> 7 != 0) with
  | false => rfl
  | true =>
    refine List.ext_getElem (by simp) fun i hi hi' => ?_
    rw [if_pos rfl, length_readAt] at hi'
    simp [getElem_readAt]

theorem masked_frameOf (field : LengthField) : (frameOf raw field).masked =
    readAt raw (2 + field.extended.length + (frameOf raw field).keyBytes.length) field.value := by
  have hkey : (frameOf raw field).keyBytes.length = if (raw 1 &&& 0x80) >>> 7 != 0 then 4 else 0 := by
    rw [WireFrame.length_keyBytes, show (frameOf raw field).key = keyOf raw (2 + field.extended.length) from rfl,
      isSome_keyOf]
  rw [hkey]
  exact mapIdx_xor_twice (keyByteAt (keyOf raw (2 + field.extended.length))) _

theorem starts_frameOf {field : LengthField} (hcode : raw 1 &&& 0x7F = field.code)
    (hext : readAt raw 2 field.extended.length = field.extended)
    (hle : 2 + field.extended.length + (if (raw 1 &&& 0x80) >>> 7 ≠ 0 then 4 else 0) + field.value ≤ capacity) :
    (frameOf raw field).StartsIn raw capacity := by
  have hkey : (frameOf raw field).keyBytes.length = if (raw 1 &&& 0x80) >>> 7 ≠ 0 then 4 else 0 := by
    rw [WireFrame.length_keyBytes, show (frameOf raw field).key = keyOf raw (2 + field.extended.length) from rfl,
      isSome_keyOf]
    simp only [bne_iff_ne]
  have hlength := (frameOf raw field).length_bytes
  rw [(frameOf raw field).fits, show (frameOf raw field).length = field from rfl] at hlength
  refine ⟨by omega, ?_⟩
  have hfirst : flagsByte (frameOf raw field).fin (frameOf raw field).rsv1 (frameOf raw field).rsv2
      (frameOf raw field).rsv3 (frameOf raw field).opcode = raw 0 := flagsByte_of_bits (raw 0)
  have hsecond : maskByte (frameOf raw field).key.isSome (frameOf raw field).length.code = raw 1 := by
    rw [show (frameOf raw field).key = keyOf raw (2 + field.extended.length) from rfl, isSome_keyOf,
      show (frameOf raw field).length = field from rfl, ← hcode]
    exact maskByte_of_bits (raw 1)
  have hhead : readAt raw 0 2 = [raw 0, raw 1] := rfl
  rw [hlength, readAt_add, readAt_add, readAt_add, hhead, WireFrame.bytes, hfirst, hsecond,
    show (frameOf raw field).length = field from rfl, List.append_assoc, List.append_assoc]
  simp only [Nat.zero_add]
  rw [hext, ← keyBytes_frameOf, ← masked_frameOf]

/-- **What is taken** starts with a frame. -/
theorem exists_starts {old : WebSocketEntity} (h : (toWebsocketEntityConsumed raw capacity old).1 ≠ 0) :
    ∃ f : WireFrame, f.StartsIn raw capacity := by
  have hcap : 2 ≤ capacity := by
    by_contra hlt
    rw [toWebsocketEntityConsumed, if_pos (by omega)] at h
    exact h rfl
  have hbytes : ∀ n, n ≤ 8 → (toLE n (takeLength raw 2 n).toNat).reverse = readAt raw 2 n := by
    intro n hn
    have hback := toLE_ofLE (readAt raw 2 n).reverse
    rw [List.length_reverse, length_readAt] at hback
    rw [toNat_takeLength raw 2 hn, hback, List.reverse_reverse]
  have hlt : ∀ n, n ≤ 8 → (takeLength raw 2 n).toNat < 256 ^ n := by
    intro n hn
    have hofLE := ofLE_lt (readAt raw 2 n).reverse
    rwa [← toNat_takeLength raw 2 hn, List.length_reverse, length_readAt] at hofLE
  by_cases h126 : (takeHeader raw old).payloadLen = 126
  · have hfour : 4 ≤ capacity ∧ (takeLength raw 2 2).toNat ≤ capacity := by
      by_contra hlt
      rw [toWebsocketEntityConsumed, if_neg (by omega)] at h
      dsimp only at h
      rw [if_pos h126, takeTwo_eq] at h
      split_ifs at h
      · exact h rfl
      · exact h rfl
      · omega
    rw [entityConsumed_two h126 hfour.1 hfour.2] at h
    obtain ⟨hn, hle, -, -⟩ := takeKey_consumed hfour.1 h
    rw [hn] at hle
    refine ⟨_, @starts_frameOf raw capacity (.two _ (hlt 2 (by decide))) h126 ?_ ?_⟩
    · rw [LengthField.extended, hbytes 2 (by decide), length_readAt]
    · rw [LengthField.extended, List.length_reverse, length_toLE]
      exact hle
  by_cases h127 : (takeHeader raw old).payloadLen = 127
  · have hten : 10 ≤ capacity := by
      by_contra hlt
      rw [toWebsocketEntityConsumed, if_neg (by omega)] at h
      dsimp only at h
      rw [if_neg h126, if_pos h127, if_pos (by omega)] at h
      exact h rfl
    rw [entityConsumed_eight h127 hten] at h
    obtain ⟨hn, hle, -, -⟩ := takeKey_consumed hten h
    rw [hn] at hle
    refine ⟨_, @starts_frameOf raw capacity (.eight _ (hlt 8 (by decide))) h127 ?_ ?_⟩
    · rw [LengthField.extended, hbytes 8 (by decide), length_readAt]
    · rw [LengthField.extended, List.length_reverse, length_toLE]
      exact hle
  · rw [entityConsumed_seven hcap h126 h127] at h
    obtain ⟨hn, hle, -, -⟩ := takeKey_consumed hcap h
    rw [hn] at hle
    have hseven : (takeHeader raw old).payloadLen.toNat ≤ 125 := by
      have hlt : (takeHeader raw old).payloadLen.toNat < 128 := by
        show (raw 1 &&& 0x7F).toNat < 128
        rw [UInt8.toNat_and]
        exact Nat.and_lt_two_pow _ (show (0x7F : UInt8).toNat < 2 ^ 7 by decide)
      have hne : ∀ k : UInt8, (takeHeader raw old).payloadLen ≠ k →
          (takeHeader raw old).payloadLen.toNat ≠ k.toNat := fun k hk h => hk (UInt8.toNat.inj h)
      have h6 : _ ≠ 126 := hne 126 h126
      have h7 : _ ≠ 127 := hne 127 h127
      omega
    refine ⟨_, @starts_frameOf raw capacity (.seven _ hseven) ?_ rfl ?_⟩
    · exact UInt8.ofNat_toNat.symm
    · rw [UInt8.toNat_toUInt64] at hle
      exact hle

end FrameOf

/-- A packet that is not taken leaves the buffer of the payload as it is. -/
theorem payload_of_not_consumed {raw : Mem} {capacity : Nat} {old : WebSocketEntity}
    (h : (toWebsocketEntityConsumed raw capacity old).1 = 0) :
    (toWebsocketEntityConsumed raw capacity old).2.payload = old.payload := by
  have hpayload : ∀ (e : WebSocketEntity) (offset : Nat), 0 < offset →
      (takePayload raw capacity e offset).1 = 0 → (takePayload raw capacity e offset).2.payload = e.payload := by
    intro e offset hpos h
    rw [takePayload] at h ⊢
    split
    · rfl
    · rw [if_neg ‹_›] at h
      exact absurd h (by dsimp only; omega)
  have hkey : ∀ (e : WebSocketEntity) (offset : Nat), 0 < offset →
      (takeKey raw capacity e offset).1 = 0 → (takeKey raw capacity e offset).2.payload = e.payload := by
    intro e offset hpos h
    rw [takeKey] at h ⊢
    split_ifs at h ⊢
    · rfl
    · exact hpayload _ _ (by omega) h
    · exact hpayload _ _ hpos h
  rw [toWebsocketEntityConsumed] at h ⊢
  dsimp only at h ⊢
  split_ifs at h ⊢
  · rfl
  · rfl
  · rfl
  · exact hkey _ 4 (by decide) h
  · rfl
  · exact hkey _ 10 (by decide) h
  · exact hkey _ 2 (by decide) h

/-- **The decoder is exact**: it takes the bytes that start with a frame, the whole frame and
nothing else, leaves it in the entity, writes no more bytes of the payload's buffer than it
takes, and reads no byte behind the packet. -/
theorem decoder_exact (raw : Mem) (capacity : UInt64) (old : WebSocketEntity) :
    (0 < (value (toWebsocketEntityConsumedAt capacity old) raw).1 ↔
        ∃ f : WireFrame, f.StartsIn raw capacity.toNat) ∧
      (∀ f : WireFrame, f.StartsIn raw capacity.toNat →
        (value (toWebsocketEntityConsumedAt capacity old) raw).1.toNat = f.bytes.length ∧
          f.HeldBy (value (toWebsocketEntityConsumedAt capacity old) raw).2) ∧
      (∀ i, (value (toWebsocketEntityConsumedAt capacity old) raw).1.toNat ≤ i →
        (value (toWebsocketEntityConsumedAt capacity old) raw).2.payload i = old.payload i) ∧
      (toWebsocketEntityConsumedAt capacity old).Within raw (· < capacity.toNat) := by
  set r := toWebsocketEntityConsumed raw capacity.toNat old with hr
  have hvalue : value (toWebsocketEntityConsumedAt capacity old) raw = ((outcome r).1.getD 0, r.2) := by
    rw [toWebsocketEntityConsumedAt, value_bind, value_pure, value_entityConsumedAt, outcome]
  have hlength : ((outcome r).1.getD 0).toNat = r.1 := by
    rw [outcome]
    by_cases hzero : r.1 = 0
    · rw [if_pos hzero, hzero]
      rfl
    · have hle : r.1 ≤ capacity.toNat := (frameLength_le_consumed hzero).2
      have hcapacity := capacity.toNat_lt
      rw [if_neg hzero, Option.getD_some, UInt64.toNat_ofNat_of_lt' (show _ < 2 ^ 64 by omega)]
  have hstarts : r.1 ≠ 0 ↔ ∃ f : WireFrame, f.StartsIn raw capacity.toNat := by
    refine ⟨exists_starts, ?_⟩
    rintro ⟨f, hf⟩
    rw [hr, (entityConsumed_of_starts hf old).1, f.length_bytes]
    omega
  rw [hvalue]
  refine ⟨?_, fun f hf => ?_, fun i hi => ?_, ?_⟩
  · rw [UInt64.lt_iff_toNat_lt, hlength, ← hstarts]
    exact Nat.pos_iff_ne_zero
  · rw [hlength]
    exact ⟨(entityConsumed_of_starts hf old).1, (entityConsumed_of_starts hf old).2.1⟩
  · rw [hlength] at hi
    show r.2.payload i = old.payload i
    by_cases hzero : r.1 = 0
    · exact congrFun (payload_of_not_consumed hzero) i
    · obtain ⟨f, hf⟩ := hstarts.mp hzero
      obtain ⟨hlen, -, hpayload⟩ := entityConsumed_of_starts hf old
      rw [hr, hlen, f.length_bytes] at hi
      rw [hr, hpayload, writeAt_of_ge (by rw [List.length_append, List.length_singleton]; omega)]
  · rw [toWebsocketEntityConsumedAt]
    exact within_bind (within_entityConsumedAt capacity old) (within_pure _)

end OnionRelay.Websocket
