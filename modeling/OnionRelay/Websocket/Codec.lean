import Mathlib.Algebra.Order.Ring.Nat
import Mathlib.Tactic.Common
import OnionRelay.Websocket.Frame

/-!
# The codec of frames

For a payload of at most 0xFFFF bytes the packet is the frame
(`toWebsocketPacket_short`).  The loop that writes a longer length shifts the
length out of its variable, and no byte of the payload is copied
(`toWebsocketPacket_long`).

A frame is read whole whatever its length (`entityConsumed_frameBytes`), so what
`toWebsocketPacket` gets wrong is all that is wrong: `roundTrips_iff`.
-/

namespace OnionRelay.Websocket

open OnionRelay.Lib

/-! ## Reading a frame -/

/-- What is read of a frame: one bit of each flag, four of the opcode, the mask as
a bit and all of the payload. -/
structure ReadFrom (parsed entity : WebSocketEntity) : Prop where
  fin : parsed.fin = entity.fin &&& 1
  rsv1 : parsed.rsv1 = entity.rsv1 &&& 1
  rsv2 : parsed.rsv2 = entity.rsv2 &&& 1
  rsv3 : parsed.rsv3 = entity.rsv3 &&& 1
  opcode : parsed.opcode = entity.opcode &&& 0x0F
  mask : parsed.mask = if entity.mask ≠ 0 then 1 else 0
  extPayloadLen : parsed.extPayloadLen = entity.extPayloadLen
  maskingKey : entity.mask ≠ 0 → parsed.maskingKey = entity.maskingKey
  payload : readAt parsed.payload 0 entity.extPayloadLen.toNat =
    readAt entity.payload 0 entity.extPayloadLen.toNat

theorem unmask_eq (entity : WebSocketEntity) (raw : Mem) (offset n : Nat) :
    unmask entity raw offset n = writeAt entity.payload 0 (readAt (fun i =>
      raw (offset + i) ^^^ (if entity.mask ≠ 0 then entity.keyByte i else 0)) 0 n) := by
  induction n with
  | zero =>
    funext a
    rw [writeAt_of_ge (by simp), unmask]
  | succ n ih =>
    rw [unmask, ih, writeAt_append _ _ _ _ (by simp), readAt_add]
    simp [readAt]

/-- Unmasking undoes masking. -/
theorem takePayload_eq (parsed entity : WebSocketEntity) {raw : Mem} {capacity offset : Nat}
    (hext : parsed.extPayloadLen = entity.extPayloadLen)
    (hmask : parsed.mask = 0 ↔ entity.mask = 0)
    (hkey : entity.mask ≠ 0 → parsed.maskingKey = entity.maskingKey)
    (hraw : readAt raw offset entity.extPayloadLen.toNat =
      readAt entity.wire 0 entity.extPayloadLen.toNat)
    (hcap : offset + entity.extPayloadLen.toNat ≤ capacity) :
    ∃ payload, takePayload raw capacity parsed offset =
        (offset + entity.extPayloadLen.toNat, { parsed with payload := payload }) ∧
      readAt payload 0 entity.extPayloadLen.toNat =
        readAt entity.payload 0 entity.extPayloadLen.toNat := by
  have hfits : ¬ capacity - offset < parsed.extPayloadLen.toNat := by rw [hext]; omega
  refine ⟨writeAt (unmask parsed raw offset entity.extPayloadLen.toNat)
    entity.extPayloadLen.toNat [0], ?_, ?_⟩
  · rw [takePayload, if_neg hfits, hext]
  rw [readAt_writeAt_of_disjoint (.inl (by omega)), unmask_eq,
    readAt_writeAt_same _ _ _ (by simp)]
  refine readAt_congr fun i hi => ?_
  have hbyte : raw (offset + i) = entity.wire (0 + i) := by
    have hget := List.getElem_of_eq hraw (i := i) (by simpa using hi)
    rwa [getElem_readAt, getElem_readAt] at hget
  simp only [Nat.zero_add] at hbyte ⊢
  rw [hbyte, WebSocketEntity.wire]
  by_cases hm : entity.mask = 0
  · rw [if_neg (not_not.mpr hm), if_neg (not_not.mpr (hmask.mpr hm))]
    simp
  · rw [if_pos hm, if_pos fun h => hm (hmask.mp h), WebSocketEntity.keyByte,
      WebSocketEntity.keyByte, hkey hm, UInt8.xor_assoc, UInt8.xor_self, UInt8.xor_zero]

theorem takeKey_eq (parsed entity : WebSocketEntity) {raw : Mem} {capacity offset n : Nat}
    (hext : parsed.extPayloadLen = entity.extPayloadLen)
    (hmask : parsed.mask = 0 ↔ entity.mask = 0)
    (hraw : readAt raw offset n =
      entity.keyBytes ++ readAt entity.wire 0 entity.extPayloadLen.toNat)
    (hcap : offset + n ≤ capacity) :
    ∃ key payload, takeKey raw capacity parsed offset =
        (offset + n, { parsed with maskingKey := key, payload := payload }) ∧
      (entity.mask ≠ 0 → key = entity.maskingKey) ∧
      readAt payload 0 entity.extPayloadLen.toNat =
        readAt entity.payload 0 entity.extPayloadLen.toNat := by
  have hn : n = entity.keyBytes.length + entity.extPayloadLen.toNat := by
    rw [← length_readAt raw offset n, hraw, List.length_append, length_readAt]
  obtain ⟨hkeyBytes, hwire⟩ := readAt_eq_append hraw
  rw [length_readAt] at hwire
  rw [takeKey]
  by_cases hm : entity.mask = 0
  · have hno : entity.keyBytes = [] := by rw [WebSocketEntity.keyBytes, if_neg (not_not.mpr hm)]
    rw [hno] at hn hwire
    rw [if_neg (not_not.mpr (hmask.mpr hm))]
    simp only [List.length_nil, Nat.zero_add, Nat.add_zero] at hn hwire
    obtain ⟨payload, htake, hpayload⟩ :=
      takePayload_eq parsed entity hext hmask (fun h => absurd hm h) hwire
        (show offset + entity.extPayloadLen.toNat ≤ capacity by omega)
    exact ⟨parsed.maskingKey, payload, by rw [htake, hn], fun h => absurd hm h, hpayload⟩
  · have hkey : entity.keyBytes = entity.maskingKey.toList := by
      rw [WebSocketEntity.keyBytes, if_pos hm]
    have hfour : entity.keyBytes.length = 4 := by rw [hkey, Vector.length_toList]
    rw [hfour] at hn hwire hkeyBytes
    have htaken : Vector.ofFn (fun i : Fin 4 => raw (offset + i.val)) = entity.maskingKey := by
      rw [hkey] at hkeyBytes
      refine Vector.ext fun i hi => ?_
      have hget := List.getElem_of_eq hkeyBytes (i := i) (by simpa using hi)
      rw [getElem_readAt] at hget
      rw [Vector.getElem_ofFn, hget, Vector.getElem_toList]
    rw [if_pos fun h => hm (hmask.mp h), if_neg (by omega), htaken]
    obtain ⟨payload, htake, hpayload⟩ :=
      takePayload_eq { parsed with maskingKey := entity.maskingKey } entity hext hmask
        (fun _ => rfl) hwire (show offset + 4 + entity.extPayloadLen.toNat ≤ capacity by omega)
    exact ⟨entity.maskingKey, payload, by rw [htake, hn, Nat.add_assoc], fun _ => rfl, hpayload⟩

/-- The two header bytes and what stands behind the length. -/
theorem readAt_frameBytes {entity : WebSocketEntity} {raw : Mem}
    (hraw : readAt raw 0 entity.frameLength = entity.frameBytes) :
    raw 0 = entity.firstByte ∧
      readAt raw 1 entity.lengthBytes.length = entity.lengthBytes ∧
      readAt raw (1 + entity.lengthBytes.length)
          (entity.frameLength - (1 + entity.lengthBytes.length)) =
        entity.keyBytes ++ readAt entity.wire 0 entity.extPayloadLen.toNat := by
  have hn := entity.length_frameBytes
  rw [WebSocketEntity.frameBytes, List.append_assoc] at hraw
  rw [WebSocketEntity.frameBytes, List.append_assoc, List.length_append, List.length_append,
    List.length_singleton] at hn
  obtain ⟨hhead, hbody⟩ := readAt_eq_append hraw
  obtain ⟨hfirst, hlength⟩ := readAt_eq_append hhead
  refine ⟨readAt_singleton hfirst, by simpa using hlength, ?_⟩
  rw [show entity.frameLength - (1 + entity.lengthBytes.length) =
    (entity.keyBytes ++ readAt entity.wire 0 entity.extPayloadLen.toNat).length by omega]
  simpa only [List.length_append, List.length_singleton, Nat.zero_add] using hbody

/-- What the header becomes, whatever is read behind it. -/
theorem takeHeader_readFrom {entity : WebSocketEntity} {raw : Mem} {b : UInt8}
    (hb : b.toNat < 128) (hfirst : raw 0 = entity.firstByte)
    (hsecond : raw 1 = entity.maskBit ||| b) (old : WebSocketEntity) :
    (takeHeader raw old).payloadLen = b ∧ ((takeHeader raw old).mask = 0 ↔ entity.mask = 0) ∧
      ∀ {key payload}, (entity.mask ≠ 0 → key = entity.maskingKey) →
        readAt payload 0 entity.extPayloadLen.toNat =
          readAt entity.payload 0 entity.extPayloadLen.toNat →
        ReadFrom { takeHeader raw old with
          extPayloadLen := entity.extPayloadLen, maskingKey := key, payload := payload } entity := by
  obtain ⟨hfin, hrsv1, hrsv2, hrsv3, hopcode⟩ := firstByte_fields entity
  obtain ⟨hmask, hlen⟩ := maskBit_or entity hb
  have hbit : (takeHeader raw old).mask = if entity.mask ≠ 0 then 1 else 0 := by
    rw [← hmask, ← hsecond]
    rfl
  refine ⟨?_, ?_, fun hkey hpayload => ?_⟩
  · rw [← hlen, ← hsecond]
    rfl
  · rw [hbit]
    split <;> simp_all
  · refine ⟨?_, ?_, ?_, ?_, ?_, hbit, rfl, hkey, hpayload⟩
    · rw [← hfin, ← hfirst]; rfl
    · rw [← hrsv1, ← hfirst]; rfl
    · rw [← hrsv2, ← hfirst]; rfl
    · rw [← hrsv3, ← hfirst]; rfl
    · rw [← toUInt32_nibble, ← hopcode, ← hfirst]; rfl

/-- Behind the length there is no difference between the encodings. -/
theorem takeKey_frameBytes {entity : WebSocketEntity} {raw : Mem} {capacity : Nat} {b : UInt8}
    (hraw : readAt raw 0 entity.frameLength = entity.frameBytes)
    (hcap : entity.frameLength ≤ capacity) (hb : b.toNat < 128)
    (hsecond : raw 1 = entity.maskBit ||| b) (old : WebSocketEntity) :
    ∃ parsed, takeKey raw capacity
        { takeHeader raw old with extPayloadLen := entity.extPayloadLen }
        (1 + entity.lengthBytes.length) = (entity.frameLength, parsed) ∧
      ReadFrom parsed entity := by
  have hlen := entity.length_frameBytes
  rw [WebSocketEntity.frameBytes, List.append_assoc, List.length_append, List.length_append,
    List.length_singleton] at hlen
  obtain ⟨hfirst, -, hbehind⟩ := readAt_frameBytes hraw
  obtain ⟨-, hmask, hread⟩ := takeHeader_readFrom hb hfirst hsecond old
  obtain ⟨key, payload, htake, hkey, hpayload⟩ :=
    takeKey_eq { takeHeader raw old with extPayloadLen := entity.extPayloadLen } entity rfl hmask
      hbehind (Nat.le_trans (Nat.le_of_eq (Nat.add_sub_cancel' (by omega))) hcap)
  refine ⟨_, ?_, hread hkey hpayload⟩
  rw [htake, Nat.add_sub_cancel' (by omega)]

/-! The three encodings of the length. -/

theorem entityConsumed_seven {raw : Mem} {capacity : Nat} {old : WebSocketEntity}
    (hcap : 2 ≤ capacity) (h126 : (takeHeader raw old).payloadLen ≠ 126)
    (h127 : (takeHeader raw old).payloadLen ≠ 127) :
    toWebsocketEntityConsumed raw capacity old = takeKey raw capacity
      { takeHeader raw old with
        extPayloadLen := (takeHeader raw old).payloadLen.toUInt64 } 2 := by
  rw [toWebsocketEntityConsumed, if_neg (by omega)]
  dsimp only
  rw [if_neg h126, if_neg h127]

theorem takeTwo_eq (raw : Mem) :
    ((raw 2).toUInt64 <<< 8) ||| (raw 3).toUInt64 = takeLength raw 2 2 := by
  rw [takeLength, takeLength, takeLength, UInt64.zero_shiftLeft, UInt64.zero_or]

theorem entityConsumed_two {raw : Mem} {capacity : Nat} {old : WebSocketEntity}
    (h126 : (takeHeader raw old).payloadLen = 126)
    (hcap : 4 ≤ capacity) (hlen : (takeLength raw 2 2).toNat ≤ capacity) :
    toWebsocketEntityConsumed raw capacity old = takeKey raw capacity
      { takeHeader raw old with extPayloadLen := takeLength raw 2 2 } 4 := by
  rw [toWebsocketEntityConsumed, if_neg (by omega)]
  dsimp only
  rw [if_pos h126, if_neg (by omega), takeTwo_eq, if_neg (by omega)]

theorem entityConsumed_eight {raw : Mem} {capacity : Nat} {old : WebSocketEntity}
    (h127 : (takeHeader raw old).payloadLen = 127) (hcap : 10 ≤ capacity) :
    toWebsocketEntityConsumed raw capacity old = takeKey raw capacity
      { takeHeader raw old with extPayloadLen := takeLength raw 2 8 } 10 := by
  rw [toWebsocketEntityConsumed, if_neg (by omega)]
  dsimp only
  rw [if_neg (by rw [h127]; decide), if_pos h127, if_neg (by omega)]

/-- A length that was written high byte first is read back. -/
theorem takeLength_eq {raw : Mem} {offset n : Nat} {len : UInt64} (hn : n ≤ 8)
    (hlen : len.toNat < 256 ^ n) (hraw : readAt raw offset n = (toLE n len.toNat).reverse) :
    takeLength raw offset n = len := by
  apply UInt64.toNat.inj
  rw [toNat_takeLength raw offset hn, hraw, List.reverse_reverse, ofLE_toLE_of_lt hlen]

/-- **A frame is read whole, whatever its length.** -/
theorem entityConsumed_frameBytes {entity : WebSocketEntity} {raw : Mem} {capacity : Nat}
    (hraw : readAt raw 0 entity.frameLength = entity.frameBytes)
    (hcap : entity.frameLength ≤ capacity) (old : WebSocketEntity) :
    ∃ parsed, toWebsocketEntityConsumed raw capacity old = (entity.frameLength, parsed) ∧
      ReadFrom parsed entity := by
  obtain ⟨hfirst, hlength, -⟩ := readAt_frameBytes hraw
  have hlen := entity.length_frameBytes
  rw [WebSocketEntity.frameBytes, List.length_append, List.length_append, List.length_append,
    List.length_singleton, length_readAt] at hlen
  by_cases h125 : entity.extPayloadLen ≤ 125
  · -- the length is the seven bits of the second byte
    have hle : entity.extPayloadLen.toNat ≤ 125 := UInt64.le_iff_toNat_le.mp h125
    have hbyte : entity.extPayloadLen.toUInt8.toNat = entity.extPayloadLen.toNat := by
      rw [UInt64.toNat_toUInt8]
      omega
    have hbytes : entity.lengthBytes = [entity.maskBit ||| entity.extPayloadLen.toUInt8] := by
      rw [WebSocketEntity.lengthBytes, if_pos h125]
    have hsecond : raw 1 = entity.maskBit ||| entity.extPayloadLen.toUInt8 := by
      rw [hbytes] at hlength
      exact readAt_singleton hlength
    have hseven := (takeHeader_readFrom (by omega) hfirst hsecond old).1
    have hne : ∀ k : UInt8, 125 < k.toNat → (takeHeader raw old).payloadLen ≠ k := by
      rintro k hk rfl
      rw [hseven] at hk
      omega
    have hback : (takeHeader raw old).payloadLen.toUInt64 = entity.extPayloadLen := by
      apply UInt64.toNat.inj
      rw [hseven, UInt8.toNat_toUInt64, hbyte]
    have htake := takeKey_frameBytes hraw hcap (by omega) hsecond old
    rw [hbytes, List.length_singleton] at htake hlen
    rw [entityConsumed_seven (by omega) (hne 126 (by decide)) (hne 127 (by decide)), hback]
    exact htake
  have hbig : 125 < entity.extPayloadLen.toNat := by
    have hnot := mt UInt64.le_iff_toNat_le.mpr h125
    exact Nat.lt_of_not_le hnot
  by_cases h16 : entity.extPayloadLen ≤ 0xFFFF
  · -- two bytes behind the second
    have hbytes : entity.lengthBytes =
        (entity.maskBit ||| 126) :: (toLE 2 entity.extPayloadLen.toNat).reverse := by
      rw [WebSocketEntity.lengthBytes, if_neg h125, if_pos h16]
    have hlt : entity.extPayloadLen.toNat < 256 ^ 2 :=
      Nat.lt_succ_of_le (UInt64.le_iff_toNat_le.mp h16)
    rw [hbytes] at hlength
    obtain ⟨hsecond, htwo⟩ := readAt_cons hlength
    rw [List.length_reverse, length_toLE] at htwo
    have hback := takeLength_eq (by omega) hlt htwo
    have hseven := (takeHeader_readFrom (b := 126) (by decide) hfirst hsecond old).1
    have htake := takeKey_frameBytes hraw hcap (b := 126) (by decide) hsecond old
    rw [hbytes, List.length_cons, List.length_reverse, length_toLE] at htake hlen
    rw [entityConsumed_two hseven (by omega) (by rw [hback]; omega), hback]
    exact htake
  · -- eight bytes behind it
    have hbytes : entity.lengthBytes =
        (entity.maskBit ||| 127) :: (toLE 8 entity.extPayloadLen.toNat).reverse := by
      rw [WebSocketEntity.lengthBytes, if_neg h125, if_neg h16]
    rw [hbytes] at hlength
    obtain ⟨hsecond, height⟩ := readAt_cons hlength
    rw [List.length_reverse, length_toLE] at height
    have hback := takeLength_eq (by omega) entity.extPayloadLen.toNat_lt height
    have hseven := (takeHeader_readFrom (b := 127) (by decide) hfirst hsecond old).1
    have htake := takeKey_frameBytes hraw hcap (b := 127) (by decide) hsecond old
    rw [hbytes, List.length_cons, List.length_reverse, length_toLE] at htake hlen
    rw [entityConsumed_eight hseven (by omega), hback]
    exact htake

/-! ## Writing a frame -/

theorem wire_masked {entity : WebSocketEntity} (hm : entity.mask ≠ 0) (i : Nat) :
    entity.wire i = entity.payload i ^^^ entity.keyByte i := by
  rw [WebSocketEntity.wire, if_pos hm]

theorem wire_unmasked {entity : WebSocketEntity} (hm : entity.mask = 0) :
    entity.wire = entity.payload := by
  funext i
  rw [WebSocketEntity.wire, if_neg (not_not.mpr hm), UInt8.xor_zero]

theorem maskTail_eq {entity : WebSocketEntity} (hm : entity.mask ≠ 0) (offset len : Nat)
    (raw : Mem) (i : Nat) :
    maskTail entity offset len raw i =
      writeAt raw (offset + i) (readAt entity.wire i (len - i)) := by
  induction raw, i using maskTail.induct entity offset len with
  | case1 raw i hi ih =>
    have hsplit : len - i = 1 + (len - (i + 1)) := by omega
    rw [maskTail, if_pos hi, ih, hsplit, readAt_add, readAt_one, wire_masked hm]
    exact writeAt_append _ _ _ _ rfl
  | case2 raw i hi =>
    rw [maskTail, if_neg hi, Nat.sub_eq_zero_of_le (Nat.le_of_not_lt hi)]
    exact (writeAt_nil raw _).symm

/-- A group writes the four bytes that four rounds of the other loop would. -/
theorem maskTail_maskGroups {entity : WebSocketEntity} (hm : entity.mask ≠ 0) (offset len : Nat)
    (raw : Mem) {i : Nat} (hfour : i % 4 = 0) :
    maskTail entity offset len (maskGroups entity offset len raw i).2
        (maskGroups entity offset len raw i).1 =
      writeAt raw (offset + i) (readAt entity.wire i (len - i)) := by
  induction raw, i using maskGroups.induct entity offset len with
  | case1 raw i hi a b c d ih =>
    have hsplit : len - i = 4 + (len - (i + 4)) := by omega
    have hkey : ∀ j (hj : j < 4), entity.keyByte (i + j) = entity.maskingKey[j] := by
      intro j hj
      have hmod : (i + j) % 4 = j := by omega
      simp [WebSocketEntity.keyByte, Fin.ofNat, hmod, Vector.get]
    have hgroup : d = writeAt raw (offset + i) (readAt entity.wire i 4) := by
      have hbytes : readAt entity.wire i 4 = [entity.wire (i + 0)] ++ [entity.wire (i + 1)] ++
          [entity.wire (i + 2)] ++ [entity.wire (i + 3)] := by
        simp [readAt, List.range_succ]
      rw [hbytes, wire_masked hm, wire_masked hm, wire_masked hm, wire_masked hm,
        hkey 0 (by omega), hkey 1 (by omega), hkey 2 (by omega), hkey 3 (by omega),
        ← writeAt_append _ _ _ _ rfl, ← writeAt_append _ _ _ _ rfl, ← writeAt_append _ _ _ _ rfl]
      rfl
    rw [maskGroups, if_pos hi]
    show maskTail entity offset len (maskGroups entity offset len d (i + 4)).2
      (maskGroups entity offset len d (i + 4)).1 = _
    rw [ih (by omega), hgroup, hsplit, readAt_add]
    exact writeAt_append _ _ _ _ (by rw [length_readAt, Nat.add_assoc])
  | case2 raw i hi =>
    rw [maskGroups, if_neg hi]
    exact maskTail_eq hm offset len raw i

theorem putPayload_eq (entity : WebSocketEntity) {capacity offset : Nat} (raw : Mem)
    {len : UInt64} (hcap : offset + len.toNat ≤ capacity) :
    putPayload entity capacity raw offset len =
      (offset + len.toNat, writeAt raw offset (readAt entity.wire 0 len.toNat)) := by
  rw [putPayload]
  dsimp only
  rw [if_neg (Nat.not_lt.mpr hcap)]
  by_cases hm : entity.mask = 0
  · rw [if_neg (not_not.mpr hm), wire_unmasked hm]
  · rw [if_pos hm, maskTail_maskGroups hm offset len.toNat raw (Nat.zero_mod 4)]
    rfl

theorem putKey_eq (entity : WebSocketEntity) {capacity offset : Nat} (raw : Mem)
    {len : UInt64} (hcap : offset + entity.keyBytes.length + len.toNat ≤ capacity) :
    putKey entity capacity raw offset len =
      (offset + entity.keyBytes.length + len.toNat,
        writeAt raw offset (entity.keyBytes ++ readAt entity.wire 0 len.toNat)) := by
  rw [putKey]
  by_cases hm : entity.mask = 0
  · have hno : entity.keyBytes = [] := by rw [WebSocketEntity.keyBytes, if_neg (not_not.mpr hm)]
    rw [hno, List.length_nil, Nat.add_zero] at hcap
    rw [if_neg (not_not.mpr hm), putPayload_eq entity raw hcap, hno]
    rfl
  · have hkey : entity.keyBytes = entity.maskingKey.toList := by
      rw [WebSocketEntity.keyBytes, if_pos hm]
    have hfour : entity.keyBytes.length = 4 := by rw [hkey, Vector.length_toList]
    rw [hfour] at hcap
    rw [if_pos hm, if_neg (by omega), putPayload_eq entity _ hcap, hfour, ← hkey,
      writeAt_append _ _ _ _ (by rw [hfour])]

theorem toNat_putLength (raw : Mem) (offset : Nat) (len : UInt64) (n : Nat) :
    (putLength raw offset len n).1.toNat = len.toNat / 256 ^ n := by
  induction n generalizing raw len with
  | zero => simp [putLength]
  | succ n ih =>
    have hshift : (len >>> 8).toNat = len.toNat / 256 := Nat.shiftRight_eq_div_pow _ 8
    rw [putLength, ih, hshift, Nat.div_div_eq_div_mul, Nat.pow_succ, Nat.mul_comm]

theorem lt_of_not_le {len bound : UInt64} (h : ¬ len ≤ bound) : bound < len := UInt64.not_le.mp h

/-- The two bytes of a length of at most 0xFFFF. -/
theorem twoBytes_eq (len : UInt64) :
    [((len >>> 8) &&& 0xFF).toUInt8] ++ [(len &&& 0xFF).toUInt8] =
      (toLE 2 len.toNat).reverse := by
  have hand : ∀ x : UInt64, (x &&& 0xFF).toUInt8 = UInt8.ofNat x.toNat := by
    intro x
    apply UInt8.toNat.inj
    rw [UInt64.toNat_toUInt8, UInt64.toNat_and, UInt8.toNat_ofNat']
    have hmod : x.toNat &&& (0xFF : UInt64).toNat = x.toNat % 256 :=
      Nat.and_two_pow_sub_one_eq_mod x.toNat 8
    rw [hmod, Nat.mod_mod]
  have hshift : (len >>> 8).toNat = len.toNat / 256 := Nat.shiftRight_eq_div_pow _ 8
  rw [hand, hand, hshift]
  rfl

theorem writeHeader (raw : Mem) (a b : UInt8) (rest : List UInt8) :
    writeAt (writeAt (writeAt raw 0 [a]) 1 [b]) 2 rest = writeAt raw 0 ([a] ++ [b] ++ rest) := by
  have htwo : writeAt (writeAt raw 0 [a]) 1 [b] = writeAt raw 0 ([a] ++ [b]) :=
    writeAt_append _ _ _ _ rfl
  rw [htwo]
  exact writeAt_append _ _ _ _ rfl

theorem writeLongHeader (raw : Mem) (a b c d : UInt8) (rest : List UInt8) :
    writeAt (writeAt (writeAt (writeAt (writeAt raw 0 [a]) 1 [b]) 2 [c]) 3 [d]) 4 rest =
      writeAt raw 0 ([a] ++ [b] ++ ([c] ++ [d]) ++ rest) := by
  have hfour : writeAt (writeAt raw 0 ([a] ++ [b] ++ [c])) 3 [d] =
      writeAt raw 0 ([a] ++ [b] ++ [c] ++ [d]) := writeAt_append _ _ _ _ rfl
  rw [writeHeader, hfour, List.append_assoc ([a] ++ [b])]
  exact writeAt_append _ _ _ _ rfl

/-- **A packet of at most 0xFFFF bytes of payload is the frame.** -/
theorem toWebsocketPacket_short {entity : WebSocketEntity} {capacity : Nat}
    (hshort : entity.extPayloadLen ≤ 0xFFFF) (hcap : entity.frameLength ≤ capacity) (raw : Mem) :
    toWebsocketPacket entity capacity raw =
      (entity.frameLength, writeAt raw 0 entity.frameBytes) := by
  have hlen := entity.length_frameBytes
  rw [WebSocketEntity.frameBytes, List.append_assoc, List.length_append, List.length_append,
    List.length_append, List.length_singleton, length_readAt] at hlen
  rw [toWebsocketPacket, WebSocketEntity.frameBytes, List.append_assoc]
  dsimp only
  by_cases h125 : entity.extPayloadLen ≤ 125
  · have hle : entity.extPayloadLen.toNat ≤ 125 := UInt64.le_iff_toNat_le.mp h125
    have hbytes : entity.lengthBytes = [entity.maskBit ||| entity.extPayloadLen.toUInt8] := by
      rw [WebSocketEntity.lengthBytes, if_pos h125]
    rw [hbytes, List.length_singleton] at hlen
    rw [if_neg (by omega), hbytes]
    by_cases hm : entity.mask = 0
    · -- the fast path
      have hno : entity.keyBytes = [] := by rw [WebSocketEntity.keyBytes, if_neg (not_not.mpr hm)]
      have hbit : entity.maskBit = 0 := by rw [WebSocketEntity.maskBit, if_neg (not_not.mpr hm)]
      have hseven : (entity.extPayloadLen &&& 0x7F).toUInt8 =
          entity.maskBit ||| entity.extPayloadLen.toUInt8 := by
        rw [hbit, UInt8.zero_or, UInt64.toUInt8_and]
        exact and_127 _ (by rw [UInt64.toNat_toUInt8]; omega)
      rw [hno, List.length_nil] at hlen
      rw [if_pos ⟨h125, hm⟩, hno, hseven, wire_unmasked hm, writeHeader, ← hlen, Nat.zero_add,
        List.nil_append]
    · rw [if_neg fun h => hm h.2, if_neg fun h => UInt64.not_le.mpr h.1 h125,
        if_neg (UInt64.not_lt.mpr hshort), putKey_eq entity _ (by omega), writeHeader, ← hlen,
        Nat.add_assoc]
  · have hbytes : entity.lengthBytes =
        (entity.maskBit ||| 126) :: (toLE 2 entity.extPayloadLen.toNat).reverse := by
      rw [WebSocketEntity.lengthBytes, if_neg h125, if_pos hshort]
    rw [hbytes, List.length_cons, List.length_reverse, length_toLE] at hlen
    rw [if_neg (by omega), if_neg fun h => h125 h.1, if_pos ⟨lt_of_not_le h125, hshort⟩,
      if_neg (by omega), putKey_eq entity _ (by omega), writeLongHeader, twoBytes_eq, ← hlen,
      hbytes, Nat.add_assoc]
    simp

/-- The loop over a longer length leaves nothing of it: no payload is copied, and
none is counted. -/
theorem toWebsocketPacket_long {entity : WebSocketEntity} {capacity : Nat}
    (hlong : 0xFFFF < entity.extPayloadLen) (hcap : entity.frameLength ≤ capacity) (raw : Mem) :
    (toWebsocketPacket entity capacity raw).1 + entity.extPayloadLen.toNat =
      entity.frameLength := by
  have hno : ¬ entity.extPayloadLen ≤ 0xFFFF := UInt64.not_le.mpr hlong
  have h125 : ¬ entity.extPayloadLen ≤ 125 := fun h =>
    hno (UInt64.le_trans h (by decide))
  have hlen := entity.length_frameBytes
  have hbytes : entity.lengthBytes.length = 9 := by
    rw [WebSocketEntity.lengthBytes, if_neg h125, if_neg hno]
    simp
  rw [WebSocketEntity.frameBytes, List.length_append, List.length_append, List.length_append,
    List.length_singleton, length_readAt, hbytes] at hlen
  have hleft : ∀ raw, (putLength raw 2 entity.extPayloadLen 8).1.toNat = 0 := by
    intro raw
    rw [toNat_putLength]
    exact Nat.div_eq_of_lt entity.extPayloadLen.toNat_lt
  rw [toWebsocketPacket]
  dsimp only
  rw [if_neg (by omega), if_neg fun h => h125 h.1, if_neg fun h => hno h.2, if_pos hlong,
    if_neg (by omega), putKey_eq entity _ (by rw [hleft]; omega), hleft]
  dsimp only
  omega

/-! ## The round trip -/

structure SameFrame (parsed entity : WebSocketEntity) : Prop where
  fin : parsed.fin = entity.fin
  rsv1 : parsed.rsv1 = entity.rsv1
  rsv2 : parsed.rsv2 = entity.rsv2
  rsv3 : parsed.rsv3 = entity.rsv3
  opcode : parsed.opcode = entity.opcode
  mask : parsed.mask = entity.mask
  extPayloadLen : parsed.extPayloadLen = entity.extPayloadLen
  payload : readAt parsed.payload 0 entity.extPayloadLen.toNat =
    readAt entity.payload 0 entity.extPayloadLen.toNat

/-- Written into any buffer that has room for the frame, the packet has the frame's
length and is read back as the frame. -/
def RoundTrips (entity : WebSocketEntity) : Prop :=
  ∀ (capacity : Nat) (raw : Mem) (old : WebSocketEntity), entity.frameLength ≤ capacity →
    let packet := toWebsocketPacket entity capacity raw
    let parsed := toWebsocketEntityConsumed packet.2 packet.1 old
    packet.1 = entity.frameLength ∧ parsed.1 = entity.frameLength ∧ SameFrame parsed.2 entity

/-- The flags are single bits, and the opcode has four. -/
structure HeaderFits (entity : WebSocketEntity) : Prop where
  fin : entity.fin < 2
  rsv1 : entity.rsv1 < 2
  rsv2 : entity.rsv2 < 2
  rsv3 : entity.rsv3 < 2
  opcode : entity.opcode < 16
  mask : entity.mask < 2

theorem and_one_eq_iff (b : UInt8) : b &&& 1 = b ↔ b < 2 := by
  have hmod : b.toNat &&& (1 : UInt8).toNat = b.toNat % 2 := Nat.and_one_is_mod b.toNat
  rw [← UInt8.toNat_inj, UInt8.toNat_and, hmod, UInt8.lt_iff_toNat_lt]
  show _ ↔ b.toNat < 2
  omega

theorem and_nibble_eq_iff (x : UInt32) : x &&& 0x0F = x ↔ x < 16 := by
  have hmod : x.toNat &&& (0x0F : UInt32).toNat = x.toNat % 16 :=
    Nat.and_two_pow_sub_one_eq_mod x.toNat 4
  rw [← UInt32.toNat_inj, UInt32.toNat_and, hmod, UInt32.lt_iff_toNat_lt]
  show _ ↔ x.toNat < 16
  omega

theorem bit_eq_iff (b : UInt8) : (if b ≠ 0 then 1 else 0) = b ↔ b < 2 := by
  by_cases hb : b = 0
  · subst hb
    decide
  · have hpos : b.toNat ≠ 0 := fun h => hb (UInt8.toNat.inj h)
    rw [if_pos hb, ← UInt8.toNat_inj, UInt8.lt_iff_toNat_lt]
    show 1 = b.toNat ↔ b.toNat < 2
    omega

/-- The frame read is the frame written exactly when its header fits. -/
theorem sameFrame_iff {parsed entity : WebSocketEntity} (h : ReadFrom parsed entity) :
    SameFrame parsed entity ↔ HeaderFits entity := by
  constructor
  · intro hs
    exact ⟨(and_one_eq_iff _).mp (h.fin ▸ hs.fin), (and_one_eq_iff _).mp (h.rsv1 ▸ hs.rsv1),
      (and_one_eq_iff _).mp (h.rsv2 ▸ hs.rsv2), (and_one_eq_iff _).mp (h.rsv3 ▸ hs.rsv3),
      (and_nibble_eq_iff _).mp (h.opcode ▸ hs.opcode), (bit_eq_iff _).mp (h.mask ▸ hs.mask)⟩
  · intro hf
    exact ⟨h.fin.trans ((and_one_eq_iff _).mpr hf.fin),
      h.rsv1.trans ((and_one_eq_iff _).mpr hf.rsv1),
      h.rsv2.trans ((and_one_eq_iff _).mpr hf.rsv2),
      h.rsv3.trans ((and_one_eq_iff _).mpr hf.rsv3),
      h.opcode.trans ((and_nibble_eq_iff _).mpr hf.opcode),
      h.mask.trans ((bit_eq_iff _).mpr hf.mask), h.extPayloadLen, h.payload⟩

/-- **The round trip, exactly**: the header fits and the payload has at most 0xFFFF
bytes. -/
theorem roundTrips_iff (entity : WebSocketEntity) :
    RoundTrips entity ↔ HeaderFits entity ∧ entity.extPayloadLen ≤ 0xFFFF := by
  have hback : entity.extPayloadLen ≤ 0xFFFF → ∀ (capacity : Nat) (raw : Mem)
      (old : WebSocketEntity), entity.frameLength ≤ capacity →
      toWebsocketPacket entity capacity raw =
          (entity.frameLength, writeAt raw 0 entity.frameBytes) ∧
        ∃ parsed, toWebsocketEntityConsumed (writeAt raw 0 entity.frameBytes)
            entity.frameLength old = (entity.frameLength, parsed) ∧ ReadFrom parsed entity := by
    intro hshort capacity raw old hcap
    refine ⟨toWebsocketPacket_short hshort hcap raw, ?_⟩
    exact entityConsumed_frameBytes (readAt_writeAt_same _ _ _ entity.length_frameBytes.symm)
      (Nat.le_refl _) old
  constructor
  · intro h
    have hshort : entity.extPayloadLen ≤ 0xFFFF := by
      by_contra hlong
      have hlost := toWebsocketPacket_long (lt_of_not_le hlong) (Nat.le_refl _) fun _ => 0
      have hsize : (toWebsocketPacket entity entity.frameLength fun _ => 0).1 =
        entity.frameLength := (h _ _ entity (Nat.le_refl _)).1
      have hpos := UInt64.lt_iff_toNat_lt.mp (lt_of_not_le hlong)
      have hbound : (0xFFFF : UInt64).toNat = 0xFFFF := rfl
      omega
    obtain ⟨hpacket, parsed, hparsed, hread⟩ :=
      hback hshort entity.frameLength (fun _ => 0) entity (Nat.le_refl _)
    have hsame : SameFrame (toWebsocketEntityConsumed
        (toWebsocketPacket entity entity.frameLength fun _ => 0).2
        (toWebsocketPacket entity entity.frameLength fun _ => 0).1 entity).2 entity :=
      (h _ _ entity (Nat.le_refl _)).2.2
    rw [hpacket, hparsed] at hsame
    exact ⟨(sameFrame_iff hread).mp hsame, hshort⟩
  · rintro ⟨hfits, hshort⟩ capacity raw old hcap
    obtain ⟨hpacket, parsed, hparsed, hread⟩ := hback hshort capacity raw old hcap
    dsimp only
    rw [hpacket, hparsed]
    exact ⟨rfl, rfl, (sameFrame_iff hread).mpr hfits⟩

/-- A text of 65536 bytes. -/
def longText : WebSocketEntity where
  fin := 1
  rsv1 := 0
  rsv2 := 0
  rsv3 := 0
  opcode := WEBSOCKET_OP_CODE_TEXT
  mask := 0
  payloadLen := 127
  extPayloadLen := 65536
  maskingKey := Vector.replicate 4 0
  payload := fun _ => 0x61

/-- Of a text of 65536 bytes ten bytes are sent, the header. -/
theorem longText_lost : ¬ RoundTrips longText := by
  intro h
  have hsize : (toWebsocketPacket longText longText.frameLength fun _ => 0).1 =
    longText.frameLength := (h _ _ longText (Nat.le_refl _)).1
  have hlong : 0xFFFF < longText.extPayloadLen := by decide
  have hlost := toWebsocketPacket_long hlong (Nat.le_refl _) fun _ => 0
  have hlen : longText.extPayloadLen.toNat = 65536 := rfl
  omega

end OnionRelay.Websocket
