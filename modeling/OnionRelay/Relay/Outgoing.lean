import OnionRelay.Db.EventMemory
import OnionRelay.Nostr.Relayed
import OnionRelay.Nostr.Responses
import OnionRelay.Websocket.WireFrame

/-!
# What the relay sends

A message goes through two buffers: a response function renders it into
`g_response_buffer`, and `send_websocket_message` makes a packet of that.  Both have
`RESPONSE_BUFFER_SIZE` bytes, and the packet has a header, so a text that fits the first
may not fit the second.  `sendMessage_eq`: what is sent is one text frame with the whole
text, or nothing.
-/

namespace OnionRelay.Relay

open OnionRelay.Lib OnionRelay.Db OnionRelay.Websocket

def RESPONSE_BUFFER_SIZE : Nat := 65536

/-- The bytes of a literal of the source. -/
def literal (s : String) : CStr := s.toList.map fun c => UInt8.ofNat c.toNat

/-- A message to a client. -/
inductive ServerMessage
  | ok (eventId : CStr) (accepted : Bool) (message : String)
  | event (subscriptionId : CStr) (event : NostrEventEntity)
  | eose (subscriptionId : CStr)
  | closed (subscriptionId : CStr) (message : String)
  | notice (message : String)
deriving DecidableEq

namespace ServerMessage

/-- The response function of the message. -/
def response : ServerMessage → Mem → Nat → Bool × Mem
  | ok eventId accepted message => nostrResponseOk eventId accepted (some (literal message))
  | event subscriptionId e => nostrResponseEvent subscriptionId e
  | eose subscriptionId => nostrResponseEose subscriptionId
  | closed subscriptionId message => nostrResponseClosed subscriptionId (some (literal message))
  | notice message => nostrResponseNotice (literal message)

def pieces : ServerMessage → List Piece
  | ok eventId accepted message => okPieces eventId accepted (some (literal message))
  | event subscriptionId e => eventPieces subscriptionId e
  | eose subscriptionId => eosePieces subscriptionId
  | closed subscriptionId message => closedPieces subscriptionId (some (literal message))
  | notice message => noticePieces (literal message)

def text (message : ServerMessage) : List UInt8 := piecesText message.pieces

/-- The message as JSON. -/
def json : ServerMessage → JsonText
  | ok eventId accepted message =>
    ⟨[], .array [] (itemsOf [.string (jsonString [79, 75]), .string (jsonString eventId),
      numberJson (if accepted then [116, 114, 117, 101] else [102, 97, 108, 115, 101]),
      .string (jsonString (literal message))]), []⟩
  | event subscriptionId e => relayText subscriptionId e
  | eose subscriptionId =>
    ⟨[], .array [] (itemsOf ([[69, 79, 83, 69], subscriptionId].map (.string ∘ jsonString))), []⟩
  | closed subscriptionId message =>
    ⟨[], .array [] (itemsOf
      ([[67, 76, 79, 83, 69, 68], subscriptionId, literal message].map (.string ∘ jsonString))), []⟩
  | notice message =>
    ⟨[], .array [] (itemsOf ([[78, 79, 84, 73, 67, 69], literal message].map (.string ∘ jsonString))), []⟩

theorem response_eq (message : ServerMessage) : message.response = respond message.pieces := by
  cases message <;> rfl

end ServerMessage

/-- The entity of `send_websocket_message`. -/
def responseEntity (message : Mem) (messageLen : Nat) : WebSocketEntity :=
  { WebSocketEntity.zero message with
    fin := 1
    opcode := WEBSOCKET_OP_CODE_TEXT
    payloadLen := if messageLen ≤ 125 then UInt8.ofNat messageLen else if messageLen ≤ 65535 then 126 else 127
    extPayloadLen := UInt64.ofNat messageLen }

/-- `send_websocket_message`: what it gives to `websocket_send`. -/
def sendWebsocketMessage (message : Mem) (messageLen : Nat) (packetBuffer : Mem) : Option (List UInt8) :=
  let packet := toWebsocketPacket (responseEntity message messageLen) RESPONSE_BUFFER_SIZE packetBuffer
  if packet.1 = 0 then none else some (readAt packet.2 0 packet.1)

/-- A response function, and `send_websocket_message` if that succeeds. -/
def sendMessage (message : ServerMessage) (responseBuffer packetBuffer : Mem) : Option (List UInt8) :=
  let response := message.response responseBuffer RESPONSE_BUFFER_SIZE
  if response.1 then
    sendWebsocketMessage response.2 (cstr (readAt response.2 0 RESPONSE_BUFFER_SIZE)).length packetBuffer
  else none

/-- The text fits the packet with its header. -/
def ServerMessage.Fits (message : ServerMessage) : Prop := message.text.length + 4 ≤ RESPONSE_BUFFER_SIZE

instance (message : ServerMessage) : Decidable message.Fits := inferInstanceAs (Decidable (_ ≤ _))

/-- One unmasked frame with the whole text. -/
structure IsTextFrame (f : WireFrame) (text : List UInt8) : Prop where
  fin : f.fin = true
  rsv : f.rsv1 = false ∧ f.rsv2 = false ∧ f.rsv3 = false
  opcode : f.opcode = 1
  key : f.key = none
  payload : f.payload = text

/-! ## The packet -/

/-- The length of a text as the packet has it. -/
def lengthField (n : Nat) (h : n < 256 ^ 2) : LengthField :=
  if hshort : n ≤ 125 then .seven n hshort else .two n h

theorem value_lengthField {n : Nat} (h : n < 256 ^ 2) : (lengthField n h).value = n := by
  rw [lengthField]
  split <;> rfl

theorem length_eq_value_lengthField {text : List UInt8} (h : text.length < 256 ^ 2) :
    text.length = (lengthField text.length h).value := (value_lengthField h).symm

theorem textOpcode_lt : 1 < 16 := by decide

/-- The frame of a text. -/
def textFrame (text : List UInt8) (h : text.length < 256 ^ 2) : WireFrame where
  fin := true
  rsv1 := false
  rsv2 := false
  rsv3 := false
  opcode := ⟨1, textOpcode_lt⟩
  length := lengthField text.length h
  key := none
  payload := text
  fits := length_eq_value_lengthField h

theorem isTextFrame_textFrame {text : List UInt8} (h : text.length < 256 ^ 2) :
    IsTextFrame (textFrame text h) text := ⟨rfl, ⟨rfl, rfl, rfl⟩, rfl, rfl, rfl⟩

section Packet

variable {message : Mem} {text : List UInt8} (hmessage : readAt message 0 text.length = text)
  (hlength : text.length < 256 ^ 2)

include hlength

theorem toNat_extPayloadLen : (responseEntity message text.length).extPayloadLen.toNat = text.length := by
  rw [responseEntity, UInt64.toNat_ofNat']
  omega

theorem extPayloadLen_le_short : (responseEntity message text.length).extPayloadLen ≤ 0xFFFF := by
  rw [UInt64.le_iff_toNat_le, toNat_extPayloadLen hlength]
  exact Nat.le_of_lt_succ hlength

theorem extPayloadLen_le_seven :
    (responseEntity message text.length).extPayloadLen ≤ 125 ↔ text.length ≤ 125 := by
  rw [UInt64.le_iff_toNat_le, toNat_extPayloadLen hlength]
  rfl

theorem frameLength_responseEntity : (responseEntity message text.length).frameLength =
    2 + (if text.length ≤ 125 then 0 else 2) + text.length := by
  rw [WebSocketEntity.frameLength, if_pos (extPayloadLen_le_short hlength), toNat_extPayloadLen hlength]
  simp only [extPayloadLen_le_seven hlength]
  rfl

omit hlength in
theorem firstByte_responseEntity (n : Nat) :
    (responseEntity message n).firstByte = flagsByte true false false false 1 := by
  have hbyte : (((1 : UInt8) &&& 0x01) <<< 7) ||| (((0 : UInt8) &&& 0x01) <<< 6) |||
      (((0 : UInt8) &&& 0x01) <<< 5) ||| (((0 : UInt8) &&& 0x01) <<< 4) |||
        (WEBSOCKET_OP_CODE_TEXT &&& 0x0F).toUInt8 = flagsByte true false false false 1 := by decide
  exact hbyte

omit hlength in
theorem maskByte_responseEntity (n : Nat) (code : UInt8) :
    (responseEntity message n).maskBit ||| code = maskByte false code := by
  have hbit : (responseEntity message n).maskBit = 0 := rfl
  rw [hbit, UInt8.zero_or, maskByte, Bool.toNat_false, Nat.mul_zero, Nat.zero_add, UInt8.ofNat_toNat]

theorem lengthBytes_responseEntity : (responseEntity message text.length).lengthBytes =
    maskByte false (lengthField text.length hlength).code :: (lengthField text.length hlength).extended := by
  rw [WebSocketEntity.lengthBytes, if_pos (extPayloadLen_le_short hlength), toNat_extPayloadLen hlength]
  simp only [extPayloadLen_le_seven hlength]
  rw [maskByte_responseEntity, maskByte_responseEntity, lengthField]
  split
  · exact congrArg (fun code => [maskByte false code]) (UInt64.toUInt8_ofNat' text.length)
  · rfl

include hmessage

theorem frameBytes_responseEntity :
    (responseEntity message text.length).frameBytes = (textFrame text hlength).bytes := by
  have hmasked : (textFrame text hlength).masked = text := by
    rw [WireFrame.masked]
    exact (List.mapIdx_eq_iff.mpr fun i => by simp [textFrame, keyByteAt])
  have hwire : (responseEntity message text.length).wire = message := wire_unmasked rfl
  rw [WebSocketEntity.frameBytes, WireFrame.bytes, hmasked, hwire, toNat_extPayloadLen hlength, hmessage,
    lengthBytes_responseEntity hlength, firstByte_responseEntity]
  simp only [List.append_assoc, List.cons_append, List.nil_append]
  rfl

omit hmessage in
/-- A packet of two more bytes for the length than there is room for. -/
theorem toWebsocketPacket_none (hfull : RESPONSE_BUFFER_SIZE < text.length + 4) (packetBuffer : Mem) :
    (toWebsocketPacket (responseEntity message text.length) RESPONSE_BUFFER_SIZE packetBuffer).1 = 0 := by
  have hlong : 125 < text.length := by
    rw [RESPONSE_BUFFER_SIZE] at hfull
    omega
  have hseven := mt (@extPayloadLen_le_seven message text hlength).mp (Nat.not_le.mpr hlong)
  have htwo : 125 < (responseEntity message text.length).extPayloadLen ∧
      (responseEntity message text.length).extPayloadLen ≤ 0xFFFF :=
    ⟨lt_of_not_le hseven, extPayloadLen_le_short hlength⟩
  have hmask : (responseEntity message text.length).mask = 0 := rfl
  rw [toWebsocketPacket, if_neg (by decide)]
  dsimp only
  rw [if_neg fun h => hseven h.1, if_pos htwo, if_neg (by decide), putKey, if_neg (not_not.mpr hmask), putPayload]
  dsimp only
  rw [if_pos]
  rw [toNat_extPayloadLen hlength]
  omega

/-- What `send_websocket_message` makes of a text. -/
theorem sendWebsocketMessage_eq (packetBuffer : Mem) :
    sendWebsocketMessage message text.length packetBuffer =
      if text.length + 4 ≤ RESPONSE_BUFFER_SIZE then some (textFrame text hlength).bytes else none := by
  rw [sendWebsocketMessage]
  by_cases hfits : text.length + 4 ≤ RESPONSE_BUFFER_SIZE
  · have hlen := @frameLength_responseEntity message text hlength
    have hbytes := (responseEntity message text.length).length_frameBytes
    have hcap : (responseEntity message text.length).frameLength ≤ RESPONSE_BUFFER_SIZE := by
      rw [hlen]
      split <;> omega
    rw [toWebsocketPacket_short (extPayloadLen_le_short hlength) hcap, if_pos hfits,
      ← frameBytes_responseEntity hmessage hlength]
    dsimp only
    rw [if_neg (by omega), readAt_writeAt_same _ _ _ hbytes.symm]
  · rw [if_neg hfits]
    exact if_pos (toWebsocketPacket_none hlength (Nat.lt_of_not_le hfits) packetBuffer)

end Packet

/-! ## The text -/

/-- **The text is JSON**, of an event that was parsed. -/
theorem ServerMessage.text_eq_json (message : ServerMessage)
    (hevent : ∀ subscriptionId e, message = event subscriptionId e → e.Parsed) :
    message.text = message.json.text := by
  have hplain : ∀ value : Json, (⟨[], value, []⟩ : JsonText).text = value.text := fun value => by
    rw [JsonText.text, show blankText [] = [] from rfl, List.append_nil, List.nil_append]
  cases message with
  | ok eventId accepted text =>
    rw [json, hplain]
    exact (okText_eq eventId accepted (some (literal text))).symm.trans
      (responses_json eventId (some (literal text)) accepted).2.1
  | event subscriptionId e => exact (text_relayText subscriptionId (hevent _ _ rfl)).symm
  | eose subscriptionId =>
    rw [json, hplain]
    exact (eoseText_eq subscriptionId).symm.trans (responses_json subscriptionId none true).1
  | closed subscriptionId text =>
    rw [json, hplain]
    exact (closedText_eq subscriptionId (some (literal text))).symm.trans
      (responses_json subscriptionId (some (literal text)) true).2.2.1
  | notice text =>
    rw [json, hplain, arrayText_json]
    refine (noticeText_eq (literal text)).symm.trans ?_
    simp only [noticeText, List.map_cons, List.map_nil, Function.comp_apply, text_string]
    rfl

/-- **What is sent** is one text frame with the whole message in JSON, or nothing. -/
theorem sendMessage_eq (message : ServerMessage)
    (hevent : ∀ subscriptionId e, message = .event subscriptionId e → e.Parsed)
    (responseBuffer packetBuffer : Mem) :
    if message.Fits then ∃ f, IsTextFrame f message.json.text ∧
        sendMessage message responseBuffer packetBuffer = some f.bytes
      else sendMessage message responseBuffer packetBuffer = none := by
  have hjson := message.text_eq_json hevent
  have hzero : 0 ∉ message.text := hjson ▸ message.json.zero_notMem_text
  have hwritten := respond_allOrNothing message.pieces responseBuffer (show 0 < RESPONSE_BUFFER_SIZE by decide)
  rw [sendMessage, message.response_eq, ← hjson]
  generalize respond message.pieces responseBuffer RESPONSE_BUFFER_SIZE = response at hwritten
  by_cases hroom : message.text.length < RESPONSE_BUFFER_SIZE
  · have hread : readAt response.2 0 message.text.length.succ = message.text ++ [0] := hwritten.whole hroom
    have htext : readAt response.2 0 message.text.length = message.text := by
      rw [← readAt_take response.2 0 (Nat.le_succ message.text.length)]
      exact hread ▸ List.take_left
    have hcstr : cstr (readAt response.2 0 RESPONSE_BUFFER_SIZE) = message.text := by
      obtain ⟨behind, hbehind⟩ := Nat.exists_eq_add_of_le (Nat.succ_le_of_lt hroom)
      rw [hbehind, readAt_add, hread, List.append_assoc, List.singleton_append, cstr_append_zero,
        cstr_of_noNul hzero]
    rw [if_pos (hwritten.fits.mpr hroom), hcstr, sendWebsocketMessage_eq htext hroom]
    by_cases hfits : message.Fits
    · rw [if_pos hfits]
      exact ⟨_, isTextFrame_textFrame hroom, if_pos hfits⟩
    · rw [if_neg hfits]
      exact if_neg hfits
  · have hfull : ¬ message.Fits := fun hfits => hroom (Nat.lt_of_lt_of_le (by omega) hfits)
    rw [if_neg hfull, if_neg (mt hwritten.fits.mp hroom)]

/-- The end of the stored events of the subscription `a`, from empty buffers. -/
theorem sendMessage_eq_eose : ∃ f, IsTextFrame f (ServerMessage.eose [97]).json.text ∧
    sendMessage (.eose [97]) (fun _ => 0) (fun _ => 0) = some f.bytes := by
  have hsent := sendMessage_eq (.eose [97]) (by simp) (fun _ => 0) (fun _ => 0)
  rwa [if_pos (show (ServerMessage.eose [97]).Fits by decide +kernel)] at hsent

end OnionRelay.Relay
