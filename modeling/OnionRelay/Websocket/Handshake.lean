import OnionRelay.Websocket.AcceptKey

/-!
# The handshake

`client_handshake` answers a request: with the relay information, with `101 Switching Protocols`, or
not at all.  The callback for the relay information and `websocket_send` are given by the `Server`.
`SoundHandshake` is what a client may conclude from a 101 for its request, and
`clientHandshake_sound_iff` says which requests it holds for: nobody asks whether the headers that are
judged are there, and the selected key may come from a header with a longer name.
-/

namespace OnionRelay.Websocket

open OnionRelay.Lib OnionRelay.Http Checked

/-- `HandshakeResult` -/
inductive HandshakeResult
  | websocket
  | nip11
  | error
deriving DecidableEq, Repr

/-- The capacity of the raw buffers, the callback of the user and whether a packet is sent. -/
structure Server where
  capacity : Nat
  handshakeCallback : Option (HTTPRequest → Nat → Mem → Bool × Mem)
  websocketSend : List UInt8 → Bool

/-- What the arrays hold before: `concatenated`, `accept_key` and `response`. -/
structure Arrays where
  concatenated : Mem
  acceptKey : Mem
  response : Mem

/-- `OK_MESSAGE` -/
def okMessage : CStr :=
  [ -- HTTP/1.1 101 Switching Protocols
    72, 84, 84, 80, 47, 49, 46, 49, 32, 49, 48, 49, 32, 83, 119, 105, 116, 99, 104, 105, 110, 103, 32, 80, 114, 111, 116,
    111, 99, 111, 108, 115, 13, 10,
    -- Upgrade: websocket
    85, 112, 103, 114, 97, 100, 101, 58, 32, 119, 101, 98, 115, 111, 99, 107, 101, 116, 13, 10,
    -- Connection: Upgrade
    67, 111, 110, 110, 101, 99, 116, 105, 111, 110, 58, 32, 85, 112, 103, 114, 97, 100, 101, 13, 10,
    -- Sec-WebSocket-Accept:
    83, 101, 99, 45, 87, 101, 98, 83, 111, 99, 107, 101, 116, 45, 65, 99, 99, 101, 112, 116, 58, 32]

/-- `NIP11_HEADER` -/
def nip11Header : CStr :=
  [ -- HTTP/1.1 200 OK
    72, 84, 84, 80, 47, 49, 46, 49, 32, 50, 48, 48, 32, 79, 75, 13, 10,
    -- Content-Type: application/nostr+json
    67, 111, 110, 116, 101, 110, 116, 45, 84, 121, 112, 101, 58, 32, 97, 112, 112, 108, 105, 99, 97, 116, 105, 111, 110,
    47, 110, 111, 115, 116, 114, 43, 106, 115, 111, 110, 13, 10,
    -- Access-Control-Allow-Origin: *
    65, 99, 99, 101, 115, 115, 45, 67, 111, 110, 116, 114, 111, 108, 45, 65, 108, 108, 111, 119, 45, 79, 114, 105, 103,
    105, 110, 58, 32, 42, 13, 10,
    -- Access-Control-Allow-Headers: *
    65, 99, 99, 101, 115, 115, 45, 67, 111, 110, 116, 114, 111, 108, 45, 65, 108, 108, 111, 119, 45, 72, 101, 97, 100,
    101, 114, 115, 58, 32, 42, 13, 10,
    -- Access-Control-Allow-Methods: GET, OPTIONS
    65, 99, 99, 101, 115, 115, 45, 67, 111, 110, 116, 114, 111, 108, 45, 65, 108, 108, 111, 119, 45, 77, 101, 116, 104,
    111, 100, 115, 58, 32, 71, 69, 84, 44, 32, 79, 80, 84, 73, 79, 78, 83, 13, 10, 13, 10]

/-- The two line ends behind the accept key. -/
def headersEnd : CStr := [13, 10, 13, 10]

/-- `build_handshake_packet` -/
def buildHandshakePacket (acceptKey : Mem) (acceptKeyCapacity capacity : Nat) (buffer : Mem) : Checked (Bool × Mem) :=
  let acceptKeyLen := nostrStrnlen acceptKey acceptKeyCapacity
  if capacity ≤ okMessage.length + acceptKeyLen + 5 then return (false, buffer)
  else do
    let buffer ← storeAll capacity okMessage 0 buffer
    let buffer ← storeAll capacity (readAt acceptKey 0 acceptKeyLen) okMessage.length buffer
    let buffer ← storeAll capacity headersEnd (okMessage.length + acceptKeyLen) buffer
    let buffer ← store capacity buffer (okMessage.length + acceptKeyLen + 4) 0
    return (true, buffer)

/-- `build_nip11_response` -/
def buildNip11Response (body : Mem) (bodyLen capacity : Nat) (buffer : Mem) : Checked (Bool × Mem) :=
  if capacity ≤ nip11Header.length + bodyLen + 1 then return (false, buffer)
  else do
    let buffer ← storeAll capacity nip11Header 0 buffer
    let buffer ← storeAll capacity (readAt body 0 bodyLen) nip11Header.length buffer
    let buffer ← store capacity buffer (nip11Header.length + bodyLen) 0
    return (true, buffer)

/-- `handle_nip11_request`, with the packets handed to `websocket_send`.  The body and the response
are the two halves of the response buffer. -/
def handleNip11Request (server : Server) (request : HTTPRequest) : Checked (Bool × List (List UInt8)) :=
  match server.handshakeCallback with
  | none => return (false, [])
  | some callback =>
    if isNip11Request request then do
      let bodyCapacity := server.capacity / 2
      let responseCapacity := server.capacity - bodyCapacity
      let (handled, body) := callback request bodyCapacity (fun _ => 0)
      if handled then do
        let bodyLen := nostrStrnlen body bodyCapacity
        if bodyLen = 0 then return (false, [])
        else do
          let (built, response) ← buildNip11Response body bodyLen responseCapacity (fun _ => 0)
          if built then do
            let packet := readAt response 0 (nostrStrnlen response responseCapacity)
            return (server.websocketSend packet, [packet])
          else return (false, [])
      else return (false, [])
    else return (false, [])

/-- `client_handshake`, with the packets handed to `websocket_send`. -/
def clientHandshake (sha1 : List UInt8 → Mem) (server : Server) (arrays : Arrays) (request : HTTPRequest) :
    Checked (HandshakeResult × List (List UInt8)) := do
  let (handled, sent) ← handleNip11Request server request
  if handled then return (.nip11, sent)
  else do
    let valid ← isValidRequest request
    if valid then
      match selectWebsocketClientKey request with
      | none => return (.error, sent)
      | some i => do
        let (generated, acceptKey) ← generateWebsocketAcceptkey sha1 (request.headers i).value
          httpHeaderValueCapacity arrays.concatenated arrays.acceptKey
        if generated then do
          let (built, response) ← buildHandshakePacket acceptKey httpHeaderValueCapacity server.capacity arrays.response
          if built then do
            let responseLen := nostrStrnlen response server.capacity
            if responseLen = 0 then return (.error, sent)
            else do
              let packet := readAt response 0 responseLen
              return (if server.websocketSend packet then .websocket else .error, sent ++ [packet])
          else return (.error, sent)
        else return (.error, sent)
    else return (.error, sent)

/-! ## The packets -/

/-- The response with an accept key. -/
def handshakePacket (text : CStr) : List UInt8 := okMessage ++ text ++ headersEnd

/-- `HTTP/1.1 101 Switching Protocols` -/
def switchingProtocols : CStr := okMessage.take 32

section

variable {sha1 : List UInt8 → Mem} {server : Server} {arrays : Arrays} {request : HTTPRequest} {packet : List UInt8}

theorem length_handshakePacket (text : CStr) : (handshakePacket text).length = 97 + text.length + 4 := by
  rw [handshakePacket, List.length_append, List.length_append]
  rfl

theorem ne_zero_of_mem_okMessage : ∀ c ∈ okMessage, c ≠ 0 := by decide +kernel

theorem ne_zero_of_mem_handshakePacket {text : CStr} (htext : ∀ c ∈ text, c ≠ 0) : ∀ c ∈ handshakePacket text, c ≠ 0 := by
  intro c hc
  rcases List.mem_append.mp hc with hc | hc
  · exact (List.mem_append.mp hc).elim (ne_zero_of_mem_okMessage c) (htext c)
  · exact (show ∀ c ∈ headersEnd, c ≠ 0 by decide +kernel) c hc

/-- The packet is written with its terminator. -/
theorem buildHandshakePacket_ok {acceptKey : Mem} {capacity n : Nat} (hends : EndsAt httpHeaderValueCapacity acceptKey n)
    (hroom : 97 + n + 5 < capacity) (buffer : Mem) :
    buildHandshakePacket acceptKey httpHeaderValueCapacity capacity buffer =
      .ok (true, writeAt buffer 0 (handshakePacket (cString httpHeaderValueCapacity acceptKey) ++ [0])) := by
  have hlen : okMessage.length = 97 := rfl
  have hend : headersEnd.length = 4 := rfl
  rw [buildHandshakePacket, hends.nostrStrnlen_eq, hlen, if_neg (by omega), storeAll_ok _ (by omega), bind_ok, storeAll_ok _ (by rw [length_readAt]; omega), bind_ok,
    storeAll_ok _ (by omega), bind_ok, store_ok (by omega), bind_ok,
    writeAt_append buffer 0 _ _ (by rw [hlen]),
    writeAt_append buffer 0 _ _ (by rw [List.length_append, length_readAt, hlen, Nat.zero_add]),
    writeAt_append buffer 0 _ _ (by rw [List.length_append, List.length_append, length_readAt, hlen, hend, Nat.zero_add]),
    ← hends.cString_eq]
  rfl

/-- Without room nothing is written. -/
theorem buildHandshakePacket_of_le {acceptKey : Mem} {capacity n : Nat}
    (hends : EndsAt httpHeaderValueCapacity acceptKey n) (hsmall : capacity ≤ 97 + n + 5) (buffer : Mem) :
    buildHandshakePacket acceptKey httpHeaderValueCapacity capacity buffer = .ok (false, buffer) := by
  rw [buildHandshakePacket, hends.nostrStrnlen_eq]
  exact if_pos hsmall

theorem buildNip11Response_eq {body response : Mem} {bodyLen capacity : Nat}
    (h : buildNip11Response body bodyLen capacity (fun _ => 0) = .ok (true, response)) :
    response = writeAt (fun _ => 0) 0 (nip11Header ++ (readAt body 0 bodyLen ++ [0])) := by
  rw [buildNip11Response] at h
  by_cases hroom : capacity ≤ nip11Header.length + bodyLen + 1
  · rw [if_pos hroom] at h
    cases h
  · rw [if_neg hroom, storeAll_ok _ (by omega), bind_ok, storeAll_ok _ (by rw [length_readAt]; omega), bind_ok,
      store_ok (by omega), bind_ok, writeAt_append _ 0 _ _ (Nat.zero_add _).symm,
      writeAt_append _ 0 _ _ (by rw [List.length_append, length_readAt, Nat.zero_add]), List.append_assoc] at h
    exact (Prod.mk.inj (Except.ok.inj h)).2.symm

/-- The relay information is no 101: its status begins with another digit. -/
theorem not_switchingProtocols_of_nip11 {handled : Bool} {sent : List (List UInt8)}
    (h : handleNip11Request server request = .ok (handled, sent)) (hmem : packet ∈ sent) :
    ¬ switchingProtocols <+: packet := by
  rw [handleNip11Request] at h
  cases hcallback : server.handshakeCallback with
  | none =>
    rw [hcallback] at h
    obtain ⟨-, rfl⟩ := Prod.mk.inj (Except.ok.inj h)
    exact absurd hmem List.not_mem_nil
  | some callback =>
    rw [hcallback] at h
    dsimp only at h
    split_ifs at h with hnip11 hhandled hempty
    · obtain ⟨-, rfl⟩ := Prod.mk.inj (Except.ok.inj h)
      exact absurd hmem List.not_mem_nil
    · obtain ⟨⟨built, response⟩, hbuilt, -⟩ := runs_bind ⟨_, h⟩
      rw [hbuilt, bind_ok] at h
      dsimp only at h
      cases built with
      | false =>
        obtain ⟨-, rfl⟩ := Prod.mk.inj (Except.ok.inj h)
        exact absurd hmem List.not_mem_nil
      | true =>
        obtain ⟨-, rfl⟩ := Prod.mk.inj (Except.ok.inj h)
        rw [List.mem_singleton] at hmem
        intro hfront
        have hget := hfront.getElem (show 9 < switchingProtocols.length by decide)
        have hresponse : response 9 = 50 := by
          rw [buildNip11Response_eq hbuilt]
          rfl
        rw [List.getElem_of_eq hmem, getElem_readAt, Nat.zero_add] at hget
        have hdigit : (49 : UInt8) = 50 := hget.trans hresponse
        exact absurd hdigit (by decide)
    · obtain ⟨-, rfl⟩ := Prod.mk.inj (Except.ok.inj h)
      exact absurd hmem List.not_mem_nil
    · obtain ⟨-, rfl⟩ := Prod.mk.inj (Except.ok.inj h)
      exact absurd hmem List.not_mem_nil

/-- What a request needs to be answered with a 101, and the packet it gets. -/
structure Accepted (sha1 : List UInt8 → Mem) (server : Server) (request : HTTPRequest) (packet : List UInt8) : Prop where
  notNip11 : ∃ sent, handleNip11Request server request = .ok (false, sent)
  valid : isValidRequest request = .ok true
  room : 130 < server.capacity
  key : ∃ j n, FirstKey request j ∧ EndsAt httpHeaderValueCapacity (request.headers j).value n ∧
    n + websocketAcceptGuid.length < concatenatedCapacity ∧
    packet = handshakePacket (acceptText sha1 (cString httpHeaderValueCapacity (request.headers j).value))

/-- The request is answered with `101 Switching Protocols`. -/
def Answered (sha1 : List UInt8 → Mem) (server : Server) (arrays : Arrays) (request : HTTPRequest)
    (packet : List UInt8) : Prop :=
  ∃ result sent, clientHandshake sha1 server arrays request = .ok (result, sent) ∧ packet ∈ sent ∧
    switchingProtocols <+: packet

/-- The array of the accept key holds the text. -/
theorem endsAt_acceptText (sha1 : List UInt8 → Mem) (key : CStr) (m : Mem) :
    EndsAt httpHeaderValueCapacity (writeAt m 0 (acceptText sha1 key ++ [0])) 28 ∧
      cString httpHeaderValueCapacity (writeAt m 0 (acceptText sha1 key ++ [0])) = acceptText sha1 key := by
  have hlen := @length_acceptText sha1 key
  have hends := @endsAt_writeAt httpHeaderValueCapacity _ (fun c => @ne_zero_of_mem_acceptText sha1 key c)
    (by rw [hlen]; decide) m
  refine ⟨hlen ▸ hends, ?_⟩
  rw [hends.cString_eq]
  exact readAt_writeAt_append _ _ _ _ rfl

theorem accepted_of_answered (h : Answered sha1 server arrays request packet) :
    Accepted sha1 server request packet := by
  obtain ⟨result, sent, hrun, hmem, h101⟩ := h
  rw [clientHandshake] at hrun
  obtain ⟨⟨handled, sent'⟩, hnip11, -⟩ := runs_bind ⟨_, hrun⟩
  have hnone : packet ∉ sent' := fun hin => not_switchingProtocols_of_nip11 hnip11 hin h101
  rw [hnip11, bind_ok] at hrun
  dsimp only at hrun
  cases handled with
  | true =>
    obtain ⟨-, rfl⟩ := Prod.mk.inj (Except.ok.inj hrun)
    exact absurd hmem hnone
  | false =>
    rw [if_neg Bool.false_ne_true] at hrun
    obtain ⟨valid, hvalid, -⟩ := runs_bind ⟨_, hrun⟩
    rw [hvalid, bind_ok] at hrun
    cases valid with
    | false =>
      obtain ⟨-, rfl⟩ := Prod.mk.inj (Except.ok.inj hrun)
      exact absurd hmem hnone
    | true =>
      rw [if_pos rfl] at hrun
      cases hselect : selectWebsocketClientKey request with
      | none =>
        rw [hselect] at hrun
        obtain ⟨-, rfl⟩ := Prod.mk.inj (Except.ok.inj hrun)
        exact absurd hmem hnone
      | some j =>
        rw [hselect] at hrun
        dsimp only at hrun
        obtain ⟨generated, hgenerated, -⟩ := runs_bind ⟨_, hrun⟩
        obtain ⟨n, hends, hroom⟩ := exists_endsAt_of_runs_generate ⟨generated, hgenerated⟩
        rw [generateWebsocketAcceptkey_ok hends hroom, bind_ok] at hrun
        dsimp only at hrun
        obtain ⟨hkey, hcString⟩ := endsAt_acceptText sha1 (cString httpHeaderValueCapacity (request.headers j).value)
          arrays.acceptKey
        rw [if_pos rfl] at hrun
        by_cases hcapacity : server.capacity ≤ 130
        · rw [buildHandshakePacket_of_le hkey hcapacity, bind_ok] at hrun
          obtain ⟨-, rfl⟩ := Prod.mk.inj (Except.ok.inj hrun)
          exact absurd hmem hnone
        · have hlen := @length_acceptText sha1 (cString httpHeaderValueCapacity (request.headers j).value)
          have hpacketLen := length_handshakePacket (acceptText sha1 (cString httpHeaderValueCapacity (request.headers j).value))
          have hresponse := @endsAt_writeAt server.capacity _ (ne_zero_of_mem_handshakePacket fun c =>
            @ne_zero_of_mem_acceptText sha1 (cString httpHeaderValueCapacity (request.headers j).value) c) (by omega)
            arrays.response
          rw [buildHandshakePacket_ok hkey (by omega), bind_ok, hcString] at hrun
          dsimp only at hrun
          rw [if_pos rfl, hresponse.nostrStrnlen_eq, if_neg (by omega), readAt_writeAt_append _ _ _ _ rfl] at hrun
          obtain ⟨-, rfl⟩ := Prod.mk.inj (Except.ok.inj hrun)
          refine ⟨⟨sent', hnip11⟩, hvalid, by omega, j, n, selectWebsocketClientKey_iff.mp hselect, hends, hroom, ?_⟩
          exact List.mem_singleton.mp ((List.mem_append.mp hmem).resolve_left hnone)

/-- What the request needs is enough. -/
theorem answered_of_accepted (h : Accepted sha1 server request packet) (arrays : Arrays) :
    Answered sha1 server arrays request packet := by
  obtain ⟨sent, hnip11⟩ := h.notNip11
  obtain ⟨j, n, hfirst, hends, hroom, hpacket⟩ := h.key
  have hcapacity := h.room
  obtain ⟨hkey, hcString⟩ := endsAt_acceptText sha1 (cString httpHeaderValueCapacity (request.headers j).value)
    arrays.acceptKey
  have hlen := @length_acceptText sha1 (cString httpHeaderValueCapacity (request.headers j).value)
  have hpacketLen := length_handshakePacket (acceptText sha1 (cString httpHeaderValueCapacity (request.headers j).value))
  have hresponse := @endsAt_writeAt server.capacity _ (ne_zero_of_mem_handshakePacket fun c =>
    @ne_zero_of_mem_acceptText sha1 (cString httpHeaderValueCapacity (request.headers j).value) c) (by omega) arrays.response
  refine ⟨if server.websocketSend packet then .websocket else .error, sent ++ [packet], ?_,
    List.mem_append_right _ (List.mem_singleton_self _), ?_⟩
  · rw [clientHandshake, hnip11, bind_ok]
    dsimp only
    rw [if_neg Bool.false_ne_true, h.valid, bind_ok, if_pos rfl, selectWebsocketClientKey_iff.mpr hfirst]
    dsimp only
    rw [generateWebsocketAcceptkey_ok hends hroom, bind_ok]
    dsimp only
    rw [if_pos rfl, buildHandshakePacket_ok hkey (by omega), bind_ok, hcString]
    dsimp only
    rw [if_pos rfl, hresponse.nostrStrnlen_eq, if_neg (by omega), readAt_writeAt_append _ _ _ _ rfl, hpacket]
    rfl
  · rw [hpacket, handshakePacket, List.append_assoc]
    exact (List.take_prefix 32 okMessage).trans (List.prefix_append _ _)

/-! ## What a 101 says -/

/-- What a client may conclude from the response to its request. -/
structure SoundHandshake (sha1 : List UInt8 → Mem) (request : HTTPRequest) (packet : List UInt8) : Prop where
  upgrade : ∃ i < request.headerSize, Named (request.headers i) upgradeName ∧ Valued (request.headers i) websocketValue
  connection : ∃ i < request.headerSize, Named (request.headers i) connectionName ∧
    Valued (request.headers i) upgradeName
  websocketVersion : ∃ i < request.headerSize, Named (request.headers i) websocketVersionName ∧
    Valued (request.headers i) versionValue
  websocketKey : ∃ i < request.headerSize, Named (request.headers i) websocketKeyName ∧
    isValidWebsocketKey (request.headers i).value = .ok true ∧
    packet = handshakePacket (acceptText sha1 (cString httpHeaderValueCapacity (request.headers i).value))

/-- The headers are there, and one named exactly `Sec-WebSocket-Key` has the value of the first one
whose name begins so. -/
structure NamesHandshake (request : HTTPRequest) : Prop where
  upgrade : ∃ i < request.headerSize, Named (request.headers i) upgradeName
  connection : ∃ i < request.headerSize, Named (request.headers i) connectionName
  websocketVersion : ∃ i < request.headerSize, Named (request.headers i) websocketVersionName
  websocketKey : ∃ i < request.headerSize, Named (request.headers i) websocketKeyName ∧
    ∃ j, FirstKey request j ∧ cString httpHeaderValueCapacity (request.headers i).value =
      cString httpHeaderValueCapacity (request.headers j).value

theorem FirstKey.unique {j j' : Nat} (h : FirstKey request j) (h' : FirstKey request j') : j = j' := by
  rcases Nat.lt_trichotomy j j' with hlt | heq | hgt
  · exact absurd h.starts (h'.first j hlt)
  · exact heq
  · exact absurd h'.starts (h.first j' hgt)

theorem soundHandshake_of_names (haccepted : Accepted sha1 server request packet) (hnames : NamesHandshake request) :
    SoundHandshake sha1 request packet := by
  have hlines : ∀ i < request.headerSize, ValidLine (request.headers i) :=
    fun i hi => validLine_of_isValidRequest haccepted.valid hi
  refine ⟨?_, ?_, ?_, ?_⟩
  · obtain ⟨i, hi, hname⟩ := hnames.upgrade
    exact ⟨i, hi, hname, (hlines i hi).upgrade hname⟩
  · obtain ⟨i, hi, hname⟩ := hnames.connection
    exact ⟨i, hi, hname, (hlines i hi).connection hname⟩
  · obtain ⟨i, hi, hname⟩ := hnames.websocketVersion
    exact ⟨i, hi, hname, (hlines i hi).websocketVersion hname⟩
  · obtain ⟨i, hi, hname, j, hfirst, hvalue⟩ := hnames.websocketKey
    obtain ⟨j', n, hfirst', -, -, hpacket⟩ := haccepted.key
    obtain rfl := hfirst.unique hfirst'
    exact ⟨i, hi, hname, (hlines i hi).websocketKey hname, by rw [hpacket, hvalue]⟩

theorem handshakePacket_injective {text text' : CStr} (h : handshakePacket text = handshakePacket text') : text = text' := by
  rw [handshakePacket, handshakePacket] at h
  exact List.append_cancel_left (List.append_cancel_right h)

open Classical in
/-- A hash that tells one input from all others. -/
noncomputable def separating (bytes : List UInt8) : List UInt8 → Mem := fun bytes' _ => if bytes' = bytes then 0 else 255

theorem acceptText_separating {key key' : CStr}
    (h : acceptText (separating (key ++ websocketAcceptGuid)) key' =
      acceptText (separating (key ++ websocketAcceptGuid)) key) : key' = key := by
  by_contra hne
  have hother : separating (key ++ websocketAcceptGuid) (key' ++ websocketAcceptGuid) = fun _ => 255 := by
    funext a
    exact if_neg fun heq => hne (List.append_cancel_right heq)
  have hsame : separating (key ++ websocketAcceptGuid) (key ++ websocketAcceptGuid) = fun _ => 0 := by
    funext a
    exact if_pos rfl
  rw [acceptText, acceptText, hother, hsame] at h
  exact absurd h (by decide)

/-- What is concluded for every hash needs the headers to be there. -/
theorem names_of_soundHandshake (haccepted : Accepted sha1 server request packet)
    (hsound : ∀ sha1 packet, Accepted sha1 server request packet → SoundHandshake sha1 request packet) :
    NamesHandshake request := by
  obtain ⟨j, n, hfirst, hends, hroom, -⟩ := haccepted.key
  generalize hkey : cString httpHeaderValueCapacity (request.headers j).value = key
  have haccepted' : Accepted (separating (key ++ websocketAcceptGuid)) server request
      (handshakePacket (acceptText (separating (key ++ websocketAcceptGuid)) key)) :=
    ⟨haccepted.notNip11, haccepted.valid, haccepted.room, j, n, hfirst, hends, hroom, by rw [hkey]⟩
  have hsound := hsound _ _ haccepted'
  refine ⟨?_, ?_, ?_, ?_⟩
  · obtain ⟨i, hi, hname, -⟩ := hsound.upgrade
    exact ⟨i, hi, hname⟩
  · obtain ⟨i, hi, hname, -⟩ := hsound.connection
    exact ⟨i, hi, hname⟩
  · obtain ⟨i, hi, hname, -⟩ := hsound.websocketVersion
    exact ⟨i, hi, hname⟩
  · obtain ⟨i, hi, hname, -, hpacket⟩ := hsound.websocketKey
    refine ⟨i, hi, hname, j, hfirst, ?_⟩
    rw [hkey]
    exact acceptText_separating (handshakePacket_injective hpacket).symm

/-- **A 101 is sound**, whatever the hash, if and only if the request names the headers of a handshake
and its key is the first one that is found. -/
theorem clientHandshake_sound_iff (hanswered : Answered sha1 server arrays request packet) :
    (∀ sha1 packet, Answered sha1 server arrays request packet → SoundHandshake sha1 request packet) ↔
      NamesHandshake request := by
  constructor
  · intro hsound
    exact names_of_soundHandshake (accepted_of_answered hanswered)
      fun sha1 packet haccepted => hsound sha1 packet (answered_of_accepted haccepted arrays)
  · exact fun hnames sha1 packet hanswered => soundHandshake_of_names (accepted_of_answered hanswered) hnames

end

/-! ## A handshake and a request that is none -/

/-- A server without callback. -/
def quietServer : Server := ⟨1024, none, fun _ => true⟩

def zeroArrays : Arrays := ⟨fun _ => 0, fun _ => 0, fun _ => 0⟩

/-- The digest of zeros. -/
def zeroDigest : List UInt8 → Mem := fun _ _ => 0

/-- `GET / HTTP/1.1` with these headers. -/
def requestWith (headers : List (CStr × CStr)) : HTTPRequest where
  line := ⟨literal [71, 69, 84], literal [47], literal [72, 84, 84, 80, 47, 49, 46, 49]⟩
  headers := fun i => ⟨literal (headers.getD i ([], [])).1, literal (headers.getD i ([], [])).2⟩
  headerSize := headers.length

/-- The four headers of a handshake. -/
def completeRequest : HTTPRequest :=
  requestWith [(upgradeName, websocketValue), (connectionName, upgradeName), (websocketVersionName, versionValue),
    (clientKeyName, List.replicate 16 65)]

theorem completeRequest_names : NamesHandshake completeRequest where
  upgrade := ⟨0, by decide, (named_iff (by decide +kernel) (by decide)).mp (by decide +kernel)⟩
  connection := ⟨1, by decide, (named_iff (by decide +kernel) (by decide)).mp (by decide +kernel)⟩
  websocketVersion := ⟨2, by decide, (named_iff (by decide +kernel) (by decide)).mp (by decide +kernel)⟩
  websocketKey := ⟨3, by decide, (named_iff (by decide +kernel) (by decide)).mp (by decide +kernel), 3,
    selectWebsocketClientKey_iff.mp (by decide +kernel), rfl⟩

theorem completeRequest_answered : ∃ packet, Answered zeroDigest quietServer zeroArrays completeRequest packet :=
  ⟨_, answered_of_accepted ⟨⟨[], rfl⟩, by decide +kernel, by decide, 3, 16,
    selectWebsocketClientKey_iff.mp (by decide +kernel), ⟨by decide, by decide +kernel, by decide +kernel⟩, by decide, rfl⟩
    zeroArrays⟩

/-- The 101 for the request with all four headers is sound. -/
theorem clientHandshake_sound_iff_complete : ∃ packet,
    Answered zeroDigest quietServer zeroArrays completeRequest packet ∧
      SoundHandshake zeroDigest completeRequest packet := by
  obtain ⟨packet, hanswered⟩ := completeRequest_answered
  exact ⟨packet, hanswered, (clientHandshake_sound_iff hanswered).mpr completeRequest_names _ _ hanswered⟩

/-- Only the header `Sec-WebSocket-KeyX: A`. -/
def lookAlikeRequest : HTTPRequest := requestWith [(clientKeyName ++ [88], [65])]

theorem clientHandshake_lookAlike :
    Answered zeroDigest quietServer zeroArrays lookAlikeRequest (handshakePacket (acceptText zeroDigest [65])) ∧
      ¬ SoundHandshake zeroDigest lookAlikeRequest (handshakePacket (acceptText zeroDigest [65])) := by
  have hends : EndsAt httpHeaderValueCapacity (lookAlikeRequest.headers 0).value 1 :=
    ⟨by decide, by decide +kernel, by decide +kernel⟩
  have hvalue : cString httpHeaderValueCapacity (lookAlikeRequest.headers 0).value = [65] := by
    rw [hends.cString_eq]
    decide +kernel
  have haccepted : Accepted zeroDigest quietServer lookAlikeRequest (handshakePacket (acceptText zeroDigest [65])) :=
    ⟨⟨[], rfl⟩, by decide +kernel, by decide, 0, 1, selectWebsocketClientKey_iff.mp (by decide +kernel), hends, by decide,
      by rw [hvalue]⟩
  refine ⟨answered_of_accepted haccepted zeroArrays, fun hsound => ?_⟩
  obtain ⟨i, hi, hname, -⟩ := hsound.upgrade
  have hzero : i = 0 := Nat.lt_one_iff.mp hi
  rw [hzero] at hname
  exact absurd ((named_iff (by decide +kernel) (by decide)).mpr hname) (by decide +kernel)

end OnionRelay.Websocket
