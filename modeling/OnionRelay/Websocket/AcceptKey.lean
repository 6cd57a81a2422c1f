import OnionRelay.Websocket.HandshakeRequest

/-!
# The accept key

`generate_websocket_acceptkey` puts the key of the client and the GUID into an array of 256 bytes,
and writes the Base64 text of their hash.  The hash is a parameter, a function from what is hashed to
the digest.  A key that came in a header value has up to 255 bytes, and then the GUID has no room.
-/

namespace OnionRelay.Websocket

open OnionRelay.Lib OnionRelay.Http Checked

/-- `258EAFA5-E914-47DA-95CA-C5AB0DC85B11` -/
def websocketAcceptGuid : CStr :=
  [ 50, 53, 56, 69, 65, 70, 65, 53, 45, 69, 57, 49, 52, 45, 52, 55, 68, 65, 45, 57, 53, 67, 65, 45, 67, 53, 65, 66, 48,
    68, 67, 56, 53, 66, 49, 49]

def sha1DigestLength : Nat := 20

/-- The size of `concatenated`. -/
def concatenatedCapacity : Nat := 256

/-- `generate_websocket_acceptkey`; `concatenated` is what the array of that name holds before. -/
def generateWebsocketAcceptkey (sha1 : List UInt8 → Mem) (clientKey : Mem) (acceptKeySize : Nat)
    (concatenated acceptKey : Mem) : Checked (Bool × Mem) :=
  if acceptKeySize = 128 then return (false, acceptKey)
  else do
    let clientKeySize ← nostrStrlen httpHeaderValueCapacity clientKey
    let guidSize := websocketAcceptGuid.length
    let concatenated ← storeAll concatenatedCapacity (readAt clientKey 0 clientKeySize) 0 concatenated
    let concatenated ← storeAll concatenatedCapacity websocketAcceptGuid clientKeySize concatenated
    let concatenated ← store concatenatedCapacity concatenated (clientKeySize + guidSize) 0
    let sha1Result := sha1 (readAt concatenated 0 (nostrStrnlen concatenated concatenatedCapacity))
    base64Encode sha1Result sha1DigestLength acceptKeySize acceptKey

/-- The text for a key: the hash of the key and the GUID, in Base64. -/
def acceptText (sha1 : List UInt8 → Mem) (key : CStr) : CStr :=
  Base64.encode (readAt (sha1 (key ++ websocketAcceptGuid)) 0 sha1DigestLength)

section

variable {sha1 : List UInt8 → Mem} {clientKey concatenated acceptKey : Mem}

theorem length_acceptText (key : CStr) : (acceptText sha1 key).length = 28 := by
  rw [acceptText, Base64.length_encode, length_readAt]
  rfl

theorem ne_zero_of_mem_acceptText {key : CStr} {c : UInt8} (h : c ∈ acceptText sha1 key) : c ≠ 0 :=
  Base64.ne_zero_of_mem_encode h

theorem ne_zero_of_mem_guid : ∀ c ∈ websocketAcceptGuid, c ≠ 0 := by decide +kernel

/-- **A key with room for the GUID** is hashed with it, and the text of the hash is written. -/
theorem generateWebsocketAcceptkey_ok {n : Nat} (hends : EndsAt httpHeaderValueCapacity clientKey n)
    (hroom : n + websocketAcceptGuid.length < concatenatedCapacity) :
    generateWebsocketAcceptkey sha1 clientKey httpHeaderValueCapacity concatenated acceptKey =
      .ok (true, writeAt acceptKey 0 (acceptText sha1 (cString httpHeaderValueCapacity clientKey) ++ [0])) := by
  have hwritten : writeAt (writeAt (writeAt concatenated 0 (readAt clientKey 0 n)) n websocketAcceptGuid)
      (n + websocketAcceptGuid.length) [0] =
        writeAt concatenated 0 (readAt clientKey 0 n ++ websocketAcceptGuid ++ [0]) := by
    rw [writeAt_append concatenated 0 _ _ (by rw [length_readAt, Nat.zero_add]),
      writeAt_append concatenated 0 _ _ (by rw [List.length_append, length_readAt, Nat.zero_add])]
  have hlen : (readAt clientKey 0 n ++ websocketAcceptGuid).length = n + websocketAcceptGuid.length := by
    rw [List.length_append, length_readAt]
  have htext : ∀ c ∈ readAt clientKey 0 n ++ websocketAcceptGuid, c ≠ 0 := by
    intro c hc
    rcases List.mem_append.mp hc with hc | hc
    · rw [← hends.cString_eq] at hc
      exact ne_zero_of_mem_cString hc
    · exact ne_zero_of_mem_guid c hc
  have hend := @endsAt_writeAt concatenatedCapacity _ htext (by rwa [hlen]) concatenated
  rw [generateWebsocketAcceptkey, if_neg (by decide), hends.nostrStrlen_eq (hends.lt.trans (by decide)), bind_ok]
  dsimp only
  rw [storeAll_ok _ (by rw [length_readAt]; omega), bind_ok, storeAll_ok _ (by omega), bind_ok, store_ok hroom, bind_ok,
    hwritten, hend.nostrStrnlen_eq, base64Encode_ok (by decide) (by decide) (by decide),
    readAt_writeAt_append _ _ _ _ rfl, acceptText, hends.cString_eq]

theorem lt_of_runs_generate {n : Nat} (hends : EndsAt httpHeaderValueCapacity clientKey n)
    (h : Runs (generateWebsocketAcceptkey sha1 clientKey httpHeaderValueCapacity concatenated acceptKey)) :
    n + websocketAcceptGuid.length < concatenatedCapacity := by
  rw [generateWebsocketAcceptkey, if_neg (by decide), hends.nostrStrlen_eq (hends.lt.trans (by decide)), bind_ok] at h
  obtain ⟨m, -, h⟩ := runs_bind h
  obtain ⟨m', -, h⟩ := runs_bind h
  obtain ⟨m'', hstore, -⟩ := runs_bind h
  exact lt_of_runs_store ⟨m'', hstore⟩

theorem exists_endsAt_of_runs_generate
    (h : Runs (generateWebsocketAcceptkey sha1 clientKey httpHeaderValueCapacity concatenated acceptKey)) :
    ∃ n, EndsAt httpHeaderValueCapacity clientKey n ∧ n + websocketAcceptGuid.length < concatenatedCapacity := by
  have hrun := h
  rw [generateWebsocketAcceptkey, if_neg (by decide)] at hrun
  obtain ⟨len, hlen, -⟩ := runs_bind hrun
  obtain ⟨n, hends, -⟩ := exists_endsAt_of_runs ⟨len, hlen⟩
  exact ⟨n, hends, lt_of_runs_generate hends h⟩

/-- **The accept key is computed in bounds**, as the text of the hash of the key and the GUID, if and
only if the key that was selected leaves room for the GUID and a terminator. -/
theorem generateWebsocketAcceptkey_iff {request : HTTPRequest} (hterminated : request.Terminated) {i : Nat}
    (hselected : selectWebsocketClientKey request = some i) (sha1 : List UInt8 → Mem) (concatenated acceptKey : Mem) :
    (∃ result, generateWebsocketAcceptkey sha1 (request.headers i).value httpHeaderValueCapacity concatenated acceptKey =
        .ok (true, result) ∧ cString httpHeaderValueCapacity result =
          acceptText sha1 (cString httpHeaderValueCapacity (request.headers i).value)) ↔
      (cString httpHeaderValueCapacity (request.headers i).value).length ≤ 219 := by
  have hi := (selectWebsocketClientKey_iff.mp hselected).lt
  obtain ⟨n, hends⟩ := exists_endsAt (hterminated.headers i hi).value
  rw [hends.length_cString]
  constructor
  · rintro ⟨result, hrun, -⟩
    have hroom : n + 36 < 256 := lt_of_runs_generate hends ⟨_, hrun⟩
    omega
  · intro hle
    have hroom : n + websocketAcceptGuid.length < concatenatedCapacity := show n + 36 < 256 by omega
    refine ⟨_, generateWebsocketAcceptkey_ok hends hroom, ?_⟩
    have hlen := @length_acceptText sha1 (cString httpHeaderValueCapacity (request.headers i).value)
    have hend := @endsAt_writeAt httpHeaderValueCapacity _ (fun c => @ne_zero_of_mem_acceptText sha1
      (cString httpHeaderValueCapacity (request.headers i).value) c) (by rw [hlen]; decide) acceptKey
    rw [hend.cString_eq]
    exact readAt_writeAt_append _ _ _ _ rfl

end

/-! ## A request with a long key -/

/-- `GET / HTTP/1.1`, with a key of `n` letters. -/
def keyRequest (n : Nat) : HTTPRequest where
  line := ⟨literal [71, 69, 84], literal [47], literal [72, 84, 84, 80, 47, 49, 46, 49]⟩
  headers := fun _ => ⟨literal clientKeyName, literal (List.replicate n 65)⟩
  headerSize := 1

theorem keyRequest_terminated {n : Nat} (h : n < httpHeaderValueCapacity) : (keyRequest n).Terminated where
  line := ⟨⟨3, by decide, rfl⟩, ⟨1, by decide, rfl⟩, ⟨8, by decide, rfl⟩⟩
  headerSize := ⟨Nat.one_pos, show 1 ≤ httpHeaderCapacity by decide⟩
  headers := by
    refine fun i _ => ⟨⟨17, by decide, rfl⟩, ⟨n, h, ?_⟩⟩
    show (List.replicate n 65).getD n 0 = (0 : UInt8)
    rw [List.getD_eq_getElem?_getD, List.getElem?_eq_none (by rw [List.length_replicate])]
    rfl

theorem generateWebsocketAcceptkey_iff_short : ∃ result,
    generateWebsocketAcceptkey (fun _ _ => 0) ((keyRequest 24).headers 0).value httpHeaderValueCapacity (fun _ => 0)
        (fun _ => 0) = .ok (true, result) ∧ cString httpHeaderValueCapacity result =
      acceptText (fun _ _ => 0) (cString httpHeaderValueCapacity ((keyRequest 24).headers 0).value) :=
  (generateWebsocketAcceptkey_iff (keyRequest_terminated (by decide)) (by decide +kernel) (fun _ _ => 0) (fun _ => 0)
    (fun _ => 0)).mpr (by decide +kernel)

theorem generateWebsocketAcceptkey_long : (keyRequest 220).Terminated ∧ isValidRequest (keyRequest 220) = .ok true ∧
    selectWebsocketClientKey (keyRequest 220) = some 0 ∧ ∀ (sha1 : List UInt8 → Mem) (concatenated acceptKey : Mem),
      ¬ Runs (generateWebsocketAcceptkey sha1 ((keyRequest 220).headers 0).value httpHeaderValueCapacity concatenated
        acceptKey) := by
  refine ⟨keyRequest_terminated (by decide), by decide +kernel, by decide +kernel, fun sha1 concatenated acceptKey h => ?_⟩
  have hends : EndsAt httpHeaderValueCapacity ((keyRequest 220).headers 0).value 220 :=
    ⟨by decide, by decide +kernel, by decide +kernel⟩
  exact absurd (lt_of_runs_generate hends h) (by decide)

end OnionRelay.Websocket
