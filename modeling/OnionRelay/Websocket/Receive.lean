import Mathlib.Algebra.Order.Ring.Nat
import Mathlib.Data.List.Forall2
import Mathlib.Tactic.Common
import OnionRelay.Websocket.Codec

/-!
# Receiving frames

`receiveHandle` takes the frames out of the bytes of one `recv()` and hands each to
`opcodeHandle`, which gives the data frames to the receive callback.  What is left
behind the last whole frame is dropped: no byte is kept for the next read.

So all the frames of a stream arrive exactly if every read ends where a frame ends
(`delivers_iff`).  A frame that arrives took at least its length of the bytes that
were read (`frameLength_le_consumed`), and a byte that is dropped is missing in the
sum.
-/

namespace OnionRelay.Websocket

open OnionRelay.Lib

inductive WebSocketErrorCode
  | fatalError
  | socketCloseError
  | continuableError
  | none
  deriving DecidableEq, Repr

structure WebSocketRawBuffer where
  capacity : Nat
  request : Mem
  response : Mem

/-- An entity after `websocket_memset`, with its payload in `payloadBuf`. -/
def WebSocketEntity.zero (payloadBuf : Mem) : WebSocketEntity where
  fin := 0
  rsv1 := 0
  rsv2 := 0
  rsv3 := 0
  opcode := 0
  mask := 0
  payloadLen := 0
  extPayloadLen := 0
  maskingKey := Vector.replicate 4 0
  payload := payloadBuf

/-- The frame given to the receive callback, if any, and the code returned.  `sent` is
what `websocket_send` returns for a pong. -/
def opcodeHandle (buffer : WebSocketRawBuffer) (sent : WebSocketErrorCode)
    (entity : WebSocketEntity) : List WebSocketEntity × WebSocketErrorCode :=
  if entity.opcode = WEBSOCKET_OP_CODE_TEXT ∨ entity.opcode = WEBSOCKET_OP_CODE_BINARY then
    ([entity], .none)
  else if entity.opcode = WEBSOCKET_OP_CODE_CLOSE then ([], .socketCloseError)
  else if entity.opcode = WEBSOCKET_OP_CODE_PING then
    let response := { entity with mask := 0, opcode := WEBSOCKET_OP_CODE_PONG }
    if (toWebsocketPacket response buffer.capacity buffer.response).1 = 0 then
      ([], .socketCloseError)
    else ([], sent)
  else if entity.opcode = WEBSOCKET_OP_CODE_PONG then ([], .none)
  else ([], .socketCloseError)

/-- The loop over the bytes of one read, from `offset` on.  `sent` and `signal` say,
for the frame at an offset, how its pong was sent and whether a signal was raised
after it. -/
def receiveLoop (buffer : WebSocketRawBuffer) (sent : Nat → WebSocketErrorCode)
    (signal : Nat → Bool) (readSize : Nat) (payloadBuf : Mem) (offset : Nat) :
    List WebSocketEntity × WebSocketErrorCode :=
  if offset < readSize then
    let parsed := toWebsocketEntityConsumed (fun a => buffer.request (offset + a))
      (readSize - offset) (.zero payloadBuf)
    if parsed.1 = 0 then ([], .none)
    else
      let handled := opcodeHandle buffer (sent offset) parsed.2
      if handled.2 ≠ .none then handled
      else if signal offset then (handled.1, .fatalError)
      else
        let rest := receiveLoop buffer sent signal readSize parsed.2.payload (offset + parsed.1)
        (handled.1 ++ rest.1, rest.2)
  else ([], .none)
termination_by readSize - offset
decreasing_by
  show readSize - (offset + parsed.1) < readSize - offset
  omega

def receiveHandle (buffer : WebSocketRawBuffer) (sent : Nat → WebSocketErrorCode)
    (signal : Nat → Bool) (readSize : Nat) : List WebSocketEntity × WebSocketErrorCode :=
  receiveLoop buffer sent signal readSize (fun _ => 0) 0

/-- `epoll_receive` on a client whose `recv()` has returned `bytes`. -/
def epollReceive (buffer : WebSocketRawBuffer) (sent : Nat → WebSocketErrorCode)
    (signal : Nat → Bool) (bytes : List UInt8) : List WebSocketEntity × WebSocketErrorCode :=
  let buffer := { buffer with request := writeAt buffer.request 0 (bytes ++ [0]) }
  let handled := receiveHandle buffer sent signal bytes.length
  if handled.2 = .fatalError ∨ handled.2 = .socketCloseError then handled
  else (handled.1, .none)

/-- A `recv()` that returned bytes. -/
structure Recv where
  bytes : List UInt8
  nonempty : bytes ≠ []
  sent : Nat → WebSocketErrorCode

/-- What is done with a read while no signal asks the process to stop. -/
def Recv.handle (recv : Recv) (buffer : WebSocketRawBuffer) :
    List WebSocketEntity × WebSocketErrorCode :=
  epollReceive buffer recv.sent (fun _ => false) recv.bytes

/-- The frames that reach the receive callback.  After an error the client is closed,
and nothing more is read of it. -/
def delivered (buffer : WebSocketRawBuffer) : List Recv → List WebSocketEntity
  | [] => []
  | recv :: reads =>
    let handled := recv.handle buffer
    if handled.2 = .none then handled.1 ++ delivered buffer reads else handled.1

/-! ## Streams of frames -/

/-- A frame: an entity whose header fits. -/
structure Frame extends WebSocketEntity where
  fits : HeaderFits toWebSocketEntity

/-- The frames the receive callback is for. -/
def WebSocketEntity.IsData (entity : WebSocketEntity) : Prop :=
  entity.opcode = WEBSOCKET_OP_CODE_TEXT ∨ entity.opcode = WEBSOCKET_OP_CODE_BINARY

instance (entity : WebSocketEntity) : Decidable entity.IsData := by
  unfold WebSocketEntity.IsData
  infer_instance

/-- The frames after which the client is closed. -/
def WebSocketEntity.Closes (entity : WebSocketEntity) : Prop :=
  ¬ entity.IsData ∧ entity.opcode ≠ WEBSOCKET_OP_CODE_PING ∧
    entity.opcode ≠ WEBSOCKET_OP_CODE_PONG

instance (entity : WebSocketEntity) : Decidable entity.Closes := by
  unfold WebSocketEntity.Closes
  infer_instance

def wireBytes (frames : List Frame) : List UInt8 := frames.flatMap fun f => f.frameBytes

/-- A way the stream of some frames arrives: the reads, one behind the other, are the
stream, and every frame fits the buffer. -/
structure Arrival (buffer : WebSocketRawBuffer) where
  frames : List Frame
  reads : List Recv
  whole : (reads.map Recv.bytes).flatten = wireBytes frames
  fitsBuffer : ∀ f ∈ frames, f.frameLength ≤ buffer.capacity

/-- Every frame of the stream reaches the receive callback, in order and once. -/
def Delivers {buffer : WebSocketRawBuffer} (a : Arrival buffer) : Prop :=
  List.Forall₂ (fun parsed f => SameFrame parsed f.toWebSocketEntity) (delivered buffer a.reads)
    a.frames

/-- Every read is a run of whole frames. -/
def AtFrameEnds (reads : List Recv) (frames : List Frame) : Prop :=
  ∃ blocks : List (List Frame), blocks.flatten = frames ∧
    reads.map Recv.bytes = blocks.map wireBytes

/-! ## What a frame takes -/

theorem takePayload_consumed {raw : Mem} {capacity offset : Nat} {entity : WebSocketEntity}
    (hoffset : offset ≤ capacity) (h : (takePayload raw capacity entity offset).1 ≠ 0) :
    let parsed := takePayload raw capacity entity offset
    parsed.1 = offset + entity.extPayloadLen.toNat ∧ parsed.1 ≤ capacity ∧
      parsed.2.mask = entity.mask ∧ parsed.2.extPayloadLen = entity.extPayloadLen := by
  rw [takePayload] at h ⊢
  dsimp only at h ⊢
  split at h
  · exact absurd rfl h
  · rw [if_neg ‹_›]
    exact ⟨rfl, by dsimp only; omega, rfl, rfl⟩

theorem takeKey_consumed {raw : Mem} {capacity offset : Nat} {entity : WebSocketEntity}
    (hoffset : offset ≤ capacity) (h : (takeKey raw capacity entity offset).1 ≠ 0) :
    let parsed := takeKey raw capacity entity offset
    parsed.1 = offset + (if entity.mask ≠ 0 then 4 else 0) + entity.extPayloadLen.toNat ∧
      parsed.1 ≤ capacity ∧
      parsed.2.mask = entity.mask ∧ parsed.2.extPayloadLen = entity.extPayloadLen := by
  rw [takeKey] at h ⊢
  split at h
  · rename_i hm
    split at h
    · exact absurd rfl h
    · rw [if_pos hm, if_pos hm, if_neg ‹_›]
      exact takePayload_consumed (by omega) h
  · rename_i hm
    rw [if_neg hm, if_neg hm]
    exact takePayload_consumed hoffset h

/-- The three lengths of a header are the least for their payload. -/
theorem frameLength_le (entity : WebSocketEntity) {offset : Nat} (htwo : 2 ≤ offset)
    (hfour : entity.extPayloadLen.toNat ≤ 125 ∨ 4 ≤ offset)
    (hten : entity.extPayloadLen.toNat ≤ 0xFFFF ∨ 10 ≤ offset) :
    entity.frameLength ≤
      offset + (if entity.mask ≠ 0 then 4 else 0) + entity.extPayloadLen.toNat := by
  have h125 : entity.extPayloadLen ≤ 125 ↔ entity.extPayloadLen.toNat ≤ 125 :=
    UInt64.le_iff_toNat_le
  have h16 : entity.extPayloadLen ≤ 0xFFFF ↔ entity.extPayloadLen.toNat ≤ 0xFFFF :=
    UInt64.le_iff_toNat_le
  rw [WebSocketEntity.frameLength]
  simp only [h125, h16]
  split_ifs <;> omega

/-- **A frame that is read took its length of the bytes.** -/
theorem frameLength_le_consumed {raw : Mem} {capacity : Nat} {old : WebSocketEntity}
    (h : (toWebsocketEntityConsumed raw capacity old).1 ≠ 0) :
    (toWebsocketEntityConsumed raw capacity old).2.frameLength ≤
        (toWebsocketEntityConsumed raw capacity old).1 ∧
      (toWebsocketEntityConsumed raw capacity old).1 ≤ capacity := by
  have hcap : 2 ≤ capacity := by
    by_contra hlt
    rw [toWebsocketEntityConsumed, if_pos (by omega)] at h
    exact h rfl
  by_cases h126 : (takeHeader raw old).payloadLen = 126
  · have hlt : (takeLength raw 2 2).toNat < 256 ^ 2 := by
      have hofLE := ofLE_lt (readAt raw 2 2).reverse
      rwa [← toNat_takeLength raw 2 (by omega), List.length_reverse, length_readAt] at hofLE
    have hfour : 4 ≤ capacity ∧ (takeLength raw 2 2).toNat ≤ capacity := by
      by_contra hlt
      rw [toWebsocketEntityConsumed, if_neg (by omega)] at h
      dsimp only at h
      rw [if_pos h126, takeTwo_eq] at h
      split_ifs at h
      · exact h rfl
      · exact h rfl
      · omega
    rw [entityConsumed_two h126 hfour.1 hfour.2] at h ⊢
    obtain ⟨hn, hle, hmask, hext⟩ := takeKey_consumed hfour.1 h
    refine ⟨?_, hle⟩
    rw [hn, ← hmask, ← hext]
    exact frameLength_le _ (by omega) (.inr (by omega))
      (.inl (by rw [hext]; exact Nat.le_of_lt_succ hlt))
  by_cases h127 : (takeHeader raw old).payloadLen = 127
  · have hten : 10 ≤ capacity := by
      by_contra hlt
      rw [toWebsocketEntityConsumed, if_neg (by omega)] at h
      dsimp only at h
      rw [if_neg h126, if_pos h127, if_pos (by omega)] at h
      exact h rfl
    rw [entityConsumed_eight h127 hten] at h ⊢
    obtain ⟨hn, hle, hmask, hext⟩ := takeKey_consumed hten h
    refine ⟨?_, hle⟩
    rw [hn, ← hmask, ← hext]
    exact frameLength_le _ (by omega) (.inr (by omega)) (.inr (by omega))
  · rw [entityConsumed_seven hcap h126 h127] at h ⊢
    obtain ⟨hn, hle, hmask, hext⟩ := takeKey_consumed hcap h
    have hseven : (takeHeader raw old).payloadLen.toUInt64.toNat ≤ 125 := by
      have hlt : (takeHeader raw old).payloadLen.toNat < 128 := by
        show (raw 1 &&& 0x7F).toNat < 128
        rw [UInt8.toNat_and]
        exact Nat.and_lt_two_pow _ (n := 7) (by decide)
      have hne : ∀ k : UInt8, (takeHeader raw old).payloadLen ≠ k →
          (takeHeader raw old).payloadLen.toNat ≠ k.toNat := fun k hk h => hk (UInt8.toNat.inj h)
      have h6 : _ ≠ 126 := hne 126 h126
      have h7 : _ ≠ 127 := hne 127 h127
      rw [UInt8.toNat_toUInt64]
      omega
    refine ⟨?_, hle⟩
    rw [hn, ← hmask, ← hext]
    exact frameLength_le _ (by omega) (.inl (by rw [hext]; exact hseven))
      (.inl (by rw [hext]; exact Nat.le_trans hseven (by decide)))

/-! ## What a read delivers -/

def totalLength (entities : List WebSocketEntity) : Nat :=
  (entities.map WebSocketEntity.frameLength).sum

theorem totalLength_append (a b : List WebSocketEntity) :
    totalLength (a ++ b) = totalLength a + totalLength b := by
  rw [totalLength, List.map_append, List.sum_append]
  rfl

/-- Only data frames are delivered. -/
theorem opcodeHandle_delivered (buffer : WebSocketRawBuffer) (sent : WebSocketErrorCode)
    (entity : WebSocketEntity) :
    (opcodeHandle buffer sent entity).1 = [] ∨
      (opcodeHandle buffer sent entity).1 = [entity] ∧ entity.IsData := by
  rw [opcodeHandle]
  dsimp only
  split_ifs with hdata
  · exact .inr ⟨rfl, hdata⟩
  all_goals exact .inl rfl

theorem totalLength_opcodeHandle (buffer : WebSocketRawBuffer) (sent : WebSocketErrorCode)
    {raw : Mem} {capacity : Nat} {old : WebSocketEntity}
    (hread : (toWebsocketEntityConsumed raw capacity old).1 ≠ 0) :
    let parsed := toWebsocketEntityConsumed raw capacity old
    totalLength (opcodeHandle buffer sent parsed.2).1 ≤ parsed.1 ∧ parsed.1 ≤ capacity := by
  obtain ⟨htaken, hle⟩ := frameLength_le_consumed hread
  refine ⟨?_, hle⟩
  rcases opcodeHandle_delivered buffer sent (toWebsocketEntityConsumed raw capacity old).2
    with h | ⟨h, -⟩
  · rw [h]
    exact Nat.zero_le _
  · rw [h, totalLength, List.map_singleton, List.sum_singleton]
    exact htaken

/-- The frames of a read take no more than its bytes. -/
theorem totalLength_receiveLoop (buffer : WebSocketRawBuffer) (sent : Nat → WebSocketErrorCode)
    (signal : Nat → Bool) (readSize : Nat) (payloadBuf : Mem) {offset : Nat}
    (hoffset : offset ≤ readSize) :
    offset + totalLength (receiveLoop buffer sent signal readSize payloadBuf offset).1 ≤
      readSize := by
  induction payloadBuf, offset using receiveLoop.induct buffer sent signal readSize with
  | case1 payloadBuf offset hlt parsed hzero =>
    rw [receiveLoop, if_pos hlt]
    dsimp only
    rw [if_pos hzero]
    exact hoffset
  | case2 payloadBuf offset hlt parsed hpos handled hstop =>
    have hframe : totalLength handled.1 ≤ parsed.1 ∧ parsed.1 ≤ readSize - offset :=
      totalLength_opcodeHandle buffer (sent offset) hpos
    rw [receiveLoop, if_pos hlt]
    dsimp only
    rw [if_neg hpos, if_pos hstop]
    show offset + totalLength handled.1 ≤ readSize
    omega
  | case3 payloadBuf offset hlt parsed hpos handled hgo hsignal =>
    have hframe : totalLength handled.1 ≤ parsed.1 ∧ parsed.1 ≤ readSize - offset :=
      totalLength_opcodeHandle buffer (sent offset) hpos
    rw [receiveLoop, if_pos hlt]
    dsimp only
    rw [if_neg hpos, if_neg hgo, if_pos hsignal]
    show offset + totalLength handled.1 ≤ readSize
    omega
  | case4 payloadBuf offset hlt parsed hpos handled hgo hsignal ih =>
    have hframe : totalLength handled.1 ≤ parsed.1 ∧ parsed.1 ≤ readSize - offset :=
      totalLength_opcodeHandle buffer (sent offset) hpos
    have hrest := ih (by omega)
    rw [receiveLoop, if_pos hlt]
    dsimp only
    rw [if_neg hpos, if_neg hgo, if_neg hsignal]
    dsimp only
    rw [totalLength_append]
    show offset + (totalLength handled.1 + totalLength (receiveLoop buffer sent signal readSize
      parsed.2.payload (offset + parsed.1)).1) ≤ readSize
    omega
  | case5 payloadBuf offset hge =>
    rw [receiveLoop, if_neg hge]
    exact hoffset

theorem isData_of_mem_receiveLoop {buffer : WebSocketRawBuffer} {sent : Nat → WebSocketErrorCode}
    {signal : Nat → Bool} {readSize : Nat} {payloadBuf : Mem} {offset : Nat} :
    ∀ e ∈ (receiveLoop buffer sent signal readSize payloadBuf offset).1, e.IsData := by
  have hhandled : ∀ offset entity, ∀ e ∈ (opcodeHandle buffer (sent offset) entity).1,
      e.IsData := by
    intro offset entity e he
    rcases opcodeHandle_delivered buffer (sent offset) entity with h | ⟨h, hdata⟩
    · rw [h] at he
      exact absurd he List.not_mem_nil
    · rw [h, List.mem_singleton] at he
      exact he ▸ hdata
  induction payloadBuf, offset using receiveLoop.induct buffer sent signal readSize with
  | case1 payloadBuf offset hlt parsed hzero =>
    rw [receiveLoop, if_pos hlt]
    dsimp only
    rw [if_pos hzero]
    exact fun e he => absurd he List.not_mem_nil
  | case2 payloadBuf offset hlt parsed hpos handled hstop =>
    rw [receiveLoop, if_pos hlt]
    dsimp only
    rw [if_neg hpos, if_pos hstop]
    exact hhandled offset parsed.2
  | case3 payloadBuf offset hlt parsed hpos handled hgo hsignal =>
    rw [receiveLoop, if_pos hlt]
    dsimp only
    rw [if_neg hpos, if_neg hgo, if_pos hsignal]
    exact hhandled offset parsed.2
  | case4 payloadBuf offset hlt parsed hpos handled hgo hsignal ih =>
    rw [receiveLoop, if_pos hlt]
    dsimp only
    rw [if_neg hpos, if_neg hgo, if_neg hsignal]
    intro e he
    rcases List.mem_append.mp he with he | he
    · exact hhandled offset parsed.2 e he
    · exact ih e he
  | case5 payloadBuf offset hge =>
    rw [receiveLoop, if_neg hge]
    exact fun e he => absurd he List.not_mem_nil

theorem handle_fst (buffer : WebSocketRawBuffer) (recv : Recv) :
    (recv.handle buffer).1 = (receiveHandle
      { buffer with request := writeAt buffer.request 0 (recv.bytes ++ [0]) } recv.sent
      (fun _ => false) recv.bytes.length).1 := by
  rw [Recv.handle, epollReceive]
  split <;> rfl

theorem totalLength_handle (buffer : WebSocketRawBuffer) (recv : Recv) :
    totalLength (recv.handle buffer).1 ≤ recv.bytes.length := by
  have hloop := totalLength_receiveLoop
    { buffer with request := writeAt buffer.request 0 (recv.bytes ++ [0]) } recv.sent
    (fun _ => false) recv.bytes.length (fun _ => 0) (Nat.zero_le _)
  rw [handle_fst, receiveHandle]
  omega

theorem isData_of_mem_delivered {buffer : WebSocketRawBuffer} {reads : List Recv} :
    ∀ e ∈ delivered buffer reads, e.IsData := by
  induction reads with
  | nil => exact fun e he => absurd he List.not_mem_nil
  | cons recv reads ih =>
    have hread : ∀ e ∈ (recv.handle buffer).1, e.IsData := by
      rw [handle_fst]
      exact isData_of_mem_receiveLoop
    intro e he
    rw [delivered] at he
    split at he
    · exact (List.mem_append.mp he).elim (hread e) (ih e)
    · exact hread e he

/-- The bytes of some reads. -/
def totalBytes (reads : List Recv) : Nat := (reads.map fun r => r.bytes.length).sum

theorem totalBytes_cons (recv : Recv) (reads : List Recv) :
    totalBytes (recv :: reads) = recv.bytes.length + totalBytes reads := rfl

theorem totalLength_delivered (buffer : WebSocketRawBuffer) (reads : List Recv) :
    totalLength (delivered buffer reads) ≤ totalBytes reads := by
  induction reads with
  | nil => exact Nat.le_refl _
  | cons recv reads ih =>
    have hread := totalLength_handle buffer recv
    rw [delivered, totalBytes_cons]
    split
    · rw [totalLength_append]
      omega
    · omega

/-! ## Reads that deliver every byte -/

def framesLength (frames : List Frame) : Nat := (frames.map fun f => f.frameLength).sum

theorem length_wireBytes (frames : List Frame) :
    (wireBytes frames).length = framesLength frames := by
  induction frames with
  | nil => rfl
  | cons f frames ih =>
    show (f.frameBytes ++ wireBytes frames).length = f.frameLength + framesLength frames
    rw [List.length_append, f.length_frameBytes, ih]

abbrev SameFrames (entities : List WebSocketEntity) (frames : List Frame) : Prop :=
  List.Forall₂ (fun parsed f => SameFrame parsed f.toWebSocketEntity) entities frames

theorem SameFrame.frameLength_eq {parsed entity : WebSocketEntity} (h : SameFrame parsed entity) :
    parsed.frameLength = entity.frameLength := by
  rw [WebSocketEntity.frameLength, WebSocketEntity.frameLength, h.mask, h.extPayloadLen]

theorem totalLength_of_sameFrames {entities : List WebSocketEntity} {frames : List Frame}
    (h : SameFrames entities frames) : totalLength entities = framesLength frames := by
  induction h with
  | nil => rfl
  | cons hf _ ih =>
    show _ + totalLength _ = _ + framesLength _
    rw [hf.frameLength_eq, ih]

theorem totalBytes_eq_zero {reads : List Recv} (h : totalBytes reads = 0) : reads = [] := by
  cases reads with
  | nil => rfl
  | cons recv reads =>
    have hpos := List.length_pos_of_ne_nil recv.nonempty
    rw [totalBytes_cons] at h
    omega

theorem sameFrames_split {a b : List WebSocketEntity} {frames : List Frame}
    (h : SameFrames (a ++ b) frames) :
    SameFrames a (frames.take a.length) ∧ SameFrames b (frames.drop a.length) := by
  have htake := List.forall₂_take a.length h
  have hdrop := List.forall₂_drop a.length h
  rw [List.take_left] at htake
  rw [List.drop_left] at hdrop
  exact ⟨htake, hdrop⟩

theorem framesLength_append (a b : List Frame) :
    framesLength (a ++ b) = framesLength a + framesLength b := by
  rw [framesLength, List.map_append, List.sum_append]
  rfl

/-- If the frames delivered are as long as the reads, each read is as long as a run
of them. -/
theorem blocks_of_delivered {buffer : WebSocketRawBuffer} {reads : List Recv}
    {frames : List Frame} (hsame : SameFrames (delivered buffer reads) frames)
    (hall : totalBytes reads = framesLength frames) :
    ∃ blocks : List (List Frame), blocks.flatten = frames ∧
      reads.map (fun r => r.bytes.length) = blocks.map framesLength := by
  induction reads generalizing frames with
  | nil =>
    cases hsame
    exact ⟨[], rfl, rfl⟩
  | cons recv reads ih =>
    have hread := totalLength_handle buffer recv
    rw [delivered] at hsame
    rw [totalBytes_cons] at hall
    split at hsame
    · obtain ⟨hhere, hlater⟩ := sameFrames_split hsame
      have hparts := framesLength_append (frames.take (recv.handle buffer).1.length)
        (frames.drop (recv.handle buffer).1.length)
      have hhereLength := totalLength_of_sameFrames hhere
      have hlaterLength := totalLength_of_sameFrames hlater
      have hrest := totalLength_delivered buffer reads
      rw [List.take_append_drop] at hparts
      obtain ⟨blocks, hflat, hlengths⟩ := ih hlater (by omega)
      refine ⟨frames.take (recv.handle buffer).1.length :: blocks, ?_, ?_⟩
      · rw [List.flatten_cons, hflat, List.take_append_drop]
      · rw [List.map_cons, List.map_cons, hlengths]
        congr 1
        omega
    · have htotal := totalLength_of_sameFrames hsame
      have hnil : reads = [] := totalBytes_eq_zero (by omega)
      subst hnil
      have hlength : recv.bytes.length = framesLength frames := hall
      refine ⟨[frames], List.flatten_singleton, ?_⟩
      rw [List.map_singleton, List.map_singleton, hlength]

theorem flatten_eq_of_lengths {α : Type} : ∀ {a b : List (List α)}, a.flatten = b.flatten →
    a.map List.length = b.map List.length → a = b
  | [], [], _, _ => rfl
  | x :: a, y :: b, hflat, hlen => by
    rw [List.map_cons, List.map_cons] at hlen
    obtain ⟨hxy, hab⟩ := List.cons_eq_cons.mp hlen
    rw [List.flatten_cons, List.flatten_cons] at hflat
    obtain ⟨rfl, hrest⟩ := List.append_inj hflat hxy
    rw [flatten_eq_of_lengths hrest hab]

theorem wireBytes_flatten (blocks : List (List Frame)) :
    wireBytes blocks.flatten = (blocks.map wireBytes).flatten := by
  induction blocks with
  | nil => rfl
  | cons block blocks ih =>
    rw [List.flatten_cons, wireBytes, List.flatMap_append, List.map_cons, List.flatten_cons, ← ih]
    rfl

/-- **Nothing is delivered twice and nothing late**: if every frame arrives, no read ends
within one. -/
theorem atFrameEnds_of_delivers {buffer : WebSocketRawBuffer} {a : Arrival buffer}
    (h : Delivers a) : AtFrameEnds a.reads a.frames := by
  have hall : totalBytes a.reads = framesLength a.frames := by
    rw [← length_wireBytes, ← a.whole, List.length_flatten, List.map_map]
    rfl
  obtain ⟨blocks, hflat, hlengths⟩ := blocks_of_delivered h hall
  refine ⟨blocks, hflat, flatten_eq_of_lengths ?_ ?_⟩
  · rw [a.whole, ← hflat, wireBytes_flatten]
  · rw [List.map_map, List.map_map]
    refine hlengths.trans (List.map_congr_left fun block _ => ?_)
    exact (length_wireBytes block).symm

/-! ## Reads that end where frames end -/

/-- The frames that reach the callback when nothing is lost: the data frames before the
one that closes the connection. -/
def expected (frames : List Frame) : List Frame :=
  (frames.takeWhile fun f => !decide f.Closes).filter fun f => decide f.IsData

theorem expected_of_closes {f : Frame} (h : f.Closes) (frames : List Frame) :
    expected (f :: frames) = [] := by
  rw [expected, List.takeWhile_cons_of_neg (by simpa using h), List.filter_nil]

theorem expected_of_not_closes {f : Frame} (h : ¬ f.Closes) (frames : List Frame) :
    expected (f :: frames) = (if f.IsData then [f] else []) ++ expected frames := by
  rw [expected, List.takeWhile_cons_of_pos (by simpa using h), List.filter_cons, expected]
  simp only [decide_eq_true_eq]
  split <;> rfl

theorem SameFrame.isData {parsed entity : WebSocketEntity} (h : SameFrame parsed entity) :
    parsed.IsData ↔ entity.IsData := by
  rw [WebSocketEntity.IsData, WebSocketEntity.IsData, h.opcode]

theorem SameFrame.closes {parsed entity : WebSocketEntity} (h : SameFrame parsed entity) :
    parsed.Closes ↔ entity.Closes := by
  rw [WebSocketEntity.Closes, WebSocketEntity.Closes, h.isData, h.opcode]

theorem toWebsocketPacket_ne_zero {entity : WebSocketEntity} {capacity : Nat}
    (hcap : entity.frameLength ≤ capacity) (raw : Mem) :
    (toWebsocketPacket entity capacity raw).1 ≠ 0 := by
  have htwo : 2 + entity.extPayloadLen.toNat ≤ entity.frameLength := by
    rw [WebSocketEntity.frameLength]
    omega
  by_cases hshort : entity.extPayloadLen ≤ 0xFFFF
  · rw [toWebsocketPacket_short hshort hcap]
    dsimp only
    omega
  · have hlong := toWebsocketPacket_long (lt_of_not_le hshort) hcap raw
    omega

/-- The pong of a frame is no longer than the frame. -/
theorem pong_made {buffer : WebSocketRawBuffer} {entity : WebSocketEntity}
    (hfits : entity.frameLength ≤ buffer.capacity) :
    (toWebsocketPacket { entity with mask := 0, opcode := WEBSOCKET_OP_CODE_PONG }
      buffer.capacity buffer.response).1 ≠ 0 := by
  refine toWebsocketPacket_ne_zero (Nat.le_trans ?_ hfits) buffer.response
  rw [WebSocketEntity.frameLength, WebSocketEntity.frameLength, if_neg (not_not.mpr rfl)]
  dsimp only
  omega

/-- What is done with a frame. -/
theorem opcodeHandle_eq {buffer : WebSocketRawBuffer} {sent : WebSocketErrorCode}
    {entity : WebSocketEntity} (hfits : entity.frameLength ≤ buffer.capacity)
    (hsent : entity.IsData ∨ sent = .none) :
    opcodeHandle buffer sent entity =
      (if entity.IsData then [entity] else [],
        if entity.Closes then .socketCloseError else .none) := by
  rw [opcodeHandle]
  by_cases hdata : entity.IsData
  · have hgo : ¬ entity.Closes := fun h => h.1 hdata
    have hop : entity.opcode = WEBSOCKET_OP_CODE_TEXT ∨
      entity.opcode = WEBSOCKET_OP_CODE_BINARY := hdata
    rw [if_pos hop, if_pos hdata, if_neg hgo]
  have hop : ¬ (entity.opcode = WEBSOCKET_OP_CODE_TEXT ∨
    entity.opcode = WEBSOCKET_OP_CODE_BINARY) := hdata
  have hnone : sent = .none := hsent.resolve_left hdata
  rw [if_neg hop, if_neg hdata, if_neg (pong_made hfits), hnone]
  by_cases hping : entity.opcode = WEBSOCKET_OP_CODE_PING
  · have hgo : ¬ entity.Closes := fun h => h.2.1 hping
    rw [if_neg (by rw [hping]; decide), if_pos hping, if_neg hgo]
  by_cases hpong : entity.opcode = WEBSOCKET_OP_CODE_PONG
  · have hgo : ¬ entity.Closes := fun h => h.2.2 hpong
    rw [if_neg (by rw [hpong]; decide), if_neg hping, if_pos hpong, if_neg hgo]
  · rw [if_neg hping, if_neg hpong, if_pos (show entity.Closes from ⟨hdata, hping, hpong⟩)]
    split <;> rfl

theorem receiveLoop_block (buffer : WebSocketRawBuffer) (sent : Nat → WebSocketErrorCode)
    {block : List Frame} (offset : Nat) (payloadBuf : Mem)
    (hbytes : readAt buffer.request offset (wireBytes block).length = wireBytes block)
    (hfits : ∀ f ∈ block, f.frameLength ≤ buffer.capacity)
    (hsent : ∀ f ∈ block, f.IsData ∨ ∀ i, sent i = .none) :
    let handled := receiveLoop buffer sent (fun _ => false) (offset + (wireBytes block).length)
      payloadBuf offset
    SameFrames handled.1 (expected block) ∧
      handled.2 = if ∃ f ∈ block, f.Closes then .socketCloseError else .none := by
  induction block generalizing offset payloadBuf with
  | nil =>
    rw [receiveLoop, if_neg (by exact Nat.lt_irrefl _)]
    exact ⟨.nil, by simp⟩
  | cons f block ih =>
    have hwire : wireBytes (f :: block) = f.frameBytes ++ wireBytes block := rfl
    rw [hwire] at hbytes
    obtain ⟨hframe, hrest⟩ := readAt_eq_append hbytes
    have hraw : readAt (fun a => buffer.request (offset + a)) 0 f.frameLength = f.frameBytes := by
      rw [← f.length_frameBytes, ← hframe, length_readAt]
      exact readAt_congr fun i _ => by rw [Nat.zero_add]
    have hlength : f.frameLength ≤ offset + (wireBytes (f :: block)).length - offset := by
      rw [hwire, List.length_append, f.length_frameBytes]
      omega
    obtain ⟨parsed, hparsed, hread⟩ := entityConsumed_frameBytes hraw hlength (.zero payloadBuf)
    have hsame : SameFrame parsed f.toWebSocketEntity := (sameFrame_iff hread).mpr f.fits
    have hpos : f.frameLength ≠ 0 := by
      rw [WebSocketEntity.frameLength]
      omega
    have hhandled : opcodeHandle buffer (sent offset) parsed =
        (if parsed.IsData then [parsed] else [],
          if parsed.Closes then .socketCloseError else .none) :=
      opcodeHandle_eq (by rw [hsame.frameLength_eq]; exact hfits f List.mem_cons_self)
        ((hsent f List.mem_cons_self).imp hsame.isData.mpr fun h => h offset)
    rw [receiveLoop, if_pos (by omega)]
    dsimp only
    rw [hparsed, if_neg hpos, hhandled]
    dsimp only
    by_cases hcloses : f.Closes
    · have hnot : ¬ parsed.IsData := fun h => hcloses.1 (hsame.isData.mp h)
      rw [if_pos (hsame.closes.mpr hcloses), if_neg hnot, if_pos (by decide),
        expected_of_closes hcloses, if_pos ⟨f, List.mem_cons_self, hcloses⟩]
      exact ⟨.nil, rfl⟩
    · have hend : offset + (wireBytes (f :: block)).length =
          offset + f.frameLength + (wireBytes block).length := by
        rw [hwire, List.length_append, f.length_frameBytes, Nat.add_assoc]
      obtain ⟨hlater, hcode⟩ := ih (offset + f.frameLength) parsed.payload
        (by rwa [← f.length_frameBytes]) (fun g hg => hfits g (List.mem_cons_of_mem _ hg))
        (fun g hg => hsent g (List.mem_cons_of_mem _ hg))
      have hhere : SameFrames (if parsed.IsData then [parsed] else [])
          (if f.IsData then [f] else []) := by
        by_cases hdata : f.IsData
        · rw [if_pos hdata, if_pos (hsame.isData.mpr hdata)]
          exact .cons hsame .nil
        · rw [if_neg hdata, if_neg fun h => hdata (hsame.isData.mp h)]
          exact .nil
      have hlast : (∃ g ∈ f :: block, g.Closes) ↔ ∃ g ∈ block, g.Closes := by
        rw [List.exists_mem_cons_iff, or_iff_right hcloses]
      rw [if_neg fun h => hcloses (hsame.closes.mp h), if_neg (by decide), if_neg (by decide),
        expected_of_not_closes hcloses, hend]
      refine ⟨List.rel_append hhere hlater, hcode.trans ?_⟩
      simp only [hlast]

theorem expected_append (a b : List Frame) :
    expected (a ++ b) = expected a ++ if ∃ f ∈ a, f.Closes then [] else expected b := by
  induction a with
  | nil => simp [expected]
  | cons f a ih =>
    rw [List.cons_append]
    by_cases hcloses : f.Closes
    · rw [expected_of_closes hcloses, expected_of_closes hcloses,
        if_pos ⟨f, List.mem_cons_self, hcloses⟩, List.append_nil]
    · have hlast : (∃ g ∈ f :: a, g.Closes) ↔ ∃ g ∈ a, g.Closes := by
        rw [List.exists_mem_cons_iff, or_iff_right hcloses]
      rw [expected_of_not_closes hcloses, expected_of_not_closes hcloses, ih, List.append_assoc]
      simp only [hlast]

/-- A read that is a run of whole frames. -/
theorem handle_block {buffer : WebSocketRawBuffer} {recv : Recv} {block : List Frame}
    (hbytes : recv.bytes = wireBytes block)
    (hfits : ∀ f ∈ block, f.frameLength ≤ buffer.capacity)
    (hsent : ∀ f ∈ block, f.IsData ∨ ∀ i, recv.sent i = .none) :
    SameFrames (recv.handle buffer).1 (expected block) ∧
      (recv.handle buffer).2 =
        if ∃ f ∈ block, f.Closes then .socketCloseError else .none := by
  have hrequest : readAt (writeAt buffer.request 0 (recv.bytes ++ [0])) 0
      (wireBytes block).length = wireBytes block := by
    have hwhole := readAt_writeAt_same buffer.request 0 (recv.bytes ++ [0]) rfl
    rw [hbytes] at hwhole
    rw [hbytes]
    exact (readAt_eq_append hwhole).1
  obtain ⟨hsame, hcode⟩ := receiveLoop_block
    { buffer with request := writeAt buffer.request 0 (recv.bytes ++ [0]) } recv.sent 0
    (fun _ => 0) hrequest hfits hsent
  rw [Nat.zero_add, ← hbytes] at hsame hcode
  refine ⟨by rw [handle_fst]; exact hsame, ?_⟩
  rw [Recv.handle, epollReceive, receiveHandle, hcode]
  by_cases hcloses : ∃ f ∈ block, f.Closes
  · simp only [if_pos hcloses]
    rw [if_pos (by decide), hcode, if_pos hcloses]
  · simp only [if_neg hcloses]
    rw [if_neg (by decide)]

/-- **Reads that end where frames end lose nothing.** -/
theorem delivered_of_blocks {buffer : WebSocketRawBuffer} {reads : List Recv}
    {blocks : List (List Frame)} (hbytes : reads.map Recv.bytes = blocks.map wireBytes)
    (hfits : ∀ f ∈ blocks.flatten, f.frameLength ≤ buffer.capacity)
    (hsent : ∀ f ∈ blocks.flatten, f.IsData ∨ ∀ r ∈ reads, ∀ i, r.sent i = .none) :
    SameFrames (delivered buffer reads) (expected blocks.flatten) := by
  induction reads generalizing blocks with
  | nil =>
    rw [List.map_nil] at hbytes
    rw [List.map_eq_nil_iff.mp hbytes.symm]
    exact .nil
  | cons recv reads ih =>
    cases blocks with
    | nil => cases hbytes
    | cons block blocks =>
      obtain ⟨hfirst, hrest⟩ := List.cons_eq_cons.mp hbytes
      rw [List.flatten_cons] at hfits hsent
      obtain ⟨hhere, hcode⟩ := handle_block hfirst
        (fun f hf => hfits f (List.mem_append_left _ hf))
        (fun f hf => (hsent f (List.mem_append_left _ hf)).imp_right
          fun h => h recv List.mem_cons_self)
      have hlater := ih hrest (fun f hf => hfits f (List.mem_append_right _ hf))
        (fun f hf => (hsent f (List.mem_append_right _ hf)).imp_right
          fun h r hr => h r (List.mem_cons_of_mem _ hr))
      rw [delivered, List.flatten_cons, expected_append, hcode]
      by_cases hcloses : ∃ f ∈ block, f.Closes
      · rw [if_pos hcloses, if_pos hcloses, if_neg (by decide), List.append_nil]
        exact hhere
      · rw [if_neg hcloses, if_neg hcloses, if_pos rfl]
        exact List.rel_append hhere hlater

theorem expected_of_isData {frames : List Frame} (h : ∀ f ∈ frames, f.IsData) :
    expected frames = frames := by
  induction frames with
  | nil => rfl
  | cons f frames ih =>
    have hdata := h f List.mem_cons_self
    rw [expected_of_not_closes fun hc => hc.1 hdata, if_pos hdata,
      ih fun g hg => h g (List.mem_cons_of_mem _ hg), List.singleton_append]

theorem isData_of_sameFrames {entities : List WebSocketEntity} {frames : List Frame}
    (h : SameFrames entities frames) (hdata : ∀ e ∈ entities, e.IsData) :
    ∀ f ∈ frames, f.IsData := by
  induction h with
  | nil => exact fun f hf => absurd hf List.not_mem_nil
  | cons hf _ ih =>
    rw [List.forall_mem_cons] at hdata ⊢
    exact ⟨hf.isData.mp hdata.1, ih hdata.2⟩

/-- Of a stream read frame by frame, the data frames arrive that stand before the one
that closes the connection, as long as the pongs can be sent. -/
theorem delivered_of_atFrameEnds {buffer : WebSocketRawBuffer} {a : Arrival buffer}
    (h : AtFrameEnds a.reads a.frames) (hsent : ∀ r ∈ a.reads, ∀ i, r.sent i = .none) :
    SameFrames (delivered buffer a.reads) (expected a.frames) := by
  obtain ⟨blocks, hflat, hbytes⟩ := h
  rw [← hflat]
  exact delivered_of_blocks hbytes (by rw [hflat]; exact a.fitsBuffer) fun _ _ => .inr hsent

/-- **What survives the reads, exactly**: every frame of the stream reaches the receive
callback if and only if all are data frames and no read ends within a frame. -/
theorem delivers_iff {buffer : WebSocketRawBuffer} (a : Arrival buffer) :
    Delivers a ↔ (∀ f ∈ a.frames, f.IsData) ∧ AtFrameEnds a.reads a.frames := by
  constructor
  · intro h
    exact ⟨isData_of_sameFrames h isData_of_mem_delivered, atFrameEnds_of_delivers h⟩
  · rintro ⟨hdata, blocks, hflat, hbytes⟩
    have hsame : SameFrames (delivered buffer a.reads) (expected blocks.flatten) :=
      delivered_of_blocks hbytes (by rw [hflat]; exact a.fitsBuffer) fun f hf =>
        .inl (hdata f (hflat ▸ hf))
    rwa [hflat, expected_of_isData hdata] at hsame

/-- A text of two bytes under a masking key. -/
def greeting : Frame where
  fin := 1
  rsv1 := 0
  rsv2 := 0
  rsv3 := 0
  opcode := WEBSOCKET_OP_CODE_TEXT
  mask := 1
  payloadLen := 2
  extPayloadLen := 2
  maskingKey := #v[1, 2, 3, 4]
  payload := fun i => if i = 0 then 0x68 else 0x69
  fits := ⟨by decide, by decide, by decide, by decide, by decide, by decide⟩

/-- The text in two reads, the first of which ends behind its header. -/
def brokenGreeting : Arrival ⟨64, fun _ => 0, fun _ => 0⟩ where
  frames := [greeting]
  reads := [⟨(wireBytes [greeting]).take 6, by decide, fun _ => .none⟩,
    ⟨(wireBytes [greeting]).drop 6, by decide, fun _ => .none⟩]
  whole := by simp
  fitsBuffer := by decide

/-- A frame that comes in two reads does not arrive. -/
theorem brokenGreeting_lost : ¬ Delivers brokenGreeting := by
  intro h
  obtain ⟨blocks, hflat, hbytes⟩ := atFrameEnds_of_delivers h
  cases blocks with
  | nil => cases hflat
  | cons block blocks =>
    have hfirst : (wireBytes [greeting]).take 6 = wireBytes block :=
      (List.cons_eq_cons.mp hbytes).1
    have hsix : framesLength block = 6 := by
      rw [← length_wireBytes, ← hfirst]
      decide
    have height : greeting.frameLength = 8 := by decide
    rw [List.flatten_cons] at hflat
    rcases block with _ | ⟨f, rest⟩
    · cases hsix
    · obtain ⟨hf, -⟩ := List.cons_eq_cons.mp hflat
      have hlength : framesLength (f :: rest) = f.frameLength + framesLength rest := rfl
      have hgreeting : f.frameLength = greeting.frameLength := by rw [hf]
      omega

end OnionRelay.Websocket
