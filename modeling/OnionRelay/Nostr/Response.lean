import Mathlib.Data.Nat.Digits.Lemmas
import OnionRelay.Lib.Memory
import OnionRelay.Nostr.Types

/-!
# Responses

`nostr_response_event` copies one piece after another into its buffer: text as it is,
strings with JSON escapes, and numbers.  Each copy writes what fits and counts what it
would have written; at the end the count says whether all of it is there
(`nostrResponseEvent_eq`).
-/

namespace OnionRelay

open OnionRelay.Lib

/-! ## Escapes -/

/-- `escape_char_len` -/
def escapeCharLen (c : UInt8) : Nat :=
  if c = 34 ∨ c = 92 ∨ c = 8 ∨ c = 12 ∨ c = 10 ∨ c = 13 ∨ c = 9 then 2
  else if c < 0x20 then 6
  else 1

/-- What `safe_copy_json_escaped` writes for one character. -/
def escapeChar (c : UInt8) : List UInt8 :=
  if c = 34 ∨ c = 92 then [92, c]
  else if c = 8 then [92, 98]
  else if c = 12 then [92, 102]
  else if c = 10 then [92, 110]
  else if c = 13 then [92, 114]
  else if c = 9 then [92, 116]
  else if c < 0x20 then [92, 117, 48, 48, hexDigit ((c >>> 4) &&& 0x0F), hexDigit (c &&& 0x0F)]
  else [c]

/-- A string with its escapes. -/
def jsonEscape (s : CStr) : List UInt8 := s.flatMap escapeChar

/-- The part of it that fits in `room` bytes; no escape is cut. -/
def jsonEscapeWithin : Nat → CStr → List UInt8
  | _, [] => []
  | room, c :: s =>
    if room < escapeCharLen c then [] else escapeChar c ++ jsonEscapeWithin (room - escapeCharLen c) s

/-! ## Numbers -/

/-- The digits of `write_uint32`. -/
def decimalText (value : Nat) : CStr :=
  if value = 0 then [48] else (Nat.digits 10 value).reverse.map fun d => UInt8.ofNat (48 + d)

/-- The text of `write_int64` for the number with these 64 bits.  The negation of the
least one leaves it as it is, and its loop has no round. -/
def int64Text (bits : Nat) : CStr :=
  if bits < 2 ^ 63 then decimalText bits
  else if bits = 2 ^ 63 then [45]
  else 45 :: decimalText (2 ^ 64 - bits)

/-! ## Pieces -/

/-- One call of a helper of the response functions. -/
inductive Piece
  | copy (s : CStr)
  | escaped (s : CStr)
  | number (s : CStr)

def Piece.text : Piece → List UInt8
  | .copy s => s
  | .escaped s => jsonEscape s
  | .number s => s

/-- The part of it that is written into `room` bytes. -/
def Piece.within (room : Nat) : Piece → List UInt8
  | .copy s => s.take room
  | .escaped s => jsonEscapeWithin room s
  | .number s => s.take room

/-- What is counted once the buffer is full; `write_int64` and `write_uint32` return 0. -/
def Piece.overflow : Piece → Nat
  | .copy s => s.length
  | .escaped s => (jsonEscape s).length
  | .number _ => 0

/-- The buffer, and `pos`. -/
structure Rendering where
  buffer : Mem
  pos : Nat

/-- `safe_copy`, `safe_copy_json_escaped`, and `write_int64` or `write_uint32`. -/
def Rendering.put (capacity : Nat) (st : Rendering) (piece : Piece) : Rendering :=
  if capacity ≤ st.pos then { st with pos := st.pos + piece.overflow }
  else
    ⟨writeAt st.buffer st.pos (piece.within (capacity - 1 - st.pos)), st.pos + piece.text.length⟩

/-- The end of a response function. -/
def Rendering.finish (capacity : Nat) (st : Rendering) : Bool × Mem :=
  if st.pos < capacity then (true, writeAt st.buffer st.pos [0])
  else (false, writeAt st.buffer (capacity - 1) [0])

/-- The values of a tag, each behind `,"` and with `"` behind. -/
def valuePieces (values : List CStr) : List Piece :=
  values.flatMap fun value => [.copy [44, 34], .escaped value, .copy [34]]

/-- One tag: `["`, the name, `"`, the values, `]`. -/
def tagPieces (tag : NostrTagEntity) : List Piece :=
  ([.copy [91, 34], .escaped tag.key, .copy [34]] : List Piece) ++ (valuePieces tag.values ++ [.copy [93]])

/-- The loop of `serialize_tags`: a comma in front of every tag but the first. -/
def tagListPieces : List NostrTagEntity → List Piece
  | [] => []
  | tag :: tags => tagPieces tag ++ tags.flatMap fun tag => .copy [44] :: tagPieces tag

/-- `serialize_tags` -/
def tagsPieces (tags : List NostrTagEntity) : List Piece :=
  .copy [91] :: (tagListPieces tags ++ [.copy [93]])

/-- The calls of `nostr_response_event`, in order. -/
def eventPieces (subscriptionId : CStr) (event : NostrEventEntity) : List Piece :=
  ([ -- ["EVENT","
    .copy [91, 34, 69, 86, 69, 78, 84, 34, 44, 34], .escaped subscriptionId,
    -- ",\x7b
    .copy [34, 44, 123],
    -- "id":"
    .copy [34, 105, 100, 34, 58, 34], .copy event.id, .copy [34, 44],
    -- "pubkey":"
    .copy [34, 112, 117, 98, 107, 101, 121, 34, 58, 34], .copy event.pubkey, .copy [34, 44],
    -- "created_at":
    .copy [34, 99, 114, 101, 97, 116, 101, 100, 95, 97, 116, 34, 58], .number (int64Text event.createdAt),
    .copy [44],
    -- "kind":
    .copy [34, 107, 105, 110, 100, 34, 58], .number (decimalText event.kind), .copy [44],
    -- "tags":
    .copy [34, 116, 97, 103, 115, 34, 58]] : List Piece) ++ (tagsPieces event.tags ++
  ([.copy [44],
    -- "content":"
    .copy [34, 99, 111, 110, 116, 101, 110, 116, 34, 58, 34], .escaped event.content, .copy [34, 44],
    -- "sig":"
    .copy [34, 115, 105, 103, 34, 58, 34], .copy event.sig, .copy [34],
    .copy [125, 93]] : List Piece))

/-- `nostr_response_event` -/
def nostrResponseEvent (subscriptionId : CStr) (event : NostrEventEntity) (buffer : Mem)
    (capacity : Nat) : Bool × Mem :=
  if capacity = 0 then (false, buffer)
  else ((eventPieces subscriptionId event).foldl (Rendering.put capacity) ⟨buffer, 0⟩).finish capacity

/-! ## What is written -/

theorem length_escapeChar : ∀ c : UInt8, (escapeChar c).length = escapeCharLen c :=
  forall_uint8 (by decide +kernel)

theorem escapeCharLen_bounds : ∀ c : UInt8, 1 ≤ escapeCharLen c ∧ escapeCharLen c ≤ 6 :=
  forall_uint8 (by decide +kernel)

@[simp] theorem jsonEscape_nil : jsonEscape [] = [] := rfl

@[simp] theorem jsonEscape_cons (c : UInt8) (s : CStr) :
    jsonEscape (c :: s) = escapeChar c ++ jsonEscape s := List.flatMap_cons

@[simp] theorem jsonEscape_append (s s' : CStr) :
    jsonEscape (s ++ s') = jsonEscape s ++ jsonEscape s' := List.flatMap_append

theorem jsonEscapeWithin_of_le {s : CStr} : ∀ {room : Nat}, (jsonEscape s).length ≤ room →
    jsonEscapeWithin room s = jsonEscape s := by
  induction s with
  | nil => exact fun _ => rfl
  | cons c s ih =>
    intro room hroom
    rw [jsonEscape_cons, List.length_append, length_escapeChar] at hroom
    rw [jsonEscapeWithin, if_neg (by omega), ih (by omega), jsonEscape_cons]

/-- The text of the pieces. -/
def piecesText (pieces : List Piece) : List UInt8 := pieces.flatMap Piece.text

@[simp] theorem piecesText_nil : piecesText [] = [] := rfl

@[simp] theorem piecesText_cons (piece : Piece) (pieces : List Piece) :
    piecesText (piece :: pieces) = piece.text ++ piecesText pieces := List.flatMap_cons

@[simp] theorem piecesText_append (pieces pieces' : List Piece) :
    piecesText (pieces ++ pieces') = piecesText pieces ++ piecesText pieces' := List.flatMap_append

@[simp] theorem valuePieces_cons (value : CStr) (values : List CStr) :
    valuePieces (value :: values) =
      .copy [44, 34] :: .escaped value :: .copy [34] :: valuePieces values := List.flatMap_cons

theorem Piece.within_of_le {piece : Piece} {room : Nat} (h : piece.text.length ≤ room) :
    piece.within room = piece.text := by
  cases piece with
  | copy s => exact List.take_of_length_le h
  | escaped s => exact jsonEscapeWithin_of_le h
  | number s => exact List.take_of_length_le h

namespace Rendering

variable {capacity : Nat}

/-- A piece that fits is written whole. -/
theorem put_of_lt {st : Rendering} {piece : Piece} (hfits : st.pos + piece.text.length < capacity) :
    st.put capacity piece = ⟨writeAt st.buffer st.pos piece.text, st.pos + piece.text.length⟩ := by
  rw [put, if_neg (by omega), Piece.within_of_le (by omega)]

theorem foldl_put_of_lt : ∀ {pieces : List Piece} {st : Rendering},
    st.pos + (piecesText pieces).length < capacity →
      pieces.foldl (put capacity) st =
        ⟨writeAt st.buffer st.pos (piecesText pieces), st.pos + (piecesText pieces).length⟩ := by
  intro pieces
  induction pieces with
  | nil =>
    intro st _
    rw [List.foldl_nil, piecesText_nil, writeAt_nil]
    rfl
  | cons piece pieces ih =>
    intro st hfits
    rw [piecesText_cons, List.length_append] at hfits
    rw [List.foldl_cons, put_of_lt (by omega), ih (by simp only; omega), piecesText_cons,
      writeAt_append _ _ _ _ rfl, List.length_append, Nat.add_assoc]

/-- Once the buffer is full it stays full. -/
theorem le_pos_foldl : ∀ {pieces : List Piece} {st : Rendering}, capacity ≤ st.pos →
    capacity ≤ (pieces.foldl (put capacity) st).pos := by
  intro pieces
  induction pieces with
  | nil => exact fun h => h
  | cons piece pieces ih =>
    intro st h
    refine ih ?_
    rw [put, if_pos h]
    exact Nat.le_trans h (Nat.le_add_right _ _)

/-- Text that does not fit fills it. -/
theorem foldl_put_of_le : ∀ {pieces : List Piece} {st : Rendering},
    capacity ≤ st.pos + (piecesText pieces).length →
      capacity ≤ (pieces.foldl (put capacity) st).pos := by
  intro pieces
  induction pieces with
  | nil =>
    intro st h
    exact h
  | cons piece pieces ih =>
    intro st h
    by_cases hfits : st.pos + piece.text.length < capacity
    · rw [piecesText_cons, List.length_append] at h
      rw [List.foldl_cons, put_of_lt hfits]
      exact ih (by simp only; omega)
    · rw [List.foldl_cons]
      refine le_pos_foldl ?_
      rw [put]
      by_cases hfull : capacity ≤ st.pos
      · rw [if_pos hfull]
        exact Nat.le_trans hfull (Nat.le_add_right _ _)
      · rw [if_neg hfull]
        exact Nat.le_of_not_lt hfits

end Rendering

/-- A response that fits is written, with a NUL behind. -/
theorem nostrResponseEvent_of_lt {subscriptionId : CStr} {event : NostrEventEntity} {capacity : Nat}
    (hfits : (piecesText (eventPieces subscriptionId event)).length < capacity) (buffer : Mem) :
    nostrResponseEvent subscriptionId event buffer capacity =
      (true, writeAt buffer 0 (piecesText (eventPieces subscriptionId event) ++ [0])) := by
  have hfits' : (⟨buffer, 0⟩ : Rendering).pos +
      (piecesText (eventPieces subscriptionId event)).length < capacity := by
    rw [Nat.zero_add]
    exact hfits
  rw [nostrResponseEvent, if_neg (by omega), Rendering.foldl_put_of_lt hfits', Rendering.finish,
    if_pos hfits', writeAt_append _ _ _ _ rfl]

/-- **The response is written when it fits**, and then the text is that of the pieces. -/
theorem nostrResponseEvent_eq {subscriptionId : CStr} {event : NostrEventEntity} {buffer out : Mem}
    {capacity : Nat} (h : nostrResponseEvent subscriptionId event buffer capacity = (true, out)) :
    (piecesText (eventPieces subscriptionId event)).length < capacity ∧
      out = writeAt buffer 0 (piecesText (eventPieces subscriptionId event) ++ [0]) := by
  by_cases hfits : (piecesText (eventPieces subscriptionId event)).length < capacity
  · rw [nostrResponseEvent_of_lt hfits] at h
    exact ⟨hfits, (congrArg Prod.snd h).symm⟩
  · have hfull := @Rendering.foldl_put_of_le capacity (eventPieces subscriptionId event) ⟨buffer, 0⟩
      (by simp only [Nat.zero_add]; omega)
    rw [nostrResponseEvent] at h
    split at h
    · exact absurd (congrArg Prod.fst h) (by simp)
    · rw [Rendering.finish, if_neg (by omega)] at h
      exact absurd (congrArg Prod.fst h) (by simp)

end OnionRelay
