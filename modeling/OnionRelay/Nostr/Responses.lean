import OnionRelay.Nostr.EventJson

/-!
# Responses, whole or not at all

The functions that answer a client: `EOSE`, `OK`, `NOTICE` and `CLOSED` beside `EVENT`.  Each copies
its pieces one behind the other and looks at the end whether all of it had room.  What they are to
write is the JSON text of an array without blanks (`eoseText` and the others); a buffer reported
as written holds exactly that (`responses_allOrNothing`).
-/

namespace OnionRelay

open OnionRelay.Lib OnionRelay.Db

/-! ## The functions -/

/-- What the response functions have in common. -/
def respond (pieces : List Piece) (buffer : Mem) (capacity : Nat) : Bool × Mem :=
  if capacity = 0 then (false, buffer)
  else (pieces.foldl (Rendering.put capacity) ⟨buffer, 0⟩).finish capacity

/-- The calls for a message that may be `NULL`. -/
def messagePieces : Option CStr → List Piece
  | none => []
  | some message => [.escaped message]

def eosePieces (subscriptionId : CStr) : List Piece :=
  [ -- ["EOSE","
    .copy [91, 34, 69, 79, 83, 69, 34, 44, 34], .escaped subscriptionId, .copy [34, 93]]

def okPieces (eventId : CStr) (success : Bool) (message : Option CStr) : List Piece :=
  ([ -- ["OK","
    .copy [91, 34, 79, 75, 34, 44, 34], .escaped eventId, .copy [34, 44],
    .copy (if success then [116, 114, 117, 101] else [102, 97, 108, 115, 101]), .copy [44, 34]] : List Piece) ++
    (messagePieces message ++ [.copy [34, 93]])

def noticePieces (message : CStr) : List Piece :=
  [ -- ["NOTICE","
    .copy [91, 34, 78, 79, 84, 73, 67, 69, 34, 44, 34], .escaped message, .copy [34, 93]]

def closedPieces (subscriptionId : CStr) (message : Option CStr) : List Piece :=
  ([ -- ["CLOSED","
    .copy [91, 34, 67, 76, 79, 83, 69, 68, 34, 44, 34], .escaped subscriptionId, .copy [34, 44, 34]] : List Piece) ++
    (messagePieces message ++ [.copy [34, 93]])

/-- `nostr_response_eose` -/
def nostrResponseEose (subscriptionId : CStr) : Mem → Nat → Bool × Mem := respond (eosePieces subscriptionId)

/-- `nostr_response_ok` -/
def nostrResponseOk (eventId : CStr) (success : Bool) (message : Option CStr) : Mem → Nat → Bool × Mem :=
  respond (okPieces eventId success message)

/-- `nostr_response_notice` -/
def nostrResponseNotice (message : CStr) : Mem → Nat → Bool × Mem := respond (noticePieces message)

/-- `nostr_response_closed` -/
def nostrResponseClosed (subscriptionId : CStr) (message : Option CStr) : Mem → Nat → Bool × Mem :=
  respond (closedPieces subscriptionId message)

theorem nostrResponseEvent_respond (subscriptionId : CStr) (event : NostrEventEntity) :
    nostrResponseEvent subscriptionId event = respond (eventPieces subscriptionId event) := rfl

/-! ## The texts -/

def quoted (s : List UInt8) : List UInt8 := 34 :: (s ++ [34])

/-- A string value. -/
def quotedString (s : CStr) : List UInt8 := quoted (jsonEscape s)

def arrayText (values : List (List UInt8)) : List UInt8 := 91 :: (List.intercalate [44] values ++ [93])

def objectText (members : List (CStr × List UInt8)) : List UInt8 :=
  123 :: (List.intercalate [44] (members.map fun member => quoted member.1 ++ 58 :: member.2) ++ [125])

/-- A number with its sign. -/
def integerText (z : Int) : List UInt8 := if z < 0 then 45 :: decimalText z.natAbs else decimalText z.natAbs

/-- The 64 bits of `created_at`, read as signed. -/
def createdAtValue (event : NostrEventEntity) : Int := Int.bmod event.createdAt (2 ^ 64)

def eoseText (subscriptionId : CStr) : List UInt8 :=
  arrayText [quoted [69, 79, 83, 69], quotedString subscriptionId]

/-- A message that is `NULL` is the empty string. -/
def okText (eventId : CStr) (success : Bool) (message : Option CStr) : List UInt8 :=
  arrayText [quoted [79, 75], quotedString eventId,
    if success then [116, 114, 117, 101] else [102, 97, 108, 115, 101], quotedString (message.getD [])]

def noticeText (message : CStr) : List UInt8 := arrayText [quoted [78, 79, 84, 73, 67, 69], quotedString message]

def closedText (subscriptionId : CStr) (message : Option CStr) : List UInt8 :=
  arrayText [quoted [67, 76, 79, 83, 69, 68], quotedString subscriptionId, quotedString (message.getD [])]

def tagText (tag : NostrTagEntity) : List UInt8 := arrayText ((tag.key :: tag.values).map quotedString)

/-- The event object; the three hexadecimal fields stand as they are. -/
def eventObjectText (event : NostrEventEntity) : List UInt8 :=
  objectText [([105, 100], quoted event.id),
    ([112, 117, 98, 107, 101, 121], quoted event.pubkey),
    ([99, 114, 101, 97, 116, 101, 100, 95, 97, 116], integerText (createdAtValue event)),
    ([107, 105, 110, 100], decimalText event.kind),
    ([116, 97, 103, 115], arrayText (event.tags.map tagText)),
    ([99, 111, 110, 116, 101, 110, 116], quotedString event.content),
    ([115, 105, 103], quoted event.sig)]

def eventText (subscriptionId : CStr) (event : NostrEventEntity) : List UInt8 :=
  arrayText [quoted [69, 86, 69, 78, 84], quotedString subscriptionId, eventObjectText event]

/-! ## What is written -/

theorem length_jsonEscapeWithin : ∀ (s : CStr) (room : Nat), (jsonEscapeWithin room s).length ≤ room
  | [], room => Nat.zero_le room
  | c :: s, room => by
    rw [jsonEscapeWithin]
    split
    · exact Nat.zero_le room
    · have ih := length_jsonEscapeWithin s (room - escapeCharLen c)
      rw [List.length_append, length_escapeChar]
      omega

theorem Piece.length_within (piece : Piece) (room : Nat) : (piece.within room).length ≤ room := by
  cases piece with
  | copy s => exact List.length_take_le room s
  | escaped s => exact length_jsonEscapeWithin s room
  | number s => exact List.length_take_le room s

namespace Rendering

variable {capacity : Nat}

/-- No piece is written past the buffer. -/
theorem put_outside (st : Rendering) (piece : Piece) {a : Nat} (h : capacity ≤ a) :
    (st.put capacity piece).buffer a = st.buffer a := by
  rw [put]
  split
  · rfl
  · have hlen := piece.length_within (capacity - 1 - st.pos)
    exact writeAt_of_ge (by omega)

theorem foldl_put_outside {a : Nat} (h : capacity ≤ a) : ∀ (pieces : List Piece) (st : Rendering),
    (pieces.foldl (put capacity) st).buffer a = st.buffer a := by
  intro pieces
  induction pieces with
  | nil => exact fun _ => rfl
  | cons piece pieces ih => exact fun st => (ih _).trans (put_outside st piece h)

theorem finish_outside (hcap : 0 < capacity) (st : Rendering) {a : Nat} (h : capacity ≤ a) :
    (st.finish capacity).2 a = st.buffer a := by
  rw [finish]
  split
  · exact writeAt_of_ge (by rw [List.length_singleton]; omega)
  · exact writeAt_of_ge (by rw [List.length_singleton]; omega)

end Rendering

/-- A response that is written whole, with a NUL behind, or reported not to fit; in neither case
is anything written past the buffer. -/
structure AllOrNothing (text : List UInt8) (buffer : Mem) (capacity : Nat) (result : Bool × Mem) : Prop where
  fits : result.1 = true ↔ text.length < capacity
  whole : text.length < capacity → readAt result.2 0 (text.length + 1) = text ++ [0]
  outside : ∀ a, capacity ≤ a → result.2 a = buffer a

/-- **A list of pieces** is written whole or not at all. -/
theorem respond_allOrNothing (pieces : List Piece) (buffer : Mem) {capacity : Nat} (hcap : 0 < capacity) :
    AllOrNothing (piecesText pieces) buffer capacity (respond pieces buffer capacity) := by
  rw [respond, if_neg (by omega)]
  have hwhole : (piecesText pieces).length < capacity →
      (pieces.foldl (Rendering.put capacity) ⟨buffer, 0⟩).finish capacity =
        (true, writeAt buffer 0 (piecesText pieces ++ [0])) := by
    intro hfits
    have hfits' : (⟨buffer, 0⟩ : Rendering).pos + (piecesText pieces).length < capacity := by
      rwa [Nat.zero_add]
    rw [Rendering.foldl_put_of_lt hfits', Rendering.finish, if_pos hfits', writeAt_append _ _ _ _ rfl]
  refine ⟨⟨fun hdone => ?_, fun hfits => ?_⟩, fun hfits => ?_, fun a ha => ?_⟩
  · by_contra hnot
    have hfull := @Rendering.foldl_put_of_le capacity pieces ⟨buffer, 0⟩ (by simp only [Nat.zero_add]; omega)
    rw [Rendering.finish, if_neg (by omega)] at hdone
    cases hdone
  · rw [hwhole hfits]
  · rw [hwhole hfits]
    exact readAt_writeAt_same _ _ _ (by rw [List.length_append, List.length_singleton])
  · exact (Rendering.finish_outside hcap _ ha).trans (Rendering.foldl_put_outside ha pieces _)

/-! ## The pieces of a text -/

theorem intercalate_cons (value : List UInt8) (values : List (List UInt8)) :
    List.intercalate [44] (value :: values) = value ++ values.flatMap fun value => 44 :: value := by
  induction values generalizing value with
  | nil => simp [List.intercalate]
  | cons next values ih =>
    have hnext : List.intercalate [44] (value :: next :: values) =
        value ++ 44 :: List.intercalate [44] (next :: values) := by
      simp [List.intercalate]
    rw [hnext, ih, List.flatMap_cons]
    rfl

theorem bmod_of_lt {n m : Nat} (h : n < m) :
    Int.bmod n m = if n < (m + 1) / 2 then (n : Int) else (n : Int) - m := by
  rw [Int.bmod_def, Int.emod_eq_of_lt (Int.natCast_nonneg n) (Int.ofNat_lt.mpr h)]
  split <;> split <;> omega

/-- The digits of a number that is not the least one. -/
theorem integerText_bmod {bits : Nat} (hbits : bits < 2 ^ 64) (hleast : -2 ^ 63 < Int.bmod bits (2 ^ 64)) :
    integerText (Int.bmod bits (2 ^ 64)) = int64Text bits := by
  have hhalf : (2 ^ 64 + 1) / 2 = 2 ^ 63 := by decide
  rw [bmod_of_lt hbits, hhalf] at hleast ⊢
  rw [integerText, int64Text]
  by_cases hpos : bits < 2 ^ 63
  · rw [if_pos hpos, if_neg (Int.not_lt.mpr (Int.natCast_nonneg bits)), if_pos hpos, Int.natAbs_natCast]
  · rw [if_neg hpos] at hleast ⊢
    have hneg : (bits : Int) - (2 ^ 64 : Nat) < 0 := by omega
    have hne : bits ≠ 2 ^ 63 := by omega
    have habs : ((bits : Int) - (2 ^ 64 : Nat)).natAbs = 2 ^ 64 - bits := by omega
    rw [if_pos hneg, if_neg hpos, if_neg hne, habs]

theorem piecesText_message (message : Option CStr) :
    piecesText (messagePieces message) = jsonEscape (message.getD []) := by
  cases message with
  | none => rfl
  | some message => exact List.append_nil _

theorem piecesText_flatMap {α : Type} (pieces : α → List Piece) (values : List α) :
    piecesText (values.flatMap pieces) = values.flatMap fun value => piecesText (pieces value) :=
  List.flatMap_assoc

theorem tagText_eq (tag : NostrTagEntity) : tagText tag = piecesText (tagPieces tag) := by
  rw [tagText, arrayText, List.map_cons, intercalate_cons, tagPieces, valuePieces, piecesText_append, piecesText_append,
    piecesText_flatMap, List.flatMap_map]
  simp [quotedString, quoted, Piece.text]

theorem arrayText_tags (tags : List NostrTagEntity) : arrayText (tags.map tagText) = piecesText (tagsPieces tags) := by
  rw [tagsPieces, arrayText, piecesText_cons, piecesText_append]
  cases tags with
  | nil => rfl
  | cons tag tags =>
    rw [List.map_cons, intercalate_cons, tagListPieces, piecesText_append, piecesText_flatMap, List.flatMap_map, tagText_eq]
    simp only [piecesText_cons, piecesText_nil, Piece.text, tagText_eq, List.append_nil, List.cons_append,
      List.nil_append]

theorem integerText_event {event : NostrEventEntity} (hbits : event.createdAt < 2 ^ 64)
    (hleast : -2 ^ 63 < createdAtValue event) : integerText (createdAtValue event) = int64Text event.createdAt :=
  integerText_bmod hbits hleast

theorem eventText_eq {subscriptionId : CStr} {event : NostrEventEntity} (hbits : event.createdAt < 2 ^ 64)
    (hleast : -2 ^ 63 < createdAtValue event) :
    eventText subscriptionId event = piecesText (eventPieces subscriptionId event) := by
  simp only [eventText, arrayText, eventObjectText, objectText, List.map_cons, List.map_nil, intercalate_cons,
    List.flatMap_cons, List.flatMap_nil, integerText_event hbits hleast, ← arrayText_tags, eventPieces, quotedString,
    quoted, piecesText_append, piecesText_cons, piecesText_nil, Piece.text, List.cons_append, List.nil_append,
    List.append_nil, List.append_assoc]

theorem eoseText_eq (subscriptionId : CStr) : eoseText subscriptionId = piecesText (eosePieces subscriptionId) := by
  simp [eoseText, eosePieces, arrayText, quoted, quotedString, Piece.text]

theorem okText_eq (eventId : CStr) (success : Bool) (message : Option CStr) :
    okText eventId success message = piecesText (okPieces eventId success message) := by
  simp [okText, okPieces, arrayText, quoted, quotedString, Piece.text, piecesText_message]

theorem noticeText_eq (message : CStr) : noticeText message = piecesText (noticePieces message) := by
  simp [noticeText, noticePieces, arrayText, quoted, quotedString, Piece.text]

theorem closedText_eq (subscriptionId : CStr) (message : Option CStr) :
    closedText subscriptionId message = piecesText (closedPieces subscriptionId message) := by
  simp [closedText, closedPieces, arrayText, quoted, quotedString, Piece.text, piecesText_message]

/-- An array without blanks. -/
theorem arrayText_json (values : List Json) :
    (Json.array [] (itemsOf values)).text = arrayText (values.map Json.text) := by
  cases values with
  | nil => rfl
  | cons value values =>
    rw [text_array, arrayText, text_itemsOf_cons, List.map_cons, intercalate_cons]
    have hbehind : ∀ values, (itemsOf values).text [44] = (values.map Json.text).flatMap fun value => 44 :: value := by
      intro values
      induction values with
      | nil => rfl
      | cons next values ih =>
        rw [text_itemsOf_cons, ih, List.map_cons, List.flatMap_cons]
        rfl
    rw [hbehind]
    rfl

/-- **The texts are JSON**: arrays of strings and a literal, and for an event that was parsed the
message of its object. -/
theorem responses_json (subscriptionId : CStr) (message : Option CStr) (success : Bool) :
    eoseText subscriptionId =
      (Json.array [] (itemsOf ([[69, 79, 83, 69], subscriptionId].map (.string ∘ jsonString)))).text ∧
    okText subscriptionId success message =
      (Json.array [] (itemsOf [.string (jsonString [79, 75]), .string (jsonString subscriptionId),
        numberJson (if success then [116, 114, 117, 101] else [102, 97, 108, 115, 101]),
        .string (jsonString (message.getD []))])).text ∧
    closedText subscriptionId message =
      (Json.array [] (itemsOf
        ([[67, 76, 79, 83, 69, 68], subscriptionId, message.getD []].map (.string ∘ jsonString)))).text ∧
    ∀ event : NostrEventEntity, event.Parsed → -2 ^ 63 < createdAtValue event →
      eventText subscriptionId event = (relayText subscriptionId event).text := by
  have hstring : ∀ s, (Json.string (jsonString s)).text = quotedString s := text_string
  have hlabel : ∀ s, jsonEscape s = s → (Json.string (jsonString s)).text = quoted s := fun s h => by
    rw [hstring, quotedString, h]
  have hliteral : ∀ success : Bool,
      (numberJson (if success then [116, 114, 117, 101] else [102, 97, 108, 115, 101])).text =
        if success then [116, 114, 117, 101] else [102, 97, 108, 115, 101] := by decide
  refine ⟨?_, ?_, ?_, fun event hevent hleast => ?_⟩
  · rw [arrayText_json]
    simp only [List.map_cons, List.map_nil, Function.comp_apply, hlabel [69, 79, 83, 69] (by decide), hstring]
    rfl
  · rw [arrayText_json]
    simp only [List.map_cons, List.map_nil, hlabel [79, 75] (by decide), hstring, hliteral]
    rfl
  · rw [arrayText_json]
    simp only [List.map_cons, List.map_nil, Function.comp_apply, hlabel [67, 76, 79, 83, 69, 68] (by decide), hstring]
    rfl
  · exact (eventText_eq hevent.createdAt hleast).trans (text_relayText subscriptionId hevent).symm

/-- **A response is written whole or not at all.** -/
theorem responses_allOrNothing {capacity : Nat} (hcap : 0 < capacity) (buffer : Mem) :
    (∀ subscriptionId, AllOrNothing (eoseText subscriptionId) buffer capacity
      (nostrResponseEose subscriptionId buffer capacity)) ∧
    (∀ eventId success message, AllOrNothing (okText eventId success message) buffer capacity
      (nostrResponseOk eventId success message buffer capacity)) ∧
    (∀ message, AllOrNothing (noticeText message) buffer capacity (nostrResponseNotice message buffer capacity)) ∧
    (∀ subscriptionId message, AllOrNothing (closedText subscriptionId message) buffer capacity
      (nostrResponseClosed subscriptionId message buffer capacity)) ∧
    (∀ subscriptionId (event : NostrEventEntity), event.createdAt < 2 ^ 64 → -2 ^ 63 < createdAtValue event →
      AllOrNothing (eventText subscriptionId event) buffer capacity
        (nostrResponseEvent subscriptionId event buffer capacity)) := by
  refine ⟨fun subscriptionId => ?_, fun eventId success message => ?_, fun message => ?_,
    fun subscriptionId message => ?_, fun subscriptionId event hbits hleast => ?_⟩
  · rw [eoseText_eq]
    exact respond_allOrNothing _ buffer hcap
  · rw [okText_eq]
    exact respond_allOrNothing _ buffer hcap
  · rw [noticeText_eq]
    exact respond_allOrNothing _ buffer hcap
  · rw [closedText_eq]
    exact respond_allOrNothing _ buffer hcap
  · rw [eventText_eq hbits hleast, nostrResponseEvent_respond]
    exact respond_allOrNothing _ buffer hcap

/-- The terminator needs the last byte. -/
theorem responses_allOrNothing_eose :
    (nostrResponseEose [115] (fun _ => 0) 13).1 = true ∧ (nostrResponseEose [115] (fun _ => 0) 12).1 = false := by
  have hroom := (responses_allOrNothing (show 0 < 13 by decide) (fun _ => 0)).1 [115]
  have hfull := (responses_allOrNothing (show 0 < 12 by decide) (fun _ => 0)).1 [115]
  refine ⟨hroom.fits.mpr (by decide), Bool.eq_false_iff.mpr fun hdone => ?_⟩
  exact absurd (hfull.fits.mp hdone) (by decide)

end OnionRelay
