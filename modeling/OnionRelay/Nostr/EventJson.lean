import OnionRelay.Nostr.JsonCodec

/-!
# The message to another client as JSON

What `nostr_response_event` writes is the text of `relayText` (`text_relayText`), of
which a tokenizer finds the tokens one knows from the event.  `count_value_tokens`
steps over a value of any JSON text (`countValueTokens_lexemes`).
-/

namespace OnionRelay

open OnionRelay.Lib OnionRelay.Db

/-! ## The message to another client -/

/-- A byte that may stand in a number; of others there are none in one. -/
def primitiveByte (c : UInt8) : PrimitiveByte :=
  if h : 33 ≤ c ∧ c ≤ 126 ∧ c ∉ [34, 44, 58, 91, 93, 123, 125] then ⟨c, h⟩ else ⟨48, by decide⟩

def numberJson (s : CStr) : Json :=
  .primitive (primitiveByte (s.headD 48)) (s.tail.map primitiveByte)

/-- Items without blanks. -/
def itemsOf : List Json → Items
  | [] => .nil
  | value :: values => .cons [] value [] (itemsOf values)

def membersOf : List (CStr × Json) → Members
  | [] => .nil
  | (key, value) :: members => .cons [] (jsonString key) [] [] value [] (membersOf members)

def tagJson (tag : NostrTagEntity) : Json :=
  .array [] (itemsOf (.string (jsonString tag.key) ::
    tag.values.map fun value => .string (jsonString value)))

def tagsJson (tags : List NostrTagEntity) : Json := .array [] (itemsOf (tags.map tagJson))

/-- The members of the event object, in the order of the response. -/
def eventMembers (event : NostrEventEntity) : List (CStr × Json) :=
  [([105, 100], .string (jsonString event.id)),
    ([112, 117, 98, 107, 101, 121], .string (jsonString event.pubkey)),
    ([99, 114, 101, 97, 116, 101, 100, 95, 97, 116], numberJson (int64Text event.createdAt)),
    ([107, 105, 110, 100], numberJson (decimalText event.kind)),
    ([116, 97, 103, 115], tagsJson event.tags),
    ([99, 111, 110, 116, 101, 110, 116], .string (jsonString event.content)),
    ([115, 105, 103], .string (jsonString event.sig))]

def eventJson (event : NostrEventEntity) : Json := .object [] (membersOf (eventMembers event))

/-- `["EVENT", <subscription_id>, <event>]` -/
def relayText (subscriptionId : CStr) (event : NostrEventEntity) : JsonText :=
  ⟨[], .array [] (itemsOf [.string (jsonString [69, 86, 69, 78, 84]), .string (jsonString subscriptionId),
    eventJson event]), []⟩

/-- Nothing is escaped in these bytes. -/
def Clear (s : CStr) : Prop := ∀ c ∈ s, escapeCharLen c = 1

theorem escapeChar_of_clear : ∀ c : UInt8, escapeCharLen c = 1 → escapeChar c = [c] :=
  forall_uint8 (by decide +kernel)

theorem jsonEscape_of_clear {s : CStr} (h : Clear s) : jsonEscape s = s := by
  induction s with
  | nil => rfl
  | cons c s ih =>
    rw [jsonEscape_cons, escapeChar_of_clear c (h c List.mem_cons_self),
      ih fun d hd => h d (List.mem_cons_of_mem c hd)]
    rfl

theorem escapeCharLen_of_lowerHex : ∀ c : UInt8, isLowerHex c = true → escapeCharLen c = 1 :=
  forall_uint8 (by decide +kernel)

theorem LowerHex.clear {len : Nat} {s : CStr} (h : LowerHex len s) : Clear s := fun c hc =>
  escapeCharLen_of_lowerHex c (h.digits c hc)

theorem primitiveByte_of_digit : ∀ c : UInt8, isDigit c = true ∨ c = 45 → (primitiveByte c).1 = c :=
  forall_uint8 (by decide +kernel)

theorem text_numberJson {s : CStr} (hne : s ≠ []) (hs : ∀ c ∈ s, isDigit c = true ∨ c = 45) :
    (numberJson s).text = s := by
  obtain ⟨c, s, rfl⟩ := List.exists_cons_of_ne_nil hne
  have htail : ∀ s : CStr, (∀ c ∈ s, isDigit c = true ∨ c = 45) →
      (s.map primitiveByte).map Subtype.val = s := by
    intro s hs
    rw [List.map_map]
    exact (List.map_congr_left fun c hc => primitiveByte_of_digit c (hs c hc)).trans (List.map_id s)
  rw [numberJson, Json.text, List.headD_cons, List.tail_cons, List.map_cons,
    primitiveByte_of_digit c (hs c List.mem_cons_self), htail s fun d hd => hs d (List.mem_cons_of_mem c hd)]

theorem chars_int64Text (bits : Nat) : ∀ c ∈ int64Text bits, isDigit c = true ∨ c = 45 := by
  intro c hc
  rw [int64Text] at hc
  split at hc
  · exact .inl (isDigit_decimalText c hc)
  split at hc
  · exact .inr (List.mem_singleton.mp hc)
  · rcases List.mem_cons.mp hc with rfl | hc
    · exact .inr rfl
    · exact .inl (isDigit_decimalText c hc)

/-! ## Its text -/

@[simp] theorem text_string (s : CStr) :
    (Json.string (jsonString s)).text = 34 :: (jsonEscape s ++ [34]) := by
  rw [Json.text, stringText_jsonString]

@[simp] theorem text_itemsOf_nil (separator : List UInt8) : (itemsOf []).text separator = [] := rfl

@[simp] theorem text_itemsOf_cons (value : Json) (values : List Json) (separator : List UInt8) :
    (itemsOf (value :: values)).text separator =
      separator ++ (value.text ++ (itemsOf values).text [44]) := rfl

@[simp] theorem text_membersOf_nil (separator : List UInt8) : (membersOf []).text separator = [] := rfl

@[simp] theorem text_membersOf_cons (key : CStr) (value : Json) (members : List (CStr × Json))
    (separator : List UInt8) : (membersOf ((key, value) :: members)).text separator =
      separator ++ (34 :: (jsonEscape key ++ (34 :: (58 :: (value.text ++
        (membersOf members).text [44]))))) := by
  simp [membersOf, Members.text, blankText]

theorem text_array (items : Items) : (Json.array [] items).text = 91 :: (items.text [] ++ [93]) := rfl

theorem text_object (members : Members) :
    (Json.object [] members).text = 123 :: (members.text [] ++ [125]) := rfl

theorem text_values (values : List CStr) :
    (itemsOf (values.map fun value => .string (jsonString value))).text [44] =
      piecesText (valuePieces values) := by
  induction values with
  | nil => rfl
  | cons value values ih =>
    rw [List.map_cons, text_itemsOf_cons, ih, text_string, valuePieces_cons]
    simp [Piece.text]

theorem text_tagJson (tag : NostrTagEntity) : (tagJson tag).text = piecesText (tagPieces tag) := by
  rw [tagJson, text_array, text_itemsOf_cons, text_values, text_string, tagPieces]
  simp [Piece.text]

theorem text_tagsJson (tags : List NostrTagEntity) :
    (tagsJson tags).text = piecesText (tagsPieces tags) := by
  have hbehind : ∀ tags : List NostrTagEntity, (itemsOf (tags.map tagJson)).text [44] =
      piecesText (tags.flatMap fun tag => .copy [44] :: tagPieces tag) := by
    intro tags
    induction tags with
    | nil => rfl
    | cons tag tags ih =>
      rw [List.map_cons, text_itemsOf_cons, ih, text_tagJson, List.flatMap_cons]
      simp [Piece.text]
  rw [tagsJson, text_array, tagsPieces]
  cases tags with
  | nil => rfl
  | cons tag tags =>
    rw [List.map_cons, text_itemsOf_cons, hbehind, text_tagJson, tagListPieces]
    simp [Piece.text]

/-- **What the relay sends is JSON.** -/
theorem text_relayText (subscriptionId : CStr) {event : NostrEventEntity} (hevent : event.Parsed) :
    (relayText subscriptionId event).text = piecesText (eventPieces subscriptionId event) := by
  have hcreated := text_numberJson (int64Text_ne_nil event.createdAt) (chars_int64Text event.createdAt)
  have hkind := text_numberJson (decimalText_ne_nil event.kind) fun c hc =>
    .inl (isDigit_decimalText c hc)
  have hkeys : ∀ key ∈ (eventMembers event).map Prod.fst, jsonEscape key = key := by
    intro key hkey
    refine jsonEscape_of_clear ?_
    revert key
    simp only [eventMembers, List.map_cons, List.map_nil, Clear, List.forall_mem_cons, List.not_mem_nil,
      false_implies, implies_true, and_true]
    decide
  simp only [eventMembers, List.map_cons, List.map_nil, List.forall_mem_cons] at hkeys
  obtain ⟨hid, hpubkey, hcreatedAt, hkindKey, htags, hcontent, hsig, -⟩ := hkeys
  have hlabel : jsonEscape [69, 86, 69, 78, 84] = [69, 86, 69, 78, 84] := by decide
  simp only [JsonText.text, relayText, blankText, List.map_nil, List.nil_append, List.append_nil,
    text_array, text_itemsOf_cons, text_itemsOf_nil, text_string, eventJson, text_object, eventMembers,
    text_membersOf_cons, text_membersOf_nil, hcreated, hkind, text_tagsJson, hid, hpubkey, hcreatedAt,
    hkindKey, htags, hcontent, hsig, hlabel, jsonEscape_of_clear hevent.id.clear,
    jsonEscape_of_clear hevent.pubkey.clear, jsonEscape_of_clear hevent.sig.clear, eventPieces,
    piecesText_append, piecesText_cons, piecesText_nil, Piece.text, List.cons_append, List.append_assoc]

/-! ## Counting tokens -/

theorem lexemes_ne_nil (j : Json) (tail : List UInt8) : j.lexemes tail ≠ [] := by
  cases j with
  | primitive first rest => exact List.cons_ne_nil _ _
  | string s => exact List.cons_ne_nil _ _
  | array blanks items => exact List.cons_ne_nil _ _
  | object blanks members => exact List.cons_ne_nil _ _

theorem countChildren_succ {count : List Lexeme → Nat} {n : Nat} {child more : List Lexeme}
    (hne : child ≠ []) (hcount : count (child ++ more) = child.length) :
    countChildren count (n + 1) (child ++ more) = child.length + countChildren count n more := by
  rw [countChildren, if_neg fun hnil => hne (List.append_eq_nil_iff.mp hnil).1, hcount,
    List.drop_left]

mutual

/-- **The tokens of a value are counted right**, whatever stands behind them. -/
theorem countValueTokens_lexemes : ∀ (j : Json) (tail : List UInt8) (more : List Lexeme)
    {depth : Nat}, (j.lexemes tail).length ≤ depth →
      countValueTokens depth (j.lexemes tail ++ more) = (j.lexemes tail).length
  | .primitive first rest, tail, more, depth + 1, _ => rfl
  | .string s, tail, more, depth + 1, _ => rfl
  | .array blanks items, tail, more, depth + 1, hdepth => by
    rw [Json.lexemes, List.length_cons] at hdepth
    rw [Json.lexemes, List.cons_append, countValueTokens]
    simp only
    rw [countChildren_items items _ more (by omega), List.length_cons, Nat.add_comm]
  | .object blanks members, tail, more, depth + 1, hdepth => by
    rw [Json.lexemes, List.length_cons] at hdepth
    rw [Json.lexemes, List.cons_append, countValueTokens]
    simp only
    rw [countChildren_members members _ more (by omega), List.length_cons, Nat.add_comm]

theorem countChildren_items : ∀ (items : Items) (tail : List UInt8) (more : List Lexeme)
    {depth : Nat}, (items.lexemes tail).length ≤ depth →
      countChildren (countValueTokens depth) items.count (items.lexemes tail ++ more) =
        (items.lexemes tail).length
  | .nil, _, _, _, _ => rfl
  | .cons before value behind rest, tail, more, depth, hdepth => by
    rw [Items.lexemes, List.length_append] at hdepth
    have hvalue : countValueTokens depth (value.lexemes (blankText behind ++ (rest.text [44] ++ tail)) ++
        (rest.lexemes tail ++ more)) = _ :=
      countValueTokens_lexemes value _ _ (by omega)
    have hrest := countChildren_items rest tail more (show (rest.lexemes tail).length ≤ depth by omega)
    rw [Items.lexemes, Items.count, List.append_assoc,
      countChildren_succ (lexemes_ne_nil _ _) hvalue, hrest, List.length_append]

theorem countChildren_members : ∀ (members : Members) (tail : List UInt8) (more : List Lexeme)
    {depth : Nat}, (members.lexemes tail).length ≤ depth →
      countChildren (fun child => 1 + countValueTokens depth (child.drop 1)) members.count
        (members.lexemes tail ++ more) = (members.lexemes tail).length
  | .nil, _, _, _, _ => rfl
  | .cons before key beforeColon behindColon value behind rest, tail, more, depth, hdepth => by
    rw [Members.lexemes, List.length_cons, List.length_append] at hdepth
    have hvalue : countValueTokens depth (value.lexemes (blankText behind ++ (rest.text [44] ++ tail)) ++
        (rest.lexemes tail ++ more)) = _ :=
      countValueTokens_lexemes value _ _ (by omega)
    have hrest := countChildren_members rest tail more
      (show (rest.lexemes tail).length ≤ depth by omega)
    -- a child is the key with the tokens of its value
    rw [Members.lexemes, Members.count, ← List.cons_append, List.append_assoc,
      countChildren_succ (List.cons_ne_nil _ _), hrest, List.length_append]
    rw [List.cons_append, List.drop_succ_cons, List.drop_zero, hvalue, List.length_cons, Nat.add_comm]

end

end OnionRelay
