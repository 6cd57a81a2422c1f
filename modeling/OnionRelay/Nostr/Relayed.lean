import OnionRelay.Nostr.Accepted
import OnionRelay.Nostr.EventJson

/-!
# An event that is passed on

An event is parsed from the message of one client and rendered into the message to
another.  Content is unescaped on its way in and escaped on its way out, and comes
back whole.  Names and values of tags are copied as they stand in the text and are
escaped nevertheless, so an escape is doubled on every way (`relay_iff`).
-/

namespace OnionRelay

open OnionRelay.Lib OnionRelay.Db

/-! ## Reading the message to another client -/

/-- A tag as it is copied out of the message. -/
def rereadTag (tag : NostrTagEntity) : NostrTagEntity :=
  ⟨(jsonEscape tag.key).take 63, tag.values.map fun value => (jsonEscape value).take 511⟩

/-- What another client gets. -/
def reread (event : NostrEventEntity) : NostrEventEntity :=
  { event with
    createdAt := if event.createdAt = 2 ^ 63 then 0 else event.createdAt
    tags := event.tags.map rereadTag }

theorem count_itemsOf (values : List Json) : (itemsOf values).count = values.length := by
  induction values with
  | nil => rfl
  | cons value values ih => rw [itemsOf, Items.count, ih, List.length_cons]

theorem lexemes_itemsOf_cons (value : Json) (values : List Json) (tail : List UInt8) :
    (itemsOf (value :: values)).lexemes tail =
      value.lexemes ((itemsOf values).text [44] ++ tail) ++ (itemsOf values).lexemes tail := rfl

theorem lexemes_string (s : CStr) (tail : List UInt8) :
    (Json.string (jsonString s)).lexemes tail =
      [⟨.string, 0, jsonEscape s ++ (34 :: tail), (jsonEscape s).length⟩] := by
  rw [Json.lexemes, stringText_jsonString]

theorem zero_notMem_jsonEscape (s : CStr) : 0 ∉ jsonEscape s := by
  rw [← stringText_jsonString]
  exact zero_notMem_stringText _

theorem copyTokenString_string (s : CStr) (tail : List UInt8) (n : Nat) :
    copyTokenString ⟨.string, 0, jsonEscape s ++ tail, (jsonEscape s).length⟩ (n + 1) =
      (jsonEscape s).take n := by
  rw [copyTokenString, Lexeme.text, List.take_left, Nat.add_sub_cancel]
  exact cstr_of_noNul fun hmem => zero_notMem_jsonEscape s (List.mem_of_mem_take hmem)

theorem extractValues_items : ∀ {values : List CStr} (tail : List UInt8) (more : List Lexeme)
    (read : List CStr), read.length + values.length ≤ 16 →
      extractValues values.length
          ((itemsOf (values.map fun value => .string (jsonString value))).lexemes tail ++ more) read =
        (read ++ values.map fun value => (jsonEscape value).take 511, more) := by
  intro values
  induction values with
  | nil =>
    intro tail more read _
    rw [List.map_nil, List.map_nil, List.append_nil]
    cases more with
    | nil => rfl
    | cons token more => rfl
  | cons value values ih =>
    intro tail more read hcount
    rw [List.length_cons] at hcount
    rw [List.map_cons, lexemes_itemsOf_cons, lexemes_string, List.length_cons, List.append_assoc,
      List.singleton_append, extractValues, if_pos (by omega), if_pos rfl, copyTokenString_string,
      ih _ _ _ (by rw [List.length_append, List.length_singleton]; omega), List.map_cons,
      List.append_assoc, List.singleton_append]

theorem extractTags_items : ∀ {tags : List NostrTagEntity} (tail : List UInt8) (more : List Lexeme)
    (read : List NostrTagEntity), (∀ t ∈ tags, t.values.length ≤ 16) →
      read.length + tags.length ≤ 2048 →
        extractTags tags.length ((itemsOf (tags.map tagJson)).lexemes tail ++ more) read =
          read ++ tags.map rereadTag := by
  intro tags
  induction tags with
  | nil =>
    intro tail more read _ _
    rw [List.map_nil, List.map_nil, List.append_nil]
    cases more with
    | nil => rfl
    | cons token more => rfl
  | cons tag tags ih =>
    intro tail more read hvalues hcount
    rw [List.length_cons] at hcount
    rw [List.map_cons, lexemes_itemsOf_cons, List.length_cons, tagJson, Json.lexemes,
      lexemes_itemsOf_cons, lexemes_string, count_itemsOf, List.length_cons, List.length_map]
    simp only [List.append_assoc, List.cons_append, List.nil_append]
    rw [extractTags, if_pos (by omega), if_neg (by simp), if_neg (Nat.succ_ne_zero _)]
    simp only
    rw [if_neg (by simp), Nat.add_sub_cancel, copyTokenString_string,
      extractValues_items _ _ [] (by simpa using hvalues tag List.mem_cons_self)]
    simp only [List.nil_append]
    rw [ih _ _ _ (fun t ht => hvalues t (List.mem_cons_of_mem tag ht))
      (by rw [List.length_append, List.length_singleton]; omega), List.map_cons, List.append_assoc,
      List.singleton_append]
    rfl

theorem tags_of_tagsJson {tags : List NostrTagEntity} (tail : List UInt8) (more : List Lexeme)
    (hvalues : ∀ t ∈ tags, t.values.length ≤ 16) (hcount : tags.length ≤ 2048) :
    extractNostrEventTags ((tagsJson tags).lexemes tail ++ more) = some (tags.map rereadTag) := by
  rw [tagsJson, Json.lexemes, List.cons_append, extractNostrEventTags, if_neg (by simp), count_itemsOf,
    List.length_map, extractTags_items _ _ [] hvalues (by simpa using hcount), List.nil_append]

/-- A member of the event object; `rest` is the text from the closing quote of its key on. -/
def keyLexeme (key : CStr) (rest : List UInt8) : Lexeme := ⟨.string, 1, key ++ 34 :: rest, key.length⟩

/-- One round of the loop, on a key that needs no escape. -/
theorem extractFields_membersOf_cons {key : CStr} (hkey : jsonEscape key = key) {value : Json}
    {members : List (CStr × Json)} {tail : List UInt8} {fuel : Nat} {v : Lexeme} {vs : List Lexeme}
    (hvalue : value.lexemes ((membersOf members).text [44] ++ tail) = v :: vs)
    {st st' : FoundFields × NostrEventEntity}
    (hfield : ∀ rest more, extractField (keyLexeme key rest) (v :: (vs ++ more)) v st = some st') :
    extractFields (fuel + 1) ((membersOf ((key, value) :: members)).lexemes tail) st =
      extractFields fuel ((membersOf members).lexemes tail) st' := by
  have hcount := @countValueTokens_lexemes value ((membersOf members).text [44] ++ tail)
    ((membersOf members).lexemes tail) (v :: vs ++ (membersOf members).lexemes tail).length
    (by rw [hvalue, List.length_append]; exact Nat.le_add_right _ _)
  have hlexemes : (membersOf ((key, value) :: members)).lexemes tail =
      keyLexeme key (58 :: (value.text ++ ((membersOf members).text [44] ++ tail))) ::
        (v :: vs ++ (membersOf members).lexemes tail) := by
    rw [← hvalue]
    simp only [membersOf, Members.lexemes, stringText_jsonString, hkey, blankText, List.map_nil,
      List.nil_append, keyLexeme]
  rw [hvalue] at hcount
  rw [hlexemes, List.cons_append, extractFields]
  rw [List.cons_append] at hcount
  simp only [hfield, Option.bind_eq_bind, Option.bind_some, hcount]
  rw [← List.cons_append, List.drop_left]

theorem hex_of_string {len : Nat} {s : CStr} (hs : LowerHex len s) (tail : List UInt8) :
    extractHexField len ⟨.string, 0, jsonEscape s ++ (34 :: tail), (jsonEscape s).length⟩ = some s := by
  rw [jsonEscape_of_clear hs.clear, extractHexField, if_neg (by simp), if_neg (by simpa using hs.length),
    Lexeme.text, List.take_left, if_pos (List.all_eq_true.mpr hs.digits)]

theorem content_of_string {s : CStr} (hzero : 0 ∉ s)
    (hlength : (jsonEscape s).length < nostrEventContentLength) (tail : List UInt8) :
    extractNostrEventContent ⟨.string, 0, jsonEscape s ++ (34 :: tail), (jsonEscape s).length⟩ =
      some s := by
  rw [extractNostrEventContent, if_neg (by simp), if_neg (by simpa using hlength), Lexeme.text,
    List.take_left, decodeJsonString_jsonEscape (Nat.le_sub_one_of_lt hlength), cstr_of_noNul hzero]

theorem number_lexeme {s : CStr} (hne : s ≠ []) (hs : ∀ c ∈ s, isDigit c = true ∨ c = 45)
    (tail : List UInt8) : (numberJson s).lexemes tail = [⟨.primitive, 0, s ++ tail, s.length⟩] := by
  have htext := text_numberJson hne hs
  have hlength := congrArg List.length htext
  rw [numberJson, Json.text] at htext
  rw [numberJson, Json.text, List.length_map, List.length_cons] at hlength
  rw [numberJson, Json.lexemes, htext, hlength]

section Fields

variable {event : NostrEventEntity} (h : Accepted event) (st : FoundFields × NostrEventEntity)
  (tail rest : List UInt8) (values more : List Lexeme)

include h

theorem extractField_id :
    extractField (keyLexeme [105, 100] rest) values
        ⟨.string, 0, jsonEscape event.id ++ (34 :: tail), (jsonEscape event.id).length⟩ st =
      some ({ st.1 with id := true }, { st.2 with id := event.id }) := by
  show (extractNostrEventId _).map _ = _
  rw [extractNostrEventId, hex_of_string h.id]
  rfl

theorem extractField_pubkey :
    extractField (keyLexeme [112, 117, 98, 107, 101, 121] rest) values
        ⟨.string, 0, jsonEscape event.pubkey ++ (34 :: tail), (jsonEscape event.pubkey).length⟩ st =
      some ({ st.1 with pubkey := true }, { st.2 with pubkey := event.pubkey }) := by
  show (extractNostrEventPubkey _).map _ = _
  rw [extractNostrEventPubkey, hex_of_string h.pubkey]
  rfl

theorem extractField_createdAt :
    extractField (keyLexeme [99, 114, 101, 97, 116, 101, 100, 95, 97, 116] rest) values
        ⟨.primitive, 0, int64Text event.createdAt ++ tail, (int64Text event.createdAt).length⟩ st =
      some ({ st.1 with createdAt := true },
        { st.2 with createdAt := (reread event).createdAt }) := by
  have hread : extractNostrEventCreatedAt ⟨.primitive, 0, int64Text event.createdAt ++ tail,
      (int64Text event.createdAt).length⟩ = _ :=
    createdAt_of_int64Text h.createdAt rfl (List.take_left' rfl) rfl
  show (extractNostrEventCreatedAt _).map _ = _
  rw [hread]
  rfl

theorem extractField_kind :
    extractField (keyLexeme [107, 105, 110, 100] rest) values
        ⟨.primitive, 0, decimalText event.kind ++ tail, (decimalText event.kind).length⟩ st =
      some ({ st.1 with kind := true }, { st.2 with kind := event.kind }) := by
  have hread : extractNostrEventKind ⟨.primitive, 0, decimalText event.kind ++ tail,
      (decimalText event.kind).length⟩ = _ :=
    kind_of_decimalText h.kind rfl (List.take_left' rfl) rfl
  show (extractNostrEventKind _).map _ = _
  rw [hread]
  rfl

theorem extractField_tags (value : Lexeme)
    (hvalues : values = (tagsJson event.tags).lexemes tail ++ more) :
    extractField (keyLexeme [116, 97, 103, 115] rest) values value st =
      some ({ st.1 with tags := true }, { st.2 with tags := (reread event).tags }) := by
  have hread : extractNostrEventTags values = some (event.tags.map rereadTag) :=
    hvalues ▸ tags_of_tagsJson tail more (fun t ht => (h.tags t ht).count) h.tagCount
  show (extractNostrEventTags _).map _ = _
  rw [hread]
  rfl

theorem extractField_content :
    extractField (keyLexeme [99, 111, 110, 116, 101, 110, 116] rest) values
        ⟨.string, 0, jsonEscape event.content ++ (34 :: tail), (jsonEscape event.content).length⟩ st =
      some ({ st.1 with content := true }, { st.2 with content := event.content }) := by
  show (extractNostrEventContent _).map _ = _
  rw [content_of_string h.content h.contentLength]
  rfl

theorem extractField_sig :
    extractField (keyLexeme [115, 105, 103] rest) values
        ⟨.string, 0, jsonEscape event.sig ++ (34 :: tail), (jsonEscape event.sig).length⟩ st =
      some ({ st.1 with sig := true }, { st.2 with sig := event.sig }) := by
  show (extractNostrEventSig _).map _ = _
  rw [extractNostrEventSig, hex_of_string h.sig]
  rfl

/-- The loop over the members of a relayed event. -/
theorem extractFields_eventMembers (fuel : Nat) :
    extractFields (fuel + 7) ((membersOf (eventMembers event)).lexemes tail)
        (FoundFields.none, NostrEventEntity.zero) =
      extractFields fuel [] (⟨true, true, true, true, true, true, true⟩, reread event) := by
  have hcreatedAt := number_lexeme (int64Text_ne_nil event.createdAt) (chars_int64Text event.createdAt)
  have hkind := number_lexeme (decimalText_ne_nil event.kind) fun c hc => .inl (isDigit_decimalText c hc)
  rw [eventMembers,
    extractFields_membersOf_cons (by decide) (lexemes_string _ _)
      fun rest more => extractField_id h _ _ rest _,
    extractFields_membersOf_cons (by decide) (lexemes_string _ _)
      fun rest more => extractField_pubkey h _ _ rest _,
    extractFields_membersOf_cons (by decide) (hcreatedAt _)
      fun rest more => extractField_createdAt h _ _ rest _,
    extractFields_membersOf_cons (by decide) (hkind _)
      fun rest more => extractField_kind h _ _ rest _,
    extractFields_membersOf_cons (by decide) rfl
      fun rest more => extractField_tags h _ _ rest _ more _ rfl,
    extractFields_membersOf_cons (by decide) (lexemes_string _ _)
      fun rest more => extractField_content h _ _ rest _,
    extractFields_membersOf_cons (by decide) (lexemes_string _ _)
      fun rest more => extractField_sig h _ _ rest _]
  rfl

end Fields

theorem extractNostrEvent_eventMembers {event : NostrEventEntity} (h : Accepted event)
    {json tail : List UInt8} {fields : List JsonToken}
    (hfields : fields.map (JsonToken.lexeme json) = (membersOf (eventMembers event)).lexemes tail) :
    extractNostrEvent json fields = some (reread event) := by
  have hlength : 7 ≤ fields.length := by
    rw [← List.length_map (JsonToken.lexeme json), hfields]
    simp only [eventMembers, membersOf, Members.lexemes, List.length_cons, List.length_append]
    omega
  obtain ⟨fuel, hfuel⟩ := Nat.exists_eq_add_of_le' hlength
  have hbehind : ∀ st, extractFields fuel [] st = some st := by
    intro st
    cases fuel with
    | zero => rfl
    | succ fuel => rfl
  rw [extractNostrEvent, hfields, hfuel, extractFields_eventMembers h, hbehind]
  rfl

/-- The event object of an EVENT response, as a client parses it. -/
def parseEventResponse (json : List UInt8) (tokens : List JsonToken) : Option NostrEventEntity :=
  match tokens with
  | message :: label :: subscription :: event :: fields =>
    if message.type = .array ∧ label.type = .string ∧ subscription.type = .string ∧
        event.type = .object then
      extractNostrEvent json fields
    else none
  | _ => none

/-- The tokens in front of the members, one for each item that is no container. -/
theorem relayText_lexemes (subscriptionId : CStr) (event : NostrEventEntity) :
    ∃ l₀ l₁ l₂ l₃, (l₀.type = .array ∧ l₁.type = .string ∧ l₂.type = .string ∧ l₃.type = .object) ∧
      (relayText subscriptionId event).lexemes =
        l₀ :: l₁ :: l₂ :: l₃ :: (membersOf (eventMembers event)).lexemes [125, 93] := by
  have hlexemes : (relayText subscriptionId event).lexemes = (relayText subscriptionId event).lexemes :=
    rfl
  conv_rhs at hlexemes =>
    rw [JsonText.lexemes, relayText, Json.lexemes, lexemes_itemsOf_cons, lexemes_itemsOf_cons,
      lexemes_itemsOf_cons, lexemes_string, lexemes_string, eventJson, Json.lexemes]
    simp only [text_itemsOf_nil, List.nil_append, blankText, List.map_nil, List.cons_append,
      show (itemsOf []).lexemes [93] = [] from rfl, List.append_nil]
  exact ⟨_, _, _, _, by exact ⟨rfl, rfl, rfl, rfl⟩, hlexemes⟩

/-- **What another client reads.** -/
theorem parseEventResponse_relayText {event : NostrEventEntity} (h : Accepted event)
    (subscriptionId : CStr) :
    parseEventResponse (relayText subscriptionId event).text (relayText subscriptionId event).tokens =
      some (reread event) := by
  have htokens := (relayText subscriptionId event).map_lexeme_tokens
  obtain ⟨l₀, l₁, l₂, l₃, ⟨harray, hlabel, hsubscription, hobject⟩, hlexemes⟩ :=
    relayText_lexemes subscriptionId event
  rw [hlexemes] at htokens
  obtain ⟨message, tokens, hmessage, rfl, hbehind₁⟩ := List.map_eq_cons_iff.mp htokens
  obtain ⟨label, tokens, rfl, rfl, hbehind₂⟩ := List.map_eq_cons_iff.mp hbehind₁
  obtain ⟨subscription, tokens, rfl, rfl, hbehind₃⟩ := List.map_eq_cons_iff.mp hbehind₂
  obtain ⟨token, fields, rfl, rfl, hfields⟩ := List.map_eq_cons_iff.mp hbehind₃
  rw [hmessage, parseEventResponse]
  exact (if_pos ⟨harray, hlabel, hsubscription, hobject⟩).trans
    (extractNostrEvent_eventMembers h hfields)

/-! ## What comes back as it was -/

/-- Whether nothing is escaped in a byte. -/
def isClear (c : UInt8) : Bool := escapeCharLen c = 1

/-- Whether a string copied out of `n` bytes of a message is the string that was escaped
there: from the first byte on that has an escape there are only backslashes, and the
copy is full. -/
def CopiedBack (n : Nat) (s : CStr) : Prop := ∀ c ∈ s.dropWhile isClear, c = 92 ∧ s.length = n

theorem jsonEscape_of_allClear {s : CStr} (h : ∀ c ∈ s, isClear c = true) : jsonEscape s = s :=
  jsonEscape_of_clear fun c hc => of_decide_eq_true (h c hc)

/-- Once a backslash stands in front, the string must go on with backslashes. -/
theorem take_backslashes_iff : ∀ {k j : Nat} {s : CStr}, s.length ≤ k →
    ((List.replicate (j + 1) 92 ++ jsonEscape s).take k = s ↔ s = List.replicate k 92) := by
  intro k
  induction k with
  | zero =>
    intro j s hs
    obtain rfl := List.eq_nil_of_length_eq_zero (Nat.le_zero.mp hs)
    exact iff_of_true rfl rfl
  | succ k ih =>
    intro j s hs
    rw [List.replicate_succ, List.cons_append, List.take_succ_cons]
    cases s with
    | nil => exact iff_of_false nofun nofun
    | cons c s =>
      rw [List.replicate_succ, List.cons.injEq, List.cons.injEq, eq_comm]
      refine and_congr_right fun hc => ?_
      have hshift : List.replicate j 92 ++ jsonEscape (c :: s) =
          List.replicate (j + 1 + 1) 92 ++ jsonEscape s := by
        rw [hc, jsonEscape_cons, ← List.append_assoc, show escapeChar 92 = List.replicate 2 92 from rfl,
          List.replicate_append_replicate]
      rw [hshift]
      exact ih (Nat.le_of_succ_le_succ hs)

/-- The first byte of an escape is a backslash. -/
theorem escapeChar_of_not_clear : ∀ c : UInt8, isClear c = false →
    ∃ c' s, escapeChar c = 92 :: c' :: s ∧ (c = 92 → c' = 92 ∧ s = []) := by
  have hhead : ∀ c : UInt8, isClear c = false → 2 ≤ (escapeChar c).length ∧
      (escapeChar c).head? = some 92 ∧ (c = 92 → escapeChar c = [92, 92]) :=
    forall_uint8 (by decide +kernel)
  intro c hc
  obtain ⟨hlength, hfirst, hbackslash⟩ := hhead c hc
  match hescape : escapeChar c with
  | [] => simp [hescape] at hlength
  | [_] => simp [hescape] at hlength
  | c₁ :: c₂ :: s =>
    rw [hescape] at hfirst
    obtain rfl := Option.some.inj hfirst
    refine ⟨c₂, s, rfl, fun h92 => ?_⟩
    have hpair := hbackslash h92
    rw [hescape] at hpair
    simpa using hpair

/-- **A string is copied back as it was** in these cases only. -/
theorem take_jsonEscape_iff {n : Nat} {s : CStr} (hs : s.length ≤ n) :
    (jsonEscape s).take n = s ↔ CopiedBack n s := by
  have hsplit := List.takeWhile_append_dropWhile (p := isClear) (l := s)
  have hclear : jsonEscape (s.takeWhile isClear) = s.takeWhile isClear :=
    jsonEscape_of_allClear fun c hc => List.mem_takeWhile_imp hc
  have hhead := List.head?_dropWhile_not isClear s
  rw [CopiedBack]
  generalize s.takeWhile isClear = front at hsplit hclear
  generalize s.dropWhile isClear = behind at hsplit hhead
  subst hsplit
  rw [List.length_append] at hs
  obtain ⟨k, rfl⟩ := Nat.exists_eq_add_of_le (show front.length ≤ n by omega)
  rw [jsonEscape_append, hclear, List.take_length_add_append, List.append_cancel_left_eq,
    List.length_append, Nat.add_left_cancel_iff]
  cases behind with
  | nil => exact iff_of_true (by simp) nofun
  | cons c behind =>
    rw [List.head?_cons] at hhead
    obtain ⟨c', escape, hescape, hpair⟩ := escapeChar_of_not_clear c (by simpa using hhead)
    rw [List.length_cons] at hs
    obtain ⟨k, rfl⟩ : ∃ m, k = m + 1 := ⟨k - 1, by omega⟩
    have hbehind : c = 92 → (((jsonEscape (c :: behind)).take (k + 1) = c :: behind) ↔
        behind = List.replicate k 92) := by
      rintro rfl
      obtain ⟨rfl, rfl⟩ := hpair rfl
      rw [jsonEscape_cons, hescape, List.cons_append, List.take_succ_cons, List.cons.injEq,
        and_iff_right rfl]
      exact @take_backslashes_iff k 0 behind (by omega)
    have hfirst : (jsonEscape (c :: behind)).take (k + 1) = c :: behind → c = 92 := by
      intro h
      rw [jsonEscape_cons, hescape, List.cons_append, List.take_succ_cons] at h
      exact (List.cons.inj h).1.symm
    refine ⟨fun h => ?_, fun h => ?_⟩
    · have hc := hfirst h
      rw [(hbehind hc).mp h, hc, ← List.replicate_succ, List.length_replicate]
      exact fun d hd => ⟨List.eq_of_mem_replicate hd, rfl⟩
    · obtain ⟨hc, hlength⟩ := h c List.mem_cons_self
      refine (hbehind hc).mpr (List.eq_replicate_iff.mpr ⟨by simpa using hlength, fun d hd => ?_⟩)
      exact (h d (List.mem_cons_of_mem c hd)).1

/-- Whether a tag comes back as it was. -/
def TagCopiedBack (tag : NostrTagEntity) : Prop :=
  CopiedBack 63 tag.key ∧ ∀ value ∈ tag.values, CopiedBack 511 value

theorem map_eq_self_iff {α : Type} {f : α → α} {l : List α} : l.map f = l ↔ ∀ a ∈ l, f a = a := by
  induction l with
  | nil => simp
  | cons a l ih => rw [List.map_cons, List.cons.injEq, ih, List.forall_mem_cons]

theorem rereadTag_eq_iff {tag : NostrTagEntity} (h : tag.Bounded) :
    rereadTag tag = tag ↔ TagCopiedBack tag := by
  obtain ⟨⟨hkey, -⟩, -, hvalues⟩ := h
  rw [rereadTag, NostrTagEntity.mk.injEq, take_jsonEscape_iff (Nat.le_of_lt_succ hkey), map_eq_self_iff,
    TagCopiedBack]
  refine and_congr_right fun _ => forall₂_congr fun value hvalue => ?_
  exact take_jsonEscape_iff (Nat.le_of_lt_succ (hvalues value hvalue).1)

theorem reread_eq_iff {event : NostrEventEntity} (h : event.Parsed) :
    reread event = event ↔ event.createdAt ≠ 2 ^ 63 ∧ ∀ tag ∈ event.tags, TagCopiedBack tag := by
  have htags : event.tags.map rereadTag = event.tags ↔ ∀ tag ∈ event.tags, TagCopiedBack tag :=
    map_eq_self_iff.trans (forall₂_congr fun tag htag => rereadTag_eq_iff (h.tags tag htag))
  have hcreated : (if event.createdAt = 2 ^ 63 then 0 else event.createdAt) = event.createdAt ↔
      event.createdAt ≠ 2 ^ 63 := by
    split
    · next heq => exact iff_of_false (by rw [heq]; decide) (not_not.mpr heq)
    · next hne => exact iff_of_true rfl hne
  rw [← htags, ← hcreated, reread]
  cases event
  simp

/-! ## The two messages -/

/-- What a client receives: the C string in the buffer. -/
def receivedText (buffer : Mem) (capacity : Nat) : CStr := cstr (readAt buffer 0 capacity)

theorem receivedText_writeAt {text : List UInt8} (hzero : 0 ∉ text) {capacity : Nat}
    (hlength : text.length < capacity) (buffer : Mem) :
    receivedText (writeAt buffer 0 (text ++ [0])) capacity = text := by
  obtain ⟨k, rfl⟩ := Nat.exists_eq_add_of_le (Nat.succ_le_of_lt hlength)
  rw [receivedText, readAt_add, readAt_writeAt_same _ _ _ (by simp), cstr, List.append_assoc,
    List.takeWhile_append_of_pos fun c hc => by
      simpa using fun hc0 : c = 0 => hzero (hc0 ▸ hc)]
  simp

/-- A tokenizer that is right about a text. -/
def Tokenizes (jsmn : List UInt8 → Option (List JsonToken)) (t : JsonText) : Prop :=
  jsmn t.text = some t.tokens

/-- The event that the relay reads from the message of a client. -/
def readMessage (jsmn : List UInt8 → Option (List JsonToken)) (text : CStr) : Option NostrEventEntity :=
  (jsmn text).bind (parseEventMessage text)

/-- The event that a client reads from the relay's message. -/
def readResponse (jsmn : List UInt8 → Option (List JsonToken)) (text : CStr) : Option NostrEventEntity :=
  (jsmn text).bind (parseEventResponse text)

theorem accepted_of_readMessage {jsmn : List UInt8 → Option (List JsonToken)} {message : JsonText}
    (hjsmn : Tokenizes jsmn message) {event : NostrEventEntity}
    (h : readMessage jsmn message.text = some event) : Accepted event := by
  rw [readMessage, hjsmn, Option.bind_some] at h
  unfold parseEventMessage at h
  have hin : ∀ t ∈ message.tokens, (t.lexeme message.text).In message.text := by
    intro t ht
    refine message.lexemes_in _ ?_
    rw [← message.map_lexeme_tokens]
    exact List.mem_map_of_mem ht
  split at h
  · next first label object fields htokens =>
    rw [htokens] at hin
    split at h
    · refine accepted_of_extractNostrEvent (fun t ht => hin t ?_) h
      exact List.mem_cons_of_mem _ (List.mem_cons_of_mem _ (List.mem_cons_of_mem _ ht))
    · exact absurd h nofun
  · exact absurd h nofun

variable (jsmn : List UInt8 → Option (List JsonToken)) (subscriptionId : CStr)

theorem readResponse_of_render {event : NostrEventEntity} (hevent : Accepted event) {buffer out : Mem}
    {capacity : Nat} (hrender : nostrResponseEvent subscriptionId event buffer capacity = (true, out))
    (hjsmn : Tokenizes jsmn (relayText subscriptionId event)) :
    readResponse jsmn (receivedText out capacity) = some (reread event) := by
  obtain ⟨hlength, rfl⟩ := nostrResponseEvent_eq hrender
  rw [← text_relayText subscriptionId hevent.toParsed] at hlength ⊢
  rw [receivedText_writeAt (relayText subscriptionId event).zero_notMem_text hlength, readResponse, hjsmn,
    Option.bind_some, parseEventResponse_relayText hevent]

/-- **Relaying preserves an event** whose names and values of tags have no escape (or
are cut off in a run of backslashes), and whose time stamp is not the least one. -/
theorem relay_iff {message : JsonText} (hmessage : Tokenizes jsmn message) {event : NostrEventEntity}
    (hevent : readMessage jsmn message.text = some event) {buffer out : Mem} {capacity : Nat}
    (hrender : nostrResponseEvent subscriptionId event buffer capacity = (true, out))
    (hresponse : Tokenizes jsmn (relayText subscriptionId event)) :
    readResponse jsmn (receivedText out capacity) = some event ↔
      event.createdAt ≠ 2 ^ 63 ∧ ∀ tag ∈ event.tags, TagCopiedBack tag := by
  have haccepted := accepted_of_readMessage hmessage hevent
  rw [readResponse_of_render jsmn subscriptionId haccepted hrender hresponse, Option.some.injEq,
    reread_eq_iff haccepted.toParsed]

/-- The message of a client. -/
def messageText (event : NostrEventEntity) : JsonText :=
  ⟨[], .array [] (itemsOf [.string (jsonString [69, 86, 69, 78, 84]), eventJson event]), []⟩

/-- A tokenizer of two texts. -/
def tokenizerOf (t t' : JsonText) (text : List UInt8) : Option (List JsonToken) :=
  if text = t.text then some t.tokens else if text = t'.text then some t'.tokens else none

theorem tokenizes_first (t t' : JsonText) : Tokenizes (tokenizerOf t t') t := if_pos rfl

theorem tokenizes_second {t t' : JsonText} (hne : t'.text ≠ t.text) : Tokenizes (tokenizerOf t t') t' :=
  (if_neg hne).trans (if_pos rfl)

/-- An event with the tag `["t",<value>]`. -/
def valueEvent (value : CStr) : NostrEventEntity := digitEvent 48 48 0 0 [⟨[116], [value]⟩]

/-- The tokenizer of both messages about it, when the relay has `value'` for the client's
`value`. -/
def valueTokenizer (value value' : CStr) : List UInt8 → Option (List JsonToken) :=
  tokenizerOf (messageText (valueEvent value)) (relayText [115] (valueEvent value'))

theorem relay_iff_plain :
    ∃ out, nostrResponseEvent [115] (valueEvent [97]) (fun _ => 0) 1000 = (true, out) ∧
      (readResponse (valueTokenizer [97] [97]) (receivedText out 1000) = some (valueEvent [97]) ↔
        (valueEvent [97]).createdAt ≠ 2 ^ 63 ∧ ∀ tag ∈ (valueEvent [97]).tags, TagCopiedBack tag) := by
  have hfits : (piecesText (eventPieces [115] (valueEvent [97]))).length < 1000 := by decide +kernel
  have hne : (relayText [115] (valueEvent [97])).text ≠ (messageText (valueEvent [97])).text := by
    decide +kernel
  have hread : readMessage (valueTokenizer [97] [97]) (messageText (valueEvent [97])).text =
      some (valueEvent [97]) := by
    decide +kernel
  have hrender := nostrResponseEvent_of_lt hfits (fun _ => 0)
  exact ⟨_, hrender, relay_iff (valueTokenizer [97] [97]) [115] (tokenizes_first _ _) hread hrender
    (tokenizes_second hne)⟩

/-- A client sends the tag value `\"`, the next one reads `\\\"`. -/
theorem quote_not_preserved :
    ¬ ∀ (jsmn : List UInt8 → Option (List JsonToken)) (message : JsonText) (subscriptionId : CStr)
      (event : NostrEventEntity) (buffer out : Mem) (capacity : Nat), Tokenizes jsmn message →
        readMessage jsmn message.text = some event →
        nostrResponseEvent subscriptionId event buffer capacity = (true, out) →
        Tokenizes jsmn (relayText subscriptionId event) →
          readResponse jsmn (receivedText out capacity) = some event := by
  intro h
  have hfits : (piecesText (eventPieces [115] (valueEvent [92, 34]))).length < 1000 := by decide +kernel
  have hne : (relayText [115] (valueEvent [92, 34])).text ≠ (messageText (valueEvent [34])).text := by
    decide +kernel
  have hread : readMessage (valueTokenizer [34] [92, 34]) (messageText (valueEvent [34])).text =
      some (valueEvent [92, 34]) := by
    decide +kernel
  have hrender := nostrResponseEvent_of_lt hfits (fun _ => 0)
  have hpreserved := h _ _ [115] _ _ _ _ (tokenizes_first _ _) hread hrender (tokenizes_second hne)
  have hreread := readResponse_of_render (valueTokenizer [34] [92, 34]) [115]
    (accepted_of_readMessage (tokenizes_first _ _) hread) hrender (tokenizes_second hne)
  exact absurd (Option.some.inj (hreread.symm.trans hpreserved)) (by decide +kernel)

end OnionRelay
