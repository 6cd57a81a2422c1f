import Mathlib.Data.List.GetD
import OnionRelay.Lib.JsonTokens
import OnionRelay.Nostr.EventJson
import OnionRelay.Nostr.Relayed

/-!
# The members of an event

`extract_nostr_event` goes through the keys and values of the event object, and on to
the elements of the message behind it.  Which field a key stands for is decided by the
first letters of the key (`beginsWith`).

A round of the loop depends on the key and on the value only (`extractField_member`):
the tokens of a value are counted right, and no field is read beyond its value, which
for the tags takes an argument of its own (`extractTags_same`).  So a message is read
member by member (`EventMessage.parse_eq`), and members of other names are passed by
exactly if they do not begin like one of the seven (`makeNoDifference_iff`).
-/

namespace OnionRelay

open OnionRelay.Lib OnionRelay.Db

/-! ## What the functions of the fields see of a token -/

section

variable {l l' : Lexeme} (h : l.Same l')

include h

theorem extractHexField_same (len : Nat) : extractHexField len l = extractHexField len l' := by
  rw [extractHexField, extractHexField, h.type, h.length, h.text]

theorem extractNostrEventKind_same : extractNostrEventKind l = extractNostrEventKind l' := by
  rw [extractNostrEventKind, extractNostrEventKind, h.type, h.length, h.text]

theorem extractNostrEventCreatedAt_same :
    extractNostrEventCreatedAt l = extractNostrEventCreatedAt l' := by
  rw [extractNostrEventCreatedAt, extractNostrEventCreatedAt, h.type, h.length, h.text]

theorem extractNostrEventContent_same : extractNostrEventContent l = extractNostrEventContent l' := by
  rw [extractNostrEventContent, extractNostrEventContent, h.type, h.length, h.text]

theorem copyTokenString_same (n : Nat) : copyTokenString l n = copyTokenString l' n := by
  rw [copyTokenString, copyTokenString, h.text]

end

/-- The value loop reads and leaves the same in two texts, also with other tokens behind. -/
theorem extractValues_same {x x' : List Lexeme} : ∀ {n : Nat} {tokens tokens' : List Lexeme}
    (read : List CStr), List.Forall₂ Lexeme.Same tokens tokens' → n ≤ tokens.length →
      ∃ k values, extractValues n (tokens ++ x) read = (values, tokens.drop k ++ x) ∧
        extractValues n (tokens' ++ x') read = (values, tokens'.drop k ++ x') := by
  intro n
  induction n with
  | zero =>
    intro tokens tokens' read _ _
    exact ⟨0, read, by rw [extractValues, List.drop_zero], by rw [extractValues, List.drop_zero]⟩
  | succ n ih =>
    rintro tokens tokens' read (_ | ⟨hsame, hrest⟩) hn
    · exact absurd hn (Nat.not_succ_le_zero n)
    rename_i l l' tokens tokens'
    have hn' : n ≤ tokens.length := Nat.le_of_succ_le_succ hn
    rw [List.cons_append, List.cons_append, extractValues, extractValues]
    by_cases hroom : read.length < 16
    · rw [if_pos hroom, if_pos hroom, ← hsame.type, ← copyTokenString_same hsame]
      by_cases htype : l.type = .string
      · rw [if_pos htype, if_pos htype]
        obtain ⟨k, values, hleft, hright⟩ := ih (read ++ [copyTokenString l 512]) hrest hn'
        exact ⟨k + 1, values, hleft, hright⟩
      · rw [if_neg htype, if_neg htype]
        obtain ⟨k, values, hleft, hright⟩ := ih read hrest hn'
        exact ⟨k + 1, values, hleft, hright⟩
    · rw [if_neg hroom, if_neg hroom]
      exact ⟨0, read, rfl, rfl⟩

/-- One round of the tag loop, if the rounds behind it do alike. -/
theorem extractTags_succ_same {n : Nat} {x x' : List Lexeme}
    (ih : ∀ (tokens tokens' : List Lexeme) (read : List NostrTagEntity), Closed tokens →
      List.Forall₂ Lexeme.Same tokens tokens' →
        extractTags n (tokens ++ x) read = extractTags n (tokens' ++ x') read)
    {l l' : Lexeme} {tokens tokens' : List Lexeme} (read : List NostrTagEntity)
    (hclosed : Closed (l :: tokens)) (hsame : l.Same l')
    (hrest : List.Forall₂ Lexeme.Same tokens tokens') :
    extractTags (n + 1) (l :: (tokens ++ x)) read = extractTags (n + 1) (l' :: (tokens' ++ x')) read := by
  have hsize := hclosed.head
  have htail := hclosed.tail
  rw [extractTags.eq_def (n + 1) (l :: _), extractTags.eq_def (n + 1) (l' :: _)]
  dsimp only
  rw [← hsame.type, ← hsame.size]
  by_cases hroom : read.length < 2048
  swap
  · rw [if_neg hroom, if_neg hroom]
  rw [if_pos hroom, if_pos hroom]
  by_cases htype : l.type ≠ .array
  · rw [if_pos htype, if_pos htype]
    exact ih _ _ read htail hrest
  rw [if_neg htype, if_neg htype]
  by_cases hempty : l.size = 0
  · rw [if_pos hempty, if_pos hempty]
    exact ih _ _ read htail hrest
  rw [if_neg hempty, if_neg hempty]
  rcases hrest with _ | ⟨hkey, hvalues⟩
  · exact absurd (Nat.le_zero.mp hsize) hempty
  rename_i key key' tokens tokens'
  rw [List.cons_append, List.cons_append]
  dsimp only
  rw [← hkey.type, ← copyTokenString_same hkey]
  by_cases hstring : key.type ≠ .string
  · have hlength := (List.Forall₂.cons hkey hvalues).length_eq
    rw [if_pos hstring, if_pos hstring, ← List.cons_append, ← List.cons_append,
      List.drop_append_of_le_length hsize, List.drop_append_of_le_length (hlength ▸ hsize)]
    exact ih _ _ read (htail.drop _) (List.forall₂_drop _ (.cons hkey hvalues))
  · rw [if_neg hstring, if_neg hstring]
    rw [List.length_cons] at hsize
    obtain ⟨k, values, hleft, hright⟩ := @extractValues_same x x' (l.size - 1) _ _ [] hvalues (by omega)
    rw [hleft, hright]
    exact ih _ _ _ (htail.tail.drop k) (List.forall₂_drop k hvalues)

/-- **The tag loop** reads the items only. -/
theorem extractTags_same {tail tail' : List UInt8} {more more' : List Lexeme} : ∀ {n : Nat}
    {tokens tokens' : List Lexeme} {items : Items} (read : List NostrTagEntity), Closed tokens →
      List.Forall₂ Lexeme.Same tokens tokens' → n ≤ items.count →
        extractTags n (tokens ++ (items.lexemes tail ++ more)) read =
          extractTags n (tokens' ++ (items.lexemes tail' ++ more')) read := by
  intro n
  induction n with
  | zero =>
    intro tokens tokens' items read _ _ _
    rw [extractTags.eq_def, extractTags.eq_def 0 (tokens' ++ _)]
  | succ n ih =>
    rintro tokens tokens' items read hclosed (_ | ⟨hsame, hrest⟩) hn
    · -- the next item is read as if it had been left over from the one before
      cases items with
      | nil => exact absurd hn (Nat.not_succ_le_zero n)
      | cons before value behind rest =>
        have hclosed := value.lexemes_closed (blankText behind ++ (rest.text [44] ++ tail))
        have hsame := value.lexemes_same (blankText behind ++ (rest.text [44] ++ tail))
          (blankText behind ++ (rest.text [44] ++ tail'))
        have hne := lexemes_ne_nil value (blankText behind ++ (rest.text [44] ++ tail))
        rw [Items.lexemes, Items.lexemes, List.nil_append, List.nil_append, List.append_assoc,
          List.append_assoc]
        generalize value.lexemes (blankText behind ++ (rest.text [44] ++ tail)) = first at *
        generalize value.lexemes (blankText behind ++ (rest.text [44] ++ tail')) = first' at *
        rcases hsame with _ | ⟨hsame, hrest⟩
        · exact absurd rfl hne
        · exact extractTags_succ_same (fun _ _ read hc hs => ih read hc hs (Nat.le_of_succ_le_succ hn)) read
            hclosed hsame hrest
    · exact extractTags_succ_same (fun _ _ read hc hs => ih read hc hs (Nat.le_of_succ_le hn)) read
        hclosed hsame hrest

/-- **The tags of an event** are read out of their value only. -/
theorem extractNostrEventTags_same (j : Json) (tail tail' : List UInt8) (more more' : List Lexeme) :
    extractNostrEventTags (j.lexemes tail ++ more) = extractNostrEventTags (j.lexemes tail' ++ more') := by
  cases j with
  | primitive first rest => rfl
  | string s => rfl
  | object blanks members => rfl
  | array blanks items =>
    have hread := @extractTags_same (93 :: tail) (93 :: tail') more more' items.count [] [] items [] closed_nil
      .nil (Nat.le_refl _)
    rw [List.nil_append, List.nil_append] at hread
    rw [Json.lexemes, Json.lexemes, List.cons_append, List.cons_append, extractNostrEventTags,
      extractNostrEventTags]
    dsimp only
    rw [hread]

/-! ## The members -/

/-- The names that `extract_nostr_event` looks for, in its order. -/
def fieldNames : List CStr :=
  [[105, 100], [112, 117, 98, 107, 101, 121], [107, 105, 110, 100],
    [99, 114, 101, 97, 116, 101, 100, 95, 97, 116], [115, 105, 103], [116, 97, 103, 115],
    [99, 111, 110, 116, 101, 110, 116]]

/-- The text of a key begins with the name, in either case. -/
def beginsWith (key : List JsonChar) (name : CStr) : Bool := nostrStrncmp (stringText key) name name.length

/-- A quote behind the key ends the comparison. -/
theorem nostrStrncmp_append_quote {name : CStr} (hname : ∀ c ∈ name, chrcmp 34 c = false ∧ chrcmp 0 c = false)
    (s rest : CStr) :
    nostrStrncmp (s ++ 34 :: rest) name name.length = nostrStrncmp s name name.length := by
  rw [nostrStrncmp, nostrStrncmp]
  split
  · rfl
  by_cases hlength : name.length ≤ s.length
  · rw [Bool.eq_iff_iff, List.all_eq_true, List.all_eq_true]
    refine forall₂_congr fun i hi => ?_
    rw [List.getD_append _ _ _ _ (Nat.lt_of_lt_of_le (List.mem_range.mp hi) hlength)]
  · have hlt : s.length < name.length := Nat.lt_of_not_le hlength
    have hmem : name.getD s.length 0 ∈ name := by
      rw [List.getD_eq_getElem _ _ hlt]
      exact List.getElem_mem hlt
    obtain ⟨hquote, hzero⟩ := hname _ hmem
    have hout : ∀ t : CStr, chrcmp (t.getD s.length 0) (name.getD s.length 0) = false →
        (List.range name.length).all (fun i => chrcmp (t.getD i 0) (name.getD i 0)) = false := by
      intro t ht
      rw [List.all_eq_false]
      exact ⟨s.length, List.mem_range.mpr hlt, by rw [ht]; exact Bool.false_ne_true⟩
    rw [hout, hout]
    · rwa [List.getD_eq_default _ _ (Nat.le_refl _)]
    · rwa [List.getD_append_right _ _ _ _ (Nat.le_refl _), Nat.sub_self]

theorem fieldNames_clear : ∀ name ∈ fieldNames, ∀ c ∈ name, chrcmp 34 c = false ∧ chrcmp 0 c = false := by
  decide +kernel

theorem jsonStrncmp_key {name : CStr} (hname : ∀ c ∈ name, chrcmp 34 c = false ∧ chrcmp 0 c = false)
    {token : Lexeme} (htype : token.type = .string) {key : List JsonChar} {rest : List UInt8}
    (hrest : token.rest = stringText key ++ 34 :: rest) : jsonStrncmp token name = beginsWith key name := by
  rw [jsonStrncmp, beginsWith, hrest, htype, nostrStrncmp_append_quote hname, decide_eq_true rfl,
    Bool.true_and]

/-- A round of the loop, as it depends on the key and the value only. -/
def readMember (member : List JsonChar × Json) (st : FoundFields × NostrEventEntity) :
    Option (FoundFields × NostrEventEntity) :=
  match member.2.lexemes [] with
  | [] => none
  | value :: tokens => extractField (keyLexeme (stringText member.1) []) (value :: tokens) value st

theorem extractField_member {token : Lexeme} (htype : token.type = .string) {key : List JsonChar}
    {rest : List UInt8} (hrest : token.rest = stringText key ++ 34 :: rest) {j : Json} {tail : List UInt8}
    {value : Lexeme} {tokens : List Lexeme} (hvalue : j.lexemes tail = value :: tokens)
    (more : List Lexeme) (st : FoundFields × NostrEventEntity) :
    extractField token (value :: (tokens ++ more)) value st = readMember (key, j) st := by
  obtain ⟨found, event⟩ := st
  have hsame := j.lexemes_same tail []
  have htags := extractNostrEventTags_same j tail [] more []
  rw [List.append_nil, hvalue, List.cons_append] at htags
  rw [hvalue] at hsame
  rw [readMember]
  rcases hcanonical : j.lexemes [] with - | ⟨value', tokens'⟩
  · exact absurd hcanonical (lexemes_ne_nil j [])
  rw [hcanonical] at hsame htags
  have hhead : value.Same value' := (List.forall₂_cons.mp hsame).1
  have hnames : ∀ name ∈ fieldNames, jsonStrncmp token name =
      jsonStrncmp (keyLexeme (stringText key) []) name := by
    intro name hname
    rw [jsonStrncmp_key (fieldNames_clear name hname) htype hrest,
      jsonStrncmp_key (fieldNames_clear name hname) rfl rfl]
  simp only [fieldNames, List.forall_mem_cons] at hnames
  obtain ⟨hid, hpubkey, hkind, hcreatedAt, hsig, htagsName, hcontent, -⟩ := hnames
  dsimp only
  rw [extractField, extractField, htype, hid, hpubkey, hkind, hcreatedAt, hsig, htagsName, hcontent, htags,
    extractNostrEventId, extractNostrEventPubkey, extractNostrEventSig, extractHexField_same hhead,
    extractNostrEventKind_same hhead, extractNostrEventCreatedAt_same hhead, extractHexField_same hhead,
    extractNostrEventContent_same hhead]
  rfl

/-- A round of the loop over a key and a value. -/
theorem extractFields_succ {token : Lexeme} (htype : token.type = .string) {key : List JsonChar}
    {rest : List UInt8} (hrest : token.rest = stringText key ++ 34 :: rest) (j : Json) (tail : List UInt8)
    (more : List Lexeme) (fuel : Nat) (st : FoundFields × NostrEventEntity) :
    extractFields (fuel + 1) (token :: (j.lexemes tail ++ more)) st =
      (readMember (key, j) st).bind (extractFields fuel more) := by
  have hcount := @countValueTokens_lexemes j tail more (j.lexemes tail ++ more).length
    (by rw [List.length_append]; exact Nat.le_add_right _ _)
  rcases hvalue : j.lexemes tail with - | ⟨value, tokens⟩
  · exact absurd hvalue (lexemes_ne_nil _ _)
  rw [hvalue, List.cons_append] at hcount
  rw [List.cons_append, extractFields, extractField_member htype hrest hvalue more st, hcount,
    ← List.cons_append]
  dsimp only
  rw [List.drop_left]
  rfl

/-- **The loop over the members** of an object, whatever stands behind it. -/
theorem extractFields_members : ∀ (members : Members) (tail : List UInt8) (more : List Lexeme)
    {fuel : Nat} (st : FoundFields × NostrEventEntity), members.count ≤ fuel →
      extractFields fuel (members.lexemes tail ++ more) st =
        (members.toList.foldlM (fun st member => readMember member st) st).bind
          (extractFields (fuel - members.count) more)
  | .nil, _, _, _, _, _ => rfl
  | .cons before key beforeColon behindColon value behind rest, tail, more, fuel + 1, st, hfuel => by
    obtain ⟨token, behindKey, hlexemes, htype, hrest⟩ :=
      Members.exists_lexemes_cons before key beforeColon behindColon value behind rest tail
    rw [hlexemes, List.cons_append, List.append_assoc, extractFields_succ htype hrest, Members.toList,
      List.foldlM_cons, Members.count, Nat.add_sub_add_right, Option.bind_eq_bind, Option.bind_assoc]
    exact congrArg _ (funext fun st =>
      extractFields_members rest tail more st (Nat.le_of_succ_le_succ hfuel))

/-! ## The elements behind the object -/

/-- What the loop does with the elements of the array behind the object: it takes two of
them for a key and a value, and leaves a single token alone. -/
def readFurther : List Json → FoundFields × NostrEventEntity → Option (FoundFields × NostrEventEntity)
  | [], st => some st
  | [j], st => if (j.lexemes []).length = 1 then some st else none
  | .string key :: value :: rest, st => do
    let st ← readMember (key, value) st
    readFurther rest st
  | _ :: _ :: _, _ => none

theorem length_lexemes (j : Json) (tail : List UInt8) :
    (j.lexemes tail).length = (j.lexemes []).length := (j.lexemes_same tail []).length_eq

/-- Anything but a string is no key, if there is a token behind it. -/
theorem extractFields_of_ne_string {token value : Lexeme} (htype : token.type ≠ .string)
    (more : List Lexeme) (fuel : Nat) (st : FoundFields × NostrEventEntity) :
    extractFields (fuel + 1) (token :: value :: more) st = none := by
  obtain ⟨found, event⟩ := st
  rw [extractFields, extractField, if_pos htype]
  rfl

theorem extractFields_two {token : Lexeme} (htype : token.type ≠ .string) {more : List Lexeme}
    (hmore : more ≠ []) (fuel : Nat) (st : FoundFields × NostrEventEntity) :
    extractFields (fuel + 1) (token :: more) st = none := by
  rcases more with - | ⟨value, more⟩
  · exact absurd rfl hmore
  · exact extractFields_of_ne_string htype more fuel st

theorem extractFields_further : ∀ (further : Items) (tail : List UInt8) {fuel : Nat}
    (st : FoundFields × NostrEventEntity), (further.lexemes tail).length ≤ fuel →
      extractFields fuel (further.lexemes tail) st = readFurther further.toList st
  | .nil, _, fuel, st, _ => by cases fuel <;> rfl
  | .cons _ j behind .nil, tail, fuel, st, hfuel => by
    rw [Items.lexemes, show Items.lexemes .nil tail = [] from rfl, List.append_nil] at hfuel ⊢
    rw [show (Items.cons _ j behind .nil).toList = [j] from rfl, readFurther,
      ← length_lexemes j (blankText behind ++ (Items.text .nil [44] ++ tail))]
    have htype : ∀ token value tokens, j.lexemes (blankText behind ++ (Items.text .nil [44] ++ tail)) =
        token :: value :: tokens → token.type ≠ .string := by
      intro token value tokens hj
      cases j with
      | primitive first rest => exact absurd (List.cons.inj hj).2 (by simp)
      | string s => exact absurd (List.cons.inj hj).2 (by simp)
      | array blanks items =>
        rw [← (List.cons.inj hj).1]
        exact JsonType.noConfusion
      | object blanks members =>
        rw [← (List.cons.inj hj).1]
        exact JsonType.noConfusion
    rcases hj : j.lexemes (blankText behind ++ (Items.text .nil [44] ++ tail)) with - | ⟨token, - | ⟨value, tokens⟩⟩
    · exact absurd hj (lexemes_ne_nil _ _)
    · rw [if_pos (show [token].length = 1 from rfl)]
      cases fuel <;> rfl
    · rw [hj] at hfuel
      rcases fuel with - | fuel
      · exact absurd hfuel (Nat.not_succ_le_zero _)
      rw [if_neg (by simp), extractFields_of_ne_string (htype token value tokens hj)]
  | .cons _ (.string key) behind (.cons before' value behind' rest), tail, fuel + 1, st, hfuel => by
    obtain ⟨token, behindKey, hlexemes, htype, hrest⟩ : ∃ token behindKey,
        (Json.string key).lexemes (blankText behind ++ ((Items.cons before' value behind' rest).text [44] ++
          tail)) = [token] ∧ token.type = .string ∧ token.rest = stringText key ++ 34 :: behindKey :=
      ⟨_, _, rfl, rfl, rfl⟩
    rw [Items.lexemes, hlexemes, List.singleton_append, Items.lexemes] at hfuel ⊢
    rw [List.length_cons, List.length_append] at hfuel
    rw [extractFields_succ htype hrest, Items.toList, Items.toList, readFurther, Option.bind_eq_bind]
    exact congrArg _ (funext fun st => extractFields_further rest tail st (by omega))
  | .cons _ (.primitive _ _) behind (.cons _ value _ _), tail, fuel + 1, st, _ =>
    extractFields_two JsonType.noConfusion (List.append_ne_nil_of_left_ne_nil (lexemes_ne_nil value _) _) fuel st
  | .cons _ (.array _ _) behind (.cons _ value _ _), tail, fuel + 1, st, _ =>
    extractFields_two JsonType.noConfusion (List.append_ne_nil_of_right_ne_nil _
      (List.append_ne_nil_of_left_ne_nil (lexemes_ne_nil value _) _)) fuel st
  | .cons _ (.object _ _) behind (.cons _ value _ _), tail, fuel + 1, st, _ =>
    extractFields_two JsonType.noConfusion (List.append_ne_nil_of_right_ne_nil _
      (List.append_ne_nil_of_left_ne_nil (lexemes_ne_nil value _) _)) fuel st

/-! ## Messages -/

/-- An EVENT message: an array of a string that begins with `EVENT`, an object and
further elements. -/
structure EventMessage where
  before : List Blank
  blanks : List Blank
  beforeLabel : List Blank
  label : List JsonChar
  behindLabel : List Blank
  beforeObject : List Blank
  objectBlanks : List Blank
  members : Members
  behindObject : List Blank
  further : Items
  behind : List Blank
  isEvent : beginsWith label [69, 86, 69, 78, 84] = true

def EventMessage.json (m : EventMessage) : JsonText :=
  ⟨m.before, .array m.blanks (.cons m.beforeLabel (.string m.label) m.behindLabel
    (.cons m.beforeObject (.object m.objectBlanks m.members) m.behindObject m.further)), m.behind⟩

/-- The event that `nostr_event_handler` takes out of the message, if the tokenizer finds
its tokens. -/
def EventMessage.parse (m : EventMessage) : Option NostrEventEntity :=
  parseEventMessage m.json.text m.json.tokens

/-- The start of the loop. -/
def noFields : FoundFields × NostrEventEntity := (FoundFields.none, NostrEventEntity.zero)

/-- The end of `extract_nostr_event`. -/
def foundEvent (st : FoundFields × NostrEventEntity) : Option NostrEventEntity :=
  if st.1.all then some st.2 else none

/-- The members read one after the other. -/
def readMembers (members : List (List JsonChar × Json)) (st : FoundFields × NostrEventEntity) :
    Option (FoundFields × NostrEventEntity) :=
  members.foldlM (fun st member => readMember member st) st

/-- **What is read of a message.** -/
theorem EventMessage.parse_eq (m : EventMessage) :
    m.parse = ((readMembers m.members.toList noFields).bind (readFurther m.further.toList)).bind foundEvent := by
  have htokens := m.json.map_lexeme_tokens
  obtain ⟨message, label, object, tail, hlexemes, hmessage, hlabel, hobject, hrest⟩ :
      ∃ message label object tail, m.json.lexemes = message :: label :: object ::
          (m.members.lexemes tail ++ m.further.lexemes (93 :: blankText m.behind)) ∧
        message.type = .array ∧ label.type = .string ∧ object.type = .object ∧
        ∃ rest, label.rest = stringText m.label ++ 34 :: rest :=
    ⟨_, _, _, _, rfl, rfl, rfl, rfl, _, rfl⟩
  obtain ⟨rest, hrest⟩ := hrest
  rw [hlexemes] at htokens
  obtain ⟨message', tokens, htokens₁, rfl, hbehind₁⟩ := List.map_eq_cons_iff.mp htokens
  obtain ⟨label', tokens, rfl, rfl, hbehind₂⟩ := List.map_eq_cons_iff.mp hbehind₁
  obtain ⟨object', fields, rfl, rfl, hfields⟩ := List.map_eq_cons_iff.mp hbehind₂
  have hlabelText : jsonStrncmp (label'.lexeme m.json.text) [69, 86, 69, 78, 84] = true :=
    (jsonStrncmp_key (by decide +kernel) hlabel hrest).trans m.isEvent
  have hlength := congrArg List.length hfields
  rw [List.length_map, List.length_append] at hlength
  have hcount := m.members.count_le tail
  have hfurther : extractFields (fields.length - m.members.count) (m.further.lexemes (93 :: blankText m.behind)) =
      readFurther m.further.toList :=
    funext fun st => extractFields_further m.further _ st (by omega)
  rw [EventMessage.parse, htokens₁, parseEventMessage]
  rw [if_pos ⟨hmessage, hlabel, hlabelText, hobject⟩, extractNostrEvent, hfields,
    extractFields_members m.members tail _ _ (by omega), hfurther]
  rfl

/-! ## Members of other names -/

/-- The member has one of the seven names. -/
def Named (member : List JsonChar × Json) : Prop := stringText member.1 ∈ fieldNames

instance (member : List JsonChar × Json) : Decidable (Named member) := inferInstanceAs (Decidable (_ ∈ _))

/-- The members with one of the seven names, in their order. -/
def EventMessage.named (m : EventMessage) : List (List JsonChar × Json) :=
  m.members.toList.filter fun member => Named member

/-- The other members. -/
def EventMessage.others (m : EventMessage) : List (List JsonChar × Json) :=
  m.members.toList.filter fun member => ¬ Named member

/-- The key begins with none of the seven names. -/
def Unlike (key : List JsonChar) : Prop := ∀ name ∈ fieldNames, beginsWith key name = false

instance (key : List JsonChar) : Decidable (Unlike key) := inferInstanceAs (Decidable (∀ _ ∈ _, _))

/-- The elements behind the object are pairs of a string that begins with none of the
names and any value, and at the end at most one element of a single token. -/
def HarmlessFurther : List Json → Prop
  | [] => True
  | [j] => (j.lexemes []).length = 1
  | .string key :: _ :: rest => Unlike key ∧ HarmlessFurther rest
  | _ :: _ :: _ => False

/-- These other members and further elements make no difference to any message: what is
parsed is what is parsed without them. -/
def MakeNoDifference (others : List (List JsonChar × Json)) (further : List Json) : Prop :=
  ∀ m plain : EventMessage, m.others = others → m.further.toList = further →
    plain.others = [] → plain.further.toList = [] → plain.named = m.named → m.parse = plain.parse

theorem readMember_of_unlike {member : List JsonChar × Json} (h : Unlike member.1)
    (st : FoundFields × NostrEventEntity) : readMember member st = some st := by
  obtain ⟨key, j⟩ := member
  obtain ⟨found, event⟩ := st
  have hnames : ∀ name ∈ fieldNames, jsonStrncmp (keyLexeme (stringText key) []) name = false := by
    intro name hname
    rw [jsonStrncmp_key (fieldNames_clear name hname) rfl rfl, h name hname]
  simp only [fieldNames, List.forall_mem_cons] at hnames
  obtain ⟨hid, hpubkey, hkind, hcreatedAt, hsig, htags, hcontent, -⟩ := hnames
  rw [readMember]
  rcases hj : j.lexemes [] with - | ⟨value, tokens⟩
  · exact absurd hj (lexemes_ne_nil _ _)
  dsimp only
  rw [extractField, hid, hpubkey, hkind, hcreatedAt, hsig, htags, hcontent]
  rfl

theorem readFurther_of_harmless : ∀ {further : List Json}, HarmlessFurther further →
    ∀ st, readFurther further st = some st
  | [], _, st => rfl
  | [j], h, st => if_pos h
  | .string key :: value :: rest, h, st => by
    rw [readFurther, @readMember_of_unlike (key, value) h.1]
    exact readFurther_of_harmless h.2 st

/-- Members that are unlike the seven names are passed by. -/
theorem readMembers_filter {members : List (List JsonChar × Json)}
    (h : ∀ member ∈ members, ¬ Named member → Unlike member.1) (st : FoundFields × NostrEventEntity) :
    readMembers members st = readMembers (members.filter fun member => Named member) st := by
  induction members generalizing st with
  | nil => rfl
  | cons member members ih =>
    have ih := ih fun m hm => h m (List.mem_cons_of_mem _ hm)
    rw [readMembers, List.foldlM_cons]
    by_cases hnamed : Named member
    · rw [List.filter_cons_of_pos (by simpa using hnamed), readMembers, List.foldlM_cons]
      exact congrArg _ (funext ih)
    · rw [List.filter_cons_of_neg (by simpa using hnamed),
        readMember_of_unlike (h member List.mem_cons_self hnamed)]
      exact ih st

theorem makeNoDifference_of_harmless {others : List (List JsonChar × Json)} {further : List Json}
    (hothers : ∀ member ∈ others, Unlike member.1) (hfurther : HarmlessFurther further) :
    MakeNoDifference others further := by
  rintro m plain rfl rfl hplain hnone hsame
  have hmessage : readMembers m.members.toList noFields = readMembers m.named noFields :=
    readMembers_filter (fun member hmem hnot =>
      hothers member (List.mem_filter.mpr ⟨hmem, by simpa using hnot⟩)) _
  have hall : plain.named = plain.members.toList := by
    refine List.filter_eq_self.mpr fun member hmem => ?_
    by_contra hnot
    have : member ∈ plain.others := List.mem_filter.mpr ⟨hmem, by simpa using hnot⟩
    rw [hplain] at this
    exact absurd this List.not_mem_nil
  rw [m.parse_eq, plain.parse_eq, hmessage, ← hsame, hall, hnone,
    funext (readFurther_of_harmless hfurther)]
  rfl

/-! ## Members that make a difference -/

/-- Two events that have no field in common. -/
structure Differ (e e' : NostrEventEntity) : Prop where
  id : e.id ≠ e'.id
  pubkey : e.pubkey ≠ e'.pubkey
  kind : e.kind ≠ e'.kind
  createdAt : e.createdAt ≠ e'.createdAt
  sig : e.sig ≠ e'.sig
  tags : e.tags ≠ e'.tags
  content : e.content ≠ e'.content

/-- A branch of `extractField` that gives two runs one value was not taken, if they end
without a common value. -/
theorem branch_not_taken {α σ : Type} {b : Bool} {read : Option α} {f₁ f₂ : α → σ} {rest₁ rest₂ : Option σ}
    {s₁ s₂ : σ} (h₁ : (if b = true then read.map f₁ else rest₁) = some s₁)
    (h₂ : (if b = true then read.map f₂ else rest₂) = some s₂) (hne : ∀ a, s₁ = f₁ a → s₂ ≠ f₂ a) :
    b = false ∧ rest₁ = some s₁ ∧ rest₂ = some s₂ := by
  cases b with
  | false => exact ⟨rfl, h₁, h₂⟩
  | true =>
    obtain ⟨a, ha, hs₁⟩ := Option.map_eq_some_iff.mp h₁
    obtain ⟨a', ha', hs₂⟩ := Option.map_eq_some_iff.mp h₂
    obtain rfl := Option.some.inj (ha.symm.trans ha')
    exact absurd hs₂.symm (hne a hs₁.symm)

/-- A member leaves two events without a common field only if it was none of theirs. -/
theorem readMember_differ {member : List JsonChar × Json} {st₁ st₁' st₂ st₂' : FoundFields × NostrEventEntity}
    (h₁ : readMember member st₁ = some st₁') (h₂ : readMember member st₂ = some st₂')
    (hdiffer : Differ st₁'.2 st₂'.2) : Unlike member.1 ∧ Differ st₁.2 st₂.2 := by
  obtain ⟨key, j⟩ := member
  obtain ⟨found₁, event₁⟩ := st₁
  obtain ⟨found₂, event₂⟩ := st₂
  have hnames : ∀ name ∈ fieldNames, jsonStrncmp (keyLexeme (stringText key) []) name = beginsWith key name :=
    fun name hname => jsonStrncmp_key (fieldNames_clear name hname) rfl rfl
  rw [readMember] at h₁ h₂
  rcases hj : j.lexemes [] with - | ⟨value, tokens⟩
  · exact absurd hj (lexemes_ne_nil _ _)
  rw [hj] at h₁ h₂
  dsimp only at h₁ h₂
  rw [Unlike]
  simp only [fieldNames, List.forall_mem_cons] at hnames ⊢
  obtain ⟨hid, hpubkey, hkind, hcreatedAt, hsig, htags, hcontent, -⟩ := hnames
  have htype : (keyLexeme (stringText key) []).type = .string := rfl
  rw [extractField, if_neg (not_not.mpr htype), hid, hpubkey, hkind, hcreatedAt, hsig, htags, hcontent]
    at h₁ h₂
  obtain ⟨hid, h₁, h₂⟩ := branch_not_taken h₁ h₂ fun v e₁ e₂ => hdiffer.id (by rw [e₁, e₂])
  obtain ⟨hpubkey, h₁, h₂⟩ := branch_not_taken h₁ h₂ fun v e₁ e₂ => hdiffer.pubkey (by rw [e₁, e₂])
  obtain ⟨hkind, h₁, h₂⟩ := branch_not_taken h₁ h₂ fun v e₁ e₂ => hdiffer.kind (by rw [e₁, e₂])
  obtain ⟨hcreatedAt, h₁, h₂⟩ := branch_not_taken h₁ h₂ fun v e₁ e₂ => hdiffer.createdAt (by rw [e₁, e₂])
  obtain ⟨hsig, h₁, h₂⟩ := branch_not_taken h₁ h₂ fun v e₁ e₂ => hdiffer.sig (by rw [e₁, e₂])
  obtain ⟨htags, h₁, h₂⟩ := branch_not_taken h₁ h₂ fun v e₁ e₂ => hdiffer.tags (by rw [e₁, e₂])
  obtain ⟨hcontent, h₁, h₂⟩ := branch_not_taken h₁ h₂ fun v e₁ e₂ => hdiffer.content (by rw [e₁, e₂])
  obtain rfl := Option.some.inj h₁
  obtain rfl := Option.some.inj h₂
  exact ⟨⟨hid, hpubkey, hkind, hcreatedAt, hsig, htags, hcontent, by simp⟩, hdiffer⟩

theorem readMembers_differ {members : List (List JsonChar × Json)}
    {st₁ st₁' st₂ st₂' : FoundFields × NostrEventEntity} (h₁ : readMembers members st₁ = some st₁')
    (h₂ : readMembers members st₂ = some st₂') (hdiffer : Differ st₁'.2 st₂'.2) :
    (∀ member ∈ members, Unlike member.1) ∧ Differ st₁.2 st₂.2 := by
  induction members generalizing st₁ st₂ with
  | nil =>
    obtain rfl := Option.some.inj h₁
    obtain rfl := Option.some.inj h₂
    exact ⟨fun member hmem => absurd hmem List.not_mem_nil, hdiffer⟩
  | cons member members ih =>
    rw [readMembers, List.foldlM_cons] at h₁ h₂
    obtain ⟨mid₁, hmid₁, h₁⟩ := Option.bind_eq_some_iff.mp h₁
    obtain ⟨mid₂, hmid₂, h₂⟩ := Option.bind_eq_some_iff.mp h₂
    obtain ⟨hrest, hmid⟩ := ih h₁ h₂
    obtain ⟨hmember, hst⟩ := readMember_differ hmid₁ hmid₂ hmid
    exact ⟨List.forall_mem_cons.mpr ⟨hmember, hrest⟩, hst⟩

theorem readFurther_differ : ∀ {further : List Json} {st₁ st₁' st₂ st₂' : FoundFields × NostrEventEntity},
    readFurther further st₁ = some st₁' → readFurther further st₂ = some st₂' → Differ st₁'.2 st₂'.2 →
      HarmlessFurther further ∧ Differ st₁.2 st₂.2
  | [], st₁, st₁', st₂, st₂', h₁, h₂, hdiffer => by
    obtain rfl := Option.some.inj h₁
    obtain rfl := Option.some.inj h₂
    exact ⟨trivial, hdiffer⟩
  | [j], st₁, st₁', st₂, st₂', h₁, h₂, hdiffer => by
    rw [readFurther] at h₁ h₂
    by_cases hone : (j.lexemes []).length = 1
    · rw [if_pos hone] at h₁ h₂
      obtain rfl := Option.some.inj h₁
      obtain rfl := Option.some.inj h₂
      exact ⟨hone, hdiffer⟩
    · rw [if_neg hone] at h₁
      exact absurd h₁ (by simp)
  | .string key :: value :: rest, st₁, st₁', st₂, st₂', h₁, h₂, hdiffer => by
    rw [readFurther] at h₁ h₂
    obtain ⟨mid₁, hmid₁, h₁⟩ := Option.bind_eq_some_iff.mp h₁
    obtain ⟨mid₂, hmid₂, h₂⟩ := Option.bind_eq_some_iff.mp h₂
    obtain ⟨hrest, hmid⟩ := readFurther_differ h₁ h₂ hdiffer
    obtain ⟨hkey, hst⟩ := readMember_differ hmid₁ hmid₂ hmid
    exact ⟨⟨hkey, hrest⟩, hst⟩
  | .primitive _ _ :: _ :: _, _, _, _, _, h₁, _, _ => absurd h₁ (by simp [readFurther])
  | .array _ _ :: _ :: _, _, _, _, _, h₁, _, _ => absurd h₁ (by simp [readFurther])
  | .object _ _ :: _ :: _, _, _, _, _, h₁, _, _ => absurd h₁ (by simp [readFurther])

/-! ## Two messages without a common field -/

/-- The members of an event in which one digit stands everywhere. -/
def digitMembers (c : UInt8) : List (List JsonChar × Json) :=
  [(jsonString [105, 100], .string (jsonString (List.replicate 64 c))),
    (jsonString [112, 117, 98, 107, 101, 121], .string (jsonString (List.replicate 64 c))),
    (jsonString [107, 105, 110, 100], numberJson [c]),
    (jsonString [99, 114, 101, 97, 116, 101, 100, 95, 97, 116], numberJson [c]),
    (jsonString [115, 105, 103], .string (jsonString (List.replicate 128 c))),
    (jsonString [116, 97, 103, 115], tagsJson [⟨[c], []⟩]),
    (jsonString [99, 111, 110, 116, 101, 110, 116], .string (jsonString [c]))]

/-- The event of these members. -/
def digitMembersEvent (c : UInt8) : NostrEventEntity where
  id := List.replicate 64 c
  pubkey := List.replicate 64 c
  kind := c.toNat - 48
  createdAt := c.toNat - 48
  tags := [⟨[c], []⟩]
  content := [c]
  sig := List.replicate 128 c

theorem readMembers_digitMembers : ∀ c ∈ ([49, 50] : List UInt8), readMembers (digitMembers c) noFields =
    some (⟨true, true, true, true, true, true, true⟩, digitMembersEvent c) := by
  intro c hc
  rcases List.mem_cons.mp hc with rfl | hc
  · rfl
  · obtain rfl := List.mem_singleton.mp hc
    rfl

theorem differ_digitMembersEvent : Differ (digitMembersEvent 49) (digitMembersEvent 50) := by
  constructor <;> decide

/-- A message without blanks. -/
def plainMessage (members : List (List JsonChar × Json)) (further : List Json) : EventMessage where
  before := []
  blanks := []
  beforeLabel := []
  label := jsonString [69, 86, 69, 78, 84]
  behindLabel := []
  beforeObject := []
  objectBlanks := []
  members := Members.ofList members
  behindObject := []
  further := itemsOf further
  behind := []
  isEvent := by decide

theorem toList_itemsOf (values : List Json) : (itemsOf values).toList = values := by
  induction values with
  | nil => rfl
  | cons value values ih => rw [itemsOf, Items.toList, ih]

theorem parse_plainMessage (members : List (List JsonChar × Json)) (further : List Json) :
    (plainMessage members further).parse =
      ((readMembers members noFields).bind (readFurther further)).bind foundEvent := by
  rw [EventMessage.parse_eq, plainMessage, Members.toList_ofList, toList_itemsOf]

theorem named_digitMembers (c : UInt8) : ∀ member ∈ digitMembers c, Named member := by
  simp only [digitMembers, List.forall_mem_cons, Named]
  decide

section

variable {others : List (List JsonChar × Json)} (hothers : ∀ member ∈ others, ¬ Named member)
  (further : List Json) {c : UInt8} (hc : c ∈ ([49, 50] : List UInt8))

include hothers

theorem named_append (c : UInt8) :
    (plainMessage (digitMembers c ++ others) further).named = digitMembers c ∧
      (plainMessage (digitMembers c ++ others) further).others = others := by
  have hnamed := named_digitMembers c
  rw [EventMessage.named, EventMessage.others, plainMessage, Members.toList_ofList, List.filter_append,
    List.filter_append]
  constructor
  · rw [List.filter_eq_self.mpr fun member hmem => by simpa using hnamed member hmem,
      List.filter_eq_nil_iff.mpr fun member hmem => by simpa using hothers member hmem, List.append_nil]
  · rw [List.filter_eq_nil_iff.mpr fun member hmem => by simpa using hnamed member hmem,
      List.filter_eq_self.mpr fun member hmem => by simpa using hothers member hmem, List.nil_append]

include hc in
/-- Where nothing makes a difference, the event of these members is still parsed. -/
theorem MakeNoDifference.run (h : MakeNoDifference others further) : ∃ mid st,
    readMembers others (⟨true, true, true, true, true, true, true⟩, digitMembersEvent c) = some mid ∧
      readFurther further mid = some st ∧ st.2 = digitMembersEvent c := by
  have hread := readMembers_digitMembers c hc
  obtain ⟨hnamed, hrest⟩ := named_append hothers further c
  obtain ⟨hnamed', hrest'⟩ := @named_append [] (fun member hmem => absurd hmem List.not_mem_nil) [] c
  rw [List.append_nil] at hnamed' hrest'
  have hsame := h _ (plainMessage (digitMembers c) []) hrest (toList_itemsOf further) hrest'
    (toList_itemsOf []) (hnamed'.trans hnamed.symm)
  have hplain : (plainMessage (digitMembers c) []).parse = some (digitMembersEvent c) := by
    rw [parse_plainMessage, hread]
    rfl
  rw [hplain, parse_plainMessage, readMembers, List.foldlM_append, ← readMembers, hread] at hsame
  obtain ⟨st, hst, hevent⟩ := Option.bind_eq_some_iff.mp hsame
  obtain ⟨mid, hmid, hst⟩ := Option.bind_eq_some_iff.mp hst
  refine ⟨mid, st, hmid, hst, ?_⟩
  rw [foundEvent] at hevent
  split at hevent
  · exact Option.some.inj hevent
  · exact absurd hevent (by simp)

/-- **What makes no difference.**  Other members and further elements leave every event
as it is exactly if no key of theirs begins with one of the seven names and the elements
come in pairs of such a key and a value. -/
theorem makeNoDifference_iff :
    MakeNoDifference others further ↔ (∀ member ∈ others, Unlike member.1) ∧ HarmlessFurther further := by
  constructor
  · intro h
    obtain ⟨mid₁, st₁, hmembers₁, hfurther₁, hevent₁⟩ := h.run hothers further (c := 49) (by decide)
    obtain ⟨mid₂, st₂, hmembers₂, hfurther₂, hevent₂⟩ := h.run hothers further (c := 50) (by decide)
    have hdiffer : Differ st₁.2 st₂.2 := by
      rw [hevent₁, hevent₂]
      exact differ_digitMembersEvent
    obtain ⟨hharmless, hmid⟩ := readFurther_differ hfurther₁ hfurther₂ hdiffer
    exact ⟨(readMembers_differ hmembers₁ hmembers₂ hmid).1, hharmless⟩
  · rintro ⟨hunlike, hharmless⟩
    exact makeNoDifference_of_harmless hunlike hharmless

end

/-- A member `"alt"` and a single further element. -/
theorem makeNoDifference_alt :
    MakeNoDifference [(jsonString [97, 108, 116], numberJson [49])] [numberJson [49]] :=
  (makeNoDifference_iff (by decide) _).mpr ⟨by decide, rfl⟩

/-- A member `"idx"` is read for the id. -/
theorem idx_makes_difference : ¬ MakeNoDifference [(jsonString [105, 100, 120], numberJson [49])] [] := by
  intro h
  obtain ⟨mid, st, hmembers, -⟩ := h.run (by decide) [] (c := 49) (by decide)
  have hrejected : readMembers [(jsonString [105, 100, 120], numberJson [49])]
    (⟨true, true, true, true, true, true, true⟩, digitMembersEvent 49) = none := rfl
  rw [hrejected] at hmembers
  cases hmembers

end OnionRelay
