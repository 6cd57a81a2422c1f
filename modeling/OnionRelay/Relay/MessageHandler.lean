import OnionRelay.Json.JsmnNesting
import OnionRelay.Json.JsmnText
import OnionRelay.Nostr.Fits
import OnionRelay.Relay.ServerLoop

/-!
# The handler of messages

`nostr_event_handler` gives the payload of a frame to the tokenizer, and the tokens to
the parser that the label of the message asks for.  Of a JSON text the message is a
function of the elements (`nostrEventHandler_text`).  Whatever the bytes are, what is
handed to a callback fits the structure it is handed in (`fits_nostrEventHandler`).
-/

namespace OnionRelay.Relay

open OnionRelay.Lib OnionRelay.Db

def JSON_TOKEN_CAPACITY : Nat := 4 * 1024

/-- A token of an accepted text; none of these is open. -/
def tokenOfTok (token : JsmnTok) : JsonToken := ⟨token.type, token.start, token.stop.getD 0, token.size⟩

/-- A message that was parsed, or not. -/
def parsed {α : Type} (message : α → NostrMessage) : Option α → NostrMessage
  | some content => message content
  | none => .invalid

/-- `nostr_event_handler` behind the tokenizer. -/
def handleTokens (json : CStr) : List JsonToken → NostrMessage
  | message :: label :: second :: fields =>
    let tokens := (message :: label :: second :: fields).map (JsonToken.lexeme json)
    if message.type ≠ .array then .invalid
    else if label.type ≠ .string then .invalid
    else if jsonStrncmp (label.lexeme json) [69, 86, 69, 78, 84] then
      if second.type ≠ .object then .invalid else parsed .event (extractNostrEvent json fields)
    else if jsonStrncmp (label.lexeme json) [82, 69, 81] then parsed .req (nostrReqParse tokens)
    else if jsonStrncmp (label.lexeme json) [67, 76, 79, 83, 69] then
      parsed .close (nostrCloseParse tokens)
    else .invalid
  | _ => .invalid

/-- `nostr_event_handler`: what it hands to a callback. -/
def nostrEventHandler (payload : List UInt8) : NostrMessage :=
  let json := cstr payload
  match jsmnParse json JSON_TOKEN_CAPACITY with
  | .error _ => .invalid
  | .ok (count, tokens) =>
    if count < 3 then .invalid else handleTokens json ((tokens.take count).map tokenOfTok)

/-! ## Messages of JSON texts -/

/-- The event of the elements behind the label. -/
def eventOf : List Json → Option NostrEventEntity
  | .object _ members :: further =>
    ((readMembers members.toList noFields).bind (readFurther further)).bind foundEvent
  | _ => none

/-- What a JSON value says, which is decided by how its label begins. -/
def messageOf : Json → NostrMessage
  | .array _ items =>
    match items.toList with
    | .string label :: second :: further =>
      if beginsWith label [69, 86, 69, 78, 84] then parsed .event (eventOf (second :: further))
      else if beginsWith label [82, 69, 81] then parsed .req (reqOf label (second :: further))
      else if beginsWith label [67, 76, 79, 83, 69] then parsed .close (closeOf label (second :: further))
      else .invalid
    | _ => .invalid
  | _ => .invalid

theorem label_clear : ∀ name ∈ ([[69, 86, 69, 78, 84], [82, 69, 81], [67, 76, 79, 83, 69]] : List CStr),
    ∀ c ∈ name, chrcmp 34 c = false ∧ chrcmp 0 c = false := by
  decide +kernel

/-- The tokens of a message with a label and an element behind it. -/
theorem handleTokens_message (before blanks beforeLabel : List Blank) (label : List JsonChar)
    (behindLabel beforeSecond : List Blank) (second : Json) (behindSecond : List Blank)
    (further : Items) (behind : List Blank) (t : JsonText)
    (ht : t = ⟨before, .array blanks (.cons beforeLabel (.string label) behindLabel
      (.cons beforeSecond second behindSecond further)), behind⟩) :
    handleTokens t.text t.tokens = messageOf t.value := by
  have htokens := t.map_lexeme_tokens
  obtain ⟨message, token, first, inner, hlexemes, hmessage, hsize, htoken, hlength, ⟨rest, hrest⟩,
      hfirst, tail, htail⟩ :
      ∃ message token first inner, t.lexemes = message :: token :: first :: inner ∧
        message.type = .array ∧ message.size = further.count + 1 + 1 ∧ token.type = .string ∧
        token.length = (stringText label).length ∧ (∃ rest, token.rest = stringText label ++ 34 :: rest) ∧
        (first.type = .object ↔ ∃ blanks members, second = .object blanks members) ∧
        ∃ tail, first :: inner = (Items.cons beforeSecond second behindSecond further).lexemes tail := by
    subst ht
    cases second with
    | primitive _ _ => exact ⟨_, _, _, _, rfl, rfl, rfl, rfl, rfl, ⟨_, rfl⟩, ⟨nofun, nofun⟩, _, rfl⟩
    | string _ => exact ⟨_, _, _, _, rfl, rfl, rfl, rfl, rfl, ⟨_, rfl⟩, ⟨nofun, nofun⟩, _, rfl⟩
    | array _ _ => exact ⟨_, _, _, _, rfl, rfl, rfl, rfl, rfl, ⟨_, rfl⟩, ⟨nofun, nofun⟩, _, rfl⟩
    | object _ _ =>
      exact ⟨_, _, _, _, rfl, rfl, rfl, rfl, rfl, ⟨_, rfl⟩, ⟨fun _ => ⟨_, _, rfl⟩, fun _ => rfl⟩, _, rfl⟩
  have hname := fun name hmem => jsonStrncmp_key (label_clear name hmem) htoken hrest
  have hreq := nostrReqParse_lexemes hmessage htoken hlength hrest
    (.cons beforeSecond second behindSecond further) hsize tail
  have hclose := nostrCloseParse_lexemes hmessage htoken hlength hrest
    (.cons beforeSecond second behindSecond further) hsize tail
  rw [← htail] at hreq hclose
  rw [hlexemes] at htokens
  have hall := htokens
  obtain ⟨message', tokens, htokens₁, rfl, hbehind₁⟩ := List.map_eq_cons_iff.mp htokens
  obtain ⟨label', tokens, rfl, rfl, hbehind₂⟩ := List.map_eq_cons_iff.mp hbehind₁
  obtain ⟨second', fields, rfl, rfl, hfields⟩ := List.map_eq_cons_iff.mp hbehind₂
  rw [htokens₁] at hall
  have hvalue : t.value = .array blanks (.cons beforeLabel (.string label) behindLabel
      (.cons beforeSecond second behindSecond further)) := by rw [ht]
  rw [htokens₁, handleTokens, hvalue, messageOf, Items.toList, Items.toList]
  simp only
  have hmessage' : message'.type = .array := hmessage
  have hlabel' : label'.type = .string := htoken
  rw [if_neg (not_not.mpr hmessage'), if_neg (not_not.mpr hlabel'), hname _ (by simp), hname _ (by simp),
    hname _ (by simp), hall, hreq, hclose, Items.toList]
  cases hlabelled : beginsWith label [69, 86, 69, 78, 84] with
  | false => rfl
  | true =>
    rw [if_pos rfl, if_pos rfl]
    by_cases hobject : second'.type = .object
    · obtain ⟨objectBlanks, members, rfl⟩ := hfirst.mp hobject
      have hparse := EventMessage.parse_eq ⟨before, blanks, beforeLabel, label, behindLabel, beforeSecond,
        objectBlanks, members, behindSecond, further, behind, hlabelled⟩
      rw [EventMessage.parse, EventMessage.json] at hparse
      dsimp only at hparse
      rw [← ht, htokens₁, parseEventMessage, if_pos ⟨hmessage', hlabel', (hname _ (by simp)).trans hlabelled,
        hobject⟩] at hparse
      rw [if_neg (not_not.mpr hobject), hparse, eventOf]
    · have hnone : eventOf (second :: further.toList) = none := by
        cases second with
        | object blanks members => exact absurd (hfirst.mpr ⟨_, _, rfl⟩) hobject
        | _ => rfl
      rw [if_pos hobject, hnone]
      rfl

theorem handleTokens_of_ne_array {message : JsonToken} (h : message.type ≠ .array) (json : CStr) :
    ∀ tokens, handleTokens json (message :: tokens) = .invalid
  | [] => rfl
  | [_] => rfl
  | _ :: _ :: _ => by rw [handleTokens, if_pos h]

theorem handleTokens_of_ne_string {message label : JsonToken} (h : label.type ≠ .string) (json : CStr) :
    ∀ tokens, handleTokens json (message :: label :: tokens) = .invalid
  | [] => rfl
  | _ :: _ => by
    rw [handleTokens, if_pos h]
    exact ite_self _

theorem handleTokens_text (t : JsonText) : handleTokens t.text t.tokens = messageOf t.value := by
  obtain ⟨before, value, behind⟩ := t
  cases value with
  | primitive first rest => rfl
  | string s => rfl
  | object blanks members => exact handleTokens_of_ne_array JsonType.noConfusion _ _
  | array blanks items =>
    cases items with
    | nil => rfl
    | cons beforeLabel label behindLabel elements =>
      cases label with
      | primitive first rest => exact handleTokens_of_ne_string JsonType.noConfusion _ _
      | array blanks items => exact handleTokens_of_ne_string JsonType.noConfusion _ _
      | object blanks members => exact handleTokens_of_ne_string JsonType.noConfusion _ _
      | string label =>
        cases elements with
        | nil => rfl
        | cons beforeSecond second behindSecond further =>
          exact handleTokens_message _ _ _ _ _ _ _ _ _ _ _ rfl

/-- Fewer than three tokens are no message. -/
theorem handleTokens_few {json : CStr} : ∀ {tokens : List JsonToken}, tokens.length < 3 →
    handleTokens json tokens = .invalid
  | [], _ => rfl
  | [_], _ => rfl
  | [_, _], _ => rfl
  | _ :: _ :: _ :: tokens, h => absurd h (by simp)

/-- What a callback is handed fits the structure. -/
def NostrMessage.Fits : NostrMessage → Prop
  | .event e => e.Fits
  | .req r => r.Fits
  | .close subscriptionId => FitsId subscriptionId
  | .invalid => True

theorem fits_parsed {α : Type} {message : α → NostrMessage} {content : Option α}
    (h : ∀ a, content = some a → (message a).Fits) : (parsed message content).Fits := by
  cases content with
  | none => trivial
  | some a => exact h a rfl

theorem fits_handleTokens {json : CStr} : ∀ {tokens : List JsonToken},
    (∀ t ∈ tokens, InString (t.lexeme json)) → (handleTokens json tokens).Fits
  | [], _ => trivial
  | [_], _ => trivial
  | [_, _], _ => trivial
  | message :: label :: second :: fields, htokens => by
    have hlexemes := List.forall_mem_map.mpr htokens
    have hfields : ∀ t ∈ fields, InString (t.lexeme json) := fun t ht => htokens t (by simp [ht])
    rw [handleTokens]
    split_ifs
    · trivial
    · trivial
    · trivial
    · exact fits_parsed fun _ => fits_extractNostrEvent hfields
    · exact fits_parsed fun _ => fits_nostrReqParse hlexemes
    · exact fits_parsed fun _ => fits_nostrCloseParse hlexemes
    · trivial

/-- **What is handed to a callback fits**, whatever the payload is. -/
theorem fits_nostrEventHandler (payload : List UInt8) : (nostrEventHandler payload).Fits := by
  have hzero : 0 ∉ cstr payload := fun hmem => absurd (List.mem_takeWhile_imp hmem) (by decide)
  rw [nostrEventHandler]
  split
  · trivial
  · next count tokens hparse =>
    obtain ⟨-, tree, rfl, hinText⟩ := closed_of_jsmnParse hparse
    split
    · trivial
    · refine fits_handleTokens fun t ht => ?_
      obtain ⟨tok, htok, rfl⟩ := List.mem_map.mp ht
      obtain ⟨token, htoken, rfl⟩ := List.mem_map.mp (List.mem_of_mem_take htok)
      have hlength : token.stop - token.start ≤ ((cstr payload).drop token.start).length := by
        rw [List.length_drop]
        exact Nat.sub_le_sub_right (hinText token htoken).2 _
      exact ⟨hlength, fun hmem => hzero (List.mem_of_mem_drop hmem)⟩

end OnionRelay.Relay
