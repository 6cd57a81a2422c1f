import OnionRelay.Db.Tags
import OnionRelay.Lib.Json
import OnionRelay.Nostr.Filter

/-!
# The parser of events

`extract_nostr_event` reads the tokens of an event object.  The functions get the text
and a token; all they use of both is the text from the start of the token on
(`json + token->start`) and the length of the token, which is what a `Lexeme` has.

Where the source would read behind the last token the model stops; a tokenizer that
counts children right never leads there.
-/

namespace OnionRelay

open OnionRelay.Lib OnionRelay.Db

/-- `json_wrapper_strncmp` -/
def jsonStrncmp (token : Lexeme) (str : CStr) : Bool :=
  token.type = .string && nostrStrncmp token.rest str str.length

/-! ## The number of tokens of a value -/

/-- The loop over the children of a container; `count` is the number of tokens of one
child. -/
def countChildren (count : List Lexeme → Nat) : Nat → List Lexeme → Nat
  | 0, _ => 0
  | n + 1, tokens =>
    if tokens = [] then 0
    else count tokens + countChildren count n (tokens.drop (count tokens))

/-- `count_value_tokens`; `remaining` is the length of the list.  A child has fewer
tokens than its container, so the depth is at most their number. -/
def countValueTokens : Nat → List Lexeme → Nat
  | 0, _ => 0
  | _ + 1, [] => 0
  | depth + 1, token :: tokens =>
    match token.type with
    | .object =>
      1 + countChildren (fun child => 1 + countValueTokens depth (child.drop 1)) token.size tokens
    | .array => 1 + countChildren (countValueTokens depth) token.size tokens
    | _ => 1

/-! ## Fields -/

/-- What `extract_nostr_event_id`, `_pubkey` and `_sig` have in common. -/
def extractHexField (len : Nat) (token : Lexeme) : Option CStr :=
  if token.type ≠ .string then none
  else if token.length ≠ len then none
  else if token.text.all isLowerHex then some token.text else none

/-- `extract_nostr_event_id` -/
def extractNostrEventId : Lexeme → Option CStr := extractHexField 64

/-- `extract_nostr_event_pubkey` -/
def extractNostrEventPubkey : Lexeme → Option CStr := extractHexField 64

/-- `extract_nostr_event_sig` -/
def extractNostrEventSig : Lexeme → Option CStr := extractHexField 128

def isDigit (c : UInt8) : Bool := 48 ≤ c && c ≤ 57

/-- `value * 10 + (c - '0')` in a type of `modulus` values. -/
def pushDigit (modulus value : Nat) (c : UInt8) : Nat := (value * 10 + (c.toNat - 48)) % modulus

/-- `extract_nostr_event_kind` -/
def extractNostrEventKind (token : Lexeme) : Option Nat :=
  if token.type ≠ .primitive then none
  else if token.length = 0 then none
  else if 10 < token.length then none
  else if token.text.all isDigit then some (token.text.foldl (pushDigit (2 ^ 32)) 0) else none

/-- The part of a number from its `e` on, applied to the mantissa.  The exponent is
an `int32_t`; one that overflowed is taken to wrap, and a negative one makes no round. -/
def applyExponent (value : Nat) : List UInt8 → Nat
  | [] => value
  | e :: text =>
    if e = 101 ∨ e = 69 then
      let expNegative := text.head? = some 45
      let text := if text.head? = some 43 ∨ text.head? = some 45 then text.drop 1 else text
      let exponent := (text.takeWhile isDigit).foldl (pushDigit (2 ^ 32)) 0
      let rounds := if exponent < 2 ^ 31 then exponent else 0
      if expNegative then (· / 10)^[rounds] value else (· * 10 % 2 ^ 64)^[rounds] value
    else value

/-- `extract_nostr_event_created_at`; the digits behind a point change nothing. -/
def extractNostrEventCreatedAt (token : Lexeme) : Option Nat :=
  if token.type ≠ .primitive then none
  else if token.length = 0 then none
  else if 24 < token.length then none
  else
    let negative := token.text.head? = some 45
    let text := if negative then token.text.drop 1 else token.text
    let mantissa := (text.takeWhile isDigit).foldl (pushDigit (2 ^ 64)) 0
    let value := applyExponent mantissa (text.dropWhile isDigit)
    some (if negative then (2 ^ 64 - value) % 2 ^ 64 else value)

/-! ## Content -/

/-- The UTF-8 bytes of a code point below 2^16. -/
def utf8Bytes (codepoint : Nat) : List UInt8 :=
  if codepoint < 0x80 then [UInt8.ofNat codepoint]
  else if codepoint < 0x800 then
    [UInt8.ofNat (0xC0 ||| (codepoint >>> 6)), UInt8.ofNat (0x80 ||| (codepoint &&& 0x3F))]
  else
    [UInt8.ofNat (0xE0 ||| (codepoint >>> 12)), UInt8.ofNat (0x80 ||| ((codepoint >>> 6) &&& 0x3F)),
      UInt8.ofNat (0x80 ||| (codepoint &&& 0x3F))]

/-- The letters of an escape of two characters, and what they stand for. -/
def simpleEscape (letter : UInt8) : Option UInt8 :=
  if letter = 34 then some 34
  else if letter = 92 then some 92
  else if letter = 47 then some 47
  else if letter = 98 then some 8
  else if letter = 102 then some 12
  else if letter = 110 then some 10
  else if letter = 114 then some 13
  else if letter = 116 then some 9
  else none

/-- The case `'u'`: the bytes written into `room` bytes, and the rest of the source. -/
def decodeUnicode (src : List UInt8) (room : Nat) : List UInt8 × List UInt8 :=
  match src with
  | c₁ :: c₂ :: c₃ :: c₄ :: rest =>
    match hexCharVal c₁, hexCharVal c₂, hexCharVal c₃, hexCharVal c₄ with
    | some h₁, some h₂, some h₃, some h₄ =>
      let bytes := utf8Bytes ((h₁ <<< 12) ||| (h₂ <<< 8) ||| (h₃ <<< 4) ||| h₄)
      -- a code point that does not fit is left out
      (if bytes.length ≤ room then bytes else [], rest)
    | _, _, _, _ => ([92, 117], src)
  | _ => ([92, 117], src)

/-- One round of the loop of `decode_json_string`. -/
def decodeStep (src : List UInt8) (room : Nat) : List UInt8 × List UInt8 :=
  match src with
  | [] => ([], [])
  | [c] => ([c], [])
  | c :: next :: rest =>
    if c = 92 then
      match simpleEscape next with
      | some b => ([b], rest)
      | none =>
        if next = 117 then decodeUnicode rest room
        else (if 1 < room then [92, next] else [92], rest)
    else ([c], next :: rest)

/-- `decode_json_string` into `room` bytes and the terminator; every round takes at
least one byte of the source. -/
def decodeJsonString : Nat → List UInt8 → Nat → List UInt8
  | 0, _, _ => []
  | fuel + 1, src, room =>
    if src = [] ∨ room = 0 then []
    else
      (decodeStep src room).1 ++
        decodeJsonString fuel (decodeStep src room).2 (room - (decodeStep src room).1.length)

/-- `NOSTR_EVENT_CONTENT_LENGTH` -/
def nostrEventContentLength : Nat := 1024 * 1024

/-- `extract_nostr_event_content`: the C string in the buffer. -/
def extractNostrEventContent (token : Lexeme) : Option CStr :=
  if token.type ≠ .string then none
  else if nostrEventContentLength ≤ token.length then none
  else some (cstr (decodeJsonString token.length token.text (nostrEventContentLength - 1)))

/-! ## Tags -/

/-- `copy_token_string` -/
def copyTokenString (token : Lexeme) (bufferSize : Nat) : CStr := cstr (token.text.take (bufferSize - 1))

/-- The loop over the values of a tag: the values, and the tokens behind. -/
def extractValues : Nat → List Lexeme → List CStr → List CStr × List Lexeme
  | 0, tokens, values => (values, tokens)
  | _ + 1, [], values => (values, [])
  | n + 1, token :: tokens, values =>
    if values.length < 16 then
      if token.type = .string then extractValues n tokens (values ++ [copyTokenString token 512])
      else extractValues n tokens values
    else (values, token :: tokens)

/-- The loop over the tags; values beyond the sixteenth stay in front of the next tag. -/
def extractTags : Nat → List Lexeme → List NostrTagEntity → List NostrTagEntity
  | 0, _, tags => tags
  | _ + 1, [], tags => tags
  | n + 1, token :: tokens, tags =>
    if tags.length < 2048 then
      if token.type ≠ .array then extractTags n tokens tags
      else if token.size = 0 then extractTags n tokens tags
      else
        match tokens with
        | [] => tags
        | key :: tokens =>
          if key.type ≠ .string then extractTags n ((key :: tokens).drop token.size) tags
          else
            let r := extractValues (token.size - 1) tokens []
            extractTags n r.2 (tags ++ [⟨copyTokenString key 64, r.1⟩])
    else tags

/-- `extract_nostr_event_tags` -/
def extractNostrEventTags : List Lexeme → Option (List NostrTagEntity)
  | [] => none
  | token :: tokens => if token.type ≠ .array then none else some (extractTags token.size tokens [])

/-! ## The event -/

/-- The fields of `found`. -/
structure FoundFields where
  id : Bool
  pubkey : Bool
  kind : Bool
  createdAt : Bool
  sig : Bool
  tags : Bool
  content : Bool

def FoundFields.none : FoundFields := ⟨false, false, false, false, false, false, false⟩

def FoundFields.all (found : FoundFields) : Bool :=
  found.id && found.pubkey && found.kind && found.createdAt && found.sig && found.tags && found.content

/-- One round of the loop of `extract_nostr_event`: a key, and the tokens from its
value on.  The first name that the key begins with decides, in either case. -/
def extractField (key : Lexeme) (values : List Lexeme) (value : Lexeme)
    (st : FoundFields × NostrEventEntity) : Option (FoundFields × NostrEventEntity) :=
  let (found, event) := st
  if key.type ≠ .string then none
  else if jsonStrncmp key [105, 100] then
    (extractNostrEventId value).map fun id => ({ found with id := true }, { event with id := id })
  else if jsonStrncmp key [112, 117, 98, 107, 101, 121] then
    (extractNostrEventPubkey value).map fun pubkey =>
      ({ found with pubkey := true }, { event with pubkey := pubkey })
  else if jsonStrncmp key [107, 105, 110, 100] then
    (extractNostrEventKind value).map fun kind =>
      ({ found with kind := true }, { event with kind := kind })
  else if jsonStrncmp key [99, 114, 101, 97, 116, 101, 100, 95, 97, 116] then
    (extractNostrEventCreatedAt value).map fun createdAt =>
      ({ found with createdAt := true }, { event with createdAt := createdAt })
  else if jsonStrncmp key [115, 105, 103] then
    (extractNostrEventSig value).map fun sig => ({ found with sig := true }, { event with sig := sig })
  else if jsonStrncmp key [116, 97, 103, 115] then
    (extractNostrEventTags values).map fun tags =>
      ({ found with tags := true }, { event with tags := tags })
  else if jsonStrncmp key [99, 111, 110, 116, 101, 110, 116] then
    (extractNostrEventContent value).map fun content =>
      ({ found with content := true }, { event with content := content })
  else some (found, event)

/-- The loop of `extract_nostr_event`; every round takes a key and a value. -/
def extractFields : Nat → List Lexeme → FoundFields × NostrEventEntity →
    Option (FoundFields × NostrEventEntity)
  | fuel + 1, key :: value :: tokens, st => do
    let st ← extractField key (value :: tokens) value st
    let count := countValueTokens (value :: tokens).length (value :: tokens)
    extractFields fuel ((value :: tokens).drop count) st
  | _, _, st => some st

/-- `extract_nostr_event` into a freshly mapped entity. -/
def extractNostrEvent (json : List UInt8) (tokens : List JsonToken) : Option NostrEventEntity := do
  let (found, event) ← extractFields tokens.length (tokens.map (JsonToken.lexeme json))
    (FoundFields.none, NostrEventEntity.zero)
  if found.all then return event else none

/-- The event of an EVENT message, as `nostr_event_handler` parses it. -/
def parseEventMessage (json : List UInt8) (tokens : List JsonToken) : Option NostrEventEntity :=
  match tokens with
  | message :: label :: event :: fields =>
    if message.type = .array ∧ label.type = .string ∧
        jsonStrncmp (label.lexeme json) [69, 86, 69, 78, 84] ∧ event.type = .object then
      extractNostrEvent json fields
    else none
  | _ => none

end OnionRelay
