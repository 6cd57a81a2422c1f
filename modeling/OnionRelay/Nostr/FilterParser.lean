import OnionRelay.Nostr.EventParser

/-!
# The parser of filters

`nostr_filter_parse` reads the members of a filter object, one extractor for each key.
What an extractor returns is ignored but for `limit`; one that fails leaves the filter
as it was, which is `none` here.

The extractors of arrays go over the tokens behind the array one by one, whatever these
are, and leave out what they do not like.
-/

namespace OnionRelay

open OnionRelay.Lib OnionRelay.Db

/-! ## Numbers -/

/-- What the parsers of whole numbers have in common: at most `maxLen` digits, in a type
of `modulus` values. -/
def extractDigits (maxLen modulus : Nat) (token : Lexeme) : Option Nat :=
  if token.type ≠ .primitive then none
  else if token.length = 0 ∨ maxLen < token.length then none
  else if token.text.all isDigit then some (token.text.foldl (pushDigit modulus) 0) else none

/-- The body of the loop of `extract_nostr_filter_kinds`. -/
def extractFilterKind : Lexeme → Option Nat := extractDigits 10 (2 ^ 32)

/-- `extract_nostr_filter_since`; the sum is taken to wrap. -/
def extractNostrFilterSince (token : Lexeme) : Option Int :=
  (extractDigits 20 (2 ^ 64) token).map signedTime

/-- `extract_nostr_filter_until` -/
def extractNostrFilterUntil (token : Lexeme) : Option Int :=
  (extractDigits 20 (2 ^ 64) token).map signedTime

/-- `extract_nostr_filter_limit` -/
def extractNostrFilterLimit : Lexeme → Option Nat := extractDigits 10 (2 ^ 32)

/-! ## Arrays -/

/-- The loop over `n` tokens; `element` reads one of them, and no more than `capacity`
are kept. -/
def extractElements {α : Type} (element : Lexeme → Option α) (capacity : Nat) :
    Nat → List Lexeme → List α → List α
  | 0, _, found => found
  | _ + 1, [], found => found
  | n + 1, token :: tokens, found =>
    if found.length < capacity then
      extractElements element capacity n tokens (found ++ (element token).toList)
    else found

def extractArray {α : Type} (element : Lexeme → Option α) (capacity : Nat) (token : Lexeme)
    (behind : List Lexeme) : Option (List α) :=
  if token.type ≠ .array then none else some (extractElements element capacity token.size behind [])

/-- `extract_nostr_filter_kinds` -/
def extractNostrFilterKinds : Lexeme → List Lexeme → Option (List Nat) := extractArray extractFilterKind 64

/-- The first 32 bytes, with zeros behind them. -/
def padTo32 (s : List UInt8) : Bytes 32 := ⟨s.take 32 ++ List.replicate (32 - s.length) 0, by simp; omega⟩

/-- The body of the loop of `extract_nostr_filter_ids`. -/
def extractFilterHex (token : Lexeme) : Option NostrFilterId :=
  if token.type ≠ .string then none
  else if token.length = 0 then none
  else if 64 < token.length then none
  else
    let value := hexToBytes (token.length / 2) token.text
    if 0 < value.length then some ⟨padTo32 value, value.length⟩ else none

/-- `extract_nostr_filter_ids` -/
def extractNostrFilterIds : Lexeme → List Lexeme → Option (List NostrFilterId) :=
  extractArray extractFilterHex 256

/-- `extract_nostr_filter_authors` -/
def extractNostrFilterAuthors : Lexeme → List Lexeme → Option (List NostrFilterId) :=
  extractArray extractFilterHex 256

/-- The body of the loop of `extract_nostr_filter_tag`. -/
def extractFilterTagValue (tagName : UInt8) (token : Lexeme) : Option (Bytes 32) :=
  if token.type ≠ .string then none
  else if token.length = 0 then none
  else if 64 < token.length then none
  else if tagName = 101 ∨ tagName = 112 then
    if token.length = 64 ∧ token.text.all (fun c => (hexCharVal c).isSome) then
      some (padTo32 (hexToBytes 32 token.text))
    else none
  else some (padTo32 (token.text.take 32))

/-- `extract_nostr_filter_tag` -/
def extractNostrFilterTag (token : Lexeme) (behind : List Lexeme) (tagName : UInt8) :
    Option NostrFilterTag :=
  (extractArray (extractFilterTagValue tagName) 256 token behind).map (NostrFilterTag.mk tagName)

/-! ## Filters -/

/-- `count_tokens_in_value`; `remaining_tokens` is the length of the list. -/
def countTokensInValue : Nat → List Lexeme → Nat
  | 0, _ => 0
  | _ + 1, [] => 0
  | depth + 1, token :: tokens =>
    match token.type with
    | .object =>
      1 + countChildren (fun child =>
        countTokensInValue depth child +
          countTokensInValue depth (child.drop (countTokensInValue depth child))) token.size tokens
    | .array => 1 + countChildren (countTokensInValue depth) token.size tokens
    | _ => 1

/-- Whether the key of a member is `str`. -/
def keyIs (key : Lexeme) (str : CStr) : Bool :=
  key.length = str.length && nostrStrncmp key.rest str str.length

/-- One member; `behind` is what stands behind the token of the value. -/
def extractFilterField (key value : Lexeme) (behind : List Lexeme) (filter : NostrFilter) : NostrFilter :=
  if keyIs key [105, 100, 115] then
    { filter with ids := (extractNostrFilterIds value behind).getD filter.ids }
  else if keyIs key [97, 117, 116, 104, 111, 114, 115] then
    { filter with authors := (extractNostrFilterAuthors value behind).getD filter.authors }
  else if keyIs key [107, 105, 110, 100, 115] then
    { filter with kinds := (extractNostrFilterKinds value behind).getD filter.kinds }
  else if keyIs key [115, 105, 110, 99, 101] then
    { filter with since := (extractNostrFilterSince value).getD filter.since }
  else if keyIs key [117, 110, 116, 105, 108] then
    { filter with until_ := (extractNostrFilterUntil value).getD filter.until_ }
  else if keyIs key [108, 105, 109, 105, 116] then
    match extractNostrFilterLimit value with
    | some limit => { filter with limit := limit, hasLimit := true }
    | none => filter
  else if key.length = 2 ∧ key.rest.getD 0 0 = 35 ∧ filter.tags.length < 26 then
    match extractNostrFilterTag value behind (key.rest.getD 1 0) with
    | some tag => if tag.values = [] then filter else { filter with tags := filter.tags ++ [tag] }
    | none => filter
  else filter

def extractFilterFields : Nat → List Lexeme → NostrFilter → Option NostrFilter
  | 0, _, filter => some filter
  | _ + 1, [], filter => some filter
  | n + 1, key :: tokens, filter =>
    if key.type ≠ .string then none
    else match tokens with
      | [] => some filter
      | value :: behind =>
        extractFilterFields n ((value :: behind).drop (countTokensInValue (behind.length + 1) (value :: behind)))
          (extractFilterField key value behind filter)

/-- `nostr_filter_parse` -/
def nostrFilterParse : List Lexeme → Option NostrFilter
  | [] => none
  | token :: tokens =>
    if token.type ≠ .object then none else extractFilterFields token.size tokens NostrFilter.init

/-! ## What is kept of an array -/

/-- **The loop keeps the first elements it can read.** -/
theorem extractElements_eq {α : Type} (element : Lexeme → Option α) (capacity : Nat) :
    ∀ (n : Nat) (tokens : List Lexeme) (found : List α), found.length ≤ capacity →
      extractElements element capacity n tokens found =
        (found ++ (tokens.take n).filterMap element).take capacity := by
  intro n
  induction n with
  | zero =>
    intro tokens found hfound
    rw [extractElements, List.take_zero, List.filterMap_nil, List.append_nil, List.take_of_length_le hfound]
  | succ n ih =>
    intro tokens found hfound
    cases tokens with
    | nil => rw [extractElements, List.take_nil, List.filterMap_nil, List.append_nil, List.take_of_length_le hfound]
    | cons token tokens =>
      rw [extractElements, List.take_succ_cons]
      split
      · next hroom =>
        have hstep : (found ++ (element token).toList).length ≤ capacity := by
          rw [List.length_append]
          have hone : (element token).toList.length ≤ 1 := by cases element token <;> simp
          omega
        have hcons : (token :: tokens.take n).filterMap element =
            (element token).toList ++ (tokens.take n).filterMap element := by
          cases h : element token with
          | none => rw [List.filterMap_cons_none h]; rfl
          | some a => rw [List.filterMap_cons_some h]; rfl
        rw [ih tokens _ hstep, hcons, List.append_assoc]
      · next hfull =>
        have hcapacity : found.length = capacity := Nat.le_antisymm hfound (Nat.le_of_not_lt hfull)
        rw [← hcapacity, List.take_left]

theorem extractArray_eq {α : Type} {element : Lexeme → Option α} {capacity : Nat} {token : Lexeme}
    (htoken : token.type = .array) (behind : List Lexeme) :
    extractArray element capacity token behind =
      some (((behind.take token.size).filterMap element).take capacity) := by
  rw [extractArray, if_neg (not_not.mpr htoken), extractElements_eq element capacity _ _ _ (Nat.zero_le _),
    List.nil_append]

end OnionRelay
