import OnionRelay.Nostr.EventMembers
import OnionRelay.Nostr.FilterParser
import OnionRelay.Nostr.Subscription

/-!
# The parsers of REQ and CLOSE messages

`nostr_req_parse` gives each element behind the subscription id to `nostr_filter_parse`
and goes on behind its tokens.  As no part of it reads more of an element than the
element's own tokens, the filters are those of the elements one by one
(`extractFilters_items`), and a filter is made of the members of its object one by one
(`extractFilterFields_members`).
-/

namespace OnionRelay

open OnionRelay.Lib OnionRelay.Db

def NOSTR_REQ_SUBSCRIPTION_ID_LENGTH : Nat := 64

def NOSTR_REQ_MAX_FILTERS : Nat := 16

/-- The loop of `nostr_req_parse` over the elements behind the subscription id. -/
def extractFilters : Nat → List Lexeme → List NostrFilter → List NostrFilter
  | 0, _, filters => filters
  | _ + 1, [], filters => filters
  | n + 1, token :: tokens, filters =>
    if filters.length < NOSTR_REQ_MAX_FILTERS then
      let behind := (token :: tokens).drop (countTokensInValue (tokens.length + 1) (token :: tokens))
      if token.type ≠ .object then extractFilters n behind filters
      else extractFilters n behind (filters ++ (nostrFilterParse (token :: tokens)).toList)
    else filters

/-- `nostr_req_parse` -/
def nostrReqParse : List Lexeme → Option NostrReqMessage
  | message :: label :: id :: elements =>
    if message.type ≠ .array then none
    else if message.size < 3 then none
    else if label.type ≠ .string then none
    else if !keyIs label [82, 69, 81] then none
    else if id.type ≠ .string then none
    else if id.length = 0 then none
    else if NOSTR_REQ_SUBSCRIPTION_ID_LENGTH < id.length then none
    else
      let filters := extractFilters (message.size - 2) elements []
      if filters = [] then none else some ⟨cstr id.text, filters⟩
  | _ => none

/-- `nostr_close_parse`: the subscription id. -/
def nostrCloseParse : List Lexeme → Option CStr
  | message :: label :: id :: _ =>
    if message.type ≠ .array then none
    else if message.size < 2 then none
    else if label.type ≠ .string then none
    else if !keyIs label [67, 76, 79, 83, 69] then none
    else if id.type ≠ .string then none
    else if id.length = 0 then none
    else if NOSTR_REQ_SUBSCRIPTION_ID_LENGTH < id.length then none
    else some (cstr id.text)
  | _ => none

/-! ## What the extractors see of a token -/

section Same

variable {l l' : Lexeme}

theorem getD_take {s : List UInt8} {n i : Nat} (h : i < n) : (s.take n).getD i 0 = s.getD i 0 := by
  rw [List.getD_eq_getElem?_getD, List.getElem?_take_of_lt h, List.getD_eq_getElem?_getD]

theorem getD_rest (h : l.Same l') {i : Nat} (hi : i < l.length) :
    l.rest.getD i 0 = l'.rest.getD i 0 := by
  have htext := h.text
  rw [Lexeme.text, Lexeme.text, ← h.length] at htext
  rw [← getD_take hi, htext, getD_take hi]

theorem nostrStrncmp_same {a b : List UInt8} {n : Nat} (h : ∀ i < n, a.getD i 0 = b.getD i 0)
    (str : CStr) : nostrStrncmp a str n = nostrStrncmp b str n := by
  rw [nostrStrncmp, nostrStrncmp]
  split
  · rfl
  · rw [Bool.eq_iff_iff, List.all_eq_true, List.all_eq_true]
    exact forall₂_congr fun i hi => by rw [h i (List.mem_range.mp hi)]

theorem keyIs_same (h : l.Same l') (str : CStr) : keyIs l str = keyIs l' str := by
  rw [keyIs, keyIs, ← h.length]
  by_cases hlength : l.length = str.length
  · rw [nostrStrncmp_same fun i hi => getD_rest h (hlength ▸ hi)]
  · rw [decide_eq_false hlength, Bool.false_and, Bool.false_and]

theorem extractDigits_same (h : l.Same l') (maxLen modulus : Nat) :
    extractDigits maxLen modulus l = extractDigits maxLen modulus l' := by
  rw [extractDigits, extractDigits, h.type, h.length, h.text]

theorem extractFilterHex_same (h : l.Same l') : extractFilterHex l = extractFilterHex l' := by
  rw [extractFilterHex, extractFilterHex, h.type, h.length, h.text]

theorem extractFilterTagValue_same (h : l.Same l') (tagName : UInt8) :
    extractFilterTagValue tagName l = extractFilterTagValue tagName l' := by
  rw [extractFilterTagValue, extractFilterTagValue, h.type, h.length, h.text]

theorem filterMap_same {α : Type} {element : Lexeme → Option α}
    (helement : ∀ {l l' : Lexeme}, l.Same l' → element l = element l') {tokens tokens' : List Lexeme}
    (h : List.Forall₂ Lexeme.Same tokens tokens') :
    tokens.filterMap element = tokens'.filterMap element := by
  induction h with
  | nil => rfl
  | cons hsame _ ih => rw [List.filterMap_cons, List.filterMap_cons, helement hsame, ih]

/-- **An array is read out of its own tokens.** -/
theorem extractArray_same {α : Type} {element : Lexeme → Option α}
    (helement : ∀ {l l' : Lexeme}, l.Same l' → element l = element l') {capacity : Nat}
    {tokens tokens' : List Lexeme} (more more' : List Lexeme) (h : l.Same l')
    (hclosed : l.size ≤ tokens.length) (htokens : List.Forall₂ Lexeme.Same tokens tokens') :
    extractArray element capacity l (tokens ++ more) =
      extractArray element capacity l' (tokens' ++ more') := by
  by_cases htype : l.type = .array
  · have hclosed' : l'.size ≤ tokens'.length := h.size ▸ htokens.length_eq ▸ hclosed
    rw [extractArray_eq htype, extractArray_eq (h.type ▸ htype), List.take_append_of_le_length hclosed,
      List.take_append_of_le_length hclosed', ← h.size,
      filterMap_same helement (List.forall₂_take l.size htokens)]
  · rw [extractArray, extractArray, if_pos htype, if_pos (h.type ▸ htype)]

/-- The value of a member is read out of its own tokens. -/
theorem extractFilterField_same {key key' : Lexeme} {tokens tokens' : List Lexeme}
    (more more' : List Lexeme) (hkey : key.Same key') (h : l.Same l')
    (hclosed : l.size ≤ tokens.length) (htokens : List.Forall₂ Lexeme.Same tokens tokens')
    (filter : NostrFilter) :
    extractFilterField key l (tokens ++ more) filter =
      extractFilterField key' l' (tokens' ++ more') filter := by
  have hhex : ∀ capacity, extractArray extractFilterHex capacity l (tokens ++ more) =
      extractArray extractFilterHex capacity l' (tokens' ++ more') := fun _ =>
    extractArray_same extractFilterHex_same more more' h hclosed htokens
  have hkinds : ∀ capacity, extractArray extractFilterKind capacity l (tokens ++ more) =
      extractArray extractFilterKind capacity l' (tokens' ++ more') := fun _ =>
    extractArray_same (fun h => extractDigits_same h 10 _) more more' h hclosed htokens
  have htag : key.length = 2 → extractNostrFilterTag l (tokens ++ more) (key.rest.getD 1 0) =
      extractNostrFilterTag l' (tokens' ++ more') (key'.rest.getD 1 0) := fun hlength => by
    rw [extractNostrFilterTag, extractNostrFilterTag, getD_rest hkey (hlength ▸ by decide),
      extractArray_same (fun h => extractFilterTagValue_same h _) more more' h hclosed htokens]
  have hnumber := extractDigits_same h
  rw [extractFilterField, extractFilterField]
  simp only [← keyIs_same hkey, extractNostrFilterIds, extractNostrFilterAuthors, extractNostrFilterKinds,
    extractNostrFilterSince, extractNostrFilterUntil, extractNostrFilterLimit, hhex, hkinds, hnumber,
    ← hkey.length]
  by_cases hlength : key.length = 2
  · rw [htag hlength, getD_rest hkey (hlength ▸ by decide)]
  · simp only [hlength, false_and, if_false]

end Same

/-! ## Counting tokens -/

mutual

theorem countTokensInValue_lexemes : ∀ (j : Json) (tail : List UInt8) (more : List Lexeme)
    {depth : Nat}, (j.lexemes tail).length ≤ depth →
      countTokensInValue depth (j.lexemes tail ++ more) = (j.lexemes tail).length
  | .primitive first rest, tail, more, depth + 1, _ => rfl
  | .string s, tail, more, depth + 1, _ => rfl
  | .array blanks items, tail, more, depth + 1, hdepth => by
    rw [Json.lexemes, List.length_cons] at hdepth
    rw [Json.lexemes, List.cons_append, countTokensInValue]
    simp only
    rw [countTokens_items items _ more (by omega), List.length_cons, Nat.add_comm]
  | .object blanks members, tail, more, depth + 1, hdepth => by
    rw [Json.lexemes, List.length_cons] at hdepth
    rw [Json.lexemes, List.cons_append, countTokensInValue]
    simp only
    rw [countTokens_members members _ more (by omega), List.length_cons, Nat.add_comm]

theorem countTokens_items : ∀ (items : Items) (tail : List UInt8) (more : List Lexeme)
    {depth : Nat}, (items.lexemes tail).length ≤ depth →
      countChildren (countTokensInValue depth) items.count (items.lexemes tail ++ more) =
        (items.lexemes tail).length
  | .nil, _, _, _, _ => rfl
  | .cons before value behind rest, tail, more, depth, hdepth => by
    rw [Items.lexemes, List.length_append] at hdepth
    have hvalue : countTokensInValue depth (value.lexemes (blankText behind ++ (rest.text [44] ++ tail)) ++
        (rest.lexemes tail ++ more)) = _ :=
      countTokensInValue_lexemes value _ _ (by omega)
    have hrest := countTokens_items rest tail more (show (rest.lexemes tail).length ≤ depth by omega)
    rw [Items.lexemes, Items.count, List.append_assoc,
      countChildren_succ (lexemes_ne_nil _ _) hvalue, hrest, List.length_append]

theorem countTokens_members : ∀ (members : Members) (tail : List UInt8) (more : List Lexeme)
    {depth : Nat}, (members.lexemes tail).length ≤ depth →
      countChildren (fun child => countTokensInValue depth child +
        countTokensInValue depth (child.drop (countTokensInValue depth child))) members.count
        (members.lexemes tail ++ more) = (members.lexemes tail).length
  | .nil, _, _, _, _ => rfl
  | .cons before key beforeColon behindColon value behind rest, tail, more, depth, hdepth => by
    rw [Members.lexemes, List.length_cons, List.length_append] at hdepth
    obtain ⟨depth, rfl⟩ : ∃ m, depth = m + 1 := ⟨depth - 1, by omega⟩
    have hvalue : countTokensInValue (depth + 1)
        (value.lexemes (blankText behind ++ (rest.text [44] ++ tail)) ++ (rest.lexemes tail ++ more)) = _ :=
      countTokensInValue_lexemes value _ _ (by omega)
    have hrest := countTokens_members rest tail more
      (show (rest.lexemes tail).length ≤ depth + 1 by omega)
    -- a child is the key with the tokens of its value
    rw [Members.lexemes, Members.count, ← List.cons_append, List.append_assoc,
      countChildren_succ (List.cons_ne_nil _ _), hrest, List.length_append]
    rw [List.cons_append, show ∀ tokens, countTokensInValue (depth + 1) (_ :: tokens) = 1 from fun _ => rfl,
      List.drop_succ_cons, List.drop_zero, hvalue, List.length_cons, Nat.add_comm]

end

/-! ## Filters member by member -/

/-- A member of a filter object. -/
def readFilterMember (filter : NostrFilter) (member : List JsonChar × Json) : NostrFilter :=
  match member.2.lexemes [] with
  | [] => filter
  | value :: behind =>
    extractFilterField ⟨.string, 1, stringText member.1, (stringText member.1).length⟩ value behind filter

/-- The filter of an element, if that is an object. -/
def filterOf : Json → Option NostrFilter
  | .object _ members => some (members.toList.foldl readFilterMember NostrFilter.init)
  | _ => none

/-- **A filter is made of its members one by one.** -/
theorem extractFilterFields_members : ∀ (members : Members) (tail : List UInt8) (more : List Lexeme)
    (filter : NostrFilter), extractFilterFields members.count (members.lexemes tail ++ more) filter =
      some (members.toList.foldl readFilterMember filter)
  | .nil, _, _, _ => by rw [Members.count, extractFilterFields]; rfl
  | .cons before key beforeColon behindColon value behind rest, tail, more, filter => by
    have hkey : ∀ tail : List UInt8, Lexeme.Same
        ⟨.string, 1, stringText key ++ tail, (stringText key).length⟩
        ⟨.string, 1, stringText key, (stringText key).length⟩ := fun tail => by
      have hsame : Lexeme.Same ⟨.string, 1, stringText key ++ tail, (stringText key).length⟩
          ⟨.string, 1, stringText key ++ [], (stringText key).length⟩ := Lexeme.same_of_append
      rwa [List.append_nil] at hsame
    have hcount : ∀ depth, (value.lexemes (blankText behind ++ (rest.text [44] ++ tail))).length ≤ depth →
        countTokensInValue depth (value.lexemes (blankText behind ++ (rest.text [44] ++ tail)) ++
          (rest.lexemes tail ++ more)) =
            (value.lexemes (blankText behind ++ (rest.text [44] ++ tail))).length := fun _ =>
      countTokensInValue_lexemes value _ _
    have hsame := value.lexemes_same (blankText behind ++ (rest.text [44] ++ tail)) []
    have hclosed := value.lexemes_closed (blankText behind ++ (rest.text [44] ++ tail))
    have hne := lexemes_ne_nil value (blankText behind ++ (rest.text [44] ++ tail))
    rw [Members.lexemes, Members.count, List.cons_append, List.append_assoc, Members.toList,
      List.foldl_cons, readFilterMember]
    generalize value.lexemes (blankText behind ++ (rest.text [44] ++ tail)) = tokens at *
    generalize value.lexemes [] = tokens' at *
    rcases hsame with _ | ⟨hvalue, hbehind⟩
    · exact absurd rfl hne
    rename_i token token' tokens tokens'
    have hread := fun keyTail => extractFilterField_same (rest.lexemes tail ++ more) [] (hkey keyTail)
      hvalue hclosed.head hbehind filter
    rw [List.append_nil] at hread
    rw [List.cons_append] at hcount ⊢
    rw [extractFilterFields]
    simp only [ne_eq, not_true_eq_false, if_false]
    rw [hcount _ (by simp), hread, ← List.cons_append, List.drop_left]
    exact extractFilterFields_members rest tail more _

theorem nostrFilterParse_lexemes (j : Json) (tail : List UInt8) (more : List Lexeme) :
    nostrFilterParse (j.lexemes tail ++ more) = filterOf j := by
  cases j with
  | primitive first rest => rfl
  | string s => rfl
  | array blanks items => rfl
  | object blanks members =>
    rw [Json.lexemes, List.cons_append, nostrFilterParse, if_neg (by simp)]
    exact extractFilterFields_members members _ more _

/-- **The filters of a message** are those of its elements, up to the sixteenth. -/
theorem extractFilters_items : ∀ (items : Items) (tail : List UInt8) (more : List Lexeme)
    {found : List NostrFilter}, found.length ≤ NOSTR_REQ_MAX_FILTERS →
      extractFilters items.count (items.lexemes tail ++ more) found =
        (found ++ items.toList.filterMap filterOf).take NOSTR_REQ_MAX_FILTERS
  | .nil, tail, more, found, hfound => by
    rw [Items.count, extractFilters, Items.toList, List.filterMap_nil, List.append_nil,
      List.take_of_length_le hfound]
  | .cons before value behind rest, tail, more, found, hfound => by
    have hcount : ∀ depth, (value.lexemes (blankText behind ++ (rest.text [44] ++ tail))).length ≤ depth →
        countTokensInValue depth (value.lexemes (blankText behind ++ (rest.text [44] ++ tail)) ++
          (rest.lexemes tail ++ more)) =
            (value.lexemes (blankText behind ++ (rest.text [44] ++ tail))).length := fun _ =>
      countTokensInValue_lexemes value _ _
    have hparse := nostrFilterParse_lexemes value (blankText behind ++ (rest.text [44] ++ tail))
      (rest.lexemes tail ++ more)
    have hcons : (value :: rest.toList).filterMap filterOf =
        (filterOf value).toList ++ rest.toList.filterMap filterOf := by
      cases h : filterOf value with
      | none => rw [List.filterMap_cons_none h]; rfl
      | some filter => rw [List.filterMap_cons_some h]; rfl
    have hne := lexemes_ne_nil value (blankText behind ++ (rest.text [44] ++ tail))
    rw [Items.lexemes, Items.count, Items.toList, List.append_assoc, hcons]
    generalize value.lexemes (blankText behind ++ (rest.text [44] ++ tail)) = tokens at *
    rcases tokens with - | ⟨token, tokens⟩
    · exact absurd rfl hne
    rw [List.cons_append] at hcount hparse ⊢
    rw [extractFilters]
    by_cases hroom : found.length < NOSTR_REQ_MAX_FILTERS
    · have hstep : (found ++ (filterOf value).toList).length ≤ NOSTR_REQ_MAX_FILTERS := by
        have hone : (filterOf value).toList.length ≤ 1 := by cases filterOf value <;> simp
        rw [List.length_append]
        omega
      rw [if_pos hroom]
      simp only
      rw [hcount _ (by simp), hparse, ← List.cons_append, List.drop_left, ← List.append_assoc]
      by_cases htype : token.type ≠ .object
      · -- an element that is no object has no filter
        have hnone : filterOf value = none := by
          rw [← hparse, nostrFilterParse, if_pos htype]
        rw [if_pos htype, hnone, Option.toList_none, List.append_nil]
        exact extractFilters_items rest tail more hfound
      · rw [if_neg htype]
        exact extractFilters_items rest tail more hstep
    · have hfull : found.length = NOSTR_REQ_MAX_FILTERS := Nat.le_antisymm hfound (Nat.le_of_not_lt hroom)
      rw [if_neg hroom, ← hfull, List.take_left]

/-! ## The messages -/

/-- Whether the label of a message is `name`, in either case. -/
def labelled (label : List JsonChar) (name : CStr) : Bool :=
  (stringText label).map lowerChr = name.map lowerChr

/-- Whether a string can be a subscription id. -/
def isSubscriptionId (id : List JsonChar) : Bool :=
  0 < (stringText id).length && (stringText id).length ≤ NOSTR_REQ_SUBSCRIPTION_ID_LENGTH

/-- The two checks of an id. -/
theorem idChecks_eq {α : Type} (id : List JsonChar) (result : Option α) :
    (if (stringText id).length = 0 then none
      else if NOSTR_REQ_SUBSCRIPTION_ID_LENGTH < (stringText id).length then none else result) =
      if isSubscriptionId id then result else none := by
  rw [isSubscriptionId]
  by_cases hempty : (stringText id).length = 0
  · rw [if_pos hempty, hempty]
    rfl
  by_cases hlong : NOSTR_REQ_SUBSCRIPTION_ID_LENGTH < (stringText id).length
  · rw [if_neg hempty, if_pos hlong, decide_eq_false (Nat.not_le.mpr hlong), Bool.and_false]
    rfl
  · rw [if_neg hempty, if_neg hlong, decide_eq_true (Nat.pos_of_ne_zero hempty),
      decide_eq_true (Nat.le_of_not_lt hlong)]
    rfl

theorem length_toList_items : ∀ items : Items, items.toList.length = items.count
  | .nil => rfl
  | .cons _ _ _ rest => congrArg (· + 1) (length_toList_items rest)

/-- What a message asks for, of a label and the elements behind it. -/
def reqOf (label : List JsonChar) : List Json → Option NostrReqMessage
  | .string id :: elements =>
    let filters := elements.filterMap filterOf
    if labelled label [82, 69, 81] ∧ isSubscriptionId id ∧ filters ≠ [] then
      some ⟨stringText id, filters.take NOSTR_REQ_MAX_FILTERS⟩
    else none
  | _ => none

/-- The subscription that a message closes. -/
def closeOf (label : List JsonChar) : List Json → Option CStr
  | .string id :: _ =>
    if labelled label [67, 76, 79, 83, 69] ∧ isSubscriptionId id then some (stringText id) else none
  | _ => none

theorem keyIs_eq_labelled {token : Lexeme} {label : List JsonChar} {tail : List UInt8} (name : CStr)
    (hname : name ≠ []) (hlength : token.length = (stringText label).length)
    (hrest : token.rest = stringText label ++ tail) : keyIs token name = labelled label name := by
  rw [keyIs, labelled, hlength, hrest]
  by_cases hsame : (stringText label).length = name.length
  · have hcompare : nostrStrncmp (stringText label ++ tail) name name.length =
        nostrStrncmp (stringText label) name (stringText label).length := by
      rw [← hsame]
      exact nostrStrncmp_same (fun i hi => List.getD_append _ _ _ _ hi) name
    have hne : stringText label ≠ [] := fun hnil => by
      rw [hnil] at hsame
      exact hname (List.eq_nil_of_length_eq_zero hsame.symm)
    rw [hcompare, decide_eq_true hsame, Bool.true_and, Bool.eq_iff_iff, nostrStrncmp_iff hsame,
      decide_eq_true_eq, and_iff_right hne]
  · rw [decide_eq_false hsame, Bool.false_and]
    refine (decide_eq_false fun hmap => hsame ?_).symm
    have hlengths := congrArg List.length hmap
    rwa [List.length_map, List.length_map] at hlengths

/-- The token of an element that is no string. -/
theorem string_or_token (j : Json) (tail : List UInt8) :
    (∃ s, j = .string s) ∨
      ∃ token behind, j.lexemes tail = token :: behind ∧ token.type ≠ .string := by
  cases j with
  | primitive first rest => exact .inr ⟨_, _, rfl, JsonType.noConfusion⟩
  | string s => exact .inl ⟨s, rfl⟩
  | array blanks items => exact .inr ⟨_, _, rfl, JsonType.noConfusion⟩
  | object blanks members => exact .inr ⟨_, _, rfl, JsonType.noConfusion⟩

section Messages

variable {message token : Lexeme} {label : List JsonChar} {behindLabel : List UInt8}
  (hmessage : message.type = .array) (htoken : token.type = .string)
  (hlength : token.length = (stringText label).length)
  (hrest : token.rest = stringText label ++ behindLabel)

include hmessage htoken hlength hrest

/-- **A REQ message** is read as its elements say. -/
theorem nostrReqParse_lexemes (items : Items) (hsize : message.size = items.count + 1)
    (tail : List UInt8) :
    nostrReqParse (message :: token :: items.lexemes tail) = reqOf label items.toList := by
  cases items with
  | nil => rfl
  | cons before second behind further =>
    rw [Items.count] at hsize
    have hkey := keyIs_eq_labelled [82, 69, 81] (by decide) hlength hrest
    rw [Items.lexemes, Items.toList]
    rcases string_or_token second (blankText behind ++ (further.text [44] ++ tail)) with
      ⟨id, rfl⟩ | ⟨first, inner, hlexemes, hfirst⟩
    · have hfilters := @extractFilters_items further tail [] [] (Nat.zero_le _)
      have hid : cstr (stringText id) = stringText id := cstr_of_noNul (zero_notMem_stringText id)
      have hbehind : message.size - 2 = further.count := by omega
      rw [List.append_nil, List.nil_append] at hfilters
      rw [Json.lexemes, List.singleton_append, nostrReqParse, if_neg (not_not.mpr hmessage), htoken,
        hkey, hbehind, hfilters, reqOf, Lexeme.text, List.take_left, hid]
      simp only [ne_eq, not_true_eq_false, if_false]
      by_cases hfew : message.size < 3
      · have hnone : further.toList = [] :=
          List.eq_nil_of_length_eq_zero (by rw [length_toList_items]; omega)
        rw [if_pos hfew, hnone, if_neg (by simp)]
      rw [if_neg hfew]
      have hfound : further.toList.filterMap filterOf ≠ [] ↔
          (further.toList.filterMap filterOf).take NOSTR_REQ_MAX_FILTERS ≠ [] := by
        simp [NOSTR_REQ_MAX_FILTERS]
      rw [idChecks_eq]
      simp only [hfound]
      generalize (further.toList.filterMap filterOf).take NOSTR_REQ_MAX_FILTERS = filters
      cases labelled label [82, 69, 81] <;> cases isSubscriptionId id <;> cases filters <;> rfl
    · rw [hlexemes, List.cons_append, nostrReqParse, if_pos hfirst]
      have hnone : reqOf label (second :: further.toList) = none := by
        cases second with
        | string id => exact absurd (congrArg Lexeme.type (List.cons.inj hlexemes).1.symm) hfirst
        | _ => rfl
      rw [hnone]
      split_ifs <;> rfl

/-- **A CLOSE message** is read as its elements say. -/
theorem nostrCloseParse_lexemes (items : Items) (hsize : message.size = items.count + 1)
    (tail : List UInt8) :
    nostrCloseParse (message :: token :: items.lexemes tail) = closeOf label items.toList := by
  cases items with
  | nil => rfl
  | cons before second behind further =>
    rw [Items.count] at hsize
    have hkey := keyIs_eq_labelled [67, 76, 79, 83, 69] (by decide) hlength hrest
    rw [Items.lexemes, Items.toList]
    rcases string_or_token second (blankText behind ++ (further.text [44] ++ tail)) with
      ⟨id, rfl⟩ | ⟨first, inner, hlexemes, hfirst⟩
    · have hid : cstr (stringText id) = stringText id := cstr_of_noNul (zero_notMem_stringText id)
      rw [Json.lexemes, List.singleton_append, nostrCloseParse, if_neg (not_not.mpr hmessage), htoken,
        hkey, closeOf, Lexeme.text, List.take_left, hid, if_neg (show ¬ message.size < 2 by omega)]
      simp only [ne_eq, not_true_eq_false, if_false]
      rw [idChecks_eq]
      cases labelled label [67, 76, 79, 83, 69] <;> cases isSubscriptionId id <;> simp
    · rw [hlexemes, List.cons_append, nostrCloseParse, if_pos hfirst]
      have hnone : closeOf label (second :: further.toList) = none := by
        cases second with
        | string id => exact absurd (congrArg Lexeme.type (List.cons.inj hlexemes).1.symm) hfirst
        | _ => rfl
      rw [hnone]
      split_ifs <;> rfl

end Messages

end OnionRelay
