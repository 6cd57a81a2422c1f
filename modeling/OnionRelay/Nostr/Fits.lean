import OnionRelay.Nostr.Accepted
import OnionRelay.Nostr.ReqParser

/-!
# What the parsers hand on

Whatever the tokens are, a parser writes no more into an array than there is room for, and
no number is too large for its type (`Fits`).  For an event the tokens have to stand in
the text, which is all that is known of a text that is no JSON (`fits_extractNostrEvent`).
-/

namespace OnionRelay

open OnionRelay.Lib OnionRelay.Db

def FitsInt64 (t : Int) : Prop := -2 ^ 63 ≤ t ∧ t < 2 ^ 63

/-- An entry of `ids` or `authors` within its bounds. -/
def NostrFilterId.Fits (entry : NostrFilterId) : Prop := 0 < entry.prefixLen ∧ entry.prefixLen ≤ 32

/-- A filter within the bounds of the struct. -/
structure NostrFilter.Fits (filter : NostrFilter) : Prop where
  ids : filter.ids.length ≤ 256 ∧ ∀ entry ∈ filter.ids, entry.Fits
  authors : filter.authors.length ≤ 256 ∧ ∀ entry ∈ filter.authors, entry.Fits
  kinds : filter.kinds.length ≤ 64 ∧ ∀ kind ∈ filter.kinds, kind < 2 ^ 32
  tags : filter.tags.length ≤ 26 ∧ ∀ tag ∈ filter.tags, 0 < tag.values.length ∧ tag.values.length ≤ 256
  since : FitsInt64 filter.since
  until_ : FitsInt64 filter.until_
  limit : filter.limit < 2 ^ 32

/-- A subscription id within the bounds of its buffer. -/
def FitsId (id : CStr) : Prop := 0 < id.length ∧ id.length ≤ NOSTR_REQ_SUBSCRIPTION_ID_LENGTH ∧ 0 ∉ id

structure NostrReqMessage.Fits (req : NostrReqMessage) : Prop where
  subscriptionId : FitsId req.subscriptionId
  count : 0 < req.filters.length ∧ req.filters.length ≤ NOSTR_REQ_MAX_FILTERS
  filters : ∀ filter ∈ req.filters, filter.Fits

/-- An event within the bounds of the entity. -/
structure NostrEventEntity.Fits (event : NostrEventEntity) : Prop extends event.Parsed where
  content : 0 ∉ event.content ∧ event.content.length < nostrEventContentLength

/-! ## Filters -/

theorem extractArray_fits {α : Type} {element : Lexeme → Option α} {capacity : Nat} {p : α → Prop}
    (helement : ∀ token a, element token = some a → p a) {token : Lexeme} {behind : List Lexeme}
    {found : List α} (h : extractArray element capacity token behind = some found) :
    found.length ≤ capacity ∧ ∀ a ∈ found, p a := by
  by_cases htype : token.type = .array
  · rw [extractArray_eq htype] at h
    obtain rfl := Option.some.inj h
    refine ⟨List.length_take_le _ _, fun a ha => ?_⟩
    obtain ⟨token', -, ha⟩ := List.mem_filterMap.mp (List.mem_of_mem_take ha)
    exact helement token' a ha
  · rw [extractArray, if_pos htype] at h
    cases h

theorem extractDigits_lt {maxLen modulus : Nat} (hmodulus : 0 < modulus) (token : Lexeme) (n : Nat)
    (h : extractDigits maxLen modulus token = some n) : n < modulus := by
  rw [extractDigits] at h
  split_ifs at h
  obtain rfl := Option.some.inj h
  exact foldl_pushDigit_lt hmodulus _ hmodulus

theorem signedTime_fits (t : Nat) : FitsInt64 (signedTime t) :=
  ⟨BitVec.le_toInt _, BitVec.toInt_lt⟩

theorem length_hexToBytes_le : ∀ (pairs : Nat) (hex : CStr), (hexToBytes pairs hex).length ≤ pairs
  | 0, _ => Nat.le_refl 0
  | pairs + 1, hex => by
    rw [hexToBytes]
    split
    · exact Nat.succ_le_succ (length_hexToBytes_le pairs _)
    · exact Nat.zero_le _

theorem extractFilterHex_fits (token : Lexeme) (entry : NostrFilterId)
    (h : extractFilterHex token = some entry) : entry.Fits := by
  rw [extractFilterHex] at h
  by_cases hlong : 64 < token.length
  · rw [if_pos hlong] at h
    split_ifs at h
  have hle := length_hexToBytes_le (token.length / 2) token.text
  rw [if_neg hlong] at h
  dsimp only at h
  split_ifs at h with _ _ hpos
  obtain rfl := Option.some.inj h
  exact ⟨hpos, by dsimp only; omega⟩

/-- What an extractor did not return is as it was. -/
theorem getD_of {α : Type} {p : α → Prop} {o : Option α} {a : α} (ho : ∀ b, o = some b → p b) (ha : p a) :
    p (o.getD a) := by
  cases o with
  | none => exact ha
  | some b => exact ho b rfl

theorem fits_init : NostrFilter.init.Fits := by
  constructor <;> simp [NostrFilter.init, FitsInt64]

theorem fits_extractFilterField {key value : Lexeme} {behind : List Lexeme} {filter : NostrFilter}
    (h : filter.Fits) : (extractFilterField key value behind filter).Fits := by
  rw [extractFilterField]
  split_ifs with _ _ _ _ _ _ htag
  · exact { h with ids := getD_of (fun _ => extractArray_fits extractFilterHex_fits) h.ids }
  · exact { h with authors := getD_of (fun _ => extractArray_fits extractFilterHex_fits) h.authors }
  · exact { h with
      kinds := getD_of (fun _ => extractArray_fits (extractDigits_lt (by decide))) h.kinds }
  · refine { h with since := getD_of (fun since hsince => ?_) h.since }
    obtain ⟨t, -, rfl⟩ := Option.map_eq_some_iff.mp hsince
    exact signedTime_fits t
  · refine { h with until_ := getD_of (fun until_ huntil => ?_) h.until_ }
    obtain ⟨t, -, rfl⟩ := Option.map_eq_some_iff.mp huntil
    exact signedTime_fits t
  · cases hlimit : extractNostrFilterLimit value with
    | none => exact h
    | some limit => exact { h with limit := extractDigits_lt (by decide) _ _ hlimit }
  · cases hread : extractNostrFilterTag value behind (key.rest.getD 1 0) with
    | none => exact h
    | some tag =>
      obtain ⟨values, hvalues, rfl⟩ := Option.map_eq_some_iff.mp hread
      have hcount := (extractArray_fits (p := fun _ => True) (fun _ _ _ => trivial) hvalues).1
      dsimp only
      split
      · exact h
      · next hne =>
        refine { h with tags := ⟨?_, fun tag htags => ?_⟩ }
        · rw [List.length_append]
          exact htag.2.2
        · rcases List.mem_append.mp htags with htags | htags
          · exact h.tags.2 tag htags
          · obtain rfl := List.mem_singleton.mp htags
            exact ⟨List.length_pos_of_ne_nil hne, hcount⟩
  · exact h

theorem fits_extractFilterFields : ∀ {n : Nat} {tokens : List Lexeme} {filter filter' : NostrFilter},
    filter.Fits → extractFilterFields n tokens filter = some filter' → filter'.Fits := by
  intro n
  induction n with
  | zero =>
    intro tokens filter filter' h hread
    rw [extractFilterFields] at hread
    exact Option.some.inj hread ▸ h
  | succ n ih =>
    intro tokens filter filter' h hread
    rcases tokens with - | ⟨key, - | ⟨value, tokens⟩⟩
    · exact Option.some.inj hread ▸ h
    · rw [extractFilterFields] at hread
      split at hread
      · cases hread
      · exact Option.some.inj hread ▸ h
    · rw [extractFilterFields] at hread
      split at hread
      · cases hread
      · exact ih (fits_extractFilterField h) hread

/-- **A filter fits**, whatever it was parsed from. -/
theorem fits_nostrFilterParse {tokens : List Lexeme} {filter : NostrFilter}
    (h : nostrFilterParse tokens = some filter) : filter.Fits := by
  cases tokens with
  | nil => cases h
  | cons token tokens =>
    rw [nostrFilterParse] at h
    split at h
    · cases h
    · exact fits_extractFilterFields fits_init h

/-! ## REQ and CLOSE -/

/-- The token stands in a C string. -/
structure InString (l : Lexeme) : Prop where
  fits : l.length ≤ l.rest.length
  noNul : 0 ∉ l.rest

theorem InString.length_text {l : Lexeme} (h : InString l) : l.text.length = l.length := by
  rw [Lexeme.text, List.length_take, Nat.min_eq_left h.fits]

theorem fitsId_cstr {l : Lexeme} (h : InString l) (hpos : l.length ≠ 0)
    (hle : ¬ NOSTR_REQ_SUBSCRIPTION_ID_LENGTH < l.length) : FitsId (cstr l.text) := by
  have hzero : 0 ∉ l.text := fun hmem => h.noNul (List.mem_of_mem_take hmem)
  rw [cstr_of_noNul hzero, FitsId, h.length_text]
  exact ⟨Nat.pos_of_ne_zero hpos, Nat.le_of_not_lt hle, hzero⟩

theorem fits_extractFilters : ∀ {n : Nat} {tokens : List Lexeme} {filters : List NostrFilter},
    filters.length ≤ NOSTR_REQ_MAX_FILTERS → (∀ filter ∈ filters, filter.Fits) →
      (extractFilters n tokens filters).length ≤ NOSTR_REQ_MAX_FILTERS ∧
        ∀ filter ∈ extractFilters n tokens filters, filter.Fits := by
  intro n
  induction n with
  | zero => exact fun hcount hfilters => ⟨hcount, hfilters⟩
  | succ n ih =>
    intro tokens filters hcount hfilters
    cases tokens with
    | nil => exact ⟨hcount, hfilters⟩
    | cons token tokens =>
      rw [extractFilters]
      split
      · next hroom =>
        dsimp only
        split
        · exact ih hcount hfilters
        · cases hparse : nostrFilterParse (token :: tokens) with
          | none => exact ih (by simpa using hcount) (by simpa using hfilters)
          | some filter =>
            refine ih ?_ fun filter' hfilter' => ?_
            · rw [List.length_append]
              exact hroom
            · rcases List.mem_append.mp hfilter' with hfilter' | hfilter'
              · exact hfilters filter' hfilter'
              · obtain rfl := List.mem_singleton.mp hfilter'
                exact fits_nostrFilterParse hparse
      · exact ⟨hcount, hfilters⟩

/-- **A REQ message fits.** -/
theorem fits_nostrReqParse {tokens : List Lexeme} (htokens : ∀ l ∈ tokens, InString l) {req : NostrReqMessage}
    (h : nostrReqParse tokens = some req) : req.Fits := by
  match tokens with
  | [] => exact absurd h nofun
  | [_] => exact absurd h nofun
  | [_, _] => exact absurd h nofun
  | message :: label :: id :: elements =>
    rw [nostrReqParse] at h
    split_ifs at h with _ _ _ _ _ hpos hle
    dsimp only at h
    split_ifs at h with hnone
    obtain rfl := Option.some.inj h
    obtain ⟨hcount, hfilters⟩ := @fits_extractFilters (message.size - 2) elements [] (Nat.zero_le _)
      fun _ hmem => absurd hmem List.not_mem_nil
    exact ⟨fitsId_cstr (htokens id (by simp)) hpos hle, ⟨List.length_pos_of_ne_nil hnone, hcount⟩, hfilters⟩

theorem fits_nostrCloseParse {tokens : List Lexeme} (htokens : ∀ l ∈ tokens, InString l) {id : CStr}
    (h : nostrCloseParse tokens = some id) : FitsId id := by
  match tokens with
  | [] => exact absurd h nofun
  | [_] => exact absurd h nofun
  | [_, _] => exact absurd h nofun
  | message :: label :: id :: elements =>
    rw [nostrCloseParse] at h
    split_ifs at h with _ _ _ _ _ hpos hle
    obtain rfl := Option.some.inj h
    exact fitsId_cstr (htokens id (by simp)) hpos hle

/-! ## Events -/

theorem length_decodeUnicode (src : List UInt8) (room : Nat) :
    (decodeUnicode src room).1.length + (decodeUnicode src room).2.length ≤ src.length + 2 := by
  unfold decodeUnicode
  split
  · split
    · next h₁ h₂ h₃ h₄ _ _ _ _ =>
      have hbytes := (length_utf8Bytes ((h₁ <<< 12) ||| (h₂ <<< 8) ||| (h₃ <<< 4) ||| h₄)).2
      dsimp only
      split
      · simp only [List.length_cons]
        omega
      · simp only [List.length_cons, List.length_nil]
        omega
    · simp only [List.length_cons, List.length_nil]
      omega
  · simp only [List.length_cons, List.length_nil]
    omega

/-- No round writes more than it takes. -/
theorem length_decodeStep (src : List UInt8) (room : Nat) :
    (decodeStep src room).1.length + (decodeStep src room).2.length ≤ src.length := by
  match src with
  | [] => exact Nat.le_refl 0
  | [c] => exact Nat.le_refl 1
  | c :: next :: rest =>
    rw [decodeStep]
    split
    · cases simpleEscape next with
      | some b =>
        simp only [List.length_cons, List.length_nil]
        omega
      | none =>
        dsimp only
        split
        · exact length_decodeUnicode rest room
        · split <;> simp only [List.length_cons, List.length_nil] <;> omega
    · simp only [List.length_cons, List.length_nil]
      omega

theorem length_decodeJsonString : ∀ (fuel : Nat) (src : List UInt8) (room : Nat),
    (decodeJsonString fuel src room).length ≤ src.length
  | 0, _, _ => Nat.zero_le _
  | fuel + 1, src, room => by
    have hstep := length_decodeStep src room
    rw [decodeJsonString]
    split
    · exact Nat.zero_le _
    · have hrest := length_decodeJsonString fuel (decodeStep src room).2
        (room - (decodeStep src room).1.length)
      rw [List.length_append]
      omega

theorem extractNostrEventContent_fits {token : Lexeme} (htoken : InString token) {content : CStr}
    (h : extractNostrEventContent token = some content) :
    0 ∉ content ∧ content.length < nostrEventContentLength := by
  rw [extractNostrEventContent] at h
  split_ifs at h with _ hlength
  obtain rfl := Option.some.inj h
  refine ⟨fun hmem => absurd (List.mem_takeWhile_imp hmem) (by decide), ?_⟩
  have hdecoded := length_decodeJsonString token.length token.text (nostrEventContentLength - 1)
  rw [htoken.length_text] at hdecoded
  exact Nat.lt_of_le_of_lt ((List.takeWhile_prefix _).length_le.trans hdecoded) (Nat.lt_of_not_le hlength)

theorem extractHexField_fits {token : Lexeme} (htoken : InString token) {len : Nat} {s : CStr}
    (h : extractHexField len token = some s) : LowerHex len s := by
  rw [extractHexField] at h
  split_ifs at h with _ hlength hdigits
  obtain rfl := Option.some.inj h
  exact ⟨htoken.length_text.trans (not_not.mp hlength), List.all_eq_true.mp hdigits⟩

/-- What the fields found so far are. -/
structure Fitting (st : FoundFields × NostrEventEntity) : Prop where
  id : st.1.id = true → LowerHex 64 st.2.id
  pubkey : st.1.pubkey = true → LowerHex 64 st.2.pubkey
  kind : st.1.kind = true → st.2.kind < 2 ^ 32
  createdAt : st.1.createdAt = true → st.2.createdAt < 2 ^ 64
  sig : st.1.sig = true → LowerHex 128 st.2.sig
  tags : st.1.tags = true → st.2.tags.length ≤ 2048 ∧ ∀ t ∈ st.2.tags, t.Bounded
  content : st.1.content = true → 0 ∉ st.2.content ∧ st.2.content.length < nostrEventContentLength

theorem fitting_extractField {key value : Lexeme} {values : List Lexeme} (hvalue : InString value)
    {st st' : FoundFields × NostrEventEntity} (hst : Fitting st)
    (h : extractField key values value st = some st') : Fitting st' := by
  rw [extractField] at h
  split_ifs at h
  · obtain ⟨id, hid, rfl⟩ := Option.map_eq_some_iff.mp h
    exact { hst with id := fun _ => extractHexField_fits hvalue hid }
  · obtain ⟨pubkey, hpubkey, rfl⟩ := Option.map_eq_some_iff.mp h
    exact { hst with pubkey := fun _ => extractHexField_fits hvalue hpubkey }
  · obtain ⟨kind, hkind, rfl⟩ := Option.map_eq_some_iff.mp h
    exact { hst with kind := fun _ => extractNostrEventKind_lt hkind }
  · obtain ⟨createdAt, hcreatedAt, rfl⟩ := Option.map_eq_some_iff.mp h
    exact { hst with createdAt := fun _ => extractNostrEventCreatedAt_lt hcreatedAt }
  · obtain ⟨sig, hsig, rfl⟩ := Option.map_eq_some_iff.mp h
    exact { hst with sig := fun _ => extractHexField_fits hvalue hsig }
  · obtain ⟨tags, htags, rfl⟩ := Option.map_eq_some_iff.mp h
    exact { hst with tags := fun _ => extractNostrEventTags_sound htags }
  · obtain ⟨content, hcontent, rfl⟩ := Option.map_eq_some_iff.mp h
    exact { hst with content := fun _ => extractNostrEventContent_fits hvalue hcontent }
  · exact Option.some.inj h ▸ hst

theorem fitting_extractFields : ∀ {fuel : Nat} {tokens : List Lexeme} {st st' : FoundFields × NostrEventEntity},
    (∀ l ∈ tokens, InString l) → Fitting st → extractFields fuel tokens st = some st' → Fitting st' := by
  intro fuel
  induction fuel with
  | zero =>
    intro tokens st st' _ hst h
    rw [extractFields] at h
    · exact Option.some.inj h ▸ hst
    · intro _ _ _ _ hfuel
      cases hfuel
  | succ fuel ih =>
    intro tokens st st' htokens hst h
    rcases tokens with - | ⟨key, - | ⟨value, tokens⟩⟩
    · exact Option.some.inj h ▸ hst
    · exact Option.some.inj h ▸ hst
    · rw [extractFields] at h
      obtain ⟨mid, hfield, h⟩ := Option.bind_eq_some_iff.mp h
      refine ih (fun l hl => htokens l (List.mem_cons_of_mem key (List.mem_of_mem_drop hl))) ?_ h
      exact fitting_extractField (htokens value (List.mem_cons_of_mem key List.mem_cons_self)) hst hfield

/-- **An event fits**, if its tokens stand in the text. -/
theorem fits_extractNostrEvent {json : List UInt8} {tokens : List JsonToken}
    (htokens : ∀ t ∈ tokens, InString (t.lexeme json)) {event : NostrEventEntity}
    (h : extractNostrEvent json tokens = some event) : event.Fits := by
  rw [extractNostrEvent] at h
  obtain ⟨⟨found, event'⟩, hfields, h⟩ := Option.bind_eq_some_iff.mp h
  have hzero : Fitting (FoundFields.none, NostrEventEntity.zero) := by
    constructor <;> intro hfound <;> cases hfound
  have hfitting := fitting_extractFields (List.forall_mem_map.mpr htokens) hzero hfields
  simp only [Option.pure_def] at h
  split at h
  · next hall =>
    obtain rfl := Option.some.inj h
    simp only [FoundFields.all, Bool.and_eq_true] at hall
    obtain ⟨⟨⟨⟨⟨⟨hid, hpubkey⟩, hkind⟩, hcreatedAt⟩, hsig⟩, htags⟩, hcontent⟩ := hall
    exact { id := hfitting.id hid, pubkey := hfitting.pubkey hpubkey, sig := hfitting.sig hsig
            kind := hfitting.kind hkind, createdAt := hfitting.createdAt hcreatedAt
            tagCount := (hfitting.tags htags).1, tags := (hfitting.tags htags).2
            content := hfitting.content hcontent }
  · cases h

end OnionRelay
