import OnionRelay.Nostr.JsonCodec

/-!
# What the parser of events accepts

Whatever the message, the fields of an event that `extract_nostr_event` returns have
the shapes the rest of the relay relies on, and the content escaped anew is no longer
than the client wrote it (`accepted_of_extractNostrEvent`).
-/

namespace OnionRelay

open OnionRelay.Lib OnionRelay.Db

/-- The fields of an event that was accepted. -/
structure Accepted (event : NostrEventEntity) : Prop extends event.Parsed where
  content : 0 ∉ event.content
  contentLength : (jsonEscape event.content).length < nostrEventContentLength

/-! ## What is accepted -/

theorem extractHexField_sound {token : Lexeme} {text : List UInt8} (htoken : token.In text) {len : Nat}
    {s : CStr} (h : extractHexField len token = some s) : LowerHex len s := by
  rw [extractHexField] at h
  split at h
  · exact absurd h nofun
  split at h
  · exact absurd h nofun
  next hlength =>
    split at h
    · next hdigits =>
      obtain rfl := Option.some.inj h
      refine ⟨?_, List.all_eq_true.mp hdigits⟩
      rw [Lexeme.text, List.length_take, Nat.min_eq_left htoken.fits, not_not.mp hlength]
    · exact absurd h nofun

theorem foldl_pushDigit_lt {modulus : Nat} (hmodulus : 0 < modulus) (s : CStr) {value : Nat}
    (hvalue : value < modulus) : s.foldl (pushDigit modulus) value < modulus := by
  induction s generalizing value with
  | nil => exact hvalue
  | cons c s ih => exact ih (Nat.mod_lt _ hmodulus)

theorem extractNostrEventKind_lt {token : Lexeme} {kind : Nat}
    (h : extractNostrEventKind token = some kind) : kind < 2 ^ 32 := by
  rw [extractNostrEventKind] at h
  split_ifs at h
  obtain rfl := Option.some.inj h
  exact foldl_pushDigit_lt (by decide) _ (by decide)

theorem applyExponent_lt {value : Nat} (hvalue : value < 2 ^ 64) (text : List UInt8) :
    applyExponent value text < 2 ^ 64 := by
  have hiterate : ∀ {f : Nat → Nat}, (∀ v < 2 ^ 64, f v < 2 ^ 64) → ∀ rounds, f^[rounds] value < 2 ^ 64 := by
    intro f hf rounds
    induction rounds with
    | zero => exact hvalue
    | succ rounds ih =>
      rw [Function.iterate_succ_apply']
      exact hf _ ih
  have hshrink : ∀ v < 2 ^ 64, v / 10 < 2 ^ 64 := fun v hv => Nat.lt_of_le_of_lt (Nat.div_le_self v 10) hv
  cases text with
  | nil => exact hvalue
  | cons e text =>
    rw [applyExponent]
    split
    · dsimp only
      split
      · exact hiterate hshrink _
      · exact hiterate (fun v _ => Nat.mod_lt _ (by decide)) _
    · exact hvalue

theorem extractNostrEventCreatedAt_lt {token : Lexeme} {createdAt : Nat}
    (h : extractNostrEventCreatedAt token = some createdAt) : createdAt < 2 ^ 64 := by
  rw [extractNostrEventCreatedAt] at h
  split_ifs at h
  obtain rfl := Option.some.inj h
  split
  · exact Nat.mod_lt _ (by decide)
  · exact applyExponent_lt (foldl_pushDigit_lt (by decide) _ (by decide)) _

theorem copyTokenString_sound (token : Lexeme) {n : Nat} (hn : 0 < n) :
    (copyTokenString token n).length < n ∧ 0 ∉ copyTokenString token n := by
  refine ⟨?_, fun hmem => absurd (List.mem_takeWhile_imp hmem) (by decide)⟩
  have hle := (List.takeWhile_prefix (· ≠ 0)).length_le.trans (List.length_take_le (n - 1) token.text)
  exact Nat.lt_of_le_of_lt hle (Nat.sub_lt hn Nat.one_pos)

theorem extractValues_sound : ∀ {n : Nat} {tokens : List Lexeme} {values : List CStr},
    values.length ≤ 16 → (∀ v ∈ values, v.length < 512 ∧ 0 ∉ v) →
      (extractValues n tokens values).1.length ≤ 16 ∧
        ∀ v ∈ (extractValues n tokens values).1, v.length < 512 ∧ 0 ∉ v := by
  intro n
  induction n with
  | zero => exact fun hcount hvalues => ⟨hcount, hvalues⟩
  | succ n ih =>
    intro tokens values hcount hvalues
    cases tokens with
    | nil => exact ⟨hcount, hvalues⟩
    | cons token tokens =>
      rw [extractValues]
      split
      · next hroom =>
        split
        · refine ih ?_ ?_
          · rw [List.length_append, List.length_singleton]
            exact hroom
          · intro v hv
            rcases List.mem_append.mp hv with hv | hv
            · exact hvalues v hv
            · obtain rfl := List.mem_singleton.mp hv
              exact copyTokenString_sound token (by decide)
        · exact ih hcount hvalues
      · exact ⟨hcount, hvalues⟩

theorem extractTags_sound : ∀ {n : Nat} {tokens : List Lexeme} {tags : List NostrTagEntity},
    tags.length ≤ 2048 → (∀ t ∈ tags, t.Bounded) →
      (extractTags n tokens tags).length ≤ 2048 ∧ ∀ t ∈ extractTags n tokens tags, t.Bounded := by
  intro n
  induction n with
  | zero => exact fun hcount htags => ⟨hcount, htags⟩
  | succ n ih =>
    intro tokens tags hcount htags
    cases tokens with
    | nil => exact ⟨hcount, htags⟩
    | cons token tokens =>
      unfold extractTags
      split
      · next hroom =>
        split
        · exact ih hcount htags
        split
        · exact ih hcount htags
        cases tokens with
        | nil => exact ⟨hcount, htags⟩
        | cons key tokens =>
          simp only
          split
          · exact ih hcount htags
          · obtain ⟨hvalueCount, hvalues⟩ := @extractValues_sound (token.size - 1) tokens []
              (Nat.zero_le _) nofun
            refine ih ?_ ?_
            · rw [List.length_append, List.length_singleton]
              exact hroom
            · intro t ht
              rcases List.mem_append.mp ht with ht | ht
              · exact htags t ht
              · obtain rfl := List.mem_singleton.mp ht
                exact ⟨copyTokenString_sound key (by decide), hvalueCount, hvalues⟩
      · exact ⟨hcount, htags⟩

theorem extractNostrEventTags_sound {tokens : List Lexeme} {tags : List NostrTagEntity}
    (h : extractNostrEventTags tokens = some tags) : tags.length ≤ 2048 ∧ ∀ t ∈ tags, t.Bounded := by
  cases tokens with
  | nil => exact absurd h nofun
  | cons token tokens =>
    rw [extractNostrEventTags] at h
    split at h
    · exact absurd h nofun
    · obtain rfl := Option.some.inj h
      exact extractTags_sound (Nat.zero_le _) nofun

theorem extractNostrEventContent_sound {token : Lexeme} {text : List UInt8} (htoken : token.In text)
    {content : CStr} (h : extractNostrEventContent token = some content) :
    0 ∉ content ∧ (jsonEscape content).length < nostrEventContentLength := by
  rw [extractNostrEventContent] at h
  split at h
  · exact absurd h nofun
  next htype =>
    split at h
    · exact absurd h nofun
    · next hlength =>
      obtain rfl := Option.some.inj h
      obtain ⟨s, hs⟩ := htoken.chars (not_not.mp htype)
      have hle : (stringText s).length ≤ token.length := by
        rw [← hs]
        exact List.length_take_le _ _
      rw [hs, decodeJsonString_stringText hle (by omega)]
      exact ⟨fun hmem => absurd (List.mem_takeWhile_imp hmem) (by decide),
        Nat.lt_of_le_of_lt (length_jsonEscape_decoded s) (by omega)⟩

/-- What the fields found so far are. -/
structure Sound (st : FoundFields × NostrEventEntity) : Prop where
  id : st.1.id = true → LowerHex 64 st.2.id
  pubkey : st.1.pubkey = true → LowerHex 64 st.2.pubkey
  kind : st.1.kind = true → st.2.kind < 2 ^ 32
  createdAt : st.1.createdAt = true → st.2.createdAt < 2 ^ 64
  sig : st.1.sig = true → LowerHex 128 st.2.sig
  tags : st.1.tags = true → st.2.tags.length ≤ 2048 ∧ ∀ t ∈ st.2.tags, t.Bounded
  content : st.1.content = true →
    0 ∉ st.2.content ∧ (jsonEscape st.2.content).length < nostrEventContentLength

theorem extractField_sound {key value : Lexeme} {values : List Lexeme} {text : List UInt8}
    (hvalue : value.In text) {st st' : FoundFields × NostrEventEntity} (hst : Sound st)
    (h : extractField key values value st = some st') : Sound st' := by
  rw [extractField] at h
  split_ifs at h
  · obtain ⟨id, hid, rfl⟩ := Option.map_eq_some_iff.mp h
    exact { hst with id := fun _ => extractHexField_sound hvalue hid }
  · obtain ⟨pubkey, hpubkey, rfl⟩ := Option.map_eq_some_iff.mp h
    exact { hst with pubkey := fun _ => extractHexField_sound hvalue hpubkey }
  · obtain ⟨kind, hkind, rfl⟩ := Option.map_eq_some_iff.mp h
    exact { hst with kind := fun _ => extractNostrEventKind_lt hkind }
  · obtain ⟨createdAt, hcreatedAt, rfl⟩ := Option.map_eq_some_iff.mp h
    exact { hst with createdAt := fun _ => extractNostrEventCreatedAt_lt hcreatedAt }
  · obtain ⟨sig, hsig, rfl⟩ := Option.map_eq_some_iff.mp h
    exact { hst with sig := fun _ => extractHexField_sound hvalue hsig }
  · obtain ⟨tags, htags, rfl⟩ := Option.map_eq_some_iff.mp h
    exact { hst with tags := fun _ => extractNostrEventTags_sound htags }
  · obtain ⟨content, hcontent, rfl⟩ := Option.map_eq_some_iff.mp h
    exact { hst with content := fun _ => extractNostrEventContent_sound hvalue hcontent }
  · exact Option.some.inj h ▸ hst

theorem extractFields_sound {text : List UInt8} : ∀ {fuel : Nat} {tokens : List Lexeme}
    {st st' : FoundFields × NostrEventEntity}, (∀ l ∈ tokens, l.In text) → Sound st →
      extractFields fuel tokens st = some st' → Sound st' := by
  intro fuel
  induction fuel with
  | zero =>
    intro tokens st st' _ hst h
    rw [extractFields] at h
    · exact Option.some.inj h ▸ hst
    · exact nofun
  | succ fuel ih =>
    intro tokens st st' htokens hst h
    match tokens with
    | [] => exact Option.some.inj h ▸ hst
    | [key] => exact Option.some.inj h ▸ hst
    | key :: value :: tokens =>
      rw [extractFields] at h
      obtain ⟨mid, hfield, h⟩ := Option.bind_eq_some_iff.mp h
      refine ih (fun l hl => htokens l (List.mem_cons_of_mem key (List.mem_of_mem_drop hl))) ?_ h
      exact extractField_sound (htokens value (List.mem_cons_of_mem key List.mem_cons_self)) hst hfield

/-- **An accepted event** has the fields of one. -/
theorem accepted_of_extractNostrEvent {json : List UInt8} {tokens : List JsonToken}
    (htokens : ∀ t ∈ tokens, (t.lexeme json).In json) {event : NostrEventEntity}
    (h : extractNostrEvent json tokens = some event) : Accepted event := by
  rw [extractNostrEvent] at h
  obtain ⟨⟨found, event'⟩, hfields, h⟩ := Option.bind_eq_some_iff.mp h
  have hzero : Sound (FoundFields.none, NostrEventEntity.zero) :=
    ⟨nofun, nofun, nofun, nofun, nofun, nofun, nofun⟩
  have hlexemes : ∀ l ∈ tokens.map (JsonToken.lexeme json), l.In json := by
    intro l hl
    obtain ⟨t, ht, rfl⟩ := List.mem_map.mp hl
    exact htokens t ht
  have hsound := extractFields_sound hlexemes hzero hfields
  simp only [Option.pure_def] at h
  split at h
  · next hall =>
    obtain rfl := Option.some.inj h
    simp only [FoundFields.all, Bool.and_eq_true] at hall
    obtain ⟨⟨⟨⟨⟨⟨hid, hpubkey⟩, hkind⟩, hcreatedAt⟩, hsig⟩, htags⟩, hcontent⟩ := hall
    obtain ⟨hzeroContent, hlength⟩ := hsound.content hcontent
    exact { id := hsound.id hid, pubkey := hsound.pubkey hpubkey, sig := hsound.sig hsig
            kind := hsound.kind hkind, createdAt := hsound.createdAt hcreatedAt
            tagCount := (hsound.tags htags).1, tags := (hsound.tags htags).2
            content := hzeroContent, contentLength := hlength }
  · exact absurd h nofun

end OnionRelay
