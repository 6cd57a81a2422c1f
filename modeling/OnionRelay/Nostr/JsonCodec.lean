import Mathlib.Data.List.TakeWhile
import OnionRelay.Nostr.EventParser
import OnionRelay.Nostr.Response

/-!
# Escapes and numbers, there and back

`decode_json_string` takes a string apart character by character
(`decodeJsonString_stringText`), undoes what `safe_copy_json_escaped` does
(`decodeJsonString_jsonEscape`), and what the relay escapes anew is no longer than what
the client sent (`length_jsonEscape_decoded`).  Numbers are read back from the digits
written for them, except for the least time stamp, for which no digits are written
(`createdAt_of_int64Text`).
-/

namespace OnionRelay

open OnionRelay.Lib OnionRelay.Db

/-! ## Strings -/

theorem isHexDigit_hexDigit : ∀ v : Fin 16, isHexDigit (hexDigit (UInt8.ofNat v)) = true := by decide

theorem isHexDigit_nibbles (c : UInt8) : isHexDigit (hexDigit ((c >>> 4) &&& 0x0F)) = true ∧
    isHexDigit (hexDigit (c &&& 0x0F)) = true := by
  obtain ⟨h, l, hhigh, hlow, -⟩ := nibbles_split c
  rw [hhigh, hlow]
  exact ⟨isHexDigit_hexDigit h, isHexDigit_hexDigit l⟩

/-- The character of a string that stands for the byte. -/
def jsonChar (c : UInt8) : JsonChar :=
  if c = 34 then .escape ⟨34, by decide⟩
  else if c = 92 then .escape ⟨92, by decide⟩
  else if c = 8 then .escape ⟨98, by decide⟩
  else if c = 12 then .escape ⟨102, by decide⟩
  else if c = 10 then .escape ⟨110, by decide⟩
  else if c = 13 then .escape ⟨114, by decide⟩
  else if c = 9 then .escape ⟨116, by decide⟩
  else if h : 32 ≤ c ∧ c ≠ 34 ∧ c ≠ 92 then .plain ⟨c, h⟩
  else
    .unicode ⟨48, rfl⟩ ⟨48, rfl⟩ ⟨_, (isHexDigit_nibbles c).1⟩ ⟨_, (isHexDigit_nibbles c).2⟩

theorem text_jsonChar : ∀ c : UInt8, (jsonChar c).text = escapeChar c :=
  forall_uint8 (by decide +kernel)

def jsonString (s : CStr) : List JsonChar := s.map jsonChar

@[simp] theorem stringText_jsonString (s : CStr) : stringText (jsonString s) = jsonEscape s := by
  rw [stringText, jsonString, List.flatMap_map, jsonEscape]
  simp only [text_jsonChar]

/-! ## Decoding -/

/-- What a character stands for. -/
def charValue : JsonChar → List UInt8
  | .plain b => [b.1]
  | .escape letter => [(simpleEscape letter.1).getD 0]
  | .unicode h₁ h₂ h₃ h₄ =>
    utf8Bytes (((hexCharVal h₁.1).getD 0 <<< 12) ||| ((hexCharVal h₂.1).getD 0 <<< 8) |||
      ((hexCharVal h₃.1).getD 0 <<< 4) ||| (hexCharVal h₄.1).getD 0)

theorem charValue_jsonChar : ∀ c : UInt8, charValue (jsonChar c) = [c] :=
  forall_uint8 (by decide +kernel)

theorem hexCharVal_of_isHexDigit : ∀ c : UInt8, isHexDigit c = true →
    hexCharVal c = some ((hexCharVal c).getD 0) :=
  forall_uint8 (by decide +kernel)

theorem simpleEscape_of_letter (c : UInt8) (h : c ∈ [34, 92, 47, 98, 102, 110, 114, 116]) :
    simpleEscape c = some ((simpleEscape c).getD 0) := by
  simp only [List.mem_cons, List.not_mem_nil, or_false] at h
  rcases h with rfl | rfl | rfl | rfl | rfl | rfl | rfl | rfl <;> rfl

theorem length_utf8Bytes (codepoint : Nat) :
    1 ≤ (utf8Bytes codepoint).length ∧ (utf8Bytes codepoint).length ≤ 3 := by
  rw [utf8Bytes]
  split
  · exact ⟨Nat.le_refl 1, by simp⟩
  split
  · exact ⟨by simp, by simp⟩
  · exact ⟨by simp, by simp⟩

theorem length_charValue (c : JsonChar) :
    1 ≤ (charValue c).length ∧ (charValue c).length ≤ c.text.length := by
  cases c with
  | plain b => exact ⟨Nat.le_refl 1, Nat.le_refl 1⟩
  | escape letter => exact ⟨Nat.le_refl 1, by simp [charValue, JsonChar.text]⟩
  | unicode h₁ h₂ h₃ h₄ =>
    obtain ⟨hlow, hhigh⟩ := length_utf8Bytes (((hexCharVal h₁.1).getD 0 <<< 12) |||
      ((hexCharVal h₂.1).getD 0 <<< 8) ||| ((hexCharVal h₃.1).getD 0 <<< 4) ||| (hexCharVal h₄.1).getD 0)
    refine ⟨hlow, Nat.le_trans hhigh ?_⟩
    simp [JsonChar.text]

/-- One round of the decoder takes one character. -/
theorem decodeStep_text (c : JsonChar) (rest : List UInt8) {room : Nat} (hroom : (charValue c).length ≤ room) :
    decodeStep (c.text ++ rest) room = (charValue c, rest) := by
  cases c with
  | plain b =>
    have hne : b.1 ≠ 92 := b.2.2.2
    cases rest with
    | nil => rfl
    | cons next rest => exact if_neg hne
  | escape letter =>
    rw [JsonChar.text, List.cons_append, List.cons_append, List.nil_append, decodeStep, if_pos rfl,
      simpleEscape_of_letter letter.1 letter.2]
    rfl
  | unicode h₁ h₂ h₃ h₄ =>
    simp only [JsonChar.text, List.cons_append, List.nil_append, decodeStep]
    rw [show simpleEscape 117 = none from rfl]
    simp only [decodeUnicode]
    rw [hexCharVal_of_isHexDigit h₁.1 h₁.2, hexCharVal_of_isHexDigit h₂.1 h₂.2,
      hexCharVal_of_isHexDigit h₃.1 h₃.2, hexCharVal_of_isHexDigit h₄.1 h₄.2]
    exact congrArg (·, rest) (if_pos hroom)

/-- What is decoded of a string in front of other text. -/
theorem decodeJsonString_append (rest : List UInt8) : ∀ {s : List JsonChar} {fuel room : Nat},
    (stringText s ++ rest).length ≤ fuel → (s.flatMap charValue).length ≤ room →
      ∃ fuel', rest.length ≤ fuel' ∧ decodeJsonString fuel (stringText s ++ rest) room =
        s.flatMap charValue ++ decodeJsonString fuel' rest (room - (s.flatMap charValue).length) := by
  intro s
  induction s with
  | nil =>
    intro fuel room hfuel _
    exact ⟨fuel, hfuel, rfl⟩
  | cons c s ih =>
    intro fuel room hfuel hroom
    obtain ⟨hlow, hhigh⟩ := length_charValue c
    rw [List.flatMap_cons, List.length_append] at hroom
    rw [stringText_cons, List.append_assoc, List.length_append] at hfuel
    obtain ⟨fuel, rfl⟩ : ∃ f, fuel = f + 1 := ⟨fuel - 1, by omega⟩
    have hne : ¬ (c.text ++ (stringText s ++ rest) = [] ∨ room = 0) := by
      rintro (hnil | hzero)
      · have hlen := congrArg List.length hnil
        rw [List.length_append, List.length_nil] at hlen
        omega
      · omega
    obtain ⟨fuel', hfuel', hdecode⟩ :=
      @ih fuel (room - (charValue c).length) (by omega) (by omega)
    refine ⟨fuel', hfuel', ?_⟩
    rw [stringText_cons, List.append_assoc, decodeJsonString, if_neg hne, decodeStep_text c _ (by omega)]
    dsimp only
    rw [hdecode, List.flatMap_cons, List.append_assoc, List.length_append, Nat.sub_sub]

theorem length_flatMap_charValue (s : List JsonChar) :
    (s.flatMap charValue).length ≤ (stringText s).length := by
  induction s with
  | nil => exact Nat.le_refl 0
  | cons c s ih =>
    obtain ⟨-, hhigh⟩ := length_charValue c
    rw [List.flatMap_cons, stringText_cons, List.length_append, List.length_append]
    omega

theorem decodeJsonString_nil (fuel room : Nat) : decodeJsonString fuel [] room = [] := by
  cases fuel with
  | zero => rfl
  | succ fuel => exact if_pos (.inl rfl)

/-- **A string is decoded character by character.** -/
theorem decodeJsonString_chars {s : List JsonChar} {fuel room : Nat} (hfuel : (stringText s).length ≤ fuel)
    (hroom : (s.flatMap charValue).length ≤ room) :
    decodeJsonString fuel (stringText s) room = s.flatMap charValue := by
  have hwhole := @decodeJsonString_append [] s fuel room
  rw [List.append_nil] at hwhole
  obtain ⟨fuel', -, hdecode⟩ := hwhole hfuel hroom
  rw [hdecode, decodeJsonString_nil, List.append_nil]

theorem decodeJsonString_stringText {s : List JsonChar} {fuel room : Nat} (hfuel : (stringText s).length ≤ fuel)
    (hroom : (stringText s).length ≤ room) : decodeJsonString fuel (stringText s) room = s.flatMap charValue :=
  decodeJsonString_chars hfuel (Nat.le_trans (length_flatMap_charValue s) hroom)

theorem flatMap_charValue_jsonString (s : CStr) : (jsonString s).flatMap charValue = s := by
  rw [jsonString, List.flatMap_map]
  simp only [charValue_jsonChar, List.flatMap_singleton']

/-- An escaped string is decoded to what it was. -/
theorem decodeJsonString_jsonEscape {s : CStr} {room : Nat} (hroom : (jsonEscape s).length ≤ room) :
    decodeJsonString (jsonEscape s).length (jsonEscape s) room = s := by
  have hdecode := @decodeJsonString_stringText (jsonString s) (jsonEscape s).length room
  rw [stringText_jsonString] at hdecode
  rw [hdecode (Nat.le_refl _) hroom, flatMap_charValue_jsonString]

/-! ## Lengths -/

theorem escapeCharLen_of_plain (c : UInt8) (h : 32 ≤ c ∧ c ≠ 34 ∧ c ≠ 92) : escapeCharLen c = 1 := by
  obtain ⟨hlow, hquote, hslash⟩ := h
  rw [escapeCharLen, if_neg, if_neg (UInt8.not_lt.mpr hlow)]
  rintro (rfl | rfl | rfl | rfl | rfl | rfl | rfl)
  · exact hquote rfl
  · exact hslash rfl
  all_goals exact absurd hlow (by decide)

theorem escapeCharLen_simpleEscape (c : UInt8) (h : c ∈ [34, 92, 47, 98, 102, 110, 114, 116]) :
    escapeCharLen ((simpleEscape c).getD 0) ≤ 2 := by
  simp only [List.mem_cons, List.not_mem_nil, or_false] at h
  rcases h with rfl | rfl | rfl | rfl | rfl | rfl | rfl | rfl <;> decide

/-- The bytes of a code point that is not ASCII have no escape. -/
theorem escapeCharLen_high {n : Nat} (hlow : 0x80 ≤ n) (hhigh : n < 256) :
    escapeCharLen (UInt8.ofNat n) = 1 := by
  have hle : (0x80 : UInt8) ≤ UInt8.ofNat n := by
    rw [UInt8.le_iff_toNat_le, UInt8.toNat_ofNat_of_lt' (by simpa using hhigh)]
    exact hlow
  refine escapeCharLen_of_plain _ ⟨UInt8.le_trans (by decide : (32 : UInt8) ≤ 0x80) hle, ?_, ?_⟩
  · intro heq
    rw [heq] at hle
    exact absurd hle (by decide)
  · intro heq
    rw [heq] at hle
    exact absurd hle (by decide)

theorem length_jsonEscape (s : CStr) : (jsonEscape s).length = (s.map escapeCharLen).sum := by
  induction s with
  | nil => rfl
  | cons c s ih => rw [jsonEscape_cons, List.length_append, length_escapeChar, ih, List.map_cons,
      List.sum_cons]

theorem length_jsonEscape_utf8Bytes {codepoint : Nat} (hlt : codepoint < 2 ^ 16) :
    (jsonEscape (utf8Bytes codepoint)).length ≤ 6 := by
  have hcont : ∀ n : Nat, escapeCharLen (UInt8.ofNat (0x80 ||| (n &&& 0x3F))) = 1 := fun n =>
    escapeCharLen_high Nat.left_le_or
      (Nat.or_lt_two_pow (n := 8) (by decide) (Nat.and_le_right.trans_lt (by decide)))
  rw [length_jsonEscape, utf8Bytes]
  split
  · simpa using (escapeCharLen_bounds (UInt8.ofNat codepoint)).2
  split
  · have hlead : escapeCharLen (UInt8.ofNat (0xC0 ||| (codepoint >>> 6))) = 1 :=
      escapeCharLen_high ((by decide : 0x80 ≤ 0xC0).trans Nat.left_le_or)
        (Nat.or_lt_two_pow (n := 8) (by decide) (by rw [Nat.shiftRight_eq_div_pow]; omega))
    simp only [List.map_cons, List.map_nil, List.sum_cons, List.sum_nil, hlead, hcont]
    decide
  · have hlead : escapeCharLen (UInt8.ofNat (0xE0 ||| (codepoint >>> 12))) = 1 :=
      escapeCharLen_high ((by decide : 0x80 ≤ 0xE0).trans Nat.left_le_or)
        (Nat.or_lt_two_pow (n := 8) (by decide) (by rw [Nat.shiftRight_eq_div_pow]; omega))
    simp only [List.map_cons, List.map_nil, List.sum_cons, List.sum_nil, hlead, hcont]
    decide

theorem hexCharVal_lt : ∀ c : UInt8, (hexCharVal c).getD 0 < 16 := forall_uint8 (by decide +kernel)

/-- **No escape of the relay is longer than the client's.** -/
theorem length_jsonEscape_charValue (c : JsonChar) :
    (jsonEscape (charValue c)).length ≤ c.text.length := by
  cases c with
  | plain b =>
    rw [length_jsonEscape]
    simpa [charValue, JsonChar.text] using (escapeCharLen_of_plain b.1 b.2).le
  | escape letter =>
    rw [length_jsonEscape]
    simpa [charValue, JsonChar.text] using escapeCharLen_simpleEscape letter.1 letter.2
  | unicode h₁ h₂ h₃ h₄ =>
    refine length_jsonEscape_utf8Bytes ?_
    have hshift : ∀ {v k : Nat}, v < 16 → k ≤ 12 → v <<< k < 2 ^ 16 := by
      intro v k hv hk
      rw [Nat.shiftLeft_eq]
      calc v * 2 ^ k < 2 ^ 4 * 2 ^ k := Nat.mul_lt_mul_of_pos_right hv (Nat.two_pow_pos k)
        _ = 2 ^ (4 + k) := (Nat.pow_add 2 4 k).symm
        _ ≤ 2 ^ 16 := Nat.pow_le_pow_right (by decide) (by omega)
    refine Nat.or_lt_two_pow (Nat.or_lt_two_pow (Nat.or_lt_two_pow ?_ ?_) ?_) ?_
    · exact hshift (hexCharVal_lt _) (by decide)
    · exact hshift (hexCharVal_lt _) (by decide)
    · exact hshift (hexCharVal_lt _) (by decide)
    · exact Nat.lt_trans (hexCharVal_lt _) (by decide)

theorem length_jsonEscape_decoded (s : List JsonChar) :
    (jsonEscape (cstr (s.flatMap charValue))).length ≤ (stringText s).length := by
  have hwhole : ∀ s : List JsonChar, (jsonEscape (s.flatMap charValue)).length ≤ (stringText s).length := by
    intro s
    induction s with
    | nil => exact Nat.le_refl 0
    | cons c s ih =>
      have hfirst := length_jsonEscape_charValue c
      rw [List.flatMap_cons, jsonEscape_append, stringText_cons, List.length_append, List.length_append]
      omega
  refine Nat.le_trans ?_ (hwhole s)
  conv_rhs => rw [← List.takeWhile_append_dropWhile (p := (· ≠ 0)) (l := s.flatMap charValue)]
  rw [jsonEscape_append, List.length_append]
  exact Nat.le_add_right _ _

/-! ## Numbers -/

theorem toNat_digit {d : Nat} (h : d < 10) : (UInt8.ofNat (48 + d)).toNat = 48 + d := by
  rw [UInt8.toNat_ofNat']
  exact Nat.mod_eq_of_lt (by omega)

theorem decimalText_ne_nil (n : Nat) : decimalText n ≠ [] := by
  rw [decimalText]
  split
  · simp
  · next hne =>
    simpa using Nat.digits_ne_nil_iff_ne_zero.mpr hne

theorem isDigit_decimalText {n : Nat} : ∀ c ∈ decimalText n, isDigit c = true := by
  intro c hc
  rw [decimalText] at hc
  split at hc
  · obtain rfl := List.mem_singleton.mp hc
    rfl
  · obtain ⟨d, hd, rfl⟩ := List.mem_map.mp hc
    have hlt : d < 10 := Nat.digits_lt_base (by decide) (List.mem_reverse.mp hd)
    interval_cases d <;> rfl

theorem length_decimalText {n k : Nat} (hk : 0 < k) (hn : n < 10 ^ k) : (decimalText n).length ≤ k := by
  rw [decimalText]
  split
  · exact hk
  · rw [List.length_map, List.length_reverse]
    exact (Nat.digits_length_le_iff (by decide) n).mpr hn

/-- The digits are read back. -/
theorem foldl_decimalText {n modulus : Nat} (hn : n < modulus) :
    (decimalText n).foldl (pushDigit modulus) 0 = n := by
  rw [decimalText]
  split
  · next hzero =>
    subst hzero
    simp [pushDigit]
  · have hdigits : ∀ ds : List Nat, (∀ d ∈ ds, d < 10) →
        (ds.reverse.map fun d => UInt8.ofNat (48 + d)).foldl (pushDigit modulus) 0 =
          Nat.ofDigits 10 ds % modulus := by
      intro ds
      induction ds with
      | nil => exact fun _ => (Nat.zero_mod modulus).symm
      | cons d ds ih =>
        intro hds
        have hd := toNat_digit (hds d List.mem_cons_self)
        rw [List.reverse_cons, List.map_append, List.foldl_append,
          ih fun d' hd' => hds d' (List.mem_cons_of_mem d hd'), List.map_cons, List.map_nil,
          List.foldl_cons, List.foldl_nil, pushDigit, hd, Nat.ofDigits_cons, Nat.add_sub_cancel_left]
        rw [Nat.add_mod, Nat.mod_mul_mod, ← Nat.add_mod]
        congr 1
        omega
    rw [hdigits _ fun d hd => Nat.digits_lt_base (by decide) hd, Nat.ofDigits_digits,
      Nat.mod_eq_of_lt hn]

theorem kind_of_decimalText {n : Nat} (hn : n < 2 ^ 32) {token : Lexeme}
    (htype : token.type = .primitive) (htext : token.text = decimalText n)
    (hlength : token.length = (decimalText n).length) : extractNostrEventKind token = some n := by
  have hle : (decimalText n).length ≤ 10 :=
    length_decimalText (by decide) (Nat.lt_trans hn (by decide))
  have hpos := List.length_pos_of_ne_nil (decimalText_ne_nil n)
  rw [extractNostrEventKind, if_neg (by simp [htype]), if_neg (by omega), if_neg (by omega), htext,
    if_pos (List.all_eq_true.mpr isDigit_decimalText), foldl_decimalText hn]

theorem int64Text_ne_nil (bits : Nat) : int64Text bits ≠ [] := by
  rw [int64Text]
  split
  · exact decimalText_ne_nil bits
  split
  · simp
  · simp

theorem length_int64Text {bits : Nat} (hbits : bits < 2 ^ 64) : (int64Text bits).length ≤ 24 := by
  have hdigits : ∀ n < 2 ^ 64, (decimalText n).length ≤ 20 := fun n hn =>
    length_decimalText (by decide) (Nat.lt_trans hn (by decide))
  rw [int64Text]
  split
  · exact Nat.le_trans (hdigits bits hbits) (by decide)
  split
  · simp
  · have hlen := hdigits (2 ^ 64 - bits) (by omega)
    rw [List.length_cons]
    omega

theorem head?_decimalText (n : Nat) : (decimalText n).head? ≠ some 45 := by
  intro hhead
  have hdigit := isDigit_decimalText _ (List.mem_of_mem_head? hhead)
  exact absurd hdigit (by decide)

/-- **A time stamp is read back**, but for the one whose digits are not written. -/
theorem createdAt_of_int64Text {bits : Nat} (hbits : bits < 2 ^ 64) {token : Lexeme}
    (htype : token.type = .primitive) (htext : token.text = int64Text bits)
    (hlength : token.length = (int64Text bits).length) :
    extractNostrEventCreatedAt token = some (if bits = 2 ^ 63 then 0 else bits) := by
  have hle := length_int64Text hbits
  have hpos := List.length_pos_of_ne_nil (int64Text_ne_nil bits)
  have htake : ∀ n, (decimalText n).takeWhile isDigit = decimalText n := fun n =>
    List.takeWhile_eq_self_iff.mpr fun c hc => isDigit_decimalText c hc
  have hdrop : ∀ n, (decimalText n).dropWhile isDigit = [] := fun n =>
    List.dropWhile_eq_nil_iff.mpr fun c hc => isDigit_decimalText c hc
  rw [extractNostrEventCreatedAt, if_neg (by simp [htype]), if_neg (by omega), if_neg (by omega), htext,
    int64Text]
  by_cases hlow : bits < 2 ^ 63
  · rw [if_pos hlow, if_neg (show bits ≠ 2 ^ 63 by omega)]
    simp only [head?_decimalText, if_false, htake, hdrop, applyExponent, foldl_decimalText hbits]
  · rw [if_neg hlow]
    by_cases hleast : bits = 2 ^ 63
    · rw [if_pos hleast, if_pos hleast]
      rfl
    · rw [if_neg hleast, if_neg hleast]
      simp only [List.head?_cons, if_true, List.drop_one, List.tail_cons, htake, hdrop,
        applyExponent, foldl_decimalText (show 2 ^ 64 - bits < 2 ^ 64 by omega)]
      rw [Nat.mod_eq_of_lt (by omega)]
      congr 1
      omega

end OnionRelay
