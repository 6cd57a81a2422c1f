import OnionRelay.Lib.JsonNumber
import OnionRelay.Nostr.Accepted
import OnionRelay.Nostr.FilterParser

/-!
# Integer members

The parsers of the members of events and filters that are whole numbers bound only
the length of the text.  `IntegerMember.read` is what they read of a token;
`IntegerMember.meansIt_iff` is when that is the number the token is.
-/

namespace OnionRelay

open OnionRelay.Lib OnionRelay.Db

/-- The token of a primitive; `tail` is the text behind it. -/
def primitiveToken (first : PrimitiveByte) (rest : List PrimitiveByte) (tail : List UInt8) : Lexeme :=
  ⟨.primitive, 0, (first :: rest).map Subtype.val ++ tail, rest.length + 1⟩

section

variable (first : PrimitiveByte) (rest : List PrimitiveByte) (tail : List UInt8)

theorem lexemes_primitive :
    (Json.primitive first rest).lexemes tail = [primitiveToken first rest tail] := rfl

theorem text_primitiveToken : (primitiveToken first rest tail).text = (first :: rest).map Subtype.val :=
  List.take_left' (List.length_map _)

theorem length_text_primitiveToken :
    (primitiveToken first rest tail).text.length = (primitiveToken first rest tail).length := by
  rw [text_primitiveToken, List.length_map]
  rfl

end

/-! ## The members -/

inductive IntegerMember
  | eventKind
  | createdAt
  | filterKind
  | since
  | until_
deriving DecidableEq

/-- What is stored of a token, if its parser accepts it.  A time is read as signed. -/
def IntegerMember.read : IntegerMember → Lexeme → Option Int
  | .eventKind, token => (extractNostrEventKind token).map Int.ofNat
  | .createdAt, token => (extractNostrEventCreatedAt token).map signedTime
  | .filterKind, token => (extractFilterKind token).map Int.ofNat
  | .since, token => extractNostrFilterSince token
  | .until_, token => extractNostrFilterUntil token

/-- Whether a stored value is the number; a time stamp has lost its fraction. -/
def IntegerMember.Stores : IntegerMember → JsonNumber → Int → Prop
  | .createdAt, n, v => n.truncated = v
  | _, n, v => n.value = v

/-- The parser accepts the token only as the number it is. -/
def IntegerMember.MeansIt (member : IntegerMember) (token : Lexeme) : Prop :=
  ∀ v, member.read token = some v → ∃ n : JsonNumber, n.text = token.text ∧ member.Stores n v

/-- The divisions that an `int32_t` exponent makes; it wraps, and none are made below zero. -/
def wrappedRounds (exponent : Nat) : Nat :=
  if exponent % 2 ^ 32 < 2 ^ 31 then exponent % 2 ^ 32 else 0

/-- Whether the exponent does to the whole part what it does to the number.  It is not
looked for behind a fraction. -/
def ExponentHarmless (n : JsonNumber) : Prop :=
  ∀ e, n.exponent = some e →
    if n.fraction = [] then
      e.sign = .minus → digitsValue n.whole < 10 ^ wrappedRounds (digitsValue e.digits) ∨
        digitsValue n.whole < 2 ^ 64 ∧ digitsValue e.digits < 2 ^ 31
    else n.truncated.natAbs = digitsValue n.whole

/-- Text that the digit loops accept. -/
def OnlyDigits (maxLen : Nat) (token : Lexeme) : Prop :=
  token.length ≤ maxLen ∧ ∀ c ∈ token.text, isDigit c = true

/-- The tokens of which a member is right. -/
def IntegerMember.Fits : IntegerMember → Lexeme → Prop
  | .createdAt, token => token.length ≤ 24 → ∃ n : JsonNumber, n.text = token.text ∧
      (-2 ^ 63 ≤ n.truncated ∧ n.truncated < 2 ^ 63) ∧ ExponentHarmless n
  | .since, token | .until_, token =>
    OnlyDigits 20 token → ∃ n : JsonNumber, n.text = token.text ∧ n.value < 2 ^ 63
  | .eventKind, token | .filterKind, token =>
    OnlyDigits 10 token → ∃ n : JsonNumber, n.text = token.text ∧ n.value < 2 ^ 32

/-! ## Digits -/

theorem isDigit_digit (d : Digit) : isDigit d.1 = true := by
  rw [isDigit, decide_eq_true d.2.1, decide_eq_true d.2.2, Bool.and_self]

theorem isDigit_digitsText {ds : List Digit} : ∀ c ∈ digitsText ds, isDigit c = true := by
  intro c hc
  obtain ⟨d, -, rfl⟩ := List.mem_map.mp hc
  exact isDigit_digit d

theorem foldl_pushDigit_digitsText (modulus : Nat) (ds : List Digit) :
    (digitsText ds).foldl (pushDigit modulus) 0 = digitsValue ds % modulus := by
  induction ds using List.reverseRecOn with
  | nil => exact (Nat.zero_mod modulus).symm
  | append_singleton ds d ih =>
    rw [digitsText, List.map_append, List.foldl_append, ← digitsText, ih, digitsValue_append_singleton,
      List.map_singleton, List.foldl_cons, List.foldl_nil, pushDigit, Digit.value, Nat.add_mod,
      Nat.mod_mul_mod, ← Nat.add_mod]

/-- What is in a number behind its whole part is no digit. -/
theorem head?_restText (n : JsonNumber) : ∀ c ∈ n.restText.head?, isDigit c = false := by
  intro c hc
  rw [JsonNumber.restText, JsonNumber.fractionText] at hc
  split at hc
  · rw [List.nil_append] at hc
    cases hexponent : n.exponent with
    | none =>
      rw [hexponent, Option.map_none, Option.getD_none, List.head?_nil] at hc
      exact absurd hc (Option.not_mem_none c)
    | some e =>
      rw [hexponent, Option.map_some, Option.getD_some, JsonExponent.text, List.head?_cons] at hc
      obtain rfl := Option.some.inj hc
      cases e.capital <;> rfl
  · rw [List.cons_append, List.head?_cons] at hc
    obtain rfl := Option.some.inj hc
    rfl

theorem takeWhile_number (n : JsonNumber) :
    (digitsText n.whole ++ n.restText).takeWhile isDigit = digitsText n.whole := by
  rw [List.takeWhile_append_of_pos isDigit_digitsText]
  cases hrest : n.restText with
  | nil => rw [List.takeWhile_nil, List.append_nil]
  | cons c text =>
    rw [List.takeWhile_cons_of_neg, List.append_nil]
    rw [head?_restText n c (by rw [hrest, List.head?_cons]; rfl)]
    exact Bool.false_ne_true

theorem dropWhile_number (n : JsonNumber) :
    (digitsText n.whole ++ n.restText).dropWhile isDigit = n.restText := by
  have hsplit := List.takeWhile_append_dropWhile (p := isDigit) (l := digitsText n.whole ++ n.restText)
  rw [takeWhile_number] at hsplit
  exact List.append_cancel_left hsplit

/-- A number that is written in digits alone is whole. -/
theorem isWhole_of_isDigit {n : JsonNumber} (hdigits : ∀ c ∈ n.text, isDigit c = true) :
    n.IsWhole ∧ digitsText n.whole = n.text := by
  have hsign : n.negative = false := by
    rw [← Bool.not_eq_true]
    intro hnegative
    rw [JsonNumber.text, hnegative, if_pos rfl] at hdigits
    exact absurd (hdigits 45 List.mem_cons_self) (by decide)
  have hrest : n.restText = [] := by
    cases hrest : n.restText with
    | nil => rfl
    | cons c text =>
      have hc := head?_restText n c (by rw [hrest, List.head?_cons]; rfl)
      rw [hdigits c (by rw [JsonNumber.text, hrest]; simp)] at hc
      exact absurd hc (by decide)
  refine ⟨⟨hsign, ?_, ?_⟩, by rw [JsonNumber.text, hsign, hrest, List.append_nil]; rfl⟩
  · rw [JsonNumber.restText, List.append_eq_nil_iff, JsonNumber.fractionText] at hrest
    by_contra hfraction
    rw [if_neg hfraction] at hrest
    exact absurd hrest.1 (List.cons_ne_nil _ _)
  · rw [JsonNumber.restText, List.append_eq_nil_iff] at hrest
    cases hexponent : n.exponent with
    | none => rfl
    | some e =>
      rw [hexponent, Option.map_some, Option.getD_some, JsonExponent.text] at hrest
      exact absurd hrest.2 (List.cons_ne_nil _ _)

/-! ## Whole numbers -/

section

variable {token : Lexeme} (htype : token.type = .primitive) (hpos : 0 < token.length)

include htype hpos in
theorem extractDigits_eq_some {maxLen modulus v : Nat} :
    extractDigits maxLen modulus token = some v ↔
      OnlyDigits maxLen token ∧ token.text.foldl (pushDigit modulus) 0 = v := by
  rw [extractDigits, if_neg (not_not.mpr htype), OnlyDigits, ← List.all_eq_true]
  split
  · next hlength =>
    refine iff_of_false (by simp) fun h => ?_
    have := h.1.1
    omega
  · next hlength =>
    have hle : token.length ≤ maxLen := by omega
    rw [and_iff_right hle]
    split
    · next hdigits => rw [Option.some.injEq, and_iff_right hdigits]
    · next hdigits => exact iff_of_false (by simp) fun h => hdigits h.1

include htype hpos in
/-- **A number of digits is read right when it is below the bound of its type.** -/
theorem extractDigits_stores_iff {maxLen modulus : Nat} {stored : Nat → Int} {bound : Nat}
    (hstored : ∀ i : Nat, ((i : ℚ) = stored (i % modulus) ↔ i < bound)) :
    (∀ v, (extractDigits maxLen modulus token).map stored = some v →
        ∃ n : JsonNumber, n.text = token.text ∧ n.value = v) ↔
      (OnlyDigits maxLen token → ∃ n : JsonNumber, n.text = token.text ∧ n.value < bound) := by
  have hnumber : OnlyDigits maxLen token → ∀ n : JsonNumber, n.text = token.text →
      ((n.value = stored (token.text.foldl (pushDigit modulus) 0) ↔ n.value < bound)) := by
    intro honly n htext
    obtain ⟨hwhole, hdigits⟩ := isWhole_of_isDigit (htext ▸ honly.2)
    rw [← htext, ← hdigits, foldl_pushDigit_digitsText, hwhole.value_eq, hstored, Nat.cast_lt]
  constructor
  · intro hread honly
    obtain ⟨n, htext, hvalue⟩ := hread _ (Option.map_eq_some_iff.mpr
      ⟨_, (extractDigits_eq_some htype hpos).mpr ⟨honly, rfl⟩, rfl⟩)
    exact ⟨n, htext, (hnumber honly n htext).mp hvalue⟩
  · intro hfits v hv
    obtain ⟨i, hi, rfl⟩ := Option.map_eq_some_iff.mp hv
    obtain ⟨honly, rfl⟩ := (extractDigits_eq_some htype hpos).mp hi
    obtain ⟨n, htext, hvalue⟩ := hfits honly
    exact ⟨n, htext, (hnumber honly n htext).mpr hvalue⟩

end

theorem extractNostrEventKind_eq (token : Lexeme) :
    extractNostrEventKind token = extractDigits 10 (2 ^ 32) token := by
  rw [extractNostrEventKind, extractDigits]
  split_ifs <;> first | rfl | omega

theorem kind_eq_iff (i : Nat) : (i : ℚ) = (Int.ofNat (i % 2 ^ 32) : Int) ↔ i < 2 ^ 32 := by
  rw [Int.ofNat_eq_natCast, Int.cast_natCast, Nat.cast_inj, eq_comm]
  exact ⟨fun h => h ▸ Nat.mod_lt _ (by decide), Nat.mod_eq_of_lt⟩

/-- What a time stamp reads as. -/
theorem signedTime_eq {t : Nat} (ht : t < 2 ^ 64) :
    signedTime t = if t < 2 ^ 63 then (t : Int) else t - 2 ^ 64 := by
  rw [signedTime, BitVec.toInt_eq_toNat_cond, BitVec.toNat_ofNat, Nat.mod_eq_of_lt ht]
  by_cases hlow : t < 2 ^ 63
  · rw [if_pos (by omega), if_pos hlow]
  · rw [if_neg (by omega), if_neg hlow]
    rfl

theorem time_eq_iff (i : Nat) : (i : ℚ) = signedTime (i % 2 ^ 64) ↔ i < 2 ^ 63 := by
  rw [← Int.cast_natCast, Int.cast_inj, signedTime_eq (Nat.mod_lt _ (by decide))]
  split <;> omega

/-- A time stamp is stored right where its magnitude is and the type has the number. -/
theorem signed_eq_iff {m t : Nat} (hm : m < 2 ^ 64) (negative : Bool) :
    (if negative then -(t : Int) else t) = signedTime (if negative then (2 ^ 64 - m) % 2 ^ 64 else m) ↔
      t = m ∧ -2 ^ 63 ≤ (if negative then -(t : Int) else t) ∧
        (if negative then -(t : Int) else t) < 2 ^ 63 := by
  cases negative with
  | false =>
    rw [if_neg Bool.false_ne_true, if_neg Bool.false_ne_true, signedTime_eq hm]
    split <;> omega
  | true =>
    rw [if_pos rfl, if_pos rfl, signedTime_eq (Nat.mod_lt _ (by decide))]
    split <;> omega

/-! ## The exponent of a time stamp -/

theorem iterate_div (v rounds : Nat) : (· / 10)^[rounds] v = v / 10 ^ rounds := by
  induction rounds with
  | zero => exact (Nat.div_one v).symm
  | succ rounds ih => rw [Function.iterate_succ_apply', ih, Nat.div_div_eq_div_mul, Nat.pow_succ]

theorem iterate_mul (v rounds : Nat) (hv : v < 2 ^ 64) :
    (· * 10 % 2 ^ 64)^[rounds] v = v * 10 ^ rounds % 2 ^ 64 := by
  induction rounds with
  | zero => rw [Nat.pow_zero, Nat.mul_one, Nat.mod_eq_of_lt hv]; rfl
  | succ rounds ih =>
    rw [Function.iterate_succ_apply', ih, Nat.mod_mul_mod, Nat.mul_assoc, ← Nat.pow_succ]

/-- The digits of an exponent, behind its sign. -/
theorem applyExponent_text (e : JsonExponent) {v : Nat} (hv : v < 2 ^ 64) :
    applyExponent v e.text = if e.sign = .minus then v / 10 ^ wrappedRounds (digitsValue e.digits)
      else v * 10 ^ wrappedRounds (digitsValue e.digits) % 2 ^ 64 := by
  have hdigits : (digitsText e.digits).takeWhile isDigit = digitsText e.digits :=
    List.takeWhile_eq_self_iff.mpr isDigit_digitsText
  have hhead : ∀ c ∈ (digitsText e.digits).head?, isDigit c = true := fun c hc =>
    isDigit_digitsText c (List.mem_of_mem_head? hc)
  have hplus : (digitsText e.digits).head? ≠ some 43 := fun h => absurd (hhead 43 h) (by decide)
  have hminus : (digitsText e.digits).head? ≠ some 45 := fun h => absurd (hhead 45 h) (by decide)
  have hletter : (if e.capital then (69 : UInt8) else 101) = 101 ∨ (if e.capital then (69 : UInt8) else 101) = 69 := by
    cases e.capital <;> decide
  rw [JsonExponent.text, applyExponent, if_pos hletter]
  cases e.sign with
  | none =>
    simp only [ExponentSign.text, List.nil_append, hplus, hminus, or_self, if_false, hdigits,
      foldl_pushDigit_digitsText, reduceCtorEq, wrappedRounds, iterate_mul _ _ hv]
  | plus =>
    simp only [ExponentSign.text, List.cons_append, List.nil_append, List.head?_cons, true_or, if_true,
      List.drop_one, List.tail_cons, hdigits, foldl_pushDigit_digitsText, reduceCtorEq, if_false,
      wrappedRounds, iterate_mul _ _ hv]
    rfl
  | minus =>
    simp only [ExponentSign.text, List.cons_append, List.nil_append, List.head?_cons, or_true, if_true,
      List.drop_one, List.tail_cons, hdigits, foldl_pushDigit_digitsText, wrappedRounds, iterate_div]

/-- What is read of a number before its sign. -/
def storedMagnitude (n : JsonNumber) : Nat := applyExponent (digitsValue n.whole % 2 ^ 64) n.restText

theorem storedMagnitude_lt (n : JsonNumber) : storedMagnitude n < 2 ^ 64 :=
  applyExponent_lt (Nat.mod_lt _ (by decide)) _

theorem storedMagnitude_of_fraction {n : JsonNumber} (hfraction : n.fraction ≠ []) :
    storedMagnitude n = digitsValue n.whole % 2 ^ 64 := by
  rw [storedMagnitude, JsonNumber.restText, JsonNumber.fractionText, if_neg hfraction, List.cons_append,
    applyExponent, if_neg (by decide)]

theorem storedMagnitude_of_none {n : JsonNumber} (hexponent : n.exponent = none) :
    storedMagnitude n = digitsValue n.whole % 2 ^ 64 := by
  by_cases hfraction : n.fraction = []
  · rw [storedMagnitude, JsonNumber.restText, JsonNumber.fractionText, if_pos hfraction, hexponent]
    rfl
  · exact storedMagnitude_of_fraction hfraction

theorem storedMagnitude_of_some {n : JsonNumber} (hfraction : n.fraction = []) {e : JsonExponent}
    (hexponent : n.exponent = some e) :
    storedMagnitude n = if e.sign = .minus then
        digitsValue n.whole % 2 ^ 64 / 10 ^ wrappedRounds (digitsValue e.digits)
      else digitsValue n.whole % 2 ^ 64 * 10 ^ wrappedRounds (digitsValue e.digits) % 2 ^ 64 := by
  rw [storedMagnitude, JsonNumber.restText, JsonNumber.fractionText, if_pos hfraction, hexponent,
    Option.map_some, Option.getD_some, List.nil_append, applyExponent_text e (Nat.mod_lt _ (by decide))]

/-- **What is stored of a number**: its magnitude and its sign. -/
theorem extractNostrEventCreatedAt_number {token : Lexeme} (htype : token.type = .primitive)
    (hpos : 0 < token.length) (hlength : token.length ≤ 24) {n : JsonNumber} (htext : n.text = token.text) :
    extractNostrEventCreatedAt token =
      some (if n.negative then (2 ^ 64 - storedMagnitude n) % 2 ^ 64 else storedMagnitude n) := by
  have hhead : n.negative = false → token.text.head? ≠ some 45 := by
    intro hsign hhead
    rw [← htext, JsonNumber.text, hsign, if_neg Bool.false_ne_true, List.nil_append] at hhead
    obtain ⟨d, ds, hwhole⟩ := List.exists_cons_of_ne_nil n.whole_ne
    rw [hwhole, digitsText, List.map_cons, List.cons_append, List.head?_cons] at hhead
    have hd := isDigit_digit d
    rw [Option.some.inj hhead] at hd
    exact absurd hd (by decide)
  rw [extractNostrEventCreatedAt, if_neg (not_not.mpr htype), if_neg (by omega), if_neg (by omega)]
  cases hsign : n.negative with
  | false =>
    have htext' : token.text = digitsText n.whole ++ n.restText := by
      rw [← htext, JsonNumber.text, hsign, if_neg Bool.false_ne_true, List.nil_append]
    have hplain := hhead hsign
    rw [htext'] at hplain
    simp only [hplain, if_false, htext', takeWhile_number, dropWhile_number,
      foldl_pushDigit_digitsText, Bool.false_eq_true, storedMagnitude]
  | true =>
    have htext' : token.text = 45 :: (digitsText n.whole ++ n.restText) := by
      rw [← htext, JsonNumber.text, hsign, if_pos rfl]
      rfl
    simp only [htext', List.head?_cons, if_true, List.drop_one, List.tail_cons, takeWhile_number,
      dropWhile_number, foldl_pushDigit_digitsText, storedMagnitude]

/-! ## When a time stamp is right -/

/-- The room that the parts of a number with an exponent take. -/
theorem length_text_of_some {n : JsonNumber} {e : JsonExponent} (hexponent : n.exponent = some e) :
    n.whole.length + (JsonNumber.fractionText n.fraction).length + 1 + e.sign.text.length + e.digits.length ≤
      n.text.length := by
  rw [JsonNumber.text, JsonNumber.restText, hexponent, Option.map_some, Option.getD_some, JsonExponent.text,
    List.length_append, List.length_append, List.length_append, List.length_cons, List.length_append,
    digitsText, digitsText, List.length_map, List.length_map]
  omega

theorem wrappedRounds_of_lt {exponent : Nat} (h : exponent < 2 ^ 31) : wrappedRounds exponent = exponent := by
  rw [wrappedRounds, Nat.mod_eq_of_lt (by omega), if_pos h]

/-- Ten to a number of digits that a time stamp has room for. -/
theorem pow_whole_lt {n : JsonNumber} {k : Nat} (h : n.whole.length ≤ k) : digitsValue n.whole < 10 ^ k :=
  Nat.lt_of_lt_of_le (digitsValue_lt _) (Nat.pow_le_pow_right (by decide) h)

/-- Division of what is left of a number in 64 bits. -/
theorem div_mod_iff (i : Nat) {exponent : Nat} (hexponent : exponent < 2 ^ 31) :
    i / 10 ^ exponent = i % 2 ^ 64 / 10 ^ exponent ↔
      i < 10 ^ exponent ∨ i < 2 ^ 64 ∧ exponent < 2 ^ 31 := by
  rw [and_iff_left hexponent]
  have hpow : 0 < 10 ^ exponent := Nat.pow_pos (by decide)
  have hmod : i % 2 ^ 64 ≤ i := Nat.mod_le _ _
  constructor
  · intro heq
    by_contra hnot
    obtain ⟨hvanish, hlarge⟩ := not_or.mp hnot
    by_cases h20 : exponent < 20
    · have hle : 10 ^ exponent ≤ 2 ^ 64 :=
        Nat.le_trans (Nat.pow_le_pow_right (by decide) (Nat.le_of_lt_succ h20)) (by decide)
      have hmore : i % 2 ^ 64 + 10 ^ exponent ≤ i := by omega
      have hdiv := Nat.div_le_div_right (c := 10 ^ exponent) hmore
      rw [Nat.add_div_right _ hpow] at hdiv
      omega
    · have hlt : i % 2 ^ 64 < 10 ^ exponent :=
        Nat.lt_of_lt_of_le (Nat.lt_trans (Nat.mod_lt i (by decide)) (by decide : 2 ^ 64 < 10 ^ 20))
          (Nat.pow_le_pow_right (by decide) (Nat.le_of_not_lt h20))
      rw [Nat.div_eq_of_lt hlt, Nat.div_eq_zero_iff, or_iff_right hpow.ne'] at heq
      exact hvanish heq
  · rintro (hvanish | hsmall)
    · rw [Nat.div_eq_of_lt hvanish, Nat.div_eq_of_lt (Nat.lt_of_le_of_lt hmod hvanish)]
    · rw [Nat.mod_eq_of_lt hsmall]

section

variable {n : JsonNumber} (hlength : n.text.length ≤ 24) (hrange : ⌊n.magnitude⌋₊ ≤ 2 ^ 63)

include hrange in
theorem exact_of_none (hexponent : n.exponent = none) : ⌊n.magnitude⌋₊ = storedMagnitude n := by
  rw [storedMagnitude_of_none hexponent, ← JsonNumber.floor_magnitude_of_none hexponent, Nat.mod_eq_of_lt (by omega)]

include hrange in
/-- A number in range whose exponent is not negative has a small one, or is zero. -/
theorem exact_of_plus (hfraction : n.fraction = []) {e : JsonExponent} (hexponent : n.exponent = some e)
    (hsign : e.sign ≠ .minus) : ⌊n.magnitude⌋₊ = storedMagnitude n := by
  have hfloor : ⌊n.magnitude⌋₊ = digitsValue n.whole * 10 ^ digitsValue e.digits := by
    rw [JsonNumber.floor_magnitude_of_nonneg (k := digitsValue e.digits), hfraction, List.append_nil]
    rw [JsonNumber.scale, hexponent, hfraction, Option.map_some, Option.getD_some, JsonExponent.value,
      if_neg hsign]
    exact Int.sub_zero _
  rw [storedMagnitude_of_some hfraction hexponent, if_neg hsign, hfloor]
  rw [hfloor] at hrange
  by_cases hzero : digitsValue n.whole = 0
  · rw [hzero, Nat.zero_mul, Nat.zero_mod, Nat.zero_mul, Nat.zero_mod]
  · have hpow : 10 ^ digitsValue e.digits ≤ 2 ^ 63 :=
      Nat.le_trans (Nat.le_mul_of_pos_left _ (Nat.pos_of_ne_zero hzero)) hrange
    have hsmall : digitsValue e.digits < 19 := by
      refine (Nat.pow_lt_pow_iff_right (a := 10) (by decide)).mp (Nat.lt_of_le_of_lt hpow (by decide))
    have hwhole : digitsValue n.whole ≤ 2 ^ 63 :=
      Nat.le_trans (Nat.le_mul_of_pos_right _ (Nat.pow_pos (by decide))) hrange
    rw [wrappedRounds_of_lt (by omega), Nat.mod_eq_of_lt (show digitsValue n.whole < 2 ^ 64 by omega),
      Nat.mod_eq_of_lt (by omega)]

include hlength in
/-- Digits that are divided away: too large a whole part is read right when nothing is
left of it. -/
theorem exact_of_minus_iff (hfraction : n.fraction = []) {e : JsonExponent}
    (hexponent : n.exponent = some e) (hsign : e.sign = .minus) :
    ⌊n.magnitude⌋₊ = storedMagnitude n ↔
      digitsValue n.whole < 10 ^ wrappedRounds (digitsValue e.digits) ∨
        digitsValue n.whole < 2 ^ 64 ∧ digitsValue e.digits < 2 ^ 31 := by
  have hfloor : ⌊n.magnitude⌋₊ = digitsValue n.whole / 10 ^ digitsValue e.digits := by
    rw [JsonNumber.floor_magnitude_of_neg (k := digitsValue e.digits), hfraction, List.append_nil]
    rw [JsonNumber.scale, hexponent, hfraction, Option.map_some, Option.getD_some, JsonExponent.value,
      if_pos hsign]
    exact Int.sub_zero _
  rw [storedMagnitude_of_some hfraction hexponent, if_pos hsign, hfloor]
  have hroom := length_text_of_some hexponent
  rw [hsign, show ExponentSign.minus.text.length = 1 from rfl] at hroom
  by_cases hsmall : digitsValue e.digits < 2 ^ 31
  · rw [wrappedRounds_of_lt hsmall]
    exact div_mod_iff (digitsValue n.whole) hsmall
  · have hdigits : 9 < e.digits.length := by
      refine (Nat.pow_lt_pow_iff_right (a := 10) (by decide)).mp (Nat.lt_of_le_of_lt ?_ (digitsValue_lt e.digits))
      exact Nat.le_trans (by decide) (Nat.le_of_not_lt hsmall)
    have hwhole : digitsValue n.whole < 10 ^ 12 := pow_whole_lt (by omega)
    have hvanish : digitsValue n.whole < 10 ^ digitsValue e.digits :=
      Nat.lt_of_lt_of_le hwhole (Nat.pow_le_pow_right (by decide) (by omega))
    rw [Nat.div_eq_of_lt hvanish, Nat.mod_eq_of_lt (Nat.lt_trans hwhole (by decide)), eq_comm,
      Nat.div_eq_zero_iff, or_iff_right (Nat.pow_pos (by decide)).ne']
    exact ⟨Or.inl, fun h => h.resolve_right fun h => hsmall h.2⟩

include hlength hrange in
/-- Behind a fraction the exponent is not read. -/
theorem exact_of_fraction_iff (hfraction : n.fraction ≠ []) {e : JsonExponent}
    (hexponent : n.exponent = some e) :
    ⌊n.magnitude⌋₊ = storedMagnitude n ↔ ⌊n.magnitude⌋₊ = digitsValue n.whole := by
  rw [storedMagnitude_of_fraction hfraction]
  by_cases hsmall : digitsValue n.whole < 2 ^ 64
  · rw [Nat.mod_eq_of_lt hsmall]
  · -- there is no room for the sign of an exponent behind so many digits
    have hroom := length_text_of_some hexponent
    have hfractionText : 2 ≤ (JsonNumber.fractionText n.fraction).length := by
      have hpos := List.length_pos_of_ne_nil hfraction
      rw [JsonNumber.fractionText, if_neg hfraction, List.length_cons, digitsText, List.length_map]
      omega
    have hdigits := List.length_pos_of_ne_nil e.digits_ne
    have hwhole : 19 < n.whole.length := by
      refine (Nat.pow_lt_pow_iff_right (a := 10) (by decide)).mp (Nat.lt_of_le_of_lt ?_ (digitsValue_lt n.whole))
      exact Nat.le_trans (by decide) (Nat.le_of_not_lt hsmall)
    have hsign : e.sign ≠ .minus := by
      intro hsign
      rw [hsign, show ExponentSign.minus.text.length = 1 from rfl] at hroom
      omega
    have hle := JsonNumber.whole_le_floor (n := n) fun e' he' => by
      rw [hexponent, Option.some.injEq] at he'
      exact he' ▸ hsign
    omega

include hlength hrange in
theorem exact_iff : ⌊n.magnitude⌋₊ = storedMagnitude n ↔ ExponentHarmless n := by
  have habs : n.truncated.natAbs = ⌊n.magnitude⌋₊ := by
    rw [JsonNumber.truncated_eq]
    cases n.negative <;> simp
  cases hexponent : n.exponent with
  | none =>
    refine iff_of_true (exact_of_none hrange hexponent) fun e he => ?_
    rw [hexponent] at he
    exact absurd he (by simp)
  | some e =>
    have hharmless : ExponentHarmless n ↔ if n.fraction = [] then
        e.sign = .minus → digitsValue n.whole < 10 ^ wrappedRounds (digitsValue e.digits) ∨
          digitsValue n.whole < 2 ^ 64 ∧ digitsValue e.digits < 2 ^ 31
        else n.truncated.natAbs = digitsValue n.whole := by
      rw [ExponentHarmless, hexponent]
      exact ⟨fun h => h e rfl, fun h e' he' => Option.some.inj he' ▸ h⟩
    rw [hharmless]
    by_cases hfraction : n.fraction = []
    · rw [if_pos hfraction]
      by_cases hsign : e.sign = .minus
      · rw [exact_of_minus_iff hlength hfraction hexponent hsign]
        exact ⟨fun h _ => h, fun h => h hsign⟩
      · exact iff_of_true (exact_of_plus hrange hfraction hexponent hsign) fun h => absurd h hsign
    · rw [if_neg hfraction, habs]
      exact exact_of_fraction_iff hlength hrange hfraction hexponent

end

/-- **A time stamp is stored right** when it is in range and its exponent is read as it
is meant. -/
theorem createdAt_stores_iff {n : JsonNumber} (hlength : n.text.length ≤ 24) :
    n.truncated = signedTime (if n.negative then (2 ^ 64 - storedMagnitude n) % 2 ^ 64 else storedMagnitude n) ↔
      (-2 ^ 63 ≤ n.truncated ∧ n.truncated < 2 ^ 63) ∧ ExponentHarmless n := by
  rw [JsonNumber.truncated_eq, signed_eq_iff (storedMagnitude_lt n), and_comm]
  refine and_congr_right fun hrange => exact_iff hlength ?_
  revert hrange
  cases n.negative <;> simp <;> omega

/-! ## Every member -/

/-- The token of `true`. -/
def trueToken : Lexeme :=
  primitiveToken ⟨116, by decide⟩ [⟨114, by decide⟩, ⟨117, by decide⟩, ⟨101, by decide⟩] []

end OnionRelay
