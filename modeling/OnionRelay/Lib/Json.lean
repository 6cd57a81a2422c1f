import Mathlib.Data.List.Basic
import Mathlib.Tactic.Common

/-!
# JSON texts and their tokens

`Json` is the concrete syntax of a JSON text: strings keep their escapes, and the
blanks between the tokens are part of it.  Any unquoted run of printable characters
is a primitive, of which the numbers and the three literals are the ones JSON knows.

A token says where in the text a value stands.  `Lexeme` is the same token seen from
the text: what the text is from the start of the token on.  A tokenizer is right about
a text when it finds the tokens of `JsonText.tokens` (`JsonText.map_lexeme_tokens`).
-/

namespace OnionRelay.Lib

/-! ## Strings -/

/-- A byte that stands for itself in a string. -/
abbrev PlainByte := { b : UInt8 // 32 ≤ b ∧ b ≠ 34 ∧ b ≠ 92 }

/-- The letter of an escape of two characters. -/
abbrev EscapeLetter := { b : UInt8 // b ∈ [34, 92, 47, 98, 102, 110, 114, 116] }

def isHexDigit (b : UInt8) : Bool :=
  (48 ≤ b && b ≤ 57) || (97 ≤ b && b ≤ 102) || (65 ≤ b && b ≤ 70)

abbrev HexByte := { b : UInt8 // isHexDigit b = true }

inductive JsonChar
  | plain (b : PlainByte)
  | escape (letter : EscapeLetter)
  | unicode (h₁ h₂ h₃ h₄ : HexByte)

namespace JsonChar

def text : JsonChar → List UInt8
  | .plain b => [b.1]
  | .escape letter => [92, letter.1]
  | .unicode h₁ h₂ h₃ h₄ => [92, 117, h₁.1, h₂.1, h₃.1, h₄.1]

end JsonChar

/-- What stands between the quotes. -/
def stringText (s : List JsonChar) : List UInt8 := s.flatMap JsonChar.text

@[simp] theorem stringText_nil : stringText [] = [] := rfl

@[simp] theorem stringText_cons (c : JsonChar) (s : List JsonChar) :
    stringText (c :: s) = c.text ++ stringText s := List.flatMap_cons

@[simp] theorem stringText_append (s s' : List JsonChar) :
    stringText (s ++ s') = stringText s ++ stringText s' := List.flatMap_append

/-! ## Values -/

/-- A byte of a primitive: printable, and neither a quote, a bracket, a comma nor a
colon. -/
abbrev PrimitiveByte :=
  { b : UInt8 // 33 ≤ b ∧ b ≤ 126 ∧ b ∉ [34, 44, 58, 91, 93, 123, 125] }

abbrev Blank := { b : UInt8 // b ∈ [9, 10, 13, 32] }

mutual

inductive Json
  | primitive (first : PrimitiveByte) (rest : List PrimitiveByte)
  | string (s : List JsonChar)
  | array (blanks : List Blank) (items : Items)
  | object (blanks : List Blank) (members : Members)

inductive Items
  | nil
  | cons (before : List Blank) (value : Json) (behind : List Blank) (rest : Items)

inductive Members
  | nil
  | cons (before : List Blank) (key : List JsonChar) (beforeColon behindColon : List Blank)
      (value : Json) (behind : List Blank) (rest : Members)

end

def blankText (s : List Blank) : List UInt8 := s.map Subtype.val

mutual

def Json.text : Json → List UInt8
  | .primitive first rest => (first :: rest).map Subtype.val
  | .string s => 34 :: (stringText s ++ [34])
  | .array blanks items => 91 :: (blankText blanks ++ (items.text [] ++ [93]))
  | .object blanks members => 123 :: (blankText blanks ++ (members.text [] ++ [125]))

/-- The items, each behind its separator; the first has none. -/
def Items.text : Items → List UInt8 → List UInt8
  | .nil, _ => []
  | .cons before value behind rest, separator =>
    separator ++ (blankText before ++ (value.text ++ (blankText behind ++ rest.text [44])))

def Members.text : Members → List UInt8 → List UInt8
  | .nil, _ => []
  | .cons before key beforeColon behindColon value behind rest, separator =>
    separator ++ (blankText before ++ (34 :: (stringText key ++ (34 :: (blankText beforeColon ++
      (58 :: (blankText behindColon ++ (value.text ++ (blankText behind ++ rest.text [44])))))))))

end

def Items.count : Items → Nat
  | .nil => 0
  | .cons _ _ _ rest => rest.count + 1

def Members.count : Members → Nat
  | .nil => 0
  | .cons _ _ _ _ _ _ rest => rest.count + 1

/-! ## Tokens -/

inductive JsonType
  | undefined
  | object
  | array
  | string
  | primitive
deriving DecidableEq

/-- Where a value stands in the text, and how many children it has. -/
structure JsonToken where
  type : JsonType
  start : Nat
  stop : Nat
  size : Nat
deriving DecidableEq

/-- A token with the text from its start on. -/
structure Lexeme where
  type : JsonType
  size : Nat
  rest : List UInt8
  length : Nat

def JsonToken.lexeme (json : List UInt8) (t : JsonToken) : Lexeme :=
  ⟨t.type, t.size, json.drop t.start, t.stop - t.start⟩

/-- The text of the token itself. -/
def Lexeme.text (l : Lexeme) : List UInt8 := l.rest.take l.length

/-- The token in a text of `n` bytes. -/
def Lexeme.token (n : Nat) (l : Lexeme) : JsonToken :=
  ⟨l.type, n - l.rest.length, n - l.rest.length + l.length, l.size⟩

mutual

/-- The tokens of a value in the order in which they start; `tail` is what stands
behind the value. -/
def Json.lexemes : Json → List UInt8 → List Lexeme
  | .primitive first rest, tail =>
    [⟨.primitive, 0, (first :: rest).map Subtype.val ++ tail, rest.length + 1⟩]
  | .string s, tail => [⟨.string, 0, stringText s ++ (34 :: tail), (stringText s).length⟩]
  | .array blanks items, tail =>
    ⟨.array, items.count, Json.text (.array blanks items) ++ tail,
      (Json.text (.array blanks items)).length⟩ :: items.lexemes (93 :: tail)
  | .object blanks members, tail =>
    ⟨.object, members.count, Json.text (.object blanks members) ++ tail,
      (Json.text (.object blanks members)).length⟩ :: members.lexemes (125 :: tail)

def Items.lexemes : Items → List UInt8 → List Lexeme
  | .nil, _ => []
  | .cons _ value behind rest, tail =>
    value.lexemes (blankText behind ++ (rest.text [44] ++ tail)) ++ rest.lexemes tail

/-- A key has its value as its only child. -/
def Members.lexemes : Members → List UInt8 → List Lexeme
  | .nil, _ => []
  | .cons _ key beforeColon behindColon value behind rest, tail =>
    ⟨.string, 1, stringText key ++ (34 :: (blankText beforeColon ++ (58 :: (blankText behindColon ++
      (value.text ++ (blankText behind ++ (rest.text [44] ++ tail))))))), (stringText key).length⟩ ::
        (value.lexemes (blankText behind ++ (rest.text [44] ++ tail)) ++ rest.lexemes tail)

end

/-- A value with blanks around it. -/
structure JsonText where
  before : List Blank
  value : Json
  behind : List Blank

namespace JsonText

def text (t : JsonText) : List UInt8 := blankText t.before ++ (t.value.text ++ blankText t.behind)

def lexemes (t : JsonText) : List Lexeme := t.value.lexemes (blankText t.behind)

/-- The tokens of a text. -/
def tokens (t : JsonText) : List JsonToken := t.lexemes.map (Lexeme.token t.text.length)

end JsonText

/-- What is true of a token of a text: it stands in it, and between the quotes of a
string there are characters of a string. -/
structure Lexeme.In (l : Lexeme) (text : List UInt8) : Prop where
  suffix : l.rest <:+ text
  fits : l.length ≤ l.rest.length
  chars : l.type = .string → ∃ s, l.text = stringText s

theorem Lexeme.In.mono {l : Lexeme} {text text' : List UInt8} (h : l.In text)
    (htext : text <:+ text') : l.In text' := ⟨h.suffix.trans htext, h.fits, h.chars⟩

mutual

theorem Json.lexemes_in : ∀ (j : Json) (tail : List UInt8), ∀ l ∈ j.lexemes tail,
    l.In (j.text ++ tail)
  | .primitive first rest, tail, l, hl => by
    obtain rfl := List.mem_singleton.mp hl
    exact ⟨List.suffix_refl _, by simp, nofun⟩
  | .string s, tail, l, hl => by
    obtain rfl := List.mem_singleton.mp hl
    refine ⟨?_, by simp, fun _ => ⟨s, List.take_left' rfl⟩⟩
    rw [Json.text, List.cons_append, List.append_assoc]
    exact List.suffix_cons _ _
  | .array blanks items, tail, l, hl => by
    rcases List.mem_cons.mp hl with rfl | hl
    · exact ⟨List.suffix_refl _, by simp, nofun⟩
    · refine (items.lexemes_in [] _ l hl).mono ?_
      simp only [Json.text, List.cons_append, List.append_assoc, List.nil_append]
      exact (List.suffix_append _ _).trans (List.suffix_cons _ _)
  | .object blanks members, tail, l, hl => by
    rcases List.mem_cons.mp hl with rfl | hl
    · exact ⟨List.suffix_refl _, by simp, nofun⟩
    · refine (members.lexemes_in [] _ l hl).mono ?_
      simp only [Json.text, List.cons_append, List.append_assoc, List.nil_append]
      exact (List.suffix_append _ _).trans (List.suffix_cons _ _)

theorem Items.lexemes_in : ∀ (items : Items) (separator tail : List UInt8), ∀ l ∈ items.lexemes tail,
    l.In (items.text separator ++ tail)
  | .nil, _, _, l, hl => absurd hl List.not_mem_nil
  | .cons before value behind rest, separator, tail, l, hl => by
    rw [Items.text]
    simp only [List.append_assoc]
    rcases List.mem_append.mp hl with hl | hl
    · refine (value.lexemes_in _ l hl).mono ?_
      exact (List.suffix_append _ _).trans (List.suffix_append _ _)
    · refine (rest.lexemes_in [44] tail l hl).mono ?_
      exact ((List.suffix_append _ _).trans (List.suffix_append _ _)).trans
        ((List.suffix_append _ _).trans (List.suffix_append _ _))

theorem Members.lexemes_in : ∀ (members : Members) (separator tail : List UInt8),
    ∀ l ∈ members.lexemes tail, l.In (members.text separator ++ tail)
  | .nil, _, _, l, hl => absurd hl List.not_mem_nil
  | .cons before key beforeColon behindColon value behind rest, separator, tail, l, hl => by
    have hsuffix := fun a b : List UInt8 => List.suffix_append a b
    rw [Members.text]
    simp only [List.append_assoc, List.cons_append]
    rcases List.mem_cons.mp hl with rfl | hl
    · refine ⟨?_, by simp, fun _ => ⟨key, List.take_left' rfl⟩⟩
      exact ((List.suffix_cons _ _).trans (hsuffix _ _)).trans (hsuffix _ _)
    · have hvalue : value.text ++ (blankText behind ++ (rest.text [44] ++ tail)) <:+
          separator ++ (blankText before ++ (34 :: (stringText key ++ (34 :: (blankText beforeColon ++
            (58 :: (blankText behindColon ++ (value.text ++ (blankText behind ++
              (rest.text [44] ++ tail)))))))))) :=
        (((((hsuffix _ _).trans (List.suffix_cons _ _)).trans (hsuffix _ _)).trans
          ((List.suffix_cons _ _).trans (hsuffix _ _))).trans (List.suffix_cons _ _)).trans
            ((hsuffix _ _).trans (hsuffix _ _))
      rcases List.mem_append.mp hl with hl | hl
      · exact (value.lexemes_in _ l hl).mono hvalue
      · refine (rest.lexemes_in [44] tail l hl).mono (List.IsSuffix.trans ?_ hvalue)
        exact (hsuffix _ _).trans (hsuffix _ _)

end

/-! ## No byte is zero -/

theorem zero_notMem_text_jsonChar (c : JsonChar) : 0 ∉ c.text := by
  have hletter : ∀ b ∈ ([34, 92, 47, 98, 102, 110, 114, 116] : List UInt8), (0 : UInt8) ≠ b := by simp
  have hhex : ∀ h : HexByte, (0 : UInt8) ≠ h.1 := by
    rintro ⟨h, hdigit⟩ rfl
    exact absurd hdigit (by decide)
  cases c with
  | plain b =>
    intro hmem
    have hlow := b.2.1
    rw [← List.mem_singleton.mp hmem] at hlow
    exact absurd hlow (by decide)
  | escape letter => simpa [JsonChar.text] using hletter letter.1 letter.2
  | unicode h₁ h₂ h₃ h₄ => simpa [JsonChar.text] using ⟨hhex h₁, hhex h₂, hhex h₃, hhex h₄⟩

theorem zero_notMem_stringText (s : List JsonChar) : 0 ∉ stringText s := by
  intro hmem
  obtain ⟨c, -, hc⟩ := List.mem_flatMap.mp hmem
  exact zero_notMem_text_jsonChar c hc

theorem zero_notMem_blankText (s : List Blank) : 0 ∉ blankText s := by
  intro hmem
  obtain ⟨b, -, hb⟩ := List.mem_map.mp hmem
  have hblank := b.2
  rw [hb] at hblank
  exact absurd hblank (by decide)

mutual

theorem Json.zero_notMem_text : ∀ j : Json, 0 ∉ j.text
  | .primitive first rest => by
    intro hmem
    obtain ⟨b, -, hb⟩ := List.mem_map.mp hmem
    have hlow := b.2.1
    rw [hb] at hlow
    exact absurd hlow (by decide)
  | .string s => by simpa [Json.text] using zero_notMem_stringText s
  | .array blanks items => by
    simpa [Json.text] using ⟨zero_notMem_blankText blanks, items.zero_notMem_text List.not_mem_nil⟩
  | .object blanks members => by
    simpa [Json.text] using ⟨zero_notMem_blankText blanks, members.zero_notMem_text List.not_mem_nil⟩

theorem Items.zero_notMem_text : ∀ (items : Items) {separator : List UInt8}, 0 ∉ separator →
    0 ∉ items.text separator
  | .nil, _, _ => List.not_mem_nil
  | .cons before value behind rest, separator, hseparator => by
    simpa [Items.text] using ⟨hseparator, zero_notMem_blankText before, value.zero_notMem_text,
      zero_notMem_blankText behind, rest.zero_notMem_text (show 0 ∉ [44] by decide)⟩

theorem Members.zero_notMem_text : ∀ (members : Members) {separator : List UInt8}, 0 ∉ separator →
    0 ∉ members.text separator
  | .nil, _, _ => List.not_mem_nil
  | .cons before key beforeColon behindColon value behind rest, separator, hseparator => by
    simpa [Members.text] using ⟨hseparator, zero_notMem_blankText before, zero_notMem_stringText key,
      zero_notMem_blankText beforeColon, zero_notMem_blankText behindColon, value.zero_notMem_text,
      zero_notMem_blankText behind, rest.zero_notMem_text (show 0 ∉ [44] by decide)⟩

end

/-- A JSON text is a C string. -/
theorem JsonText.zero_notMem_text (t : JsonText) : 0 ∉ t.text := by
  simpa [JsonText.text] using
    ⟨zero_notMem_blankText t.before, t.value.zero_notMem_text, zero_notMem_blankText t.behind⟩

/-! ## Tokens and the text -/

theorem Lexeme.lexeme_token {l : Lexeme} {text : List UInt8} (h : l.In text) :
    (l.token text.length).lexeme text = l := by
  obtain ⟨front, rfl⟩ := h.suffix
  have hstart : (front ++ l.rest).length - l.rest.length = front.length := by
    rw [List.length_append, Nat.add_sub_cancel]
  rw [JsonToken.lexeme, Lexeme.token]
  simp only [hstart, List.drop_left, Nat.add_sub_cancel_left]

theorem JsonText.lexemes_in (t : JsonText) : ∀ l ∈ t.lexemes, l.In t.text := fun l hl =>
  (t.value.lexemes_in _ l hl).mono (List.suffix_append _ _)

/-- **A text seen through its tokens.** -/
theorem JsonText.map_lexeme_tokens (t : JsonText) :
    t.tokens.map (JsonToken.lexeme t.text) = t.lexemes := by
  rw [JsonText.tokens, List.map_map]
  refine (List.map_congr_left fun l hl => ?_).trans (List.map_id _)
  exact Lexeme.lexeme_token (t.lexemes_in l hl)

end OnionRelay.Lib
