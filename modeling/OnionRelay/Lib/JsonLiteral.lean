import OnionRelay.Lib.Json

/-!
# What a string literal denotes

`LiteralChar` is a character of a JSON string literal: itself in UTF-8, an escape of two
characters, one escaped code unit, or the surrogate pair of two.  It denotes a Unicode
character, so a literal denotes a string (`LiteralChar.value`), and `utf8` is its encoding.
`charsOf` takes a literal apart into the characters of its text.
-/

namespace OnionRelay.Lib

/-! ## Literals -/

/-- The value of a hexadecimal digit. -/
def hexValue (b : HexByte) : Nat :=
  if b.1 ≤ 57 then b.1.toNat - 48 else if b.1 ≤ 70 then b.1.toNat - 55 else b.1.toNat - 87

/-- The digits of `\uXXXX`. -/
structure CodeUnit where
  h₁ : HexByte
  h₂ : HexByte
  h₃ : HexByte
  h₄ : HexByte

namespace CodeUnit

def value (u : CodeUnit) : Nat :=
  ((hexValue u.h₁ * 16 + hexValue u.h₂) * 16 + hexValue u.h₃) * 16 + hexValue u.h₄

def char (u : CodeUnit) : JsonChar := .unicode u.h₁ u.h₂ u.h₃ u.h₄

end CodeUnit

/-- A character that stands for itself. -/
abbrev PlainChar := { c : Char // 32 ≤ c.toNat ∧ c.toNat ≠ 34 ∧ c.toNat ≠ 92 }

/-- The code unit of a character of the basic plane. -/
abbrev BasicUnit := { u : CodeUnit // u.value < 0xD800 ∨ 0xDFFF < u.value }

abbrev HighSurrogate := { u : CodeUnit // 0xD800 ≤ u.value ∧ u.value ≤ 0xDBFF }

abbrev LowSurrogate := { u : CodeUnit // 0xDC00 ≤ u.value ∧ u.value ≤ 0xDFFF }

inductive LiteralChar
  | plain (c : PlainChar)
  | escape (letter : EscapeLetter)
  | unicode (u : BasicUnit)
  | pair (high : HighSurrogate) (low : LowSurrogate)

/-- What an escape of two characters denotes. -/
def escapeValue (letter : EscapeLetter) : Char :=
  if letter.1 = 98 then Char.ofNat 8
  else if letter.1 = 102 then Char.ofNat 12
  else if letter.1 = 110 then Char.ofNat 10
  else if letter.1 = 114 then Char.ofNat 13
  else if letter.1 = 116 then Char.ofNat 9
  else Char.ofNat letter.1.toNat

namespace LiteralChar

/-- The character denoted. -/
def value : LiteralChar → Char
  | .plain c => c.1
  | .escape letter => escapeValue letter
  | .unicode u => Char.ofNat u.1.value
  | .pair high low => Char.ofNat (0x10000 + (high.1.value - 0xD800) * 0x400 + (low.1.value - 0xDC00))

def text : LiteralChar → List UInt8
  | .plain c => String.utf8EncodeChar c.1
  | .escape letter => [92, letter.1]
  | .unicode u => u.1.char.text
  | .pair high low => high.1.char.text ++ low.1.char.text

def isPair : LiteralChar → Bool
  | .pair _ _ => true
  | _ => false

end LiteralChar

/-- What stands between the quotes. -/
def literalText (s : List LiteralChar) : List UInt8 := s.flatMap LiteralChar.text

/-- The encoding of a string. -/
def utf8 (s : List Char) : List UInt8 := s.flatMap String.utf8EncodeChar

/-- The encoding of the string that a literal denotes. -/
def literalUtf8 (s : List LiteralChar) : List UInt8 := utf8 (s.map LiteralChar.value)

@[simp] theorem literalUtf8_cons (c : LiteralChar) (s : List LiteralChar) :
    literalUtf8 (c :: s) = String.utf8EncodeChar c.value ++ literalUtf8 s := List.flatMap_cons

@[simp] theorem literalUtf8_append (s s' : List LiteralChar) :
    literalUtf8 (s ++ s') = literalUtf8 s ++ literalUtf8 s' := by
  rw [literalUtf8, List.map_append]
  exact List.flatMap_append

/-! ## The characters of the text -/

theorem plainByte_of_le {n : Nat} (hlow : 0x80 ≤ n) (hhigh : n < 256) :
    32 ≤ UInt8.ofNat n ∧ UInt8.ofNat n ≠ 34 ∧ UInt8.ofNat n ≠ 92 := by
  have hnat : (UInt8.ofNat n).toNat = n := UInt8.toNat_ofNat_of_lt' (by simpa using hhigh)
  have hne : ∀ b : UInt8, b.toNat < 0x80 → UInt8.ofNat n ≠ b := fun b hb heq => by
    rw [heq] at hnat
    omega
  refine ⟨?_, hne 34 (by decide), hne 92 (by decide)⟩
  rw [UInt8.le_iff_toNat_le, hnat]
  exact Nat.le_trans (by decide) hlow

theorem plainByte_of_ascii {c : PlainChar} (h : c.1.toNat ≤ 0x7F) :
    32 ≤ UInt8.ofNat c.1.toNat ∧ UInt8.ofNat c.1.toNat ≠ 34 ∧ UInt8.ofNat c.1.toNat ≠ 92 := by
  obtain ⟨c, hlow, hquote, hslash⟩ := c
  have hnat : (UInt8.ofNat c.toNat).toNat = c.toNat := UInt8.toNat_ofNat_of_lt' (Nat.lt_of_le_of_lt h (by decide))
  refine ⟨?_, fun heq => hquote ?_, fun heq => hslash ?_⟩
  · rw [UInt8.le_iff_toNat_le, hnat]
    exact hlow
  · rw [← hnat, heq]
    rfl
  · rw [← hnat, heq]
    rfl

/-- The bytes of a character that stands for itself stand for themselves. -/
theorem plainByte_of_plainChar (c : PlainChar) :
    ∀ b ∈ String.utf8EncodeChar c.1, 32 ≤ b ∧ b ≠ 34 ∧ b ≠ 92 := by
  intro b hb
  rw [String.utf8EncodeChar] at hb
  split at hb
  · rw [List.mem_singleton.mp hb]
    exact plainByte_of_ascii ‹_›
  split at hb
  · simp only [List.mem_cons, List.not_mem_nil, or_false] at hb
    rcases hb with rfl | rfl <;> exact plainByte_of_le (by omega) (by omega)
  split at hb
  · simp only [List.mem_cons, List.not_mem_nil, or_false] at hb
    rcases hb with rfl | rfl | rfl <;> exact plainByte_of_le (by omega) (by omega)
  · simp only [List.mem_cons, List.not_mem_nil, or_false] at hb
    rcases hb with rfl | rfl | rfl | rfl <;> exact plainByte_of_le (by omega) (by omega)

/-- The characters of its text. -/
def LiteralChar.chars : LiteralChar → List JsonChar
  | .plain c => (String.utf8EncodeChar c.1).attach.map fun b => .plain ⟨b.1, plainByte_of_plainChar c b.1 b.2⟩
  | .escape letter => [.escape letter]
  | .unicode u => [u.1.char]
  | .pair high low => [high.1.char, low.1.char]

def charsOf (s : List LiteralChar) : List JsonChar := s.flatMap LiteralChar.chars

theorem LiteralChar.stringText_chars (c : LiteralChar) : stringText c.chars = c.text := by
  cases c with
  | plain c =>
    rw [LiteralChar.chars, LiteralChar.text, stringText, List.flatMap_map]
    simp only [JsonChar.text]
    rw [← List.map_eq_flatMap]
    exact List.attach_map_subtype_val _
  | escape letter => rfl
  | unicode u => rfl
  | pair high low => rfl

/-- **A literal is the text of its characters.** -/
theorem stringText_charsOf (s : List LiteralChar) : stringText (charsOf s) = literalText s := by
  rw [stringText, charsOf, List.flatMap_assoc, literalText]
  exact congrArg (s.flatMap ·) (funext LiteralChar.stringText_chars)

/-- Before the first surrogate pair of a literal there is none. -/
theorem exists_pair {s : List LiteralChar} (h : ¬ ∀ c ∈ s, c.isPair = false) :
    ∃ before high low behind, s = before ++ .pair high low :: behind ∧ ∀ c ∈ before, c.isPair = false := by
  induction s with
  | nil => exact absurd (fun _ hc => nomatch hc) h
  | cons c s ih =>
    cases hpair : c.isPair with
    | true =>
      cases c with
      | pair high low => exact ⟨[], high, low, s, rfl, fun _ hc => nomatch hc⟩
      | _ => cases hpair
    | false =>
      have hrest : ¬ ∀ c ∈ s, c.isPair = false := fun hall => h (List.forall_mem_cons.mpr ⟨hpair, hall⟩)
      obtain ⟨before, high, low, behind, rfl, hbefore⟩ := ih hrest
      exact ⟨c :: before, high, low, behind, rfl, List.forall_mem_cons.mpr ⟨hpair, hbefore⟩⟩

end OnionRelay.Lib
