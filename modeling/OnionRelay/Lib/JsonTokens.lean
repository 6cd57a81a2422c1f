import Mathlib.Data.List.Forall2
import OnionRelay.Lib.Json

/-!
# Tokens and what stands around them

The tokens of a value are the same in every text, but for the text behind them
(`Json.lexemes_same`), and a token has at least as many tokens of the value behind it as
it has children (`Json.lexemes_closed`).  So a reader that goes by the types, the
children and the texts of tokens, and reads no more than the children of a token, sees
nothing but the value.
-/

namespace OnionRelay.Lib

/-! ## Items and members as lists -/

def Items.toList : Items → List Json
  | .nil => []
  | .cons _ value _ rest => value :: rest.toList

def Members.toList : Members → List (List JsonChar × Json)
  | .nil => []
  | .cons _ key _ _ value _ rest => (key, value) :: rest.toList

/-- Members without blanks. -/
def Members.ofList : List (List JsonChar × Json) → Members
  | [] => .nil
  | (key, value) :: members => .cons [] key [] [] value [] (Members.ofList members)

@[simp] theorem Members.toList_ofList (members : List (List JsonChar × Json)) :
    (Members.ofList members).toList = members := by
  induction members with
  | nil => rfl
  | cons member members ih => rw [Members.ofList, Members.toList, ih]

theorem Members.length_toList : ∀ members : Members, members.toList.length = members.count
  | .nil => rfl
  | .cons _ _ _ _ _ _ rest => congrArg (· + 1) rest.length_toList

/-- The token of a key, and what the string ends with. -/
theorem Members.exists_lexemes_cons (before : List Blank) (key : List JsonChar)
    (beforeColon behindColon : List Blank) (value : Json) (behind : List Blank) (rest : Members)
    (tail : List UInt8) : ∃ token behindKey,
      (Members.cons before key beforeColon behindColon value behind rest).lexemes tail =
        token :: (value.lexemes (blankText behind ++ (rest.text [44] ++ tail)) ++ rest.lexemes tail) ∧
      token.type = .string ∧ token.rest = stringText key ++ 34 :: behindKey :=
  ⟨_, _, rfl, rfl, rfl⟩

/-! ## The same token in another text -/

/-- Two tokens that differ in what stands behind them only. -/
structure Lexeme.Same (l l' : Lexeme) : Prop where
  type : l.type = l'.type
  size : l.size = l'.size
  length : l.length = l'.length
  text : l.text = l'.text

theorem Lexeme.same_of_append {type : JsonType} {size : Nat} {text tail tail' : List UInt8} :
    Lexeme.Same ⟨type, size, text ++ tail, text.length⟩ ⟨type, size, text ++ tail', text.length⟩ :=
  ⟨rfl, rfl, rfl, by rw [Lexeme.text, Lexeme.text, List.take_left, List.take_left]⟩

mutual

/-- **The tokens of a value are the same in every text.** -/
theorem Json.lexemes_same : ∀ (j : Json) (tail tail' : List UInt8),
    List.Forall₂ Lexeme.Same (j.lexemes tail) (j.lexemes tail')
  | .primitive first rest, tail, tail' =>
    .cons ⟨rfl, rfl, rfl, by
      have hlength : rest.length + 1 = ((first :: rest).map Subtype.val).length := by simp
      rw [Lexeme.text, Lexeme.text]
      dsimp only
      rw [hlength, List.take_left, List.take_left]⟩ .nil
  | .string s, tail, tail' => .cons Lexeme.same_of_append .nil
  | .array blanks items, tail, tail' => .cons Lexeme.same_of_append (items.lexemes_same _ _)
  | .object blanks members, tail, tail' => .cons Lexeme.same_of_append (members.lexemes_same _ _)

theorem Items.lexemes_same : ∀ (items : Items) (tail tail' : List UInt8),
    List.Forall₂ Lexeme.Same (items.lexemes tail) (items.lexemes tail')
  | .nil, _, _ => .nil
  | .cons _ value _ rest, tail, tail' =>
    List.rel_append (value.lexemes_same _ _) (rest.lexemes_same tail tail')

theorem Members.lexemes_same : ∀ (members : Members) (tail tail' : List UInt8),
    List.Forall₂ Lexeme.Same (members.lexemes tail) (members.lexemes tail')
  | .nil, _, _ => .nil
  | .cons _ _ _ _ value _ rest, tail, tail' =>
    .cons Lexeme.same_of_append
      (List.rel_append (value.lexemes_same _ _) (rest.lexemes_same tail tail'))

end

/-! ## Children stay inside -/

/-- Each token has at least as many tokens behind it as it has children. -/
def Closed (tokens : List Lexeme) : Prop :=
  ∀ before l behind, tokens = before ++ l :: behind → l.size ≤ behind.length

theorem closed_nil : Closed [] := fun before l behind h => absurd h (by simp)

theorem closed_cons {l : Lexeme} {tokens : List Lexeme} (hsize : l.size ≤ tokens.length)
    (h : Closed tokens) : Closed (l :: tokens) := by
  rintro (_ | ⟨first, before⟩) l' behind heq
  · obtain ⟨rfl, rfl⟩ := List.cons.inj heq
    exact hsize
  · exact h before l' behind (List.cons.inj heq).2

theorem Closed.head {l : Lexeme} {tokens : List Lexeme} (h : Closed (l :: tokens)) :
    l.size ≤ tokens.length := h [] l tokens rfl

theorem Closed.drop {tokens : List Lexeme} (h : Closed tokens) (n : Nat) : Closed (tokens.drop n) := by
  intro before l behind heq
  refine h (tokens.take n ++ before) l behind ?_
  rw [List.append_assoc, ← heq, List.take_append_drop]

theorem Closed.tail {l : Lexeme} {tokens : List Lexeme} (h : Closed (l :: tokens)) : Closed tokens :=
  h.drop 1

theorem Closed.append {a b : List Lexeme} (ha : Closed a) (hb : Closed b) : Closed (a ++ b) := by
  induction a with
  | nil => exact hb
  | cons l a ih =>
    rw [List.cons_append]
    refine closed_cons ?_ (ih ha.tail)
    rw [List.length_append]
    exact Nat.le_trans ha.head (Nat.le_add_right _ _)

theorem Json.lexemes_pos (j : Json) (tail : List UInt8) : 0 < (j.lexemes tail).length := by
  cases j <;> exact Nat.succ_pos _

theorem Items.count_le : ∀ (items : Items) (tail : List UInt8),
    items.count ≤ (items.lexemes tail).length
  | .nil, _ => Nat.le_refl 0
  | .cons _ value behind rest, tail => by
    have hvalue := value.lexemes_pos (blankText behind ++ (rest.text [44] ++ tail))
    have hrest := rest.count_le tail
    rw [Items.count, Items.lexemes, List.length_append]
    omega

theorem Members.count_le : ∀ (members : Members) (tail : List UInt8),
    members.count ≤ (members.lexemes tail).length
  | .nil, _ => Nat.le_refl 0
  | .cons _ _ _ _ _ _ rest, tail => by
    have hrest := rest.count_le tail
    rw [Members.count, Members.lexemes, List.length_cons, List.length_append]
    omega

mutual

/-- **The children of a token stand behind it** in the same value. -/
theorem Json.lexemes_closed : ∀ (j : Json) (tail : List UInt8), Closed (j.lexemes tail)
  | .primitive _ _, _ => closed_cons (Nat.zero_le _) closed_nil
  | .string _, _ => closed_cons (Nat.zero_le _) closed_nil
  | .array _ items, _ => closed_cons (items.count_le _) (items.lexemes_closed _)
  | .object _ members, _ => closed_cons (members.count_le _) (members.lexemes_closed _)

theorem Items.lexemes_closed : ∀ (items : Items) (tail : List UInt8), Closed (items.lexemes tail)
  | .nil, _ => closed_nil
  | .cons _ value _ rest, tail => (value.lexemes_closed _).append (rest.lexemes_closed tail)

theorem Members.lexemes_closed : ∀ (members : Members) (tail : List UInt8), Closed (members.lexemes tail)
  | .nil, _ => closed_nil
  | .cons _ _ _ _ value _ rest, tail => by
    refine closed_cons ?_ ((value.lexemes_closed _).append (rest.lexemes_closed tail))
    rw [List.length_append]
    exact Nat.le_trans (value.lexemes_pos _) (Nat.le_add_right _ _)

end

end OnionRelay.Lib
