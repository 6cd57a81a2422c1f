import OnionRelay.Json.Jsmn
import OnionRelay.Lib.JsonTokens
import OnionRelay.Lib.Nesting

/-!
# The tokenizer on JSON texts

`jsmn_parse` finds the tokens of every JSON text (`jsmnParse_text`).

The proof follows the grammar.  `Reads` is a piece of a run that comes to its end if the
array has room for its tokens, and fails for want of a token otherwise; such pieces may be
put together.  In a container all tokens behind its own are closed, so the search for the
last open token finds it (`lastBelow_append_cons`), behind a nested container as well as
behind a comma.
-/

namespace OnionRelay

open OnionRelay.Lib

/-! ## The last token that is looked for -/

section LastBelow

variable {found : JsmnTok → Bool}

theorem lastBelow_congr {tokens tokens' : List JsmnTok} : ∀ {n : Nat},
    (∀ i, i < n → tokens[i]?.any found = tokens'[i]?.any found) →
      lastBelow found tokens n = lastBelow found tokens' n
  | 0, _ => rfl
  | n + 1, h => by
    rw [lastBelow, lastBelow, h n (Nat.lt_succ_self n),
      lastBelow_congr fun i hi => h i (Nat.lt_succ_of_lt hi)]

theorem lastBelow_append (pre more : List JsmnTok) :
    lastBelow found (pre ++ more) pre.length = lastBelow found pre pre.length :=
  lastBelow_congr fun i hi => by rw [List.getElem?_append_left hi]

/-- Tokens at the end that are not looked for are passed over. -/
theorem lastBelow_skip {pre done : List JsmnTok} (hdone : ∀ token ∈ done, found token = false) :
    ∀ {n : Nat}, n ≤ done.length →
      lastBelow found (pre ++ done) (pre.length + n) = lastBelow found (pre ++ done) pre.length
  | 0, _ => rfl
  | n + 1, hn => by
    rw [← Nat.add_assoc, lastBelow, List.getElem?_append_right (Nat.le_add_right _ _),
      Nat.add_sub_cancel_left, List.getElem?_eq_getElem hn, Option.any_some,
      hdone _ (List.getElem_mem hn), if_neg Bool.false_ne_true]
    exact lastBelow_skip hdone (Nat.le_of_succ_le hn)

theorem lastBelow_append_cons {pre done : List JsmnTok} {token : JsmnTok} (htoken : found token = true)
    (hdone : ∀ token ∈ done, found token = false) :
    lastBelow found (pre ++ token :: done) (pre ++ token :: done).length = some pre.length := by
  rw [List.append_cons, List.length_append, lastBelow_skip hdone (Nat.le_refl _), List.length_append,
    List.length_singleton, lastBelow, List.append_assoc,
    List.getElem?_append_right (Nat.le_refl _), Nat.sub_self]
  exact if_pos htoken

end LastBelow

/-! ## The children of the token above -/

theorem growSuper_append {toksuper : Option Nat} {tokens : List JsmnTok}
    (h : ∀ i, toksuper = some i → i < tokens.length) (more : List JsmnTok) :
    growSuper toksuper (tokens ++ more) = growSuper toksuper tokens ++ more := by
  cases toksuper with
  | none => rfl
  | some i => exact modify_append_left more (h i rfl)

theorem growSuper_append_cons (pre : List JsmnTok) (token : JsmnTok) (done : List JsmnTok) :
    growSuper (some pre.length) (pre ++ token :: done) = pre ++ token.grow :: done :=
  modify_append_cons JsmnTok.grow pre token done

theorem any_isOpen_growSuper (toksuper : Option Nat) (tokens : List JsmnTok) (i : Nat) :
    (growSuper toksuper tokens)[i]?.any JsmnTok.isOpen = tokens[i]?.any JsmnTok.isOpen := by
  cases toksuper with
  | none => rfl
  | some j =>
    rw [growSuper, List.getElem?_modify]
    cases tokens[i]? with
    | none => split <;> rfl
    | some token => split <;> rfl

/-! ## Pieces of a run -/

section Reads

variable (js : List UInt8) (numTokens : Nat)

/-- The run from `p` comes to `q` if there is room for the tokens of `q`, and fails for
want of it otherwise. -/
structure Reads (p q : JsmnParser) : Prop where
  mono : p.tokens.length ≤ q.tokens.length
  comes : q.tokens.length ≤ numTokens → Steps js numTokens p q
  fails : numTokens < q.tokens.length → p.tokens.length ≤ numTokens →
    ∃ r, Steps js numTokens p r ∧ JsmnFails js numTokens .noMem r

variable {js numTokens} {p q r : JsmnParser} {c : UInt8} {rest : List UInt8}

theorem Reads.refl (p : JsmnParser) : Reads js numTokens p p :=
  ⟨Nat.le_refl _, fun _ => .refl, fun hlt hle => absurd hle (Nat.not_le.mpr hlt)⟩

theorem Reads.trans (h : Reads js numTokens p q) (h' : Reads js numTokens q r) :
    Reads js numTokens p r := by
  refine ⟨Nat.le_trans h.mono h'.mono, fun hroom => ?_, fun hlt hle => ?_⟩
  · exact (h.comes (Nat.le_trans h'.mono hroom)).trans (h'.comes hroom)
  · rcases Nat.lt_or_ge numTokens q.tokens.length with hq | hq
    · exact h.fails hq hle
    · obtain ⟨s, hsteps, hfails⟩ := h'.fails hlt hq
      exact ⟨s, (h.comes hq).trans hsteps, hfails⟩

theorem getElem?_of_drop {i : Nat} (h : js.drop i = c :: rest) : js[i]? = some c := by
  have hhead := List.head?_drop (l := js) (i := i)
  rw [h] at hhead
  exact hhead.symm

theorem drop_of_append {i : Nat} {a : List UInt8} (h : js.drop i = a ++ rest) :
    js.drop (i + a.length) = rest := by
  rw [← List.drop_drop, h, List.drop_left]

/-- A round that needs no token. -/
theorem reads_move (hjs : js.drop p.pos = c :: rest) (hzero : c ≠ 0)
    (hround : jsmnRound js numTokens c p = .ok q) (hlength : q.tokens.length = p.tokens.length) :
    Reads js numTokens p { q with pos := q.pos + 1 } := by
  refine ⟨Nat.le_of_eq hlength.symm, fun _ => .single ?_, fun hlt hle => ?_⟩
  · exact ⟨c, q, getElem?_of_drop hjs, hzero, hround, rfl⟩
  · exact absurd hle (Nat.not_le.mpr (hlength ▸ hlt))

/-- A round that needs a token. -/
theorem reads_alloc (hjs : js.drop p.pos = c :: rest) (hzero : c ≠ 0)
    (hround : jsmnRound js numTokens c p =
      if p.tokens.length < numTokens then .ok q else .error .noMem)
    (hlength : q.tokens.length = p.tokens.length + 1) :
    Reads js numTokens p { q with pos := q.pos + 1 } := by
  refine ⟨?_, fun hroom => .single ?_, fun hlt _ => ⟨p, .refl, ?_⟩⟩
  · exact hlength ▸ Nat.le_succ _
  · refine ⟨c, q, getElem?_of_drop hjs, hzero, hround.trans (if_pos ?_), rfl⟩
    rw [show ({ q with pos := q.pos + 1 } : JsmnParser).tokens = q.tokens from rfl, hlength] at hroom
    exact Nat.lt_of_succ_le hroom
  · refine ⟨c, getElem?_of_drop hjs, hzero, hround.trans (if_neg ?_)⟩
    rw [show ({ q with pos := q.pos + 1 } : JsmnParser).tokens = q.tokens from rfl, hlength] at hlt
    exact Nat.not_lt.mpr (Nat.le_of_lt_succ hlt)

/-- Blanks are passed over. -/
theorem reads_blanks : ∀ (blanks : List Blank) {p : JsmnParser},
    js.drop p.pos = blankText blanks ++ rest →
      Reads js numTokens p { p with pos := p.pos + (blankText blanks).length }
  | [], p, _ => .refl p
  | b :: blanks, p, hjs => by
    have hround : jsmnRound js numTokens b.1 p = .ok p ∧ b.1 ≠ 0 := by
      have hb := b.2
      simp only [List.mem_cons, List.not_mem_nil, or_false] at hb
      rcases hb with hb | hb | hb | hb <;> rw [hb] <;> exact ⟨rfl, by decide⟩
    have hstep := reads_move hjs hround.2 hround.1 rfl
    have hbehind : js.drop (p.pos + 1) = blankText blanks ++ rest :=
      @drop_of_append js _ p.pos [b.1] hjs
    have hrest := @reads_blanks blanks { p with pos := p.pos + 1 } hbehind
    have hlength : p.pos + (blankText (b :: blanks)).length = p.pos + 1 + (blankText blanks).length := by
      rw [Nat.add_assoc, Nat.add_comm 1]
      rfl
    rw [hlength]
    exact hstep.trans hrest

end Reads

/-! ## Leaves -/

section Leaves

variable {js : List UInt8} {numTokens : Nat} {p : JsmnParser} {tail : List UInt8}

/-- What a primitive ends in front of. -/
def Ends (tail : List UInt8) : Prop := ∀ c ∈ tail.head?, isDelimiter c = true

theorem primitiveLength_of_ends (hends : Ends tail) : ∀ s : List PrimitiveByte,
    primitiveLength (s.map Subtype.val ++ tail) = .ok s.length
  | [] => by
    cases tail with
    | nil => rfl
    | cons c tail =>
      have hc := hends c rfl
      rw [List.map_nil, List.nil_append, primitiveLength, if_pos hc, ite_self]
      rfl
  | ⟨b, hlow, hhigh, hnot⟩ :: s => by
    have hzero : b ≠ 0 := by rintro rfl; exact absurd hlow (by decide)
    have hdelimiter : isDelimiter b = false := by
      simp only [List.mem_cons, List.not_mem_nil, or_false, not_or] at hnot
      have hblank : ∀ c : UInt8, c < 33 → b ≠ c := fun c hc hbc =>
        absurd (hbc ▸ hlow) (UInt8.not_le.mpr hc)
      simp [isDelimiter, hnot, hblank]
    have hprintable : ¬ (b < 32 || 127 ≤ b) = true := by
      simp only [Bool.or_eq_true, decide_eq_true_eq, UInt8.lt_iff_toNat_lt, UInt8.le_iff_toNat_le] at *
      simp at *
      omega
    rw [List.map_cons, List.cons_append, primitiveLength, if_neg hzero,
      if_neg (by rw [hdelimiter]; exact Bool.false_ne_true), if_neg hprintable,
      primitiveLength_of_ends hends s]
    rfl

theorem stringLength_plain {c : UInt8} (hzero : c ≠ 0) (hquote : c ≠ 34) (hescape : c ≠ 92)
    (s : List UInt8) : stringLength .plain (c :: s) = (stringLength .plain s).map (· + 1) := by
  rw [stringLength, if_neg hzero, if_neg hquote, if_neg hescape]

theorem stringLength_digit (h : HexByte) (n : Nat) (s : List UInt8) :
    stringLength (.digit n) (h.1 :: s) = (stringLength (.digits n) s).map (· + 1) := by
  have hzero : h.1 ≠ 0 := fun hzero => absurd (hzero ▸ h.2) (by decide)
  rw [stringLength, if_neg hzero, if_pos h.2]

theorem map_map_ok {e : Except JsmnErr Nat} {m n : Nat} :
    (e.map (· + m)).map (· + n) = e.map (· + (m + n)) := by
  cases e with
  | error err => rfl
  | ok k => exact congrArg Except.ok (Nat.add_assoc k m n)

/-- A character of a string is taken as a whole. -/
theorem stringLength_char (c : JsonChar) (s : List UInt8) :
    stringLength .plain (c.text ++ s) = (stringLength .plain s).map (· + c.text.length) := by
  have hbackslash : ∀ s, stringLength .plain (92 :: s) = (stringLength .escape s).map (· + 1) :=
    fun s => rfl
  cases c with
  | plain b =>
    obtain ⟨b, hlow, hquote, hescape⟩ := b
    exact stringLength_plain (by rintro rfl; exact absurd hlow (by decide)) hquote hescape s
  | escape letter =>
    obtain ⟨letter, hletter⟩ := letter
    have hescape : isEscapeLetter letter = true := by
      simp only [List.mem_cons, List.not_mem_nil, or_false] at hletter
      rcases hletter with h | h | h | h | h | h | h | h <;> rw [h] <;> rfl
    show stringLength .plain (92 :: letter :: s) = _
    rw [hbackslash, stringLength, if_pos hescape, map_map_ok]
    rfl
  | unicode h₁ h₂ h₃ h₄ =>
    have hu : ∀ s, stringLength .escape (117 :: s) = (stringLength (.digit 3) s).map (· + 1) :=
      fun s => rfl
    show stringLength .plain (92 :: 117 :: h₁.1 :: h₂.1 :: h₃.1 :: h₄.1 :: s) = _
    rw [hbackslash, hu, stringLength_digit, StringState.digits, stringLength_digit, StringState.digits,
      stringLength_digit, StringState.digits, stringLength_digit, StringState.digits]
    simp only [map_map_ok]
    rfl

theorem stringLength_stringText (tail : List UInt8) (s : List JsonChar) :
    stringLength .plain (stringText s ++ 34 :: tail) = .ok (stringText s).length := by
  induction s with
  | nil =>
    rw [stringText_nil, List.nil_append, stringLength]
    rfl
  | cons c s ih =>
    rw [stringText_cons, List.append_assoc, stringLength_char, ih, List.length_append, Nat.add_comm]
    rfl

theorem jsmnRound_primitive (first : PrimitiveByte) :
    jsmnRound js numTokens first.1 p = (jsmnParsePrimitive js numTokens p).map JsmnParser.counted := by
  obtain ⟨b, hlow, -, hnot⟩ := first
  simp only [List.mem_cons, List.not_mem_nil, or_false, not_or] at hnot
  have hblank : ∀ c : UInt8, c < 33 → b ≠ c := fun c hc hbc =>
    absurd (hbc ▸ hlow) (UInt8.not_le.mpr hc)
  simp [jsmnRound, hnot, hblank]

theorem reads_primitive {first : PrimitiveByte} {rest : List PrimitiveByte} (hends : Ends tail)
    (hjs : js.drop p.pos = (first :: rest).map Subtype.val ++ tail) :
    Reads js numTokens p
      ⟨p.pos + (rest.length + 1),
        growSuper p.toksuper
          (p.tokens ++ [⟨.primitive, p.pos, some (p.pos + (rest.length + 1)), 0⟩]), p.toksuper,
        p.count + 1⟩ := by
  have hlength : primitiveLength (js.drop p.pos) = .ok (rest.length + 1) :=
    hjs ▸ primitiveLength_of_ends hends (first :: rest)
  have hzero : first.1 ≠ 0 := by
    intro hzero
    exact absurd (hzero ▸ first.2.1) (by decide)
  have hround := @jsmnRound_primitive js numTokens p first
  rw [jsmnParsePrimitive_ok hlength] at hround
  refine reads_alloc (q := ⟨p.pos + rest.length, growSuper p.toksuper
    (p.tokens ++ [⟨.primitive, p.pos, some (p.pos + (rest.length + 1)), 0⟩]), p.toksuper,
    p.count + 1⟩) hjs hzero (hround.trans ?_) ?_
  · split <;> rfl
  · exact (length_growSuper _ _).trans List.length_append

theorem reads_string {s : List JsonChar} (hjs : js.drop p.pos = 34 :: (stringText s ++ 34 :: tail)) :
    Reads js numTokens p
      ⟨p.pos + ((stringText s).length + 2),
        growSuper p.toksuper
          (p.tokens ++ [⟨.string, p.pos + 1, some (p.pos + 1 + (stringText s).length), 0⟩]),
        p.toksuper, p.count + 1⟩ := by
  have hlength : stringLength .plain (js.drop (p.pos + 1)) = .ok (stringText s).length := by
    have hbehind : js.drop (p.pos + 1) = stringText s ++ 34 :: tail :=
      @drop_of_append js _ p.pos [34] hjs
    rw [hbehind]
    exact stringLength_stringText tail s
  have hround : jsmnRound js numTokens 34 p =
      (jsmnParseString js numTokens p).map JsmnParser.counted := rfl
  rw [jsmnParseString_ok hlength] at hround
  have hpos : p.pos + ((stringText s).length + 2) = p.pos + 1 + (stringText s).length + 1 := by omega
  rw [hpos]
  refine reads_alloc (q := ⟨p.pos + 1 + (stringText s).length, growSuper p.toksuper
    (p.tokens ++ [⟨.string, p.pos + 1, some (p.pos + 1 + (stringText s).length), 0⟩]), p.toksuper,
    p.count + 1⟩) hjs (by decide) (hround.trans ?_) ?_
  · split <;> rfl
  · exact (length_growSuper _ _).trans List.length_append

end Leaves

/-! ## Values -/

/-- The token of a text of `n` bytes. -/
def tokenOf (n : Nat) (l : Lexeme) : JsmnTok := JsonToken.closed (l.token n)

section Values

variable {js : List UInt8} {numTokens : Nat} {p q : JsmnParser} {tail : List UInt8}

theorem tokenOf_eq {type : JsonType} {size pos len : Nat} {rest : List UInt8}
    (hjs : js.drop pos = rest) (hne : rest ≠ []) :
    tokenOf js.length ⟨type, size, rest, len⟩ = ⟨type, pos, some (pos + len), size⟩ := by
  have hlength := congrArg List.length hjs
  rw [List.length_drop] at hlength
  have hpos := List.length_pos_iff.mpr hne
  have hstart : js.length - rest.length = pos := by omega
  rw [tokenOf, Lexeme.token, JsonToken.closed]
  simp only [hstart]

/-- The last token that is open. -/
def lastOpen (tokens : List JsmnTok) : Option Nat := lastBelow JsmnTok.isOpen tokens tokens.length

/-- The parser is in a container: all tokens behind its own are closed. -/
structure Inside (pre : List JsmnTok) (container : JsmnTok) (done : List JsmnTok)
    (p : JsmnParser) : Prop where
  tokens : p.tokens = pre ++ container :: done
  isOpen : container.isOpen = true
  isContainer : container.isContainer = true
  closed : ∀ token ∈ done, token.isOpen = false

/-- A comma leads back to the container. -/
def Turns (pre : List JsmnTok) (p : JsmnParser) : Prop :=
  p.toksuper = some pre.length ∨
    ∃ i token, p.toksuper = some i ∧ p.tokens[i]? = some token ∧ token.isContainer = false

theorem Inside.lastOpen {pre done : List JsmnTok} {container : JsmnTok}
    (h : Inside pre container done p) : lastOpen p.tokens = some pre.length := by
  rw [OnionRelay.lastOpen, h.tokens]
  exact lastBelow_append_cons h.isOpen h.closed

theorem behindValue_of_turns {pre done : List JsmnTok} {container : JsmnTok}
    (h : Inside pre container done p) (hturns : Turns pre p) :
    behindValue p = { p with toksuper := some pre.length } := by
  rw [behindValue]
  rcases hturns with hsuper | ⟨i, token, hsuper, htoken, hleaf⟩
  · have hself : p.tokens[pre.length]? = some container := by
      rw [h.tokens, List.getElem?_append_right (Nat.le_refl _), Nat.sub_self]
      rfl
    rw [hsuper, Option.bind_some, hself, Option.any_some, h.isContainer]
    rw [← hsuper]
    rfl
  · have hlast : lastBelow (fun token => token.isContainer && token.isOpen) p.tokens
        p.tokens.length = some pre.length := by
      rw [h.tokens]
      refine lastBelow_append_cons ?_ fun token htoken => ?_
      · rw [h.isContainer, h.isOpen]
        rfl
      · rw [h.closed token htoken, Bool.and_false]
    rw [hsuper, Option.bind_some, htoken, Option.any_some, hleaf, hlast]
    rfl

/-- A separator leads back to the container as well. -/
theorem reads_separator {pre done : List JsmnTok} {container : JsmnTok} {separator : List UInt8}
    (h : Inside pre container done p)
    (hseparator : separator = [] ∧ p.toksuper = some pre.length ∨ separator = [44] ∧ Turns pre p)
    (hjs : js.drop p.pos = separator ++ tail) :
    Reads js numTokens p
      { p with pos := p.pos + separator.length, toksuper := some pre.length } := by
  rcases hseparator with ⟨rfl, hsuper⟩ | ⟨rfl, hturns⟩
  · rw [← hsuper]
    exact .refl p
  · have hround : jsmnRound js numTokens 44 p = .ok { p with toksuper := some pre.length } :=
      (rfl : jsmnRound js numTokens 44 p = .ok (behindValue p)).trans
        (congrArg Except.ok (behindValue_of_turns h hturns))
    exact reads_move hjs (by decide) hround rfl

theorem Inside.of_eq {pre done : List JsmnTok} {container : JsmnTok}
    (h : Inside pre container done p) (hq : q.tokens = p.tokens) : Inside pre container done q :=
  ⟨hq.trans h.tokens, h.isOpen, h.isContainer, h.closed⟩

theorem isOpen_tokenOf {n : Nat} {lexemes : List Lexeme} :
    ∀ token ∈ lexemes.map (tokenOf n), token.isOpen = false := by
  intro token htoken
  obtain ⟨l, -, rfl⟩ := List.mem_map.mp htoken
  rfl

theorem lastOpen_growSuper (toksuper : Option Nat) (tokens : List JsmnTok) :
    lastOpen (growSuper toksuper tokens) = lastOpen tokens := by
  rw [lastOpen, length_growSuper]
  exact lastBelow_congr fun i _ => any_isOpen_growSuper toksuper tokens i

/-- The opening bracket, and the blanks behind it. -/
theorem reads_open {type : JsonType} {first : UInt8} {blanks : List Blank} (hfirst : first ≠ 0)
    (hopen : jsmnRound js numTokens first p = openContainer numTokens type p)
    (hjs : js.drop p.pos = first :: (blankText blanks ++ tail))
    (hsuper : ∀ i, p.toksuper = some i → i < p.tokens.length) :
    ∃ q, Reads js numTokens p q ∧ q.pos = p.pos + 1 + (blankText blanks).length ∧
      q.tokens = growSuper p.toksuper p.tokens ++ [⟨type, p.pos, none, 0⟩] ∧
      q.toksuper = some p.tokens.length := by
  have hround := hopen.trans (openContainer_eq type)
  have hreads := reads_alloc hjs hfirst hround (by simp)
  simp only [growSuper_append hsuper] at hreads
  have hjs' : js.drop (p.pos + 1) = blankText blanks ++ tail := @drop_of_append js _ p.pos [first] hjs
  exact ⟨_, hreads.trans (reads_blanks blanks hjs'), rfl, rfl, rfl⟩

/-- The closing bracket. -/
theorem reads_close (type : JsonType) {last : UInt8} {pre done : List JsmnTok} {container : JsmnTok}
    (hlast : last ≠ 0) (hclose : jsmnRound js numTokens last p = closeContainer type p)
    (hjs : js.drop p.pos = last :: tail) (h : Inside pre container done p)
    (htype : container.type = type) :
    ∃ q, Reads js numTokens p q ∧ q.pos = p.pos + 1 ∧
      q.tokens = pre ++ { container with stop := some (p.pos + 1) } :: done ∧
      q.toksuper = lastOpen pre := by
  have hself : p.tokens[pre.length]? = some container := by
    rw [h.tokens, List.getElem?_append_right (Nat.le_refl _), Nat.sub_self]
    rfl
  have htokens : (p.tokens.modify pre.length fun token => { token with stop := some (p.pos + 1) }) =
      pre ++ { container with stop := some (p.pos + 1) } :: done := by
    rw [h.tokens, modify_append_cons]
  have hfound : lastBelow JsmnTok.isOpen p.tokens p.tokens.length = some pre.length := h.lastOpen
  have hround : jsmnRound js numTokens last p = .ok
      ⟨p.pos, pre ++ { container with stop := some (p.pos + 1) } :: done, lastOpen pre, p.count⟩ := by
    rw [hclose, closeContainer, hfound]
    simp only [hself, Option.any_some, htype, decide_true, if_true, htokens, lastBelow_append]
    rfl
  have hlength : p.tokens.length = (pre ++ { container with stop := some (p.pos + 1) } :: done).length := by
    rw [h.tokens, List.length_append, List.length_append]
    rfl
  exact ⟨_, reads_move hjs hlast hround hlength.symm, rfl, rfl, rfl⟩

/-- A bracket, what stands in it, and the bracket that closes it. -/
theorem reads_container {type : JsonType} {first last : UInt8} {blanks : List Blank}
    {body : List UInt8} {size : Nat} {children : List JsmnTok}
    (htype : type = .object ∨ type = .array) (hfirst : first ≠ 0) (hlast : last ≠ 0)
    (hopen : ∀ p, jsmnRound js numTokens first p = openContainer numTokens type p)
    (hclose : ∀ p, jsmnRound js numTokens last p = closeContainer type p)
    (hjs : js.drop p.pos = first :: (blankText blanks ++ (body ++ last :: tail)))
    (hsuper : ∀ i, p.toksuper = some i → i < p.tokens.length)
    (hchildren : ∀ token ∈ children, token.isOpen = false)
    (hbody : ∀ {pre : List JsmnTok} {container : JsmnTok} {p : JsmnParser},
      Inside pre container [] p → p.toksuper = some pre.length →
        js.drop p.pos = body ++ last :: tail → ∃ q, Reads js numTokens p q ∧
          q.pos = p.pos + body.length ∧
          q.tokens = pre ++ { container with size := container.size + size } :: children) :
    ∃ q, Reads js numTokens p q ∧ q.pos = p.pos + (1 + (blankText blanks).length + body.length + 1) ∧
      q.tokens = growSuper p.toksuper p.tokens ++
        ⟨type, p.pos, some (p.pos + (1 + (blankText blanks).length + body.length + 1)), size⟩ ::
          children ∧ q.toksuper = lastOpen p.tokens := by
  have hcontainer : (⟨type, p.pos, none, 0⟩ : JsmnTok).isContainer = true := by
    rcases htype with rfl | rfl <;> rfl
  obtain ⟨p₁, hreads₁, hpos₁, htokens₁, hsuper₁⟩ := reads_open hfirst (hopen p) hjs hsuper
  have hjs₁ : js.drop p₁.pos = body ++ last :: tail := by
    have hbehind := @drop_of_append js _ p.pos (first :: blankText blanks) hjs
    rwa [List.length_cons, Nat.add_comm _ 1, ← Nat.add_assoc, ← hpos₁] at hbehind
  obtain ⟨p₂, hreads₂, hpos₂, htokens₂⟩ := hbody ⟨htokens₁, rfl, hcontainer, nofun⟩
    (by rw [hsuper₁, length_growSuper]) hjs₁
  obtain ⟨p₃, hreads₃, hpos₃, htokens₃, hsuper₃⟩ := reads_close type hlast (hclose p₂)
    (hpos₂ ▸ drop_of_append hjs₁) ⟨htokens₂, rfl, hcontainer, hchildren⟩ rfl
  have hpos : p₂.pos + 1 = p.pos + (1 + (blankText blanks).length + body.length + 1) := by omega
  refine ⟨p₃, hreads₁.trans (hreads₂.trans hreads₃), hpos₃.trans hpos, ?_, ?_⟩
  · rw [htokens₃, hpos, Nat.zero_add]
  · rw [hsuper₃, lastOpen_growSuper]

variable (numTokens) in
/-- The separator, and the blanks behind it. -/
theorem reads_lead {pre done : List JsmnTok} {container : JsmnTok} {separator : List UInt8}
    {blanks : List Blank} (h : Inside pre container done p)
    (hseparator : separator = [] ∧ p.toksuper = some pre.length ∨ separator = [44] ∧ Turns pre p)
    (hjs : js.drop p.pos = separator ++ (blankText blanks ++ tail)) :
    ∃ q, Reads js numTokens p q ∧ q.pos = p.pos + (separator.length + (blankText blanks).length) ∧
      q.tokens = p.tokens ∧ q.toksuper = some pre.length ∧ js.drop q.pos = tail := by
  have hjs' := drop_of_append hjs
  exact ⟨_, (reads_separator h hseparator hjs).trans (reads_blanks blanks hjs'), Nat.add_assoc ..,
    rfl, rfl, drop_of_append hjs'⟩

theorem behindKey_of_length {n : Nat} (h : p.tokens.length = n + 1) :
    behindKey p = { p with toksuper := some n } := by
  have hne : p.tokens ≠ [] := fun hnil => by rw [hnil] at h; exact absurd h nofun
  rw [behindKey, if_neg hne, h, Nat.add_sub_cancel]

variable (numTokens) in
/-- A key, the colon, and the blanks around it. -/
theorem reads_key {key : List JsonChar} {beforeColon behindColon : List Blank}
    (hjs : js.drop p.pos = 34 :: (stringText key ++ 34 :: (blankText beforeColon ++
      58 :: (blankText behindColon ++ tail)))) :
    ∃ q, Reads js numTokens p q ∧
      q.pos = p.pos + ((stringText key).length + (blankText beforeColon).length +
        (blankText behindColon).length + 3) ∧
      q.tokens = growSuper p.toksuper (p.tokens ++
        [⟨.string, p.pos + 1, some (p.pos + 1 + (stringText key).length), 0⟩]) ∧
      q.toksuper = some p.tokens.length ∧ js.drop q.pos = tail := by
  have hreads₁ : Reads js numTokens p _ := reads_string hjs
  have hjs₁ : js.drop (p.pos + ((stringText key).length + 2)) =
      blankText beforeColon ++ 58 :: (blankText behindColon ++ tail) := by
    refine (congrArg js.drop ?_).trans (@drop_of_append js _ p.pos (34 :: (stringText key ++ [34])) ?_)
    · rw [List.length_cons, List.length_append]
      rfl
    · rw [hjs, List.cons_append, List.append_assoc]
      rfl
  have hreads₂ := hreads₁.trans (reads_blanks beforeColon hjs₁)
  have hjs₂ := drop_of_append hjs₁
  have hlength : (growSuper p.toksuper (p.tokens ++
      [⟨.string, p.pos + 1, some (p.pos + 1 + (stringText key).length), 0⟩])).length =
        p.tokens.length + 1 := (length_growSuper _ _).trans List.length_append
  have hcolon := hreads₂.trans (reads_move hjs₂ (by decide)
    (congrArg Except.ok (behindKey_of_length hlength)) rfl)
  have hjs₃ := @drop_of_append js _ _ [58] hjs₂
  refine ⟨_, hcolon.trans (reads_blanks behindColon hjs₃), ?_, rfl, rfl, drop_of_append hjs₃⟩
  dsimp only
  omega

/-- What stands behind a member or an item. -/
theorem ends_behind (behind : List Blank) (text : List UInt8) {last : UInt8}
    (hlast : isDelimiter last = true) (htext : text = [] ∨ text.head? = some 44) (tail : List UInt8) :
    Ends (blankText behind ++ (text ++ last :: tail)) := by
  intro c hc
  cases behind with
  | cons b behind =>
    obtain rfl := Option.some.inj hc
    have hb := b.2
    simp only [List.mem_cons, List.not_mem_nil, or_false] at hb
    rcases hb with hb | hb | hb | hb <;> rw [hb] <;> rfl
  | nil =>
    rcases htext with rfl | hhead
    · obtain rfl := Option.some.inj hc
      exact hlast
    · obtain ⟨text, rfl⟩ : ∃ text', text = 44 :: text' := ⟨_, List.eq_cons_of_mem_head? hhead⟩
      obtain rfl := Option.some.inj hc
      rfl

theorem text_head_items (items : Items) : items.text [44] = [] ∨ (items.text [44]).head? = some 44 := by
  cases items with
  | nil => exact .inl rfl
  | cons => exact .inr rfl

theorem text_head_members (members : Members) :
    members.text [44] = [] ∨ (members.text [44]).head? = some 44 := by
  cases members with
  | nil => exact .inl rfl
  | cons => exact .inr rfl

mutual

/-- **A value is read as its tokens**, and whatever container the parser was in is the
last one open. -/
theorem reads_json : ∀ (j : Json) {p : JsmnParser} {tail : List UInt8},
    js.drop p.pos = j.text ++ tail → Ends tail →
      (∀ i, p.toksuper = some i → i < p.tokens.length) →
        ∃ q, Reads js numTokens p q ∧ q.pos = p.pos + j.text.length ∧
          q.tokens = growSuper p.toksuper p.tokens ++ (j.lexemes tail).map (tokenOf js.length) ∧
          (q.toksuper = p.toksuper ∨ q.toksuper = lastOpen p.tokens)
  | .primitive first rest, p, tail, hjs, hends, hsuper => by
    rw [Json.text] at hjs
    refine ⟨_, reads_primitive hends hjs, ?_, ?_, .inl rfl⟩
    · rw [Json.text, List.length_map, List.length_cons]
    · rw [Json.lexemes, List.map_singleton, tokenOf_eq hjs (by simp)]
      exact growSuper_append hsuper _
  | .string s, p, tail, hjs, _, hsuper => by
    have hjs' : js.drop p.pos = 34 :: (stringText s ++ 34 :: tail) := by
      rw [hjs, Json.text, List.cons_append, List.append_assoc]
      rfl
    have hjs₁ : js.drop (p.pos + 1) = stringText s ++ 34 :: tail :=
      @drop_of_append js _ p.pos [34] hjs'
    refine ⟨_, reads_string hjs', ?_, ?_, .inl rfl⟩
    · rw [Json.text, List.length_cons, List.length_append]
      rfl
    · rw [Json.lexemes, List.map_singleton, tokenOf_eq hjs₁ (by simp)]
      exact growSuper_append hsuper _
  | .array blanks items, p, tail, hjs, _, hsuper => by
    have hjs' : js.drop p.pos = 91 :: (blankText blanks ++ (items.text [] ++ 93 :: tail)) := by
      rw [hjs, Json.text, List.cons_append, List.append_assoc, List.append_assoc]
      rfl
    obtain ⟨q, hreads, hpos, htokens, hq⟩ := reads_container (.inr rfl) (by decide) (by decide)
      (fun _ => rfl) (fun _ => rfl) hjs' hsuper (isOpen_tokenOf (n := js.length))
      fun h hp hjs => reads_items items [] h (.inl ⟨rfl, hp⟩) rfl hjs
    have hlength : (Json.text (.array blanks items)).length =
        1 + (blankText blanks).length + (items.text []).length + 1 := by
      rw [Json.text, List.length_cons, List.length_append, List.length_append, List.length_singleton]
      omega
    refine ⟨q, hreads, hlength ▸ hpos, htokens.trans ?_, .inr hq⟩
    rw [Json.lexemes, List.map_cons, tokenOf_eq hjs (by simp [Json.text]), hlength]
  | .object blanks members, p, tail, hjs, _, hsuper => by
    have hjs' : js.drop p.pos = 123 :: (blankText blanks ++ (members.text [] ++ 125 :: tail)) := by
      rw [hjs, Json.text, List.cons_append, List.append_assoc, List.append_assoc]
      rfl
    obtain ⟨q, hreads, hpos, htokens, hq⟩ := reads_container (.inl rfl) (by decide) (by decide)
      (fun _ => rfl) (fun _ => rfl) hjs' hsuper (isOpen_tokenOf (n := js.length))
      fun h hp hjs => reads_members members [] h (.inl ⟨rfl, hp⟩) rfl hjs
    have hlength : (Json.text (.object blanks members)).length =
        1 + (blankText blanks).length + (members.text []).length + 1 := by
      rw [Json.text, List.length_cons, List.length_append, List.length_append, List.length_singleton]
      omega
    refine ⟨q, hreads, hlength ▸ hpos, htokens.trans ?_, .inr hq⟩
    rw [Json.lexemes, List.map_cons, tokenOf_eq hjs (by simp [Json.text]), hlength]

theorem reads_items : ∀ (items : Items) (separator : List UInt8) {p : JsmnParser}
    {pre done : List JsmnTok} {container : JsmnTok} {last : UInt8} {tail : List UInt8},
    Inside pre container done p →
      (separator = [] ∧ p.toksuper = some pre.length ∨ separator = [44] ∧ Turns pre p) →
        isDelimiter last = true → js.drop p.pos = items.text separator ++ last :: tail →
          ∃ q, Reads js numTokens p q ∧ q.pos = p.pos + (items.text separator).length ∧
            q.tokens = pre ++ { container with size := container.size + items.count } ::
              (done ++ (items.lexemes (last :: tail)).map (tokenOf js.length))
  | .nil, separator, p, pre, done, container, last, tail, h, _, _, _ =>
    ⟨p, .refl p, rfl, h.tokens.trans (by rw [Items.lexemes, List.map_nil, List.append_nil]; rfl)⟩
  | .cons before value behind rest, separator, p, pre, done, container, last, tail, h, hseparator,
      hlast, hjs => by
    simp only [Items.text, List.append_assoc] at hjs
    obtain ⟨p₁, hreads₁, hpos₁, htokens₁, hsuper₁, hjs₁⟩ :=
      reads_lead numTokens h hseparator hjs
    have hinside₁ := h.of_eq htokens₁
    obtain ⟨p₂, hreads₂, hpos₂, htokens₂, hsuper₂⟩ := reads_json value hjs₁
      (ends_behind behind _ hlast (text_head_items rest) tail) (by
        intro i hi
        rw [hsuper₁] at hi
        obtain rfl := Option.some.inj hi
        rw [hinside₁.tokens, List.length_append]
        exact Nat.lt_add_of_pos_right (Nat.succ_pos _))
    have hjs₂ := drop_of_append hjs₁
    rw [← hpos₂] at hjs₂
    have hturns : p₂.toksuper = some pre.length := by
      rcases hsuper₂ with hsuper₂ | hsuper₂
      · exact hsuper₂.trans hsuper₁
      · exact hsuper₂.trans hinside₁.lastOpen
    rw [hsuper₁, hinside₁.tokens, growSuper_append_cons, List.append_assoc, List.cons_append] at htokens₂
    obtain ⟨q, hreads₃, hpos₃, htokens₃⟩ := reads_items rest [44]
      (p := { p₂ with pos := p₂.pos + (blankText behind).length })
      ⟨htokens₂, h.isOpen, h.isContainer, fun token htoken => (List.mem_append.mp htoken).elim
        (h.closed token) (isOpen_tokenOf token)⟩
      (.inr ⟨rfl, .inl hturns⟩) hlast (drop_of_append hjs₂)
    refine ⟨q, hreads₁.trans (hreads₂.trans ((reads_blanks behind hjs₂).trans hreads₃)), ?_, ?_⟩
    · simp only [Items.text, List.length_append] at hpos₃ ⊢
      omega
    · rw [htokens₃, Items.lexemes, List.map_append, List.append_assoc, Items.count, JsmnTok.grow,
        Nat.add_assoc, Nat.add_comm 1]

theorem reads_members : ∀ (members : Members) (separator : List UInt8) {p : JsmnParser}
    {pre done : List JsmnTok} {container : JsmnTok} {last : UInt8} {tail : List UInt8},
    Inside pre container done p →
      (separator = [] ∧ p.toksuper = some pre.length ∨ separator = [44] ∧ Turns pre p) →
        isDelimiter last = true → js.drop p.pos = members.text separator ++ last :: tail →
          ∃ q, Reads js numTokens p q ∧ q.pos = p.pos + (members.text separator).length ∧
            q.tokens = pre ++ { container with size := container.size + members.count } ::
              (done ++ (members.lexemes (last :: tail)).map (tokenOf js.length))
  | .nil, separator, p, pre, done, container, last, tail, h, _, _, _ =>
    ⟨p, .refl p, rfl, h.tokens.trans (by rw [Members.lexemes, List.map_nil, List.append_nil]; rfl)⟩
  | .cons before key beforeColon behindColon value behind rest, separator, p, pre, done, container,
      last, tail, h, hseparator, hlast, hjs => by
    simp only [Members.text, List.append_assoc, List.cons_append] at hjs
    obtain ⟨p₁, hreads₁, hpos₁, htokens₁, hsuper₁, hjs₁⟩ :=
      reads_lead numTokens h hseparator hjs
    obtain ⟨p₂, hreads₂, hpos₂, htokens₂, hsuper₂, hjs₂⟩ :=
      reads_key numTokens hjs₁
    rw [htokens₁, h.tokens, hsuper₁, List.append_assoc, List.cons_append, growSuper_append_cons]
      at htokens₂
    rw [htokens₁, h.tokens, List.length_append, List.length_cons] at hsuper₂
    generalize hname : (⟨.string, p₁.pos + 1, some (p₁.pos + 1 + (stringText key).length), 0⟩ : JsmnTok) =
      name at htokens₂
    have hinside₂ : Inside pre container.grow (done ++ [name]) p₂ :=
      ⟨htokens₂, h.isOpen, h.isContainer, fun token htoken => (List.mem_append.mp htoken).elim
        (h.closed token) fun hkey => by rw [List.mem_singleton.mp hkey, ← hname]; rfl⟩
    obtain ⟨p₃, hreads₃, hpos₃, htokens₃, hsuper₃⟩ := reads_json value hjs₂
      (ends_behind behind _ hlast (text_head_members rest) tail) (by
        intro i hi
        rw [hsuper₂] at hi
        obtain rfl := Option.some.inj hi
        rw [htokens₂]
        simp)
    have hjs₃ := drop_of_append hjs₂
    rw [← hpos₃] at hjs₃
    -- the key has the value as its child
    have hgrow := growSuper_append_cons (pre ++ container.grow :: done) name []
    simp only [List.append_assoc, List.cons_append, ← htokens₂, List.length_append, List.length_cons,
      ← hsuper₂] at hgrow
    rw [hgrow, List.append_assoc, List.cons_append] at htokens₃
    have hinside₃ : Inside pre container.grow
        ((done ++ [name.grow]) ++ (value.lexemes _).map (tokenOf js.length)) p₃ :=
      ⟨htokens₃, h.isOpen, h.isContainer, fun token htoken => by
        rcases List.mem_append.mp htoken with htoken | htoken
        · rcases List.mem_append.mp htoken with htoken | htoken
          · exact h.closed token htoken
          · rw [List.mem_singleton.mp htoken, ← hname]
            rfl
        · exact isOpen_tokenOf token htoken⟩
    have hturns : Turns pre p₃ := by
      rcases hsuper₃ with hsuper₃ | hsuper₃
      · refine .inr ⟨_, name.grow, hsuper₃.trans hsuper₂, ?_, by rw [← hname]; rfl⟩
        rw [htokens₃, List.append_assoc, ← List.cons_append, ← List.append_assoc,
          List.getElem?_append_right (by simp)]
        simp
      · exact .inl (hsuper₃.trans hinside₂.lastOpen)
    obtain ⟨q, hreads₄, hpos₄, htokens₄⟩ := reads_members rest [44]
      (p := { p₃ with pos := p₃.pos + (blankText behind).length }) (hinside₃.of_eq rfl)
      (.inr ⟨rfl, hturns⟩) hlast (drop_of_append hjs₃)
    refine ⟨q, hreads₁.trans (hreads₂.trans (hreads₃.trans
      ((reads_blanks behind hjs₃).trans hreads₄))), ?_, ?_⟩
    · simp only [Members.text, List.length_append, List.length_cons] at hpos₄ ⊢
      omega
    · have hkey : tokenOf js.length ⟨.string, 1, stringText key ++ _, (stringText key).length⟩ = name.grow :=
        (tokenOf_eq (@drop_of_append js _ p₁.pos [34] hjs₁) (by simp)).trans (by rw [← hname]; rfl)
      rw [htokens₄, Members.lexemes, List.map_cons, List.map_append, hkey, Members.count, JsmnTok.grow,
        Nat.add_assoc, Nat.add_comm 1]
      simp only [List.append_assoc, List.cons_append, List.nil_append]

end

end Values

/-! ## Texts -/

section Texts

variable {numTokens : Nat}

/-- The run over a whole text. -/
theorem reads_text (t : JsonText) :
    ∃ q, Reads t.text numTokens jsmnInit q ∧ JsmnDone t.text q ∧
      q.tokens = t.tokens.map JsonToken.closed := by
  have hjs : t.text.drop jsmnInit.pos =
      blankText t.before ++ (t.value.text ++ blankText t.behind) := rfl
  have hjs₁ := drop_of_append hjs
  have hends : Ends (blankText t.behind) := by
    intro c hc
    obtain ⟨b, -, rfl⟩ := List.mem_map.mp (List.mem_of_mem_head? hc)
    have hb := b.2
    simp only [List.mem_cons, List.not_mem_nil, or_false] at hb
    rcases hb with hb | hb | hb | hb <;> rw [hb] <;> rfl
  have hbefore : Reads t.text numTokens jsmnInit _ := reads_blanks t.before hjs
  obtain ⟨q, hreads, hpos, htokens, -⟩ := reads_json t.value
    (p := { jsmnInit with pos := jsmnInit.pos + (blankText t.before).length }) hjs₁ hends nofun
  have hjs₂ : t.text.drop q.pos = blankText t.behind ++ [] := by
    rw [List.append_nil, hpos]
    exact drop_of_append hjs₁
  refine ⟨_, hbefore.trans (hreads.trans (reads_blanks t.behind hjs₂)), fun c hc => ?_, ?_⟩
  · have hnil := congrArg List.head? (drop_of_append hjs₂)
    rw [List.head?_drop] at hnil
    exact absurd (hnil.symm.trans hc) nofun
  · exact htokens.trans (List.map_map ..).symm

theorem jsmnParse_of_room (t : JsonText) (hroom : t.tokens.length ≤ numTokens) :
    jsmnParse t.text numTokens = .ok (t.tokens.length, t.tokens.map JsonToken.closed) := by
  obtain ⟨q, hreads, hdone, htokens⟩ := @reads_text numTokens t
  have hlength : q.tokens.length = t.tokens.length := by rw [htokens, List.length_map]
  have hsteps := hreads.comes (hlength ▸ hroom)
  have hclosed : q.tokens.any JsmnTok.isOpen = false := by
    rw [htokens, List.any_map, List.any_eq_false]
    exact fun _ _ => Bool.false_ne_true
  rw [jsmnParse_of_done hsteps hdone hclosed, count_of_steps hsteps, hlength, htokens]

theorem jsmnParse_of_full (t : JsonText) (hfull : numTokens < t.tokens.length) :
    jsmnParse t.text numTokens = .error .noMem := by
  obtain ⟨q, hreads, -, htokens⟩ := @reads_text numTokens t
  have hlength : q.tokens.length = t.tokens.length := by rw [htokens, List.length_map]
  obtain ⟨r, hsteps, hfails⟩ := hreads.fails (hlength ▸ hfull) (Nat.zero_le _)
  exact jsmnParse_of_fails hsteps hfails

/-- **The tokenizer finds the tokens of every JSON text**, or has too few of them. -/
theorem jsmnParse_text (t : JsonText) (numTokens : Nat) :
    jsmnParse t.text numTokens =
      if t.tokens.length ≤ numTokens then .ok (t.tokens.length, t.tokens.map JsonToken.closed)
      else .error .noMem := by
  split
  · next hroom => exact jsmnParse_of_room t hroom
  · next hfull => exact jsmnParse_of_full t (Nat.lt_of_not_le hfull)

end Texts

end OnionRelay
