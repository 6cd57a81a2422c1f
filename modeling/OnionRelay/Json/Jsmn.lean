import Mathlib.Data.List.Basic
import Mathlib.Logic.Relation
import OnionRelay.Lib.Json

/-!
# The tokenizer

`jsmn_parse` as `json_wrapper_parse` calls it: on a C string and an array of tokens,
without the strict mode and without the links to the parents.  `jsmnRound` is the body of
its loop, which ends at a NUL as well as at the end of the text.

Every round goes at least one byte forward, so the length of the text is enough fuel
(`jsmnLoop_of_steps`): `Steps` are the rounds of a run, and a run ends where no round is
left or in a round that fails.
-/

namespace OnionRelay

open OnionRelay.Lib

/-- `enum jsmnerr` -/
inductive JsmnErr
  | noMem
  | inval
  | part
deriving DecidableEq, Repr

/-- `jsmntok_t`; a container without an end is still open. -/
structure JsmnTok where
  type : JsonType
  start : Nat
  stop : Option Nat
  size : Nat
deriving DecidableEq

/-- `jsmn_parser`: for `toknext` the tokens in front of it, and the `count` of
`jsmn_parse`. -/
structure JsmnParser where
  pos : Nat
  tokens : List JsmnTok
  toksuper : Option Nat
  count : Nat
deriving DecidableEq

/-- `jsmn_init` -/
def jsmnInit : JsmnParser := ⟨0, [], none, 0⟩

/-- A token with its end. -/
def JsonToken.closed (token : JsonToken) : JsmnTok :=
  ⟨token.type, token.start, some token.stop, token.size⟩

def JsmnTok.isOpen (token : JsmnTok) : Bool := token.stop.isNone

def JsmnTok.isContainer (token : JsmnTok) : Bool := token.type = .array || token.type = .object

/-- `token->size++` -/
def JsmnTok.grow (token : JsmnTok) : JsmnTok := { token with size := token.size + 1 }

/-- `tokens[toksuper].size++` -/
def growSuper (toksuper : Option Nat) (tokens : List JsmnTok) : List JsmnTok :=
  match toksuper with
  | none => tokens
  | some i => tokens.modify i JsmnTok.grow

/-- The loops `for (; i >= 0; i--)`: the last token below `i` that is looked for. -/
def lastBelow (found : JsmnTok → Bool) (tokens : List JsmnTok) : Nat → Option Nat
  | 0 => none
  | i + 1 => if tokens[i]?.any found then some i else lastBelow found tokens i

/-! ## The scanners -/

/-- The bytes that end a primitive. -/
def isDelimiter (c : UInt8) : Bool :=
  c = 58 || c = 9 || c = 13 || c = 10 || c = 32 || c = 44 || c = 93 || c = 125

/-- The loop of `jsmn_parse_primitive`: the length of the primitive.  A `char` is signed,
and all bytes from 127 on are refused. -/
def primitiveLength : List UInt8 → Except JsmnErr Nat
  | [] => .ok 0
  | c :: js =>
    if c = 0 then .ok 0
    else if isDelimiter c then .ok 0
    else if c < 32 || 127 ≤ c then .error .inval
    else (primitiveLength js).map (· + 1)

def isEscapeLetter (c : UInt8) : Bool :=
  c = 34 || c = 47 || c = 92 || c = 98 || c = 102 || c = 114 || c = 110 || c = 116

/-- Where the loop of `jsmn_parse_string` stands: behind a backslash, or behind `\u`, with
`n` digits to follow the next one. -/
inductive StringState
  | plain
  | escape
  | digit (n : Nat)

/-- The loop of a `\u` takes `n` digits at most. -/
def StringState.digits : Nat → StringState
  | 0 => .plain
  | n + 1 => .digit n

/-- The loop of `jsmn_parse_string` behind the opening quote: the length of the string.  A
backslash at the end of the text is no escape. -/
def stringLength : StringState → List UInt8 → Except JsmnErr Nat
  | _, [] => .error .part
  | .digit n, c :: js =>
    if c = 0 then .error .part
    else if isHexDigit c then (stringLength (.digits n) js).map (· + 1)
    else .error .inval
  | .escape, c :: js =>
    if isEscapeLetter c then (stringLength .plain js).map (· + 1)
    else if c = 117 then (stringLength (.digits 4) js).map (· + 1)
    else .error .inval
  | .plain, c :: js =>
    if c = 0 then .error .part
    else if c = 34 then .ok 0
    else if c = 92 then (stringLength .escape js).map (· + 1)
    else (stringLength .plain js).map (· + 1)

/-! ## The rounds -/

section Rounds

variable (js : List UInt8) (numTokens : Nat)

/-- `jsmn_alloc_token`, filled. -/
def jsmnAllocToken (parser : JsmnParser) (token : JsmnTok) : Except JsmnErr JsmnParser :=
  if parser.tokens.length < numTokens then .ok { parser with tokens := parser.tokens ++ [token] }
  else .error .noMem

/-- `jsmn_parse_primitive` -/
def jsmnParsePrimitive (parser : JsmnParser) : Except JsmnErr JsmnParser := do
  let n ← primitiveLength (js.drop parser.pos)
  let next ← jsmnAllocToken numTokens parser ⟨.primitive, parser.pos, some (parser.pos + n), 0⟩
  return { next with pos := parser.pos + n - 1 }

/-- `jsmn_parse_string` -/
def jsmnParseString (parser : JsmnParser) : Except JsmnErr JsmnParser := do
  let n ← stringLength .plain (js.drop (parser.pos + 1))
  let next ← jsmnAllocToken numTokens parser ⟨.string, parser.pos + 1, some (parser.pos + 1 + n), 0⟩
  return { next with pos := parser.pos + 1 + n }

/-- What follows on a token that was read. -/
def JsmnParser.counted (parser : JsmnParser) : JsmnParser :=
  { parser with
    count := parser.count + 1
    tokens := growSuper parser.toksuper parser.tokens }

/-- `case '{'` and `case '['` -/
def openContainer (type : JsonType) (parser : JsmnParser) : Except JsmnErr JsmnParser := do
  let next ← jsmnAllocToken numTokens parser ⟨type, parser.pos, none, 0⟩
  return { next.counted with toksuper := some parser.tokens.length }

/-- `case '}'` and `case ']'` -/
def closeContainer (type : JsonType) (parser : JsmnParser) : Except JsmnErr JsmnParser :=
  match lastBelow JsmnTok.isOpen parser.tokens parser.tokens.length with
  | none => .error .inval
  | some i =>
    if parser.tokens[i]?.any fun token => token.type = type then
      let tokens := parser.tokens.modify i fun token => { token with stop := some (parser.pos + 1) }
      .ok { parser with tokens := tokens, toksuper := lastBelow JsmnTok.isOpen tokens i }
    else .error .inval

/-- `case ':'` -/
def behindKey (parser : JsmnParser) : JsmnParser :=
  { parser with
    toksuper := if parser.tokens = [] then none else some (parser.tokens.length - 1) }

/-- `case ','` -/
def behindValue (parser : JsmnParser) : JsmnParser :=
  if (parser.toksuper.bind (parser.tokens[·]?)).any fun token => !token.isContainer then
    match lastBelow (fun token => token.isContainer && token.isOpen) parser.tokens
        parser.tokens.length with
    | some i => { parser with toksuper := some i }
    | none => parser
  else parser

/-- The body of the loop of `jsmn_parse` at the character `c`. -/
def jsmnRound (c : UInt8) (parser : JsmnParser) : Except JsmnErr JsmnParser :=
  if c = 123 then openContainer numTokens .object parser
  else if c = 91 then openContainer numTokens .array parser
  else if c = 125 then closeContainer .object parser
  else if c = 93 then closeContainer .array parser
  else if c = 34 then (jsmnParseString js numTokens parser).map JsmnParser.counted
  else if c = 9 || c = 13 || c = 10 || c = 32 then .ok parser
  else if c = 58 then .ok (behindKey parser)
  else if c = 44 then .ok (behindValue parser)
  else (jsmnParsePrimitive js numTokens parser).map JsmnParser.counted

/-- The loop of `jsmn_parse`. -/
def jsmnLoop : Nat → JsmnParser → Except JsmnErr JsmnParser
  | 0, parser => .ok parser
  | fuel + 1, parser =>
    match js[parser.pos]? with
    | none => .ok parser
    | some c =>
      if c = 0 then .ok parser
      else do
        let next ← jsmnRound js numTokens c parser
        jsmnLoop fuel { next with pos := next.pos + 1 }

/-- `jsmn_parse`: the count and the tokens. -/
def jsmnParse : Except JsmnErr (Nat × List JsmnTok) := do
  let parser ← jsmnLoop js numTokens js.length jsmnInit
  if parser.tokens.any JsmnTok.isOpen then .error .part else .ok (parser.count, parser.tokens)

end Rounds

/-! ## What each piece does -/

section Pieces

variable {js : List UInt8} {numTokens : Nat} {parser : JsmnParser}

theorem jsmnParsePrimitive_ok {n : Nat} (hn : primitiveLength (js.drop parser.pos) = .ok n) :
    jsmnParsePrimitive js numTokens parser =
      if parser.tokens.length < numTokens then
        .ok ⟨parser.pos + n - 1,
          parser.tokens ++ [⟨.primitive, parser.pos, some (parser.pos + n), 0⟩], parser.toksuper,
          parser.count⟩
      else .error .noMem := by
  by_cases hroom : parser.tokens.length < numTokens
  · simp only [jsmnParsePrimitive, hn, jsmnAllocToken, if_pos hroom]
    rfl
  · simp only [jsmnParsePrimitive, hn, jsmnAllocToken, if_neg hroom]
    rfl

theorem jsmnParseString_ok {n : Nat} (hn : stringLength .plain (js.drop (parser.pos + 1)) = .ok n) :
    jsmnParseString js numTokens parser =
      if parser.tokens.length < numTokens then
        .ok ⟨parser.pos + 1 + n,
          parser.tokens ++ [⟨.string, parser.pos + 1, some (parser.pos + 1 + n), 0⟩], parser.toksuper,
          parser.count⟩
      else .error .noMem := by
  by_cases hroom : parser.tokens.length < numTokens
  · simp only [jsmnParseString, hn, jsmnAllocToken, if_pos hroom]
    rfl
  · simp only [jsmnParseString, hn, jsmnAllocToken, if_neg hroom]
    rfl

theorem jsmnParsePrimitive_error {err : JsmnErr}
    (hn : primitiveLength (js.drop parser.pos) = .error err) :
    jsmnParsePrimitive js numTokens parser = .error err := by
  simp only [jsmnParsePrimitive, hn, bind, Except.bind]

theorem jsmnParseString_error {err : JsmnErr}
    (hn : stringLength .plain (js.drop (parser.pos + 1)) = .error err) :
    jsmnParseString js numTokens parser = .error err := by
  simp only [jsmnParseString, hn, bind, Except.bind]

theorem openContainer_eq (type : JsonType) :
    openContainer numTokens type parser =
      if parser.tokens.length < numTokens then
        .ok ⟨parser.pos, growSuper parser.toksuper (parser.tokens ++ [⟨type, parser.pos, none, 0⟩]),
          some parser.tokens.length, parser.count + 1⟩
      else .error .noMem := by
  by_cases hroom : parser.tokens.length < numTokens
  · simp only [openContainer, jsmnAllocToken, if_pos hroom]
    rfl
  · simp only [openContainer, jsmnAllocToken, if_neg hroom]
    rfl

theorem lastBelow_spec {found : JsmnTok → Bool} {tokens : List JsmnTok} :
    ∀ {n i : Nat}, lastBelow found tokens n = some i →
      i < n ∧ ∃ token, tokens[i]? = some token ∧ found token = true
  | n + 1, i, h => by
    rw [lastBelow] at h
    split at h
    · next hfound =>
      obtain rfl := Option.some.inj h
      obtain ⟨token, htoken, hfound⟩ := (Option.any_eq_true _ _).mp hfound
      exact ⟨Nat.lt_succ_self n, token, htoken, hfound⟩
    · obtain ⟨hi, htoken⟩ := lastBelow_spec h
      exact ⟨Nat.lt_succ_of_lt hi, htoken⟩

theorem lastBelow_last {found : JsmnTok → Bool} {tokens : List JsmnTok} :
    ∀ {n i : Nat}, lastBelow found tokens n = some i →
      ∀ j, i < j → j < n → tokens[j]?.any found = false
  | n + 1, i, h, j, hij, hjn => by
    rw [lastBelow] at h
    split at h
    · obtain rfl := Option.some.inj h
      exact absurd hij (Nat.not_lt.mpr (Nat.le_of_lt_succ hjn))
    · next hn =>
      rcases Nat.lt_or_ge j n with hj | hj
      · exact lastBelow_last h j hij hj
      · obtain rfl := Nat.le_antisymm (Nat.le_of_lt_succ hjn) hj
        exact Bool.eq_false_iff.mpr hn

/-- The last token that is looked for, and what stands around it. -/
theorem exists_of_lastBelow {found : JsmnTok → Bool} {tokens : List JsmnTok} {i : Nat}
    (h : lastBelow found tokens tokens.length = some i) :
    ∃ pre token done, tokens = pre ++ token :: done ∧ pre.length = i ∧ found token = true ∧
      ∀ t ∈ done, found t = false := by
  obtain ⟨hi, token, htoken, hfound⟩ := lastBelow_spec h
  obtain ⟨_, htoken'⟩ := List.getElem?_eq_some_iff.mp htoken
  refine ⟨tokens.take i, token, tokens.drop (i + 1), ?_, ?_, hfound, fun t ht => ?_⟩
  · rw [← htoken', ← List.drop_eq_getElem_cons hi, List.take_append_drop]
  · rw [List.length_take, Nat.min_eq_left (Nat.le_of_lt hi)]
  · obtain ⟨j, hj, rfl⟩ := List.mem_iff_getElem.mp ht
    rw [List.length_drop] at hj
    have hlast := lastBelow_last h (i + 1 + j) (by omega) (by omega)
    rwa [List.getElem?_eq_getElem (by omega), Option.any_some, ← List.getElem_drop] at hlast

theorem lt_length_of_lastBelow {found : JsmnTok → Bool} {tokens : List JsmnTok} {n i : Nat}
    (h : lastBelow found tokens n = some i) : i < tokens.length := by
  obtain ⟨-, token, htoken, -⟩ := lastBelow_spec h
  exact (List.getElem?_eq_some_iff.mp htoken).1

theorem map_eq_ok {ε α β : Type} {e : Except ε α} {f : α → β} {b : β} (h : e.map f = .ok b) :
    ∃ a, e = .ok a ∧ b = f a := by
  cases e with
  | error err => exact absurd h nofun
  | ok a => exact ⟨a, rfl, (Except.ok.inj h).symm⟩

/-- A primitive has a byte at least, and stands in the text. -/
theorem primitiveLength_bounds :
    ∀ {js : List UInt8} {n : Nat}, primitiveLength js = .ok n → n ≤ js.length ∧
      ∀ c, js.head? = some c → c ≠ 0 → isDelimiter c = false → 0 < n
  | [], n, h => by
    obtain rfl := Except.ok.inj h
    exact ⟨Nat.le_refl 0, nofun⟩
  | c :: js, n, h => by
    rw [primitiveLength] at h
    split at h
    · next hzero =>
      obtain rfl := Except.ok.inj h
      exact ⟨Nat.zero_le _, fun d hd hne => absurd (Option.some.inj hd ▸ hzero) hne⟩
    split at h
    · next hdelimiter =>
      obtain rfl := Except.ok.inj h
      refine ⟨Nat.zero_le _, fun d hd _ hfalse => ?_⟩
      obtain rfl := Option.some.inj hd
      exact absurd hdelimiter (by rw [hfalse]; exact Bool.false_ne_true)
    split at h
    · exact absurd h nofun
    obtain ⟨m, hrest, rfl⟩ := map_eq_ok h
    exact ⟨Nat.succ_le_succ (primitiveLength_bounds hrest).1, fun _ _ _ _ => Nat.succ_pos m⟩

/-- The closing quote of a string stands in the text. -/
theorem stringLength_lt {st : StringState} {js : List UInt8} {n : Nat}
    (h : stringLength st js = .ok n) : n < js.length := by
  fun_induction stringLength st js generalizing n with
  | case9 => exact Except.ok.inj h ▸ Nat.succ_pos _
  | case3 _ _ _ _ _ ih | case5 _ _ _ ih | case6 _ _ ih | case10 _ _ _ ih | case11 _ _ _ _ _ ih =>
    obtain ⟨m, hrest, rfl⟩ := map_eq_ok h
    exact Nat.succ_lt_succ (ih hrest)
  | case1 | case2 | case4 | case7 | case8 => exact absurd h nofun

end Pieces

/-! ## Runs -/

@[simp] theorem length_growSuper (toksuper : Option Nat) (tokens : List JsmnTok) :
    (growSuper toksuper tokens).length = tokens.length := by
  cases toksuper with
  | none => rfl
  | some i => exact List.length_modify ..

/-- What a round does. -/
inductive Moved (js : List UInt8) (numTokens : Nat) (p : JsmnParser) : JsmnParser → Prop
  | opened (type : JsonType) (htype : type = .object ∨ type = .array)
      (hroom : p.tokens.length < numTokens) :
      Moved js numTokens p ⟨p.pos, growSuper p.toksuper (p.tokens ++ [⟨type, p.pos, none, 0⟩]),
        some p.tokens.length, p.count + 1⟩
  | closed (i : Nat) (hlast : lastBelow JsmnTok.isOpen p.tokens p.tokens.length = some i) :
      Moved js numTokens p
        ⟨p.pos, p.tokens.modify i fun token => { token with stop := some (p.pos + 1) },
          lastBelow JsmnTok.isOpen
            (p.tokens.modify i fun token => { token with stop := some (p.pos + 1) }) i, p.count⟩
  | leaf (type : JsonType) (start stop pos : Nat) (htype : type = .string ∨ type = .primitive)
      (hroom : p.tokens.length < numTokens) (hpos : p.pos ≤ pos) (hend : pos < js.length)
      (hstart : p.pos ≤ start) (hle : start ≤ stop) (hlt : start ≤ pos) (hstop : stop ≤ pos + 1) :
      Moved js numTokens p
        ⟨pos, growSuper p.toksuper (p.tokens ++ [⟨type, start, some stop, 0⟩]), p.toksuper,
          p.count + 1⟩
  | turned (toksuper : Option Nat)
      (hsuper : ∀ i, toksuper = some i → p.toksuper = some i ∨ i < p.tokens.length) :
      Moved js numTokens p { p with toksuper := toksuper }

section Runs

variable {js : List UInt8} {numTokens : Nat} {p q : JsmnParser} {c : UInt8}

theorem moved_openContainer {type : JsonType} (htype : type = .object ∨ type = .array)
    (h : openContainer numTokens type p = .ok q) : Moved js numTokens p q := by
  rw [openContainer_eq] at h
  split at h
  · next hroom =>
    obtain rfl := Except.ok.inj h
    exact .opened type htype hroom
  · exact absurd h nofun

theorem moved_closeContainer {type : JsonType} (h : closeContainer type p = .ok q) :
    Moved js numTokens p q := by
  rw [closeContainer] at h
  split at h
  · exact absurd h nofun
  · next i hlast =>
    split at h
    · obtain rfl := Except.ok.inj h
      exact .closed i hlast
    · exact absurd h nofun

theorem moved_jsmnParseString (h : (jsmnParseString js numTokens p).map JsmnParser.counted = .ok q) :
    Moved js numTokens p q := by
  obtain ⟨next, hnext, rfl⟩ := map_eq_ok h
  cases hn : stringLength .plain (js.drop (p.pos + 1)) with
  | error err =>
    rw [jsmnParseString_error hn] at hnext
    exact absurd hnext nofun
  | ok n =>
    have hlt := stringLength_lt hn
    rw [List.length_drop] at hlt
    rw [jsmnParseString_ok hn] at hnext
    split at hnext
    · next hroom =>
      obtain rfl := Except.ok.inj hnext
      exact .leaf .string (p.pos + 1) (p.pos + 1 + n) (p.pos + 1 + n) (.inl rfl) hroom (by omega)
        (by omega) (by omega) (by omega) (by omega) (by omega)
    · exact absurd hnext nofun

theorem moved_jsmnParsePrimitive (hc : js[p.pos]? = some c) (hzero : c ≠ 0)
    (hdelimiter : isDelimiter c = false)
    (h : (jsmnParsePrimitive js numTokens p).map JsmnParser.counted = .ok q) :
    Moved js numTokens p q := by
  obtain ⟨next, hnext, rfl⟩ := map_eq_ok h
  cases hn : primitiveLength (js.drop p.pos) with
  | error err =>
    rw [jsmnParsePrimitive_error hn] at hnext
    exact absurd hnext nofun
  | ok n =>
    obtain ⟨hle, hpos⟩ := primitiveLength_bounds hn
    have hpos := hpos c (by rw [List.head?_drop, hc]) hzero hdelimiter
    rw [List.length_drop] at hle
    rw [jsmnParsePrimitive_ok hn] at hnext
    split at hnext
    · next hroom =>
      obtain rfl := Except.ok.inj hnext
      exact .leaf .primitive p.pos (p.pos + n) (p.pos + n - 1) (.inr rfl) hroom (by omega)
        (by omega) (by omega) (by omega) (by omega) (by omega)
    · exact absurd hnext nofun

theorem moved_behindValue : Moved js numTokens p (behindValue p) := by
  rw [behindValue]
  split
  · split
    · next i hlast =>
      refine .turned (some i) fun j hj => .inr ?_
      obtain rfl := Option.some.inj hj
      exact lt_length_of_lastBelow hlast
    · exact .turned p.toksuper fun i hi => .inl hi
  · exact .turned p.toksuper fun i hi => .inl hi

theorem moved_behindKey : Moved js numTokens p (behindKey p) := by
  refine .turned _ fun i hi => .inr ?_
  split at hi
  · exact absurd hi nofun
  · next hne =>
    obtain rfl := Option.some.inj hi
    exact Nat.sub_lt (List.length_pos_iff.mpr hne) Nat.one_pos

/-- **What a round does to the parser.** -/
theorem moved_jsmnRound (hc : js[p.pos]? = some c) (hzero : c ≠ 0)
    (h : jsmnRound js numTokens c p = .ok q) : Moved js numTokens p q := by
  rw [jsmnRound] at h
  split at h
  · exact moved_openContainer (.inl rfl) h
  split at h
  · exact moved_openContainer (.inr rfl) h
  split at h
  · exact moved_closeContainer h
  split at h
  · exact moved_closeContainer h
  split at h
  · exact moved_jsmnParseString h
  split at h
  · obtain rfl := Except.ok.inj h
    exact .turned p.toksuper fun i hi => .inl hi
  split at h
  · obtain rfl := Except.ok.inj h
    exact moved_behindKey
  split at h
  · obtain rfl := Except.ok.inj h
    exact moved_behindValue
  · refine moved_jsmnParsePrimitive hc hzero ?_ h
    simp_all [isDelimiter]

variable (js numTokens) in
/-- A round of the loop. -/
def JsmnStep (p q : JsmnParser) : Prop :=
  ∃ c next, js[p.pos]? = some c ∧ c ≠ 0 ∧ jsmnRound js numTokens c p = .ok next ∧
    q = { next with pos := next.pos + 1 }

variable (js numTokens) in
abbrev Steps : JsmnParser → JsmnParser → Prop := Relation.ReflTransGen (JsmnStep js numTokens)

variable (js) in
/-- The loop ends: there is no character left, or a NUL. -/
def JsmnDone (p : JsmnParser) : Prop := ∀ c, js[p.pos]? = some c → c = 0

variable (js numTokens) in
/-- The next round fails. -/
def JsmnFails (err : JsmnErr) (p : JsmnParser) : Prop :=
  ∃ c, js[p.pos]? = some c ∧ c ≠ 0 ∧ jsmnRound js numTokens c p = .error err

theorem Moved.pos_le (h : Moved js numTokens p q) (hp : p.pos < js.length) :
    p.pos ≤ q.pos ∧ q.pos < js.length := by
  cases h with
  | leaf _ _ _ _ _ _ hpos hend => exact ⟨hpos, hend⟩
  | opened | closed | turned => exact ⟨Nat.le_refl _, hp⟩

theorem pos_lt_of_getElem? {i : Nat} (hc : js[i]? = some c) : i < js.length :=
  (List.getElem?_eq_some_iff.mp hc).1

theorem JsmnStep.pos_lt (h : JsmnStep js numTokens p q) : p.pos < q.pos ∧ q.pos ≤ js.length := by
  obtain ⟨c, next, hc, hzero, hround, rfl⟩ := h
  obtain ⟨hle, hlt⟩ := (moved_jsmnRound hc hzero hround).pos_le (pos_lt_of_getElem? hc)
  exact ⟨Nat.lt_succ_of_le hle, hlt⟩

theorem Moved.count_eq (h : Moved js numTokens p q) (hp : p.count = p.tokens.length) :
    q.count = q.tokens.length := by
  cases h with
  | opened | leaf => simp [hp]
  | closed => simp [hp]
  | turned => exact hp

/-- **The count is the number of tokens.** -/
theorem count_of_steps (h : Steps js numTokens jsmnInit q) : q.count = q.tokens.length := by
  induction h with
  | refl => rfl
  | tail _ hstep ih =>
    obtain ⟨c, next, hc, hzero, hround, rfl⟩ := hstep
    exact (moved_jsmnRound hc hzero hround).count_eq ih

theorem jsmnLoop_step {fuel : Nat} (h : JsmnStep js numTokens p q) :
    jsmnLoop js numTokens (fuel + 1) p = jsmnLoop js numTokens fuel q := by
  obtain ⟨c, next, hc, hzero, hround, rfl⟩ := h
  rw [jsmnLoop, hc]
  simp only [if_neg hzero, hround]
  rfl

theorem jsmnLoop_done {fuel : Nat} (h : JsmnDone js p) : jsmnLoop js numTokens fuel p = .ok p := by
  cases fuel with
  | zero => rfl
  | succ fuel =>
    rw [jsmnLoop]
    cases hc : js[p.pos]? with
    | none => rfl
    | some c => exact if_pos (h c hc)

theorem jsmnLoop_fails {fuel : Nat} {err : JsmnErr} (h : JsmnFails js numTokens err p)
    (hfuel : js.length ≤ p.pos + fuel) : jsmnLoop js numTokens fuel p = .error err := by
  obtain ⟨c, hc, hzero, hround⟩ := h
  have hlt := pos_lt_of_getElem? hc
  obtain ⟨fuel, rfl⟩ : ∃ m, fuel = m + 1 := ⟨fuel - 1, by omega⟩
  rw [jsmnLoop, hc]
  simp only [if_neg hzero, hround]
  rfl

/-- **Fuel for every byte is enough.** -/
theorem jsmnLoop_of_steps (h : Steps js numTokens p q) {fuel : Nat}
    (hfuel : js.length ≤ p.pos + fuel) :
    ∃ left, js.length ≤ q.pos + left ∧
      jsmnLoop js numTokens fuel p = jsmnLoop js numTokens left q := by
  induction h using Relation.ReflTransGen.head_induction_on generalizing fuel with
  | refl => exact ⟨fuel, hfuel, rfl⟩
  | head hstep _ ih =>
    obtain ⟨hlt, hle⟩ := hstep.pos_lt
    obtain ⟨fuel, rfl⟩ : ∃ m, fuel = m + 1 := ⟨fuel - 1, by omega⟩
    obtain ⟨left, hleft, heq⟩ := @ih fuel (by omega)
    exact ⟨left, hleft, (jsmnLoop_step hstep).trans heq⟩

/-- A loop that succeeds is a run to its end. -/
theorem steps_of_jsmnLoop : ∀ {fuel : Nat} {p : JsmnParser}, js.length ≤ p.pos + fuel →
    jsmnLoop js numTokens fuel p = .ok q → Steps js numTokens p q ∧ JsmnDone js q
  | 0, p, hfuel, h => by
    obtain rfl := Except.ok.inj h
    exact ⟨.refl, fun c hc => absurd (pos_lt_of_getElem? hc) (Nat.not_lt.mpr hfuel)⟩
  | fuel + 1, p, hfuel, h => by
    rw [jsmnLoop] at h
    cases hc : js[p.pos]? with
    | none =>
      rw [hc] at h
      obtain rfl := Except.ok.inj h
      exact ⟨.refl, fun c' hc' => absurd (hc.symm.trans hc') nofun⟩
    | some c =>
      simp only [hc] at h
      split at h
      · next hzero =>
        obtain rfl := Except.ok.inj h
        exact ⟨.refl, fun c' hc' => Option.some.inj (hc.symm.trans hc') ▸ hzero⟩
      · next hzero =>
        cases hround : jsmnRound js numTokens c p with
        | error err =>
          rw [hround] at h
          exact absurd h nofun
        | ok next =>
          have hstep : JsmnStep js numTokens p { next with pos := next.pos + 1 } :=
            ⟨c, next, hc, hzero, hround, rfl⟩
          have hlt := hstep.pos_lt.1
          rw [hround] at h
          obtain ⟨hsteps, hdone⟩ := steps_of_jsmnLoop (by omega) h
          exact ⟨.head hstep hsteps, hdone⟩

theorem jsmnParse_of_done (h : Steps js numTokens jsmnInit q) (hdone : JsmnDone js q)
    (hclosed : q.tokens.any JsmnTok.isOpen = false) :
    jsmnParse js numTokens = .ok (q.count, q.tokens) := by
  obtain ⟨left, -, heq⟩ := @jsmnLoop_of_steps _ _ _ _ h js.length (Nat.le_add_left _ _)
  rw [jsmnParse, heq, jsmnLoop_done hdone]
  simp only [bind, Except.bind, hclosed]
  rfl

theorem jsmnParse_of_open (h : Steps js numTokens jsmnInit q) (hdone : JsmnDone js q)
    (hopen : q.tokens.any JsmnTok.isOpen = true) : jsmnParse js numTokens = .error .part := by
  obtain ⟨left, -, heq⟩ := @jsmnLoop_of_steps _ _ _ _ h js.length (Nat.le_add_left _ _)
  rw [jsmnParse, heq, jsmnLoop_done hdone]
  simp only [bind, Except.bind, hopen]
  rfl

theorem jsmnParse_of_fails {err : JsmnErr} (h : Steps js numTokens jsmnInit q)
    (hfails : JsmnFails js numTokens err q) : jsmnParse js numTokens = .error err := by
  obtain ⟨left, hleft, heq⟩ := @jsmnLoop_of_steps _ _ _ _ h js.length (Nat.le_add_left _ _)
  rw [jsmnParse, heq, jsmnLoop_fails hfails hleft]
  rfl

/-- What an accepted text went through. -/
theorem steps_of_jsmnParse {count : Nat} {tokens : List JsmnTok}
    (h : jsmnParse js numTokens = .ok (count, tokens)) :
    ∃ q, Steps js numTokens jsmnInit q ∧ JsmnDone js q ∧ q.count = count ∧ q.tokens = tokens ∧
      q.tokens.any JsmnTok.isOpen = false := by
  rw [jsmnParse] at h
  cases hloop : jsmnLoop js numTokens js.length jsmnInit with
  | error err =>
    rw [hloop] at h
    exact absurd h nofun
  | ok q =>
    rw [hloop] at h
    simp only [bind, Except.bind] at h
    split at h
    · exact absurd h nofun
    · next hopen =>
      obtain ⟨hsteps, hdone⟩ := steps_of_jsmnLoop (Nat.le_add_left _ _) hloop
      obtain ⟨rfl, rfl⟩ := Prod.mk.inj (Except.ok.inj h)
      exact ⟨q, hsteps, hdone, rfl, rfl, Bool.eq_false_iff.mpr hopen⟩

end Runs

end OnionRelay
