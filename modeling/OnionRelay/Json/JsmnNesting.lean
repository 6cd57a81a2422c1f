import Mathlib.Order.Basic
import OnionRelay.Json.Jsmn
import OnionRelay.Lib.Nesting

/-!
# Tokens of an accepted text

Whatever bytes `jsmn_parse` accepts, its tokens stand in the text, in order, one inside
the other or one behind the other, and their sizes are the child counts of a forest
(`jsmnParse_tree`): each round adds a piece or ends the last one that is open.

A text that is cut off inside its first container is not accepted (`jsmnParse_take`).  A
round in front of the cut does the same on both texts; the one over the cut fails, or
ends a primitive there, and the container stays open.
-/

namespace OnionRelay

open OnionRelay.Lib

/-! ## What each round keeps -/

def JsmnTok.span (token : JsmnTok) : Span := ⟨!token.isContainer, token.start, token.stop⟩

structure JsmnParser.Kept (numTokens : Nat) (p : JsmnParser) : Prop where
  nested : Nested p.pos (p.tokens.map JsmnTok.span)
  forest : Forest (p.tokens.map JsmnTok.size)
  super : ∀ i, p.toksuper = some i → i < p.tokens.length
  room : p.tokens.length ≤ numTokens

theorem map_span_growSuper (toksuper : Option Nat) (tokens : List JsmnTok) :
    (growSuper toksuper tokens).map JsmnTok.span = tokens.map JsmnTok.span := by
  cases toksuper with
  | none => rfl
  | some i =>
    rw [growSuper, map_modify JsmnTok.grow JsmnTok.span id fun _ => rfl, List.modify_id]

/-- A new node in the forest. -/
theorem forest_growSuper {toksuper : Option Nat} {tokens : List JsmnTok} {token : JsmnTok}
    (h : Forest (tokens.map JsmnTok.size)) (hsuper : ∀ i, toksuper = some i → i < tokens.length)
    (hsize : token.size = 0) : Forest ((growSuper toksuper (tokens ++ [token])).map JsmnTok.size) := by
  have hnew : (tokens ++ [token]).map JsmnTok.size = tokens.map JsmnTok.size ++ [0] := by
    rw [List.map_append, List.map_singleton, hsize]
  cases toksuper with
  | none => exact hnew ▸ h.root
  | some i =>
    have hi : i < (tokens.map JsmnTok.size).length := by
      rw [List.length_map]
      exact hsuper i rfl
    rw [growSuper, map_modify JsmnTok.grow JsmnTok.size (· + 1) fun _ => rfl, hnew,
      modify_append_left _ hi]
    exact h.child hi

section Steps

variable {js : List UInt8} {numTokens : Nat} {p q : JsmnParser} {c : UInt8}

/-- **A round keeps the tokens nested**, with the character passed over. -/
theorem kept_moved (h : Moved js numTokens p q) (hp : p.Kept numTokens) :
    JsmnParser.Kept numTokens { q with pos := q.pos + 1 } := by
  have hspans : ∀ token : JsmnTok, (growSuper p.toksuper (p.tokens ++ [token])).map JsmnTok.span =
      p.tokens.map JsmnTok.span ++ [token.span] := fun token => by
    rw [map_span_growSuper, List.map_append, List.map_singleton]
  have hlength : ∀ token : JsmnTok, (growSuper p.toksuper (p.tokens ++ [token])).length =
      p.tokens.length + 1 := fun token => (length_growSuper _ _).trans List.length_append
  cases h with
  | opened type htype hroom =>
    refine ⟨hspans _ ▸ hp.nested.push (Nat.le_refl _) ⟨Nat.lt_succ_self _, nofun, ?_⟩,
      forest_growSuper hp.forest hp.super rfl, fun i hi => ?_, (hlength _).trans_le hroom⟩
    · rcases htype with rfl | rfl <;> exact nofun
    · obtain rfl := Option.some.inj hi
      exact hlength _ ▸ Nat.lt_succ_self _
  | closed i hlast =>
    obtain ⟨pre, token, done, htokens, rfl, hopen, hdone⟩ := exists_of_lastBelow hlast
    have hsizes := map_modify (fun token : JsmnTok => { token with stop := some (p.pos + 1) })
      JsmnTok.size id (fun _ => rfl) p.tokens pre.length
    have hnested := hp.nested
    rw [List.modify_id] at hsizes
    rw [htokens, List.map_append, List.map_cons] at hnested
    refine ⟨?_, hsizes.symm ▸ hp.forest, fun i hi => ?_, ?_⟩
    · have hclosed := hnested.close (Option.isNone_iff_eq_none.mp hopen) fun s hs => ?_
      · rw [htokens, modify_append_cons, List.map_append, List.map_cons]
        exact hclosed
      · obtain ⟨t, ht, rfl⟩ := List.mem_map.mp hs
        exact fun hnone => absurd (hdone t ht) (by
          rw [JsmnTok.isOpen, show t.stop = none from hnone]
          exact nofun)
    · exact lt_length_of_lastBelow hi
    · exact (List.length_modify ..).trans_le hp.room
  | leaf type start stop pos htype hroom hpos hend hstart hle hlt hstop =>
    refine ⟨hspans _ ▸ hp.nested.push hstart ⟨Nat.lt_succ_of_le hlt, fun e he => ?_, nofun⟩,
      forest_growSuper hp.forest hp.super rfl, fun i hi => ?_, (hlength _).trans_le hroom⟩
    · obtain rfl := Option.some.inj he
      exact ⟨hle, hstop⟩
    · exact hlength _ ▸ Nat.lt_succ_of_lt (hp.super i hi)
  | turned toksuper hsuper =>
    exact ⟨hp.nested.mono (Nat.le_succ _), hp.forest,
      fun i hi => (hsuper i hi).elim (hp.super i) id, hp.room⟩

theorem kept_step (h : JsmnStep js numTokens p q) (hp : p.Kept numTokens) : q.Kept numTokens := by
  obtain ⟨c, next, hc, hzero, hround, rfl⟩ := h
  exact kept_moved (moved_jsmnRound hc hzero hround) hp

theorem kept_of_steps (h : Steps js numTokens jsmnInit q) : q.Kept numTokens := by
  induction h with
  | refl => exact ⟨.nil 0, .nil, nofun, Nat.zero_le _⟩
  | tail _ hstep ih => exact kept_step hstep ih

theorem pos_le_of_steps (h : Steps js numTokens jsmnInit q) : q.pos ≤ js.length := by
  cases h with
  | refl => exact Nat.zero_le _
  | tail _ hstep => exact hstep.pos_lt.2

end Steps

/-! ## Accepted texts -/

/-- Tokens of a text of `n` bytes. -/
structure TokenTree (n : Nat) (tokens : List JsonToken) : Prop where
  inText : ∀ token ∈ tokens, token.start ≤ token.stop ∧ token.stop ≤ n
  ordered : tokens.Pairwise fun a b => a.start < b.start
  nested : tokens.Pairwise fun a b => a.stop ≤ b.start ∨ b.stop < a.stop
  leaves : tokens.Pairwise fun a b => a.type ≠ .array → a.type ≠ .object → a.stop ≤ b.start
  sizes : Forest (tokens.map JsonToken.size)

theorem exists_map_closed : ∀ {tokens : List JsmnTok}, tokens.any JsmnTok.isOpen = false →
    ∃ tree : List JsonToken, tokens = tree.map JsonToken.closed
  | [], _ => ⟨[], rfl⟩
  | ⟨type, start, stop, size⟩ :: tokens, h => by
    rw [List.any_cons, Bool.or_eq_false_iff] at h
    obtain ⟨tree, rfl⟩ := exists_map_closed h.2
    cases stop with
    | none => exact absurd h.1 nofun
    | some stop => exact ⟨⟨type, start, stop, size⟩ :: tree, rfl⟩

/-- The tokens of an accepted text have an end in the text. -/
theorem closed_of_jsmnParse {js : List UInt8} {numTokens count : Nat} {tokens : List JsmnTok}
    (h : jsmnParse js numTokens = .ok (count, tokens)) :
    count = tokens.length ∧ ∃ tree : List JsonToken, tokens = tree.map JsonToken.closed ∧
      ∀ token ∈ tree, token.start ≤ token.stop ∧ token.stop ≤ js.length := by
  obtain ⟨q, hsteps, -, rfl, rfl, hclosed⟩ := steps_of_jsmnParse h
  obtain ⟨tree, htree⟩ := exists_map_closed hclosed
  have hnested := (kept_of_steps hsteps).nested
  rw [htree, List.map_map] at hnested
  refine ⟨count_of_steps hsteps, tree, htree, fun token htoken => ?_⟩
  have hfront := hnested.inFront _ (List.mem_map_of_mem htoken)
  obtain ⟨hle, hpos⟩ := hfront.stop token.stop rfl
  exact ⟨hle, Nat.le_trans hpos (pos_le_of_steps hsteps)⟩

/-- **What the tokenizer accepts is well nested.** -/
theorem jsmnParse_tree {js : List UInt8} {numTokens count : Nat} {tokens : List JsmnTok}
    (h : jsmnParse js numTokens = .ok (count, tokens)) :
    count = tokens.length ∧ count ≤ numTokens ∧
      ∃ tree, tokens = tree.map JsonToken.closed ∧ TokenTree js.length tree := by
  obtain ⟨hcount, tree, rfl, hinText⟩ := closed_of_jsmnParse h
  obtain ⟨q, hsteps, -, -, htree, -⟩ := steps_of_jsmnParse h
  have hkept := kept_of_steps hsteps
  have hnested := hkept.nested
  have hforest := hkept.forest
  rw [htree, List.map_map] at hnested hforest
  have hroom : count ≤ numTokens := hcount.trans_le (htree.symm ▸ hkept.room)
  refine ⟨hcount, hroom, tree, rfl, hinText, ?_, ?_, ?_, hforest⟩
  all_goals
    refine (List.pairwise_map.mp hnested.before).imp fun hbefore => ?_
  · exact hbefore.start
  · rcases hbefore.stop _ rfl with hle | ⟨e, he, hlt⟩
    · exact .inl hle
    · obtain rfl := Option.some.inj he
      exact .inr hlt
  · intro harray hobject
    obtain ⟨e, he, hle⟩ := hbefore.leaf (by
      simp [Function.comp_apply, JsmnTok.span, JsmnTok.isContainer, JsonToken.closed, harray, hobject])
    obtain rfl := Option.some.inj he
    exact hle

/-- The text `[1,"a"]`. -/
theorem jsmnParse_tree_pair : ∃ tree, [⟨.array, 0, some 7, 2⟩, ⟨.primitive, 1, some 2, 0⟩,
    ⟨.string, 4, some 5, 0⟩] = tree.map JsonToken.closed ∧ TokenTree 7 tree :=
  (jsmnParse_tree (show jsmnParse [91, 49, 44, 34, 97, 34, 93] 4 =
    .ok (3, [⟨.array, 0, some 7, 2⟩, ⟨.primitive, 1, some 2, 0⟩, ⟨.string, 4, some 5, 0⟩]) by
      decide +kernel)).2.2

/-! ## Texts that are cut off -/

section Cut

theorem primitiveLength_take {js : List UInt8} {n : Nat} (m : Nat) (h : primitiveLength js = .ok n) :
    primitiveLength (js.take m) = .ok (min n m) := by
  induction js generalizing n m with
  | nil =>
    obtain rfl := Except.ok.inj h
    rw [List.take_nil, Nat.zero_min]
    rfl
  | cons c js ih =>
    cases m with
    | zero =>
      rw [List.take_zero, Nat.min_zero]
      rfl
    | succ m =>
      rw [primitiveLength] at h
      rw [List.take_succ_cons, primitiveLength]
      split at h
      · obtain rfl := Except.ok.inj h
        rw [if_pos ‹_›, Nat.zero_min]
      rw [if_neg ‹_›]
      split at h
      · obtain rfl := Except.ok.inj h
        rw [if_pos ‹_›, Nat.zero_min]
      rw [if_neg ‹_›]
      split at h
      · cases h
      obtain ⟨k, hrest, rfl⟩ := map_eq_ok h
      rw [if_neg ‹_›, ih m hrest, Nat.succ_min_succ]
      rfl

/-- The length of a string that is cut off behind `m` bytes. -/
def cutLength (n m : Nat) : Except JsmnErr Nat := if n < m then .ok n else .error .part

theorem map_cutLength (n m : Nat) : (cutLength n m).map (· + 1) = cutLength (n + 1) (m + 1) := by
  rw [cutLength, cutLength]
  split
  · rw [if_pos (Nat.succ_lt_succ ‹_›)]
    rfl
  · rw [if_neg fun hlt => ‹¬ n < m› (Nat.lt_of_succ_lt_succ hlt)]
    rfl

theorem stringLength_take {st : StringState} {js : List UInt8} {n : Nat} (m : Nat)
    (h : stringLength st js = .ok n) : stringLength st (js.take m) = cutLength n m := by
  fun_induction stringLength st js generalizing n m with
  | case3 _ _ _ hzero hdigit ih =>
    obtain ⟨k, hrest, rfl⟩ := map_eq_ok h
    cases m with
    | zero => rfl
    | succ m => rw [List.take_succ_cons, stringLength, if_neg hzero, if_pos hdigit, ih m hrest, map_cutLength]
  | case5 _ _ hletter ih =>
    obtain ⟨k, hrest, rfl⟩ := map_eq_ok h
    cases m with
    | zero => rfl
    | succ m => rw [List.take_succ_cons, stringLength, if_pos hletter, ih m hrest, map_cutLength]
  | case6 _ hletter ih =>
    obtain ⟨k, hrest, rfl⟩ := map_eq_ok h
    cases m with
    | zero => rfl
    | succ m => rw [List.take_succ_cons, stringLength, if_neg hletter, if_pos rfl, ih m hrest, map_cutLength]
  | case9 =>
    obtain rfl := Except.ok.inj h
    cases m <;> rfl
  | case10 _ _ hquote ih =>
    obtain ⟨k, hrest, rfl⟩ := map_eq_ok h
    cases m with
    | zero => rfl
    | succ m => rw [List.take_succ_cons, stringLength, if_neg (by decide), if_neg (by decide), if_pos rfl, ih m hrest, map_cutLength]
  | case11 _ _ hzero hquote hescape ih =>
    obtain ⟨k, hrest, rfl⟩ := map_eq_ok h
    cases m with
    | zero => rfl
    | succ m => rw [List.take_succ_cons, stringLength, if_neg hzero, if_neg hquote, if_neg hescape, ih m hrest, map_cutLength]
  | case1 | case2 | case4 | case7 | case8 => exact absurd h nofun

variable {js : List UInt8} {numTokens k : Nat} {p next : JsmnParser} {c : UInt8}

theorem pos_openContainer {type : JsonType} (h : openContainer numTokens type p = .ok next) :
    next.pos = p.pos := by
  rw [openContainer_eq] at h
  split at h
  · exact Except.ok.inj h ▸ rfl
  · exact absurd h nofun

theorem pos_closeContainer {type : JsonType} (h : closeContainer type p = .ok next) :
    next.pos = p.pos := by
  rw [closeContainer] at h
  split at h
  · cases h
  · split at h
    · exact Except.ok.inj h ▸ rfl
    · cases h

theorem pos_behindValue : (behindValue p).pos = p.pos := by
  rw [behindValue]
  split
  · split <;> rfl
  · rfl

variable (numTokens c p) in
/-- A round looks at one character only, or it reads a string or a primitive. -/
theorem jsmnRound_cases :
    (∃ r : Except JsmnErr JsmnParser, (∀ js, jsmnRound js numTokens c p = r) ∧
        ∀ next, r = .ok next → next.pos = p.pos) ∨
      (∀ js, jsmnRound js numTokens c p = (jsmnParseString js numTokens p).map JsmnParser.counted) ∨
      (isDelimiter c = false ∧
        ∀ js, jsmnRound js numTokens c p =
          (jsmnParsePrimitive js numTokens p).map JsmnParser.counted) := by
  by_cases hquote : c = 34
  · exact .inr (.inl fun js => hquote ▸ rfl)
  by_cases hbrace : c = 123
  · exact .inl ⟨_, fun js => by rw [hbrace]; rfl, fun next h => pos_openContainer h⟩
  by_cases hbracket : c = 91
  · exact .inl ⟨_, fun js => by rw [hbracket]; rfl, fun next h => pos_openContainer h⟩
  by_cases hdelimiter : isDelimiter c = true
  · refine .inl ?_
    simp only [isDelimiter, Bool.or_eq_true, decide_eq_true_eq] at hdelimiter
    rcases hdelimiter with ((((((h | h) | h) | h) | h) | h) | h) | h <;> subst h
    · exact ⟨_, fun js => rfl, fun next h => Except.ok.inj h ▸ rfl⟩
    · exact ⟨_, fun js => rfl, fun next h => Except.ok.inj h ▸ rfl⟩
    · exact ⟨_, fun js => rfl, fun next h => Except.ok.inj h ▸ rfl⟩
    · exact ⟨_, fun js => rfl, fun next h => Except.ok.inj h ▸ rfl⟩
    · exact ⟨_, fun js => rfl, fun next h => Except.ok.inj h ▸ rfl⟩
    · exact ⟨_, fun js => rfl, fun next h => Except.ok.inj h ▸ pos_behindValue⟩
    · exact ⟨_, fun js => rfl, fun next h => pos_closeContainer h⟩
    · exact ⟨_, fun js => rfl, fun next h => pos_closeContainer h⟩
  · refine .inr (.inr ⟨Bool.eq_false_iff.mpr hdelimiter, fun js => ?_⟩)
    simp only [isDelimiter, Bool.or_eq_true, decide_eq_true_eq, not_or] at hdelimiter
    simp [jsmnRound, hquote, hbrace, hbracket, hdelimiter]

/-- **A round in front of the cut is the same**; the one over it fails, or ends a
primitive there. -/
theorem jsmnRound_take (hc : js[p.pos]? = some c) (hzero : c ≠ 0) (hpos : p.pos < k)
    (h : jsmnRound js numTokens c p = .ok next) :
    (next.pos < k ∧ jsmnRound (js.take k) numTokens c p = .ok next) ∨
      (k ≤ next.pos ∧ (jsmnRound (js.take k) numTokens c p = .error .part ∨
        ∃ leaf cut, jsmnRound (js.take k) numTokens c p = .ok cut ∧ cut.pos + 1 = k ∧
          cut.tokens = growSuper p.toksuper (p.tokens ++ [leaf]))) := by
  rcases jsmnRound_cases numTokens p c with ⟨r, hr, hnext⟩ | hstring | ⟨hdelimiter, hprimitive⟩
  · rw [hr] at h ⊢
    exact .inl ⟨hnext next h ▸ hpos, h⟩
  · rw [hstring] at h ⊢
    obtain ⟨read, hread, rfl⟩ := map_eq_ok h
    cases hn : stringLength .plain (js.drop (p.pos + 1)) with
    | error err =>
      rw [jsmnParseString_error hn] at hread
      exact absurd hread nofun
    | ok n =>
      have hcut : stringLength .plain ((js.take k).drop (p.pos + 1)) = cutLength n (k - (p.pos + 1)) := by
        rw [List.drop_take]
        exact stringLength_take _ hn
      rw [jsmnParseString_ok hn] at hread
      rw [cutLength] at hcut
      split at hread
      · next hroom =>
        obtain rfl := Except.ok.inj hread
        split at hcut
        · refine .inl ⟨?_, ?_⟩
          · show p.pos + 1 + n < k
            omega
          · rw [jsmnParseString_ok hcut, if_pos hroom]
            rfl
        · refine .inr ⟨?_, .inl ?_⟩
          · show k ≤ p.pos + 1 + n
            omega
          · rw [jsmnParseString_error hcut]
            rfl
      · exact absurd hread nofun
  · rw [hprimitive] at h ⊢
    obtain ⟨read, hread, rfl⟩ := map_eq_ok h
    cases hn : primitiveLength (js.drop p.pos) with
    | error err =>
      rw [jsmnParsePrimitive_error hn] at hread
      exact absurd hread nofun
    | ok n =>
      have hfirst := (primitiveLength_bounds hn).2 c (by rw [List.head?_drop, hc]) hzero hdelimiter
      have hcut : primitiveLength ((js.take k).drop p.pos) = .ok (min n (k - p.pos)) := by
        rw [List.drop_take]
        exact primitiveLength_take _ hn
      rw [jsmnParsePrimitive_ok hn] at hread
      split at hread
      · next hroom =>
        obtain rfl := Except.ok.inj hread
        rw [jsmnParsePrimitive_ok hcut, if_pos hroom]
        rcases Nat.lt_or_ge (p.pos + n - 1) k with hlt | hge
        · refine .inl ⟨hlt, ?_⟩
          rw [Nat.min_eq_left (by omega)]
          rfl
        · refine .inr ⟨hge, .inr ⟨_, _, rfl, ?_, rfl⟩⟩
          show p.pos + min n (k - p.pos) - 1 + 1 = k
          omega
      · exact absurd hread nofun

/-! ### The first token -/

/-- What stays of a token. -/
structure Keeps (t t' : JsmnTok) : Prop where
  isContainer : t'.isContainer = t.isContainer
  start : t'.start = t.start
  stop : ∀ e, t.stop = some e → t'.stop = some e

theorem Keeps.refl (t : JsmnTok) : Keeps t t := ⟨rfl, rfl, fun _ he => he⟩

theorem Keeps.trans {t t' t'' : JsmnTok} (h : Keeps t t') (h' : Keeps t' t'') : Keeps t t'' :=
  ⟨h'.isContainer.trans h.isContainer, h'.start.trans h.start, fun e he => h'.stop e (h.stop e he)⟩

theorem keeps_growSuper {toksuper : Option Nat} {t : JsmnTok} {tokens : List JsmnTok} :
    ∃ t' tokens', growSuper toksuper (t :: tokens) = t' :: tokens' ∧ Keeps t t' := by
  cases toksuper with
  | none => exact ⟨t, tokens, rfl, .refl t⟩
  | some i =>
    cases i with
    | zero => exact ⟨t.grow, tokens, rfl, rfl, rfl, fun _ he => he⟩
    | succ i => exact ⟨t, _, rfl, .refl t⟩

/-- The first token stays, and one that is to come starts behind. -/
structure Remembers (p q : JsmnParser) : Prop where
  pos : p.pos ≤ q.pos
  first : ∀ t tokens, p.tokens = t :: tokens → ∃ t' tokens', q.tokens = t' :: tokens' ∧ Keeps t t'
  toCome : p.tokens = [] → ∀ t tokens, q.tokens = t :: tokens → p.pos ≤ t.start

theorem Remembers.trans {q r : JsmnParser} (h : Remembers p q) (h' : Remembers q r) : Remembers p r := by
  refine ⟨Nat.le_trans h.pos h'.pos, fun t tokens ht => ?_, fun hnil t tokens ht => ?_⟩
  · obtain ⟨t', tokens', ht', hkeeps⟩ := h.first t tokens ht
    obtain ⟨t'', tokens'', ht'', hkeeps'⟩ := h'.first t' tokens' ht'
    exact ⟨t'', tokens'', ht'', hkeeps.trans hkeeps'⟩
  · cases hq : q.tokens with
    | nil => exact Nat.le_trans h.pos (h'.toCome hq t tokens ht)
    | cons t' tokens' =>
      obtain ⟨t'', tokens'', ht'', hkeeps⟩ := h'.first t' tokens' hq
      obtain rfl := (List.cons.inj (ht.symm.trans ht'')).1
      exact hkeeps.start ▸ h.toCome hnil t' tokens' hq

theorem remembers_push {toksuper : Option Nat} {t : JsmnTok} {q : JsmnParser} (hpos : p.pos ≤ q.pos)
    (hstart : p.pos ≤ t.start) (hq : q.tokens = growSuper toksuper (p.tokens ++ [t])) :
    Remembers p q := by
  refine ⟨hpos, fun t' tokens ht' => ?_, fun hnil t' tokens ht' => ?_⟩
  · rw [hq, ht', List.cons_append]
    exact keeps_growSuper
  · obtain ⟨t'', tokens'', ht'', hkeeps⟩ :=
      @keeps_growSuper toksuper t []
    rw [hq, hnil, List.nil_append, ht''] at ht'
    exact (List.cons.inj ht').1 ▸ hkeeps.start ▸ hstart

theorem remembers_moved {q : JsmnParser} (h : Moved js numTokens p q) :
    Remembers p { q with pos := q.pos + 1 } := by
  cases h with
  | opened => exact remembers_push (Nat.le_succ _) (Nat.le_refl _) rfl
  | leaf type start stop pos htype hroom hpos hend hstart =>
    exact remembers_push (Nat.le_succ_of_le hpos) hstart rfl
  | turned => exact ⟨Nat.le_succ _, fun t tokens ht => ⟨t, tokens, ht, .refl t⟩, fun hnil t tokens ht =>
      absurd (hnil.symm.trans ht) nofun⟩
  | closed i hlast =>
    refine ⟨Nat.le_succ _, fun t tokens ht => ?_, fun hnil t tokens ht => ?_⟩
    · obtain ⟨-, token, htoken, hopen⟩ := lastBelow_spec hlast
      dsimp only
      rw [ht] at htoken ⊢
      cases i with
      | zero =>
        refine ⟨_, _, rfl, rfl, rfl, fun e he => ?_⟩
        obtain rfl := Option.some.inj htoken
        rw [JsmnTok.isOpen, he] at hopen
        exact absurd hopen nofun
      | succ i => exact ⟨t, _, rfl, .refl t⟩
    · dsimp only at ht
      rw [hnil, List.modify_nil] at ht
      exact absurd ht nofun

theorem remembers_of_steps {q : JsmnParser} (h : Steps js numTokens p q) : Remembers p q := by
  induction h with
  | refl => exact ⟨Nat.le_refl _, fun t tokens ht => ⟨t, tokens, ht, .refl t⟩, fun hnil t tokens ht =>
      absurd (hnil.symm.trans ht) nofun⟩
  | tail _ hstep ih =>
    obtain ⟨c, next, hc, hzero, hround, rfl⟩ := hstep
    exact ih.trans (remembers_moved (moved_jsmnRound hc hzero hround))

/-! ### The container stays open -/

theorem any_growSuper (toksuper : Option Nat) (tokens : List JsmnTok) :
    (growSuper toksuper tokens).any JsmnTok.isOpen = tokens.any JsmnTok.isOpen := by
  have hspan : ∀ l : List JsmnTok,
      l.any JsmnTok.isOpen = (l.map JsmnTok.span).any fun s => s.stop.isNone := fun l => by
    rw [List.any_map]
    rfl
  rw [hspan, hspan, map_span_growSuper]

/-- In front of its end the first token is open. -/
theorem any_isOpen_of_steps {q : JsmnParser} {first : JsmnTok} {tokens : List JsmnTok} {stop : Nat}
    (h : Steps js numTokens p q) (hp : p.Kept numTokens) (hne : p.tokens ≠ [])
    (hfirst : q.tokens = first :: tokens) (hstop : first.stop = some stop) (hpos : p.pos < stop) :
    p.tokens.any JsmnTok.isOpen = true := by
  obtain ⟨t, ts, ht⟩ := List.exists_cons_of_ne_nil hne
  obtain ⟨t', ts', ht', hkeeps⟩ := (remembers_of_steps h).first t ts ht
  obtain rfl := (List.cons.inj (ht'.symm.trans hfirst)).1
  have hopen : t.stop = none := by
    rw [Option.eq_none_iff_forall_ne_some]
    intro e he
    obtain rfl := Option.some.inj ((hkeeps.stop e he).symm.trans hstop)
    have hmem : t.span ∈ p.tokens.map JsmnTok.span := List.mem_map_of_mem (ht ▸ List.mem_cons_self)
    exact absurd hpos (Nat.not_lt.mpr ((hp.nested.inFront _ hmem).stop e he).2)
  rw [ht, List.any_cons, JsmnTok.isOpen, hopen]
  rfl

/-- A first token that was just read is none with children. -/
theorem isContainer_of_read {q : JsmnParser} {first : JsmnTok} {tokens : List JsmnTok}
    (h : Moved js numTokens p next) (hread : p.pos < next.pos) (hnil : p.tokens = [])
    (hsteps : Steps js numTokens { next with pos := next.pos + 1 } q)
    (hfirst : q.tokens = first :: tokens) : first.isContainer = false := by
  cases h with
  | opened | closed | turned => exact absurd hread (Nat.lt_irrefl _)
  | leaf type start stop pos htype =>
    obtain ⟨t, ts, ht, hkeeps⟩ :=
      @keeps_growSuper p.toksuper ⟨type, start, some stop, 0⟩ []
    rw [hnil] at hsteps
    obtain ⟨t', ts', ht', hkeeps'⟩ := (remembers_of_steps hsteps).first t ts ht
    obtain rfl := (List.cons.inj (ht'.symm.trans hfirst)).1
    rw [hkeeps'.isContainer, hkeeps.isContainer]
    rcases htype with rfl | rfl <;> rfl

theorem jsmnParse_take_of_steps {q : JsmnParser} {first : JsmnTok} {tokens : List JsmnTok} {stop : Nat}
    (hfirst : q.tokens = first :: tokens) (hcontainer : first.isContainer = true)
    (hstop : first.stop = some stop) (hstart : first.start < k) (hk : k < stop)
    (h : Steps js numTokens p q) (hcut : Steps (js.take k) numTokens jsmnInit p)
    (hp : p.Kept numTokens) (hpos : p.pos ≤ k) : jsmnParse (js.take k) numTokens = .error .part := by
  induction h using Relation.ReflTransGen.head_induction_on with
  | refl =>
    have hmem : first.span ∈ q.tokens.map JsmnTok.span := List.mem_map_of_mem (hfirst ▸ List.mem_cons_self)
    have hle := ((hp.nested.inFront _ hmem).stop stop hstop).2
    exact absurd hpos (Nat.not_le.mpr (Nat.lt_of_lt_of_le hk hle))
  | @head p p' hstep hsteps ih =>
    have hall := Relation.ReflTransGen.head hstep hsteps
    have hopen : p.tokens ≠ [] → p.tokens.any JsmnTok.isOpen = true := fun hne =>
      any_isOpen_of_steps hall hp hne hfirst hstop (Nat.lt_of_le_of_lt hpos hk)
    have hend : ∀ r : JsmnParser, r.pos = k → JsmnDone (js.take k) r := by
      intro r hr c hc
      rw [hr, List.getElem?_take_eq_none (Nat.le_refl _)] at hc
      exact absurd hc nofun
    rcases Nat.eq_or_lt_of_le hpos with hpos | hpos
    · have hne : p.tokens ≠ [] := fun hnil => by
        have hle := (remembers_of_steps hall).toCome hnil first tokens hfirst
        omega
      exact jsmnParse_of_open hcut (hend p hpos) (hopen hne)
    · have hkept := kept_step hstep hp
      obtain ⟨c, next, hc, hzero, hround, rfl⟩ := hstep
      have hc' : (js.take k)[p.pos]? = some c := (List.getElem?_take_of_lt hpos).trans hc
      rcases jsmnRound_take hc hzero hpos hround with
        ⟨hnext, hsame⟩ | ⟨hover, hfails | ⟨leaf, cut, hcutRound, hcutPos, hcutTokens⟩⟩
      · exact ih (hcut.tail ⟨c, next, hc', hzero, hsame, rfl⟩) hkept hnext
      · exact jsmnParse_of_fails hcut ⟨c, hc', hzero, hfails⟩
      · have hmoved := moved_jsmnRound hc hzero hround
        have hne : p.tokens ≠ [] := fun hnil => by
          have hleaf := isContainer_of_read hmoved (Nat.lt_of_lt_of_le hpos hover) hnil hsteps hfirst
          exact absurd (hleaf.symm.trans hcontainer) Bool.false_ne_true
        refine jsmnParse_of_open (hcut.tail ⟨c, cut, hc', hzero, hcutRound, rfl⟩)
          (hend { cut with pos := cut.pos + 1 } hcutPos) ?_
        dsimp only
        rw [hcutTokens, any_growSuper, List.any_append, hopen hne, Bool.true_or]

/-- **A text that is cut off in its first container is taken for a part.** -/
theorem jsmnParse_take {count start stop size : Nat} {type : JsonType} {tokens : List JsmnTok}
    (htype : type = .object ∨ type = .array)
    (h : jsmnParse js numTokens = .ok (count, ⟨type, start, some stop, size⟩ :: tokens))
    (hstart : start < k) (hk : k < stop) : jsmnParse (js.take k) numTokens = .error .part := by
  obtain ⟨q, hsteps, -, -, htokens, -⟩ := steps_of_jsmnParse h
  refine jsmnParse_take_of_steps htokens ?_ rfl hstart hk hsteps .refl
    (@kept_of_steps js _ _ .refl) (Nat.zero_le _)
  rcases htype with rfl | rfl <;> rfl

/-- The text `[1,"a"]` without its last byte. -/
theorem jsmnParse_take_bracket : jsmnParse [91, 49, 44, 34, 97, 34] 4 = .error .part :=
  jsmnParse_take (k := 6) (.inr rfl) (show jsmnParse [91, 49, 44, 34, 97, 34, 93] 4 =
    .ok (3, [⟨.array, 0, some 7, 2⟩, ⟨.primitive, 1, some 2, 0⟩, ⟨.string, 4, some 5, 0⟩]) by
      decide +kernel) (by decide) (by decide)

end Cut

end OnionRelay
