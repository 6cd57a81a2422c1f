import OnionRelay.Lib.Checked
import OnionRelay.Nostr.FilterParser

/-!
# The tokens of a value, in an array

`count_value_tokens` and the two `count_tokens_in_value` step over a value by the sizes of its
containers, whatever these are.  Here they run on an array of tokens, where an access outside is a fault;
that the recursion ends is the termination of the definitions.  `counters_correct` says that they stay
below the count they are given, and that on the tokens of a value they return their number.  On the tokens
of a list they are the counters of the parsers (`countValueTokens_ofLexeme`, `countTokensInValue_ofLexeme`).
-/

namespace OnionRelay.TokenArray

open OnionRelay.Lib Checked

/-- What the counters read of a token. -/
structure Jsontok where
  type : JsonType
  size : Int

/-! ## The counters -/

mutual

/-- `count_value_tokens` for the token at `base`. -/
def countValueTokens (tokens : List Jsontok) (base : Nat) (remaining : Int) : Checked Nat :=
  if remaining ≤ 0 then return 0
  else do
    let token ← load tokens base
    match token.type with
    | .primitive => return 1
    | .string => return 1
    | .object => countPairs tokens base remaining token.size.toNat 0
    | .array => countItems tokens base remaining token.size.toNat 0
    | .undefined => return 1
termination_by (remaining.toNat, 1, 0)

/-- Its loop over the pairs of an object, with `left` pairs left; `count` is `k + 1`. -/
def countPairs (tokens : List Jsontok) (base : Nat) (remaining : Int) : (left k : Nat) → Checked Nat
  | 0, k => return k + 1
  | left + 1, k =>
    if k + 1 < remaining then do
      -- `count++` for the key
      let n ← countValueTokens tokens (base + (k + 2)) (remaining - (k + 2))
      countPairs tokens base remaining left (k + 1 + n)
    else return k + 1
termination_by left => (remaining.toNat, 0, left)

/-- Its loop over the elements of an array. -/
def countItems (tokens : List Jsontok) (base : Nat) (remaining : Int) : (left k : Nat) → Checked Nat
  | 0, k => return k + 1
  | left + 1, k =>
    if k + 1 < remaining then do
      let n ← countValueTokens tokens (base + (k + 1)) (remaining - (k + 1))
      countItems tokens base remaining left (k + n)
    else return k + 1
termination_by left => (remaining.toNat, 0, left)

end

mutual

/-- `count_tokens_in_value` of `nostr_filter.c`, for the token at `base`. -/
def countTokensInValue (tokens : List Jsontok) (base remaining : Nat) : Checked Nat :=
  if remaining = 0 then return 0
  else do
    let token ← load tokens base
    match token.type with
    | .object => skipPairs tokens base remaining token.size.toNat 0
    | .array => skipElements tokens base remaining token.size.toNat 0
    | _ => return 1
termination_by (remaining, 1, 0)

/-- Its loop over the pairs of an object; `idx` is `k + 1`. -/
def skipPairs (tokens : List Jsontok) (base remaining : Nat) : (left k : Nat) → Checked Nat
  | 0, k => return k + 1
  | left + 1, k =>
    if k + 1 < remaining then do
      let n ← countTokensInValue tokens (base + (k + 1)) (remaining - (k + 1))
      if k + 1 + n < remaining then do
        let m ← countTokensInValue tokens (base + (k + 1 + n)) (remaining - (k + 1 + n))
        skipPairs tokens base remaining left (k + n + m)
      else skipPairs tokens base remaining left (k + n)
    else return k + 1
termination_by left => (remaining, 0, left)

/-- Its loop over the elements of an array. -/
def skipElements (tokens : List Jsontok) (base remaining : Nat) : (left k : Nat) → Checked Nat
  | 0, k => return k + 1
  | left + 1, k =>
    if k + 1 < remaining then do
      let n ← countTokensInValue tokens (base + (k + 1)) (remaining - (k + 1))
      skipElements tokens base remaining left (k + n)
    else return k + 1
termination_by left => (remaining, 0, left)

end

/-- `count_tokens_in_value` of `nostr_req.c`, the same text again. -/
def reqCountTokensInValue (tokens : List Jsontok) (base remaining : Nat) : Checked Nat :=
  countTokensInValue tokens base remaining

/-! ## Every array -/

/-- The count is at most `bound`, and no token behind the array has a part in it. -/
def Within (bound : Nat) (tokens : List Jsontok) (count : List Jsontok → Checked Nat) : Prop :=
  ∃ n ≤ bound, ∀ behind, count (tokens ++ behind) = .ok n

section

variable {tokens : List Jsontok} {base : Nat}

theorem within_const {bound n : Nat} (h : n ≤ bound) : Within bound tokens fun _ => .ok n := ⟨n, h, fun _ => rfl⟩

theorem Within.congr {bound : Nat} {count count' : List Jsontok → Checked Nat} (h : Within bound tokens count)
    (heq : ∀ behind, count' (tokens ++ behind) = count (tokens ++ behind)) : Within bound tokens count' := by
  obtain ⟨n, hle, hcount⟩ := h
  exact ⟨n, hle, fun behind => (heq behind).trans (hcount behind)⟩

theorem load_append {behind : List Jsontok} (h : base < tokens.length) : load (tokens ++ behind) base = .ok tokens[base] := by
  rw [load_ok (by rw [List.length_append]; omega), List.getElem_append_left h]

/-- A loop stays below the count when its rounds do. -/
theorem within_loop {m : Nat} {loop : List Jsontok → Nat → Nat → Checked Nat}
    (hend : ∀ array left k, left = 0 ∨ m ≤ k + 1 → loop array left k = .ok (k + 1))
    (hround : ∀ left k, k + 1 < m → ∃ k', k' + 1 ≤ m ∧
      ∀ behind, loop (tokens ++ behind) (left + 1) k = loop (tokens ++ behind) left k') :
    ∀ left k, k + 1 ≤ m → Within m tokens fun array => loop array left k := by
  intro left
  induction left with
  | zero => exact fun k hk => (within_const hk).congr fun behind => hend _ _ _ (.inl rfl)
  | succ left ih =>
    intro k hk
    by_cases hlt : k + 1 < m
    · obtain ⟨k', hk', hloop⟩ := hround left k hlt
      exact (ih k' hk').congr hloop
    · exact (within_const hk).congr fun behind => hend _ _ _ (.inr (Nat.not_lt.mp hlt))

section Loops

variable {m : Nat} {array : List Jsontok} {left k : Nat} (h : left = 0 ∨ m ≤ k + 1)

include h

theorem countPairs_end : countPairs array base m left k = .ok (k + 1) := by
  cases left with
  | zero =>
    rw [countPairs]
    rfl
  | succ left =>
    rw [countPairs, if_neg (by omega)]
    rfl

theorem countItems_end : countItems array base m left k = .ok (k + 1) := by
  cases left with
  | zero =>
    rw [countItems]
    rfl
  | succ left =>
    rw [countItems, if_neg (by omega)]
    rfl

theorem skipPairs_end : skipPairs array base m left k = .ok (k + 1) := by
  cases left with
  | zero =>
    rw [skipPairs]
    rfl
  | succ left =>
    rw [skipPairs, if_neg (by omega)]
    rfl

theorem skipElements_end : skipElements array base m left k = .ok (k + 1) := by
  cases left with
  | zero =>
    rw [skipElements]
    rfl
  | succ left =>
    rw [skipElements, if_neg (by omega)]
    rfl

end Loops

section Rounds

variable {m n : Nat} {array : List Jsontok} {k : Nat} (hlt : k + 1 < m) (left : Nat)

include hlt

theorem countPairs_round (h : countValueTokens array (base + (k + 2)) (m - (k + 2) : Nat) = .ok n) :
    countPairs array base m (left + 1) k = countPairs array base m left (k + 1 + n) := by
  have hsub : (m : Int) - (k + 2) = (m - (k + 2) : Nat) := by omega
  rw [countPairs, if_pos (by omega), hsub, h, bind_ok]

theorem countItems_round (h : countValueTokens array (base + (k + 1)) (m - (k + 1) : Nat) = .ok n) :
    countItems array base m (left + 1) k = countItems array base m left (k + n) := by
  have hsub : (m : Int) - (k + 1) = (m - (k + 1) : Nat) := by omega
  rw [countItems, if_pos (by omega), hsub, h, bind_ok]

theorem skipElements_round (h : countTokensInValue array (base + (k + 1)) (m - (k + 1)) = .ok n) :
    skipElements array base m (left + 1) k = skipElements array base m left (k + n) := by
  rw [skipElements, if_pos hlt, h, bind_ok]

theorem skipPairs_round {n' : Nat} (h : countTokensInValue array (base + (k + 1)) (m - (k + 1)) = .ok n)
    (hvalue : k + 1 + n < m → countTokensInValue array (base + (k + 1 + n)) (m - (k + 1 + n)) = .ok n')
    (hlast : m ≤ k + 1 + n → n' = 0) :
    skipPairs array base m (left + 1) k = skipPairs array base m left (k + n + n') := by
  rw [skipPairs, if_pos hlt, h, bind_ok]
  by_cases hmore : k + 1 + n < m
  · rw [if_pos hmore, hvalue hmore, bind_ok]
  · rw [if_neg hmore, hlast (Nat.not_lt.mp hmore), Nat.add_zero]

end Rounds

section Within

variable {m : Nat} (hbase : base + m ≤ tokens.length)

include hbase

theorem within_countPairs (ih : ∀ m' < m, ∀ base, base + m' ≤ tokens.length →
      Within m' tokens fun array => countValueTokens array base m') :
    ∀ left k, k + 1 ≤ m → Within m tokens fun array => countPairs array base m left k := by
  refine within_loop (fun array left k => countPairs_end) fun left k hlt => ?_
  obtain ⟨n, hn, hcount⟩ := ih (m - (k + 2)) (by omega) (base + (k + 2)) (by omega)
  exact ⟨k + 1 + n, by omega, fun behind => countPairs_round hlt left (hcount behind)⟩

theorem within_countItems (ih : ∀ m' < m, ∀ base, base + m' ≤ tokens.length →
      Within m' tokens fun array => countValueTokens array base m') :
    ∀ left k, k + 1 ≤ m → Within m tokens fun array => countItems array base m left k := by
  refine within_loop (fun array left k => countItems_end) fun left k hlt => ?_
  obtain ⟨n, hn, hcount⟩ := ih (m - (k + 1)) (by omega) (base + (k + 1)) (by omega)
  exact ⟨k + n, by omega, fun behind => countItems_round hlt left (hcount behind)⟩

theorem within_skipElements (ih : ∀ m' < m, ∀ base, base + m' ≤ tokens.length →
      Within m' tokens fun array => countTokensInValue array base m') :
    ∀ left k, k + 1 ≤ m → Within m tokens fun array => skipElements array base m left k := by
  refine within_loop (fun array left k => skipElements_end) fun left k hlt => ?_
  obtain ⟨n, hn, hcount⟩ := ih (m - (k + 1)) (by omega) (base + (k + 1)) (by omega)
  exact ⟨k + n, by omega, fun behind => skipElements_round hlt left (hcount behind)⟩

theorem within_skipPairs (ih : ∀ m' < m, ∀ base, base + m' ≤ tokens.length →
      Within m' tokens fun array => countTokensInValue array base m') :
    ∀ left k, k + 1 ≤ m → Within m tokens fun array => skipPairs array base m left k := by
  refine within_loop (fun array left k => skipPairs_end) fun left k hlt => ?_
  obtain ⟨n, hn, hcount⟩ := ih (m - (k + 1)) (by omega) (base + (k + 1)) (by omega)
  by_cases hvalue : k + 1 + n < m
  · obtain ⟨n', hn', hcount'⟩ := ih (m - (k + 1 + n)) (by omega) (base + (k + 1 + n)) (by omega)
    exact ⟨k + n + n', by omega, fun behind => skipPairs_round hlt left (hcount behind) (fun _ => hcount' behind)
      fun hle => absurd hvalue (Nat.not_lt.mpr hle)⟩
  · exact ⟨k + n, by omega, fun behind => skipPairs_round hlt left (hcount behind) (fun h => absurd h hvalue)
      fun _ => rfl⟩

end Within

/-- **`count_value_tokens` stays below the count**, by induction on it. -/
theorem within_countValueTokens (m : Nat) : ∀ base, base + m ≤ tokens.length →
    Within m tokens fun array => countValueTokens array base m := by
  induction m using Nat.strongRecOn with
  | ind m ih =>
    intro base hbase
    rcases Nat.eq_zero_or_pos m with rfl | hpos
    · refine (within_const (le_refl 0)).congr fun behind => ?_
      rw [countValueTokens, if_pos (by decide)]
      rfl
    have hlt : base < tokens.length := by omega
    have hone : Within m tokens fun _ => .ok 1 := within_const hpos
    have hstep : ∀ behind, countValueTokens (tokens ++ behind) base m = match tokens[base].type with
        | .primitive => .ok 1
        | .string => .ok 1
        | .object => countPairs (tokens ++ behind) base m tokens[base].size.toNat 0
        | .array => countItems (tokens ++ behind) base m tokens[base].size.toNat 0
        | .undefined => .ok 1 := by
      intro behind
      rw [countValueTokens, if_neg (by omega), load_append hlt, bind_ok]
      cases tokens[base].type <;> rfl
    cases htype : tokens[base].type with
    | primitive => exact hone.congr fun behind => by rw [hstep, htype]
    | string => exact hone.congr fun behind => by rw [hstep, htype]
    | undefined => exact hone.congr fun behind => by rw [hstep, htype]
    | object => exact (within_countPairs hbase ih _ 0 hpos).congr fun behind => by rw [hstep, htype]
    | array => exact (within_countItems hbase ih _ 0 hpos).congr fun behind => by rw [hstep, htype]

/-- **`count_tokens_in_value` stays below the count.** -/
theorem within_countTokensInValue (m : Nat) : ∀ base, base + m ≤ tokens.length →
    Within m tokens fun array => countTokensInValue array base m := by
  induction m using Nat.strongRecOn with
  | ind m ih =>
    intro base hbase
    rcases Nat.eq_zero_or_pos m with rfl | hpos
    · refine (within_const (le_refl 0)).congr fun behind => ?_
      rw [countTokensInValue, if_pos rfl]
      rfl
    have hlt : base < tokens.length := by omega
    have hone : Within m tokens fun _ => .ok 1 := within_const hpos
    have hstep : ∀ behind, countTokensInValue (tokens ++ behind) base m = match tokens[base].type with
        | .object => skipPairs (tokens ++ behind) base m tokens[base].size.toNat 0
        | .array => skipElements (tokens ++ behind) base m tokens[base].size.toNat 0
        | _ => .ok 1 := by
      intro behind
      rw [countTokensInValue, if_neg (by omega), load_append hlt, bind_ok]
      cases tokens[base].type <;> rfl
    cases htype : tokens[base].type with
    | primitive => exact hone.congr fun behind => by rw [hstep, htype]
    | string => exact hone.congr fun behind => by rw [hstep, htype]
    | undefined => exact hone.congr fun behind => by rw [hstep, htype]
    | object => exact (within_skipPairs hbase ih _ 0 hpos).congr fun behind => by rw [hstep, htype]
    | array => exact (within_skipElements hbase ih _ 0 hpos).congr fun behind => by rw [hstep, htype]

end

/-! ## The lists of the parsers -/

/-- What the counters read of it. -/
def Jsontok.ofLexeme (token : Lexeme) : Jsontok := ⟨token.type, token.size⟩

/-- On the last `m` tokens of the array and on their list the same is counted. -/
def CountsAlike (l : List Lexeme) (count : List Jsontok → Nat → Nat → Checked Nat) (listCount : List Lexeme → Nat)
    (m : Nat) : Prop :=
  ∀ base, base + m = l.length →
    count (l.map .ofLexeme) base m = .ok (listCount (l.drop base)) ∧ listCount (l.drop base) ≤ m

section

variable {l : List Lexeme} {base m depth : Nat}

theorem countChildren_succ {count : List Lexeme → Nat} {n : Nat} (hlt : base < l.length) :
    countChildren count (n + 1) (l.drop base) =
      count (l.drop base) + countChildren count n (l.drop (base + count (l.drop base))) := by
  rw [countChildren, if_neg (List.ne_nil_of_length_pos (by rw [List.length_drop]; omega)), List.drop_drop]

theorem countChildren_of_le {count : List Lexeme → Nat} {n : Nat} (hle : l.length ≤ base) :
    countChildren count (n + 1) (l.drop base) = 0 := by
  rw [countChildren, if_pos (List.drop_eq_nil_of_le hle)]

theorem load_ofLexeme (hlt : base < l.length) : load (l.map .ofLexeme) base = .ok (Jsontok.ofLexeme l[base]) := by
  rw [load_ok (by rwa [List.length_map]), List.getElem_map]

/-- The bound comes from the array. -/
theorem Within.alike {count : List Jsontok → Nat → Nat → Checked Nat} {listCount : List Lexeme → Nat}
    (h : Within m (l.map .ofLexeme) fun array => count array base m)
    (heq : count (l.map .ofLexeme) base m = .ok (listCount (l.drop base))) : listCount (l.drop base) ≤ m := by
  obtain ⟨n, hle, hcount⟩ := h
  have hn := hcount []
  rw [List.append_nil] at hn
  dsimp only at hn
  rw [heq] at hn
  exact (Except.ok.inj hn).trans_le hle

/-- The loops of the array are the loop of the list, round by round. -/
theorem loop_ofLexeme {loop : Nat → Nat → Checked Nat} {count : List Lexeme → Nat} (hbase : base + m = l.length)
    (hend : ∀ left k, left = 0 ∨ m ≤ k + 1 → loop left k = .ok (k + 1))
    (hround : ∀ left k, k + 1 < m → k + count (l.drop (base + (k + 1))) + 1 ≤ m ∧
      loop (left + 1) k = loop left (k + count (l.drop (base + (k + 1))))) : ∀ left k, k + 1 ≤ m →
    loop left k = .ok (k + 1 + countChildren count left (l.drop (base + (k + 1)))) := by
  intro left
  induction left with
  | zero => exact fun k _ => hend 0 k (.inl rfl)
  | succ left ih =>
    intro k hk
    by_cases hlt : k + 1 < m
    · obtain ⟨hle, hloop⟩ := hround left k hlt
      rw [hloop, ih _ hle, countChildren_succ (by omega)]
      generalize count (l.drop (base + (k + 1))) = n
      rw [show base + (k + 1) + n = base + (k + n + 1) by omega]
      exact congrArg Except.ok (by omega)
    · rw [hend _ k (.inr (Nat.not_lt.mp hlt)), countChildren_of_le (by omega)]

theorem countTokensInValue_nil : OnionRelay.countTokensInValue depth [] = 0 := by
  cases depth <;> rfl

section Loops

variable (hbase : base + m = l.length)

include hbase

theorem countItems_ofLexeme (ih : ∀ m' < m, CountsAlike l (fun array base m => countValueTokens array base m)
      (OnionRelay.countValueTokens depth) m') : ∀ left k, k + 1 ≤ m →
    countItems (l.map .ofLexeme) base m left k = .ok (k + 1 +
      countChildren (OnionRelay.countValueTokens depth) left (l.drop (base + (k + 1)))) := by
  refine loop_ofLexeme hbase (fun left k => countItems_end) fun left k hlt => ?_
  obtain ⟨hcount, hle⟩ := ih (m - (k + 1)) (by omega) (base + (k + 1)) (by omega)
  exact ⟨by omega, countItems_round hlt left hcount⟩

theorem countPairs_ofLexeme (ih : ∀ m' < m, CountsAlike l (fun array base m => countValueTokens array base m)
      (OnionRelay.countValueTokens depth) m') : ∀ left k, k + 1 ≤ m →
    countPairs (l.map .ofLexeme) base m left k = .ok (k + 1 +
      countChildren (fun child => 1 + OnionRelay.countValueTokens depth (child.drop 1)) left
        (l.drop (base + (k + 1)))) := by
  refine loop_ofLexeme hbase (fun left k => countPairs_end) fun left k hlt => ?_
  obtain ⟨hcount, hle⟩ := ih (m - (k + 2)) (by omega) (base + (k + 2)) (by omega)
  rw [List.drop_drop, show base + (k + 1) + 1 = base + (k + 2) by omega, ← Nat.add_assoc]
  exact ⟨by omega, countPairs_round hlt left hcount⟩

theorem skipElements_ofLexeme (ih : ∀ m' < m, CountsAlike l countTokensInValue
      (OnionRelay.countTokensInValue depth) m') : ∀ left k, k + 1 ≤ m →
    skipElements (l.map .ofLexeme) base m left k = .ok (k + 1 +
      countChildren (OnionRelay.countTokensInValue depth) left (l.drop (base + (k + 1)))) := by
  refine loop_ofLexeme hbase (fun left k => skipElements_end) fun left k hlt => ?_
  obtain ⟨hcount, hle⟩ := ih (m - (k + 1)) (by omega) (base + (k + 1)) (by omega)
  exact ⟨by omega, skipElements_round hlt left hcount⟩

theorem skipPairs_ofLexeme (ih : ∀ m' < m, CountsAlike l countTokensInValue
      (OnionRelay.countTokensInValue depth) m') : ∀ left k, k + 1 ≤ m →
    skipPairs (l.map .ofLexeme) base m left k = .ok (k + 1 +
      countChildren (fun child => OnionRelay.countTokensInValue depth child +
        OnionRelay.countTokensInValue depth (child.drop (OnionRelay.countTokensInValue depth child))) left
          (l.drop (base + (k + 1)))) := by
  refine loop_ofLexeme hbase (fun left k => skipPairs_end) fun left k hlt => ?_
  obtain ⟨hcount, hle⟩ := ih (m - (k + 1)) (by omega) (base + (k + 1)) (by omega)
  rw [List.drop_drop]
  generalize OnionRelay.countTokensInValue depth (l.drop (base + (k + 1))) = n at hcount hle
  rw [show base + (k + 1) + n = base + (k + 1 + n) by omega, ← Nat.add_assoc]
  have hvalue := fun hmore : k + 1 + n < m => ih (m - (k + 1 + n)) (by omega) (base + (k + 1 + n)) (by omega)
  have hlast : m ≤ k + 1 + n → OnionRelay.countTokensInValue depth (l.drop (base + (k + 1 + n))) = 0 := fun hle => by
    rw [List.drop_eq_nil_of_le (by omega), countTokensInValue_nil]
  refine ⟨?_, skipPairs_round hlt left hcount (fun hmore => (hvalue hmore).1) hlast⟩
  by_cases hmore : k + 1 + n < m
  · have hbound := (hvalue hmore).2
    omega
  · rw [hlast (Nat.not_lt.mp hmore)]
    omega

end Loops

/-- **`count_value_tokens` on a list** is what the event parser uses. -/
theorem countValueTokens_ofLexeme (m : Nat) : ∀ depth, m ≤ depth →
    CountsAlike l (fun array base m => countValueTokens array base m) (OnionRelay.countValueTokens depth) m := by
  induction m using Nat.strongRecOn with
  | ind m ih =>
    intro depth hdepth base hbase
    suffices heq : countValueTokens (l.map .ofLexeme) base m =
        .ok (OnionRelay.countValueTokens depth (l.drop base)) from
      ⟨heq, @Within.alike l base m (fun array base m => countValueTokens array base m) _
        (within_countValueTokens m base (by rw [List.length_map, hbase])) heq⟩
    rcases Nat.eq_zero_or_pos m with rfl | hpos
    · rw [List.drop_eq_nil_of_le (by omega), countValueTokens, if_pos (by decide)]
      cases depth <;> rfl
    obtain ⟨depth, rfl⟩ : ∃ d, depth = d + 1 := ⟨depth - 1, by omega⟩
    have hlt : base < l.length := by omega
    have hchildren := fun m' (h : m' < m) => ih m' h depth (by omega)
    rw [List.drop_eq_getElem_cons hlt, OnionRelay.countValueTokens, countValueTokens, if_neg (by omega),
      load_ofLexeme hlt, bind_ok, Jsontok.ofLexeme]
    dsimp only
    cases l[base].type with
    | object => exact countPairs_ofLexeme hbase hchildren _ 0 hpos
    | array => exact countItems_ofLexeme hbase hchildren _ 0 hpos
    | primitive => rfl
    | string => rfl
    | undefined => rfl

/-- **`count_tokens_in_value` on a list** is what the filter parser uses. -/
theorem countTokensInValue_ofLexeme (m : Nat) : ∀ depth, m ≤ depth →
    CountsAlike l countTokensInValue (OnionRelay.countTokensInValue depth) m := by
  induction m using Nat.strongRecOn with
  | ind m ih =>
    intro depth hdepth base hbase
    suffices heq : countTokensInValue (l.map .ofLexeme) base m =
        .ok (OnionRelay.countTokensInValue depth (l.drop base)) from
      ⟨heq, (within_countTokensInValue m base (by rw [List.length_map, hbase])).alike heq⟩
    rcases Nat.eq_zero_or_pos m with rfl | hpos
    · rw [List.drop_eq_nil_of_le (by omega), countTokensInValue_nil, countTokensInValue, if_pos rfl]
      rfl
    obtain ⟨depth, rfl⟩ : ∃ d, depth = d + 1 := ⟨depth - 1, by omega⟩
    have hlt : base < l.length := by omega
    have hchildren := fun m' (h : m' < m) => ih m' h depth (by omega)
    rw [List.drop_eq_getElem_cons hlt, OnionRelay.countTokensInValue, countTokensInValue, if_neg (by omega),
      load_ofLexeme hlt, bind_ok, Jsontok.ofLexeme]
    dsimp only
    cases l[base].type with
    | object => exact skipPairs_ofLexeme hbase hchildren _ 0 hpos
    | array => exact skipElements_ofLexeme hbase hchildren _ 0 hpos
    | primitive => rfl
    | string => rfl
    | undefined => rfl

end

/-! ## Values -/

/-- A string or a primitive, whose size may be any. -/
inductive Leaf
  | string (size : Int)
  | primitive (size : Int)

mutual

/-- A value by its tokens; the keys of an object are strings or primitives. -/
inductive Value
  | leaf (leaf : Leaf)
  | array (elements : Elements)
  | object (pairs : Pairs)

inductive Elements
  | nil
  | cons (value : Value) (rest : Elements)

inductive Pairs
  | nil
  | cons (key : Leaf) (value : Value) (rest : Pairs)

end

def Leaf.token : Leaf → Jsontok
  | .string size => ⟨.string, size⟩
  | .primitive size => ⟨.primitive, size⟩

def Elements.count : Elements → Nat
  | .nil => 0
  | .cons _ rest => rest.count + 1

def Pairs.count : Pairs → Nat
  | .nil => 0
  | .cons _ _ rest => rest.count + 1

mutual

/-- The tokens of a value, in the order of the text. -/
def Value.tokens : Value → List Jsontok
  | .leaf leaf => [leaf.token]
  | .array elements => ⟨.array, elements.count⟩ :: elements.tokens
  | .object pairs => ⟨.object, pairs.count⟩ :: pairs.tokens

def Elements.tokens : Elements → List Jsontok
  | .nil => []
  | .cons value rest => value.tokens ++ rest.tokens

def Pairs.tokens : Pairs → List Jsontok
  | .nil => []
  | .cons key value rest => key.token :: (value.tokens ++ rest.tokens)

end

section

variable {tokens : List Jsontok} {base : Nat}

/-- The tokens `part` stand at `base`. -/
def At (tokens : List Jsontok) (base : Nat) (part : List Jsontok) : Prop := part <+: tokens.drop base

theorem At.left {a b : List Jsontok} (h : At tokens base (a ++ b)) : At tokens base a :=
  (List.prefix_append a b).trans h

theorem At.right {a b : List Jsontok} (h : At tokens base (a ++ b)) : At tokens (base + a.length) b := by
  obtain ⟨rest, hrest⟩ := h
  rw [At, ← List.drop_drop, ← hrest, List.append_assoc, List.drop_left]
  exact List.prefix_append b rest

theorem At.load_eq {token : Jsontok} {rest : List Jsontok} (h : At tokens base (token :: rest)) :
    load tokens base = .ok token := by
  obtain ⟨behind, hbehind⟩ := h
  have hget : tokens[base]? = some token := by
    rw [← List.head?_drop, ← hbehind]
    rfl
  rw [load, hget]

theorem At.tail {token : Jsontok} {rest : List Jsontok} (h : At tokens base (token :: rest)) : At tokens (base + 1) rest :=
  @At.right tokens base [token] rest h

theorem Value.length_tokens_pos (value : Value) : 0 < value.tokens.length := by
  cases value with
  | leaf leaf => exact Nat.one_pos
  | array elements => exact Nat.succ_pos _
  | object pairs => exact Nat.succ_pos _

theorem countTokensInValue_leaf {leaf : Leaf} {remaining : Nat} (h : At tokens base [leaf.token]) (hpos : 0 < remaining) :
    countTokensInValue tokens base remaining = .ok 1 := by
  rw [countTokensInValue, if_neg (by omega), h.load_eq, bind_ok]
  cases leaf <;> rfl

mutual

/-- **`count_value_tokens` returns the number of the tokens of a value.** -/
theorem countValueTokens_value : ∀ (value : Value) {base : Nat} {remaining : Int}, At tokens base value.tokens →
    value.tokens.length ≤ remaining → countValueTokens tokens base remaining = .ok value.tokens.length
  | .leaf leaf, base, remaining, hat, hroom => by
    rw [Value.tokens] at hat hroom ⊢
    rw [List.length_singleton] at hroom ⊢
    rw [countValueTokens, if_neg (by omega), hat.load_eq, bind_ok]
    cases leaf <;> rfl
  | .array elements, base, remaining, hat, hroom => by
    rw [Value.tokens] at hat hroom ⊢
    rw [List.length_cons] at hroom ⊢
    rw [countValueTokens, if_neg (by omega), hat.load_eq, bind_ok]
    dsimp only
    rw [Int.toNat_natCast, countItems_elements elements hat.tail (by omega), Nat.add_comm, Nat.zero_add]
  | .object pairs, base, remaining, hat, hroom => by
    rw [Value.tokens] at hat hroom ⊢
    rw [List.length_cons] at hroom ⊢
    rw [countValueTokens, if_neg (by omega), hat.load_eq, bind_ok]
    dsimp only
    rw [Int.toNat_natCast, countPairs_pairs pairs hat.tail (by omega), Nat.add_comm, Nat.zero_add]

theorem countItems_elements : ∀ (elements : Elements) {base : Nat} {remaining : Int} {k : Nat},
    At tokens (base + (k + 1)) elements.tokens → (k + 1 + elements.tokens.length : Nat) ≤ remaining →
      countItems tokens base remaining elements.count k = .ok (k + 1 + elements.tokens.length)
  | .nil, base, remaining, k, _, _ => by
    rw [Elements.count, countItems]
    rfl
  | .cons value rest, base, remaining, k, hat, hroom => by
    have hpos := value.length_tokens_pos
    rw [Elements.tokens] at hat hroom ⊢
    rw [List.length_append] at hroom ⊢
    have hvalue : countValueTokens tokens (base + (k + 1)) (remaining - (k + 1)) = .ok value.tokens.length :=
      countValueTokens_value value hat.left (by omega)
    have hbehind : At tokens (base + (k + value.tokens.length + 1)) rest.tokens := by
      have hright := hat.right
      rwa [show base + (k + 1) + value.tokens.length = base + (k + value.tokens.length + 1) by omega] at hright
    have hrest : countItems tokens base remaining rest.count (k + value.tokens.length) = _ :=
      countItems_elements rest hbehind (by omega)
    rw [Elements.count, countItems, if_pos (by omega), hvalue, bind_ok, hrest]
    exact congrArg Except.ok (by omega)

theorem countPairs_pairs : ∀ (pairs : Pairs) {base : Nat} {remaining : Int} {k : Nat},
    At tokens (base + (k + 1)) pairs.tokens → (k + 1 + pairs.tokens.length : Nat) ≤ remaining →
      countPairs tokens base remaining pairs.count k = .ok (k + 1 + pairs.tokens.length)
  | .nil, base, remaining, k, _, _ => by
    rw [Pairs.count, countPairs]
    rfl
  | .cons key value rest, base, remaining, k, hat, hroom => by
    rw [Pairs.tokens] at hat hroom ⊢
    rw [List.length_cons, List.length_append] at hroom ⊢
    have hvalue : countValueTokens tokens (base + (k + 2)) (remaining - (k + 2)) = .ok value.tokens.length :=
      countValueTokens_value value hat.tail.left (by omega)
    have hbehind : At tokens (base + (k + 1 + value.tokens.length + 1)) rest.tokens := by
      have hright := hat.tail.right
      rwa [show base + (k + 1) + 1 + value.tokens.length = base + (k + 1 + value.tokens.length + 1) by omega] at hright
    have hrest : countPairs tokens base remaining rest.count (k + 1 + value.tokens.length) = _ :=
      countPairs_pairs rest hbehind (by omega)
    rw [Pairs.count, countPairs, if_pos (by omega), hvalue, bind_ok, hrest]
    exact congrArg Except.ok (by omega)

end

mutual

/-- **`count_tokens_in_value` returns it as well.** -/
theorem countTokensInValue_value : ∀ (value : Value) {base remaining : Nat}, At tokens base value.tokens →
    value.tokens.length ≤ remaining → countTokensInValue tokens base remaining = .ok value.tokens.length
  | .leaf leaf, base, remaining, hat, hroom => by
    rw [Value.tokens] at hat hroom ⊢
    exact countTokensInValue_leaf hat hroom
  | .array elements, base, remaining, hat, hroom => by
    rw [Value.tokens] at hat hroom ⊢
    rw [List.length_cons] at hroom ⊢
    rw [countTokensInValue, if_neg (by omega), hat.load_eq, bind_ok]
    dsimp only
    rw [Int.toNat_natCast, skipElements_elements elements hat.tail (by omega), Nat.add_comm, Nat.zero_add]
  | .object pairs, base, remaining, hat, hroom => by
    rw [Value.tokens] at hat hroom ⊢
    rw [List.length_cons] at hroom ⊢
    rw [countTokensInValue, if_neg (by omega), hat.load_eq, bind_ok]
    dsimp only
    rw [Int.toNat_natCast, skipPairs_pairs pairs hat.tail (by omega), Nat.add_comm, Nat.zero_add]

theorem skipElements_elements : ∀ (elements : Elements) {base remaining k : Nat},
    At tokens (base + (k + 1)) elements.tokens → k + 1 + elements.tokens.length ≤ remaining →
      skipElements tokens base remaining elements.count k = .ok (k + 1 + elements.tokens.length)
  | .nil, base, remaining, k, _, _ => by
    rw [Elements.count, skipElements]
    rfl
  | .cons value rest, base, remaining, k, hat, hroom => by
    have hpos := value.length_tokens_pos
    rw [Elements.tokens] at hat hroom ⊢
    rw [List.length_append] at hroom ⊢
    have hvalue : countTokensInValue tokens (base + (k + 1)) (remaining - (k + 1)) = .ok value.tokens.length :=
      countTokensInValue_value value hat.left (by omega)
    have hbehind : At tokens (base + (k + value.tokens.length + 1)) rest.tokens := by
      have hright := hat.right
      rwa [show base + (k + 1) + value.tokens.length = base + (k + value.tokens.length + 1) by omega] at hright
    have hrest : skipElements tokens base remaining rest.count (k + value.tokens.length) = _ :=
      skipElements_elements rest hbehind (by omega)
    rw [Elements.count, skipElements, if_pos (by omega), hvalue, bind_ok, hrest]
    exact congrArg Except.ok (by omega)

theorem skipPairs_pairs : ∀ (pairs : Pairs) {base remaining k : Nat},
    At tokens (base + (k + 1)) pairs.tokens → k + 1 + pairs.tokens.length ≤ remaining →
      skipPairs tokens base remaining pairs.count k = .ok (k + 1 + pairs.tokens.length)
  | .nil, base, remaining, k, _, _ => by
    rw [Pairs.count, skipPairs]
    rfl
  | .cons key value rest, base, remaining, k, hat, hroom => by
    have hpos := value.length_tokens_pos
    rw [Pairs.tokens] at hat hroom ⊢
    rw [List.length_cons, List.length_append] at hroom ⊢
    have hkey : countTokensInValue tokens (base + (k + 1)) (remaining - (k + 1)) = .ok 1 :=
      countTokensInValue_leaf (@At.left tokens _ [key.token] _ hat) (by omega)
    have hvalue : countTokensInValue tokens (base + (k + 1 + 1)) (remaining - (k + 1 + 1)) = .ok value.tokens.length :=
      countTokensInValue_value value hat.tail.left (by omega)
    have hbehind : At tokens (base + (k + 1 + value.tokens.length + 1)) rest.tokens := by
      have hright := hat.tail.right
      rwa [show base + (k + 1) + 1 + value.tokens.length = base + (k + 1 + value.tokens.length + 1) by omega] at hright
    have hrest : skipPairs tokens base remaining rest.count (k + 1 + value.tokens.length) = _ :=
      skipPairs_pairs rest hbehind (by omega)
    rw [Pairs.count, skipPairs, if_pos (by omega), hkey, bind_ok, if_pos (by omega), hvalue, bind_ok, hrest]
    exact congrArg Except.ok (by omega)

end

end

/-- **The counters are right.**  On every array they end, look at no token behind the count and return at
most the count; and where the tokens of a value stand they return the number of these. -/
theorem counters_correct :
    (∀ tokens : List Jsontok,
      (∃ n ≤ tokens.length, ∀ behind, countValueTokens (tokens ++ behind) 0 tokens.length = .ok n) ∧
      (∃ n ≤ tokens.length, ∀ behind, countTokensInValue (tokens ++ behind) 0 tokens.length = .ok n) ∧
      ∃ n ≤ tokens.length, ∀ behind, reqCountTokensInValue (tokens ++ behind) 0 tokens.length = .ok n) ∧
    (∀ (tokens : List Jsontok) (remaining : Int), remaining ≤ 0 → countValueTokens tokens 0 remaining = .ok 0) ∧
    ∀ (value : Value) (behind : List Jsontok) (remaining : Nat), value.tokens.length ≤ remaining →
      countValueTokens (value.tokens ++ behind) 0 remaining = .ok value.tokens.length ∧
      countTokensInValue (value.tokens ++ behind) 0 remaining = .ok value.tokens.length ∧
      reqCountTokensInValue (value.tokens ++ behind) 0 remaining = .ok value.tokens.length := by
  refine ⟨fun tokens => ?_, fun tokens remaining hneg => ?_, fun value behind remaining hroom => ?_⟩
  · have hskip := @within_countTokensInValue tokens tokens.length 0 (Nat.zero_add _).le
    exact ⟨@within_countValueTokens tokens tokens.length 0 (Nat.zero_add _).le, hskip, hskip⟩
  · rw [countValueTokens, if_pos hneg]
    rfl
  · have hat : At (value.tokens ++ behind) 0 value.tokens := List.prefix_append value.tokens behind
    have hskip := countTokensInValue_value value hat hroom
    exact ⟨countValueTokens_value value hat (Int.ofNat_le.mpr hroom), hskip, hskip⟩

end OnionRelay.TokenArray
