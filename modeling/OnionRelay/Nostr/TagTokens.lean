import Mathlib.Data.List.Forall2
import Mathlib.Data.List.Infix
import OnionRelay.Nostr.EventParser

/-!
# The tags of an event, token by token

`extract_nostr_event_tags` goes through the tokens of the tags array with one index.
It does not step over the values of a tag behind the sixteenth: each of them is taken
for a tag that is no array, and costs a round of the loop.

`extractTags_tokens` says which tags it reaches, and `extractsTags_iff` that they are
all, up to the limit, exactly if the values left lying do not use up the rounds.
-/

namespace OnionRelay

open OnionRelay.Lib OnionRelay.Db

/-! ## Token trees -/

/-- The token of a string with this text. -/
structure StringToken (s : List UInt8) (token : Lexeme) : Prop where
  type : token.type = .string
  text : token.text = s
  noNul : 0 ∉ s

/-- The tokens of arrays of strings, one behind the other. -/
inductive TagTokens : List (List (List UInt8)) → List Lexeme → Prop
  | nil : TagTokens [] []
  | cons {token : Lexeme} {strings : List (List UInt8)} {lexemes : List Lexeme}
      {arrays : List (List (List UInt8))} {tokens : List Lexeme} (type : token.type = .array)
      (size : token.size = strings.length) (strings_tokens : List.Forall₂ StringToken strings lexemes)
      (rest : TagTokens arrays tokens) : TagTokens (strings :: arrays) (token :: (lexemes ++ tokens))

/-- The entry for an array of strings: the name, and up to sixteen values. -/
def tagEntry : List (List UInt8) → NostrTagEntity
  | [] => ⟨[], []⟩
  | name :: values => ⟨name.take 63, (values.take 16).map (List.take 511)⟩

/-- The entries for the first 2048 arrays that are not empty. -/
def tagEntries (arrays : List (List (List UInt8))) : List NostrTagEntity :=
  ((arrays.filter (· ≠ [])).take 2048).map tagEntry

/-! ## The rounds of the loop -/

section

variable {α : Type}

/-- The strings of an array that stay in front of the next one. -/
def excess (strings : List α) : Nat := strings.length - 17

/-- The arrays that `n` rounds of the loop reach. -/
def reached : Nat → List (List α) → List (List α)
  | _, [] => []
  | 0, _ :: _ => []
  | n + 1, [] :: arrays => reached n arrays
  | n + 1, (name :: values) :: arrays =>
    (name :: values) :: reached (n - excess (name :: values)) arrays

/-- The loop has rounds left at each of the first `cap` arrays that are not empty. -/
def RoundsSuffice (n cap : Nat) (arrays : List (List α)) : Prop :=
  ∀ before strings behind, arrays = before ++ strings :: behind → strings ≠ [] →
    (before.filter (· ≠ [])).length < cap → before.length + (before.map excess).sum < n

@[simp] theorem reached_zero (arrays : List (List α)) : reached 0 arrays = [] := by
  cases arrays <;> rfl

theorem reached_cons_nil (n : Nat) (arrays : List (List α)) :
    reached n ([] :: arrays) = reached (n - 1) arrays := by
  cases n with
  | zero => rw [reached_zero, reached_zero]
  | succ n => rfl

/-- An empty array costs one round. -/
theorem roundsSuffice_cons_nil {n cap : Nat} {arrays : List (List α)} :
    RoundsSuffice n cap ([] :: arrays) ↔ RoundsSuffice (n - 1) cap arrays := by
  constructor
  · rintro h before strings behind rfl hne hcap
    have hrounds := h ([] :: before) strings behind rfl hne hcap
    rw [List.length_cons, List.map_cons, List.sum_cons, show excess ([] : List α) = 0 from rfl] at hrounds
    omega
  · rintro h (_ | ⟨first, before⟩) strings behind heq hne hcap
    · exact absurd (List.cons.inj heq).1.symm hne
    · obtain ⟨rfl, rfl⟩ := List.cons.inj heq
      have hrounds := h before strings behind rfl hne hcap
      rw [List.length_cons, List.map_cons, List.sum_cons, show excess ([] : List α) = 0 from rfl]
      omega

theorem roundsSuffice_cons {n cap : Nat} {strings : List α} {arrays : List (List α)} (hne : strings ≠ []) :
    RoundsSuffice (n + 1) (cap + 1) (strings :: arrays) ↔ RoundsSuffice (n - excess strings) cap arrays := by
  have hfilter : ∀ before : List (List α),
      ((strings :: before).filter (· ≠ [])).length = (before.filter (· ≠ [])).length + 1 := by
    intro before
    rw [List.filter_cons_of_pos (by simpa using hne), List.length_cons]
  constructor
  · rintro h before next behind rfl hnext hcap
    have hrounds := h (strings :: before) next behind rfl hnext (by rw [hfilter]; omega)
    rw [List.length_cons, List.map_cons, List.sum_cons] at hrounds
    omega
  · rintro h (_ | ⟨first, before⟩) next behind heq hnext hcap
    · exact Nat.succ_pos n
    · obtain ⟨rfl, rfl⟩ := List.cons.inj heq
      rw [hfilter] at hcap
      have hrounds := h before next behind rfl hnext (by omega)
      rw [List.length_cons, List.map_cons, List.sum_cons]
      omega

/-- **The loop reaches the first arrays that are not empty**, all of them as long as it
has rounds left. -/
theorem take_reached_iff : ∀ {arrays : List (List α)} {n cap : Nat},
    (reached n arrays).take cap = (arrays.filter (· ≠ [])).take cap ↔ RoundsSuffice n cap arrays := by
  intro arrays
  induction arrays with
  | nil =>
    intro n cap
    refine iff_of_true (by cases n <;> rfl) fun before strings behind heq => ?_
    exact absurd heq (by simp)
  | cons strings arrays ih =>
    intro n cap
    rcases strings with - | ⟨name, values⟩
    · rw [reached_cons_nil, List.filter_cons_of_neg (by simp), ih, roundsSuffice_cons_nil]
    · rw [List.filter_cons_of_pos (by simp)]
      rcases cap with - | cap
      · exact iff_of_true rfl fun _ _ _ _ _ h => absurd h (Nat.not_lt_zero _)
      rcases n with - | n
      · refine iff_of_false (by simp) fun h => ?_
        exact absurd (h [] _ arrays rfl (List.cons_ne_nil name values) (Nat.succ_pos cap)) (Nat.not_lt_zero _)
      · rw [reached, List.take_succ_cons, List.take_succ_cons, List.cons.injEq, and_iff_right rfl, ih,
          roundsSuffice_cons (List.cons_ne_nil name values)]

/-- What is reached is the beginning of what there is. -/
theorem reached_isPrefix : ∀ (arrays : List (List α)) (n : Nat),
    reached n arrays <+: arrays.filter (· ≠ []) := by
  intro arrays
  induction arrays with
  | nil =>
    intro n
    cases n <;> exact List.prefix_refl _
  | cons strings arrays ih =>
    intro n
    rcases strings with - | ⟨name, values⟩
    · rw [reached_cons_nil, List.filter_cons_of_neg (by simp)]
      exact ih (n - 1)
    · rw [List.filter_cons_of_pos (by simp)]
      cases n with
      | zero => exact List.nil_prefix
      | succ n => exact (List.prefix_cons_inj _).mpr (ih _)

end

/-! ## The loop over the tokens -/

theorem copyTokenString_eq {s : List UInt8} {token : Lexeme} (h : StringToken s token) (n : Nat) :
    copyTokenString token (n + 1) = s.take n := by
  rw [copyTokenString, h.text, Nat.add_sub_cancel]
  exact cstr_of_noNul fun hmem => h.noNul (List.mem_of_mem_take hmem)

/-- The values that find room are copied, the tokens of the others stay. -/
theorem extractValues_tokens : ∀ {strings : List (List UInt8)} {lexemes : List Lexeme}
    (more : List Lexeme) (read : List CStr), List.Forall₂ StringToken strings lexemes →
      read.length ≤ 16 →
      extractValues strings.length (lexemes ++ more) read =
        (read ++ (strings.take (16 - read.length)).map (List.take 511),
          lexemes.drop (16 - read.length) ++ more) := by
  intro strings
  induction strings with
  | nil =>
    rintro lexemes more read (_ | _) _
    simp [extractValues]
  | cons s strings ih =>
    rintro lexemes more read (_ | ⟨htoken, htokens⟩) hread
    rename_i token lexemes
    rw [List.length_cons, List.cons_append, extractValues]
    by_cases hroom : read.length < 16
    · obtain ⟨k, hk⟩ := Nat.exists_eq_add_of_lt hroom
      have hleft : 16 - read.length = k + 1 := by omega
      rw [if_pos hroom, if_pos htoken.type, copyTokenString_eq htoken,
        ih more _ htokens (by rw [List.length_append, List.length_singleton]; omega),
        List.length_append, List.length_singleton, show 16 - (read.length + 1) = k by omega, hleft,
        List.take_succ_cons, List.map_cons, List.drop_succ_cons, List.append_assoc,
        List.singleton_append]
    · rw [if_neg hroom, show 16 - read.length = 0 by omega]
      simp

theorem extractTags_full (n : Nat) (tokens : List Lexeme) {read : List NostrTagEntity}
    (hread : 2048 ≤ read.length) : extractTags n tokens read = read := by
  rcases n with - | n
  · rfl
  rcases tokens with - | ⟨token, tokens⟩
  · rfl
  · rw [extractTags.eq_def]
    exact if_neg (by omega)

/-- Values that were left lying are skipped, one in a round. -/
theorem extractTags_skip : ∀ {strings : List (List UInt8)} {lexemes : List Lexeme} (n : Nat)
    (more : List Lexeme) (read : List NostrTagEntity), List.Forall₂ StringToken strings lexemes →
      extractTags n (lexemes ++ more) read = extractTags (n - strings.length) more read := by
  intro strings
  induction strings with
  | nil =>
    rintro lexemes n more read (_ | _)
    rfl
  | cons s strings ih =>
    rintro lexemes n more read (_ | ⟨htoken, htokens⟩)
    rename_i token lexemes
    rcases n with - | n
    · rw [Nat.zero_sub]
      rcases more with - | _ <;> rfl
    rw [List.cons_append, List.length_cons, Nat.add_sub_add_right]
    conv_lhs => rw [extractTags.eq_def]
    dsimp only
    by_cases hroom : read.length < 2048
    · rw [if_pos hroom, if_pos (by rw [htoken.type]; simp)]
      exact ih n more read htokens
    · rw [if_neg hroom, extractTags_full _ _ (Nat.not_lt.mp hroom)]

/-- **The tags that are read** are those the loop reaches. -/
theorem extractTags_tokens : ∀ {arrays : List (List (List UInt8))} {tokens : List Lexeme} {n : Nat}
    (more : List Lexeme) (read : List NostrTagEntity), TagTokens arrays tokens → n ≤ arrays.length →
      extractTags n (tokens ++ more) read =
        read ++ ((reached n arrays).take (2048 - read.length)).map tagEntry := by
  intro arrays
  induction arrays with
  | nil =>
    intro tokens n more read _ hn
    obtain rfl := Nat.le_zero.mp hn
    simp [extractTags]
  | cons strings arrays ih =>
    rintro tokens n more read (_ | ⟨htype, hsize, hstrings, hrest⟩) hn
    rename_i token lexemes tokens
    rcases n with - | n
    · simp [extractTags]
    have hn' : n ≤ arrays.length := Nat.le_of_succ_le_succ hn
    rw [List.cons_append, extractTags.eq_def]
    dsimp only
    by_cases hroom : read.length < 2048
    swap
    · rw [if_neg hroom, Nat.sub_eq_zero_of_le (Nat.not_lt.mp hroom), List.take_zero, List.map_nil,
        List.append_nil]
    rw [if_pos hroom, if_neg (not_not.mpr htype)]
    rcases strings with - | ⟨name, values⟩
    · cases hstrings
      rw [if_pos (show token.size = 0 from hsize), List.nil_append, ih more read hrest hn', reached_cons_nil, Nat.add_sub_cancel]
    · rcases hstrings with _ | ⟨hname, hvalues⟩
      rename_i key lexemes
      rw [if_neg (by rw [hsize]; exact Nat.succ_ne_zero _)]
      simp only [List.cons_append, List.append_assoc]
      rw [if_neg (not_not.mpr hname.type), hsize, List.length_cons, Nat.add_sub_cancel,
        extractValues_tokens (tokens ++ more) [] hvalues (Nat.zero_le _)]
      have hleft : List.Forall₂ StringToken (values.drop 16) (lexemes.drop 16) :=
        List.forall₂_drop 16 hvalues
      have hexcess : excess (name :: values) = (values.drop 16).length := by
        rw [excess, List.length_drop, List.length_cons]
        omega
      obtain ⟨k, hk⟩ := Nat.exists_eq_add_of_lt hroom
      have hroom' : 2048 - read.length = k + 1 := by omega
      simp only [List.length_nil, Nat.sub_zero, List.nil_append]
      rw [extractTags_skip n (tokens ++ more) _ hleft, ih more _ hrest (by omega), ← hexcess,
        List.length_append, List.length_singleton, show 2048 - (read.length + 1) = k by omega, hroom',
        reached, List.take_succ_cons, List.map_cons, List.append_assoc, List.singleton_append,
        copyTokenString_eq hname, tagEntry]

/-! ## Tokens of a JSON text -/

/-- The items are strings. -/
inductive StringItems : List (List JsonChar) → Items → Prop
  | nil : StringItems [] .nil
  | cons (before : List Blank) (s : List JsonChar) (behind : List Blank) {strings : List (List JsonChar)}
      {rest : Items} (h : StringItems strings rest) :
      StringItems (s :: strings) (.cons before (.string s) behind rest)

/-- The items are arrays of strings. -/
inductive TagItems : List (List (List JsonChar)) → Items → Prop
  | nil : TagItems [] .nil
  | cons (before blanks behind : List Blank) {strings : List (List JsonChar)} {items : Items}
      {arrays : List (List (List JsonChar))} {rest : Items} (hitems : StringItems strings items)
      (hrest : TagItems arrays rest) :
      TagItems (strings :: arrays) (.cons before (.array blanks items) behind rest)

theorem StringItems.count_eq {strings : List (List JsonChar)} {items : Items}
    (h : StringItems strings items) : items.count = strings.length := by
  induction h with
  | nil => rfl
  | cons before s behind h ih => rw [Items.count, ih, List.length_cons]

theorem StringItems.tokens {strings : List (List JsonChar)} {items : Items} (h : StringItems strings items)
    (tail : List UInt8) :
    List.Forall₂ StringToken (strings.map stringText) (items.lexemes tail) := by
  induction h with
  | nil => exact .nil
  | cons before s behind h ih =>
    exact .cons ⟨rfl, List.take_left' rfl, zero_notMem_stringText s⟩ ih

theorem TagItems.count_eq {arrays : List (List (List JsonChar))} {items : Items}
    (h : TagItems arrays items) : items.count = arrays.length := by
  induction h with
  | nil => rfl
  | cons before blanks behind hitems hrest ih => rw [Items.count, ih, List.length_cons]

/-- The tokens of an array of arrays of strings are such token trees. -/
theorem TagItems.tokens {arrays : List (List (List JsonChar))} {items : Items} (h : TagItems arrays items)
    (tail : List UInt8) : TagTokens (arrays.map (List.map stringText)) (items.lexemes tail) := by
  induction h with
  | nil => exact .nil
  | cons before blanks behind hitems hrest ih =>
    exact .cons rfl (by rw [List.length_map]; exact hitems.count_eq) (hitems.tokens _) ih

/-! ## Where no tag is lost -/

theorem extractNostrEventTags_tokens {arrays : List (List (List UInt8))} {token : Lexeme}
    {tokens : List Lexeme} (htype : token.type = .array) (hsize : token.size = arrays.length)
    (htokens : TagTokens arrays tokens) (more : List Lexeme) :
    extractNostrEventTags (token :: (tokens ++ more)) =
      some (((reached arrays.length arrays).take 2048).map tagEntry) := by
  rw [extractNostrEventTags, if_neg (not_not.mpr htype), hsize,
    extractTags_tokens more [] htokens (Nat.le_refl _), List.nil_append, List.length_nil, Nat.sub_zero]

/-- **Where no tag is lost.**  The tags of the event are the entries for the first 2048
arrays that are not empty exactly if the loop has a round left for each of them: each
array costs one, and so does each string of an array behind the seventeenth. -/
theorem extractsTags_iff {arrays : List (List (List UInt8))} {token : Lexeme} {tokens : List Lexeme}
    (htype : token.type = .array) (hsize : token.size = arrays.length) (htokens : TagTokens arrays tokens)
    (more : List Lexeme) :
    extractNostrEventTags (token :: (tokens ++ more)) = some (tagEntries arrays) ↔
      RoundsSuffice arrays.length 2048 arrays := by
  rw [extractNostrEventTags_tokens htype hsize htokens, Option.some.injEq, tagEntries,
    ← take_reached_iff]
  constructor
  · intro h
    have hlength := congrArg List.length h
    rw [List.length_map, List.length_map] at hlength
    have hreached : (reached arrays.length arrays).take 2048 <+: (arrays.filter (· ≠ [])).take 2048 :=
      (reached_isPrefix arrays arrays.length).take 2048
    exact hreached.eq_of_length hlength
  · intro h
    rw [h]

/-- An array of arrays that each repeat the string `a`. -/
def repeatItems (n : Nat) : Items :=
  n.rec .nil fun _ items => .cons [] (.string [.plain ⟨97, by decide⟩]) [] items

theorem stringItems_repeatItems (n : Nat) :
    StringItems (List.replicate n [.plain ⟨97, by decide⟩]) (repeatItems n) := by
  induction n with
  | zero => exact .nil
  | succ n ih => exact .cons [] _ [] ih

/-- `[["a", …], ["a"]]` with `n` strings in the first array. -/
def twoArrays (n : Nat) : Items :=
  .cons [] (.array [] (repeatItems n)) [] (.cons [] (.array [] (repeatItems 1)) [] .nil)

/-- The same as lists of texts. -/
def twoTexts (n : Nat) : List (List (List UInt8)) :=
  [List.replicate n [.plain ⟨97, by decide⟩], [[.plain ⟨97, by decide⟩]]].map (List.map stringText)

theorem tagTokens_twoArrays (n : Nat) : TagTokens (twoTexts n) ((twoArrays n).lexemes [93]) :=
  (TagItems.cons [] [] [] (stringItems_repeatItems n)
    (.cons [] [] [] (stringItems_repeatItems 1) .nil)).tokens [93]

theorem roundsSuffice_two {α : Type} {a b : List α} (hb : b ≠ []) :
    RoundsSuffice 2 2048 [a, b] ↔ excess a = 0 := by
  constructor
  · intro h
    have hcount : ([a].filter (· ≠ [])).length ≤ 1 := List.length_filter_le _ [a]
    have hrounds := h [a] b [] rfl hb (by omega)
    rw [List.length_singleton, List.map_singleton, List.sum_singleton] at hrounds
    omega
  · rintro h (_ | ⟨first, _ | ⟨second, before⟩⟩) strings behind heq - -
    · exact Nat.succ_pos 1
    · obtain ⟨rfl, -⟩ := List.cons.inj heq
      rw [List.length_singleton, List.map_singleton, List.sum_singleton, h]
      exact Nat.lt_succ_self 1
    · exact absurd (congrArg List.length heq) (by simp)

/-- Seventeen strings are a name and sixteen values. -/
theorem extractsTags_iff_seventeen :
    extractNostrEventTags ((Json.array [] (twoArrays 17)).lexemes []) = some (tagEntries (twoTexts 17)) := by
  rw [Json.lexemes, ← List.append_nil ((twoArrays 17).lexemes _)]
  exact (extractsTags_iff rfl rfl (tagTokens_twoArrays 17) []).mpr
    ((roundsSuffice_two (List.cons_ne_nil _ _)).mpr rfl)

/-- The eighteenth string of the first tag is taken for the second tag, which is lost. -/
theorem extractsTags_eighteen :
    extractNostrEventTags ((Json.array [] (twoArrays 18)).lexemes []) ≠ some (tagEntries (twoTexts 18)) := by
  rw [Json.lexemes, ← List.append_nil ((twoArrays 18).lexemes _),
    extractNostrEventTags_tokens rfl rfl (tagTokens_twoArrays 18)]
  decide

end OnionRelay
