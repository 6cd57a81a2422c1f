import OnionRelay.Db.Tags

/-!
# Walks over serialized tags

`process_tags` of the index manager and `tags_match_filter_tag` of the query engine
walk the serialized tags without building them.  Both look at the first value of a tag
only, and both are `walkTags` with something to do there.

On what `nostr_db_serialize_tags` wrote a walk comes by the name and the first value of
every tag that has one, in order (`walkTags_serializeTags`), so both see the pairs of
`indexablePairs`.
-/

namespace OnionRelay.Db

open OnionRelay.Lib

/-! ## The two functions -/

/-- What a function does on its walk: at the first value of a tag it returns or goes on,
and it returns when a value ends behind the data. -/
structure TagWalk (ρ σ : Type) where
  visit : List UInt8 → List UInt8 → σ → Except ρ σ
  ended : σ → ρ

section

variable {ρ σ : Type} (walk : TagWalk ρ σ)

/-- The value loop over `n` values; `first` is `j == 0`.  It leaves the bytes behind. -/
def walkValues (name : List UInt8) : Nat → Bool → List UInt8 → σ → Except ρ (List UInt8 × σ)
  | 0, _, rest, s => .ok (rest, s)
  | n + 1, first, rest, s =>
    if rest.length < 2 then .ok (rest, s)
    else
      let len := ofLE (rest.take 2)
      if (rest.drop 2).length < len then .error (walk.ended s)
      else do
        let s ← if first then walk.visit name ((rest.drop 2).take len) s else .ok s
        walkValues name n false ((rest.drop 2).drop len) s

/-- The tag loop. -/
def walkTagList : Nat → List UInt8 → σ → Except ρ σ
  | 0, _, s => .ok s
  | n + 1, rest, s =>
    if rest.length < 2 then .ok s
    else
      let valueCount := (rest.getD 0 0).toNat
      let nameLen := (rest.getD 1 0).toNat
      if (rest.drop 2).length < nameLen then .ok s
      else do
        let (rest, s) ← walkValues walk ((rest.drop 2).take nameLen) valueCount true
          ((rest.drop 2).drop nameLen) s
        walkTagList n rest s

/-- The walk over the `tags_length` bytes at `tags_data`. -/
def walkTags (tagsData : List UInt8) (s : σ) : Except ρ σ :=
  if tagsData.length < 2 then .ok s
  else walkTagList walk (ofLE (tagsData.take 2)) (tagsData.drop 2) s

end

/-- `raw_value`: what `hex_to_32bytes` decodes, else the value itself, cut or padded. -/
def rawTagValue (value : List UInt8) : Bytes 32 :=
  (hexToRaw value value.length 32).getD ⟨(value ++ List.replicate 32 0).take 32, by simp⟩

/-- A `TagIndexOp` on an index in the state `σ`. -/
abbrev TagIndexOp (σ : Type) := UInt8 → Bytes 32 → σ → NostrDBError × σ

/-- `process_tags` -/
def processTags {σ : Type} (op : TagIndexOp σ) (tagsData : List UInt8) (s : σ) : NostrDBError × σ :=
  let walk : TagWalk (NostrDBError × σ) σ :=
    { visit := fun name value s =>
        match name with
        | [tagName] =>
          let (err, s) := op tagName (rawTagValue value) s
          if err = .ok then .ok s else .error (err, s)
        | _ => .ok s
      ended := fun s => (.ok, s) }
  match walkTags walk tagsData s with
  | .error result => result
  | .ok s => (.ok, s)

/-- `NostrDBFilterTag` -/
structure NostrDBFilterTag where
  name : UInt8
  values : List (Bytes 32)
deriving DecidableEq

/-- The comparison of a value with one value of the filter: in hexadecimal for the names
`e` and `p`, else as a string padded with zeros. -/
def tagValueMatches (name : UInt8) (value : List UInt8) (filterValue : Bytes 32) : Bool :=
  if name = 101 ∨ name = 112 then hexToRaw value value.length 32 = some filterValue
  else value = cstr filterValue.1

/-- `tags_match_filter_tag` -/
def tagsMatchFilterTag (tagsData : List UInt8) (ftag : NostrDBFilterTag) : Bool :=
  let walk : TagWalk Bool Unit :=
    { visit := fun name value s =>
        if name = [ftag.name] ∧ ftag.values.any (tagValueMatches ftag.name value) then .error true
        else .ok s
      ended := fun _ => false }
  match walkTags walk tagsData () with
  | .error result => result
  | .ok _ => false

/-! ## The walk over written tags -/

/-- The name and the first value of a tag that has one. -/
def firstValue (t : NostrTagEntity) : Option (CStr × CStr) :=
  t.values.head?.map fun value => (t.key, value)

section

variable {ρ σ : Type} (walk : TagWalk ρ σ)

/-- The values behind the first are passed by. -/
theorem walkValues_valueBytes (name rest : List UInt8) (s : σ) : ∀ vs : List CStr,
    (∀ v ∈ vs, v.length < 512 ∧ 0 ∉ v) →
      walkValues walk name vs.length false (valueBytes vs ++ rest) s = .ok (rest, s) := by
  intro vs
  induction vs with
  | nil => intro _; rfl
  | cons v vs ih =>
    intro hvs
    have hv := (hvs v List.mem_cons_self).1
    have hbytes : valueBytes (v :: vs) ++ rest = toLE 2 v.length ++ (v ++ (valueBytes vs ++ rest)) := by
      simp [valueBytes]
    rw [List.length_cons, walkValues, hbytes,
      if_neg (by rw [List.length_append, length_toLE]; omega)]
    simp only [List.take_left' (length_toLE 2 v.length), List.drop_left' (length_toLE 2 v.length),
      ofLE_toLE_of_lt (show v.length < 256 ^ 2 by omega), List.drop_left]
    rw [if_neg (by simp)]
    exact ih fun w hw => hvs w (List.mem_cons_of_mem v hw)

theorem walkValues_of_cons (name rest : List UInt8) (s : σ) {v : CStr} {vs : List CStr}
    (hvs : ∀ w ∈ v :: vs, w.length < 512 ∧ 0 ∉ w) :
    walkValues walk name (v :: vs).length true (valueBytes (v :: vs) ++ rest) s =
      (walk.visit name v s).map fun s => (rest, s) := by
  have hv := (hvs v List.mem_cons_self).1
  have hbytes : valueBytes (v :: vs) ++ rest = toLE 2 v.length ++ (v ++ (valueBytes vs ++ rest)) := by
    simp [valueBytes]
  rw [List.length_cons, walkValues, hbytes,
    if_neg (by rw [List.length_append, length_toLE]; omega)]
  simp only [List.take_left' (length_toLE 2 v.length), List.drop_left' (length_toLE 2 v.length),
    ofLE_toLE_of_lt (show v.length < 256 ^ 2 by omega), List.drop_left, List.take_left, if_true,
    walkValues_valueBytes walk name rest _ vs fun w hw => hvs w (List.mem_cons_of_mem v hw)]
  rw [if_neg (by simp)]
  cases walk.visit name v s <;> rfl

theorem walkTagList_tagListBytes : ∀ (tags : List NostrTagEntity) (s : σ),
    (∀ t ∈ tags, t.Bounded) →
      walkTagList walk tags.length (tagListBytes tags) s =
        (tags.filterMap firstValue).foldlM (fun s p => walk.visit p.1 p.2 s) s := by
  intro tags
  induction tags with
  | nil => intro s _; rfl
  | cons t tags ih =>
    intro s hts
    have ht := hts t List.mem_cons_self
    have hname := ht.key.1
    have hcount := ht.count
    have hbytes : tagListBytes (t :: tags) = UInt8.ofNat t.values.length ::
        UInt8.ofNat t.key.length :: (t.key ++ (valueBytes t.values ++ tagListBytes tags)) := by
      simp [tagListBytes, tagBytes]
    have hc : (UInt8.ofNat t.values.length).toNat = t.values.length := by
      rw [UInt8.toNat_ofNat']; omega
    have hn : (UInt8.ofNat t.key.length).toNat = t.key.length := by
      rw [UInt8.toNat_ofNat']; omega
    rw [List.length_cons, walkTagList, hbytes, if_neg (by simp)]
    simp only [List.getD_cons_zero, List.getD_cons_succ, hc, hn, List.drop_succ_cons,
      List.drop_zero, List.drop_left, List.take_left]
    rw [if_neg (by simp)]
    have hrest := fun s => ih s fun u hu => hts u (List.mem_cons_of_mem t hu)
    have hvalues := ht.values
    obtain ⟨key, values⟩ := t
    cases values with
    | nil => exact hrest s
    | cons v vs =>
      rw [walkValues_of_cons walk key (tagListBytes tags) s hvalues,
        List.filterMap_cons_some (show firstValue ⟨key, v :: vs⟩ = some (key, v) from rfl),
        List.foldlM_cons]
      cases walk.visit key v s with
      | error r => rfl
      | ok s => exact hrest s

/-- **A walk over written tags** visits the first value of every tag that has one. -/
theorem walkTags_serializeTags {tags : List NostrTagEntity} {capacity : Nat}
    (hts : ∀ t ∈ tags, t.Bounded) {bytes : List UInt8}
    (h : serializeTags tags capacity = some bytes) (s : σ) :
    walkTags walk bytes s =
      (tags.filterMap firstValue).foldlM (fun s p => walk.visit p.1 p.2 s) s := by
  rw [serializeTags] at h
  split at h
  · exact absurd h (by simp)
  split at h
  · exact absurd h (by simp)
  rename_i hcap hcount
  rw [serializeTagList_eq _ _ _ hts (by rw [length_toLE]; omega)] at h
  split at h
  · obtain rfl := Option.some.inj h
    rw [walkTags, if_neg (by rw [List.length_append, length_toLE]; omega),
      List.take_left' (length_toLE _ _), List.drop_left' (length_toLE _ _),
      ofLE_toLE_of_lt (by omega), walkTagList_tagListBytes walk tags s hts]
  · exact absurd h (by simp)

end

/-! ## What the two functions see -/

/-- The one-character names with the first values of their tags, in order. -/
def indexablePairs (tags : List NostrTagEntity) : List (UInt8 × CStr) :=
  tags.filterMap fun t =>
    match t.key, t.values with
    | [tagName], value :: _ => some (tagName, value)
    | _, _ => none

/-- The operation on one pair after the other, up to the first error. -/
def applyPairs {σ : Type} (op : TagIndexOp σ) : List (UInt8 × CStr) → σ → NostrDBError × σ
  | [], s => (.ok, s)
  | (tagName, value) :: pairs, s =>
    let (err, s) := op tagName (rawTagValue value) s
    if err = .ok then applyPairs op pairs s else (err, s)

theorem indexablePairs_eq (tags : List NostrTagEntity) : indexablePairs tags =
    (tags.filterMap firstValue).filterMap fun p =>
      match p.1 with
      | [tagName] => some (tagName, p.2)
      | _ => none := by
  rw [List.filterMap_filterMap, indexablePairs]
  refine congrArg (List.filterMap · tags) (funext fun t => ?_)
  obtain ⟨key, values⟩ := t
  rcases values with - | ⟨value, values⟩ <;> rcases key with - | ⟨tagName, - | ⟨c, key⟩⟩ <;> rfl

theorem processTags_serializeTags {σ : Type} (op : TagIndexOp σ) {tags : List NostrTagEntity}
    {capacity : Nat} (hts : ∀ t ∈ tags, t.Bounded) {bytes : List UInt8}
    (h : serializeTags tags capacity = some bytes) (s : σ) :
    processTags op bytes s = applyPairs op (indexablePairs tags) s := by
  rw [processTags, indexablePairs_eq]
  simp only [walkTags_serializeTags _ hts h]
  generalize tags.filterMap firstValue = firsts
  induction firsts generalizing s with
  | nil => rfl
  | cons p firsts ih =>
    obtain ⟨name, value⟩ := p
    rcases name with - | ⟨tagName, - | ⟨c, name⟩⟩
    · exact ih s
    · rw [List.foldlM_cons, List.filterMap_cons]
      dsimp only
      rw [applyPairs]
      dsimp only
      by_cases hok : (op tagName (rawTagValue value) s).1 = .ok
      · rw [if_pos hok, if_pos hok]
        exact ih _
      · rw [if_neg hok, if_neg hok]
        rfl
    · exact ih s

theorem tagsMatchFilterTag_serializeTags (ftag : NostrDBFilterTag) {tags : List NostrTagEntity}
    {capacity : Nat} (hts : ∀ t ∈ tags, t.Bounded) {bytes : List UInt8}
    (h : serializeTags tags capacity = some bytes) :
    tagsMatchFilterTag bytes ftag = (indexablePairs tags).any fun p =>
      p.1 = ftag.name && ftag.values.any (tagValueMatches ftag.name p.2) := by
  rw [tagsMatchFilterTag, indexablePairs_eq]
  simp only [walkTags_serializeTags _ hts h]
  generalize tags.filterMap firstValue = firsts
  induction firsts with
  | nil => rfl
  | cons p firsts ih =>
    obtain ⟨name, value⟩ := p
    rw [List.foldlM_cons]
    rcases name with - | ⟨tagName, - | ⟨c, name⟩⟩
    · rw [if_neg (by simp)]
      exact ih
    · rw [List.filterMap_cons]
      dsimp only
      rw [List.any_cons]
      by_cases hmatch : tagName = ftag.name ∧ ftag.values.any (tagValueMatches ftag.name value)
      · rw [if_pos ⟨congrArg (fun c => [c]) hmatch.1, hmatch.2⟩, hmatch.2, decide_eq_true hmatch.1]
        rfl
      · rw [if_neg fun hif => hmatch ⟨(List.cons.inj hif.1).1, hif.2⟩]
        have hnot : (decide (tagName = ftag.name) &&
            ftag.values.any (tagValueMatches ftag.name value)) = false := by
          rw [Bool.and_eq_false_iff, decide_eq_false_iff_not, ← Bool.not_eq_true,
            ← not_and_or]
          exact hmatch
        rw [hnot, Bool.false_or]
        exact ih
    · rw [if_neg (by simp)]
      exact ih

/-- **One format, three readers.**  What was serialized reads back as it was, and both
walks over it see the one-character names with the first values behind them. -/
theorem serializeTags_agree {tags : List NostrTagEntity} {capacity : Nat}
    (hcount : tags.length ≤ 2048) (hts : ∀ t ∈ tags, t.Bounded) {bytes : List UInt8}
    (h : serializeTags tags capacity = some bytes) :
    deserializeTags bytes 2048 = some tags ∧
      (∀ (σ : Type) (op : TagIndexOp σ) (s : σ),
        processTags op bytes s = applyPairs op (indexablePairs tags) s) ∧
      ∀ ftag, tagsMatchFilterTag bytes ftag = (indexablePairs tags).any fun p =>
        p.1 = ftag.name && ftag.values.any (tagValueMatches ftag.name p.2) :=
  ⟨deserializeTags_serializeTags hcount hts h,
    fun _ op s => processTags_serializeTags op hts h s,
    fun ftag => tagsMatchFilterTag_serializeTags ftag hts h⟩

/-- Two tags: `["e", "ab", "c"]` and `["", ""]`. -/
def twoTags : List NostrTagEntity := [⟨[101], [[97, 98], [99]]⟩, ⟨[], [[]]⟩]

/-- Collects the names, and two bytes of each value. -/
def collectOp : TagIndexOp (List (UInt8 × List UInt8)) := fun tagName value s =>
  (.ok, s ++ [(tagName, value.1.take 2)])

theorem serializeTags_agree_twoTags :
    deserializeTags [2, 0, 2, 1, 101, 2, 0, 97, 98, 1, 0, 99, 1, 0, 0, 0] 2048 = some twoTags ∧
      (processTags collectOp [2, 0, 2, 1, 101, 2, 0, 97, 98, 1, 0, 99, 1, 0, 0, 0] []).2 =
        [(101, [97, 98])] := by
  have hwritten : serializeTags twoTags 16 =
      some [2, 0, 2, 1, 101, 2, 0, 97, 98, 1, 0, 99, 1, 0, 0, 0] := by decide
  obtain ⟨hback, hindexed, -⟩ := serializeTags_agree (by decide) (by decide) hwritten
  refine ⟨hback, ?_⟩
  rw [hindexed]
  decide

end OnionRelay.Db
