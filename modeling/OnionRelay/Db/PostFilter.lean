import OnionRelay.Db.QueryEngine
import OnionRelay.Db.Record.UpdateFailure
import OnionRelay.Db.Timeline
import OnionRelay.Lib.Reader

/-!
# What the post-filter reads

`query_post_filter` copies at most 4096 bytes of a record into its buffer, and looks for the
tags behind the content.  Here the checks of a round are a program that reads the buffer
byte after byte; `value_postFilterReader` says that it is the round of the query engine.
-/

namespace OnionRelay.Db.Engine

open OnionRelay.Lib Reader

/-! ## The checks, byte after byte -/

/-- One more byte in front. -/
def consByte {n : Nat} (b : UInt8) (bin : Bytes n) : Bytes (n + 1) := ⟨b :: bin.1, congrArg Nat.succ bin.2⟩

/-- The loop that decodes `left` bytes of hexadecimal; `none` where it breaks. -/
def readHexPairs : (left : Nat) → Nat → Reader (Option (Bytes left))
  | 0, _ => return some ⟨[], List.length_nil⟩
  | left + 1, ptr => do
    let c ← byteAt ptr
    let d ← byteAt (ptr + 1)
    match hexCharVal c, hexCharVal d with
    | some h, some l =>
      let rest ← readHexPairs left (ptr + 2)
      return rest.map (consByte (UInt8.ofNat (h <<< 4 ||| l)))
    | _, _ => return none

/-- `internal_memcmp(ptr, bytes, n) == 0` -/
def sameBytes : Nat → List UInt8 → Reader Bool
  | _, [] => return true
  | ptr, b :: bs => do
    let c ← byteAt ptr
    if c = b then sameBytes (ptr + 1) bs else return false

/-- The comparison with one value of the filter. -/
def valueMatchesAt (name : UInt8) (ptr len : Nat) (filterValue : Bytes 32) : Reader Bool :=
  if name = 101 ∨ name = 112 then
    if len = 64 then do
      let bin ← readHexPairs 32 ptr
      return decide (bin = some filterValue)
    else return false
  else if len = (cstr filterValue.1).length then sameBytes ptr (cstr filterValue.1)
  else return false

/-- The loop over the values of the filter. -/
def anyValueMatchesAt (name : UInt8) (ptr len : Nat) : List (Bytes 32) → Reader Bool
  | [] => return false
  | v :: vs => do
    if ← valueMatchesAt name ptr len v then return true else anyValueMatchesAt name ptr len vs

/-- The comparison of a value, if it is the first of a tag with the name. -/
def firstValueMatchesAt (ftag : NostrDBFilterTag) (nameMatches first : Bool) (ptr len : Nat) : Reader Bool :=
  if nameMatches && first then anyValueMatchesAt ftag.name ptr len ftag.values else return false

/-- The value loop up to `stop`: the value that the function returns, or where it goes on. -/
def walkValuesAt (ftag : NostrDBFilterTag) (nameMatches : Bool) (stop : Nat) :
    Nat → Bool → Nat → Reader (Except Bool Nat)
  | 0, _, ptr => return .ok ptr
  | n + 1, first, ptr =>
    if ptr + 2 ≤ stop then do
      let lenBytes ← bytesAt ptr 2
      let len := ofLE lenBytes
      if stop < ptr + 2 + len then return .error false
      else
        let found ← firstValueMatchesAt ftag nameMatches first (ptr + 2) len
        if found then return .error true else walkValuesAt ftag nameMatches stop n false (ptr + 2 + len)
    else return .ok ptr

/-- `name_len == 1 && ptr[0] == (uint8_t)ftag->name` -/
def nameMatchesAt (name : UInt8) (ptr nameLen : Nat) : Reader Bool :=
  if nameLen = 1 then do
    let c ← byteAt ptr
    return decide (c = name)
  else return false

/-- The tag loop. -/
def walkTagsAt (ftag : NostrDBFilterTag) (stop : Nat) : Nat → Nat → Reader Bool
  | 0, _ => return false
  | n + 1, ptr =>
    if ptr + 2 ≤ stop then do
      let valueCount ← byteAt ptr
      let nameLen ← byteAt (ptr + 1)
      if stop < ptr + 2 + nameLen.toNat then return false
      else
        let nameMatches ← nameMatchesAt ftag.name (ptr + 2) nameLen.toNat
        match ← walkValuesAt ftag nameMatches stop valueCount.toNat true (ptr + 2 + nameLen.toNat) with
        | .error found => return found
        | .ok ptr => walkTagsAt ftag stop n ptr
    else return false

/-- `tags_match_filter_tag` on the `length` bytes at `start`. -/
def tagsMatchAt (start length : Nat) (ftag : NostrDBFilterTag) : Reader Bool :=
  if length < 2 then return false
  else do
    let countBytes ← bytesAt start 2
    walkTagsAt ftag (start + length) (ofLE countBytes) (start + 2)

/-- The loop over the tags of the filter. -/
def allTagsMatchAt (start length : Nat) : List NostrDBFilterTag → Reader Bool
  | [] => return true
  | ftag :: ftags => do
    if ← tagsMatchAt start length ftag then allTagsMatchAt start length ftags else return false

/-- The checks on the header. -/
def headerAccepts (filter : NostrDBFilter) (header : EventHeader) : Bool :=
  decide (header.flags &&& 1 = 0) &&
  !outside filter.since filter.until_ (asInt64 header.createdAt.toNat) &&
  (filter.kinds.isEmpty || filter.kinds.any (· == header.kind.toNat)) &&
  (filter.authors.isEmpty || filter.authors.any (· == header.pubkey)) &&
  (filter.ids.isEmpty || filter.ids.any (· == header.id))

/-- The checks of a round on its buffer; the header is read as a whole. -/
def postFilterReader (filter : NostrDBFilter) : Reader Bool := do
  let bytes ← bytesAt 0 152
  let header := EventHeader.read (bytes.getD · 0)
  if headerAccepts filter header then
    if filter.tags.length ≤ 1 then return true
    else allTagsMatchAt (152 + header.contentLength.toNat) header.tagsLength.toNat filter.tags
  else return false

/-! ## They are the checks of the query engine -/

section Value

variable {m : Mem}

theorem value_readHexPairs : ∀ left ptr : Nat,
    value (readHexPairs left ptr) m = hexStrToBin left (readAt m ptr (left * 2)) := by
  intro left
  induction left with
  | zero => exact fun _ => rfl
  | succ left ih =>
    intro ptr
    have hbytes : readAt m ptr ((left + 1) * 2) = m ptr :: m (ptr + 1) :: readAt m (ptr + 2) (left * 2) := by
      rw [Nat.add_mul, Nat.one_mul, Nat.add_comm, readAt_add, show (2 : Nat) = 1 + 1 from rfl, readAt_add,
        readAt_one, readAt_one]
      rfl
    rw [hbytes, readHexPairs, hexStrToBin]
    simp only [value_bind, value_byteAt, List.getD_cons_zero, List.getD_cons_succ, List.drop_succ_cons,
      List.drop_zero]
    cases hexCharVal (m ptr) with
    | none => rfl
    | some h =>
      cases hexCharVal (m (ptr + 1)) with
      | none => rfl
      | some l =>
        simp only [value_bind, ih, value_pure, Option.bind_eq_bind, Option.bind_some]
        cases hexStrToBin left (readAt m (ptr + 2) (left * 2)) <;> rfl

theorem value_sameBytes : ∀ (bs : List UInt8) (ptr : Nat),
    value (sameBytes ptr bs) m = decide (readAt m ptr bs.length = bs) := by
  intro bs
  induction bs with
  | nil => exact fun _ => rfl
  | cons b bs ih =>
    intro ptr
    have hbytes : readAt m ptr (b :: bs).length = m ptr :: readAt m (ptr + 1) bs.length := by
      rw [List.length_cons, Nat.add_comm, readAt_add, readAt_one]
      rfl
    rw [hbytes, sameBytes]
    simp only [value_bind, value_byteAt, value_ite, ih, value_pure, List.cons.injEq, Bool.decide_and]
    split
    · next heq => rw [decide_eq_true heq, Bool.true_and]
    · next hne => rw [decide_eq_false hne, Bool.false_and]

theorem value_valueMatchesAt (name : UInt8) (ptr len : Nat) (v : Bytes 32) :
    value (valueMatchesAt name ptr len v) m = tagValueMatches name (readAt m ptr len) v := by
  rw [valueMatchesAt, tagValueMatches]
  split
  · rw [hexToRaw, length_readAt]
    by_cases hlen : len = 64
    · subst hlen
      rw [if_pos rfl, if_neg (by decide)]
      simp only [value_bind, value_readHexPairs, value_pure]
    · rw [if_neg hlen, if_pos (show len ≠ 32 * 2 from hlen)]
      rfl
  · by_cases hlen : len = (cstr v.1).length
    · rw [if_pos hlen, value_sameBytes, hlen]
    · rw [if_neg hlen, value_pure]
      refine (decide_eq_false fun heq => hlen ?_).symm
      rw [← heq, length_readAt]

theorem value_anyValueMatchesAt (name : UInt8) (ptr len : Nat) (vs : List (Bytes 32)) :
    value (anyValueMatchesAt name ptr len vs) m = vs.any (tagValueMatches name (readAt m ptr len)) := by
  induction vs with
  | nil => rfl
  | cons v vs ih =>
    rw [anyValueMatchesAt, List.any_cons]
    simp only [value_bind, value_valueMatchesAt, value_ite, value_pure, ih]
    cases tagValueMatches name (readAt m ptr len) v <;> rfl

theorem value_firstValueMatchesAt (ftag : NostrDBFilterTag) (nameMatches first : Bool) (ptr len : Nat) :
    value (firstValueMatchesAt ftag nameMatches first ptr len) m =
      (nameMatches && first && ftag.values.any (tagValueMatches ftag.name (readAt m ptr len))) := by
  rw [firstValueMatchesAt, value_ite, value_anyValueMatchesAt, value_pure]
  cases (nameMatches && first) <;> rfl

theorem value_nameMatchesAt (name : UInt8) (ptr nameLen : Nat) :
    value (nameMatchesAt name ptr nameLen) m = decide (readAt m ptr nameLen = [name]) := by
  rw [nameMatchesAt]
  split
  · next h =>
    subst h
    rw [value_bind, value_byteAt, value_pure, readAt_one, decide_eq_decide]
    simp
  · next h =>
    refine (decide_eq_false fun heq => h ?_).symm
    have hlength := congrArg List.length heq
    rwa [length_readAt] at hlength

/-- The walk of `tags_match_filter_tag`. -/
def matchWalk (ftag : NostrDBFilterTag) : TagWalk Bool Unit where
  visit name value s :=
    if name = [ftag.name] ∧ ftag.values.any (tagValueMatches ftag.name value) then .error true else .ok s
  ended _ := false

/-- A part of what lies before `stop`. -/
theorem take_readAt {ptr stop n : Nat} (h : ptr + n ≤ stop) :
    (readAt m ptr (stop - ptr)).take n = readAt m ptr n := readAt_take m ptr (by omega)

theorem drop_readAt {ptr stop n : Nat} (h : ptr + n ≤ stop) :
    (readAt m ptr (stop - ptr)).drop n = readAt m (ptr + n) (stop - (ptr + n)) := by
  rw [readAt_drop m ptr (show n ≤ stop - ptr by omega), Nat.sub_add_eq]

/-- **The value loop** goes on with the bytes behind what it came by. -/
theorem value_walkValuesAt (ftag : NostrDBFilterTag) (name : List UInt8) {stop : Nat} :
    ∀ (n : Nat) (first : Bool) (ptr : Nat), ptr ≤ stop →
      walkValues (matchWalk ftag) name n first (readAt m ptr (stop - ptr)) () =
          (value (walkValuesAt ftag (decide (name = [ftag.name])) stop n first ptr) m).map
            (fun ptr => (readAt m ptr (stop - ptr), ())) ∧
        ∀ ptr', value (walkValuesAt ftag (decide (name = [ftag.name])) stop n first ptr) m = .ok ptr' →
          ptr' ≤ stop := by
  intro n
  induction n with
  | zero =>
    intro first ptr hptr
    refine ⟨rfl, fun ptr' h => ?_⟩
    obtain rfl := Except.ok.inj h
    exact hptr
  | succ n ih =>
    intro first ptr hptr
    rw [walkValues, walkValuesAt, length_readAt]
    by_cases hroom : ptr + 2 ≤ stop
    swap
    · rw [if_pos (by omega), if_neg hroom]
      refine ⟨rfl, fun ptr' h => ?_⟩
      obtain rfl := Except.ok.inj h
      exact hptr
    rw [if_neg (by omega), if_pos hroom, take_readAt hroom, drop_readAt hroom]
    simp only [value_bind, value_bytesAt, length_readAt]
    generalize ofLE (readAt m ptr 2) = len
    by_cases hlong : stop < ptr + 2 + len
    · rw [if_pos (by omega), if_pos hlong]
      refine ⟨rfl, fun ptr' h => ?_⟩
      cases h
    rw [if_neg (by omega), if_neg hlong, take_readAt (by omega), drop_readAt (by omega)]
    simp only [value_bind, value_firstValueMatchesAt, value_ite, value_pure]
    have hrest := ih false (ptr + 2 + len) (by omega)
    cases first with
    | false =>
      simp only [Bool.and_false, Bool.false_and, Bool.false_eq_true, if_false]
      exact hrest
    | true =>
      by_cases hmatch : name = [ftag.name] ∧ ftag.values.any (tagValueMatches ftag.name (readAt m (ptr + 2) len))
      · have hfound : (decide (name = [ftag.name]) && true &&
            ftag.values.any (tagValueMatches ftag.name (readAt m (ptr + 2) len))) = true := by
          rw [decide_eq_true hmatch.1, hmatch.2]
          rfl
        rw [if_pos rfl, if_pos hfound, show (matchWalk ftag).visit name (readAt m (ptr + 2) len) () =
          .error true from if_pos hmatch]
        refine ⟨rfl, fun ptr' h => ?_⟩
        cases h
      · have hfound : (decide (name = [ftag.name]) && true &&
            ftag.values.any (tagValueMatches ftag.name (readAt m (ptr + 2) len))) ≠ true := by
          rwa [Bool.and_true, Ne, Bool.and_eq_true, decide_eq_true_iff]
        rw [if_pos rfl, if_neg hfound, show (matchWalk ftag).visit name (readAt m (ptr + 2) len) () =
          .ok () from if_neg hmatch]
        exact hrest

/-- **The tag loop.** -/
theorem value_walkTagsAt (ftag : NostrDBFilterTag) {stop : Nat} : ∀ (n ptr : Nat), ptr ≤ stop →
    value (walkTagsAt ftag stop n ptr) m =
      match walkTagList (matchWalk ftag) n (readAt m ptr (stop - ptr)) () with
      | .error found => found
      | .ok _ => false := by
  intro n
  induction n with
  | zero => exact fun _ _ => rfl
  | succ n ih =>
    intro ptr hptr
    rw [walkTagList, walkTagsAt, length_readAt]
    by_cases hroom : ptr + 2 ≤ stop
    swap
    · rw [if_neg hroom, if_pos (by omega)]
      rfl
    have hcount : (readAt m ptr (stop - ptr)).getD 0 0 = m ptr := getD_readAt (by omega)
    have hname : (readAt m ptr (stop - ptr)).getD 1 0 = m (ptr + 1) := getD_readAt (by omega)
    rw [if_pos hroom, if_neg (by omega), drop_readAt hroom, hcount, hname]
    simp only [value_bind, value_byteAt, length_readAt]
    generalize (m (ptr + 1)).toNat = nameLen
    by_cases hlong : stop < ptr + 2 + nameLen
    · rw [if_pos hlong, if_pos (by omega)]
      rfl
    rw [if_neg hlong, if_neg (by omega), take_readAt (by omega), drop_readAt (by omega)]
    obtain ⟨hvalues, hstop⟩ := @value_walkValuesAt m ftag (readAt m (ptr + 2) nameLen) stop (m ptr).toNat true
      (ptr + 2 + nameLen) (by omega)
    rw [hvalues]
    simp only [value_bind, value_nameMatchesAt]
    cases hcase : value (walkValuesAt ftag (decide (readAt m (ptr + 2) nameLen = [ftag.name])) stop
        (m ptr).toNat true (ptr + 2 + nameLen)) m with
    | error found => rfl
    | ok ptr' => exact ih ptr' (hstop ptr' hcase)

theorem value_tagsMatchAt (start length : Nat) (ftag : NostrDBFilterTag) :
    value (tagsMatchAt start length ftag) m = tagsMatchFilterTag (readAt m start length) ftag := by
  rw [tagsMatchAt, show tagsMatchFilterTag (readAt m start length) ftag =
    match walkTags (matchWalk ftag) (readAt m start length) () with
    | .error found => found
    | .ok _ => false from rfl, walkTags, length_readAt]
  split
  · rfl
  · rw [value_bind, value_bytesAt, value_walkTagsAt ftag _ _ (by omega), readAt_take m start (by omega),
      readAt_drop m start (by omega), show start + length - (start + 2) = length - 2 by omega]

theorem value_allTagsMatchAt (start length : Nat) (ftags : List NostrDBFilterTag) :
    value (allTagsMatchAt start length ftags) m = ftags.all (tagsMatchFilterTag (readAt m start length)) := by
  induction ftags with
  | nil => rfl
  | cons ftag ftags ih =>
    rw [allTagsMatchAt, List.all_cons]
    simp only [value_bind, value_tagsMatchAt, value_ite, value_pure, ih]
    cases tagsMatchFilterTag (readAt m start length) ftag <;> rfl

theorem read_getD_readAt : EventHeader.read ((readAt m 0 152).getD · 0) = EventHeader.read m := by
  have hread : ∀ off n : Nat, off + n ≤ 152 →
      readAt ((readAt m 0 152).getD · 0) off n = readAt m off n := by
    intro off n hle
    refine readAt_congr fun i hi => ?_
    rw [getD_readAt (by omega), Nat.zero_add]
  simp only [EventHeader.read, hread _ _ (show 0 + 32 ≤ 152 by decide), hread _ _ (show 32 + 32 ≤ 152 by decide),
    hread _ _ (show 64 + 64 ≤ 152 by decide), hread _ _ (show 128 + 8 ≤ 152 by decide),
    hread _ _ (show 136 + 4 ≤ 152 by decide), hread _ _ (show 140 + 4 ≤ 152 by decide),
    hread _ _ (show 144 + 2 ≤ 152 by decide), hread _ _ (show 146 + 2 ≤ 152 by decide)]

/-- **The reader is the round** of the query engine. -/
theorem value_postFilterReader (filter : NostrDBFilter) :
    value (postFilterReader filter) m = postFilterAccepts filter m := by
  have haccepts : postFilterAccepts filter m = (headerAccepts filter (EventHeader.read m) &&
      (decide (filter.tags.length ≤ 1) || filter.tags.all (tagsMatchFilterTag
        (readAt m (152 + (EventHeader.read m).contentLength.toNat) (EventHeader.read m).tagsLength.toNat)))) := rfl
  rw [haccepts, postFilterReader]
  simp only [value_bind, value_bytesAt, read_getD_readAt, value_ite, value_pure, value_allTagsMatchAt]
  cases headerAccepts filter (EventHeader.read m) with
  | false => rfl
  | true =>
    rw [if_pos rfl, Bool.true_and]
    by_cases hfew : filter.tags.length ≤ 1
    · rw [if_pos hfew, decide_eq_true hfew, Bool.true_or]
    · rw [if_neg hfew, decide_eq_false hfew, Bool.false_or]

end Value

/-! ## They stay inside the tags -/

section Footprint

variable {m : Mem} {P : Nat → Prop}

theorem within_readHexPairs : ∀ left ptr : Nat, (∀ a, ptr ≤ a → a < ptr + left * 2 → P a) →
    (readHexPairs left ptr).Within m P := by
  intro left
  induction left with
  | zero => exact fun _ _ => within_pure _
  | succ left ih =>
    intro ptr hP
    rw [readHexPairs]
    refine within_bind (within_byteAt (hP ptr (Nat.le_refl _) (by omega))) ?_
    refine within_bind (within_byteAt (hP (ptr + 1) (by omega) (by omega))) ?_
    split
    · exact within_bind (ih (ptr + 2) fun a hlow hhigh => hP a (by omega) (by omega)) (within_pure _)
    · exact within_pure _

theorem within_sameBytes : ∀ (bs : List UInt8) (ptr : Nat), (∀ a, ptr ≤ a → a < ptr + bs.length → P a) →
    (sameBytes ptr bs).Within m P := by
  intro bs
  induction bs with
  | nil => exact fun _ _ => within_pure _
  | cons b bs ih =>
    intro ptr hP
    rw [List.length_cons] at hP
    rw [sameBytes]
    refine within_bind (within_byteAt (hP ptr (Nat.le_refl _) (by omega))) ?_
    exact within_ite (fun _ => ih (ptr + 1) fun a hlow hhigh => hP a (by omega) (by omega)) fun _ => within_pure _

theorem within_valueMatchesAt (name : UInt8) {ptr len : Nat} (v : Bytes 32)
    (hP : ∀ a, ptr ≤ a → a < ptr + len → P a) : (valueMatchesAt name ptr len v).Within m P := by
  rw [valueMatchesAt]
  refine within_ite (fun _ => within_ite (fun hlen => ?_) fun _ => within_pure _)
    fun _ => within_ite (fun hlen => ?_) fun _ => within_pure _
  · exact within_bind (within_readHexPairs 32 ptr fun a hlow hhigh => hP a hlow (by omega)) (within_pure _)
  · exact within_sameBytes _ ptr fun a hlow hhigh => hP a hlow (by omega)

theorem within_anyValueMatchesAt (name : UInt8) {ptr len : Nat} (vs : List (Bytes 32))
    (hP : ∀ a, ptr ≤ a → a < ptr + len → P a) : (anyValueMatchesAt name ptr len vs).Within m P := by
  induction vs with
  | nil => exact within_pure _
  | cons v vs ih =>
    rw [anyValueMatchesAt]
    exact within_bind (within_valueMatchesAt name v hP) (within_ite (fun _ => within_pure _) fun _ => ih)

theorem within_nameMatchesAt {name : UInt8} {ptr nameLen : Nat} (hP : ∀ a, ptr ≤ a → a < ptr + nameLen → P a) :
    (nameMatchesAt name ptr nameLen).Within m P := by
  rw [nameMatchesAt]
  refine within_ite (fun hone => ?_) fun _ => within_pure _
  exact within_bind (within_byteAt (hP ptr (Nat.le_refl _) (by omega))) (within_pure _)

section Walk

variable {start stop : Nat} (hP : ∀ a, start ≤ a → a < stop → P a)

include hP

theorem within_walkValuesAt (ftag : NostrDBFilterTag) (nameMatches : Bool) :
    ∀ (n : Nat) (first : Bool) (ptr : Nat), start ≤ ptr →
      (walkValuesAt ftag nameMatches stop n first ptr).Within m P ∧
        ∀ ptr', value (walkValuesAt ftag nameMatches stop n first ptr) m = .ok ptr' → start ≤ ptr' := by
  intro n
  induction n with
  | zero =>
    intro first ptr hptr
    refine ⟨within_pure _, fun ptr' h => ?_⟩
    obtain rfl := Except.ok.inj h
    exact hptr
  | succ n ih =>
    intro first ptr hptr
    rw [walkValuesAt]
    by_cases hroom : ptr + 2 ≤ stop
    swap
    · rw [if_neg hroom]
      refine ⟨within_pure _, fun ptr' h => ?_⟩
      obtain rfl := Except.ok.inj h
      exact hptr
    rw [if_pos hroom]
    have hlen : (bytesAt ptr 2).Within m P := within_bytesAt fun a hlow hhigh => hP a (by omega) (by omega)
    simp only [value_bind]
    generalize hlenValue : ofLE (value (bytesAt ptr 2) m) = len
    by_cases hlong : stop < ptr + 2 + len
    · rw [if_pos hlong]
      refine ⟨within_bind hlen ?_, fun ptr' h => ?_⟩
      · rw [hlenValue, if_pos hlong]
        exact within_pure _
      · cases h
    rw [if_neg hlong, value_bind, value_ite]
    have hvalue : (firstValueMatchesAt ftag nameMatches first (ptr + 2) len).Within m P := by
      rw [firstValueMatchesAt]
      refine within_ite (fun _ => ?_) fun _ => within_pure _
      exact within_anyValueMatchesAt _ _ fun a hlow hhigh => hP a (by omega) (by omega)
    obtain ⟨hwithin, hbehind⟩ := ih false (ptr + 2 + len) (by omega)
    refine ⟨within_bind hlen ?_, fun ptr' h => ?_⟩
    · rw [hlenValue, if_neg hlong]
      exact within_bind hvalue (within_ite (fun _ => within_pure _) fun _ => hwithin)
    · split at h
      · cases h
      · exact hbehind ptr' h

theorem within_walkTagsAt (ftag : NostrDBFilterTag) : ∀ (n ptr : Nat), start ≤ ptr →
    (walkTagsAt ftag stop n ptr).Within m P := by
  intro n
  induction n with
  | zero => exact fun _ _ => within_pure _
  | succ n ih =>
    intro ptr hptr
    rw [walkTagsAt]
    refine within_ite (fun hroom => ?_) fun _ => within_pure _
    refine within_bind (within_byteAt (hP ptr hptr (by omega))) ?_
    refine within_bind (within_byteAt (hP (ptr + 1) (by omega) (by omega))) ?_
    refine within_ite (fun _ => within_pure _) fun hlong => ?_
    rw [value_byteAt] at hlong ⊢
    refine within_bind (within_nameMatchesAt fun a hlow hhigh => hP a (by omega) (by omega)) ?_
    obtain ⟨hwithin, hbehind⟩ := @within_walkValuesAt m P start stop hP ftag
      (value (nameMatchesAt ftag.name (ptr + 2) (m (ptr + 1)).toNat) m) (m ptr).toNat true
      (ptr + 2 + (m (ptr + 1)).toNat) (by omega)
    refine within_bind hwithin ?_
    split
    · exact within_pure _
    · next ptr' hvalue => exact ih ptr' (hbehind ptr' hvalue)

end Walk

theorem within_tagsMatchAt {start length : Nat} (hP : ∀ a, start ≤ a → a < start + length → P a)
    (ftag : NostrDBFilterTag) : (tagsMatchAt start length ftag).Within m P := by
  rw [tagsMatchAt]
  refine within_ite (fun _ => within_pure _) fun hlength => ?_
  refine within_bind (within_bytesAt fun a hlow hhigh => hP a hlow (by omega)) ?_
  exact within_walkTagsAt hP ftag _ _ (Nat.le_add_right _ _)

theorem within_allTagsMatchAt {start length : Nat} (hP : ∀ a, start ≤ a → a < start + length → P a)
    (ftags : List NostrDBFilterTag) : (allTagsMatchAt start length ftags).Within m P := by
  induction ftags with
  | nil => exact within_pure _
  | cons ftag ftags ih =>
    rw [allTagsMatchAt]
    exact within_bind (within_tagsMatchAt hP ftag) (within_ite (fun _ => ih) fun _ => within_pure _)

/-- **A round** reads the header and the tags. -/
theorem within_postFilterReader (filter : NostrDBFilter) : (postFilterReader filter).Within m fun a =>
    a < 152 + (EventHeader.read m).contentLength.toNat + (EventHeader.read m).tagsLength.toNat := by
  rw [postFilterReader]
  refine within_bind (within_bytesAt fun a _ hhigh => by omega) ?_
  rw [value_bytesAt, read_getD_readAt]
  refine within_ite (fun _ => within_ite (fun _ => within_pure _) fun _ => ?_) fun _ => within_pure _
  exact within_allTagsMatchAt (fun a _ hhigh => hhigh) _

end Footprint

end OnionRelay.Db.Engine
