import OnionRelay.Db.EventSerializer
import Mathlib.Logic.Function.Basic

/-!
# The entity in memory

`event_deserialize` fills an entity that its caller has used before.  Here the arrays
of the entity are memories, which keep what was in them: strings behind their
terminator, values behind `item_count` and tags behind `tag_count`.

`TagMemory.tag` and `EventMemory.event` are what a reader of the entity gets to see, and
`eventDeserializeInto_event` says that it is what the functions on lists compute.
-/

namespace OnionRelay.Db

open OnionRelay.Lib

/-! ## The two structs -/

/-- `NostrTagEntity` -/
structure TagMemory where
  key : Mem
  values : Nat → Mem
  itemCount : Nat

/-- `NostrEventEntity` -/
structure EventMemory where
  id : Mem
  pubkey : Mem
  kind : Nat
  tagCount : Nat
  createdAt : Nat
  tags : Nat → TagMemory
  content : Mem
  sig : Mem

/-- The C string in an array of `n` bytes. -/
def cstrAt (m : Mem) (n : Nat) : CStr := cstr (readAt m 0 n)

/-- The strings in the first `n` values. -/
def shownValues (values : Nat → Mem) (n : Nat) : List CStr :=
  (List.range n).map fun j => cstrAt (values j) 512

def TagMemory.tag (t : TagMemory) : NostrTagEntity :=
  ⟨cstrAt t.key 64, shownValues t.values t.itemCount⟩

/-- The first `n` tags. -/
def shownTags (tags : Nat → TagMemory) (n : Nat) : List NostrTagEntity :=
  (List.range n).map fun i => (tags i).tag

def EventMemory.event (e : EventMemory) : NostrEventEntity where
  id := cstrAt e.id 65
  pubkey := cstrAt e.pubkey 65
  kind := e.kind
  createdAt := e.createdAt
  tags := shownTags e.tags e.tagCount
  content := cstrAt e.content 1048576
  sig := cstrAt e.sig 129

/-- A freshly mapped entity. -/
def EventMemory.zero : EventMemory where
  id := fun _ => 0
  pubkey := fun _ => 0
  kind := 0
  tagCount := 0
  createdAt := 0
  tags := fun _ => ⟨fun _ => 0, fun _ _ => 0, 0⟩
  content := fun _ => 0
  sig := fun _ => 0

/-! ## The functions that fill it -/

/-- The value loop from `values[j]` on: the count it leaves in `item_count`, the array,
and the bytes behind unless the data ended early. -/
def deserializeValuesInto : Nat → Nat → List UInt8 → (Nat → Mem) →
    Nat × (Nat → Mem) × Option (List UInt8)
  | 0, j, rest, values => (j, values, some rest)
  | n + 1, j, rest, values =>
    if rest.length < 2 then (j, values, none)
    else
      let len := ofLE (rest.take 2)
      if (rest.drop 2).length < len then (j, values, none)
      else
        let value := (rest.drop 2).take (min len 511)
        deserializeValuesInto n (j + 1) ((rest.drop 2).drop len)
          (Function.update values j (writeAt (values j) 0 (value ++ [0])))

/-- The tag loop from `tags[i]` on: the number of tags read, and the array. -/
def deserializeTagListInto : Nat → Nat → List UInt8 → (Nat → TagMemory) → Nat × (Nat → TagMemory)
  | 0, i, _, tags => (i, tags)
  | n + 1, i, rest, tags =>
    if rest.length < 2 then (i, tags)
    else
      let valueCount := (rest.getD 0 0).toNat
      let nameLen := (rest.getD 1 0).toNat
      if (rest.drop 2).length < nameLen then (i, tags)
      else
        let key := writeAt (tags i).key 0 ((rest.drop 2).take (min nameLen 63) ++ [0])
        match deserializeValuesInto (min valueCount 16) 0 ((rest.drop 2).drop nameLen)
            (tags i).values with
        | (count, values, none) => (i + 1, Function.update tags i ⟨key, values, count⟩)
        | (count, values, some after) =>
          deserializeTagListInto n (i + 1) after (Function.update tags i ⟨key, values, count⟩)

/-- `nostr_db_deserialize_tags`: the value returned, `none` for `-1`, and the array. -/
def deserializeTagsInto (buffer : List UInt8) (tags : Nat → TagMemory) (maxTags : Nat) :
    Option Nat × (Nat → TagMemory) :=
  if buffer.length < 2 then (none, tags)
  else
    let r := deserializeTagListInto (min (ofLE (buffer.take 2)) maxTags) 0 (buffer.drop 2) tags
    (some r.1, r.2)

/-- `event_deserialize` -/
def eventDeserializeInto (buffer : Mem) (length : UInt16) (event : EventMemory) :
    NostrDBError × EventMemory :=
  if length.toNat < 152 then (.invalidEvent, event)
  else
    let header := EventHeader.read buffer
    let event := { event with
      id := writeAt event.id 0 (rawToHex header.id.1 ++ [0])
      pubkey := writeAt event.pubkey 0 (rawToHex header.pubkey.1 ++ [0])
      sig := writeAt event.sig 0 (rawToHex header.sig.1 ++ [0])
      createdAt := header.createdAt.toNat
      kind := header.kind.toNat }
    let contentLen := header.contentLength.toNat
    if length.toNat < 152 + contentLen then (.invalidEvent, event)
    else
      let copyLen := if 1048576 ≤ contentLen then 1048575 else contentLen
      let event := { event with
        content := writeAt event.content 0 (readAt buffer 152 copyLen ++ [0]) }
      let tagsLen := header.tagsLength.toNat
      if length.toNat < 152 + contentLen + tagsLen then (.invalidEvent, event)
      else
        let r := deserializeTagsInto (readAt buffer (152 + contentLen) tagsLen) event.tags 2048
        let event := { event with tags := r.2 }
        match r.1 with
        | some (n + 1) => (.ok, { event with tagCount := n + 1 })
        | _ => (.ok, event)

/-! ## What a reader sees -/

theorem cstr_append_zero (bytes rest : List UInt8) : cstr (bytes ++ 0 :: rest) = cstr bytes := by
  induction bytes with
  | nil => rfl
  | cons b bytes ih =>
    rw [List.cons_append, cstr, List.takeWhile_cons, cstr, List.takeWhile_cons]
    split
    · exact congrArg (b :: ·) ih
    · rfl

/-- A string that was copied with its terminator. -/
theorem cstrAt_writeAt (m : Mem) {bytes : List UInt8} {n : Nat} (h : bytes.length < n) :
    cstrAt (writeAt m 0 (bytes ++ [0])) n = cstr bytes := by
  obtain ⟨k, rfl⟩ := Nat.exists_eq_add_of_le h
  have hlength : bytes.length + 1 = (bytes ++ [0]).length := by simp
  rw [cstrAt, Nat.succ_eq_add_one, readAt_add, hlength, readAt_writeAt_same _ _ _ rfl,
    List.append_assoc, List.singleton_append, cstr_append_zero]

theorem length_rawToHex (bytes : List UInt8) : (rawToHex bytes).length = 2 * bytes.length := by
  induction bytes with
  | nil => rfl
  | cons b bytes ih =>
    rw [rawToHex_cons, List.length_cons, List.length_cons, ih, List.length_cons]
    omega

theorem cstr_rawToHex (bytes : List UInt8) : cstr (rawToHex bytes) = rawToHex bytes := by
  have hdigit : ∀ b : UInt8, hexDigit ((b >>> 4) &&& 0x0F) ≠ 0 ∧ hexDigit (b &&& 0x0F) ≠ 0 :=
    forall_uint8 (by decide +kernel)
  refine cstr_of_noNul fun h => ?_
  obtain ⟨b, -, hb⟩ := List.mem_flatMap.mp h
  rcases List.mem_cons.mp hb with hb | hb
  · exact (hdigit b).1 hb.symm
  · exact (hdigit b).2 (List.mem_singleton.mp hb).symm

theorem shownValues_succ (values : Nat → Mem) (j : Nat) (m : Mem) :
    shownValues (Function.update values j m) (j + 1) = shownValues values j ++ [cstrAt m 512] := by
  rw [shownValues, List.range_succ, List.map_append, List.map_singleton, Function.update_self,
    shownValues]
  refine congrArg (· ++ _) (List.map_congr_left fun i hi => ?_)
  rw [Function.update_of_ne (Nat.ne_of_lt (List.mem_range.mp hi))]

theorem shownTags_succ (tags : Nat → TagMemory) (i : Nat) (t : TagMemory) :
    shownTags (Function.update tags i t) (i + 1) = shownTags tags i ++ [t.tag] := by
  rw [shownTags, List.range_succ, List.map_append, List.map_singleton, Function.update_self,
    shownTags]
  refine congrArg (· ++ _) (List.map_congr_left fun k hk => ?_)
  rw [Function.update_of_ne (Nat.ne_of_lt (List.mem_range.mp hk))]

/-- The values read stand behind those that were there. -/
theorem deserializeValuesInto_spec : ∀ (n j : Nat) (rest : List UInt8) (values : Nat → Mem),
    shownValues (deserializeValuesInto n j rest values).2.1 (deserializeValuesInto n j rest values).1 =
        shownValues values j ++ (deserializeValues n rest).1 ∧
      (deserializeValuesInto n j rest values).2.2 = (deserializeValues n rest).2 := by
  intro n
  induction n with
  | zero =>
    intro j rest values
    exact ⟨(List.append_nil _).symm, rfl⟩
  | succ n ih =>
    intro j rest values
    rw [deserializeValuesInto, deserializeValues]
    by_cases hshort : rest.length < 2
    · rw [if_pos hshort, if_pos hshort]
      exact ⟨(List.append_nil _).symm, rfl⟩
    rw [if_neg hshort, if_neg hshort]
    dsimp only
    by_cases hcut : (rest.drop 2).length < ofLE (rest.take 2)
    · rw [if_pos hcut, if_pos hcut]
      exact ⟨(List.append_nil _).symm, rfl⟩
    rw [if_neg hcut, if_neg hcut]
    obtain ⟨hshown, hafter⟩ := ih (j + 1) ((rest.drop 2).drop (ofLE (rest.take 2)))
      (Function.update values j
        (writeAt (values j) 0 ((rest.drop 2).take (min (ofLE (rest.take 2)) 511) ++ [0])))
    refine ⟨?_, hafter⟩
    rw [hshown, shownValues_succ, cstrAt_writeAt _ (by rw [List.length_take]; omega),
      List.append_assoc, List.singleton_append]

theorem deserializeTagListInto_spec : ∀ (n i : Nat) (rest : List UInt8) (tags : Nat → TagMemory),
    shownTags (deserializeTagListInto n i rest tags).2 (deserializeTagListInto n i rest tags).1 =
        shownTags tags i ++ deserializeTagList n rest ∧
      (deserializeTagListInto n i rest tags).1 = i + (deserializeTagList n rest).length ∧
      (deserializeTagList n rest = [] → (deserializeTagListInto n i rest tags).2 = tags) := by
  intro n
  induction n with
  | zero =>
    intro i rest tags
    exact ⟨(List.append_nil _).symm, rfl, fun _ => rfl⟩
  | succ n ih =>
    intro i rest tags
    rw [deserializeTagListInto, deserializeTagList]
    by_cases hshort : rest.length < 2
    · rw [if_pos hshort, if_pos hshort]
      exact ⟨(List.append_nil _).symm, rfl, fun _ => rfl⟩
    rw [if_neg hshort, if_neg hshort]
    dsimp only
    by_cases hcut : (rest.drop 2).length < (rest.getD 1 0).toNat
    · rw [if_pos hcut, if_pos hcut]
      exact ⟨(List.append_nil _).symm, rfl, fun _ => rfl⟩
    rw [if_neg hcut, if_neg hcut]
    obtain ⟨hshown, hafter⟩ := deserializeValuesInto_spec (min (rest.getD 0 0).toNat 16) 0
      ((rest.drop 2).drop (rest.getD 1 0).toNat) (tags i).values
    have hkey : cstrAt (writeAt (tags i).key 0
        ((rest.drop 2).take (min (rest.getD 1 0).toNat 63) ++ [0])) 64 =
          cstr ((rest.drop 2).take (min (rest.getD 1 0).toNat 63)) :=
      cstrAt_writeAt _ (by rw [List.length_take]; omega)
    rcases hinto : deserializeValuesInto (min (rest.getD 0 0).toNat 16) 0
      ((rest.drop 2).drop (rest.getD 1 0).toNat) (tags i).values with ⟨count, values, after⟩
    rcases hread : deserializeValues (min (rest.getD 0 0).toNat 16)
      ((rest.drop 2).drop (rest.getD 1 0).toNat) with ⟨vs, after'⟩
    rw [hinto, hread] at hshown hafter
    dsimp only at hshown hafter
    subst hafter
    have htag : TagMemory.tag ⟨writeAt (tags i).key 0
        ((rest.drop 2).take (min (rest.getD 1 0).toNat 63) ++ [0]), values, count⟩ =
          ⟨cstr ((rest.drop 2).take (min (rest.getD 1 0).toNat 63)), vs⟩ := by
      rw [TagMemory.tag, hkey, hshown]
      rfl
    cases after with
    | none => exact ⟨by rw [shownTags_succ, htag], rfl, fun h => absurd h (List.cons_ne_nil _ _)⟩
    | some after =>
      obtain ⟨hshown', hcount, -⟩ := ih (i + 1) after (Function.update tags i
        ⟨writeAt (tags i).key 0 ((rest.drop 2).take (min (rest.getD 1 0).toNat 63) ++ [0]), values, count⟩)
      refine ⟨?_, ?_, fun h => absurd h (List.cons_ne_nil _ _)⟩
      · rw [hshown', shownTags_succ, htag, List.append_assoc, List.singleton_append]
      · rw [hcount, List.length_cons]
        omega

/-- **What is read out of the filled entity** is what the deserializer on lists computes. -/
theorem eventDeserializeInto_event (buffer : Mem) (length : UInt16) (event : EventMemory) :
    ((eventDeserializeInto buffer length event).1, (eventDeserializeInto buffer length event).2.event) =
      eventDeserializeFrom buffer length event.event := by
  rw [eventDeserializeInto, eventDeserializeFrom]
  by_cases hhead : length.toNat < 152
  · rw [if_pos hhead, if_pos hhead]
  rw [if_neg hhead, if_neg hhead]
  dsimp only
  have hid := cstrAt_writeAt event.id
    (show (rawToHex (EventHeader.read buffer).id.1).length < 65 by
      rw [length_rawToHex, (EventHeader.read buffer).id.2]; omega)
  have hpubkey := cstrAt_writeAt event.pubkey
    (show (rawToHex (EventHeader.read buffer).pubkey.1).length < 65 by
      rw [length_rawToHex, (EventHeader.read buffer).pubkey.2]; omega)
  have hsig := cstrAt_writeAt event.sig
    (show (rawToHex (EventHeader.read buffer).sig.1).length < 129 by
      rw [length_rawToHex, (EventHeader.read buffer).sig.2]; omega)
  rw [cstr_rawToHex] at hid hpubkey hsig
  by_cases hcontent : length.toNat < 152 + (EventHeader.read buffer).contentLength.toNat
  · rw [if_pos hcontent, if_pos hcontent]
    simp only [EventMemory.event, hid, hpubkey, hsig]
  rw [if_neg hcontent, if_neg hcontent]
  have hcopied := fun copyLen (h : copyLen < 1048576) =>
    cstrAt_writeAt event.content (show (readAt buffer 152 copyLen).length < 1048576 by rwa [length_readAt])
  have hcopy := hcopied (if 1048576 ≤ (EventHeader.read buffer).contentLength.toNat then 1048575
    else (EventHeader.read buffer).contentLength.toNat) (by split <;> omega)
  generalize (if 1048576 ≤ (EventHeader.read buffer).contentLength.toNat then 1048575
    else (EventHeader.read buffer).contentLength.toNat) = copyLen at hcopy ⊢
  by_cases htags : length.toNat < 152 + (EventHeader.read buffer).contentLength.toNat +
      (EventHeader.read buffer).tagsLength.toNat
  · rw [if_pos htags, if_pos htags]
    simp only [EventMemory.event, hid, hpubkey, hsig, hcopy]
  rw [if_neg htags, if_neg htags]
  generalize readAt buffer (152 + (EventHeader.read buffer).contentLength.toNat)
    (EventHeader.read buffer).tagsLength.toNat = data
  rw [deserializeTagsInto, deserializeTags]
  by_cases hcount : data.length < 2
  · rw [if_pos hcount, if_pos hcount]
    simp only [EventMemory.event, hid, hpubkey, hsig, hcopy]
  rw [if_neg hcount, if_neg hcount]
  dsimp only
  obtain ⟨hshown, hlength, hkept⟩ := deserializeTagListInto_spec (min (ofLE (data.take 2)) 2048) 0
    (data.drop 2) event.tags
  rw [show shownTags event.tags 0 = [] from rfl, List.nil_append] at hshown
  rw [Nat.zero_add] at hlength
  cases hread : deserializeTagList (min (ofLE (data.take 2)) 2048) (data.drop 2) with
  | nil =>
    rw [hread, List.length_nil] at hlength
    rw [hlength, hkept hread]
    simp only [EventMemory.event, hid, hpubkey, hsig, hcopy]
  | cons tag tags =>
    rw [hread, List.length_cons] at hlength
    rw [hread, hlength] at hshown
    rw [hlength]
    simp only [EventMemory.event, hid, hpubkey, hsig, hcopy, hshown]

end OnionRelay.Db
