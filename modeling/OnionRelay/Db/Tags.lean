import OnionRelay.Lib.LittleEndian
import OnionRelay.Nostr.Types

/-!
# Serialized tags

`nostr_db_serialize_tags` writes

    [tag_count : 2] ([value_count : 1] [name_len : 1] [name] ([value_len : 2] [value])*)*

and gives up when the buffer is full.  Here the buffer is the list of bytes
written so far, and `ptr + n <= end` is a bound on its length.

Tags within the bounds of the entity come back as they were
(`deserializeTags_serializeTags`), and an empty list is the only one that reads
back as no tag at all.
-/

namespace OnionRelay.Db

open OnionRelay.Lib

/-! ## Writing -/

/-- The value loop. -/
def serializeValues (capacity : Nat) : List CStr → List UInt8 → Option (List UInt8)
  | [], buf => some buf
  | v :: vs, buf =>
    let len := min v.length 0xFFFF
    if buf.length + 2 + len ≤ capacity then
      serializeValues capacity vs (buf ++ toLE 2 len ++ v.take len)
    else none

/-- The tag loop. -/
def serializeTagList (capacity : Nat) : List NostrTagEntity → List UInt8 → Option (List UInt8)
  | [], buf => some buf
  | tag :: tags, buf =>
    let valueCount := min tag.values.length 255
    let nameLen := min tag.key.length 255
    if buf.length + 2 + nameLen ≤ capacity then do
      let buf ← serializeValues capacity (tag.values.take valueCount)
        (buf ++ [UInt8.ofNat valueCount, UInt8.ofNat nameLen] ++ tag.key.take nameLen)
      serializeTagList capacity tags buf
    else none

/-- `nostr_db_serialize_tags`; `none` is the source's `-1`. -/
def serializeTags (tags : List NostrTagEntity) (capacity : Nat) : Option (List UInt8) :=
  if capacity < 2 then none
  else if 0xFFFF < tags.length then none
  else serializeTagList capacity tags (toLE 2 tags.length)

/-! ## Reading -/

/-- The C string a byte array holds. -/
def cstr (bytes : List UInt8) : CStr := bytes.takeWhile (· ≠ 0)

/-- The value loop: the values read, and the bytes after them unless the data
ended early. -/
def deserializeValues : Nat → List UInt8 → List CStr × Option (List UInt8)
  | 0, rest => ([], some rest)
  | n + 1, rest =>
    if rest.length < 2 then ([], none)
    else
      let len := ofLE (rest.take 2)
      if (rest.drop 2).length < len then ([], none)
      else
        let (vs, after) := deserializeValues n ((rest.drop 2).drop len)
        (cstr ((rest.drop 2).take (min len 511)) :: vs, after)

/-- The tag loop: the tags read. -/
def deserializeTagList : Nat → List UInt8 → List NostrTagEntity
  | 0, _ => []
  | n + 1, rest =>
    if rest.length < 2 then []
    else
      let valueCount := (rest.getD 0 0).toNat
      let nameLen := (rest.getD 1 0).toNat
      if (rest.drop 2).length < nameLen then []
      else
        let key := cstr ((rest.drop 2).take (min nameLen 63))
        match deserializeValues (min valueCount 16) ((rest.drop 2).drop nameLen) with
        | (vs, none) => [⟨key, vs⟩]
        | (vs, some after) => ⟨key, vs⟩ :: deserializeTagList n after

/-- `nostr_db_deserialize_tags`: the tags it fills in, as many as it returns;
`none` is the source's `-1`. -/
def deserializeTags (buffer : List UInt8) (maxTags : Nat) : Option (List NostrTagEntity) :=
  if buffer.length < 2 then none
  else some (deserializeTagList (min (ofLE (buffer.take 2)) maxTags) (buffer.drop 2))

/-! ## Round trip -/

/-- The bytes of the values of one tag. -/
def valueBytes (vs : List CStr) : List UInt8 := vs.flatMap fun v => toLE 2 v.length ++ v

/-- The bytes of one tag. -/
def tagBytes (t : NostrTagEntity) : List UInt8 :=
  [UInt8.ofNat t.values.length, UInt8.ofNat t.key.length] ++ t.key ++ valueBytes t.values

/-- The bytes of a tag list behind the count. -/
def tagListBytes (tags : List NostrTagEntity) : List UInt8 := tags.flatMap tagBytes

/-- `valueBytes` is what the value loop appends, if there is room. -/
theorem serializeValues_eq (capacity : Nat) : ∀ (vs : List CStr) (buf : List UInt8),
    (∀ v ∈ vs, v.length < 512 ∧ 0 ∉ v) → buf.length ≤ capacity →
      serializeValues capacity vs buf =
        if buf.length + (valueBytes vs).length ≤ capacity then some (buf ++ valueBytes vs)
        else none := by
  intro vs
  induction vs with
  | nil =>
    intro buf _ hcap
    rw [serializeValues, if_pos (by simpa [valueBytes] using hcap)]
    simp [valueBytes]
  | cons v vs ih =>
    intro buf hvs hcap
    have hv := (hvs v List.mem_cons_self).1
    have hlen : min v.length 0xFFFF = v.length := by omega
    have hbytes : valueBytes (v :: vs) = toLE 2 v.length ++ v ++ valueBytes vs := rfl
    rw [serializeValues, hbytes]
    simp only [hlen, List.take_length, List.length_append, length_toLE]
    by_cases hfit : buf.length + 2 + v.length ≤ capacity
    · rw [if_pos hfit, ih _ (fun w hw => hvs w (List.mem_cons_of_mem v hw))
        (by simp only [List.length_append, length_toLE]; omega)]
      simp only [List.length_append, length_toLE, List.append_assoc, Nat.add_assoc]
    · rw [if_neg hfit, if_neg (by omega)]

theorem serializeTagList_eq (capacity : Nat) : ∀ (tags : List NostrTagEntity) (buf : List UInt8),
    (∀ t ∈ tags, t.Bounded) → buf.length ≤ capacity →
      serializeTagList capacity tags buf =
        if buf.length + (tagListBytes tags).length ≤ capacity then some (buf ++ tagListBytes tags)
        else none := by
  intro tags
  induction tags with
  | nil =>
    intro buf _ hcap
    rw [serializeTagList, if_pos (by simpa [tagListBytes] using hcap)]
    simp [tagListBytes]
  | cons t tags ih =>
    intro buf hts hcap
    have ht := hts t List.mem_cons_self
    have hname : min t.key.length 255 = t.key.length := by have := ht.key.1; omega
    have hcount : min t.values.length 255 = t.values.length := by have := ht.count; omega
    have hbytes : tagListBytes (t :: tags) = tagBytes t ++ tagListBytes tags := rfl
    have htag : (tagBytes t).length = 2 + t.key.length + (valueBytes t.values).length := by
      simp only [tagBytes, List.length_append, List.length_cons, List.length_nil]
    rw [serializeTagList, hbytes]
    simp only [hname, hcount, List.take_length]
    by_cases hfit : buf.length + 2 + t.key.length ≤ capacity
    · rw [if_pos hfit, serializeValues_eq _ _ _ ht.values
        (by simp only [List.length_append, List.length_cons, List.length_nil]; omega)]
      by_cases hval : buf.length + (tagBytes t).length ≤ capacity
      · rw [if_pos (by simp only [List.length_append, List.length_cons, List.length_nil]; omega),
          Option.bind_eq_bind, Option.bind_some,
          ih _ (fun u hu => hts u (List.mem_cons_of_mem t hu))
            (by simp only [List.length_append, List.length_cons, List.length_nil]; omega)]
        simp only [tagBytes, List.length_append, List.length_cons, List.length_nil,
          List.append_assoc, Nat.add_assoc]
      · rw [if_neg (by simp only [List.length_append, List.length_cons, List.length_nil]; omega),
          if_neg (by rw [List.length_append]; omega)]
        rfl
    · rw [if_neg hfit, if_neg (by rw [List.length_append]; omega)]

theorem cstr_of_noNul {s : CStr} (h : 0 ∉ s) : cstr s = s := by
  induction s with
  | nil => rfl
  | cons b s ih =>
    simp only [List.mem_cons, not_or] at h
    rw [cstr, List.takeWhile_cons_of_pos (by simpa using Ne.symm h.1)]
    exact congrArg (b :: ·) (ih h.2)

theorem deserializeValues_valueBytes : ∀ (vs : List CStr) (rest : List UInt8),
    (∀ v ∈ vs, v.length < 512 ∧ 0 ∉ v) →
      deserializeValues vs.length (valueBytes vs ++ rest) = (vs, some rest) := by
  intro vs
  induction vs with
  | nil => intro rest _; rfl
  | cons v vs ih =>
    intro rest hvs
    obtain ⟨hv, hnul⟩ := hvs v List.mem_cons_self
    have hbytes : valueBytes (v :: vs) ++ rest = toLE 2 v.length ++ (v ++ (valueBytes vs ++ rest)) := by
      simp [valueBytes]
    have hlen : ofLE (toLE 2 v.length) = v.length := ofLE_toLE_of_lt (by omega)
    have htake : (toLE 2 v.length ++ (v ++ (valueBytes vs ++ rest))).take 2 = toLE 2 v.length :=
      List.take_left' (by simp)
    have hdrop : (toLE 2 v.length ++ (v ++ (valueBytes vs ++ rest))).drop 2 =
        v ++ (valueBytes vs ++ rest) := List.drop_left' (by simp)
    have hlong : ¬ (toLE 2 v.length ++ (v ++ (valueBytes vs ++ rest))).length < 2 := by
      rw [List.length_append, length_toLE]
      omega
    rw [List.length_cons, deserializeValues, hbytes, if_neg hlong]
    simp only [htake, hdrop, hlen, List.drop_left, ih rest
      (fun w hw => hvs w (List.mem_cons_of_mem v hw))]
    rw [if_neg (by simp), show min v.length 511 = v.length by omega, List.take_left,
      cstr_of_noNul hnul]

theorem deserializeTagList_tagListBytes : ∀ tags : List NostrTagEntity,
    (∀ t ∈ tags, t.Bounded) → deserializeTagList tags.length (tagListBytes tags) = tags := by
  intro tags
  induction tags with
  | nil => intro _; rfl
  | cons t tags ih =>
    intro hts
    have ht := hts t List.mem_cons_self
    have hname := ht.key.1
    have hcount := ht.count
    have hbytes : tagListBytes (t :: tags) = UInt8.ofNat t.values.length ::
        UInt8.ofNat t.key.length :: (t.key ++ (valueBytes t.values ++ tagListBytes tags)) := by
      simp [tagListBytes, tagBytes]
    have hc : (UInt8.ofNat t.values.length).toNat = t.values.length := by
      rw [UInt8.toNat_ofNat']; omega
    have hn : (UInt8.ofNat t.key.length).toNat = t.key.length := by
      rw [UInt8.toNat_ofNat']; omega
    rw [List.length_cons, deserializeTagList, hbytes, if_neg (by simp)]
    simp only [List.getD_cons_zero, List.getD_cons_succ, hc, hn, List.drop_succ_cons,
      List.drop_zero, List.drop_left, show min t.values.length 16 = t.values.length by omega,
      show min t.key.length 63 = t.key.length by omega, List.take_left,
      deserializeValues_valueBytes _ _ ht.values, cstr_of_noNul ht.key.2,
      ih (fun u hu => hts u (List.mem_cons_of_mem t hu))]
    rw [if_neg (by simp)]

/-- **Tags read back as they were written**, when they fitted the buffer. -/
theorem deserializeTags_serializeTags {tags : List NostrTagEntity} {capacity : Nat}
    (hcount : tags.length ≤ 2048) (hts : ∀ t ∈ tags, t.Bounded) {bytes : List UInt8}
    (h : serializeTags tags capacity = some bytes) : deserializeTags bytes 2048 = some tags := by
  rw [serializeTags] at h
  split at h
  · exact absurd h (by simp)
  · rename_i hcap
    rw [if_neg (by omega), serializeTagList_eq _ _ _ hts (by rw [length_toLE]; omega)] at h
    split at h
    · obtain rfl := Option.some.inj h
      have hlen : ofLE (toLE 2 tags.length) = tags.length := ofLE_toLE_of_lt (by omega)
      have hlong : ¬ (toLE 2 tags.length ++ tagListBytes tags).length < 2 := by
        rw [List.length_append, length_toLE]
        omega
      rw [deserializeTags, if_neg hlong, List.take_left' (length_toLE _ _),
        List.drop_left' (length_toLE _ _), hlen, Nat.min_eq_left hcount,
        deserializeTagList_tagListBytes tags hts]
    · exact absurd h (by simp)

theorem serializeTags_eq {tags : List NostrTagEntity} {capacity : Nat}
    (hcap : 2 ≤ capacity) (hcount : tags.length ≤ 2048) (hts : ∀ t ∈ tags, t.Bounded) :
    serializeTags tags capacity =
      if 2 + (tagListBytes tags).length ≤ capacity then
        some (toLE 2 tags.length ++ tagListBytes tags)
      else none := by
  rw [serializeTags, if_neg (by omega), if_neg (by omega),
    serializeTagList_eq _ _ _ hts (by rw [length_toLE]; omega), length_toLE]

end OnionRelay.Db
