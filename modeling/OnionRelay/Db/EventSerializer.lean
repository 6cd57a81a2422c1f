import Mathlib.Algebra.Order.Ring.Nat
import Mathlib.Tactic.Common
import OnionRelay.Lib.Memory
import OnionRelay.Db.EventRecord

/-!
# The serializer of events, byte by byte

`event_serialize` takes the capacity of its buffer as a 16-bit number and
computes with 16-bit lengths.  The header carries both lengths, and
`event_deserialize` trusts it as far as the length it was given reaches.

* `eventSerializeInto_of_le`: what is written is one record (`EventRecord.toBytes`).
* `eventDeserializeFrom_toBytes`: a record whose lengths fit their fields is read
  back whole.
* `restores_iff`: an event survives exactly when its content and its tags fit
  the 16-bit lengths and the tags fit the buffer they are collected in.
-/

namespace OnionRelay.Db

open OnionRelay.Lib

/-! ## The header -/

/-- The struct `EventRecord`; `created_at` is the 64 bits of the source's `int64_t`. -/
structure EventHeader where
  id : Bytes 32
  pubkey : Bytes 32
  sig : Bytes 64
  createdAt : UInt64
  kind : UInt32
  flags : UInt32
  contentLength : UInt16
  tagsLength : UInt16
deriving DecidableEq

/-- The header in memory; four bytes of padding end it. -/
def EventHeader.toBytes (rec : EventHeader) : List UInt8 :=
  rec.id.1 ++ (rec.pubkey.1 ++ (rec.sig.1 ++ (toLE 8 rec.createdAt.toNat ++
    (toLE 4 rec.kind.toNat ++ (toLE 4 rec.flags.toNat ++
      (toLE 2 rec.contentLength.toNat ++ (toLE 2 rec.tagsLength.toNat ++ [0, 0, 0, 0])))))))

/-- `(const EventRecord*)buffer`. -/
def EventHeader.read (buffer : Mem) : EventHeader where
  id := ⟨readAt buffer 0 32, length_readAt _ _ _⟩
  pubkey := ⟨readAt buffer 32 32, length_readAt _ _ _⟩
  sig := ⟨readAt buffer 64 64, length_readAt _ _ _⟩
  createdAt := UInt64.ofNat (ofLE (readAt buffer 128 8))
  kind := UInt32.ofNat (ofLE (readAt buffer 136 4))
  flags := UInt32.ofNat (ofLE (readAt buffer 140 4))
  contentLength := UInt16.ofNat (ofLE (readAt buffer 144 2))
  tagsLength := UInt16.ofNat (ofLE (readAt buffer 146 2))

@[simp] theorem EventHeader.length_toBytes (rec : EventHeader) : rec.toBytes.length = 152 := by
  simp only [EventHeader.toBytes, List.length_append, length_toLE, rec.id.2, rec.pubkey.2,
    rec.sig.2, List.length_cons, List.length_nil]

theorem EventHeader.read_toBytes {rec : EventHeader} {buffer : Mem}
    (h : readAt buffer 0 152 = rec.toBytes) : EventHeader.read buffer = rec := by
  obtain ⟨hid, h⟩ := readAt_eq_append h
  obtain ⟨hpubkey, h⟩ := readAt_eq_append h
  obtain ⟨hsig, h⟩ := readAt_eq_append h
  obtain ⟨hcreated, h⟩ := readAt_eq_append h
  obtain ⟨hkind, h⟩ := readAt_eq_append h
  obtain ⟨hflags, h⟩ := readAt_eq_append h
  obtain ⟨hcontent, h⟩ := readAt_eq_append h
  obtain ⟨htags, -⟩ := readAt_eq_append h
  simp only [rec.id.2, rec.pubkey.2, rec.sig.2, length_toLE, Nat.zero_add, Nat.reduceAdd]
    at hid hpubkey hsig hcreated hkind hflags hcontent htags
  obtain ⟨id, pubkey, sig, createdAt, kind, flags, contentLength, tagsLength⟩ := rec
  simp only [EventHeader.read, EventHeader.mk.injEq, hcreated, hkind, hflags, hcontent, htags]
  refine ⟨Subtype.ext hid, Subtype.ext hpubkey, Subtype.ext hsig, ?_, ?_, ?_, ?_, ?_⟩
  · rw [ofLE_toLE_of_lt createdAt.toNat_lt, UInt64.ofNat_toNat]
  · rw [ofLE_toLE_of_lt kind.toNat_lt, UInt32.ofNat_toNat]
  · rw [ofLE_toLE_of_lt flags.toNat_lt, UInt32.ofNat_toNat]
  · rw [ofLE_toLE_of_lt contentLength.toNat_lt, UInt16.ofNat_toNat]
  · rw [ofLE_toLE_of_lt tagsLength.toNat_lt, UInt16.ofNat_toNat]

/-! ## The two functions -/

/-- `tags_buf`: the serialized tags, an empty list where they do not fit. -/
def tagsBuf (event : NostrEventEntity) : List UInt8 := (serializeTags event.tags 8192).getD [0, 0]

/-- The three conversions to binary, in the order of the source. -/
def rawFields (event : NostrEventEntity) : Option (Bytes 32 × Bytes 32 × Bytes 64) := do
  let id ← hexToRaw event.id 64 32
  let pubkey ← hexToRaw event.pubkey 64 32
  let sig ← hexToRaw event.sig 128 64
  return (id, pubkey, sig)

/-- `event_serialize`: the value returned, `none` for `-1`, and the buffer. -/
def eventSerializeInto (event : NostrEventEntity) (buffer : Mem) (capacity : UInt16) :
    Option UInt16 × Mem :=
  let tags := tagsBuf event
  let contentLen := UInt16.ofNat event.content.length
  let totalSize := 152 + contentLen + UInt16.ofNat tags.length
  if capacity < totalSize then (none, buffer)
  else
    match rawFields event with
    | none => (none, buffer)
    | some (id, pubkey, sig) =>
      let header : EventHeader :=
        { id := id
          pubkey := pubkey
          sig := sig
          createdAt := UInt64.ofNat event.createdAt
          kind := UInt32.ofNat event.kind
          flags := 0
          contentLength := contentLen
          tagsLength := UInt16.ofNat tags.length }
      let buffer := writeAt buffer 0 header.toBytes
      let buffer := writeAt buffer 152 (event.content.take contentLen.toNat)
      (some totalSize, writeAt buffer (152 + contentLen.toNat) tags)

/-- `event_deserialize` over the entity `event`: the code and the entity. -/
def eventDeserializeFrom (buffer : Mem) (length : UInt16) (event : NostrEventEntity) :
    NostrDBError × NostrEventEntity :=
  if length.toNat < 152 then (.invalidEvent, event)
  else
    let header := EventHeader.read buffer
    let event := { event with
      id := rawToHex header.id.1
      pubkey := rawToHex header.pubkey.1
      sig := rawToHex header.sig.1
      createdAt := header.createdAt.toNat
      kind := header.kind.toNat }
    let contentLen := header.contentLength.toNat
    if length.toNat < 152 + contentLen then (.invalidEvent, event)
    else
      let copyLen := if 1048576 ≤ contentLen then 1048575 else contentLen
      let event := { event with content := cstr (readAt buffer 152 copyLen) }
      let tagsLen := header.tagsLength.toNat
      if length.toNat < 152 + contentLen + tagsLen then (.invalidEvent, event)
      else
        match deserializeTags (readAt buffer (152 + contentLen) tagsLen) 2048 with
        | some (tag :: tags) => (.ok, { event with tags := tag :: tags })
        | _ => (.ok, event)

/-! ## What is written -/

/-- `total_size`. -/
def totalSize (event : NostrEventEntity) : UInt16 :=
  152 + UInt16.ofNat event.content.length + UInt16.ofNat (tagsBuf event).length

theorem toNat_totalSize (event : NostrEventEntity) :
    (totalSize event).toNat = (152 + event.content.length + (tagsBuf event).length) % 2 ^ 16 := by
  simp only [totalSize, UInt16.toNat_add, UInt16.toNat_ofNat', UInt16.reduceToNat]
  omega

/-- The header a record goes out with. -/
def EventRecord.header (rec : EventRecord) : EventHeader where
  id := rec.id
  pubkey := rec.pubkey
  sig := rec.sig
  createdAt := UInt64.ofNat rec.createdAt
  kind := UInt32.ofNat rec.kind
  flags := if rec.deleted then 1 else 0
  contentLength := UInt16.ofNat rec.content.length
  tagsLength := UInt16.ofNat rec.tags.length

/-- The bytes of a record. -/
def EventRecord.toBytes (rec : EventRecord) : List UInt8 :=
  rec.header.toBytes ++ (rec.content ++ rec.tags)

theorem EventRecord.length_toBytes (rec : EventRecord) : rec.toBytes.length = rec.size := by
  rw [EventRecord.toBytes, List.length_append, List.length_append, EventHeader.length_toBytes,
    EventRecord.size, Nat.add_assoc]

/-- The record of an event, if its three hexadecimal fields decode. -/
def recordOf (event : NostrEventEntity) : Option EventRecord :=
  (rawFields event).map fun raw =>
    { id := raw.1
      pubkey := raw.2.1
      sig := raw.2.2
      createdAt := event.createdAt
      kind := event.kind
      deleted := false
      content := event.content.take (event.content.length % 2 ^ 16)
      tags := tagsBuf event }

/-- Into the 8192 bytes of its callers the serializer writes a record or nothing. -/
theorem eventSerialize_eq (event : NostrEventEntity) :
    eventSerialize event = if 8192 < (totalSize event).toNat then none else recordOf event := by
  have htotal : (152 + event.content.length % 2 ^ 16 + (tagsBuf event).length % 2 ^ 16) % 2 ^ 16 =
      (totalSize event).toNat := by
    rw [toNat_totalSize]
    omega
  rw [← htotal, eventSerialize, recordOf, rawFields]
  cases hexToRaw event.id 64 32 with
  | none => rfl
  | some id =>
    cases hexToRaw event.pubkey 64 32 with
    | none => rfl
    | some pubkey => cases hexToRaw event.sig 128 64 <;> rfl

theorem length_take_mod (content : List UInt8) :
    (content.take (content.length % 2 ^ 16)).length = content.length % 2 ^ 16 := by
  rw [List.length_take, Nat.min_eq_left (Nat.mod_le _ _)]

/-- **One record is written**, of which the returned number may say less. -/
theorem eventSerializeInto_of_le {event : NostrEventEntity} {rec : EventRecord}
    (hrec : recordOf event = some rec) {capacity : UInt16} (hle : totalSize event ≤ capacity)
    (buffer : Mem) :
    eventSerializeInto event buffer capacity =
      (some (totalSize event), writeAt buffer 0 rec.toBytes) := by
  obtain ⟨raw, hraw, rfl⟩ := Option.map_eq_some_iff.mp hrec
  have hlen : UInt16.ofNat (event.content.length % 2 ^ 16) = UInt16.ofNat event.content.length :=
    UInt16.toNat.inj (by simp)
  have hend : 152 + event.content.length % 2 ^ 16 =
      152 + (event.content.take (event.content.length % 2 ^ 16)).length := by rw [length_take_mod]
  rw [eventSerializeInto, hraw]
  dsimp only
  rw [← totalSize, if_neg (UInt16.not_lt.mpr hle), UInt16.toNat_ofNat', writeAt_append _ _ _ _ hend,
    writeAt_append _ _ _ _ (by rw [EventHeader.length_toBytes]), EventRecord.toBytes,
    EventRecord.header]
  simp only [length_take_mod, hlen]
  rfl

theorem eventSerializeInto_of_lt {event : NostrEventEntity} {capacity : UInt16}
    (hlt : capacity < totalSize event) (buffer : Mem) :
    eventSerializeInto event buffer capacity = (none, buffer) := by
  rw [eventSerializeInto]
  exact if_pos hlt

/-! ## What is read back -/

/-- **A record whose lengths fit their fields is read back whole.** -/
theorem eventDeserializeFrom_toBytes {rec : EventRecord} {buffer : Mem} {length : UInt16}
    (hread : readAt buffer 0 rec.size = rec.toBytes) (hlen : length.toNat = rec.size)
    (hcreated : rec.createdAt < 2 ^ 64) (hkind : rec.kind < 2 ^ 32) (event : NostrEventEntity) :
    eventDeserializeFrom buffer length event = (.ok, eventDeserialize rec event) := by
  have hsize := length.toNat_lt
  rw [hlen, EventRecord.size] at hsize
  obtain ⟨hhead, hbody⟩ := readAt_eq_append hread
  obtain ⟨hcontent, htags⟩ := readAt_eq_append hbody
  rw [EventHeader.length_toBytes] at hhead hcontent htags
  have hc : (UInt16.ofNat rec.content.length).toNat = rec.content.length := by
    rw [UInt16.toNat_ofNat', Nat.mod_eq_of_lt (by omega)]
  have ht : (UInt16.ofNat rec.tags.length).toNat = rec.tags.length := by
    rw [UInt16.toNat_ofNat', Nat.mod_eq_of_lt (by omega)]
  have hcopy : ¬ 1048576 ≤ rec.content.length := by omega
  rw [eventDeserializeFrom, hlen, EventRecord.size]
  simp only [EventHeader.read_toBytes hhead, EventRecord.header, hc, ht, if_neg hcopy]
  rw [if_neg (by omega), if_neg (by omega), if_neg (by omega), eventDeserialize]
  simp only [Nat.zero_add] at hcontent htags
  rw [hcontent, htags, UInt64.toNat_ofNat', Nat.mod_eq_of_lt hcreated, UInt32.toNat_ofNat',
    Nat.mod_eq_of_lt hkind]
  rcases deserializeTags rec.tags 2048 with _ | _ | ⟨tag, tags⟩ <;> rfl

/-! ## Round trip -/

/-- What the entity's arrays can hold: with `Parsed`, a content of at most
`NOSTR_EVENT_CONTENT_LENGTH - 1` bytes. -/
structure InLimits (event : NostrEventEntity) : Prop extends event.Parsed where
  content : event.content.length < 1048576 ∧ 0 ∉ event.content

/-- `n` was returned for `bytes`: they fit, there are `n` of them, nothing else is
written, and they are read back as the event. -/
structure Serialized (event : NostrEventEntity) (capacity n : UInt16) (bytes : List UInt8) :
    Prop where
  fits : n ≤ capacity
  length : bytes.length = n.toNat
  written : ∀ buffer, eventSerializeInto event buffer capacity = (some n, writeAt buffer 0 bytes)
  restored : ∀ buffer, readAt buffer 0 n.toNat = bytes →
    eventDeserializeFrom buffer n .zero = (.ok, event)

/-- Whenever the serializer returns a number, it is true of what it wrote. -/
def Restores (event : NostrEventEntity) (capacity : UInt16) : Prop :=
  ∀ buffer n, (eventSerializeInto event buffer capacity).1 = some n →
    ∃ bytes, Serialized event capacity n bytes

/-- The bytes the tags take in a record. -/
def tagsSize (tags : List NostrTagEntity) : Nat :=
  if 2 + (tagListBytes tags).length ≤ 8192 then 2 + (tagListBytes tags).length else 2

theorem length_tagsBuf {event : NostrEventEntity} (h : event.Parsed) :
    (tagsBuf event).length = tagsSize event.tags := by
  rw [tagsBuf, tagsSize, serializeTags_eq (by omega) h.tagCount h.tags]
  split
  · simp
  · rfl

theorem eventDeserialize_zero (rec : EventRecord) :
    eventDeserialize rec .zero =
      { id := rawToHex rec.id.1
        pubkey := rawToHex rec.pubkey.1
        sig := rawToHex rec.sig.1
        createdAt := rec.createdAt
        kind := rec.kind
        content := cstr rec.content
        tags := rec.storedTags } := by
  rw [eventDeserialize, EventRecord.storedTags]
  rcases deserializeTags rec.tags 2048 with _ | _ | ⟨tag, tags⟩ <;> rfl

theorem storedTags_tagsBuf {event : NostrEventEntity} (h : event.Parsed) :
    (deserializeTags (tagsBuf event) 2048).getD [] =
      if 2 + (tagListBytes event.tags).length ≤ 8192 then event.tags else [] := by
  have htags := serializeTags_eq (show 2 ≤ 8192 by omega) h.tagCount h.tags
  rw [tagsBuf]
  split at htags
  · rw [if_pos (by assumption), htags, Option.getD_some,
      deserializeTags_serializeTags h.tagCount h.tags htags, Option.getD_some]
  · rw [if_neg (by assumption), htags]
    rfl

/-- The record of a parsed event: how long it is, and what comes back of it. -/
theorem recordOf_eq {event : NostrEventEntity} (h : event.Parsed) :
    ∃ rec, recordOf event = some rec ∧
      rec.createdAt = event.createdAt ∧ rec.kind = event.kind ∧
      rec.size = 152 + event.content.length % 2 ^ 16 + tagsSize event.tags ∧
      eventDeserialize rec .zero =
        { event with
          content := cstr (event.content.take (event.content.length % 2 ^ 16))
          tags := if 2 + (tagListBytes event.tags).length ≤ 8192 then event.tags else [] } := by
  obtain ⟨id, hid, hidb⟩ := hexStrToBin_of_lowerHex 32 event.id h.id
  obtain ⟨pubkey, hpubkey, hpubkeyb⟩ := hexStrToBin_of_lowerHex 32 event.pubkey h.pubkey
  obtain ⟨sig, hsig, hsigb⟩ := hexStrToBin_of_lowerHex 64 event.sig h.sig
  have hraw : rawFields event = some (id, pubkey, sig) := by
    simp [rawFields, hexToRaw, hid, hpubkey, hsig]
  refine ⟨_, by rw [recordOf, hraw]; rfl, rfl, rfl, ?_, ?_⟩
  · rw [EventRecord.size, length_take_mod, length_tagsBuf h]
  · rw [eventDeserialize_zero, EventRecord.storedTags, storedTags_tagsBuf h]
    simp only [hidb, hpubkeyb, hsigb]

/-- The number returned is the number of bytes unless the sum left 16 bits. -/
theorem size_eq_totalSize_iff {event : NostrEventEntity} (h : event.Parsed) :
    152 + event.content.length % 2 ^ 16 + tagsSize event.tags = (totalSize event).toNat ↔
      152 + event.content.length % 2 ^ 16 + tagsSize event.tags < 2 ^ 16 := by
  have htotal := toNat_totalSize event
  have hlt := (totalSize event).toNat_lt
  rw [length_tagsBuf h] at htotal
  omega

/-- Where a number is returned, the round trip is about the record. -/
theorem restores_iff_record {event : NostrEventEntity} {rec : EventRecord} (h : event.Parsed)
    (hrec : recordOf event = some rec) (hcreated : rec.createdAt = event.createdAt)
    (hkind : rec.kind = event.kind) {capacity : UInt16} (hle : totalSize event ≤ capacity) :
    Restores event capacity ↔
      rec.size = (totalSize event).toNat ∧ eventDeserialize rec .zero = event := by
  have hwritten := eventSerializeInto_of_le hrec hle
  have hback : ∀ {buffer}, rec.size = (totalSize event).toNat →
      readAt buffer 0 (totalSize event).toNat = rec.toBytes →
        eventDeserializeFrom buffer (totalSize event) .zero =
          (.ok, eventDeserialize rec .zero) := by
    intro buffer hsize hread
    exact eventDeserializeFrom_toBytes (hsize ▸ hread) hsize.symm (hcreated ▸ h.createdAt)
      (hkind ▸ h.kind) _
  constructor
  · intro hround
    obtain ⟨bytes, hbytes⟩ := hround (fun _ => 0) (totalSize event) (by rw [hwritten])
    obtain rfl : rec.toBytes = bytes := writeAt_injective fun buffer => by
      have hsame := hbytes.written buffer
      rw [hwritten buffer] at hsame
      exact congrArg Prod.snd hsame
    have hsize : rec.size = (totalSize event).toNat := by rw [← rec.length_toBytes, hbytes.length]
    refine ⟨hsize, ?_⟩
    have hread : readAt (writeAt (fun _ => 0) 0 rec.toBytes) 0 (totalSize event).toNat =
        rec.toBytes := readAt_writeAt_same _ _ _ hbytes.length.symm
    have hrestored := hbytes.restored _ hread
    rw [hback hsize hread] at hrestored
    exact congrArg Prod.snd hrestored
  · rintro ⟨hsize, hevent⟩ buffer n hn
    rw [hwritten buffer] at hn
    obtain rfl := Option.some.inj hn
    refine ⟨rec.toBytes, hle, by rw [rec.length_toBytes, hsize], hwritten, fun buffer hread => ?_⟩
    rw [hback hsize hread, hevent]

/-- The content and the tags that come back are those that went in. -/
theorem backEqual_iff {event : NostrEventEntity} (h : InLimits event) :
    { event with
        content := cstr (event.content.take (event.content.length % 2 ^ 16))
        tags := if 2 + (tagListBytes event.tags).length ≤ 8192 then event.tags else [] } = event ↔
      event.content.length < 2 ^ 16 ∧ 2 + (tagListBytes event.tags).length ≤ 8192 := by
  constructor
  · intro heq
    have hcontent := congrArg NostrEventEntity.content heq
    have htags := congrArg NostrEventEntity.tags heq
    dsimp only at hcontent htags
    constructor
    · have hlen : (cstr (event.content.take (event.content.length % 2 ^ 16))).length ≤
          (event.content.take (event.content.length % 2 ^ 16)).length :=
        (List.takeWhile_prefix _).length_le
      rw [hcontent, length_take_mod] at hlen
      omega
    · by_contra hfit
      rw [if_neg hfit] at htags
      rw [← htags] at hfit
      exact hfit (by decide)
  · rintro ⟨hlen, hfit⟩
    rw [if_pos hfit, Nat.mod_eq_of_lt hlen, List.take_length, cstr_of_noNul h.content.2]

/-- An event that is not turned down survives if its lengths fit the format. -/
theorem restores_iff_fits {event : NostrEventEntity} (h : InLimits event) {capacity : UInt16}
    (hle : totalSize event ≤ capacity) :
    Restores event capacity ↔
      152 + event.content.length + (2 + (tagListBytes event.tags).length) < 2 ^ 16 ∧
        2 + (tagListBytes event.tags).length ≤ 8192 := by
  obtain ⟨rec, hrec, hcreated, hkind, hsize, hback⟩ := recordOf_eq h.toParsed
  rw [restores_iff_record h.toParsed hrec hcreated hkind hle, hsize,
    size_eq_totalSize_iff h.toParsed, hback, backEqual_iff h]
  constructor
  · rintro ⟨hsum, hlen, htags⟩
    rw [Nat.mod_eq_of_lt hlen, tagsSize, if_pos htags] at hsum
    exact ⟨hsum, htags⟩
  · rintro ⟨hsum, htags⟩
    have hlen : event.content.length < 2 ^ 16 := by omega
    rw [Nat.mod_eq_of_lt hlen, tagsSize, if_pos htags]
    exact ⟨hsum, hlen, htags⟩

/-- **An event survives the record format** exactly when it is turned down, or its
content and its tags fit the lengths of the format. -/
theorem restores_iff {event : NostrEventEntity} (h : InLimits event) (capacity : UInt16) :
    Restores event capacity ↔
      capacity.toNat < (152 + event.content.length + tagsSize event.tags) % 2 ^ 16 ∨
        (152 + event.content.length + (2 + (tagListBytes event.tags).length) < 2 ^ 16 ∧
          2 + (tagListBytes event.tags).length ≤ 8192) := by
  rw [← length_tagsBuf h.toParsed, ← toNat_totalSize, ← UInt16.lt_iff_toNat_lt]
  by_cases hlt : capacity < totalSize event
  · refine iff_of_true (fun buffer n hn => ?_) (.inl hlt)
    rw [eventSerializeInto_of_lt hlt] at hn
    exact absurd hn (by simp)
  · rw [or_iff_right hlt, restores_iff_fits h (UInt16.not_lt.mp hlt)]

/-- An event without tags and with `n` letters of content. -/
def letters (n : Nat) : NostrEventEntity :=
  { digitEvent 97 98 1 1700000000 [] with content := List.replicate n 97 }

theorem inLimits_letters {n : Nat} (hn : n < 1048576) : InLimits (letters n) where
  toParsed :=
    { id := lowerHex_replicate 64 (by decide)
      pubkey := lowerHex_replicate 64 (by decide)
      sig := lowerHex_replicate 128 (by decide)
      kind := show 1 < 2 ^ 32 by decide
      createdAt := show 1700000000 < 2 ^ 64 by decide
      tagCount := Nat.zero_le _
      tags := fun _ h => absurd h List.not_mem_nil }
  content := ⟨by rwa [letters, List.length_replicate], fun h => by
    have hzero := List.eq_of_mem_replicate h
    exact absurd hzero (by decide)⟩

theorem restores_letters : Restores (letters 5) 4096 ↔
    (4096 : UInt16).toNat < (152 + (letters 5).content.length + tagsSize (letters 5).tags) % 2 ^ 16 ∨
      (152 + (letters 5).content.length + (2 + (tagListBytes (letters 5).tags).length) < 2 ^ 16 ∧
        2 + (tagListBytes (letters 5).tags).length ≤ 8192) :=
  restores_iff (inLimits_letters (by decide)) 4096

/-- Of 65536 letters none is left: their number is zero in 16 bits. -/
theorem longContent_lost :
    ¬ ∀ event : NostrEventEntity, InLimits event → ∀ capacity, Restores event capacity := by
  intro h
  have hlen : (letters 65536).content.length = 65536 := List.length_replicate
  have hle : totalSize (letters 65536) ≤ 8192 := by
    rw [UInt16.le_iff_toNat_le, toNat_totalSize, hlen]
    decide
  have hlimits := inLimits_letters (show 65536 < 1048576 by decide)
  have hfits := (restores_iff_fits hlimits hle).mp (h _ hlimits _)
  rw [hlen] at hfits
  omega

end OnionRelay.Db
