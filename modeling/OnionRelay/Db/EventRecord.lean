import OnionRelay.Db.Tags
import OnionRelay.Db.Record.SlotPage

/-!
# Event records

`event_serialize` turns an event into a fixed header of 152 bytes, the content
and the serialized tags.  The header fields stay apart here and the two variable
parts are byte lists, so a record is well formed by its type: its lengths are
the lengths of its parts.

Three things a reader of the source may not expect:

* tags that do not fit 8192 bytes are stored as an empty list;
* `event_deserialize` writes into an entity the caller may have used before, and
  leaves the tags of that earlier event in place when the record has none;
* the query engine reads `created_at` at a fixed place of the slot, which in a
  record spread over several pages holds the end of the signature.
-/

namespace OnionRelay.Db

open OnionRelay.Lib

/-- `EventRecord` with its content and tags; `deleted` is bit 0 of `flags`. -/
structure EventRecord where
  id : Bytes 32
  pubkey : Bytes 32
  sig : Bytes 64
  createdAt : Nat
  kind : Nat
  deleted : Bool
  content : List UInt8
  tags : List UInt8
deriving DecidableEq

/-- The serialized size, header included. -/
def EventRecord.size (rec : EventRecord) : Nat := 152 + rec.content.length + rec.tags.length

/-- `event_serialize` into the 8192 bytes of its callers; `none` is `-1`. -/
def eventSerialize (event : NostrEventEntity) : Option EventRecord :=
  let tags := (serializeTags event.tags 8192).getD [0, 0]
  let contentLen := event.content.length % 2 ^ 16
  let totalSize := (152 + contentLen + tags.length % 2 ^ 16) % 2 ^ 16
  if 8192 < totalSize then none
  else do
    let id ← hexToRaw event.id 64 32
    let pubkey ← hexToRaw event.pubkey 64 32
    let sig ← hexToRaw event.sig 128 64
    return ⟨id, pubkey, sig, event.createdAt, event.kind, false, event.content.take contentLen, tags⟩

/-- `event_deserialize` of a well-formed record over the entity `event`. -/
def eventDeserialize (rec : EventRecord) (event : NostrEventEntity) : NostrEventEntity :=
  { id := rawToHex rec.id.1
    pubkey := rawToHex rec.pubkey.1
    sig := rawToHex rec.sig.1
    createdAt := rec.createdAt
    kind := rec.kind
    content := cstr rec.content
    tags := match deserializeTags rec.tags 2048 with
      | none => event.tags
      | some [] => event.tags
      | some (tag :: tags) => tag :: tags }

/-- `read_created_at` of the query engine.  Behind the 8 bytes of a
`SpannedPrefix` the field at byte 128 is bytes 120 to 127 of the record. -/
def readCreatedAt (rec : EventRecord) : Int :=
  if rec.size ≤ maxInlineRecordSize then Int.bmod rec.createdAt (2 ^ 64)
  else Int.bmod (ofLE (rec.sig.1.drop 56)) (2 ^ 64)

/-- The tags a stored record denotes. -/
def EventRecord.storedTags (rec : EventRecord) : List NostrTagEntity :=
  (deserializeTags rec.tags 2048).getD []

/-- The `d` value of a stored record. -/
def EventRecord.dValue (rec : EventRecord) : CStr := dTagValue rec.storedTags

theorem eventDeserialize_tags (rec : EventRecord) (event : NostrEventEntity) :
    (eventDeserialize rec event).tags =
      if rec.storedTags = [] then event.tags else rec.storedTags := by
  rw [eventDeserialize, EventRecord.storedTags]
  rcases deserializeTags rec.tags 2048 with _ | _ | ⟨tag, tags⟩ <;> simp

/-- A record with tags shows its own `d` value, whatever the buffer held. -/
theorem getDTagValue_eventDeserialize {rec : EventRecord} (h : rec.storedTags ≠ [])
    (event : NostrEventEntity) : getDTagValue (eventDeserialize rec event) = rec.dValue := by
  rw [getDTagValue, eventDeserialize_tags, if_neg h, EventRecord.dValue]

@[simp] theorem eventDeserialize_id (rec : EventRecord) (event : NostrEventEntity) :
    (eventDeserialize rec event).id = rawToHex rec.id.1 := rfl

@[simp] theorem eventDeserialize_pubkey (rec : EventRecord) (event : NostrEventEntity) :
    (eventDeserialize rec event).pubkey = rawToHex rec.pubkey.1 := rfl

@[simp] theorem eventDeserialize_createdAt (rec : EventRecord) (event : NostrEventEntity) :
    (eventDeserialize rec event).createdAt = rec.createdAt := rfl

/-- What a record keeps of the event it was written from. -/
structure StoredAs (event : NostrEventEntity) (rec : EventRecord) : Prop where
  id : rawToHex rec.id.1 = event.id
  pubkey : rawToHex rec.pubkey.1 = event.pubkey
  createdAt : rec.createdAt = event.createdAt
  kind : rec.kind = event.kind
  tags : rec.storedTags = if (serializeTags event.tags 8192).isSome then event.tags else []

/-- **A parsed event is stored as it came**, but for tags that do not fit. -/
theorem storedAs_of_eventSerialize {event : NostrEventEntity} (h : event.Parsed)
    {rec : EventRecord} (hrec : eventSerialize event = some rec) : StoredAs event rec := by
  obtain ⟨id, hid, hidb⟩ := hexStrToBin_of_lowerHex 32 event.id h.id
  obtain ⟨pk, hpk, hpkb⟩ := hexStrToBin_of_lowerHex 32 event.pubkey h.pubkey
  obtain ⟨sig, hsig, -⟩ := hexStrToBin_of_lowerHex 64 event.sig h.sig
  simp only [eventSerialize, hexToRaw, hid, hpk, hsig] at hrec
  split at hrec
  · exact absurd hrec (by simp)
  · obtain rfl := Option.some.inj hrec
    refine ⟨hidb, hpkb, rfl, rfl, ?_⟩
    rw [EventRecord.storedTags]
    cases htags : serializeTags event.tags 8192 with
    | none => rfl
    | some bytes =>
      simp only [Option.getD_some, Option.isSome_some, if_true,
        deserializeTags_serializeTags h.tagCount h.tags htags]

theorem eventSerialize_deleted {event : NostrEventEntity} {rec : EventRecord}
    (h : eventSerialize event = some rec) : rec.deleted = false := by
  simp only [eventSerialize, Option.pure_def, Option.bind_eq_bind] at h
  split at h
  · exact absurd h (by simp)
  · simp only [Option.bind_eq_some_iff, Option.some.injEq] at h
    obtain ⟨_, -, _, -, _, -, rfl⟩ := h
    rfl

end OnionRelay.Db
