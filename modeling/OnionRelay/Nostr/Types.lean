import OnionRelay.Util.Hex

/-!
# Events as the relay handles them

`NostrEventEntity` is the parsed event the handlers and the database exchange.
Its arrays are lists here: `tags` is the first `tag_count` entries of the tag
array, and `values` the first `item_count` entries of a tag's value array, so
the two counters are the lengths.

`created_at` is `time_t`, which the source defines as an unsigned 64-bit
integer; the stored record and the query engine read the same bits as signed.
-/

namespace OnionRelay

structure NostrTagEntity where
  key : CStr
  values : List CStr
deriving DecidableEq, Repr

structure NostrEventEntity where
  id : CStr
  pubkey : CStr
  kind : Nat
  createdAt : Nat
  tags : List NostrTagEntity
  content : CStr
  sig : CStr
deriving DecidableEq, Repr

/-- A freshly mapped entity: all bytes zero. -/
def NostrEventEntity.zero : NostrEventEntity := ⟨[], [], 0, 0, [], [], []⟩

inductive NostrDBError
  | ok
  | full
  | notFound
  | duplicate
  | invalidEvent
  | nullParam
  | mmapFailed
  | invalidMagic
  | fileOpen
  | fileCreate
  | ftruncateFailed
  | deleted
deriving DecidableEq, Repr

/-- A tag within the bounds of the struct: `char key[64]`, at most 16 values of
`char[512]`. -/
structure NostrTagEntity.Bounded (t : NostrTagEntity) : Prop where
  key : t.key.length < 64 ∧ 0 ∉ t.key
  count : t.values.length ≤ 16
  values : ∀ v ∈ t.values, v.length < 512 ∧ 0 ∉ v

instance (t : NostrTagEntity) : Decidable t.Bounded :=
  decidable_of_iff ((t.key.length < 64 ∧ 0 ∉ t.key) ∧ t.values.length ≤ 16 ∧
    ∀ v ∈ t.values, v.length < 512 ∧ 0 ∉ v)
    ⟨fun h => ⟨h.1, h.2.1, h.2.2⟩, fun h => ⟨h.key, h.count, h.values⟩⟩

/-- What `extract_nostr_event` guarantees about the fields it copies. -/
structure NostrEventEntity.Parsed (e : NostrEventEntity) : Prop where
  id : LowerHex 64 e.id
  pubkey : LowerHex 64 e.pubkey
  sig : LowerHex 128 e.sig
  kind : e.kind < 2 ^ 32
  createdAt : e.createdAt < 2 ^ 64
  tagCount : e.tags.length ≤ 2048
  tags : ∀ t ∈ e.tags, t.Bounded

/-- An event whose id repeats one digit and whose public key another. -/
def digitEvent (id pubkey : UInt8) (kind createdAt : Nat) (tags : List NostrTagEntity) :
    NostrEventEntity :=
  { id := List.replicate 64 id
    pubkey := List.replicate 64 pubkey
    kind := kind
    createdAt := createdAt
    tags := tags
    content := []
    sig := List.replicate 128 48 }

theorem lowerHex_replicate (n : Nat) {c : UInt8} (hc : isLowerHex c = true) :
    LowerHex n (List.replicate n c) :=
  ⟨List.length_replicate, fun _ h => (List.eq_of_mem_replicate h) ▸ hc⟩

theorem parsed_digitEvent {id pubkey : UInt8} {kind createdAt : Nat} {tags : List NostrTagEntity}
    (hid : isLowerHex id = true) (hpubkey : isLowerHex pubkey = true) (hkind : kind < 2 ^ 32)
    (hcreated : createdAt < 2 ^ 64) (hcount : tags.length ≤ 2048) (htags : ∀ t ∈ tags, t.Bounded) :
    (digitEvent id pubkey kind createdAt tags).Parsed where
  id := lowerHex_replicate 64 hid
  pubkey := lowerHex_replicate 64 hpubkey
  sig := lowerHex_replicate 128 (by decide)
  kind := hkind
  createdAt := hcreated
  tagCount := hcount
  tags := htags

/-- The first value of the first `d` tag, `""` without one. -/
def dTagValue (tags : List NostrTagEntity) : CStr :=
  match tags.find? (fun t => t.key = [100]) with
  | none => []
  | some t => t.values.headD []

/-- `get_d_tag_value`. -/
def getDTagValue (e : NostrEventEntity) : CStr := dTagValue e.tags

/-- `str_equal`. -/
def strEqual : CStr → CStr → Bool
  | a :: as, b :: bs => if a ≠ b then false else strEqual as bs
  | [], [] => true
  | _, _ => false

@[simp] theorem strEqual_iff : ∀ a b : CStr, strEqual a b = true ↔ a = b := by
  intro a
  induction a with
  | nil => intro b; cases b <;> simp [strEqual]
  | cons x xs ih =>
    intro b
    cases b with
    | nil => simp [strEqual]
    | cons y ys => by_cases h : x = y <;> simp [strEqual, h, ih]

/-- `is_replaceable_kind`. -/
def isReplaceableKind (kind : Nat) : Bool :=
  kind = 0 || kind = 3 || (10000 ≤ kind && kind ≤ 19999)

/-- `is_addressable_kind`. -/
def isAddressableKind (kind : Nat) : Bool := 30000 ≤ kind && kind ≤ 39999

end OnionRelay
