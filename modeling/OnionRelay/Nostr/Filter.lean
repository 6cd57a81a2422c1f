import OnionRelay.Nostr.Types
import OnionRelay.Util.CString

/-!
# Filters

`nostrFilterMatches` is the check of an event against one filter of a subscription.
The arrays of the filter are lists here, the first `..._count` entries of each; of a
tag's values every row is 32 bytes and what is behind the last row is zero.

`nostrStrncmp` is the source's own `strncmp`: it takes no notice of case, and it is
false for a length of 0.  `nostrStrncmp_iff` says so.
-/

namespace OnionRelay

/-! ## Strings -/

/-- `nostr_strncmp`. -/
def nostrStrncmp (str1 str2 : CStr) (capacity : Nat) : Bool :=
  if capacity = 0 then false
  else (List.range capacity).all fun i => chrcmp (str1.getD i 0) (str2.getD i 0)

/-! ## Filters -/

/-- `NostrFilterId` and `NostrFilterPubkey`. -/
structure NostrFilterId where
  value : Bytes 32
  prefixLen : Nat
deriving DecidableEq, Repr

structure NostrFilterTag where
  name : UInt8
  values : List (Bytes 32)
deriving DecidableEq, Repr

structure NostrFilter where
  ids : List NostrFilterId
  authors : List NostrFilterId
  kinds : List Nat
  tags : List NostrFilterTag
  since : Int
  until_ : Int
  limit : Nat
  hasLimit : Bool
deriving DecidableEq, Repr

/-- `nostr_filter_init`. -/
def NostrFilter.init : NostrFilter := ⟨[], [], [], [], 0, 0, 0, false⟩

/-- `hex_to_bytes` for at most `pairs` bytes: what it converts before the first pair
that is not hexadecimal. -/
def hexToBytes : Nat → CStr → List UInt8
  | 0, _ => []
  | pairs + 1, hex =>
    match hexCharVal (hex.getD 0 0), hexCharVal (hex.getD 1 0) with
    | some h, some l => UInt8.ofNat (h <<< 4 ||| l) :: hexToBytes pairs (hex.drop 2)
    | _, _ => []

/-- `bytes_match_prefix`. -/
def bytesMatchPrefix (data : List UInt8) (value : Bytes 32) (len : Nat) : Bool :=
  (List.range len).all fun i => data.getD i 0 = value.1.getD i 0

/-- The check of the ids and that of the authors: some entry is a prefix of the bytes
`hex` stands for. -/
def matchesHex (entries : List NostrFilterId) (hex : CStr) : Bool :=
  let converted := hexToBytes 32 hex
  decide (0 < converted.length) && entries.any fun entry =>
    decide (entry.prefixLen ≤ converted.length) &&
      bytesMatchPrefix converted entry.value entry.prefixLen

/-- The C string at row `i` of a tag's values; it may run on into the rows behind. -/
def tagValueAt (values : List (Bytes 32)) (i : Nat) : CStr :=
  ((values.drop i).flatMap Subtype.val).takeWhile (· ≠ 0)

/-- Whether value `i` of a filter's tag is the value `eval` of an event's. -/
def tagValueMatches (ftag : NostrFilterTag) (i : Nat) (eval : CStr) : Bool :=
  if ftag.name = 101 ∨ ftag.name = 112 then
    decide (eval.length = 64) &&
      (let converted := hexToBytes 32 eval
       decide (converted.length = 32) && decide ((ftag.values[i]?.map Subtype.val) = some converted))
  else
    let fval := tagValueAt ftag.values i
    decide (eval.length = fval.length) && nostrStrncmp eval fval fval.length

/-- Whether a tag of the event is one the filter's tag asks for. -/
def tagMatches (ftag : NostrFilterTag) (etag : NostrTagEntity) : Bool :=
  decide (etag.key.getD 0 0 = ftag.name) && decide (etag.key.getD 1 0 = 0) &&
    (List.range ftag.values.length).any fun i => etag.values.any (tagValueMatches ftag i)

/-- An unsigned 64-bit time, read as signed. -/
def signedTime (t : Nat) : Int := (BitVec.ofNat 64 t).toInt

def nostrFilterMatches (filter : NostrFilter) (event : NostrEventEntity) : Bool :=
  (filter.ids.isEmpty || matchesHex filter.ids event.id) &&
  (filter.authors.isEmpty || matchesHex filter.authors event.pubkey) &&
  (filter.kinds.isEmpty || filter.kinds.any (· == event.kind)) &&
  !(decide (0 < filter.since) && decide (signedTime event.createdAt < filter.since)) &&
  !(decide (0 < filter.until_) && decide (filter.until_ < signedTime event.createdAt)) &&
  filter.tags.all fun ftag => event.tags.any (tagMatches ftag)

/-! ## Strings that are equal up to case -/

/-- Of two strings of one length, `nostrStrncmp` compares the lower-case forms. -/
theorem nostrStrncmp_iff {a b : CStr} (h : a.length = b.length) :
    nostrStrncmp a b a.length = true ↔ a ≠ [] ∧ a.map lowerChr = b.map lowerChr := by
  rw [nostrStrncmp]
  by_cases ha : a = []
  · subst ha
    simp
  have hpos : a.length ≠ 0 := fun h0 => ha (List.eq_nil_of_length_eq_zero h0)
  rw [if_neg hpos, List.all_eq_true, and_iff_right ha]
  simp only [List.mem_range, chrcmp_iff]
  constructor
  · intro hall
    refine List.ext_getElem (by simpa using h) fun i hi hi' => ?_
    rw [List.length_map] at hi hi'
    have hat := hall i hi
    rw [List.getElem_map, List.getElem_map]
    simpa [List.getD, hi, hi'] using hat
  · intro hmap i hi
    have hi' : i < b.length := h ▸ hi
    have hat := congrArg (fun l => l[i]?) hmap
    simpa [List.getD, hi, hi'] using hat

end OnionRelay
