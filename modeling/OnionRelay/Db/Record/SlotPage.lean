import OnionRelay.Db.Page
import OnionRelay.Lib.LittleEndian
import OnionRelay.Nostr.Types

/-!
# Record pages

`slot_page.c`.  A record page is a header of 24 bytes, a directory of slots of 4 bytes
that grows upward, and the records, which grow downward from the end of the page.  A
slot has the offset and the length of its record; both are 0 once it is deleted.

The fields are 16 bits wide and so is the arithmetic on them.
-/

namespace OnionRelay.Db

open OnionRelay.Lib

/-! ## Fields of 16 bits -/

def read16 (page : PageData) (off : Nat) : Nat := ofLE (readAt page off 2)

def write16 (page : PageData) (off value : Nat) : PageData := writeAt page off (toLE 2 value)

section Fields

variable {page : PageData} {off off' value n : Nat} {bytes : List UInt8}

theorem read16_lt (page : PageData) (off : Nat) : read16 page off < 2 ^ 16 := by
  have h := ofLE_lt (readAt page off 2)
  rw [length_readAt] at h
  exact h

theorem read16_write16 (h : value < 2 ^ 16) : read16 (write16 page off value) off = value := by
  rw [read16, write16, readAt_writeAt_same _ _ _ (length_toLE 2 value).symm,
    ofLE_toLE_of_lt (by omega)]

theorem readAt_write16 (h : off' + n ≤ off ∨ off + 2 ≤ off') :
    readAt (write16 page off value) off' n = readAt page off' n := by
  rw [write16, readAt_writeAt_of_disjoint (by rw [length_toLE]; exact h)]

theorem read16_write16_of_ne (h : off' + 2 ≤ off ∨ off + 2 ≤ off') :
    read16 (write16 page off value) off' = read16 page off' := by
  rw [read16, readAt_write16 h, read16]

theorem read16_writeAt (h : off' + 2 ≤ off ∨ off + bytes.length ≤ off') :
    read16 (writeAt page off bytes) off' = read16 page off' := by
  rw [read16, readAt_writeAt_of_disjoint h, read16]

end Fields

/-- A difference in 16 bits. -/
def sub16 (a b : Nat) : Nat := (a + (2 ^ 16 - b)) % 2 ^ 16

theorem sub16_eq {a b : Nat} (ha : a < 2 ^ 16) (h : b ≤ a) : sub16 a b = a - b := by
  rw [sub16]
  omega

/-! ## The header and the slots -/

def slotPageHeaderSize : Nat := 24

def slotEntrySize : Nat := 4

/-- `MAX_INLINE_RECORD_SIZE` -/
def maxInlineRecordSize : Nat := dbPageSize - slotPageHeaderSize - slotEntrySize

def pageTypeRecord : UInt8 := 2

def slotCount (page : PageData) : Nat := read16 page 8

def freeSpaceStart (page : PageData) : Nat := read16 page 10

def freeSpaceEnd (page : PageData) : Nat := read16 page 12

def fragmentedSpace (page : PageData) : Nat := read16 page 14

def pageType (page : PageData) : UInt8 := page 16

def slotAt (i : Nat) : Nat := slotPageHeaderSize + i * slotEntrySize

def slotOffset (page : PageData) (i : Nat) : Nat := read16 page (slotAt i)

def slotLength (page : PageData) (i : Nat) : Nat := read16 page (slotAt i + 2)

def setSlot (page : PageData) (i offset length : Nat) : PageData :=
  write16 (write16 page (slotAt i) offset) (slotAt i + 2) length

section Slots

variable {page : PageData} {i j a b : Nat}

theorem readAt_setSlot {off n : Nat} (h : off + n ≤ slotAt i ∨ slotAt i + 4 ≤ off) :
    readAt (setSlot page i a b) off n = readAt page off n := by
  rw [setSlot, readAt_write16 (by omega), readAt_write16 (by omega)]

theorem read16_setSlot {off : Nat} (h : off + 2 ≤ slotAt i ∨ slotAt i + 4 ≤ off) :
    read16 (setSlot page i a b) off = read16 page off := by
  rw [read16, readAt_setSlot h, read16]

theorem slot_setSlot_self (ha : a < 2 ^ 16) (hb : b < 2 ^ 16) :
    slotOffset (setSlot page i a b) i = a ∧ slotLength (setSlot page i a b) i = b := by
  rw [slotOffset, slotLength, setSlot, read16_write16_of_ne (.inl (Nat.le_refl _)), read16_write16 ha,
    read16_write16 hb]
  exact ⟨rfl, rfl⟩

/-- The entries of the directory do not overlap. -/
theorem slotAt_apart (h : i ≠ j) : slotAt j + 4 ≤ slotAt i ∨ slotAt i + 4 ≤ slotAt j := by
  rw [slotAt, slotAt, slotEntrySize]
  omega

theorem slot_setSlot_of_ne (h : i ≠ j) : slotOffset (setSlot page i a b) j = slotOffset page j ∧
    slotLength (setSlot page i a b) j = slotLength page j := by
  have hapart := slotAt_apart h
  rw [slotOffset, slotLength, read16_setSlot (by omega), read16_setSlot (by omega)]
  exact ⟨rfl, rfl⟩

/-- A new offset of one slot changes no length and no other offset. -/
theorem slotLength_write16_slotAt (page : PageData) (i j a : Nat) :
    slotLength (write16 page (slotAt i) a) j = slotLength page j := by
  refine read16_write16_of_ne ?_
  rw [slotAt, slotAt, slotEntrySize]
  omega

theorem slotOffset_write16_slotAt (h : i ≠ j) :
    slotOffset (write16 page (slotAt i) a) j = slotOffset page j := by
  have hapart := slotAt_apart h
  exact read16_write16_of_ne (by omega)

theorem slotAt_mono (h : i < j) : slotAt i + 4 ≤ slotAt j := by
  rw [slotAt, slotAt, slotEntrySize]
  omega

theorem header_le_slotAt (i : Nat) : 24 ≤ slotAt i := Nat.le_add_right _ _

end Slots

def SlotDeleted (page : PageData) (i : Nat) : Prop := slotOffset page i = 0 ∧ slotLength page i = 0

instance (page : PageData) (i : Nat) : Decidable (SlotDeleted page i) :=
  inferInstanceAs (Decidable (_ ∧ _))

/-! ## The operations -/

/-- `slot_page_init` -/
def slotPageInit (pageId : Nat) : PageData :=
  let page := writeAt zeroPage 0 (toLE 4 pageId)
  let page := writeAt page 16 [pageTypeRecord]
  let page := write16 page 8 0
  let page := write16 page 10 slotPageHeaderSize
  let page := write16 page 12 dbPageSize
  write16 page 14 0

/-- The contiguous free space. -/
def contiguous (page : PageData) : Nat := sub16 (freeSpaceEnd page) (freeSpaceStart page)

/-- `slot_page_free_space` -/
def slotPageFreeSpace (page : PageData) : Nat := (contiguous page + fragmentedSpace page) % 2 ^ 16

/-- The state of the loop of `slot_page_compact`. -/
structure Compaction where
  page : PageData
  temp : PageData
  newEnd : Nat

/-- One round: the record of slot `i` is copied below those before it. -/
def Compaction.move (st : Compaction) (i : Nat) : Compaction :=
  if SlotDeleted st.page i then st
  else
    let newEnd := sub16 st.newEnd (slotLength st.page i)
    { page := write16 st.page (slotAt i) newEnd
      temp := writeAt st.temp newEnd (readAt st.page (slotOffset st.page i) (slotLength st.page i))
      newEnd := newEnd }

/-- What follows the loop.  The buffer on the stack is not initialised, but what is
copied back of it has been written. -/
def Compaction.copyBack (st : Compaction) : PageData :=
  let page :=
    if st.newEnd < dbPageSize then
      writeAt st.page st.newEnd (readAt st.temp st.newEnd (dbPageSize - st.newEnd))
    else st.page
  write16 (write16 page 12 st.newEnd) 14 0

/-- `slot_page_compact` -/
def slotPageCompact (page : PageData) : PageData :=
  if fragmentedSpace page = 0 then page
  else
    ((List.range (slotCount page)).foldl Compaction.move ⟨page, zeroPage, dbPageSize⟩).copyBack

/-- The first deleted slot. -/
def reuseSlot (page : PageData) : Option Nat :=
  (List.range (slotCount page)).find? fun i => SlotDeleted page i

/-- Where the next record goes. -/
def recordOffset (page : PageData) (data : List UInt8) : Nat := sub16 (freeSpaceEnd page) data.length

/-- The record copied to the end of the free space. -/
def copyRecord (page : PageData) (data : List UInt8) : PageData :=
  writeAt (write16 page 12 (recordOffset page data)) (recordOffset page data) data

/-- The end of `slot_page_insert`, once there is room. -/
def placeRecord (page : PageData) (reuse : Option Nat) (data : List UInt8) : Nat × PageData :=
  let offset := recordOffset page data
  let page := copyRecord page data
  match reuse with
  | some i => (i, setSlot page i offset data.length)
  | none =>
    let i := slotCount page
    let page := write16 (setSlot page i offset data.length) 8 ((i + 1) % 2 ^ 16)
    (i, write16 page 10 ((freeSpaceStart page + slotEntrySize) % 2 ^ 16))

/-- `slot_page_insert`: the index of the slot or the error, and the page. -/
def slotPageInsert (page : PageData) (data : List UInt8) : Except NostrDBError Nat × PageData :=
  if data.length = 0 then (.error .nullParam, page)
  else
    let reuse := reuseSlot page
    let needed := if reuse.isSome then data.length else (data.length + slotEntrySize) % 2 ^ 16
    let compacted :=
      if contiguous page < needed ∧ needed ≤ contiguous page + fragmentedSpace page then
        slotPageCompact page
      else page
    if contiguous compacted < needed then (.error .full, compacted)
    else
      let r := placeRecord compacted reuse data
      (.ok r.1, r.2)

/-- `slot_page_read` with an output of `capacity` bytes: the length of the record and the
bytes copied. -/
def slotPageRead (page : PageData) (i capacity : Nat) : Except NostrDBError (Nat × List UInt8) :=
  if slotCount page ≤ i then .error .notFound
  else if SlotDeleted page i then .error .notFound
  else .ok (slotLength page i, readAt page (slotOffset page i) (min capacity (slotLength page i)))

/-- `slot_page_delete` -/
def slotPageDelete (page : PageData) (i : Nat) : NostrDBError × PageData :=
  if slotCount page ≤ i then (.notFound, page)
  else if SlotDeleted page i then (.notFound, page)
  else
    let page := write16 page 14 ((fragmentedSpace page + slotLength page i) % 2 ^ 16)
    (.ok, setSlot page i 0 0)

/-- The part of `record_update` that overwrites a record with one that is not longer. -/
def updateInPlace (page : PageData) (i : Nat) (data : List UInt8) : PageData :=
  let page := writeAt page (slotOffset page i) data
  if data.length < slotLength page i then
    let freed := slotLength page i - data.length
    write16 (write16 page 14 ((fragmentedSpace page + freed) % 2 ^ 16)) (slotAt i + 2) data.length
  else page

end OnionRelay.Db
