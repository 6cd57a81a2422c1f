import OnionRelay.Db.Record.SlotPage

/-!
# The layout of a record page

What a record page is for: a list of slots, each with a record or deleted
(`Slots`).  `Layout` says that a page holds such a list: the counters add up, the
directory ends where the free space starts, and the records lie apart behind the free
space.
-/

namespace OnionRelay.Db

open OnionRelay.Lib

/-! ## The slots a page stands for -/

abbrev Slots := List (Option (List UInt8))

namespace Slots

/-- The bytes of a slot; a deleted one has none. -/
def size : Option (List UInt8) → Nat
  | none => 0
  | some bytes => bytes.length

/-- The bytes of the live records. -/
def bytes (slots : Slots) : Nat := (slots.map size).sum

/-- What is neither header, directory nor live record. -/
def free (slots : Slots) : Nat :=
  dbPageSize - slotPageHeaderSize - slots.length * slotEntrySize - slots.bytes

/-- The record of a slot, if there is one. -/
def record (slots : Slots) (i : Nat) : Option (List UInt8) := slots[i]?.join

theorem record_eq_some {slots : Slots} {i : Nat} {bytes : List UInt8} :
    slots.record i = some bytes ↔ slots[i]? = some (some bytes) := Option.join_eq_some_iff

/-- What a read of it into `capacity` bytes returns. -/
def read (slots : Slots) (i capacity : Nat) : Except NostrDBError (Nat × List UInt8) :=
  match slots.record i with
  | none => .error .notFound
  | some bytes => .ok (bytes.length, bytes.take capacity)

/-- The first deleted slot. -/
def vacant (slots : Slots) : Option Nat := slots.findIdx? Option.isNone

/-- The free bytes that a record takes. -/
def needed (slots : Slots) (data : List UInt8) : Nat :=
  if slots.vacant.isSome then data.length else data.length + slotEntrySize

/-- The record goes into the first deleted slot, or else behind the last. -/
def insert (slots : Slots) (data : List UInt8) : Nat × Slots :=
  match slots.vacant with
  | some i => (i, slots.set i (some data))
  | none => (slots.length, slots ++ [some data])

theorem bytes_append (slots slots' : Slots) : bytes (slots ++ slots') = bytes slots + bytes slots' := by
  rw [bytes, List.map_append, List.sum_append, bytes, bytes]

theorem bytes_set : ∀ {slots : Slots} {i : Nat} {old : Option (List UInt8)}, slots[i]? = some old →
    ∀ new : Option (List UInt8), bytes (slots.set i new) + size old = bytes slots + size new := by
  intro slots
  induction slots with
  | nil => exact nofun
  | cons slot slots ih =>
    intro i old hold new
    cases i with
    | zero =>
      obtain rfl := Option.some.inj hold
      rw [List.set_cons_zero, bytes, bytes, List.map_cons, List.map_cons, List.sum_cons, List.sum_cons]
      omega
    | succ i =>
      have hrest := ih (List.getElem?_cons_succ ▸ hold) new
      rw [List.set_cons_succ, bytes, bytes, List.map_cons, List.map_cons, List.sum_cons, List.sum_cons]
      rw [bytes, bytes] at hrest
      omega

theorem bytes_take_le (slots : Slots) (n : Nat) : bytes (slots.take n) ≤ slots.bytes := by
  conv_rhs => rw [← List.take_append_drop n slots, bytes_append]
  exact Nat.le_add_right _ _

theorem size_le_bytes {slots : Slots} {i : Nat} {slot : Option (List UInt8)}
    (h : slots[i]? = some slot) : size slot ≤ slots.bytes := by
  have hset := bytes_set h none
  rw [size.eq_def none] at hset
  dsimp only at hset
  omega

end Slots

/-! ## Pages that hold them -/

/-- Slot `i` of the page has this record. -/
structure Stored (page : PageData) (i : Nat) (bytes : List UInt8) : Prop where
  nonempty : bytes ≠ []
  length : slotLength page i = bytes.length
  behind : freeSpaceEnd page ≤ slotOffset page i
  inside : slotOffset page i + bytes.length ≤ dbPageSize
  content : readAt page (slotOffset page i) bytes.length = bytes

/-- Two slots have records at different places. -/
def Apart (page : PageData) (i j : Nat) : Prop :=
  slotOffset page i + slotLength page i ≤ slotOffset page j ∨
    slotOffset page j + slotLength page j ≤ slotOffset page i

/-- **The invariant of a record page.** -/
structure Layout (page : PageData) (slots : Slots) : Prop where
  count : slotCount page = slots.length
  start : freeSpaceStart page = slotAt slots.length
  room : slotAt slots.length ≤ freeSpaceEnd page
  accounts : freeSpaceEnd page + fragmentedSpace page + slots.bytes = dbPageSize
  deleted : ∀ i, slots[i]? = some none → SlotDeleted page i
  stored : ∀ i bytes, slots[i]? = some (some bytes) → Stored page i bytes
  apart : ∀ i j bytes bytes', slots[i]? = some (some bytes) → slots[j]? = some (some bytes') →
    i ≠ j → Apart page i j

namespace Layout

variable {page : PageData} {slots : Slots}

theorem slotAt_le (h : Layout page slots) {i : Nat} (hi : i < slots.length) :
    slotAt i + 4 ≤ freeSpaceEnd page := by
  have hroom := h.room
  rw [slotAt, slotPageHeaderSize, slotEntrySize] at *
  omega

theorem freeSpaceEnd_le (h : Layout page slots) : freeSpaceEnd page ≤ dbPageSize := by
  have haccounts := h.accounts
  omega

/-- A live slot is not taken for a deleted one. -/
theorem not_slotDeleted {i : Nat} {bytes : List UInt8} (h : Stored page i bytes) : ¬ SlotDeleted page i := by
  rintro ⟨-, hlength⟩
  exact h.nonempty (List.eq_nil_of_length_eq_zero (h.length ▸ hlength))

theorem slotDeleted_iff (h : Layout page slots) {i : Nat} {slot : Option (List UInt8)}
    (hi : slots[i]? = some slot) : SlotDeleted page i ↔ slot = none := by
  cases slot with
  | none => exact iff_of_true (h.deleted i hi) rfl
  | some bytes => exact iff_of_false (not_slotDeleted (h.stored i bytes hi)) nofun

/-- **A live slot reads its record.** -/
theorem slotPageRead_eq (h : Layout page slots) (i capacity : Nat) :
    slotPageRead page i capacity = slots.read i capacity := by
  rw [slotPageRead, h.count, Slots.read, Slots.record]
  cases hi : slots[i]? with
  | none => exact if_pos (List.getElem?_eq_none_iff.mp hi)
  | some slot =>
    obtain ⟨hlt, -⟩ := List.getElem?_eq_some_iff.mp hi
    rw [if_neg (Nat.not_le_of_lt hlt)]
    cases slot with
    | none => exact if_pos (h.deleted i hi)
    | some bytes =>
      obtain ⟨hne, hlength, -, -, hcontent⟩ := h.stored i bytes hi
      rw [if_neg (not_slotDeleted (h.stored i bytes hi)), hlength,
        ← readAt_take page _ (Nat.min_le_right capacity bytes.length), hcontent]
      exact congrArg (fun l => Except.ok (bytes.length, l)) List.take_eq_take_min.symm

theorem contiguous_eq (h : Layout page slots) :
    contiguous page = freeSpaceEnd page - slotAt slots.length := by
  have hroom := h.room
  rw [← h.start] at hroom ⊢
  exact sub16_eq (read16_lt page 12) hroom

/-- The free space that the page counts is all there is. -/
theorem free_eq (h : Layout page slots) : contiguous page + fragmentedSpace page = slots.free := by
  have haccounts := h.accounts
  have hroom := h.room
  rw [h.contiguous_eq, Slots.free]
  rw [slotAt] at *
  omega

theorem decide_slotDeleted (h : Layout page slots) {i : Nat} (hi : i < slots.length) :
    decide (SlotDeleted page i) = slots[i].isNone := by
  rw [Bool.eq_iff_iff, decide_eq_true_iff, h.slotDeleted_iff (List.getElem?_eq_getElem hi),
    Option.isNone_iff_eq_none]

theorem reuseSlot_eq (h : Layout page slots) : reuseSlot page = slots.vacant := by
  rw [reuseSlot, h.count, Slots.vacant]
  cases hvacant : slots.findIdx? Option.isNone with
  | none =>
    rw [List.findIdx?_eq_none_iff] at hvacant
    refine List.find?_range_eq_none.mpr fun i hi => ?_
    rw [h.decide_slotDeleted hi, hvacant _ (List.getElem_mem hi)]
    rfl
  | some i =>
    obtain ⟨hi, hnone, hbefore⟩ := List.findIdx?_eq_some_iff_getElem.mp hvacant
    refine List.find?_range_eq_some.mpr ⟨?_, List.mem_range.mpr hi, fun j hj => ?_⟩
    · rw [h.decide_slotDeleted hi, hnone]
    · rw [h.decide_slotDeleted (Nat.lt_trans hj hi), Bool.eq_false_of_not_eq_true (hbefore j hj)]
      rfl

/-- **The frame rule.**  A change of one slot that leaves the others and their records. -/
theorem replace (h : Layout page slots) {page' : PageData} {slots' : Slots} {i : Nat}
    (hslots : ∀ j, j ≠ i → slots'[j]? = slots[j]?)
    (hframe : ∀ j < slots.length, j ≠ i → slotOffset page' j = slotOffset page j ∧
      slotLength page' j = slotLength page j)
    (hcontent : ∀ j bytes, j ≠ i → slots[j]? = some (some bytes) →
      readAt page' (slotOffset page j) bytes.length = bytes)
    (hend : freeSpaceEnd page' ≤ freeSpaceEnd page)
    (hcount : slotCount page' = slots'.length) (hstart : freeSpaceStart page' = slotAt slots'.length)
    (hroom : slotAt slots'.length ≤ freeSpaceEnd page')
    (haccounts : freeSpaceEnd page' + fragmentedSpace page' + slots'.bytes = dbPageSize)
    (hdeleted : slots'[i]? = some none → SlotDeleted page' i)
    (hstored : ∀ bytes, slots'[i]? = some (some bytes) → Stored page' i bytes)
    (hapart : ∀ bytes, slots'[i]? = some (some bytes) → ∀ j bytes', j ≠ i →
      slots[j]? = some (some bytes') → Apart page' i j) :
    Layout page' slots' where
  count := hcount
  start := hstart
  room := hroom
  accounts := haccounts
  deleted := by
    intro j hj
    by_cases hji : j = i
    · subst hji
      exact hdeleted hj
    · rw [hslots j hji] at hj
      obtain ⟨hoffset, hlength⟩ := hframe j (List.getElem?_eq_some_iff.mp hj).1 hji
      rw [SlotDeleted, hoffset, hlength]
      exact h.deleted j hj
  stored := by
    intro j bytes hj
    by_cases hji : j = i
    · subst hji
      exact hstored bytes hj
    · rw [hslots j hji] at hj
      obtain ⟨hne, hlength, hbehind, hinside, -⟩ := h.stored j bytes hj
      obtain ⟨hoffset, hlen⟩ := hframe j (List.getElem?_eq_some_iff.mp hj).1 hji
      exact ⟨hne, hlen.trans hlength, by omega, by omega, hoffset ▸ hcontent j bytes hji hj⟩
  apart := by
    intro j k bytes bytes' hj hk hne
    by_cases hji : j = i
    · subst hji
      exact hapart bytes hj k bytes' hne.symm (hslots k hne.symm ▸ hk)
    by_cases hki : k = i
    · subst hki
      exact (hapart bytes' hk j bytes hji (hslots j hji ▸ hj)).symm
    · rw [hslots j hji] at hj
      rw [hslots k hki] at hk
      obtain ⟨hoffset, hlength⟩ := hframe j (List.getElem?_eq_some_iff.mp hj).1 hji
      obtain ⟨hoffset', hlength'⟩ := hframe k (List.getElem?_eq_some_iff.mp hk).1 hki
      rw [Apart, hoffset, hlength, hoffset', hlength']
      exact h.apart j k bytes bytes' hj hk hne

end Layout

/-! ## The operations -/

theorem layout_slotPageInit (pageId : Nat) : Layout (slotPageInit pageId) [] := by
  have hcount : slotCount (slotPageInit pageId) = 0 := by
    rw [slotCount, slotPageInit, read16_write16_of_ne (by omega), read16_write16_of_ne (by omega),
      read16_write16_of_ne (by omega), read16_write16 (by omega)]
  have hstart : freeSpaceStart (slotPageInit pageId) = 24 := by
    rw [freeSpaceStart, slotPageInit, read16_write16_of_ne (by omega), read16_write16_of_ne (by omega),
      read16_write16 (by decide), slotPageHeaderSize]
  have hend : freeSpaceEnd (slotPageInit pageId) = 4096 := by
    rw [freeSpaceEnd, slotPageInit, read16_write16_of_ne (by omega), read16_write16 (by decide), dbPageSize]
  have hfragmented : fragmentedSpace (slotPageInit pageId) = 0 := by
    rw [fragmentedSpace, slotPageInit, read16_write16 (by omega)]
  refine ⟨hcount, hstart, ?_, ?_, nofun, nofun, nofun⟩
  · rw [hend]
    decide
  · rw [hend, hfragmented]
    rfl

namespace Layout

variable {page : PageData} {slots : Slots} {data : List UInt8}

theorem bytes_le (h : Layout page slots) : slots.bytes ≤ dbPageSize - freeSpaceEnd page := by
  have haccounts := h.accounts
  omega

theorem readAt_copyRecord_self (page : PageData) (data : List UInt8) :
    readAt (copyRecord page data) (recordOffset page data) data.length = data := by
  rw [copyRecord, readAt_writeAt_same _ _ _ rfl]

section Copy

variable (h : Layout page slots) (hfits : data.length ≤ freeSpaceEnd page - slotAt slots.length)

include h hfits

theorem recordOffset_eq : recordOffset page data = freeSpaceEnd page - data.length ∧
    slotAt slots.length ≤ recordOffset page data := by
  have hroom := h.room
  have heq : recordOffset page data = freeSpaceEnd page - data.length :=
    sub16_eq (read16_lt page 12) (by omega)
  omega

theorem read16_copyRecord {off : Nat} (hoff : off + 2 ≤ 12 ∨ 14 ≤ off) (hlow : off + 2 ≤ slotAt slots.length) :
    read16 (copyRecord page data) off = read16 page off := by
  obtain ⟨-, hle⟩ := h.recordOffset_eq hfits
  rw [copyRecord, read16_writeAt (.inl (by omega)), read16_write16_of_ne (by omega)]

theorem freeSpaceEnd_copyRecord : freeSpaceEnd (copyRecord page data) = recordOffset page data := by
  obtain ⟨heq, hle⟩ := h.recordOffset_eq hfits
  have hlow := header_le_slotAt slots.length
  have hlt := read16_lt page 12
  rw [freeSpaceEnd] at heq
  rw [freeSpaceEnd, copyRecord, read16_writeAt (.inl (by omega)), read16_write16 (by omega)]

theorem readAt_copyRecord {off n : Nat} (hoff : freeSpaceEnd page ≤ off) :
    readAt (copyRecord page data) off n = readAt page off n := by
  obtain ⟨heq, -⟩ := h.recordOffset_eq hfits
  have hroom := h.room
  have hlow := header_le_slotAt slots.length
  rw [copyRecord, readAt_writeAt_of_disjoint (.inr (by omega)), readAt_write16 (.inr (by omega))]

theorem slot_copyRecord {j : Nat} (hj : j < slots.length) :
    slotOffset (copyRecord page data) j = slotOffset page j ∧
      slotLength (copyRecord page data) j = slotLength page j := by
  have hlow := header_le_slotAt j
  have hbelow := slotAt_mono hj
  rw [slotOffset, slotLength, h.read16_copyRecord hfits (by omega) (by omega),
    h.read16_copyRecord hfits (by omega) (by omega)]
  exact ⟨rfl, rfl⟩

end Copy

/-- The page with the record copied and entered as slot `i`; the counters of the
directory may still be the old ones. -/
structure Placed (page page' : PageData) (slots : Slots) (data : List UInt8) (i : Nat) : Prop where
  frame : ∀ j < slots.length, j ≠ i → slotOffset page' j = slotOffset page j ∧
    slotLength page' j = slotLength page j
  offset : slotOffset page' i = recordOffset page data
  length : slotLength page' i = data.length
  free : freeSpaceEnd page' = recordOffset page data
  fragmented : fragmentedSpace page' = fragmentedSpace page
  kept : ∀ off n, freeSpaceEnd page ≤ off → readAt page' off n = readAt page off n
  content : readAt page' (recordOffset page data) data.length = data

theorem placed_setSlot (h : Layout page slots)
    (hfits : data.length ≤ freeSpaceEnd page - slotAt slots.length) {i : Nat}
    (hslot : slotAt i + 4 ≤ recordOffset page data) :
    Placed page (setSlot (copyRecord page data) i (recordOffset page data) data.length) slots data i := by
  obtain ⟨hoffset, hroom⟩ := h.recordOffset_eq hfits
  have hend := h.freeSpaceEnd_le
  have hsize : dbPageSize = 4096 := rfl
  have hlow := header_le_slotAt i
  have hlow' := header_le_slotAt slots.length
  obtain ⟨hself, hselfLength⟩ := @slot_setSlot_self (copyRecord page data) i (recordOffset page data)
    data.length (by omega) (by omega)
  refine ⟨?_, hself, hselfLength, ?_, ?_, ?_, ?_⟩
  · intro j hj hne
    obtain ⟨hoff, hlen⟩ := @slot_setSlot_of_ne (copyRecord page data) i j (recordOffset page data)
      data.length hne.symm
    obtain ⟨hoff', hlen'⟩ := h.slot_copyRecord hfits hj
    exact ⟨hoff.trans hoff', hlen.trans hlen'⟩
  · rw [freeSpaceEnd, read16_setSlot (by omega)]
    exact h.freeSpaceEnd_copyRecord hfits
  · rw [fragmentedSpace, read16_setSlot (by omega), h.read16_copyRecord hfits (by omega) (by omega),
      fragmentedSpace]
  · intro off n hoff
    rw [readAt_setSlot (.inr (by omega)), h.readAt_copyRecord hfits hoff]
  · rw [readAt_setSlot (.inr (by omega)), readAt_copyRecord_self]

/-- The counters of the directory are written last. -/
theorem Placed.write16 {page' : PageData} {i : Nat} (h : Layout page slots)
    (hplaced : Placed page page' slots data i) (hfits : data.length ≤ freeSpaceEnd page - slotAt slots.length)
    {off : Nat} (hoff : off + 2 ≤ 12) (value : Nat) :
    Placed page (write16 page' off value) slots data i := by
  obtain ⟨-, hroom⟩ := h.recordOffset_eq hfits
  have hlow := header_le_slotAt slots.length
  have hdir := h.room
  have hslot : ∀ j, slotOffset (Db.write16 page' off value) j = slotOffset page' j ∧
      slotLength (Db.write16 page' off value) j = slotLength page' j := by
    intro j
    have hlowj := header_le_slotAt j
    rw [slotOffset, slotLength, read16_write16_of_ne (.inr (by omega)),
      read16_write16_of_ne (.inr (by omega))]
    exact ⟨rfl, rfl⟩
  refine ⟨?_, (hslot i).1.trans hplaced.offset, (hslot i).2.trans hplaced.length, ?_, ?_, ?_, ?_⟩
  · intro j hj hne
    rw [(hslot j).1, (hslot j).2]
    exact hplaced.frame j hj hne
  · exact (read16_write16_of_ne (.inr hoff)).trans hplaced.free
  · exact (read16_write16_of_ne (.inr (by omega))).trans hplaced.fragmented
  · intro off' n hoff'
    rw [readAt_write16 (.inr (by omega)), hplaced.kept off' n hoff']
  · rw [readAt_write16 (.inr (by omega)), hplaced.content]

theorem Placed.layout {page' : PageData} {i : Nat} (h : Layout page slots)
    (hplaced : Placed page page' slots data i) (hdata : data ≠ [])
    (hfits : data.length ≤ freeSpaceEnd page - slotAt slots.length) {slots' : Slots}
    (hslots : ∀ j, j ≠ i → slots'[j]? = slots[j]?) (hself : slots'[i]? = some (some data))
    (hbytes : slots'.bytes = slots.bytes + data.length) (hcount : slotCount page' = slots'.length)
    (hstart : freeSpaceStart page' = slotAt slots'.length)
    (hroom : slotAt slots'.length ≤ recordOffset page data) : Layout page' slots' := by
  obtain ⟨hoffset, -⟩ := h.recordOffset_eq hfits
  have hend := h.freeSpaceEnd_le
  have hdir := h.room
  have haccounts := h.accounts
  refine h.replace hslots hplaced.frame ?_ ?_ hcount hstart ?_ ?_ ?_ ?_ ?_
  · intro j bytes _ hj
    have hstored := h.stored j bytes hj
    rw [hplaced.kept _ _ hstored.behind]
    exact hstored.content
  · rw [hplaced.free]
    omega
  · rw [hplaced.free]
    exact hroom
  · rw [hplaced.free, hplaced.fragmented, hbytes]
    omega
  · intro hnone
    exact absurd (hself.symm.trans hnone) nofun
  · intro bytes hbytes'
    obtain rfl := Option.some.inj (Option.some.inj (hself.symm.trans hbytes'))
    refine ⟨hdata, hplaced.length, ?_, ?_, ?_⟩
    · rw [hplaced.free, hplaced.offset]
    · rw [hplaced.offset]
      omega
    · rw [hplaced.offset, hplaced.content]
  · intro bytes _ j bytes' hne hj
    have hbehind := (h.stored j bytes' hj).behind
    refine .inl ?_
    rw [hplaced.offset, hplaced.length, (hplaced.frame j (List.getElem?_eq_some_iff.mp hj).1 hne).1]
    omega

/-- **A record is placed** where the list of slots has it. -/
theorem placeRecord_eq (h : Layout page slots) (hdata : data ≠ [])
    (hfits : slots.needed data ≤ freeSpaceEnd page - slotAt slots.length) :
    (placeRecord page slots.vacant data).1 = (slots.insert data).1 ∧
      Layout (placeRecord page slots.vacant data).2 (slots.insert data).2 := by
  have hsize : dbPageSize = 4096 := rfl
  have hend := h.freeSpaceEnd_le
  rw [Slots.insert]
  rw [Slots.needed] at hfits
  cases hvacant : slots.vacant with
  | some i =>
    rw [hvacant] at hfits
    obtain ⟨hoffset, hroom⟩ := h.recordOffset_eq hfits
    obtain ⟨hi, hnone, -⟩ := List.findIdx?_eq_some_iff_getElem.mp hvacant
    have hold : slots[i]? = some none := by
      rw [List.getElem?_eq_getElem hi, Option.isNone_iff_eq_none.mp hnone]
    have hslot := slotAt_mono hi
    have hbytes := Slots.bytes_set hold (some data)
    have hlow := header_le_slotAt i
    refine ⟨rfl, (h.placed_setSlot hfits (by omega)).layout h hdata hfits
      (fun j hj => List.getElem?_set_ne hj.symm) (List.getElem?_set_self hi) hbytes ?_ ?_ ?_⟩
    · rw [slotCount, read16_setSlot (by omega), h.read16_copyRecord hfits (by omega) (by omega),
        List.length_set]
      exact h.count
    · rw [freeSpaceStart, read16_setSlot (by omega), h.read16_copyRecord hfits (by omega) (by omega),
        List.length_set]
      exact h.start
    · rw [List.length_set]
      exact hroom
  | none =>
    rw [hvacant] at hfits
    have hfits' : data.length + 4 ≤ freeSpaceEnd page - slotAt slots.length := hfits
    have hshort : data.length ≤ freeSpaceEnd page - slotAt slots.length := by omega
    obtain ⟨hoffset, -⟩ := h.recordOffset_eq hshort
    have hlow := header_le_slotAt slots.length
    have hdir := h.room
    have hnext : slotAt (slots.length + 1) = slotAt slots.length + 4 := by
      rw [slotAt, slotAt, Nat.add_mul, Nat.one_mul, Nat.add_assoc, slotEntrySize]
    have hlength : slots.length < 4096 := by
      rw [slotAt, slotEntrySize] at hdir
      omega
    have hcount : slotCount (copyRecord page data) = slots.length := by
      rw [slotCount, h.read16_copyRecord hshort (by omega) (by omega)]
      exact h.count
    have hstart : freeSpaceStart (copyRecord page data) = slotAt slots.length := by
      rw [freeSpaceStart, h.read16_copyRecord hshort (by omega) (by omega)]
      exact h.start
    have hcounted := (h.placed_setSlot hshort (show slotAt slots.length + 4 ≤ _ by omega)).write16 h hshort
      (show 8 + 2 ≤ 12 by decide)
    have hplaced := (hcounted ((slots.length + 1) % 2 ^ 16)).write16 h hshort
      (show 10 + 2 ≤ 12 by decide) ((slotAt slots.length + 4) % 2 ^ 16)
    have hpage : (placeRecord page none data).2 = write16 (write16 (setSlot (copyRecord page data)
        slots.length (recordOffset page data) data.length) 8 ((slots.length + 1) % 2 ^ 16)) 10
          ((slotAt slots.length + 4) % 2 ^ 16) := by
      rw [placeRecord]
      dsimp only
      rw [hcount, freeSpaceStart, read16_write16_of_ne (.inr (by omega)), read16_setSlot (.inl (by omega)),
        ← freeSpaceStart, hstart, slotEntrySize]
    refine ⟨hcount, ?_⟩
    dsimp only
    rw [hpage]
    refine hplaced.layout h hdata hshort ?_ ?_ ?_ ?_ ?_ ?_
    · intro j hj
      by_cases hlt : j < slots.length
      · exact List.getElem?_append_left hlt
      · have hlength : (slots ++ [some data]).length ≤ j := by
          rw [List.length_append, List.length_singleton]
          omega
        rw [List.getElem?_eq_none hlength, List.getElem?_eq_none (Nat.le_of_not_lt hlt)]
    · exact List.getElem?_concat_length
    · rw [Slots.bytes_append]
      rfl
    · rw [slotCount, read16_write16_of_ne (.inl (by omega)), read16_write16 (Nat.mod_lt _ (by decide)),
        List.length_append, List.length_singleton]
      omega
    · rw [freeSpaceStart, read16_write16 (Nat.mod_lt _ (by decide)), List.length_append,
        List.length_singleton, hnext]
      omega
    · rw [List.length_append, List.length_singleton, hnext]
      omega

end Layout

end OnionRelay.Db
