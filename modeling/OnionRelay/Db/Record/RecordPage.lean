import OnionRelay.Db.Record.Compaction

/-!
# A record page is a map

Every operation of `slot_page.c` does to the page what it does to the list of slots,
and keeps the layout; so a page is a map from slots to records after any run of them
(`slotPage_isMap`).
-/

namespace OnionRelay.Db

open OnionRelay.Lib

namespace Layout

variable {page : PageData} {slots : Slots} {data : List UInt8}

section Insert

variable (h : Layout page slots) (hdata : data ≠ []) (hlength : data.length + 4 < 2 ^ 16)

include h hdata hlength

/-- The choice that `slot_page_insert` makes, in terms of the slots. -/
theorem slotPageInsert_cases : slotPageInsert page data =
    if contiguous page < slots.needed data ∧ slots.needed data ≤ slots.free then
      if contiguous (slotPageCompact page) < slots.needed data then
        (.error .full, slotPageCompact page)
      else
        (.ok (placeRecord (slotPageCompact page) slots.vacant data).1,
          (placeRecord (slotPageCompact page) slots.vacant data).2)
    else if contiguous page < slots.needed data then (.error .full, page)
    else (.ok (placeRecord page slots.vacant data).1, (placeRecord page slots.vacant data).2) := by
  have hneeded : (if (reuseSlot page).isSome then data.length else (data.length + slotEntrySize) % 2 ^ 16) =
      slots.needed data := by
    rw [h.reuseSlot_eq, Slots.needed, slotEntrySize, Nat.mod_eq_of_lt hlength]
  rw [slotPageInsert, if_neg (fun h0 => hdata (List.eq_nil_of_length_eq_zero h0))]
  dsimp only
  rw [hneeded, h.free_eq, h.reuseSlot_eq]
  split <;> rfl

/-- **A record is inserted** if the free space suffices, wherever it lies. -/
theorem slotPageInsert_of_le (hroom : slots.needed data ≤ slots.free) :
    (slotPageInsert page data).1 = .ok (slots.insert data).1 ∧
      Layout (slotPageInsert page data).2 (slots.insert data).2 := by
  obtain ⟨hcompact, hzero⟩ := h.slotPageCompact_eq
  have hfree := h.free_eq
  have hfree' := hcompact.free_eq
  rw [hzero, Nat.add_zero] at hfree'
  rw [h.slotPageInsert_cases hdata hlength]
  split
  · rw [if_neg (by omega)]
    have hfits : slots.needed data ≤ freeSpaceEnd (slotPageCompact page) - slotAt slots.length := by
      rw [← hcompact.contiguous_eq, hfree']
      exact hroom
    obtain ⟨hindex, hlayout⟩ := hcompact.placeRecord_eq hdata hfits
    exact ⟨congrArg Except.ok hindex, hlayout⟩
  · next hnot =>
    have hcontiguous : slots.needed data ≤ contiguous page := by omega
    rw [if_neg (Nat.not_lt_of_le hcontiguous)]
    rw [h.contiguous_eq] at hcontiguous
    obtain ⟨hindex, hlayout⟩ := h.placeRecord_eq hdata hcontiguous
    exact ⟨congrArg Except.ok hindex, hlayout⟩

theorem slotPageInsert_of_lt (hfull : slots.free < slots.needed data) :
    slotPageInsert page data = (.error .full, page) := by
  have hfree := h.free_eq
  have hnot : ¬ (contiguous page < slots.needed data ∧ slots.needed data ≤ slots.free) := by omega
  rw [h.slotPageInsert_cases hdata hlength, if_neg hnot, if_pos (by omega)]

end Insert

theorem slotPageDelete_of_none (h : Layout page slots) {i : Nat} (hi : slots.record i = none) :
    slotPageDelete page i = (.notFound, page) := by
  rw [slotPageDelete, h.count]
  by_cases hlt : i < slots.length
  · rw [if_neg (Nat.not_le_of_lt hlt)]
    refine if_pos (h.deleted i ?_)
    rw [Slots.record, List.getElem?_eq_getElem hlt] at hi
    rw [List.getElem?_eq_getElem hlt]
    exact congrArg some hi
  · exact if_pos (Nat.le_of_not_lt hlt)

/-- **A record is deleted.** -/
theorem slotPageDelete_of_some (h : Layout page slots) {i : Nat} {bytes : List UInt8}
    (hi : slots[i]? = some (some bytes)) :
    (slotPageDelete page i).1 = .ok ∧ Layout (slotPageDelete page i).2 (slots.set i none) := by
  obtain ⟨hlt, -⟩ := List.getElem?_eq_some_iff.mp hi
  obtain ⟨hne, hlength, -, -, -⟩ := h.stored i bytes hi
  rw [slotPageDelete, h.count, if_neg (Nat.not_le_of_lt hlt),
    if_neg (not_slotDeleted (h.stored i bytes hi)), hlength]
  refine ⟨rfl, ?_⟩
  dsimp only
  have hsize : dbPageSize = 4096 := rfl
  have hlow := header_le_slotAt i
  have hmono := slotAt_mono hlt
  have hdir := h.room
  have haccounts := h.accounts
  have hbytes := Slots.bytes_set hi none
  have hle := Slots.size_le_bytes hi
  rw [Slots.size, Slots.size] at hbytes
  rw [Slots.size] at hle
  have hheader : ∀ off, off + 2 ≤ 14 → read16 (setSlot (write16 page 14
      ((fragmentedSpace page + bytes.length) % 2 ^ 16)) i 0 0) off = read16 page off := fun off hoff =>
    (read16_setSlot (by omega)).trans (read16_write16_of_ne (.inl hoff))
  have hend : freeSpaceEnd (setSlot (write16 page 14
      ((fragmentedSpace page + bytes.length) % 2 ^ 16)) i 0 0) = freeSpaceEnd page :=
    hheader 12 (Nat.le_refl _)
  have hfragmented : fragmentedSpace (setSlot (write16 page 14
      ((fragmentedSpace page + bytes.length) % 2 ^ 16)) i 0 0) = fragmentedSpace page + bytes.length := by
    rw [fragmentedSpace, read16_setSlot (by omega), read16_write16 (Nat.mod_lt _ (by decide))]
    omega
  refine h.replace (i := i) (fun j hj => List.getElem?_set_ne hj.symm) ?_ ?_ hend.le ?_ ?_ ?_ ?_ ?_ ?_ ?_
  · intro j _ hne
    obtain ⟨hoff, hlen⟩ := @slot_setSlot_of_ne (write16 page 14
      ((fragmentedSpace page + bytes.length) % 2 ^ 16)) i j 0 0 hne.symm
    have hlowj := header_le_slotAt j
    exact ⟨hoff.trans (read16_write16_of_ne (by omega)), hlen.trans (read16_write16_of_ne (by omega))⟩
  · intro j bytes' _ hj
    have hstored := h.stored j bytes' hj
    have hbehind := hstored.behind
    rw [readAt_setSlot (.inr (by omega)), readAt_write16 (.inr (by omega))]
    exact hstored.content
  · rw [List.length_set]
    exact (hheader 8 (by omega)).trans h.count
  · rw [List.length_set]
    exact (hheader 10 (by omega)).trans h.start
  · rw [List.length_set, hend]
    exact hdir
  · rw [hend, hfragmented]
    omega
  · exact fun _ => slot_setSlot_self (by decide) (by decide)
  · intro bytes' hbytes'
    rw [List.getElem?_set_self hlt] at hbytes'
    cases hbytes'
  · intro bytes' hbytes'
    rw [List.getElem?_set_self hlt] at hbytes'
    cases hbytes'

/-- **A record is overwritten** by one that is not longer. -/
theorem updateInPlace_layout (h : Layout page slots) {i : Nat} {bytes : List UInt8}
    (hi : slots[i]? = some (some bytes)) (hdata : data ≠ []) (hle : data.length ≤ bytes.length) :
    Layout (updateInPlace page i data) (slots.set i (some data)) := by
  obtain ⟨hlt, -⟩ := List.getElem?_eq_some_iff.mp hi
  obtain ⟨-, hlength, hbehind, hinside, -⟩ := h.stored i bytes hi
  have hsize : dbPageSize = 4096 := rfl
  have hlow := header_le_slotAt i
  have hmono := slotAt_mono hlt
  have hdir := h.room
  have haccounts := h.accounts
  have hbytes := Slots.bytes_set hi (some data)
  have hleBytes := Slots.size_le_bytes hi
  rw [Slots.size, Slots.size] at hbytes
  rw [Slots.size] at hleBytes
  -- nothing below the directory's end but the counter and the length changes
  have hbelow : ∀ off, off + 2 ≤ slotAt slots.length → off + 2 ≤ 14 ∨ 16 ≤ off →
      off + 2 ≤ slotAt i + 2 ∨ slotAt i + 4 ≤ off →
      read16 (updateInPlace page i data) off = read16 page off := by
    intro off hoff hfield hslot
    rw [updateInPlace]
    dsimp only
    split
    · rw [read16_write16_of_ne (by omega), read16_write16_of_ne (by omega), read16_writeAt (.inl (by omega))]
    · rw [read16_writeAt (.inl (by omega))]
  have habove : ∀ off n, slotAt slots.length ≤ off → readAt (updateInPlace page i data) off n =
      readAt (writeAt page (slotOffset page i) data) off n := by
    intro off n hoff
    rw [updateInPlace]
    dsimp only
    split
    · rw [readAt_write16 (.inr (by omega)), readAt_write16 (.inr (by omega))]
    · rfl
  have hwritten : ∀ off, off + 2 ≤ slotAt slots.length →
      read16 (writeAt page (slotOffset page i) data) off = read16 page off := fun off hoff =>
    read16_writeAt (.inl (by omega))
  have hlen : slotLength (updateInPlace page i data) i = data.length := by
    have hold : slotLength (writeAt page (slotOffset page i) data) i = bytes.length :=
      (hwritten _ (by omega)).trans hlength
    rw [updateInPlace]
    dsimp only
    rw [hold]
    split
    · exact read16_write16 (by omega)
    · rw [hold]
      omega
  have hfragmented : fragmentedSpace (updateInPlace page i data) =
      fragmentedSpace page + (bytes.length - data.length) := by
    have hold : slotLength (writeAt page (slotOffset page i) data) i = bytes.length :=
      (hwritten _ (by omega)).trans hlength
    have hfrag : fragmentedSpace (writeAt page (slotOffset page i) data) = fragmentedSpace page :=
      hwritten _ (by omega)
    rw [updateInPlace]
    dsimp only
    rw [hold, hfrag]
    split
    · rw [fragmentedSpace, read16_write16_of_ne (.inl (by omega)), read16_write16 (Nat.mod_lt _ (by decide)),
        fragmentedSpace]
      rw [fragmentedSpace] at haccounts
      omega
    · rw [hfrag]
      omega
  have hoffset : slotOffset (updateInPlace page i data) i = slotOffset page i :=
    hbelow _ (by omega) (by omega) (by omega)
  have hend : freeSpaceEnd (updateInPlace page i data) = freeSpaceEnd page :=
    hbelow 12 (by omega) (by omega) (by omega)
  have hframe : ∀ j < slots.length, j ≠ i → slotOffset (updateInPlace page i data) j = slotOffset page j ∧
      slotLength (updateInPlace page i data) j = slotLength page j := by
    intro j hj hne
    have hlowj := header_le_slotAt j
    have hmonoj := slotAt_mono hj
    have hapart := slotAt_apart hne
    exact ⟨hbelow _ (by omega) (by omega) (by omega), hbelow _ (by omega) (by omega) (by omega)⟩
  refine h.replace (i := i) (fun j hj => List.getElem?_set_ne hj.symm) hframe ?_ hend.le ?_ ?_ ?_ ?_ ?_ ?_ ?_
  · intro j bytes' hne hj
    have hstored := h.stored j bytes' hj
    have hbehind' := hstored.behind
    have hapart := h.apart i j bytes bytes' hi hj hne.symm
    rw [Apart, hlength, hstored.length] at hapart
    rw [habove _ _ (by omega), readAt_writeAt_of_disjoint (by omega)]
    exact hstored.content
  · rw [List.length_set]
    exact (hbelow 8 (by omega) (by omega) (by omega)).trans h.count
  · rw [List.length_set]
    exact (hbelow 10 (by omega) (by omega) (by omega)).trans h.start
  · rw [List.length_set, hend]
    exact hdir
  · rw [hend, hfragmented]
    omega
  · intro hnone
    rw [List.getElem?_set_self hlt] at hnone
    cases hnone
  · intro bytes' hbytes'
    rw [List.getElem?_set_self hlt] at hbytes'
    obtain rfl := Option.some.inj (Option.some.inj hbytes')
    refine ⟨hdata, hlen, ?_, ?_, ?_⟩
    · rw [hend, hoffset]
      exact hbehind
    · rw [hoffset]
      omega
    · rw [hoffset, habove _ _ (by omega), readAt_writeAt_same _ _ _ rfl]
  · intro bytes' _ j bytes'' hne hj
    have hstored := h.stored j bytes'' hj
    have hapart := h.apart i j bytes bytes'' hi hj hne.symm
    rw [Apart, hlength, hstored.length] at hapart
    rw [Apart, hoffset, hlen, (hframe j (List.getElem?_eq_some_iff.mp hj).1 hne).1,
      (hframe j (List.getElem?_eq_some_iff.mp hj).1 hne).2, hstored.length]
    omega

end Layout

/-! ## Runs -/

/-- The part of `record_update` that stays within the page: a record that is not longer
than the one in the slot. -/
def shrinkRecord (page : PageData) (i : Nat) (data : List UInt8) : PageData :=
  if slotCount page ≤ i then page
  else if SlotDeleted page i then page
  else if data.length ≤ slotLength page i then updateInPlace page i data
  else page

inductive SlotOp
  | init (pageId : Nat)
  | insert (data : List UInt8)
  | delete (i : Nat)
  | compact
  | shrink (i : Nat) (data : List UInt8)

namespace SlotOp

/-- The records that `record_insert` and `overflow_insert` give to a page. -/
def InRange : SlotOp → Prop
  | insert data => 1 ≤ data.length ∧ data.length ≤ 4068
  | shrink _ data => 1 ≤ data.length ∧ data.length ≤ 4068
  | _ => True

/-- The operation on the page. -/
def apply : SlotOp → PageData → PageData
  | init pageId, _ => slotPageInit pageId
  | insert data, page => (slotPageInsert page data).2
  | delete i, page => (slotPageDelete page i).2
  | compact, page => slotPageCompact page
  | shrink i data, page => shrinkRecord page i data

/-- The operation on the slots. -/
def applySlots : SlotOp → Slots → Slots
  | init _, _ => []
  | insert data, slots => if slots.needed data ≤ slots.free then (slots.insert data).2 else slots
  | delete i, slots => slots.set i none
  | compact, slots => slots
  | shrink i data, slots =>
    if data.length ≤ ((slots.record i).getD []).length then slots.set i (some data) else slots

end SlotOp

/-- The page after a run. -/
def runPage (ops : List SlotOp) (page : PageData) : PageData := ops.foldl (fun page op => op.apply page) page

/-- What was last written to each slot of it. -/
def runSlots (ops : List SlotOp) (slots : Slots) : Slots :=
  ops.foldl (fun slots op => op.applySlots slots) slots

theorem ne_nil_of_one_le {data : List UInt8} (h : 1 ≤ data.length) : data ≠ [] :=
  List.ne_nil_of_length_pos h

theorem Slots.set_of_record_eq_none {slots : Slots} {i : Nat} (h : slots.record i = none) :
    slots.set i none = slots := by
  by_cases hlt : i < slots.length
  · rw [Slots.record, List.getElem?_eq_getElem hlt] at h
    have hnone : slots[i] = none := h
    rw [← hnone, List.set_getElem_self]
  · exact List.set_eq_of_length_le (Nat.le_of_not_lt hlt)

theorem Layout.shrinkRecord_layout {page : PageData} {slots : Slots} (h : Layout page slots) (i : Nat)
    {data : List UInt8} (hdata : data ≠ []) :
    Layout (shrinkRecord page i data) ((SlotOp.shrink i data).applySlots slots) := by
  rw [shrinkRecord, h.count]
  cases hrecord : slots.record i with
  | none =>
    have hspec : (SlotOp.shrink i data).applySlots slots = slots := by
      rw [SlotOp.applySlots, hrecord]
      exact if_neg (by simpa using hdata)
    rw [hspec]
    split
    · exact h
    · next hlt =>
      have hdeleted : SlotDeleted page i := by
        rw [Slots.record, List.getElem?_eq_getElem (Nat.lt_of_not_le hlt)] at hrecord
        refine h.deleted i ?_
        rw [List.getElem?_eq_getElem (Nat.lt_of_not_le hlt)]
        exact congrArg some hrecord
      rw [if_pos hdeleted]
      exact h
  | some bytes =>
    have hi := Slots.record_eq_some.mp hrecord
    have hstored := h.stored i bytes hi
    rw [if_neg (Nat.not_le_of_lt (List.getElem?_eq_some_iff.mp hi).1), if_neg (Layout.not_slotDeleted hstored),
      hstored.length, SlotOp.applySlots, hrecord, Option.getD_some]
    split
    · next hle => exact h.updateInPlace_layout hi hdata hle
    · exact h

/-- **The step lemma.**  An operation on the page is the operation on the slots. -/
theorem Layout.apply {page : PageData} {slots : Slots} (h : Layout page slots) {op : SlotOp}
    (hop : op.InRange) : Layout (op.apply page) (op.applySlots slots) := by
  cases op with
  | init pageId => exact layout_slotPageInit pageId
  | insert data =>
    obtain ⟨hpos, hle⟩ := hop
    have hne := ne_nil_of_one_le hpos
    rw [SlotOp.apply, SlotOp.applySlots]
    split
    · next hroom => exact (h.slotPageInsert_of_le hne (by omega) hroom).2
    · next hfull =>
      rw [h.slotPageInsert_of_lt hne (by omega) (Nat.lt_of_not_le hfull)]
      exact h
  | delete i =>
    rw [SlotOp.apply, SlotOp.applySlots]
    cases hrecord : slots.record i with
    | none =>
      rw [h.slotPageDelete_of_none hrecord, Slots.set_of_record_eq_none hrecord]
      exact h
    | some bytes => exact (h.slotPageDelete_of_some (Slots.record_eq_some.mp hrecord)).2
  | compact => exact h.slotPageCompact_eq.1
  | shrink i data => exact h.shrinkRecord_layout i (ne_nil_of_one_le hop.1)

theorem Layout.run : ∀ {ops : List SlotOp}, (∀ op ∈ ops, op.InRange) → ∀ {page : PageData} {slots : Slots},
    Layout page slots → Layout (runPage ops page) (runSlots ops slots) := by
  intro ops
  induction ops with
  | nil => exact fun _ _ _ h => h
  | cons op ops ih =>
    intro hops page slots h
    exact ih (fun op' hop' => hops op' (List.mem_cons_of_mem op hop')) (h.apply (hops op List.mem_cons_self))

/-- A record page that is a map with these slots. -/
structure IsMap (page : PageData) (slots : Slots) : Prop where
  reads : ∀ i capacity, slotPageRead page i capacity = slots.read i capacity
  inserts : ∀ data, (SlotOp.insert data).InRange → slots.needed data ≤ slots.free →
    (slotPageInsert page data).1 = .ok (slots.insert data).1
  full : ∀ data, (SlotOp.insert data).InRange → slots.free < slots.needed data →
    slotPageInsert page data = (.error .full, page)
  apart : ∀ i j bytes bytes', slots.record i = some bytes → slots.record j = some bytes' → i ≠ j →
    slotOffset page i + bytes.length ≤ slotOffset page j ∨
      slotOffset page j + bytes'.length ≤ slotOffset page i
  inside : ∀ i bytes, slots.record i = some bytes →
    freeSpaceEnd page ≤ slotOffset page i ∧ slotOffset page i + bytes.length ≤ dbPageSize
  directory : freeSpaceStart page = slotPageHeaderSize + slotCount page * slotEntrySize ∧
    slotCount page = slots.length ∧ freeSpaceStart page ≤ freeSpaceEnd page
  accounts : dbPageSize - freeSpaceEnd page = slots.bytes + fragmentedSpace page

theorem Layout.isMap {page : PageData} {slots : Slots} (h : Layout page slots) : IsMap page slots where
  reads := h.slotPageRead_eq
  inserts := fun data hdata hroom =>
    (h.slotPageInsert_of_le (ne_nil_of_one_le hdata.1) (by have := hdata.2; omega) hroom).1
  full := fun data hdata hfull =>
    h.slotPageInsert_of_lt (ne_nil_of_one_le hdata.1) (by have := hdata.2; omega) hfull
  apart := by
    intro i j bytes bytes' hi hj hne
    rw [Slots.record_eq_some] at hi hj
    have hapart := h.apart i j bytes bytes' hi hj hne
    rw [Apart, (h.stored i bytes hi).length, (h.stored j bytes' hj).length] at hapart
    exact hapart
  inside := by
    intro i bytes hi
    have hstored := h.stored i bytes (Slots.record_eq_some.mp hi)
    exact ⟨hstored.behind, hstored.inside⟩
  directory := by
    rw [h.start, h.count]
    exact ⟨rfl, rfl, h.room⟩
  accounts := by
    have haccounts := h.accounts
    omega

/-- **A record page is a map** after every run of its operations. -/
theorem slotPage_isMap (pageId : Nat) {ops : List SlotOp} (hops : ∀ op ∈ ops, op.InRange) :
    IsMap (runPage ops (slotPageInit pageId)) (runSlots ops []) :=
  (Layout.run hops (layout_slotPageInit pageId)).isMap

theorem slotPage_isMap_two :
    IsMap (runPage [.insert [1], .insert [2, 3]] (slotPageInit 7)) (runSlots [.insert [1], .insert [2, 3]] []) :=
  slotPage_isMap 7 (by simp [SlotOp.InRange])

end OnionRelay.Db
