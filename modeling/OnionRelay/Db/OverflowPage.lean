import OnionRelay.Db.DupChain
import OnionRelay.Db.Page
import OnionRelay.Lib.LittleEndian

/-!
# Overflow pages

A page of a duplicate chain is a header of 8 bytes, with the next page and the
number of entries, and then the record ids, 8 bytes each of which the first 6 are
used.

`OverflowPage` says which ids a page holds, in order.  Appending an id, taking one
out by a swap with the last and changing the link do to the page what `DupChain`
does to the list.
-/

namespace OnionRelay.Db

open OnionRelay.Lib

/-- `RecordId` -/
structure RecordId where
  pageId : UInt32
  slotIndex : UInt16
deriving DecidableEq

/-! ## The bytes -/

def nextPage (page : PageData) : Nat := ofLE (readAt page 0 4)

def entryCount (page : PageData) : Nat := ofLE (readAt page 4 2)

def setNextPage (page : PageData) (pid : Nat) : PageData := writeAt page 0 (toLE 4 pid)

def setEntryCount (page : PageData) (n : Nat) : PageData := writeAt page 4 (toLE 2 n)

/-- `get_overflow_entry`, read. -/
def entryAt (page : PageData) (i : Nat) : RecordId where
  pageId := UInt32.ofNat (ofLE (readAt page (8 + i * 8) 4))
  slotIndex := UInt16.ofNat (ofLE (readAt page (8 + i * 8 + 4) 2))

/-- The two assignments to an entry; its padding stays. -/
def writeEntry (page : PageData) (i : Nat) (rid : RecordId) : PageData :=
  writeAt (writeAt page (8 + i * 8) (toLE 4 rid.pageId.toNat)) (8 + i * 8 + 4)
    (toLE 2 rid.slotIndex.toNat)

/-- `init_overflow_page` -/
def initOverflowPage : PageData := setEntryCount (setNextPage zeroPage 0) 0

/-- A new page with one entry. -/
def firstEntryPage (rid : RecordId) : PageData :=
  setEntryCount (writeEntry initOverflowPage 0 rid) 1

/-- The entry behind the last. -/
def appendEntry (page : PageData) (rid : RecordId) : PageData :=
  setEntryCount (writeEntry page (entryCount page) rid) (entryCount page + 1)

/-- Entry `i` removed by swapping with the last. -/
def removeEntry (page : PageData) (i : Nat) : PageData :=
  let swapped := if i < entryCount page - 1 then
      writeEntry page i (entryAt page (entryCount page - 1))
    else page
  setEntryCount swapped (entryCount page - 1)

/-- The entries in the order of the loops. -/
def pageEntries (page : PageData) : List RecordId :=
  (List.range (entryCount page)).map (entryAt page)

/-! ## What a change is to the rest -/

section

variable (page : PageData)

theorem nextPage_setNextPage {pid : Nat} (h : pid < 2 ^ 32) :
    nextPage (setNextPage page pid) = pid := by
  rw [nextPage, setNextPage, readAt_writeAt_same _ _ _ (length_toLE 4 pid).symm,
    ofLE_toLE_of_lt (by omega)]

@[simp] theorem entryCount_setNextPage (pid : Nat) :
    entryCount (setNextPage page pid) = entryCount page := by
  rw [entryCount, setNextPage, readAt_writeAt_of_disjoint (.inr (by rw [length_toLE])), entryCount]

@[simp] theorem entryAt_setNextPage (pid i : Nat) :
    entryAt (setNextPage page pid) i = entryAt page i := by
  rw [entryAt, setNextPage, readAt_writeAt_of_disjoint (.inr (by rw [length_toLE]; omega)),
    readAt_writeAt_of_disjoint (.inr (by rw [length_toLE]; omega)), entryAt]

theorem entryCount_setEntryCount {n : Nat} (h : n < 2 ^ 16) :
    entryCount (setEntryCount page n) = n := by
  rw [entryCount, setEntryCount, readAt_writeAt_same _ _ _ (length_toLE 2 n).symm,
    ofLE_toLE_of_lt (by omega)]

@[simp] theorem nextPage_setEntryCount (n : Nat) :
    nextPage (setEntryCount page n) = nextPage page := by
  rw [nextPage, setEntryCount, readAt_writeAt_of_disjoint (.inl (by omega)), nextPage]

@[simp] theorem entryAt_setEntryCount (n i : Nat) :
    entryAt (setEntryCount page n) i = entryAt page i := by
  rw [entryAt, setEntryCount, readAt_writeAt_of_disjoint (.inr (by rw [length_toLE]; omega)),
    readAt_writeAt_of_disjoint (.inr (by rw [length_toLE]; omega)), entryAt]

/-- An entry lies behind the header. -/
theorem readAt_writeEntry_header (i : Nat) (rid : RecordId) {off n : Nat} (h : off + n ≤ 8) :
    readAt (writeEntry page i rid) off n = readAt page off n := by
  rw [writeEntry, readAt_writeAt_of_disjoint (.inl (by omega)),
    readAt_writeAt_of_disjoint (.inl (by omega))]

@[simp] theorem nextPage_writeEntry (i : Nat) (rid : RecordId) :
    nextPage (writeEntry page i rid) = nextPage page := by
  rw [nextPage, readAt_writeEntry_header _ _ _ (by omega), nextPage]

@[simp] theorem entryCount_writeEntry (i : Nat) (rid : RecordId) :
    entryCount (writeEntry page i rid) = entryCount page := by
  rw [entryCount, readAt_writeEntry_header _ _ _ (by omega), entryCount]

theorem entryAt_writeEntry_self (i : Nat) (rid : RecordId) :
    entryAt (writeEntry page i rid) i = rid := by
  rw [entryAt, writeEntry, readAt_writeAt_of_disjoint (.inl (by omega)),
    readAt_writeAt_same _ _ _ (length_toLE 4 _).symm,
    readAt_writeAt_same _ _ _ (length_toLE 2 _).symm, ofLE_toLE_of_lt rid.pageId.toNat_lt,
    ofLE_toLE_of_lt rid.slotIndex.toNat_lt, UInt32.ofNat_toNat, UInt16.ofNat_toNat]

theorem entryAt_writeEntry_of_ne {i j : Nat} (h : i ≠ j) (rid : RecordId) :
    entryAt (writeEntry page i rid) j = entryAt page j := by
  have hlen4 := length_toLE 4 rid.pageId.toNat
  have hlen2 := length_toLE 2 rid.slotIndex.toNat
  have hread : ∀ off n, off + n ≤ 8 → readAt (writeEntry page i rid) (8 + j * 8 + off) n =
      readAt page (8 + j * 8 + off) n := by
    intro off n hn
    rw [writeEntry, readAt_writeAt_of_disjoint (by omega), readAt_writeAt_of_disjoint (by omega)]
  have hfirst := hread 0 4 (by omega)
  rw [Nat.add_zero] at hfirst
  rw [entryAt, hfirst, hread 4 2 (by omega), entryAt]

end

/-! ## Pages as lists -/

/-- The page holds these ids, and its link is `next`. -/
structure OverflowPage (page : PageData) (rids : List RecordId) (next : Nat) : Prop where
  count : entryCount page = rids.length
  fits : rids.length ≤ overflowMaxEntries
  entries : ∀ i (h : i < rids.length), entryAt page i = rids[i]
  next : nextPage page = next

namespace OverflowPage

variable {page : PageData} {rids : List RecordId} {next : Nat}

theorem pageEntries_eq (h : OverflowPage page rids next) : pageEntries page = rids := by
  rw [pageEntries, h.count]
  refine List.ext_getElem (by simp) fun i _ hi => ?_
  rw [List.getElem_map, List.getElem_range, h.entries i hi]

theorem first (rid : RecordId) : OverflowPage (firstEntryPage rid) [rid] 0 where
  count := entryCount_setEntryCount _ (by decide)
  fits := show 1 ≤ 511 by decide
  entries i hi := by
    obtain rfl : i = 0 := Nat.lt_one_iff.mp hi
    rw [firstEntryPage, entryAt_setEntryCount, entryAt_writeEntry_self]
    rfl
  next := by
    rw [firstEntryPage, nextPage_setEntryCount, nextPage_writeEntry, initOverflowPage,
      nextPage_setEntryCount, nextPage_setNextPage _ (by decide)]

theorem setNext (h : OverflowPage page rids next) {pid : Nat} (hpid : pid < 2 ^ 32) :
    OverflowPage (setNextPage page pid) rids pid where
  count := by rw [entryCount_setNextPage, h.count]
  fits := h.fits
  entries i hi := by rw [entryAt_setNextPage, h.entries i hi]
  next := nextPage_setNextPage _ hpid

theorem append (h : OverflowPage page rids next) (hroom : rids.length < overflowMaxEntries)
    (rid : RecordId) : OverflowPage (appendEntry page rid) (rids ++ [rid]) next where
  count := by
    have hmax : overflowMaxEntries = 511 := rfl
    rw [appendEntry, h.count, entryCount_setEntryCount _ (by omega), List.length_append]
    rfl
  fits := by
    rw [List.length_append, List.length_singleton]
    exact hroom
  entries i hi := by
    rw [appendEntry, entryAt_setEntryCount, h.count]
    rcases Nat.lt_or_ge i rids.length with hlt | hge
    · rw [entryAt_writeEntry_of_ne _ (Nat.ne_of_gt hlt), h.entries i hlt,
        List.getElem_append_left hlt]
    · rw [List.length_append, List.length_singleton] at hi
      obtain rfl : i = rids.length := by omega
      rw [entryAt_writeEntry_self, List.getElem_append_right (Nat.le_refl _)]
      simp
  next := by rw [appendEntry, nextPage_setEntryCount, nextPage_writeEntry, h.next]

theorem remove (h : OverflowPage page rids next) {i : Nat} (hi : i < rids.length) :
    OverflowPage (removeEntry page i) (swapRemove rids i) next where
  count := by
    have hmax : overflowMaxEntries = 511 := rfl
    have hfits := h.fits
    rw [removeEntry, h.count]
    rw [entryCount_setEntryCount _ (by omega), swapRemove]
    split <;> simp
  fits := by
    have hfits := h.fits
    rw [swapRemove]
    split <;> simp <;> omega
  entries j hj := by
    rw [removeEntry, h.count]
    rw [entryAt_setEntryCount]
    by_cases hlast : i < rids.length - 1
    · rw [if_pos hlast]
      simp only [swapRemove, dif_pos hlast, List.length_dropLast, List.length_set] at hj ⊢
      rw [List.getElem_dropLast, List.getElem_set]
      by_cases hij : i = j
      · subst hij
        rw [if_pos rfl, entryAt_writeEntry_self, h.entries _ (by omega)]
        rfl
      · rw [if_neg hij, entryAt_writeEntry_of_ne _ hij, h.entries j (by omega)]
    · rw [if_neg hlast]
      simp only [swapRemove, dif_neg hlast, List.length_dropLast] at hj ⊢
      rw [List.getElem_dropLast, h.entries j (by omega)]
  next := by
    rw [removeEntry]
    rw [nextPage_setEntryCount]
    split
    · rw [nextPage_writeEntry, h.next]
    · exact h.next

end OverflowPage

end OnionRelay.Db
