import OnionRelay.Db.Btree.Types
import OnionRelay.Lib.SortedEntries

/-!
# B+ tree nodes

The functions of `btree_node.c` on the bytes of a page: a header of 8 bytes
behind the slot page header, then the keys, then the values of a leaf or the
children of an inner node, each array at a place fixed by the largest number of
keys.

`LeafPage` and `InnerPage` say what a page holds as lists.  They bound the number
of keys by that largest number; a page with one key more has the key in the place
of its first children, so no insertion into a full page keeps `InnerPage`.
-/

namespace OnionRelay.Db

open OnionRelay.Lib

/-! ## Reading -/

def keyCount (page : PageData) : Nat := ofLE (readAt page btreeNodeHeaderOffset 2)

def rightSibling (page : PageData) : Nat := ofLE (readAt page 28 4)

/-- `btree_node_key_at`. -/
def btreeNodeKeyAt (page : PageData) (pos keySize : Nat) : List UInt8 :=
  readAt page (btreeDataOffset + pos * keySize) keySize

/-- `btree_node_value_at`. -/
def btreeNodeValueAt (page : PageData) (pos keySize valueSize maxKeys : Nat) : List UInt8 :=
  readAt page (btreeDataOffset + maxKeys * keySize + pos * valueSize) valueSize

/-- `btree_node_child_at`. -/
def btreeNodeChildAt (page : PageData) (pos keySize maxKeys : Nat) : Nat :=
  ofLE (readAt page (btreeDataOffset + maxKeys * keySize + pos * 4) 4)

/-- `btree_node_search_key`. -/
def btreeNodeSearchKey (page : PageData) (key : List UInt8) (keySize : Nat)
    (compare : List UInt8 → List UInt8 → Int) : Nat :=
  searchLoop (fun mid => compare (btreeNodeKeyAt page mid keySize) key < 0) (keyCount page) 0
    (keyCount page)

/-- The child to follow: the one behind the key if that is in the node. -/
def btreeNodeChildPos (page : PageData) (key : List UInt8) (keySize : Nat)
    (compare : List UInt8 → List UInt8 → Int) : Nat :=
  let pos := btreeNodeSearchKey page key keySize compare
  if pos < keyCount page ∧ compare (btreeNodeKeyAt page pos keySize) key = 0 then pos + 1 else pos

/-- Whether a leaf holds the key, at the position where it belongs. -/
def btreeNodeHolds (page : PageData) (key : List UInt8) (keySize : Nat)
    (compare : List UInt8 → List UInt8 → Int) : Bool :=
  let pos := btreeNodeSearchKey page key keySize compare
  decide (pos < keyCount page ∧ compare (btreeNodeKeyAt page pos keySize) key = 0)

/-! ## Writing -/

def setKeyCount (page : PageData) (n : Nat) : PageData :=
  writeAt page btreeNodeHeaderOffset (toLE 2 n)

def setRightSibling (page : PageData) (pid : Nat) : PageData := writeAt page 28 (toLE 4 pid)

/-- The zeroed page with its id, its type and the leaf flag. -/
def btreeNodeInit (pid pageType isLeaf : Nat) : PageData :=
  let page := writeAt zeroPage 0 (toLE 4 pid)
  let page := writeAt page 16 (toLE 1 pageType)
  let page := setKeyCount page 0
  let page := writeAt page 26 (toLE 1 isLeaf)
  setRightSibling page 0

/-- `btree_node_init_leaf`. -/
def btreeNodeInitLeaf (pid : Nat) : PageData := btreeNodeInit pid 3 1

/-- `btree_node_init_inner`. -/
def btreeNodeInitInner (pid : Nat) : PageData := btreeNodeInit pid 4 0

/-- `btree_node_insert_key_value`. -/
def btreeNodeInsertKeyValue (page : PageData) (pos : Nat) (key value : List UInt8)
    (keySize valueSize maxKeys : Nat) : PageData :=
  let n := keyCount page
  let page := insertCell page btreeDataOffset keySize n pos key
  let page := insertCell page (btreeDataOffset + maxKeys * keySize) valueSize n pos value
  setKeyCount page (keyCount page + 1)

/-- `btree_node_insert_key_child`. -/
def btreeNodeInsertKeyChild (page : PageData) (pos : Nat) (key : List UInt8) (rightChild : Nat)
    (keySize maxKeys : Nat) : PageData :=
  let n := keyCount page
  let page := insertCell page btreeDataOffset keySize n pos key
  let page := insertCell page (btreeDataOffset + maxKeys * keySize) 4 (n + 1) (pos + 1)
    (toLE 4 rightChild)
  setKeyCount page (keyCount page + 1)

/-- `btree_node_delete_key_value`. -/
def btreeNodeDeleteKeyValue (page : PageData) (pos keySize valueSize maxKeys : Nat) : PageData :=
  let n := keyCount page
  let page := eraseCell page btreeDataOffset keySize n pos
  let page := eraseCell page (btreeDataOffset + maxKeys * keySize) valueSize n pos
  setKeyCount page (keyCount page - 1)

/-! ## The header -/

theorem keyCount_congr {page page' : PageData} (h : ∀ a < btreeDataOffset, page a = page' a) :
    keyCount page = keyCount page' := by
  rw [keyCount, keyCount]
  congr 1
  refine readAt_congr fun i hi => h _ ?_
  simp only [btreeNodeHeaderOffset, btreeDataOffset]
  omega

theorem rightSibling_congr {page page' : PageData} (h : ∀ a < btreeDataOffset, page a = page' a) :
    rightSibling page = rightSibling page' := by
  rw [rightSibling, rightSibling]
  congr 1
  refine readAt_congr fun i hi => h _ ?_
  simp only [btreeDataOffset]
  omega

theorem keyCount_setKeyCount (page : PageData) {n : Nat} (h : n < 2 ^ 16) :
    keyCount (setKeyCount page n) = n := by
  rw [keyCount, setKeyCount, readAt_writeAt_same _ _ _ (length_toLE 2 n).symm,
    ofLE_toLE_of_lt (by omega)]

theorem keyCount_setRightSibling (page : PageData) (pid : Nat) :
    keyCount (setRightSibling page pid) = keyCount page := by
  rw [keyCount, setRightSibling, readAt_writeAt_of_disjoint (.inl (by decide)), keyCount]

theorem rightSibling_setRightSibling (page : PageData) {pid : Nat} (h : pid < 2 ^ 32) :
    rightSibling (setRightSibling page pid) = pid := by
  rw [rightSibling, setRightSibling, readAt_writeAt_same _ _ _ (length_toLE 4 pid).symm,
    ofLE_toLE_of_lt (by omega)]

theorem rightSibling_setKeyCount (page : PageData) (n : Nat) :
    rightSibling (setKeyCount page n) = rightSibling page := by
  rw [rightSibling, setKeyCount, readAt_writeAt_of_disjoint, rightSibling]
  exact .inr (by rw [length_toLE]; decide)

/-- The header is before the arrays. -/
theorem setKeyCount_of_ge (page : PageData) (n : Nat) {a : Nat} (h : btreeDataOffset ≤ a) :
    setKeyCount page n a = page a := by
  refine writeAt_of_ge ?_
  rw [length_toLE]
  simp only [btreeDataOffset, btreeNodeHeaderOffset] at h ⊢
  omega

theorem setRightSibling_of_ge (page : PageData) (pid : Nat) {a : Nat} (h : btreeDataOffset ≤ a) :
    setRightSibling page pid a = page a := by
  refine writeAt_of_ge ?_
  rw [length_toLE]
  exact h

theorem keyCount_init (pid pageType isLeaf : Nat) : keyCount (btreeNodeInit pid pageType isLeaf) = 0 := by
  rw [btreeNodeInit, keyCount_setRightSibling, keyCount, readAt_writeAt_of_disjoint (.inl (by decide))]
  exact keyCount_setKeyCount _ (by decide)

theorem rightSibling_init (pid pageType isLeaf : Nat) :
    rightSibling (btreeNodeInit pid pageType isLeaf) = 0 :=
  rightSibling_setRightSibling _ (by decide)

/-! ## What a page holds -/

variable {shape : BTreeShape}

abbrev BTreeShape.Key (shape : BTreeShape) : Type := OnionRelay.Db.Key shape.keyType

abbrev BTreeShape.Value (shape : BTreeShape) : Type := Bytes shape.valueSize

/-- A leaf with these entries, and its right sibling. -/
structure LeafPage (shape : BTreeShape) (page : PageData) (es : List (shape.Key × shape.Value))
    (next : Nat) : Prop where
  count : keyCount page = es.length
  fits : es.length ≤ shape.maxLeaf
  keys : cells page btreeDataOffset shape.keySize es.length = es.map fun e => e.1.bytes
  values : cells page (btreeDataOffset + shape.maxLeaf * shape.keySize) shape.valueSize es.length =
    es.map fun e => e.2.1
  next : rightSibling page = next

/-- An inner node with these separators and children. -/
structure InnerPage (shape : BTreeShape) (page : PageData) (ks : List shape.Key)
    (cs : List Nat) : Prop where
  count : keyCount page = ks.length
  fits : ks.length ≤ shape.maxInner
  keys : cells page btreeDataOffset shape.keySize ks.length = ks.map Key.bytes
  children : cells page (btreeDataOffset + shape.maxInner * shape.keySize) 4 (ks.length + 1) =
    cs.map (toLE 4)

/-- **Binary search on a page finds the lower bound.** -/
theorem btreeNodeSearchKey_eq {page : PageData} {ks : List shape.Key}
    (hcount : keyCount page = ks.length)
    (hkeys : cells page btreeDataOffset shape.keySize ks.length = ks.map Key.bytes)
    (hsorted : ks.Pairwise (· < ·)) (key : shape.Key) :
    btreeNodeSearchKey page key.bytes shape.keySize (btreeGetComparator shape.keyType) =
      lowerBound key ks := by
  rw [btreeNodeSearchKey, hcount]
  refine searchLoop_lowerBound hsorted fun i hi => ?_
  have hcell := getElem?_cells page btreeDataOffset shape.keySize hi
  rw [hkeys, List.getElem?_map, List.getElem?_eq_getElem hi] at hcell
  rw [btreeNodeKeyAt, ← Option.some.inj hcell, decide_eq_true_eq, Key.compare_lt_iff]

/-- The key at a position of a page. -/
theorem btreeNodeKeyAt_eq {page : PageData} {ks : List shape.Key}
    (hkeys : cells page btreeDataOffset shape.keySize ks.length = ks.map Key.bytes) {pos : Nat}
    (hpos : pos < ks.length) : btreeNodeKeyAt page pos shape.keySize = ks[pos].bytes := by
  have hcell := getElem?_cells page btreeDataOffset shape.keySize hpos
  rw [hkeys, List.getElem?_map, List.getElem?_eq_getElem hpos] at hcell
  exact (Option.some.inj hcell).symm

/-- The child to follow, from the keys of a page. -/
theorem btreeNodeChildPos_eq {page : PageData} {ks : List shape.Key}
    (hcount : keyCount page = ks.length)
    (hkeys : cells page btreeDataOffset shape.keySize ks.length = ks.map Key.bytes)
    (hsorted : ks.Pairwise (· < ·)) (key : shape.Key) :
    btreeNodeChildPos page key.bytes shape.keySize (btreeGetComparator shape.keyType) =
      if ks[lowerBound key ks]? = some key then lowerBound key ks + 1 else lowerBound key ks := by
  rw [btreeNodeChildPos, btreeNodeSearchKey_eq hcount hkeys hsorted, hcount]
  refine if_congr ?_ rfl rfl
  constructor
  · rintro ⟨hpos, hcmp⟩
    rw [btreeNodeKeyAt_eq hkeys hpos, Key.compare_eq_iff] at hcmp
    rw [List.getElem?_eq_getElem hpos, hcmp]
  · intro hget
    obtain ⟨hpos, hkey⟩ := List.getElem?_eq_some_iff.mp hget
    refine ⟨hpos, ?_⟩
    rw [btreeNodeKeyAt_eq hkeys hpos, Key.compare_eq_iff, hkey]

/-- A key below those of the page goes to the first child. -/
theorem btreeNodeChildPos_first {page : PageData} {ks : List shape.Key}
    (hcount : keyCount page = ks.length)
    (hkeys : cells page btreeDataOffset shape.keySize ks.length = ks.map Key.bytes)
    (hsorted : ks.Pairwise (· < ·)) {key : shape.Key} (hbelow : ∀ k ∈ ks, key < k) :
    btreeNodeChildPos page key.bytes shape.keySize (btreeGetComparator shape.keyType) = 0 := by
  rw [btreeNodeChildPos_eq hcount hkeys hsorted, lowerBound_eq_zero hbelow, if_neg]
  intro hget
  exact lt_irrefl key (hbelow key (List.mem_of_getElem? hget))

namespace LeafPage

variable {page : PageData} {es : List (shape.Key × shape.Value)} {next : Nat}

theorem keys' (h : LeafPage shape page es next) :
    cells page btreeDataOffset shape.keySize (es.map Prod.fst).length =
      (es.map Prod.fst).map Key.bytes := by
  rw [List.length_map, List.map_map]
  exact h.keys

theorem searchKey (h : LeafPage shape page es next) (hsorted : Sorted es) (key : shape.Key) :
    btreeNodeSearchKey page key.bytes shape.keySize (btreeGetComparator shape.keyType) =
      lowerBound key (es.map Prod.fst) :=
  btreeNodeSearchKey_eq (by rw [h.count, List.length_map]) h.keys' hsorted.keys key

theorem keyAt (h : LeafPage shape page es next) {pos : Nat} (hpos : pos < es.length) :
    btreeNodeKeyAt page pos shape.keySize = es[pos].1.bytes := by
  rw [btreeNodeKeyAt_eq h.keys' (by rwa [List.length_map]), List.getElem_map]

theorem valueAt (h : LeafPage shape page es next) {pos : Nat} (hpos : pos < es.length) :
    btreeNodeValueAt page pos shape.keySize shape.valueSize shape.maxLeaf = es[pos].2.1 := by
  have hcell := getElem?_cells page (btreeDataOffset + shape.maxLeaf * shape.keySize)
    shape.valueSize hpos
  rw [h.values, List.getElem?_map, List.getElem?_eq_getElem hpos] at hcell
  exact (Option.some.inj hcell).symm

/-- A page that agrees with a leaf on the header and the entries is that leaf. -/
theorem congr (h : LeafPage shape page es next) {page' : PageData} {next' : Nat}
    (hcount : keyCount page' = es.length) (hnext : rightSibling page' = next')
    (hdata : ∀ a, btreeDataOffset ≤ a → page' a = page a) : LeafPage shape page' es next' where
  count := hcount
  fits := h.fits
  keys := by rw [← h.keys]; exact cells_congr fun i _ => hdata _ (by omega)
  values := by rw [← h.values]; exact cells_congr fun i _ => hdata _ (by omega)
  next := hnext

theorem init (shape : BTreeShape) (pid : Nat) : LeafPage shape (btreeNodeInitLeaf pid) [] 0 where
  count := keyCount_init _ _ _
  fits := Nat.zero_le _
  keys := rfl
  values := rfl
  next := rightSibling_init _ _ _

/-- Whether a leaf holds a key. -/
theorem holds (h : LeafPage shape page es next) (hsorted : Sorted es) (key : shape.Key) :
    btreeNodeHolds page key.bytes shape.keySize (btreeGetComparator shape.keyType) = true ↔
      key ∈ es.map Prod.fst := by
  rw [btreeNodeHolds, h.searchKey hsorted, h.count, decide_eq_true_eq,
    ← getElem?_lowerBound hsorted.keys]
  constructor
  · rintro ⟨hpos, hcmp⟩
    rw [h.keyAt hpos, Key.compare_eq_iff] at hcmp
    rw [List.getElem?_map, List.getElem?_eq_getElem hpos, Option.map_some, hcmp]
  · intro hget
    obtain ⟨hpos, hkey⟩ := List.getElem?_eq_some_iff.mp hget
    rw [List.getElem_map] at hkey
    rw [List.length_map] at hpos
    refine ⟨hpos, ?_⟩
    rw [h.keyAt hpos, Key.compare_eq_iff, hkey]

/-- **Inserting into a leaf that has room.** -/
theorem insert (h : LeafPage shape page es next) (hroom : es.length < shape.maxLeaf)
    (key : shape.Key) (value : shape.Value) :
    LeafPage shape (btreeNodeInsertKeyValue page (lowerBound key (es.map Prod.fst)) key.bytes
      value.1 shape.keySize shape.valueSize shape.maxLeaf) (insertEntry key value es) next := by
  have hpos := lowerBound_le key (es.map Prod.fst)
  rw [List.length_map] at hpos
  have hkey : key.bytes.length = shape.keySize := key.length_bytes
  have hvalue : value.1.length = shape.valueSize := value.2
  have hend : (es.length + 1) * shape.keySize ≤ shape.maxLeaf * shape.keySize :=
    Nat.mul_le_mul_right _ hroom
  simp only [btreeNodeInsertKeyValue, h.count]
  -- the two arrays in turn, then the count
  set page₁ := insertCell page btreeDataOffset shape.keySize es.length
    (lowerBound key (es.map Prod.fst)) key.bytes with hpage₁
  set page₂ := insertCell page₁ (btreeDataOffset + shape.maxLeaf * shape.keySize)
    shape.valueSize es.length (lowerBound key (es.map Prod.fst)) value.1 with hpage₂
  have hbefore₁ : ∀ a < btreeDataOffset, page₁ a = page a := fun a ha =>
    insertCell_outside hkey hpos (.inl ha)
  have hbehind₁ : ∀ a, btreeDataOffset + shape.maxLeaf * shape.keySize ≤ a → page₁ a = page a :=
    fun a ha => insertCell_outside hkey hpos (.inr (by omega))
  have hbefore₂ : ∀ a < btreeDataOffset + shape.maxLeaf * shape.keySize, page₂ a = page₁ a :=
    fun a ha => insertCell_outside hvalue hpos (.inl ha)
  have hheader : ∀ a < btreeDataOffset, page₂ a = page a := fun a ha => by
    rw [hbefore₂ a (by omega), hbefore₁ a ha]
  have hcount : keyCount page₂ = es.length := by rw [keyCount_congr hheader, h.count]
  have hlen := length_insertEntry key value es
  have hmax := shape.maxLeaf_lt
  constructor
  · rw [hcount, hlen]
    exact keyCount_setKeyCount _ (by omega)
  · rw [hlen]
    exact hroom
  · have hkeys : cells (setKeyCount page₂ (keyCount page₂ + 1)) btreeDataOffset shape.keySize
        (es.length + 1) = cells page₁ btreeDataOffset shape.keySize (es.length + 1) := by
      refine cells_congr fun i hi => ?_
      rw [setKeyCount_of_ge _ _ (by omega), hbefore₂ _ (by omega)]
    rw [hlen, hkeys, hpage₁, cells_insertCell _ _ hpos hkey, h.keys, insertEntry,
      List.map_insertIdx]
  · have hvalues : cells (setKeyCount page₂ (keyCount page₂ + 1))
        (btreeDataOffset + shape.maxLeaf * shape.keySize) shape.valueSize (es.length + 1) =
        cells page₂ (btreeDataOffset + shape.maxLeaf * shape.keySize) shape.valueSize
          (es.length + 1) :=
      cells_congr fun i _ => setKeyCount_of_ge _ _ (by omega)
    have hold : cells page₁ (btreeDataOffset + shape.maxLeaf * shape.keySize) shape.valueSize
        es.length = es.map fun e => e.2.1 := by
      rw [← h.values]
      exact cells_congr fun i _ => hbehind₁ _ (by omega)
    rw [hlen, hvalues, hpage₂, cells_insertCell _ _ hpos hvalue, hold, insertEntry,
      List.map_insertIdx]
  · rw [rightSibling_setKeyCount, rightSibling_congr hheader, h.next]

/-- **Deleting from a leaf.** -/
theorem delete (h : LeafPage shape page es next) {pos : Nat} (hpos : pos < es.length) :
    LeafPage shape (btreeNodeDeleteKeyValue page pos shape.keySize shape.valueSize shape.maxLeaf)
      (es.eraseIdx pos) next := by
  have hend : es.length * shape.keySize ≤ shape.maxLeaf * shape.keySize :=
    Nat.mul_le_mul_right _ h.fits
  have hlen : (es.eraseIdx pos).length = es.length - 1 := by rw [List.length_eraseIdx, if_pos hpos]
  have hless : (es.length - 1) * shape.keySize ≤ es.length * shape.keySize :=
    Nat.mul_le_mul_right _ (Nat.sub_le _ _)
  simp only [btreeNodeDeleteKeyValue, h.count]
  set page₁ := eraseCell page btreeDataOffset shape.keySize es.length pos with hpage₁
  set page₂ := eraseCell page₁ (btreeDataOffset + shape.maxLeaf * shape.keySize)
    shape.valueSize es.length pos with hpage₂
  have hbefore₁ : ∀ a < btreeDataOffset, page₁ a = page a := fun a ha =>
    eraseCell_outside hpos (.inl ha)
  have hbehind₁ : ∀ a, btreeDataOffset + shape.maxLeaf * shape.keySize ≤ a → page₁ a = page a :=
    fun a ha => eraseCell_outside hpos (.inr (by omega))
  have hbefore₂ : ∀ a < btreeDataOffset + shape.maxLeaf * shape.keySize, page₂ a = page₁ a :=
    fun a ha => eraseCell_outside hpos (.inl ha)
  have hheader : ∀ a < btreeDataOffset, page₂ a = page a := fun a ha => by
    rw [hbefore₂ a (by omega), hbefore₁ a ha]
  have hcount : keyCount page₂ = es.length := by rw [keyCount_congr hheader, h.count]
  have hmax := shape.maxLeaf_lt
  have hfits := h.fits
  constructor
  · rw [hcount, hlen]
    exact keyCount_setKeyCount _ (by omega)
  · rw [hlen]
    omega
  · have hkeys : cells (setKeyCount page₂ (keyCount page₂ - 1)) btreeDataOffset shape.keySize
        (es.length - 1) = cells page₁ btreeDataOffset shape.keySize (es.length - 1) := by
      refine cells_congr fun i hi => ?_
      rw [setKeyCount_of_ge _ _ (by omega), hbefore₂ _ (by omega)]
    rw [hlen, hkeys, hpage₁, cells_eraseCell _ _ hpos, h.keys, List.eraseIdx_map]
  · have hvalues : cells (setKeyCount page₂ (keyCount page₂ - 1))
        (btreeDataOffset + shape.maxLeaf * shape.keySize) shape.valueSize (es.length - 1) =
        cells page₂ (btreeDataOffset + shape.maxLeaf * shape.keySize) shape.valueSize
          (es.length - 1) :=
      cells_congr fun i _ => setKeyCount_of_ge _ _ (by omega)
    have hold : cells page₁ (btreeDataOffset + shape.maxLeaf * shape.keySize) shape.valueSize
        es.length = es.map fun e => e.2.1 := by
      rw [← h.values]
      exact cells_congr fun i _ => hbehind₁ _ (by omega)
    rw [hlen, hvalues, hpage₂, cells_eraseCell _ _ hpos, hold, List.eraseIdx_map]
  · rw [rightSibling_setKeyCount, rightSibling_congr hheader, h.next]

end LeafPage

namespace InnerPage

variable {page : PageData} {ks : List shape.Key} {cs : List Nat}

theorem length_children (h : InnerPage shape page ks cs) : cs.length = ks.length + 1 := by
  have hlen := congrArg List.length h.children
  rw [length_cells, List.length_map] at hlen
  exact hlen.symm

theorem searchKey (h : InnerPage shape page ks cs) (hsorted : ks.Pairwise (· < ·)) (key : shape.Key) :
    btreeNodeSearchKey page key.bytes shape.keySize (btreeGetComparator shape.keyType) =
      lowerBound key ks := btreeNodeSearchKey_eq h.count h.keys hsorted key

theorem childPos (h : InnerPage shape page ks cs) (hsorted : ks.Pairwise (· < ·)) (key : shape.Key) :
    btreeNodeChildPos page key.bytes shape.keySize (btreeGetComparator shape.keyType) =
      if ks[lowerBound key ks]? = some key then lowerBound key ks + 1 else lowerBound key ks :=
  btreeNodeChildPos_eq h.count h.keys hsorted key

theorem childAt (h : InnerPage shape page ks cs) {pos c : Nat} (hpos : cs[pos]? = some c)
    (hc : c < 2 ^ 32) : btreeNodeChildAt page pos shape.keySize shape.maxInner = c := by
  obtain ⟨hlt, -⟩ := List.getElem?_eq_some_iff.mp hpos
  rw [h.length_children] at hlt
  have hcell := getElem?_cells page (btreeDataOffset + shape.maxInner * shape.keySize) 4 hlt
  rw [h.children, List.getElem?_map, hpos] at hcell
  rw [btreeNodeChildAt, ← Option.some.inj hcell, ofLE_toLE_of_lt (by omega)]

/-- **Inserting a separator and the child behind it**, where there is room. -/
theorem insert (h : InnerPage shape page ks cs) (hroom : ks.length < shape.maxInner) {pos : Nat}
    (hpos : pos ≤ ks.length) (key : shape.Key) (child : Nat) :
    InnerPage shape (btreeNodeInsertKeyChild page pos key.bytes child shape.keySize shape.maxInner)
      (ks.insertIdx pos key) (cs.insertIdx (pos + 1) child) := by
  have hkey : key.bytes.length = shape.keySize := key.length_bytes
  have hchild : (toLE 4 child).length = 4 := length_toLE 4 child
  have hend : (ks.length + 1) * shape.keySize ≤ shape.maxInner * shape.keySize :=
    Nat.mul_le_mul_right _ hroom
  have hlen : (ks.insertIdx pos key).length = ks.length + 1 := by
    rw [List.length_insertIdx, if_pos hpos]
  simp only [btreeNodeInsertKeyChild, h.count]
  set page₁ := insertCell page btreeDataOffset shape.keySize ks.length pos key.bytes with hpage₁
  set page₂ := insertCell page₁ (btreeDataOffset + shape.maxInner * shape.keySize) 4
    (ks.length + 1) (pos + 1) (toLE 4 child) with hpage₂
  have hbefore₁ : ∀ a < btreeDataOffset, page₁ a = page a := fun a ha =>
    insertCell_outside hkey hpos (.inl ha)
  have hbehind₁ : ∀ a, btreeDataOffset + shape.maxInner * shape.keySize ≤ a → page₁ a = page a :=
    fun a ha => insertCell_outside hkey hpos (.inr (by omega))
  have hbefore₂ : ∀ a < btreeDataOffset + shape.maxInner * shape.keySize, page₂ a = page₁ a :=
    fun a ha => insertCell_outside hchild (by omega) (.inl ha)
  have hheader : ∀ a < btreeDataOffset, page₂ a = page a := fun a ha => by
    rw [hbefore₂ a (by omega), hbefore₁ a ha]
  have hcount : keyCount page₂ = ks.length := by rw [keyCount_congr hheader, h.count]
  have hmax := shape.maxInner_lt
  constructor
  · rw [hcount, hlen]
    exact keyCount_setKeyCount _ (by omega)
  · rw [hlen]
    exact hroom
  · have hkeys : cells (setKeyCount page₂ (keyCount page₂ + 1)) btreeDataOffset shape.keySize
        (ks.length + 1) = cells page₁ btreeDataOffset shape.keySize (ks.length + 1) := by
      refine cells_congr fun i hi => ?_
      rw [setKeyCount_of_ge _ _ (by omega), hbefore₂ _ (by omega)]
    rw [hlen, hkeys, hpage₁, cells_insertCell _ _ hpos hkey, h.keys, List.map_insertIdx]
  · have hchildren : cells (setKeyCount page₂ (keyCount page₂ + 1))
        (btreeDataOffset + shape.maxInner * shape.keySize) 4 (ks.length + 1 + 1) =
        cells page₂ (btreeDataOffset + shape.maxInner * shape.keySize) 4 (ks.length + 1 + 1) :=
      cells_congr fun i _ => setKeyCount_of_ge _ _ (by omega)
    have hold : cells page₁ (btreeDataOffset + shape.maxInner * shape.keySize) 4
        (ks.length + 1) = cs.map (toLE 4) := by
      rw [← h.children]
      exact cells_congr fun i _ => hbehind₁ _ (by omega)
    rw [hlen, hchildren, hpage₂, cells_insertCell _ _ (by omega) hchild, hold, List.map_insertIdx]

end InnerPage

end OnionRelay.Db
