import OnionRelay.Db.Btree.Node

/-!
# Splitting nodes

What `split_leaf` and `split_inner` leave on the two pages, and the page of a new
root.  `LeafPage.left` and `LeafPage.right` say that the halves of a leaf are its
first and its last entries.
-/

namespace OnionRelay.Db

open OnionRelay.Lib

/-- The right page of `split_leaf`, from the page that is split. -/
def leafRightPage (left : PageData) (rightPid mid keySize valueSize maxLeaf : Nat) : PageData :=
  let moveCount := keyCount left - mid
  let right := btreeNodeInitLeaf rightPid
  let right := writeAt right btreeDataOffset
    (readAt left (btreeDataOffset + mid * keySize) (moveCount * keySize))
  let right := writeAt right (btreeDataOffset + maxLeaf * keySize)
    (readAt left (btreeDataOffset + maxLeaf * keySize + mid * valueSize) (moveCount * valueSize))
  let right := setKeyCount right moveCount
  setRightSibling right (rightSibling left)

/-- The left page of `split_leaf`. -/
def leafLeftPage (left : PageData) (rightPid mid : Nat) : PageData :=
  setKeyCount (setRightSibling left rightPid) mid

/-- The right page of `split_inner`; the key at `mid` goes to neither page. -/
def innerRightPage (left : PageData) (rightPid mid keySize maxInner : Nat) : PageData :=
  let moveKeys := keyCount left - mid - 1
  let right := btreeNodeInitInner rightPid
  let right := writeAt right btreeDataOffset
    (readAt left (btreeDataOffset + (mid + 1) * keySize) (moveKeys * keySize))
  let right := writeAt right (btreeDataOffset + maxInner * keySize)
    (readAt left (btreeDataOffset + maxInner * keySize + (mid + 1) * 4) ((moveKeys + 1) * 4))
  setKeyCount right moveKeys

/-- The left page of `split_inner`. -/
def innerLeftPage (left : PageData) (mid : Nat) : PageData := setKeyCount left mid

/-- The root over two nodes. -/
def newRootPage (pid : Nat) (key : List UInt8) (oldRoot newChild keySize maxInner : Nat) : PageData :=
  let page := btreeNodeInitInner pid
  let page := writeAt page btreeDataOffset key
  let page := writeAt page (btreeDataOffset + maxInner * keySize) (toLE 4 oldRoot)
  let page := writeAt page (btreeDataOffset + maxInner * keySize + 4) (toLE 4 newChild)
  setKeyCount page 1

variable {shape : BTreeShape}

namespace LeafPage

variable {page : PageData} {es : List (shape.Key × shape.Value)} {next : Nat}

/-- **The left half.** -/
theorem left (h : LeafPage shape page es next) {mid rightPid : Nat} (hmid : mid ≤ es.length)
    (hpid : rightPid < 2 ^ 32) :
    LeafPage shape (leafLeftPage page rightPid mid) (es.take mid) rightPid := by
  have hfits := h.fits
  have hmax := shape.maxLeaf_lt
  have hlen : (es.take mid).length = mid := by rw [List.length_take, Nat.min_eq_left hmid]
  have hdata : ∀ a, btreeDataOffset ≤ a → leafLeftPage page rightPid mid a = page a := fun a ha => by
    rw [leafLeftPage, setKeyCount_of_ge _ _ ha, setRightSibling_of_ge _ _ ha]
  constructor
  · rw [hlen]
    exact keyCount_setKeyCount _ (by omega)
  · rw [hlen]
    omega
  · rw [hlen, List.map_take, ← h.keys, cells_take _ _ _ hmid]
    exact cells_congr fun i _ => hdata _ (by omega)
  · rw [hlen, List.map_take, ← h.values, cells_take _ _ _ hmid]
    exact cells_congr fun i _ => hdata _ (by omega)
  · rw [leafLeftPage, rightSibling_setKeyCount, rightSibling_setRightSibling _ hpid]

/-- **The right half.** -/
theorem right (h : LeafPage shape page es next) {mid : Nat} (hmid : mid ≤ es.length)
    (hnext : next < 2 ^ 32) (rightPid : Nat) :
    LeafPage shape (leafRightPage page rightPid mid shape.keySize shape.valueSize shape.maxLeaf)
      (es.drop mid) next := by
  have hfits := h.fits
  have hmax := shape.maxLeaf_lt
  have hlen : (es.drop mid).length = es.length - mid := List.length_drop
  have hend : (es.length - mid) * shape.keySize ≤ shape.maxLeaf * shape.keySize :=
    Nat.mul_le_mul_right _ (by omega)
  simp only [leafRightPage, h.count, h.next]
  set page₁ := writeAt (btreeNodeInitLeaf rightPid) btreeDataOffset
    (readAt page (btreeDataOffset + mid * shape.keySize) ((es.length - mid) * shape.keySize))
    with hpage₁
  set page₂ := writeAt page₁ (btreeDataOffset + shape.maxLeaf * shape.keySize)
    (readAt page (btreeDataOffset + shape.maxLeaf * shape.keySize + mid * shape.valueSize)
      ((es.length - mid) * shape.valueSize)) with hpage₂
  have hdata : ∀ a, btreeDataOffset ≤ a →
      setRightSibling (setKeyCount page₂ (es.length - mid)) next a = page₂ a := fun a ha => by
    rw [setRightSibling_of_ge _ _ ha, setKeyCount_of_ge _ _ ha]
  constructor
  · rw [keyCount_setRightSibling, hlen]
    exact keyCount_setKeyCount _ (by omega)
  · omega
  · have hkeys : cells (setRightSibling (setKeyCount page₂ (es.length - mid)) next) btreeDataOffset
        shape.keySize (es.length - mid) = cells page₂ btreeDataOffset shape.keySize
          (es.length - mid) := cells_congr fun i _ => hdata _ (by omega)
    rw [hlen, hkeys, hpage₂, cells_writeAt_of_disjoint (.inl (by omega)), hpage₁,
      cells_writeAt_readAt, List.map_drop, ← h.keys, cells_drop]
  · have hvalues : cells (setRightSibling (setKeyCount page₂ (es.length - mid)) next)
        (btreeDataOffset + shape.maxLeaf * shape.keySize) shape.valueSize (es.length - mid) =
        cells page₂ (btreeDataOffset + shape.maxLeaf * shape.keySize) shape.valueSize
          (es.length - mid) := cells_congr fun i _ => hdata _ (by omega)
    rw [hlen, hvalues, hpage₂, cells_writeAt_readAt, List.map_drop, ← h.values, cells_drop]
  · exact rightSibling_setRightSibling _ hnext

end LeafPage

/-- The page of a root over two nodes. -/
theorem InnerPage.newRoot (pid : Nat) (key : shape.Key) (oldRoot newChild : Nat) :
    InnerPage shape (newRootPage pid key.bytes oldRoot newChild shape.keySize shape.maxInner) [key]
      [oldRoot, newChild] := by
  have hkey : key.bytes.length = shape.keySize := key.length_bytes
  obtain ⟨hmax, -⟩ := shape.maxInner_bounds
  have hroom : shape.keySize ≤ shape.maxInner * shape.keySize := Nat.le_mul_of_pos_left _ (by omega)
  simp only [newRootPage]
  set page₁ := writeAt (btreeNodeInitInner pid) btreeDataOffset key.bytes with hpage₁
  set page₂ := writeAt page₁ (btreeDataOffset + shape.maxInner * shape.keySize) (toLE 4 oldRoot)
    with hpage₂
  set page₃ := writeAt page₂ (btreeDataOffset + shape.maxInner * shape.keySize + 4)
    (toLE 4 newChild) with hpage₃
  constructor
  · exact keyCount_setKeyCount _ (by decide)
  · exact (Nat.le_succ 1).trans hmax
  · have hdata : cells (setKeyCount page₃ 1) btreeDataOffset shape.keySize 1 =
        cells page₁ btreeDataOffset shape.keySize 1 := by
      refine cells_congr fun i hi => ?_
      rw [setKeyCount_of_ge _ _ (by omega), hpage₃, writeAt_of_lt (by omega), hpage₂,
        writeAt_of_lt (by omega)]
    have hcell : readAt page₁ (btreeDataOffset + 0 * shape.keySize) shape.keySize = key.bytes := by
      rw [Nat.zero_mul, Nat.add_zero]
      exact readAt_writeAt_same _ _ _ hkey.symm
    rw [List.length_singleton, hdata]
    exact congrArg (fun cell => [cell]) hcell
  · have hfirst : readAt (setKeyCount page₃ 1) (btreeDataOffset + shape.maxInner * shape.keySize) 4 =
        toLE 4 oldRoot := by
      rw [readAt_congr fun i _ => setKeyCount_of_ge page₃ 1 (by omega), hpage₃,
        readAt_writeAt_of_disjoint (.inl (by omega)), hpage₂,
        readAt_writeAt_same _ _ _ (length_toLE 4 oldRoot).symm]
    have hsecond : readAt (setKeyCount page₃ 1)
        (btreeDataOffset + shape.maxInner * shape.keySize + 4) 4 = toLE 4 newChild := by
      rw [readAt_congr fun i _ => setKeyCount_of_ge page₃ 1 (by omega), hpage₃,
        readAt_writeAt_same _ _ _ (length_toLE 4 newChild).symm]
    have hcells : cells (setKeyCount page₃ 1) (btreeDataOffset + shape.maxInner * shape.keySize) 4
        (0 + 1 + 1) = [readAt (setKeyCount page₃ 1)
          (btreeDataOffset + shape.maxInner * shape.keySize) 4, readAt (setKeyCount page₃ 1)
          (btreeDataOffset + shape.maxInner * shape.keySize + 4) 4] := rfl
    rw [List.length_singleton, hcells, hfirst, hsecond]
    rfl

end OnionRelay.Db
