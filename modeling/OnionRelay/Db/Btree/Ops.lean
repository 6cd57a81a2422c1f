import OnionRelay.Db.Btree.Split
import OnionRelay.Db.Page
import OnionRelay.Nostr.Types

/-!
# The B+ tree operations

`btree_create`, `btree_open`, `btree_search`, `btree_insert` and `btree_delete` as
programs over the page store.  A page id of 0 is `PAGE_ID_NULL`.
-/

namespace OnionRelay.Db

open OnionRelay.Lib

/-- `BTree`; the pool is the store the programs run against. -/
structure BTree where
  metaPage : Nat
  metadata : BTreeMeta
  compare : List UInt8 → List UInt8 → Int

namespace BTree

variable (tree : BTree)

def keySize : Nat := tree.metadata.keySize

def valueSize : Nat := tree.metadata.valueSize

def maxLeaf : Nat := leafMaxKeys tree.keySize tree.valueSize

def maxInner : Nat := innerMaxKeys tree.keySize

/-- `height - 1` in 32 bits. -/
def levels : Nat := (tree.metadata.height + (2 ^ 32 - 1)) % 2 ^ 32

def withCount (n : Nat) : BTree :=
  { tree with metadata := { tree.metadata with entryCount := n } }

/-- `entry_count++`. -/
def countEntry : BTree := tree.withCount ((tree.metadata.entryCount + 1) % 2 ^ 32)

/-- `entry_count--`. -/
def uncountEntry : BTree := tree.withCount ((tree.metadata.entryCount + (2 ^ 32 - 1)) % 2 ^ 32)

def countLeaf : BTree :=
  { tree with metadata := { tree.metadata with
      leafCount := (tree.metadata.leafCount + 1) % 2 ^ 32 } }

def countInner : BTree :=
  { tree with metadata := { tree.metadata with
      innerCount := (tree.metadata.innerCount + 1) % 2 ^ 32 } }

/-- The tree whose only page is a leaf with one entry. -/
def firstLeaf (pid : Nat) : BTree :=
  { tree with metadata := { tree.metadata with
      rootPage := pid, height := 1, entryCount := 1, leafCount := 1 } }

/-- The tree one higher. -/
def raise (pid : Nat) : BTree :=
  { tree with metadata := { tree.metadata with
      rootPage := pid, height := (tree.metadata.height + 1) % 2 ^ 32 } }

@[simp] theorem metaPage_withCount (n : Nat) : (tree.withCount n).metaPage = tree.metaPage := rfl

@[simp] theorem metaPage_countEntry : tree.countEntry.metaPage = tree.metaPage := by
  rw [countEntry, metaPage_withCount]

@[simp] theorem metaPage_uncountEntry : tree.uncountEntry.metaPage = tree.metaPage := by
  rw [uncountEntry, metaPage_withCount]

end BTree

/-- `btree_flush_meta`. -/
def btreeFlushMeta (tree : BTree) : PageM NostrDBError := do
  match ← pinPage tree.metaPage with
  | none => return .notFound
  | some page =>
    writePage tree.metaPage (writeAt page 0 tree.metadata.encode)
    markDirty tree.metaPage 0
    unpinPage tree.metaPage
    return .ok

/-- `btree_create`. -/
def btreeCreate (keySize valueSize : Nat) (keyType : BTreeKeyType) :
    PageM (NostrDBError × Option BTree) :=
  if keySize = 0 ∨ valueSize = 0 then return (.nullParam, none)
  else do
    match ← allocPage with
    | none => return (.full, none)
    | some (metaPid, metaPage) =>
      let metadata : BTreeMeta :=
        { rootPage := 0, height := 0, entryCount := 0, leafCount := 0, innerCount := 0,
          keySize := keySize, valueSize := valueSize, keyType := keyType }
      writePage metaPid (writeAt metaPage 0 metadata.encode)
      markDirty metaPid 0
      unpinPage metaPid
      return (.ok, some ⟨metaPid, metadata, btreeGetComparator keyType⟩)

/-- `btree_open`. -/
def btreeOpen (metaPage : Nat) : PageM (NostrDBError × Option BTree) :=
  if metaPage = 0 then return (.nullParam, none)
  else do
    match ← pinPage metaPage with
    | none => return (.notFound, none)
    | some page =>
      let metadata := BTreeMeta.decode (readAt page 0 36)
      unpinPage metaPage
      return (.ok, some ⟨metaPage, metadata, btreeGetComparator metadata.keyType⟩)

/-! ## The way down -/

/-- The loop of `find_leaf`, of `btree_insert` and of `btree_delete` over `levels`
inner nodes.  The path has the page and the position taken, the lowest first; only
`btree_insert` keeps it.  `none` where a page cannot be pinned. -/
def descend (tree : BTree) (key : List UInt8) :
    Nat → Nat → List (Nat × Nat) → PageM (Option (Nat × List (Nat × Nat)))
  | 0, pid, path => return some (pid, path)
  | levels + 1, pid, path => do
    match ← pinPage pid with
    | none => return none
    | some page =>
      let pos := btreeNodeChildPos page key tree.keySize tree.compare
      let child := btreeNodeChildAt page pos tree.keySize tree.maxInner
      unpinPage pid
      descend tree key levels child ((pid, pos) :: path)

/-- `find_leaf`. -/
def findLeaf (tree : BTree) (key : List UInt8) : PageM Nat :=
  if tree.metadata.rootPage = 0 then return 0
  else do
    match ← descend tree key tree.levels tree.metadata.rootPage [] with
    | none => return 0
    | some (pid, _) => return pid

/-- `btree_search`. -/
def btreeSearch (tree : BTree) (key : List UInt8) : PageM (NostrDBError × Option (List UInt8)) :=
  if tree.metadata.rootPage = 0 then return (.notFound, none)
  else do
    let leafPid ← findLeaf tree key
    if leafPid = 0 then return (.notFound, none)
    else
      match ← pinPage leafPid with
      | none => return (.notFound, none)
      | some page =>
        let pos := btreeNodeSearchKey page key tree.keySize tree.compare
        unpinPage leafPid
        if btreeNodeHolds page key tree.keySize tree.compare then
          return (.ok,
            some (btreeNodeValueAt page pos tree.keySize tree.valueSize tree.maxLeaf))
        else return (.notFound, none)

/-- `btree_delete`. -/
def btreeDelete (tree : BTree) (key : List UInt8) : PageM (NostrDBError × BTree) :=
  if tree.metadata.rootPage = 0 then return (.notFound, tree)
  else do
    match ← descend tree key tree.levels tree.metadata.rootPage [] with
    | none => return (.notFound, tree)
    | some (pid, _) =>
      match ← pinPage pid with
      | none => return (.notFound, tree)
      | some leaf =>
        if btreeNodeHolds leaf key tree.keySize tree.compare then
          let pos := btreeNodeSearchKey leaf key tree.keySize tree.compare
          writePage pid (btreeNodeDeleteKeyValue leaf pos tree.keySize tree.valueSize tree.maxLeaf)
          markDirty pid 0
          unpinPage pid
          let err ← btreeFlushMeta tree.uncountEntry
          return (err, tree.uncountEntry)
        else
          unpinPage pid
          return (.notFound, tree)

/-! ## Insertion -/

/-- `btree_node_insert_key_value` at the position of the key. -/
def insertHere (tree : BTree) (page : PageData) (key value : List UInt8) : PageData :=
  btreeNodeInsertKeyValue page (btreeNodeSearchKey page key tree.keySize tree.compare) key value
    tree.keySize tree.valueSize tree.maxLeaf

/-- `split_leaf`: the id of the right page, the left page and the split key. -/
def splitLeaf (tree : BTree) (left : PageData) (leftPid : Nat) :
    PageM (Option (BTree × Nat × PageData × List UInt8)) := do
  let mid := keyCount left / 2
  match ← allocPage with
  | none => return none
  | some (rightPid, _) =>
    let right := leafRightPage left rightPid mid tree.keySize tree.valueSize tree.maxLeaf
    let left := leafLeftPage left rightPid mid
    writePage rightPid right
    writePage leftPid left
    markDirty leftPid 0
    markDirty rightPid 0
    unpinPage rightPid
    return some (tree.countLeaf, rightPid, left, readAt right btreeDataOffset tree.keySize)

/-- `split_inner`: the id of the right page and the key that is pushed up. -/
def splitInner (tree : BTree) (left : PageData) (leftPid : Nat) :
    PageM (Option (BTree × Nat × List UInt8)) := do
  let mid := keyCount left / 2
  match ← allocPage with
  | none => return none
  | some (rightPid, _) =>
    let splitKey := readAt left (btreeDataOffset + mid * tree.keySize) tree.keySize
    writePage rightPid (innerRightPage left rightPid mid tree.keySize tree.maxInner)
    writePage leftPid (innerLeftPage left mid)
    markDirty leftPid 0
    markDirty rightPid 0
    unpinPage rightPid
    return some (tree.countInner, rightPid, splitKey)

/-- The end of `btree_insert`: the root was split. -/
def newRoot (tree : BTree) (promoteKey : List UInt8) (newChild : Nat) :
    PageM (NostrDBError × BTree) := do
  match ← allocPage with
  | none => return (.full, tree)
  | some (newRootPid, _) =>
    writePage newRootPid (newRootPage newRootPid promoteKey tree.metadata.rootPage newChild
      tree.keySize tree.maxInner)
    markDirty newRootPid 0
    unpinPage newRootPid
    let tree := ((tree.raise newRootPid).countInner).countEntry
    let err ← btreeFlushMeta tree
    return (err, tree)

/-- The loop of `btree_insert` that goes back up the path.  A full parent takes
the key first and is split then. -/
def propagate (tree : BTree) (promoteKey : List UInt8) (newChild : Nat) :
    List (Nat × Nat) → PageM (NostrDBError × BTree)
  | [] => newRoot tree promoteKey newChild
  | (parentPid, _) :: path => do
    match ← pinPage parentPid with
    | none => return (.notFound, tree)
    | some parent =>
      let insertPos := btreeNodeSearchKey parent promoteKey tree.keySize tree.compare
      let inserted := btreeNodeInsertKeyChild parent insertPos promoteKey newChild tree.keySize
        tree.maxInner
      if keyCount parent < tree.maxInner then
        writePage parentPid inserted
        markDirty parentPid 0
        unpinPage parentPid
        let err ← btreeFlushMeta tree.countEntry
        return (err, tree.countEntry)
      else
        writePage parentPid inserted
        markDirty parentPid 0
        match ← splitInner tree inserted parentPid with
        | none =>
          unpinPage parentPid
          return (.full, tree)
        | some (tree, newRight, newPromote) =>
          unpinPage parentPid
          propagate tree newPromote newRight path

/-- The part of `btree_insert` for a full leaf. -/
def insertSplit (tree : BTree) (leaf : PageData) (pid : Nat) (path : List (Nat × Nat))
    (key value : List UInt8) : PageM (NostrDBError × BTree) := do
  match ← splitLeaf tree leaf pid with
  | none =>
    unpinPage pid
    return (.full, tree)
  | some (tree, rightPid, left, splitKey) =>
    if tree.compare key splitKey < 0 then
      writePage pid (insertHere tree left key value)
      markDirty pid 0
      unpinPage pid
      propagate tree splitKey rightPid path
    else
      match ← pinPage rightPid with
      | none =>
        unpinPage pid
        return (.notFound, tree)
      | some right =>
        writePage rightPid (insertHere tree right key value)
        markDirty rightPid 0
        unpinPage rightPid
        unpinPage pid
        propagate tree splitKey rightPid path

/-- The part of `btree_insert` for the empty tree. -/
def insertFirst (tree : BTree) (key value : List UInt8) : PageM (NostrDBError × BTree) := do
  match ← allocPage with
  | none => return (.full, tree)
  | some (pid, _) =>
    writePage pid (btreeNodeInsertKeyValue (btreeNodeInitLeaf pid) 0 key value tree.keySize
      tree.valueSize tree.maxLeaf)
    markDirty pid 0
    unpinPage pid
    let err ← btreeFlushMeta (tree.firstLeaf pid)
    return (err, tree.firstLeaf pid)

/-- `btree_insert`. -/
def btreeInsert (tree : BTree) (key value : List UInt8) : PageM (NostrDBError × BTree) :=
  if tree.metadata.rootPage = 0 then insertFirst tree key value
  else do
    match ← descend tree key tree.levels tree.metadata.rootPage [] with
    | none => return (.notFound, tree)
    | some (pid, path) =>
      match ← pinPage pid with
      | none => return (.notFound, tree)
      | some leaf =>
        if btreeNodeHolds leaf key tree.keySize tree.compare then
          unpinPage pid
          return (.duplicate, tree)
        else if keyCount leaf < tree.maxLeaf then
          writePage pid (insertHere tree leaf key value)
          markDirty pid 0
          unpinPage pid
          let err ← btreeFlushMeta tree.countEntry
          return (err, tree.countEntry)
        else insertSplit tree leaf pid path key value

end OnionRelay.Db
