import OnionRelay.Db.Btree.FiniteMap

/-!
# A full parent

The insertion that finds a full parent puts the key into it before the split, in
the place of the first children (`InnerPage.overflow`).  `numberedKey` are keys of
the pubkey+kind index that begin with zeros: after an ascending run of them the
first child of the old root is page 0, and the smallest key is lost
(`search_lost`).
-/

namespace OnionRelay.Db

open OnionRelay.Lib BTreeShape

variable {shape : BTreeShape}

/-- **One key more than an inner node has places for**: the key is where the first
children were. -/
theorem InnerPage.overflow {page : PageData} {ks : List shape.Key} {cs : List Nat}
    (h : InnerPage shape page ks cs) (hfull : ks.length = shape.maxInner)
    (hkeySize : 4 ≤ shape.keySize ∧ shape.keySize ≤ (shape.maxInner + 1) * 4) (key : shape.Key)
    (child : Nat) {page' : PageData} (hpage' : page' = btreeNodeInsertKeyChild page shape.maxInner
      key.bytes child shape.keySize shape.maxInner) :
    keyCount page' = shape.maxInner + 1 ∧
      cells page' btreeDataOffset shape.keySize (shape.maxInner + 1) = (ks ++ [key]).map Key.bytes ∧
        btreeNodeChildAt page' 0 shape.keySize shape.maxInner = ofLE (key.bytes.take 4) := by
  have hkey : key.bytes.length = shape.keySize := key.length_bytes
  have hchild : (toLE 4 child).length = 4 := length_toLE 4 child
  obtain ⟨hword, hsmall⟩ := hkeySize
  simp only [btreeNodeInsertKeyChild, h.count, hfull] at hpage'
  set page₁ := insertCell page btreeDataOffset shape.keySize shape.maxInner shape.maxInner key.bytes
    with hpage₁
  set page₂ := insertCell page₁ (btreeDataOffset + shape.maxInner * shape.keySize) 4
    (shape.maxInner + 1) (shape.maxInner + 1) (toLE 4 child) with hpage₂
  -- the last child is written behind the key
  have hbefore₂ : ∀ a < btreeDataOffset + shape.maxInner * shape.keySize + shape.keySize,
      page₂ a = page₁ a := by
    intro a ha
    rw [hpage₂, insertCell, if_neg (Nat.lt_irrefl _), writeAt_of_lt (by omega)]
  have hheader : ∀ a < btreeDataOffset, page₂ a = page a := fun a ha => by
    rw [hbefore₂ a (by omega), hpage₁, insertCell_outside hkey le_rfl (.inl ha)]
  have hcount : keyCount page₂ = shape.maxInner := by rw [keyCount_congr hheader, h.count, hfull]
  have hdata : ∀ a, btreeDataOffset ≤ a →
      a < btreeDataOffset + shape.maxInner * shape.keySize + shape.keySize → page' a = page₁ a := by
    intro a ha hlt
    rw [hpage', setKeyCount_of_ge _ _ ha, hbefore₂ a hlt]
  have hmax := shape.maxInner_lt
  refine ⟨?_, ?_, ?_⟩
  · rw [hpage', hcount]
    exact keyCount_setKeyCount _ (by omega)
  · have hcells : cells page' btreeDataOffset shape.keySize (shape.maxInner + 1) =
        cells page₁ btreeDataOffset shape.keySize (shape.maxInner + 1) := by
      refine cells_congr fun i hi => hdata _ (by omega) ?_
      rw [Nat.succ_mul] at hi
      omega
    have hkeys := h.keys
    rw [hfull] at hkeys
    have hlength : (ks.map Key.bytes).length = shape.maxInner := by rw [List.length_map, hfull]
    rw [hcells, hpage₁, cells_insertCell _ _ le_rfl hkey, hkeys, ← hlength, List.insertIdx_length_self,
      List.map_append]
    rfl
  · have hcell : readAt page₁ (btreeDataOffset + shape.maxInner * shape.keySize) shape.keySize =
        key.bytes := by
      rw [hpage₁, insertCell_eq]
      exact readAt_writeAt_same _ _ _ hkey.symm
    rw [btreeNodeChildAt, Nat.zero_mul, Nat.add_zero, ← hcell, readAt_take _ _ hword]
    congr 1
    exact readAt_congr fun i hi => hdata _ (by omega) (by omega)

/-- The pages after a full root took a key more, was split and got a root over it. -/
theorem run_propagate_full (allocator : Allocator) (idx child : Nat) {tree : BTree} {s : FlatStore}
    {page : Nat} {ks : List shape.Key} {cs : List Nat} {k : shape.Key} (htree : shape.Fits tree)
    (hmeta : s.Live tree.metaPage) (hlive : s.Live page) (hne : page ≠ tree.metaPage)
    (hinner : InnerPage shape (s.pages page) ks cs) (hsorted : ks.Pairwise (· < ·))
    (hfull : ks.length = shape.maxInner) (hlast : lowerBound k ks = shape.maxInner)
    (hkeySize : 4 ≤ shape.keySize ∧ shape.keySize ≤ (shape.maxInner + 1) * 4)
    (hfile : s.used.length + 2 < dbMaxPages) :
    ∃ (s' : FlatStore) (tree' : BTree) (promoted : shape.Key) (right : Nat),
      (propagate tree k.bytes child [(page, idx)]).run (flatStore allocator grantAll) s =
          ((.ok, tree'), s') ∧
        shape.Fits tree' ∧ tree'.metadata.height = (tree.metadata.height + 1) % 2 ^ 32 ∧
        s'.Live tree'.metadata.rootPage ∧ s'.Live page ∧ promoted ∈ ks ∧
        s'.pages tree'.metadata.rootPage = newRootPage tree'.metadata.rootPage promoted.bytes
          tree.metadata.rootPage right shape.keySize shape.maxInner ∧
        s'.pages page = innerLeftPage (btreeNodeInsertKeyChild (s.pages page) shape.maxInner k.bytes
          child shape.keySize shape.maxInner) ((shape.maxInner + 1) / 2) := by
  obtain ⟨htwo, -⟩ := shape.maxInner_bounds
  obtain ⟨hcount, hkeys, -⟩ := hinner.overflow hfull hkeySize k child rfl
  set inserted := btreeNodeInsertKeyChild (s.pages page) shape.maxInner k.bytes child shape.keySize
    shape.maxInner with hinserted
  have hmid : (shape.maxInner + 1) / 2 < ks.length := by omega
  have hpromoted : readAt inserted (btreeDataOffset + (shape.maxInner + 1) / 2 * shape.keySize)
      shape.keySize = ks[(shape.maxInner + 1) / 2].bytes := by
    have hcell := getElem?_cells inserted btreeDataOffset shape.keySize
      (show (shape.maxInner + 1) / 2 < shape.maxInner + 1 by omega)
    rw [hkeys, List.getElem?_map, List.getElem?_append_left hmid, List.getElem?_eq_getElem hmid] at hcell
    exact (Option.some.inj hcell).symm
  -- the pages of the right node and of the new root
  obtain ⟨hfresh, hpos, hlt⟩ := allocator.fresh s.used (by omega)
  set r := allocator.pick s.used with hr
  obtain ⟨hfresh', hpos', hlt'⟩ := allocator.fresh (r :: s.used) (by rw [List.length_cons]; omega)
  set top := allocator.pick (r :: s.used) with htop
  have hpageR : page ≠ r := fun heq => hfresh (heq ▸ hlive.mem)
  have hpageTop : page ≠ top := fun heq => hfresh' (heq ▸ List.mem_cons_of_mem _ hlive.mem)
  have hmetaTop : top ≠ tree.metaPage := fun heq => hfresh' (heq ▸ List.mem_cons_of_mem _ hmeta.mem)
  set tree' := ((tree.countInner.raise top).countInner).countEntry with htree'
  have hmetaPage : tree'.metaPage = tree.metaPage := by
    rw [htree', BTree.metaPage_countEntry]
    rfl
  have hfits : shape.Fits tree.countInner := ⟨htree.1, htree.2, htree.3, htree.4⟩
  set s₁ := (((s.set page inserted).grow r).set r (innerRightPage inserted r
    ((shape.maxInner + 1) / 2) shape.keySize shape.maxInner)).set page
      (innerLeftPage inserted ((shape.maxInner + 1) / 2)) with hs₁
  have hsplit : (splitInner tree inserted page).run (flatStore allocator grantAll)
      (s.set page inserted) =
        (some (tree.countInner, r, ks[(shape.maxInner + 1) / 2].bytes), s₁) := by
    simp only [splitInner, Prog.run_bind, run_allocPage,
      allocate_of_granted allocator grantAll (s.set page inserted) rfl, run_writePage, run_markDirty,
      run_unpinPage, Prog.run_pure, hcount, htree.keySize_eq, htree.maxInner_eq, hpromoted, used_set,
      ← hr, ← hs₁]
  have hused : s₁.used = r :: s.used := rfl
  set s₂ := (s₁.grow top).set top (newRootPage top ks[(shape.maxInner + 1) / 2].bytes
    tree.metadata.rootPage r shape.keySize shape.maxInner) with hs₂
  have hmem : ∀ pid ∈ s.used, pid ∈ s₂.used := fun pid hpid =>
    List.mem_cons_of_mem _ (List.mem_cons_of_mem _ hpid)
  have hlive' : s₂.Live tree'.metaPage := by
    rw [hmetaPage]
    exact ⟨hmem _ hmeta.mem, hmeta.pos, hmeta.lt⟩
  have hnot : ¬ keyCount (s.pages page) < tree.maxInner := by
    rw [hinner.count, htree.maxInner_eq, hfull]
    exact Nat.lt_irrefl _
  have hfetch : s.fetch page = some (s.pages page) := hlive.fetch
  have hroot : tree'.metadata.rootPage = top := rfl
  refine ⟨s₂.flush tree', tree', ks[(shape.maxInner + 1) / 2], r, ?_,
    ⟨htree.1, htree.2, htree.3, htree.4⟩, rfl, ⟨List.mem_cons_self, hpos', hlt'⟩,
    ⟨hmem _ hlive.mem, hlive.pos, hlive.lt⟩, List.getElem_mem _, ?_, ?_⟩
  · simp only [propagate, Prog.run_bind, run_pinPage, hfetch, if_neg hnot, run_writePage,
      run_markDirty]
    rw [htree.keySize_eq, htree.maxInner_eq, htree.compare, hinner.searchKey hsorted, hlast,
      ← hinserted, hsplit]
    simp only [Prog.run_bind, run_unpinPage, newRoot, run_allocPage,
      allocate_of_granted allocator grantAll s₁ rfl, run_writePage, run_markDirty, hused, ← htop]
    rw [hfits.keySize_eq, hfits.maxInner_eq, show tree.countInner.metadata.rootPage =
      tree.metadata.rootPage from rfl, ← hs₂, ← htree', run_btreeFlushMeta _ _ hlive']
    rfl
  · rw [hroot, pages_flush_of_ne _ (by rwa [hmetaPage]), hs₂, pages_set_self]
  · rw [pages_flush_of_ne _ (by rwa [hmetaPage]), hs₂, pages_set_of_ne _ _ hpageTop,
      pages_grow_of_ne _ hpageTop, hs₁, pages_set_self]

/-- The search for a key below all separators, where the first child of the old
root is page 0. -/
theorem search_first_child_null (allocator : Allocator) {tree : BTree} {s : FlatStore}
    {page right : Nat} {promoted low : shape.Key} {ks : List shape.Key} (htree : shape.Fits tree)
    (hheight : tree.metadata.height = 3) (htop : s.Live tree.metadata.rootPage) (hlive : s.Live page)
    (hroot : s.pages tree.metadata.rootPage = newRootPage tree.metadata.rootPage promoted.bytes page
      right shape.keySize shape.maxInner) (hlow : low < promoted)
    (hcount : keyCount (s.pages page) = ks.length)
    (hkeys : cells (s.pages page) btreeDataOffset shape.keySize ks.length = ks.map Key.bytes)
    (hsorted : ks.Pairwise (· < ·)) (hbelow : ∀ k ∈ ks, low < k)
    (hnull : btreeNodeChildAt (s.pages page) 0 shape.keySize shape.maxInner = 0) :
    (btreeSearch tree low.bytes).run (flatStore allocator grantAll) s = ((.notFound, none), s) := by
  have hinner := InnerPage.newRoot tree.metadata.rootPage promoted page right
  rw [← hroot] at hinner
  have hfirst := btreeNodeChildPos_first hinner.count hinner.keys (List.pairwise_singleton _ _)
    (show ∀ k ∈ [promoted], low < k by simpa using hlow)
  have hchild := hinner.childAt (show [page, right][0]? = some page from rfl) hlive.lt_word
  have hsecond := btreeNodeChildPos_first hcount hkeys hsorted hbelow
  have hlevels : tree.levels = 2 := by
    rw [BTree.levels, hheight]
    omega
  have hfetch : s.fetch tree.metadata.rootPage = some (s.pages tree.metadata.rootPage) := htop.fetch
  have hfetch' : s.fetch page = some (s.pages page) := hlive.fetch
  have hdescend : (descend tree low.bytes 2 tree.metadata.rootPage []).run
      (flatStore allocator grantAll) s =
        (some (0, [(page, 0), (tree.metadata.rootPage, 0)]), s) := by
    simp only [descend, Prog.run_bind, run_pinPage, hfetch, run_unpinPage, Prog.run_pure,
      htree.keySize_eq, htree.maxInner_eq, htree.compare, hfirst, hchild, hfetch', hsecond, hnull]
  simp only [btreeSearch, findLeaf, if_neg htop.pos.ne', Prog.run_bind, hlevels, hdescend,
    Prog.run_pure, if_true]

/-- **The insertion of `x` under a full root**, all of whose keys begin with zeros
and are below `x`: the key `low` below the separators is not found any more. -/
theorem search_lost (allocator : Allocator) {st : BTreeState} {page : Nat}
    {row : Row shape.Key (shape.Nodes 0)} {x low : shape.Key} (v : shape.Value)
    (hkeySize : 4 ≤ shape.keySize ∧ shape.keySize ≤ (shape.maxInner + 1) * 4)
    (hh : shape.Holds st.2 st.1 (PageTree.node page row))
    (hbound : (PageTree.node page row).Ordered 1 (some low) (some x))
    (hx : ∀ w, (x, w) ∉ (PageTree.node page row).entries 1)
    (hzero : ∀ e ∈ (PageTree.node page row).entries 1, ofLE (e.1.bytes.take 4) = 0)
    (hfull : ((row.pick x).entries 0).length = shape.maxLeaf)
    (hrow : row.keys.length = shape.maxInner) (hfile : st.2.used.length + 3 < dbMaxPages) :
    (treeStep allocator st (.insert x v)).1 = (.ok, none) ∧
      (treeStep allocator (treeStep allocator st (.insert x v)).2 (.search low)).1 =
        (.notFound, none) := by
  obtain ⟨tree, s⟩ := st
  dsimp only at hh hfile
  have hbound' := hbound
  rw [PageTree.ordered_node] at hbound'
  obtain ⟨hsortedKeys, habove⟩ := Row.Chain.keys (fun _ _ _ => PageTree.Ordered.apart) hbound'
  have hunder := Row.Chain.keys_under (fun _ _ _ => PageTree.Ordered.apart) hbound'
  obtain ⟨hlive, hpage⟩ := hh.leafPage x
  have hsorted := hh.sorted_leafAt x
  rw [PageTree.leafAt_node, PageTree.leafAt_zero] at hlive hpage hsorted
  obtain ⟨hliveP, hinner, hitems⟩ := Stored.node_iff.mp hh.pages
  have htwo : 2 ≤ shape.maxLeaf := shape.two_le_leafMaxKeys
  obtain ⟨hmaxInner, hmaxInnerLe⟩ := shape.maxInner_bounds
  obtain ⟨hfresh, -, -⟩ := allocator.fresh s.used (by omega)
  obtain ⟨s₁, k, w, rest, hrest, hrun, hused, -, hkeep, -, -⟩ :=
    run_insertSplit (x := x) allocator grantAll rfl (by omega) hh.fits hlive hpage hsorted hfull v
      [(page, row.index x)]
  -- the promoted key belongs behind all separators, and begins with zeros
  have hindex : row.index x = shape.maxInner := by
    rw [Row.index_eq_length fun k hk => (under_some.mp (hunder k hk)).le, hrow]
  have hwhere : lowerBound k row.keys = shape.maxInner := by
    rw [← hindex]
    refine Row.Chain.lowerBound_keys (fun _ _ _ => PageTree.Ordered.apart) hbound' fun a b hab => ?_
    obtain ⟨hlow, hhigh, -, -⟩ := PageTree.Ordered.cut hab (by omega) hrest 0
    exact ⟨hlow, hhigh⟩
  have hkMem : (k, w) ∈ (PageTree.node page row).entries 1 := by
    have hmem : (k, w) ∈ (row.pick x).entries 0 := by
      refine List.mem_of_mem_drop (i := ((row.pick x).entries 0).length / 2) ?_
      rw [hrest]
      exact List.mem_cons_self
    exact List.mem_flatMap.mpr ⟨_, row.pick_mem x, hmem⟩
  have hq : allocator.pick s.used ∉ s.used := hfresh
  set q := allocator.pick s.used with hqDef
  have hpageLeaf : page ≠ (row.pick x).root := by
    intro heq
    have hnodup : (page :: row.items.flatMap (PageTree.pages 0)).Nodup := hh.nodup
    refine (List.nodup_cons.mp hnodup).1 ?_
    rw [heq]
    exact List.mem_flatMap.mpr ⟨_, row.pick_mem x, PageTree.root_mem_pages _⟩
  have hparent : s₁.pages page = s.pages page :=
    hkeep page hpageLeaf fun heq => hq (heq ▸ hliveP.mem)
  have hlive₁ : ∀ pid, s.Live pid → s₁.Live pid := fun pid hpid =>
    ⟨hused ▸ List.mem_cons_of_mem _ hpid.mem, hpid.pos, hpid.lt⟩
  have hfits₁ : shape.Fits tree.countLeaf := ⟨hh.fits.1, hh.fits.2, hh.fits.3, hh.fits.4⟩
  have hinner₁ := hinner
  rw [← hparent] at hinner₁
  obtain ⟨s', tree', promoted, right, hpropagate, hfits', hheight, htop, hpageLive, hpromoted, hroot,
      hleft⟩ :=
    run_propagate_full allocator (row.index x) q hfits₁ (hlive₁ _ hh.live) (hlive₁ _ hliveP)
      (fun heq => hh.apart (heq ▸ List.mem_cons_self)) hinner₁ hsortedKeys hrow hwhere hkeySize
      (by rw [hused, List.length_cons]; omega)
  have hinsert : (btreeInsert tree x.bytes v.1).run (flatStore allocator grantAll) s =
      ((.ok, tree'), s') := by
    rw [hh.run_btreeInsert_of_full _ _ hx hfull, PageTree.leafAt_node, PageTree.leafAt_zero, PageTree.path_node,
      PageTree.path_zero, List.reverse_singleton, hrun, hpropagate]
  -- the old root now has the first half of the separators, and no first child
  obtain ⟨hcount, hkeys, hchild⟩ := hinner₁.overflow hrow hkeySize k q rfl
  have hmid : (shape.maxInner + 1) / 2 ≤ row.keys.length := by omega
  have hlength : (row.keys.take ((shape.maxInner + 1) / 2)).length = (shape.maxInner + 1) / 2 := by
    rw [List.length_take, Nat.min_eq_left hmid]
  have hdata : ∀ a, btreeDataOffset ≤ a → s'.pages page a =
      btreeNodeInsertKeyChild (s₁.pages page) shape.maxInner k.bytes q shape.keySize shape.maxInner a :=
    fun a ha => by rw [hleft, innerLeftPage, setKeyCount_of_ge _ _ ha]
  have hmax := shape.maxInner_lt
  rw [show tree.countLeaf.metadata.rootPage = page from hh.rootPage] at hroot
  have hcount' : keyCount (s'.pages page) = (row.keys.take ((shape.maxInner + 1) / 2)).length := by
    rw [hleft, hlength]
    exact keyCount_setKeyCount _ (by omega)
  have hkeys' : cells (s'.pages page) btreeDataOffset shape.keySize
      (row.keys.take ((shape.maxInner + 1) / 2)).length =
        (row.keys.take ((shape.maxInner + 1) / 2)).map Key.bytes := by
    rw [hlength, cells_congr fun i _ => hdata _ (by omega), ← cells_take _ _ _
      (show (shape.maxInner + 1) / 2 ≤ shape.maxInner + 1 by omega), hkeys, ← List.map_take,
      List.take_append_of_le_length hmid]
  have hnull : btreeNodeChildAt (s'.pages page) 0 shape.keySize shape.maxInner = 0 := by
    rw [btreeNodeChildAt, readAt_congr fun i _ => hdata _ (by omega)]
    exact hchild.trans (hzero _ hkMem)
  have hheight' : tree'.metadata.height = 3 := by
    rw [hheight]
    show (tree.metadata.height + 1) % 2 ^ 32 = 3
    rw [hh.height]
    rfl
  have hsearch := search_first_child_null allocator hfits' hheight' htop hpageLive hroot
    (habove promoted hpromoted low rfl) hcount' hkeys' (hsortedKeys.sublist (List.take_sublist _ _))
    (fun k hk => habove k (List.mem_of_mem_take hk) low rfl) hnull
  simp only [treeStep, hinsert, hsearch]
  exact ⟨trivial, trivial⟩

/-! ## Ascending keys -/

/-- The key of 32 zero bytes and a number. -/
def numberedKey (i : Nat) : pubkeyKind.Key :=
  ⟨List.replicate 32 0 ++ toLE 4 i, by rw [List.length_append, List.length_replicate, length_toLE]; rfl⟩

def zeroValue : pubkeyKind.Value := ⟨List.replicate 4 0, rfl⟩

theorem rank_numberedKey {i : Nat} (hi : i < 2 ^ 32) :
    (numberedKey i).rank = List.replicate 32 (0 : Int) ++ [(i : Int)] := by
  have hlt : i < 256 ^ 4 := by omega
  show ((numberedKey i).bytes.take 32).map (fun b => (b.toNat : Int)) ++
    [(ofLE ((numberedKey i).bytes.drop 32) : Int)] = _
  rw [show (numberedKey i).bytes = List.replicate 32 0 ++ toLE 4 i from rfl,
    List.take_left' (List.length_replicate ..), List.drop_left' (List.length_replicate ..),
    ofLE_toLE_of_lt hlt]
  rfl

theorem numberedKey_lt {i j : Nat} (hi : i < 2 ^ 32) (hj : j < 2 ^ 32) :
    numberedKey i < numberedKey j ↔ i < j := by
  show (numberedKey i).rank < (numberedKey j).rank ↔ i < j
  rw [rank_numberedKey hi, rank_numberedKey hj]
  simp [List.replicate, List.cons_lt_cons_iff]

theorem take_numberedKey (i : Nat) : ofLE ((numberedKey i).bytes.take 4) = 0 := rfl

/-- The value of every key below the `i`-th, and no other. -/
def numberedMap (i : Nat) (m : pubkeyKind.Key → Option pubkeyKind.Value) : Prop :=
  ∀ k v, m k = some v ↔ v = zeroValue ∧ ∃ j < i, k = numberedKey j

/-- The `i`-th key inserted and the first one searched for, `n` times over. -/
def probes : Nat → Nat → List (BTreeRequest pubkeyKind)
  | _, 0 => []
  | i, n + 1 => .insert (numberedKey i) zeroValue :: .search (numberedKey 0) :: probes (i + 1) n

/-- More keys than a root over leaves has places for. -/
def tooMany : Nat := (pubkeyKind.maxInner + 1) * pubkeyKind.maxLeaf + 1

theorem length_le_of_numbered {base i : Nat} {lo hi : Option pubkeyKind.Key} {st : BTreeState}
    {m : pubkeyKind.Key → Option pubkeyKind.Value} (hm : Mirrors base lo hi st m)
    (hmap : numberedMap i m) (hi : i ≤ 2 ^ 32) : i < tooMany := by
  cases hm with
  | empty opened root count used nothing =>
    rcases Nat.eq_zero_or_pos i with rfl | hpos
    · exact Nat.succ_pos _
    · have hsome := (hmap (numberedKey 0) zeroValue).mpr ⟨rfl, 0, hpos, rfl⟩
      rw [nothing] at hsome
      exact absurd hsome (by simp)
  | tree h t low holds bound used entries =>
    -- as many entries as keys, and no more than places
    have hinj : ((List.range i).map numberedKey).Nodup := by
      refine List.Nodup.map_on ?_ List.nodup_range
      intro a ha b hb heq
      rw [List.mem_range] at ha hb
      by_contra hne
      rcases Nat.lt_or_gt_of_ne hne with hlt | hgt
      · exact absurd heq ((numberedKey_lt (by omega) (by omega)).mpr hlt).ne
      · exact absurd heq ((numberedKey_lt (by omega) (by omega)).mpr hgt).ne'
    have hsub : (List.range i).map numberedKey ⊆ (t.entries h).map Prod.fst := by
      intro k hk
      obtain ⟨j, hj, rfl⟩ := List.mem_map.mp hk
      exact List.mem_map.mpr ⟨(numberedKey j, zeroValue),
        (entries _ _).mp ((hmap _ _).mpr ⟨rfl, j, List.mem_range.mp hj, rfl⟩), rfl⟩
    have hle := (List.subperm_of_subset hinj hsub).length_le
    rw [List.length_map, List.length_map, List.length_range] at hle
    have hplaces : (t.entries h).length ≤ (pubkeyKind.maxInner + 1) * pubkeyKind.maxLeaf := by
      rcases h with _ | h
      · refine (length_entries_leaf holds.pages).trans ?_
        exact Nat.le_mul_of_pos_left _ (Nat.succ_pos _)
      · obtain rfl : h = 0 := by omega
        obtain ⟨page, row, rfl⟩ := t.exists_node
        obtain ⟨-, hinner, -⟩ := Stored.node_iff.mp holds.pages
        exact (length_entries_node holds.pages).trans
          (Nat.mul_le_mul_right _ (Nat.succ_le_succ hinner.fits))
    exact Nat.lt_succ_of_le (hle.trans hplaces)

theorem numberedMap_fresh {i : Nat} {m : pubkeyKind.Key → Option pubkeyKind.Value}
    (hmap : numberedMap i m) (hi : i < 2 ^ 32) : m (numberedKey i) = none := by
  cases hm : m (numberedKey i) with
  | none => rfl
  | some v =>
    obtain ⟨-, j, hj, heq⟩ := (hmap _ _).mp hm
    exact absurd heq ((numberedKey_lt (by omega) hi).mpr hj).ne'

theorem numberedMap_insert {i : Nat} {m : pubkeyKind.Key → Option pubkeyKind.Value}
    (hmap : numberedMap i m) (hi : i < 2 ^ 32) :
    numberedMap (i + 1) (mapStep m (.insert (numberedKey i) zeroValue)).2 := by
  intro k v
  simp only [mapStep, numberedMap_fresh hmap hi]
  by_cases hk : k = numberedKey i
  · subst hk
    rw [Function.update_self, Option.some_inj]
    exact ⟨fun heq => ⟨heq.symm, i, Nat.lt_succ_self i, rfl⟩, fun h => h.1.symm⟩
  · rw [Function.update_of_ne hk, hmap]
    refine and_congr_right fun _ => ?_
    constructor
    · rintro ⟨j, hj, heq⟩
      exact ⟨j, by omega, heq⟩
    · rintro ⟨j, hj, heq⟩
      refine ⟨j, lt_of_le_of_ne (Nat.le_of_lt_succ hj) ?_, heq⟩
      rintro rfl
      exact hk heq

/-- Where the insertion finds a full parent, the search after it does not find the
first key. -/
theorem search_lost_of_fullParent (allocator : Allocator) {i : Nat} {lo : pubkeyKind.Key}
    {st : BTreeState} {m : pubkeyKind.Key → Option pubkeyKind.Value}
    (hm : Mirrors 0 (some lo) (some (numberedKey i)) st m) (hmap : numberedMap i m)
    (hi : i < 2 ^ 32) (hparent : FullParent allocator st (.insert (numberedKey i) zeroValue)) :
    (treeStep allocator (treeStep allocator st (.insert (numberedKey i) zeroValue)).2
      (.search lo)).1 = (.notFound, none) := by
  cases hm with
  | empty opened root count used nothing => exact absurd root hparent.1
  | tree h t low holds bound used entries =>
    have hx := not_mem_of_none entries (numberedMap_fresh hmap hi)
    have hpath := hparent.2
    rw [holds.run_descend allocator grantAll (numberedKey i)] at hpath
    rcases h with _ | h
    · nomatch hpath
    · obtain rfl : h = 0 := by omega
      obtain ⟨page, row, rfl⟩ := t.exists_node
      obtain ⟨-, hpage⟩ := holds.leafPage (numberedKey i)
      obtain ⟨-, hinner, -⟩ := Stored.node_iff.mp holds.pages
      rw [PageTree.leafAt_node, PageTree.leafAt_zero] at hpath hpage
      have hleaf : pubkeyKind.maxLeaf ≤ ((row.pick (numberedKey i)).entries 0).length := by
        rw [← holds.fits.maxLeaf_eq, ← hpage.count]
        cases hpath with
        | full absent leaf node => exact leaf
      have hnode : pubkeyKind.maxInner ≤ row.keys.length := by
        rw [← holds.fits.maxInner_eq, ← hinner.count]
        cases hpath with
        | full absent leaf node => exact node
      have hpages := length_pages_node page row
      have hbound := hinner.fits
      have hmax := pubkeyKind.maxInner_lt
      have hfile : st.2.used.length + 3 < dbMaxPages := by
        have hused : st.2.used.length = 0 + 1 + ((PageTree.node page row).pages 1).length := used
        rw [dbMaxPages]
        omega
      refine (search_lost allocator zeroValue (by decide) holds bound hx ?_
        (Nat.le_antisymm hpage.fits hleaf) (Nat.le_antisymm hbound hnode) hfile).2
      intro e he
      obtain ⟨-, j, -, heq⟩ := (hmap e.1 e.2).mp ((entries _ _).mpr he)
      rw [heq, take_numberedKey]

/-- **Somewhere in an ascending run an answer is wrong.** -/
theorem probes_differ (allocator : Allocator) : ∀ (n i : Nat) (st : BTreeState)
    (m : pubkeyKind.Key → Option pubkeyKind.Value),
      Mirrors 0 (some (numberedKey 0)) (some (numberedKey i)) st m → numberedMap i m →
        i + n = tooMany → treeAnswers allocator (probes i n) st ≠ mapAnswers (probes i n) m := by
  have hmany : tooMany < 2 ^ 32 := by decide
  intro n
  induction n with
  | zero =>
    intro i st m hm hmap htotal
    exact absurd (length_le_of_numbered hm hmap (by omega)) (by omega)
  | succ n ih =>
    intro i st m hm hmap htotal hanswers
    have hi : i < 2 ^ 32 := by omega
    simp only [probes, treeAnswers, mapAnswers, List.cons.injEq] at hanswers
    obtain ⟨-, hsearch, hrest⟩ := hanswers
    have hmap' := numberedMap_insert hmap hi
    by_cases hparent : FullParent allocator st (.insert (numberedKey i) zeroValue)
    · have hfound := (hmap' (numberedKey 0) zeroValue).mpr ⟨rfl, 0, Nat.succ_pos i, rfl⟩
      rw [search_lost_of_fullParent allocator hm hmap hi hparent, mapStep_search_of_some hfound]
        at hsearch
      exact absurd (congrArg Prod.fst hsearch) (by decide)
    · have hwider : Mirrors 0 (some (numberedKey 0)) (some (numberedKey (i + 1))) st m := by
        cases hm with
        | empty opened root count used nothing => exact .empty opened root count used nothing
        | tree h t low holds bound used entries =>
          have hlt := (numberedKey_lt hi (by omega)).mpr (Nat.lt_succ_self i)
          exact .tree h t low holds (bound.widen hlt.le) used entries
      have hlo : AtLeast (some (numberedKey 0)) (numberedKey i) := by
        rw [atLeast_some]
        rcases Nat.eq_zero_or_pos i with rfl | hpos
        · exact le_refl _
        · exact ((numberedKey_lt (by omega) hi).mpr hpos).le
      have hhi : Under (some (numberedKey (i + 1))) (numberedKey i) :=
        under_some.mpr ((numberedKey_lt hi (by omega)).mpr (Nat.lt_succ_self i))
      obtain ⟨-, hm'⟩ := mirrors_insert allocator (by decide) hwider (numberedKey i) zeroValue hlo hhi
        hparent
      obtain ⟨-, hm''⟩ := mirrors_search allocator hm' (numberedKey 0)
      rw [mapStep_search_snd] at hm'' hrest
      exact ih (i + 1) _ _ hm'' hmap' (by omega) hrest

/-- **The tree is no finite map**: a new tree of the pubkey+kind index, given these
requests. -/
theorem not_finite_map : ∃ (tree : BTree) (s' : FlatStore),
    (btreeCreate 36 4 .composite).run (flatStore Allocator.lowest grantAll) FlatStore.empty =
        ((.ok, some tree), s') ∧
      treeAnswers Allocator.lowest (probes 0 tooMany) (tree, s') ≠
        mapAnswers (probes 0 tooMany) fun _ => none := by
  obtain ⟨tree, s', hcreate, hm⟩ :=
    mirrors_created (s := FlatStore.empty) Allocator.lowest (some (numberedKey 0))
      (some (numberedKey 0)) (by decide)
  refine ⟨tree, s', hcreate, probes_differ Allocator.lowest _ _ _ _ hm (fun k v => ?_) (Nat.zero_add _)⟩
  simp

end OnionRelay.Db
