import OnionRelay.Db.Btree.Lookup

/-!
# Insertion

`btree_insert` on a store that holds a tree: a key that is there, a leaf with room,
and a full leaf (`run_insertSplit`) with no parent or with a parent that has room.
-/

namespace OnionRelay.Db

open OnionRelay.Lib

variable {shape : BTreeShape} {s : FlatStore} {tree : BTree} {h : Nat} {t : shape.Nodes h}
  {x : shape.Key} (allocator : Allocator) (grants : Nat → Bool)

theorem BTreeShape.Fits.insertHere_eq (htree : shape.Fits tree) {page : PageData}
    {es : shape.Entries} {next : Nat} (hpage : LeafPage shape page es next) (hsorted : Sorted es)
    (x : shape.Key) (v : List UInt8) : insertHere tree page x.bytes v =
      btreeNodeInsertKeyValue page (lowerBound x (es.map Prod.fst)) x.bytes v shape.keySize
        shape.valueSize shape.maxLeaf := by
  rw [insertHere, htree.keySize_eq, htree.valueSize_eq, htree.maxLeaf_eq, htree.compare,
    hpage.searchKey hsorted]

namespace BTreeShape.Holds

theorem run_btreeInsert_of_mem (hh : shape.Holds s tree t) {v : shape.Value}
    (hx : (x, v) ∈ t.entries h) (value : List UInt8) :
    (btreeInsert tree x.bytes value).run (flatStore allocator grants) s =
      ((.duplicate, tree), s) := by
  obtain ⟨hlive, -⟩ := hh.leafPage x
  have hfetch : s.fetch (t.leafAt x h).root = some (s.pages (t.leafAt x h).root) := hlive.fetch
  have hpresent := (hh.holds_leafAt x).mpr ⟨v, hx⟩
  simp only [btreeInsert, if_neg hh.rootPage_ne, Prog.run_bind, hh.run_descend, run_pinPage, hfetch,
    if_pos hpresent, run_unpinPage, Prog.run_pure]

/-- The leaf on the way to an absent key does not hold it. -/
theorem not_holds_leafAt (hh : shape.Holds s tree t) (hx : ∀ v, (x, v) ∉ t.entries h) :
    ¬ btreeNodeHolds (s.pages (t.leafAt x h).root) x.bytes tree.keySize tree.compare := by
  rw [hh.holds_leafAt]
  exact fun ⟨v, hv⟩ => hx v hv

theorem not_mem_leafAt (hh : shape.Holds s tree t) (hx : ∀ v, (x, v) ∉ t.entries h) :
    ∀ e ∈ (t.leafAt x h).entries 0, e.1 ≠ x := by
  rintro ⟨_, v⟩ he rfl
  exact hx v ((PageTree.mem_entries_iff hh.ordered).mpr he)

/-- **An insertion into a leaf with room.** -/
theorem run_btreeInsert_of_room (hh : shape.Holds s tree t) (hx : ∀ v, (x, v) ∉ t.entries h)
    (hroom : ((t.leafAt x h).entries 0).length < shape.maxLeaf)
    (hcount : (t.entries h).length + 1 < 2 ^ 32) (v : shape.Value) :
    ∃ (s' : FlatStore) (t' : shape.Nodes h),
      (btreeInsert tree x.bytes v.1).run (flatStore allocator grants) s =
          ((.ok, tree.countEntry), s') ∧
        shape.Holds s' tree.countEntry t' ∧ s'.used = s.used ∧ (t'.pages h).Perm (t.pages h) ∧
          (∀ lo hi, AtLeast lo x → Under hi x → t.Ordered h lo hi → t'.Ordered h lo hi) ∧
          ∀ e, e ∈ t'.entries h ↔ e = (x, v) ∨ e ∈ t.entries h := by
  obtain ⟨hlive, hpage⟩ := hh.leafPage x
  have hfetch : s.fetch (t.leafAt x h).root = some (s.pages (t.leafAt x h).root) := hlive.fetch
  have habsent := hh.not_holds_leafAt hx
  have hsorted := hh.sorted_leafAt x
  have hn : (tree.metadata.entryCount + 1) % 2 ^ 32 = (t.entries h).length + 1 := by
    rw [hh.count, Nat.mod_eq_of_lt hcount]
  have htotal : (tree.metadata.entryCount + 1) % 2 ^ 32 + ((t.leafAt x h).entries 0).length =
      (t.entries h).length + (insertEntry x v ((t.leafAt x h).entries 0)).length := by
    rw [hn, length_insertEntry]
    omega
  obtain ⟨t', hholds, hpages, hbounds, pre, post, heq, heq', -, -⟩ := hh.replace
    (hpage.insert hroom x v)
    (fun a b ha hb hab => PageTree.Ordered.insert hab ha hb (hh.not_mem_leafAt hx) v)
    (Nat.mod_lt _ (by decide)) htotal
  refine ⟨_, t', ?_, hholds, rfl, hpages, hbounds, fun e => ?_⟩
  · have hlive' : (s.set (t.leafAt x h).root (btreeNodeInsertKeyValue
        (s.pages (t.leafAt x h).root) (lowerBound x (((t.leafAt x h).entries 0).map Prod.fst))
        x.bytes v.1 shape.keySize shape.valueSize shape.maxLeaf)).Live tree.countEntry.metaPage := by
      rw [BTree.metaPage_countEntry]
      exact hh.live.set _ _
    have hspace : keyCount (s.pages (t.leafAt x h).root) < tree.maxLeaf := by
      rw [hpage.count, hh.fits.maxLeaf_eq]
      exact hroom
    simp only [btreeInsert, if_neg hh.rootPage_ne, Prog.run_bind, hh.run_descend, run_pinPage, hfetch,
      if_neg habsent, if_pos hspace, run_writePage, run_markDirty, run_unpinPage, Prog.run_pure]
    rw [hh.fits.insertHere_eq hpage hsorted, run_btreeFlushMeta _ _ hlive']
    rfl
  · rw [heq, heq']
    exact mem_between_of_inserted mem_insertEntry

end BTreeShape.Holds

/-! ## A full leaf -/

/-- **A full leaf is cut in two**, and the new entry goes into its half. -/
theorem run_insertSplit (hgrant : grants s.requests = true)
    (hfile : s.used.length + 1 < dbMaxPages) (htree : shape.Fits tree) {pid : Nat}
    (hlive : s.Live pid) {es : shape.Entries} {next : Nat}
    (hpage : LeafPage shape (s.pages pid) es next) (hsorted : Sorted es)
    (hfull : es.length = shape.maxLeaf) (v : shape.Value) (path : List (Nat × Nat)) :
    ∃ (s₁ : FlatStore) (k : shape.Key) (w : shape.Value) (rest : shape.Entries),
      es.drop (es.length / 2) = (k, w) :: rest ∧
      (insertSplit tree (s.pages pid) pid path x.bytes v.1).run (flatStore allocator grants) s =
        (propagate tree.countLeaf k.bytes (allocator.pick s.used) path).run
          (flatStore allocator grants) s₁ ∧
      s₁.used = allocator.pick s.used :: s.used ∧ s₁.requests = s.requests + 1 ∧
      (∀ p, p ≠ pid → p ≠ allocator.pick s.used → s₁.pages p = s.pages p) ∧
      LeafPage shape (s₁.pages pid) (lowerHalf x v k (es.length / 2) es) (allocator.pick s.used) ∧
      LeafPage shape (s₁.pages (allocator.pick s.used)) (upperHalf x v k (es.length / 2) es) next := by
  have htwo : 2 ≤ shape.maxLeaf := shape.two_le_leafMaxKeys
  obtain ⟨hfresh, hpos, hlt⟩ := allocator.fresh s.used hfile
  set q := allocator.pick s.used with hq
  have hne : pid ≠ q := fun heq => hfresh (heq ▸ hlive.mem)
  have hnext : next < 2 ^ 32 := by
    rw [← hpage.next, rightSibling]
    have hbound := ofLE_lt (readAt (s.pages pid) 28 4)
    rwa [length_readAt] at hbound
  have hword : q < 2 ^ 32 := hlt.trans (by decide)
  have hmid : es.length / 2 ≤ es.length := Nat.div_le_self _ _
  -- the halves before the insertion
  obtain ⟨⟨k, w⟩, rest, hrest⟩ : ∃ e rest, es.drop (es.length / 2) = e :: rest := by
    refine List.exists_cons_of_ne_nil fun hnil => ?_
    rw [List.drop_eq_nil_iff] at hnil
    omega
  have hleft := hpage.left hmid hword
  have hright := hpage.right hmid hnext q
  set left := leafLeftPage (s.pages pid) q (es.length / 2) with hleftDef
  set right := leafRightPage (s.pages pid) q (es.length / 2) shape.keySize shape.valueSize
    shape.maxLeaf with hrightDef
  have hkey : readAt right btreeDataOffset shape.keySize = k.bytes := by
    have hpositive : 0 < (es.drop (es.length / 2)).length := by
      rw [hrest]
      exact Nat.succ_pos _
    have hcell := hright.keyAt hpositive
    rw [btreeNodeKeyAt, Nat.zero_mul, Nat.add_zero] at hcell
    rw [hcell]
    simp only [hrest, List.getElem_cons_zero]
  have hsplit : (splitLeaf tree (s.pages pid) pid).run (flatStore allocator grants) s =
      (some (tree.countLeaf, q, left, k.bytes), ((s.grow q).set q right).set pid left) := by
    simp only [splitLeaf, Prog.run_bind, run_allocPage, allocate_of_granted _ _ _ hgrant,
      run_writePage, run_markDirty, run_unpinPage, Prog.run_pure, htree.keySize_eq,
      htree.valueSize_eq, htree.maxLeaf_eq, hpage.count, ← hq, ← hleftDef, ← hrightDef, hkey]
  have hfits : shape.Fits tree.countLeaf := ⟨htree.1, htree.2, htree.3, htree.4⟩
  have hcompare : tree.countLeaf.compare x.bytes k.bytes < 0 ↔ x < k := by
    rw [hfits.compare, Key.compare_lt_iff]
  by_cases hx : x < k
  · -- into the left half
    have hroom : (es.take (es.length / 2)).length < shape.maxLeaf := by
      rw [List.length_take]
      omega
    have hinsert := hleft.insert hroom x v
    refine ⟨(((s.grow q).set q right).set pid left).set pid (insertHere tree.countLeaf left x.bytes
      v.1), k, w, rest, hrest, ?_, rfl, rfl, fun p hp hpq => ?_, ?_, ?_⟩
    · simp only [insertSplit, Prog.run_bind, hsplit, if_pos (hcompare.mpr hx), run_writePage,
        run_markDirty, run_unpinPage]
    · rw [pages_set_of_ne _ _ hp, pages_set_of_ne _ _ hp, pages_set_of_ne _ _ hpq,
        pages_grow_of_ne _ hpq]
    · rw [pages_set_self, hfits.insertHere_eq hleft (hsorted.sublist (List.take_sublist _ _)),
        lowerHalf, if_pos hx]
      exact hinsert
    · rw [pages_set_of_ne _ _ hne.symm, pages_set_of_ne _ _ hne.symm, pages_set_self, upperHalf,
        if_pos hx]
      exact hright
  · -- into the right half
    have hroom : (es.drop (es.length / 2)).length < shape.maxLeaf := by
      rw [List.length_drop]
      omega
    have hinsert := hright.insert hroom x v
    have hfetch : (((s.grow q).set q right).set pid left).fetch q = some right := by
      rw [fetch_of_mem hpos.ne' List.mem_cons_self, pages_set_of_ne _ _ hne.symm, pages_set_self]
    refine ⟨(((s.grow q).set q right).set pid left).set q (insertHere tree.countLeaf right x.bytes
      v.1), k, w, rest, hrest, ?_, rfl, rfl, fun p hp hpq => ?_, ?_, ?_⟩
    · simp only [insertSplit, Prog.run_bind, hsplit, if_neg (fun hlt => hx (hcompare.mp hlt)),
        run_pinPage, hfetch, run_writePage, run_markDirty, run_unpinPage]
    · rw [pages_set_of_ne _ _ hpq, pages_set_of_ne _ _ hp, pages_set_of_ne _ _ hpq,
        pages_grow_of_ne _ hpq]
    · rw [pages_set_of_ne _ _ hne, pages_set_self, lowerHalf, if_neg hx]
      exact hleft
    · rw [pages_set_self, hfits.insertHere_eq hright (hsorted.sublist (List.drop_sublist _ _)),
        upperHalf, if_neg hx]
      exact hinsert

end OnionRelay.Db
