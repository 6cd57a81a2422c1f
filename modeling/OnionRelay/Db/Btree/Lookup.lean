import OnionRelay.Db.Btree.Stored

/-!
# Searching, deleting and opening

`Holds` says that a handle and the store hold a tree.

* `run_btreeSearch_of_mem`, `run_btreeSearch_of_not_mem`, `run_btreeDelete_of_mem`,
  `run_btreeDelete_of_not_mem`, `run_btreeOpen`: what the operations do then.
* `Holds.replace`: what a leaf rewritten in place leaves.
-/

namespace OnionRelay.Db

open OnionRelay.Lib

/-- The store after `btree_flush_meta`. -/
def FlatStore.flush (s : FlatStore) (tree : BTree) : FlatStore :=
  s.set tree.metaPage (writeAt (s.pages tree.metaPage) 0 tree.metadata.encode)

@[simp] theorem used_flush (s : FlatStore) (tree : BTree) : (s.flush tree).used = s.used := rfl

theorem pages_flush_of_ne (s : FlatStore) {tree : BTree} {pid : Nat} (h : pid ≠ tree.metaPage) :
    (s.flush tree).pages pid = s.pages pid := pages_set_of_ne s _ h

namespace BTreeShape

variable (shape : BTreeShape)

/-- The handle is one of the shape, and its metadata is on its page. -/
structure Opened (s : FlatStore) (tree : BTree) : Prop where
  fits : shape.Fits tree
  live : s.Live tree.metaPage
  saved : readAt (s.pages tree.metaPage) 0 36 = tree.metadata.encode
  inRange : tree.metadata.InRange

/-- The handle and the store hold a tree. -/
structure Holds (s : FlatStore) (tree : BTree) {h : Nat} (t : shape.Nodes h) : Prop extends
    shape.Opened s tree where
  rootPage : tree.metadata.rootPage = t.root
  height : tree.metadata.height = h + 1
  pages : shape.Stored s h t
  ordered : t.Ordered h none none
  nodup : (t.pages h).Nodup
  apart : tree.metaPage ∉ t.pages h
  count : tree.metadata.entryCount = (t.entries h).length

end BTreeShape

open BTreeShape

variable {shape : BTreeShape} {s : FlatStore} {tree : BTree}

theorem run_btreeFlushMeta (allocator : Allocator) (grants : Nat → Bool)
    (hlive : s.Live tree.metaPage) :
    (btreeFlushMeta tree).run (flatStore allocator grants) s = (.ok, s.flush tree) := by
  have hfetch : s.fetch tree.metaPage = some (s.pages tree.metaPage) := hlive.fetch
  simp only [btreeFlushMeta, Prog.run_bind, run_pinPage, hfetch, run_writePage, run_markDirty,
    run_unpinPage, Prog.run_pure]
  rfl

namespace BTreeShape.Opened

theorem saved_flush (hlive : s.Live tree.metaPage) (hfits : shape.Fits tree)
    (hrange : tree.metadata.InRange) : shape.Opened (s.flush tree) tree where
  fits := hfits
  live := ⟨hlive.mem, hlive.pos, hlive.lt⟩
  saved := by
    rw [FlatStore.flush, pages_set_self]
    exact readAt_writeAt_same _ _ _ (BTreeMeta.length_encode _).symm
  inRange := hrange

/-- **Opening a tree again gives its handle back.** -/
theorem run_btreeOpen (allocator : Allocator) (grants : Nat → Bool) (hopened : shape.Opened s tree) :
    (btreeOpen tree.metaPage).run (flatStore allocator grants) s = ((.ok, some tree), s) := by
  have hfetch : s.fetch tree.metaPage = some (s.pages tree.metaPage) := hopened.live.fetch
  have hcompare : btreeGetComparator tree.metadata.keyType = tree.compare := by
    rw [hopened.fits.keyType, hopened.fits.compare]
  simp only [btreeOpen, if_neg hopened.live.pos.ne', Prog.run_bind, run_pinPage, hfetch,
    run_unpinPage, Prog.run_pure, hopened.saved, BTreeMeta.decode_encode hopened.inRange, hcompare]

end BTreeShape.Opened

namespace BTreeShape.Holds

variable {h : Nat} {t : shape.Nodes h} {x : shape.Key} (allocator : Allocator) (grants : Nat → Bool)

theorem levels_eq (hh : shape.Holds s tree t) : tree.levels = h := by
  have hrange := hh.inRange.height
  rw [hh.height] at hrange
  rw [BTree.levels, hh.height]
  omega

theorem rootPage_ne (hh : shape.Holds s tree t) : tree.metadata.rootPage ≠ 0 := by
  rw [hh.rootPage]
  exact hh.pages.live_root.pos.ne'

/-- The leaf on the way to `x`, as its page has it. -/
theorem leafPage (hh : shape.Holds s tree t) (x : shape.Key) :
    s.Live (t.leafAt x h).root ∧ LeafPage shape (s.pages (t.leafAt x h).root)
      ((t.leafAt x h).entries 0) (t.leafAt x h).next := hh.pages.leafAt

theorem sorted_leafAt (hh : shape.Holds s tree t) (x : shape.Key) :
    Sorted ((t.leafAt x h).entries 0) := by
  obtain ⟨_, _, _, _, hord⟩ := hh.ordered.leafAt (atLeast_none x) (under_none x)
  exact hord.2.1

/-- Whether the leaf on the way to `x` holds it. -/
theorem holds_leafAt (hh : shape.Holds s tree t) (x : shape.Key) :
    btreeNodeHolds (s.pages (t.leafAt x h).root) x.bytes tree.keySize tree.compare = true ↔
      ∃ v, (x, v) ∈ t.entries h := by
  rw [hh.fits.keySize_eq, hh.fits.compare, (hh.leafPage x).2.holds (hh.sorted_leafAt x)]
  constructor
  · intro hmem
    obtain ⟨⟨_, v⟩, hmem, rfl⟩ := List.mem_map.mp hmem
    exact ⟨v, (PageTree.mem_entries_iff hh.ordered).mpr hmem⟩
  · rintro ⟨v, hmem⟩
    exact List.mem_map.mpr ⟨(x, v), (PageTree.mem_entries_iff hh.ordered).mp hmem, rfl⟩

/-- The way down of every operation. -/
theorem run_descend (hh : shape.Holds s tree t) (x : shape.Key) :
    (descend tree x.bytes tree.levels tree.metadata.rootPage []).run (flatStore allocator grants) s =
      (some ((t.leafAt x h).root, (t.path x h).reverse), s) := by
  rw [hh.levels_eq, hh.rootPage, Db.run_descend allocator grants hh.fits [] hh.pages hh.ordered,
    List.append_nil]

/-- The result of a search, from what the leaf holds. -/
theorem run_btreeSearch (hh : shape.Holds s tree t) (x : shape.Key) :
    (btreeSearch tree x.bytes).run (flatStore allocator grants) s =
      (if btreeNodeHolds (s.pages (t.leafAt x h).root) x.bytes tree.keySize tree.compare then
        (.ok, some (btreeNodeValueAt (s.pages (t.leafAt x h).root)
          (btreeNodeSearchKey (s.pages (t.leafAt x h).root) x.bytes tree.keySize tree.compare)
          tree.keySize tree.valueSize tree.maxLeaf))
      else (.notFound, none), s) := by
  obtain ⟨hlive, -⟩ := hh.leafPage x
  have hfetch : s.fetch (t.leafAt x h).root = some (s.pages (t.leafAt x h).root) := hlive.fetch
  simp only [btreeSearch, findLeaf, if_neg hh.rootPage_ne, Prog.run_bind, hh.run_descend,
    Prog.run_pure, if_neg hlive.pos.ne', run_pinPage, hfetch, run_unpinPage, Prog.run_ite]
  split <;> rfl

theorem run_btreeSearch_of_not_mem (hh : shape.Holds s tree t) (hx : ∀ v, (x, v) ∉ t.entries h) :
    (btreeSearch tree x.bytes).run (flatStore allocator grants) s = ((.notFound, none), s) := by
  rw [hh.run_btreeSearch, if_neg]
  rw [hh.holds_leafAt]
  exact fun ⟨v, hv⟩ => hx v hv

/-- **A search finds the value of a key.** -/
theorem run_btreeSearch_of_mem (hh : shape.Holds s tree t) {v : shape.Value}
    (hx : (x, v) ∈ t.entries h) :
    (btreeSearch tree x.bytes).run (flatStore allocator grants) s = ((.ok, some v.1), s) := by
  rw [hh.run_btreeSearch, if_pos ((hh.holds_leafAt x).mpr ⟨v, hx⟩)]
  have hsorted := hh.sorted_leafAt x
  obtain ⟨-, hpage⟩ := hh.leafPage x
  have hmem := (PageTree.mem_entries_iff hh.ordered).mp hx
  have hget := (getElem?_lowerBound hsorted.keys).mpr (List.mem_map.mpr ⟨(x, v), hmem, rfl⟩)
  obtain ⟨hpos, hkey⟩ := List.getElem?_eq_some_iff.mp hget
  rw [List.length_map] at hpos
  rw [List.getElem_map] at hkey
  have hentry := hsorted.eq_of_key_eq (List.getElem_mem hpos) hmem hkey
  rw [hh.fits.keySize_eq, hh.fits.valueSize_eq, hh.fits.maxLeaf_eq, hh.fits.compare,
    hpage.searchKey hsorted, hpage.valueAt hpos, hentry]

/-- **A leaf rewritten in place.**  The handle changes in its count alone. -/
theorem replace (hh : shape.Holds s tree t) {es' : shape.Entries} {page' : PageData} {n : Nat}
    (hpage : LeafPage shape page' es' (t.leafAt x h).next)
    (hord : ∀ a b, AtLeast a x → Under b x → (t.leafAt x h).Ordered 0 a b →
      (PageTree.leaf (t.leafAt x h).root es' (t.leafAt x h).next).Ordered 0 a b)
    (hn : n < 2 ^ 32)
    (hcount : n + ((t.leafAt x h).entries 0).length = (t.entries h).length + es'.length) :
    ∃ t' : shape.Nodes h, shape.Holds ((s.set (t.leafAt x h).root page').flush (tree.withCount n))
        (tree.withCount n) t' ∧ (t'.pages h).Perm (t.pages h) ∧
      (∀ lo hi, AtLeast lo x → Under hi x → t.Ordered h lo hi → t'.Ordered h lo hi) ∧
      ∃ pre post, t.entries h = pre ++ (t.leafAt x h).entries 0 ++ post ∧
        t'.entries h = pre ++ es' ++ post ∧ (∀ e ∈ pre, e.1 < x) ∧ ∀ e ∈ post, x < e.1 := by
  obtain ⟨hlive, -⟩ := hh.leafPage x
  have hleafMem := PageTree.leafAt_mem_pages x t
  have hmetaNe : ∀ pid ∈ t.pages h, pid ≠ (tree.withCount n).metaPage := by
    rintro pid hpid rfl
    exact hh.apart hpid
  obtain ⟨g, hg⟩ : ∃ g : shape.Nodes 0 → Row shape.Key (shape.Nodes 0), ∀ l, g l =
      .last (PageTree.leaf (t.leafAt x h).root es' (t.leafAt x h).next) := ⟨fun _ => _, fun _ => rfl⟩
  set s' := (s.set (t.leafAt x h).root page').flush (tree.withCount n) with hs'
  have hleaf : shape.Stored s' 0
      (PageTree.leaf (t.leafAt x h).root es' (t.leafAt x h).next) := by
    refine ⟨⟨hlive.mem, hlive.pos, hlive.lt⟩, ?_⟩
    show LeafPage shape (s'.pages (t.leafAt x h).root) es' (t.leafAt x h).next
    rw [hs', pages_flush_of_ne _ (hmetaNe _ hleafMem), pages_set_self]
    exact hpage
  have hkeep : ∀ pid ∈ t.pages h, pid ≠ (t.leafAt x h).root → s'.pages pid = s.pages pid := by
    intro pid hpid hne
    rw [hs', pages_flush_of_ne _ (hmetaNe pid hpid), pages_set_of_ne _ _ hne]
  obtain ⟨t', hupdate, hroot, hstored⟩ :=
    Stored.replace hleaf (List.Subset.refl s.used) hh.pages hh.nodup (hg _) rfl hkeep
  obtain ⟨pre, post, heq, hentries, hpre, hpost⟩ := PageTree.entries_update (x := x) hh.ordered
  have hord' : ∀ lo hi, AtLeast lo x → Under hi x → t.Ordered h lo hi →
      Row.Chain (PageTree.Ordered h) lo (t.update x g h) hi := by
    intro lo hi hlo hhi ht
    refine PageTree.ordered_update ht hlo hhi fun a b ha hb hab => ?_
    rw [hg]
    exact hord a b ha hb hab
  have hpages : ((t.update x g h).items.flatMap (PageTree.pages h)).Perm ([] ++ t.pages h) := by
    refine PageTree.pages_update [] ?_
    rw [hg]
    exact List.Perm.refl _
  have hentries' := hentries g
  rw [hupdate] at hord' hpages hentries'
  rw [hg] at hentries'
  simp only [Row.items, List.flatMap_cons, List.flatMap_nil, List.append_nil, List.nil_append,
    PageTree.entries_leaf] at hpages hentries'
  have hlive' : (s.set (t.leafAt x h).root page').Live (tree.withCount n).metaPage :=
    hh.live.set _ _
  have hrange := hh.inRange
  refine ⟨t', ⟨Opened.saved_flush hlive' ⟨hh.fits.1, hh.fits.2, hh.fits.3, hh.fits.4⟩
    ⟨hrange.1, hrange.2, hn, hrange.4, hrange.5, hrange.6, hrange.7⟩, ?_, hh.height, hstored,
    hord' _ _ (atLeast_none x) (under_none x) hh.ordered, ?_, ?_, ?_⟩, hpages, hord', pre, post, heq, hentries', hpre, hpost⟩
  · show tree.metadata.rootPage = t'.root
    rw [hroot, hh.rootPage]
  · exact hpages.nodup_iff.mpr hh.nodup
  · exact fun hmem => hh.apart (hpages.mem_iff.mp hmem)
  · show n = (t'.entries h).length
    rw [hentries', List.length_append, List.length_append]
    rw [heq, List.length_append, List.length_append] at hcount
    omega

theorem run_btreeDelete_of_not_mem (hh : shape.Holds s tree t) (hx : ∀ v, (x, v) ∉ t.entries h) :
    (btreeDelete tree x.bytes).run (flatStore allocator grants) s = ((.notFound, tree), s) := by
  obtain ⟨hlive, -⟩ := hh.leafPage x
  have hfetch : s.fetch (t.leafAt x h).root = some (s.pages (t.leafAt x h).root) := hlive.fetch
  have habsent : ¬ btreeNodeHolds (s.pages (t.leafAt x h).root) x.bytes tree.keySize tree.compare := by
    rw [hh.holds_leafAt]
    exact fun ⟨v, hv⟩ => hx v hv
  simp only [btreeDelete, if_neg hh.rootPage_ne, Prog.run_bind, hh.run_descend, run_pinPage, hfetch,
    if_neg habsent, run_unpinPage, Prog.run_pure]

/-- **A deletion takes the key out.** -/
theorem run_btreeDelete_of_mem (hh : shape.Holds s tree t) {v : shape.Value}
    (hx : (x, v) ∈ t.entries h) : ∃ (s' : FlatStore) (t' : shape.Nodes h),
      (btreeDelete tree x.bytes).run (flatStore allocator grants) s = ((.ok, tree.uncountEntry), s') ∧
        shape.Holds s' tree.uncountEntry t' ∧ s'.used = s.used ∧ (t'.pages h).Perm (t.pages h) ∧
          (∀ lo hi, t.Ordered h lo hi → t'.Ordered h lo hi) ∧
          ∀ e, e ∈ t'.entries h ↔ e ∈ t.entries h ∧ e.1 ≠ x := by
  obtain ⟨hlive, hpage⟩ := hh.leafPage x
  have hfetch : s.fetch (t.leafAt x h).root = some (s.pages (t.leafAt x h).root) := hlive.fetch
  have hpresent := (hh.holds_leafAt x).mpr ⟨v, hx⟩
  have hsorted := hh.sorted_leafAt x
  -- the entry to go
  have hmem := (PageTree.mem_entries_iff hh.ordered).mp hx
  have hget := (getElem?_lowerBound hsorted.keys).mpr (List.mem_map.mpr ⟨(x, v), hmem, rfl⟩)
  obtain ⟨hpos, hkey⟩ := List.getElem?_eq_some_iff.mp hget
  rw [List.length_map] at hpos
  rw [List.getElem_map] at hkey
  set pos := lowerBound x (((t.leafAt x h).entries 0).map Prod.fst) with hposDef
  have hlength : (((t.leafAt x h).entries 0).eraseIdx pos).length =
      ((t.leafAt x h).entries 0).length - 1 := by rw [List.length_eraseIdx, if_pos hpos]
  have hcount : (tree.metadata.entryCount + (2 ^ 32 - 1)) % 2 ^ 32 = (t.entries h).length - 1 := by
    have hrange := hh.inRange.entryCount
    have hpositive := List.length_pos_of_mem hx
    rw [hh.count] at hrange ⊢
    omega
  have htotal : (tree.metadata.entryCount + (2 ^ 32 - 1)) % 2 ^ 32 +
      ((t.leafAt x h).entries 0).length =
        (t.entries h).length + (((t.leafAt x h).entries 0).eraseIdx pos).length := by
    have hpositive := List.length_pos_of_mem hx
    rw [hcount, hlength]
    omega
  obtain ⟨t', hholds, hpages, hbounds, pre, post, heq, heq', hpre, hpost⟩ := hh.replace
    (hpage.delete hpos) (fun a b _ _ hab => PageTree.Ordered.erase hab pos)
    (Nat.mod_lt _ (by decide)) htotal
  refine ⟨_, t', ?_, hholds, rfl, hpages, fun lo hi ht => ?_, fun e => ?_⟩
  · have hlive' : (s.set (t.leafAt x h).root (btreeNodeDeleteKeyValue (s.pages (t.leafAt x h).root)
        pos shape.keySize shape.valueSize shape.maxLeaf)).Live tree.uncountEntry.metaPage := by
      rw [BTree.metaPage_uncountEntry]
      exact hh.live.set _ _
    simp only [btreeDelete, if_neg hh.rootPage_ne, Prog.run_bind, hh.run_descend, run_pinPage, hfetch,
      if_pos hpresent, run_writePage, run_markDirty, run_unpinPage, Prog.run_pure]
    rw [hh.fits.keySize_eq, hh.fits.valueSize_eq, hh.fits.maxLeaf_eq, hh.fits.compare,
      hpage.searchKey hsorted, ← hposDef, run_btreeFlushMeta _ _ hlive']
    rfl
  · obtain ⟨hlow, hhigh⟩ := ht.bounds _ hx
    exact hbounds lo hi hlow hhigh ht
  · rw [heq, heq']
    refine mem_between_of_erased hpre hpost ?_
    rw [mem_eraseIdx_sorted hsorted hpos, hkey]

end BTreeShape.Holds

end OnionRelay.Db
