import OnionRelay.Db.Btree.Insert

/-!
# Insertions that add pages

The first leaf (`run_btreeInsert_of_empty`), the first root over two leaves
(`run_btreeInsert_of_fullRoot`) and a leaf more under a root that has room
(`run_btreeInsert_of_fullLeaf`).
-/

namespace OnionRelay.Db

open OnionRelay.Lib BTreeShape

/-- What an insertion of `x` leaves: one entry more, and as many pages more in use
as in the tree. -/
structure BTreeShape.Inserted (shape : BTreeShape) (s s' : FlatStore) (tree tree' : BTree) {h h' : Nat}
    (t : shape.Nodes h) (t' : shape.Nodes h') (x : shape.Key) (v : shape.Value) : Prop where
  holds : shape.Holds s' tree' t'
  metaPage : tree'.metaPage = tree.metaPage
  pages : s'.used.length + (t.pages h).length = s.used.length + (t'.pages h').length
  bounds : ∀ lo hi, AtLeast lo x → Under hi x → t.Ordered h lo hi → t'.Ordered h' lo hi
  entries : ∀ e, e ∈ t'.entries h' ↔ e = (x, v) ∨ e ∈ t.entries h

variable {shape : BTreeShape} {s : FlatStore} {tree : BTree} {x : shape.Key}
  (allocator : Allocator) (grants : Nat → Bool)

/-- **The first insertion.** -/
theorem run_btreeInsert_of_empty (hopened : shape.Opened s tree) (hroot : tree.metadata.rootPage = 0)
    (hgrant : grants s.requests = true) (hfile : s.used.length + 1 < dbMaxPages) (v : shape.Value) :
    ∃ (s' : FlatStore) (tree' : BTree) (t' : shape.Nodes 0),
      (btreeInsert tree x.bytes v.1).run (flatStore allocator grants) s = ((.ok, tree'), s') ∧
        shape.Holds s' tree' t' ∧ tree'.metaPage = tree.metaPage ∧
          s'.used.length = s.used.length + 1 ∧ t' = PageTree.leaf (allocator.pick s.used) [(x, v)] 0 := by
  have htwo : 2 ≤ shape.maxLeaf := shape.two_le_leafMaxKeys
  obtain ⟨hfresh, hpos, hlt⟩ := allocator.fresh s.used hfile
  set q := allocator.pick s.used with hq
  have hne : q ≠ tree.metaPage := fun heq => hfresh (heq ▸ hopened.live.mem)
  have hpage := (LeafPage.init shape q).insert (by rw [List.length_nil]; omega) x v
  set page := btreeNodeInsertKeyValue (btreeNodeInitLeaf q) (lowerBound x ([].map Prod.fst)) x.bytes
    v.1 shape.keySize shape.valueSize shape.maxLeaf with hpageDef
  have hfits := hopened.fits
  have hlive' : ((s.grow q).set q page).Live (tree.firstLeaf q).metaPage :=
    ⟨List.mem_cons_of_mem _ hopened.live.mem, hopened.live.pos, hopened.live.lt⟩
  have hrange := hopened.inRange
  have hone : 1 < 2 ^ 32 := by decide
  refine ⟨((s.grow q).set q page).flush (tree.firstLeaf q), tree.firstLeaf q,
    PageTree.leaf q [(x, v)] 0, ?_, ⟨Opened.saved_flush hlive' ⟨hfits.1, hfits.2, hfits.3, hfits.4⟩
      ⟨hlt.trans (by decide), hone, hone, hone, hrange.5, hrange.6, hrange.7⟩,
      rfl, rfl, ⟨⟨List.mem_cons_self, hpos, hlt⟩, ?_⟩, ?_, List.nodup_singleton q, ?_, rfl⟩,
    rfl, rfl, rfl⟩
  · simp only [btreeInsert, if_pos hroot, insertFirst, Prog.run_bind, run_allocPage,
      allocate_of_granted _ _ _ hgrant, run_writePage, run_markDirty, run_unpinPage, ← hq]
    rw [hfits.keySize_eq, hfits.valueSize_eq, hfits.maxLeaf_eq,
      show btreeNodeInsertKeyValue (btreeNodeInitLeaf q) 0 x.bytes v.1 shape.keySize shape.valueSize
        shape.maxLeaf = page from rfl, run_btreeFlushMeta _ _ hlive']
    rfl
  · show LeafPage shape ((((s.grow q).set q page).flush (tree.firstLeaf q)).pages q) [(x, v)] 0
    rw [pages_flush_of_ne _ (show q ≠ (tree.firstLeaf q).metaPage from hne), pages_set_self]
    exact hpage
  · refine (PageTree.ordered_leaf ..).mpr ⟨apart_none_left _, List.pairwise_singleton _ _, fun e _ => ?_⟩
    exact ⟨atLeast_none _, under_none _⟩
  · exact fun hmem => hne (List.mem_singleton.mp hmem).symm

namespace BTreeShape.Holds

/-- The program of an insertion into a full leaf, up to the split. -/
theorem run_btreeInsert_of_full {h : Nat} {t : shape.Nodes h} (hh : shape.Holds s tree t)
    (hx : ∀ v, (x, v) ∉ t.entries h) (hfull : ((t.leafAt x h).entries 0).length = shape.maxLeaf)
    (v : shape.Value) :
    (btreeInsert tree x.bytes v.1).run (flatStore allocator grants) s =
      (insertSplit tree (s.pages (t.leafAt x h).root) (t.leafAt x h).root (t.path x h).reverse
        x.bytes v.1).run (flatStore allocator grants) s := by
  obtain ⟨hlive, hpage⟩ := hh.leafPage x
  have hfetch : s.fetch (t.leafAt x h).root = some (s.pages (t.leafAt x h).root) := hlive.fetch
  have habsent := hh.not_holds_leafAt hx
  have hspace : ¬ keyCount (s.pages (t.leafAt x h).root) < tree.maxLeaf := by
    rw [hpage.count, hh.fits.maxLeaf_eq]
    omega
  simp only [btreeInsert, if_neg hh.rootPage_ne, Prog.run_bind, hh.run_descend, run_pinPage, hfetch,
    if_neg habsent, if_neg hspace]

/-- **A full leaf that is the root** gets a root over it. -/
theorem run_btreeInsert_of_fullRoot {t : shape.Nodes 0} (hh : shape.Holds s tree t)
    (hx : ∀ v, (x, v) ∉ t.entries 0) (hfull : (t.entries 0).length = shape.maxLeaf)
    (hgrant : ∀ n, grants n = true) (hfile : s.used.length + 2 < dbMaxPages)
    (hcount : (t.entries 0).length + 1 < 2 ^ 32) (v : shape.Value) :
    ∃ (s' : FlatStore) (tree' : BTree) (t' : shape.Nodes 1),
      (btreeInsert tree x.bytes v.1).run (flatStore allocator grants) s = ((.ok, tree'), s') ∧
        shape.Inserted s s' tree tree' t t' x v := by
  obtain ⟨hlive, hpage⟩ := hh.leafPage x
  rw [PageTree.leafAt_zero] at hlive hpage
  have hsorted := hh.sorted_leafAt x
  rw [PageTree.leafAt_zero] at hsorted
  have htwo : 2 ≤ shape.maxLeaf := shape.two_le_leafMaxKeys
  obtain ⟨s₁, k, w, rest, hrest, hrun, hused, hrequests, hkeep, hlower, hupper⟩ :=
    run_insertSplit (x := x) allocator grants (hgrant _) (by omega) hh.fits hlive hpage hsorted hfull v []
  have hchain := fun lo hi (hlo : AtLeast lo x) (hhi : Under hi x) (ht : t.Ordered 0 lo hi) =>
    PageTree.Ordered.halves ht hlo hhi (fun e he heq => hx e.2 (heq ▸ he)) v (by omega) hrest
      (allocator.pick s.used)
  obtain ⟨hfresh, hpos, hlt⟩ := allocator.fresh s.used (by omega)
  set q := allocator.pick s.used with hq
  obtain ⟨hfresh', hpos', hlt'⟩ := allocator.fresh (q :: s.used) (by rw [List.length_cons]; omega)
  set r := allocator.pick (q :: s.used) with hr
  -- the old root, the new leaf, the new root and the metadata are four pages
  have hrootQ : t.root ≠ q := fun heq => hfresh (heq ▸ hlive.mem)
  have hrootR : t.root ≠ r := fun heq => hfresh' (heq ▸ List.mem_cons_of_mem _ hlive.mem)
  have hqr : q ≠ r := fun heq => hfresh' (heq ▸ List.mem_cons_self)
  have hmetaQ : q ≠ tree.metaPage := fun heq => hfresh (heq ▸ hh.live.mem)
  have hmetaR : r ≠ tree.metaPage := fun heq => hfresh' (heq ▸ List.mem_cons_of_mem _ hh.live.mem)
  have hmetaRoot : t.root ≠ tree.metaPage := fun heq => hh.apart (heq ▸ PageTree.root_mem_pages t)
  set tree' := ((tree.countLeaf.raise r).countInner).countEntry with htree'
  have hmeta : tree'.metaPage = tree.metaPage := by
    rw [htree', BTree.metaPage_countEntry]
    rfl
  set s₂ := (s₁.grow r).set r (newRootPage r k.bytes t.root q shape.keySize shape.maxInner) with hs₂
  have hmem : ∀ pid, pid = r ∨ pid = q ∨ pid ∈ s.used → pid ∈ s₂.used := by
    intro pid hpid
    rw [hs₂, used_set, used_grow, hused]
    simpa using hpid
  have hlive' : s₂.Live tree'.metaPage := by
    rw [hmeta]
    exact ⟨hmem _ (.inr (.inr hh.live.mem)), hh.live.pos, hh.live.lt⟩
  have hpages : ∀ pid, pid ≠ r → pid ≠ tree.metaPage → (s₂.flush tree').pages pid = s₁.pages pid := by
    intro pid hpr hpm
    rw [pages_flush_of_ne _ (by rwa [hmeta]), hs₂, pages_set_of_ne _ _ hpr, pages_grow_of_ne _ hpr]
  have hfits := hh.fits
  have hrange := hh.inRange
  have hentry : tree'.metadata.entryCount = (t.entries 0).length + 1 := by
    show (tree.metadata.entryCount + 1) % 2 ^ 32 = _
    rw [hh.count, Nat.mod_eq_of_lt hcount]
  refine ⟨s₂.flush tree', tree', PageTree.node r (.cons
    (PageTree.leaf t.root (lowerHalf x v k ((t.entries 0).length / 2) (t.entries 0)) q) k
    (.last (PageTree.leaf q (upperHalf x v k ((t.entries 0).length / 2) (t.entries 0)) t.next))),
    ?_, ⟨?_, hmeta, ?_, hchain, fun e => ?_⟩⟩
  · rw [hh.run_btreeInsert_of_full _ _ hx hfull, PageTree.leafAt_zero, PageTree.path_zero, List.reverse_nil,
      hrun]
    simp only [propagate, newRoot, Prog.run_bind, run_allocPage,
      allocate_of_granted _ _ _ (hgrant _), run_writePage, run_markDirty, run_unpinPage, hused, ← hr]
    rw [show tree.countLeaf.keySize = shape.keySize from hfits.keySize,
      show tree.countLeaf.maxInner = shape.maxInner from hfits.maxInner_eq,
      show tree.countLeaf.metadata.rootPage = t.root from hh.rootPage, ← hs₂, ← htree',
      run_btreeFlushMeta _ _ hlive']
    rfl
  · refine ⟨Opened.saved_flush hlive' ?_ ?_, rfl, ?_, ⟨⟨hmem _ (.inl rfl), hpos', hlt'⟩, ?_, ?_⟩,
      hchain _ _ (atLeast_none x) (under_none x) hh.ordered, ?_, ?_, ?_⟩
    · exact ⟨hfits.1, hfits.2, hfits.3, hfits.4⟩
    · exact ⟨hlt'.trans (by decide), Nat.mod_lt _ (by decide), Nat.mod_lt _ (by decide),
        Nat.mod_lt _ (by decide), Nat.mod_lt _ (by decide), hrange.6, hrange.7⟩
    · show (tree.metadata.height + 1) % 2 ^ 32 = 2
      rw [hh.height]
      rfl
    · show InnerPage shape ((s₂.flush tree').pages r) [k] [t.root, q]
      rw [pages_flush_of_ne _ (by rwa [hmeta]), hs₂, pages_set_self]
      exact InnerPage.newRoot r k t.root q
    · intro c hc
      rcases List.mem_cons.mp hc with rfl | hc
      · refine ⟨⟨hmem _ (.inr (.inr hlive.mem)), hlive.pos, hlive.lt⟩, ?_⟩
        show LeafPage shape ((s₂.flush tree').pages t.root) _ _
        rw [hpages _ hrootR hmetaRoot]
        exact hlower
      · obtain rfl := List.mem_singleton.mp hc
        refine ⟨⟨hmem _ (.inr (.inl rfl)), hpos, hlt⟩, ?_⟩
        show LeafPage shape ((s₂.flush tree').pages q) _ _
        rw [hpages _ hqr hmetaQ]
        exact hupper
    · show [r, t.root, q].Nodup
      simp [hrootR.symm, hqr.symm, hrootQ]
    · show tree'.metaPage ∉ [r, t.root, q]
      rw [hmeta]
      simp [hmetaR.symm, hmetaRoot.symm, hmetaQ.symm]
    · rw [hentry, ← length_halves x k v ((t.entries 0).length / 2) (t.entries 0)]
      simp [Row.items]
  · rw [used_flush, hs₂, used_set, used_grow, hused]
    rfl
  · have hmemHalves : e ∈ lowerHalf x v k ((t.entries 0).length / 2) (t.entries 0) ++
        upperHalf x v k ((t.entries 0).length / 2) (t.entries 0) ↔ e = (x, v) ∨ e ∈ t.entries 0 :=
      mem_halves
    rw [← hmemHalves]
    simp [Row.items]

/-- **A full leaf under a root with room** gets a neighbour. -/
theorem run_btreeInsert_of_fullLeaf {page : Nat} {row : Row shape.Key (shape.Nodes 0)}
    (hh : shape.Holds s tree (PageTree.node page row))
    (hx : ∀ v, (x, v) ∉ (PageTree.node page row).entries 1)
    (hfull : ((row.pick x).entries 0).length = shape.maxLeaf)
    (hroom : row.keys.length < shape.maxInner) (hgrant : ∀ n, grants n = true)
    (hfile : s.used.length + 1 < dbMaxPages)
    (hcount : ((PageTree.node page row).entries 1).length + 1 < 2 ^ 32) (v : shape.Value) :
    ∃ (s' : FlatStore) (tree' : BTree) (t' : shape.Nodes 1),
      (btreeInsert tree x.bytes v.1).run (flatStore allocator grants) s = ((.ok, tree'), s') ∧
        shape.Inserted s s' tree tree' (PageTree.node page row) t' x v := by
  obtain ⟨hlive, hpage⟩ := hh.leafPage x
  have hsorted := hh.sorted_leafAt x
  have hnew := hh.not_mem_leafAt hx
  rw [PageTree.leafAt_node, PageTree.leafAt_zero] at hlive hpage hsorted hnew
  have htwo : 2 ≤ shape.maxLeaf := shape.two_le_leafMaxKeys
  obtain ⟨hliveP, hinner, hitems⟩ := Stored.node_iff.mp hh.pages
  obtain ⟨s₁, k, w, rest, hrest, hrun, hused, hrequests, hkeep, hlower, hupper⟩ :=
    run_insertSplit (x := x) allocator grants (hgrant _) hfile hh.fits hlive hpage hsorted hfull v
      [(page, row.index x)]
  obtain ⟨hfresh, hpos, hlt⟩ := allocator.fresh s.used hfile
  set q := allocator.pick s.used with hq
  set leaf := row.pick x with hleaf
  set lower := lowerHalf x v k ((leaf.entries 0).length / 2) (leaf.entries 0) with hlowerDef
  set upper := upperHalf x v k ((leaf.entries 0).length / 2) (leaf.entries 0) with hupperDef
  obtain ⟨g, hg⟩ : ∃ g : shape.Nodes 0 → Row shape.Key (shape.Nodes 0), ∀ l, g l =
      .cons (PageTree.leaf leaf.root lower q) k (.last (PageTree.leaf q upper leaf.next)) :=
    ⟨fun _ => _, fun _ => rfl⟩
  -- the pages involved are different ones
  have hnodup : (page :: row.items.flatMap (PageTree.pages 0)).Nodup := hh.nodup
  rw [List.nodup_cons] at hnodup
  have hroots : ∀ c ∈ row.items, c.root ∈ row.items.flatMap (PageTree.pages 0) := fun c hc =>
    List.mem_flatMap.mpr ⟨c, hc, PageTree.root_mem_pages c⟩
  have hleafMem : leaf ∈ row.items := row.pick_mem x
  have hrootPage : ∀ c ∈ row.items, c.root ≠ page := fun c hc heq => hnodup.1 (heq ▸ hroots c hc)
  have hrootQ : ∀ c ∈ row.items, c.root ≠ q := fun c hc heq =>
    hfresh (heq ▸ (hitems c hc).live_root.mem)
  have hrootMeta : ∀ c ∈ row.items, c.root ≠ tree.metaPage := fun c hc heq =>
    hh.apart (heq ▸ List.mem_cons_of_mem _ (hroots c hc))
  have hpageQ : q ≠ page := fun heq => hfresh (heq ▸ hliveP.mem)
  have hmetaQ : q ≠ tree.metaPage := fun heq => hfresh (heq ▸ hh.live.mem)
  have hmetaPage : page ≠ tree.metaPage := fun heq => hh.apart (heq ▸ List.mem_cons_self)
  set tree' := tree.countLeaf.countEntry with htree'
  have hmeta : tree'.metaPage = tree.metaPage := by
    rw [htree', BTree.metaPage_countEntry]
    rfl
  have hfits : shape.Fits tree.countLeaf := ⟨hh.fits.1, hh.fits.2, hh.fits.3, hh.fits.4⟩
  have hrange := hh.inRange
  -- the parent takes the new separator where the leaf hangs
  have hparent : s₁.pages page = s.pages page := hkeep page (hrootPage leaf hleafMem).symm hpageQ.symm
  obtain ⟨hsortedKeys, -⟩ := Row.Chain.keys (fun _ _ _ => PageTree.Ordered.apart) hh.ordered
  have hwhere : lowerBound k row.keys = row.index x :=
    Row.Chain.lowerBound_keys (fun _ _ _ => PageTree.Ordered.apart) hh.ordered fun a b hab => by
      obtain ⟨hlow, hhigh, -, -⟩ := PageTree.Ordered.cut hab (by omega) hrest q
      exact ⟨hlow, hhigh⟩
  have hinserted := hinner.insert hroom (row.index_le x) k q
  set s₂ := s₁.set page (btreeNodeInsertKeyChild (s.pages page) (row.index x) k.bytes q shape.keySize
    shape.maxInner) with hs₂
  have hmem : ∀ pid, pid = q ∨ pid ∈ s.used → pid ∈ s₂.used := by
    intro pid hpid
    rw [hs₂, used_set, hused]
    simpa using hpid
  have hlive' : s₂.Live tree'.metaPage := by
    rw [hmeta]
    exact ⟨hmem _ (.inr hh.live.mem), hh.live.pos, hh.live.lt⟩
  have hpages : ∀ pid, pid ≠ page → pid ≠ tree.metaPage → (s₂.flush tree').pages pid = s₁.pages pid := by
    intro pid hpp hpm
    rw [pages_flush_of_ne _ (by rwa [hmeta]), hs₂, pages_set_of_ne _ _ hpp]
  have hentry : tree'.metadata.entryCount = ((PageTree.node page row).entries 1).length + 1 := by
    show (tree.metadata.entryCount + 1) % 2 ^ 32 = _
    rw [hh.count, Nat.mod_eq_of_lt hcount]
  obtain ⟨pre, post, hsplit, hexpand⟩ := row.exists_items_expand x
  have hexpand' := hexpand g
  rw [← hleaf, hg] at hexpand'
  obtain ⟨before, behind, heq, hentries, -, -⟩ := PageTree.entries_update (x := x) hh.ordered
  have hentries' := hentries g
  rw [PageTree.leafAt_node, PageTree.leafAt_zero, ← hleaf, hg] at hentries'
  rw [PageTree.leafAt_node, PageTree.leafAt_zero, ← hleaf] at heq
  have hall : (PageTree.node page (row.expand x g)).entries 1 =
      before ++ (lower ++ upper) ++ behind := by
    simpa [Row.items, show PageTree.update x g 0 = g from rfl] using hentries'
  have hperm : ((PageTree.node page (row.expand x g)).pages 1).Perm (q :: (PageTree.node page row).pages 1) := by
    have hupdate := PageTree.pages_update [q] (x := x) (g := g) (t := PageTree.node page row) (by
      rw [PageTree.leafAt_node, PageTree.leafAt_zero, ← hleaf, hg]
      exact List.Perm.swap _ _ _)
    rw [PageTree.update_node, Row.items, List.flatMap_singleton] at hupdate
    exact hupdate
  have hchain : ∀ lo hi, AtLeast lo x → Under hi x → (PageTree.node page row).Ordered 1 lo hi →
      (PageTree.node page (row.expand x g)).Ordered 1 lo hi := by
    intro lo hi hlo hhi ht
    refine Row.chain_expand ht hlo hhi fun a b ha hb hab => ?_
    rw [hg]
    exact PageTree.Ordered.halves hab ha hb hnew v (by omega) hrest q
  have hpagesUsed : ∀ pid ∈ (PageTree.node page row).pages 1, pid ∈ s.used := by
    intro pid hpid
    rcases List.mem_cons.mp hpid with rfl | hpid
    · exact hliveP.mem
    · obtain ⟨c, hc, hpid⟩ := List.mem_flatMap.mp hpid
      obtain rfl := List.mem_singleton.mp hpid
      exact (hitems c hc).live_root.mem
  refine ⟨s₂.flush tree', tree', PageTree.node page (row.expand x g), ?_, ⟨⟨Opened.saved_flush hlive' ?_ ?_,
    ?_, ?_, ⟨⟨hmem _ (.inr hliveP.mem), hliveP.pos, hliveP.lt⟩, ?_, ?_⟩,
    hchain _ _ (atLeast_none x) (under_none x) hh.ordered, ?_, ?_, ?_⟩, hmeta, ?_, hchain,
      fun e => ?_⟩⟩
  · rw [hh.run_btreeInsert_of_full _ _ hx hfull, PageTree.leafAt_node, PageTree.leafAt_zero, PageTree.path_node,
      PageTree.path_zero, List.reverse_singleton, hrun]
    have hfetch : s₁.fetch page = some (s.pages page) := by
      rw [fetch_of_mem hliveP.pos.ne' (by rw [hused]; exact List.mem_cons_of_mem _ hliveP.mem),
        hparent]
    have hspace : keyCount (s.pages page) < shape.maxInner := by
      rw [hinner.count]
      exact hroom
    simp only [propagate, Prog.run_bind, run_pinPage, hfetch, hfits.maxInner_eq, hfits.keySize_eq,
      hfits.compare, if_pos hspace, run_writePage, run_markDirty, run_unpinPage]
    rw [hinner.searchKey hsortedKeys, hwhere, ← hs₂, ← htree', run_btreeFlushMeta _ _ hlive']
    rfl
  · exact ⟨hfits.1, hfits.2, hfits.3, hfits.4⟩
  · exact ⟨hrange.1, hrange.2, Nat.mod_lt _ (by decide), Nat.mod_lt _ (by decide), hrange.5,
      hrange.6, hrange.7⟩
  · exact hh.rootPage
  · exact hh.height
  · show InnerPage shape ((s₂.flush tree').pages page) (row.expand x g).keys
      ((row.expand x g).items.map PageTree.root)
    rw [pages_flush_of_ne _ (by rwa [hmeta]), hs₂, pages_set_self, Row.keys_expand (hg _),
      Row.map_items_expand PageTree.root (hg _) rfl]
    exact hinserted
  · -- the two halves, and the leaves that were there
    intro c hc
    rw [show (Node.row (PageTree.node page (row.expand x g))).items = _ from hexpand'] at hc
    simp only [Row.items, List.mem_append, List.mem_cons, List.not_mem_nil, or_false] at hc
    have hother : c ∈ pre ++ post → shape.Stored (s₂.flush tree') 0 c := by
      intro hmemC
      have hold : c ∈ row.items := by
        rw [hsplit]
        rcases List.mem_append.mp hmemC with hm | hm
        · exact List.mem_append_left _ hm
        · exact List.mem_append_right _ (List.mem_cons_of_mem _ hm)
      have hdistinct : c.root ≠ leaf.root := by
        have hrest' := hnodup.2
        rw [hsplit, List.flatMap_append, List.flatMap_cons, List.nodup_append] at hrest'
        obtain ⟨-, hbehind, hcross⟩ := hrest'
        rcases List.mem_append.mp hmemC with hm | hm
        · exact hcross _ (List.mem_flatMap.mpr ⟨c, hm, PageTree.root_mem_pages c⟩) _
            (List.mem_append_left _ (PageTree.root_mem_pages leaf))
        · exact ((List.nodup_append.mp hbehind).2.2 _ (PageTree.root_mem_pages leaf) _
            (List.mem_flatMap.mpr ⟨c, hm, PageTree.root_mem_pages c⟩)).symm
      refine (hitems c hold).congr (fun pid hpid => ?_) fun pid hpid => hmem pid (.inr hpid)
      rw [PageTree.pages_zero, List.mem_singleton] at hpid
      subst hpid
      rw [hpages _ (hrootPage c hold) (hrootMeta c hold)]
      exact hkeep _ hdistinct (hrootQ c hold)
    rcases hc with (hc | rfl | rfl) | hc
    · exact hother (List.mem_append_left _ hc)
    · refine Stored.leaf_iff.mpr ⟨⟨hmem _ (.inr hlive.mem), hlive.pos, hlive.lt⟩, ?_⟩
      rw [hpages _ (hrootPage leaf hleafMem) (hrootMeta leaf hleafMem)]
      exact hlower
    · refine Stored.leaf_iff.mpr ⟨⟨hmem _ (.inl rfl), hpos, hlt⟩, ?_⟩
      rw [hpages _ hpageQ hmetaQ]
      exact hupper
    · exact hother (List.mem_append_right _ hc)
  · refine hperm.nodup_iff.mpr (List.nodup_cons.mpr ⟨fun hmemQ => hfresh (hpagesUsed q hmemQ), ?_⟩)
    exact hh.nodup
  · rw [hmeta]
    intro hmemMeta
    rcases List.mem_cons.mp (hperm.mem_iff.mp hmemMeta) with heqQ | hold
    · exact hmetaQ heqQ.symm
    · exact hh.apart hold
  · rw [hentry, hall, heq]
    have hlength := length_halves x k v ((leaf.entries 0).length / 2) (leaf.entries 0)
    rw [← hlowerDef, ← hupperDef] at hlength
    simp only [List.length_append] at hlength ⊢
    omega
  · have hlength : ((PageTree.node page (row.expand x g)).pages 1).length =
        ((PageTree.node page row).pages 1).length + 1 := hperm.length_eq
    show s₂.used.length + ((PageTree.node page row).pages 1).length =
      s.used.length + ((PageTree.node page (row.expand x g)).pages 1).length
    rw [hs₂, used_set, hused, hlength, List.length_cons]
    omega
  · rw [hall, heq]
    exact mem_between_of_inserted mem_halves

end BTreeShape.Holds

end OnionRelay.Db
