import OnionRelay.Db.Btree.FiniteMap

/-!
# A value rewritten in its leaf

`btree_delete_dup` goes down to the leaf of a key by itself and overwrites the
value there (`setLeafValue`).  `Holds.run_setLeafValue` says that the tree then
maps the key to the new value and is otherwise the same.

`TreeHolds` is `Holds` for a tree that may be empty, together with the pages the
tree has in the store; each operation leaves all others alone.
-/

namespace OnionRelay.Db

open OnionRelay.Lib BTreeShape

/-- `btree_node_set_value` -/
def btreeNodeSetValue (page : PageData) (pos : Nat) (value : List UInt8)
    (keySize valueSize maxKeys : Nat) : PageData :=
  writeAt page (btreeDataOffset + maxKeys * keySize + pos * valueSize) value

/-- The part of `btree_delete_dup` that finds and updates the value in the leaf. -/
def setLeafValue (tree : BTree) (key value : List UInt8) : PageM NostrDBError := do
  match ← descend tree key tree.levels tree.metadata.rootPage [] with
  | none => return .notFound
  | some (pid, _) =>
    match ← pinPage pid with
    | none => return .notFound
    | some leaf =>
      let pos := btreeNodeSearchKey leaf key tree.keySize tree.compare
      writePage pid (btreeNodeSetValue leaf pos value tree.keySize tree.valueSize tree.maxLeaf)
      markDirty pid 0
      unpinPage pid
      return .ok

variable {shape : BTreeShape}

theorem LeafPage.setValue {page : PageData} {es : shape.Entries} {next : Nat}
    (h : LeafPage shape page es next) {pos : Nat} (hpos : pos < es.length) (v : shape.Value) :
    LeafPage shape (btreeNodeSetValue page pos v.1 shape.keySize shape.valueSize shape.maxLeaf)
      (es.set pos (es[pos].1, v)) next := by
  have hfits : es.length * shape.keySize ≤ shape.maxLeaf * shape.keySize :=
    Nat.mul_le_mul_right _ h.fits
  have hhead : ∀ a < btreeDataOffset, btreeNodeSetValue page pos v.1 shape.keySize shape.valueSize
      shape.maxLeaf a = page a := fun a ha => writeAt_of_lt (by omega)
  refine ⟨?_, ?_, ?_, ?_, ?_⟩
  · rw [keyCount_congr hhead, h.count, List.length_set]
  · rw [List.length_set]
    exact h.fits
  · rw [List.length_set, btreeNodeSetValue, cells_writeAt_of_disjoint (.inl (by omega)), h.keys,
      List.map_set]
    exact (List.set_getElem_self (by simpa using hpos)).symm.trans (by simp)
  · rw [List.length_set, btreeNodeSetValue, cells_writeAt_cell _ _ _ _ _ v.2, h.values, List.map_set]
  · rw [rightSibling_congr hhead, h.next]

theorem flush_of_saved {s : FlatStore} {tree : BTree}
    (h : readAt (s.pages tree.metaPage) 0 36 = tree.metadata.encode) : s.flush tree = s := by
  rw [FlatStore.flush, ← h, writeAt_readAt, FlatStore.set, Function.update_eq_self]

variable {s : FlatStore} {tree : BTree} {h : Nat} {t : shape.Nodes h} {x : shape.Key}
  (allocator : Allocator) (grants : Nat → Bool)

namespace BTreeShape.Holds

/-- The place of a key in its leaf. -/
theorem getElem_leafAt (hh : shape.Holds s tree t) {v : shape.Value} (hx : (x, v) ∈ t.entries h) :
    ∃ hpos : lowerBound x (((t.leafAt x h).entries 0).map Prod.fst) <
        ((t.leafAt x h).entries 0).length,
      ((t.leafAt x h).entries 0)[lowerBound x (((t.leafAt x h).entries 0).map Prod.fst)].1 = x := by
  have hmem := (PageTree.mem_entries_iff hh.ordered).mp hx
  have hget := (getElem?_lowerBound (hh.sorted_leafAt x).keys).mpr
    (List.mem_map.mpr ⟨(x, v), hmem, rfl⟩)
  obtain ⟨hpos, hkey⟩ := List.getElem?_eq_some_iff.mp hget
  rw [List.length_map] at hpos
  rw [List.getElem_map] at hkey
  exact ⟨hpos, hkey⟩

/-- **The value of a key is replaced**, and no page outside the tree is touched. -/
theorem run_setLeafValue (hh : shape.Holds s tree t) {v : shape.Value} (hx : (x, v) ∈ t.entries h)
    (w : shape.Value) : ∃ (s' : FlatStore) (t' : shape.Nodes h),
      (setLeafValue tree x.bytes w.1).run (flatStore allocator grants) s = (.ok, s') ∧
        shape.Holds s' tree t' ∧ s'.used = s.used ∧ (t'.pages h).Perm (t.pages h) ∧
          (∀ pid, pid ∉ t.pages h → s'.pages pid = s.pages pid) ∧
          ∀ e, e ∈ t'.entries h ↔ e = (x, w) ∨ e ∈ t.entries h ∧ e.1 ≠ x := by
  obtain ⟨hlive, hpage⟩ := hh.leafPage x
  have hfetch : s.fetch (t.leafAt x h).root = some (s.pages (t.leafAt x h).root) := hlive.fetch
  have hsorted := hh.sorted_leafAt x
  obtain ⟨hpos, hkey⟩ := hh.getElem_leafAt hx
  have hmetaNe : tree.metaPage ≠ (t.leafAt x h).root := by
    intro heq
    exact hh.apart (heq ▸ PageTree.leafAt_mem_pages x t)
  obtain ⟨t', hholds, hpages, -, pre, post, heq, heq', hpre, hpost⟩ := hh.replace
    (hpage.setValue hpos w) (fun a b _ _ hab => PageTree.Ordered.setValue hab hpos w)
    (n := tree.metadata.entryCount) hh.inRange.entryCount (by rw [hh.count, List.length_set])
  -- the count is what it was, so there is nothing to flush
  have hsaved : readAt ((s.set (t.leafAt x h).root (btreeNodeSetValue
      (s.pages (t.leafAt x h).root) (lowerBound x (((t.leafAt x h).entries 0).map Prod.fst)) w.1
      shape.keySize shape.valueSize shape.maxLeaf)).pages tree.metaPage) 0 36 =
        tree.metadata.encode := by
    rw [pages_set_of_ne _ _ hmetaNe]
    exact hh.saved
  have hsame : tree.withCount tree.metadata.entryCount = tree := rfl
  rw [hsame, flush_of_saved hsaved] at hholds
  refine ⟨_, t', ?_, hholds, rfl, hpages, fun pid hpid => ?_, fun e => ?_⟩
  · simp only [setLeafValue, Prog.run_bind, hh.run_descend, run_pinPage, hfetch, run_writePage,
      run_markDirty, run_unpinPage, Prog.run_pure]
    rw [hh.fits.keySize_eq, hh.fits.valueSize_eq, hh.fits.maxLeaf_eq, hh.fits.compare,
      hpage.searchKey hsorted]
  · refine pages_set_of_ne _ _ fun hpid' => hpid ?_
    rw [hpid']
    exact PageTree.leafAt_mem_pages x t
  · rw [heq, heq']
    have hmid := mem_setValue_sorted hsorted hpos w (e := e)
    rw [hkey] at hmid
    have hne : e ∈ pre ∨ e ∈ post → e.1 ≠ x := by
      rintro (hmem | hmem)
      · exact (hpre e hmem).ne
      · exact (hpost e hmem).ne'
    simp only [List.mem_append, hkey, hmid]
    tauto

/-- A deletion leaves all pages alone that are not of the tree. -/
theorem pages_btreeDelete (hh : shape.Holds s tree t) {v : shape.Value} (hx : (x, v) ∈ t.entries h)
    {pid : Nat} (hmeta : pid ≠ tree.metaPage) (hpid : pid ∉ t.pages h) :
    ((btreeDelete tree x.bytes).run (flatStore allocator grants) s).2.pages pid = s.pages pid := by
  obtain ⟨hlive, hpage⟩ := hh.leafPage x
  have hfetch : s.fetch (t.leafAt x h).root = some (s.pages (t.leafAt x h).root) := hlive.fetch
  have hpresent := (hh.holds_leafAt x).mpr ⟨v, hx⟩
  have hlive' : ∀ page, (s.set (t.leafAt x h).root page).Live tree.uncountEntry.metaPage := by
    intro page
    rw [BTree.metaPage_uncountEntry]
    exact hh.live.set _ _
  have hne : pid ≠ (t.leafAt x h).root := by
    rintro rfl
    exact hpid (PageTree.leafAt_mem_pages x t)
  simp only [btreeDelete, if_neg hh.rootPage_ne, Prog.run_bind, hh.run_descend, run_pinPage, hfetch,
    if_pos hpresent, run_writePage, run_markDirty, run_unpinPage, Prog.run_pure,
    run_btreeFlushMeta _ _ (hlive' _)]
  rw [pages_flush_of_ne _ (by rwa [BTree.metaPage_uncountEntry]), pages_set_of_ne _ _ hne]

end BTreeShape.Holds

/-! ## A tree and its pages -/

namespace BTreeShape.Stored

/-- The frame rule for a store in which other pages were freed. -/
theorem transfer {s' : FlatStore} : ∀ {h : Nat} {t : shape.Nodes h}, shape.Stored s h t →
    (∀ pid ∈ t.pages h, s'.pages pid = s.pages pid ∧ s'.Live pid) → shape.Stored s' h t := by
  intro h
  induction h with
  | zero =>
    intro t ht hpages
    obtain ⟨hsame, hlive⟩ := hpages _ List.mem_cons_self
    refine ⟨hlive, ?_⟩
    rw [hsame]
    exact ht.2
  | succ h ih =>
    intro t ht hpages
    obtain ⟨page, row, rfl⟩ := t.exists_node
    obtain ⟨hsame, hlive⟩ := hpages _ List.mem_cons_self
    refine ⟨hlive, ?_, fun c hc => ih (ht.2.2 c hc) fun pid hpid => ?_⟩
    · rw [hsame]
      exact ht.2.1
    · exact hpages pid (List.mem_cons_of_mem _ (List.mem_flatMap.mpr ⟨c, hc, hpid⟩))

end BTreeShape.Stored

theorem BTreeShape.Opened.transfer {s' : FlatStore} (hopened : shape.Opened s tree)
    (hsame : s'.pages tree.metaPage = s.pages tree.metaPage) (hlive : s'.Live tree.metaPage) :
    shape.Opened s' tree :=
  ⟨hopened.fits, hlive, by rw [hsame]; exact hopened.saved, hopened.inRange⟩

/-- The handle and the store hold the map, a tree without pages included; `pages` are
the metadata page and those of the nodes. -/
inductive TreeHolds (st : BTreeState) (m : shape.Key → Option shape.Value) (pages : List Nat) : Prop
  | empty (opened : shape.Opened st.2 st.1) (root : st.1.metadata.rootPage = 0)
      (nothing : ∀ k, m k = none) (own : pages.Perm [st.1.metaPage])
  | tree (h : Nat) (t : shape.Nodes h) (holds : shape.Holds st.2 st.1 t)
      (entries : ∀ k v, m k = some v ↔ (k, v) ∈ t.entries h)
      (own : pages.Perm (st.1.metaPage :: t.pages h))

namespace TreeHolds

variable {st : BTreeState} {m : shape.Key → Option shape.Value} {pages : List Nat} {k : shape.Key}

theorem live (hm : TreeHolds st m pages) : ∀ pid ∈ pages, st.2.Live pid := by
  intro pid hpid
  cases hm with
  | empty opened root nothing own =>
    obtain rfl := List.mem_singleton.mp (own.mem_iff.mp hpid)
    exact opened.live
  | tree h t holds entries own =>
    rcases List.mem_cons.mp (own.mem_iff.mp hpid) with rfl | hmem
    · exact holds.live
    · exact holds.pages.live_pages pid hmem

/-- **The frame rule**: what happens on other pages is nothing to the tree. -/
theorem transfer (hm : TreeHolds st m pages) {s' : FlatStore}
    (hpages : ∀ pid ∈ pages, s'.pages pid = st.2.pages pid ∧ s'.Live pid) :
    TreeHolds (st.1, s') m pages := by
  cases hm with
  | empty opened root nothing own =>
    obtain ⟨hsame, hlive⟩ := hpages _ (own.mem_iff.mpr List.mem_cons_self)
    exact .empty (opened.transfer hsame hlive) root nothing own
  | tree h t holds entries own =>
    obtain ⟨hsame, hlive⟩ := hpages _ (own.mem_iff.mpr List.mem_cons_self)
    have hstored : shape.Stored s' h t := holds.pages.transfer fun pid hpid =>
      hpages pid (own.mem_iff.mpr (List.mem_cons_of_mem _ hpid))
    exact .tree h t
      { holds with
        toOpened := holds.toOpened.transfer hsame hlive
        pages := hstored } entries own

theorem run_search_of_none (hm : TreeHolds st m pages) (hk : m k = none) :
    (btreeSearch st.1 k.bytes).run (flatStore allocator grants) st.2 = ((.notFound, none), st.2) := by
  cases hm with
  | empty opened root nothing own => simp only [btreeSearch, if_pos root, Prog.run_pure]
  | tree h t holds entries own =>
    exact holds.run_btreeSearch_of_not_mem allocator grants (not_mem_of_none entries hk)

theorem run_search_of_some (hm : TreeHolds st m pages) {v : shape.Value} (hk : m k = some v) :
    (btreeSearch st.1 k.bytes).run (flatStore allocator grants) st.2 = ((.ok, some v.1), st.2) := by
  cases hm with
  | empty opened root nothing own =>
    rw [nothing k] at hk
    exact absurd hk (by simp)
  | tree h t holds entries own =>
    exact holds.run_btreeSearch_of_mem allocator grants ((entries k v).mp hk)

/-- A deletion removes the key from the map. -/
theorem run_delete (hm : TreeHolds st m pages) {v : shape.Value} (hk : m k = some v) :
    ∃ st' : BTreeState, (btreeDelete st.1 k.bytes).run (flatStore allocator grants) st.2 =
        ((.ok, st'.1), st'.2) ∧
      TreeHolds st' (Function.update m k none) pages ∧ st'.2.used = st.2.used ∧
        ∀ pid ∉ pages, st'.2.pages pid = st.2.pages pid := by
  cases hm with
  | empty opened root nothing own =>
    rw [nothing k] at hk
    exact absurd hk (by simp)
  | tree h t holds entries own =>
    have hx := (entries k v).mp hk
    obtain ⟨s', t', hrun, hholds, hused, hpages, -, hentries⟩ :=
      holds.run_btreeDelete_of_mem allocator grants hx
    refine ⟨(st.1.uncountEntry, s'), hrun, .tree h t' hholds (fun j w => ?_) ?_, hused,
      fun pid hpid => ?_⟩
    · rw [hentries, ← entries]
      by_cases hj : j = k <;> simp [hj]
    · rw [BTree.metaPage_uncountEntry]
      exact own.trans (List.Perm.cons _ hpages.symm)
    · rw [own.mem_iff, List.mem_cons, not_or] at hpid
      have hkeep := holds.pages_btreeDelete allocator grants hx hpid.1 hpid.2
      rw [hrun] at hkeep
      exact hkeep

/-- A value rewritten in its leaf is the key's new value. -/
theorem run_setLeafValue (hm : TreeHolds st m pages) {v : shape.Value} (hk : m k = some v)
    (w : shape.Value) : ∃ s' : FlatStore,
      (setLeafValue st.1 k.bytes w.1).run (flatStore allocator grants) st.2 = (.ok, s') ∧
        TreeHolds (st.1, s') (Function.update m k (some w)) pages ∧ s'.used = st.2.used ∧
          ∀ pid ∉ pages, s'.pages pid = st.2.pages pid := by
  cases hm with
  | empty opened root nothing own =>
    rw [nothing k] at hk
    exact absurd hk (by simp)
  | tree h t holds entries own =>
    obtain ⟨s', t', hrun, hholds, hused, hpages, hkeep, hentries⟩ :=
      holds.run_setLeafValue allocator grants ((entries k v).mp hk) w
    refine ⟨s', hrun, .tree h t' hholds (fun j u => ?_) (own.trans (List.Perm.cons _ hpages.symm)),
      hused, fun pid hpid => hkeep pid fun hmem => ?_⟩
    · rw [hentries, ← entries]
      by_cases hj : j = k
      · subst hj
        simp [eq_comm]
      · simp [hj]
    · exact hpid (own.mem_iff.mpr (List.mem_cons_of_mem _ hmem))

end TreeHolds

theorem Mirrors.treeHolds {base : Nat} {lo hi : Option shape.Key} {st : BTreeState}
    {m : shape.Key → Option shape.Value} (hm : Mirrors base lo hi st m) :
    ∃ pages, TreeHolds st m pages := by
  cases hm with
  | empty opened root count used nothing => exact ⟨_, .empty opened root nothing (.refl _)⟩
  | tree h t low holds bound used entries => exact ⟨_, .tree h t holds entries (.refl _)⟩

end OnionRelay.Db
