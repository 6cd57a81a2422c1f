import OnionRelay.Db.Btree.Cascade
import OnionRelay.Db.Btree.RangeScan

/-!
# Insertions and refused pages

`Harmless` says that an insertion that fails leaves the answers of every search and scan as
they were.  An insertion into a full leaf asks for a page for each split and for a new root
(`climbRequests`); where a later one of them is refused, the leaf has been cut in two already,
and its upper half is not below the root (`lost_of_refused`).
-/

namespace OnionRelay.Db

open OnionRelay.Lib BTreeShape

/-- The pages asked for on the way back up: one for each full node, and one for a new root. -/
def climbRequests (tree : BTree) (pages : Nat → PageData) : List (Nat × Nat) → Nat
  | [] => 1
  | (pid, _) :: path =>
    if keyCount (pages pid) < tree.maxInner then 0 else climbRequests tree pages path + 1

/-- The leaf found has room, or the first page is refused, or none of them is. -/
def SparedAt (grants : Nat → Bool) (st : BTreeState) : Option (Nat × List (Nat × Nat)) → Prop
  | none => True
  | some (pid, path) =>
    keyCount (st.2.pages pid) < st.1.maxLeaf ∨ grants st.2.requests = false ∨
      ∀ i ≤ climbRequests st.1 st.2.pages path, grants (st.2.requests + i) = true

/-- No page is refused to the insertion after one that was granted. -/
def Spared (allocator : Allocator) (grants : Nat → Bool) (st : BTreeState) (key : List UInt8) : Prop :=
  st.1.metadata.rootPage = 0 ∨
    SparedAt grants st ((descend st.1 key st.1.levels st.1.metadata.rootPage []).run
      (flatStore allocator grants) st.2).1

/-- What a search returns. -/
def searchAnswer (allocator : Allocator) (grants : Nat → Bool) (st : BTreeState) (key : List UInt8) :
    NostrDBError × Option (List UInt8) :=
  ((btreeSearch st.1 key).run (flatStore allocator grants) st.2).1

/-- What a scan returns, and what it leaves of the data of the callback. -/
def scanAnswer {σ : Type} (allocator : Allocator) (grants : Nat → Bool) (callback : ScanCallback σ)
    (st : BTreeState) (minKey maxKey : Option (List UInt8)) (u : σ) : NostrDBError × σ :=
  Prod.map id Prod.snd ((btreeRangeScan st.1 minKey maxKey).run
    ((flatStore allocator grants).beside callback.handler) (st.2, u))

/-- Every search and every scan answers alike. -/
structure SameAnswers (shape : BTreeShape) (allocator : Allocator) (grants : Nat → Bool)
    (st st' : BTreeState) : Prop where
  search (k : shape.Key) :
    searchAnswer allocator grants st' k.bytes = searchAnswer allocator grants st k.bytes
  scan (σ : Type) (callback : ScanCallback σ) (minKey maxKey : Option shape.Key) (u : σ) :
    scanAnswer allocator grants callback st' (minKey.map Key.bytes) (maxKey.map Key.bytes) u =
      scanAnswer allocator grants callback st (minKey.map Key.bytes) (maxKey.map Key.bytes) u

/-- The result of an insertion and what it leaves. -/
def insertAnswer (allocator : Allocator) (grants : Nat → Bool) (st : BTreeState)
    (key value : List UInt8) : NostrDBError × BTreeState :=
  let result := (btreeInsert st.1 key value).run (flatStore allocator grants) st.2
  (result.1.1, result.1.2, result.2)

/-- An insertion that returns an error changes no answer. -/
def Harmless (shape : BTreeShape) (allocator : Allocator) (grants : Nat → Bool) (st : BTreeState)
    (x : shape.Key) (v : shape.Value) : Prop :=
  (insertAnswer allocator grants st x.bytes v.1).1 ≠ .ok →
    SameAnswers shape allocator grants st (insertAnswer allocator grants st x.bytes v.1).2

section

variable {shape : BTreeShape} {s : FlatStore} {tree : BTree} {es : shape.Entries} {x : shape.Key}
  {h : Nat} {t : shape.Nodes h} (allocator : Allocator) (grants : Nat → Bool)

/-! ## A store that was refused a page -/

theorem BTreeShape.Opened.refuse (ho : shape.Opened s tree) : shape.Opened s.refuse tree :=
  ⟨ho.fits, ⟨ho.live.mem, ho.live.pos, ho.live.lt⟩, ho.saved, ho.inRange⟩

theorem BTreeShape.WellFormed.refuse (hwf : WellFormed s tree es) : WellFormed s.refuse tree es := by
  cases hwf with
  | empty opened root => exact .empty opened.refuse root
  | tree t holds linked =>
    exact .tree t ⟨holds.toOpened.refuse, holds.rootPage, holds.height,
      holds.pages.congr (fun _ _ => rfl) (List.Subset.refl _), holds.ordered, holds.nodup, holds.apart,
      holds.count⟩ linked

/-- A search of a well-formed tree. -/
theorem BTreeShape.WellFormed.run_btreeSearch_of_mem (hwf : WellFormed s tree es) {v : shape.Value}
    (hx : (x, v) ∈ es) :
    (btreeSearch tree x.bytes).run (flatStore allocator grants) s = ((.ok, some v.1), s) := by
  cases hwf with
  | empty => cases hx
  | tree t holds => exact holds.run_btreeSearch_of_mem allocator grants hx

theorem BTreeShape.WellFormed.run_btreeSearch_of_not_mem (hwf : WellFormed s tree es)
    (hx : ∀ v, (x, v) ∉ es) :
    (btreeSearch tree x.bytes).run (flatStore allocator grants) s = ((.notFound, none), s) := by
  cases hwf with
  | empty opened root =>
    rw [btreeSearch, if_pos root]
    rfl
  | tree t holds => exact holds.run_btreeSearch_of_not_mem allocator grants hx

/-- Trees with the same entries answer alike. -/
theorem sameAnswers_of_wellFormed {s' : FlatStore} {tree' : BTree} (hwf : WellFormed s tree es)
    (hwf' : WellFormed s' tree' es) :
    SameAnswers shape allocator grants (tree, s) (tree', s') where
  search k := by
    rw [searchAnswer, searchAnswer]
    by_cases hk : ∃ v, (k, v) ∈ es
    · obtain ⟨v, hv⟩ := hk
      rw [hwf.run_btreeSearch_of_mem allocator grants hv, hwf'.run_btreeSearch_of_mem allocator grants hv]
    · have habsent : ∀ v, (k, v) ∉ es := fun v hv => hk ⟨v, hv⟩
      rw [hwf.run_btreeSearch_of_not_mem allocator grants habsent,
        hwf'.run_btreeSearch_of_not_mem allocator grants habsent]
  scan σ callback minKey maxKey u := by
    rw [scanAnswer, scanAnswer, (btreeRangeScan_exact allocator grants callback hwf minKey maxKey u).2,
      (btreeRangeScan_exact allocator grants callback hwf' minKey maxKey u).2]
    rfl

/-! ## Granted pages -/

theorem climbRequests_le (tree : BTree) (pages : Nat → PageData) : ∀ path : List (Nat × Nat),
    climbRequests tree pages path ≤ path.length + 1 := by
  intro path
  induction path with
  | nil => exact le_rfl
  | cons e path ih =>
    obtain ⟨pid, pos⟩ := e
    rw [climbRequests, List.length_cons]
    split <;> omega

omit shape in
/-- Only the nodes on the way matter. -/
theorem climbRequests_congr {tree' : BTree} {pages pages' : Nat → PageData}
    (hsize : tree'.maxInner = tree.maxInner) : ∀ {path : List (Nat × Nat)},
      (∀ e ∈ path, pages' e.1 = pages e.1) →
        climbRequests tree' pages' path = climbRequests tree pages path := by
  intro path
  induction path with
  | nil => exact fun _ => rfl
  | cons e path ih =>
    intro hpages
    obtain ⟨pid, pos⟩ := e
    rw [climbRequests, climbRequests, hsize, hpages (pid, pos) List.mem_cons_self,
      ih fun e he => hpages e (List.mem_cons_of_mem _ he)]

/-- **The way back up**, where every page that it asks for is granted. -/
theorem run_propagate_of_granted : ∀ {path : List (Nat × Nat)} {s : FlatStore} {tree : BTree}
    (key : List UInt8) (child : Nat), (∀ e ∈ path, s.Live e.1) → (path.map Prod.fst).Nodup →
      s.Live tree.metaPage →
        (∀ i < climbRequests tree s.pages path, grants (s.requests + i) = true ∧
          s.used.length + i + 1 < dbMaxPages) →
          ((propagate tree key child path).run (flatStore allocator grants) s).1.1 = .ok := by
  intro path
  induction path with
  | nil =>
    intro s tree key child _ _ hmeta hgrants
    obtain ⟨hgrant, -⟩ := hgrants 0 Nat.one_pos
    set q := allocator.pick s.used with hq
    have hlive : ((s.grow q).set q (newRootPage q key tree.metadata.rootPage child tree.keySize
        tree.maxInner)).Live ((tree.raise q).countInner).countEntry.metaPage := by
      rw [BTree.metaPage_countEntry]
      exact ⟨List.mem_cons_of_mem _ hmeta.mem, hmeta.pos, hmeta.lt⟩
    simp only [propagate, newRoot, Prog.run_bind, run_allocPage, allocate_of_granted _ _ _ hgrant,
      run_writePage, run_markDirty, run_unpinPage, ← hq]
    rw [run_btreeFlushMeta _ _ hlive]
    rfl
  | cons e path ih =>
    intro s tree key child hlive hnodup hmeta hgrants
    obtain ⟨pid, pos⟩ := e
    have hpid : s.Live pid := hlive (pid, pos) List.mem_cons_self
    have hfetch : s.fetch pid = some (s.pages pid) := hpid.fetch
    rw [List.map_cons, List.nodup_cons] at hnodup
    obtain ⟨hapart, hnodup⟩ := hnodup
    rw [climbRequests] at hgrants
    simp only [propagate, Prog.run_bind, run_pinPage, hfetch]
    set inserted := btreeNodeInsertKeyChild (s.pages pid) (btreeNodeSearchKey (s.pages pid) key tree.keySize
      tree.compare) key child tree.keySize tree.maxInner with hinserted
    by_cases hspace : keyCount (s.pages pid) < tree.maxInner
    · have hlive' : (s.set pid inserted).Live tree.countEntry.metaPage := by
        rw [BTree.metaPage_countEntry]
        exact hmeta.set _ _
      simp only [if_pos hspace, Prog.run_bind, run_writePage, run_markDirty, run_unpinPage]
      rw [run_btreeFlushMeta _ _ hlive']
      rfl
    · rw [if_neg hspace] at hgrants
      obtain ⟨hgrant, hroom⟩ := hgrants 0 (Nat.succ_pos _)
      obtain ⟨hfresh, -, -⟩ := allocator.fresh s.used hroom
      have hgrant' : grants (s.set pid inserted).requests = true := hgrant
      simp only [if_neg hspace, splitInner, Prog.run_bind, run_writePage, run_markDirty, run_allocPage,
        allocate_of_granted _ _ _ hgrant', run_unpinPage, Prog.run_pure, used_set]
      set q := allocator.pick s.used with hq
      -- the nodes further up are as they were
      have hsame : ∀ right left : PageData, climbRequests tree.countInner
          ((((s.set pid inserted).grow q).set q right).set pid left).pages path =
            climbRequests tree s.pages path := by
        intro right left
        refine climbRequests_congr (show tree.countInner.maxInner = tree.maxInner from rfl) fun e he => ?_
        have hne : e.1 ≠ pid := fun heq => hapart (List.mem_map.mpr ⟨e, he, heq⟩)
        have hneq : e.1 ≠ q := fun heq => hfresh (heq ▸ (hlive e (List.mem_cons_of_mem _ he)).mem)
        rw [pages_set_of_ne _ _ hne, pages_set_of_ne _ _ hneq, pages_grow_of_ne _ hneq,
          pages_set_of_ne _ _ hne]
      refine ih _ _ (fun e he => ?_) hnodup ?_ fun i hi => ?_
      · exact (hlive e (List.mem_cons_of_mem _ he)).mono (List.subset_cons_self q s.used)
      · exact hmeta.mono (List.subset_cons_self q s.used)
      · rw [hsame] at hi
        obtain ⟨hgranted, hroomed⟩ := hgrants (i + 1) (Nat.succ_lt_succ hi)
        refine ⟨?_, ?_⟩
        · rw [requests_set, requests_set, requests_grow, requests_set, Nat.add_assoc, Nat.add_comm 1 i]
          exact hgranted
        · rw [used_set, used_set, used_grow, used_set, List.length_cons]
          omega

namespace BTreeShape.Holds

/-- An insertion into a leaf with room asks for no page. -/
theorem insertAnswer_of_room (hh : shape.Holds s tree t) (hx : ∀ v, (x, v) ∉ t.entries h)
    (hroom : keyCount (s.pages (t.leafAt x h).root) < tree.maxLeaf) (v : shape.Value) :
    (insertAnswer allocator grants (tree, s) x.bytes v.1).1 = .ok := by
  obtain ⟨hlive, -⟩ := hh.leafPage x
  have hfetch : s.fetch (t.leafAt x h).root = some (s.pages (t.leafAt x h).root) := hlive.fetch
  have hlive' : (s.set (t.leafAt x h).root (insertHere tree (s.pages (t.leafAt x h).root) x.bytes
      v.1)).Live tree.countEntry.metaPage := by
    rw [BTree.metaPage_countEntry]
    exact hh.live.set _ _
  simp only [insertAnswer, btreeInsert, if_neg hh.rootPage_ne, Prog.run_bind, hh.run_descend, run_pinPage,
    hfetch, if_neg (hh.not_holds_leafAt hx), if_pos hroom, run_writePage, run_markDirty, run_unpinPage]
  rw [run_btreeFlushMeta _ _ hlive']
  rfl

/-- A leaf without room is full. -/
theorem length_leafAt (hh : shape.Holds s tree t)
    (hroom : ¬ keyCount (s.pages (t.leafAt x h).root) < tree.maxLeaf) :
    ((t.leafAt x h).entries 0).length = shape.maxLeaf := by
  obtain ⟨-, hpage⟩ := hh.leafPage x
  rw [hpage.count, hh.fits.maxLeaf_eq] at hroom
  exact le_antisymm hpage.fits (not_lt.mp hroom)

/-- Where the first page is refused, nothing is written. -/
theorem insertAnswer_of_refused (hh : shape.Holds s tree t) (hx : ∀ v, (x, v) ∉ t.entries h)
    (hroom : ¬ keyCount (s.pages (t.leafAt x h).root) < tree.maxLeaf)
    (hrefuse : grants s.requests = false) (v : shape.Value) :
    insertAnswer allocator grants (tree, s) x.bytes v.1 = (.full, tree, s.refuse) := by
  simp only [insertAnswer, hh.run_btreeInsert_of_full _ _ hx (hh.length_leafAt hroom), insertSplit,
    splitLeaf, Prog.run_bind, run_allocPage, allocate_of_refused hrefuse, Prog.run_pure, run_unpinPage]

/-- Where all pages are granted, the insertion goes through. -/
theorem insertAnswer_of_granted (hh : shape.Holds s tree t) (hx : ∀ v, (x, v) ∉ t.entries h)
    (hroom : ¬ keyCount (s.pages (t.leafAt x h).root) < tree.maxLeaf)
    (hgrants : ∀ i ≤ climbRequests tree s.pages (t.path x h).reverse,
      grants (s.requests + i) = true ∧ s.used.length + i + 1 < dbMaxPages) (v : shape.Value) :
    (insertAnswer allocator grants (tree, s) x.bytes v.1).1 = .ok := by
  have hfull := hh.length_leafAt hroom
  obtain ⟨hlive, hpage⟩ := hh.leafPage x
  obtain ⟨hgrant, hfile⟩ := hgrants 0 (Nat.zero_le _)
  obtain ⟨s₁, k, w, rest, -, hrun, hused, hrequests, hkeep, -, -⟩ :=
    run_insertSplit (x := x) allocator grants hgrant hfile hh.fits hlive hpage (hh.sorted_leafAt x)
      hfull v (t.path x h).reverse
  obtain ⟨hfresh, -, -⟩ := allocator.fresh s.used hfile
  -- the pages on the way are in use and different ones
  have hway := hh.nodup.sublist (PageTree.way_sublist x t)
  rw [List.nodup_append] at hway
  obtain ⟨hnodup, -, hapart⟩ := hway
  have hmem : ∀ e ∈ (t.path x h).reverse, e.1 ∈ (t.path x h).map Prod.fst := fun e he =>
    List.mem_map_of_mem (List.mem_reverse.mp he)
  have hliveWay : ∀ e ∈ (t.path x h).reverse, s.Live e.1 := fun e he =>
    hh.pages.live_pages _ ((PageTree.way_sublist x t).mem (List.mem_append_left _ (hmem e he)))
  have hsame : climbRequests tree.countLeaf s₁.pages (t.path x h).reverse =
      climbRequests tree s.pages (t.path x h).reverse := by
    refine climbRequests_congr (show tree.countLeaf.maxInner = tree.maxInner from rfl) fun e he => ?_
    exact hkeep e.1 (hapart _ (hmem e he) _ List.mem_cons_self)
      fun heq => hfresh (heq ▸ (hliveWay e he).mem)
  have hsub : s.used ⊆ s₁.used := by
    rw [hused]
    exact List.subset_cons_self _ _
  simp only [insertAnswer, hh.run_btreeInsert_of_full _ _ hx hfull, hrun]
  refine run_propagate_of_granted allocator grants _ _ (fun e he => (hliveWay e he).mono hsub) ?_
    (hh.live.mono hsub) fun i hi => ?_
  · rw [List.map_reverse, List.nodup_reverse]
    exact hnodup
  · rw [hsame] at hi
    obtain ⟨hgranted, hroomed⟩ := hgrants (i + 1) hi
    rw [hrequests, hused, List.length_cons]
    refine ⟨?_, by omega⟩
    rw [Nat.add_assoc, Nat.add_comm 1 i]
    exact hgranted

/-- **A root that was cut in two, without a root over the halves**: the middle key is lost. -/
theorem lost_of_refused {t : shape.Nodes 0} (hh : shape.Holds s tree t) (hx : ∀ v, (x, v) ∉ t.entries 0)
    (hroom : ¬ keyCount (s.pages t.root) < tree.maxLeaf) (hgrant : grants s.requests = true)
    (hrefuse : grants (s.requests + 1) = false) (hfile : s.used.length + 1 < dbMaxPages) (v : shape.Value) :
    ∃ (st' : BTreeState) (k : shape.Key) (w : shape.Value), (k, w) ∈ t.entries 0 ∧
      insertAnswer allocator grants (tree, s) x.bytes v.1 = (.full, st') ∧
        searchAnswer allocator grants st' k.bytes = (.notFound, none) := by
  have hfull : (t.entries 0).length = shape.maxLeaf := hh.length_leafAt (x := x) hroom
  obtain ⟨hlive, hpage⟩ := hh.leafPage x
  rw [PageTree.leafAt_zero] at hlive hpage
  have hsorted : Sorted (t.entries 0) := hh.sorted_leafAt x
  obtain ⟨s₁, k, w, rest, hrest, hrun, hused, hrequests, -, hlower, -⟩ :=
    run_insertSplit (x := x) allocator grants hgrant hfile hh.fits hlive hpage hsorted hfull v []
  have hk : (k, w) ∈ t.entries 0 := by
    refine List.mem_of_mem_drop (i := (t.entries 0).length / 2) ?_
    rw [hrest]
    exact List.mem_cons_self
  have hrefuse' : grants s₁.requests = false := by rw [hrequests, hrefuse]
  refine ⟨(tree.countLeaf, s₁.refuse), k, w, hk, ?_, ?_⟩
  · simp only [insertAnswer, hh.run_btreeInsert_of_full _ _ hx hfull, PageTree.leafAt_zero,
      PageTree.path_zero, List.reverse_nil, hrun, propagate, newRoot, Prog.run_bind, run_allocPage,
      allocate_of_refused hrefuse', Prog.run_pure]
  · -- the root is the lower half, and the key is the first of the upper one
    have hsplit := hsorted
    rw [← List.take_append_drop ((t.entries 0).length / 2) (t.entries 0), hrest] at hsplit
    obtain ⟨htake, -, hcross⟩ := sorted_append.mp hsplit
    have hnot : k ∉ (lowerHalf x v k ((t.entries 0).length / 2) (t.entries 0)).map Prod.fst := by
      intro hmem
      obtain ⟨e, he, rfl⟩ := List.mem_map.mp hmem
      rw [lowerHalf] at he
      split at he
      · rename_i hlt
        rcases mem_insertEntry.mp he with rfl | he
        · exact lt_irrefl _ hlt
        · exact (hcross e he _ List.mem_cons_self).ne rfl
      · exact (hcross e he _ List.mem_cons_self).ne rfl
    have hlowerSorted : Sorted (lowerHalf x v k ((t.entries 0).length / 2) (t.entries 0)) := by
      rw [lowerHalf]
      split
      · exact sorted_insertEntry v htake fun e he => hh.not_mem_leafAt hx e (List.mem_of_mem_take he)
      · exact htake
    have hfits : shape.Fits tree.countLeaf := ⟨hh.fits.1, hh.fits.2, hh.fits.3, hh.fits.4⟩
    have hmem : t.root ∈ s₁.refuse.used := by
      show t.root ∈ s₁.used
      rw [hused]
      exact List.mem_cons_of_mem _ hlive.mem
    have hfetch : s₁.refuse.fetch t.root = some (s₁.pages t.root) := fetch_of_mem hlive.pos.ne' hmem
    have habsent : ¬ btreeNodeHolds (s₁.pages t.root) k.bytes tree.countLeaf.keySize
        tree.countLeaf.compare = true := by
      rw [hfits.keySize_eq, hfits.compare, hlower.holds hlowerSorted]
      exact hnot
    simp only [searchAnswer, btreeSearch, findLeaf, show tree.countLeaf.levels = 0 from hh.levels_eq, descend,
      Prog.run_bind, Prog.run_pure, show tree.countLeaf.metadata.rootPage = t.root from hh.rootPage,
      if_neg hlive.pos.ne', run_pinPage, hfetch, if_neg habsent, run_unpinPage]

end BTreeShape.Holds

/-- The way down, the page of the leaf and the climb of `Spared`. -/
theorem spared_iff (hh : shape.Holds s tree t) (x : shape.Key) :
    Spared allocator grants (tree, s) x.bytes ↔ SparedAt grants (tree, s)
      (some ((t.leafAt x h).root, (t.path x h).reverse)) := by
  rw [Spared, or_iff_right hh.rootPage_ne, hh.run_descend]

/-- **When a failing insertion changes nothing.**  It does not if no page is refused to it
after one that was granted; and unless an inner node is to be split, it does otherwise. -/
theorem harmless_of_spared (hwf : WellFormed s tree es) (hx : ∀ v, (x, v) ∉ es)
    (hfile : s.RoomFor grants tree.metadata.height) (v : shape.Value) :
    (Spared allocator grants (tree, s) x.bytes → Harmless shape allocator grants (tree, s) x v) ∧
      (¬ FullParent allocator (tree, s) (.insert x v) → Harmless shape allocator grants (tree, s) x v →
        Spared allocator grants (tree, s) x.bytes) := by
  cases hwf with
  | empty opened root =>
    refine ⟨fun _ hfailed => ?_, fun _ _ => .inl root⟩
    cases hgrant : grants s.requests with
    | true =>
      refine absurd ?_ hfailed
      set q := allocator.pick s.used with hq
      have hlive : ∀ page : PageData, ((s.grow q).set q page).Live (tree.firstLeaf q).metaPage := fun page =>
        ⟨List.mem_cons_of_mem _ opened.live.mem, opened.live.pos, opened.live.lt⟩
      simp only [insertAnswer, btreeInsert, if_pos root, insertFirst, Prog.run_bind, run_allocPage,
        allocate_of_granted _ _ _ hgrant, run_writePage, run_markDirty, run_unpinPage, ← hq]
      rw [run_btreeFlushMeta _ _ (hlive _)]
      rfl
    | false =>
      have hanswer : insertAnswer allocator grants (tree, s) x.bytes v.1 = (.full, tree, s.refuse) := by
        simp only [insertAnswer, btreeInsert, if_pos root, insertFirst, Prog.run_bind, run_allocPage,
          allocate_of_refused hgrant, Prog.run_pure]
      rw [hanswer]
      exact sameAnswers_of_wellFormed allocator grants (.empty opened root) (.empty opened.refuse root)
  | @tree h t holds linked =>
    rw [spared_iff allocator grants holds x, SparedAt]
    have hlength := PageTree.length_path x t
    have hclimb := climbRequests_le tree s.pages (t.path x h).reverse
    rw [List.length_reverse, hlength, ← holds.height] at hclimb
    by_cases hroom : keyCount (s.pages (t.leafAt x h).root) < tree.maxLeaf
    · exact ⟨fun _ hfailed => absurd (holds.insertAnswer_of_room allocator grants hx hroom v) hfailed,
        fun _ _ => .inl hroom⟩
    rw [or_iff_right hroom]
    refine ⟨?_, fun hparent hharmless => ?_⟩
    · rintro (hrefuse | hgrants) hfailed
      · rw [holds.insertAnswer_of_refused allocator grants hx hroom hrefuse v]
        exact sameAnswers_of_wellFormed allocator grants (.tree t holds linked)
          (WellFormed.tree t holds linked).refuse
      · refine absurd (holds.insertAnswer_of_granted allocator grants hx hroom (fun i hi => ?_) v) hfailed
        exact ⟨hgrants i hi, hfile i (hi.trans hclimb) (hgrants i hi)⟩
    · by_contra hnot
      rw [not_or, Bool.not_eq_false] at hnot
      obtain ⟨hgrant, hrefuse⟩ := hnot
      cases hpath : (t.path x h).reverse with
      | nil =>
        -- the leaf is the root
        have hzero : h = 0 := by rw [← hlength, ← List.length_reverse, hpath, List.length_nil]
        subst hzero
        rw [hpath] at hrefuse
        have hrefuse' : grants (s.requests + 1) = false := by
          rw [← Bool.not_eq_true]
          refine fun hgranted => hrefuse fun i hi => ?_
          obtain rfl | rfl : i = 0 ∨ i = 1 := by
            rw [climbRequests] at hi
            omega
          · exact hgrant
          · exact hgranted
        obtain ⟨st', k, w, hk, hanswer, hlost⟩ := holds.lost_of_refused allocator grants hx hroom hgrant
          hrefuse' (hfile 0 (Nat.zero_le _) hgrant) v
        have hsame : SameAnswers shape allocator grants (tree, s) st' := by
          have hfailed := hharmless
          rw [Harmless, hanswer] at hfailed
          exact hfailed (show NostrDBError.full ≠ .ok by decide)
        have hfound := hsame.search k
        rw [hlost, searchAnswer, holds.run_btreeSearch_of_mem allocator grants hk] at hfound
        cases hfound
      | cons e rest =>
        obtain ⟨parent, pos⟩ := e
        refine hrefuse ?_
        have hspace : keyCount (s.pages parent) < tree.maxInner := by
          by_contra hspace
          refine hparent ⟨holds.rootPage_ne, ?_⟩
          rw [holds.run_descend, hpath]
          exact .full (Bool.eq_false_iff.mpr (holds.not_holds_leafAt hx)) (not_lt.mp hroom) (not_lt.mp hspace)
        rw [hpath, climbRequests, if_pos hspace]
        intro i hi
        obtain rfl := Nat.le_zero.mp hi
        exact hgrant

end

/-! ## A full leaf -/

/-- A leaf filled from left to right. -/
def filledLeaf (shape : BTreeShape) (pid : Nat) (es : shape.Entries) : PageData :=
  es.foldl (fun page e => btreeNodeInsertKeyValue page (keyCount page) e.1.bytes e.2.1 shape.keySize
    shape.valueSize shape.maxLeaf) (btreeNodeInitLeaf pid)

theorem leafPage_filledLeaf {shape : BTreeShape} (pid : Nat) {es : shape.Entries} (hsorted : Sorted es)
    (hfits : es.length ≤ shape.maxLeaf) : LeafPage shape (filledLeaf shape pid es) es 0 := by
  induction es using List.reverseRecOn with
  | nil => exact LeafPage.init shape pid
  | append_singleton es e ih =>
    obtain ⟨k, v⟩ := e
    rw [List.length_append, List.length_singleton] at hfits
    obtain ⟨hbefore, -, hcross⟩ := sorted_append.mp hsorted
    have hpage := ih hbefore (by omega)
    have hlast : lowerBound k (es.map Prod.fst) = es.length := by
      rw [lowerBound, List.takeWhile_eq_self_iff.mpr, List.length_map]
      intro j hj
      obtain ⟨e, he, rfl⟩ := List.mem_map.mp hj
      exact decide_eq_true (hcross e he (k, v) List.mem_cons_self)
    have hinsert := hpage.insert (by omega) k v
    rw [insertEntry, hlast, List.insertIdx_length_self] at hinsert
    rw [filledLeaf, List.foldl_append, List.foldl_cons, List.foldl_nil]
    rw [filledLeaf] at hinsert hpage
    rw [hpage.count]
    exact hinsert

/-- As many entries as a leaf of the pubkey+kind index has places for. -/
def numberedEntries : pubkeyKind.Entries := (List.range 101).map fun i => (numberedKey i, zeroValue)

def fullTree : BTree :=
  ⟨1, ⟨2, 1, 101, 1, 0, 36, 4, .composite⟩, btreeGetComparator .composite⟩

def fullStore : FlatStore where
  pages pid := if pid = 1 then writeAt zeroPage 0 fullTree.metadata.encode
    else filledLeaf pubkeyKind 2 numberedEntries
  used := [2, 1]
  requests := 0

theorem length_numberedEntries : numberedEntries.length = 101 := by
  rw [numberedEntries, List.length_map, List.length_range]

theorem holds_fullStore : pubkeyKind.Holds fullStore fullTree (PageTree.leaf 2 numberedEntries 0) := by
  have hsorted : Sorted numberedEntries := by
    rw [numberedEntries, Sorted, List.pairwise_map]
    refine List.pairwise_lt_range.imp_of_mem fun {i j} hi hj hlt => ?_
    rw [List.mem_range] at hi hj
    exact (numberedKey_lt (by omega) (by omega)).mpr hlt
  have hpage := leafPage_filledLeaf 2 hsorted (by rw [length_numberedEntries]; decide)
  have hmeta : fullStore.Live 1 := ⟨by decide, by decide, by decide⟩
  refine ⟨⟨⟨rfl, rfl, rfl, rfl⟩, hmeta, ?_, ?_⟩, rfl, rfl, ⟨⟨by decide, by decide, by decide⟩, hpage⟩, ?_,
    List.nodup_singleton 2, by decide, length_numberedEntries.symm⟩
  · exact readAt_writeAt_same _ _ _ (BTreeMeta.length_encode _).symm
  · exact ⟨by decide, by decide, by decide, by decide, by decide, by decide, by decide⟩
  · exact (PageTree.ordered_leaf ..).mpr ⟨apart_none_left _, hsorted, fun e _ => ⟨atLeast_none _, under_none _⟩⟩

theorem wellFormed_fullStore : WellFormed fullStore fullTree numberedEntries :=
  .tree _ holds_fullStore ⟨rfl, trivial⟩

theorem numberedKey_not_mem (v : pubkeyKind.Value) : (numberedKey 101, v) ∉ numberedEntries := by
  intro hmem
  obtain ⟨i, hi, heq⟩ := List.mem_map.mp hmem
  rw [List.mem_range] at hi
  exact ((numberedKey_lt (by omega) (by decide)).mpr hi).ne (congrArg Prod.fst heq)

/-- No page is granted. -/
theorem harmless_of_spared_fullStore :
    Harmless pubkeyKind Allocator.lowest (fun _ => false) (fullTree, fullStore) (numberedKey 101) zeroValue :=
  (harmless_of_spared Allocator.lowest (fun _ => false) wellFormed_fullStore numberedKey_not_mem
    (fun _ _ hgrant => Bool.noConfusion hgrant) zeroValue).1
      ((spared_iff Allocator.lowest (fun _ => false) holds_fullStore _).mpr (.inr (.inl rfl)))

/-- The page for the upper half is granted, the one for the root is not. -/
theorem harmed_fullStore : WellFormed fullStore fullTree numberedEntries ∧
    (∀ v, (numberedKey 101, v) ∉ numberedEntries) ∧
      ¬ Harmless pubkeyKind Allocator.lowest (fun n => n == 0) (fullTree, fullStore) (numberedKey 101)
        zeroValue := by
  refine ⟨wellFormed_fullStore, numberedKey_not_mem, fun hharmless => ?_⟩
  have hfull : keyCount (fullStore.pages 2) = 101 := 
    holds_fullStore.pages.2.count.trans length_numberedEntries
  obtain ⟨st', k, w, hk, hanswer, hlost⟩ := holds_fullStore.lost_of_refused Allocator.lowest
    (fun n => n == 0) numberedKey_not_mem (by rw [PageTree.root_leaf, hfull]; decide) rfl rfl (by decide)
    zeroValue
  rw [Harmless, hanswer] at hharmless
  have hfound := (hharmless (show NostrDBError.full ≠ .ok by decide)).search k
  rw [hlost, searchAnswer, holds_fullStore.run_btreeSearch_of_mem _ _ hk] at hfound
  cases hfound

end OnionRelay.Db
