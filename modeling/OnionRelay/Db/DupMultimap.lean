import Mathlib.Data.Multiset.AddSub
import OnionRelay.Db.DupDelete
import OnionRelay.Lib.Reach

/-!
# The duplicate index as a multimap

`dupCall` runs a call on the tree and its chains, `multimapCall` the same call on a
map from keys to multisets of record ids.  `DupIndex` says which chain each key has:
chains have no empty page, and share no page with each other or with the tree.  Every
call keeps it (`DupIndex.call`), whatever the order of the calls (`multimap_of_run`).

That `btree_insert` adds the entry and nothing else is assumed of each call that comes
with a new key (`ExactInsert`).
-/

namespace OnionRelay.Db

open OnionRelay.Lib BTreeShape

variable (dup : DupShape) (allocator : Allocator)

inductive DupRequest
  | insert (k : dup.Key) (rid : RecordId)
  | delete (k : dup.Key) (rid : RecordId)
  | scan (k : dup.Key)

/-- A callback that keeps what it is shown. -/
def collect (rid : RecordId) (acc : List RecordId) : Bool × List RecordId := (true, acc ++ [rid])

variable {dup}

/-- The error code and the ids that a scan reports, and the state behind the call. -/
def dupCall (st : BTreeState) : DupRequest dup → (NostrDBError × List RecordId) × BTreeState
  | .insert k rid =>
    let r := (btreeInsertDup st.1 k.bytes rid).run (flatStore allocator grantAll) st.2
    ((r.1.1, []), (r.1.2, r.2))
  | .delete k rid =>
    let r := (btreeDeleteDup st.1 k.bytes rid).run (dupStore allocator) st.2
    ((r.1.1, []), (r.1.2, r.2))
  | .scan k =>
    let r := (btreeScanKey collect st.1 k.bytes []).run (flatStore allocator grantAll) st.2
    (r.1, (st.1, r.2))

/-- What the index is for. -/
abbrev Multimap (dup : DupShape) : Type := dup.Key → Multiset RecordId

def multimapCall (m : Multimap dup) : DupRequest dup → (NostrDBError × Multiset RecordId) × Multimap dup
  | .insert k rid => ((.ok, 0), Function.update m k (rid ::ₘ m k))
  | .delete k rid =>
    ((if rid ∈ m k then .ok else .notFound, 0), Function.update m k ((m k).erase rid))
  | .scan k => ((if m k = 0 then .notFound else .ok, m k), m)

theorem scan_behind_insert (m : Multimap dup) (k : dup.Key) (rid : RecordId) :
    (multimapCall (multimapCall m (.insert k rid)).2 (.scan k)).1 = (.ok, rid ::ₘ m k) := by
  simp [multimapCall]

/-! ## What is assumed -/

/-- The insertion of an entry with a new key succeeds and adds it; pages it takes were
not in use, and those of others stay. -/
def ExactInsert (st : BTreeState) (k : dup.Key) (v : dup.Value) : Prop :=
  ∀ (m : dup.Key → Option dup.Value) (pages : List Nat), TreeHolds st m pages → m k = none →
    ∃ (st' : BTreeState) (pages' : List Nat),
      (btreeInsert st.1 k.bytes v.1).run (flatStore allocator grantAll) st.2 =
          ((.ok, st'.1), st'.2) ∧
        TreeHolds st' (Function.update m k (some v)) pages' ∧
          (∀ pid ∈ pages', pid ∈ pages ∨ pid ∉ st.2.used) ∧ st.2.used ⊆ st'.2.used ∧
            ∀ pid ∈ st.2.used, pid ∉ pages → st'.2.pages pid = st.2.pages pid

/-- The store with the first page of a new chain. -/
def FlatStore.startChain (s : FlatStore) (rid : RecordId) : FlatStore :=
  (s.grow (allocator.pick s.used)).set (allocator.pick s.used) (firstEntryPage rid)

/-- There is a page to allocate, and the tree takes a new key as it should. -/
def Granted (st : BTreeState) : DupRequest dup → Prop
  | .insert k rid =>
    st.2.used.length + 1 < dbMaxPages ∧
      (((btreeSearch st.1 k.bytes).run (flatStore allocator grantAll) st.2).1.1 = .notFound →
        ExactInsert allocator (st.1, st.2.startChain allocator rid) k
          (dup.value (allocator.pick st.2.used)))
  | _ => True

/-- The first key of a tree is inserted so. -/
theorem exactInsert_of_empty {st : BTreeState} (hroot : st.1.metadata.rootPage = 0)
    (hfile : st.2.used.length + 1 < dbMaxPages) (k : dup.Key) (v : dup.Value) :
    ExactInsert allocator st k v := by
  intro m pages hm hk
  cases hm with
  | tree h t holds entries own => exact absurd hroot holds.rootPage_ne
  | empty opened root nothing own =>
    obtain ⟨hfresh, -, -⟩ := allocator.fresh st.2.used hfile
    obtain ⟨s', tree', t', hrun, hholds, hmeta, -, rfl⟩ :=
      run_btreeInsert_of_empty (x := k) allocator grantAll opened root rfl hfile v
    set q := allocator.pick st.2.used with hq
    have hne : ∀ other ∈ st.2.used, other ≠ q := fun other hmem heq => hfresh (heq ▸ hmem)
    have hlive : ∀ page, ((st.2.grow q).set q page).Live (st.1.firstLeaf q).metaPage := fun _ =>
      ⟨List.mem_cons_of_mem _ opened.live.mem, opened.live.pos, opened.live.lt⟩
    -- the node is the page that was taken, and the metadata are rewritten
    have hstore : st.2.used ⊆ s'.used ∧ ∀ pid ∈ st.2.used, pid ≠ st.1.metaPage →
        s'.pages pid = st.2.pages pid := by
      have hsnd := congrArg Prod.snd hrun
      simp only [btreeInsert, if_pos root, insertFirst, Prog.run_bind, run_allocPage,
        allocate_of_granted allocator grantAll st.2 rfl, run_writePage, run_markDirty, run_unpinPage,
        ← hq, run_btreeFlushMeta _ _ (hlive _), Prog.run_pure] at hsnd
      rw [← hsnd]
      refine ⟨List.subset_cons_self _ _, fun pid hmem hpid => ?_⟩
      rw [pages_flush_of_ne _ (show pid ≠ (st.1.firstLeaf q).metaPage from hpid),
        pages_set_of_ne _ _ (hne pid hmem), pages_grow_of_ne _ (hne pid hmem)]
    have hmetaMem : st.1.metaPage ∈ pages := own.mem_iff.mpr List.mem_cons_self
    refine ⟨(tree', s'), [tree'.metaPage, q], hrun, .tree 0 _ hholds (fun j w => ?_) (.refl _),
      fun pid hpid => ?_, hstore.1, fun pid hmem hout => hstore.2 pid hmem fun heq =>
        hout (heq ▸ hmetaMem)⟩
    · rw [PageTree.entries_leaf, List.mem_singleton, Prod.mk.injEq]
      by_cases hj : j = k
      · subst hj
        simp [eq_comm]
      · simp [hj, nothing j]
    · rcases List.mem_cons.mp hpid with rfl | hpid
      · exact .inl (hmeta ▸ hmetaMem)
      · obtain rfl := List.mem_singleton.mp hpid
        exact .inr hfresh

/-! ## One call on the chain of a key -/

namespace KeyChain

variable {st : BTreeState} {m : dup.Key → Option dup.Value} {pages : List Nat} {k : dup.Key}
  {chain : Chain}

theorem lists_eq_nil (hc : KeyChain dup st m pages k chain) :
    (chain.lists.flatten : Multiset RecordId) = 0 ↔ chain = [] := by
  rw [Multiset.coe_eq_zero]
  constructor
  · intro hnil
    rcases chain with - | ⟨p, post⟩
    · rfl
    · rw [Chain.lists_cons, List.flatten_cons, List.append_eq_nil_iff] at hnil
      exact absurd hnil.1 (hc.holds.ne_nil p List.mem_cons_self)
  · rintro rfl
    rfl

/-- An id of a key that has others. -/
theorem run_btreeInsertDup_of_ne_nil (hc : KeyChain dup st m pages k chain) (hne : chain ≠ [])
    (hfile : st.2.used.length + 1 < dbMaxPages) (rid : RecordId) :
    ∃ (s' : FlatStore) (chain' : Chain),
      (btreeInsertDup st.1 k.bytes rid).run (flatStore allocator grantAll) st.2 =
          ((.ok, st.1), s') ∧
        KeyChain dup (st.1, s') (Function.update m k (dup.entry chain')) pages k chain' ∧
          Within st.2 s' pages chain chain' ∧ chain'.lists = chainInsert rid chain.lists := by
  obtain ⟨found, hsearch, herr, hhead⟩ := hc.run_search allocator
  rw [if_neg hne] at herr
  obtain ⟨s', chain', hrun, hholds, hlists, hfirst, hwithin⟩ :=
    @run_insertDupLoop allocator rid _ _ hfile _ [] _ hc.holds hne hc.holds.length_lt.le
  have hentry : dup.entry chain' = dup.entry chain := by
    obtain ⟨p, post, rfl⟩ := List.exists_cons_of_ne_nil hne
    rcases chain' with - | ⟨p', post'⟩
    · exact absurd hfirst.symm (hc.head_ne_zero hne)
    · rw [dup.entry_cons, dup.entry_cons, show p'.1 = p.1 from hfirst]
  refine ⟨s', chain', ?_, KeyChain.update_self ⟨?_, ?_, ?_, fun pid hpid hmem => ?_⟩, ?_, hlists⟩
  · simp only [btreeInsertDup, Prog.run_bind, hsearch, herr, hhead]
    rw [if_pos ⟨trivial, hc.head_ne_zero hne⟩, Prog.run_bind, hrun]
    rfl
  · rw [hfirst]
    exact hholds
  · exact hc.tree_of_frame (fun other hmem hother => hwithin.frame other hmem hother List.not_mem_nil)
      hwithin.kept
  · rw [hc.entry, hentry]
  · rcases hwithin.fresh pid hpid with hold | hnew
    · exact hc.apart pid hold hmem
    · exact hnew (hc.tree.live pid hmem).mem
  · exact ⟨hwithin.kept, hwithin.fresh, fun other hmem hother _ =>
      hwithin.frame other hmem hother List.not_mem_nil⟩

/-- The first id of a key. -/
theorem run_btreeInsertDup_of_nil (hc : KeyChain dup st m pages k [])
    (hfile : st.2.used.length + 1 < dbMaxPages) (rid : RecordId)
    (hexact : ExactInsert allocator (st.1, st.2.startChain allocator rid) k
      (dup.value (allocator.pick st.2.used))) :
    ∃ (st' : BTreeState) (chain' : Chain) (pages' : List Nat),
      (btreeInsertDup st.1 k.bytes rid).run (flatStore allocator grantAll) st.2 =
          ((.ok, st'.1), st'.2) ∧
        KeyChain dup st' (Function.update m k (dup.entry chain')) pages' k chain' ∧
          Within st.2 st'.2 pages [] chain' ∧ chain'.lists = [[rid]] ∧
            ∀ pid ∈ pages', pid ∈ pages ∨ pid ∉ st.2.used := by
  obtain ⟨found, hsearch, herr, hhead⟩ := hc.run_search allocator
  rw [if_pos rfl] at herr
  obtain ⟨hfresh, hpos, hlt⟩ := allocator.fresh st.2.used hfile
  set q := allocator.pick st.2.used with hq
  have hne : ∀ other ∈ st.2.used, other ≠ q := fun other hmem heq => hfresh (heq ▸ hmem)
  have hpages : ∀ other ∈ st.2.used, (st.2.startChain allocator rid).pages other = st.2.pages other := by
    intro other hmem
    rw [FlatStore.startChain, ← hq, pages_set_of_ne _ _ (hne other hmem),
      pages_grow_of_ne _ (hne other hmem)]
  have hused : ∀ other, other ∈ (st.2.startChain allocator rid).used ↔ other = q ∨ other ∈ st.2.used :=
    fun _ => List.mem_cons
  have htree : TreeHolds (st.1, st.2.startChain allocator rid) m pages :=
    hc.tree_of_frame (fun other hmem _ => hpages other hmem) fun other hmem _ =>
      (hused other).mpr (.inr hmem)
  have hqPages : q ∉ pages := fun hmem => hfresh (hc.tree.live q hmem).mem
  obtain ⟨st', pages', hrun, htree', hnew, hmono, hkeep⟩ := hexact m pages htree hc.entry
  have hpage : st'.2.pages q = firstEntryPage rid := by
    rw [hkeep q ((hused q).mpr (.inl rfl)) hqPages, FlatStore.startChain, ← hq, pages_set_self]
  refine ⟨st', [(q, [rid])], pages', ?_, ⟨?_, htree', Function.update_self .., fun pid hpid hmem => ?_⟩,
    ⟨fun pid hmem _ => hmono ((hused pid).mpr (.inr hmem)), fun pid hpid => .inr ?_,
      fun pid hmem _ hout => ?_⟩, rfl, fun pid hmem => ?_⟩
  · have hnot : ¬ (found.1 = .ok ∧ chainHead found ≠ 0) := fun hand => hand.2 hhead
    simp only [btreeInsertDup, Prog.run_bind, hsearch, if_neg hnot, run_allocPage,
      allocate_of_granted allocator grantAll st.2 rfl, ← hq, run_writePage, run_markDirty, run_unpinPage]
    exact hrun
  · refine ChainHolds.single ⟨hmono ((hused q).mpr (.inl rfl)), hpos, hlt⟩ ?_
    rw [Chain.head_cons, hpage]
    exact OverflowPage.first rid
  · obtain rfl := List.mem_singleton.mp hpid
    rcases hnew q hmem with hold | hout
    · exact hqPages hold
    · exact hout ((hused q).mpr (.inl rfl))
  · obtain rfl := List.mem_singleton.mp hpid
    exact hfresh
  · rw [hkeep pid ((hused pid).mpr (.inr hmem)) hout, hpages pid hmem]
  · refine (hnew pid hmem).imp id fun hout hin => hout ((hused pid).mpr (.inr hin))

theorem scanEntries_collect (rids acc : List RecordId) :
    scanEntries collect rids acc = (false, acc ++ rids) := by
  induction rids generalizing acc with
  | nil => simp [scanEntries]
  | cons rid rids ih =>
    rw [scanEntries, collect, if_pos rfl, ih, List.append_assoc]
    rfl

/-- **A scan** reports the ids of the chain. -/
theorem run_btreeScanKey (hc : KeyChain dup st m pages k chain) :
    (btreeScanKey collect st.1 k.bytes []).run (flatStore allocator grantAll) st.2 =
      ((if chain = [] then .notFound else .ok, chain.lists.flatten), st.2) := by
  obtain ⟨found, hsearch, herr, hhead⟩ := hc.run_search allocator
  simp only [btreeScanKey, Prog.run_bind, hsearch, herr, hhead]
  by_cases hnil : chain = []
  · subst hnil
    rfl
  · rw [if_neg hnil, if_neg (by simp), if_neg (hc.head_ne_zero hnil), Prog.run_bind,
      run_scanLoop allocator collect [] hc.holds hc.holds.length_lt.le, scanEntries_collect]
    rfl

end KeyChain

/-! ## All chains -/

/-- The ids under each key. -/
def multimapOf (chains : dup.Key → Chain) : Multimap dup := fun k => ((chains k).lists.flatten :)

/-- Each key has a chain, and no page is in two of them or also of the tree. -/
structure DupIndex (st : BTreeState) (chains : dup.Key → Chain) (pages : List Nat) : Prop where
  tree : TreeHolds st (fun k => dup.entry (chains k)) pages
  holds : ∀ k, ChainHolds st.2 (Chain.head (chains k)) (chains k)
  apart : ∀ k, ∀ pid ∈ (chains k).pids, pid ∉ pages
  disjoint : ∀ j k, j ≠ k → ∀ pid ∈ (chains j).pids, pid ∉ (chains k).pids

theorem multimapOf_update (chains : dup.Key → Chain) (k : dup.Key) (chain : Chain) :
    multimapOf (Function.update chains k chain) =
      Function.update (multimapOf chains) k (chain.lists.flatten : Multiset RecordId) := by
  funext j
  by_cases hj : j = k
  · subst hj
    simp [multimapOf]
  · simp [multimapOf, hj]

namespace DupIndex

variable {st : BTreeState} {chains : dup.Key → Chain} {pages : List Nat} {k : dup.Key}

theorem keyChain (h : DupIndex st chains pages) (k : dup.Key) :
    KeyChain dup st (fun j => dup.entry (chains j)) pages k (chains k) :=
  ⟨h.holds k, h.tree, rfl, h.apart k⟩

theorem eq_zero_iff (h : DupIndex st chains pages) : multimapOf chains k = 0 ↔ chains k = [] :=
  (h.keyChain k).lists_eq_nil

/-- **Another chain for one key.** -/
theorem update (h : DupIndex st chains pages) {st' : BTreeState} {chain : Chain} {pages' : List Nat}
    (hc : KeyChain dup st' (Function.update (fun j => dup.entry (chains j)) k (dup.entry chain)) pages'
      k chain)
    (hwithin : Within st.2 st'.2 pages (chains k) chain)
    (hpages : ∀ pid ∈ pages', pid ∈ pages ∨ pid ∉ st.2.used) :
    DupIndex st' (Function.update chains k chain) pages' := by
  have hentries : (fun j => dup.entry (Function.update chains k chain j)) =
      Function.update (fun j => dup.entry (chains j)) k (dup.entry chain) := by
    funext j
    by_cases hj : j = k
    · subst hj
      simp
    · simp [hj]
  have hother : ∀ j, j ≠ k → ∀ pid ∈ (chains j).pids, pid ∉ chain.pids := by
    intro j hj pid hpid hmem
    rcases hwithin.fresh pid hmem with hold | hnew
    · exact h.disjoint j k hj pid hpid hold
    · exact hnew ((h.holds j).live pid hpid).mem
  refine ⟨?_, fun j => ?_, fun j => ?_, fun i j hij => ?_⟩
  · rw [hentries]
    exact hc.tree
  · by_cases hj : j = k
    · subst hj
      rw [Function.update_self]
      exact hc.holds
    · rw [Function.update_of_ne hj]
      refine (h.holds j).transfer fun pid hpid => ?_
      have hlive := (h.holds j).live pid hpid
      have hnot := h.disjoint j k hj pid hpid
      exact ⟨hwithin.frame pid hlive.mem hnot (h.apart j pid hpid), hwithin.kept pid hlive.mem hnot,
        hlive.pos, hlive.lt⟩
  · by_cases hj : j = k
    · subst hj
      rw [Function.update_self]
      exact hc.apart
    · rw [Function.update_of_ne hj]
      intro pid hpid hmem
      rcases hpages pid hmem with hold | hnew
      · exact h.apart j pid hpid hold
      · exact hnew ((h.holds j).live pid hpid).mem
  · intro pid hpid hmem
    by_cases hi : i = k
    · subst hi
      rw [Function.update_self] at hpid
      rw [Function.update_of_ne (Ne.symm hij)] at hmem
      exact hother j (Ne.symm hij) pid hmem hpid
    · rw [Function.update_of_ne hi] at hpid
      by_cases hj : j = k
      · subst hj
        rw [Function.update_self] at hmem
        exact hother i hi pid hpid hmem
      · rw [Function.update_of_ne hj] at hmem
        exact h.disjoint i j hij pid hpid hmem

/-- **One call**: the answer is that of the multimap, and the index holds the multimap
behind the call. -/
theorem call (h : DupIndex st chains pages) (req : DupRequest dup) (hreq : Granted allocator st req) :
    ∃ (chains' : dup.Key → Chain) (pages' : List Nat),
      DupIndex (dupCall allocator st req).2 chains' pages' ∧
        multimapOf chains' = (multimapCall (multimapOf chains) req).2 ∧
          (dupCall allocator st req).1.1 = (multimapCall (multimapOf chains) req).1.1 ∧
            ((dupCall allocator st req).1.2 : Multiset RecordId) =
              (multimapCall (multimapOf chains) req).1.2 := by
  cases req with
  | insert k rid =>
    by_cases hnil : chains k = []
    · have hc := h.keyChain k
      rw [hnil] at hc
      obtain ⟨hfile, hexact⟩ := hreq
      have hsearch := hc.tree.run_search_of_none allocator grantAll hc.entry
      obtain ⟨st', chain', pages', hrun, hkeep, hwithin, hlists, hpages⟩ :=
        hc.run_btreeInsertDup_of_nil allocator hfile rid (hexact (by rw [hsearch]))
      simp only [dupCall, hrun, multimapCall]
      refine ⟨_, pages', h.update hkeep (hnil ▸ hwithin) hpages, ?_, trivial, rfl⟩
      rw [multimapOf_update, hlists]
      simp [multimapOf, hnil]
    · obtain ⟨s', chain', hrun, hkeep, hwithin, hlists⟩ :=
        (h.keyChain k).run_btreeInsertDup_of_ne_nil allocator hnil hreq.1 rid
      simp only [dupCall, hrun, multimapCall]
      refine ⟨_, pages, h.update hkeep hwithin fun pid hpid => .inl hpid, ?_, trivial, rfl⟩
      rw [multimapOf_update, hlists, Multiset.coe_eq_coe.mpr (perm_chainInsert rid _)]
      rfl
  | delete k rid =>
    obtain ⟨st', chain', hrun, hkeep, hwithin, hlists⟩ := (h.keyChain k).run_btreeDeleteDup allocator rid
    simp only [dupCall, hrun, multimapCall]
    refine ⟨_, pages, h.update hkeep hwithin fun pid hpid => .inl hpid, ?_, rfl, rfl⟩
    rw [multimapOf_update, hlists, Multiset.coe_eq_coe.mpr (perm_chainDelete rid _), ← Multiset.coe_erase]
    rfl
  | scan k =>
    have hrun := (h.keyChain k).run_btreeScanKey allocator
    simp only [dupCall, hrun, multimapCall]
    refine ⟨chains, pages, h, rfl, ?_, rfl⟩
    by_cases hnil : chains k = []
    · rw [if_pos hnil, if_pos (h.eq_zero_iff.mpr hnil)]
    · rw [if_neg hnil, if_neg fun hzero => hnil (h.eq_zero_iff.mp hzero)]

/-- A key is in the tree when it has ids. -/
theorem search_iff (h : DupIndex st chains pages) (k : dup.Key) :
    ((btreeSearch st.1 k.bytes).run (flatStore allocator grantAll) st.2).1.1 = .ok ↔
      multimapOf chains k ≠ 0 := by
  obtain ⟨found, hsearch, herr, -⟩ := (h.keyChain k).run_search allocator
  rw [hsearch, Ne, h.eq_zero_iff, herr]
  by_cases hnil : chains k = []
  · simp [hnil]
  · simp [hnil]

end DupIndex

/-! ## Runs -/

/-- The index and the multimap side by side. -/
def bothCall (st : BTreeState × Multimap dup) (req : DupRequest dup) : BTreeState × Multimap dup :=
  ((dupCall allocator st.1 req).2, (multimapCall st.2 req).2)

/-- A tree just created is an index without ids. -/
theorem dupIndex_created {s : FlatStore} (hfile : s.used.length + 1 < dbMaxPages) :
    ∃ (tree : BTree) (s' : FlatStore) (pages : List Nat),
      (btreeCreate dup.keySize dup.valueSize dup.keyType).run (flatStore allocator grantAll) s =
          ((.ok, some tree), s') ∧
        DupIndex (tree, s') (fun _ : dup.Key => []) pages := by
  obtain ⟨tree, s', hcreate, hm⟩ :=
    @mirrors_created dup.toBTreeShape allocator _ none none hfile
  obtain ⟨pages, htree⟩ := hm.treeHolds
  exact ⟨tree, s', pages, hcreate, htree, fun _ => ChainHolds.nil s', fun _ _ hpid =>
    absurd hpid List.not_mem_nil, fun _ _ _ _ hpid => absurd hpid List.not_mem_nil⟩

/-- **The duplicate index is a multimap.**  After every run of calls on a tree, each
key has a chain of non-empty pages, no page is in two chains, the ids of the chains are
those of the multimap, a key is in the tree when it has ids, and every call is answered
as the multimap answers it. -/
theorem multimap_of_run {s : FlatStore} (hfile : s.used.length + 1 < dbMaxPages) :
    ∃ (tree : BTree) (s' : FlatStore),
      (btreeCreate dup.keySize dup.valueSize dup.keyType).run (flatStore allocator grantAll) s =
          ((.ok, some tree), s') ∧
        ∀ st : BTreeState × Multimap dup,
          Reaches (bothCall allocator) (fun st req => Granted allocator st.1 req)
              ((tree, s'), fun _ => 0) st →
            (∃ (chains : dup.Key → Chain) (pages : List Nat),
              DupIndex st.1 chains pages ∧ multimapOf chains = st.2) ∧
            (∀ k : dup.Key, ((btreeSearch st.1.1 k.bytes).run (flatStore allocator grantAll)
              st.1.2).1.1 = .ok ↔ st.2 k ≠ 0) ∧
            ∀ req : DupRequest dup, Granted allocator st.1 req →
              (dupCall allocator st.1 req).1.1 = (multimapCall st.2 req).1.1 ∧
                ((dupCall allocator st.1 req).1.2 : Multiset RecordId) =
                  (multimapCall st.2 req).1.2 := by
  obtain ⟨tree, s', pages₀, hcreate, hstart⟩ := @dupIndex_created dup allocator _ hfile
  refine ⟨tree, s', hcreate, fun st hreach => ?_⟩
  obtain ⟨chains, pages, hindex, hmap⟩ := hreach.invariant
    (I := fun st => ∃ (chains : dup.Key → Chain) (pages : List Nat),
      DupIndex st.1 chains pages ∧ multimapOf chains = st.2)
    ⟨fun _ => [], pages₀, hstart, rfl⟩ fun st req hst hreq => by
      obtain ⟨chains, pages, hindex, hmap⟩ := hst
      obtain ⟨chains', pages', hindex', hmap', -⟩ := hindex.call allocator req hreq
      exact ⟨chains', pages', hindex', by rw [hmap', hmap]; rfl⟩
  refine ⟨⟨chains, pages, hindex, hmap⟩, fun k => ?_, fun req hreq => ?_⟩
  · rw [hindex.search_iff, hmap]
  · obtain ⟨-, -, -, -, hanswer⟩ := hindex.call allocator req hreq
    rw [← hmap]
    exact hanswer

/-- The first event of kind 1, and the scan that finds it. -/
theorem multimap_of_run_first : ∃ (tree : BTree) (s' : FlatStore),
    (btreeCreate 4 4 .uint32).run (flatStore Allocator.lowest grantAll) FlatStore.empty =
        ((.ok, some tree), s') ∧
      (dupCall Allocator.lowest (dupCall Allocator.lowest (tree, s')
        (.insert ⟨[1, 0, 0, 0], rfl⟩ ⟨8, 0⟩ : DupRequest DupShape.kind)).2
          (.scan ⟨[1, 0, 0, 0], rfl⟩ : DupRequest DupShape.kind)).1 = (.ok, [⟨8, 0⟩]) := by
  obtain ⟨tree, s', hcreate, hrun⟩ :=
    @multimap_of_run DupShape.kind Allocator.lowest FlatStore.empty (by decide)
  have hstore : s'.used = [1] := (congrArg (fun r => r.2.used) hcreate).symm
  have hroot : tree.metadata.rootPage = 0 := by
    have htree := congrArg (fun r => r.1.2.map fun t => t.metadata.rootPage) hcreate
    exact (Option.some.inj htree).symm
  have hgranted : Granted Allocator.lowest (tree, s')
      (.insert ⟨[1, 0, 0, 0], rfl⟩ ⟨8, 0⟩ : DupRequest DupShape.kind) := by
    refine ⟨?_, fun _ => exactInsert_of_empty Allocator.lowest hroot ?_ _ _⟩
    · show s'.used.length + 1 < dbMaxPages
      rw [hstore]
      decide
    · show (s'.startChain Allocator.lowest ⟨8, 0⟩).used.length + 1 < dbMaxPages
      rw [FlatStore.startChain, used_set, used_grow, hstore]
      decide
  obtain ⟨-, -, hanswer⟩ := hrun _ (Reaches.start.next hgranted)
  obtain ⟨herr, hids⟩ := hanswer (.scan ⟨[1, 0, 0, 0], rfl⟩) trivial
  have hscan := scan_behind_insert (fun _ => 0 : Multimap DupShape.kind) ⟨[1, 0, 0, 0], rfl⟩ ⟨8, 0⟩
  refine ⟨tree, s', hcreate, Prod.ext (herr.trans (congrArg Prod.fst hscan)) ?_⟩
  exact Multiset.coe_eq_singleton.mp (hids.trans (congrArg Prod.snd hscan))

end OnionRelay.Db
