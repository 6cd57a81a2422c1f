import OnionRelay.Db.Btree.Grow
import OnionRelay.Lib.Reach

/-!
# The tree as a finite map

`treeStep` answers a request to the tree, `mapStep` one to a map from keys to
values.  `Mirrors` says that the tree holds the map; it is kept by every request
(`mirrors_step`) but the insertion that finds a full leaf under a full root
(`FullParent`).
-/

namespace OnionRelay.Db

open OnionRelay.Lib BTreeShape

inductive BTreeRequest (shape : BTreeShape)
  | insert (k : shape.Key) (v : shape.Value)
  | delete (k : shape.Key)
  | search (k : shape.Key)
  | reopen

/-- The error code, and the value a search copies out. -/
abbrev BTreeAnswer : Type := NostrDBError × Option (List UInt8)

/-- A handle and the store under it. -/
abbrev BTreeState : Type := BTree × FlatStore

/-- A store of which every allocation succeeds. -/
def grantAll : Nat → Bool := fun _ => true

variable {shape : BTreeShape} (allocator : Allocator)

def treeStep (st : BTreeState) : BTreeRequest shape → BTreeAnswer × BTreeState
  | .insert k v =>
    let r := (btreeInsert st.1 k.bytes v.1).run (flatStore allocator grantAll) st.2
    ((r.1.1, none), (r.1.2, r.2))
  | .delete k =>
    let r := (btreeDelete st.1 k.bytes).run (flatStore allocator grantAll) st.2
    ((r.1.1, none), (r.1.2, r.2))
  | .search k =>
    let r := (btreeSearch st.1 k.bytes).run (flatStore allocator grantAll) st.2
    (r.1, (st.1, r.2))
  | .reopen =>
    let r := (btreeOpen st.1.metaPage).run (flatStore allocator grantAll) st.2
    ((r.1.1, none), (r.1.2.getD st.1, r.2))

/-- The finite map the tree is to be. -/
def mapStep (m : shape.Key → Option shape.Value) :
    BTreeRequest shape → BTreeAnswer × (shape.Key → Option shape.Value)
  | .insert k v =>
    match m k with
    | some _ => ((.duplicate, none), m)
    | none => ((.ok, none), Function.update m k (some v))
  | .delete k =>
    match m k with
    | some _ => ((.ok, none), Function.update m k none)
    | none => ((.notFound, none), m)
  | .search k =>
    match m k with
    | some v => ((.ok, some v.1), m)
    | none => ((.notFound, none), m)
  | .reopen => ((.ok, none), m)

def treeAnswers : List (BTreeRequest shape) → BTreeState → List BTreeAnswer
  | [], _ => []
  | req :: reqs, st => (treeStep allocator st req).1 :: treeAnswers reqs (treeStep allocator st req).2

def mapAnswers : List (BTreeRequest shape) → (shape.Key → Option shape.Value) → List BTreeAnswer
  | [], _ => []
  | req :: reqs, m => (mapStep m req).1 :: mapAnswers reqs (mapStep m req).2

/-- At the end of the way down are a full leaf without the key and a full parent. -/
inductive FullOnWay (st : BTreeState) (key : List UInt8) : Option (Nat × List (Nat × Nat)) → Prop
  | full {pid parent pos : Nat} {path : List (Nat × Nat)}
      (absent : btreeNodeHolds (st.2.pages pid) key st.1.keySize st.1.compare = false)
      (leaf : st.1.maxLeaf ≤ keyCount (st.2.pages pid))
      (node : st.1.maxInner ≤ keyCount (st.2.pages parent)) :
      FullOnWay st key (some (pid, (parent, pos) :: path))

/-- The insertion finds a full leaf whose parent is full. -/
def FullParent (st : BTreeState) : BTreeRequest shape → Prop
  | .insert k _ =>
    st.1.metadata.rootPage ≠ 0 ∧
      FullOnWay st k.bytes ((descend st.1 k.bytes st.1.levels st.1.metadata.rootPage []).run
        (flatStore allocator grantAll) st.2).1
  | _ => False

theorem mapStep_search_snd (m : shape.Key → Option shape.Value) (k : shape.Key) :
    (mapStep m (.search k)).2 = m := by
  rw [mapStep]
  split <;> rfl

theorem mapStep_search_of_some {m : shape.Key → Option shape.Value} {k : shape.Key}
    {v : shape.Value} (h : m k = some v) : (mapStep m (.search k)).1 = (.ok, some v.1) := by
  rw [mapStep, h]

/-- The tree holds the map, on pages taken since there were `base` in use, and its
separators are between `lo` and `hi`. -/
inductive Mirrors (base : Nat) (lo hi : Option shape.Key) (st : BTreeState)
    (m : shape.Key → Option shape.Value) : Prop
  | empty (opened : shape.Opened st.2 st.1) (root : st.1.metadata.rootPage = 0)
      (count : st.1.metadata.entryCount = 0) (used : st.2.used.length = base + 1)
      (nothing : ∀ k, m k = none)
  | tree (h : Nat) (t : shape.Nodes h) (low : h ≤ 1) (holds : shape.Holds st.2 st.1 t)
      (bound : t.Ordered h lo hi) (used : st.2.used.length = base + 1 + (t.pages h).length)
      (entries : ∀ k v, m k = some v ↔ (k, v) ∈ t.entries h)

/-! ## Room -/

section Room

variable {s : FlatStore}

theorem length_entries_leaf {t : shape.Nodes 0} (ht : shape.Stored s 0 t) :
    (t.entries 0).length ≤ shape.maxLeaf := ht.2.fits

/-- A root over leaves has no more entries than its leaves have places. -/
theorem length_entries_node {page : Nat} {row : Row shape.Key (shape.Nodes 0)}
    (ht : shape.Stored s 1 (PageTree.node page row)) :
    ((PageTree.node page row).entries 1).length ≤ (row.keys.length + 1) * shape.maxLeaf := by
  obtain ⟨-, -, hitems⟩ := Stored.node_iff.mp ht
  rw [PageTree.entries_node, ← row.length_items]
  generalize row.items = items at hitems
  induction items with
  | nil => exact Nat.zero_le _
  | cons c items ih =>
    have hfirst := length_entries_leaf (hitems c List.mem_cons_self)
    have hrest := ih fun c hc => hitems c (List.mem_cons_of_mem _ hc)
    rw [List.flatMap_cons, List.length_append, List.length_cons, Nat.succ_mul]
    omega

theorem length_pages_node (page : Nat) (row : Row shape.Key (shape.Nodes 0)) :
    ((PageTree.node page row).pages 1).length = row.keys.length + 2 := by
  have hitems := row.length_items
  show (row.items.flatMap fun c => [c.root]).length + 1 = _
  rw [← List.map_eq_flatMap, List.length_map]
  omega

/-- The number of entries is far from the width of its counter. -/
theorem entries_lt {h : Nat} {t : shape.Nodes h} (hlow : h ≤ 1) (ht : shape.Stored s h t) :
    (t.entries h).length + 1 < 2 ^ 32 := by
  have hleaf := shape.maxLeaf_lt
  have hinner := shape.maxInner_lt
  rcases h with _ | h
  · have hle := length_entries_leaf ht
    omega
  · obtain rfl : h = 0 := by omega
    obtain ⟨page, row, rfl⟩ := t.exists_node
    obtain ⟨-, hnode, -⟩ := Stored.node_iff.mp ht
    have hle := length_entries_node ht
    have hmul : (row.keys.length + 1) * shape.maxLeaf ≤ 2 ^ 12 * 2 ^ 12 :=
      Nat.mul_le_mul (by have := hnode.fits; omega) hleaf.le
    show ((PageTree.node page row).entries 1).length + 1 < 2 ^ 32
    omega

end Room

/-! ## Steps -/

section Steps

variable {base : Nat} {lo hi : Option shape.Key} {st : BTreeState} {m : shape.Key → Option shape.Value}

/-- The count of the handle is the number of keys mapped. -/
theorem Mirrors.entryCount (hm : Mirrors base lo hi st m) :
    st.1.metadata.entryCount = {k | m k ≠ none}.ncard := by
  cases hm with
  | empty opened root count used nothing =>
    rw [count, show {k | m k ≠ none} = ∅ from Set.eq_empty_of_forall_notMem fun k hk => hk (nothing k),
      Set.ncard_empty]
  | tree h t low holds bound used entries =>
    rw [holds.count, ncard_keys holds.ordered.sorted entries]

theorem not_mem_of_none {h : Nat} {t : shape.Nodes h} {k : shape.Key}
    (entries : ∀ k v, m k = some v ↔ (k, v) ∈ t.entries h) (hk : m k = none) (v : shape.Value) :
    (k, v) ∉ t.entries h := by
  intro hmem
  rw [(entries k v).mpr hmem] at hk
  exact absurd hk (by simp)

theorem mirrors_search (hm : Mirrors base lo hi st m) (k : shape.Key) :
    (treeStep allocator st (.search k)).1 = (mapStep m (.search k)).1 ∧
      Mirrors base lo hi (treeStep allocator st (.search k)).2 (mapStep m (.search k)).2 := by
  cases hm with
  | empty opened root count used nothing =>
    have hrun : (btreeSearch st.1 k.bytes).run (flatStore allocator grantAll) st.2 =
        ((.notFound, none), st.2) := by
      simp only [btreeSearch, if_pos root, Prog.run_pure]
    simp only [treeStep, mapStep, hrun, nothing k]
    exact ⟨trivial, .empty opened root count used nothing⟩
  | tree h t low holds bound used entries =>
    cases hk : m k with
    | none =>
      have hrun := holds.run_btreeSearch_of_not_mem allocator grantAll (not_mem_of_none entries hk)
      simp only [treeStep, mapStep, hrun, hk]
      exact ⟨trivial, .tree h t low holds bound used entries⟩
    | some v =>
      have hrun := holds.run_btreeSearch_of_mem allocator grantAll ((entries k v).mp hk)
      simp only [treeStep, mapStep, hrun, hk]
      exact ⟨trivial, .tree h t low holds bound used entries⟩

theorem mirrors_reopen (hm : Mirrors base lo hi st m) :
    (treeStep allocator st (.reopen : BTreeRequest shape)).1 = (mapStep m .reopen).1 ∧
      Mirrors base lo hi (treeStep allocator st (.reopen : BTreeRequest shape)).2
        (mapStep m .reopen).2 := by
  have hopened : shape.Opened st.2 st.1 := by
    cases hm with
    | empty opened => exact opened
    | tree h t low holds => exact holds.toOpened
  simp only [treeStep, mapStep, hopened.run_btreeOpen, Option.getD_some]
  exact ⟨trivial, hm⟩

theorem mirrors_delete (hm : Mirrors base lo hi st m) (k : shape.Key) :
    (treeStep allocator st (.delete k)).1 = (mapStep m (.delete k)).1 ∧
      Mirrors base lo hi (treeStep allocator st (.delete k)).2 (mapStep m (.delete k)).2 := by
  cases hm with
  | empty opened root count used nothing =>
    have hrun : (btreeDelete st.1 k.bytes).run (flatStore allocator grantAll) st.2 =
        ((.notFound, st.1), st.2) := by
      simp only [btreeDelete, if_pos root, Prog.run_pure]
    simp only [treeStep, mapStep, hrun, nothing k]
    exact ⟨trivial, .empty opened root count used nothing⟩
  | tree h t low holds bound used entries =>
    cases hk : m k with
    | none =>
      have hrun := holds.run_btreeDelete_of_not_mem allocator grantAll (not_mem_of_none entries hk)
      simp only [treeStep, mapStep, hrun, hk]
      exact ⟨trivial, .tree h t low holds bound used entries⟩
    | some v =>
      obtain ⟨s', t', hrun, hholds, hused, hpages, hbounds, hentries⟩ :=
        holds.run_btreeDelete_of_mem allocator grantAll ((entries k v).mp hk)
      simp only [treeStep, mapStep, hrun, hk]
      refine ⟨trivial, .tree h t' low hholds (hbounds lo hi bound) ?_ fun j w => ?_⟩
      · rw [hused, used, hpages.length_eq]
      · rw [hentries, ← entries]
        by_cases hj : j = k
        · simp [hj]
        · simp [hj]

/-- What an insertion that adds an entry leaves. -/
theorem mirrors_of_entries {st' : BTreeState} {h' : Nat} {t' : shape.Nodes h'} {k : shape.Key}
    {v : shape.Value} (hlow : h' ≤ 1) (hholds : shape.Holds st'.2 st'.1 t')
    (hbound : t'.Ordered h' lo hi)
    (hused : st'.2.used.length = base + 1 + (t'.pages h').length) (hk : m k = none)
    (hentries : ∀ j w, (j, w) ∈ t'.entries h' ↔ (j, w) = (k, v) ∨ m j = some w) :
    Mirrors base lo hi st' (Function.update m k (some v)) := by
  refine .tree h' t' hlow hholds hbound hused fun j w => ?_
  rw [hentries]
  by_cases hj : j = k
  · subst hj
    simp [hk, eq_comm]
  · simp [hj]

/-- A root over leaves that the insertion does not find full has room. -/
theorem room_of_calm {page : Nat} {row : Row shape.Key (shape.Nodes 0)} {k : shape.Key}
    {v : shape.Value} (hh : shape.Holds st.2 st.1 (PageTree.node page row))
    (hx : ∀ w, (k, w) ∉ (PageTree.node page row).entries 1)
    (hfull : ((row.pick k).entries 0).length = shape.maxLeaf)
    (hcalm : ¬ FullParent allocator st (.insert k v)) : row.keys.length < shape.maxInner := by
  by_contra hnot
  obtain ⟨-, hpage⟩ := hh.leafPage k
  have habsent := hh.not_holds_leafAt hx
  rw [PageTree.leafAt_node, PageTree.leafAt_zero] at hpage habsent
  obtain ⟨-, hinner, -⟩ := Stored.node_iff.mp hh.pages
  have hleaf : st.1.maxLeaf ≤ keyCount (st.2.pages (row.pick k).root) := by
    rw [hpage.count, hh.fits.maxLeaf_eq, hfull]
  have hnode : st.1.maxInner ≤ keyCount (st.2.pages page) := by
    rw [hinner.count, hh.fits.maxInner_eq]
    exact not_lt.mp hnot
  refine hcalm ⟨hh.rootPage_ne, ?_⟩
  rw [hh.run_descend allocator grantAll k]
  exact .full (by simpa using habsent) hleaf hnode

theorem mirrors_insert (hbase : base + 512 < dbMaxPages) (hm : Mirrors base lo hi st m) (k : shape.Key)
    (v : shape.Value) (hlo : AtLeast lo k) (hhi : Under hi k)
    (hcalm : ¬ FullParent allocator st (.insert k v)) :
    (treeStep allocator st (.insert k v)).1 = (mapStep m (.insert k v)).1 ∧
      Mirrors base lo hi (treeStep allocator st (.insert k v)).2 (mapStep m (.insert k v)).2 := by
  cases hm with
  | empty opened root count used nothing =>
    obtain ⟨s', tree', t', hrun, hholds, -, hused, rfl⟩ :=
      run_btreeInsert_of_empty (x := k) allocator grantAll opened root rfl (by omega) v
    simp only [treeStep, mapStep, hrun, nothing k]
    refine ⟨trivial, mirrors_of_entries (Nat.zero_le 1) hholds ?_ ?_ (nothing k) fun j w => ?_⟩
    · refine (PageTree.ordered_leaf ..).mpr ⟨fun l hl u hu => (hlo l hl).trans_lt (hhi u hu),
        List.pairwise_singleton _ _, ?_⟩
      intro e he
      obtain rfl := List.mem_singleton.mp he
      exact ⟨hlo, hhi⟩
    · rw [hused, used]
      rfl
    · rw [PageTree.entries_leaf, nothing j]
      simp
  | tree h t low holds bound used entries =>
    cases hk : m k with
    | some w =>
      have hrun := holds.run_btreeInsert_of_mem allocator grantAll ((entries k w).mp hk) v.1
      simp only [treeStep, mapStep, hrun, hk]
      exact ⟨trivial, .tree h t low holds bound used entries⟩
    | none =>
      have hx := not_mem_of_none entries hk
      have hcount := entries_lt low holds.pages
      have hleaf : ((t.leafAt k h).entries 0).length ≤ shape.maxLeaf := (holds.leafPage k).2.fits
      by_cases hroom : ((t.leafAt k h).entries 0).length < shape.maxLeaf
      · obtain ⟨s', t', hrun, hholds, hused, hpages, hbounds, hentries⟩ :=
          holds.run_btreeInsert_of_room allocator grantAll hx hroom hcount v
        simp only [treeStep, mapStep, hrun, hk]
        refine ⟨trivial, mirrors_of_entries low hholds
          (hbounds lo hi hlo hhi bound) ?_ hk fun j w => ?_⟩
        · rw [hused, used, hpages.length_eq]
        · rw [hentries, ← entries]
      · -- a full leaf: the root itself, or one under a root that has room
        have hfull : ((t.leafAt k h).entries 0).length = shape.maxLeaf := by omega
        have hinserted : ∃ (s' : FlatStore) (tree' : BTree) (t' : shape.Nodes 1),
            (btreeInsert st.1 k.bytes v.1).run (flatStore allocator grantAll) st.2 =
                ((.ok, tree'), s') ∧ shape.Inserted st.2 s' st.1 tree' t t' k v := by
          rcases h with _ | h
          · have hpages : (t.pages 0).length = 1 := rfl
            exact holds.run_btreeInsert_of_fullRoot allocator grantAll hx hfull (fun _ => rfl)
              (by omega) hcount v
          · obtain rfl : h = 0 := by omega
            obtain ⟨page, row, rfl⟩ := t.exists_node
            have hspace := room_of_calm allocator holds hx hfull hcalm
            have hpages := length_pages_node page row
            have hbound := (shape.maxInner_bounds).2
            have hfile : st.2.used.length + 1 < dbMaxPages := by
              have hused : st.2.used.length = base + 1 + ((PageTree.node page row).pages 1).length := used
              omega
            exact holds.run_btreeInsert_of_fullLeaf allocator grantAll hx hfull hspace
              (fun _ => rfl) hfile hcount v
        obtain ⟨s', tree', t', hrun, hinserted⟩ := hinserted
        simp only [treeStep, mapStep, hrun, hk]
        refine ⟨trivial, mirrors_of_entries le_rfl hinserted.holds
          (hinserted.bounds lo hi hlo hhi bound) ?_ hk fun j w => ?_⟩
        · have hpages := hinserted.pages
          show s'.used.length = _
          omega
        · rw [hinserted.entries, ← entries]

/-- **Every request but the one is answered as the map answers it**, and the tree
holds the map again. -/
theorem mirrors_step (hbase : base + 512 < dbMaxPages) (hm : Mirrors base none none st m)
    (req : BTreeRequest shape) (hcalm : ¬ FullParent allocator st req) :
    (treeStep allocator st req).1 = (mapStep m req).1 ∧
      Mirrors base none none (treeStep allocator st req).2 (mapStep m req).2 := by
  cases req with
  | insert k v => exact mirrors_insert allocator hbase hm k v (atLeast_none k) (under_none k) hcalm
  | delete k => exact mirrors_delete allocator hm k
  | search k => exact mirrors_search allocator hm k
  | reopen => exact mirrors_reopen allocator hm

end Steps

/-! ## Runs -/

theorem sizes_lt (shape : BTreeShape) :
    0 < shape.keySize ∧ shape.keySize < 2 ^ 16 ∧ shape.valueSize < 2 ^ 16 := by
  have htwo := shape.two_le_leafMaxKeys
  rw [leafMaxKeys, Nat.le_div_iff_mul_le (Nat.add_pos_right _ shape.valueSize_pos)] at htwo
  have hspace : btreeNodeSpace = 4064 := rfl
  refine ⟨?_, ?_, ?_⟩
  · cases h : shape.keyType <;> simp [keySize, h, BTreeKeyType.size]
  · show shape.keyType.size < 2 ^ 16
    omega
  · omega

/-- A tree just created. -/
theorem run_btreeCreate {s : FlatStore} (hfile : s.used.length + 1 < dbMaxPages) :
    ∃ (tree : BTree) (s' : FlatStore),
      (btreeCreate shape.keySize shape.valueSize shape.keyType).run (flatStore allocator grantAll) s =
          ((.ok, some tree), s') ∧
        shape.Opened s' tree ∧ tree.metadata.rootPage = 0 ∧ tree.metadata.entryCount = 0 ∧
          s'.used.length = s.used.length + 1 := by
  obtain ⟨hfresh, hpos, hlt⟩ := allocator.fresh s.used hfile
  obtain ⟨hkey, hkeyLt, hvalueLt⟩ := sizes_lt shape
  have hvalue := shape.valueSize_pos
  have hzero : 0 < 2 ^ 32 := by decide
  simp only [btreeCreate, if_neg (show ¬ (shape.keySize = 0 ∨ shape.valueSize = 0) by omega),
    Prog.run_bind, run_allocPage, allocate_of_granted allocator grantAll s rfl, run_writePage,
    run_markDirty, run_unpinPage, Prog.run_pure]
  refine ⟨_, _, rfl, ⟨⟨rfl, rfl, rfl, rfl⟩, ⟨List.mem_cons_self, hpos, hlt⟩, ?_, ?_⟩, rfl, rfl, rfl⟩
  · rw [pages_set_self]
    exact readAt_writeAt_same _ _ _ (BTreeMeta.length_encode _).symm
  · exact ⟨hzero, hzero, hzero, hzero, hzero, hkeyLt, hvalueLt⟩

theorem mirrors_created {s : FlatStore} (lo hi : Option shape.Key) (hfile : s.used.length + 1 < dbMaxPages) :
    ∃ (tree : BTree) (s' : FlatStore),
      (btreeCreate shape.keySize shape.valueSize shape.keyType).run (flatStore allocator grantAll) s =
          ((.ok, some tree), s') ∧
        Mirrors s.used.length lo hi (tree, s') fun _ => none := by
  obtain ⟨tree, s', hcreate, opened, root, count, used⟩ := run_btreeCreate allocator hfile
  exact ⟨tree, s', hcreate, .empty opened root count used fun _ => rfl⟩

/-- The tree and the map side by side. -/
def bothStep (st : BTreeState × (shape.Key → Option shape.Value)) (req : BTreeRequest shape) :
    BTreeState × (shape.Key → Option shape.Value) :=
  ((treeStep allocator st.1 req).2, (mapStep st.2 req).2)

/-- **A run that never inserts under a full parent is that of a finite map**: every
request is answered as the map answers it, and the count is the number of keys. -/
theorem finite_map_of_run {s : FlatStore} (hfile : s.used.length + 512 < dbMaxPages) :
    ∃ (tree : BTree) (s' : FlatStore),
      (btreeCreate shape.keySize shape.valueSize shape.keyType).run (flatStore allocator grantAll) s =
          ((.ok, some tree), s') ∧
        ∀ st : BTreeState × (shape.Key → Option shape.Value),
          Reaches (bothStep allocator) (fun st req => ¬ FullParent allocator st.1 req)
              ((tree, s'), fun _ => none) st →
            st.1.1.metadata.entryCount = {k | st.2 k ≠ none}.ncard ∧
              ∀ req : BTreeRequest shape, ¬ FullParent allocator st.1 req →
                (treeStep allocator st.1 req).1 = (mapStep st.2 req).1 := by
  obtain ⟨tree, s', hcreate, hstart⟩ := mirrors_created (s := s) allocator none none (by omega)
  refine ⟨tree, s', hcreate, fun st hreach => ?_⟩
  have hm : Mirrors s.used.length none none st.1 st.2 :=
    hreach.invariant (I := fun st => Mirrors s.used.length none none st.1 st.2) hstart
      fun st req hst hcalm => (mirrors_step allocator hfile hst req hcalm).2
  exact ⟨hm.entryCount, fun req hcalm => (mirrors_step allocator hfile hm req hcalm).1⟩

/-- A search in the ID index as it was created. -/
theorem finite_map_of_run_created : ∃ (tree : BTree) (s' : FlatStore),
    (btreeCreate 32 8 .bytes32).run (flatStore Allocator.lowest grantAll) FlatStore.empty =
        ((.ok, some tree), s') ∧
      (treeStep Allocator.lowest (tree, s')
        (.search ⟨List.replicate 32 0, rfl⟩ : BTreeRequest BTreeShape.id)).1 = (.notFound, none) := by
  obtain ⟨tree, s', hcreate, hrun⟩ :=
    @finite_map_of_run BTreeShape.id Allocator.lowest FlatStore.empty (by decide)
  exact ⟨tree, s', hcreate, (hrun _ .start).2 _ not_false⟩

end OnionRelay.Db
