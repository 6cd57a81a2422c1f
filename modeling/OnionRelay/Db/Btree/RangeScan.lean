import OnionRelay.Db.Btree.FiniteMap

/-!
# The range scan

`btree_range_scan`.  The callback is an environment of its own, beside the page store: it
is asked about one pair after the other and keeps whatever state it likes.  `offer` is what
it sees of a list of pairs; `btreeRangeScan_exact` says that a scan of a well-formed tree
is an offer of the pairs between the bounds.
-/

namespace OnionRelay.Db

open OnionRelay.Lib

/-! ## The operation -/

/-- A call of a `BTreeScanCallback`. -/
inductive ScanOp
  | call (key value : List UInt8)

def ScanSig : Sig where
  Op := ScanOp
  Resp _ := Bool

abbrev ScanM := Prog (PageSig.sum ScanSig)

/-- A callback with its user data. -/
abbrev ScanCallback (σ : Type) := List UInt8 → List UInt8 → σ → Bool × σ

def ScanCallback.handler {σ : Type} (callback : ScanCallback σ) : Handler ScanSig σ
  | .call key value, u => callback key value u

def scanCallback (key value : List UInt8) : ScanM Bool :=
  Prog.call (S := PageSig.sum ScanSig) (.inr (.call key value))

/-- The loop of `find_leftmost_leaf` over `levels` inner nodes; 0 where a page cannot be
pinned. -/
def descendLeftmost (tree : BTree) : Nat → Nat → PageM Nat
  | 0, pid => return pid
  | levels + 1, pid => do
    match ← pinPage pid with
    | none => return 0
    | some page =>
      let child := btreeNodeChildAt page 0 tree.keySize tree.maxInner
      unpinPage pid
      descendLeftmost tree levels child

/-- `find_leftmost_leaf` -/
def findLeftmostLeaf (tree : BTree) : PageM Nat :=
  if tree.metadata.rootPage = 0 then return 0
  else descendLeftmost tree tree.levels tree.metadata.rootPage

/-- The leaf in which the scan starts. -/
def firstLeaf (tree : BTree) : Option (List UInt8) → PageM Nat
  | some key => findLeaf tree key
  | none => findLeftmostLeaf tree

/-- The position in its first leaf. -/
def scanStart (tree : BTree) (page : PageData) : Option (List UInt8) → Nat
  | some key => btreeNodeSearchKey page key tree.keySize tree.compare
  | none => 0

/-- The key is above the upper bound. -/
def exceeds (tree : BTree) (key : List UInt8) : Option (List UInt8) → Bool
  | some maxKey => decide (0 < tree.compare key maxKey)
  | none => false

/-- The loop over the entries of a leaf from `i` on, `left` of them; whether the scan is
done. -/
def scanLeafEntries (tree : BTree) (page : PageData) (maxKey : Option (List UInt8)) :
    Nat → Nat → ScanM Bool
  | 0, _ => return false
  | left + 1, i => do
    let key := btreeNodeKeyAt page i tree.keySize
    if exceeds tree key maxKey then return true
    else
      let value := btreeNodeValueAt page i tree.keySize tree.valueSize tree.maxLeaf
      if ← scanCallback key value then scanLeafEntries tree page maxKey left (i + 1)
      else return true

/-- The loop over the leaves; a file has at most `dbMaxPages` pages. -/
def scanLeaves (tree : BTree) (maxKey : Option (List UInt8)) :
    Nat → Nat → Option (List UInt8) → ScanM Unit
  | 0, _, _ => return ()
  | fuel + 1, leafPid, minKey =>
    if leafPid = 0 then return ()
    else do
      match ← (pinPage leafPid).inl with
      | none => return ()
      | some page =>
        let start := scanStart tree page minKey
        let done ← scanLeafEntries tree page maxKey (keyCount page - start) start
        let next := rightSibling page
        (unpinPage leafPid).inl
        if done then return ()
        else scanLeaves tree maxKey fuel next none

/-- `btree_range_scan` -/
def btreeRangeScan (tree : BTree) (minKey maxKey : Option (List UInt8)) : ScanM NostrDBError :=
  if tree.metadata.rootPage = 0 then return .ok
  else do
    let leafPid ← (firstLeaf tree minKey).inl
    scanLeaves tree maxKey dbMaxPages leafPid minKey
    return .ok

/-! ## What a callback sees -/

section Offer

variable {σ : Type} (callback : ScanCallback σ)

/-- The pairs are given to the callback, one after the other, until it answers `false`;
whether it never did, and its state. -/
def offer : List (List UInt8 × List UInt8) → σ → Bool × σ
  | [], u => (true, u)
  | (key, value) :: es, u =>
    if (callback key value u).1 then offer es (callback key value u).2
    else (false, (callback key value u).2)

theorem offer_append (es es' : List (List UInt8 × List UInt8)) (u : σ) :
    offer callback (es ++ es') u =
      if (offer callback es u).1 then offer callback es' (offer callback es u).2
      else offer callback es u := by
  induction es generalizing u with
  | nil => rfl
  | cons e es ih =>
    obtain ⟨key, value⟩ := e
    rw [List.cons_append, offer, offer]
    split
    · exact ih _
    · rfl

/-- Pairs up to a bound, in two parts: the second is reached if the first is within the bound
and the callback went through it. -/
theorem offer_takeWhile_append {E : Type} (p : E → Bool) (f : E → List UInt8 × List UInt8) (es es' : List E)
    (u : σ) : offer callback (((es ++ es').takeWhile p).map f) u =
      if (offer callback ((es.takeWhile p).map f) u).1 && es.all p then
        offer callback ((es'.takeWhile p).map f) (offer callback ((es.takeWhile p).map f) u).2
      else offer callback ((es.takeWhile p).map f) u := by
  cases hall : es.all p with
  | true =>
    have hwhole : es.takeWhile p = es := List.takeWhile_eq_self_iff.mpr (List.all_eq_true.mp hall)
    rw [List.takeWhile_append, hwhole, if_pos rfl, List.map_append, offer_append, Bool.and_true]
  | false =>
    have hpart : (es.takeWhile p).length ≠ es.length := by
      intro hlength
      have hwhole := (List.takeWhile_prefix p).eq_of_length hlength
      rw [List.all_eq_true.mpr (List.takeWhile_eq_self_iff.mp hwhole)] at hall
      cases hall
    rw [List.takeWhile_append, if_neg hpart, Bool.and_false, if_neg (by decide)]

end Offer

namespace BTreeShape

variable {shape : BTreeShape}

/-- The pair as the callback gets it. -/
def pairBytes (e : shape.Key × shape.Value) : List UInt8 × List UInt8 := (e.1.bytes, e.2.1)

/-- Not above the upper bound. -/
def UpTo (maxKey : Option shape.Key) (e : shape.Key × shape.Value) : Prop := ∀ k ∈ maxKey, e.1 ≤ k

/-- Not below the lower bound. -/
def From (minKey : Option shape.Key) (e : shape.Key × shape.Value) : Prop := ∀ k ∈ minKey, k ≤ e.1

instance (maxKey : Option shape.Key) (e : shape.Key × shape.Value) : Decidable (UpTo maxKey e) :=
  inferInstanceAs (Decidable (∀ k ∈ maxKey, e.1 ≤ k))

instance (minKey : Option shape.Key) (e : shape.Key × shape.Value) : Decidable (From minKey e) :=
  inferInstanceAs (Decidable (∀ k ∈ minKey, k ≤ e.1))

theorem takeWhile_upTo {maxKey : Option shape.Key} {es : shape.Entries} (hsorted : Sorted es) :
    es.takeWhile (fun e => decide (UpTo maxKey e)) = es.filter fun e => decide (UpTo maxKey e) := by
  cases maxKey with
  | none => simp [UpTo]
  | some k => simpa [UpTo] using takeWhile_le hsorted

/-- The entries of a leaf from the start of the scan on. -/
def startIn (minKey : Option shape.Key) (es : shape.Entries) : Nat :=
  minKey.elim 0 fun k => lowerBound k (es.map Prod.fst)

theorem drop_startIn {minKey : Option shape.Key} {es : shape.Entries} (hsorted : Sorted es) :
    es.drop (startIn minKey es) = es.filter fun e => decide (From minKey e) := by
  cases minKey with
  | none => simp [startIn, From]
  | some k => simpa [startIn, From] using drop_lowerBound hsorted

/-- **Well-formed trees** with their entries: the empty one, or one on pages whose leaves are
linked from left to right. -/
inductive WellFormed (s : FlatStore) (tree : BTree) : shape.Entries → Prop
  | empty (opened : shape.Opened s tree) (root : tree.metadata.rootPage = 0) : WellFormed s tree []
  | tree {h : Nat} (t : shape.Nodes h) (holds : shape.Holds s tree t)
      (linked : PageTree.Linked 0 (t.leaves h)) : WellFormed s tree (t.entries h)

theorem WellFormed.sorted {s : FlatStore} {tree : BTree} {es : shape.Entries}
    (h : WellFormed s tree es) : Sorted es := by
  cases h with
  | empty => exact List.Pairwise.nil
  | tree t holds => exact holds.ordered.sorted

end BTreeShape

open BTreeShape

section Run

variable {shape : BTreeShape} {σ : Type} {s : FlatStore} {tree : BTree} (allocator : Allocator)
  (grants : Nat → Bool) (callback : ScanCallback σ)

@[simp] theorem run_scanCallback (key value : List UInt8) (st : FlatStore × σ) :
    (scanCallback key value).run ((flatStore allocator grants).beside callback.handler) st =
      ((callback key value st.2).1, st.1, (callback key value st.2).2) := (rfl)

theorem exceeds_iff (htree : shape.Fits tree) (e : shape.Key × shape.Value) (maxKey : Option shape.Key) :
    exceeds tree e.1.bytes (maxKey.map Key.bytes) = false ↔ UpTo maxKey e := by
  cases maxKey with
  | none => simp [exceeds, UpTo]
  | some k =>
    have hlt := Key.compare_lt_iff e.1 k
    have heq := Key.compare_eq_iff e.1 k
    rw [Option.map_some, exceeds, htree.compare, decide_eq_false_iff_not, UpTo]
    simp only [Option.mem_def, Option.some.injEq, forall_eq', le_iff_lt_or_eq, ← hlt, ← heq]
    omega

/-- **The entries of a leaf.** -/
theorem run_scanLeafEntries (htree : shape.Fits tree) {page : PageData} {es : shape.Entries} {next : Nat}
    (hpage : LeafPage shape page es next) (maxKey : Option shape.Key) :
    ∀ {left i : Nat} (u : σ), i + left = es.length →
      (scanLeafEntries tree page (maxKey.map Key.bytes) left i).run
          ((flatStore allocator grants).beside callback.handler) (s, u) =
        (!((offer callback (((es.drop i).takeWhile fun e => decide (UpTo maxKey e)).map pairBytes) u).1 &&
            (es.drop i).all fun e => decide (UpTo maxKey e)),
          s, (offer callback (((es.drop i).takeWhile fun e => decide (UpTo maxKey e)).map pairBytes) u).2) := by
  intro left
  induction left with
  | zero =>
    intro i u hi
    rw [List.drop_of_length_le (by omega)]
    rfl
  | succ left ih =>
    intro i u hi
    have hlt : i < es.length := by omega
    have hkey : btreeNodeKeyAt page i tree.keySize = es[i].1.bytes := by
      rw [htree.keySize_eq, hpage.keyAt hlt]
    have hvalue : btreeNodeValueAt page i tree.keySize tree.valueSize tree.maxLeaf = es[i].2.1 := by
      rw [htree.keySize_eq, htree.valueSize_eq, htree.maxLeaf_eq, hpage.valueAt hlt]
    rw [List.drop_eq_getElem_cons hlt, scanLeafEntries]
    simp only [hkey, hvalue, Prog.run_ite, Prog.run_bind, run_scanCallback]
    by_cases hwithin : UpTo maxKey es[i]
    · rw [(exceeds_iff htree es[i] maxKey).mpr hwithin, if_neg (by decide),
        List.takeWhile_cons_of_pos (by simpa using hwithin), List.map_cons, pairBytes, offer,
        List.all_cons, decide_eq_true hwithin, Bool.true_and]
      split
      · exact ih _ (by omega)
      · rfl
    · have hexceeds : exceeds tree es[i].1.bytes (maxKey.map Key.bytes) = true := by
        rw [← Bool.not_eq_false, exceeds_iff htree]
        exact hwithin
      rw [hexceeds, if_pos rfl, List.takeWhile_cons_of_neg (by simpa using hwithin), List.all_cons,
        decide_eq_false hwithin, Bool.false_and, Bool.and_false]
      rfl

theorem scanStart_eq (htree : shape.Fits tree) {page : PageData} {es : shape.Entries} {next : Nat}
    (hpage : LeafPage shape page es next) (hsorted : Sorted es) (minKey : Option shape.Key) :
    scanStart tree page (minKey.map Key.bytes) = startIn minKey es := by
  cases minKey with
  | none => rfl
  | some k =>
    rw [Option.map_some, scanStart, htree.keySize_eq, htree.compare, hpage.searchKey hsorted]
    rfl

/-- **One leaf.**  The scan goes on with the next one if nothing has ended it. -/
theorem run_scanLeaves_leaf (htree : shape.Fits tree) {l : shape.Nodes 0} (hl : shape.Stored s 0 l)
    (hsorted : Sorted (l.entries 0)) (minKey maxKey : Option shape.Key) (fuel : Nat) (u : σ) :
    (scanLeaves tree (maxKey.map Key.bytes) (fuel + 1) l.root (minKey.map Key.bytes)).run
        ((flatStore allocator grants).beside callback.handler) (s, u) =
      let rest := (l.entries 0).drop (startIn minKey (l.entries 0))
      let seen := offer callback ((rest.takeWhile fun e => decide (UpTo maxKey e)).map pairBytes) u
      if seen.1 && rest.all fun e => decide (UpTo maxKey e) then
        (scanLeaves tree (maxKey.map Key.bytes) fuel l.next none).run
          ((flatStore allocator grants).beside callback.handler) (s, seen.2)
      else ((), s, seen.2) := by
  obtain ⟨page, es, next, rfl⟩ := l.exists_leaf
  obtain ⟨hlive, hpage⟩ := Stored.leaf_iff.mp hl
  have hfetch : s.fetch page = some (s.pages page) := hlive.fetch
  have hstart := scanStart_eq htree hpage hsorted minKey
  have hle : startIn minKey es ≤ es.length := by
    cases minKey with
    | none => exact Nat.zero_le _
    | some k =>
      have hbound := lowerBound_le k (es.map Prod.fst)
      rwa [List.length_map] at hbound
  have hentries := @run_scanLeafEntries shape σ s tree allocator grants callback htree _ _ _ hpage maxKey _ _ u
    (Nat.add_sub_cancel' hle)
  rw [PageTree.root_leaf, PageTree.next_leaf, PageTree.entries_leaf, scanLeaves, if_neg hlive.pos.ne']
  simp only [Prog.run_bind, Prog.run_inl_beside, run_pinPage, run_unpinPage, hfetch, hstart, hpage.count,
    hpage.next, hentries, Prog.run_ite]
  simp only [Bool.not_eq_true', ← Bool.not_eq_true, ite_not]
  rfl

/-- The pairs that a scan comes to from a place of a leaf on, the upper bound left out. -/
def scanned (minKey : Option shape.Key) (l : shape.Nodes 0) (ls : List (shape.Nodes 0)) : shape.Entries :=
  (l.entries 0).drop (startIn minKey (l.entries 0)) ++ ls.flatMap (PageTree.entries 0)

/-- **The leaves from one on.** -/
theorem run_scanLeaves (htree : shape.Fits tree) (maxKey : Option shape.Key) :
    ∀ {ls : List (shape.Nodes 0)} {l : shape.Nodes 0} {fuel : Nat} (minKey : Option shape.Key) (u : σ),
      (∀ l' ∈ l :: ls, shape.Stored s 0 l' ∧ Sorted (l'.entries 0)) → PageTree.Linked 0 (l :: ls) →
        ls.length < fuel →
          (scanLeaves tree (maxKey.map Key.bytes) fuel l.root (minKey.map Key.bytes)).run
              ((flatStore allocator grants).beside callback.handler) (s, u) =
            ((), s, (offer callback
              (((scanned minKey l ls).takeWhile fun e => decide (UpTo maxKey e)).map pairBytes) u).2) := by
  intro ls
  induction ls with
  | nil =>
    intro l fuel minKey u hleaves hlinked hfuel
    obtain ⟨fuel, rfl⟩ := Nat.exists_eq_add_one_of_ne_zero (Nat.ne_zero_of_lt hfuel)
    obtain ⟨hl, hsorted⟩ := hleaves l List.mem_cons_self
    have hnext : l.next = 0 := hlinked.1
    rw [run_scanLeaves_leaf allocator grants callback htree hl hsorted, scanned, List.flatMap_nil,
      List.append_nil, hnext]
    dsimp only
    split
    · cases fuel <;> rfl
    · rfl
  | cons l' ls ih =>
    intro l fuel minKey u hleaves hlinked hfuel
    obtain ⟨fuel, rfl⟩ := Nat.exists_eq_add_one_of_ne_zero (Nat.ne_zero_of_lt hfuel)
    obtain ⟨hl, hsorted⟩ := hleaves l List.mem_cons_self
    obtain ⟨hnext, hrest⟩ := hlinked
    rw [run_scanLeaves_leaf allocator grants callback htree hl hsorted, scanned, offer_takeWhile_append,
      show l.next = l'.root from hnext]
    dsimp only
    split
    · exact ih none _ (fun l'' hmem => hleaves l'' (List.mem_cons_of_mem l hmem)) hrest
        (Nat.lt_of_succ_lt_succ hfuel)
    · rfl

/-- The way down on the left side. -/
theorem run_descendLeftmost (htree : shape.Fits tree) : ∀ {h : Nat} {t : shape.Nodes h} {l : shape.Nodes 0}
    {ls : List (shape.Nodes 0)}, shape.Stored s h t → t.leaves h = l :: ls →
      (descendLeftmost tree h t.root).run (flatStore allocator grants) s = (l.root, s) := by
  intro h
  induction h with
  | zero =>
    intro t l ls _ hleaves
    obtain ⟨rfl, -⟩ := List.cons.inj hleaves
    rfl
  | succ h ih =>
    intro t l ls ht hleaves
    obtain ⟨page, row, rfl⟩ := t.exists_node
    obtain ⟨hlive, hinner, hitems⟩ := Stored.node_iff.mp ht
    obtain ⟨c, items, hrow⟩ := List.exists_cons_of_ne_nil row.items_ne_nil
    have hc : c ∈ row.items := by
      rw [hrow]
      exact List.mem_cons_self
    obtain ⟨l', ls', hfirst⟩ := List.exists_cons_of_ne_nil (PageTree.leaves_ne_nil c)
    rw [PageTree.leaves_node, hrow, List.flatMap_cons, hfirst, List.cons_append] at hleaves
    obtain ⟨rfl, -⟩ := List.cons.inj hleaves
    have hchild : btreeNodeChildAt (s.pages page) 0 tree.keySize tree.maxInner = c.root := by
      rw [htree.keySize_eq, htree.maxInner_eq]
      exact hinner.childAt (by rw [hrow]; rfl) (hitems c hc).live_root.lt_word
    have hfetch : s.fetch page = some (s.pages page) := hlive.fetch
    simp only [descendLeftmost, PageTree.root_node, Prog.run_bind, run_pinPage, hfetch, run_unpinPage, hchild]
    exact ih (hitems c hc) hfirst

/-- Every leaf of a stored tree is stored, and the leaves are not more than the pages of a file. -/
theorem BTreeShape.Holds.leaves {h : Nat} {t : shape.Nodes h} (hh : shape.Holds s tree t) :
    (∀ l ∈ t.leaves h, shape.Stored s 0 l ∧ Sorted (l.entries 0)) ∧ (t.leaves h).length ≤ dbMaxPages := by
  have hstored : ∀ {h : Nat} {t : shape.Nodes h}, shape.Stored s h t →
      ∀ l ∈ t.leaves h, shape.Stored s 0 l := by
    intro h
    induction h with
    | zero =>
      intro t ht l hl
      obtain rfl := List.mem_singleton.mp hl
      exact ht
    | succ h ih =>
      intro t ht l hl
      obtain ⟨page, row, rfl⟩ := t.exists_node
      obtain ⟨c, hc, hl⟩ := List.mem_flatMap.mp hl
      exact ih ((Stored.node_iff.mp ht).2.2 c hc) l hl
  have hsorted := hh.ordered.sorted
  rw [← PageTree.flatMap_leaves, Sorted, List.pairwise_flatMap] at hsorted
  refine ⟨fun l hl => ⟨hstored hh.pages l hl, hsorted.1 l hl⟩, ?_⟩
  have hnodup := hh.nodup.sublist (PageTree.map_root_leaves_sublist t)
  have hrange : (t.leaves h).map PageTree.root ⊆ List.range dbMaxPages := by
    intro pid hpid
    obtain ⟨l, hl, rfl⟩ := List.mem_map.mp hpid
    exact List.mem_range.mpr (hstored hh.pages l hl).live_root.lt
  have hlength := (List.subperm_of_subset hnodup hrange).length_le
  rwa [List.length_map, List.length_range] at hlength

/-- The pairs between the bounds. -/
def inRange (minKey maxKey : Option shape.Key) (es : shape.Entries) : shape.Entries :=
  es.filter fun e => decide (From minKey e ∧ UpTo maxKey e)

/-- What a scan from a leaf on comes to, up to the upper bound. -/
theorem takeWhile_scanned {minKey maxKey : Option shape.Key} {l : shape.Nodes 0} {pre ls : List (shape.Nodes 0)}
    {es : shape.Entries} (hes : es = (pre ++ l :: ls).flatMap (PageTree.entries 0)) (hsorted : Sorted es)
    (hpre : ∀ e ∈ pre.flatMap (PageTree.entries 0), ¬ From minKey e)
    (hbehind : ∀ e ∈ ls.flatMap (PageTree.entries 0), From minKey e) :
    ((scanned minKey l ls).takeWhile fun e => decide (UpTo maxKey e)) = inRange minKey maxKey es := by
  rw [List.flatMap_append, List.flatMap_cons] at hes
  have hscanned : scanned minKey l ls = es.filter fun e => decide (From minKey e) := by
    have hleaf : Sorted (l.entries 0) := by
      rw [hes] at hsorted
      exact (sorted_append.mp (sorted_append.mp hsorted).2.1).1
    have hnone : (pre.flatMap (PageTree.entries 0)).filter (fun e => decide (From minKey e)) = [] :=
      List.filter_eq_nil_iff.mpr fun e he => by simpa using hpre e he
    have hall : (ls.flatMap (PageTree.entries 0)).filter (fun e => decide (From minKey e)) =
        ls.flatMap (PageTree.entries 0) :=
      List.filter_eq_self.mpr fun e he => decide_eq_true (hbehind e he)
    rw [hes, scanned, drop_startIn hleaf, List.filter_append, List.filter_append, hnone, hall,
      List.nil_append]
  rw [takeWhile_upTo (by rw [hscanned]; exact hsorted.sublist List.filter_sublist), hscanned, inRange,
    List.filter_filter]
  simp only [Bool.decide_and, Bool.and_comm]

/-- **A range scan is exact.**  The callback is called with the pairs between the bounds, in
ascending order, up to the first for which it returns `false`. -/
theorem btreeRangeScan_exact {es : shape.Entries} (hwf : WellFormed s tree es)
    (minKey maxKey : Option shape.Key) (u : σ) :
    Sorted (inRange minKey maxKey es) ∧
      (btreeRangeScan tree (minKey.map Key.bytes) (maxKey.map Key.bytes)).run
          ((flatStore allocator grants).beside callback.handler) (s, u) =
        (.ok, s, (offer callback ((inRange minKey maxKey es).map pairBytes) u).2) := by
  refine ⟨hwf.sorted.sublist List.filter_sublist, ?_⟩
  cases hwf with
  | empty opened root =>
    rw [btreeRangeScan, if_pos root]
    rfl
  | @tree h t holds linked =>
    obtain ⟨hleaves, hfew⟩ := holds.leaves
    rw [btreeRangeScan, if_neg holds.rootPage_ne]
    cases minKey with
    | none =>
      obtain ⟨l, ls, hl⟩ := List.exists_cons_of_ne_nil (PageTree.leaves_ne_nil t)
      have hfirst : (firstLeaf tree none).run (flatStore allocator grants) s = (l.root, s) := by
        rw [firstLeaf, findLeftmostLeaf, if_neg holds.rootPage_ne, holds.levels_eq, holds.rootPage]
        exact run_descendLeftmost allocator grants holds.fits holds.pages hl
      rw [hl] at hleaves hfew linked
      have hscan := run_scanLeaves allocator grants callback holds.fits maxKey none u hleaves linked
        (Nat.lt_of_succ_le hfew)
      rw [@takeWhile_scanned _ _ _ _ [] _ _ (by rw [List.nil_append, ← hl, PageTree.flatMap_leaves])
        holds.ordered.sorted (by simp) (by simp [From])] at hscan
      simp only [Prog.run_bind, Prog.run_inl_beside, Option.map_none, hfirst]
      rw [← Option.map_none, hscan]
      rfl
    | some k =>
      obtain ⟨pre, post, hsplit, hpre, hpost⟩ := PageTree.exists_leaves_leafAt k holds.ordered
      have hfirst : (firstLeaf tree (some k.bytes)).run (flatStore allocator grants) s =
          ((t.leafAt k h).root, s) := by
        simp only [firstLeaf, findLeaf, if_neg holds.rootPage_ne, Prog.run_bind, holds.run_descend,
          Prog.run_pure]
      have hlength : post.length < dbMaxPages := by
        rw [hsplit, List.length_append, List.length_cons] at hfew
        omega
      rw [hsplit] at hleaves linked
      have hscan := run_scanLeaves allocator grants callback holds.fits maxKey (some k) u
        (fun l hl => hleaves l (List.mem_append_right pre hl)) linked.behind hlength
      rw [@takeWhile_scanned _ _ _ _ pre _ _ (by rw [← hsplit, PageTree.flatMap_leaves])
        holds.ordered.sorted (fun e he hfrom => absurd (hpre e he) (not_lt.mpr (hfrom k rfl)))
        (fun e he k' hk' => by
          obtain rfl := Option.mem_some_iff.mp hk'
          exact (hpost e he).le)] at hscan
      simp only [Prog.run_bind, Prog.run_inl_beside, Option.map_some, hfirst]
      rw [← Option.map_some, hscan]
      rfl

end Run

/-- A callback that notes the pairs and asks for more. -/
def noteAll : ScanCallback (List (List UInt8 × List UInt8)) := fun key value log =>
  (true, log ++ [(key, value)])

def zeroId : BTreeShape.id.Key := ⟨List.replicate 32 0, rfl⟩

def zeroRecord : BTreeShape.id.Value := ⟨List.replicate 8 0, rfl⟩

/-- The ID index with one entry, scanned from its key on. -/
theorem btreeRangeScan_exact_one : ∃ (s₀ s : FlatStore) (tree₀ tree : BTree),
    (btreeCreate 32 8 .bytes32).run (flatStore Allocator.lowest grantAll) FlatStore.empty =
        ((.ok, some tree₀), s₀) ∧
      (btreeInsert tree₀ zeroId.bytes zeroRecord.1).run (flatStore Allocator.lowest grantAll) s₀ =
          ((.ok, tree), s) ∧
        (btreeRangeScan tree (some zeroId.bytes) none).run
            ((flatStore Allocator.lowest grantAll).beside noteAll.handler) (s, []) =
          (.ok, s, [(zeroId.bytes, zeroRecord.1)]) := by
  have hfile : FlatStore.empty.used.length + 2 < dbMaxPages := by decide
  obtain ⟨tree₀, s₀, hcreate, opened, root, -, hused⟩ :=
    @run_btreeCreate BTreeShape.id Allocator.lowest FlatStore.empty (Nat.lt_of_succ_lt hfile)
  obtain ⟨s, tree, t, hinsert, holds, -, -, rfl⟩ :=
    run_btreeInsert_of_empty Allocator.lowest grantAll opened root rfl (by omega) zeroRecord
  refine ⟨s₀, s, tree₀, tree, hcreate, hinsert, ?_⟩
  have hscan := (btreeRangeScan_exact Allocator.lowest grantAll noteAll (.tree _ holds ⟨rfl, trivial⟩)
    (some zeroId) none []).2
  rw [PageTree.entries_leaf, inRange, List.filter_cons_of_pos (by simp [From, UpTo])] at hscan
  exact hscan

end OnionRelay.Db
