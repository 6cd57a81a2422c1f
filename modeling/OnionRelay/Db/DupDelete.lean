import OnionRelay.Db.DupIndex

/-!
# A deletion from a duplicate index

`run_deleteDupLoop` finds the first page with the id.  What happens to a page that
becomes empty depends on where it stands: the only page takes its key with it, after
the first the key gets the next page, and any other is passed over by the page in
front of it (`run_removeFound`).
-/

namespace OnionRelay.Db

open OnionRelay.Lib BTreeShape

/-- The page in front of what follows the chain. -/
def Chain.last (chain : Chain) : Nat := chain.pids.getLastD 0

@[simp] theorem Chain.last_concat (chain : Chain) (p : Nat × List RecordId) :
    Chain.last (chain ++ [p]) = p.1 := by
  rw [Chain.last, Chain.pids_append]
  exact List.getLastD_concat

/-- **The loop of a deletion** goes on to the first page that has the id. -/
theorem run_deleteDupLoop (allocator : Allocator) (tree : BTree) (key : List UInt8) (rid : RecordId)
    {s : FlatStore} {head : Nat} : ∀ {suf pre : Chain} {fuel : Nat},
      ChainHolds s head (pre ++ suf) → suf.length ≤ fuel →
        (rid ∉ (Chain.lists suf).flatten ∧
          (deleteDupLoop tree key rid head fuel (Chain.last pre) (Chain.head suf)).run
            (dupStore allocator) s = ((.notFound, tree), s)) ∨
        ∃ (front post : Chain) (pid : Nat) (rids : List RecordId) (i : Nat),
          suf = front ++ (pid, rids) :: post ∧ rid ∉ (Chain.lists front).flatten ∧
            rids.idxOf? rid = some i ∧
              (deleteDupLoop tree key rid head fuel (Chain.last pre) (Chain.head suf)).run
                (dupStore allocator) s =
                  (removeFound tree key head (Chain.last (pre ++ front)) pid (s.pages pid) i).run
                    (dupStore allocator) s := by
  intro suf
  induction suf with
  | nil =>
    intro pre fuel _ _
    refine .inl ⟨List.not_mem_nil, ?_⟩
    cases fuel <;> rfl
  | cons p post ih =>
    intro pre fuel h hfuel
    obtain ⟨pid, rids⟩ := p
    obtain ⟨fuel, rfl⟩ : ∃ f, fuel = f + 1 := ⟨fuel - 1, by rw [List.length_cons] at hfuel; omega⟩
    obtain ⟨hlive, hpage, -⟩ := h.at_mid
    have hfetch : s.fetch pid = some (s.pages pid) := hlive.fetch
    have hnext : nextPage (s.pages pid) = Chain.head post := hpage.next
    cases hi : rids.idxOf? rid with
    | some i =>
      refine .inr ⟨[], post, pid, rids, i, rfl, List.not_mem_nil, hi, ?_⟩
      rw [Chain.head_cons, deleteDupLoop, if_neg hlive.pos.ne', List.append_nil]
      simp only [Prog.run_bind, run_onPages, run_pinPage, hfetch, hpage.pageEntries_eq, hi]
    | none =>
      have hnot : rid ∉ rids := by simpa using hi
      have hstep : (deleteDupLoop tree key rid head (fuel + 1) (Chain.last pre) pid).run
          (dupStore allocator) s = (deleteDupLoop tree key rid head fuel
            (Chain.last (pre ++ [(pid, rids)])) (Chain.head post)).run (dupStore allocator) s := by
        rw [deleteDupLoop, if_neg hlive.pos.ne', Chain.last_concat]
        simp only [Prog.run_bind, run_onPages, run_pinPage, hfetch, hpage.pageEntries_eq, hi,
          run_unpinPage, hnext]
      rw [List.append_cons] at h
      rw [Chain.head_cons, hstep]
      rcases ih h (show post.length ≤ fuel by rw [List.length_cons] at hfuel; omega) with
        ⟨hnone, hrun⟩ | ⟨front, rest, q, rids', i, rfl, hnone, hfound, hrun⟩
      · refine .inl ⟨?_, hrun⟩
        rw [Chain.lists_cons, List.flatten_cons, List.mem_append, not_or]
        exact ⟨hnot, hnone⟩
      · refine .inr ⟨(pid, rids) :: front, rest, q, rids', i, rfl, ?_, hfound, ?_⟩
        · rw [Chain.lists_cons, List.flatten_cons, List.mem_append, not_or]
          exact ⟨hnot, hnone⟩
        · rw [hrun, ← List.append_cons]

/-! ## The chain of a key -/

/-- A tree whose values are page ids. -/
structure DupShape extends BTreeShape where
  valueSize_eq : valueSize = 4

namespace DupShape

/-- The kind index. -/
def kind : DupShape := ⟨BTreeShape.kind, rfl⟩

variable (dup : DupShape)

/-- The value of a key whose chain starts at the page. -/
def value (pid : Nat) : dup.Value := ⟨toLE 4 pid, by rw [length_toLE, dup.valueSize_eq]⟩

/-- What the tree has for the key of a chain. -/
def entry (chain : Chain) : Option dup.Value := chain.pids.head?.map dup.value

@[simp] theorem entry_nil : dup.entry [] = none := rfl

@[simp] theorem entry_cons (p : Nat × List RecordId) (chain : Chain) :
    dup.entry (p :: chain) = some (dup.value p.1) := rfl

theorem entry_congr {a b : Chain} (h : a.pids = b.pids) : dup.entry a = dup.entry b := by
  rw [entry, entry, h]

end DupShape

variable {dup : DupShape}

/-- The store after a page was changed and given back. -/
theorem pages_set_release {s : FlatStore} {pid other : Nat} (page : PageData) (hne : other ≠ pid) :
    ((s.set pid page).release pid).pages other = s.pages other := pages_set_of_ne _ _ hne

theorem mem_used_release {s : FlatStore} {pid other : Nat} (hmem : other ∈ s.used) (hne : other ≠ pid) :
    other ∈ (s.release pid).used := List.mem_filter.mpr ⟨hmem, by simpa using hne⟩

/-- The tree has the first page of the chain under the key, and none of its pages. -/
structure KeyChain (dup : DupShape) (st : BTreeState) (m : dup.Key → Option dup.Value)
    (pages : List Nat) (k : dup.Key) (chain : Chain) : Prop where
  holds : ChainHolds st.2 (Chain.head chain) chain
  tree : TreeHolds st m pages
  entry : m k = dup.entry chain
  apart : ∀ pid ∈ chain.pids, pid ∉ pages

namespace KeyChain

variable {st : BTreeState} {m : dup.Key → Option dup.Value} {pages : List Nat} {k : dup.Key}
  {chain front post : Chain} {pid i : Nat} {rid : RecordId} {rids : List RecordId}

/-- The tree after a page of the chain has changed or is gone. -/
theorem tree_of_frame (hc : KeyChain dup st m pages k chain) {s' : FlatStore}
    (hpages : ∀ other ∈ st.2.used, other ∉ chain.pids → s'.pages other = st.2.pages other)
    (hused : ∀ other ∈ st.2.used, other ∉ chain.pids → other ∈ s'.used) :
    TreeHolds (st.1, s') m pages := by
  refine hc.tree.transfer fun other hother => ?_
  have hlive := hc.tree.live other hother
  have hnot : other ∉ chain.pids := fun hmem => hc.apart other hmem hother
  exact ⟨hpages other hlive.mem hnot, hused other hlive.mem hnot, hlive.pos, hlive.lt⟩

/-- The page has other ids on it still. -/
theorem run_removeFound_of_rest (hc : KeyChain dup st m pages k (front ++ (pid, rids) :: post))
    (allocator : Allocator) (hi : i < rids.length) (hrest : swapRemove rids i ≠ []) :
    ∃ st' : BTreeState, (removeFound st.1 k.bytes (Chain.head (front ++ (pid, rids) :: post))
        (Chain.last front) pid (st.2.pages pid) i).run (dupStore allocator) st.2 =
          ((.ok, st'.1), st'.2) ∧
      KeyChain dup st' m pages k (front ++ (pid, swapRemove rids i) :: post) ∧
        Within st.2 st'.2 pages (front ++ (pid, rids) :: post)
          (front ++ (pid, swapRemove rids i) :: post) := by
  obtain ⟨-, hpage, -⟩ := hc.holds.at_mid
  have hremoved := hpage.remove hi
  have hcount : entryCount (removeEntry (st.2.pages pid) i) ≠ 0 := by
    rw [hremoved.count]
    exact fun hlen => hrest (List.length_eq_zero_iff.mp hlen)
  have hpids : Chain.pids (front ++ (pid, swapRemove rids i) :: post) =
      Chain.pids (front ++ (pid, rids) :: post) := by simp
  have hhead : Chain.head (front ++ (pid, swapRemove rids i) :: post) =
      Chain.head (front ++ (pid, rids) :: post) := by rw [Chain.head, hpids, Chain.head]
  have hframe : ∀ other ∈ st.2.used, other ∉ Chain.pids (front ++ (pid, rids) :: post) →
      (st.2.set pid (removeEntry (st.2.pages pid) i)).pages other = st.2.pages other := by
    intro other _ hother
    refine pages_set_of_ne _ _ fun heq => hother ?_
    simp [heq]
  refine ⟨(st.1, st.2.set pid (removeEntry (st.2.pages pid) i)), ?_, ⟨?_, ?_, ?_, ?_⟩, ?_⟩
  · rw [removeFound]
    simp only [Prog.run_bind, run_onPages, run_writePage, run_markDirty, if_neg hcount, run_unpinPage,
      Prog.run_pure]
  · rw [hhead]
    exact hc.holds.update hremoved hrest
  · exact hc.tree_of_frame hframe fun _ hmem _ => hmem
  · rw [hc.entry, dup.entry_congr hpids]
  · rw [hpids]
    exact hc.apart
  · refine ⟨fun _ hmem _ => hmem, fun other hother => .inl ?_, fun other hmem hother _ =>
      hframe other hmem hother⟩
    rwa [← hpids]

/-- The page is empty now: what is left to do is up to `dropPage`. -/
theorem run_removeFound_of_empty (hc : KeyChain dup st m pages k (front ++ (pid, rids) :: post))
    (allocator : Allocator) (hi : i < rids.length) (hempty : swapRemove rids i = []) :
    (removeFound st.1 k.bytes (Chain.head (front ++ (pid, rids) :: post)) (Chain.last front) pid
        (st.2.pages pid) i).run (dupStore allocator) st.2 =
      (dropPage st.1 k.bytes (Chain.head (front ++ (pid, rids) :: post)) (Chain.last front) pid
        (Chain.head post)).run (dupStore allocator)
          (st.2.set pid (removeEntry (st.2.pages pid) i)) := by
  obtain ⟨-, hpage, -⟩ := hc.holds.at_mid
  have hremoved := hpage.remove hi
  have hcount : entryCount (removeEntry (st.2.pages pid) i) = 0 := by
    rw [hremoved.count, hempty]
    rfl
  have hnext : nextPage (removeEntry (st.2.pages pid) i) = Chain.head post := hremoved.next
  rw [removeFound]
  simp only [Prog.run_bind, run_onPages, run_writePage, run_markDirty, if_pos hcount, hnext]

/-- **The only page** takes the key with it. -/
theorem run_dropPage_only (hc : KeyChain dup st m pages k [(pid, rids)]) (allocator : Allocator)
    (prev : Nat) (page : PageData) :
    ∃ st' : BTreeState, (dropPage st.1 k.bytes pid prev pid 0).run (dupStore allocator)
        (st.2.set pid page) = ((.ok, st'.1), st'.2) ∧
      KeyChain dup st' (Function.update m k (dup.entry [])) pages k [] ∧
        Within st.2 st'.2 pages [(pid, rids)] [] := by
  have hne : ∀ {other : Nat}, other ∉ Chain.pids [(pid, rids)] → other ≠ pid := fun hother =>
    List.ne_of_not_mem_cons hother
  have htree : TreeHolds (st.1, (st.2.set pid page).release pid) m pages :=
    hc.tree_of_frame (fun other _ hother => pages_set_release page (hne hother))
      fun other hmem hother => mem_used_release hmem (hne hother)
  obtain ⟨st', hrun, htree', hused, hkeep⟩ := htree.run_delete allocator grantAll hc.entry
  refine ⟨st', ?_, ⟨ChainHolds.nil _, htree', Function.update_self .., fun _ hmem =>
    absurd hmem List.not_mem_nil⟩, fun other hmem hother => ?_, fun _ hmem =>
      absurd hmem List.not_mem_nil, fun other _ hother hout => ?_⟩
  · rw [dropPage, if_pos ⟨rfl, rfl⟩]
    simp only [Prog.run_bind, run_onPages, run_unpinPage, run_diskFreePage]
    exact hrun
  · rw [hused]
    exact mem_used_release hmem (hne hother)
  · rw [hkeep other hout]
    exact pages_set_release page (hne hother)

/-- **The first page of several**: the key gets the next one. -/
theorem run_dropPage_head (hc : KeyChain dup st m pages k ((pid, rids) :: post)) (hpost : post ≠ [])
    (allocator : Allocator) (prev : Nat) (page : PageData) :
    ∃ st' : BTreeState, (dropPage st.1 k.bytes pid prev pid (Chain.head post)).run
        (dupStore allocator) (st.2.set pid page) = ((.ok, st'.1), st'.2) ∧
      KeyChain dup st' (Function.update m k (dup.entry post)) pages k post ∧
        Within st.2 st'.2 pages ((pid, rids) :: post) post := by
  have hne : ∀ {other : Nat}, other ∉ Chain.pids ((pid, rids) :: post) → other ≠ pid := fun hother =>
    List.ne_of_not_mem_cons hother
  have hbehind : ∀ other ∈ Chain.pids post, other ≠ pid := fun _ hmem => hc.holds.ne_first hmem
  have htree : TreeHolds (st.1, (st.2.set pid page).release pid) m pages :=
    hc.tree_of_frame (fun other _ hother => pages_set_release page (hne hother))
      fun other hmem hother => mem_used_release hmem (hne hother)
  obtain ⟨s', hrun, htree', hused, hkeep⟩ :=
    htree.run_setLeafValue allocator grantAll hc.entry (dup.value (Chain.head post))
  have hentry : dup.entry post = some (dup.value (Chain.head post)) := by
    obtain ⟨p, post', rfl⟩ := List.exists_cons_of_ne_nil hpost
    rfl
  have hsuffix := hc.holds.behind_first
  have hnext : Chain.head post ≠ 0 := by
    obtain ⟨p, post', rfl⟩ := List.exists_cons_of_ne_nil hpost
    exact (hsuffix.live p.1 (Chain.mem_pids List.mem_cons_self)).pos.ne'
  have hlive : ∀ other, st.2.Live other → other ≠ pid → s'.Live other := by
    intro other hother hneOther
    refine ⟨?_, hother.pos, hother.lt⟩
    rw [hused]
    exact mem_used_release hother.mem hneOther
  refine ⟨(st.1, s'), ?_, ⟨hsuffix.transfer fun other hmem => ⟨?_, hlive other (hsuffix.live other hmem)
    (hbehind other hmem)⟩, ?_, Function.update_self .., fun other hmem =>
      hc.apart other (List.mem_cons_of_mem _ hmem)⟩, fun other hmem hother => ?_, fun other hmem =>
        .inl (List.mem_cons_of_mem _ hmem), fun other _ hother hout => ?_⟩
  · rw [dropPage, if_neg (fun hand => hnext hand.2), if_pos rfl]
    simp only [Prog.run_bind, run_onPages, run_unpinPage, run_diskFreePage, Prog.run_pure]
    rw [show (setLeafValue st.1 k.bytes (toLE 4 (Chain.head post))).run (flatStore allocator grantAll)
      ((st.2.set pid page).release pid) = (.ok, s') from hrun]
  · rw [hkeep other (hc.apart other (List.mem_cons_of_mem _ hmem))]
    exact pages_set_release page (hbehind other hmem)
  · rw [hentry]
    exact htree'
  · rw [hused]
    exact mem_used_release hmem (hne hother)
  · rw [hkeep other hout]
    exact pages_set_release page (hne hother)

/-- **Any other page**: the one in front of it passes over it. -/
theorem run_dropPage_behind {prev : Nat} {prids : List RecordId}
    (hc : KeyChain dup st m pages k (front ++ (prev, prids) :: (pid, rids) :: post))
    (allocator : Allocator) (page : PageData) :
    ∃ st' : BTreeState, (dropPage st.1 k.bytes
        (Chain.head (front ++ (prev, prids) :: (pid, rids) :: post)) prev pid (Chain.head post)).run
          (dupStore allocator) (st.2.set pid page) = ((.ok, st'.1), st'.2) ∧
      KeyChain dup st' m pages k (front ++ (prev, prids) :: post) ∧
        Within st.2 st'.2 pages (front ++ (prev, prids) :: (pid, rids) :: post)
          (front ++ (prev, prids) :: post) := by
  have hholds := hc.holds
  rw [List.append_cons] at hholds
  have hother : ∀ {other : Nat}, other ∈ Chain.pids (front ++ [(prev, prids)]) ∨
      other ∈ Chain.pids post → other ≠ pid := hholds.ne_of_mem
  have hprevPid : prev ≠ pid := hother (.inl (by simp))
  obtain ⟨hlive, hpage, -⟩ := hc.holds.at_mid
  have hprev : ∀ {other : Nat}, other ∈ Chain.pids front ∨ other ∈ Chain.pids ((pid, rids) :: post) →
      other ≠ prev := hc.holds.ne_of_mem
  -- the page is not the first, for another stands in front of it
  have hhead : pid ≠ Chain.head (front ++ (prev, prids) :: (pid, rids) :: post) := by
    intro heq
    cases front with
    | nil => exact hprevPid heq.symm
    | cons p front =>
      have hfront : p.1 ∈ Chain.pids (p :: front ++ [(prev, prids)]) := List.mem_cons_self
      exact hother (.inl hfront) heq.symm
  have hfetch : (st.2.set pid page).fetch prev = some (st.2.pages prev) := by
    rw [(hlive.set pid page).fetch, pages_set_of_ne _ _ hprevPid]
  have hpost : Chain.head post < 2 ^ 32 := by
    cases post with
    | nil =>
      show 0 < 2 ^ 32
      decide
    | cons p post => exact (hholds.live p.1 (by simp)).lt_word
  have hpages : ∀ other, other ≠ pid → other ≠ prev →
      (((st.2.set pid page).set prev (setNextPage (st.2.pages prev) (Chain.head post))).release
        pid).pages other = st.2.pages other := by
    intro other hne hne'
    exact (pages_set_of_ne _ _ hne').trans (pages_set_of_ne _ _ hne)
  have hliveAll : ∀ other, st.2.Live other → other ≠ pid →
      (((st.2.set pid page).set prev (setNextPage (st.2.pages prev) (Chain.head post))).release
        pid).Live other := fun other hlive hne =>
    ⟨mem_used_release hlive.mem hne, hlive.pos, hlive.lt⟩
  have hout : ∀ {other : Nat},
      other ∉ Chain.pids (front ++ (prev, prids) :: (pid, rids) :: post) →
        other ≠ pid ∧ other ≠ prev := by
    intro other hnot
    exact ⟨fun heq => hnot (by simp [heq]), fun heq => hnot (by simp [heq])⟩
  have hkeep : Chain.pids (front ++ (prev, prids) :: post) ⊆
      Chain.pids (front ++ (prev, prids) :: (pid, rids) :: post) := by
    intro other hmem
    simp only [Chain.pids_append, Chain.pids_cons, List.mem_append, List.mem_cons] at hmem ⊢
    tauto
  have hheads : Chain.head (front ++ (prev, prids) :: post) =
      Chain.head (front ++ (prev, prids) :: (pid, rids) :: post) := by
    cases front <;> rfl
  have hentry : dup.entry (front ++ (prev, prids) :: post) =
      dup.entry (front ++ (prev, prids) :: (pid, rids) :: post) := by
    cases front <;> rfl
  refine ⟨(st.1, ((st.2.set pid page).set prev
    (setNextPage (st.2.pages prev) (Chain.head post))).release pid), ?_, ⟨?_, ?_, ?_, ?_⟩,
      fun other hmem hnot => ?_, fun other hmem => .inl (hkeep hmem), fun other _ hnot _ => ?_⟩
  · rw [dropPage, if_neg (fun hand => hhead hand.1), if_neg hhead]
    simp only [Prog.run_bind, if_pos hlive.pos.ne', run_onPages, run_pinPage, hfetch,
      run_writePage, run_markDirty, run_unpinPage, run_diskFreePage, Prog.run_pure]
  · rw [hheads]
    refine hc.holds.relink (fun other hmem => ?_) (hliveAll prev hlive hprevPid) ?_ ?_
    · have hne : other ≠ pid := hother (.inl (by simp [hmem]))
      have hliveOther := hc.holds.live other (by simp [hmem])
      exact ⟨hpages other hne (hprev (.inl hmem)), hliveAll other hliveOther hne⟩
    · show OverflowPage (((st.2.set pid page).set prev _).pages prev) prids (Chain.head post)
      rw [pages_set_self]
      exact hpage.setNext hpost
    · rw [List.append_cons] at hholds
      refine hholds.suffix.transfer fun other hmem => ?_
      have hne : other ≠ pid := hother (.inr hmem)
      have hliveOther := hholds.suffix.live other hmem
      exact ⟨hpages other hne (hprev (.inr (List.mem_cons_of_mem _ hmem))), hliveAll other hliveOther hne⟩
  · refine hc.tree_of_frame (fun other _ hnot => ?_) fun other hmem hnot => ?_
    · exact hpages other (hout hnot).1 (hout hnot).2
    · exact mem_used_release hmem (hout hnot).1
  · rw [hc.entry, hentry]
  · exact fun other hmem => hc.apart other (hkeep hmem)
  · exact mem_used_release hmem (hout hnot).1
  · exact hpages other (hout hnot).1 (hout hnot).2

theorem update_self (hc : KeyChain dup st m pages k chain) :
    KeyChain dup st (Function.update m k (dup.entry chain)) pages k chain := by
  rw [← hc.entry, Function.update_eq_self]
  exact hc

/-- What the calls look up first. -/
theorem run_search (hc : KeyChain dup st m pages k chain) (allocator : Allocator) :
    ∃ found : NostrDBError × Option (List UInt8),
      (btreeSearch st.1 k.bytes).run (flatStore allocator grantAll) st.2 = (found, st.2) ∧
        found.1 = (if chain = [] then .notFound else .ok) ∧ chainHead found = Chain.head chain := by
  cases chain with
  | nil => exact ⟨_, hc.tree.run_search_of_none allocator grantAll hc.entry, rfl, rfl⟩
  | cons p post =>
    refine ⟨_, hc.tree.run_search_of_some allocator grantAll hc.entry, rfl, ?_⟩
    have hlt : p.1 < 2 ^ 32 := (hc.holds.live p.1 (Chain.mem_pids List.mem_cons_self)).lt_word
    exact ofLE_toLE_of_lt hlt

theorem head_ne_zero (hc : KeyChain dup st m pages k chain) (hne : chain ≠ []) :
    Chain.head chain ≠ 0 := by
  obtain ⟨p, post, rfl⟩ := List.exists_cons_of_ne_nil hne
  exact (hc.holds.live p.1 (Chain.mem_pids List.mem_cons_self)).pos.ne'

/-- A page with the id loses it, and goes if that was all. -/
theorem run_removeFound (hc : KeyChain dup st m pages k (front ++ (pid, rids) :: post))
    (allocator : Allocator) (hi : i < rids.length) :
    ∃ (st' : BTreeState) (chain' : Chain),
      (removeFound st.1 k.bytes (Chain.head (front ++ (pid, rids) :: post)) (Chain.last front) pid
          (st.2.pages pid) i).run (dupStore allocator) st.2 = ((.ok, st'.1), st'.2) ∧
        KeyChain dup st' (Function.update m k (dup.entry chain')) pages k chain' ∧
          Within st.2 st'.2 pages (front ++ (pid, rids) :: post) chain' ∧
            chain'.lists = front.lists ++
              if swapRemove rids i = [] then post.lists else swapRemove rids i :: post.lists := by
  by_cases hrest : swapRemove rids i = []
  · rw [if_pos hrest, hc.run_removeFound_of_empty allocator hi hrest]
    rcases List.eq_nil_or_concat front with rfl | ⟨pre, ⟨prev, prids⟩, rfl⟩
    · by_cases hpost : post = []
      · subst hpost
        obtain ⟨st', hrun, hkeep, hwithin⟩ := hc.run_dropPage_only allocator 0
          (removeEntry (st.2.pages pid) i)
        exact ⟨st', [], hrun, hkeep, hwithin, rfl⟩
      · obtain ⟨st', hrun, hkeep, hwithin⟩ := hc.run_dropPage_head hpost allocator 0
          (removeEntry (st.2.pages pid) i)
        exact ⟨st', post, hrun, hkeep, hwithin, rfl⟩
    · simp only [List.concat_eq_append, ← List.append_cons] at hc ⊢
      obtain ⟨st', hrun, hkeep, hwithin⟩ := hc.run_dropPage_behind allocator
        (removeEntry (st.2.pages pid) i)
      rw [Chain.last_concat]
      refine ⟨st', pre ++ (prev, prids) :: post, hrun, hkeep.update_self, hwithin, ?_⟩
      simp
  · rw [if_neg hrest]
    obtain ⟨st', hrun, hkeep, hwithin⟩ := hc.run_removeFound_of_rest allocator hi hrest
    refine ⟨st', front ++ (pid, swapRemove rids i) :: post, hrun, hkeep.update_self, hwithin, ?_⟩
    simp

/-- **A deletion** takes the id from the first page that has it. -/
theorem run_btreeDeleteDup (hc : KeyChain dup st m pages k chain) (allocator : Allocator)
    (rid : RecordId) :
    ∃ (st' : BTreeState) (chain' : Chain),
      (btreeDeleteDup st.1 k.bytes rid).run (dupStore allocator) st.2 =
          ((if rid ∈ chain.lists.flatten then .ok else .notFound, st'.1), st'.2) ∧
        KeyChain dup st' (Function.update m k (dup.entry chain')) pages k chain' ∧
          Within st.2 st'.2 pages chain chain' ∧ chain'.lists = chainDelete rid chain.lists := by
  obtain ⟨found, hsearch, herr, hhead⟩ := hc.run_search allocator
  have hsame : Within st.2 st.2 pages chain chain :=
    ⟨fun _ hmem _ => hmem, fun _ hmem => .inl hmem, fun _ _ _ _ => rfl⟩
  have hrun : (btreeDeleteDup st.1 k.bytes rid).run (dupStore allocator) st.2 =
      (if found.1 ≠ .ok then (Prog.ret (found.1, st.1) : DupM _)
        else if chainHead found = 0 then Prog.ret (.notFound, st.1)
        else deleteDupLoop st.1 k.bytes rid (chainHead found) dbMaxPages 0 (chainHead found)).run
          (dupStore allocator) st.2 := by
    simp only [btreeDeleteDup, Prog.run_bind, run_onPages, hsearch]
    rfl
  by_cases hnil : chain = []
  · subst hnil
    refine ⟨st, [], ?_, hc.update_self, hsame, rfl⟩
    rw [hrun, herr, if_pos rfl, if_pos (by decide),
      if_neg (show rid ∉ (Chain.lists []).flatten from List.not_mem_nil)]
    rfl
  rw [hrun, herr, if_neg hnil, if_neg (by simp), hhead, if_neg (hc.head_ne_zero hnil)]
  have hfuel : chain.length ≤ dbMaxPages := hc.holds.length_lt.le
  rcases @run_deleteDupLoop allocator st.1 k.bytes rid _ _ _ [] _ hc.holds hfuel with
    ⟨hnone, hloop⟩ | ⟨front, post, pid, rids, i, rfl, hfront, hfound, hloop⟩
  · refine ⟨st, chain, ?_, hc.update_self, hsame, ?_⟩
    · rw [if_neg hnone]
      exact hloop
    · have hdelete := chainDelete_append hnone []
      rw [List.append_nil] at hdelete
      rw [hdelete, chainDelete, List.append_nil]
  · obtain ⟨hi, hget, -⟩ := List.idxOf?_eq_some_iff.mp hfound
    have hmem : rid ∈ (Chain.lists (front ++ (pid, rids) :: post)).flatten := by
      rw [Chain.lists_append, Chain.lists_cons, List.flatten_append, List.flatten_cons]
      exact List.mem_append_right _ (List.mem_append_left _ (hget ▸ List.getElem_mem hi))
    obtain ⟨st', chain', hremove, hkeep, hwithin, hlists⟩ := hc.run_removeFound allocator hi
    refine ⟨st', chain', ?_, hkeep, hwithin, ?_⟩
    · rw [if_pos hmem, ← hremove]
      exact hloop
    · rw [hlists, Chain.lists_append, Chain.lists_cons, chainDelete_append hfront, chainDelete, hfound]

end KeyChain

end OnionRelay.Db
