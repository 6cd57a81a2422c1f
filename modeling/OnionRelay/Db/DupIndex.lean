import OnionRelay.Db.Btree.SetValue
import OnionRelay.Db.OverflowPage
import OnionRelay.Lib.LinkedList

/-!
# Duplicate indexes

An index with duplicates is a tree whose values are the first pages of chains, and
the chains of overflow pages behind them.  `btree_insert_dup`, `btree_scan_key` and
`btree_delete_dup` are programs over the page store that also give pages back.
-/

namespace OnionRelay.Db

open OnionRelay.Lib BTreeShape

/-! ## Pages given back -/

/-- `disk_free_page`; no caller looks at its result. -/
def FreeSig : Sig := ⟨Nat, fun _ => Unit⟩

abbrev DupM := Prog (PageSig.sum FreeSig)

def onPages {α : Type} (p : PageM α) : DupM α := p.inl

def diskFreePage (pid : Nat) : DupM Unit := Prog.call (S := PageSig.sum FreeSig) (.inr pid)

/-- The store without the page. -/
def FlatStore.release (s : FlatStore) (pid : Nat) : FlatStore :=
  { s with used := s.used.filter (· ≠ pid) }

/-- The page store that takes pages back. -/
def dupStore (allocator : Allocator) : Handler (PageSig.sum FreeSig) FlatStore :=
  (flatStore allocator grantAll).sum fun pid s => ((), s.release pid)

@[simp] theorem run_onPages {α : Type} (allocator : Allocator) (p : PageM α) (s : FlatStore) :
    (onPages p).run (dupStore allocator) s = p.run (flatStore allocator grantAll) s :=
  Prog.run_inl _ _ _ _

@[simp] theorem run_diskFreePage (allocator : Allocator) (pid : Nat) (s : FlatStore) :
    (diskFreePage pid).run (dupStore allocator) s = ((), s.release pid) := rfl

/-! ## The programs -/

/-- The head of the chain a search found, `PAGE_ID_NULL` without one. -/
def chainHead (found : NostrDBError × Option (List UInt8)) : Nat := ofLE (found.2.getD [])

/-- The loop of `btree_insert_dup`.  It takes a step for each page of the chain, and
a file has at most `dbMaxPages`. -/
def insertDupLoop (rid : RecordId) : Nat → Nat → PageM NostrDBError
  | 0, _ => return .full
  | fuel + 1, pid =>
    if pid = 0 then return .full
    else do
      match ← pinPage pid with
      | none => return .notFound
      | some page =>
        if entryCount page < overflowMaxEntries then
          writePage pid (appendEntry page rid)
          markDirty pid 0
          unpinPage pid
          return .ok
        else if nextPage page = 0 then
          match ← allocPage with
          | none =>
            unpinPage pid
            return .full
          | some (newPid, _) =>
            writePage newPid (firstEntryPage rid)
            writePage pid (setNextPage page newPid)
            markDirty pid 0
            markDirty newPid 0
            unpinPage newPid
            unpinPage pid
            return .ok
        else
          unpinPage pid
          insertDupLoop rid fuel (nextPage page)

/-- `btree_insert_dup` -/
def btreeInsertDup (tree : BTree) (key : List UInt8) (rid : RecordId) :
    PageM (NostrDBError × BTree) := do
  let found ← btreeSearch tree key
  if found.1 = .ok ∧ chainHead found ≠ 0 then
    let err ← insertDupLoop rid dbMaxPages (chainHead found)
    return (err, tree)
  else
    match ← allocPage with
    | none => return (.full, tree)
    | some (pid, _) =>
      writePage pid (firstEntryPage rid)
      markDirty pid 0
      unpinPage pid
      btreeInsert tree key (toLE 4 pid)

section Scan

variable {σ : Type} (callback : RecordId → σ → Bool × σ)

/-- The entries of one page; whether the callback stopped the scan. -/
def scanEntries : List RecordId → σ → Bool × σ
  | [], acc => (false, acc)
  | rid :: rids, acc =>
    if (callback rid acc).1 then scanEntries rids (callback rid acc).2
    else (true, (callback rid acc).2)

/-- The loop of `btree_scan_key`. -/
def scanLoop : Nat → Nat → σ → PageM σ
  | 0, _, acc => return acc
  | fuel + 1, pid, acc =>
    if pid = 0 then return acc
    else do
      match ← pinPage pid with
      | none => return acc
      | some page =>
        let r := scanEntries callback (pageEntries page) acc
        unpinPage pid
        if r.1 then return r.2 else scanLoop fuel (nextPage page) r.2

/-- `btree_scan_key` -/
def btreeScanKey (tree : BTree) (key : List UInt8) (acc : σ) : PageM (NostrDBError × σ) := do
  let found ← btreeSearch tree key
  if found.1 ≠ .ok then return (found.1, acc)
  else if chainHead found = 0 then return (.ok, acc)
  else
    let acc ← scanLoop callback dbMaxPages (chainHead found) acc
    return (.ok, acc)

end Scan

/-- What `btree_delete_dup` does with a page that became empty. -/
def dropPage (tree : BTree) (key : List UInt8) (head prev pid next : Nat) :
    DupM (NostrDBError × BTree) :=
  if pid = head ∧ next = 0 then do
    onPages (unpinPage pid)
    diskFreePage pid
    onPages (btreeDelete tree key)
  else if pid = head then do
    onPages (unpinPage pid)
    diskFreePage pid
    let err ← onPages (setLeafValue tree key (toLE 4 next))
    return (err, tree)
  else do
    if prev ≠ 0 then
      match ← onPages (pinPage prev) with
      | none => pure ()
      | some page =>
        onPages (writePage prev (setNextPage page next))
        onPages (markDirty prev 0)
        onPages (unpinPage prev)
    onPages (unpinPage pid)
    diskFreePage pid
    return (.ok, tree)

/-- What `btree_delete_dup` does with a page that has the id at entry `i`. -/
def removeFound (tree : BTree) (key : List UInt8) (head prev pid : Nat) (page : PageData) (i : Nat) :
    DupM (NostrDBError × BTree) := do
  onPages (writePage pid (removeEntry page i))
  onPages (markDirty pid 0)
  if entryCount (removeEntry page i) = 0 then
    dropPage tree key head prev pid (nextPage (removeEntry page i))
  else
    onPages (unpinPage pid)
    return (.ok, tree)

/-- The loop of `btree_delete_dup`. -/
def deleteDupLoop (tree : BTree) (key : List UInt8) (rid : RecordId) (head : Nat) :
    Nat → Nat → Nat → DupM (NostrDBError × BTree)
  | 0, _, _ => return (.notFound, tree)
  | fuel + 1, prev, pid =>
    if pid = 0 then return (.notFound, tree)
    else do
      match ← onPages (pinPage pid) with
      | none => return (.notFound, tree)
      | some page =>
        match (pageEntries page).idxOf? rid with
        | some i => removeFound tree key head prev pid page i
        | none =>
          onPages (unpinPage pid)
          deleteDupLoop tree key rid head fuel pid (nextPage page)

/-- `btree_delete_dup` -/
def btreeDeleteDup (tree : BTree) (key : List UInt8) (rid : RecordId) :
    DupM (NostrDBError × BTree) := do
  let found ← onPages (btreeSearch tree key)
  if found.1 ≠ .ok then return (found.1, tree)
  else if chainHead found = 0 then return (.notFound, tree)
  else deleteDupLoop tree key rid (chainHead found) dbMaxPages 0 (chainHead found)

/-! ## Chains -/

/-- Pages with the ids on them. -/
abbrev Chain := List (Nat × List RecordId)

def Chain.pids (chain : Chain) : List Nat := chain.map Prod.fst

/-- The ids of each page. -/
def Chain.lists (chain : Chain) : List (List RecordId) := chain.map Prod.snd

def Chain.head (chain : Chain) : Nat := chain.pids.headD 0

/-- The pages of the store hold the chain, and none of them is empty. -/
structure ChainHolds (s : FlatStore) (head : Nat) (chain : Chain) : Prop where
  linked : Linked (fun pid => nextPage (s.pages pid)) 0 head chain.pids
  live : ∀ pid ∈ chain.pids, s.Live pid
  page : ∀ p ∈ chain, OverflowPage (s.pages p.1) p.2 (nextPage (s.pages p.1))
  ne_nil : ∀ p ∈ chain, p.2 ≠ []

@[simp] theorem Chain.pids_append (a b : Chain) : (a ++ b).pids = a.pids ++ b.pids :=
  List.map_append

@[simp] theorem Chain.pids_cons (p : Nat × List RecordId) (c : Chain) :
    Chain.pids (p :: c) = p.1 :: c.pids := rfl

@[simp] theorem Chain.lists_nil : Chain.lists [] = [] := rfl

@[simp] theorem Chain.lists_append (a b : Chain) : (a ++ b).lists = a.lists ++ b.lists :=
  List.map_append

@[simp] theorem Chain.lists_cons (p : Nat × List RecordId) (c : Chain) :
    Chain.lists (p :: c) = p.2 :: c.lists := rfl

@[simp] theorem Chain.head_nil : Chain.head [] = 0 := rfl

@[simp] theorem Chain.head_cons (p : Nat × List RecordId) (c : Chain) :
    Chain.head (p :: c) = p.1 := rfl

theorem Chain.mem_pids {chain : Chain} {p : Nat × List RecordId} (h : p ∈ chain) :
    p.1 ∈ chain.pids := List.mem_map_of_mem h

namespace ChainHolds

variable {s s' : FlatStore} {head pid : Nat} {chain pre post : Chain} {rids : List RecordId}

/-- There are fewer pages in a chain than in a file. -/
theorem length_lt (h : ChainHolds s head chain) : chain.length < dbMaxPages := by
  have hsub : chain.pids ⊆ List.range' 1 (dbMaxPages - 1) := by
    intro pid hpid
    have hlive := h.live pid hpid
    have hpos := hlive.pos
    have hlt := hlive.lt
    exact List.mem_range'_1.mpr ⟨hpos, by omega⟩
  have hle := (List.subperm_of_subset h.linked.nodup hsub).length_le
  rw [List.length_range', Chain.pids, List.length_map] at hle
  have hmax : 0 < dbMaxPages := by decide
  omega

/-- **The frame rule.** -/
theorem transfer (h : ChainHolds s head chain)
    (hpages : ∀ pid ∈ chain.pids, s'.pages pid = s.pages pid ∧ s'.Live pid) :
    ChainHolds s' head chain where
  linked := h.linked.congr fun pid hpid => by rw [(hpages pid hpid).1]
  live pid hpid := (hpages pid hpid).2
  page p hp := by
    rw [(hpages p.1 (Chain.mem_pids hp)).1]
    exact h.page p hp
  ne_nil := h.ne_nil

theorem ne_of_mem (h : ChainHolds s head (pre ++ (pid, rids) :: post)) {other : Nat}
    (hother : other ∈ pre.pids ∨ other ∈ post.pids) : other ≠ pid := by
  have hnodup := h.linked.nodup
  rw [Chain.pids_append, Chain.pids_cons, List.nodup_append] at hnodup
  obtain ⟨-, hbehind, hcross⟩ := hnodup
  rcases hother with hmem | hmem
  · exact hcross _ hmem _ List.mem_cons_self
  · rintro rfl
    exact (List.nodup_cons.mp hbehind).1 hmem

theorem at_mid (h : ChainHolds s head (pre ++ (pid, rids) :: post)) :
    s.Live pid ∧ OverflowPage (s.pages pid) rids post.head ∧ rids ≠ [] := by
  have hmem : (pid, rids) ∈ pre ++ (pid, rids) :: post :=
    List.mem_append_right _ List.mem_cons_self
  have hnext : nextPage (s.pages pid) = post.head := by
    have hlinked := h.linked
    rw [Chain.pids_append, Chain.pids_cons] at hlinked
    exact hlinked.next_eq
  have hpage := h.page _ hmem
  rw [hnext] at hpage
  exact ⟨h.live _ (Chain.mem_pids hmem), hpage, h.ne_nil _ hmem⟩

/-- Other ids on a page. -/
theorem update (h : ChainHolds s head (pre ++ (pid, rids) :: post)) {page : PageData}
    {rids' : List RecordId} (hpage : OverflowPage page rids' post.head) (hne : rids' ≠ []) :
    ChainHolds (s.set pid page) head (pre ++ (pid, rids') :: post) := by
  obtain ⟨-, hold, -⟩ := h.at_mid
  have hother : ∀ p, p ∈ pre ∨ p ∈ post → (s.set pid page).pages p.1 = s.pages p.1 := by
    intro p hp
    exact pages_set_of_ne _ _ (h.ne_of_mem (hp.imp Chain.mem_pids Chain.mem_pids))
  have hpids : Chain.pids (pre ++ (pid, rids') :: post) = Chain.pids (pre ++ (pid, rids) :: post) := by
    simp
  have hback : ∀ p, p ∈ pre ∨ p ∈ post → p ∈ pre ++ (pid, rids) :: post := by
    rintro p (hp | hp)
    · exact List.mem_append_left _ hp
    · exact List.mem_append_right _ (List.mem_cons_of_mem _ hp)
  refine ⟨?_, ?_, fun p hp => ?_, fun p hp => ?_⟩
  · rw [hpids]
    refine h.linked.congr fun other _ => ?_
    by_cases heq : other = pid
    · subst heq
      rw [pages_set_self, hpage.next, hold.next]
    · rw [pages_set_of_ne _ _ heq]
  · rw [hpids]
    exact fun other hmem => (h.live other hmem).set _ _
  · rcases List.mem_append.mp hp with hp | hp
    · rw [hother p (.inl hp)]
      exact h.page p (hback p (.inl hp))
    · rcases List.mem_cons.mp hp with rfl | hp
      · rw [pages_set_self, hpage.next]
        exact hpage
      · rw [hother p (.inr hp)]
        exact h.page p (hback p (.inr hp))
  · rcases List.mem_append.mp hp with hp | hp
    · exact h.ne_nil p (hback p (.inl hp))
    · rcases List.mem_cons.mp hp with rfl | hp
      · exact hne
      · exact h.ne_nil p (hback p (.inr hp))

theorem suffix (h : ChainHolds s head (pre ++ post)) : ChainHolds s post.head post where
  linked := by
    have hlinked := h.linked
    rw [Chain.pids_append] at hlinked
    exact hlinked.suffix
  live pid hpid := h.live pid (by rw [Chain.pids_append]; exact List.mem_append_right _ hpid)
  page p hp := h.page p (List.mem_append_right _ hp)
  ne_nil p hp := h.ne_nil p (List.mem_append_right _ hp)

/-! The same of the first page. -/

theorem at_first (h : ChainHolds s head ((pid, rids) :: post)) :
    s.Live pid ∧ OverflowPage (s.pages pid) rids post.head ∧ rids ≠ [] :=
  @at_mid s head pid [] post rids h

theorem behind_first {p : Nat × List RecordId} (h : ChainHolds s head (p :: post)) :
    ChainHolds s post.head post := @suffix s head [p] post h

theorem ne_first (h : ChainHolds s head ((pid, rids) :: post)) {other : Nat}
    (hother : other ∈ post.pids) : other ≠ pid :=
  @ne_of_mem s head pid [] post rids h other (.inr hother)

/-- **Another chain behind a page.** -/
theorem relink (h : ChainHolds s head (pre ++ (pid, rids) :: post)) {post' : Chain}
    (hpre : ∀ other ∈ pre.pids, s'.pages other = s.pages other ∧ s'.Live other)
    (hlive : s'.Live pid) (hpage : OverflowPage (s'.pages pid) rids post'.head)
    (hpost : ChainHolds s' post'.head post') : ChainHolds s' head (pre ++ (pid, rids) :: post') := by
  have hback : ∀ p ∈ pre, p ∈ pre ++ (pid, rids) :: post := fun p hp => List.mem_append_left _ hp
  have hlinked := h.linked
  rw [Chain.pids_append, Chain.pids_cons] at hlinked
  refine ⟨?_, fun other hother => ?_, fun p hp => ?_, fun p hp => ?_⟩
  · rw [Chain.pids_append, Chain.pids_cons]
    refine hlinked.relink (fun other hother => by rw [(hpre other hother).1]) ?_
    rw [hpage.next]
    exact hpost.linked
  · rw [Chain.pids_append, Chain.pids_cons] at hother
    rcases List.mem_append.mp hother with hmem | hmem
    · exact (hpre other hmem).2
    · rcases List.mem_cons.mp hmem with rfl | hmem
      · exact hlive
      · exact hpost.live other hmem
  · rcases List.mem_append.mp hp with hp | hp
    · rw [(hpre p.1 (Chain.mem_pids hp)).1]
      exact h.page p (hback p hp)
    · rcases List.mem_cons.mp hp with rfl | hp
      · rw [hpage.next]
        exact hpage
      · exact hpost.page p hp
  · rcases List.mem_append.mp hp with hp | hp
    · exact h.ne_nil p (hback p hp)
    · rcases List.mem_cons.mp hp with rfl | hp
      · exact h.at_mid.2.2
      · exact hpost.ne_nil p hp

/-- A page with one id and nothing behind it. -/
theorem single {rid : RecordId} (hlive : s.Live pid)
    (hpage : OverflowPage (s.pages pid) [rid] 0) : ChainHolds s pid [(pid, [rid])] where
  linked := ⟨⟨rfl, hpage.next⟩, by
    rw [Chain.pids_cons, List.mem_cons, not_or]
    exact ⟨(Nat.ne_of_gt hlive.pos).symm, List.not_mem_nil⟩⟩
  live other hother := by
    obtain rfl := List.mem_singleton.mp hother
    exact hlive
  page p hp := by
    obtain rfl := List.mem_singleton.mp hp
    rw [hpage.next]
    exact hpage
  ne_nil p hp := by
    obtain rfl := List.mem_singleton.mp hp
    exact List.cons_ne_nil _ _

theorem nil (s : FlatStore) : ChainHolds s 0 [] where
  linked := Linked.empty
  live _ hpid := absurd hpid List.not_mem_nil
  page _ hp := absurd hp List.not_mem_nil
  ne_nil _ hp := absurd hp List.not_mem_nil

theorem head_eq (h : ChainHolds s head chain) : chain.head = head := by
  cases chain with
  | nil => exact h.linked.seg.symm
  | cons p chain => exact h.linked.seg.1.symm

end ChainHolds

/-! ## Inserting an id -/

/-- A call on the chain of a key stayed within the chain, pages not in use and `pages`. -/
structure Within (s s' : FlatStore) (pages : List Nat) (old new : Chain) : Prop where
  kept : ∀ pid ∈ s.used, pid ∉ old.pids → pid ∈ s'.used
  fresh : ∀ pid ∈ new.pids, pid ∈ old.pids ∨ pid ∉ s.used
  frame : ∀ pid ∈ s.used, pid ∉ old.pids → pid ∉ pages → s'.pages pid = s.pages pid

/-- **The loop of an insertion** appends to the first page with room, or behind the
last page. -/
theorem run_insertDupLoop (allocator : Allocator) (rid : RecordId) {s : FlatStore} {head : Nat}
    (hfile : s.used.length + 1 < dbMaxPages) : ∀ {suf pre : Chain} {fuel : Nat},
      ChainHolds s head (pre ++ suf) → suf ≠ [] → suf.length ≤ fuel →
        ∃ (s' : FlatStore) (suf' : Chain),
          (insertDupLoop rid fuel (Chain.head suf)).run (flatStore allocator grantAll) s = (.ok, s') ∧
            ChainHolds s' head (pre ++ suf') ∧ Chain.lists suf' = chainInsert rid (Chain.lists suf) ∧
              Chain.head suf' = Chain.head suf ∧ Within s s' [] suf suf' := by
  intro suf
  induction suf with
  | nil => exact fun _ hne => absurd rfl hne
  | cons p post ih =>
    intro pre fuel h _ hfuel
    obtain ⟨pid, rids⟩ := p
    obtain ⟨fuel, rfl⟩ : ∃ f, fuel = f + 1 := ⟨fuel - 1, by rw [List.length_cons] at hfuel; omega⟩
    obtain ⟨hlive, hpage, -⟩ := h.at_mid
    have hfetch : s.fetch pid = some (s.pages pid) := hlive.fetch
    have hne : pid ≠ 0 := hlive.pos.ne'
    rw [Chain.head_cons, insertDupLoop, if_neg hne]
    by_cases hroom : rids.length < overflowMaxEntries
    · -- the page has room
      have hcount : entryCount (s.pages pid) < overflowMaxEntries := by rw [hpage.count]; exact hroom
      refine ⟨s.set pid (appendEntry (s.pages pid) rid), (pid, rids ++ [rid]) :: post, ?_,
        h.update (hpage.append hroom rid) (by simp), ?_, rfl, ?_⟩
      · simp only [Prog.run_bind, run_pinPage, hfetch, if_pos hcount, run_writePage, run_markDirty,
          run_unpinPage, Prog.run_pure]
      · rw [Chain.lists_cons, Chain.lists_cons, chainInsert, if_pos hroom]
      · refine ⟨fun _ hmem _ => hmem, fun other hother => .inl hother, fun other _ hother _ => ?_⟩
        exact pages_set_of_ne _ _ fun heq => hother (heq ▸ List.mem_cons_self)
    have hcount : ¬ entryCount (s.pages pid) < overflowMaxEntries := by rw [hpage.count]; exact hroom
    by_cases hlast : post = []
    · -- it is full and the last
      subst hlast
      have hend : nextPage (s.pages pid) = 0 := hpage.next
      obtain ⟨hfresh, hpos, hlt⟩ := allocator.fresh s.used hfile
      set q := allocator.pick s.used with hq
      have hother : ∀ other ∈ s.used, other ≠ q := fun other hmem heq => hfresh (heq ▸ hmem)
      have hgrown : ∀ other ∈ s.used, other ≠ pid →
          (((s.grow q).set q (firstEntryPage rid)).set pid
            (setNextPage (s.pages pid) q)).pages other = s.pages other := by
        intro other hmem hne
        rw [pages_set_of_ne _ _ hne, pages_set_of_ne _ _ (hother other hmem),
          pages_grow_of_ne _ (hother other hmem)]
      have hgrownLive : ∀ other, s.Live other → (((s.grow q).set q (firstEntryPage rid)).set pid
          (setNextPage (s.pages pid) q)).Live other := fun other hlive =>
        ⟨List.mem_cons_of_mem _ hlive.mem, hlive.pos, hlive.lt⟩
      refine ⟨((s.grow q).set q (firstEntryPage rid)).set pid (setNextPage (s.pages pid) q),
        [(pid, rids), (q, [rid])], ?_, ?_, ?_, rfl, ?_⟩
      · simp only [Prog.run_bind, run_pinPage, hfetch, if_neg hcount, if_pos hend, run_allocPage,
          allocate_of_granted allocator grantAll s rfl, ← hq, run_writePage, run_markDirty,
          run_unpinPage, Prog.run_pure]
      · refine h.relink (fun other hmem => ?_) (hgrownLive _ hlive) ?_ ?_
        · have hliveOther := h.live other (by simp [hmem])
          exact ⟨hgrown other hliveOther.mem (h.ne_of_mem (.inl hmem)), hgrownLive _ hliveOther⟩
        · rw [pages_set_self]
          exact hpage.setNext (hlt.trans (by decide))
        · refine ChainHolds.single ⟨List.mem_cons_self, hpos, hlt⟩ ?_
          rw [Chain.head_cons, pages_set_of_ne _ _ (hother pid hlive.mem).symm, pages_set_self]
          exact OverflowPage.first rid
      · show [rids, [rid]] = chainInsert rid [rids]
        rw [chainInsert, if_neg hroom, chainInsert]
      · refine ⟨fun _ hmem _ => List.mem_cons_of_mem _ hmem, fun other hother => ?_,
          fun other hmem hne _ => ?_⟩
        · rcases List.mem_cons.mp hother with rfl | hmem
          · exact .inl List.mem_cons_self
          · obtain rfl := List.mem_singleton.mp hmem
            exact .inr hfresh
        · exact hgrown other hmem fun heq => hne (heq ▸ List.mem_cons_self)
    · -- it is full, and there is one behind it
      have hnext : nextPage (s.pages pid) = Chain.head post := hpage.next
      have hbehind : Chain.head post ≠ 0 := by
        obtain ⟨⟨q, rids'⟩, post', rfl⟩ := List.exists_cons_of_ne_nil hlast
        have hmem : q ∈ Chain.pids (pre ++ (pid, rids) :: (q, rids') :: post') := by simp
        exact (h.live q hmem).pos.ne'
      have hsplit : pre ++ (pid, rids) :: post = (pre ++ [(pid, rids)]) ++ post := by simp
      rw [hsplit] at h
      obtain ⟨s', suf', hrun, hholds, hlists, hhead, hwithin⟩ :=
        ih h hlast (show post.length ≤ fuel by rw [List.length_cons] at hfuel; omega)
      refine ⟨s', (pid, rids) :: suf', ?_, by simpa using hholds, ?_, rfl, ?_⟩
      · simp only [Prog.run_bind, run_pinPage, hfetch, if_neg hcount, hnext, if_neg hbehind,
          run_unpinPage]
        exact hrun
      · rw [Chain.lists_cons, Chain.lists_cons, chainInsert, if_neg hroom, hlists]
      · refine ⟨fun other hused hother => hwithin.kept other hused fun hmem =>
            hother (List.mem_cons_of_mem _ hmem), fun other hother => ?_, fun other hused hother =>
              hwithin.frame other hused fun hmem => hother (List.mem_cons_of_mem _ hmem)⟩
        · rcases List.mem_cons.mp hother with rfl | hmem
          · exact .inl List.mem_cons_self
          · exact (hwithin.fresh other hmem).imp (List.mem_cons_of_mem _) id

/-! ## Reading a chain -/

theorem scanEntries_append {σ : Type} (callback : RecordId → σ → Bool × σ) (a b : List RecordId)
    (acc : σ) : scanEntries callback (a ++ b) acc =
      if (scanEntries callback a acc).1 then scanEntries callback a acc
      else scanEntries callback b (scanEntries callback a acc).2 := by
  induction a generalizing acc with
  | nil => simp [scanEntries]
  | cons rid a ih =>
    rw [List.cons_append, scanEntries, scanEntries]
    split
    · exact ih _
    · rfl

/-- **The loop of a scan** shows the callback the ids of all pages, until it stops. -/
theorem run_scanLoop {σ : Type} (allocator : Allocator) (callback : RecordId → σ → Bool × σ)
    {s : FlatStore} : ∀ {chain : Chain} {head fuel : Nat} (acc : σ),
      ChainHolds s head chain → chain.length ≤ fuel →
        (scanLoop callback fuel (Chain.head chain) acc).run (flatStore allocator grantAll) s =
          ((scanEntries callback (Chain.lists chain).flatten acc).2, s) := by
  intro chain
  induction chain with
  | nil =>
    intro head fuel acc _ _
    cases fuel <;> rfl
  | cons p post ih =>
    intro head fuel acc h hfuel
    obtain ⟨pid, rids⟩ := p
    obtain ⟨fuel, rfl⟩ : ∃ f, fuel = f + 1 := ⟨fuel - 1, by rw [List.length_cons] at hfuel; omega⟩
    obtain ⟨hlive, hpage, -⟩ := h.at_first
    have hfetch : s.fetch pid = some (s.pages pid) := hlive.fetch
    have hnext : nextPage (s.pages pid) = Chain.head post := hpage.next
    have hbehind := ih (scanEntries callback rids acc).2 h.behind_first
      (show post.length ≤ fuel by rw [List.length_cons] at hfuel; omega)
    rw [Chain.head_cons, scanLoop, if_neg hlive.pos.ne']
    simp only [Prog.run_bind, run_pinPage, hfetch, run_unpinPage, hpage.pageEntries_eq, hnext,
      Prog.run_ite, Prog.run_pure]
    rw [Chain.lists_cons, List.flatten_cons, scanEntries_append]
    split
    · rfl
    · exact hbehind

end OnionRelay.Db
