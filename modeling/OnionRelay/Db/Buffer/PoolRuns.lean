import OnionRelay.Db.Buffer.PoolCalls

/-!
# The pool over a run

Pages are pinned, changed, given back, flushed and evicted in any order, and freed on disk behind the
pool's back.  `PoolRun` has the pool beside the flat map of pages it stands for, and each call comes with
what the file does during it.  While no call goes wrong (`Allowed`), the pool and the disk have the pages
of the map: `stands_of_reached`.
-/

namespace OnionRelay.Db

open OnionRelay.Lib DiskManager

inductive PoolCall
  | pin (pid : Nat)
  | unpin (pid : Nat)
  | modify (frame : Nat) (page : PageData) (lsn : UInt64)
  | markDirty (pid : Nat) (lsn : UInt64)
  | alloc
  | flush (pid : Nat)
  | flushAll
  | free (pid : Nat)

/-- The pool, and the pages as its users see them. -/
structure PoolRun where
  pool : BufferPool
  view : PageView

namespace PoolRun

/-- A call, and what the file does during it. -/
def step (s : PoolRun) : PoolCall × DiskIo → PoolRun
  | (.pin pid, io) =>
    let (found, pool) := s.pool.pin io pid
    ⟨pool, if found = none then s.view else s.view.pin pid⟩
  | (.unpin pid, _) => ⟨s.pool.unpin pid, s.view.unpin pid⟩
  | (.modify frame page lsn, _) => ⟨s.pool.modify frame page lsn, s.view.write (s.pool.pageIds frame) page⟩
  | (.markDirty pid lsn, _) => ⟨s.pool.markDirty pid lsn, s.view⟩
  | (.alloc, io) =>
    match s.pool.allocPage io with
    | (some (pid, _), pool) => ⟨pool, (s.view.grow pid).pin pid⟩
    | (none, pool) => ⟨pool, s.view⟩
  | (.flush pid, io) => ⟨(s.pool.flush io pid).2, s.view⟩
  | (.flushAll, io) => ⟨(s.pool.flushAll io).2, s.view⟩
  | (.free pid, io) =>
    let (err, pool) := s.pool.freeOnDisk io pid
    ⟨pool, if err = .ok then s.view.drop pid else s.view⟩

/-- What a call may assume: pages in use are pinned, at most 255 times each, or the pin fails; pinned pages
are changed; pages are freed that are in use and not pinned.  And it does not go wrong. -/
def Allowed (s : PoolRun) : PoolCall × DiskIo → Prop
  | (.pin pid, io) => ¬ s.pool.ReadFailsAfterEviction io pid ∧
      (pid ∈ s.view.store.used ∧ s.view.pins pid < 255 ∨ (s.pool.pin io pid).1 = none)
  | (.modify frame _ _, _) => frame < s.pool.poolSize ∧ 0 < s.view.pins (s.pool.pageIds frame)
  | (.markDirty pid _, _) => pid ∈ s.view.store.used ∨ s.pool.lookup pid = none
  | (.alloc, io) => io.Whole ∧ ¬ s.pool.HandsOutHeld io
  | (.free pid, io) => io.Whole ∧ pid ∈ s.view.store.used ∧ s.view.pins pid = 0 ∧
      ∀ f < s.pool.poolSize, s.pool.pageIds f = pid → (s.pool.frames f).dirty = false
  | _ => True

/-- `buffer_pool_init` on a file whose users hold `allocated`. -/
def start (disk : DiskManager) (poolSize hashSize : Nat) (allocated : List Nat) : PoolRun :=
  ⟨BufferPool.init disk poolSize hashSize, ⟨⟨disk.pages, allocated, 0⟩, fun _ => 0⟩⟩

/-- No update is lost: a pin returns the content of its page, and a flush of all frames puts all pages on
disk. -/
def Faithful (s : PoolRun) : Prop :=
  (∀ io, ∀ pid ∈ s.view.store.used, ∀ f, (s.pool.pin io pid).1 = some f →
    ((s.pool.pin io pid).2.frames f).page = s.view.store.pages pid) ∧
  ∀ io, (s.pool.flushAll io).1 = .ok →
    ∀ pid ∈ s.view.store.used, (s.pool.flushAll io).2.disk.pages pid = s.view.store.pages pid

variable {s : PoolRun} {input : PoolCall × DiskIo}

theorem faithful_of_stands (h : s.pool.Stands s.view) : s.Faithful :=
  ⟨fun _ _ hpid _ hfound => (h.pin_found hpid hfound).page, fun io hok => (h.flushAll io).2.2 hok⟩

theorem stands_start {disk : DiskManager} {poolSize hashSize : Nat} {allocated : List Nat} (hpos : 1 ≤ poolSize)
    (hhash : 2 * poolSize ≤ hashSize) (hlive : disk.Live allocated) (hroom : disk.totalPages + dbExtendPages < 2 ^ 32) :
    (start disk poolSize hashSize allocated).pool.Stands (start disk poolSize hashSize allocated).view where
  mapped := ⟨[], hpos, hhash, PageTable.indexes_start hashSize, fun pid f => by
    constructor
    · intro hmem
      cases hmem
    · rintro ⟨-, -, hheld, hpid⟩
      exact absurd hheld.symm hpid⟩
  hand := hpos
  live := hlive
  room := hroom
  page f _ _ hused := absurd hused hlive.zero_notMem
  disk _ _ _ := rfl
  clean _ _ _ _ := rfl
  count _ _ _ := rfl
  pinned _ hpos := absurd hpos (Nat.lt_irrefl 0)

/-- What one call does: the pool has the pages again, and at most one frame has another page, which is in
use. -/
structure Stepped (s s' : PoolRun) : Prop where
  stands : s'.pool.Stands s'.view
  taken : ∃ f, s.pool.Taken s.view f s'.pool ∧
    (s'.pool.pageIds f = s.pool.pageIds f ∨ s'.pool.pageIds f ∈ s'.view.store.used)

theorem stepped_of_same {s' : PoolRun} (hstands : s'.pool.Stands s'.view) (hsize : s'.pool.poolSize = s.pool.poolSize)
    (hids : s'.pool.pageIds = s.pool.pageIds) : s.Stepped s' :=
  ⟨hstands, 0, ⟨hsize, fun g _ => congrFun hids g, .inl (congrFun hids 0)⟩, .inl (congrFun hids 0)⟩

/-- **One call** keeps the pages, if it does not go wrong. -/
theorem stepped_step (h : s.pool.Stands s.view) (hok : s.Allowed input) : s.Stepped (s.step input) := by
  obtain ⟨call, io⟩ := input
  cases call with
  | pin pid =>
    obtain ⟨hread, hpid⟩ := hok
    rw [step]
    dsimp only
    cases hfound : (s.pool.pin io pid).1 with
    | none =>
      obtain ⟨hstands, hquiet⟩ := h.pin_failed hread hfound
      exact stepped_of_same hstands hquiet.poolSize hquiet.pageIds
    | some f =>
      rw [hfound, or_iff_left (Option.some_ne_none f)] at hpid
      have hpinned := h.pin_found hpid.1 hfound
      refine ⟨hpinned.stands hpid.2, f, hpinned.taken, .inr ?_⟩
      exact (congrArg (· ∈ s.view.store.used) hpinned.pageId).mpr hpid.1
  | unpin pid =>
    obtain ⟨hstands, hquiet⟩ := h.unpin pid
    exact stepped_of_same hstands hquiet.poolSize hquiet.pageIds
  | modify f page lsn =>
    obtain ⟨hstands, hquiet⟩ := h.modify hok.1 hok.2 page lsn
    exact stepped_of_same hstands hquiet.poolSize hquiet.pageIds
  | markDirty pid lsn =>
    obtain ⟨hstands, hquiet⟩ := h.markDirty lsn hok
    exact stepped_of_same hstands hquiet.poolSize hquiet.pageIds
  | alloc =>
    obtain ⟨hio, hheld⟩ := hok
    rw [step]
    cases halloc : s.pool.allocPage io with
    | mk found pool =>
      cases found with
      | none =>
        obtain ⟨hstands, hsize, hids⟩ := h.allocPage_failed hio (congrArg Prod.fst halloc)
        rw [halloc] at hstands hsize hids
        exact stepped_of_same hstands hsize hids
      | some page =>
        obtain ⟨pid, f⟩ := page
        have hhanded := h.allocPage_handed hio (congrArg Prod.fst halloc)
        rw [halloc] at hhanded
        exact ⟨hhanded.stands hheld, f, hhanded.taken, .inr (hhanded.pageId ▸ List.mem_cons_self)⟩
  | flush pid =>
    obtain ⟨hstands, hquiet⟩ := h.flush io pid
    exact stepped_of_same hstands hquiet.poolSize hquiet.pageIds
  | flushAll =>
    obtain ⟨hstands, hquiet, -⟩ := h.flushAll io
    exact stepped_of_same hstands hquiet.poolSize hquiet.pageIds
  | free pid =>
    obtain ⟨hio, hused, hunpinned, hclean⟩ := hok
    exact stepped_of_same (h.freeOnDisk hio hused hunpinned hclean) rfl rfl

/-- **The simulation**: in every run without a call that goes wrong, the pool and the disk have the pages. -/
theorem stands_of_reached {s₀ : PoolRun} (h₀ : s₀.pool.Stands s₀.view) (h : Reaches step Allowed s₀ s) :
    s.pool.Stands s.view :=
  h.invariant h₀ fun _ _ hs hok => (stepped_step hs hok).stands

/-! ## Without a release -/

/-- The calls when reads succeed and no page is freed. -/
def Plain (s : PoolRun) : PoolCall × DiskIo → Prop
  | (.pin pid, io) => (∀ n, io.read n = true) ∧ pid ∈ s.view.store.used ∧ s.view.pins pid < 255
  | (.modify frame _ _, _) => frame < s.pool.poolSize ∧ 0 < s.view.pins (s.pool.pageIds frame)
  | (.markDirty pid _, _) => pid ∈ s.view.store.used
  | (.alloc, io) => io.Whole
  | (.free _, _) => False
  | _ => True

/-- The frames hold pages in use. -/
def HoldsUsed (s : PoolRun) : Prop :=
  ∀ f < s.pool.poolSize, s.pool.pageIds f ≠ 0 → s.pool.pageIds f ∈ s.view.store.used

theorem allowed_of_plain (h : s.pool.Stands s.view) (hused : s.HoldsUsed) (hok : s.Plain input) : s.Allowed input := by
  obtain ⟨call, io⟩ := input
  cases call with
  | pin pid =>
    obtain ⟨hread, hpid, hpins⟩ := hok
    refine ⟨?_, .inl ⟨hpid, hpins⟩⟩
    rintro ⟨-, -, -, -, hinvalid | hfails⟩
    · refine hinvalid ⟨(h.live.held pid hpid).1, ?_⟩
      rw [(BufferPool.freeFrame_freed io h).writes.total]
      exact (h.live.held pid hpid).2
    · rw [hread] at hfails
      cases hfails
  | unpin pid => trivial
  | modify f page lsn => exact hok
  | markDirty pid lsn => exact .inl hok
  | alloc =>
    refine ⟨hok, ?_⟩
    rintro ⟨hne, victim, -, f, hf, -, hheld⟩
    have hunused := ((h.afterAlloc hok).2 hne).2.1
    exact hunused (hheld ▸ hused f hf (hheld ▸ hne))
  | flush pid => trivial
  | flushAll => trivial
  | free pid => exact hok.elim

theorem used_step (hok : s.Plain input) : s.view.store.used ⊆ (s.step input).view.store.used := by
  obtain ⟨call, io⟩ := input
  cases call with
  | pin pid =>
    rw [step]
    dsimp only
    split <;> exact List.Subset.refl _
  | alloc =>
    rw [step]
    rcases s.pool.allocPage io with ⟨_ | ⟨pid, f⟩, pool⟩
    · exact List.Subset.refl _
    · exact List.subset_cons_self ..
  | free pid => exact hok.elim
  | _ => exact List.Subset.refl _

theorem holdsUsed_step (hused : s.HoldsUsed) (hsub : s.view.store.used ⊆ (s.step input).view.store.used)
    (hstepped : s.Stepped (s.step input)) : (s.step input).HoldsUsed := by
  obtain ⟨f, htaken, hf⟩ := hstepped.taken
  intro g hg hne
  rw [htaken.poolSize] at hg
  have hsame : (s.step input).pool.pageIds g = s.pool.pageIds g →
      (s.step input).pool.pageIds g ∈ (s.step input).view.store.used := fun heq => by
    rw [heq] at hne ⊢
    exact hsub (hused g hg hne)
  by_cases hgf : g = f
  · subst hgf
    exact hf.elim hsame id
  · exact hsame (htaken.others g hgf)

theorem reached_plain {s₀ : PoolRun} (h₀ : s₀.pool.Stands s₀.view) (hused₀ : s₀.HoldsUsed) (h : Reaches step Plain s₀ s) :
    s.pool.Stands s.view ∧ s.HoldsUsed := by
  refine @Reaches.invariant _ _ _ _ _ _ (fun s => s.pool.Stands s.view ∧ s.HoldsUsed) h ⟨h₀, hused₀⟩ ?_
  rintro s input ⟨hs, hused⟩ hok
  have hstepped := stepped_step hs (allowed_of_plain hs hused hok)
  exact ⟨hstepped.stands, holdsUsed_step hused (used_step hok) hstepped⟩

/-- **The pool stands for a flat map of pages.**  Pins return what was written last, also after an eviction,
a pinned page stays in its frame, the table has exactly the frames with a page, an allocation returns an
empty page that was not in use, and after a flush of all frames the disk has every page. -/
theorem pool_refines_flatMap {disk : DiskManager} {poolSize hashSize : Nat} {allocated : List Nat} (hpos : 1 ≤ poolSize)
    (hhash : 2 * poolSize ≤ hashSize) (hlive : disk.Live allocated) (hroom : disk.totalPages + dbExtendPages < 2 ^ 32)
    (h : Reaches step Plain (start disk poolSize hashSize allocated) s) :
    s.Faithful ∧ s.pool.Consistent ∧ (∀ input, s.Plain input → s.pool.Keeps s.view (s.step input).pool) ∧
      (∀ pid, 0 < s.view.pins pid → ∃ f, s.pool.lookup pid = some f) ∧
      ∀ io : DiskIo, io.Whole → ∀ pid f, (s.pool.allocPage io).1 = some (pid, f) →
        pid ∉ s.view.store.used ∧ ((s.pool.allocPage io).2.frames f).page = zeroPage := by
  have hempty : (start disk poolSize hashSize allocated).HoldsUsed := fun _ _ hne => absurd rfl hne
  obtain ⟨hstands, hused⟩ := reached_plain (stands_start hpos hhash hlive hroom) hempty h
  refine ⟨faithful_of_stands hstands, hstands.consistent, fun input hok => ?_, fun pid hpinned => ?_,
    fun io hio pid f hsome => ?_⟩
  · obtain ⟨f, htaken, -⟩ := (stepped_step hstands (allowed_of_plain hstands hused hok)).taken
    exact htaken.keeps
  · obtain ⟨hmem, f, hf, -, hheld⟩ := hstands.pinned pid hpinned
    exact ⟨f, (hstands.lookup_eq_some fun hzero => hstands.live.zero_notMem (hzero ▸ hmem)).mpr ⟨hf, hheld⟩⟩
  · have hhanded := hstands.allocPage_handed hio hsome
    exact ⟨hhanded.unused, hhanded.page⟩

/-- A pool of one frame on a file with the page 1. -/
def oneFrame : PoolRun := start twoPages 1 2 [1]

theorem live_twoPages : twoPages.Live [1] where
  sound := ⟨[], sound_empty rfl rfl⟩
  held pid hpid := by
    obtain rfl := List.mem_singleton.mp hpid
    decide
  pos := by decide
  bound := by decide

/-- Page 1 is pinned. -/
def onePinned : PoolRun := oneFrame.step (.pin 1, .good)

theorem onePinned_refines : onePinned.Faithful ∧ onePinned.pool.Consistent ∧ onePinned.view.pins 1 = 1 :=
  have hreached : Reaches step Plain oneFrame onePinned :=
    Reaches.start.next ⟨fun _ => rfl, List.mem_singleton_self 1, by decide⟩
  have hrefines := pool_refines_flatMap (by decide) (by decide) live_twoPages (by decide) hreached
  ⟨hrefines.1, hrefines.2.1, by decide⟩

/-! ## A pin that fails -/

/-- **A pin that fails does no harm**, unless its read failed after an eviction: then the frame has a page that
the table does not have. -/
theorem pin_harmless_iff {pool : BufferPool} {view : PageView} (h : pool.Stands view) {io : DiskIo} {pid : Nat}
    (hfail : (pool.pin io pid).1 = none) :
    ((pool.pin io pid).2.Consistent ∧ ∀ s, Reaches step Allowed ⟨(pool.pin io pid).2, view⟩ s → s.Faithful) ↔
      ¬ pool.ReadFailsAfterEviction io pid := by
  constructor
  · rintro ⟨⟨htable, -⟩, -⟩ ⟨hpid, hlookup, hempty, hfound, hfails⟩
    obtain ⟨victim, hvictim⟩ := Option.ne_none_iff_exists'.mp hfound
    have hfreed := BufferPool.freeFrame_freed io h
    obtain ⟨hlt, -, hstands⟩ := hfreed.found victim hvictim
    rw [BufferPool.pin_of_fails hpid hlookup hvictim hfails] at htable
    have hheld : (pool.freeFrame io).2.pageIds victim ≠ 0 := by
      rw [hfreed.steady.pageIds]
      intro hzero
      have hnone := List.find?_eq_none.mp hempty victim (List.mem_range.mpr hlt)
      exact hnone (decide_eq_true hzero)
    have hfind : (pool.freeFrame io).2.lookup ((pool.freeFrame io).2.pageIds victim) = some victim :=
      (htable _ hheld victim).mpr ⟨hfreed.steady.poolSize ▸ hlt, rfl⟩
    obtain ⟨mapped, hmapped⟩ := hstands.mapped
    exact (hmapped.lookup_eq_some.mp hfind).2.1 rfl
  · intro hread
    obtain ⟨hstands, -⟩ := h.pin_failed hread hfail
    exact ⟨hstands.consistent, fun s hs => faithful_of_stands (stands_of_reached hstands hs)⟩

/-- The only page of the file is in the only frame, and no page 2 can be read. -/
theorem pin_unmaps :
    ((onePinned.step (.unpin 1, .good)).pool.pin .good 2).1 = none ∧
      ¬ ((onePinned.step (.unpin 1, .good)).pool.pin .good 2).2.Consistent := by
  refine ⟨by decide, fun h => ?_⟩
  have hlookup : ((onePinned.step (.unpin 1, .good)).pool.pin .good 2).2.lookup 1 = some 0 :=
    (h.1 1 (by decide) 0).mpr (by decide)
  revert hlookup
  decide

/-- While a frame is empty, a pin of page 2 does no harm. -/
theorem pin_harmless_iff_empty :
    (oneFrame.pool.pin .good 2).2.Consistent ∧
      ∀ s, Reaches step Allowed ⟨(oneFrame.pool.pin .good 2).2, oneFrame.view⟩ s → s.Faithful :=
  (pin_harmless_iff (stands_start (by decide) (by decide) live_twoPages (by decide)) (by decide)).mpr
    fun hbad => absurd hbad.2.2.1 (by decide)

/-! ## Releases behind the pool's back -/

/-- The calls that neither allocate nor free a page. -/
def Inside : PoolCall → Prop
  | .alloc => False
  | .free _ => False
  | _ => True

/-- Flushes and evictions write pages in use. -/
theorem writesOnly_step (h : s.pool.Stands s.view) (hok : s.Allowed input) (hinside : Inside input.1) :
    (s.step input).view.store.used = s.view.store.used ∧
      WritesOnly s.view.store.used s.pool.disk (s.step input).pool.disk := by
  obtain ⟨call, io⟩ := input
  cases call with
  | pin pid =>
    obtain ⟨hread, hpid⟩ := hok
    rw [step]
    dsimp only
    cases hfound : (s.pool.pin io pid).1 with
    | none => exact ⟨rfl, (h.pin_failed hread hfound).2.writes⟩
    | some f =>
      rw [hfound, or_iff_left (Option.some_ne_none f)] at hpid
      exact ⟨rfl, (h.pin_found hpid.1 hfound).writes⟩
  | unpin pid => exact ⟨rfl, (h.unpin pid).2.writes⟩
  | modify f page lsn => exact ⟨rfl, (h.modify hok.1 hok.2 page lsn).2.writes⟩
  | markDirty pid lsn => exact ⟨rfl, (h.markDirty lsn hok).2.writes⟩
  | alloc => exact hinside.elim
  | flush pid => exact ⟨rfl, (h.flush io pid).2.writes⟩
  | flushAll => exact ⟨rfl, (h.flushAll io).2.1.writes⟩
  | free pid => exact hinside.elim

/-- **Pages may be freed on disk** of which no frame has a change, and handed out again when no other frame
holds them.  Then no page is in two frames, the free list is sound and no flush or eviction changes it, and a
page that is handed out again is empty first and then has its newest content. -/
theorem released_of_allowed {disk : DiskManager} {poolSize hashSize : Nat} {allocated : List Nat} (hpos : 1 ≤ poolSize)
    (hhash : 2 * poolSize ≤ hashSize) (hlive : disk.Live allocated) (hroom : disk.totalPages + dbExtendPages < 2 ^ 32)
    (h : Reaches step Allowed (start disk poolSize hashSize allocated) s) :
    s.pool.Consistent ∧ (∃ list, s.pool.disk.Sound s.view.store.used list ∧ list.Nodup) ∧
      (∀ input, s.Allowed input → Inside input.1 → ∀ list, s.pool.disk.Sound s.view.store.used list →
        (s.step input).pool.disk.Sound (s.step input).view.store.used list) ∧
      (∀ io : DiskIo, io.Whole → ∀ pid f, (s.pool.allocPage io).1 = some (pid, f) →
        pid ∉ s.view.store.used ∧ ((s.pool.allocPage io).2.frames f).page = zeroPage) ∧ s.Faithful := by
  have hstands := stands_of_reached (stands_start hpos hhash hlive hroom) h
  refine ⟨hstands.consistent, ?_, fun input hok hinside list hlist => ?_, fun io hio pid f hsome => ?_,
    faithful_of_stands hstands⟩
  · obtain ⟨list, hlist⟩ := hstands.live.sound
    exact ⟨list, hlist, hlist.linked.nodup⟩
  · obtain ⟨hused, hwrites⟩ := writesOnly_step hstands hok hinside
    rw [hused]
    exact hwrites.sound hlist
  · have hhanded := hstands.allocPage_handed hio hsome
    exact ⟨hhanded.unused, hhanded.page⟩

/-- Page 1 is freed while it is clean. -/
def cleanFreed : PoolRun := (onePinned.step (.unpin 1, .good)).step (.free 1, .good)

theorem cleanFreed_released :
    cleanFreed.pool.Consistent ∧ (∃ list, cleanFreed.pool.disk.Sound cleanFreed.view.store.used list ∧ list.Nodup) ∧
      cleanFreed.Faithful := by
  have hpinned : Reaches step Allowed oneFrame onePinned :=
    Reaches.start.next ⟨fun hbad => absurd hbad.2.2.1 (by decide), .inl (by decide)⟩
  have hunpinned : Reaches step Allowed oneFrame (onePinned.step (.unpin 1, .good)) := hpinned.next trivial
  have hfreed : Reaches step Allowed oneFrame cleanFreed :=
    hunpinned.next ⟨fun _ _ h => (nomatch h), by decide, by decide, by decide⟩
  have hreleased := released_of_allowed (by decide) (by decide) live_twoPages (by decide) hfreed
  exact ⟨hreleased.1, hreleased.2.1, hreleased.2.2.2.2⟩

/-- A list that ends at its head has one page. -/
theorem not_sound_of_cut {dm : DiskManager} {used : List Nat} (hhead : dm.freeListHead ≠ 0)
    (hlink : dm.next dm.freeListHead = 0) (hcount : dm.freePageCount ≠ 1) : ¬ ∃ list, dm.Sound used list := by
  rintro ⟨list, hlist⟩
  obtain ⟨rest, rfl⟩ := hlist.linked.ne_nil hhead
  have htail := hlist.linked.tail
  rw [hlink] at htail
  have hlength := hlist.count
  rw [htail.eq_nil] at hlength
  exact hcount hlength.symm

/-- A file of three pages, of which 1 and 2 are free. -/
def twoFree : DiskManager := ⟨3, 1, 2, Function.update (fun _ => zeroPage) 1 (freePageEntry 2), 0⟩

/-- A page is allocated, and flushed or not, and given back. -/
def allocated (calls : List PoolCall) : PoolRun :=
  calls.foldl (fun s call => s.step (call, .good)) (start twoFree 2 5 [])

/-- Page 1 is in use and not pinned when it is freed, but its frame is dirty.  Allocated again, the page is in
two frames; a flush writes over its link in the free list. -/
theorem free_dirty_damages :
    (1 ∈ (allocated [.alloc, .unpin 1]).view.store.used ∧ (allocated [.alloc, .unpin 1]).view.pins 1 = 0) ∧
      ¬ (allocated [.alloc, .unpin 1, .free 1, .alloc]).pool.Consistent ∧
      ¬ ∃ list, (allocated [.alloc, .unpin 1, .free 1, .flushAll]).pool.disk.Sound
        (allocated [.alloc, .unpin 1, .free 1, .flushAll]).view.store.used list := by
  refine ⟨by decide, fun h => ?_, ?_⟩
  · have hsame : 0 = 1 := h.2 0 (by decide) 1 (by decide) (by decide) (by decide)
    cases hsame
  · exact not_sound_of_cut (by decide) (by decide) (by decide)

end PoolRun

end OnionRelay.Db
