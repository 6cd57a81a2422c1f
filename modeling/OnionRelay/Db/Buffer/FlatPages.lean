import OnionRelay.Db.Buffer.Clock
import OnionRelay.Db.Buffer.Mapped
import OnionRelay.Db.FreeList

/-!
# What the pool stands for

The users of the pool see pages with contents, some of them pinned: a `PageView`.  `Reflects` says where
the contents are.  A page in use is in its frame if it has one, and on disk if no frame holds it dirty.
A frame whose page is not in use any more is clean and not pinned.

Each function of the pool keeps this.  The one exception is a pin whose read fails after it took a frame
away from another page (`ReadFailsAfterEviction`).
-/

namespace OnionRelay.Db

open OnionRelay.Lib

/-! ## The disk below the pool -/

namespace DiskManager

/-- Between the two only pages in use were written. -/
structure WritesOnly (used : List Nat) (dm dm' : DiskManager) : Prop where
  head : dm'.freeListHead = dm.freeListHead
  count : dm'.freePageCount = dm.freePageCount
  total : dm'.totalPages = dm.totalPages
  pages : ∀ pid ∉ used, dm'.pages pid = dm.pages pid

section

variable {io : DiskIo} {dm dm' dm'' : DiskManager} {used list : List Nat} {pid : Nat}

theorem WritesOnly.refl (used : List Nat) (dm : DiskManager) : WritesOnly used dm dm := ⟨rfl, rfl, rfl, fun _ _ => rfl⟩

theorem WritesOnly.trans (h : WritesOnly used dm dm') (h' : WritesOnly used dm' dm'') : WritesOnly used dm dm'' :=
  ⟨h'.head.trans h.head, h'.count.trans h.count, h'.total.trans h.total,
    fun pid hpid => (h'.pages pid hpid).trans (h.pages pid hpid)⟩

/-- The free list stays as it is. -/
theorem WritesOnly.sound (h : WritesOnly used dm dm') (hlist : dm.Sound used list) : dm'.Sound used list :=
  hlist.congr h.head h.count h.total fun pid hpid => h.pages pid (hlist.disjoint pid hpid)

theorem WritesOnly.live {allocated : List Nat} (h : WritesOnly used dm dm') (hsub : used ⊆ allocated)
    (hlive : dm.Live allocated) : dm'.Live allocated :=
  hlive.congr h.head h.count h.total fun pid _ hpid => h.pages pid fun hused => hpid (hsub hused)

theorem writesOnly_called : WritesOnly used dm dm.called := ⟨rfl, rfl, rfl, fun _ _ => rfl⟩

theorem writesOnly_put (hpid : pid ∈ used) (page : PageData) : WritesOnly used dm (dm.put pid page) :=
  ⟨rfl, rfl, rfl, fun other hother => by
    have hne : other ≠ pid := fun heq => hother (heq ▸ hpid)
    rw [pages_put, Function.update_of_ne hne]⟩

theorem Live.tail (h : dm.Live (pid :: used)) : dm.Live used where
  sound := by
    obtain ⟨list, hlist⟩ := h.sound
    exact ⟨list, hlist.linked, hlist.range, hlist.count, fun other hother hused =>
      hlist.disjoint other hother (List.mem_cons_of_mem pid hused)⟩
  held other hother := h.held other (List.mem_cons_of_mem pid hother)
  pos := h.pos
  bound := h.bound

/-- Page 0 is the header. -/
theorem Live.zero_notMem (h : dm.Live used) : 0 ∉ used := fun hzero => Nat.lt_irrefl 0 (h.held 0 hzero).1

/-! What an allocation and a release leave. -/

theorem extend_kept (hio : io.Whole) (hroom : dm.totalPages + dbExtendPages < 2 ^ 32) :
    (dm.extend io dbExtendPages).2.totalPages + dbExtendPages < 2 ^ 32 ∧
      ∀ pid, dm.Valid pid → (dm.extend io dbExtendPages).2.pages pid = dm.pages pid := by
  obtain ⟨-, -, htotal, hpages⟩ := chainFree_fields hio (dm.totalPages + dbExtendPages)
    (List.range' dm.totalPages dbExtendPages) dm.called
  have hsame : ∀ pid, dm.Valid pid → (chainFree io (dm.totalPages + dbExtendPages)
      (List.range' dm.totalPages dbExtendPages) dm.called).2.pages pid = dm.pages pid := fun pid hvalid =>
    hpages pid fun hmem => absurd hvalid.2 (Nat.not_lt.mpr (List.mem_range'_1.mp hmem).1)
  rw [extend, Nat.mod_eq_of_lt hroom, Nat.add_sub_cancel_left, if_neg (by decide)]
  split
  · exact ⟨hroom, fun _ _ => rfl⟩
  rename_i hmax
  split
  · split
    · rename_i pages hdone
      rw [hdone] at hsame
      refine ⟨?_, hsame⟩
      have hlimit : dm.totalPages + dbExtendPages ≤ dbMaxPages := Nat.not_lt.mp hmax
      have hmaxPages : dbMaxPages + dbExtendPages < 2 ^ 32 := by decide
      exact Nat.lt_of_le_of_lt (Nat.add_le_add_right hlimit _) hmaxPages
    · rename_i pages hdone
      rw [hdone] at hsame htotal
      exact ⟨by rw [htotal]; exact hroom, hsame⟩
  · exact ⟨hroom, fun _ _ => rfl⟩

theorem totalPages_popped (dm : DiskManager) : dm.popped.totalPages = dm.totalPages := rfl

theorem pages_popped (dm : DiskManager) : dm.popped.pages = dm.pages := rfl

theorem popFree_kept (hio : io.Whole) (dm : DiskManager) :
    (dm.popFree io).2.totalPages = dm.totalPages ∧
      ∀ pid ≠ dm.freeListHead, (dm.popFree io).2.pages pid = dm.pages pid := by
  rw [popFree]
  split
  · rcases pwritePage_or hio dm.popped dm.freeListHead zeroPage with hw | hw
    · rw [hw]
      dsimp only
      refine ⟨totalPages_popped dm, fun pid hpid => ?_⟩
      rw [pages_put, Function.update_of_ne hpid, pages_popped]
    · rw [hw]
      dsimp only
      refine ⟨totalPages_popped dm, fun pid hpid => ?_⟩
      rw [pages_called, pages_popped]
  · exact ⟨totalPages_called dm, fun pid _ => congrFun (pages_called dm) pid⟩

theorem Live.head_notMem (h : dm.Live used) (hhead : dm.freeListHead ≠ 0) : dm.freeListHead ∉ used := by
  obtain ⟨list, hlist⟩ := h.sound
  obtain ⟨rest, rfl⟩ := hlist.linked.ne_nil hhead
  exact hlist.disjoint _ List.mem_cons_self

/-- **An allocation** changes no page in use. -/
theorem allocPage_kept (hio : io.Whole) (h : dm.Live used) (hroom : dm.totalPages + dbExtendPages < 2 ^ 32) :
    (dm.allocPage io).2.totalPages + dbExtendPages < 2 ^ 32 ∧
      ∀ pid ∈ used, (dm.allocPage io).2.pages pid = dm.pages pid := by
  by_cases hhead : dm.freeListHead = 0
  · obtain ⟨hlive, hne⟩ := live_extend hio h hroom
    obtain ⟨hlarger, hsame⟩ := extend_kept hio hroom
    by_cases hok : (dm.extend io dbExtendPages).1 = .ok
    · obtain ⟨htotal, hpages⟩ := popFree_kept hio (dm.extend io dbExtendPages).2
      rw [allocPage_of_extend hhead hok, htotal]
      refine ⟨hlarger, fun pid hpid => (hpages pid ?_).trans (hsame pid (h.held pid hpid))⟩
      rintro rfl
      exact hlive.head_notMem (hne hok) hpid
    · rw [allocPage_of_failed hhead hok]
      exact ⟨hlarger, fun pid hpid => hsame pid (h.held pid hpid)⟩
  · obtain ⟨htotal, hpages⟩ := popFree_kept hio dm
    rw [allocPage_of_ne hhead, htotal]
    refine ⟨hroom, fun pid hpid => hpages pid ?_⟩
    rintro rfl
    exact h.head_notMem hhead hpid

/-- A release writes the page that is released. -/
theorem freePage_kept (io : DiskIo) (dm : DiskManager) (pid : Nat) :
    (dm.freePage io pid).2.totalPages = dm.totalPages ∧
      ∀ other ≠ pid, (dm.freePage io pid).2.pages other = dm.pages other := by
  rw [freePage]
  split
  · rw [pwritePage]
    cases io.write dm.calls with
    | none => exact ⟨rfl, fun other hother => Function.update_of_ne hother ..⟩
    | some n => exact ⟨rfl, fun other hother => Function.update_of_ne hother ..⟩
  · exact ⟨rfl, fun _ _ => rfl⟩

theorem pages_freePage_of_failed (hio : io.Whole) (hfail : (dm.freePage io pid).1 ≠ .ok) :
    (dm.freePage io pid).2.pages = dm.pages := by
  rw [freePage] at hfail ⊢
  split
  · rename_i hvalid
    rw [if_pos hvalid] at hfail
    rcases pwritePage_or hio dm pid (freePageEntry dm.freeListHead) with hw | hw
    · rw [hw] at hfail
      exact absurd rfl hfail
    · rw [hw, pages_called]
  · rfl

end

end DiskManager

open DiskManager

/-- The pages as the users of the pool see them, and how often they have pinned each. -/
structure PageView where
  store : FlatStore
  pins : Nat → Nat

namespace PageView

def setPins (view : PageView) (pid n : Nat) : PageView := { view with pins := Function.update view.pins pid n }

def pin (view : PageView) (pid : Nat) : PageView := view.setPins pid (view.pins pid + 1)

def unpin (view : PageView) (pid : Nat) : PageView := view.setPins pid (view.pins pid - 1)

def write (view : PageView) (pid : Nat) (page : PageData) : PageView := { view with store := view.store.set pid page }

/-- A page is handed out. -/
def grow (view : PageView) (pid : Nat) : PageView := { view with store := view.store.grow pid }

/-- A page is given back. -/
def drop (view : PageView) (pid : Nat) : PageView :=
  { view with store := { view.store with used := view.store.used.filter (· ≠ pid) } }

end PageView

namespace BufferPool

/-! ## What stays -/

/-- Between the two no page left its frame. -/
structure Steady (pool pool' : BufferPool) : Prop where
  poolSize : pool'.poolSize = pool.poolSize
  pageIds : pool'.pageIds = pool.pageIds
  pinCount : ∀ f, (pool'.frames f).pinCount = (pool.frames f).pinCount
  page : ∀ f, (pool'.frames f).page = (pool.frames f).page

/-- Only the hand and reference bits changed. -/
structure Alike (pool pool' : BufferPool) : Prop extends Steady pool pool' where
  table : pool'.table = pool.table
  disk : pool'.disk = pool.disk
  dirty : ∀ f, (pool'.frames f).dirty = (pool.frames f).dirty

section

variable {pool pool' pool'' : BufferPool} {io : DiskIo}

theorem Steady.refl (pool : BufferPool) : pool.Steady pool := ⟨rfl, rfl, fun _ => rfl, fun _ => rfl⟩

theorem Steady.trans (h : pool.Steady pool') (h' : pool'.Steady pool'') : pool.Steady pool'' :=
  ⟨h'.poolSize.trans h.poolSize, h'.pageIds.trans h.pageIds, fun f => (h'.pinCount f).trans (h.pinCount f),
    fun f => (h'.page f).trans (h.page f)⟩

theorem Alike.refl (pool : BufferPool) : pool.Alike pool := ⟨Steady.refl pool, rfl, rfl, fun _ => rfl⟩

theorem Alike.trans (h : pool.Alike pool') (h' : pool'.Alike pool'') : pool.Alike pool'' :=
  ⟨h.toSteady.trans h'.toSteady, h'.table.trans h.table, h'.disk.trans h.disk, fun f => (h'.dirty f).trans (h.dirty f)⟩

theorem frames_setFrame_self (pool : BufferPool) (f : Nat) (contents : Frame) :
    (pool.setFrame f contents).frames f = contents := Function.update_self ..

theorem frames_setFrame_of_ne {f g : Nat} (h : g ≠ f) (contents : Frame) :
    (pool.setFrame f contents).frames g = pool.frames g := Function.update_of_ne h ..

theorem pageIds_setFrame {f : Nat} {contents : Frame} (h : contents.pageId = pool.pageIds f) :
    (pool.setFrame f contents).pageIds = pool.pageIds := by
  funext g
  by_cases hgf : g = f
  · rw [hgf]
    exact (congrArg Frame.pageId (frames_setFrame_self pool f contents)).trans h
  · exact congrArg Frame.pageId (frames_setFrame_of_ne hgf contents)

/-- A frame is replaced, and its page stays. -/
theorem steady_setFrame {f : Nat} {contents : Frame} (hpageId : contents.pageId = pool.pageIds f)
    (hcount : contents.pinCount = (pool.frames f).pinCount) (hpage : contents.page = (pool.frames f).page) :
    pool.Steady (pool.setFrame f contents) where
  poolSize := rfl
  pageIds := pageIds_setFrame hpageId
  pinCount g := by
    by_cases hg : g = f
    · rw [hg, frames_setFrame_self, hcount]
    · rw [frames_setFrame_of_ne hg]
  page g := by
    by_cases hg : g = f
    · rw [hg, frames_setFrame_self, hpage]
    · rw [frames_setFrame_of_ne hg]

theorem alike_moveHand (hand : Nat) : pool.Alike { pool with clockHand := hand } :=
  ⟨⟨rfl, rfl, fun _ => rfl, fun _ => rfl⟩, rfl, rfl, fun _ => rfl⟩

theorem alike_clearRefBit (f : Nat) : pool.Alike (pool.setFrame f { pool.frames f with refBit := false }) where
  toSteady := steady_setFrame rfl rfl rfl
  table := rfl
  disk := rfl
  dirty g := by
    by_cases hg : g = f
    · rw [hg, frames_setFrame_self]
    · rw [frames_setFrame_of_ne hg]

/-- **The clock** finds a frame that is not pinned. -/
theorem clockFrom_alike (hhand : pool.clockHand < pool.poolSize) (scans : Nat) :
    pool.Alike (clockFrom scans pool).2 ∧ (clockFrom scans pool).2.clockHand < pool.poolSize ∧
      ∀ victim, (clockFrom scans pool).1 = some victim → victim < pool.poolSize ∧ pool.Unpinned victim := by
  induction scans generalizing pool with
  | zero => exact ⟨Alike.refl pool, hhand, fun _ h => nomatch h⟩
  | succ scans ih =>
    have hnext : (pool.clockHand + 1) % pool.poolSize < pool.poolSize :=
      Nat.mod_lt _ (Nat.lt_of_le_of_lt (Nat.zero_le _) hhand)
    have hmove := @alike_moveHand pool ((pool.clockHand + 1) % pool.poolSize)
    rw [clockFrom]
    dsimp only
    split
    · obtain ⟨hsame, hlt, hvictim⟩ := @ih { pool with clockHand := (pool.clockHand + 1) % pool.poolSize } hnext
      exact ⟨hmove.trans hsame, hlt, hvictim⟩
    rename_i hcount
    split
    · have halike := hmove.trans (alike_clearRefBit pool.clockHand)
      obtain ⟨hsame, hlt, hvictim⟩ := @ih (setFrame { pool with clockHand := (pool.clockHand + 1) % pool.poolSize }
        pool.clockHand { pool.frames pool.clockHand with refBit := false }) hnext
      refine ⟨halike.trans hsame, hlt, fun victim hsome => ?_⟩
      obtain ⟨hinside, hunpinned⟩ := hvictim victim hsome
      exact ⟨hinside, (halike.pinCount victim).symm.trans hunpinned⟩
    · refine ⟨hmove, hnext, fun victim hsome => ?_⟩
      obtain rfl := Option.some.inj hsome
      exact ⟨hhand, unpinned_of_not_pos hcount⟩

end

/-! ## What is reflected -/

/-- The pool has the pages of its users, in the frames that are `known` and on disk. -/
structure Reflects (pool : BufferPool) (known : Nat → Prop) (view : PageView) : Prop where
  mapped : ∃ mapped, pool.Mapped known mapped
  hand : pool.clockHand < pool.poolSize
  live : pool.disk.Live view.store.used
  room : pool.disk.totalPages + dbExtendPages < 2 ^ 32
  page : ∀ f < pool.poolSize, known f → pool.pageIds f ∈ view.store.used →
    (pool.frames f).page = view.store.pages (pool.pageIds f)
  disk : ∀ pid ∈ view.store.used,
    (∀ f < pool.poolSize, known f → pool.pageIds f = pid → (pool.frames f).dirty = false) →
      pool.disk.pages pid = view.store.pages pid
  clean : ∀ f < pool.poolSize, known f → pool.pageIds f ∉ view.store.used → (pool.frames f).dirty = false
  count : ∀ f < pool.poolSize, known f → (pool.frames f).pinCount.toNat = view.pins (pool.pageIds f)
  pinned : ∀ pid, 0 < view.pins pid → pid ∈ view.store.used ∧ ∃ f < pool.poolSize, known f ∧ pool.pageIds f = pid

/-- Between two calls. -/
abbrev Stands (pool : BufferPool) (view : PageView) : Prop := pool.Reflects (fun _ => True) view

section

variable {pool pool' : BufferPool} {io : DiskIo} {known : Nat → Prop} {view : PageView} {f victim : Nat}

theorem Reflects.congr (h : pool.Reflects known view) (hs : pool.Alike pool') (hhand : pool'.clockHand < pool.poolSize) :
    pool'.Reflects known view where
  mapped := by
    obtain ⟨mapped, hmapped⟩ := h.mapped
    exact ⟨mapped, hmapped.congr hs.poolSize hs.table hs.pageIds⟩
  hand := by
    rw [hs.poolSize]
    exact hhand
  live := hs.disk ▸ h.live
  room := hs.disk ▸ h.room
  page g hg hknown hused := by
    rw [hs.poolSize] at hg
    rw [hs.pageIds] at hused ⊢
    exact (hs.page g).trans (h.page g hg hknown hused)
  disk pid hpid hclean := by
    rw [hs.disk]
    refine h.disk pid hpid fun g hg hknown hheld => ?_
    rw [← hs.dirty g]
    exact hclean g (hs.poolSize ▸ hg) hknown (hs.pageIds ▸ hheld)
  clean g hg hknown hused := by
    rw [hs.poolSize] at hg
    rw [hs.pageIds] at hused
    exact (hs.dirty g).trans (h.clean g hg hknown hused)
  count g hg hknown := by
    rw [hs.poolSize] at hg
    rw [hs.pinCount, hs.pageIds]
    exact h.count g hg hknown
  pinned pid hpid := by
    rw [hs.poolSize, hs.pageIds]
    exact h.pinned pid hpid

/-- The disk may change where no page in use is. -/
theorem Reflects.setDisk (h : pool.Reflects known view) {disk : DiskManager} (hlive : disk.Live view.store.used)
    (hroom : disk.totalPages + dbExtendPages < 2 ^ 32)
    (hpages : ∀ pid ∈ view.store.used, disk.pages pid = pool.disk.pages pid) :
    Reflects { pool with disk := disk } known view where
  mapped := by
    obtain ⟨mapped, hmapped⟩ := h.mapped
    exact ⟨mapped, hmapped.congr rfl rfl rfl⟩
  hand := h.hand
  live := hlive
  room := hroom
  page := h.page
  disk pid hpid hclean := (hpages pid hpid).trans (h.disk pid hpid hclean)
  clean := h.clean
  count := h.count
  pinned := h.pinned

theorem Reflects.pos (h : pool.Reflects known view) : 0 < pool.poolSize := Nat.lt_of_le_of_lt (Nat.zero_le _) h.hand

/-- A dirty frame holds a page in use. -/
theorem Reflects.used_of_dirty (h : pool.Reflects known view) (hf : f < pool.poolSize) (hknown : known f)
    (hdirty : (pool.frames f).dirty = true) : pool.pageIds f ∈ view.store.used := by
  by_contra hused
  rw [h.clean f hf hknown hused] at hdirty
  cases hdirty

/-- A page that is not in use is not pinned. -/
theorem Reflects.pins_of_notMem (h : pool.Reflects known view) {pid : Nat} (hpid : pid ∉ view.store.used) :
    view.pins pid = 0 := by
  by_contra hne
  exact hpid (h.pinned pid (Nat.pos_of_ne_zero hne)).1

/-- **The table finds the frames of all pages.** -/
theorem Reflects.lookup_eq_some (h : pool.Stands view) {pid : Nat} (hpid : pid ≠ 0) :
    pool.lookup pid = some f ↔ f < pool.poolSize ∧ pool.pageIds f = pid := by
  obtain ⟨mapped, hmapped⟩ := h.mapped
  rw [hmapped.lookup_eq_some]
  constructor
  · rintro ⟨hf, -, hheld, -⟩
    exact ⟨hf, hheld⟩
  · rintro ⟨hf, hheld⟩
    exact ⟨hf, trivial, hheld, hpid⟩

/-- No two frames hold one page. -/
theorem Reflects.unique (h : pool.Reflects known view) {g : Nat} (hf : f < pool.poolSize) (hg : g < pool.poolSize)
    (hknownF : known f) (hknownG : known g) (hpage : pool.pageIds f = pool.pageIds g) (hne : pool.pageIds f ≠ 0) :
    f = g := by
  obtain ⟨mapped, hmapped⟩ := h.mapped
  exact hmapped.unique hf hg hknownF hknownG hpage hne

/-- A frame that is not pinned is given up when its page is on disk. -/
theorem Reflects.forget (h : pool.Stands view) (hvictim : victim < pool.poolSize)
    (hunpinned : pool.Unpinned victim) (hclean : (pool.frames victim).dirty = false) {table : PageTable}
    {mapped : List (Nat × Nat)} (hmapped : Mapped { pool with table := table } (· ≠ victim) mapped) :
    Reflects { pool with table := table } (· ≠ victim) view where
  mapped := ⟨mapped, hmapped⟩
  hand := h.hand
  live := h.live
  room := h.room
  page g hg _ hused := h.page g hg trivial hused
  disk pid hpid hrest := by
    refine h.disk pid hpid fun g hg _ hheld => ?_
    by_cases hgv : g = victim
    · rw [hgv]
      exact hclean
    · exact hrest g hg hgv hheld
  clean g hg _ hused := h.clean g hg trivial hused
  count g hg _ := h.count g hg trivial
  pinned pid hpid := by
    obtain ⟨hused, g, hg, -, hheld⟩ := h.pinned pid hpid
    refine ⟨hused, g, hg, ?_, hheld⟩
    rintro rfl
    have hcount := h.count g hg trivial
    rw [hunpinned, show pool.pageIds g = pid from hheld] at hcount
    exact absurd hcount.symm (Nat.ne_of_gt hpid)

/-- **A frame is replaced** and keeps its page id: what it says of its page has to be so. -/
theorem Reflects.setFrame (h : pool.Stands view) (hf : f < pool.poolSize) (hused : pool.pageIds f ∈ view.store.used)
    {contents : Frame} {view' : PageView} (hpageId : contents.pageId = pool.pageIds f)
    (hsame : view'.store.used = view.store.used) (hpage : contents.page = view'.store.pages (pool.pageIds f))
    (hpages : ∀ pid ≠ pool.pageIds f, view'.store.pages pid = view.store.pages pid)
    (hdisk : contents.dirty = false → pool.disk.pages (pool.pageIds f) = view'.store.pages (pool.pageIds f))
    (hcount : contents.pinCount.toNat = view'.pins (pool.pageIds f))
    (hpins : ∀ pid ≠ pool.pageIds f, view'.pins pid = view.pins pid) :
    (pool.setFrame f contents).Stands view' := by
  have hself := frames_setFrame_self pool f contents
  have hids : (pool.setFrame f contents).pageIds = pool.pageIds := pageIds_setFrame hpageId
  have hother : ∀ g < pool.poolSize, g ≠ f → pool.pageIds g ≠ pool.pageIds f := fun g hg hgf heq => by
    have hne : pool.pageIds g ≠ 0 := fun hzero => h.live.zero_notMem (hzero ▸ heq ▸ hused)
    exact hgf (h.unique hg hf trivial trivial heq hne)
  obtain ⟨mapped, hmapped⟩ := h.mapped
  refine ⟨⟨mapped, hmapped.congr rfl rfl hids⟩, h.hand, hsame ▸ h.live, h.room, fun g hg _ hheld => ?_,
    fun pid hmem hrest => ?_, fun g hg _ hheld => ?_, fun g hg _ => ?_, fun pid hpinned => ?_⟩
  · rw [hids, hsame] at hheld
    rw [hids]
    by_cases hgf : g = f
    · rw [hgf, hself]
      exact hpage
    · rw [frames_setFrame_of_ne hgf contents, hpages _ (hother g hg hgf)]
      exact h.page g hg trivial hheld
  · by_cases hpid : pid = pool.pageIds f
    · have hclean := hrest f hf trivial ((congrFun hids f).trans hpid.symm)
      rw [hself] at hclean
      rw [hpid]
      exact hdisk hclean
    · rw [hpages pid hpid]
      refine h.disk pid (hsame ▸ hmem) fun g hg _ hheld => ?_
      have hgf : g ≠ f := by
        rintro rfl
        exact hpid hheld.symm
      have hclean := hrest g hg trivial ((congrFun hids g).trans hheld)
      rwa [frames_setFrame_of_ne hgf contents] at hclean
  · rw [hids, hsame] at hheld
    have hgf : g ≠ f := by
      rintro rfl
      exact hheld hused
    rw [frames_setFrame_of_ne hgf contents]
    exact h.clean g hg trivial hheld
  · rw [hids]
    by_cases hgf : g = f
    · rw [hgf, hself]
      exact hcount
    · rw [frames_setFrame_of_ne hgf contents, hpins _ (hother g hg hgf)]
      exact h.count g hg trivial
  · rw [hids, hsame]
    by_cases hpid : pid = pool.pageIds f
    · exact ⟨hpid ▸ hused, f, hf, trivial, hpid.symm⟩
    · exact h.pinned pid (hpins pid hpid ▸ hpinned)

/-! ## Writing a frame -/

theorem flushFrame_of_not (h : ¬ pool.NeedsWrite f) : pool.flushFrame io f = (.ok, pool) := by
  rw [flushFrame, if_neg h]

/-- What a flush leaves: the pages, and a clean frame if it succeeds. -/
structure Flushed (pool : BufferPool) (view : PageView) (f : Nat) (r : NostrDBError × BufferPool) : Prop where
  stands : r.2.Stands view
  steady : pool.Steady r.2
  writes : WritesOnly view.store.used pool.disk r.2.disk
  clean : r.1 = .ok → (r.2.frames f).dirty = false
  others : ∀ g, (pool.frames g).dirty = false → (r.2.frames g).dirty = false

/-- While a frame is dirty, its page on disk may be anything. -/
theorem Reflects.put (h : pool.Stands view) (hf : f < pool.poolSize) (hdirty : (pool.frames f).dirty = true)
    (page : PageData) (written : List FrameWrite) :
    Stands { pool with disk := pool.disk.put (pool.pageIds f) page, written := written } view where
  mapped := by
    obtain ⟨mapped, hmapped⟩ := h.mapped
    exact ⟨mapped, hmapped.congr rfl rfl rfl⟩
  hand := h.hand
  live := (writesOnly_put (h.used_of_dirty hf trivial hdirty) page).live (List.Subset.refl _) h.live
  room := h.room
  page := h.page
  disk pid hpid hclean := by
    have hne : pid ≠ pool.pageIds f := by
      rintro rfl
      have hfalse : (pool.frames f).dirty = false := hclean f hf trivial rfl
      rw [hdirty] at hfalse
      cases hfalse
    rw [pages_put, Function.update_of_ne hne]
    exact h.disk pid hpid hclean
  clean := h.clean
  count := h.count
  pinned := h.pinned

/-- A frame is clean when its page is on disk. -/
theorem Reflects.setClean (h : pool.Stands view) (hf : f < pool.poolSize) (hused : pool.pageIds f ∈ view.store.used)
    (hdisk : pool.disk.pages (pool.pageIds f) = (pool.frames f).page) :
    (pool.setFrame f { pool.frames f with dirty := false }).Stands view := by
  have hpage := h.page f hf trivial hused
  exact h.setFrame hf hused rfl rfl hpage (fun _ _ => rfl) (fun _ => hdisk.trans hpage) (h.count f hf trivial) fun _ _ => rfl

theorem flushFrame_of_dirty (io : DiskIo) (h : pool.NeedsWrite f) (hvalid : pool.disk.Valid (pool.pageIds f)) :
    (∃ disk written, pool.flushFrame io f = (.fileCreate, { pool with disk := disk, written := written }) ∧
      ∃ page, disk = pool.disk.put (pool.pageIds f) page) ∨
    ∃ written, pool.flushFrame io f = (.ok, setFrame
      { pool with disk := pool.disk.put (pool.pageIds f) (pool.frames f).page, written := written } f
      { pool.frames f with dirty := false }) := by
  have hvalid' : pool.disk.Valid (pool.frames f).pageId := hvalid
  rw [flushFrame, if_pos h]
  dsimp only
  rw [DiskManager.writePage, if_pos hvalid']
  cases io.write pool.disk.calls with
  | none => exact .inr ⟨_, rfl⟩
  | some n => exact .inl ⟨_, _, rfl, _, rfl⟩

/-- Only pages in use are written. -/
theorem Reflects.clean_of_not (h : pool.Stands view) (hf : f < pool.poolSize) (hneed : ¬ pool.NeedsWrite f) :
    (pool.frames f).dirty = false := by
  by_contra hdirty
  have hdirty' : (pool.frames f).dirty = true := Bool.eq_true_of_not_eq_false hdirty
  have hused := h.used_of_dirty hf trivial hdirty'
  exact hneed ⟨hdirty', fun hzero => h.live.zero_notMem (hzero ▸ hused)⟩

/-- **A flush** loses no page. -/
theorem flushFrame_flushed (io : DiskIo) (h : pool.Stands view) (hf : f < pool.poolSize) :
    Flushed pool view f (pool.flushFrame io f) := by
  by_cases hneed : pool.NeedsWrite f
  · have hused := h.used_of_dirty hf trivial hneed.1
    rcases flushFrame_of_dirty io hneed (h.live.held _ hused) with ⟨disk, written, hflush, page, rfl⟩ | ⟨written, hflush⟩
    · rw [hflush]
      exact ⟨h.put hf hneed.1 page written, ⟨rfl, rfl, fun _ => rfl, fun _ => rfl⟩, writesOnly_put hused page,
        fun hok => (nomatch hok), fun g hg => hg⟩
    · rw [hflush]
      have hput := h.put hf hneed.1 (pool.frames f).page written
      have hsteady : pool.Steady { pool with disk := pool.disk.put (pool.pageIds f) (pool.frames f).page, written := written } :=
        ⟨rfl, rfl, fun _ => rfl, fun _ => rfl⟩
      refine ⟨hput.setClean hf hused ?_, hsteady.trans (steady_setFrame rfl rfl rfl), writesOnly_put hused _, fun _ => ?_,
        fun g hg => ?_⟩
      · exact Function.update_self ..
      · exact congrArg Frame.dirty (frames_setFrame_self ..)
      · have hne : g ≠ f := by
          rintro rfl
          rw [hneed.1] at hg
          cases hg
        exact (congrArg Frame.dirty (frames_setFrame_of_ne hne _)).trans hg
  · have hclean := h.clean_of_not hf hneed
    rw [flushFrame_of_not hneed]
    exact ⟨h, Steady.refl pool, WritesOnly.refl _ _, fun _ => hclean, fun g hg => hg⟩

/-! ## A frame for a page -/

theorem emptyFrame_eq_some (h : pool.emptyFrame = some f) : f < pool.poolSize ∧ pool.pageIds f = 0 := by
  have hmem := List.mem_of_find?_eq_some h
  have hzero := List.find?_some h
  exact ⟨List.mem_range.mp hmem, by simpa using hzero⟩

/-- A frame without a page is not in the table. -/
theorem Mapped.forget_empty {mapped : List (Nat × Nat)} (h : pool.Mapped (fun _ => True) mapped)
    (hempty : pool.pageIds victim = 0) : pool.Mapped (· ≠ victim) mapped where
  pos := h.pos
  room := h.room
  indexes := h.indexes
  mem pid g := by
    rw [h.mem]
    constructor
    · rintro ⟨hg, -, hheld, hpid⟩
      refine ⟨hg, ?_, hheld, hpid⟩
      rintro rfl
      exact hpid (hheld.symm.trans hempty)
    · rintro ⟨hg, -, hheld, hpid⟩
      exact ⟨hg, trivial, hheld, hpid⟩

/-- What the search for a frame leaves. -/
structure Freed (pool : BufferPool) (view : PageView) (r : Option Nat × BufferPool) : Prop where
  steady : pool.Steady r.2
  writes : WritesOnly view.store.used pool.disk r.2.disk
  found : ∀ victim, r.1 = some victim →
    victim < pool.poolSize ∧ view.pins (pool.pageIds victim) = 0 ∧ r.2.Reflects (· ≠ victim) view
  full : r.1 = none → r.2.Stands view

theorem Reflects.pins_eq_zero (h : pool.Stands view) (hf : f < pool.poolSize) (hunpinned : pool.Unpinned f) :
    view.pins (pool.pageIds f) = 0 := by
  rw [← h.count f hf trivial, hunpinned]
  rfl

/-- An empty frame is neither pinned nor dirty. -/
theorem Reflects.unpinned_of_empty (h : pool.Stands view) (hf : f < pool.poolSize) (hempty : pool.pageIds f = 0) :
    pool.Unpinned f ∧ (pool.frames f).dirty = false := by
  have hused : pool.pageIds f ∉ view.store.used := hempty ▸ h.live.zero_notMem
  have hcount := h.count f hf trivial
  rw [h.pins_of_notMem hused] at hcount
  exact ⟨UInt8.toNat_inj.mp hcount, h.clean f hf trivial hused⟩

theorem Reflects.freed_empty (h : pool.Stands view) (hempty : pool.emptyFrame = some f) :
    Freed pool view (some f, pool) := by
  obtain ⟨hf, hzero⟩ := emptyFrame_eq_some hempty
  obtain ⟨hunpinned, hclean⟩ := h.unpinned_of_empty hf hzero
  obtain ⟨mapped, hmapped⟩ := h.mapped
  refine ⟨Steady.refl pool, WritesOnly.refl _ _, fun victim hsome => ?_, fun hnone =>
    absurd hnone (Option.some_ne_none _)⟩
  obtain rfl := Option.some.inj hsome
  exact ⟨hf, h.pins_eq_zero hf hunpinned, h.forget hf hunpinned hclean (hmapped.forget_empty hzero)⟩

theorem freeFrame_of_empty (io : DiskIo) (h : pool.emptyFrame = some f) : pool.freeFrame io = (some f, pool) := by
  rw [freeFrame, h]

/-- The clock's frame is written and taken out of the table. -/
theorem Reflects.freed_evicted (io : DiskIo) (h : pool.Stands view) (hnone : pool.emptyFrame = none) :
    Freed pool view (pool.freeFrame io) := by
  obtain ⟨halike, hhand, hvictim⟩ := clockFrom_alike h.hand (pool.poolSize * 2 % 2 ^ 32)
  have hclock := h.congr halike hhand
  rw [freeFrame, hnone, clockEvict]
  dsimp only
  generalize clockFrom (pool.poolSize * 2 % 2 ^ 32) pool = clock at halike hvictim hclock
  obtain ⟨found, pool₁⟩ := clock
  have hwrites : WritesOnly view.store.used pool.disk pool₁.disk := halike.disk ▸ WritesOnly.refl _ _
  cases found with
  | none => exact ⟨halike.toSteady, hwrites, fun _ hsome => absurd hsome (Option.some_ne_none _).symm, fun _ => hclock⟩
  | some victim =>
    obtain ⟨hinside, hunpinned⟩ := hvictim victim rfl
    have hinside₁ : victim < pool₁.poolSize := halike.poolSize ▸ hinside
    have hflushed := flushFrame_flushed io hclock hinside₁
    dsimp only
    generalize pool₁.flushFrame io victim = flush at hflushed
    obtain ⟨err, pool₂⟩ := flush
    have hsteady : pool.Steady pool₂ := halike.toSteady.trans hflushed.steady
    have hwrites₂ := hwrites.trans hflushed.writes
    by_cases hok : err = .ok
    · subst hok
      obtain ⟨mapped, hmapped⟩ := hflushed.stands.mapped
      have hinside₂ : victim < pool₂.poolSize := hsteady.poolSize ▸ hinside
      have hunpinned₂ : pool₂.Unpinned victim := (hsteady.pinCount victim).trans hunpinned
      refine ⟨hsteady.trans ⟨rfl, rfl, fun _ => rfl, fun _ => rfl⟩, hwrites₂, fun found hsome => ?_,
        fun hfull => absurd hfull (Option.some_ne_none _)⟩
      obtain rfl := Option.some.inj hsome
      exact ⟨hinside, h.pins_eq_zero hinside hunpinned,
        hflushed.stands.forget hinside₂ hunpinned₂ (hflushed.clean rfl) (hmapped.vacate hinside₂)⟩
    · have hfailed : Freed pool view (none, pool₂) :=
        ⟨hsteady, hwrites₂, fun _ hsome => absurd hsome (Option.some_ne_none _).symm, fun _ => hflushed.stands⟩
      cases err <;> first | exact absurd rfl hok | exact hfailed

/-- **A frame is found** that no page needs, or none is given up. -/
theorem freeFrame_freed (io : DiskIo) (h : pool.Stands view) : Freed pool view (pool.freeFrame io) := by
  cases hempty : pool.emptyFrame with
  | none => exact h.freed_evicted io hempty
  | some f =>
    rw [freeFrame_of_empty io hempty]
    exact h.freed_empty hempty

/-! ## A page in a frame -/

/-- A new page is in use. -/
theorem Reflects.grow (h : pool.Reflects known view) {pid : Nat} (hlive : pool.disk.Live (pid :: view.store.used))
    (hzero : pool.disk.pages pid = zeroPage) (hnew : ∀ f < pool.poolSize, known f → pool.pageIds f ≠ pid) :
    pool.Reflects known (view.grow pid) where
  mapped := h.mapped
  hand := h.hand
  live := hlive
  room := h.room
  page f hf hknown hused := by
    have hne := hnew f hf hknown
    rw [h.page f hf hknown (List.mem_of_ne_of_mem hne hused)]
    exact (pages_grow_of_ne view.store hne).symm
  disk other hother hclean := by
    by_cases hpid : other = pid
    · rw [hpid, hzero]
      exact (@Function.update_self Nat (fun _ => PageData) _ pid zeroPage view.store.pages).symm
    · rw [h.disk other (List.mem_of_ne_of_mem hpid hother) hclean]
      exact (pages_grow_of_ne view.store hpid).symm
  clean f hf hknown hused := h.clean f hf hknown fun hmem => hused (List.mem_cons_of_mem pid hmem)
  count := h.count
  pinned other hother := by
    obtain ⟨hmem, hheld⟩ := h.pinned other hother
    exact ⟨List.mem_cons_of_mem pid hmem, hheld⟩

/-- **A page is put into the frame that was found.** -/
theorem Reflects.load (h : pool.Reflects (· ≠ victim) view) (hvictim : victim < pool.poolSize) {contents : Frame}
    (hused : contents.pageId ∈ view.store.used) (hpage : contents.page = view.store.pages contents.pageId)
    (hdisk : contents.dirty = false → pool.disk.pages contents.pageId = view.store.pages contents.pageId)
    (hcount : contents.pinCount = 1)
    (hnew : ∀ f < pool.poolSize, f ≠ victim → pool.pageIds f ≠ contents.pageId) :
    (pool.load victim contents).Stands (view.pin contents.pageId) := by
  have hself : (pool.load victim contents).frames victim = contents := frames_setFrame_self pool victim contents
  have hother : ∀ g ≠ victim, (pool.load victim contents).frames g = pool.frames g := fun g hg =>
    frames_setFrame_of_ne hg contents
  have hids : ∀ g ≠ victim, (pool.load victim contents).pageIds g = pool.pageIds g := fun g hg =>
    congrArg Frame.pageId (hother g hg)
  have hidsSelf : (pool.load victim contents).pageIds victim = contents.pageId := congrArg Frame.pageId hself
  have hpid : contents.pageId ≠ 0 := fun hzero => h.live.zero_notMem (hzero ▸ hused)
  have hpins : view.pins contents.pageId = 0 := by
    by_contra hne
    obtain ⟨-, f, hf, hknown, hheld⟩ := h.pinned _ (Nat.pos_of_ne_zero hne)
    exact hnew f hf hknown hheld
  obtain ⟨mapped, hmapped⟩ := h.mapped
  refine ⟨⟨_, hmapped.load hvictim hpid hnew⟩, h.hand, h.live, h.room, fun g hg _ hheld => ?_, fun pid hmem hrest => ?_,
    fun g hg _ hheld => ?_, fun g hg _ => ?_, fun pid hpinned => ?_⟩
  · by_cases hgv : g = victim
    · rw [hgv, hself, hidsSelf]
      exact hpage
    · rw [hids g hgv] at hheld ⊢
      rw [hother g hgv]
      exact h.page g hg hgv hheld
  · by_cases hnewPage : pid = contents.pageId
    · have hclean := hrest victim hvictim trivial (hidsSelf.trans hnewPage.symm)
      rw [hself] at hclean
      rw [hnewPage]
      exact hdisk hclean
    · refine h.disk pid hmem fun g hg hgv hgheld => ?_
      have hclean := hrest g hg trivial ((hids g hgv).trans hgheld)
      rwa [hother g hgv] at hclean
  · by_cases hgv : g = victim
    · rw [hgv, hidsSelf] at hheld
      exact absurd hused hheld
    · rw [hids g hgv] at hheld
      rw [hother g hgv]
      exact h.clean g hg hgv hheld
  · by_cases hgv : g = victim
    · rw [hgv, hself, hidsSelf, hcount]
      show 1 = Function.update view.pins contents.pageId (view.pins contents.pageId + 1) contents.pageId
      rw [Function.update_self, hpins]
    · rw [hother g hgv, hids g hgv, h.count g hg hgv]
      exact (Function.update_of_ne (hnew g hg hgv) ..).symm
  · by_cases hnewPage : pid = contents.pageId
    · exact ⟨hnewPage ▸ hused, victim, hvictim, trivial, hidsSelf.trans hnewPage.symm⟩
    · have hold : 0 < view.pins pid := by
        have hsame : (view.pin contents.pageId).pins pid = view.pins pid := Function.update_of_ne hnewPage ..
        exact hsame ▸ hpinned
      obtain ⟨hmem, g, hg, hgv, hgheld⟩ := h.pinned pid hold
      exact ⟨hmem, g, hg, trivial, (hids g hgv).trans hgheld⟩

/-- A frame gets another count. -/
theorem Reflects.recount (h : pool.Stands view) (hf : f < pool.poolSize) (hused : pool.pageIds f ∈ view.store.used)
    {contents : Frame} (hpageId : contents.pageId = pool.pageIds f) (hpage : contents.page = (pool.frames f).page)
    (hdirty : contents.dirty = (pool.frames f).dirty) :
    (pool.setFrame f contents).Stands (view.setPins (pool.pageIds f) contents.pinCount.toNat) := by
  have hheld := h.page f hf trivial hused
  refine h.setFrame hf hused hpageId rfl (hpage.trans hheld) (fun _ _ => rfl) (fun hclean => ?_) ?_ fun pid hpid => ?_
  · refine h.disk _ hused fun g hg _ hsame => ?_
    have hne : pool.pageIds g ≠ 0 := fun hzero => h.live.zero_notMem (hzero ▸ hsame ▸ hused)
    rw [h.unique hg hf trivial trivial hsame hne]
    exact hdirty.symm.trans hclean
  · exact (@Function.update_self Nat (fun _ => Nat) _ (pool.pageIds f) _ view.pins).symm
  · exact Function.update_of_ne hpid ..

/-- A page in use is changed in its frame, which is dirty then. -/
theorem Reflects.write (h : pool.Stands view) (hf : f < pool.poolSize) (hused : pool.pageIds f ∈ view.store.used)
    {contents : Frame} (hpageId : contents.pageId = pool.pageIds f)
    (hcount : contents.pinCount = (pool.frames f).pinCount) (hdirty : contents.dirty = true) :
    (pool.setFrame f contents).Stands (view.write (pool.pageIds f) contents.page) := by
  refine h.setFrame hf hused hpageId rfl (pages_set_self view.store contents.page).symm
    (fun pid hpid => pages_set_of_ne view.store contents.page hpid) (fun hclean => ?_) ?_ fun _ _ => rfl
  · rw [hdirty] at hclean
    cases hclean
  · rw [hcount]
    exact h.count f hf trivial

end

end BufferPool

end OnionRelay.Db
