import OnionRelay.Db.Buffer.FlatPages

/-!
# The calls of the pool

What each function of the pool does to the pages it stands for, and `disk_free_page`, which the pool does
not learn of.  Three things go wrong: a read after an eviction (`ReadFailsAfterEviction`), an allocation of
a page that a frame still holds (`HandsOutHeld`), and a release of a page that a frame holds dirty.
-/

namespace OnionRelay.Db

open OnionRelay.Lib DiskManager

namespace DiskManager

/-- The page is not of the file, or its read fails. -/
def ReadFails (io : DiskIo) (dm : DiskManager) (pid : Nat) : Prop := ¬ dm.Valid pid ∨ io.read dm.calls = false

instance (io : DiskIo) (dm : DiskManager) (pid : Nat) : Decidable (dm.ReadFails io pid) :=
  inferInstanceAs (Decidable (_ ∨ _))

theorem readPage_of_not {io : DiskIo} {dm : DiskManager} {pid : Nat} (h : ¬ dm.ReadFails io pid) :
    dm.readPage io pid = (.ok (dm.pages pid), dm.called) := by
  obtain ⟨hvalid, hread⟩ := not_or.mp h
  rw [readPage, if_pos (not_not.mp hvalid), if_pos (Bool.eq_true_of_not_eq_false hread)]

theorem readPage_of_fails {io : DiskIo} {dm : DiskManager} {pid : Nat} (h : dm.ReadFails io pid) :
    ∃ err, dm.readPage io pid = (.error err, (dm.readPage io pid).2) := by
  rw [readPage]
  by_cases hvalid : dm.Valid pid
  · have hread := h.resolve_left (not_not.mpr hvalid)
    rw [if_pos hvalid, hread, if_neg Bool.false_ne_true]
    exact ⟨_, rfl⟩
  · rw [if_neg hvalid]
    exact ⟨_, rfl⟩

theorem writesOnly_readPage (used : List Nat) (io : DiskIo) (dm : DiskManager) (pid : Nat) :
    WritesOnly used dm (dm.readPage io pid).2 := by
  rw [readPage]
  split
  · exact writesOnly_called
  · exact WritesOnly.refl used dm

end DiskManager

namespace BufferPool

/-- A page is changed through the pointer to its frame, and marked dirty. -/
def modify (pool : BufferPool) (frame : Nat) (page : PageData) (lsn : UInt64) : BufferPool :=
  (pool.writeFrame frame page).markDirty (pool.pageIds frame) lsn

/-- `disk_free_page`, which the pool does not learn of. -/
def freeOnDisk (io : DiskIo) (pool : BufferPool) (pid : Nat) : NostrDBError × BufferPool :=
  ((pool.disk.freePage io pid).1, { pool with disk := (pool.disk.freePage io pid).2 })

/-- The pool when its disk has allocated a page. -/
def afterAlloc (io : DiskIo) (pool : BufferPool) : BufferPool := { pool with disk := (pool.disk.allocPage io).2 }

/-- A pin takes a frame away from another page, and then its read fails. -/
def ReadFailsAfterEviction (io : DiskIo) (pool : BufferPool) (pid : Nat) : Prop :=
  pid ≠ 0 ∧ pool.lookup pid = none ∧ pool.emptyFrame = none ∧ (pool.freeFrame io).1 ≠ none ∧
    (pool.freeFrame io).2.disk.ReadFails io pid

/-- The page that is allocated is still in a frame, and put into another. -/
def HandsOutHeld (io : DiskIo) (pool : BufferPool) : Prop :=
  (pool.disk.allocPage io).1 ≠ 0 ∧ ∃ victim, ((pool.afterAlloc io).freeFrame io).1 = some victim ∧
    ∃ f < pool.poolSize, f ≠ victim ∧ pool.pageIds f = (pool.disk.allocPage io).1

/-- The table has exactly the frames with a page, and no page is in two of them. -/
def Consistent (pool : BufferPool) : Prop :=
  (∀ pid ≠ 0, ∀ f, pool.lookup pid = some f ↔ f < pool.poolSize ∧ pool.pageIds f = pid) ∧
    ∀ f < pool.poolSize, ∀ g < pool.poolSize, pool.pageIds f = pool.pageIds g → pool.pageIds f ≠ 0 → f = g

/-- Pinned pages stay in their frames. -/
def Keeps (pool : BufferPool) (view : PageView) (pool' : BufferPool) : Prop :=
  ∀ f < pool.poolSize, 0 < view.pins (pool.pageIds f) → pool'.pageIds f = pool.pageIds f

section

variable {pool pool' : BufferPool} {io : DiskIo} {view : PageView} {pid f : Nat}

/-- A frame may have another page, which was not pinned before. -/
structure Taken (pool : BufferPool) (view : PageView) (f : Nat) (pool' : BufferPool) : Prop where
  poolSize : pool'.poolSize = pool.poolSize
  others : ∀ g ≠ f, pool'.pageIds g = pool.pageIds g
  unpinned : pool'.pageIds f = pool.pageIds f ∨ view.pins (pool.pageIds f) = 0

theorem Taken.keeps (h : pool.Taken view f pool') : pool.Keeps view pool' := by
  intro g _ hpinned
  by_cases hg : g = f
  · subst hg
    exact h.unpinned.resolve_right (Nat.ne_of_gt hpinned)
  · exact h.others g hg

theorem Steady.taken_load (h : pool.Steady pool') (hunpinned : view.pins (pool.pageIds f) = 0) {disk : DiskManager}
    (contents : Frame) : pool.Taken view f (load { pool' with disk := disk } f contents) :=
  ⟨h.poolSize, fun g hg =>
    (congrArg Frame.pageId (frames_setFrame_of_ne hg contents)).trans (congrFun h.pageIds g), .inr hunpinned⟩

theorem Reflects.consistent (h : pool.Stands view) : pool.Consistent :=
  ⟨fun _ hpid _ => h.lookup_eq_some hpid, fun _ hf _ hg hpage hne => h.unique hf hg trivial trivial hpage hne⟩

/-- What no call but a pin, an allocation or a release does: pages stay in their frames, and the free list
stays as it is. -/
structure Quiet (pool : BufferPool) (view : PageView) (pool' : BufferPool) : Prop where
  poolSize : pool'.poolSize = pool.poolSize
  pageIds : pool'.pageIds = pool.pageIds
  writes : WritesOnly view.store.used pool.disk pool'.disk

theorem Quiet.refl (pool : BufferPool) (view : PageView) : pool.Quiet view pool := ⟨rfl, rfl, WritesOnly.refl _ _⟩

theorem Quiet.keeps (h : pool.Quiet view pool') : pool.Keeps view pool' := fun f _ _ => congrFun h.pageIds f

theorem Steady.quiet (h : pool.Steady pool') (hwrites : WritesOnly view.store.used pool.disk pool'.disk) :
    pool.Quiet view pool' := ⟨h.poolSize, h.pageIds, hwrites⟩

/-- A frame that keeps its page id is replaced. -/
theorem quiet_setFrame {contents : Frame} (h : contents.pageId = pool.pageIds f) :
    pool.Quiet view (pool.setFrame f contents) := ⟨rfl, pageIds_setFrame h, WritesOnly.refl _ _⟩

/-! ## Pins -/

theorem pin_zero (io : DiskIo) (pool : BufferPool) : pool.pin io 0 = (none, pool) := rfl

theorem pin_of_hit (io : DiskIo) (hpid : pid ≠ 0) (hlookup : pool.lookup pid = some f) :
    pool.pin io pid = (some f, pool.setFrame f
      { pool.frames f with pinCount := (pool.frames f).pinCount + 1, refBit := true }) := by
  rw [pin, if_neg hpid, hlookup]

theorem pin_of_full (hpid : pid ≠ 0) (hlookup : pool.lookup pid = none) (hfull : (pool.freeFrame io).1 = none) :
    pool.pin io pid = (none, (pool.freeFrame io).2) := by
  rw [pin, if_neg hpid, hlookup]
  generalize pool.freeFrame io = freed at hfull
  obtain ⟨found, pool'⟩ := freed
  obtain rfl : found = none := hfull
  rfl

theorem pin_of_read {victim : Nat} (hpid : pid ≠ 0) (hlookup : pool.lookup pid = none)
    (hfound : (pool.freeFrame io).1 = some victim) (hread : ¬ (pool.freeFrame io).2.disk.ReadFails io pid) :
    pool.pin io pid = (some victim, load { (pool.freeFrame io).2 with disk := (pool.freeFrame io).2.disk.called } victim
      ⟨pid, 1, false, true, (pool.freeFrame io).2.disk.pages pid, 0⟩) := by
  rw [pin, if_neg hpid, hlookup]
  generalize pool.freeFrame io = freed at hfound hread
  obtain ⟨found, pool'⟩ := freed
  obtain rfl : found = some victim := hfound
  dsimp only at hread ⊢
  rw [readPage_of_not hread]

theorem pin_of_fails {victim : Nat} (hpid : pid ≠ 0) (hlookup : pool.lookup pid = none)
    (hfound : (pool.freeFrame io).1 = some victim) (hread : (pool.freeFrame io).2.disk.ReadFails io pid) :
    pool.pin io pid = (none, { (pool.freeFrame io).2 with disk := ((pool.freeFrame io).2.disk.readPage io pid).2 }) := by
  rw [pin, if_neg hpid, hlookup]
  generalize pool.freeFrame io = freed at hfound hread
  obtain ⟨found, pool'⟩ := freed
  obtain rfl : found = some victim := hfound
  dsimp only at hread ⊢
  obtain ⟨err, herr⟩ := readPage_of_fails hread
  rw [herr]

/-- **A pin that fails** changes nothing its users see. -/
theorem Reflects.pin_failed (h : pool.Stands view) (hread : ¬ pool.ReadFailsAfterEviction io pid)
    (hfail : (pool.pin io pid).1 = none) :
    (pool.pin io pid).2.Stands view ∧ pool.Quiet view (pool.pin io pid).2 := by
  by_cases hpid : pid = 0
  · rw [hpid, pin_zero]
    exact ⟨h, Quiet.refl pool view⟩
  cases hlookup : pool.lookup pid with
  | some f =>
    rw [pin_of_hit io hpid hlookup] at hfail
    cases hfail
  | none =>
    have hfreed := freeFrame_freed io h
    cases hfound : (pool.freeFrame io).1 with
    | none =>
      rw [pin_of_full hpid hlookup hfound]
      exact ⟨hfreed.full hfound, hfreed.steady.quiet hfreed.writes⟩
    | some victim =>
      by_cases hfails : (pool.freeFrame io).2.disk.ReadFails io pid
      · -- the frame was empty, so nothing has happened yet
        have hempty : pool.emptyFrame ≠ none := fun hnone =>
          hread ⟨hpid, hlookup, hnone, by rw [hfound]; exact Option.some_ne_none victim, hfails⟩
        obtain ⟨f, hempty⟩ := Option.ne_none_iff_exists'.mp hempty
        rw [pin_of_fails hpid hlookup hfound hfails, freeFrame_of_empty io hempty]
        have hwrites := writesOnly_readPage view.store.used io pool.disk pid
        refine ⟨h.setDisk (hwrites.live (List.Subset.refl _) h.live) ?_ fun other _ => ?_, rfl, rfl, hwrites⟩
        · rw [hwrites.total]
          exact h.room
        · rw [pages_readPage]
      · rw [pin_of_read hpid hlookup hfound hfails] at hfail
        cases hfail

/-- What a pin that succeeds returns and leaves. -/
structure Pinned (pool : BufferPool) (view : PageView) (pid f : Nat) (pool' : BufferPool) : Prop where
  lt : f < pool.poolSize
  pageId : pool'.pageIds f = pid
  page : (pool'.frames f).page = view.store.pages pid
  taken : pool.Taken view f pool'
  writes : WritesOnly view.store.used pool.disk pool'.disk
  stands : view.pins pid < 255 → pool'.Stands (view.pin pid)

theorem Reflects.pinned_hit (h : pool.Stands view) (hf : f < pool.poolSize) (hused : pool.pageIds f ∈ view.store.used) :
    Pinned pool view (pool.pageIds f) f (pool.setFrame f
      { pool.frames f with pinCount := (pool.frames f).pinCount + 1, refBit := true }) := by
  have hids := @pageIds_setFrame pool f { pool.frames f with pinCount := (pool.frames f).pinCount + 1, refBit := true } rfl
  refine ⟨hf, congrFun hids f, ?_, ⟨rfl, fun g _ => congrFun hids g, .inl (congrFun hids f)⟩, WritesOnly.refl _ _,
    fun hpins => ?_⟩
  · exact (congrArg Frame.page (frames_setFrame_self ..)).trans (h.page f hf trivial hused)
  have hcount : ((pool.frames f).pinCount + 1).toNat = view.pins (pool.pageIds f) + 1 := by
    have hold := h.count f hf trivial
    rw [UInt8.toNat_add, hold]
    exact Nat.mod_eq_of_lt (Nat.succ_lt_succ hpins)
  have hstands : (pool.setFrame f { pool.frames f with
      pinCount := (pool.frames f).pinCount + 1, refBit := true }).Stands
      (view.setPins (pool.pageIds f) ((pool.frames f).pinCount + 1).toNat) := h.recount hf hused rfl rfl rfl
  rw [hcount] at hstands
  exact hstands

/-- **A pin that succeeds** returns the content of its page. -/
theorem Reflects.pin_found (h : pool.Stands view) (hused : pid ∈ view.store.used) (hfound : (pool.pin io pid).1 = some f) :
    Pinned pool view pid f (pool.pin io pid).2 := by
  have hpid : pid ≠ 0 := fun hzero => h.live.zero_notMem (hzero ▸ hused)
  cases hlookup : pool.lookup pid with
  | some g =>
    rw [pin_of_hit io hpid hlookup] at hfound ⊢
    obtain rfl := Option.some.inj hfound
    obtain ⟨hg, rfl⟩ := (h.lookup_eq_some hpid).mp hlookup
    exact h.pinned_hit hg hused
  | none =>
    have hfreed := freeFrame_freed io h
    cases hvictim : (pool.freeFrame io).1 with
    | none =>
      rw [pin_of_full hpid hlookup hvictim] at hfound
      cases hfound
    | some victim =>
      by_cases hfails : (pool.freeFrame io).2.disk.ReadFails io pid
      · rw [pin_of_fails hpid hlookup hvictim hfails] at hfound
        cases hfound
      rw [pin_of_read hpid hlookup hvictim hfails] at hfound ⊢
      obtain rfl := Option.some.inj hfound
      obtain ⟨hlt, hunpinned, hstands⟩ := hfreed.found victim hvictim
      have hnone : ∀ g < pool.poolSize, pool.pageIds g ≠ pid := fun g hg hheld => by
        rw [(h.lookup_eq_some hpid).mpr ⟨hg, hheld⟩] at hlookup
        cases hlookup
      have hids : ∀ g < pool.poolSize, (pool.freeFrame io).2.pageIds g ≠ pid := fun g hg => by
        rw [hfreed.steady.pageIds]
        exact hnone g hg
      have hdisk : (pool.freeFrame io).2.disk.pages pid = view.store.pages pid :=
        hstands.disk pid hused fun g hg _ hheld => absurd hheld (hids g (hfreed.steady.poolSize ▸ hg))
      have hread : Reflects { (pool.freeFrame io).2 with disk := (pool.freeFrame io).2.disk.called } (· ≠ victim) view :=
        hstands.setDisk hstands.live.called hstands.room fun _ _ => rfl
      refine ⟨hlt, congrArg Frame.pageId (frames_setFrame_self ..), (congrArg Frame.page (frames_setFrame_self ..)).trans hdisk,
        hfreed.steady.taken_load hunpinned _, hfreed.writes.trans writesOnly_called, fun _ => ?_⟩
      exact hread.load (hfreed.steady.poolSize ▸ hlt) hused hdisk (fun _ => hdisk) rfl fun g hg _ =>
        hids g (hfreed.steady.poolSize ▸ hg)

/-! ## The other calls -/

theorem setPins_self (view : PageView) (pid : Nat) : view.setPins pid (view.pins pid) = view :=
  congrArg (PageView.mk view.store) (Function.update_eq_self ..)

/-- A page without pins stays as it is. -/
theorem unpin_of_zero (h : view.pins pid = 0) : view.unpin pid = view := by
  have hself := setPins_self view pid
  rw [h] at hself
  rw [PageView.unpin, h]
  exact hself

theorem Reflects.unpin (h : pool.Stands view) (pid : Nat) :
    (pool.unpin pid).Stands (view.unpin pid) ∧ pool.Quiet view (pool.unpin pid) := by
  have hnothing : view.pins pid = 0 → pool.Stands (view.unpin pid) ∧ pool.Quiet view pool := fun hzero => by
    rw [unpin_of_zero hzero]
    exact ⟨h, Quiet.refl pool view⟩
  rw [BufferPool.unpin]
  by_cases hpid : pid = 0
  · rw [if_pos hpid]
    exact hnothing (h.pins_of_notMem (hpid ▸ h.live.zero_notMem))
  rw [if_neg hpid]
  cases hlookup : pool.lookup pid with
  | none =>
    refine hnothing (Nat.eq_zero_of_not_pos fun hpos => ?_)
    obtain ⟨-, f, hf, -, hheld⟩ := h.pinned pid hpos
    rw [(h.lookup_eq_some hpid).mpr ⟨hf, hheld⟩] at hlookup
    cases hlookup
  | some f =>
    obtain ⟨hf, rfl⟩ := (h.lookup_eq_some hpid).mp hlookup
    have hcount := h.count f hf trivial
    dsimp only
    by_cases hpos : 0 < (pool.frames f).pinCount
    · rw [if_pos hpos]
      have hpins : 0 < view.pins (pool.pageIds f) := by
        rw [← hcount]
        exact UInt8.lt_iff_toNat_lt.mp hpos
      have hless : ((pool.frames f).pinCount - 1).toNat = view.pins (pool.pageIds f) - 1 := by
        rw [← hcount]
        exact UInt8.toNat_sub_of_le _ _ (UInt8.le_iff_toNat_le.mpr (UInt8.lt_iff_toNat_lt.mp hpos))
      have hstands : (pool.setFrame f { pool.frames f with pinCount := (pool.frames f).pinCount - 1 }).Stands
          (view.setPins (pool.pageIds f) ((pool.frames f).pinCount - 1).toNat) :=
        h.recount hf (h.pinned _ hpins).1 rfl rfl rfl
      rw [hless] at hstands
      exact ⟨hstands, quiet_setFrame rfl⟩
    · rw [if_neg hpos]
      exact hnothing (h.pins_eq_zero hf (unpinned_of_not_pos hpos))

theorem lookup_congr (hids : pool'.pageIds = pool.pageIds) (htable : pool'.table = pool.table) (pid : Nat) :
    pool'.lookup pid = pool.lookup pid := by
  rw [lookup, lookup, hids, htable]

/-- The flag is set, and the LSN goes up. -/
def marked (fr : Frame) (lsn : UInt64) : Frame :=
  { fr with dirty := true, lsn := if fr.lsn < lsn then lsn else fr.lsn }

theorem markDirty_of_hit (lsn : UInt64) (hpid : pid ≠ 0) (hlookup : pool.lookup pid = some f) :
    pool.markDirty pid lsn = pool.setFrame f (marked (pool.frames f) lsn) := by
  rw [BufferPool.markDirty, if_neg hpid, hlookup]
  rfl

/-- A page in use is marked. -/
theorem Reflects.markDirty (h : pool.Stands view) (lsn : UInt64)
    (hpid : pid ∈ view.store.used ∨ pool.lookup pid = none) :
    (pool.markDirty pid lsn).Stands view ∧ pool.Quiet view (pool.markDirty pid lsn) := by
  by_cases hzero : pid = 0
  · rw [BufferPool.markDirty, if_pos hzero]
    exact ⟨h, Quiet.refl pool view⟩
  cases hlookup : pool.lookup pid with
  | none =>
    rw [BufferPool.markDirty, if_neg hzero, hlookup]
    exact ⟨h, Quiet.refl pool view⟩
  | some f =>
    rw [hlookup, or_iff_left (Option.some_ne_none f)] at hpid
    obtain ⟨hf, rfl⟩ := (h.lookup_eq_some hzero).mp hlookup
    rw [markDirty_of_hit lsn hzero hlookup]
    refine ⟨?_, quiet_setFrame rfl⟩
    have hwrite : (pool.setFrame f (marked (pool.frames f) lsn)).Stands
        (view.write (pool.pageIds f) (marked (pool.frames f) lsn).page) := h.write hf hpid rfl rfl rfl
    have hsame : view.write (pool.pageIds f) (marked (pool.frames f) lsn).page = view := by
      rw [PageView.write, FlatStore.set, show (marked (pool.frames f) lsn).page = (pool.frames f).page from rfl,
        h.page f hf trivial hpid, Function.update_eq_self]
    rwa [hsame] at hwrite

/-- **A pinned page is changed.** -/
theorem Reflects.modify (h : pool.Stands view) (hf : f < pool.poolSize) (hpinned : 0 < view.pins (pool.pageIds f))
    (page : PageData) (lsn : UInt64) :
    (pool.modify f page lsn).Stands (view.write (pool.pageIds f) page) ∧ pool.Quiet view (pool.modify f page lsn) := by
  have hused := (h.pinned _ hpinned).1
  have hpid : pool.pageIds f ≠ 0 := fun hzero => h.live.zero_notMem (hzero ▸ hused)
  have hids : (pool.writeFrame f page).pageIds = pool.pageIds := pageIds_setFrame rfl
  have hlookup : (pool.writeFrame f page).lookup (pool.pageIds f) = some f := by
    rw [lookup_congr hids rfl]
    exact (h.lookup_eq_some hpid).mpr ⟨hf, rfl⟩
  have hmodify : pool.modify f page lsn = pool.setFrame f (marked { pool.frames f with page := page } lsn) := by
    rw [BufferPool.modify, markDirty_of_hit lsn hpid hlookup, writeFrame, frames_setFrame_self]
    simp only [BufferPool.setFrame, Function.update_idem]
  rw [hmodify]
  exact ⟨h.write hf hused rfl rfl rfl, quiet_setFrame rfl⟩

theorem Flushed.quiet {r : NostrDBError × BufferPool} (h : Flushed pool view f r) : pool.Quiet view r.2 :=
  h.steady.quiet h.writes

theorem Reflects.flush (io : DiskIo) (h : pool.Stands view) (pid : Nat) :
    (pool.flush io pid).2.Stands view ∧ pool.Quiet view (pool.flush io pid).2 := by
  rw [BufferPool.flush]
  by_cases hpid : pid = 0
  · rw [if_pos hpid]
    exact ⟨h, Quiet.refl pool view⟩
  rw [if_neg hpid]
  cases hlookup : pool.lookup pid with
  | none => exact ⟨h, Quiet.refl pool view⟩
  | some f =>
    have hflushed := flushFrame_flushed io h ((h.lookup_eq_some hpid).mp hlookup).1
    exact ⟨hflushed.stands, hflushed.quiet⟩

/-- The loop writes all frames, or stops at one. -/
theorem flushFrames_flushed (io : DiskIo) {frames : List Nat} (h : pool.Stands view)
    (hframes : ∀ f ∈ frames, f < pool.poolSize) :
    (flushFrames io frames pool).2.Stands view ∧ pool.Steady (flushFrames io frames pool).2 ∧
      WritesOnly view.store.used pool.disk (flushFrames io frames pool).2.disk ∧
      (∀ g, (pool.frames g).dirty = false → ((flushFrames io frames pool).2.frames g).dirty = false) ∧
      ((flushFrames io frames pool).1 = .ok → ∀ f ∈ frames, ((flushFrames io frames pool).2.frames f).dirty = false) := by
  induction frames generalizing pool with
  | nil => exact ⟨h, Steady.refl pool, WritesOnly.refl _ _, fun _ hg => hg, fun _ _ hf => absurd hf List.not_mem_nil⟩
  | cons f frames ih =>
    obtain ⟨hf, hframes⟩ := List.forall_mem_cons.mp hframes
    rw [flushFrames]
    by_cases hneed : pool.NeedsWrite f
    · rw [if_pos hneed]
      have hflushed := flushFrame_flushed io h hf
      generalize pool.flushFrame io f = flush at hflushed
      obtain ⟨err, pool₁⟩ := flush
      by_cases hok : err = .ok
      · subst hok
        obtain ⟨hstands, hsteady, hwrites, hothers, hclean⟩ := @ih pool₁ hflushed.stands fun g hg =>
          hflushed.steady.poolSize ▸ hframes g hg
        refine ⟨hstands, hflushed.steady.trans hsteady, hflushed.writes.trans hwrites,
          fun g hg => hothers g (hflushed.others g hg), fun hdone => List.forall_mem_cons.mpr ⟨?_, hclean hdone⟩⟩
        exact hothers f (hflushed.clean rfl)
      · cases err <;> first
          | exact absurd rfl hok
          | exact ⟨hflushed.stands, hflushed.steady, hflushed.writes, hflushed.others, fun hdone => absurd hdone hok⟩
    · rw [if_neg hneed]
      obtain ⟨hstands, hsteady, hwrites, hothers, hclean⟩ := ih h hframes
      exact ⟨hstands, hsteady, hwrites, hothers, fun hdone =>
        List.forall_mem_cons.mpr ⟨hothers f (h.clean_of_not hf hneed), hclean hdone⟩⟩

/-- **A flush of all frames** that succeeds puts every page on disk. -/
theorem Reflects.flushAll (io : DiskIo) (h : pool.Stands view) :
    (pool.flushAll io).2.Stands view ∧ pool.Quiet view (pool.flushAll io).2 ∧
      ((pool.flushAll io).1 = .ok →
        ∀ pid ∈ view.store.used, (pool.flushAll io).2.disk.pages pid = view.store.pages pid) := by
  obtain ⟨hstands, hsteady, hwrites, -, hclean⟩ :=
    flushFrames_flushed io h fun f (hf : f ∈ List.range pool.poolSize) => List.mem_range.mp hf
  rw [BufferPool.flushAll]
  generalize flushFrames io (List.range pool.poolSize) pool = flush at hstands hsteady hwrites hclean
  obtain ⟨err, pool₁⟩ := flush
  by_cases hok : err = .ok
  · subst hok
    have hsynced : Stands { pool₁ with disk := pool₁.disk.called } view :=
      hstands.setDisk hstands.live.called hstands.room fun _ _ => rfl
    refine ⟨hsynced, ⟨hsteady.poolSize, hsteady.pageIds, hwrites.trans writesOnly_called⟩, fun _ pid hpid => ?_⟩
    refine hstands.disk pid hpid fun f hf _ _ => hclean rfl f (List.mem_range.mpr ?_)
    exact hsteady.poolSize ▸ hf
  · cases err <;> first
      | exact absurd rfl hok
      | exact ⟨hstands, hsteady.quiet hwrites, fun hdone => absurd hdone hok⟩

/-! ## Allocation and release -/

/-- Who holds what after the disk has allocated a page. -/
theorem Reflects.afterAlloc (hio : io.Whole) (h : pool.Stands view) :
    (pool.afterAlloc io).Stands view ∧ ((pool.disk.allocPage io).1 ≠ 0 →
      (pool.disk.allocPage io).2.Live ((pool.disk.allocPage io).1 :: view.store.used) ∧
      (pool.disk.allocPage io).1 ∉ view.store.used ∧
      (pool.disk.allocPage io).2.pages (pool.disk.allocPage io).1 = zeroPage) := by
  obtain ⟨hlive, hfresh⟩ := live_allocPage hio h.live fun _ => h.room
  obtain ⟨hroom, hpages⟩ := allocPage_kept hio h.live h.room
  refine ⟨h.setDisk ?_ hroom hpages, fun hne => ?_⟩
  · by_cases hzero : (pool.disk.allocPage io).1 = 0
    · rwa [if_pos hzero] at hlive
    · rw [if_neg hzero] at hlive
      exact hlive.tail
  · rw [if_neg hne] at hlive
    exact ⟨hlive, hfresh hne⟩

/-- A page that was just allocated is given back. -/
theorem Reflects.giveBack (hio : io.Whole) (h : pool.Stands view) (hnew : pid ∉ view.store.used)
    (hlive : pool.disk.Live (pid :: view.store.used)) : (pool.freeOnDisk io pid).2.Stands view := by
  obtain ⟨htotal, hpages⟩ := freePage_kept io pool.disk pid
  have hfreed := live_freePage hio hlive List.mem_cons_self
  refine h.setDisk ?_ (by rw [htotal]; exact h.room) fun other hother => hpages other fun heq => hnew (heq ▸ hother)
  by_cases hok : (pool.disk.freePage io pid).1 = .ok
  · have hrest : (pid :: view.store.used).filter (· ≠ pid) = view.store.used := by
      rw [List.filter_cons_of_neg (by simp)]
      refine List.filter_eq_self.mpr fun other hother => decide_eq_true fun heq => hnew ?_
      exact heq ▸ hother
    rwa [if_pos hok, hrest] at hfreed
  · rw [if_neg hok] at hfreed
    exact hfreed.tail

theorem allocPage_of_zero (hzero : (pool.disk.allocPage io).1 = 0) : pool.allocPage io = (none, pool.afterAlloc io) := by
  rw [BufferPool.allocPage, BufferPool.afterAlloc]
  dsimp only
  rw [if_pos hzero]

theorem allocPage_of_full (hne : (pool.disk.allocPage io).1 ≠ 0) (hfull : ((pool.afterAlloc io).freeFrame io).1 = none) :
    pool.allocPage io = (none, (((pool.afterAlloc io).freeFrame io).2.freeOnDisk io (pool.disk.allocPage io).1).2) := by
  rw [BufferPool.allocPage]
  dsimp only
  rw [if_neg hne, ← BufferPool.afterAlloc]
  generalize (pool.afterAlloc io).freeFrame io = freed at hfull
  obtain ⟨found, pool'⟩ := freed
  obtain rfl : found = none := hfull
  rfl

theorem allocPage_of_found {victim : Nat} (hne : (pool.disk.allocPage io).1 ≠ 0)
    (hfound : ((pool.afterAlloc io).freeFrame io).1 = some victim) :
    pool.allocPage io = (some ((pool.disk.allocPage io).1, victim),
      ((pool.afterAlloc io).freeFrame io).2.load victim ⟨(pool.disk.allocPage io).1, 1, true, true, zeroPage, 0⟩) := by
  rw [BufferPool.allocPage]
  dsimp only
  rw [if_neg hne, ← BufferPool.afterAlloc]
  generalize (pool.afterAlloc io).freeFrame io = freed at hfound
  obtain ⟨found, pool'⟩ := freed
  obtain rfl : found = some victim := hfound
  rfl

/-- **An allocation that fails** changes nothing. -/
theorem Reflects.allocPage_failed (hio : io.Whole) (h : pool.Stands view) (hfail : (pool.allocPage io).1 = none) :
    (pool.allocPage io).2.Stands view ∧ (pool.allocPage io).2.poolSize = pool.poolSize ∧
      (pool.allocPage io).2.pageIds = pool.pageIds := by
  obtain ⟨hafter, hnew⟩ := h.afterAlloc hio
  by_cases hzero : (pool.disk.allocPage io).1 = 0
  · rw [allocPage_of_zero hzero]
    exact ⟨hafter, rfl, rfl⟩
  obtain ⟨hlive, hunused, -⟩ := hnew hzero
  have hfreed := freeFrame_freed io hafter
  cases hfound : ((pool.afterAlloc io).freeFrame io).1 with
  | none =>
    rw [allocPage_of_full hzero hfound]
    have hgiven := (hfreed.full hfound).giveBack hio hunused (hfreed.writes.live (List.subset_cons_self ..) hlive)
    exact ⟨hgiven, hfreed.steady.poolSize, hfreed.steady.pageIds⟩
  | some victim =>
    rw [allocPage_of_found hzero hfound] at hfail
    cases hfail

/-- What an allocation that succeeds returns and leaves. -/
structure Handed (io : DiskIo) (pool : BufferPool) (view : PageView) (pid f : Nat) (pool' : BufferPool) : Prop where
  lt : f < pool.poolSize
  unused : pid ∉ view.store.used
  pageId : pool'.pageIds f = pid
  page : (pool'.frames f).page = zeroPage
  taken : pool.Taken view f pool'
  stands : ¬ pool.HandsOutHeld io → pool'.Stands ((view.grow pid).pin pid)

/-- **An allocation that succeeds** returns an empty page that was not in use. -/
theorem Reflects.allocPage_handed (hio : io.Whole) (h : pool.Stands view) (hsome : (pool.allocPage io).1 = some (pid, f)) :
    Handed io pool view pid f (pool.allocPage io).2 := by
  obtain ⟨hafter, hnew⟩ := h.afterAlloc hio
  by_cases hzero : (pool.disk.allocPage io).1 = 0
  · rw [allocPage_of_zero hzero] at hsome
    cases hsome
  obtain ⟨hlive, hunused, hempty⟩ := hnew hzero
  have hfreed := freeFrame_freed io hafter
  cases hfound : ((pool.afterAlloc io).freeFrame io).1 with
  | none =>
    rw [allocPage_of_full hzero hfound] at hsome
    cases hsome
  | some victim =>
    rw [allocPage_of_found hzero hfound] at hsome ⊢
    obtain ⟨rfl, rfl⟩ := Prod.mk.inj (Option.some.inj hsome)
    obtain ⟨hlt, hunpinned, hstands⟩ := hfreed.found victim hfound
    have hsame : pool.Steady (pool.afterAlloc io) := ⟨rfl, rfl, fun _ => rfl, fun _ => rfl⟩
    have hsteady := hsame.trans hfreed.steady
    refine ⟨hlt, hunused, congrArg Frame.pageId (frames_setFrame_self ..), congrArg Frame.page (frames_setFrame_self ..),
      hsteady.taken_load hunpinned _, fun hheld => ?_⟩
    have hothers : ∀ g < ((pool.afterAlloc io).freeFrame io).2.poolSize, g ≠ victim →
        ((pool.afterAlloc io).freeFrame io).2.pageIds g ≠ (pool.disk.allocPage io).1 := fun g hg hne heq => by
      rw [hsteady.pageIds] at heq
      exact hheld ⟨hzero, victim, hfound, g, hsteady.poolSize ▸ hg, hne, heq⟩
    have hgrown := hstands.grow (hfreed.writes.live (List.subset_cons_self ..) hlive)
      ((hfreed.writes.pages _ hunused).trans hempty) hothers
    refine hgrown.load (hfreed.steady.poolSize ▸ hlt) List.mem_cons_self ?_ (fun hclean => nomatch hclean) rfl hothers
    exact (@Function.update_self Nat (fun _ => PageData) _ _ zeroPage view.store.pages).symm

/-- **A page is freed** of which no frame has a change. -/
theorem Reflects.freeOnDisk (hio : io.Whole) (h : pool.Stands view) (hused : pid ∈ view.store.used)
    (hunpinned : view.pins pid = 0) (hclean : ∀ f < pool.poolSize, pool.pageIds f = pid → (pool.frames f).dirty = false) :
    (pool.freeOnDisk io pid).2.Stands (if (pool.freeOnDisk io pid).1 = .ok then view.drop pid else view) := by
  obtain ⟨htotal, hpages⟩ := freePage_kept io pool.disk pid
  have hfreed := live_freePage hio h.live hused
  have hroom : (pool.disk.freePage io pid).2.totalPages + dbExtendPages < 2 ^ 32 := by
    rw [htotal]
    exact h.room
  rw [BufferPool.freeOnDisk]
  dsimp only
  by_cases hok : (pool.disk.freePage io pid).1 = .ok
  · rw [if_pos hok] at hfreed ⊢
    have hmem : ∀ {other}, other ∈ (view.drop pid).store.used ↔ other ∈ view.store.used ∧ other ≠ pid := fun {other} => by
      rw [PageView.drop, List.mem_filter, decide_eq_true_iff]
    obtain ⟨mapped, hmapped⟩ := h.mapped
    refine ⟨⟨mapped, hmapped.congr rfl rfl rfl⟩, h.hand, hfreed, hroom, fun f hf _ hheld => ?_, fun other hother hrest => ?_,
      fun f hf _ hheld => ?_, h.count, fun other hother => ?_⟩
    · exact h.page f hf trivial (hmem.mp hheld).1
    · exact (hpages other (hmem.mp hother).2).trans (h.disk other (hmem.mp hother).1 hrest)
    · by_cases hpid : pool.pageIds f = pid
      · exact hclean f hf hpid
      · exact h.clean f hf trivial fun hmember => hheld (hmem.mpr ⟨hmember, hpid⟩)
    · obtain ⟨hmember, hheld⟩ := h.pinned other hother
      refine ⟨hmem.mpr ⟨hmember, ?_⟩, hheld⟩
      rintro rfl
      exact absurd hunpinned (Nat.ne_of_gt hother)
  · rw [if_neg hok] at hfreed ⊢
    exact h.setDisk hfreed hroom fun other _ => by rw [pages_freePage_of_failed hio hok]

end

end BufferPool

end OnionRelay.Db
