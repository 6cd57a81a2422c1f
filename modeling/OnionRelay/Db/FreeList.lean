import OnionRelay.Db.Disk
import OnionRelay.Lib.LinkedList
import OnionRelay.Lib.Reach

/-!
# The free list over the life of a file

A database file is created once, opened and closed many times, and in between
pages are allocated, freed and added.  The head of the free list, its length and
the number of pages are cached while the file is open and written to page 0 when
it is closed; the links are in the free pages themselves.

Any call to the file may fail, and a page write that fails leaves the page as it
was.  Then the pages the cached head leads to are at any time distinct free pages
of the file, as many as the cached count says (`Sound`), and an allocation hands
out one of them: `freeList_sound`.

A file is opened only after a close that wrote the header.  What an unfinished
`disk_manager_create` leaves behind is no file of this kind.
-/

namespace OnionRelay.Db

open OnionRelay.Lib

/-! ## The file and its manager -/

/-- A manager with its descriptor (`opened` is `fd >= 0`), and whether there is a
file at its path. -/
structure Disk where
  dm : DiskManager
  opened : Bool
  present : Bool

/-- `DB_FILE_MAGIC`, `NOSTRDB2`. -/
def dbFileMagic : List UInt8 := [78, 79, 83, 84, 82, 68, 66, 50]

/-- A page with a `FileHeader`. -/
def headerPage (totalPages freeListHead freePageCount : Nat) : PageData :=
  writeAt zeroPage 0 (dbFileMagic ++ (toLE 4 2 ++ (toLE 4 4096 ++
    (toLE 4 totalPages ++ (toLE 4 freeListHead ++ toLE 4 freePageCount)))))

/-- `validate_header` -/
def validateHeader (page : PageData) : Bool :=
  readAt page 0 8 = dbFileMagic && ofLE (readAt page 8 4) = 2 && ofLE (readAt page 12 4) = 4096

namespace DiskManager

/-- `init_header` and the later assignments of cached fields. -/
def withHeader (dm : DiskManager) (totalPages freeListHead freePageCount : Nat) : DiskManager :=
  { dm with
    totalPages := totalPages
    freeListHead := freeListHead
    freePageCount := freePageCount }

/-- The cached fields as `load_header` takes them from page 0. -/
def loadHeader (dm : DiskManager) : DiskManager :=
  dm.withHeader (ofLE (readAt (dm.pages 0) 16 4)) (ofLE (readAt (dm.pages 0) 20 4))
    (ofLE (readAt (dm.pages 0) 24 4))

end DiskManager

namespace Disk

/-- `internal_memset(dm, 0, sizeof(DiskManager))` and `fd = -1`. -/
def cleared (d : Disk) : Disk := { d with dm := d.dm.withHeader 0 0 0, opened := false }

/-- One more call that changes nothing. -/
def called (d : Disk) : Disk := { d with dm := d.dm.called }

/-- `disk_manager_create`; `nostr_db_file_create` wants a path without a file. -/
def create (io : DiskIo) (d : Disk) (initialPages : Nat) : NostrDBError × Disk :=
  if initialPages < 2 then (.nullParam, d)
  else
    let d := d.cleared
    if d.present || (io.write d.dm.calls).isSome then (.fileCreate, d.called)
    else
      let d := { d.called with present := true }
      if (io.write d.dm.calls).isSome then (.fileCreate, d.called)
      else
        let dm := { d.dm.called with pages := fun _ => zeroPage }
        match dm.pwritePage io 0 (headerPage initialPages 1 (initialPages - 1)) with
        | (false, dm) => (.fileCreate, { d with dm := dm })
        | (true, dm) =>
          -- the head is 0 here, so the loop is that of `disk_extend`
          match DiskManager.chainFree io initialPages (List.range' 1 (initialPages - 1)) dm with
          | (false, dm) => (.fileCreate, { d with dm := dm })
          | (true, dm) =>
            (.ok, { d with
              dm := dm.called.withHeader initialPages 1 (initialPages - 1)
              opened := true })

/-- `disk_manager_open` -/
def openFile (io : DiskIo) (d : Disk) : NostrDBError × Disk :=
  let d := d.cleared
  if !d.present || (io.write d.dm.calls).isSome then (.fileOpen, d.called)
  else
    let d := d.called
    if io.read d.dm.calls then
      if validateHeader (d.dm.pages 0) then
        (.ok, { d with dm := d.dm.called.loadHeader, opened := true })
      else (.invalidMagic, d.called)
    else (.fileOpen, d.called)

/-- `require(dm->fd >= 0, closed)` in front of a function of the manager. -/
def whenOpen {β : Type} (closed : β) (f : DiskManager → β × DiskManager) (d : Disk) : β × Disk :=
  if d.opened then ((f d.dm).1, { d with dm := (f d.dm).2 }) else (closed, d)

/-- `disk_flush_header` -/
def flushHeader (io : DiskIo) : Disk → NostrDBError × Disk :=
  whenOpen .fileOpen fun dm =>
    match dm.pwritePage io 0 (headerPage dm.totalPages dm.freeListHead dm.freePageCount) with
    | (true, dm) => (.ok, dm)
    | (false, dm) => (.fileCreate, dm)

/-- `disk_manager_close`; what `fdatasync` returns is not looked at. -/
def close (io : DiskIo) (d : Disk) : Disk :=
  if d.opened then { (d.flushHeader io).2.called with opened := false } else d

/-- `disk_alloc_page` -/
def alloc (io : DiskIo) : Disk → Nat × Disk := whenOpen 0 (DiskManager.allocPage io)

/-- `disk_free_page` -/
def free (io : DiskIo) (pid : Nat) : Disk → NostrDBError × Disk :=
  whenOpen .fileOpen (DiskManager.freePage io · pid)

/-- `disk_extend` -/
def extend (io : DiskIo) (additional : Nat) : Disk → NostrDBError × Disk :=
  whenOpen .fileOpen (DiskManager.extend io · additional)

/-- `disk_write_page` -/
def write (io : DiskIo) (pid : Nat) (page : PageData) : Disk → NostrDBError × Disk :=
  whenOpen .fileOpen (DiskManager.writePage io · pid page)

end Disk

/-! ## Runs -/

inductive DiskCall
  | create (initialPages : UInt32)
  | alloc
  | free (pid : Nat)
  | extend (additional : UInt32)
  | write (pid : Nat) (page : PageData)
  | close
  | openFile

/-- The file, the pages its users hold, and whether it was closed with its header
written and not opened since. -/
structure DiskRun where
  disk : Disk
  allocated : List Nat
  saved : Bool

/-- No file yet. -/
def DiskRun.start : DiskRun := ⟨⟨⟨0, 0, 0, fun _ => zeroPage, 0⟩, false, false⟩, [], false⟩

def DiskRun.step (io : DiskIo) (s : DiskRun) : DiskCall → DiskRun
  | .create n => { s with disk := (s.disk.create io n.toNat).2 }
  | .alloc =>
    let (pid, disk) := s.disk.alloc io
    { s with disk := disk, allocated := if pid = 0 then s.allocated else pid :: s.allocated }
  | .free pid =>
    let (err, disk) := s.disk.free io pid
    { s with
      disk := disk
      allocated := if err = .ok then s.allocated.filter (· ≠ pid) else s.allocated }
  | .extend n => { s with disk := (s.disk.extend io n.toNat).2 }
  | .write pid page => { s with disk := (s.disk.write io pid page).2 }
  | .close => { s with disk := s.disk.close io, saved := s.saved || s.disk.opened }
  | .openFile =>
    let disk := (s.disk.openFile io).2
    { s with disk := disk, saved := s.saved && !disk.opened }

/-- What a call may assume: pages are freed and written by those who hold them, the
number of pages stays within 32 bits, the header is written at a close, and a file
is opened that was closed so. -/
def DiskRun.Allowed (io : DiskIo) (s : DiskRun) : DiskCall → Prop
  | .create _ => True
  | .alloc => s.disk.dm.freeListHead = 0 → s.disk.dm.totalPages + DiskManager.dbExtendPages < 2 ^ 32
  | .free pid => pid ∈ s.allocated
  | .extend n => s.disk.dm.totalPages + n.toNat < 2 ^ 32
  | .write pid _ => pid ∈ s.allocated
  | .close => s.disk.opened = true → (s.disk.flushHeader io).1 = .ok
  | .openFile => s.saved = true

/-- A write to the file that fails leaves its page as it was. -/
def DiskIo.Whole (io : DiskIo) : Prop := ∀ n k, io.write n = some k → k = 0

/-! ## What a call finds and leaves -/

namespace DiskManager

/-- The link in a page. -/
def next (dm : DiskManager) (pid : Nat) : Nat := nextFree (dm.pages pid)

/-- The free list is `list`: free pages of the file, as many as the count says, and
none that is held. -/
structure Sound (dm : DiskManager) (allocated list : List Nat) : Prop where
  linked : Linked dm.next 0 dm.freeListHead list
  range : ∀ pid ∈ list, dm.Valid pid
  count : list.length = dm.freePageCount
  disjoint : ∀ pid ∈ list, pid ∉ allocated

/-- The state of a manager that is open. -/
structure Live (dm : DiskManager) (allocated : List Nat) : Prop where
  sound : ∃ list, dm.Sound allocated list
  held : ∀ pid ∈ allocated, dm.Valid pid
  pos : 0 < dm.totalPages
  bound : dm.totalPages < 2 ^ 32

theorem nextFree_freePageEntry {pid : Nat} (h : pid < 2 ^ 32) :
    nextFree (freePageEntry pid) = pid := by
  rw [nextFree, freePageEntry, readAt_writeAt_same _ _ _ (length_toLE 4 pid).symm,
    ofLE_toLE_of_lt (by omega)]

section

variable {io : DiskIo} {dm dm' : DiskManager} {allocated list : List Nat}

/-- Where the list has no page, the file may change. -/
theorem Sound.congr (h : dm.Sound allocated list) (hhead : dm'.freeListHead = dm.freeListHead)
    (hcount : dm'.freePageCount = dm.freePageCount) (htotal : dm'.totalPages = dm.totalPages)
    (hpages : ∀ pid ∈ list, dm'.pages pid = dm.pages pid) : dm'.Sound allocated list where
  linked := by
    rw [hhead]
    exact h.linked.congr fun pid hpid => by rw [next, next, hpages pid hpid]
  range pid hpid := by
    rw [Valid, htotal]
    exact h.range pid hpid
  count := by rw [h.count, hcount]
  disjoint := h.disjoint

theorem Live.congr (h : dm.Live allocated) (hhead : dm'.freeListHead = dm.freeListHead)
    (hcount : dm'.freePageCount = dm.freePageCount) (htotal : dm'.totalPages = dm.totalPages)
    (hpages : ∀ pid, dm.Valid pid → pid ∉ allocated → dm'.pages pid = dm.pages pid) :
    dm'.Live allocated where
  sound := by
    obtain ⟨list, hlist⟩ := h.sound
    exact ⟨list, hlist.congr hhead hcount htotal fun pid hpid =>
      hpages pid (hlist.range pid hpid) (hlist.disjoint pid hpid)⟩
  held pid hpid := by
    rw [Valid, htotal]
    exact h.held pid hpid
  pos := htotal ▸ h.pos
  bound := htotal ▸ h.bound

theorem Live.called (h : dm.Live allocated) : dm.called.Live allocated :=
  h.congr rfl rfl rfl fun _ _ _ => rfl

/-- New free pages come in front. -/
theorem Sound.prepend (h : dm.Sound allocated list) {allocated' front : List Nat}
    (hseg : Seg dm'.next dm'.freeListHead front dm.freeListHead)
    (hfront : ∀ pid ∈ front, dm'.Valid pid ∧ pid ∉ allocated')
    (hpages : ∀ pid ∈ list, dm'.pages pid = dm.pages pid)
    (htotal : dm.totalPages ≤ dm'.totalPages)
    (hcount : dm'.freePageCount = front.length + dm.freePageCount)
    (hsub : allocated' ⊆ allocated) : dm'.Sound allocated' (front ++ list) where
  linked := by
    refine Linked.prepend (h.linked.congr fun pid hpid => ?_) hseg fun hzero => ?_
    · rw [next, next, hpages pid hpid]
    · exact absurd (hfront 0 hzero).1.1 (Nat.lt_irrefl 0)
  range pid hpid := by
    rcases List.mem_append.mp hpid with hmem | hmem
    · exact (hfront pid hmem).1
    · exact ⟨(h.range pid hmem).1, Nat.lt_of_lt_of_le (h.range pid hmem).2 htotal⟩
  count := by rw [List.length_append, h.count, hcount]
  disjoint pid hpid := by
    rcases List.mem_append.mp hpid with hmem | hmem
    · exact (hfront pid hmem).2
    · exact fun hheld => h.disjoint pid hmem (hsub hheld)

/-- There are fewer free pages than pages. -/
theorem Sound.length_lt (h : dm.Sound allocated list) (hpos : 0 < dm.totalPages) :
    list.length < dm.totalPages := by
  have hsub : list ⊆ List.range' 1 (dm.totalPages - 1) := by
    intro pid hpid
    obtain ⟨hlow, hhigh⟩ := h.range pid hpid
    exact List.mem_range'_1.mpr ⟨hlow, by omega⟩
  have hle := (List.subperm_of_subset h.linked.nodup hsub).length_le
  rw [List.length_range'] at hle
  omega

theorem Sound.head_lt (h : dm.Sound allocated list) (hpos : 0 < dm.totalPages) :
    dm.freeListHead < dm.totalPages := by
  by_cases hzero : dm.freeListHead = 0
  · omega
  · obtain ⟨rest, rfl⟩ := h.linked.ne_nil hzero
    exact (h.range _ List.mem_cons_self).2

/-- A page write happens, or the page stays as it was. -/
theorem pwritePage_or (hio : io.Whole) (dm : DiskManager) (pid : Nat) (page : PageData) :
    dm.pwritePage io pid page = (true, dm.put pid page) ∨
      dm.pwritePage io pid page = (false, dm.called) := by
  rw [pwritePage]
  cases hw : io.write dm.calls with
  | none => exact .inl rfl
  | some n =>
    refine .inr ?_
    obtain rfl := hio _ _ hw
    have htorn : torn 0 page (dm.pages pid) = dm.pages pid := by
      funext a
      exact if_neg (Nat.not_lt_zero a)
    dsimp only
    rw [htorn, put, Function.update_eq_self]
    rfl

/-! A page that is held is written or freed. -/

theorem live_writePage (h : dm.Live allocated) {pid : Nat} (hpid : pid ∈ allocated)
    (page : PageData) : (dm.writePage io pid page).2.Live allocated := by
  have hput : ∀ page', (dm.put pid page').Live allocated := fun page' =>
    h.congr rfl rfl rfl fun other _ hother => by
      have hne : other ≠ pid := fun heq => hother (heq ▸ hpid)
      rw [pages_put, Function.update_of_ne hne]
  rw [writePage, if_pos (h.held pid hpid)]
  split
  · exact hput _
  · exact hput _

theorem live_freePage (hio : io.Whole) (h : dm.Live allocated) {pid : Nat}
    (hpid : pid ∈ allocated) :
    (dm.freePage io pid).2.Live
      (if (dm.freePage io pid).1 = .ok then allocated.filter (· ≠ pid) else allocated) := by
  obtain ⟨list, hlist⟩ := h.sound
  have hvalid := h.held pid hpid
  rw [freePage, if_pos hvalid]
  rcases pwritePage_or hio dm pid (freePageEntry dm.freeListHead) with hw | hw
  · rw [hw]
    dsimp only
    rw [if_pos rfl]
    have hbound := h.bound
    have hhead := hlist.head_lt h.pos
    have hlen := hlist.length_lt h.pos
    rw [hlist.count] at hlen
    have hcount : (dm.freePageCount + 1) % 2 ^ 32 = 1 + dm.freePageCount := by omega
    refine ⟨⟨[pid] ++ list, hlist.prepend ⟨rfl, ?_⟩ ?_ ?_ (Nat.le_refl _) hcount ?_⟩, ?_, h.pos,
      hbound⟩
    · rw [seg_nil, next, pages_put, Function.update_self, nextFree_freePageEntry (by omega)]
    · intro other hother
      obtain rfl := List.mem_singleton.mp hother
      exact ⟨hvalid, by simp⟩
    · intro other hother
      have hne : other ≠ pid := fun heq => hlist.disjoint pid (heq ▸ hother) hpid
      rw [pages_put, Function.update_of_ne hne]
    · exact fun other hother => (List.mem_filter.mp hother).1
    · exact fun other hother => h.held other (List.mem_filter.mp hother).1
  · rw [hw]
    exact h.called

/-! Pages are added. -/

theorem chainFree_fields (hio : io.Whole) (newTotal : Nat) (pids : List Nat) (dm : DiskManager) :
    (chainFree io newTotal pids dm).2.freeListHead = dm.freeListHead ∧
      (chainFree io newTotal pids dm).2.freePageCount = dm.freePageCount ∧
      (chainFree io newTotal pids dm).2.totalPages = dm.totalPages ∧
      ∀ pid, pid ∉ pids → (chainFree io newTotal pids dm).2.pages pid = dm.pages pid := by
  induction pids generalizing dm with
  | nil => exact ⟨rfl, rfl, rfl, fun _ _ => rfl⟩
  | cons first pids ih =>
    rw [chainFree]
    rcases pwritePage_or hio dm first
      (freePageEntry (if first + 1 < newTotal then first + 1 else dm.freeListHead)) with hw | hw
    · rw [hw]
      obtain ⟨hhead, hcount, htotal, hpages⟩ := ih (dm.put first _)
      refine ⟨hhead, hcount, htotal, fun pid hpid => ?_⟩
      rw [List.mem_cons, not_or] at hpid
      rw [hpages pid hpid.2, pages_put, Function.update_of_ne hpid.1]
    · rw [hw]
      exact ⟨rfl, rfl, rfl, fun _ _ => rfl⟩

/-- When the loop is through, each page holds the link it was to hold. -/
theorem chainFree_next (hio : io.Whole) {newTotal : Nat} {pids : List Nat} {dm : DiskManager}
    (hdone : (chainFree io newTotal pids dm).1 = true) (hnodup : pids.Nodup)
    (htotal : newTotal < 2 ^ 32) (hhead : dm.freeListHead < 2 ^ 32) :
    ∀ pid ∈ pids, (chainFree io newTotal pids dm).2.next pid =
      if pid + 1 < newTotal then pid + 1 else dm.freeListHead := by
  induction pids generalizing dm with
  | nil => exact fun _ hpid => absurd hpid List.not_mem_nil
  | cons first pids ih =>
    obtain ⟨hfirst, hnodup⟩ := List.nodup_cons.mp hnodup
    rw [chainFree] at hdone ⊢
    rcases pwritePage_or hio dm first
      (freePageEntry (if first + 1 < newTotal then first + 1 else dm.freeListHead)) with hw | hw
    · rw [hw] at hdone ⊢
      dsimp only at hdone ⊢
      refine List.forall_mem_cons.mpr ⟨?_, fun pid hpid => ?_⟩
      · rw [next, (chainFree_fields hio newTotal pids _).2.2.2 first hfirst, pages_put,
          Function.update_self, nextFree_freePageEntry]
        split <;> omega
      · exact ih hdone hnodup hhead pid hpid
    · rw [hw] at hdone
      exact absurd hdone (by simp)

/-- A batch of pages that each point to the next. -/
theorem seg_range' {next : Nat → Nat} (stop : Nat) : ∀ (n first : Nat), 0 < n →
    (∀ pid ∈ List.range' first n, next pid = if pid + 1 < first + n then pid + 1 else stop) →
      Seg next first (List.range' first n) stop := by
  intro n
  induction n with
  | zero => exact fun _ hpos => absurd hpos (Nat.lt_irrefl 0)
  | succ n ih =>
    intro first _ hnext
    rw [List.range'_succ] at hnext ⊢
    obtain ⟨hfirst, hrest⟩ := List.forall_mem_cons.mp hnext
    refine ⟨rfl, ?_⟩
    rw [hfirst]
    by_cases hn : n = 0
    · subst hn
      rw [if_neg (by omega)]
      rfl
    · rw [if_pos (by omega)]
      refine ih (first + 1) (by omega) fun pid hpid => ?_
      rw [hrest pid hpid, show first + 1 + n = first + (n + 1) by omega]

/-- A finished loop puts its pages in front of the list. -/
theorem live_extended (hio : io.Whole) (h : dm.Live allocated) {additional : Nat}
    (hpos : 0 < additional) (htotal : dm.totalPages + additional < 2 ^ 32) {pages : DiskManager}
    (hdone : chainFree io (dm.totalPages + additional)
      (List.range' dm.totalPages additional) dm.called = (true, pages)) :
    Live { pages with
      freeListHead := dm.totalPages
      freePageCount := (dm.freePageCount + additional) % 2 ^ 32
      totalPages := dm.totalPages + additional } allocated := by
  obtain ⟨list, hlist⟩ := h.sound
  have hhead := hlist.head_lt h.pos
  have hlen := hlist.length_lt h.pos
  rw [hlist.count] at hlen
  have hnext := chainFree_next hio (congrArg Prod.fst hdone) List.nodup_range' htotal
    (Nat.lt_trans hhead h.bound)
  have hsame := (chainFree_fields hio (dm.totalPages + additional)
    (List.range' dm.totalPages additional) dm.called).2.2.2
  rw [hdone] at hnext hsame
  have hcount : (dm.freePageCount + additional) % 2 ^ 32 =
      (List.range' dm.totalPages additional).length + dm.freePageCount := by
    rw [List.length_range', Nat.mod_eq_of_lt (by omega), Nat.add_comm]
  refine ⟨⟨_, hlist.prepend (seg_range' dm.freeListHead additional dm.totalPages hpos hnext) ?_ ?_
    (Nat.le_add_right _ _) hcount (List.Subset.refl _)⟩, ?_, ?_, htotal⟩
  · intro pid hpid
    obtain ⟨hlow, hhigh⟩ := List.mem_range'_1.mp hpid
    exact ⟨⟨Nat.lt_of_lt_of_le h.pos hlow, hhigh⟩, fun hmem =>
      absurd (h.held pid hmem).2 (Nat.not_lt.mpr hlow)⟩
  · intro pid hpid
    refine hsame pid fun hmem => ?_
    exact absurd (hlist.range pid hpid).2 (Nat.not_lt.mpr (List.mem_range'_1.mp hmem).1)
  · exact fun pid hpid => ⟨(h.held pid hpid).1, Nat.lt_add_right _ (h.held pid hpid).2⟩
  · exact Nat.lt_of_lt_of_le h.pos (Nat.le_add_right _ _)

theorem live_extend (hio : io.Whole) (h : dm.Live allocated) {additional : Nat}
    (htotal : dm.totalPages + additional < 2 ^ 32) :
    (dm.extend io additional).2.Live allocated ∧
      ((dm.extend io additional).1 = .ok → (dm.extend io additional).2.freeListHead ≠ 0) := by
  rw [extend, Nat.mod_eq_of_lt htotal, Nat.add_sub_cancel_left]
  split
  · exact ⟨h, fun herr => absurd herr (by simp)⟩
  rename_i hpos
  split
  · exact ⟨h, fun herr => absurd herr (by simp)⟩
  split
  · split
    · rename_i pages hdone
      exact ⟨live_extended hio h (Nat.pos_of_ne_zero hpos) htotal hdone,
        fun _ => Nat.ne_of_gt h.pos⟩
    · -- the pages written lie behind the end, and nothing points to them
      rename_i pages hdone
      obtain ⟨hhead, hcount, hsize, hpages⟩ := chainFree_fields hio (dm.totalPages + additional)
        (List.range' dm.totalPages additional) dm.called
      rw [hdone] at hhead hcount hsize hpages
      refine ⟨h.congr hhead hcount hsize fun pid hvalid _ => hpages pid fun hmem => ?_,
        fun herr => absurd herr (by simp)⟩
      exact absurd hvalid.2 (Nat.not_lt.mpr (List.mem_range'_1.mp hmem).1)
  · exact ⟨h.called, fun herr => absurd herr (by simp)⟩

/-! A page is allocated. -/

/-- The cached fields once the head is taken off. -/
def popped (dm : DiskManager) : DiskManager :=
  { dm.called with
    freeListHead := dm.next dm.freeListHead
    freePageCount := (dm.freePageCount + 2 ^ 32 - 1) % 2 ^ 32 }

/-- `disk_alloc_page` from a list that is not empty. -/
def popFree (io : DiskIo) (dm : DiskManager) : Nat × DiskManager :=
  if io.read dm.calls then
    match dm.popped.pwritePage io dm.freeListHead zeroPage with
    | (true, dm') => (dm.freeListHead, dm')
    | (false, dm') =>
      (0, { dm' with
        freeListHead := dm.freeListHead
        freePageCount := (dm'.freePageCount + 1) % 2 ^ 32 })
  else (0, dm.called)

theorem allocPage_of_ne (h : dm.freeListHead ≠ 0) : dm.allocPage io = dm.popFree io := by
  rw [allocPage, if_neg h]
  rfl

theorem allocPage_of_extend (h : dm.freeListHead = 0) (hok : (dm.extend io dbExtendPages).1 = .ok) :
    dm.allocPage io = (dm.extend io dbExtendPages).2.popFree io := by
  rw [allocPage, if_pos h]
  rcases hext : dm.extend io dbExtendPages with ⟨err, dm'⟩
  rw [hext] at hok
  obtain rfl : err = .ok := hok
  rfl

theorem allocPage_of_failed (h : dm.freeListHead = 0) (hfail : (dm.extend io dbExtendPages).1 ≠ .ok) :
    dm.allocPage io = (0, (dm.extend io dbExtendPages).2) := by
  rw [allocPage, if_pos h]
  rcases hext : dm.extend io dbExtendPages with ⟨err, dm'⟩
  rw [hext] at hfail
  cases err <;> first | exact absurd rfl hfail | rfl

/-- What is known of a page handed out: nobody held it, and it is empty. -/
def Fresh (allocated : List Nat) (r : Nat × DiskManager) : Prop :=
  r.1 ≠ 0 → r.1 ∉ allocated ∧ r.2.pages r.1 = zeroPage

theorem live_popFree (hio : io.Whole) (h : dm.Live allocated) (hhead : dm.freeListHead ≠ 0) :
    (dm.popFree io).2.Live
        (if (dm.popFree io).1 = 0 then allocated else (dm.popFree io).1 :: allocated) ∧
      Fresh allocated (dm.popFree io) := by
  obtain ⟨list, hlist⟩ := h.sound
  obtain ⟨rest, rfl⟩ := hlist.linked.ne_nil hhead
  have hlen := hlist.length_lt h.pos
  have hbound := h.bound
  have hcount := hlist.count
  rw [List.length_cons] at hlen hcount
  have hpopped : dm.popped.freePageCount = rest.length := by
    change (dm.freePageCount + 2 ^ 32 - 1) % 2 ^ 32 = _
    omega
  rw [popFree]
  split
  · rcases pwritePage_or hio dm.popped dm.freeListHead zeroPage with hw | hw
    · rw [hw]
      dsimp only
      rw [if_neg hhead]
      obtain ⟨hfirst, hrest⟩ := List.forall_mem_cons.mp hlist.range
      have hout := (List.nodup_cons.mp hlist.linked.nodup).1
      have hsame : ∀ pid ∈ rest, (dm.popped.put dm.freeListHead zeroPage).pages pid = dm.pages pid := by
        intro pid hpid
        have hne : pid ≠ dm.freeListHead := fun heq => hout (heq ▸ hpid)
        rw [pages_put, Function.update_of_ne hne]
        rfl
      refine ⟨⟨⟨rest, ?_, hrest, hpopped.symm, ?_⟩, ?_, h.pos, hbound⟩, fun _ => ⟨?_, ?_⟩⟩
      · exact hlist.linked.tail.congr fun pid hpid => by rw [next, next, hsame pid hpid]
      · intro pid hpid hmem
        rcases List.mem_cons.mp hmem with rfl | hmem
        · exact hout hpid
        · exact hlist.disjoint pid (List.mem_cons_of_mem _ hpid) hmem
      · exact List.forall_mem_cons.mpr ⟨hfirst, h.held⟩
      · exact hlist.disjoint _ List.mem_cons_self
      · exact Function.update_self ..
    · rw [hw]
      dsimp only
      rw [if_pos rfl]
      have hback : (dm.popped.called.freePageCount + 1) % 2 ^ 32 = dm.freePageCount := by
        change (dm.popped.freePageCount + 1) % 2 ^ 32 = _
        omega
      exact ⟨h.congr rfl hback rfl fun _ _ _ => rfl, fun hne => absurd rfl hne⟩
  · exact ⟨h.called, fun hne => absurd rfl hne⟩

/-- **An allocation** takes its page from the free list. -/
theorem live_allocPage (hio : io.Whole) (h : dm.Live allocated)
    (htotal : dm.freeListHead = 0 → dm.totalPages + dbExtendPages < 2 ^ 32) :
    (dm.allocPage io).2.Live
        (if (dm.allocPage io).1 = 0 then allocated else (dm.allocPage io).1 :: allocated) ∧
      Fresh allocated (dm.allocPage io) := by
  by_cases hhead : dm.freeListHead = 0
  · obtain ⟨hlive, hne⟩ := live_extend hio h (htotal hhead)
    by_cases hok : (dm.extend io dbExtendPages).1 = .ok
    · rw [allocPage_of_extend hhead hok]
      exact live_popFree hio hlive (hne hok)
    · rw [allocPage_of_failed hhead hok]
      exact ⟨hlive, fun hne => absurd rfl hne⟩
  · rw [allocPage_of_ne hhead]
    exact live_popFree hio h hhead

/-! The header goes out and comes back. -/

theorem loadHeader_headerPage {totalPages freeListHead freePageCount : Nat}
    (hpage : dm.pages 0 = headerPage totalPages freeListHead freePageCount)
    (htotal : totalPages < 2 ^ 32) (hhead : freeListHead < 2 ^ 32)
    (hcount : freePageCount < 2 ^ 32) :
    validateHeader (dm.pages 0) = true ∧
      dm.loadHeader = dm.withHeader totalPages freeListHead freePageCount := by
  have hread : readAt (dm.pages 0) 0 28 = dbFileMagic ++ (toLE 4 2 ++ (toLE 4 4096 ++
      (toLE 4 totalPages ++ (toLE 4 freeListHead ++ toLE 4 freePageCount)))) := by
    rw [hpage, headerPage, readAt_writeAt_same _ _ _ (by simp [dbFileMagic])]
  obtain ⟨hmagic, hread⟩ := readAt_eq_append hread
  obtain ⟨hversion, hread⟩ := readAt_eq_append hread
  obtain ⟨hsize, hread⟩ := readAt_eq_append hread
  obtain ⟨h1, hread⟩ := readAt_eq_append hread
  obtain ⟨h2, h3⟩ := readAt_eq_append hread
  have hlen : dbFileMagic.length = 8 := rfl
  simp only [length_toLE, hlen, Nat.zero_add, Nat.reduceAdd] at hmagic hversion hsize h1 h2 h3
  constructor
  · rw [validateHeader, hmagic, hversion, hsize]
    decide
  · rw [loadHeader, h1, h2, h3, ofLE_toLE_of_lt htotal, ofLE_toLE_of_lt hhead,
      ofLE_toLE_of_lt hcount]

/-- The manager with its header written. -/
def flushed (dm : DiskManager) : DiskManager :=
  dm.put 0 (headerPage dm.totalPages dm.freeListHead dm.freePageCount)

/-- Page 0 is none of those the list or its users have, and what it holds now is what
will be loaded. -/
theorem live_flushed (h : dm.Live allocated) :
    dm.flushed.Live allocated ∧ validateHeader (dm.flushed.pages 0) = true ∧
      dm.flushed.loadHeader.Live allocated := by
  obtain ⟨list, hlist⟩ := h.sound
  have hlen := hlist.length_lt h.pos
  rw [hlist.count] at hlen
  have hbound := h.bound
  have hhead := hlist.head_lt h.pos
  have hpage : dm.flushed.pages 0 =
      headerPage dm.totalPages dm.freeListHead dm.freePageCount := by
    rw [flushed, pages_put, Function.update_self]
  have hother : ∀ pid, dm.Valid pid → pid ∉ allocated → dm.flushed.pages pid = dm.pages pid := by
    intro pid hvalid _
    rw [flushed, pages_put, Function.update_of_ne (Nat.ne_of_gt hvalid.1)]
  obtain ⟨hvalid, hload⟩ := loadHeader_headerPage hpage hbound (by omega) (by omega)
  refine ⟨h.congr rfl rfl rfl hother, hvalid, ?_⟩
  rw [hload]
  exact h.congr rfl rfl rfl hother

end

end DiskManager

open DiskManager

variable {io : DiskIo} {s : DiskRun}

/-! ## Every run -/

/-- What holds between two calls: of the cached fields always, of the whole manager
while the file is open, and of page 0 once it was closed. -/
structure Kept (s : DiskRun) : Prop where
  sound : ∃ list, s.disk.dm.Sound s.allocated list
  opened : s.disk.opened = true →
    s.disk.dm.Live s.allocated ∧ s.disk.present = true ∧ s.saved = false
  saved : s.saved = true → s.disk.opened = false ∧ s.disk.present = true ∧
    validateHeader (s.disk.dm.pages 0) = true ∧ s.disk.dm.loadHeader.Live s.allocated
  fresh : s.disk.present = false → s.allocated = []

theorem sound_empty {dm : DiskManager} {allocated : List Nat} (hhead : dm.freeListHead = 0)
    (hcount : dm.freePageCount = 0) : dm.Sound allocated [] where
  linked := hhead ▸ Linked.empty
  range := fun _ hpid => absurd hpid List.not_mem_nil
  count := hcount.symm
  disjoint := fun _ hpid => absurd hpid List.not_mem_nil

/-- An operation on an open file keeps the whole if it keeps the manager. -/
theorem Kept.whenOpen (h : Kept s) {β : Type} (closed : β) (f : DiskManager → β × DiskManager)
    (allocated : List Nat)
    (hlive : s.disk.opened = true → s.disk.dm.Live s.allocated → (f s.disk.dm).2.Live allocated)
    (hclosed : s.disk.opened = false → allocated = s.allocated) :
    Kept ⟨(Disk.whenOpen closed f s.disk).2, allocated, s.saved⟩ := by
  rw [Disk.whenOpen]
  by_cases hopen : s.disk.opened = true
  · obtain ⟨hl, hpresent, hsaved⟩ := h.opened hopen
    rw [if_pos hopen]
    have hl' := hlive hopen hl
    refine ⟨hl'.sound, fun _ => ⟨hl', hpresent, hsaved⟩, fun hs => ?_, fun hp => ?_⟩
    · rw [hsaved] at hs
      exact absurd hs (by simp)
    · rw [hpresent] at hp
      exact absurd hp (by simp)
  · rw [if_neg hopen, hclosed (by simpa using hopen)]
    exact h

/-- The manager forgets, and the file is as it was. -/
theorem Kept.cleared (h : Kept s) {disk : Disk} (hhead : disk.dm.freeListHead = 0)
    (hcount : disk.dm.freePageCount = 0) (hpages : disk.dm.pages = s.disk.dm.pages)
    (hopened : disk.opened = false) (hpresent : disk.present = s.disk.present) :
    Kept { s with disk := disk } where
  sound := ⟨[], sound_empty hhead hcount⟩
  opened hopen := by
    rw [hopened] at hopen
    exact absurd hopen (by simp)
  saved hsaved := by
    obtain ⟨-, hthere, hvalid, hlive⟩ := h.saved hsaved
    refine ⟨hopened, hpresent ▸ hthere, hpages ▸ hvalid, ?_⟩
    have hload : ∀ pid, disk.dm.loadHeader.pages pid = s.disk.dm.loadHeader.pages pid := by
      intro pid
      exact congrFun hpages pid
    refine hlive.congr ?_ ?_ ?_ fun pid _ _ => hload pid
    all_goals
      simp only [loadHeader, withHeader, hpages]
  fresh hp := h.fresh (hpresent ▸ hp)

/-- A file that was not there and was not finished. -/
theorem kept_unfinished {dm : DiskManager} {allocated : List Nat} (hhead : dm.freeListHead = 0)
    (hcount : dm.freePageCount = 0) : Kept ⟨⟨dm, false, true⟩, allocated, false⟩ where
  sound := ⟨[], sound_empty hhead hcount⟩
  opened hopen := absurd hopen (by simp)
  saved hsaved := absurd hsaved (by simp)
  fresh hp := absurd hp (by simp)

theorem kept_opened {disk : Disk} {allocated : List Nat} (h : disk.dm.Live allocated)
    (hpresent : disk.present = true) : Kept ⟨disk, allocated, false⟩ where
  sound := h.sound
  opened _ := ⟨h, hpresent, rfl⟩
  saved hsaved := absurd hsaved (by simp)
  fresh hp := by
    rw [hpresent] at hp
    exact absurd hp (by simp)

theorem kept_saved {disk : Disk} {allocated : List Nat} (hsound : disk.dm.Live allocated)
    (hopened : disk.opened = false) (hpresent : disk.present = true)
    (hvalid : validateHeader (disk.dm.pages 0) = true) (hlive : disk.dm.loadHeader.Live allocated) :
    Kept ⟨disk, allocated, true⟩ where
  sound := hsound.sound
  opened hopen := by
    rw [hopened] at hopen
    exact absurd hopen (by simp)
  saved _ := ⟨hopened, hpresent, hvalid, hlive⟩
  fresh hp := by
    rw [hpresent] at hp
    exact absurd hp (by simp)

/-- The list of a new file: all pages but the first. -/
theorem live_created (hio : io.Whole) {dm pages : DiskManager} (hhead : dm.freeListHead = 0)
    {initialPages : Nat} (htwo : 2 ≤ initialPages) (hbound : initialPages < 2 ^ 32)
    (hdone : chainFree io initialPages (List.range' 1 (initialPages - 1)) dm = (true, pages)) :
    (pages.called.withHeader initialPages 1 (initialPages - 1)).Live [] := by
  have hnext := chainFree_next hio (congrArg Prod.fst hdone) List.nodup_range' hbound
    (show dm.freeListHead < 2 ^ 32 by omega)
  rw [hdone, hhead] at hnext
  have hlen : 1 + (initialPages - 1) = initialPages := by omega
  have hseg := seg_range' 0 (initialPages - 1) 1 (by omega)
    (by rw [hlen]; exact hnext)
  refine ⟨⟨List.range' 1 (initialPages - 1), ⟨hseg, fun hzero => ?_⟩, fun pid hpid => ?_, ?_,
    fun _ _ => List.not_mem_nil⟩, fun _ hpid => absurd hpid List.not_mem_nil, ?_, hbound⟩
  · exact absurd (List.mem_range'_1.mp hzero).1 (by omega)
  · obtain ⟨hlow, hhigh⟩ := List.mem_range'_1.mp hpid
    exact ⟨hlow, show pid < initialPages by omega⟩
  · exact List.length_range'
  · exact show 0 < initialPages by omega

theorem kept_create (hio : io.Whole) (h : Kept s) (n : UInt32) :
    Kept { s with disk := (s.disk.create io n.toNat).2 } := by
  rw [Disk.create]
  split
  · exact h
  rename_i htwo
  dsimp only
  split
  · exact h.cleared rfl rfl rfl rfl rfl
  rename_i hnew
  -- there was no file, so no page is held and nothing was saved
  have hpresent : s.disk.present = false := by
    rw [Bool.or_eq_true, not_or] at hnew
    exact Bool.eq_false_iff.mpr hnew.1
  have hsaved : s.saved = false := by
    by_contra hs
    have hthere := (h.saved (by simpa using hs)).2.1
    rw [hpresent] at hthere
    exact absurd hthere (by simp)
  rw [h.fresh hpresent, hsaved]
  split
  · exact kept_unfinished rfl rfl
  rcases pwritePage_or hio
    { s.disk.cleared.called.dm.called with pages := fun _ => zeroPage } 0
    (headerPage n.toNat 1 (n.toNat - 1)) with hw | hw
  · rw [hw]
    dsimp only
    split
    · rename_i dm hdone
      obtain ⟨hhead, hcount, -, -⟩ := chainFree_fields hio n.toNat (List.range' 1 (n.toNat - 1))
        (put { s.disk.cleared.called.dm.called with pages := fun _ => zeroPage } 0
          (headerPage n.toNat 1 (n.toNat - 1)))
      rw [hdone] at hhead hcount
      exact kept_unfinished hhead hcount
    · rename_i dm hdone
      exact kept_opened (live_created hio rfl (by omega) n.toNat_lt hdone) rfl
  · rw [hw]
    exact kept_unfinished rfl rfl

theorem kept_openFile (h : Kept s) (hsaved : s.saved = true) :
    Kept (s.step io .openFile) := by
  obtain ⟨-, hpresent, hvalid, hlive⟩ := h.saved hsaved
  have hfailed : ∀ disk : Disk, disk.dm.freeListHead = 0 → disk.dm.freePageCount = 0 →
      disk.dm.pages = s.disk.dm.pages → disk.opened = false → disk.present = s.disk.present →
        Kept ⟨disk, s.allocated, s.saved && !disk.opened⟩ := by
    intro disk hhead hcount hpages hopened hp
    rw [hopened, Bool.not_false, Bool.and_true]
    exact h.cleared hhead hcount hpages hopened hp
  rw [DiskRun.step, Disk.openFile]
  dsimp only
  split
  · exact hfailed _ rfl rfl rfl rfl rfl
  split
  · rw [if_pos (show validateHeader (s.disk.cleared.called.dm.pages 0) = true from hvalid)]
    dsimp only
    rw [Bool.not_true, Bool.and_false]
    have hload : Live (loadHeader s.disk.cleared.called.dm.called) s.allocated :=
      hlive.congr rfl rfl rfl fun _ _ _ => rfl
    exact kept_opened hload hpresent
  · exact hfailed _ rfl rfl rfl rfl rfl

theorem flushHeader_of_ok (hio : io.Whole) {d : Disk} (hopen : d.opened = true)
    (hok : (d.flushHeader io).1 = .ok) : (d.flushHeader io).2 = { d with dm := d.dm.flushed } := by
  rw [Disk.flushHeader, Disk.whenOpen, if_pos hopen] at hok ⊢
  rcases pwritePage_or hio d.dm 0
    (headerPage d.dm.totalPages d.dm.freeListHead d.dm.freePageCount) with hw | hw
  · rw [hw]
    rfl
  · rw [hw] at hok
    exact absurd hok (by simp)

theorem kept_close (hio : io.Whole) (h : Kept s)
    (hok : s.disk.opened = true → (s.disk.flushHeader io).1 = .ok) :
    Kept (s.step io .close) := by
  rw [DiskRun.step, Disk.close]
  by_cases hopen : s.disk.opened = true
  · obtain ⟨hlive, hpresent, -⟩ := h.opened hopen
    obtain ⟨hflushed, hvalid, hload⟩ := live_flushed hlive
    rw [if_pos hopen, hopen, Bool.or_true, flushHeader_of_ok hio hopen (hok hopen)]
    exact kept_saved hflushed.called rfl hpresent hvalid (hload.congr rfl rfl rfl fun _ _ _ => rfl)
  · rw [if_neg hopen, Bool.eq_false_iff.mpr hopen, Bool.or_false]
    exact h

theorem kept_start : Kept DiskRun.start where
  sound := ⟨[], sound_empty rfl rfl⟩
  opened hopen := absurd hopen (by simp [DiskRun.start])
  saved hsaved := absurd hsaved (by simp [DiskRun.start])
  fresh _ := rfl

theorem kept_step (hio : io.Whole) (h : Kept s) {call : DiskCall} (hok : s.Allowed io call) :
    Kept (s.step io call) := by
  cases call with
  | create n => exact kept_create hio h n
  | alloc =>
    refine h.whenOpen 0 (DiskManager.allocPage io)
      (if (s.disk.alloc io).1 = 0 then s.allocated else (s.disk.alloc io).1 :: s.allocated)
      (fun hopen hlive => ?_) fun hclosed => ?_
    · rw [Disk.alloc, Disk.whenOpen, if_pos hopen]
      exact (live_allocPage hio hlive hok).1
    · rw [Disk.alloc, Disk.whenOpen, hclosed]
      rfl
  | free pid =>
    refine h.whenOpen .fileOpen (DiskManager.freePage io · pid)
      (if (s.disk.free io pid).1 = .ok then s.allocated.filter (· ≠ pid) else s.allocated)
      (fun hopen hlive => ?_) fun hclosed => ?_
    · rw [Disk.free, Disk.whenOpen, if_pos hopen]
      exact live_freePage hio hlive hok
    · rw [Disk.free, Disk.whenOpen, hclosed]
      rfl
  | extend n =>
    exact h.whenOpen .fileOpen (DiskManager.extend io · n.toNat) s.allocated
      (fun _ hlive => (live_extend hio hlive hok).1) fun _ => rfl
  | write pid page =>
    exact h.whenOpen .fileOpen (DiskManager.writePage io · pid page) s.allocated
      (fun _ hlive => live_writePage hlive hok page) fun _ => rfl
  | close => exact kept_close hio h hok
  | openFile => exact kept_openFile h hok

/-- The states a file and its users come to. -/
abbrev DiskRun.Reached (io : DiskIo) : DiskRun → Prop :=
  Reaches (DiskRun.step io) (DiskRun.Allowed io) DiskRun.start

theorem kept_of_reached (hio : io.Whole) (h : DiskRun.Reached io s) : Kept s :=
  h.invariant kept_start fun _ _ hkept hok => kept_step hio hkept hok

/-- **The free list is sound in every run**: followed from the cached head it ends,
its pages are distinct pages of the file behind the header, as many as the cached
count says and none of them held; and a page handed out is one that nobody held,
and is empty. -/
theorem freeList_sound (hio : io.Whole) (h : DiskRun.Reached io s) :
    (∃ list, s.disk.dm.Sound s.allocated list ∧ list.Nodup) ∧
      (s.Allowed io .alloc → (s.disk.alloc io).1 ≠ 0 →
        (s.disk.alloc io).1 ∉ s.allocated ∧
          (s.disk.alloc io).2.dm.pages (s.disk.alloc io).1 = zeroPage) := by
  have hkept := kept_of_reached hio h
  constructor
  · obtain ⟨list, hlist⟩ := hkept.sound
    exact ⟨list, hlist, hlist.linked.nodup⟩
  · intro hok hne
    by_cases hopen : s.disk.opened = true
    · obtain ⟨hlive, -⟩ := hkept.opened hopen
      have hfresh := (live_allocPage hio hlive hok).2
      rw [Disk.alloc, Disk.whenOpen, if_pos hopen] at hne ⊢
      exact hfresh hne
    · rw [Disk.alloc, Disk.whenOpen, if_neg hopen] at hne
      exact absurd rfl hne

/-- A new file of four pages, of which the first free one is allocated. -/
def onePageHeld : DiskRun := (DiskRun.start.step .good (.create 4)).step .good .alloc

example : onePageHeld.allocated = [1] ∧ onePageHeld.disk.dm.freePageCount = 2 := by decide

theorem onePageHeld_sound :
    (∃ list, onePageHeld.disk.dm.Sound onePageHeld.allocated list ∧ list.Nodup) ∧
      (onePageHeld.Allowed .good .alloc → (onePageHeld.disk.alloc .good).1 ≠ 0 →
        (onePageHeld.disk.alloc .good).1 ∉ onePageHeld.allocated ∧
          (onePageHeld.disk.alloc .good).2.dm.pages (onePageHeld.disk.alloc .good).1 = zeroPage) :=
  have hcreated : DiskRun.Reached .good (DiskRun.start.step .good (.create 4)) :=
    Reaches.start.next trivial
  freeList_sound (fun _ _ h => absurd h (by simp [DiskIo.good]))
    (hcreated.next fun h => absurd h (by decide))

end OnionRelay.Db
