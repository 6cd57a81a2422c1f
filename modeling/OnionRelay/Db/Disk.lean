import Mathlib.Logic.Function.Basic
import OnionRelay.Db.Page
import OnionRelay.Lib.LittleEndian
import OnionRelay.Nostr.Types

/-!
# The disk manager

`DiskManager` is the cached header and the file behind it, page by page.  Whether
a system call succeeds is the environment's: `DiskIo` says it for each call by
its number, which `calls` counts.  Free pages are chained through their first four
bytes (`disk_alloc.c`).
-/

namespace OnionRelay.Db

open OnionRelay.Lib

/-- What the calls to the file bring: whether the `n`-th call, if it is a `pread`,
delivers its page, and how much of its page it leaves in the file if it is a
`pwrite` that falls short. -/
structure DiskIo where
  read : Nat → Bool
  write : Nat → Option Nat

/-- No call fails. -/
def DiskIo.good : DiskIo := ⟨fun _ => true, fun _ => none⟩

structure DiskManager where
  totalPages : Nat
  freeListHead : Nat
  freePageCount : Nat
  pages : Nat → PageData
  calls : Nat

namespace DiskManager

/-- Page ids a read or a write accepts. -/
def Valid (dm : DiskManager) (pid : Nat) : Prop := 0 < pid ∧ pid < dm.totalPages

instance (dm : DiskManager) (pid : Nat) : Decidable (dm.Valid pid) :=
  inferInstanceAs (Decidable (_ ∧ _))

/-- The file after a call that leaves `page` on page `pid`. -/
def put (dm : DiskManager) (pid : Nat) (page : PageData) : DiskManager :=
  { dm with pages := Function.update dm.pages pid page, calls := dm.calls + 1 }

/-- One more call that changes nothing. -/
def called (dm : DiskManager) : DiskManager := { dm with calls := dm.calls + 1 }

/-- `disk_read_page` -/
def readPage (io : DiskIo) (dm : DiskManager) (pid : Nat) :
    Except NostrDBError PageData × DiskManager :=
  if dm.Valid pid then
    (if io.read dm.calls then .ok (dm.pages pid) else .error .fileOpen, dm.called)
  else (.error .notFound, dm)

/-- What a `pwrite` of `page` leaves that ends after `n` bytes. -/
def torn (n : Nat) (page old : PageData) : PageData := fun a => if a < n then page a else old a

/-- `disk_write_page` -/
def writePage (io : DiskIo) (dm : DiskManager) (pid : Nat) (page : PageData) :
    NostrDBError × DiskManager :=
  if dm.Valid pid then
    match io.write dm.calls with
    | none => (.ok, dm.put pid page)
    | some n => (.fileCreate, dm.put pid (torn n page (dm.pages pid)))
  else (.notFound, dm)

/-- A `pwrite` of a whole page, with whether it wrote all of it. -/
def pwritePage (io : DiskIo) (dm : DiskManager) (pid : Nat) (page : PageData) :
    Bool × DiskManager :=
  match io.write dm.calls with
  | none => (true, dm.put pid page)
  | some n => (false, dm.put pid (torn n page (dm.pages pid)))

/-- `disk_sync` -/
def sync (io : DiskIo) (dm : DiskManager) : NostrDBError × DiskManager :=
  (if io.write dm.calls = none then .ok else .fileCreate, dm.called)

/-- A page with a `FreePageEntry`. -/
def freePageEntry (next : Nat) : PageData := writeAt zeroPage 0 (toLE 4 next)

def nextFree (page : PageData) : Nat := ofLE (readAt page 0 4)

/-- The loop of `disk_extend` over the pages from `pid` on. -/
def chainFree (io : DiskIo) (newTotal : Nat) : List Nat → DiskManager → Bool × DiskManager
  | [], dm => (true, dm)
  | pid :: pids, dm =>
    let next := if pid + 1 < newTotal then pid + 1 else dm.freeListHead
    match dm.pwritePage io pid (freePageEntry next) with
    | (true, dm) => chainFree io newTotal pids dm
    | (false, dm) => (false, dm)

/-- `disk_extend`; the first call is `ftruncate`. -/
def extend (io : DiskIo) (dm : DiskManager) (additional : Nat) : NostrDBError × DiskManager :=
  let newTotal := (dm.totalPages + additional) % 2 ^ 32
  if additional = 0 then (.nullParam, dm)
  else if dbMaxPages < newTotal then (.full, dm)
  else if io.write dm.calls = none then
    match chainFree io newTotal (List.range' dm.totalPages (newTotal - dm.totalPages)) dm.called with
    | (true, dm') =>
      (.ok, { dm' with
        freeListHead := dm.totalPages
        freePageCount := (dm.freePageCount + additional) % 2 ^ 32
        totalPages := newTotal })
    | (false, dm') => (.fileCreate, dm')
  else (.ftruncateFailed, dm.called)

def dbExtendPages : Nat := 128

/-- `disk_alloc_page`; 0 is `PAGE_ID_NULL`. -/
def allocPage (io : DiskIo) (dm : DiskManager) : Nat × DiskManager :=
  match (if dm.freeListHead = 0 then dm.extend io dbExtendPages else (.ok, dm)) with
  | (.ok, dm) =>
    let allocated := dm.freeListHead
    if io.read dm.calls then
      let popped := { dm.called with
        freeListHead := nextFree (dm.pages allocated)
        freePageCount := (dm.freePageCount + 2 ^ 32 - 1) % 2 ^ 32 }
      match popped.pwritePage io allocated zeroPage with
      | (true, dm) => (allocated, dm)
      | (false, dm) =>
        (0, { dm with
          freeListHead := allocated
          freePageCount := (dm.freePageCount + 1) % 2 ^ 32 })
    else (0, dm.called)
  | (_, dm) => (0, dm)

/-- `disk_free_page` -/
def freePage (io : DiskIo) (dm : DiskManager) (pid : Nat) : NostrDBError × DiskManager :=
  if dm.Valid pid then
    match dm.pwritePage io pid (freePageEntry dm.freeListHead) with
    | (true, dm) =>
      (.ok, { dm with freeListHead := pid, freePageCount := (dm.freePageCount + 1) % 2 ^ 32 })
    | (false, dm) => (.fileCreate, dm)
  else (.notFound, dm)

@[simp] theorem totalPages_put (dm : DiskManager) (pid : Nat) (page : PageData) :
    (dm.put pid page).totalPages = dm.totalPages := rfl

@[simp] theorem totalPages_called (dm : DiskManager) : dm.called.totalPages = dm.totalPages := rfl

@[simp] theorem pages_called (dm : DiskManager) : dm.called.pages = dm.pages := rfl

@[simp] theorem pages_put (dm : DiskManager) (pid : Nat) (page : PageData) :
    (dm.put pid page).pages = Function.update dm.pages pid page := rfl

@[simp] theorem valid_put (dm : DiskManager) (pid other : Nat) (page : PageData) :
    (dm.put pid page).Valid other ↔ dm.Valid other := Iff.rfl

@[simp] theorem valid_called (dm : DiskManager) (pid : Nat) :
    dm.called.Valid pid ↔ dm.Valid pid := Iff.rfl

/-- A read changes no page. -/
@[simp] theorem pages_readPage (io : DiskIo) (dm : DiskManager) (pid : Nat) :
    (dm.readPage io pid).2.pages = dm.pages := by
  rw [readPage]
  split <;> rfl

@[simp] theorem totalPages_readPage (io : DiskIo) (dm : DiskManager) (pid : Nat) :
    (dm.readPage io pid).2.totalPages = dm.totalPages := by
  rw [readPage]
  split <;> rfl

theorem readPage_of_good {io : DiskIo} (hio : ∀ n, io.read n = true) {dm : DiskManager} {pid : Nat}
    (h : dm.Valid pid) : dm.readPage io pid = (.ok (dm.pages pid), dm.called) := by
  rw [readPage, if_pos h, if_pos (hio _)]

theorem page_of_readPage {io : DiskIo} {dm : DiskManager} {pid : Nat} {page : PageData}
    (h : (dm.readPage io pid).1 = .ok page) : dm.Valid pid ∧ page = dm.pages pid := by
  rw [readPage] at h
  split at h
  · rename_i hvalid
    refine ⟨hvalid, ?_⟩
    change (if io.read dm.calls then Except.ok (dm.pages pid) else _) = Except.ok page at h
    split at h
    · exact (Except.ok.inj h).symm
    · cases h
  · cases h

theorem error_of_readPage {io : DiskIo} {dm : DiskManager} {pid : Nat} {err : NostrDBError}
    (h : (dm.readPage io pid).1 = .error err) :
    err ≠ .ok ∧ (dm.Valid pid → io.read dm.calls = false) := by
  rw [readPage] at h
  split at h
  · change (if io.read dm.calls then Except.ok (dm.pages pid) else _) = Except.error err at h
    split at h
    · cases h
    · rename_i hfailed
      cases h
      exact ⟨by decide, fun _ => by simpa using hfailed⟩
  · rename_i hvalid
    cases h
    exact ⟨by decide, fun hv => absurd hv hvalid⟩

@[simp] theorem totalPages_writePage (io : DiskIo) (dm : DiskManager) (pid : Nat) (page : PageData) :
    (dm.writePage io pid page).2.totalPages = dm.totalPages := by
  rw [writePage]
  split
  · split <;> rfl
  · rfl

theorem pages_of_writePage {io : DiskIo} {dm : DiskManager} {pid : Nat} {page : PageData}
    (h : (dm.writePage io pid page).1 = .ok) :
    (dm.writePage io pid page).2.pages = Function.update dm.pages pid page := by
  rw [writePage] at h ⊢
  split at h
  · rename_i hvalid
    rw [if_pos hvalid]
    split at h
    · rfl
    · cases h
  · cases h

/-- Whatever becomes of a write, each byte is the old one or the new one. -/
theorem pages_writePage_or (io : DiskIo) (dm : DiskManager) (pid : Nat) (page : PageData)
    (p a : Nat) : (dm.writePage io pid page).2.pages p a = dm.pages p a ∨
      p = pid ∧ (dm.writePage io pid page).2.pages p a = page a := by
  rw [writePage]
  split
  · by_cases hp : p = pid
    · subst hp
      split
      · exact .inr ⟨rfl, by simp⟩
      · rename_i n _
        change Function.update dm.pages p (torn n page (dm.pages p)) p a = _ ∨ _
        rw [Function.update_self, torn]
        by_cases ha : a < n
        · exact .inr ⟨rfl, by simp [torn, ha]⟩
        · exact .inl (if_neg ha)
    · left
      split <;> simp [Function.update_of_ne hp]
  · exact .inl rfl

end DiskManager

/-- Two pages of zeros. -/
def twoPages : DiskManager := ⟨2, 0, 0, fun _ => zeroPage, 0⟩

end OnionRelay.Db
