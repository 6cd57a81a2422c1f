import OnionRelay.Db.Wal.Recovery

/-!
# Recovering twice

Which images the two phases put on the pages depends on the log alone, so a byte is
afterwards what the last image that reaches it holds, or as it was if none does
(`recoverRecords_writes`).  The second recovery puts the same images there.
-/

namespace OnionRelay.Db

open OnionRelay.Lib

/-! ## Images as writes -/

/-- The bytes that an image sets in a file of `total` pages, of which page 0 is no page to
be written. -/
def PageImage.write (total : Nat) (img : PageImage) : PageByte → Option UInt8 := fun l =>
  if (0 < img.pageId ∧ img.pageId < total) ∧ l.1 = img.pageId ∧ img.offset ≤ l.2 ∧
      l.2 < img.offset + img.bytes.length then
    some (img.bytes.getD (l.2 - img.offset) 0)
  else none

theorem PageImage.over_eq_put {img : PageImage} {disk : DiskManager} (hvalid : disk.Valid img.pageId) :
    img.over disk = Writes.put (img.write disk.totalPages) disk.bytes := by
  funext l
  rw [Writes.put, PageImage.write]
  by_cases hin : l.1 = img.pageId ∧ img.offset ≤ l.2 ∧ l.2 < img.offset + img.bytes.length
  · rw [if_pos ⟨hvalid, hin⟩, PageImage.over, pageBytes, hin.1, Function.update_self, writeAt, if_pos hin.2]
    rfl
  · have hmisses : img.Misses l := by
      intro hpage
      by_contra hreach
      exact hin ⟨hpage, by omega⟩
    rw [if_neg fun h => hin h.2, PageImage.over_of_misses hmisses]
    rfl

theorem PageImage.put_of_invalid {img : PageImage} {total : Nat}
    (h : ¬ (0 < img.pageId ∧ img.pageId < total)) (m : PageByte → UInt8) :
    Writes.put (img.write total) m = m := by
  funext l
  rw [Writes.put, PageImage.write, if_neg fun hin => h hin.1]
  rfl

/-- What images set together. -/
def writesOf (total : Nat) (images : List PageImage) : Writes PageByte UInt8 :=
  images.map (PageImage.write total)

section Loop

variable {skip : Bool} {io : DiskIo}

/-- A loop that ends well has put all images on the pages that exist. -/
theorem bytes_applyImages_writes {images : List PageImage} {disk : DiskManager}
    (hread : skip = true → ∀ n, io.read n = true) (hok : (applyImages skip io images disk).1 = .ok) :
    (applyImages skip io images disk).2.bytes =
      (writesOf disk.totalPages images).putAll disk.bytes := by
  induction images generalizing disk with
  | nil => rfl
  | cons img images ih =>
    rw [writesOf, List.map_cons, Writes.putAll_cons]
    obtain ⟨dm, htotal, -, ⟨⟨hvalid, hbytes⟩, hgo⟩ | ⟨hskip, ⟨hfailed, hbytes⟩, hgo⟩ | ⟨err, herr, hend⟩⟩ :=
      @applyImages_cons skip io img images disk
    · rw [hgo] at hok ⊢
      rw [ih hok, htotal, hbytes, PageImage.over_eq_put hvalid]
      rfl
    · have hinvalid : ¬ disk.Valid img.pageId := by
        intro hvalid
        have hgood := hread hskip disk.calls
        rw [hfailed hvalid] at hgood
        cases hgood
      rw [hgo] at hok ⊢
      rw [ih hok, htotal, hbytes, PageImage.put_of_invalid hinvalid]
      rfl
    · rw [hend] at hok
      exact absurd hok herr

/-- The undo phase ends well only if all its pages exist. -/
theorem valid_of_applyImages {images : List PageImage} {disk : DiskManager}
    (hok : (applyImages false io images disk).1 = .ok) : ∀ img ∈ images, disk.Valid img.pageId := by
  induction images generalizing disk with
  | nil => exact fun img hmem => absurd hmem List.not_mem_nil
  | cons img images ih =>
    obtain ⟨dm, htotal, -, ⟨⟨hvalid, -⟩, hgo⟩ | ⟨hskip, -, -⟩ | ⟨err, herr, hend⟩⟩ :=
      @applyImages_cons false io img images disk
    · rw [hgo] at hok
      intro img' hmem
      rcases List.mem_cons.mp hmem with rfl | hmem
      · exact hvalid
      · have hrest := ih hok img' hmem
        rwa [DiskManager.Valid, htotal] at hrest
    · cases hskip
    · rw [hend] at hok
      exact absurd hok herr

/-- If no call fails, a loop ends well that leaves unreadable pages out or finds none. -/
theorem applyImages_ok (hread : ∀ n, io.read n = true) (hwrite : ∀ n, io.write n = none)
    {images : List PageImage} {disk : DiskManager}
    (hvalid : skip = false → ∀ img ∈ images, disk.Valid img.pageId) :
    (applyImages skip io images disk).1 = .ok := by
  induction images generalizing disk with
  | nil => rfl
  | cons img images ih =>
    rw [applyImages]
    by_cases hpage : disk.Valid img.pageId
    · have hwritten : ∀ page, (disk.called).writePage io img.pageId page =
          (.ok, disk.called.put img.pageId page) := by
        intro page
        rw [DiskManager.writePage, if_pos ((DiskManager.valid_called disk _).mpr hpage), hwrite]
      rw [DiskManager.readPage_of_good hread hpage]
      simp only [hwritten]
      exact ih fun hskip img' hmem => hvalid hskip img' (List.mem_cons_of_mem img hmem)
    · have hunread : disk.readPage io img.pageId = (.error .notFound, disk) := by
        rw [DiskManager.readPage, if_neg hpage]
      cases hskip : skip with
      | false => exact absurd (hvalid hskip img List.mem_cons_self) hpage
      | true =>
        rw [hunread]
        simp only [if_pos]
        subst hskip
        exact ih fun h => by cases h

end Loop

/-! ## The phases -/

/-- The images that the undo phase puts back. -/
def undoImages (losers : List (UInt32 × WalUpdate)) : List PageImage :=
  if 2 ^ 31 ≤ losers.length % 2 ^ 32 then []
  else (losers.take (losers.length % 2 ^ 32)).reverse.map fun e => e.2.oldImage

def redoImages (rs : List WalRecord) : List PageImage := (winnersOf rs).map fun e => e.2.newImage

/-- The undo phase is the loop over its images, if it got the memory for the array or
needs none. -/
theorem undoRecords_eq {io : DiskIo} {positionsMapped : Bool} {losers : List (UInt32 × WalUpdate)}
    {disk : DiskManager} (h : positionsMapped = true ∨ (undoRecords io positionsMapped losers disk).1 = .ok) :
    undoRecords io positionsMapped losers disk = applyImages false io (undoImages losers) disk := by
  rw [undoImages]
  rw [undoRecords] at h ⊢
  by_cases hnone : losers.length % 2 ^ 32 = 0
  · rw [if_pos hnone, hnone, if_neg (by decide), List.take_zero]
    rfl
  · rw [if_neg hnone] at h ⊢
    cases positionsMapped with
    | false => rcases h with h | h <;> cases h
    | true =>
      rw [if_neg (by decide)]
      split <;> rfl

section RecoverRecords

variable {io : RecoveryIo} {rs : List WalRecord} {disk : DiskManager}

/-- What recovery sets, for a file of `total` pages. -/
def recoveryWrites (total : Nat) (rs : List WalRecord) : Writes PageByte UInt8 :=
  writesOf total (redoImages rs) ++ writesOf total (undoImages (losersOf rs))

/-- **What a recovery that ends well leaves**: what it sets depends on the log alone. -/
theorem recoverRecords_writes (hread : ∀ n, io.redo.read n = true)
    (hok : (recoverRecords io rs disk).1 = .ok) :
    (recoverRecords io rs disk).2.bytes = (recoveryWrites disk.totalPages rs).putAll disk.bytes ∧
      ∀ img ∈ undoImages (losersOf rs), disk.Valid img.pageId := by
  have htotal := @totalPages_applyImages true io.redo (redoImages rs) disk
  have hredo := @bytes_applyImages_writes true io.redo (redoImages rs) disk (fun _ => hread)
  rw [recoveryWrites, Writes.putAll_append]
  rw [redoImages] at htotal hredo ⊢
  rw [recoverRecords] at hok ⊢
  split at hok
  · rename_i redone heq
    rw [heq] at htotal hredo
    change redone.totalPages = disk.totalPages at htotal
    have hundo := undoRecords_eq (.inr hok)
    rw [hundo] at hok ⊢
    refine ⟨?_, fun img hmem => ?_⟩
    · rw [bytes_applyImages_writes (fun h => by cases h) hok, htotal, ← hredo rfl]
    · have hvalid := valid_of_applyImages hok img hmem
      rwa [DiskManager.Valid, htotal] at hvalid
  · rename_i err redone herr heq
    exact absurd hok herr

/-- A recovery in which no call fails ends well, if the pages to be put back exist. -/
theorem recoverRecords_succeeds (hmapped : io.positionsMapped = true)
    (hredo : (∀ n, io.redo.read n = true) ∧ ∀ n, io.redo.write n = none)
    (hundo : (∀ n, io.undo.read n = true) ∧ ∀ n, io.undo.write n = none)
    (hvalid : ∀ img ∈ undoImages (losersOf rs), disk.Valid img.pageId) :
    (recoverRecords io rs disk).1 = .ok := by
  have htotal := @totalPages_applyImages true io.redo (redoImages rs) disk
  have hok := @applyImages_ok true io.redo hredo.1 hredo.2 (redoImages rs) disk (fun h => by cases h)
  rw [redoImages] at htotal hok
  rw [recoverRecords]
  split
  · rename_i redone heq
    rw [heq] at htotal
    rw [undoRecords_eq (.inl hmapped)]
    refine applyImages_ok hundo.1 hundo.2 fun _ img hmem => ?_
    rw [DiskManager.Valid, htotal]
    exact hvalid img hmem
  · rename_i err redone herr heq
    rw [heq] at hok
    exact absurd hok herr

end RecoverRecords

/-! ## Recovery of the file -/

/-- The log and the pages can be read.  An error of a write is reported. -/
structure RecoveryIo.Reads (io : RecoveryIo) : Prop where
  mapped : io.mapped = true
  redo : ∀ n, io.redo.read n = true

/-- No call fails. -/
structure RecoveryIo.Good (io : RecoveryIo) : Prop extends io.Reads where
  positionsMapped : io.positionsMapped = true
  redoWrite : ∀ n, io.redo.write n = none
  undoRead : ∀ n, io.undo.read n = true
  undoWrite : ∀ n, io.undo.write n = none

theorem RecoveryIo.good_good : RecoveryIo.good.Good :=
  ⟨⟨rfl, fun _ => rfl⟩, rfl, fun _ => rfl, fun _ => rfl, fun _ => rfl⟩

/-- The second run after a first one. -/
def recoverAgain (io io' : RecoveryIo) (wal : WalManager) (disk : DiskManager) :
    NostrDBError × WalManager × DiskManager :=
  walRecover io' (walRecover io wal disk).2.1 (walRecover io wal disk).2.2

/-- One transaction commits a change, another is left with a change of the same byte. -/
def twoOwners : List WalRecord :=
  [⟨1, 0, 1, .begin⟩, ⟨2, 1, 1, .update (setByte 0 7)⟩, ⟨3, 2, 1, .commit⟩,
    ⟨4, 0, 2, .begin⟩, ⟨5, 4, 2, .update (setByte 7 9)⟩]

end OnionRelay.Db
