import OnionRelay.Db.Record.InsertFrame

/-!
# An update that fails

`record_update` deletes a record that does not stay in its place before it inserts the new
one.  `places_iff` says when the insertion succeeds, `recordInsert_error` what a failed one
leaves; `losesNothing_iff` is when a failing update leaves the old record.
-/

namespace OnionRelay.Db

open OnionRelay.Lib

/-! ## Insertions that fail -/

section Chain

variable (layer : PageLayer)

/-- A page is pinned or it is not. -/
theorem pin_cases (s : RecordStore) (pid : Nat) :
    s.pin layer pid = (some (s.flat.pages pid), s.pinned layer pid) ∨
      s.pin layer pid = (none, { s with pins := s.pins + 1 }) := by
  rw [RecordStore.pin]
  split
  · exact .inl rfl
  · exact .inr rfl

/-- The link may be missing, but nothing else is touched. -/
theorem pages_linkPrevious (s : RecordStore) (prev pid : Nat) :
    let s' := ((linkPrevious prev pid).run (recordStore layer) s).2
    s'.flat.used = s.flat.used ∧ s'.flat.requests = s.flat.requests ∧
      ∀ p, (prev ≠ 0 → p ≠ prev) → s'.flat.pages p = s.flat.pages p := by
  rw [linkPrevious]
  split
  · next h0 =>
    rw [Prog.run_bind, run_poolPin]
    rcases pin_cases layer s prev with hpin | hpin
    · rw [hpin]
      exact ⟨rfl, rfl, fun p hp => pages_set_of_ne s.flat _ (hp h0)⟩
    · rw [hpin]
      exact ⟨rfl, rfl, fun _ _ => rfl⟩
  · exact ⟨rfl, rfl, fun _ _ => rfl⟩

theorem chunkCount_zero : chunkCount 0 = 0 := rfl

theorem chunkCount_drop {remaining : List UInt8} (hne : remaining ≠ []) :
    chunkCount remaining.length = chunkCount (remaining.drop overflowDataSpace).length + 1 := by
  have hpos := List.length_pos_of_ne_nil hne
  have hspace : overflowDataSpace = 4088 := rfl
  rw [List.length_drop, chunkCount, chunkCount]
  omega

/-- What an insertion that took `n` pages left of the pages in `kept`. -/
structure Took (kept : List Nat) (n : Nat) (s s' : RecordStore) : Prop where
  pages : ∀ p ∈ kept, s'.flat.pages p = s.flat.pages p
  used : kept ⊆ s'.flat.used
  requests : s'.flat.requests = s.flat.requests + n
  count : s'.flat.used.length = s.flat.used.length + n

/-- **The loop of an insertion**, whatever is granted: it takes all its pages, or one of them is
refused.  Pages in use are left alone. -/
theorem run_buildChain_cases {kept : List Nat} : ∀ {fuel : Nat} {remaining : List UInt8} (first : Nat)
    {prev : Nat} {s : RecordStore}, remaining.length ≤ fuel → kept ⊆ s.flat.used →
      (prev ≠ 0 → prev ∉ kept) → s.flat.RoomFor layer.grantsPage (chunkCount remaining.length) →
        ∃ (r : Option Nat) (s' : RecordStore),
          (buildChain fuel remaining first prev).run (recordStore layer) s = (r, s') ∧
            (∀ p ∈ kept, s'.flat.pages p = s.flat.pages p) ∧
              ((r.isSome = true ∧ Took kept (chunkCount remaining.length) s s' ∧
                  ∀ n < chunkCount remaining.length, layer.grantsPage (s.flat.requests + n) = true) ∨
                (r = none ∧ ∃ n < chunkCount remaining.length,
                  layer.grantsPage (s.flat.requests + n) = false)) := by
  intro fuel
  induction fuel with
  | zero =>
    intro remaining first prev s hfuel hkept _ _
    obtain rfl := List.eq_nil_of_length_eq_zero (Nat.le_zero.mp hfuel)
    exact ⟨some first, s, rfl, fun _ _ => rfl, .inl ⟨rfl, ⟨fun _ _ => rfl, hkept, rfl, rfl⟩,
      fun n hn => absurd hn (Nat.not_lt_zero n)⟩⟩
  | succ fuel ih =>
    intro remaining first prev s hfuel hkept hprev hroom
    by_cases hnil : remaining = []
    · subst hnil
      exact ⟨some first, s, rfl, fun _ _ => rfl, .inl ⟨rfl, ⟨fun _ _ => rfl, hkept, rfl, rfl⟩,
        fun n hn => absurd hn (Nat.not_lt_zero n)⟩⟩
    have hcount := chunkCount_drop hnil
    have hfuel' : (remaining.drop overflowDataSpace).length ≤ fuel := by
      have hpos := List.length_pos_of_ne_nil hnil
      have hspace : overflowDataSpace = 4088 := rfl
      rw [List.length_drop]
      omega
    rw [buildChain, if_neg hnil]
    cases hgrant : layer.grantsPage s.flat.requests with
    | false =>
      refine ⟨none, ((dropChain first).run (recordStore layer) { s with flat := s.flat.refuse }).2, ?_,
        fun p _ => ?_, .inr ⟨rfl, 0, by omega, hgrant⟩⟩
      · simp only [Prog.run_bind, run_poolAlloc, allocate_refused layer s hgrant, Prog.run_pure]
      · exact congrFun (quiet_dropChain layer first { s with flat := s.flat.refuse }).pages p
    | true =>
      set pid := layer.allocator.pick s.flat.used with hpid
      set chunk := remaining.take overflowDataSpace with hchunk
      set s₁ := (s.grow layer).set pid (spanPage chunk) with hs₁
      obtain ⟨hfresh, hpos, -⟩ := layer.allocator.fresh s.flat.used (hroom 0 (Nat.zero_le _) hgrant)
      have hne : ∀ p ∈ kept, p ≠ pid := fun p hp heq => hfresh (hpid ▸ heq ▸ hkept hp)
      obtain ⟨hused, hrequests, hpages⟩ := pages_linkPrevious layer s₁ prev pid
      set s₂ := ((linkPrevious prev pid).run (recordStore layer) s₁).2 with hs₂
      have hused₂ : s₂.flat.used = pid :: s.flat.used := hused
      have hrequests₂ : s₂.flat.requests = s.flat.requests + 1 := hrequests
      have hpages₂ : ∀ p ∈ kept, s₂.flat.pages p = s.flat.pages p := fun p hp =>
        (hpages p fun h0 heq => hprev h0 (heq ▸ hp)).trans
          ((pages_set_of_ne _ _ (hne p hp)).trans (pages_grow_of_ne _ (hne p hp)))
      have hroom₂ : s₂.flat.RoomFor layer.grantsPage (chunkCount (remaining.drop overflowDataSpace).length) := by
        intro i hi hgranted
        have hnext := hroom (i + 1) (by omega)
        rw [hrequests₂, Nat.add_assoc, Nat.add_comm 1 i] at hgranted
        have hbound := hnext hgranted
        rw [hused₂, List.length_cons]
        omega
      obtain ⟨r, s', hrun, hsame, hcases⟩ := @ih (remaining.drop overflowDataSpace)
        (if first = 0 then pid else first) pid s₂ hfuel' (hused₂ ▸ List.subset_cons_of_subset pid hkept)
        (fun _ hmem => hne pid hmem rfl) hroom₂
      refine ⟨r, s', ?_, fun p hp => (hsame p hp).trans (hpages₂ p hp), ?_⟩
      · simp only [Prog.run_bind, run_poolAlloc, allocate_granted layer s hgrant, ← hpid, run_poolWrite,
          run_poolDirty, ← hs₁, ← hs₂, run_poolUnpin]
        exact hrun
      · have hshift : ∀ n, layer.grantsPage (s₂.flat.requests + n) =
            layer.grantsPage (s.flat.requests + (n + 1)) := fun n => by
          rw [hrequests₂, Nat.add_assoc, Nat.add_comm 1 n]
        rcases hcases with ⟨hsome, htook, hgrants⟩ | ⟨hnone, n, hn, hrefuse⟩
        · refine .inl ⟨hsome, ⟨fun p hp => (hsame p hp).trans (hpages₂ p hp), htook.used, ?_, ?_⟩, fun n hn => ?_⟩
          · rw [htook.requests, hrequests₂]
            omega
          · rw [htook.count, hused₂, List.length_cons]
            omega
          · cases n with
            | zero => exact hgrant
            | succ n => exact (hshift n).symm.trans (hgrants n (by omega))
        · exact .inr ⟨hnone, n + 1, by omega, (hshift n).symm.trans hrefuse⟩

end Chain

/-- There is room for the record: a page that the search takes or a new one, and for a spanned
record all its pages. -/
def Places (layer : PageLayer) (data : List UInt8) (s : RecordStore) : Prop :=
  if maxInlineRecordSize < data.length then
    ∀ n ≤ chunkCount (data.length - maxInline), layer.grantsPage (s.flat.requests + n) = true
  else (∃ pid ∈ s.frames, pid ≠ 0 ∧ Accepts data (s.flat.pages pid)) ∨
    layer.grantsPage s.flat.requests = true

/-- The page as it was, or after a search that came to it in vain. -/
def LeftAlone (data : List UInt8) (s s' : RecordStore) (pid : Nat) : Prop :=
  s'.flat.pages pid = s.flat.pages pid ∨
    (data.length ≤ maxInlineRecordSize ∧ TakenFor data (s.flat.pages pid) ∧
      ¬ Accepts data (s.flat.pages pid) ∧ s'.flat.pages pid = insertedPage data (s.flat.pages pid))

/-- How an insertion ends, and what a failed one leaves of the pages in use. -/
def InsertOutcome (layer : PageLayer) (data : List UInt8) (kept : List Nat) (s : RecordStore)
    (result : Except NostrDBError RecordId × RecordStore) : Prop :=
  (Places layer data s ∧ ∃ rid, result.1 = .ok rid) ∨
    (¬ Places layer data s ∧ result.1 = .error .full ∧ ∀ pid ∈ kept, LeftAlone data s result.2 pid)

section Outcome

variable (layer : PageLayer) {data : List UInt8} {kept : List Nat} {s : RecordStore}

/-- **The insertion of a spanned record.** -/
theorem overflowInsert_outcome (hlong : maxInlineRecordSize < data.length) (hkept : kept ⊆ s.flat.used)
    (hroom : s.flat.RoomFor layer.grantsPage (chunkCount (data.length - maxInline))) :
    InsertOutcome layer data kept s ((overflowInsert data).run (recordStore layer) s) := by
  have hrest : (data.drop maxInline).length = data.length - maxInline := List.length_drop
  have hplaces : Places layer data s ↔
      ∀ n ≤ chunkCount (data.length - maxInline), layer.grantsPage (s.flat.requests + n) = true :=
    iff_of_eq (if_pos hlong)
  obtain ⟨r, s₁, hrun, hsame, hcases⟩ := @run_buildChain_cases layer kept data.length (data.drop maxInline) 0 0 s
    (by omega) hkept (fun h => absurd rfl h) (hrest ▸ hroom)
  rw [hrest] at hcases
  rw [overflowInsert, Prog.run_bind, hrun]
  rcases hcases with ⟨hsome, htook, hgrants⟩ | ⟨rfl, n, hn, hrefuse⟩
  · obtain ⟨first, rfl⟩ := Option.isSome_iff_exists.mp hsome
    dsimp only
    rw [Prog.run_bind, run_poolAlloc]
    cases hgrant : layer.grantsPage s₁.flat.requests with
    | false =>
      rw [htook.requests] at hgrant
      rw [allocate_refused layer s₁ (by rwa [htook.requests])]
      refine .inr ⟨fun hall => ?_, ?_, fun pid hpid => .inl ?_⟩
      · have hlast := hplaces.mp hall _ le_rfl
        rw [hgrant] at hlast
        cases hlast
      · simp only [Prog.run_bind, Prog.run_pure]
      · simp only [Prog.run_bind, Prog.run_pure]
        exact (congrFun (quiet_dropChain layer first { s₁ with flat := s₁.flat.refuse }).pages pid).trans
          (hsame pid hpid)
    | true =>
      obtain ⟨page, hinsert, -⟩ := primary_insert data (layer.allocator.pick s₁.flat.used) first
      rw [allocate_granted layer s₁ hgrant]
      refine .inl ⟨hplaces.mpr fun n hn => ?_, recordId (layer.allocator.pick s₁.flat.used) 0, ?_⟩
      · rcases Nat.lt_or_eq_of_le hn with hlt | rfl
        · exact hgrants n hlt
        · rw [← htook.requests]
          exact hgrant
      · simp only [hinsert, Prog.run_bind, run_poolWrite, run_poolDirty, run_poolUnpin, Prog.run_pure]
        rfl
  · refine .inr ⟨fun hall => ?_, rfl, fun pid hpid => .inl (hsame pid hpid)⟩
    have hgranted := hplaces.mp hall n (Nat.le_of_lt hn)
    rw [hrefuse] at hgranted
    cases hgranted

/-- **The insertion of an inline record.** -/
theorem inlineInsert_outcome (hlength : data.length ≠ 0) (hinline : data.length ≤ maxInlineRecordSize)
    (hframes : DistinctFrames s.frames) :
    InsertOutcome layer data kept s ((recordInsert data).run (recordStore layer) s) := by
  have hplaces : Places layer data s ↔ (∃ pid ∈ s.frames, pid ≠ 0 ∧ Accepts data (s.flat.pages pid)) ∨
      layer.grantsPage s.flat.requests = true := iff_of_eq (if_neg (not_lt.mpr hinline))
  obtain ⟨found, s₁, hfound, hsearched, hends⟩ := run_recordInsert_inline layer hlength hinline hframes
  generalize (recordInsert data).run (recordStore layer) s = result at hends
  cases hends with
  | existing =>
    obtain ⟨hmem, h0, haccepts, -⟩ := hfound
    exact .inl ⟨hplaces.mpr (.inl ⟨_, hmem, h0, haccepts⟩), _, rfl⟩
  | fresh hgrant i => exact .inl ⟨hplaces.mpr (.inr hgrant), _, rfl⟩
  | refused hrefuse =>
    refine .inr ⟨fun hroom => ?_, rfl, fun pid _ => ?_⟩
    · rcases hplaces.mp hroom with ⟨pid, hmem, h0, haccepts⟩ | hgrant
      · exact hfound pid hmem h0 haccepts
      · rw [hrefuse] at hgrant
        cases hgrant
    · by_cases haltered : Altered data s.flat.pages s.frames pid
      · exact .inr ⟨hinline, haltered.2.2, hfound pid (reached_subset data _ _ haltered.2.1) haltered.1,
          hsearched.altered pid haltered⟩
      · exact .inl (hsearched.kept pid haltered)

theorem recordInsert_outcome (hlength : data.length ≠ 0) (hframes : DistinctFrames s.frames)
    (hkept : kept ⊆ s.flat.used)
    (hroom : s.flat.RoomFor layer.grantsPage (chunkCount (data.length - maxInline))) :
    InsertOutcome layer data kept s ((recordInsert data).run (recordStore layer) s) := by
  by_cases hlong : maxInlineRecordSize < data.length
  · rw [recordInsert, if_neg hlength, if_pos hlong]
    exact overflowInsert_outcome layer hlong hkept hroom
  · exact inlineInsert_outcome layer hlength (not_lt.mp hlong) hframes

end Outcome

/-! ## The old record -/

/-- The primary page as `overflow_insert` leaves it. -/
def primaryPage (pid : Nat) (data : List UInt8) (first : Nat) : PageData :=
  write16 (insertedPage (inlineRecord data first) (slotPageInit pid)) (slotAt 0 + 2) spannedMarker

/-- A record in a slot of a record page, or a spanned one. -/
inductive HoldsRecord (s : FlatStore) (pid i : Nat) (old : List UInt8) : Prop
  | inline {slots : Slots} (live : s.Live pid) (layout : Layout (s.pages pid) slots)
      (slot : slots[i]? = some (some old))
  | spanned {span : Span} (record : SpannedRecord s pid old span) (first : i = 0)
      (page : s.pages pid = primaryPage pid old span.head) (long : maxInlineRecordSize < old.length)
      (short : old.length < 2 ^ 16) (apart : pid ∉ span.pids)

/-- `record_read` returns these bytes, up to its capacity, when it can pin the pages. -/
def ReadsBack (s : RecordStore) (rid : RecordId) (old : List UInt8) : Prop :=
  ∀ reader : PageLayer, reader.Grants → ∀ capacity : Nat,
    ((recordRead rid capacity).run (recordStore reader) s).1 = .ok (old.length, old.take capacity)

/-- The slot has no record. -/
def Gone (page : PageData) (i : Nat) : Prop :=
  overflowIsSpanned page i = false ∧ ∀ capacity, slotPageRead page i capacity = .error .notFound

section Old

variable {s : RecordStore} {rid : RecordId} {old data : List UInt8}

theorem pageId_ne_zero {s : FlatStore} (hlive : s.Live rid.pageId.toNat) : rid.pageId ≠ 0 := by
  intro h0
  have hpos := hlive.pos
  rw [h0] at hpos
  exact absurd hpos (by decide)

theorem HoldsRecord.live {s : FlatStore} {pid i : Nat} (h : HoldsRecord s pid i old) : s.Live pid := by
  cases h with
  | inline live => exact live
  | spanned record => exact record.live

theorem Stored.not_spanned {page : PageData} {i : Nat} {bytes : List UInt8} (h : Stored page i bytes) :
    overflowIsSpanned page i = false := by
  have hinside := h.inside
  have hsize : dbPageSize = 4096 := rfl
  have hne : slotLength page i ≠ spannedMarker := by
    rw [h.length, show spannedMarker = 65535 from rfl]
    omega
  rw [overflowIsSpanned, decide_eq_false hne, Bool.and_false]

theorem recordId_toNat (rid : RecordId) : recordId rid.pageId.toNat rid.slotIndex.toNat = rid := by
  rw [recordId, UInt32.ofNat_toNat, UInt16.ofNat_toNat]

/-- **A stored record is read.** -/
theorem HoldsRecord.readsBack (h : HoldsRecord s.flat rid.pageId.toNat rid.slotIndex.toNat old) :
    ReadsBack s rid old := by
  intro reader hreader capacity
  cases h with
  | inline live layout slot =>
    have hstored := layout.stored _ _ slot
    rw [recordRead, if_neg (pageId_ne_zero live)]
    simp only [Prog.run_bind, run_poolPin, RecordStore.pin_eq hreader s live, hstored.not_spanned,
      Bool.false_eq_true, if_false, Prog.run_pure]
    rw [layout.slotPageRead_eq, Slots.read, Slots.record_eq_some.mpr slot]
  | spanned record first page long short apart =>
    have hread := run_recordRead_spanned hreader record short capacity
    rwa [← first, recordId_toNat] at hread

theorem not_readsBack_of_gone (hid : rid.pageId ≠ 0)
    (hgone : Gone (s.flat.pages rid.pageId.toNat) rid.slotIndex.toNat) : ¬ ReadsBack s rid old := by
  intro hreads
  have hpid : rid.pageId.toNat ≠ 0 := fun h0 => hid (UInt32.toNat_inj.mp h0)
  obtain ⟨hspanned, hread⟩ := hgone
  have hpin : s.pin newFrames rid.pageId.toNat =
      (some (s.flat.pages rid.pageId.toNat), s.pinned newFrames rid.pageId.toNat) := if_pos ⟨hpid, .inr rfl⟩
  have hresult := hreads newFrames ⟨fun _ => rfl, fun _ => rfl⟩ 0
  rw [recordRead, if_neg hid] at hresult
  simp only [Prog.run_bind, run_poolPin, hpin, hspanned, Bool.false_eq_true, if_false, Prog.run_pure,
    hread] at hresult
  cases hresult

end Old

/-! ## The page without the record -/

section Freed

variable {page : PageData} {data : List UInt8}

theorem pageType_write16 {off value : Nat} (h : off + 2 ≤ 16 ∨ 17 ≤ off) :
    pageType (write16 page off value) = pageType page := by
  rcases h with h | h
  · exact writeAt_of_ge (by rw [length_toLE]; omega)
  · exact writeAt_of_lt (by omega)

theorem pageType_setSlot {i offset length : Nat} : pageType (setSlot page i offset length) = pageType page := by
  have hlow := header_le_slotAt i
  rw [setSlot, pageType_write16 (by omega), pageType_write16 (by omega)]

/-- A new page keeps its type under its first record. -/
theorem pageType_insert_init (pid : Nat) (hlength : data.length ≠ 0) (hfits : data.length ≤ 4068) :
    pageType (insertedPage data (slotPageInit pid)) = pageTypeRecord := by
  have hlayout := layout_slotPageInit pid
  have hend : freeSpaceEnd (slotPageInit pid) = 4096 := by
    have haccounts := hlayout.accounts
    have hfragmented : fragmentedSpace (slotPageInit pid) = 0 := read16_write16 (by decide)
    have hbytes : Slots.bytes [] = 0 := rfl
    have hsize : dbPageSize = 4096 := rfl
    omega
  have hcontiguous := hlayout.contiguous_eq
  rw [hend, show 4096 - slotAt ([] : Slots).length = 4072 from rfl] at hcontiguous
  have hoffset : recordOffset (slotPageInit pid) data = 4096 - data.length := by
    rw [recordOffset, hend, sub16_eq (by decide) (by omega)]
  have hinsert := hlayout.slotPageInsert_cases (List.ne_nil_of_length_pos (Nat.pos_of_ne_zero hlength))
    (by omega)
  have hneeded : Slots.needed [] data = data.length + 4 := rfl
  rw [hcontiguous, hneeded, if_neg (by omega), if_neg (by omega)] at hinsert
  have htype : pageType (copyRecord (slotPageInit pid) data) = pageTypeRecord := by
    rw [copyRecord, hoffset]
    have hwrite : pageType (writeAt (write16 (slotPageInit pid) 12 (4096 - data.length)) (4096 - data.length)
        data) = pageType (write16 (slotPageInit pid) 12 (4096 - data.length)) := writeAt_of_lt (by omega)
    rw [hwrite, pageType_write16 (by omega), slotPageInit, pageType_write16 (by omega),
      pageType_write16 (by omega), pageType_write16 (by omega), pageType_write16 (by omega)]
    exact writeAt_inside (i := 0) (by decide)
  rw [insertedPage, hinsert, show Slots.vacant [] = none from rfl]
  dsimp only [placeRecord]
  rw [pageType_write16 (by omega), pageType_write16 (by omega), pageType_setSlot, htype]

/-- A primary page whose record was deleted: all is free, but not counted so. -/
structure FreedPrimary (page : PageData) : Prop where
  type : pageType page = pageTypeRecord
  count : slotCount page = 1
  deleted : SlotDeleted page 0
  start : freeSpaceStart page = 28
  ends : freeSpaceEnd page = 28
  fragmented : fragmentedSpace page = 65535

theorem FreedPrimary.gone (h : FreedPrimary page) : Gone page 0 := by
  refine ⟨?_, fun capacity => ?_⟩
  · rw [overflowIsSpanned, h.deleted.2]
    exact Bool.and_false _
  · rw [slotPageRead, h.count, if_neg (by decide), if_pos h.deleted]

theorem contiguous_freed (h : FreedPrimary page) : contiguous page = 0 := by
  rw [contiguous, h.start, h.ends]
  rfl

/-- **A freed primary page takes any inline record.** -/
theorem FreedPrimary.accepts (h : FreedPrimary page) (hlength : data.length ≠ 0)
    (hinline : data.length ≤ maxInlineRecordSize) : Accepts data page := by
  have hmax : maxInlineRecordSize = 4068 := rfl
  have hslot : slotEntrySize = 4 := rfl
  have hcontiguous := contiguous_freed h
  refine ⟨⟨h.type, ?_⟩, ?_⟩
  · rw [slotPageFreeSpace, hcontiguous, h.fragmented, hslot]
    omega
  have hreuse : reuseSlot page = some 0 := by
    rw [reuseSlot, h.count]
    exact List.find?_cons_of_pos (decide_eq_true h.deleted)
  -- the compaction finds no record, and frees the page
  have hcompact : slotPageCompact page = write16 (write16 page 12 4096) 14 0 := by
    rw [slotPageCompact, if_neg (by rw [h.fragmented]; decide), h.count]
    have hmove : (List.range 1).foldl Compaction.move ⟨page, zeroPage, dbPageSize⟩ =
        ⟨page, zeroPage, dbPageSize⟩ := if_pos h.deleted
    rw [hmove, Compaction.copyBack]
    exact congrArg (fun page => write16 (write16 page 12 4096) 14 0) (if_neg (Nat.lt_irrefl dbPageSize))
  have hroom : contiguous (slotPageCompact page) = 4068 := by
    have hstart : freeSpaceStart (slotPageCompact page) = 28 := by
      rw [hcompact, freeSpaceStart, read16_write16_of_ne (by omega), read16_write16_of_ne (by omega)]
      exact h.start
    have hend : freeSpaceEnd (slotPageCompact page) = 4096 := by
      rw [hcompact, freeSpaceEnd, read16_write16_of_ne (by omega), read16_write16 (by decide)]
    rw [contiguous, hstart, hend]
    rfl
  have hneeded : (if (some 0 : Option Nat).isSome then data.length
    else (data.length + slotEntrySize) % 2 ^ 16) = data.length := rfl
  rw [slotPageInsert, if_neg hlength, hreuse]
  simp only [hneeded, hcontiguous, h.fragmented]
  rw [if_pos (show 0 < data.length ∧ data.length ≤ 0 + 65535 by omega), hroom, if_neg (by omega)]
  rfl

/-- **The deletion of a spanned record** counts its length as that of a record in its slot. -/
theorem freedPrimary_delete (pid first : Nat) (hlong : maxInlineRecordSize < data.length) :
    (slotPageDelete (primaryPage pid data first) 0).1 = .ok ∧
      FreedPrimary (slotPageDelete (primaryPage pid data first) 0).2 := by
  have hmax : maxInlineRecordSize = 4068 := rfl
  have hspace : maxInline = 4060 := rfl
  have h24 : slotAt 0 = 24 := rfl
  have hlength : (inlineRecord data first).length = 4068 := by
    rw [length_inlineRecord, List.length_take, hspace]
    omega
  have hne : inlineRecord data first ≠ [] := List.ne_nil_of_length_pos (by omega)
  obtain ⟨-, hlayout⟩ := (layout_slotPageInit pid).slotPageInsert_of_le hne (by omega)
    (show (inlineRecord data first).length + 4 ≤ 4072 by omega)
  have htype : pageType (insertedPage (inlineRecord data first) (slotPageInit pid)) = pageTypeRecord :=
    pageType_insert_init pid (by omega) (by omega)
  have hslots : (Slots.insert [] (inlineRecord data first)).2 = [some (inlineRecord data first)] := rfl
  rw [hslots] at hlayout
  rw [primaryPage, h24]
  rw [insertedPage] at htype ⊢
  generalize (slotPageInsert (slotPageInit pid) (inlineRecord data first)).2 = inserted at hlayout htype
  -- the counters of the page as it was inserted
  have haccounts := hlayout.accounts
  have hroom := hlayout.room
  have hbytes : Slots.bytes [some (inlineRecord data first)] = 4068 := hlength
  have hsize : dbPageSize = 4096 := rfl
  have hdirectory : slotAt [some (inlineRecord data first)].length = 28 := rfl
  have hcount : slotCount (write16 inserted 26 spannedMarker) = 1 :=
    (read16_write16_of_ne (.inl (by decide))).trans hlayout.count
  have hstart : freeSpaceStart (write16 inserted 26 spannedMarker) = 28 :=
    (read16_write16_of_ne (.inl (by decide))).trans hlayout.start
  have hend : freeSpaceEnd (write16 inserted 26 spannedMarker) = 28 :=
    (read16_write16_of_ne (.inl (by decide))).trans (show freeSpaceEnd inserted = 28 by omega)
  have hfragmented : fragmentedSpace (write16 inserted 26 spannedMarker) = 0 :=
    (read16_write16_of_ne (.inl (by decide))).trans (show fragmentedSpace inserted = 0 by omega)
  have hmarker : slotLength (write16 inserted 26 spannedMarker) 0 = 65535 := read16_write16 (by decide)
  have hlive : ¬ SlotDeleted (write16 inserted 26 spannedMarker) 0 := by
    rintro ⟨-, hzero⟩
    rw [hmarker] at hzero
    cases hzero
  rw [slotPageDelete, if_neg (by rw [hcount]; decide), if_neg hlive, hfragmented, hmarker]
  refine ⟨rfl, ?_, ?_, ?_, ?_, ?_, ?_⟩
  · dsimp only
    rw [pageType_setSlot, pageType_write16 (by omega), pageType_write16 (by omega), htype]
  · exact (read16_setSlot (.inl (by decide))).trans ((read16_write16_of_ne (.inl (by decide))).trans hcount)
  · exact slot_setSlot_self (by decide) (by decide)
  · exact (read16_setSlot (.inl (by decide))).trans ((read16_write16_of_ne (.inl (by decide))).trans hstart)
  · exact (read16_setSlot (.inl (by decide))).trans ((read16_write16_of_ne (.inl (by decide))).trans hend)
  · exact (read16_setSlot (.inl (by decide))).trans (read16_write16 (by decide))

end Freed

/-! ## The deletion -/

/-- The store after the deletion of the record in slot `i` of page `pid`. -/
structure Deleted (layer : PageLayer) (s s' : RecordStore) (pid i : Nat) : Prop where
  pages : s'.flat.pages = Function.update s.flat.pages pid (slotPageDelete (s.flat.pages pid) i).2
  used : pid ∈ s'.flat.used
  fewer : s'.flat.used.length ≤ s.flat.used.length
  requests : s'.flat.requests = s.flat.requests
  distinct : layer.KeepsDistinct → DistinctFrames s.frames → DistinctFrames s'.frames

section Deletion

variable (layer : PageLayer)

/-- The pages of a chain are given back, and no others. -/
theorem used_overflowFreeLoop {base : FlatStore} {p : Nat} : ∀ {span : Span} {fuel : Nat} {s : RecordStore},
    SpanHolds base span → s.flat.pages = base.pages → p ∉ span.pids → p ∈ s.flat.used →
      p ∈ ((overflowFreeLoop fuel span.head).run (recordStore layer) s).2.flat.used := by
  intro span
  induction span with
  | nil =>
    intro fuel s _ _ _ hp
    cases fuel with
    | zero => exact hp
    | succ fuel => exact hp
  | cons e span ih =>
    intro fuel s hspan hpages hout hp
    obtain ⟨hlive, hpage, -, hrest⟩ := hspan
    rw [Span.pids_cons, List.mem_cons, not_or] at hout
    cases fuel with
    | zero => exact hp
    | succ fuel =>
      rw [Span.head_cons, overflowFreeLoop, if_neg hlive.pos.ne', Prog.run_bind, run_poolPin]
      rcases pin_cases layer s e.1 with hpin | hpin
      · rw [hpin]
        simp only [Prog.run_bind, run_poolUnpin, run_poolFree]
        rw [hpages, hpage.next]
        refine ih hrest hpages hout.2 ?_
        exact List.mem_filter.mpr ⟨hp, decide_eq_true hout.1⟩
      · rw [hpin]
        exact hp

theorem run_recordDelete {s : RecordStore} {rid : RecordId} {old : List UInt8}
    (hold : HoldsRecord s.flat rid.pageId.toNat rid.slotIndex.toNat old) :
    (s.pin layer rid.pageId.toNat = (none, { s with pins := s.pins + 1 }) ∧
        (recordDelete rid).run (recordStore layer) s = (.notFound, { s with pins := s.pins + 1 })) ∨
      ((s.pin layer rid.pageId.toNat).1.isSome = true ∧
        ∃ s', (recordDelete rid).run (recordStore layer) s = (.ok, s') ∧
          Deleted layer s s' rid.pageId.toNat rid.slotIndex.toNat) := by
  have hlive := hold.live
  rw [recordDelete, if_neg (pageId_ne_zero hlive)]
  generalize rid.pageId.toNat = pid at hold hlive ⊢
  generalize rid.slotIndex.toNat = i at hold ⊢
  simp only [Prog.run_bind, run_poolPin]
  rcases pin_cases layer s pid with hpin | hpin
  · refine .inr ?_
    rw [hpin]
    -- the chain is given back, if there is one
    obtain ⟨hok, s₂, hchain, hquiet, hused⟩ : (slotPageDelete (s.flat.pages pid) i).1 = .ok ∧
        ∃ s₂, ((overflowIsSpanned (s.flat.pages pid) i = false ∧ s₂ = s.pinned layer pid) ∨
            (overflowIsSpanned (s.flat.pages pid) i = true ∧
              s₂ = ((dropChain (spannedPrefix (s.flat.pages pid) i).overflowPage).run (recordStore layer)
                (s.pinned layer pid)).2)) ∧
          Quiet layer (s.pinned layer pid) s₂ ∧ pid ∈ s₂.flat.used := by
      cases hold with
      | inline live layout slot =>
        exact ⟨(layout.slotPageDelete_of_some slot).1, s.pinned layer pid,
          .inl ⟨(layout.stored _ _ slot).not_spanned, rfl⟩, Quiet.refl layer _, live.mem⟩
      | @spanned span record first page long short apart =>
        subst first
        obtain ⟨hspanned, hheader⟩ := record.prefix_eq short
        refine ⟨page ▸ (freedPrimary_delete pid span.head long).1,
          ((dropChain span.head).run (recordStore layer) (s.pinned layer pid)).2, .inr ⟨hspanned, ?_⟩,
          quiet_dropChain layer span.head _, ?_⟩
        · rw [hheader]
        · rw [dropChain]
          split
          · exact used_overflowFreeLoop layer record.chain rfl apart record.live.mem
          · exact record.live.mem
    have hpinned := quiet_pinned layer s pid
    refine ⟨rfl, s₂.set pid (slotPageDelete (s.flat.pages pid) i).2, ?_, ?_, hused,
      hquiet.fewer.trans hpinned.fewer, hquiet.requests.trans hpinned.requests,
      fun hlayer hframes => hquiet.distinct hlayer (hpinned.distinct hlayer hframes)⟩
    · rcases hchain with ⟨hspanned, rfl⟩ | ⟨hspanned, rfl⟩
      · simp only [hspanned, Bool.false_eq_true, if_false, Prog.run_bind, run_poolWrite, hok, if_true,
          run_poolDirty, run_poolUnpin, Prog.run_pure]
      · simp only [hspanned, if_true, Prog.run_bind, run_poolWrite, hok, run_poolDirty, run_poolUnpin,
          Prog.run_pure]
    · show Function.update s₂.flat.pages pid _ = _
      rw [hquiet.pages]
      rfl
  · refine .inl ⟨hpin, ?_⟩
    rw [hpin]
    rfl

end Deletion

/-! ## The update -/

/-- The new record takes the place of the old one. -/
def StaysInPlace (page : PageData) (i : Nat) (data : List UInt8) : Prop :=
  overflowIsSpanned page i = false ∧ data.length ≤ slotLength page i

/-- The update does not come to the deletion, or the store that `record_delete` leaves has room
for the new record. -/
def UpdateKeeps (layer : PageLayer) (s : RecordStore) (rid : RecordId) (data : List UInt8) : Prop :=
  let pid := rid.pageId.toNat
  data.length = 0 ∨ (s.pin layer pid).1 = none ∨
    StaysInPlace (s.flat.pages pid) rid.slotIndex.toNat data ∨
      ((s.pinned layer pid).pin layer pid).1 = none ∨
        Places layer data ((recordDelete rid).run (recordStore layer) (s.pinned layer pid)).2

section Update

variable (layer : PageLayer) {s : RecordStore} {rid : RecordId} {old data : List UInt8}

/-- The slot is empty after a deletion and a failed insertion. -/
theorem gone_of_leftAlone {s₁ s₂ : RecordStore} {pid i : Nat} (hold : HoldsRecord s.flat pid i old)
    (hdeleted : Deleted layer s s₁ pid i) (hlength : data.length ≠ 0) (hleft : LeftAlone data s₁ s₂ pid) :
    Gone (s₂.flat.pages pid) i := by
  have hpage : s₁.flat.pages pid = (slotPageDelete (s.flat.pages pid) i).2 := by
    rw [hdeleted.pages, Function.update_self]
  rw [LeftAlone, hpage] at hleft
  cases hold with
  | @inline slots live layout slot =>
    obtain ⟨-, hlayout⟩ := layout.slotPageDelete_of_some slot
    have hlt := (List.getElem?_eq_some_iff.mp slot).1
    have hnone : (slots.set i none)[i]? = some none := List.getElem?_set_self hlt
    have hsame : s₂.flat.pages pid = (slotPageDelete (s.flat.pages pid) i).2 := by
      rcases hleft with hleft | ⟨hinline, htaken, hnot, hleft⟩
      · exact hleft
      · have hmax : maxInlineRecordSize = 4068 := rfl
        have hne : data ≠ [] := List.ne_nil_of_length_pos (Nat.pos_of_ne_zero hlength)
        rw [hleft, insertedPage]
        by_cases hroom : Slots.needed (slots.set i none) data ≤ Slots.free (slots.set i none)
        · refine absurd ⟨htaken, ?_⟩ hnot
          rw [(hlayout.slotPageInsert_of_le hne (by omega) hroom).1]
          rfl
        · rw [hlayout.slotPageInsert_of_lt hne (by omega) (not_le.mp hroom)]
    rw [hsame]
    refine ⟨?_, fun capacity => ?_⟩
    · rw [overflowIsSpanned, (hlayout.deleted i hnone).2]
      exact Bool.and_false _
    · rw [hlayout.slotPageRead_eq, Slots.read, Slots.record, hnone]
      rfl
  | @spanned span record first page long short apart =>
    subst first
    obtain ⟨-, hfreed⟩ := freedPrimary_delete pid span.head long
    rw [page] at hleft
    rcases hleft with hleft | ⟨hinline, -, hnot, -⟩
    · rw [hleft]
      exact hfreed.gone
    · exact absurd (hfreed.accepts hlength hinline) hnot

/-- The deletion and the insertion that follows. -/
theorem deleteAndReinsert_iff (hlayer : layer.KeepsDistinct) (hframes : DistinctFrames s.frames)
    (hlength : data.length ≠ 0)
    (hroom : s.flat.RoomFor layer.grantsPage (chunkCount (data.length - maxInline)))
    (hold : HoldsRecord s.flat rid.pageId.toNat rid.slotIndex.toNat old) :
    (((deleteAndReinsert rid data).run (recordStore layer) s).1.1 ≠ .ok →
        ReadsBack ((deleteAndReinsert rid data).run (recordStore layer) s).2 rid old) ↔
      (s.pin layer rid.pageId.toNat).1 = none ∨
        Places layer data ((recordDelete rid).run (recordStore layer) s).2 := by
  rw [deleteAndReinsert, Prog.run_bind]
  rcases run_recordDelete layer hold with ⟨hpin, hdelete⟩ | ⟨hpin, s₁, hdelete, hdeleted⟩
  · rw [hdelete, hpin]
    exact iff_of_true (fun _ => HoldsRecord.readsBack (s := { s with pins := s.pins + 1 }) hold) (.inl rfl)
  rw [hdelete]
  have hroom' : s₁.flat.RoomFor layer.grantsPage (chunkCount (data.length - maxInline)) := by
    intro n hn hgranted
    rw [hdeleted.requests] at hgranted
    have hbound := hroom n hn hgranted
    have hfewer := hdeleted.fewer
    omega
  have hkept : [rid.pageId.toNat] ⊆ s₁.flat.used :=
    List.cons_subset.mpr ⟨hdeleted.used, List.nil_subset _⟩
  have houtcome := recordInsert_outcome layer hlength (hdeleted.distinct hlayer hframes) hkept hroom'
  have hpinned : (s.pin layer rid.pageId.toNat).1 ≠ none := Option.isSome_iff_ne_none.mp hpin
  rw [or_iff_right hpinned]
  simp only [ne_eq, not_true_eq_false, if_false, Prog.run_bind]
  cases hinsert : (recordInsert data).run (recordStore layer) s₁ with
  | mk r s₂ =>
    rw [hinsert] at houtcome
    rcases houtcome with ⟨hplaces, rid', hrid⟩ | ⟨hnot, herr, hleft⟩
    · obtain rfl : r = .ok rid' := hrid
      exact iff_of_true (fun hfailed => absurd rfl hfailed) hplaces
    · obtain rfl : r = .error .full := herr
      refine iff_of_false (fun hkeeps => ?_) hnot
      refine not_readsBack_of_gone (pageId_ne_zero hold.live) ?_ (hkeeps (show NostrDBError.full ≠ .ok by decide))
      exact gone_of_leftAlone layer hold hdeleted hlength (hleft _ List.mem_cons_self)

theorem HoldsRecord.not_missing {s : FlatStore} {pid i : Nat} (h : HoldsRecord s pid i old)
    (hinline : ¬ overflowIsSpanned (s.pages pid) i = true) :
    ¬ (slotCount (s.pages pid) ≤ i ∨ SlotDeleted (s.pages pid) i) := by
  cases h with
  | inline live layout slot =>
    rw [layout.count, not_or, not_le]
    exact ⟨(List.getElem?_eq_some_iff.mp slot).1, Layout.not_slotDeleted (layout.stored _ _ slot)⟩
  | spanned record first page long short apart =>
    rw [first] at hinline
    exact absurd (record.prefix_eq short).1 hinline

/-- A record that does not stay is deleted first. -/
theorem run_recordUpdate_of_moves (hlength : data.length ≠ 0)
    (hpin : s.pin layer rid.pageId.toNat =
      (some (s.flat.pages rid.pageId.toNat), s.pinned layer rid.pageId.toNat))
    (hold : HoldsRecord s.flat rid.pageId.toNat rid.slotIndex.toNat old)
    (hmoves : ¬ StaysInPlace (s.flat.pages rid.pageId.toNat) rid.slotIndex.toNat data) :
    (recordUpdate rid data).run (recordStore layer) s =
      (deleteAndReinsert rid data).run (recordStore layer) (s.pinned layer rid.pageId.toNat) := by
  rw [recordUpdate, if_neg (not_or.mpr ⟨hlength, pageId_ne_zero hold.live⟩)]
  simp only [Prog.run_bind, run_poolPin, hpin]
  by_cases hspanned : overflowIsSpanned (s.flat.pages rid.pageId.toNat) rid.slotIndex.toNat = true
  · simp only [hspanned, if_true, Prog.run_bind, run_poolUnpin]
  · have hnow := hold.not_missing hspanned
    have hgrows : ¬ data.length ≤ slotLength (s.flat.pages rid.pageId.toNat) rid.slotIndex.toNat :=
      fun hfits => hmoves ⟨Bool.not_eq_true _ ▸ hspanned, hfits⟩
    simp only [if_neg hspanned, if_neg hnow, if_neg hgrows, Prog.run_bind, run_poolUnpin]

theorem run_recordUpdate_of_stays (hlength : data.length ≠ 0)
    (hpin : s.pin layer rid.pageId.toNat =
      (some (s.flat.pages rid.pageId.toNat), s.pinned layer rid.pageId.toNat))
    (hold : HoldsRecord s.flat rid.pageId.toNat rid.slotIndex.toNat old)
    (hstays : StaysInPlace (s.flat.pages rid.pageId.toNat) rid.slotIndex.toNat data) :
    ((recordUpdate rid data).run (recordStore layer) s).1.1 = .ok := by
  obtain ⟨hspanned, hfits⟩ := hstays
  rw [recordUpdate, if_neg (not_or.mpr ⟨hlength, pageId_ne_zero hold.live⟩)]
  have hinline : ¬ overflowIsSpanned (s.flat.pages rid.pageId.toNat) rid.slotIndex.toNat = true :=
    Bool.not_eq_true _ ▸ hspanned
  simp only [Prog.run_bind, run_poolPin, hpin, if_neg hinline, if_neg (hold.not_missing hinline), if_pos hfits,
    run_poolWrite, run_poolDirty, run_poolUnpin, Prog.run_pure]

/-- **When a failing update loses nothing.**  It does exactly if it does not come to the deletion,
or there is room for the new record after it. -/
theorem update_losesNothing_iff (hlayer : layer.KeepsDistinct) (hframes : DistinctFrames s.frames)
    (hroom : s.flat.RoomFor layer.grantsPage (chunkCount (data.length - maxInline)))
    (hold : HoldsRecord s.flat rid.pageId.toNat rid.slotIndex.toNat old) :
    (((recordUpdate rid data).run (recordStore layer) s).1.1 ≠ .ok →
        ReadsBack ((recordUpdate rid data).run (recordStore layer) s).2 rid old) ↔
      UpdateKeeps layer s rid data := by
  rw [UpdateKeeps]
  have hid := pageId_ne_zero hold.live
  by_cases hlength : data.length = 0
  · rw [recordUpdate, if_pos (.inl hlength)]
    exact iff_of_true (fun _ => hold.readsBack) (.inl hlength)
  rw [or_iff_right hlength]
  rcases pin_cases layer s rid.pageId.toNat with hpin | hpin
  · rw [show (s.pin layer rid.pageId.toNat).1 = _ from congrArg Prod.fst hpin,
      or_iff_right (Option.some_ne_none _)]
    by_cases hstays : StaysInPlace (s.flat.pages rid.pageId.toNat) rid.slotIndex.toNat data
    · exact iff_of_true (fun hfailed => absurd (run_recordUpdate_of_stays layer hlength hpin hold hstays) hfailed)
        (.inl hstays)
    · rw [or_iff_right hstays, run_recordUpdate_of_moves layer hlength hpin hold hstays]
      exact deleteAndReinsert_iff (s := s.pinned layer rid.pageId.toNat) layer hlayer
        ((quiet_pinned layer s _).distinct hlayer hframes) hlength hroom hold
  · rw [recordUpdate, if_neg (not_or.mpr ⟨hlength, hid⟩)]
    simp only [Prog.run_bind, run_poolPin, hpin]
    exact iff_of_true (fun _ => HoldsRecord.readsBack (s := { s with pins := s.pins + 1 }) hold) (.inl trivial)

end Update

/-- A store with the record of one byte on page 1, which is not cached. -/
def oneRecord : RecordStore := ⟨⟨fun _ => insertedPage [5] (slotPageInit 1), [1], 0⟩, [], 0, []⟩

/-- A page layer that has no page left, and pins pages or not. -/
def fullFile (pins : Bool) : PageLayer := ⟨.lowest, fun _ => false, fun _ => pins, fun frames pid => frames ++ [pid]⟩

theorem holdsRecord_oneRecord : HoldsRecord oneRecord.flat (recordId 1 0).pageId.toNat
    (recordId 1 0).slotIndex.toNat [5] := by
  have hne : ([5] : List UInt8) ≠ [] := by decide
  obtain ⟨-, hlayout⟩ := (layout_slotPageInit 1).slotPageInsert_of_le hne (by decide) (by decide)
  exact .inline ⟨List.mem_cons_self, by decide, by decide⟩ hlayout rfl

theorem keepsDistinct_fullFile (pins : Bool) : (fullFile pins).KeepsDistinct := by
  intro frames pid hframes hpid
  rw [DistinctFrames] at hframes ⊢
  show ((frames ++ [pid]).filter (· ≠ 0)).Nodup
  rw [List.filter_append, List.nodup_append]
  refine ⟨hframes, (List.nodup_singleton pid).filter _, fun a ha b hb heq => ?_⟩
  obtain rfl := List.mem_singleton.mp (List.mem_filter.mp hb).1
  exact hpid (heq ▸ (List.mem_filter.mp ha).1)

/-- The page of the record cannot be pinned. -/
theorem update_losesNothing_iff_oneRecord :
    ((recordUpdate (recordId 1 0) [1, 2]).run (recordStore (fullFile false)) oneRecord).1.1 = .notFound ∧
      ReadsBack ((recordUpdate (recordId 1 0) [1, 2]).run (recordStore (fullFile false)) oneRecord).2
        (recordId 1 0) [5] := by
  have hresult : ((recordUpdate (recordId 1 0) [1, 2]).run (recordStore (fullFile false)) oneRecord).1.1 =
    .notFound := rfl
  refine ⟨hresult, (update_losesNothing_iff (fullFile false) (keepsDistinct_fullFile false)
    (show DistinctFrames oneRecord.frames from List.nodup_nil) (fun _ _ hgrant => Bool.noConfusion hgrant)
    holdsRecord_oneRecord).mpr (.inr (.inl rfl)) ?_⟩
  rw [hresult]
  decide

/-- There is no page for a record that has become longer than a page. -/
theorem update_lost_oneRecord : HoldsRecord oneRecord.flat (recordId 1 0).pageId.toNat
      (recordId 1 0).slotIndex.toNat [5] ∧
    ¬ (((recordUpdate (recordId 1 0) (List.replicate 4069 1)).run (recordStore (fullFile true))
          oneRecord).1.1 ≠ .ok →
        ReadsBack ((recordUpdate (recordId 1 0) (List.replicate 4069 1)).run (recordStore (fullFile true))
          oneRecord).2 (recordId 1 0) [5]) := by
  have hlength : (List.replicate 4069 (1 : UInt8)).length = 4069 := List.length_replicate
  have hmax : maxInlineRecordSize = 4068 := rfl
  -- only the length of the new record matters
  generalize List.replicate 4069 (1 : UInt8) = data at hlength ⊢
  have hmoves : ¬ StaysInPlace (oneRecord.flat.pages (recordId 1 0).pageId.toNat)
      (recordId 1 0).slotIndex.toNat data := by
    rintro ⟨-, hfits⟩
    have hone : slotLength (oneRecord.flat.pages (recordId 1 0).pageId.toNat) (recordId 1 0).slotIndex.toNat = 1 :=
      rfl
    omega
  have hframes : DistinctFrames (oneRecord.pinned (fullFile true) (recordId 1 0).pageId.toNat).frames :=
    keepsDistinct_fullFile true [] 1 List.nodup_nil List.not_mem_nil
  refine ⟨holdsRecord_oneRecord, fun hkeeps => ?_⟩
  rw [run_recordUpdate_of_moves (fullFile true) (by omega) rfl holdsRecord_oneRecord hmoves] at hkeeps
  rcases (deleteAndReinsert_iff (fullFile true) (keepsDistinct_fullFile true) hframes (by omega)
    (fun _ _ hgrant => Bool.noConfusion hgrant) holdsRecord_oneRecord).mp hkeeps with hpin | hplaces
  · exact Option.some_ne_none _ hpin
  · rw [Places, if_pos (by omega)] at hplaces
    exact Bool.noConfusion (hplaces 0 (Nat.zero_le _))

end OnionRelay.Db
