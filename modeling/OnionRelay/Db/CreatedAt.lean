import OnionRelay.Db.Timeline

/-!
# The time of a record, read from its page

`record_read` puts the record together from its pages.  `read_created_at` looks at byte 128
behind the offset of the slot, where a spanned record has its prefix and then itself.

* `run_readCreatedAt_stored`: what the query engine reads is the `readCreatedAt` of the
  record.
* `readCreatedAt_eq_iff`: this is the time in the record exactly if the record fits a slot or
  its signature ends like its time.
-/

namespace OnionRelay.Db.Engine

open OnionRelay.Lib

/-! ## The field of the record -/

/-- `created_at` in the bytes of a record. -/
def createdAtOf (bytes : List UInt8) : Int := asInt64 (ofLE ((bytes.drop 128).take 8))

/-- The time in 64 bits is the one that stands at the end of the signature. -/
def SigEndsInTime (rec : EventRecord) : Prop := ofLE (rec.sig.1.drop 56) = rec.createdAt % 2 ^ 64

instance (rec : EventRecord) : Decidable (SigEndsInTime rec) := inferInstanceAs (Decidable (_ = _))

section Field

variable (rec : EventRecord)

/-- What stands in front of the time, and the time. -/
theorem exists_toBytes_eq : ∃ rest, rec.toBytes =
    (rec.id.1 ++ (rec.pubkey.1 ++ rec.sig.1)) ++ (toLE 8 rec.header.createdAt.toNat ++ rest) := by
  refine ⟨toLE 4 rec.header.kind.toNat ++ (toLE 4 rec.header.flags.toNat ++
    (toLE 2 rec.header.contentLength.toNat ++ (toLE 2 rec.header.tagsLength.toNat ++ [0, 0, 0, 0]))) ++
      (rec.content ++ rec.tags), ?_⟩
  rw [EventRecord.toBytes, EventHeader.toBytes]
  simp only [List.append_assoc]
  rfl

theorem createdAtOf_toBytes : createdAtOf rec.toBytes = asInt64 rec.createdAt := by
  obtain ⟨rest, hbytes⟩ := exists_toBytes_eq rec
  have hfront : (rec.id.1 ++ (rec.pubkey.1 ++ rec.sig.1)).length = 128 := by
    rw [List.length_append, List.length_append, rec.id.2, rec.pubkey.2, rec.sig.2]
  rw [createdAtOf, hbytes, List.drop_left' hfront, List.take_left' (length_toLE _ _),
    ofLE_toLE_of_lt rec.header.createdAt.toNat_lt, EventRecord.header, UInt64.toNat_ofNat', asInt64, asInt64,
    Int.natCast_emod]
  exact Int.emod_bmod ..

/-- The eight bytes in front of the time. -/
theorem sigEnd_toBytes : (rec.toBytes.drop 120).take 8 = rec.sig.1.drop 56 := by
  obtain ⟨rest, hbytes⟩ := exists_toBytes_eq rec
  have hfront : (rec.id.1 ++ rec.pubkey.1 ++ rec.sig.1.take 56).length = 120 := by
    rw [List.length_append, List.length_append, List.length_take, rec.id.2, rec.pubkey.2, rec.sig.2]
    rfl
  have hend : (rec.sig.1.drop 56).length = 8 := by rw [List.length_drop, rec.sig.2]
  have hsplit : rec.toBytes = (rec.id.1 ++ rec.pubkey.1 ++ rec.sig.1.take 56) ++ (rec.sig.1.drop 56 ++
      (toLE 8 rec.header.createdAt.toNat ++ rest)) := by
    rw [hbytes, List.append_assoc _ (rec.sig.1.take 56), ← List.append_assoc (rec.sig.1.take 56),
      List.take_append_drop]
    simp only [List.append_assoc]
  rw [hsplit, List.drop_left' hfront, List.take_left' hend]

/-- The two places hold one time. -/
theorem readCreatedAt_eq_createdAt_iff :
    Db.readCreatedAt rec = asInt64 rec.createdAt ↔ rec.size ≤ maxInlineRecordSize ∨ SigEndsInTime rec := by
  have hlt := ofLE_lt (rec.sig.1.drop 56)
  rw [List.length_drop, rec.sig.2] at hlt
  rw [Db.readCreatedAt, SigEndsInTime, asInt64]
  by_cases hsize : rec.size ≤ maxInlineRecordSize
  · rw [if_pos hsize]
    exact iff_of_true rfl (.inl hsize)
  · rw [if_neg hsize, or_iff_right hsize]
    constructor
    · intro h
      have hmod := congrArg (fun n : Int => n % ((2 ^ 64 : Nat) : Int)) h
      simp only [Int.bmod_emod] at hmod
      omega
    · intro h
      rw [h, Int.natCast_emod]
      exact Int.emod_bmod ..

end Field

/-! ## What a read of the record begins with -/

/-- The bytes of a chain are put behind those already copied. -/
theorem readChain_prefix (layer : PageLayer) (capacity : Nat) : ∀ (fuel pid : Nat) (written : List UInt8)
    (s : RecordStore), ∃ more,
      ((readChain capacity fuel pid written).run (recordStore layer) s).1 = written ++ more := by
  intro fuel
  induction fuel with
  | zero => exact fun pid written s => ⟨[], (List.append_nil _).symm⟩
  | succ fuel ih =>
    intro pid written s
    rw [readChain]
    by_cases hmore : pid ≠ 0 ∧ written.length < capacity
    · rw [if_pos hmore, Prog.run_bind, run_poolPin]
      rcases s.pin layer pid with ⟨_ | page, s₁⟩
      · exact ⟨[], (List.append_nil _).symm⟩
      · simp only [Prog.run_bind, run_poolUnpin]
        obtain ⟨more, hrun⟩ := ih (nextPage page)
          (written ++ readAt page 8 (min (dataLength page) (capacity - written.length))) s₁
        exact ⟨_, hrun.trans (List.append_assoc _ _ _)⟩
    · rw [if_neg hmore]
      exact ⟨[], (List.append_nil _).symm⟩

section Stored

variable {layer : PageLayer} {s : RecordStore} {rid : RecordId}

/-- **The front of a stored record**: whatever becomes of its other pages, a read begins with
the bytes in its slot. -/
theorem take_recordRead {old : List UInt8} (h : HoldsRecord s.flat rid.pageId.toNat rid.slotIndex.toNat old)
    {capacity length : Nat} {bytes : List UInt8}
    (hread : ((recordRead rid capacity).run (recordStore layer) s).1 = .ok (length, bytes)) {n : Nat}
    (hcapacity : n ≤ capacity) (hinline : n ≤ maxInline) :
    s.pin layer rid.pageId.toNat =
        (some (s.flat.pages rid.pageId.toNat), s.pinned layer rid.pageId.toNat) ∧
      bytes.take n = old.take n := by
  rw [recordRead, if_neg (pageId_ne_zero h.live)] at hread
  rcases pin_cases layer s rid.pageId.toNat with hpin | hpin
  · refine ⟨hpin, ?_⟩
    simp only [Prog.run_bind, run_poolPin, hpin] at hread
    cases h with
    | inline live layout slot =>
      have hstored := layout.stored _ _ slot
      simp only [hstored.not_spanned, Bool.false_eq_true, if_false, layout.slotPageRead_eq, Slots.read,
        Slots.record_eq_some.mpr slot] at hread
      obtain ⟨-, rfl⟩ := Prod.mk.inj (Except.ok.inj hread)
      rw [List.take_take, Nat.min_eq_left hcapacity]
    | @spanned span record first page long short apart =>
      obtain ⟨hspanned, hprefix⟩ := record.prefix_eq short
      rw [first] at hread
      have hcopied : readAt (s.flat.pages rid.pageId.toNat) (slotOffset (s.flat.pages rid.pageId.toNat) 0 +
          spannedPrefixSize) (min (old.take maxInline).length capacity) = (old.take maxInline).take capacity := by
        rw [← readAt_take _ _ (Nat.min_le_left _ _), record.readAt_inline, Nat.min_comm, ← List.take_eq_take_min]
      obtain ⟨more, hmore⟩ := readChain_prefix layer capacity dbMaxPages span.head
        ((old.take maxInline).take capacity) (s.pinned layer rid.pageId.toNat)
      simp only [hspanned, if_true, overflowRead, record.primary.count, record.primary.offset, if_false,
        Prog.run_bind, hprefix, hcopied, hmore, Nat.one_ne_zero, Nat.le_zero, Prog.run_pure, run_poolUnpin] at hread
      obtain ⟨-, rfl⟩ := Prod.mk.inj (Except.ok.inj hread)
      have hlength : n ≤ ((old.take maxInline).take capacity).length := by
        have hlong : 4068 < old.length := long
        have hmax : maxInline = 4060 := rfl
        rw [List.length_take, List.length_take]
        omega
      rw [List.take_append_of_le_length hlength, List.take_take, List.take_take, Nat.min_eq_left hcapacity,
        Nat.min_eq_left hinline]
  · simp only [Prog.run_bind, run_poolPin, hpin, Prog.run_pure] at hread
    cases hread

/-- `read_created_at` of a page that can be pinned. -/
theorem run_readCreatedAt {page : PageData} {s' : RecordStore} (hpin : s.pin layer rid.pageId.toNat = (some page, s'))
    (hslot : rid.slotIndex.toNat < slotCount page) (hoffset : slotOffset page rid.slotIndex.toNat ≠ 0)
    (rs : Option QueryResultSet) :
    ((readCreatedAt rid).run ((recordStore layer).beside collector) (s, rs)).1 =
      asInt64 (ofLE (readAt page (slotOffset page rid.slotIndex.toNat + 128) 8)) := by
  have hasked : ((readPages (pinPage rid.pageId.toNat)).run ((recordStore layer).beside collector) (s, rs)) =
      (some page, s', rs) := by
    rw [readPages, Prog.run_inl_beside]
    exact congrArg (fun r => (r.1, r.2, rs)) hpin
  simp only [readCreatedAt, Prog.run_bind, hasked, if_neg (Nat.not_le_of_lt hslot), if_neg hoffset, Prog.run_pure]

section Shortcut

variable {rec : EventRecord} (hpin : s.pin layer rid.pageId.toNat =
  (some (s.flat.pages rid.pageId.toNat), s.pinned layer rid.pageId.toNat)) (rs : Option QueryResultSet)

include hpin

theorem run_readCreatedAt_inline {slots : Slots} (layout : Layout (s.flat.pages rid.pageId.toNat) slots)
    (slot : slots[rid.slotIndex.toNat]? = some (some rec.toBytes)) :
    ((readCreatedAt rid).run ((recordStore layer).beside collector) (s, rs)).1 = Db.readCreatedAt rec := by
  have hlength := rec.length_toBytes
  have hsize : rec.size = 152 + rec.content.length + rec.tags.length := rfl
  have hmax : maxInlineRecordSize = 4068 := rfl
  have hpage : dbPageSize = 4096 := rfl
  have hstored := layout.stored _ _ slot
  have hslot := (List.getElem?_eq_some_iff.mp slot).1
  have hdirectory := layout.slotAt_le hslot
  have hheader := header_le_slotAt rid.slotIndex.toNat
  have hbehind := hstored.behind
  have hinside := hstored.inside
  rw [run_readCreatedAt hpin (layout.count ▸ hslot) (by omega), Db.readCreatedAt, if_pos (by omega)]
  have hfield := congrArg (List.take 8) (readAt_drop (s.flat.pages rid.pageId.toNat)
    (slotOffset (s.flat.pages rid.pageId.toNat) rid.slotIndex.toNat) (show 128 ≤ rec.toBytes.length by omega))
  rw [readAt_take _ _ (by omega), hstored.content] at hfield
  rw [← hfield]
  exact createdAtOf_toBytes rec

/-- Behind the prefix the field is eight bytes further on than it is looked for. -/
theorem run_readCreatedAt_spanned {span : Span} (record : SpannedRecord s.flat rid.pageId.toNat rec.toBytes span)
    (first : rid.slotIndex.toNat = 0) (long : maxInlineRecordSize < rec.toBytes.length) :
    ((readCreatedAt rid).run ((recordStore layer).beside collector) (s, rs)).1 = Db.readCreatedAt rec := by
  have hlength := rec.length_toBytes
  have hmax : maxInlineRecordSize = 4068 := rfl
  have hinline : maxInline = 4060 := rfl
  have hfits : 120 + 8 ≤ (rec.toBytes.take maxInline).length := by
    rw [List.length_take]
    omega
  rw [run_readCreatedAt hpin (by rw [first, record.primary.count]; exact Nat.one_pos)
    (by rw [first]; exact record.primary.offset), Db.readCreatedAt, if_neg (by omega), first]
  have hfield := congrArg (List.take 8) (readAt_drop (s.flat.pages rid.pageId.toNat)
    (slotOffset (s.flat.pages rid.pageId.toNat) 0 + spannedPrefixSize)
    (show 120 ≤ (rec.toBytes.take maxInline).length by omega))
  rw [readAt_take _ _ (by omega), record.readAt_inline, List.drop_take, List.take_take,
    Nat.min_eq_left (by omega), sigEnd_toBytes] at hfield
  rw [show slotOffset (s.flat.pages rid.pageId.toNat) 0 + 128 =
    slotOffset (s.flat.pages rid.pageId.toNat) 0 + spannedPrefixSize + 120 from rfl, ← hfield]
  rfl

/-- **The timestamp shortcut** reads byte 128 of a record in one page, and byte 120 of one that
has a prefix. -/
theorem run_readCreatedAt_stored (h : HoldsRecord s.flat rid.pageId.toNat rid.slotIndex.toNat rec.toBytes) :
    ((readCreatedAt rid).run ((recordStore layer).beside collector) (s, rs)).1 = Db.readCreatedAt rec := by
  cases h with
  | inline live layout slot => exact run_readCreatedAt_inline hpin rs layout slot
  | spanned record first page long short apart => exact run_readCreatedAt_spanned hpin rs record first long

end Shortcut

/-- **Where the shortcut is right.**  Of a record that can be read, the query engine sees the
time that is in it exactly if the record is in one page, or its signature ends in this time. -/
theorem readCreatedAt_eq_iff {rec : EventRecord}
    (h : HoldsRecord s.flat rid.pageId.toNat rid.slotIndex.toNat rec.toBytes) {capacity length : Nat}
    {bytes : List UInt8} (hcapacity : 136 ≤ capacity)
    (hread : ((recordRead rid capacity).run (recordStore layer) s).1 = .ok (length, bytes))
    (rs : Option QueryResultSet) :
    ((readCreatedAt rid).run ((recordStore layer).beside collector) (s, rs)).1 = createdAtOf bytes ↔
      rec.size ≤ maxInlineRecordSize ∨ SigEndsInTime rec := by
  obtain ⟨hpin, hfront⟩ := take_recordRead h hread hcapacity (by decide)
  have hsame : createdAtOf bytes = asInt64 rec.createdAt := by
    have hfield := congrArg (List.drop 128) hfront
    rw [List.drop_take, List.drop_take] at hfield
    rw [← createdAtOf_toBytes, createdAtOf, createdAtOf, hfield]
  rw [run_readCreatedAt_stored hpin rs h, hsame, readCreatedAt_eq_createdAt_iff]

end Stored

/-! ## A short record and a long one -/

/-- The record with nothing in it but its time. -/
theorem readCreatedAt_eq_iff_short :
    ((readCreatedAt (recordId 1 0)).run ((recordStore plainLayer).beside collector)
      (⟨storeOfTime 1, [], 0, []⟩, none)).1 = createdAtOf (recordOfTime 1).toBytes := by
  have hpage : (storeOfTime 1).pages 1 = insertedPage (recordOfTime 1).toBytes (slotPageInit 1) := by
    simp [storeOfTime]
  have hstored : HoldsRecord (storeOfTime 1) 1 0 (recordOfTime 1).toBytes :=
    .inline (live_storeOfTime 1 (.inl rfl)) (hpage ▸ layout_recordOfTime 1) rfl
  have hlength : (recordOfTime 1).toBytes.length = 154 := (recordOfTime 1).length_toBytes
  have hread := @HoldsRecord.readsBack ⟨storeOfTime 1, [], 0, []⟩ (recordId 1 0) _ hstored plainLayer
    ⟨fun _ => rfl, fun _ => rfl⟩ 8192
  rw [List.take_of_length_le (by omega)] at hread
  exact (@readCreatedAt_eq_iff plainLayer ⟨storeOfTime 1, [], 0, []⟩ (recordId 1 0) (recordOfTime 1) hstored 8192
    _ _ (by decide) hread none).mpr (.inl (by decide))

/-- A record of the same time that is too long for a page. -/
def longRecord : EventRecord := { recordOfTime 1 with content := List.replicate 4000 97 }

/-- The record of time 1 is stored and read back with its time, but the query engine takes
it for one of time 0. -/
theorem readCreatedAt_longRecord : longRecord.deleted = false ∧ ∃ (rid : RecordId) (s : RecordStore),
    (recordInsert longRecord.toBytes).run (recordStore plainLayer) ⟨.empty, [], 0, []⟩ = (.ok rid, s) ∧
      (∃ bytes, ((recordRead rid 8192).run (recordStore plainLayer) s).1 = .ok (longRecord.size, bytes) ∧
        createdAtOf bytes = 1) ∧
      ((readCreatedAt rid).run ((recordStore plainLayer).beside collector) (s, none)).1 = 0 := by
  have hgrants : plainLayer.Grants := ⟨fun _ => rfl, fun _ => rfl⟩
  have hsize : longRecord.size = 4154 := by
    rw [EventRecord.size, longRecord, List.length_replicate]
    rfl
  have hlength : longRecord.toBytes.length = 4154 := longRecord.length_toBytes.trans hsize
  have hmax : maxInlineRecordSize = 4068 := rfl
  obtain ⟨pid, span, s, hrun, hrecord⟩ := @run_overflowInsert plainLayer hgrants ⟨.empty, [], 0, []⟩
    longRecord.toBytes (by rw [hlength]; decide)
  have hpid := hrecord.live.pageId_recordId 0
  have hpin := RecordStore.pin_eq hgrants s hrecord.live
  refine ⟨rfl, recordId pid 0, s, ?_, ⟨longRecord.toBytes.take 8192, ?_, ?_⟩, ?_⟩
  · rw [recordInsert, if_neg (by omega), if_pos (by omega)]
    exact hrun
  · rw [← longRecord.length_toBytes]
    exact run_recordRead_spanned hgrants hrecord (by omega) 8192
  · rw [List.take_of_length_le (by omega), createdAtOf_toBytes]
    exact @asInt64_emod 1 ⟨by decide, by decide⟩
  · rw [← hpid] at hpin hrecord
    rw [run_readCreatedAt_spanned hpin none hrecord rfl (by omega), Db.readCreatedAt, if_neg (by omega)]
    have hend : ofLE (longRecord.sig.1.drop 56) = 0 := show ofLE ((blankBytes 64).1.drop 56) = 0 by decide
    rw [hend]
    exact Int.zero_bmod

end OnionRelay.Db.Engine
