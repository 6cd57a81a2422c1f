import OnionRelay.Db.EventRead
import OnionRelay.Db.PostFilter
import OnionRelay.Db.QueryDiscipline

/-!
# Whether the post-filter is exact

The buffer of `query_post_filter` has 4096 bytes and keeps what an earlier round left behind
a shorter record.  A round never looks there, but the tags of a record whose content reaches
past byte 4096 lie outside the buffer.

* `run_queryPostFilter`: what is left of a set, as the rounds decide it.
* `postFilterExact_iff`: the records that are left are those of the filter, and only bytes of them are
  read, exactly if no round comes by byte 4096 and no record lies outside a bound below 0
  alone.
-/

namespace OnionRelay.Db.Engine

open OnionRelay.Lib Reader

/-! ## The rounds -/

/-- Whether a round keeps its entry, the length of the record, and the bytes of the buffer
that its checks read. -/
structure Round where
  keep : Bool
  length : Nat
  reads : List Nat

/-- The checks on a record of `length` bytes in the buffer. -/
def checkRound (filter : NostrDBFilter) (length : Nat) (buf : Mem) : Round :=
  ⟨decide (152 ≤ length) && postFilterAccepts filter buf, length,
    if 152 ≤ length then reads (postFilterReader filter) buf else []⟩

/-- The rounds of `query_post_filter`, one after the other. -/
def rounds (filter : NostrDBFilter) : List RecordId → Mem → RecordM (List Round)
  | [], _ => return []
  | rid :: rids, buf => do
    match ← recordRead rid 4096 with
    | .error _ =>
      let rest ← rounds filter rids buf
      return ⟨false, 0, []⟩ :: rest
    | .ok (length, bytes) =>
      let buf := writeAt buf 0 bytes
      let rest ← rounds filter rids buf
      return checkRound filter length buf :: rest

/-- The entries whose round keeps them. -/
def kept (es : List (RecordId × Int)) (rs : List Round) : List (RecordId × Int) :=
  ((es.zip rs).filter fun p => p.2.keep).map Prod.fst

theorem kept_cons (e : RecordId × Int) (es : List (RecordId × Int)) (r : Round) (rs : List Round) :
    kept (e :: es) (r :: rs) = if r.keep then e :: kept es rs else kept es rs := by
  rw [kept, List.zip_cons_cons, List.filter_cons]
  split <;> rfl

section Loop

variable {σ : Type} (pages : Handler (PageSig.sum RecordSig) σ) (filter : NostrDBFilter)

theorem run_rounds_cons (rid : RecordId) (rids : List RecordId) (buf : Mem) (s : σ) :
    ∃ r : Round, r.keep = ((postFilterEntry filter rid buf).run pages s).1.1 ∧
      ((rounds filter (rid :: rids) buf).run pages s).1 =
        r :: ((rounds filter rids ((postFilterEntry filter rid buf).run pages s).1.2).run pages
          ((postFilterEntry filter rid buf).run pages s).2).1 := by
  rcases hread : (recordRead rid 4096).run pages s with ⟨err | ⟨length, bytes⟩, s'⟩
  · refine ⟨⟨false, 0, []⟩, ?_⟩
    simp only [rounds, postFilterEntry, Prog.run_bind, hread, Prog.run_pure, and_self]
  · refine ⟨checkRound filter length (writeAt buf 0 bytes), ?_⟩
    simp only [rounds, postFilterEntry, checkRound, Prog.run_bind, hread, Prog.run_pure, and_self]

/-- **The loop** moves the entries that are kept to the front. -/
theorem run_postFilterLoop : ∀ (left i write : Nat) (buf : Mem) (rs : QueryResultSet) (s : σ), write ≤ i →
    ((postFilterLoop filter left i write buf rs).run pages s).1.entries =
      filled write rs.entry ++ kept ((List.range' i left).map rs.entry)
        ((rounds filter (((List.range' i left).map rs.entry).map Prod.fst) buf).run pages s).1 := by
  intro left
  induction left with
  | zero =>
    intro i write buf rs s _
    rw [postFilterLoop, Prog.run_pure, List.range'_zero]
    exact (List.append_nil _).symm
  | succ left ih =>
    intro i write buf rs s hwrite
    rw [postFilterLoop, Prog.run_bind, List.range'_succ, List.map_cons, List.map_cons]
    obtain ⟨r, hkeep, hrounds⟩ := run_rounds_cons pages filter (rs.entry i).1
      (((List.range' (i + 1) left).map rs.entry).map Prod.fst) buf s
    rw [hrounds, kept_cons, hkeep]
    have hkey : rs.keys i = (rs.entry i).1 := rfl
    rw [hkey]
    generalize (postFilterEntry filter (rs.entry i).1 buf).run pages s = round
    obtain ⟨⟨keep, buf'⟩, s'⟩ := round
    dsimp only
    cases keep with
    | false =>
      rw [if_neg Bool.false_ne_true, if_neg Bool.false_ne_true]
      exact ih (i + 1) write buf' rs s' (Nat.le_succ_of_le hwrite)
    | true =>
      -- the entry goes to the first free place
      rw [if_pos rfl, if_pos rfl]
      have hentry : ResultArrays.entry (if write ≠ i then
          (⟨rs.put write (rs.keys i) (rs.createdAt i), rs.bloom⟩ : QueryResultSet) else rs).toResultArrays =
            Function.update rs.entry write (rs.entry i) := by
        by_cases hne : write = i
        · rw [if_neg (not_not.mpr hne), hne, Function.update_eq_self]
        · rw [if_pos hne]
          exact ResultArrays.entry_put write (rs.keys i) (rs.createdAt i)
      have hbehind : (List.range' (i + 1) left).map (Function.update rs.entry write (rs.entry i)) =
          (List.range' (i + 1) left).map rs.entry := by
        refine List.map_congr_left fun j hj => Function.update_of_ne ?_ _ _
        have hj := List.mem_range'_1.mp hj
        omega
      have hrest := ih (i + 1) (write + 1) buf' (if write ≠ i then
        ⟨rs.put write (rs.keys i) (rs.createdAt i), rs.bloom⟩ else rs) s' (Nat.succ_le_succ hwrite)
      rw [hentry, hbehind, filled_succ, Function.update_self, filled_update_of_le (Nat.le_refl _),
        List.append_assoc] at hrest
      exact hrest

theorem run_queryPostFilter (stack : Mem) (rs : QueryResultSet) (s : σ) :
    ((queryPostFilter filter stack rs).run pages s).1.entries =
      kept rs.entries ((rounds filter (rs.entries.map Prod.fst) stack).run pages s).1 := by
  have h := run_postFilterLoop pages filter rs.count 0 0 stack rs s (Nat.le_refl _)
  rw [← List.range_eq_range'] at h
  exact h

end Loop

/-! ## Reading a record -/

/-- Pages are pinned and unpinned. -/
def ReadsRecord : (PageSig.sum RecordSig).Op → Prop
  | .inl o => Reads o
  | .inr _ => False

theorem asks_poolUnpin (pid : Nat) : (poolUnpin pid).Asks ReadsRecord := (Prog.asks_call _).mpr trivial

theorem asks_readChain (capacity : Nat) : ∀ (fuel pid : Nat) (written : List UInt8),
    (readChain capacity fuel pid written).Asks ReadsRecord := by
  intro fuel
  induction fuel with
  | zero => exact fun _ _ => Prog.asks_pure _
  | succ fuel ih =>
    intro pid written
    rw [readChain]
    split
    · refine Prog.Asks.call_bind trivial fun page => ?_
      cases page with
      | none => exact Prog.asks_pure _
      | some page => exact (asks_poolUnpin pid).bind fun _ => ih _ _
    · exact Prog.asks_pure _

theorem asks_recordRead (rid : RecordId) (capacity : Nat) : (recordRead rid capacity).Asks ReadsRecord := by
  rw [recordRead]
  split
  · exact Prog.asks_pure _
  refine Prog.Asks.call_bind trivial fun page => ?_
  cases page with
  | none => exact Prog.asks_pure _
  | some page =>
    have hend : ∀ r : Except NostrDBError (Nat × List UInt8),
        (poolUnpin rid.pageId.toNat >>= fun _ => pure r : RecordM _).Asks ReadsRecord :=
      fun r => (asks_poolUnpin _).bind fun _ => Prog.asks_pure _
    dsimp only
    split
    · refine Prog.Asks.bind ?_ hend
      rw [overflowRead]
      split
      · exact Prog.asks_pure _
      split
      · exact Prog.asks_pure _
      · exact (asks_readChain _ _ _ _).bind fun _ => Prog.asks_pure _
    · exact hend _

/-- The pages stay as they are. -/
theorem flat_recordRead (layer : PageLayer) (rid : RecordId) (capacity : Nat) (s : RecordStore) :
    ((recordRead rid capacity).run (recordStore layer) s).2.flat = s.flat := by
  refine Prog.run_preserves_of_asks (I := fun s' : RecordStore => s'.flat = s.flat) ?_ (asks_recordRead rid capacity) rfl
  rintro (o | o) s' ho hs'
  · cases o with
    | pin pid =>
      refine Eq.trans ?_ hs'
      rw [recordStore, RecordStore.pin]
      split <;> rfl
    | unpin pid => exact hs'
    | alloc => exact ho.elim
    | write pid page => exact ho.elim
    | markDirty pid lsn => exact ho.elim
  · exact ho.elim

/-! ## What is asked for -/

/-- The record of an event with these tags. -/
structure StoredEvent (s : FlatStore) (rid : RecordId) (rec : EventRecord) (tags : List NostrTagEntity) : Prop where
  holds : HoldsRecord s rid.pageId.toNat rid.slotIndex.toNat rec.toBytes
  size : rec.size ≤ 8192
  bounded : ∀ t ∈ tags, t.Bounded
  tags : serializeTags tags 8192 = some rec.tags

/-- The record is one that the filter asks for; a bound of 0 and an empty list ask nothing. -/
def Satisfies (filter : NostrDBFilter) (rec : EventRecord) (tags : List NostrTagEntity) : Prop :=
  rec.deleted = false ∧ Matches filter (asInt64 rec.createdAt) ∧
    (filter.kinds = [] ∨ rec.header.kind.toNat ∈ filter.kinds) ∧
    (filter.authors = [] ∨ rec.pubkey ∈ filter.authors) ∧ (filter.ids = [] ∨ rec.id ∈ filter.ids) ∧
    ∀ ftag ∈ filter.tags, ∃ p ∈ indexablePairs tags,
      p.1 = ftag.name ∧ ∃ v ∈ ftag.values, tagValueMatches ftag.name p.2 v = true

instance (filter : NostrDBFilter) (rec : EventRecord) (tags : List NostrTagEntity) :
    Decidable (Satisfies filter rec tags) := inferInstanceAs (Decidable (_ ∧ _))

/-- The filter without its bounds below 0. -/
def NostrDBFilter.positive (filter : NostrDBFilter) : NostrDBFilter :=
  { filter with since := max filter.since 0, until_ := max filter.until_ 0 }

/-- The record and nothing else. -/
def whole (rec : EventRecord) : Mem := writeAt (fun _ => 0) 0 rec.toBytes

/-- The checks on the whole record come by no byte behind the buffer. -/
def InBuffer (filter : NostrDBFilter) (rec : EventRecord) : Prop :=
  (postFilterReader filter).Within (whole rec) (· < 4096)

/-- Where a round looks at bytes of the record, it sees them. -/
theorem buffer_eq_whole (rec : EventRecord) (buf : Mem) {a : Nat} (hlow : a < 4096) (hhigh : a < rec.size) :
    writeAt buf 0 (rec.toBytes.take 4096) a = whole rec a := by
  rw [← rec.length_toBytes] at hhigh
  have hin : a < (rec.toBytes.take 4096).length := by rw [List.length_take]; omega
  have hleft := @writeAt_inside buf 0 a _ hin
  have hright := @writeAt_inside (fun _ => 0) 0 a _ hhigh
  rw [Nat.zero_add] at hleft hright
  rw [hleft, whole, hright, List.getElem_take]

/-- A round that stays inside the buffer and the record is one whose record is in the buffer. -/
theorem inBuffer_of_checkRound {rec : EventRecord} {filter : NostrDBFilter} {buf : Mem}
    (h : ∀ a ∈ (checkRound filter rec.size (writeAt buf 0 (rec.toBytes.take 4096))).reads,
      a < 4096 ∧ a < rec.size) : InBuffer filter rec := by
  have hlong : 152 ≤ rec.size := by rw [EventRecord.size]; omega
  rw [checkRound, if_pos hlong] at h
  obtain ⟨-, hreads⟩ := @Reader.congr _ _ (whole rec) (postFilterReader filter)
    fun a ha => buffer_eq_whole rec buf (h a ha).1 (h a ha).2
  intro a ha
  rw [hreads] at ha
  exact (h a ha).1

section Whole

variable {rec : EventRecord} (hsize : rec.size ≤ 8192)

include hsize

theorem whole_parts : EventHeader.read (whole rec) = rec.header ∧
    rec.header.contentLength.toNat = rec.content.length ∧ rec.header.tagsLength.toNat = rec.tags.length ∧
    readAt (whole rec) (152 + rec.content.length) rec.tags.length = rec.tags := by
  have hread : readAt (whole rec) 0 rec.size = rec.toBytes := readAt_writeAt_same _ _ _ rec.length_toBytes.symm
  obtain ⟨hhead, hbody⟩ := readAt_eq_append hread
  obtain ⟨-, htags⟩ := readAt_eq_append hbody
  rw [EventHeader.length_toBytes] at hhead htags
  rw [EventRecord.size] at hsize
  refine ⟨EventHeader.read_toBytes hhead, ?_, ?_, ?_⟩
  · rw [EventRecord.header, UInt16.toNat_ofNat', Nat.mod_eq_of_lt (by omega)]
  · rw [EventRecord.header, UInt16.toNat_ofNat', Nat.mod_eq_of_lt (by omega)]
  · rwa [Nat.zero_add] at htags

/-- A round on the whole record reads nothing but the record. -/
theorem within_whole (filter : NostrDBFilter) : (postFilterReader filter).Within (whole rec) (· < rec.size) := by
  obtain ⟨hheader, hcontent, htags, -⟩ := whole_parts hsize
  have hwithin := @within_postFilterReader (whole rec) filter
  rwa [hheader, hcontent, htags] at hwithin

/-- A record that fits the buffer is seen whole. -/
theorem inBuffer_of_le (filter : NostrDBFilter) (hle : rec.size ≤ 4096) : InBuffer filter rec :=
  fun a ha => Nat.lt_of_lt_of_le (within_whole hsize filter a ha) hle

/-- A record that is asked for by its header and has its tags behind the buffer is not seen. -/
theorem not_inBuffer {filter : NostrDBFilter} (hmany : 2 ≤ filter.tags.length)
    (haccepts : headerAccepts filter rec.header = true) (htags : 2 ≤ rec.tags.length)
    (hfar : 4096 ≤ 152 + rec.content.length) : ¬ InBuffer filter rec := by
  intro hin
  refine absurd (hin (152 + rec.content.length) ?_) (Nat.not_lt.mpr hfar)
  obtain ⟨hheader, hcontent, hlength, -⟩ := whole_parts hsize
  rw [postFilterReader, reads_bind, value_bytesAt]
  dsimp only
  rw [read_getD_readAt, hheader, if_pos haccepts, if_neg (by omega), hcontent, hlength]
  refine List.mem_append_right _ ?_
  cases hftags : filter.tags with
  | nil =>
    rw [hftags, List.length_nil] at hmany
    omega
  | cons ftag ftags =>
    rw [allTagsMatchAt, reads_bind, tagsMatchAt, if_neg (by omega), reads_bind, reads_bytesAt]
    refine List.mem_append_left _ (List.mem_append_left _ (List.mem_range'_1.mpr ⟨Nat.le_refl _, by omega⟩))

theorem whole_accepts_iff {tags : List NostrTagEntity} (hbounded : ∀ t ∈ tags, t.Bounded)
    (htags : serializeTags tags 8192 = some rec.tags) {filter : NostrDBFilter} (hmany : 2 ≤ filter.tags.length) :
    postFilterAccepts filter (whole rec) = true ↔ Satisfies filter.positive rec tags := by
  obtain ⟨hheader, hcontent, hlength, hread⟩ := whole_parts hsize
  have htime : asInt64 rec.header.createdAt.toNat = asInt64 rec.createdAt := by
    rw [EventRecord.header, UInt64.toNat_ofNat', asInt64, asInt64, Int.natCast_emod]
    exact Int.emod_bmod _ _
  have hbounds : outside filter.since filter.until_ (asInt64 rec.createdAt) = false ↔
      Matches filter.positive (asInt64 rec.createdAt) := by
    generalize asInt64 rec.createdAt = t
    rw [outside, Matches, NostrDBFilter.positive]
    simp only [Bool.or_eq_false_iff, Bool.and_eq_false_iff, decide_eq_false_iff_not]
    omega
  have hflags : rec.header.flags &&& 1 = 0 ↔ rec.deleted = false := by
    show (if rec.deleted then (1 : UInt32) else 0) &&& 1 = 0 ↔ rec.deleted = false
    cases rec.deleted <;> decide
  have htag : ∀ ftag, tagsMatchFilterTag rec.tags ftag = true ↔ ∃ p ∈ indexablePairs tags,
      p.1 = ftag.name ∧ ∃ v ∈ ftag.values, tagValueMatches ftag.name p.2 v = true := by
    intro ftag
    rw [tagsMatchFilterTag_serializeTags ftag hbounded htags]
    simp only [List.any_eq_true, Bool.and_eq_true, decide_eq_true_iff]
  rw [postFilterAccepts, Satisfies, ← hbounds, ← hflags, hheader, hcontent, hlength, hread, htime,
    decide_eq_false (show ¬ filter.tags.length ≤ 1 by omega)]
  simp only [Bool.and_eq_true, Bool.or_eq_true, Bool.not_eq_true', Bool.false_or, decide_eq_true_iff,
    List.isEmpty_iff, List.any_beq', List.contains_iff_mem, List.all_eq_true, htag, and_assoc]
  exact Iff.rfl

/-- A round whose record is in the buffer decides as on the whole record, and stays inside it. -/
theorem checkRound_of_inBuffer {filter : NostrDBFilter} (h : InBuffer filter rec) (buf : Mem) :
    (checkRound filter rec.size (writeAt buf 0 (rec.toBytes.take 4096))).keep = postFilterAccepts filter (whole rec) ∧
      ∀ a ∈ (checkRound filter rec.size (writeAt buf 0 (rec.toBytes.take 4096))).reads, a < 4096 ∧ a < rec.size := by
  have hwithin := within_whole hsize filter
  obtain ⟨hvalue, hreads⟩ := @Reader.congr _ _ (writeAt buf 0 (rec.toBytes.take 4096)) (postFilterReader filter)
    fun a ha => (buffer_eq_whole rec buf (h a ha) (hwithin a ha)).symm
  have hlong : 152 ≤ rec.size := by rw [EventRecord.size]; omega
  rw [value_postFilterReader, value_postFilterReader] at hvalue
  rw [checkRound, decide_eq_true hlong, if_pos hlong, hvalue, hreads]
  exact ⟨rfl, fun a ha => ⟨h a ha, hwithin a ha⟩⟩

end Whole

/-! ## The theorem -/

/-- The records that are left are those the filter asks for, and nothing but bytes of the
records is read. -/
def Exact (layer : PageLayer) (s : RecordStore) (filter : NostrDBFilter) (stack : Mem) (rs : QueryResultSet)
    (recordAt : RecordId → EventRecord) (tagsAt : RecordId → List NostrTagEntity) : Prop :=
  ((queryPostFilter filter stack rs).run (recordStore layer) s).1.entries =
      rs.entries.filter (fun e => Satisfies filter (recordAt e.1) (tagsAt e.1)) ∧
    ∀ r ∈ ((rounds filter (rs.entries.map Prod.fst) stack).run (recordStore layer) s).1,
      ∀ a ∈ r.reads, a < 4096 ∧ a < r.length

section Exact

variable {layer : PageLayer} {s : RecordStore} {filter : NostrDBFilter} {recordAt : RecordId → EventRecord}
  {tagsAt : RecordId → List NostrTagEntity}

/-- **The rounds** over stored records have each its record in the buffer. -/
theorem run_rounds (hlayer : layer.Grants) (flat : FlatStore) (filter : NostrDBFilter) :
    ∀ (rids : List RecordId) (buf : Mem) (s : RecordStore), s.flat = flat →
      (∀ rid ∈ rids, StoredEvent flat rid (recordAt rid) (tagsAt rid)) →
        List.Forall₂ (fun rid r => ∃ buf' : Mem,
          r = checkRound filter (recordAt rid).size (writeAt buf' 0 ((recordAt rid).toBytes.take 4096)))
          rids ((rounds filter rids buf).run (recordStore layer) s).1 := by
  intro rids
  induction rids with
  | nil => exact fun _ _ _ _ => .nil
  | cons rid rids ih =>
    intro buf s hflat hstored
    have hholds := (hstored rid List.mem_cons_self).holds
    rw [← hflat] at hholds
    have hread := hholds.readsBack layer hlayer 4096
    have hsame := flat_recordRead layer rid 4096 s
    rw [rounds, Prog.run_bind]
    generalize (recordRead rid 4096).run (recordStore layer) s = r at hread hsame
    obtain ⟨r, s'⟩ := r
    obtain rfl : r = .ok _ := hread
    simp only [Prog.run_bind, Prog.run_pure, (recordAt rid).length_toBytes]
    exact .cons ⟨buf, rfl⟩ (ih _ s' (hsame.trans hflat) fun rid' hmem => hstored rid' (List.mem_cons_of_mem _ hmem))

theorem kept_eq_filter {p : RecordId × Int → Bool} {es : List (RecordId × Int)} {rounds : List Round}
    (h : List.Forall₂ (fun e r => r.keep = p e) es rounds) : kept es rounds = es.filter p := by
  induction h with
  | nil => rfl
  | cons hkeep _ ih => rw [kept_cons, List.filter_cons, hkeep, ih]

/-- Where the rounds stay inside, each has its record in the buffer. -/
theorem Exact.inBuffer (hlayer : layer.Grants) {rs : QueryResultSet} {stack : Mem}
    (hstored : ∀ e ∈ rs.entries, StoredEvent s.flat e.1 (recordAt e.1) (tagsAt e.1))
    (h : Exact layer s filter stack rs recordAt tagsAt) : ∀ e ∈ rs.entries, InBuffer filter (recordAt e.1) := by
  have hrounds := @run_rounds layer recordAt tagsAt hlayer s.flat filter
    (rs.entries.map Prod.fst) stack s rfl (List.forall_mem_map.mpr hstored)
  rw [List.forall₂_map_left_iff] at hrounds
  have hboth := (List.forall₂_and_left _ _).mpr ⟨h.2, List.Forall₂.flip (R := flip _) hrounds⟩
  refine ((List.forall₂_and_left _ _).mp (List.Forall₂.flip (hboth.imp ?_) : List.Forall₂
    (fun e _ => InBuffer filter (recordAt e.1) ∧ True) rs.entries _)).1
  rintro r e ⟨hreads, buf, rfl⟩
  exact ⟨inBuffer_of_checkRound hreads, trivial⟩

/-- **The post-filter is exact** where no round comes by the end of the buffer and no bound
below 0 would take a record away. -/
theorem postFilterExact_iff (hlayer : layer.Grants) {rs : QueryResultSet}
    (hstored : ∀ e ∈ rs.entries, StoredEvent s.flat e.1 (recordAt e.1) (tagsAt e.1))
    (hmany : 2 ≤ filter.tags.length) (stack : Mem) :
    Exact layer s filter stack rs recordAt tagsAt ↔ ∀ e ∈ rs.entries, InBuffer filter (recordAt e.1) ∧
      (Satisfies filter.positive (recordAt e.1) (tagsAt e.1) → Matches filter (asInt64 (recordAt e.1).createdAt)) := by
  have hrounds := @run_rounds layer recordAt tagsAt hlayer s.flat filter
    (rs.entries.map Prod.fst) stack s rfl (List.forall_mem_map.mpr hstored)
  obtain ⟨decided, hdecided⟩ : ∃ decided,
    ((rounds filter (rs.entries.map Prod.fst) stack).run (recordStore layer) s).1 = decided := ⟨_, rfl⟩
  rw [hdecided, List.forall₂_map_left_iff] at hrounds
  -- what the rounds decide where each has its record in the buffer
  have hkept : (∀ e ∈ rs.entries, InBuffer filter (recordAt e.1)) →
      kept rs.entries decided = rs.entries.filter (fun e => postFilterAccepts filter (whole (recordAt e.1))) ∧
        ∀ r ∈ decided, ∀ a ∈ r.reads, a < 4096 ∧ a < r.length := by
    intro hin
    have hboth := (List.forall₂_and_left _ _).mpr ⟨fun e he => And.intro (hstored e he).size (hin e he), hrounds⟩
    refine ⟨kept_eq_filter (hboth.imp ?_), ?_⟩
    · rintro e r ⟨⟨hsize, hbuf⟩, buf, rfl⟩
      exact (checkRound_of_inBuffer hsize hbuf buf).1
    · have hreads : List.Forall₂ (fun r e => (∀ a ∈ r.reads, a < 4096 ∧ a < r.length) ∧ True) decided rs.entries := by
        refine List.Forall₂.flip (hboth.imp ?_)
        rintro e r ⟨⟨hsize, hbuf⟩, buf, rfl⟩
        exact ⟨(checkRound_of_inBuffer hsize hbuf buf).2, trivial⟩
      exact ((List.forall₂_and_left _ _).mp hreads).1
  have hasked : ∀ e ∈ rs.entries, postFilterAccepts filter (whole (recordAt e.1)) = true ↔
      Satisfies filter.positive (recordAt e.1) (tagsAt e.1) := fun e he =>
    whole_accepts_iff (hstored e he).size (hstored e he).bounded (hstored e he).tags hmany
  constructor
  · intro hexact
    have hin := hexact.inBuffer hlayer hstored
    have hentries := hexact.1
    rw [run_queryPostFilter, hdecided] at hentries
    intro e he
    refine ⟨hin e he, fun hpositive => ?_⟩
    rw [(hkept hin).1] at hentries
    have hmem : e ∈ rs.entries.filter (fun e => postFilterAccepts filter (whole (recordAt e.1))) :=
      List.mem_filter.mpr ⟨he, (hasked e he).mpr hpositive⟩
    rw [hentries] at hmem
    exact (of_decide_eq_true (List.mem_filter.mp hmem).2).2.1
  · intro h
    obtain ⟨hentries, hinside⟩ := hkept fun e he => (h e he).1
    rw [Exact, run_queryPostFilter, hdecided]
    refine ⟨hentries.trans (List.filter_congr fun e he => ?_), hinside⟩
    rw [Bool.eq_iff_iff, hasked e he, decide_eq_true_iff]
    constructor
    · intro hpositive
      exact ⟨hpositive.1, (h e he).2 hpositive, hpositive.2.2⟩
    · intro hsat
      refine ⟨hsat.1, ?_, hsat.2.2⟩
      have htime := hsat.2.1
      rw [Matches, NostrDBFilter.positive]
      rw [Matches] at htime
      dsimp only
      omega

end Exact

/-! ## A short record and a long one -/

/-- A store with a record that takes two pages. -/
def spannedStore (data : List UInt8) : RecordStore :=
  ⟨⟨fun pid => if pid = 1 then primaryPage 1 data 2 else spanPage (data.drop maxInline), [1, 2], 0⟩, [], 0, []⟩

theorem holdsRecord_spannedStore {data : List UInt8} (hlong : maxInlineRecordSize < data.length)
    (htwo : data.length ≤ maxInline + overflowDataSpace) : HoldsRecord (spannedStore data).flat 1 0 data := by
  have hmax : maxInlineRecordSize = 4068 := rfl
  have hinline : maxInline = 4060 := rfl
  have hspace : overflowDataSpace = 4088 := rfl
  have hlive : ∀ pid, pid = 1 ∨ pid = 2 → (spannedStore data).flat.Live pid := by
    intro pid hpid
    have hpages : dbMaxPages = 2 ^ 24 := rfl
    refine ⟨?_, by omega, by omega⟩
    rw [spannedStore, List.mem_cons, List.mem_singleton]
    exact hpid
  have hdrop : (data.drop maxInline).length = data.length - maxInline := List.length_drop
  obtain ⟨page, hinsert, hprimary⟩ := primary_insert data 1 2
  have hpage : primaryPage 1 data 2 = write16 page (slotAt 0 + 2) spannedMarker := by
    rw [primaryPage, insertedPage, hinsert]
  refine @HoldsRecord.spanned _ 1 0 data [(2, data.drop maxInline)] ⟨hlive 1 (.inl rfl), ?_, ?_, ?_, show 1 < dbMaxPages by decide⟩ rfl rfl
    hlong (by omega) (show 1 ∉ [2] by decide)
  · show Primary (primaryPage 1 data 2) data 2
    rw [hpage]
    exact hprimary
  · refine ⟨hlive 2 (.inr rfl), SpanPage.last (by omega), List.ne_nil_of_length_pos ?_, trivial⟩
    show 0 < (data.drop maxInline).length
    omega
  · exact List.append_nil _

/-- The tags `["t", "a"]` and `["r", "b"]`. -/
def topicTags : List NostrTagEntity := [⟨[116], [[97]]⟩, ⟨[114], [[98]]⟩]

/-- The tags as they are stored. -/
def topicBytes : List UInt8 := [2, 0, 1, 1, 116, 1, 0, 97, 1, 1, 114, 1, 0, 98]

/-- Both values, and nothing else. -/
def topicFilter : NostrDBFilter :=
  ⟨[], [], [], [⟨116, [⟨97 :: List.replicate 31 0, rfl⟩]⟩, ⟨114, [⟨98 :: List.replicate 31 0, rfl⟩]⟩], 0, 0, 10⟩

/-- A set with one pair. -/
def oneResult (rid : RecordId) : QueryResultSet :=
  { queryResultCreate 1 with keys := fun _ => rid, count := 1 }

/-- A record with these tags and a content of `n` bytes. -/
def topicRecord (n : Nat) : EventRecord := { blankRecord topicBytes with content := List.replicate n 97 }

theorem size_topicRecord (n : Nat) : (topicRecord n).size = 166 + n := by
  rw [EventRecord.size, topicRecord, List.length_replicate]
  show 152 + n + 14 = 166 + n
  omega

theorem satisfies_topicRecord (n : Nat) : Satisfies topicFilter (topicRecord n) topicTags :=
  ⟨rfl, ⟨fun h => absurd rfl h, fun h => absurd rfl h⟩, .inl rfl, .inl rfl, .inl rfl, by decide⟩

theorem storedEvent_topicRecord {s : FlatStore} {n : Nat} (hn : n ≤ 8026)
    (h : HoldsRecord s 1 0 (topicRecord n).toBytes) : StoredEvent s (recordId 1 0) (topicRecord n) topicTags :=
  ⟨h, by rw [size_topicRecord]; omega, by decide, show serializeTags topicTags 8192 = some topicBytes by decide⟩

/-- The record with no content is kept. -/
theorem postFilterExact_iff_topic : Exact plainLayer (blankStore topicBytes) topicFilter (fun _ => 0)
    (oneResult (recordId 1 0)) (fun _ => topicRecord 0) fun _ => topicTags := by
  have hstored := storedEvent_topicRecord (Nat.zero_le _) (@holdsRecord_blankStore topicBytes (by decide))
  refine (postFilterExact_iff ⟨fun _ => rfl, fun _ => rfl⟩ (fun e he => ?_) (by decide) _).mpr fun e _ => ⟨?_, fun h => h.2.1⟩
  · obtain rfl : e = (recordId 1 0, 0) := List.mem_singleton.mp he
    exact hstored
  · exact inBuffer_of_le (by decide) _ (by decide)

/-- A record whose tags begin at byte 4096 is one the filter asks for, and its tags are looked
for behind the buffer. -/
theorem misses_topic : StoredEvent (spannedStore (topicRecord 3944).toBytes).flat (recordId 1 0) (topicRecord 3944)
      topicTags ∧ Satisfies topicFilter (topicRecord 3944) topicTags ∧
    ¬ Exact plainLayer (spannedStore (topicRecord 3944).toBytes) topicFilter (fun _ => 0)
      (oneResult (recordId 1 0)) (fun _ => topicRecord 3944) fun _ => topicTags := by
  have hsize := size_topicRecord 3944
  have hlength := (topicRecord 3944).length_toBytes
  have hstored := storedEvent_topicRecord (show 3944 ≤ 8026 by decide) (holdsRecord_spannedStore
    (show maxInlineRecordSize < (topicRecord 3944).toBytes.length by
      rw [hlength, hsize, show maxInlineRecordSize = 4068 from rfl]; decide)
    (by rw [hlength, hsize, show maxInline + overflowDataSpace = 8148 from rfl]; decide))
  refine ⟨hstored, satisfies_topicRecord _, fun hexact => ?_⟩
  have hin := hexact.inBuffer ⟨fun _ => rfl, fun _ => rfl⟩ (fun e he => ?_) (recordId 1 0, 0) (List.mem_singleton.mpr rfl)
  · exact @not_inBuffer (topicRecord 3944) (by rw [hsize]; decide) topicFilter (by decide) rfl (by decide)
      (by rw [topicRecord, List.length_replicate]) hin
  · obtain rfl : e = (recordId 1 0, 0) := List.mem_singleton.mp he
    exact hstored

end OnionRelay.Db.Engine
