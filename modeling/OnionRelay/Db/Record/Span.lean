import OnionRelay.Db.Record.RecordManager
import OnionRelay.Db.Record.RecordPage

/-!
# A spanned record comes back

`run_buildChain` writes the bytes to a chain of fresh pages, `run_readChain` reads a
chain up to the capacity.  Between them stands `SpanHolds`: the pages, one after
another, with the bytes of each.
-/

namespace OnionRelay.Db

open OnionRelay.Lib

/-! ## Chains of bytes -/

/-- Pages with the bytes on them. -/
abbrev Span := List (Nat × List UInt8)

namespace Span

def pids (span : Span) : List Nat := span.map Prod.fst

def bytes (span : Span) : List UInt8 := (span.map Prod.snd).flatten

def head (span : Span) : Nat := span.pids.headD 0

@[simp] theorem pids_cons (p : Nat × List UInt8) (span : Span) : Span.pids (p :: span) = p.1 :: span.pids := rfl

@[simp] theorem bytes_cons (p : Nat × List UInt8) (span : Span) :
    Span.bytes (p :: span) = p.2 ++ span.bytes := rfl

@[simp] theorem head_cons (p : Nat × List UInt8) (span : Span) : Span.head (p :: span) = p.1 := rfl

end Span

/-- An overflow page with these bytes, in front of page `next`. -/
structure SpanPage (page : PageData) (chunk : List UInt8) (next : Nat) : Prop where
  length : dataLength page = chunk.length
  content : readAt page 8 chunk.length = chunk
  next : nextPage page = next

namespace SpanPage

variable {page : PageData} {chunk : List UInt8} {next : Nat}

theorem last (hchunk : chunk.length ≤ overflowDataSpace) : SpanPage (spanPage chunk) chunk 0 where
  length := by
    have hspace : overflowDataSpace = 4088 := rfl
    rw [dataLength, spanPage, read16_writeAt (.inl (by decide)), read16_write16 (by omega)]
  content := by rw [spanPage, readAt_writeAt_same _ _ _ rfl]
  next := by
    rw [nextPage, spanPage, readAt_writeAt_of_disjoint (.inl (by decide)), readAt_write16 (.inl (by decide))]
    rfl

theorem setNext (h : SpanPage page chunk next) {pid : Nat} (hpid : pid < 2 ^ 32) :
    SpanPage (setNextPage page pid) chunk pid where
  length := by
    rw [dataLength, setNextPage, read16_writeAt (.inr (by rw [length_toLE]))]
    exact h.length
  content := by
    rw [setNextPage, readAt_writeAt_of_disjoint (.inr (by rw [length_toLE]; omega)), h.content]
  next := nextPage_setNextPage _ hpid

end SpanPage

/-- The pages of the store hold the chain, and none of them is empty. -/
def SpanHolds (s : FlatStore) : Span → Prop
  | [] => True
  | p :: span => s.Live p.1 ∧ SpanPage (s.pages p.1) p.2 (Span.head span) ∧ p.2 ≠ [] ∧ SpanHolds s span

theorem SpanHolds.transfer {s s' : FlatStore} : ∀ {span : Span}, SpanHolds s span →
    (∀ pid ∈ span.pids, s'.pages pid = s.pages pid ∧ s'.Live pid) → SpanHolds s' span := by
  intro span
  induction span with
  | nil => exact fun _ _ => trivial
  | cons p span ih =>
    rintro ⟨-, hpage, hne, hspan⟩ hsame
    obtain ⟨hpages, hlive⟩ := hsame p.1 List.mem_cons_self
    rw [SpanHolds, hpages]
    exact ⟨hlive, hpage, hne, ih hspan fun pid hpid => hsame pid (List.mem_cons_of_mem _ hpid)⟩

theorem SpanHolds.live {s : FlatStore} : ∀ {span : Span}, SpanHolds s span → ∀ pid ∈ span.pids, s.Live pid := by
  intro span
  induction span with
  | nil => exact fun _ pid hpid => absurd hpid List.not_mem_nil
  | cons p span ih =>
    rintro ⟨hlive, -, -, hspan⟩ pid hpid
    rcases List.mem_cons.mp hpid with rfl | hpid
    · exact hlive
    · exact ih hspan pid hpid

/-! ## Writing a chain -/

/-- The pages that `n` bytes take. -/
def chunkCount (n : Nat) : Nat := (n + 4087) / 4088

/-- What the loop that writes a chain did to the store. -/
structure Grown (s s' : FlatStore) (span : Span) (prev : Nat) : Prop where
  fresh : ∀ pid ∈ span.pids, pid ∉ s.used
  kept : ∀ pid ∈ s.used, pid ∈ s'.used
  frame : ∀ pid ∈ s.used, pid ≠ prev → s'.pages pid = s.pages pid
  link : prev ≠ 0 → s'.pages prev = if span = [] then s.pages prev else
    setNextPage (s.pages prev) span.head
  count : s'.used.length = s.used.length + span.length

/-- Everything that is asked for is granted. -/
structure PageLayer.Grants (layer : PageLayer) : Prop where
  page : ∀ n, layer.grantsPage n = true
  pin : ∀ n, layer.grantsPin n = true

namespace RecordStore

variable {layer : PageLayer} (hlayer : layer.Grants) (s : RecordStore)

include hlayer

theorem allocate_eq : s.allocate layer =
    (some (layer.allocator.pick s.flat.used, zeroPage), s.grow layer) := if_pos (hlayer.page _)

theorem pin_eq {pid : Nat} (h : s.flat.Live pid) :
    s.pin layer pid = (some (s.flat.pages pid), s.pinned layer pid) := by
  rw [pin, if_pos ⟨h.pos.ne', .inr (hlayer.pin _)⟩]

end RecordStore

/-- The store behind a link from page `prev`. -/
def RecordStore.linked (layer : PageLayer) (s : RecordStore) (prev pid : Nat) : RecordStore :=
  if prev = 0 then s else (s.pinned layer prev).set prev (setNextPage (s.flat.pages prev) pid)

theorem run_linkPrevious {layer : PageLayer} (hlayer : layer.Grants) {s : RecordStore} {prev : Nat} (pid : Nat)
    (hprev : prev ≠ 0 → s.flat.Live prev) :
    (linkPrevious prev pid).run (recordStore layer) s = ((), s.linked layer prev pid) := by
  rw [linkPrevious, RecordStore.linked]
  by_cases h0 : prev = 0
  · rw [if_neg (not_not.mpr h0), if_pos h0]
    rfl
  · rw [if_pos h0, if_neg h0]
    simp only [Prog.run_bind, run_poolPin, RecordStore.pin_eq hlayer s (hprev h0), run_poolWrite,
      run_poolDirty, run_poolUnpin]

/-- The store after a round of the loop, with `chunk` on the new page `pid`. -/
def RecordStore.withChunk (layer : PageLayer) (s : RecordStore) (chunk : List UInt8) (prev pid : Nat) :
    RecordStore := ((s.grow layer).set pid (spanPage chunk)).linked layer prev pid

section Round

variable {layer : PageLayer} {s : RecordStore} {chunk : List UInt8} {prev : Nat}

theorem used_linked (s : RecordStore) (prev pid : Nat) :
    (s.linked layer prev pid).flat.used = s.flat.used := by
  rw [RecordStore.linked]
  split <;> rfl

theorem used_withChunk (s : RecordStore) (chunk : List UInt8) (prev : Nat) :
    (s.withChunk layer chunk prev (layer.allocator.pick s.flat.used)).flat.used =
      layer.allocator.pick s.flat.used :: s.flat.used := used_linked _ _ _

theorem pages_linked_of_ne {pid other : Nat} (hne : other ≠ prev) :
    (s.linked layer prev pid).flat.pages other = s.flat.pages other := by
  rw [RecordStore.linked]
  split
  · rfl
  · exact pages_set_of_ne _ _ hne

theorem pages_withChunk_other {pid other : Nat} (hpid : pid = layer.allocator.pick s.flat.used)
    (hnew : other ≠ pid) (hprev : other ≠ prev) :
    (s.withChunk layer chunk prev pid).flat.pages other = s.flat.pages other := by
  subst hpid
  rw [RecordStore.withChunk, pages_linked_of_ne hprev]
  exact (pages_set_of_ne _ _ hnew).trans (pages_grow_of_ne _ hnew)

theorem pages_withChunk_self {pid : Nat} (hne : pid ≠ prev) :
    (s.withChunk layer chunk prev pid).flat.pages pid = spanPage chunk := by
  rw [RecordStore.withChunk, pages_linked_of_ne hne]
  exact pages_set_self _ _

theorem pages_withChunk_prev {pid : Nat} (hpid : pid = layer.allocator.pick s.flat.used) (h0 : prev ≠ 0)
    (hne : prev ≠ pid) : (s.withChunk layer chunk prev pid).flat.pages prev =
      setNextPage (s.flat.pages prev) pid := by
  subst hpid
  rw [RecordStore.withChunk, RecordStore.linked, if_neg h0]
  refine (pages_set_self _ _).trans (congrArg (setNextPage · _) ?_)
  exact (pages_set_of_ne _ _ hne).trans (pages_grow_of_ne _ hne)

end Round

/-- **The loop of an insertion** writes the bytes to fresh pages. -/
theorem run_buildChain {layer : PageLayer} (hlayer : layer.Grants) : ∀ {fuel : Nat} {remaining : List UInt8}
    (first : Nat) {prev : Nat} {s : RecordStore}, remaining.length ≤ fuel →
      (prev ≠ 0 → s.flat.Live prev) → s.flat.used.length + chunkCount remaining.length < dbMaxPages →
        ∃ (span : Span) (s' : RecordStore),
          (buildChain fuel remaining first prev).run (recordStore layer) s =
            (some (if first = 0 then span.head else first), s') ∧
              span.bytes = remaining ∧ SpanHolds s'.flat span ∧ Grown s.flat s'.flat span prev ∧
                span.length = chunkCount remaining.length := by
  have hempty : ∀ (fuel first prev : Nat) (s : RecordStore), ∃ (span : Span) (s' : RecordStore),
      (buildChain fuel [] first prev).run (recordStore layer) s =
        (some (if first = 0 then span.head else first), s') ∧
          span.bytes = [] ∧ SpanHolds s'.flat span ∧ Grown s.flat s'.flat span prev ∧
            span.length = chunkCount 0 := by
    intro fuel first prev s
    have hfirst : (if first = 0 then Span.head [] else first) = first := by
      split
      · next h0 => exact h0.symm
      · rfl
    refine ⟨[], s, ?_, rfl, trivial, ⟨nofun, fun _ h => h, fun _ _ _ => rfl, fun _ => rfl, rfl⟩, rfl⟩
    rw [hfirst]
    cases fuel <;> rfl
  intro fuel
  induction fuel with
  | zero =>
    intro remaining first prev s hfuel _ _
    obtain rfl := List.eq_nil_of_length_eq_zero (Nat.le_zero.mp hfuel)
    exact hempty 0 first prev s
  | succ fuel ih =>
    intro remaining first prev s hfuel hprev hroom
    by_cases hnil : remaining = []
    · subst hnil
      exact hempty (fuel + 1) first prev s
    have hpos := List.length_pos_of_ne_nil hnil
    have hspace : overflowDataSpace = 4088 := rfl
    have hcount : chunkCount remaining.length = chunkCount (remaining.drop overflowDataSpace).length + 1 := by
      rw [List.length_drop, chunkCount, chunkCount]
      omega
    obtain ⟨hfresh, hpidPos, hpidLt⟩ := layer.allocator.fresh s.flat.used (by omega)
    set pid := layer.allocator.pick s.flat.used with hpid
    set chunk := remaining.take overflowDataSpace with hchunk
    have hchunkLen : chunk.length ≤ overflowDataSpace := List.length_take_le _ _
    have hchunkNe : chunk ≠ [] := by
      intro h
      have hlen := congrArg List.length h
      rw [hchunk, List.length_take, List.length_nil] at hlen
      omega
    have hne : ∀ other ∈ s.flat.used, other ≠ pid := fun other hmem heq => hfresh (heq ▸ hmem)
    have hprevNe : pid ≠ prev := by
      rintro heq
      by_cases h0 : prev = 0
      · omega
      · exact hfresh (heq ▸ (hprev h0).mem)
    have hused : (s.withChunk layer chunk prev pid).flat.used = pid :: s.flat.used := used_withChunk s chunk prev
    have hlive : (s.withChunk layer chunk prev pid).flat.Live pid :=
      ⟨hused ▸ List.mem_cons_self, hpidPos, hpidLt⟩
    obtain ⟨span, s', hrun, hbytes, hholds, hgrown, hlength⟩ := @ih (remaining.drop overflowDataSpace)
      (if first = 0 then pid else first) pid (s.withChunk layer chunk prev pid)
      (by rw [List.length_drop]; omega) (fun _ => hlive)
      (by rw [hused, List.length_cons]; omega)
    have hlink := hgrown.link hpidPos.ne'
    rw [pages_withChunk_self hprevNe] at hlink
    have hlast := SpanPage.last hchunkLen
    have hpage : SpanPage (s'.flat.pages pid) chunk span.head := by
      rw [hlink]
      split
      · next hspan =>
        subst hspan
        exact hlast
      · next hspan =>
        obtain ⟨p, span, rfl⟩ := List.exists_cons_of_ne_nil hspan
        exact hlast.setNext (hholds.live p.1 List.mem_cons_self).lt_word
    refine ⟨(pid, chunk) :: span, s', ?_, ?_, ⟨?_, hpage, hchunkNe, hholds⟩, ?_, ?_⟩
    · have hstart : ((s.grow layer).set pid (spanPage chunk)).flat.used = pid :: s.flat.used := rfl
      have hprev' : prev ≠ 0 → ((s.grow layer).set pid (spanPage chunk)).flat.Live prev := fun h0 =>
        ⟨hstart ▸ List.mem_cons_of_mem _ (hprev h0).mem, (hprev h0).pos, (hprev h0).lt⟩
      rw [buildChain, if_neg hnil]
      simp only [Prog.run_bind, run_poolAlloc, RecordStore.allocate_eq hlayer, ← hpid, run_poolWrite,
        run_poolDirty, ← hchunk, run_linkPrevious hlayer pid hprev', run_poolUnpin]
      refine hrun.trans ?_
      by_cases hfirst : first = 0
      · rw [if_pos hfirst, if_pos hfirst, if_neg hpidPos.ne', Span.head_cons]
      · rw [if_neg hfirst, if_neg hfirst, if_neg hfirst]
    · rw [Span.bytes_cons, hbytes, List.take_append_drop]
    · exact ⟨hgrown.kept pid hlive.mem, hpidPos, hpidLt⟩
    · refine ⟨?_, ?_, ?_, ?_, ?_⟩
      · intro other hother
        rcases List.mem_cons.mp hother with rfl | hother
        · exact hfresh
        · exact fun hmem => hgrown.fresh other hother (hused ▸ List.mem_cons_of_mem _ hmem)
      · exact fun other hother => hgrown.kept other (hused ▸ List.mem_cons_of_mem _ hother)
      · intro other hother hotherPrev
        rw [hgrown.frame other (hused ▸ List.mem_cons_of_mem _ hother) (hne other hother),
          pages_withChunk_other hpid (hne other hother) hotherPrev]
      · intro h0
        rw [if_neg (List.cons_ne_nil _ _), Span.head_cons,
          hgrown.frame prev (hused ▸ List.mem_cons_of_mem _ (hprev h0).mem) hprevNe.symm,
          pages_withChunk_prev hpid h0 hprevNe.symm]
      · rw [hgrown.count, hused, List.length_cons, List.length_cons]
        omega
    · rw [List.length_cons, hlength, hcount]

/-! ## Reading a chain -/

/-- What is cut off by the capacity need not be copied. -/
theorem take_append_take {a b c : List UInt8} {n : Nat} (ha : a.length ≤ n) :
    (a ++ b.take (n - a.length) ++ c).take n = (a ++ b ++ c).take n := by
  by_cases hb : b.length ≤ n - a.length
  · rw [List.take_of_length_le hb]
  · have hlen : (a ++ b.take (n - a.length)).length = n := by
      rw [List.length_append, List.length_take]
      omega
    rw [List.take_left' hlen, List.append_assoc, List.take_append, List.take_of_length_le ha,
      List.take_append_of_le_length (by omega)]

/-- **The loop of a read** copies the bytes of the chain up to the capacity. -/
theorem run_readChain {layer : PageLayer} (hlayer : layer.Grants) {capacity : Nat} : ∀ {span : Span}
    {fuel : Nat} {written : List UInt8} {s : RecordStore}, SpanHolds s.flat span → span.length < fuel →
      written.length ≤ capacity →
        ∃ s', (readChain capacity fuel span.head written).run (recordStore layer) s =
          ((written ++ span.bytes).take capacity, s') ∧ s'.flat = s.flat := by
  intro span
  induction span with
  | nil =>
    intro fuel written s _ hfuel hwritten
    obtain ⟨fuel, rfl⟩ : ∃ f, fuel = f + 1 := ⟨fuel - 1, by omega⟩
    refine ⟨s, ?_, rfl⟩
    rw [readChain, if_neg (fun h => h.1 rfl), Span.bytes, List.map_nil, List.flatten_nil, List.append_nil,
      List.take_of_length_le hwritten]
    rfl
  | cons p span ih =>
    rintro fuel written s ⟨hlive, hpage, hne, hholds⟩ hfuel hwritten
    rw [List.length_cons] at hfuel
    obtain ⟨fuel, rfl⟩ : ∃ f, fuel = f + 1 := ⟨fuel - 1, by omega⟩
    rw [readChain, Span.head_cons]
    by_cases hfull : written.length < capacity
    · rw [if_pos ⟨hlive.pos.ne', hfull⟩]
      simp only [Prog.run_bind, run_poolPin, RecordStore.pin_eq hlayer s hlive, run_poolUnpin]
      have hchunk : readAt (s.flat.pages p.1) 8 (min (dataLength (s.flat.pages p.1))
          (capacity - written.length)) = p.2.take (capacity - written.length) := by
        rw [hpage.length, Nat.min_comm, ← readAt_take _ _ (Nat.min_le_right _ _), hpage.content,
          ← List.take_eq_take_min]
      rw [hchunk, hpage.next]
      have hlength : (written ++ p.2.take (capacity - written.length)).length ≤ capacity := by
        rw [List.length_append, List.length_take]
        omega
      obtain ⟨s', hrun, hflat⟩ := @ih fuel (written ++ p.2.take (capacity - written.length))
        (s.pinned layer p.1) hholds (by omega) hlength
      refine ⟨s', hrun.trans (congrArg (·, s') ?_), hflat⟩
      rw [Span.bytes_cons, ← List.append_assoc]
      exact take_append_take hwritten
    · rw [if_neg (fun h => hfull h.2)]
      refine ⟨s, ?_, rfl⟩
      rw [List.take_append_of_le_length (by omega), List.take_of_length_le hwritten]
      rfl

/-! ## The primary page -/

theorem length_encode (p : SpannedPrefix) : p.encode.length = 8 := by
  rw [SpannedPrefix.encode, List.length_append, List.length_append, length_toLE, length_toLE, length_toLE]

theorem decode_encode {p : SpannedPrefix} (htotal : p.totalLength < 2 ^ 16) (hinline : p.inlineLength < 2 ^ 16)
    (hpage : p.overflowPage < 2 ^ 32) : SpannedPrefix.decode p.encode = p := by
  have htake : ∀ {n v : Nat} (rest : List UInt8), (toLE n v ++ rest).take n = toLE n v := fun {n v} rest =>
    List.take_left' (length_toLE n v)
  have hdrop : ∀ {n v : Nat} (rest : List UInt8), (toLE n v ++ rest).drop n = rest := fun {n v} rest =>
    List.drop_left' (length_toLE n v)
  rw [SpannedPrefix.decode, SpannedPrefix.encode, List.append_assoc, htake, hdrop, htake]
  rw [show (4 : Nat) = 2 + 2 from rfl, ← List.drop_drop, hdrop, hdrop,
    List.take_of_length_le (by rw [length_toLE]), ofLE_toLE_of_lt (by omega), ofLE_toLE_of_lt (by omega),
    ofLE_toLE_of_lt (by omega)]

/-- A page whose slot 0 has the first bytes of a spanned record. -/
structure Primary (page : PageData) (data : List UInt8) (overflowPage : Nat) : Prop where
  count : slotCount page = 1
  spanned : slotLength page 0 = spannedMarker
  offset : slotOffset page 0 ≠ 0
  content : readAt page (slotOffset page 0) (8 + (data.take maxInline).length) = inlineRecord data overflowPage

theorem length_inlineRecord (data : List UInt8) (overflowPage : Nat) :
    (inlineRecord data overflowPage).length = 8 + (data.take maxInline).length := by
  rw [inlineRecord, List.length_append, length_encode]

/-- **The primary page** of a record whose other bytes are elsewhere. -/
theorem primary_insert (data : List UInt8) (pid overflowPage : Nat) :
    ∃ page, slotPageInsert (slotPageInit pid) (inlineRecord data overflowPage) = (.ok 0, page) ∧
      Primary (write16 page (slotAt 0 + 2) spannedMarker) data overflowPage := by
  have hlayout := layout_slotPageInit pid
  have hlen := length_inlineRecord data overflowPage
  have hinline : (data.take maxInline).length ≤ 4060 := List.length_take_le _ _
  have hne : inlineRecord data overflowPage ≠ [] := List.ne_nil_of_length_pos (by omega)
  have hroom : Slots.needed [] (inlineRecord data overflowPage) ≤ Slots.free [] := by
    show (inlineRecord data overflowPage).length + 4 ≤ 4072
    omega
  obtain ⟨hindex, hpage⟩ := hlayout.slotPageInsert_of_le hne (by omega) hroom
  have hstored := hpage.stored 0 _ rfl
  refine ⟨(slotPageInsert (slotPageInit pid) (inlineRecord data overflowPage)).2, Prod.ext hindex rfl, ?_⟩
  generalize (slotPageInsert (slotPageInit pid) (inlineRecord data overflowPage)).2 = page at hpage hstored
  have hbehind := Nat.le_trans hpage.room hstored.behind
  have hoffset : slotOffset (write16 page (slotAt 0 + 2) spannedMarker) 0 = slotOffset page 0 :=
    read16_write16_of_ne (.inl (Nat.le_refl _))
  have h28 : slotAt (Slots.insert [] (inlineRecord data overflowPage)).2.length = 28 := rfl
  refine ⟨?_, read16_write16 (by decide), ?_, ?_⟩
  · exact (read16_write16_of_ne (.inl (by decide))).trans hpage.count
  · rw [hoffset]
    omega
  · rw [hoffset, readAt_write16 (.inr (by rw [show slotAt 0 = 24 from rfl]; omega)), ← hlen, hstored.content]

/-! ## The whole record -/

theorem FlatStore.Live.pageId_recordId {s : FlatStore} {pid : Nat} (h : s.Live pid) (i : Nat) :
    (recordId pid i).pageId.toNat = pid := by
  rw [recordId, UInt32.toNat_ofNat']
  exact Nat.mod_eq_of_lt h.lt_word

/-- The pages of a spanned record whose primary page is `pid`. -/
structure SpannedRecord (s : FlatStore) (pid : Nat) (data : List UInt8) (span : Span) : Prop where
  live : s.Live pid
  primary : Primary (s.pages pid) data span.head
  chain : SpanHolds s span
  bytes : span.bytes = data.drop maxInline
  short : span.length < dbMaxPages

/-- The prefix of the record and whether it is one. -/
theorem SpannedRecord.prefix_eq {s : FlatStore} {pid : Nat} {data : List UInt8} {span : Span}
    (h : SpannedRecord s pid data span) (hlength : data.length < 2 ^ 16) :
    overflowIsSpanned (s.pages pid) 0 = true ∧
      spannedPrefix (s.pages pid) 0 = ⟨data.length, (data.take maxInline).length, span.head⟩ := by
  obtain ⟨-, ⟨hcount, hspanned, -, hcontent⟩, hchain, -, -⟩ := h
  have hinline : (data.take maxInline).length < 2 ^ 16 := by
    rw [List.length_take]
    omega
  have hhead : span.head < 2 ^ 32 := by
    cases span with
    | nil => exact Nat.two_pow_pos 32
    | cons p span => exact (hchain.live p.1 List.mem_cons_self).lt_word
  refine ⟨?_, ?_⟩
  · rw [overflowIsSpanned, hcount, hspanned]
    rfl
  · rw [spannedPrefix, spannedPrefixSize, ← readAt_take _ _ (Nat.le_add_right 8 (data.take maxInline).length),
      hcontent, inlineRecord, List.take_left' (length_encode _), decode_encode hlength hinline hhead]

/-- The bytes behind the prefix. -/
theorem SpannedRecord.readAt_inline {s : FlatStore} {pid : Nat} {data : List UInt8} {span : Span}
    (h : SpannedRecord s pid data span) :
    readAt (s.pages pid) (slotOffset (s.pages pid) 0 + spannedPrefixSize) (data.take maxInline).length =
      data.take maxInline := by
  have hdrop := readAt_drop (s.pages pid) (slotOffset (s.pages pid) 0)
    (Nat.le_add_right 8 (data.take maxInline).length)
  rw [h.primary.content, inlineRecord, List.drop_left' (length_encode _), Nat.add_sub_cancel_left] at hdrop
  exact hdrop.symm

section Whole

variable {layer : PageLayer} (hlayer : layer.Grants) {s : RecordStore} {data : List UInt8}

include hlayer

theorem run_overflowInsert
    (hroom : s.flat.used.length + chunkCount (data.length - maxInline) + 1 < dbMaxPages) :
    ∃ (pid : Nat) (span : Span) (s' : RecordStore),
      (overflowInsert data).run (recordStore layer) s = (.ok (recordId pid 0), s') ∧
        SpannedRecord s'.flat pid data span := by
  obtain ⟨span, s₁, hrun, hbytes, hholds, hgrown, hlength⟩ := @run_buildChain layer hlayer data.length
    (data.drop maxInline) 0 0 s (by rw [List.length_drop]; omega) (fun h => absurd rfl h)
    (by rw [List.length_drop]; omega)
  rw [List.length_drop] at hlength
  obtain ⟨hfresh, hpos, hlt⟩ := layer.allocator.fresh s₁.flat.used (by rw [hgrown.count]; omega)
  set pid := layer.allocator.pick s₁.flat.used with hpid
  obtain ⟨page, hinsert, hprimary⟩ := primary_insert data pid span.head
  have hsame : ∀ other ∈ span.pids,
      ((s₁.grow layer).set pid (write16 page (slotAt 0 + 2) spannedMarker)).flat.pages other =
        s₁.flat.pages other ∧
      ((s₁.grow layer).set pid (write16 page (slotAt 0 + 2) spannedMarker)).flat.Live other := by
    intro other hother
    have hlive := hholds.live other hother
    have hne : other ≠ pid := fun heq => hfresh (heq ▸ hlive.mem)
    exact ⟨(pages_set_of_ne _ _ hne).trans (pages_grow_of_ne _ hne),
      List.mem_cons_of_mem _ hlive.mem, hlive.pos, hlive.lt⟩
  refine ⟨pid, span, (s₁.grow layer).set pid (write16 page (slotAt 0 + 2) spannedMarker), ?_,
    ⟨List.mem_cons_self, hpos, hlt⟩, ?_, hholds.transfer hsame, hbytes, by omega⟩
  · rw [overflowInsert]
    simp only [Prog.run_bind, hrun, if_true, run_poolAlloc, RecordStore.allocate_eq hlayer, ← hpid, hinsert,
      run_poolWrite, run_poolDirty, run_poolUnpin, Prog.run_pure]
    rfl
  · rw [show ((s₁.grow layer).set pid (write16 page (slotAt 0 + 2) spannedMarker)).flat.pages pid =
      write16 page (slotAt 0 + 2) spannedMarker from pages_set_self _ _]
    exact hprimary

/-- **A spanned record is read** up to the capacity of the output. -/
theorem run_recordRead_spanned {pid : Nat} {span : Span} (h : SpannedRecord s.flat pid data span)
    (hlength : data.length < 2 ^ 16) (capacity : Nat) :
    ((recordRead (recordId pid 0) capacity).run (recordStore layer) s).1 =
      .ok (data.length, data.take capacity) := by
  obtain ⟨hisSpanned, hheader⟩ := h.prefix_eq hlength
  have hbehind := h.readAt_inline
  obtain ⟨hlive, ⟨hcount, -, hoffset, -⟩, hchain, hbytes, hshort⟩ := h
  have hpid : (recordId pid 0).pageId.toNat = pid := hlive.pageId_recordId 0
  have hne : (recordId pid 0).pageId ≠ 0 := by
    intro h0
    rw [h0] at hpid
    exact hlive.pos.ne hpid
  have hslot : (recordId pid 0).slotIndex.toNat = 0 := rfl
  have hwritten : readAt (s.flat.pages pid) (slotOffset (s.flat.pages pid) 0 + spannedPrefixSize)
      (min (data.take maxInline).length capacity) = (data.take maxInline).take capacity := by
    rw [← readAt_take _ _ (Nat.min_le_left _ _), hbehind, Nat.min_comm, ← List.take_eq_take_min]
  obtain ⟨s', hrun, -⟩ := @run_readChain layer hlayer capacity span dbMaxPages
    ((data.take maxInline).take capacity) (s.pinned layer pid) hchain hshort (List.length_take_le _ _)
  have hcut := @take_append_take [] (data.take maxInline) (data.drop maxInline) capacity (Nat.zero_le _)
  rw [List.nil_append, List.nil_append, List.length_nil, Nat.sub_zero, List.take_append_drop] at hcut
  rw [hbytes, hcut] at hrun
  rw [recordRead, if_neg hne]
  simp only [hpid, hslot, Prog.run_bind, run_poolPin, RecordStore.pin_eq hlayer s hlive, hisSpanned, if_true,
    overflowRead, hcount, hoffset, if_false, hheader, hwritten, hrun, Nat.one_ne_zero, Nat.le_zero,
    run_poolUnpin, Prog.run_pure]

end Whole

/-- **A spanned record comes back**, cut off at the capacity of the output. -/
theorem spanned_round_trip {layer : PageLayer} (hlayer : layer.Grants) (s : RecordStore) {data : List UInt8}
    (hlow : 4069 ≤ data.length) (hhigh : data.length ≤ 65535)
    (hroom : s.flat.used.length + chunkCount (data.length - maxInline) + 1 < dbMaxPages) (capacity : Nat) :
    ∃ (rid : RecordId) (s' : RecordStore), (recordInsert data).run (recordStore layer) s = (.ok rid, s') ∧
      ((recordRead rid capacity).run (recordStore layer) s').1 = .ok (data.length, data.take capacity) := by
  obtain ⟨pid, span, s', hrun, hrecord⟩ := run_overflowInsert hlayer hroom
  refine ⟨recordId pid 0, s', ?_, run_recordRead_spanned hlayer hrecord (by omega) capacity⟩
  have hmax : maxInlineRecordSize = 4068 := rfl
  rw [recordInsert, if_neg (by omega), if_pos (by omega)]
  exact hrun

theorem spanned_round_trip_zeros :
    ∃ (rid : RecordId) (s' : RecordStore),
      (recordInsert (List.replicate 5000 0)).run
        (recordStore (.granting .lowest fun frames _ => frames)) ⟨.empty, [], 0, []⟩ = (.ok rid, s') ∧
      ((recordRead rid 4500).run (recordStore (.granting .lowest fun frames _ => frames)) s').1 =
        .ok ((List.replicate 5000 (0 : UInt8)).length, (List.replicate 5000 0).take 4500) := by
  refine spanned_round_trip ⟨fun _ => rfl, fun _ => rfl⟩ ⟨.empty, [], 0, []⟩ ?_ ?_ ?_ 4500
  · rw [List.length_replicate]
    decide
  · rw [List.length_replicate]
    decide
  · rw [List.length_replicate]
    decide

end OnionRelay.Db
