import OnionRelay.Db.Buffer.PageTable
import OnionRelay.Lib.LinearProbing

/-!
# The page table over a run

The loops of the page table as the source has them, without a bound on their rounds, and the
table over any run of insertions and removals: every mapped page is found, every loop ends,
and a removal leaves no entry behind a gap.
-/

namespace OnionRelay.Db

open Lib

namespace PageTable

variable (ids : Nat → Nat)

/-- The loop of `hash_lookup`; `none` while it is still running. -/
def lookupLoop (table : PageTable) (pid start : Nat) : Nat → Nat → Option (Option Nat)
  | 0, _ => none
  | fuel + 1, idx =>
    match table.slots idx with
    | none => some none
    | some frame =>
      if ids frame = pid then some (some frame)
      else
        let idx := (idx + 1) % table.size
        if idx = start then some none else lookupLoop table pid start fuel idx

/-- The loop of `hash_insert`. -/
def insertLoop (table : PageTable) (pid frame : Nat) : Nat → Nat → Option PageTable
  | 0, _ => none
  | fuel + 1, idx =>
    match table.slots idx with
    | none => some (table.set idx (some frame))
    | some frame' =>
      if ids frame' = pid then some (table.set idx (some frame))
      else insertLoop table pid frame fuel ((idx + 1) % table.size)

/-- The first loop of `hash_remove`. -/
def slotLoop (table : PageTable) (pid start : Nat) : Nat → Nat → Option (Option Nat)
  | 0, _ => none
  | fuel + 1, idx =>
    match table.slots idx with
    | none => some none
    | some frame =>
      if ids frame = pid then some (some idx)
      else
        let idx := (idx + 1) % table.size
        if idx = start then some none else slotLoop table pid start fuel idx

/-- The second loop of `hash_remove`. -/
def shiftLoop (table : PageTable) : Nat → Nat → Nat → Option PageTable
  | 0, _, _ => none
  | fuel + 1, gap, j =>
    let j := (j + 1) % table.size
    match table.slots j with
    | none => some (table.set gap none)
    | some frame =>
      if shouldMove gap j (hashPageId (ids frame) table.size) then
        shiftLoop (table.set gap (some frame)) fuel j j
      else shiftLoop table fuel gap j

/-- `hash_remove`, with the rounds of each loop bounded by `fuel`. -/
def removeLoop (table : PageTable) (pid fuel : Nat) : Option PageTable :=
  (table.slotLoop ids pid (hashPageId pid table.size) fuel (hashPageId pid table.size)).bind fun
    | none => some table
    | some idx => table.shiftLoop ids fuel idx idx

/-! ## The searches -/

/-- Where a search for a page stops. -/
def stops (table : PageTable) (pid idx : Nat) : Bool :=
  match table.slots idx with
  | none => true
  | some frame => decide (ids frame = pid)

section Search

variable {ids} {table : PageTable} {pid : Nat}

theorem stops_none {idx : Nat} (h : table.slots idx = none) : table.stops ids pid idx = true := by
  rw [stops, h]

theorem stops_some {idx frame : Nat} (h : table.slots idx = some frame) :
    table.stops ids pid idx = decide (ids frame = pid) := by
  rw [stops, h]

theorem lookupLoop_eq (start fuel idx : Nat) :
    table.lookupLoop ids pid start fuel idx =
      (probeLoop table.size (table.stops ids pid) start fuel idx).map (·.bind table.slots) := by
  induction fuel generalizing idx with
  | zero => rfl
  | succ fuel ih =>
    rw [lookupLoop, probeLoop]
    cases hslot : table.slots idx with
    | none => rw [stops_none hslot, if_pos rfl, Option.map_some, Option.bind_some, hslot]
    | some frame =>
      rw [stops_some hslot]
      by_cases hpid : ids frame = pid
      · rw [decide_eq_true hpid, if_pos rfl, Option.map_some, Option.bind_some, hslot]
        exact if_pos hpid
      · rw [decide_eq_false hpid, if_neg Bool.false_ne_true]
        dsimp only
        rw [if_neg hpid, ih]
        split <;> rfl

theorem slotLoop_eq (start fuel idx : Nat) :
    table.slotLoop ids pid start fuel idx =
      (probeLoop table.size (table.stops ids pid) start fuel idx).map
        (·.filter (fun idx => (table.slots idx).isSome)) := by
  induction fuel generalizing idx with
  | zero => rfl
  | succ fuel ih =>
    rw [slotLoop, probeLoop]
    cases hslot : table.slots idx with
    | none => rw [stops_none hslot, if_pos rfl, Option.map_some, Option.filter_some, hslot]; rfl
    | some frame =>
      rw [stops_some hslot]
      by_cases hpid : ids frame = pid
      · rw [decide_eq_true hpid, if_pos rfl, Option.map_some, Option.filter_some, hslot]
        exact if_pos hpid
      · rw [decide_eq_false hpid, if_neg Bool.false_ne_true]
        dsimp only
        rw [if_neg hpid, ih]
        split <;> rfl

theorem insertLoop_eq (frame fuel idx : Nat) :
    table.insertLoop ids pid frame fuel idx =
      (probe table.size (table.stops ids pid) fuel idx).map (fun idx => table.set idx (some frame)) := by
  induction fuel generalizing idx with
  | zero => rfl
  | succ fuel ih =>
    rw [insertLoop, probe]
    cases hslot : table.slots idx with
    | none => rw [stops_none hslot, if_pos rfl, Option.map_some]
    | some frame' =>
      rw [stops_some hslot]
      by_cases hpid : ids frame' = pid
      · rw [decide_eq_true hpid, if_pos rfl, Option.map_some]
        exact if_pos hpid
      · rw [decide_eq_false hpid, if_neg Bool.false_ne_true]
        dsimp only
        rw [if_neg hpid, ih]

/-! ## The bounded loops -/

theorem lookupFrom_eq (fuel idx : Nat) :
    table.lookupFrom ids pid fuel idx = (probe table.size (table.stops ids pid) fuel idx).bind table.slots := by
  induction fuel generalizing idx with
  | zero => rfl
  | succ fuel ih =>
    rw [lookupFrom, probe]
    cases hslot : table.slots idx with
    | none => rw [stops_none hslot, if_pos rfl, Option.bind_some, hslot]
    | some frame =>
      rw [stops_some hslot]
      by_cases hpid : ids frame = pid
      · rw [decide_eq_true hpid, if_pos rfl, Option.bind_some, hslot]
        exact if_pos hpid
      · rw [decide_eq_false hpid, if_neg Bool.false_ne_true]
        dsimp only
        rw [if_neg hpid, ih]

theorem slotFrom_eq (fuel idx : Nat) :
    table.slotFrom ids pid fuel idx =
      (probe table.size (table.stops ids pid) fuel idx).filter (fun idx => (table.slots idx).isSome) := by
  induction fuel generalizing idx with
  | zero => rfl
  | succ fuel ih =>
    rw [slotFrom, probe]
    cases hslot : table.slots idx with
    | none => rw [stops_none hslot, if_pos rfl, Option.filter_some, hslot]; rfl
    | some frame =>
      rw [stops_some hslot]
      by_cases hpid : ids frame = pid
      · rw [decide_eq_true hpid, if_pos rfl, Option.filter_some, hslot]
        exact if_pos hpid
      · rw [decide_eq_false hpid, if_neg Bool.false_ne_true]
        dsimp only
        rw [if_neg hpid, ih]

theorem insertFrom_of_insertLoop {frame fuel idx : Nat} {table' : PageTable}
    (h : table.insertLoop ids pid frame fuel idx = some table') :
    table.insertFrom ids pid frame fuel idx = table' := by
  induction fuel generalizing idx with
  | zero => cases h
  | succ fuel ih =>
    rw [insertLoop] at h
    rw [insertFrom]
    cases hslot : table.slots idx with
    | none =>
      rw [hslot] at h
      exact Option.some.inj h
    | some frame' =>
      rw [hslot] at h
      dsimp only at h ⊢
      by_cases hpid : ids frame' = pid
      · rw [if_pos hpid] at h ⊢
        exact Option.some.inj h
      · rw [if_neg hpid] at h ⊢
        exact ih h

theorem shiftFrom_of_shiftLoop {fuel gap j : Nat} {table' : PageTable}
    (h : table.shiftLoop ids fuel gap j = some table') : table.shiftFrom ids fuel gap j = table' := by
  induction fuel generalizing table gap j with
  | zero => cases h
  | succ fuel ih =>
    rw [shiftLoop] at h
    rw [shiftFrom]
    cases hslot : table.slots ((j + 1) % table.size) with
    | none =>
      rw [hslot] at h
      exact Option.some.inj h
    | some frame =>
      rw [hslot] at h
      dsimp only at h ⊢
      by_cases hmove : shouldMove gap ((j + 1) % table.size) (hashPageId (ids frame) table.size) = true
      · rw [if_pos hmove] at h ⊢
        exact ih h
      · rw [if_neg hmove] at h ⊢
        exact ih h

end Search

/-! ## The entries -/

theorem hashPageId_lt (pid : Nat) {size : Nat} (h : 0 < size) : hashPageId pid size < size :=
  Nat.mod_lt _ h

/-- The slot at which the search for the page of a frame starts. -/
def home (ids : Nat → Nat) (size frame : Nat) : Nat := hashPageId (ids frame) size

/-- The test of the source for the cyclic range from the home slot. -/
theorem shouldMove_iff {n gap j k : Nat} (hgap : gap < n) (hj : j < n) (hk : k < n) (hne : j ≠ gap) :
    shouldMove gap j k = true ↔ steps n k gap < steps n k j := by
  rw [shouldMove, steps, steps]
  split_ifs <;> rw [decide_eq_true_eq] <;> omega

section Shift

variable {ids} {S : Nat → Prop} {e size : Nat}

/-- **Shifting back.**  The loop ends, the entries stay, and each is reached from its home. -/
theorem shiftLoop_of_gap (hsize : 0 < size) :
    ∀ fuel slots gap j, Gap (home ids size) size slots e gap j →
      Stores size (Function.update slots gap none) S → steps size j e ≤ fuel →
      ∃ slots', shiftLoop ids ⟨slots, size⟩ fuel gap j = some ⟨slots', size⟩ ∧
        Chained (home ids size) slots' size ∧ Stores size slots' S := by
  have hhome : ∀ frame, home ids size frame < size := fun frame => hashPageId_lt _ hsize
  intro fuel
  induction fuel with
  | zero =>
    intro slots gap j hgap _ hfuel
    have hend := hgap.steps_end
    omega
  | succ fuel ih =>
    intro slots gap j hgap hstores hfuel
    have hend := hgap.steps_end
    rw [shiftLoop]
    dsimp only
    cases hslot : slots ((j + 1) % size) with
    | none => exact ⟨_, rfl, hgap.close hhome hslot, hstores⟩
    | some frame =>
      have hiff : shouldMove gap _ (hashPageId (ids frame) size) = true ↔ _ :=
        shouldMove_iff hgap.gap_lt (mod_lt hgap.lt) (hhome frame) hgap.next_ne
      dsimp only
      by_cases hover : steps size (home ids size frame) gap < steps size (home ids size frame) ((j + 1) % size)
      · rw [if_pos (hiff.mpr hover)]
        refine ih _ _ _ (hgap.move hslot hover) ?_ (by omega)
        exact hstores.move hgap.gap_lt (mod_lt hgap.lt) hgap.next_ne hslot
      · rw [if_neg (fun hmove => hover (hiff.mp hmove))]
        exact ih slots _ _ (hgap.skip hslot hover hhome) hstores (by omega)

end Shift

/-! ## Runs -/

/-- `page_ids` holds the page of each mapped frame. -/
def Holds (ids : Nat → Nat) (mapped : List (Nat × Nat)) : Prop := ∀ entry ∈ mapped, ids entry.2 = entry.1

/-- The table after a run of insertions of absent pages, at most `poolSize` entries at a time,
and of removals; `mapped` has the pages with their frames. -/
inductive Runs (poolSize size : Nat) : PageTable → List (Nat × Nat) → Prop
  | start : Runs poolSize size ⟨fun _ => none, size⟩ []
  | insert {table : PageTable} {mapped : List (Nat × Nat)} {ids : Nat → Nat} {pid frame : Nat} :
      Runs poolSize size table mapped → pid ∉ mapped.map Prod.fst → mapped.length < poolSize →
      Holds ids ((pid, frame) :: mapped) → Runs poolSize size (table.insert ids pid frame) ((pid, frame) :: mapped)
  | remove {table : PageTable} {mapped : List (Nat × Nat)} {ids : Nat → Nat} (pid : Nat) :
      Runs poolSize size table mapped → Holds ids mapped →
      Runs poolSize size (table.remove ids pid) (mapped.filter (·.1 != pid))

/-- The table has the frames of the mapped pages, each reached from the home of its page. -/
structure Indexes (size : Nat) (table : PageTable) (mapped : List (Nat × Nat)) : Prop where
  size_eq : table.size = size
  nodup : (mapped.map Prod.fst).Nodup
  stores : Stores size table.slots (· ∈ mapped.map Prod.snd)
  chained : ∀ ids, Holds ids mapped → Chained (home ids size) table.slots size

section Indexes

variable {ids} {poolSize size pid frame : Nat} {slots : Nat → Option Nat} {mapped : List (Nat × Nat)}

theorem Holds.mem_of_frame (hids : Holds ids mapped) (h : frame ∈ mapped.map Prod.snd) :
    (ids frame, frame) ∈ mapped := by
  obtain ⟨⟨page, frame⟩, hmem, rfl⟩ := List.mem_map.mp h
  have hpage := hids _ hmem
  rwa [hpage]

theorem Holds.tail {entry : Nat × Nat} (hids : Holds ids (entry :: mapped)) : Holds ids mapped :=
  fun other hmem => hids other (List.mem_cons_of_mem entry hmem)

/-- A page that is not mapped stops no search at a frame. -/
theorem stops_absent (hmap : Indexes size ⟨slots, size⟩ mapped) (hids : Holds ids mapped)
    (habsent : pid ∉ mapped.map Prod.fst) {idx : Nat} (hidx : idx < size) (hfull : slots idx ≠ none) :
    stops ids ⟨slots, size⟩ pid idx = false := by
  obtain ⟨frame, hslot⟩ := Option.ne_none_iff_exists'.mp hfull
  rw [stops_some hslot]
  refine decide_eq_false fun hpid => habsent ?_
  have hmem := hids.mem_of_frame ((hmap.stores.mem frame).mpr ⟨idx, hidx, hslot⟩)
  rw [hpid] at hmem
  exact List.mem_map_of_mem hmem

/-- The search for an absent page ends at the first empty slot. -/
theorem exists_absent (hmap : Indexes size ⟨slots, size⟩ mapped) (hids : Holds ids mapped)
    (hlen : mapped.length < size) (habsent : pid ∉ mapped.map Prod.fst) :
    ∃ idx, IsFirst size (stops ids ⟨slots, size⟩ pid) (hashPageId pid size) idx ∧ slots idx = none := by
  obtain ⟨e, he, hempty⟩ := hmap.stores.exists_empty (by rwa [List.length_map])
  obtain ⟨idx, hfirst⟩ := @exists_isFirst size _ (hashPageId pid size) ⟨e, he, stops_none hempty⟩
  refine ⟨idx, hfirst, ?_⟩
  by_contra hfull
  have hgo := stops_absent hmap hids habsent hfirst.lt hfull
  rw [hfirst.stops] at hgo
  cases hgo

/-- The search for a mapped page ends at the slot of its frame. -/
theorem exists_mapped (hmap : Indexes size ⟨slots, size⟩ mapped) (hids : Holds ids mapped)
    (hmem : (pid, frame) ∈ mapped) :
    ∃ idx, IsFirst size (stops ids ⟨slots, size⟩ pid) (hashPageId pid size) idx ∧ slots idx = some frame := by
  have hpid : ids frame = pid := hids _ hmem
  obtain ⟨idx, hidx, hslot⟩ := (hmap.stores.mem frame).mp (List.mem_map_of_mem hmem)
  have hstop : stops ids ⟨slots, size⟩ pid idx = true := by
    rw [stops_some hslot, decide_eq_true hpid]
  have hfirst := (hmap.chained ids hids).isFirst hidx hslot hstop ?_
  · rw [home, hpid] at hfirst
    exact ⟨idx, hfirst, hslot⟩
  · intro x hx hne hfull
    obtain ⟨other, hother⟩ := Option.ne_none_iff_exists'.mp hfull
    rw [stops_some hother]
    refine decide_eq_false fun heq => hne ?_
    have hmemOther := hids.mem_of_frame ((hmap.stores.mem other).mpr ⟨x, hx, hother⟩)
    rw [heq] at hmemOther
    have hsame := List.inj_on_of_nodup_map hmap.nodup hmemOther hmem rfl
    rw [(Prod.mk.inj hsame).2] at hother
    exact hmap.stores.unique x hx idx hidx frame hother hslot

/-- A frame is in use for one page. -/
theorem frame_fresh (hids : Holds ids ((pid, frame) :: mapped)) (habsent : pid ∉ mapped.map Prod.fst) :
    frame ∉ mapped.map Prod.snd := by
  intro hmem
  have hmem' := hids.tail.mem_of_frame hmem
  rw [hids _ List.mem_cons_self] at hmem'
  exact habsent (List.mem_map_of_mem hmem')

/-- **Insertion.**  The loop ends and the page is mapped. -/
theorem insertLoop_of_indexes (hmap : Indexes size ⟨slots, size⟩ mapped) (hsize : 0 < size)
    (hids : Holds ids ((pid, frame) :: mapped)) (hlen : mapped.length < size)
    (habsent : pid ∉ mapped.map Prod.fst) :
    ∃ slots', insertLoop ids ⟨slots, size⟩ pid frame size (hashPageId pid size) = some ⟨slots', size⟩ ∧
      Indexes size ⟨slots', size⟩ ((pid, frame) :: mapped) := by
  have hhash := hashPageId_lt pid hsize
  obtain ⟨idx, hfirst, hempty⟩ := exists_absent hmap hids.tail hlen habsent
  refine ⟨Function.update slots idx (some frame), ?_, rfl, ?_, ?_, ?_⟩
  · rw [insertLoop_eq, hfirst.probe hhash, Option.map_some]
    rfl
  · exact List.nodup_cons.mpr ⟨habsent, hmap.nodup⟩
  · have hput := hmap.stores.update hfirst.lt hempty (frame_fresh hids habsent)
    simpa only [List.map_cons, List.mem_cons] using hput
  · intro ids' hids'
    refine (hmap.chained ids' hids'.tail).update hempty fun x hx hlt hnone => ?_
    have hpid : home ids' size frame = hashPageId pid size := by
      rw [home, hids' _ List.mem_cons_self]
    rw [hpid] at hlt
    have hgo := hfirst.before x hx hlt
    rw [stops_none hnone] at hgo
    cases hgo

theorem removeLoop_of_isFirst {idx : Nat} (hsize : 0 < size)
    (hfirst : IsFirst size (stops ids ⟨slots, size⟩ pid) (hashPageId pid size) idx) :
    removeLoop ids ⟨slots, size⟩ pid size =
      if (slots idx).isSome then shiftLoop ids ⟨slots, size⟩ size idx idx else some ⟨slots, size⟩ := by
  rw [removeLoop, slotLoop_eq, hfirst.probeLoop (hashPageId_lt pid hsize), Option.map_some, Option.filter_some]
  dsimp only
  split <;> rfl

theorem remove_of_isFirst {idx : Nat} (hsize : 0 < size)
    (hfirst : IsFirst size (stops ids ⟨slots, size⟩ pid) (hashPageId pid size) idx) :
    remove ids ⟨slots, size⟩ pid =
      if (slots idx).isSome then shiftFrom ids ⟨slots, size⟩ size idx idx else ⟨slots, size⟩ := by
  rw [remove, slotFrom_eq, hfirst.probe (hashPageId_lt pid hsize), Option.filter_some]
  dsimp only
  by_cases hfull : (slots idx).isSome
  · rw [if_pos hfull, if_pos hfull]
  · rw [if_neg hfull, if_neg hfull]

/-- The bounded loops of `remove` give what the loops of the source give. -/
theorem remove_of_removeLoop {idx : Nat} {table' : PageTable} (hsize : 0 < size)
    (hfirst : IsFirst size (stops ids ⟨slots, size⟩ pid) (hashPageId pid size) idx)
    (h : removeLoop ids ⟨slots, size⟩ pid size = some table') : remove ids ⟨slots, size⟩ pid = table' := by
  rw [removeLoop_of_isFirst hsize hfirst] at h
  rw [remove_of_isFirst hsize hfirst]
  by_cases hfull : (slots idx).isSome
  · rw [if_pos hfull] at h ⊢
    exact shiftFrom_of_shiftLoop h
  · rw [if_neg hfull] at h ⊢
    exact Option.some.inj h

theorem removeLoop_absent (hmap : Indexes size ⟨slots, size⟩ mapped) (hids : Holds ids mapped) (hsize : 0 < size)
    (hlen : mapped.length < size) (habsent : pid ∉ mapped.map Prod.fst) :
    removeLoop ids ⟨slots, size⟩ pid size = some ⟨slots, size⟩ := by
  obtain ⟨idx, hfirst, hempty⟩ := exists_absent hmap hids hlen habsent
  rw [removeLoop_of_isFirst hsize hfirst, hempty]
  rfl

/-- **Removal.**  Both loops end, and no other entry is lost behind the gap. -/
theorem removeLoop_mapped (hmap : Indexes size ⟨slots, size⟩ mapped) (hids : Holds ids mapped) (hsize : 0 < size)
    (hlen : mapped.length < size) (hmem : (pid, frame) ∈ mapped) :
    ∃ slots', removeLoop ids ⟨slots, size⟩ pid size = some ⟨slots', size⟩ ∧
      Chained (home ids size) slots' size ∧
      Stores size slots' (fun other => other ∈ mapped.map Prod.snd ∧ other ≠ frame) := by
  obtain ⟨idx, hfirst, hslot⟩ := exists_mapped hmap hids hmem
  obtain ⟨e, he, hempty⟩ := hmap.stores.exists_empty (by rwa [List.length_map])
  have hgap := Gap.start (hmap.chained ids hids) hfirst.lt hslot he hempty
  have hend := steps_lt hfirst.lt he
  obtain ⟨slots', hloop, hchain, hstores⟩ :=
    shiftLoop_of_gap hsize size slots idx idx hgap (hmap.stores.erase hfirst.lt hslot) (Nat.le_of_lt hend)
  refine ⟨slots', ?_, hchain, hstores⟩
  rw [removeLoop_of_isFirst hsize hfirst, hslot]
  exact hloop

/-- The frames that stay mapped. -/
theorem mem_frames_filter (hmap : Indexes size ⟨slots, size⟩ mapped) (hids : Holds ids mapped)
    (hmem : (pid, frame) ∈ mapped) (other : Nat) :
    other ∈ (mapped.filter (·.1 != pid)).map Prod.snd ↔ other ∈ mapped.map Prod.snd ∧ other ≠ frame := by
  have hpid : ids frame = pid := hids _ hmem
  constructor
  · intro hother
    obtain ⟨⟨page, other⟩, hentry, rfl⟩ := List.mem_map.mp hother
    obtain ⟨hentry, hne⟩ := List.mem_filter.mp hentry
    refine ⟨List.mem_map_of_mem hentry, ?_⟩
    rintro rfl
    have hpage : ids other = page := hids _ hentry
    rw [← hpage, hpid, bne_self_eq_false] at hne
    cases hne
  · rintro ⟨hother, hne⟩
    have hentry := hids.mem_of_frame hother
    refine List.mem_map.mpr ⟨_, List.mem_filter.mpr ⟨hentry, bne_iff_ne.mpr fun heq => hne ?_⟩, rfl⟩
    dsimp only at heq
    rw [heq] at hentry
    exact (Prod.mk.inj (List.inj_on_of_nodup_map hmap.nodup hentry hmem rfl)).2

theorem indexes_remove (hmap : Indexes size ⟨slots, size⟩ mapped) (hids : Holds ids mapped) (hsize : 0 < size)
    (hlen : mapped.length < size) (pid : Nat) :
    ∃ slots', removeLoop ids ⟨slots, size⟩ pid size = some ⟨slots', size⟩ ∧
      Indexes size ⟨slots', size⟩ (mapped.filter (·.1 != pid)) := by
  by_cases hin : pid ∈ mapped.map Prod.fst
  · obtain ⟨⟨pid, frame⟩, hmem, rfl⟩ := List.mem_map.mp hin
    obtain ⟨slots', hloop, hchain, hstores⟩ := removeLoop_mapped hmap hids hsize hlen hmem
    have hframes := mem_frames_filter hmap hids hmem
    have hstores' : Stores size slots' (· ∈ (mapped.filter (·.1 != pid)).map Prod.snd) :=
      ⟨fun other => (hframes other).trans (hstores.mem other), hstores.unique⟩
    refine ⟨slots', hloop, rfl, ?_, hstores', fun ids' hids' => hchain.congr fun i hi other hentry => ?_⟩
    · exact hmap.nodup.sublist (List.filter_sublist.map Prod.fst)
    · have hleft := hids'.mem_of_frame ((hstores'.mem other).mpr ⟨i, hi, hentry⟩)
      have hpage : ids other = ids' other := hids _ (List.mem_filter.mp hleft).1
      rw [home, home, hpage]
  · have hsame : mapped.filter (·.1 != pid) = mapped := by
      refine List.filter_eq_self.mpr fun entry hmem => bne_iff_ne.mpr ?_
      rintro rfl
      exact hin (List.mem_map_of_mem hmem)
    rw [hsame]
    exact ⟨slots, removeLoop_absent hmap hids hsize hlen hin, hmap⟩

/-- The search for any page has a slot to stop at. -/
theorem exists_isFirst_stops (hmap : Indexes size ⟨slots, size⟩ mapped) (hlen : mapped.length < size)
    (ids : Nat → Nat) (pid : Nat) :
    ∃ idx, IsFirst size (stops ids ⟨slots, size⟩ pid) (hashPageId pid size) idx := by
  obtain ⟨e, he, hempty⟩ := hmap.stores.exists_empty (by rwa [List.length_map])
  exact exists_isFirst ⟨e, he, stops_none hempty⟩

theorem indexes_start (size : Nat) : Indexes size ⟨fun _ => none, size⟩ [] where
  size_eq := rfl
  nodup := List.nodup_nil
  stores := {
    mem := fun frame => by
      constructor
      · intro hmem
        cases hmem
      · rintro ⟨_, _, hslot⟩
        cases hslot
    unique := fun _ _ _ _ _ h => nomatch h }
  chained _ _ _ _ _ h := nomatch h

/-- **The table over a run.**  It has the frames of the mapped pages in every state, each on
the way from the home of its page. -/
theorem Runs.indexes {table : PageTable} (h : Runs poolSize size table mapped) (hpool : 0 < poolSize)
    (hsize : 2 * poolSize ≤ size) : Indexes size table mapped ∧ mapped.length ≤ poolSize := by
  have hpos : 0 < size := by omega
  induction h with
  | start => exact ⟨indexes_start size, Nat.zero_le _⟩
  | @insert table mapped ids pid frame _ habsent hlen hids ih =>
    obtain ⟨slots, size⟩ := table
    obtain rfl := ih.1.size_eq
    obtain ⟨slots', hloop, hmap⟩ := insertLoop_of_indexes ih.1 hpos hids (by omega) habsent
    rw [PageTable.insert, insertFrom_of_insertLoop hloop]
    exact ⟨hmap, hlen⟩
  | @remove table mapped ids pid _ hids ih =>
    obtain ⟨slots, size⟩ := table
    obtain rfl := ih.1.size_eq
    have hlen := ih.2
    obtain ⟨slots', hloop, hmap⟩ := indexes_remove ih.1 hids hpos (by omega) pid
    obtain ⟨idx, hfirst⟩ := exists_isFirst_stops ih.1 (by omega) ids pid
    rw [remove_of_removeLoop hpos hfirst hloop]
    exact ⟨hmap, Nat.le_trans (List.length_filter_le ..) hlen⟩

/-- The frame of a page among the mapped ones. -/
theorem lookup_of_mem (hnodup : (mapped.map Prod.fst).Nodup) (hmem : (pid, frame) ∈ mapped) :
    mapped.lookup pid = some frame := by
  induction mapped with
  | nil => cases hmem
  | cons entry mapped ih =>
    obtain ⟨page, frame'⟩ := entry
    obtain ⟨hnew, hnodup⟩ := List.nodup_cons.mp hnodup
    rw [List.lookup_cons]
    rcases List.mem_cons.mp hmem with heq | htail
    · cases heq
      rw [beq_self_eq_true pid]
    · have hne : pid ≠ page := by
        rintro rfl
        exact hnew (List.mem_map.mpr ⟨_, htail, rfl⟩)
      rw [beq_false_of_ne hne]
      exact ih hnodup htail

theorem lookup_of_absent (habsent : pid ∉ mapped.map Prod.fst) : mapped.lookup pid = none := by
  refine List.lookup_eq_none_iff.mpr fun entry hmem => bne_iff_ne.mpr ?_
  rintro rfl
  exact habsent (List.mem_map_of_mem hmem)

/-- **Lookup.**  The loop ends with the frame of a mapped page, and with none for another. -/
theorem lookupLoop_of_indexes (hmap : Indexes size ⟨slots, size⟩ mapped) (hids : Holds ids mapped)
    (hsize : 0 < size) (hlen : mapped.length < size) (pid : Nat) :
    lookupLoop ids ⟨slots, size⟩ pid (hashPageId pid size) size (hashPageId pid size) = some (mapped.lookup pid) ∧
      lookup ids ⟨slots, size⟩ pid = mapped.lookup pid := by
  have hhash := hashPageId_lt pid hsize
  rw [lookup, lookupLoop_eq, lookupFrom_eq]
  by_cases hin : pid ∈ mapped.map Prod.fst
  · obtain ⟨⟨pid, frame⟩, hmem, rfl⟩ := List.mem_map.mp hin
    obtain ⟨idx, hfirst, hslot⟩ := exists_mapped hmap hids hmem
    rw [hfirst.probe hhash, hfirst.probeLoop hhash, lookup_of_mem hmap.nodup hmem, ← hslot]
    exact ⟨rfl, rfl⟩
  · obtain ⟨idx, hfirst, hempty⟩ := exists_absent hmap hids hlen hin
    rw [hfirst.probe hhash, hfirst.probeLoop hhash, lookup_of_absent hin, ← hempty]
    exact ⟨rfl, rfl⟩

/-- **The page table is correct.**  In every state of a run a search ends with exactly the frame
of a mapped page and with none for every other, an insertion and a removal end, and no slot
between the home of a page and its entry is empty. -/
theorem pageTable_correct {poolSize size : Nat} (hpool : 1 ≤ poolSize) (hsize : 2 * poolSize ≤ size)
    {table : PageTable} {mapped : List (Nat × Nat)} (h : Runs poolSize size table mapped)
    {ids : Nat → Nat} (hids : Holds ids mapped) :
    (∀ pid, table.lookupLoop ids pid (hashPageId pid size) size (hashPageId pid size) = some (mapped.lookup pid) ∧
      table.lookup ids pid = mapped.lookup pid) ∧
    (∀ pid frame, table.insertLoop ids pid frame size (hashPageId pid size) = some (table.insert ids pid frame)) ∧
    (∀ pid, table.removeLoop ids pid size = some (table.remove ids pid)) ∧
    Chained (home ids size) table.slots size := by
  obtain ⟨hmap, hlen⟩ := h.indexes hpool hsize
  have hpos : 0 < size := by omega
  obtain ⟨slots, size⟩ := table
  obtain rfl := hmap.size_eq
  refine ⟨fun pid => ?_, fun pid frame => ?_, fun pid => ?_, hmap.chained ids hids⟩
  · exact lookupLoop_of_indexes hmap hids hpos (by omega) pid
  · obtain ⟨idx, hfirst⟩ := exists_isFirst_stops hmap (by omega) ids pid
    have hloop := hfirst.probe (hashPageId_lt pid hpos)
    have hend : insertLoop ids ⟨slots, size⟩ pid frame size (hashPageId pid size) =
        some (set ⟨slots, size⟩ idx (some frame)) := by
      rw [insertLoop_eq, hloop, Option.map_some]
    rw [insert, insertFrom_of_insertLoop hend]
    exact hend
  · obtain ⟨idx, hfirst⟩ := exists_isFirst_stops hmap (by omega) ids pid
    obtain ⟨slots', hloop, _⟩ := indexes_remove hmap hids hpos (by omega) pid
    rw [remove_of_removeLoop hpos hfirst hloop]
    exact hloop

/-- Pages 8 and 9 have the last slot of five as their home; the second one goes around the end,
and back when the first is removed. -/
theorem pageTable_correct_around :
    hashPageId 8 5 = 4 ∧ hashPageId 9 5 = 4 ∧
      ∀ pid, lookup (· + 8) (remove (· + 8) (insert (· + 8) (insert (· + 8) ⟨fun _ => none, 5⟩ 8 0) 9 1) 8) pid =
        [(9, 1)].lookup pid := by
  have hids : ∀ mapped : List (Nat × Nat), (∀ entry ∈ mapped, entry.2 + 8 = entry.1) → Holds (· + 8) mapped :=
    fun _ h => h
  have hfirst : Runs 2 5 (insert (· + 8) ⟨fun _ => none, 5⟩ 8 0) [(8, 0)] :=
    Runs.start.insert (by decide) (by decide) (hids _ (by decide))
  have hboth := @Runs.insert _ _ _ _ (· + 8) 9 1 hfirst (by decide) (by decide) (hids _ (by decide))
  have hleft := hboth.remove 8 (hids _ (by decide))
  have hcorrect := @pageTable_correct _ _ (by decide) (by decide) _ _ hleft (· + 8) (hids _ (by decide))
  exact ⟨by decide, by decide, fun pid => (hcorrect.1 pid).2⟩

end Indexes

end PageTable

end OnionRelay.Db
