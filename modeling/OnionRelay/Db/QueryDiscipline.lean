import OnionRelay.Db.QueryEngine

/-!
# What a query yields

Whatever the pages hold, the set a strategy collects is a sequence of additions, which a
handler that keeps a log shows.  Post-filter, sort and limit take pairs away and order
them, and packing keeps them apart.  So a query yields distinct offsets with the times
they were added with, newest first and within the limit (`result_discipline`), as long as
the sets stay within 2^31 records: the sort counts in `int32_t`, and the capacity of the
arrays wraps not long after.
-/

namespace OnionRelay.Db.Engine

open OnionRelay.Lib

/-! ## The additions of a run -/

/-- A collector that also keeps what was added. -/
def logger : Handler CollectSig (Option QueryResultSet × List (RecordId × Int))
  | .add rid createdAt, st => ((), (collector (.add rid createdAt) st.1).2, st.2 ++ [(rid, createdAt)])
  | .count, st => (collectedCount st.1, st)

section Log

variable {σ : Type} (pages : Handler (PageSig.sum RecordSig) σ) {α : Type}

/-- What a program adds. -/
def additions (p : CollectM α) (rs : QueryResultSet) (s : σ) : List (RecordId × Int) :=
  (p.run (pages.beside logger) (s, some rs, [])).2.2.2

theorem addAll_concat (rs : QueryResultSet) (added : List (RecordId × Int)) (e : RecordId × Int) :
    addAll rs (added ++ [e]) =
      (addAll rs added).bind fun rs => (queryResultAdd rs e.1 e.2).map Prod.snd := by
  induction added generalizing rs with
  | nil =>
    rw [List.nil_append, addAll_cons, show addAll rs [] = some rs from rfl, Option.bind_some]
    cases (queryResultAdd rs e.1 e.2).map Prod.snd <;> rfl
  | cons e' added ih =>
    rw [List.cons_append, addAll_cons, addAll_cons]
    cases (queryResultAdd rs e'.1 e'.2).map Prod.snd with
    | none => rfl
    | some rs' => exact ih rs'

/-- **A collected set** is the sequence of the additions. -/
theorem run_collector (p : CollectM α) (rs : QueryResultSet) (s : σ) :
    (p.run (pages.beside collector) (s, some rs)).2.2 = addAll rs (additions pages p rs s) := by
  have hsame := Prog.run_simulates (h := pages.beside logger) (g := pages.beside collector)
    (R := fun st st' => st.1 = st'.1 ∧ st.2.1 = st'.2) (by
      rintro (o | o) ⟨s, rs, log⟩ ⟨s', rs'⟩ ⟨rfl, rfl⟩
      · exact ⟨rfl, rfl, rfl⟩
      · cases o <;> exact ⟨rfl, rfl, rfl⟩) p (s := (s, some rs, [])) (t := (s, some rs)) ⟨rfl, rfl⟩
  have hlog := Prog.run_preserves (h := pages.beside logger)
    (I := fun st => st.2.1 = addAll rs st.2.2) (by
      rintro (o | o) ⟨s, rs', log⟩ hI
      · exact hI
      · obtain rfl : rs' = addAll rs log := hI
        cases o with
        | add rid createdAt => exact (addAll_concat rs log (rid, createdAt)).symm
        | count => rfl) p (s := (s, some rs, [])) rfl
  rw [← hsame.2.2, hlog]
  rfl

end Log

/-! ## The post-filter takes pairs away -/

section PostFilter

variable {σ : Type} (pages : Handler (PageSig.sum RecordSig) σ) (filter : NostrDBFilter)

theorem run_postFilterLoop_sublist : ∀ (left i write : Nat) (buf : Mem) (rs : QueryResultSet) (s : σ),
    write ≤ i →
      ((postFilterLoop filter left i write buf rs).run pages s).1.entries.Sublist
        (filled write rs.entry ++ (List.range' i left).map rs.entry) := by
  intro left
  induction left with
  | zero =>
    intro i write buf rs s _
    rw [postFilterLoop, Prog.run_pure, List.range'_zero, List.map_nil, List.append_nil]
    exact List.Sublist.refl _
  | succ left ih =>
    intro i write buf rs s hwrite
    rw [postFilterLoop, Prog.run_bind, List.range'_succ, List.map_cons]
    generalize hround : (postFilterEntry filter (rs.keys i) buf).run pages s = round
    obtain ⟨⟨keep, buf'⟩, s'⟩ := round
    dsimp only
    rw [Prog.run_ite]
    split
    · -- the entry goes to the first free place
      have hentry : ResultArrays.entry (if write ≠ i then
          (⟨rs.put write (rs.keys i) (rs.createdAt i), rs.bloom⟩ : QueryResultSet) else rs).toResultArrays =
            Function.update rs.entry write (rs.entry i) := by
        by_cases hne : write = i
        · rw [if_neg (not_not.mpr hne), hne, Function.update_eq_self]
        · rw [if_pos hne]
          exact ResultArrays.entry_put write (rs.keys i) (rs.createdAt i)
      have hbehind : (List.range' (i + 1) left).map (Function.update rs.entry write (rs.entry i)) =
          (List.range' (i + 1) left).map rs.entry := by
        refine List.map_congr_left fun j hj => Function.update_of_ne ?_ _ _
        have hj := List.mem_range'_1.mp hj
        omega
      have hrest := ih (i + 1) (write + 1) buf' (if write ≠ i then
        ⟨rs.put write (rs.keys i) (rs.createdAt i), rs.bloom⟩ else rs) s' (Nat.succ_le_succ hwrite)
      rw [hentry, hbehind, filled_succ, Function.update_self, filled_update_of_le (Nat.le_refl _),
        List.append_assoc] at hrest
      exact hrest
    · exact (ih (i + 1) write buf' rs s' (Nat.le_succ_of_le hwrite)).trans
        ((List.sublist_cons_self _ _).append_left _)

theorem run_queryPostFilter_sublist (stack : Mem) (rs : QueryResultSet) (s : σ) :
    ((queryPostFilter filter stack rs).run pages s).1.entries.Sublist rs.entries := by
  have h := run_postFilterLoop_sublist pages filter rs.count 0 0 stack rs s (Nat.le_refl _)
  rw [List.range'_eq_map_range] at h
  simpa [queryPostFilter, filled, ResultArrays.entries, Function.comp_def] using h

/-- The pairs that are left of a set, newest first and within the limit. -/
theorem finish_spec (stack : Mem) (rs : QueryResultSet) (s : σ) (hfew : rs.count ≤ 2 ^ 31) :
    ∃ rs' : QueryResultSet, (finish pages filter stack rs s).1 = some rs' ∧
      rs'.entries.Subperm rs.entries ∧ rs'.entries.Pairwise (fun x y => y.2 ≤ x.2) ∧
        rs'.count ≤ filter.effectiveLimit := by
  have hkept := run_queryPostFilter_sublist pages filter stack rs s
  have hlength := hkept.length_le
  rw [ResultArrays.length_entries, ResultArrays.length_entries] at hlength
  obtain ⟨arrays, hsort, hperm, hsorted, -, -⟩ := ResultArrays.sort_spec (Nat.le_trans hlength hfew)
  have hentries := ResultArrays.entries_applyLimit arrays filter.effectiveLimit
  refine ⟨queryResultApplyLimit ⟨arrays, ((queryPostFilter filter stack rs).run pages s).1.bloom⟩
    filter.effectiveLimit, ?_, ?_, ?_, ?_⟩
  · rw [finish]
    dsimp only
    rw [queryResultSort, hsort]
    rfl
  · refine List.Subperm.trans ?_ hkept.subperm
    refine List.Subperm.trans ?_ hperm.subperm
    exact hentries ▸ (List.take_sublist _ _).subperm
  · exact hentries ▸ hsorted.sublist (List.take_sublist _ _)
  · show (arrays.applyLimit filter.effectiveLimit).count ≤ filter.effectiveLimit
    rw [← ResultArrays.length_entries, hentries]
    exact List.length_take_le _ _

end PostFilter

/-! ## Offsets -/

theorem toNat_packRecordId (rid : RecordId) :
    (packRecordId rid).toNat = rid.pageId.toNat * 2 ^ 16 + rid.slotIndex.toNat := by
  have hpage := rid.pageId.toNat_lt
  have hslot := rid.slotIndex.toNat_lt
  rw [packRecordId, UInt64.toNat_or, UInt64.toNat_shiftLeft, UInt32.toNat_toUInt64, UInt16.toNat_toUInt64,
    show (16 : UInt64).toNat % 64 = 16 from rfl, Nat.mod_eq_of_lt (by rw [Nat.shiftLeft_eq]; omega),
    ← Nat.shiftLeft_add_eq_or_of_lt hslot, Nat.shiftLeft_eq]

theorem packRecordId_injective : Function.Injective packRecordId := by
  rintro ⟨pageId, slotIndex⟩ ⟨pageId', slotIndex'⟩ h
  have hnat := congrArg UInt64.toNat h
  have hslot := slotIndex.toNat_lt
  have hslot' := slotIndex'.toNat_lt
  rw [toNat_packRecordId, toNat_packRecordId] at hnat
  dsimp only at hnat
  obtain rfl : pageId = pageId' := UInt32.toNat_inj.mp (by omega)
  obtain rfl : slotIndex = slotIndex' := UInt16.toNat_inj.mp (by omega)
  rfl

theorem addOffsets_spec {first : Nat} : ∀ (es : List (RecordId × Int)) (result : NostrDBResultSet),
    result.GrownFrom first → (es.map Prod.fst).Nodup →
      (∀ e ∈ es, packRecordId e.1 ∉ result.entries.map Prod.fst) →
        result.count + es.length ≤ ResultArrays.lastCapacity first →
          ∃ result', addOffsets result es = some result' ∧
            result'.entries = result.entries ++ es.map fun e => (packRecordId e.1, e.2) := by
  intro es
  induction es with
  | nil => exact fun result _ _ _ _ => ⟨result, rfl, (List.append_nil _).symm⟩
  | cons e es ih =>
    intro result hgrown hnodup hnew hroom
    rw [List.length_cons] at hroom
    rw [List.map_cons, List.nodup_cons] at hnodup
    obtain ⟨result₁, hpush, hentries, hgrown₁⟩ :=
      hgrown.push_of_lt (by omega) (packRecordId e.1) e.2
    have hadd : nostrDbResultAdd result (packRecordId e.1) e.2 = some (0, result₁) := by
      rw [nostrDbResultAdd, if_neg, hpush]
      exact fun hc => hnew e List.mem_cons_self (ResultArrays.contains_iff.mp hc)
    have hcount : result₁.count = result.count + 1 := by
      rw [← ResultArrays.length_entries, hentries, List.length_append, ResultArrays.length_entries]
      rfl
    obtain ⟨result', hrest, hentries'⟩ := ih result₁ hgrown₁ hnodup.2 (fun e' he' hmem => by
      rw [hentries, List.map_append, List.mem_append] at hmem
      rcases hmem with hmem | hmem
      · exact hnew e' (List.mem_cons_of_mem _ he') hmem
      · have heq := packRecordId_injective (List.mem_singleton.mp hmem)
        exact hnodup.1 (heq ▸ List.mem_map_of_mem he')) (by omega)
    refine ⟨result', ?_, ?_⟩
    · rw [addOffsets, List.foldlM_cons, hadd]
      exact hrest
    · rw [hentries', hentries, List.append_assoc]
      rfl

/-! ## The query -/

/-- What a query yields when these pairs were added. -/
structure Disciplined (filter : NostrDBFilter) (added : List (RecordId × Int))
    (result : NostrDBResultSet) : Prop where
  distinct : (result.entries.map Prod.fst).Nodup
  paired : ∀ e ∈ result.entries, ∃ x ∈ linearAdds [] added, e = (packRecordId x.1, x.2)
  newestFirst : result.entries.Pairwise fun x y => y.2 ≤ x.2
  limited : result.count ≤ filter.limit

/-- Doubling reaches 2^31 from everywhere. -/
theorem le_lastCapacity_of_pos {capacity : Nat} (hpos : 0 < capacity) (hlt : capacity < 2 ^ 32) :
    2 ^ 31 ≤ ResultArrays.lastCapacity capacity := by
  have hlog : capacity.log2 < 32 := (Nat.log2_lt hpos.ne').mpr hlt
  have hle : 2 ^ capacity.log2 ≤ capacity := Nat.log2_self_le hpos.ne'
  calc 2 ^ 31 = 2 ^ capacity.log2 * 2 ^ (31 - capacity.log2) := by rw [← Nat.pow_add]; congr 1; omega
    _ ≤ ResultArrays.lastCapacity capacity := Nat.mul_le_mul_right _ hle

section Query

variable {σ : Type} (pages : Handler (PageSig.sum RecordSig) σ) (im : IndexManager) (filter : NostrDBFilter)
  (stack : Mem)

/-- The records that the indexes name to a query are few enough to be counted in `int32_t`. -/
def FewRecords (capacity : Nat) (s : σ) : Prop :=
  (linearAdds [] (additions pages (collect im filter) (queryResultCreate capacity) s)).length ≤ 2 ^ 31

/-- A query that is turned down yields nothing. -/
theorem disciplined_nothing (added : List (RecordId × Int)) (capacity : Nat) :
    Disciplined filter added (nostrDbResultCreate capacity) :=
  ⟨List.nodup_nil, fun _ he => absurd he List.not_mem_nil, List.Pairwise.nil, Nat.zero_le _⟩

theorem grown_nostrDbResultCreate {capacity : Nat} (h : capacity < 2 ^ 32) :
    (nostrDbResultCreate capacity).GrownFrom (nostrDbResultCreate capacity).capacity :=
  let sound := sound_create h
  ⟨rfl, sound.grown.pos, sound.grown.lt, Nat.zero_le _⟩

/-- **What a query yields** of a set within the bounds. -/
theorem disciplined_of_few {capacity : Nat} (hcapacity : capacity < 2 ^ 32) (hlimit : 0 < filter.limit)
    (s : σ) (hfew : FewRecords pages im filter (nostrDbResultCreate capacity).capacity s) :
    ∃ (err : NostrDBError) (result : NostrDBResultSet),
      (nostrDbQueryExecute pages im filter stack (nostrDbResultCreate capacity) s).1 = some (err, result) ∧
        Disciplined filter (additions pages (collect im filter)
          (queryResultCreate (nostrDbResultCreate capacity).capacity) s) result := by
  have hresult := grown_nostrDbResultCreate hcapacity
  generalize hadded : additions pages (collect im filter)
    (queryResultCreate (nostrDbResultCreate capacity).capacity) s = added at *
  rw [FewRecords, hadded] at hfew
  have hsound := sound_create hresult.lt
  have hlast := le_lastCapacity_of_pos hresult.pos hresult.lt
  have hfirst : (queryResultCreate (nostrDbResultCreate capacity).capacity).capacity =
      (nostrDbResultCreate capacity).capacity := if_neg hresult.pos.ne'
  have hcollected := run_collector pages (collect im filter)
    (queryResultCreate (nostrDbResultCreate capacity).capacity) s
  rw [hadded] at hcollected
  obtain ⟨rs, hrs, hentries⟩ := (hsound.addAll_iff added).mpr
    (hfirst.symm ▸ Nat.le_trans hfew hlast)
  rw [hrs] at hcollected
  rw [show (queryResultCreate _).entries = [] from rfl] at hentries
  rw [nostrDbQueryExecute, queryExecute]
  by_cases hvalid : filterValidate filter = false
  · rw [if_pos hvalid]
    exact ⟨.invalidEvent, _, rfl, disciplined_nothing filter added capacity⟩
  rw [if_neg hvalid, if_neg hlimit.ne']
  generalize hrun : (collect im filter).run (pages.beside collector)
    (s, some (queryResultCreate (nostrDbResultCreate capacity).capacity)) = run at hcollected
  obtain ⟨err, s', rs'⟩ := run
  obtain rfl : rs' = some rs := hcollected
  dsimp only
  by_cases herr : err ≠ .ok
  · rw [if_pos herr]
    dsimp only
    rw [if_pos herr]
    exact ⟨err, _, rfl, disciplined_nothing filter added capacity⟩
  rw [if_neg herr]
  have hcount : rs.count ≤ 2 ^ 31 := by
    rw [← ResultArrays.length_entries, hentries]
    exact hfew
  obtain ⟨rs'', hfinish, hsubperm, hsorted, hlimited⟩ := finish_spec pages filter stack rs s' hcount
  have hnodup : (rs''.entries.map Prod.fst).Nodup := by
    obtain ⟨es, hperm, hsub⟩ := hsubperm
    rw [← (hperm.map Prod.fst).nodup_iff]
    refine List.Nodup.sublist (hsub.map Prod.fst) ?_
    rw [hentries]
    exact @nodup_linearAdds _ _ [] List.nodup_nil added
  obtain ⟨result, hadd, hoffsets⟩ := addOffsets_spec rs''.entries (nostrDbResultCreate capacity) hresult
    hnodup (fun e _ hmem => absurd hmem List.not_mem_nil) (by
      have hle := hsubperm.length_le
      rw [ResultArrays.length_entries, ResultArrays.length_entries] at hle
      rw [ResultArrays.length_entries, show (nostrDbResultCreate capacity).count = 0 from rfl]
      omega)
  rw [show (nostrDbResultCreate capacity).entries = [] from rfl, List.nil_append] at hoffsets
  rw [hfinish, Option.map_some]
  dsimp only
  rw [if_neg (by decide), hadd, Option.map_some]
  refine ⟨.ok, result, rfl, ?_, ?_, ?_, ?_⟩
  · rw [hoffsets, List.map_map, show (Prod.fst ∘ fun e : RecordId × Int => (packRecordId e.1, e.2)) =
      packRecordId ∘ Prod.fst from rfl, ← List.map_map]
    exact hnodup.map packRecordId_injective
  · intro e he
    rw [hoffsets] at he
    obtain ⟨x, hx, rfl⟩ := List.mem_map.mp he
    exact ⟨x, hentries ▸ hsubperm.subset hx, rfl⟩
  · rw [hoffsets]
    exact List.pairwise_map.mpr hsorted
  · rw [← ResultArrays.length_entries, hoffsets, List.length_map, ResultArrays.length_entries]
    rw [NostrDBFilter.effectiveLimit, if_pos hlimit] at hlimited
    exact hlimited

end Query

/-- **The discipline of result sets.**  A query on any database yields distinct offsets
with the times they were added with, newest first and within the limit; and a sequence of
additions is that of the linear check exactly as long as its records fit into the last
capacity that doubling reaches. -/
theorem result_discipline (capacity : UInt32) :
    (∀ {σ : Type} (pages : Handler (PageSig.sum RecordSig) σ) (im : IndexManager) (filter : NostrDBFilter)
      (stack : Mem) (s : σ), 0 < filter.limit →
        FewRecords pages im filter (nostrDbResultCreate capacity.toNat).capacity s →
          ∃ (err : NostrDBError) (result : NostrDBResultSet),
            (nostrDbQueryExecute pages im filter stack (nostrDbResultCreate capacity.toNat) s).1 =
                some (err, result) ∧
              Disciplined filter (additions pages (collect im filter)
                (queryResultCreate (nostrDbResultCreate capacity.toNat).capacity) s) result) ∧
    ∀ added : List (RecordId × Int),
      (∃ rs, addAll (queryResultCreate capacity.toNat) added = some rs ∧ rs.entries = linearAdds [] added) ↔
        (linearAdds [] added).length ≤ ResultArrays.lastCapacity (queryResultCreate capacity.toNat).capacity := by
  refine ⟨fun pages im filter stack s hlimit hfew =>
    disciplined_of_few pages im filter stack capacity.toNat_lt hlimit s hfew, fun added => ?_⟩
  exact (sound_create capacity.toNat_lt).addAll_iff added

/-- A tree without pages. -/
def freshTree (shape : BTreeShape) (metaPage : Nat) : BTree :=
  ⟨metaPage, ⟨0, 0, 0, 0, 0, shape.keySize, shape.valueSize, shape.keyType⟩, btreeGetComparator shape.keyType⟩

def freshIndexes : IndexManager :=
  ⟨freshTree .id 1, freshTree .timeline 2, freshTree .pubkey 3, freshTree .kind 4, freshTree .pubkeyKind 5,
    freshTree .tag 6⟩

/-- Ten events at most, of an empty database; and three additions, one of them twice. -/
theorem result_discipline_fresh :
    (∃ (err : NostrDBError) (result : NostrDBResultSet),
      (nostrDbQueryExecute (recordStore (.granting .lowest fun frames _ => frames)) freshIndexes
          ⟨[], [], [], [], 0, 0, 10⟩ (fun _ => 0) (nostrDbResultCreate 0) ⟨.empty, [], 0, []⟩).1 =
            some (err, result) ∧ Disciplined ⟨[], [], [], [], 0, 0, 10⟩ [] result) ∧
    ∃ rs, addAll (queryResultCreate 0) [(⟨1, 0⟩, 5), (⟨2, 0⟩, 7), (⟨1, 0⟩, 9)] = some rs ∧
      rs.entries = [(⟨1, 0⟩, 5), (⟨2, 0⟩, 7)] := by
  obtain ⟨hquery, hadds⟩ := result_discipline 0
  refine ⟨?_, (hadds [(⟨1, 0⟩, 5), (⟨2, 0⟩, 7), (⟨1, 0⟩, 9)]).mpr (by decide)⟩
  exact hquery (recordStore (.granting .lowest fun frames _ => frames)) freshIndexes
    ⟨[], [], [], [], 0, 0, 10⟩ (fun _ => 0) ⟨.empty, [], 0, []⟩ (by decide) (Nat.zero_le _)

/-! ## More records than the arrays can grow to -/

theorem linearAdds_of_nodup {ρ : Type} [DecidableEq ρ] : ∀ (added es : List (ρ × Int)),
    ((es ++ added).map Prod.fst).Nodup → linearAdds es added = es ++ added := by
  intro added
  induction added with
  | nil => exact fun es _ => (List.append_nil es).symm
  | cons e added ih =>
    intro es h
    have hnew : e.1 ∉ es.map Prod.fst := by
      rw [List.map_append, List.map_cons, List.nodup_append] at h
      exact fun hmem => h.2.2 _ hmem _ List.mem_cons_self rfl
    have hassoc : es ++ e :: added = es ++ [e] ++ added := by rw [List.append_assoc]; rfl
    rw [hassoc] at h
    rw [linearAdds_cons, linearAdd, if_neg hnew, ih _ h, hassoc]

/-- A record on each of `n` pages, all of one time. -/
def onePerPage (n : Nat) : List (RecordId × Int) := (List.range n).map fun i => (⟨UInt32.ofNat i, 0⟩, 0)

theorem nodup_onePerPage {n : Nat} (h : n ≤ 2 ^ 32) : ((onePerPage n).map Prod.fst).Nodup := by
  rw [onePerPage, List.map_map]
  refine List.Nodup.map_on (fun i hi j hj heq => ?_) List.nodup_range
  have hi : i < UInt32.size := Nat.lt_of_lt_of_le (List.mem_range.mp hi) h
  have hj : j < UInt32.size := Nat.lt_of_lt_of_le (List.mem_range.mp hj) h
  have hnat := congrArg (fun rid : RecordId => rid.pageId.toNat) heq
  dsimp only [Function.comp_apply] at hnat
  rwa [UInt32.toNat_ofNat_of_lt' hi, UInt32.toNat_ofNat_of_lt' hj] at hnat

/-- With the default capacity of 100 the last capacity is 100 * 2^25. -/
theorem not_linear_onePerPage {n : Nat} (hlarge : 3355443200 < n) (h : n ≤ 2 ^ 32) :
    ¬ ∃ rs, addAll (queryResultCreate 0) (onePerPage n) = some rs ∧
      rs.entries = linearAdds [] (onePerPage n) := by
  have hlinear : linearAdds [] (onePerPage n) = onePerPage n :=
    linearAdds_of_nodup _ [] (by rw [List.nil_append]; exact nodup_onePerPage h)
  have hlast : ResultArrays.lastCapacity (queryResultCreate 0).capacity = 3355443200 := by decide
  have hiff := (@sound_create 0 (by decide)).addAll_iff (onePerPage n)
  rw [show (queryResultCreate 0).entries = [] from rfl, hlinear, hlast, onePerPage, List.length_map,
    List.length_range] at hiff
  rw [hlinear]
  exact fun hadds => absurd (hiff.mp hadds) (Nat.not_le.mpr hlarge)

theorem too_many_results : ¬ ∃ rs, addAll (queryResultCreate 0) (onePerPage 3355443201) = some rs ∧
    rs.entries = linearAdds [] (onePerPage 3355443201) :=
  not_linear_onePerPage (by decide) (by decide)

end OnionRelay.Db.Engine
