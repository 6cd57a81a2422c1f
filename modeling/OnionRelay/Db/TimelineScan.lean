import OnionRelay.Db.DupDelete
import OnionRelay.Db.QueryDiscipline

/-!
# The timeline scan

The timeline index has a key for each time, and keys are compared as signed numbers.
`run_queryTimelineScan` says what the scan adds: the events between the bounds, key after
key, as many as the limit allows.  That the key of a time is a difference which wraps is
not used here.
-/

namespace OnionRelay.Db

open OnionRelay.Lib

/-- The timeline index. -/
def DupShape.timeline : DupShape := ⟨BTreeShape.timeline, rfl⟩

namespace Engine

/-- The key of a time. -/
def timelineKey (t : Int) : DupShape.timeline.Key := ⟨int64Bytes (timelineKeyEncode t), length_toLE _ _⟩

/-- `index_timeline_insert` -/
def indexTimelineInsert (tree : BTree) (createdAt : Int) (rid : RecordId) : PageM (NostrDBError × BTree) :=
  btreeInsertDup tree (timelineKey createdAt).bytes rid

/-! ## Signed numbers -/

/-- The range of `int64_t`. -/
def InInt64 (n : Int) : Prop := -2 ^ 63 ≤ n ∧ n < 2 ^ 63

theorem asInt64_eq {n : Int} (h : InInt64 n) : asInt64 n = n := by
  obtain ⟨hlow, hhigh⟩ := h
  exact Int.bmod_eq_of_le (by omega) (by omega)

theorem inInt64_asInt64 (n : Int) : InInt64 (asInt64 n) := by
  have hlow := @Int.le_bmod n (2 ^ 64) (by decide)
  have hhigh := @Int.bmod_lt n (2 ^ 64) (by decide)
  rw [asInt64, InInt64]
  omega

/-- A number that was stored in 64 bits. -/
theorem asInt64_emod {n : Int} (h : InInt64 n) : asInt64 ((n % 2 ^ 64).toNat : Nat) = n := by
  have hcast : (((n % 2 ^ 64).toNat : Nat) : Int) = n % ((2 ^ 64 : Nat) : Int) := by omega
  rw [hcast, asInt64, Int.emod_bmod]
  exact asInt64_eq h

theorem asInt64_int64Bytes {n : Int} (h : InInt64 n) : asInt64 (ofLE (int64Bytes n)) = n := by
  have hrange : (n % 2 ^ 64).toNat < 256 ^ 8 := by omega
  rw [int64Bytes, ofLE_toLE_of_lt hrange, asInt64_emod h]

theorem rank_timelineKey (t : Int) : (timelineKey t).rank = [timelineKeyEncode t] :=
  congrArg (fun n => [n]) (asInt64_int64Bytes (inInt64_asInt64 _))

theorem timelineKey_le_iff (t u : Int) :
    timelineKey t ≤ timelineKey u ↔ timelineKeyEncode t ≤ timelineKeyEncode u := by
  show (timelineKey t).rank ≤ (timelineKey u).rank ↔ _
  rw [rank_timelineKey, rank_timelineKey]
  constructor
  · intro h
    by_contra hlt
    exact absurd h (not_le.mpr (List.cons_lt_cons_iff.mpr (.inl (not_le.mp hlt))))
  · intro h
    rcases h.lt_or_eq with hlt | heq
    · exact (List.cons_lt_cons_iff.mpr (.inl hlt)).le
    · rw [heq]

/-- **A key is decoded to its time**, wherever the difference wraps. -/
theorem timelineKeyDecode_encode {t : Int} (h : InInt64 t) : timelineKeyDecode (timelineKeyEncode t) = t := by
  have hdiff : asInt64 (int64Max - asInt64 (int64Max - t)) = asInt64 (int64Max - (int64Max - t)) := by
    rw [asInt64, asInt64, asInt64, Int.sub_bmod_bmod]
  rw [timelineKeyDecode, timelineKeyEncode, hdiff, show int64Max - (int64Max - t) = t by omega, asInt64_eq h]

theorem decode_timelineKey {t : Int} (h : InInt64 t) :
    timelineKeyDecode (asInt64 (ofLE ((timelineKey t).bytes.take 8))) = t := by
  have hlength : (timelineKey t).bytes.length ≤ 8 := (timelineKey t).length_bytes.le
  have hencoded : asInt64 (ofLE (timelineKey t).bytes) = timelineKeyEncode t :=
    asInt64_int64Bytes (inInt64_asInt64 _)
  rw [List.take_of_length_le hlength, hencoded, timelineKeyDecode_encode h]

/-! ## Collecting from a flat store -/

section Collect

variable (allocator : Allocator) (grants : Nat → Bool) (records : Handler RecordSig FlatStore)

/-- The pages of a flat store beside a collector; the scan puts no question to `records`. -/
abbrev collecting : Handler ((PageSig.sum RecordSig).sum CollectSig) (FlatStore × Option QueryResultSet) :=
  ((flatStore allocator grants).sum records).beside collector

variable {s : FlatStore} {rs : QueryResultSet} {first limit : Nat}

@[simp] theorem run_readPages {α : Type} (p : PageM α) (st : FlatStore × Option QueryResultSet) :
    (readPages p).run (collecting allocator grants records) st =
      ((p.run (flatStore allocator grants) st.1).1, (p.run (flatStore allocator grants) st.1).2, st.2) := by
  rw [readPages, Prog.run_inl_beside, Prog.run_inl]

@[simp] theorem run_collectAdd (rid : RecordId) (createdAt : Int) (st : FlatStore × Option QueryResultSet) :
    (collectAdd rid createdAt).run (collecting allocator grants records) st =
      ((), st.1, st.2.bind fun rs => (queryResultAdd rs rid createdAt).map Prod.snd) := (rfl)

@[simp] theorem run_limitReached (limit : Nat) (st : FlatStore × Option QueryResultSet) :
    (limitReached limit).run (collecting allocator grants records) st =
      (decide (0 < limit ∧ limit ≤ collectedCount st.2), st) := (rfl)

/-- **One entry of a page.** -/
theorem run_timelineEntry (hsound : Sound first rs) {rid : RecordId} (ts : Int)
    (hnew : rid ∉ rs.entries.map Prod.fst) (hroom : rs.count < ResultArrays.lastCapacity first)
    (hpos : 0 < limit) : ∃ rs' : QueryResultSet,
      (timelineEntry limit ts rid).run (collecting allocator grants records) (s, some rs) =
          (decide (rs.count + 1 < limit), s, some rs') ∧
        Sound first rs' ∧ rs'.entries = rs.entries ++ [(rid, ts)] := by
  obtain ⟨code, rs', hadd, hentries, hsound'⟩ := hsound.add rid ts (.inr hroom)
  rw [linearAdd, if_neg hnew] at hentries
  have hcount : rs'.count = rs.count + 1 := by
    rw [← ResultArrays.length_entries, hentries, List.length_append, ResultArrays.length_entries]
    rfl
  refine ⟨rs', ?_, hsound', hentries⟩
  simp only [timelineEntry, Prog.run_bind, run_collectAdd, Option.bind_some, hadd, Option.map_some,
    run_limitReached, Prog.run_pure, collectedCount, hcount, hpos, true_and, ← Nat.not_lt, decide_not,
    Bool.not_not]

/-- **The entries of a page**, as long as the limit is not reached. -/
theorem run_scanPage (ts : Int) : ∀ {rids : List RecordId} {rs : QueryResultSet}, Sound first rs →
    rs.count < limit → (rs.entries.map Prod.fst ++ rids).Nodup →
      rs.count + rids.length ≤ ResultArrays.lastCapacity first → ∃ rs' : QueryResultSet,
        (scanPage (timelineEntry limit ts) rids).run (collecting allocator grants records) (s, some rs) =
            (decide (limit ≤ rs.count + rids.length), s, some rs') ∧
          Sound first rs' ∧ rs'.entries = (rs.entries ++ rids.map (·, ts)).take limit := by
  intro rids
  induction rids with
  | nil =>
    intro rs hsound hlimit _ _
    refine ⟨rs, ?_, hsound, ?_⟩
    · rw [decide_eq_false (by simpa using hlimit)]
      rfl
    · rw [List.map_nil, List.append_nil, List.take_of_length_le (by simpa using hlimit.le)]
  | cons rid rids ih =>
    intro rs hsound hlimit hnodup hroom
    rw [List.length_cons] at hroom ⊢
    have hnew : rid ∉ rs.entries.map Prod.fst := fun hmem =>
      (List.nodup_append.mp hnodup).2.2 rid hmem rid List.mem_cons_self rfl
    obtain ⟨rs₁, hentry, hsound₁, hentries⟩ := run_timelineEntry allocator grants records (s := s) hsound ts
      hnew (by omega) (Nat.zero_lt_of_lt hlimit)
    have hcount : rs₁.count = rs.count + 1 := by
      rw [← ResultArrays.length_entries, hentries, List.length_append, ResultArrays.length_entries]
      rfl
    have hsplit : rs.entries ++ (rid :: rids).map (·, ts) = rs₁.entries ++ rids.map (·, ts) := by
      rw [hentries, List.append_assoc]
      rfl
    rw [hsplit, scanPage]
    simp only [Prog.run_bind, hentry, Prog.run_ite]
    by_cases hmore : rs.count + 1 < limit
    · rw [if_pos (decide_eq_true hmore), show rs.count + (rids.length + 1) = rs₁.count + rids.length by omega]
      refine ih hsound₁ (by omega) ?_ (by omega)
      rw [hentries, List.map_append, List.append_assoc]
      exact hnodup
    · refine ⟨rs₁, ?_, hsound₁, ?_⟩
      · rw [if_neg (by simpa using hmore), decide_eq_true (by omega)]
        rfl
      · rw [List.take_left' (by rw [ResultArrays.length_entries]; omega)]

/-- The events of a chain, with one time. -/
def chainEvents (chain : Chain) (ts : Int) : List (RecordId × Int) := chain.lists.flatten.map (·, ts)

theorem length_chainEvents (chain : Chain) (ts : Int) :
    (chainEvents chain ts).length = chain.lists.flatten.length := List.length_map _

theorem map_fst_chainEvents (chain : Chain) (ts : Int) :
    (chainEvents chain ts).map Prod.fst = chain.lists.flatten := by
  rw [chainEvents, List.map_map]
  exact List.map_id' _

theorem chainEvents_cons (p : Nat × List RecordId) (chain : Chain) (ts : Int) :
    chainEvents (p :: chain) ts = p.2.map (·, ts) ++ chainEvents chain ts := by
  rw [chainEvents, Chain.lists_cons, List.flatten_cons, List.map_append]
  rfl

/-- **The pages of a chain.** -/
theorem run_scanChain (ts : Int) : ∀ {chain : Chain} {head fuel : Nat} {rs : QueryResultSet},
    ChainHolds s head chain → chain.length ≤ fuel → Sound first rs → rs.count < limit →
      (rs.entries.map Prod.fst ++ chain.lists.flatten).Nodup →
        rs.count + chain.lists.flatten.length ≤ ResultArrays.lastCapacity first → ∃ rs' : QueryResultSet,
          (scanChain (timelineEntry limit ts) fuel chain.head).run (collecting allocator grants records)
              (s, some rs) = (decide (limit ≤ rs.count + chain.lists.flatten.length), s, some rs') ∧
            Sound first rs' ∧ rs'.entries = (rs.entries ++ chainEvents chain ts).take limit := by
  intro chain
  induction chain with
  | nil =>
    intro head fuel rs _ _ hsound hlimit _ _
    refine ⟨rs, ?_, hsound, ?_⟩
    · rw [decide_eq_false (by simpa using hlimit)]
      cases fuel <;> rfl
    · rw [show chainEvents [] ts = [] from rfl, List.append_nil,
        List.take_of_length_le (by simpa using hlimit.le)]
  | cons p post ih =>
    intro head fuel rs hholds hfuel hsound hlimit hnodup hroom
    obtain ⟨pid, rids⟩ := p
    obtain ⟨fuel, rfl⟩ : ∃ f, fuel = f + 1 := ⟨fuel - 1, by rw [List.length_cons] at hfuel; omega⟩
    obtain ⟨hlive, hpage, -⟩ := hholds.at_first
    have hfetch : s.fetch pid = some (s.pages pid) := hlive.fetch
    rw [Chain.lists_cons, List.flatten_cons, List.length_append] at hroom ⊢
    rw [Chain.lists_cons, List.flatten_cons, ← List.append_assoc] at hnodup
    dsimp only at hroom hnodup ⊢
    obtain ⟨rs₁, hrun, hsound₁, hentries⟩ := run_scanPage allocator grants records (s := s) ts hsound hlimit
      (List.nodup_append.mp hnodup).1 (by omega)
    rw [Chain.head_cons, scanChain, if_neg hlive.pos.ne', chainEvents_cons, ← List.append_assoc]
    simp only [Prog.run_bind, run_readPages, run_pinPage, run_unpinPage, hfetch, hpage.pageEntries_eq, hrun,
      hpage.next, Prog.run_ite]
    by_cases hstop : limit ≤ rs.count + rids.length
    · refine ⟨rs₁, ?_, hsound₁, ?_⟩
      · rw [if_pos (decide_eq_true hstop), decide_eq_true (by omega)]
        rfl
      · exact hentries.trans (List.take_append_of_le_length (by simpa using hstop)).symm
    · rw [List.take_of_length_le (by simp; omega)] at hentries
      have hcount : rs₁.count = rs.count + rids.length := by
        rw [← ResultArrays.length_entries, hentries]
        simp
      have hfirst : rs₁.entries.map Prod.fst = rs.entries.map Prod.fst ++ rids := by
        rw [hentries]
        simp [Function.comp_def]
      rw [if_neg (by simpa using hstop), ← hentries, ← Nat.add_assoc, ← hcount]
      refine ih hholds.behind_first (by rw [List.length_cons] at hfuel; omega) hsound₁ (by omega)
        (hfirst ▸ hnodup) (by omega)

end Collect

/-! ## The scan only reads -/

/-- A page is pinned or given back. -/
def Reads : PageOp → Prop
  | .pin _ => True
  | .unpin _ => True
  | _ => False

/-- A page is read, or the callback is called. -/
def ReadsOrCalls : (PageSig.sum ScanSig).Op → Prop
  | .inl o => Reads o
  | .inr _ => True

/-- A page is read, or the result set is used. -/
def ReadsOrCollects : ((PageSig.sum RecordSig).sum CollectSig).Op → Prop
  | .inl (.inl o) => Reads o
  | .inl (.inr _) => False
  | .inr _ => True

section Asks

variable (tree : BTree)

theorem asks_pinPage (pid : Nat) : (pinPage pid).Asks Reads := (Prog.asks_call _).mpr trivial

theorem asks_unpinPage (pid : Nat) : (unpinPage pid).Asks Reads := (Prog.asks_call _).mpr trivial

theorem asks_descend (key : List UInt8) : ∀ (levels pid : Nat) (path : List (Nat × Nat)),
    (descend tree key levels pid path).Asks Reads := by
  intro levels
  induction levels with
  | zero => exact fun _ _ => Prog.asks_pure _
  | succ levels ih =>
    intro pid path
    refine (asks_pinPage pid).bind fun page => ?_
    cases page with
    | none => exact Prog.asks_pure _
    | some page => exact (asks_unpinPage pid).bind fun _ => ih _ _

theorem asks_descendLeftmost : ∀ levels pid : Nat, (descendLeftmost tree levels pid).Asks Reads := by
  intro levels
  induction levels with
  | zero => exact fun _ => Prog.asks_pure _
  | succ levels ih =>
    intro pid
    refine (asks_pinPage pid).bind fun page => ?_
    cases page with
    | none => exact Prog.asks_pure _
    | some page => exact (asks_unpinPage pid).bind fun _ => ih _

theorem asks_firstLeaf (minKey : Option (List UInt8)) : (firstLeaf tree minKey).Asks Reads := by
  cases minKey with
  | none =>
    rw [firstLeaf, findLeftmostLeaf]
    generalize tree.levels = levels
    split
    · exact Prog.asks_pure _
    · exact asks_descendLeftmost tree levels _
  | some key =>
    rw [firstLeaf, findLeaf]
    generalize tree.levels = levels
    split
    · exact Prog.asks_pure _
    · refine (asks_descend tree key levels _ _).bind fun found => ?_
      cases found <;> exact Prog.asks_pure _

theorem asks_scanLeafEntries (page : PageData) (maxKey : Option (List UInt8)) : ∀ left i : Nat,
    (scanLeafEntries tree page maxKey left i).Asks ReadsOrCalls := by
  intro left
  induction left with
  | zero => exact fun _ => Prog.asks_pure _
  | succ left ih =>
    intro i
    rw [scanLeafEntries]
    dsimp only
    split
    · exact Prog.asks_pure _
    · refine Prog.Asks.call_bind trivial fun more => ?_
      cases more with
      | true => exact ih _
      | false => exact Prog.asks_pure _

theorem asks_scanLeaves (maxKey : Option (List UInt8)) : ∀ (fuel leafPid : Nat) (minKey : Option (List UInt8)),
    (scanLeaves tree maxKey fuel leafPid minKey).Asks ReadsOrCalls := by
  intro fuel
  induction fuel with
  | zero => exact fun _ _ => Prog.asks_pure _
  | succ fuel ih =>
    intro leafPid minKey
    rw [scanLeaves]
    split
    · exact Prog.asks_pure _
    · refine ((asks_pinPage leafPid).inl fun _ h => h).bind fun page => ?_
      cases page with
      | none => exact Prog.asks_pure _
      | some page =>
        refine (asks_scanLeafEntries tree page maxKey _ _).bind fun done => ?_
        refine ((asks_unpinPage leafPid).inl fun _ h => h).bind fun _ => ?_
        cases done with
        | true => exact Prog.asks_pure _
        | false => exact ih _ _

theorem asks_btreeRangeScan (minKey maxKey : Option (List UInt8)) :
    (btreeRangeScan tree minKey maxKey).Asks ReadsOrCalls := by
  rw [btreeRangeScan]
  split
  · exact Prog.asks_pure _
  · refine ((asks_firstLeaf tree minKey).inl fun _ h => h).bind fun leafPid => ?_
    exact (asks_scanLeaves tree maxKey _ _ _).bind fun _ => Prog.asks_pure _

theorem asks_readPages {α : Type} {p : PageM α} (h : p.Asks Reads) : (readPages p).Asks ReadsOrCollects :=
  (h.inl fun _ h => h : (p.inl : RecordM α).Asks fun o => ReadsOrCollects (.inl o)).inl fun _ h => h

theorem asks_scanChain {callback : RecordId → CollectM Bool} (hcallback : ∀ rid, (callback rid).Asks ReadsOrCollects) :
    ∀ fuel pid : Nat, (scanChain callback fuel pid).Asks ReadsOrCollects := by
  have hpage : ∀ rids : List RecordId, (scanPage callback rids).Asks ReadsOrCollects := by
    intro rids
    induction rids with
    | nil => exact Prog.asks_pure _
    | cons rid rids ih =>
      refine (hcallback rid).bind fun more => ?_
      cases more with
      | true => exact ih
      | false => exact Prog.asks_pure _
  intro fuel
  induction fuel with
  | zero => exact fun _ => Prog.asks_pure _
  | succ fuel ih =>
    intro pid
    rw [scanChain]
    split
    · exact Prog.asks_pure _
    · refine (asks_readPages (asks_pinPage pid)).bind fun page => ?_
      cases page with
      | none => exact Prog.asks_pure _
      | some page =>
        refine (hpage _).bind fun stop => ?_
        refine (asks_readPages (asks_unpinPage pid)).bind fun _ => ?_
        cases stop with
        | true => exact Prog.asks_pure _
        | false => exact ih _

theorem asks_limitReached (limit : Nat) : (limitReached limit).Asks ReadsOrCollects :=
  Prog.Asks.call_bind trivial fun _ => Prog.asks_pure _

theorem asks_timelineRangeCb (limit : Nat) (key value : List UInt8) :
    (timelineRangeCb limit key value).Asks ReadsOrCollects := by
  refine (asks_limitReached limit).bind fun reached => ?_
  cases reached with
  | true => exact Prog.asks_pure _
  | false =>
    refine Prog.Asks.bind (asks_scanChain (fun rid => ?_) _ _) fun _ => Prog.asks_pure _
    refine Prog.Asks.call_bind trivial fun _ => ?_
    exact (asks_limitReached limit).bind fun _ => Prog.asks_pure _

end Asks

/-! ## The whole scan -/

section Scan

variable (allocator : Allocator) (grants : Nat → Bool) (records : Handler RecordSig FlatStore)
  {s : FlatStore} {first limit : Nat}

/-- `timeline_range_cb` as a callback on result sets. -/
def timelineCallback (s : FlatStore) (limit : Nat) : ScanCallback (Option QueryResultSet) := fun key value u =>
  let r := (timelineRangeCb limit key value).run (collecting allocator grants records) (s, u)
  (r.1, r.2.2)

theorem run_timelineRangeCb (limit : Nat) (key value : List UInt8) (u : Option QueryResultSet) :
    (timelineRangeCb limit key value).run (collecting allocator grants records) (s, u) =
      ((timelineCallback allocator grants records s limit key value u).1, s,
        (timelineCallback allocator grants records s limit key value u).2) := by
  have hstore : ((timelineRangeCb limit key value).run (collecting allocator grants records) (s, u)).2.1 = s :=
    Prog.run_preserves_of_asks (I := fun st : FlatStore × Option QueryResultSet => st.1 = s) (by
      rintro ((o | o) | o) ⟨s', u'⟩ ho rfl
      · cases o with
        | pin pid => rfl
        | unpin pid => rfl
        | alloc => exact ho.elim
        | write pid page => exact ho.elim
        | markDirty pid lsn => exact ho.elim
      · exact ho.elim
      · rfl) (asks_timelineRangeCb limit key value) rfl
  exact Prod.ext rfl (Prod.ext hstore rfl)

/-- The scan is a range scan with this callback. -/
theorem run_translate_onRangeScan (tree : BTree) (minKey maxKey : Option (List UInt8))
    (u : Option QueryResultSet) :
    ((btreeRangeScan tree minKey maxKey).translate (onRangeScan (timelineRangeCb limit))).run
        (collecting allocator grants records) (s, u) =
      (btreeRangeScan tree minKey maxKey).run
        ((flatStore allocator grants).beside (timelineCallback allocator grants records s limit).handler)
          (s, u) := by
  rw [Prog.run_translate]
  obtain ⟨hanswer, hstate, -⟩ := Prog.run_simulates_of_asks
    (h := fun o st => (onRangeScan (timelineRangeCb limit) o).run (collecting allocator grants records) st)
    (g := (flatStore allocator grants).beside (timelineCallback allocator grants records s limit).handler)
    (R := fun st st' => st = st' ∧ st.1 = s) (by
      rintro (o | ⟨key, value⟩) ⟨s', u'⟩ st' ho ⟨rfl, rfl⟩
      · cases o with
        | pin pid => exact ⟨rfl, rfl, rfl⟩
        | unpin pid => exact ⟨rfl, rfl, rfl⟩
        | alloc => exact ho.elim
        | write pid page => exact ho.elim
        | markDirty pid lsn => exact ho.elim
      · have hcall := run_timelineRangeCb allocator grants records (s := s') limit key value u'
        exact ⟨congrArg Prod.fst hcall, congrArg Prod.snd hcall, congrArg (fun r => r.2.1) hcall⟩)
    (asks_btreeRangeScan tree minKey maxKey) (s := (s, u)) (t := (s, u)) ⟨rfl, rfl⟩
  exact Prod.ext hanswer hstate

/-- The time that a key is decoded to. -/
def keyTime (k : DupShape.timeline.Key) : Int := timelineKeyDecode (asInt64 (ofLE (k.bytes.take 8)))

/-- The events of the chains of some entries. -/
def listed (chains : DupShape.timeline.Key → Chain) (ps : DupShape.timeline.Entries) : List (RecordId × Int) :=
  ps.flatMap fun p => chainEvents (chains p.1) (keyTime p.1)

/-- **The callback** takes the events of one entry after the other, up to the limit. -/
theorem offer_timelineCallback {chains : DupShape.timeline.Key → Chain}
    (hholds : ∀ k, ChainHolds s (chains k).head (chains k)) (hpos : 0 < limit) :
    ∀ {ps : DupShape.timeline.Entries} {rs : QueryResultSet},
      (∀ p ∈ ps, DupShape.timeline.entry (chains p.1) = some p.2) → Sound first rs → rs.count ≤ limit →
        ((rs.entries ++ listed chains ps).map Prod.fst).Nodup →
          (rs.entries ++ listed chains ps).length ≤ ResultArrays.lastCapacity first → ∃ rs' : QueryResultSet,
            (offer (timelineCallback allocator grants records s limit) (ps.map BTreeShape.pairBytes)
                (some rs)).2 = some rs' ∧
              Sound first rs' ∧ rs'.entries = (rs.entries ++ listed chains ps).take limit := by
  intro ps
  induction ps with
  | nil =>
    intro rs _ hsound hcount _ _
    refine ⟨rs, rfl, hsound, ?_⟩
    rw [show listed chains [] = [] from rfl, List.append_nil, List.take_of_length_le (by simpa using hcount)]
  | cons p ps ih =>
    intro rs hentries hsound hcount hnodup hroom
    obtain ⟨k, v⟩ := p
    have hlisted : listed chains ((k, v) :: ps) = chainEvents (chains k) (keyTime k) ++ listed chains ps :=
      List.flatMap_cons
    rw [hlisted, ← List.append_assoc] at hnodup hroom ⊢
    rw [List.map_cons, BTreeShape.pairBytes, offer]
    by_cases hfull : limit ≤ rs.count
    · -- the limit was reached before
      have hcall : timelineCallback allocator grants records s limit k.bytes v.1 (some rs) = (false, some rs) := by
        simp only [timelineCallback, timelineRangeCb, Prog.run_bind, run_limitReached, collectedCount, hfull,
          hpos, and_self, decide_true, if_true, Prog.run_pure]
      rw [hcall]
      refine ⟨rs, rfl, hsound, ?_⟩
      rw [List.append_assoc, List.take_left' (by rw [ResultArrays.length_entries]; omega)]
    · obtain ⟨pid, hpid, hlt, rfl⟩ : ∃ pid, (chains k).head = pid ∧ pid < 256 ^ 4 ∧
          v = DupShape.timeline.value pid := by
        have hentry := hentries (k, v) List.mem_cons_self
        dsimp only at hentry
        cases hchain : chains k with
        | nil =>
          rw [hchain] at hentry
          cases hentry
        | cons p post =>
          have hlive := (hholds k).live p.1 (by rw [hchain]; exact List.mem_cons_self)
          rw [hchain, DupShape.entry_cons] at hentry
          exact ⟨p.1, rfl, hlive.lt_word, (Option.some.inj hentry).symm⟩
      have hword : ofLE ((DupShape.timeline.value pid).1.take 4) = (chains k).head := by
        rw [hpid]
        exact ofLE_toLE_of_lt hlt
      rw [List.map_append, List.map_append, map_fst_chainEvents] at hnodup
      rw [List.length_append, List.length_append, length_chainEvents, ResultArrays.length_entries] at hroom
      obtain ⟨rs₁, hrun, hsound₁, hentries₁⟩ := run_scanChain allocator grants records (keyTime k) (hholds k)
        (hholds k).length_lt.le hsound (Nat.lt_of_not_le hfull) (List.nodup_append.mp hnodup).1 (by omega)
      have hcall : timelineCallback allocator grants records s limit k.bytes (DupShape.timeline.value pid).1
          (some rs) = (!decide (limit ≤ rs.count + (chains k).lists.flatten.length), some rs₁) := by
        simp only [timelineCallback, timelineRangeCb, Prog.run_bind, run_limitReached, collectedCount, hfull,
          and_false, decide_false, Bool.false_eq_true, if_false, hword]
        rw [show timelineKeyDecode (asInt64 (ofLE (k.bytes.take 8))) = keyTime k from rfl, hrun]
        rfl
      rw [hcall]
      by_cases hstop : limit ≤ rs.count + (chains k).lists.flatten.length
      · -- the limit is reached in this chain
        rw [decide_eq_true hstop]
        refine ⟨rs₁, rfl, hsound₁, hentries₁.trans (List.take_append_of_le_length ?_).symm⟩
        rw [List.length_append, ResultArrays.length_entries, length_chainEvents]
        exact hstop
      · rw [decide_eq_false hstop]
        have hlength : (rs.entries ++ chainEvents (chains k) (keyTime k)).length =
            rs.count + (chains k).lists.flatten.length := by
          rw [List.length_append, ResultArrays.length_entries, length_chainEvents]
        rw [List.take_of_length_le (by omega)] at hentries₁
        have hcount₁ : rs₁.count = rs.count + (chains k).lists.flatten.length := by
          rw [← hlength, ← hentries₁, ResultArrays.length_entries]
        rw [← hentries₁]
        refine ih (fun p hp => hentries p (List.mem_cons_of_mem _ hp)) hsound₁ (by omega) ?_ ?_
        · rw [List.map_append, hentries₁, List.map_append, map_fst_chainEvents]
          exact hnodup
        · rw [List.length_append, ResultArrays.length_entries, hcount₁]
          exact hroom

/-- The key of a bound; 0 and the negative are none. -/
def boundKey (bound : Int) : Option DupShape.timeline.Key := if 0 < bound then some (timelineKey bound) else none

theorem map_boundKey (bound : Int) : (boundKey bound).map Key.bytes =
    if 0 < bound then some (int64Bytes (timelineKeyEncode bound)) else none := by
  rw [boundKey]
  split <;> rfl

/-- **What the timeline scan adds** to a new set. -/
theorem run_queryTimelineScan {im : IndexManager} {es : DupShape.timeline.Entries}
    {chains : DupShape.timeline.Key → Chain} (hwf : BTreeShape.WellFormed s im.timelineIndex es)
    (hentries : ∀ p ∈ es, DupShape.timeline.entry (chains p.1) = some p.2)
    (hholds : ∀ k, ChainHolds s (chains k).head (chains k)) (filter : NostrDBFilter)
    (hnodup : ((listed chains es).map Prod.fst).Nodup) (hfew : (listed chains es).length ≤ 2 ^ 31)
    {capacity : Nat} (hcapacity : capacity < 2 ^ 32) : ∃ rs : QueryResultSet,
      (queryTimelineScan im filter).run (collecting allocator grants records)
          (s, some (queryResultCreate capacity)) = (.ok, s, some rs) ∧
        rs.entries = (listed chains (inRange (boundKey filter.until_) (boundKey filter.since) es)).take
          filter.effectiveLimit := by
  have hpos : 0 < filter.effectiveLimit := by
    rw [NostrDBFilter.effectiveLimit]
    split
    · assumption
    · decide
  have hsub : (listed chains (inRange (boundKey filter.until_) (boundKey filter.since) es)).Sublist
      (listed chains es) := List.filter_sublist.flatMap _
  have hsound := sound_create hcapacity
  have hlast := le_lastCapacity_of_pos hsound.grown.pos hsound.grown.lt
  obtain ⟨rs, hoffer, -, hresult⟩ := offer_timelineCallback allocator grants records hholds hpos
    (fun p (hp : p ∈ inRange (boundKey filter.until_) (boundKey filter.since) es) =>
      hentries p (List.mem_of_mem_filter hp)) hsound (Nat.zero_le _)
    (by
      rw [show (queryResultCreate capacity).entries = [] from rfl, List.nil_append]
      exact hnodup.sublist (hsub.map _))
    (by
      rw [show (queryResultCreate capacity).entries = [] from rfl, List.nil_append]
      exact hsub.length_le.trans (hfew.trans hlast))
  refine ⟨rs, ?_, hresult⟩
  have hscan := (btreeRangeScan_exact allocator grants
    (timelineCallback allocator grants records s filter.effectiveLimit) hwf (boundKey filter.until_)
    (boundKey filter.since) (some (queryResultCreate capacity))).2
  rw [queryTimelineScan, run_translate_onRangeScan, ← map_boundKey, ← map_boundKey, hscan, hoffer]

end Scan

end Engine

end OnionRelay.Db
