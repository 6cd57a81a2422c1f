import Mathlib.Data.List.DropRight
import OnionRelay.Db.EventLog

/-!
# Queries by author and kind

The message handlers build one kind of filter: `nostr_db_filter_init`, then one
author of full length, one kind and a limit.  For it `query_execute` scans the
chain of that key up to the limit, drops what `query_post_filter` does not
accept, and sorts by the time `read_created_at` reports, newest first.

`perm_queryExecute` says what comes out: the first `limit` entries of the chain,
in some order.
-/

namespace OnionRelay.Db

/-- The filter of the handlers. -/
structure NostrDBFilter where
  author : Bytes 32
  kind : Nat
  limit : Nat

/-- A collected record id and the time it is sorted by. -/
abbrev QueryResult := Nat × Int

/-- `query_result_add`; a record id is kept once. -/
def queryResultAdd (rs : List QueryResult) (rid : Nat) (createdAt : Int) : List QueryResult :=
  if rid ∈ rs.map Prod.fst then rs else rs ++ [(rid, createdAt)]

/-- The entries `btree_scan_key` passes to `scan_collect_cb`, until it stops. -/
def scanCollect (log : EventLog) (limit : Nat) : List Nat → List QueryResult → List QueryResult
  | [], rs => rs
  | rid :: rids, rs =>
    if 0 < limit ∧ limit ≤ rs.length then rs
    else
      let createdAt := match log.records[rid]? with
        | some rec => readCreatedAt rec
        | none => 0
      let rs := queryResultAdd rs rid createdAt
      if 0 < limit ∧ limit ≤ rs.length then rs else scanCollect log limit rids rs

/-- `query_post_filter` for one entry. -/
def postFilter (log : EventLog) (filter : NostrDBFilter) (result : QueryResult) : Bool :=
  match log.records[result.1]? with
  | none => false
  | some rec => !rec.deleted && rec.kind == filter.kind && rec.pubkey == filter.author

/-- One round of the insertion sort: the key goes behind the last entry of the
sorted part that is not older. -/
def insertNewestFirst (sorted : List QueryResult) (key : QueryResult) : List QueryResult :=
  sorted.rdropWhile (fun r => r.2 < key.2) ++ key :: sorted.rtakeWhile (fun r => r.2 < key.2)

/-- `query_result_sort`. -/
def queryResultSort (rs : List QueryResult) : List QueryResult := rs.foldl insertNewestFirst []

/-- `nostr_db_result_add` over all results; an offset is kept once. -/
def resultOffsets : List Nat → List Nat → List Nat
  | [], offsets => offsets
  | rid :: rids, offsets =>
    resultOffsets rids (if rid ∈ offsets then offsets else offsets ++ [rid])

/-- What `query_execute` leaves in its result set. -/
abbrev QueryEngine := NostrDBFilter → EventLog → List Nat

/-- `query_execute`. -/
def queryExecute : QueryEngine := fun filter log =>
  if filter.limit = 0 then []
  else
    let rs := scanCollect log filter.limit (log.chains filter.author filter.kind).flatten []
    let rs := queryResultSort (rs.filter (postFilter log filter))
    (rs.take filter.limit).map Prod.fst

/-- `nostr_db_query_execute` over a query engine, once its result set is allocated. -/
def nostrDbQueryExecute (engine : QueryEngine) (filter : NostrDBFilter) (log : EventLog) :
    List Nat := resultOffsets (engine filter log) []

/-! ## What a query returns -/

theorem perm_insertNewestFirst (sorted : List QueryResult) (key : QueryResult) :
    (insertNewestFirst sorted key).Perm (key :: sorted) := by
  rw [insertNewestFirst]
  refine List.perm_middle.trans (List.Perm.cons key ?_)
  rw [List.rdropWhile_append_rtakeWhile]

theorem perm_queryResultSort (rs : List QueryResult) : (queryResultSort rs).Perm rs := by
  have hfold : ∀ (rs sorted : List QueryResult),
      (rs.foldl insertNewestFirst sorted).Perm (rs ++ sorted) := by
    intro rs
    induction rs with
    | nil => intro sorted; exact List.Perm.refl _
    | cons r rs ih =>
      intro sorted
      exact (ih _).trans (((perm_insertNewestFirst sorted r).append_left rs).trans List.perm_middle)
  simpa [queryResultSort] using hfold rs []

theorem nodup_resultOffsets : ∀ (rids offsets : List Nat), offsets.Nodup →
    (resultOffsets rids offsets).Nodup := by
  intro rids
  induction rids with
  | nil => intro offsets h; exact h
  | cons rid rids ih =>
    intro offsets h
    rw [resultOffsets]
    split
    · exact ih offsets h
    · rename_i hnot
      refine ih _ (List.nodup_append.mpr ⟨h, by simp, fun a ha b hb => ?_⟩)
      rintro rfl
      exact hnot (List.mem_singleton.mp hb ▸ ha)

theorem mem_resultOffsets {rid : Nat} : ∀ {rids offsets : List Nat},
    rid ∈ resultOffsets rids offsets ↔ rid ∈ offsets ∨ rid ∈ rids := by
  intro rids
  induction rids with
  | nil => intro offsets; simp [resultOffsets]
  | cons r rids ih =>
    intro offsets
    rw [resultOffsets, ih, List.mem_cons]
    split
    · rename_i hr
      constructor
      · rintro (h | h)
        · exact .inl h
        · exact .inr (.inr h)
      · rintro (h | rfl | h)
        · exact .inl h
        · exact .inl hr
        · exact .inr h
    · rw [List.mem_append, List.mem_singleton, or_assoc]

theorem resultOffsets_eq : ∀ (rids offsets : List Nat), (offsets ++ rids).Nodup →
    resultOffsets rids offsets = offsets ++ rids := by
  intro rids
  induction rids with
  | nil => intro offsets _; rw [resultOffsets, List.append_nil]
  | cons rid rids ih =>
    intro offsets h
    have hnot : rid ∉ offsets := fun hmem =>
      (List.nodup_append.mp h).2.2 rid hmem rid List.mem_cons_self rfl
    rw [resultOffsets, if_neg hnot, ih _ (by simpa using h)]
    simp

/-- A scan of distinct entries collects them in order, up to the limit. -/
theorem scanCollect_fst (log : EventLog) {limit : Nat} (hlimit : 0 < limit) :
    ∀ (rids : List Nat) (rs : List QueryResult), (rs.map Prod.fst ++ rids).Nodup →
      (scanCollect log limit rids rs).map Prod.fst =
        rs.map Prod.fst ++ rids.take (limit - rs.length) := by
  intro rids
  induction rids with
  | nil => intro rs _; rw [scanCollect, List.take_nil, List.append_nil]
  | cons rid rids ih =>
    intro rs h
    have hnot : rid ∉ rs.map Prod.fst := fun hmem =>
      (List.nodup_append.mp h).2.2 rid hmem rid List.mem_cons_self rfl
    rw [scanCollect]
    by_cases hfull : limit ≤ rs.length
    · rw [if_pos ⟨hlimit, hfull⟩, Nat.sub_eq_zero_of_le hfull, List.take_zero, List.append_nil]
    · rw [if_neg (fun hc => hfull hc.2)]
      simp only [queryResultAdd, if_neg hnot, List.length_append, List.length_singleton]
      obtain ⟨n, hn⟩ : ∃ n, limit - rs.length = n + 1 := ⟨limit - rs.length - 1, by omega⟩
      rw [hn, List.take_succ_cons]
      by_cases hlast : limit ≤ rs.length + 1
      · rw [if_pos ⟨hlimit, hlast⟩, show n = 0 by omega]
        simp
      · rw [if_neg (fun hc => hlast hc.2), ih _ (by simpa using h)]
        simp [show limit - (rs.length + 1) = n by omega]

/-- **A query returns the first `limit` entries of the chain**, in some order. -/
theorem perm_queryExecute (log : EventLog) {filter : NostrDBFilter} (hlimit : 0 < filter.limit) :
    (queryExecute filter log).Perm
      ((log.chains filter.author filter.kind).flatten.take filter.limit) := by
  have hnodup := log.chain_nodup filter.author filter.kind
  have hscan := scanCollect_fst log hlimit (log.chains filter.author filter.kind).flatten []
    (by simpa using hnodup)
  rw [List.map_nil, List.nil_append, List.length_nil, Nat.sub_zero] at hscan
  have hkeep : (scanCollect log filter.limit (log.chains filter.author filter.kind).flatten
      []).filter (postFilter log filter) =
      scanCollect log filter.limit (log.chains filter.author filter.kind).flatten [] := by
    rw [List.filter_eq_self]
    intro r hr
    have hmem : r.1 ∈ (log.chains filter.author filter.kind).flatten :=
      List.mem_of_mem_take (hscan ▸ List.mem_map_of_mem hr)
    obtain ⟨rec, hrec, hd, hp, hk⟩ := (log.mem_chain _ _ _).mp hmem
    simp [postFilter, hrec, hd, hp, hk]
  have hsort := (perm_queryResultSort
    (scanCollect log filter.limit (log.chains filter.author filter.kind).flatten [])).map Prod.fst
  rw [hscan] at hsort
  have hlen : (queryResultSort (scanCollect log filter.limit
      (log.chains filter.author filter.kind).flatten [])).length ≤ filter.limit := by
    have := hsort.length_eq
    rw [List.length_map, List.length_take] at this
    omega
  rw [queryExecute, if_neg (by omega)]
  simp only [hkeep, List.take_of_length_le hlen]
  exact hsort

/-- Queries return live events that match the filter, and nothing else. -/
def QueryEngine.Sound (engine : QueryEngine) : Prop :=
  ∀ filter log, ∀ rid ∈ engine filter log, ∃ rec, log.records[rid]? = some rec ∧
    rec.deleted = false ∧ rec.pubkey = filter.author ∧ rec.kind = filter.kind

theorem sound_queryExecute : queryExecute.Sound := by
  intro filter log rid h
  have hlimit : 0 < filter.limit := by
    by_contra h0
    rw [queryExecute, if_pos (by omega)] at h
    exact absurd h (by simp)
  exact (log.mem_chain _ _ _).mp (List.mem_of_mem_take ((perm_queryExecute log hlimit).mem_iff.mp h))

/-- Queries return the live events that match the filter, all of them when the
limit does not cut them. -/
structure QueryEngine.Exact (engine : QueryEngine) : Prop where
  sound : engine.Sound
  complete : ∀ filter log, 0 < filter.limit →
    (log.chains filter.author filter.kind).flatten.length ≤ filter.limit →
      ∀ rid ∈ (log.chains filter.author filter.kind).flatten, rid ∈ engine filter log

theorem exact_queryExecute : queryExecute.Exact where
  sound := sound_queryExecute
  complete := by
    intro filter log hlimit hlen rid hrid
    rwa [(perm_queryExecute log hlimit).mem_iff, List.take_of_length_le hlen]

theorem nodup_nostrDbQueryExecute (engine : QueryEngine) (filter : NostrDBFilter)
    (log : EventLog) : (nostrDbQueryExecute engine filter log).Nodup :=
  nodup_resultOffsets _ _ List.nodup_nil

theorem mem_nostrDbQueryExecute {engine : QueryEngine} {filter : NostrDBFilter} {log : EventLog}
    {rid : Nat} : rid ∈ nostrDbQueryExecute engine filter log ↔ rid ∈ engine filter log := by
  rw [nostrDbQueryExecute, mem_resultOffsets]
  simp

/-- The engine never returns a record twice, so nothing is dropped. -/
theorem nostrDbQueryExecute_queryExecute (filter : NostrDBFilter) (log : EventLog) :
    nostrDbQueryExecute queryExecute filter log = queryExecute filter log := by
  have hnodup : (queryExecute filter log).Nodup := by
    by_cases hlimit : filter.limit = 0
    · rw [queryExecute, if_pos hlimit]
      exact List.nodup_nil
    · rw [(perm_queryExecute log (by omega)).nodup_iff]
      exact (log.chain_nodup _ _).sublist (List.take_sublist _ _)
  rw [nostrDbQueryExecute, resultOffsets_eq _ _ (by simpa using hnodup), List.nil_append]

end OnionRelay.Db
