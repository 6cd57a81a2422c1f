import Mathlib.Algebra.Order.BigOperators.Group.Finset
import Mathlib.Data.List.Perm.Basic
import OnionRelay.Db.DupMultimap
import OnionRelay.Db.EventRead
import OnionRelay.Db.TimelineScan

/-!
# Time in the timeline index

The key of a time from 1970 on is `INT64_MAX` less the time; that of a negative one wraps
to a negative number.  So a scan comes to the negative times first, and a bound above 0
shuts them out or lets them all in.  `queryTimelineScan_iff` says when the events it adds
are still the newest between the bounds.
-/

namespace OnionRelay.Db.Engine

open OnionRelay.Lib BTreeShape

/-! ## The order of the keys -/

theorem timelineKeyEncode_of_nonneg {t : Int} (h : InInt64 t) (hsign : 0 ≤ t) :
    timelineKeyEncode t = 2 ^ 63 - 1 - t := by
  obtain ⟨-, hhigh⟩ := h
  exact asInt64_eq ⟨by rw [int64Max]; omega, by rw [int64Max]; omega⟩

theorem timelineKeyEncode_of_neg {t : Int} (h : InInt64 t) (hsign : t < 0) :
    timelineKeyEncode t = -2 ^ 63 - 1 - t := by
  obtain ⟨hlow, -⟩ := h
  have hwrap : asInt64 (int64Max - t) = asInt64 (int64Max - t - ((2 ^ 64 : Nat) : Int)) := by
    rw [asInt64, asInt64, Int.sub_bmod_right]
  have hdiff : int64Max - t - ((2 ^ 64 : Nat) : Int) = -2 ^ 63 - 1 - t := by
    rw [int64Max]
    omega
  rw [timelineKeyEncode, hwrap, hdiff]
  exact asInt64_eq ⟨by omega, by omega⟩

/-- The scan comes to the first time before the second: negative times are in front. -/
def Ahead (t u : Int) : Prop := (t < 0 ∧ 0 ≤ u) ∨ ((t < 0 ↔ u < 0) ∧ u < t)

instance (t u : Int) : Decidable (Ahead t u) := inferInstanceAs (Decidable (_ ∨ _))

theorem timelineKeyEncode_lt_iff {t u : Int} (ht : InInt64 t) (hu : InInt64 u) :
    timelineKeyEncode t < timelineKeyEncode u ↔ Ahead t u := by
  obtain ⟨htlow, hthigh⟩ := id ht
  obtain ⟨hulow, huhigh⟩ := id hu
  rcases Int.lt_or_le t 0 with htsign | htsign <;> rcases Int.lt_or_le u 0 with husign | husign
  · rw [timelineKeyEncode_of_neg ht htsign, timelineKeyEncode_of_neg hu husign, Ahead]
    omega
  · rw [timelineKeyEncode_of_neg ht htsign, timelineKeyEncode_of_nonneg hu husign, Ahead]
    omega
  · rw [timelineKeyEncode_of_nonneg ht htsign, timelineKeyEncode_of_neg hu husign, Ahead]
    omega
  · rw [timelineKeyEncode_of_nonneg ht htsign, timelineKeyEncode_of_nonneg hu husign, Ahead]
    omega

/-! ## What is asked for and what is reported -/

/-- The time is within the bounds of the filter, 0 being none. -/
def Matches (filter : NostrDBFilter) (t : Int) : Prop :=
  (filter.since ≠ 0 → filter.since ≤ t) ∧ (filter.until_ ≠ 0 → t ≤ filter.until_)

/-- The scan comes to the time: a bound counts from 1 on, `since` lets all negative times
in and `until` none. -/
def Reported (filter : NostrDBFilter) (t : Int) : Prop :=
  (0 < filter.since → t < 0 ∨ filter.since ≤ t) ∧ (0 < filter.until_ → 0 ≤ t ∧ t ≤ filter.until_)

instance (filter : NostrDBFilter) (t : Int) : Decidable (Matches filter t) := inferInstanceAs (Decidable (_ ∧ _))

instance (filter : NostrDBFilter) (t : Int) : Decidable (Reported filter t) := inferInstanceAs (Decidable (_ ∧ _))

/-- The events that are both. -/
def rightful (filter : NostrDBFilter) (events : List (RecordId × Int)) : List (RecordId × Int) :=
  events.filter fun e => decide (Matches filter e.2 ∧ Reported filter e.2)

/-- The newest of the events between the bounds, newest first, as many as the limit says. -/
def NewestMatching (filter : NostrDBFilter) (events result : List (RecordId × Int)) : Prop :=
  ∃ order : List (RecordId × Int), order.Perm (events.filter fun e => decide (Matches filter e.2)) ∧
    order.Pairwise (fun x y => y.2 ≤ x.2) ∧ result = order.take filter.effectiveLimit

/-- Where the key order does not show: what is left out or reported wrongly lies behind the
limit, and no negative time is reported together with a rightful one from 1970 on. -/
structure InTime (filter : NostrDBFilter) (events : List (RecordId × Int)) : Prop where
  leftOut : ∀ e ∈ events, Matches filter e.2 → ¬ Reported filter e.2 →
    filter.effectiveLimit ≤ (rightful filter events).length
  wrong : ∀ e ∈ events, Reported filter e.2 → ¬ Matches filter e.2 →
    filter.effectiveLimit ≤ ((rightful filter events).filter fun x => decide (Ahead x.2 e.2)).length
  older : ∀ x ∈ events, Reported filter x.2 → x.2 < 0 → ∀ y ∈ rightful filter events, y.2 < 0

theorem mem_rightful {filter : NostrDBFilter} {events : List (RecordId × Int)} {e : RecordId × Int} :
    e ∈ rightful filter events ↔ e ∈ events ∧ Matches filter e.2 ∧ Reported filter e.2 := by
  rw [rightful, List.mem_filter, decide_eq_true_iff]

theorem effectiveLimit_pos (filter : NostrDBFilter) : 0 < filter.effectiveLimit := by
  rw [NostrDBFilter.effectiveLimit]
  split
  · assumption
  · decide

/-! ## Lists in the order of the keys -/

/-- In front of an entry among the first `n` there are fewer than `n`. -/
theorem length_filter_ahead_lt {β : Type} {ahead : β → β → Prop} [DecidableRel ahead] : ∀ {n : Nat} {l : List β} {x : β},
    l.Pairwise (fun a b => ¬ ahead b a) → (∀ a, ¬ ahead a a) → x ∈ l.take n →
      (l.filter fun a => decide (ahead a x)).length < n := by
  intro n
  induction n with
  | zero => exact fun _ _ hx => absurd hx (by rw [List.take_zero]; exact List.not_mem_nil)
  | succ n ih =>
    intro l x hl hirrefl hx
    cases l with
    | nil => exact absurd hx (by rw [List.take_nil]; exact List.not_mem_nil)
    | cons b l =>
      rw [List.take_succ_cons, List.mem_cons] at hx
      have hrest := List.pairwise_cons.mp hl
      rcases hx with rfl | hx
      · have hnone : ((x :: l).filter fun a => decide (ahead a x)) = [] := by
          refine List.filter_eq_nil_iff.mpr fun a ha => ?_
          rw [decide_eq_true_iff]
          rcases List.mem_cons.mp ha with rfl | ha
          · exact hirrefl a
          · exact hrest.1 a ha
        rw [hnone]
        exact Nat.succ_pos n
      · have htail := ih hrest.2 hirrefl hx
        rw [List.filter_cons]
        split
        · rw [List.length_cons]
          omega
        · omega

theorem ahead_or_eq {t u : Int} (h : ¬ Ahead u t) : Ahead t u ∨ t = u := by
  rw [Ahead] at *
  omega

theorem InTime.le_of_not_ahead {filter : NostrDBFilter} {events : List (RecordId × Int)} (h : InTime filter events)
    {x y : RecordId × Int} (hx : x ∈ events) (hreported : Reported filter x.2) (hy : y ∈ rightful filter events)
    (hahead : ¬ Ahead y.2 x.2) : y.2 ≤ x.2 := by
  by_contra hlt
  rw [Ahead] at hahead
  have hsign : x.2 < 0 ∧ 0 ≤ y.2 := by omega
  have hneg := h.older x hx hreported hsign.1 y hy
  omega

section Selection

variable {filter : NostrDBFilter} {events reported : List (RecordId × Int)} (hevents : events.Nodup)
  (hperm : reported.Perm (events.filter fun e => decide (Reported filter e.2)))
  (hsorted : reported.Pairwise fun x y => ¬ Ahead y.2 x.2)

include hperm in
theorem mem_reported {e : RecordId × Int} : e ∈ reported ↔ e ∈ events ∧ Reported filter e.2 := by
  rw [hperm.mem_iff, List.mem_filter, decide_eq_true_iff]

include hevents hperm hsorted

/-- Behind the limit the key order does not show. -/
theorem inTime_of_newestMatching (h : NewestMatching filter events (reported.take filter.effectiveLimit)) :
    InTime filter events := by
  obtain ⟨order, horder, hdesc, hresult⟩ := h
  have hmemOrder : ∀ e, e ∈ order ↔ e ∈ events ∧ Matches filter e.2 := fun e => by
    rw [horder.mem_iff, List.mem_filter, decide_eq_true_iff]
  have hnodupOrder : order.Nodup := horder.nodup_iff.mpr (hevents.filter _)
  have hnodup : reported.Nodup := hperm.nodup_iff.mpr (hevents.filter _)
  have hresults : ∀ e ∈ order.take filter.effectiveLimit, e ∈ rightful filter events := by
    intro e he
    have hmatches := (hmemOrder e).mp (List.mem_of_mem_take he)
    exact mem_rightful.mpr ⟨hmatches.1, hmatches.2,
      ((mem_reported hperm).mp (List.mem_of_mem_take (hresult ▸ he))).2⟩
  refine ⟨fun e he hmatches hnot => ?_, fun e he hrep hnot => ?_, fun x hx hrep hneg y hy => ?_⟩
  · by_contra hfew
    have hle := (List.subperm_of_subset (hnodupOrder.sublist (List.take_sublist _ _)) hresults).length_le
    rw [List.length_take] at hle
    have hwhole : order.take filter.effectiveLimit = order := List.take_of_length_le (by omega)
    have hmem := hwhole.symm ▸ (hmemOrder e).mpr ⟨he, hmatches⟩
    exact hnot (mem_rightful.mp (hresults e hmem)).2.2
  · -- what is reported and does not match comes behind the first events, which all match
    have hmem : e ∈ reported := (mem_reported hperm).mpr ⟨he, hrep⟩
    rw [← List.take_append_drop filter.effectiveLimit reported] at hmem hsorted
    have hbehind : e ∈ reported.drop filter.effectiveLimit := by
      refine (List.mem_append.mp hmem).resolve_left fun hfront => hnot ?_
      exact (mem_rightful.mp (hresults e (hresult ▸ hfront))).2.1
    have hlong : filter.effectiveLimit < reported.length := by
      by_contra hshort
      rw [List.drop_of_length_le (by omega)] at hbehind
      exact absurd hbehind List.not_mem_nil
    have hsub : reported.take filter.effectiveLimit ⊆
        (rightful filter events).filter fun x => decide (Ahead x.2 e.2) := by
      intro x hx
      have hright := hresults x (hresult ▸ hx)
      refine List.mem_filter.mpr ⟨hright, decide_eq_true ?_⟩
      refine (ahead_or_eq ((List.pairwise_append.mp hsorted).2.2 x hx e hbehind)).resolve_right fun heq => ?_
      exact hnot (heq ▸ (mem_rightful.mp hright).2.1)
    have hle := (List.subperm_of_subset (hnodup.sublist (List.take_sublist _ _)) hsub).length_le
    rwa [List.length_take, Nat.min_eq_left hlong.le] at hle
  · -- the first event reported is the newest of those asked for
    obtain ⟨n, hlimit⟩ := Nat.exists_eq_add_one_of_ne_zero (effectiveLimit_pos filter).ne'
    have hxmem := (mem_reported hperm).mpr ⟨hx, hrep⟩
    have hymem := (hmemOrder y).mpr ⟨(mem_rightful.mp hy).1, (mem_rightful.mp hy).2.1⟩
    obtain ⟨b, reported', rfl⟩ := List.exists_cons_of_ne_nil (List.ne_nil_of_mem hxmem)
    obtain ⟨c, order', rfl⟩ := List.exists_cons_of_ne_nil (List.ne_nil_of_mem hymem)
    rw [hlimit, List.take_succ_cons, List.take_succ_cons] at hresult
    obtain rfl := (List.cons.inj hresult).1
    have hfirst : b.2 < 0 := by
      rcases List.mem_cons.mp hxmem with rfl | hxmem
      · exact hneg
      · have hahead := (List.pairwise_cons.mp hsorted).1 x hxmem
        rw [Ahead] at hahead
        omega
    rcases List.mem_cons.mp hymem with rfl | hymem
    · exact hfirst
    · exact lt_of_le_of_lt ((List.pairwise_cons.mp hdesc).1 y hymem) hfirst

theorem newestMatching_of_inTime (h : InTime filter events) :
    NewestMatching filter events (reported.take filter.effectiveLimit) := by
  have hnodup : reported.Nodup := hperm.nodup_iff.mpr (hevents.filter _)
  have hsub : rightful filter events ⊆ reported := fun e he =>
    (mem_reported hperm).mpr ⟨(mem_rightful.mp he).1, (mem_rightful.mp he).2.2⟩
  have hnodupRightful : (rightful filter events).Nodup := hevents.filter _
  -- whatever is reported within the limit matches
  have hfront : ∀ e ∈ reported.take filter.effectiveLimit, e ∈ rightful filter events := by
    intro e he
    have hmem := (mem_reported hperm).mp (List.mem_of_mem_take he)
    by_contra hnot
    have hlimit := h.wrong e hmem.1 hmem.2 fun hmatches => hnot (mem_rightful.mpr ⟨hmem.1, hmatches, hmem.2⟩)
    have hahead := @length_filter_ahead_lt _ (fun x y : RecordId × Int => Ahead x.2 y.2) _ _ _ _ hsorted
      (fun a => by rw [Ahead]; omega) he
    have hle := (List.subperm_of_subset (hnodupRightful.filter fun x => decide (Ahead x.2 e.2))
      (List.filter_subset _ hsub)).length_le
    omega
  have hdesc : (reported.take filter.effectiveLimit).Pairwise fun x y => y.2 ≤ x.2 := by
    refine (hsorted.sublist (List.take_sublist _ _)).imp_of_mem fun hx hy hahead => ?_
    have hx' := (mem_reported hperm).mp (List.mem_of_mem_take hx)
    exact h.le_of_not_ahead hx'.1 hx'.2 (hfront _ hy) hahead
  set front := reported.take filter.effectiveLimit with hfrontDef
  set rest := (events.filter fun e => decide (Matches filter e.2)).filter fun e => decide (e ∉ front) with hrest
  have hmemRest : ∀ e, e ∈ rest ↔ (e ∈ events ∧ Matches filter e.2) ∧ e ∉ front := fun e => by
    rw [hrest, List.mem_filter, List.mem_filter, decide_eq_true_iff, decide_eq_true_iff]
  let newer : RecordId × Int → RecordId × Int → Bool := fun x y => decide (y.2 ≤ x.2)
  have hfrontPerm : front.Perm ((events.filter fun e => decide (Matches filter e.2)).filter fun e =>
      decide (e ∈ front)) := by
    refine (List.perm_ext_iff_of_nodup (hnodup.sublist (List.take_sublist _ _))
      ((hevents.filter _).filter _)).mpr fun e => ?_
    rw [List.mem_filter, List.mem_filter, decide_eq_true_iff, decide_eq_true_iff]
    refine ⟨fun he => ⟨⟨(mem_rightful.mp (hfront e he)).1, (mem_rightful.mp (hfront e he)).2.1⟩, he⟩, And.right⟩
  refine ⟨front ++ rest.mergeSort newer, ?_, ?_, ?_⟩
  · refine (hfrontPerm.append (List.mergeSort_perm rest newer)).trans ?_
    rw [hrest]
    simpa only [decide_not] using List.filter_append_perm (fun e => decide (e ∈ front))
      (events.filter fun e => decide (Matches filter e.2))
  · rw [List.pairwise_append]
    refine ⟨hdesc, ?_, fun x hx y hy => ?_⟩
    · refine (@List.pairwise_mergeSort _ newer (fun a b c hab hbc => ?_) (fun a b => ?_) rest).imp
        fun hle => of_decide_eq_true hle
      · exact decide_eq_true (le_trans (of_decide_eq_true hbc) (of_decide_eq_true hab))
      · rw [Bool.or_eq_true, decide_eq_true_iff, decide_eq_true_iff]
        exact le_total _ _
    · -- an event that was not among the first is older than each of them
      have hx' := mem_rightful.mp (hfront x hx)
      obtain ⟨⟨hmem, hmatches⟩, hnot⟩ := (hmemRest y).mp (List.mem_mergeSort.mp hy)
      by_cases hrep : Reported filter y.2
      · have hin : y ∈ reported := (mem_reported hperm).mpr ⟨hmem, hrep⟩
        rw [← List.take_append_drop filter.effectiveLimit reported] at hin hsorted
        have hbehind := (List.mem_append.mp hin).resolve_left hnot
        exact h.le_of_not_ahead hx'.1 hx'.2.2 (mem_rightful.mpr ⟨hmem, hmatches, hrep⟩)
          ((List.pairwise_append.mp hsorted).2.2 x hx y hbehind)
      · obtain ⟨-, hxhigh⟩ := hx'.2.2
        rw [Reported] at hrep
        rw [Matches] at hmatches
        omega
  · by_cases hlong : filter.effectiveLimit ≤ reported.length
    · rw [List.take_left' (by rw [hfrontDef, List.length_take, Nat.min_eq_left hlong])]
    · -- everything was reported
      have hall : front = reported := List.take_of_length_le (by omega)
      have hnone : rest = [] := by
        refine List.eq_nil_iff_forall_not_mem.mpr fun e he => ?_
        obtain ⟨⟨hmem, hmatches⟩, hnot⟩ := (hmemRest e).mp he
        have hunreported : ¬ Reported filter e.2 := fun hrep =>
          hnot (hall ▸ (mem_reported hperm).mpr ⟨hmem, hrep⟩)
        have hfull := h.leftOut e hmem hmatches hunreported
        have hle := (List.subperm_of_subset hnodupRightful hsub).length_le
        omega
      rw [hnone, List.mergeSort_nil, List.append_nil, List.take_of_length_le (by rw [hall]; omega)]

end Selection

/-! ## How many records there can be -/

/-- Live records of `n` bytes each take their room. -/
theorem mul_length_le_bytes {n : Nat} : ∀ {is : List Nat} {slots : Slots}, is.Nodup →
    (∀ i ∈ is, ∃ bytes, slots[i]? = some (some bytes) ∧ n ≤ bytes.length) → n * is.length ≤ slots.bytes := by
  intro is
  induction is with
  | nil => exact fun _ _ => Nat.zero_le _
  | cons i is ih =>
    intro slots hnodup hstored
    obtain ⟨hnew, hrest⟩ := List.nodup_cons.mp hnodup
    obtain ⟨bytes, hbytes, hlength⟩ := hstored i List.mem_cons_self
    have hset := Slots.bytes_set hbytes none
    have hle := @ih (slots.set i none) hrest fun j hj => by
      obtain ⟨bytes', hbytes', hlength'⟩ := hstored j (List.mem_cons_of_mem i hj)
      have hne : i ≠ j := fun heq => hnew (heq ▸ hj)
      exact ⟨bytes', (List.getElem?_set_ne hne).trans hbytes', hlength'⟩
    rw [Slots.size, Slots.size] at hset
    rw [List.length_cons, Nat.mul_add, Nat.mul_one]
    omega

section Capacity

variable {s : FlatStore} {pid : Nat}

/-- A page has 26 events at most, since each takes 152 bytes. -/
theorem length_slots_le {is : List Nat} (hnodup : is.Nodup)
    (h : ∀ i ∈ is, ∃ rec : EventRecord, HoldsRecord s pid i rec.toBytes) : is.length ≤ 26 := by
  by_cases hsingle : slotCount (s.pages pid) = 1
  · -- then only slot 0 is there, whatever it has
    have hzero : is ⊆ [0] := by
      intro i hi
      obtain ⟨rec, hrec⟩ := h i hi
      cases hrec with
      | @inline slots live layout slot =>
        have hlt := (List.getElem?_eq_some_iff.mp slot).1
        have hcount := layout.count
        rw [List.mem_singleton]
        omega
      | spanned record first => rw [first]; exact List.mem_singleton_self 0
    have hle := (List.subperm_of_subset hnodup hzero).length_le
    rw [List.length_singleton] at hle
    omega
  have hinline : ∀ i ∈ is, ∃ (slots : Slots) (bytes : List UInt8), Layout (s.pages pid) slots ∧
      slots[i]? = some (some bytes) ∧ 152 ≤ bytes.length := by
    intro i hi
    obtain ⟨rec, hrec⟩ := h i hi
    have hsize := rec.length_toBytes
    rw [EventRecord.size] at hsize
    cases hrec with
    | @inline slots live layout slot => exact ⟨slots, _, layout, slot, by omega⟩
    | spanned record => exact absurd record.primary.count hsingle
  cases his : is with
  | nil => exact Nat.zero_le _
  | cons i₀ rest =>
    obtain ⟨slots, -, hlayout, -, -⟩ := hinline i₀ (by rw [his]; exact List.mem_cons_self)
    have hle := @mul_length_le_bytes 152 is slots hnodup fun i hi => by
      obtain ⟨slots', bytes, hlayout', hslot, hlength⟩ := hinline i hi
      have hlt : i < slots.length := by
        rw [← hlayout.count, hlayout'.count]
        exact (List.getElem?_eq_some_iff.mp hslot).1
      have hstored := hlayout'.stored i bytes hslot
      have hthere := List.getElem?_eq_getElem hlt
      cases hvalue : slots[i] with
      | none =>
        rw [hvalue] at hthere
        exact absurd (hlayout.deleted i hthere) (Layout.not_slotDeleted hstored)
      | some bytes' =>
        rw [hvalue] at hthere
        refine ⟨bytes', hthere, ?_⟩
        rw [← (hlayout.stored i bytes' hthere).length, hstored.length]
        exact hlength
    have haccounts := hlayout.accounts
    rw [dbPageSize] at haccounts
    rw [← his]
    omega

/-- The events of a file are fewer than `int32_t` counts. -/
theorem length_records_le {rids : List RecordId} (hnodup : rids.Nodup)
    (h : ∀ rid ∈ rids, ∃ rec : EventRecord, HoldsRecord s rid.pageId.toNat rid.slotIndex.toNat rec.toBytes) :
    rids.length ≤ 2 ^ 31 := by
  have hpages : ∀ rid ∈ rids.toFinset, rid.pageId.toNat ∈ Finset.range dbMaxPages := by
    intro rid hrid
    obtain ⟨rec, hrec⟩ := h rid (List.mem_toFinset.mp hrid)
    exact Finset.mem_range.mpr hrec.live.lt
  have hcard := Finset.card_le_mul_card_image_of_maps_to hpages 26
    (fun pid _ => by
      have hfiber := @length_slots_le s pid (((rids.toFinset.filter fun rid => rid.pageId.toNat = pid).toList).map
        fun rid => rid.slotIndex.toNat) ?_ ?_
      · rwa [List.length_map, Finset.length_toList] at hfiber
      · refine (Finset.nodup_toList _).map_on fun x hx y hy heq => ?_
        have hx' := (Finset.mem_filter.mp (Finset.mem_toList.mp hx)).2
        have hy' := (Finset.mem_filter.mp (Finset.mem_toList.mp hy)).2
        obtain ⟨pageId, slotIndex⟩ := x
        obtain ⟨pageId', slotIndex'⟩ := y
        obtain rfl : pageId = pageId' := UInt32.toNat_inj.mp (hx'.trans hy'.symm)
        obtain rfl : slotIndex = slotIndex' := UInt16.toNat_inj.mp heq
        rfl
      · intro i hi
        obtain ⟨rid, hrid, rfl⟩ := List.mem_map.mp hi
        obtain ⟨hmem, rfl⟩ := Finset.mem_filter.mp (Finset.mem_toList.mp hrid)
        exact h rid (List.mem_toFinset.mp hmem))
  rw [List.toFinset_card_of_nodup hnodup, Finset.card_range, dbMaxPages] at hcard
  omega

end Capacity

/-! ## The events of the index -/

/-- The timeline index has each event under the key of its time. -/
structure Indexed (s : FlatStore) (tree : BTree) (events : List (RecordId × Int))
    (es : DupShape.timeline.Entries) (chains : DupShape.timeline.Key → Chain) : Prop where
  tree : WellFormed s tree es
  entries : ∀ k v, (k, v) ∈ es ↔ DupShape.timeline.entry (chains k) = some v
  holds : ∀ k, ChainHolds s (chains k).head (chains k)
  events : ∀ k, (chains k).lists.flatten.Perm ((events.filter fun e => timelineKey e.2 = k).map Prod.fst)

/-- The events of a store with their times: each has its record, with this time, and is in
the timeline index. -/
structure Timeline (s : FlatStore) (tree : BTree) (events : List (RecordId × Int)) : Prop where
  distinct : (events.map Prod.fst).Nodup
  stored : ∀ e ∈ events, ∃ rec : EventRecord,
    HoldsRecord s e.1.pageId.toNat e.1.slotIndex.toNat rec.toBytes ∧ asInt64 rec.createdAt = e.2
  indexed : ∃ es chains, Indexed s tree events es chains

section Index

variable {s : FlatStore} {tree : BTree} {events : List (RecordId × Int)} {es : DupShape.timeline.Entries}
  {chains : DupShape.timeline.Key → Chain}

theorem Timeline.inInt64 (h : Timeline s tree events) {e : RecordId × Int} (he : e ∈ events) : InInt64 e.2 := by
  obtain ⟨rec, -, htime⟩ := h.stored e he
  exact htime ▸ inInt64_asInt64 _

theorem Timeline.nodup (h : Timeline s tree events) : events.Nodup := List.Nodup.of_map _ h.distinct

theorem Timeline.length_le (h : Timeline s tree events) : events.length ≤ 2 ^ 31 := by
  have hle := length_records_le h.distinct fun rid hrid => by
    obtain ⟨e, he, rfl⟩ := List.mem_map.mp hrid
    obtain ⟨rec, hrec, -⟩ := h.stored e he
    exact ⟨rec, hrec⟩
  rwa [List.length_map] at hle

variable (hint : ∀ e ∈ events, InInt64 e.2) (h : Indexed s tree events es chains)

include hint h

theorem Indexed.mem_chainEvents {k : DupShape.timeline.Key} {e : RecordId × Int} :
    e ∈ chainEvents (chains k) (keyTime k) ↔ e ∈ events ∧ timelineKey e.2 = k := by
  have htime : ∀ e ∈ events, keyTime (timelineKey e.2) = e.2 := fun e he => decode_timelineKey (hint e he)
  rw [chainEvents, List.mem_map]
  constructor
  · rintro ⟨rid, hrid, rfl⟩
    obtain ⟨e, he, rfl⟩ := List.mem_map.mp ((h.events k).mem_iff.mp hrid)
    obtain ⟨hmem, hkey⟩ := List.mem_filter.mp he
    obtain rfl := of_decide_eq_true hkey
    rw [htime e hmem]
    exact ⟨hmem, rfl⟩
  · rintro ⟨hmem, rfl⟩
    refine ⟨e.1, (h.events _).mem_iff.mpr (List.mem_map_of_mem (List.mem_filter.mpr ⟨hmem, by simp⟩)), ?_⟩
    rw [htime e hmem]

/-- What the index lists of the entries between two keys. -/
theorem Indexed.mem_listed {minKey maxKey : Option DupShape.timeline.Key} {e : RecordId × Int} :
    e ∈ listed chains (inRange minKey maxKey es) ↔
      e ∈ events ∧ (∀ k ∈ minKey, k ≤ timelineKey e.2) ∧ ∀ k ∈ maxKey, timelineKey e.2 ≤ k := by
  rw [listed, List.mem_flatMap]
  constructor
  · rintro ⟨⟨k, v⟩, hp, he⟩
    obtain ⟨hmem, rfl⟩ := (h.mem_chainEvents hint).mp he
    exact ⟨hmem, of_decide_eq_true (List.mem_filter.mp hp).2⟩
  · rintro ⟨hmem, hrange⟩
    have hin := (h.mem_chainEvents hint).mpr ⟨hmem, rfl⟩
    obtain ⟨v, hv⟩ : ∃ v, DupShape.timeline.entry (chains (timelineKey e.2)) = some v := by
      cases hchain : chains (timelineKey e.2) with
      | nil =>
        rw [hchain] at hin
        exact absurd hin List.not_mem_nil
      | cons p post => exact ⟨_, rfl⟩
    exact ⟨(timelineKey e.2, v), List.mem_filter.mpr ⟨(h.entries _ v).mpr hv, decide_eq_true hrange⟩, hin⟩

omit hint in
theorem Indexed.nodup_listed (hdistinct : (events.map Prod.fst).Nodup) :
    ((listed chains es).map Prod.fst).Nodup := by
  have hids : (listed chains es).map Prod.fst = es.flatMap fun p => (chains p.1).lists.flatten := by
    rw [listed, List.map_flatMap]
    simp only [map_fst_chainEvents]
  rw [hids, List.nodup_flatMap]
  refine ⟨fun p _ => ?_, h.tree.sorted.imp fun hlt => ?_⟩
  · refine (h.events p.1).nodup_iff.mpr (hdistinct.sublist ?_)
    exact List.filter_sublist.map _
  · -- one id under two keys would be two events
    rintro rid hx hy
    obtain ⟨e, he, rfl⟩ := List.mem_map.mp ((h.events _).mem_iff.mp hx)
    obtain ⟨e', he', heq⟩ := List.mem_map.mp ((h.events _).mem_iff.mp hy)
    obtain ⟨hmem, hkey⟩ := List.mem_filter.mp he
    obtain ⟨hmem', hkey'⟩ := List.mem_filter.mp he'
    obtain rfl : e' = e := List.inj_on_of_nodup_map hdistinct hmem' hmem heq
    rw [← of_decide_eq_true hkey, ← of_decide_eq_true hkey'] at hlt
    exact absurd hlt (lt_irrefl _)

/-- The index lists the events in the order of the keys. -/
theorem Indexed.pairwise_listed (minKey maxKey : Option DupShape.timeline.Key) :
    (listed chains (inRange minKey maxKey es)).Pairwise fun x y => ¬ Ahead y.2 x.2 := by
  have hle : (listed chains (inRange minKey maxKey es)).Pairwise fun x y => timelineKey x.2 ≤ timelineKey y.2 := by
    rw [listed, List.pairwise_flatMap]
    refine ⟨fun p _ => ?_, (h.tree.sorted.sublist List.filter_sublist).imp fun hlt x hx y hy => ?_⟩
    · refine List.pairwise_of_forall_mem_list fun x hx y hy => ?_
      rw [((h.mem_chainEvents hint).mp hx).2, ((h.mem_chainEvents hint).mp hy).2]
    · rw [((h.mem_chainEvents hint).mp hx).2, ((h.mem_chainEvents hint).mp hy).2]
      exact hlt.le
  refine hle.imp_of_mem fun hx hy hkey => ?_
  rw [← timelineKeyEncode_lt_iff (hint _ ((h.mem_listed hint).mp hy).1) (hint _ ((h.mem_listed hint).mp hx).1)]
  exact not_lt.mpr ((timelineKey_le_iff _ _).mp hkey)

end Index

/-- The keys between those of the bounds are those of the times reported. -/
theorem inBounds_iff {filter : NostrDBFilter} (hsince : InInt64 filter.since) (huntil : InInt64 filter.until_)
    {t : Int} (ht : InInt64 t) :
    ((∀ k ∈ boundKey filter.until_, k ≤ timelineKey t) ∧ ∀ k ∈ boundKey filter.since, timelineKey t ≤ k) ↔
      Reported filter t := by
  have hlow : (∀ k ∈ boundKey filter.until_, k ≤ timelineKey t) ↔
      (0 < filter.until_ → 0 ≤ t ∧ t ≤ filter.until_) := by
    rw [boundKey]
    split
    · next hpos =>
      simp only [Option.mem_def, Option.some.injEq, forall_eq', hpos, forall_const]
      rw [timelineKey_le_iff, ← not_lt, timelineKeyEncode_lt_iff ht huntil, Ahead]
      omega
    · next hpos => simp [hpos]
  have hhigh : (∀ k ∈ boundKey filter.since, timelineKey t ≤ k) ↔
      (0 < filter.since → t < 0 ∨ filter.since ≤ t) := by
    rw [boundKey]
    split
    · next hpos =>
      simp only [Option.mem_def, Option.some.injEq, forall_eq', hpos, forall_const]
      rw [timelineKey_le_iff, ← not_lt, timelineKeyEncode_lt_iff hsince ht, Ahead]
      omega
    · next hpos => simp [hpos]
  rw [hlow, hhigh, Reported, and_comm]

/-- The result of a scan, and when it is the newest between the bounds. -/
theorem run_queryTimelineScan_newest (allocator : Allocator) (grants : Nat → Bool)
    (records : Handler RecordSig FlatStore) {s : FlatStore} {im : IndexManager} {events : List (RecordId × Int)}
    (h : Timeline s im.timelineIndex events) {filter : NostrDBFilter} (hsince : InInt64 filter.since)
    (huntil : InInt64 filter.until_) {capacity : Nat} (hcapacity : capacity < 2 ^ 32) : ∃ rs : QueryResultSet,
      (queryTimelineScan im filter).run (collecting allocator grants records)
          (s, some (queryResultCreate capacity)) = (.ok, s, some rs) ∧
        (NewestMatching filter events rs.entries ↔ InTime filter events) := by
  obtain ⟨es, chains, hindexed⟩ := h.indexed
  have hint : ∀ e ∈ events, InInt64 e.2 := fun e he => h.inInt64 he
  have hnodup := hindexed.nodup_listed h.distinct
  have hall : ∀ e, e ∈ listed chains es → e ∈ events := by
    intro e he
    obtain ⟨p, -, he⟩ := List.mem_flatMap.mp he
    exact ((hindexed.mem_chainEvents hint).mp he).1
  have hfew : (listed chains es).length ≤ 2 ^ 31 :=
    (List.subperm_of_subset (List.Nodup.of_map _ hnodup) hall).length_le.trans h.length_le
  obtain ⟨rs, hrun, hentries⟩ := run_queryTimelineScan allocator grants records hindexed.tree
    (fun p hp => (hindexed.entries p.1 p.2).mp hp) hindexed.holds filter hnodup hfew hcapacity
  have hperm : (listed chains (inRange (boundKey filter.until_) (boundKey filter.since) es)).Perm
      (events.filter fun e => decide (Reported filter e.2)) := by
    refine (List.perm_ext_iff_of_nodup ?_ (h.nodup.filter _)).mpr fun e => ?_
    · exact (List.Nodup.of_map _ hnodup).sublist (List.filter_sublist.flatMap _)
    · rw [hindexed.mem_listed hint, List.mem_filter, decide_eq_true_iff]
      exact and_congr_right fun he => inBounds_iff hsince huntil (hint e he)
  have hsorted := hindexed.pairwise_listed hint (boundKey filter.until_) (boundKey filter.since)
  refine ⟨rs, hrun, ?_⟩
  rw [hentries]
  exact ⟨inTime_of_newestMatching h.nodup hperm hsorted, newestMatching_of_inTime h.nodup hperm hsorted⟩

/-! ## One event -/

/-- A record of that time, which is otherwise blank. -/
def recordOfTime (t : Int) : EventRecord := { blankRecord [0, 0] with createdAt := (t % 2 ^ 64).toNat }

/-- A store with that record in the first slot of page 1, and a new timeline index in page 2. -/
def storeOfTime (t : Int) : FlatStore where
  pages pid := if pid = 1 then insertedPage (recordOfTime t).toBytes (slotPageInit 1)
    else writeAt zeroPage 0 (freshTree .timeline 2).metadata.encode
  used := [1, 2]
  requests := 0

theorem live_storeOfTime (t : Int) {pid : Nat} (h : pid = 1 ∨ pid = 2) : (storeOfTime t).Live pid := by
  have hmax : dbMaxPages = 2 ^ 24 := rfl
  refine ⟨?_, by omega, by omega⟩
  rw [storeOfTime, List.mem_cons, List.mem_singleton]
  exact h

theorem opened_storeOfTime (t : Int) :
    BTreeShape.timeline.Opened (storeOfTime t) (freshTree .timeline 2) := by
  refine ⟨⟨rfl, rfl, rfl, by rw [freshTree]⟩, live_storeOfTime t (.inr rfl), ?_, ?_⟩
  · have hpage : (storeOfTime t).pages 2 = writeAt zeroPage 0 (freshTree .timeline 2).metadata.encode := by
      simp [storeOfTime]
    rw [show (freshTree .timeline 2).metaPage = 2 from rfl, hpage,
      readAt_writeAt_same _ _ _ (BTreeMeta.length_encode _).symm]
  · exact ⟨by decide, by decide, by decide, by decide, by decide, by decide, by decide⟩

theorem layout_recordOfTime (t : Int) :
    Layout (insertedPage (recordOfTime t).toBytes (slotPageInit 1)) [some (recordOfTime t).toBytes] := by
  have hlength : (recordOfTime t).toBytes.length = 154 := (recordOfTime t).length_toBytes
  exact ((layout_slotPageInit 1).slotPageInsert_of_le (List.ne_nil_of_length_pos (by omega)) (by omega)
    (show (recordOfTime t).toBytes.length + 4 ≤ 4072 by omega)).2

/-- **The first event** in the timeline index. -/
theorem timeline_single {t : Int} (ht : InInt64 t) : ∃ st : BTreeState,
    (indexTimelineInsert (freshTree .timeline 2) t ⟨1, 0⟩).run (flatStore .lowest grantAll) (storeOfTime t) =
        ((.ok, st.1), st.2) ∧ Timeline st.2 st.1 [(⟨1, 0⟩, t)] := by
  set s := storeOfTime t with hs
  set rid : RecordId := ⟨1, 0⟩
  have hopened := opened_storeOfTime t
  have hfile : s.used.length + 1 < dbMaxPages := show 2 + 1 < dbMaxPages by decide
  obtain ⟨hfresh, hpos, hlt⟩ := Allocator.lowest.fresh s.used hfile
  set q := Allocator.lowest.pick s.used with hq
  have hne : ∀ other ∈ s.used, other ≠ q := fun other hmem heq => hfresh (heq ▸ hmem)
  -- the first page of the chain
  have hpages : ∀ other ∈ s.used, (s.startChain .lowest rid).pages other = s.pages other := by
    intro other hmem
    rw [FlatStore.startChain, ← hq, pages_set_of_ne _ _ (hne other hmem), pages_grow_of_ne _ (hne other hmem)]
  have hlive : ∀ other, s.Live other → (s.startChain .lowest rid).Live other := fun other h =>
    ⟨List.mem_cons_of_mem _ h.mem, h.pos, h.lt⟩
  have hopened' : DupShape.timeline.Opened (s.startChain .lowest rid) (freshTree .timeline 2) :=
    ⟨hopened.fits, hlive _ hopened.live, by rw [hpages _ hopened.live.mem]; exact hopened.saved, hopened.inRange⟩
  have hfile' : (s.startChain .lowest rid).used.length + 1 < dbMaxPages := show 3 + 1 < dbMaxPages by decide
  -- the first leaf of the tree, and what it leaves
  obtain ⟨s', tree', t', hinsert, hholds, -, -, rfl⟩ := run_btreeInsert_of_empty (x := timelineKey t)
    .lowest grantAll hopened' rfl rfl hfile' (DupShape.timeline.value q)
  have htree : @TreeHolds DupShape.timeline.toBTreeShape (freshTree .timeline 2, s.startChain .lowest rid)
      (fun _ => none) [2] := .empty hopened' rfl (fun _ => rfl) (List.Perm.refl _)
  obtain ⟨st', -, hinsert', -, -, hmono, hkeep⟩ := @exactInsert_of_empty DupShape.timeline .lowest
    (freshTree .timeline 2, s.startChain .lowest rid) rfl hfile' (timelineKey t) (DupShape.timeline.value q)
    _ _ htree rfl
  obtain ⟨rfl, rfl⟩ : tree' = st'.1 ∧ s' = st'.2 := by
    rw [hinsert] at hinsert'
    exact ⟨congrArg (fun r => r.1.2) hinsert', congrArg Prod.snd hinsert'⟩
  have hone : st'.2.pages 1 = insertedPage (recordOfTime t).toBytes (slotPageInit 1) := by
    rw [hkeep 1 (hlive 1 (live_storeOfTime t (.inl rfl))).mem (by decide), hpages 1 (live_storeOfTime t (.inl rfl)).mem]
    simp [hs, storeOfTime]
  have hlive' : ∀ other, (s.startChain .lowest rid).Live other → st'.2.Live other := fun other h =>
    ⟨hmono h.mem, h.pos, h.lt⟩
  refine ⟨st', ?_, List.nodup_singleton _, fun e he => ?_, [(timelineKey t, DupShape.timeline.value q)],
    fun k => if k = timelineKey t then [(q, [rid])] else [], .tree _ hholds ⟨rfl, trivial⟩, ?_, ?_, ?_⟩
  · have hsearch : (btreeSearch (freshTree .timeline 2) (timelineKey t).bytes).run (flatStore .lowest grantAll) s =
        ((.notFound, none), s) := by
      rw [btreeSearch, if_pos (show (freshTree .timeline 2).metadata.rootPage = 0 from rfl)]
      rfl
    have hnot : ¬ (NostrDBError.notFound = .ok ∧ chainHead (.notFound, none) ≠ 0) := fun h => h.2 rfl
    simp only [indexTimelineInsert, btreeInsertDup, Prog.run_bind, hsearch, if_neg hnot, run_allocPage,
      allocate_of_granted .lowest grantAll s rfl, ← hq, run_writePage, run_markDirty, run_unpinPage]
    exact hinsert
  · obtain rfl := List.mem_singleton.mp he
    refine ⟨recordOfTime t, @HoldsRecord.inline _ _ _ _ [some (recordOfTime t).toBytes]
      (hlive' 1 (hlive 1 (live_storeOfTime t (.inl rfl)))) ?_ rfl, asInt64_emod ht⟩
    exact hone.symm ▸ layout_recordOfTime t
  · intro k v
    rw [List.mem_singleton, Prod.mk.injEq]
    by_cases hk : k = timelineKey t
    · simp [hk, eq_comm]
    · simp [hk]
  · intro k
    by_cases hk : k = timelineKey t
    · simp only [hk, if_true]
      refine ChainHolds.single (hlive' q ⟨List.mem_cons_self, hpos, hlt⟩) ?_
      have hapart : q ∉ [2] := fun hmem => hne 2 (live_storeOfTime t (.inr rfl)).mem (List.mem_singleton.mp hmem).symm
      rw [Chain.head_cons, hkeep q List.mem_cons_self hapart, FlatStore.startChain, ← hq, pages_set_self]
      exact OverflowPage.first rid
    · simp only [hk, if_false]
      exact ChainHolds.nil _
  · intro k
    by_cases hk : k = timelineKey t
    · simp [hk, rid]
    · simp [hk, Ne.symm hk]

/-! ## The scan and time -/

/-- The scan adds the newest events between the bounds, newest first, up to the limit, each
with its time. -/
def RespectsTime (allocator : Allocator) (grants : Nat → Bool) (records : Handler RecordSig FlatStore)
    (s : FlatStore) (im : IndexManager) (events : List (RecordId × Int)) (filter : NostrDBFilter)
    (capacity : Nat) : Prop :=
  ∃ rs : QueryResultSet, (queryTimelineScan im filter).run (collecting allocator grants records)
      (s, some (queryResultCreate capacity)) = (.ok, s, some rs) ∧ NewestMatching filter events rs.entries

/-- **The timeline scan respects time** exactly where the key order does not show. -/
theorem respectsTime_iff (allocator : Allocator) (grants : Nat → Bool) (records : Handler RecordSig FlatStore)
    {s : FlatStore} {im : IndexManager} {events : List (RecordId × Int)}
    (h : Timeline s im.timelineIndex events) {filter : NostrDBFilter} (hsince : InInt64 filter.since)
    (huntil : InInt64 filter.until_) (capacity : UInt32) :
    RespectsTime allocator grants records s im events filter capacity.toNat ↔ InTime filter events := by
  obtain ⟨rs, hrun, hnewest⟩ :=
    run_queryTimelineScan_newest allocator grants records h hsince huntil capacity.toNat_lt
  rw [← hnewest]
  constructor
  · rintro ⟨rs', hrun', hnewest'⟩
    rw [hrun] at hrun'
    obtain rfl : rs = rs' := Option.some.inj (congrArg (fun r => r.2.2) hrun')
    exact hnewest'
  · exact fun hnewest' => ⟨rs, hrun, hnewest'⟩

/-- A pool without frames. -/
def noFrames : Handler RecordSig FlatStore
  | .free pid, s => ((), s.release pid)
  | .size, s => ((0 : Nat), s)
  | .pageId _, s => ((0 : Nat), s)

/-- The event of time 5 among those from 1 on. -/
theorem respectsTime_iff_five : ∃ st : BTreeState,
    (indexTimelineInsert (freshTree .timeline 2) 5 ⟨1, 0⟩).run (flatStore .lowest grantAll) (storeOfTime 5) =
        ((.ok, st.1), st.2) ∧
      RespectsTime .lowest grantAll noFrames st.2 { freshIndexes with timelineIndex := st.1 } [(⟨1, 0⟩, 5)]
        ⟨[], [], [], [], 1, 0, 10⟩ 0 := by
  obtain ⟨st, hinsert, htimeline⟩ := timeline_single (t := 5) ⟨by decide, by decide⟩
  refine ⟨st, hinsert, (@respectsTime_iff .lowest grantAll noFrames st.2
    { freshIndexes with timelineIndex := st.1 } _ htimeline _ ⟨by decide, by decide⟩ ⟨by decide, by decide⟩
      0).mpr ⟨?_, ?_, ?_⟩⟩
  · intro e he _ hnot
    obtain rfl := List.mem_singleton.mp he
    exact absurd (by decide) hnot
  · intro e he _ hnot
    obtain rfl := List.mem_singleton.mp he
    exact absurd (by decide) hnot
  · intro x hx _ hneg
    obtain rfl := List.mem_singleton.mp hx
    exact absurd hneg (by decide)

/-- The second before 1970 is reported among the events from 1 on. -/
theorem negative_since_one : ∃ st : BTreeState, Timeline st.2 st.1 [(⟨1, 0⟩, -1)] ∧
    ¬ RespectsTime .lowest grantAll noFrames st.2 { freshIndexes with timelineIndex := st.1 } [(⟨1, 0⟩, -1)]
      ⟨[], [], [], [], 1, 0, 10⟩ 0 := by
  obtain ⟨st, -, htimeline⟩ := timeline_single (t := -1) ⟨by decide, by decide⟩
  refine ⟨st, htimeline, ?_⟩
  obtain ⟨rs, hrun, hnewest⟩ := @run_queryTimelineScan_newest .lowest grantAll noFrames st.2
    { freshIndexes with timelineIndex := st.1 } _ htimeline ⟨[], [], [], [], 1, 0, 10⟩ ⟨by decide, by decide⟩ ⟨by decide, by decide⟩ 0 (by decide)
  rintro ⟨rs', hrun', hnewest'⟩
  rw [hrun] at hrun'
  obtain rfl : rs = rs' := Option.some.inj (congrArg (fun r => r.2.2) hrun')
  exact absurd ((hnewest.mp hnewest').wrong _ (List.mem_singleton_self _) (by decide) (by decide)) (by decide)

end OnionRelay.Db.Engine
