import OnionRelay.Relay.Reads

/-!
# The loops of the checks

Each loop of the handlers, as a function of the events it sees.  An existing
event supersedes a new one when it is newer, or as old with the lower id.  The
replaceable check deletes all it sees unless one supersedes; the addressable
check deletes those with the same `d` value up to the first that supersedes; an
`a` tag deletes those with its `d` value that are not newer.
-/

namespace OnionRelay.Relay

open OnionRelay.Lib OnionRelay.Db

variable (engine : QueryEngine) (env : Env)

/-- The comparison of both checks. -/
def supersedes (event existing : NostrEventEntity) : Bool :=
  event.createdAt < existing.createdAt ||
    (existing.createdAt = event.createdAt && existingLower 64 existing.id event.id)

/-- The ids of some entities. -/
def Among (seen : List NostrEventEntity) (id : Bytes 32) : Prop := ∃ x ∈ seen, x.id = rawToHex id.1

theorem existingLower_self : ∀ (n : Nat) (a : CStr), existingLower n a a = false := by
  intro n
  induction n with
  | zero => intro a; rfl
  | succ n ih =>
    intro a
    have hirr : ¬ (a.getD 0 0).toInt8 < (a.getD 0 0).toInt8 := Int8.lt_irrefl
    rw [existingLower, if_neg hirr, if_neg hirr, ih]

theorem eq_of_strncmpSensitive {a b : CStr} (h : strncmpSensitive a b b.length = true)
    (hlen : b.length = a.length) : a = b := by
  simp only [strncmpSensitive, Bool.and_eq_true, List.all_eq_true, List.mem_range, beq_iff_eq] at h
  refine List.ext_getElem hlen.symm fun i hi hi' => ?_
  have hget := h.2 i hi'
  simpa [List.getD, hi, hi'] using hget

/-- The first pass stores unless an event seen supersedes, and changes nothing. -/
theorem run_replaceableFirstPass (event : NostrEventEntity) :
    ∀ (offsets : List Nat) (out : NostrEventEntity) (w : World), ∃ last,
      (replaceableFirstPass event offsets out).run (answer engine env) w =
        ((!(readBack w.log offsets out).any (supersedes event), last), w) := by
  intro offsets
  induction offsets with
  | nil => intro out w; exact ⟨out, rfl⟩
  | cons offset offsets ih =>
    intro out w
    rcases getEventAtOffset_cases w.log offset out with ⟨rec, hrec, hd, hread⟩ | ⟨hno, hread⟩
    · rw [readBack_cons_live hrec hd]
      simp only [replaceableFirstPass, Prog.run_bind, run_readAtOffset, hread]
      generalize eventDeserialize rec out = x
      obtain ⟨last, hlast⟩ := ih x w
      rw [if_neg (by decide), List.any_cons]
      by_cases hnewer : event.createdAt < x.createdAt
      · rw [if_pos hnewer]
        exact ⟨x, by simp [supersedes, hnewer]⟩
      · rw [if_neg hnewer]
        by_cases hsame : x.createdAt = event.createdAt
        · rw [if_pos hsame]
          split
          · rename_i hid
            rw [Bool.and_eq_true, beq_iff_eq] at hid
            have heq := eq_of_strncmpSensitive hid.1 hid.2
            refine ⟨last, ?_⟩
            rw [hlast, supersedes, heq, existingLower_self]
            simp [hnewer]
          · split
            · rename_i hlow
              exact ⟨x, by simp [supersedes, hsame, hlow]⟩
            · rename_i hlow
              refine ⟨last, ?_⟩
              rw [hlast, supersedes]
              simp [hsame, hlow]
        · rw [if_neg hsame]
          refine ⟨last, ?_⟩
          rw [hlast, supersedes]
          simp [hsame, hnewer]
    · obtain ⟨last, hlast⟩ := ih out w
      refine ⟨last, ?_⟩
      rw [readBack_cons_dead hno, ← hlast]
      simp only [replaceableFirstPass, Prog.run_bind, run_readAtOffset, hread]
      rw [if_pos (by decide)]

/-! ### Deleting on the way -/

theorem among_nil (id : Bytes 32) : ¬ Among [] id := by
  rintro ⟨x, hx, -⟩
  exact absurd hx (by simp)

theorem among_congr {seen seen' : List NostrEventEntity}
    (h : seen.map NostrEventEntity.id = seen'.map NostrEventEntity.id) (id : Bytes 32) :
    Among seen id ↔ Among seen' id := by
  have hmem : ∀ l, Among l id ↔ rawToHex id.1 ∈ l.map NostrEventEntity.id := fun l => by
    simp [Among]
  rw [hmem, hmem, h]

theorem deleted_among_nil (log : EventLog) : Deleted (Among []) log log :=
  (Deleted.refl log).congr fun id => ⟨False.elim, among_nil id⟩

/-- Deleting an event and then others deletes all of them. -/
theorem deleted_among_cons {log log' : EventLog} {id : Bytes 32} {x : NostrEventEntity}
    {seen : List NostrEventEntity} (hx : x.id = rawToHex id.1)
    (h : Deleted (Among seen) (log.deleteEvent id).2 log') : Deleted (Among (x :: seen)) log log' := by
  refine ((deleted_deleteEvent log id).trans h).congr fun id' => ?_
  simp only [Among, List.mem_cons, exists_eq_or_imp, hx]
  constructor
  · rintro (rfl | h)
    · exact .inl rfl
    · exact .inr h
  · rintro (h | h)
    · exact .inl (rawToHex_injective h).symm
    · exact .inr h

/-- A deletion at one offset does not change what is read at the others. -/
theorem readBack_deleteEvent {log : EventLog} {offset : Nat} {offsets : List Nat}
    {rec : EventRecord} (hnodup : (offset :: offsets).Nodup)
    (hrec : log.records[offset]? = some rec) (out : NostrEventEntity) :
    readBack (log.deleteEvent rec.id).2 offsets out = readBack log offsets out := by
  refine readBack_of_deleted (deleted_deleteEvent log rec.id) offsets out fun o ho r hr heq => ?_
  obtain rfl := EventLog.rid_eq_of_id_eq hr hrec heq
  exact (List.nodup_cons.mp hnodup).1 ho

/-- The second pass deletes all it sees. -/
theorem run_replaceableSecondPass : ∀ (offsets : List Nat) (out : NostrEventEntity) (w : World),
    offsets.Nodup → ∃ log,
      (replaceableSecondPass offsets out).run (answer engine env) w = ((), { w with log := log }) ∧
        Deleted (Among (readBack w.log offsets out)) w.log log := by
  intro offsets
  induction offsets with
  | nil => intro out w _; exact ⟨w.log, rfl, deleted_among_nil w.log⟩
  | cons offset offsets ih =>
    intro out w hnodup
    have hrest := (List.nodup_cons.mp hnodup).2
    rcases getEventAtOffset_cases w.log offset out with ⟨rec, hrec, hd, hread⟩ | ⟨hno, hread⟩
    · obtain ⟨log, hrun, hdel⟩ := ih (eventDeserialize rec out)
        { w with log := (w.log.deleteEvent rec.id).2 } hrest
      refine ⟨log, ?_, ?_⟩
      · simp only [replaceableSecondPass, Prog.run_bind, run_readAtOffset, hread]
        rw [if_pos (by decide)]
        simp only [eventDeserialize_id, hexStrToBin_rawToHex, Prog.run_bind, run_deleteById]
        exact hrun
      · rw [readBack_cons_live hrec hd]
        rw [readBack_deleteEvent hnodup hrec] at hdel
        exact deleted_among_cons rfl hdel
    · obtain ⟨log, hrun, hdel⟩ := ih out w hrest
      refine ⟨log, ?_, ?_⟩
      · simp only [replaceableSecondPass, Prog.run_bind, run_readAtOffset, hread]
        rw [if_neg (by decide)]
        exact hrun
      · rw [readBack_cons_dead hno]
        exact hdel

/-- The events among `seen` that the addressable check compares with. -/
def matching (dValue : CStr) (seen : List NostrEventEntity) : List NostrEventEntity :=
  seen.filter fun x => strEqual (getDTagValue x) dValue

/-- The loop stores unless a matching event supersedes, and deletes the matching
events before the first that does. -/
theorem run_addressableLoop (event : NostrEventEntity) (dValue : CStr) :
    ∀ (offsets : List Nat) (out : NostrEventEntity) (w : World), offsets.Nodup → ∃ log,
      (addressableLoop event dValue offsets out).run (answer engine env) w =
        (!(matching dValue (readBack w.log offsets out)).any (supersedes event),
          { w with log := log }) ∧
        Deleted (Among ((matching dValue (readBack w.log offsets out)).takeWhile
          (fun x => !supersedes event x))) w.log log := by
  intro offsets
  induction offsets with
  | nil => intro out w _; exact ⟨w.log, rfl, deleted_among_nil w.log⟩
  | cons offset offsets ih =>
    intro out w hnodup
    have hrest := (List.nodup_cons.mp hnodup).2
    rcases getEventAtOffset_cases w.log offset out with ⟨rec, hrec, hd, hread⟩ | ⟨hno, hread⟩
    · rw [readBack_cons_live hrec hd]
      have hid : (eventDeserialize rec out).id = rawToHex rec.id.1 := rfl
      simp only [addressableLoop, Prog.run_bind, run_readAtOffset, hread]
      generalize eventDeserialize rec out = x at hid ⊢
      rw [if_neg (by decide), matching, List.filter_cons]
      by_cases hmatch : strEqual (getDTagValue x) dValue = true
      · rw [if_neg (by simp [hmatch]), if_pos hmatch]
        by_cases hsup : supersedes event x = true
        · refine ⟨w.log, ?_, ?_⟩
          · rw [List.any_cons, hsup]
            simp only [supersedes, Bool.or_eq_true, decide_eq_true_eq] at hsup
            by_cases hnewer : event.createdAt < x.createdAt
            · rw [if_pos hnewer]
              rfl
            · rw [if_neg hnewer, if_pos (hsup.resolve_left hnewer)]
              rfl
          · rw [List.takeWhile_cons_of_neg (by simp [hsup])]
            exact deleted_among_nil w.log
        · obtain ⟨log, hrun, hdel⟩ := ih x { w with log := (w.log.deleteEvent rec.id).2 } hrest
          rw [readBack_deleteEvent hnodup hrec] at hrun hdel
          refine ⟨log, ?_, ?_⟩
          · rw [List.any_cons, Bool.not_eq_true _ |>.mp hsup, Bool.false_or]
            simp only [supersedes, Bool.or_eq_true, decide_eq_true_eq, not_or] at hsup
            rw [if_neg hsup.1, if_neg hsup.2, hid]
            simp only [hexStrToBin_rawToHex, Prog.run_bind, run_deleteById]
            exact hrun
          · rw [List.takeWhile_cons_of_pos (by simp [hsup])]
            exact deleted_among_cons hid hdel
      · obtain ⟨log, hrun, hdel⟩ := ih x w hrest
        rw [if_pos (by simp [hmatch]), if_neg hmatch]
        exact ⟨log, hrun, hdel⟩
    · obtain ⟨log, hrun, hdel⟩ := ih out w hrest
      rw [readBack_cons_dead hno]
      refine ⟨log, ?_, hdel⟩
      simp only [addressableLoop, Prog.run_bind, run_readAtOffset, hread]
      rw [if_pos (by decide)]
      exact hrun

/-- The events among `seen` that an `a` tag deletes. -/
def designated (deletionEvent : NostrEventEntity) (dValue : CStr) (seen : List NostrEventEntity) :
    List NostrEventEntity :=
  seen.filter fun x =>
    strEqual (getDTagValue x) dValue && decide (x.createdAt ≤ deletionEvent.createdAt)

/-- The loop of an `a` tag deletes what the tag designates, and leaves the last
event seen in the buffer. -/
theorem run_aTagLoop (deletionEvent : NostrEventEntity) (dValue : CStr) :
    ∀ (offsets : List Nat) (out : NostrEventEntity) (w : World), offsets.Nodup → ∃ log,
      (aTagLoop deletionEvent dValue offsets out).run (answer engine env) w =
        ((readBack w.log offsets out).getLastD out, { w with log := log }) ∧
        Deleted (Among (designated deletionEvent dValue (readBack w.log offsets out)))
          w.log log ∧
        (designated deletionEvent dValue (readBack w.log offsets out) = [] → log = w.log) := by
  intro offsets
  induction offsets with
  | nil => intro out w _; exact ⟨w.log, rfl, deleted_among_nil w.log, fun _ => rfl⟩
  | cons offset offsets ih =>
    intro out w hnodup
    have hrest := (List.nodup_cons.mp hnodup).2
    rcases getEventAtOffset_cases w.log offset out with ⟨rec, hrec, hd, hread⟩ | ⟨hno, hread⟩
    · rw [readBack_cons_live hrec hd]
      have hid : (eventDeserialize rec out).id = rawToHex rec.id.1 := rfl
      simp only [aTagLoop, Prog.run_bind, run_readAtOffset, hread]
      generalize eventDeserialize rec out = x at hid ⊢
      rw [designated, List.filter_cons, List.getLastD_cons]
      by_cases hhit : (strEqual (getDTagValue x) dValue &&
          decide (x.createdAt ≤ deletionEvent.createdAt)) = true
      · obtain ⟨log, hrun, hdel, -⟩ := ih x { w with log := (w.log.deleteEvent rec.id).2 } hrest
        rw [readBack_deleteEvent hnodup hrec] at hrun hdel
        rw [if_pos (by simpa using hhit), if_pos hhit, hid]
        refine ⟨log, ?_, deleted_among_cons hid hdel, by simp⟩
        simp only [hexStrToBin_rawToHex, Prog.run_bind, run_deleteById]
        exact hrun
      · obtain ⟨log, hrun, hdel, hnil⟩ := ih x w hrest
        rw [if_neg (by simpa using hhit), if_neg hhit]
        exact ⟨log, hrun, hdel, hnil⟩
    · obtain ⟨log, hrun, hdel, hnil⟩ := ih out w hrest
      rw [readBack_cons_dead hno]
      refine ⟨log, ?_, hdel, hnil⟩
      simp only [aTagLoop, Prog.run_bind, run_readAtOffset, hread]
      exact hrun

/-! ### Which events go -/

/-- From `log` to `log'` only live records with `p` went, and `hit` says whether
any did. -/
structure Cleared (p : EventRecord → Prop) (hit : Bool) (log log' : EventLog) : Prop where
  ids : log'.records.map EventRecord.id = log.records.map EventRecord.id
  sub : ∀ r, log'.Live r → log.Live r
  own : ∀ r, log.Live r → ¬ log'.Live r → p r
  hit : hit = true ↔ ∃ r, log.Live r ∧ ¬ log'.Live r

variable {p q : EventRecord → Prop} {log log' log'' : EventLog}

theorem Cleared.refl (p : EventRecord → Prop) (log : EventLog) : Cleared p false log log :=
  ⟨rfl, fun _ h => h, fun _ h h' => absurd h h', by simp⟩

theorem Cleared.mono {hit : Bool} (h : Cleared p hit log log') (hpq : ∀ r, p r → q r) :
    Cleared q hit log log' :=
  ⟨h.ids, h.sub, fun r hr hr' => hpq r (h.own r hr hr'), h.hit⟩

theorem Cleared.live_iff (h : Cleared p false log log') (r : EventRecord) :
    log'.Live r ↔ log.Live r := by
  refine ⟨h.sub r, fun hr => ?_⟩
  by_contra hr'
  exact absurd (h.hit.mpr ⟨r, hr, hr'⟩) (by simp)

theorem Cleared.trans {hit hit' : Bool} (h : Cleared p hit log log')
    (h' : Cleared p hit' log' log'') : Cleared p (hit || hit') log log'' where
  ids := h'.ids.trans h.ids
  sub := fun r hr => h.sub r (h'.sub r hr)
  own := by
    intro r hr hr''
    by_cases hr' : log'.Live r
    · exact h'.own r hr' hr''
    · exact h.own r hr hr'
  hit := by
    rw [Bool.or_eq_true, h.hit, h'.hit]
    constructor
    · rintro (⟨r, hr, hr'⟩ | ⟨r, hr, hr'⟩)
      · exact ⟨r, hr, fun hr'' => hr' (h'.sub r hr'')⟩
      · exact ⟨r, h.sub r hr, hr'⟩
    · rintro ⟨r, hr, hr''⟩
      by_cases hr' : log'.Live r
      · exact .inr ⟨r, hr', hr''⟩
      · exact .inl ⟨r, hr, hr'⟩

/-- Deleting events seen, each of a live record with `p`, clears just them. -/
theorem cleared_of_among {seen : List NostrEventEntity} (h : Deleted (Among seen) log log')
    (hseen : ∀ x ∈ seen, ∃ r, log.Live r ∧ p r ∧ x.id = rawToHex r.id.1) :
    Cleared p (!seen.isEmpty) log log' where
  ids := h.ids
  sub := fun r hr => ((h.live r).mp hr).1
  own := by
    intro r hr hr'
    rw [h.live, not_and_not_right] at hr'
    obtain ⟨x, hx, hid⟩ := hr' hr
    obtain ⟨s, hs, hp, hid'⟩ := hseen x hx
    have heq : r.id = s.id := rawToHex_injective (hid.symm.trans hid')
    rwa [EventLog.eq_of_id_eq hr.1 hs.1 heq]
  hit := by
    constructor
    · intro hne
      obtain ⟨x, hx⟩ := List.exists_mem_of_ne_nil seen (by rintro rfl; simp at hne)
      obtain ⟨s, hs, -, hid⟩ := hseen x hx
      exact ⟨s, hs, fun hs' => ((h.live s).mp hs').2 ⟨x, hx, hid⟩⟩
    · rintro ⟨r, hr, hr'⟩
      rw [h.live, not_and_not_right] at hr'
      obtain ⟨x, hx, -⟩ := hr' hr
      rw [Bool.not_eq_true', List.isEmpty_eq_false_iff]
      exact List.ne_nil_of_mem hx

/-- What is seen among the results of a sound query is live, and matches it. -/
theorem readBack_of_sound {engine : QueryEngine} (hsound : engine.Sound) {filter : NostrDBFilter}
    {log : EventLog} {out x : NostrEventEntity}
    (hx : x ∈ readBack log (nostrDbQueryExecute engine filter log) out) :
    ∃ r out', log.Live r ∧ (r.pubkey = filter.author ∧ r.kind = filter.kind) ∧
      x = eventDeserialize r out' := by
  obtain ⟨offset, ho, rec, out', hrec, hd, rfl⟩ := mem_readBack hx
  obtain ⟨rec', hrec', -, hkey⟩ := hsound filter log offset (mem_nostrDbQueryExecute.mp ho)
  obtain rfl := Option.some.inj (hrec.symm.trans hrec')
  exact ⟨rec, out', ⟨List.mem_of_getElem? hrec, hd⟩, hkey, rfl⟩

end OnionRelay.Relay
