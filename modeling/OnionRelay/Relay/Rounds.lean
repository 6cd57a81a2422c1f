import OnionRelay.Relay.AuthorIsolation

/-!
# What a deletion event names, and what it removes

A kind-5 event names events by id, in its `e` tags, or by coordinate, in its `a`
tags (`Names`).  What it removes is told by the rounds of the tag loop, each in
the state the loop has reached: an `e` tag removes the live event of its id, an
`a` tag every event it reads that shows its `d` value and is not newer
(`removed_iff`).

* `coordinate`: an `a` tag value as it is written, with the number its digits
  denote.  `parseATag_of_coordinate`, `coordinate_of_parseATag`: the handler
  parses the same, but for the kind, which it takes in 32 bits and reads as 0
  where there are no digits.
* `DeletionRound.Shows`: the round of an `a` tag reads an event and finds its `d`
  value in the buffer.
-/

namespace OnionRelay.Relay

open OnionRelay.Lib OnionRelay.Db

variable (engine : QueryEngine) (env : Env)

/-! ## Coordinates -/

def isDigit (c : UInt8) : Bool := 48 ≤ c && c ≤ 57

/-- The number some decimal digits denote. -/
def decimalValue (digits : CStr) : Nat := digits.foldl (fun n c => n * 10 + (c.toNat - 48)) 0

/-- The coordinate `kind:pubkey:d` a string is. -/
def coordinate (value : CStr) : Option ATag :=
  match value.dropWhile isDigit with
  | 58 :: rest =>
    let pubkey := rest.takeWhile (· != 58)
    if value.takeWhile isDigit = [] ∨ pubkey.length ≠ 64 then none
    else (hexStrToBin 32 rest).map fun key =>
      ⟨decimalValue (value.takeWhile isDigit), key, (rest.drop pubkey.length).drop 1⟩
  | _ => none

theorem parseATagKind_eq : ∀ (value : CStr) (n : Nat),
    parseATagKind value (n % 2 ^ 32) =
      ((value.takeWhile isDigit).foldl (fun n c => n * 10 + (c.toNat - 48)) n % 2 ^ 32,
        value.dropWhile isDigit) := by
  intro value
  induction value with
  | nil => intro n; rfl
  | cons c rest ih =>
    intro n
    rw [parseATagKind]
    by_cases hc : isDigit c = true
    · have hstop : ¬ (c == 58 || c < 48 || c > 57) = true := by
        simp only [isDigit, Bool.and_eq_true, decide_eq_true_eq, UInt8.le_iff_toNat_le,
          UInt8.toNat_ofNat] at hc
        simp only [Bool.or_eq_true, beq_iff_eq, decide_eq_true_eq, UInt8.lt_iff_toNat_lt,
          ← UInt8.toNat_inj, UInt8.toNat_ofNat, gt_iff_lt]
        omega
      have hmod : (n % 2 ^ 32 * 10 + (c.toNat - 48)) % 2 ^ 32 =
          (n * 10 + (c.toNat - 48)) % 2 ^ 32 := by
        omega
      rw [if_neg hstop, hmod, ih, List.takeWhile_cons_of_pos hc, List.dropWhile_cons_of_pos hc,
        List.foldl_cons]
    · have hstop : (c == 58 || c < 48 || c > 57) = true := by
        simp only [isDigit, Bool.and_eq_true, decide_eq_true_eq, UInt8.le_iff_toNat_le,
          UInt8.toNat_ofNat] at hc
        simp only [Bool.or_eq_true, beq_iff_eq, decide_eq_true_eq, UInt8.lt_iff_toNat_lt,
          ← UInt8.toNat_inj, UInt8.toNat_ofNat, gt_iff_lt]
        omega
      rw [if_pos hstop, List.takeWhile_cons_of_neg hc, List.dropWhile_cons_of_neg hc, List.foldl_nil]

/-- The handler's parser, in the terms of `coordinate`. -/
theorem parseATag_eq (value : CStr) : parseATag value =
    match value.dropWhile isDigit with
    | 58 :: rest =>
      if (rest.takeWhile (· != 58)).length ≠ 64 then none
      else (hexStrToBin 32 rest).map fun key =>
        ⟨decimalValue (value.takeWhile isDigit) % 2 ^ 32, key,
          (rest.drop (rest.takeWhile (· != 58)).length).drop 1⟩
    | _ => none := by
  rw [parseATag, show (0 : Nat) = 0 % 2 ^ 32 from rfl, parseATagKind_eq, ← decimalValue]
  rcases value.dropWhile isDigit with _ | ⟨c, rest⟩
  · rfl
  · by_cases hc : c = 58
    · subst hc
      split
      · rename_i heq
        obtain ⟨rfl, hrest⟩ := Prod.mk.inj heq
        obtain rfl := (List.cons.inj hrest).2
        by_cases hlen : (rest.takeWhile (· != 58)).length = 64
        · rw [if_neg (by simp [hlen])]
          refine Eq.trans ?_ (if_neg (not_not.mpr hlen)).symm
          cases hexStrToBin 32 rest <;> rfl
        · rw [if_pos (by simp [hlen])]
          exact (if_pos hlen).symm
      · rename_i hno
        exact absurd rfl (hno _ rest)
    · split
      · rename_i heq
        exact absurd (List.cons.inj (Prod.mk.inj heq).2).1 hc
      · split
        · rename_i heq
          exact absurd (List.cons.inj heq).1 hc
        · rfl

/-- The handler parses every coordinate, its kind in 32 bits. -/
theorem parseATag_of_coordinate {value : CStr} {c : ATag} (h : coordinate value = some c) :
    parseATag value = some ⟨c.kind % 2 ^ 32, c.pubkey, c.dValue⟩ := by
  rw [coordinate] at h
  rw [parseATag_eq]
  split at h
  · dsimp only at h
    split at h
    · exact absurd h (by simp)
    · rename_i hok
      rw [not_or, not_not] at hok
      obtain ⟨key, hkey, rfl⟩ := Option.map_eq_some_iff.mp h
      rw [if_neg (not_not.mpr hok.2), hkey]
      rfl
  · exact absurd h (by simp)

/-- What the handler parses is a coordinate if it has digits. -/
theorem coordinate_of_parseATag {value : CStr} {a : ATag} (h : parseATag value = some a) :
    a.kind = decimalValue (value.takeWhile isDigit) % 2 ^ 32 ∧
      coordinate value = if value.takeWhile isDigit = [] then none
        else some ⟨decimalValue (value.takeWhile isDigit), a.pubkey, a.dValue⟩ := by
  rw [parseATag_eq] at h
  rw [coordinate]
  split at h
  · dsimp only
    split at h
    · exact absurd h (by simp)
    · rename_i hok
      obtain ⟨key, hkey, rfl⟩ := Option.map_eq_some_iff.mp h
      refine ⟨rfl, ?_⟩
      by_cases hdigits : value.takeWhile isDigit = []
      · rw [if_pos (.inl hdigits), if_pos hdigits]
      · rw [if_neg (by rw [not_or]; exact ⟨hdigits, hok⟩), if_neg hdigits, hkey]
        rfl
  · exact absurd h (by simp)

/-- An `e` tag of the message names the record. -/
def NamedById (event : NostrEventEntity) (r : EventRecord) : Prop :=
  ∃ tag ∈ event.tags, ∃ value, tagRef tag = some (.event value) ∧ value.length = 64 ∧
    hexStrToBin 32 value = some r.id

/-- An `a` tag of the message names the record, which is not newer than the message. -/
def NamedByCoordinate (event : NostrEventEntity) (r : EventRecord) : Prop :=
  ∃ tag ∈ event.tags, ∃ value, tagRef tag = some (.address value) ∧
    coordinate value = some ⟨r.kind, r.pubkey, r.dValue⟩ ∧ r.createdAt ≤ event.createdAt

def Names (event : NostrEventEntity) (r : EventRecord) : Prop :=
  NamedById event r ∨ NamedByCoordinate event r

/-! ## Rounds -/

/-- A round of the tag loop: its tag, and the state it starts in. -/
structure DeletionRound where
  tag : NostrTagEntity
  state : DeletionState
  world : World

def rounds (pubkey : Bytes 32) (event : NostrEventEntity) : List NostrTagEntity → DeletionState →
    World → List DeletionRound
  | [], _, _ => []
  | tag :: tags, s, w =>
    ⟨tag, s, w⟩ ::
      rounds pubkey event tags ((processTag pubkey event tag s).run (answer engine env) w).1
        ((processTag pubkey event tag s).run (answer engine env) w).2

/-- The rounds of a deletion message. -/
def messageRounds (pubkey : Bytes 32) (event : NostrEventEntity) (w : World) :
    List DeletionRound :=
  rounds engine env pubkey event event.tags ⟨.zero, false⟩
    { w with replies := [], memoryCalls := w.memoryCalls + 1 }

namespace DeletionRound

/-- The events an `a` tag reads, as the buffer shows them. -/
def reads (a : ATag) (round : DeletionRound) : List NostrEventEntity :=
  if env.memory round.world.memoryCalls && env.memory (round.world.memoryCalls + 1) then
    readBack round.world.log (nostrDbQueryExecute engine ⟨a.pubkey, a.kind, 100⟩ round.world.log)
      round.state.target
  else []

/-- The event an `e` tag deletes. -/
def eTagDeletes (pubkey : Bytes 32) (value : CStr) (round : DeletionRound) :
    List NostrEventEntity :=
  match eTagTarget round.world.log value with
  | none => []
  | some rec => if rec.pubkey = pubkey then [eventDeserialize rec round.state.target] else []

/-- The events an `a` tag deletes. -/
def aTagDeletes (pubkey : Bytes 32) (event : NostrEventEntity) (value : CStr)
    (round : DeletionRound) : List NostrEventEntity :=
  match parseATag value with
  | none => []
  | some a => if a.pubkey = pubkey then designated event a.dValue (round.reads engine env a) else []

/-- The events the round deletes. -/
def deletes (pubkey : Bytes 32) (event : NostrEventEntity) (round : DeletionRound) :
    List NostrEventEntity :=
  match tagRef round.tag with
  | some (.event value) => round.eTagDeletes pubkey value
  | some (.address value) => round.aTagDeletes engine env pubkey event value
  | none => []

/-- An `a` tag of the author reads the record and finds its `d` value. -/
def Shows (pubkey : Bytes 32) (round : DeletionRound) (value : CStr) (a : ATag)
    (r : EventRecord) : Prop :=
  tagRef round.tag = some (.address value) ∧ parseATag value = some a ∧ a.pubkey = pubkey ∧
    ∃ out, eventDeserialize r out ∈ round.reads engine env a ∧
      getDTagValue (eventDeserialize r out) = a.dValue

end DeletionRound

theorem deleted_eTag (pubkey : Bytes 32) (value : CStr) (round : DeletionRound) :
    Deleted (Among (round.eTagDeletes pubkey value)) round.world.log
      ((processETag pubkey value round.state).run (answer engine env) round.world).2.log := by
  rw [run_processETag, DeletionRound.eTagDeletes]
  cases eTagTarget round.world.log value with
  | none => exact deleted_among_nil round.world.log
  | some rec =>
    by_cases hown : rec.pubkey = pubkey
    · simp only [if_pos hown]
      exact deleted_among_cons rfl (deleted_among_nil (round.world.log.deleteEvent rec.id).2)
    · simp only [if_neg hown]
      exact deleted_among_nil round.world.log

theorem deleted_aTag (pubkey : Bytes 32) (event : NostrEventEntity) (value : CStr)
    (round : DeletionRound) :
    Deleted (Among (round.aTagDeletes engine env pubkey event value)) round.world.log
      ((processATag pubkey event value round.state).run (answer engine env) round.world).2.log := by
  obtain ⟨tag, s, w⟩ := round
  rw [processATag, DeletionRound.aTagDeletes]
  cases parseATag value with
  | none => exact deleted_among_nil w.log
  | some a =>
    by_cases hown : a.pubkey = pubkey
    · obtain rfl := hown
      simp only [if_true, bne_self_eq_false, Bool.false_eq_true, if_false, Prog.run_bind,
        Prog.run_ite, run_createResult, Bool.not_eq_true', Prog.run_pure, run_executeQuery,
        World.tick, DeletionRound.reads]
      cases hmem : env.memory w.memoryCalls with
      | false => exact deleted_among_nil w.log
      | true =>
        cases hmem' : env.memory (w.memoryCalls + 1) with
        | false => exact deleted_among_nil w.log
        | true =>
          obtain ⟨log, hrun, hdel, -⟩ := run_aTagLoop engine env event a.dValue
            (nostrDbQueryExecute engine ⟨a.pubkey, a.kind, 100⟩ w.log) s.target
            { w with memoryCalls := w.memoryCalls + 1 + 1 } (nodup_nostrDbQueryExecute _ _ _)
          simp only [if_true, bne_self_eq_false, Bool.false_eq_true, if_false, reduceCtorEq, hrun]
          exact hdel
    · have hforeign : (a.pubkey != pubkey) = true := by simpa using hown
      simp only [hforeign, if_true, if_neg hown]
      exact deleted_among_nil w.log

/-- **A round deletes the events `deletes` lists.** -/
theorem deleted_round (pubkey : Bytes 32) (event : NostrEventEntity) (round : DeletionRound) :
    Deleted (Among (round.deletes engine env pubkey event)) round.world.log
      ((processTag pubkey event round.tag round.state).run (answer engine env)
        round.world).2.log := by
  rw [DeletionRound.deletes, processTag]
  rcases tagRef round.tag with _ | value | value
  · exact deleted_among_nil round.world.log
  · exact deleted_eTag engine env pubkey value round
  · exact deleted_aTag engine env pubkey event value round

/-- **The tag loop deletes what its rounds delete.** -/
theorem deleted_rounds (pubkey : Bytes 32) (event : NostrEventEntity) :
    ∀ (tags : List NostrTagEntity) (s : DeletionState) (w : World),
      Deleted (fun id => ∃ round ∈ rounds engine env pubkey event tags s w,
          Among (round.deletes engine env pubkey event) id) w.log
        ((deletionLoop pubkey event tags s).run (answer engine env) w).2.log := by
  intro tags
  induction tags with
  | nil => intro s w; exact (Deleted.refl w.log).congr fun id => by simp [rounds]
  | cons tag tags ih =>
    intro s w
    rw [deletionLoop, Prog.run_bind]
    refine ((deleted_round engine env pubkey event ⟨tag, s, w⟩).trans (ih _ _)).congr fun id => ?_
    rw [rounds]
    simp only [List.mem_cons, exists_eq_or_imp]

/-- Every tag has its round. -/
theorem exists_round (pubkey : Bytes 32) (event : NostrEventEntity) {tag : NostrTagEntity} :
    ∀ {tags : List NostrTagEntity} (s : DeletionState) (w : World), tag ∈ tags →
      ∃ round ∈ rounds engine env pubkey event tags s w, round.tag = tag := by
  intro tags
  induction tags with
  | nil => intro s w h; simp at h
  | cons t tags ih =>
    intro s w h
    rw [rounds]
    rcases List.mem_cons.mp h with rfl | h
    · exact ⟨_, List.mem_cons_self, rfl⟩
    · obtain ⟨round, hround, htag⟩ := ih _ _ h
      exact ⟨round, List.mem_cons_of_mem _ hround, htag⟩

theorem tag_mem_of_round {pubkey : Bytes 32} {event : NostrEventEntity} {round : DeletionRound} :
    ∀ {tags : List NostrTagEntity} {s : DeletionState} {w : World},
      round ∈ rounds engine env pubkey event tags s w → round.tag ∈ tags := by
  intro tags
  induction tags with
  | nil => intro s w h; simp [rounds] at h
  | cons t tags ih =>
    intro s w h
    rw [rounds] at h
    rcases List.mem_cons.mp h with rfl | h
    · exact List.mem_cons_self
    · exact List.mem_cons_of_mem _ (ih h)

/-- A round finds the log without what earlier rounds deleted. -/
theorem log_of_round {pubkey : Bytes 32} {event : NostrEventEntity} {round : DeletionRound} :
    ∀ {tags : List NostrTagEntity} {s : DeletionState} {w : World},
      round ∈ rounds engine env pubkey event tags s w → ∃ gone, Deleted gone w.log round.world.log ∧
        ∀ id, gone id → ∃ round' ∈ rounds engine env pubkey event tags s w,
          Among (round'.deletes engine env pubkey event) id := by
  intro tags
  induction tags with
  | nil => intro s w h; simp [rounds] at h
  | cons t tags ih =>
    intro s w h
    rw [rounds] at h ⊢
    rcases List.mem_cons.mp h with rfl | h
    · exact ⟨_, Deleted.refl w.log, fun _ h => h.elim⟩
    · obtain ⟨gone, hdel, hgone⟩ := ih h
      refine ⟨_, (deleted_round engine env pubkey event ⟨t, s, w⟩).trans hdel, fun id hid => ?_⟩
      rcases hid with hid | hid
      · exact ⟨_, List.mem_cons_self, hid⟩
      · obtain ⟨round', hround', hamong⟩ := hgone id hid
        exact ⟨round', List.mem_cons_of_mem _ hround', hamong⟩

/-- A live event is there in a round, or an earlier one deleted it. -/
theorem live_round {pubkey : Bytes 32} {event : NostrEventEntity} {round : DeletionRound}
    {r : EventRecord} {tags : List NostrTagEntity} {s : DeletionState} {w : World}
    (h : round ∈ rounds engine env pubkey event tags s w) :
    (round.world.log.Live r → w.log.Live r) ∧
      (w.log.Live r → round.world.log.Live r ∨
        ∃ round' ∈ rounds engine env pubkey event tags s w,
          Among (round'.deletes engine env pubkey event) r.id) := by
  obtain ⟨gone, hdel, hgone⟩ := log_of_round engine env h
  refine ⟨fun hr => ((hdel.live r).mp hr).1, fun hr => ?_⟩
  by_cases hid : gone r.id
  · exact .inr (hgone r.id hid)
  · exact .inl ((hdel.live r).mpr ⟨hr, hid⟩)

/-- What an `e` tag deletes in its round. -/
theorem among_eTagDeletes {pubkey : Bytes 32} {value : CStr} {round : DeletionRound} {id : Bytes 32} :
    Among (round.eTagDeletes pubkey value) id ↔
      value.length = 64 ∧ hexStrToBin 32 value = some id ∧
        ∃ rec, round.world.log.Live rec ∧ rec.id = id ∧ rec.pubkey = pubkey := by
  have htarget : ∀ rec, eTagTarget round.world.log value = some rec ↔
      (value.length = 64 ∧ hexStrToBin 32 value = some rec.id) ∧ round.world.log.Live rec := by
    intro rec
    simp only [eTagTarget, eTagId, Option.bind_eq_some_iff, EventLog.liveById_eq_some]
    by_cases hlen : value.length = 64
    · simp only [hlen, bne_self_eq_false, Bool.false_eq_true, if_false, true_and]
      constructor
      · rintro ⟨id, hid, hrec, rfl⟩
        exact ⟨hid, hrec⟩
      · rintro ⟨hid, hrec⟩
        exact ⟨rec.id, hid, hrec, rfl⟩
    · simp [hlen]
  rw [DeletionRound.eTagDeletes]
  constructor
  · cases heq : eTagTarget round.world.log value with
    | none => exact fun h => absurd h (among_nil id)
    | some rec =>
      obtain ⟨⟨hlen, hhex⟩, hlive⟩ := (htarget rec).mp heq
      dsimp only
      split
      · rename_i hown
        rintro ⟨x, hx, hid⟩
        obtain rfl := List.mem_singleton.mp hx
        obtain rfl := rawToHex_injective hid
        exact ⟨hlen, hhex, rec, hlive, rfl, hown⟩
      · exact fun h => absurd h (among_nil id)
  · rintro ⟨hlen, hhex, rec, hlive, rfl, hown⟩
    rw [(htarget rec).mpr ⟨⟨hlen, hhex⟩, hlive⟩]
    dsimp only
    rw [if_pos hown]
    exact ⟨_, List.mem_singleton_self _, rfl⟩

/-! ## What a deletion message removes -/

section Messages

variable {engine env} {event : NostrEventEntity} {pubkey : Bytes 32}

/-- Live records of a log with more written to it. -/
theorem Outcome.live_iff {rejected : Bool} {log : EventLog} {w w' : World}
    (h : Outcome env event rejected log w w') {r : EventRecord} (hr : log.idLookup r.id ≠ none) :
    w'.log.Live r ↔ log.Live r := by
  refine ⟨fun hr' => ?_, h.live env⟩
  cases rejected with
  | true => rwa [(h.of_rejected rfl).1] at hr'
  | false =>
    rw [(h.of_stored rfl).1] at hr'
    rcases log.writeEvent_cases (env.storage w.storageCalls) event with
      ⟨err, -, heq⟩ | ⟨rec, hnew, hlive, -, -, heq⟩
    · rwa [heq] at hr'
    · rw [heq] at hr'
      rcases (EventLog.live_append hnew hlive).mp hr' with hr' | rfl
      · exact hr'
      · exact absurd hnew hr

/-- **What a deletion message removes**: what its rounds delete, if its buffer is
granted. -/
theorem removed_iff_deletes (hsound : engine.Sound) (h5 : event.kind = 5)
    (hpubkey : hexStrToBin 32 event.pubkey = some pubkey) {w : World} {r : EventRecord}
    (hr : w.log.Live r) :
    ¬ (handleMessage engine env true event w).log.Live r ↔
      env.memory w.memoryCalls = true ∧ ∃ round ∈ messageRounds engine env pubkey event w,
        Among (round.deletes engine env pubkey event) r.id := by
  rcases handleMessage_deletion engine env hsound hpubkey h5 w with
    ⟨hmem, hlog, -⟩ | ⟨hmem, log, hrun, hcl, hout⟩
  · rw [hlog, hmem]
    simp [hr]
  · have hdel := deleted_rounds engine env pubkey event event.tags ⟨.zero, false⟩
      { w with replies := [], memoryCalls := w.memoryCalls + 1 }
    rw [hrun] at hdel
    have hknown : log.idLookup r.id ≠ none := by
      rw [ne_eq, EventLog.idLookup_congr hcl.ids]
      exact EventLog.idLookup_of_live hr
    rw [hout.live_iff hknown, hdel.live]
    simp only [hr, true_and, not_not, hmem, messageRounds]

/-- **What a deletion message removes**, by what it says: the events of its author
that an `e` tag names, and the events not newer than the message that a round
shows. -/
theorem removed_iff (hsound : engine.Sound) (h5 : event.kind = 5)
    (hpubkey : hexStrToBin 32 event.pubkey = some pubkey) {w : World} {r : EventRecord}
    (hr : w.log.Live r) :
    ¬ (handleMessage engine env true event w).log.Live r ↔
      env.memory w.memoryCalls = true ∧
        ((r.pubkey = pubkey ∧ NamedById event r) ∨
          (r.createdAt ≤ event.createdAt ∧ ∃ round ∈ messageRounds engine env pubkey event w,
            ∃ value a, round.Shows engine env pubkey value a r)) := by
  rw [removed_iff_deletes hsound h5 hpubkey hr]
  refine and_congr_right fun _ => ?_
  constructor
  · rintro ⟨round, hround, hdel⟩
    have hsame : ∀ rec, round.world.log.Live rec → rec.id = r.id → rec = r := fun rec hrec hid =>
      EventLog.eq_of_id_eq ((live_round engine env hround).1 hrec).1 hr.1 hid
    rw [DeletionRound.deletes] at hdel
    split at hdel
    · rename_i value htag
      obtain ⟨hlen, hhex, rec, hrec, hid, hown⟩ := among_eTagDeletes.mp hdel
      obtain rfl := hsame rec hrec hid
      exact .inl ⟨hown, round.tag, tag_mem_of_round engine env hround, value, htag, hlen, hhex⟩
    · rename_i value htag
      rw [DeletionRound.aTagDeletes] at hdel
      split at hdel
      · exact absurd hdel (among_nil r.id)
      · rename_i a hparse
        split at hdel
        · rename_i hown
          obtain ⟨x, hx, hid⟩ := hdel
          obtain ⟨hreads, hhit⟩ := List.mem_filter.mp hx
          rw [Bool.and_eq_true, strEqual_iff, decide_eq_true_eq] at hhit
          have hread := hreads
          rw [DeletionRound.reads] at hread
          split at hread
          · obtain ⟨rec, out, hrec, -, rfl⟩ := readBack_of_sound hsound hread
            obtain rfl := hsame rec hrec (rawToHex_injective hid)
            exact .inr ⟨hhit.2, round, hround, value, a, htag, hparse, hown, out, hreads, hhit.1⟩
          · exact absurd hread (by simp)
        · exact absurd hdel (among_nil r.id)
    · exact absurd hdel (among_nil r.id)
  · rintro (⟨hown, tag, htag, value, href, hlen, hhex⟩ |
      ⟨htime, round, hround, value, a, href, hparse, hown, out, hread, hd⟩)
    · obtain ⟨round, hround, rfl⟩ := exists_round engine env pubkey event ⟨.zero, false⟩
        { w with replies := [], memoryCalls := w.memoryCalls + 1 } htag
      rcases (live_round engine env hround).2 hr with hlive | hgone
      · refine ⟨round, hround, ?_⟩
        rw [DeletionRound.deletes, href]
        exact among_eTagDeletes.mpr ⟨hlen, hhex, r, hlive, rfl, hown⟩
      · exact hgone
    · refine ⟨round, hround, ?_⟩
      simp only [DeletionRound.deletes, href, DeletionRound.aTagDeletes, hparse, if_pos hown]
      refine ⟨_, List.mem_filter.mpr ⟨hread, ?_⟩, rfl⟩
      rw [Bool.and_eq_true, strEqual_iff, decide_eq_true_eq]
      exact ⟨hd, htime⟩

end Messages

end OnionRelay.Relay
