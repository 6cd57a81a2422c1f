import OnionRelay.Relay.Checks

/-!
# Deletion events

What the references of a kind-5 event do, told on the log before it.

* `foreignRef`: the reference names a live event, or a coordinate, of another
  author.
* `refersToOwn`: some reference designates a live event of the author.  The
  references are read through one buffer, so this follows the buffer from tag to
  tag, and with it the requests for scratch memory.
* `run_deletionLoop`: only events of the author go, each named by a reference or
  of a kind it names, some if and only if `refersToOwn`, and `has_invalid_ref` is
  set by the foreign references.
-/

namespace OnionRelay.Relay

open OnionRelay.Lib OnionRelay.Db

variable (engine : QueryEngine) (env : Env)

/-- The id an `e` tag gives, if it is one. -/
def eTagId (value : CStr) : Option (Bytes 32) :=
  if value.length != 64 then none else hexStrToBin 32 value

/-- The live record an `e` tag names. -/
def eTagTarget (log : EventLog) (value : CStr) : Option EventRecord :=
  (eTagId value).bind log.liveById

theorem run_processETag (pubkey : Bytes 32) (value : CStr) (s : DeletionState) (w : World) :
    (processETag pubkey value s).run (answer engine env) w =
      match eTagTarget w.log value with
      | none => (s, w)
      | some rec =>
        if rec.pubkey = pubkey then
          ({ s with target := eventDeserialize rec s.target },
            { w with log := (w.log.deleteEvent rec.id).2 })
        else (⟨eventDeserialize rec s.target, true⟩, w) := by
  have hget : ∀ id, (Prog.call (S := RelaySig) (.getEventById id s.target)).run
      (answer engine env) w = (w.log.getEventById id s.target, w) := fun _ => rfl
  rw [processETag, eTagTarget, eTagId]
  by_cases hlen : (value.length != 64) = true
  · rw [if_pos hlen, if_pos hlen]
    rfl
  · rw [if_neg hlen, if_neg hlen]
    cases hid : hexStrToBin 32 value with
    | none => rfl
    | some id =>
      simp only [Prog.run_bind, Option.bind_some, hget, EventLog.getEventById_eq]
      cases hlive : w.log.liveById id with
      | none => rfl
      | some rec =>
        obtain rfl := (EventLog.liveById_eq_some.mp hlive).2
        simp only [eventDeserialize_pubkey, hexStrToBin_rawToHex]
        rw [if_neg (by decide)]
        by_cases hown : rec.pubkey = pubkey
        · rw [if_pos (by simp [hown]), if_pos hown]
          rfl
        · have hne : (some rec.pubkey == some pubkey) = false :=
            beq_false_of_ne fun h => hown (Option.some.inj h)
          rw [if_neg (by rw [hne]; decide), if_neg hown]
          rfl

/-! ## References -/

/-- The reference names something of another author. -/
def foreignRef (log : EventLog) (pubkey : Bytes 32) (tag : NostrTagEntity) : Bool :=
  match tagRef tag with
  | some (.event value) => (eTagTarget log value).any fun rec => rec.pubkey != pubkey
  | some (.address value) => (parseATag value).any fun a => a.pubkey != pubkey
  | none => false

/-- The reference names the record by its id, or records of its kind. -/
def designates (rec : EventRecord) (tag : NostrTagEntity) : Bool :=
  match tagRef tag with
  | some (.event value) => eTagId value == some rec.id
  | some (.address value) => (parseATag value).any fun a => a.kind == rec.kind
  | none => false

/-- What a round of the tag loop passes on: whether it deleted an event, the
buffer, and the requests for memory. -/
structure Scan where
  hit : Bool
  target : NostrEventEntity
  memoryCalls : Nat

/-- An `e` tag, on the log before the message. -/
def scanETag (log : EventLog) (pubkey : Bytes 32) (value : CStr) (target : NostrEventEntity)
    (memoryCalls : Nat) : Scan :=
  match eTagTarget log value with
  | none => ⟨false, target, memoryCalls⟩
  | some rec => ⟨rec.pubkey == pubkey, eventDeserialize rec target, memoryCalls⟩

/-- An `a` tag, on the log before the message. -/
def scanATag (engine : QueryEngine) (env : Env) (log : EventLog) (pubkey : Bytes 32)
    (event : NostrEventEntity) (value : CStr) (target : NostrEventEntity) (memoryCalls : Nat) :
    Scan :=
  match parseATag value with
  | none => ⟨false, target, memoryCalls⟩
  | some a =>
    if a.pubkey != pubkey then ⟨false, target, memoryCalls⟩
    else if !env.memory memoryCalls then ⟨false, target, memoryCalls + 1⟩
    else if !env.memory (memoryCalls + 1) then ⟨false, target, memoryCalls + 2⟩
    else
      let seen := readBack log (nostrDbQueryExecute engine ⟨a.pubkey, a.kind, 100⟩ log) target
      ⟨!(designated event a.dValue seen).isEmpty, seen.getLastD target, memoryCalls + 2⟩

def scanTag (engine : QueryEngine) (env : Env) (log : EventLog) (pubkey : Bytes 32)
    (event : NostrEventEntity) (tag : NostrTagEntity) (target : NostrEventEntity)
    (memoryCalls : Nat) : Scan :=
  match tagRef tag with
  | some (.event value) => scanETag log pubkey value target memoryCalls
  | some (.address value) => scanATag engine env log pubkey event value target memoryCalls
  | none => ⟨false, target, memoryCalls⟩

/-- Some reference designates a live event of the author. -/
def refersToOwn (engine : QueryEngine) (env : Env) (log : EventLog) (pubkey : Bytes 32)
    (event : NostrEventEntity) : List NostrTagEntity → NostrEventEntity → Nat → Bool
  | [], _, _ => false
  | tag :: tags, target, memoryCalls =>
    let scan := scanTag engine env log pubkey event tag target memoryCalls
    scan.hit || refersToOwn engine env log pubkey event tags scan.target scan.memoryCalls

/-! ## One tag -/

/-- What a round of the tag loop is to do, told by its scan. -/
structure Round (p : EventRecord → Prop) (scan : Scan) (foreign : Bool) (s : DeletionState)
    (w : World) (result : DeletionState × World) : Prop where
  state : result.1 = ⟨scan.target, s.hasInvalidRef || foreign⟩
  world : result.2 = { w with log := result.2.log, memoryCalls := scan.memoryCalls }
  cleared : Cleared p scan.hit w.log result.2.log
  same : scan.hit = false → result.2.log = w.log

theorem round_eTag (pubkey : Bytes 32) (value : CStr) (s : DeletionState) (w : World) :
    Round (fun r => r.pubkey = pubkey ∧ (eTagId value == some r.id) = true)
      (scanETag w.log pubkey value s.target w.memoryCalls)
      ((eTagTarget w.log value).any fun rec => rec.pubkey != pubkey) s w
      ((processETag pubkey value s).run (answer engine env) w) := by
  rw [run_processETag, scanETag]
  cases htarget : eTagTarget w.log value with
  | none => exact ⟨by simp, rfl, Cleared.refl _ _, fun _ => rfl⟩
  | some rec =>
    by_cases hown : rec.pubkey = pubkey
    · simp only [if_pos hown, Option.any_some]
      refine ⟨by simp [hown], rfl, ?_, by simp [hown]⟩
      have hdel := deleted_among_cons (x := eventDeserialize rec s.target) rfl
        (deleted_among_nil (w.log.deleteEvent rec.id).2)
      have hcl := cleared_of_among
        (p := fun r => r.pubkey = pubkey ∧ (eTagId value == some r.id) = true) hdel (by
          intro x hx
          obtain rfl := List.mem_singleton.mp hx
          obtain ⟨id, hid, hrec⟩ := Option.bind_eq_some_iff.mp htarget
          obtain ⟨hlive, rfl⟩ := EventLog.liveById_eq_some.mp hrec
          exact ⟨rec, hlive, ⟨hown, by simp [hid]⟩, rfl⟩)
      simpa [hown] using hcl
    · have hne : (rec.pubkey == pubkey) = false := beq_false_of_ne hown
      simp only [if_neg hown, Option.any_some, hne]
      exact ⟨by simp [bne, hne], rfl, Cleared.refl _ w.log, fun _ => rfl⟩

theorem round_aTag (hsound : engine.Sound) (pubkey : Bytes 32) (event : NostrEventEntity)
    (value : CStr) (s : DeletionState) (w : World) :
    Round (fun r => r.pubkey = pubkey ∧ ((parseATag value).any fun a => a.kind == r.kind) = true)
      (scanATag engine env w.log pubkey event value s.target w.memoryCalls)
      ((parseATag value).any fun a => a.pubkey != pubkey) s w
      ((processATag pubkey event value s).run (answer engine env) w) := by
  rw [processATag, scanATag]
  cases hparse : parseATag value with
  | none => exact ⟨by simp, rfl, Cleared.refl _ _, fun _ => rfl⟩
  | some a =>
    by_cases hforeign : (a.pubkey != pubkey) = true
    · simp only [Option.any_some, hforeign]
      exact ⟨by simp, rfl, Cleared.refl _ _, fun _ => rfl⟩
    · obtain rfl : a.pubkey = pubkey := by simpa using hforeign
      simp only [Option.any_some, bne_self_eq_false, Bool.false_eq_true, if_false, Prog.run_bind,
        Prog.run_ite, run_createResult, Bool.not_eq_true', Prog.run_pure, run_executeQuery,
        World.tick]
      cases hmem : env.memory w.memoryCalls with
      | false => exact ⟨by simp, rfl, Cleared.refl _ _, fun _ => rfl⟩
      | true =>
        cases hmem' : env.memory (w.memoryCalls + 1) with
        | false => exact ⟨by simp, rfl, Cleared.refl _ _, fun _ => rfl⟩
        | true =>
          obtain ⟨log, hrun, hdel, hnil⟩ := run_aTagLoop engine env event
            a.dValue (nostrDbQueryExecute engine ⟨a.pubkey, a.kind, 100⟩ w.log) s.target
            { w with memoryCalls := w.memoryCalls + 1 + 1 } (nodup_nostrDbQueryExecute _ _ _)
          simp only [if_true, bne_self_eq_false, Bool.false_eq_true, if_false, reduceCtorEq, hrun]
          refine ⟨by simp, rfl, ?_, fun hhit => hnil ?_⟩
          · refine cleared_of_among hdel fun x hx => ?_
            obtain ⟨r, _, hr, ⟨hpub, hkind⟩, rfl⟩ :=
              readBack_of_sound hsound (List.mem_of_mem_filter hx)
            exact ⟨r, hr, ⟨hpub, by simp [hkind]⟩, rfl⟩
          · simpa using hhit

/-- **A round of the tag loop does what its scan says.** -/
theorem round_tag (hsound : engine.Sound) (pubkey : Bytes 32) (event : NostrEventEntity)
    (tag : NostrTagEntity) (s : DeletionState) (w : World) :
    Round (fun r => r.pubkey = pubkey ∧ designates r tag = true)
      (scanTag engine env w.log pubkey event tag s.target w.memoryCalls)
      (foreignRef w.log pubkey tag) s w
      ((processTag pubkey event tag s).run (answer engine env) w) := by
  simp only [processTag, scanTag, foreignRef, designates]
  cases tagRef tag with
  | none => exact ⟨by simp, rfl, Cleared.refl _ _, fun _ => rfl⟩
  | some ref =>
    cases ref with
    | event value => exact round_eTag engine env pubkey value s w
    | address value => exact round_aTag engine env hsound pubkey event value s w

/-! ## All tags -/

/-- Clearing events of the author does not change what is foreign. -/
theorem foreignRef_of_cleared {pubkey : Bytes 32} {p : EventRecord → Prop} {hit : Bool}
    {log log' : EventLog} (h : Cleared p hit log log') (hp : ∀ r, p r → r.pubkey = pubkey) (tag : NostrTagEntity) :
    foreignRef log' pubkey tag = foreignRef log pubkey tag := by
  have htarget : ∀ value, ((eTagTarget log' value).any fun rec => rec.pubkey != pubkey) =
      (eTagTarget log value).any fun rec => rec.pubkey != pubkey := by
    intro value
    rw [Bool.eq_iff_iff, Option.any_eq_true, Option.any_eq_true]
    simp only [eTagTarget, Option.bind_eq_some_iff, EventLog.liveById_eq_some]
    constructor
    · rintro ⟨r, ⟨id, hid, hr, rfl⟩, hne⟩
      exact ⟨r, ⟨r.id, hid, h.sub r hr, rfl⟩, hne⟩
    · rintro ⟨r, ⟨id, hid, hr, rfl⟩, hne⟩
      refine ⟨r, ⟨r.id, hid, ?_, rfl⟩, hne⟩
      by_contra hr'
      simp [hp r (h.own r hr hr')] at hne
  rw [foreignRef, foreignRef]
  cases tagRef tag with
  | none => rfl
  | some ref =>
    cases ref with
    | event value => exact htarget value
    | address value => rfl

/-- **The tag loop** clears events of the author only, some if and only if a
reference designates one, and notes the foreign references. -/
theorem run_deletionLoop (hsound : engine.Sound) (pubkey : Bytes 32) (event : NostrEventEntity) :
    ∀ (tags : List NostrTagEntity) (s : DeletionState) (w : World),
      ∃ s' log memoryCalls,
        (deletionLoop pubkey event tags s).run (answer engine env) w =
          (s', { w with log := log, memoryCalls := memoryCalls }) ∧
        s'.hasInvalidRef = (s.hasInvalidRef || tags.any (foreignRef w.log pubkey)) ∧
        Cleared (fun r => r.pubkey = pubkey ∧ tags.any (designates r) = true)
          (refersToOwn engine env w.log pubkey event tags s.target w.memoryCalls) w.log log := by
  intro tags
  induction tags with
  | nil =>
    intro s w
    exact ⟨s, w.log, w.memoryCalls, rfl, by simp, Cleared.refl _ _⟩
  | cons tag tags ih =>
    intro s w
    have hround := round_tag engine env hsound pubkey event tag s w
    obtain ⟨s', log, calls, hrun, hinv, hcl⟩ := ih
      ((processTag pubkey event tag s).run (answer engine env) w).1
      ((processTag pubkey event tag s).run (answer engine env) w).2
    have hcalls := congrArg World.memoryCalls hround.world
    refine ⟨s', log, calls, ?_, ?_, ?_⟩
    · rw [deletionLoop, Prog.run_bind, hrun, hround.world]
    · rw [hinv, hround.state, List.any_cons, Bool.or_assoc]
      congr 2
      exact List.any_congr rfl fun t => foreignRef_of_cleared hround.cleared (fun r hr => hr.1) t
    · have hcl := hcl.mono (q := fun r => r.pubkey = pubkey ∧ (tag :: tags).any (designates r) = true)
        fun r hr => ⟨hr.1, by simp [List.any_cons, hr.2]⟩
      have htrans := (hround.cleared.mono fun r hr => ⟨hr.1, by simp [hr.2]⟩).trans hcl
      rw [refersToOwn]
      cases hhit : (scanTag engine env w.log pubkey event tag s.target w.memoryCalls).hit with
      | true =>
        rw [hhit] at htrans
        simpa using htrans
      | false =>
        rw [hround.state, hround.same hhit, hcalls] at hcl
        rw [Bool.false_or]
        simpa [hround.same hhit] using hcl

end OnionRelay.Relay
