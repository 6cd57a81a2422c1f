import OnionRelay.Relay.EventHandling

/-!
# The server keeps to the conversation

What the server knows and what its trace says are one (`Represents`), and each input of the
loop continues the trace by an exchange, or by nothing (`Goes`).  So the trace of every run is
a conversation (`converses_of_run`), whatever the clients send, the system calls return and
the database finds.
-/

namespace OnionRelay.Relay

open OnionRelay.Lib OnionRelay.Db OnionRelay.Websocket NostrSubscriptionManager EventLog

namespace RelayServer

variable {c : Setting} {fd : Int} {s : RelayServer} {e : NostrEventEntity}

/-- The clients are those whose socket is open, the table is that of the manager, and the
events are those whose records the log keeps. -/
structure Represents (s : RelayServer) (p : RelayState) : Prop where
  clients : ∀ fd, fd ∈ p.clients ↔ s.loop.opened fd ≠ none
  named : s.loop.manager.Named
  unique : SlotMap.Unique s.loop.manager.folded
  table : ∀ key, SlotMap.lookup s.loop.manager.folded key = p.table key
  kept : ∀ rec ∈ s.world.log.records, ∃ e ∈ p.stored, rec.Shows e
  known : ∀ e ∈ p.stored, ∃ rec ∈ s.world.log.records, rec.Shows e

variable {p : RelayState}

theorem Represents.knows_iff (h : Represents s p) {id : CStr} : p.Knows id ↔ id ∈ storedIds s.world.log := by
  constructor
  · rintro ⟨e, he, rfl⟩
    obtain ⟨rec, hrec, hshows⟩ := h.known e he
    exact ⟨rec, hrec, hshows.id⟩
  · rintro ⟨rec, hrec, rfl⟩
    obtain ⟨e, he, hshows⟩ := h.kept rec hrec
    exact ⟨e, he, hshows.id.symm⟩

/-- **A broadcast reaches each matching subscription of another client, once.** -/
theorem Represents.delivers {p : RelayState} (h : Represents s p) (source : Int) (event : NostrEventEntity) :
    p.Delivers source event ((s.loop.manager.findMatching event).filterMap (delivery s.loop.manager source event)) := by
  have hslot : ∀ {i : Nat}, i ∈ s.loop.manager.findMatching event → ∃ sub,
      s.loop.manager.subscriptions[i]? = some sub ∧ sub.active = true ∧
        (∃ filter ∈ sub.filters, nostrFilterMatches filter event = true) ∧
        s.loop.manager.subscriptions.getD i .zero = sub := by
    intro i hi
    obtain ⟨sub, hsub, hactive, hmatch⟩ := (mem_findMatching_iff _ _ _).mp hi
    exact ⟨sub, hsub, hactive, hmatch, by rw [List.getD_eq_getElem?_getD, hsub, Option.getD_some]⟩
  have hsends : ∀ {i : Nat} {a : Act}, delivery s.loop.manager source event i = some a →
      a = .sent (s.loop.manager.subscriptions.getD i .zero).clientFd
        (.event (s.loop.manager.subscriptions.getD i .zero).subscriptionId event) := by
    intro i a ha
    rw [delivery] at ha
    split at ha
    · cases ha
    · exact (Option.some.inj ha).symm
  constructor
  · refine List.pairwise_filterMap.mpr ((nodup_findMatching _ event).imp_of_mem fun {i i'} hi hi' hne => ?_)
    rintro a ha _ ha' rfl
    obtain ⟨sub, hsub, hactive, -, hget⟩ := hslot hi
    obtain ⟨sub', hsub', hactive', -, hget'⟩ := hslot hi'
    have hsent := hsends ha
    have hsent' := hsends ha'
    rw [hget] at hsent
    rw [hget', hsent] at hsent'
    obtain ⟨hfd, hevent⟩ := Act.sent.inj hsent'
    obtain ⟨hid, -⟩ := ServerMessage.event.inj hevent
    refine hne (h.unique (folded_of_slot hsub hactive) (folded_of_slot hsub' hactive') ?_)
    rw [hfd, hid]
  · intro a
    rw [List.mem_filterMap]
    constructor
    · rintro ⟨i, hi, ha⟩
      obtain ⟨sub, hsub, hactive, hmatch, hget⟩ := hslot hi
      rw [delivery, hget] at ha
      split at ha
      · cases ha
      · next hsend =>
        obtain ⟨hfd, hfits⟩ := not_or.mp hsend
        refine ⟨keyOf sub.clientFd sub.subscriptionId, sub.subscriptionId, sub.filters, ?_, hfd, hmatch,
          not_not.mp hfits, (Option.some.inj ha).symm⟩
        rw [← h.table]
        exact (SlotMap.lookup_eq_some_iff h.unique).mpr ⟨i, folded_of_slot hsub hactive⟩
    · rintro ⟨key, id, filters, hkey, hfd, hmatch, hfits, rfl⟩
      rw [← h.table] at hkey
      obtain ⟨i, hi⟩ := (SlotMap.lookup_eq_some_iff h.unique).mp hkey
      obtain ⟨-, hsub⟩ := slot_of_folded hi
      refine ⟨i, (mem_findMatching_iff _ _ _).mpr ⟨_, hsub, rfl, hmatch⟩, ?_⟩
      have hget : s.loop.manager.subscriptions.getD i .zero = ⟨true, key.1, id, filters⟩ := by
        rw [List.getD_eq_getElem?_getD, hsub, Option.getD_some]
      rw [delivery, hget]
      exact if_neg (not_or.mpr ⟨hfd, not_not.mpr hfits⟩)

/-! ## The state behind each message -/

/-- The states differ at most in what is pending. -/
structure Like (p p' : RelayState) : Prop where
  clients : p'.clients = p.clients
  table : p'.table = p.table
  stored : p'.stored = p.stored

theorem Like.trans {p p' p'' : RelayState} (h : Like p p') (h' : Like p' p'') : Like p p'' :=
  ⟨h'.clients.trans h.clients, h'.table.trans h.table, h'.stored.trans h.stored⟩

theorem Represents.congr (h : Represents s p) {s' : RelayServer} {p' : RelayState} (hloop : s'.loop = s.loop)
    (hages : Ages s.world.log s'.world.log) (hlike : Like p p') : Represents s' p' := by
  obtain ⟨hclients, htable, hstored⟩ := hlike
  refine ⟨?_, ?_, ?_, ?_, fun rec' hrec' => ?_, fun e he => ?_⟩
  · rw [hloop, hclients]
    exact h.clients
  · exact hloop ▸ h.named
  · exact hloop ▸ h.unique
  · rw [hloop, htable]
    exact h.table
  · obtain ⟨rec, hrec, hage⟩ := hages.exists_old hrec'
    obtain ⟨e, he, hshows⟩ := h.kept rec hrec
    exact ⟨e, hstored ▸ he, hage.shows_iff.mpr hshows⟩
  · obtain ⟨rec, hrec, hshows⟩ := h.known e (hstored ▸ he)
    obtain ⟨rec', hrec', hage⟩ := hages.exists_new hrec
    exact ⟨rec', hrec', hage.shows_iff.mpr hshows⟩

/-- Other messages than the acknowledgement change nothing. -/
theorem like_foldl_of_sent {acts : List Act} {p : RelayState}
    (h : ∀ a ∈ acts, ∃ fd m, a = .sent fd m ∧ ∀ id, m ≠ ServerMessage.ok id true "") :
    Like p (acts.foldl RelayState.after p) := by
  induction acts generalizing p with
  | nil => exact ⟨rfl, rfl, rfl⟩
  | cons a acts ih =>
    obtain ⟨fd, m, rfl, hm⟩ := h a List.mem_cons_self
    have hsent : Like p (p.after (.sent fd m)) := by
      obtain ⟨hclients, htable⟩ := after_sent p fd m
      refine ⟨hclients, htable, ?_⟩
      rw [RelayState.after, RelayState.change]
      unfold RelayState.acknowledge
      split
      · exact absurd rfl (hm _)
      · rfl
    exact hsent.trans (ih fun b hb => h b (List.mem_cons_of_mem _ hb))

theorem Represents.after {a : Act} (h : Represents s (p.change a)) : Represents s (p.after a) :=
  h.congr rfl (.refl _) ⟨rfl, rfl, rfl⟩

theorem manager_handleReqMessage (fd : Int) (s : ServerState) (req : NostrReqMessage) :
    (s.handleReqMessage fd req).manager = (s.manager.add fd req).2 ∧ (s.handleReqMessage fd req).opened = s.opened := by
  rw [ServerState.handleReqMessage]
  split <;> next h => rw [h]; exact ⟨rfl, rfl⟩

theorem Represents.req (h : Represents s p) (fd : Int) {req : NostrReqMessage} (hid : req.subscriptionId ≠ []) :
    ((s.loop.manager.add fd req).1 = none ↔ ¬ p.Accepts (keyOf fd req.subscriptionId)) ∧
      Represents { s with loop := s.loop.handleReqMessage fd req } (p.change (.received fd (.req req))) := by
  obtain ⟨hmanager, hopened⟩ := manager_handleReqMessage fd s.loop req
  have hfull := put_folded_eq_none_iff h.unique (keyOf fd req.subscriptionId) (s.loop.manager.spelt fd req)
  simp only [h.table] at hfull
  rw [RelayState.change]
  rcases add_folded h.named h.unique fd req with ⟨hnone, hsame, hput⟩ | ⟨hsome, hput⟩
  · have haccepts : ¬ p.Accepts (keyOf fd req.subscriptionId) := hfull.mp hput
    rw [if_neg haccepts]
    rw [hsame] at hmanager
    refine ⟨iff_of_true hnone haccepts, ?_, ?_, ?_, ?_, h.kept, h.known⟩
    · exact fun fd' => by rw [hopened]; exact h.clients fd'
    · exact hmanager ▸ h.named
    · rw [hmanager]
      exact h.unique
    · rw [hmanager]
      exact h.table
  · have haccepts : p.Accepts (keyOf fd req.subscriptionId) :=
      not_not.mp fun hnot => Option.some_ne_none _ (hput.symm.trans (hfull.mpr hnot))
    obtain ⟨hunique, hlookup⟩ := SlotMap.lookup_put h.unique hput
    rw [if_pos haccepts]
    refine ⟨iff_of_false hsome (not_not.mpr haccepts), ?_, ?_, ?_, fun key => ?_, h.kept, h.known⟩
    · exact fun fd' => by rw [hopened]; exact h.clients fd'
    · exact hmanager ▸ named_add h.named hid
    · rw [hmanager]
      exact hunique
    · rw [hmanager, hlookup, RelayState.subscribe]
      dsimp only
      rw [Function.update_apply, h.table, spelt, RelayState.subscription, h.table]

theorem Represents.close (h : Represents s p) (fd : Int) (id : CStr) :
    ((s.loop.manager.remove fd id).1 = true ↔ p.table (keyOf fd id) ≠ none) ∧
      Represents { s with loop := s.loop.handleCloseMessage fd id } (p.change (.received fd (.close id))) := by
  obtain ⟨hfolded, hremoved⟩ := remove_folded h.named fd id
  rw [SlotMap.erase_eq_eraseWhere h.unique] at hfolded
  obtain ⟨hunique, hlookup⟩ := SlotMap.lookup_eraseWhere h.unique fun k => decide (k = keyOf fd id)
  rw [← hfolded] at hunique hlookup
  refine ⟨?_, h.clients, named_remove h.named fd id, hunique, fun key => ?_, h.kept, h.known⟩
  · rw [hremoved, ← h.table]
    exact not_congr (SlotMap.lookup_eq_none_iff h.unique).symm
  · rw [RelayState.change, RelayState.unsubscribe]
    dsimp only
    rw [Function.update_apply, ← h.table]
    exact (hlookup key).trans (by simp only [decide_eq_true_eq])

theorem Represents.leave (h : Represents s p) :
    Represents { s with loop := (s.loop.closeSocket fd).disconnectCallback fd } (p.change (.disconnected fd)) := by
  obtain ⟨hunique, hlookup⟩ := SlotMap.lookup_eraseWhere h.unique fun k => decide (k.1 = fd)
  rw [← folded_removeClient] at hunique hlookup
  refine ⟨fun fd' => ?_, named_removeClient h.named fd, hunique, fun key => ?_, h.kept, h.known⟩
  · rw [ServerState.disconnectCallback, ServerState.closeSocket, RelayState.change, RelayState.leave]
    dsimp only
    rw [Set.mem_sdiff, Set.mem_singleton_iff, Function.update_apply, h.clients]
    split
    · next heq => exact iff_of_false (fun hnot => hnot.2 heq) (not_not.mpr rfl)
    · next hne => exact and_iff_left hne
  · rw [RelayState.change, RelayState.leave]
    dsimp only
    rw [← h.table]
    exact (hlookup key).trans (by simp only [decide_eq_true_eq])

/-- A new event is stored. -/
theorem Represents.store (h : Represents s p) {log : EventLog} (hages : Ages s.world.log log) {s' : RelayServer}
    (hloop : s'.loop = s.loop) {rec : EventRecord} (hrecords : s'.world.log.records = log.records ++ [rec])
    (hshows : rec.Shows e) :
    Represents s' ((p.after (.received fd (.event e))).change (.sent fd (.ok e.id true ""))) := by
  have haged : Represents { s' with world := { s'.world with log := log } } p := h.congr hloop hages ⟨rfl, rfl, rfl⟩
  refine ⟨haged.clients, haged.named, haged.unique, haged.table, fun rec' hrec' => ?_, fun e' he' => ?_⟩
  · rw [hrecords] at hrec'
    rcases List.mem_append.mp hrec' with hold | hnew
    · obtain ⟨e', he', hshows'⟩ := haged.kept rec' hold
      exact ⟨e', .inl he', hshows'⟩
    · exact ⟨e, .inr ⟨rfl, rfl⟩, List.eq_of_mem_singleton hnew ▸ hshows⟩
  · rcases he' with hold | ⟨hpending, -⟩
    · obtain ⟨rec', hrec', hshows'⟩ := haged.known e' hold
      exact ⟨rec', hrecords ▸ List.mem_append_left _ hrec', hshows'⟩
    · obtain rfl := (Prod.mk.inj (Option.some.inj hpending)).2
      exact ⟨rec, hrecords ▸ List.mem_append_right _ (List.mem_singleton_self rec), hshows⟩

/-! ## The conversation goes on -/

/-- The message does not show the event of the id, and does not accept it. -/
def Omits (id : CStr) : ServerMessage → Prop
  | .event _ e => e.id ≠ id
  | .ok id' true _ => id' ≠ id
  | _ => True

/-- What has become of the log while `acts` happened. -/
structure Continues (s s' : RelayServer) (acts : List Act) : Prop where
  trace : s'.trace = s.trace ++ acts
  grows : Grows s.world.log s'.world.log
  omits : ∀ id, Buried s.world.log id → ∀ a ∈ acts, ∀ fd m, a = .sent fd m → Omits id m
  removes : ∀ rec, s.world.log.Live rec → ¬ s'.world.log.Live rec →
    ∃ fd e, .received fd (.event e) ∈ acts ∧ Removes rec e

variable {acts more : List Act}

theorem Continues.refl (s : RelayServer) : Continues s s [] :=
  ⟨(List.append_nil _).symm, .refl _, nofun, fun _ hlive hgone => absurd hlive hgone⟩

theorem Continues.trans {s s' s'' : RelayServer} (h : Continues s s' acts) (h' : Continues s' s'' more) :
    Continues s s'' (acts ++ more) := by
  refine ⟨by rw [h'.trace, h.trace, List.append_assoc], h.grows.trans h'.grows, fun id hid a ha => ?_,
    fun rec hlive hgone => ?_⟩
  · exact (List.mem_append.mp ha).elim (h.omits id hid a) (h'.omits id (h.grows.buried hid) a)
  · by_cases hlive' : s'.world.log.Live rec
    · obtain ⟨fd, e, he, hremoves⟩ := h'.removes rec hlive' hgone
      exact ⟨fd, e, List.mem_append_right _ he, hremoves⟩
    · obtain ⟨fd, e, he, hremoves⟩ := h.removes rec hlive hlive'
      exact ⟨fd, e, List.mem_append_left _ he, hremoves⟩

/-- From one state to the next there is an exchange, or nothing. -/
structure Goes (initial : Set NostrEventEntity) (s s' : RelayServer) (acts : List Act) : Prop
    extends Continues s s' acts where
  exchange : acts = [] ∨ Exchange (stateOf initial s.trace) acts
  represents : Represents s' (acts.foldl RelayState.after (stateOf initial s.trace))
  /-- what is deleted was known before -/
  deleted : ∀ rec ∈ s'.world.log.records, rec.deleted = true → rawToHex rec.id.1 ∈ storedIds s.world.log

variable {initial : Set NostrEventEntity}

/-- Without an event the log stays as it is. -/
theorem goes_of_log {s' : RelayServer} (htrace : s'.trace = s.trace ++ acts)
    (hexchange : acts = [] ∨ Exchange (stateOf initial s.trace) acts)
    (hrepresents : Represents s' (acts.foldl RelayState.after (stateOf initial s.trace)))
    (hlog : s'.world.log = s.world.log)
    (homits : ∀ id, Buried s.world.log id → ∀ a ∈ acts, ∀ fd m, a = .sent fd m → Omits id m) : Goes initial s s' acts :=
  ⟨⟨htrace, hlog ▸ .refl _, homits, fun _ hlive hgone => absurd (hlog ▸ hlive) hgone⟩, hexchange, hrepresents,
    fun rec hrec _ => ⟨rec, hlog ▸ hrec, rfl⟩⟩

theorem fits_invalidFormat : invalidFormat.Fits :=
  (fits_reply (show ([] : CStr).length ≤ 64 from Nat.zero_le 64)
    (show Short "error: invalid message format" by decide +kernel) true).2.2.2

theorem send_of_fits {message : ServerMessage} (h : message.Fits) (s : RelayServer) :
    s.send fd message = { s with trace := s.trace ++ [.sent fd message] } := if_pos h

/-- What `websocket_receive_callback` makes of what a callback returns. -/
def finishFrame (fd : Int) (handled : Bool × RelayServer) : RelayServer :=
  if handled.1 then handled.2 else handled.2.send fd invalidFormat

theorem world_finishFrame (handled : Bool × RelayServer) : (finishFrame fd handled).world = handled.2.world := by
  rw [finishFrame]
  split
  · rfl
  · exact world_send _

theorem goes_event (h : Represents s (stateOf initial s.trace)) (hclient : fd ∈ (stateOf initial s.trace).clients)
    (he : e.Fits) : ∃ acts, Goes initial s (finishFrame fd
      (({ s with trace := s.trace ++ [.received fd (.event e)] } : RelayServer).handleEventMessage c fd e)) acts := by
  have hhandled := handled_handleEventMessage c fd he.toParsed
    { s with trace := s.trace ++ [.received fd (.event e)] }
  have hremoves : ∀ rec, s.world.log.Live rec → ¬ (finishFrame fd
      (({ s with trace := s.trace ++ [.received fd (.event e)] } : RelayServer).handleEventMessage c fd
        e)).world.log.Live rec → Removes rec e := by
    intro rec hlive hgone
    rw [world_finishFrame, world_handleEventMessage] at hgone
    exact removes_of_gone c.engine c.env c.sound c.dbInitialized he.toParsed s.world hlive hgone
  generalize RelayServer.handleEventMessage c fd _ e = handled at hhandled hremoves
  have hreply : ∀ (messages : List ServerMessage) {s' : RelayServer}, s'.loop = s.loop →
      Ages s.world.log s'.world.log →
      s'.trace = s.trace ++ .received fd (.event e) :: messages.map (Act.sent fd) →
      (∀ m ∈ messages, (∀ id, m ≠ .ok id true "") ∧ ∀ id, Buried s.world.log id → Omits id m) →
      Exchange (stateOf initial s.trace) (.received fd (.event e) :: messages.map (Act.sent fd)) →
      (∀ rec, s.world.log.Live rec → ¬ s'.world.log.Live rec → Removes rec e) →
      ∃ acts, Goes initial s s' acts := by
    intro messages s' hloop hages htrace hmessages hexchange hremoves
    refine ⟨_, ⟨htrace, hages.grows, fun id hid a ha fd' m hsent => ?_,
      fun rec hlive hgone => ⟨fd, e, List.mem_cons_self, hremoves rec hlive hgone⟩⟩, .inr hexchange, ?_,
      fun rec hrec _ => hages.storedIds ▸ ⟨rec, hrec, rfl⟩⟩
    · obtain ⟨m', hm', rfl⟩ := List.mem_map.mp ((List.mem_cons.mp ha).resolve_left (by simp [hsent]))
      obtain ⟨-, rfl⟩ := Act.sent.inj hsent
      exact (hmessages m' hm').2 id hid
    · rw [List.foldl_cons]
      have hreceived : Like (stateOf initial s.trace) ((stateOf initial s.trace).after (.received fd (.event e))) :=
        ⟨rfl, rfl, rfl⟩
      refine h.congr hloop hages (hreceived.trans (like_foldl_of_sent fun a ha => ?_))
      obtain ⟨m, hm, rfl⟩ := List.mem_map.mp ha
      exact ⟨fd, m, rfl, (hmessages m hm).1⟩
  cases hhandled with
  | @reply returned ok message s' hverdict hloop hages htrace =>
    rw [List.append_assoc] at htrace
    cases hverdict with
    | reject hmessage =>
      exact hreply [_] hloop hages htrace (by simp [Omits]) (.reject hclient hmessage) hremoves
    | fail hmessage =>
      rw [finishFrame, if_neg Bool.false_ne_true, send_of_fits fits_invalidFormat] at hremoves ⊢
      refine hreply [_, invalidFormat] hloop hages ?_ (by simp [invalidFormat, Omits]) (.fail hclient hmessage) hremoves
      dsimp only
      rw [htrace, List.append_assoc]
      rfl
    | duplicate hknown =>
      obtain ⟨rec, hlive, hid⟩ := hknown
      refine hreply [_] hloop hages htrace (fun m hm => ?_) (.duplicate hclient ?_) hremoves
      · obtain rfl := List.eq_of_mem_singleton hm
        refine ⟨fun id hok => ?_, fun id hburied => hid ▸ hburied.ne_of_live hlive⟩
        exact absurd (ServerMessage.ok.inj hok).2.2 (by decide)
      · exact h.knows_iff.mpr ⟨rec, hlive.1, hid⟩
    | deleted hknown =>
      exact hreply [_] hloop hages htrace (by simp [Omits]) (.deleted hclient (h.knows_iff.mpr hknown)) hremoves
  | @store s' hnew hloop log hages rec hrec hrecords htrace =>
    rw [List.append_assoc, List.singleton_append] at htrace
    have hdeliveries := h.delivers fd e
    have hsent : ∀ a ∈ (s.loop.manager.findMatching e).filterMap (delivery s.loop.manager fd e),
        ∃ key id, a = .sent key (.event id e) := fun a ha => by
      obtain ⟨key, id, -, -, -, -, -, rfl⟩ := (hdeliveries.mem_iff a).mp ha
      exact ⟨_, _, rfl⟩
    have hshows := shows_of_eventSerialize he.toParsed he.content.1 hrec
    refine ⟨_, ⟨htrace, hages.grows.trans (grows_of_append hrecords), fun id hid a ha fd' m hm => ?_,
      fun rec hlive hgone => ⟨fd, e, List.mem_cons_self, hremoves rec hlive hgone⟩⟩,
      .inr (.store hclient (mt h.knows_iff.mp hnew) hdeliveries), ?_, fun rec' hrec' hdeleted => ?_⟩
    · have hne : e.id ≠ id := by
        rintro rfl
        obtain ⟨rec', hrec', -, hid'⟩ := hid
        exact hnew ⟨rec', hrec', hid'⟩
      rcases List.mem_cons.mp ((List.mem_cons.mp ha).resolve_left (by simp [hm])) with rfl | ha
      · obtain ⟨-, rfl⟩ := Act.sent.inj hm
        exact hne
      · obtain ⟨key, sub, rfl⟩ := hsent a ha
        obtain ⟨-, rfl⟩ := Act.sent.inj hm
        exact hne
    · refine (h.store hages hloop hrecords hshows).after.congr rfl (.refl _) (like_foldl_of_sent fun a ha => ?_)
      obtain ⟨key, id, rfl⟩ := hsent a ha
      exact ⟨_, _, rfl, by simp⟩
    · have hmem : rec' ∈ s'.world.log.records := hrec'
      rw [hrecords] at hmem
      rcases List.mem_append.mp hmem with hold | hnew'
      · exact hages.storedIds ▸ ⟨rec', hold, rfl⟩
      · rw [List.eq_of_mem_singleton hnew', eventSerialize_deleted hrec] at hdeleted
        cases hdeleted
  | drop hkind hquiet =>
    refine hreply [] hquiet.loop hquiet.ages ?_ (by simp) (.drop hclient hkind) hremoves
    exact hquiet.trace

theorem goes_req (h : Represents s (stateOf initial s.trace)) (hclient : fd ∈ (stateOf initial s.trace).clients)
    {req : NostrReqMessage} (hid : FitsId req.subscriptionId) : ∃ acts, Goes initial s (finishFrame fd
      (({ s with trace := s.trace ++ [.received fd (.req req)] } : RelayServer).handleReqMessage c fd req)) acts := by
  obtain ⟨hadded, hrepresents⟩ := h.req fd (List.ne_nil_of_length_pos hid.1)
  have hfits := fits_reply hid.2.1 (show Short "error: subscription limit reached" by decide +kernel) true
  have hafter : ∀ {acts : List Act}, (∀ a ∈ acts, ∃ fd m, a = .sent fd m ∧ ∀ id, m ≠ ServerMessage.ok id true "") →
      ∀ {s' : RelayServer}, s'.loop = s.loop.handleReqMessage fd req → s'.world.log = s.world.log →
        Represents s' ((Act.received fd (.req req) :: acts).foldl RelayState.after (stateOf initial s.trace)) :=
    fun hacts _ hloop hlog => hrepresents.after.congr hloop (hlog ▸ .refl _) (like_foldl_of_sent hacts)
  rw [RelayServer.handleReqMessage]
  dsimp only
  split
  · next hnone =>
    rw [finishFrame, if_neg Bool.false_ne_true, send_of_fits hfits.2.1, send_of_fits fits_invalidFormat]
    dsimp only
    refine ⟨_, goes_of_log ?_ (.inr (.refuse hclient (hadded.mp hnone))) (hafter (by simp [invalidFormat]) rfl rfl) rfl
      (by simp [invalidFormat, Omits])⟩
    simp only [List.append_assoc, List.cons_append, List.nil_append]
  · next hsome =>
    have hroom := not_not.mp (mt hadded.mpr hsome)
    have hfinish : ∀ {found : List NostrEventEntity} {s' : RelayServer},
        Queried fd req.subscriptionId found
          { s with trace := s.trace ++ [.received fd (.req req)], loop := s.loop.handleReqMessage fd req } s' →
        ∃ acts, Goes initial s (finishFrame fd (true, s'.send fd (.eose req.subscriptionId))) acts := by
      intro found s' hqueried
      have hfound : ∀ e ∈ found, (∃ e' ∈ (stateOf initial s.trace).stored, Copy e' e) ∧
          (ServerMessage.event req.subscriptionId e).Fits := by
        intro e he
        obtain ⟨rec, out, hlive, rfl⟩ := hqueried.found.live e he
        obtain ⟨e', he', hshows⟩ := h.kept rec hlive.1
        exact ⟨⟨e', he', hshows out⟩, hqueried.found.fits _ he⟩
      rw [finishFrame, if_pos rfl, send_of_fits hfits.2.2.1]
      refine ⟨_, goes_of_log ?_ (.inr (.subscribe hclient hroom hfound)) (hafter ?_ hqueried.loop hqueried.log)
        hqueried.log fun id hburied a ha fd' m hm => ?_⟩
      · dsimp only
        rw [hqueried.trace]
        simp only [List.append_assoc, List.cons_append, List.nil_append]
      · intro a ha
        rcases List.mem_append.mp ha with ha | ha
        · obtain ⟨e, -, rfl⟩ := List.mem_map.mp ha
          exact ⟨_, _, rfl, by simp⟩
        · exact ⟨_, _, List.eq_of_mem_singleton ha, by simp⟩
      · rcases List.mem_append.mp ((List.mem_cons.mp ha).resolve_left (by simp [hm])) with ha | ha
        · obtain ⟨e, he, rfl⟩ := List.mem_map.mp ha
          obtain ⟨-, rfl⟩ := Act.sent.inj hm
          obtain ⟨rec, out, hlive, rfl⟩ := hqueried.found.live e he
          exact hburied.ne_of_live hlive
        · obtain ⟨-, rfl⟩ := Act.sent.inj ((List.eq_of_mem_singleton ha).symm.trans hm)
          trivial
    split
    · obtain ⟨found, hqueried⟩ := queried_filters c fd req.subscriptionId req.filters
        { s with trace := s.trace ++ [.received fd (.req req)], loop := s.loop.handleReqMessage fd req }
      exact hfinish hqueried
    · exact hfinish ⟨found_nil _ _, rfl, rfl, (List.append_nil _).symm⟩

theorem goes_close (h : Represents s (stateOf initial s.trace)) (hclient : fd ∈ (stateOf initial s.trace).clients)
    {id : CStr} (hid : FitsId id) : ∃ acts, Goes initial s (finishFrame fd
      (({ s with trace := s.trace ++ [.received fd (.close id)] } : RelayServer).handleCloseMessage fd id)) acts := by
  obtain ⟨hremoved, hrepresents⟩ := h.close fd id
  have hfits := (fits_reply hid.2.1 (show Short "" from Nat.zero_le 64) true).2.1
  rw [RelayServer.handleCloseMessage, finishFrame, if_pos rfl]
  dsimp only
  split
  · next hthere =>
    rw [send_of_fits hfits]
    refine ⟨_, goes_of_log ?_ (.inr (.unsubscribe hclient (hremoved.mp hthere))) ?_ rfl (by simp [Omits])⟩
    · simp only [List.append_assoc, List.cons_append, List.nil_append]
    · rw [List.foldl_cons]
      exact hrepresents.after.congr rfl (.refl _) (like_foldl_of_sent (by simp))
  · next hnothing =>
    exact ⟨_, goes_of_log rfl (.inr (.closeNothing hclient (not_not.mp (mt hremoved.mpr hnothing))))
      (hrepresents.after.congr rfl (.refl _) ⟨rfl, rfl, rfl⟩) rfl (by simp)⟩

/-- **One frame of a client is one exchange**, unless it is not of text. -/
theorem goes_receiveCallback (h : Represents s (stateOf initial s.trace))
    (hclient : fd ∈ (stateOf initial s.trace).clients) (entity : WebSocketEntity) :
    ∃ acts, Goes initial s (s.receiveCallback c fd entity) acts := by
  rw [RelayServer.receiveCallback]
  split
  · exact ⟨[], goes_of_log (List.append_nil _).symm (.inl rfl) h rfl (by simp)⟩
  have hfits := fits_nostrEventHandler (payloadOf entity)
  dsimp only
  generalize nostrEventHandler (payloadOf entity) = message at hfits
  cases message with
  | event e => exact goes_event h hclient hfits
  | req req => exact goes_req h hclient hfits.subscriptionId
  | close id => exact goes_close h hclient hfits
  | invalid =>
    rw [handle, if_neg Bool.false_ne_true, send_of_fits fits_invalidFormat]
    refine ⟨_, goes_of_log (List.append_assoc _ _ _) (.inr (.invalid hclient)) ?_ rfl
      (by simp [invalidFormat, Omits])⟩
    exact h.congr rfl (.refl _) ⟨rfl, rfl, rfl⟩

/-! ## Runs -/

/-- A new client gets a socket, or nothing is left of him. -/
theorem epollAccept_connects {t : Turn} {s : ServerState} (hfresh : ∀ fd, t.accepted = .ok fd → s.opened fd = none) :
    (connects t = [] ∧ (epollAccept t s).2 = s) ∨
      ∃ fd, t.accepted = .ok fd ∧ connects t = [.connected fd] ∧ (epollAccept t s).2 = s.openSocket fd := by
  have hclosed : ∀ fd, t.accepted = .ok fd → (s.openSocket fd).closeSocket fd = s := fun fd hfd => by
    rw [ServerState.openSocket, ServerState.closeSocket]
    dsimp only
    rw [Function.update_idem, ← hfresh fd hfd, Function.update_eq_self]
  have hsnd : ∀ accepted : Bool × ServerState,
      (if accepted.1 then (WebSocketErrorCode.none, accepted.2) else (.continuableError, accepted.2)).2 = accepted.2 :=
    fun accepted => by split <;> rfl
  rw [epollAccept, connects]
  split
  · exact .inl ⟨rfl, rfl⟩
  split
  · exact .inl ⟨rfl, rfl⟩
  rw [hsnd, acceptHandle]
  cases haccepted : t.accepted with
  | error code => exact .inl ⟨rfl, rfl⟩
  | ok fd =>
    cases t.added with
    | false => exact .inl ⟨rfl, hclosed fd haccepted⟩
    | true =>
      cases t.received with
      | error code => exact .inl ⟨rfl, hclosed fd haccepted⟩
      | ok bytes =>
        cases t.extracted with
        | false => exact .inl ⟨rfl, hclosed fd haccepted⟩
        | true =>
          cases t.handshake with
          | error => exact .inl ⟨rfl, hclosed fd haccepted⟩
          | nip11 => exact .inl ⟨rfl, hclosed fd haccepted⟩
          | webSocket => exact .inr ⟨fd, rfl, rfl, rfl⟩

theorem goes_accept (h : Represents s (stateOf initial s.trace)) {t : Turn}
    (hfresh : ∀ fd, t.accepted = .ok fd → s.loop.opened fd = none) :
    ∃ acts, Goes initial s (s.step c (.accept t)) acts := by
  have hloop : ∀ (code : WebSocketErrorCode) (loop : ServerState) (trace : List Act) {p : RelayState},
      Represents { s with loop := loop, trace := trace } p → Represents { s with
        loop := if code = .fatalError then { loop with finished := true } else loop
        trace := trace } p := fun code loop trace p hp => by
    split
    · exact ⟨hp.clients, hp.named, hp.unique, hp.table, hp.kept, hp.known⟩
    · exact hp
  rcases epollAccept_connects hfresh with ⟨hnone, hsame⟩ | ⟨fd, hfd, hsome, hopened⟩
  · refine ⟨[], goes_of_log ?_ (.inl rfl) (hloop _ _ _ ?_) rfl nofun⟩
    · rw [step, hnone]
    · rw [hsame]
      exact h.congr rfl (.refl _) ⟨rfl, rfl, rfl⟩
  · refine ⟨[.connected fd], goes_of_log ?_ (.inr (.connect ?_)) (hloop _ _ _ ?_) rfl (by simp)⟩
    · rw [step, hsome]
    · rw [h.clients, not_not]
      exact hfresh fd hfd
    · rw [hopened]
      refine Represents.after ⟨fun fd' => ?_, h.named, h.unique, h.table, h.kept, h.known⟩
      rw [ServerState.openSocket, RelayState.change]
      dsimp only
      rw [Set.mem_insert_iff, Function.update_apply, h.clients]
      split
      · next heq => exact iff_of_true (.inl heq) (Option.some_ne_none _)
      · next hne => exact or_iff_right hne

/-- What an input needs of the state. -/
def Takes (s : RelayServer) : Input → Prop
  | .accept t => ∀ fd, t.accepted = .ok fd → s.loop.opened fd = none
  | .frame fd _ => s.loop.opened fd ≠ none
  | _ => True

theorem goes_step (h : Represents s (stateOf initial s.trace)) {input : Input} (hinput : s.Takes input) :
    ∃ acts, Goes initial s (s.step c input) acts := by
  cases input with
  | tick => exact ⟨[], goes_of_log (List.append_nil _).symm (.inl rfl) ⟨h.clients, h.named, h.unique, h.table, h.kept, h.known⟩ rfl nofun⟩
  | finish => exact ⟨[], goes_of_log (List.append_nil _).symm (.inl rfl) ⟨h.clients, h.named, h.unique, h.table, h.kept, h.known⟩ rfl nofun⟩
  | accept t => exact goes_accept h hinput
  | frame fd entity => exact goes_receiveCallback h ((h.clients fd).mpr hinput) entity
  | leave fd =>
    exact ⟨[.disconnected fd], goes_of_log rfl (.inr .disconnect) (h.leave.after.congr rfl (.refl _) ⟨rfl, rfl, rfl⟩) rfl
      (by simp)⟩

/-- The trace is a conversation, and the state is what it says. -/
structure Converses (initial : Set NostrEventEntity) (s : RelayServer) : Prop where
  conversation : Conversation initial s.trace
  represents : Represents s (stateOf initial s.trace)

theorem Converses.step (h : Converses initial s) (c : Setting) (input : Input) (hinput : s.Takes input) :
    Converses initial (s.step c input) ∧ ∃ acts, Continues s (s.step c input) acts := by
  obtain ⟨acts, hcontinues, hexchange, hrepresents, -⟩ := goes_step (c := c) h.represents hinput
  refine ⟨⟨?_, ?_⟩, acts, hcontinues⟩
  · rw [hcontinues.trace]
    rcases hexchange with rfl | hexchange
    · rw [List.append_nil]
      exact h.conversation
    · exact .next h.conversation hexchange
  · rw [hcontinues.trace, stateOf_append]
    exact hrepresents

/-- The events of a log, as they are read over an empty buffer. -/
def eventsOf (log : EventLog) : Set NostrEventEntity := {e | ∃ rec ∈ log.records, e = eventDeserialize rec .zero}

theorem converses_start (serverSock : Int) (world : World) :
    Converses (eventsOf world.log) (.start serverSock world) := by
  have hslot : ∀ {i : Nat} {entry : Key × Spelt}, init.folded[i]? ≠ some (some entry) := fun h => by
    obtain ⟨-, hsub⟩ := slot_of_folded h
    have hzero := List.eq_of_mem_replicate (List.mem_of_getElem? hsub)
    cases hzero
  refine ⟨.start, fun fd => iff_of_false nofun (not_not.mpr rfl), named_init, fun h => absurd h hslot, fun key => ?_,
    fun rec hrec => ⟨_, ⟨rec, hrec, rfl⟩, shows_eventDeserialize rec⟩, fun e he => ?_⟩
  · rw [RelayServer.start, ServerState.start, SlotMap.lookup, SlotMap.slotOf_eq_none_iff.mpr fun i v => hslot]
    rfl
  · obtain ⟨rec, hrec, rfl⟩ := he
    exact ⟨rec, hrec, shows_eventDeserialize rec⟩

theorem opened_receiveCallback (s : RelayServer) (entity : WebSocketEntity) :
    (s.receiveCallback c fd entity).loop.opened = s.loop.opened := by
  rw [loop_receiveCallback, ServerState.receiveCallback]
  split
  · rfl
  split
  · exact (manager_handleReqMessage fd s.loop _).2
  · rfl
  · rfl
  · rfl

/-- **What each input keeps, an event of the loop keeps.** -/
theorem processTurn_preserves {Q : RelayServer → Prop} (hstep : ∀ s input, Q s → s.Takes input → Q (s.step c input))
    (h : Q s) {t : Turn} (ht : t.Possible s.loop) : Q (s.processTurn c t) := by
  have hframes : ∀ (entities : List WebSocketEntity) {s : RelayServer}, Q s →
      (entities ≠ [] → s.loop.opened t.fd ≠ none) →
      Q ((entities.map (Input.frame t.fd)).foldl (RelayServer.step c) s) := by
    intro entities
    induction entities with
    | nil => exact fun h _ => h
    | cons entity entities ih =>
      intro s h hopen
      have hfd := hopen (List.cons_ne_nil _ _)
      refine ih (hstep s (.frame t.fd entity) h hfd) fun _ => ?_
      exact fun hclosed => hfd ((congrFun (opened_receiveCallback s entity) t.fd).symm.trans hclosed)
  have htick := hstep s .tick h trivial
  rw [RelayServer.processTurn, inputs, List.foldl_cons]
  by_cases hserver : t.fd = s.loop.serverSock
  · rw [if_pos hserver]
    exact hstep _ (.accept t) htick fun fd hfd => (ht.fresh hserver fd hfd).2.2
  · rw [if_neg hserver, List.foldl_append]
    have hread := hframes (epollReceive c.buffer t).1 htick fun hne hclosed =>
      hne (epollReceive_closed fun bytes hbytes => ht.readable hserver bytes hbytes hclosed)
    split
    · exact hstep _ (.leave t.fd) hread trivial
    split
    · exact hstep _ .finish (hstep _ (.leave t.fd) hread trivial) trivial
    · exact hread

/-- The runs of a server that starts with a database. -/
abbrev ServerRun (c : Setting) (serverSock : Int) (world : World) : RelayServer → Prop :=
  Reaches (processTurn c) (fun s t => t.Possible s.loop) (.start serverSock world)

theorem converses_of_run {serverSock : Int} {world : World} (h : ServerRun c serverSock world s) :
    Converses (eventsOf world.log) s :=
  h.invariant (converses_start serverSock world) fun _ _ hs ht =>
    processTurn_preserves (fun _ input h hinput => (h.step c input hinput).1) hs ht

/-- What happens from some state of a run on. -/
theorem continues_of_run {serverSock : Int} {world : World} (h : ServerRun c serverSock world s) {s' : RelayServer}
    (hrun : Reaches (processTurn c) (fun s t => t.Possible s.loop) s s') : ∃ acts, Continues s s' acts := by
  have hstep : ∀ s' input, (Converses (eventsOf world.log) s' ∧ ∃ acts, Continues s s' acts) → s'.Takes input →
      Converses (eventsOf world.log) (s'.step c input) ∧ ∃ acts, Continues s (s'.step c input) acts := by
    rintro s' input ⟨hconverses, acts, hcontinues⟩ hinput
    obtain ⟨hstep, more, hmore⟩ := hconverses.step c input hinput
    exact ⟨hstep, acts ++ more, hcontinues.trans hmore⟩
  exact (hrun.invariant ⟨converses_of_run h, [], .refl s⟩ fun s' t hs ht => processTurn_preserves hstep hs ht).2

end RelayServer

end OnionRelay.Relay
