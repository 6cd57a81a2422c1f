import OnionRelay.Relay.Removal
import OnionRelay.Relay.Server

/-!
# What becomes of an event

`handle_event_message` over the server.  Until it has an answer, the handler is quiet:
nothing is sent, and the log only ages (`Quietly`).  Then it sends a verdict, or the event is
written, acknowledged and broadcast, or it is dropped (`Handled`).
-/

namespace OnionRelay.Relay

open OnionRelay.Lib OnionRelay.Db OnionRelay.Websocket NostrSubscriptionManager EventLog

/-! ## What the handlers of events ask -/

/-- A question that sends nothing and stores nothing. -/
def Quiet : RelayOp → Prop
  | .writeEvent _ => False
  | .sendOk _ _ _ => False
  | .findMatching _ => False
  | _ => True

theorem quiet_findPredecessors (pubkey : Bytes 32) (kind : Nat) : (findPredecessors pubkey kind).Asks Quiet := by
  rw [findPredecessors]
  refine .call_bind trivial fun created => ?_
  split
  · exact Prog.asks_pure _
  refine .call_bind trivial fun answer => ?_
  obtain ⟨err, offsets⟩ := answer
  dsimp only
  split
  · exact Prog.asks_pure _
  refine .call_bind trivial fun mapped => ?_
  split
  · exact Prog.asks_pure _
  · exact Prog.asks_pure _

theorem quiet_replaceableFirstPass (event : NostrEventEntity) : ∀ (offsets : List Nat) (existing : NostrEventEntity),
    (replaceableFirstPass event offsets existing).Asks Quiet
  | [], _ => Prog.asks_pure _
  | offset :: offsets, existing => by
    rw [replaceableFirstPass]
    refine .call_bind trivial fun answer => ?_
    obtain ⟨err, read⟩ := answer
    dsimp only
    split_ifs
    all_goals first
      | exact quiet_replaceableFirstPass event offsets read
      | exact Prog.asks_pure _

theorem quiet_replaceableSecondPass : ∀ (offsets : List Nat) (existing : NostrEventEntity),
    (replaceableSecondPass offsets existing).Asks Quiet
  | [], _ => Prog.asks_pure _
  | offset :: offsets, existing => by
    rw [replaceableSecondPass]
    refine .call_bind trivial fun answer => ?_
    obtain ⟨err, read⟩ := answer
    have hrest := quiet_replaceableSecondPass offsets read
    dsimp only
    split
    · split
      · exact .call_bind trivial fun _ => hrest
      · exact hrest
    · exact hrest

theorem quiet_addressableLoop (event : NostrEventEntity) (dValue : CStr) :
    ∀ (offsets : List Nat) (existing : NostrEventEntity), (addressableLoop event dValue offsets existing).Asks Quiet
  | [], _ => Prog.asks_pure _
  | offset :: offsets, existing => by
    rw [addressableLoop]
    refine .call_bind trivial fun answer => ?_
    obtain ⟨err, read⟩ := answer
    have hrest := quiet_addressableLoop event dValue offsets read
    dsimp only
    split_ifs
    · exact hrest
    · exact hrest
    · exact Prog.asks_pure _
    · exact Prog.asks_pure _
    · split
      · exact .call_bind trivial fun _ => hrest
      · exact hrest

theorem quiet_processETag (deletionPubkey : Bytes 32) (value : CStr) (s : DeletionState) :
    (processETag deletionPubkey value s).Asks Quiet := by
  rw [processETag]
  split
  · exact Prog.asks_pure _
  split
  · exact Prog.asks_pure _
  refine .call_bind trivial fun answer => ?_
  obtain ⟨err, target⟩ := answer
  dsimp only
  split
  · exact Prog.asks_pure _
  split
  · exact .call_bind trivial fun _ => Prog.asks_pure _
  · exact Prog.asks_pure _

theorem quiet_aTagLoop (deletionEvent : NostrEventEntity) (aDValue : CStr) :
    ∀ (offsets : List Nat) (target : NostrEventEntity), (aTagLoop deletionEvent aDValue offsets target).Asks Quiet
  | [], _ => Prog.asks_pure _
  | offset :: offsets, target => by
    rw [aTagLoop]
    refine .call_bind trivial fun answer => ?_
    obtain ⟨err, read⟩ := answer
    have hrest := quiet_aTagLoop deletionEvent aDValue offsets read
    dsimp only
    split
    · split
      · exact .call_bind trivial fun _ => hrest
      · exact hrest
    · exact hrest

theorem quiet_processATag (deletionPubkey : Bytes 32) (deletionEvent : NostrEventEntity) (value : CStr)
    (s : DeletionState) : (processATag deletionPubkey deletionEvent value s).Asks Quiet := by
  rw [processATag]
  split
  · exact Prog.asks_pure _
  split
  · exact Prog.asks_pure _
  refine .call_bind trivial fun created => ?_
  split
  · exact Prog.asks_pure _
  refine .call_bind trivial fun answer => ?_
  obtain ⟨err, offsets⟩ := answer
  dsimp only
  split
  · exact Prog.asks_pure _
  · exact .bind (quiet_aTagLoop _ _ _ _) fun _ => Prog.asks_pure _

theorem quiet_deletionLoop (deletionPubkey : Bytes 32) (deletionEvent : NostrEventEntity) :
    ∀ (tags : List NostrTagEntity) (s : DeletionState),
      (deletionLoop deletionPubkey deletionEvent tags s).Asks Quiet
  | [], _ => Prog.asks_pure _
  | tag :: tags, s => by
    rw [deletionLoop, processTag]
    refine .bind ?_ fun s' => quiet_deletionLoop deletionPubkey deletionEvent tags s'
    split
    · exact quiet_processETag _ _ _
    · exact quiet_processATag _ _ _ _
    · exact Prog.asks_pure _

/-! ## What fits -/

theorem length_jsonEscape_le (s : CStr) : (jsonEscape s).length ≤ 6 * s.length := by
  induction s with
  | nil => exact Nat.le_refl 0
  | cons c s ih =>
    rw [jsonEscape_cons, List.length_append, length_escapeChar, List.length_cons]
    have hchar := (escapeCharLen_bounds c).2
    omega

/-- A short string of the source. -/
def Short (message : String) : Prop := message.toList.length ≤ 64

instance (message : String) : Decidable (Short message) := inferInstanceAs (Decidable (_ ≤ _))

theorem length_literal (message : String) : (literal message).length = message.toList.length := by
  rw [literal, List.length_map]

/-- Messages other than events fit, if the id does and the text is short. -/
theorem fits_reply {id : CStr} (hid : id.length ≤ 64) {message : String} (hmessage : Short message) (accepted : Bool) :
    (ServerMessage.ok id accepted message).Fits ∧ (ServerMessage.closed id message).Fits ∧
      (ServerMessage.eose id).Fits ∧ (ServerMessage.notice message).Fits := by
  have hescaped := length_jsonEscape_le id
  have hliteral := length_jsonEscape_le (literal message)
  rw [length_literal] at hliteral
  have hshort : message.toList.length ≤ 64 := hmessage
  have hbool : (if accepted then [116, 114, 117, 101] else [102, 97, 108, 115, 101] : List UInt8).length ≤ 5 := by
    cases accepted <;> decide
  refine ⟨?_, ?_, ?_, ?_⟩ <;>
    simp only [ServerMessage.Fits, ServerMessage.text, ServerMessage.pieces, okPieces, closedPieces, eosePieces,
      noticePieces, messagePieces, piecesText, RESPONSE_BUFFER_SIZE, List.flatMap_append, List.flatMap_cons,
      List.flatMap_nil, Piece.text, List.length_append, List.length_cons, List.length_nil] <;>
    omega

namespace RelayServer

variable {c : Setting} {fd : Int} {s : RelayServer}

/-! ## Events -/

/-- Nothing was sent, and no record has come. -/
structure Quietly (s s' : RelayServer) : Prop where
  loop : s'.loop = s.loop
  trace : s'.trace = s.trace
  ages : Ages s.world.log s'.world.log

theorem Quietly.refl (s : RelayServer) : Quietly s s := ⟨rfl, rfl, .refl _⟩

theorem Quietly.trans {s s' s'' : RelayServer} (h : Quietly s s') (h' : Quietly s' s'') : Quietly s s'' :=
  ⟨h'.loop.trans h.loop, h'.trace.trans h.trace, h.ages.trans h'.ages⟩

theorem quietly_run (c : Setting) (fd : Int) {α : Type} {p : RelayM α} (hp : p.Asks Quiet) (s : RelayServer) :
    Quietly s (p.run (serve c fd) s).2 := by
  refine Prog.run_preserves_of_asks (fun o s' ho h => ?_) hp (.refl s)
  cases o with
  | writeEvent event => cases ho
  | sendOk eventId ok message => cases ho
  | findMatching event => cases ho
  | deleteEvent id => exact ⟨h.loop, h.trace, h.ages.trans (ages_deleteEvent _ id)⟩
  | getEventById id out => exact ⟨h.loop, h.trace, h.ages⟩
  | getEventAtOffset offset out => exact ⟨h.loop, h.trace, h.ages⟩
  | resultCreate => exact ⟨h.loop, h.trace, h.ages⟩
  | queryExecute filter => exact ⟨h.loop, h.trace, h.ages⟩
  | mmapEntity => exact ⟨h.loop, h.trace, h.ages⟩

/-- What is sent to a slot that matches. -/
def delivery (manager : NostrSubscriptionManager) (source : Int) (event : NostrEventEntity) (i : Nat) : Option Act :=
  let sub := manager.subscriptions.getD i .zero
  if sub.clientFd = source ∨ ¬ (ServerMessage.event sub.subscriptionId event).Fits then none
  else some (.sent sub.clientFd (.event sub.subscriptionId event))

theorem broadcast_eq (source : Int) (event : NostrEventEntity) (s : RelayServer) :
    s.broadcast source event =
      { s with
        trace := s.trace ++
          (s.loop.manager.findMatching event).filterMap (delivery s.loop.manager source event) } := by
  have hloop : ∀ (manager : NostrSubscriptionManager) (l : List Nat) (s : RelayServer),
      l.foldl (fun s' i => s'.broadcastToSubscription source event (manager.subscriptions.getD i .zero)) s =
        { s with trace := s.trace ++ l.filterMap (delivery manager source event) } := by
    intro manager l
    induction l with
    | nil => exact fun s => by rw [List.foldl_nil, List.filterMap_nil, List.append_nil]
    | cons i l ih =>
      intro s
      rw [List.foldl_cons, ih, broadcastToSubscription, List.filterMap_cons, delivery]
      by_cases hfd : (manager.subscriptions.getD i .zero).clientFd = source
      · rw [if_pos hfd, if_pos (.inl hfd)]
      · rw [if_neg hfd, send]
        by_cases hfits : (ServerMessage.event (manager.subscriptions.getD i .zero).subscriptionId event).Fits
        · rw [if_pos hfits, if_neg (not_or.mpr ⟨hfd, not_not.mpr hfits⟩)]
          dsimp only
          rw [List.append_assoc, List.singleton_append]
        · rw [if_neg hfits, if_pos (.inr hfits)]
  exact hloop s.loop.manager _ s

/-- On the world the server does what the handlers do without it. -/
theorem world_serve (o : RelayOp) (s : RelayServer) :
    (serve c fd o s).1 = (answer c.engine c.env o s.world).1 ∧
      (serve c fd o s).2.world = (answer c.engine c.env o s.world).2 := by
  cases o with
  | sendOk eventId ok message => exact ⟨rfl, world_send _⟩
  | findMatching event =>
    rw [serve, broadcast_eq]
    exact ⟨rfl, rfl⟩
  | _ => exact ⟨rfl, rfl⟩

theorem world_handleEventMessage (c : Setting) (fd : Int) (e : NostrEventEntity) (s : RelayServer) :
    (s.handleEventMessage c fd e).2.world = handleMessage c.engine c.env c.dbInitialized e s.world := by
  refine (Prog.run_simulates (R := fun (s : RelayServer) w => s.world = w) (fun o s w h => ?_) _ rfl).2
  subst h
  exact world_serve o s

/-- The verdict on an event that is not stored now, and what the handler returns. -/
inductive Verdict (log : EventLog) (id : CStr) : Bool → Bool → String → Prop
  | reject {message : String} (h : message ∈ rejections) : Verdict log id true false message
  | fail {message : String} (h : message ∈ failures) : Verdict log id false false message
  | duplicate (h : ∃ rec, log.Live rec ∧ rawToHex rec.id.1 = id) : Verdict log id true true "duplicate:"
  | deleted (h : id ∈ storedIds log) : Verdict log id true false "deleted: event was previously deleted"

variable {id : CStr} {returned ok : Bool} {message : String}

theorem Verdict.short {log : EventLog} (h : Verdict log id returned ok message) : Short message := by
  cases h with
  | reject h => exact (show ∀ message ∈ rejections, Short message by decide +kernel) message h
  | fail h => exact (show ∀ message ∈ failures, Short message by decide +kernel) message h
  | duplicate h => decide +kernel
  | deleted h => decide +kernel

/-- A verdict on the log as it has become is one on the log as it was. -/
theorem Verdict.of_ages {log log' : EventLog} (hages : Ages log log') (h : Verdict log' id returned ok message) :
    Verdict log id returned ok message := by
  cases h with
  | reject h => exact .reject h
  | fail h => exact .fail h
  | duplicate h =>
    obtain ⟨rec', hrec', rfl⟩ := h
    obtain ⟨rec, hrec, hid⟩ := hages.exists_live hrec'
    exact .duplicate ⟨rec, hrec, by rw [hid]⟩
  | deleted h => exact .deleted (hages.storedIds ▸ h)

/-- What the handler of an event can do. -/
inductive Handled (fd : Int) (e : NostrEventEntity) (s : RelayServer) : Bool × RelayServer → Prop
  | reply {returned ok : Bool} {message : String} {s' : RelayServer}
    (hverdict : Verdict s.world.log e.id returned ok message) (hloop : s'.loop = s.loop)
    (hages : Ages s.world.log s'.world.log)
    (htrace : s'.trace = s.trace ++ [.sent fd (.ok e.id ok message)]) : Handled fd e s (returned, s')
  | store {s' : RelayServer} (hnew : e.id ∉ storedIds s.world.log) (hloop : s'.loop = s.loop) {log : EventLog}
    (hages : Ages s.world.log log) {rec : EventRecord} (hrec : eventSerialize e = some rec)
    (hrecords : s'.world.log.records = log.records ++ [rec])
    (htrace : s'.trace = s.trace ++ .sent fd (.ok e.id true "") ::
      (s.loop.manager.findMatching e).filterMap (delivery s.loop.manager fd e)) : Handled fd e s (true, s')
  | drop {s' : RelayServer} (hkind : e.kind = 5) (hquiet : Quietly s s') : Handled fd e s (true, s')

/-- What is done quietly before does not matter. -/
theorem Handled.of_quietly {e : NostrEventEntity} {s s₁ : RelayServer} {r : Bool × RelayServer} (hquiet : Quietly s s₁)
    (h : Handled fd e s₁ r) : Handled fd e s r := by
  have hbefore := hquiet
  obtain ⟨hloop₁, htrace₁, hages₁⟩ := hbefore
  cases h with
  | reply hverdict hloop hages htrace =>
    rw [htrace₁] at htrace
    exact .reply (hverdict.of_ages hages₁) (hloop.trans hloop₁) (hages₁.trans hages) htrace
  | store hnew hloop hages hrec hrecords htrace =>
    rw [hages₁.storedIds] at hnew
    rw [htrace₁, hloop₁] at htrace
    exact .store hnew (hloop.trans hloop₁) (hages₁.trans hages) hrec hrecords htrace
  | drop hkind hdrop => exact .drop hkind (hquiet.trans hdrop)

variable {e : NostrEventEntity}

/-- A verdict is sent, and nothing else has been. -/
theorem Quietly.handled (hid : e.id.length ≤ 64) {s s₁ : RelayServer} (hquiet : Quietly s s₁)
    (hverdict : Verdict s₁.world.log e.id returned ok message) :
    Handled fd e s (returned, ((sendOkResponse e.id ok message).run (serve c fd) s₁).2) := by
  have hfits := (fits_reply hid hverdict.short ok).1
  have hrun : ((sendOkResponse e.id ok message).run (serve c fd) s₁).2 =
      ({ s₁ with world := (answer c.engine c.env (.sendOk e.id ok message) s₁.world).2 } : RelayServer).send fd
        (.ok e.id ok message) := rfl
  rw [hrun, send, if_pos hfits]
  exact .of_quietly hquiet (.reply hverdict rfl (.refl _) rfl)

theorem handled_storeAndBroadcast (c : Setting) (fd : Int) (he : e.Parsed) (s : RelayServer) :
    Handled fd e s ((storeAndBroadcast e).run (serve c fd) s) := by
  have hid : e.id.length ≤ 64 := he.id.length.le
  have hwrite : (Prog.call (S := RelaySig) (.writeEvent e)).run (serve c fd) s =
      ((s.world.log.writeEvent (c.env.storage s.world.storageCalls) e).1,
        { s with
          world := { s.world with
            log := (s.world.log.writeEvent (c.env.storage s.world.storageCalls) e).2
            storageCalls := s.world.storageCalls + 1 } }) := rfl
  have hcases := writeEvent_records he (c.unknown s.world.storageCalls) s.world.log
  simp only [storeAndBroadcast, Prog.run_bind, hwrite]
  generalize s.world.log.writeEvent (c.env.storage s.world.storageCalls) e = written at hcases
  obtain ⟨err, log⟩ := written
  rcases hcases with ⟨rfl, hnew, rec, hrec, hrecords⟩ | ⟨herr, rfl, hduplicate, hdeleted⟩
  · have hfits := (fits_reply hid (show Short "" from Nat.zero_le 64) true).1
    have hrun : ∀ s : RelayServer, (do
        sendOkResponse e.id true ""
        (Prog.call (S := RelaySig) (.findMatching e) : RelayM Unit)
        return true : RelayM Bool).run (serve c fd) s =
          (true, (({ s with world := (answer c.engine c.env (.sendOk e.id true "") s.world).2 } : RelayServer).send fd
            (.ok e.id true "")).broadcast fd e) := fun _ => rfl
    rw [hrun, broadcast_eq, send, if_pos hfits]
    refine .store hnew rfl (.refl _) hrec hrecords ?_
    dsimp only
    rw [List.append_assoc]
    rfl
  · have hquiet : Quietly s
        { s with world := { s.world with storageCalls := s.world.storageCalls + 1 } } := ⟨rfl, rfl, .refl _⟩
    cases err with
    | ok => exact absurd rfl herr
    | duplicate => exact hquiet.handled hid (.duplicate (hduplicate rfl))
    | deleted => exact hquiet.handled hid (.deleted (hdeleted rfl))
    | full => exact hquiet.handled hid (.fail (by simp [failures]))
    | invalidEvent => exact hquiet.handled hid (.fail (by simp [failures]))
    | _ => exact hquiet.handled hid (.fail (by simp [failures]))

/-- A check passes quietly, or has answered. -/
def Passes (fd : Int) (e : NostrEventEntity) (s : RelayServer) (r : Bool × RelayServer) : Prop :=
  if r.1 then Quietly s r.2 else Handled fd e s (true, r.2)

theorem passes_handleReplaceableCheck (he : e.Parsed) (s : RelayServer) :
    Passes fd e s ((handleReplaceableCheck e).run (serve c fd) s) := by
  obtain ⟨pubkey, hpubkey, -⟩ := hexStrToBin_of_lowerHex 32 e.pubkey he.pubkey
  simp only [handleReplaceableCheck, hpubkey, Prog.run_bind]
  have hfind := quietly_run c fd (quiet_findPredecessors pubkey e.kind) s
  generalize (findPredecessors pubkey e.kind).run (serve c fd) s = found at hfind
  obtain ⟨offsets, s₁⟩ := found
  dsimp only at hfind ⊢
  split
  · exact hfind
  rw [Prog.run_bind]
  have hfirst := quietly_run c fd (quiet_replaceableFirstPass e offsets .zero) s₁
  generalize (replaceableFirstPass e offsets .zero).run (serve c fd) s₁ = first at hfirst
  obtain ⟨⟨shouldStore, existing⟩, s₂⟩ := first
  dsimp only at hfirst ⊢
  split
  · exact (hfind.trans hfirst).handled he.id.length.le (.reject (by simp [rejections]))
  · rw [Prog.run_bind]
    exact (hfind.trans hfirst).trans (quietly_run c fd (quiet_replaceableSecondPass offsets existing) s₂)

theorem passes_handleAddressableCheck (he : e.Parsed) (s : RelayServer) :
    Passes fd e s ((handleAddressableCheck e).run (serve c fd) s) := by
  obtain ⟨pubkey, hpubkey, -⟩ := hexStrToBin_of_lowerHex 32 e.pubkey he.pubkey
  simp only [handleAddressableCheck, hpubkey, Prog.run_bind]
  have hfind := quietly_run c fd (quiet_findPredecessors pubkey e.kind) s
  generalize (findPredecessors pubkey e.kind).run (serve c fd) s = found at hfind
  obtain ⟨offsets, s₁⟩ := found
  dsimp only at hfind ⊢
  split
  · exact hfind
  rw [Prog.run_bind]
  have hloop := quietly_run c fd (quiet_addressableLoop e (getDTagValue e) offsets .zero) s₁
  generalize (addressableLoop e (getDTagValue e) offsets .zero).run (serve c fd) s₁ = looped at hloop
  obtain ⟨shouldStore, s₂⟩ := looped
  cases shouldStore with
  | true => exact hfind.trans hloop
  | false => exact (hfind.trans hloop).handled he.id.length.le (.reject (by simp [rejections]))

theorem passes_processDeletionEvent (he : e.Parsed) (hkind : e.kind = 5) (s : RelayServer) :
    Passes fd e s ((processDeletionEvent e).run (serve c fd) s) := by
  obtain ⟨pubkey, hpubkey, -⟩ := hexStrToBin_of_lowerHex 32 e.pubkey he.pubkey
  simp only [processDeletionEvent, hpubkey, Prog.run_bind]
  have hmap := quietly_run c fd (p := mmapEntity) ((Prog.asks_call _).mpr trivial) s
  generalize mmapEntity.run (serve c fd) s = mapped at hmap
  obtain ⟨granted, s₁⟩ := mapped
  dsimp only at hmap ⊢
  split
  · exact .drop hkind hmap
  rw [Prog.run_bind]
  have hloop := quietly_run c fd (quiet_deletionLoop pubkey e e.tags ⟨.zero, false⟩) s₁
  generalize (deletionLoop pubkey e e.tags ⟨.zero, false⟩).run (serve c fd) s₁ = looped at hloop
  obtain ⟨state, s₂⟩ := looped
  dsimp only at hloop ⊢
  split
  · exact (hmap.trans hloop).handled he.id.length.le (.reject (by simp [rejections]))
  · exact hmap.trans hloop

/-- A message goes on behind its check. -/
theorem Passes.handled {p : RelayM Bool} {next : RelayM Bool} {s : RelayServer}
    (h : Passes fd e s (p.run (serve c fd) s)) (hnext : ∀ s, Handled fd e s (next.run (serve c fd) s)) :
    Handled fd e s ((p >>= fun passed => if !passed then pure true else next).run (serve c fd) s) := by
  rw [Prog.run_bind]
  generalize p.run (serve c fd) s = checked at h
  obtain ⟨passed, s₁⟩ := checked
  cases passed with
  | true => exact .of_quietly h (hnext s₁)
  | false => exact h

/-- **What becomes of an event**, whatever its kind. -/
theorem handled_handleEventMessage (c : Setting) (fd : Int) (he : e.Parsed) (s : RelayServer) :
    Handled fd e s (s.handleEventMessage c fd e) := by
  have hstart : Quietly s { s with world := { s.world with replies := [] } } := ⟨rfl, rfl, .refl _⟩
  rw [RelayServer.handleEventMessage, Relay.handleEventMessage]
  have hstore := handled_storeAndBroadcast c fd he
  split
  · exact hstart.handled he.id.length.le (.fail (by simp [failures]))
  refine .of_quietly hstart ?_
  split
  · next hkind =>
    exact (passes_processDeletionEvent he (beq_iff_eq.mp hkind) _).handled hstore
  · dsimp only
    have haddressable : ∀ s, Handled fd e s ((if isAddressableKind e.kind = true then
        (handleAddressableCheck e >>= fun passed => if !passed then pure true else storeAndBroadcast e)
        else storeAndBroadcast e : RelayM Bool).run (serve c fd) s) := by
      intro s
      split
      · exact (passes_handleAddressableCheck he s).handled hstore
      · exact hstore s
    split
    · exact (passes_handleReplaceableCheck he _).handled haddressable
    · exact haddressable _

end RelayServer

end OnionRelay.Relay
