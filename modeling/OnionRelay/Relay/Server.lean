import OnionRelay.Db.QueryEngine
import OnionRelay.Relay.Protocol
import OnionRelay.Relay.Reads

/-!
# The relay server

`main.c` over the loop of `ServerLoop.lean` and the database of `World.lean`: each frame
goes through the handler of messages to the callback of its kind, and each callback sends
what it answers.  The trace has the frames and what was sent, in order.

An event of `epoll_wait` is a list of `Input`s, one for each frame that was read.  So
what holds after each input holds between two frames of one read, too
(`loop_processTurn`).
-/

namespace OnionRelay.Relay

open OnionRelay.Lib OnionRelay.Db OnionRelay.Websocket

/-- What a server works with. -/
structure Setting where
  engine : QueryEngine
  sound : engine.Sound
  /-- `nostr_db_query_execute`, for the filters of a request -/
  query : Engine.NostrDBFilter → EventLog → NostrDBError × List Nat
  env : Env
  /-- a write that fails for want of room does not say that the id is known -/
  unknown : ∀ n err, env.storage n = some err → err.1 ≠ .duplicate ∧ err.1 ≠ .deleted
  dbInitialized : Bool
  buffer : WebSocketRawBuffer

structure RelayServer where
  loop : ServerState
  world : World
  trace : List Act

/-- `convert_filter_to_db_filter` -/
def convertFilterToDbFilter (filter : NostrFilter) : Engine.NostrDBFilter where
  ids := filter.ids.map NostrFilterId.value
  authors := filter.authors.map NostrFilterId.value
  kinds := filter.kinds
  tags := filter.tags.map fun tag => ⟨tag.name, tag.values⟩
  since := filter.since
  until_ := filter.until_
  limit := if filter.hasLimit then filter.limit else Engine.queryDefaultLimit

/-- The payload of a frame, which the callback ends with a zero. -/
def payloadOf (entity : WebSocketEntity) : List UInt8 :=
  readAt entity.payload 0
    (if entity.payloadLen = 126 ∨ entity.payloadLen = 127 then entity.extPayloadLen.toNat
      else entity.payloadLen.toNat)

namespace RelayServer

def start (serverSock : Int) (world : World) : RelayServer := ⟨.start serverSock, world, []⟩

variable (c : Setting) (fd : Int) (s : RelayServer)

/-- A message that does not fit is not sent (`sendMessage_eq`). -/
def send (message : ServerMessage) : RelayServer :=
  if message.Fits then { s with trace := s.trace ++ [.sent fd message] } else s

/-- `broadcast_to_subscription` -/
def broadcastToSubscription (source : Int) (event : NostrEventEntity) (subscription : NostrSubscription) :
    RelayServer :=
  if subscription.clientFd = source then s
  else s.send subscription.clientFd (.event subscription.subscriptionId event)

/-- `nostr_subscription_find_matching`, with `broadcast_to_subscription`. -/
def broadcast (source : Int) (event : NostrEventEntity) : RelayServer :=
  (s.loop.manager.findMatching event).foldl
    (fun s' i => s'.broadcastToSubscription source event (s.loop.manager.subscriptions.getD i .zero)) s

/-- What the handlers of events call. -/
def serve : Handler RelaySig RelayServer
  | .sendOk eventId ok message, s =>
    ((), ({ s with world := (answer c.engine c.env (.sendOk eventId ok message) s.world).2 } : RelayServer).send fd
      (.ok eventId ok message))
  | .findMatching event, s => ((), s.broadcast fd event)
  | o, s => ((answer c.engine c.env o s.world).1, { s with world := (answer c.engine c.env o s.world).2 })

/-- `handle_event_message` -/
def handleEventMessage (event : NostrEventEntity) : Bool × RelayServer :=
  (Relay.handleEventMessage c.dbInitialized event).run (serve c fd)
    { s with world := { s.world with replies := [] } }

/-- The loop over the results of a filter, which reads each into `event`. -/
def sendFound (subscriptionId : CStr) : List Nat → NostrEventEntity → RelayServer → RelayServer
  | [], _, s => s
  | offset :: offsets, event, s =>
    let read := s.world.log.getEventAtOffset offset event
    sendFound subscriptionId offsets read.2 (if read.1 = .ok then s.send fd (.event subscriptionId read.2) else s)

/-- A request for memory. -/
def allocate : Bool × RelayServer := (c.env.memory s.world.memoryCalls, { s with world := s.world.tick })

/-- One filter of a request: `nostr_db_result_create`, the query, and `internal_mmap` for
the entity. -/
def queryFilter (subscriptionId : CStr) (filter : NostrFilter) : RelayServer :=
  let (created, s) := s.allocate c
  if !created then s
  else
    let (granted, s) := s.allocate c
    let (err, offsets) :=
      if granted then c.query (convertFilterToDbFilter filter) s.world.log else (.mmapFailed, [])
    if err ≠ .ok ∨ offsets.length = 0 then s
    else
      let (mapped, s) := s.allocate c
      if !mapped then s else sendFound fd subscriptionId offsets .zero s

/-- `handle_req_message` -/
def handleReqMessage (req : NostrReqMessage) : Bool × RelayServer :=
  let added := s.loop.manager.add fd req
  let s := { s with loop := s.loop.handleReqMessage fd req }
  if added.1 = none then
    (false, s.send fd (.closed req.subscriptionId "error: subscription limit reached"))
  else
    let s :=
      if c.dbInitialized then
        req.filters.foldl (fun s filter => s.queryFilter c fd req.subscriptionId filter) s
      else s
    (true, s.send fd (.eose req.subscriptionId))

/-- `handle_close_message` -/
def handleCloseMessage (subscriptionId : CStr) : Bool × RelayServer :=
  let removed := s.loop.manager.remove fd subscriptionId
  let s := { s with loop := s.loop.handleCloseMessage fd subscriptionId }
  (true, if removed.1 then s.send fd (.closed subscriptionId "") else s)

/-- The callback for a message, and what it returns. -/
def handle : NostrMessage → Bool × RelayServer
  | .event event => s.handleEventMessage c fd event
  | .req req => s.handleReqMessage c fd req
  | .close subscriptionId => s.handleCloseMessage fd subscriptionId
  | .invalid => (false, s)

/-- `websocket_receive_callback` -/
def receiveCallback (entity : WebSocketEntity) : RelayServer :=
  if entity.opcode ≠ WEBSOCKET_OP_CODE_TEXT then s
  else
    let message := nostrEventHandler (payloadOf entity)
    let handled := ({ s with trace := s.trace ++ [.received fd message] } : RelayServer).handle c fd message
    if handled.1 then handled.2 else handled.2.send fd invalidFormat

end RelayServer

/-- What an event of `epoll_wait` consists of. -/
inductive Input
  | tick
  | accept (t : Turn)
  | frame (fd : Int) (entity : WebSocketEntity)
  | leave (fd : Int)
  | finish

/-- Whether `accept_handle` comes to the connect callback with a client. -/
def connects (t : Turn) : List Act :=
  if t.error then []
  else if !t.input then []
  else
    match t.accepted with
    | .error _ => []
    | .ok clientSock =>
      if !t.added then []
      else
        match t.received with
        | .error _ => []
        | .ok _ =>
          if !t.extracted then []
          else
            match t.handshake with
            | .error => []
            | .nip11 => []
            | .webSocket => [.connected clientSock]

namespace RelayServer

/-- One input. -/
def step (c : Setting) (s : RelayServer) : Input → RelayServer
  | .tick => { s with loop := { s.loop with clock := s.loop.clock + 1 } }
  | .accept t =>
    let accepted := epollAccept t s.loop
    { s with
      loop := if accepted.1 = .fatalError then { accepted.2 with finished := true } else accepted.2
      trace := s.trace ++ connects t }
  | .frame fd entity => s.receiveCallback c fd entity
  | .leave fd =>
    { s with
      loop := (s.loop.closeSocket fd).disconnectCallback fd
      trace := s.trace ++ [.disconnected fd] }
  | .finish => { s with loop := { s.loop with finished := true } }

/-- The inputs of one event: of a client, the frames that were read, and its end. -/
def inputs (buffer : WebSocketRawBuffer) (serverSock : Int) (t : Turn) : List Input :=
  .tick ::
    if t.fd = serverSock then [.accept t]
    else
      let received := epollReceive buffer t
      received.1.map (.frame t.fd) ++
        if received.2 = .socketCloseError then [.leave t.fd]
        else if received.2 = .fatalError then [.leave t.fd, .finish]
        else []

/-- One event of a batch. -/
def processTurn (c : Setting) (s : RelayServer) (t : Turn) : RelayServer :=
  (inputs c.buffer s.loop.serverSock t).foldl (step c) s

/-! ## The loop of the server -/

variable {c : Setting} {fd : Int} {s : RelayServer}

@[simp] theorem loop_send (message : ServerMessage) : (s.send fd message).loop = s.loop := by
  rw [send]
  split <;> rfl

@[simp] theorem world_send (message : ServerMessage) : (s.send fd message).world = s.world := by
  rw [send]
  split <;> rfl

@[simp] theorem loop_broadcastToSubscription (source : Int) (event : NostrEventEntity)
    (subscription : NostrSubscription) : (s.broadcastToSubscription source event subscription).loop = s.loop := by
  rw [broadcastToSubscription]
  split
  · rfl
  · exact loop_send _

/-- Sending in a loop leaves the rest as it is. -/
theorem foldl_congr_of_step {α β : Type} (view : RelayServer → β) {send : RelayServer → α → RelayServer}
    (hsend : ∀ s a, view (send s a) = view s) (l : List α) (s : RelayServer) : view (l.foldl send s) = view s := by
  induction l generalizing s with
  | nil => rfl
  | cons a l ih => exact (ih _).trans (hsend s a)

theorem loop_broadcast (source : Int) (event : NostrEventEntity) : (s.broadcast source event).loop = s.loop :=
  foldl_congr_of_step loop (fun _ _ => loop_broadcastToSubscription source event _) _ s

theorem loop_serve (o : RelayOp) (s : RelayServer) : (serve c fd o s).2.loop = s.loop := by
  cases o with
  | sendOk eventId ok message => exact loop_send _
  | findMatching event => exact loop_broadcast fd event
  | _ => rfl

/-- What is found and fits is sent. -/
theorem sendFound_eq (subscriptionId : CStr) : ∀ (offsets : List Nat) (event : NostrEventEntity) (s : RelayServer),
    sendFound fd subscriptionId offsets event s =
      { s with
        trace := s.trace ++ ((readBack s.world.log offsets event).filter
          fun e => (ServerMessage.event subscriptionId e).Fits).map fun e => .sent fd (.event subscriptionId e) }
  | [], event, s => by rw [sendFound, readBack, List.filter_nil, List.map_nil, List.append_nil]
  | offset :: offsets, event, s => by
    rw [sendFound]
    rcases getEventAtOffset_cases s.world.log offset event with ⟨rec, hrec, hlive, hread⟩ | ⟨hdead, hread⟩
    · rw [hread, readBack_cons_live hrec hlive, List.filter_cons]
      dsimp only
      rw [if_pos rfl, sendFound_eq subscriptionId offsets, world_send, send]
      by_cases hfits : (ServerMessage.event subscriptionId (eventDeserialize rec event)).Fits
      · rw [if_pos hfits, if_pos (decide_eq_true hfits), List.map_cons]
        dsimp only
        rw [List.append_assoc, List.singleton_append]
      · rw [if_neg hfits, if_neg (by simpa using hfits)]
    · rw [hread, readBack_cons_dead hdead]
      exact sendFound_eq subscriptionId offsets event s

/-- Events of the log, which fit. -/
structure Found (log : EventLog) (subscriptionId : CStr) (found : List NostrEventEntity) : Prop where
  live : ∀ e ∈ found, ∃ rec out, log.Live rec ∧ e = eventDeserialize rec out
  fits : ∀ e ∈ found, (ServerMessage.event subscriptionId e).Fits

theorem found_nil (log : EventLog) (subscriptionId : CStr) : Found log subscriptionId [] := ⟨nofun, nofun⟩

/-- The filters of a request change nothing but the trace, and the count of the requests for memory. -/
structure Queried (fd : Int) (subscriptionId : CStr) (events : List NostrEventEntity) (s s' : RelayServer) : Prop where
  found : Found s.world.log subscriptionId events
  loop : s'.loop = s.loop
  log : s'.world.log = s.world.log
  trace : s'.trace = s.trace ++ events.map fun e => .sent fd (.event subscriptionId e)

theorem queried_queryFilter (c : Setting) (fd : Int) (subscriptionId : CStr) (filter : NostrFilter) (s : RelayServer) :
    ∃ found, Queried fd subscriptionId found s (s.queryFilter c fd subscriptionId filter) := by
  have hnothing : ∀ w : World, w.log = s.world.log →
      ∃ found, Queried fd subscriptionId found s { s with world := w } := fun w hw =>
    ⟨[], found_nil _ _, rfl, hw, (List.append_nil _).symm⟩
  have hloop : ∀ (offsets : List Nat) (w : World), w.log = s.world.log →
      ∃ found, Queried fd subscriptionId found s (sendFound fd subscriptionId offsets .zero { s with world := w }) := by
    intro offsets w hw
    refine ⟨(readBack w.log offsets .zero).filter fun e => (ServerMessage.event subscriptionId e).Fits,
      ⟨fun e he => ?_, fun e he => ?_⟩, ?_, ?_, ?_⟩
    · obtain ⟨offset, -, rec, out, hrec, hlive, rfl⟩ := mem_readBack (List.mem_of_mem_filter he)
      exact ⟨rec, out, ⟨List.mem_of_getElem? (hw ▸ hrec), hlive⟩, rfl⟩
    · simpa using (List.mem_filter.mp he).2
    · rw [sendFound_eq]
    · rw [sendFound_eq]
      exact hw
    · rw [sendFound_eq]
  have hresult : ∀ (result : NostrDBError × List Nat) (w : World), w.log = s.world.log →
      ∃ found, Queried fd subscriptionId found s
        (if result.1 ≠ .ok ∨ result.2.length = 0 then { s with world := w }
          else if !c.env.memory w.memoryCalls then { s with world := w.tick }
          else sendFound fd subscriptionId result.2 .zero { s with world := w.tick }) := by
    intro result w hw
    split
    · exact hnothing w hw
    split
    · exact hnothing w.tick hw
    · exact hloop result.2 w.tick hw
  rw [queryFilter]
  dsimp only [allocate]
  split
  · exact hnothing _ rfl
  · exact hresult _ s.world.tick.tick rfl

theorem queried_filters (c : Setting) (fd : Int) (subscriptionId : CStr) (filters : List NostrFilter) (s : RelayServer) :
    ∃ found, Queried fd subscriptionId found s
      (filters.foldl (fun s filter => s.queryFilter c fd subscriptionId filter) s) := by
  induction filters generalizing s with
  | nil => exact ⟨[], found_nil _ _, rfl, rfl, (List.append_nil _).symm⟩
  | cons filter filters ih =>
    obtain ⟨found, hfound⟩ := queried_queryFilter c fd subscriptionId filter s
    obtain ⟨more, hmore⟩ := ih (s.queryFilter c fd subscriptionId filter)
    refine ⟨found ++ more, ⟨fun e he => ?_, fun e he => ?_⟩, hmore.loop.trans hfound.loop,
      hmore.log.trans hfound.log, ?_⟩
    · exact (List.mem_append.mp he).elim (hfound.found.live e) fun he => hfound.log ▸ hmore.found.live e he
    · exact (List.mem_append.mp he).elim (hfound.found.fits e) (hmore.found.fits e)
    · rw [List.map_append, ← List.append_assoc, ← hfound.trace]
      exact hmore.trace

/-- The callbacks change the loop as `ServerLoop.lean` has it. -/
theorem loop_receiveCallback (entity : WebSocketEntity) :
    (s.receiveCallback c fd entity).loop =
      s.loop.receiveCallback (fun entity => nostrEventHandler (payloadOf entity)) fd entity := by
  rw [receiveCallback, ServerState.receiveCallback]
  split
  · rfl
  dsimp only
  have hnotice : ∀ handled : Bool × RelayServer,
      (if handled.1 then handled.2 else handled.2.send fd invalidFormat).loop = handled.2.loop := by
    intro handled
    split
    · rfl
    · exact loop_send _
  rw [hnotice]
  generalize nostrEventHandler (payloadOf entity) = message
  cases message with
  | event event => exact Prog.run_preserves (fun o s' h => (loop_serve o s').trans h) _ rfl
  | invalid => rfl
  | close subscriptionId =>
    rw [handle, handleCloseMessage]
    dsimp only
    split
    · exact loop_send _
    · rfl
  | req req =>
    rw [handle, handleReqMessage]
    dsimp only
    split
    · exact loop_send _
    · rw [loop_send]
      split
      · obtain ⟨found, hqueried⟩ := queried_filters c fd req.subscriptionId req.filters
          { s with trace := s.trace ++ [.received fd (.req req)], loop := s.loop.handleReqMessage fd req }
        exact hqueried.loop
      · rfl

/-- The server over the loop. -/
theorem loop_processTurn (c : Setting) (s : RelayServer) (t : Turn) :
    (s.processTurn c t).loop =
      processEvent (fun entity => nostrEventHandler (payloadOf entity)) c.buffer s.loop t := by
  have hframes : ∀ (entities : List WebSocketEntity) (s : RelayServer),
      ((entities.map (Input.frame t.fd)).foldl (step c) s).loop =
        s.loop.receiveCallbacks (fun entity => nostrEventHandler (payloadOf entity)) t.fd entities := by
    intro entities
    induction entities with
    | nil => exact fun _ => rfl
    | cons entity entities ih =>
      intro s
      rw [List.map_cons, List.foldl_cons, ih, step, loop_receiveCallback]
      rfl
  rw [processTurn, inputs, processEvent, List.foldl_cons]
  dsimp only [step]
  by_cases hserver : t.fd = s.loop.serverSock
  · rw [if_pos hserver, if_pos hserver]
    rfl
  · have hloop := hframes (epollReceive c.buffer t).1 { s with loop := { s.loop with clock := s.loop.clock + 1 } }
    dsimp only at hloop
    rw [if_neg hserver, if_neg hserver, List.foldl_append]
    by_cases hclosed : (epollReceive c.buffer t).2 = .socketCloseError
    · rw [if_pos hclosed, if_pos hclosed, ← hloop]
      rfl
    · rw [if_neg hclosed, if_neg hclosed]
      by_cases hfatal : (epollReceive c.buffer t).2 = .fatalError
      · rw [if_pos hfatal, if_pos hfatal, ← hloop]
        rfl
      · rw [if_neg hfatal, if_neg hfatal, ← hloop]
        rfl

end RelayServer

end OnionRelay.Relay
