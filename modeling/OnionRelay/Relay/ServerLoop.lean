import OnionRelay.Nostr.Subscription
import OnionRelay.Websocket.Receive

/-!
# The server loop and its connections

`processEvent` is one round of `websocket_server_loop` over the events of a batch, with
the relay's callbacks: it accepts a client or reads from one.  What the system calls of
the round return is part of the event (`Turn`).

The loop remembers no time, the model does: `opened` is when a client's socket was
accepted and `added` when a subscription was added to its slot.  `active_isOpen` says that
no subscription outlives its connection.  Each path that closes a socket either runs the
disconnect callback or comes before any frame of the client was read (`kept_acceptHandle`,
`kept_disconnect`).
-/

namespace OnionRelay.Relay

open OnionRelay.Lib OnionRelay.Websocket

inductive HandshakeResult
  | error
  | nip11
  | webSocket
deriving DecidableEq, Repr

/-- One event of `epoll_wait`, and what the system calls return while it is processed. -/
structure Turn where
  fd : Int
  /-- `websocket_epoll_rise_error` -/
  error : Bool
  /-- `websocket_epoll_rise_input` -/
  input : Bool
  accepted : Except WebSocketErrorCode Int
  added : Bool
  /-- the first `websocket_recv` that is not to be tried again -/
  received : Except WebSocketErrorCode (List UInt8)
  /-- `extract_http_request` -/
  extracted : Bool
  handshake : HandshakeResult
  sent : Nat → WebSocketErrorCode
  signal : Nat → Bool

structure ServerState where
  serverSock : Int
  /-- the client sockets that are open, and when each was accepted -/
  opened : Int → Option Nat
  manager : NostrSubscriptionManager
  /-- when the subscription in a slot was added -/
  added : Nat → Nat
  clock : Nat
  finished : Bool

/-- A message of a client, as `nostr_event_handler` hands it to the callbacks. -/
inductive NostrMessage
  | event (event : NostrEventEntity)
  | req (req : NostrReqMessage)
  | close (subscriptionId : CStr)
  | invalid

namespace ServerState

def start (serverSock : Int) : ServerState :=
  ⟨serverSock, fun _ => none, .init, fun _ => 0, 0, false⟩

variable (s : ServerState)

def openSocket (fd : Int) : ServerState :=
  { s with opened := Function.update s.opened fd (some s.clock) }

/-- `websocket_close`. -/
def closeSocket (fd : Int) : ServerState :=
  { s with opened := Function.update s.opened fd none }

/-- `handle_req_message`, as far as it changes the subscriptions. -/
def handleReqMessage (clientSock : Int) (req : NostrReqMessage) : ServerState :=
  match s.manager.add clientSock req with
  | (some i, manager) =>
    { s with manager := manager, added := Function.update s.added i s.clock }
  | (none, manager) => { s with manager := manager }

/-- `handle_close_message`. -/
def handleCloseMessage (clientSock : Int) (subscriptionId : CStr) : ServerState :=
  { s with manager := (s.manager.remove clientSock subscriptionId).2 }

/-- `websocket_receive_callback`. -/
def receiveCallback (parse : WebSocketEntity → NostrMessage) (clientSock : Int)
    (entity : WebSocketEntity) : ServerState :=
  if entity.opcode ≠ WEBSOCKET_OP_CODE_TEXT then s
  else
    match parse entity with
    | .req req => s.handleReqMessage clientSock req
    | .close subscriptionId => s.handleCloseMessage clientSock subscriptionId
    | .event _ => s
    | .invalid => s

/-- The frames of one read, each given to the callback. -/
def receiveCallbacks (parse : WebSocketEntity → NostrMessage) (clientSock : Int)
    (entities : List WebSocketEntity) : ServerState :=
  entities.foldl (fun s entity => s.receiveCallback parse clientSock entity) s

/-- `websocket_disconnect_callback`. -/
def disconnectCallback (clientSock : Int) : ServerState :=
  { s with manager := (s.manager.removeClient clientSock).2 }

end ServerState

/-- `accept_handle`. -/
def acceptHandle (t : Turn) (s : ServerState) : Bool × ServerState :=
  match t.accepted with
  | .error code => (code ≠ .fatalError, s)
  | .ok clientSock =>
    let s := s.openSocket clientSock
    if !t.added then (false, s.closeSocket clientSock)
    else
      match t.received with
      | .error _ => (false, s.closeSocket clientSock)
      | .ok _ =>
        if !t.extracted then (false, s.closeSocket clientSock)
        else
          match t.handshake with
          | .error => (false, s.closeSocket clientSock)
          | .nip11 => (true, s.closeSocket clientSock)
          | .webSocket => (true, s)

/-- `epoll_accept`. -/
def epollAccept (t : Turn) (s : ServerState) : WebSocketErrorCode × ServerState :=
  if t.error then (.socketCloseError, s)
  else if !t.input then (.continuableError, s)
  else
    let accepted := acceptHandle t s
    if accepted.1 then (.none, accepted.2) else (.continuableError, accepted.2)

/-- `epoll_receive` on a client: the frames given to the receive callback, and the
code. -/
def epollReceive (buffer : WebSocketRawBuffer) (t : Turn) :
    List WebSocketEntity × WebSocketErrorCode :=
  if t.error then ([], .socketCloseError)
  else if !t.input then ([], .continuableError)
  else
    match t.received with
    | .error code =>
      if code = .fatalError ∨ code = .socketCloseError then ([], code)
      else ([], .continuableError)
    | .ok bytes => Websocket.epollReceive buffer t.sent t.signal bytes

/-- One event of a batch. -/
def processEvent (parse : WebSocketEntity → NostrMessage) (buffer : WebSocketRawBuffer)
    (s : ServerState) (t : Turn) : ServerState :=
  let s := { s with clock := s.clock + 1 }
  if t.fd = s.serverSock then
    let accepted := epollAccept t s
    if accepted.1 = .fatalError then { accepted.2 with finished := true } else accepted.2
  else
    let received := epollReceive buffer t
    let s := s.receiveCallbacks parse t.fd received.1
    if received.2 = .socketCloseError then (s.closeSocket t.fd).disconnectCallback t.fd
    else if received.2 = .fatalError then
      { (s.closeSocket t.fd).disconnectCallback t.fd with finished := true }
    else s

/-- What the operating system promises of an event: a new socket gets a number that is
not in use, and only an open socket has something to read. -/
structure Turn.Possible (s : ServerState) (t : Turn) : Prop where
  running : s.finished = false
  fresh : t.fd = s.serverSock → ∀ fd, t.accepted = .ok fd →
    0 ≤ fd ∧ fd ≠ s.serverSock ∧ s.opened fd = none
  readable : t.fd ≠ s.serverSock → ∀ bytes, t.received = .ok bytes → s.opened t.fd ≠ none

/-- Each active subscription is a client's whose socket is open and was opened before the
subscription was added. -/
def ActiveIsOpen (s : ServerState) : Prop :=
  ∀ (i : Nat) (sub : NostrSubscription), s.manager.subscriptions[i]? = some sub →
    sub.active = true → ∃ t, s.opened sub.clientFd = some t ∧ t < s.added i

/-! ## The slots after a call -/

section Slots

variable {manager : NostrSubscriptionManager} {clientFd : Int} {j : Nat} {sub : NostrSubscription}

theorem getElem?_setSlot {i count : Nat} {new : NostrSubscription}
    (h : (manager.setSlot i new count).subscriptions[j]? = some sub) :
    (j = i ∧ sub = new) ∨ (j ≠ i ∧ manager.subscriptions[j]? = some sub) := by
  rw [NostrSubscriptionManager.setSlot, List.getElem?_set] at h
  split at h
  · rename_i hij
    split at h
    · exact .inl ⟨hij.symm, (Option.some.inj h).symm⟩
    · cases h
  · exact .inr ⟨Ne.symm ‹_›, h⟩

/-- `add` writes the slot it returns, for its client, and no other. -/
theorem slot_add {req : NostrReqMessage}
    (h : (manager.add clientFd req).2.subscriptions[j]? = some sub) :
    ((manager.add clientFd req).1 = some j ∧ sub.clientFd = clientFd) ∨
      ((manager.add clientFd req).1 ≠ some j ∧ manager.subscriptions[j]? = some sub) := by
  rw [NostrSubscriptionManager.add] at h ⊢
  split at h
  · rename_i i hi
    have hfor := (NostrSubscriptionManager.slot_of_findIdx? hi).2
    rw [NostrSubscriptionManager.isFor, Bool.and_eq_true, Bool.and_eq_true,
      decide_eq_true_eq] at hfor
    rcases getElem?_setSlot h with ⟨rfl, rfl⟩ | ⟨hne, hold⟩
    · exact .inl ⟨rfl, hfor.1.2⟩
    · exact .inr ⟨fun hj => hne (Option.some.inj hj).symm, hold⟩
  · split at h
    · rcases getElem?_setSlot h with ⟨rfl, rfl⟩ | ⟨hne, hold⟩
      · exact .inl ⟨rfl, rfl⟩
      · exact .inr ⟨fun hj => hne (Option.some.inj hj).symm, hold⟩
    · exact .inr ⟨(Option.some_ne_none j).symm, h⟩

theorem slot_remove {id : CStr} (hactive : sub.active = true)
    (h : (manager.remove clientFd id).2.subscriptions[j]? = some sub) :
    manager.subscriptions[j]? = some sub := by
  rw [NostrSubscriptionManager.remove] at h
  split at h
  · rcases getElem?_setSlot h with ⟨-, rfl⟩ | hold
    · cases hactive
    · exact hold.2
  · exact h

theorem slot_removeClient (hactive : sub.active = true)
    (h : (manager.removeClient clientFd).2.subscriptions[j]? = some sub) :
    manager.subscriptions[j]? = some sub ∧ sub.clientFd ≠ clientFd := by
  rw [NostrSubscriptionManager.removeClient, List.getElem?_map, Option.map_eq_some_iff] at h
  obtain ⟨old, hold, hsub⟩ := h
  split at hsub
  · subst hsub
    cases hactive
  · rename_i hother
    subst hsub
    refine ⟨hold, fun hfd => hother ?_⟩
    show (old.active && decide (old.clientFd = clientFd)) = true
    rw [hactive, hfd, decide_eq_true rfl]
    rfl

end Slots

/-! ## What each step keeps -/

variable {s : ServerState}

/-- A client without a socket has no subscription, so its number may be given away. -/
theorem ActiveIsOpen.update (h : ActiveIsOpen s) {fd : Int} (hfd : s.opened fd = none)
    (o : Option Nat) : ActiveIsOpen { s with opened := Function.update s.opened fd o } := by
  intro i sub hsub hactive
  obtain ⟨t, ht, hlt⟩ := h i sub hsub hactive
  refine ⟨t, ?_, hlt⟩
  have hne : sub.clientFd ≠ fd := by
    rintro rfl
    rw [hfd] at ht
    cases ht
  exact (Function.update_of_ne hne o s.opened).trans ht

theorem kept_disconnect (h : ActiveIsOpen s) (fd : Int) :
    ActiveIsOpen ((s.closeSocket fd).disconnectCallback fd) := by
  intro i sub hsub hactive
  obtain ⟨hold, hne⟩ := slot_removeClient hactive hsub
  obtain ⟨t, ht, hlt⟩ := h i sub hold hactive
  have hopened : ((s.closeSocket fd).disconnectCallback fd).opened sub.clientFd =
    s.opened sub.clientFd := by
    rw [ServerState.disconnectCallback, ServerState.closeSocket]
    exact Function.update_of_ne hne none s.opened
  exact ⟨t, hopened.trans ht, hlt⟩

theorem kept_acceptHandle {t : Turn} (h : ActiveIsOpen s)
    (hfresh : ∀ fd, t.accepted = .ok fd → s.opened fd = none) :
    ActiveIsOpen (acceptHandle t s).2 := by
  have hclosed : ∀ fd, s.opened fd = none → ActiveIsOpen ((s.openSocket fd).closeSocket fd) := by
    intro fd hfd
    rw [ServerState.closeSocket, ServerState.openSocket]
    dsimp only
    rw [Function.update_idem]
    exact h.update hfd none
  rw [acceptHandle]
  cases haccepted : t.accepted with
  | error code => exact h
  | ok fd =>
    have hfd := hfresh fd haccepted
    dsimp only
    split
    · exact hclosed fd hfd
    split
    · exact hclosed fd hfd
    split
    · exact hclosed fd hfd
    split
    · exact hclosed fd hfd
    · exact hclosed fd hfd
    · exact h.update hfd _

/-- A frame of a client whose socket was open before adds no other subscription than
its own. -/
theorem kept_receiveCallback (parse : WebSocketEntity → NostrMessage) {fd : Int} {t : Nat}
    (h : ActiveIsOpen s) (hopen : s.opened fd = some t) (hlt : t < s.clock)
    (entity : WebSocketEntity) :
    ActiveIsOpen (s.receiveCallback parse fd entity) ∧
      (s.receiveCallback parse fd entity).opened = s.opened ∧
      (s.receiveCallback parse fd entity).clock = s.clock := by
  rw [ServerState.receiveCallback]
  split
  · exact ⟨h, rfl, rfl⟩
  split
  · rename_i req _
    rw [ServerState.handleReqMessage]
    have hslot := fun j sub => @slot_add s.manager fd j sub req
    split
    · rename_i i manager hadd
      rw [hadd] at hslot
      refine ⟨fun j sub hsub hactive => ?_, rfl, rfl⟩
      rcases hslot j sub hsub with ⟨hj, hfd⟩ | ⟨hne, hold⟩
      · obtain rfl := Option.some.inj hj
        refine ⟨t, hfd ▸ hopen, ?_⟩
        dsimp only
        rwa [Function.update_self]
      · obtain ⟨u, hu, hult⟩ := h j sub hold hactive
        have hji : j ≠ i := fun heq => hne (by rw [heq])
        refine ⟨u, hu, ?_⟩
        dsimp only
        rwa [Function.update_of_ne hji]
    · rename_i manager hadd
      rw [hadd] at hslot
      refine ⟨fun j sub hsub hactive => ?_, rfl, rfl⟩
      rcases hslot j sub hsub with ⟨hj, -⟩ | ⟨-, hold⟩
      · cases hj
      · exact h j sub hold hactive
  · rename_i subscriptionId _
    exact ⟨fun j sub hsub hactive => h j sub (slot_remove hactive hsub) hactive, rfl, rfl⟩
  · exact ⟨h, rfl, rfl⟩
  · exact ⟨h, rfl, rfl⟩

theorem kept_receiveCallbacks (parse : WebSocketEntity → NostrMessage) {fd : Int} {t : Nat}
    (entities : List WebSocketEntity) (h : ActiveIsOpen s) (hopen : s.opened fd = some t)
    (hlt : t < s.clock) :
    ActiveIsOpen (s.receiveCallbacks parse fd entities) ∧
      (s.receiveCallbacks parse fd entities).opened = s.opened ∧
      (s.receiveCallbacks parse fd entities).clock = s.clock := by
  induction entities generalizing s with
  | nil => exact ⟨h, rfl, rfl⟩
  | cons entity entities ih =>
    obtain ⟨hkept, hopened, hclock⟩ := kept_receiveCallback parse h hopen hlt entity
    have hrest := ih hkept (hopened ▸ hopen) (hclock ▸ hlt)
    rwa [hopened, hclock] at hrest

/-! ## Runs of the loop -/

/-- What holds between two events: the sockets that are open were opened before now. -/
structure LoopInv (s : ServerState) : Prop where
  activeIsOpen : ActiveIsOpen s
  openedBefore : ∀ fd t, s.opened fd = some t → t ≤ s.clock

/-- Without a socket nothing is read. -/
theorem epollReceive_closed {buffer : WebSocketRawBuffer} {t : Turn}
    (h : ∀ bytes, t.received ≠ .ok bytes) : (epollReceive buffer t).1 = [] := by
  rw [epollReceive]
  split
  · rfl
  split
  · rfl
  cases hreceived : t.received with
  | error code =>
    dsimp only
    split <;> rfl
  | ok bytes => exact absurd hreceived (h bytes)

/-- A socket that is open after `accept_handle` was open before, or is opened now. -/
theorem opened_acceptHandle (t : Turn) (s : ServerState) :
    (acceptHandle t s).2.clock = s.clock ∧
      ∀ fd u, (acceptHandle t s).2.opened fd = some u → s.opened fd = some u ∨ u = s.clock := by
  have hopened : ∀ client fd u, (s.openSocket client).opened fd = some u →
      s.opened fd = some u ∨ u = s.clock := by
    intro client fd u hu
    rw [ServerState.openSocket] at hu
    dsimp only at hu
    rw [Function.update_apply] at hu
    split at hu
    · exact .inr (Option.some.inj hu).symm
    · exact .inl hu
  have hclosed : ∀ client fd u, ((s.openSocket client).closeSocket client).opened fd = some u →
      s.opened fd = some u ∨ u = s.clock := by
    intro client fd u hu
    rw [ServerState.closeSocket] at hu
    dsimp only at hu
    rw [Function.update_apply] at hu
    split at hu
    · cases hu
    · exact hopened client fd u hu
  rw [acceptHandle]
  split
  · exact ⟨rfl, fun fd u hu => .inl hu⟩
  rename_i client _
  dsimp only
  split
  · exact ⟨rfl, hclosed client⟩
  split
  · exact ⟨rfl, hclosed client⟩
  split
  · exact ⟨rfl, hclosed client⟩
  split
  · exact ⟨rfl, hclosed client⟩
  · exact ⟨rfl, hclosed client⟩
  · exact ⟨rfl, hopened client⟩

/-- `epoll_accept` does nothing or what `accept_handle` does. -/
theorem epollAccept_snd (t : Turn) (s : ServerState) :
    (epollAccept t s).2 = s ∨ (epollAccept t s).2 = (acceptHandle t s).2 := by
  rw [epollAccept]
  dsimp only
  split
  · exact .inl rfl
  split
  · exact .inl rfl
  split <;> exact .inr rfl

theorem loopInv_processEvent (parse : WebSocketEntity → NostrMessage) (buffer : WebSocketRawBuffer)
    {t : Turn} (h : LoopInv s) (ht : t.Possible s) : LoopInv (processEvent parse buffer s t) := by
  have hactive : ActiveIsOpen { s with clock := s.clock + 1 } := h.activeIsOpen
  have hbefore : ∀ fd u, s.opened fd = some u → u ≤ s.clock + 1 := fun fd u hu =>
    Nat.le_succ_of_le (h.openedBefore fd u hu)
  rw [processEvent]
  dsimp only
  split
  · rename_i hserver
    have haccepted : LoopInv (epollAccept t { s with clock := s.clock + 1 }).2 := by
      rcases epollAccept_snd t { s with clock := s.clock + 1 } with hsame | hhandled
      · rw [hsame]
        exact ⟨hactive, hbefore⟩
      · obtain ⟨hclock, hopened⟩ := opened_acceptHandle t { s with clock := s.clock + 1 }
        rw [hhandled]
        refine ⟨kept_acceptHandle hactive fun fd hfd => (ht.fresh hserver fd hfd).2.2, ?_⟩
        intro fd u hu
        rw [hclock]
        exact (hopened fd u hu).elim (hbefore fd u) Nat.le_of_eq
    split
    · exact ⟨haccepted.activeIsOpen, haccepted.openedBefore⟩
    · exact haccepted
  · rename_i hclient
    have hframes : ActiveIsOpen (({ s with clock := s.clock + 1 } : ServerState).receiveCallbacks
          parse t.fd (epollReceive buffer t).1) ∧
        (({ s with clock := s.clock + 1 } : ServerState).receiveCallbacks
          parse t.fd (epollReceive buffer t).1).opened = s.opened ∧
        (({ s with clock := s.clock + 1 } : ServerState).receiveCallbacks
          parse t.fd (epollReceive buffer t).1).clock = s.clock + 1 := by
      cases hfd : s.opened t.fd with
      | none =>
        rw [epollReceive_closed fun bytes hbytes => ht.readable hclient bytes hbytes hfd]
        exact ⟨hactive, rfl, rfl⟩
      | some u =>
        exact kept_receiveCallbacks parse _ hactive hfd (Nat.lt_succ_of_le (h.openedBefore _ _ hfd))
    generalize ({ s with clock := s.clock + 1 } : ServerState).receiveCallbacks parse t.fd
      (epollReceive buffer t).1 = s' at hframes
    obtain ⟨hkept, hopened, hclock⟩ := hframes
    have hlater : ∀ fd u, s'.opened fd = some u → u ≤ s'.clock := by
      rw [hopened, hclock]
      exact hbefore
    have hclosed : LoopInv ((s'.closeSocket t.fd).disconnectCallback t.fd) := by
      refine ⟨kept_disconnect hkept t.fd, fun fd u hu => ?_⟩
      rw [ServerState.disconnectCallback, ServerState.closeSocket] at hu
      dsimp only at hu
      rw [Function.update_apply] at hu
      split at hu
      · cases hu
      · exact hlater fd u hu
    split
    · exact hclosed
    split
    · exact ⟨hclosed.activeIsOpen, hclosed.openedBefore⟩
    · exact ⟨hkept, hlater⟩

/-- **No subscription outlives its connection**: in every run of the loop, whatever the
clients send and the system calls return, each active subscription is a client's whose
socket is open and was opened before the subscription was added. -/
theorem active_isOpen (parse : WebSocketEntity → NostrMessage) (buffer : WebSocketRawBuffer)
    (serverSock : Int) {s : ServerState}
    (h : Reaches (processEvent parse buffer) (fun s t => t.Possible s) (.start serverSock) s) :
    ActiveIsOpen s := by
  have hstart : LoopInv (.start serverSock) := by
    refine ⟨fun i sub hsub hactive => ?_, fun fd t ht => by cases ht⟩
    rw [List.eq_of_mem_replicate (List.mem_of_getElem? hsub)] at hactive
    cases hactive
  exact (h.invariant hstart fun s t hs ht => loopInv_processEvent parse buffer hs ht).activeIsOpen

/-- A client is accepted on socket 5. -/
def acceptTurn : Turn where
  fd := 3
  error := false
  input := true
  accepted := .ok 5
  added := true
  received := .ok []
  extracted := true
  handshake := .webSocket
  sent := fun _ => .none
  signal := fun _ => false

/-- It sends a text. -/
def textTurn : Turn := { acceptTurn with fd := 5, received := .ok (wireBytes [greeting]) }

theorem active_isOpen_text :
    let loop := processEvent (fun _ => .req (kindReq [97] 1)) ⟨64, fun _ => 0, fun _ => 0⟩
    ActiveIsOpen (loop (loop (.start 3) acceptTurn) textTurn) := by
  have haccept : acceptTurn.Possible (.start 3) := by
    refine ⟨rfl, fun _ fd hfd => ?_, fun hne => absurd rfl hne⟩
    obtain rfl : (5 : Int) = fd := Except.ok.inj hfd
    exact ⟨by decide, by decide, rfl⟩
  have htext : textTurn.Possible (processEvent (fun _ => .req (kindReq [97] 1))
      ⟨64, fun _ => 0, fun _ => 0⟩ (.start 3) acceptTurn) := by
    refine ⟨rfl, fun hserver => absurd hserver (by decide), fun _ _ _ hclosed => ?_⟩
    have hopened : (processEvent (fun _ => .req (kindReq [97] 1)) ⟨64, fun _ => 0, fun _ => 0⟩
      (.start 3) acceptTurn).opened 5 = some 1 := rfl
    exact Option.some_ne_none 1 (hopened.symm.trans hclosed)
  exact active_isOpen _ _ 3 (.next (.next .start haccept) htext)

end OnionRelay.Relay
