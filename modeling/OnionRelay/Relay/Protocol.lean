import OnionRelay.Db.LogHistory
import OnionRelay.Lib.Trace
import OnionRelay.Nostr.SubscriptionTable
import OnionRelay.Relay.MessageHandler
import OnionRelay.Relay.Outgoing
import Mathlib.Data.Set.Insert

/-!
# The conversation of the relay with its clients

What the relay is for, as its clients see it.  Who is connected, what each has subscribed
to and which events are stored follows from the trace (`stateOf`).  An `Exchange` is one
frame of a client with the messages that answer it, or the start or the end of a
connection, and a `Conversation` is a trace of exchanges.

Of a conversation this says, from its trace alone:

* `throughout_connected`: a message goes to a client that is connected.
* `throughout_asked`: an event goes out under an id that its client has asked for, and
  has not taken back since.
* `throughout_acknowledged`: an event that goes out is a copy of one that a client sent and
  that was acknowledged, and no id is acknowledged as new a second time.
* `delivers`: an event that is acknowledged as new goes out at once, to each subscription of
  another client that it matches.
-/

namespace OnionRelay.Relay

open OnionRelay.Lib OnionRelay.Lib.Trace OnionRelay.Db NostrSubscriptionManager

/-- A callback of the server loop, a message, or what is sent. -/
inductive Act
  | connected (fd : Int)
  | disconnected (fd : Int)
  | received (fd : Int) (message : NostrMessage)
  | sent (fd : Int) (message : ServerMessage)

structure RelayState where
  clients : Set Int
  table : Key → Option Spelt
  stored : Set NostrEventEntity
  /-- the event that was received last, until something else happens -/
  pending : Option (Int × NostrEventEntity)

namespace RelayState

/-- Before anybody is connected, with the events of the database. -/
def init (initial : Set NostrEventEntity) : RelayState := ⟨∅, fun _ => none, initial, none⟩

variable (p : RelayState)

def Knows (id : CStr) : Prop := ∃ e ∈ p.stored, e.id = id

def Accepts (key : Key) : Prop :=
  p.table key ≠ none ∨ {k | p.table k ≠ none}.ncard < NOSTR_SUBSCRIPTION_MAX_COUNT

/-- What the table has of a request: a subscription keeps its first spelling. -/
def subscription (fd : Int) (req : NostrReqMessage) : Spelt :=
  (((p.table (keyOf fd req.subscriptionId)).map Prod.fst).getD req.subscriptionId, req.filters)

def subscribe (fd : Int) (req : NostrReqMessage) : RelayState :=
  { p with table := Function.update p.table (keyOf fd req.subscriptionId) (some (p.subscription fd req)) }

def unsubscribe (fd : Int) (id : CStr) : RelayState :=
  { p with table := Function.update p.table (keyOf fd id) none }

def leave (fd : Int) : RelayState :=
  { p with
    clients := p.clients \ {fd}
    table := fun key => if key.1 = fd then none else p.table key }

/-- An event is stored once it is acknowledged as new. -/
def acknowledge (fd : Int) : ServerMessage → RelayState
  | .ok id true "" => { p with stored := {e | e ∈ p.stored ∨ p.pending = some (fd, e) ∧ e.id = id} }
  | _ => p

def pendingAfter : Act → Option (Int × NostrEventEntity)
  | .received fd (.event e) => some (fd, e)
  | _ => none

open Classical in
noncomputable def change : Act → RelayState
  | .connected fd => { p with clients := insert fd p.clients }
  | .disconnected fd => p.leave fd
  | .received fd (.req req) => if p.Accepts (keyOf fd req.subscriptionId) then p.subscribe fd req else p
  | .received fd (.close id) => p.unsubscribe fd id
  | .received _ (.event _) => p
  | .received _ .invalid => p
  | .sent fd message => p.acknowledge fd message

/-- What becomes of the state. -/
noncomputable def after (a : Act) : RelayState := { p.change a with pending := pendingAfter a }

/-- An event goes once to each subscription of another client that it matches. -/
structure Delivers (fd : Int) (e : NostrEventEntity) (acts : List Act) : Prop where
  nodup : acts.Nodup
  mem_iff : ∀ a, a ∈ acts ↔ ∃ key id filters, p.table key = some (id, filters) ∧ key.1 ≠ fd ∧
    (∃ filter ∈ filters, nostrFilterMatches filter e = true) ∧ (ServerMessage.event id e).Fits ∧
      a = .sent key.1 (.event id e)

end RelayState

noncomputable def stateOf (initial : Set NostrEventEntity) (trace : List Act) : RelayState :=
  trace.foldl RelayState.after (.init initial)

def invalidFormat : ServerMessage := .notice "error: invalid message format"

/-- The verdicts on an event that is not stored. -/
def rejections : List String :=
  ["duplicate: have a newer event", "blocked: cannot delete other's events"]

/-- Those after which the message is reported as invalid, too. -/
def failures : List String :=
  ["error: database not initialized", "error: database full", "error: invalid event",
    "error: failed to save event"]

/-- One frame of a client, or the start or the end of a connection. -/
inductive Exchange (p : RelayState) : List Act → Prop
  | connect {fd : Int} (hclient : fd ∉ p.clients) : Exchange p [.connected fd]
  | disconnect {fd : Int} : Exchange p [.disconnected fd]
  | invalid {fd : Int} (hclient : fd ∈ p.clients) :
    Exchange p [.received fd .invalid, .sent fd invalidFormat]
  | subscribe {fd : Int} (hclient : fd ∈ p.clients) {req : NostrReqMessage}
    (hroom : p.Accepts (keyOf fd req.subscriptionId)) {found : List NostrEventEntity}
    (hfound : ∀ e ∈ found, (∃ e' ∈ p.stored, Copy e' e) ∧ (ServerMessage.event req.subscriptionId e).Fits) :
    Exchange p
      (.received fd (.req req) :: ((found.map fun e => .sent fd (.event req.subscriptionId e)) ++
        [.sent fd (.eose req.subscriptionId)]))
  | refuse {fd : Int} (hclient : fd ∈ p.clients) {req : NostrReqMessage}
    (hfull : ¬ p.Accepts (keyOf fd req.subscriptionId)) :
    Exchange p [.received fd (.req req),
      .sent fd (.closed req.subscriptionId "error: subscription limit reached"), .sent fd invalidFormat]
  | unsubscribe {fd : Int} (hclient : fd ∈ p.clients) {id : CStr} (hthere : p.table (keyOf fd id) ≠ none) :
    Exchange p [.received fd (.close id), .sent fd (.closed id "")]
  | closeNothing {fd : Int} (hclient : fd ∈ p.clients) {id : CStr} (hthere : p.table (keyOf fd id) = none) :
    Exchange p [.received fd (.close id)]
  | store {fd : Int} (hclient : fd ∈ p.clients) {e : NostrEventEntity} (hnew : ¬ p.Knows e.id)
    {deliveries : List Act} (hdeliveries : p.Delivers fd e deliveries) :
    Exchange p (.received fd (.event e) :: .sent fd (.ok e.id true "") :: deliveries)
  | duplicate {fd : Int} (hclient : fd ∈ p.clients) {e : NostrEventEntity} (hknown : p.Knows e.id) :
    Exchange p [.received fd (.event e), .sent fd (.ok e.id true "duplicate:")]
  | deleted {fd : Int} (hclient : fd ∈ p.clients) {e : NostrEventEntity} (hknown : p.Knows e.id) :
    Exchange p [.received fd (.event e), .sent fd (.ok e.id false "deleted: event was previously deleted")]
  | reject {fd : Int} (hclient : fd ∈ p.clients) {e : NostrEventEntity} {message : String}
    (hmessage : message ∈ rejections) :
    Exchange p [.received fd (.event e), .sent fd (.ok e.id false message)]
  | fail {fd : Int} (hclient : fd ∈ p.clients) {e : NostrEventEntity} {message : String}
    (hmessage : message ∈ failures) :
    Exchange p [.received fd (.event e), .sent fd (.ok e.id false message), .sent fd invalidFormat]
  /-- a deletion for which there is no scratch memory -/
  | drop {fd : Int} (hclient : fd ∈ p.clients) {e : NostrEventEntity} (hkind : e.kind = 5) :
    Exchange p [.received fd (.event e)]

inductive Conversation (initial : Set NostrEventEntity) : List Act → Prop
  | start : Conversation initial []
  | next {trace acts : List Act} : Conversation initial trace → Exchange (stateOf initial trace) acts →
    Conversation initial (trace ++ acts)

/-! ## What an exchange can do -/

/-- Why a message is sent, behind what else of the exchange. -/
inductive Sends (p : RelayState) : List Act → Int → ServerMessage → Prop
  | reply {fd : Int} (hclient : fd ∈ p.clients) {message : ServerMessage}
    (hevent : ∀ id e, message ≠ .event id e) (heose : ∀ id, message ≠ .eose id)
    (hok : ∀ id text, message = .ok id true text → text ≠ "" ∧ p.Knows id)
    {received : NostrMessage} {replies : List ServerMessage} :
    Sends p (.received fd received :: replies.map (Act.sent fd)) fd message
  | acknowledge {fd : Int} (hclient : fd ∈ p.clients) {e : NostrEventEntity} (hnew : ¬ p.Knows e.id) :
    Sends p [.received fd (.event e)] fd (.ok e.id true "")
  | find {fd : Int} (hclient : fd ∈ p.clients) {req : NostrReqMessage} {e : NostrEventEntity}
    (hstored : ∃ e' ∈ p.stored, Copy e' e) {found : List NostrEventEntity} :
    Sends p (.received fd (.req req) :: found.map fun e => .sent fd (.event req.subscriptionId e)) fd
      (.event req.subscriptionId e)
  | finish {fd : Int} (hclient : fd ∈ p.clients) {req : NostrReqMessage} {found : List NostrEventEntity} :
    Sends p (.received fd (.req req) :: found.map fun e => .sent fd (.event req.subscriptionId e)) fd
      (.eose req.subscriptionId)
  | deliver {fd : Int} {e : NostrEventEntity} {key : Key} {id : CStr} {filters : List NostrFilter}
    (hkey : p.table key = some (id, filters))
    (hmatch : ∃ filter ∈ filters, nostrFilterMatches filter e = true) {deliveries : List Act}
    (hdeliveries : ∀ a ∈ deliveries, ∃ fd m, a = Act.sent fd m) :
    Sends p (.received fd (.event e) :: .sent fd (.ok e.id true "") :: deliveries) key.1 (.event id e)

section Exchange

variable {p : RelayState} {trace acts : List Act}

/-- **What an exchange sends.** -/
theorem Exchange.throughout_sends (h : Exchange p acts) :
    Throughout (fun before a => ∀ fd m, a = .sent fd m → Sends p before fd m) acts := by
  have hfirst : ∀ {a : Act} {answers : List Act}, (∀ fd m, a ≠ .sent fd m) →
      Throughout (fun before b => ∀ fd m, b = .sent fd m → Sends p (a :: before) fd m) answers →
      Throughout (fun before a => ∀ fd m, a = .sent fd m → Sends p before fd m) (a :: answers) :=
    fun hne hanswers => throughout_cons.mpr ⟨fun fd m ha => absurd ha (hne fd m), hanswers⟩
  have hreply : ∀ {fd : Int} {message : NostrMessage} (messages : List ServerMessage), fd ∈ p.clients →
      (∀ m ∈ messages, (∀ id e, m ≠ .event id e) ∧ (∀ id, m ≠ .eose id) ∧
        ∀ id text, m = .ok id true text → text ≠ "" ∧ p.Knows id) →
      Throughout (fun before a => ∀ fd m, a = .sent fd m → Sends p before fd m)
        (.received fd message :: messages.map (Act.sent fd)) := by
    refine fun messages hclient hmessages => hfirst nofun fun before a behind hbefore fd m ha => ?_
    obtain ⟨replies, rest, rfl, rfl, hrest⟩ := List.map_eq_append_iff.mp hbefore
    obtain ⟨message, rest, rfl, hsent, -⟩ := List.map_eq_cons_iff.mp hrest
    obtain ⟨rfl, rfl⟩ := Act.sent.inj (hsent.trans ha)
    obtain ⟨hevent, heose, hok⟩ := hmessages message (by simp)
    exact .reply hclient hevent heose hok
  cases h with
  | connect hclient => exact hfirst nofun throughout_nil
  | disconnect => exact hfirst nofun throughout_nil
  | invalid hclient => exact hreply [invalidFormat] hclient (by simp [invalidFormat])
  | @subscribe fd hclient req hroom found hfound =>
    refine hfirst nofun (throughout_append.mpr ⟨?_, throughout_cons.mpr ⟨?_, throughout_nil⟩⟩)
    · rintro before a behind hbefore fd' m rfl
      obtain ⟨found₁, found₂, rfl, rfl, hbehind⟩ := List.map_eq_append_iff.mp hbefore
      obtain ⟨e, found₃, rfl, ha, -⟩ := List.map_eq_cons_iff.mp hbehind
      obtain ⟨rfl, rfl⟩ := Act.sent.inj ha
      exact .find hclient (hfound e (by simp)).1
    · rintro fd' m hm
      obtain ⟨rfl, rfl⟩ := Act.sent.inj hm
      rw [List.append_nil]
      exact .finish hclient
  | refuse hclient hfull => exact hreply [_, invalidFormat] hclient (by simp [invalidFormat])
  | unsubscribe hclient hthere => exact hreply [_] hclient (by simp)
  | closeNothing hclient hthere => exact hreply [] hclient (by simp)
  | store hclient hnew hdeliveries =>
    refine hfirst nofun (throughout_cons.mpr ⟨?_, throughout_of_mem fun before hbefore a ha fd' m hm => ?_⟩)
    · rintro fd' m hm
      obtain ⟨rfl, rfl⟩ := Act.sent.inj hm
      exact .acknowledge hclient hnew
    · obtain ⟨key, id, filters, hkey, -, hmatch, -, hsent⟩ := (hdeliveries.mem_iff a).mp ha
      rw [hm] at hsent
      obtain ⟨rfl, rfl⟩ := Act.sent.inj hsent
      refine .deliver hkey hmatch fun b hb => ?_
      obtain ⟨key, id, -, -, -, -, -, rfl⟩ := (hdeliveries.mem_iff b).mp (hbefore b hb)
      exact ⟨_, _, rfl⟩
  | duplicate hclient hknown =>
    refine hreply [_] hclient fun m hm => ?_
    obtain rfl := List.eq_of_mem_singleton hm
    refine ⟨nofun, nofun, fun id text hok => ?_⟩
    obtain ⟨rfl, -, rfl⟩ := ServerMessage.ok.inj hok
    exact ⟨by decide, hknown⟩
  | deleted hclient hknown => exact hreply [_] hclient (by simp)
  | reject hclient hmessage => exact hreply [_] hclient (by simp)
  | fail hclient hmessage => exact hreply [_, invalidFormat] hclient (by simp [invalidFormat])
  | drop hclient hkind => exact hreply [] hclient (by simp)

/-- The first of an exchange comes from a client, or is the start or the end of a
connection; the rest is sent. -/
theorem Exchange.exists_first (h : Exchange p acts) : ∃ first answers, acts = first :: answers ∧
    (∀ fd m, first ≠ .sent fd m) ∧ (∀ fd m, first = .received fd m → fd ∈ p.clients) ∧
      ∀ a ∈ answers, ∃ fd m, a = .sent fd m := by
  have hreceived : ∀ {fd : Int} {message : NostrMessage}, fd ∈ p.clients →
      ∀ fd' m, Act.received fd message = .received fd' m → fd' ∈ p.clients := fun hclient _ _ heq =>
    (Act.received.inj heq).1 ▸ hclient
  cases h with
  | connect => exact ⟨_, _, rfl, nofun, nofun, nofun⟩
  | disconnect => exact ⟨_, _, rfl, nofun, nofun, nofun⟩
  | subscribe hclient =>
    refine ⟨_, _, rfl, nofun, hreceived hclient, fun a ha => ?_⟩
    rcases List.mem_append.mp ha with ha | ha
    · obtain ⟨e, -, rfl⟩ := List.mem_map.mp ha
      exact ⟨_, _, rfl⟩
    · exact ⟨_, _, List.eq_of_mem_singleton ha⟩
  | store hclient hnew hdeliveries =>
    refine ⟨_, _, rfl, nofun, hreceived hclient, fun a ha => ?_⟩
    rcases List.mem_cons.mp ha with rfl | ha
    · exact ⟨_, _, rfl⟩
    · obtain ⟨_, _, -, -, -, -, -, rfl⟩ := (hdeliveries.mem_iff a).mp ha
      exact ⟨_, _, rfl⟩
  | invalid hclient => exact ⟨_, _, rfl, nofun, hreceived hclient, by simp⟩
  | refuse hclient => exact ⟨_, _, rfl, nofun, hreceived hclient, by simp⟩
  | unsubscribe hclient => exact ⟨_, _, rfl, nofun, hreceived hclient, by simp⟩
  | closeNothing hclient => exact ⟨_, _, rfl, nofun, hreceived hclient, by simp⟩
  | duplicate hclient => exact ⟨_, _, rfl, nofun, hreceived hclient, by simp⟩
  | deleted hclient => exact ⟨_, _, rfl, nofun, hreceived hclient, by simp⟩
  | reject hclient => exact ⟨_, _, rfl, nofun, hreceived hclient, by simp⟩
  | fail hclient => exact ⟨_, _, rfl, nofun, hreceived hclient, by simp⟩
  | drop hclient => exact ⟨_, _, rfl, nofun, hreceived hclient, by simp⟩

end Exchange

/-- A message is received first, and only sent to since. -/
theorem Sends.exists_received {p : RelayState} {before : List Act} {fd : Int} {message : ServerMessage}
    (h : Sends p before fd message) : ∃ fd' received sent, before = .received fd' received :: sent ∧
      ∀ a ∈ sent, ∃ fd m, a = Act.sent fd m := by
  have hmap : ∀ {α : Type} {fd : Int} {message : α → ServerMessage} {l : List α},
      ∀ a ∈ l.map fun x => Act.sent fd (message x), ∃ fd m, a = .sent fd m := fun a ha => by
    obtain ⟨x, -, rfl⟩ := List.mem_map.mp ha
    exact ⟨_, _, rfl⟩
  cases h with
  | reply => exact ⟨_, _, _, rfl, hmap⟩
  | acknowledge => exact ⟨_, _, [], rfl, nofun⟩
  | find => exact ⟨_, _, _, rfl, hmap⟩
  | finish => exact ⟨_, _, _, rfl, hmap⟩
  | deliver hkey hmatch hdeliveries =>
    refine ⟨_, _, _, rfl, fun a ha => ?_⟩
    rcases List.mem_cons.mp ha with rfl | ha
    · exact ⟨_, _, rfl⟩
    · exact hdeliveries a ha

/-! ## What the trace says of the state -/

section State

variable {initial : Set NostrEventEntity}

theorem stateOf_append (trace acts : List Act) :
    stateOf initial (trace ++ acts) = acts.foldl RelayState.after (stateOf initial trace) := List.foldl_append

theorem stateOf_concat (trace : List Act) (a : Act) : stateOf initial (trace ++ [a]) = (stateOf initial trace).after a :=
  stateOf_append trace [a]

/-- The client takes the subscription back, or leaves. -/
def Ends (key : Key) (a : Act) : Prop :=
  a = .disconnected key.1 ∨ ∃ id, a = .received key.1 (.close id) ∧ keyOf key.1 id = key

def Requests (key : Key) (a : Act) : Prop :=
  ∃ req, a = .received key.1 (.req req) ∧ keyOf key.1 req.subscriptionId = key

@[simp] theorem ends_disconnected {key : Key} {fd : Int} : Ends key (.disconnected fd) ↔ fd = key.1 := by
  simp [Ends]

@[simp] theorem ends_close {key : Key} {fd : Int} {id : CStr} :
    Ends key (.received fd (.close id)) ↔ keyOf fd id = key := by
  constructor
  · rintro (h | ⟨id', h, hkey⟩)
    · cases h
    · obtain ⟨rfl, hclose⟩ := Act.received.inj h
      rwa [NostrMessage.close.inj hclose]
  · rintro rfl
    exact .inr ⟨id, rfl, rfl⟩

@[simp] theorem requests_req {key : Key} {fd : Int} {req : NostrReqMessage} :
    Requests key (.received fd (.req req)) ↔ keyOf fd req.subscriptionId = key := by
  constructor
  · rintro ⟨req', h, hkey⟩
    obtain ⟨rfl, hreq⟩ := Act.received.inj h
    rwa [NostrMessage.req.inj hreq]
  · rintro rfl
    exact ⟨req, rfl, rfl⟩

/-- What is sent changes no subscription. -/
theorem after_sent (p : RelayState) (fd : Int) (message : ServerMessage) :
    (p.after (.sent fd message)).clients = p.clients ∧ (p.after (.sent fd message)).table = p.table := by
  rw [RelayState.after, RelayState.change]
  unfold RelayState.acknowledge
  split <;> exact ⟨rfl, rfl⟩

/-- The client has asked for the id in this spelling and has not taken it back since, and
the last request for it has these filters. -/
structure Asked (trace : List Act) (fd : Int) (id : CStr) (filters : List NostrFilter) : Prop where
  spelt : Since (fun a => ∃ req, a = .received fd (.req req) ∧ req.subscriptionId = id)
    (Ends (keyOf fd id)) trace
  latest : Since (fun a => Requests (keyOf fd id) a ∧ ∃ req, a = .received fd (.req req) ∧ req.filters = filters)
    (fun a => Ends (keyOf fd id) a ∨ Requests (keyOf fd id) a) trace

theorem Asked.concat {trace : List Act} {fd : Int} {id : CStr} {filters : List NostrFilter}
    (h : Asked trace fd id filters) {a : Act} (hends : ¬ Ends (keyOf fd id) a)
    (hrequests : ¬ Requests (keyOf fd id) a) : Asked (trace ++ [a]) fd id filters :=
  ⟨h.spelt.append fun _ hb => List.eq_of_mem_singleton hb ▸ hends,
    h.latest.append fun _ hb => List.eq_of_mem_singleton hb ▸ not_or.mpr ⟨hends, hrequests⟩⟩

/-- A request is asked for, and another spelling of it stays. -/
theorem Asked.request {trace : List Act} {fd : Int} {id : CStr} (filters : List NostrFilter) {req : NostrReqMessage}
    (hkey : keyOf fd req.subscriptionId = keyOf fd id)
    (hspelt : req.subscriptionId = id ∨ Asked trace fd id filters) :
    Asked (trace ++ [.received fd (.req req)]) fd id req.filters := by
  have hends : ∀ key, ¬ Ends key (.received fd (.req req)) := fun key => by
    rintro (hleft | ⟨_, hclose, -⟩)
    · cases hleft
    · cases hclose
  refine ⟨?_, since_concat _ ⟨⟨req, rfl, hkey⟩, req, rfl, rfl⟩⟩
  rcases hspelt with rfl | hasked
  · exact since_concat _ ⟨req, rfl, rfl⟩
  · exact hasked.spelt.append fun _ hb => List.eq_of_mem_singleton hb ▸ hends _

/-- **What is in the table was asked for.** -/
theorem asked_of_table (trace : List Act) : ∀ {key : Key} {id : CStr} {filters : List NostrFilter},
    (stateOf initial trace).table key = some (id, filters) → key = keyOf key.1 id ∧ Asked trace key.1 id filters := by
  induction trace using List.reverseRecOn with
  | nil => exact fun h => absurd h (by simp [stateOf, RelayState.init])
  | append_singleton trace a ih =>
    intro key id filters h
    rw [stateOf_concat] at h
    have hkeep : (stateOf initial trace).table key = some (id, filters) → ¬ Ends key a → ¬ Requests key a →
        key = keyOf key.1 id ∧ Asked (trace ++ [a]) key.1 id filters := fun hold hends hrequests => by
      obtain ⟨hkey, hasked⟩ := ih hold
      exact ⟨hkey, hasked.concat (hkey ▸ hends) (hkey ▸ hrequests)⟩
    cases a with
    | connected fd => exact hkeep h (by simp [Ends]) (by simp [Requests])
    | sent fd message =>
      exact hkeep ((after_sent _ fd message).2 ▸ h) (by simp [Ends]) (by simp [Requests])
    | disconnected fd =>
      rw [RelayState.after, RelayState.change, RelayState.leave] at h
      dsimp only at h
      split at h
      · cases h
      · next hne => exact hkeep h (mt ends_disconnected.mp (Ne.symm hne)) (by simp [Requests])
    | received fd message =>
      cases message with
      | event e => exact hkeep h (by simp [Ends]) (by simp [Requests])
      | invalid => exact hkeep h (by simp [Ends]) (by simp [Requests])
      | close closed =>
        rw [RelayState.after, RelayState.change, RelayState.unsubscribe] at h
        dsimp only at h
        rw [Function.update_apply] at h
        split at h
        · cases h
        · next hne => exact hkeep h (mt ends_close.mp (Ne.symm hne)) (by simp [Requests])
      | req req =>
        have hother : (stateOf initial trace).table key = some (id, filters) → keyOf fd req.subscriptionId ≠ key →
            key = keyOf key.1 id ∧ Asked (trace ++ [.received fd (.req req)]) key.1 id filters :=
          fun hold hne => hkeep hold (by simp [Ends]) (mt requests_req.mp hne)
        rw [RelayState.after, RelayState.change] at h
        dsimp only at h
        split at h
        · rw [RelayState.subscribe] at h
          dsimp only at h
          rw [Function.update_apply] at h
          split at h
          · next hkey =>
            obtain rfl := hkey
            obtain ⟨hid, rfl⟩ := Prod.mk.inj (Option.some.inj h)
            cases hold : (stateOf initial trace).table (keyOf fd req.subscriptionId) with
            | none =>
              rw [hold] at hid
              obtain rfl : req.subscriptionId = id := hid
              exact ⟨rfl, Asked.request req.filters rfl (.inl rfl)⟩
            | some old =>
              rw [hold] at hid
              obtain rfl : old.1 = id := hid
              obtain ⟨hkey, hasked⟩ := @ih _ old.1 old.2 hold
              exact ⟨hkey, Asked.request old.2 hkey (.inr hasked)⟩
          · next hne => exact hother h (Ne.symm hne)
        · next hfull =>
          refine hother h fun hkey => hfull (.inl ?_)
          rw [hkey, h]
          exact Option.some_ne_none _

/-- **Who is a client** was connected and has not left since. -/
theorem since_connected (trace : List Act) {fd : Int} (h : fd ∈ (stateOf initial trace).clients) :
    Since (· = .connected fd) (· = .disconnected fd) trace := by
  induction trace using List.reverseRecOn with
  | nil => exact absurd h (Set.notMem_empty fd)
  | append_singleton trace a ih =>
    rw [stateOf_concat] at h
    have hkeep : fd ∈ (stateOf initial trace).clients → a ≠ .disconnected fd →
        Since (· = .connected fd) (· = .disconnected fd) (trace ++ [a]) := fun hold hne =>
      (ih hold).append fun _ hb => List.eq_of_mem_singleton hb ▸ hne
    cases a with
    | connected fd' =>
      rcases h with rfl | hold
      · exact since_concat trace rfl
      · exact hkeep hold nofun
    | disconnected fd' => exact hkeep h.1 fun heq => h.2 (Act.disconnected.inj heq).symm
    | sent fd' message => exact hkeep ((after_sent _ fd' message).1 ▸ h) nofun
    | received fd' message =>
      refine hkeep ?_ nofun
      cases message with
      | event e => exact h
      | invalid => exact h
      | close id => exact h
      | req req =>
        rw [RelayState.after, RelayState.change] at h
        dsimp only at h
        split at h <;> exact h

/-- The client has sent the event, and it was acknowledged as new. -/
def Published (trace : List Act) (e : NostrEventEntity) : Prop :=
  ∃ before fd behind, trace = before ++ .received fd (.event e) :: .sent fd (.ok e.id true "") :: behind

theorem Published.append {trace : List Act} {e : NostrEventEntity} (h : Published trace e) (acts : List Act) :
    Published (trace ++ acts) e := by
  obtain ⟨before, fd, behind, rfl⟩ := h
  exact ⟨before, fd, behind ++ acts, by rw [List.append_assoc, List.cons_append, List.cons_append]⟩

theorem published_concat {trace : List Act} {a : Act} {e : NostrEventEntity} :
    Published (trace ++ [a]) e ↔ Published trace e ∨
      ∃ before fd, trace = before ++ [.received fd (.event e)] ∧ a = .sent fd (.ok e.id true "") := by
  constructor
  · rintro ⟨before, fd, behind, h⟩
    rcases List.eq_nil_or_concat behind with rfl | ⟨behind, b, rfl⟩
    · rw [List.append_cons before] at h
      obtain ⟨htrace, ha⟩ := List.append_inj' h rfl
      exact .inr ⟨before, fd, htrace, List.singleton_inj.mp ha⟩
    · rw [List.concat_eq_append, ← List.cons_append, ← List.cons_append, ← List.append_assoc] at h
      exact .inl ⟨before, fd, behind, (List.append_inj' h rfl).1⟩
  · rintro (h | ⟨before, fd, rfl, rfl⟩)
    · exact h.append [a]
    · exact ⟨before, fd, [], (List.append_cons _ _ _).symm⟩

theorem pending_iff (trace : List Act) {fd : Int} {e : NostrEventEntity} :
    (stateOf initial trace).pending = some (fd, e) ↔ ∃ before, trace = before ++ [.received fd (.event e)] := by
  rcases List.eq_nil_or_concat trace with rfl | ⟨trace, a, rfl⟩
  · simp [stateOf, RelayState.init]
  · rw [List.concat_eq_append, stateOf_concat, RelayState.after]
    dsimp only
    rw [RelayState.pendingAfter.eq_def]
    constructor
    · intro h
      split at h
      · obtain ⟨rfl, rfl⟩ := Prod.mk.inj (Option.some.inj h)
        exact ⟨trace, rfl⟩
      · cases h
    · rintro ⟨before, h⟩
      rw [List.singleton_inj.mp (List.append_inj' h rfl).2]

/-- The events stored are those of the start and those that were published. -/
theorem mem_stored_iff (trace : List Act) {e : NostrEventEntity} :
    e ∈ (stateOf initial trace).stored ↔ e ∈ initial ∨ Published trace e := by
  induction trace using List.reverseRecOn with
  | nil => simp [stateOf, RelayState.init, Published]
  | append_singleton trace a ih =>
    rw [published_concat, ← or_assoc, ← ih, stateOf_concat]
    cases a with
    | connected fd => exact (or_iff_left (by simp)).symm
    | disconnected fd => exact (or_iff_left (by simp)).symm
    | received fd message =>
      refine Iff.trans ?_ (or_iff_left (by simp)).symm
      cases message with
      | req req =>
        rw [RelayState.after, RelayState.change]
        dsimp only
        split <;> rfl
      | _ => rfl
    | sent fd message =>
      rw [RelayState.after, RelayState.change]
      unfold RelayState.acknowledge
      split
      · next id =>
        refine or_congr_right ?_
        rw [pending_iff]
        constructor
        · rintro ⟨⟨before, rfl⟩, rfl⟩
          exact ⟨before, fd, rfl, rfl⟩
        · rintro ⟨before, fd', rfl, hsent⟩
          obtain ⟨rfl, hok⟩ := Act.sent.inj hsent
          exact ⟨⟨before, rfl⟩, (ServerMessage.ok.inj hok).1.symm⟩
      · next hnot =>
        exact (or_iff_left fun ⟨before, fd', _, hsent⟩ => hnot e.id (Act.sent.inj hsent).2).symm

end State

/-! ## Conversations -/

section Conversation

variable {initial : Set NostrEventEntity} {trace : List Act}

/-- What each exchange shows of each act, the whole conversation does. -/
theorem Conversation.throughout {P : List Act → Act → Prop} (h : Conversation initial trace)
    (hP : ∀ {trace acts}, Conversation initial trace → Exchange (stateOf initial trace) acts →
      Throughout (fun before a => P (trace ++ before) a) acts) : Throughout P trace := by
  induction h with
  | start => exact throughout_nil
  | next htrace hacts ih => exact throughout_append.mpr ⟨ih, hP htrace hacts⟩

/-- Who is a client stays one until he leaves. -/
theorem mem_clients_foldl {fd : Int} {acts : List Act} : ∀ {p : RelayState}, fd ∈ p.clients →
    (∀ b ∈ acts, b ≠ .disconnected fd) → fd ∈ (acts.foldl RelayState.after p).clients := by
  induction acts with
  | nil => exact fun h _ => h
  | cons a acts ih =>
    intro p h hacts
    refine ih ?_ fun b hb => hacts b (List.mem_cons_of_mem a hb)
    cases a with
    | connected fd' => exact .inr h
    | disconnected fd' => exact ⟨h, fun heq => hacts _ List.mem_cons_self (heq ▸ rfl)⟩
    | sent fd' message => exact (after_sent p fd' message).1 ▸ h
    | received fd' message =>
      cases message with
      | req req =>
        rw [RelayState.after, RelayState.change]
        dsimp only
        split <;> exact h
      | _ => exact h

/-- A frame comes from a client. -/
theorem Conversation.throughout_received (h : Conversation initial trace) :
    Throughout (fun before a => ∀ fd m, a = .received fd m → fd ∈ (stateOf initial before).clients) trace := by
  refine h.throughout fun {trace acts} _ hacts => ?_
  obtain ⟨first, answers, rfl, -, hclient, hanswers⟩ := hacts.exists_first
  refine throughout_cons.mpr ⟨fun fd m ha => ?_, throughout_of_forall fun before a ha fd m hm => ?_⟩
  · rw [List.append_nil]
    exact hclient fd m ha
  · obtain ⟨_, _, rfl⟩ := hanswers a ha
    cases hm

/-- A subscription is a client's. -/
theorem Conversation.client_of_table (h : Conversation initial trace) {key : Key} {id : CStr} {filters : List NostrFilter}
    (hkey : (stateOf initial trace).table key = some (id, filters)) : key.1 ∈ (stateOf initial trace).clients := by
  obtain ⟨hid, before, a, behind, rfl, ⟨req, rfl, -⟩, hbehind⟩ := (asked_of_table trace hkey).imp_right Asked.spelt
  rw [stateOf_append]
  refine mem_clients_foldl (h.throughout_received before _ behind rfl _ _ rfl) fun b hb heq => ?_
  rcases List.mem_cons.mp hb with rfl | hb
  · cases heq
  · exact hbehind b hb (.inl heq)

theorem Conversation.client_of_sends (h : Conversation initial trace) {before : List Act} {fd : Int}
    {message : ServerMessage} (hsends : Sends (stateOf initial trace) before fd message) : fd ∈ (stateOf initial trace).clients := by
  cases hsends with
  | deliver hkey => exact h.client_of_table hkey
  | _ => assumption

/-- **A message goes to a client that is connected.** -/
theorem Conversation.throughout_connected (h : Conversation initial trace) :
    Throughout (fun before a => ∀ fd m, a = .sent fd m →
      Since (· = .connected fd) (· = .disconnected fd) before) trace := by
  refine h.throughout fun {trace acts} htrace hacts => ?_
  refine hacts.throughout_sends.mono fun before a _ hsends fd m ha => ?_
  obtain ⟨fd', received, sent, rfl, hsent⟩ := (hsends fd m ha).exists_received
  refine (since_connected trace (htrace.client_of_sends (hsends fd m ha))).append fun b hb heq => ?_
  rcases List.mem_cons.mp hb with rfl | hb
  · cases heq
  · obtain ⟨_, _, rfl⟩ := hsent b hb
    cases heq

/-- The last frame is a request for the id, and it is being answered. -/
def Answering (trace : List Act) (fd : Int) (id : CStr) : Prop :=
  Since (fun a => ∃ req, a = .received fd (.req req) ∧ req.subscriptionId = id)
    (fun a => ∀ fd m, a ≠ .sent fd m) trace

/-- What is sent in between takes nothing back. -/
theorem Asked.append_sent {fd : Int} {id : CStr} {filters : List NostrFilter} (h : Asked trace fd id filters)
    {sent : List Act} (hsent : ∀ a ∈ sent, ∃ fd m, a = Act.sent fd m) : Asked (trace ++ sent) fd id filters := by
  have hends : ∀ b ∈ sent, ∀ key, ¬ Ends key b ∧ ¬ Requests key b := fun b hb key => by
    obtain ⟨_, _, rfl⟩ := hsent b hb
    exact ⟨by simp [Ends], by simp [Requests]⟩
  exact ⟨h.spelt.append fun b hb => (hends b hb _).1, h.latest.append fun b hb => not_or.mpr (hends b hb _)⟩

/-- A request that is being answered is asked for. -/
theorem asked_of_request (trace : List Act) {fd : Int} (req : NostrReqMessage) (found : List NostrEventEntity) :
    let before := trace ++ .received fd (.req req) ::
      found.map fun e => Act.sent fd (.event req.subscriptionId e)
    Asked before fd req.subscriptionId req.filters ∧ Answering before fd req.subscriptionId := by
  have hsent : ∀ a ∈ found.map fun e => Act.sent fd (.event req.subscriptionId e), ∃ fd m, a = .sent fd m :=
    fun a ha => by
      obtain ⟨e, -, rfl⟩ := List.mem_map.mp ha
      exact ⟨_, _, rfl⟩
  dsimp only
  rw [← List.singleton_append, ← List.append_assoc]
  refine ⟨(Asked.request [] rfl (.inl rfl)).append_sent hsent, ?_⟩
  refine (since_concat trace ⟨req, rfl, rfl⟩).append fun b hb hnot => ?_
  obtain ⟨_, _, rfl⟩ := hsent b hb
  exact hnot _ _ rfl

/-- **What is sent under an id was asked for**: an event while it is being answered, or since
it matches the filters of the last request. -/
theorem Conversation.throughout_asked (h : Conversation initial trace) :
    Throughout (fun before a =>
      (∀ fd id e, a = .sent fd (.event id e) → ∃ filters, Asked before fd id filters ∧
        (Answering before fd id ∨ ∃ filter ∈ filters, nostrFilterMatches filter e = true)) ∧
      ∀ fd id, a = .sent fd (.eose id) →
        ∃ filters, Asked before fd id filters ∧ Answering before fd id) trace := by
  refine h.throughout fun {trace acts} _ hacts => hacts.throughout_sends.mono fun before a _ hsends => ?_
  refine ⟨fun fd id e ha => ?_, fun fd id ha => ?_⟩
  · cases hsends fd _ ha with
    | reply hclient hevent => exact absurd rfl (hevent _ _)
    | @find _ hclient req _ hstored found =>
      obtain ⟨hasked, hanswering⟩ := asked_of_request trace req found
      exact ⟨_, hasked, .inl hanswering⟩
    | @deliver source _ key _ filters hkey hmatch deliveries hdeliveries =>
      refine ⟨filters, ?_, .inr hmatch⟩
      obtain ⟨hid, hasked⟩ := asked_of_table trace hkey
      have hevent := hasked.concat (a := .received source (.event e)) (by simp [Ends]) (by simp [Requests])
      rw [List.append_cons]
      refine hevent.append_sent fun b hb => ?_
      exact (List.mem_cons.mp hb).elim (fun h => ⟨_, _, h⟩) (hdeliveries b)
  · cases hsends fd _ ha with
    | reply hclient hevent heose => exact absurd rfl (heose _)
    | @finish _ hclient req found =>
      obtain ⟨hasked, hanswering⟩ := asked_of_request trace req found
      exact ⟨_, hasked, hanswering⟩

/-- **An event that goes out was published**, or is of the start.  An id is acknowledged as
new when the event with it has just come and no event with it was published before. -/
theorem Conversation.throughout_acknowledged (h : Conversation initial trace) :
    let Known := fun before id => ∃ e, (e ∈ initial ∨ Published before e) ∧ e.id = id
    Throughout (fun before a =>
      (∀ fd id e, a = .sent fd (.event id e) → ∃ e', (e' ∈ initial ∨ Published before e') ∧ Copy e' e) ∧
      (∀ fd id text, a = .sent fd (.ok id true text) → (Known before id ↔ text ≠ "")) ∧
      ∀ fd id, a = .sent fd (.ok id true "") →
        ∃ earlier e, before = earlier ++ [.received fd (.event e)] ∧ e.id = id) trace := by
  refine h.throughout fun {trace acts} _ hacts => hacts.throughout_sends.mono fun before a _ hsends => ?_
  have hknows : ∀ {trace : List Act} {id : CStr}, (stateOf initial trace).Knows id ↔
      ∃ e, (e ∈ initial ∨ Published trace e) ∧ e.id = id := fun {trace id} =>
    exists_congr fun e => and_congr_left fun _ => mem_stored_iff trace
  have hlater : ∀ {e : NostrEventEntity}, e ∈ (stateOf initial trace).stored →
      e ∈ initial ∨ Published (trace ++ before) e := fun hstored =>
    ((mem_stored_iff trace).mp hstored).imp_right fun h => h.append before
  refine ⟨fun fd id e ha => ?_, fun fd id text ha => ?_, fun fd id ha => ?_⟩
  · cases hsends fd _ ha with
    | reply hclient hevent => exact absurd rfl (hevent _ _)
    | find hclient hstored =>
      obtain ⟨e', he', hcopy⟩ := hstored
      exact ⟨e', hlater he', hcopy⟩
    | @deliver source _ _ _ _ _ _ deliveries => exact ⟨e, .inr ⟨trace, source, deliveries, rfl⟩, .refl e⟩
  · cases hsends fd _ ha with
    | reply hclient hevent heose hok =>
      obtain ⟨htext, e, he, hid⟩ := hok _ _ rfl
      exact iff_of_true ⟨e, hlater he, hid⟩ htext
    | acknowledge hclient hnew =>
      refine iff_of_false (fun hknown => hnew ?_) (not_not.mpr rfl)
      have hknows' := hknows.mpr hknown
      rwa [stateOf_concat] at hknows'
  · cases hsends fd _ ha with
    | reply hclient hevent heose hok => exact absurd rfl (hok _ _ rfl).1
    | @acknowledge _ hclient e => exact ⟨trace, e, rfl, rfl⟩

/-- What is sent behind the acknowledgement of a new event, in its exchange. -/
theorem Exchange.delivers {p : RelayState} {fd : Int} {e : NostrEventEntity} {behind : List Act}
    (h : Exchange p (.received fd (.event e) :: .sent fd (.ok e.id true "") :: behind)) :
    p.Delivers fd e behind := by
  generalize hacts : Act.received fd (.event e) :: .sent fd (.ok e.id true "") :: behind = acts at h
  have hok : ∀ {fd' : Int} {e' : NostrEventEntity} {accepted : Bool} {text : String} {answers : List Act},
      Act.received fd (.event e) :: .sent fd (.ok e.id true "") :: behind =
        .received fd' (.event e') :: .sent fd' (.ok e'.id accepted text) :: answers →
      fd = fd' ∧ e = e' ∧ behind = answers ∧ accepted = true ∧ text = "" := by
    intro fd' e' accepted text answers heq
    obtain ⟨hreceived, heq⟩ := List.cons.inj heq
    obtain ⟨hsent, hanswers⟩ := List.cons.inj heq
    obtain ⟨rfl, he⟩ := Act.received.inj hreceived
    obtain ⟨-, haccepted, htext⟩ := ServerMessage.ok.inj (Act.sent.inj hsent).2
    exact ⟨rfl, NostrMessage.event.inj he, hanswers, haccepted.symm, htext.symm⟩
  cases h with
  | store hclient hnew hdeliveries =>
    obtain ⟨rfl, rfl, rfl, -⟩ := hok hacts
    exact hdeliveries
  | duplicate => exact absurd (hok hacts).2.2.2.2 (by decide)
  | deleted => exact absurd (hok hacts).2.2.2.1 (by decide)
  | reject => exact absurd (hok hacts).2.2.2.1 (by decide)
  | fail => exact absurd (hok hacts).2.2.2.1 (by decide)
  | connect | disconnect | invalid | subscribe | refuse | unsubscribe | closeNothing | drop => simp at hacts

/-- Only what is new is acknowledged as new. -/
theorem Exchange.new {p : RelayState} {fd : Int} {e : NostrEventEntity} {behind : List Act}
    (h : Exchange p (.received fd (.event e) :: .sent fd (.ok e.id true "") :: behind)) : ¬ p.Knows e.id := by
  have hsends := h.throughout_sends [.received fd (.event e)] _ behind rfl fd _ rfl
  generalize [Act.received fd (.event e)] = before at hsends
  generalize hmessage : ServerMessage.ok e.id true "" = message at hsends
  cases hsends with
  | reply hclient hevent heose hok => exact absurd rfl (hok _ _ hmessage.symm).1
  | acknowledge hclient hnew => exact (ServerMessage.ok.inj hmessage).1 ▸ hnew
  | find | finish | deliver => cases hmessage

/-- What is published was published before the last exchange, or the exchange stores it. -/
theorem Exchange.published {p : RelayState} {acts before behind : List Act} {fd : Int} {e : NostrEventEntity}
    (hacts : Exchange p acts)
    (h : trace ++ acts = before ++ .received fd (.event e) :: .sent fd (.ok e.id true "") :: behind) :
    (∃ later, trace = before ++ .received fd (.event e) :: .sent fd (.ok e.id true "") :: later ∧
        behind = later ++ acts) ∨
      before = trace ∧ acts = .received fd (.event e) :: .sent fd (.ok e.id true "") :: behind := by
  obtain ⟨first, answers, rfl, hne, -, hanswers⟩ := hacts.exists_first
  rcases List.append_eq_append_iff.mp h with ⟨earlier, rfl, hinside⟩ | ⟨later, rfl, hinside⟩
  · cases earlier with
    | nil => exact .inr ⟨List.append_nil _, hinside⟩
    | cons a earlier =>
      obtain ⟨rfl, rfl⟩ := List.cons.inj hinside
      obtain ⟨_, _, hsent⟩ := hanswers (.received fd (.event e)) (by simp)
      cases hsent
  · match later, hinside with
    | [], hinside => exact .inr ⟨(List.append_nil _).symm, hinside.symm⟩
    | [a], hinside =>
      obtain ⟨rfl, -⟩ := List.cons.inj (List.cons.inj hinside).2
      exact absurd rfl (hne fd (.ok e.id true ""))
    | a :: b :: later, hinside =>
      obtain ⟨ha, hinside⟩ := List.cons.inj hinside
      obtain ⟨hb, hbehind⟩ := List.cons.inj hinside
      subst ha hb
      exact .inl ⟨later, rfl, hbehind⟩

/-- **A new event goes out once to each subscription of another client that it matches**:
these are what is sent behind its acknowledgement, before anything else happens. -/
theorem Conversation.delivers (h : Conversation initial trace) : ∀ {before behind : List Act} {fd : Int}
    {e : NostrEventEntity}, trace = before ++ .received fd (.event e) :: .sent fd (.ok e.id true "") :: behind →
      ∃ deliveries rest, behind = deliveries ++ rest ∧ (stateOf initial before).Delivers fd e deliveries ∧
        ∀ a ∈ rest.head?, ∀ fd m, a ≠ .sent fd m := by
  induction h with
  | start => exact fun h => absurd h (by simp)
  | @next trace acts _ hacts ih =>
    intro before behind fd e h
    rcases hacts.published h with ⟨later, htrace, rfl⟩ | ⟨rfl, rfl⟩
    · obtain ⟨deliveries, rest, rfl, hdeliveries, hrest⟩ := ih htrace
      refine ⟨deliveries, rest ++ acts, List.append_assoc _ _ _, hdeliveries, fun a ha => ?_⟩
      cases rest with
      | nil =>
        obtain ⟨first, answers, rfl, hne, -, -⟩ := hacts.exists_first
        obtain rfl := Option.some.inj ha
        exact hne
      | cons b rest => exact hrest a ha
    · exact ⟨behind, [], (List.append_nil _).symm, hacts.delivers, nofun⟩

end Conversation

end OnionRelay.Relay
