import OnionRelay.Lib.Prog
import OnionRelay.Db.Query

/-!
# What the message handlers call

The handlers of `main.c` are programs over `RelaySig`: the database functions
they call, the two requests for scratch memory, and the messages they send.
`answer` runs these against a `World`, whose database is an event log with some
query engine.

Two things are left to the surroundings: whether a request for scratch memory
is granted, and whether a write that passes its checks finds room.  An `Env`
schedules both, each by the number of such requests so far.
-/

namespace OnionRelay.Relay

open OnionRelay.Lib OnionRelay.Db

inductive RelayOp
  | writeEvent (event : NostrEventEntity)
  | getEventById (id : Bytes 32) (out : NostrEventEntity)
  | getEventAtOffset (offset : Nat) (out : NostrEventEntity)
  | deleteEvent (id : Bytes 32)
  | resultCreate
  | queryExecute (filter : NostrDBFilter)
  | mmapEntity
  | sendOk (eventId : CStr) (ok : Bool) (message : String)
  | findMatching (event : NostrEventEntity)

def RelaySig : Sig where
  Op := RelayOp
  Resp
    | .writeEvent _ => NostrDBError
    | .getEventById _ _ => NostrDBError × NostrEventEntity
    | .getEventAtOffset _ _ => NostrDBError × NostrEventEntity
    | .deleteEvent _ => NostrDBError
    | .resultCreate => Bool
    | .queryExecute _ => NostrDBError × List Nat
    | .mmapEntity => Bool
    | .sendOk _ _ _ => Unit
    | .findMatching _ => Unit

/-- An `OK` message to the sender. -/
structure Reply where
  eventId : CStr
  ok : Bool
  message : String
deriving DecidableEq

/-- The schedule of the surroundings. -/
structure Env where
  memory : Nat → Bool
  storage : Nat → Option EventLog.Failure

/-- Nothing fails. -/
def Env.calm : Env := ⟨fun _ => true, fun _ => none⟩

structure World where
  log : EventLog
  /-- The `OK` messages sent while the present message is handled. -/
  replies : List Reply
  memoryCalls : Nat
  storageCalls : Nat

/-- The world of a new database. -/
def World.init : World := ⟨EventLog.empty, [], 0, 0⟩

/-- After a request for scratch memory. -/
def World.tick (w : World) : World := { w with memoryCalls := w.memoryCalls + 1 }

/-- The functions the handlers call. -/
def answer (engine : QueryEngine) (env : Env) : Handler RelaySig World
  | .writeEvent event, w =>
    let (err, log) := w.log.writeEvent (env.storage w.storageCalls) event
    (err, { w with log := log, storageCalls := w.storageCalls + 1 })
  | .getEventById id out, w => (w.log.getEventById id out, w)
  | .getEventAtOffset offset out, w => (w.log.getEventAtOffset offset out, w)
  | .deleteEvent id, w =>
    let (err, log) := w.log.deleteEvent id
    (err, { w with log := log })
  | .resultCreate, w => (env.memory w.memoryCalls, w.tick)
  | .queryExecute filter, w =>
    (if env.memory w.memoryCalls then (.ok, nostrDbQueryExecute engine filter w.log) else (.mmapFailed, []), w.tick)
  | .mmapEntity, w => (env.memory w.memoryCalls, w.tick)
  | .sendOk eventId ok message, w =>
    ((), { w with replies := w.replies ++ [⟨eventId, ok, message⟩] })
  | .findMatching _, w => ((), w)

end OnionRelay.Relay
