import OnionRelay.Relay.World

/-!
# The EVENT handlers of `main.c`

Each function stands under its own name, each of its loops beside it as a
recursion over what the loop runs through.  The scratch entity (`existing`,
`target`) is one buffer that every read overwrites; it is passed along, since a
read does not overwrite all of it.
-/

namespace OnionRelay.Relay

open OnionRelay.Lib OnionRelay.Db

abbrev RelayM := Prog RelaySig

def sendOkResponse (eventId : CStr) (ok : Bool) (message : String) : RelayM Unit :=
  Prog.call (S := RelaySig) (.sendOk eventId ok message)

def readAtOffset (offset : Nat) (out : NostrEventEntity) :
    RelayM (NostrDBError × NostrEventEntity) :=
  Prog.call (S := RelaySig) (.getEventAtOffset offset out)

def deleteById (id : Bytes 32) : RelayM NostrDBError :=
  Prog.call (S := RelaySig) (.deleteEvent id)

def createResult : RelayM Bool := Prog.call (S := RelaySig) .resultCreate

def executeQuery (filter : NostrDBFilter) : RelayM (NostrDBError × List Nat) :=
  Prog.call (S := RelaySig) (.queryExecute filter)

def mmapEntity : RelayM Bool := Prog.call (S := RelaySig) .mmapEntity

/-! ## Storing -/

/-- `store_and_broadcast`. -/
def storeAndBroadcast (event : NostrEventEntity) : RelayM Bool := do
  let err ← (Prog.call (S := RelaySig) (.writeEvent event) : RelayM NostrDBError)
  match err with
  | .ok =>
    sendOkResponse event.id true ""
    (Prog.call (S := RelaySig) (.findMatching event) : RelayM Unit)
    return true
  | .duplicate =>
    sendOkResponse event.id true "duplicate:"
    return true
  | .deleted =>
    sendOkResponse event.id false "deleted: event was previously deleted"
    return true
  | .full =>
    sendOkResponse event.id false "error: database full"
    return false
  | .invalidEvent =>
    sendOkResponse event.id false "error: invalid event"
    return false
  | _ =>
    sendOkResponse event.id false "error: failed to save event"
    return false

/-! ## Comparing ids -/

/-- `strncmp_sensitive`, case-sensitive, with one capacity for both strings. -/
def strncmpSensitive (a b : CStr) (capacity : Nat) : Bool :=
  capacity != 0 && (List.range capacity).all fun i => a.getD i 0 == b.getD i 0

/-- The loop that finds `existing_lower`, with `c` characters to go.  A `char` is
signed. -/
def existingLower : Nat → CStr → CStr → Bool
  | 0, _, _ => false
  | c + 1, existing, event =>
    if (existing.getD 0 0).toInt8 < (event.getD 0 0).toInt8 then true
    else if (event.getD 0 0).toInt8 < (existing.getD 0 0).toInt8 then false
    else existingLower c existing.tail event.tail

/-! ## Finding predecessors -/

/-- The opening both checks share: the offsets of the author's events of the
kind; none where the source returns `true` at once. -/
def findPredecessors (pubkey : Bytes 32) (kind : Nat) : RelayM (List Nat) := do
  if !(← createResult) then return []
  let (err, offsets) ← executeQuery ⟨pubkey, kind, 100⟩
  if err != .ok || offsets.length == 0 then return []
  if !(← mmapEntity) then return []
  return offsets

/-! ## Replaceable events -/

/-- The first pass of `handle_replaceable_check`: `should_store`, and the buffer. -/
def replaceableFirstPass (event : NostrEventEntity) : List Nat → NostrEventEntity →
    RelayM (Bool × NostrEventEntity)
  | [], existing => return (true, existing)
  | offset :: offsets, existing => do
    let (err, existing) ← readAtOffset offset existing
    if err != .ok then replaceableFirstPass event offsets existing
    else if existing.createdAt > event.createdAt then return (false, existing)
    else if existing.createdAt = event.createdAt then
      let idLen := event.id.length
      if strncmpSensitive existing.id event.id idLen && idLen == existing.id.length then
        replaceableFirstPass event offsets existing
      else if existingLower 64 existing.id event.id then return (false, existing)
      else replaceableFirstPass event offsets existing
    else replaceableFirstPass event offsets existing

/-- The second pass of `handle_replaceable_check`. -/
def replaceableSecondPass : List Nat → NostrEventEntity → RelayM Unit
  | [], _ => return ()
  | offset :: offsets, existing => do
    let (err, existing) ← readAtOffset offset existing
    if err == .ok then
      match hexStrToBin 32 existing.id with
      | some oldId => let _ ← deleteById oldId
      | none => pure ()
    replaceableSecondPass offsets existing

/-- `handle_replaceable_check`. -/
def handleReplaceableCheck (event : NostrEventEntity) : RelayM Bool := do
  match hexStrToBin 32 event.pubkey with
  | none => return true
  | some pubkey =>
    let offsets ← findPredecessors pubkey event.kind
    if offsets.length == 0 then return true
    let (shouldStore, existing) ← replaceableFirstPass event offsets .zero
    if !shouldStore then
      sendOkResponse event.id false "duplicate: have a newer event"
      return false
    replaceableSecondPass offsets existing
    return true

/-! ## Addressable events -/

/-- The loop of `handle_addressable_check`: `should_store`. -/
def addressableLoop (event : NostrEventEntity) (dValue : CStr) : List Nat → NostrEventEntity →
    RelayM Bool
  | [], _ => return true
  | offset :: offsets, existing => do
    let (err, existing) ← readAtOffset offset existing
    if err != .ok then addressableLoop event dValue offsets existing
    else if !strEqual (getDTagValue existing) dValue then
      addressableLoop event dValue offsets existing
    else if existing.createdAt > event.createdAt then return false
    else if existing.createdAt = event.createdAt && existingLower 64 existing.id event.id then
      return false
    else
      match hexStrToBin 32 existing.id with
      | some oldId => let _ ← deleteById oldId
      | none => pure ()
      addressableLoop event dValue offsets existing

/-- `handle_addressable_check`. -/
def handleAddressableCheck (event : NostrEventEntity) : RelayM Bool := do
  match hexStrToBin 32 event.pubkey with
  | none => return true
  | some pubkey =>
    let dValue := getDTagValue event
    let offsets ← findPredecessors pubkey event.kind
    if offsets.length == 0 then return true
    let shouldStore ← addressableLoop event dValue offsets .zero
    if !shouldStore then
      sendOkResponse event.id false "duplicate: have a newer event"
    return shouldStore

/-! ## Deletion events -/

/-- The buffer `target` and the flag `has_invalid_ref`. -/
structure DeletionState where
  target : NostrEventEntity
  hasInvalidRef : Bool

/-- An `e` tag of `process_deletion_event`. -/
def processETag (deletionPubkey : Bytes 32) (value : CStr) (s : DeletionState) :
    RelayM DeletionState := do
  if value.length != 64 then return s
  match hexStrToBin 32 value with
  | none => return s
  | some targetId =>
    let (err, target) ←
      (Prog.call (S := RelaySig) (.getEventById targetId s.target) :
        RelayM (NostrDBError × NostrEventEntity))
    if err != .ok then return { s with target := target }
    if hexStrToBin 32 target.pubkey == some deletionPubkey then
      let _ ← deleteById targetId
      return { s with target := target }
    return ⟨target, true⟩

/-- The kind loop of an `a` tag: the number in 32 bits, and where it stops. -/
def parseATagKind : CStr → Nat → Nat × CStr
  | [], aKind => (aKind, [])
  | c :: rest, aKind =>
    if c == 58 || c < 48 || c > 57 then (aKind, c :: rest)
    else parseATagKind rest ((aKind * 10 + (c.toNat - 48)) % 2 ^ 32)

/-- An `a` tag value `kind:pubkey:d`, as far as its format is checked. -/
structure ATag where
  kind : Nat
  pubkey : Bytes 32
  dValue : CStr
deriving DecidableEq

/-- The parsing part of an `a` tag; `none` where the source continues with the
next tag. -/
def parseATag (value : CStr) : Option ATag :=
  match parseATagKind value 0 with
  | (aKind, 58 :: rest) =>
    let aPubkey := rest.takeWhile (· != 58)
    if aPubkey.length != 64 then none
    else
      match hexStrToBin 32 rest with
      | none => none
      | some pubkey => some ⟨aKind, pubkey, (rest.drop aPubkey.length).drop 1⟩
  | _ => none

/-- The loop over the results of an `a` tag. -/
def aTagLoop (deletionEvent : NostrEventEntity) (aDValue : CStr) : List Nat → NostrEventEntity →
    RelayM NostrEventEntity
  | [], target => return target
  | offset :: offsets, target => do
    let (err, target) ← readAtOffset offset target
    if err == .ok && strEqual (getDTagValue target) aDValue &&
        target.createdAt ≤ deletionEvent.createdAt then
      match hexStrToBin 32 target.id with
      | some targetId => let _ ← deleteById targetId
      | none => pure ()
    aTagLoop deletionEvent aDValue offsets target

/-- An `a` tag of `process_deletion_event`. -/
def processATag (deletionPubkey : Bytes 32) (deletionEvent : NostrEventEntity) (value : CStr)
    (s : DeletionState) : RelayM DeletionState := do
  match parseATag value with
  | none => return s
  | some a =>
    if a.pubkey != deletionPubkey then return { s with hasInvalidRef := true }
    if !(← createResult) then return s
    let (err, offsets) ← executeQuery ⟨a.pubkey, a.kind, 100⟩
    if err != .ok then return s
    let target ← aTagLoop deletionEvent a.dValue offsets s.target
    return { s with target := target }

/-- A tag the deletion handler looks at, with its first value. -/
inductive TagRef
  | event (value : CStr)
  | address (value : CStr)

/-- Which of the two the key of a tag makes it, if it has a value. -/
def tagRef (tag : NostrTagEntity) : Option TagRef :=
  match tag.key, tag.values with
  | [101], value :: _ => some (.event value)
  | [97], value :: _ => some (.address value)
  | _, _ => none

/-- One round of the tag loop of `process_deletion_event`. -/
def processTag (deletionPubkey : Bytes 32) (deletionEvent : NostrEventEntity)
    (tag : NostrTagEntity) (s : DeletionState) : RelayM DeletionState :=
  match tagRef tag with
  | some (.event value) => processETag deletionPubkey value s
  | some (.address value) => processATag deletionPubkey deletionEvent value s
  | none => return s

/-- The tag loop of `process_deletion_event`. -/
def deletionLoop (deletionPubkey : Bytes 32) (deletionEvent : NostrEventEntity) :
    List NostrTagEntity → DeletionState → RelayM DeletionState
  | [], s => return s
  | tag :: tags, s => do
    let s ← processTag deletionPubkey deletionEvent tag s
    deletionLoop deletionPubkey deletionEvent tags s

/-- `process_deletion_event`. -/
def processDeletionEvent (deletionEvent : NostrEventEntity) : RelayM Bool := do
  match hexStrToBin 32 deletionEvent.pubkey with
  | none => return false
  | some deletionPubkey =>
    if !(← mmapEntity) then return false
    let s ← deletionLoop deletionPubkey deletionEvent deletionEvent.tags ⟨.zero, false⟩
    if s.hasInvalidRef then
      sendOkResponse deletionEvent.id false "blocked: cannot delete other's events"
      return false
    return true

/-! ## EVENT messages -/

/-- `handle_event_message`. -/
def handleEventMessage (dbInitialized : Bool) (event : NostrEventEntity) : RelayM Bool := do
  if !dbInitialized then
    sendOkResponse event.id false "error: database not initialized"
    return false
  if event.kind == 5 then
    if !(← processDeletionEvent event) then return true
    storeAndBroadcast event
  else
    if isReplaceableKind event.kind then
      if !(← handleReplaceableCheck event) then return true
    if isAddressableKind event.kind then
      if !(← handleAddressableCheck event) then return true
    storeAndBroadcast event

/-- One EVENT message, from the state between messages to the next. -/
def handleMessage (engine : QueryEngine) (env : Env) (dbInitialized : Bool) (event : NostrEventEntity)
    (w : World) : World :=
  ((handleEventMessage dbInitialized event).run (answer engine env) { w with replies := [] }).2

/-- EVENT messages one after another. -/
def runMessages (engine : QueryEngine) (env : Env) (w : World) (events : List NostrEventEntity) :
    World :=
  events.foldl (fun w event => handleMessage engine env true event w) w

end OnionRelay.Relay
