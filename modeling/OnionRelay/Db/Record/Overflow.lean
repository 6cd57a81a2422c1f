import OnionRelay.Db.OverflowPage
import OnionRelay.Db.Record.SlotPage

/-!
# Spanned records

`overflow.c`.  A record that is too long for one page has its first bytes, behind a
prefix, in a slot of a page of its own, and the others on a chain of overflow pages,
each with the next page, the number of its bytes, and the bytes.
-/

namespace OnionRelay.Db

open OnionRelay.Lib

/-! ## The page layer that the record store uses -/

/-- `disk_free_page`, `pool_size` and `page_ids[i]`. -/
inductive RecordOp
  | free (pid : Nat)
  | size
  | pageId (i : Nat)

def RecordSig : Sig where
  Op := RecordOp
  Resp
    | .free _ => Unit
    | .size => Nat
    | .pageId _ => Nat

abbrev RecordM := Prog (PageSig.sum RecordSig)

def poolPin (pid : Nat) : RecordM (Option PageData) := Prog.call (S := PageSig.sum RecordSig) (.inl (.pin pid))

def poolUnpin (pid : Nat) : RecordM Unit := Prog.call (S := PageSig.sum RecordSig) (.inl (.unpin pid))

def poolAlloc : RecordM (Option (Nat × PageData)) := Prog.call (S := PageSig.sum RecordSig) (.inl .alloc)

def poolWrite (pid : Nat) (page : PageData) : RecordM Unit :=
  Prog.call (S := PageSig.sum RecordSig) (.inl (.write pid page))

def poolDirty (pid lsn : Nat) : RecordM Unit :=
  Prog.call (S := PageSig.sum RecordSig) (.inl (.markDirty pid lsn))

def poolFree (pid : Nat) : RecordM Unit := Prog.call (S := PageSig.sum RecordSig) (.inr (.free pid))

def poolSize : RecordM Nat := Prog.call (S := PageSig.sum RecordSig) (.inr .size)

def poolPageId (i : Nat) : RecordM Nat := Prog.call (S := PageSig.sum RecordSig) (.inr (.pageId i))

/-! ## Layout -/

def spannedMarker : Nat := 0xFFFF

def spannedPrefixSize : Nat := 8

/-- `OVERFLOW_DATA_SPACE` -/
def overflowDataSpace : Nat := dbPageSize - 8

/-- The bytes that fit behind the prefix on a fresh page. -/
def maxInline : Nat := dbPageSize - slotPageHeaderSize - slotEntrySize - spannedPrefixSize

/-- `data_length` -/
def dataLength (page : PageData) : Nat := read16 page 4

/-- An overflow page with these bytes and no page behind it. -/
def spanPage (chunk : List UInt8) : PageData := writeAt (write16 zeroPage 4 chunk.length) 8 chunk

structure SpannedPrefix where
  totalLength : Nat
  inlineLength : Nat
  overflowPage : Nat

def SpannedPrefix.encode (p : SpannedPrefix) : List UInt8 :=
  toLE 2 p.totalLength ++ toLE 2 p.inlineLength ++ toLE 4 p.overflowPage

def SpannedPrefix.decode (bytes : List UInt8) : SpannedPrefix where
  totalLength := ofLE (bytes.take 2)
  inlineLength := ofLE ((bytes.drop 2).take 2)
  overflowPage := ofLE ((bytes.drop 4).take 4)

/-- The prefix of the record in slot `i`. -/
def spannedPrefix (page : PageData) (i : Nat) : SpannedPrefix :=
  SpannedPrefix.decode (readAt page (slotOffset page i) spannedPrefixSize)

/-- `overflow_is_spanned` -/
def overflowIsSpanned (page : PageData) (i : Nat) : Bool :=
  decide (i < slotCount page) && decide (slotLength page i = spannedMarker)

/-! ## The operations -/

/-- The loop of `overflow_free`; a file has at most `dbMaxPages` pages. -/
def overflowFreeLoop : Nat → Nat → RecordM Unit
  | 0, _ => return ()
  | fuel + 1, pid =>
    if pid = 0 then return ()
    else do
      match ← poolPin pid with
      | none => return ()
      | some page =>
        poolUnpin pid
        poolFree pid
        overflowFreeLoop fuel (nextPage page)

/-- `overflow_free` -/
def overflowFree (first : Nat) : RecordM Unit := overflowFreeLoop dbMaxPages first

/-- `overflow_free` unless the chain is empty. -/
def dropChain (first : Nat) : RecordM Unit := if first ≠ 0 then overflowFree first else return ()

/-- The link from the page before; it is left out if that page cannot be pinned. -/
def linkPrevious (prev pid : Nat) : RecordM Unit :=
  if prev ≠ 0 then do
    match ← poolPin prev with
    | none => return ()
    | some page =>
      poolWrite prev (setNextPage page pid)
      poolDirty prev 0
      poolUnpin prev
  else return ()

/-- The loop of `overflow_insert` over the bytes that remain: the first page of the
chain, or `none` if there is no page left.  Every round takes at least one byte. -/
def buildChain : Nat → List UInt8 → Nat → Nat → RecordM (Option Nat)
  | 0, _, first, _ => return some first
  | fuel + 1, remaining, first, prev =>
    if remaining = [] then return some first
    else do
      match ← poolAlloc with
      | none =>
        dropChain first
        return none
      | some (pid, _) =>
        poolWrite pid (spanPage (remaining.take overflowDataSpace))
        poolDirty pid 0
        linkPrevious prev pid
        poolUnpin pid
        buildChain fuel (remaining.drop overflowDataSpace) (if first = 0 then pid else first) pid

/-- The record in the slot of the primary page. -/
def inlineRecord (data : List UInt8) (overflowPage : Nat) : List UInt8 :=
  let inlineData := data.take maxInline
  SpannedPrefix.encode ⟨data.length, inlineData.length, overflowPage⟩ ++ inlineData

/-- `overflow_insert` -/
def overflowInsert (data : List UInt8) : RecordM (Except NostrDBError RecordId) := do
  match ← buildChain data.length (data.drop maxInline) 0 0 with
  | none => return .error .full
  | some first =>
    match ← poolAlloc with
    | none =>
      dropChain first
      return .error .full
    | some (pid, _) =>
      match slotPageInsert (slotPageInit pid) (inlineRecord data first) with
      | (.error err, page) =>
        poolWrite pid page
        dropChain first
        poolUnpin pid
        return .error err
      | (.ok i, page) =>
        poolWrite pid (write16 page (slotAt i + 2) spannedMarker)
        poolDirty pid 0
        poolUnpin pid
        return .ok ⟨UInt32.ofNat pid, UInt16.ofNat i⟩

/-- The loop of `overflow_read`: the bytes copied, up to `capacity`. -/
def readChain (capacity : Nat) : Nat → Nat → List UInt8 → RecordM (List UInt8)
  | 0, _, written => return written
  | fuel + 1, pid, written =>
    if pid ≠ 0 ∧ written.length < capacity then do
      match ← poolPin pid with
      | none => return written
      | some page =>
        let chunk := min (dataLength page) (capacity - written.length)
        poolUnpin pid
        readChain capacity fuel (nextPage page) (written ++ readAt page 8 chunk)
    else return written

/-- `overflow_read` with an output of `capacity` bytes: the length of the record and the
bytes copied. -/
def overflowRead (page : PageData) (i capacity : Nat) : RecordM (Except NostrDBError (Nat × List UInt8)) :=
  if slotCount page ≤ i then return .error .notFound
  else if slotOffset page i = 0 then return .error .notFound
  else do
    let span := spannedPrefix page i
    let bytes ← readChain capacity dbMaxPages span.overflowPage
      (readAt page (slotOffset page i + spannedPrefixSize) (min span.inlineLength capacity))
    return .ok (span.totalLength, bytes)

end OnionRelay.Db
