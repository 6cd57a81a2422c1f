import OnionRelay.Db.Btree.RangeScan
import OnionRelay.Db.EventSerializer
import OnionRelay.Db.QueryResult
import OnionRelay.Db.Record.RecordManager
import OnionRelay.Db.TagWalk
import OnionRelay.Db.DupIndex

/-!
# The query engine

`query_engine.c` and `nostr_db_query_execute`.  The strategies are programs that read
pages and do two things with a result set: they add to it and ask how many are in it.
What is done with the collected set, the post-filter, the sort and the limit, follows.

Of an entry of `ids` or `authors` the engine reads the value only, never its
`prefix_len`.
-/

namespace OnionRelay.Db.Engine

open OnionRelay.Lib

/-- `NostrDBFilter`, with the entries that its counts name. -/
structure NostrDBFilter where
  ids : List (Bytes 32)
  authors : List (Bytes 32)
  kinds : List Nat
  tags : List NostrDBFilterTag
  since : Int
  until_ : Int
  limit : Nat

/-- `IndexManager`, without its pool. -/
structure IndexManager where
  idIndex : BTree
  timelineIndex : BTree
  pubkeyIndex : BTree
  kindIndex : BTree
  pubkeyKindIndex : BTree
  tagIndex : BTree

def queryDefaultLimit : Nat := 500

/-- `filter->limit > 0 ? filter->limit : NOSTR_DB_QUERY_DEFAULT_LIMIT` -/
def NostrDBFilter.effectiveLimit (filter : NostrDBFilter) : Nat :=
  if 0 < filter.limit then filter.limit else queryDefaultLimit

/-! ## Collecting -/

/-- `query_result_add`, of which no caller looks at the result, and `rs->count`. -/
inductive CollectOp
  | add (rid : RecordId) (createdAt : Int)
  | count

def CollectSig : Sig where
  Op := CollectOp
  Resp
    | .add _ _ => Unit
    | .count => Nat

abbrev CollectM := Prog ((PageSig.sum RecordSig).sum CollectSig)

def collectAdd (rid : RecordId) (createdAt : Int) : CollectM Unit :=
  Prog.call (S := (PageSig.sum RecordSig).sum CollectSig) (.inr (.add rid createdAt))

def collectCount : CollectM Nat :=
  Prog.call (S := (PageSig.sum RecordSig).sum CollectSig) (.inr .count)

def readPages {α : Type} (p : PageM α) : CollectM α := (p.inl : RecordM α).inl

/-- `rs->count` -/
def collectedCount : Option QueryResultSet → Nat
  | none => 0
  | some rs => rs.count

/-- A result set, or `none` once something was written outside its arrays. -/
def collector : Handler CollectSig (Option QueryResultSet)
  | .add rid createdAt, rs => ((), rs.bind fun rs => (queryResultAdd rs rid createdAt).map Prod.snd)
  | .count, rs => (collectedCount rs, rs)

/-- A 64-bit number, read as signed. -/
def asInt64 (n : Int) : Int := Int.bmod n (2 ^ 64)

/-- `read_created_at`; of a spanned record it reads behind the prefix. -/
def readCreatedAt (rid : RecordId) : CollectM Int := do
  match ← readPages (pinPage rid.pageId.toNat) with
  | none => return 0
  | some page =>
    readPages (unpinPage rid.pageId.toNat)
    if slotCount page ≤ rid.slotIndex.toNat then return 0
    else
      let offset := slotOffset page rid.slotIndex.toNat
      if offset = 0 then return 0 else return asInt64 (ofLE (readAt page (offset + 128) 8))

/-- `ScanCtx`, without its result set and its pool. -/
structure ScanCtx where
  limit : Nat
  since : Int
  until_ : Int

/-- `ctx->limit > 0 && ctx->rs->count >= ctx->limit` -/
def limitReached (limit : Nat) : CollectM Bool := do
  let count ← collectCount
  return decide (0 < limit ∧ limit ≤ count)

/-- The time is outside the bounds of the filter. -/
def outside (since until_ ts : Int) : Bool := (0 < since && ts < since) || (0 < until_ && until_ < ts)

/-- `scan_collect_cb` -/
def scanCollectCb (ctx : ScanCtx) (rid : RecordId) : CollectM Bool := do
  if ← limitReached ctx.limit then return false
  else
    let ts ← readCreatedAt rid
    if outside ctx.since ctx.until_ ts then return true
    else
      collectAdd rid ts
      let reached ← limitReached ctx.limit
      return !reached

/-- The entries of one page, given to a callback; whether it stopped the scan. -/
def scanPage (callback : RecordId → CollectM Bool) : List RecordId → CollectM Bool
  | [] => return false
  | rid :: rids => do
    if ← callback rid then scanPage callback rids else return true

/-- The pages of a chain, given to a callback; whether it stopped the scan. -/
def scanChain (callback : RecordId → CollectM Bool) : Nat → Nat → CollectM Bool
  | 0, _ => return false
  | fuel + 1, pid =>
    if pid = 0 then return false
    else do
      match ← readPages (pinPage pid) with
      | none => return false
      | some page =>
        let stop ← scanPage callback (pageEntries page)
        readPages (unpinPage pid)
        if stop then return true else scanChain callback fuel (nextPage page)

/-- `btree_scan_key` with a callback that reads pages and collects. -/
def btreeScanKey (tree : BTree) (key : List UInt8) (callback : RecordId → CollectM Bool) :
    CollectM Unit := do
  let found ← readPages (btreeSearch tree key)
  if found.1 ≠ .ok ∨ chainHead found = 0 then return ()
  else
    let _ ← scanChain callback dbMaxPages (chainHead found)
    return ()

/-! ## The strategies -/

/-- The loop over the keys of an index, as long as the limit is not reached; the callback
gets what is left of the limit as its own. -/
def scanKeys (tree : BTree) (filter : NostrDBFilter) : List (List UInt8) → CollectM Unit
  | [] => return ()
  | key :: keys => do
    let count ← collectCount
    if count < filter.effectiveLimit then
      btreeScanKey tree key (scanCollectCb ⟨filter.effectiveLimit - count, filter.since, filter.until_⟩)
      scanKeys tree filter keys
    else return ()

/-- The loop of `query_by_ids`. -/
def lookUpIds (idIndex : BTree) (filter : NostrDBFilter) : List (Bytes 32) → CollectM Unit
  | [] => return ()
  | id :: ids => do
    let count ← collectCount
    if count < filter.effectiveLimit then
      match ← readPages (btreeSearch idIndex id.1) with
      | (.ok, some value) =>
        let rid : RecordId :=
          ⟨UInt32.ofNat (ofLE (value.take 4)), UInt16.ofNat (ofLE ((value.drop 4).take 2))⟩
        let ts ← readCreatedAt rid
        if outside filter.since filter.until_ ts then lookUpIds idIndex filter ids
        else
          collectAdd rid ts
          lookUpIds idIndex filter ids
      | _ => lookUpIds idIndex filter ids
    else return ()

/-- `query_by_ids` -/
def queryByIds (im : IndexManager) (filter : NostrDBFilter) : CollectM NostrDBError := do
  lookUpIds im.idIndex filter filter.ids
  return .ok

/-- `query_by_pubkey` -/
def queryByPubkey (im : IndexManager) (filter : NostrDBFilter) : CollectM NostrDBError := do
  scanKeys im.pubkeyIndex filter (filter.authors.map Subtype.val)
  return .ok

/-- `query_by_kind` -/
def queryByKind (im : IndexManager) (filter : NostrDBFilter) : CollectM NostrDBError := do
  scanKeys im.kindIndex filter (filter.kinds.map (toLE 4))
  return .ok

/-- `query_by_pubkey_kind` -/
def queryByPubkeyKind (im : IndexManager) (filter : NostrDBFilter) : CollectM NostrDBError := do
  scanKeys im.pubkeyKindIndex filter
    (filter.authors.flatMap fun author => filter.kinds.map fun kind => author.1 ++ toLE 4 kind)
  return .ok

/-- `collect_limit` -/
def collectLimit (filter : NostrDBFilter) : Nat :=
  let product := if 0 < filter.limit then
      filter.limit * ((filter.tags.head?.map fun tag => tag.values.length).getD 0) % 2 ^ 32
    else queryDefaultLimit
  if product < queryDefaultLimit then queryDefaultLimit else product

/-- The loop over the values of one tag. -/
def scanTagValues (tagIndex : BTree) (filter : NostrDBFilter) (name : UInt8) :
    List (Bytes 32) → CollectM Unit
  | [] => return ()
  | value :: values => do
    let count ← collectCount
    let limit := (collectLimit filter + (2 ^ 32 - count)) % 2 ^ 32
    if limit = 0 then return ()
    else
      btreeScanKey tagIndex (name :: value.1) (scanCollectCb ⟨limit, filter.since, filter.until_⟩)
      scanTagValues tagIndex filter name values

def scanTags (tagIndex : BTree) (filter : NostrDBFilter) : List NostrDBFilterTag → CollectM Unit
  | [] => return ()
  | tag :: tags => do
    scanTagValues tagIndex filter tag.name tag.values
    scanTags tagIndex filter tags

/-- `query_by_tag` -/
def queryByTag (im : IndexManager) (filter : NostrDBFilter) : CollectM NostrDBError := do
  scanTags im.tagIndex filter filter.tags
  return .ok

def int64Max : Int := 2 ^ 63 - 1

/-- `timeline_key_encode`; the difference is taken to wrap. -/
def timelineKeyEncode (createdAt : Int) : Int := asInt64 (int64Max - createdAt)

/-- `timeline_key_decode` -/
def timelineKeyDecode (encoded : Int) : Int := asInt64 (int64Max - encoded)

/-- The eight bytes of an `int64_t`. -/
def int64Bytes (n : Int) : List UInt8 := toLE 8 (n % 2 ^ 64).toNat

/-- The walk of `timeline_range_cb` over the entries of a page. -/
def timelineEntry (limit : Nat) (ts : Int) (rid : RecordId) : CollectM Bool := do
  collectAdd rid ts
  let reached ← limitReached limit
  return !reached

/-- `timeline_range_cb`; `limit` is the field of its context. -/
def timelineRangeCb (limit : Nat) (key value : List UInt8) : CollectM Bool := do
  if ← limitReached limit then return false
  else
    let ts := timelineKeyDecode (asInt64 (ofLE (key.take 8)))
    let stop ← scanChain (timelineEntry limit ts) dbMaxPages (ofLE (value.take 4))
    return !stop

/-- A range scan whose callback reads pages and collects. -/
def onRangeScan (callback : List UInt8 → List UInt8 → CollectM Bool) :
    (o : (PageSig.sum ScanSig).Op) → CollectM ((PageSig.sum ScanSig).Resp o)
  | .inl o => readPages (Prog.call o)
  | .inr (.call key value) => callback key value

/-- `query_timeline_scan` -/
def queryTimelineScan (im : IndexManager) (filter : NostrDBFilter) : CollectM NostrDBError :=
  let minKey := if 0 < filter.until_ then some (int64Bytes (timelineKeyEncode filter.until_)) else none
  let maxKey := if 0 < filter.since then some (int64Bytes (timelineKeyEncode filter.since)) else none
  (btreeRangeScan im.timelineIndex minKey maxKey).translate
    (onRangeScan (timelineRangeCb filter.effectiveLimit))

/-- `select_strategy`, and the call of the strategy. -/
def collect (im : IndexManager) (filter : NostrDBFilter) : CollectM NostrDBError :=
  if 0 < filter.ids.length then queryByIds im filter
  else if 0 < filter.tags.length then queryByTag im filter
  else if 0 < filter.authors.length ∧ 0 < filter.kinds.length then queryByPubkeyKind im filter
  else if 0 < filter.authors.length then queryByPubkey im filter
  else if 0 < filter.kinds.length then queryByKind im filter
  else queryTimelineScan im filter

/-! ## The post-filter -/

/-- The checks of `query_post_filter` on the buffer. -/
def postFilterAccepts (filter : NostrDBFilter) (buf : Mem) : Bool :=
  let header := EventHeader.read buf
  decide (header.flags &&& 1 = 0) &&
  !outside filter.since filter.until_ (asInt64 header.createdAt.toNat) &&
  (filter.kinds.isEmpty || filter.kinds.any (· == header.kind.toNat)) &&
  (filter.authors.isEmpty || filter.authors.any (· == header.pubkey)) &&
  (filter.ids.isEmpty || filter.ids.any (· == header.id)) &&
  (decide (filter.tags.length ≤ 1) || filter.tags.all
    (tagsMatchFilterTag (readAt buf (152 + header.contentLength.toNat) header.tagsLength.toNat)))

/-- One round: whether the entry is kept, and the buffer behind it. -/
def postFilterEntry (filter : NostrDBFilter) (rid : RecordId) (buf : Mem) : RecordM (Bool × Mem) := do
  match ← recordRead rid 4096 with
  | .error _ => return (false, buf)
  | .ok (length, bytes) =>
    let buf := writeAt buf 0 bytes
    return (decide (152 ≤ length) && postFilterAccepts filter buf, buf)

/-- The loop over the entries from `i` on, `left` of them; `write` are kept. -/
def postFilterLoop (filter : NostrDBFilter) : Nat → Nat → Nat → Mem → QueryResultSet → RecordM QueryResultSet
  | 0, _, write, _, rs => return ⟨{ rs.toResultArrays with count := write }, rs.bloom⟩
  | left + 1, i, write, buf, rs => do
    let (keep, buf) ← postFilterEntry filter (rs.keys i) buf
    if keep then
      postFilterLoop filter left (i + 1) (write + 1) buf
        (if write ≠ i then ⟨rs.put write (rs.keys i) (rs.createdAt i), rs.bloom⟩ else rs)
    else postFilterLoop filter left (i + 1) write buf rs

/-- `query_post_filter`; `stack` is what its buffer holds at first. -/
def queryPostFilter (filter : NostrDBFilter) (stack : Mem) (rs : QueryResultSet) : RecordM QueryResultSet :=
  postFilterLoop filter rs.count 0 0 stack rs

/-! ## The query -/

/-- `filter_validate` -/
def filterValidate (filter : NostrDBFilter) : Bool :=
  decide (filter.ids.length ≤ 256) && decide (filter.authors.length ≤ 256) &&
    decide (filter.kinds.length ≤ 64) && decide (filter.tags.length ≤ 26) &&
      !(0 < filter.since && 0 < filter.until_ && filter.until_ < filter.since)

/-- The post-filter, the sort and the limit. -/
def finish {σ : Type} (pages : Handler (PageSig.sum RecordSig) σ) (filter : NostrDBFilter) (stack : Mem)
    (rs : QueryResultSet) (s : σ) : Option QueryResultSet × σ :=
  let r := (queryPostFilter filter stack rs).run pages s
  ((queryResultSort r.1).map fun rs => queryResultApplyLimit rs filter.effectiveLimit, r.2)

/-- `query_execute` on the pages `pages` handles. -/
def queryExecute {σ : Type} (pages : Handler (PageSig.sum RecordSig) σ) (im : IndexManager)
    (filter : NostrDBFilter) (stack : Mem) (rs : QueryResultSet) (s : σ) :
    Option (NostrDBError × QueryResultSet) × σ :=
  if filterValidate filter = false then (some (.invalidEvent, rs), s)
  else if filter.limit = 0 then (some (.ok, rs), s)
  else
    match (collect im filter).run (pages.beside collector) (s, some rs) with
    | (_, s, none) => (none, s)
    | (err, s, some rs) =>
      if err ≠ .ok then (some (err, rs), s)
      else
        let r := finish pages filter stack rs s
        (r.1.map fun rs => (.ok, rs), r.2)

/-- `pack_record_id` -/
def packRecordId (rid : RecordId) : UInt64 := rid.pageId.toUInt64 <<< 16 ||| rid.slotIndex.toUInt64

/-- The loop over the results of a query. -/
def addOffsets (result : NostrDBResultSet) (entries : List (RecordId × Int)) : Option NostrDBResultSet :=
  entries.foldlM (fun result e => (nostrDbResultAdd result (packRecordId e.1) e.2).map Prod.snd) result

/-- `nostr_db_query_execute`, once the result set of the engine is allocated. -/
def nostrDbQueryExecute {σ : Type} (pages : Handler (PageSig.sum RecordSig) σ) (im : IndexManager)
    (filter : NostrDBFilter) (stack : Mem) (result : NostrDBResultSet) (s : σ) :
    Option (NostrDBError × NostrDBResultSet) × σ :=
  match queryExecute pages im filter stack (queryResultCreate result.capacity) s with
  | (none, s) => (none, s)
  | (some (err, rs), s) =>
    if err ≠ .ok then (some (err, result), s)
    else ((addOffsets result rs.entries).map fun result => (.ok, result), s)

end OnionRelay.Db.Engine
