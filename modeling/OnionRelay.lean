import OnionRelay.Lib.Prog
import OnionRelay.Lib.Reach
import OnionRelay.Lib.LittleEndian
import OnionRelay.Nostr.Types
import OnionRelay.Db.DupMultimap
import OnionRelay.Db.TagWalk
import OnionRelay.Db.EventRecord
import OnionRelay.Db.EventSerializer
import OnionRelay.Db.EventLog
import OnionRelay.Db.Query
import OnionRelay.Db.FreeList
import OnionRelay.Db.Wal.Checkpoint
import OnionRelay.Db.Buffer.WriteAhead
import OnionRelay.Relay.World
import OnionRelay.Relay.Handlers
import OnionRelay.Relay.Reads
import OnionRelay.Relay.Checks
import OnionRelay.Relay.Deletion
import OnionRelay.Relay.Effects
import OnionRelay.Relay.AuthorIsolation
import OnionRelay.Relay.Resubmission
import OnionRelay.Relay.Rejection
import OnionRelay.Relay.Uniqueness
import OnionRelay.Relay.Latest
import OnionRelay.Db.Btree.Cascade
import OnionRelay.Db.Btree.RangeScan
import OnionRelay.Db.Btree.Refused
import OnionRelay.Relay.DeletionScope
import OnionRelay.Websocket.Receive
import OnionRelay.Websocket.PacketBounds
import OnionRelay.Websocket.Decoders
import OnionRelay.Websocket.WireFrame
import OnionRelay.Nostr.Subscription
import OnionRelay.Relay.ServerLoop
import OnionRelay.Nostr.Relayed
import OnionRelay.Nostr.TagTokens
import OnionRelay.Nostr.EventMembers
import OnionRelay.Nostr.IntegerMembers
import OnionRelay.Db.Record.Span
import OnionRelay.Db.Record.InsertFrame
import OnionRelay.Db.Record.UpdateFailure
import OnionRelay.Db.EventRead
import OnionRelay.Db.QueryDiscipline
import OnionRelay.Db.Timeline
import OnionRelay.Db.PostFilter
import OnionRelay.Db.PostFilterExact
import OnionRelay.Db.Wal.Rerun
import OnionRelay.Db.Buffer.PageTableRuns
import OnionRelay.Db.Buffer.Clock
import OnionRelay.Db.Buffer.PoolRuns
import OnionRelay.Db.CreatedAt
import OnionRelay.Nostr.ContentDecoder
import OnionRelay.Nostr.TimestampText
import OnionRelay.Nostr.TokenCount
import OnionRelay.Http.Inside
import OnionRelay.Lib.Base64
import OnionRelay.Util.CString
import OnionRelay.Websocket.Handshake
import OnionRelay.Json.JsmnText
import OnionRelay.Json.JsmnNesting
import OnionRelay.Relay.MessageHandler
import OnionRelay.Lib.Trace
import OnionRelay.Relay.Runs
