import ChatBackend.Lib.Machine
import ChatBackend.Lib.Transactions
import ChatBackend.Ids
import ChatBackend.Models
import ChatBackend.Service.Queries
import ChatBackend.Service.Calls
import ChatBackend.Service.Invariant
import ChatBackend.Service.Ledger
import ChatBackend.Service.Refinement
import ChatBackend.Service.DeliveryState
import ChatBackend.Service.OutboxAgreement
import ChatBackend.Service.Idempotency
import ChatBackend.Service.ReceiptTimes
import ChatBackend.Lib.Keyset
import ChatBackend.Service.Listing
import ChatBackend.Lib.CatchUp
import ChatBackend.Service.CatchUp
import ChatBackend.Lib.Noninterference
import ChatBackend.Service.Atomic
import ChatBackend.Service.Visibility
import ChatBackend.Service.Privacy
import ChatBackend.Service.Alone
import ChatBackend.Lib.Edits
import ChatBackend.Realtime.Hub
import ChatBackend.Realtime.Registry
import ChatBackend.Realtime.Hello
import ChatBackend.Realtime.Gap
import ChatBackend.Realtime.Relay
import ChatBackend.Realtime.RelaySafety
import ChatBackend.Service.StoreShape
import ChatBackend.Service.PairOrder
import ChatBackend.Lib.Paging
import ChatBackend.Service.Paging
import ChatBackend.Service.ConversationList
import ChatBackend.Lib.Joins
import ChatBackend.Service.Receipts
import ChatBackend.Realtime.Queue
import ChatBackend.Realtime.Session
import ChatBackend.Lib.Json
import ChatBackend.Lib.JsonGrammar
import ChatBackend.Lib.JsonEncoder
import ChatBackend.Lib.JsonDecoder
import ChatBackend.Realtime.Dispatch
import ChatBackend.Lib.PyText
import ChatBackend.Realtime.Frames
import ChatBackend.Realtime.CausalOrder
import ChatBackend.Lib.Regex
import ChatBackend.Auth
import ChatBackend.Service.CursorText
import ChatBackend.Service.SendPaths
import ChatBackend.Service.Storable
import ChatBackend.Service.Attachments
import ChatBackend.Lib.EventFlag
import ChatBackend.Realtime.RelayRun
import ChatBackend.Realtime.WakeUp
import ChatBackend.Lib.JsonScan
import ChatBackend.Lib.JsonRoundTrip
import ChatBackend.Realtime.Wire
import ChatBackend.Realtime.Deployment
import ChatBackend.Realtime.EndToEnd
import ChatBackend.Realtime.Devices
import ChatBackend.Lib.Settling
import ChatBackend.Realtime.Drain
import ChatBackend.Realtime.Recovery
import ChatBackend.Realtime.Heartbeat
import ChatBackend.Lib.Process
import ChatBackend.RequestContext
import ChatBackend.Lib.Fields
import ChatBackend.Lib.JsonItems
import ChatBackend.Handshake
import ChatBackend.Config
import ChatBackend.Lib.JsonLines
import ChatBackend.Logging
import ChatBackend.Realtime.Sockets
import ChatBackend.Service.TypingCache
import ChatBackend.Uuid7
import ChatBackend.Lib.Receiver
import ChatBackend.Demo.Pane
import ChatBackend.Demo.Screen
import ChatBackend.Lib.Text
