import PushService.System.Outcome
import PushService.Queue.Order
import PushService.Dispatcher.StableOrder
import PushService.Dispatcher.Delivery
import PushService.Dispatcher.Draining
import PushService.Dispatcher.Agreement
import PushService.Dispatcher.Numbering
import PushService.Dispatcher.Ordering
import PushService.Dispatcher.Threads
import PushService.Dispatcher.WakeUps
import PushService.Dispatcher.Access
import PushService.Codec.PrefixCode
import PushService.Protocol.Fields
import PushService.Protocol.Push
import PushService.Protocol.Serialization
import PushService.Protocol.Message
import PushService.Protocol.Messages
import PushService.Protocol.Frames
import PushService.Protocol.Adapter
import PushService.Protocol.Conservation
import PushService.Stream.Writes
import PushService.Client.TcpClient
import PushService.Client.ClientApp
import PushService.Client.Delivery
import PushService.Client.Rules
import PushService.Client.Reconnecting
import PushService.Client.Closing
import PushService.Client.Disconnecting
import PushService.Client.Connections
import PushService.Client.Rights
import PushService.Client.Isolation
import PushService.Client.Backlog
import PushService.Client.Retries
import PushService.Client.Notifications
import PushService.Client.Status
import PushService.Client.Loop
import PushService.Client.Callbacks
import PushService.Server.TcpServer
import PushService.Server.Rules
import PushService.Server.Shutdown
import PushService.Server.Broadcast
import PushService.Server.Accepting
import PushService.Server.Sessions
import PushService.Console.EventHandler
import PushService.Console.History
import PushService.Console.Display
import PushService.Text.Numerals
import PushService.Text.Patterns
import PushService.Console.Connect
import PushService.Gui.AddressChecks
import PushService.Database.PushStorage
import PushService.Database.ServerEvents
import PushService.Database.SqlText
import PushService.Database.InsertPush
import PushService.Database.PushLog
import PushService.Database.SqliteDb
import PushService.Database.EventBytes
import PushService.Database.EventLog
import PushService.System.Handles
import PushService.Database.StorageHandle
import PushService.Generator.AdminGenerator
import PushService.Generator.Lifecycle
import PushService.Generator.Refinement
import PushService.Hash.BlockHash
import PushService.Hash.Mixing
import PushService.Hash.MurmurHash3
import PushService.Hash.Blockwise
import PushService.Hash.Collisions
import PushService.Hash.Hasher
import PushService.Server.Lifecycle
import PushService.Server.EndToEnd
import PushService.Gui.FilterModel
import PushService.Gui.MainWindow
import PushService.Gui.Broadcasts
import PushService.Console.CommandLoop
import PushService.Client.Reports
