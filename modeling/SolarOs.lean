import SolarOs.Library.CyclicCode
import SolarOs.Link.Frame
import SolarOs.LinkRepeater.AtMostOnce
import SolarOs.Library.Machine
import SolarOs.Library.StopAndWait.Delivery
import SolarOs.LinkStream.System
import SolarOs.LinkStream.Sender
import SolarOs.LinkStream.Delivery
import SolarOs.LinkStream.Completion
import SolarOs.LinkStream.Convergence
import SolarOs.Ramfs.ArenaSafety
import SolarOs.LinkStream.Direction
import SolarOs.Ramfs.Allocation
import SolarOs.Pocsag.Codeword
import SolarOs.Library.CString
import SolarOs.Pocsag.Decoder
import SolarOs.Pocsag.Reception
import SolarOs.Pocsag.Page
import SolarOs.Pocsag.RoundTrip
import SolarOs.Library.EditHistory
import SolarOs.Writer.Buffer
import SolarOs.Writer.Gap
import SolarOs.Writer.History
import SolarOs.Writer.Records
import SolarOs.Writer.Reference
import SolarOs.Library.Program
import SolarOs.Library.SlotRing
import SolarOs.Messaging.Model
import SolarOs.Messaging.Calls
import SolarOs.Library.Keyed
import SolarOs.Messaging.Unread
import SolarOs.Messaging.UnreadRuns
import SolarOs.Messaging.Boot
import SolarOs.Library.QueueLog
import SolarOs.Messaging.Outbox
import SolarOs.Messaging.OutboxRuns
import SolarOs.Messaging.Homes
import SolarOs.Messaging.HomesRuns
import SolarOs.Inbox.Model
import SolarOs.Inbox.Store
import SolarOs.Inbox.Undisturbed
import SolarOs.Inbox.Stored
import SolarOs.Inbox.Writing
import SolarOs.Inbox.Reference
import SolarOs.Inbox.Runs
import SolarOs.Inbox.PowerLoss
import SolarOs.Inbox.Atomicity
import SolarOs.Input.Model
import SolarOs.Input.Balance
import SolarOs.Input.Runs
import SolarOs.Jobs.Model
import SolarOs.Jobs.WorkerExit
import SolarOs.Contacts.Model
import SolarOs.Contacts.Consistent
import SolarOs.Contacts.Storable
import SolarOs.Contacts.Eviction
import SolarOs.Contacts.Calls
import SolarOs.Contacts.Refusal
import SolarOs.Library.Rights
import SolarOs.Contacts.Durable
import SolarOs.Contacts.Persistence
import SolarOs.Contacts.PersistRuns
import SolarOs.EspNow.Matching
import SolarOs.EspNow.Outcomes
import SolarOs.EspNow.LinkJob
import SolarOs.EspNow.LinkRuns
import SolarOs.EspNow.Peers
import SolarOs.Library.Alone
import SolarOs.EspNow.PeerTable
import SolarOs.EspNow.PeerUndo
import SolarOs.EspNow.PeerStanding
import SolarOs.EspNow.PeerDriver
import SolarOs.Midi.Codec
import SolarOs.Midi.Decoding
import SolarOs.Library.Wrapping
import SolarOs.Streams.Registry
import SolarOs.Streams.Counting
import SolarOs.Streams.Runs
import SolarOs.Schedule.Store
import SolarOs.Storage.Replace
import SolarOs.Schedule.PowerLoss
import SolarOs.Http.Routes
import SolarOs.Http.Serving
import SolarOs.Zmodem.Reader
import SolarOs.Zmodem.RoundTrip
import SolarOs.Zmodem.Integrity
import SolarOs.Zmodem.Transfers
import SolarOs.Gateway.Invariant
import SolarOs.Gateway.TransportTurns
import SolarOs.Gateway.WorkerTurns
import SolarOs.Library.ShiftRegister
import SolarOs.Link.ErrorDetection
import SolarOs.Ramfs.Coalescing
import SolarOs.LinkRepeater.Replacement
import SolarOs.Slip.RoundTrip
import SolarOs.Gateway.CalmRuns
import SolarOs.Library.Transducer
import SolarOs.Telnet.Decode
import SolarOs.Telnet.InputOrder
import SolarOs.Link.Instances
import SolarOs.Link.References
import SolarOs.Link.SlotsKept
import SolarOs.Link.Acknowledged
import SolarOs.Link.AcknowledgedRuns
import SolarOs.Link.Delivery
import SolarOs.Library.LinkedList
import SolarOs.Ramfs.Calls
import SolarOs.Ramfs.Resolution
import SolarOs.Ramfs.Housing
import SolarOs.Library.NamedTree
import SolarOs.Ramfs.Linked
import SolarOs.Ramfs.Sound
import SolarOs.Ramfs.TreeChanges
import SolarOs.Library.Memory
import SolarOs.Ramfs.FileData
import SolarOs.Ramfs.OpenAtomic
import SolarOs.Ramfs.FileCalls
import SolarOs.Ramfs.Runs
import SolarOs.Library.ListCursor
import SolarOs.Ramfs.DirStreams
import SolarOs.Library.BitWeight
import SolarOs.LinkStream.Opening
import SolarOs.Pocsag.Correction
import SolarOs.Json.Scanner
import SolarOs.Library.JsonGrammar
import SolarOs.Midi.RunningStatus
import SolarOs.Json.Members
import SolarOs.Json.RoundTrip
import SolarOs.Expr.Model
import SolarOs.Expr.Tree
import SolarOs.Writer.Atomicity
import SolarOs.Expr.Parsing
import SolarOs.Expr.Depth
import SolarOs.Messaging.Failures
import SolarOs.Schedule.NextWake
import SolarOs.Schedule.WakeRuns
import SolarOs.Library.Calendar
import SolarOs.Schedule.RtcAlarm
import SolarOs.Schedule.RtcArming
import SolarOs.Sketch.Canvas
import SolarOs.Sketch.Line
import SolarOs.Library.RegionGrowth
import SolarOs.Sketch.FloodFill
import SolarOs.Library.Png
import SolarOs.Sketch.Png
import SolarOs.Resources.Claims
import SolarOs.Zmodem.Timeouts
import SolarOs.Library.SegmentPath
import SolarOs.Storage.Mounts
import SolarOs.Storage.Paths
import SolarOs.Zip.Names
import SolarOs.TextSearch.Nearest
import SolarOs.Telnet.Authentication
import SolarOs.Shell.Tokenizer
import SolarOs.Vt100.Input
import SolarOs.Library.Alignment
import SolarOs.Shell.Completion
import SolarOs.Shell.Suggestions
import SolarOs.Input.Axes
import SolarOs.Input.Typing
import SolarOs.Contacts.Discovery
import SolarOs.LinkMessaging.Requests
import SolarOs.Nvs.Backup
import SolarOs.Xml.Parser
import SolarOs.Xml.RoundTrip
import SolarOs.Terminal.Grid
import SolarOs.Terminal.Lines
import SolarOs.Ramfs.FileRuns
import SolarOs.Wifi.Clients
import SolarOs.Chat.Channels
import SolarOs.Agent.Records
import SolarOs.Agent.Retention
import SolarOs.Ota.Upgrade
import SolarOs.Dsp.Level
import SolarOs.Dsp.Fir
import SolarOs.Time.Epoch
