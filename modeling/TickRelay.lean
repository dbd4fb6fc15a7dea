import TickRelay.App
import TickRelay.Binary64.Basic
import TickRelay.Binary64.Reading
import TickRelay.Binary64.Shortest
import TickRelay.Binary64.Text
import TickRelay.Bytes
import TickRelay.Cache
import TickRelay.Calendar.Date
import TickRelay.Calendar.Instant
import TickRelay.Calendar.Text
import TickRelay.CommandLine
import TickRelay.Config.Basic
import TickRelay.Config.Decode
import TickRelay.Config.Load
import TickRelay.Config.Settings
import TickRelay.Dispatch
import TickRelay.Fault
import TickRelay.Feed.Backoff
import TickRelay.Feed.Client
import TickRelay.Feed.Frame
import TickRelay.Feed.Retry
import TickRelay.Feed.Run
import TickRelay.Health
import TickRelay.Http.Message
import TickRelay.Http.Status
import TickRelay.Http.Url
import TickRelay.Hub
import TickRelay.Ingest.Buffer
import TickRelay.Ingest.Memory
import TickRelay.Json.Number
import TickRelay.Json.Skip
import TickRelay.Json.Text
import TickRelay.Json.Value
import TickRelay.Limiter
import TickRelay.Logger
import TickRelay.Main
import TickRelay.Metrics
import TickRelay.Pool
import TickRelay.Proofs.AcceptedTicks
import TickRelay.Proofs.BackoffBand
import TickRelay.Proofs.BufferConservation
import TickRelay.Proofs.BufferRecency
import TickRelay.Proofs.BufferTransit
import TickRelay.Proofs.BulkLines
import TickRelay.Proofs.BulkReceipts
import TickRelay.Proofs.BulkWriting
import TickRelay.Proofs.CacheHistory
import TickRelay.Proofs.CalendarMonths
import TickRelay.Proofs.CivilTimes
import TickRelay.Proofs.CommandAnswers
import TickRelay.Proofs.ConnectionGauge
import TickRelay.Proofs.ConnectionOwnership
import TickRelay.Proofs.DecimalDigits
import TickRelay.Proofs.DeliveryCalls
import TickRelay.Proofs.DeliveryOrder
import TickRelay.Proofs.DeliveryRounds
import TickRelay.Proofs.DerivedDurations
import TickRelay.Proofs.ExactDispatch
import TickRelay.Proofs.FailedDials
import TickRelay.Proofs.FeedLifecycle
import TickRelay.Proofs.FeedShutdown
import TickRelay.Proofs.FeedView
import TickRelay.Proofs.FlushLoop
import TickRelay.Proofs.FrameRouting
import TickRelay.Proofs.FramingIndependence
import TickRelay.Proofs.HostileStreams
import TickRelay.Proofs.HubView
import TickRelay.Proofs.InsertedRows
import TickRelay.Proofs.JsonOutline
import TickRelay.Proofs.LimiterSweep
import TickRelay.Proofs.LimiterWindow
import TickRelay.Proofs.MirroredTicks
import TickRelay.Proofs.NearestNumbers
import TickRelay.Proofs.Numerals
import TickRelay.Proofs.OutgoingFrames
import TickRelay.Proofs.OutlinedScalars
import TickRelay.Proofs.PartitionMonths
import TickRelay.Proofs.PartitionSchedule
import TickRelay.Proofs.PartitionTable
import TickRelay.Proofs.PendingTriggers
import TickRelay.Proofs.PoolCalls
import TickRelay.Proofs.ProviderAgreement
import TickRelay.Proofs.ProviderExchange
import TickRelay.Proofs.RearrangedTrees
import TickRelay.Proofs.ReconnectLimit
import TickRelay.Proofs.RecordOverlay
import TickRelay.Proofs.RegistryHistory
import TickRelay.Proofs.RegistryView
import TickRelay.Proofs.Runs
import TickRelay.Proofs.SettingsOverlay
import TickRelay.Proofs.StaleTriggers
import TickRelay.Proofs.SubscriptionOrder
import TickRelay.Proofs.SymbolForm
import TickRelay.Proofs.SymbolKeys
import TickRelay.Proofs.TableView
import TickRelay.Proofs.TickTimes
import TickRelay.Proofs.UplinkReplay
import TickRelay.Proofs.UplinkWithdrawal
import TickRelay.Proofs.Utf8Validity
import TickRelay.Proofs.ValidSettings
import TickRelay.Proofs.VisitSubscriptions
import TickRelay.Proofs.VisitTeardown
import TickRelay.Proofs.VisitTraffic
import TickRelay.Proofs.WrittenTimes
import TickRelay.Registry
import TickRelay.Server.Command
import TickRelay.Server.Routes
import TickRelay.Server.Visit
import TickRelay.Session
import TickRelay.Storage.Database
import TickRelay.Storage.Elastic
import TickRelay.Storage.Mysql
import TickRelay.Storage.Recording
import TickRelay.Storage.Redis
import TickRelay.Storage.Terminal
import TickRelay.Symbol
import TickRelay.Table
import TickRelay.Text.Encoding
import TickRelay.Text.Quoted
import TickRelay.Tick
import TickRelay.Utf8
import TickRelay.Websocket.Control
import TickRelay.Websocket.Frame
import TickRelay.Websocket.Reader
