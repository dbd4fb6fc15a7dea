import TickRelay.Binary64.Basic
import TickRelay.Bytes

/-!
# Configuration

The settings of the service, one structure per component. The default of a
field is the value it has when the configuration says nothing. Numbers are
64-bit integers; a list that is not given is `none`.
-/

namespace TickRelay
namespace Config

/-- How the feed is reconnected. -/
structure Retry where
  /-- Losses in a row before giving up; none for zero. -/
  number : Int64 := 10
  baseMs : Int64 := 500
  maxSec : Int64 := 60
  /-- A session this long starts the count anew. -/
  resetSec : Int64 := 300
  deriving DecidableEq

/-- The provider of ticks. -/
structure Feed where
  url : Bytes := utf8 "wss://feed.example.com/ws"
  symbols : Option (List Bytes) := none
  connectOnStart : Bool := true
  retry : Retry := {}
  deriving DecidableEq

/-- The server for clients. -/
structure Server where
  addr : Bytes := utf8 ":8080"
  clientIdHeader : Bytes := utf8 "X-Client-ID"
  sendQueueSize : Int64 := 256
  writeWaitSec : Int64 := 5
  pongWaitSec : Int64 := 60
  maxMessageSize : Int64 := 4096
  deriving DecidableEq

/-- The cache of recent ticks. -/
structure Cache where
  maxTicksPerSymbol : Int64 := 1000
  maxAgeSec : Int64 := 300
  sweepIntervalSec : Int64 := 60
  deriving DecidableEq

/-- The batches for the storages. -/
structure Ingestion where
  storages : Option (List Bytes) := none
  commitBuffer : Int64 := 1000
  flushIntervalMs : Int64 := 1000
  maxBuffered : Int64 := 100000
  deriving DecidableEq

/-- The admission of clients. -/
structure RateLimit where
  windowSec : Int64 := 60
  maxRequests : Int64 := 100
  sweepIntervalSec : Int64 := 300
  deriving DecidableEq

/-- The thresholds of the health status; zero disables one. -/
structure Health where
  degradedLatencyMs : Binary64 := .zero
  unhealthyLatencyMs : Binary64 := .zero
  degradedErrors : Int64 := 0
  unhealthyErrors : Int64 := 0
  requireFeed : Bool := false
  deriving DecidableEq

/-- The registry of subscriptions. -/
structure Registry where
  releaseOnIdle : Bool := false
  deriving DecidableEq

/-- Time limits of the feed's socket. -/
structure Websocket where
  connTimeoutSec : Int64 := 10
  readTimeoutSec : Int64 := 60
  deriving DecidableEq

/-- The MySQL storage. -/
structure Mysql where
  user : Bytes := []
  password : Bytes := []
  url : Bytes := []
  schema : Bytes := []
  requestTimeoutSec : Int64 := 0
  connMaxLifetimeSec : Int64 := 0
  maxOpenConns : Int64 := 0
  maxIdleConns : Int64 := 0
  createSchema : Bool := false
  deriving DecidableEq

/-- The Elasticsearch storage. -/
structure Elastic where
  addresses : Option (List Bytes) := none
  username : Bytes := []
  password : Bytes := []
  indexName : Bytes := []
  requestTimeoutSec : Int64 := 0
  maxIdleConns : Int64 := 0
  maxIdleConnsPerHost : Int64 := 0
  deriving DecidableEq

/-- The Redis storage. -/
structure Redis where
  addr : Bytes := utf8 "localhost:6379"
  password : Bytes := []
  db : Int64 := 0
  keyStart : Bytes := utf8 "tick:"
  channelStart : Bytes := utf8 "ticks."
  ttlSec : Int64 := 3600
  requestTimeoutSec : Int64 := 5
  deriving DecidableEq

/-- The connections. -/
structure Connection where
  websocket : Websocket := {}
  mysql : Mysql := {}
  elastic : Elastic := {}
  redis : Redis := {}
  deriving DecidableEq

/-- The log. -/
structure Log where
  level : Bytes := utf8 "info"
  filePath : Bytes := []
  deriving DecidableEq

end Config

/-- All settings. -/
structure Config where
  feed : Config.Feed := {}
  server : Config.Server := {}
  cache : Config.Cache := {}
  ingestion : Config.Ingestion := {}
  rateLimit : Config.RateLimit := {}
  health : Config.Health := {}
  registry : Config.Registry := {}
  connection : Config.Connection := {}
  log : Config.Log := {}
  deriving DecidableEq

end TickRelay
