import TickRelay.Config.Basic

/-!
# A configuration as a tree of settings

Every setting has a name, and settings of one component form a group. The tree
has the settings in the order in which the structures declare them.

**Results.** `Config.settings` is the tree of a configuration.
-/

namespace TickRelay
namespace Config

/-- The value of a setting, or a group of settings. -/
inductive Setting where
  | text (value : Bytes)
  /-- A list that may not be given. -/
  | texts (values : Option (List Bytes))
  | integer (value : Int64)
  | number (value : Binary64)
  | flag (value : Bool)
  | group (settings : List (String × Setting))

/-- The settings of `Retry`. -/
def Retry.settings (r : Retry) : Setting := .group [
  ("number", .integer r.number), ("base_ms", .integer r.baseMs),
  ("max_sec", .integer r.maxSec), ("reset_sec", .integer r.resetSec)]

/-- The settings of `Feed`. -/
def Feed.settings (f : Feed) : Setting := .group [
  ("url", .text f.url), ("symbols", .texts f.symbols),
  ("connect_on_start", .flag f.connectOnStart), ("retry", f.retry.settings)]

/-- The settings of `Server`. -/
def Server.settings (s : Server) : Setting := .group [
  ("addr", .text s.addr), ("client_id_header", .text s.clientIdHeader),
  ("send_queue_size", .integer s.sendQueueSize),
  ("write_wait_sec", .integer s.writeWaitSec),
  ("pong_wait_sec", .integer s.pongWaitSec),
  ("max_message_size", .integer s.maxMessageSize)]

/-- The settings of `Cache`. -/
def Cache.settings (c : Cache) : Setting := .group [
  ("max_ticks_per_symbol", .integer c.maxTicksPerSymbol),
  ("max_age_sec", .integer c.maxAgeSec),
  ("sweep_interval_sec", .integer c.sweepIntervalSec)]

/-- The settings of `Ingestion`. -/
def Ingestion.settings (i : Ingestion) : Setting := .group [
  ("storages", .texts i.storages), ("commit_buffer", .integer i.commitBuffer),
  ("flush_interval_ms", .integer i.flushIntervalMs),
  ("max_buffered", .integer i.maxBuffered)]

/-- The settings of `RateLimit`. -/
def RateLimit.settings (r : RateLimit) : Setting := .group [
  ("window_sec", .integer r.windowSec),
  ("max_requests", .integer r.maxRequests),
  ("sweep_interval_sec", .integer r.sweepIntervalSec)]

/-- The settings of `Health`. -/
def Health.settings (h : Health) : Setting := .group [
  ("degraded_latency_ms", .number h.degradedLatencyMs),
  ("unhealthy_latency_ms", .number h.unhealthyLatencyMs),
  ("degraded_errors", .integer h.degradedErrors),
  ("unhealthy_errors", .integer h.unhealthyErrors),
  ("require_feed", .flag h.requireFeed)]

/-- The settings of `Websocket`. -/
def Websocket.settings (w : Websocket) : Setting := .group [
  ("conn_timeout_sec", .integer w.connTimeoutSec),
  ("read_timeout_sec", .integer w.readTimeoutSec)]

/-- The settings of `Mysql`. -/
def Mysql.settings (m : Mysql) : Setting := .group [
  ("user", .text m.user), ("password", .text m.password), ("URL", .text m.url),
  ("schema", .text m.schema),
  ("request_timeout_sec", .integer m.requestTimeoutSec),
  ("conn_max_lifetime_sec", .integer m.connMaxLifetimeSec),
  ("max_open_conns", .integer m.maxOpenConns),
  ("max_idle_conns", .integer m.maxIdleConns),
  ("create_schema", .flag m.createSchema)]

/-- The settings of `Elastic`. -/
def Elastic.settings (e : Elastic) : Setting := .group [
  ("addresses", .texts e.addresses), ("username", .text e.username),
  ("password", .text e.password), ("index_name", .text e.indexName),
  ("request_timeout_sec", .integer e.requestTimeoutSec),
  ("max_idle_conns", .integer e.maxIdleConns),
  ("max_idle_conns_per_host", .integer e.maxIdleConnsPerHost)]

/-- The settings of `Redis`. -/
def Redis.settings (r : Redis) : Setting := .group [
  ("addr", .text r.addr), ("password", .text r.password),
  ("db", .integer r.db), ("key_prefix", .text r.keyStart),
  ("channel_prefix", .text r.channelStart), ("ttl_sec", .integer r.ttlSec),
  ("request_timeout_sec", .integer r.requestTimeoutSec)]

/-- The settings of `Connection`. -/
def Connection.settings (c : Connection) : Setting := .group [
  ("websocket", c.websocket.settings), ("mysql", c.mysql.settings),
  ("elastic_search", c.elastic.settings), ("redis", c.redis.settings)]

/-- The settings of `Log`. -/
def Log.settings (l : Log) : Setting := .group [
  ("level", .text l.level), ("file_path", .text l.filePath)]

/-- The settings of a configuration. -/
def settings (c : Config) : Setting := .group [
  ("feed", c.feed.settings), ("server", c.server.settings),
  ("cache", c.cache.settings), ("ingestion", c.ingestion.settings),
  ("rate_limit", c.rateLimit.settings), ("health", c.health.settings),
  ("registry", .group [
    ("release_upstream_on_idle", .flag c.registry.releaseOnIdle)]),
  ("connection", c.connection.settings), ("log", c.log.settings)]

end Config
end TickRelay
