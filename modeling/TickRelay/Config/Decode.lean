import TickRelay.Config.Basic
import TickRelay.Json.Value

/-!
# Reading a configuration

A configuration is the first value of a file, which is read in blocks. Each
of its structures is an object whose members are applied in order over what is
there; the members of the MySQL storage are named by the strict rule, all
others by the loose one.
-/

namespace TickRelay
namespace Config

open Json (Member ValueReader record text integer float flag textList)

/-- Reads `Retry`. -/
def Retry.reader : ValueReader Retry := record .loose [
  .of "number" (·.number) ({ · with number := · }) integer,
  .of "base_ms" (·.baseMs) ({ · with baseMs := · }) integer,
  .of "max_sec" (·.maxSec) ({ · with maxSec := · }) integer,
  .of "reset_sec" (·.resetSec) ({ · with resetSec := · }) integer]

/-- Reads `Feed`. -/
def Feed.reader : ValueReader Feed := record .loose [
  .of "url" (·.url) ({ · with url := · }) text,
  .of "symbols" (·.symbols) ({ · with symbols := · }) textList,
  .of "connect_on_start" (·.connectOnStart)
    ({ · with connectOnStart := · }) flag,
  .of "retry" (·.retry) ({ · with retry := · }) Retry.reader]

/-- Reads `Server`. -/
def Server.reader : ValueReader Server := record .loose [
  .of "addr" (·.addr) ({ · with addr := · }) text,
  .of "client_id_header" (·.clientIdHeader)
    ({ · with clientIdHeader := · }) text,
  .of "send_queue_size" (·.sendQueueSize)
    ({ · with sendQueueSize := · }) integer,
  .of "write_wait_sec" (·.writeWaitSec) ({ · with writeWaitSec := · }) integer,
  .of "pong_wait_sec" (·.pongWaitSec) ({ · with pongWaitSec := · }) integer,
  .of "max_message_size" (·.maxMessageSize)
    ({ · with maxMessageSize := · }) integer]

/-- Reads `Cache`. -/
def Cache.reader : ValueReader Cache := record .loose [
  .of "max_ticks_per_symbol" (·.maxTicksPerSymbol)
    ({ · with maxTicksPerSymbol := · }) integer,
  .of "max_age_sec" (·.maxAgeSec) ({ · with maxAgeSec := · }) integer,
  .of "sweep_interval_sec" (·.sweepIntervalSec)
    ({ · with sweepIntervalSec := · }) integer]

/-- Reads `Ingestion`. -/
def Ingestion.reader : ValueReader Ingestion := record .loose [
  .of "storages" (·.storages) ({ · with storages := · }) textList,
  .of "commit_buffer" (·.commitBuffer) ({ · with commitBuffer := · }) integer,
  .of "flush_interval_ms" (·.flushIntervalMs)
    ({ · with flushIntervalMs := · }) integer,
  .of "max_buffered" (·.maxBuffered) ({ · with maxBuffered := · }) integer]

/-- Reads `RateLimit`. -/
def RateLimit.reader : ValueReader RateLimit := record .loose [
  .of "window_sec" (·.windowSec) ({ · with windowSec := · }) integer,
  .of "max_requests" (·.maxRequests) ({ · with maxRequests := · }) integer,
  .of "sweep_interval_sec" (·.sweepIntervalSec)
    ({ · with sweepIntervalSec := · }) integer]

/-- Reads `Health`. -/
def Health.reader : ValueReader Health := record .loose [
  .of "degraded_latency_ms" (·.degradedLatencyMs)
    ({ · with degradedLatencyMs := · }) float,
  .of "unhealthy_latency_ms" (·.unhealthyLatencyMs)
    ({ · with unhealthyLatencyMs := · }) float,
  .of "degraded_errors" (·.degradedErrors)
    ({ · with degradedErrors := · }) integer,
  .of "unhealthy_errors" (·.unhealthyErrors)
    ({ · with unhealthyErrors := · }) integer,
  .of "require_feed" (·.requireFeed) ({ · with requireFeed := · }) flag]

/-- Reads `Registry`. -/
def Registry.reader : ValueReader Registry := record .loose [
  .of "release_upstream_on_idle" (·.releaseOnIdle)
    ({ · with releaseOnIdle := · }) flag]

/-- Reads `Websocket`. -/
def Websocket.reader : ValueReader Websocket := record .loose [
  .of "conn_timeout_sec" (·.connTimeoutSec)
    ({ · with connTimeoutSec := · }) integer,
  .of "read_timeout_sec" (·.readTimeoutSec)
    ({ · with readTimeoutSec := · }) integer]

/-- Reads `Mysql`. -/
def Mysql.reader : ValueReader Mysql := record .strict [
  .of "user" (·.user) ({ · with user := · }) text,
  .of "password" (·.password) ({ · with password := · }) text,
  .of "URL" (·.url) ({ · with url := · }) text,
  .of "schema" (·.schema) ({ · with schema := · }) text,
  .of "request_timeout_sec" (·.requestTimeoutSec)
    ({ · with requestTimeoutSec := · }) integer,
  .of "conn_max_lifetime_sec" (·.connMaxLifetimeSec)
    ({ · with connMaxLifetimeSec := · }) integer,
  .of "max_open_conns" (·.maxOpenConns) ({ · with maxOpenConns := · }) integer,
  .of "max_idle_conns" (·.maxIdleConns) ({ · with maxIdleConns := · }) integer,
  .of "create_schema" (·.createSchema) ({ · with createSchema := · }) flag]

/-- Reads `Elastic`. -/
def Elastic.reader : ValueReader Elastic := record .loose [
  .of "addresses" (·.addresses) ({ · with addresses := · }) textList,
  .of "username" (·.username) ({ · with username := · }) text,
  .of "password" (·.password) ({ · with password := · }) text,
  .of "index_name" (·.indexName) ({ · with indexName := · }) text,
  .of "request_timeout_sec" (·.requestTimeoutSec)
    ({ · with requestTimeoutSec := · }) integer,
  .of "max_idle_conns" (·.maxIdleConns) ({ · with maxIdleConns := · }) integer,
  .of "max_idle_conns_per_host" (·.maxIdleConnsPerHost)
    ({ · with maxIdleConnsPerHost := · }) integer]

/-- Reads `Redis`. -/
def Redis.reader : ValueReader Redis := record .loose [
  .of "addr" (·.addr) ({ · with addr := · }) text,
  .of "password" (·.password) ({ · with password := · }) text,
  .of "db" (·.db) ({ · with db := · }) integer,
  .of "key_prefix" (·.keyStart) ({ · with keyStart := · }) text,
  .of "channel_prefix" (·.channelStart) ({ · with channelStart := · }) text,
  .of "ttl_sec" (·.ttlSec) ({ · with ttlSec := · }) integer,
  .of "request_timeout_sec" (·.requestTimeoutSec)
    ({ · with requestTimeoutSec := · }) integer]

/-- Reads `Connection`. -/
def Connection.reader : ValueReader Connection := record .loose [
  .of "websocket" (·.websocket) ({ · with websocket := · }) Websocket.reader,
  .of "mysql" (·.mysql) ({ · with mysql := · }) Mysql.reader,
  .of "elastic_search" (·.elastic) ({ · with elastic := · }) Elastic.reader,
  .of "redis" (·.redis) ({ · with redis := · }) Redis.reader]

/-- Reads `Log`. -/
def Log.reader : ValueReader Log := record .loose [
  .of "level" (·.level) ({ · with level := · }) text,
  .of "file_path" (·.filePath) ({ · with filePath := · }) text]

/-- Reads all settings. -/
def reader : ValueReader Config := record .loose [
  .of "feed" (·.feed) ({ · with feed := · }) Feed.reader,
  .of "server" (·.server) ({ · with server := · }) Server.reader,
  .of "cache" (·.cache) ({ · with cache := · }) Cache.reader,
  .of "ingestion" (·.ingestion) ({ · with ingestion := · }) Ingestion.reader,
  .of "rate_limit" (·.rateLimit) ({ · with rateLimit := · }) RateLimit.reader,
  .of "health" (·.health) ({ · with health := · }) Health.reader,
  .of "registry" (·.registry) ({ · with registry := · }) Registry.reader,
  .of "connection" (·.connection)
    ({ · with connection := · }) Connection.reader,
  .of "log" (·.log) ({ · with log := · }) Log.reader]

/-- The bytes of a file that are read at once. -/
def blockSize : Nat := 512

/-- The settings that a text gives over the defaults. -/
def decode? (s : Bytes) : Option Config :=
  (Json.decodeFirst blockSize reader {} s).map (·.1)

end Config
end TickRelay
