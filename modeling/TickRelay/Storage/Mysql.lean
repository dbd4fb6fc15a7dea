import TickRelay.Storage.Database
import TickRelay.Tick

/-!
# Ticks in MySQL

Ticks go to one table that is partitioned by month. New months are split off a
last partition that takes everything later.

**Algorithm.** `ensurePartition` looks the partition of a month up and splits
it off when it is missing; `ensureSchema` creates the table and the view of
one-minute bars and ensures the partitions of an instant and of the instant one
month later; `commit` inserts a batch by one statement with a row of
placeholders per tick.

**Results.** `partitionName` names a month by its UTC fields, and
`partitionBound` is the first day after the month in the zone of the given
time.
-/

namespace TickRelay
namespace Storage
namespace Mysql

/-- The name of the storage. -/
def name : Bytes := utf8 "mysql"

/-- The table of ticks, with a partition for everything. -/
def tableSql : Bytes := utf8 "CREATE TABLE IF NOT EXISTS tick (
	id BIGINT NOT NULL AUTO_INCREMENT,
	symbol VARCHAR(32) NOT NULL,
	price DOUBLE NOT NULL,
	volume DOUBLE NOT NULL,
	timestamp DATETIME(3) NOT NULL,
	created_at DATETIME(3) NOT NULL,
	PRIMARY KEY (symbol, timestamp, id),
	KEY tick_id (id)
)
PARTITION BY RANGE COLUMNS(timestamp) (
	PARTITION p_future VALUES LESS THAN (MAXVALUE)
)"

/-- The view of one-minute bars. -/
def viewSql : Bytes := utf8 "CREATE OR REPLACE VIEW tick_1m AS
SELECT DISTINCT
	symbol,
	DATE_FORMAT(timestamp, '%Y-%m-%d %H:%i:00') AS timestamp_minute,
	FIRST_VALUE(price) OVER w AS open,
	MAX(price) OVER w AS high,
	MIN(price) OVER w AS low,
	LAST_VALUE(price) OVER w AS close,
	SUM(volume) OVER w AS volume
FROM tick
WINDOW w AS (
	PARTITION BY symbol, DATE_FORMAT(timestamp, '%Y-%m-%d %H:%i:00')
	ORDER BY timestamp, id
	ROWS BETWEEN UNBOUNDED PRECEDING AND UNBOUNDED FOLLOWING
)"

/-- The question whether a partition exists. -/
def lookupSql : Bytes :=
  utf8 "SELECT COUNT(*) FROM information_schema.partitions WHERE " ++
    utf8 "table_schema = DATABASE() AND table_name = 'tick' AND partition_name = ?"

/-- `YYYY-MM-DD hh:mm:ss` and up to three decimal places, in the zone of the
time. -/
def literal (z : ZonedTime) : Bytes :=
  z.civil.dateText ++ utf8 " " ++ z.civil.clockText 3

/-- The name of the partition of a month: `p`, year and month of the UTC
date. -/
def partitionName (month : ZonedTime) : Bytes :=
  let d := month.instant.civil.date
  utf8 "p" ++ Calendar.yearText d.year ++ Calendar.twoDigits d.month

/-- The first day after the month of a time, in the zone of that time. -/
def partitionBound (month : ZonedTime) : Date := month.civil.date.nextMonth

/-- The statement that splits the partition of a month off. -/
def partitionSql (month : ZonedTime) : Bytes :=
  utf8 "ALTER TABLE tick REORGANIZE PARTITION p_future INTO (PARTITION " ++
    partitionName month ++ utf8 " VALUES LESS THAN ('" ++
    (partitionBound month).text ++
    utf8 "'), PARTITION p_future VALUES LESS THAN (MAXVALUE))"

/-- The placeholders of one row. -/
def row : Bytes := utf8 "(?, ?, ?, ?, ?)"

/-- The arguments of one row. -/
def rowArguments (clock : Instant) (createdAt : ZonedTime) (t : Tick) :
    List Argument := [
  .text t.symbol, .float t.price, .float t.volume,
  .text (literal (.utc (t.time clock))), .text (literal createdAt)]

/-- The statement that inserts a batch. -/
def insert (clock : Instant) (createdAt : ZonedTime) (ticks : List Tick) :
    Statement where
  kind := .exec
  sql :=
    utf8 "INSERT INTO tick(symbol, price, volume, timestamp, created_at) VALUES " ++
    Bytes.join (utf8 ",") (ticks.map fun _ => row)
  args := ticks.flatMap (rowArguments clock createdAt)

section Requests

variable {σ : Type} (db : Database σ) (limitSec : Int64)

/-- Sends a statement and puts its failure into a context. -/
def submit (doing : Bytes) (h : Handle σ) (s : Statement) :
    Handle σ × Except Fault Nat :=
  let (h, result) := h.submit db limitSec s
  (h, result.mapError (·.within (.during doing)))

/-- Splits the partition of a month off, unless it exists. -/
def ensurePartition (h : Handle σ) (month : ZonedTime) :
    Handle σ × Except Fault Unit :=
  let partition := partitionName month
  match submit db limitSec (utf8 "lookup partition") h
      ⟨.query, lookupSql, [.text partition]⟩ with
  | (h, .error f) => (h, .error f)
  | (h, .ok (_ + 1)) => (h, .ok ())
  | (h, .ok 0) =>
    let (h, result) :=
      submit db limitSec (utf8 "create partition " ++ partition) h
        ⟨.exec, partitionSql month, []⟩
    (h, result.map fun _ => ())

/-- The times whose partitions are ensured at an instant. -/
def schemaMonths (now : Instant) : List ZonedTime :=
  [.utc now, .utc now.addMonth]

/-- Ensures partition after partition, up to the first failure. -/
def ensurePartitions (h : Handle σ) :
    List ZonedTime → Handle σ × Except Fault Unit
  | [] => (h, .ok ())
  | month :: months =>
    match ensurePartition db limitSec h month with
    | (h, .ok ()) => ensurePartitions h months
    | (h, .error f) => (h, .error f)

/-- Creates what is missing of table, view and partitions. -/
def ensureSchema (h : Handle σ) (now : Instant) :
    Handle σ × Except Fault Unit :=
  match submit db limitSec (utf8 "create tick table") h
      ⟨.exec, tableSql, []⟩ with
  | (h, .error f) => (h, .error f)
  | (h, .ok _) =>
    match submit db limitSec (utf8 "create tick_1m view") h
        ⟨.exec, viewSql, []⟩ with
    | (h, .error f) => (h, .error f)
    | (h, .ok _) => ensurePartitions db limitSec h (schemaMonths now)

/-- Inserts a batch; nothing is sent for an empty one. -/
def commit (clock : Instant) (h : Handle σ) (ticks : List Tick) :
    Handle σ × Except Fault Unit :=
  if ticks.isEmpty then (h, .ok ())
  else
    let (h, result) := h.submit db limitSec (insert clock (.utc clock) ticks)
    (h, result.map fun _ => ())

end Requests
end Mysql
end Storage
end TickRelay
