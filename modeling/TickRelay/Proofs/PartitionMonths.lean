import TickRelay.Storage.Recording
import TickRelay.Proofs.PartitionTable

/-!
# The month of a partition

**Input.** A time in any zone, whose partition is to be split off.

**Algorithm.** A month in UTC is an interval of instants, from the start of its
first day up to the start of the month after it. A partition is named for the
month that holds the instant; its bound is taken from the fields of a clock in
the zone of the time.

**Results.** `bound_agrees_iff`: the name is always right, and the bound
belongs to it exactly when a clock of the zone shows the same month as one of
UTC.
-/

namespace TickRelay

/-- The instant at which a day begins in UTC. -/
def Date.start (d : Date) : Instant := DateTime.instant ⟨d, 0, 0, 0, 0⟩

/-- An instant is before the start of a month exactly if its own month is
earlier. -/
theorem Instant.lt_start_iff {t : Instant} {k : Int} :
    t.nanos < (Date.firstDay k).start.nanos ↔ t.month < k := by
  have hstart : (Date.firstDay k).start.nanos =
      (Date.monthStart k - epochDay) * 86400 * nanosPerSecond := by
    simp [Date.start, DateTime.instant, Date.monthStart]
  have hday : t.nanos < (Date.firstDay k).start.nanos ↔
      t.civil.date.dayNumber < Date.monthStart k := by
    rw [hstart, dayNumber_date]
    simp only [seconds, nanosPerSecond]
    omega
  obtain ⟨hlow, hhigh⟩ := Date.dayNumber_between t.exists_date
  rw [← month] at hlow hhigh
  rw [hday]
  constructor
  · intro hlt
    exact Date.monthStart_lt_iff.mp (Int.lt_of_le_of_lt hlow hlt)
  · intro hlt
    have hnext : ¬ Date.monthStart k < Date.monthStart (t.month + 1) := by
      rw [Date.monthStart_lt_iff]
      omega
    omega

namespace Storage

/-- The database after some more statements. -/
def Recording.receive (r : Recording) (ss : List Statement) : Recording :=
  { r with statements := r.statements ++ ss }

theorem Recording.receive_receive (r : Recording) (ss ss' : List Statement) :
    (r.receive ss).receive ss' = r.receive (ss ++ ss') := by
  simp [receive]

namespace Mysql

/-- Name and bound agree, and an instant falls between them: for the month of
the name, the bound is the first day after it, and the instant is before the
bound and not before the month. -/
def Covers (name : Bytes) (bound : Date) (t : Instant) : Prop :=
  ∀ k, name = monthName k →
    bound = Date.firstDay (k + 1) ∧ t.nanos < bound.start.nanos ∧
      (Date.firstDay k).start.nanos ≤ t.nanos

/-- The partition that is named for the month of an instant covers it if its
bound ends that month, and with no other bound. -/
theorem covers_iff {t : Instant} {k : Int} :
    Covers (monthName t.month) (Date.firstDay (k + 1)) t ↔ k = t.month := by
  constructor
  · intro hcovers
    obtain ⟨hbound, -⟩ := hcovers t.month rfl
    have hnext := Date.firstDay_injective hbound
    omega
  · rintro rfl j hj
    obtain rfl := monthName_injective hj
    refine ⟨rfl, Instant.lt_start_iff.mpr (Int.lt_succ _), ?_⟩
    rw [← Int.not_lt, Instant.lt_start_iff]
    exact Int.lt_irrefl _

section Ensuring

variable {limitSec : Int64} (hlimit : isOver limitSec = false) {r : Recording}
  (haccepts : ∀ sql, r.refusal? sql = none)

include hlimit haccepts

theorem submit_recording (doing : Bytes) (s : Statement) :
    submit Recording.database limitSec doing { state := r } s =
      ({ state := r.receive [s] }, .ok (r.count s)) := by
  simp [submit, Handle.submit, Recording.database, Recording.receive, hlimit,
    haccepts, Except.mapError]

/-- A partition that is missing is looked up and then split off. -/
theorem ensurePartition_recording {z : ZonedTime}
    (hmissing : r.partitionExists (partitionName z) = false) :
    ensurePartition Recording.database limitSec { state := r } z =
      ({ state := r.receive [⟨.query, lookupSql, [.text (partitionName z)]⟩,
        ⟨.exec, partitionSql z, []⟩] }, .ok ()) := by
  have hcount :
      r.count ⟨.query, lookupSql, [.text (partitionName z)]⟩ = 0 := by
    simp [Recording.count, hmissing]
  have hagain : ∀ sql, (r.receive
      [⟨.query, lookupSql, [.text (partitionName z)]⟩]).refusal? sql = none :=
    haccepts
  unfold ensurePartition
  dsimp only
  rw [submit_recording hlimit haccepts, hcount]
  dsimp only
  rw [submit_recording hlimit hagain, Recording.receive_receive]
  rfl

/-- **The month of a partition.** A partition that is missing is split off by
one statement, whatever the zone of the time. Its name is that of the month in
UTC, and its bound is the first day after the month in the zone of the time; so
name and bound agree, with the time between them, exactly if the two months are
the same. -/
theorem bound_agrees_iff {z : ZonedTime}
    (hmissing : r.partitionExists (partitionName z) = false) :
    ∃ sql bound,
      ensurePartition Recording.database limitSec { state := r } z =
        ({ state := r.receive
            [⟨.query, lookupSql, [.text (partitionName z)]⟩,
              ⟨.exec, sql, []⟩] }, .ok ()) ∧
      split? sql = some (partitionName z, bound) ∧
      partitionName z = monthName z.instant.month ∧
      bound = Date.firstDay (z.month + 1) ∧
      (Covers (partitionName z) bound z.instant ↔
        z.month = z.instant.month) := by
  refine ⟨partitionSql z, _,
    ensurePartition_recording hlimit haccepts hmissing, ?_,
    partitionName_eq z, rfl, ?_⟩
  · rw [split?_partitionSql, partitionName_eq]
  · rw [partitionName_eq, covers_iff]

end Ensuring

/-- Half past eleven in the evening of 2024-12-31, an hour behind UTC. -/
def lateEvening : ZonedTime := ⟨⟨1735691400000000000⟩, -3600⟩

/-- The partition of a time on the last evening of a year: the name is that of
January, the bound is the first day of January, and so the time is not before
it. -/
theorem bound_agrees_iff_of_lateEvening :
    ∃ sql, ensurePartition Recording.database 0
          { state := { partitionExists := fun _ => false } } lateEvening =
        ({ state := { partitionExists := fun _ => false, statements := [
          ⟨.query, lookupSql, [.text (utf8 "p202501")]⟩,
          ⟨.exec, sql, []⟩] } }, .ok ()) ∧
      split? sql = some (utf8 "p202501", ⟨2025, 1, 1⟩) ∧
      ¬ Covers (utf8 "p202501") ⟨2025, 1, 1⟩ lateEvening.instant := by
  have hlimit : isOver 0 = false := by decide
  have hname : partitionName lateEvening = utf8 "p202501" := by decide +kernel
  have hfirst : Date.firstDay (lateEvening.month + 1) = ⟨2025, 1, 1⟩ := by
    decide +kernel
  have hmonths : lateEvening.month ≠ lateEvening.instant.month := by
    decide +kernel
  obtain ⟨sql, bound, hsent, hsplit, -, rfl, hcovers⟩ :=
    bound_agrees_iff hlimit (r := { partitionExists := fun _ => false })
      (fun _ => rfl)
      (z := lateEvening) rfl
  rw [hname] at hsent hsplit hcovers
  rw [hfirst] at hsplit hcovers
  exact ⟨sql, hsent, hsplit, fun h => hmonths (hcovers.mp h)⟩

/-- So name and bound do not always agree. -/
theorem not_always_covered :
    ¬ ∀ z : ZonedTime, 1 ≤ z.civil.date.year ∧ z.civil.date.year ≤ 9998 →
        1 ≤ z.instant.civil.date.year ∧ z.instant.civil.date.year ≤ 9998 →
        ∀ name bound, split? (partitionSql z) = some (name, bound) →
        Covers name bound z.instant := by
  intro hall
  have hcovers := hall lateEvening (by decide +kernel) (by decide +kernel) _ _
    (split?_partitionSql lateEvening)
  rw [covers_iff] at hcovers
  revert hcovers
  decide +kernel

end Mysql
end Storage
end TickRelay
