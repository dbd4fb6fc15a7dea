import TickRelay.Storage.Mysql
import TickRelay.Proofs.TimeTexts
import Mathlib.Data.List.Basic

/-!
# A table that is partitioned by range

The table has one partition that takes everything, and partitions that were
split off it, each with a bound. The database reads the statement of a split,
and refuses it unless its bound is after all the bounds so far.

**Algorithm.** `Mysql.split?` reads name and bound from the text of a
statement, `Mysql.partitioned` is the database. Months are told by their
numbers: `monthPartition k` is the partition of month `k`, and `ensureMonths`
is what becomes of the months that were split off.

**Results.** `split?_partitionSql`: the statements are read as they are meant.
`ensureSchema_eq`: on a table of monthly partitions, `ensureSchema` is
`ensureMonths`.
-/

namespace TickRelay
namespace Date

/-- Reads a date whose year is not negative. -/
def ofPlainText? (s : Bytes) : Option Date := do
  let rest ← Calendar.byte? 45 (s.dropWhile Bytes.isDigit)
  let (month, rest) ← Calendar.two? rest
  let rest ← Calendar.byte? 45 rest
  let (day, rest) ← Calendar.two? rest
  if rest = [] then some ⟨Bytes.number (s.takeWhile Bytes.isDigit), month, day⟩
  else none

/-- Reads a date as `Date.text` writes it. -/
def ofText? : Bytes → Option Date
  | 45 :: s => (ofPlainText? s).map fun d => { d with year := -d.year }
  | s => ofPlainText? s

theorem ofPlainText?_text {ds : Bytes} {month day : Nat}
    (hds : ∀ b ∈ ds, Bytes.isDigit b = true) (hmonth : month < 100)
    (hday : day < 100) :
    ofPlainText? (ds ++ utf8 "-" ++ Calendar.twoDigits month ++ utf8 "-" ++
        Calendar.twoDigits day) = some ⟨Bytes.number ds, month, day⟩ := by
  have hdash : utf8 "-" = [45] := by decide
  have htext : ds ++ utf8 "-" ++ Calendar.twoDigits month ++ utf8 "-" ++
      Calendar.twoDigits day = ds ++ 45 ::
        (Calendar.twoDigits month ++ 45 :: (Calendar.twoDigits day ++ [])) := by
    simp [hdash]
  have hlast := Calendar.two?_twoDigits hday []
  rw [List.append_nil] at hlast
  have hstop : Bytes.isDigit 45 = false := rfl
  rw [htext, ofPlainText?, List.dropWhile_append_of_pos hds,
    List.takeWhile_append_of_pos hds]
  simp [hstop, Calendar.byte?, Calendar.two?_twoDigits hmonth, hlast]

/-- A date is read back from its text. -/
theorem ofText?_text {d : Date} (hmonth : d.month < 100) (hday : d.day < 100) :
    ofText? d.text = some d := by
  have hdigits : ∀ b ∈ Bytes.paddedDecimal 4 d.year.natAbs,
      Bytes.isDigit b = true :=
    fun b hb => Bytes.isDigit_of_mem_paddedDecimal hb
  have hread := ofPlainText?_text hdigits hmonth hday
  rw [Bytes.number_paddedDecimal] at hread
  unfold text Calendar.yearText
  split
  · rename_i hneg
    simp only [List.cons_append, ofText?, hread, Option.map_some,
      Option.some.injEq]
    have hyear : -(d.year.natAbs : Int) = d.year := by omega
    rw [hyear]
  · rename_i hpos
    have hyear : (d.year.natAbs : Int) = d.year := by omega
    rw [hyear] at hread
    rw [← hread]
    unfold ofText?
    split
    · -- The text starts with a digit.
      rename_i s hs
      have hne := Bytes.paddedDecimal_ne_nil 4 d.year.natAbs
      obtain ⟨b, ds, hds⟩ := List.exists_cons_of_ne_nil hne
      rw [hds] at hs hdigits
      have hb := hdigits b List.mem_cons_self
      simp only [List.cons_append, List.cons.injEq] at hs
      rw [hs.1] at hb
      cases hb
    · rfl

end Date

namespace Storage
namespace Mysql

/-- The statement of a split up to the name of the partition. -/
def splitHead : Bytes :=
  utf8 "ALTER TABLE tick REORGANIZE PARTITION p_future INTO (PARTITION "

/-- What stands between name and bound. -/
def splitMiddle : Bytes := utf8 " VALUES LESS THAN ('"

/-- The rest of the statement. -/
def splitTail : Bytes :=
  utf8 "'), PARTITION p_future VALUES LESS THAN (MAXVALUE))"

/-- The name and the bound of the partition that a statement splits off. -/
def split? (sql : Bytes) : Option (Bytes × Date) := do
  let s ← splitHead.isPrefixOf? sql
  let t ← splitMiddle.isPrefixOf? (s.dropWhile (· != 32))
  let bound ← Date.ofText? (t.takeWhile (· != 39))
  if t.dropWhile (· != 39) = splitTail then some (s.takeWhile (· != 32), bound)
  else none

/-- A text is cut at the first byte of a kind. -/
theorem cut_at {stop : UInt8} {s : Bytes} (rest : Bytes) (hs : stop ∉ s) :
    (s ++ stop :: rest).takeWhile (· != stop) = s ∧
      (s ++ stop :: rest).dropWhile (· != stop) = stop :: rest := by
  have hpass : ∀ b ∈ s, (b != stop) = true := by
    intro b hb
    simpa using ne_of_mem_of_not_mem hb hs
  rw [List.takeWhile_append_of_pos hpass, List.dropWhile_append_of_pos hpass]
  simp

theorem split?_statement {name bound : Bytes} {d : Date} (hname : 32 ∉ name)
    (hbound : 39 ∉ bound) (hd : Date.ofText? bound = some d) :
    split? (splitHead ++ name ++ splitMiddle ++ bound ++ splitTail) =
      some (name, d) := by
  obtain ⟨middle, hmiddle⟩ : ∃ s, splitMiddle = 32 :: s := ⟨_, rfl⟩
  obtain ⟨tail, htail⟩ : ∃ s, splitTail = 39 :: s := ⟨_, rfl⟩
  obtain ⟨htaken, hrest⟩ := cut_at (middle ++ bound ++ splitTail) hname
  obtain ⟨hboundTaken, hboundRest⟩ := cut_at tail hbound
  rw [← htail] at hboundTaken hboundRest
  have hhead :
      splitHead.isPrefixOf? (splitHead ++ name ++ splitMiddle ++ bound ++
        splitTail) = some (name ++ 32 :: (middle ++ bound ++ splitTail)) := by
    rw [List.isPrefixOf?_eq_some_iff_append_eq, hmiddle]
    simp
  have hnext : splitMiddle.isPrefixOf? (32 :: (middle ++ bound ++ splitTail)) =
      some (bound ++ splitTail) := by
    rw [List.isPrefixOf?_eq_some_iff_append_eq, hmiddle]
    simp
  simp only [split?, Option.bind_eq_bind, hhead, Option.bind_some, hrest,
    hnext, hboundTaken, hd, hboundRest, if_true, htaken]

/-- The name of the partition of a month. -/
def monthName (k : Int) : Bytes :=
  utf8 "p" ++ Calendar.yearText (k / 12) ++
    Calendar.twoDigits ((k % 12).toNat + 1)

/-- The partition of a month: its name, and the first day that is not in it. -/
def monthPartition (k : Int) : Bytes × Date :=
  (monthName k, Date.firstDay (k + 1))

theorem mem_yearText {y : Int} {b : UInt8} (hb : b ∈ Calendar.yearText y) :
    b = 45 ∨ Bytes.isDigit b = true := by
  unfold Calendar.yearText at hb
  split at hb
  · rcases List.mem_cons.mp hb with rfl | hb
    · exact Or.inl rfl
    · exact Or.inr (Bytes.isDigit_of_mem_paddedDecimal hb)
  · exact Or.inr (Bytes.isDigit_of_mem_paddedDecimal hb)

theorem mem_dateText {d : Date} {b : UInt8} (hb : b ∈ d.text) :
    b = 45 ∨ Bytes.isDigit b = true := by
  have hdash : utf8 "-" = [45] := by decide
  simp only [Date.text, hdash, List.mem_append, List.mem_singleton] at hb
  rcases hb with (((hb | hb) | hb) | hb) | hb
  · exact mem_yearText hb
  · exact Or.inl hb
  · exact Or.inr (Bytes.isDigit_of_mem_paddedDecimal hb)
  · exact Or.inl hb
  · exact Or.inr (Bytes.isDigit_of_mem_paddedDecimal hb)

theorem mem_monthName {k : Int} {b : UInt8} (hb : b ∈ monthName k) :
    b = 112 ∨ b = 45 ∨ Bytes.isDigit b = true := by
  have hletter : utf8 "p" = [112] := by decide
  simp only [monthName, hletter, List.mem_append, List.mem_singleton] at hb
  rcases hb with (hb | hb) | hb
  · exact Or.inl hb
  · exact Or.inr (mem_yearText hb)
  · exact Or.inr (Or.inr (Bytes.isDigit_of_mem_paddedDecimal hb))

theorem ofText?_firstDay (k : Int) :
    Date.ofText? (Date.firstDay k).text = some (Date.firstDay k) :=
  Date.ofText?_text (by simp only [Date.firstDay]; omega)
    (by simp only [Date.firstDay]; omega)

/-- Different months have different names. -/
theorem monthName_injective {j k : Int} (h : monthName j = monthName k) :
    j = k := by
  have hlength :
      ∀ i : Int, (Calendar.twoDigits ((i % 12).toNat + 1)).length = 2 := by
    intro i
    rw [Calendar.twoDigits_eq (by omega)]
    rfl
  obtain ⟨hfront, hmonth⟩ :=
    List.append_inj' h ((hlength j).trans (hlength k).symm)
  have hyear := List.append_cancel_left hfront
  have htext : (Date.firstDay j).text = (Date.firstDay k).text := by
    simp only [Date.text, Date.firstDay, hyear, hmonth]
  have hread := ofText?_firstDay j
  rw [htext, ofText?_firstDay k] at hread
  exact Date.firstDay_injective (Option.some.inj hread).symm

theorem partitionName_eq (z : ZonedTime) :
    partitionName z = monthName z.instant.month := by
  rw [monthName, Instant.month, Date.year_of_monthIndex z.instant.exists_date,
    Date.month_of_monthIndex z.instant.exists_date]
  rfl

theorem partitionName_utc (t : Instant) :
    partitionName (.utc t) = monthName t.month :=
  partitionName_eq (.utc t)

theorem partitionBound_eq (z : ZonedTime) :
    partitionBound z = Date.firstDay (z.month + 1) := by
  rw [partitionBound, Date.nextMonth_eq z.exists_date]
  rfl

theorem partitionBound_utc (t : Instant) :
    partitionBound (.utc t) = Date.firstDay (t.month + 1) := by
  rw [partitionBound_eq, ZonedTime.month_utc]

/-- The statements are read as they are meant: the name is that of the month in
UTC, the bound ends the month of the zone. -/
theorem split?_partitionSql (z : ZonedTime) :
    split? (partitionSql z) =
      some (monthName z.instant.month, Date.firstDay (z.month + 1)) := by
  have hname : 32 ∉ monthName z.instant.month := by
    intro hb
    rcases mem_monthName hb with h | h | h <;> cases h
  have hbound : 39 ∉ (Date.firstDay (z.month + 1)).text := by
    intro hb
    rcases mem_dateText hb with h | h <;> cases h
  rw [partitionSql, partitionName_eq, partitionBound_eq]
  exact split?_statement hname hbound (ofText?_firstDay _)

theorem split?_partitionSql_utc (t : Instant) :
    split? (partitionSql (.utc t)) = some (monthPartition t.month) := by
  rw [split?_partitionSql, ZonedTime.month_utc]
  rfl

/-- The refusal of a split whose bound is not after the bounds so far. -/
def notIncreasing : Bytes :=
  utf8 "VALUES LESS THAN value must be strictly increasing for each partition"

/-- The partitions that were split off, with their bounds, in the order of the
splits. -/
abbrev Partitions := List (Bytes × Date)

/-- The database of a partitioned table. -/
def partitioned : Database Partitions where
  react parts s :=
    match s.kind, s.args with
    | .query, [.text name] => (parts, .count (parts.countP (·.1 == name)))
    | _, _ =>
      match split? s.sql with
      | none => (parts, .count 0)
      | some p =>
        if parts.all (fun q => q.2.dayNumber < p.2.dayNumber) then
          (parts ++ [p], .count 0)
        else (parts, .failed notIncreasing)

/-- A table of monthly partitions. -/
def table (months : List Int) : Handle Partitions :=
  { state := months.map monthPartition }

/-- Splits the partition of a month off, unless it exists; nothing when that is
refused. -/
def splitOff (months : List Int) (k : Int) : Option (List Int) :=
  if months.contains k then some months
  else if months.all (· < k) then some (months ++ [k])
  else none

/-- Splits month after month off, up to the first refusal; whether there was
none. -/
def ensureMonths (months : List Int) : List Int → List Int × Bool
  | [] => (months, true)
  | k :: ks =>
    match splitOff months k with
    | some months => ensureMonths months ks
    | none => (months, false)

theorem react_lookup (months : List Int) (k : Int) :
    partitioned.react (months.map monthPartition) ⟨.query, lookupSql,
        [.text (monthName k)]⟩ =
      (months.map monthPartition, .count (months.count k)) := by
  have hcount :
      (months.map monthPartition).countP (·.1 == monthName k) =
        months.count k := by
    rw [List.countP_map, List.count]
    refine List.countP_congr fun j _ => ?_
    simp only [Function.comp_apply, monthPartition, beq_iff_eq]
    exact ⟨monthName_injective, congrArg monthName⟩
  simp only [partitioned, hcount]

theorem react_split (months : List Int) (t : Instant) :
    partitioned.react (months.map monthPartition) ⟨.exec,
        partitionSql (.utc t), []⟩ = if months.all (· < t.month) then
      ((months ++ [t.month]).map monthPartition, .count 0)
      else (months.map monthPartition, .failed notIncreasing) := by
  have hall : (months.map monthPartition).all (fun q =>
      q.2.dayNumber < (monthPartition t.month).2.dayNumber) =
          months.all (· < t.month) := by
    rw [List.all_map]
    refine List.all_congr rfl fun j => ?_
    have hmono : Date.monthStart (j + 1) < Date.monthStart (t.month + 1) ↔
        j < t.month := by
      rw [Date.monthStart_lt_iff]
      omega
    exact decide_eq_decide.mpr hmono
  simp only [partitioned, split?_partitionSql_utc, hall, List.map_append,
    List.map_cons, List.map_nil]

theorem react_other (parts : Partitions) {sql : Bytes}
    (hsql : split? sql = none) :
    partitioned.react parts ⟨.exec, sql, []⟩ = (parts, .count 0) := by
  simp only [partitioned, hsql]

theorem split?_tableSql : split? tableSql = none := by decide +kernel

theorem split?_viewSql : split? viewSql = none := by decide +kernel

section Ensuring

variable {limitSec : Int64} (hlimit : isOver limitSec = false)

include hlimit

theorem submit_count {doing : Bytes} {parts parts' : Partitions}
    {s : Statement} {n : Nat}
    (h : partitioned.react parts s = (parts', .count n)) :
    submit partitioned limitSec doing { state := parts } s =
      ({ state := parts' }, .ok n) := by
  simp [submit, Handle.submit, hlimit, h, Except.mapError]

theorem submit_failed {doing text : Bytes} {parts parts' : Partitions}
    {s : Statement} (h : partitioned.react parts s = (parts', .failed text)) :
    submit partitioned limitSec doing { state := parts } s =
      ({ state := parts' },
        .error ((Fault.ofText text).within (.during doing))) := by
  simp [submit, Handle.submit, hlimit, h, Except.mapError]

/-- Ensuring the partition of an instant splits its month off. -/
theorem ensurePartition_eq (months : List Int) (t : Instant) :
    ∃ result, ensurePartition partitioned limitSec (table months) (.utc t) =
        (table ((splitOff months t.month).getD months), result) ∧
      (result = .ok () ↔ (splitOff months t.month).isSome) := by
  unfold ensurePartition splitOff
  dsimp only
  rw [partitionName_utc, table,
    submit_count hlimit (react_lookup months t.month)]
  by_cases hmem : t.month ∈ months
  · obtain ⟨n, hn⟩ : ∃ n, months.count t.month = n + 1 :=
      Nat.exists_eq_add_one.mpr (List.count_pos_iff.mpr hmem)
    simp [hn, hmem, table]
  · have hzero : months.count t.month = 0 := List.count_eq_zero.mpr hmem
    have hreact := react_split months t
    by_cases hall : months.all (· < t.month) = true
    · rw [if_pos hall] at hreact
      simp [hzero, hmem, hall, submit_count hlimit hreact, table, Except.map]
    · rw [if_neg hall] at hreact
      simp [hzero, hmem, hall, submit_failed hlimit hreact, table, Except.map]

theorem ensurePartitions_eq (months : List Int) (ts : List Instant) :
    ∃ result,
      ensurePartitions partitioned limitSec (table months) (ts.map .utc) =
        (table (ensureMonths months (ts.map Instant.month)).1, result) ∧
      (result = .ok () ↔
        (ensureMonths months (ts.map Instant.month)).2 = true) := by
  induction ts generalizing months with
  | nil => exact ⟨.ok (), rfl, by simp [ensureMonths]⟩
  | cons t ts ih =>
      obtain ⟨result, heq, hok⟩ := ensurePartition_eq hlimit months t
      simp only [List.map_cons, ensurePartitions, ensureMonths, heq]
      cases hsplit : splitOff months t.month with
      | none =>
          rw [hsplit] at hok
          cases result with
          | ok _ => simp at hok
          | error f => exact ⟨.error f, by simp, by simp⟩
      | some later =>
          rw [hsplit] at hok
          rw [hok.mpr rfl]
          exact ih later

/-- On a table of monthly partitions, the months of an instant and of the
instant one month later are split off. -/
theorem ensureSchema_eq (months : List Int) (now : Instant) :
    ∃ result, ensureSchema partitioned limitSec (table months) now =
        (table (ensureMonths months [now.month, now.addMonth.month]).1,
          result) ∧
      (result = .ok () ↔
        (ensureMonths months [now.month, now.addMonth.month]).2 = true) := by
  unfold ensureSchema
  rw [table, submit_count hlimit (react_other _ split?_tableSql)]
  simp only
  rw [submit_count hlimit (react_other _ split?_viewSql)]
  exact ensurePartitions_eq hlimit months [now, now.addMonth]

end Ensuring

end Mysql
end Storage
end TickRelay
