import TickRelay.Proofs.PartitionTable

/-!
# Rows that are inserted

**Input.** A batch of ticks whose timestamps can be read, and the time of the
insertion in any zone.

**Algorithm.** `rows?` reads the statement of a batch as a database does: it
counts the placeholders of each group and deals the arguments out to the
groups. `denoted?` reads a literal as a time in UTC. A literal holds three
places of the fraction, and the places that were cut off count as zero.

**Results.** `insert_by_rows`: every tick has its own row, with its values
unchanged and its instant cut down to the millisecond. The time of the
insertion is written by a clock of its own zone, so the literal denotes it
exactly if that zone is UTC.
-/

namespace TickRelay

namespace Instant

/-- The last whole millisecond that is not after an instant. -/
def cut (t : Instant) : Instant := ⟨t.nanos / 1000000 * 1000000⟩

variable {t u : Instant}

theorem cut_mono (h : t.nanos ≤ u.nanos) : t.cut.nanos ≤ u.cut.nanos := by
  simp only [cut]
  omega

theorem near_of_cut_eq (h : t.cut = u.cut) :
    (t.nanos - u.nanos).natAbs < 1000000 := by
  simp only [cut, mk.injEq] at h
  omega

/-- Whole seconds do not reach into the millisecond. -/
theorem cut_shift_eq_iff {seconds : Int} :
    (t.shift (seconds * nanosPerSecond)).cut = t.cut ↔ seconds = 0 := by
  simp only [cut, shift, nanosPerSecond, mk.injEq]
  omega

end Instant

namespace DateTime

/-- Reads the fields of a literal: the date, a blank, and the time of day with
any fraction. -/
def ofLiteral? (s : Bytes) : Option DateTime := do
  let date ← Date.ofText? (s.takeWhile (· != 32))
  let rest ← Calendar.byte? 32 (s.dropWhile (· != 32))
  let (hour, rest) ← Calendar.two? rest
  let rest ← Calendar.byte? 58 rest
  let (minute, rest) ← Calendar.two? rest
  let rest ← Calendar.byte? 58 rest
  let (second, rest) ← Calendar.two? rest
  let (nano, rest) := Calendar.fraction rest
  if rest = [] then some ⟨date, hour, minute, second, nano⟩ else none

variable {t : DateTime} (ht : t.Proper)
include ht

/-- A literal is read back, with zeros in the places that it lacks. -/
theorem ofLiteral?_text {places : Nat} (hplaces : places ≤ 9) :
    ofLiteral? (t.dateText ++ utf8 " " ++ t.clockText places) = some { t with
      nano := t.nano / 10 ^ (9 - places) * 10 ^ (9 - places) } := by
  obtain ⟨hmonth, hday⟩ : t.date.month < 100 ∧ t.date.day < 100 := by
    have hmonth := Date.month_between ht.date
    have hday := Date.day_between ht.date
    have hdays := Date.daysOfMonth_between t.date.monthIndex
    omega
  have hblank : 32 ∉ t.date.text := by
    intro hb
    rcases Storage.Mysql.mem_dateText hb with h | h <;> cases h
  have htext : t.dateText ++ utf8 " " ++ t.clockText places =
      t.date.text ++ 32 ::
      (Calendar.twoDigits t.hour ++ 58 ::
        (Calendar.twoDigits t.minute ++ 58 ::
          (Calendar.twoDigits t.second ++
            (Calendar.fractionText places t.nano ++ [])))) := by
    have hspace : utf8 " " = [32] := by decide
    have hcolon : utf8 ":" = [58] := by decide
    simp only [dateText, clockText, hspace, hcolon, List.append_assoc,
      List.cons_append, List.nil_append, List.append_nil]
  obtain ⟨hdate, hrest⟩ := Storage.Mysql.cut_at (Calendar.twoDigits t.hour ++
    58 :: (Calendar.twoDigits t.minute ++ 58 :: (Calendar.twoDigits t.second ++
      (Calendar.fractionText places t.nano ++ [])))) hblank
  have hfraction :=
    Calendar.fraction_fractionText hplaces ht.nano (s := []) (by simp)
  rw [htext, ofLiteral?, hdate, hrest, Date.ofText?_text hmonth hday]
  refine Option.bind_eq_some_iff.mpr ⟨_, rfl, ?_⟩
  refine Option.bind_eq_some_iff.mpr ⟨_, Calendar.byte?_cons .., ?_⟩
  refine Option.bind_eq_some_iff.mpr
    ⟨_, Calendar.two?_twoDigits (Nat.lt_trans ht.hour (by decide)) _, ?_⟩
  refine Option.bind_eq_some_iff.mpr ⟨_, Calendar.byte?_cons .., ?_⟩
  refine Option.bind_eq_some_iff.mpr
    ⟨_, Calendar.two?_twoDigits (Nat.lt_trans ht.minute (by decide)) _, ?_⟩
  refine Option.bind_eq_some_iff.mpr ⟨_, Calendar.byte?_cons .., ?_⟩
  refine Option.bind_eq_some_iff.mpr
    ⟨_, Calendar.two?_twoDigits (Nat.lt_trans ht.second (by decide)) _, ?_⟩
  dsimp only
  rw [hfraction]
  rfl

omit ht in
/-- Three places of the fraction are the milliseconds. -/
theorem instant_cut (t : DateTime) :
    ({ t with
      nano := t.nano / 10 ^ (9 - 3) * 10 ^ (9 - 3) } : DateTime).instant =
        t.instant.cut := by
  simp only [instant, Instant.cut, nanosPerSecond, Instant.mk.injEq]
  omega

end DateTime

namespace Storage
namespace Mysql

/-- The instant that a literal denotes: the one at which a clock of UTC shows
it. -/
def denoted? (s : Bytes) : Option Instant :=
  (DateTime.ofLiteral? s).map DateTime.instant

/-- The instant that a literal denotes is ahead of the time by the offset of
its zone. -/
theorem denoted?_literal (z : ZonedTime) :
    denoted? (literal z) =
      some (z.instant.shift (z.offset * nanosPerSecond)).cut := by
  rw [denoted?, literal, DateTime.ofLiteral?_text z.proper_civil (by decide),
    Option.map_some, DateTime.instant_cut, ZonedTime.instant_civil]

theorem denoted?_literal_utc (t : Instant) :
    denoted? (literal (.utc t)) = some t.cut := by
  rw [denoted?_literal]
  simp [ZonedTime.utc, Instant.shift]

/-- The placeholders of each group behind an opening bracket, with those of the
first one counted from `k` on. Placeholders have a comma and a blank between
them, groups a comma. -/
def groupsFrom? (k : Nat) : Bytes → Option (List Nat)
  | [63, 41] => some [k + 1]
  | 63 :: 41 :: 44 :: 40 :: s => (groupsFrom? 0 s).map ((k + 1) :: ·)
  | 63 :: 44 :: 32 :: s => groupsFrom? (k + 1) s
  | _ => none

/-- The statement up to its groups. -/
def insertHead : Bytes :=
  utf8 "INSERT INTO tick(symbol, price, volume, timestamp, created_at) VALUES "

/-- The numbers of placeholders in the groups of an insertion. -/
def groups? (sql : Bytes) : Option (List Nat) := do
  let s ← insertHead.isPrefixOf? sql
  let s ← Calendar.byte? 40 s
  groupsFrom? 0 s

/-- Deals arguments out to groups of placeholders in turn; the numbers have to
match. -/
def deal? : List Nat → List Argument → Option (List (List Argument))
  | [], [] => some []
  | [], _ :: _ => none
  | k :: ks, args =>
    if k ≤ args.length then (deal? ks (args.drop k)).map (args.take k :: ·)
    else none

/-- The rows that a statement inserts. -/
def rows? (s : Statement) : Option (List (List Argument)) := do
  let ks ← groups? s.sql
  deal? ks s.args

/-- The instant of a row's timestamp. -/
def stamped? : List Argument → Option Instant
  | [_, _, _, .text s, _] => denoted? s
  | _ => none

/-- The instant at which a row says that it was created. -/
def created? : List Argument → Option Instant
  | [_, _, _, _, .text s] => denoted? s
  | _ => none

theorem groupsFrom?_rows (n : Nat) : ∃ s,
    Bytes.join (utf8 ",") (List.replicate (n + 1) row) = 40 :: s ∧
      groupsFrom? 0 s = some (List.replicate (n + 1) 5) := by
  induction n with
  | zero => exact ⟨_, rfl, rfl⟩
  | succ n ih =>
      obtain ⟨s, hs, hgroups⟩ := ih
      have hjoin : Bytes.join (utf8 ",") (List.replicate (n + 1 + 1) row) =
          row ++ utf8 "," ++
          Bytes.join (utf8 ",") (List.replicate (n + 1) row) := rfl
      refine ⟨row.tail ++ utf8 "," ++ 40 :: s,
        hjoin.trans (by rw [hs]; rfl), ?_⟩
      show (groupsFrom? 0 s).map (5 :: ·) = _
      rw [hgroups]
      rfl

theorem groups?_rows {n : Nat} (hn : 0 < n) :
    groups? (insertHead ++ Bytes.join (utf8 ",") (List.replicate n row)) =
      some (List.replicate n 5) := by
  obtain ⟨k, rfl⟩ := Nat.exists_eq_add_one.mpr hn
  obtain ⟨s, hs, hgroups⟩ := groupsFrom?_rows k
  have hprefix :
      insertHead.isPrefixOf? (insertHead ++ 40 :: s) = some (40 :: s) := by
    rw [List.isPrefixOf?_eq_some_iff_append_eq]
  rw [hs, groups?, hprefix]
  exact hgroups

/-- Arguments that come in equal parts are dealt out part by part. -/
theorem deal?_flatMap {α : Type} {f : α → List Argument} {k : Nat}
    (hf : ∀ a, (f a).length = k) (as : List α) :
    deal? (List.replicate as.length k) (as.flatMap f) = some (as.map f) := by
  induction as with
  | nil => rfl
  | cons a as ih =>
      have hfits : k ≤ (f a ++ as.flatMap f).length := by
        rw [List.length_append, hf]
        exact Nat.le_add_right k _
      rw [List.length_cons, List.replicate_succ, List.flatMap_cons, deal?,
        if_pos hfits, List.drop_left' (hf a), List.take_left' (hf a), ih]
      rfl

section Insertion

variable (clock : Instant) (createdAt : ZonedTime)

theorem length_rowArguments (t : Tick) :
    (rowArguments clock createdAt t).length = 5 := rfl

theorem length_args_insert (ticks : List Tick) :
    (insert clock createdAt ticks).args.length = 5 * ticks.length := by
  simp [insert, List.length_flatMap, length_rowArguments, Nat.mul_comm]

variable {ticks : List Tick} (hne : ticks ≠ [])

include hne

theorem groups?_insert :
    groups? (insert clock createdAt ticks).sql =
      some (List.replicate ticks.length 5) := by
  have hrows : ticks.map (fun _ => row) = List.replicate ticks.length row :=
    List.map_const' ..
  rw [insert, hrows]
  exact groups?_rows (List.length_pos_iff.mpr hne)

/-- A statement is read as one row for each tick. -/
theorem rows?_insert :
    rows? (insert clock createdAt ticks) =
      some (ticks.map (rowArguments clock createdAt)) := by
  rw [rows?, groups?_insert clock createdAt hne]
  exact deal?_flatMap (length_rowArguments clock createdAt) ticks

omit hne

/-- Timestamps that can be read do not depend on the clock. -/
theorem stamped?_rows {times : List Instant}
    (htimes : ticks.map Tick.time? = times.map some) :
    (ticks.map (rowArguments clock createdAt)).map stamped? =
      times.map fun t => some t.cut := by
  have hrow :
      ∀ t : Tick, stamped? (rowArguments clock createdAt t) =
        some (t.time clock).cut :=
    fun t => denoted?_literal_utc (t.time clock)
  calc
    (ticks.map (rowArguments clock createdAt)).map stamped?
      = (ticks.map Tick.time?).map fun o => some (o.getD clock).cut := by
        rw [List.map_map, List.map_map]
        refine List.map_congr_left fun t _ => ?_
        rw [Function.comp_apply, hrow]
        rfl
    _ = times.map fun t => some t.cut := by
        rw [htimes, List.map_map]
        rfl

theorem created?_row (t : Tick) : created? (rowArguments clock createdAt t) =
    some (createdAt.instant.shift (createdAt.offset * nanosPerSecond)).cut :=
  denoted?_literal createdAt

end Insertion

/-- **Insertion row by row.** For every batch of ticks whose timestamps can be
read, the statement has one group of five placeholders for each tick and as
many arguments as placeholders. The row of a tick has its symbol, price and
volume as they are, and a literal that denotes its instant cut down to the
millisecond; so the literals are in the order of the instants, and two of them
denote the same only within one millisecond. The other literal denotes what a
clock in the zone of the insertion shows, cut likewise; it denotes the time of
the insertion itself exactly if that zone is UTC. -/
theorem insert_by_rows {ticks : List Tick} (hne : ticks ≠ [])
    {times : List Instant} (htimes : ticks.map Tick.time? = times.map some)
    (clock : Instant) (createdAt : ZonedTime) :
    groups? (insert clock createdAt ticks).sql =
      some (List.replicate ticks.length 5) ∧
    (insert clock createdAt ticks).args.length = 5 * ticks.length ∧
    ∃ rows, rows? (insert clock createdAt ticks) = some rows ∧
      rows.map (List.take 3) = ticks.map
        (fun t => [.text t.symbol, .float t.price, .float t.volume]) ∧
      rows.map stamped? = times.map (fun t => some t.cut) ∧
      (∀ t ∈ times, ∀ u ∈ times,
        (t.nanos ≤ u.nanos → t.cut.nanos ≤ u.cut.nanos) ∧
        (t.cut = u.cut → (t.nanos - u.nanos).natAbs < 1000000)) ∧
      (∀ row ∈ rows, created? row =
        some (createdAt.instant.shift
          (createdAt.offset * nanosPerSecond)).cut) ∧
      ((∀ row ∈ rows, created? row = some createdAt.instant.cut) ↔
        createdAt.offset = 0) := by
  refine ⟨groups?_insert clock createdAt hne,
    length_args_insert clock createdAt ticks, _,
    rows?_insert clock createdAt hne, ?_, stamped?_rows clock createdAt htimes,
    ?_, ?_, ?_⟩
  · rw [List.map_map]
    rfl
  · exact fun t _ u _ => ⟨Instant.cut_mono, Instant.near_of_cut_eq⟩
  · exact List.forall_mem_map.mpr fun t _ => created?_row clock createdAt t
  · rw [List.forall_mem_map]
    simp only [created?_row, Option.some.injEq, Instant.cut_shift_eq_iff]
    obtain ⟨t, ht⟩ := List.exists_mem_of_ne_nil ticks hne
    exact ⟨fun h => h t ht, fun h _ _ => h⟩

/-- A tick of the last second of 2023 that is written in 2024, and one of the
last millisecond before 1970. -/
def edgeTicks : List Tick := [
  { symbol := utf8 "BTC", price := .ofInt 1,
    timestamp := utf8 "2024-01-01T05:29:59.1239+05:30" },
  { symbol := utf8 "ETH", volume := .ofInt 2,
    timestamp := utf8 "1969-12-31T23:59:59.9995Z" }]

/-- 2024-03-01T11:00:00+02:00. -/
def laterZone : ZonedTime := ⟨⟨1709283600000000000⟩, 7200⟩

theorem insert_by_rows_of_edgeTicks :
    edgeTicks.map Tick.time? = [⟨1704067199123900000⟩, ⟨-500000⟩].map some ∧
      ∃ rows, rows? (insert ⟨0⟩ laterZone edgeTicks) = some rows ∧
        rows.map (List.take 3) = [
          [.text (utf8 "BTC"), .float (.ofInt 1), .float .zero],
          [.text (utf8 "ETH"), .float .zero, .float (.ofInt 2)]] ∧
        rows.map stamped? = [some ⟨1704067199123000000⟩, some ⟨-1000000⟩] ∧
        (∀ row ∈ rows, created? row = some ⟨1709290800000000000⟩) ∧
        ¬ ∀ row ∈ rows, created? row = some laterZone.instant.cut := by
  have htimes :
      edgeTicks.map Tick.time? =
        [⟨1704067199123900000⟩, ⟨-500000⟩].map some := by
    decide +kernel
  have hcut : ([⟨1704067199123900000⟩, ⟨-500000⟩] : List Instant).map
      (fun t => some t.cut) =
        [some ⟨1704067199123000000⟩, some ⟨-1000000⟩] := by
    decide +kernel
  have hshown : (laterZone.instant.shift
      (laterZone.offset * nanosPerSecond)).cut = ⟨1709290800000000000⟩ := by
    decide +kernel
  obtain ⟨-, -, rows, hrows, hvalues, hstamps, -, hcreated, hzone⟩ :=
    insert_by_rows (List.cons_ne_nil _ _) htimes ⟨0⟩ laterZone
  simp only [List.map] at hvalues
  rw [hcut] at hstamps
  rw [hshown] at hcreated
  exact ⟨htimes, rows, hrows, hvalues, hstamps, hcreated,
    fun h => absurd (hzone.mp h) (by decide)⟩

/-- So the time of an insertion is not always denoted by its literal. -/
theorem not_always_denoted :
    ¬ ∀ (clock : Instant) (createdAt : ZonedTime) (ticks : List Tick)
          (times : List Instant),
        ticks ≠ [] → ticks.map Tick.time? = times.map some →
        (∀ t ∈ times, t.civil.date.FourDigits) →
        createdAt.instant.civil.date.FourDigits →
        ∃ rows, rows? (insert clock createdAt ticks) = some rows ∧
          ∀ row ∈ rows, created? row = some createdAt.instant.cut := by
  intro hall
  have hyears : ∀ t ∈ [(⟨1704067199123900000⟩ : Instant), ⟨-500000⟩],
      t.civil.date.FourDigits := by
    unfold Date.FourDigits
    decide +kernel
  have hyear : laterZone.instant.civil.date.FourDigits :=
    ⟨by decide +kernel, by decide +kernel⟩
  have hne : edgeTicks ≠ [] := List.cons_ne_nil _ _
  obtain ⟨rows, hrows, hcreated⟩ :=
    hall ⟨0⟩ laterZone edgeTicks _ hne (by decide +kernel) hyears hyear
  rw [rows?_insert ⟨0⟩ laterZone hne] at hrows
  obtain rfl := Option.some.inj hrows
  have hfirst := hcreated _ List.mem_cons_self
  rw [created?_row, Option.some.injEq, Instant.cut_shift_eq_iff] at hfirst
  revert hfirst
  decide

end Mysql
end Storage
end TickRelay
