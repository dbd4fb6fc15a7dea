import TickRelay.Proofs.BulkWriting
import TickRelay.Proofs.TimeTexts
import TickRelay.Proofs.Utf8Validity
import TickRelay.Proofs.WrittenObjects

/-!
# The lines of a bulk request

**Input.** A batch of ticks with any bytes in their symbols.

**Algorithm.** `Bytes.lines?` cuts a body into lines as the server does. What
is written between the newlines has none inside: texts escape them, and
numbers, names and punctuation have none (`closed_noNewline`). So the lines
that are read are those that were written.

**Results.** `well_framed`: the body of a batch is an action and a document for
every tick, the document tells the values of its own tick, and a tick that
cannot be written leaves no body at all.
-/

namespace TickRelay

namespace Bytes

/-- The lines of a text in which a newline ends every line; nothing may follow
the last one. -/
def lines? : Bytes → Option (List Bytes)
  | [] => some []
  | b :: s =>
    if b = 10 then (lines? s).map ([] :: ·)
    else match lines? s with
      | some (line :: rest) => some ((b :: line) :: rest)
      | _ => none

theorem lines?_append {line : Bytes} (hline : 10 ∉ line) (s : Bytes) :
    lines? (line ++ 10 :: s) = (lines? s).map (line :: ·) := by
  induction line with
  | nil => exact if_pos rfl
  | cons b line ih =>
      rw [List.mem_cons, not_or] at hline
      rw [List.cons_append, lines?, if_neg (Ne.symm hline.1), ih hline.2]
      cases lines? s with
      | none => rfl
      | some rest => rfl

/-- Lines that were ended by newlines are read back. -/
theorem lines?_flatMap {ls : List Bytes} (hls : ∀ l ∈ ls, 10 ∉ l) :
    lines? (ls.flatMap fun l => l ++ [10]) = some ls := by
  induction ls with
  | nil => rfl
  | cons l ls ih =>
      obtain ⟨hl, hrest⟩ := List.forall_mem_cons.mp hls
      rw [List.flatMap_cons, List.append_assoc, List.singleton_append,
        lines?_append hl, ih hrest]
      rfl

end Bytes

namespace Json

theorem closed_noNewline : Closed fun s => 10 ∉ s where
  append hs ht h := (List.mem_append.mp h).elim hs ht
  ascii h hmem := absurd (List.all_eq_true.mp h 10 hmem) (by decide)
  plain hc hmem := absurd (plain_encodeChar hc hmem) (by decide)

theorem visible_of_digits {s : Bytes} (h : ∀ b ∈ s, Bytes.isDigit b = true) :
    s.all isVisibleAscii = true :=
  List.all_eq_true.mpr fun b hb => isVisibleAscii_of_isDigit (h b hb)

end Json

section TimeTexts

variable (z : ZonedTime)

theorem Calendar.visible_padded (width n : Nat) :
    (Bytes.paddedDecimal width n).all Json.isVisibleAscii = true :=
  Json.visible_of_digits fun _ hb => Bytes.isDigit_of_mem_paddedDecimal hb

theorem Calendar.visible_fractionText (places nano : Nat) :
    (fractionText places nano).all Json.isVisibleAscii = true := by
  have hall :
      (dropZeros ((Bytes.paddedDecimal 9 nano).take places)).all
        Json.isVisibleAscii = true :=
    Json.visible_of_digits fun b hb =>
      Bytes.isDigit_of_mem_paddedDecimal
        (List.mem_of_mem_take (mem_dropZeros hb))
  unfold fractionText
  split
  · rfl
  · rw [List.all_cons, hall]
    rfl

theorem Calendar.visible_zoneText (offset : Int) :
    (zoneText offset).all Json.isVisibleAscii = true := by
  unfold zoneText twoDigits
  split
  · rfl
  · simp only [List.all_append, visible_padded, Bool.and_true]
    split
    · rfl
    · rfl

/-- A written time is ASCII. -/
theorem ZonedTime.visible_text : z.text.all Json.isVisibleAscii = true := by
  have hyear : ∀ y, (Calendar.yearText y).all Json.isVisibleAscii = true := by
    intro y
    unfold Calendar.yearText
    split
    · rw [List.all_cons, Calendar.visible_padded]
      rfl
    · exact Calendar.visible_padded _ _
  unfold ZonedTime.text DateTime.dateText Date.text DateTime.clockText
    Calendar.twoDigits
  simp only [List.all_append, hyear, Calendar.visible_padded,
    Calendar.visible_fractionText, Calendar.visible_zoneText,
    Bool.and_true, Bool.true_and]
  rfl

theorem ZonedTime.repair_text : Utf8.repair z.text = z.text :=
  Utf8.repair_of_isValid (Json.closed_isValid.ascii z.visible_text)

end TimeTexts

namespace Storage
namespace Elastic

variable {clock : Instant} {createdAt : ZonedTime} {t : Tick}
  {ticks : List Tick}

/-- The action, without the end of its line. -/
def actionLine : Bytes := utf8 "\x7b\"create\":\x7b\x7d\x7d"

/-- What the document of a tick tells. -/
def content (clock : Instant) (createdAt : ZonedTime) (t : Tick) :
    List (String × Json.Datum) :=
  [("symbol", .text t.symbol), ("price", .number t.price),
    ("volume", .number t.volume),
    ("timestamp", .text (t.time clock).text),
    ("created_at", .text createdAt.text)]

/-- The document of a tick, without the end of its line. -/
def documentLine (clock : Instant) (createdAt : ZonedTime) (t : Tick) :
    Bytes :=
  Json.writeObject (Json.writtenPairs (content clock createdAt t))

theorem finite_content (createdAt : ZonedTime) (ht : Writable clock t) :
    ∀ p ∈ content clock createdAt t, p.2.IsFinite := by
  simp only [content, List.forall_mem_cons]
  exact ⟨trivial, ht.price, ht.volume, trivial, trivial, List.forall_mem_nil _⟩

theorem document?_eq (ht : Writable clock t) (hcreated : createdAt.Writable) :
    document? clock createdAt t = some (documentLine clock createdAt t) := by
  have htime : ∀ {z : ZonedTime}, z.Writable →
      z.json? = some (Json.quote z.text) :=
    fun hz => if_pos ⟨hz.1.1, hz.1.2, hz.2⟩
  have hprice : Json.writeFloat? t.price = some t.price.shortestText :=
    if_pos ht.price
  have hvolume : Json.writeFloat? t.volume = some t.volume.shortestText :=
    if_pos ht.volume
  unfold document?
  rw [hprice, hvolume, htime (ZonedTime.writable_utc.mpr ht.time),
    htime hcreated]
  rfl

theorem mapM_lines? (hticks : ∀ t ∈ ticks, Writable clock t)
    (hcreated : createdAt.Writable) :
    ticks.mapM (Elastic.lines? clock createdAt) =
      some (ticks.map fun t => actionLine ++ [10] ++
        (documentLine clock createdAt t ++ [10])) := by
  refine mapM_eq_map fun t ht => ?_
  rw [Elastic.lines?, document?_eq (hticks t ht) hcreated, Option.map_some,
    List.append_assoc]
  rfl

/-- The lines of a batch that can be written. -/
theorem lines_bulkBody? (hticks : ∀ t ∈ ticks, Writable clock t)
    (hcreated : createdAt.Writable) :
    (bulkBody? clock createdAt ticks).bind Bytes.lines? =
      some ((ticks.map (documentLine clock createdAt)).flatMap
        fun d => [actionLine, d]) := by
  have hline : ∀ l ∈ (ticks.map (documentLine clock createdAt)).flatMap
      fun d => [actionLine, d], 10 ∉ l := by
    simp only [List.mem_flatMap, List.mem_map, List.mem_cons,
      List.not_mem_nil, or_false]
    rintro l ⟨_, ⟨t, ht, rfl⟩, rfl | rfl⟩
    · decide
    · exact Json.closed_noNewline.writeObject
        (finite_content createdAt (hticks t ht))
  rw [← Bytes.lines?_flatMap hline, bulkBody?, mapM_lines? hticks hcreated,
    Option.map_some, Option.bind_some, ← List.flatMap_def, List.flatMap_assoc,
    List.flatMap_map]
  simp only [List.flatMap_cons, List.flatMap_nil, List.append_nil]

/-- The document of a tick: it has the numbers as the encoder of numbers prints
them, and reading it gives the values of the tick and when it was stored. -/
structure Tells (createdAt : ZonedTime) (t : Tick) (d : Bytes) : Prop where
  written : ∃ symbol price volume timestamp created,
    Json.writeFloat? t.price = some price ∧
    Json.writeFloat? t.volume = some volume ∧
      d = Json.writeObject [(utf8 "symbol", symbol), (utf8 "price", price),
        (utf8 "volume", volume),
        (utf8 "timestamp", timestamp), (utf8 "created_at", created)]
  read : ∃ u timestamp created,
    Json.decode Json.object [] d =
      some [(utf8 "symbol", .text (Utf8.repair t.symbol)),
        (utf8 "price", .number t.price), (utf8 "volume", .number t.volume),
        (utf8 "timestamp", .text timestamp),
        (utf8 "created_at", .text created)] ∧
    t.time? = some u ∧ ZonedTime.parse? timestamp = some (.utc u) ∧
    (ZonedTime.parse? created = some createdAt ↔ createdAt.offset % 60 = 0)

theorem tells_documentLine {u : Instant} (ht : Writable clock t)
    (htime : t.time? = some u) (hcreated : createdAt.Writable) :
    Tells createdAt t (documentLine clock createdAt t) where
  written := ⟨Json.quote t.symbol, t.price.shortestText, t.volume.shortestText,
    Json.quote (t.time clock).text, Json.quote createdAt.text, if_pos ht.price,
    if_pos ht.volume, rfl⟩
  read := by
    have hu : t.time clock = u := by rw [Tick.time, htime, Option.getD_some]
    have hread :=
      Json.decode_object (List.cons_ne_nil _ _) (finite_content createdAt ht)
    have hstamp : Utf8.repair (t.time clock).text = (t.time clock).text :=
      (ZonedTime.utc _).repair_text
    refine ⟨u, (t.time clock).text, createdAt.text,
      hread.trans ?_, htime, ?_, ?_⟩
    · simp only [Json.repairedPairs, List.map_cons, List.map_nil,
        Json.Datum.repaired, createdAt.repair_text, hstamp]
    · rw [Instant.parse?_text ht.time, hu]
    · exact ZonedTime.parse?_text_eq_self hcreated.1 hcreated.2

/-- The numbers of the tick are finite, and its timestamp is a written time
whose year in UTC has four digits. -/
structure Regular (t : Tick) : Prop where
  price : t.price.isFinite = true
  volume : t.volume.isFinite = true
  time : ∃ u, t.time? = some u ∧ u.civil.date.FourDigits

theorem Regular.writable (ht : Regular t) (clock : Instant) :
    Writable clock t := by
  obtain ⟨u, hu, hyear⟩ := ht.time
  refine ⟨ht.price, ht.volume, ?_⟩
  rwa [Tick.time, hu, Option.getD_some]

/-- The body is an action and a document in turn, one line each, and the
documents tell the ticks in order. It is the whole batch or nothing. -/
theorem well_framed (clock : Instant) (createdAt : ZonedTime)
    (ticks : List Tick) :
    (bulkBody? clock createdAt ticks = none ↔
      ∃ t ∈ ticks, ¬ (Writable clock t ∧ createdAt.Writable)) ∧
    ((∀ t ∈ ticks, Regular t) → createdAt.Writable →
      ∃ body documents, bulkBody? clock createdAt ticks = some body ∧
        Bytes.lines? body = some (documents.flatMap fun d => [actionLine, d]) ∧
        List.Forall₂ (Tells createdAt) ticks documents) := by
  refine ⟨?_, fun hticks hcreated => ?_⟩
  · rw [bulkBody?_eq_none]
    exact exists_congr fun t => and_congr_right fun _ => document?_eq_none_iff
  · have hwritable : ∀ t ∈ ticks, Writable clock t :=
      fun t ht => (hticks t ht).writable clock
    obtain ⟨body, hbody, hlines⟩ :=
      Option.bind_eq_some_iff.mp (lines_bulkBody? hwritable hcreated)
    refine ⟨body, _, hbody, hlines,
      List.forall₂_map_right_iff.mpr (List.forall₂_same.mpr ?_)⟩
    intro t ht
    obtain ⟨u, hu, -⟩ := (hticks t ht).time
    exact tells_documentLine (hwritable t ht) hu hcreated

/-- A tick whose symbol has a newline, a quote, a backslash and a byte that
belongs to no code point. -/
def oddTick : Tick where
  symbol := [66, 10, 34, 92, 255]
  price := .ofInt 1
  volume := .ofInt 2
  timestamp := utf8 "2024-03-01T11:59:59.999999999+02:00"

theorem regular_oddTick : Regular oddTick := by
  refine ⟨by decide +kernel, by decide +kernel,
    ⟨1709287199999999999⟩, by decide +kernel, ?_⟩
  unfold Date.FourDigits
  decide +kernel

/-- Two such ticks, stored at 2024-03-01T15:30:00+05:30. -/
theorem well_framed_of_oddTicks :
    (∀ t ∈ [oddTick, oddTick], Regular t) ∧
    ZonedTime.Writable ⟨someDay, 19800⟩ ∧
    ∃ body documents,
      bulkBody? someDay ⟨someDay, 19800⟩ [oddTick, oddTick] = some body ∧
      Bytes.lines? body = some (documents.flatMap fun d => [actionLine, d]) ∧
      List.Forall₂ (Tells ⟨someDay, 19800⟩) [oddTick, oddTick] documents := by
  have hticks : ∀ t ∈ [oddTick, oddTick], Regular t := by
    intro t ht
    simp only [List.mem_cons, List.not_mem_nil, or_false, or_self] at ht
    exact ht ▸ regular_oddTick
  have hstored : ZonedTime.Writable ⟨someDay, 19800⟩ := by
    unfold ZonedTime.Writable Date.FourDigits
    decide +kernel
  exact ⟨hticks, hstored,
    (well_framed someDay _ [oddTick, oddTick]).2 hticks hstored⟩

/-- A year of four digits in UTC does not make a time of storing fit: it is not
written in a zone of a day, nor where the clock of its zone shows another year,
and it is not read back from a zone with odd seconds. -/
theorem not_always_framed :
    Regular oddTick ∧
    (∃ dayAhead : ZonedTime,
      ZonedTime.parse? (utf8 "2024-03-01T10:00:00+23:60") = some dayAhead ∧
      dayAhead.instant.civil.date.FourDigits ∧
      bulkBody? someDay dayAhead [oddTick] = none) ∧
    (∃ nextYear : ZonedTime, nextYear.instant.civil.date.FourDigits ∧
      nextYear.offset = 3600 ∧ bulkBody? someDay nextYear [oddTick] = none) ∧
    ∃ oddZone : ZonedTime, oddZone.Writable ∧
      ZonedTime.parse? oddZone.text ≠ some oddZone := by
  have hnone : ∀ {z : ZonedTime}, ¬ z.Writable →
      bulkBody? someDay z [oddTick] = none := fun hz =>
    bulkBody?_eq_none.mpr ⟨oddTick, List.mem_singleton_self _,
      document?_eq_none_iff.mpr fun h => hz h.2⟩
  refine ⟨regular_oddTick, ⟨⟨⟨1709200800000000000⟩, 86400⟩, by decide +kernel,
    ?_, hnone fun h => ?_⟩,
    ⟨⟨⟨253402299000000000000⟩, 3600⟩, ?_, rfl, hnone fun h => ?_⟩,
    ⟨someDay, 30⟩, ?_, ?_⟩
  · unfold Date.FourDigits
    decide +kernel
  · exact absurd h.2 (by decide)
  · unfold Date.FourDigits
    decide +kernel
  · exact absurd h.1.2 (by decide +kernel)
  · unfold ZonedTime.Writable Date.FourDigits
    decide +kernel
  · decide +kernel

end Elastic
end Storage
end TickRelay
