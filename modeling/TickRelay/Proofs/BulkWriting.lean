import TickRelay.Storage.Elastic
import TickRelay.Proofs.AcceptedTicks
import TickRelay.Proofs.WrittenTimes

/-!
# Batches that can be written

**Input.** A batch of ticks that the feed has accepted, whatever the provider
has sent.

**Algorithm.** A tick is written unless one of its two numbers is not finite or
its time has no year of four digits. Accepted numbers are finite. The time is
read from the timestamp, whose year has four digits where it was written but
not always in UTC.

**Results.** `unwritable_iff_spills`: a batch cannot be written exactly when it
holds a tick whose zone carries it out of the years with four digits. Neither
the clock nor the server has a part in this, so such a batch fails as often as
it is tried.
-/

namespace TickRelay

/-- Ticks that some message of the provider holds. -/
def Feed.Accepted (t : Tick) : Prop :=
  ∃ clock s channel, Feed.Frame.parse clock s = .ok (t, channel)

/-- The timestamp is a written time that spills over the years with four
digits. -/
def Tick.Spills (t : Tick) : Prop :=
  ∃ z, ZonedTime.parse? t.timestamp = some z ∧ z.Spills

theorem Tick.spills_iff {clock : Instant}
    (hclock : clock.civil.date.FourDigits) (t : Tick) :
    ¬ (t.time clock).civil.date.FourDigits ↔ t.Spills := by
  unfold Tick.time Tick.time? Tick.Spills
  cases hparse : ZonedTime.parse? t.timestamp with
  | none => simpa using hclock
  | some z => simpa using ZonedTime.fourDigits_or_spills hparse

/-- The time can be written: its year has four digits on the clock of its zone,
and the zone is less than a day from UTC. -/
def ZonedTime.Writable (z : ZonedTime) : Prop :=
  z.civil.date.FourDigits ∧ z.offset.natAbs < 86400

theorem ZonedTime.json?_eq_none {z : ZonedTime} :
    z.json? = none ↔ ¬ z.Writable := by
  unfold ZonedTime.json? Writable Date.FourDigits
  rw [and_assoc]
  simp

theorem ZonedTime.writable_utc {t : Instant} :
    (utc t).Writable ↔ t.civil.date.FourDigits := by
  have hzone : (utc t).offset.natAbs < 86400 := Nat.zero_lt_succ _
  rw [Writable, civil_utc]
  exact and_iff_left hzone

namespace Storage

section Batches

variable {α β : Type} {f : α → Option β} {xs : List α}

/-- A batch is written whole or not at all. -/
theorem mapM_eq_none : xs.mapM f = none ↔ ∃ x ∈ xs, f x = none := by
  induction xs with
  | nil => simp
  | cons x xs ih =>
      simp only [List.mapM_cons, List.mem_cons, exists_eq_or_imp, ← ih]
      cases f x with
      | none => simp
      | some y => cases xs.mapM f <;> simp

theorem mapM_eq_map {g : α → β} (h : ∀ x ∈ xs, f x = some (g x)) :
    xs.mapM f = some (xs.map g) := by
  induction xs with
  | nil => rfl
  | cons x xs ih =>
      obtain ⟨hx, hrest⟩ := List.forall_mem_cons.mp h
      rw [List.mapM_cons, hx, ih hrest]
      rfl

end Batches

namespace Elastic

variable {clock : Instant} {createdAt : ZonedTime}

/-- The tick can be written: its two numbers are finite, and its time has a
year of four digits in UTC. -/
structure Writable (clock : Instant) (t : Tick) : Prop where
  price : t.price.isFinite = true
  volume : t.volume.isFinite = true
  time : (t.time clock).civil.date.FourDigits

theorem isSome_document? {t : Tick} :
    (document? clock createdAt t).isSome =
      ((Json.writeFloat? t.price).isSome &&
        (Json.writeFloat? t.volume).isSome &&
        (ZonedTime.utc (t.time clock)).json?.isSome &&
        createdAt.json?.isSome) := by
  unfold document?
  cases Json.writeFloat? t.price with
  | none => rfl
  | some price =>
      cases Json.writeFloat? t.volume with
      | none => rfl
      | some volume =>
          cases (ZonedTime.utc (t.time clock)).json? with
          | none => rfl
          | some timestamp => cases createdAt.json? <;> rfl

theorem document?_eq_none_iff {t : Tick} :
    document? clock createdAt t = none ↔
      ¬ (Writable clock t ∧ createdAt.Writable) := by
  have hfloat : ∀ x : Binary64, (Json.writeFloat? x).isSome = true ↔
      x.isFinite = true := by
    intro x
    simp [Json.writeFloat?]
  have htime : ∀ z : ZonedTime, z.json?.isSome = true ↔ z.Writable := by
    intro z
    rw [← not_iff_not, Option.not_isSome_iff_eq_none, ZonedTime.json?_eq_none]
  rw [← Option.not_isSome_iff_eq_none, isSome_document?]
  simp only [Bool.and_eq_true, hfloat, htime, ZonedTime.writable_utc]
  refine not_congr (and_congr_left' ?_)
  exact ⟨fun h => ⟨h.1.1, h.1.2, h.2⟩, fun h => ⟨⟨h.price, h.volume⟩, h.time⟩⟩

theorem document?_eq_none {t : Tick} (ht : t.Finite)
    (hcreated : createdAt.json? ≠ none) :
    document? clock createdAt t = none ↔
      ¬ (t.time clock).civil.date.FourDigits := by
  rw [Ne, ZonedTime.json?_eq_none, not_not] at hcreated
  rw [document?_eq_none_iff]
  exact not_congr
    ⟨fun h => h.1.time, fun h => ⟨⟨ht.price, ht.volume, h⟩, hcreated⟩⟩

/-- A tick that cannot be written spoils its batch, and nothing else does. -/
theorem bulkBody?_eq_none {ticks : List Tick} :
    bulkBody? clock createdAt ticks = none ↔
      ∃ t ∈ ticks, document? clock createdAt t = none := by
  rw [bulkBody?, Option.map_eq_none_iff, mapM_eq_none]
  simp only [lines?, Option.map_eq_none_iff]

theorem commit_eq_unwritable {ticks : List Tick} {account : Account}
    {fallback : Answer} {answers : List Answer} :
    (commit account clock createdAt ticks fallback answers).2 =
      .error .unwritable ↔ bulkBody? clock createdAt ticks = none := by
  unfold commit
  cases ticks with
  | nil => simp [bulkBody?]
  | cons t ticks =>
      cases hbody : bulkBody? clock createdAt (t :: ticks) with
      | none => simp
      | some body =>
          simp only [List.isEmpty_cons, Bool.false_eq_true, if_false,
            reduceCtorEq, iff_false]
          split
          · simp
          · simp

/-- A batch of accepted ticks is unwritable exactly when one of them spills
over. The server has no part in it. -/
theorem unwritable_iff_spills {ticks : List Tick}
    (hticks : ∀ t ∈ ticks, Feed.Accepted t)
    (hclock : clock.civil.date.FourDigits)
    (hcreated : createdAt.civil.date.FourDigits)
    (hzone : createdAt.offset.natAbs < 86400) :
    (bulkBody? clock createdAt ticks = none ↔ ∃ t ∈ ticks, t.Spills) ∧
    ∀ account fallback answers,
      (commit account clock createdAt ticks fallback answers).2 =
        .error .unwritable ↔ ∃ t ∈ ticks, t.Spills := by
  have hwritten : createdAt.json? ≠ none := by
    rw [Ne, ZonedTime.json?_eq_none, not_not]
    exact ⟨hcreated, hzone⟩
  have hbody : bulkBody? clock createdAt ticks = none ↔
      ∃ t ∈ ticks, t.Spills := by
    rw [bulkBody?_eq_none]
    refine exists_congr fun t => and_congr_right fun ht => ?_
    obtain ⟨received, s, channel, hparse⟩ := hticks t ht
    rw [document?_eq_none (Feed.Frame.finite_of_parse hparse) hwritten,
      t.spills_iff hclock]
  refine ⟨hbody, fun account fallback answers => ?_⟩
  rw [commit_eq_unwritable, hbody]

/-- 2024-03-01T10:00:00Z. -/
def someDay : Instant := ⟨1709287200000000000⟩

/-- A trade of the first minute of the first year, in a zone ahead of UTC by
that minute. -/
def edgeTick : Tick where
  symbol := utf8 "BTCUSDT"
  price := .ofInt 1
  volume := .ofInt 1
  timestamp := utf8 "0000-01-01T00:00:00+00:01"

theorem accepted_edgeTick : Feed.Accepted edgeTick := by
  refine ⟨someDay, utf8 ("\x7b\"type\":\"price_update\"," ++
    "\"payload\":\x7b\"symbol\":\"BTCUSDT\",\"price\":1,\"volume\":1," ++
    "\"timestamp\":\"0000-01-01T00:00:00+00:01\"\x7d\x7d"), .live, ?_⟩
  decide +kernel

theorem spills_edgeTick : edgeTick.Spills :=
  ⟨⟨⟨-62167219260000000000⟩, 60⟩, by decide +kernel, by decide +kernel⟩

/-- One such tick keeps a batch from being written, whatever the server would
answer. -/
theorem unwritable_of_edgeTick :
    (∃ t ∈ [edgeTick], t.Spills) ∧
      (commit {} someDay (.utc someDay) [edgeTick] ⟨200, [true]⟩ []).2 =
        .error .unwritable := by
  have hticks : ∀ t ∈ [edgeTick], Feed.Accepted t := by
    intro t ht
    rw [List.mem_singleton.mp ht]
    exact accepted_edgeTick
  have hspills : ∃ t ∈ [edgeTick], t.Spills :=
    ⟨edgeTick, List.mem_singleton_self _, spills_edgeTick⟩
  have hday : someDay.civil.date.FourDigits := by
    unfold Date.FourDigits
    decide +kernel
  have hzoned : (ZonedTime.utc someDay).civil.date.FourDigits := by
    unfold Date.FourDigits
    decide +kernel
  exact ⟨hspills,
    ((unwritable_iff_spills hticks hday hzoned (by decide)).2 {} ⟨200, [true]⟩
      []).mpr hspills⟩

/-- So accepted ticks can be unwritable. -/
theorem not_every_batch_written :
    ¬ ∀ (clock : Instant) (createdAt : ZonedTime) (ticks : List Tick),
        (∀ t ∈ ticks, Feed.Accepted t) → clock.civil.date.FourDigits →
        createdAt.civil.date.FourDigits → createdAt.offset.natAbs < 86400 →
        (bulkBody? clock createdAt ticks).isSome = true := by
  intro hall
  have hsome :=
    hall someDay (.utc someDay) [edgeTick]
      (fun t ht => List.mem_singleton.mp ht ▸ accepted_edgeTick)
      (by unfold Date.FourDigits; decide +kernel)
      (by unfold Date.FourDigits; decide +kernel) (by decide)
  have hnone : bulkBody? someDay (.utc someDay) [edgeTick] = none := by
    decide +kernel
  rw [hnone] at hsome
  cases hsome

end Elastic
end Storage
end TickRelay
