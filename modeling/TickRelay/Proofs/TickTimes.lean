import TickRelay.Proofs.FrameRouting
import TickRelay.Proofs.TimeTexts

/-!
# The times of ticks

A live tick that comes without a timestamp is stamped with the clock; any other
keeps the text that the provider wrote. Either is read whenever the time of the
tick is asked for, and a text that cannot be read is taken for the time of the
asking.

**Results.** `timestamps_survive`: a stamp is read back as the clock it was
taken from, and a time that was read can be written and read again.
-/

namespace TickRelay
namespace Tick

/-- The tick with its time written anew; the clock stands in for a time that
cannot be read. -/
def restamped (clock : Instant) (t : Tick) : Tick :=
  { t with timestamp := (t.time clock).text }

variable {tick : Tick} {t : Instant}

theorem time_of_time? (h : tick.time? = some t) (clock : Instant) :
    tick.time clock = t := by
  rw [time, h]
  rfl

theorem time?_of_text (ht : t.civil.date.FourDigits)
    (htext : tick.timestamp = t.text) : tick.time? = some t := by
  rw [time?, htext, Instant.parse?_text ht]
  rfl

theorem time?_restamped (h : tick.time? = some t)
    (ht : t.civil.date.FourDigits) (clock : Instant) :
    (tick.restamped clock).time? = some t :=
  time?_of_text ht (congrArg Instant.text (time_of_time? h clock))

/-- **Timestamps survive.** Every live tick without a timestamp is stamped, and
its stamp is read as the very instant it was stamped at, if the year of that
instant has four digits; the clock of the reader does not matter. The time of
any tick whose timestamp can be read, in whatever form it is written, is the
same after it has been written anew, if its year in UTC has four digits. -/
theorem timestamps_survive :
    (∀ now : Instant, now.civil.date.FourDigits →
      ∀ frame f, Feed.Frame.decode? frame = some f →
      Feed.Frame.channel? f.kind = some .live →
      Symbol.normalize f.payload.symbol ≠ [] → f.payload.timestamp = [] →
      ∃ tick, Feed.Frame.parse now frame = .ok (tick, .live) ∧
        tick.timestamp = now.text ∧ tick.time? = some now ∧
        ∀ clock, tick.time clock = now) ∧
    ∀ (tick : Tick) (t : Instant), tick.time? = some t →
      t.civil.date.FourDigits →
      ∀ clock, (tick.restamped clock).time? = some t ∧
        ∀ clock', (tick.restamped clock).time clock' = t := by
  constructor
  · intro now hnow frame f hdecode hlive hsymbol hnone
    have hparse : Feed.Frame.parse now frame = .ok (f.tick now, .live) :=
      Feed.Frame.parse_ok_iff.mpr ⟨f, hdecode, hlive, hsymbol,
        fun h => Feed.Channel.noConfusion h, rfl⟩
    have hstamp : (f.tick now).timestamp = now.text := if_pos hnone
    have htime := time?_of_text hnow hstamp
    exact ⟨f.tick now, hparse, hstamp, htime, time_of_time? htime⟩
  · intro tick t htime ht clock
    have hagain := time?_restamped htime ht clock
    exact ⟨hagain, time_of_time? hagain⟩

/-- A live frame without timestamp. -/
def unstamped : Bytes :=
  utf8 "\x7b\"type\":\"price_update\",\"payload\":\x7b\"symbol\":\"btc\"\x7d\x7d"

/-- A tick whose time is written with one digit for the hour, a comma and more
digits than are kept. -/
def looselyStamped : Tick :=
  { timestamp := utf8 "2024-02-29T4:35:07,1200000009+05:30" }

/-- A frame without timestamp that comes early in the first year, and a tick
whose time in UTC is on the day before. -/
theorem timestamps_survive_of_loose :
    (∃ tick, Feed.Frame.parse ⟨-62167219199880000000⟩ unstamped =
        .ok (tick, .live) ∧
        tick.timestamp = utf8 "0000-01-01T00:00:00.12Z" ∧
        tick.time? = some ⟨-62167219199880000000⟩) ∧
      looselyStamped.time? = some ⟨1709161507120000000⟩ ∧
      (looselyStamped.restamped ⟨0⟩).timestamp =
        utf8 "2024-02-28T23:05:07.12Z" ∧
      (looselyStamped.restamped ⟨0⟩).time? = some ⟨1709161507120000000⟩ := by
  obtain ⟨hstamped, hagain⟩ := timestamps_survive
  have hdecode : Feed.Frame.decode? unstamped =
      some ⟨utf8 "price_update", { symbol := utf8 "btc" }⟩ := by decide +kernel
  have hearly : (⟨-62167219199880000000⟩ : Instant).civil.date.FourDigits :=
    ⟨by decide +kernel, by decide +kernel⟩
  have hloose : looselyStamped.time? = some ⟨1709161507120000000⟩ := by
    decide +kernel
  have hyear : (⟨1709161507120000000⟩ : Instant).civil.date.FourDigits :=
    ⟨by decide +kernel, by decide +kernel⟩
  obtain ⟨tick, hparse, hstamp, htime, -⟩ :=
    hstamped _ hearly _ _ hdecode rfl (by decide +kernel) rfl
  refine ⟨⟨tick, hparse, hstamp.trans (by decide +kernel), htime⟩,
    hloose, by decide +kernel, ?_⟩
  exact (hagain _ _ hloose hyear ⟨0⟩).1

end Tick
end TickRelay
