import TickRelay.Proofs.WrittenTimes

/-!
# Times that are written and read

**Algorithm.** A time is written field by field, the fraction of its second
without closing zeros. The reader fills the fraction up to nine digits, so the
zeros that were cut off come back.

**Results.** `fraction_fractionText`: any number of places of the fraction is
read back, the others count as zero. `ZonedTime.parse?_text`: what a clock in
its zone shows is read back, with the whole minutes of the zone.
-/

namespace TickRelay

namespace Calendar

theorem digit?_digit {d : Nat} (hd : d < 10) (s : Bytes) :
    digit? (Bytes.digit d :: s) = some (d, s) := by
  simp [digit?, Bytes.isDigit_digit hd, Bytes.digitValue_digit hd]

theorem twoDigits_eq {n : Nat} (hn : n < 100) :
    twoDigits n = [Bytes.digit (n / 10), Bytes.digit (n % 10)] := by
  rw [twoDigits, Bytes.paddedDecimal_succ Nat.one_pos, Bytes.paddedDecimal,
    Bytes.decimal_of_lt (by omega)]
  rfl

theorem two?_twoDigits {n : Nat} (hn : n < 100) (s : Bytes) :
    two? (twoDigits n ++ s) = some (n, s) := by
  have htens :=
    digit?_digit (d := n / 10) (by omega) (Bytes.digit (n % 10) :: s)
  have hones := digit?_digit (d := n % 10) (by omega) s
  simp only [twoDigits_eq hn, List.cons_append, List.nil_append, two?, htens,
    hones, Option.bind_eq_bind, Option.bind_some, Option.some.injEq,
    Prod.mk.injEq, and_true]
  omega

@[simp] theorem byte?_cons (b : UInt8) (s : Bytes) :
    byte? b (b :: s) = some s := if_pos rfl

theorem atMost?_of_le {n bound : Nat} (h : n ≤ bound) :
    atMost? n bound = some n := if_pos h

theorem oneOrTwo?_twoDigits {n : Nat} (hn : n < 100) (s : Bytes) :
    oneOrTwo? (twoDigits n ++ s) = some (n, s) := by
  have htens :=
    digit?_digit (d := n / 10) (by omega) (Bytes.digit (n % 10) :: s)
  have hones := digit?_digit (d := n % 10) (by omega) s
  simp only [twoDigits_eq hn, List.cons_append, List.nil_append, oneOrTwo?,
    htens, hones, Option.bind_eq_bind, Option.bind_some, Option.some.injEq,
    Prod.mk.injEq, and_true]
  omega

/-- Four digits are twice two. -/
theorem yearText_eq {n : Nat} (hn : n < 10000) :
    yearText n = twoDigits (n / 100) ++ twoDigits (n % 100) := by
  have hpos : ¬ (n : Int) < 0 := by omega
  rw [yearText, if_neg hpos, Int.natAbs_natCast,
    Bytes.paddedDecimal_succ (by decide), Bytes.paddedDecimal_succ (by decide),
    twoDigits_eq (Nat.mod_lt n (by decide)), List.append_assoc,
    Nat.div_div_eq_div_mul, Nat.mod_mod_of_dvd n (by decide : 10 ∣ 100)]
  have htens : n / 10 % 10 = n % 100 / 10 := by omega
  rw [htens]
  rfl

theorem four?_yearText {n : Nat} (hn : n < 10000) (s : Bytes) :
    four? (yearText n ++ s) = some (n, s) := by
  have hfront :=
    two?_twoDigits (n := n / 100) (by omega) (twoDigits (n % 100) ++ s)
  have hback := two?_twoDigits (n := n % 100) (by omega) s
  simp only [yearText_eq hn, List.append_assoc, four?, hfront, hback,
    Option.bind_eq_bind, Option.bind_some, Option.some.injEq,
    Prod.mk.injEq, and_true]
  omega

section Fraction

/-- What was cut off at the end are zeros. -/
theorem exists_zeros (ds : Bytes) :
    ∃ k, ds = dropZeros ds ++ List.replicate k 48 := by
  refine ⟨(ds.reverse.takeWhile (· == 48)).length, ?_⟩
  have hzeros : ds.reverse.takeWhile (· == 48) =
      List.replicate (ds.reverse.takeWhile (· == 48)).length 48 :=
    List.eq_replicate_of_mem fun b hb => by
      simpa using List.mem_takeWhile_imp hb
  have hsplit :=
    List.takeWhile_append_dropWhile (p := (· == 48)) (l := ds.reverse)
  rw [hzeros] at hsplit
  calc
    ds = ds.reverse.reverse := (List.reverse_reverse ds).symm
    _ = dropZeros ds ++
        List.replicate (ds.reverse.takeWhile (· == 48)).length 48 := by
      rw [← hsplit, List.reverse_append, List.reverse_replicate, hsplit]
      rfl

theorem mem_dropZeros {ds : Bytes} {b : UInt8} (h : b ∈ dropZeros ds) :
    b ∈ ds :=
  List.mem_reverse.mp ((List.dropWhile_sublist _).mem (List.mem_reverse.mp h))

/-- Digits after a point, up to a byte that is none. -/
theorem fraction_digits {ds s : Bytes} (hds : ∀ b ∈ ds, Bytes.isDigit b = true)
    (hsome : ds ≠ []) (hnine : ds.length ≤ 9)
    (hs : ∀ b ∈ s.head?, Bytes.isDigit b = false) :
    fraction (46 :: (ds ++ s)) =
      (Bytes.number ds * 10 ^ (9 - ds.length), s) := by
  have hstop : s.takeWhile Bytes.isDigit = [] ∧
      s.dropWhile Bytes.isDigit = s := by
    cases s with
    | nil => exact ⟨rfl, rfl⟩
    | cons b s => simp [hs b rfl]
  have htake : (ds ++ s).takeWhile Bytes.isDigit = ds := by
    rw [List.takeWhile_append_of_pos hds, hstop.1, List.append_nil]
  have hdrop : (ds ++ s).dropWhile Bytes.isDigit = s := by
    rw [List.dropWhile_append_of_pos hds, hstop.2]
  unfold fraction
  dsimp only
  rw [htake, hdrop, if_pos ⟨.inl rfl, hsome⟩, List.take_of_length_le hnine]
  rfl

/-- A text that does not go on with a fraction has none. -/
theorem fraction_none {s : Bytes} (hs : ∀ b ∈ s.head?, b ≠ 46 ∧ b ≠ 44) :
    fraction s = (0, s) := by
  cases s with
  | nil => rfl
  | cons b s =>
      obtain ⟨hpoint, hcomma⟩ := hs b rfl
      unfold fraction
      dsimp only
      rw [if_neg]
      rintro ⟨heither, -⟩
      exact heither.elim hpoint hcomma

/-- The first places of a fraction are read back, and the others as zeros. -/
theorem fraction_fractionText {places nano : Nat} (hplaces : places ≤ 9)
    (hnano : nano < 1000000000) {s : Bytes}
    (hs : ∀ b ∈ s.head?, Bytes.isDigit b = false ∧ b ≠ 46 ∧ b ≠ 44) :
    fraction (fractionText places nano ++ s) =
      (nano / 10 ^ (9 - places) * 10 ^ (9 - places), s) := by
  have hall : ∀ b ∈ Bytes.paddedDecimal 9 nano, Bytes.isDigit b = true :=
    fun b hb => Bytes.isDigit_of_mem_paddedDecimal hb
  have hlength : (Bytes.paddedDecimal 9 nano).length = 9 :=
    Bytes.length_paddedDecimal (by decide) hnano
  have hfirst := Bytes.number_take hall places
  rw [Bytes.number_paddedDecimal, hlength] at hfirst
  obtain ⟨k, hk⟩ := exists_zeros ((Bytes.paddedDecimal 9 nano).take places)
  have hshort := congrArg List.length hk
  rw [List.length_take, hlength, List.length_append, List.length_replicate]
    at hshort
  have hnumber :
      nano / 10 ^ (9 - places) =
        Bytes.number (dropZeros ((Bytes.paddedDecimal 9 nano).take places)) *
          10 ^ k := by
    rw [← hfirst, hk, Bytes.number_append, Bytes.number_replicate,
      List.length_replicate, Nat.add_zero, ← hk]
  unfold fractionText
  cases hkept : dropZeros ((Bytes.paddedDecimal 9 nano).take places) with
  | nil =>
      rw [hkept] at hnumber
      have hzero : nano / 10 ^ (9 - places) = 0 :=
        hnumber.trans (Nat.zero_mul _)
      rw [hzero, Nat.zero_mul]
      exact fraction_none fun b hb => (hs b hb).2
  | cons d ds =>
      rw [hkept] at hnumber hshort
      have hdigits : ∀ b ∈ d :: ds, Bytes.isDigit b = true := fun b hb =>
        hall b (List.mem_of_mem_take (mem_dropZeros (hkept ▸ hb)))
      have hread :=
        fraction_digits hdigits (List.cons_ne_nil d ds) (by omega) fun b hb =>
          (hs b hb).1
      have hpower : 9 - (d :: ds).length = k + (9 - places) := by omega
      rw [hpower, Nat.pow_add, ← Nat.mul_assoc, ← hnumber] at hread
      exact hread

/-- A zone does not go on with a fraction. -/
theorem head_of_zone? {s rest : Bytes} {offset : Int}
    (h : zone? s = some (offset, rest)) :
    ∀ b ∈ s.head?, Bytes.isDigit b = false ∧ b ≠ 46 ∧ b ≠ 44 := by
  unfold zone? at h
  split at h
  · rintro b ⟨⟩
    decide
  · split at h
    · rename_i hsign
      rintro b ⟨⟩
      rcases hsign with rfl | rfl
      · decide
      · decide
    · cases h
  · cases h

end Fraction

theorem zone?_signed {sign : UInt8} (hsign : sign = 43 ∨ sign = 45) {h m : Nat}
    (hh : h ≤ 24) (hm : m ≤ 60) :
    zone? (sign :: (twoDigits h ++ 58 :: (twoDigits m ++ []))) =
      some (if sign = 45 then -(3600 * h + 60 * m : Int)
        else 3600 * h + 60 * m, []) := by
  unfold zone?
  split
  · rename_i heq
    rw [List.cons.injEq] at heq
    rcases hsign with rfl | rfl <;> exact absurd heq.1 (by decide)
  · rename_i c t _ heq
    obtain ⟨rfl, rfl⟩ := List.cons.inj heq
    rw [if_pos hsign]
    refine Option.bind_eq_some_iff.mpr ⟨_, two?_twoDigits (by omega) _, ?_⟩
    refine Option.bind_eq_some_iff.mpr ⟨_, byte?_cons .., ?_⟩
    refine Option.bind_eq_some_iff.mpr ⟨_, two?_twoDigits (by omega) _, ?_⟩
    refine Option.bind_eq_some_iff.mpr ⟨_, atMost?_of_le hh, ?_⟩
    exact Option.bind_eq_some_iff.mpr ⟨_, atMost?_of_le hm, rfl⟩
  · rename_i heq
    cases heq

/-- An offset without its odd seconds. -/
def wholeMinutes (offset : Int) : Int :=
  if offset < 0 then -(-offset / 60 * 60) else offset / 60 * 60

theorem wholeMinutes_eq_self {offset : Int} :
    wholeMinutes offset = offset ↔ offset % 60 = 0 := by
  unfold wholeMinutes
  split <;> omega

/-- The whole minutes of an offset that is less than a day are read back. -/
theorem zone?_zoneText {offset : Int} (hday : offset.natAbs < 86400) :
    zone? (zoneText offset) = some (wholeMinutes offset, []) := by
  have hcolon : utf8 ":" = [58] := by decide
  have hhours : offset.natAbs / 60 / 60 ≤ 24 := by omega
  have hrest : offset.natAbs / 60 % 60 ≤ 60 := by omega
  unfold zoneText wholeMinutes
  split
  · rename_i hzero
    rw [hzero]
    rfl
  · dsimp only
    rw [hcolon, ← List.append_nil (twoDigits (offset.natAbs / 60 % 60)),
      List.append_assoc]
    split
    · refine (zone?_signed (.inr rfl) hhours hrest).trans ?_
      rw [if_pos rfl, Option.some.injEq, Prod.mk.injEq]
      exact ⟨by omega, rfl⟩
    · refine (zone?_signed (.inl rfl) hhours hrest).trans ?_
      rw [if_neg (by decide), Option.some.injEq, Prod.mk.injEq]
      exact ⟨by omega, rfl⟩

end Calendar

namespace ZonedTime

/-- The fields of a clock are read back, with whatever zone follows them. -/
theorem parse?_written {t : DateTime} (ht : t.Proper)
    (hyear : t.date.FourDigits) {zone : Bytes} {offset : Int}
    (hzone : Calendar.zone? zone = some (offset, [])) :
    parse? (t.dateText ++ utf8 "T" ++ t.clockText 9 ++ zone) =
      some ⟨t.instant.shift (-offset * nanosPerSecond), offset⟩ := by
  obtain ⟨⟨year, month, day⟩, hour, minute, second, nano⟩ := t
  obtain ⟨hdate, hhour, hminute, hsecond, hnano⟩ := ht
  obtain ⟨n, rfl⟩ := Int.eq_ofNat_of_zero_le hyear.1
  dsimp only at hdate hhour hminute hsecond hnano hyear
  have hn : n < 10000 := by
    have hle := hyear.2
    dsimp only at hle
    omega
  obtain ⟨hmonth, hday⟩ : month < 100 ∧ day < 100 := by
    have hmonth := Date.month_between hdate
    have hday := Date.day_between hdate
    have hdays := Date.daysOfMonth_between (Date.monthIndex ⟨n, month, day⟩)
    dsimp only at hmonth hday
    omega
  have hfraction :=
    Calendar.fraction_fractionText (Nat.le_refl 9) hnano
      (Calendar.head_of_zone? hzone)
  rw [Nat.sub_self, Nat.pow_zero, Nat.div_one, Nat.mul_one] at hfraction
  have htext :
      DateTime.dateText ⟨⟨n, month, day⟩, hour, minute, second, nano⟩ ++
          utf8 "T" ++
          DateTime.clockText 9 ⟨⟨n, month, day⟩, hour, minute, second, nano⟩ ++
          zone =
      Calendar.yearText n ++ 45 ::
      (Calendar.twoDigits month ++ 45 ::
        (Calendar.twoDigits day ++ 84 ::
          (Calendar.twoDigits hour ++ 58 ::
            (Calendar.twoDigits minute ++ 58 ::
              (Calendar.twoDigits second ++
                (Calendar.fractionText 9 nano ++ zone)))))) := by
    have hdash : utf8 "-" = [45] := by decide
    have hcolon : utf8 ":" = [58] := by decide
    have hT : utf8 "T" = [84] := by decide
    simp only [DateTime.dateText, Date.text, DateTime.clockText, hdash, hcolon,
      hT, List.append_assoc, List.cons_append, List.nil_append]
  have hhours := Nat.lt_trans hhour (by decide : 24 < 100)
  have hminutes := Nat.lt_trans hminute (by decide : 60 < 100)
  have hseconds := Nat.lt_trans hsecond (by decide : 60 < 100)
  rw [htext]
  refine Option.bind_eq_some_iff.mpr ⟨_, Calendar.four?_yearText hn _, ?_⟩
  refine Option.bind_eq_some_iff.mpr ⟨_, Calendar.byte?_cons .., ?_⟩
  refine Option.bind_eq_some_iff.mpr ⟨_, Calendar.two?_twoDigits hmonth _, ?_⟩
  refine Option.bind_eq_some_iff.mpr ⟨_, Calendar.byte?_cons .., ?_⟩
  refine Option.bind_eq_some_iff.mpr ⟨_, Calendar.two?_twoDigits hday _, ?_⟩
  refine Option.bind_eq_some_iff.mpr ⟨_, Calendar.byte?_cons .., ?_⟩
  refine Option.bind_eq_some_iff.mpr
    ⟨_, Calendar.oneOrTwo?_twoDigits hhours _, ?_⟩
  refine Option.bind_eq_some_iff.mpr ⟨_, Calendar.byte?_cons .., ?_⟩
  refine Option.bind_eq_some_iff.mpr
    ⟨_, Calendar.two?_twoDigits hminutes _, ?_⟩
  refine Option.bind_eq_some_iff.mpr ⟨_, Calendar.byte?_cons .., ?_⟩
  refine Option.bind_eq_some_iff.mpr
    ⟨_, Calendar.two?_twoDigits hseconds _, ?_⟩
  dsimp only
  rw [hfraction]
  refine Option.bind_eq_some_iff.mpr ⟨_, hzone, ?_⟩
  refine Option.bind_eq_some_iff.mpr
    ⟨_, Calendar.atMost?_of_le (Nat.le_of_lt_succ hhour), ?_⟩
  refine Option.bind_eq_some_iff.mpr
    ⟨_, Calendar.atMost?_of_le (Nat.le_of_lt_succ hminute), ?_⟩
  refine Option.bind_eq_some_iff.mpr
    ⟨_, Calendar.atMost?_of_le (Nat.le_of_lt_succ hsecond), ?_⟩
  exact if_pos ⟨rfl, hdate⟩

/-- A time with a year of four digits on the clock of its zone, in a zone less
than a day from UTC. The reader finds what that clock shows, and the zone to
the minute. -/
theorem parse?_text {z : ZonedTime} (hyear : z.civil.date.FourDigits)
    (hday : z.offset.natAbs < 86400) :
    parse? z.text =
      some ⟨z.instant.shift ((z.offset - Calendar.wholeMinutes z.offset) *
        nanosPerSecond), Calendar.wholeMinutes z.offset⟩ := by
  rw [text, parse?_written z.proper_civil hyear (Calendar.zone?_zoneText hday),
    instant_civil]
  congr 2
  simp only [Instant.shift, Instant.mk.injEq]
  ring

/-- The time is read back if its zone is whole minutes from UTC, and never
else. -/
theorem parse?_text_eq_self {z : ZonedTime} (hyear : z.civil.date.FourDigits)
    (hday : z.offset.natAbs < 86400) :
    parse? z.text = some z ↔ z.offset % 60 = 0 := by
  rw [parse?_text hyear hday, Option.some.injEq]
  rw [← Calendar.wholeMinutes_eq_self]
  refine ⟨congrArg offset, fun hwhole => ?_⟩
  simp only [hwhole, Int.sub_self, Int.zero_mul, Instant.shift, Int.add_zero]

end ZonedTime

/-- An instant of a year with four digits is read back from its text. -/
theorem Instant.parse?_text {t : Instant} (ht : t.civil.date.FourDigits) :
    ZonedTime.parse? t.text = some (ZonedTime.utc t) := by
  rw [← ZonedTime.civil_utc] at ht
  exact (ZonedTime.parse?_text_eq_self ht (Nat.zero_lt_succ _)).mpr rfl

end TickRelay
