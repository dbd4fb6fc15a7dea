import TickRelay.App
import TickRelay.Proofs.CacheHistory
import TickRelay.Proofs.LimiterWindow
import TickRelay.Proofs.ValidSettings
import Mathlib.Algebra.Order.Ring.Int

/-!
# Lengths of time reckoned from the settings

Settings give lengths of time in seconds or milliseconds, and the components
take nanoseconds of 64 bits. The checks bound the settings from below only, so
that a product may wrap: to zero or below, where a ticker cannot start, or to a
wrong length above zero.

**Input.** Settings that pass every check.

**Algorithm.** Each length is a `Span`: a setting times the nanoseconds of its
unit, and for the pings a tenth of that.

**Results.** `Span.nanos_pos_iff` and `Span.nanos_exact_iff` say for one length
when it is positive and when it is the length that was set,
`Limiter.admitsAll_iff` and `Cache.forgetsAll_iff` what a wrapped one does to
the component that has it. `durations_positive_iff` is about all lengths of a
configuration.
-/

namespace TickRelay

/-- A setting, the nanoseconds of its unit, and by how much the product is
divided. -/
structure Span where
  setting : Int64
  unit : Nat
  divisor : Nat := 1

namespace Span

def ofSeconds (n : Int64) : Span := ⟨n, 1000000000, 1⟩

def product (s : Span) : Int := s.setting.toInt * s.unit

/-- The length that is meant. -/
def exact (s : Span) : Int := s.product / s.divisor

/-- The length in 64 bits. -/
def nanos (s : Span) : Int64 := s.setting * .ofNat s.unit / .ofNat s.divisor

/-- The setting is positive, and so is what it says. -/
structure Proper (s : Span) : Prop where
  setting : 1 ≤ s.setting
  divisor : 0 < s.divisor
  divisor_le : s.divisor ≤ s.unit
  unit : s.unit < 2 ^ 63

variable {s : Span}

theorem nanos_ofSeconds (n : Int64) : (ofSeconds n).nanos = App.seconds n :=
  Int64.div_one

theorem bmod_word (n : Int) :
    n.bmod (2 ^ 64) =
      if n % 2 ^ 64 < 2 ^ 63 then n % 2 ^ 64 else n % 2 ^ 64 - 2 ^ 64 := by
  have hcast : ((2 ^ 64 : Nat) : Int) = 2 ^ 64 := rfl
  rw [Int.bmod_def, hcast]
  rfl

theorem Proper.unit_le_product (h : s.Proper) :
    (s.unit : Int) ≤ s.product := by
  have hsetting : 1 ≤ s.setting.toInt := Int64.le_iff_toInt_le.mp h.setting
  have hmul : 1 * (s.unit : Int) ≤ s.setting.toInt * s.unit :=
    Int.mul_le_mul_of_nonneg_right hsetting (Int.natCast_nonneg _)
  rwa [Int.one_mul] at hmul

theorem Proper.toInt_nanos (h : s.Proper) :
    s.nanos.toInt = (s.product.bmod (2 ^ 64)).tdiv s.divisor := by
  have hunit : (Int64.ofNat s.unit).toInt = s.unit :=
    Int64.toInt_ofNat_of_lt h.unit
  have hlt : s.divisor < 2 ^ 63 := Nat.lt_of_le_of_lt h.divisor_le h.unit
  have hdivisor : (Int64.ofNat s.divisor).toInt = s.divisor :=
    Int64.toInt_ofNat_of_lt hlt
  have hne : Int64.ofNat s.divisor ≠ -1 := by
    intro heq
    rw [heq] at hdivisor
    have hminus : (-1 : Int64).toInt = -1 := rfl
    omega
  rw [nanos, Int64.toInt_div_of_ne_right _ _ hne, Int64.toInt_mul, hunit,
    hdivisor, product]

/-- A length is positive exactly if its product, reckoned around the circle of
64 bits, is in the half of the positive numbers and not smaller than the
divisor. -/
theorem nanos_pos_iff (h : s.Proper) :
    0 < s.nanos ↔ s.divisor ≤ s.product % 2 ^ 64 ∧
    s.product % 2 ^ 64 < 2 ^ 63 := by
  have hdivisor : (0 : Int) < s.divisor := Int.natCast_pos.mpr h.divisor
  have hzero : (0 : Int64).toInt = 0 := rfl
  rw [Int64.lt_iff_toInt_lt, h.toInt_nanos, hzero, bmod_word]
  have hlow : 0 ≤ s.product % 2 ^ 64 := Int.emod_nonneg _ (by decide)
  have hhigh : s.product % 2 ^ 64 < 2 ^ 64 := Int.emod_lt_of_pos _ (by decide)
  generalize s.product % 2 ^ 64 = r at hlow hhigh
  split
  case isTrue hr =>
    rw [Int.tdiv_eq_ediv_of_nonneg hlow, Int.lt_iff_add_one_le,
      Int.le_ediv_iff_mul_le hdivisor]
    omega
  case isFalse hr =>
    have hneg : 0 ≤ -(r - 2 ^ 64) := by omega
    have hle : 0 ≤ (-(r - 2 ^ 64)).tdiv s.divisor :=
      Int.tdiv_nonneg hneg (Int.le_of_lt hdivisor)
    rw [Int.neg_tdiv] at hle
    omega

/-- A product that wraps falls short by so much that no division hides it. -/
theorem Proper.nanos_lt_exact (h : s.Proper) (hlarge : 2 ^ 63 ≤ s.product) :
    s.nanos.toInt < s.exact := by
  have hdivisor : (0 : Int) < s.divisor := Int.natCast_pos.mpr h.divisor
  have hle := h.divisor_le
  have hunit := h.unit
  have hproduct := h.unit_le_product
  have hwrap : s.product.bmod (2 ^ 64) ≤ s.product - s.divisor := by
    rw [bmod_word]
    split <;> omega
  have hshift :
      (s.product - s.divisor) / (s.divisor : Int) =
        s.product / s.divisor - 1 := by
    have hstep := Int.add_mul_ediv_right s.product (-1) (Int.ne_of_gt hdivisor)
    rw [Int.neg_one_mul] at hstep
    exact hstep
  rw [h.toInt_nanos, exact]
  calc (s.product.bmod (2 ^ 64)).tdiv s.divisor
      ≤ (s.product - s.divisor).tdiv s.divisor :=
      Int.tdiv_le_tdiv hdivisor hwrap
    _ = s.product / s.divisor - 1 := by
        rw [Int.tdiv_eq_ediv_of_nonneg (by omega), hshift]
    _ < s.product / s.divisor := Int.sub_one_lt_iff.mpr (Int.le_refl _)

/-- A length is the one that was set exactly if its product does not wrap. -/
theorem nanos_exact_iff (h : s.Proper) :
    s.nanos.toInt = s.exact ↔ s.product < 2 ^ 63 := by
  constructor
  · intro heq
    by_contra hlarge
    exact Int.ne_of_lt (h.nanos_lt_exact (Int.not_lt.mp hlarge)) heq
  · intro hlt
    have hnonneg : 0 ≤ s.product :=
      Int.le_trans (Int.natCast_nonneg _) h.unit_le_product
    rw [h.toInt_nanos, Int.bmod_eq_of_le (by omega) (by omega),
      Int.tdiv_eq_ediv_of_nonneg hnonneg, exact]

/-- Reckoning back by a length leads ahead of the clock exactly if its product
is in the half of the negative numbers; the least of them is its own
opposite. -/
theorem neg_nanos_pos_iff (h : s.Proper) (hone : s.divisor = 1) :
    0 < (-s.nanos).toInt ↔ 2 ^ 63 < s.product % 2 ^ 64 := by
  rw [Int64.toInt_neg, h.toInt_nanos, hone, Int.natCast_one, Int.tdiv_one,
    bmod_word, bmod_word]
  have hlow : 0 ≤ s.product % 2 ^ 64 := Int.emod_nonneg _ (by decide)
  have hhigh : s.product % 2 ^ 64 < 2 ^ 64 := Int.emod_lt_of_pos _ (by decide)
  generalize s.product % 2 ^ 64 = r at hlow hhigh
  split <;> omega

end Span

namespace Limiter

/-- Every client is admitted, however many admissions there were up to now. -/
def AdmitsAll (l : Limiter) : Prop :=
  ∀ (history : Table (List Instant)) (now : Instant) (client : Bytes),
    (∀ t ∈ ({ l with history } : Limiter).admissions client,
      t.nanos ≤ now.nanos) →
      (({ l with history } : Limiter).ask now client).2 = true

/-- As many admissions of one client as allowed, all at one time. -/
def crowded (l : Limiter) : Limiter :=
  { l with history := .set .empty [] (.replicate l.max.toInt.toNat ⟨0⟩) }

theorem admissions_crowded (l : Limiter) :
    l.crowded.admissions [] = .replicate l.max.toInt.toNat ⟨0⟩ := rfl

/-- A limiter admits everything exactly if its window starts after now. -/
theorem admitsAll_iff {l : Limiter} (hmax : 1 ≤ l.max) :
    l.AdmitsAll ↔ 0 < (-l.window).toInt := by
  have hone : 1 ≤ l.max.toInt := Int64.le_iff_toInt_le.mp hmax
  constructor
  · intro hall
    rcases Int.lt_or_le 0 (-l.window).toInt with hlt | hge
    · exact hlt
    · have hask : (l.crowded.ask ⟨0⟩ []).2 = true := by
        refine hall _ ⟨0⟩ [] fun t ht => ?_
        obtain rfl := List.eq_of_mem_replicate ht
        exact Int.le_refl 0
      have hprune : prune (l.crowded.start ⟨0⟩) (l.crowded.admissions []) =
          l.crowded.admissions [] := by
        rw [admissions_crowded, prune, List.dropWhile_eq_self_iff]
        intro _ hbefore
        rw [List.getElem_replicate, Instant.before_iff] at hbefore
        have hstart : 0 < 0 + (-l.window).toInt := hbefore
        omega
      rw [granted_iff_prune, hprune, admissions_crowded, List.length_replicate]
        at hask
      have hroom : (l.max.toInt.toNat : Int) < l.max.toInt := hask
      omega
  · intro hpos history now client hpast
    have hprune : prune (({ l with history } : Limiter).start now)
        (({ l with history } : Limiter).admissions client) = [] := by
      rw [prune, List.dropWhile_eq_nil_iff]
      intro t ht
      have hle := hpast t ht
      rw [Instant.before_iff]
      show t.nanos < now.nanos + (-l.window).toInt
      omega
    rw [granted_iff_prune, hprune]
    exact hone

end Limiter

namespace Cache

/-- A sweep leaves nothing of what arrived up to now. -/
def ForgetsAll (c : Cache) : Prop :=
  ∀ (symbols : Table (List Received)) (now : Instant),
    (∀ s, ∀ r ∈ ({ c with symbols } : Cache).received s,
      r.time.nanos ≤ now.nanos) →
      ∀ s, (({ c with symbols } : Cache).sweep now).1.received s = []

/-- A cache forgets everything exactly if its limit of age lies after now. -/
theorem forgetsAll_iff {c : Cache} : c.ForgetsAll ↔ 0 < (-c.maxAge).toInt := by
  constructor
  · intro hall
    let arrival : Received := ⟨{}, ⟨0⟩⟩
    let held : Table (List Received) := .set .empty [] [arrival]
    have hpast : ∀ s, ∀ r ∈ ({ c with symbols := held } : Cache).received s,
        r.time.nanos ≤ 0 := by
      intro s r hr
      rw [received, Table.get?_set, Table.get?_empty] at hr
      split at hr
      · obtain rfl := List.mem_singleton.mp hr
        exact Int.le_refl 0
      · cases hr
    have hswept := hall held ⟨0⟩ hpast []
    rw [received_sweep] at hswept
    have hbefore :=
      List.dropWhile_eq_nil_iff.mp hswept arrival (List.mem_singleton_self _)
    rw [Instant.before_iff] at hbefore
    have hlimit : 0 < 0 + (-c.maxAge).toInt := hbefore
    omega
  · intro hpos symbols now hpast s
    rw [received_sweep, fresh, List.dropWhile_eq_nil_iff]
    intro r hr
    have hle := hpast s r hr
    rw [Instant.before_iff]
    show r.time.nanos < now.nanos + (-c.maxAge).toInt
    omega

end Cache

namespace Config

/-- The lengths of time of a configuration, each as it is set: the intervals of
flushes, of the two sweeps and of pings, the greatest age of a tick, the window
of the limiter and the limit of a write. -/
def spans (c : Config) : List Span := [
  ⟨c.ingestion.flushIntervalMs, 1000000, 1⟩,
  .ofSeconds c.cache.sweepIntervalSec,
  .ofSeconds c.rateLimit.sweepIntervalSec,
  ⟨c.server.pongWaitSec, 9000000000, 10⟩,
  .ofSeconds c.cache.maxAgeSec,
  .ofSeconds c.rateLimit.windowSec,
  .ofSeconds c.server.writeWaitSec]

/-- The same lengths as the components are given them. -/
def durations (c : Config) : List Int64 := [
  Ingest.interval c.ingestion.flushIntervalMs,
  App.seconds c.cache.sweepIntervalSec,
  App.seconds c.rateLimit.sweepIntervalSec,
  Session.pingPeriod (App.seconds c.server.pongWaitSec),
  App.seconds c.cache.maxAgeSec,
  App.seconds c.rateLimit.windowSec,
  App.seconds c.server.writeWaitSec]

theorem durations_eq (c : Config) : c.durations = c.spans.map Span.nanos := by
  have hping : Session.pingPeriod (App.seconds c.server.pongWaitSec) =
      (⟨c.server.pongWaitSec, 9000000000, 10⟩ : Span).nanos := by
    rw [Session.pingPeriod, App.seconds, Int64.mul_assoc]
    rfl
  have hflush : Ingest.interval c.ingestion.flushIntervalMs =
      (⟨c.ingestion.flushIntervalMs, 1000000, 1⟩ : Span).nanos :=
    Int64.div_one.symm
  simp only [spans, List.map_cons, List.map_nil, Span.nanos_ofSeconds,
    ← hping, ← hflush]
  rfl

theorem proper_seconds {n : Int64} (h : 1 ≤ n) : (Span.ofSeconds n).Proper :=
  ⟨h, Nat.one_pos, (by decide : 1 ≤ 1000000000),
    (by decide : 1000000000 < 2 ^ 63)⟩

theorem proper_spans {c : Config} (h : c.Sound) : ∀ s ∈ c.spans, s.Proper := by
  simp only [spans, List.forall_mem_cons, List.not_mem_nil, false_implies,
    implies_true, and_true]
  refine ⟨⟨h.flushIntervalMs, Nat.one_pos, (by decide : 1 ≤ 1000000),
    (by decide : 1000000 < 2 ^ 63)⟩, proper_seconds h.cacheSweepIntervalSec,
    proper_seconds h.limiterSweepIntervalSec,
    ⟨h.pongWaitSec, (by decide : 0 < 10), (by decide : 10 ≤ 9000000000),
    (by decide : 9000000000 < 2 ^ 63)⟩, proper_seconds h.maxAgeSec,
    proper_seconds h.windowSec, proper_seconds h.writeWaitSec⟩

/-- The lengths of time of checked settings are all positive exactly if none of
their products wraps to a number that is not, and they are the lengths that
were set exactly if none wraps at all. A limiter whose window has wrapped below
zero admits everyone, and a cache whose greatest age has forgets everything. -/
theorem durations_positive_iff {c valid : Config} (h : c.validate = .ok valid)
    (now : Instant) (storages : List Bytes) :
    ((∀ d ∈ valid.durations, 0 < d) ↔
      ∀ s ∈ valid.spans, s.divisor ≤ s.product % 2 ^ 64 ∧
        s.product % 2 ^ 64 < 2 ^ 63) ∧
    (valid.durations.map Int64.toInt = valid.spans.map Span.exact ↔
      ∀ s ∈ valid.spans, s.product < 2 ^ 63) ∧
    ((App.assemble valid now storages).hub.limiter.AdmitsAll ↔
      2 ^ 63 < (Span.ofSeconds valid.rateLimit.windowSec).product % 2 ^ 64) ∧
    ((App.assemble valid now storages).cache.ForgetsAll ↔
      2 ^ 63 < (Span.ofSeconds valid.cache.maxAgeSec).product % 2 ^ 64) := by
  have hsound := sound_of_validate h
  have hproper := proper_spans hsound
  refine ⟨?_, ?_, ?_, ?_⟩
  · rw [durations_eq, List.forall_mem_map]
    exact forall₂_congr fun s hs => Span.nanos_pos_iff (hproper s hs)
  · rw [durations_eq, List.map_map, List.map_inj_left]
    exact forall₂_congr fun s hs => Span.nanos_exact_iff (hproper s hs)
  · have hmax : 1 ≤ (App.assemble valid now storages).hub.limiter.max :=
      hsound.maxRequests
    have hwindow : (App.assemble valid now storages).hub.limiter.window =
        (Span.ofSeconds valid.rateLimit.windowSec).nanos :=
      (Span.nanos_ofSeconds _).symm
    have hneg := Span.neg_nanos_pos_iff (proper_seconds hsound.windowSec) rfl
    rw [← hwindow] at hneg
    exact (Limiter.admitsAll_iff hmax).trans hneg
  · have hage : (App.assemble valid now storages).cache.maxAge =
        (Span.ofSeconds valid.cache.maxAgeSec).nanos :=
      (Span.nanos_ofSeconds _).symm
    have hneg := Span.neg_nanos_pos_iff (proper_seconds hsound.maxAgeSec) rfl
    rw [← hage] at hneg
    exact Cache.forgetsAll_iff.trans hneg

/-- A window of more than five hundred years and one admission in it. -/
def longWindow : Config :=
  { rateLimit := { windowSec := 18446744073, maxRequests := 1 } }

theorem validate_longWindow : longWindow.validate = .ok longWindow := rfl

theorem admitsAll_of_longWindow :
    longWindow.validate = .ok longWindow ∧
      (¬ ∀ d ∈ longWindow.durations, 0 < d) ∧
      (App.assemble longWindow ⟨0⟩ []).hub.limiter.AdmitsAll ∧
      ¬ (App.assemble longWindow ⟨0⟩ []).cache.ForgetsAll := by
  obtain ⟨hpositive, -, hadmits, hforgets⟩ :=
    durations_positive_iff validate_longWindow ⟨0⟩ []
  refine ⟨validate_longWindow, ?_, hadmits.mpr (by decide), ?_⟩
  · rw [hpositive]
    decide
  · rw [hforgets]
    decide

/-- Not all lengths of time of checked settings are positive. -/
theorem not_always_positive :
    ¬ ∀ c valid : Config, c.validate = .ok valid →
      ∀ d ∈ valid.durations, 0 < d := by
  intro hall
  have hwindow :=
    hall longWindow longWindow validate_longWindow (App.seconds 18446744073)
  revert hwindow
  decide

end Config
end TickRelay
