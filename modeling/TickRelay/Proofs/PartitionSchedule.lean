import TickRelay.Proofs.PartitionTable
import Mathlib.Data.List.Induction

/-!
# Monthly partitions in the course of time

`ensureSchema` is called at some instants, one after the other, on a table that
starts without partitions. Each call splits off the month of its instant and
the month of the instant one month later. One month later is the next month
only when that month has the day; from the last days of a longer month it is
the month after the next one.

**Results.** `accounts_of_order` says which months are split off after a
history of calls. A call fails exactly if its month was skipped:
`schema_months_and_order`.
-/

namespace TickRelay
namespace Storage
namespace Mysql

open Date (daysOfMonth)

/-- The table after calls at some instants. -/
def tableAfter (limitSec : Int64) (past : List Instant) : Handle Partitions :=
  past.foldl (fun h t => (ensureSchema partitioned limitSec h t).1) (table [])

/-- The months that are split off after calls at some instants. -/
def monthsAfter (past : List Instant) : List Int :=
  past.foldl (fun months t =>
    (ensureMonths months [t.month, t.addMonth.month]).1) []

theorem tableAfter_eq {limitSec : Int64} (hlimit : isOver limitSec = false)
    (past : List Instant) :
    tableAfter limitSec past = table (monthsAfter past) := by
  induction past using List.reverseRecOn with
  | nil => rfl
  | append_singleton past t ih =>
      obtain ⟨result, heq, -⟩ := ensureSchema_eq hlimit (monthsAfter past) t
      unfold tableAfter monthsAfter at *
      rw [List.foldl_append, List.foldl_append, ih]
      simp only [List.foldl_cons, List.foldl_nil, heq]

section Months

variable {months months' : List Int} {j k : Int}

theorem splitOff_isSome :
    (splitOff months k).isSome = true ↔ k ∈ months ∨ ∀ j ∈ months, j < k := by
  unfold splitOff
  by_cases hmem : k ∈ months
  · simp [hmem]
  · simp [hmem]

theorem mem_splitOff (h : splitOff months k = some months') :
    j ∈ months' ↔ j ∈ months ∨ j = k := by
  unfold splitOff at h
  split at h
  · rename_i hmem
    cases h
    have hk : k ∈ months := by simpa using hmem
    constructor
    · exact Or.inl
    · rintro (hj | rfl)
      · exact hj
      · exact hk
  · split at h
    · cases h
      simp
    · cases h

end Months

/-- Month `k` was passed over: calls were made in the month before it, all of
them on days that month `k` does not have. -/
def Skipped (past : List Instant) (k : Int) : Prop :=
  (∃ t ∈ past, t.month + 1 = k) ∧ ∀ t ∈ past, t.month + 1 = k →
    daysOfMonth k < t.day

/-- The months that are split off after a history of calls. -/
structure Accounts (past : List Instant) (months : List Int) : Prop where
  origin : ∀ k ∈ months, ∃ t ∈ past, t.month = k ∨ t.addMonth.month = k
  ahead : ∀ t ∈ past, t.addMonth.month ∈ months
  own : ∀ t ∈ past, ¬ Skipped past t.month → t.month ∈ months
  skipped : ∀ k, Skipped past k → k ∉ months

/-- Where one month later leads to. -/
theorem addMonth_cases (t : Instant) :
    t.addMonth.month = t.month + 1 ∧ t.day ≤ daysOfMonth (t.month + 1) ∨
      t.addMonth.month = t.month + 2 ∧ daysOfMonth (t.month + 1) < t.day := by
  rw [t.month_addMonth]
  split
  · rename_i hday
    exact Or.inl ⟨rfl, hday⟩
  · rename_i hday
    exact Or.inr ⟨rfl, Nat.lt_of_not_le hday⟩

section Call

variable {past : List Instant} {months months' : List Int} {now : Instant}
  (h : Accounts past months) (hpast : ∀ t ∈ past, t.nanos ≤ now.nanos)

include h

theorem Accounts.refused (hskipped : Skipped past now.month) :
    splitOff months now.month = none := by
  obtain ⟨⟨t, ht, hbefore⟩, hdays⟩ := hskipped
  have hlong := hdays t ht hbefore
  have hahead := h.ahead t ht
  rw [← Option.not_isSome_iff_eq_none, splitOff_isSome]
  rintro (hmem | hall)
  · exact h.skipped _ ⟨⟨t, ht, hbefore⟩, hdays⟩ hmem
  · have hlt := hall _ hahead
    rcases addMonth_cases t with ⟨-, hday⟩ | ⟨heq, -⟩
    · rw [hbefore] at hday
      omega
    · omega

include hpast

/-- What was split off before is not after the month of the call, unless that
month was skipped. -/
theorem Accounts.accepted (hskipped : ¬ Skipped past now.month) :
    (splitOff months now.month).isSome = true := by
  rw [splitOff_isSome]
  by_contra hnot
  rw [not_or] at hnot
  obtain ⟨hmissing, hlate⟩ := hnot
  apply hlate
  intro j hj
  obtain ⟨t, ht, hjt⟩ := h.origin j hj
  have hmonth := Instant.month_mono (hpast t ht)
  have hne : j ≠ now.month := fun heq => hmissing (heq ▸ hj)
  rcases hjt with rfl | rfl
  · omega
  · -- A month after the one of this call is there only because of calls in the
    -- month before it.
    by_cases hsame : t.month = now.month
    · exact absurd (h.own t ht (hsame ▸ hskipped)) (hsame ▸ hmissing)
    · by_cases hbefore : t.month + 1 = now.month
      · exfalso
        apply hskipped
        refine ⟨⟨t, ht, hbefore⟩, fun u hu hubefore => ?_⟩
        rcases addMonth_cases u with ⟨heq, -⟩ | ⟨-, hday⟩
        · have hthere := h.ahead u hu
          rw [heq, hubefore] at hthere
          exact absurd hthere hmissing
        · rw [hubefore] at hday
          exact hday
      · rcases addMonth_cases t with ⟨heq, -⟩ | ⟨heq, -⟩
        · omega
        · omega

/-- The second split of a call is never refused. -/
theorem Accounts.accepted_ahead
    (hsplit : splitOff months now.month = some months') :
    (splitOff months' now.addMonth.month).isSome = true := by
  have hnow := addMonth_cases now
  rw [splitOff_isSome]
  by_contra hnot
  rw [not_or] at hnot
  obtain ⟨hmissing, hlate⟩ := hnot
  apply hlate
  intro j hj
  have hne : j ≠ now.addMonth.month := fun heq => hmissing (heq ▸ hj)
  rcases (mem_splitOff hsplit).mp hj with hold | rfl
  · obtain ⟨t, ht, hjt⟩ := h.origin j hold
    have hmonth := Instant.month_mono (hpast t ht)
    have ht' := addMonth_cases t
    by_cases hsame : t.month = now.month
    · -- In one month the days go on, so an earlier call did not look further
      -- ahead.
      have hday := Instant.day_mono (hpast t ht) hsame
      rw [hsame] at ht'
      omega
    · omega
  · omega

end Call

/-- A month that lacks a day of the month before it is followed by one that has
all days. -/
theorem day_le_after_skip {t : Instant} (h : daysOfMonth (t.month + 1) < t.day)
    (u : Instant) : u.day ≤ daysOfMonth (t.month + 2) := by
  have ht := t.day_le
  have hu := u.day_le
  have hbound := Date.daysOfMonth_between u.month
  have hlong := Date.daysOfMonth_after_short (k := t.month) (by omega)
  omega

/-- Only the month after a call may be skipped because of it. -/
theorem skipped_concat {past : List Instant} {now : Instant} {k : Int}
    (hk : k ≠ now.month + 1) : Skipped (past ++ [now]) k ↔ Skipped past k := by
  have hmem : ∀ t, t.month + 1 = k → t ∈ past ++ [now] → t ∈ past := by
    intro t heq ht
    rcases List.mem_append.mp ht with ht | ht
    · exact ht
    · rw [List.mem_singleton.mp ht] at heq
      exact absurd heq.symm hk
  constructor
  · rintro ⟨⟨t, ht, heq⟩, hall⟩
    exact ⟨⟨t, hmem t heq ht, heq⟩,
      fun u hu => hall u (List.mem_append_left _ hu)⟩
  · rintro ⟨⟨t, ht, heq⟩, hall⟩
    exact ⟨⟨t, List.mem_append_left _ ht, heq⟩,
      fun u hu hueq => hall u (hmem u hueq hu) hueq⟩

section Step

variable {past : List Instant} {months months' : List Int} {now : Instant}
  (h : Accounts past months) (hpast : ∀ t ∈ past, t.nanos ≤ now.nanos)

include h hpast

theorem Accounts.own_kept {t : Instant} (ht : t ∈ past)
    (hnot : ¬ Skipped (past ++ [now]) t.month) : t.month ∈ months := by
  have hmonth := Instant.month_mono (hpast t ht)
  exact h.own t ht fun hskipped =>
    hnot ((skipped_concat (by omega)).mpr hskipped)

/-- After a refused call the months are as before. The month ahead is there
already. -/
theorem Accounts.after_refusal (hskipped : Skipped past now.month) :
    Accounts (past ++ [now]) months := by
  obtain ⟨⟨t, ht, hbefore⟩, hdays⟩ := hskipped
  have hlong := hdays t ht hbefore
  rw [← hbefore] at hlong
  have hroom := day_le_after_skip hlong now
  have htwo : t.month + 2 = now.month + 1 := by omega
  rw [htwo] at hroom
  have hnow : now.addMonth.month = now.month + 1 := by
    rcases addMonth_cases now with ⟨heq, -⟩ | ⟨-, hday⟩
    · exact heq
    · omega
  have hthere : now.month + 1 ∈ months := by
    have hahead := h.ahead t ht
    rcases addMonth_cases t with ⟨-, hday⟩ | ⟨heq, -⟩
    · omega
    · rw [heq, htwo] at hahead
      exact hahead
  refine ⟨fun k hk => ?_, fun u hu => ?_, fun u hu hnot => ?_, fun k hk => ?_⟩
  · obtain ⟨u, hu, hku⟩ := h.origin k hk
    exact ⟨u, List.mem_append_left _ hu, hku⟩
  · rcases List.mem_append.mp hu with hu | hu
    · exact h.ahead u hu
    · rw [List.mem_singleton.mp hu, hnow]
      exact hthere
  · rcases List.mem_append.mp hu with hu | hu
    · exact h.own_kept hpast hu hnot
    · rw [List.mem_singleton.mp hu] at hnot
      exact absurd
        ((skipped_concat (by omega)).mpr ⟨⟨t, ht, hbefore⟩, hdays⟩) hnot
  · by_cases hk' : k = now.month + 1
    · have hlate := hk.2 now (by simp) hk'.symm
      rw [hk'] at hlate
      omega
    · exact h.skipped k ((skipped_concat hk').mp hk)

/-- After an accepted call its two months are there, and none that is
skipped. -/
theorem Accounts.after_split (hskipped : ¬ Skipped past now.month)
    (hmem : ∀ k, k ∈ months' ↔ k ∈ months ∨ k = now.month ∨
      k = now.addMonth.month) : Accounts (past ++ [now]) months' := by
  refine ⟨fun k hk => ?_, fun u hu => ?_, fun u hu hnot => ?_,
    fun k hk hthere => ?_⟩
  · rcases (hmem k).mp hk with hk | rfl | rfl
    · obtain ⟨u, hu, hku⟩ := h.origin k hk
      exact ⟨u, List.mem_append_left _ hu, hku⟩
    · exact ⟨now, by simp, Or.inl rfl⟩
    · exact ⟨now, by simp, Or.inr rfl⟩
  · rcases List.mem_append.mp hu with hu | hu
    · exact (hmem _).mpr (Or.inl (h.ahead u hu))
    · rw [List.mem_singleton.mp hu]
      exact (hmem _).mpr (Or.inr (Or.inr rfl))
  · rcases List.mem_append.mp hu with hu | hu
    · exact (hmem _).mpr (Or.inl (h.own_kept hpast hu hnot))
    · rw [List.mem_singleton.mp hu]
      exact (hmem _).mpr (Or.inr (Or.inl rfl))
  · have hnow := addMonth_cases now
    by_cases hk' : k = now.month + 1
    · -- The call itself passes over this month, so none before it can have
      -- split it off.
      subst hk'
      have hlate := hk.2 now (by simp) rfl
      rcases (hmem _).mp hthere with hold | heq | heq
      · obtain ⟨t, ht, horigin⟩ := h.origin _ hold
        have hmonth := Instant.month_mono (hpast t ht)
        have ht' := addMonth_cases t
        by_cases hsame : t.month = now.month
        · refine h.skipped _ ⟨⟨t, ht, by omega⟩, fun u hu => ?_⟩ hold
          exact hk.2 u (List.mem_append_left _ hu)
        · have hfar : t.month + 2 = now.month + 1 ∧
              daysOfMonth (t.month + 1) < t.day := by omega
          have hroom := day_le_after_skip hfar.2 now
          rw [hfar.1] at hroom
          omega
      · omega
      · omega
    · have hold := (skipped_concat hk').mp hk
      rcases (hmem k).mp hthere with hmonths | rfl | rfl
      · exact h.skipped k hold hmonths
      · exact hskipped hold
      · obtain ⟨⟨t, ht, heq⟩, -⟩ := hold
        have hmonth := Instant.month_mono (hpast t ht)
        omega

/-- One call: it succeeds unless its month was skipped, and the accounts go
on. -/
theorem Accounts.step :
    ((ensureMonths months [now.month, now.addMonth.month]).2 = true ↔
        ¬ Skipped past now.month) ∧
      Accounts (past ++ [now])
          (ensureMonths months [now.month, now.addMonth.month]).1 := by
  by_cases hskipped : Skipped past now.month
  · simp only [ensureMonths, h.refused hskipped]
    exact ⟨by simp [hskipped], h.after_refusal hpast hskipped⟩
  · obtain ⟨first, hfirst⟩ :=
      Option.isSome_iff_exists.mp (h.accepted hpast hskipped)
    obtain ⟨second, hsecond⟩ :=
      Option.isSome_iff_exists.mp (h.accepted_ahead hpast hfirst)
    simp only [ensureMonths, hfirst, hsecond]
    refine ⟨by simp [hskipped], h.after_split hpast hskipped fun k => ?_⟩
    rw [mem_splitOff hsecond, mem_splitOff hfirst, or_assoc]

end Step

theorem accounts_of_order {past : List Instant}
    (hpast : past.Pairwise (·.nanos ≤ ·.nanos)) :
    Accounts past (monthsAfter past) := by
  induction past using List.reverseRecOn with
  | nil =>
      exact ⟨by simp [monthsAfter], by simp, by simp, by simp [monthsAfter]⟩
  | append_singleton past now ih =>
      rw [List.pairwise_append] at hpast
      have hbefore : ∀ t ∈ past, t.nanos ≤ now.nanos :=
        fun t ht => hpast.2.2 t ht now (by simp)
      have hstep := ((ih hpast.1).step hbefore).2
      unfold monthsAfter at hstep ⊢
      rw [List.foldl_append]
      exact hstep

/-- The partitions that are ensured at an instant. -/
theorem schemaMonths_partitions (now : Instant) :
    (schemaMonths now).map (fun z => (partitionName z, partitionBound z)) =
      [monthPartition now.month,
        monthPartition (if now.day ≤ daysOfMonth (now.month + 1)
          then now.month + 1 else now.month + 2)] := by
  simp only [schemaMonths, List.map_cons, List.map_nil, partitionName_utc,
    partitionBound_utc, monthPartition, ← now.month_addMonth]

/-- The partitions of a call are those of its month and of the next one, or the
one after it when the next month lacks the day. In any history of calls, a call
finds its splits in order exactly if its month was not skipped. -/
theorem schema_months_and_order {limitSec : Int64}
    (hlimit : isOver limitSec = false) {past : List Instant} {now : Instant}
    (horder : (past ++ [now]).Pairwise (·.nanos ≤ ·.nanos)) :
    (schemaMonths now).map (fun z => (partitionName z, partitionBound z)) =
        [monthPartition now.month,
          monthPartition (if now.day ≤ daysOfMonth (now.month + 1)
            then now.month + 1 else now.month + 2)] ∧
      ((ensureSchema partitioned limitSec (tableAfter limitSec past) now).2 =
          .ok () ↔
        ¬ Skipped past now.month) := by
  refine ⟨schemaMonths_partitions now, ?_⟩
  rw [List.pairwise_append] at horder
  have hbefore : ∀ t ∈ past, t.nanos ≤ now.nanos :=
    fun t ht => horder.2.2 t ht now (by simp)
  obtain ⟨result, heq, hok⟩ := ensureSchema_eq hlimit (monthsAfter past) now
  rw [tableAfter_eq hlimit, heq, hok]
  exact ((accounts_of_order horder.1).step hbefore).1

/-- 2024-01-31T12:00:00Z. -/
def lateJanuary : Instant := ⟨1706702400000000000⟩

/-- 2024-02-01T12:00:00Z. -/
def earlyFebruary : Instant := ⟨1706788800000000000⟩

/-- A call on the last day of January passes over February, and the call of the
next day fails. -/
theorem schema_months_and_order_of_lateJanuary :
    Skipped [lateJanuary] earlyFebruary.month ∧
      (ensureSchema partitioned 0 (tableAfter 0 [lateJanuary])
          earlyFebruary).2 ≠ .ok () := by
  have hskipped : Skipped [lateJanuary] earlyFebruary.month := by
    refine ⟨⟨lateJanuary, List.mem_singleton_self _, by decide +kernel⟩,
      fun t ht _ => ?_⟩
    rw [List.mem_singleton.mp ht]
    decide +kernel
  have horder :
      ([lateJanuary] ++ [earlyFebruary]).Pairwise (·.nanos ≤ ·.nanos) := by
    decide +kernel
  refine ⟨hskipped, fun hok => ?_⟩
  exact (schema_months_and_order (by decide) horder).2.mp hok hskipped

/-- So the partitions of a call are not always those of two months in a row,
and calls are not always in order. -/
theorem not_contiguous_nor_in_order :
    (¬ ∀ now : Instant,
        (schemaMonths now).map (fun z => (partitionName z, partitionBound z)) =
          [monthPartition now.month, monthPartition (now.month + 1)]) ∧
      ¬ ∀ (past : List Instant) (now : Instant),
        (past ++ [now]).Pairwise (·.nanos ≤ ·.nanos) →
        (ensureSchema partitioned 0 (tableAfter 0 past) now).2 = .ok () := by
  constructor
  · intro hcontiguous
    have hjanuary := hcontiguous lateJanuary
    revert hjanuary
    decide +kernel
  · intro hordered
    have hok := hordered [lateJanuary] earlyFebruary (by decide +kernel)
    have hlimit : isOver 0 = false := by decide
    obtain ⟨result, heq, hresult⟩ :=
      ensureSchema_eq hlimit (monthsAfter [lateJanuary]) earlyFebruary
    rw [tableAfter_eq hlimit, heq, hresult] at hok
    revert hok
    decide +kernel

end Mysql
end Storage
end TickRelay
