/-!
# Runs of a system

Several actors change one state, each in steps that happen at once. A run is a
list of events in the order in which they happen, whoever makes them, so every
interleaving is a run.

**Results.** `run_append` cuts a run in two, and `run_rest` says what is left
of it after the first part. `run_invariant` carries a property from the start
of a run to its end when every single event keeps it. `run_history` does so for
a property that also speaks of the events so far.
-/

namespace TickRelay
namespace Runs

variable {σ ε : Type} {step : σ → ε → Option σ}

/-- The state after some events. There is none if one of them cannot happen
where it stands. -/
def run (step : σ → ε → Option σ) : σ → List ε → Option σ
  | s, [] => some s
  | s, e :: es => (step s e).bind fun t => run step t es

@[simp] theorem run_nil (s : σ) : run step s [] = some s := rfl

/-- The first event of a run, and the run that is left. -/
theorem run_cons {s u : σ} {e : ε} {es : List ε} :
    run step s (e :: es) = some u ↔
      ∃ t, step s e = some t ∧ run step t es = some u := by
  simp only [run, Option.bind_eq_some_iff]

/-- A run of two parts passes through the state between them. -/
theorem run_append {s u : σ} {es fs : List ε} :
    run step s (es ++ fs) = some u ↔
      ∃ t, run step s es = some t ∧ run step t fs = some u := by
  induction es generalizing s with
  | nil => simp
  | cons e es ih =>
      rw [List.cons_append, run_cons]
      constructor
      · rintro ⟨t, he, ht⟩
        obtain ⟨m, hm, hu⟩ := ih.mp ht
        exact ⟨m, run_cons.mpr ⟨t, he, hm⟩, hu⟩
      · rintro ⟨m, hm, hu⟩
        obtain ⟨t, he, ht⟩ := run_cons.mp hm
        exact ⟨t, he, ih.mpr ⟨m, ht, hu⟩⟩

/-- What is left of a run after its first part. -/
theorem run_rest {s t u : σ} {es fs : List ε} (ht : run step s es = some t)
    (h : run step s (es ++ fs) = some u) : run step t fs = some u := by
  obtain ⟨t', ht', hrest⟩ := run_append.mp h
  rwa [Option.some.inj (ht'.symm.trans ht)] at hrest

/-- What every event keeps holds at the end of a run if it holds at the
start. -/
theorem run_invariant {P : σ → Prop}
    (hstep : ∀ s e t, P s → step s e = some t → P t)
    {s t : σ} {es : List ε} (hs : P s) (h : run step s es = some t) : P t := by
  induction es generalizing s with
  | nil => cases h; exact hs
  | cons e es ih =>
      obtain ⟨m, he, hm⟩ := run_cons.mp h
      exact ih (hstep s e m hs he) hm

/-- A property of the events so far and of the state holds at the end of a run
if it holds at the start and every event that can happen there keeps it. -/
theorem run_history {s : σ} {P : List ε → σ → Prop} (hstart : P [] s)
    (hstep : ∀ es t e u, run step s es = some t → P es t → step t e = some u →
      P (es ++ [e]) u)
    {es : List ε} {t : σ} (h : run step s es = some t) : P es t := by
  -- The induction is on the events that are left; those before them have led
  -- from `s` to `m`.
  have hrest : ∀ (fs : List ε) (past : List ε) (m : σ),
      run step s past = some m → P past m → run step m fs = some t →
      P (past ++ fs) t := by
    intro fs
    induction fs with
    | nil =>
        intro past m _ hpast hend
        cases hend
        rwa [List.append_nil]
    | cons e fs ih =>
        intro past m hm hpast hfs
        obtain ⟨u, he, hu⟩ := run_cons.mp hfs
        have hnext : run step s (past ++ [e]) = some u :=
          run_append.mpr ⟨m, hm, run_cons.mpr ⟨u, he, rfl⟩⟩
        have hend := ih (past ++ [e]) u hnext (hstep past m e u hm hpast he) hu
        rwa [List.append_assoc] at hend
  exact hrest es [] s rfl hstart h

end Runs
end TickRelay
