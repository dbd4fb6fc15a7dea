import TickRelay.Proofs.FeedLifecycle
import Mathlib.Data.List.Basic

/-!
# Stopping the feed is final

The run loop registers its cancel function before it looks at the stopped flag,
and whoever stops the client sets the flag before looking at the cancel
function. So one of the two sees the other: the caller finds the function and
cancels, or the loop finds the flag and returns.

A wait of the loop may be over for two reasons at once: what it waits for has
happened, and the context is canceled. Then either may be heeded, and the loop
goes on to one more session, whose context is canceled, or returns at once.

**Results.** `Halted.move`: once the client is stopped, and the loop is
canceled or has still to look at the flag, this stays so. `effective_of_run`:
a caller that has returned has brought that about. `effort_of_move`: from then
on every step of the loop brings it closer to its end, and `chances_of_move`:
it starts one more session at most. `stopping_is_final` puts this together;
`not_always_heeded` is a loop that does start that session.
-/

namespace TickRelay
namespace Feed
namespace Lifecycle

variable {m m' : Lifecycle} {e : Event} {configured : List Bytes}
  {retry : Config.Retry}

/-- The client is stopped, and the loop is canceled or has still to look at the
stopped flag. -/
structure Halted (m : Lifecycle) : Prop where
  stopped : m.client.isStopped = true
  canceled : m.place.isPast = true → m.canceled = true

theorem stopped_of_move (hmove : Move m e m') (h : m.client.isStopped = true) :
    m'.client.isStopped = true := by
  cases hmove with
  | stopped => rfl
  | _ => exact h

theorem Halted.canceled_at {p : Place} (h : m.Halted) (hplace : m.place = p)
    (hpast : p.isPast = true) : m.canceled = true :=
  h.canceled (hplace ▸ hpast)

theorem Halted.move (h : m.Halted) (hmove : Move m e m') : m'.Halted := by
  refine ⟨stopped_of_move hmove h.stopped, ?_⟩
  cases hmove with
  | starts =>
      intro hpast
      cases hpast
  | refuses | exits | givesUp => exact fun _ => rfl
  | waits hplace hstopped =>
      exact absurd h.stopped (Bool.eq_false_iff.mp hstopped)
  | stores hplace | flags hplace | fails hplace | unflags hplace
  | forgets hplace | stops hplace | loses hplace | connects hplace
  | misses hplace | pauses hplace =>
      exact fun _ => h.canceled_at hplace rfl
  | proceeds hplace | heeds hplace =>
      exact fun _ => h.canceled (Place.isPast_of_isWait hplace)
  | wanted | stopped | looks | closes | watches | breaks => exact h.canceled
  | cancels | aborts =>
      intro hpast
      show (m.canceled || _) = true
      rw [h.canceled hpast, Bool.true_or]

/-- What a caller has brought about. -/
def Achieved (m : Lifecycle) : Halt → Prop
  | .flagged | .looked true _ => m.client.isStopped = true
  | .looked false _ | .canceled _ | .returned => m.Halted

theorem Achieved.move {c : Halt} (h : m.Achieved c) (hmove : Move m e m') :
    m'.Achieved c := by
  cases c with
  | flagged => exact stopped_of_move hmove h
  | looked registered socket =>
      cases registered with
      | true => exact stopped_of_move hmove h
      | false => exact Halted.move h hmove
  | canceled | returned => exact Halted.move h hmove

theorem stopped_of_achieved {c : Halt} (h : m.Achieved c) :
    m.client.isStopped = true := by
  cases c with
  | flagged => exact h
  | looked registered socket =>
      cases registered with
      | true => exact h
      | false => exact Halted.stopped h
  | canceled | returned => exact Halted.stopped h

/-- Every caller has brought about what its place says. -/
def Effective (m : Lifecycle) : Prop := ∀ c ∈ m.calls, m.Achieved c

/-- When one caller takes a step, the others are where they were. -/
theorem effective_of_turn {calls : List Halt} {i : Nat} {c : Halt}
    (hall : ∀ d ∈ calls, m.Achieved d) (hcalls : m.calls = calls.set i c)
    (hc : m.Achieved c) : m.Effective := by
  intro d hd
  rw [hcalls] at hd
  rcases List.mem_or_eq_of_mem_set hd with hold | rfl
  · exact hall d hold
  · exact hc

theorem Effective.move (h : m.Effective) (hmove : Move m e m') :
    m'.Effective := by
  have hall : ∀ c ∈ m.calls, m'.Achieved c := fun c hc => (h c hc).move hmove
  cases hmove with
  | stopped =>
      intro c hc
      rcases List.mem_append.mp hc with hold | hnew
      · exact hall c hold
      · rw [List.mem_singleton.mp hnew]
        exact rfl
  | looks hcall =>
      have hstopped : m.client.isStopped = true :=
        h _ (List.mem_of_getElem? hcall)
      refine effective_of_turn hall rfl ?_
      cases hregistered : m.isRegistered with
      | true => exact hstopped
      | false =>
          -- The loop has not started, and will see the flag.
          have hidle : m.place = .idle := by
            simpa [isRegistered] using hregistered
          refine ⟨hstopped, fun hpast => ?_⟩
          have hfalse : m.place.isPast = true := hpast
          rw [hidle] at hfalse
          cases hfalse
  | @cancels i registered socket hcall =>
      have hachieved := h _ (List.mem_of_getElem? hcall)
      have hstopped := stopped_of_achieved hachieved
      refine effective_of_turn hall rfl ?_
      cases registered with
      | true => exact ⟨hstopped, fun _ => Bool.or_true _⟩
      | false => exact Halted.move hachieved (.cancels hcall)
  | closes hcall =>
      have hachieved := h _ (List.mem_of_getElem? hcall)
      exact effective_of_turn hall rfl (Halted.move hachieved (.closes hcall))
  | _ => exact hall

theorem effective_of_run {es : List Event}
    (h : Runs.run step (start configured retry) es = some m) : m.Effective :=
  Runs.run_invariant (fun _ _ _ hm hstep => hm.move (move_of_step hstep))
    (fun _ hc => absurd hc List.not_mem_nil) h

theorem Halted.run {es : List Event} (h : m.Halted)
    (hrun : Runs.run step m es = some m') : m'.Halted :=
  Runs.run_invariant
    (fun _ _ _ hm hstep => hm.move (move_of_step hstep)) h hrun

/-- How many steps the loop takes at most until it returns, once it is
canceled. -/
def effort : Place → Nat
  | .idle => 11
  | .registered | .lost _ => 10
  | .waiting | .pausing _ => 9
  | .dialing _ => 8
  | .dialed _ _ => 7
  | .stored _ _ => 6
  | .reading _ _ => 5
  | .failed _ _ => 4
  | .unflagged _ _ => 3
  | .ended _ => 2
  | .leaving => 1
  | .returned _ => 0

theorem effort_le (p : Place) : effort p ≤ 11 := by
  cases p <;> simp [effort]

theorem effort_of_isWait {p : Place} (h : p.isWait = true) : effort p = 9 := by
  cases p with
  | waiting | pausing => rfl
  | _ => cases h

theorem effort_of_move (h : m.Halted) (hmove : Move m e m') :
    (if e.isOwn then 1 else 0) + effort m'.place ≤ effort m.place := by
  cases hmove with
  | loses hplace hcanceled =>
      -- The context is canceled, so the check after a session does not let the
      -- loop go on.
      exact absurd (h.canceled_at hplace rfl) (Bool.eq_false_iff.mp hcanceled)
  | proceeds hplace | heeds hplace =>
      rw [effort_of_isWait hplace]
      simp [Event.isOwn, effort]
  | starts hplace | refuses hplace | waits hplace | stores hplace
  | flags hplace | fails hplace | unflags hplace | forgets hplace
  | stops hplace | exits hplace | connects hplace | misses hplace
  | givesUp hplace | pauses hplace =>
      rw [hplace]
      simp [Event.isOwn, effort, leave]
  | wanted | stopped | looks | cancels | closes | aborts | watches | breaks =>
      exact Nat.le_of_eq (Nat.zero_add _)

/-- How many more sessions the loop may start, once it is canceled. -/
def chances (p : Place) : Nat := if 9 ≤ effort p then 1 else 0

theorem chances_le (p : Place) : chances p ≤ 1 := by
  unfold chances
  split
  · exact Nat.le_refl 1
  · exact Nat.zero_le 1

theorem chances_of_move (h : m.Halted) (hmove : Move m e m') :
    (if e = .proceed then 1 else 0) + chances m'.place ≤ chances m.place := by
  have heffort := effort_of_move h hmove
  by_cases hproceed : e = .proceed
  · subst hproceed
    cases hmove with
    | proceeds hplace =>
        rw [chances, chances, effort_of_isWait hplace]
        simp [effort]
  · rw [if_neg hproceed, Nat.zero_add]
    unfold chances
    split
    · exact Nat.le_of_eq (if_pos (by omega)).symm
    · exact Nat.zero_le _

/-- What no move of a halted loop increases bounds how many events there are
that decrease it. -/
theorem countP_of_run (p : Event → Bool) (left : Place → Nat)
    (hmoves : ∀ {m e m'}, Halted m → Move m e m' →
      (if p e then 1 else 0) + left m'.place ≤ left m.place)
    {es : List Event} (h : m.Halted) (hrun : Runs.run step m es = some m') :
    es.countP p + left m'.place ≤ left m.place := by
  induction es generalizing m with
  | nil =>
      cases hrun
      exact Nat.le_of_eq (Nat.zero_add _)
  | cons e es ih =>
      obtain ⟨t, hstep, hrest⟩ := Runs.run_cons.mp hrun
      have hmove := move_of_step hstep
      have hfirst := hmoves h hmove
      have hothers := ih (h.move hmove) hrest
      rw [List.countP_cons]
      omega

/-- The steps and the sessions that are left. -/
theorem Halted.bounded {es : List Event} (h : m.Halted)
    (hrun : Runs.run step m es = some m') :
    es.countP Event.isOwn ≤ 11 ∧ es.count .proceed ≤ 1 := by
  have hsteps := countP_of_run Event.isOwn effort effort_of_move h hrun
  have hsessions := countP_of_run (· == .proceed) chances
    (fun hm hmove => by simpa using chances_of_move hm hmove) h hrun
  have hmost := effort_le m.place
  have hfew := chances_le m.place
  rw [List.count]
  omega

/-- The loop can come closer to its end by its own steps and those of its
watcher. -/
def Nears (m : Lifecycle) : Prop :=
  ∃ es m', (∀ e ∈ es, e.isOwn = true ∨ e = .watch) ∧
    Runs.run step m es = some m' ∧
    m'.place ≠ .idle ∧ effort m'.place < effort m.place

theorem started_of_move (hmove : Move m e m') (h : m.place ≠ .idle) :
    m'.place ≠ .idle := by
  cases hmove with
  | wanted | stopped | looks | cancels | closes | aborts | watches | breaks =>
      exact h
  | _ => nofun

theorem nears_of_step (h : m.Halted) (hidle : m.place ≠ .idle) (e : Event)
    (hown : e.isOwn = true) (hstep : (m.step e).isSome = true) : m.Nears := by
  obtain ⟨m', hm'⟩ := Option.isSome_iff_exists.mp hstep
  have hmove := move_of_step hm'
  refine ⟨[e], m', ?_, Runs.run_cons.mpr ⟨m', hm', rfl⟩,
    started_of_move hmove hidle, ?_⟩
  · intro d hd
    rw [List.mem_singleton.mp hd]
    exact Or.inl hown
  · have hle := effort_of_move h hmove
    rw [if_pos hown] at hle
    omega

/-- The watcher closes the socket of the session, and then reading fails. -/
theorem nears_of_reading {n k : Nat} (hplace : m.place = .reading n k)
    (hcanceled : m.canceled = true) : m.Nears := by
  refine ⟨[.watch, .advance],
    { m with closed := k :: m.closed, place := .failed n k }, ?_, ?_,
    Place.noConfusion, ?_⟩
  · intro d hd
    rcases List.mem_cons.mp hd with rfl | hd
    · exact Or.inr rfl
    · rw [List.mem_singleton.mp hd]
      exact Or.inl rfl
  · simp [Runs.run, step, advance?, hplace, hcanceled]
  · rw [hplace]
    exact Nat.lt_succ_self 4

theorem Halted.nears (h : m.Halted) (hidle : m.place ≠ .idle)
    (hgoesOn : ∀ f, m.place ≠ .returned f) : m.Nears := by
  cases hplace : m.place with
  | idle => exact absurd hplace hidle
  | returned f => exact absurd hplace (hgoesOn f)
  | registered =>
      exact nears_of_step h hidle .advance rfl
        (by simp [step, advance?, hplace, h.stopped])
  | waiting | pausing =>
      have hcanceled := h.canceled_at hplace rfl
      exact nears_of_step h hidle .heed rfl
        (by simp [step, hplace, Place.isWait, hcanceled])
  | dialing =>
      exact nears_of_step h hidle (.dial false) rfl (by simp [step, hplace])
  | dialed | stored | failed | unflagged | leaving =>
      exact nears_of_step h hidle .advance rfl
        (by simp [step, advance?, hplace])
  | reading => exact nears_of_reading hplace (h.canceled_at hplace rfl)
  | ended =>
      have hcanceled := h.canceled_at hplace rfl
      exact nears_of_step h hidle .advance rfl
        (by simp [step, advance?, hplace, hcanceled])
  | lost n =>
      refine nears_of_step h hidle (.decide 0) rfl ?_
      cases hdecision : Retry.afterSession m.retry n 0 <;>
        simp [step, hplace, hdecision]

/-- A halted loop can always return, by its own steps and those of its
watcher. -/
theorem Halted.exists_return (h : m.Halted) (hidle : m.place ≠ .idle) :
    ∃ es m' f, (∀ e ∈ es, e.isOwn = true ∨ e = .watch) ∧
      Runs.run step m es = some m' ∧
        m'.place = .returned f := by
  -- On the effort that is left.
  induction hn : effort m.place using Nat.strongRecOn generalizing m with
  | ind n ih =>
      by_cases hgoesOn : ∃ f, m.place = .returned f
      · obtain ⟨f, hf⟩ := hgoesOn
        exact ⟨[], m, f, by simp, rfl, hf⟩
      · obtain ⟨es, t, hes, hrun, ht, hless⟩ :=
          h.nears hidle fun f hf => hgoesOn ⟨f, hf⟩
        obtain ⟨fs, m', f, hfs, hrest, hf⟩ :=
          ih _ (hn ▸ hless) (h.run hrun) ht rfl
        refine ⟨es ++ fs, m', f, ?_, Runs.run_append.mpr ⟨t, hrun, hrest⟩, hf⟩
        intro e he
        exact (List.mem_append.mp he).elim (hes e) (hfs e)

/-- The loop has made no decision to give up, and if it has returned, without a
failure. -/
structure Clean (m : Lifecycle) : Prop where
  undecided : ∀ n, m.place ≠ .lost n
  result : ∀ f, m.place = .returned f → f = none

theorem exitFailure_eq_none (h : m.client.isStopped = true) :
    m.runner.exitFailure = none := if_pos h

theorem Clean.move (h : m.Clean) (hm : m.Halted) (hmove : Move m e m') :
    m'.Clean := by
  cases hmove with
  | refuses =>
      refine ⟨nofun, fun f hf => ?_⟩
      cases hf
      rfl
  | exits =>
      refine ⟨nofun, fun f hf => ?_⟩
      cases hf
      exact exitFailure_eq_none hm.stopped
  | loses hplace hcanceled =>
      exact absurd (hm.canceled_at hplace rfl) (Bool.eq_false_iff.mp hcanceled)
  | givesUp hplace | pauses hplace => exact absurd hplace (h.undecided _)
  | wanted | stopped | looks | cancels | closes | aborts | watches | breaks =>
      exact ⟨h.undecided, h.result⟩
  | _ => exact ⟨nofun, nofun⟩

theorem Clean.run {es : List Event} (h : m.Clean) (hm : m.Halted)
    (hrun : Runs.run step m es = some m') : m'.Clean := by
  have hboth : m'.Halted ∧ m'.Clean := by
    refine Runs.run_invariant (P := fun x => Halted x ∧ Clean x) ?_
      ⟨hm, h⟩ hrun
    rintro x e y ⟨hx, hclean⟩ hstep
    exact ⟨hx.move (move_of_step hstep), hclean.move hx (move_of_step hstep)⟩
  exact hboth.2

/-- An event is the only step that the loop can take. -/
def OnlyStep (m : Lifecycle) (e : Event) (m' : Lifecycle) : Prop :=
  ∀ d t, d.isOwn = true → (m.step d = some t ↔ d = e ∧ t = m')

theorem advance_of_move {p : Place} (hplace : m.place = p)
    (hp : p.isStraight = true) (hown : e.isOwn = true) (hmove : Move m e m') :
    e = .advance := by
  subst hplace
  cases hmove with
  | starts hplace | connects hplace | misses hplace | givesUp hplace
  | pauses hplace =>
      rw [hplace] at hp
      cases hp
  | proceeds hplace | heeds hplace =>
      rw [Place.not_isStraight_of_isWait hplace] at hp
      cases hp
  | wanted | stopped | looks | cancels | closes | aborts | watches | breaks =>
      cases hown
  | _ => rfl

theorem onlyStep_advance {p : Place} (hplace : m.place = p)
    (hp : p.isStraight = true) (hstep : m.step .advance = some m') :
    m.OnlyStep .advance m' := by
  intro d t hown
  constructor
  · intro hdt
    obtain rfl := advance_of_move hplace hp hown (move_of_step hdt)
    exact ⟨rfl, Option.some.inj (hdt.symm.trans hstep)⟩
  · rintro ⟨rfl, rfl⟩
    exact hstep

/-- A step of the loop out of a wait. -/
theorem wait_of_move (hwait : m.place.isWait = true) (hown : e.isOwn = true)
    (hmove : Move m e m') :
    m' = { m with place := .leaving } ∨
      ∃ n, m' = { m with place := .dialing n } := by
  cases hmove with
  | @proceeds n => exact .inr ⟨n, rfl⟩
  | heeds => exact .inl rfl
  | wanted | stopped | looks | cancels | closes | aborts | watches | breaks =>
      cases hown
  | starts hplace | refuses hplace | waits hplace | stores hplace
  | flags hplace | fails hplace | unflags hplace | forgets hplace
  | stops hplace | loses hplace | exits hplace | connects hplace
  | misses hplace | givesUp hplace | pauses hplace =>
      rw [hplace] at hwait
      cases hwait

/-- What is left for the loop to do. -/
structure Final (m : Lifecycle) : Prop where
  /-- No session is started with a context that is not canceled. -/
  session : ∀ e m' n, m.step e = some m' → m'.place = .dialing n →
    m'.canceled = true
  /-- At the look at the stopped flag the loop returns without a failure. -/
  flag : m.place = .registered → m.OnlyStep .advance (m.leave none)
  /-- At the check of the context after a session it does not go on. -/
  check : ∀ n, m.place = .ended n →
    m.OnlyStep .advance { m with place := .leaving }
  /-- Then it returns without a failure. -/
  leave : m.place = .leaving → m.OnlyStep .advance (m.leave none)
  /-- It need not stay in a wait, from which it leaves, or goes on to a session
  with a context that is canceled. -/
  wait : m.place.isWait = true →
    m.step .heed = some { m with place := .leaving } ∧
    ∀ e t, e.isOwn = true → m.step e = some t →
      t = { m with place := .leaving } ∨
      ∃ n, t = { m with place := .dialing n } ∧ t.canceled = true
  /-- There is one such session at most, and an end to the steps. -/
  bounded : ∀ es t, Runs.run step m es = some t →
    es.countP Event.isOwn ≤ 11 ∧ es.count .proceed ≤ 1
  /-- It can return. -/
  returns : m.place ≠ .idle → ∃ es t f,
    (∀ e ∈ es, e.isOwn = true ∨ e = .watch) ∧
      Runs.run step m es = some t ∧ t.place = .returned f
  /-- It does so without a failure, unless it had passed its last check and has
  still to decide whether to give up. -/
  result : (∀ n, m.place ≠ .lost n) → (∀ f, m.place ≠ .returned f) →
    ∀ es t f, Runs.run step m es = some t → t.place = .returned f → f = none

theorem Halted.final (h : m.Halted) : m.Final where
  session := by
    intro e m' n hstep hplace
    exact (h.move (move_of_step hstep)).canceled_at hplace rfl
  flag := by
    intro hplace
    refine onlyStep_advance hplace rfl ?_
    simp [step, advance?, hplace, h.stopped]
  check := by
    intro n hplace
    refine onlyStep_advance hplace rfl ?_
    simp [step, advance?, hplace, h.canceled_at hplace rfl]
  leave := by
    intro hplace
    refine onlyStep_advance hplace rfl ?_
    simp [step, advance?, hplace, exitFailure_eq_none h.stopped]
  wait := by
    intro hplace
    have hcanceled := h.canceled (Place.isPast_of_isWait hplace)
    refine ⟨if_pos ⟨hplace, hcanceled⟩, fun e t hown hstep => ?_⟩
    rcases wait_of_move hplace hown (move_of_step hstep) with rfl | ⟨n, rfl⟩
    · exact .inl rfl
    · exact .inr ⟨n, rfl, hcanceled⟩
  bounded := fun _ _ hrun => h.bounded hrun
  returns := h.exists_return
  result := by
    intro hundecided hgoesOn es t f hrun
    have hclean : m.Clean := ⟨hundecided, fun f hf => absurd hf (hgoesOn f)⟩
    exact (hclean.run h hrun).result f

/-- Once the loop has returned no socket is stored and the connected flag is
clear. Once a caller that stops the client has returned, and whatever happens
then, every later state is final. -/
theorem stopping_is_final {es : List Event}
    (hrun : Runs.run step (start configured retry) es = some m) :
    (∀ f, m.place = .returned f →
      m.isFlagged = false ∧ m.client.socket = none) ∧
    (.returned ∈ m.calls → ∀ es' m', Runs.run step m es' = some m' →
      m'.Final) := by
  constructor
  · intro f hplace
    have htidy := tidy_of_run hrun
    exact ⟨htidy.isFlagged.trans (by rw [hplace]; rfl),
      htidy.socket.trans (by rw [hplace]; rfl)⟩
  · intro hcall es' m' hlater
    have hm : m.Halted := effective_of_run hrun _ hcall
    exact (hm.run hlater).final

/-- The client is stopped during a dial: the caller finds no socket, and the
dial gives one before it cancels. -/
def stoppedDial : List Event :=
  [.start, .advance, .connect, .proceed, .disconnect, .turn 0, .dial true,
    .turn 0, .turn 0]

def wayOut : List Event :=
  [.advance, .advance, .watch, .advance, .advance, .advance,
    .advance, .advance]

theorem stopping_is_final_of_stoppedDial :
    ∃ m m', Runs.run step (start [] {}) stoppedDial = some m ∧
      .returned ∈ m.calls ∧ m.place = .dialed 0 0 ∧ m.Final ∧
      Runs.run step m wayOut = some m' ∧ m'.place = .returned none ∧
      m'.Final ∧ m'.isFlagged = false ∧ m'.client.socket = none := by
  have hseen : (Runs.run step (start [] {}) stoppedDial).map
      (fun m => (m.calls, m.place)) = some ([.returned], .dialed 0 0) := rfl
  obtain ⟨m, hrun, hfields⟩ := Option.map_eq_some_iff.mp hseen
  obtain ⟨hcalls, hplace⟩ := Prod.mk.inj hfields
  have hcall : .returned ∈ m.calls := hcalls ▸ List.mem_singleton_self _
  have hends :
      (Runs.run step (start [] {}) (stoppedDial ++ wayOut)).map (·.place) =
        some (.returned none) := rfl
  obtain ⟨m', hboth, hplace'⟩ := Option.map_eq_some_iff.mp hends
  have hlater := Runs.run_rest hrun hboth
  have hfinal := (stopping_is_final hrun).2 hcall
  exact ⟨m, m', hrun, hcall, hplace, hfinal [] m rfl, hlater, hplace',
    hfinal wayOut m' hlater, (stopping_is_final hboth).1 none hplace'⟩

/-- The client is stopped while the loop pauses after a failed dial. -/
def stoppedPause : List Event :=
  [.start, .advance, .connect, .proceed, .dial false, .advance, .decide 0,
    .disconnect, .turn 0, .turn 0, .turn 0]

/-- The pause is over at the same time, and the loop goes on to a session. -/
def lateSession : List Event := [.proceed, .dial true, .advance, .advance]

/-- A caller that stops the client has returned, and yet the loop does not
return from its wait: it starts a session, with a canceled context, and the
client is connected once more until the watcher closes the socket. -/
theorem not_always_heeded :
    ∃ m m', Runs.run step (start [] {}) stoppedPause = some m ∧
      .returned ∈ m.calls ∧ m.place.isWait = true ∧ m.canceled = true ∧
      Runs.run step m lateSession = some m' ∧ m'.place = .reading 1 0 ∧
      m'.isFlagged = true := by
  have hseen : (Runs.run step (start [] {}) stoppedPause).map
      (fun m => (m.calls, m.place, m.canceled)) =
        some ([.returned], .pausing 1, true) := rfl
  obtain ⟨m, hrun, hfields⟩ := Option.map_eq_some_iff.mp hseen
  obtain ⟨hcalls, hrest⟩ := Prod.mk.inj hfields
  obtain ⟨hplace, hcanceled⟩ := Prod.mk.inj hrest
  have hlate : (Runs.run step (start [] {}) (stoppedPause ++ lateSession)).map
      (fun m => (m.place, m.isFlagged)) = some (.reading 1 0, true) := rfl
  obtain ⟨m', hboth, hfields'⟩ := Option.map_eq_some_iff.mp hlate
  obtain ⟨hplace', hflagged⟩ := Prod.mk.inj hfields'
  refine ⟨m, m', hrun, hcalls ▸ List.mem_singleton_self _, ?_, hcanceled,
    Runs.run_rest hrun hboth, hplace', hflagged⟩
  rw [hplace]
  rfl

end Lifecycle
end Feed
end TickRelay
