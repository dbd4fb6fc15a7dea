import TickRelay.Proofs.UplinkReplay
import Mathlib.Data.List.Induction

/-!
# Withdrawals during the replay of a session

A session writes a copy of the subscription list. A symbol of the copy may be
withdrawn before the session comes to it: then the frame of the withdrawal can
be on the connection before the frame of the session, and the provider goes on
with a symbol that the list no longer has.

**Results.** `Stranded` describes such a symbol, `Late` the moment in which the
session makes it one. `stranded_iff` follows it back through a run.
`stale_iff_replayed_late`: when nothing is left to write, the provider has a
symbol that the list does not have exactly if the session wrote it after its
withdrawal, and it was not added again since. `not_only_listed` is a run in
which this happens.
-/

namespace TickRelay
namespace Feed
namespace Uplink

variable {u v : Uplink} {e : Event} {n : Nat} {s : Bytes}

/-- The provider has a symbol on connection `n` that the list does not have,
and no call is about to withdraw it there. -/
structure Stranded (u : Uplink) (n : Nat) (s : Bytes) : Prop where
  connected : u.client.socket = some n
  removed : s ∉ u.client.symbols
  withdrawn : u.call ≠ some (some (n, .unsubscribe s))
  last : lastFrame n s u.frames = some (.subscribe s)

/-- The session on connection `n` is about to write a symbol that has been
withdrawn there. -/
structure Late (u : Uplink) (n : Nat) (s : Bytes) : Prop where
  connected : u.client.socket = some n
  removed : s ∉ u.client.symbols
  withdrawn : u.call ≠ some (some (n, .unsubscribe s))
  next : u.replay.head? = some s

theorem Late.replays (hu : Late u n s) (hmove : Move u .replays v) :
    Stranded v n s := by
  cases hmove with
  | @replays m t rest hopen hnext =>
      have hm : m = n := Option.some.inj (hopen.symm.trans hu.connected)
      have ht : t = s := by simpa [hnext] using hu.next
      refine ⟨hu.connected, hu.removed, hu.withdrawn, ?_⟩
      rw [lastFrame_cons]
      simp [hm, ht, Request.concerns]

/-- A frame of a call that agrees with the list says nothing of a stranded
symbol, unless it withdraws the symbol. -/
theorem concerns_of_agrees {r : Request} (hagrees : Agrees u.client.symbols r)
    (hs : s ∉ u.client.symbols) (hr : r ≠ .unsubscribe s) :
    r.concerns s = false := by
  cases r with
  | subscribe t =>
      have ht : t ≠ s := by
        rintro rfl
        exact hs hagrees
      simpa [Request.concerns] using ht
  | unsubscribe t => simpa [Request.concerns] using hr
  | history _ _ _ => rfl

theorem Stranded.move (hu : Orderly u) (h : Stranded u n s)
    (hmove : Move u e v) (hends : e ≠ .ends)
    (hadded : e ≠ .call (.subscribe s)) : Stranded v n s := by
  cases hmove with
  | opens hclosed =>
      have hopen := h.connected
      rw [hclosed] at hopen
      cases hopen
  | @replays m t rest hopen hnext =>
      refine ⟨h.connected, h.removed, h.withdrawn, ?_⟩
      rw [lastFrame_cons]
      split
      · rename_i hf
        have ht : t = s := by simpa [Request.concerns] using hf.2
        rw [ht]
      · exact h.last
  | ends => exact absurd rfl hends
  | @called k hfree =>
      refine ⟨Client.call_socket.trans h.connected, ?_, ?_, h.last⟩
      · intro hs
        rcases ((Client.mem_call hu.nodup).mp hs).1 with rfl | hold
        · exact hadded rfl
        · exact h.removed hold
      · intro hframe
        obtain ⟨-, ⟨t, -, -, ht⟩ | ⟨t, -, hmem, ht⟩⟩ :=
          Client.call_frame.mp (Option.some.inj hframe)
        · cases ht
        · cases ht
          exact h.removed hmem
  | returned hcall => exact ⟨h.connected, h.removed, by simp, h.last⟩
  | @wrote _ f hcall =>
      refine ⟨h.connected, h.removed, by simp, ?_⟩
      rw [lastFrame_cons, if_neg, h.last]
      rintro ⟨hn, hconcerns⟩
      have hr : f.2 ≠ .unsubscribe s := by
        rintro hr
        exact h.withdrawn (by rw [hcall, ← hn, ← hr])
      rw [concerns_of_agrees (hu.pending f hcall).2 h.removed hr] at hconcerns
      cases hconcerns
  | lost hcall hother => exact ⟨h.connected, h.removed, by simp, h.last⟩

/-- A symbol is stranded by the session alone. -/
theorem Stranded.before (hu : Orderly u) (hmove : Move u e v)
    (h : Stranded v n s) :
    e ≠ .ends ∧ e ≠ .call (.subscribe s) ∧
    (Stranded u n s ∨ e = .replays ∧ Late u n s) := by
  cases hmove with
  | opens hclosed =>
      have hn : u.opened = n := Option.some.inj h.connected
      have hnone : lastFrame n s u.frames = none := by
        refine lastFrame_of_unused fun f hf => ?_
        have hlt := hu.numbered f hf
        omega
      have hlast := h.last
      rw [hnone] at hlast
      cases hlast
  | @replays m t rest hopen hnext =>
      refine ⟨by simp, by simp, ?_⟩
      by_cases ht : t = s
      · exact Or.inr ⟨rfl, h.connected, h.removed,
          h.withdrawn, by simp [hnext, ht]⟩
      · have hlast := h.last
        rw [lastFrame_cons, if_neg (by simp [Request.concerns, ht])] at hlast
        exact Or.inl ⟨h.connected, h.removed, h.withdrawn, hlast⟩
  | ends =>
      have hconnected := h.connected
      cases hconnected
  | @called k hfree =>
      have hadded : k ≠ .subscribe s := by
        rintro rfl
        exact h.removed ((Client.mem_call hu.nodup).mpr ⟨Or.inl rfl, by simp⟩)
      have hconnected : u.client.socket = some n :=
        Client.call_socket.symm.trans h.connected
      refine ⟨by simp, by simpa using hadded,
        Or.inl ⟨hconnected, ?_, by simp [hfree], h.last⟩⟩
      -- If the symbol was on the list, this call takes it off, and has the
      -- frame still to write.
      intro hmem
      by_cases hk : k = .unsubscribe s
      · refine h.withdrawn (congrArg some ?_)
        exact Client.call_frame.mpr ⟨hconnected, Or.inr ⟨s, hk, hmem, rfl⟩⟩
      · exact h.removed ((Client.mem_call hu.nodup).mpr ⟨Or.inr hmem, hk⟩)
  | returned hcall =>
      exact ⟨by simp, by simp,
        Or.inl ⟨h.connected, h.removed, by simp [hcall], h.last⟩⟩
  | @wrote _ f hcall =>
      have hlast := h.last
      rw [lastFrame_cons] at hlast
      split at hlast
      · rename_i hf
        have hagrees := (hu.pending f hcall).2
        rw [Option.some.inj hlast] at hagrees
        exact absurd hagrees h.removed
      · rename_i hf
        refine ⟨by simp, by simp, Or.inl ⟨h.connected, h.removed, ?_, hlast⟩⟩
        rw [hcall]
        intro hframe
        cases hframe
        exact hf ⟨rfl, by simp [Request.concerns]⟩
  | lost hcall hother =>
      refine ⟨by simp, by simp, Or.inl ⟨h.connected, h.removed, ?_, h.last⟩⟩
      rw [hcall]
      intro hframe
      cases hframe
      exact hother h.connected

/-- The session wrote the symbol after its withdrawal: the events before and
since, and the state in which it did. The session goes on, and the symbol was
not added again. -/
structure ReplayedLate (start : Uplink) (es : List Event) (n : Nat) (s : Bytes)
    (before after : List Event) (w : Uplink) : Prop where
  split : es = before ++ .replays :: after
  run : Runs.run step start before = some w
  late : w.Late n s
  lasts : .ends ∉ after
  final : .call (.subscribe s) ∉ after

theorem Stranded.run {es : List Event} (hu : Orderly u) (h : Stranded u n s)
    (hrun : Runs.run step u es = some v) (hends : .ends ∉ es)
    (hadded : .call (.subscribe s) ∉ es) : Stranded v n s := by
  induction es generalizing u with
  | nil =>
      cases hrun
      exact h
  | cons e es ih =>
      obtain ⟨w, hstep, hrest⟩ := Runs.run_cons.mp hrun
      have hmove := move_of_step hstep
      rw [List.mem_cons, not_or] at hends hadded
      exact ih (hu.move hmove)
        (h.move hu hmove (Ne.symm hends.1) (Ne.symm hadded.1))
        hrest hends.2 hadded.2

theorem stranded_iff {configured : List Bytes} {es : List Event}
    (hrun : Runs.run step (start configured) es = some u) :
    Stranded u n s ↔
      ∃ before after w,
        ReplayedLate (start configured) es n s before after w := by
  constructor
  · intro h
    -- Back from the last event to the one that stranded the symbol.
    induction es using List.reverseRecOn generalizing u with
    | nil =>
        cases hrun
        have hlast := h.last
        simp [start, lastFrame] at hlast
    | append_singleton es e ih =>
        obtain ⟨x, hx, hlast⟩ := Runs.run_append.mp hrun
        obtain ⟨y, hstep, hy⟩ := Runs.run_cons.mp hlast
        cases hy
        obtain ⟨hends, hadded, hbefore | ⟨rfl, hlate⟩⟩ :=
          h.before (orderly_of_run hx) (move_of_step hstep)
        · obtain ⟨before, after, w, hback⟩ := ih hx hbefore
          refine ⟨before, after ++ [e], w, ?_, hback.run, hback.late, ?_, ?_⟩
          · rw [hback.split, List.append_assoc, List.cons_append]
          · simp [hback.lasts, Ne.symm hends]
          · simp [hback.final, Ne.symm hadded]
        · exact ⟨es, [], x, rfl, hx, hlate, List.not_mem_nil, List.not_mem_nil⟩
  · rintro ⟨before, after, w, hback⟩
    rw [hback.split] at hrun
    obtain ⟨y, hstep, hafter⟩ :=
      Runs.run_cons.mp (Runs.run_rest hback.run hrun)
    have hmove := move_of_step hstep
    have hw := orderly_of_run hback.run
    exact (hback.late.replays hmove).run
      (hw.move hmove) hafter hback.lasts hback.final

/-- When a session is open and nothing is left to write, the provider has a
symbol that the list does not have exactly if the session wrote it after its
withdrawal, and it was not added again since. -/
theorem stale_iff_replayed_late {configured : List Bytes} {es : List Event}
    (hrun : Runs.run step (start configured) es = some u)
    (hsettled : u.Settled n) (s : Bytes) :
    (lastFrame n s u.frames = some (.subscribe s) ∧ s ∉ u.client.symbols) ↔
      ∃ before after w,
        ReplayedLate (start configured) es n s before after w := by
  rw [← stranded_iff hrun]
  constructor
  · rintro ⟨hlast, hs⟩
    exact ⟨hsettled.connected, hs, by simp [hsettled.free], hlast⟩
  · intro h
    exact ⟨h.last, h.removed⟩

/-- A symbol is withdrawn, with its frame, before the new session comes to
it. -/
def hastyWithdrawal : List Event :=
  [.opens, .call (.unsubscribe [65]), .write true, .replays]

theorem hastyWithdrawal_stale :
    ∃ u, Runs.run step (start [[65]]) hastyWithdrawal = some u ∧ u.Settled 0 ∧
      lastFrame 0 [65] u.frames = some (.subscribe [65]) ∧
      [65] ∉ u.client.symbols := by
  have hseen : (Runs.run step (start [[65]]) hastyWithdrawal).map (fun u =>
      (u.client.socket, u.replay, u.call, lastFrame 0 [65] u.frames,
        u.client.symbols)) =
      some (some 0, [], none, some (.subscribe [65]), []) := rfl
  obtain ⟨u, hrun, hfields⟩ := Option.map_eq_some_iff.mp hseen
  simp only [Prod.mk.injEq] at hfields
  obtain ⟨hsocket, hreplay, hcall, hlast, hsymbols⟩ := hfields
  refine ⟨u, hrun, ⟨hsocket, hreplay, hcall⟩, hlast, ?_⟩
  rw [hsymbols]
  exact List.not_mem_nil

theorem replayed_late_of_hastyWithdrawal :
    ∃ u, Runs.run step (start [[65]]) hastyWithdrawal = some u ∧ u.Settled 0 ∧
      ∃ before after w,
        ReplayedLate (start [[65]]) hastyWithdrawal 0 [65] before after w := by
  obtain ⟨u, hrun, hsettled, hlast, hs⟩ := hastyWithdrawal_stale
  exact ⟨u, hrun, hsettled,
    (stale_iff_replayed_late hrun hsettled [65]).mp ⟨hlast, hs⟩⟩

/-- So the provider may keep a symbol that was withdrawn. -/
theorem not_only_listed :
    ¬ ∀ (configured : List Bytes) (es : List Event) (u : Uplink) (n : Nat)
        (s : Bytes),
      Runs.run step (start configured) es = some u → u.Settled n →
      lastFrame n s u.frames = some (.subscribe s) → s ∈ u.client.symbols := by
  intro hlisted
  obtain ⟨u, hrun, hsettled, hlast, hs⟩ := hastyWithdrawal_stale
  exact hs (hlisted _ _ u 0 [65] hrun hsettled hlast)

end Uplink
end Feed
end TickRelay
