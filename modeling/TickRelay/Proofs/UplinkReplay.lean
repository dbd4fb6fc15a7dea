import TickRelay.Feed.Client
import TickRelay.Proofs.FeedView
import TickRelay.Proofs.Runs

/-!
# Sessions with the provider and calls of the feed

The feed has one session at a time, each on a connection of its own. A session
sets the socket and copies the subscription list at once, and then writes a
frame for every symbol of the copy. Meanwhile the list may change: a call
changes it and looks at the socket at once, and writes its frame later. Calls
come one after the other; sessions open and end at any time.

**Algorithm.** `Uplink.step` is one event, through `Client.openSession`,
`Client.closeSession` and `Client.call`. A frame for the current connection
always arrives. A call may be left with a frame for a connection that is gone,
which may arrive there or not.

**Results.** `requested_of_run`: a symbol of the list is still to be written by
the session, or by the call under way, or the last frame for it on the current
connection subscribes it. When nothing is left to write, `all_subscribed` says
that the provider has every symbol of the list.
-/

namespace TickRelay
namespace Feed

/-- Whether a request subscribes a symbol or withdraws it. -/
def Request.concerns (symbol : Bytes) : Request → Bool
  | subscribe s => s == symbol
  | unsubscribe s => s == symbol
  | history _ _ _ => false

/-- The client, what its session and its call have still to write, and what was
written. -/
structure Uplink where
  client : Client
  /-- The symbols that the session has still to write. -/
  replay : List Bytes := []
  /-- The call under way, with the frame that it has still to write, if any. -/
  call : Option (Option (Nat × Request)) := none
  /-- How many connections there were; they are numbered from zero. -/
  opened : Nat := 0
  /-- The frames that arrived, each with its connection, newest first. -/
  frames : List (Nat × Request) := []

namespace Uplink

inductive Event where
  /-- A session opens on a new connection. -/
  | opens
  /-- The session writes the next symbol of its copy. -/
  | replays
  | ends
  /-- A call changes the list and looks at the socket. -/
  | call (c : ProviderCall)
  /-- The call writes its frame, if it has one, and returns. -/
  | write (arrives : Bool)
  deriving DecidableEq

def start (configured : List Bytes) : Uplink :=
  { client := .ofConfigured configured }

/-- One event. -/
def step (u : Uplink) : Event → Option Uplink
  | .opens =>
    match u.client.socket with
    | some _ => none
    | none =>
      let (client, replay) := u.client.openSession u.opened
      some { u with client, replay, opened := u.opened + 1 }
  | .replays =>
    match u.client.socket, u.replay with
    | some n, s :: replay =>
        some { u with replay, frames := (n, .subscribe s) :: u.frames }
    | _, _ => none
  | .ends =>
    match u.client.socket with
    | some _ => some { u with client := u.client.closeSession, replay := [] }
    | none => none
  | .call c =>
    match u.call with
    | some _ => none
    | none =>
      let (client, frame) := u.client.call c
      some { u with client, call := some frame }
  | .write arrives =>
    match u.call with
    | none => none
    | some none => some { u with call := none }
    | some (some f) =>
      if arrives ∨ u.client.socket = some f.1 then
        some { u with call := none, frames := f :: u.frames }
      else some { u with call := none }

/-- The last frame on a connection that subscribes or withdraws a symbol. -/
def lastFrame (n : Nat) (symbol : Bytes) (frames : List (Nat × Request)) :
    Option Request :=
  (frames.find? fun f => f.1 == n && f.2.concerns symbol).map (·.2)

/-- A session is open on connection `n`, and neither it nor a call has anything
left to write. -/
structure Settled (u : Uplink) (n : Nat) : Prop where
  connected : u.client.socket = some n
  replayed : u.replay = []
  free : u.call = none

/-- What an event does. -/
inductive Move (u : Uplink) : Event → Uplink → Prop
  | opens (hclosed : u.client.socket = none) :
      Move u .opens { u with
        client := { u.client with socket := some u.opened }
        replay := u.client.symbols
        opened := u.opened + 1 }
  | replays {n : Nat} {s : Bytes} {rest : List Bytes}
      (hopen : u.client.socket = some n) (hnext : u.replay = s :: rest) :
      Move u .replays { u with
        replay := rest, frames := (n, .subscribe s) :: u.frames }
  | ends :
      Move u .ends { u with
        client := { u.client with socket := none }, replay := [] }
  | called {c : ProviderCall} (hfree : u.call = none) :
      Move u (.call c) { u with
        client := (u.client.call c).1, call := some (u.client.call c).2 }
  | returned {arrives : Bool} (hcall : u.call = some none) :
      Move u (.write arrives) { u with call := none }
  | wrote {arrives : Bool} {f : Nat × Request}
      (hcall : u.call = some (some f)) :
      Move u (.write arrives) { u with call := none, frames := f :: u.frames }
  | lost {arrives : Bool} {f : Nat × Request} (hcall : u.call = some (some f))
      (hother : u.client.socket ≠ some f.1) :
      Move u (.write arrives) { u with call := none }

theorem move_of_step {u v : Uplink} {e : Event} (h : u.step e = some v) :
    Move u e v := by
  cases e with
  | opens =>
      simp only [step] at h
      split at h
      · cases h
      · rename_i hclosed
        cases h
        exact .opens hclosed
  | replays =>
      simp only [step] at h
      split at h
      · rename_i hopen hnext
        cases h
        exact .replays hopen hnext
      · cases h
  | ends =>
      simp only [step] at h
      split at h
      · cases h
        exact .ends
      · cases h
  | call c =>
      simp only [step] at h
      split at h
      · cases h
      · rename_i hfree
        cases h
        exact .called hfree
  | write arrives =>
      simp only [step] at h
      split at h
      · cases h
      · rename_i hcall
        cases h
        exact .returned hcall
      · rename_i f hcall
        split at h
        · cases h
          exact .wrote hcall
        · rename_i hneither
          cases h
          exact .lost hcall fun hsocket => hneither (Or.inr hsocket)

end Uplink

namespace Client

variable {c : Client} {k : ProviderCall}

theorem call_socket : (c.call k).1.socket = c.socket := by
  cases k <;> rfl

theorem nodup_call (hc : c.symbols.Nodup) : (c.call k).1.symbols.Nodup := by
  cases k with
  | connect => exact hc
  | subscribe s => exact Symbols.nodup_add hc
  | unsubscribe s => exact Symbols.nodup_remove hc

theorem mem_call (hc : c.symbols.Nodup) {s : Bytes} :
    s ∈ (c.call k).1.symbols ↔ (k = .subscribe s ∨ s ∈ c.symbols) ∧
    k ≠ .unsubscribe s := by
  cases k with
  | connect => simp [call, connect]
  | subscribe t =>
      have hadd : s ∈ (c.call (.subscribe t)).1.symbols ↔ s = t ∨
          s ∈ c.symbols := Symbols.mem_add
      rw [hadd]
      simp [eq_comm]
  | unsubscribe t =>
      have hremove : s ∈ (c.call (.unsubscribe t)).1.symbols ↔
          s ≠ t ∧ s ∈ c.symbols :=
        Symbols.mem_remove hc
      rw [hremove]
      simp [eq_comm, and_comm]

/-- A call has a frame to write exactly if it changed the list while there was
a socket. -/
theorem call_frame {n : Nat} {r : Request} :
    (c.call k).2 = some (n, r) ↔ c.socket = some n ∧
      ((∃ s, k = .subscribe s ∧ s ∉ c.symbols ∧ r = .subscribe s) ∨
        ∃ s, k = .unsubscribe s ∧ s ∈ c.symbols ∧ r = .unsubscribe s) := by
  cases k with
  | connect => simp [call]
  | subscribe t =>
      by_cases ht : t ∈ c.symbols
      · simp [call, subscribe, Symbols.add, ht]
      · simp [call, subscribe, Symbols.add, ht, eq_comm (a := r)]
  | unsubscribe t =>
      by_cases ht : t ∈ c.symbols
      · simp [call, unsubscribe, Symbols.remove, ht, eq_comm (a := r)]
      · simp [call, unsubscribe, Symbols.remove, ht]

end Client

namespace Uplink

variable {u v : Uplink} {e : Event} {n : Nat} {s : Bytes}

theorem lastFrame_cons {frames : List (Nat × Request)} {f : Nat × Request} :
    lastFrame n s (f :: frames) =
      if f.1 = n ∧ f.2.concerns s then some f.2 else lastFrame n s frames := by
  unfold lastFrame
  rw [List.find?_cons]
  by_cases hf : f.1 = n ∧ f.2.concerns s
  · simp [hf]
  · have hfalse : (f.1 == n && f.2.concerns s) = false := by simpa using hf
    simp [hf, hfalse]

/-- A connection without frames has no last one. -/
theorem lastFrame_of_unused {frames : List (Nat × Request)}
    (h : ∀ f ∈ frames, f.1 ≠ n) : lastFrame n s frames = none := by
  induction frames with
  | nil => rfl
  | cons f frames ih =>
      rw [lastFrame_cons, if_neg fun hf => h f List.mem_cons_self hf.1]
      exact ih fun g hg => h g (List.mem_cons_of_mem f hg)

/-- What the frame of a call says is what the list says. -/
def Agrees (symbols : List Bytes) : Request → Prop
  | .subscribe s => s ∈ symbols
  | .unsubscribe s => s ∉ symbols
  | .history _ _ _ => False

/-- Connections are new when they open, and no call has been overtaken by
another. -/
structure Orderly (u : Uplink) : Prop where
  nodup : u.client.symbols.Nodup
  numbered : ∀ f ∈ u.frames, f.1 < u.opened
  current : ∀ n, u.client.socket = some n → n < u.opened
  pending : ∀ f, u.call = some (some f) → f.1 < u.opened ∧
    Agrees u.client.symbols f.2

theorem orderly_start (configured : List Bytes) :
    Orderly (start configured) where
  nodup := Symbols.nodup_ofConfigured configured
  numbered := by simp [start]
  current := by simp [start, Client.ofConfigured]
  pending := by simp [start]

theorem Orderly.move (hu : Orderly u) (hmove : Move u e v) : Orderly v := by
  cases hmove with
  | opens hclosed =>
      refine ⟨hu.nodup, fun f hf => ?_, fun n hn => ?_, fun f hf => ?_⟩
      · exact Nat.lt_succ_of_lt (hu.numbered f hf)
      · cases hn
        exact Nat.lt_succ_self u.opened
      · obtain ⟨hlt, hagrees⟩ := hu.pending f hf
        exact ⟨Nat.lt_succ_of_lt hlt, hagrees⟩
  | replays hopen hnext =>
      refine ⟨hu.nodup, fun f hf => ?_, hu.current, hu.pending⟩
      rcases List.mem_cons.mp hf with rfl | hf
      · exact hu.current _ hopen
      · exact hu.numbered f hf
  | ends => exact ⟨hu.nodup, hu.numbered, by simp, hu.pending⟩
  | @called k hfree =>
      refine ⟨Client.nodup_call hu.nodup, hu.numbered, ?_, ?_⟩
      · intro n hn
        exact hu.current n (Client.call_socket.symm.trans hn)
      · rintro ⟨n, r⟩ hf
        obtain ⟨hsocket, hcause⟩ := Client.call_frame.mp (Option.some.inj hf)
        refine ⟨hu.current n hsocket, ?_⟩
        rcases hcause with ⟨s, rfl, -, rfl⟩ | ⟨s, rfl, -, rfl⟩
        · exact (Client.mem_call hu.nodup).mpr ⟨Or.inl rfl, by simp⟩
        · exact fun hs => ((Client.mem_call hu.nodup).mp hs).2 rfl
  | returned hcall => exact ⟨hu.nodup, hu.numbered, hu.current, by simp⟩
  | wrote hcall =>
      refine ⟨hu.nodup, fun g hg => ?_, hu.current, by simp⟩
      rcases List.mem_cons.mp hg with rfl | hg
      · exact (hu.pending g hcall).1
      · exact hu.numbered g hg
  | lost hcall hother => exact ⟨hu.nodup, hu.numbered, hu.current, by simp⟩

/-- Every symbol of the list was subscribed on the current connection, or is
about to be. -/
def Requested (u : Uplink) : Prop :=
  ∀ n s, u.client.socket = some n → s ∈ u.client.symbols →
    s ∈ u.replay ∨ u.call = some (some (n, .subscribe s)) ∨
      lastFrame n s u.frames = some (.subscribe s)

theorem Requested.move (hu : Orderly u) (h : Requested u)
    (hmove : Move u e v) : Requested v := by
  intro n s hsocket hs
  cases hmove with
  | opens hclosed => exact Or.inl hs
  | @replays m t rest hopen hnext =>
      have hmn : m = n := Option.some.inj (hopen.symm.trans hsocket)
      rw [lastFrame_cons]
      by_cases ht : t = s
      · simp [hmn, ht, Request.concerns]
      · rcases h n s hsocket hs with hreplay | hcall | hlast
        · rw [hnext] at hreplay
          exact Or.inl (List.mem_of_ne_of_mem (Ne.symm ht) hreplay)
        · exact Or.inr (Or.inl hcall)
        · simp [ht, Request.concerns, hlast]
  | ends => cases hsocket
  | @called k hfree =>
      replace hsocket : u.client.socket = some n :=
        Client.call_socket.symm.trans hsocket
      by_cases hold : s ∈ u.client.symbols
      · rcases h n s hsocket hold with hreplay | hpending | hlast
        · exact Or.inl hreplay
        · simp [hfree] at hpending
        · exact Or.inr (Or.inr hlast)
      · have hnew : k = .subscribe s :=
          ((Client.mem_call hu.nodup).mp hs).1.resolve_right hold
        refine Or.inr (Or.inl (congrArg some ?_))
        exact Client.call_frame.mpr ⟨hsocket, Or.inl ⟨s, hnew, hold, rfl⟩⟩
  | returned hcall =>
      rcases h n s hsocket hs with hreplay | hpending | hlast
      · exact Or.inl hreplay
      · simp [hcall] at hpending
      · exact Or.inr (Or.inr hlast)
  | @wrote _ f hcall =>
      obtain ⟨m, r⟩ := f
      obtain ⟨-, hagrees⟩ := hu.pending _ hcall
      rw [lastFrame_cons]
      by_cases hf : m = n ∧ r.concerns s
      · -- The call has not been overtaken, so a frame about a symbol of the
        -- list subscribes it.
        have hr : r = .subscribe s := by
          cases r with
          | subscribe t => simpa [Request.concerns] using hf.2
          | unsubscribe t =>
              have ht : t = s := by simpa [Request.concerns] using hf.2
              exact absurd hs (ht ▸ hagrees)
          | history _ _ _ => exact hagrees.elim
        simp [hf, hr, Request.concerns]
      · rcases h n s hsocket hs with hreplay | hpending | hlast
        · exact Or.inl hreplay
        · rw [hcall] at hpending
          cases hpending
          exact absurd ⟨rfl, by simp [Request.concerns]⟩ hf
        · exact Or.inr (Or.inr (by rw [if_neg hf, hlast]))
  | lost hcall hother =>
      rcases h n s hsocket hs with hreplay | hpending | hlast
      · exact Or.inl hreplay
      · rw [hcall] at hpending
        cases hpending
        exact absurd hsocket hother
      · exact Or.inr (Or.inr hlast)

theorem orderly_of_run {configured : List Bytes} {es : List Event}
    (h : Runs.run step (start configured) es = some u) : Orderly u :=
  Runs.run_invariant (fun _ _ _ hx hstep => hx.move (move_of_step hstep))
    (orderly_start configured) h

theorem requested_of_run {configured : List Bytes} {es : List Event}
    (h : Runs.run step (start configured) es = some u) : Requested u := by
  have hboth : Orderly u ∧ Requested u := by
    refine Runs.run_invariant (P := fun x => Orderly x ∧ Requested x) ?_
      ⟨orderly_start configured, ?_⟩ h
    · rintro x e y ⟨hx, hreq⟩ hstep
      exact ⟨hx.move (move_of_step hstep), hreq.move hx (move_of_step hstep)⟩
    · intro n s hsocket
      simp [start, Client.ofConfigured] at hsocket
  exact hboth.2

/-- When a session is open and nothing is left to write, the last frame about
each symbol of the list subscribes it. -/
theorem all_subscribed {configured : List Bytes} {es : List Event}
    (hrun : Runs.run step (start configured) es = some u)
    (hsettled : u.Settled n) :
    ∀ s ∈ u.client.symbols, lastFrame n s u.frames = some (.subscribe s) := by
  intro s hs
  rcases requested_of_run hrun n s hsettled.connected hs with
    hreplay | hcall | hlast
  · rw [hsettled.replayed] at hreplay
    cases hreplay
  · rw [hsettled.free] at hcall
    cases hcall
  · exact hlast

/-- A symbol is added on a connection that is lost before its frame is written,
and another one is withdrawn and added again while the next session is still
writing its copy. -/
def resumption : List Event :=
  [.opens, .replays, .call (.subscribe [66]), .ends, .opens, .write false,
    .replays, .call (.unsubscribe [65]), .write true, .call (.subscribe [65]),
    .write true, .replays]

theorem all_subscribed_of_resumption :
    ∃ u, Runs.run step (start [[65]]) resumption = some u ∧ u.Settled 1 ∧
      u.client.symbols = [[66], [65]] ∧
      ∀ s ∈ u.client.symbols, lastFrame 1 s u.frames =
        some (.subscribe s) := by
  have hseen : (Runs.run step (start [[65]]) resumption).map (fun u =>
      (u.client.socket, u.replay, u.call, u.client.symbols)) =
        some (some 1, [], none, [[66], [65]]) := rfl
  obtain ⟨u, hrun, hfields⟩ := Option.map_eq_some_iff.mp hseen
  simp only [Prod.mk.injEq] at hfields
  obtain ⟨hsocket, hreplay, hcall, hsymbols⟩ := hfields
  have hsettled : u.Settled 1 := ⟨hsocket, hreplay, hcall⟩
  exact ⟨u, hrun, hsettled, hsymbols, all_subscribed hrun hsettled⟩

end Uplink
end Feed
end TickRelay
