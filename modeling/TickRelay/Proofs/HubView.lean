import TickRelay.Hub

/-!
# What the operations of the hub change

**Results.** `get?_insert`, `get?_remove`, `get?_release` and `get?_clear` say
which connections are stored after a change of the pool. Whatever the provider
is asked for, a subscription or a withdrawal changes the registry as `join`,
`leave` or `leaveAll` does, and beside it the feed alone.
-/

namespace TickRelay
namespace Pool

variable (p : Pool) (client c : Bytes) (conn : Connection)

theorem get?_insert :
    (p.insert client conn).1.get? c =
      if c = client then some conn else p.get? c :=
  Table.get?_set p.conns client c conn

theorem get?_remove :
    (p.remove client).1.get? c = if c = client then none else p.get? c :=
  Table.get?_erase p.conns client c

theorem get?_release :
    (p.release conn).1.get? c =
      if c = conn.id ∧ p.get? c = some conn then none else p.get? c := by
  unfold release
  by_cases hstored : p.get? conn.id = some conn
  · rw [if_pos hstored]
    show (p.conns.erase conn.id).get? c = _
    rw [Table.get?_erase]
    by_cases hc : c = conn.id
    · rw [if_pos hc, if_pos ⟨hc, hc ▸ hstored⟩]
    · rw [if_neg hc, if_neg fun hboth => hc hboth.1]
      rfl
  · rw [if_neg hstored, if_neg]
    rintro ⟨rfl, hc⟩
    exact hstored hc

theorem get?_clear : p.clear.1.get? c = none :=
  Table.get?_empty c

end Pool

namespace Hub

variable (h : Hub) (client symbol : Bytes)

theorem subscribe_frame :
    ∃ feed, (h.subscribe client symbol).1 =
      if Symbol.normalize symbol = [] then h
      else { h with
        registry := (h.registry.join client (Symbol.normalize symbol)).1,
        feed } := by
  unfold subscribe
  dsimp only
  split
  · exact ⟨h.feed, rfl⟩
  · unfold join
    dsimp only
    cases (h.registry.join client (Symbol.normalize symbol)).2 with
    | false => exact ⟨h.feed, rfl⟩
    | true => exact ⟨_, rfl⟩

theorem unsubscribe_frame :
    ∃ feed, (h.unsubscribe client symbol).1 =
      if Symbol.normalize symbol = [] then h
      else { h with
        registry := (h.registry.leave client (Symbol.normalize symbol)).1,
        feed } := by
  unfold unsubscribe
  dsimp only
  split
  · exact ⟨h.feed, rfl⟩
  · unfold leave
    dsimp only
    cases (h.registry.leave client (Symbol.normalize symbol)).2 with
    | false => exact ⟨h.feed, rfl⟩
    | true => exact ⟨_, rfl⟩

/-- Idle symbols are settled one after the other; each time only the feed may
change. -/
theorem settle_frame (idle : List Bytes) (calls : List ProviderCall) :
    ∃ feed, (idle.foldl
        (fun (st : Hub × List ProviderCall) s => ((st.1.afterLeave s).1,
        st.2 ++ (st.1.afterLeave s).2)) (h, calls)).1 = { h with feed } := by
  induction idle generalizing h calls with
  | nil => exact ⟨h.feed, rfl⟩
  | cons s idle ih =>
      obtain ⟨feed, hfeed⟩ :=
        ih (h.afterLeave s).1 (calls ++ (h.afterLeave s).2)
      exact ⟨feed, hfeed⟩

theorem unsubscribeAll_frame :
    ∃ feed, (h.unsubscribeAll client).1 =
      { h with registry := (h.registry.leaveAll client).1, feed } :=
  settle_frame { h with registry := (h.registry.leaveAll client).1 } _ []

end Hub
end TickRelay
