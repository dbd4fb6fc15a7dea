import TickRelay.Proofs.FiniteNumbers
import TickRelay.Proofs.FrameRouting

/-!
# The numbers of accepted ticks

**Input.** Any message of the provider.

**Algorithm.** A record is read member by member over the record so far, so
what every member keeps, the record keeps (`keeps_record`), however often its
members are named and in whatever order.

**Results.** `Frame.finite_of_parse`: the numbers of a tick that is accepted
are finite.
-/

namespace TickRelay
namespace Json

/-- What holds of the older value holds of the one that is read over it. -/
def Keeps {α : Type} (P : α → Prop) (read : ValueReader α) : Prop :=
  ∀ ⦃room : Room⦄ ⦃x y : α⦄ ⦃s rest : Bytes⦄, P x →
    read room x s = some (y, rest) → P y

section Records

variable {σ : Type} {P : σ → Prop}

theorem keeps_items {item : σ → Bytes → Option (σ × Bytes)}
    (hitem : ∀ {x y : σ} {s rest : Bytes}, P x →
      item x s = some (y, rest) → P y)
    {close : UInt8} {k : Nat} {x y : σ} {s rest : Bytes} (hx : P x)
    (h : items item close k x s = some (y, rest)) : P y := by
  -- On the bound of the items: the record so far is the state that each of
  -- them is read over.
  induction k generalizing x s with
  | zero => cases h
  | succ k ih =>
      obtain ⟨⟨x', s'⟩, hread, hrest⟩ := Option.bind_eq_some_iff.mp h
      obtain ⟨⟨c, u⟩, -, hnext⟩ := Option.bind_eq_some_iff.mp hrest
      dsimp only at hnext
      split at hnext
      · exact ih (hitem hx hread) hnext
      · split at hnext
        · cases hnext
          exact hitem hx hread
        · cases hnext

theorem keeps_readMember {rule : NameRule} {members : List (Member σ)}
    (hmembers : ∀ m ∈ members, Keeps P m.read) {room : Room} {x y : σ}
    {s rest : Bytes} (hx : P x)
    (h : readMember rule members room x s = some (y, rest)) : P y := by
  obtain ⟨⟨key, u⟩, -, hvalue⟩ := Option.bind_eq_some_iff.mp h
  dsimp only at hvalue
  split at hvalue
  · rename_i m hselect
    exact hmembers m (List.mem_of_find?_eq_some hselect) hx hvalue
  · obtain ⟨v, -, heq⟩ := Option.map_eq_some_iff.mp hvalue
    cases heq
    exact hx

theorem keeps_record {rule : NameRule} {members : List (Member σ)}
    (hmembers : ∀ m ∈ members, Keeps P m.read) :
    Keeps P (record rule members) := by
  intro room x y s rest hx h
  obtain ⟨⟨c, t⟩, -, hbody⟩ := Option.bind_eq_some_iff.mp h
  dsimp only at hbody
  split at hbody
  · obtain ⟨⟨e, u⟩, -, hinside⟩ := Option.bind_eq_some_iff.mp hbody
    dsimp only at hinside
    split at hinside
    · cases hinside
      exact hx
    · obtain ⟨inner, -, hitems⟩ := Option.bind_eq_some_iff.mp hinside
      exact keeps_items
        (fun hx' hread => keeps_readMember hmembers hx' hread) hx hitems
  · split at hbody
    · obtain ⟨v, -, heq⟩ := Option.map_eq_some_iff.mp hbody
      cases heq
      exact hx
    · cases hbody

theorem keeps_member {α : Type} {Q : α → Prop} {name : String} {get : σ → α}
    {set : σ → α → σ} {value : ValueReader α} (hvalue : Keeps Q value)
    (hget : ∀ x, P x → Q (get x)) (hset : ∀ x a, P x → Q a → P (set x a)) :
    Keeps P (Member.of name get set value).read := by
  intro room x y s rest hx h
  obtain ⟨⟨a, u⟩, hread, heq⟩ := Option.map_eq_some_iff.mp h
  cases heq
  exact hset x a hx (hvalue (hget x hx) hread)

end Records

theorem keeps_text : Keeps (fun _ => True) text := fun _ _ _ _ _ _ _ => trivial

theorem keeps_float : Keeps (fun x => x.isFinite = true) float := by
  intro room x y s rest hx h
  obtain ⟨⟨c, t⟩, -, hbody⟩ := Option.bind_eq_some_iff.mp h
  dsimp only at hbody
  split at hbody
  · obtain ⟨v, -, heq⟩ := Option.map_eq_some_iff.mp hbody
    cases heq
    exact hx
  · exact finite_of_readFloat hbody

theorem keeps_optionalFloat :
    Keeps (fun o => o.all Binary64.isFinite = true) optionalFloat := by
  intro room o p s rest _ h
  obtain ⟨⟨c, t⟩, -, hbody⟩ := Option.bind_eq_some_iff.mp h
  dsimp only at hbody
  split at hbody
  · obtain ⟨v, -, heq⟩ := Option.map_eq_some_iff.mp hbody
    cases heq
    rfl
  · obtain ⟨⟨x, u⟩, hread, heq⟩ := Option.map_eq_some_iff.mp hbody
    cases heq
    exact finite_of_readFloat hread

theorem keeps_decode {α : Type} {P : α → Prop} {value : ValueReader α}
    (hvalue : Keeps P value) {old x : α} {s : Bytes} (hold : P old)
    (h : decode value old s = some x) : P x := by
  obtain ⟨⟨y, rest⟩, hread, hend⟩ := Option.bind_eq_some_iff.mp h
  dsimp only at hend
  split at hend
  · cases hend
    exact hvalue hold hread
  · cases hend

end Json

namespace Tick

/-- All numbers of a tick are finite. -/
structure Finite (t : Tick) : Prop where
  price : t.price.isFinite = true
  volume : t.volume.isFinite = true
  openPrice : t.openPrice.all Binary64.isFinite = true
  highPrice : t.highPrice.all Binary64.isFinite = true
  lowPrice : t.lowPrice.all Binary64.isFinite = true
  closePrice : t.closePrice.all Binary64.isFinite = true

theorem finite_default : Finite {} := ⟨rfl, rfl, rfl, rfl, rfl, rfl⟩

theorem keeps_finite : Json.Keeps Finite reader := by
  refine Json.keeps_record ?_
  simp only [members, List.forall_mem_cons, List.not_mem_nil, false_implies,
    implies_true, and_true]
  refine ⟨?_, ?_, ?_, ?_, ?_, ?_, ?_, ?_⟩
  · exact Json.keeps_member Json.keeps_text (fun _ _ => trivial)
      fun _ _ h _ => { h with }
  · exact Json.keeps_member Json.keeps_float (fun _ h => h.price)
      fun _ _ h hx => { h with price := hx }
  · exact Json.keeps_member Json.keeps_float (fun _ h => h.volume)
      fun _ _ h hx => { h with volume := hx }
  · exact Json.keeps_member Json.keeps_text (fun _ _ => trivial)
      fun _ _ h _ => { h with }
  · exact Json.keeps_member Json.keeps_optionalFloat (fun _ h => h.openPrice)
      fun _ _ h hx => { h with openPrice := hx }
  · exact Json.keeps_member Json.keeps_optionalFloat (fun _ h => h.highPrice)
      fun _ _ h hx => { h with highPrice := hx }
  · exact Json.keeps_member Json.keeps_optionalFloat (fun _ h => h.lowPrice)
      fun _ _ h hx => { h with lowPrice := hx }
  · exact Json.keeps_member Json.keeps_optionalFloat (fun _ h => h.closePrice)
      fun _ _ h hx => { h with closePrice := hx }

end Tick

namespace Feed
namespace Frame

theorem keeps_finite :
    Json.Keeps (fun f => f.payload.Finite) (Json.record .loose members) := by
  refine Json.keeps_record ?_
  simp only [members, List.forall_mem_cons, List.not_mem_nil, false_implies,
    implies_true, and_true]
  refine ⟨?_, ?_⟩
  · exact Json.keeps_member Json.keeps_text (fun _ _ => trivial)
      fun _ _ h _ => h
  · exact Json.keeps_member Tick.keeps_finite (fun _ h => h) fun _ _ _ hx => hx

theorem finite_of_parse {clock : Instant} {s : Bytes} {t : Tick}
    {channel : Channel} (h : parse clock s = .ok (t, channel)) : t.Finite := by
  obtain ⟨f, hdecode, -, -, -, rfl⟩ := parse_ok_iff.mp h
  have hf : f.payload.Finite :=
    Json.keeps_decode keeps_finite Tick.finite_default hdecode
  exact { hf with }

end Frame
end Feed
end TickRelay
