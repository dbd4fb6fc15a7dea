import TickRelay.Proofs.FrameRouting
import TickRelay.Proofs.FeedView
import TickRelay.Proofs.RegistryHistory
import TickRelay.Proofs.ValidSettings
import Mathlib.Data.List.Forall2
import Mathlib.Logic.Function.Iterate

/-!
# Symbols as keys

Settings, feed, frames, registry and requests each bring the symbols they are
given to normal form before they look anything up, some of them a second time.

**Results.** `isKey_iterate`: once or several times, the result is the same
text, valid and without white space at its ends. So a part may be given the key
in place of the symbol: settings (`validate_validate`), the list of the feed
(`ofConfigured_normalized`), the calls of the registry (`after_normalized`) and
requests (`answerTicks_congr`). `canonical_symbols` puts them together.
-/

namespace TickRelay

namespace Symbol

/-- The form in which a symbol is looked up, wherever it came from. -/
structure IsKey (s key : Bytes) : Prop where
  eq : key = normalize s
  valid : Utf8.isValid key = true
  trimmed : Trimmed (Utf8.scalars key)
  fixed : normalize key = key

theorem isValid_encode (cs : List Char) :
    Utf8.isValid (Utf8.encode cs) = true :=
  Utf8.isValid_flatMap fun c _ => Utf8.isValid_encodeChar c

theorem isKey_normalize (s : Bytes) : IsKey s (normalize s) where
  eq := rfl
  valid := isValid_encode _
  trimmed := by
    rw [normalize, Utf8.scalars_encode]
    exact (trimmed_trim _).map_upper
  fixed := normalize_normalize s

theorem isKey_iff {s key : Bytes} : IsKey s key ↔ key = normalize s :=
  ⟨IsKey.eq, fun h => h ▸ isKey_normalize s⟩

/-- Once or several times makes no difference. -/
theorem isKey_iterate (s : Bytes) (n : Nat) :
    IsKey s (normalize^[n + 1] s) := by
  rw [Function.iterate_succ_apply,
    Function.iterate_fixed (normalize_normalize s)]
  exact isKey_normalize s

end Symbol

open TickRelay.Symbol (IsKey isKey_normalize isKey_iff)

namespace Config

variable {c valid : Config}

theorem violation?_normalize (c : Config) :
    c.normalize.violation? = c.violation? := rfl

theorem normalize_normalize (c : Config) :
    c.normalize.normalize = c.normalize := by
  have hfixed :
      (c.feed.symbols.map (·.map Symbol.normalize)).map
          (·.map Symbol.normalize) =
        c.feed.symbols.map (·.map Symbol.normalize) := by
    rw [Option.map_map]
    refine Option.map_congr fun given _ => ?_
    rw [Function.comp_apply, List.map_map]
    refine List.map_congr_left fun s _ => ?_
    rw [Function.comp_apply, Symbol.normalize_normalize]
  exact congrArg (fun symbols => ({ c with
    feed := { c.feed with symbols } } : Config)) hfixed

/-- Checked settings pass the checks again, and nothing changes. -/
theorem validate_validate (h : c.validate = .ok valid) :
    valid.validate = .ok valid := by
  obtain ⟨hnone, rfl⟩ := validate_ok h
  rw [validate, violation?_normalize, hnone]
  dsimp only
  rw [normalize_normalize]

/-- The symbols of checked settings are the keys of those given. -/
theorem symbols_of_validate (h : c.validate = .ok valid) {given : List Bytes}
    (hgiven : c.feed.symbols = some given) :
    ∃ kept, valid.feed.symbols = some kept ∧
      List.Forall₂ IsKey given kept := by
  obtain ⟨-, rfl⟩ := validate_ok h
  refine ⟨given.map Symbol.normalize, by rw [normalize, hgiven]; rfl, ?_⟩
  exact List.forall₂_map_right_iff.mpr
    (List.forall₂_same.mpr fun s _ => isKey_normalize s)

end Config

namespace Feed
namespace Symbols

theorem mem_addAll {key : Bytes} {l : Symbols} (symbols : List Bytes) :
    key ∈ symbols.foldl (fun l s => (add l (Symbol.normalize s)).1) l ↔
      key ∈ l ∨ ∃ s ∈ symbols, IsKey s key := by
  induction symbols generalizing l with
  | nil => simp
  | cons s symbols ih =>
      rw [List.foldl_cons, ih, mem_add, List.exists_mem_cons_iff, isKey_iff]
      tauto

theorem mem_ofConfigured {key : Bytes} (symbols : List Bytes) :
    key ∈ ofConfigured symbols ↔ ∃ s ∈ symbols, IsKey s key := by
  rw [ofConfigured, mem_addAll]
  exact or_iff_right List.not_mem_nil

theorem ofConfigured_normalized (symbols : List Bytes) :
    ofConfigured (symbols.map Symbol.normalize) = ofConfigured symbols := by
  rw [ofConfigured, List.foldl_map]
  simp only [Symbol.normalize_normalize]
  rfl

end Symbols
end Feed

namespace Registry.Call

/-- The call with the key in place of the symbol. -/
def normalized : Call → Call
  | subscribe c s => subscribe c (Symbol.normalize s)
  | unsubscribe c s => unsubscribe c (Symbol.normalize s)
  | unsubscribeAll c => unsubscribeAll c

end Registry.Call

namespace Hub

open Registry (Call)

theorem subscribe_normalized (h : Hub) (client s : Bytes) :
    h.subscribe client (Symbol.normalize s) = h.subscribe client s := by
  rw [subscribe, Symbol.normalize_normalize]
  rfl

theorem unsubscribe_normalized (h : Hub) (client s : Bytes) :
    h.unsubscribe client (Symbol.normalize s) = h.unsubscribe client s := by
  rw [unsubscribe, Symbol.normalize_normalize]
  rfl

theorem carry_normalized (h : Hub) (call : Call) :
    h.carry call.normalized = h.carry call := by
  cases call with
  | subscribe c s => exact congrArg Prod.fst (h.subscribe_normalized c s)
  | unsubscribe c s => exact congrArg Prod.fst (h.unsubscribe_normalized c s)
  | unsubscribeAll c => rfl

/-- Calls with the keys in place of the symbols lead to the same hub. -/
theorem after_normalized (h : Hub) (calls : List Call) :
    h.after (calls.map Call.normalized) = h.after calls := by
  induction calls generalizing h with
  | nil => rfl
  | cons call calls ih =>
      rw [List.map_cons, after, List.foldl_cons, carry_normalized]
      exact ih (h.carry call)

/-- Every symbol of the registry is the key of one that was subscribed. -/
theorem isKey_of_mem_symbols (h : Hub) (calls : List Call) {key : Bytes}
    (hkey : key ∈ (h.unsubscribed.after calls).registry.symbols) :
    ∃ client s, Call.subscribe client s ∈ calls ∧ IsKey s key := by
  obtain ⟨hfixed, client, hclient⟩ := (h.tidy_after calls).mem_symbols.mp hkey
  have hsome : Symbol.normalize key ≠ [] := fun hnil =>
    (h.tidy_after calls).not_mem_subscribers hnil hclient
  obtain ⟨call, hlast, hsub⟩ :=
    (mem_subscribers_after h calls hsome).mp hclient
  have hcall := List.mem_filter.mp (List.mem_of_getLast? hlast)
  cases call with
  | subscribe c s =>
      have hconcerns : Symbol.normalize s = Symbol.normalize key := by
        have hboth := hcall.2
        simp only [Call.concerns, Bool.and_eq_true, decide_eq_true_eq] at hboth
        exact hboth.2
      exact ⟨c, s, hcall.1, isKey_iff.mpr (hfixed.symm.trans hconcerns.symm)⟩
  | unsubscribe c s => cases hsub
  | unsubscribeAll c => cases hsub

end Hub

namespace Server

/-- The symbol that a request for ticks names. -/
def queriedSymbol (r : Http.Request) : Bytes :=
  (Http.queryValue? r.query (utf8 "symbol")).getD []

/-- The cache is asked for the key of the symbol that the request names. -/
theorem answerTicks_eq (c : Cache) (r : Http.Request) :
    answerTicks c r =
      if Symbol.normalize (queriedSymbol r) = [] then
        .error 400 (utf8 "symbol is required")
      else .json (ticksJson? (c.ticks (Symbol.normalize (queriedSymbol r)))) :=
        rfl

theorem answerTicks_congr (c : Cache) {r r' : Http.Request}
    (h : Symbol.normalize (queriedSymbol r) =
      Symbol.normalize (queriedSymbol r')) :
    answerTicks c r = answerTicks c r' := by
  rw [answerTicks_eq, answerTicks_eq, h]

end Server

namespace Symbol

open Registry (Call)

/-- **Symbols are canonical.** Brought to normal form once or several times, a
text is valid UTF-8 without white space at its ends and is its own normal form.
This is the key under which settings, feed, frames, registry and requests look
a symbol up, and each of them does the same with the key as with the symbol. -/
theorem canonical_symbols :
    (∀ s n, IsKey s (normalize^[n + 1] s)) ∧
    (∀ c valid : Config, c.validate = .ok valid →
      (∀ given, c.feed.symbols = some given →
        ∃ kept, valid.feed.symbols = some kept ∧
          List.Forall₂ IsKey given kept) ∧
      valid.validate = .ok valid) ∧
    (∀ symbols : List Bytes,
      (∀ key, key ∈ (Feed.Client.ofConfigured symbols).symbols ↔
          ∃ s ∈ symbols, IsKey s key) ∧
      Feed.Client.ofConfigured (symbols.map normalize) =
        Feed.Client.ofConfigured symbols) ∧
    (∀ clock frame t channel, Feed.Frame.parse clock frame = .ok (t, channel) →
      ∃ f, Feed.Frame.decode? frame = some f ∧
        IsKey f.payload.symbol t.symbol) ∧
    (∀ (h : Hub) (calls : List Call),
      (∀ key ∈ (h.unsubscribed.after calls).registry.symbols,
        ∃ client s, Call.subscribe client s ∈ calls ∧ IsKey s key) ∧
      h.after (calls.map Call.normalized) = h.after calls ∧
      ∀ s, h.registry.subscribers (normalize s) = h.registry.subscribers s) ∧
    ∀ (c : Cache) (r : Http.Request),
      (∃ key, IsKey (Server.queriedSymbol r) key ∧
        Server.answerTicks c r =
          if key = [] then .error 400 (utf8 "symbol is required")
          else .json (Server.ticksJson? (c.ticks key))) ∧
      ∀ r', Server.queriedSymbol r' = normalize (Server.queriedSymbol r) →
        Server.answerTicks c r' = Server.answerTicks c r := by
  refine ⟨isKey_iterate, ?_, ?_, ?_, ?_, ?_⟩
  · intro c valid h
    exact ⟨fun given hgiven => Config.symbols_of_validate h hgiven,
      Config.validate_validate h⟩
  · intro symbols
    refine ⟨fun key => Feed.Symbols.mem_ofConfigured symbols, ?_⟩
    rw [Feed.Client.ofConfigured, Feed.Symbols.ofConfigured_normalized]
    rfl
  · intro clock frame t channel h
    obtain ⟨f, hdecode, -, -, -, rfl⟩ := Feed.Frame.parse_ok_iff.mp h
    exact ⟨f, hdecode, isKey_normalize _⟩
  · intro h calls
    refine ⟨fun key => h.isKey_of_mem_symbols calls, h.after_normalized calls,
      fun s => ?_⟩
    rw [Registry.subscribers, normalize_normalize]
    rfl
  · intro c r
    refine ⟨⟨_, isKey_normalize _, Server.answerTicks_eq c r⟩,
      fun r' hr' => ?_⟩
    exact Server.answerTicks_congr c (by rw [hr', normalize_normalize])

/-- A no-break space, a letter, a byte that belongs to no character, and a
space. -/
def oddSymbol : Bytes := [0xC2, 0xA0, 0x61, 0xFF, 0x20]

/-- The default settings with that symbol, checked twice. -/
theorem canonical_symbols_of_oddSymbol :
    ∃ valid : Config,
      ({ feed := { symbols := some [oddSymbol] } } : Config).validate =
        .ok valid ∧
      valid.feed.symbols = some [[0x41, 0xEF, 0xBF, 0xBD]] ∧
      valid.validate = .ok valid := by
  obtain ⟨-, hsettings, -⟩ := canonical_symbols
  have hchecked :
      ({ feed := { symbols := some [oddSymbol] } } : Config).validate =
        .ok (Config.normalize
          { feed := { symbols := some [oddSymbol] } }) := rfl
  obtain ⟨hkeys, hagain⟩ := hsettings _ _ hchecked
  obtain ⟨kept, hkept, hall⟩ := hkeys [oddSymbol] rfl
  refine ⟨_, hchecked, hkept.trans ?_, hagain⟩
  obtain ⟨key, rest, hkey, hrest, rfl⟩ := List.forall₂_cons_left_iff.mp hall
  obtain rfl := List.forall₂_nil_left_iff.mp hrest
  rw [hkey.eq]
  decide +kernel

end Symbol
end TickRelay
