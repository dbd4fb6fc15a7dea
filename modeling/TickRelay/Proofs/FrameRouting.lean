import TickRelay.App
import TickRelay.Proofs.SymbolForm

/-!
# The way of a frame through the application

**Input.** What happens to an application: frames of the provider, one after
the other, and between them whatever clients, storages and clocks do.

**Algorithm.** `App.run` handles the events in their order, the frames by
`App.receive`. Each part of the application has a history of its own, told
without the other parts: `bufferAfter` and `cacheAfter` for what is added to a
buffer and to the cache, `offered` for what is offered to the clients.

**Results.** `Frame.parse_ok_iff` says which frames hold a tick, and which one.
`eq_of_build` names the buffers. `routing` says that every part of the
application has gone through its own history.
-/

namespace TickRelay

namespace Instant

theorem text_ne_nil (t : Instant) : t.text ≠ [] := by
  simp only [text, ZonedTime.text, ne_eq, List.append_eq_nil_iff, not_and]
  intro hdate
  exact absurd hdate.1.2 (by decide)

end Instant

namespace Feed
namespace Frame

variable {clock : Instant} {s : Bytes} {t : Tick} {channel : Channel}

theorem channel?_eq_some {kind : Bytes} :
    channel? kind = some channel ↔
      kind = utf8 "price_update" ∧ channel = .live ∨ kind = utf8 "history" ∧
      channel = .history := by
  have hne : utf8 "history" ≠ utf8 "price_update" := by decide
  unfold channel?
  split
  · rename_i hlive
    simp [hlive, hne.symm, eq_comm]
  · rename_i hlive
    split
    · rename_i hhistory
      simp [hhistory, hne, eq_comm]
    · rename_i hhistory
      simp [hlive, hhistory]

/-- The tick that is published of a message. -/
def tick (clock : Instant) (f : Frame) : Tick :=
  { f.payload with
    symbol := Symbol.normalize f.payload.symbol
    timestamp :=
      if f.payload.timestamp = [] then clock.text else f.payload.timestamp }

/-- What becomes of a message whose type names a channel. -/
theorem parse_of_decode? {f : Frame} (hdecode : decode? s = some f)
    (hchannel : channel? f.kind = some channel) :
    parse clock s =
      if Symbol.normalize f.payload.symbol = [] then .error .emptySymbol
      else if channel = .history ∧ f.payload.timestamp = [] then
        .error .untimedHistory
      else .ok (f.tick clock, channel) := by
  unfold parse
  simp only [hdecode, hchannel]
  by_cases hsymbol : Symbol.normalize f.payload.symbol = []
  · simp [hsymbol]
  · by_cases htime : f.payload.timestamp = []
    · cases channel <;> simp [hsymbol, htime, tick]
    · simp [hsymbol, htime, tick]

/-- The messages that hold a tick. -/
theorem parse_ok_iff :
    parse clock s = .ok (t, channel) ↔
      ∃ f, decode? s = some f ∧ channel? f.kind = some channel ∧
        Symbol.normalize f.payload.symbol ≠ [] ∧
        (channel = .history → f.payload.timestamp ≠ []) ∧
        t = f.tick clock := by
  constructor
  · intro hparse
    cases hdecode : decode? s with
    | none => simp [parse, hdecode] at hparse
    | some f =>
        cases hchannel : channel? f.kind with
        | none => simp [parse, hdecode, hchannel] at hparse
        | some ch =>
            rw [parse_of_decode? hdecode hchannel] at hparse
            split at hparse
            · cases hparse
            · rename_i hsymbol
              split at hparse
              · cases hparse
              · rename_i htime
                cases hparse
                exact ⟨f, rfl, hchannel, hsymbol,
                  fun hh ht => htime ⟨hh, ht⟩, rfl⟩
  · rintro ⟨f, hdecode, hchannel, hsymbol, htime, rfl⟩
    rw [parse_of_decode? hdecode hchannel, if_neg hsymbol, if_neg]
    rintro ⟨hhistory, hnone⟩
    exact htime hhistory hnone

/-- Every tick of a message has a normal symbol and a time. -/
theorem form_of_parse (h : parse clock s = .ok (t, channel)) :
    t.symbol ≠ [] ∧ Symbol.normalize t.symbol = t.symbol ∧
    t.timestamp ≠ [] := by
  obtain ⟨f, -, -, hsymbol, -, rfl⟩ := parse_ok_iff.mp h
  refine ⟨hsymbol, Symbol.normalize_normalize f.payload.symbol, ?_⟩
  unfold tick
  dsimp only
  split
  · exact Instant.text_ne_nil clock
  · assumption

end Frame
end Feed

namespace StorageKind

theorem name_injective :
    ∀ {k k' : StorageKind}, k.name = k'.name → k = k' := by
  intro k k'
  cases k <;> cases k' <;> decide

theorem name_of_ofName? {s : Bytes} {k : StorageKind}
    (h : ofName? s = some k) : k.name = s := by
  simpa using List.find?_some h

theorem ofName?_isSome (s : Bytes) :
    (ofName? s).isSome = Config.knownStorages.contains s := by
  have hnames :
      Config.knownStorages = [terminal, mysql, elastic, redis].map name := rfl
  rw [hnames, Bool.eq_iff_iff, ofName?, List.find?_isSome,
    List.contains_iff_mem, List.mem_map]
  simp only [decide_eq_true_eq]

theorem map_name_filterMap (names : List Bytes) :
    (names.filterMap ofName?).map name =
      names.filter Config.knownStorages.contains := by
  induction names with
  | nil => rfl
  | cons s names ih =>
      have hknown := ofName?_isSome s
      cases hkind : ofName? s with
      | none =>
          rw [hkind] at hknown
          rw [List.filterMap_cons_none hkind, List.filter_cons, ← hknown, ih]
          rfl
      | some k =>
          rw [hkind] at hknown
          rw [List.filterMap_cons_some hkind, List.map_cons, ih,
            name_of_ofName? hkind, List.filter_cons, ← hknown]
          rfl

/-- No two storages have one name, so repetitions can be dropped before or
after naming. -/
theorem map_name_eraseDups (kinds : List StorageKind) :
    kinds.eraseDups.map name = (kinds.map name).eraseDups := by
  -- the induction is on the length, as each step takes all copies of the first
  -- storage out
  induction hn : kinds.length using Nat.strongRecOn generalizing kinds with
  | _ n ih =>
      cases kinds with
      | nil => rfl
      | cons k kinds =>
          have hfilter : (kinds.map name).filter (fun s => !s == k.name) =
              (kinds.filter fun k' => !k' == k).map name := by
            rw [List.filter_map]
            congr 1
            apply List.filter_congr
            intro k' _
            have hsame : (k'.name == k.name) = (k' == k) := by
              rw [Bool.eq_iff_iff, beq_iff_eq, beq_iff_eq]
              exact ⟨name_injective, congrArg name⟩
            simp only [Function.comp_apply, hsame]
          have hshort : (kinds.filter fun k' => !k' == k).length < n := by
            have := List.length_filter_le (fun k' => !k' == k) kinds
            rw [List.length_cons] at hn
            omega
          rw [List.eraseDups_cons, List.map_cons, List.map_cons,
            List.eraseDups_cons, hfilter, ih _ hshort _ rfl]

theorem map_name_configured (names : List Bytes) :
    (configured names).map name =
      (names.filter Config.knownStorages.contains).eraseDups := by
  rw [configured, map_name_eraseDups, map_name_filterMap]

end StorageKind

/-- What the connections of a plan answer. -/
def Dispatch.Plan.answers (offer : Connection → Bytes → Option SendError) :
    Dispatch.Plan → Dispatch.Report
  | .offer frame targets => targets.map fun c => (c, offer c frame)
  | _ => []

/-- Delivering a tick changes counters only, and not the one of received
messages. -/
theorem Hub.dispatch_frame (offer : Connection → Bytes → Option SendError)
    (latency : Binary64) (t : Tick) (h : Hub) :
    ∃ metrics : Metrics,
      h.dispatch offer latency t =
        ({ h with metrics }, Dispatch.plan h.registry h.pool t,
          (Dispatch.plan h.registry h.pool t).answers offer) ∧
      metrics.messagesReceived = h.metrics.messagesReceived := by
  unfold dispatch
  cases Dispatch.plan h.registry h.pool t with
  | nothing => exact ⟨h.metrics, rfl, rfl⟩
  | unwritable => exact ⟨h.metrics.failed, rfl, rfl⟩
  | offer frame targets => exact ⟨_, rfl, rfl⟩

namespace App

/-- A frame of the provider as it arrives. -/
structure Arrival where
  clock : Instant
  /-- What a connection answers to a frame. -/
  offer : Connection → Bytes → Option SendError
  latency : Binary64
  frame : Bytes

namespace Arrival

variable (f : Arrival)

/-- The tick that is published of a frame, and its channel. -/
def tick? : Option (Tick × Feed.Channel) :=
  (Feed.Frame.parse f.clock f.frame).toOption

def buffered (b : Ingest.Buffer) : Ingest.Buffer :=
  match f.tick? with
  | some (t, _) => b.add t
  | none => b

def cached (c : Cache) : Cache :=
  match f.tick? with
  | some (t, .live) => c.handle f.clock t
  | _ => c

/-- What clients are offered of a frame, by their subscriptions and
connections. -/
def delivered (r : Registry) (p : Pool) : Dispatch.Plan × Dispatch.Report :=
  match f.tick? with
  | some (t, .live) =>
      (Dispatch.plan r p t, (Dispatch.plan r p t).answers f.offer)
  | _ => (.nothing, [])

def receive (a : App) : App × Dispatch.Plan × Dispatch.Report :=
  a.receive f.clock f.offer f.latency f.frame

variable {f} {a : App}

theorem tick?_eq_some {p : Tick × Feed.Channel} :
    f.tick? = some p ↔ Feed.Frame.parse f.clock f.frame = .ok p := by
  unfold tick?
  cases Feed.Frame.parse f.clock f.frame <;> simp [Except.toOption]

theorem receive_of_none (h : f.tick? = none) :
    f.receive a = (a, .nothing, []) := by
  unfold tick? at h
  unfold receive App.receive Feed.Client.handle
  cases hparse : Feed.Frame.parse f.clock f.frame with
  | error e => rfl
  | ok p => simp [hparse, Except.toOption] at h

theorem receive_of_history {t : Tick} (h : f.tick? = some (t, .history)) :
    f.receive a =
      (({ a with
        hub := { a.hub with feed := { a.hub.feed with
          received := a.hub.feed.received + 1 } } } : App).ingest t,
        .nothing, []) := by
  unfold receive App.receive Feed.Client.handle
  rw [tick?_eq_some.mp h]

theorem receive_of_live {t : Tick} (h : f.tick? = some (t, .live)) :
    ∃ metrics : Metrics,
      metrics.messagesReceived = a.hub.metrics.messagesReceived + 1 ∧
      f.receive a =
        (({ a with
          hub := { a.hub with
            feed := { a.hub.feed with received := a.hub.feed.received + 1 },
            metrics }
          cache := a.cache.handle f.clock t } : App).ingest t,
          f.delivered a.hub.registry a.hub.pool) := by
  obtain ⟨metrics, hdispatch, hmessages⟩ :=
    Hub.dispatch_frame f.offer f.latency t { a.hub with
      feed := { a.hub.feed with received := a.hub.feed.received + 1 }
      metrics := a.hub.metrics.received }
  refine ⟨metrics, hmessages, ?_⟩
  unfold receive App.receive Feed.Client.handle delivered
  rw [h, tick?_eq_some.mp h]
  simp only [ingest, hdispatch]

/-- What a frame does to each part of an application. -/
theorem receive_spec (f : Arrival) (a : App) :
    (f.receive a).1.sinks = a.sinks.map (fun s => { s with
      buffer := f.buffered s.buffer }) ∧
    (f.receive a).1.cache = f.cached a.cache ∧
    (f.receive a).1.hub.registry = a.hub.registry ∧
    (f.receive a).1.hub.pool = a.hub.pool ∧
    (f.receive a).1.hub.feed.received =
      a.hub.feed.received + f.tick?.toList.length ∧
    (f.receive a).1.hub.metrics.messagesReceived =
      a.hub.metrics.messagesReceived +
        f.tick?.toList.countP (fun p => p.2 = .live) ∧
    (f.receive a).2 = f.delivered a.hub.registry a.hub.pool := by
  cases htick : f.tick? with
  | none => simp [receive_of_none htick, buffered, cached, delivered, htick]
  | some p =>
      obtain ⟨t, channel⟩ := p
      cases channel with
      | history =>
          simp [receive_of_history htick, ingest, buffered,
            cached, delivered, htick]
      | live =>
          obtain ⟨metrics, hmessages, hreceive⟩ :=
            receive_of_live (a := a) htick
          simp [hreceive, hmessages, ingest, buffered, cached, htick]

end Arrival

/-- What clients, storages and clocks do between two frames. Ticks are
published by nobody else. -/
structure Meanwhile where
  /-- The hub as it is left. -/
  hub : Hub
  /-- The messages of clients, which are counted with the live ticks. -/
  commands : Nat := 0
  cache : Cache → Cache := id
  health : HealthCheck → HealthCheck := id
  /-- What becomes of each buffer. -/
  buffer : Nat → Ingest.Buffer → Ingest.Buffer := fun _ b => b

def Meanwhile.apply (m : Meanwhile) (a : App) : App :=
  { a with
    hub := { m.hub with
      feed := { m.hub.feed with received := a.hub.feed.received }
      metrics := { m.hub.metrics with
        messagesReceived := a.hub.metrics.messagesReceived + m.commands } }
    cache := m.cache a.cache
    health := m.health a.health
    sinks := a.sinks.mapIdx fun n s =>
      { s with buffer := m.buffer n s.buffer } }

inductive Event where
  | frame (f : Arrival)
  | between (m : Meanwhile)

namespace Event

def tick? : Event → Option (Tick × Feed.Channel)
  | frame f => f.tick?
  | between _ => none

def commands : Event → Nat
  | frame _ => 0
  | between m => m.commands

def onBuffer (n : Nat) : Event → Ingest.Buffer → Ingest.Buffer
  | frame f => f.buffered
  | between m => m.buffer n

def onCache : Event → Cache → Cache
  | frame f => f.cached
  | between m => m.cache

end Event

def step (a : App) : Event → App
  | .frame f => (f.receive a).1
  | .between m => m.apply a

def run (a : App) (es : List Event) : App := es.foldl step a

/-- What is offered to clients, frame after frame. -/
def deliveries (a : App) : List Event → List (Dispatch.Plan × Dispatch.Report)
  | [] => []
  | .frame f :: es => (f.receive a).2 :: (a.step (.frame f)).deliveries es
  | .between m :: es => (a.step (.between m)).deliveries es

/-- The ticks that are published, oldest first. -/
def published (es : List Event) : List (Tick × Feed.Channel) :=
  es.filterMap Event.tick?

def commands (es : List Event) : Nat := es.foldl (fun n e => n + e.commands) 0

/-- The history of one buffer. -/
def bufferAfter (n : Nat) (b : Ingest.Buffer) (es : List Event) :
    Ingest.Buffer :=
  es.foldl (fun b e => e.onBuffer n b) b

/-- The history of the cache. -/
def cacheAfter (c : Cache) (es : List Event) : Cache :=
  es.foldl (fun c e => e.onCache c) c

/-- The history of what is offered to clients. -/
def offered (r : Registry) (p : Pool) :
    List Event → List (Dispatch.Plan × Dispatch.Report)
  | [] => []
  | .frame f :: es => f.delivered r p :: offered r p es
  | .between m :: es => offered m.hub.registry m.hub.pool es

section Histories

variable (a : App) (e : Event) (es : List Event)

theorem sinks_step (n : Nat) :
    (a.step e).sinks[n]? = a.sinks[n]?.map fun s =>
      { s with buffer := e.onBuffer n s.buffer } := by
  cases e with
  | frame f => simp [step, (f.receive_spec a).1, Event.onBuffer]
  | between m => simp [step, Meanwhile.apply, Event.onBuffer]

theorem cache_step : (a.step e).cache = e.onCache a.cache := by
  cases e with
  | frame f => exact (f.receive_spec a).2.1
  | between m => rfl

theorem received_step :
    (a.step e).hub.feed.received =
      a.hub.feed.received + e.tick?.toList.length := by
  cases e with
  | frame f => exact (f.receive_spec a).2.2.2.2.1
  | between m => rfl

theorem messages_step :
    (a.step e).hub.metrics.messagesReceived =
      a.hub.metrics.messagesReceived +
      (e.tick?.toList.countP (fun p => p.2 = .live) + e.commands : Nat) := by
  cases e with
  | frame f => exact (f.receive_spec a).2.2.2.2.2.1
  | between m => simp [step, Meanwhile.apply, Event.tick?, Event.commands]

theorem sinks_run (n : Nat) :
    (a.run es).sinks[n]? = a.sinks[n]?.map fun s =>
      { s with buffer := bufferAfter n s.buffer es } := by
  induction es generalizing a with
  | nil => simp [run, bufferAfter]
  | cons e es ih =>
      rw [run, List.foldl_cons, ← run, ih, sinks_step, Option.map_map]
      rfl

theorem names_run :
    (a.run es).sinks.map Sink.name = a.sinks.map Sink.name := by
  apply List.ext_getElem?
  intro n
  simp [sinks_run, Function.comp_def]

theorem cache_run : (a.run es).cache = cacheAfter a.cache es := by
  induction es generalizing a with
  | nil => rfl
  | cons e es ih =>
      rw [run, List.foldl_cons, ← run, ih, cache_step]
      rfl

theorem received_run :
    (a.run es).hub.feed.received =
      a.hub.feed.received + (published es).length := by
  induction es generalizing a with
  | nil => rfl
  | cons e es ih =>
      rw [run, List.foldl_cons, ← run, ih, received_step, published, published,
        List.filterMap_cons]
      cases e.tick? with
      | none => rfl
      | some p =>
          simp only [Option.toList_some, List.length_cons, List.length_nil]
          omega

theorem commands_cons : commands (e :: es) = e.commands + commands es := by
  have hshift : ∀ (n : Nat) (es : List Event),
      es.foldl (fun n e => n + e.commands) n = n + commands es := by
    intro n es
    induction es generalizing n with
    | nil => rfl
    | cons e es ih =>
        rw [commands, List.foldl_cons, List.foldl_cons, ih, ih]
        omega
  rw [commands, List.foldl_cons, hshift, Nat.zero_add]

theorem messages_run :
    (a.run es).hub.metrics.messagesReceived =
      a.hub.metrics.messagesReceived +
      ((published es).countP (fun p => p.2 = .live) + commands es : Nat) := by
  induction es generalizing a with
  | nil => simp [run, published, commands]
  | cons e es ih =>
      rw [run, List.foldl_cons, ← run, ih, messages_step, commands_cons,
        published, published, List.filterMap_cons]
      cases e.tick? with
      | none =>
          simp only [Option.toList_none, List.countP_nil]
          omega
      | some p =>
          simp only [Option.toList_some, List.countP_cons, List.countP_nil]
          omega

/-- Frames leave subscriptions and connections alone. -/
theorem deliveries_run :
    a.deliveries es = offered a.hub.registry a.hub.pool es := by
  induction es generalizing a with
  | nil => rfl
  | cons e es ih =>
      cases e with
      | frame f =>
          obtain ⟨-, -, hregistry, hpool, -, -, hdelivered⟩ := f.receive_spec a
          rw [deliveries, offered, hdelivered, ih, step, hregistry, hpool]
      | between m => exact ih (m.apply a)

end Histories

variable {c : Config} {now : Instant} {reachable : StorageKind → Bool}
  {further : List Bytes} {a : App}

/-- The buffers of an application are those of the configured storages and of
the further ones. -/
theorem eq_of_build (h : build c now reachable further = .ok a) :
    a = assemble c now
        (((c.ingestion.storages.getD []).filter
        Config.knownStorages.contains).eraseDups ++ further) := by
  unfold build at h
  dsimp only at h
  split at h
  · cases h
  · split at h
    · cases h
    · rw [← StorageKind.map_name_configured]
      exact (Except.ok.inj h).symm

/-- What holds of an application that was set up from a configuration and went
through some events. -/
structure Routed (c : Config) (further : List Bytes) (a : App)
    (es : List Event) : Prop where
  /-- There is a buffer for each configured storage, and one for each further
  storage. -/
  names : (a.run es).sinks.map Sink.name =
    ((c.ingestion.storages.getD []).filter
      Config.knownStorages.contains).eraseDups ++ further
  /-- Every buffer got all ticks in the order of their arrival. -/
  buffers : ∀ n s, (a.run es).sinks[n]? = some s →
    s.buffer = bufferAfter n { limits := limits c } es
  /-- The cache got the live ticks in the order of their arrival. -/
  cache : (a.run es).cache =
    cacheAfter { maxTicks := c.cache.maxTicksPerSymbol,
                 maxAge := seconds c.cache.maxAgeSec } es
  /-- Clients were offered the live ticks in the order of their arrival. -/
  deliveries : a.deliveries es = offered {} {} es
  /-- All ticks are counted by the feed. -/
  received : (a.run es).hub.feed.received = (published es).length
  /-- The live ticks are counted as messages, beside the messages of
  clients. -/
  messages : (a.run es).hub.metrics.messagesReceived =
    ((published es).countP (fun p => p.2 = .live) + commands es : Nat)

theorem routed_of_build (h : build c now reachable further = .ok a)
    (es : List Event) : Routed c further a es := by
  rw [eq_of_build h]
  constructor
  case names => simp [names_run, assemble, Function.comp_def]
  case buffers =>
    intro n s hs
    rw [sinks_run, assemble, List.getElem?_map, Option.map_map,
      Option.map_eq_some_iff] at hs
    obtain ⟨name, -, rfl⟩ := hs
    rfl
  case cache => exact cache_run _ es
  case deliveries => exact deliveries_run _ es
  case received => exact (received_run _ es).trans (Nat.zero_add _)
  case messages => exact (messages_run _ es).trans (Int.zero_add _)

/-- **Every part of an application gets its own share of the frames.** A frame
holds a tick exactly when it can be read, names a channel, and has a symbol
and, for history, a time. Any other frame changes nothing. Whatever happens
between the frames, each buffer, the cache, the clients and the counters go
through a history of their own, and every published tick has a normal symbol
and a time. -/
theorem routing (h : build c now reachable further = .ok a) (es : List Event) :
    Routed c further a es ∧
    (∀ (f : Arrival) t channel, f.tick? = some (t, channel) ↔
      ∃ m, Feed.Frame.decode? f.frame = some m ∧
        (m.kind = utf8 "price_update" ∧ channel = .live ∨
            m.kind = utf8 "history" ∧ channel = .history) ∧
        Symbol.normalize m.payload.symbol ≠ [] ∧
        (channel = .history → m.payload.timestamp ≠ []) ∧ t = m.tick f.clock) ∧
    (∀ (f : Arrival) (b : App), f.tick? = none →
        f.receive b = (b, .nothing, [])) ∧
    ∀ p ∈ published es,
      p.1.symbol ≠ [] ∧ Symbol.normalize p.1.symbol = p.1.symbol ∧
      p.1.timestamp ≠ [] := by
  refine ⟨routed_of_build h es, ?_,
    fun f b hnone => Arrival.receive_of_none hnone, ?_⟩
  · intro f t channel
    rw [Arrival.tick?_eq_some, Feed.Frame.parse_ok_iff]
    simp only [Feed.Frame.channel?_eq_some]
  · rintro ⟨t, channel⟩ hp
    obtain ⟨e, -, htick⟩ := List.mem_filterMap.mp hp
    cases e with
    | between m => cases htick
    | frame f =>
        exact Feed.Frame.form_of_parse (Arrival.tick?_eq_some.mp htick)

/-- Settings that name a storage twice. -/
def twiceTerminal : Config :=
  { ingestion := { storages := some [utf8 "terminal", utf8 "mysql",
    utf8 "terminal"] } }

/-- A hub with one client, who watches one symbol. -/
def watched : Hub where
  limiter := { window := 1, max := 1 }
  pool := (({} : Pool).insert (utf8 "c") ⟨0, utf8 "c"⟩).1
  registry := (({} : Registry).join (utf8 "c") (utf8 "BTC")).1

/-- History, a live tick without symbol, a client who subscribes, and a live
tick. -/
def mixed : List Event :=
  let arrival (s : String) : Event :=
    .frame { clock := ⟨0⟩, offer := fun _ _ => none, latency := .zero,
             frame := utf8 s }
  [arrival ("\x7b\"type\":\"history\",\"payload\":" ++
      "\x7b\"symbol\":\" btc\",\"timestamp\":\"t\"\x7d\x7d"),
    arrival ("\x7b\"type\":\"price_update\",\"payload\":" ++
      "\x7b\"symbol\":\" \"\x7d\x7d"),
    .between { hub := watched, commands := 1 },
    arrival ("\x7b\"type\":\"price_update\",\"payload\":" ++
      "\x7b\"symbol\":\"btc\"\x7d\x7d")]

/-- All three buffers hold both ticks; the live one alone is cached, delivered
and counted as a message, beside the command of the client. -/
theorem routing_of_mixed :
    ∃ a, build twiceTerminal ⟨0⟩ (fun _ => true) [utf8 "audit"] = .ok a ∧
      (a.run mixed).sinks.map (fun s => (s.name, s.buffer.queue.length)) =
        [(utf8 "terminal", 2), (utf8 "mysql", 2), (utf8 "audit", 2)] ∧
      ((a.run mixed).cache.ticks (utf8 "BTC")).length = 1 ∧
      (a.deliveries mixed).map (fun d => d.2.map (·.1.key)) = [[], [], [0]] ∧
      (a.run mixed).hub.feed.received = 2 ∧
      (a.run mixed).hub.metrics.messagesReceived = 2 ∧
      Routed twiceTerminal [utf8 "audit"] a mixed ∧
      ∀ p ∈ published mixed, p.1.symbol ≠ [] ∧ p.1.timestamp ≠ [] := by
  have hbuild : build twiceTerminal ⟨0⟩ (fun _ => true) [utf8 "audit"] =
      .ok (assemble twiceTerminal ⟨0⟩
        [utf8 "terminal", utf8 "mysql", utf8 "audit"]) := rfl
  obtain ⟨hrouted, -, -, hform⟩ := routing hbuild mixed
  refine ⟨_, hbuild, by decide +kernel, by decide +kernel, by decide +kernel,
    by decide +kernel, by decide +kernel, hrouted, fun p hp => ?_⟩
  exact ⟨(hform p hp).1, (hform p hp).2.2⟩

end App

end TickRelay
