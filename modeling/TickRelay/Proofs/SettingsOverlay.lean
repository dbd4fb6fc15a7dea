import TickRelay.Config.Load
import TickRelay.Proofs.RecordOverlay

/-!
# Settings over their defaults

**Algorithm.** A configuration is a record of records, and each of them is read
field by field. So the readers are given as layouts, which are equal to them,
and what is known of layouts holds of them.

**Results.** `load_overlay`: a setting that the text of a configuration does
not name has its default; and the members of its objects may change places, and
unknown members may be added, at any level, with the same settings as the
result, if no name is given twice and nothing in the text depends on where it
stands. `load_depends_on_place` shows what does.
-/

namespace TickRelay
namespace Config

open Json (Layout Field Shape Doc Names token)

def Retry.layout : Layout Retry where
  fields := [
    .of "number" (·.number) ({ · with number := · }) .integer,
    .of "base_ms" (·.baseMs) ({ · with baseMs := · }) .integer,
    .of "max_sec" (·.maxSec) ({ · with maxSec := · }) .integer,
    .of "reset_sec" (·.resetSec) ({ · with resetSec := · }) .integer]

def Feed.layout : Layout Feed where
  fields := [
    .of "url" (·.url) ({ · with url := · }) .text,
    .of "symbols" (·.symbols) ({ · with symbols := · }) .texts,
    .of "connect_on_start" (·.connectOnStart)
      ({ · with connectOnStart := · }) .flag,
    .of "retry" (·.retry) ({ · with retry := · }) Retry.layout.reading]

def Server.layout : Layout Server where
  fields := [
    .of "addr" (·.addr) ({ · with addr := · }) .text,
    .of "client_id_header" (·.clientIdHeader)
      ({ · with clientIdHeader := · }) .text,
    .of "send_queue_size" (·.sendQueueSize)
      ({ · with sendQueueSize := · }) .integer,
    .of "write_wait_sec" (·.writeWaitSec)
      ({ · with writeWaitSec := · }) .integer,
    .of "pong_wait_sec" (·.pongWaitSec) ({ · with pongWaitSec := · }) .integer,
    .of "max_message_size" (·.maxMessageSize)
      ({ · with maxMessageSize := · }) .integer]

def Cache.layout : Layout Cache where
  fields := [
    .of "max_ticks_per_symbol" (·.maxTicksPerSymbol)
      ({ · with maxTicksPerSymbol := · }) .integer,
    .of "max_age_sec" (·.maxAgeSec) ({ · with maxAgeSec := · }) .integer,
    .of "sweep_interval_sec" (·.sweepIntervalSec)
      ({ · with sweepIntervalSec := · }) .integer]

def Ingestion.layout : Layout Ingestion where
  fields := [
    .of "storages" (·.storages) ({ · with storages := · }) .texts,
    .of "commit_buffer" (·.commitBuffer)
      ({ · with commitBuffer := · }) .integer,
    .of "flush_interval_ms" (·.flushIntervalMs)
      ({ · with flushIntervalMs := · }) .integer,
    .of "max_buffered" (·.maxBuffered) ({ · with maxBuffered := · }) .integer]

def RateLimit.layout : Layout RateLimit where
  fields := [
    .of "window_sec" (·.windowSec) ({ · with windowSec := · }) .integer,
    .of "max_requests" (·.maxRequests) ({ · with maxRequests := · }) .integer,
    .of "sweep_interval_sec" (·.sweepIntervalSec)
      ({ · with sweepIntervalSec := · }) .integer]

def Health.layout : Layout Health where
  fields := [
    .of "degraded_latency_ms" (·.degradedLatencyMs)
      ({ · with degradedLatencyMs := · }) .number,
    .of "unhealthy_latency_ms" (·.unhealthyLatencyMs)
      ({ · with unhealthyLatencyMs := · }) .number,
    .of "degraded_errors" (·.degradedErrors)
      ({ · with degradedErrors := · }) .integer,
    .of "unhealthy_errors" (·.unhealthyErrors)
      ({ · with unhealthyErrors := · }) .integer,
    .of "require_feed" (·.requireFeed) ({ · with requireFeed := · }) .flag]

def Registry.layout : Layout Registry where
  fields := [
    .of "release_upstream_on_idle" (·.releaseOnIdle)
      ({ · with releaseOnIdle := · }) .flag]

def Websocket.layout : Layout Websocket where
  fields := [
    .of "conn_timeout_sec" (·.connTimeoutSec)
      ({ · with connTimeoutSec := · }) .integer,
    .of "read_timeout_sec" (·.readTimeoutSec)
      ({ · with readTimeoutSec := · }) .integer]

def Mysql.layout : Layout Mysql where
  strict := true
  fields := [
    .of "user" (·.user) ({ · with user := · }) .text,
    .of "password" (·.password) ({ · with password := · }) .text,
    .of "URL" (·.url) ({ · with url := · }) .text,
    .of "schema" (·.schema) ({ · with schema := · }) .text,
    .of "request_timeout_sec" (·.requestTimeoutSec)
      ({ · with requestTimeoutSec := · }) .integer,
    .of "conn_max_lifetime_sec" (·.connMaxLifetimeSec)
      ({ · with connMaxLifetimeSec := · }) .integer,
    .of "max_open_conns" (·.maxOpenConns)
      ({ · with maxOpenConns := · }) .integer,
    .of "max_idle_conns" (·.maxIdleConns)
      ({ · with maxIdleConns := · }) .integer,
    .of "create_schema" (·.createSchema) ({ · with createSchema := · }) .flag]

def Elastic.layout : Layout Elastic where
  fields := [
    .of "addresses" (·.addresses) ({ · with addresses := · }) .texts,
    .of "username" (·.username) ({ · with username := · }) .text,
    .of "password" (·.password) ({ · with password := · }) .text,
    .of "index_name" (·.indexName) ({ · with indexName := · }) .text,
    .of "request_timeout_sec" (·.requestTimeoutSec)
      ({ · with requestTimeoutSec := · }) .integer,
    .of "max_idle_conns" (·.maxIdleConns)
      ({ · with maxIdleConns := · }) .integer,
    .of "max_idle_conns_per_host" (·.maxIdleConnsPerHost)
      ({ · with maxIdleConnsPerHost := · }) .integer]

def Redis.layout : Layout Redis where
  fields := [
    .of "addr" (·.addr) ({ · with addr := · }) .text,
    .of "password" (·.password) ({ · with password := · }) .text,
    .of "db" (·.db) ({ · with db := · }) .integer,
    .of "key_prefix" (·.keyStart) ({ · with keyStart := · }) .text,
    .of "channel_prefix" (·.channelStart) ({ · with channelStart := · }) .text,
    .of "ttl_sec" (·.ttlSec) ({ · with ttlSec := · }) .integer,
    .of "request_timeout_sec" (·.requestTimeoutSec)
      ({ · with requestTimeoutSec := · }) .integer]

def Connection.layout : Layout Connection where
  fields := [
    .of "websocket" (·.websocket)
      ({ · with websocket := · }) Websocket.layout.reading,
    .of "mysql" (·.mysql) ({ · with mysql := · }) Mysql.layout.reading,
    .of "elastic_search" (·.elastic)
      ({ · with elastic := · }) Elastic.layout.reading,
    .of "redis" (·.redis) ({ · with redis := · }) Redis.layout.reading]

def Log.layout : Layout Log where
  fields := [
    .of "level" (·.level) ({ · with level := · }) .text,
    .of "file_path" (·.filePath) ({ · with filePath := · }) .text]

/-- The fields of a configuration, with how they are read. -/
def layout : Layout Config where
  fields := [
    .of "feed" (·.feed) ({ · with feed := · }) Feed.layout.reading,
    .of "server" (·.server) ({ · with server := · }) Server.layout.reading,
    .of "cache" (·.cache) ({ · with cache := · }) Cache.layout.reading,
    .of "ingestion" (·.ingestion)
      ({ · with ingestion := · }) Ingestion.layout.reading,
    .of "rate_limit" (·.rateLimit)
      ({ · with rateLimit := · }) RateLimit.layout.reading,
    .of "health" (·.health) ({ · with health := · }) Health.layout.reading,
    .of "registry" (·.registry)
      ({ · with registry := · }) Registry.layout.reading,
    .of "connection" (·.connection)
      ({ · with connection := · }) Connection.layout.reading,
    .of "log" (·.log) ({ · with log := · }) Log.layout.reading]

/-- The layout reads as the reader does. -/
theorem reader_layout : layout.reader = reader := rfl

/-- What is read from the text of a configuration. -/
def shape : Shape := layout.shape

theorem load_eq_ok {s : Bytes} {c : Config} :
    load (some s) = .ok c ↔
      ∃ c₀ rest, layout.reader { length := s.length, depth := Json.maxDepth,
                                 block := blockSize } {} s = some (c₀, rest) ∧
        validate c₀ = .ok c := by
  rw [reader_layout, load, decode?, Json.decodeFirst]
  cases hread : reader { length := s.length, depth := Json.maxDepth,
                         block := blockSize } {} s with
  | none => simp
  | some r =>
    obtain ⟨c₀, rest⟩ := r
    cases hvalid : validate c₀ with
    | error v => simp [hvalid, Except.mapError]
    | ok c' => simp [hvalid, Except.mapError]

theorem eq_normalize_of_validate {c₀ c : Config} (h : validate c₀ = .ok c) :
    c = c₀.normalize := by
  unfold validate at h
  split at h
  · cases h
  · exact (Except.ok.inj h).symm

/-- Normal form concerns the feed symbols only. -/
theorem at?_normalize (c : Config) {path : List String} (hroot : path ≠ [])
    (hfeed : path ≠ ["feed"]) (hsymbols : path ≠ ["feed", "symbols"]) :
    c.normalize.settings.at? path = c.settings.at? path := by
  obtain ⟨name, path, rfl⟩ := List.exists_cons_of_ne_nil hroot
  by_cases hname : name = "feed"
  · subst hname
    obtain ⟨name, path, rfl⟩ := List.exists_cons_of_ne_nil fun h =>
      hfeed (congrArg _ h)
    by_cases hname : name = "symbols"
    · subst hname
      obtain ⟨name, path, rfl⟩ := List.exists_cons_of_ne_nil fun h =>
        hsymbols (congrArg _ (congrArg _ h))
      rfl
    · have hbeq : (name == "symbols") = false := beq_eq_false_iff_ne.mpr hname
      show (Feed.settings _).at? _ = (Feed.settings _).at? _
      simp only [Feed.settings, Setting.at?, List.lookup_cons, hbeq]
      rfl
  · have hbeq : (name == "feed") = false := beq_eq_false_iff_ne.mpr hname
    simp only [settings, Setting.at?, List.lookup_cons, hbeq]
    rfl

/-- A setting that is still the default is so after normalization. -/
theorem at?_normalize_of_default {c : Config} {path : List String}
    (hroot : path ≠ [])
    (h : c.settings.at? path = ({} : Config).settings.at? path) :
    c.normalize.settings.at? path = ({} : Config).settings.at? path := by
  cases hsymbols : c.feed.symbols with
  | none =>
    have hsame : c.normalize = c := by
      unfold normalize
      rw [hsymbols]
      show { c with feed := { c.feed with symbols := none } } = c
      rw [← hsymbols]
    rw [hsame]
    exact h
  | some symbols =>
    -- The default has no symbols, so no path through them can still have its
    -- default.
    have hne : Setting.texts c.feed.symbols ≠ .texts none := by
      rw [hsymbols]
      exact fun heq => Option.some_ne_none symbols (Setting.texts.inj heq)
    rw [at?_normalize c hroot]
    · exact h
    · rintro rfl
      have hfeed : c.feed.settings = ({} : Config).feed.settings :=
        Option.some.inj h
      have hlist := Setting.group.inj hfeed
      exact hne (congrArg Prod.snd (List.cons.inj (List.cons.inj hlist).2).1)
    · rintro rfl
      exact hne (Option.some.inj h)

/-- The tree of a configuration that was loaded, with how it is read. -/
theorem overlay_of_load {s t rest : Bytes} {c₀ : Config} {room : Json.Room}
    (hread : layout.reader room {} s = some (c₀, rest))
    (htoken : token s = some (123, t)) :
    (∃ d : Doc, d.Opens s) ∧
      ∀ d : Doc, d.Opens s →
      Json.Overlay shape layout.reader settings {} c₀ d := by
  obtain ⟨before, inner, ms, hs, hoverlay⟩ := Layout.exists_object hread htoken
  have hobject := (hoverlay [] Json.isBlank_nil).lexical
  have htext : s = (Doc.object before inner ms []).text ++ rest := by
    rw [hs]
    simp [Doc.text, Doc.memberTexts_eq]
  refine ⟨⟨_, hobject, rfl, rest, htext.symm⟩, fun d hd => ?_⟩
  obtain ⟨after, hafter, rfl⟩ := hd.eq_object hobject htext
  exact hoverlay after hafter

/-- A text that is loaded begins with one object. What is not named in it has
its default, and it may be rearranged and be followed by anything, up to the
greatest depth. -/
theorem load_overlay {s : Bytes} {c : Config} (hload : load (some s) = .ok c)
    (hobject : (token s).map (·.1) = some 123) :
    (∃ d : Doc, d.Opens s) ∧ ∀ d : Doc, d.Opens s →
      (∀ path, ¬Names path shape d →
        c.settings.at? path = ({} : Config).settings.at? path) ∧
      (d.Distinct shape → d.Steady shape → ∀ e rest, Doc.Rearranged shape d e →
        e.depth ≤ Json.maxDepth →
        load (some (e.text ++ rest)) = .ok c) := by
  obtain ⟨⟨b, t⟩, htoken, rfl⟩ := Option.map_eq_some_iff.mp hobject
  obtain ⟨c₀, rest, hread, hvalid⟩ := load_eq_ok.mp hload
  obtain ⟨hexists, hoverlay⟩ := overlay_of_load hread htoken
  refine ⟨hexists, fun d hd => ⟨fun path hnames => ?_, ?_⟩⟩
  · rw [eq_normalize_of_validate hvalid]
    refine at?_normalize_of_default ?_ ((hoverlay d hd).frame path hnames)
    rintro rfl
    exact hnames trivial
  · intro hdistinct hsteady e rest' he hdepth
    have hkind : e.kind = .object := he.kind_eq.trans hd.kind
    obtain ⟨r, hr, -⟩ :=
      (hoverlay d hd).holds hdistinct hsteady e he
        { length := (e.text ++ rest').length, depth := Json.maxDepth,
          block := blockSize } rest' hdepth (by simp) (by simp [hkind])
    exact load_eq_ok.mpr ⟨c₀, r, hr, hvalid⟩

section Sample

open Json (Scalar)

/-- A name or a text between quotes, without blanks. -/
def quoted (s : String) : Scalar where
  core := 34 :: (utf8 s ++ [34])

/-- A word without blanks. -/
def word (s : String) : Scalar where
  core := utf8 s

theorem isName_quoted {s : String} (h : (utf8 s).all Json.isPlain = true) :
    (quoted s).IsName := by
  refine ⟨Json.isBlank_nil, .mk ?_, Json.isBlank_nil⟩
  generalize utf8 s = body at h
  induction body with
  | nil => exact .nil
  | cons b body ih =>
    rw [List.all_cons, Bool.and_eq_true] at h
    exact .plain h.1 (ih h.2)

theorem lexical_word {s : String} (hne : utf8 s ≠ [])
    (h : (utf8 s).all Json.isWordByte = true) :
    (Doc.scalar (word s)).Lexical :=
  .scalar ⟨Json.isBlank_nil, Json.isCore_word s hne h, Json.isBlank_nil⟩

theorem lexical_object {ms : List (Scalar × Doc)}
    (h : ∀ m ∈ ms, m.1.IsName ∧ m.2.Lexical) :
    (Doc.object [] [] ms []).Lexical :=
  .object Json.isBlank_nil Json.isBlank_nil Json.isBlank_nil
    (fun hne => absurd rfl hne)
    (fun m hm => (h m hm).1.lexical) fun m hm => (h m hm).2

def sampleCache : Doc :=
  .object [] [] [(quoted "max_age_sec", .scalar (word "7"))] []

def sampleFeed : Doc :=
  .object [] []
    [(quoted "symbols", .array [] [] [.scalar (quoted "btc")] [])] []

def sampleHealth : Doc :=
  .object [] [] [(quoted "degraded_latency_ms", .scalar (word "0.5"))] []

/-- Names may be written in capitals, and `note` is no setting. -/
def sample : Doc := .object [] []
  [(quoted "Cache", sampleCache), (quoted "note", .scalar (word "1")),
    (quoted "feed", sampleFeed),
    (quoted "health", sampleHealth)] []

def largerCache : Doc := .object [] []
  [(quoted "x", .scalar (word "-2.5e3")),
    (quoted "max_age_sec", .scalar (word "7"))] []

/-- The same with one more member in the cache, and with the feed and the
health first. -/
def rearrangedSample : Doc := .object [] []
  [(quoted "feed", sampleFeed), (quoted "health", sampleHealth),
    (quoted "Cache", largerCache),
    (quoted "note", .scalar (word "1"))] []

theorem lexical_sample : sample.Lexical := by
  have hcache : sampleCache.Lexical :=
    lexical_object
      (List.forall_mem_singleton.mpr
        ⟨isName_quoted rfl, lexical_word (by decide) rfl⟩)
  have hhealth : sampleHealth.Lexical :=
    lexical_object
      (List.forall_mem_singleton.mpr
        ⟨isName_quoted rfl, lexical_word (by decide) rfl⟩)
  have hfeed : sampleFeed.Lexical :=
    lexical_object
      (List.forall_mem_singleton.mpr ⟨isName_quoted rfl,
        .array Json.isBlank_nil Json.isBlank_nil Json.isBlank_nil
          (fun hne => absurd rfl hne) (List.forall_mem_singleton.mpr
            (.scalar (isName_quoted rfl).lexical))⟩)
  exact lexical_object
    (List.forall_mem_cons.mpr ⟨⟨isName_quoted rfl, hcache⟩,
      List.forall_mem_cons.mpr ⟨⟨isName_quoted rfl,
        lexical_word (by decide) rfl⟩, List.forall_mem_cons.mpr
          ⟨⟨isName_quoted rfl, hfeed⟩,
          List.forall_mem_singleton.mpr ⟨isName_quoted rfl, hhealth⟩⟩⟩⟩)

theorem distinct_sample : sample.Distinct shape := by
  have hleaf : ∀ (sh : Shape) (d : Doc), d.kind ≠ .object → d.Distinct sh :=
    fun _ _ hd => .other fun hobject => absurd hobject hd
  have hcache : sampleCache.Distinct Cache.layout.shape :=
    .group (by decide +kernel)
      (List.forall_mem_singleton.mpr (hleaf _ _ (by decide)))
  have hfeed : sampleFeed.Distinct Feed.layout.shape :=
    .group (by decide +kernel)
      (List.forall_mem_singleton.mpr (hleaf _ _ (by decide)))
  have hhealth : sampleHealth.Distinct Health.layout.shape :=
    .group (by decide +kernel)
      (List.forall_mem_singleton.mpr (hleaf _ _ (by decide)))
  exact .group (by decide +kernel)
    (List.forall_mem_cons.mpr
    ⟨hcache, List.forall_mem_cons.mpr ⟨hleaf _ _ (by decide),
    List.forall_mem_cons.mpr ⟨hfeed, List.forall_mem_singleton.mpr hhealth⟩⟩⟩)

theorem isExact_half : Json.IsExact (utf8 "0.5") := by
  refine ⟨by decide +kernel, fun token rest h => ?_⟩
  have hquick : Json.quickFloat? none (Json.unsigned (utf8 "0.5") ++ [44]) =
      some (.quick 5 1, [44]) := by
    decide +kernel
  rw [hquick] at h
  cases h
  decide +kernel

theorem wellFormed_word {s : String} (h : Json.IsNumber (utf8 s)) :
    (Doc.scalar (word s)).WellFormed :=
  .scalar Json.isBlank_nil Json.isBlank_nil (.number h)

theorem isDigits_digit {b : UInt8} (h : Bytes.isDigit b = true) :
    Json.IsDigits [b] :=
  ⟨List.cons_ne_nil b [], List.forall_mem_singleton.mpr h⟩

theorem isNumber_note : Json.IsNumber (utf8 "1") where
  form :=
    @Json.IsNumeral.mk [49] [] [] (isDigits_digit rfl) (by decide) .none .none
  range := by decide +kernel
  single := by decide

theorem isNumber_inserted : Json.IsNumber (utf8 "-2.5e3") where
  form :=
    @Json.IsNumeral.mk [50] [46, 53] [101, 51] (isDigits_digit rfl) (by decide)
      (.digits (isDigits_digit rfl))
      (.digits (.inl rfl) (.inl rfl) (isDigits_digit rfl))
  range := by decide +kernel
  single := by decide

theorem steady_sample : sample.Steady shape := by
  have hcache : sampleCache.Steady Cache.layout.shape :=
    .group (fun h => absurd h Bool.false_ne_true)
      (List.forall_mem_singleton.mpr (.scalar rfl))
  have hfeed : sampleFeed.Steady Feed.layout.shape :=
    .group (fun h => absurd h Bool.false_ne_true)
      (List.forall_mem_singleton.mpr
        (.texts (List.forall_mem_singleton.mpr
          (.text (isName_quoted rfl).core.isPlainName.isPlainCore))))
  have hhealth : sampleHealth.Steady Health.layout.shape :=
    .group (fun h => absurd h Bool.false_ne_true)
      (List.forall_mem_singleton.mpr (.number isExact_half))
  exact .group (fun h => absurd h Bool.false_ne_true)
    (List.forall_mem_cons.mpr ⟨hcache, List.forall_mem_cons.mpr
      ⟨.unread (wellFormed_word isNumber_note).skippable,
        List.forall_mem_cons.mpr
          ⟨hfeed, List.forall_mem_singleton.mpr hhealth⟩⟩⟩)

theorem rearranged_sample : Doc.Rearranged shape sample rearrangedSample := by
  have hinsert :
      Doc.Step (shape.child (quoted "Cache").key) sampleCache largerCache :=
    .insert [] rfl (isName_quoted rfl) (wellFormed_word isNumber_inserted)
  have hreorder :
      ([(quoted "Cache", largerCache), (quoted "note", .scalar (word "1"))] ++
        [(quoted "feed", sampleFeed), (quoted "health", sampleHealth)]).Perm
      ([(quoted "feed", sampleFeed), (quoted "health", sampleHealth)] ++
        [(quoted "Cache", largerCache), (quoted "note", .scalar (word "1"))]) :=
    List.perm_append_comm
  exact .head (.member [] hinsert) (.single (.reorder hreorder))

/-- What the sample says over the defaults. -/
def sampleSettings : Config where
  cache := { maxAgeSec := 7 }
  feed := { symbols := some [utf8 "BTC"] }
  health := { degradedLatencyMs := Binary64.div (.ofInt 1) (.ofInt 2) }

theorem load_overlay_sample :
    load (some sample.text) = .ok sampleSettings ∧
      sampleSettings.settings.at? ["cache", "sweep_interval_sec"] =
        some (.integer 60) ∧
      load (some (rearrangedSample.text ++ utf8 " trailing")) =
        .ok sampleSettings := by
  have hload : load (some sample.text) = .ok sampleSettings := by
    decide +kernel
  have hsample : sample.Opens sample.text :=
    ⟨lexical_sample, rfl, List.prefix_rfl⟩
  obtain ⟨hframe, hsame⟩ :=
    (load_overlay hload (by decide +kernel)).2 sample hsample
  exact ⟨hload, hframe _ (by decide +kernel),
    hsame distinct_sample steady_sample _ _ rearranged_sample (by decide)⟩

end Sample

section Places

/-- A member of the given length and a comma, which nothing reads. -/
def filler (length : Nat) : Bytes :=
  utf8 "\"x\":\"" ++ List.replicate (length - 7) 97 ++ utf8 "\","

/-- The members of an object, in braces. -/
def braced (s : Bytes) : Bytes := utf8 "\x7b" ++ s ++ utf8 "\x7d"

/-- The health member with a threshold as it is written. -/
def threshold (number : String) : Bytes :=
  utf8 "\"health\":" ++ braced (utf8 "\"degraded_latency_ms\":" ++ utf8 number)

/-- The log member with a level as it is written. -/
def level (body : Bytes) : Bytes :=
  utf8 "\"log\":" ++ braced (utf8 "\"level\":\"" ++ body ++ [34])

/-- Without these conditions it does matter what else a text has, and where. A
number that is too large cannot be skipped, and a name that is `null` only if
it is not the first. Where a block of the text ends may decide over a long
number, a number with too many digits, one with a zero before it and a text
with a control byte. -/
theorem load_depends_on_place :
    (load (some (braced [])) = .ok {} ∧
      load (some (braced (utf8 "\"x\":1e400"))) = .error .malformed ∧
      load (some (braced (utf8 "\"x\":0.1e40"))) = .error .malformed) ∧
    (load (some (braced (utf8 "\"x\":\x7b\"a\":2,null:1\x7d"))) = .ok {} ∧
      load (some (braced (utf8 "\"x\":\x7bnull:1,\"a\":2\x7d"))) =
        .error .malformed) ∧
    (load (some (braced (threshold "9007199254740993.0"))) =
        .ok { health := { degradedLatencyMs := .ofInt 9007199254740994 } } ∧
      load (some (braced (filler 468 ++ threshold "9007199254740993.0"))) =
        .ok { health := { degradedLatencyMs := .ofInt 9007199254740992 } }) ∧
    (load (some (braced (threshold "01.5"))) = .error .malformed ∧
      load (some (braced (filler 478 ++ threshold "01.5"))) =
        .ok { health := {
            degradedLatencyMs := Binary64.div (.ofInt 3) (.ofInt 2) } }) ∧
    (load (some (braced (utf8 "\"y\":" ++ List.replicate 400 49))) = .ok {} ∧
      load (some
          (braced (filler 208 ++ utf8 "\"y\":" ++ List.replicate 400 49))) =
        .error .malformed) ∧
    (load (some (braced (level (List.replicate 500 97 ++ [1])))) =
        .ok { log := { level := List.replicate 500 97 ++ [1] } } ∧
      load (some
          (braced (filler 496 ++ level (List.replicate 500 97 ++ [1])))) =
        .error .malformed) := by
  decide +kernel

end Places

end Config
end TickRelay
