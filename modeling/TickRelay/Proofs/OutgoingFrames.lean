import TickRelay.Feed.Client
import TickRelay.Server.Command
import TickRelay.Proofs.AcceptedTicks
import TickRelay.Proofs.WrittenObjects

/-!
# Frames that the service writes

**Input.** A tick with finite numbers, a request to the provider or an error
report, with any bytes in its texts.

**Algorithm.** Each frame is one object. `content` lists its members, and
`Json.writtenPairs` their written form; the readers go over them one by one.

**Results.** `Outgoing.carries_its_values`: the frame can be written and is
valid UTF-8. A reader that knows no names finds exactly the content in it, and
the records of the service are read back from it.
-/

namespace TickRelay

open Json (Datum Takes TakesAll readMember writeMember writtenPairs quote)

namespace Tick

/-- The member of a price that may be missing. -/
def optionalPair (name : String) (o : Option Binary64) :
    List (String × Datum) :=
  o.toList.map fun x => (name, .number x)

/-- The members of a tick in order. -/
def content (t : Tick) : List (String × Datum) :=
  [("symbol", .text t.symbol), ("price", .number t.price),
    ("volume", .number t.volume),
    ("timestamp", .text t.timestamp)] ++ optionalPair "open" t.openPrice ++
    optionalPair "high" t.highPrice ++ optionalPair "low" t.lowPrice ++
    optionalPair "close" t.closePrice

theorem optionalMember?_eq {o : Option Binary64}
    (ho : o.all Binary64.isFinite = true) (name : String) :
    optionalMember? name o = some (writtenPairs (optionalPair name o)) := by
  cases o with
  | none => rfl
  | some x =>
    have hx : Json.writeFloat? x = some x.shortestText := if_pos ho
    rw [optionalMember?, hx]
    rfl

theorem finite_optionalPair {o : Option Binary64}
    (ho : o.all Binary64.isFinite = true) (name : String) :
    ∀ p ∈ optionalPair name o, p.2.IsFinite := by
  cases o with
  | none => exact nofun
  | some x => exact List.forall_mem_singleton.mpr ho

section Written

variable {t : Tick} (ht : t.Finite)
include ht

theorem finite_content : ∀ p ∈ t.content, p.2.IsFinite := by
  unfold content
  simp only [List.forall_mem_append, List.forall_mem_cons]
  exact ⟨⟨⟨⟨⟨trivial, ht.price, ht.volume, trivial, nofun⟩,
    finite_optionalPair ht.openPrice _⟩, finite_optionalPair ht.highPrice _⟩,
    finite_optionalPair ht.lowPrice _⟩, finite_optionalPair ht.closePrice _⟩

theorem encode?_eq :
    t.encode? = some (Json.writeObject (writtenPairs t.content)) := by
  have hprice : Json.writeFloat? t.price = some t.price.shortestText :=
    if_pos ht.price
  have hvolume : Json.writeFloat? t.volume = some t.volume.shortestText :=
    if_pos ht.volume
  unfold encode? writtenMembers?
  rw [hprice, hvolume, optionalMember?_eq ht.openPrice,
    optionalMember?_eq ht.highPrice, optionalMember?_eq ht.lowPrice,
    optionalMember?_eq ht.closePrice]
  simp only [content, Json.writtenPairs, List.map_append]
  rfl

end Written

/-- The same texts up to repairs, and the same prices missing. -/
structure Resembles (t u : Tick) : Prop where
  symbol : u.symbol = Utf8.repair t.symbol
  timestamp : u.timestamp = Utf8.repair t.timestamp
  openPrice : u.openPrice.isSome = t.openPrice.isSome
  highPrice : u.highPrice.isSome = t.highPrice.isSome
  lowPrice : u.lowPrice.isSome = t.lowPrice.isSome
  closePrice : u.closePrice.isSome = t.closePrice.isSome

section Read

variable {room : Json.Room} (hroom : room.block = 0)
include hroom

/-- A price that is missing leaves what was read before. -/
theorem takesAll_optional {name : String} {o : Option Binary64}
    (ho : o.all Binary64.isFinite = true) {get : Tick → Option Binary64}
    {set : Tick → Option Binary64 → Tick} {P Q : Tick → Prop}
    (hselect : Json.select .loose members (utf8 name) =
      some (Json.Member.of name get set Json.optionalFloat))
    (hmissing : o = none → ∀ u, P u → Q u)
    (hset : ∀ u y, P u → y.isSome = o.isSome → Q (set u y)) :
    TakesAll (readMember .loose members room) P
        ((writtenPairs (optionalPair name o)).map writeMember) Q := by
  cases o with
  | none => exact .nil (hmissing rfl)
  | some x =>
    exact .single (Json.takes_member hselect
      (Json.takes_component (Json.takes_optionalFloat ho hroom) hset))

theorem takesAll_content {t : Tick} (ht : t.Finite) :
    TakesAll (readMember .loose members room) (Resembles {})
      ((writtenPairs t.content).map writeMember) (Resembles t) := by
  -- After each member the record resembles the tick as far as it was read.
  let t₁ : Tick := { symbol := t.symbol }
  let t₄ : Tick := { t₁ with timestamp := t.timestamp }
  let t₅ : Tick := { t₄ with openPrice := t.openPrice }
  let t₆ : Tick := { t₅ with highPrice := t.highPrice }
  let t₇ : Tick := { t₆ with lowPrice := t.lowPrice }
  have hsymbol : Takes (readMember .loose members room) (Resembles {})
      (writeMember (utf8 "symbol", quote t.symbol)) (Resembles t₁) :=
    Json.takes_member rfl (Json.takes_component (Json.takes_text _)
      fun u s h hs => { h with symbol := hs })
  have hprice : Takes (readMember .loose members room) (Resembles t₁)
      (writeMember (utf8 "price", t.price.shortestText)) (Resembles t₁) :=
    Json.takes_member rfl
      (Json.takes_component (Json.takes_float ht.price hroom)
        fun u x h _ => { h with })
  have hvolume : Takes (readMember .loose members room) (Resembles t₁)
      (writeMember (utf8 "volume", t.volume.shortestText)) (Resembles t₁) :=
    Json.takes_member rfl
      (Json.takes_component (Json.takes_float ht.volume hroom)
        fun u x h _ => { h with })
  have htimestamp : Takes (readMember .loose members room) (Resembles t₁)
      (writeMember (utf8 "timestamp", quote t.timestamp)) (Resembles t₄) :=
    Json.takes_member rfl (Json.takes_component (Json.takes_text _)
      fun u s h hs => { h with timestamp := hs })
  have hopen :
      TakesAll (readMember .loose members room) (Resembles t₄)
        ((writtenPairs (optionalPair "open" t.openPrice)).map writeMember)
        (Resembles t₅) :=
    takesAll_optional hroom ht.openPrice rfl
      (fun ho u h => { h with openPrice := by rw [h.openPrice, ho] })
      fun u x h hx => { h with openPrice := hx }
  have hhigh :
      TakesAll (readMember .loose members room) (Resembles t₅)
        ((writtenPairs (optionalPair "high" t.highPrice)).map writeMember)
        (Resembles t₆) :=
    takesAll_optional hroom ht.highPrice rfl
      (fun ho u h => { h with highPrice := by rw [h.highPrice, ho] })
      fun u x h hx => { h with highPrice := hx }
  have hlow :
      TakesAll (readMember .loose members room) (Resembles t₆)
        ((writtenPairs (optionalPair "low" t.lowPrice)).map writeMember)
        (Resembles t₇) :=
    takesAll_optional hroom ht.lowPrice rfl
      (fun ho u h => { h with lowPrice := by rw [h.lowPrice, ho] })
      fun u x h hx => { h with lowPrice := hx }
  have hclose :
      TakesAll (readMember .loose members room) (Resembles t₇)
        ((writtenPairs (optionalPair "close" t.closePrice)).map writeMember)
        (Resembles t) :=
    takesAll_optional hroom ht.closePrice rfl
      (fun ho u h => { h with closePrice := by rw [h.closePrice, ho] })
      fun u x h hx => { h with closePrice := hx }
  have hfixed :=
    TakesAll.cons hsymbol (.cons hprice (.cons hvolume (.single htimestamp)))
  simp only [content, Json.writtenPairs, List.map_append]
  exact (((hfixed.append hopen).append hhigh).append hlow).append hclose

end Read

/-- A tick is read back from its object. -/
theorem decode?_written {t : Tick} (ht : t.Finite) :
    ∃ u, t.Resembles u ∧
      decode? (Json.writeObject (writtenPairs t.content)) = some u :=
  Json.decode_record (List.cons_ne_nil _ _)
    (fun _ hroom => takesAll_content hroom ht)
    ⟨rfl, rfl, rfl, rfl, rfl, rfl⟩

end Tick

namespace Feed
namespace Request

/-- A request as a record of texts; an empty time is one that is left out. -/
structure Fields where
  kind : Bytes := []
  symbol : Bytes := []
  start : Bytes := []
  stop : Bytes := []
  deriving DecidableEq, Repr

/-- The record of a request. -/
def fields : Request → Fields
  | subscribe s => { kind := utf8 "subscribe", symbol := s }
  | unsubscribe s => { kind := utf8 "unsubscribe", symbol := s }
  | history s start stop =>
    { kind := utf8 "history", symbol := s, start, stop }

namespace Fields

/-- The record as it is read. -/
def repaired (f : Fields) : Fields where
  kind := Utf8.repair f.kind
  symbol := Utf8.repair f.symbol
  start := Utf8.repair f.start
  stop := Utf8.repair f.stop

/-- The members of the record. -/
def members : List (Json.Member Fields) := [
  .of "type" (·.kind) ({ · with kind := · }) Json.text,
  .of "symbol" (·.symbol) ({ · with symbol := · }) Json.text,
  .of "from" (·.start) ({ · with start := · }) Json.text,
  .of "to" (·.stop) ({ · with stop := · }) Json.text]

/-- The member of a time, unless it is empty. -/
def timePair (name : String) (s : Bytes) : List (String × Datum) :=
  if s = [] then [] else [(name, .text s)]

/-- The members of a request in order. -/
def content (f : Fields) : List (String × Datum) :=
  [("type", .text f.kind), ("symbol", .text f.symbol)] ++
    timePair "from" f.start ++
    timePair "to" f.stop

theorem finite_timePair (name : String) (s : Bytes) :
    ∀ p ∈ timePair name s, p.2.IsFinite := by
  unfold timePair
  split
  · exact nofun
  · exact List.forall_mem_singleton.mpr trivial

theorem finite_content (f : Fields) : ∀ p ∈ f.content, p.2.IsFinite := by
  unfold content
  simp only [List.forall_mem_append, List.forall_mem_cons]
  exact ⟨⟨⟨trivial, trivial, nofun⟩, finite_timePair _ _⟩, finite_timePair _ _⟩

/-- A time that is left out stays empty. -/
theorem takesAll_timePair {room : Json.Room} {get : Fields → Bytes}
    {set : Fields → Bytes → Fields} {f : Fields} (name : String) (s : Bytes)
    (hselect : Json.select .loose members (utf8 name) =
      some (Json.Member.of name get set Json.text))
    (hempty : set f [] = f) :
    TakesAll (readMember .loose members room) (· = f)
        ((writtenPairs (timePair name s)).map writeMember)
        (· = set f (Utf8.repair s)) := by
  unfold timePair
  split
  · rename_i hs
    subst hs
    exact .nil fun g hg => hg.trans hempty.symm
  · exact .single (Json.takes_textMember hselect s f)

theorem takesAll_content {room : Json.Room} (f : Fields) :
    TakesAll (readMember .loose members room) (· = {})
        ((writtenPairs f.content).map writeMember) (· = f.repaired) := by
  have hfixed :
      TakesAll (readMember .loose members room) (· = {})
        [writeMember (utf8 "type", quote f.kind),
          writeMember (utf8 "symbol", quote f.symbol)]
        (· = { kind := Utf8.repair f.kind, symbol := Utf8.repair f.symbol }) :=
    .cons (Json.takes_textMember rfl f.kind _)
      (.cons (Json.takes_textMember rfl f.symbol _) (.nil fun _ h => h))
  have hall :=
    (hfixed.append (takesAll_timePair "from" f.start rfl rfl)).append
      (takesAll_timePair "to" f.stop rfl rfl)
  simp only [content, writtenPairs, List.map_append]
  exact hall

end Fields

theorem optionalMember_eq (name : String) (s : Bytes) :
    optionalMember name s = writtenPairs (Fields.timePair name s) := by
  unfold optionalMember Fields.timePair
  split <;> rfl

theorem encode_eq (r : Request) :
    r.encode = Json.writeObject (writtenPairs r.fields.content) := by
  cases r with
  | subscribe s => rfl
  | unsubscribe s => rfl
  | history s start stop =>
    rw [encode, members, optionalMember_eq, optionalMember_eq]
    simp only [fields, Fields.content, writtenPairs, List.map_append]
    rfl

/-- A request is read back from its object. -/
theorem decode_encode (r : Request) :
    Json.decode (Json.record .loose Fields.members) {} r.encode =
      some r.fields.repaired := by
  have hne : writtenPairs r.fields.content ≠ [] := List.cons_ne_nil _ _
  obtain ⟨_, rfl, hdecode⟩ :=
    Json.decode_record hne (fun _ _ => r.fields.takesAll_content) rfl
  rw [encode_eq]
  exact hdecode

end Request
end Feed

namespace Server

/-- An error report as a record. -/
structure Report where
  kind : Bytes := []
  code : Int64 := 0
  text : Bytes := []
  client : Bytes := []
  deriving DecidableEq, Repr

namespace Report

/-- The members of the record. -/
def members : List (Json.Member Report) := [
  .of "type" (·.kind) ({ · with kind := · }) Json.text,
  .of "code" (·.code) ({ · with code := · }) Json.integer,
  .of "message" (·.text) ({ · with text := · }) Json.text,
  .of "clientId" (·.client) ({ · with client := · }) Json.text]

end Report

/-- The members of an error frame in order. -/
def errorContent (f : Fault) (client : Bytes) : List (String × Datum) :=
  [("type", .text (utf8 "error")), ("code", .number (.ofInt f.code)),
    ("message", .text f.text),
    ("clientId", .text client)]

theorem code_cases (f : Fault) :
    f.code = 1000 ∨ f.code = 1001 ∨ f.code = 1002 ∨ f.code = 1003 := by
  unfold Fault.code
  split
  · exact .inr (.inr (.inr rfl))
  · exact .inr (.inr (.inl rfl))
  · split
    · exact .inr (.inl rfl)
    · exact .inl rfl

theorem shortestText_code (f : Fault) :
    (Binary64.ofInt f.code).shortestText = Bytes.decimal f.code := by
  obtain h | h | h | h := code_cases f <;> rw [h] <;> decide +kernel

theorem finite_errorContent (f : Fault) (client : Bytes) :
    ∀ p ∈ errorContent f client, p.2.IsFinite := by
  have hcode : (Binary64.ofInt f.code).isFinite = true := by
    obtain h | h | h | h := code_cases f <;> rw [h] <;> decide +kernel
  unfold errorContent
  simp only [List.forall_mem_cons]
  exact ⟨trivial, hcode, trivial, trivial, nofun⟩

theorem errorFrame_eq (f : Fault) (client : Bytes) :
    errorFrame f client =
      Json.writeObject (writtenPairs (errorContent f client)) := by
  rw [errorFrame, ← shortestText_code]
  rfl

theorem decode_errorFrame (f : Fault) (client : Bytes) :
    Json.decode (Json.record .loose Report.members) {} (errorFrame f client) =
      some ⟨utf8 "error", Int64.ofInt f.code, Utf8.repair f.text,
        Utf8.repair client⟩ := by
  have hcode : f.code < 2 ^ 63 := by
    obtain h | h | h | h := code_cases f <;> omega
  have hchain (room : Json.Room) :
      TakesAll (readMember .loose Report.members room) (· = {})
        ([(utf8 "type", quote (utf8 "error")),
          (utf8 "code", Bytes.decimal f.code), (utf8 "message", quote f.text),
          (utf8 "clientId", quote client)].map writeMember)
        (· = ⟨utf8 "error", Int64.ofInt f.code, Utf8.repair f.text,
          Utf8.repair client⟩) := by
    refine .cons (Json.takes_textMember rfl _ _)
      (.cons (Json.takes_integerMember rfl hcode _)
        (.cons (Json.takes_textMember rfl _ _)
          (.cons (Json.takes_textMember rfl _ _) (.nil ?_))))
    rw [Utf8.repair_utf8]
    exact fun _ h => h
  obtain ⟨_, rfl, hdecode⟩ :=
    Json.decode_record (List.cons_ne_nil _ _) (fun room _ => hchain room) rfl
  exact hdecode

end Server

/-- A frame that the service writes. -/
inductive Outgoing where
  | tick (t : Tick) (finite : t.Finite)
  | request (r : Feed.Request)
  | error (f : Fault) (client : Bytes)

namespace Outgoing

/-- The text of a frame. -/
def encode? : Outgoing → Option Bytes
  | tick t _ => t.encode?
  | request r => some r.encode
  | error f client => some (Server.errorFrame f client)

/-- Its members in order. -/
def content : Outgoing → List (String × Datum)
  | tick t _ => t.content
  | request r => r.fields.content
  | error f client => Server.errorContent f client

/-- What the record of the frame is when it is read from a text. -/
def ReadsBack (s : Bytes) : Outgoing → Prop
  | tick t _ => ∃ u, Tick.decode? s = some u ∧ t.Resembles u
  | request r =>
    Json.decode (Json.record .loose Feed.Request.Fields.members) {} s =
      some r.fields.repaired
  | error f client =>
    Json.decode (Json.record .loose Server.Report.members) {} s =
      some ⟨utf8 "error", Int64.ofInt f.code, Utf8.repair f.text,
        Utf8.repair client⟩

theorem encode?_eq (f : Outgoing) :
    f.encode? = some (Json.writeObject (writtenPairs f.content)) := by
  cases f with
  | tick t ht => exact Tick.encode?_eq ht
  | request r => exact congrArg some r.encode_eq
  | error f client => exact congrArg some (Server.errorFrame_eq f client)

theorem content_ne_nil (f : Outgoing) : f.content ≠ [] := by
  cases f <;> exact List.cons_ne_nil _ _

theorem finite_content (f : Outgoing) : ∀ p ∈ f.content, p.2.IsFinite := by
  cases f with
  | tick t ht => exact Tick.finite_content ht
  | request r => exact r.fields.finite_content
  | error f client => exact Server.finite_errorContent f client

theorem readsBack (f : Outgoing) :
    f.ReadsBack (Json.writeObject (writtenPairs f.content)) := by
  cases f with
  | tick t ht =>
    obtain ⟨u, hu, hdecode⟩ := Tick.decode?_written ht
    exact ⟨u, hdecode, hu⟩
  | request r =>
    show Json.decode _ _ (Json.writeObject (writtenPairs r.fields.content)) = _
    rw [← r.encode_eq]
    exact r.decode_encode
  | error f client =>
    show Json.decode _ _
      (Json.writeObject (writtenPairs (Server.errorContent f client))) = _
    rw [← Server.errorFrame_eq]
    exact Server.decode_errorFrame f client

/-- Every frame can be written, is valid UTF-8 and holds exactly its
content. -/
theorem carries_its_values (f : Outgoing) :
    ∃ s, f.encode? = some s ∧ Utf8.isValid s = true ∧
      Json.decode Json.object [] s = some (Json.repairedPairs f.content) ∧
      f.ReadsBack s := by
  exact ⟨_, f.encode?_eq, Json.isValid_writeObject f.finite_content,
    Json.decode_object f.content_ne_nil f.finite_content, f.readsBack⟩

/-- A symbol that tries to close its string and its object and ends in a byte
outside of UTF-8. -/
def forgedTick : Tick where
  symbol := utf8 "\"\x7d,\n<" ++ [0xFF]
  price := .finite true .zero
  volume := .ofInt 10000000000000000000000
  highPrice := some (.ofInt 7)

theorem carries_its_values_of_forgedTick :
    ∃ s, forgedTick.encode? = some s ∧ Utf8.isValid s = true ∧
      Json.decode Json.object [] s = some [
        (utf8 "symbol", .text (utf8 "\"\x7d,\n<\uFFFD")),
        (utf8 "price", .number (.finite true .zero)),
        (utf8 "volume", .number (.ofInt 10000000000000000000000)),
        (utf8 "timestamp", .text []), (utf8 "high", .number (.ofInt 7))] ∧
      ∃ u, Tick.decode? s = some u ∧ forgedTick.Resembles u := by
  obtain ⟨s, hwritten, hvalid, hmembers, hread⟩ :=
    carries_its_values
      (.tick forgedTick
        ⟨rfl, by decide +kernel, rfl, by decide +kernel, rfl, rfl⟩)
  exact ⟨s, hwritten, hvalid, hmembers.trans (by decide +kernel), hread⟩

end Outgoing
end TickRelay
