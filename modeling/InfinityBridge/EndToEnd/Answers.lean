import InfinityBridge.EndToEnd.Fidelity
import InfinityBridge.Wasm.Router

/-!
# What a dispatch answers

Whatever text reaches the bridge, whatever its handler is and whatever comes of the
backend's call: a text that is no envelope is dropped, an event is handled, and every
other payload is handled as a command and answered once, with a text that both relays
read as the response to this request with this result.
-/

namespace InfinityBridge.EndToEnd

open Relay Wasm

variable {σ τ : Type*}

/-- The fields `ok`, `response` and `error` of a response: a value or an error, and never
both. -/
def resultFields : Except String Value → Bool × Option Value × Option Value
  | .ok v => (true, some v, none)
  | .error e => (false, none, some (.str e))

/-- A string is read from a string only. -/
theorem eq_str_of_traverse {ν μ : Type*} {f : ν → Option μ} {x : Json ν} {s : String}
    (h : x.traverse f = some (.str s)) : x = .str s := by
  cases x <;> simp [Json.traverse] at h
  rw [h]

/-- A string is left by `keepLast` of a string only. -/
theorem eq_str_of_keepLast {ν : Type*} {x : Json ν} {s : String} (h : x.keepLast = .str s) :
    x = .str s := by
  cases x <;> simp [Json.keepLast] at h
  rw [h]

section Envelope

variable {readFloat : NumberLiteral → Option Double} {ms : List (String × Doc)}
  {envelope : CommBusEnvelope}

/-- The members of an object that are read as fields of an envelope. -/
def envelopeMembers (ms : List (String × Doc)) : List (String × Doc) :=
  ms.filter fun m => m.1 ∈ ["requestId", "payload"]

/-- All members with the name of a field are read. -/
theorem named_envelopeMembers {k : String} (hk : k ∈ ["requestId", "payload"]) :
    Json.named k (envelopeMembers ms) = Json.named k ms := by
  rw [envelopeMembers, Json.named_filter (fun k => decide (k ∈ ["requestId", "payload"])),
    if_pos (decide_eq_true hk)]

/-- When each field occurs once, their two values are all that is read. -/
theorem mem_envelopeMembers {x p : Doc} (hid : Json.named "requestId" ms = [x])
    (hpayload : Json.named "payload" ms = [p]) {m : String × Doc} (hm : m ∈ envelopeMembers ms) :
    m.2 = x ∨ m.2 = p := by
  have hname : m.1 ∈ ["requestId", "payload"] := of_decide_eq_true (List.mem_filter.mp hm).2
  have hmem := Json.mem_named.mpr hm
  rw [named_envelopeMembers hname] at hmem
  rcases List.mem_pair.mp hname with heq | heq
  · rw [heq, hid] at hmem
    exact .inl (List.mem_singleton.mp hmem)
  · rw [heq, hpayload] at hmem
    exact .inr (List.mem_singleton.mp hmem)

/-- The reading of an envelope, step by step: the nesting of the fields, their numbers, and
the fields themselves. -/
theorem fromStr_obj :
    CommBusEnvelope.fromStr (SerdeJson.ofReading readFloat).keepingLast (.obj ms) =
        some envelope ↔
      Json.depthMembers (envelopeMembers ms) + 1 < recursionLimit ∧
        ∃ ms', Json.traverseMembers (Number.ofLiteral readFloat) (envelopeMembers ms) = some ms' ∧
          (Json.named "requestId" ms').map Json.keepLast = [.str envelope.requestId] ∧
          (Json.named "payload" ms').map Json.keepLast = [envelope.payload] := by
  simp only [CommBusEnvelope.fromStr, SerdeJson.keepingLast, SerdeJson.ofReading, Body.ofFields]
  rw [← envelopeMembers]
  split_ifs with hdepth
  · simp only [hdepth, true_and, Option.bind_some, Body.traverse, Option.map_map,
      Option.bind_eq_some_iff, Option.map_eq_some_iff]
    constructor
    · rintro ⟨_, ⟨ms', hms, rfl⟩, hbody⟩
      refine ⟨ms', hms, ?_⟩
      rw [← Json.named_map, ← Json.named_map]
      exact CommBusEnvelope.fromBody_map_iff.mp hbody
    · rintro ⟨ms', hms, hbody⟩
      refine ⟨_, ⟨ms', hms, rfl⟩, CommBusEnvelope.fromBody_map_iff.mpr ?_⟩
      rwa [Json.named_map, Json.named_map]
  · simp [hdepth]

/-- The envelope in an object of a text: the id and the payload occur once each, and of the
payload every name is left with its last value. The other members are skipped. -/
theorem fromStr_obj_iff :
    CommBusEnvelope.fromStr (SerdeJson.ofReading readFloat).keepingLast (.obj ms) =
        some envelope ↔
      Json.named "requestId" ms = [.str envelope.requestId] ∧
        ∃ p v, Json.named "payload" ms = [p] ∧ p.depth + 1 < recursionLimit ∧
          p.traverse (Number.ofLiteral readFloat) = some v ∧ envelope.payload = v.keepLast := by
  have hid : Json.named "requestId" (envelopeMembers ms) = Json.named "requestId" ms :=
    named_envelopeMembers (by simp)
  have hpayload : Json.named "payload" (envelopeMembers ms) = Json.named "payload" ms :=
    named_envelopeMembers (by simp)
  rw [fromStr_obj]
  constructor
  · rintro ⟨hdepth, ms', hms, hid', hpayload'⟩
    obtain ⟨a, ha, hstr⟩ := List.map_eq_singleton_iff.mp hid'
    obtain ⟨v, hv, hlast⟩ := List.map_eq_singleton_iff.mp hpayload'
    have hids := Json.traverseList_named (k := "requestId") hms
    have hpayloads := Json.traverseList_named (k := "payload") hms
    rw [ha, hid, eq_str_of_keepLast hstr, Json.traverseList_eq_singleton] at hids
    rw [hv, hpayload, Json.traverseList_eq_singleton] at hpayloads
    obtain ⟨x, hx, hxstr⟩ := hids
    obtain ⟨p, hp, hpv⟩ := hpayloads
    have hmem : ("payload", p) ∈ envelopeMembers ms :=
      Json.mem_named.mp (by rw [hpayload, hp]; simp)
    have hlimit : p.depth < recursionLimit - 1 :=
      (Json.depthMembers_lt_iff (by decide)).mp (Nat.lt_sub_of_add_lt hdepth) _ hmem
    exact ⟨by rw [hx, eq_str_of_traverse hxstr], p, v, hp, by omega, hpv, hlast.symm⟩
  · rintro ⟨hid', p, v, hpayload', hdepth, hv, hlast⟩
    have hlimit : Json.depthMembers (envelopeMembers ms) < recursionLimit - 1 := by
      refine (Json.depthMembers_lt_iff (by decide)).mpr fun m hm => ?_
      rcases mem_envelopeMembers hid' hpayload' hm with heq | heq
      · rw [heq, Json.depth]
        · decide
        all_goals simp
      · rw [heq]
        omega
    obtain ⟨ms', hms⟩ : ∃ ms', Json.traverseMembers (Number.ofLiteral readFloat)
        (envelopeMembers ms) = some ms' := by
      refine Json.exists_traverseMembers.mpr fun m hm => ?_
      rcases mem_envelopeMembers hid' hpayload' hm with heq | heq
      · exact ⟨.str envelope.requestId, by rw [heq, Json.traverse]⟩
      · exact ⟨v, by rw [heq, hv]⟩
    have hids := Json.traverseList_named (k := "requestId") hms
    have hpayloads := Json.traverseList_named (k := "payload") hms
    rw [hid, hid', Json.traverseList_eq_singleton.mpr ⟨_, rfl, rfl⟩, Option.some.injEq] at hids
    rw [hpayload, hpayload', Json.traverseList_eq_singleton.mpr ⟨p, rfl, hv⟩,
      Option.some.injEq] at hpayloads
    refine ⟨by omega, ms', hms, ?_, ?_⟩
    · rw [← hids]
      rfl
    · rw [← hpayloads, hlast]
      rfl

/-- A member of another name does not matter, whatever it holds. -/
example (x : Doc) : CommBusEnvelope.fromStr (SerdeJson.ofReading Double.ofLiteral).keepingLast
    (.obj [("requestId", .str "r"), ("payload", .null), ("x", x)]) = some ⟨"r", .null⟩ :=
  fromStr_obj_iff.mpr ⟨rfl, .null, .null, rfl, by decide, rfl, rfl⟩

/-- Of a name that the payload repeats, the last value counts. -/
example : dispatch (SerdeJson.ofReading Double.ofLiteral).keepingLast
    (.obj [("requestId", .str "r"), ("payload", .obj [("t", .str "event"), ("name", .str "n"),
      ("data", .null), ("data", .bool true)])]) = .event ⟨"n", .bool true⟩ :=
  rfl

end Envelope

/-- The wire message in the payload of an envelope. -/
def messageOf (json : SerdeJson τ) (envelope : CommBusEnvelope) : Option WireMsg :=
  (json.toString envelope.payload).bind fun payload =>
    (json.fromStr payload).bind WireMsg.fromValue

/-- The command in an envelope: that of the wire message, if there is one, and else the
payload without a name. -/
def commandOf (json : SerdeJson τ) (envelope : CommBusEnvelope) : Option String × Value :=
  match messageOf json envelope with
  | some (.cmd cmd) => (cmd.name, cmd.payload)
  | _ => (none, envelope.payload)

/-- Both relays read the text as the response to this request, with this result, and answer
the command of the request with it. -/
def ReadBack (jsonParse : τ → Option Value) (requestId : String) (result : Except String Value)
    (text : τ) : Prop :=
  ∃ j, jsonParse text = some j ∧ ∀ impl,
    wasmMessage impl j = .response requestId (resultFields result).1 (resultFields result).2.1
      (resultFields result).2.2 ∧
    ∀ id, responseAck impl numberText id (resultFields result).1 (resultFields result).2.1
      (resultFields result).2.2 = some (resultAck id result)

/-- The bridge does with a text what it should. -/
structure Answers (b : Bridge τ) (jsonParse : τ → Option Value) (handler : BridgeHandler σ)
    (raw : τ) (s : σ) : Prop where
  dropped : CommBusEnvelope.fromStr b.json raw = none →
    (b.dispatch handler raw s).1 = s ∧ (b.dispatch handler raw s).2.filter Effect.isCall = []
  event : ∀ envelope evt, CommBusEnvelope.fromStr b.json raw = some envelope →
    messageOf b.json envelope = some (.event evt) →
    (b.dispatch handler raw s).1 = handler.onEvent evt.name evt.data s ∧
    (b.dispatch handler raw s).2.filter Effect.isCall = [.onEvent evt.name evt.data]
  command : ∀ envelope name payload, CommBusEnvelope.fromStr b.json raw = some envelope →
    (∀ evt, messageOf b.json envelope ≠ some (.event evt)) →
    commandOf b.json envelope = (name, payload) →
    (b.dispatch handler raw s).1 = (handler.onCommand name payload s).2 ∧
    ∃ text, (b.dispatch handler raw s).2.filter Effect.isCall =
        [.onCommand name payload, .call b.responseEvent text] ∧
      ReadBack jsonParse envelope.requestId (handler.onCommand name payload s).1 text

/-- The document of a response is read back by both relays. -/
theorem readBack_responseDoc {jsonParse : τ → Option Value} {requestId : String}
    {result : Except String Value} {text : τ}
    (hparse : jsonParse text = some (responseDoc requestId result)) :
    ReadBack jsonParse requestId result text := by
  refine ⟨_, hparse, fun impl => ⟨?_, fun id => ?_⟩⟩
  · cases result <;> cases impl <;>
      simp [wasmMessage, responseDoc, resultFields, Json.property, Json.named]
  · cases result <;> cases impl <;> rfl

/-- Answering a command is one call of the handler and one of the backend. -/
theorem answer_calls {b : Bridge τ} {jsonParse : τ → Option Value}
    (hstring : ∀ v, (b.json.toString v).isSome = true)
    (hparse : ∀ v text, b.json.toString v = some text → jsonParse text = some v)
    (handler : BridgeHandler σ) (requestId : String) (name : Option String) (payload : Value)
    (s : σ) : (b.answer handler requestId name payload s).1 = (handler.onCommand name payload s).2 ∧
      ∃ text, (b.answer handler requestId name payload s).2.filter Effect.isCall =
        [.onCommand name payload, .call b.responseEvent text] ∧
      ReadBack jsonParse requestId (handler.onCommand name payload s).1 text := by
  obtain ⟨text, htext⟩ := Option.isSome_iff_exists.mp
    (hstring (CommBusResponse.ofResult requestId (handler.onCommand name payload s).1).toValue)
  refine ⟨rfl, text, ?_, ?_⟩
  · have hsend : Wasm.sendResponse b.json requestId (handler.onCommand name payload s).1 =
        some text := htext
    simp only [Bridge.answer, Bridge.sendResponse, hsend]
    cases b.call b.responseEvent text <;> rfl
  · apply readBack_responseDoc
    rw [hparse _ _ htext, toValue_ofResult]

/-- A text that is an envelope is handled according to its message. -/
theorem dispatch_envelope {b : Bridge τ} (hstring : ∀ v, (b.json.toString v).isSome = true)
    (handler : BridgeHandler σ) {raw : τ} (s : σ) {envelope : CommBusEnvelope}
    (henvelope : CommBusEnvelope.fromStr b.json raw = some envelope) :
    b.dispatch handler raw s =
      match messageOf b.json envelope with
      | some (.event evt) => (handler.onEvent evt.name evt.data s, [.onEvent evt.name evt.data])
      | _ => b.answer handler envelope.requestId (commandOf b.json envelope).1
          (commandOf b.json envelope).2 s := by
  obtain ⟨payload, hpayload⟩ := Option.isSome_iff_exists.mp (hstring envelope.payload)
  have hmessage : messageOf b.json envelope = (b.json.fromStr payload).bind WireMsg.fromValue := by
    rw [messageOf, hpayload, Option.bind_some]
  simp only [Bridge.dispatch, henvelope, hpayload, ← hmessage, commandOf]
  cases messageOf b.json envelope with
  | none => rfl
  | some msg => cases msg <;> rfl

/-- The bridge does with every text what it should, whatever the handler. -/
theorem answers_of_total {b : Bridge τ} {jsonParse : τ → Option Value}
    (hstring : ∀ v, (b.json.toString v).isSome = true)
    (hparse : ∀ v text, b.json.toString v = some text → jsonParse text = some v)
    (handler : BridgeHandler σ) (raw : τ) (s : σ) : Answers b jsonParse handler raw s := by
  constructor
  · intro hnone
    have hdropped : b.dispatch handler raw s =
        (s, [.eprintln "[msfs-bridge] Failed to parse CommBus envelope"]) := by
      simp only [Bridge.dispatch, hnone]
    rw [hdropped]
    exact ⟨rfl, rfl⟩
  · intro envelope evt henvelope hevent
    rw [dispatch_envelope hstring handler s henvelope, hevent]
    exact ⟨rfl, rfl⟩
  · intro envelope name payload henvelope hother hcommand
    have hanswer : b.dispatch handler raw s =
        b.answer handler envelope.requestId name payload s := by
      rw [dispatch_envelope hstring handler s henvelope, hcommand]
      split
      · next evt hevent => exact absurd hevent (hother evt)
      · rfl
    rw [hanswer]
    exact answer_calls hstring hparse handler envelope.requestId name payload s

/-- A router runs at most one closure for a text. -/
theorem dispatch_one (b : Bridge τ) {rs : List (Registration σ)} {r : Router (σ × List ℕ)}
    (h : Routes rs r) (raw : τ) (s : σ) (ran : List ℕ) : ∃ more, more.length ≤ 1 ∧
      (b.dispatch r.handler raw (s, ran)).1.2 = ran ++ more := by
  rw [b.dispatch_eq]
  cases Wasm.dispatch b.json raw with
  | dropped | failed => exact ⟨[], by simp, by simp⟩
  | event evt => exact h.onEvent_one evt.name evt.data s ran
  | command requestId name payload => exact h.onCommand_one name payload s ran

/-- The bridge answers exactly the texts that are commands, and a router runs at most one
closure for each text: the one registered first under the name, or else the fallback. -/
theorem dispatch_answers (b : Bridge τ) (jsonParse : τ → Option Value)
    (hstring : ∀ v, (b.json.toString v).isSome = true)
    (hparse : ∀ v text, b.json.toString v = some text → jsonParse text = some v) :
    (∀ (handler : BridgeHandler σ) raw s, Answers b jsonParse handler raw s) ∧
    ∀ rs : List (Registration σ), Routes rs (Router.build (noting 0 rs)) ∧
      ∀ raw s ran, ∃ more, more.length ≤ 1 ∧
        (b.dispatch (Router.build (noting 0 rs)).handler raw (s, ran)).1.2 = ran ++ more := by
  refine ⟨fun handler raw s => answers_of_total hstring hparse handler raw s, fun rs => ?_⟩
  have hroutes := routes_build rs
  exact ⟨hroutes, fun raw s ran => dispatch_one b hroutes raw s ran⟩

/-- A script that reads the numbers as the bridge does gets back what was printed. -/
theorem read_print (v : Value) : (v.traverse (some ∘ Number.literal)).bind
    (Json.traverse (Number.ofLiteral Double.ofLiteral)) = some v := by
  rw [Json.traverse_bind, Json.traverse_eq_self_iff]
  rintro n -
  change n.reread Double.ofLiteral = some n
  cases n with
  | posInt n h => exact Number.reread_posInt n h
  | negInt n h => exact Number.reread_negInt n h
  | float d => rw [Number.reread_float, Double.ofLiteral_literal, Option.map_some]

/-- A bridge on real texts whose backend refuses every call. -/
def deafBackend : Bridge Doc :=
  ⟨(SerdeJson.ofReading Double.ofLiteral).keepingLast, "response", fun _ _ =>
    .error "not connected"⟩

/-- Two closures under one name: the second one never runs. -/
def repeatedName : List (Registration ℕ) :=
  [.command "get" fun _ n => (.ok .null, n + 1), .command "get" fun _ n => (.error "no", n + 2)]

/-- The bridge answers although the backend refuses, and the router runs one closure. -/
theorem dispatch_answers_deafBackend :
    (∀ (handler : BridgeHandler ℕ) raw s,
      Answers deafBackend (Json.traverse (Number.ofLiteral Double.ofLiteral)) handler raw s) ∧
    Routes repeatedName (Router.build (noting 0 repeatedName)) ∧
      ∀ raw s ran, ∃ more, more.length ≤ 1 ∧
        (deafBackend.dispatch (Router.build (noting 0 repeatedName)).handler raw (s, ran)).1.2 =
          ran ++ more := by
  have h := dispatch_answers (σ := ℕ) deafBackend
    (Json.traverse (Number.ofLiteral Double.ofLiteral))
    (Json.isSome_traverse fun _ => rfl)
    (fun v text htext => by rw [← read_print v, show Json.traverse _ v = some text from htext,
      Option.bind_some])
  exact ⟨h.1, h.2 repeatedName⟩

end InfinityBridge.EndToEnd
