import InfinityBridge.EndToEnd.Correctness
import InfinityBridge.EndToEnd.Handshake
import InfinityBridge.EndToEnd.Order

/-!
# Who reads what

Four programs read the wire protocol, and each has its own idea of how closely to look: the
host and the bridge decode a message, one relay checks its shape, the other one looks at the
members it needs. What the decoder takes for a message is the same message for all of them,
whatever the order of its members and whatever else is in it. And in a run of the four of them
nothing on the way is taken for anything but what it was made as: the lenient branches, for
frames that are no message of the sender's, are not entered.
-/

namespace InfinityBridge.EndToEnd

open Relay Wasm

variable {impl : Impl} {cfg : ResolvedConfig}

/-! ### One message for all readers -/

/-- What a relay makes of a message of the host. -/
def relayReading (m : WireMsg) (j : Value) : HostMessage Number :=
  match m with
  | .ping _ => .ping
  | .cmd p => .cmd (some (.str p.id)) j
  | .event _ => .event j
  | .hello _ | .pong _ | .ack _ => .ignored

/-- What a relay makes of a message of the module, if it is no response. -/
def forwardReading : WireMsg → WasmMessage Number
  | .event _ | .ack _ => .forward
  | .hello _ | .ping _ | .pong _ | .cmd _ => .ignored

/-- What the bridge makes of a message that comes in an envelope. -/
def bridgeReading (rid : String) (m : WireMsg) (j : Value) : Dispatched :=
  match m with
  | .cmd p => .command rid p.name p.payload
  | .event e => .event e
  | .hello _ | .ping _ | .pong _ | .ack _ => .command rid none j

/-- An object that is read as a message has the tag of the message, once. -/
theorem named_of_fromValue {ms : List (String × Value)} {m : WireMsg}
    (h : WireMsg.fromValue (.obj ms) = some m) : Json.named "t" ms = [.str m.tag] ∧
      WireMsg.fromTagged m.tag (.map ms) = some m := by
  simp only [WireMsg.fromValue] at h
  split at h
  · next tag htag =>
    rw [WireMsg.tag_of_fromTagged h]
    exact ⟨htag, h⟩
  · cases h

/-- A script reads the one member of a name. -/
theorem property_of_named {ms : List (String × Value)} {k : String} {v : Value}
    (h : Json.named k ms = [v]) : (Json.obj ms).property k = some v := by
  rw [Json.property, h, List.getLast?_singleton]

/-- An object that is read as a command has its id, once. -/
theorem named_id_of_cmd {b : List (String × Value)} {p : CmdPayload}
    (h : WireMsg.fromTagged "cmd" (.map b) = some (.cmd p)) : Json.named "id" b = [.str p.id] := by
  obtain ⟨p', hbody, heq⟩ := Option.map_eq_some_iff.mp
    (h : (CmdPayload.fromBody (.map b)).map WireMsg.cmd = some (.cmd p))
  cases heq
  simp only [CmdPayload.fromBody, bind, Option.bind_eq_some_iff] at hbody
  obtain ⟨_, _, id, hid, name, _, payload, _, heq⟩ := hbody
  cases heq
  obtain ⟨v, hnamed, hv⟩ := named_of_required hid
  rw [hnamed, eq_str_of_asString hv]

/-- Both relays read off an object the message that is decoded from it. -/
theorem hostMessage_of_fromValue (impl : Impl) {ms : List (String × Value)} {m : WireMsg}
    (h : WireMsg.fromValue (.obj ms) = some m) :
    hostMessage impl (.obj ms) = relayReading m (.obj ms) := by
  obtain ⟨htag, hbody⟩ := named_of_fromValue h
  have ht := property_of_named htag
  cases m with
  | cmd p =>
    have hid := property_of_named (named_id_of_cmd hbody)
    cases impl <;> simp only [hostMessage, ht, hid, WireMsg.tag, relayReading]
  | _ => cases impl <;> simp [hostMessage, ht, WireMsg.tag, relayReading]

/-- What a relay takes for a response, whatever else it is: a string names the request, and one
relay asks for a boolean `ok` as well. -/
def IsResponse (impl : Impl) (j : Value) : Prop :=
  (∃ rid, j.property "requestId" = some (.str rid)) ∧
    (impl = .rescript → ∃ ok, j.property "ok" = some (.bool ok))

/-- A message of the module that is no response is read by its tag. -/
theorem wasmMessage_of_not_isResponse {ms : List (String × Value)} {m : WireMsg}
    (h : WireMsg.fromValue (.obj ms) = some m) (hresponse : ¬IsResponse impl (.obj ms)) :
    wasmMessage impl (.obj ms) = forwardReading m := by
  have ht := property_of_named (named_of_fromValue h).1
  cases impl with
  | typescript =>
    simp only [wasmMessage]
    split
    · next rid hrid => exact absurd ⟨⟨rid, hrid⟩, fun h => by cases h⟩ hresponse
    · cases m <;> simp [ht, WireMsg.tag, forwardReading]
  | rescript =>
    simp only [wasmMessage]
    split
    · next rid ok hrid hok => exact absurd ⟨⟨rid, hrid⟩, fun _ => ⟨ok, hok⟩⟩ hresponse
    · cases m <;> simp [ht, WireMsg.tag, forwardReading]

namespace World

variable {uuid : ℕ → String} {w : World} {version : UInt32}

/-- What a relay has sent was well made when it was sent. -/
theorem wellMade_run {es : List RelayEvent} {s : State}
    (hrun : Transition.run (State.step impl cfg) (make impl cfg) es = some s) :
    ∀ f ∈ s.sent, ∃ e, f.WellMade impl cfg e := by
  refine Transition.run_invariant (I := fun s => ∀ f ∈ s.sent, ∃ e, f.WellMade impl cfg e) ?_ hrun
    fun _ h => by cases h
  intro s e t h hstep f hf
  obtain ⟨fs, hsent, hmade⟩ := State.writes_step hstep
  rw [hsent] at hf
  rcases List.mem_append.mp hf with hf | hf
  · exact h f hf
  · exact ⟨e, hmade f hf⟩

/-- A response of the bridge is a response to both relays. -/
theorem wasmMessage_response (impl : Impl) (rid : String) (result : Except String Value) :
    ∃ response error, wasmMessage impl (CommBusResponse.ofResult rid result).toValue =
      .response rid result.isOk response error := by
  rw [toValue_ofResult]
  cases result <;> cases impl <;>
    exact ⟨_, _, by simp [wasmMessage, responseDoc, Json.property, Json.named, Except.isOk,
      Except.toBool]; exact ⟨rfl, rfl⟩⟩

/-- Everything on its way is taken for what it was made as, as far as the limit on nesting
lets it be read at all. The bridge finds a command or an event in every envelope, so that it
never hands a payload to the handler as it is; the host finds no command and no ping, so that
it neither fans out a command of a gauge nor answers with a pong. -/
structure Understood (uuid : ℕ → String) (impl : Impl) (cfg : ResolvedConfig) (version : UInt32)
    (w : World) : Prop where
  down : ∀ i, ∀ t ∈ w.inbound i, ∃ m : WireMsg, t = m.toJson ∧
    m.tag ∈ ["cmd", "event", "ping", "pong"] ∧
    hostMessage impl m.toValue = relayReading m m.toValue
  calls : ∀ t ∈ w.toWasm, t.parse.isSome → ∃ rid m, t = .doc (envelope rid m.toValue) ∧
    dispatch .exact t = bridgeReading rid m m.toValue ∧
    ((∃ c, (rid, some (.str (uuid c))) ∈ w.relay.accepted ∧ m = .cmd (w.command uuid c)) ∨
      ∃ e, m = .event e)
  texts : ∀ t ∈ w.fromWasm, ∃ j, t = .doc j ∧
    ((∃ r ∈ w.invocations, ∃ response error,
        wasmMessage impl j = .response r.requestId r.result.isOk response error) ∨
      ∃ e, j = (WireMsg.event e).toValue ∧ wasmMessage impl j = .forward)
  up : ∀ i, ∀ t ∈ w.up i, t.parse.isSome →
    (∃ now, t = .doc (State.pongFrame now)) ∨
    (∃ now, WireMsg.fromJson t = some (.hello (helloOf cfg version now))) ∨
    (∃ e, WireMsg.fromJson t = some (.event e)) ∨
    ∃ c a, WireMsg.fromJson t = some (.ack a) ∧ a.id = uuid c

/-- A message that a program prints is the same message to the relays. -/
theorem hostMessage_toValue (impl : Impl) (m : WireMsg) :
    hostMessage impl m.toValue = relayReading m m.toValue := by
  obtain ⟨ms, hms⟩ : ∃ ms, m.toValue = .obj ms := by cases m <;> exact ⟨_, rfl⟩
  have hread := WireMsg.fromValue_toValue m
  rw [hms] at hread ⊢
  rw [hostMessage_of_fromValue impl hread]
  cases m <;> rfl

/-- And it is the same message when it comes from the module. -/
theorem wasmMessage_toValue (impl : Impl) (m : WireMsg) :
    wasmMessage impl m.toValue = forwardReading m := by
  obtain ⟨ms, hms⟩ : ∃ ms, m.toValue = .obj ms := by cases m <;> exact ⟨_, rfl⟩
  have hread := WireMsg.fromValue_toValue m
  have hrequest : m.toValue.property "requestId" = none := by
    cases m <;> simp [WireMsg.toValue, Json.property, Json.named, Json.named_append,
      named_unlessNone]
  rw [hms] at hread hrequest ⊢
  have hresponse : ¬IsResponse impl (.obj ms) := by
    rintro ⟨⟨rid, hrid⟩, -⟩
    rw [hrequest] at hrid
    cases hrid
  rw [wasmMessage_of_not_isResponse hread hresponse]
  cases m <;> rfl

/-- A relay reads the frames of the host as what they were made as. -/
theorem HostFrame.understood {t : Text} (h : HostFrame uuid w t) :
    ∃ m : WireMsg, t = m.toJson ∧ m.tag ∈ ["cmd", "event", "ping", "pong"] ∧
      hostMessage impl m.toValue = relayReading m m.toValue := by
  rcases h with ⟨c, _, rfl⟩ | ⟨e, rfl⟩ | ⟨ts, rfl | rfl⟩
  · exact ⟨_, rfl, by simp [WireMsg.tag], hostMessage_toValue impl _⟩
  · exact ⟨_, rfl, by simp [WireMsg.tag], hostMessage_toValue impl _⟩
  · exact ⟨_, rfl, by simp [WireMsg.tag], hostMessage_toValue impl _⟩
  · exact ⟨_, rfl, by simp [WireMsg.tag], hostMessage_toValue impl _⟩

/-- The bridge reads the calls of the relay as what they were made as. -/
theorem RelayCall.understood {t : Text} (h : RelayCall uuid w t) (hparse : t.parse.isSome) :
    ∃ rid m, t = .doc (envelope rid m.toValue) ∧
      dispatch .exact t = bridgeReading rid m m.toValue ∧
      ((∃ c, (rid, some (.str (uuid c))) ∈ w.relay.accepted ∧ m = .cmd (w.command uuid c)) ∨
        ∃ e, m = .event e) := by
  have hdepth {j : Value} (h : (Text.doc j).parse.isSome) : j.depth < recursionLimit := by
    by_contra hnot
    simp [Text.parse, hnot] at h
  rcases h with ⟨rid, c, _, hacc, rfl⟩ | ⟨rid, e, rfl⟩
  · refine ⟨rid, _, rfl, ?_, .inl ⟨c, hacc, rfl⟩⟩
    rw [dispatch_exact, if_pos (hdepth hparse), WireMsg.fromValue_toValue]
    rfl
  · refine ⟨rid, _, rfl, ?_, .inr ⟨e, rfl⟩⟩
    rw [dispatch_exact, if_pos (hdepth hparse), WireMsg.fromValue_toValue]
    rfl

/-- A relay reads the texts of the bridge as what they were made as. -/
theorem BridgeText.understood {t : Text} (h : BridgeText w t) : ∃ j, t = .doc j ∧
    ((∃ r ∈ w.invocations, ∃ response error,
        wasmMessage impl j = .response r.requestId r.result.isOk response error) ∨
      ∃ e, j = (WireMsg.event e).toValue ∧ wasmMessage impl j = .forward) := by
  rcases h with ⟨r, hr, rfl⟩ | ⟨e, rfl⟩
  · exact ⟨_, rfl, .inl ⟨r, hr, wasmMessage_response impl r.requestId r.result⟩⟩
  · refine ⟨_, rfl, .inr ⟨e, rfl, ?_⟩⟩
    exact wasmMessage_toValue impl (.event e)

/-- A frame that the relay has sent is a greeting, a pong, an ack for a command of the host or
an event of the module. -/
theorem Facts.frame_cases (h : Facts uuid impl cfg w)
    (hmade : ∀ f ∈ w.relay.sent, ∃ e, f.WellMade impl cfg e) {f : Sent} (hf : f ∈ w.relay.sent) :
    (∃ now, f.frame = .doc (State.pongFrame now)) ∨
    (∃ now, f.frame = .doc (State.helloFrame cfg now)) ∨
    (∃ e, f.frame = (WireMsg.event e).toJson) ∨
    ∃ c result, f.frame = .doc (ackDoc (uuid c) result) := by
  obtain ⟨e, hmade⟩ := hmade f hf
  have hplain := h.books.plain f hf
  cases horigin : f.origin with
  | hello =>
    simp only [Sent.WellMade, horigin] at hmade
    exact .inr (.inl hmade)
  | ready =>
    simp only [Sent.WellMade, horigin] at hmade
    obtain ⟨bound, hframe⟩ := hmade
    exact .inr (.inr (.inl ⟨⟨"__bridge_ready", .obj [("ready", .bool bound)]⟩, hframe⟩))
  | pong =>
    simp only [Sent.WellMade, horigin] at hmade
    obtain ⟨_, _, now, _, _, _, hframe⟩ := hmade
    exact .inl ⟨now, hframe⟩
  | forwarded =>
    simp only [Sent.WellMade, horigin] at hmade
    obtain ⟨_, j, hparse, hforward⟩ := hmade
    simp only [State.Plain, horigin] at hplain
    have hheard := hplain (by simp) (by simp)
    rcases h.traced.texts _ (List.mem_append_right _ hheard) with ⟨r, _, hframe⟩ | ⟨e, hframe⟩
    · -- a response is not forwarded
      rw [hframe, Text.jsonParse_doc, Option.some.injEq] at hparse
      subst hparse
      obtain ⟨response, error, hj⟩ := wasmMessage_response impl r.requestId r.result
      rw [hj] at hforward
      cases hforward
    · exact .inr (.inr (.inl ⟨e, hframe⟩))
  | duplicate =>
    obtain ⟨id, hframe, _⟩ := h.books.exists_copy hf horigin
    have hmem : f.frame ∈ State.duplicateFrames w.relay.sent :=
      List.mem_map.mpr ⟨f, List.mem_filter.mpr ⟨hf, by simp [horigin]⟩, rfl⟩
    rw [h.books.duplicates, h.counted.copies] at hmem
    cases hmem
  | answer rid own =>
    cases own with
    | true =>
      obtain ⟨id, message, hacc, hframe⟩ := h.books.refused f hf rid horigin
      obtain ⟨c, rfl⟩ := h.traced.accepted rid id hacc
      exact .inr (.inr (.inr ⟨c, .error message, hframe⟩))
    | false =>
      obtain ⟨id, raw, j, ok, response, error, ack, hacc, hheard, hparse, hj, hack, hframe⟩ :=
        h.books.responded f hf rid horigin
      obtain ⟨c, rfl⟩ := h.traced.accepted rid id hacc
      rcases h.traced.texts raw (List.mem_append_right _ hheard) with ⟨r, _, rfl⟩ | ⟨e, rfl⟩
      · rw [Text.jsonParse_doc, Option.some.injEq] at hparse
        subst hparse
        obtain ⟨ok', response', error', hj', hack'⟩ :=
          responseAck_responseDoc impl numberText (uuid c) r.requestId r.result
        rw [toValue_ofResult, hj', WasmMessage.response.injEq] at hj
        obtain ⟨rfl, rfl, rfl, rfl⟩ := hj
        rw [hack', Option.some.injEq] at hack
        exact .inr (.inr (.inr ⟨c, r.result, by rw [hframe, ← hack]⟩))
      · rw [WireMsg.toJson, Text.jsonParse_doc, Option.some.injEq] at hparse
        subst hparse
        rw [wasmMessage_toValue] at hj
        cases hj

/-- In every run with fewer than `2 ^ 31` requests, whatever is lost and however the steps of
the programs interleave, everything on its way is taken for what it was made as. -/
theorem everything_understood (huuid : Function.Injective uuid) (hgreets : Greetable cfg version)
    {evs : List WorldEvent}
    (hrun : Transition.run (step uuid impl cfg) (init impl cfg) evs = some w)
    (hbound : w.relay.requests < 2 ^ 31) : w.Understood uuid impl cfg version := by
  have h := facts_run huuid hrun hbound
  obtain ⟨es, hes⟩ := exists_relay_run hrun
  refine ⟨fun i t ht => (h.traced.frames i t ht).understood,
    fun t ht => (h.traced.calls t ht).understood,
    fun t ht => (h.traced.texts t (List.mem_append_left _ ht)).understood, fun i t ht hparse => ?_⟩
  obtain ⟨f, hf, rfl⟩ := h.traced.frames_up i t ht
  have hread {j : Value} (hj : f.frame = .doc j) :
      WireMsg.fromJson f.frame = WireMsg.fromValue j := by
    rw [hj] at hparse ⊢
    obtain ⟨j', hj'⟩ := Option.isSome_iff_exists.mp hparse
    obtain rfl := Text.doc.inj (Text.eq_doc_of_parse hj')
    rw [WireMsg.fromJson, hj', Option.bind_some]
  rcases h.frame_cases (wellMade_run hes) hf with
    ⟨now, hframe⟩ | ⟨now, hframe⟩ | ⟨e, hframe⟩ | ⟨c, result, hframe⟩
  · exact .inl ⟨now, hframe⟩
  · refine .inr (.inl ⟨now, ?_⟩)
    rw [hframe]
    exact helloFrame_fromJson hgreets now
  · refine .inr (.inr (.inl ⟨e, ?_⟩))
    rw [hread hframe]
    exact WireMsg.fromValue_toValue (.event e)
  · obtain ⟨a, hvalue, hid, _⟩ := fromValue_ackDoc (uuid c) result
    exact .inr (.inr (.inr ⟨c, a, by rw [hread hframe, hvalue], hid⟩))

/-- One command is answered, the next one is on the CommBus and the third one on its way to the
relay, whose greeting the host has not read. -/
def inFlight : List WorldEvent :=
  [.relay (.init false false), .relay (.socketOpen 0 .epoch), .accept 0,
    .host (.start 1 (some "set") (.bool true) 5), .host (.insert 1), .host (.deliver 1), .send 0,
    .deliver 0 .epoch false false, .handle 0 (.ok (.str "done")),
    .host (.start 2 none .null 5), .host (.insert 2), .host (.deliver 2), .send 0,
    .deliver 0 .epoch false false, .host (.start 3 none .null 5), .host (.insert 3),
    .host (.deliver 3)]

/-- The run exists. -/
theorem inFlight_isSome : (Transition.run (step Host.Calls.wordId .rescript defaultConfig)
    (init .rescript defaultConfig) inFlight).isSome = true := by
  decide +kernel

/-- One frame, call and response are on their way, and the greeting of the relay. -/
theorem everything_understood_inFlight : ∃ w,
    Transition.run (step Host.Calls.wordId .rescript defaultConfig) (init .rescript defaultConfig)
      inFlight = some w ∧ (w.inbound 0).length = 1 ∧ w.toWasm.length = 1 ∧ w.fromWasm.length = 1 ∧
    (w.up 0).length = 2 ∧ w.Understood Host.Calls.wordId .rescript defaultConfig 1 := by
  have hrun := (Option.some_get inFlight_isSome).symm
  exact ⟨_, hrun, by decide +kernel, by decide +kernel, by decide +kernel, by decide +kernel,
    everything_understood Host.Calls.wordId_injective greetable_default hrun (by decide +kernel)⟩

end World

end InfinityBridge.EndToEnd
