import InfinityBridge.EndToEnd.Fidelity
import InfinityBridge.EndToEnd.Reports

/-!
# The response channel

The WASM bridge answers requests and emits events on one CommBus event, and the relay
tells the two apart by the members of what it parses. Here any calls of `emit` and
`send_response` are interleaved with anything else that happens to the relay, while its
socket stays open: the events that come out at the host are the ones that were emitted.
-/

namespace InfinityBridge.EndToEnd

open Relay Host Wasm

/-- A call of the WASM bridge on the CommBus. -/
inductive BridgeCall where
  | emit (name : String) (data : Value)
  | sendResponse (requestId : String) (result : Except String Value)

/-- The text of a call. -/
def BridgeCall.text : BridgeCall → Option Text
  | .emit name data => Wasm.emit .exact name data
  | .sendResponse requestId result => Wasm.sendResponse .exact requestId result

/-- An event at a relay: a call of the bridge, whose text its listener is called with, or
something else. -/
inductive ChannelEvent where
  | call (c : BridgeCall)
  | other (e : RelayEvent)

/-- The event that is emitted. -/
def ChannelEvent.emitted : ChannelEvent → Option EventPayload
  | .call (.emit name data) => some ⟨name, data⟩
  | _ => none

/-- The name of an emitted event is not the reserved one, and its data are nested within
the limit of the parser. -/
def ChannelEvent.Allowed (e : ChannelEvent) : Prop :=
  ∀ p, e.emitted = some p → p.name ≠ readyEvent ∧ p.data.depth + 1 < recursionLimit

/-- Only the bridge calls the listener, and the relay is not destroyed. -/
def channelStep (impl : Impl) (cfg : ResolvedConfig) (s : State) : ChannelEvent → Option State
  | .call c => c.text.bind fun raw => State.step impl cfg s (.wasmMessage raw)
  | .other e =>
    match e with
    | .wasmMessage _ | .destroy _ _ => none
    | e => State.step impl cfg s e

variable {impl : Impl} {cfg : ResolvedConfig} {s t : State} {i : ℕ}

/-- An emitted event is forwarded. -/
theorem wasmMessage_event (impl : Impl) (e : EventPayload) :
    wasmMessage impl (WireMsg.event e).toValue = .forward := by
  cases impl <;> simp [wasmMessage, WireMsg.toValue, Json.property, Json.named]

/-- What emitting an event does to a relay that listens: the text is sent, and that is
all. -/
theorem step_emit {name : String} {data : Value}
    (hstep : channelStep impl cfg s (.call (.emit name data)) = some t) :
    t = ({ s with heard := s.heard ++ [(WireMsg.event ⟨name, data⟩).toJson] } : State).wsSend
      .forwarded (WireMsg.event ⟨name, data⟩).toJson := by
  simp only [channelStep, BridgeCall.text, emit, SerdeJson.exact, Option.bind_some,
    State.step] at hstep
  split_ifs at hstep
  cases hstep
  simp only [State.onWasmMessage, Text.jsonParse_doc, wasmMessage_event]
  rfl

/-- An ack is not a response. -/
theorem ackFrame_ne_responseDoc (id error response : Option Value) (ok : Bool)
    (duplicate : Option Bool) (requestId : String) (result : Except String Value) :
    ackFrame id ok error response duplicate ≠ responseDoc requestId result := by
  cases result <;> simp [ackFrame, responseDoc]

/-- What a response does: nothing is sent, or the answer to the request it is for. -/
theorem step_sendResponse {requestId : String} {result : Except String Value}
    (hstep : channelStep impl cfg s (.call (.sendResponse requestId result)) = some t) :
    ∃ fs, t.sent = s.sent ++ fs ∧ (∀ f ∈ fs, f.origin = .answer requestId false ∧
      f.frame ≠ .doc (responseDoc requestId result) ∧ f.socket = s.openSocket) ∧
      ∀ op ∈ opsOf fs, op.Inert := by
  simp only [channelStep, BridgeCall.text, sendResponse, SerdeJson.exact, Option.bind_some,
    State.step, toValue_ofResult] at hstep
  split_ifs at hstep
  cases hstep
  obtain ⟨ok, response, error, hmsg, _⟩ :=
    responseAck_responseDoc impl numberText "" requestId result
  simp only [State.onWasmMessage, Text.jsonParse_doc, hmsg]
  have hnone : ∀ op ∈ opsOf [], op.Inert := by simp [opsOf]
  split
  · exact ⟨[], (List.append_nil _).symm, by simp, hnone⟩
  · next p _ =>
    split
    · exact ⟨[], (List.append_nil _).symm, by simp, hnone⟩
    · next ack hack =>
      obtain ⟨error', response', rfl⟩ := responseAck_eq_ackFrame hack
      refine ⟨_, rfl, fun f hf => ?_, fun op hop => ?_⟩
      · rw [List.mem_singleton.mp hf]
        refine ⟨rfl, fun heq => ?_, rfl⟩
        exact ackFrame_ne_responseDoc _ _ _ _ _ _ _ (Text.doc.inj heq)
      · refine inert_ackFrame p.cmdId error' response' ok none op ?_
        simpa [opsOf] using hop

/-- Each event of the channel adds the emitted event, if any, to what the host will pass
on, and everything is sent on the open socket. -/
theorem channel_step {e : ChannelEvent} (hallowed : e.Allowed)
    (hopen : s.openSocket = some i) (hopen' : t.openSocket = some i)
    (hstep : channelStep impl cfg s e = some t) :
    ∃ fs, t.sent = s.sent ++ fs ∧ (∀ f ∈ fs, f.socket = some i) ∧
      fs.flatMap (fun f => eventsOf f.frame) = e.emitted.toList := by
  have hevents {fs : List Sent} (h : ∀ p, .dispatchEvent p ∉ opsOf fs) :
      fs.flatMap (fun f => eventsOf f.frame) = [] := by
    rw [← events_eq_nil h, opsOf, List.filterMap_flatMap]
    rfl
  cases e with
  | call c =>
    cases c with
    | emit name data =>
      obtain ⟨hname, hdepth⟩ := hallowed ⟨name, data⟩ rfl
      rw [step_emit hstep]
      refine ⟨_, rfl, fun f hf => ?_, ?_⟩
      · rw [List.mem_singleton.mp hf]
        exact hopen
      · simp only [List.flatMap_singleton, eventsOf, handleText_event hname hdepth]
        rfl
    | sendResponse requestId result =>
      obtain ⟨fs, hsent, hfs, hinert⟩ := step_sendResponse hstep
      refine ⟨fs, hsent, fun f hf => (hfs f hf).2.2.trans hopen, ?_⟩
      exact hevents fun p hp => (hinert _ hp).2 p rfl
  | other e =>
    have hcases : (∀ off unregister, e ≠ .destroy off unregister) ∧
        (∀ raw, e ≠ .wasmMessage raw) ∧ State.step impl cfg s e = some t := by
      cases e <;> simp_all [channelStep]
    obtain ⟨hdestroy, hwasm, hstep⟩ := hcases
    obtain ⟨fs, hsent, hnoEvents, _⟩ := (reports_step hdestroy hwasm hstep).sent
    obtain ⟨u, husent, hsame, _⟩ := State.socketsFirst_step hdestroy hstep
    obtain ⟨fs', hsent', hfs'⟩ := hsame.sent
    have hfs : fs' = fs := by
      rw [hsent, husent] at hsent'
      exact (List.append_cancel_left hsent').symm
    refine ⟨fs, hsent, fun f hf => ?_, hevents hnoEvents⟩
    rw [hfs' f (hfs ▸ hf), ← hsame.openSocket, hopen']

/-- A run of the channel while socket `i` is open. -/
theorem channel_run {es : List ChannelEvent} (hallowed : ∀ e ∈ es, e.Allowed)
    (hopen : Transition.Always (channelStep impl cfg) (fun s => s.openSocket = some i) s es)
    (hrun : Transition.run (channelStep impl cfg) s es = some t) :
    ∃ fs, t.sent = s.sent ++ fs ∧ (∀ f ∈ fs, f.socket = some i) ∧
      fs.flatMap (fun f => eventsOf f.frame) = es.filterMap ChannelEvent.emitted := by
  induction es generalizing s with
  | nil =>
    rw [Transition.run_nil, Option.some.injEq] at hrun
    subst hrun
    exact ⟨[], (List.append_nil _).symm, by simp, rfl⟩
  | cons e es ih =>
    obtain ⟨u, hu, hrest⟩ := Transition.run_cons_eq_some.mp hrun
    have hopen' := hopen.2 u hu
    obtain ⟨fs, hsent, hfs, hevents⟩ :=
      channel_step (hallowed e List.mem_cons_self) hopen.1 hopen'.head hu
    obtain ⟨fs', hsent', hfs', hevents'⟩ :=
      ih (fun e he => hallowed e (List.mem_cons_of_mem _ he)) hopen' hrest
    refine ⟨fs ++ fs', ?_, fun f hf => ?_, ?_⟩
    · rw [hsent', hsent, List.append_assoc]
    · exact (List.mem_append.mp hf).elim (hfs f) (hfs' f)
    · rw [List.flatMap_append, hevents, hevents', List.filterMap_cons]
      cases e.emitted <;> rfl

/-- The response channel is unambiguous and loses no event. While a socket stays open,
and for any calls of `emit` and `send_response` among any other events, everything is sent
on that socket, and a connection of the host that receives it passes on to
`dispatch_event` the events that were emitted, each once, in order and unchanged. An
emitted event changes no pending request and arms or disarms no timer; a response is not
forwarded, and what is sent for it is the answer to the request it is for. The texts carry
the values unchanged, the doubles in them too. -/
theorem channel_unambiguous (impl : Impl) (cfg : ResolvedConfig) :
    (∀ (s t : State) (es : List ChannelEvent) (i : ℕ), (∀ e ∈ es, e.Allowed) →
      Transition.Always (channelStep impl cfg) (fun s => s.openSocket = some i) s es →
      Transition.run (channelStep impl cfg) s es = some t →
      ∃ fs, t.sent = s.sent ++ fs ∧ (∀ f ∈ fs, f.socket = some i) ∧
        ∀ (scfg : ServerConfig) (h h' : Server) (c : ℕ) (hes : List ServerEvent),
          Transition.run (Server.step scfg) h hes = some h' →
          (h.conns c).reader.todo = [] → (h'.conns c).reader.todo = [] →
          Transition.trace (Server.step scfg) (Server.receivedBy c) h hes = fs.map (·.frame) →
          Transition.trace (Server.step scfg) (Server.dispatchedBy c) h hes =
            es.filterMap ChannelEvent.emitted) ∧
    (∀ (s t : State) name data, channelStep impl cfg s (.call (.emit name data)) = some t →
      t.pending = s.pending ∧ t.timers = s.timers ∧
        t.sent = s.sent ++ [⟨.forwarded, (WireMsg.event ⟨name, data⟩).toJson, s.openSocket⟩]) ∧
    (∀ (s t : State) requestId result raw,
      (BridgeCall.sendResponse requestId result).text = some raw →
      channelStep impl cfg s (.call (.sendResponse requestId result)) = some t →
      ∃ fs, t.sent = s.sent ++ fs ∧
        ∀ f ∈ fs, f.origin = .answer requestId false ∧ f.frame ≠ raw) := by
  refine ⟨fun s t es i hallowed hopen hrun => ?_, fun s t name data hstep => ?_,
    fun s t requestId result raw hraw hstep => ?_⟩
  · obtain ⟨fs, hsent, hfs, hevents⟩ := channel_run hallowed hopen hrun
    refine ⟨fs, hsent, hfs, fun scfg h h' c hes hrun' hbefore hafter hreceived => ?_⟩
    have hdispatched := Server.dispatched_run c hrun'
    rw [hbefore, hafter, hreceived, List.flatMap_map, hevents] at hdispatched
    simpa using hdispatched
  · rw [step_emit hstep]
    exact ⟨rfl, rfl, rfl⟩
  · obtain ⟨fs, hsent, hfs, _⟩ := step_sendResponse hstep
    refine ⟨fs, hsent, fun f hf => ⟨(hfs f hf).1, ?_⟩⟩
    simp only [BridgeCall.text, sendResponse, SerdeJson.exact, toValue_ofResult,
      Option.some.injEq] at hraw
    exact hraw ▸ (hfs f hf).2.1

/-- A relay that listens and whose socket is open. -/
def listening : List RelayEvent := [.init false false, .socketOpen 0 .epoch]

/-- An event that looks like a response. -/
def lookalike : EventPayload := ⟨"status", .obj [("requestId", .str "0-1"), ("ok", .bool true)]⟩

/-- The bridge answers an unknown request and emits the event. -/
def lookalikeCalls : List ChannelEvent :=
  [.call (.sendResponse "0-1" (.ok .null)), .call (.emit lookalike.name lookalike.data)]

/-- The host's end of the socket. -/
def accepted : List ServerEvent := [.accept 0, .fetchId 0, .insert 0]

/-- The frame with the event arrives at the host. -/
def lookalikeReceived : List ServerEvent :=
  [.receive 0 (.text (WireMsg.event lookalike).toJson), .readerOp 0, .readerOp 0]

/-- The host passes the event on as it was emitted. -/
theorem channel_unambiguous_lookalike : ∃ s t h h',
    Transition.run (State.step .rescript defaultConfig) (make .rescript defaultConfig) listening =
      some s ∧
    Transition.run (channelStep .rescript defaultConfig) s lookalikeCalls = some t ∧
    Transition.run (Server.step Server.defaultConfig) Server.init accepted = some h ∧
    Transition.run (Server.step Server.defaultConfig) h lookalikeReceived = some h' ∧
    Transition.trace (Server.step Server.defaultConfig) (Server.dispatchedBy 0) h
      lookalikeReceived = [lookalike] := by
  let s := (Transition.run (State.step .rescript defaultConfig) (make .rescript defaultConfig)
    listening).get rfl
  have hallowed : ∀ e ∈ lookalikeCalls, e.Allowed := by
    intro e he p hp
    have hp' : p = lookalike := by
      rcases List.mem_pair.mp he with rfl | rfl <;> cases hp
      rfl
    rw [hp']
    decide
  have hopen : Transition.Always (channelStep .rescript defaultConfig)
      (fun s => s.openSocket = some 0) s lookalikeCalls := by
    refine ⟨rfl, fun t ht => ?_⟩
    cases ht
    refine ⟨rfl, fun t ht => ?_⟩
    cases ht
    rfl
  obtain ⟨fs, hsent, _, hdispatched⟩ :=
    (channel_unambiguous .rescript defaultConfig).1 s _ lookalikeCalls 0 hallowed hopen rfl
  have hfs : fs = [⟨.forwarded, (WireMsg.event lookalike).toJson, some 0⟩] :=
    (List.append_cancel_left hsent).symm
  refine ⟨s, _, _, _, rfl, rfl, rfl, rfl, ?_⟩
  refine hdispatched Server.defaultConfig _ _ 0 lookalikeReceived rfl rfl rfl ?_
  rw [hfs]
  rfl

end InfinityBridge.EndToEnd
