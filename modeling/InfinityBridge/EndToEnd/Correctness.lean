import InfinityBridge.EndToEnd.Facts
import InfinityBridge.Host.Correlation

/-!
# Commands from end to end

However the tasks of the host, the callbacks of the relay and the runs of the handler
interleave, and whatever the sockets and the CommBus lose: the handler runs once at most
for a command, with the name and payload of that command, and a caller gets the result of
that run, or an error that the relay has made for that command, or an error of the host.
-/

namespace InfinityBridge.EndToEnd

open Relay Wasm

namespace World

variable {uuid : ℕ → String} {impl : Impl} {cfg : ResolvedConfig} {w w' : World}

/-! ### Runs -/

/-- A step of the world takes the relay through one callback, or leaves it as it is. -/
theorem relay_step {ev : WorldEvent} (hstep : w.step uuid impl cfg ev = some w') :
    w'.relay = w.relay ∨ ∃ e, State.step impl cfg w.relay e = some w'.relay := by
  have hhost {v : World} {e : Host.CallEvent} (h : v.hostStep uuid e = some w')
      (hv : v.relay = w.relay) : w'.relay = w.relay := by
    obtain ⟨_, _, rfl⟩ := Option.map_eq_some_iff.mp h
    exact hv
  have hrelay {v : World} {e : RelayEvent} (h : v.relayStep impl cfg e = some w')
      (hv : v.relay = w.relay) : ∃ e, State.step impl cfg w.relay e = some w'.relay := by
    obtain ⟨_, ht, rfl⟩ := Option.map_eq_some_iff.mp h
    exact ⟨e, hv ▸ ht⟩
  cases ev <;> simp only [World.step] at hstep
  case host | accept =>
    split_ifs at hstep
    exact .inl (hhost hstep rfl)
  case ping | pong => exact .inl (hhost hstep rfl)
  case send =>
    split at hstep
    · cases hstep
    · exact .inl (hhost hstep rfl)
  case receive =>
    split at hstep
    · cases hstep
    · split at hstep
      · exact .inl (hhost hstep rfl)
      · cases hstep
        exact .inl rfl
  case relay =>
    split_ifs at hstep
    exact .inr (hrelay hstep rfl)
  case deliver =>
    split at hstep
    · cases hstep
    · split_ifs at hstep
      exact .inr (hrelay hstep rfl)
  case handle k result =>
    obtain ⟨raw, _, rfl⟩ := Option.map_eq_some_iff.mp hstep
    refine .inl ?_
    unfold World.handle
    split <;> rfl
  case respond =>
    obtain ⟨raw, _, hstep⟩ := Option.bind_eq_some_iff.mp hstep
    exact .inr (hrelay hstep rfl)
  case cut | loseCall | loseResponse | emit =>
    cases hstep
    exact .inl rfl

/-- What holds in every world that is reached with fewer than `2 ^ 31` requests. -/
theorem facts_run (huuid : Function.Injective uuid) {evs : List WorldEvent}
    (hrun : Transition.run (step uuid impl cfg) (init impl cfg) evs = some w)
    (hbound : w.relay.requests < 2 ^ 31) : Facts uuid impl cfg w := by
  have hinvariant := Transition.run_invariant
    (I := fun w => State.TimersOk w.relay ∧ (w.relay.requests < 2 ^ 31 → Facts uuid impl cfg w))
    ?_ hrun ⟨State.timersOk_make, fun _ => facts_init⟩
  · exact hinvariant.2 hbound
  · rintro w ev w' ⟨htimers, h⟩ hstep
    rcases relay_step hstep with hsame | ⟨e, he⟩
    · refine ⟨hsame ▸ htimers, fun hlt => ?_⟩
      exact facts_step huuid (h (hsame ▸ hlt)) hstep hlt
    · refine ⟨State.timersOk_step htimers he, fun hlt => ?_⟩
      have hrequests := (State.losesUnless_step htimers he).requests
      exact facts_step huuid (h (hrequests.trans_lt hlt)) hstep hlt

/-! ### Acks -/

/-- A run of the handler for the command of call `c`, with its name and payload. -/
def RunFor (uuid : ℕ → String) (w : World) (c : ℕ) (r : Invocation) : Prop :=
  r ∈ w.invocations ∧ callId r.raw = some (uuid c) ∧ r.name = (w.host.calls c).name ∧
    r.payload = (w.host.calls c).payload

/-- An error that the relay has made for the command of call `c`. -/
def RefusedFor (uuid : ℕ → String) (w : World) (c : ℕ) (message : String) : Prop :=
  ∃ f ∈ w.relay.sent, ∃ rid, f.origin = .answer rid true ∧
    (rid, some (.str (uuid c))) ∈ w.relay.accepted ∧
    f.frame = .doc (rejectAck (some (.str (uuid c))) (.str message))

/-- An ack frame that is read back has the id and the result it was made for. -/
theorem ackDoc_fromJson {id : String} {result : Except String Value} {a : AckPayload}
    (hread : WireMsg.fromJson (.doc (ackDoc id result)) = some (.ack a)) :
    a.id = id ∧ Host.ackOutcome a = expected result := by
  obtain ⟨j, hparse, hvalue⟩ := Option.bind_eq_some_iff.mp hread
  cases Text.eq_doc_of_parse hparse
  obtain ⟨a', hread', hid, houtcome⟩ := fromValue_ackDoc id result
  rw [hread', Option.some.injEq, WireMsg.ack.injEq] at hvalue
  exact hvalue ▸ ⟨hid, houtcome⟩

/-- No text of the bridge is an ack. -/
theorem BridgeText.not_ack {t : Text} (h : BridgeText w t) (a : AckPayload) :
    WireMsg.fromJson t ≠ some (.ack a) := by
  intro hread
  obtain ⟨j, hparse, hvalue⟩ := Option.bind_eq_some_iff.mp hread
  rcases h with ⟨r, _, rfl⟩ | ⟨e, rfl⟩
  · cases Text.eq_doc_of_parse hparse
    rw [toValue_ofResult, fromValue_responseDoc] at hvalue
    cases hvalue
  · cases Text.eq_doc_of_parse hparse
    rw [WireMsg.fromValue_toValue] at hvalue
    cases hvalue

/-- Two commands accepted under one request id are the same. -/
theorem Facts.accepted_inj (h : Facts uuid impl cfg w) {rid : String} {id id' : Option Value}
    (hacc : (rid, id) ∈ w.relay.accepted) (hacc' : (rid, id') ∈ w.relay.accepted) : id = id' := by
  have := List.inj_on_of_nodup_map h.books.nodup hacc hacc' rfl
  rw [Prod.mk.injEq] at this
  exact this.2

/-- Where an ack for call `c` comes from: a run of the handler, or the relay itself. -/
theorem Facts.ack_source (huuid : Function.Injective uuid) (h : Facts uuid impl cfg w) {f : Sent}
    (hf : f ∈ w.relay.sent) {a : AckPayload}
    (hread : WireMsg.fromJson f.frame = some (.ack a)) {c : ℕ} (hid : a.id = uuid c) :
    (∃ r, w.RunFor uuid c r ∧ Host.ackOutcome a = expected r.result) ∨
      ∃ message, w.RefusedFor uuid c message ∧
        Host.ackOutcome a = .error (.application message) := by
  cases horigin : f.origin with
  | answer rid own =>
    cases own with
    | true =>
      obtain ⟨id, message, hacc, hframe⟩ := h.books.refused f hf rid horigin
      obtain ⟨c', rfl⟩ := h.traced.accepted rid id hacc
      have hack : WireMsg.fromJson (.doc (ackDoc (uuid c') (.error message))) = some (.ack a) := by
        rw [← hread, hframe]
        rfl
      obtain ⟨hid', houtcome⟩ := ackDoc_fromJson hack
      obtain rfl := huuid (hid.symm.trans hid')
      exact .inr ⟨message, ⟨f, hf, rid, horigin, hacc, hframe⟩, houtcome⟩
    | false =>
      obtain ⟨id, raw, j, ok, response, error, ack, hacc, hheard, hparse, hj, hack, hframe⟩ :=
        h.books.responded f hf rid horigin
      rcases h.traced.texts raw (List.mem_append_right _ hheard) with ⟨r, hr, rfl⟩ | ⟨e, rfl⟩
      · obtain ⟨c', _, hacc', hraw, hname, hpayload⟩ := h.traced.runs r hr
        rw [Text.jsonParse_doc, Option.some.injEq] at hparse
        subst hparse
        obtain ⟨ok', response', error', hj', hack'⟩ :=
          responseAck_responseDoc impl numberText (uuid c') r.requestId r.result
        rw [toValue_ofResult, hj', WasmMessage.response.injEq] at hj
        obtain ⟨rfl, rfl, rfl, rfl⟩ := hj
        obtain rfl := h.accepted_inj hacc hacc'
        rw [hack', Option.some.injEq] at hack
        rw [hframe, ← hack] at hread
        obtain ⟨hid', houtcome⟩ := ackDoc_fromJson hread
        obtain rfl := huuid (hid.symm.trans hid')
        refine .inl ⟨r, ⟨hr, ?_, hname, hpayload⟩, houtcome⟩
        rw [hraw, callId_envelope, commandId_cmd]
        rfl
      · -- an event does not settle a request
        rw [WireMsg.toJson, Text.jsonParse_doc, Option.some.injEq] at hparse
        subst hparse
        cases impl <;> simp [wasmMessage, WireMsg.toValue, Json.property, Json.named] at hj
  | duplicate =>
    obtain ⟨id, hframe, _⟩ := h.books.exists_copy hf horigin
    have hmem : f.frame ∈ State.duplicateFrames w.relay.sent :=
      List.mem_map.mpr ⟨f, List.mem_filter.mpr ⟨hf, by simp [horigin]⟩, rfl⟩
    rw [h.books.duplicates, h.counted.copies] at hmem
    cases hmem
  | forwarded =>
    have hplain := h.books.plain f hf (by simp [horigin]) (by simp [horigin])
    simp only [State.Plain, horigin] at hplain
    exact absurd hread ((h.traced.texts _ (List.mem_append_right _ hplain)).not_ack a)
  | hello | ready | pong =>
    have hplain := h.books.plain f hf (by simp [horigin]) (by simp [horigin])
    simp only [State.Plain, horigin] at hplain
    obtain ⟨_, hframe⟩ := hplain
    rw [hframe] at hread
    obtain ⟨j, hparse, hvalue⟩ := Option.bind_eq_some_iff.mp hread
    cases Text.eq_doc_of_parse hparse
    obtain ⟨ht, _⟩ := WireMsg.fromValue_obj_ack hvalue
    simp [member, Json.named, Json.named_append] at ht

/-- The handler runs once at most for a command. A caller gets a value only from a run of
the handler for its own command, with exactly its name and payload, and an application
error only from such a run or from the relay, which has made it for that command. -/
theorem commands_end_to_end (huuid : Function.Injective uuid) {evs : List WorldEvent}
    (hrun : Transition.run (step uuid impl cfg) (init impl cfg) evs = some w)
    (hbound : w.relay.requests < 2 ^ 31) (c : ℕ) :
    w.invocations.countP (fun r => callId r.raw = some (uuid c)) ≤ 1 ∧
    (∀ v, (w.host.calls c).pc = .finished (.ok v) → ∃ r, w.RunFor uuid c r ∧ r.result = .ok v) ∧
    ∀ e, (w.host.calls c).pc = .finished (.error (.application e)) →
      (∃ r, w.RunFor uuid c r ∧ r.result = .error e) ∨ w.RefusedFor uuid c e := by
  have h := facts_run huuid hrun hbound
  have hsource {result : Except BridgeError Value} (hpc : (w.host.calls c).pc = .finished result)
      (hkind : (∃ v, result = .ok v) ∨ ∃ e, result = .error (.application e)) :
      (∃ r, w.RunFor uuid c r ∧ result = expected r.result) ∨
        ∃ message, w.RefusedFor uuid c message ∧ result = .error (.application message) := by
    rcases Host.Calls.finished_outcome huuid h.traced.ran hpc with
      ⟨_, e, rfl, he⟩ | ⟨between, ⟨start, after, hevs⟩, hr⟩
    · -- an error of the host is of another kind
      rcases hkind with ⟨v, hv⟩ | ⟨e', he'⟩
      · cases hv
      · cases he'
        rcases he with he | he <;> cases he
    · rcases hr with ⟨d, a, rest, ⟨before, hbetween, hid, _⟩, _, rfl⟩ | ⟨_, rfl⟩
      · have htake : .takeAck d a ∈ w.history := by simp [hevs, hbetween]
        obtain ⟨f, hf, hread⟩ := h.traced.acks d a htake
        exact h.ack_source huuid hf hread hid
      · rcases hkind with ⟨v, hv⟩ | ⟨e', he'⟩
        · cases hv
        · cases he'
  refine ⟨?_, fun v hv => ?_, fun e he => ?_⟩
  · have hhandled := h.counted.handled c
    have honce := h.counted.acceptedOnce c
    rw [runsOf] at hhandled
    omega
  · rcases hsource hv (.inl ⟨v, rfl⟩) with ⟨r, hr, hresult⟩ | ⟨_, _, hresult⟩
    · refine ⟨r, hr, ?_⟩
      cases hvalue : r.result <;> rw [hvalue] at hresult <;> cases hresult
      rfl
    · cases hresult
  · rcases hsource he (.inr ⟨e, rfl⟩) with ⟨r, hr, hresult⟩ | ⟨_, hrefused, hresult⟩
    · refine .inl ⟨r, hr, ?_⟩
      cases hvalue : r.result <;> rw [hvalue] at hresult <;> cases hresult
      rfl
    · cases hresult
      exact .inr hrefused

/-- One command that is delivered, handled and acked. -/
def oneCommand : List WorldEvent :=
  [.relay (.init false false), .relay (.socketOpen 0 .epoch), .accept 0,
    .host (.start 1 (some "set") (.bool true) 5), .host (.insert 1), .host (.deliver 1), .send 0,
    .deliver 0 .epoch false false, .handle 0 (.ok (.str "done")), .respond 0, .receive 0 0,
    .receive 0 0, .receive 0 0, .host (.sendAck 0), .host (.poll 1), .host (.remove 1)]

/-- The text a call has returned as its value. -/
def returnedText : Host.Pc → Option String
  | .finished (.ok (.str text)) => some text
  | _ => none

/-- A call whose text is known has returned that string. -/
theorem eq_finished_of_returnedText {pc : Host.Pc} {text : String}
    (h : returnedText pc = some text) : pc = .finished (.ok (.str text)) := by
  unfold returnedText at h
  split at h <;> cases h
  rfl

/-- The run exists. -/
theorem oneCommand_isSome : (Transition.run (step Host.Calls.wordId .rescript defaultConfig)
    (init .rescript defaultConfig) oneCommand).isSome = true := by
  decide +kernel

/-- The caller of the command gets what the handler has returned for it. -/
theorem commands_end_to_end_oneCommand : ∃ w,
    Transition.run (step Host.Calls.wordId .rescript defaultConfig) (init .rescript defaultConfig)
      oneCommand = some w ∧ ∃ r, w.RunFor Host.Calls.wordId 1 r ∧ r.result = .ok (.str "done") := by
  have hrun := (Option.some_get oneCommand_isSome).symm
  refine ⟨_, hrun, ?_⟩
  exact (commands_end_to_end Host.Calls.wordId_injective hrun (by decide +kernel) 1).2.1 _
    (eq_finished_of_returnedText (by decide +kernel))

end World

end InfinityBridge.EndToEnd
