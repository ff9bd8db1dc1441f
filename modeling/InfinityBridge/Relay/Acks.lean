import InfinityBridge.Host.Correlation
import InfinityBridge.Relay.Accounting

/-!
# What an ack with `ok` stands for

An ack with `ok` that is not marked as a duplicate has been reported by a WASM
module. The ack for a duplicate says `ok` whatever became of the first copy, and the
hub, which does not look at the mark, returns it as a success.
-/

namespace InfinityBridge.Relay

namespace State

variable {impl : Impl} {cfg : ResolvedConfig} {s : State}

/-- A text is an ack with `ok` for a command id. -/
def AcksOk (id : Option Value) (frame : Text) : Prop :=
  ∃ j, frame.jsonParse = some j ∧ j.property "t" = some (.str "ack") ∧
    j.property "ok" = some (.bool true) ∧ j.property "id" = id

/-- A text reports ok for a request id. -/
def ReportsOk (impl : Impl) (rid : String) (raw : Text) : Prop :=
  ∃ j response error, raw.jsonParse = some j ∧
    wasmMessage impl j = .response rid true response error

/-- A frame passes on what a WASM module has reported: that the request drawn for the
command is ok, or an ack of the module's own. -/
def Reported (impl : Impl) (s : State) (id : Option Value) (f : Sent) : Prop :=
  (∃ rid raw, f.origin = .answer rid false ∧ (rid, id) ∈ s.accepted ∧ raw ∈ s.heard ∧
      ReportsOk impl rid raw) ∨
    (f.origin = .forwarded ∧ f.frame ∈ s.heard)

/-- A frame is the ack for a copy of a command that was accepted before. -/
def RepeatsAccepted (s : State) (id : Option Value) (f : Sent) : Prop :=
  f.frame = .doc (duplicateAck id) ∧ ∃ rid id', (rid, id') ∈ s.accepted ∧ SameKey id' id

/-- An ack frame with `ok` for an id. -/
theorem acksOk_ackFrame {id id' error response : Option Value} {ok : Bool}
    {duplicate : Option Bool} (h : AcksOk id (.doc (ackFrame id' ok error response duplicate))) :
    ok = true ∧ id' = id := by
  obtain ⟨j, hparse, _, hok, hid⟩ := h
  cases hparse
  rw [ackFrame_property_ok, Option.some.injEq, Json.bool.injEq] at hok
  rw [ackFrame_property_id] at hid
  exact ⟨hok, hid⟩

/-- The frame of a duplicate ack belongs to a recorded copy. -/
theorem Accounted.exists_copy (h : Accounted impl cfg s) {f : Sent} (hf : f ∈ s.sent)
    (horigin : f.origin = .duplicate) :
    ∃ id, f.frame = .doc (duplicateAck id) ∧ ∃ rid id', (rid, id') ∈ s.accepted ∧
      SameKey id' id := by
  have hmem : f.frame ∈ duplicateFrames s.sent :=
    List.mem_map.mpr ⟨f, List.mem_filter.mpr ⟨hf, by simp [horigin]⟩, rfl⟩
  rw [h.duplicates] at hmem
  obtain ⟨id, hid, hframe⟩ := List.mem_map.mp hmem
  exact ⟨id, hframe.symm, h.copies id hid⟩

/-- No plain frame is an ack with `ok`, but one that is forwarded. -/
theorem Plain.not_acksOk {heard : List Text} {f : Sent} (h : Plain cfg heard f)
    {id : Option Value} (hok : AcksOk id f.frame) : f.origin = .forwarded ∧ f.frame ∈ heard := by
  obtain ⟨origin, frame, socket⟩ := f
  obtain ⟨j, hparse, ht, _⟩ := hok
  cases origin with
  | forwarded => exact ⟨rfl, h⟩
  | duplicate | answer => exact h.elim
  | hello | ready | pong =>
    obtain ⟨_, rfl⟩ := h
    rw [Text.jsonParse_doc, Option.some.injEq] at hparse
    subst hparse
    simp [helloFrame, readyFrame, pongFrame, Json.property, Json.named_append, named_member,
      Json.named] at ht

/-- The relay never says `ok` of its own accord, except for a duplicate. -/
theorem Accounted.acksOk (h : Accounted impl cfg s) {f : Sent} (hf : f ∈ s.sent)
    {id : Option Value} (hok : AcksOk id f.frame) :
    Reported impl s id f ∨ RepeatsAccepted s id f := by
  cases horigin : f.origin with
  | answer rid own =>
    cases own with
    | true =>
      obtain ⟨id', message, _, hframe⟩ := h.refused f hf rid horigin
      rw [hframe] at hok
      cases (acksOk_ackFrame hok).1
    | false =>
      obtain ⟨id', raw, j, ok, response, error, ack, hacc, hheard, hparse, hj, hack, hframe⟩ :=
        h.responded f hf rid horigin
      obtain ⟨error', response', rfl⟩ := responseAck_eq_ackFrame hack
      rw [hframe] at hok
      obtain ⟨rfl, rfl⟩ := acksOk_ackFrame hok
      exact .inl (.inl ⟨rid, raw, horigin, hacc, hheard, j, response, error, hparse, hj⟩)
  | duplicate =>
    obtain ⟨id', hframe, haccepted⟩ := h.exists_copy hf horigin
    rw [hframe] at hok
    obtain ⟨-, rfl⟩ := acksOk_ackFrame hok
    exact .inr ⟨hframe, haccepted⟩
  | forwarded | hello | ready | pong =>
    have hplain := h.plain f hf (by simp [horigin]) (by simp [horigin])
    exact .inl (.inr (hplain.not_acksOk hok))

/-- The frames a relay does not pass on are objects. -/
theorem Accounted.exists_obj (h : Accounted impl cfg s) {f : Sent} (hf : f ∈ s.sent)
    (horigin : f.origin ≠ .forwarded) : ∃ ms, f.frame = .doc (.obj ms) := by
  cases horigin' : f.origin with
  | answer rid own =>
    obtain ⟨_, _, _, _, _, hframe⟩ := h.frame hf horigin'
    exact ⟨_, hframe⟩
  | duplicate =>
    obtain ⟨_, hframe, _⟩ := h.exists_copy hf horigin'
    exact ⟨_, hframe⟩
  | forwarded => exact absurd horigin' horigin
  | hello | ready | pong =>
    have hplain := h.plain f hf (by simp [horigin']) (by simp [horigin'])
    simp only [Plain, horigin'] at hplain
    obtain ⟨_, hframe⟩ := hplain
    exact ⟨_, hframe⟩

/-- A string is the same key as itself only. -/
theorem eq_of_sameKey_str {id : Option Value} {text : String}
    (h : SameKey id (some (.str text))) : id = some (.str text) := by
  obtain ⟨ref, hkey⟩ := h
  rcases id with _ | ⟨_ | _ | _ | _ | _ | _⟩ <;> simp_all [Key.of]

/-- What the hub reads as an ack from a frame that a relay has made itself. -/
theorem acksOk_of_fromJson {ms : List (String × Value)} {a : AckPayload}
    (hread : WireMsg.fromJson (.doc (.obj ms)) = some (.ack a)) (hok : a.ok = true) :
    AcksOk (some (.str a.id)) (.doc (.obj ms)) := by
  obtain ⟨j, hparse, hvalue⟩ := Option.bind_eq_some_iff.mp hread
  cases Text.eq_doc_of_parse hparse
  obtain ⟨ht, hbody⟩ := WireMsg.fromValue_obj_ack hvalue
  obtain ⟨hid, hok', -⟩ := AckPayload.fromBody_map hbody
  refine ⟨.obj ms, rfl, ?_, ?_, ?_⟩
  · simp only [Json.property, ht, List.getLast?_singleton]
  · simp only [Json.property, hok', List.getLast?_singleton, hok]
  · simp only [Json.property, hid, List.getLast?_singleton]

/-- The hub reads the ack of a duplicate as a mark and no response. -/
theorem duplicateAck_fromJson {id : Option Value} {a : AckPayload}
    (hread : WireMsg.fromJson (.doc (duplicateAck id)) = some (.ack a)) :
    a.duplicate = some true ∧ a.response = none := by
  obtain ⟨j, hparse, hvalue⟩ := Option.bind_eq_some_iff.mp hread
  cases Text.eq_doc_of_parse hparse
  obtain ⟨_, hbody⟩ := WireMsg.fromValue_obj_ack hvalue
  obtain ⟨_, _, hresponse, hduplicate⟩ := AckPayload.fromBody_map hbody
  constructor
  · simpa [Body.field, Json.named_append, named_member, Json.named, optional, asBool,
      eq_comm] using hduplicate
  · simpa [Body.field, Json.named_append, named_member, Json.named, optional,
      eq_comm] using hresponse

/-- What the hub takes for a success. -/
theorem Accounted.ackOutcome (h : Accounted impl cfg s) {f : Sent} (hf : f ∈ s.sent)
    {a : AckPayload} (hread : WireMsg.fromJson f.frame = some (.ack a)) {v : Value}
    (hok : Host.ackOutcome a = .ok v) : Reported impl s (some (.str a.id)) f ∨
      (a.duplicate = some true ∧ v = .null ∧ ∃ rid, (rid, some (.str a.id)) ∈ s.accepted) := by
  have hflag : a.ok = true := by
    by_contra hnot
    simp [Host.ackOutcome, hnot] at hok
  by_cases horigin : f.origin = .forwarded
  · have hplain := h.plain f hf (by simp [horigin]) (by simp [horigin])
    simp only [Plain, horigin] at hplain
    exact .inl (.inr ⟨horigin, hplain⟩)
  · obtain ⟨ms, hframe⟩ := h.exists_obj hf horigin
    have hacks := acksOk_of_fromJson (hframe ▸ hread) hflag
    rcases h.acksOk hf (hframe ▸ hacks) with hreported | ⟨hduplicate, rid, id', hacc, hkey⟩
    · exact .inl hreported
    · obtain ⟨hmark, hresponse⟩ := duplicateAck_fromJson (hduplicate ▸ hread)
      refine .inr ⟨hmark, ?_, rid, eq_of_sameKey_str hkey ▸ hacc⟩
      simpa [Host.ackOutcome, hflag, hresponse, eq_comm] using hok

/-- Every ack with `ok` has been reported by a WASM module, or is the ack for a copy of
a command that was accepted before. So is every success a call of the hub returns, when
all the acks the hub is handed are frames this relay has sent. -/
theorem ok_acks_reported {es : List RelayEvent}
    (hrun : Transition.run (step impl cfg) (make impl cfg) es = some s)
    (hbound : s.requests < 2 ^ 31) :
    (∀ f ∈ s.sent, ∀ id, AcksOk id f.frame → Reported impl s id f ∨ RepeatsAccepted s id f) ∧
    ∀ uuid : ℕ → String, Function.Injective uuid → ∀ calls t,
      Transition.run (Host.Calls.step uuid) Host.Calls.init calls = some t →
      (∀ d a, .takeAck d a ∈ calls →
        ∃ f ∈ s.sent, WireMsg.fromJson f.frame = some (.ack a)) →
      ∀ c v, (t.calls c).pc = .finished (.ok v) →
        ∃ d a, .takeAck d a ∈ calls ∧ a.id = uuid c ∧ Host.ackOutcome a = .ok v ∧
          ∃ f ∈ s.sent, WireMsg.fromJson f.frame = some (.ack a) ∧
            (Reported impl s (some (.str (uuid c))) f ∨
              (a.duplicate = some true ∧ v = .null ∧
                ∃ rid, (rid, some (.str (uuid c))) ∈ s.accepted)) := by
  have hbooks := accounted_run hrun hbound
  refine ⟨fun f hf id hok => hbooks.acksOk hf hok, ?_⟩
  intro uuid huuid calls t hcalls hacks c v hpc
  rcases Host.Calls.finished_outcome huuid hcalls hpc with ⟨_, e, he, _⟩ | ⟨between, hpolled, hr⟩
  · cases he
  rcases hr with ⟨d, a, rest, ⟨before, hbetween, hid, _⟩, _, hout⟩ | ⟨_, hout⟩
  · obtain ⟨start, after, hcallsEq⟩ := hpolled
    have htake : .takeAck d a ∈ calls := by simp [hcallsEq, hbetween]
    obtain ⟨f, hf, hread⟩ := hacks d a htake
    exact ⟨d, a, htake, hid, hout.symm, f, hf, hread, hid ▸ hbooks.ackOutcome hf hread hout.symm⟩
  · cases hout

/-- A call whose command has the id `"a"`, and the ack it is handed. -/
def oneCall (a : AckPayload) : List Host.CallEvent :=
  [.start 1 none .null 5, .register 0, .insert 1, .deliver 1, .takeAck 0 a, .sendAck 0, .poll 1,
    .remove 1]

/-- The call returns the success that the relay has been told of. -/
theorem ok_acks_reported_answeredOnce : ∃ s,
    Transition.run (step .rescript defaultConfig) (make .rescript defaultConfig) answeredOnce =
      some s ∧
    ∃ f ∈ s.sent, WireMsg.fromJson f.frame = some (.ack ⟨"a", true, none, none, none⟩) ∧
      (Reported .rescript s (some (.str "a")) f ∨ RepeatsAccepted s (some (.str "a")) f) ∧
      ∃ d a, .takeAck d a ∈ oneCall ⟨"a", true, none, none, none⟩ ∧ a.id = Host.Calls.wordId 1 ∧
        Host.ackOutcome a = .ok .null ∧
          ∃ f ∈ s.sent, WireMsg.fromJson f.frame = some (.ack a) ∧
            (Reported .rescript s (some (.str (Host.Calls.wordId 1))) f ∨
              (a.duplicate = some true ∧ (.null : Value) = .null ∧
                ∃ rid, (rid, some (.str (Host.Calls.wordId 1))) ∈ s.accepted)) := by
  have hsome : (Transition.run (step .rescript defaultConfig) (make .rescript defaultConfig)
    answeredOnce).isSome := by rfl
  have hcalls : (Transition.run (Host.Calls.step Host.Calls.wordId) Host.Calls.init
    (oneCall ⟨"a", true, none, none, none⟩)).isSome := by rfl
  obtain ⟨hacks, hhub⟩ := ok_acks_reported (Option.some_get hsome).symm
    (lt_of_eq_of_lt (show _ = 1 from rfl) (by norm_num))
  refine ⟨_, (Option.some_get hsome).symm, ⟨.answer "0-1" false, _, some 0⟩,
    List.mem_of_getElem? (i := 3) rfl, rfl, ?_, ?_⟩
  · exact hacks _ (List.mem_of_getElem? (i := 3) rfl) _ ⟨_, rfl, rfl, rfl, rfl⟩
  · refine hhub Host.Calls.wordId Host.Calls.wordId_injective _ _ (Option.some_get hcalls).symm ?_ 1
      .null rfl
    intro d a htake
    have ha : d = 0 ∧ a = ⟨"a", true, none, none, none⟩ := by simpa [oneCall] using htake
    exact ⟨_, List.mem_of_getElem? (i := 3) rfl, ha.2 ▸ rfl⟩

/-- A call whose command the relay forwards and then sees a second time. -/
def retransmitted : List RelayEvent := forwarding ++
  [.socketMessage 0 (some exampleCommand) .epoch false false]

/-- The command of the example is in flight and no WASM module has said anything, but the
frame for the second copy makes the call return a success. -/
theorem unreported_success : ∃ s,
    Transition.run (step .typescript defaultConfig) (make .typescript defaultConfig)
      retransmitted = some s ∧ s.requests < 2 ^ 31 ∧ s.heard = [] ∧
      ∃ f ∈ s.sent, AcksOk (some (.str "a")) f.frame ∧
        ∃ a, WireMsg.fromJson f.frame = some (.ack a) ∧
          ∃ t, Transition.run (Host.Calls.step Host.Calls.wordId) Host.Calls.init (oneCall a) =
              some t ∧ (t.calls 1).pc = .finished (.ok .null) := by
  have hsome : (Transition.run (step .typescript defaultConfig) (make .typescript defaultConfig)
    retransmitted).isSome := by rfl
  have hcalls : (Transition.run (Host.Calls.step Host.Calls.wordId) Host.Calls.init
    (oneCall ⟨"a", true, none, none, some true⟩)).isSome := by rfl
  exact ⟨_, (Option.some_get hsome).symm, lt_of_eq_of_lt (show _ = 1 from rfl) (by norm_num), rfl,
    ⟨.duplicate, .doc (duplicateAck (some (.str "a"))), some 0⟩,
    List.mem_of_getElem? (i := 3) rfl, ⟨_, rfl, rfl, rfl, rfl⟩,
    ⟨"a", true, none, none, some true⟩, rfl, _, (Option.some_get hcalls).symm, rfl⟩

end State

end InfinityBridge.Relay
