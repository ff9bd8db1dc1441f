import InfinityBridge.EndToEnd.Channel
import InfinityBridge.Relay.Retransmission
import InfinityBridge.Relay.Twins

/-!
# The two relays are interchangeable

The TypeScript and the ReScript relay on the same configuration and the same events, from
`init` on and until `destroy`. What comes from the host and from the WASM module is what
these components print. The relays differ in the type of the request counter and in how
they read a message, none of which shows, and in the identity of their handlers.
-/

namespace InfinityBridge.EndToEnd

open Relay Host Wasm

/-- The events between `init` and `destroy`, with messages as the other components write
them and promises that reject with an `Error`. -/
def Admissible : RelayEvent → Prop
  | .init _ _ | .destroy _ _ => False
  | .socketMessage _ data _ _ _ => ∃ m : WireMsg, data = some m.toJson
  | .wasmMessage raw => ∃ c : BridgeCall, c.text = some raw
  | .callRejected _ reason => ∃ m, reason = .error m
  | _ => True

/-- What is compared of a frame: the socket that took it, and what the host decodes. -/
def decoded (f : Sent) : Option ℕ × Option WireMsg := (f.socket, WireMsg.fromJson f.frame)

/-- Two relays look the same from outside. -/
structure Interchangeable (s t : State) : Prop where
  calls : t.calls = s.calls
  frames : t.sent.map decoded = s.sent.map decoded
  pending : t.pending = s.pending
  dedup : t.dedup = s.dedup
  bound : t.commBusBound = s.commBusBound
  timers : t.timers = s.timers

variable {impl : Impl} {cfg : ResolvedConfig} {s t : State} {e : RelayEvent}

/-- Relays that differ in their handlers look the same. -/
theorem interchangeable_of_twins (h : State.Twins s t) : Interchangeable s t where
  calls := h.eq (·.calls) fun _ _ _ => rfl
  frames := h.eq (fun s => s.sent.map decoded) fun _ _ _ => rfl
  pending := h.eq (·.pending) fun _ _ _ => rfl
  dedup := h.eq (·.dedup) fun _ _ _ => rfl
  bound := h.eq (·.commBusBound) fun _ _ _ => rfl
  timers := h.eq (·.timers) fun _ _ _ => rfl

/-- Both relays read what the host writes in the same way. -/
theorem hostMessage_toValue (m : WireMsg) :
    hostMessage .rescript m.toValue = hostMessage .typescript m.toValue := by
  cases m with
  | hello p =>
    simp [hostMessage, WireMsg.toValue, Json.property, Json.named, named_unlessNone]
  | ping ts | pong ts | event p =>
    simp [hostMessage, WireMsg.toValue, Json.property, Json.named]
  | cmd p =>
    obtain ⟨id, name, payload⟩ := p
    rw [toValue_cmd, hostMessage_commandDoc, hostMessage_commandDoc]
  | ack p =>
    simp [hostMessage, WireMsg.toValue, Json.property, Json.named, Json.named_append,
      named_unlessNone]

/-- Below the bound both relays draw the same request id. -/
theorem nextRequestId_rescript (now : TimeValue) (hseq : s.requestSeq = s.requests)
    (hbound : s.requests + 1 < 2 ^ 31) :
    s.nextRequestId .rescript now = s.nextRequestId .typescript now := by
  simp only [State.nextRequestId, hseq, State.succ_natCast _ hbound]

/-- Both relays handle a command in the same way. -/
theorem onHostCommand_rescript {id : Option Value} {frame : Value} {now : TimeValue}
    {onThrows callThrows : Bool} (hseq : s.requestSeq = s.requests)
    (hbound : ∀ t, s.onHostCommand .typescript cfg id frame now onThrows callThrows = some t →
      t.requests < 2 ^ 31) :
    s.onHostCommand .rescript cfg id frame now onThrows callThrows =
      s.onHostCommand .typescript cfg id frame now onThrows callThrows := by
  unfold State.onHostCommand at hbound ⊢
  dsimp only at hbound ⊢
  split
  · rfl
  · next hnew =>
    rw [if_neg hnew] at hbound
    cases hmark : s.dedup.mark (Key.of s.nextRef id) with
    | none => rfl
    | some dedup =>
      rw [hmark] at hbound
      have hlt := hbound _ rfl
      rw [(State.forwardCommand_books _ _ _ _).1] at hlt
      have hdraw := nextRequestId_rescript (s := { s with nextRef := s.nextRef + 1, dedup }) now
        hseq hlt
      simp only [Option.map_some, State.openRequest, hdraw]

/-- Both relays handle an event in the same way. -/
theorem onHostEvent_rescript {frame : Value} {now : TimeValue} {callThrows : Bool}
    (hseq : s.requestSeq = s.requests)
    (hbound : (s.onHostEvent .typescript cfg frame now callThrows).requests < 2 ^ 31) :
    s.onHostEvent .rescript cfg frame now callThrows =
      s.onHostEvent .typescript cfg frame now callThrows := by
  unfold State.onHostEvent at hbound ⊢
  split
  · rfl
  · next bus hbus =>
    simp only [hbus] at hbound
    rw [(State.sameBooks_call cfg _ _ _ _ _ _).requests] at hbound
    rw [nextRequestId_rescript now hseq hbound]

/-- Both relays handle what the host writes in the same way. -/
theorem onHostMessage_rescript {m : WireMsg} {now : TimeValue} {onThrows callThrows : Bool}
    (hseq : s.requestSeq = s.requests)
    (hbound : ∀ t, s.onHostMessage .typescript cfg (some m.toJson) now onThrows callThrows =
      some t → t.requests < 2 ^ 31) :
    s.onHostMessage .rescript cfg (some m.toJson) now onThrows callThrows =
      s.onHostMessage .typescript cfg (some m.toJson) now onThrows callThrows := by
  simp only [State.onHostMessage, Option.bind_some, WireMsg.toJson, Text.jsonParse_doc,
    hostMessage_toValue] at hbound ⊢
  cases hmessage : hostMessage .typescript m.toValue with
  | ping => rfl
  | cmd id frame =>
    simp only [hmessage] at hbound
    exact onHostCommand_rescript hseq hbound
  | event frame =>
    simp only [hmessage] at hbound
    exact congrArg some (onHostEvent_rescript hseq (hbound _ rfl))
  | ignored => rfl

/-- Both relays handle what the bridge writes in the same way. -/
theorem onWasmMessage_rescript {c : BridgeCall} {raw : Text} (hraw : c.text = some raw) :
    s.onWasmMessage .rescript raw = s.onWasmMessage .typescript raw := by
  cases c with
  | emit name data =>
    rw [BridgeCall.text, emit, SerdeJson.exact, Option.some.injEq] at hraw
    subst hraw
    simp only [State.onWasmMessage, Text.jsonParse_doc, wasmMessage_event]
  | sendResponse requestId result =>
    rw [BridgeCall.text, sendResponse, SerdeJson.exact, Option.some.injEq, toValue_ofResult] at hraw
    subst hraw
    cases result <;>
      simp [State.onWasmMessage, wasmMessage, responseDoc, Json.property, Json.named, responseAck,
        resolveAck, refusal, scriptString]

/-- Both relays take the same step from the same state. -/
theorem step_rescript (he : Admissible e) (hseq : s.requestSeq = s.requests)
    (hbound : ∀ t, State.step .typescript cfg s e = some t → t.requests < 2 ^ 31) :
    State.step .rescript cfg s e = State.step .typescript cfg s e := by
  cases e with
  | init socketThrows onThrows => exact he.elim
  | destroy offThrows unregisterThrows => exact he.elim
  | socketMessage i data now onThrows callThrows =>
    obtain ⟨m, rfl⟩ := he
    simp only [State.step] at hbound ⊢
    split
    · next hopen =>
      rw [if_pos hopen] at hbound
      exact onHostMessage_rescript hseq hbound
    · rfl
  | wasmMessage raw =>
    obtain ⟨c, hraw⟩ := he
    simp only [State.step, onWasmMessage_rescript hraw]
  | callRejected n reason =>
    obtain ⟨m, rfl⟩ := he
    rfl
  | continuation | timer | socketOpen | socketError | socketClose | socketDrop => rfl

/-- Both relays come out of `init` with a handler of their own. -/
theorem twins_init (cfg : ResolvedConfig) (socketThrows onThrows : Bool) :
    State.Twins ((make .typescript cfg).init .typescript cfg socketThrows onThrows)
      ((make .rescript cfg).init .rescript cfg socketThrows onThrows) := by
  unfold State.init
  cases socketThrows with
  | true =>
    exact (State.Twins.bindCommBus ⟨some 1, 2, [], rfl, rfl, Iff.rfl⟩ _ _).scheduleBindRetry
  | false =>
    exact (State.Twins.bindCommBus ⟨some 1, 2, [], rfl, rfl, Iff.rfl⟩ _ _).scheduleBindRetry

/-- The TypeScript relay, with its books in order, and a ReScript relay that differs from it
in its handlers. -/
structure Lockstep (cfg : ResolvedConfig) (s t : State) : Prop where
  timers : State.TimersOk s
  books : State.Accounted .typescript cfg s
  twins : State.Twins s t

/-- An event after which both are in lockstep again, and the CommBus calls it leads to. -/
theorem lockstep_step (h : Lockstep cfg s t) (he : Admissible e)
    (hbound : ∀ s', State.step .typescript cfg s e = some s' → s'.requests < 2 ^ 31) :
    Option.Rel (Lockstep cfg) (State.step .typescript cfg s e) (State.step .rescript cfg t e) ∧
      State.callsOf .typescript cfg s e = State.callsOf .rescript cfg t e := by
  have htwins : Option.Rel State.Twins (State.step .typescript cfg s e)
      (State.step .rescript cfg t e) := by
    rw [← step_rescript he h.books.seq hbound]
    refine h.twins.step ?_ ?_
    · rintro socketThrows onThrows rfl
      exact he
    · rintro off unregister rfl
      exact he
  rw [State.callsOf, State.callsOf]
  rcases Transition.rel_cases htwins with ⟨hs, ht⟩ | ⟨s', t', hs, ht, htwins'⟩
  · rw [hs, ht]
    exact ⟨.none, rfl⟩
  · rw [hs, ht]
    refine ⟨.some ⟨State.timersOk_step h.timers hs,
      State.accounted_step h.books h.timers hs (hbound s' hs), htwins'⟩, ?_⟩
    have hcalls : t'.calls = s'.calls := htwins'.eq (·.calls) fun _ _ _ => rfl
    have hnext' : t'.nextCall = s'.nextCall := htwins'.eq (·.nextCall) fun _ _ _ => rfl
    have hnext : t.nextCall = s.nextCall := h.twins.eq (·.nextCall) fun _ _ _ => rfl
    simp only [State.newCalls, hcalls, hnext', hnext]

/-- On the same events the two relays make the same CommBus calls, and after every event
they look the same. -/
theorem relays_interchangeable (cfg : ResolvedConfig) (socketThrows onThrows : Bool)
    {es : List RelayEvent} (hes : ∀ e ∈ es, Admissible e)
    (hbound : Transition.Always (State.step .typescript cfg) (fun s => s.requests < 2 ^ 31)
      (make .typescript cfg) (.init socketThrows onThrows :: es)) :
    Option.Rel Interchangeable
      (Transition.run (State.step .typescript cfg) (make .typescript cfg)
        (.init socketThrows onThrows :: es))
      (Transition.run (State.step .rescript cfg) (make .rescript cfg)
        (.init socketThrows onThrows :: es)) ∧
    Transition.trace (State.step .typescript cfg) (State.callsOf .typescript cfg)
        (make .typescript cfg) (.init socketThrows onThrows :: es) =
      Transition.trace (State.step .rescript cfg) (State.callsOf .rescript cfg)
        (make .rescript cfg) (.init socketThrows onThrows :: es) := by
  let s := (make .typescript cfg).init .typescript cfg socketThrows onThrows
  let t := (make .rescript cfg).init .rescript cfg socketThrows onThrows
  have hs : State.step .typescript cfg (make .typescript cfg) (.init socketThrows onThrows) =
      some s := rfl
  have ht : State.step .rescript cfg (make .rescript cfg) (.init socketThrows onThrows) =
      some t := rfl
  have hrest := hbound.2 s hs
  have htwins : State.Twins s t := twins_init cfg socketThrows onThrows
  have hlockstep : Lockstep cfg s t := ⟨State.timersOk_step State.timersOk_make hs,
    State.accounted_step State.accounted_make State.timersOk_make hs hrest.head, htwins⟩
  constructor
  · simp only [Transition.run, hs, ht, Option.bind_some]
    have hend : Option.Rel (Lockstep cfg) (Transition.run (State.step .typescript cfg) s es)
        (Transition.run (State.step .rescript cfg) t es) :=
      Transition.run_simulation (P := Admissible)
        (fun s t e h he hlt => (lockstep_step (s := s) (t := t) (e := e) h he hlt).1)
        hlockstep hes hrest
    rcases Transition.rel_cases hend with ⟨hs', ht'⟩ | ⟨s', t', hs', ht', h⟩
    · rw [hs', ht']
      exact .none
    · rw [hs', ht']
      exact .some (interchangeable_of_twins h.twins)
  · rw [Transition.trace_cons es hs, Transition.trace_cons es ht]
    have hcalls : t.calls = s.calls := htwins.eq (·.calls) fun _ _ _ => rfl
    have hnext : t.nextCall = s.nextCall := htwins.eq (·.nextCall) fun _ _ _ => rfl
    have hfirst : State.callsOf .typescript cfg (make .typescript cfg)
          (.init socketThrows onThrows) =
        State.callsOf .rescript cfg (make .rescript cfg) (.init socketThrows onThrows) := by
      rw [State.callsOf, State.callsOf, hs, ht]
      simp only [State.newCalls, hcalls, hnext]
      rfl
    have hlater :
        Transition.trace (State.step .typescript cfg) (State.callsOf .typescript cfg) s es =
        Transition.trace (State.step .rescript cfg) (State.callsOf .rescript cfg) t es :=
      Transition.trace_simulation (P := Admissible)
        (fun s t e h he hlt => lockstep_step (s := s) (t := t) (e := e) h he hlt)
        hlockstep hes hrest
    rw [hfirst, hlater]

/-- A bound on the requests at the end of a run holds throughout. -/
theorem always_requests_lt {es : List RelayEvent} {n : ℕ}
    (hrun : Transition.run (State.step impl cfg) (make impl cfg) es = some t)
    (hlt : t.requests < n) :
    Transition.Always (State.step impl cfg) (fun s => s.requests < n) (make impl cfg) es := by
  refine Transition.always_iff.mpr ?_
  rintro es' u ⟨rest, rfl⟩ hinitial
  obtain ⟨v, hv, hrest⟩ := Transition.run_append_eq_some.mp hrun
  rw [hinitial, Option.some.injEq] at hv
  subst hv
  have htimers := State.timersOk_run hinitial
  have hend := Transition.run_invariant (I := fun v => State.TimersOk v ∧ u.requests ≤ v.requests)
    (fun v e v' ⟨hv, hle⟩ hstep => ⟨State.timersOk_step hv hstep,
      hle.trans (State.losesUnless_step hv hstep).requests⟩) hrest ⟨htimers, le_rfl⟩
  omega

/-- A command, its response, and the rejection of its call. -/
def exchange : List RelayEvent :=
  [.socketOpen 0 .epoch,
    .socketMessage 0 (some (WireMsg.cmd ⟨"a", none, .null⟩).toJson) .epoch false false,
    .wasmMessage (.doc (responseDoc "0-1" (.ok .null))), .callRejected 0 (.error "late")]

/-- Its events are those that the relays are compared on. -/
theorem exchange_admissible : ∀ e ∈ exchange, Admissible e := by
  simp only [exchange, List.forall_mem_cons, Admissible, List.not_mem_nil, false_imp_iff,
    implies_true, and_true, true_and]
  exact ⟨⟨_, rfl⟩, ⟨.sendResponse "0-1" (.ok .null), rfl⟩, ⟨_, rfl⟩⟩

/-- The run exists. -/
theorem exchange_isSome : (Transition.run (State.step .typescript defaultConfig)
    (make .typescript defaultConfig) (.init false false :: exchange)).isSome = true := by
  decide +kernel

/-- It draws few requests. -/
theorem exchange_requests : ((Transition.run (State.step .typescript defaultConfig)
    (make .typescript defaultConfig) (.init false false :: exchange)).get
      exchange_isSome).requests < 2 ^ 31 := by
  decide +kernel

/-- The two relays look the same after it. -/
theorem relays_interchangeable_exchange : Option.Rel Interchangeable
    (Transition.run (State.step .typescript defaultConfig) (make .typescript defaultConfig)
      (.init false false :: exchange))
    (Transition.run (State.step .rescript defaultConfig) (make .rescript defaultConfig)
      (.init false false :: exchange)) :=
  (relays_interchangeable defaultConfig false false exchange_admissible
    (always_requests_lt (Option.some_get exchange_isSome).symm exchange_requests)).1

end InfinityBridge.EndToEnd
