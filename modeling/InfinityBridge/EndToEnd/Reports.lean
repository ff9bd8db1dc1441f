import InfinityBridge.Host.Inbound
import InfinityBridge.Relay.Sockets

/-!
# What the relay tells the host

The frames of a relay as the read loop of the host works through them. Apart from the
texts it forwards, a relay sends no frame that the host takes for an event. As long as
it is not destroyed, it reports its readiness whenever its response listener is attached,
so that the last report before any state is what `commBusBound` says in that state.
-/

namespace InfinityBridge.EndToEnd

open Relay Host

/-- The calls of the read loop for some frames. -/
def opsOf (fs : List Sent) : List ReaderOp := fs.flatMap fun f => handleText f.frame

/-- What the host does for frames, one after the other. -/
@[simp] theorem opsOf_append (fs fs' : List Sent) : opsOf (fs ++ fs') = opsOf fs ++ opsOf fs' :=
  List.flatMap_append

/-- A callback that sends no event, reports readiness only when the listener is attached,
and has reported it when it attaches the listener. -/
structure Reports (s t : State) : Prop where
  sent : ∃ fs, t.sent = s.sent ++ fs ∧ (∀ e, .dispatchEvent e ∉ opsOf fs) ∧
    (.setReady true ∈ opsOf fs → t.commBusBound = true) ∧
    readiness s.commBusBound (opsOf fs) = t.commBusBound
  bound : s.commBusBound = true → t.commBusBound = true
  listening : (s.commBusBound = true → s.listeners ≠ []) →
    t.commBusBound = true → t.listeners ≠ []

variable {impl : Impl} {cfg : ResolvedConfig} {s t u : State} {e : RelayEvent}

/-- Two steps in a row that report the binding report it. -/
theorem Reports.trans (h : Reports s t) (h' : Reports t u) : Reports s u := by
  obtain ⟨fs, hsent, hevents, htrue, hready⟩ := h.sent
  obtain ⟨fs', hsent', hevents', htrue', hready'⟩ := h'.sent
  refine ⟨⟨fs ++ fs', ?_, fun e he => ?_, fun hmem => ?_, ?_⟩, h'.bound ∘ h.bound,
    fun hs => h'.listening (h.listening hs)⟩
  · rw [hsent', hsent, List.append_assoc]
  · rw [opsOf_append] at he
    exact (List.mem_append.mp he).elim (hevents e) (hevents' e)
  · rw [opsOf_append] at hmem
    exact (List.mem_append.mp hmem).elim (fun hmem => h'.bound (htrue hmem)) htrue'
  · rw [opsOf_append, readiness_append, hready, hready']

/-- A callback that sends nothing and leaves the listener alone. -/
theorem reports_of_eq (hsent : t.sent = s.sent) (hbound : t.commBusBound = s.commBusBound)
    (hlisteners : t.listeners = s.listeners) : Reports s t := by
  refine ⟨⟨[], by rw [hsent, List.append_nil], by simp [opsOf], by simp [opsOf], hbound.symm⟩,
    fun h => hbound.trans h, fun hs h => ?_⟩
  rw [hlisteners]
  exact hs (hbound.symm.trans h)

/-- Doing nothing reports nothing new. -/
theorem Reports.refl (s : State) : Reports s s := reports_of_eq rfl rfl rfl

/-- Sending a frame that says nothing of the kind. -/
theorem reports_wsSend (s : State) (origin : Origin) {frame : Text}
    (hinert : ∀ op ∈ handleText frame, op.Inert) : Reports s (s.wsSend origin frame) := by
  have hops : opsOf [Sent.mk origin frame s.openSocket] = handleText frame := by simp [opsOf]
  refine ⟨⟨_, rfl, fun e he => ?_, fun hmem => ?_, ?_⟩, id, id⟩
  · rw [hops] at he
    exact (hinert _ he).2 e rfl
  · rw [hops] at hmem
    exact absurd rfl ((hinert _ hmem).1 true)
  · rw [hops]
    exact readiness_eq_self (fun b hb => (hinert _ hb).1 b rfl) s.commBusBound

/-- The calls for a readiness event. -/
theorem handleText_readyFrame (bound : Bool) :
    handleText (.doc (State.readyFrame bound)) = [.touch, .setReady bound] := by
  have hmsg : WireMsg.fromJson (.doc (State.readyFrame bound)) =
      some (.event ⟨readyEvent, .obj [("ready", .bool bound)]⟩) := rfl
  have hflag : readyFlag (.obj [("ready", .bool bound)]) = bound := rfl
  simp only [handleText, hmsg, if_true, hflag]

/-- Reporting readiness. -/
theorem reports_sendReady (s : State) : Reports s s.sendReady := by
  have hops : opsOf [Sent.mk .ready (.doc (State.readyFrame s.commBusBound)) s.openSocket] =
      [.touch, .setReady s.commBusBound] := by
    simp [opsOf, handleText_readyFrame]
  refine ⟨⟨_, rfl, fun e he => ?_, fun hmem => ?_, ?_⟩, id, id⟩
  · rw [hops] at he
    simp at he
  · rw [hops] at hmem
    have hbound : s.commBusBound = true := by simpa using hmem
    exact hbound
  · rw [hops]
    rfl

/-- An ack says nothing of the kind, whatever it is made of. -/
theorem inert_ackFrame (id error response : Option Value) (ok : Bool) (duplicate : Option Bool) :
    ∀ op ∈ handleText (.doc (ackFrame id ok error response duplicate)), op.Inert := by
  refine inert_of_tag "ack" ?_ (by decide) (by decide)
  simp [Json.named_append, named_member, Json.named]

/-- A pong says nothing about the binding. -/
theorem inert_pongFrame (now : TimeValue) :
    ∀ op ∈ handleText (.doc (State.pongFrame now)), op.Inert :=
  inert_of_tag "pong" rfl (by decide) (by decide)

/-- A hello says nothing about the binding. -/
theorem inert_helloFrame (cfg : ResolvedConfig) (now : TimeValue) :
    ∀ op ∈ handleText (.doc (State.helloFrame cfg now)), op.Inert := by
  refine inert_of_tag "hello" ?_ (by decide) (by decide)
  simp [Json.named_append, named_member, Json.named]

/-! ### Callbacks -/

/-- A refusal reports nothing new. -/
theorem reports_refuse (s : State) (rid : String) (id : Option Value) (message : String) :
    Reports s (s.refuse rid id message) :=
  reports_wsSend s _ (inert_ackFrame _ _ _ _ _)

/-- Taking a request out of `pending` reports nothing new. -/
theorem reports_take (s : State) (rid : String) (p : PendingRequest) : Reports s (s.take rid p) :=
  reports_of_eq rfl rfl rfl

/-- A change of one socket reports nothing new. -/
theorem reports_setSocket (s : State) (i : ℕ) (f : Socket → Socket) : Reports s (s.setSocket i f) :=
  reports_of_eq rfl rfl rfl

/-- Attaching the listener is followed by a report. -/
theorem reports_bindCommBus (cfg : ResolvedConfig) (s : State) (bus : ℕ) (onThrows : Bool) :
    Reports s (s.bindCommBus cfg bus onThrows) := by
  unfold State.bindCommBus
  split
  · exact .refl s
  split
  · exact .refl s
  · split
    · exact .refl s
    · have hops : opsOf [Sent.mk .ready (.doc (State.readyFrame true)) s.openSocket] =
          [.touch, .setReady true] := by
        simp [opsOf, handleText_readyFrame]
      refine ⟨⟨_, rfl, fun e he => ?_, fun _ => rfl, ?_⟩, fun _ => rfl, fun _ _ => ?_⟩
      · have hmem : ReaderOp.dispatchEvent e ∈ [.touch, .setReady true] := hops ▸ he
        simp at hmem
      · exact (congrArg (readiness s.commBusBound) hops).trans rfl
      · simp [State.sendReady, State.wsSend]

/-- A retry of the binding reports what comes of it. -/
theorem reports_rebind (cfg : ResolvedConfig) (s : State) (onThrows : Bool) :
    Reports s (s.rebind cfg onThrows) := by
  unfold State.rebind
  split
  · exact .refl s
  · exact reports_bindCommBus cfg s _ onThrows

/-- Arming the bind timer reports nothing new. -/
theorem reports_scheduleBindRetry (cfg : ResolvedConfig) (s : State) :
    Reports s (s.scheduleBindRetry cfg) := by
  unfold State.scheduleBindRetry
  split_ifs
  · exact .refl s
  split
  · exact .refl s
  · exact reports_of_eq rfl rfl rfl

/-- Arming the reconnect timer reports nothing new. -/
theorem reports_scheduleWsReconnect (cfg : ResolvedConfig) (s : State) :
    Reports s (s.scheduleWsReconnect cfg) := by
  unfold State.scheduleWsReconnect
  split
  · exact .refl s
  · exact reports_of_eq rfl rfl rfl

/-- A new socket reports nothing until it is open. -/
theorem reports_connectWs (cfg : ResolvedConfig) (s : State) (socketThrows : Bool) :
    Reports s (s.connectWs cfg socketThrows) := by
  have hforget : Reports s { s with ws := none } := reports_of_eq rfl rfl rfl
  unfold State.connectWs
  split_ifs
  · exact .refl s
  · exact hforget.trans (reports_scheduleWsReconnect _ _)
  · exact reports_of_eq rfl rfl rfl

/-- A CommBus call reports nothing new. -/
theorem reports_call (cfg : ResolvedConfig) (s : State) (bus : ℕ) (rid : String) (payload : Value)
    (command callThrows : Bool) : Reports s (s.call cfg bus rid payload command callThrows) := by
  unfold State.call
  split_ifs
  · exact .refl s
  · exact reports_of_eq rfl rfl rfl

/-- An open event reports whether the relay is bound. -/
theorem reports_onOpen (cfg : ResolvedConfig) (s : State) (now : TimeValue) :
    Reports s (s.onOpen cfg now) :=
  (reports_wsSend s .hello (inert_helloFrame cfg now)).trans (reports_sendReady _)

/-- The end of a socket reports nothing. -/
theorem reports_onLost (cfg : ResolvedConfig) (s : State) : Reports s (s.onLost cfg) := by
  have hforget : Reports s { s with ws := none } := reports_of_eq rfl rfl rfl
  exact hforget.trans (reports_scheduleWsReconnect _ _)

/-- Forwarding a command reports what comes of the binding. -/
theorem reports_forwardCommand (cfg : ResolvedConfig) (s : State) (rid : String) (frame : Value)
    (onThrows callThrows : Bool) :
    Reports s (s.forwardCommand cfg rid frame onThrows callThrows) := by
  unfold State.forwardCommand
  split
  · split
    · exact .refl s
    · exact (reports_take s _ _).trans (reports_refuse _ _ _ _)
  · exact (reports_bindCommBus _ _ _ _).trans (reports_call _ _ _ _ _ _ _)

/-- A command of the host reports what comes of the binding. -/
theorem reports_onHostCommand {id : Option Value} {frame : Value} {now : TimeValue}
    {onThrows callThrows : Bool}
    (hstep : s.onHostCommand impl cfg id frame now onThrows callThrows = some t) :
    Reports s t := by
  unfold State.onHostCommand at hstep
  dsimp only at hstep
  split_ifs at hstep
  · cases hstep
    have hcopy (ref : ℕ) (copies : List (Option Value)) :
        Reports s { s with nextRef := ref, copies } := reports_of_eq rfl rfl rfl
    exact (hcopy _ _).trans (reports_wsSend _ .duplicate (inert_ackFrame _ _ _ _ _))
  · obtain ⟨dedup, _, rfl⟩ := Option.map_eq_some_iff.mp hstep
    refine Reports.trans ?_ (reports_forwardCommand _ _ _ _ _ _)
    exact reports_of_eq rfl rfl rfl

/-- An event of the host reports nothing new. -/
theorem reports_onHostEvent (impl : Impl) (cfg : ResolvedConfig) (s : State) (frame : Value)
    (now : TimeValue) (callThrows : Bool) :
    Reports s (s.onHostEvent impl cfg frame now callThrows) := by
  unfold State.onHostEvent
  split
  · exact .refl s
  · have hdraw : Reports s (s.nextRequestId impl now).2 := reports_of_eq rfl rfl rfl
    exact hdraw.trans (reports_call _ _ _ _ _ _ _)

/-- A message of the host reports what comes of the binding. -/
theorem reports_onHostMessage {data : Option Text} {now : TimeValue} {onThrows callThrows : Bool}
    (hstep : s.onHostMessage impl cfg data now onThrows callThrows = some t) : Reports s t := by
  unfold State.onHostMessage at hstep
  split at hstep
  · cases hstep
    exact .refl s
  · split at hstep
    · cases hstep
      exact reports_wsSend _ _ (inert_pongFrame now)
    · exact reports_onHostCommand hstep
    · cases hstep
      exact reports_onHostEvent _ _ _ _ _ _
    · cases hstep
      exact .refl s

/-- The rejection of a call reports nothing new. -/
theorem reports_onCallRejected (impl : Impl) (s : State) (c : BusCall) (reason : Rejection) :
    Reports s (s.onCallRejected impl c reason) := by
  unfold State.onCallRejected
  split_ifs
  · split
    · exact .refl s
    · split
      · exact reports_of_eq rfl rfl rfl
      · exact (reports_take s _ _).trans (reports_refuse _ _ _ _)
  · exact .refl s

/-- A timer reports what comes of the binding. -/
theorem reports_onTimer (cfg : ResolvedConfig) (s : State) (callback : TimerCallback)
    (onThrows socketThrows : Bool) : Reports s (s.onTimer cfg callback onThrows socketThrows) := by
  cases callback with
  | bindRetry =>
    have hclear : Reports s { s with bindRetryTimerId := none } := reports_of_eq rfl rfl rfl
    exact (hclear.trans (reports_rebind _ _ _)).trans (reports_scheduleBindRetry _ _)
  | wsRetry =>
    have hclear : Reports s { s with wsRetryTimerId := none } := reports_of_eq rfl rfl rfl
    exact hclear.trans (reports_connectWs _ _ _)
  | request rid cmdId =>
    have herase : Reports s { s with pending := s.pending.erase rid } := reports_of_eq rfl rfl rfl
    exact herase.trans (reports_refuse _ _ _ _)

/-- Initialising reports what comes of the binding. -/
theorem reports_init (impl : Impl) (cfg : ResolvedConfig) (s : State)
    (socketThrows onThrows : Bool) : Reports s (s.init impl cfg socketThrows onThrows) := by
  have hbind (u : State) (bus : ℕ) :
      Reports u ((u.bindCommBus cfg bus onThrows).scheduleBindRetry cfg) :=
    (reports_bindCommBus cfg u bus onThrows).trans (reports_scheduleBindRetry _ _)
  refine Reports.trans ?_ (hbind _ _)
  cases impl <;> exact (reports_connectWs cfg s socketThrows).trans (reports_of_eq rfl rfl rfl)

/-- What a text of the CommBus makes the relay send: an answer, or the text itself. -/
theorem reports_onWasmMessage (impl : Impl) (s : State) (raw : Text) :
    Reports s (s.onWasmMessage impl raw) ∨ s.onWasmMessage impl raw = s.wsSend .forwarded raw := by
  unfold State.onWasmMessage
  split
  · exact .inl (.refl s)
  split
  · split
    · exact .inl (.refl s)
    split
    · exact .inl (reports_of_eq rfl rfl rfl)
    · next hack =>
      obtain ⟨error, response, rfl⟩ := responseAck_eq_ackFrame hack
      exact .inl ((reports_take s _ _).trans (reports_wsSend _ _ (inert_ackFrame _ _ _ _ _)))
  · exact .inr rfl
  · exact .inl (.refl s)

/-- Every step but a destruction and the arrival of a CommBus text. -/
theorem reports_step (hdestroy : ∀ off unregister, e ≠ .destroy off unregister)
    (hwasm : ∀ raw, e ≠ .wasmMessage raw) (hstep : State.step impl cfg s e = some t) :
    Reports s t := by
  cases e <;> simp only [State.step] at hstep
  case init =>
    cases hstep
    exact reports_init _ _ _ _ _
  case destroy off unregister => exact absurd rfl (hdestroy off unregister)
  case continuation =>
    split_ifs at hstep
    cases hstep
    exact reports_bindCommBus _ _ _ _
  case timer id onThrows socketThrows =>
    obtain ⟨timer, _, rfl⟩ := Option.map_eq_some_iff.mp hstep
    have hclear : Reports s (s.clearTimeout id) := reports_of_eq rfl rfl rfl
    exact hclear.trans (reports_onTimer _ _ _ _ _)
  case socketOpen =>
    split_ifs at hstep
    cases hstep
    exact (reports_setSocket _ _ _).trans (reports_onOpen _ _ _)
  case socketMessage =>
    split_ifs at hstep
    exact reports_onHostMessage hstep
  case socketError | socketClose =>
    split_ifs at hstep
    cases hstep
    exact (reports_setSocket _ _ _).trans (reports_onLost _ _)
  case socketDrop =>
    split_ifs at hstep
    cases hstep
    exact reports_setSocket _ _ _
  case wasmMessage raw => exact absurd rfl (hwasm raw)
  case callRejected n reason =>
    obtain ⟨c, _, rfl⟩ := Option.map_eq_some_iff.mp hstep
    have herase : Reports s { s with calls := s.calls.erase n } := reports_of_eq rfl rfl rfl
    exact herase.trans (reports_onCallRejected _ _ _ _)

/-- Every step but a destruction reports, or forwards a text of the CommBus. -/
theorem reports_or_forwards (hdestroy : ∀ off unregister, e ≠ .destroy off unregister)
    (hstep : State.step impl cfg s e = some t) :
    Reports s t ∨ ∃ raw, e = .wasmMessage raw ∧
      t = ({ s with heard := s.heard ++ [raw] } : State).wsSend .forwarded raw := by
  by_cases hwasm : ∃ raw, e = .wasmMessage raw
  · obtain ⟨raw, rfl⟩ := hwasm
    simp only [State.step] at hstep
    split_ifs at hstep
    cases hstep
    have hheard : Reports s { s with heard := s.heard ++ [raw] } := reports_of_eq rfl rfl rfl
    rcases reports_onWasmMessage impl { s with heard := s.heard ++ [raw] } raw with h | h
    · exact .inl (hheard.trans h)
    · exact .inr ⟨raw, rfl, h⟩
  · exact .inl (reports_step hdestroy (fun raw h => hwasm ⟨raw, h⟩) hstep)

end InfinityBridge.EndToEnd
