import InfinityBridge.Relay.Accounting

/-!
# What passes through a relay

Commands come in on the sockets and go out on the CommBus, and nothing else makes a
relay accept a command or call the CommBus. Every other callback is calm: it may send
frames and replace the socket in `ws` by a newer one.
-/

namespace InfinityBridge.Relay

namespace State

variable {impl : Impl} {cfg : ResolvedConfig} {s t : State} {e : RelayEvent}

/-- The socket in `ws` is the one that was created last. -/
def Newest (s : State) : Prop := ∀ i, s.ws = some i → i + 1 = s.nextSocket

/-- The texts of the CommBus calls made between two states. -/
def newCalls (s t : State) : List Text :=
  (List.range' s.nextCall (t.nextCall - s.nextCall)).filterMap fun n =>
    (t.calls.lookup n).map (·.text)

/-- A callback that neither accepts a command, nor hears a text, nor calls the CommBus. -/
structure Calm (s t : State) : Prop where
  accepted : t.accepted = s.accepted
  copies : t.copies = s.copies
  heard : t.heard = s.heard
  nextCall : t.nextCall = s.nextCall
  sent : s.sent <+: t.sent
  nextSocket : s.nextSocket ≤ t.nextSocket
  newest : Newest s → Newest t

/-- Doing nothing is calm. -/
theorem Calm.refl (s : State) : Calm s s := ⟨rfl, rfl, rfl, rfl, List.prefix_rfl, le_rfl, id⟩

/-- Two calm steps in a row are calm. -/
theorem Calm.trans {u : State} (h : Calm s t) (h' : Calm t u) : Calm s u :=
  ⟨h'.accepted.trans h.accepted, h'.copies.trans h.copies, h'.heard.trans h.heard,
    h'.nextCall.trans h.nextCall, h.sent.trans h'.sent, h.nextSocket.trans h'.nextSocket,
    h'.newest ∘ h.newest⟩

/-- No call is new after a calm callback. -/
theorem Calm.newCalls (h : Calm s t) : newCalls s t = [] := by
  simp [State.newCalls, h.nextCall]

/-- The fields that tell whether a callback is calm. -/
def traffic (s : State) :=
  (s.accepted, s.copies, s.heard, s.nextCall, s.sent, s.nextSocket, s.ws)

/-- What changes none of these fields is calm. -/
theorem calm_of_eq (h : t.traffic = s.traffic) : Calm s t := by
  simp only [traffic, Prod.mk.injEq] at h
  obtain ⟨haccepted, hcopies, hheard, hcall, hsent, hsocket, hws⟩ := h
  refine ⟨haccepted, hcopies, hheard, hcall, hsent ▸ List.prefix_rfl, hsocket.ge, ?_⟩
  intro hnewest i hi
  rw [hsocket]
  exact hnewest i (hws ▸ hi)

/-- Forgetting the socket is calm. -/
theorem calm_forget (s : State) : Calm s { s with ws := none } :=
  ⟨rfl, rfl, rfl, rfl, List.prefix_rfl, le_rfl, fun _ _ hi => by cases hi⟩

/-- Sending a frame is calm. -/
theorem calm_wsSend (s : State) (origin : Origin) (frame : Text) :
    Calm s (s.wsSend origin frame) :=
  ⟨rfl, rfl, rfl, rfl, List.prefix_append _ _, le_rfl, id⟩

/-- Taking a request out of `pending` is calm. -/
theorem calm_take (s : State) (rid : String) (p : PendingRequest) : Calm s (s.take rid p) :=
  calm_of_eq rfl

/-- A change of one socket is calm. -/
theorem calm_setSocket (s : State) (i : ℕ) (f : Socket → Socket) : Calm s (s.setSocket i f) :=
  calm_of_eq rfl

/-- Attaching the listener is calm. -/
theorem calm_bindCommBus (cfg : ResolvedConfig) (s : State) (bus : ℕ) (onThrows : Bool) :
    Calm s (s.bindCommBus cfg bus onThrows) := by
  unfold State.bindCommBus
  split
  · exact .refl s
  split
  · exact .refl s
  split
  · exact .refl s
  · exact ⟨rfl, rfl, rfl, rfl, List.prefix_append _ _, le_rfl, id⟩

/-- A retry of the binding is calm. -/
theorem calm_rebind (cfg : ResolvedConfig) (s : State) (onThrows : Bool) :
    Calm s (s.rebind cfg onThrows) := by
  unfold State.rebind
  split
  · exact .refl s
  · exact calm_bindCommBus cfg s _ onThrows

/-- Arming the bind timer is calm. -/
theorem calm_scheduleBindRetry (cfg : ResolvedConfig) (s : State) :
    Calm s (s.scheduleBindRetry cfg) := by
  unfold State.scheduleBindRetry
  split_ifs
  · exact .refl s
  split
  · exact .refl s
  · exact calm_of_eq rfl

/-- Arming the reconnect timer is calm. -/
theorem calm_scheduleWsReconnect (cfg : ResolvedConfig) (s : State) :
    Calm s (s.scheduleWsReconnect cfg) := by
  unfold State.scheduleWsReconnect
  split
  · exact .refl s
  · exact calm_of_eq rfl

/-- A new socket takes the place of the one in `ws`. -/
theorem calm_connectWs (cfg : ResolvedConfig) (s : State) (socketThrows : Bool) :
    Calm s (s.connectWs cfg socketThrows) := by
  unfold State.connectWs
  split_ifs
  · exact .refl s
  · exact (calm_forget s).trans (calm_scheduleWsReconnect _ _)
  · refine ⟨rfl, rfl, rfl, rfl, List.prefix_rfl, Nat.le_succ _, fun _ i hi => ?_⟩
    cases hi
    rfl

/-- An open event is calm. -/
theorem calm_onOpen (cfg : ResolvedConfig) (s : State) (now : TimeValue) :
    Calm s (s.onOpen cfg now) :=
  (calm_wsSend _ _ _).trans (calm_wsSend _ _ _)

/-- The end of a socket is calm. -/
theorem calm_onLost (cfg : ResolvedConfig) (s : State) : Calm s (s.onLost cfg) :=
  (calm_forget s).trans (calm_scheduleWsReconnect _ _)

/-- A message of the module is calm, once it has been heard. -/
theorem calm_onWasmMessage (impl : Impl) (s : State) (raw : Text) :
    Calm s (s.onWasmMessage impl raw) := by
  unfold State.onWasmMessage
  split
  · exact .refl s
  split
  · split
    · exact .refl s
    split
    · exact calm_of_eq rfl
    · exact (calm_take _ _ _).trans (calm_wsSend _ _ _)
  · exact calm_wsSend _ _ _
  · exact .refl s

/-- The rejection of a call is calm. -/
theorem calm_onCallRejected (impl : Impl) (s : State) (c : BusCall) (reason : Rejection) :
    Calm s (s.onCallRejected impl c reason) := by
  unfold State.onCallRejected
  split_ifs
  · split
    · exact .refl s
    split
    · exact calm_of_eq rfl
    · exact (calm_take _ _ _).trans (calm_wsSend _ _ _)
  · exact .refl s

/-- A timer is calm, whichever it is. -/
theorem calm_onTimer (cfg : ResolvedConfig) (s : State) (callback : TimerCallback)
    (onThrows socketThrows : Bool) : Calm s (s.onTimer cfg callback onThrows socketThrows) := by
  cases callback with
  | bindRetry =>
    have hclear : Calm s { s with bindRetryTimerId := none } :=
      calm_of_eq rfl
    exact (hclear.trans (calm_rebind _ _ _)).trans (calm_scheduleBindRetry _ _)
  | wsRetry =>
    have hclear : Calm s { s with wsRetryTimerId := none } :=
      calm_of_eq rfl
    exact hclear.trans (calm_connectWs _ _ _)
  | request rid cmdId =>
    have herase : Calm s { s with pending := s.pending.erase rid } :=
      calm_of_eq rfl
    exact herase.trans (calm_wsSend _ _ _)

/-- Initialising is calm: the socket that it makes is the newest one. -/
theorem calm_init (impl : Impl) (cfg : ResolvedConfig) (s : State)
    (socketThrows onThrows : Bool) : Calm s (s.init impl cfg socketThrows onThrows) := by
  have hbind (u : State) (bus : ℕ) :
      Calm u ((u.bindCommBus cfg bus onThrows).scheduleBindRetry cfg) :=
    (calm_bindCommBus cfg u bus onThrows).trans (calm_scheduleBindRetry _ _)
  refine Calm.trans ?_ (hbind _ _)
  cases impl <;>
    exact (calm_connectWs cfg s socketThrows).trans (calm_of_eq rfl)

/-- Refusing a list of requests is calm. -/
theorem calm_rejectAll (es : List (Sigma fun _ : String => PendingRequest)) (s : State) :
    Calm s (s.rejectAll es) := by
  induction es generalizing s with
  | nil => exact .refl s
  | cons e es ih =>
    have hclear : Calm s (s.clearTimeout e.2.timerId) := calm_of_eq rfl
    exact (hclear.trans (calm_wsSend _ _ _)).trans (ih _)

/-- Refusing all that is pending is calm. -/
theorem calm_rejectPending (s : State) : Calm s s.rejectPending :=
  (calm_rejectAll _ s).trans (calm_of_eq rfl)

/-- Clearing a timer that may not be there is calm. -/
theorem calm_clearTimeout? (s : State) (id : Option ℕ) : Calm s (s.clearTimeout? id) := by
  cases id <;> exact calm_of_eq rfl

/-- Clearing the bind timer is calm. -/
theorem calm_cleanupBindRetry (s : State) : Calm s s.cleanupBindRetry :=
  (calm_clearTimeout? s _).trans (calm_of_eq rfl)

/-- Closing a socket is calm. -/
theorem calm_close (s : State) (i : ℕ) : Calm s (s.close i) := by
  unfold State.close
  split <;> exact calm_of_eq rfl

/-- Closing the current socket and forgetting it is calm. -/
theorem calm_cleanupWs (s : State) : Calm s s.cleanupWs := by
  have hclose (u : State) : Calm u { u.ws.elim u u.close with ws := none } := by
    cases u.ws with
    | none => exact calm_forget u
    | some i => exact (calm_close u i).trans (calm_forget _)
  have hclear : Calm s { s.clearTimeout? s.wsRetryTimerId with wsRetryTimerId := none } :=
    (calm_clearTimeout? s _).trans (calm_of_eq rfl)
  exact hclear.trans (hclose _)

/-- Detaching the listener is calm. -/
theorem calm_tryOff (cfg : ResolvedConfig) (s : State) (bus : ℕ) (offThrows : Bool) :
    Calm s (s.tryOff cfg bus offThrows) := by
  unfold State.tryOff State.off
  split_ifs
  · exact .refl s
  split
  · exact .refl s
  · exact calm_of_eq rfl

/-- Giving the CommBus handle back is calm. -/
theorem calm_unregister (s : State) (bus : ℕ) : Calm s (s.unregister bus) :=
  calm_of_eq rfl

/-- Leaving the CommBus is calm. -/
theorem calm_unhook (cfg : ResolvedConfig) (s : State) (offThrows unregisterThrows : Bool) :
    Calm s (s.unhook cfg offThrows unregisterThrows) := by
  unfold State.unhook State.tryUnregister
  split
  · split_ifs
    · exact calm_tryOff _ _ _ _
    · exact (calm_tryOff _ _ _ _).trans (calm_unregister _ _)
  · exact .refl s

/-- Destroying the relay is calm. -/
theorem calm_destroy (impl : Impl) (cfg : ResolvedConfig) (s : State)
    (offThrows unregisterThrows : Bool) :
    Calm s (s.destroy impl cfg offThrows unregisterThrows) := by
  have hforget (u : State) (handler : Option ℕ) :
      Calm u { u with commBus := none, commBusBound := false, onWasmHandler := handler } :=
    calm_of_eq rfl
  unfold State.destroy
  cases impl with
  | typescript =>
    have hreject := (calm_rejectPending s).trans (calm_cleanupBindRetry _)
    dsimp only
    split
    · exact (hreject.trans (hforget _ _)).trans (calm_cleanupWs _)
    · next bus _ =>
      have hoff := hreject.trans (calm_tryOff cfg _ bus offThrows)
      split
      · exact hoff
      · exact ((hoff.trans (calm_unregister _ bus)).trans (hforget _ _)).trans (calm_cleanupWs _)
  | rescript =>
    have hunhook := (calm_rejectPending s).trans
      (calm_unhook cfg s.rejectPending offThrows unregisterThrows)
    exact ((hunhook.trans (hforget _ none)).trans (calm_cleanupBindRetry _)).trans
      (calm_cleanupWs _)

/-- Every event but the arrival of a frame or of a CommBus text is calm. -/
theorem calm_step (he : isArrival e = false) (hstep : step impl cfg s e = some t) :
    Calm s t := by
  cases e <;> simp only [step] at hstep
  case init =>
    cases hstep
    exact calm_init _ _ _ _ _
  case destroy =>
    cases hstep
    exact calm_destroy _ _ _ _ _
  case continuation =>
    split_ifs at hstep
    cases hstep
    exact calm_bindCommBus _ _ _ _
  case timer id onThrows socketThrows =>
    obtain ⟨timer, _, rfl⟩ := Option.map_eq_some_iff.mp hstep
    have hclear : Calm s (s.clearTimeout id) := calm_of_eq rfl
    exact hclear.trans (calm_onTimer _ _ _ _ _)
  case socketOpen =>
    split_ifs at hstep
    cases hstep
    exact (calm_setSocket _ _ _).trans (calm_onOpen _ _ _)
  case socketMessage => cases he
  case socketError | socketClose =>
    split_ifs at hstep
    cases hstep
    exact (calm_setSocket _ _ _).trans (calm_onLost _ _)
  case socketDrop =>
    split_ifs at hstep
    cases hstep
    exact calm_setSocket _ _ _
  case wasmMessage => cases he
  case callRejected n reason =>
    obtain ⟨c, _, rfl⟩ := Option.map_eq_some_iff.mp hstep
    have herase : Calm s { s with calls := s.calls.erase n } :=
      calm_of_eq rfl
    exact herase.trans (calm_onCallRejected _ _ _ _)

/-- A text that arrives on the CommBus is heard, and the rest is calm. -/
theorem calm_wasmMessage {raw : Text} (hstep : step impl cfg s (.wasmMessage raw) = some t) :
    Calm { s with heard := s.heard ++ [raw] } t := by
  simp only [step] at hstep
  split_ifs at hstep
  cases hstep
  exact calm_onWasmMessage _ _ _

/-- A callback that is calm but for one CommBus call with this text, if it makes it. -/
structure MayCall (text : Text) (s t : State) : Prop where
  calm : Calm { s with nextCall := t.nextCall } t
  newCalls : newCalls s t = [] ∨ newCalls s t = [text]

/-- A calm step makes no call, whatever the text. -/
theorem Calm.mayCall (h : Calm s t) (text : Text) : MayCall text s t :=
  ⟨⟨h.accepted, h.copies, h.heard, rfl, h.sent, h.nextSocket, h.newest⟩, .inl h.newCalls⟩

/-- The calls that are new depend on where the numbering starts only. -/
theorem newCalls_congr {u : State} (t : State) (h : u.nextCall = s.nextCall) :
    newCalls u t = newCalls s t := by
  rw [newCalls, newCalls, h]

/-- A calm callback first. -/
theorem Calm.andThen {u : State} {text : Text} (h : Calm s u) (h' : MayCall text u t) :
    MayCall text s t := by
  have hcalm : Calm { s with nextCall := t.nextCall } { u with nextCall := t.nextCall } :=
    ⟨h.accepted, h.copies, h.heard, rfl, h.sent, h.nextSocket, h.newest⟩
  exact ⟨hcalm.trans h'.calm, by rw [← newCalls_congr t h.nextCall]; exact h'.newCalls⟩

/-- A CommBus call is made unless it throws. -/
theorem newCalls_call (cfg : ResolvedConfig) (s : State) (bus : ℕ) (rid : String) (payload : Value)
    (command callThrows : Bool) : newCalls s (s.call cfg bus rid payload command callThrows) =
      if callThrows then [] else [.doc (envelope rid payload)] := by
  unfold State.call
  split
  · exact (Calm.refl s).newCalls
  · simp [newCalls, List.range'_one]

/-- A CommBus call has the envelope as its text, unless it throws. -/
theorem mayCall_call (cfg : ResolvedConfig) (s : State) (bus : ℕ) (rid : String) (payload : Value)
    (command callThrows : Bool) :
    MayCall (.doc (envelope rid payload)) s (s.call cfg bus rid payload command callThrows) := by
  refine ⟨?_, ?_⟩
  · unfold State.call
    split <;> exact calm_of_eq rfl
  · rw [newCalls_call]
    split
    · exact .inl rfl
    · exact .inr rfl

/-- A forwarded command is put on the CommBus in its envelope at most. -/
theorem mayCall_forwardCommand (cfg : ResolvedConfig) (s : State) (rid : String) (frame : Value)
    (onThrows callThrows : Bool) : MayCall (.doc (envelope rid frame)) s
      (s.forwardCommand cfg rid frame onThrows callThrows) := by
  unfold State.forwardCommand
  split
  · split
    · exact (Calm.refl s).mayCall _
    · exact ((calm_take _ _ _).trans (calm_wsSend _ _ _)).mayCall _
  · exact (calm_bindCommBus _ _ _ _).andThen (mayCall_call _ _ _ _ _ _ _)

/-- A command is recorded as a duplicate, or it is accepted under a request id and may be
forwarded under that id. -/
theorem onHostCommand_traffic {id : Option Value} {frame : Value} {now : TimeValue}
    {onThrows callThrows : Bool}
    (hstep : s.onHostCommand impl cfg id frame now onThrows callThrows = some t) :
    (s.dedup.has (Key.of s.nextRef id) = true ∧ Calm { s with copies := s.copies ++ [id] } t) ∨
      ∃ rid, MayCall (.doc (envelope rid frame))
        { s with accepted := s.accepted ++ [(rid, id)] } t := by
  unfold State.onHostCommand at hstep
  dsimp only at hstep
  split at hstep
  · next hhas =>
    cases hstep
    exact .inl ⟨hhas, rfl, rfl, rfl, rfl, List.prefix_append _ _, le_rfl, fun h => h⟩
  · obtain ⟨dedup, _, rfl⟩ := Option.map_eq_some_iff.mp hstep
    refine .inr ⟨(s.nextRequestId impl now).1, Calm.andThen ?_ (mayCall_forwardCommand _ _ _ _ _ _)⟩
    exact calm_of_eq rfl

/-- An event of the host is put on the CommBus in an envelope at most. -/
theorem mayCall_onHostEvent (impl : Impl) (cfg : ResolvedConfig) (s : State) (frame : Value)
    (now : TimeValue) (callThrows : Bool) :
    ∃ rid, MayCall (.doc (envelope rid frame)) s
      (s.onHostEvent impl cfg frame now callThrows) := by
  unfold State.onHostEvent
  split
  · exact ⟨"", (Calm.refl s).mayCall _⟩
  · have hdraw : Calm s (s.nextRequestId impl now).2 := calm_of_eq rfl
    exact ⟨_, hdraw.andThen (mayCall_call _ _ _ _ _ _ _)⟩

/-- What the arrival of a frame does, by the kind of its message. -/
theorem socketMessage_traffic {i : ℕ} {frame : Text} {j : Value} {now : TimeValue}
    {onThrows callThrows : Bool} (hparse : frame.jsonParse = some j)
    (hstep : step impl cfg s (.socketMessage i (some frame) now onThrows callThrows) = some t) :
    match hostMessage impl j with
    | .cmd id msg =>
      (s.dedup.has (Key.of s.nextRef id) = true ∧
          Calm { s with copies := s.copies ++ [id] } t) ∨
        ∃ rid, MayCall (.doc (envelope rid msg)) { s with accepted := s.accepted ++ [(rid, id)] } t
    | .event msg => ∃ rid, MayCall (.doc (envelope rid msg)) s t
    | .ping | .ignored => Calm s t := by
  simp only [step] at hstep
  split_ifs at hstep
  simp only [State.onHostMessage, Option.bind_some, hparse] at hstep
  cases hj : hostMessage impl j with
  | ping =>
    simp only [hj, Option.some.injEq] at hstep
    subst hstep
    exact calm_wsSend _ _ _
  | cmd id msg =>
    simp only [hj] at hstep
    exact onHostCommand_traffic hstep
  | event msg =>
    simp only [hj, Option.some.injEq] at hstep
    subst hstep
    exact mayCall_onHostEvent _ _ _ _ _ _
  | ignored =>
    simp only [hj, Option.some.injEq] at hstep
    subst hstep
    exact .refl s

/-- The arrival of a frame makes one CommBus call at most, and hands over the document of
the frame with it. -/
theorem newCalls_socketMessage {i : ℕ} {frame : Text} {now : TimeValue} {onThrows callThrows : Bool}
    (hstep : step impl cfg s (.socketMessage i (some frame) now onThrows callThrows) = some t) :
    s.nextSocket ≤ t.nextSocket ∧ (Newest s → Newest t) ∧
      (newCalls s t = [] ∨ ∃ rid j, frame.jsonParse = some j ∧
        newCalls s t = [.doc (envelope rid j)]) := by
  cases hparse : frame.jsonParse with
  | none =>
    simp only [step] at hstep
    split_ifs at hstep
    simp only [State.onHostMessage, Option.bind_some, hparse, Option.some.injEq] at hstep
    subst hstep
    exact ⟨le_rfl, id, .inl (Calm.refl s).newCalls⟩
  | some j =>
    have htraffic := socketMessage_traffic hparse hstep
    have hshape := hostMessage_shape impl j
    cases hj : hostMessage impl j with
    | ping | ignored =>
      simp only [hj] at htraffic
      exact ⟨htraffic.nextSocket, htraffic.newest, .inl htraffic.newCalls⟩
    | event msg =>
      simp only [hj] at htraffic hshape
      obtain ⟨rid, hcall⟩ := htraffic
      obtain rfl := hshape.2
      exact ⟨hcall.calm.nextSocket, hcall.calm.newest,
        hcall.newCalls.imp_right fun hone => ⟨rid, msg, rfl, hone⟩⟩
    | cmd id msg =>
      simp only [hj] at htraffic hshape
      obtain rfl := hshape.2.2.1
      rcases htraffic with ⟨_, hcalm⟩ | ⟨rid, hcall⟩
      · exact ⟨hcalm.nextSocket, hcalm.newest, .inl hcalm.newCalls⟩
      · exact ⟨hcall.calm.nextSocket, hcall.calm.newest,
          hcall.newCalls.imp_right fun hone => ⟨rid, msg, rfl, hone⟩⟩

/-- What has been accepted stays on record. -/
theorem accepted_subset (hstep : step impl cfg s e = some t) : s.accepted ⊆ t.accepted := by
  cases he : isArrival e with
  | false =>
    rw [(calm_step he hstep).accepted]
    exact fun _ hmem => hmem
  | true =>
    cases e with
    | wasmMessage raw =>
      rw [(calm_wasmMessage hstep).accepted]
      exact fun _ hmem => hmem
    | socketMessage i data now onThrows callThrows =>
      cases hdata : data.bind Text.jsonParse with
      | none =>
        simp only [step, State.onHostMessage, hdata] at hstep
        split_ifs at hstep
        cases hstep
        exact fun _ hmem => hmem
      | some j =>
        obtain ⟨frame, rfl, hparse⟩ := Option.bind_eq_some_iff.mp hdata
        have htraffic := socketMessage_traffic hparse hstep
        cases hj : hostMessage impl j with
        | ping | ignored =>
          simp only [hj] at htraffic
          rw [htraffic.accepted]
          exact fun _ hmem => hmem
        | event msg =>
          simp only [hj] at htraffic
          obtain ⟨rid, hcall⟩ := htraffic
          rw [hcall.calm.accepted]
          exact fun _ hmem => hmem
        | cmd id msg =>
          simp only [hj] at htraffic
          rcases htraffic with ⟨_, hcalm⟩ | ⟨rid, hcall⟩
          · rw [hcalm.accepted]
            exact fun _ hmem => hmem
          · rw [hcall.calm.accepted]
            exact List.subset_append_left _ _
    | _ => cases he

end State

end InfinityBridge.Relay
