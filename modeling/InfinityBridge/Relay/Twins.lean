import InfinityBridge.Relay.Callbacks

/-!
# Handlers are interchangeable

A relay never looks at the identity of the handler that it attaches to the CommBus. Two
states that differ in nothing but their handlers stay so through every callback other
than `destroy`, which detaches them.
-/

namespace InfinityBridge.Relay

namespace State

/-- Another handler, and other listeners. -/
def rewire (handler : Option ℕ) (next : ℕ) (listeners : List Listener) (s : State) : State :=
  { s with onWasmHandler := handler, nextHandler := next, listeners := listeners }

/-- Two states differ in their handlers only. -/
def Twins (s t : State) : Prop :=
  ∃ handler next listeners, t = s.rewire handler next listeners ∧
    handler.isSome = s.onWasmHandler.isSome ∧ (listeners = [] ↔ s.listeners = [])

variable {impl : Impl} {cfg : ResolvedConfig} {s t : State}

/-- A relay is its own twin. -/
theorem Twins.refl (s : State) : Twins s s :=
  ⟨s.onWasmHandler, s.nextHandler, s.listeners, rfl, rfl, Iff.rfl⟩

/-- What only changes other fields, and without looking at the handlers. -/
theorem Twins.map (h : Twins s t) (f : State → State)
    (hf : ∀ handler next listeners,
      f (s.rewire handler next listeners) = (f s).rewire handler next listeners)
    (hhandler : (f s).onWasmHandler = s.onWasmHandler)
    (hlisteners : (f s).listeners = s.listeners) :
    Twins (f s) (f t) := by
  obtain ⟨handler, next, listeners, rfl, hsome, hnil⟩ := h
  exact ⟨handler, next, listeners, hf _ _ _, hhandler ▸ hsome, hlisteners ▸ hnil⟩

/-- Nothing else is different. -/
theorem Twins.eq (h : Twins s t) {α : Type*} (g : State → α)
    (hg : ∀ handler next listeners, g (s.rewire handler next listeners) = g s) : g t = g s := by
  obtain ⟨handler, next, listeners, rfl, _⟩ := h
  exact hg _ _ _

/-- Twins send the same frame on the same socket. -/
theorem Twins.wsSend (h : Twins s t) (origin : Origin) (frame : Text) :
    Twins (s.wsSend origin frame) (t.wsSend origin frame) :=
  h.map (·.wsSend origin frame) (fun _ _ _ => rfl) rfl rfl

/-- Twins disarm the same timer. -/
theorem Twins.clearTimeout (h : Twins s t) (id : ℕ) :
    Twins (s.clearTimeout id) (t.clearTimeout id) :=
  h.map (·.clearTimeout id) (fun _ _ _ => rfl) rfl rfl

/-- Twins arm the same timer. -/
theorem Twins.setTimeout (h : Twins s t) (callback : TimerCallback) (delay : ℤ) :
    Twins (s.setTimeout callback delay).2 (t.setTimeout callback delay).2 :=
  h.map (fun s => (s.setTimeout callback delay).2) (fun _ _ _ => rfl) rfl rfl

/-- Twins change the same socket. -/
theorem Twins.setSocket (h : Twins s t) (i : ℕ) (k : Socket → Socket) :
    Twins (s.setSocket i k) (t.setSocket i k) :=
  h.map (·.setSocket i k) (fun _ _ _ => rfl) rfl rfl

/-- Twins take the same request out of `pending`. -/
theorem Twins.take (h : Twins s t) (rid : String) (p : PendingRequest) :
    Twins (s.take rid p) (t.take rid p) :=
  h.map (·.take rid p) (fun _ _ _ => rfl) rfl rfl

/-- Twins refuse the same request. -/
theorem Twins.refuse (h : Twins s t) (rid : String) (id : Option Value) (message : String) :
    Twins (s.refuse rid id message) (t.refuse rid id message) :=
  h.map (·.refuse rid id message) (fun _ _ _ => rfl) rfl rfl

/-- When `bindCommBus` does nothing. -/
theorem bindCommBus_of_idle {bus : ℕ} {onThrows : Bool}
    (hidle : s.commBusBound = true ∨ s.onWasmHandler = none ∨ onThrows = true) :
    s.bindCommBus cfg bus onThrows = s := by
  unfold State.bindCommBus
  split
  · rfl
  · next hbound =>
    split
    · rfl
    · next k hk =>
      rcases hidle with hidle | hidle | hidle
      · exact absurd hidle hbound
      · rw [hk] at hidle
        cases hidle
      · rw [if_pos hidle]

/-- When it attaches the handler. -/
theorem bindCommBus_of_attach {bus k : ℕ} (hbound : s.commBusBound = false)
    (hk : s.onWasmHandler = some k) : s.bindCommBus cfg bus false =
      { s with
        listeners := s.listeners ++ [Listener.mk bus cfg.responseEvent k]
        commBusBound := true }.sendReady := by
  simp [State.bindCommBus, hbound, hk]

/-- Each relay attaches its own handler. -/
theorem Twins.bindCommBus (h : Twins s t) (bus : ℕ) (onThrows : Bool) :
    Twins (s.bindCommBus cfg bus onThrows) (t.bindCommBus cfg bus onThrows) := by
  obtain ⟨handler, next, listeners, rfl, hsome, hnil⟩ := h
  by_cases hidle : s.commBusBound = true ∨ s.onWasmHandler = none ∨ onThrows = true
  · have hidle' : (s.rewire handler next listeners).commBusBound = true ∨
        (s.rewire handler next listeners).onWasmHandler = none ∨ onThrows = true := by
      refine hidle.imp id (Or.imp (fun hnone => ?_) id)
      rw [hnone, Option.isSome_none, Option.isSome_eq_false_iff, Option.isNone_iff_eq_none] at hsome
      exact hsome
    rw [bindCommBus_of_idle hidle, bindCommBus_of_idle hidle']
    exact ⟨handler, next, listeners, rfl, hsome, hnil⟩
  · push Not at hidle
    obtain ⟨hbound, hhandler, hthrows⟩ := hidle
    obtain ⟨k, hk⟩ := Option.ne_none_iff_exists'.mp hhandler
    rw [hk, Option.isSome_some, Option.isSome_iff_exists] at hsome
    obtain ⟨k', rfl⟩ := hsome
    have hfree : s.commBusBound = false := eq_false_of_ne_true hbound
    rw [eq_false_of_ne_true hthrows, bindCommBus_of_attach hfree hk,
      bindCommBus_of_attach (s := s.rewire (some k') next listeners) hfree rfl]
    refine ⟨some k', next, listeners ++ [⟨bus, cfg.responseEvent, k'⟩], rfl, ?_, ?_⟩
    · show true = s.onWasmHandler.isSome
      rw [hk]
      rfl
    · show listeners ++ _ = [] ↔ s.listeners ++ _ = []
      simp

/-- Twins arm the bind timer alike. -/
theorem Twins.scheduleBindRetry (h : Twins s t) :
    Twins (s.scheduleBindRetry cfg) (t.scheduleBindRetry cfg) := by
  have hkeep : (s.scheduleBindRetry cfg).onWasmHandler = s.onWasmHandler ∧
      (s.scheduleBindRetry cfg).listeners = s.listeners := by
    unfold State.scheduleBindRetry
    split
    · exact ⟨rfl, rfl⟩
    · split <;> exact ⟨rfl, rfl⟩
  refine h.map (·.scheduleBindRetry cfg) (fun handler next listeners => ?_) hkeep.1 hkeep.2
  cases hbound : s.commBusBound <;> cases htimer : s.bindRetryTimerId <;>
    simp [State.scheduleBindRetry, rewire, hbound, htimer, State.setTimeout]

/-- Twins arm the reconnect timer alike. -/
theorem Twins.scheduleWsReconnect (h : Twins s t) :
    Twins (s.scheduleWsReconnect cfg) (t.scheduleWsReconnect cfg) := by
  have hkeep : (s.scheduleWsReconnect cfg).onWasmHandler = s.onWasmHandler ∧
      (s.scheduleWsReconnect cfg).listeners = s.listeners := by
    unfold State.scheduleWsReconnect
    split <;> exact ⟨rfl, rfl⟩
  refine h.map (·.scheduleWsReconnect cfg) (fun handler next listeners => ?_) hkeep.1 hkeep.2
  cases htimer : s.wsRetryTimerId <;>
    simp [State.scheduleWsReconnect, rewire, htimer, State.setTimeout]

/-- The socket is forgotten, and a new one is scheduled. -/
theorem Twins.onLost (h : Twins s t) : Twins (s.onLost cfg) (t.onLost cfg) :=
  Twins.scheduleWsReconnect (h.map (fun s => { s with ws := none }) (fun _ _ _ => rfl) rfl rfl)

/-- Twins make the same socket, or both fail to. -/
theorem Twins.connectWs (h : Twins s t) (socketThrows : Bool) :
    Twins (s.connectWs cfg socketThrows) (t.connectWs cfg socketThrows) := by
  have hactive : t.alreadyActive = s.alreadyActive := h.eq (·.alreadyActive) fun _ _ _ => rfl
  unfold State.connectWs
  rw [hactive]
  split
  · exact h
  · split
    · exact h.onLost
    · exact h.map (fun s => { s with
        sockets := Function.update s.sockets s.nextSocket
          ⟨cfg.wsUrl, .connecting, false, false, false⟩
        nextSocket := s.nextSocket + 1
        ws := some s.nextSocket }) (fun _ _ _ => rfl) rfl rfl

/-- Twins make the same CommBus call. -/
theorem Twins.call (h : Twins s t) (bus : ℕ) (rid : String) (payload : Value)
    (command callThrows : Bool) :
    Twins (s.call cfg bus rid payload command callThrows)
      (t.call cfg bus rid payload command callThrows) := by
  unfold State.call
  split
  · exact h
  · exact h.map (fun s => { s with
      calls := s.calls.insert s.nextCall
        (BusCall.mk bus cfg.callEvent (.doc (envelope rid payload)) rid command)
      nextCall := s.nextCall + 1 }) (fun _ _ _ => rfl) rfl rfl

/-- Twins forward the same command, or both refuse it. -/
theorem Twins.forwardCommand (h : Twins s t) (rid : String) (frame : Value)
    (onThrows callThrows : Bool) :
    Twins (s.forwardCommand cfg rid frame onThrows callThrows)
      (t.forwardCommand cfg rid frame onThrows callThrows) := by
  have hbus : t.commBus = s.commBus := h.eq (·.commBus) fun _ _ _ => rfl
  have hpending : t.pending = s.pending := h.eq (·.pending) fun _ _ _ => rfl
  unfold State.forwardCommand
  rw [hbus, hpending]
  split
  · split
    · exact h
    · exact (h.take _ _).refuse _ _ _
  · exact (h.bindCommBus _ _).call _ _ _ _ _

/-- Twins draw the same request id and remain twins. -/
theorem Twins.openRequest (impl : Impl) (cfg : ResolvedConfig) (h : Twins s t) (id : Option Value)
    (now : TimeValue) :
    (t.openRequest impl cfg id now).1 = (s.openRequest impl cfg id now).1 ∧
      Twins (s.openRequest impl cfg id now).2 (t.openRequest impl cfg id now).2 :=
  ⟨h.eq (fun s => (s.openRequest impl cfg id now).1) fun _ _ _ => rfl,
    h.map (fun s => (s.openRequest impl cfg id now).2) (fun _ _ _ => rfl) rfl rfl⟩

/-- Twins handle a command alike, and either both return or neither does. -/
theorem Twins.onHostCommand (h : Twins s t) (id : Option Value) (frame : Value) (now : TimeValue)
    (onThrows callThrows : Bool) :
    Option.Rel Twins (s.onHostCommand impl cfg id frame now onThrows callThrows)
      (t.onHostCommand impl cfg id frame now onThrows callThrows) := by
  have hdedup : t.dedup = s.dedup := h.eq (·.dedup) fun _ _ _ => rfl
  have href : t.nextRef = s.nextRef := h.eq (·.nextRef) fun _ _ _ => rfl
  unfold State.onHostCommand
  dsimp only
  rw [hdedup, href]
  split
  · obtain ⟨handler, next, listeners, rfl, hsome, hnil⟩ := h
    exact .some ⟨handler, next, listeners, rfl, hsome, hnil⟩
  · cases s.dedup.mark (Key.of s.nextRef id) with
    | none => exact .none
    | some dedup =>
      have hmarked : Twins { s with nextRef := s.nextRef + 1, dedup }
          { t with nextRef := s.nextRef + 1, dedup } := by
        have hmap := h.map (fun u => { u with nextRef := s.nextRef + 1, dedup })
          (fun _ _ _ => rfl) rfl rfl
        exact hmap
      obtain ⟨hrid, hopened⟩ := hmarked.openRequest impl cfg id now
      refine .some ?_
      dsimp only
      rw [hrid]
      exact hopened.forwardCommand _ _ _ _

/-- Twins handle an event of the host alike. -/
theorem Twins.onHostEvent (h : Twins s t) (frame : Value) (now : TimeValue) (callThrows : Bool) :
    Twins (s.onHostEvent impl cfg frame now callThrows)
      (t.onHostEvent impl cfg frame now callThrows) := by
  have hbus : t.commBus = s.commBus := h.eq (·.commBus) fun _ _ _ => rfl
  have hrid : (t.nextRequestId impl now).1 = (s.nextRequestId impl now).1 :=
    h.eq (fun s => (s.nextRequestId impl now).1) fun _ _ _ => rfl
  have hdrawn : Twins (s.nextRequestId impl now).2 (t.nextRequestId impl now).2 :=
    h.map (fun s => (s.nextRequestId impl now).2) (fun _ _ _ => rfl) rfl rfl
  unfold State.onHostEvent
  rw [hbus]
  split
  · exact h
  · dsimp only
    rw [hrid]
    exact hdrawn.call _ _ _ _ _

/-- Twins handle a message of the host alike, and either both return or neither does. -/
theorem Twins.onHostMessage (h : Twins s t) (data : Option Text) (now : TimeValue)
    (onThrows callThrows : Bool) :
    Option.Rel Twins (s.onHostMessage impl cfg data now onThrows callThrows)
      (t.onHostMessage impl cfg data now onThrows callThrows) := by
  unfold State.onHostMessage
  split
  · exact .some h
  · split
    · exact .some (h.wsSend _ _)
    · exact h.onHostCommand _ _ _ _ _
    · exact .some (h.onHostEvent _ _ _)
    · exact .some h

/-- Twins handle a message of the module alike. -/
theorem Twins.onWasmMessage (h : Twins s t) (raw : Text) :
    Twins (s.onWasmMessage impl raw) (t.onWasmMessage impl raw) := by
  have hpending : t.pending = s.pending := h.eq (·.pending) fun _ _ _ => rfl
  unfold State.onWasmMessage
  rw [hpending]
  cases raw.jsonParse with
  | none => exact h
  | some j =>
    dsimp only
    cases wasmMessage impl j with
    | response requestId ok response error =>
      dsimp only
      cases s.pending.lookup requestId with
      | none => exact h
      | some p =>
        dsimp only
        split
        · exact h.map (fun s => { s.take requestId p with lost := s.lost ++ [requestId] })
            (fun _ _ _ => rfl) rfl rfl
        · exact (h.take _ _).wsSend _ _
    | forward => exact h.wsSend _ _
    | ignored => exact h

/-- Twins handle the rejection of a call alike. -/
theorem Twins.onCallRejected (h : Twins s t) (c : BusCall) (reason : Rejection) :
    Twins (s.onCallRejected impl c reason) (t.onCallRejected impl c reason) := by
  have hpending : t.pending = s.pending := h.eq (·.pending) fun _ _ _ => rfl
  unfold State.onCallRejected
  rw [hpending]
  split
  · split
    · exact h
    · next p _ =>
      split
      · exact h.map (fun s => { s.take c.requestId p with lost := s.lost ++ [c.requestId] })
          (fun _ _ _ => rfl) rfl rfl
      · exact (h.take _ _).refuse _ _ _
  · exact h

/-- Twins try to attach their listener alike. -/
theorem Twins.rebind (h : Twins s t) (onThrows : Bool) :
    Twins (s.rebind cfg onThrows) (t.rebind cfg onThrows) := by
  have hbus : t.commBus = s.commBus := h.eq (·.commBus) fun _ _ _ => rfl
  unfold State.rebind
  rw [hbus]
  split
  · exact h
  · exact h.bindCommBus _ _

/-- Twins handle a timer alike. -/
theorem Twins.onTimer (h : Twins s t) (callback : TimerCallback) (onThrows socketThrows : Bool) :
    Twins (s.onTimer cfg callback onThrows socketThrows)
      (t.onTimer cfg callback onThrows socketThrows) := by
  cases callback with
  | bindRetry =>
    have hfired := h.map (fun s => { s with bindRetryTimerId := none }) (fun _ _ _ => rfl) rfl rfl
    exact (hfired.rebind onThrows).scheduleBindRetry
  | wsRetry =>
    exact Twins.connectWs
      (h.map (fun s => { s with wsRetryTimerId := none }) (fun _ _ _ => rfl) rfl rfl) _
  | request requestId cmdId =>
    exact h.map (·.onRequestTimeout requestId cmdId) (fun _ _ _ => rfl) rfl rfl

/-- One step of one implementation, on states that differ in their handlers. -/
theorem Twins.step (h : Twins s t) {e : RelayEvent}
    (hinit : ∀ socketThrows onThrows, e ≠ .init socketThrows onThrows)
    (hdestroy : ∀ off unregister, e ≠ .destroy off unregister) :
    Option.Rel Twins (State.step impl cfg s e) (State.step impl cfg t e) := by
  have hsockets : t.sockets = s.sockets := h.eq (·.sockets) fun _ _ _ => rfl
  have hnext : t.nextSocket = s.nextSocket := h.eq (·.nextSocket) fun _ _ _ => rfl
  cases e with
  | init socketThrows onThrows => exact absurd rfl (hinit _ _)
  | destroy off unregister => exact absurd rfl (hdestroy _ _)
  | continuation bus onThrows =>
    have hbus : t.nextBus = s.nextBus := h.eq (·.nextBus) fun _ _ _ => rfl
    simp only [State.step, hbus]
    split
    · exact .some (h.bindCommBus _ _)
    · exact .none
  | timer id onThrows socketThrows =>
    have htimers : t.timers = s.timers := h.eq (·.timers) fun _ _ _ => rfl
    simp only [State.step, htimers]
    cases s.timers.lookup id with
    | none => exact .none
    | some timer => exact .some ((h.clearTimeout id).onTimer _ _ _)
  | socketOpen i now =>
    simp only [State.step, hsockets, hnext]
    split
    · exact .some ((h.setSocket _ _).map (·.onOpen cfg now) (fun _ _ _ => rfl) rfl rfl)
    · exact .none
  | socketMessage i data now onThrows callThrows =>
    simp only [State.step, hsockets, hnext]
    split
    · exact h.onHostMessage _ _ _ _
    · exact .none
  | socketError i =>
    simp only [State.step, hsockets, hnext]
    split
    · exact .some (h.setSocket _ _).onLost
    · exact .none
  | socketClose i =>
    simp only [State.step, hsockets, hnext]
    split
    · exact .some (h.setSocket _ _).onLost
    · exact .none
  | socketDrop i =>
    simp only [State.step, hsockets, hnext]
    split
    · exact .some (h.setSocket _ _)
    · exact .none
  | wasmMessage raw =>
    have hlisteners : t.listeners = [] ↔ s.listeners = [] := by
      obtain ⟨handler, next, listeners, rfl, _, hnil⟩ := h
      exact hnil
    simp only [State.step, hlisteners]
    split
    · exact .none
    · exact .some (Twins.onWasmMessage
        (h.map (fun s => { s with heard := s.heard ++ [raw] }) (fun _ _ _ => rfl) rfl rfl) raw)
  | callRejected n reason =>
    have hcalls : t.calls = s.calls := h.eq (·.calls) fun _ _ _ => rfl
    simp only [State.step, hcalls]
    cases s.calls.lookup n with
    | none => exact .none
    | some c =>
      have herased :=
        h.map (fun u => { u with calls := s.calls.erase n }) (fun _ _ _ => rfl) rfl rfl
      exact .some (herased.onCallRejected c reason)

end State

end InfinityBridge.Relay
