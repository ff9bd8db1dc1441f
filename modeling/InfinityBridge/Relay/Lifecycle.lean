import InfinityBridge.Relay.Sockets

/-!
# Between init and destroy

Four places attach the response listener and two arm the bind timer; three places make
the relay lose its socket and one arms the reconnect timer. From `init` until `destroy`
exactly one listener is attached once the relay says so, and until then the bind timer
is armed. The socket in `ws` has reported no end, or else the reconnect timer is armed.
-/

namespace InfinityBridge.Relay

/-- The socket has delivered an error or a close event. -/
def Socket.Ended (k : Socket) : Prop := k.errored = true ∨ k.closed = true

namespace State

variable {impl : Impl} {cfg : ResolvedConfig} {s t u : State} {e : RelayEvent}

/-- A callback that attaches a listener when it says so, and only then; never says that
there is none; and gives new ids to new timers. -/
structure Attaches (s t : State) : Prop where
  listeners : t.listeners.length + s.commBusBound.toNat =
    s.listeners.length + t.commBusBound.toNat
  bound : s.commBusBound = true → t.commBusBound = true
  nextTimer : s.nextTimer ≤ t.nextTimer

/-- A step that leaves the listeners and the flag alone attaches none. -/
theorem attaches_of_eq (hlisteners : t.listeners = s.listeners)
    (hbound : t.commBusBound = s.commBusBound) (hnext : s.nextTimer ≤ t.nextTimer) :
    Attaches s t := by
  refine ⟨?_, fun h => hbound.trans h, hnext⟩
  rw [hlisteners, hbound]

/-- The listeners and the flag stay in step over two steps. -/
theorem Attaches.trans (h : Attaches s t) (h' : Attaches t u) : Attaches s u := by
  have hleft := h.listeners
  have hright := h'.listeners
  refine ⟨?_, fun hs => h'.bound (h.bound hs), h.nextTimer.trans h'.nextTimer⟩
  omega

/-- A callback that leaves the bind timer alone. -/
structure SameRetry (s t : State) : Prop extends Attaches s t where
  bindRetryTimerId : t.bindRetryTimerId = s.bindRetryTimerId

/-- A step that changes none of these fields leaves the bind timer alone. -/
theorem sameRetry_of_eq (hlisteners : t.listeners = s.listeners)
    (hbound : t.commBusBound = s.commBusBound) (hnext : s.nextTimer ≤ t.nextTimer)
    (hretry : t.bindRetryTimerId = s.bindRetryTimerId) : SameRetry s t :=
  ⟨attaches_of_eq hlisteners hbound hnext, hretry⟩

/-- So do two such steps in a row. -/
theorem SameRetry.trans (h : SameRetry s t) (h' : SameRetry t u) : SameRetry s u :=
  ⟨h.toAttaches.trans h'.toAttaches, h'.bindRetryTimerId.trans h.bindRetryTimerId⟩

/-- A callback that leaves the sockets and the reconnect timer alone, too. -/
structure Serves (s t : State) : Prop extends SameRetry s t where
  ws : t.ws = s.ws
  sockets : t.sockets = s.sockets
  wsRetryTimerId : t.wsRetryTimerId = s.wsRetryTimerId

/-- What emits frames leaves these alone; so the listeners are the only question. -/
theorem Emits.serves {P : Sent → Prop} (h : Emits P s t) (hattaches : Attaches s t) :
    Serves s t :=
  { hattaches with
    bindRetryTimerId := h.bindRetryTimerId
    ws := h.ws
    sockets := h.sockets
    wsRetryTimerId := h.wsRetryTimerId }

/-- The fields that `Serves` is about. -/
def hooks (s : State) :=
  (s.listeners, s.commBusBound, s.bindRetryTimerId, s.ws, s.sockets, s.wsRetryTimerId)

/-- A step that changes none of these fields leaves the sockets and the retries alone. -/
theorem serves_of_eq (h : t.hooks = s.hooks) (hnext : s.nextTimer ≤ t.nextTimer) :
    Serves s t := by
  simp only [hooks, Prod.mk.injEq] at h
  obtain ⟨hlisteners, hbound, hbind, hws, hsockets, hwsRetry⟩ := h
  exact ⟨sameRetry_of_eq hlisteners hbound hnext hbind, hws, hsockets, hwsRetry⟩

/-- Doing nothing leaves the sockets and the retries alone. -/
theorem Serves.refl (s : State) : Serves s s := serves_of_eq rfl le_rfl

/-- So do two such steps in a row. -/
theorem Serves.trans (h : Serves s t) (h' : Serves t u) : Serves s u :=
  ⟨h.toSameRetry.trans h'.toSameRetry,
    h'.ws.trans h.ws, h'.sockets.trans h.sockets, h'.wsRetryTimerId.trans h.wsRetryTimerId⟩

/-! ### Callbacks -/

/-- `bindCommBus` attaches the handler when none is attached, unless `on` throws. -/
theorem serves_bindCommBus (cfg : ResolvedConfig) (bus : ℕ) (onThrows : Bool) (s : State) :
    Serves s (s.bindCommBus cfg bus onThrows) := by
  apply (bindCommBus_emits cfg bus onThrows s).serves
  unfold bindCommBus
  cases hbound : s.commBusBound with
  | true => exact attaches_of_eq rfl rfl le_rfl
  | false =>
    rw [if_neg Bool.false_ne_true]
    split
    · exact attaches_of_eq rfl rfl le_rfl
    · split_ifs
      · exact attaches_of_eq rfl rfl le_rfl
      · refine ⟨?_, fun _ => rfl, le_rfl⟩
        simp [sendReady, wsSend, hbound]

/-- A retry of the binding leaves the sockets and the retries alone. -/
theorem serves_rebind (cfg : ResolvedConfig) (onThrows : Bool) (s : State) :
    Serves s (s.rebind cfg onThrows) := by
  unfold rebind
  split
  · exact .refl s
  · exact serves_bindCommBus cfg _ onThrows s

/-- A CommBus call leaves the sockets and the retries alone. -/
theorem serves_call (cfg : ResolvedConfig) (bus : ℕ) (requestId : String) (payload : Value)
    (command callThrows : Bool) (s : State) :
    Serves s (s.call cfg bus requestId payload command callThrows) := by
  unfold call
  split_ifs
  · exact .refl s
  · exact serves_of_eq rfl le_rfl

/-- An open event leaves the sockets and the retries alone. -/
theorem serves_onOpen (now : TimeValue) : Serves s (s.onOpen cfg now) := serves_of_eq rfl le_rfl

/-- Forwarding a command leaves the sockets and the retries alone. -/
theorem serves_forwardCommand (requestId : String) (frame : Value) (onThrows callThrows : Bool) :
    Serves s (s.forwardCommand cfg requestId frame onThrows callThrows) := by
  unfold forwardCommand
  split
  · split
    · exact .refl s
    · exact serves_of_eq rfl le_rfl
  · exact (serves_bindCommBus _ _ _ s).trans (serves_call _ _ _ _ _ _ _)

/-- A message of the host leaves the sockets and the retries alone. -/
theorem serves_onHostMessage {data : Option Text} {now : TimeValue} {onThrows callThrows : Bool}
    (hstep : s.onHostMessage impl cfg data now onThrows callThrows = some t) : Serves s t := by
  unfold onHostMessage onHostCommand onHostEvent at hstep
  split at hstep
  · cases hstep
    exact .refl s
  · split at hstep
    · cases hstep
      exact serves_of_eq rfl le_rfl
    · dsimp only at hstep
      split_ifs at hstep
      · cases hstep
        exact serves_of_eq rfl le_rfl
      · obtain ⟨dedup, _, rfl⟩ := Option.map_eq_some_iff.mp hstep
        refine Serves.trans ?_ (serves_forwardCommand _ _ _ _)
        exact serves_of_eq rfl (Nat.le_succ _)
    · cases hstep
      split
      · exact .refl s
      · have hdraw : Serves s (s.nextRequestId impl now).2 := serves_of_eq rfl le_rfl
        exact hdraw.trans (serves_call _ _ _ _ _ _ _)
    · cases hstep
      exact .refl s

/-- A message of the module leaves the sockets and the retries alone. -/
theorem serves_onWasmMessage (raw : Text) : Serves s (s.onWasmMessage impl raw) := by
  unfold onWasmMessage
  split
  · exact .refl s
  · split
    · split
      · exact .refl s
      · split
        · exact serves_of_eq rfl le_rfl
        · exact serves_of_eq rfl le_rfl
    · exact serves_of_eq rfl le_rfl
    · exact .refl s

/-- The rejection of a call leaves the sockets and the retries alone. -/
theorem serves_onCallRejected (c : BusCall) (reason : Rejection) :
    Serves s (s.onCallRejected impl c reason) := by
  unfold onCallRejected
  split_ifs
  · split
    · exact .refl s
    · split
      · exact serves_of_eq rfl le_rfl
      · exact serves_of_eq rfl le_rfl
  · exact .refl s

/-- Arming the bind timer leaves the listeners alone. -/
theorem attaches_scheduleBindRetry (cfg : ResolvedConfig) (s : State) :
    Attaches s (s.scheduleBindRetry cfg) := by
  unfold scheduleBindRetry
  split_ifs
  · exact attaches_of_eq rfl rfl le_rfl
  · split
    · exact attaches_of_eq rfl rfl le_rfl
    · exact attaches_of_eq rfl rfl (Nat.le_succ _)

/-- Arming the reconnect timer leaves the bind timer alone. -/
theorem sameRetry_scheduleWsReconnect (cfg : ResolvedConfig) (s : State) :
    SameRetry s (s.scheduleWsReconnect cfg) := by
  unfold scheduleWsReconnect
  split
  · exact sameRetry_of_eq rfl rfl le_rfl rfl
  · exact sameRetry_of_eq rfl rfl (Nat.le_succ _) rfl

/-- The end of a socket leaves the bind timer alone. -/
theorem sameRetry_onLost (cfg : ResolvedConfig) (s : State) : SameRetry s (s.onLost cfg) := by
  have hforget : SameRetry s { s with ws := none } := sameRetry_of_eq rfl rfl le_rfl rfl
  exact hforget.trans (sameRetry_scheduleWsReconnect _ _)

/-- Making a socket leaves the bind timer alone. -/
theorem sameRetry_connectWs (cfg : ResolvedConfig) (socketThrows : Bool) (s : State) :
    SameRetry s (s.connectWs cfg socketThrows) := by
  unfold connectWs
  split_ifs
  · exact sameRetry_of_eq rfl rfl le_rfl rfl
  · exact sameRetry_onLost cfg s
  · exact sameRetry_of_eq rfl rfl le_rfl rfl

/-- A change of one socket leaves the bind timer alone. -/
theorem sameRetry_setSocket (i : ℕ) (f : Socket → Socket) (s : State) :
    SameRetry s (s.setSocket i f) :=
  sameRetry_of_eq rfl rfl le_rfl rfl

/-- Initialising attaches one listener at most. -/
theorem attaches_init (impl : Impl) (cfg : ResolvedConfig) (socketThrows onThrows : Bool)
    (s : State) : Attaches s (s.init impl cfg socketThrows onThrows) := by
  have hbind (u : State) (bus : ℕ) :
      Attaches u ((u.bindCommBus cfg bus onThrows).scheduleBindRetry cfg) :=
    (serves_bindCommBus cfg bus onThrows u).toAttaches.trans (attaches_scheduleBindRetry _ _)
  refine ((sameRetry_connectWs cfg socketThrows s).toAttaches.trans ?_).trans (hbind _ _)
  cases impl <;> exact attaches_of_eq rfl rfl le_rfl

/-- Until it is destroyed, a relay attaches a listener when it says so. -/
theorem attaches_step (hdestroy : ∀ off unregister, e ≠ .destroy off unregister)
    (hstep : step impl cfg s e = some t) : Attaches s t := by
  cases e <;> simp only [step] at hstep
  case init =>
    cases hstep
    exact attaches_init _ _ _ _ _
  case destroy off unregister => exact absurd rfl (hdestroy off unregister)
  case continuation bus onThrows =>
    split_ifs at hstep
    cases hstep
    exact (serves_bindCommBus cfg bus onThrows s).toAttaches
  case timer id onThrows socketThrows =>
    obtain ⟨⟨callback, delay⟩, _, rfl⟩ := Option.map_eq_some_iff.mp hstep
    cases callback with
    | request => exact attaches_of_eq rfl rfl le_rfl
    | bindRetry =>
      have hclear : Attaches s { s.clearTimeout id with bindRetryTimerId := none } :=
        attaches_of_eq rfl rfl le_rfl
      exact (hclear.trans (serves_rebind cfg onThrows _).toAttaches).trans
        (attaches_scheduleBindRetry _ _)
    | wsRetry =>
      have hclear : SameRetry s { s.clearTimeout id with wsRetryTimerId := none } :=
        sameRetry_of_eq rfl rfl le_rfl rfl
      exact (hclear.trans (sameRetry_connectWs _ _ _)).toAttaches
  case socketOpen =>
    split_ifs at hstep
    cases hstep
    exact attaches_of_eq rfl rfl le_rfl
  case socketMessage =>
    split_ifs at hstep
    exact (serves_onHostMessage hstep).toAttaches
  case socketError i | socketClose i =>
    split_ifs at hstep
    cases hstep
    exact ((sameRetry_setSocket i _ s).trans (sameRetry_onLost _ _)).toAttaches
  case socketDrop =>
    split_ifs at hstep
    cases hstep
    exact attaches_of_eq rfl rfl le_rfl
  case wasmMessage raw =>
    split_ifs at hstep
    cases hstep
    have hheard : Serves s { s with heard := s.heard ++ [raw] } := serves_of_eq rfl le_rfl
    exact (hheard.trans (serves_onWasmMessage raw)).toAttaches
  case callRejected n reason =>
    obtain ⟨c, _, rfl⟩ := Option.map_eq_some_iff.mp hstep
    have htaken : Serves s { s with calls := s.calls.erase n } := serves_of_eq rfl le_rfl
    exact (htaken.trans (serves_onCallRejected c reason)).toAttaches

/-! ### The bind timer and the reconnect timer -/

/-- The bind timer is armed as long as no listener is attached. -/
def Rebinds (s : State) : Prop := s.commBusBound = false → s.bindRetryTimerId.isSome = true

/-- The bind timer stays armed when a step leaves it alone. -/
theorem Rebinds.same (h : Rebinds s) (hsame : SameRetry s t) : Rebinds t := by
  intro hbound
  rw [hsame.bindRetryTimerId]
  apply h
  by_contra hne
  rw [hsame.bound (by simpa using hne)] at hbound
  cases hbound

/-- `scheduleBindRetry` sees to that. -/
theorem rebinds_scheduleBindRetry (cfg : ResolvedConfig) (s : State) :
    Rebinds (s.scheduleBindRetry cfg) := by
  unfold scheduleBindRetry
  split_ifs with hbound
  · intro hfree
    rw [hbound] at hfree
    cases hfree
  · cases hid : s.bindRetryTimerId with
    | some id =>
      intro _
      simp [hid]
    | none =>
      intro _
      rfl

/-- The socket in `ws` has not ended, and without one the reconnect timer is armed. -/
structure Reconnects (s : State) : Prop where
  current : ∀ i, s.ws = some i → ¬(s.sockets i).Ended
  retrying : s.ws = none → s.wsRetryTimerId.isSome = true

/-- The fields that `Reconnects` is about. -/
def connection (s : State) := (s.ws, s.sockets, s.wsRetryTimerId)

/-- Only these fields matter for the reconnection. -/
theorem Reconnects.congr (h : Reconnects s) (heq : t.connection = s.connection) :
    Reconnects t := by
  simp only [connection, Prod.mk.injEq] at heq
  obtain ⟨hws, hsockets, hwsRetry⟩ := heq
  constructor
  · rw [hws, hsockets]
    exact h.current
  · rw [hws, hwsRetry]
    exact h.retrying

/-- A step that leaves the sockets and the retries alone keeps the reconnection under way. -/
theorem Reconnects.serves (h : Reconnects s) (hserves : Serves s t) : Reconnects t := by
  apply h.congr
  simp only [connection, hserves.ws, hserves.sockets, hserves.wsRetryTimerId]

/-- Once the reconnect timer is asked for, it is armed. -/
theorem scheduleWsReconnect_isSome (cfg : ResolvedConfig) (s : State) :
    (s.scheduleWsReconnect cfg).wsRetryTimerId.isSome = true := by
  unfold scheduleWsReconnect
  cases hid : s.wsRetryTimerId with
  | some id => simp [hid]
  | none => rfl

/-- Forgetting the socket goes with arming the timer. -/
theorem reconnects_onLost (cfg : ResolvedConfig) (s : State) : Reconnects (s.onLost cfg) := by
  have hsame : SameSocket { s with ws := none } (s.onLost cfg) := sameSocket_scheduleWsReconnect
  constructor
  · intro i hws
    rw [hsame.ws] at hws
    cases hws
  · exact fun _ => scheduleWsReconnect_isSome cfg _

/-- `connectWs` ends with a socket or an armed timer, whatever it started from. -/
theorem reconnects_connectWs (cfg : ResolvedConfig) (socketThrows : Bool)
    (hcurrent : ∀ i, s.ws = some i → ¬(s.sockets i).Ended) :
    Reconnects (s.connectWs cfg socketThrows) := by
  unfold connectWs
  split_ifs with hactive
  · obtain ⟨i, hws, _⟩ := alreadyActive_iff.mp hactive
    refine ⟨hcurrent, fun hnone => ?_⟩
    rw [hws] at hnone
    cases hnone
  · exact reconnects_onLost cfg s
  · constructor
    · intro i hws
      cases hws
      simp [Socket.Ended]
    · intro hnone
      cases hnone

/-- A change of a socket that is not its end. -/
theorem Reconnects.setSocket (h : Reconnects s) (i : ℕ) {f : Socket → Socket}
    (hf : (f (s.sockets i)).Ended → (s.sockets i).Ended) : Reconnects (s.setSocket i f) := by
  refine ⟨fun j hws hended => h.current j hws ?_, h.retrying⟩
  by_cases hj : j = i
  · subst hj
    simp only [State.setSocket, Function.update_self] at hended
    exact hf hended
  · simpa only [State.setSocket, Function.update_of_ne hj] using hended

/-- `init` leaves both timers right, in a relay with no ended socket. -/
theorem rebinds_init (impl : Impl) (cfg : ResolvedConfig) (socketThrows onThrows : Bool)
    (s : State) : Rebinds (s.init impl cfg socketThrows onThrows) :=
  rebinds_scheduleBindRetry _ _

/-- Arming the bind timer is nothing to the reconnection. -/
theorem reconnects_scheduleBindRetry (h : Reconnects s) : Reconnects (s.scheduleBindRetry cfg) := by
  unfold State.scheduleBindRetry
  split_ifs
  · exact h
  · split
    · exact h
    · exact h.congr rfl

/-- After initialising, the socket in `ws` has not ended, or the reconnect timer is armed. -/
theorem reconnects_init (impl : Impl) (cfg : ResolvedConfig) (socketThrows onThrows : Bool)
    (hcurrent : ∀ i, s.ws = some i → ¬(s.sockets i).Ended) :
    Reconnects (s.init impl cfg socketThrows onThrows) := by
  have hbind (u : State) (hu : Reconnects u) (bus : ℕ) :
      Reconnects ((u.bindCommBus cfg bus onThrows).scheduleBindRetry cfg) :=
    reconnects_scheduleBindRetry (hu.serves (serves_bindCommBus cfg bus onThrows u))
  refine hbind _ ?_ _
  have hconnect := reconnects_connectWs cfg socketThrows hcurrent
  cases impl <;> exact hconnect.congr rfl

/-- A relay that will bind and connect, if it has not. -/
structure Attended (s : State) : Prop where
  rebinds : Rebinds s
  reconnects : Reconnects s

/-- It still will after a step that leaves the sockets and the retries alone. -/
theorem Attended.serves (h : Attended s) (hserves : Serves s t) : Attended t :=
  ⟨h.rebinds.same hserves.toSameRetry, h.reconnects.serves hserves⟩

/-- It still will after a change of a socket that does not end it. -/
theorem Attended.setSocket (h : Attended s) (i : ℕ) {f : Socket → Socket}
    (hf : (f (s.sockets i)).Ended → (s.sockets i).Ended) : Attended (s.setSocket i f) :=
  ⟨h.rebinds.same (sameRetry_setSocket i f s), h.reconnects.setSocket i hf⟩

/-- Until it is destroyed, a relay stays attended. -/
theorem Attended.step (h : Attended s) (hdestroy : ∀ off unregister, e ≠ .destroy off unregister)
    (hstep : step impl cfg s e = some t) : Attended t := by
  cases e <;> simp only [State.step] at hstep
  case init =>
    cases hstep
    exact ⟨rebinds_init _ _ _ _ _, reconnects_init _ _ _ _ h.reconnects.current⟩
  case destroy off unregister => exact absurd rfl (hdestroy off unregister)
  case continuation bus onThrows =>
    split_ifs at hstep
    cases hstep
    exact h.serves (serves_bindCommBus cfg bus onThrows s)
  case timer id onThrows socketThrows =>
    obtain ⟨⟨callback, delay⟩, _, rfl⟩ := Option.map_eq_some_iff.mp hstep
    cases callback with
    | request => exact h.serves (serves_of_eq rfl le_rfl)
    | bindRetry =>
      have hclear : Reconnects { s.clearTimeout id with bindRetryTimerId := none } :=
        h.reconnects.congr rfl
      exact ⟨rebinds_scheduleBindRetry _ _,
        reconnects_scheduleBindRetry (hclear.serves (serves_rebind cfg onThrows _))⟩
    | wsRetry =>
      have hclear : SameRetry s { s.clearTimeout id with wsRetryTimerId := none } :=
        sameRetry_of_eq rfl rfl le_rfl rfl
      constructor
      · exact h.rebinds.same (hclear.trans (sameRetry_connectWs cfg socketThrows _))
      · exact reconnects_connectWs (s := { s.clearTimeout id with wsRetryTimerId := none })
          cfg socketThrows h.reconnects.current
  case socketOpen i now =>
    split_ifs at hstep
    cases hstep
    refine Attended.serves ?_ (serves_onOpen now)
    exact h.setSocket i id
  case socketMessage =>
    split_ifs at hstep
    exact h.serves (serves_onHostMessage hstep)
  case socketError i | socketClose i =>
    split_ifs at hstep
    cases hstep
    exact ⟨h.rebinds.same ((sameRetry_setSocket i _ s).trans (sameRetry_onLost cfg _)),
      reconnects_onLost cfg _⟩
  case socketDrop i =>
    split_ifs at hstep
    cases hstep
    exact h.setSocket i id
  case wasmMessage raw =>
    split_ifs at hstep
    cases hstep
    have hheard : Serves s { s with heard := s.heard ++ [raw] } := serves_of_eq rfl le_rfl
    exact h.serves (hheard.trans (serves_onWasmMessage raw))
  case callRejected n reason =>
    obtain ⟨c, _, rfl⟩ := Option.map_eq_some_iff.mp hstep
    have htaken : Serves s { s with calls := s.calls.erase n } := serves_of_eq rfl le_rfl
    exact h.serves (htaken.trans (serves_onCallRejected c reason))

/-! ### Runs -/

/-- `init` makes a new relay an attended one. -/
theorem attended_init (socketThrows onThrows : Bool) :
    Attended ((make impl cfg).init impl cfg socketThrows onThrows) := by
  refine ⟨rebinds_init _ _ _ _ _, reconnects_init _ _ _ _ fun i hws => ?_⟩
  cases hws

/-- A relay stays attended throughout a run without `destroy`. -/
theorem attended_run {es : List RelayEvent}
    (hdestroy : ∀ e ∈ es, ∀ off unregister, e ≠ .destroy off unregister)
    (hrun : Transition.run (step impl cfg) s es = some t) (h : Attended s) : Attended t :=
  Transition.run_invariant_of_meets (P := fun _ e => ∀ off unregister, e ≠ .destroy off unregister)
    (fun _ _ _ hs he hstep => hs.step he hstep) (Transition.meets_of_forall hdestroy s) hrun h

/-- Throughout such a run listeners are attached when the relay says so. -/
theorem attaches_run {es : List RelayEvent}
    (hdestroy : ∀ e ∈ es, ∀ off unregister, e ≠ .destroy off unregister)
    (hrun : Transition.run (step impl cfg) s es = some t) : Attaches s t := by
  refine Transition.run_invariant_of_meets (I := Attaches s)
    (P := fun _ e => ∀ off unregister, e ≠ .destroy off unregister) ?_
    (Transition.meets_of_forall hdestroy s) hrun (attaches_of_eq rfl rfl le_rfl)
  intro u e v hu he hstep
  exact hu.trans (attaches_step he hstep)

/-- From `init` until `destroy` one listener is attached if `commBusBound` is true and none
otherwise; as long as it is false, one bind timer is armed; and it never becomes false
again. -/
theorem one_listener (impl : Impl) (cfg : ResolvedConfig) (socketThrows onThrows : Bool)
    {es : List RelayEvent} (hdestroy : ∀ e ∈ es, ∀ off unregister, e ≠ .destroy off unregister)
    (hrun : Transition.run (step impl cfg) (make impl cfg) (.init socketThrows onThrows :: es) =
      some s) :
    s.listeners.length = (if s.commBusBound then 1 else 0) ∧
    (s.commBusBound = false → ∃! id, ∃ delay, s.timers.lookup id = some ⟨.bindRetry, delay⟩) ∧
    ∀ es' t, es' <+: es →
      Transition.run (step impl cfg) (make impl cfg) (.init socketThrows onThrows :: es') = some t →
      t.commBusBound = true → s.commBusBound = true := by
  have htimers := timersOk_run hrun
  obtain ⟨u, hinit, hrest⟩ := Transition.run_cons_eq_some.mp hrun
  have hinit : (make impl cfg).init impl cfg socketThrows onThrows = u := Option.some.inj hinit
  refine ⟨?_, fun hfree => ?_, fun es' t hinitial hrun' hbound => ?_⟩
  · have hattaches := (hinit ▸ attaches_init impl cfg socketThrows onThrows _).trans
      (attaches_run hdestroy hrest)
    have hcount := hattaches.listeners
    cases hbound : s.commBusBound <;> simp_all [make]
  · have hretry := (attended_run hdestroy hrest (hinit ▸ attended_init _ _)).rebinds hfree
    obtain ⟨id, hid⟩ := Option.isSome_iff_exists.mp hretry
    refine ⟨id, (htimers.bindRetry id).mpr hid, fun id' hid' => ?_⟩
    have := (htimers.bindRetry id').mp hid'
    rw [hid, Option.some.injEq] at this
    exact this.symm
  · have hlonger : .init socketThrows onThrows :: es' <+: .init socketThrows onThrows :: es :=
      List.cons_prefix_cons.mpr ⟨rfl, hinitial⟩
    obtain ⟨es'', hes, hmore⟩ := Transition.run_of_prefix hlonger hrun' hrun
    obtain rfl : es = es' ++ es'' := (List.cons.inj hes).2
    exact (attaches_run (fun e he => hdestroy e (List.mem_append_right es' he)) hmore).bound hbound

/-- The bind timer fires once in vain, and then the registration continuation attaches
the listener. -/
def lateBinding : List RelayEvent := [.timer 2 true false, .continuation 0 false]

/-- One listener is attached then, and stays. -/
theorem one_listener_lateBinding : ∃ s,
    Transition.run (step .rescript defaultConfig) (make .rescript defaultConfig)
      (.init true true :: lateBinding) = some s ∧
    s.listeners.length = (if s.commBusBound then 1 else 0) ∧
    (s.commBusBound = false → ∃! id, ∃ delay, s.timers.lookup id = some ⟨.bindRetry, delay⟩) ∧
    ∀ es' t, es' <+: lateBinding →
      Transition.run (step .rescript defaultConfig) (make .rescript defaultConfig)
        (.init true true :: es') = some t →
      t.commBusBound = true → s.commBusBound = true := by
  have hsome : (Transition.run (step .rescript defaultConfig) (make .rescript defaultConfig)
    (.init true true :: lateBinding)).isSome := by rfl
  have hrun := (Option.some_get hsome).symm
  exact ⟨_, hrun, one_listener .rescript defaultConfig true true (by simp [lateBinding]) hrun⟩

/-- From `init` until `destroy` the socket in `ws` has delivered neither an error nor a
close event, or a reconnect timer is armed; and never two of them. -/
theorem never_disconnected (impl : Impl) (cfg : ResolvedConfig) (socketThrows onThrows : Bool)
    {es : List RelayEvent} (hdestroy : ∀ e ∈ es, ∀ off unregister, e ≠ .destroy off unregister)
    (hrun : Transition.run (step impl cfg) (make impl cfg) (.init socketThrows onThrows :: es) =
      some s) :
    ((∃ i, s.ws = some i ∧ (s.sockets i).errored = false ∧ (s.sockets i).closed = false) ∨
      ∃ id delay, s.timers.lookup id = some ⟨.wsRetry, delay⟩) ∧
    ∀ id id' delay delay', s.timers.lookup id = some ⟨.wsRetry, delay⟩ →
      s.timers.lookup id' = some ⟨.wsRetry, delay'⟩ → id = id' := by
  have htimers := timersOk_run hrun
  obtain ⟨u, hinit, hrest⟩ := Transition.run_cons_eq_some.mp hrun
  have hinit : (make impl cfg).init impl cfg socketThrows onThrows = u := Option.some.inj hinit
  have hreconnects := (attended_run hdestroy hrest (hinit ▸ attended_init _ _)).reconnects
  constructor
  · cases hws : s.ws with
    | none =>
      right
      obtain ⟨id, hid⟩ := Option.isSome_iff_exists.mp (hreconnects.retrying hws)
      exact ⟨id, (htimers.wsRetry id).mpr hid⟩
    | some i =>
      left
      have hcurrent := hreconnects.current i hws
      simp only [Socket.Ended, not_or, Bool.not_eq_true] at hcurrent
      exact ⟨i, rfl, hcurrent⟩
  · intro id id' delay delay' hid hid'
    have hleft := (htimers.wsRetry id).mp ⟨delay, hid⟩
    have hright := (htimers.wsRetry id').mp ⟨delay', hid'⟩
    exact Option.some.inj (hleft.symm.trans hright)

/-- The socket of `init` is lost, and delivers both events around the reconnect. -/
def lostTwice : List RelayEvent :=
  [.socketDrop 0, .socketError 0, .timer 1 false false, .socketClose 0]

/-- The second event of the old socket makes the relay forget the new one, and arms the
timer. -/
theorem never_disconnected_lostTwice : ∃ s,
    Transition.run (step .typescript defaultConfig) (make .typescript defaultConfig)
      (.init false false :: lostTwice) = some s ∧
    ((∃ i, s.ws = some i ∧ (s.sockets i).errored = false ∧ (s.sockets i).closed = false) ∨
      ∃ id delay, s.timers.lookup id = some ⟨.wsRetry, delay⟩) ∧
    ∀ id id' delay delay', s.timers.lookup id = some ⟨.wsRetry, delay⟩ →
      s.timers.lookup id' = some ⟨.wsRetry, delay'⟩ → id = id' := by
  have hsome : (Transition.run (step .typescript defaultConfig) (make .typescript defaultConfig)
    (.init false false :: lostTwice)).isSome := by rfl
  have hrun := (Option.some_get hsome).symm
  exact ⟨_, hrun, never_disconnected .typescript defaultConfig false false
    (by simp [lostTwice]) hrun⟩

end State

end InfinityBridge.Relay
