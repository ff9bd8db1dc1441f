import InfinityBridge.Relay.Accounting

/-!
# One live socket

The handlers of a socket act on the relay and not on the socket: an error or close
event of an old socket makes the relay forget the current one. As long as such events
come while no socket is live, the live socket is `ws`, and everything is sent on it.
-/

namespace InfinityBridge.Relay

/-- A socket that is connecting or open. -/
def Socket.Live (k : Socket) : Prop := k.readyState = .connecting ∨ k.readyState = .open

namespace State

variable {impl : Impl} {cfg : ResolvedConfig} {s t : State} {e : RelayEvent}

/-- A live socket is the one in `ws`; so there is at most one. -/
def OneLive (s : State) : Prop := ∀ i, (s.sockets i).Live → s.ws = some i

/-- The socket in `ws` is live. -/
theorem alreadyActive_iff : s.alreadyActive = true ↔ ∃ i, s.ws = some i ∧ (s.sockets i).Live := by
  unfold alreadyActive Socket.Live
  cases s.ws with
  | none => simp
  | some i => simp [or_comm]

/-- With no socket in `ws` that is live, none is. -/
theorem OneLive.not_live (h : OneLive s) (hactive : s.alreadyActive ≠ true) (i : ℕ) :
    ¬(s.sockets i).Live :=
  fun hlive => hactive (alreadyActive_iff.mpr ⟨i, h i hlive, hlive⟩)

/-- A callback that leaves the sockets alone, and sends on the open socket. -/
structure SameSocket (s t : State) : Prop where
  ws : t.ws = s.ws
  sockets : t.sockets = s.sockets
  sent : ∃ es, t.sent = s.sent ++ es ∧ ∀ f ∈ es, f.socket = s.openSocket

/-- Doing nothing leaves the sockets alone. -/
theorem SameSocket.refl (s : State) : SameSocket s s := ⟨rfl, rfl, [], by simp⟩

/-- The open socket is the same one. -/
theorem SameSocket.openSocket (h : SameSocket s t) : t.openSocket = s.openSocket := by
  rw [State.openSocket, State.openSocket, h.ws, h.sockets]

/-- So do two steps in a row that leave the sockets alone. -/
theorem SameSocket.trans {u : State} (h : SameSocket s t) (h' : SameSocket t u) :
    SameSocket s u := by
  obtain ⟨es, hsent, hes⟩ := h.sent
  obtain ⟨es', hsent', hes'⟩ := h'.sent
  refine ⟨h'.ws.trans h.ws, h'.sockets.trans h.sockets, es ++ es', ?_, ?_⟩
  · rw [hsent', hsent, List.append_assoc]
  · intro f hf
    rcases List.mem_append.mp hf with hf | hf
    · exact hes f hf
    · exact (hes' f hf).trans h.openSocket

/-- What emits frames leaves the sockets alone. -/
theorem Emits.sameSocket {P : Sent → Prop} (h : Emits P s t) : SameSocket s t := by
  obtain ⟨es, hsent, hes⟩ := h.sent
  exact ⟨h.ws, h.sockets, es, hsent, fun f hf => (hes f hf).2⟩

/-- What sends nothing and leaves the sockets alone. -/
theorem sameSocket_of_eq (hws : t.ws = s.ws) (hsockets : t.sockets = s.sockets)
    (hsent : t.sent = s.sent) : SameSocket s t := ⟨hws, hsockets, [], by simp [hsent]⟩

/-- Sending a frame leaves the sockets alone. -/
theorem sameSocket_wsSend (origin : Origin) (frame : Text) :
    SameSocket s (s.wsSend origin frame) :=
  (wsSend_emits s origin frame).sameSocket

/-- An open event leaves the sockets alone, once its socket is open. -/
theorem sameSocket_onOpen (now : TimeValue) : SameSocket s (s.onOpen cfg now) :=
  (sameSocket_wsSend .hello (.doc (helloFrame cfg now))).trans (sameSocket_wsSend _ _)

/-- Arming the bind timer leaves the sockets alone. -/
theorem sameSocket_scheduleBindRetry : SameSocket s (s.scheduleBindRetry cfg) := by
  unfold State.scheduleBindRetry
  split_ifs
  · exact .refl s
  · split
    · exact .refl s
    · exact sameSocket_of_eq rfl rfl rfl

/-- Arming the reconnect timer leaves the sockets alone. -/
theorem sameSocket_scheduleWsReconnect : SameSocket s (s.scheduleWsReconnect cfg) := by
  unfold State.scheduleWsReconnect
  split
  · exact .refl s
  · exact sameSocket_of_eq rfl rfl rfl

/-- Taking a request out and refusing it. -/
theorem sameSocket_take (rid : String) (p : PendingRequest) : SameSocket s (s.take rid p) :=
  sameSocket_of_eq rfl rfl rfl

/-- Forwarding a command leaves the sockets alone. -/
theorem sameSocket_forwardCommand (rid : String) (frame : Value) (onThrows callThrows : Bool) :
    SameSocket s (s.forwardCommand cfg rid frame onThrows callThrows) := by
  unfold State.forwardCommand
  split
  · split
    · exact .refl s
    · exact (sameSocket_take _ _).trans (sameSocket_wsSend _ _)
  · exact ((bindCommBus_emits _ _ _ _).trans
      ((call_emits (fun _ => False) _ _ _ _ _ _ _).mono fun _ h => h.elim)).sameSocket

/-- A message of the host leaves the sockets alone. -/
theorem sameSocket_onHostMessage {data : Option Text} {now : TimeValue} {onThrows callThrows : Bool}
    (hstep : s.onHostMessage impl cfg data now onThrows callThrows = some t) : SameSocket s t := by
  unfold State.onHostMessage State.onHostCommand State.onHostEvent at hstep
  split at hstep
  · cases hstep
    exact .refl s
  · split at hstep
    · cases hstep
      exact sameSocket_wsSend _ _
    · dsimp only at hstep
      split_ifs at hstep
      · cases hstep
        have hcopy (ref : ℕ) (copies : List (Option Value)) :
            SameSocket s { s with nextRef := ref, copies } := sameSocket_of_eq rfl rfl rfl
        exact (hcopy _ _).trans (sameSocket_wsSend _ _)
      · obtain ⟨dedup, _, rfl⟩ := Option.map_eq_some_iff.mp hstep
        refine SameSocket.trans ?_ (sameSocket_forwardCommand _ _ _ _)
        exact sameSocket_of_eq rfl rfl rfl
    · cases hstep
      split
      · exact .refl s
      · have hdraw : SameSocket s (s.nextRequestId impl now).2 := sameSocket_of_eq rfl rfl rfl
        exact hdraw.trans (call_emits (fun _ => False) _ _ _ _ _ _ _).sameSocket
    · cases hstep
      exact .refl s

/-- A message of the module leaves the sockets alone. -/
theorem sameSocket_onWasmMessage (raw : Text) : SameSocket s (s.onWasmMessage impl raw) := by
  unfold State.onWasmMessage
  split
  · exact .refl s
  · split
    · split
      · exact .refl s
      · split
        · exact sameSocket_of_eq rfl rfl rfl
        · exact (sameSocket_take _ _).trans (sameSocket_wsSend _ _)
    · exact sameSocket_wsSend _ _
    · exact .refl s

/-- The rejection of a call leaves the sockets alone. -/
theorem sameSocket_onCallRejected (c : BusCall) (reason : Rejection) :
    SameSocket s (s.onCallRejected impl c reason) := by
  unfold State.onCallRejected
  split_ifs
  · split
    · exact .refl s
    · split
      · exact sameSocket_of_eq rfl rfl rfl
      · exact (sameSocket_take _ _).trans (sameSocket_wsSend _ _)
  · exact .refl s

/-- The live socket stays the same when the sockets do. -/
theorem OneLive.same (h : OneLive s) (hsame : SameSocket s t) : OneLive t := by
  rw [OneLive, hsame.ws, hsame.sockets]
  exact h

/-- Forgetting a socket that is not live. -/
theorem OneLive.forget (h : OneLive s) (hactive : s.alreadyActive ≠ true) :
    OneLive { s with ws := none } := fun i hlive => absurd hlive (h.not_live hactive i)

/-- A socket is made only when none is live, so that it is the one. -/
theorem OneLive.connectWs (h : OneLive s) (socketThrows : Bool) :
    OneLive (s.connectWs cfg socketThrows) := by
  unfold State.connectWs
  split_ifs with hactive
  · exact h
  · exact (h.forget hactive).same sameSocket_scheduleWsReconnect
  · intro i hlive
    by_cases hi : i = s.nextSocket
    · rw [hi]
    · simp only [Function.update_of_ne hi] at hlive
      exact absurd hlive (h.not_live hactive i)

/-- A socket that does not come to life. -/
theorem OneLive.setSocket (h : OneLive s) (i : ℕ) {f : Socket → Socket}
    (hf : (f (s.sockets i)).Live → (s.sockets i).Live) : OneLive (s.setSocket i f) := by
  intro j hlive
  by_cases hj : j = i
  · subst hj
    simp only [State.setSocket, Function.update_self] at hlive
    exact h j (hf hlive)
  · simp only [State.setSocket, Function.update_of_ne hj] at hlive
    exact h j hlive

/-- Refusing a list of requests leaves the sockets alone. -/
theorem sameSocket_rejectAll (es : List (Sigma fun _ : String => PendingRequest)) :
    SameSocket s (s.rejectAll es) := by
  induction es generalizing s with
  | nil => exact .refl s
  | cons e es ih =>
    have hclear : SameSocket s (s.clearTimeout e.2.timerId) := sameSocket_of_eq rfl rfl rfl
    exact (hclear.trans (sameSocket_wsSend _ _)).trans ih

/-- Refusing all that is pending leaves the sockets alone. -/
theorem sameSocket_rejectPending : SameSocket s s.rejectPending :=
  (sameSocket_rejectAll _).trans (sameSocket_of_eq rfl rfl rfl)

/-- Clearing the bind timer leaves the sockets alone. -/
theorem sameSocket_cleanupBindRetry : SameSocket s s.cleanupBindRetry := by
  unfold State.cleanupBindRetry
  cases s.bindRetryTimerId <;> exact sameSocket_of_eq rfl rfl rfl

/-- Closing the socket in `ws` leaves none that is live. -/
theorem OneLive.cleanupWs (h : OneLive s) : OneLive s.cleanupWs := by
  have hclose (u : State) (hu : OneLive u) : OneLive { u.ws.elim u u.close with ws := none } := by
    intro i hlive
    exfalso
    cases hws : u.ws with
    | none =>
      simp only [hws, Option.elim_none] at hlive
      have := hu i hlive
      rw [hws] at this
      cases this
    | some j =>
      simp only [hws, Option.elim_some, State.close] at hlive
      by_cases hij : i = j
      · subst hij
        cases hstate : (u.sockets i).readyState <;>
          simp_all [Socket.Live]
      · have hlive' : (u.sockets i).Live := by
          cases hstate : (u.sockets j).readyState <;>
            simp_all [Function.update_of_ne]
        have := hu i hlive'
        rw [hws, Option.some.injEq] at this
        exact hij this.symm
  have hclear : SameSocket s { s.clearTimeout? s.wsRetryTimerId with wsRetryTimerId := none } := by
    cases s.wsRetryTimerId <;> exact sameSocket_of_eq rfl rfl rfl
  exact hclose _ (h.same hclear)

/-- Destroying the relay leaves one live socket at most. -/
theorem OneLive.destroy (h : OneLive s) (offThrows unregisterThrows : Bool) :
    OneLive (s.destroy impl cfg offThrows unregisterThrows) := by
  have hforget (u : State) (handler : Option ℕ) :
      SameSocket u { u with commBus := none, commBusBound := false, onWasmHandler := handler } :=
    sameSocket_of_eq rfl rfl rfl
  unfold State.destroy
  cases impl with
  | typescript =>
    have hbind := h.same (sameSocket_rejectPending.trans sameSocket_cleanupBindRetry)
    dsimp only
    split
    · exact (hbind.same (hforget _ _)).cleanupWs
    · next bus _ =>
      have hoff := hbind.same (tryOff_emits (fun _ => False) cfg bus offThrows _).sameSocket
      split
      · exact hoff
      · have hgone := hoff.same (unregister_emits (fun _ => False) bus _).sameSocket
        exact (hgone.same (hforget _ _)).cleanupWs
  | rescript =>
    have hunhook := (sameSocket_rejectPending (s := s)).trans
      (unhook_emits (fun _ => False) cfg offThrows unregisterThrows _).sameSocket
    exact (h.same ((hunhook.trans (hforget _ none)).trans sameSocket_cleanupBindRetry)).cleanupWs

/-- The socket is lost: the condition on the state is that no other one is live. -/
def LossWhenIdle (s : State) : RelayEvent → Prop
  | .socketError _ | .socketClose _ => s.alreadyActive = false
  | _ => True

/-- The relay may forget the socket in `ws` when it is not live. -/
theorem OneLive.onLost (h : OneLive s) (hactive : s.alreadyActive ≠ true) :
    OneLive (s.onLost cfg) :=
  (h.forget hactive).same sameSocket_scheduleWsReconnect

/-- Setting a flag of a socket. -/
theorem alreadyActive_setSocket {i : ℕ} {f : Socket → Socket}
    (hf : (f (s.sockets i)).readyState = (s.sockets i).readyState) :
    (s.setSocket i f).alreadyActive = s.alreadyActive := by
  unfold State.alreadyActive State.setSocket
  cases hws : s.ws with
  | none => rfl
  | some j =>
    by_cases hj : j = i
    · subst hj
      simp only [Function.update_self, hf]
    · simp only [Function.update_of_ne hj]

/-- What `init` does after connecting leaves the sockets alone. -/
theorem sameSocket_init (socketThrows onThrows : Bool) :
    SameSocket (s.connectWs cfg socketThrows) (s.init impl cfg socketThrows onThrows) := by
  have hbind (u : State) (bus : ℕ) :
      SameSocket u ((u.bindCommBus cfg bus onThrows).scheduleBindRetry cfg) :=
    (bindCommBus_emits cfg bus onThrows u).sameSocket.trans sameSocket_scheduleBindRetry
  refine SameSocket.trans ?_ (hbind _ _)
  cases impl <;> exact sameSocket_of_eq rfl rfl rfl

/-- Arming the reconnect timer sends nothing. -/
theorem scheduleWsReconnect_sent : (s.scheduleWsReconnect cfg).sent = s.sent := by
  unfold State.scheduleWsReconnect
  split <;> rfl

/-- Making a socket sends nothing. -/
theorem connectWs_sent (socketThrows : Bool) : (s.connectWs cfg socketThrows).sent = s.sent := by
  unfold State.connectWs
  split_ifs
  · rfl
  · exact scheduleWsReconnect_sent
  · rfl

/-- The open socket is the one in `ws`, if that is open. -/
theorem openSocket_eq_some {i : ℕ} :
    s.openSocket = some i ↔ s.ws = some i ∧ (s.sockets i).readyState = .open := by
  rw [State.openSocket, Option.filter_eq_some_iff, decide_eq_true_eq]

/-- A new socket is not open. -/
theorem openSocket_connectWs {socketThrows : Bool} {i : ℕ}
    (hopen : (s.connectWs cfg socketThrows).openSocket = some i) : s.openSocket = some i := by
  unfold State.connectWs at hopen
  split_ifs at hopen
  · exact hopen
  · have hsame : SameSocket { s with ws := none }
        ({ s with ws := none } |>.scheduleWsReconnect cfg) := sameSocket_scheduleWsReconnect
    rw [hsame.openSocket] at hopen
    cases hopen
  · obtain ⟨hws, hstate⟩ := openSocket_eq_some.mp hopen
    cases hws
    simp at hstate

/-- Losing a socket leaves none open. -/
theorem openSocket_onLost : (s.onLost cfg).openSocket = none :=
  (sameSocket_scheduleWsReconnect (s := { s with ws := none })).openSocket

/-- Only the event of its opening makes a socket the open one. -/
theorem openSocket_setSocket {i j : ℕ} {f : Socket → Socket} (hij : j ≠ i)
    (hopen : (s.setSocket i f).openSocket = some j) : s.openSocket = some j := by
  obtain ⟨hws, hstate⟩ := openSocket_eq_some.mp hopen
  refine openSocket_eq_some.mpr ⟨hws, ?_⟩
  simpa [State.setSocket, Function.update_of_ne hij] using hstate

/-- A step changes the sockets first, from those of `s` to those of `u`, and sends what it sends
after that. -/
structure SocketsFirst (s : State) (e : RelayEvent) (u t : State) : Prop where
  sent : u.sent = s.sent
  same : SameSocket u t
  live : OneLive s → LossWhenIdle s e → OneLive u
  opened : ∀ i, u.openSocket = some i → s.openSocket = some i ∨ ∃ now, e = .socketOpen i now

/-- A step that leaves the sockets alone. -/
theorem SameSocket.first (h : SameSocket s t) : SocketsFirst s e s t :=
  ⟨rfl, h, fun h _ => h, fun _ hi => .inl hi⟩

/-- A timer that fires makes a new socket, if it is the one of the reconnect. -/
theorem socketsFirst_timer {id : ℕ} {onThrows socketThrows : Bool}
    (hstep : step impl cfg s (.timer id onThrows socketThrows) = some t) :
    ∃ u, SocketsFirst s (.timer id onThrows socketThrows) u t := by
  simp only [step] at hstep
  obtain ⟨⟨callback, delay⟩, _, rfl⟩ := Option.map_eq_some_iff.mp hstep
  cases callback with
  | request rid cmdId =>
    refine ⟨s, (SameSocket.trans ?_ (sameSocket_wsSend _ _)).first⟩
    exact sameSocket_of_eq rfl rfl rfl
  | bindRetry =>
    refine ⟨s, (SameSocket.trans ?_ sameSocket_scheduleBindRetry).first⟩
    refine SameSocket.trans ?_ (rebind_emits _ _ _).sameSocket
    exact sameSocket_of_eq rfl rfl rfl
  | wsRetry =>
    refine ⟨_, ⟨?_, .refl _, fun h _ => ?_, fun i hi => .inl ?_⟩⟩
    · exact connectWs_sent socketThrows
    · exact OneLive.connectWs (s := { s.clearTimeout id with wsRetryTimerId := none })
        (h.same (sameSocket_of_eq rfl rfl rfl)) socketThrows
    · exact openSocket_connectWs (s := { s.clearTimeout id with wsRetryTimerId := none }) hi

/-- The socket of an open event is open, and then it is greeted. -/
theorem socketsFirst_open {i : ℕ} {now : TimeValue}
    (hstep : step impl cfg s (.socketOpen i now) = some t) :
    ∃ u, SocketsFirst s (.socketOpen i now) u t := by
  simp only [step] at hstep
  split_ifs at hstep
  cases hstep
  refine ⟨_, ⟨?_, sameSocket_onOpen now, fun h _ => h.setSocket i fun hlive => ?_, fun j hj => ?_⟩⟩
  · rfl
  · unfold Socket.Live at hlive ⊢
    split_ifs at hlive with hconnecting
    · exact .inl hconnecting
    · exact hlive
  · by_cases hij : j = i
    · exact .inr ⟨now, by rw [hij]⟩
    · exact .inl (openSocket_setSocket hij hj)

/-- The socket of the relay that is dropped is closed, and nothing is sent. -/
theorem socketsFirst_drop {i : ℕ} (hstep : step impl cfg s (.socketDrop i) = some t) :
    ∃ u, SocketsFirst s (.socketDrop i) u t := by
  simp only [step] at hstep
  split_ifs at hstep
  cases hstep
  refine ⟨_, ⟨?_, .refl _, fun h _ => h.setSocket _ fun hlive => ?_, fun j hj => .inl ?_⟩⟩
  · rfl
  · simp [Socket.Live] at hlive
  · refine openSocket_setSocket ?_ hj
    rintro rfl
    have hstate := (openSocket_eq_some.mp hj).2
    simp [State.setSocket] at hstate

/-- A relay that hears that a socket is lost has none, and sends nothing. -/
theorem socketsFirst_onLost (i : ℕ) {f : Socket → Socket}
    (hstate : (f (s.sockets i)).readyState = (s.sockets i).readyState)
    (hidle : LossWhenIdle s e → s.alreadyActive = false) :
    SocketsFirst s e ((s.setSocket i f).onLost cfg) ((s.setSocket i f).onLost cfg) where
  sent := scheduleWsReconnect_sent
  same := .refl _
  live h hloss := by
    have hactive : (s.setSocket i f).alreadyActive ≠ true := by
      rw [alreadyActive_setSocket hstate, hidle hloss]
      exact Bool.false_ne_true
    refine OneLive.onLost (h.setSocket i fun hlive => ?_) hactive
    rwa [Socket.Live, hstate] at hlive
  opened j hj := by
    rw [openSocket_onLost] at hj
    cases hj

/-- Every step but a `destroy` changes the sockets before it sends. -/
theorem socketsFirst_step (hdestroy : ∀ off unregister, e ≠ .destroy off unregister)
    (hstep : step impl cfg s e = some t) : ∃ u, SocketsFirst s e u t := by
  cases e with
  | init socketThrows onThrows =>
    cases hstep
    exact ⟨_, ⟨connectWs_sent socketThrows, sameSocket_init _ _, fun h _ => h.connectWs _,
      fun i hi => .inl (openSocket_connectWs hi)⟩⟩
  | destroy off unregister => exact absurd rfl (hdestroy off unregister)
  | continuation bus onThrows =>
    simp only [step] at hstep
    split_ifs at hstep
    cases hstep
    exact ⟨s, (bindCommBus_emits cfg bus onThrows s).sameSocket.first⟩
  | timer id onThrows socketThrows => exact socketsFirst_timer hstep
  | socketOpen i now => exact socketsFirst_open hstep
  | socketMessage =>
    simp only [step] at hstep
    split_ifs at hstep
    exact ⟨s, (sameSocket_onHostMessage hstep).first⟩
  | socketError i | socketClose i =>
    simp only [step] at hstep
    split_ifs at hstep
    cases hstep
    exact ⟨_, socketsFirst_onLost i rfl fun hidle => hidle⟩
  | socketDrop i => exact socketsFirst_drop hstep
  | wasmMessage raw =>
    simp only [step] at hstep
    split_ifs at hstep
    cases hstep
    refine ⟨s, (SameSocket.trans ?_ (sameSocket_onWasmMessage raw)).first⟩
    exact sameSocket_of_eq rfl rfl rfl
  | callRejected n reason =>
    simp only [step] at hstep
    obtain ⟨c, _, rfl⟩ := Option.map_eq_some_iff.mp hstep
    refine ⟨s, (SameSocket.trans ?_ (sameSocket_onCallRejected c reason)).first⟩
    exact sameSocket_of_eq rfl rfl rfl

/-- A step that meets the condition leaves one live socket at most. -/
theorem oneLive_step (h : OneLive s) (hidle : LossWhenIdle s e)
    (hstep : step impl cfg s e = some t) : OneLive t := by
  by_cases hdestroy : ∀ off unregister, e ≠ .destroy off unregister
  · obtain ⟨u, hu⟩ := socketsFirst_step hdestroy hstep
    exact (hu.live h hidle).same hu.same
  · push Not at hdestroy
    obtain ⟨off, unregister, rfl⟩ := hdestroy
    cases hstep
    exact h.destroy off unregister

/-- Losing a socket while another one is live leaves a live socket that the relay has
forgotten. -/
theorem not_oneLive_onLost (hactive : s.alreadyActive = true) : ¬OneLive (s.onLost cfg) := by
  obtain ⟨i, _, hlive⟩ := alreadyActive_iff.mp hactive
  intro h
  have hlost : SameSocket { s with ws := none } (s.onLost cfg) := sameSocket_scheduleWsReconnect
  have hws := h i (hlost.sockets ▸ hlive)
  rw [hlost.ws] at hws
  cases hws

/-- A step that does not meet it leaves a live socket that is not in `ws`. -/
theorem not_oneLive_step (hidle : ¬LossWhenIdle s e) (hstep : step impl cfg s e = some t) :
    ¬OneLive t := by
  cases e <;> simp only [LossWhenIdle, not_true_eq_false] at hidle
  case socketError i | socketClose i =>
    simp only [step] at hstep
    split_ifs at hstep
    cases hstep
    refine not_oneLive_onLost ?_
    rw [alreadyActive_setSocket rfl]
    exact Bool.eq_true_of_not_eq_false hidle

/-- The events of a run without `destroy`, with the events of a socket coming while they
can: it opens while it is connecting, and delivers messages while it is open. -/
def Timely (s : State) : RelayEvent → Prop
  | .socketOpen i _ => (s.sockets i).readyState = .connecting
  | .socketMessage i _ _ _ _ => (s.sockets i).readyState = .open
  | .destroy _ _ => False
  | _ => True

/-- The socket whose open or message event is delivered. -/
def arrival : RelayEvent → Option ℕ
  | .socketOpen i _ | .socketMessage i _ _ _ _ => some i
  | _ => none

/-- The socket that has just opened, or delivers a message, is open after the step. -/
theorem open_of_arrival (htimely : Timely s e) {i : ℕ} (harrival : arrival e = some i)
    (hstep : step impl cfg s e = some t) : (t.sockets i).readyState = .open := by
  cases e <;> simp only [arrival, reduceCtorEq, Option.some.injEq] at harrival
  case socketOpen j now =>
    subst harrival
    simp only [step] at hstep
    split_ifs at hstep
    cases hstep
    rw [(sameSocket_onOpen now).sockets]
    exact (congrArg Socket.readyState (Function.update_self _ _ _)).trans (if_pos htimely)
  case socketMessage j data now onThrows callThrows =>
    subst harrival
    simp only [step] at hstep
    split_ifs at hstep
    rw [(sameSocket_onHostMessage hstep).sockets]
    exact htimely

/-- What a step sends goes to the open socket, which is the one in `ws`, the only one
that is live, and the one on which frames arrive. -/
theorem sends_on_live_socket (h : OneLive t) (htimely : Timely s e)
    (hstep : step impl cfg s e = some t) :
    ∃ fs, t.sent = s.sent ++ fs ∧ ∀ f ∈ fs, f.socket = t.openSocket ∧
      ∀ i, arrival e = some i → f.socket = some i := by
  obtain ⟨u, hsent, hsame, _⟩ :=
    socketsFirst_step (by rintro off unregister rfl; exact htimely) hstep
  obtain ⟨fs, hfs, hsocket⟩ := hsame.sent
  have hopen (f : Sent) (hf : f ∈ fs) : f.socket = t.openSocket :=
    (hsocket f hf).trans hsame.openSocket.symm
  refine ⟨fs, hsent ▸ hfs, fun f hf => ⟨hopen f hf, fun i harrival => ?_⟩⟩
  have hi := open_of_arrival htimely harrival hstep
  rw [hopen f hf, State.openSocket, h i (.inr hi), Option.filter_some, hi]
  rfl

/-- The runs with one live socket are those in which every error or close event comes
while the socket in `ws` is not live. In such a run everything is sent on the live
socket. -/
theorem one_live_socket_iff (impl : Impl) (cfg : ResolvedConfig) (es : List RelayEvent) :
    (Transition.Always (step impl cfg) OneLive (make impl cfg) es ↔
      Transition.Meets (step impl cfg) LossWhenIdle (make impl cfg) es) ∧
    ∀ s e t, Transition.Meets (step impl cfg) LossWhenIdle (make impl cfg) es →
      Transition.run (step impl cfg) (make impl cfg) es = some s →
      LossWhenIdle s e → Timely s e → step impl cfg s e = some t →
      ∃ fs, t.sent = s.sent ++ fs ∧ ∀ f ∈ fs, f.socket = t.openSocket ∧
        ∀ i, arrival e = some i → f.socket = some i := by
  have hmake : OneLive (make impl cfg) := by
    intro i hlive
    simp [Socket.Live, make] at hlive
  refine ⟨Transition.always_iff_meets (fun _ h => h) (fun _ _ _ h hidle => oneLive_step h hidle)
    (fun _ _ _ _ hidle => not_oneLive_step hidle) hmake es, ?_⟩
  intro s e t hmeets hrun hidle htimely hstep
  have hlive : OneLive s :=
    Transition.run_invariant_of_meets (fun _ _ _ h hidle => oneLive_step h hidle) hmeets hrun hmake
  exact sends_on_live_socket (oneLive_step hlive hidle hstep) htimely hstep

/-- A socket is lost and a new one made. -/
def reconnecting : List RelayEvent :=
  [.init false false, .socketDrop 0, .socketError 0, .timer 1 false false]

/-- The hello of the new socket goes to the new socket. -/
theorem one_live_socket_iff_reconnecting : ∃ s t,
    Transition.run (step .rescript defaultConfig) (make .rescript defaultConfig) reconnecting =
      some s ∧
    step .rescript defaultConfig s (.socketOpen 1 ⟨0, by decide⟩) = some t ∧
    ∃ fs, t.sent = s.sent ++ fs ∧ ∀ f ∈ fs, f.socket = t.openSocket ∧
      ∀ i, some 1 = some i → f.socket = some i := by
  have hsome : (Transition.run (step .rescript defaultConfig) (make .rescript defaultConfig)
    reconnecting).isSome := by rfl
  have hopen : (step .rescript defaultConfig ((Transition.run (step .rescript defaultConfig)
    (make .rescript defaultConfig) reconnecting).get hsome)
      (.socketOpen 1 ⟨0, by decide⟩)).isSome := by rfl
  have hmeets : Transition.Meets (step .rescript defaultConfig) LossWhenIdle
      (make .rescript defaultConfig) reconnecting := by
    intro t₁ h₁
    refine ⟨trivial, fun t₂ h₂ => ⟨trivial, fun t₃ h₃ => ⟨?_, fun t₄ h₄ => ⟨trivial, trivial⟩⟩⟩⟩
    cases h₁
    cases h₂
    rfl
  refine ⟨_, _, (Option.some_get hsome).symm, (Option.some_get hopen).symm, ?_⟩
  exact (one_live_socket_iff .rescript defaultConfig reconnecting).2 _
    (.socketOpen 1 ⟨0, by decide⟩) _ hmeets (Option.some_get hsome).symm trivial rfl
    (Option.some_get hopen).symm

/-- The close event of the lost socket comes after the reconnect. Then two sockets are
live. -/
def TwoLive (impl : Impl) : Prop := ∃ s,
  Transition.run (step impl defaultConfig) (make impl defaultConfig)
    (reconnecting ++ [.socketClose 0, .timer 2 false false]) = some s ∧
    (s.sockets 1).Live ∧ (s.sockets 2).Live

/-- This happens to both relays. -/
theorem two_live_sockets : TwoLive .typescript ∧ TwoLive .rescript :=
  ⟨⟨_, rfl, .inl rfl, .inl rfl⟩, ⟨_, rfl, .inl rfl, .inl rfl⟩⟩

end State

end InfinityBridge.Relay
