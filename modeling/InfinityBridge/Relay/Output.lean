import InfinityBridge.Relay.Sockets

/-!
# What a relay sends

Whatever happens to a relay, a frame it sends has the form that belongs to its origin:
the hello of its configuration, a readiness event, a pong, an ack, or a text that has just
come on the CommBus and is an event or an ack by its tag.
-/

namespace InfinityBridge.Relay

variable {impl : Impl} {cfg : ResolvedConfig}

/-- The form of a frame of this origin, sent at event `e`. -/
def Sent.WellMade (impl : Impl) (cfg : ResolvedConfig) (e : RelayEvent) (f : Sent) : Prop :=
  match f.origin with
  | .hello => ∃ now, f.frame = .doc (State.helloFrame cfg now)
  | .ready => ∃ bound, f.frame = .doc (State.readyFrame bound)
  | .pong => ∃ i data now onThrows callThrows,
      e = .socketMessage i data now onThrows callThrows ∧ f.frame = .doc (State.pongFrame now)
  | .forwarded => e = .wasmMessage f.frame ∧
      ∃ j, f.frame.jsonParse = some j ∧ wasmMessage impl j = .forward
  | .duplicate => ∃ id, f.frame = .doc (duplicateAck id)
  | .answer _ _ => ∃ id ok error response, f.frame = .doc (ackFrame id ok error response none)

namespace State

variable {s t u : State} {e : RelayEvent}

/-- What a callback adds to `sent` is well made. -/
def Writes (impl : Impl) (cfg : ResolvedConfig) (e : RelayEvent) (s t : State) : Prop :=
  ∃ fs, t.sent = s.sent ++ fs ∧ ∀ f ∈ fs, f.WellMade impl cfg e

/-- A step that sends nothing writes nothing that is not well made. -/
theorem writes_nothing (hsent : t.sent = s.sent) : Writes impl cfg e s t :=
  ⟨[], by rw [hsent, List.append_nil], by simp⟩

/-- Nothing is written where nothing happens. -/
theorem Writes.refl (s : State) : Writes impl cfg e s s := writes_nothing rfl

/-- What two steps in a row write is well made if what each of them writes is. -/
theorem Writes.trans (h : Writes impl cfg e s t) (h' : Writes impl cfg e t u) :
    Writes impl cfg e s u := by
  obtain ⟨fs, hfs, hmade⟩ := h
  obtain ⟨fs', hfs', hmade'⟩ := h'
  refine ⟨fs ++ fs', by rw [hfs', hfs, List.append_assoc], fun f hf => ?_⟩
  rcases List.mem_append.mp hf with hf | hf
  · exact hmade f hf
  · exact hmade' f hf

/-- What happens before the callback sends anything. -/
theorem Writes.after (h : Writes impl cfg e t u) (hsent : t.sent = s.sent) :
    Writes impl cfg e s u :=
  (writes_nothing hsent).trans h

/-- Sending one frame that is well made, on whatever socket it goes. -/
theorem writes_wsSend {origin : Origin} {frame : Text}
    (hmade : ∀ socket, Sent.WellMade impl cfg e ⟨origin, frame, socket⟩) :
    Writes impl cfg e s (s.wsSend origin frame) :=
  ⟨_, rfl, fun _ hf => List.mem_singleton.mp hf ▸ hmade _⟩

/-- Frames of one kind are well made when that kind is. -/
theorem Emits.writes {P : Sent → Prop} (h : Emits P s t) (hP : ∀ f, P f → f.WellMade impl cfg e) :
    Writes impl cfg e s t := by
  obtain ⟨fs, hfs, hmade⟩ := h.sent
  exact ⟨fs, hfs, fun f hf => hP f (hmade f hf).1⟩

/-- A readiness frame is well made at any event. -/
theorem IsReady.wellMade {f : Sent} (h : IsReady f) : f.WellMade impl cfg e := by
  obtain ⟨horigin, bound, hframe⟩ := h
  simp only [Sent.WellMade, horigin]
  exact ⟨bound, hframe⟩

/-! ### Callbacks -/

/-- A refusal writes an ack for its request. -/
theorem writes_refuse (s : State) (rid : String) (id : Option Value) (message : String) :
    Writes impl cfg e s (s.refuse rid id message) :=
  writes_wsSend fun _ => ⟨id, false, some (.str message), none, rfl⟩

/-- Attaching the listener writes a readiness frame, or nothing. -/
theorem writes_bindCommBus (bus : ℕ) (onThrows : Bool) :
    Writes impl cfg e s (s.bindCommBus cfg bus onThrows) :=
  (bindCommBus_emits cfg bus onThrows s).writes fun _ h => h.wellMade

/-- A retry of the binding writes what attaching the listener does. -/
theorem writes_rebind (onThrows : Bool) : Writes impl cfg e s (s.rebind cfg onThrows) :=
  (rebind_emits cfg onThrows s).writes fun _ h => h.wellMade

/-- A CommBus call sends nothing on a socket. -/
theorem writes_call (bus : ℕ) (rid : String) (payload : Value) (command callThrows : Bool) :
    Writes impl cfg e s (s.call cfg bus rid payload command callThrows) :=
  (call_emits (fun _ => False) cfg bus rid payload command callThrows s).writes fun _ h => h.elim

/-- Arming the bind timer sends nothing. -/
theorem scheduleBindRetry_sent : (s.scheduleBindRetry cfg).sent = s.sent := by
  unfold scheduleBindRetry
  split_ifs
  · rfl
  · split <;> rfl

/-- An open event writes the hello and the readiness. -/
theorem writes_onOpen (now : TimeValue) : Writes impl cfg e s (s.onOpen cfg now) := by
  have hhello : Writes impl cfg e s (s.wsSend .hello (.doc (helloFrame cfg now))) :=
    writes_wsSend fun _ => ⟨now, rfl⟩
  exact hhello.trans (writes_wsSend fun _ => ⟨_, rfl⟩)

/-- Forwarding a command writes a refusal at most, and what the binding writes. -/
theorem writes_forwardCommand (rid : String) (frame : Value) (onThrows callThrows : Bool) :
    Writes impl cfg e s (s.forwardCommand cfg rid frame onThrows callThrows) := by
  unfold forwardCommand
  split
  · split
    · exact .refl s
    · exact (writes_refuse _ _ _ _).after rfl
  · exact (writes_bindCommBus _ _).trans (writes_call _ _ _ _ _)

/-- A message of the host is answered with a pong, an ack, or a frame that binding causes. -/
theorem writes_onHostMessage {i : ℕ} {data : Option Text} {now : TimeValue}
    {onThrows callThrows : Bool}
    (hstep : s.onHostMessage impl cfg data now onThrows callThrows = some t) :
    Writes impl cfg (.socketMessage i data now onThrows callThrows) s t := by
  unfold onHostMessage onHostCommand onHostEvent at hstep
  split at hstep
  · cases hstep
    exact .refl s
  split at hstep
  · cases hstep
    exact writes_wsSend fun _ => ⟨i, data, now, onThrows, callThrows, rfl, rfl⟩
  · dsimp only at hstep
    split_ifs at hstep
    · cases hstep
      exact Writes.after (writes_wsSend fun _ => ⟨_, rfl⟩) rfl
    · obtain ⟨dedup, _, rfl⟩ := Option.map_eq_some_iff.mp hstep
      exact (writes_forwardCommand _ _ _ _).after rfl
  · cases hstep
    split
    · exact .refl s
    · exact (writes_call _ _ _ _ _).after rfl
  · cases hstep
    exact .refl s

/-- A text of the CommBus is answered for, or forwarded if its tag admits it. -/
theorem writes_onWasmMessage (raw : Text) :
    Writes impl cfg (.wasmMessage raw) s (s.onWasmMessage impl raw) := by
  unfold onWasmMessage
  split
  · exact .refl s
  next j hparse =>
    split
    · split
      · exact .refl s
      split
      · exact writes_nothing rfl
      · next hack =>
        obtain ⟨error, response, rfl⟩ := responseAck_eq_ackFrame hack
        exact Writes.after (writes_wsSend fun _ => ⟨_, _, error, response, rfl⟩) rfl
    · next hforward => exact writes_wsSend fun _ => ⟨rfl, j, hparse, hforward⟩
    · exact .refl s

/-- A rejected call writes a refusal at most. -/
theorem writes_onCallRejected (c : BusCall) (reason : Rejection) :
    Writes impl cfg e s (s.onCallRejected impl c reason) := by
  unfold onCallRejected
  split_ifs
  · split
    · exact .refl s
    split
    · exact writes_nothing rfl
    · exact (writes_refuse _ _ _ _).after rfl
  · exact .refl s

/-- A timer writes a refusal or a readiness frame at most. -/
theorem writes_onTimer (callback : TimerCallback) (onThrows socketThrows : Bool) :
    Writes impl cfg e s (s.onTimer cfg callback onThrows socketThrows) := by
  cases callback with
  | bindRetry =>
    have hrebind : Writes impl cfg e s ({ s with bindRetryTimerId := none }.rebind cfg onThrows) :=
      (writes_rebind onThrows).after rfl
    exact hrebind.trans (writes_nothing scheduleBindRetry_sent)
  | wsRetry => exact writes_nothing (connectWs_sent socketThrows)
  | request rid id => exact (writes_refuse _ _ _ _).after rfl

/-- Initialising writes a readiness frame at most. -/
theorem writes_init (socketThrows onThrows : Bool) :
    Writes impl cfg e s (s.init impl cfg socketThrows onThrows) := by
  have hbind (u : State) (bus : ℕ) :
      Writes impl cfg e u ((u.bindCommBus cfg bus onThrows).scheduleBindRetry cfg) :=
    (writes_bindCommBus bus onThrows).trans (writes_nothing scheduleBindRetry_sent)
  refine Writes.after (hbind _ _) ?_
  cases impl <;> exact connectWs_sent socketThrows

/-- A destruction sends the refusals of what is pending. -/
theorem writes_rejectAll (es : List (Sigma fun _ : String => PendingRequest)) :
    Writes impl cfg e s (s.rejectAll es) := by
  induction es generalizing s with
  | nil => exact .refl s
  | cons e es ih => exact ((writes_refuse _ _ _ _).after rfl).trans ih

/-- Closing the socket sends nothing. -/
theorem cleanupWs_sent (s : State) : s.cleanupWs.sent = s.sent := by
  have hclose (i : ℕ) (u : State) : (u.close i).sent = u.sent := by
    unfold close
    split <;> rfl
  unfold cleanupWs
  cases s.wsRetryTimerId <;> cases hws : s.ws <;> simp [clearTimeout?, clearTimeout, hws, hclose]

/-- Clearing the bind timer sends nothing. -/
theorem cleanupBindRetry_sent (s : State) : s.cleanupBindRetry.sent = s.sent := by
  unfold cleanupBindRetry
  cases s.bindRetryTimerId <;> rfl

/-- Detaching the listener sends nothing. -/
theorem tryOff_sent (bus : ℕ) (offThrows : Bool) : (s.tryOff cfg bus offThrows).sent = s.sent := by
  unfold tryOff off
  split_ifs
  · rfl
  · split <;> rfl

/-- Destroying the relay writes the refusals of what is pending. -/
theorem writes_destroy (offThrows unregisterThrows : Bool) :
    Writes impl cfg e s (s.destroy impl cfg offThrows unregisterThrows) := by
  refine Writes.trans ((writes_rejectAll s.pending.entries.reverse).trans
    (writes_nothing rfl : Writes impl cfg e _ s.rejectPending)) (writes_nothing ?_)
  unfold destroy
  cases impl with
  | typescript =>
    dsimp only
    split
    · rw [cleanupWs_sent, cleanupBindRetry_sent]
    · split
      · rw [tryOff_sent, cleanupBindRetry_sent]
      · rw [cleanupWs_sent]
        exact (tryOff_sent _ _).trans (cleanupBindRetry_sent _)
  | rescript =>
    rw [cleanupWs_sent, cleanupBindRetry_sent]
    unfold unhook
    split
    · unfold tryUnregister
      split_ifs
      · exact tryOff_sent _ _
      · exact tryOff_sent _ _
    · rfl

/-- Whatever a relay sends at any event is well made. -/
theorem writes_step (hstep : step impl cfg s e = some t) : Writes impl cfg e s t := by
  cases e <;> simp only [step] at hstep
  case init =>
    cases hstep
    exact writes_init _ _
  case destroy =>
    cases hstep
    exact writes_destroy _ _
  case continuation =>
    split_ifs at hstep
    cases hstep
    exact writes_bindCommBus _ _
  case timer =>
    obtain ⟨timer, _, rfl⟩ := Option.map_eq_some_iff.mp hstep
    exact (writes_onTimer _ _ _).after rfl
  case socketOpen =>
    split_ifs at hstep
    cases hstep
    exact (writes_onOpen _).after rfl
  case socketMessage =>
    split_ifs at hstep
    exact writes_onHostMessage hstep
  case socketError | socketClose =>
    split_ifs at hstep
    cases hstep
    exact writes_nothing scheduleWsReconnect_sent
  case socketDrop =>
    split_ifs at hstep
    cases hstep
    exact writes_nothing rfl
  case wasmMessage =>
    split_ifs at hstep
    cases hstep
    exact (writes_onWasmMessage _).after rfl
  case callRejected =>
    obtain ⟨c, _, rfl⟩ := Option.map_eq_some_iff.mp hstep
    exact (writes_onCallRejected _ _).after rfl

end State

end InfinityBridge.Relay
