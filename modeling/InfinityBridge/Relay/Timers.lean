import InfinityBridge.Relay.Callbacks

/-!
# Timers and the fields that remember them

The armed reconnect timer is the one in `wsRetryTimerId`, the armed bind timer is the
one in `bindRetryTimerId`, and an entry of `pending` never remembers a timer of
another kind. This holds in every state between callbacks, whatever the environment
does.
-/

namespace InfinityBridge.Relay

namespace State

variable {impl : Impl} {cfg : ResolvedConfig} {s t : State} {e : RelayEvent}

/-- A callback that sends frames, attaches a listener or makes a call, and changes
nothing else; what it sends satisfies `P`. -/
structure Emits (P : Sent → Prop) (s t : State) : Prop where
  commBus : t.commBus = s.commBus
  bindRetryTimerId : t.bindRetryTimerId = s.bindRetryTimerId
  ws : t.ws = s.ws
  wsRetryTimerId : t.wsRetryTimerId = s.wsRetryTimerId
  pending : t.pending = s.pending
  requestSeq : t.requestSeq = s.requestSeq
  dedup : t.dedup = s.dedup
  nextRef : t.nextRef = s.nextRef
  timers : t.timers = s.timers
  nextTimer : t.nextTimer = s.nextTimer
  sockets : t.sockets = s.sockets
  nextSocket : t.nextSocket = s.nextSocket
  accepted : t.accepted = s.accepted
  copies : t.copies = s.copies
  lost : t.lost = s.lost
  requests : t.requests = s.requests
  heard : t.heard = s.heard
  sent : ∃ es, t.sent = s.sent ++ es ∧ ∀ e ∈ es, P e ∧ e.socket = s.openSocket

/-- The fields that `Emits` keeps. -/
def kept (s : State) :=
  (s.commBus, s.bindRetryTimerId, s.ws, s.wsRetryTimerId, s.pending, s.requestSeq, s.dedup,
    s.nextRef, s.timers, s.nextTimer, s.sockets, s.nextSocket, s.accepted, s.copies, s.lost,
    s.requests, s.heard)

/-- What keeps these fields emits what it appends to `sent`. -/
theorem emits_of_kept {P : Sent → Prop} (h : t.kept = s.kept)
    (hsent : ∃ es, t.sent = s.sent ++ es ∧ ∀ e ∈ es, P e ∧ e.socket = s.openSocket) :
    Emits P s t := by
  simp only [kept, Prod.mk.injEq] at h
  obtain ⟨hcommBus, hbindRetry, hws, hwsRetry, hpending, hseq, hdedup, hnextRef, htimers,
    hnextTimer, hsockets, hnextSocket, haccepted, hcopies, hlost, hrequests, hheard⟩ := h
  exact ⟨hcommBus, hbindRetry, hws, hwsRetry, hpending, hseq, hdedup, hnextRef, htimers,
    hnextTimer, hsockets, hnextSocket, haccepted, hcopies, hlost, hrequests, hheard, hsent⟩

/-- What keeps these fields and sends nothing. -/
theorem emits_nothing (P : Sent → Prop) (h : t.kept = s.kept) (hsent : t.sent = s.sent) :
    Emits P s t :=
  emits_of_kept h ⟨[], by rw [hsent, List.append_nil], by simp⟩

/-- Nothing is sent where nothing happens. -/
theorem Emits.refl (P : Sent → Prop) (s : State) : Emits P s s := emits_nothing P rfl rfl

/-- The open socket is not changed by what emits frames. -/
theorem Emits.openSocket {P : Sent → Prop} (h : Emits P s t) : t.openSocket = s.openSocket := by
  rw [State.openSocket, State.openSocket, h.ws, h.sockets]

/-- What two steps in a row send satisfies `P` if what each of them sends does. -/
theorem Emits.trans {P : Sent → Prop} {u : State} (h : Emits P s t) (h' : Emits P t u) :
    Emits P s u := by
  obtain ⟨es, hsent, hes⟩ := h.sent
  obtain ⟨es', hsent', hes'⟩ := h'.sent
  refine ⟨h'.commBus.trans h.commBus, h'.bindRetryTimerId.trans h.bindRetryTimerId,
    h'.ws.trans h.ws, h'.wsRetryTimerId.trans h.wsRetryTimerId, h'.pending.trans h.pending,
    h'.requestSeq.trans h.requestSeq, h'.dedup.trans h.dedup, h'.nextRef.trans h.nextRef,
    h'.timers.trans h.timers,
    h'.nextTimer.trans h.nextTimer, h'.sockets.trans h.sockets, h'.nextSocket.trans h.nextSocket,
    h'.accepted.trans h.accepted, h'.copies.trans h.copies, h'.lost.trans h.lost,
    h'.requests.trans h.requests,
    h'.heard.trans h.heard, es ++ es', ?_, ?_⟩
  · rw [hsent', hsent, List.append_assoc]
  · intro e he
    rcases List.mem_append.mp he with he | he
    · exact hes e he
    · rw [← h.openSocket]
      exact hes' e he

/-- A callback that emits for fewer origins. -/
theorem Emits.mono {P Q : Sent → Prop} (h : Emits P s t) (hPQ : ∀ e, P e → Q e) :
    Emits Q s t := by
  obtain ⟨es, hsent, hes⟩ := h.sent
  exact { h with sent := ⟨es, hsent, fun e he => ⟨hPQ _ (hes e he).1, (hes e he).2⟩⟩ }

/-- `wsSend` emits one frame. -/
theorem wsSend_emits (s : State) (origin : Origin) (frame : Text) :
    Emits (fun e => e.origin = origin ∧ e.frame = frame) s (s.wsSend origin frame) :=
  emits_of_kept rfl ⟨[⟨origin, frame, s.openSocket⟩], rfl, by simp⟩

/-- A readiness event. -/
def IsReady (e : Sent) : Prop := e.origin = .ready ∧ ∃ bound, e.frame = .doc (readyFrame bound)

/-- `bindCommBus` emits at most a readiness event. -/
theorem bindCommBus_emits (cfg : ResolvedConfig) (bus : ℕ) (onThrows : Bool) (s : State) :
    Emits IsReady s (s.bindCommBus cfg bus onThrows) := by
  unfold bindCommBus
  by_cases hbound : s.commBusBound = true
  · rw [if_pos hbound]
    exact .refl _ s
  rw [if_neg hbound]
  split
  · exact .refl _ s
  · next h _ =>
    by_cases hthrows : onThrows = true
    · rw [if_pos hthrows]
      exact .refl _ s
    · rw [if_neg hthrows]
      refine Emits.trans (t := { s with
        listeners := s.listeners ++ [Listener.mk bus cfg.responseEvent h]
        commBusBound := true }) ?_ ((wsSend_emits _ .ready _).mono fun e he => ⟨he.1, _, he.2⟩)
      exact emits_nothing _ rfl rfl

/-- `rebind` emits at most a readiness event. -/
theorem rebind_emits (cfg : ResolvedConfig) (onThrows : Bool) (s : State) :
    Emits IsReady s (s.rebind cfg onThrows) := by
  unfold rebind
  split
  · exact .refl _ s
  · exact bindCommBus_emits _ _ _ _

/-- A CommBus call emits nothing. -/
theorem call_emits (P : Sent → Prop) (cfg : ResolvedConfig) (bus : ℕ) (requestId : String)
    (payload : Value) (command callThrows : Bool) (s : State) :
    Emits P s (s.call cfg bus requestId payload command callThrows) := by
  unfold call
  split_ifs
  · exact .refl P s
  · exact emits_nothing P rfl rfl

/-- Removing the listeners of a handle emits nothing. -/
theorem unregister_emits (P : Sent → Prop) (bus : ℕ) (s : State) : Emits P s (s.unregister bus) :=
  emits_nothing P rfl rfl

/-- Detaching one listener sends nothing. -/
theorem off_emits (P : Sent → Prop) (cfg : ResolvedConfig) (bus : ℕ) (s : State) :
    Emits P s (s.off cfg bus) := by
  unfold off
  split
  · exact .refl P s
  · exact emits_nothing P rfl rfl

/-- Trying to detach the listener sends nothing. -/
theorem tryOff_emits (P : Sent → Prop) (cfg : ResolvedConfig) (bus : ℕ) (offThrows : Bool)
    (s : State) : Emits P s (s.tryOff cfg bus offThrows) := by
  unfold tryOff
  split_ifs
  · exact .refl P s
  · exact off_emits P cfg bus s

/-- Detaching from the CommBus emits nothing. -/
theorem unhook_emits (P : Sent → Prop) (cfg : ResolvedConfig) (offThrows unregisterThrows : Bool)
    (s : State) : Emits P s (s.unhook cfg offThrows unregisterThrows) := by
  unfold unhook tryUnregister
  split
  · split_ifs
    · exact tryOff_emits P cfg _ _ s
    · exact (tryOff_emits P cfg _ _ s).trans (unregister_emits P _ _)
  · exact .refl P s

/-- The timers and the fields that remember them agree. -/
structure TimersOk (s : State) : Prop where
  fresh : ∀ id, s.nextTimer ≤ id → s.timers.lookup id = none
  wsRetry : ∀ id, (∃ d, s.timers.lookup id = some ⟨.wsRetry, d⟩) ↔ s.wsRetryTimerId = some id
  bindRetry : ∀ id, (∃ d, s.timers.lookup id = some ⟨.bindRetry, d⟩) ↔
    s.bindRetryTimerId = some id
  pending : ∀ rid p, s.pending.lookup rid = some p → p.timerId < s.nextTimer ∧
    ∀ t, s.timers.lookup p.timerId = some t → t.callback = .request rid p.cmdId

/-- Nothing is armed at the start. -/
theorem timersOk_make : TimersOk (make impl cfg) := by
  refine ⟨fun _ _ => rfl, fun id => ⟨?_, ?_⟩, fun id => ⟨?_, ?_⟩, fun rid p h => by cases h⟩
  · rintro ⟨d, h⟩
    cases h
  · intro h
    cases h
  · rintro ⟨d, h⟩
    cases h
  · intro h
    cases h

/-- The timers and the fields that remember them. -/
def alarms (s : State) :=
  (s.timers, s.nextTimer, s.wsRetryTimerId, s.bindRetryTimerId, s.pending)

/-- What does not touch the timers or the fields keeps them in agreement. -/
theorem TimersOk.congr (h : TimersOk s) (halarms : t.alarms = s.alarms) : TimersOk t := by
  simp only [alarms, Prod.mk.injEq] at halarms
  obtain ⟨htimers, hnext, hws, hbind, hpending⟩ := halarms
  refine ⟨?_, ?_, ?_, ?_⟩
  · rw [htimers, hnext]
    exact h.fresh
  · rw [htimers, hws]
    exact h.wsRetry
  · rw [htimers, hbind]
    exact h.bindRetry
  · rw [hpending, htimers, hnext]
    exact h.pending

/-- What emits frames leaves the timers and their fields alone. -/
theorem TimersOk.emits {P : Sent → Prop} (h : TimersOk s) (hemits : Emits P s t) :
    TimersOk t := by
  apply h.congr
  simp only [alarms, hemits.timers, hemits.nextTimer, hemits.wsRetryTimerId,
    hemits.bindRetryTimerId, hemits.pending]

/-- Removing entries of `pending`. -/
theorem TimersOk.withPending (h : TimersOk s) (pending : Table String PendingRequest)
    (hsub : ∀ rid p, pending.lookup rid = some p → s.pending.lookup rid = some p) :
    TimersOk { s with pending } :=
  { h with pending := fun rid p hp => h.pending rid p (hsub rid p hp) }

/-- Disarming a timer leaves those of other kinds armed. -/
theorem exists_lookup_clear {id : ℕ} {callback : TimerCallback}
    (hid : ∀ t, s.timers.lookup id = some t → t.callback ≠ callback) (id' : ℕ) :
    (∃ d, (s.clearTimeout id).timers.lookup id' = some ⟨callback, d⟩) ↔
      ∃ d, s.timers.lookup id' = some ⟨callback, d⟩ := by
  refine exists_congr fun d => ?_
  simp only [State.clearTimeout, Table.lookup_erase_eq]
  split_ifs with heq
  · refine ⟨fun h => (by cases h), fun hlook => ?_⟩
    exact absurd rfl (hid _ (heq ▸ hlook))
  · rfl

/-- What is found after disarming a timer was there before. -/
theorem lookup_of_clear {id id' : ℕ} {t : Timer}
    (h : (s.clearTimeout id).timers.lookup id' = some t) :
    id' ≠ id ∧ s.timers.lookup id' = some t := by
  simp only [State.clearTimeout, Table.lookup_erase_eq] at h
  split_ifs at h with hne
  exact ⟨hne, h⟩

/-- A timer that has not been made is not armed after another one is cleared. -/
theorem TimersOk.fresh_clear (h : TimersOk s) (id id' : ℕ) (hid' : s.nextTimer ≤ id') :
    (s.clearTimeout id).timers.lookup id' = none := by
  simp only [State.clearTimeout, Table.lookup_erase_eq, h.fresh id' hid', ite_self]

/-- The timer of a pending request is its own, also after another one is cleared. -/
theorem TimersOk.pending_clear (h : TimersOk s) (id : ℕ) {rid : String} {p : PendingRequest}
    (hp : s.pending.lookup rid = some p) : p.timerId < s.nextTimer ∧
      ∀ t, (s.clearTimeout id).timers.lookup p.timerId = some t →
        t.callback = .request rid p.cmdId :=
  ⟨(h.pending rid p hp).1, fun t ht => (h.pending rid p hp).2 t (lookup_of_clear ht).2⟩

/-- Disarming a timer of a request. -/
theorem TimersOk.clearTimeout (h : TimersOk s) {id : ℕ}
    (hid : ∀ t, s.timers.lookup id = some t → ∃ rid cmdId, t.callback = .request rid cmdId) :
    TimersOk (s.clearTimeout id) := by
  have hkind (callback : TimerCallback) (hc : ∀ rid cmdId, .request rid cmdId ≠ callback) :
      ∀ t, s.timers.lookup id = some t → t.callback ≠ callback := by
    intro t ht
    obtain ⟨rid, cmdId, hcallback⟩ := hid t ht
    rw [hcallback]
    exact hc rid cmdId
  exact ⟨h.fresh_clear id,
    fun id' => (exists_lookup_clear (hkind .wsRetry (by simp)) id').trans (h.wsRetry id'),
    fun id' => (exists_lookup_clear (hkind .bindRetry (by simp)) id').trans (h.bindRetry id'),
    fun rid p hp => h.pending_clear id hp⟩

/-- Disarming the bind timer and forgetting it. -/
theorem TimersOk.forgetBindRetry (h : TimersOk s) {id : ℕ} (hid : s.bindRetryTimerId = some id) :
    TimersOk { s.clearTimeout id with bindRetryTimerId := none } := by
  obtain ⟨d, hd⟩ := (h.bindRetry id).mpr hid
  have hkind : ∀ t, s.timers.lookup id = some t → t.callback ≠ .wsRetry := by
    intro t ht
    rw [hd] at ht
    cases ht
    simp
  refine ⟨h.fresh_clear id, fun id' => (exists_lookup_clear hkind id').trans (h.wsRetry id'),
    fun id' => ⟨fun ⟨d', hd'⟩ => ?_, fun hnone => (by cases hnone)⟩,
    fun rid p hp => h.pending_clear id hp⟩
  obtain ⟨hne, hd'⟩ := lookup_of_clear hd'
  have := (h.bindRetry id').mp ⟨d', hd'⟩
  rw [hid, Option.some.injEq] at this
  exact absurd this.symm hne

/-- Disarming the reconnect timer and forgetting it. -/
theorem TimersOk.forgetWsRetry (h : TimersOk s) {id : ℕ} (hid : s.wsRetryTimerId = some id) :
    TimersOk { s.clearTimeout id with wsRetryTimerId := none } := by
  obtain ⟨d, hd⟩ := (h.wsRetry id).mpr hid
  have hkind : ∀ t, s.timers.lookup id = some t → t.callback ≠ .bindRetry := by
    intro t ht
    rw [hd] at ht
    cases ht
    simp
  refine ⟨h.fresh_clear id, fun id' => ⟨fun ⟨d', hd'⟩ => ?_, fun hnone => (by cases hnone)⟩,
    fun id' => (exists_lookup_clear hkind id').trans (h.bindRetry id'),
    fun rid p hp => h.pending_clear id hp⟩
  obtain ⟨hne, hd'⟩ := lookup_of_clear hd'
  have := (h.wsRetry id').mp ⟨d', hd'⟩
  rw [hid, Option.some.injEq] at this
  exact absurd this.symm hne

/-- Disarming the timer of an entry of `pending`. -/
theorem TimersOk.clearPending (h : TimersOk s) {rid : String} {p : PendingRequest}
    (hp : s.pending.lookup rid = some p) : TimersOk (s.clearTimeout p.timerId) :=
  h.clearTimeout fun t ht => ⟨rid, p.cmdId, (h.pending rid p hp).2 t ht⟩

/-- Taking a request out and disarming its timer. -/
theorem TimersOk.take (h : TimersOk s) {rid : String} {p : PendingRequest}
    (hp : s.pending.lookup rid = some p) : TimersOk (s.take rid p) := by
  refine (h.withPending (s.pending.erase rid) fun rid' p' hp' => ?_).clearTimeout
    fun t ht => ⟨rid, p.cmdId, (h.pending rid p hp).2 t ht⟩
  rw [Table.lookup_erase_eq] at hp'
  split_ifs at hp'
  exact hp'

/-- What is found after arming a timer. -/
theorem lookup_setTimeout (callback : TimerCallback) (delay : ℤ) (id : ℕ) :
    (s.setTimeout callback delay).2.timers.lookup id =
      if id = s.nextTimer then some ⟨callback, delay⟩ else s.timers.lookup id := by
  simp only [setTimeout, Table.lookup_insert_eq]

/-- A timer of another kind is armed when it was armed before. -/
theorem exists_lookup_setTimeout (h : TimersOk s) {callback callback' : TimerCallback} {delay : ℤ}
    (hne : callback' ≠ callback) (id : ℕ) :
    (∃ d, (s.setTimeout callback delay).2.timers.lookup id = some ⟨callback', d⟩) ↔
      ∃ d, s.timers.lookup id = some ⟨callback', d⟩ := by
  refine exists_congr fun d => ?_
  rw [lookup_setTimeout]
  split_ifs with hid
  · refine ⟨fun heq => ?_, fun heq => ?_⟩
    · cases heq
      exact absurd rfl hne
    · rw [h.fresh id hid.ge] at heq
      cases heq
  · rfl

/-- A timer is armed under its new id only, when none of its kind was armed. -/
theorem exists_lookup_setTimeout_self {callback : TimerCallback} {delay : ℤ}
    (hnone : ∀ id d, s.timers.lookup id ≠ some ⟨callback, d⟩) (id : ℕ) :
    (∃ d, (s.setTimeout callback delay).2.timers.lookup id = some ⟨callback, d⟩) ↔
      some s.nextTimer = some id := by
  simp only [lookup_setTimeout, Option.some.injEq]
  constructor
  · rintro ⟨d, hd⟩
    split_ifs at hd with hid
    · exact hid.symm
    · exact absurd hd (hnone id d)
  · rintro rfl
    exact ⟨delay, if_pos rfl⟩

/-- The entries of `pending` remember older timers. -/
theorem TimersOk.pending_setTimeout (h : TimersOk s) (callback : TimerCallback) (delay : ℤ)
    {rid : String} {p : PendingRequest} (hp : s.pending.lookup rid = some p) :
    p.timerId < s.nextTimer + 1 ∧
      ∀ t, (s.setTimeout callback delay).2.timers.lookup p.timerId = some t →
        t.callback = .request rid p.cmdId := by
  obtain ⟨hlt, hkind⟩ := h.pending rid p hp
  refine ⟨by omega, fun t ht => hkind t ?_⟩
  rwa [lookup_setTimeout, if_neg hlt.ne] at ht

/-- After a timer is armed, only the ids below the next one are in use. -/
theorem TimersOk.fresh_setTimeout (h : TimersOk s) (callback : TimerCallback) (delay : ℤ) (id : ℕ)
    (hid : s.nextTimer + 1 ≤ id) : (s.setTimeout callback delay).2.timers.lookup id = none := by
  rw [lookup_setTimeout, if_neg (by omega), h.fresh id (by omega)]

/-- The reconnect timer is remembered when it is armed. -/
theorem TimersOk.scheduleWsReconnect (h : TimersOk s) : TimersOk (s.scheduleWsReconnect cfg) := by
  unfold State.scheduleWsReconnect
  cases hws : s.wsRetryTimerId with
  | some id => exact h
  | none =>
    have hnone (id : ℕ) (d : ℤ) : s.timers.lookup id ≠ some ⟨.wsRetry, d⟩ := by
      intro hd
      have := (h.wsRetry id).mp ⟨d, hd⟩
      rw [hws] at this
      cases this
    exact ⟨h.fresh_setTimeout _ _, exists_lookup_setTimeout_self hnone,
      fun id => (exists_lookup_setTimeout h (by simp) id).trans (h.bindRetry id),
      fun rid p hp => h.pending_setTimeout _ _ hp⟩

/-- The bind timer is remembered when it is armed. -/
theorem TimersOk.scheduleBindRetry (h : TimersOk s) : TimersOk (s.scheduleBindRetry cfg) := by
  unfold State.scheduleBindRetry
  split_ifs
  · exact h
  cases hbind : s.bindRetryTimerId with
  | some id => exact h
  | none =>
    have hnone (id : ℕ) (d : ℤ) : s.timers.lookup id ≠ some ⟨.bindRetry, d⟩ := by
      intro hd
      have := (h.bindRetry id).mp ⟨d, hd⟩
      rw [hbind] at this
      cases this
    exact ⟨h.fresh_setTimeout _ _,
      fun id => (exists_lookup_setTimeout h (by simp) id).trans (h.wsRetry id),
      exists_lookup_setTimeout_self hnone, fun rid p hp => h.pending_setTimeout _ _ hp⟩

/-- A new socket, or the timer for the next attempt. -/
theorem TimersOk.connectWs (h : TimersOk s) (socketThrows : Bool) :
    TimersOk (s.connectWs cfg socketThrows) := by
  unfold State.connectWs
  split_ifs
  · exact h
  · exact TimersOk.scheduleWsReconnect (h.congr rfl)
  · exact h.congr rfl

/-- Arming the timer of a request and entering the request. -/
theorem TimersOk.openRequest (h : TimersOk s) (id : Option Value) (now : TimeValue) :
    TimersOk (s.openRequest impl cfg id now).2 := by
  have h' : TimersOk (s.nextRequestId impl now).2 := h.congr rfl
  refine ⟨h'.fresh_setTimeout _ _,
    fun id => (exists_lookup_setTimeout h' (by simp) id).trans (h'.wsRetry id),
    fun id => (exists_lookup_setTimeout h' (by simp) id).trans (h'.bindRetry id), ?_⟩
  intro rid p hp
  simp only [State.openRequest, Table.lookup_insert_eq] at hp
  split_ifs at hp with hrid
  · cases hp
    refine ⟨Nat.lt_succ_self _, fun t ht => ?_⟩
    rw [State.openRequest, lookup_setTimeout] at ht
    obtain rfl := Option.some.inj ((if_pos rfl).symm.trans ht)
    exact congrArg (TimerCallback.request · id) hrid.symm
  · exact h'.pending_setTimeout _ _ hp

/-- Forwarding a command keeps the timers and the fields in agreement. -/
theorem TimersOk.forwardCommand (h : TimersOk s) (rid : String) (frame : Value)
    (onThrows callThrows : Bool) :
    TimersOk (s.forwardCommand cfg rid frame onThrows callThrows) := by
  unfold State.forwardCommand
  cases s.commBus with
  | none =>
    cases hp : s.pending.lookup rid with
    | none => exact h
    | some p => exact (h.take hp).emits (wsSend_emits _ _ _)
  | some bus =>
    exact (h.emits (bindCommBus_emits cfg bus onThrows s)).emits
      (call_emits (fun _ => True) cfg bus rid frame true callThrows _)

/-- So does a command of the host, which arms the timer of its request. -/
theorem TimersOk.onHostCommand (h : TimersOk s) {id : Option Value} {frame : Value}
    {now : TimeValue} {onThrows callThrows : Bool}
    (hstep : s.onHostCommand impl cfg id frame now onThrows callThrows = some t) : TimersOk t := by
  unfold State.onHostCommand at hstep
  dsimp only at hstep
  split_ifs at hstep
  · cases hstep
    have h' : TimersOk { s with nextRef := s.nextRef + 1, copies := s.copies ++ [id] } :=
      h.congr rfl
    exact h'.emits (wsSend_emits _ _ _)
  · obtain ⟨dedup, _, rfl⟩ := Option.map_eq_some_iff.mp hstep
    have h' : TimersOk { s with nextRef := s.nextRef + 1, dedup } := h.congr rfl
    exact (h'.openRequest id now).forwardCommand _ _ _ _

/-- So does an event of the host. -/
theorem TimersOk.onHostEvent (h : TimersOk s) (frame : Value) (now : TimeValue)
    (callThrows : Bool) : TimersOk (s.onHostEvent impl cfg frame now callThrows) := by
  unfold State.onHostEvent
  cases s.commBus with
  | none => exact h
  | some bus =>
    have h' : TimersOk (s.nextRequestId impl now).2 := h.congr rfl
    exact h'.emits (call_emits (fun _ => True) cfg bus _ frame false callThrows _)

/-- So does any message of the host. -/
theorem TimersOk.onHostMessage (h : TimersOk s) {data : Option Text} {now : TimeValue}
    {onThrows callThrows : Bool}
    (hstep : s.onHostMessage impl cfg data now onThrows callThrows = some t) : TimersOk t := by
  unfold State.onHostMessage at hstep
  split at hstep
  · cases hstep
    exact h
  · split at hstep
    · cases hstep
      exact h.emits (wsSend_emits _ _ _)
    · exact h.onHostCommand hstep
    · cases hstep
      exact h.onHostEvent _ _ _
    · cases hstep
      exact h

/-- So does a message of the module, which clears the timer of the request it answers. -/
theorem TimersOk.onWasmMessage (h : TimersOk s) (raw : Text) :
    TimersOk (s.onWasmMessage impl raw) := by
  unfold State.onWasmMessage
  split
  · exact h
  · split
    · split
      · exact h
      · next p hp =>
        split
        · exact (h.take hp).congr rfl
        · exact (h.take hp).emits (wsSend_emits _ _ _)
    · exact h.emits (wsSend_emits _ _ _)
    · exact h

/-- So does the rejection of a call. -/
theorem TimersOk.onCallRejected (h : TimersOk s) (c : BusCall) (reason : Rejection) :
    TimersOk (s.onCallRejected impl c reason) := by
  unfold State.onCallRejected
  split_ifs
  · split
    · exact h
    · next p hp =>
      split
      · exact (h.take hp).congr rfl
      · exact (h.take hp).emits (wsSend_emits _ _ _)
  · exact h

/-- Disarming the timers of the pending requests, one after the other. -/
theorem TimersOk.rejectAll (h : TimersOk s) {es : List (Sigma fun _ : String => PendingRequest)}
    (hes : ∀ e ∈ es, s.pending.lookup e.1 = some e.2) : TimersOk (s.rejectAll es) := by
  induction es generalizing s with
  | nil => exact h
  | cons e es ih =>
    refine ih ((h.clearPending (hes e List.mem_cons_self)).emits (wsSend_emits _ _ _)) ?_
    exact fun e' he' => hes e' (List.mem_cons_of_mem _ he')

/-- The bind timer is forgotten when it is cleared. -/
theorem TimersOk.cleanupBindRetry (h : TimersOk s) : TimersOk s.cleanupBindRetry := by
  unfold State.cleanupBindRetry State.clearTimeout?
  cases hid : s.bindRetryTimerId with
  | none => exact h.congr (by simp only [alarms, hid, Option.elim_none])
  | some id => exact h.forgetBindRetry hid

/-- Closing a socket concerns no timer. -/
theorem TimersOk.close (h : TimersOk s) (i : ℕ) : TimersOk (s.close i) := by
  unfold State.close
  split
  · exact h.congr rfl
  · exact h.congr rfl
  · exact h

/-- The reconnect timer is forgotten when it is cleared. -/
theorem TimersOk.cleanupWs (h : TimersOk s) : TimersOk s.cleanupWs := by
  have hforget : TimersOk { s.clearTimeout? s.wsRetryTimerId with wsRetryTimerId := none } := by
    unfold State.clearTimeout?
    cases hid : s.wsRetryTimerId with
    | none => exact h.congr (by simp only [alarms, hid, Option.elim_none])
    | some id => exact h.forgetWsRetry hid
  have hclose (u : State) (hu : TimersOk u) : TimersOk { u.ws.elim u u.close with ws := none } := by
    cases u.ws with
    | none => exact hu.congr rfl
    | some i => exact (hu.close i).congr rfl
  exact hclose _ hforget

/-- When all is refused no request has a timer. -/
theorem TimersOk.rejectPending (h : TimersOk s) : TimersOk s.rejectPending := by
  refine (h.rejectAll fun e he => ?_).withPending ∅ fun rid p hp => by cases hp
  exact Table.lookup_eq_some_iff.mpr (List.mem_reverse.mp he)

/-- Destroying the relay keeps the timers and the fields in agreement. -/
theorem TimersOk.destroy (h : TimersOk s) (offThrows unregisterThrows : Bool) :
    TimersOk (s.destroy impl cfg offThrows unregisterThrows) := by
  have hforget (u : State) (hu : TimersOk u) (handler : Option ℕ) :
      TimersOk { u with commBus := none, commBusBound := false, onWasmHandler := handler } :=
    hu.congr rfl
  unfold State.destroy
  cases impl with
  | typescript =>
    have hreject := h.rejectPending.cleanupBindRetry
    dsimp only
    split
    · exact (hforget _ hreject _).cleanupWs
    · next bus _ =>
      split
      · exact hreject.emits (tryOff_emits (fun _ => False) cfg bus offThrows _)
      · have hoff := hreject.emits (tryOff_emits (fun _ => False) cfg bus offThrows _)
        exact (hforget _ (hoff.emits (unregister_emits (fun _ => False) bus _)) _).cleanupWs
  | rescript =>
    have hunhook : TimersOk (s.rejectPending.unhook cfg offThrows unregisterThrows) :=
      h.rejectPending.emits (unhook_emits (fun _ => False) cfg offThrows unregisterThrows _)
    exact (hforget _ hunhook none).cleanupBindRetry.cleanupWs

/-- The end of a socket keeps the timers and the fields in agreement. -/
theorem TimersOk.onLost (h : TimersOk s) : TimersOk (s.onLost cfg) :=
  TimersOk.scheduleWsReconnect (s := { s with ws := none }) (h.congr rfl)

/-- A change of one socket concerns no timer. -/
theorem TimersOk.setSocket (h : TimersOk s) (i : ℕ) (f : Socket → Socket) :
    TimersOk (s.setSocket i f) :=
  h.congr rfl

/-- Initialising keeps the timers and the fields in agreement. -/
theorem TimersOk.init (h : TimersOk s) (socketThrows onThrows : Bool) :
    TimersOk (s.init impl cfg socketThrows onThrows) := by
  have hbound (u : State) (hu : TimersOk u) (bus : ℕ) :
      TimersOk ((u.bindCommBus cfg bus onThrows).scheduleBindRetry cfg) :=
    (hu.emits (bindCommBus_emits cfg bus onThrows u)).scheduleBindRetry
  refine hbound _ ?_ _
  have hconnect : TimersOk (s.connectWs cfg socketThrows) := h.connectWs socketThrows
  cases impl <;> exact hconnect.congr rfl

/-- A timer that fires is disarmed, and forgotten by the field that remembers it. -/
theorem TimersOk.onTimer (h : TimersOk s) {id : ℕ} {timer : Timer}
    (ht : s.timers.lookup id = some timer) (onThrows socketThrows : Bool) :
    TimersOk ((s.clearTimeout id).onTimer cfg timer.callback onThrows socketThrows) := by
  obtain ⟨callback, delay⟩ := timer
  cases callback with
  | bindRetry =>
    have hforget := h.forgetBindRetry ((h.bindRetry id).mp ⟨delay, ht⟩)
    exact (hforget.emits (rebind_emits cfg onThrows _)).scheduleBindRetry
  | wsRetry =>
    exact (h.forgetWsRetry ((h.wsRetry id).mp ⟨delay, ht⟩)).connectWs socketThrows
  | request rid cmdId =>
    have hclear : TimersOk (s.clearTimeout id) := by
      refine h.clearTimeout fun t ht' => ?_
      rw [ht] at ht'
      cases ht'
      exact ⟨rid, cmdId, rfl⟩
    refine (hclear.withPending (s.pending.erase rid) fun rid' p hp => ?_).emits (wsSend_emits _ _ _)
    rw [Table.lookup_erase_eq] at hp
    split_ifs at hp
    exact hp

/-- Every step keeps timers and fields in agreement. -/
theorem timersOk_step (h : TimersOk s) (hstep : step impl cfg s e = some t) : TimersOk t := by
  cases e <;> simp only [step] at hstep
  case init =>
    cases hstep
    exact h.init _ _
  case destroy =>
    cases hstep
    exact h.destroy _ _
  case continuation bus onThrows =>
    split_ifs at hstep
    cases hstep
    exact h.emits (bindCommBus_emits cfg bus onThrows s)
  case timer id onThrows socketThrows =>
    obtain ⟨timer, ht, rfl⟩ := Option.map_eq_some_iff.mp hstep
    exact h.onTimer ht onThrows socketThrows
  case socketOpen i now =>
    split_ifs at hstep
    cases hstep
    exact ((h.setSocket i _).emits (wsSend_emits _ .hello _)).emits (wsSend_emits _ .ready _)
  case socketMessage =>
    split_ifs at hstep
    exact h.onHostMessage hstep
  case socketError | socketClose =>
    split_ifs at hstep
    cases hstep
    exact (h.setSocket _ _).onLost
  case socketDrop =>
    split_ifs at hstep
    cases hstep
    exact h.setSocket _ _
  case wasmMessage raw =>
    split_ifs at hstep
    cases hstep
    exact TimersOk.onWasmMessage (s := { s with heard := s.heard ++ [raw] })
      (h.congr rfl) raw
  case callRejected n reason =>
    obtain ⟨c, _, rfl⟩ := Option.map_eq_some_iff.mp hstep
    exact TimersOk.onCallRejected (s := { s with calls := s.calls.erase n })
      (h.congr rfl) c reason

/-- In every reachable state timers and fields agree. -/
theorem timersOk_run {es : List RelayEvent}
    (hrun : Transition.run (step impl cfg) (make impl cfg) es = some s) : TimersOk s :=
  Transition.run_invariant (fun _ _ _ h hs => timersOk_step h hs) hrun timersOk_make

end State

end InfinityBridge.Relay
