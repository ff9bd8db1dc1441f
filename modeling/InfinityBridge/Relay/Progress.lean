import InfinityBridge.Library.Execution
import InfinityBridge.Relay.Lifecycle
import InfinityBridge.Relay.Output
import InfinityBridge.Relay.Traffic

/-!
# What becomes of a relay

A relay that goes on for ever depends on its timers, and on a socket that has stopped being
usable to deliver one of its last events. If the timers that are armed again and again fire,
every command it has accepted is answered in the end; and if lost sockets say so too, the
relay is back on a socket again and again, or tries in vain to make one.
-/

namespace InfinityBridge.Relay.State

open Transition (Execution)

variable {impl : Impl} {cfg : ResolvedConfig} {s t : State} {e : RelayEvent}

/-- A timer of the kind fires. -/
def Fires (kind : TimerCallback → Prop) (s : State) (e : RelayEvent) : Prop :=
  ∃ id onThrows socketThrows timer, e = .timer id onThrows socketThrows ∧
    s.timers.lookup id = some timer ∧ kind timer.callback

/-- An armed timer can fire. -/
theorem enabled_of_armed {kind : TimerCallback → Prop} {id : ℕ} {timer : Timer}
    (harmed : s.timers.lookup id = some timer) (hkind : kind timer.callback) :
    Transition.Enabled (step impl cfg) (Fires kind) s := by
  have hstep : ∃ t, step impl cfg s (.timer id false false) = some t := by
    simp only [step, harmed, Option.map_some, Option.some.injEq, exists_eq']
  obtain ⟨t, hstep⟩ := hstep
  exact ⟨_, t, ⟨id, false, false, timer, rfl, harmed, hkind⟩, hstep⟩

/-- The callback of a request timer. -/
def IsRequest (rid : String) (callback : TimerCallback) : Prop :=
  ∃ id, callback = .request rid id

/-! ### Commands -/

/-- Acks are never taken back. -/
theorem answers_le_step (rid : String) (hstep : step impl cfg s e = some t) :
    answers rid s.sent ≤ answers rid t.sent := by
  obtain ⟨fs, hsent, -⟩ := writes_step hstep
  rw [answers, answers, hsent, List.countP_append]
  exact Nat.le_add_right _ _

/-- A request timer that fires takes its request out of `pending`. -/
theorem pending_of_fires {rid : String} (hfires : Fires (IsRequest rid) s e)
    (hstep : step impl cfg s e = some t) : t.pending.lookup rid = none := by
  obtain ⟨tid, onThrows, socketThrows, ⟨callback, delay⟩, rfl, harmed, id, rfl⟩ := hfires
  simp only [step, harmed, Option.map_some, Option.some.injEq] at hstep
  rw [← hstep]
  exact AList.lookup_erase _ _

section Commands

variable {x : Execution (step impl cfg) (make impl cfg)} {n : ℕ} {rid : String} {id : Option Value}

/-- Every accepted command is pending, or answered, and never both. -/
theorem answered_execution (hanswerable : ∀ n, Answerable impl (x.state n) (x.event n))
    (hbound : ∀ n, (x.state n).requests < 2 ^ 31) (haccepted : (rid, id) ∈ (x.state n).accepted) :
    answers rid (x.state n).sent + (if ((x.state n).pending.lookup rid).isSome then 1 else 0) =
      1 := by
  have hcount := (accounted_run (x.run_eventsTo n) (hbound n)).answered rid id haccepted
  have hlost : (x.state n).lost = [] := by
    refine x.persists (P := fun s => s.lost = []) (fun m _ hm => ?_) (by rw [x.first]; rfl) n
      n.zero_le
    exact (lost_of_answerable (timersOk_run (x.run_eventsTo m)) (hanswerable m) (x.next m)).trans hm
  rwa [hlost, List.count_nil, Nat.add_zero] at hcount

/-- If the request timers fire, then in every execution with fewer than `2 ^ 31` requests, whose
events can be answered, every command that a relay has accepted is answered, once and for
all. -/
theorem commands_settle (hfire : ∀ rid, x.Fair (Fires (IsRequest rid)))
    (hanswerable : ∀ n, Answerable impl (x.state n) (x.event n))
    (hbound : ∀ n, (x.state n).requests < 2 ^ 31) (haccepted : (rid, id) ∈ (x.state n).accepted) :
    ∃ m ≥ n, ∀ k ≥ m, answers rid (x.state k).sent = 1 ∧
      (x.state k).pending.lookup rid = none := by
  have hrecorded : ∀ m ≥ n, (rid, id) ∈ (x.state m).accepted :=
    x.persists (P := fun s => (rid, id) ∈ s.accepted)
      (fun m _ hm => accepted_subset (x.next m) hm) haccepted
  have hcount (m : ℕ) (hm : m ≥ n) := answered_execution hanswerable hbound (hrecorded m hm)
  have hgone : ∃ m ≥ n, (x.state m).pending.lookup rid = none := by
    by_contra hpending
    push Not at hpending
    -- as long as the request is pending its timer is armed
    obtain ⟨m, hm, hfires⟩ := (hfire rid).taken fun m hm => by
      obtain ⟨p, hp⟩ := Option.ne_none_iff_exists'.mp (hpending m hm)
      have hbooks := accounted_run (x.run_eventsTo m) (hbound m)
      obtain ⟨d, harmed⟩ := (hbooks.armed rid p.cmdId p.timerId).mpr hp
      exact enabled_of_armed harmed ⟨p.cmdId, rfl⟩
    exact hpending (m + 1) (hm.trans m.le_succ) (pending_of_fires hfires (x.next m))
  obtain ⟨m, hm, hnone⟩ := hgone
  have hone := hcount m hm
  rw [hnone] at hone
  have hanswered : ∀ k ≥ m, 1 ≤ answers rid (x.state k).sent :=
    x.persists (P := fun s => 1 ≤ answers rid s.sent)
      (fun k _ hk => hk.trans (answers_le_step rid (x.next k))) (by simp at hone; omega)
  refine ⟨m, hm, fun k hk => ?_⟩
  have htotal := hcount k (hm.trans hk)
  have hleast := hanswered k hk
  cases hlookup : (x.state k).pending.lookup rid with
  | none =>
    rw [hlookup] at htotal
    exact ⟨by simpa using htotal, rfl⟩
  | some p =>
    rw [hlookup] at htotal
    simp only [Option.isSome_some, if_true] at htotal
    omega

end Commands

/-- The command is forwarded, and its timer fires. -/
def timedOut : List RelayEvent := forwarding ++ [.timer 1 false false]

/-- The run exists. -/
theorem timedOut_isSome : (Transition.run (step .rescript defaultConfig)
    (make .rescript defaultConfig) timedOut).isSome = true := by rfl

/-- The relay of the example, whose CommBus says again and again that it is registered. -/
theorem exists_timedOut :
    ∃ x : Execution (step .rescript defaultConfig) (make .rescript defaultConfig),
      (∀ rid, x.Fair (Fires (IsRequest rid))) ∧
      (∀ n, Answerable .rescript (x.state n) (x.event n)) ∧
      (∀ n, (x.state n).requests < 2 ^ 31) ∧
      ("0-1", some (.str "a")) ∈ (x.state 3).accepted := by
  let s := (Transition.run (step .rescript defaultConfig) (make .rescript defaultConfig)
    timedOut).get timedOut_isSome
  have hrun : Transition.run (step .rescript defaultConfig) (make .rescript defaultConfig)
      timedOut = some s := (Option.some_get _).symm
  have hidle : step .rescript defaultConfig s (.continuation 0 false) = some s := rfl
  obtain ⟨x, hrest, hevents, hevent⟩ := Transition.Execution.exists_idling hrun hidle
  refine ⟨x, fun rid => ?_, fun n => ?_, fun n => ?_, ?_⟩
  · refine Transition.Execution.fair_of_not_enabled (n := timedOut.length) fun m hm => ?_
    rintro ⟨e, t, ⟨id, onThrows, socketThrows, timer, -, harmed, -⟩, -⟩
    rw [hrest m hm] at harmed
    cases harmed
  · have hmem := hevents n
    generalize x.event n = e at hmem
    simp only [timedOut, forwarding, List.cons_append, List.nil_append, List.mem_cons,
      List.not_mem_nil, or_false] at hmem
    rcases hmem with rfl | rfl | rfl | rfl | rfl <;> trivial
  · have hend : (x.state (max n timedOut.length)).requests < 2 ^ 31 := by
      rw [hrest _ (le_max_right _ _)]
      exact lt_of_eq_of_lt (show _ = 1 from rfl) (by norm_num)
    have hgrows : (x.state n).requests ≤ (x.state (max n timedOut.length)).requests := by
      refine x.persists (P := fun s => (x.state n).requests ≤ s.requests) (n := n)
        (fun m _ hm => ?_) le_rfl _ (le_max_left _ _)
      exact hm.trans (losesUnless_step (timersOk_run (x.run_eventsTo m)) (x.next m)).requests
    exact hgrows.trans_lt hend
  · have hstart : Transition.run (step .rescript defaultConfig) (make .rescript defaultConfig)
        (timedOut.take 3) = some (x.state 3) := by
      rw [← Transition.Execution.eventsTo_of_append hevent (by decide)]
      exact x.run_eventsTo 3
    rw [← Option.some.inj hstart]
    exact List.mem_singleton.mpr rfl

/-- Its command is answered, by the relay itself. -/
theorem commands_settle_timedOut :
    ∃ x : Execution (step .rescript defaultConfig) (make .rescript defaultConfig),
      ("0-1", some (.str "a")) ∈ (x.state 3).accepted ∧
      ∃ m ≥ 3, ∀ k ≥ m, answers "0-1" (x.state k).sent = 1 ∧
        (x.state k).pending.lookup "0-1" = none := by
  obtain ⟨x, hfire, hanswerable, hbound, haccepted⟩ := exists_timedOut
  exact ⟨x, haccepted, commands_settle hfire hanswerable hbound haccepted⟩

/-! ### Sockets -/

/-- What a step can make of the socket: it stays, and is not closed by the relay, or it is
forgotten, or there is one that is connecting or open. -/
def Reconnected (s t : State) : Prop :=
  (t.ws = s.ws ∧ ∀ i, (t.sockets i).readyState = .closing → (s.sockets i).readyState = .closing) ∨
    t.ws = none ∨ t.alreadyActive = true

/-- The socket stays as it is. -/
theorem SameSocket.reconnected (h : SameSocket s t) : Reconnected s t := by
  refine .inl ⟨h.ws, fun i => ?_⟩
  rw [h.sockets]
  exact id

/-- What follows the making of a socket leaves it alone. -/
theorem Reconnected.same {u : State} (h : Reconnected s t) (hsame : SameSocket t u) :
    Reconnected s u := by
  simp only [Reconnected, alreadyActive, hsame.ws, hsame.sockets] at h ⊢
  exact h

/-- `connectWs` ends with a socket that is connecting or open, unless the constructor throws. -/
theorem reconnected_connectWs (cfg : ResolvedConfig) (socketThrows : Bool) (s : State) :
    if socketThrows then Reconnected s (s.connectWs cfg socketThrows)
    else (s.connectWs cfg socketThrows).alreadyActive = true := by
  unfold connectWs
  cases hactive : s.alreadyActive with
  | true =>
    simp only [if_true]
    split_ifs
    · exact (SameSocket.refl s).reconnected
    · exact hactive
  | false =>
    cases socketThrows with
    | true =>
      simp only [Bool.false_eq_true, if_false, if_true]
      exact .inr (.inl (sameSocket_scheduleWsReconnect (s := { s with ws := none })).ws)
    | false => simp [alreadyActive]

/-- Whether the constructor throws or not. -/
theorem connectWs_reconnected (cfg : ResolvedConfig) (socketThrows : Bool) (s : State) :
    Reconnected s (s.connectWs cfg socketThrows) := by
  have h := reconnected_connectWs cfg socketThrows s
  cases socketThrows with
  | true => exact h
  | false => exact .inr (.inr h)

/-- Forgetting a lost socket. -/
theorem onLost_ws (cfg : ResolvedConfig) (s : State) : (s.onLost cfg).ws = none :=
  (sameSocket_scheduleWsReconnect (s := { s with ws := none })).ws

/-- Every step but `destroy`. -/
theorem reconnected_step (hdestroy : ∀ off unregister, e ≠ .destroy off unregister)
    (hstep : step impl cfg s e = some t) : Reconnected s t := by
  cases e <;> simp only [step] at hstep
  case init socketThrows onThrows =>
    cases hstep
    exact (connectWs_reconnected cfg socketThrows s).same (sameSocket_init _ _)
  case destroy off unregister => exact absurd rfl (hdestroy off unregister)
  case continuation bus onThrows =>
    split_ifs at hstep
    cases hstep
    have hserves := serves_bindCommBus cfg bus onThrows s
    refine .inl ⟨hserves.ws, fun i => ?_⟩
    rw [hserves.sockets]
    exact id
  case timer id onThrows socketThrows =>
    obtain ⟨⟨callback, delay⟩, _, rfl⟩ := Option.map_eq_some_iff.mp hstep
    cases callback with
    | request rid cmdId =>
      refine .inl ⟨rfl, fun i h => h⟩
    | bindRetry =>
      have hserves := serves_rebind cfg onThrows { s.clearTimeout id with bindRetryTimerId := none }
      have hbind : Reconnected s
          ({ s.clearTimeout id with bindRetryTimerId := none }.rebind cfg onThrows) := by
        refine .inl ⟨hserves.ws, fun i => ?_⟩
        rw [hserves.sockets]
        exact fun h => h
      exact hbind.same sameSocket_scheduleBindRetry
    | wsRetry =>
      exact connectWs_reconnected cfg socketThrows
        { s.clearTimeout id with wsRetryTimerId := none }
  case socketOpen i now =>
    split_ifs at hstep
    cases hstep
    refine Reconnected.same ?_ (sameSocket_onOpen now)
    refine .inl ⟨rfl, fun j => ?_⟩
    by_cases hj : j = i
    · subst hj
      simp only [setSocket, Function.update_self]
      split_ifs
      · exact fun h => by cases h
      · exact fun h => h
    · simp only [setSocket, Function.update_of_ne hj]
      exact fun h => h
  case socketMessage =>
    split_ifs at hstep
    exact (sameSocket_onHostMessage hstep).reconnected
  case socketError i | socketClose i =>
    split_ifs at hstep
    cases hstep
    exact .inr (.inl (onLost_ws cfg _))
  case socketDrop i =>
    split_ifs at hstep
    cases hstep
    refine .inl ⟨rfl, fun j => ?_⟩
    by_cases hj : j = i
    · subst hj
      simp only [setSocket, Function.update_self]
      exact fun h => by cases h
    · simp only [setSocket, Function.update_of_ne hj]
      exact fun h => h
  case wasmMessage raw =>
    split_ifs at hstep
    cases hstep
    exact (sameSocket_onWasmMessage (s := { s with heard := s.heard ++ [raw] }) raw).reconnected
  case callRejected n reason =>
    obtain ⟨c, _, rfl⟩ := Option.map_eq_some_iff.mp hstep
    have htaken : SameSocket { s with calls := s.calls.erase n }
        ({ s with calls := s.calls.erase n }.onCallRejected impl c reason) :=
      sameSocket_onCallRejected c reason
    exact htaken.reconnected

/-- The socket in `ws` is the newest one, after every step. -/
theorem newest_step (h : s.Newest) (hstep : step impl cfg s e = some t) : t.Newest := by
  cases he : isArrival e with
  | false => exact (calm_step he hstep).newest h
  | true =>
    cases e with
    | wasmMessage raw => exact (calm_wasmMessage hstep).newest h
    | socketMessage i data now onThrows callThrows =>
      cases data with
      | some frame => exact (newCalls_socketMessage hstep).2.1 h
      | none =>
        simp only [step, onHostMessage, Option.bind_none] at hstep
        split_ifs at hstep
        cases hstep
        exact h
    | _ => cases he

/-- The socket in `ws` has been made, and the relay has not closed it. -/
structure Usable (s : State) : Prop where
  newest : s.Newest
  unclosed : ∀ i, s.ws = some i → (s.sockets i).readyState ≠ .closing

/-- It stays so until the relay is destroyed. -/
theorem Usable.step (h : Usable s) (hdestroy : ∀ off unregister, e ≠ .destroy off unregister)
    (hstep : State.step impl cfg s e = some t) : Usable t := by
  refine ⟨newest_step h.newest hstep, fun i hws hclosing => ?_⟩
  rcases reconnected_step hdestroy hstep with ⟨hsame, hsockets⟩ | hnone | hactive
  · exact h.unclosed i (hsame ▸ hws) (hsockets i hclosing)
  · rw [hws] at hnone
    cases hnone
  · obtain ⟨j, hj, hlive⟩ := alreadyActive_iff.mp hactive
    rw [hws, Option.some.injEq] at hj
    subst hj
    rcases hlive with h | h <;> rw [hclosing] at h <;> cases h

/-- A usable socket that is neither connecting nor open is closed. -/
theorem closed_of_not_live {k : Socket} (hlive : ¬k.Live) (hclosing : k.readyState ≠ .closing) :
    k.readyState = .closed := by
  rw [Socket.Live, not_or] at hlive
  cases hstate : k.readyState <;> simp_all

/-- `init` leaves a new relay with a usable socket, or none. -/
theorem usable_init (socketThrows onThrows : Bool)
    (hinit : step impl cfg (make impl cfg) (.init socketThrows onThrows) = some t) : Usable t := by
  have hmake : Usable (make impl cfg) := by
    constructor
    · intro i hws
      cases hws
    · intro i hws
      cases hws
  exact hmake.step (fun _ _ h => by cases h) hinit

/-- An attempt to make a socket has failed. -/
def FailsToConnect (s : State) (e : RelayEvent) : Prop :=
  ∃ id onThrows timer, e = .timer id onThrows true ∧ s.timers.lookup id = some timer ∧
    timer.callback = .wsRetry

/-- When the reconnect timer fires the relay comes to a socket that is connecting or open, or fails
to make one. -/
theorem active_of_fires (hfires : Fires (· = .wsRetry) s e) (hstep : step impl cfg s e = some t) :
    t.alreadyActive = true ∨ FailsToConnect s e := by
  obtain ⟨id, onThrows, socketThrows, ⟨callback, delay⟩, rfl, harmed, rfl⟩ := hfires
  cases socketThrows with
  | true => exact .inr ⟨id, onThrows, _, rfl, harmed, rfl⟩
  | false =>
    simp only [step, harmed, Option.map_some, Option.some.injEq] at hstep
    rw [← hstep]
    exact .inl (reconnected_connectWs cfg false _)

/-- A socket that has delivered neither of its last events delivers one of them. -/
def Ends (i : ℕ) (s : State) (e : RelayEvent) : Prop :=
  (e = .socketError i ∨ e = .socketClose i) ∧ ¬(s.sockets i).Ended

section Sockets

variable {x : Execution (step impl cfg) (make impl cfg)}

/-- After `init`, and without `destroy`, a relay is attended and its socket usable. -/
theorem attended_execution {socketThrows onThrows : Bool}
    (hinit : x.event 0 = .init socketThrows onThrows)
    (hdestroy : ∀ n off unregister, x.event n ≠ .destroy off unregister) :
    ∀ n ≥ 1, Attended (x.state n) ∧ Usable (x.state n) := by
  have hstep := x.next 0
  rw [x.first, hinit] at hstep
  refine x.persists (P := fun s => Attended s ∧ Usable s) (fun n _ h => ?_) ⟨?_, ?_⟩
  · exact ⟨h.1.step (hdestroy n) (x.next n), h.2.step (hdestroy n) (x.next n)⟩
  · rw [← Option.some.inj hstep]
    exact attended_init _ _
  · exact usable_init _ _ hstep

/-- If the reconnect timer fires when it is armed again and again, and every socket that has
stopped being usable and has delivered neither an error nor a close event delivers one of
them in the end, then from `init` on and without `destroy` a relay again and again has a
socket that is connecting or open, or fails to make one. -/
theorem reconnects_again {socketThrows onThrows : Bool}
    (hinit : x.event 0 = .init socketThrows onThrows)
    (hdestroy : ∀ n off unregister, x.event n ≠ .destroy off unregister)
    (hfire : x.Fair (Fires (· = .wsRetry)))
    (hends : ∀ i, x.Fair (Ends i)) (n : ℕ) :
    ∃ m ≥ n, (x.state m).alreadyActive = true ∨ FailsToConnect (x.state m) (x.event m) := by
  by_contra hnever
  push Not at hnever
  have hattended := attended_execution hinit hdestroy
  have hinactive (m : ℕ) (hm : m ≥ max n 1) : (x.state m).alreadyActive ≠ true :=
    (hnever m ((le_max_left _ _).trans hm)).1
  -- the timer does not fire any more, so that at last it is not armed any more
  obtain ⟨k, hk, hidle⟩ := hfire.not_enabled_of_not_taken (n := max n 1) fun m hm hfires => by
    rcases active_of_fires hfires (x.next m) with hactive | hfails
    · exact hinactive (m + 1) (hm.trans m.le_succ) hactive
    · exact (hnever m ((le_max_left _ _).trans hm)).2 hfails
  have hconnected (m : ℕ) (hm : m ≥ k) : (x.state m).ws ≠ none := by
    intro hnone
    have hattends := (hattended m ((le_max_right _ _).trans (hk.trans hm))).1
    obtain ⟨id, hid⟩ := Option.isSome_iff_exists.mp (hattends.reconnects.retrying hnone)
    obtain ⟨delay, harmed⟩ := ((timersOk_run (x.run_eventsTo m)).wsRetry id).mpr hid
    exact hidle m hm (enabled_of_armed harmed rfl)
  obtain ⟨i, hi⟩ := Option.ne_none_iff_exists'.mp (hconnected k le_rfl)
  have hstays : ∀ m ≥ k, (x.state m).ws = some i := by
    refine x.persists (P := fun s => s.ws = some i) (fun m hm hws => ?_) hi
    rcases reconnected_step (hdestroy m) (x.next m) with ⟨hsame, -⟩ | hnone | hactive
    · exact hsame.trans hws
    · exact absurd hnone (hconnected _ (hm.trans m.le_succ))
    · exact absurd hactive (hinactive _ ((hk.trans hm).trans m.le_succ))
  -- so the socket stays, unusable, with both of its last events outstanding
  obtain ⟨m, hm, hended⟩ := (hends i).taken fun m hm => by
    obtain ⟨hattends, husable⟩ := hattended m ((le_max_right _ _).trans (hk.trans hm))
    have hmade : i < (x.state m).nextSocket := by
      have := husable.newest i (hstays m hm)
      omega
    have hclosed : ((x.state m).sockets i).readyState = .closed := by
      have hlive : ¬((x.state m).sockets i).Live := fun hlive =>
        hinactive m (hk.trans hm) (alreadyActive_iff.mpr ⟨i, hstays m hm, hlive⟩)
      exact closed_of_not_live hlive (husable.unclosed i (hstays m hm))
    have hnot : ¬((x.state m).sockets i).Ended := hattends.reconnects.current i (hstays m hm)
    have herrored : ((x.state m).sockets i).errored = false := by
      rw [← Bool.not_eq_true]
      exact fun h => hnot (.inl h)
    have hstep : ∃ t, step impl cfg (x.state m) (.socketError i) = some t := by
      simp [step, hmade, hclosed, herrored]
    obtain ⟨t, hstep⟩ := hstep
    exact ⟨.socketError i, t, ⟨.inl rfl, hnot⟩, hstep⟩
  refine hconnected (m + 1) (hm.trans m.le_succ) ?_
  have hstep := x.next m
  rcases hended.1 with he | he
  all_goals
    rw [he] at hstep
    simp only [step] at hstep
    split_ifs at hstep
    rw [← Option.some.inj hstep]
    exact onLost_ws cfg _

end Sockets

/-- The first socket is lost and delivers an error and no close event, and the relay makes
another. -/
def lostOnce : List RelayEvent :=
  [.init false false, .socketDrop 0, .socketError 0, .timer 1 false false]

/-- The run exists. -/
theorem lostOnce_isSome : (Transition.run (step .typescript defaultConfig)
    (make .typescript defaultConfig) lostOnce).isSome = true := by rfl

/-- The relay of the example, whose CommBus says again and again that it is registered. -/
theorem exists_lostOnce :
    ∃ x : Execution (step .typescript defaultConfig) (make .typescript defaultConfig),
      x.event 0 = .init false false ∧
      (∀ n off unregister, x.event n ≠ .destroy off unregister) ∧
      x.Fair (Fires (· = .wsRetry)) ∧
      (∀ n i, x.event n ≠ .socketClose i) ∧ ∀ i, x.Fair (Ends i) := by
  let s := (Transition.run (step .typescript defaultConfig) (make .typescript defaultConfig)
    lostOnce).get lostOnce_isSome
  have hrun : Transition.run (step .typescript defaultConfig) (make .typescript defaultConfig)
      lostOnce = some s := (Option.some_get _).symm
  have hidle : step .typescript defaultConfig s (.continuation 0 false) = some s := rfl
  obtain ⟨x, hrest, hevents, hevent⟩ := Transition.Execution.exists_idling hrun hidle
  refine ⟨x, hevent 0 (by decide), fun n off unregister he => ?_, ?_, fun n i he => ?_,
    fun i => ?_⟩
  · have hmem := hevents n
    rw [he] at hmem
    simp [lostOnce] at hmem
  · refine Transition.Execution.fair_of_not_enabled (n := lostOnce.length) fun m hm => ?_
    rintro ⟨e, t, ⟨id, onThrows, socketThrows, timer, -, harmed, -⟩, -⟩
    rw [hrest m hm] at harmed
    cases harmed
  · have hmem := hevents n
    rw [he] at hmem
    simp [lostOnce] at hmem
  · -- the first socket has delivered its error, and the second one is connecting
    refine Transition.Execution.fair_of_not_enabled (n := lostOnce.length) fun m hm => ?_
    rintro ⟨e, t, ⟨he, hnot⟩, hstep⟩
    rw [hrest m hm] at hstep hnot
    rcases i with _ | _ | i
    · exact absurd (.inl rfl) hnot
    · rcases he with rfl | rfl <;> cases hstep
    · have hmade : ¬i + 1 + 1 < s.nextSocket := by
        rw [show s.nextSocket = 2 from rfl]
        omega
      rcases he with rfl | rfl <;> simp [step, hmade] at hstep

/-- It has a socket again and again, and no socket has said that it is closed. -/
theorem reconnects_again_lostOnce :
    ∃ x : Execution (step .typescript defaultConfig) (make .typescript defaultConfig),
      x.event 0 = .init false false ∧ (∀ n i, x.event n ≠ .socketClose i) ∧
      ∀ n, ∃ m ≥ n, (x.state m).alreadyActive = true ∨ FailsToConnect (x.state m) (x.event m) := by
  obtain ⟨x, hinit, hdestroy, hfire, hclose, hends⟩ := exists_lostOnce
  exact ⟨x, hinit, hclose, reconnects_again hinit hdestroy hfire hends⟩

end InfinityBridge.Relay.State
