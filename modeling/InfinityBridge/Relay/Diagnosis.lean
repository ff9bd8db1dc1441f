import InfinityBridge.Relay.Destroy
import InfinityBridge.Relay.Lifecycle

/-!
# What a timeout says

A request that times out is refused with one of two messages, depending on whether the
response listener is attached at that moment: nobody answered, or nobody could have
answered. Beside the relay stands what has been broadcast on the response event, heard
or not. The message is true as long as no request is waiting whose response went unheard
when the listener is attached, and no listener is left over from before.
-/

namespace InfinityBridge.Relay

namespace State

variable {impl : Impl} {cfg : ResolvedConfig} {s t u : State} {e : RelayEvent}

/-! ### Requests that wait -/

/-- The timer of a request is armed. -/
def Waiting (s : State) (rid : String) (id : Option Value) (tid : ℕ) : Prop :=
  ∃ delay, s.timers.lookup tid = some ⟨.request rid id, delay⟩

/-- The command that an event makes the relay accept, with the request id drawn for it. -/
def accepting (impl : Impl) (s : State) : RelayEvent → Option (String × Option Value)
  | .socketMessage _ data now _ _ =>
    match (data.bind Text.jsonParse).map (hostMessage impl) with
    | some (.cmd id _) =>
      if s.dedup.has (Key.of s.nextRef id) then none
      else some (requestIdText now (impl.succ s.requestSeq), id)
    | _ => none
  | _ => none

/-- After a step no request waits that did not wait before, but for the new one; and every
request that waits is pending. -/
structure Waits (new : Option (String × Option Value)) (s t : State) : Prop where
  pending : ∀ rid p, t.pending.lookup rid = some p →
    s.pending.lookup rid = some p ∨ new = some (rid, p.cmdId)
  waiting : ∀ rid id tid, t.Waiting rid id tid →
    s.Waiting rid id tid ∨ new = some (rid, id) ∧ tid = s.nextTimer
  timersPending : TimersPending t

/-- Nothing new waits where nothing happens. -/
theorem Waits.refl (h : TimersPending s) : Waits none s s :=
  ⟨fun _ _ hp => .inl hp, fun _ _ _ hw => .inl hw, h⟩

/-- A step for which nothing waits may follow another one. -/
theorem Waits.andThen {new : Option (String × Option Value)} (h : Waits new s u)
    (h' : Waits none u t) : Waits new s t := by
  refine ⟨fun rid p hp => ?_, fun rid id tid hw => ?_, h'.timersPending⟩
  · rcases h'.pending rid p hp with hp | hnew
    · exact h.pending rid p hp
    · cases hnew
  · rcases h'.waiting rid id tid hw with hw | ⟨hnew, _⟩
    · exact h.waiting rid id tid hw
    · cases hnew

/-- What keeps the books makes no request wait. -/
theorem SameBooks.waits (h : SameBooks cfg s t) (hs : TimersPending s) : Waits none s t := by
  refine ⟨fun rid p hp => .inl (h.pending rid ▸ hp), fun rid id tid hw => ?_, ?_⟩
  · exact .inl ((h.armed rid id tid).mp hw)
  · intro rid id tid delay hlook
    obtain ⟨delay', hlook'⟩ := (h.armed rid id tid).mp ⟨delay, hlook⟩
    rw [h.pending]
    exact hs rid id tid delay' hlook'

/-- Taking a request out disarms its timer. -/
theorem waits_take {rid : String} {p : PendingRequest} (h : TimersPending s)
    (hp : s.pending.lookup rid = some p) : Waits none s (s.take rid p) := by
  have hpending (rid' : String) : (s.take rid p).pending.lookup rid' =
      if rid' = rid then none else s.pending.lookup rid' := Table.lookup_erase_eq _ _ _
  refine ⟨fun rid' p' hp' => ?_, fun rid' id tid ⟨delay, hlook⟩ => ?_, ?_⟩
  · rw [hpending] at hp'
    split_ifs at hp'
    exact .inl hp'
  · exact .inl ⟨delay, (lookup_of_clear hlook).2⟩
  · intro rid' id tid delay hlook
    obtain ⟨hne, hlook'⟩ := lookup_of_clear hlook
    have hold := h rid' id tid delay hlook'
    rw [hpending, if_neg, hold]
    rintro rfl
    rw [hp, Option.some.injEq] at hold
    exact hne (by rw [hold])

/-- Refusing all requests disarms their timers. -/
theorem waits_rejectPending (h : TimersPending s) : Waits none s s.rejectPending := by
  have hlook (tid : ℕ) : s.rejectPending.timers.lookup tid = if tid ∈ s.pending.entries.reverse.map
      (fun e => e.2.timerId) then none else s.timers.lookup tid := lookup_rejectAll _ _
  refine ⟨fun rid p hp => (by cases hp), fun rid id tid ⟨delay, hd⟩ => ?_, ?_⟩
  · rw [hlook] at hd
    split_ifs at hd
    exact .inl ⟨delay, hd⟩
  · intro rid id tid delay hd
    rw [hlook] at hd
    split_ifs at hd with hmem
    have hpending := Table.lookup_eq_some_iff.mp (h rid id tid delay hd)
    exact absurd (List.mem_map.mpr ⟨_, List.mem_reverse.mpr hpending, rfl⟩) hmem

/-- A new request waits, if its request id is not pending. -/
theorem waits_openRequest (h : TimersPending s) (id : Option Value) (now : TimeValue)
    (hfresh : s.pending.lookup (requestIdText now (impl.succ s.requestSeq)) = none) :
    Waits (some (requestIdText now (impl.succ s.requestSeq), id)) s
      (s.openRequest impl cfg id now).2 := by
  have hpending (rid : String) : (s.openRequest impl cfg id now).2.pending.lookup rid =
      if rid = requestIdText now (impl.succ s.requestSeq) then some ⟨id, s.nextTimer⟩
      else s.pending.lookup rid := Table.lookup_insert_eq _ _ _ _
  have hlook (tid : ℕ) : (s.openRequest impl cfg id now).2.timers.lookup tid =
      if tid = s.nextTimer then
        some ⟨.request (requestIdText now (impl.succ s.requestSeq)) id, cfg.requestTimeoutMs⟩
      else s.timers.lookup tid := Table.lookup_insert_eq _ _ _ _
  refine ⟨fun rid p hp => ?_, fun rid id' tid ⟨delay, hd⟩ => ?_, ?_⟩
  · rw [hpending] at hp
    split_ifs at hp with hrid
    · cases hp
      exact .inr (by rw [hrid])
    · exact .inl hp
  · rw [hlook] at hd
    split_ifs at hd with htid
    · cases hd
      exact .inr ⟨rfl, htid⟩
    · exact .inl ⟨delay, hd⟩
  · intro rid id' tid delay hd
    rw [hlook] at hd
    rw [hpending]
    split_ifs at hd with htid
    · cases hd
      rw [if_pos rfl, htid]
    · have hold := h rid id' tid delay hd
      rw [if_neg, hold]
      rintro rfl
      rw [hfresh] at hold
      cases hold

/-- Forwarding a command makes no other request wait. -/
theorem waits_forwardCommand (h : TimersPending s) (rid : String) (frame : Value)
    (onThrows callThrows : Bool) :
    Waits none s (s.forwardCommand cfg rid frame onThrows callThrows) := by
  unfold forwardCommand
  split
  · split
    · exact .refl h
    · next p hp =>
      have htake := waits_take h hp
      exact ⟨htake.pending, htake.waiting, htake.timersPending⟩
  · next bus _ =>
    exact ((sameBooks_bindCommBus cfg s bus onThrows).trans
      (sameBooks_call cfg _ bus rid frame true callThrows)).waits h

/-- What does not touch the timers or `pending` makes no request wait. -/
theorem Waits.congr (h : TimersPending s) (hpending : t.pending = s.pending)
    (htimers : t.timers = s.timers) : Waits none s t := by
  refine ⟨fun rid p hp => .inl (hpending ▸ hp), fun rid id tid hw => .inl ?_, ?_⟩
  · rwa [Waiting, htimers] at hw
  · rw [TimersPending, hpending, htimers]
    exact h

/-- Forwarding an event draws a request id, but nothing waits for it. -/
theorem waits_onHostEvent (h : TimersPending s) (frame : Value) (now : TimeValue)
    (callThrows : Bool) : Waits none s (s.onHostEvent impl cfg frame now callThrows) := by
  unfold onHostEvent
  split
  · exact .refl h
  · next bus _ =>
    have hdraw : Waits none s (s.nextRequestId impl now).2 := .congr h rfl rfl
    exact hdraw.andThen ((sameBooks_call cfg _ bus _ frame false callThrows).waits
      hdraw.timersPending)

/-- Of a message of the host only the command that is accepted waits. -/
theorem waits_onHostMessage {i : ℕ} {data : Option Text} {now : TimeValue}
    {onThrows callThrows : Bool} (h : TimersPending s)
    (hfresh : ∀ rid id, accepting impl s (.socketMessage i data now onThrows callThrows) =
      some (rid, id) → s.pending.lookup rid = none)
    (hstep : s.onHostMessage impl cfg data now onThrows callThrows = some t) :
    Waits (accepting impl s (.socketMessage i data now onThrows callThrows)) s t := by
  unfold onHostMessage at hstep
  unfold accepting at hfresh ⊢
  cases hdata : data.bind Text.jsonParse with
  | none =>
    simp only [hdata, Option.some.injEq, Option.map_none] at hstep ⊢
    subst hstep
    exact .refl h
  | some j =>
    simp only [hdata, Option.map_some] at hstep hfresh ⊢
    cases hj : hostMessage impl j with
    | ping =>
      simp only [hj, Option.some.injEq] at hstep
      subst hstep
      exact .congr h rfl rfl
    | ignored =>
      simp only [hj, Option.some.injEq] at hstep
      subst hstep
      exact .refl h
    | event frame =>
      simp only [hj, Option.some.injEq] at hstep
      subst hstep
      exact waits_onHostEvent h frame now callThrows
    | cmd id frame =>
      simp only [hj, onHostCommand] at hstep hfresh ⊢
      split_ifs at hstep with hhas
      · cases hstep
        rw [if_pos hhas]
        exact .congr h rfl rfl
      · obtain ⟨dedup, _, rfl⟩ := Option.map_eq_some_iff.mp hstep
        rw [if_neg hhas] at hfresh ⊢
        have hmarked : TimersPending { s with nextRef := s.nextRef + 1, dedup } := h
        have hopen : Waits (some (requestIdText now (impl.succ s.requestSeq), id)) _
            ({ s with nextRef := s.nextRef + 1, dedup }.openRequest impl cfg id now).2 :=
          waits_openRequest hmarked id now (hfresh _ id rfl)
        have hnew : Waits (some (requestIdText now (impl.succ s.requestSeq), id)) s _ :=
          ⟨hopen.pending, hopen.waiting, hopen.timersPending⟩
        exact hnew.andThen (waits_forwardCommand hopen.timersPending _ _ _ _)

/-- A message of the module makes no request wait. -/
theorem waits_onWasmMessage (h : TimersPending s) (raw : Text) :
    Waits none s (s.onWasmMessage impl raw) := by
  unfold onWasmMessage
  split
  · exact .refl h
  · split
    · split
      · exact .refl h
      · next p hp =>
        have htake := waits_take h hp
        split <;> exact ⟨htake.pending, htake.waiting, htake.timersPending⟩
    · exact .congr h rfl rfl
    · exact .refl h

/-- The rejection of a call makes no request wait. -/
theorem waits_onCallRejected (h : TimersPending s) (c : BusCall) (reason : Rejection) :
    Waits none s (s.onCallRejected impl c reason) := by
  unfold onCallRejected
  split_ifs
  · split
    · exact .refl h
    · next p hp =>
      have htake := waits_take h hp
      split <;> exact ⟨htake.pending, htake.waiting, htake.timersPending⟩
  · exact .refl h

/-- A step makes at most the request wait that it accepts, if the request id is fresh. -/
theorem waits_step (htimers : TimersOk s) (h : TimersPending s)
    (hfresh : ∀ rid id, accepting impl s e = some (rid, id) → s.pending.lookup rid = none)
    (hstep : step impl cfg s e = some t) : Waits (accepting impl s e) s t := by
  cases he : isArrival e with
  | false =>
    have hnone : accepting impl s e = none := by cases e <;> first | rfl | cases he
    rw [hnone]
    rcases books_step htimers he hstep with
      hsame | hsame | ⟨tid, rid, id, delay, htimer, rfl⟩ |
        ⟨_, u, c, reason, -, hsame, rfl⟩
    · exact hsame.waits h
    · have hreject := waits_rejectPending h
      exact hreject.andThen (hsame.waits hreject.timersPending)
    · have htake := waits_take h (h rid id tid delay htimer)
      exact ⟨htake.pending, htake.waiting, htake.timersPending⟩
    · have hbooks := hsame.waits h
      exact hbooks.andThen (waits_onCallRejected hbooks.timersPending c reason)
  | true =>
    cases e with
    | socketMessage =>
      simp only [step] at hstep
      split_ifs at hstep
      exact waits_onHostMessage h hfresh hstep
    | wasmMessage raw =>
      simp only [step] at hstep
      split_ifs at hstep
      cases hstep
      have hheard : Waits none s { s with heard := s.heard ++ [raw] } := .congr h rfl rfl
      exact hheard.andThen (waits_onWasmMessage hheard.timersPending raw)
    | _ => cases he

/-! ### Timer ids and the listener -/

/-- Refusing requests arms no timer. -/
theorem nextTimer_rejectAll (es : List (Sigma fun _ : String => PendingRequest)) (s : State) :
    (s.rejectAll es).nextTimer = s.nextTimer := by
  induction es generalizing s with
  | nil => rfl
  | cons e es ih =>
    rw [rejectAll, ih]
    rfl

/-- Clearing the bind timer arms none. -/
theorem nextTimer_cleanupBindRetry (s : State) : s.cleanupBindRetry.nextTimer = s.nextTimer := by
  unfold cleanupBindRetry clearTimeout?
  cases s.bindRetryTimerId <;> rfl

/-- Closing the socket arms no timer. -/
theorem nextTimer_cleanupWs (s : State) : s.cleanupWs.nextTimer = s.nextTimer := by
  have hclose (u : State) : (u.ws.elim u u.close).nextTimer = u.nextTimer := by
    cases u.ws with
    | none => rfl
    | some i =>
      simp only [Option.elim_some, close]
      split <;> rfl
  have hclear : (s.clearTimeout? s.wsRetryTimerId).nextTimer = s.nextTimer := by
    unfold clearTimeout?
    cases s.wsRetryTimerId <;> rfl
  exact (hclose _).trans hclear

/-- `destroy` arms no timer. -/
theorem nextTimer_destroy (impl : Impl) (cfg : ResolvedConfig) (offThrows unregisterThrows : Bool)
    (s : State) : (s.destroy impl cfg offThrows unregisterThrows).nextTimer = s.nextTimer := by
  have hreject : s.rejectPending.nextTimer = s.nextTimer := nextTimer_rejectAll _ _
  unfold destroy
  cases impl with
  | typescript =>
    have hcleanup := (nextTimer_cleanupBindRetry s.rejectPending).trans hreject
    dsimp only
    split
    · exact (nextTimer_cleanupWs _).trans hcleanup
    · next bus _ =>
      have hoff := (tryOff_emits (fun _ => False) cfg bus offThrows
        s.rejectPending.cleanupBindRetry).nextTimer.trans hcleanup
      split
      · exact hoff
      · exact (nextTimer_cleanupWs _).trans hoff
  | rescript =>
    have hunhook := (unhook_emits (fun _ => False) cfg offThrows unregisterThrows
      s.rejectPending).nextTimer.trans hreject
    exact (nextTimer_cleanupWs _).trans ((nextTimer_cleanupBindRetry _).trans hunhook)

/-- Timer ids only grow. -/
theorem nextTimer_le (hstep : step impl cfg s e = some t) : s.nextTimer ≤ t.nextTimer := by
  by_cases hdestroy : ∀ off unregister, e ≠ .destroy off unregister
  · exact (attaches_step hdestroy hstep).nextTimer
  · push Not at hdestroy
    obtain ⟨off, unregister, rfl⟩ := hdestroy
    cases hstep
    rw [nextTimer_destroy]

/-- `bus.on` is called and does not throw, unless a listener is attached. -/
def Binds (impl : Impl) (s : State) : RelayEvent → Prop
  | .init _ onThrows | .continuation _ onThrows => onThrows = false
  | .timer id onThrows _ =>
    onThrows = false ∧ ∃ delay, s.timers.lookup id = some ⟨.bindRetry, delay⟩
  | .socketMessage i data now onThrows callThrows => onThrows = false ∧
    (accepting impl s (.socketMessage i data now onThrows callThrows)).isSome = true
  | _ => False

/-- When `bindCommBus` leaves the listener attached. -/
theorem commBusBound_bindCommBus (cfg : ResolvedConfig) (bus : ℕ) (onThrows : Bool) (s : State) :
    (s.bindCommBus cfg bus onThrows).commBusBound =
      (s.commBusBound || (!onThrows && s.onWasmHandler.isSome)) := by
  unfold bindCommBus
  cases hbound : s.commBusBound with
  | true => simp [hbound]
  | false =>
    cases hhandler : s.onWasmHandler with
    | none => simp [hbound]
    | some h =>
      cases onThrows with
      | true => simp [hbound]
      | false => rfl

/-- Arming the reconnect timer leaves the flag alone. -/
theorem commBusBound_scheduleWsReconnect (cfg : ResolvedConfig) (s : State) :
    (s.scheduleWsReconnect cfg).commBusBound = s.commBusBound := by
  unfold scheduleWsReconnect
  split <;> rfl

/-- Arming the bind timer leaves the flag alone. -/
theorem commBusBound_scheduleBindRetry (cfg : ResolvedConfig) (s : State) :
    (s.scheduleBindRetry cfg).commBusBound = s.commBusBound := by
  unfold scheduleBindRetry
  split_ifs
  · rfl
  · split <;> rfl

/-- Making a socket leaves the flag alone. -/
theorem commBusBound_connectWs (cfg : ResolvedConfig) (socketThrows : Bool) (s : State) :
    (s.connectWs cfg socketThrows).commBusBound = s.commBusBound := by
  unfold connectWs
  split_ifs
  · rfl
  · exact commBusBound_scheduleWsReconnect cfg { s with ws := none }
  · rfl

/-- A listener is attached only when `on` does not throw. -/
theorem not_throws_of_bound {bus : ℕ} {onThrows : Bool} (hfree : s.commBusBound = false)
    (hbound : (s.bindCommBus cfg bus onThrows).commBusBound = true) : onThrows = false := by
  rw [commBusBound_bindCommBus, hfree, Bool.false_or, Bool.and_eq_true] at hbound
  simpa using hbound.1

/-- A retry that sets the flag has not thrown. -/
theorem not_throws_of_rebind {onThrows : Bool} (hfree : s.commBusBound = false)
    (hbound : (s.rebind cfg onThrows).commBusBound = true) : onThrows = false := by
  unfold rebind at hbound
  split at hbound
  · rw [hfree] at hbound
    cases hbound
  · exact not_throws_of_bound hfree hbound

/-- A CommBus call leaves the flag alone. -/
theorem commBusBound_call (cfg : ResolvedConfig) (bus : ℕ) (rid : String) (payload : Value)
    (command callThrows : Bool) (s : State) :
    (s.call cfg bus rid payload command callThrows).commBusBound = s.commBusBound := by
  unfold call
  split_ifs <;> rfl

/-- Forwarding a command sets the flag only when the binding does not throw. -/
theorem not_throws_of_forward {rid : String} {frame : Value} {onThrows callThrows : Bool}
    (hfree : s.commBusBound = false)
    (hbound : (s.forwardCommand cfg rid frame onThrows callThrows).commBusBound = true) :
    onThrows = false := by
  unfold forwardCommand at hbound
  split at hbound
  · have hkeep : s.commBusBound = true := by
      split at hbound
      · exact hbound
      · exact hbound
    rw [hfree] at hkeep
    cases hkeep
  · rw [commBusBound_call] at hbound
    exact not_throws_of_bound hfree hbound

/-- Forwarding attaches the listener when `on` does not throw, or refuses the command. -/
theorem bound_or_refused {rid : String} {frame : Value} {callThrows : Bool}
    (hhandler : s.onWasmHandler ≠ none) :
    (s.forwardCommand cfg rid frame false callThrows).commBusBound = true ∨
      (s.forwardCommand cfg rid frame false callThrows).pending.lookup rid = none := by
  unfold forwardCommand
  split
  · right
    split
    · assumption
    · exact (Table.lookup_erase_eq _ _ _).trans (if_pos rfl)
  · left
    rw [commBusBound_call, commBusBound_bindCommBus, Option.isSome_iff_ne_none.mpr hhandler]
    simp

/-- A message of the module leaves the flag alone. -/
theorem commBusBound_onWasmMessage (impl : Impl) (raw : Text) (s : State) :
    (s.onWasmMessage impl raw).commBusBound = s.commBusBound := by
  unfold onWasmMessage
  split
  · rfl
  · split
    · split
      · rfl
      · split <;> rfl
    · rfl
    · rfl

/-- A message of the host attaches the listener only when its command is accepted. -/
theorem binds_onHostMessage {i : ℕ} {data : Option Text} {now : TimeValue}
    {onThrows callThrows : Bool} (hfree : s.commBusBound = false)
    (hstep : s.onHostMessage impl cfg data now onThrows callThrows = some t)
    (hbound : t.commBusBound = true) :
    Binds impl s (.socketMessage i data now onThrows callThrows) := by
  have hkeep (h : t.commBusBound = s.commBusBound) : False := by
    rw [h, hfree] at hbound
    cases hbound
  unfold onHostMessage at hstep
  unfold Binds accepting
  cases hdata : data.bind Text.jsonParse with
  | none =>
    simp only [hdata, Option.some.injEq] at hstep
    exact absurd (congrArg commBusBound hstep).symm hkeep
  | some j =>
    simp only [hdata, Option.map_some] at hstep ⊢
    cases hj : hostMessage impl j with
    | ping | ignored =>
      simp only [hj, Option.some.injEq] at hstep
      exact absurd (congrArg commBusBound hstep).symm hkeep
    | event frame =>
      simp only [hj, Option.some.injEq] at hstep
      refine absurd ((congrArg commBusBound hstep).symm.trans ?_) hkeep
      unfold onHostEvent
      split
      · rfl
      · unfold call
        split_ifs <;> rfl
    | cmd id frame =>
      simp only [hj, onHostCommand] at hstep ⊢
      split_ifs at hstep with hhas
      · cases hstep
        exact absurd rfl hkeep
      · obtain ⟨dedup, _, rfl⟩ := Option.map_eq_some_iff.mp hstep
        rw [if_neg hhas]
        refine ⟨not_throws_of_forward ?_ hbound, rfl⟩
        exact hfree

/-- A command that is accepted when `on` does not throw finds the listener attached, or is
refused. -/
theorem bound_of_accepting {rid : String} {id : Option Value}
    (haccepting : accepting impl s e = some (rid, id)) (hbinds : Binds impl s e)
    (hhandler : s.onWasmHandler ≠ none) (hstep : step impl cfg s e = some t) :
    t.commBusBound = true ∨ t.pending.lookup rid = none := by
  cases e <;> simp only [accepting, reduceCtorEq] at haccepting
  case socketMessage i data now onThrows callThrows =>
    simp only [step] at hstep
    split_ifs at hstep
    obtain ⟨rfl, _⟩ := hbinds
    unfold onHostMessage at hstep
    cases hdata : data.bind Text.jsonParse with
    | none => simp only [hdata, Option.map_none, reduceCtorEq] at haccepting
    | some j =>
      simp only [hdata, Option.map_some] at haccepting hstep
      cases hj : hostMessage impl j with
      | ping | ignored | event => simp only [hj, reduceCtorEq] at haccepting
      | cmd id' frame =>
        simp only [hj, onHostCommand] at haccepting hstep
        split_ifs at haccepting with hhas
        rw [if_neg hhas] at hstep
        obtain ⟨dedup, _, rfl⟩ := Option.map_eq_some_iff.mp hstep
        obtain rfl := (Prod.mk.inj (Option.some.inj haccepting)).1
        exact bound_or_refused hhandler

/-- A step attaches the listener only when `on` is called and does not throw. -/
theorem binds_of_bound (hdestroy : ∀ off unregister, e ≠ .destroy off unregister)
    (hfree : s.commBusBound = false) (hstep : step impl cfg s e = some t)
    (hbound : t.commBusBound = true) : Binds impl s e := by
  have hkeep (h : t.commBusBound = s.commBusBound) : False := by
    rw [h, hfree] at hbound
    cases hbound
  cases e <;> simp only [step] at hstep
  case init socketThrows onThrows =>
    cases hstep
    unfold init at hbound
    rw [commBusBound_scheduleBindRetry] at hbound
    refine not_throws_of_bound ?_ hbound
    have hconnect := (commBusBound_connectWs cfg socketThrows s).trans hfree
    cases impl <;> exact hconnect
  case destroy off unregister => exact absurd rfl (hdestroy off unregister)
  case continuation bus onThrows =>
    split_ifs at hstep
    cases hstep
    exact not_throws_of_bound hfree hbound
  case timer id onThrows socketThrows =>
    obtain ⟨⟨callback, delay⟩, ht, rfl⟩ := Option.map_eq_some_iff.mp hstep
    cases callback with
    | request => exact absurd rfl hkeep
    | wsRetry => exact absurd (commBusBound_connectWs _ _ _) hkeep
    | bindRetry =>
      unfold onTimer at hbound
      rw [commBusBound_scheduleBindRetry] at hbound
      exact ⟨not_throws_of_rebind (s := { s.clearTimeout id with bindRetryTimerId := none })
        hfree hbound, delay, ht⟩
  case socketOpen | socketDrop =>
    split_ifs at hstep
    cases hstep
    exact absurd rfl hkeep
  case socketMessage =>
    split_ifs at hstep
    exact binds_onHostMessage hfree hstep hbound
  case socketError | socketClose =>
    split_ifs at hstep
    cases hstep
    exact absurd (commBusBound_scheduleWsReconnect _ _) hkeep
  case wasmMessage raw =>
    split_ifs at hstep
    cases hstep
    exact absurd (commBusBound_onWasmMessage _ _ _) hkeep
  case callRejected n reason =>
    obtain ⟨c, _, rfl⟩ := Option.map_eq_some_iff.mp hstep
    refine absurd ?_ hkeep
    unfold onCallRejected
    split_ifs
    · split
      · rfl
      · split <;> rfl
    · rfl

end State

/-! ### Broadcasts -/

/-- The text is a response envelope for this request. -/
def Responds (rid : String) (raw : Text) : Prop :=
  ∃ j, raw.jsonParse = some j ∧ j.property "requestId" = some (.str rid) ∧
    ∃ ok, j.property "ok" = some (.bool ok)

/-- Both relays take it for one. -/
theorem Responds.wasmMessage {rid : String} {raw : Text} (h : Responds rid raw) (impl : Impl) :
    ∃ j ok response error, raw.jsonParse = some j ∧
      wasmMessage impl j = .response rid ok response error := by
  obtain ⟨j, hparse, hrid, ok, hok⟩ := h
  refine ⟨j, ok, j.property "response", j.property "error", hparse, ?_⟩
  cases impl with
  | typescript => cases ok <;> simp only [Relay.wasmMessage, hrid, hok]
  | rescript => simp only [Relay.wasmMessage, hrid, hok]

/-- A relay, beside everything that has been broadcast on the response event. -/
structure Station where
  relay : State
  broadcasts : List Text

namespace Station

open State

variable {impl : Impl} {cfg : ResolvedConfig} {s t : State} {w w' : Station} {e : RelayEvent}

/-- A listener takes a text. -/
def hear (impl : Impl) (raw : Text) (s : State) : State :=
  { s with heard := s.heard ++ [raw] }.onWasmMessage impl raw

/-- Hand a text to every listener that is attached. -/
def deliver (impl : Impl) (raw : Text) (s : State) : State := (hear impl raw)^[s.listeners.length] s

/-- A new relay, and nothing broadcast. -/
def make (impl : Impl) (cfg : ResolvedConfig) : Station := ⟨Relay.make impl cfg, []⟩

/-- A text is broadcast, whether a listener is attached or not; other events are those of
the relay. -/
def step (impl : Impl) (cfg : ResolvedConfig) (w : Station) : RelayEvent → Option Station
  | .wasmMessage raw => some ⟨deliver impl raw w.relay, w.broadcasts ++ [raw]⟩
  | e => (w.relay.step impl cfg e).map fun relay => { w with relay }

/-- With one listener, which is the rule, this is what the relay does. -/
theorem deliver_eq_step (raw : Text) (h : s.listeners.length = 1) :
    s.step impl cfg (.wasmMessage raw) = some (deliver impl raw s) := by
  have hne : s.listeners ≠ [] := by
    rintro hnil
    rw [hnil] at h
    cases h
  rw [deliver, h]
  exact if_neg hne

/-- A step is a broadcast, or a step of the relay. -/
theorem step_cases (hstep : step impl cfg w e = some w') :
    (∃ raw, e = .wasmMessage raw ∧ w'.relay = deliver impl raw w.relay ∧
        w'.broadcasts = w.broadcasts ++ [raw]) ∨
      (∀ raw, e ≠ .wasmMessage raw) ∧ w.relay.step impl cfg e = some w'.relay ∧
        w'.broadcasts = w.broadcasts := by
  by_cases hwasm : ∃ raw, e = .wasmMessage raw
  · obtain ⟨raw, rfl⟩ := hwasm
    cases hstep
    exact .inl ⟨raw, rfl, rfl, rfl⟩
  · push Not at hwasm
    have hrelay : (w.relay.step impl cfg e).map (fun relay => { w with relay }) = some w' := by
      cases e <;> first | exact hstep | exact absurd rfl (hwasm _)
    obtain ⟨relay, hstep', rfl⟩ := Option.map_eq_some_iff.mp hrelay
    exact .inr ⟨hwasm, hstep', rfl⟩

/-- Hearing a text settles the request it responds to. -/
theorem pending_hear {rid : String} {raw : Text} (h : Responds rid raw) :
    (hear impl raw s).pending.lookup rid = none := by
  obtain ⟨j, ok, response, error, hparse, hmessage⟩ := h.wasmMessage impl
  simp only [hear, onWasmMessage, hparse, hmessage]
  cases hp : s.pending.lookup rid with
  | none => exact hp
  | some p =>
    dsimp only
    split <;> exact (Table.lookup_erase_eq _ _ _).trans (if_pos rfl)

/-- What hearing a text leaves alone, however often it is heard. -/
structure Hears (s t : State) : Prop where
  timers : TimersOk t
  bound : t.commBusBound = s.commBusBound
  waits : Waits none s t
  serves : Serves s t

/-- Hearing a text once. -/
theorem hears_hear (impl : Impl) (raw : Text) (htimers : TimersOk s) (hpending : TimersPending s) :
    Hears s (hear impl raw s) := by
  have hok : TimersOk { s with heard := s.heard ++ [raw] } := htimers.congr rfl
  have hkeep : Waits none s { s with heard := s.heard ++ [raw] } := .congr hpending rfl rfl
  have hheard : Serves s { s with heard := s.heard ++ [raw] } := serves_of_eq rfl le_rfl
  constructor
  · exact hok.onWasmMessage raw
  · exact commBusBound_onWasmMessage impl raw { s with heard := s.heard ++ [raw] }
  · exact hkeep.andThen (waits_onWasmMessage hkeep.timersPending raw)
  · exact hheard.trans (serves_onWasmMessage raw)

/-- Hearing a text any number of times. -/
theorem hears_iterate (impl : Impl) (raw : Text) (n : ℕ) (htimers : TimersOk s)
    (hpending : TimersPending s) : Hears s ((hear impl raw)^[n] s) := by
  induction n with
  | zero => exact ⟨htimers, rfl, .refl hpending, .refl s⟩
  | succ n ih =>
    rw [Function.iterate_succ_apply']
    have hlast := hears_hear impl raw ih.timers ih.waits.timersPending
    exact ⟨hlast.timers, hlast.bound.trans ih.bound, ih.waits.andThen hlast.waits,
      ih.serves.trans hlast.serves⟩

/-- A response that is heard settles its request. -/
theorem pending_deliver {rid : String} {raw : Text} (h : Responds rid raw)
    (hlisteners : s.listeners ≠ []) (htimers : TimersOk s) (hpending : TimersPending s) :
    (deliver impl raw s).pending.lookup rid = none := by
  obtain ⟨n, hn⟩ := Nat.exists_eq_succ_of_ne_zero
    (fun hzero => hlisteners (List.length_eq_zero_iff.mp hzero))
  rw [deliver, hn, Function.iterate_succ_apply]
  have hfirst := hears_hear impl raw htimers hpending
  have hrest := hears_iterate impl raw n hfirst.timers hfirst.waits.timersPending
  rw [Option.eq_none_iff_forall_ne_some]
  intro p hp
  rcases hrest.waits.pending rid p hp with hp | hnew
  · rw [pending_hear h] at hp
    cases hp
  · cases hnew

/-- No response to this request has been broadcast. -/
def Unanswered (w : Station) (rid : String) : Prop := ∀ raw ∈ w.broadcasts, ¬Responds rid raw

/-- An event after which the relay knows what to say. -/
structure Heeds (impl : Impl) (w : Station) (e : RelayEvent) : Prop where
  /-- A relay that takes its listener for attached hears the responses to its requests. -/
  hears : ∀ raw rid p, e = .wasmMessage raw → w.relay.commBusBound = true →
    w.relay.listeners = [] → w.relay.pending.lookup rid = some p → ¬Responds rid raw
  /-- When the listener is attached, no pending request has missed its response. -/
  binds : w.relay.commBusBound = false → Binds impl w.relay e →
    ∀ rid p, w.relay.pending.lookup rid = some p → w.Unanswered rid
  /-- The request id of a command is new. -/
  fresh : ∀ rid id, accepting impl w.relay e = some (rid, id) →
    w.relay.pending.lookup rid = none ∧ w.Unanswered rid
  /-- No listener is left over when a command is accepted, unless the listener is attached. -/
  detached : (accepting impl w.relay e).isSome = true → w.relay.commBusBound = false →
    w.relay.listeners ≠ [] → Binds impl w.relay e ∧ w.relay.onWasmHandler ≠ none

/-- What a relay says when a request times out is true of the pending requests. -/
structure Informed (w : Station) : Prop where
  timers : TimersOk w.relay
  timersPending : TimersPending w.relay
  unanswered : w.relay.commBusBound = true →
    ∀ rid p, w.relay.pending.lookup rid = some p → w.Unanswered rid
  detached : w.relay.commBusBound = false →
    ∀ rid p, w.relay.pending.lookup rid = some p → w.relay.listeners = []

/-- At first nothing is pending. -/
theorem informed_make : Informed (make impl cfg) where
  timers := timersOk_make
  timersPending _ _ _ _ h := by cases h
  unanswered h := by cases h
  detached _ _ _ h := by cases h

/-- Without a change of `commBusBound` to true the listeners stay the same in number. -/
theorem listeners_eq_nil (h : Attaches s t) (hbound : t.commBusBound = false)
    (hlisteners : s.listeners = []) : t.listeners = [] := by
  have hcount := h.listeners
  rw [hbound, hlisteners, List.length_nil, Bool.toNat_false] at hcount
  exact List.length_eq_zero_iff.mp (by omega)

/-- A broadcast keeps the relay informed. -/
theorem Informed.broadcast (h : Informed w) {raw : Text} (hheeds : Heeds impl w (.wasmMessage raw))
    (hrelay : w'.relay = deliver impl raw w.relay)
    (hbroadcasts : w'.broadcasts = w.broadcasts ++ [raw]) : Informed w' := by
  have hhears : Hears w.relay w'.relay :=
    hrelay ▸ hears_iterate impl raw _ h.timers h.timersPending
  have hold (rid : String) (p : PendingRequest) (hp : w'.relay.pending.lookup rid = some p) :
      w.relay.pending.lookup rid = some p :=
    (hhears.waits.pending rid p hp).resolve_right (by simp)
  refine ⟨hhears.timers, hhears.waits.timersPending, fun hbound rid p hp => ?_,
    fun hfree rid p hp => ?_⟩
  · rw [hhears.bound] at hbound
    intro raw' hraw hresponds
    rw [hbroadcasts] at hraw
    rcases List.mem_append.mp hraw with hraw | hraw
    · exact h.unanswered hbound rid p (hold rid p hp) raw' hraw hresponds
    · obtain rfl := List.mem_singleton.mp hraw
      by_cases hlisteners : w.relay.listeners = []
      · exact hheeds.hears _ rid p rfl hbound hlisteners (hold rid p hp) hresponds
      · rw [hrelay, pending_deliver hresponds hlisteners h.timers h.timersPending] at hp
        cases hp
  · have hlisteners := h.detached (hhears.bound ▸ hfree) rid p (hold rid p hp)
    exact listeners_eq_nil hhears.serves.toAttaches hfree hlisteners

/-- A step that it heeds keeps the relay informed. -/
theorem Informed.step (h : Informed w) (hheeds : Heeds impl w e)
    (hstep : step impl cfg w e = some w') : Informed w' := by
  rcases step_cases hstep with ⟨raw, rfl, hrelay, hbroadcasts⟩ | ⟨_, hrelay, hbroadcasts⟩
  · exact h.broadcast hheeds hrelay hbroadcasts
  have htimers := timersOk_step h.timers hrelay
  have hwaits := waits_step h.timers h.timersPending
    (fun rid id hnew => (hheeds.fresh rid id hnew).1) hrelay
  by_cases hdestroy : ∀ off unregister, e ≠ .destroy off unregister
  · have hattaches := attaches_step hdestroy hrelay
    refine ⟨htimers, hwaits.timersPending, fun hbound rid p hp => ?_, fun hfree rid p hp => ?_⟩
    · rw [Unanswered, hbroadcasts]
      rcases hwaits.pending rid p hp with hold | hnew
      · cases hbefore : w.relay.commBusBound with
        | true => exact h.unanswered hbefore rid p hold
        | false =>
          exact hheeds.binds hbefore (binds_of_bound hdestroy hbefore hrelay hbound) rid p hold
      · exact (hheeds.fresh rid p.cmdId hnew).2
    · have hbefore : w.relay.commBusBound = false := by
        rw [← Bool.not_eq_true]
        intro hbound
        rw [hattaches.bound hbound] at hfree
        cases hfree
      apply listeners_eq_nil hattaches hfree
      rcases hwaits.pending rid p hp with hold | hnew
      · exact h.detached hbefore rid p hold
      · by_contra hlisteners
        obtain ⟨hbinds, hhandler⟩ := hheeds.detached (by rw [hnew]; rfl) hbefore hlisteners
        rcases bound_of_accepting hnew hbinds hhandler hrelay with hbound | hnone
        · rw [hbound] at hfree
          cases hfree
        · rw [hnone] at hp
          cases hp
  · push Not at hdestroy
    obtain ⟨off, unregister, rfl⟩ := hdestroy
    have hgone (rid : String) : w'.relay.pending.lookup rid = none := by
      have hdestroyed : w.relay.destroy impl cfg off unregister = w'.relay := Option.some.inj hrelay
      rw [← hdestroyed]
      exact destroy_pending h.timers off unregister rid
    refine ⟨htimers, hwaits.timersPending, fun _ rid p hp => ?_, fun _ rid p hp => ?_⟩
    · rw [hgone] at hp
      cases hp
    · rw [hgone] at hp
      cases hp

/-! ### Timeouts -/

/-- The relay refuses a request with this message. -/
def Rejects (rid : String) (id : Option Value) (message : String) (s t : State) : Prop :=
  ∃ socket, t.sent = s.sent ++ [⟨.answer rid true, .doc (rejectAck id (.str message)), socket⟩]

/-- In a run every timeout is reported as what it is: under the one message no response to
the request has been broadcast before the timer fires, and under the other one no listener
has been attached since the command arrived and its timer was armed. -/
def Truthful (impl : Impl) (cfg : ResolvedConfig) (es : List RelayEvent) : Prop :=
  ∀ before tid onThrows socketThrows w w' rid id,
    before ++ [.timer tid onThrows socketThrows] <+: es →
    Transition.run (step impl cfg) (make impl cfg) before = some w →
    step impl cfg w (.timer tid onThrows socketThrows) = some w' →
    (Rejects rid id wasmTimeout w.relay w'.relay → w.Unanswered rid) ∧
    (Rejects rid id commBusNotBound w.relay w'.relay → ∀ earlier u, earlier <+: before →
      Transition.run (step impl cfg) (make impl cfg) earlier = some u →
      tid < u.relay.nextTimer → u.relay.listeners = [])

/-- A timer that makes the relay refuse a request is that of the request, and the message
depends on `commBusBound`. -/
theorem waiting_of_rejects {tid : ℕ} {onThrows socketThrows : Bool} {rid : String}
    {id : Option Value} {message : String} (htimers : TimersOk s)
    (hstep : s.step impl cfg (.timer tid onThrows socketThrows) = some t)
    (hrejects : Rejects rid id message s t) :
    (∃ id', s.Waiting rid id' tid) ∧
      message = if s.commBusBound then wasmTimeout else commBusNotBound := by
  obtain ⟨socket, hsent⟩ := hrejects
  simp only [State.step] at hstep
  obtain ⟨⟨callback, delay⟩, ht, rfl⟩ := Option.map_eq_some_iff.mp hstep
  cases callback with
  | request rid' id' =>
    have happended : s.sent ++ [⟨.answer rid' true, .doc (rejectAck id'
        (.str (if s.commBusBound then wasmTimeout else commBusNotBound))), s.openSocket⟩] =
        s.sent ++ _ := hsent
    have hframe := List.singleton_injective (List.append_cancel_left happended)
    simp only [Sent.mk.injEq, Origin.answer.injEq, Text.doc.injEq] at hframe
    obtain ⟨⟨rfl, _⟩, hack, _⟩ := hframe
    refine ⟨⟨id', delay, ht⟩, ?_⟩
    have herror := congrArg (Json.property "error") hack
    simpa [rejectAck, ackFrame, Json.property, Json.named_append, named_member, Json.named]
      using herror.symm
  | bindRetry | wsRetry =>
    have hbooks : SameBooks cfg s ((s.clearTimeout tid).onTimer cfg _ onThrows socketThrows) :=
      sameBooks_onTimer htimers ht (by simp) onThrows socketThrows
    obtain ⟨es, hsent', hes⟩ := hbooks.sent
    rw [hsent] at hsent'
    obtain rfl := List.append_cancel_left hsent'
    exact absurd rfl ((hes _ List.mem_cons_self).ne_answer rid true)

/-- Timer ids are not drawn again. -/
theorem Informed.nextTimer_le (h : Informed w) (hstep : Station.step impl cfg w e = some w') :
    w.relay.nextTimer ≤ w'.relay.nextTimer := by
  rcases step_cases hstep with ⟨raw, rfl, hrelay, _⟩ | ⟨_, hrelay, _⟩
  · rw [hrelay]
    exact (hears_iterate impl raw _ h.timers h.timersPending).serves.nextTimer
  · exact State.nextTimer_le hrelay

/-- A request that waits unbound after a step has waited unbound before it, unless its timer
is new. -/
theorem Informed.before (h : Informed w) (hheeds : Heeds impl w e)
    (hstep : Station.step impl cfg w e = some w') {rid : String} {id : Option Value} {tid : ℕ}
    (hwaiting : w'.relay.Waiting rid id tid) (hfree : w'.relay.commBusBound = false)
    (htid : tid < w.relay.nextTimer) :
    w.relay.Waiting rid id tid ∧ w.relay.commBusBound = false := by
  rcases step_cases hstep with ⟨raw, rfl, hrelay, _⟩ | ⟨_, hrelay, _⟩
  · have hhears : Hears w.relay w'.relay :=
      hrelay ▸ hears_iterate impl raw _ h.timers h.timersPending
    refine ⟨?_, hhears.bound ▸ hfree⟩
    exact (hhears.waits.waiting rid id tid hwaiting).resolve_right (by simp)
  · have hwaits := waits_step h.timers h.timersPending
      (fun rid id hnew => (hheeds.fresh rid id hnew).1) hrelay
    constructor
    · apply (hwaits.waiting rid id tid hwaiting).resolve_right
      rintro ⟨_, hnew⟩
      omega
    · rw [← Bool.not_eq_true]
      intro hbound
      by_cases hdestroy : ∀ off unregister, e ≠ .destroy off unregister
      · rw [(attaches_step hdestroy hrelay).bound hbound] at hfree
        cases hfree
      · push Not at hdestroy
        obtain ⟨off, unregister, rfl⟩ := hdestroy
        obtain ⟨delay, hlook⟩ := hwaiting
        have hpending := hwaits.timersPending rid id tid delay hlook
        rw [← Option.some.inj hrelay, destroy_pending h.timers off unregister rid] at hpending
        cases hpending

/-- A request that waits unbound at the end of a run has waited unbound ever since its timer
was armed. -/
theorem Informed.since {es : List RelayEvent} (h : Informed w)
    (hmeets : Transition.Meets (Station.step impl cfg) (Heeds impl) w es)
    (hrun : Transition.run (Station.step impl cfg) w es = some w') {rid : String}
    {id : Option Value} {tid : ℕ} (hwaiting : w'.relay.Waiting rid id tid)
    (hfree : w'.relay.commBusBound = false) (htid : tid < w.relay.nextTimer) :
    w.relay.Waiting rid id tid ∧ w.relay.commBusBound = false := by
  induction es generalizing w with
  | nil =>
    rw [Transition.run_nil, Option.some.injEq] at hrun
    exact hrun ▸ ⟨hwaiting, hfree⟩
  | cons e es ih =>
    obtain ⟨v, hv, hrest⟩ := Transition.run_cons_eq_some.mp hrun
    obtain ⟨hheeds, hmeets'⟩ := hmeets v hv
    have hnext := h.nextTimer_le hv
    obtain ⟨hwaiting', hfree'⟩ := ih (h.step hheeds hv) hmeets' hrest (by omega)
    exact h.before hheeds hv hwaiting' hfree' htid

/-- Timeouts are reported as what they are in every run whose events are heeded. -/
theorem timeouts_truthful (impl : Impl) (cfg : ResolvedConfig) {es : List RelayEvent}
    (hmeets : Transition.Meets (step impl cfg) (Heeds impl) (make impl cfg) es) :
    Truthful impl cfg es := by
  intro before tid onThrows socketThrows w w' rid id hinitial hrun hstep
  obtain ⟨after, rfl⟩ := hinitial
  have hbefore := (Transition.meets_append.mp (Transition.meets_append.mp hmeets).1).1
  have hinformed {es : List RelayEvent} {v : Station}
      (hmeets : Transition.Meets (step impl cfg) (Heeds impl) (make impl cfg) es)
      (hrun : Transition.run (step impl cfg) (make impl cfg) es = some v) : Informed v :=
    Transition.run_invariant_of_meets (fun _ _ _ h hheeds hstep => h.step hheeds hstep)
      hmeets hrun informed_make
  have hw := hinformed hbefore hrun
  have htimer : w.relay.step impl cfg (.timer tid onThrows socketThrows) = some w'.relay := by
    rcases step_cases hstep with ⟨raw, heq, _⟩ | ⟨_, hrelay, _⟩
    · cases heq
    · exact hrelay
  constructor
  · intro hrejects
    obtain ⟨⟨id', hwaiting⟩, hmessage⟩ := waiting_of_rejects hw.timers htimer hrejects
    have hbound : w.relay.commBusBound = true := by
      by_contra hfree
      rw [if_neg hfree] at hmessage
      exact absurd hmessage (by decide)
    obtain ⟨delay, hlook⟩ := hwaiting
    exact hw.unanswered hbound rid _ (hw.timersPending rid id' tid delay hlook)
  · intro hrejects earlier u hinitial hrun' htid
    obtain ⟨⟨id', hwaiting⟩, hmessage⟩ := waiting_of_rejects hw.timers htimer hrejects
    have hfree : w.relay.commBusBound = false := by
      rw [← Bool.not_eq_true]
      intro hbound
      rw [if_pos hbound] at hmessage
      exact absurd hmessage (by decide)
    obtain ⟨es, rfl, hmore⟩ := Transition.run_of_prefix hinitial hrun' hrun
    obtain ⟨hearlier, hrest⟩ := Transition.meets_append.mp hbefore
    have hu := hinformed hearlier hrun'
    obtain ⟨⟨delay, hlook⟩, hfree'⟩ := hu.since (hrest u hrun') hmore hwaiting hfree htid
    exact hu.detached hfree' rid _ (hu.timersPending rid id' tid delay hlook)

/-- A command arrives while `on` throws, and the bind timer fires in vain. -/
def neverBound : List RelayEvent :=
  [.init false true, .socketOpen 0 .epoch,
    .socketMessage 0 (some exampleCommand) .epoch true false, .timer 1 true false,
    .timer 2 true false]

/-- Its timeout is reported as it is. -/
theorem timeouts_truthful_neverBound : Truthful .typescript defaultConfig neverBound := by
  apply timeouts_truthful
  have hquiet {w : Station} {e : RelayEvent} (hwasm : ∀ raw, e ≠ .wasmMessage raw)
      (hbinds : ¬Binds .typescript w.relay e) (hnone : accepting .typescript w.relay e = none) :
      Heeds .typescript w e := by
    refine ⟨fun raw _ _ he => absurd he (hwasm raw), fun _ h => absurd h hbinds, ?_, ?_⟩
    · intro rid id hnew
      rw [hnone] at hnew
      cases hnew
    · intro hsome
      rw [hnone] at hsome
      cases hsome
  intro w₁ h₁
  refine ⟨hquiet (by simp) (by simp [Binds]) rfl, fun w₂ h₂ => ⟨hquiet (by simp) (by simp [Binds])
    rfl, fun w₃ h₃ => ⟨?_, fun w₄ h₄ => ⟨hquiet (by simp) (by simp [Binds]) rfl, fun w₅ h₅ =>
      ⟨hquiet (by simp) (by simp [Binds]) rfl, trivial⟩⟩⟩⟩⟩
  cases h₁
  cases h₂
  refine ⟨by simp, fun _ hbinds => ?_, fun rid id _ => ⟨rfl, by rintro raw ⟨⟩⟩, fun _ _ hne => ?_⟩
  · simp [Binds] at hbinds
  · exact absurd rfl hne

/-- The response comes while no listener is attached; then the bind timer attaches it, and
then the request times out. -/
def unheard : List RelayEvent :=
  [.init false true, .socketOpen 0 .epoch,
    .socketMessage 0 (some exampleCommand) .epoch true false,
    .wasmMessage (.doc (.obj [("requestId", .str "0-1"), ("ok", .bool true)])),
    .timer 1 false false, .timer 2 false false]

/-- Both relays say that there was no response. -/
theorem unheard_not_truthful :
    ¬Truthful .typescript defaultConfig unheard ∧ ¬Truthful .rescript defaultConfig unheard := by
  constructor
  · intro h
    exact (h (unheard.take 5) 2 false false _ _ "0-1" (some (.str "a")) List.prefix_rfl rfl
      rfl).1 ⟨some 0, rfl⟩ _ List.mem_cons_self ⟨_, rfl, rfl, true, rfl⟩
  · intro h
    exact (h (unheard.take 5) 2 false false _ _ "0-1" (some (.str "a")) List.prefix_rfl rfl
      rfl).1 ⟨some 0, rfl⟩ _ List.mem_cons_self ⟨_, rfl, rfl, true, rfl⟩

end Station

end InfinityBridge.Relay
