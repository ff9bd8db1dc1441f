import InfinityBridge.Relay.Accounting

/-!
# After destroy

What the callbacks do that are still installed after `destroy`. The handlers of a
socket arm the reconnect timer whenever they run, and a registration continuation
attaches its handler as long as there is one, so that the relay stays destroyed
exactly while these do not run.
-/

namespace InfinityBridge.Relay

namespace State

variable {impl : Impl} {cfg : ResolvedConfig} {s t u : State} {e : RelayEvent}

/-- Nothing has been started since the relay was in state `s`, and nothing will be:
no socket has been made, no listener attached, and no timer is armed. -/
structure Final (s t : State) : Prop where
  nextSocket : t.nextSocket = s.nextSocket
  listeners : t.listeners = s.listeners
  timers : ∀ id, t.timers.lookup id = none
  ws : t.ws = none
  commBus : t.commBus = none

/-- Every armed request timer is that of a pending request. -/
def TimersPending (s : State) : Prop := ∀ rid id tid d,
  s.timers.lookup tid = some ⟨.request rid id, d⟩ → s.pending.lookup rid = some ⟨id, tid⟩

/-- `destroy` is cut off: `unregister` throws in the TypeScript relay. -/
def CutOff (impl : Impl) (unregisterThrows : Bool) (s : State) : Prop :=
  impl = .typescript ∧ unregisterThrows = true ∧ s.commBus ≠ none

/-- An event that does not wake a destroyed relay: no `init`, no event of a lost socket,
and no continuation that finds a handler to attach. -/
def Quiet (s : State) : RelayEvent → Prop
  | .init _ _ | .socketError _ | .socketClose _ => False
  | .continuation _ onThrows => s.onWasmHandler = none ∨ onThrows = true
  | _ => True

/-- A relay that is final, with the fields that keep it so. -/
structure Destroyed (s t : State) : Prop extends Final s t where
  commBusBound : t.commBusBound = false
  pending : ∀ rid, t.pending.lookup rid = none
  wsRetryTimerId : t.wsRetryTimerId = none
  bindRetryTimerId : t.bindRetryTimerId = none

/-- The fields that a destroyed relay is known by. -/
def attachments (s : State) :=
  (s.nextSocket, s.listeners, s.timers, s.ws, s.commBus, s.commBusBound, s.pending,
    s.wsRetryTimerId, s.bindRetryTimerId)

/-- What changes none of these fields. -/
theorem Destroyed.congr (h : Destroyed s t) (heq : u.attachments = t.attachments) :
    Destroyed s u := by
  simp only [attachments, Prod.mk.injEq] at heq
  obtain ⟨hnextSocket, hlisteners, htimers, hws, hcommBus, hbound, hpending, hwsRetry,
    hbindRetry⟩ := heq
  exact {
    nextSocket := hnextSocket.trans h.nextSocket
    listeners := hlisteners.trans h.listeners
    timers := fun id => htimers ▸ h.timers id
    ws := hws.trans h.ws
    commBus := hcommBus.trans h.commBus
    commBusBound := hbound.trans h.commBusBound
    pending := fun rid => hpending ▸ h.pending rid
    wsRetryTimerId := hwsRetry.trans h.wsRetryTimerId
    bindRetryTimerId := hbindRetry.trans h.bindRetryTimerId }

/-- Sending a frame keeps the relay destroyed. -/
theorem Destroyed.wsSend (h : Destroyed s t) (origin : Origin) (frame : Text) :
    Destroyed s (t.wsSend origin frame) :=
  h.congr rfl

/-- A change of one socket keeps it destroyed. -/
theorem Destroyed.setSocket (h : Destroyed s t) (i : ℕ) (f : Socket → Socket) :
    Destroyed s (t.setSocket i f) :=
  h.congr rfl

/-- A command that is no duplicate is refused at once, for lack of a CommBus. -/
theorem Destroyed.forwardCommand (h : Destroyed s t) (id : Option Value) (now : TimeValue)
    (frame : Value) (onThrows callThrows : Bool) :
    Destroyed s ((t.openRequest impl cfg id now).2.forwardCommand cfg
      (t.openRequest impl cfg id now).1 frame onThrows callThrows) := by
  have hbus : (t.openRequest impl cfg id now).2.commBus = none := h.commBus
  have hlook : (t.openRequest impl cfg id now).2.pending.lookup (t.openRequest impl cfg id now).1 =
      some ⟨id, t.nextTimer⟩ := (Table.lookup_insert_eq _ _ _ _).trans (if_pos rfl)
  simp only [State.forwardCommand, hbus, hlook]
  refine ⟨⟨h.nextSocket, h.listeners, fun tid => ?_, h.ws, h.commBus⟩, h.commBusBound,
    fun rid => ?_, h.wsRetryTimerId, h.bindRetryTimerId⟩
  · refine (Table.lookup_erase_eq t.nextTimer tid _).trans ?_
    split_ifs with htid
    · rfl
    · refine (lookup_setTimeout (s := (t.nextRequestId impl now).2) _ _ tid).trans ?_
      exact (if_neg htid).trans (h.timers tid)
  · refine (Table.lookup_erase_eq _ rid _).trans ?_
    split_ifs with hrid
    · rfl
    · refine (Table.lookup_insert_eq _ rid _ _).trans ?_
      exact (if_neg hrid).trans (h.pending rid)

/-- A message of the host keeps it destroyed. -/
theorem Destroyed.onHostMessage (h : Destroyed s t) {data : Option Text} {now : TimeValue}
    {onThrows callThrows : Bool}
    (hstep : t.onHostMessage impl cfg data now onThrows callThrows = some u) : Destroyed s u := by
  unfold State.onHostMessage State.onHostCommand State.onHostEvent at hstep
  split at hstep
  · cases hstep
    exact h
  · split at hstep
    · cases hstep
      exact h.wsSend _ _
    · dsimp only at hstep
      split_ifs at hstep
      · cases hstep
        exact h.congr rfl
      · obtain ⟨dedup, _, rfl⟩ := Option.map_eq_some_iff.mp hstep
        have h' : Destroyed s { t with nextRef := t.nextRef + 1, dedup } :=
          h.congr rfl
        exact h'.forwardCommand _ _ _ _ _
    · simp only [h.commBus, Option.some.injEq] at hstep
      exact hstep ▸ h
    · cases hstep
      exact h

/-- No response is awaited any more. -/
theorem Destroyed.onWasmMessage (h : Destroyed s t) (raw : Text) :
    Destroyed s (t.onWasmMessage impl raw) := by
  unfold State.onWasmMessage
  split
  · exact h
  · split
    · rw [h.pending]
      exact h
    · exact h.wsSend _ _
    · exact h

/-- No call is awaited any more. -/
theorem Destroyed.onCallRejected (h : Destroyed s t) (c : BusCall) (reason : Rejection) :
    Destroyed s (t.onCallRejected impl c reason) := by
  unfold State.onCallRejected
  rw [h.pending, ite_self]
  exact h

/-- Nothing is pending, so nothing is refused. -/
theorem Destroyed.rejectPending (h : Destroyed s t) : Destroyed s t.rejectPending := by
  have hentries : t.pending.entries = [] :=
    List.isEmpty_iff.mp (Table.isEmpty_iff.mpr h.pending)
  have hreject : t.rejectPending = { t with pending := ∅ } := by
    rw [State.rejectPending, hentries]
    rfl
  rw [hreject]
  exact { h with pending := fun _ => rfl }

/-- Clearing the bind timer keeps it destroyed. -/
theorem Destroyed.cleanupBindRetry (h : Destroyed s t) : Destroyed s t.cleanupBindRetry := by
  rw [State.cleanupBindRetry, h.bindRetryTimerId]
  exact { h with bindRetryTimerId := rfl }

/-- Closing the socket keeps it destroyed. -/
theorem Destroyed.cleanupWs (h : Destroyed s t) : Destroyed s t.cleanupWs := by
  simp only [State.cleanupWs, h.wsRetryTimerId, State.clearTimeout?, Option.elim_none, h.ws]
  exact { h with ws := rfl, wsRetryTimerId := rfl }

/-- A second `destroy` finds nothing to do. -/
theorem Destroyed.destroy (h : Destroyed s t) (offThrows unregisterThrows : Bool) :
    Destroyed s (t.destroy impl cfg offThrows unregisterThrows) := by
  have hforget (v : State) (hv : Destroyed s v) (handler : Option ℕ) :
      Destroyed s { v with commBus := none, commBusBound := false, onWasmHandler := handler } :=
    { hv with commBus := rfl, commBusBound := rfl }
  unfold State.destroy
  cases impl with
  | typescript =>
    have hbind := h.rejectPending.cleanupBindRetry
    dsimp only
    rw [hbind.commBus]
    exact (hforget _ hbind _).cleanupWs
  | rescript =>
    have hunhook : t.rejectPending.unhook cfg offThrows unregisterThrows = t.rejectPending := by
      rw [State.unhook, h.rejectPending.commBus]
    dsimp only
    rw [hunhook]
    exact (hforget _ h.rejectPending none).cleanupBindRetry.cleanupWs

/-- Without a handler, or when `on` throws, nothing is attached. -/
theorem bindCommBus_of_quiet {bus : ℕ} {onThrows : Bool}
    (h : s.onWasmHandler = none ∨ onThrows = true) : s.bindCommBus cfg bus onThrows = s := by
  rcases h with hnone | hthrows
  · simp only [bindCommBus, hnone, ite_self]
  · cases hhandler : s.onWasmHandler <;>
      simp only [bindCommBus, hhandler, hthrows, if_true, ite_self]

/-- A quiet event leaves a destroyed relay destroyed. -/
theorem destroyed_step (h : Destroyed s t) (hquiet : Quiet t e)
    (hstep : step impl cfg t e = some u) : Destroyed s u := by
  cases e <;> simp only [step] at hstep
  case init | socketError | socketClose => exact hquiet.elim
  case destroy =>
    cases hstep
    exact h.destroy _ _
  case continuation bus onThrows =>
    split_ifs at hstep
    rw [bindCommBus_of_quiet hquiet, Option.some.injEq] at hstep
    exact hstep ▸ h
  case timer id onThrows socketThrows =>
    rw [h.timers] at hstep
    cases hstep
  case socketOpen i now =>
    split_ifs at hstep
    cases hstep
    exact ((h.setSocket i _).wsSend _ _).wsSend _ _
  case socketMessage =>
    split_ifs at hstep
    exact h.onHostMessage hstep
  case socketDrop =>
    split_ifs at hstep
    cases hstep
    exact h.setSocket _ _
  case wasmMessage raw =>
    split_ifs at hstep
    cases hstep
    exact Destroyed.onWasmMessage (t := { t with heard := t.heard ++ [raw] })
      (h.congr rfl) raw
  case callRejected n reason =>
    obtain ⟨c, _, rfl⟩ := Option.map_eq_some_iff.mp hstep
    exact Destroyed.onCallRejected (t := { t with calls := t.calls.erase n })
      (h.congr rfl) c reason

/-- Losing a socket arms the reconnect timer. -/
theorem not_final_onLost (h : Destroyed s t) : ¬Final s (t.onLost cfg) := by
  intro hfinal
  have harmed := hfinal.timers t.nextTimer
  simp only [State.onLost, State.scheduleWsReconnect, h.wsRetryTimerId] at harmed
  rw [lookup_setTimeout, if_pos rfl] at harmed
  cases harmed

/-- Arming the bind timer leaves the CommBus handle alone. -/
theorem scheduleBindRetry_commBus : (s.scheduleBindRetry cfg).commBus = s.commBus := by
  unfold State.scheduleBindRetry
  split_ifs
  · rfl
  · split
    · rfl
    · rfl

/-- After `init` there is a CommBus handle. -/
theorem init_commBus (socketThrows onThrows : Bool) :
    (s.init impl cfg socketThrows onThrows).commBus ≠ none := by
  have hbind (v : State) (bus : ℕ) :
      (({ v with commBus := some bus }.bindCommBus cfg bus onThrows).scheduleBindRetry
        cfg).commBus = some bus := by
    rw [scheduleBindRetry_commBus, (bindCommBus_emits cfg bus onThrows _).commBus]
  have hinit (v : State) (bus next : ℕ) :
      (({ v with nextBus := next, commBus := some bus }.bindCommBus cfg bus
        onThrows).scheduleBindRetry cfg).commBus ≠ none := by
    rw [hbind { v with nextBus := next }]
    exact Option.some_ne_none bus
  exact hinit _ _ _

/-- An event that is not quiet wakes a destroyed relay. -/
theorem not_final_step (h : Destroyed s t) (hquiet : ¬Quiet t e)
    (hstep : step impl cfg t e = some u) : ¬Final s u := by
  cases e <;> simp only [step] at hstep
  case init socketThrows onThrows =>
    cases hstep
    exact fun hfinal => init_commBus socketThrows onThrows hfinal.commBus
  case continuation bus onThrows =>
    split_ifs at hstep
    cases hstep
    intro hfinal
    rw [Quiet, not_or] at hquiet
    obtain ⟨hhandler, hthrows⟩ := hquiet
    obtain ⟨handler, hhandler⟩ := Option.ne_none_iff_exists'.mp hhandler
    have hlisteners := hfinal.listeners
    simp only [bindCommBus, h.commBusBound, hhandler, hthrows, Bool.false_eq_true, if_false,
      sendReady, State.wsSend, ← h.listeners] at hlisteners
    simp at hlisteners
  case socketError | socketClose =>
    split_ifs at hstep
    cases hstep
    exact not_final_onLost (h.setSocket _ _)
  all_goals exact absurd trivial hquiet

/-- Closing a socket changes no field of the relay. -/
theorem close_fields (i : ℕ) : (s.close i).commBus = s.commBus ∧
    (s.close i).commBusBound = s.commBusBound ∧ (s.close i).wsRetryTimerId = s.wsRetryTimerId ∧
    (s.close i).bindRetryTimerId = s.bindRetryTimerId := by
  unfold State.close
  split <;> exact ⟨rfl, rfl, rfl, rfl⟩

/-- What is left when the socket has been closed. -/
theorem cleanupWs_fields : s.cleanupWs.ws = none ∧ s.cleanupWs.commBus = s.commBus ∧
    s.cleanupWs.commBusBound = s.commBusBound ∧ s.cleanupWs.wsRetryTimerId = none ∧
    s.cleanupWs.bindRetryTimerId = s.bindRetryTimerId := by
  have hclose (v : State) : (v.ws.elim v v.close).commBus = v.commBus ∧
      (v.ws.elim v v.close).commBusBound = v.commBusBound ∧
      (v.ws.elim v v.close).wsRetryTimerId = v.wsRetryTimerId ∧
      (v.ws.elim v v.close).bindRetryTimerId = v.bindRetryTimerId := by
    cases v.ws with
    | none => exact ⟨rfl, rfl, rfl, rfl⟩
    | some i => exact close_fields i
  have hclear (id : Option ℕ) : (s.clearTimeout? id).commBus = s.commBus ∧
      (s.clearTimeout? id).commBusBound = s.commBusBound ∧
      (s.clearTimeout? id).bindRetryTimerId = s.bindRetryTimerId := by
    cases id <;> exact ⟨rfl, rfl, rfl⟩
  obtain ⟨hcommBus, hbound, hwsRetry, hbindRetry⟩ :=
    hclose { s.clearTimeout? s.wsRetryTimerId with wsRetryTimerId := none }
  obtain ⟨hcommBus', hbound', hbindRetry'⟩ := hclear s.wsRetryTimerId
  exact ⟨rfl, hcommBus.trans hcommBus', hbound.trans hbound', hwsRetry,
    hbindRetry.trans hbindRetry'⟩

/-- What is left when the bind timer has been cancelled. -/
theorem cleanupBindRetry_fields (s : State) : s.cleanupBindRetry.commBus = s.commBus ∧
    s.cleanupBindRetry.commBusBound = s.commBusBound ∧
    s.cleanupBindRetry.bindRetryTimerId = none := by
  unfold State.cleanupBindRetry
  cases s.bindRetryTimerId <;> exact ⟨rfl, rfl, rfl⟩

/-- Refusing requests leaves the CommBus handle alone. -/
theorem rejectAll_commBus (es : List (Sigma fun _ : String => PendingRequest)) :
    (s.rejectAll es).commBus = s.commBus := by
  induction es generalizing s with
  | nil => rfl
  | cons e es ih => exact ih

/-- Refusing requests disarms their timers and no other. -/
theorem lookup_rejectAll (es : List (Sigma fun _ : String => PendingRequest)) (tid : ℕ) :
    (s.rejectAll es).timers.lookup tid =
      if tid ∈ es.map (fun e => e.2.timerId) then none else s.timers.lookup tid := by
  induction es generalizing s with
  | nil => simp [State.rejectAll]
  | cons e es ih =>
    refine (ih (s := (s.clearTimeout e.2.timerId).refuse e.1 e.2.cmdId relayDestroyed)).trans ?_
    have hclear : ((s.clearTimeout e.2.timerId).refuse e.1 e.2.cmdId relayDestroyed).timers.lookup
        tid = if tid = e.2.timerId then none else s.timers.lookup tid :=
      Table.lookup_erase_eq _ _ _
    rw [hclear, List.map_cons]
    simp only [List.mem_cons]
    by_cases htid : tid = e.2.timerId
    · simp only [htid, true_or, if_true, ite_self]
    · simp only [htid, false_or, if_false]

/-- What `destroy` leaves when it is not cut off. -/
theorem destroy_fields (cfg : ResolvedConfig) (offThrows : Bool) {unregisterThrows : Bool}
    (hcut : ¬CutOff impl unregisterThrows s) :
    (s.destroy impl cfg offThrows unregisterThrows).ws = none ∧
      (s.destroy impl cfg offThrows unregisterThrows).commBus = none ∧
      (s.destroy impl cfg offThrows unregisterThrows).commBusBound = false ∧
      (s.destroy impl cfg offThrows unregisterThrows).wsRetryTimerId = none ∧
      (s.destroy impl cfg offThrows unregisterThrows).bindRetryTimerId = none := by
  have hclean (v : State) (hcommBus : v.commBus = none) (hbound : v.commBusBound = false)
      (hbindRetry : v.bindRetryTimerId = none) : v.cleanupWs.ws = none ∧
        v.cleanupWs.commBus = none ∧ v.cleanupWs.commBusBound = false ∧
        v.cleanupWs.wsRetryTimerId = none ∧ v.cleanupWs.bindRetryTimerId = none := by
    obtain ⟨hws, hcommBus', hbound', hwsRetry, hbindRetry'⟩ := cleanupWs_fields (s := v)
    exact ⟨hws, hcommBus'.trans hcommBus, hbound'.trans hbound, hwsRetry,
      hbindRetry'.trans hbindRetry⟩
  have hoff (v : State) (bus : ℕ) :
      (v.tryOff cfg bus offThrows).bindRetryTimerId = v.bindRetryTimerId :=
    (tryOff_emits (fun _ => False) cfg bus offThrows v).bindRetryTimerId
  cases impl with
  | typescript =>
    simp only [State.destroy]
    split
    · exact hclean _ rfl rfl (cleanupBindRetry_fields s.rejectPending).2.2
    · next bus hbus =>
      split_ifs with hthrows
      · rw [(cleanupBindRetry_fields _).1] at hbus
        have hcommBus : s.commBus = some bus := (rejectAll_commBus _).symm.trans hbus
        exact absurd ⟨rfl, hthrows, hcommBus ▸ Option.some_ne_none bus⟩ hcut
      · exact hclean _ rfl rfl ((hoff _ _).trans (cleanupBindRetry_fields _).2.2)
  | rescript =>
    simp only [State.destroy]
    exact hclean _ ((cleanupBindRetry_fields _).1.trans rfl)
      ((cleanupBindRetry_fields _).2.1.trans rfl) (cleanupBindRetry_fields _).2.2

/-- A destroyed relay whose `destroy` was cut off keeps its CommBus. -/
theorem destroy_commBus_of_cutOff {offThrows unregisterThrows : Bool}
    (hcut : CutOff impl unregisterThrows s) :
    (s.destroy impl cfg offThrows unregisterThrows).commBus ≠ none := by
  obtain ⟨rfl, hthrows, hcommBus⟩ := hcut
  have hkeep : s.rejectPending.cleanupBindRetry.commBus = s.commBus :=
    (cleanupBindRetry_fields _).1.trans (rejectAll_commBus _)
  have hoff (v : State) (bus : ℕ) : (v.tryOff cfg bus offThrows).commBus = v.commBus :=
    (tryOff_emits (fun _ => False) cfg bus offThrows v).commBus
  obtain ⟨bus, hbus⟩ := Option.ne_none_iff_exists'.mp hcommBus
  simp only [State.destroy, hkeep, hbus, hthrows, if_true]
  rw [hoff, hkeep]
  exact hcommBus

/-- The request timers that `destroy` leaves are those of no pending request. -/
theorem armed_destroy (impl : Impl) (cfg : ResolvedConfig) (h : TimersOk s)
    (offThrows unregisterThrows : Bool) {rid : String} {id : Option Value} {tid : ℕ} :
    (∃ d, (s.destroy impl cfg offThrows unregisterThrows).timers.lookup tid =
        some ⟨.request rid id, d⟩) ↔
      (∃ d, s.timers.lookup tid = some ⟨.request rid id, d⟩) ∧
        s.pending.lookup rid ≠ some ⟨id, tid⟩ := by
  rw [(sameBooks_destroy h offThrows unregisterThrows).armed]
  have hlook : s.rejectPending.timers.lookup tid = if tid ∈ s.pending.entries.reverse.map
      (fun e => e.2.timerId) then none else s.timers.lookup tid := lookup_rejectAll _ _
  rw [hlook]
  constructor
  · rintro ⟨d, hd⟩
    split_ifs at hd with hmem
    refine ⟨⟨d, hd⟩, fun hpending => hmem ?_⟩
    exact List.mem_map.mpr ⟨⟨rid, id, tid⟩,
      List.mem_reverse.mpr (Table.lookup_eq_some_iff.mp hpending), rfl⟩
  · rintro ⟨⟨d, hd⟩, hne⟩
    refine ⟨d, (if_neg fun hmem => hne ?_).trans hd⟩
    obtain ⟨⟨rid', id', tid'⟩, hentry, rfl⟩ := List.mem_map.mp hmem
    have hpending := Table.lookup_eq_some_iff.mpr (List.mem_reverse.mp hentry)
    have hcallback := (h.pending rid' _ hpending).2 _ hd
    rw [TimerCallback.request.injEq] at hcallback
    rw [hcallback.1, hcallback.2]
    exact hpending

/-- `destroy` leaves a destroyed relay when it is not cut off and no request timer has
lost its request. -/
theorem destroyed_destroy (h : TimersOk s) {offThrows unregisterThrows : Bool}
    (hcut : ¬CutOff impl unregisterThrows s) (htimers : TimersPending s) :
    Destroyed (s.destroy impl cfg offThrows unregisterThrows)
      (s.destroy impl cfg offThrows unregisterThrows) := by
  obtain ⟨hws, hcommBus, hbound, hwsRetry, hbindRetry⟩ := destroy_fields cfg offThrows hcut
  have h' : TimersOk (s.destroy impl cfg offThrows unregisterThrows) :=
    h.destroy offThrows unregisterThrows
  refine ⟨⟨rfl, rfl, fun tid => ?_, hws, hcommBus⟩, hbound, destroy_pending h _ _, hwsRetry,
    hbindRetry⟩
  rw [Option.eq_none_iff_forall_ne_some]
  rintro ⟨callback, d⟩ hlook
  cases callback with
  | bindRetry =>
    have hid := (h'.bindRetry tid).mp ⟨d, hlook⟩
    rw [hbindRetry] at hid
    cases hid
  | wsRetry =>
    have hid := (h'.wsRetry tid).mp ⟨d, hlook⟩
    rw [hwsRetry] at hid
    cases hid
  | request rid id =>
    obtain ⟨⟨d', hd'⟩, hne⟩ := (armed_destroy impl cfg h _ _).mp ⟨d, hlook⟩
    exact hne (htimers rid id tid d' hd')

/-- A relay stays destroyed exactly when its `destroy` is not cut off, every request
timer armed then is that of a pending request, and the events that follow are quiet. -/
theorem final_iff {before es : List RelayEvent} {offThrows unregisterThrows : Bool}
    (hrun : Transition.run (step impl cfg) (make impl cfg) before = some s)
    (hstep : step impl cfg s (.destroy offThrows unregisterThrows) = some t) :
    Transition.Always (step impl cfg) (Final t) t es ↔
      ¬CutOff impl unregisterThrows s ∧ TimersPending s ∧
        Transition.Meets (step impl cfg) Quiet t es := by
  have htimers := timersOk_run hrun
  simp only [step, Option.some.injEq] at hstep
  subst hstep
  constructor
  · intro halways
    have hfinal := halways.head
    have hcut : ¬CutOff impl unregisterThrows s :=
      fun hcut => destroy_commBus_of_cutOff hcut hfinal.commBus
    have hpending : TimersPending s := by
      intro rid id tid d hlook
      by_contra hne
      obtain ⟨d', hd'⟩ := (armed_destroy impl cfg htimers offThrows unregisterThrows).mpr
        ⟨⟨d, hlook⟩, hne⟩
      rw [hfinal.timers] at hd'
      cases hd'
    refine ⟨hcut, hpending, ?_⟩
    exact (Transition.always_iff_meets (fun _ h => Destroyed.toFinal h)
      (fun _ _ _ h hq hs => destroyed_step h hq hs) (fun _ _ _ h hq hs => not_final_step h hq hs)
      (destroyed_destroy htimers hcut hpending) es).mp halways
  · rintro ⟨hcut, hpending, hmeets⟩
    exact (Transition.always_iff_meets (fun _ h => Destroyed.toFinal h)
      (fun _ _ _ h hq hs => destroyed_step h hq hs) (fun _ _ _ h hq hs => not_final_step h hq hs)
      (destroyed_destroy htimers hcut hpending) es).mpr hmeets

/-- With fewer than `2 ^ 31` request ids no timer loses its request. -/
theorem Accounted.timersPending (h : Accounted impl cfg s) : TimersPending s :=
  fun rid id tid d hlook => (h.armed rid id tid).mp ⟨d, hlook⟩

/-- After `destroy` a call is rejected late and a command arrives late. -/
theorem final_iff_lateEvents : ∃ s t,
    Transition.run (step .typescript defaultConfig) (make .typescript defaultConfig) forwarding =
      some s ∧ step .typescript defaultConfig s (.destroy true false) = some t ∧
    Transition.Always (step .typescript defaultConfig) (Final t) t
      [.callRejected 0 (.error "late"),
        .socketMessage 0 (some exampleCommand) ⟨0, by decide⟩ false false] := by
  have hsome : (Transition.run (step .typescript defaultConfig) (make .typescript defaultConfig)
    forwarding).isSome := by rfl
  have hrun := (Option.some_get hsome).symm
  have hbooks := accounted_run hrun (lt_of_eq_of_lt (show _ = 1 from rfl) (by norm_num))
  refine ⟨_, _, hrun, rfl, (final_iff hrun rfl).mpr ⟨?_, hbooks.timersPending, ?_⟩⟩
  · rintro ⟨_, hthrows, _⟩
    cases hthrows
  · simp [Transition.Meets, Quiet]

/-- A relay connects again after `destroy`, when the socket that was closed delivers its
close event. -/
def ReconnectsLate (impl : Impl) : Prop := ∃ s t u,
  Transition.run (step impl defaultConfig) (make impl defaultConfig) forwarding = some s ∧
    step impl defaultConfig s (.destroy false false) = some t ∧ t.nextSocket = 1 ∧
    Transition.run (step impl defaultConfig) t
      [.socketDrop 0, .socketClose 0, .timer 2 false false] = some u ∧
    u.nextSocket = 2 ∧ u.ws = some 1

/-- Both relays do. -/
theorem late_close_reconnects : ReconnectsLate .typescript ∧ ReconnectsLate .rescript :=
  ⟨⟨_, _, _, rfl, rfl, rfl, rfl, rfl, rfl⟩, ⟨_, _, _, rfl, rfl, rfl, rfl, rfl, rfl⟩⟩

end State

end InfinityBridge.Relay
