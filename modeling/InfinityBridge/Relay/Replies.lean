import InfinityBridge.Relay.Diagnosis
import InfinityBridge.Relay.Output
import InfinityBridge.Relay.Requests
import InfinityBridge.Relay.Traffic

/-!
# From a request to its answer

A command that is accepted leaves a request with an armed timer, or is answered at once. A
request stays as it is until a callback answers it, and that answer goes on the socket that
is open then. Few callbacks answer with a refusal of the relay's own, and they refuse what is
pending, or what they accept without a CommBus handle.
-/

namespace InfinityBridge.Relay.State

variable {impl : Impl} {cfg : ResolvedConfig} {s t : State} {e : RelayEvent}

/-- What forwarding a command leaves of its request. -/
theorem forwardCommand_keeps {rid : String} {frame : Value} {onThrows callThrows : Bool}
    {p : PendingRequest}
    (hp : (s.forwardCommand cfg rid frame onThrows callThrows).pending.lookup rid = some p) :
    s.pending.lookup rid = some p ∧
      (s.forwardCommand cfg rid frame onThrows callThrows).timers = s.timers := by
  unfold forwardCommand at hp ⊢
  cases hbus : s.commBus with
  | none =>
    cases hlook : s.pending.lookup rid with
    | none =>
      simp only [hbus, hlook] at hp
      cases hp
    | some q =>
      simp only [hbus, hlook] at hp
      have hgone : ((s.take rid q).refuse rid q.cmdId commBusNotReady).pending.lookup rid = none :=
        by simp [take, refuse, wsSend, clearTimeout]
      rw [hgone] at hp
      cases hp
  | some bus =>
    simp only [hbus] at hp
    have hcall := ((bindCommBus_emits cfg bus onThrows s).mono (Q := fun _ => True)
      (fun _ _ => trivial)).trans (call_emits _ cfg bus rid frame true callThrows _)
    exact ⟨hcall.pending ▸ hp, hcall.timers⟩

/-- A command that is accepted is recorded under a request id, and its request, unless it has
been answered already, has a timer that is new. -/
theorem accepting_step {rid : String} {id : Option Value}
    (haccepting : accepting impl s e = some (rid, id)) (hstep : step impl cfg s e = some t) :
    t.accepted = s.accepted ++ [(rid, id)] ∧ t.requests = s.requests + 1 ∧
      (∃ now, rid = (s.nextRequestId impl now).1) ∧
      ∀ p, t.pending.lookup rid = some p → p = ⟨id, s.nextTimer⟩ ∧
        t.timers.lookup s.nextTimer = some ⟨.request rid id, cfg.requestTimeoutMs⟩ := by
  cases e <;> simp only [accepting, reduceCtorEq] at haccepting
  case socketMessage i data now onThrows callThrows =>
    simp only [step] at hstep
    split_ifs at hstep
    unfold onHostMessage at hstep
    cases hdata : data.bind Text.jsonParse with
    | none => simp only [hdata, Option.map_none, reduceCtorEq] at haccepting
    | some j =>
      simp only [hdata, Option.map_some] at haccepting hstep
      cases hj : hostMessage impl j with
      | ping | ignored | event => simp only [hj, reduceCtorEq] at haccepting
      | cmd id' frame =>
        simp only [hj, onHostCommand] at haccepting hstep
        split_ifs at haccepting with hhas
        rw [if_neg hhas] at hstep
        obtain ⟨dedup, _, rfl⟩ := Option.map_eq_some_iff.mp hstep
        obtain ⟨rfl, rfl⟩ := Prod.mk.inj (Option.some.inj haccepting)
        obtain ⟨hrequests, _, haccepted, _⟩ := forwardCommand_books
          (requestIdText now (impl.succ s.requestSeq)) frame onThrows callThrows
        refine ⟨haccepted, hrequests, ⟨now, rfl⟩, fun p hp => ?_⟩
        obtain ⟨hlook, htimers⟩ := forwardCommand_keeps hp
        have hopened : some (PendingRequest.mk id' s.nextTimer) = some p :=
          (if_pos rfl).symm.trans ((Table.lookup_insert_eq _ _ _ _).symm.trans hlook)
        refine ⟨(Option.some.inj hopened).symm, ?_⟩
        exact (congrArg (AList.lookup s.nextTimer) htimers).trans
          ((Table.lookup_insert_eq _ _ _ _).trans (if_pos rfl))

/-- The request id of a command that is accepted is not in use. -/
theorem Accounted.fresh_of_accepting (h : Accounted impl cfg s) (hbound : t.requests < 2 ^ 31)
    (hstep : step impl cfg s e = some t) {rid : String} {id : Option Value}
    (haccepting : accepting impl s e = some (rid, id)) :
    s.pending.lookup rid = none ∧ ∀ id', (rid, id') ∉ s.accepted := by
  obtain ⟨_, hrequests, ⟨now, rfl⟩, _⟩ := accepting_step haccepting hstep
  have hnew := h.notMem_accepted now (hrequests ▸ hbound)
  refine ⟨?_, hnew⟩
  cases hp : s.pending.lookup (s.nextRequestId impl now).1 with
  | none => rfl
  | some p => exact absurd (h.pending _ p hp) (hnew _)

/-- A request that is over, with nothing lost, has been answered since there was no answer. -/
theorem Accounted.answered_since (h : Accounted impl cfg t) (hlost : t.lost = []) {rid : String}
    {id : Option Value} (hacc : (rid, id) ∈ t.accepted) (hgone : t.pending.lookup rid = none)
    {fs : List Sent} (hsent : t.sent = s.sent ++ fs) (hnone : answers rid s.sent = 0) :
    ∃ f ∈ fs, ∃ own, f.origin = .answer rid own := by
  have hone := h.answered rid id hacc
  rw [hgone, hlost, hsent, answers_append, hnone] at hone
  by_contra hnever
  have hzero : answers rid fs = 0 :=
    answers_eq_zero fun f hf own horigin => hnever ⟨f, hf, own, horigin⟩
  simp [hzero] at hone

/-- What a command that is accepted leaves, when nothing is lost: a request with a new timer,
or an answer. -/
theorem Accounted.accepting_cases (h : Accounted impl cfg s) (h' : Accounted impl cfg t)
    (hbound : t.requests < 2 ^ 31) (hlost : t.lost = []) (hstep : step impl cfg s e = some t)
    {rid : String} {id : Option Value} (haccepting : accepting impl s e = some (rid, id)) :
    (rid, id) ∈ t.accepted ∧
      ((t.pending.lookup rid = some ⟨id, s.nextTimer⟩ ∧
          t.timers.lookup s.nextTimer = some ⟨.request rid id, cfg.requestTimeoutMs⟩) ∨
        ∃ fs, t.sent = s.sent ++ fs ∧ ∃ f ∈ fs, ∃ own, f.origin = .answer rid own) := by
  obtain ⟨haccepted, _, _, hpending⟩ := accepting_step haccepting hstep
  have hmem : (rid, id) ∈ t.accepted := by
    rw [haccepted]
    exact List.mem_append_right _ (List.mem_singleton_self _)
  refine ⟨hmem, ?_⟩
  cases hp : t.pending.lookup rid with
  | some p =>
    obtain ⟨rfl, htimer⟩ := hpending p hp
    exact .inl ⟨rfl, htimer⟩
  | none =>
    obtain ⟨fs, hsent, _⟩ := writes_step hstep
    have hnone := (h.unanswered (h.fresh_of_accepting hbound hstep haccepting).2).1
    exact .inr ⟨fs, hsent, h'.answered_since hlost hmem hp hsent hnone⟩

/-- A request stays as it is, or it is answered, when nothing is lost. -/
theorem Accounted.pending_or_answered (h : Accounted impl cfg s) (h' : Accounted impl cfg t)
    (htimers : TimersOk s) (hbound : t.requests < 2 ^ 31) (hlost : t.lost = [])
    (hstep : step impl cfg s e = some t) {rid : String} {p : PendingRequest}
    (hp : s.pending.lookup rid = some p) :
    t.pending.lookup rid = some p ∨
      ∃ fs, t.sent = s.sent ++ fs ∧ ∃ f ∈ fs, ∃ own, f.origin = .answer rid own := by
  have hwaits := waits_step htimers h.timersPending
    (fun rid' id' hacc => (h.fresh_of_accepting hbound hstep hacc).1) hstep
  have hacc := h.pending rid p hp
  cases hp' : t.pending.lookup rid with
  | some p' =>
    rcases hwaits.pending rid p' hp' with hsame | hnew
    · exact .inl (hsame.symm.trans hp)
    · rw [(h.fresh_of_accepting hbound hstep hnew).1] at hp
      cases hp
  | none =>
    obtain ⟨fs, hsent, _⟩ := writes_step hstep
    have hnone : answers rid s.sent = 0 := by
      have hone := h.answered rid p.cmdId hacc
      rw [hp] at hone
      simp only [Option.isSome_some, if_true] at hone
      omega
    exact .inr ⟨fs, hsent,
      h'.answered_since hlost (accepted_subset hstep hacc) hp' hsent hnone⟩

/-- A command that is accepted goes on the CommBus under its request id, when there is a handle
and the call does not throw. -/
theorem newCalls_of_accepting (htimers : TimersOk s) (hbus : s.commBus ≠ none) {i : ℕ}
    {frame : Text} {j : Value} (hparse : frame.jsonParse = some j) {now : TimeValue}
    {onThrows : Bool} {rid : String} {id : Option Value}
    (hstep : step impl cfg s (.socketMessage i (some frame) now onThrows false) = some t)
    (haccepting : accepting impl s (.socketMessage i (some frame) now onThrows false) =
      some (rid, id)) : newCalls s t = [.doc (envelope rid j)] := by
  have hdrawn : drawn impl s (.socketMessage i (some frame) now onThrows false) =
      some ⟨rid, some id, j, false⟩ := by
    simp only [accepting, drawn, if_neg hbus, Option.bind_some, hparse, Option.map_some]
      at haccepting ⊢
    have hshape := hostMessage_shape impl j
    cases hj : hostMessage impl j with
    | ping | ignored | event => simp only [hj, reduceCtorEq] at haccepting
    | cmd id' message =>
      simp only [hj] at haccepting hshape ⊢
      split_ifs at haccepting with hhas
      obtain ⟨rfl, rfl⟩ := Prod.mk.inj (Option.some.inj haccepting)
      rw [if_neg hhas, hshape.2.2.1]
  have hdraws := draws_step htimers (fun _ h => by cases h) hstep
  rw [hdrawn] at hdraws
  exact hdraws.newCalls

/-! ### Refusals -/

/-- The pending requests that an event may make the relay refuse. -/
def refusable (s : State) : RelayEvent → List (Sigma fun _ : String => PendingRequest)
  | .destroy .. => s.pending.entries
  | .timer tid .. => s.pending.entries.filter (·.2.timerId = tid)
  | .callRejected n _ =>
    s.pending.entries.filter fun entry => (s.calls.lookup n).any (·.requestId = entry.1)
  | _ => []

/-- The frames that a callback sends refuse no other requests than these. -/
def RefusesOnly (P : String → Prop) (s t : State) : Prop :=
  ∃ fs, t.sent = s.sent ++ fs ∧ ∀ f ∈ fs, ∀ rid, f.origin = .answer rid true → P rid

variable {P : String → Prop} {u : State}

/-- What sends nothing refuses nothing. -/
theorem refusesOnly_nothing (hsent : t.sent = s.sent) : RefusesOnly P s t :=
  ⟨[], by rw [hsent, List.append_nil], by simp⟩

/-- Two steps in a row refuse what the two of them refuse. -/
theorem RefusesOnly.trans (h : RefusesOnly P s t) (h' : RefusesOnly P t u) :
    RefusesOnly P s u := by
  obtain ⟨fs, hfs, hrefused⟩ := h
  obtain ⟨fs', hfs', hrefused'⟩ := h'
  refine ⟨fs ++ fs', by rw [hfs', hfs, List.append_assoc], fun f hf => ?_⟩
  rcases List.mem_append.mp hf with hf | hf
  · exact hrefused f hf
  · exact hrefused' f hf

/-- What happens before the callback sends anything. -/
theorem RefusesOnly.after (h : RefusesOnly P t u) (hsent : t.sent = s.sent) :
    RefusesOnly P s u :=
  (refusesOnly_nothing hsent).trans h

/-- A frame refuses the request it is the relay's own answer to, if it is one. -/
theorem refusesOnly_wsSend {origin : Origin} {frame : Text}
    (horigin : ∀ rid, origin = .answer rid true → P rid) :
    RefusesOnly P s (s.wsSend origin frame) := by
  refine ⟨_, rfl, fun f hf rid hrefusal => ?_⟩
  rw [List.mem_singleton.mp hf] at hrefusal
  exact horigin rid hrefusal

/-- What keeps the books refuses nothing. -/
theorem SameBooks.refusesOnly (h : SameBooks cfg s t) : RefusesOnly P s t := by
  obtain ⟨fs, hfs, hplain⟩ := h.sent
  exact ⟨fs, hfs, fun f hf rid horigin => absurd horigin ((hplain f hf).ne_answer rid true)⟩

/-- A refusal refuses its request. -/
theorem refusesOnly_refuse {rid : String} (id : Option Value) (message : String) (hrid : P rid) :
    RefusesOnly P s (s.refuse rid id message) :=
  refusesOnly_wsSend fun _ horigin => (Origin.answer.inj horigin).1 ▸ hrid

/-- A destruction refuses what is pending. -/
theorem refusesOnly_rejectAll (entries : List (Sigma fun _ : String => PendingRequest))
    (hentries : ∀ entry ∈ entries, P entry.1) : RefusesOnly P s (s.rejectAll entries) := by
  induction entries generalizing s with
  | nil => exact refusesOnly_nothing rfl
  | cons entry entries ih =>
    have hfirst : RefusesOnly P s
        ((s.clearTimeout entry.2.timerId).refuse entry.1 entry.2.cmdId relayDestroyed) :=
      (refusesOnly_refuse _ _ (hentries entry List.mem_cons_self)).after rfl
    exact hfirst.trans (ih fun other hother => hentries other (List.mem_cons_of_mem _ hother))

/-- The rejection of a call refuses its request, if that is pending. -/
theorem refusesOnly_onCallRejected (c : BusCall) (reason : Rejection)
    (hcall : ∀ p, s.pending.lookup c.requestId = some p → P c.requestId) :
    RefusesOnly P s (s.onCallRejected impl c reason) := by
  unfold onCallRejected
  split_ifs
  · split
    · exact refusesOnly_nothing rfl
    · next p hp =>
      split
      · exact refusesOnly_nothing rfl
      · exact (refusesOnly_refuse _ _ (hcall p hp)).after rfl
  · exact refusesOnly_nothing rfl

/-- Without a CommBus handle, the command that is forwarded is refused. -/
theorem refusesOnly_forwardCommand {rid : String} {frame : Value} {onThrows callThrows : Bool}
    (hbus : s.commBus = none → P rid) :
    RefusesOnly P s (s.forwardCommand cfg rid frame onThrows callThrows) := by
  unfold forwardCommand
  split
  · next hnone =>
    split
    · exact refusesOnly_nothing rfl
    · exact (refusesOnly_refuse _ _ (hbus hnone)).after rfl
  · exact ((sameBooks_bindCommBus cfg s _ onThrows).trans
      (sameBooks_call cfg _ _ _ _ _ _)).refusesOnly

/-- An event of the host refuses nothing. -/
theorem refusesOnly_onHostEvent (frame : Value) (now : TimeValue) (callThrows : Bool) :
    RefusesOnly P s (s.onHostEvent impl cfg frame now callThrows) := by
  unfold onHostEvent
  split
  · exact refusesOnly_nothing rfl
  · exact (sameBooks_call cfg _ _ _ _ _ _).refusesOnly.after rfl

/-- A message of the host refuses the command it carries, and only without a CommBus. -/
theorem refusesOnly_onHostMessage {i : ℕ} {data : Option Text} {now : TimeValue}
    {onThrows callThrows : Bool}
    (hstep : s.onHostMessage impl cfg data now onThrows callThrows = some t) :
    RefusesOnly (fun rid => s.commBus = none ∧ ∃ id,
      accepting impl s (.socketMessage i data now onThrows callThrows) = some (rid, id)) s t := by
  unfold onHostMessage at hstep
  simp only [accepting]
  cases hdata : data.bind Text.jsonParse with
  | none =>
    simp only [hdata, Option.some.injEq] at hstep
    exact refusesOnly_nothing (by rw [hstep])
  | some j =>
    simp only [hdata, Option.map_some] at hstep ⊢
    cases hj : hostMessage impl j with
    | ping =>
      simp only [hj, Option.some.injEq] at hstep
      subst hstep
      exact refusesOnly_wsSend fun _ horigin => by cases horigin
    | event frame =>
      simp only [hj, Option.some.injEq] at hstep
      subst hstep
      exact refusesOnly_onHostEvent frame now callThrows
    | ignored =>
      simp only [hj, Option.some.injEq] at hstep
      exact refusesOnly_nothing (by rw [hstep])
    | cmd id frame =>
      simp only [hj, onHostCommand] at hstep ⊢
      split_ifs at hstep with hhas
      · cases hstep
        exact (refusesOnly_wsSend fun _ horigin => by cases horigin).after rfl
      · obtain ⟨dedup, _, rfl⟩ := Option.map_eq_some_iff.mp hstep
        rw [if_neg hhas]
        exact (refusesOnly_forwardCommand fun hbus => ⟨hbus, id, rfl⟩).after rfl

/-- A response is no refusal. -/
theorem refusesOnly_onWasmMessage (raw : Text) : RefusesOnly P s (s.onWasmMessage impl raw) := by
  unfold onWasmMessage
  split
  · exact refusesOnly_nothing rfl
  split
  · split
    · exact refusesOnly_nothing rfl
    split
    · exact refusesOnly_nothing rfl
    · exact RefusesOnly.after (refusesOnly_wsSend fun _ horigin => by cases horigin) rfl
  · exact refusesOnly_wsSend fun _ horigin => by cases horigin
  · exact refusesOnly_nothing rfl

/-- The relay refuses a pending request that the event concerns, or a command that it accepts
without a CommBus handle. -/
theorem refusesOnly_step (h : Accounted impl cfg s) (htimers : TimersOk s)
    (hstep : step impl cfg s e = some t) :
    RefusesOnly (fun rid => (∃ entry ∈ s.refusable e, entry.1 = rid) ∨
      (s.commBus = none ∧ ∃ id, accepting impl s e = some (rid, id))) s t := by
  have hbooks (hquiet : SameBooks cfg s t) : RefusesOnly (fun rid =>
      (∃ entry ∈ s.refusable e, entry.1 = rid) ∨
        (s.commBus = none ∧ ∃ id, accepting impl s e = some (rid, id))) s t := hquiet.refusesOnly
  cases e <;> simp only [step] at hstep
  case init =>
    cases hstep
    exact hbooks (sameBooks_init htimers _ _)
  case destroy =>
    cases hstep
    refine RefusesOnly.trans (t := s.rejectPending) ?_ (sameBooks_destroy htimers _ _).refusesOnly
    refine (refusesOnly_rejectAll s.pending.entries.reverse fun entry hentry => ?_).trans
      (refusesOnly_nothing rfl)
    exact .inl ⟨entry, List.mem_reverse.mp hentry, rfl⟩
  case continuation =>
    split_ifs at hstep
    cases hstep
    exact hbooks (sameBooks_bindCommBus _ _ _ _)
  case timer tid onThrows socketThrows =>
    obtain ⟨⟨callback, delay⟩, ht, rfl⟩ := Option.map_eq_some_iff.mp hstep
    cases callback with
    | request rid id =>
      refine (refusesOnly_refuse _ _ (.inl ⟨⟨rid, id, tid⟩, ?_, rfl⟩)).after rfl
      have hp := (h.armed rid id tid).mp ⟨delay, ht⟩
      exact List.mem_filter.mpr ⟨Table.lookup_eq_some_iff.mp hp, decide_eq_true rfl⟩
    | bindRetry | wsRetry => exact hbooks (sameBooks_onTimer htimers ht (by simp) _ _)
  case socketOpen i now =>
    split_ifs at hstep
    cases hstep
    exact hbooks ((sameBooks_setSocket i _).trans (sameBooks_onOpen now))
  case socketMessage =>
    split_ifs at hstep
    obtain ⟨fs, hfs, hrefused⟩ := refusesOnly_onHostMessage hstep
    exact ⟨fs, hfs, fun f hf rid horigin => .inr (hrefused f hf rid horigin)⟩
  case socketError | socketClose =>
    split_ifs at hstep
    cases hstep
    exact hbooks ((sameBooks_setSocket _ _).trans (sameBooks_onLost (htimers.setSocket _ _)))
  case socketDrop =>
    split_ifs at hstep
    cases hstep
    exact hbooks (sameBooks_setSocket _ _)
  case wasmMessage raw =>
    split_ifs at hstep
    cases hstep
    exact (refusesOnly_onWasmMessage raw).after rfl
  case callRejected n reason =>
    obtain ⟨c, hc, rfl⟩ := Option.map_eq_some_iff.mp hstep
    refine (refusesOnly_onCallRejected c reason fun p hp => ?_).after rfl
    refine .inl ⟨⟨c.requestId, p⟩, List.mem_filter.mpr ⟨Table.lookup_eq_some_iff.mp hp, ?_⟩, rfl⟩
    simp [hc]

/-- The request id of a response envelope. -/
def responseId (impl : Impl) (raw : Text) : Option String :=
  match raw.jsonParse.map (wasmMessage impl) with
  | some (.response rid _ _ _) => some rid
  | _ => none

/-- A response settles its request. -/
theorem pending_wasmMessage {raw : Text} {rid : String} (hraw : responseId impl raw = some rid)
    (hstep : step impl cfg s (.wasmMessage raw) = some t) : t.pending.lookup rid = none := by
  simp only [step] at hstep
  split_ifs at hstep
  cases hstep
  unfold responseId at hraw
  split at hraw
  · next rid' ok response error hmessage =>
    obtain rfl := Option.some.inj hraw
    obtain ⟨j, hparse, hj⟩ := Option.map_eq_some_iff.mp hmessage
    simp only [onWasmMessage, hparse, hj]
    cases hp : s.pending.lookup rid' with
    | none => exact hp
    | some p =>
      dsimp only
      split <;> exact (Table.lookup_erase_eq _ _ _).trans (if_pos rfl)
  · cases hraw

end InfinityBridge.Relay.State
