import InfinityBridge.EndToEnd.Timeouts

/-!
# Commands that nothing loses

The CommBus loses none of the texts of a command, the relay has a handle for it and does not
refuse it, and its socket stays open. Then the command is always somewhere on its way, its
caller gets nothing but the result of its one run, and when nothing is on its way any more
the result is in hand.
-/

namespace InfinityBridge.Host.Calls

variable {uuid : ℕ → String} {s t : Calls} {c : ℕ} {e : CallEvent} {P Q : AckPayload → Prop}

/-- The ack that call `c` has in hand, or has returned, is such an ack; without one it returns
an error of the host. -/
def Returns (P : AckPayload → Prop) (s : Calls) (c : ℕ) : Prop :=
  match (s.calls c).pc with
  | .waiting _ => ∀ a, (s.calls c).rx = some a → P a
  | .removing r => ∀ a, r = .ack a → P a
  | .finished result => (∃ a, P a ∧ result = ackOutcome a) ∨ ∃ e, result = .error e ∧
      (e.kind = .noClients ∨ e.kind = .transport ∨ e.kind = .timeout)
  | _ => True

/-- What a call may return is monotone in what its ack may be. -/
theorem Returns.mono (h : s.Returns P c) (hPQ : ∀ a, P a → Q a) : s.Returns Q c := by
  unfold Returns at h ⊢
  split
  · next hpc =>
    rw [hpc] at h
    exact fun a ha => hPQ a (h a ha)
  · next hpc =>
    rw [hpc] at h
    exact fun a ha => hPQ a (h a ha)
  · next hpc =>
    rw [hpc] at h
    exact h.imp_left fun ⟨a, ha, hresult⟩ => ⟨a, hPQ a ha, hresult⟩
  · trivial

/-- What a call goes on with is what it had in hand, or an error of the host. -/
theorem returns_step_own (h : s.Returns P c) (hstep : step uuid s e = some t)
    (hcaller : caller e = some c) (hinserted : (s.calls c).pc = .inserted → (s.calls c).rx = none)
    (hrefusing : ∀ e, (s.calls c).pc = .refusing e → e.kind = .noClients ∨ e.kind = .transport) :
    t.Returns P c := by
  cases e <;> simp only [caller, Option.some.injEq, reduceCtorEq] at hcaller <;> subst hcaller
  case deliver c =>
    simp only [step] at hstep
    split at hstep
    · next hpc =>
      split_ifs at hstep
      split at hstep <;> cases hstep
      · simp [Returns]
      · simp [Returns, hinserted hpc]
    · cases hstep
  case refuse c =>
    simp only [step] at hstep
    split at hstep <;> cases hstep
    next e hpc =>
    simp only [Returns, setPc_calls_self]
    exact .inr ⟨e, rfl, (hrefusing e hpc).imp_right .inl⟩
  case poll c =>
    simp only [step] at hstep
    split at hstep
    · next deadline hpc =>
      obtain ⟨r, hpoll, rfl⟩ := Option.map_eq_some_iff.mp hstep
      simp only [Returns, hpc] at h
      simp only [Returns, setPc_calls_self]
      rintro a rfl
      unfold pollResult at hpoll
      split at hpoll
      · next a' ha =>
        cases hpoll
        exact h a ha
      · split_ifs at hpoll <;> cases hpoll
    · cases hstep
  case remove c =>
    simp only [step] at hstep
    split at hstep <;> cases hstep
    next r hpc =>
    simp only [Returns, hpc] at h
    simp only [Returns, setPc_calls_self]
    cases r with
    | ack a => exact .inl ⟨a, h a rfl, rfl⟩
    | dropped => exact .inr ⟨_, rfl, .inr (.inl rfl)⟩
    | elapsed => exact .inr ⟨_, rfl, .inr (.inr rfl)⟩
  all_goals
    simp only [step] at hstep
    split at hstep <;> cases hstep <;> simp [Returns]

/-- Without the call itself, only a dispatch changes what it has in hand. -/
theorem returns_step_other (h : s.Returns P c) (hstep : step uuid s e = some t)
    (hcaller : caller e ≠ some c)
    (hsend : ∀ d a deadline, s.dispatching.lookup d = some (c, a) →
      (s.calls c).pc = .waiting deadline → P a) : t.Returns P c := by
  have hcall := call_step_other hstep hcaller
  unfold Returns at h ⊢
  rw [hcall]
  dsimp only
  split
  · next deadline hpc =>
    rw [hpc] at h
    intro a ha
    cases e with
    | sendAck d =>
      simp only [rxAfter] at ha
      split at ha
      · next c' a' hd =>
        split_ifs at ha with halive
        · obtain rfl := Option.some.inj ha
          exact hsend d a' deadline (halive.1 ▸ hd) hpc
        · exact h a ha
      · exact h a ha
    | _ => exact h a ha
  · next hpc =>
    rw [hpc] at h
    exact h
  · next hpc =>
    rw [hpc] at h
    exact h
  · trivial

/-- What a call returns is decided by the ack that a dispatch sends while it waits. -/
theorem returns_step (h : s.Returns P c) (hstep : step uuid s e = some t)
    (hinserted : (s.calls c).pc = .inserted → (s.calls c).rx = none)
    (hrefusing : ∀ e, (s.calls c).pc = .refusing e → e.kind = .noClients ∨ e.kind = .transport)
    (hsend : ∀ d a deadline, s.dispatching.lookup d = some (c, a) →
      (s.calls c).pc = .waiting deadline → P a) : t.Returns P c := by
  by_cases hcaller : caller e = some c
  · exact returns_step_own h hstep hcaller hinserted hrefusing
  · exact returns_step_other h hstep hcaller hsend

end InfinityBridge.Host.Calls

namespace InfinityBridge.EndToEnd

open Relay Wasm

namespace World

variable {uuid : ℕ → String} {impl : Impl} {cfg : ResolvedConfig} {w w' : World}

/-! ### Runs for a call -/

/-- A callback of the relay only adds to what has happened. -/
theorem RelayMoved.extends {e : RelayEvent} (h : RelayMoved impl cfg e w w') : Extends w w' where
  issued c hc := by rw [Issued, h.host]; exact ⟨hc, rfl, rfl⟩
  accepted := State.accepted_subset h.relay
  invocations := by rw [h.invocations]; exact fun _ hmem => hmem
  sent := by
    obtain ⟨fs, hfs, _⟩ := State.writes_step h.relay
    rw [hfs]
    exact List.subset_append_left _ _

/-- The bridge forgets no run of the handler. -/
theorem handle_invocations (w : World) (raw : Text) (result : Except String Value) :
    w.invocations ⊆ (w.handle raw result).invocations := by
  unfold World.handle
  split
  · exact List.subset_append_left _ _
  · exact fun _ hmem => hmem
  · exact fun _ hmem => hmem
  · exact fun _ hmem => hmem

/-- A step that leaves the host and the relay alone only adds runs of the handler. -/
theorem extends_of_same (hhost : w'.host = w.host) (hrelay : w'.relay = w.relay)
    (hruns : w.invocations ⊆ w'.invocations) : Extends w w' where
  issued c hc := by rw [Issued, hhost]; exact ⟨hc, rfl, rfl⟩
  accepted := by rw [hrelay]; exact fun _ hmem => hmem
  invocations := hruns
  sent := by rw [hrelay]; exact fun _ hmem => hmem

/-- No step undoes what texts are traced to. -/
theorem extends_step {ev : WorldEvent} (hstep : w.step uuid impl cfg ev = some w') :
    Extends w w' := by
  cases moves_step hstep with
  | host ev e hev hapart hsendTo hregister hconnected hstepped => exact hstepped.extends
  | callback e he hmoved | deliver _ _ _ _ _ _ _ _ hmoved | respond k raw hraw hfrom hmoved =>
    exact hmoved.extends
  | handle k result raw hraw hw' =>
    subst hw'
    let v : World := { w with toWasm := w.toWasm.eraseIdx k }
    obtain ⟨hhost, hrelay, _⟩ := handle_same v raw result
    exact extends_of_same hhost hrelay (handle_invocations v raw result)
  | emit name data hw' | cut i hw' =>
    subst hw'
    exact extends_of_same rfl rfl fun _ hmem => hmem
  | bus ev hapart hstepped => exact hstepped.extends

/-- An ack with the result of a run of the handler for call `c`. -/
def ResultOf (uuid : ℕ → String) (w : World) (c : ℕ) (a : AckPayload) : Prop :=
  ∃ r, w.RunFor uuid c r ∧ Host.ackOutcome a = expected r.result

/-- A command whose handler was run has been issued. -/
theorem RunFor.issued (huuid : Function.Injective uuid) (h : Facts uuid impl cfg w) {c : ℕ}
    {r : Invocation} (hr : w.RunFor uuid c r) : w.Issued c := by
  obtain ⟨c', hissued, _, hraw, _⟩ := h.traced.runs r hr.1
  have hid := hr.2.1
  rw [hraw, callId_envelope, commandId_cmd, Option.some.injEq] at hid
  obtain rfl := huuid hid
  exact hissued

/-- What is the result of a run stays it. -/
theorem ResultOf.mono (huuid : Function.Injective uuid) (h : Facts uuid impl cfg w) {c : ℕ}
    {a : AckPayload} (ha : ResultOf uuid w c a) (hext : Extends w w') : ResultOf uuid w' c a := by
  obtain ⟨r, hr, houtcome⟩ := ha
  obtain ⟨_, hname, hpayload⟩ := hext.issued c (hr.issued huuid h)
  exact ⟨r, ⟨hext.invocations hr.1, hr.2.1, hr.2.2.1.trans hname.symm,
    hr.2.2.2.trans hpayload.symm⟩, houtcome⟩

/-! ### Commands that are not refused -/

/-- The relay has not refused the command of call `c`. -/
def Unrefused (uuid : ℕ → String) (w : World) (c : ℕ) : Prop :=
  ∀ f ∈ w.relay.sent, ∀ rid, f.origin = .answer rid true →
    (rid, some (.str (uuid c))) ∉ w.relay.accepted

/-- An ack for a command that is not refused has the result of its run. -/
theorem Unrefused.resultOf (huuid : Function.Injective uuid) (h : Facts uuid impl cfg w) {c : ℕ}
    (hun : Unrefused uuid w c) {d : ℕ} {a : AckPayload} (htaken : .takeAck d a ∈ w.history)
    (hid : a.id = uuid c) : ResultOf uuid w c a := by
  obtain ⟨f, hf, hread⟩ := h.traced.acks d a htaken
  rcases h.ack_source huuid hf hread hid with hrun | ⟨_, ⟨f', hf', rid, horigin, hacc, _⟩, _⟩
  · exact hrun
  · exact absurd hacc (hun f' hf' rid horigin)

/-- A command that has not been delivered has not been accepted, let alone refused. -/
theorem Facts.unrefused_of_unissued (h : Facts uuid impl cfg w) {c : ℕ} (hc : ¬w.Issued c) :
    Unrefused uuid w c := by
  intro f _ rid _ hacc
  have hzero := (h.counted.unissued c hc).1
  rw [requestsOf, List.countP_eq_zero] at hzero
  exact hzero _ hacc (by simp [asString])

/-- A call has no ack before its command is delivered. -/
theorem Facts.rx_of_inserted (huuid : Function.Injective uuid) (h : Facts uuid impl cfg w) {c : ℕ}
    (hpc : (w.host.calls c).pc = .inserted) : (w.host.calls c).rx = none := by
  have hexpl := Host.Calls.explained_run huuid h.traced.ran c
  simp only [Host.Calls.Explained, hpc] at hexpl
  obtain ⟨before, after, hhistory, hphase⟩ := hexpl
  have hunissued : ¬w.Issued c := by simp [Issued, Host.Calls.BeforeDelivery, hpc]
  cases hp : Host.ackPhase (uuid c) after with
  | none =>
    rw [hp] at hphase
    exact hphase.2.2
  | taken d a =>
    rw [hp] at hphase
    exact hphase.2.2
  | handed a =>
    have hdescribes := Host.ackPhase_describes (uuid c) after
    rw [hp] at hdescribes
    obtain ⟨d, rest, ⟨earlier, hafter, hid, _⟩, _⟩ := hdescribes
    have htaken : .takeAck d a ∈ w.history := by simp [hhistory, hafter]
    obtain ⟨r, hr, _⟩ := (h.unrefused_of_unissued hunissued).resultOf huuid h htaken hid
    exact absurd (hr.issued huuid h) hunissued

/-- What a dispatch is about to send to a call that waits has been taken for it, and the call
has no ack yet. -/
theorem Facts.taken_of_dispatching (huuid : Function.Injective uuid) (h : Facts uuid impl cfg w)
    {c d : ℕ} {a : AckPayload} {deadline : Host.Instant}
    (hpc : (w.host.calls c).pc = .waiting deadline)
    (hd : w.host.dispatching.lookup d = some (c, a)) :
    w.host.awaits c = some deadline ∧ .takeAck d a ∈ w.history ∧ a.id = uuid c := by
  have hexpl := Host.Calls.explained_run huuid h.traced.ran c
  simp only [Host.Calls.Explained, hpc] at hexpl
  obtain ⟨before, after, hhistory, hphase⟩ := hexpl
  cases hp : Host.ackPhase (uuid c) after with
  | none =>
    rw [hp] at hphase
    exact absurd hd (hphase.2.1 d a)
  | taken d' a' =>
    rw [hp] at hphase
    obtain ⟨rfl, rfl⟩ := (hphase.2.1 d a).mp hd
    have hdescribes := Host.ackPhase_describes (uuid c) after
    rw [hp] at hdescribes
    obtain ⟨rest, ⟨earlier, hafter, hid, _⟩, _⟩ := hdescribes
    exact ⟨Host.Calls.awaits_eq_some.mpr ⟨hpc, hphase.2.2⟩, by simp [hhistory, hafter], hid⟩
  | handed a' =>
    rw [hp] at hphase
    exact absurd hd (hphase.2.1 d a)

/-- What would lose the command of call `c`, or make the relay refuse it, does not happen: the
CommBus loses neither its call nor the response to it, the relay has a handle when the command
arrives and the call does not throw, and while its request is pending neither does its timer fire
nor is its call rejected nor the relay destroyed. -/
def Spared (uuid : ℕ → String) (impl : Impl) (c : ℕ) (w : World) : WorldEvent → Prop
  | .host (.start c' _ payload _) => c' = c → payload.depth + 2 < recursionLimit
  | .loseCall k => ∀ t ∈ w.toWasm[k]?, callId t ≠ some (uuid c)
  | .loseResponse k => ∀ t ∈ w.fromWasm[k]?, ∀ rid ∈ State.responseId impl t,
      ∀ p ∈ w.relay.pending.lookup rid, p.cmdId.bind asString ≠ some (uuid c)
  | .deliver i _ _ callThrows => ∀ t ∈ (w.down i).head?, frameId t = some (uuid c) →
      w.relay.commBus ≠ none ∧ callThrows = false
  | .relay e => ∀ entry ∈ w.relay.refusable e, entry.2.cmdId.bind asString ≠ some (uuid c)
  | _ => True

/-- What a callback may refuse is pending. -/
theorem lookup_of_refusable {s : Relay.State} {e : RelayEvent}
    {entry : Sigma fun _ : String => PendingRequest} (h : entry ∈ s.refusable e) :
    s.pending.lookup entry.1 = some entry.2 := by
  refine Table.lookup_eq_some_iff.mpr ?_
  cases e <;> simp only [State.refusable, List.mem_filter, List.not_mem_nil] at h
  case destroy => exact h
  case timer | callRejected => exact h.1

/-- A callback that refuses nothing of call `c`. -/
theorem RelayMoved.unrefused (h : Facts uuid impl cfg w) (h' : Facts uuid impl cfg w')
    {e : RelayEvent} (hmoved : RelayMoved impl cfg e w w') {c : ℕ}
    (hrefusable : ∀ entry ∈ w.relay.refusable e, entry.2.cmdId ≠ some (.str (uuid c)))
    (haccepting : w.relay.commBus = none →
      ∀ rid, State.accepting impl w.relay e ≠ some (rid, some (.str (uuid c))))
    (hun : Unrefused uuid w c) : Unrefused uuid w' c := by
  obtain ⟨fs, hfs, hrefused⟩ := State.refusesOnly_step h.books h.timers hmoved.relay
  have hsubset := State.accepted_subset hmoved.relay
  intro f hf rid horigin hacc
  rw [hfs] at hf
  rcases List.mem_append.mp hf with hf | hf
  · obtain ⟨id, _, hacc₀, _⟩ := h.books.refused f hf rid horigin
    obtain rfl := h'.accepted_inj hacc (hsubset hacc₀)
    exact hun f hf rid horigin hacc₀
  · rcases hrefused f hf rid horigin with ⟨entry, hentry, rfl⟩ | ⟨hbus, id, hnew⟩
    · have hacc₀ := h.books.pending _ _ (lookup_of_refusable hentry)
      exact hrefusable entry hentry (h'.accepted_inj hacc (hsubset hacc₀)).symm
    · obtain ⟨haccepted, _⟩ := State.accepting_step hnew hmoved.relay
      have hmem : (rid, id) ∈ w'.relay.accepted := by
        rw [haccepted]
        exact List.mem_append_right _ (List.mem_singleton_self _)
      obtain rfl := h'.accepted_inj hacc hmem
      exact haccepting hbus rid hnew

/-- A frame whose command is accepted is that of this command. -/
theorem Facts.frameId_of_accepting (h : Facts uuid impl cfg w) {i : ℕ} {frame : Text}
    {frames : List Text} (hfirst : w.down i = frame :: frames) {now : TimeValue}
    {onThrows callThrows : Bool} {rid id : String}
    (haccepting : State.accepting impl w.relay
      (.socketMessage i (some frame) now onThrows callThrows) = some (rid, some (.str id))) :
    frameId frame = some id := by
  have hmem : frame ∈ w.inbound i := by
    rw [inbound, hfirst]
    simp
  rcases h.traced.frames i frame hmem with ⟨c, _, rfl⟩ | ⟨e, rfl⟩ | ⟨ts, rfl | rfl⟩
  · simp only [State.accepting, WireMsg.toJson, Option.bind_some, Text.jsonParse_doc,
      Option.map_some, hostMessage_cmd] at haccepting
    split_ifs at haccepting
    rw [frameId_cmd]
    simpa using (Prod.mk.inj (Option.some.inj haccepting)).2
  · simp [State.accepting, WireMsg.toJson, hostMessage_event] at haccepting
  · cases impl <;> simp [State.accepting, WireMsg.toJson, hostMessage, WireMsg.toValue,
      Json.property, Json.named] at haccepting
  · cases impl <;> simp [State.accepting, WireMsg.toJson, hostMessage, WireMsg.toValue,
      Json.property, Json.named] at haccepting

/-- A command that is spared is not refused. -/
theorem unrefused_step (h : Facts uuid impl cfg w) (h' : Facts uuid impl cfg w') {c : ℕ}
    {ev : WorldEvent} (hspared : w.Spared uuid impl c ev)
    (hstep : w.step uuid impl cfg ev = some w') (hun : Unrefused uuid w c) :
    Unrefused uuid w' c := by
  have hsame (hrelay : w'.relay = w.relay) : Unrefused uuid w' c := by
    rw [Unrefused, hrelay]
    exact hun
  cases moves_step hstep with
  | host ev e hev hapart hsendTo hregister hconnected hstepped => exact hsame hstepped.relay
  | callback e he hmoved =>
    refine hmoved.unrefused h h' (fun entry hentry hid => ?_) (fun _ rid hnew => ?_) hun
    · exact hspared entry hentry (by rw [hid]; rfl)
    · cases e with
      | socketMessage => cases he
      | _ => cases hnew
  | deliver i frame frames now onThrows callThrows hws hfirst hmoved =>
    refine hmoved.unrefused h h' (fun _ hentry => by cases hentry) (fun hbus rid hnew => ?_) hun
    exact (hspared frame (by rw [hfirst, List.head?_cons]; rfl)
      (h.frameId_of_accepting hfirst hnew)).1 hbus
  | respond k raw hraw hfrom hmoved =>
    exact hmoved.unrefused h h' (fun _ hentry => by cases hentry) (fun _ rid hnew => by cases hnew)
      hun
  | handle k result raw hraw hw' =>
    exact hsame (hw' ▸ (handle_same _ _ _).2.1)
  | emit name data hw' | cut i hw' => exact hsame (hw' ▸ rfl)
  | bus ev hapart hstepped => exact hsame hstepped.relay

/-! ### The way of a command -/

/-- Where the command of call `c`, its response or its ack is on its way. -/
inductive Passing (uuid : ℕ → String) (impl : Impl) (w : World) (c i : ℕ) : Prop
  | sent (h : 0 < w.waiting uuid c i)
  | called (rid : String) (tid : ℕ)
    (hp : w.relay.pending.lookup rid = some ⟨some (.str (uuid c)), tid⟩) (hissued : w.Issued c)
    (hcall : .doc (envelope rid (WireMsg.cmd (w.command uuid c)).toValue) ∈ w.toWasm)
  | responded (rid : String) (tid : ℕ)
    (hp : w.relay.pending.lookup rid = some ⟨some (.str (uuid c)), tid⟩) (t : Text)
    (ht : t ∈ w.fromWasm) (hrid : State.responseId impl t = some rid)
  | acked (h : Acked uuid w c i)
  | taken (d : ℕ) (a : AckPayload) (h : w.host.dispatching.lookup d = some (c, a))

/-- Both relays read the request id off a response of the bridge. -/
theorem responseId_ofResult (rid : String) (result : Except String Value) :
    State.responseId impl (.doc (CommBusResponse.ofResult rid result).toValue) = some rid := by
  obtain ⟨ok, response, error, hresponse, _⟩ :=
    responseAck_responseDoc impl numberText "" rid result
  rw [State.responseId, Text.jsonParse_doc, Option.map_some, toValue_ofResult, hresponse]

/-- The bridge answers a command that is not nested too deeply. -/
theorem handle_command (v : World) {rid : String} {p : CmdPayload}
    (hdepth : p.payload.depth + 2 < recursionLimit) (result : Except String Value) :
    (v.handle (.doc (envelope rid (WireMsg.cmd p).toValue)) result).fromWasm =
      v.fromWasm ++ [.doc (CommBusResponse.ofResult rid result).toValue] := by
  have hlimit : (envelope rid (WireMsg.cmd p).toValue).depth < recursionLimit := by
    rw [depth_envelope, toValue_cmd, depth_commandDoc]
    exact hdepth
  simp only [World.handle, dispatch_exact, if_pos hlimit, WireMsg.fromValue_toValue,
    WireMsg.canonical]
  rfl

/-- What is taken out of a queue at another place stays in it. -/
theorem mem_eraseIdx {ts : List Text} {k : ℕ} {t : Text} (ht : t ∈ ts)
    (hne : ∀ u ∈ ts[k]?, u ≠ t) : t ∈ ts.eraseIdx k := by
  obtain ⟨n, hn⟩ := List.mem_iff_getElem?.mp ht
  refine List.mem_eraseIdx_iff_getElem?.mpr ⟨n, ?_, hn⟩
  rintro rfl
  exact hne t hn rfl

/-- A command on its socket stays there, or it becomes a call on the CommBus, or it is answered
at once. -/
theorem passing_of_waiting (huuid : Function.Injective uuid) (h : Facts uuid impl cfg w)
    (h' : Facts uuid impl cfg w') (hbound : w'.relay.requests < 2 ^ 31)
    (hlost : w'.relay.lost = []) (hshallow : w'.Shallow) {c i : ℕ} {ev : WorldEvent}
    (hspared : w.Spared uuid impl c ev) (hstep : w.step uuid impl cfg ev = some w')
    (hopen : w'.relay.openSocket = some i) (hcut : w'.cut i = false)
    (hwriter : ev ≠ .host (.writerEnds i)) (hwaiting : 0 < w.waiting uuid c i) :
    Passing uuid impl w' c i := by
  have hext := extends_step hstep
  rcases waiting_or_accepted huuid h hstep hcut hwriter hwaiting with
    hwaiting' | ⟨hissued, now, onThrows, callThrows, rid, rfl, hhead, hmoved, haccepting⟩
  · exact .sent hwaiting'
  obtain ⟨hbus, rfl⟩ := hspared _ hhead (frameId_cmd _)
  obtain ⟨hacc, ⟨hpending, _⟩ | hanswer⟩ := h.books.accepting_cases h'.books hbound hlost
    hmoved.relay haccepting
  · have hcalls := State.newCalls_of_accepting h.timers hbus (Text.jsonParse_doc _) hmoved.relay
      haccepting
    refine .called rid _ hpending (hext.issued c hissued).1 ?_
    rw [hmoved.toWasm, hcalls, hext.command hissued]
    exact List.mem_append_right _ (List.mem_singleton_self _)
  · exact .acked (acked_of_answered h' hshallow hmoved hopen (hmoved.cut ▸ hcut) hacc hanswer)

/-- The call of a command whose request is pending stays on the CommBus until the bridge answers
it. -/
theorem passing_of_called {c i : ℕ} {ev : WorldEvent}
    (hdepth : w.Issued c → (w.host.calls c).payload.depth + 2 < recursionLimit)
    (hspared : w.Spared uuid impl c ev) (hstep : w.step uuid impl cfg ev = some w')
    {rid : String} {tid : ℕ}
    (hp' : w'.relay.pending.lookup rid = some ⟨some (.str (uuid c)), tid⟩) (hissued : w.Issued c)
    (hcall : .doc (envelope rid (WireMsg.cmd (w.command uuid c)).toValue) ∈ w.toWasm) :
    Passing uuid impl w' c i := by
  have hext := extends_step hstep
  have hkept (hmem : .doc (envelope rid (WireMsg.cmd (w.command uuid c)).toValue) ∈ w'.toWasm) :
      Passing uuid impl w' c i :=
    .called rid tid hp' (hext.issued c hissued).1 (by rwa [hext.command hissued])
  cases moves_step hstep with
  | host ev e hev hapart hsendTo hregister hconnected hstepped =>
    exact hkept (hstepped.toWasm ▸ hcall)
  | callback e he hmoved | deliver _ _ _ _ _ _ _ _ hmoved | respond k raw hraw hfrom hmoved =>
    refine hkept ?_
    rw [hmoved.toWasm]
    exact List.mem_append_left _ hcall
  | handle k result raw hraw hw' =>
    by_cases htext : raw = .doc (envelope rid (WireMsg.cmd (w.command uuid c)).toValue)
    · subst htext hw'
      refine .responded rid tid hp' _ ?_ (responseId_ofResult rid result)
      rw [handle_command _ (hdepth hissued)]
      exact List.mem_append_right _ (List.mem_singleton_self _)
    · refine hkept ?_
      rw [hw', (handle_same _ _ _).2.2.2.2.2]
      refine mem_eraseIdx hcall fun u hu => ?_
      rw [hraw, Option.mem_some_iff] at hu
      exact hu ▸ htext
  | emit name data hw' | cut j hw' => exact hkept (hw' ▸ hcall)
  | bus ev hapart hstepped hcalls =>
    refine hkept ?_
    rcases hcalls with hsame | ⟨k, rfl, herased⟩
    · rwa [hsame]
    · rw [herased]
      refine mem_eraseIdx hcall fun u hu => ?_
      rintro rfl
      exact hspared _ hu (by rw [callId_envelope, commandId_cmd]; rfl)

/-- The response to a request that is pending stays on the CommBus until the relay hears it. -/
theorem passing_of_responded {c i : ℕ} {ev : WorldEvent} (hspared : w.Spared uuid impl c ev)
    (hstep : w.step uuid impl cfg ev = some w') {rid : String} {tid : ℕ} {t : Text}
    (hp : w.relay.pending.lookup rid = some ⟨some (.str (uuid c)), tid⟩)
    (hp' : w'.relay.pending.lookup rid = some ⟨some (.str (uuid c)), tid⟩)
    (ht : t ∈ w.fromWasm) (hrid : State.responseId impl t = some rid) :
    Passing uuid impl w' c i := by
  have hkept (hmem : t ∈ w'.fromWasm) : Passing uuid impl w' c i :=
    .responded rid tid hp' t hmem hrid
  cases moves_step hstep with
  | host ev e hev hapart hsendTo hregister hconnected hstepped =>
    exact hkept (hstepped.fromWasm ▸ ht)
  | callback e he hmoved hdown hfrom | deliver _ _ _ _ _ _ _ _ hmoved hdown hfrom =>
    exact hkept (hfrom ▸ ht)
  | respond k raw hraw hfrom hmoved =>
    rcases List.mem_cons.mp ((perm_eraseIdx hraw).symm.subset ht) with rfl | hmem
    · rw [State.pending_wasmMessage hrid hmoved.relay] at hp'
      cases hp'
    · exact hkept (hfrom ▸ hmem)
  | handle k result raw hraw hw' =>
    let v : World := { w with toWasm := w.toWasm.eraseIdx k }
    obtain ⟨ts, hts, _⟩ := handle_fromWasm v raw result
    refine hkept ?_
    rw [hw', hts]
    exact List.mem_append_left _ ht
  | emit name data hw' =>
    refine hkept ?_
    rw [hw']
    exact List.mem_append_left _ ht
  | cut j hw' => exact hkept (hw' ▸ ht)
  | bus ev hapart hstepped hcalls hfrom =>
    refine hkept ?_
    rcases hfrom with hsame | ⟨k, rfl, herased⟩
    · rwa [hsame]
    · rw [herased]
      refine mem_eraseIdx ht fun u hu => ?_
      rintro rfl
      exact hspared _ hu rid hrid _ hp rfl

/-- A command that is spared passes from one place to the next. -/
theorem Passing.step (huuid : Function.Injective uuid) (h : Facts uuid impl cfg w)
    (h' : Facts uuid impl cfg w') (hbound : w'.relay.requests < 2 ^ 31)
    (hlost : w'.relay.lost = []) (hshallow : w'.Shallow) {c i : ℕ}
    (hdepth : w.Issued c → (w.host.calls c).payload.depth + 2 < recursionLimit) {ev : WorldEvent}
    (hspared : w.Spared uuid impl c ev) (hstep : w.step uuid impl cfg ev = some w')
    {deadline : Host.Instant} (hopen : w'.relay.openSocket = some i) (hcut : w'.cut i = false)
    (hwriter : ev ≠ .host (.writerEnds i)) (hbefore : w.host.awaits c = some deadline)
    (hafter : w'.host.awaits c = some deadline) (hpassing : Passing uuid impl w c i) :
    Passing uuid impl w' c i := by
  cases hpassing with
  | sent hwaiting =>
    exact passing_of_waiting huuid h h' hbound hlost hshallow hspared hstep hopen hcut hwriter
      hwaiting
  | called rid tid hp hissued hcall =>
    rcases request_step h h' hbound hlost hshallow hstep hopen hcut hp with hp' | ⟨hacked, _⟩
    · exact passing_of_called hdepth hspared hstep hp' hissued hcall
    · exact .acked hacked
  | responded rid tid hp t ht hrid =>
    rcases request_step h h' hbound hlost hshallow hstep hopen hcut hp with hp' | ⟨hacked, _⟩
    · exact passing_of_responded hspared hstep hp hp' ht hrid
    · exact .acked hacked
  | acked hacked =>
    rcases acked_step huuid h' hstep hafter hcut hacked with hacked' | ⟨d, a, hd⟩
    · exact .acked hacked'
    · exact .taken d a hd
  | taken d a hd => exact .taken d a (dispatching_kept hstep hd hbefore hafter)

/-- Nothing is on its way on the open socket, on the CommBus, or in a dispatch. -/
def AtRest (w : World) : Prop :=
  (∀ i ∈ w.relay.openSocket, w.inbound i = [] ∧ w.up i = []) ∧ w.toWasm = [] ∧
    w.fromWasm = [] ∧ w.host.dispatching.entries = []

/-- At rest no command is on its way. -/
theorem AtRest.not_passing (h : w.AtRest) {c i : ℕ} (hopen : w.relay.openSocket = some i) :
    ¬Passing uuid impl w c i := by
  obtain ⟨hsocket, hcalls, htexts, hdispatching⟩ := h
  obtain ⟨hinbound, hup⟩ := hsocket i hopen
  intro hpassing
  cases hpassing with
  | sent hwaiting =>
    rw [waiting_eq_zero hinbound] at hwaiting
    cases hwaiting
  | called rid tid hp hissued hcall =>
    rw [hcalls] at hcall
    cases hcall
  | responded rid tid hp t ht hrid =>
    rw [htexts] at ht
    cases ht
  | acked hacked =>
    obtain ⟨t, ht, _⟩ := hacked
    rw [hup] at ht
    cases ht
  | taken d a hd =>
    have hmem := Table.lookup_eq_some_iff.mp hd
    rw [hdispatching] at hmem
    cases hmem

end World

namespace Clocked

variable {uuid : ℕ → String} {impl : Impl} {cfg : ResolvedConfig} {p p' : Clocked} {c : ℕ}

/-- What holds in every state of a run that spares the command of call `c`. -/
structure Served (uuid : ℕ → String) (impl : Impl) (cfg : ResolvedConfig) (c : ℕ) (p : Clocked) :
    Prop where
  onTime : OnTime uuid impl cfg c p
  shallow : p.world.host.StartedWith (fun payload _ => payload.depth + 2 < recursionLimit) c
  unrefused : (p.world.host.awaits c).isSome → World.Unrefused uuid p.world c
  passing : (p.world.host.awaits c).isSome →
    ∃ i, p.world.relay.openSocket = some i ∧ World.Passing uuid impl p.world c i
  returns : p.world.host.Returns (World.ResultOf uuid p.world c) c

/-- At first no call waits. -/
theorem served_init : Served uuid impl cfg c (init impl cfg) where
  onTime := onTime_init
  shallow hpc := absurd rfl hpc
  unrefused h := by cases h
  passing h := by cases h
  returns := trivial

/-- A call has no ack but that of the run for its command. -/
theorem Served.returns_step (huuid : Function.Injective uuid) (h : Served uuid impl cfg c p)
    {ev : WorldEvent} (hstep : p.world.step uuid impl cfg ev = some p'.world) :
    p'.world.host.Returns (World.ResultOf uuid p'.world c) c := by
  have hfacts := h.onTime.facts
  refine Host.Calls.Returns.mono (P := World.ResultOf uuid p.world c) ?_
    fun a ha => ha.mono huuid hfacts (World.extends_step hstep)
  rcases World.host_step hstep with hsame | ⟨e, _, he⟩
  · exact hsame ▸ h.returns
  · refine Host.Calls.returns_step h.returns he (hfacts.rx_of_inserted huuid) ?_ ?_
    · intro e hpc
      have hexpl := Host.Calls.explained_run huuid hfacts.traced.ran c
      simp only [Host.Calls.Explained, hpc] at hexpl
      exact hexpl.1
    · intro d a deadline hd hpc
      obtain ⟨hawaits, htaken, hid⟩ := hfacts.taken_of_dispatching huuid hpc hd
      exact (h.unrefused (by rw [hawaits]; rfl)).resultOf huuid hfacts htaken hid

/-- Every step that is fair to the call and spares it brings it on. -/
theorem served_step (huuid : Function.Injective uuid) (h : Served uuid impl cfg c p)
    (hbound : p'.world.relay.requests < 2 ^ 31) {ev : WorldEvent}
    (hfair : p.Fair uuid impl cfg c ev) (hspared : p.world.Spared uuid impl c ev)
    (hstep : p.step uuid impl cfg ev = some p') : Served uuid impl cfg c p' := by
  have hw := world_step hstep
  have honTime := onTime_step huuid h.onTime hbound hfair hstep
  have hbefore {deadline : Host.Instant} (hafter : p'.world.host.awaits c = some deadline) :
      p.world.host.awaits c = some deadline ∨
        (p.world.host.awaits c = none ∧ ¬p.world.Issued c) := by
    rcases World.host_step hw with hsame | ⟨e, _, he⟩
    · exact .inl (hsame ▸ hafter)
    · refine (Host.Calls.awaits_step he hafter).imp (·.1) fun hnew => ⟨hnew.1, ?_⟩
      simp [World.Issued, Host.Calls.BeforeDelivery, hnew.2.1]
  refine ⟨honTime, ?_, fun hafter => ?_, fun hafter => ?_, h.returns_step huuid hw⟩
  · rcases World.host_step hw with hsame | ⟨e, hev, he⟩
    · exact hsame ▸ h.shallow
    · refine Host.Calls.startedWith_step h.shallow (fun name payload timeout hstart => ?_) he
      subst hstart
      rw [hev rfl] at hspared
      exact hspared rfl
  · obtain ⟨deadline, hafter⟩ := Option.isSome_iff_exists.mp hafter
    refine World.unrefused_step h.onTime.facts honTime.facts hspared hw ?_
    rcases hbefore hafter with hbefore | ⟨_, hunissued⟩
    · exact h.unrefused (by rw [hbefore]; rfl)
    · exact h.onTime.facts.unrefused_of_unissued hunissued
  · obtain ⟨i, hopen, hcut, hif⟩ := hfair.2 p'.world hw hafter
    obtain ⟨deadline, hafter⟩ := Option.isSome_iff_exists.mp hafter
    refine ⟨i, hopen, ?_⟩
    rcases hbefore hafter with hbefore | ⟨hnone, _⟩
    · rw [hbefore] at hif
      obtain ⟨i', hopen', hpassing⟩ := h.passing (by rw [hbefore]; rfl)
      obtain rfl : i = i' := Option.some.inj (hif.symm.trans hopen')
      have hwriter : ev ≠ .host (.writerEnds i) := by
        rintro rfl
        exact hfair.1 (by rw [hbefore]; rfl) hopen'
      refine hpassing.step huuid h.onTime.facts honTime.facts hbound honTime.lost honTime.shallow
        (fun hissued => h.shallow fun hidle => hissued ?_) hspared hw hopen hcut hwriter hbefore
        hafter
      simp [Host.Calls.BeforeDelivery, hidle]
    · rw [hnone] at hif
      exact .sent hif

/-- A command that is put on a socket which stays open, and is spared on the CommBus and in the
relay, is carried out: while its caller waits and nothing is on its way, the result of its one
run is in hand, and the caller gets this result, or an error of the host about its delivery. -/
theorem spared_commands_return (huuid : Function.Injective uuid) {evs : List WorldEvent}
    (hrun : Transition.run (Clocked.step uuid impl cfg) (init impl cfg) evs = some p)
    (hbound : p.world.relay.requests < 2 ^ 31) (c : ℕ)
    (hspared : Transition.Meets (Clocked.step uuid impl cfg)
      (fun p ev => p.Fair uuid impl cfg c ev ∧ p.world.Spared uuid impl c ev) (init impl cfg)
      evs) :
    (∀ deadline, (p.world.host.calls c).pc = .waiting deadline → p.world.AtRest →
      ∃ r a, p.world.RunFor uuid c r ∧ (p.world.host.calls c).rx = some a ∧
        Host.ackOutcome a = expected r.result) ∧
    ∀ result, (p.world.host.calls c).pc = .finished result →
      (∃ r, p.world.RunFor uuid c r ∧ result = expected r.result) ∨
        ∃ e, result = .error e ∧ (e.kind = .noClients ∨ e.kind = .transport) := by
  have hinvariant := Transition.run_invariant_of_meets
    (I := fun p => State.TimersOk p.world.relay ∧
      (p.world.relay.requests < 2 ^ 31 → Served uuid impl cfg c p)) ?_ hspared hrun
    ⟨State.timersOk_make, fun _ => served_init⟩
  · have h := hinvariant.2 hbound
    have hreturns := h.returns
    refine ⟨fun deadline hpc hrest => ?_, fun result hpc => ?_⟩
    · cases hrx : (p.world.host.calls c).rx with
      | none =>
        have hawaits := Host.Calls.awaits_eq_some.mpr ⟨hpc, hrx⟩
        obtain ⟨i, hopen, hpassing⟩ := h.passing (by rw [hawaits]; rfl)
        exact absurd hpassing (hrest.not_passing hopen)
      | some a =>
        simp only [Host.Calls.Returns, hpc] at hreturns
        obtain ⟨r, hr, houtcome⟩ := hreturns a hrx
        exact ⟨r, a, hr, rfl, houtcome⟩
    · simp only [Host.Calls.Returns, hpc] at hreturns
      rcases hreturns with ⟨a, ⟨r, hr, houtcome⟩, hresult⟩ | ⟨e, rfl, hkind⟩
      · exact .inl ⟨r, hr, hresult.trans houtcome⟩
      · have hintime := h.onTime.inTime
        simp only [Host.Calls.InTime, hpc] at hintime
        exact .inr ⟨e, rfl, hkind.imp_right fun hkind => hkind.resolve_right (hintime e rfl)⟩
  · rintro p ev p' ⟨htimers, h⟩ ⟨hfair, hspared⟩ hstep
    obtain ⟨htimers', hrequests⟩ := requests_step htimers hstep
    refine ⟨htimers', fun hlt => ?_⟩
    exact served_step huuid (h (hrequests.trans_lt hlt)) hlt hfair hspared hstep

instance (c : ℕ) (w : World) (ev : WorldEvent) : Decidable (w.Spared uuid impl c ev) := by
  unfold World.Spared
  cases ev with
  | host e => cases e <;> exact inferInstance
  | _ => exact inferInstance

/-- The event that follows the command is lost, and the module takes two seconds. -/
def slowModule : List WorldEvent :=
  [.relay (.init false false), .relay (.socketOpen 0 .epoch), .accept 0,
    .host (.start 1 (some "set") (.bool true) 3000000000), .host (.insert 1), .host (.deliver 1),
    .host (.emit "tick" .null), .send 0, .send 0, .deliver 0 .epoch false false,
    .deliver 0 .epoch false false, .loseCall 1, .receive 0 0, .receive 0 0,
    .host (.tick 2000000000), .handle 0 (.ok (.str "done")), .respond 0, .receive 0 0,
    .host (.sendAck 0), .host (.poll 1), .host (.remove 1)]

/-- The run exists. -/
theorem slowModule_isSome : (Transition.run
    (Clocked.step Host.Calls.wordId .typescript defaultConfig)
    (init .typescript defaultConfig) slowModule).isSome = true := by
  decide +kernel

/-- The caller gets what the handler has returned. -/
theorem spared_commands_return_slowModule : ∃ p,
    Transition.run (Clocked.step Host.Calls.wordId .typescript defaultConfig)
      (init .typescript defaultConfig) slowModule = some p ∧
    ∃ r, p.world.RunFor Host.Calls.wordId 1 r ∧ .ok (.str "done") = expected r.result := by
  have hrun := (Option.some_get slowModule_isSome).symm
  refine ⟨_, hrun, ?_⟩
  have hreturned := (spared_commands_return Host.Calls.wordId_injective hrun (by decide +kernel) 1
    (by decide +kernel)).2 (.ok (.str "done"))
    (World.eq_finished_of_returnedText (by decide +kernel))
  rcases hreturned with hdone | ⟨e, herror, _⟩
  · exact hdone
  · cases herror

end Clocked

end InfinityBridge.EndToEnd
