import InfinityBridge.EndToEnd.Correctness
import InfinityBridge.EndToEnd.Moves
import InfinityBridge.Relay.Handshake
import InfinityBridge.Relay.Replies

/-!
# The two timeouts

A command has a timeout at the host and another one at the relay. When that of the relay is
the shorter one, the answer of the relay, or its diagnosis, comes before the host gives up.
The clock is the one of the host, and the relay measures its delays on it. It advances only
when nothing is on its way on the open socket, and no further than to the next request
timer. The CommBus and the module may take any time, and may lose everything.
-/

namespace InfinityBridge.Host.Calls

variable {uuid : ℕ → String} {s t : Calls} {c : ℕ} {e : CallEvent}

/-- Until when the future of call `c` awaits its ack, if it does. -/
def awaits (s : Calls) (c : ℕ) : Option Instant :=
  match (s.calls c).pc, (s.calls c).rx with
  | .waiting deadline, none => some deadline
  | _, _ => none

/-- Call `c` has not timed out. -/
def InTime (s : Calls) (c : ℕ) : Prop :=
  match (s.calls c).pc with
  | .refusing e => e.kind ≠ .timeout
  | .removing r => r ≠ .elapsed
  | .finished r => ∀ e, r = .error e → e.kind ≠ .timeout
  | _ => True

/-- Call `c` has been started, if it has, with such a payload and timeout. -/
def StartedWith (P : Value → Duration → Prop) (s : Calls) (c : ℕ) : Prop :=
  (s.calls c).pc ≠ .idle → P (s.calls c).payload (s.calls c).timeout

/-- A call awaits its ack when it waits and none has been handed to it. -/
theorem awaits_eq_some {deadline : Instant} : s.awaits c = some deadline ↔
    (s.calls c).pc = .waiting deadline ∧ (s.calls c).rx = none := by
  unfold awaits
  split <;> simp_all

/-- Only the clock itself moves the clock. -/
theorem now_step (hstep : step uuid s e = some t) :
    t.now = s.now ∨ ∃ d, e = .tick d ∧ t.now = s.now + d := by
  have hlocked {f : Hub → Hub} (h : s.locked f = some t) : t.now = s.now := by
    unfold locked at h
    split_ifs at h
    cases h
    rfl
  cases e with
  | tick d =>
    cases hstep
    exact .inr ⟨d, rfl, rfl⟩
  | start | insert | refuse | remove | drop | sendAck =>
    simp only [step] at hstep
    split at hstep <;> cases hstep <;> exact .inl rfl
  | deliver c =>
    simp only [step] at hstep
    split at hstep
    · split_ifs at hstep
      split at hstep <;> cases hstep <;> exact .inl rfl
    · cases hstep
  | poll c =>
    simp only [step] at hstep
    split at hstep
    · obtain ⟨r, _, rfl⟩ := Option.map_eq_some_iff.mp hstep
      exact .inl rfl
    · cases hstep
  | takeAck d a =>
    simp only [step] at hstep
    split_ifs at hstep
    split at hstep <;> cases hstep <;> exact .inl rfl
  | reap now timeout =>
    simp only [step] at hstep
    split_ifs at hstep
    exact .inl (hlocked hstep)
  | register | unregister | touch | hello | ready | emit | sendTo =>
    simp only [step] at hstep
    exact .inl (hlocked hstep)
  | event | writerEnds | writerSends =>
    cases hstep
    exact .inl rfl

/-- A future that awaits its ack did so before, or it has just delivered its command. -/
theorem awaits_step (hstep : step uuid s e = some t) {deadline : Instant}
    (h : t.awaits c = some deadline) :
    (s.awaits c = some deadline ∧ caller e ≠ some c) ∨
      (s.awaits c = none ∧ (s.calls c).pc = .inserted ∧ t.now = s.now ∧
        deadline = s.now + (s.calls c).timeout) := by
  obtain ⟨hpc, hrx⟩ := awaits_eq_some.mp h
  by_cases hcaller : caller e = some c
  · cases e <;> simp only [caller, Option.some.injEq, reduceCtorEq] at hcaller <;> subst hcaller
    case deliver c =>
      simp only [step] at hstep
      split at hstep
      · next hpc₀ =>
        split_ifs at hstep
        split at hstep <;> cases hstep
        · simp at hpc
        · refine .inr ⟨by simp only [awaits, hpc₀], hpc₀, rfl, ?_⟩
          simpa [eq_comm] using hpc
      · cases hstep
    case poll c =>
      simp only [step] at hstep
      split at hstep
      · obtain ⟨r, _, rfl⟩ := Option.map_eq_some_iff.mp hstep
        simp at hpc
      · cases hstep
    all_goals
      simp only [step] at hstep
      split at hstep <;> cases hstep <;> simp at hpc
  · have hcall := call_step_other hstep hcaller
    have hbefore : (s.calls c).rx = none := by
      rw [hcall] at hrx
      unfold rxAfter at hrx
      split at hrx
      · split at hrx
        · split_ifs at hrx
          exact hrx
        · exact hrx
      · exact hrx
    rw [hcall] at hpc
    exact .inl ⟨awaits_eq_some.mpr ⟨hpc, hbefore⟩, hcaller⟩

/-- A call keeps the payload and the timeout with which it has started. -/
theorem startedWith_step {P : Value → Duration → Prop} (h : s.StartedWith P c)
    (hstart : ∀ name payload timeout, e = .start c name payload timeout → P payload timeout)
    (hstep : step uuid s e = some t) : t.StartedWith P c := by
  by_cases hcaller : caller e = some c
  · cases e <;> simp only [caller, Option.some.injEq, reduceCtorEq] at hcaller <;> subst hcaller
    case start c name payload timeout =>
      simp only [step] at hstep
      split at hstep <;> cases hstep
      intro _
      simpa using hstart name payload timeout rfl
    case deliver c =>
      simp only [step] at hstep
      split at hstep
      · next hpc =>
        split_ifs at hstep
        split at hstep <;> cases hstep <;> intro _ <;> simpa using h (by simp [hpc])
      · cases hstep
    case poll c =>
      simp only [step] at hstep
      split at hstep
      · next hpc =>
        obtain ⟨r, _, rfl⟩ := Option.map_eq_some_iff.mp hstep
        intro _
        simpa using h (by simp [hpc])
      · cases hstep
    all_goals
      simp only [step] at hstep
      split at hstep <;> cases hstep <;> intro _ <;>
        simpa using h (by simp_all)
  · have hcall := call_step_other hstep hcaller
    unfold StartedWith
    rw [hcall]
    exact h

/-- A call does not time out in a step before its deadline. -/
theorem inTime_step (h : s.InTime c)
    (hwait : ∀ deadline, s.awaits c = some deadline → s.now < deadline)
    (hstep : step uuid s e = some t) : t.InTime c := by
  by_cases hcaller : caller e = some c
  · cases e <;> simp only [caller, Option.some.injEq, reduceCtorEq] at hcaller <;> subst hcaller
    case deliver c =>
      simp only [step] at hstep
      split at hstep
      · split_ifs at hstep
        split at hstep <;> cases hstep
        · next herr =>
          simp only [InTime, setPc_calls_self]
          rcases deliver_error herr with hkind | hkind <;> rw [hkind] <;> decide
        · simp [InTime]
      · cases hstep
    case refuse c =>
      simp only [step] at hstep
      split at hstep <;> cases hstep
      next hpc =>
      simp only [InTime, hpc] at h
      simp only [InTime, setPc_calls_self]
      intro e he
      cases he
      exact h
    case poll c =>
      simp only [step] at hstep
      split at hstep
      · next deadline hpc =>
        obtain ⟨r, hpoll, rfl⟩ := Option.map_eq_some_iff.mp hstep
        simp only [InTime, setPc_calls_self]
        rintro rfl
        unfold pollResult at hpoll
        split at hpoll
        · cases hpoll
        · next hrx =>
          have hbefore := hwait deadline (awaits_eq_some.mpr ⟨hpc, hrx⟩)
          rw [if_neg (Nat.not_le.mpr hbefore)] at hpoll
          split_ifs at hpoll
          cases hpoll
      · cases hstep
    case remove c =>
      simp only [step] at hstep
      split at hstep <;> cases hstep
      next r hpc =>
      simp only [InTime, hpc] at h
      simp only [InTime, setPc_calls_self]
      intro e he
      cases r with
      | ack a =>
        simp only [commandOutcome, ackOutcome] at he
        split_ifs at he
        cases he
        exact fun hkind => by cases hkind
      | dropped =>
        cases he
        exact fun hkind => by cases hkind
      | elapsed => exact absurd rfl h
    all_goals
      simp only [step] at hstep
      split at hstep <;> cases hstep <;> simp [InTime]
  · have hcall := call_step_other hstep hcaller
    unfold InTime
    rw [hcall]
    exact h

/-- A dispatch keeps its ack while the call that it is for awaits one. -/
theorem dispatching_of_awaits (hstep : step uuid s e = some t) {d : ℕ} {a : AckPayload}
    {deadline : Instant} (hd : s.dispatching.lookup d = some (c, a))
    (hbefore : s.awaits c = some deadline) (hafter : t.awaits c = some deadline) :
    t.dispatching.lookup d = some (c, a) := by
  rw [dispatching_step hstep]
  cases e with
  | takeAck d' a' =>
    have hfree : d' ∉ s.dispatching := by
      simp only [step] at hstep
      split_ifs at hstep with hfree
      exact hfree
    have hne : d' ≠ d := by
      rintro rfl
      rw [AList.lookup_eq_none.mpr hfree] at hd
      cases hd
    simp only [dispatchingAfter]
    split
    · exact hd
    · rw [Table.lookup_insert_eq, if_neg hne.symm, hd]
  | sendAck d' =>
    have hne : d' ≠ d := by
      rintro rfl
      have hrx := (awaits_eq_some.mp hafter).2
      have halive : s.receiverAlive c = true := by
        rw [receiverAlive, (awaits_eq_some.mp hbefore).1]
      rw [call_step_other hstep (by simp [caller])] at hrx
      simp [rxAfter, hd, halive] at hrx
    rw [dispatchingAfter, Table.lookup_erase_eq, if_neg hne.symm, hd]
  | _ => exact hd

/-- A call that awaits its ack, with no sender for it in the pending map, has one in a
dispatch. -/
theorem dispatching_of_pending (huuid : Function.Injective uuid) {es : List CallEvent}
    (hrun : Transition.run (step uuid) init es = some s) {deadline : Instant}
    (hawaits : s.awaits c = some deadline) (hnone : s.hub.pending.lookup (uuid c) = none) :
    ∃ d a, s.dispatching.lookup d = some (c, a) := by
  obtain ⟨hpc, hrx⟩ := awaits_eq_some.mp hawaits
  have hexpl := explained_run huuid hrun c
  simp only [Explained, hpc] at hexpl
  obtain ⟨_, after, _, hphase⟩ := hexpl
  cases hp : ackPhase (uuid c) after with
  | none =>
    rw [hp] at hphase
    rw [hphase.1] at hnone
    cases hnone
  | taken d a =>
    rw [hp] at hphase
    exact ⟨d, a, (hphase.2.1 d a).mpr ⟨rfl, rfl⟩⟩
  | handed a =>
    rw [hp] at hphase
    rw [hphase.2.2] at hrx
    cases hrx

end InfinityBridge.Host.Calls

namespace InfinityBridge.EndToEnd

open Relay Wasm

namespace World

variable {uuid : ℕ → String} {impl : Impl} {cfg : ResolvedConfig} {w w' : World}

/-! ### Answers that can be read -/

/-- No result of the handler is nested too deeply for an ack. -/
def Shallow (w : World) : Prop :=
  ∀ r ∈ w.invocations, ∀ v, r.result = .ok v → v.depth + 1 < recursionLimit

/-- The host reads the ack of a result that is not nested too deeply. -/
theorem fromJson_ackDoc {id : String} (result : Except String Value)
    (hdepth : ∀ v, result = .ok v → v.depth + 1 < recursionLimit) : ∃ a,
    WireMsg.fromJson (.doc (ackDoc id result)) = some (.ack a) ∧ a.id = id := by
  obtain ⟨a, hread, hid, _⟩ := fromValue_ackDoc id result
  refine ⟨a, ?_, hid⟩
  have hlimit : (ackDoc id result).depth < recursionLimit := by
    cases result with
    | ok v =>
      rw [depth_ackDoc_ok]
      exact hdepth v rfl
    | error e => exact show 1 < recursionLimit by decide
  rw [WireMsg.fromJson, Text.parse, if_pos hlimit, Option.bind_some, hread]

/-- What the bridge has put on the CommBus has an ack. -/
theorem BridgeText.answerable {t : Text} (h : BridgeText w t) (s : Relay.State) :
    State.Answerable impl s (.wasmMessage t) := by
  intro j rid response error hparse hj _
  rcases h with ⟨r, _, rfl⟩ | ⟨e, rfl⟩
  · rw [Text.jsonParse_doc, Option.some.injEq] at hparse
    subst hparse
    obtain ⟨ok, response', error', hj', hack⟩ :=
      responseAck_responseDoc impl numberText "" r.requestId r.result
    rw [toValue_ofResult, hj', WasmMessage.response.injEq] at hj
    obtain ⟨_, rfl, _, rfl⟩ := hj
    obtain ⟨message, hmessage, _⟩ := Option.map_eq_some_iff.mp hack
    simp [hmessage]
  · rw [WireMsg.toJson, Text.jsonParse_doc, Option.some.injEq] at hparse
    subst hparse
    cases impl <;> simp [wasmMessage, WireMsg.toValue, Json.property, Json.named] at hj

/-- The answer to an accepted command is an ack for that command. -/
theorem Facts.answer_read (h : Facts uuid impl cfg w) (hshallow : w.Shallow) {f : Sent}
    (hf : f ∈ w.relay.sent) {rid : String} {own : Bool} (horigin : f.origin = .answer rid own)
    {c : ℕ} (hacc : (rid, some (.str (uuid c))) ∈ w.relay.accepted) :
    ∃ a, WireMsg.fromJson f.frame = some (.ack a) ∧ a.id = uuid c := by
  cases own with
  | true =>
    obtain ⟨id, message, hacc', hframe⟩ := h.books.refused f hf rid horigin
    obtain rfl := h.accepted_inj hacc hacc'
    rw [hframe]
    exact fromJson_ackDoc (.error message) fun _ hv => by cases hv
  | false =>
    obtain ⟨id, raw, j, ok, response, error, ack, hacc', hheard, hparse, hj, hack, hframe⟩ :=
      h.books.responded f hf rid horigin
    obtain rfl := h.accepted_inj hacc hacc'
    rcases h.traced.texts raw (List.mem_append_right _ hheard) with ⟨r, hr, rfl⟩ | ⟨e, rfl⟩
    · rw [Text.jsonParse_doc, Option.some.injEq] at hparse
      subst hparse
      obtain ⟨ok', response', error', hj', hack'⟩ :=
        responseAck_responseDoc impl numberText (uuid c) r.requestId r.result
      rw [toValue_ofResult, hj', WasmMessage.response.injEq] at hj
      obtain ⟨rfl, rfl, rfl, rfl⟩ := hj
      rw [hack', Option.some.injEq] at hack
      rw [hframe, ← hack]
      exact fromJson_ackDoc r.result (hshallow r hr)
    · rw [WireMsg.toJson, Text.jsonParse_doc, Option.some.injEq] at hparse
      subst hparse
      cases impl <;> simp [wasmMessage, WireMsg.toValue, Json.property, Json.named] at hj

/-- No answer is lost in the relay while the rejections of its calls have a message, as what
it hears on the CommBus has an ack. -/
theorem lost_step (h : Facts uuid impl cfg w) {ev : WorldEvent}
    (hev : ∀ n reason, ev = .relay (.callRejected n reason) → reason.message impl ≠ none)
    (hstep : w.step uuid impl cfg ev = some w') : w'.relay.lost = w.relay.lost := by
  have hrelay {e : RelayEvent} (he : State.step impl cfg w.relay e = some w'.relay)
      (hanswerable : State.Answerable impl w.relay e) : w'.relay.lost = w.relay.lost :=
    State.lost_of_answerable h.timers hanswerable he
  cases moves_step hstep with
  | host ev e hev hapart hsendTo hregister hconnected hstepped => rw [hstepped.relay]
  | callback e he hmoved =>
    refine hrelay hmoved.relay ?_
    cases e with
    | wasmMessage => cases he
    | callRejected n reason => exact fun _ _ _ _ => hev n reason rfl
    | _ => trivial
  | deliver i frame frames now onThrows callThrows hws hfirst hmoved =>
    exact hrelay hmoved.relay trivial
  | respond k raw hraw hfrom hmoved =>
    refine hrelay hmoved.relay ((h.traced.texts raw ?_).answerable _)
    exact List.mem_append_left _ (List.mem_of_getElem? hraw)
  | handle k result raw hraw hw' => rw [hw', (handle_same _ _ _).2.1]
  | emit name data hw' => rw [hw']
  | cut i hw' => rw [hw']
  | bus ev hapart hstepped => rw [hstepped.relay]

/-- The texts stay shallow while the results of the handler are. -/
theorem shallow_step (h : w.Shallow) {ev : WorldEvent}
    (hev : ∀ k v, ev = .handle k (.ok v) → v.depth + 1 < recursionLimit)
    (hstep : w.step uuid impl cfg ev = some w') : w'.Shallow := by
  cases moves_step hstep with
  | host ev e hev hapart hsendTo hregister hconnected hstepped =>
    rw [Shallow, hstepped.invocations]
    exact h
  | callback e he hmoved | deliver _ _ _ _ _ _ _ _ hmoved | respond k raw hraw hfrom hmoved =>
    rw [Shallow, hmoved.invocations]
    exact h
  | handle k result raw hraw hw' =>
    intro r hr v hv
    have hmem : r ∈ w.invocations ∨ r.result = result := by
      rw [hw'] at hr
      unfold World.handle at hr
      split at hr
      · exact (List.mem_append.mp hr).imp id fun hr => by rw [List.mem_singleton.mp hr]
      · exact .inl hr
      · exact .inl hr
      · exact .inl hr
    rcases hmem with hr | rfl
    · exact h r hr v hv
    · exact hev k v (by rw [hv])
  | emit name data hw' | cut i hw' =>
    subst hw'
    exact h
  | bus ev hapart hstepped hcalls hfrom hruns =>
    rw [Shallow, hruns]
    exact h

/-! ### The places a command passes -/

/-- A step of the world takes the host through one event, or leaves it as it is. -/
theorem host_step {ev : WorldEvent} (hstep : w.step uuid impl cfg ev = some w') :
    w'.host = w.host ∨ ∃ e, (isInternal e = true → ev = .host e) ∧
      Host.Calls.step uuid w.host e = some w'.host := by
  cases moves_step hstep with
  | host ev e hev hapart hsendTo hregister hconnected hstepped =>
    exact .inr ⟨e, hev, hstepped.host⟩
  | callback e he hmoved | deliver _ _ _ _ _ _ _ _ hmoved | respond k raw hraw hfrom hmoved =>
    exact .inl hmoved.host
  | handle k result raw hraw hw' => exact .inl (hw' ▸ (handle_same _ _ _).1)
  | emit name data hw' | cut i hw' => exact .inl (hw' ▸ rfl)
  | bus ev hapart hstepped => exact .inl hstepped.host

/-- Only a tick moves the clock. -/
theorem now_step {ev : WorldEvent} (hstep : w.step uuid impl cfg ev = some w') :
    w'.host.now = w.host.now ∨ ∃ d, ev = .host (.tick d) ∧ w'.host.now = w.host.now + d := by
  rcases host_step hstep with hsame | ⟨e, hev, he⟩
  · rw [hsame]
    exact .inl rfl
  · rcases Host.Calls.now_step he with hsame | ⟨d, rfl, hnow⟩
    · exact .inl hsame
    · exact .inr ⟨d, hev rfl, hnow⟩

/-- A command that is on its way stays so while nothing is taken off its socket. -/
theorem waiting_le {i : ℕ} (h : (w.ahead i).Sublist (w'.ahead i)) (c : ℕ) :
    w.waiting uuid c i ≤ w'.waiting uuid c i := by
  rw [waiting, waiting, (inbound_perm_ahead w i).countP_eq, (inbound_perm_ahead w' i).countP_eq]
  exact h.countP_le

/-- Nothing is taken off a socket that is not cut and whose writer goes on, but what the relay
receives on it. -/
theorem waiting_step {ev : WorldEvent} (hstep : w.step uuid impl cfg ev = some w') {i : ℕ}
    (hcut : w'.cut i = false) (hwriter : ev ≠ .host (.writerEnds i))
    (hev : ∀ now onThrows callThrows, ev ≠ .deliver i now onThrows callThrows) (c : ℕ) :
    w.waiting uuid c i ≤ w'.waiting uuid c i := by
  have hsame (hhost : w'.host = w.host) (hdown : w'.down i = w.down i) :
      w.waiting uuid c i ≤ w'.waiting uuid c i := by
    rw [waiting, waiting, inbound, inbound, hhost, hdown]
  cases moves_step hstep with
  | host ev e hev hapart hsendTo hregister hconnected hstepped hahead hkept hcut' =>
    exact waiting_le (hkept i (hcut' ▸ hcut) hwriter) c
  | callback e he hmoved hdown | respond k raw hraw hfrom hmoved hdown =>
    exact hsame hmoved.host (by rw [hdown])
  | deliver j frame frames now onThrows callThrows hws hfirst hmoved hdown =>
    refine hsame hmoved.host ?_
    rw [hdown, Function.update_of_ne]
    rintro rfl
    exact hev now onThrows callThrows rfl
  | handle k result raw hraw hw' =>
    obtain ⟨hhost, _, _, hdown, _⟩ := hw' ▸ handle_same
      ({ w with toWasm := w.toWasm.eraseIdx k } : World) raw result
    exact hsame hhost (by rw [hdown])
  | emit name data hw' =>
    subst hw'
    exact hsame rfl rfl
  | cut j hw' =>
    subst hw'
    have hij : i ≠ j := by
      rintro rfl
      simp at hcut
    exact hsame rfl (Function.update_of_ne hij _ _)
  | bus ev hapart hstepped hcalls hfrom hruns hdown =>
    exact hsame hstepped.host (by rw [hdown])

/-- An ack for call `c` is on its way to the host on socket `i`. -/
def Acked (uuid : ℕ → String) (w : World) (c i : ℕ) : Prop :=
  ∃ t ∈ w.up i, ∃ a, WireMsg.fromJson t = some (.ack a) ∧ a.id = uuid c

/-- An answer of the relay goes to the host on the socket that is open. -/
theorem acked_of_answered (h : Facts uuid impl cfg w') (hshallow : w'.Shallow) {e : RelayEvent}
    (hmoved : RelayMoved impl cfg e w w') {i c : ℕ} (hopen : w'.relay.openSocket = some i)
    (hcut : w.cut i = false) {rid : String}
    (hacc : (rid, some (.str (uuid c))) ∈ w'.relay.accepted)
    (hanswer : ∃ fs, w'.relay.sent = w.relay.sent ++ fs ∧
      ∃ f ∈ fs, ∃ own, f.origin = .answer rid own) : Acked uuid w' c i := by
  obtain ⟨fs, hfs, f, hf, own, horigin⟩ := hanswer
  obtain ⟨fs', hfs', hsocket⟩ := State.sends_on_open hmoved.relay hopen
  obtain rfl := List.append_cancel_left (hfs'.symm.trans hfs)
  obtain ⟨a, hread, hid⟩ := h.answer_read hshallow
    (hfs ▸ List.mem_append_right _ hf) horigin hacc
  refine ⟨f.frame, ?_, a, hread, hid⟩
  rw [hmoved.up, hcut, uploads_append hfs]
  simp only [Bool.false_eq_true, if_false, List.mem_append, List.mem_map, List.mem_filter]
  exact .inr ⟨f, ⟨hf, by simp [hsocket f hf]⟩, rfl⟩

/-- A request for call `c` is pending in the relay under a timer. -/
def Asked (uuid : ℕ → String) (w : World) (c tid : ℕ) : Prop :=
  ∃ rid, w.relay.pending.lookup rid = some ⟨some (.str (uuid c)), tid⟩

/-- A command on its way to the relay stays on its way, or the relay accepts it. -/
theorem waiting_or_accepted (huuid : Function.Injective uuid) (h : Facts uuid impl cfg w)
    {ev : WorldEvent} (hstep : w.step uuid impl cfg ev = some w') {c i : ℕ}
    (hcut : w'.cut i = false) (hwriter : ev ≠ .host (.writerEnds i))
    (hwaiting : 0 < w.waiting uuid c i) :
    0 < w'.waiting uuid c i ∨ w.Issued c ∧ ∃ now onThrows callThrows rid,
      let frame := (WireMsg.cmd (w.command uuid c)).toJson
      let e := RelayEvent.socketMessage i (some frame) now onThrows callThrows
      ev = .deliver i now onThrows callThrows ∧ (w.down i).head? = some frame ∧
        RelayMoved impl cfg e w w' ∧
        State.accepting impl w.relay e = some (rid, some (.str (uuid c))) := by
  by_cases hev : ∀ now onThrows callThrows, ev ≠ .deliver i now onThrows callThrows
  · exact .inl (hwaiting.trans_le (waiting_step hstep hcut hwriter hev c))
  push Not at hev
  obtain ⟨now, onThrows, callThrows, rfl⟩ := hev
  cases moves_step hstep with
  | host ev e hev hapart hsendTo hregister hconnected hstepped hahead hkept hcut' =>
    exact .inl (hwaiting.trans_le (waiting_le (hkept i (hcut' ▸ hcut) hwriter) c))
  | bus ev hapart hstepped hcalls hfrom hruns hdown =>
    refine .inl (hwaiting.trans_eq ?_)
    rw [waiting, waiting, inbound, inbound, hstepped.host, hdown]
  | deliver _ frame frames _ _ _ hws hfirst hmoved hdown =>
    by_cases hframe : frameId frame = some (uuid c)
    · -- the relay takes the command off its newest socket and has not seen it before
      right
      have hmem : frame ∈ w.inbound i := by
        rw [inbound, hfirst]
        simp
      have hcmd : w.Issued c ∧ frame = (WireMsg.cmd (w.command uuid c)).toJson := by
        rcases h.traced.frames i frame hmem with ⟨c', hissued, rfl⟩ | ⟨e, rfl⟩ | ⟨ts, rfl | rfl⟩
        · rw [frameId_cmd, Option.some.injEq] at hframe
          obtain rfl := huuid hframe
          exact ⟨hissued, rfl⟩
        · rw [frameId_event] at hframe
          cases hframe
        · rw [frameId_ping] at hframe
          cases hframe
        · rw [frameId_pong] at hframe
          cases hframe
      obtain ⟨hissued, rfl⟩ := hcmd
      have hnew := h.not_duplicate (h.counted.newest i hws) hwaiting
      refine ⟨hissued, now, onThrows, callThrows, requestIdText now (impl.succ w.relay.requestSeq),
        rfl, by rw [hfirst, List.head?_cons], hmoved, ?_⟩
      have hid : (w.command uuid c).id = uuid c := rfl
      simp only [State.accepting, WireMsg.toJson, Option.bind_some, Text.jsonParse_doc,
        Option.map_some, hostMessage_cmd, hid, hnew]
      rfl
    · left
      have hcount : w.waiting uuid c i = w'.waiting uuid c i +
          if frameId frame = some (uuid c) then 1 else 0 :=
        waiting_deliver hmoved.host hfirst (by rw [hdown, Function.update_self]) c
      rw [if_neg hframe] at hcount
      omega

/-- A command on its way to the relay stays on its way, or becomes a request with a new timer,
or is answered at once. -/
theorem waiting_or_asked (huuid : Function.Injective uuid) (h : Facts uuid impl cfg w)
    (h' : Facts uuid impl cfg w') (hbound : w'.relay.requests < 2 ^ 31)
    (hlost : w'.relay.lost = []) (hshallow : w'.Shallow) {ev : WorldEvent}
    (hstep : w.step uuid impl cfg ev = some w') {c i : ℕ} (hopen : w'.relay.openSocket = some i)
    (hcut : w'.cut i = false) (hwriter : ev ≠ .host (.writerEnds i))
    (hwaiting : 0 < w.waiting uuid c i) :
    0 < w'.waiting uuid c i ∨
      (Asked uuid w' c w.relay.nextTimer ∧ w'.host = w.host ∧
        ∃ callback, w'.relay.timers.lookup w.relay.nextTimer =
          some ⟨callback, cfg.requestTimeoutMs⟩) ∨
      (Acked uuid w' c i ∧ w'.host = w.host) := by
  rcases waiting_or_accepted huuid h hstep hcut hwriter hwaiting with
    hwaiting' | ⟨_, now, onThrows, callThrows, rid, _, _, hmoved, haccepting⟩
  · exact .inl hwaiting'
  obtain ⟨hacc, ⟨hpending, htimer⟩ | hanswer⟩ := h.books.accepting_cases h'.books hbound hlost
    hmoved.relay haccepting
  · exact .inr (.inl ⟨⟨rid, hpending⟩, hmoved.host, _, htimer⟩)
  · exact .inr (.inr ⟨acked_of_answered h' hshallow hmoved hopen (hmoved.cut ▸ hcut) hacc hanswer,
      hmoved.host⟩)

/-- A request stays pending under its timer until it is answered. -/
theorem request_step (h : Facts uuid impl cfg w) (h' : Facts uuid impl cfg w')
    (hbound : w'.relay.requests < 2 ^ 31) (hlost : w'.relay.lost = []) (hshallow : w'.Shallow)
    {ev : WorldEvent} (hstep : w.step uuid impl cfg ev = some w') {c i tid : ℕ} {rid : String}
    (hopen : w'.relay.openSocket = some i) (hcut : w'.cut i = false)
    (hp : w.relay.pending.lookup rid = some ⟨some (.str (uuid c)), tid⟩) :
    w'.relay.pending.lookup rid = some ⟨some (.str (uuid c)), tid⟩ ∨
      (Acked uuid w' c i ∧ w'.host = w.host) := by
  have hrelay {e : RelayEvent} (hmoved : RelayMoved impl cfg e w w') :
      w'.relay.pending.lookup rid = some ⟨some (.str (uuid c)), tid⟩ ∨
        (Acked uuid w' c i ∧ w'.host = w.host) := by
    rcases h.books.pending_or_answered h'.books h.timers hbound hlost hmoved.relay hp with
      hsame | hanswer
    · exact .inl hsame
    · refine .inr ⟨acked_of_answered h' hshallow hmoved hopen (hmoved.cut ▸ hcut) ?_ hanswer,
        hmoved.host⟩
      exact State.accepted_subset hmoved.relay (h.books.pending rid _ hp)
  cases moves_step hstep with
  | host ev e hev hapart hsendTo hregister hconnected hstepped =>
    exact .inl (hstepped.relay ▸ hp)
  | callback e he hmoved | deliver _ _ _ _ _ _ _ _ hmoved | respond k raw hraw hfrom hmoved =>
    exact hrelay hmoved
  | handle k result raw hraw hw' =>
    left
    rw [hw', (handle_same _ _ _).2.1]
    exact hp
  | emit name data hw' | cut j hw' =>
    subst hw'
    exact .inl hp
  | bus ev hapart hstepped => exact .inl (hstepped.relay ▸ hp)

/-- The read loop takes the first frame, and dispatches it if it is an ack. -/
theorem receive_cases {i d : ℕ} (hstep : w.step uuid impl cfg (.receive i d) = some w') :
    ∃ frame frames, w.up i = frame :: frames ∧ w'.up = Function.update w.up i frames ∧
      ∀ a, WireMsg.fromJson frame = some (.ack a) →
        Host.Calls.step uuid w.host (.takeAck d a) = some w'.host := by
  simp only [World.step] at hstep
  split at hstep
  · cases hstep
  · next frame frames hfirst =>
    split at hstep
    · next a hread =>
      obtain ⟨hstepped, _, _, hup⟩ := hostStepped_of_hostStep w.connected w.down _ hstep
      refine ⟨frame, frames, hfirst, hup, fun a' hread' => ?_⟩
      rw [hread, Option.some.injEq, WireMsg.ack.injEq] at hread'
      exact hread' ▸ hstepped.host
    · next hread =>
      cases hstep
      exact ⟨frame, frames, hfirst, rfl, fun a ha => absurd ha (hread a)⟩

/-- An ack on its way to the host stays on its way until the host dispatches it. -/
theorem acked_step (huuid : Function.Injective uuid) (h' : Facts uuid impl cfg w')
    {ev : WorldEvent} (hstep : w.step uuid impl cfg ev = some w') {c i : ℕ}
    {deadline : Host.Instant} (hawaits : w'.host.awaits c = some deadline)
    (hcut : w'.cut i = false) (hacked : Acked uuid w c i) :
    Acked uuid w' c i ∨ ∃ d a, w'.host.dispatching.lookup d = some (c, a) := by
  obtain ⟨t, ht, a, hread, hid⟩ := hacked
  have hkept (hmem : t ∈ w'.up i) : Acked uuid w' c i ∨
      ∃ d a, w'.host.dispatching.lookup d = some (c, a) := .inl ⟨t, hmem, a, hread, hid⟩
  by_cases hev : ∀ j d, ev ≠ .receive j d
  · have hheard (hup : Heard w w' ev) : t ∈ w'.up i := by
      have hsame : w'.up = w.up := by
        cases ev with
        | receive j d => exact absurd rfl (hev j d)
        | _ => exact hup
      rwa [hsame]
    cases moves_step hstep with
    | host ev e hev hapart hsendTo hregister hconnected hstepped hahead hkept' hcut' hup =>
      exact hkept (hheard hup)
    | callback e he hmoved | deliver _ _ _ _ _ _ _ _ hmoved | respond k raw hraw hfrom hmoved =>
      refine hkept ?_
      rw [hmoved.up]
      exact List.mem_append_left _ ht
    | handle k result raw hraw hw' =>
      refine hkept ?_
      rw [hw', (handle_same _ _ _).2.2.2.2.1]
      exact ht
    | emit name data hw' =>
      subst hw'
      exact hkept ht
    | cut j hw' =>
      subst hw'
      have hij : i ≠ j := by
        rintro rfl
        simp at hcut
      refine hkept ?_
      simpa only [Function.update_of_ne hij] using ht
    | bus ev hapart hstepped hcalls hfrom hruns hdown hcut' hup => exact hkept (hheard hup)
  · push Not at hev
    obtain ⟨j, d, rfl⟩ := hev
    obtain ⟨frame, frames, hfirst, hup, htake⟩ := receive_cases hstep
    by_cases hij : i = j
    · subst hij
      rw [hfirst] at ht
      rcases List.mem_cons.mp ht with rfl | ht
      · -- this is the ack that is dispatched
        right
        refine Host.Calls.dispatching_of_pending huuid h'.traced.ran hawaits ?_
        rw [Host.Calls.pending_step (htake a hread), Host.Calls.pendingAfter, hid,
          Table.lookup_erase_eq, if_pos rfl]
      · exact hkept (by rwa [hup, Function.update_self])
    · exact hkept (by rwa [hup, Function.update_of_ne hij])

/-- An ack in a dispatch stays there while the call awaits it. -/
theorem dispatching_kept {ev : WorldEvent} (hstep : w.step uuid impl cfg ev = some w') {c d : ℕ}
    {a : AckPayload} {deadline : Host.Instant} (hd : w.host.dispatching.lookup d = some (c, a))
    (hbefore : w.host.awaits c = some deadline) (hafter : w'.host.awaits c = some deadline) :
    w'.host.dispatching.lookup d = some (c, a) := by
  rcases host_step hstep with hsame | ⟨e, _, he⟩
  · rw [hsame, hd]
  · exact Host.Calls.dispatching_of_awaits he hd hbefore hafter

end World

/-! ### Clocks -/

/-- A delay of the script runtime. -/
def milliseconds (n : ℤ) : Host.Duration := (n * 1000000).toNat

/-- How long the relay waits for the module. -/
def requestTimeout (cfg : ResolvedConfig) : Host.Duration := milliseconds cfg.requestTimeoutMs

/-- Whether a timer is that of a request. -/
def isRequest : TimerCallback → Bool
  | .request .. => true
  | _ => false

/-- A world, and when each timer of the relay is to fire. -/
structure Clocked where
  world : World
  due : ℕ → Host.Instant

namespace Clocked

variable (uuid : ℕ → String) (impl : Impl) (cfg : ResolvedConfig)

def init : Clocked := ⟨World.init impl cfg, fun _ => 0⟩

/-- A timer is to fire its delay after the step that arms it. -/
def step (p : Clocked) (ev : WorldEvent) : Option Clocked :=
  (p.world.step uuid impl cfg ev).map fun world => {
    world
    due := fun tid =>
      if tid < p.world.relay.nextTimer then p.due tid
      else world.host.now + milliseconds ((world.relay.timers.lookup tid).elim 0 (·.delay)) }

/-- Nothing is on its way on the open socket, every ack that has been dispatched has been
sent, and no request timer is due before `now`. -/
def Prompt (p : Clocked) (now : Host.Instant) : Prop :=
  (∀ i ∈ p.world.relay.openSocket, p.world.inbound i = [] ∧ p.world.up i = []) ∧
    p.world.host.dispatching.entries = [] ∧
    ∀ entry ∈ p.world.relay.timers.entries, isRequest entry.2.callback → now ≤ p.due entry.1

/-- Call `c` awaits its ack on a socket that is open and not cut: it has just been put on
it, or was on it before. -/
def OnSocket (c : ℕ) (w w' : World) : Prop :=
  (w'.host.awaits c).isSome → ∃ i ∈ w'.relay.openSocket, w'.cut i = false ∧
    if (w.host.awaits c).isSome then w.relay.openSocket = some i else 0 < w'.waiting uuid c i

/-- The relay has the shorter timeout, the clock waits for what is on its way and the writer of
the open socket goes on while call `c` awaits its ack, no result of the handler is nested
too deeply for an ack, and CommBus rejects no call with a value that has no message. -/
def Timely (c : ℕ) (p : Clocked) : WorldEvent → Prop
  | .host (.start c' _ _ timeout) => c' = c → requestTimeout cfg < timeout
  | .host (.tick d) => (p.world.host.awaits c).isSome → p.Prompt (p.world.host.now + d)
  | .host (.writerEnds i) =>
    (p.world.host.awaits c).isSome → p.world.relay.openSocket ≠ some i
  | .handle _ (.ok v) => v.depth + 1 < recursionLimit
  | .relay (.callRejected _ reason) => reason.message impl ≠ none
  | _ => True

/-- What the answer to call `c` needs to be in time. -/
def Fair (c : ℕ) (p : Clocked) (ev : WorldEvent) : Prop :=
  p.Timely impl cfg c ev ∧ ∀ w' ∈ p.world.step uuid impl cfg ev, OnSocket uuid c p.world w'

/-- What call `c` awaits on socket `i` is under way, and there is time for the rest of it. -/
inductive Underway (p : Clocked) (c i : ℕ) (deadline : Host.Instant) : Prop
  | sent (h : 0 < p.world.waiting uuid c i)
    (hnow : p.world.host.now + requestTimeout cfg < deadline)
  | asked (tid : ℕ) (h : World.Asked uuid p.world c tid) (hdue : p.world.host.now ≤ p.due tid)
    (hdeadline : p.due tid < deadline)
  | acked (h : World.Acked uuid p.world c i) (hnow : p.world.host.now < deadline)
  | taken (d : ℕ) (a : AckPayload) (h : p.world.host.dispatching.lookup d = some (c, a))
    (hnow : p.world.host.now < deadline)

variable {uuid impl cfg} {p p' : Clocked} {c i : ℕ} {deadline : Host.Instant}

/-- What is under way is in time. -/
theorem Underway.now_lt (h : p.Underway uuid cfg c i deadline) : p.world.host.now < deadline := by
  cases h with
  | sent h hnow => exact (Nat.le_add_right _ _).trans_lt hnow
  | asked tid h hdue hdeadline => exact hdue.trans_lt hdeadline
  | acked h hnow | taken d a h hnow => exact hnow

/-- A step of the clocked world is a step of the world. -/
theorem world_step {ev : WorldEvent} (hstep : p.step uuid impl cfg ev = some p') :
    p.world.step uuid impl cfg ev = some p'.world := by
  obtain ⟨w, hw, rfl⟩ := Option.map_eq_some_iff.mp hstep
  exact hw

/-- A timer that is armed already is due when it was. -/
theorem due_of_lt {ev : WorldEvent} (hstep : p.step uuid impl cfg ev = some p') {tid : ℕ}
    (htid : tid < p.world.relay.nextTimer) : p'.due tid = p.due tid := by
  obtain ⟨w, _, rfl⟩ := Option.map_eq_some_iff.mp hstep
  exact if_pos htid

/-- A new timer is due its delay later. -/
theorem due_new {ev : WorldEvent} (hstep : p.step uuid impl cfg ev = some p') {timer : Timer}
    (htimer : p'.world.relay.timers.lookup p.world.relay.nextTimer = some timer) :
    p'.due p.world.relay.nextTimer = p'.world.host.now + milliseconds timer.delay := by
  obtain ⟨w, _, rfl⟩ := Option.map_eq_some_iff.mp hstep
  dsimp only at htimer ⊢
  rw [if_neg (Nat.lt_irrefl _), htimer]
  rfl

/-- What holds in every state of a run in which the answer to call `c` is in time. -/
structure OnTime (uuid : ℕ → String) (impl : Impl) (cfg : ResolvedConfig) (c : ℕ) (p : Clocked) :
    Prop where
  facts : World.Facts uuid impl cfg p.world
  lost : p.world.relay.lost = []
  shallow : p.world.Shallow
  patient : p.world.host.StartedWith (fun _ timeout => requestTimeout cfg < timeout) c
  inTime : p.world.host.InTime c
  underway : ∀ deadline, p.world.host.awaits c = some deadline →
    ∃ i, p.world.relay.openSocket = some i ∧ p.Underway uuid cfg c i deadline

/-- At first no call waits. -/
theorem onTime_init : OnTime uuid impl cfg c (init impl cfg) where
  facts := World.facts_init
  lost := rfl
  shallow r hr := by cases hr
  patient hpc := absurd rfl hpc
  inTime := trivial
  underway _ h := by cases h

/-- The clock stands still, or it advances past nothing that call `c` awaits. -/
theorem Underway.now_step (h : p.Underway uuid cfg c i deadline)
    (hopen : p.world.relay.openSocket = some i)
    (hbefore : p.world.host.awaits c = some deadline)
    (harmed : ∀ tid, World.Asked uuid p.world c tid → ∃ rid id delay,
      p.world.relay.timers.lookup tid = some ⟨.request rid id, delay⟩) {ev : WorldEvent}
    (htimely : p.Timely impl cfg c ev) (hstep : p.step uuid impl cfg ev = some p') :
    p'.world.host.now = p.world.host.now ∨
      ∃ tid, World.Asked uuid p.world c tid ∧ p'.world.host.now ≤ p.due tid ∧
        p.due tid < deadline := by
  rcases World.now_step (world_step hstep) with hsame | ⟨d, rfl, hnow⟩
  · exact .inl hsame
  · obtain ⟨hsocket, hdispatching, htimers⟩ := htimely (by rw [hbefore]; rfl)
    obtain ⟨hinbound, hup⟩ := hsocket i hopen
    right
    cases h with
    | sent h =>
      rw [World.waiting_eq_zero hinbound] at h
      cases h
    | asked tid h hdue hdeadline =>
      obtain ⟨rid, id, delay, htimer⟩ := harmed tid h
      exact ⟨tid, h, hnow ▸ htimers ⟨tid, _⟩ (Table.lookup_eq_some_iff.mp htimer) rfl, hdeadline⟩
    | acked h =>
      obtain ⟨t, ht, _⟩ := h
      rw [hup] at ht
      cases ht
    | taken d a h =>
      have hmem := Table.lookup_eq_some_iff.mp h
      rw [hdispatching] at hmem
      cases hmem

/-- A request that is due in time is answered in time, or is still due then. -/
theorem Underway.of_asked (h : OnTime uuid impl cfg c p) (h' : World.Facts uuid impl cfg p'.world)
    (hbound : p'.world.relay.requests < 2 ^ 31) (hlost : p'.world.relay.lost = [])
    (hshallow : p'.world.Shallow) {ev : WorldEvent} (hstep : p.step uuid impl cfg ev = some p')
    (hopen : p'.world.relay.openSocket = some i) (hcut : p'.world.cut i = false) {tid : ℕ}
    (hasked : World.Asked uuid p.world c tid) (hdue : p'.world.host.now ≤ p.due tid)
    (hdeadline : p.due tid < deadline) : p'.Underway uuid cfg c i deadline := by
  obtain ⟨rid, hp⟩ := hasked
  have hsame := due_of_lt hstep (h.facts.timers.pending rid _ hp).1
  rcases World.request_step h.facts h' hbound hlost hshallow (world_step hstep) hopen hcut hp with
    hp' | ⟨hacked, _⟩
  · exact .asked tid ⟨rid, hp'⟩ (hsame ▸ hdue) (hsame ▸ hdeadline)
  · exact .acked hacked (hdue.trans_lt hdeadline)

/-- What a call awaits moves on from one place to the next. -/
theorem Underway.step (huuid : Function.Injective uuid) (h : OnTime uuid impl cfg c p)
    (h' : World.Facts uuid impl cfg p'.world) (hbound : p'.world.relay.requests < 2 ^ 31)
    (hlost : p'.world.relay.lost = []) (hshallow : p'.world.Shallow) {ev : WorldEvent}
    (htimely : p.Timely impl cfg c ev) (hstep : p.step uuid impl cfg ev = some p')
    (hopen : p.world.relay.openSocket = some i) (hopen' : p'.world.relay.openSocket = some i)
    (hcut : p'.world.cut i = false) (hbefore : p.world.host.awaits c = some deadline)
    (hafter : p'.world.host.awaits c = some deadline)
    (hunderway : p.Underway uuid cfg c i deadline) : p'.Underway uuid cfg c i deadline := by
  have hw := world_step hstep
  have harmed (tid : ℕ) (hasked : World.Asked uuid p.world c tid) : ∃ rid id delay,
      p.world.relay.timers.lookup tid = some ⟨.request rid id, delay⟩ := by
    obtain ⟨rid, hp⟩ := hasked
    obtain ⟨delay, htimer⟩ := (h.facts.books.armed rid _ tid).mpr hp
    exact ⟨rid, _, delay, htimer⟩
  rcases hunderway.now_step hopen hbefore harmed htimely hstep with
    hnow | ⟨tid, hasked, hdue, hdeadline⟩
  · cases hunderway with
    | sent hwaiting hlimit =>
      have hwriter : ev ≠ .host (.writerEnds i) := by
        rintro rfl
        exact htimely (by rw [hbefore]; rfl) hopen
      rcases World.waiting_or_asked huuid h.facts h' hbound hlost hshallow hw hopen' hcut
        hwriter hwaiting with hwaiting' | ⟨hasked, _, _, htimer⟩ | ⟨hacked, _⟩
      · exact .sent hwaiting' (hnow ▸ hlimit)
      · have hdue := due_new hstep htimer
        rw [hnow] at hdue
        exact .asked _ hasked (by rw [hdue, hnow]; exact Nat.le_add_right _ _)
          (by rw [hdue]; exact hlimit)
      · exact .acked hacked (hnow ▸ (Nat.le_add_right _ _).trans_lt hlimit)
    | asked tid hasked hdue hdeadline =>
      exact .of_asked h h' hbound hlost hshallow hstep hopen' hcut hasked (hnow ▸ hdue) hdeadline
    | acked hacked hlate =>
      rcases World.acked_step huuid h' hw hafter hcut hacked with hacked' | ⟨d, a, hd⟩
      · exact .acked hacked' (hnow ▸ hlate)
      · exact .taken d a hd (hnow ▸ hlate)
    | taken d a hd hlate =>
      exact .taken d a (World.dispatching_kept hw hd hbefore hafter) (hnow ▸ hlate)
  · exact .of_asked h h' hbound hlost hshallow hstep hopen' hcut hasked hdue hdeadline

/-- Every step that is fair to the call keeps its answer in time. -/
theorem onTime_step (huuid : Function.Injective uuid) (h : OnTime uuid impl cfg c p)
    (hbound : p'.world.relay.requests < 2 ^ 31) {ev : WorldEvent}
    (hfair : p.Fair uuid impl cfg c ev) (hstep : p.step uuid impl cfg ev = some p') :
    OnTime uuid impl cfg c p' := by
  have hw := world_step hstep
  obtain ⟨htimely, hsocket⟩ := hfair
  have hfacts := World.facts_step huuid h.facts hw hbound
  have hlost : p'.world.relay.lost = [] := by
    refine (World.lost_step h.facts (fun n reason hev => ?_) hw).trans h.lost
    subst hev
    exact htimely
  have hshallow : p'.world.Shallow := by
    refine World.shallow_step h.shallow (fun k v hev => ?_) hw
    subst hev
    exact htimely
  refine ⟨hfacts, hlost, hshallow, ?_, ?_, fun deadline hafter => ?_⟩
  · rcases World.host_step hw with hsame | ⟨e, hev, he⟩
    · rw [hsame]
      exact h.patient
    · refine Host.Calls.startedWith_step h.patient (fun name payload timeout hstart => ?_) he
      subst hstart
      rw [hev rfl] at htimely
      exact htimely rfl
  · rcases World.host_step hw with hsame | ⟨e, _, he⟩
    · rw [hsame]
      exact h.inTime
    · refine Host.Calls.inTime_step h.inTime (fun deadline hawaits => ?_) he
      obtain ⟨i, _, hunderway⟩ := h.underway deadline hawaits
      exact hunderway.now_lt
  · obtain ⟨i, hopen', hcut, hif⟩ := hsocket p'.world hw (by rw [hafter]; rfl)
    have hbefore : p.world.host.awaits c = some deadline ∨ p.world.host.awaits c = none ∧
        (p.world.host.calls c).pc = .inserted ∧ p'.world.host.now = p.world.host.now ∧
        deadline = p.world.host.now + (p.world.host.calls c).timeout := by
      rcases World.host_step hw with hsame | ⟨e, _, he⟩
      · exact .inl (hsame ▸ hafter)
      · exact (Host.Calls.awaits_step he hafter).imp (·.1) id
    refine ⟨i, hopen', ?_⟩
    rcases hbefore with hbefore | ⟨hnone, hpc, hnow, rfl⟩
    · rw [hbefore] at hif
      obtain ⟨i', hopen, hunderway⟩ := h.underway deadline hbefore
      obtain rfl : i = i' := Option.some.inj (hif.symm.trans hopen)
      exact hunderway.step huuid h hfacts hbound hlost hshallow htimely hstep hopen hopen' hcut
        hbefore hafter
    · rw [hnone] at hif
      exact .sent hif (hnow ▸ Nat.add_lt_add_left (h.patient (by simp [hpc])) _)

/-- A step of the world that is clocked draws no fewer requests, and keeps the timers in order. -/
theorem requests_step (htimers : State.TimersOk p.world.relay) {ev : WorldEvent}
    (hstep : p.step uuid impl cfg ev = some p') :
    State.TimersOk p'.world.relay ∧ p.world.relay.requests ≤ p'.world.relay.requests := by
  rcases World.relay_step (world_step hstep) with hsame | ⟨e, he⟩
  · exact ⟨hsame ▸ htimers, hsame ▸ le_rfl⟩
  · exact ⟨State.timersOk_step htimers he, (State.losesUnless_step htimers he).requests⟩

instance (p : Clocked) (now : Host.Instant) : Decidable (p.Prompt now) := by
  unfold Prompt
  exact inferInstance

instance (c : ℕ) (w w' : World) : Decidable (OnSocket uuid c w w') := by
  unfold OnSocket
  exact inferInstance

instance (c : ℕ) (p : Clocked) (ev : WorldEvent) : Decidable (p.Timely impl cfg c ev) := by
  unfold Timely
  split <;> exact inferInstance

instance (c : ℕ) (p : Clocked) (ev : WorldEvent) : Decidable (p.Fair uuid impl cfg c ev) := by
  unfold Fair
  exact inferInstance

end Clocked

end InfinityBridge.EndToEnd
