import InfinityBridge.EndToEnd.Correctness
import InfinityBridge.EndToEnd.Moves
import InfinityBridge.Relay.Handshake

/-!
# Frames in order

A relay hears the host on one socket after the other, the host hears the relay on several at
once, and each socket is cut at any time with all that is on it. Still the relay receives a
subsequence of what the host sends: nothing twice, nothing out of order, nothing made up. And
what the host receives on a connection is a beginning of what the relay has sent on it.
-/

namespace InfinityBridge.EndToEnd.World

open Relay Wasm

/-- What a step of the host puts on channels, once for all of them. -/
def hostSends (uuid : ℕ → String) (w : World) : WorldEvent → List Text
  | .host e => (Host.Calls.sends uuid w.host e).toList
  | .ping _ ts => [(WireMsg.ping ts).toJson]
  | .pong _ ts => [(WireMsg.pong ts).toJson]
  | _ => []

/-- What the relay receives from the host. -/
def relayReceives (w : World) : WorldEvent → List Text
  | .deliver i .. => (w.down i).head?.toList
  | _ => []

/-- What the host receives on socket `i`. -/
def hostReceives (i : ℕ) (w : World) : WorldEvent → List Text
  | .receive j _ => if j = i then (w.up i).head?.toList else []
  | _ => []

variable {uuid : ℕ → String} {impl : Impl} {cfg : ResolvedConfig} {w w' : World}

/-! ### From the host to the relay -/

/-- What the relay has received, and what it can still receive on its newest socket, is in the
order in which the host has sent it. -/
structure InOrder (w : World) (sends receives : List Text) : Prop where
  linked : Linked w
  received : receives.Sublist sends
  ahead : ∀ i, i + 1 = w.relay.nextSocket → (receives ++ w.ahead i).Sublist sends

/-- A frame is put on a channel once at most. -/
theorem sublist_hostSends (uuid : ℕ → String) (w : World) {ev : WorldEvent}
    {e : Host.CallEvent} {n : ℕ} (hn : n ≤ 1) (hev : isInternal e = true → ev = .host e)
    (hsendTo : ∀ id json, e = .sendTo id json →
      ∃ ts, json = (WireMsg.ping ts).toJson ∧ ev = .ping id ts ∨
        json = (WireMsg.pong ts).toJson ∧ ev = .pong id ts) :
    ((Host.Calls.sends uuid w.host e).elim [] (List.replicate n)).Sublist
      (w.hostSends uuid ev) := by
  have hone (f : Text) : (List.replicate n f).Sublist [f] :=
    List.replicate_sublist_replicate f |>.mpr hn
  cases e with
  | deliver | emit =>
    rw [hev rfl]
    exact hone _
  | sendTo id json =>
    obtain ⟨ts, ⟨rfl, rfl⟩ | ⟨rfl, rfl⟩⟩ := hsendTo id json rfl
    · exact hone _
    · exact hone _
  | _ => exact List.nil_sublist _

/-- Nothing gets ahead that was not there. -/
theorem InOrder.of_ahead {sends receives : List Text} (h : InOrder w sends receives)
    (hlinked : Linked w') (hsockets : w.relay.nextSocket ≤ w'.relay.nextSocket)
    (hahead : ∀ i, (w'.ahead i).Sublist (w.ahead i)) : InOrder w' sends receives := by
  refine ⟨hlinked, h.received, fun i hi => ?_⟩
  rcases h.linked.newest_or_idle hsockets hi with hnewest | hidle
  · exact ((hahead i).append_left _).trans (h.ahead i hnewest)
  · rw [List.sublist_nil.mp (hidle ▸ hahead i : (w'.ahead i).Sublist []), List.append_nil]
    exact h.received

/-- What the host sends comes after what it has sent. -/
theorem InOrder.sent {sends receives more : List Text} (h : InOrder w sends receives)
    (hlinked : Linked w') (hrelay : w'.relay = w.relay)
    (hahead : ∀ i, (w'.ahead i).Sublist (w.ahead i ++ more)) :
    InOrder w' (sends ++ more) receives := by
  refine ⟨hlinked, h.received.trans (List.sublist_append_left _ _), fun i hi => ?_⟩
  refine ((hahead i).append_left _).trans ?_
  rw [← List.append_assoc]
  exact (h.ahead i (hrelay ▸ hi)).append (List.Sublist.refl _)

/-- The relay receives the first frame on its newest socket. -/
theorem InOrder.moved {sends receives : List Text} (h : InOrder w sends receives) {i : ℕ}
    {frame : Text} (hlinked : Linked w') (hnewest : i + 1 = w.relay.nextSocket)
    (hfront : w.ahead i = frame :: w'.ahead i) (hahead : ∀ j, (w'.ahead j).Sublist (w.ahead j))
    (hsockets : w.relay.nextSocket ≤ w'.relay.nextSocket) :
    InOrder w' sends (receives ++ [frame]) := by
  have hnext := h.ahead i hnewest
  rw [hfront] at hnext
  have hreceived : (receives ++ [frame]).Sublist sends := by
    refine List.Sublist.trans (List.Sublist.append_left ?_ _) hnext
    exact (List.nil_sublist _).cons_cons frame
  refine ⟨hlinked, hreceived, fun j hj => ?_⟩
  rcases h.linked.newest_or_idle hsockets hj with hsame | hidle
  · obtain rfl : j = i := by omega
    rwa [List.append_assoc, List.singleton_append]
  · rw [List.sublist_nil.mp (hidle ▸ hahead j : (w'.ahead j).Sublist []), List.append_nil]
    exact hreceived

/-- More may have been sent. -/
theorem InOrder.mono {sends receives : List Text} (h : InOrder w sends receives)
    (more : List Text) : InOrder w (sends ++ more) receives where
  linked := h.linked
  received := h.received.trans (List.sublist_append_left _ _)
  ahead i hi := (h.ahead i hi).trans (List.sublist_append_left _ _)

/-- The relay receives in its own events only. -/
theorem relayReceives_of_advances {ev : WorldEvent} (h : advances ev = false) :
    w.relayReceives ev = [] := by
  cases ev with
  | deliver => cases h
  | _ => rfl

/-- Every step of the world keeps the order. -/
theorem inOrder_step {sends receives : List Text} (h : InOrder w sends receives)
    {ev : WorldEvent} (hstep : w.step uuid impl cfg ev = some w') :
    InOrder w' (sends ++ w.hostSends uuid ev) (receives ++ w.relayReceives ev) := by
  have hlinked := linked_step h.linked hstep
  cases inward_step h.linked hstep with
  | sent ev e hev hadvances hsendTo hstepped hahead =>
    rw [relayReceives_of_advances hadvances, List.append_nil]
    refine h.sent hlinked hstepped.relay fun i => ?_
    obtain ⟨n, hn, hsub⟩ := hahead i
    exact hsub.trans ((sublist_hostSends uuid w hn hev hsendTo).append_left _)
  | moved i frame now onThrows callThrows hnewest hfirst hfront hahead hsockets hrelay hcalls =>
    simp only [hostSends, relayReceives, hfirst, List.append_nil, Option.toList_some]
    exact h.moved hlinked hnewest hfront hahead hsockets
  | run k result raw hraw hcalls hsockets hahead =>
    simp only [hostSends, relayReceives, List.append_nil]
    exact h.of_ahead hlinked hsockets.ge fun i => hahead i ▸ List.Sublist.refl _
  | eased ev hadvances hsockets hahead hcalls =>
    rw [relayReceives_of_advances hadvances, List.append_nil]
    exact (h.of_ahead hlinked hsockets hahead).mono _

/-! ### From the relay to the host -/

/-- The frames that the relay has sent on socket `i`. -/
def relaySent (w : World) (i : ℕ) : List Text := (w.relay.framesOn i).map (·.frame)

/-- What has been received on socket `i` and what is on it are a beginning of what was sent, and
all of it while the socket is not cut. -/
structure Delivered (i : ℕ) (w : World) (receives : List Text) : Prop where
  initial : receives ++ w.up i <+: w.relaySent i
  uncut : w.cut i = false → receives ++ w.up i = w.relaySent i
  cut : w.cut i = true → w.up i = []

/-- A callback of the relay puts on a socket what it sends on it. -/
theorem RelayMoved.relaySent_eq {e : RelayEvent} (h : RelayMoved impl cfg e w w') (i : ℕ) :
    w'.relaySent i = w.relaySent i ++ uploads w.relay w'.relay i := by
  obtain ⟨fs, hsent, _⟩ := State.writes_step h.relay
  rw [relaySent, State.framesOn_append hsent, List.map_append, uploads_append hsent]
  rfl

/-- What a callback sends goes on the socket, unless that is cut. -/
theorem Delivered.relay {i : ℕ} {receives : List Text} (h : Delivered i w receives)
    {e : RelayEvent} (hmoved : RelayMoved impl cfg e w w') : Delivered i w' receives := by
  have hup := hmoved.up i
  have hsent := hmoved.relaySent_eq i
  cases hcut : w.cut i with
  | true =>
    rw [hcut, if_pos rfl, List.append_nil] at hup
    refine ⟨?_, fun hfalse => ?_, fun _ => hup.trans (h.cut hcut)⟩
    · rw [hup, hsent]
      exact h.initial.trans (List.prefix_append _ _)
    · rw [hmoved.cut, hcut] at hfalse
      cases hfalse
  | false =>
    rw [hcut] at hup
    have hall : receives ++ w'.up i = w'.relaySent i := by
      rw [hup, hsent, ← h.uncut hcut, List.append_assoc]
      rfl
    refine ⟨hall ▸ List.prefix_rfl, fun _ => hall, fun htrue => ?_⟩
    rw [hmoved.cut, hcut] at htrue
    cases htrue

/-- A step that concerns another socket, or none. -/
theorem Delivered.of_same {i : ℕ} {receives : List Text} (h : Delivered i w receives)
    (hrelay : w'.relay = w.relay) (hup : w'.up i = w.up i) (hcut : w'.cut i = w.cut i) :
    Delivered i w' receives := by
  refine ⟨?_, ?_, ?_⟩
  · rw [relaySent, hrelay, hup]
    exact h.initial
  · rw [relaySent, hrelay, hup, hcut]
    exact h.uncut
  · rw [hup, hcut]
    exact h.cut

/-- Every step of the world keeps what has been received a beginning of what was sent. -/
theorem delivered_step {i : ℕ} {receives : List Text} (h : Delivered i w receives)
    {ev : WorldEvent} (hstep : w.step uuid impl cfg ev = some w') :
    Delivered i w' (receives ++ w.hostReceives i ev) := by
  have hheard (hup : Heard w w' ev) (hrelay : w'.relay = w.relay) (hcut : w'.cut = w.cut)
      (hapart : isApart ev = false) : Delivered i w' (receives ++ w.hostReceives i ev) := by
    cases ev with
    | receive j d =>
      obtain ⟨frame, frames, hfirst, hup⟩ := hup
      by_cases hj : j = i
      · subst hj
        have hsame : receives ++ [frame] ++ w'.up j = receives ++ w.up j := by
          rw [hup, Function.update_self, hfirst, List.append_assoc, List.singleton_append]
        simp only [hostReceives, if_true, hfirst, List.head?_cons, Option.toList_some]
        refine ⟨?_, fun hfalse => ?_, fun htrue => ?_⟩
        · rw [hsame, relaySent, hrelay]
          exact h.initial
        · rw [hsame, relaySent, hrelay]
          exact h.uncut (hcut ▸ hfalse)
        · have hempty := h.cut (hcut ▸ htrue)
          rw [hfirst] at hempty
          cases hempty
      · rw [hostReceives, if_neg hj, List.append_nil]
        exact h.of_same hrelay (by rw [hup, Function.update_of_ne (Ne.symm hj)])
          (congrFun hcut i)
    | relay | deliver | respond | handle | emit | cut => cases hapart
    | _ =>
      simp only [hostReceives, List.append_nil]
      exact h.of_same hrelay (congrFun hup i) (congrFun hcut i)
  cases moves_step hstep with
  | host ev e hev hapart hsendTo hregister hconnected hstepped hahead hkept hcut hup =>
    exact hheard hup hstepped.relay hcut hapart
  | callback e he hmoved | deliver _ _ _ _ _ _ _ _ hmoved | respond k raw hraw hfrom hmoved =>
    simp only [hostReceives, List.append_nil]
    exact h.relay hmoved
  | handle k result raw hraw hw' =>
    obtain ⟨_, hrelay, _, _, hup, _⟩ := hw' ▸ handle_same
      ({ w with toWasm := w.toWasm.eraseIdx k } : World) raw result
    simp only [hostReceives, List.append_nil]
    exact h.of_same hrelay (by rw [hup]) (by rw [hw', handle_cut])
  | emit name data hw' =>
    subst hw'
    simp only [hostReceives, List.append_nil]
    exact h.of_same rfl rfl rfl
  | cut j hw' =>
    subst hw'
    simp only [hostReceives, List.append_nil]
    by_cases hj : i = j
    · subst hj
      refine ⟨?_, fun hfalse => ?_, fun _ => Function.update_self _ _ _⟩
      · simp only [Function.update_self, List.append_nil]
        exact (List.prefix_append _ _).trans h.initial
      · simp at hfalse
    · exact h.of_same rfl (Function.update_of_ne hj _ _) (Function.update_of_ne hj _ _)
  | bus ev hapart hstepped hcalls hfrom hruns hdown hcut hup =>
    exact hheard hup hstepped.relay hcut hapart

/-! ### Runs -/

/-- The relay in a run of the world has made a run of its own. -/
theorem exists_relay_run {evs : List WorldEvent}
    (hrun : Transition.run (step uuid impl cfg) (init impl cfg) evs = some w) :
    ∃ es, Transition.run (State.step impl cfg) (make impl cfg) es = some w.relay := by
  refine Transition.run_invariant
    (I := fun w => ∃ es, Transition.run (State.step impl cfg) (make impl cfg) es =
      some w.relay) ?_ hrun ⟨[], rfl⟩
  rintro w ev w' ⟨es, hes⟩ hstep
  rcases relay_step hstep with hsame | ⟨e, he⟩
  · exact ⟨es, hsame ▸ hes⟩
  · exact ⟨es ++ [e], Transition.run_concat_eq_some.mpr ⟨_, hes, he⟩⟩

/-- Across all its sockets, with whatever is lost when they are cut, the relay receives a
subsequence of the frames that the host sends: each once at most, in order, and no other.
A socket that it has replaced delivers nothing more to it. -/
theorem relay_receives_in_order {evs : List WorldEvent}
    (hrun : Transition.run (step uuid impl cfg) (init impl cfg) evs = some w) :
    (Transition.trace (step uuid impl cfg) relayReceives (init impl cfg) evs).Sublist
      (Transition.trace (step uuid impl cfg) (hostSends uuid) (init impl cfg) evs) := by
  have horder := Transition.run_traces (I := fun w sends receives => InOrder w sends receives)
    (fun _ _ _ _ _ h hstep => inOrder_step h hstep) hrun
    ⟨linked_init, List.Sublist.refl _, fun i hi => by cases hi⟩
  exact horder.received

/-- On each of its connections the host receives a beginning of the frames that the relay has
sent on that socket, and all of them but those still on their way while it is not cut. The
first two are the hello and the readiness of the relay. -/
theorem host_receives_prefix {evs : List WorldEvent}
    (hrun : Transition.run (step uuid impl cfg) (init impl cfg) evs = some w) (i : ℕ) :
    let receives := Transition.trace (step uuid impl cfg) (hostReceives i) (init impl cfg) evs
    receives <+: w.relaySent i ∧ (w.cut i = false → receives ++ w.up i = w.relaySent i) ∧
      ∃ now bound,
        receives.take 2 <+: [.doc (State.helloFrame cfg now), .doc (State.readyFrame bound)] := by
  have hdelivered := Transition.run_trace (I := Delivered i)
    (fun _ _ _ _ h hstep => delivered_step h hstep) hrun
    ⟨List.prefix_rfl, fun _ => rfl, fun _ => rfl⟩
  have hinitial := (List.prefix_append _ _).trans hdelivered.initial
  refine ⟨hinitial, hdelivered.uncut, ?_⟩
  obtain ⟨es, hes⟩ := exists_relay_run hrun
  rcases State.greeted_run hes i with ⟨hnone, _⟩ | ⟨u, now, fs, _, hfirst⟩
  · rw [relaySent, hnone, List.map_nil, List.prefix_nil] at hinitial
    exact ⟨.epoch, true, by rw [hinitial]; exact List.nil_prefix⟩
  · refine ⟨now, u.commBusBound, ?_⟩
    have htake := hinitial.take 2
    rwa [relaySent, hfirst] at htake

/-- The second of three events is on the socket that is cut, and a client of the host is behind
each of the two sockets when the third is emitted. -/
def twoSockets : List WorldEvent :=
  [.relay (.init false false), .relay (.socketOpen 0 .epoch), .accept 0,
    .host (.emit "first" .null), .send 0, .deliver 0 .epoch false false, .receive 0 0,
    .host (.emit "second" .null), .cut 0, .relay (.socketDrop 0), .relay (.socketClose 0),
    .relay (.timer 1 false false), .relay (.socketOpen 1 .epoch), .accept 1,
    .host (.emit "third" .null), .send 1, .deliver 1 .epoch false false, .receive 1 0,
    .receive 1 0]

/-- The run exists. -/
theorem twoSockets_isSome : (Transition.run (step Host.Calls.wordId .rescript defaultConfig)
    (init .rescript defaultConfig) twoSockets).isSome = true := by
  decide +kernel

/-- The relay receives the first and the third. -/
theorem relay_receives_in_order_twoSockets :
    (Transition.trace (step Host.Calls.wordId .rescript defaultConfig) relayReceives
      (init .rescript defaultConfig) twoSockets).length = 2 ∧
    (Transition.trace (step Host.Calls.wordId .rescript defaultConfig) relayReceives
      (init .rescript defaultConfig) twoSockets).Sublist
    (Transition.trace (step Host.Calls.wordId .rescript defaultConfig)
      (hostSends Host.Calls.wordId) (init .rescript defaultConfig) twoSockets) :=
  ⟨by decide +kernel, relay_receives_in_order (Option.some_get twoSockets_isSome).symm⟩

/-- The host has received both frames on the second connection. -/
theorem host_receives_prefix_twoSockets : ∃ w,
    Transition.run (step Host.Calls.wordId .rescript defaultConfig) (init .rescript defaultConfig)
      twoSockets = some w ∧ (w.relaySent 1).length = 2 ∧
    let receives := Transition.trace (step Host.Calls.wordId .rescript defaultConfig)
      (hostReceives 1) (init .rescript defaultConfig) twoSockets
    receives <+: w.relaySent 1 ∧ (w.cut 1 = false → receives ++ w.up 1 = w.relaySent 1) ∧
      ∃ now bound, receives.take 2 <+:
        [.doc (State.helloFrame defaultConfig now), .doc (State.readyFrame bound)] := by
  have hrun := (Option.some_get twoSockets_isSome).symm
  exact ⟨_, hrun, by decide +kernel, host_receives_prefix hrun 1⟩

end InfinityBridge.EndToEnd.World
