import InfinityBridge.EndToEnd.Moves
import InfinityBridge.Host.Server
import InfinityBridge.Relay.Output

/-!
# Events

Events go both ways: what the host emits runs the event handlers of the WASM module, and
what the module emits reaches the subscribers of the host. Nothing acknowledges an event and
nothing suppresses a copy, and an emitted event is put on every socket. Still no event is
seen twice and none is made up, whatever is reconnected or lost.
-/

namespace InfinityBridge.EndToEnd.World

open Relay Wasm

/-! ### What is emitted and what is seen -/

/-- The event of a host frame. -/
def frameEvents (t : Text) : List EventPayload :=
  match t.jsonParse.bind WireMsg.fromValue with
  | some (.event e) => [e]
  | _ => []

/-- The event for which the bridge runs the event handlers when it dispatches this text. -/
def handlerEvents (t : Text) : List EventPayload :=
  match dispatch .exact t with
  | .event e => [e]
  | _ => []

/-- The event a read loop hands to the subscribers when it works through this frame. -/
def subscriberEvents (t : Text) : List EventPayload :=
  (Host.handleText t).filterMap fun
    | .dispatchEvent e => some e
    | _ => none

/-- `Hub::emit`. -/
def hostEmits (_ : World) : WorldEvent → List EventPayload
  | .host (.emit name data) => [⟨name, data⟩]
  | _ => []

/-- The runs of the event handlers. -/
def handlersRun (w : World) : WorldEvent → List EventPayload
  | .handle k _ => w.toWasm[k]?.elim [] handlerEvents
  | _ => []

/-- How many of the events in these texts are of a kind. -/
def tally (P : EventPayload → Bool) (events : Text → List EventPayload) (ts : List Text) : ℕ :=
  (ts.flatMap events).countP P

section Tally

variable {P : EventPayload → Bool} {events : Text → List EventPayload} {ts ts' : List Text}

/-- There are no events in no texts. -/
@[simp] theorem tally_nil : tally P events [] = 0 := rfl

/-- The tally of one text. -/
@[simp] theorem tally_singleton (t : Text) : tally P events [t] = (events t).countP P := by
  simp [tally]

/-- The tally of two lists of texts. -/
theorem tally_append : tally P events (ts ++ ts') = tally P events ts + tally P events ts' := by
  rw [tally, List.flatMap_append, List.countP_append, tally, tally]

/-- The first text comes to the tally of the others. -/
theorem tally_cons (t : Text) :
    tally P events (t :: ts) = (events t).countP P + tally P events ts := by
  rw [tally, List.flatMap_cons, List.countP_append, tally]

variable (P events)

/-- Fewer texts have no more events. -/
theorem tally_sublist (h : ts.Sublist ts') : tally P events ts ≤ tally P events ts' :=
  (h.flatMap events).countP_le

/-- The order of the texts does not matter. -/
theorem tally_perm (h : ts.Perm ts') : tally P events ts = tally P events ts' :=
  (h.flatMap_right events).countP_eq P

/-- Each copy of a text counts. -/
theorem tally_replicate (n : ℕ) (t : Text) :
    tally P events (List.replicate n t) = n * (events t).countP P := by
  induction n with
  | zero => simp
  | succ n ih =>
    rw [List.replicate_succ, tally_cons, ih]
    ring

end Tally

variable {uuid : ℕ → String} {impl : Impl} {cfg : ResolvedConfig} {w w' : World}
  {P : EventPayload → Bool}

/-! ### From the host to the module -/

/-- The event in the frame of a message. -/
theorem frameEvents_toJson (m : WireMsg) : frameEvents m.toJson =
    match m with
    | .event e => [e]
    | _ => [] := by
  rw [frameEvents, WireMsg.toJson, Text.jsonParse_doc, Option.bind_some, WireMsg.fromValue_toValue]
  cases m <;> rfl

/-- The bridge finds at most the event of the frame that the relay has put in the envelope. -/
theorem handlerEvents_envelope {frame : Text} {j : Value} (hparse : frame.jsonParse = some j)
    (rid : String) :
    (handlerEvents (.doc (envelope rid j))).countP P ≤ (frameEvents frame).countP P := by
  rw [handlerEvents, dispatch_exact, frameEvents, hparse, Option.bind_some]
  split_ifs
  · cases WireMsg.fromValue j with
    | none => exact Nat.zero_le _
    | some m => cases m <;> simp
  · exact Nat.zero_le _

/-- A step of the host puts an event on a socket only when it emits it, and only once. -/
theorem tally_sends (uuid : ℕ → String) (w : World) {ev : WorldEvent} {e : Host.CallEvent}
    {n : ℕ} (hn : n ≤ 1) (hev : isInternal e = true → ev = .host e)
    (hsendTo : ∀ id json, e = .sendTo id json →
      ∃ ts, json = (WireMsg.ping ts).toJson ∧ ev = .ping id ts ∨
        json = (WireMsg.pong ts).toJson ∧ ev = .pong id ts) :
    tally P frameEvents ((Host.Calls.sends uuid w.host e).elim [] (List.replicate n)) ≤
      (w.hostEmits ev).countP P := by
  cases e with
  | emit name data =>
    rw [hev rfl]
    simp only [Host.Calls.sends, Option.elim_some, tally_replicate, frameEvents_toJson, hostEmits]
    exact (Nat.mul_le_mul_right _ hn).trans_eq (Nat.one_mul _)
  | deliver c =>
    simp [Host.Calls.sends, tally_replicate, Host.commandFrame, frameEvents_toJson]
  | sendTo id json =>
    obtain ⟨ts, ⟨rfl, _⟩ | ⟨rfl, _⟩⟩ := hsendTo id json rfl <;>
      simp [Host.Calls.sends, tally_replicate, frameEvents_toJson]
  | _ => exact Nat.zero_le _

/-- Of a kind of events, the handlers have not been run for more than the host has emitted,
even if they are run for all that is under way and can still arrive. -/
structure Handled (P : EventPayload → Bool) (w : World) (emits runs : List EventPayload) :
    Prop where
  linked : Linked w
  calls : runs.countP P + tally P handlerEvents w.toWasm ≤ emits.countP P
  frames : ∀ i, i + 1 = w.relay.nextSocket →
    runs.countP P + tally P handlerEvents w.toWasm + tally P frameEvents (w.ahead i) ≤
      emits.countP P

/-- The handlers are run by the bridge only. -/
theorem handlersRun_of_advances {ev : WorldEvent} (h : advances ev = false) :
    w.handlersRun ev = [] := by
  cases ev with
  | handle k result => cases h
  | _ => rfl

/-- More may have been emitted. -/
theorem Handled.mono {emits runs : List EventPayload} (h : Handled P w emits runs)
    (more : List EventPayload) : Handled P w (emits ++ more) runs := by
  have hle : emits.countP P ≤ (emits ++ more).countP P :=
    (List.sublist_append_left _ _).countP_le
  exact ⟨h.linked, h.calls.trans hle, fun i hi => (h.frames i hi).trans hle⟩

/-- Nothing is added to what is under way. -/
theorem Handled.of_sublist {emits runs : List EventPayload} (h : Handled P w emits runs)
    (hlinked : Linked w') (hsockets : w.relay.nextSocket ≤ w'.relay.nextSocket)
    (hahead : ∀ i, (w'.ahead i).Sublist (w.ahead i)) (hcalls : w'.toWasm.Sublist w.toWasm) :
    Handled P w' emits runs := by
  have hfewer := tally_sublist P handlerEvents hcalls
  refine ⟨hlinked, (Nat.add_le_add_left hfewer _).trans h.calls, fun i hi => ?_⟩
  rcases h.linked.newest_or_idle hsockets hi with hnewest | hidle
  · have := h.frames i hnewest
    have := tally_sublist P frameEvents (hahead i)
    omega
  · rw [List.sublist_nil.mp (hidle ▸ hahead i : (w'.ahead i).Sublist []), tally_nil]
    exact (Nat.add_le_add_left hfewer _).trans h.calls

/-- What the host emits may come to be under way once. -/
theorem Handled.sent {emits runs more : List EventPayload} (h : Handled P w emits runs)
    (hlinked : Linked w') (hrelay : w'.relay = w.relay) (hcalls : w'.toWasm = w.toWasm)
    (hahead : ∀ i, ∃ ts, (w'.ahead i).Sublist (w.ahead i ++ ts) ∧
      tally P frameEvents ts ≤ more.countP P) : Handled P w' (emits ++ more) runs := by
  refine ⟨hlinked, ?_, fun i hi => ?_⟩
  · rw [hcalls]
    exact (h.mono more).calls
  · obtain ⟨ts, hsub, hmore⟩ := hahead i
    have hle := tally_sublist P frameEvents hsub
    have := h.frames i (hrelay ▸ hi)
    rw [tally_append] at hle
    rw [hcalls, List.countP_append]
    omega

/-- The relay puts on the CommBus at most the event that it takes off its newest socket. -/
theorem Handled.moved {emits runs : List EventPayload} (h : Handled P w emits runs) {i : ℕ}
    {frame : Text} {calls : List Text} (hlinked : Linked w')
    (hnewest : i + 1 = w.relay.nextSocket) (hfront : w.ahead i = frame :: w'.ahead i)
    (hahead : ∀ j, (w'.ahead j).Sublist (w.ahead j))
    (hsockets : w.relay.nextSocket ≤ w'.relay.nextSocket) (htoWasm : w'.toWasm = w.toWasm ++ calls)
    (hcalls : tally P handlerEvents calls ≤ (frameEvents frame).countP P) :
    Handled P w' emits runs := by
  have hcount : runs.countP P + tally P handlerEvents w'.toWasm +
      tally P frameEvents (w'.ahead i) ≤ emits.countP P := by
    have := h.frames i hnewest
    rw [hfront, tally_cons] at this
    rw [htoWasm, tally_append]
    omega
  refine ⟨hlinked, (Nat.le_add_right _ _).trans hcount, fun j hj => ?_⟩
  rcases h.linked.newest_or_idle hsockets hj with hsame | hidle
  · obtain rfl : j = i := by omega
    exact hcount
  · rw [List.sublist_nil.mp (hidle ▸ hahead j : (w'.ahead j).Sublist []), tally_nil]
    exact (Nat.le_add_right _ _).trans hcount

/-- The bridge runs the handlers for a text that it takes off the CommBus. -/
theorem Handled.run {emits runs : List EventPayload} (h : Handled P w emits runs) {k : ℕ}
    {raw : Text} (hlinked : Linked w') (hraw : w.toWasm[k]? = some raw)
    (hcalls : w'.toWasm = w.toWasm.eraseIdx k)
    (hsockets : w'.relay.nextSocket = w.relay.nextSocket) (hahead : ∀ i, w'.ahead i = w.ahead i) :
    Handled P w' emits (runs ++ handlerEvents raw) := by
  have hcount : (handlerEvents raw).countP P + tally P handlerEvents w'.toWasm =
      tally P handlerEvents w.toWasm := by
    rw [hcalls, ← tally_cons]
    exact tally_perm P handlerEvents (perm_eraseIdx hraw)
  refine ⟨hlinked, ?_, fun i hi => ?_⟩
  · have := h.calls
    rw [List.countP_append]
    omega
  · have := h.frames i (hsockets ▸ hi)
    rw [List.countP_append, hahead]
    omega

/-- The calls of the relay carry at most the event of the frame that it has received. -/
theorem tally_newCalls {s t : Relay.State} {i : ℕ} {frame : Text} {now : TimeValue}
    {onThrows callThrows : Bool}
    (hstep : State.step impl cfg s (.socketMessage i (some frame) now onThrows callThrows) =
      some t) :
    tally P handlerEvents (State.newCalls s t) ≤ (frameEvents frame).countP P := by
  obtain ⟨_, _, hnone | ⟨rid, j, hparse, hone⟩⟩ := State.newCalls_socketMessage hstep
  · rw [hnone]
    exact Nat.zero_le _
  · rw [hone, tally_singleton]
    exact handlerEvents_envelope hparse rid

/-- Every step of the world keeps the count. -/
theorem handled_step {emits runs : List EventPayload} (h : Handled P w emits runs)
    {ev : WorldEvent} (hstep : w.step uuid impl cfg ev = some w') :
    Handled P w' (emits ++ w.hostEmits ev) (runs ++ w.handlersRun ev) := by
  have hlinked := linked_step h.linked hstep
  cases inward_step h.linked hstep with
  | sent ev e hev hadvances hsendTo hstepped hahead =>
    rw [handlersRun_of_advances hadvances, List.append_nil]
    refine h.sent hlinked hstepped.relay hstepped.toWasm fun i => ?_
    obtain ⟨n, hn, hsub⟩ := hahead i
    exact ⟨_, hsub, tally_sends uuid w hn hev hsendTo⟩
  | moved i frame now onThrows callThrows hnewest hfirst hfront hahead hsockets hrelay hcalls =>
    simp only [hostEmits, handlersRun, List.append_nil]
    exact h.moved hlinked hnewest hfront hahead hsockets hcalls (tally_newCalls hrelay)
  | run k result raw hraw hcalls hsockets hahead =>
    simp only [hostEmits, List.append_nil, handlersRun, hraw, Option.elim_some]
    exact h.run hlinked hraw hcalls hsockets hahead
  | eased ev hadvances hsockets hahead hcalls =>
    rw [handlersRun_of_advances hadvances, List.append_nil]
    exact (h.of_sublist hlinked hsockets hahead hcalls).mono _

/-! ### From the module to the host -/

/-- A frame is put on one socket at most. -/
theorem sum_uploads_le {s t : Relay.State} {fs : List Sent} (hsent : t.sent = s.sent ++ fs)
    (events : Text → List EventPayload) (S : Finset ℕ) :
    ∑ i ∈ S, tally P events (uploads s t i) ≤ tally P events (fs.map (·.frame)) := by
  simp only [uploads_append hsent]
  clear hsent
  induction fs with
  | nil => simp
  | cons f fs ih =>
    have hone (i : ℕ) : tally P events (((f :: fs).filter (·.socket = some i)).map (·.frame)) =
        (if f.socket = some i then (events f.frame).countP P else 0) +
          tally P events ((fs.filter (·.socket = some i)).map (·.frame)) := by
      by_cases hi : f.socket = some i <;> simp [hi, tally_cons]
    have hle : ∑ i ∈ S, (if f.socket = some i then (events f.frame).countP P else 0) ≤
        (events f.frame).countP P := by
      cases f.socket with
      | none => simp
      | some j =>
        simp only [Option.some.injEq, Finset.sum_ite_eq]
        split_ifs <;> simp
    simp only [hone, Finset.sum_add_distrib, List.map_cons, tally_cons]
    exact Nat.add_le_add hle ih

/-- Of a kind of events, the subscribers have not been handed more than the module has emitted,
even if they are handed all that is under way. -/
def Spread (P : EventPayload → Bool) (w : World) (emits gets : List EventPayload) : Prop :=
  ∀ S : Finset ℕ, gets.countP P + ∑ i ∈ S, tally P subscriberEvents (w.up i) +
    tally P subscriberEvents w.fromWasm ≤ emits.countP P

/-- A callback of the relay sends for the subscribers only what has come on the CommBus. -/
theorem Spread.relay {emits gets : List EventPayload} (h : Spread P w emits gets)
    {e : RelayEvent} (hmoved : RelayMoved impl cfg e w w')
    (hfrom : ∀ fs, w'.relay.sent = w.relay.sent ++ fs → (∀ f ∈ fs, f.WellMade impl cfg e) →
      tally P subscriberEvents (fs.map (·.frame)) + tally P subscriberEvents w'.fromWasm ≤
        tally P subscriberEvents w.fromWasm) : Spread P w' emits gets := by
  obtain ⟨fs, hsent, hmade⟩ := State.writes_step hmoved.relay
  intro S
  have hle : ∑ i ∈ S, tally P subscriberEvents (w'.up i) ≤
      ∑ i ∈ S, tally P subscriberEvents (w.up i) + tally P subscriberEvents (fs.map (·.frame)) := by
    refine le_trans (Finset.sum_le_sum fun i _ =>
      tally_sublist P subscriberEvents (hmoved.up_sublist i)) ?_
    simp only [tally_append, Finset.sum_add_distrib]
    exact Nat.add_le_add_left (sum_uploads_le hsent _ S) _
  have := h S
  have := hfrom fs hsent hmade
  omega

/-- What is counted the same for every kind is the same list but for the order. -/
theorem subperm_of_countP {es es' : List EventPayload}
    (h : ∀ P : EventPayload → Bool, es.countP P ≤ es'.countP P) : es.Subperm es' := by
  classical
  exact List.subperm_ext_iff.mpr fun e _ => h (· == e)

/-- The event handlers of the module run once at most for each event that the host emits, with
exactly its name and data, and for nothing else. The event may be on several sockets at once;
sockets may be cut and reopened, and the CommBus may reorder and lose what is on it. The relay
hears its current socket only: on two live ones it would hear an event twice. -/
theorem handlers_run_once {evs : List WorldEvent}
    (hrun : Transition.run (step uuid impl cfg) (init impl cfg) evs = some w) :
    (Transition.trace (step uuid impl cfg) handlersRun (init impl cfg) evs).Subperm
      (Transition.trace (step uuid impl cfg) hostEmits (init impl cfg) evs) := by
  refine subperm_of_countP fun P => ?_
  have hhandled := Transition.run_traces (I := fun w emits runs => Handled P w emits runs)
    (fun _ _ _ _ _ h hstep => handled_step h hstep) hrun
    ⟨linked_init, Nat.le_refl 0, fun i hi => by cases hi⟩
  exact (Nat.le_add_right _ _).trans hhandled.calls

/-- An event in each direction. -/
def bothWays : List WorldEvent :=
  [.relay (.init false false), .relay (.socketOpen 0 .epoch), .accept 0,
    .host (.emit "pause" .null), .emit "state" (.bool true), .respond 0, .send 0,
    .deliver 0 .epoch false false, .handle 0 (.ok .null), .receive 0 0, .receive 0 0,
    .receive 0 0]

/-- The run exists. -/
theorem bothWays_isSome : (Transition.run (step Host.Calls.wordId .typescript defaultConfig)
    (init .typescript defaultConfig) bothWays).isSome = true := by
  decide +kernel

/-- The handlers run for the event of the host. -/
theorem handlers_run_once_bothWays :
    (Transition.trace (step Host.Calls.wordId .typescript defaultConfig) handlersRun
      (init .typescript defaultConfig) bothWays).Subperm
    (Transition.trace (step Host.Calls.wordId .typescript defaultConfig) hostEmits
      (init .typescript defaultConfig) bothWays) :=
  handlers_run_once (Option.some_get bothWays_isSome).symm

example : (Transition.trace (step Host.Calls.wordId .typescript defaultConfig) handlersRun
    (init .typescript defaultConfig) bothWays).map (·.name) = ["pause"] := by
  decide +kernel

end InfinityBridge.EndToEnd.World
