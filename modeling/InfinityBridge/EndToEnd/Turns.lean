import InfinityBridge.EndToEnd.Events
import InfinityBridge.EndToEnd.Order

/-!
# Work in turn

A CommBus that hands over in order what it does not lose keeps the whole way in order: the
module works through commands and events alike as the host has sent them, whichever sockets
they came on, and the subscribers of the host are handed on each connection what the module
has emitted, in the order of emission. Nothing else keeps the order; there are no numbers on
the messages.
-/

namespace InfinityBridge.EndToEnd.World

open Relay Wasm

/-- Work for the module. -/
inductive Task where
  | command (name : Option String) (payload : Value)
  | event (e : EventPayload)

/-- The work in a frame of the host. -/
def frameTasks (t : Text) : List Task :=
  match t.jsonParse.bind WireMsg.fromValue with
  | some (.cmd p) => [.command p.name p.payload]
  | some (.event e) => [.event e]
  | _ => []

/-- What the bridge runs a handler for when it dispatches this text. -/
def callTasks (t : Text) : List Task :=
  match dispatch .exact t with
  | .command _ name payload => [.command name payload]
  | .event e => [.event e]
  | .failed .. | .dropped => []

/-- The work that a step of the host sends. -/
def tasksSent (uuid : ℕ → String) (w : World) (ev : WorldEvent) : List Task :=
  (w.hostSends uuid ev).flatMap frameTasks

/-- The handlers that are run. -/
def tasksRun (w : World) : WorldEvent → List Task
  | .handle k _ => w.toWasm[k]?.elim [] callTasks
  | _ => []

/-- The CommBus hands over the text it has had for the longest time. -/
def inTurn : WorldEvent → Bool
  | .handle k _ | .respond k => k == 0
  | _ => true

variable {uuid : ℕ → String} {impl : Impl} {cfg : ResolvedConfig} {w w' : World}

/-! ### From the host to the module -/

/-- The work in the frame of a message. -/
theorem frameTasks_toJson (m : WireMsg) : frameTasks m.toJson =
    match m with
    | .cmd p => [.command p.name p.payload]
    | .event e => [.event e]
    | _ => [] := by
  rw [frameTasks, WireMsg.toJson, Text.jsonParse_doc, Option.bind_some, WireMsg.fromValue_toValue]
  cases m <;> rfl

/-- Taking the first text off a queue. -/
theorem eq_cons_of_first {ts ts' : List Text} {t : Text} (ht : ts[0]? = some t)
    (hrest : ts' = ts.eraseIdx 0) : ts = t :: ts' := by
  cases ts with
  | nil => cases ht
  | cons first rest =>
    rw [List.getElem?_cons_zero, Option.some.injEq] at ht
    rw [ht, hrest, List.eraseIdx_cons_zero]

/-- The bridge finds in an envelope at most the work of the message that was put in it. -/
theorem callTasks_envelope {m : WireMsg} (hm : m.tag = "cmd" ∨ m.tag = "event") (rid : String) :
    (callTasks (.doc (envelope rid m.toValue))).Sublist (frameTasks m.toJson) := by
  rw [callTasks, dispatch_exact, frameTasks_toJson, WireMsg.fromValue_toValue]
  split_ifs
  · cases m with
    | cmd p => exact List.Sublist.refl _
    | event e => exact List.Sublist.refl _
    | _ => simp [WireMsg.tag] at hm
  · exact List.nil_sublist _

/-- Of the messages of the host the relay puts commands and events on the CommBus. -/
theorem newCalls_toJson {s t : State} {i : ℕ} {m : WireMsg} {now : TimeValue}
    {onThrows callThrows : Bool}
    (hstep : State.step impl cfg s (.socketMessage i (some m.toJson) now onThrows callThrows) =
      some t) :
    State.newCalls s t = [] ∨ ∃ rid, State.newCalls s t = [.doc (envelope rid m.toValue)] ∧
      (m.tag = "cmd" ∨ m.tag = "event") := by
  obtain ⟨_, _, hnone | ⟨rid, j, hparse, hone⟩⟩ := State.newCalls_socketMessage hstep
  · exact .inl hnone
  have hparse' : m.toJson.jsonParse = some m.toValue := rfl
  obtain rfl : m.toValue = j := Option.some.inj (hparse'.symm.trans hparse)
  have htraffic := State.socketMessage_traffic hparse hstep
  have hshape := hostMessage_shape impl m.toValue
  have htag {tag : String} (h : m.toValue.property "t" = some (.str tag)) :
      m.canonical.tag = tag := WireMsg.tag_of_property (WireMsg.fromValue_toValue m) h
  have hcanonical : m.canonical.tag = m.tag := by cases m <;> rfl
  cases hj : hostMessage impl m.toValue with
  | ping | ignored =>
    rw [hj] at htraffic
    exact .inl htraffic.newCalls
  | cmd id frame =>
    rw [hj] at hshape
    exact .inr ⟨rid, hone, .inl (hcanonical ▸ htag hshape.1)⟩
  | event frame =>
    rw [hj] at hshape
    exact .inr ⟨rid, hone, .inr (hcanonical ▸ htag hshape.1)⟩

/-- The calls of the relay carry at most the work of the message that it has received. -/
theorem newCalls_sublist {s t : State} {i : ℕ} {m : WireMsg} {now : TimeValue}
    {onThrows callThrows : Bool}
    (hstep : State.step impl cfg s (.socketMessage i (some m.toJson) now onThrows callThrows) =
      some t) :
    ((State.newCalls s t).flatMap callTasks).Sublist (frameTasks m.toJson) := by
  rcases newCalls_toJson hstep with hnone | ⟨rid, hone, hm⟩
  · rw [hnone]
    exact List.nil_sublist _
  · rw [hone, List.flatMap_singleton]
    exact callTasks_envelope hm rid

/-- What the module has worked through, and what it can still be given, is in the order in
which the host has sent it. -/
structure Queued (w : World) (sends runs : List Task) : Prop where
  linked : Linked w
  messages : ∀ i, ∀ t ∈ w.ahead i, ∃ m : WireMsg, t = m.toJson
  calls : (runs ++ w.toWasm.flatMap callTasks).Sublist sends
  frames : ∀ i, i + 1 = w.relay.nextSocket →
    (runs ++ w.toWasm.flatMap callTasks ++ (w.ahead i).flatMap frameTasks).Sublist sends

/-- At first there is no work. -/
theorem queued_init : Queued (init impl cfg) [] [] where
  linked := linked_init
  messages i t ht := by cases ht
  calls := List.Sublist.refl _
  frames i hi := by cases hi

/-- Nothing is added to what the module can be given. -/
theorem Queued.of_sublist {sends runs : List Task} (h : Queued w sends runs) (hlinked : Linked w')
    (hsockets : w.relay.nextSocket ≤ w'.relay.nextSocket)
    (hahead : ∀ i, (w'.ahead i).Sublist (w.ahead i)) (hcalls : w'.toWasm.Sublist w.toWasm) :
    Queued w' sends runs := by
  have hbefore : (runs ++ w'.toWasm.flatMap callTasks).Sublist
      (runs ++ w.toWasm.flatMap callTasks) := (hcalls.flatMap callTasks).append_left runs
  refine ⟨hlinked, fun i t ht => h.messages i t ((hahead i).subset ht), hbefore.trans h.calls,
    fun i hi => ?_⟩
  rcases h.linked.newest_or_idle hsockets hi with hnewest | hidle
  · exact (hbefore.append ((hahead i).flatMap frameTasks)).trans (h.frames i hnewest)
  · rw [List.sublist_nil.mp (hidle ▸ hahead i : (w'.ahead i).Sublist [])]
    exact (List.append_nil _).symm ▸ hbefore.trans h.calls

/-- The handlers are run by the bridge only. -/
theorem tasksRun_of_advances {ev : WorldEvent} (h : advances ev = false) : w.tasksRun ev = [] := by
  cases ev with
  | handle k result => cases h
  | _ => rfl

/-- More may have been sent. -/
theorem Queued.mono {sends runs : List Task} (h : Queued w sends runs) (more : List Task) :
    Queued w (sends ++ more) runs where
  linked := h.linked
  messages := h.messages
  calls := h.calls.trans (List.sublist_append_left _ _)
  frames i hi := (h.frames i hi).trans (List.sublist_append_left _ _)

/-- What the host sends are messages, and they come last. -/
theorem Queued.sent {sends runs : List Task} (h : Queued w sends runs) {more : List Text}
    (hlinked : Linked w') (hrelay : w'.relay = w.relay) (hcalls : w'.toWasm = w.toWasm)
    (hmore : ∀ t ∈ more, ∃ m : WireMsg, t = m.toJson)
    (hahead : ∀ i, (w'.ahead i).Sublist (w.ahead i ++ more)) :
    Queued w' (sends ++ more.flatMap frameTasks) runs := by
  refine ⟨hlinked, fun i t ht => ?_, ?_, fun i hi => ?_⟩
  · exact (List.mem_append.mp ((hahead i).subset ht)).elim (h.messages i t) (hmore t)
  · rw [hcalls]
    exact (h.mono _).calls
  · have hsub := (hahead i).flatMap frameTasks
    rw [List.flatMap_append] at hsub
    rw [hcalls]
    refine (hsub.append_left _).trans ?_
    rw [← List.append_assoc]
    exact (h.frames i (hrelay ▸ hi)).append (List.Sublist.refl _)

/-- The work in a frame is moved from the newest socket to the CommBus, behind what is there. -/
theorem Queued.moved {sends runs : List Task} (h : Queued w sends runs) {i : ℕ} {frame : Text}
    {calls : List Text} (hlinked : Linked w') (hnewest : i + 1 = w.relay.nextSocket)
    (hfront : w.ahead i = frame :: w'.ahead i) (hahead : ∀ j, (w'.ahead j).Sublist (w.ahead j))
    (hsockets : w.relay.nextSocket ≤ w'.relay.nextSocket) (htoWasm : w'.toWasm = w.toWasm ++ calls)
    (hcalls : (calls.flatMap callTasks).Sublist (frameTasks frame)) : Queued w' sends runs := by
  have hmore : (runs ++ w'.toWasm.flatMap callTasks ++ (w'.ahead i).flatMap frameTasks).Sublist
      sends := by
    refine List.Sublist.trans ?_ (h.frames i hnewest)
    rw [htoWasm, hfront, List.flatMap_append, List.flatMap_cons]
    simp only [List.append_assoc]
    exact ((hcalls.append_right _).append_left _).append_left _
  refine ⟨hlinked, fun j t ht => h.messages j t ((hahead j).subset ht),
    (List.sublist_append_left _ _).trans hmore, fun j hj => ?_⟩
  rcases h.linked.newest_or_idle hsockets hj with hsame | hidle
  · obtain rfl : j = i := by omega
    exact hmore
  · rw [List.sublist_nil.mp (hidle ▸ hahead j : (w'.ahead j).Sublist [])]
    exact (List.append_nil _).symm ▸ (List.sublist_append_left _ _).trans hmore

/-- The bridge works through the first text on the CommBus. -/
theorem Queued.run {sends runs : List Task} (h : Queued w sends runs) {raw : Text}
    (hlinked : Linked w') (hfirst : w.toWasm = raw :: w'.toWasm)
    (hsockets : w'.relay.nextSocket = w.relay.nextSocket) (hahead : ∀ i, w'.ahead i = w.ahead i) :
    Queued w' sends (runs ++ callTasks raw) := by
  have hbalance : runs ++ callTasks raw ++ w'.toWasm.flatMap callTasks =
      runs ++ w.toWasm.flatMap callTasks := by
    rw [hfirst, List.flatMap_cons, List.append_assoc]
  refine ⟨hlinked, fun i => hahead i ▸ h.messages i, hbalance ▸ h.calls, fun i hi => ?_⟩
  rw [hbalance, hahead]
  exact h.frames i (hsockets ▸ hi)

/-- What a step of the host sends is a message. -/
theorem exists_toJson_of_hostSends {ev : WorldEvent} {t : Text}
    (hstep : w.step uuid impl cfg ev = some w') (ht : t ∈ w.hostSends uuid ev) :
    ∃ m : WireMsg, t = m.toJson := by
  cases ev with
  | host e =>
    cases e with
    | deliver c | emit name data => exact ⟨_, List.mem_singleton.mp ht⟩
    | sendTo id json => cases hstep
    | _ => cases ht
  | ping id ts | pong id ts => exact ⟨_, List.mem_singleton.mp ht⟩
  | _ => cases ht

/-- Every step of the world keeps the order, while the CommBus hands over in order. -/
theorem queued_step {sends runs : List Task} (h : Queued w sends runs) {ev : WorldEvent}
    (hturn : inTurn ev = true) (hstep : w.step uuid impl cfg ev = some w') :
    Queued w' (sends ++ w.tasksSent uuid ev) (runs ++ w.tasksRun ev) := by
  have hlinked := linked_step h.linked hstep
  cases inward_step h.linked hstep with
  | sent ev e hev hadvances hsendTo hstepped hahead =>
    rw [tasksRun_of_advances hadvances, List.append_nil]
    refine h.sent hlinked hstepped.relay hstepped.toWasm
      (fun t ht => exists_toJson_of_hostSends hstep ht) fun i => ?_
    obtain ⟨n, hn, hsub⟩ := hahead i
    exact hsub.trans ((sublist_hostSends uuid w hn hev hsendTo).append_left _)
  | moved i frame now onThrows callThrows hnewest hfirst hfront hahead hsockets hrelay hcalls =>
    simp only [tasksSent, hostSends, tasksRun, List.flatMap_nil, List.append_nil]
    obtain ⟨m, rfl⟩ := h.messages i frame (hfront ▸ List.mem_cons_self)
    exact h.moved hlinked hnewest hfront hahead hsockets hcalls (newCalls_sublist hrelay)
  | run k result raw hraw hcalls hsockets hahead =>
    obtain rfl : k = 0 := by simpa [inTurn] using hturn
    simp only [tasksSent, hostSends, List.flatMap_nil, List.append_nil, tasksRun, hraw,
      Option.elim_some]
    exact h.run hlinked (eq_cons_of_first hraw hcalls) hsockets hahead
  | eased ev hadvances hsockets hahead hcalls =>
    rw [tasksRun_of_advances hadvances, List.append_nil]
    exact (h.of_sublist hlinked hsockets hahead hcalls).mono _

/-! ### From the module to the host -/

/-- What the subscribers have been handed off socket `i`, and what is on its way to it, is in
the order in which the module has emitted it. -/
def Released (i : ℕ) (w : World) (emits gets : List EventPayload) : Prop :=
  (gets ++ (w.up i).flatMap subscriberEvents ++ w.fromWasm.flatMap subscriberEvents).Sublist emits

/-- A callback of the relay sends for the subscribers what it takes off the CommBus first. -/
theorem Released.relay {i : ℕ} {emits gets : List EventPayload} (h : Released i w emits gets)
    {e : RelayEvent} (hmoved : RelayMoved impl cfg e w w') (taken : List EventPayload)
    (htaken : w.fromWasm.flatMap subscriberEvents =
      taken ++ w'.fromWasm.flatMap subscriberEvents)
    (hsends : ∀ fs, w'.relay.sent = w.relay.sent ++ fs → (∀ f ∈ fs, f.WellMade impl cfg e) →
      ((fs.map (·.frame)).flatMap subscriberEvents).Sublist taken) : Released i w' emits gets := by
  obtain ⟨fs, hsent, hmade⟩ := State.writes_step hmoved.relay
  have huploads : (uploads w.relay w'.relay i).Sublist (fs.map (·.frame)) := by
    rw [uploads_append hsent]
    exact (List.filter_sublist).map _
  have hup := ((hmoved.up_sublist i).trans (huploads.append_left _)).flatMap subscriberEvents
  rw [List.flatMap_append] at hup
  refine List.Sublist.trans ?_ h
  rw [htaken, List.append_assoc, List.append_assoc]
  refine List.Sublist.append_left ?_ gets
  rw [← List.append_assoc]
  exact (hup.trans ((hsends fs hsent hmade).append_left _)).append_right _

/-- While the CommBus hands over in order, the module works through the commands and events of
the host in the order of sending, each once at most, and through nothing else, on whichever
sockets they came and whatever has been lost. At any time the relay hears one of them. -/
theorem module_works_in_turn {evs : List WorldEvent}
    (hrun : Transition.run (step uuid impl cfg) (init impl cfg) evs = some w)
    (hturn : ∀ ev ∈ evs, inTurn ev = true) :
    (Transition.trace (step uuid impl cfg) tasksRun (init impl cfg) evs).Sublist
      (Transition.trace (step uuid impl cfg) (tasksSent uuid) (init impl cfg) evs) := by
  have hqueued := Transition.run_traces_of_forall
    (I := fun w sends runs => Queued w sends runs) (P := fun ev => inTurn ev = true)
    (fun _ _ _ _ _ h hturn hstep => queued_step h hturn hstep) hturn hrun queued_init
  exact (List.sublist_append_left _ _).trans hqueued.calls

/-- A command and an event go to the module and two events come back, on a second socket after
the first one was lost with an event on it. -/
def interleaved : List WorldEvent :=
  [.relay (.init false false), .relay (.socketOpen 0 .epoch), .accept 0,
    .host (.emit "first" .null), .cut 0, .relay (.socketDrop 0), .relay (.socketClose 0),
    .relay (.timer 1 false false), .relay (.socketOpen 1 .epoch), .accept 1,
    .host (.start 0 (some "get") .null 5), .host (.insert 0), .host (.deliver 0),
    .host (.emit "second" .null), .send 1, .send 1, .deliver 1 .epoch false false,
    .deliver 1 .epoch false false, .emit "a" .null, .handle 0 (.ok .null), .emit "b" .null,
    .handle 0 (.ok .null), .respond 0, .respond 0, .respond 0, .receive 1 0, .receive 1 0,
    .receive 1 0, .receive 1 0, .receive 1 0]

/-- The run exists. -/
theorem interleaved_isSome : (Transition.run (step Host.Calls.wordId .typescript defaultConfig)
    (init .typescript defaultConfig) interleaved).isSome = true := by
  decide +kernel

/-- The CommBus hands over in order in it. -/
theorem interleaved_inTurn : ∀ ev ∈ interleaved, inTurn ev = true := by
  decide

/-- Of three tasks the module works through the last two. -/
theorem module_works_in_turn_interleaved :
    (Transition.trace (step Host.Calls.wordId .typescript defaultConfig) tasksRun
      (init .typescript defaultConfig) interleaved).length = 2 ∧
    (Transition.trace (step Host.Calls.wordId .typescript defaultConfig) tasksRun
      (init .typescript defaultConfig) interleaved).Sublist
    (Transition.trace (step Host.Calls.wordId .typescript defaultConfig)
      (tasksSent Host.Calls.wordId) (init .typescript defaultConfig) interleaved) :=
  ⟨by decide +kernel,
    module_works_in_turn (Option.some_get interleaved_isSome).symm interleaved_inTurn⟩

end InfinityBridge.EndToEnd.World
