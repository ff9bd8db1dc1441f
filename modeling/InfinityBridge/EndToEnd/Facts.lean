import InfinityBridge.EndToEnd.Counting
import InfinityBridge.EndToEnd.Fidelity
import InfinityBridge.Relay.Acks

/-!
# What every step keeps

The texts stay traced, no command is seen twice, and the books of the relay stay in
order, whatever happens next in the world. There is one lemma for each way the world
moves: the host, a writer task, a callback of the relay, the sockets and the CommBus.
-/

namespace InfinityBridge.EndToEnd

open Relay Wasm

namespace World

variable {uuid : ℕ → String} {impl : Impl} {cfg : ResolvedConfig} {w w' : World}
  {e : Host.CallEvent}

/-- What holds in every world that is reached. -/
structure Facts (uuid : ℕ → String) (impl : Impl) (cfg : ResolvedConfig) (w : World) : Prop where
  timers : State.TimersOk w.relay
  books : State.Accounted impl cfg w.relay
  traced : Traced uuid w
  counted : Counted uuid w

/-- At first all of this holds of nothing. -/
theorem facts_init : Facts uuid impl cfg (init impl cfg) :=
  ⟨State.timersOk_make, State.accounted_make, traced_init, counted_init impl cfg⟩

/-! ### Steps of the host -/

/-- The frames other than commands have no command id. -/
theorem frameId_event (p : EventPayload) : frameId (WireMsg.event p).toJson = none := by
  simp only [frameId, WireMsg.toJson, Text.jsonParse_doc, Option.bind_some, commandId,
    WireMsg.fromValue_toValue, WireMsg.canonical]

/-- A ping is no command. -/
theorem frameId_ping (ts : Option UInt64) : frameId (WireMsg.ping ts).toJson = none := by
  simp only [frameId, WireMsg.toJson, Text.jsonParse_doc, Option.bind_some, commandId,
    WireMsg.fromValue_toValue, WireMsg.canonical]

/-- Nor is a pong. -/
theorem frameId_pong (ts : Option UInt64) : frameId (WireMsg.pong ts).toJson = none := by
  simp only [frameId, WireMsg.toJson, Text.jsonParse_doc, Option.bind_some, commandId,
    WireMsg.fromValue_toValue, WireMsg.canonical]

/-- What a step of the host that is no delivery of command `c` sends is not that command. -/
theorem frameId_sends (huuid : Function.Injective uuid) {s : Host.Calls} {t : Text} {c : ℕ}
    (hsends : Host.Calls.sends uuid s e = some t) (he : e ≠ .deliver c)
    (hsendTo : ∀ id json, e = .sendTo id json → frameId json = none) :
    frameId t ≠ some (uuid c) := by
  cases e with
  | deliver c' =>
    cases hsends
    rw [Host.commandFrame, frameId_cmd, ne_eq, Option.some.injEq]
    exact fun h => he (by rw [huuid h])
  | emit name data =>
    cases hsends
    rw [frameId_event]
    exact Option.some_ne_none _ |>.symm
  | sendTo id json =>
    simp only [Host.Calls.sends, Option.some.injEq] at hsends
    rw [← hsends, hsendTo id json rfl]
    exact Option.some_ne_none _ |>.symm
  | _ => cases hsends

/-- What a step of the host that writes nothing on the sockets adds to what is on its way. A
writer that ends drops what is queued for it. -/
theorem HostStepped.inbound (h : HostStepped uuid e w w') (hdown : w'.down = w.down)
    (he : ∀ i, e ≠ .writerSends i) (i : ℕ) :
    ∃ n ≤ w.host.hub.holders i, (w'.inbound i).Sublist ((w.host.hub.channels i).queue ++
      (Host.Calls.sends uuid w.host e).elim [] (List.replicate n) ++ w.down i) := by
  by_cases hends : e = .writerEnds i
  · subst hends
    refine ⟨0, Nat.zero_le _, ?_⟩
    rw [World.inbound, hdown, Host.Calls.queue_writerEnds h.host]
    exact (List.nil_sublist _).append_right _
  · obtain ⟨n, hn, hqueue⟩ := Host.Calls.queue_step h.host i (he i) hends
    exact ⟨n, hn, by rw [World.inbound, hdown, hqueue]⟩

/-- A step of the host that writes nothing on the sockets. -/
theorem Facts.host (huuid : Function.Injective uuid) (h : Facts uuid impl cfg w)
    (hstepped : HostStepped uuid e w w') (hdown : w'.down = w.down)
    (hup : ∀ i, w'.up i ⊆ w.up i) (he : ∀ i, e ≠ .writerSends i)
    (hconnected : ∀ i, w'.connected i = true ↔ w.connected i = true ∨ e = .register i)
    (hregister : ∀ i, e = .register i → w.connected i = false ∧ i < w.relay.nextSocket)
    (hsendTo : ∀ id json, e = .sendTo id json →
      HostFrame uuid w' json ∧ frameId json = none)
    (hacks : ∀ d a, e = .takeAck d a →
      ∃ f ∈ w.relay.sent, WireMsg.fromJson f.frame = some (.ack a)) : Facts uuid impl cfg w' := by
  refine ⟨by rw [hstepped.relay]; exact h.timers, by rw [hstepped.relay]; exact h.books,
    h.traced.host hstepped ?_ hup hacks,
    h.counted.host hstepped hconnected hregister ?_ ?_ ?_⟩
  · intro i t ht
    obtain ⟨n, _, hinbound⟩ := hstepped.inbound hdown he i
    have ht := hinbound.subset ht
    simp only [List.mem_append] at ht
    rcases ht with (ht | ht) | ht
    · exact .inl (List.mem_append_left _ ht)
    · cases hsends : Host.Calls.sends uuid w.host e with
      | none => simp [hsends] at ht
      | some f =>
        rw [hsends, Option.elim_some, List.mem_replicate] at ht
        rw [ht.2]
        exact .inr (hstepped.hostFrame hsends fun id json hjson => (hsendTo id json hjson).1)
    · exact .inl (List.mem_append_right _ ht)
  · intro c i hne
    obtain ⟨n, _, hinbound⟩ := hstepped.inbound hdown he i
    refine hinbound.countP_le.trans ?_
    rw [waiting, World.inbound, List.countP_append, List.countP_append, List.countP_append]
    cases hsends : Host.Calls.sends uuid w.host e with
    | none => simp
    | some f =>
      have hf := frameId_sends huuid hsends hne fun id json hjson => (hsendTo id json hjson).2
      simp [List.countP_replicate, hf]
  · intro c i _
    obtain ⟨n, hn, hinbound⟩ := hstepped.inbound hdown he i
    refine hinbound.countP_le.trans ?_
    have hle : ((Host.Calls.sends uuid w.host e).elim [] (List.replicate n)).countP
        (fun t => frameId t = some (uuid c)) ≤ n := by
      refine List.countP_le_length.trans ?_
      cases Host.Calls.sends uuid w.host e <;> simp
    rw [waiting, World.inbound, List.countP_append, List.countP_append, List.countP_append]
    omega
  · intro i hi hempty
    obtain ⟨n, hn, hinbound⟩ := hstepped.inbound hdown he i
    have hfalse : w.connected i = false := by
      by_contra hne
      rw [(hconnected i).mpr (.inl (by simpa using hne))] at hi
      cases hi
    rw [h.counted.holders_eq_zero hfalse, Nat.le_zero] at hn
    rw [World.inbound, List.append_eq_nil_iff] at hempty
    rw [hn, hempty.1, hempty.2] at hinbound
    refine List.sublist_nil.mp (hinbound.trans ?_)
    cases Host.Calls.sends uuid w.host e <;> exact List.Sublist.refl _

/-- A writer task moves a frame from its channel to its socket. -/
theorem Facts.send (h : Facts uuid impl cfg w) {i : ℕ} {frame : Text} {frames : List Text}
    (hqueue : (w.host.hub.channels i).queue = frame :: frames)
    (hstepped : HostStepped uuid (.writerSends i) w w')
    (hdown : w'.down = push w.down i (if w.cut i then [] else [frame]))
    (hup : w'.up = w.up) (hconnected : w'.connected = w.connected) : Facts uuid impl cfg w' := by
  have hhub : w'.host.hub = w.host.hub.popChannel i := by
    have := hstepped.host
    simp only [Host.Calls.step, Option.some.injEq] at this
    rw [← this]
  have hother (j : ℕ) (hj : j ≠ i) : w'.inbound j = w.inbound j := by
    simp [inbound, hhub, hdown, push, Host.Hub.popChannel, hj]
  have hself : w'.inbound i = frames ++ (w.down i ++ if w.cut i then [] else [frame]) := by
    simp [inbound, hhub, hdown, push, Host.Hub.popChannel, hqueue]
  have hwaiting (c j : ℕ) : w'.waiting uuid c j ≤ w.waiting uuid c j := by
    by_cases hj : j = i
    · subst hj
      rw [waiting, waiting, hself, inbound, hqueue]
      simp only [List.countP_append, List.countP_cons, List.cons_append]
      split_ifs <;> simp_all
      omega
    · rw [waiting, waiting, hother j hj]
  refine ⟨by rw [hstepped.relay]; exact h.timers, by rw [hstepped.relay]; exact h.books,
    h.traced.host hstepped ?_ (by rw [hup]; exact fun _ _ ht => ht) (fun _ _ h => by cases h),
    h.counted.host hstepped ?_ (fun _ h => by cases h) (fun c j _ => hwaiting c j)
      (fun c j _ => (hwaiting c j).trans (Nat.le_add_right _ _)) ?_⟩
  · intro j t ht
    refine .inl ?_
    by_cases hj : j = i
    · subst hj
      rw [hself] at ht
      rw [inbound, hqueue]
      simp only [List.mem_append, List.mem_cons] at ht ⊢
      split_ifs at ht <;> simp at ht <;> tauto
    · rwa [hother j hj] at ht
  · intro j
    simp [hconnected]
  · intro j hj hempty
    by_cases hji : j = i
    · subst hji
      rw [inbound, hqueue] at hempty
      cases hempty
    · rw [hother j hji, hempty]

/-! ### Callbacks of the relay -/

/-- The frames a socket takes are frames of the relay. -/
theorem mem_sent_of_uploads {s t : Relay.State} {i : ℕ} {frame : Text}
    (h : frame ∈ uploads s t i) : ∃ f ∈ t.sent, f.frame = frame := by
  obtain ⟨f, hf, rfl⟩ := List.mem_map.mp h
  exact ⟨f, List.mem_of_mem_drop (List.mem_of_mem_filter hf), rfl⟩

/-- What a step of the world that runs a callback of the relay changes, apart from what it
takes off the sockets and the CommBus first. -/
theorem relayStepped_of_relayStep {ev : RelayEvent} (down : ℕ → List Text)
    (fromWasm : List Text) (new : List (String × Option Value)) (heard : List Text)
    (hstep : ({ w with down, fromWasm } : World).relayStep impl cfg ev = some w')
    (hdown : ∀ i, (down i).Sublist (w.down i))
    (hcalm : ∀ t, State.step impl cfg w.relay ev = some t → State.Calm { w.relay with
      accepted := w.relay.accepted ++ new
      heard := w.relay.heard ++ heard
      nextCall := t.nextCall } t) :
    RelayStepped new heard (State.newCalls w.relay w'.relay) w w' ∧ w'.down = down ∧
      w'.fromWasm = fromWasm ∧ State.step impl cfg w.relay ev = some w'.relay := by
  obtain ⟨t, ht, rfl⟩ := Option.map_eq_some_iff.mp hstep
  refine ⟨⟨hcalm t ht, rfl, rfl, rfl, rfl, hdown, rfl, ?_⟩, rfl, rfl, ht⟩
  intro i frame hmem
  rcases List.mem_append.mp hmem with hmem | hmem
  · exact .inl hmem
  · split_ifs at hmem
    · cases hmem
    · exact .inr (mem_sent_of_uploads hmem)

/-- A callback of the relay keeps the facts. -/
theorem Facts.relay {ev : RelayEvent} {new : List (String × Option Value)}
    {heard calls : List Text} (h : Facts uuid impl cfg w)
    (hstep : State.step impl cfg w.relay ev = some w'.relay)
    (hbound : w'.relay.requests < 2 ^ 31) (hstepped : RelayStepped new heard calls w w')
    (hnew : ∀ rid id, (rid, id) ∈ new → ∃ c, id = some (.str (uuid c)))
    (hcalls : ∀ t ∈ calls, RelayCall uuid w' t)
    (hfrom : ∀ t ∈ w'.fromWasm ++ heard, t ∈ w.fromWasm)
    (hbalance : ∀ c i, i + 1 = w.relay.nextSocket →
      requestsOf uuid c new + w'.waiting uuid c i ≤ w.waiting uuid c i)
    (hsocket : new ≠ [] → ∃ i, i + 1 = w.relay.nextSocket)
    (hcounts : ∀ c, callsOf uuid c calls ≤ requestsOf uuid c new) : Facts uuid impl cfg w' :=
  ⟨State.timersOk_step h.timers hstep, State.accounted_step h.books h.timers hstep hbound,
    h.traced.relay hstepped hnew hcalls hfrom, h.counted.relay hstepped hbalance hsocket hcounts⟩

/-- A callback that accepts no command. -/
theorem Facts.relay_of_nil {ev : RelayEvent} {heard calls : List Text}
    (h : Facts uuid impl cfg w)
    (hstep : State.step impl cfg w.relay ev = some w'.relay)
    (hbound : w'.relay.requests < 2 ^ 31) (hstepped : RelayStepped [] heard calls w w')
    (hcalls : ∀ t ∈ calls, ∃ rid e, t = .doc (envelope rid (WireMsg.event e).toValue))
    (hfrom : ∀ t ∈ w'.fromWasm ++ heard, t ∈ w.fromWasm) : Facts uuid impl cfg w' := by
  refine h.relay hstep hbound hstepped (by simp) (fun t ht => .inr (hcalls t ht)) hfrom ?_
    (by simp) ?_
  · intro c i _
    rw [requestsOf, List.countP_nil, Nat.zero_add, waiting, waiting]
    refine List.Sublist.countP_le ?_
    rw [inbound, inbound, hstepped.host]
    exact (List.Sublist.refl _).append (hstepped.down i)
  · intro c
    rw [requestsOf, List.countP_nil, Nat.le_zero, callsOf, List.countP_eq_zero]
    intro t ht
    obtain ⟨rid, e, rfl⟩ := hcalls t ht
    simp [callId_envelope, commandId, WireMsg.fromValue_toValue, WireMsg.canonical]

/-- What the relay does with the frame of a command that it has not seen. -/
theorem hostMessage_cmd (impl : Impl) (p : CmdPayload) :
    hostMessage impl (WireMsg.cmd p).toValue =
      .cmd (some (.str p.id)) (WireMsg.cmd p).toValue := by
  obtain ⟨id, name, payload⟩ := p
  rw [toValue_cmd]
  exact hostMessage_commandDoc impl id name payload

/-- Both relays read an event of the host as one. -/
theorem hostMessage_event (impl : Impl) (p : EventPayload) :
    hostMessage impl (WireMsg.event p).toValue = .event (WireMsg.event p).toValue := by
  cases impl <;> simp [hostMessage, WireMsg.toValue, Json.property, Json.named]

/-- A command that waits on the newest socket has not been accepted yet. -/
theorem Facts.not_duplicate (h : Facts uuid impl cfg w) {c i : ℕ}
    (hi : i + 1 = w.relay.nextSocket) (hwaiting : 0 < w.waiting uuid c i) :
    w.relay.dedup.has (Key.of w.relay.nextRef (some (.str (uuid c)))) = false := by
  by_contra hhas
  rw [Bool.not_eq_false] at hhas
  obtain ⟨rid, id, hacc, hkey⟩ := h.books.sameKey_of_has hhas
  obtain rfl := State.eq_of_sameKey_str hkey
  have hpos : 0 < requestsOf uuid c w.relay.accepted :=
    List.countP_pos_iff.mpr ⟨_, hacc, by simp [asString]⟩
  have := h.counted.once c i hi
  omega

/-- Taking a frame off socket `i` takes one command off it, if the frame is that command. -/
theorem waiting_deliver {i : ℕ} {frame : Text} {frames : List Text} (hhost : w'.host = w.host)
    (hold : w.down i = frame :: frames) (hdown : w'.down i = frames) (c : ℕ) :
    w.waiting uuid c i = w'.waiting uuid c i + if frameId frame = some (uuid c) then 1 else 0 := by
  rw [waiting, waiting, inbound, inbound, hhost, hold, hdown, List.countP_append,
    List.countP_append, List.countP_cons]
  simp only [decide_eq_true_eq]
  omega

/-- Taking the first frame off a socket leaves the rest of it. -/
theorem sublist_update {down : ℕ → List Text} {i : ℕ} {frame : Text} {frames : List Text}
    (hold : down i = frame :: frames) (j : ℕ) :
    (Function.update down i frames j).Sublist (down j) := by
  by_cases hj : j = i
  · subst hj
    rw [Function.update_self, hold]
    exact List.sublist_cons_self _ _
  · rw [Function.update_of_ne hj]

/-- The relay receives a command on its current socket. -/
theorem Facts.deliver_cmd (huuid : Function.Injective uuid) (h : Facts uuid impl cfg w)
    {i c : ℕ} {frames : List Text} {now : TimeValue} {onThrows callThrows : Bool}
    (hissued : w.Issued c)
    (hold : w.down i = (WireMsg.cmd (w.command uuid c)).toJson :: frames)
    (hws : w.relay.ws = some i)
    (hstep : ({ w with down := Function.update w.down i frames } : World).relayStep impl cfg
      (.socketMessage i (some (WireMsg.cmd (w.command uuid c)).toJson) now onThrows callThrows) =
        some w')
    (hbound : w'.relay.requests < 2 ^ 31) : Facts uuid impl cfg w' := by
  have hi := h.counted.newest i hws
  have hframe (c' : ℕ) : frameId (WireMsg.cmd (w.command uuid c)).toJson = some (uuid c') ↔
      c = c' := by
    rw [frameId_cmd, Option.some.injEq]
    exact huuid.eq_iff
  have hwaiting : 0 < w.waiting uuid c i := by
    refine List.countP_pos_iff.mpr ⟨_, ?_, by simpa using (hframe c).mpr rfl⟩
    rw [inbound, hold]
    simp
  obtain ⟨t, ht, _⟩ := Option.map_eq_some_iff.mp hstep
  have htraffic := State.socketMessage_traffic (Text.jsonParse_doc _) ht
  rw [hostMessage_cmd] at htraffic
  rcases htraffic with ⟨hhas, _⟩ | ⟨rid, hcall⟩
  · -- it would have been accepted before
    rw [show (w.command uuid c).id = uuid c from rfl, h.not_duplicate hi hwaiting] at hhas
    cases hhas
  · obtain ⟨hstepped, hdown, hfrom, hrelay⟩ := relayStepped_of_relayStep _ w.fromWasm
      [(rid, some (.str (uuid c)))] [] hstep (sublist_update hold)
      (fun t' ht' => by
        obtain rfl : t = t' := Option.some.inj (ht.symm.trans ht')
        rw [List.append_nil]
        exact hcall.calm)
    obtain rfl : t = w'.relay := Option.some.inj (ht.symm.trans hrelay)
    have hrequests (c' : ℕ) : requestsOf uuid c' [(rid, some (.str (uuid c)))] =
        if c = c' then 1 else 0 := by
      by_cases hc : c = c' <;> simp [requestsOf, asString, huuid.eq_iff, hc]
    have hnewCalls : State.newCalls w.relay w'.relay = [] ∨ State.newCalls w.relay w'.relay =
        [.doc (envelope rid (WireMsg.cmd (w.command uuid c)).toValue)] := hcall.newCalls
    refine h.relay hrelay hbound hstepped ?_ ?_ ?_ ?_ (fun _ => ⟨i, hi⟩) ?_
    · intro rid' id hmem
      rw [List.mem_singleton, Prod.mk.injEq] at hmem
      exact ⟨c, hmem.2⟩
    · intro f hf
      rcases hnewCalls with hnone | hone
      · rw [hnone] at hf
        cases hf
      · rw [hone, List.mem_singleton] at hf
        subst hf
        refine .inl ⟨rid, c, (hstepped.extends.issued c hissued).1, ?_, ?_⟩
        · rw [hstepped.calm.accepted]
          exact List.mem_append_right _ (List.mem_singleton_self _)
        · rw [hstepped.extends.command hissued]
    · intro f hf
      rwa [List.append_nil, hfrom] at hf
    · intro c' i' hi'
      obtain rfl : i' = i := by omega
      rw [waiting_deliver hstepped.host hold (by rw [hdown, Function.update_self]) c', hrequests]
      simp only [hframe]
      omega
    · intro c'
      rw [hrequests]
      rcases hnewCalls with hnone | hone
      · rw [hnone]
        exact Nat.zero_le _
      · rw [hone]
        by_cases hc : c = c' <;>
          simp [callsOf, callId_envelope, commandId_cmd, World.command, huuid.eq_iff, hc]

/-- The relay receives a frame on its current socket. -/
theorem Facts.deliver (huuid : Function.Injective uuid) (h : Facts uuid impl cfg w) {i : ℕ}
    {frame : Text} {frames : List Text} {now : TimeValue} {onThrows callThrows : Bool}
    (hold : w.down i = frame :: frames) (hws : w.relay.ws = some i)
    (hstep : ({ w with down := Function.update w.down i frames } : World).relayStep impl cfg
      (.socketMessage i (some frame) now onThrows callThrows) = some w')
    (hbound : w'.relay.requests < 2 ^ 31) : Facts uuid impl cfg w' := by
  have hmem : frame ∈ w.inbound i := by
    rw [inbound, hold]
    simp
  obtain ⟨t, ht, _⟩ := Option.map_eq_some_iff.mp hstep
  -- no command is accepted, and what is called concerns an event
  have hother {text : Text} (hcall : State.MayCall text w.relay t)
      (htext : State.newCalls w.relay t = [text] →
        ∃ rid e, text = .doc (envelope rid (WireMsg.event e).toValue)) :
    Facts uuid impl cfg w' := by
    obtain ⟨hstepped, _, hfrom, hrelay⟩ := relayStepped_of_relayStep _ w.fromWasm
      [] [] hstep (sublist_update hold) (fun t' ht' => by
        obtain rfl : t = t' := Option.some.inj (ht.symm.trans ht')
        rw [List.append_nil, List.append_nil]
        exact hcall.calm)
    obtain rfl : t = w'.relay := Option.some.inj (ht.symm.trans hrelay)
    refine h.relay_of_nil hrelay hbound hstepped ?_ ?_
    · intro f hf
      rcases hcall.newCalls with hnone | hone
      · rw [hnone] at hf
        cases hf
      · rw [hone, List.mem_singleton] at hf
        exact hf ▸ htext hone
    · intro f hf
      rwa [List.append_nil, hfrom] at hf
  have hcalm (hc : State.Calm w.relay t) : Facts uuid impl cfg w' := by
    refine hother (hc.mayCall (.junk "")) fun hone => ?_
    rw [hc.newCalls] at hone
    cases hone
  rcases h.traced.frames i frame hmem with ⟨c, hissued, rfl⟩ | ⟨e, rfl⟩ | ⟨ts, rfl | rfl⟩
  · exact h.deliver_cmd huuid hissued hold hws hstep hbound
  · have htraffic := State.socketMessage_traffic (Text.jsonParse_doc _) ht
    rw [hostMessage_event] at htraffic
    obtain ⟨rid, hcall⟩ := htraffic
    exact hother hcall fun _ => ⟨rid, e, rfl⟩
  · have htraffic := State.socketMessage_traffic (Text.jsonParse_doc _) ht
    have hping : hostMessage impl (WireMsg.ping ts).toValue = .ping := by
      cases impl <;> simp [hostMessage, WireMsg.toValue, Json.property, Json.named]
    rw [hping] at htraffic
    exact hcalm htraffic
  · have htraffic := State.socketMessage_traffic (Text.jsonParse_doc _) ht
    have hpong : hostMessage impl (WireMsg.pong ts).toValue = .ignored := by
      cases impl <;> simp [hostMessage, WireMsg.toValue, Json.property, Json.named]
    rw [hpong] at htraffic
    exact hcalm htraffic

/-- A callback of the relay that nothing from outside causes. -/
theorem Facts.local (h : Facts uuid impl cfg w) {ev : RelayEvent}
    (hev : State.isArrival ev = false) (hstep : w.relayStep impl cfg ev = some w')
    (hbound : w'.relay.requests < 2 ^ 31) : Facts uuid impl cfg w' := by
  obtain ⟨hstepped, _, hfrom, hrelay⟩ := relayStepped_of_relayStep w.down
    w.fromWasm [] [] hstep (fun _ => List.Sublist.refl _)
    (fun t ht => by
      rw [List.append_nil, List.append_nil]
      exact ((State.calm_step hev ht).mayCall (.junk "")).calm)
  refine h.relay_of_nil hrelay hbound hstepped ?_ ?_
  · intro t ht
    rw [(State.calm_step hev hrelay).newCalls] at ht
    cases ht
  · intro t ht
    rwa [List.append_nil, hfrom] at ht

/-- The relay receives a text on the response event. -/
theorem Facts.respond (h : Facts uuid impl cfg w) {k : ℕ} {raw : Text}
    (hraw : w.fromWasm[k]? = some raw)
    (hstep : ({ w with fromWasm := w.fromWasm.eraseIdx k } : World).relayStep impl cfg
      (.wasmMessage raw) = some w')
    (hbound : w'.relay.requests < 2 ^ 31) : Facts uuid impl cfg w' := by
  obtain ⟨hstepped, _, hfrom, hrelay⟩ := relayStepped_of_relayStep w.down _ [] [raw] hstep
    (fun _ => List.Sublist.refl _)
    (fun t ht => by
      rw [List.append_nil]
      exact ((State.calm_wasmMessage ht).mayCall (.junk "")).calm)
  refine h.relay_of_nil hrelay hbound hstepped ?_ ?_
  · intro t ht
    have hnone : State.newCalls w.relay w'.relay = [] := (State.calm_wasmMessage hrelay).newCalls
    rw [hnone] at ht
    cases ht
  · intro t ht
    rw [hfrom] at ht
    rcases List.mem_append.mp ht with ht | ht
    · exact List.mem_of_mem_eraseIdx ht
    · rw [List.mem_singleton.mp ht]
      exact List.mem_of_getElem? hraw

/-! ### Sockets and CommBus -/

/-- What happens on the sockets and the CommBus keeps the facts. -/
theorem Facts.bus (h : Facts uuid impl cfg w) (hstepped : BusStepped w w')
    (hruns : ∀ r ∈ w'.invocations, r ∈ w.invocations ∨ HandlerRun uuid w' r)
    (htexts : ∀ t ∈ w'.fromWasm, t ∈ w.fromWasm ∨ BridgeText w' t)
    (hhandled : ∀ c, callsOf uuid c w'.toWasm + runsOf uuid c w'.invocations ≤
      callsOf uuid c w.toWasm + runsOf uuid c w.invocations) : Facts uuid impl cfg w' :=
  ⟨by rw [hstepped.relay]; exact h.timers, by rw [hstepped.relay]; exact h.books,
    h.traced.bus hstepped hruns htexts, h.counted.bus hstepped hhandled⟩

/-- What happens on the sockets and the CommBus, with no run of the handler. -/
theorem Facts.bus_of_invocations (h : Facts uuid impl cfg w) (hstepped : BusStepped w w')
    (hcalls : w'.toWasm.Sublist w.toWasm) (hinvocations : w'.invocations = w.invocations)
    (htexts : ∀ t ∈ w'.fromWasm, t ∈ w.fromWasm ∨ BridgeText w' t) : Facts uuid impl cfg w' := by
  refine h.bus hstepped (fun r hr => .inl (hinvocations ▸ hr)) htexts fun c => ?_
  rw [hinvocations]
  exact Nat.add_le_add_right hcalls.countP_le _

/-- The bridge takes a call off the CommBus and dispatches it. -/
theorem Facts.handle (h : Facts uuid impl cfg w) {k : ℕ}
    {raw : Text} {result : Except String Value} (hraw : w.toWasm[k]? = some raw) :
    Facts uuid impl cfg (({ w with toWasm := w.toWasm.eraseIdx k } : World).handle raw result) := by
  have hcall := h.traced.calls raw (List.mem_of_getElem? hraw)
  rcases hcall.handle { w with toWasm := w.toWasm.eraseIdx k } result with
    heq | ⟨rid, c, hissued, hacc, rfl, heq⟩
  · rw [heq]
    exact h.bus_of_invocations ⟨rfl, rfl, rfl, rfl, fun _ => List.Sublist.refl _, fun _ _ ht => ht,
      List.eraseIdx_subset, fun _ hr => hr⟩ (List.eraseIdx_sublist _ _) rfl
      fun _ ht => .inl ht
  · rw [heq]
    refine h.bus ⟨rfl, rfl, rfl, rfl, fun _ => List.Sublist.refl _, fun _ _ ht => ht,
      List.eraseIdx_subset, List.subset_append_left _ _⟩ ?_ ?_ ?_
    · intro r hr
      rcases List.mem_append.mp hr with hr | hr
      · exact .inl hr
      · rw [List.mem_singleton] at hr
        subst hr
        exact .inr ⟨c, hissued, hacc, rfl, rfl, rfl⟩
    · intro t ht
      rcases List.mem_append.mp ht with ht | ht
      · exact .inl ht
      · rw [List.mem_singleton] at ht
        exact .inr (.inl ⟨_, List.mem_append_right _ (List.mem_singleton_self _), ht⟩)
    · intro c'
      -- the call that is taken off is the one the run is for
      have hperm := List.getElem_cons_eraseIdx_perm (List.getElem?_eq_some_iff.mp hraw).1
      have hcount := hperm.countP_eq fun t => callId t = some (uuid c')
      rw [(List.getElem?_eq_some_iff.mp hraw).2, List.countP_cons] at hcount
      simp only [callsOf, runsOf, List.countP_append, List.countP_singleton]
      omega

/-- A step of the host as the world takes it. -/
theorem hostStepped_of_hostStep (connected : ℕ → Bool) (down up : ℕ → List Text)
    (hstep : ({ w with connected, down, up } : World).hostStep uuid e = some w') :
    HostStepped uuid e w w' ∧ w'.connected = connected ∧ w'.down = down ∧ w'.up = up := by
  obtain ⟨t, ht, rfl⟩ := Option.map_eq_some_iff.mp hstep
  exact ⟨⟨ht, rfl, rfl, rfl, rfl, rfl⟩, rfl, rfl, rfl⟩

/-- A step of the host that registers nobody and sends nothing to a single client. -/
theorem Facts.host_plain (huuid : Function.Injective uuid) (h : Facts uuid impl cfg w)
    (hstep : w.hostStep uuid e = some w') (he : isInternal e = true) : Facts uuid impl cfg w' := by
  obtain ⟨hstepped, hconnected, hdown, hup⟩ := hostStepped_of_hostStep w.connected
    w.down w.up hstep
  have hne : (∀ i, e ≠ .writerSends i) ∧ (∀ i, e ≠ .register i) ∧
      (∀ id json, e ≠ .sendTo id json) ∧ ∀ d a, e ≠ .takeAck d a := by
    cases e <;> simp_all [isInternal]
  refine h.host huuid hstepped hdown (fun i => by rw [hup]; exact fun _ ht => ht) hne.1 ?_
    (fun i hi => absurd hi (hne.2.1 i)) (fun id json hj => absurd hj (hne.2.2.1 id json))
    (fun d a ha => absurd ha (hne.2.2.2 d a))
  intro i
  rw [hconnected]
  exact ⟨.inl, fun hi => hi.resolve_right (hne.2.1 i)⟩

/-- The host sends a ping or a pong. -/
theorem Facts.host_sendTo (huuid : Function.Injective uuid) (h : Facts uuid impl cfg w) {id : ℕ}
    {json : Text} (hstep : w.hostStep uuid (.sendTo id json) = some w')
    (hjson : ∃ ts, json = (WireMsg.ping ts).toJson ∨ json = (WireMsg.pong ts).toJson) :
    Facts uuid impl cfg w' := by
  obtain ⟨hstepped, hconnected, hdown, hup⟩ := hostStepped_of_hostStep w.connected
    w.down w.up hstep
  refine h.host huuid hstepped hdown (fun i => by rw [hup]; exact fun _ ht => ht)
    (fun _ hne => by cases hne) (fun i => ?_) (fun i hi => by cases hi) ?_
    (fun d a ha => by cases ha)
  · rw [hconnected]
    exact ⟨.inl, fun hi => hi.resolve_right fun hne => by cases hne⟩
  · rintro id' json' heq
    obtain ⟨rfl, rfl⟩ : id = id' ∧ json = json' := by simpa using heq
    refine ⟨.inr (.inr hjson), ?_⟩
    obtain ⟨ts, rfl | rfl⟩ := hjson
    · exact frameId_ping ts
    · exact frameId_pong ts

/-- The host accepts a socket. -/
theorem Facts.accept (huuid : Function.Injective uuid) (h : Facts uuid impl cfg w) {i : ℕ}
    (hi : i < w.relay.nextSocket) (hnew : w.connected i = false)
    (hstep : ({ w with connected := Function.update w.connected i true } : World).hostStep uuid
      (.register i) = some w') : Facts uuid impl cfg w' := by
  obtain ⟨hstepped, hconnected, hdown, hup⟩ := hostStepped_of_hostStep _ w.down w.up hstep
  refine h.host huuid hstepped hdown (fun i => by rw [hup]; exact fun _ ht => ht)
    (fun _ hne => by cases hne) (fun j => ?_) ?_ (fun _ _ hj => by cases hj)
    (fun _ _ ha => by cases ha)
  · rw [hconnected]
    by_cases hj : j = i
    · subst hj
      simp
    · simp [hj, Ne.symm hj]
  · intro j hj
    cases hj
    exact ⟨hnew, hi⟩

/-- The host receives an ack. -/
theorem Facts.receive_ack (huuid : Function.Injective uuid) (h : Facts uuid impl cfg w)
    {i d : ℕ} {frame : Text} {frames : List Text} {a : AckPayload}
    (hup : w.up i = frame :: frames) (hack : WireMsg.fromJson frame = some (.ack a))
    (hstep : ({ w with up := Function.update w.up i frames } : World).hostStep uuid
      (.takeAck d a) = some w') : Facts uuid impl cfg w' := by
  obtain ⟨hstepped, hconnected, hdown, hup'⟩ := hostStepped_of_hostStep
    w.connected w.down _ hstep
  refine h.host huuid hstepped hdown (fun j => ?_) (fun _ hne => by cases hne) (fun j => ?_)
    (fun _ hi => by cases hi) (fun _ _ hj => by cases hj) ?_
  · rw [hup']
    exact (sublist_update hup j).subset
  · rw [hconnected]
    exact ⟨.inl, fun hi => hi.resolve_right fun hne => by cases hne⟩
  · intro d' a' heq
    cases heq
    obtain ⟨f, hf, rfl⟩ := h.traced.frames_up i frame (hup ▸ List.mem_cons_self)
    exact ⟨f, hf, hack⟩

/-- Cutting a socket takes everything off it. -/
theorem sublist_cut (q : ℕ → List Text) (i j : ℕ) : (Function.update q i [] j).Sublist (q j) := by
  by_cases hj : j = i
  · subst hj
    rw [Function.update_self]
    exact List.nil_sublist _
  · rw [Function.update_of_ne hj]

/-- Every step of the world keeps the facts. -/
theorem facts_step (huuid : Function.Injective uuid) (h : Facts uuid impl cfg w) {ev : WorldEvent}
    (hstep : w.step uuid impl cfg ev = some w') (hbound : w'.relay.requests < 2 ^ 31) :
    Facts uuid impl cfg w' := by
  have hrefl (j : ℕ) : (w.down j).Sublist (w.down j) := List.Sublist.refl _
  cases ev with
  | host e =>
    simp only [World.step] at hstep
    split_ifs at hstep with he
    exact h.host_plain huuid hstep he
  | ping id ts => exact h.host_sendTo huuid hstep ⟨ts, .inl rfl⟩
  | pong id ts => exact h.host_sendTo huuid hstep ⟨ts, .inr rfl⟩
  | accept i =>
    simp only [World.step] at hstep
    split_ifs at hstep with hi
    exact h.accept huuid hi.1 hi.2 hstep
  | send i =>
    simp only [World.step] at hstep
    split at hstep
    · cases hstep
    · next frame frames hqueue =>
      obtain ⟨hstepped, hconnected, hdown, hup⟩ := hostStepped_of_hostStep
        w.connected _ w.up hstep
      exact h.send hqueue hstepped hdown hup hconnected
  | receive i d =>
    simp only [World.step] at hstep
    split at hstep
    · cases hstep
    · next frame frames hup =>
      split at hstep
      · next a hack => exact h.receive_ack huuid hup hack hstep
      · rw [Option.some.injEq] at hstep
        subst hstep
        exact h.bus_of_invocations ⟨rfl, rfl, rfl, rfl, hrefl,
          fun j => (sublist_update hup j).subset, fun _ ht => ht, fun _ hr => hr⟩
          (List.Sublist.refl _) rfl fun _ ht => .inl ht
  | cut i =>
    simp only [World.step, Option.some.injEq] at hstep
    subst hstep
    exact h.bus_of_invocations ⟨rfl, rfl, rfl, rfl, sublist_cut w.down i,
      fun j => (sublist_cut w.up i j).subset, fun _ ht => ht, fun _ hr => hr⟩
      (List.Sublist.refl _) rfl fun _ ht => .inl ht
  | relay e =>
    simp only [World.step] at hstep
    split_ifs at hstep with he
    exact h.local (by simpa using he) hstep hbound
  | deliver i now onThrows callThrows =>
    simp only [World.step] at hstep
    split at hstep
    · cases hstep
    · next frame frames hold =>
      split_ifs at hstep with hws
      exact h.deliver huuid hold hws hstep hbound
  | handle k result =>
    simp only [World.step] at hstep
    obtain ⟨raw, hraw, rfl⟩ := Option.map_eq_some_iff.mp hstep
    exact h.handle hraw
  | loseCall k =>
    simp only [World.step, Option.some.injEq] at hstep
    subst hstep
    exact h.bus_of_invocations ⟨rfl, rfl, rfl, rfl, hrefl, fun _ _ ht => ht,
      List.eraseIdx_subset, fun _ hr => hr⟩ (List.eraseIdx_sublist _ _) rfl fun _ ht => .inl ht
  | respond k =>
    simp only [World.step] at hstep
    obtain ⟨raw, hraw, hstep⟩ := Option.bind_eq_some_iff.mp hstep
    exact h.respond hraw hstep hbound
  | loseResponse k =>
    simp only [World.step, Option.some.injEq] at hstep
    subst hstep
    exact h.bus_of_invocations ⟨rfl, rfl, rfl, rfl, hrefl, fun _ _ ht => ht,
      fun _ ht => ht, fun _ hr => hr⟩ (List.Sublist.refl _) rfl
      fun _ ht => .inl (List.mem_of_mem_eraseIdx ht)
  | emit name data =>
    simp only [World.step, Option.some.injEq] at hstep
    subst hstep
    refine h.bus_of_invocations ⟨rfl, rfl, rfl, rfl, hrefl, fun _ _ ht => ht,
      fun _ ht => ht, fun _ hr => hr⟩ (List.Sublist.refl _) rfl fun t ht => ?_
    rcases List.mem_append.mp ht with ht | ht
    · exact .inl ht
    · exact .inr (.inr ⟨_, List.mem_singleton.mp ht⟩)

end World

end InfinityBridge.EndToEnd
