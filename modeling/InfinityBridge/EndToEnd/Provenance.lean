import InfinityBridge.EndToEnd.World

/-!
# Where the texts come from

Every text on its way between the three programs can be traced to what caused it: a
frame to a step of the host, a CommBus call to a command the relay has accepted or to an
event, a response to a run of the handler, an ack to a frame of the relay.
-/

namespace InfinityBridge.EndToEnd

open Relay Wasm

namespace World

variable {uuid : ℕ → String} {impl : Impl} {cfg : ResolvedConfig} {w w' : World}

/-- The command of call `c`. -/
def command (uuid : ℕ → String) (w : World) (c : ℕ) : CmdPayload :=
  ⟨uuid c, (w.host.calls c).name, (w.host.calls c).payload⟩

/-- Call `c` has come to the delivery of its command. -/
def Issued (w : World) (c : ℕ) : Prop := ¬w.host.BeforeDelivery c

/-- A frame of the host. -/
def HostFrame (uuid : ℕ → String) (w : World) (t : Text) : Prop :=
  (∃ c, w.Issued c ∧ t = (WireMsg.cmd (w.command uuid c)).toJson) ∨
    (∃ e, t = (WireMsg.event e).toJson) ∨
    ∃ ts, t = (WireMsg.ping ts).toJson ∨ t = (WireMsg.pong ts).toJson

/-- A call of the relay on the CommBus. -/
def RelayCall (uuid : ℕ → String) (w : World) (t : Text) : Prop :=
  (∃ rid c, w.Issued c ∧ (rid, some (.str (uuid c))) ∈ w.relay.accepted ∧
      t = .doc (envelope rid (WireMsg.cmd (w.command uuid c)).toValue)) ∨
    ∃ rid e, t = .doc (envelope rid (WireMsg.event e).toValue)

/-- A run of the handler for a command. -/
def HandlerRun (uuid : ℕ → String) (w : World) (r : Invocation) : Prop :=
  ∃ c, w.Issued c ∧ (r.requestId, some (.str (uuid c))) ∈ w.relay.accepted ∧
    r.raw = .doc (envelope r.requestId (WireMsg.cmd (w.command uuid c)).toValue) ∧
    r.name = (w.host.calls c).name ∧ r.payload = (w.host.calls c).payload

/-- A text of the bridge on the CommBus. -/
def BridgeText (w : World) (t : Text) : Prop :=
  (∃ r ∈ w.invocations, t = .doc (CommBusResponse.ofResult r.requestId r.result).toValue) ∨
    ∃ e, t = (WireMsg.event e).toJson

/-- Nothing that texts are traced to is undone. -/
structure Extends (w w' : World) : Prop where
  issued : ∀ c, w.Issued c → w'.Issued c ∧
    (w'.host.calls c).name = (w.host.calls c).name ∧
    (w'.host.calls c).payload = (w.host.calls c).payload
  accepted : w.relay.accepted ⊆ w'.relay.accepted
  invocations : w.invocations ⊆ w'.invocations
  sent : w.relay.sent ⊆ w'.relay.sent

/-- What a call asked for does not change later on. -/
theorem Extends.command (h : Extends w w') {c : ℕ} (hc : w.Issued c) :
    w'.command uuid c = w.command uuid c := by
  obtain ⟨_, hname, hpayload⟩ := h.issued c hc
  rw [World.command, World.command, hname, hpayload]

/-- A frame of the host remains one. -/
theorem HostFrame.mono {t : Text} (h : HostFrame uuid w t) (hext : Extends w w') :
    HostFrame uuid w' t := by
  rcases h with ⟨c, hc, rfl⟩ | h
  · exact .inl ⟨c, (hext.issued c hc).1, by rw [hext.command hc]⟩
  · exact .inr h

/-- A call of the relay remains one. -/
theorem RelayCall.mono {t : Text} (h : RelayCall uuid w t) (hext : Extends w w') :
    RelayCall uuid w' t := by
  rcases h with ⟨rid, c, hc, hacc, rfl⟩ | h
  · exact .inl ⟨rid, c, (hext.issued c hc).1, hext.accepted hacc, by rw [hext.command hc]⟩
  · exact .inr h

/-- A run of the handler remains one for the same command. -/
theorem HandlerRun.mono {r : Invocation} (h : HandlerRun uuid w r) (hext : Extends w w') :
    HandlerRun uuid w' r := by
  obtain ⟨c, hc, hacc, hraw, hname, hpayload⟩ := h
  obtain ⟨hissued, hname', hpayload'⟩ := hext.issued c hc
  exact ⟨c, hissued, hext.accepted hacc, by rw [hext.command hc, hraw], hname.trans hname'.symm,
    hpayload.trans hpayload'.symm⟩

/-- A text of the bridge remains one. -/
theorem BridgeText.mono {t : Text} (h : BridgeText w t) (hext : Extends w w') :
    BridgeText w' t := by
  rcases h with ⟨r, hr, rfl⟩ | h
  · exact .inl ⟨r, hext.invocations hr, rfl⟩
  · exact .inr h

/-- The frames between the host and the relay on socket `i`. -/
def inbound (w : World) (i : ℕ) : List Text := (w.host.hub.channels i).queue ++ w.down i

/-- Every text in the world can be traced. -/
structure Traced (uuid : ℕ → String) (w : World) : Prop where
  frames : ∀ i, ∀ t ∈ w.inbound i, HostFrame uuid w t
  calls : ∀ t ∈ w.toWasm, RelayCall uuid w t
  runs : ∀ r ∈ w.invocations, HandlerRun uuid w r
  texts : ∀ t ∈ w.fromWasm ++ w.relay.heard, BridgeText w t
  accepted : ∀ rid id, (rid, id) ∈ w.relay.accepted → ∃ c, id = some (.str (uuid c))
  frames_up : ∀ i, ∀ t ∈ w.up i, ∃ f ∈ w.relay.sent, f.frame = t
  acks : ∀ d a, .takeAck d a ∈ w.history →
    ∃ f ∈ w.relay.sent, WireMsg.fromJson f.frame = some (.ack a)
  ran : Transition.run (Host.Calls.step uuid) Host.Calls.init w.history = some w.host

/-- At first there are no texts. -/
theorem traced_init : Traced uuid (init impl cfg) where
  frames _ _ h := by cases h
  calls _ h := by cases h
  runs _ h := by cases h
  texts _ h := by cases h
  accepted _ _ h := by cases h
  frames_up _ _ h := by cases h
  acks _ _ h := by cases h
  ran := rfl

/-- The world after a step of the host with event `e`, up to the sockets. -/
structure HostStepped (uuid : ℕ → String) (e : Host.CallEvent) (w w' : World) : Prop where
  host : Host.Calls.step uuid w.host e = some w'.host
  history : w'.history = w.history ++ [e]
  relay : w'.relay = w.relay
  toWasm : w'.toWasm = w.toWasm
  fromWasm : w'.fromWasm = w.fromWasm
  invocations : w'.invocations = w.invocations

/-- A step of the host only adds to what has happened. -/
theorem HostStepped.extends {e : Host.CallEvent} (h : HostStepped uuid e w w') :
    Extends w w' where
  issued _ hc := Host.Calls.delivered_step h.host (.inl hc)
  accepted := by rw [h.relay]; exact fun _ hmem => hmem
  invocations := by rw [h.invocations]; exact fun _ hmem => hmem
  sent := by rw [h.relay]; exact fun _ hmem => hmem

/-- What the host sends is a frame of the host, apart from what it sends to one client. -/
theorem HostStepped.hostFrame {e : Host.CallEvent} (h : HostStepped uuid e w w') {t : Text}
    (hsends : Host.Calls.sends uuid w.host e = some t)
    (he : ∀ id json, e = .sendTo id json → HostFrame uuid w' json) : HostFrame uuid w' t := by
  cases e with
  | deliver c =>
    obtain ⟨hissued, hname, hpayload⟩ := Host.Calls.delivered_step h.host (.inr rfl)
    cases hsends
    refine .inl ⟨c, hissued, ?_⟩
    rw [World.command, hname, hpayload]
    rfl
  | emit name data =>
    cases hsends
    exact .inr (.inl ⟨_, rfl⟩)
  | sendTo id json =>
    simp only [Host.Calls.sends, Option.some.injEq] at hsends
    exact hsends ▸ he id json rfl
  | _ => cases hsends

/-- A step of the host keeps the texts traced. -/
theorem Traced.host {e : Host.CallEvent} (h : Traced uuid w) (hstepped : HostStepped uuid e w w')
    (hframes : ∀ i, ∀ t ∈ w'.inbound i, t ∈ w.inbound i ∨ HostFrame uuid w' t)
    (hup : ∀ i, w'.up i ⊆ w.up i)
    (hacks : ∀ d a, e = .takeAck d a →
      ∃ f ∈ w.relay.sent, WireMsg.fromJson f.frame = some (.ack a)) : Traced uuid w' := by
  have hext := hstepped.extends
  constructor
  case frames =>
    intro i t ht
    exact (hframes i t ht).elim (fun ht => (h.frames i t ht).mono hext) id
  case calls => rw [hstepped.toWasm]; exact fun t ht => (h.calls t ht).mono hext
  case runs => rw [hstepped.invocations]; exact fun r hr => (h.runs r hr).mono hext
  case texts =>
    rw [hstepped.fromWasm, hstepped.relay]
    exact fun t ht => (h.texts t ht).mono hext
  case accepted => rw [hstepped.relay]; exact h.accepted
  case frames_up => rw [hstepped.relay]; exact fun i t ht => h.frames_up i t (hup i ht)
  case acks =>
    rw [hstepped.relay, hstepped.history]
    intro d a hmem
    rcases List.mem_append.mp hmem with hmem | hmem
    · exact h.acks d a hmem
    · exact hacks d a (List.mem_singleton.mp hmem).symm
  case ran =>
    rw [hstepped.history, Transition.run_concat_eq_some]
    exact ⟨w.host, h.ran, hstepped.host⟩

/-- The world after a callback of the relay that accepts the commands `new`, hears the
texts `heard` and makes the CommBus calls `calls`. -/
structure RelayStepped (new : List (String × Option Value)) (heard calls : List Text)
    (w w' : World) : Prop where
  calm : State.Calm { w.relay with
    accepted := w.relay.accepted ++ new
    heard := w.relay.heard ++ heard
    nextCall := w'.relay.nextCall } w'.relay
  host : w'.host = w.host
  history : w'.history = w.history
  connected : w'.connected = w.connected
  invocations : w'.invocations = w.invocations
  down : ∀ i, (w'.down i).Sublist (w.down i)
  toWasm : w'.toWasm = w.toWasm ++ calls
  up : ∀ i, ∀ t ∈ w'.up i, t ∈ w.up i ∨ ∃ f ∈ w'.relay.sent, f.frame = t

/-- A callback of the relay only adds to what has happened. -/
theorem RelayStepped.extends {new : List (String × Option Value)} {heard calls : List Text}
    (h : RelayStepped new heard calls w w') : Extends w w' where
  issued c hc := by rw [Issued, h.host]; exact ⟨hc, rfl, rfl⟩
  accepted := by rw [h.calm.accepted]; exact List.subset_append_left _ _
  invocations := by rw [h.invocations]; exact fun _ hmem => hmem
  sent := h.calm.sent.subset

/-- A callback of the relay keeps the texts traced. -/
theorem Traced.relay {new : List (String × Option Value)} {heard calls : List Text}
    (h : Traced uuid w) (hstepped : RelayStepped new heard calls w w')
    (hnew : ∀ rid id, (rid, id) ∈ new → ∃ c, id = some (.str (uuid c)))
    (hcalls : ∀ t ∈ calls, RelayCall uuid w' t)
    (hfrom : ∀ t ∈ w'.fromWasm ++ heard, t ∈ w.fromWasm) : Traced uuid w' := by
  have hext := hstepped.extends
  constructor
  case frames =>
    intro i t ht
    rw [inbound, hstepped.host] at ht
    refine (h.frames i t ?_).mono hext
    rcases List.mem_append.mp ht with ht | ht
    · exact List.mem_append_left _ ht
    · exact List.mem_append_right _ ((hstepped.down i).subset ht)
  case calls =>
    rw [hstepped.toWasm]
    intro t ht
    exact (List.mem_append.mp ht).elim (fun ht => (h.calls t ht).mono hext) (hcalls t)
  case runs => rw [hstepped.invocations]; exact fun r hr => (h.runs r hr).mono hext
  case texts =>
    rw [hstepped.calm.heard]
    intro t ht
    refine (h.texts t ?_).mono hext
    simp only [List.mem_append] at ht hfrom ⊢
    have := hfrom t
    tauto
  case accepted =>
    rw [hstepped.calm.accepted]
    intro rid id hmem
    exact (List.mem_append.mp hmem).elim (h.accepted rid id) (hnew rid id)
  case frames_up =>
    intro i t ht
    rcases hstepped.up i t ht with ht | ht
    · obtain ⟨f, hf, hframe⟩ := h.frames_up i t ht
      exact ⟨f, hext.sent hf, hframe⟩
    · exact ht
  case acks =>
    rw [hstepped.history]
    intro d a hmem
    obtain ⟨f, hf, hread⟩ := h.acks d a hmem
    exact ⟨f, hext.sent hf, hread⟩
  case ran => rw [hstepped.history, hstepped.host]; exact h.ran

/-- The world after something happened on the sockets or the CommBus only. -/
structure BusStepped (w w' : World) : Prop where
  host : w'.host = w.host
  relay : w'.relay = w.relay
  history : w'.history = w.history
  connected : w'.connected = w.connected
  down : ∀ i, (w'.down i).Sublist (w.down i)
  up : ∀ i, w'.up i ⊆ w.up i
  toWasm : w'.toWasm ⊆ w.toWasm
  invocations : w.invocations ⊆ w'.invocations

/-- A loss on the CommBus takes nothing from what has happened. -/
theorem BusStepped.extends (h : BusStepped w w') : Extends w w' where
  issued c hc := by rw [Issued, h.host]; exact ⟨hc, rfl, rfl⟩
  accepted := by rw [h.relay]; exact fun _ hmem => hmem
  invocations := h.invocations
  sent := by rw [h.relay]; exact fun _ hmem => hmem

/-- What happens on the sockets and the CommBus keeps the texts traced. -/
theorem Traced.bus (h : Traced uuid w) (hstepped : BusStepped w w')
    (hruns : ∀ r ∈ w'.invocations, r ∈ w.invocations ∨ HandlerRun uuid w' r)
    (htexts : ∀ t ∈ w'.fromWasm, t ∈ w.fromWasm ∨ BridgeText w' t) : Traced uuid w' := by
  have hext := hstepped.extends
  constructor
  case frames =>
    intro i t ht
    rw [inbound, hstepped.host] at ht
    refine (h.frames i t ?_).mono hext
    rcases List.mem_append.mp ht with ht | ht
    · exact List.mem_append_left _ ht
    · exact List.mem_append_right _ ((hstepped.down i).subset ht)
  case calls => exact fun t ht => (h.calls t (hstepped.toWasm ht)).mono hext
  case runs => exact fun r hr => (hruns r hr).elim (fun hr => (h.runs r hr).mono hext) id
  case texts =>
    rw [hstepped.relay]
    intro t ht
    rcases List.mem_append.mp ht with ht | ht
    · rcases htexts t ht with ht | ht
      · exact (h.texts t (List.mem_append_left _ ht)).mono hext
      · exact ht
    · exact (h.texts t (List.mem_append_right _ ht)).mono hext
  case accepted => rw [hstepped.relay]; exact h.accepted
  case frames_up => rw [hstepped.relay]; exact fun i t ht => h.frames_up i t (hstepped.up i ht)
  case acks => rw [hstepped.relay, hstepped.history]; exact h.acks
  case ran => rw [hstepped.history, hstepped.host]; exact h.ran

/-- The handler runs for a command, with exactly its name and payload, and its result is
put on the CommBus. Anything else on the CommBus leaves the world as it is. -/
theorem RelayCall.handle {raw : Text} (h : RelayCall uuid w raw) (v : World)
    (result : Except String Value) :
    v.handle raw result = v ∨ ∃ rid c, w.Issued c ∧ (rid, some (.str (uuid c))) ∈ w.relay.accepted ∧
      raw = .doc (envelope rid (WireMsg.cmd (w.command uuid c)).toValue) ∧
      v.handle raw result = { v with
        invocations := v.invocations ++
          [⟨raw, rid, (w.host.calls c).name, (w.host.calls c).payload, result⟩]
        fromWasm := v.fromWasm ++ [.doc (CommBusResponse.ofResult rid result).toValue] } := by
  rcases h with ⟨rid, c, hc, hacc, rfl⟩ | ⟨rid, e, rfl⟩
  · by_cases hlimit : (envelope rid (WireMsg.cmd (w.command uuid c)).toValue).depth < recursionLimit
    · refine .inr ⟨rid, c, hc, hacc, rfl, ?_⟩
      simp only [World.handle, dispatch_exact, if_pos hlimit, WireMsg.fromValue_toValue,
        WireMsg.canonical]
      rfl
    · refine .inl ?_
      simp only [World.handle, dispatch_exact, if_neg hlimit]
  · refine .inl ?_
    simp only [World.handle, dispatch_exact, WireMsg.fromValue_toValue, WireMsg.canonical]
    split_ifs <;> rfl

end World

end InfinityBridge.EndToEnd
