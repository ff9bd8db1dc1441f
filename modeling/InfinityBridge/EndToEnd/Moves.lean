import InfinityBridge.EndToEnd.Facts

/-!
# What a step of the world does

Every step of the world is a step of the host, a callback of the relay, a run of the
bridge, or something that happens to texts on their way. Which texts it adds to a queue
and which it takes off is said here once.
-/

namespace InfinityBridge.EndToEnd.World

open Relay Wasm

variable {uuid : ℕ → String} {impl : Impl} {cfg : ResolvedConfig} {w w' : World}

/-- The frames on their way to the relay on socket `i`, the next one first. -/
def ahead (w : World) (i : ℕ) : List Text := w.down i ++ (w.host.hub.channels i).queue

/-- They are the frames of the channel and the socket. -/
theorem inbound_perm_ahead (w : World) (i : ℕ) : (w.inbound i).Perm (w.ahead i) :=
  List.perm_append_comm

/-- Nothing is on its way if nothing is on the channel and the socket. -/
theorem ahead_eq_nil {i : ℕ} : w.ahead i = [] ↔ w.inbound i = [] := by
  rw [ahead, inbound, List.append_eq_nil_iff, List.append_eq_nil_iff, and_comm]

/-- When texts are at most taken off the sockets, nothing is added to what is on its way. -/
theorem ahead_sublist (hhost : w'.host = w.host) (hdown : ∀ i, (w'.down i).Sublist (w.down i))
    (i : ℕ) : (w'.ahead i).Sublist (w.ahead i) := by
  rw [ahead, ahead, hhost]
  exact (hdown i).append (List.Sublist.refl _)

/-- A callback of the relay with event `e`, up to what it takes off a socket or off the
CommBus. -/
structure RelayMoved (impl : Impl) (cfg : ResolvedConfig) (e : RelayEvent) (w w' : World) :
    Prop where
  relay : State.step impl cfg w.relay e = some w'.relay
  host : w'.host = w.host
  history : w'.history = w.history
  invocations : w'.invocations = w.invocations
  connected : w'.connected = w.connected
  cut : w'.cut = w.cut
  toWasm : w'.toWasm = w.toWasm ++ State.newCalls w.relay w'.relay
  up : ∀ i, w'.up i = w.up i ++ if w.cut i then [] else uploads w.relay w'.relay i

/-- An event that is neither one of the host nor a loss on the CommBus. -/
def isApart : WorldEvent → Bool
  | .relay _ | .deliver .. | .respond _ | .handle .. | .emit .. | .cut _ => true
  | _ => false

/-- Nothing comes on the sockets to the host, and only the host takes something off them. -/
def Heard (w w' : World) : WorldEvent → Prop
  | .receive i _ => ∃ frame frames, w.up i = frame :: frames ∧ w'.up = Function.update w.up i frames
  | _ => w'.up = w.up

/-- A queue after it may have lost an element at such a place. -/
def Lost (P : ℕ → Prop) (ts ts' : List Text) : Prop := ts' = ts ∨ ∃ k, P k ∧ ts' = ts.eraseIdx k

/-- A queue loses elements only. -/
theorem Lost.sublist {P : ℕ → Prop} {ts ts' : List Text} (h : Lost P ts ts') :
    ts'.Sublist ts := by
  rcases h with rfl | ⟨k, _, rfl⟩
  · exact List.Sublist.refl _
  · exact List.eraseIdx_sublist _ _

/-- What a step of the world is. -/
inductive Moves (uuid : ℕ → String) (impl : Impl) (cfg : ResolvedConfig) (w w' : World) :
    WorldEvent → Prop where
  | host (ev : WorldEvent) (e : Host.CallEvent) (hev : isInternal e = true → ev = .host e)
    (hapart : isApart ev = false)
    (hsendTo : ∀ id json, e = .sendTo id json →
      ∃ ts, json = (WireMsg.ping ts).toJson ∧ ev = .ping id ts ∨
        json = (WireMsg.pong ts).toJson ∧ ev = .pong id ts)
    (hregister : ∀ i, e = .register i → w.connected i = false ∧ i < w.relay.nextSocket)
    (hconnected : ∀ i, w'.connected i = true ↔ w.connected i = true ∨ e = .register i)
    (hstepped : HostStepped uuid e w w')
    (hahead : ∀ i, ∃ n ≤ w.host.hub.holders i, (w'.ahead i).Sublist
      (w.ahead i ++ (Host.Calls.sends uuid w.host e).elim [] (List.replicate n)))
    (hkept : ∀ i, w.cut i = false → ev ≠ .host (.writerEnds i) →
      (w.ahead i).Sublist (w'.ahead i))
    (hcut : w'.cut = w.cut) (hup : Heard w w' ev) : Moves uuid impl cfg w w' ev
  | callback (e : RelayEvent) (he : State.isArrival e = false)
    (hmoved : RelayMoved impl cfg e w w') (hdown : w'.down = w.down)
    (hfrom : w'.fromWasm = w.fromWasm) : Moves uuid impl cfg w w' (.relay e)
  | deliver (i : ℕ) (frame : Text) (frames : List Text) (now : TimeValue)
    (onThrows callThrows : Bool) (hws : w.relay.ws = some i) (hfirst : w.down i = frame :: frames)
    (hmoved : RelayMoved impl cfg (.socketMessage i (some frame) now onThrows callThrows) w w')
    (hdown : w'.down = Function.update w.down i frames) (hfrom : w'.fromWasm = w.fromWasm) :
    Moves uuid impl cfg w w' (.deliver i now onThrows callThrows)
  | respond (k : ℕ) (raw : Text) (hraw : w.fromWasm[k]? = some raw)
    (hfrom : w'.fromWasm = w.fromWasm.eraseIdx k)
    (hmoved : RelayMoved impl cfg (.wasmMessage raw) w w') (hdown : w'.down = w.down) :
    Moves uuid impl cfg w w' (.respond k)
  | handle (k : ℕ) (result : Except String Value) (raw : Text)
    (hraw : w.toWasm[k]? = some raw)
    (hw' : w' = ({ w with toWasm := w.toWasm.eraseIdx k } : World).handle raw result) :
    Moves uuid impl cfg w w' (.handle k result)
  | emit (name : String) (data : Value)
    (hw' : w' = { w with fromWasm := w.fromWasm ++ [(WireMsg.event ⟨name, data⟩).toJson] }) :
    Moves uuid impl cfg w w' (.emit name data)
  | cut (i : ℕ)
    (hw' : w' = { w with
      cut := Function.update w.cut i true
      down := Function.update w.down i []
      up := Function.update w.up i [] }) : Moves uuid impl cfg w w' (.cut i)
  | bus (ev : WorldEvent) (hapart : isApart ev = false) (hstepped : BusStepped w w')
    (hcalls : Lost (ev = .loseCall ·) w.toWasm w'.toWasm)
    (hfrom : Lost (ev = .loseResponse ·) w.fromWasm w'.fromWasm)
    (hruns : w'.invocations = w.invocations) (hdown : w'.down = w.down) (hcut : w'.cut = w.cut)
    (hup : Heard w w' ev) : Moves uuid impl cfg w w' ev

/-- A socket takes no frame but those that are sent on it. -/
theorem RelayMoved.up_sublist {e : RelayEvent} (h : RelayMoved impl cfg e w w') (i : ℕ) :
    (w'.up i).Sublist (w.up i ++ uploads w.relay w'.relay i) := by
  rw [h.up]
  split_ifs
  · exact (List.nil_sublist _).append_left _
  · exact List.Sublist.refl _

/-- A callback as the world runs it. -/
theorem relayMoved_of_relayStep {e : RelayEvent} (down : ℕ → List Text) (fromWasm : List Text)
    (hstep : ({ w with down, fromWasm } : World).relayStep impl cfg e = some w') :
    RelayMoved impl cfg e w w' ∧ w'.down = down ∧ w'.fromWasm = fromWasm := by
  obtain ⟨t, ht, rfl⟩ := Option.map_eq_some_iff.mp hstep
  exact ⟨⟨ht, rfl, rfl, rfl, rfl, rfl, rfl, fun _ => rfl⟩, rfl, rfl⟩

/-- Only a registration connects a socket. -/
theorem connected_plain {e : Host.CallEvent} (he : ∀ i, e ≠ .register i) (i : ℕ) :
    w.connected i = true ↔ w.connected i = true ∨ e = .register i :=
  ⟨.inl, fun h => h.resolve_right (he i)⟩

/-- The host cuts no socket. -/
theorem cut_of_hostStep {v : World} {e : Host.CallEvent} (hstep : v.hostStep uuid e = some w')
    (hv : v.cut = w.cut) : w'.cut = w.cut := by
  obtain ⟨_, _, rfl⟩ := Option.map_eq_some_iff.mp hstep
  exact hv

/-- A step of the host that puts nothing on a socket. -/
theorem moves_host {ev : WorldEvent} {e : Host.CallEvent} (connected : ℕ → Bool)
    (up : ℕ → List Text) (hstep : ({ w with connected, up } : World).hostStep uuid e = some w')
    (hev : isInternal e = true → ev = .host e) (hapart : isApart ev = false)
    (hsendTo : ∀ id json, e = .sendTo id json →
      ∃ ts, json = (WireMsg.ping ts).toJson ∧ ev = .ping id ts ∨
        json = (WireMsg.pong ts).toJson ∧ ev = .pong id ts)
    (hregister : ∀ i, e = .register i → w.connected i = false ∧ i < w.relay.nextSocket)
    (hconnected : ∀ i, connected i = true ↔ w.connected i = true ∨ e = .register i)
    (he : ∀ i, e ≠ .writerSends i) (hup : w'.up = up → Heard w w' ev) :
    Moves uuid impl cfg w w' ev := by
  obtain ⟨hstepped, hconnected', hdown, hup'⟩ := hostStepped_of_hostStep connected w.down up hstep
  have hqueued (i : ℕ) (hends : e ≠ .writerEnds i) : ∃ n ≤ w.host.hub.holders i, w'.ahead i =
      w.ahead i ++ (Host.Calls.sends uuid w.host e).elim [] (List.replicate n) := by
    obtain ⟨n, hn, hqueue⟩ := Host.Calls.queue_step hstepped.host i (he i) hends
    exact ⟨n, hn, by rw [ahead, ahead, hdown, hqueue, List.append_assoc]⟩
  refine .host ev e hev hapart hsendTo hregister (hconnected' ▸ hconnected) hstepped
    (fun i => ?_) (fun i _ hnot => ?_) (cut_of_hostStep hstep rfl) (hup hup')
  · by_cases hends : e = .writerEnds i
    · -- what is queued for the writer is dropped
      subst hends
      refine ⟨0, Nat.zero_le _, ?_⟩
      rw [ahead, ahead, hdown, Host.Calls.queue_writerEnds hstepped.host, List.append_assoc]
      exact (List.nil_sublist _).append_left _
    · obtain ⟨n, hn, h⟩ := hqueued i hends
      exact ⟨n, hn, by rw [h]⟩
  · have hends : e ≠ .writerEnds i := by
      rintro rfl
      exact hnot (hev rfl)
    obtain ⟨n, _, h⟩ := hqueued i hends
    rw [h]
    exact List.sublist_append_left _ _

/-- Taking a text out of the middle of a queue. -/
theorem perm_eraseIdx {ts : List Text} {k : ℕ} {t : Text} (ht : ts[k]? = some t) :
    (t :: ts.eraseIdx k).Perm ts := by
  obtain ⟨hk, rfl⟩ := List.getElem?_eq_some_iff.mp ht
  exact List.getElem_cons_eraseIdx_perm hk

/-- What the bridge does with a text changes nothing but what it puts on the CommBus. -/
theorem handle_same (w : World) (raw : Text) (result : Except String Value) :
    (w.handle raw result).host = w.host ∧ (w.handle raw result).relay = w.relay ∧
    (w.handle raw result).connected = w.connected ∧ (w.handle raw result).down = w.down ∧
    (w.handle raw result).up = w.up ∧ (w.handle raw result).toWasm = w.toWasm := by
  unfold World.handle
  split <;> exact ⟨rfl, rfl, rfl, rfl, rfl, rfl⟩

/-- The bridge cuts no socket. -/
theorem handle_cut (w : World) (raw : Text) (result : Except String Value) :
    (w.handle raw result).cut = w.cut := by
  unfold World.handle
  split <;> rfl

/-- What the bridge puts on the CommBus are responses. -/
theorem handle_fromWasm (w : World) (raw : Text) (result : Except String Value) :
    ∃ ts, (w.handle raw result).fromWasm = w.fromWasm ++ ts ∧
      ∀ t ∈ ts, ∃ rid r, t = .doc (CommBusResponse.ofResult rid r).toValue := by
  unfold World.handle
  split
  · exact ⟨_, rfl, fun t ht => ⟨_, _, List.mem_singleton.mp ht⟩⟩
  · exact ⟨_, rfl, fun t ht => ⟨_, _, List.mem_singleton.mp ht⟩⟩
  · exact ⟨[], by simp, by simp⟩
  · exact ⟨[], by simp, by simp⟩

/-- A step of the host that touches no socket. -/
theorem moves_internal {e : Host.CallEvent} (hstep : w.step uuid impl cfg (.host e) = some w') :
    Moves uuid impl cfg w w' (.host e) := by
  simp only [World.step] at hstep
  split_ifs at hstep with he
  have hne : (∀ id json, e ≠ .sendTo id json) ∧ (∀ i, e ≠ .register i) ∧
      ∀ i, e ≠ .writerSends i := by
    cases e <;> simp_all [isInternal]
  exact moves_host w.connected w.up hstep (fun _ => rfl) rfl
    (fun id json h => absurd h (hne.1 id json)) (fun i h => absurd h (hne.2.1 i))
    (connected_plain hne.2.1) hne.2.2 fun h => h

/-- A ping or a pong for one client. -/
theorem moves_sendTo {ev : WorldEvent} {id : ℕ} {json : Text}
    (hstep : w.hostStep uuid (.sendTo id json) = some w') (hapart : isApart ev = false)
    (hup : w'.up = w.up → Heard w w' ev)
    (hev : ∃ ts, json = (WireMsg.ping ts).toJson ∧ ev = .ping id ts ∨
      json = (WireMsg.pong ts).toJson ∧ ev = .pong id ts) : Moves uuid impl cfg w w' ev := by
  refine moves_host w.connected w.up hstep (fun h => by cases h) hapart ?_ (fun _ h => by cases h)
    (connected_plain fun _ h => by cases h) (fun _ h => by cases h) hup
  rintro id' json' heq
  cases heq
  exact hev

/-- The host accepts a socket of the relay, which is no connection yet. -/
theorem moves_accept {i : ℕ} (hstep : w.step uuid impl cfg (.accept i) = some w') :
    Moves uuid impl cfg w w' (.accept i) := by
  simp only [World.step] at hstep
  split_ifs at hstep with hi
  refine moves_host _ w.up hstep (fun h => by cases h) rfl (fun _ _ h => by cases h) ?_ ?_
    (fun _ h => by cases h) fun h => h
  · intro j hj
    cases hj
    exact ⟨hi.2, hi.1⟩
  · intro j
    by_cases hj : j = i
    · subst hj
      simp
    · simp [hj, Ne.symm hj]

/-- What a writer takes off its channel it puts on its socket, which drops it when it is cut. -/
theorem ahead_of_sent {i : ℕ} {frame : Text} {frames : List Text}
    (hqueue : (w.host.hub.channels i).queue = frame :: frames)
    (hhub : w'.host.hub = w.host.hub.popChannel i)
    (hdown : w'.down = push w.down i (if w.cut i then [] else [frame])) (j : ℕ) :
    (w'.ahead j).Sublist (w.ahead j) ∧ (w.cut j = false → w'.ahead j = w.ahead j) := by
  rw [ahead, ahead, hhub, hdown]
  by_cases hj : j = i
  · subst hj
    simp only [push, Host.Hub.popChannel, Function.update_self, hqueue, List.tail_cons]
    cases hcut : w.cut j with
    | false =>
      have hsame : w.down j ++ [frame] ++ frames = w.down j ++ frame :: frames := by simp
      exact ⟨hsame ▸ List.Sublist.refl _, fun _ => hsame⟩
    | true =>
      rw [if_pos rfl, List.append_nil]
      exact ⟨(List.sublist_cons_self frame frames).append_left _, fun h => absurd h (by simp)⟩
  · simp [push, Host.Hub.popChannel, hj]

/-- The writer of a socket sends a frame. -/
theorem moves_send {i : ℕ} (hstep : w.step uuid impl cfg (.send i) = some w') :
    Moves uuid impl cfg w w' (.send i) := by
  simp only [World.step] at hstep
  split at hstep
  · cases hstep
  · next frame frames hqueue =>
    obtain ⟨hstepped, hconnected, hdown, hup⟩ := hostStepped_of_hostStep w.connected _ w.up hstep
    have hhub : w'.host.hub = w.host.hub.popChannel i := by
      have := hstepped.host
      simp only [Host.Calls.step, Option.some.injEq] at this
      rw [← this]
    have hahead := ahead_of_sent hqueue hhub hdown
    have hnone (j : ℕ) : w.ahead j ++ (Host.Calls.sends uuid w.host (.writerSends i)).elim []
        (List.replicate 0) = w.ahead j := List.append_nil _
    exact .host _ (.writerSends i) (fun h => by cases h) rfl (fun _ _ h => by cases h)
      (fun _ h => by cases h) (hconnected ▸ connected_plain fun _ h => by cases h) hstepped
      (fun j => ⟨0, Nat.zero_le _, (hnone j).symm ▸ (hahead j).1⟩)
      (fun j hcut _ => (hahead j).2 hcut ▸ List.Sublist.refl _) (cut_of_hostStep hstep rfl) hup

/-- The host takes a frame off a socket; an ack goes to its calls. -/
theorem moves_receive {i d : ℕ} (hstep : w.step uuid impl cfg (.receive i d) = some w') :
    Moves uuid impl cfg w w' (.receive i d) := by
  simp only [World.step] at hstep
  split at hstep
  · cases hstep
  · next frame frames hup =>
    split at hstep
    · exact moves_host w.connected _ hstep (fun h => by cases h) rfl (fun _ _ h => by cases h)
        (fun _ h => by cases h) (connected_plain fun _ h => by cases h) (fun _ h => by cases h)
        fun h => ⟨frame, frames, hup, h⟩
    · rw [Option.some.injEq] at hstep
      subst hstep
      exact .bus _ rfl ⟨rfl, rfl, rfl, rfl, fun _ => List.Sublist.refl _,
        fun j => (sublist_update hup j).subset, fun _ ht => ht, fun _ hr => hr⟩
        (.inl rfl) (.inl rfl) rfl rfl rfl ⟨frame, frames, hup, rfl⟩

/-- The relay takes a frame off its current socket. -/
theorem moves_deliver {i : ℕ} {now : TimeValue} {onThrows callThrows : Bool}
    (hstep : w.step uuid impl cfg (.deliver i now onThrows callThrows) = some w') :
    Moves uuid impl cfg w w' (.deliver i now onThrows callThrows) := by
  simp only [World.step] at hstep
  split at hstep
  · cases hstep
  · next frame frames hfirst =>
    split_ifs at hstep with hws
    obtain ⟨hmoved, hdown, hfrom⟩ := relayMoved_of_relayStep _ w.fromWasm hstep
    exact .deliver i frame frames now onThrows callThrows hws hfirst hmoved hdown hfrom

/-- Every step of the world is one of these. -/
theorem moves_step {ev : WorldEvent} (hstep : w.step uuid impl cfg ev = some w') :
    Moves uuid impl cfg w w' ev := by
  cases ev with
  | host e => exact moves_internal hstep
  | ping id ts => exact moves_sendTo hstep rfl (fun h => h) ⟨ts, .inl ⟨rfl, rfl⟩⟩
  | pong id ts => exact moves_sendTo hstep rfl (fun h => h) ⟨ts, .inr ⟨rfl, rfl⟩⟩
  | accept i => exact moves_accept hstep
  | send i => exact moves_send hstep
  | receive i d => exact moves_receive hstep
  | cut i =>
    simp only [World.step, Option.some.injEq] at hstep
    exact .cut i hstep.symm
  | relay e =>
    simp only [World.step] at hstep
    split_ifs at hstep with he
    obtain ⟨hmoved, hdown, hfrom⟩ := relayMoved_of_relayStep w.down w.fromWasm hstep
    exact .callback e (by simpa using he) hmoved hdown hfrom
  | deliver i now onThrows callThrows => exact moves_deliver hstep
  | handle k result =>
    simp only [World.step] at hstep
    obtain ⟨raw, hraw, rfl⟩ := Option.map_eq_some_iff.mp hstep
    exact .handle k result raw hraw rfl
  | loseCall k =>
    simp only [World.step, Option.some.injEq] at hstep
    subst hstep
    exact .bus _ rfl ⟨rfl, rfl, rfl, rfl, fun _ => List.Sublist.refl _, fun _ _ ht => ht,
      List.eraseIdx_subset, fun _ hr => hr⟩ (.inr ⟨k, rfl, rfl⟩) (.inl rfl) rfl rfl rfl rfl
  | respond k =>
    simp only [World.step] at hstep
    obtain ⟨raw, hraw, hstep⟩ := Option.bind_eq_some_iff.mp hstep
    obtain ⟨hmoved, hdown, hfrom⟩ := relayMoved_of_relayStep w.down _ hstep
    exact .respond k raw hraw hfrom hmoved hdown
  | loseResponse k =>
    simp only [World.step, Option.some.injEq] at hstep
    subst hstep
    exact .bus _ rfl ⟨rfl, rfl, rfl, rfl, fun _ => List.Sublist.refl _, fun _ _ ht => ht,
      fun _ ht => ht, fun _ hr => hr⟩ (.inl rfl) (.inr ⟨k, rfl, rfl⟩) rfl rfl rfl rfl
  | emit name data =>
    simp only [World.step, Option.some.injEq] at hstep
    exact .emit name data hstep.symm

/-! ### Sockets and channels -/

/-- The relay listens on its newest socket, every client has a channel of its own, which is
a socket of the relay, and nothing is on a socket before the host has accepted it. -/
structure Linked (w : World) : Prop where
  newest : w.relay.Newest
  distinct : w.host.hub.Distinct
  clients : ∀ id k, w.host.hub.clients.lookup id = some k → w.connected k.tx = true
  connected : ∀ i, w.connected i = true → i < w.relay.nextSocket
  idle : ∀ i, w.connected i = false → w.inbound i = []

/-- At first there are no sockets and no clients. -/
theorem linked_init : Linked (init impl cfg) where
  newest _ h := by cases h
  distinct _ _ _ _ h := by cases h
  clients _ _ h := by cases h
  connected _ h := by cases h
  idle _ _ := rfl

/-- A socket that is no connection is no client's. -/
theorem Linked.holders_eq_zero (h : Linked w) {i : ℕ} (hi : w.connected i = false) :
    w.host.hub.holders i = 0 := by
  refine Host.Hub.holders_eq_zero fun id k hk htx => ?_
  have := h.clients id k hk
  rw [htx, hi] at this
  cases this

/-- A socket is the newest one already, or nothing is on it yet. -/
theorem Linked.newest_or_idle (h : Linked w) {i n : ℕ} (hn : w.relay.nextSocket ≤ n)
    (hi : i + 1 = n) : i + 1 = w.relay.nextSocket ∨ w.ahead i = [] := by
  by_cases hlt : i < w.relay.nextSocket
  · left
    omega
  · refine .inr (ahead_eq_nil.mpr (h.idle i ?_))
    by_contra hne
    exact hlt (h.connected i (by simpa using hne))

/-- The client that is registered gets a channel that is no other client's. -/
theorem Linked.host (h : Linked w) {e : Host.CallEvent} (hstepped : HostStepped uuid e w w')
    (hregister : ∀ i, e = .register i → w.connected i = false ∧ i < w.relay.nextSocket)
    (hconnected : ∀ i, w'.connected i = true ↔ w.connected i = true ∨ e = .register i)
    (hidle : ∀ i, w.connected i = false → w.inbound i = [] → w'.inbound i = []) : Linked w' := by
  have hclients {id : ℕ} {k : Host.Client} (hk : w'.host.hub.clients.lookup id = some k) :=
    Host.Calls.clients_step hstepped.host hk
  have hother {id id' i : ℕ} {k : Host.Client} (hk : w.host.hub.clients.lookup id = some k)
      (he : e = .register i) (htx : k.tx = i) : id = id' := by
    have := h.clients id k hk
    rw [htx, (hregister i he).1] at this
    cases this
  constructor
  case newest => rw [hstepped.relay]; exact h.newest
  case distinct =>
    intro id id' k k' hk hk' htx
    rcases hclients hk with ⟨k₀, hk₀, htx₀⟩ | ⟨he, hid⟩ <;>
      rcases hclients hk' with ⟨k₀', hk₀', htx₀'⟩ | ⟨he', hid'⟩
    · exact h.distinct id id' k₀ k₀' hk₀ hk₀' (by rw [htx₀, htx₀', htx])
    · exact hother hk₀ he' (htx₀.trans htx)
    · exact (hother hk₀' he (htx₀'.trans htx.symm)).symm
    · rw [hid, hid']
  case clients =>
    intro id k hk
    rw [hconnected]
    rcases hclients hk with ⟨k₀, hk₀, htx₀⟩ | ⟨hreg, _⟩
    · exact .inl (htx₀ ▸ h.clients id k₀ hk₀)
    · exact .inr hreg
  case connected =>
    intro i hi
    rw [hstepped.relay]
    exact ((hconnected i).mp hi).elim (h.connected i) fun hreg => (hregister i hreg).2
  case idle =>
    intro i hi
    have hbefore : w.connected i = false := by
      by_contra hne
      rw [(hconnected i).mpr (.inl (by simpa using hne))] at hi
      cases hi
    exact hidle i hbefore (h.idle i hbefore)

/-- What keeps the clients of the host and the order of the sockets. -/
theorem Linked.of_relay (h : Linked w) (hnewest : w'.relay.Newest)
    (hsockets : w.relay.nextSocket ≤ w'.relay.nextSocket) (hhost : w'.host = w.host)
    (hconnected : w'.connected = w.connected) (hdown : ∀ i, (w'.down i).Sublist (w.down i)) :
    Linked w' := by
  refine ⟨hnewest, by rw [hhost]; exact h.distinct, by rw [hhost, hconnected]; exact h.clients,
    ?_, ?_⟩
  · rw [hconnected]
    exact fun i hi => (h.connected i hi).trans_le hsockets
  · rw [hconnected]
    intro i hi
    have hsub : (w'.inbound i).Sublist (w.inbound i) := by
      rw [inbound, inbound, hhost]
      exact (List.Sublist.refl _).append (hdown i)
    exact List.sublist_nil.mp (h.idle i hi ▸ hsub)

/-- Every step of the world keeps it. -/
theorem linked_step (h : Linked w) {ev : WorldEvent} (hstep : w.step uuid impl cfg ev = some w') :
    Linked w' := by
  have hrefl (i : ℕ) : (w.down i).Sublist (w.down i) := List.Sublist.refl _
  cases moves_step hstep with
  | host ev e hev hapart hsendTo hregister hconnected hstepped hahead hkept hcut hup =>
    refine h.host hstepped hregister hconnected fun i hi hempty => ?_
    obtain ⟨n, hn, hsub⟩ := hahead i
    rw [h.holders_eq_zero hi, Nat.le_zero] at hn
    rw [ahead_eq_nil.mpr hempty, hn] at hsub
    refine ahead_eq_nil.mp (List.sublist_nil.mp ?_)
    cases hsends : Host.Calls.sends uuid w.host e <;> simpa [hsends] using hsub
  | callback e he hmoved hdown hfrom =>
    have hcalm := State.calm_step he hmoved.relay
    exact h.of_relay (hcalm.newest h.newest) hcalm.nextSocket hmoved.host hmoved.connected
      (hdown ▸ hrefl)
  | deliver i frame frames now onThrows callThrows hws hfirst hmoved hdown hfrom =>
    obtain ⟨hsockets, hnewest, _⟩ := State.newCalls_socketMessage hmoved.relay
    exact h.of_relay (hnewest h.newest) hsockets hmoved.host hmoved.connected
      (hdown ▸ sublist_update hfirst)
  | respond k raw hraw hfrom hmoved hdown =>
    have hcalm := State.calm_wasmMessage hmoved.relay
    exact h.of_relay (hcalm.newest h.newest) hcalm.nextSocket hmoved.host hmoved.connected
      (hdown ▸ hrefl)
  | handle k result raw hraw hw' =>
    obtain ⟨hhost, hrelay, hconnected, hdown, _⟩ := hw' ▸ handle_same
      ({ w with toWasm := w.toWasm.eraseIdx k } : World) raw result
    exact h.of_relay (hrelay ▸ h.newest) (by rw [hrelay]) hhost hconnected (hdown ▸ hrefl)
  | emit name data hw' =>
    subst hw'
    exact h.of_relay h.newest le_rfl rfl rfl hrefl
  | cut i hw' =>
    subst hw'
    exact h.of_relay h.newest le_rfl rfl rfl (sublist_cut w.down i)
  | bus ev hapart hstepped hcalls hfrom hruns hdown hcut hup =>
    exact h.of_relay (hstepped.relay ▸ h.newest) (by rw [hstepped.relay]) hstepped.host
      hstepped.connected hstepped.down

/-! ### On the way to the module -/

/-- What is next on the way to the module is taken off a socket or off the CommBus. -/
def advances : WorldEvent → Bool
  | .deliver .. | .handle .. => true
  | _ => false

/-- The host and the CommBus alone take nothing off it. -/
theorem advances_of_isApart {ev : WorldEvent} (h : isApart ev = false) : advances ev = false := by
  cases ev with
  | deliver | handle => cases h
  | _ => rfl

/-- What a step of the world does on the way from the host to the module. -/
inductive Inward (uuid : ℕ → String) (impl : Impl) (cfg : ResolvedConfig) (w w' : World) :
    WorldEvent → Prop where
  /-- The host puts a frame on channels, once on each. -/
  | sent (ev : WorldEvent) (e : Host.CallEvent) (hev : isInternal e = true → ev = .host e)
    (hadvances : advances ev = false)
    (hsendTo : ∀ id json, e = .sendTo id json →
      ∃ ts, json = (WireMsg.ping ts).toJson ∧ ev = .ping id ts ∨
        json = (WireMsg.pong ts).toJson ∧ ev = .pong id ts)
    (hstepped : HostStepped uuid e w w')
    (hahead : ∀ i, ∃ n ≤ 1, (w'.ahead i).Sublist
      (w.ahead i ++ (Host.Calls.sends uuid w.host e).elim [] (List.replicate n))) :
    Inward uuid impl cfg w w' ev
  /-- The relay takes a frame off its newest socket, and may put it on the CommBus. -/
  | moved (i : ℕ) (frame : Text) (now : TimeValue) (onThrows callThrows : Bool)
    (hnewest : i + 1 = w.relay.nextSocket) (hfirst : (w.down i).head? = some frame)
    (hfront : w.ahead i = frame :: w'.ahead i) (hahead : ∀ j, (w'.ahead j).Sublist (w.ahead j))
    (hsockets : w.relay.nextSocket ≤ w'.relay.nextSocket)
    (hrelay : State.step impl cfg w.relay
      (.socketMessage i (some frame) now onThrows callThrows) = some w'.relay)
    (hcalls : w'.toWasm = w.toWasm ++ State.newCalls w.relay w'.relay) :
    Inward uuid impl cfg w w' (.deliver i now onThrows callThrows)
  /-- The bridge takes a text off the CommBus. -/
  | run (k : ℕ) (result : Except String Value) (raw : Text) (hraw : w.toWasm[k]? = some raw)
    (hcalls : w'.toWasm = w.toWasm.eraseIdx k)
    (hsockets : w'.relay.nextSocket = w.relay.nextSocket) (hahead : ∀ i, w'.ahead i = w.ahead i) :
    Inward uuid impl cfg w w' (.handle k result)
  /-- Nothing is added. -/
  | eased (ev : WorldEvent) (hadvances : advances ev = false)
    (hsockets : w.relay.nextSocket ≤ w'.relay.nextSocket)
    (hahead : ∀ i, (w'.ahead i).Sublist (w.ahead i)) (hcalls : w'.toWasm.Sublist w.toWasm) :
    Inward uuid impl cfg w w' ev

/-- A callback that puts nothing on the CommBus. -/
theorem inward_of_newCalls {ev : WorldEvent} {e : RelayEvent} (hadvances : advances ev = false)
    (hsockets : w.relay.nextSocket ≤ w'.relay.nextSocket)
    (hcalls : State.newCalls w.relay w'.relay = []) (hmoved : RelayMoved impl cfg e w w')
    (hdown : w'.down = w.down) : Inward uuid impl cfg w w' ev := by
  refine .eased ev hadvances hsockets
    (ahead_sublist hmoved.host fun i => hdown ▸ List.Sublist.refl _) ?_
  rw [hmoved.toWasm, hcalls, List.append_nil]

/-- Every step of the world is one of these, when the relay listens on its newest socket. -/
theorem inward_step (h : Linked w) {ev : WorldEvent} (hstep : w.step uuid impl cfg ev = some w') :
    Inward uuid impl cfg w w' ev := by
  cases moves_step hstep with
  | host ev e hev hapart hsendTo hregister hconnected hstepped hahead =>
    refine .sent ev e hev (advances_of_isApart hapart) hsendTo hstepped fun i => ?_
    obtain ⟨n, hn, hsub⟩ := hahead i
    exact ⟨n, hn.trans (h.distinct.holders_le i), hsub⟩
  | callback e he hmoved hdown =>
    have hcalm := State.calm_step he hmoved.relay
    exact inward_of_newCalls rfl hcalm.nextSocket hcalm.newCalls hmoved hdown
  | deliver i frame frames now onThrows callThrows hws hfirst hmoved hdown =>
    obtain ⟨hsockets, _, _⟩ := State.newCalls_socketMessage hmoved.relay
    have hfront : w.ahead i = frame :: w'.ahead i := by
      rw [ahead, ahead, hmoved.host, hdown, hfirst, Function.update_self, List.cons_append]
    exact .moved i frame now onThrows callThrows (h.newest i hws) (by rw [hfirst]; rfl) hfront
      (ahead_sublist hmoved.host (hdown ▸ sublist_update hfirst)) hsockets hmoved.relay
      hmoved.toWasm
  | respond k raw hraw hfrom hmoved hdown =>
    have hcalm := State.calm_wasmMessage hmoved.relay
    exact inward_of_newCalls rfl hcalm.nextSocket hcalm.newCalls hmoved hdown
  | handle k result raw hraw hw' =>
    obtain ⟨hhost, hrelay, _, hdown, _, htoWasm⟩ := hw' ▸ handle_same
      ({ w with toWasm := w.toWasm.eraseIdx k } : World) raw result
    exact .run k result raw hraw htoWasm (by rw [hrelay])
      fun i => by rw [ahead, ahead, hhost, hdown]
  | emit name data hw' =>
    subst hw'
    exact .eased _ rfl le_rfl (fun _ => List.Sublist.refl _) (List.Sublist.refl _)
  | cut i hw' =>
    subst hw'
    exact .eased _ rfl le_rfl (ahead_sublist rfl (sublist_cut w.down i)) (List.Sublist.refl _)
  | bus ev hapart hstepped hcalls =>
    exact .eased ev (advances_of_isApart hapart) (by rw [hstepped.relay])
      (ahead_sublist hstepped.host hstepped.down) hcalls.sublist

end InfinityBridge.EndToEnd.World
