import InfinityBridge.Library.Transition
import InfinityBridge.Host.Hub

/-!
# Connections

`handle_socket` runs three tasks for each connection: the writer, the ping task and
the read loop. Here any number of connections run on one hub, and a step takes one
task of one connection over one locked section or one await point. Every ping task
reaps across all connections.

The oneshot on which the ping task signals the read loop resolves when it is sent on
and also when its sender is dropped.
-/

namespace InfinityBridge.Host

/-- The fields of `ServerConfig` that a connection reads. -/
structure ServerConfig where
  pingInterval : Duration
  pingTimeout : Duration

/-- The event name reserved for readiness. -/
def readyEvent : String := "__bridge_ready"

/-- A call of the read loop on the hub. -/
inductive ReaderOp where
  | touch
  | setHello (h : HelloPayload)
  | dispatchAck (a : AckPayload)
  | setReady (b : Bool)
  | dispatchEvent (e : EventPayload)
  | sendTo (json : Text)

/-- The `ready` member of a readiness event, `true` when there is no boolean. -/
def readyFlag (data : Value) : Bool :=
  match data.property "ready" with
  | some (.bool b) => b
  | _ => true

/-- What the read loop does with a text frame. -/
def handleText (text : Text) : List ReaderOp :=
  .touch :: match WireMsg.fromJson text with
    | none => []
    | some (.hello h) => [.setHello h]
    | some (.ack a) => [.dispatchAck a]
    | some (.event e) =>
      if e.name = readyEvent then [.setReady (readyFlag e.data)] else [.dispatchEvent e]
    | some (.pong _) => []
    | some (.cmd p) => [.dispatchEvent ⟨p.name.getD "cmd", p.payload⟩]
    | some (.ping ts) => [.sendTo (WireMsg.pong ts).toJson]

/-- What `ws_rx.next()` returns. -/
inductive SocketItem where
  | text (t : Text)
  | close
  /-- A binary, ping or pong frame. -/
  | other
  /-- The end of the stream, or an error. -/
  | ended

/-- Where the read loop of a connection is. -/
inductive Reader where
  | absent
  | accepted
  /-- Has drawn an id, and is about to lock the clients. -/
  | gotId
  /-- In the loop, with the rest of the current frame's work. -/
  | serving (todo : List ReaderOp)
  | leaving
  | unregistered
  /-- Has asked the ping task to abort and awaits the writer. -/
  | closing
  | returned

/-- Where the ping task of a connection is. -/
inductive Ping where
  | absent
  | starting
  | ticking
  /-- In `reap_dead_clients`, with `now` sampled and the lock not yet taken. -/
  | sampled (now : Instant)
  /-- About to send its ping. -/
  | pinging
  | ended

/-- The oneshot from the ping task to the read loop. -/
inductive Signal where
  | pending
  | sent
  | dropped
  deriving DecidableEq

/-- The state of `handle_socket`. Connection `c` owns channel `c` of the hub. -/
structure Conn where
  id : ℕ
  reader : Reader
  ping : Ping
  signal : Signal
  abortRequested : Bool
  /-- How many registrations came before this one. -/
  serial : ℕ
  /-- How many ticks the ping task has completed. -/
  ticks : ℕ

/-- The hub and its connections. The last two fields record the history. -/
structure Server where
  hub : Hub
  conns : ℕ → Conn
  now : Instant
  /-- How many ids have been drawn. -/
  registrations : ℕ
  /-- The last touch or registration of each id. -/
  lastHeard : ℕ → Instant

def Server.init : Server where
  hub := Hub.new
  conns := fun _ => ⟨0, .absent, .absent, .pending, false, 0, 0⟩
  now := 0
  registrations := 0
  lastHeard := fun _ => 0

/-- One step of one task. -/
inductive ServerEvent where
  | accept (c : ℕ)
  | fetchId (c : ℕ)
  | insert (c : ℕ)
  | startPing (c : ℕ)
  /-- An interval tick, and the sample of `now`. -/
  | sample (c : ℕ)
  | reap (c : ℕ)
  | sendPing (c : ℕ) (ts : UInt64)
  | abortTakes (c : ℕ)
  | receive (c : ℕ) (item : SocketItem)
  | readerOp (c : ℕ)
  /-- The select takes the branch of the signal. -/
  | leave (c : ℕ)
  | unregister (c : ℕ)
  | abortPing (c : ℕ)
  | finish (c : ℕ)
  | writerEnds (c : ℕ)
  | writerSends (c : ℕ)
  | emit (name : String) (data : Value)
  | deliver (json : Text)
  | tick (d : Duration)

/-- Has inserted its client, and has not returned from `unregister_client`. -/
def Reader.registered : Reader → Bool
  | .serving _ | .leaving => true
  | _ => false

/-- Is in the loop. -/
def Reader.isServing : Reader → Bool
  | .serving _ => true
  | _ => false

/-- Has drawn an id. -/
def Reader.drawn : Reader → Bool
  | .absent | .accepted => false
  | _ => true

/-- Has inserted its client, whatever came afterwards. -/
def Reader.entered : Reader → Bool
  | .absent | .accepted | .gotId => false
  | _ => true

namespace Server

/-- Change connection `c`. -/
def act (s : Server) (c : ℕ) (f : Conn → Conn) : Server :=
  { s with conns := Function.update s.conns c (f (s.conns c)) }

/-- One call of the read loop of connection `c` on the hub. -/
def perform (s : Server) (c : ℕ) : ReaderOp → Server
  | .touch =>
    { s with
      hub := s.hub.touchClient (s.conns c).id s.now
      lastHeard := Function.update s.lastHeard (s.conns c).id s.now }
  | .setHello h => { s with hub := s.hub.setClientHello (s.conns c).id h }
  | .dispatchAck a => { s with hub := s.hub.removePending a.id }
  | .setReady b => { s with hub := s.hub.setClientReady (s.conns c).id b }
  | .dispatchEvent e => { s with hub := s.hub.dispatchEvent e }
  | .sendTo json => { s with hub := (s.hub.sendTo (s.conns c).id json).toOption.getD s.hub }

/-- The steps of the system. -/
def step (cfg : ServerConfig) (s : Server) : ServerEvent → Option Server
  | .accept c =>
    match (s.conns c).reader with
    | .absent => some (s.act c fun k => { k with reader := .accepted })
    | _ => none
  | .fetchId c =>
    match (s.conns c).reader with
    | .accepted => some
        ({ s with hub := s.hub.fetchAddId.2, registrations := s.registrations + 1 }.act c fun k =>
          { k with id := s.hub.fetchAddId.1, serial := s.registrations, reader := .gotId })
    | _ => none
  | .insert c =>
    match (s.conns c).reader with
    | .gotId => some
        ({ s with
          hub := s.hub.insertClient (s.conns c).id c s.now
          lastHeard := Function.update s.lastHeard (s.conns c).id s.now }.act c fun k =>
          { k with reader := .serving [], ping := .starting })
    | _ => none
  | .startPing c =>
    match (s.conns c).ping with
    | .starting =>
      -- a zero period panics, which drops the sender with the task
      if cfg.pingInterval = 0 then
        some (s.act c fun k => { k with ping := .ended, signal := .dropped })
      else some (s.act c fun k => { k with ping := .ticking })
    | _ => none
  | .sample c =>
    match (s.conns c).ping with
    | .ticking => some (s.act c fun k => { k with ping := .sampled s.now })
    | _ => none
  | .reap c =>
    match (s.conns c).ping with
    | .sampled now =>
      if (s.conns c).id ∈ (s.hub.reapDeadClients now cfg.pingTimeout).1 then
        some ({ s with hub := (s.hub.reapDeadClients now cfg.pingTimeout).2 }.act c fun k =>
          { k with ping := .ended, signal := .sent, ticks := k.ticks + 1 })
      else
        some ({ s with hub := (s.hub.reapDeadClients now cfg.pingTimeout).2 }.act c fun k =>
          { k with ping := .pinging })
    | _ => none
  | .sendPing c ts =>
    match (s.conns c).ping with
    | .pinging =>
      match s.hub.sendTo (s.conns c).id (WireMsg.ping (some ts)).toJson with
      | .ok hub => some ({ s with hub }.act c fun k =>
          { k with ping := .ticking, ticks := k.ticks + 1 })
      | .error _ => some (s.act c fun k =>
          { k with ping := .ended, signal := .sent, ticks := k.ticks + 1 })
    | _ => none
  | .abortTakes c =>
    match (s.conns c).abortRequested, (s.conns c).ping with
    | true, .starting | true, .ticking | true, .sampled _ | true, .pinging =>
      some (s.act c fun k => { k with ping := .ended, signal := .dropped })
    | _, _ => none
  | .receive c item =>
    match (s.conns c).reader with
    | .serving [] => some (s.act c fun k => { k with
        reader := match item with
          | .text t => .serving (handleText t)
          | .close | .ended => .leaving
          | .other => .serving [] })
    | _ => none
  | .readerOp c =>
    match (s.conns c).reader with
    | .serving (op :: ops) =>
      some ((s.perform c op).act c fun k => { k with reader := .serving ops })
    | _ => none
  | .leave c =>
    match (s.conns c).reader with
    | .serving [] =>
      if (s.conns c).signal = .pending then none
      else some (s.act c fun k => { k with reader := .leaving })
    | _ => none
  | .unregister c =>
    match (s.conns c).reader with
    | .leaving => some
        ({ s with hub := s.hub.unregisterClient (s.conns c).id }.act c fun k =>
          { k with reader := .unregistered })
    | _ => none
  | .abortPing c =>
    match (s.conns c).reader with
    | .unregistered => some (s.act c fun k => { k with reader := .closing, abortRequested := true })
    | _ => none
  | .finish c =>
    match (s.conns c).reader with
    | .closing =>
      if (s.hub.channels c).closed then some (s.act c fun k => { k with reader := .returned })
      else none
    | _ => none
  | .writerEnds c =>
    match (s.conns c).reader with
    | .absent | .accepted | .gotId => none
    | _ => some { s with hub := s.hub.closeChannel c }
  | .writerSends c => some { s with hub := s.hub.popChannel c }
  | .emit name data => some { s with hub := (s.hub.emit name data).2 }
  | .deliver json => some { s with hub := (s.hub.deliver json).toOption.getD s.hub }
  | .tick d => some { s with now := s.now + d }

/-- A step of a connection changes it. -/
@[simp] theorem act_conns_self (s : Server) (c : ℕ) (f : Conn → Conn) :
    (s.act c f).conns c = f (s.conns c) := by
  simp [act]

/-- A step of a connection leaves the others alone. -/
theorem act_conns_ne (s : Server) {c c' : ℕ} (h : c' ≠ c) (f : Conn → Conn) :
    (s.act c f).conns c' = s.conns c' := by
  simp [act, h]

/-- A change of a connection is none of the hub. -/
@[simp] theorem act_hub (s : Server) (c : ℕ) (f : Conn → Conn) : (s.act c f).hub = s.hub := rfl

/-- The operations on the hub change no connection. -/
@[simp] theorem perform_conns (s : Server) (c : ℕ) (op : ReaderOp) :
    (s.perform c op).conns = s.conns := by
  cases op <;> rfl

end Server

end InfinityBridge.Host
