import InfinityBridge.Library.Transition
import InfinityBridge.Relay.State

/-!
# The callbacks of a relay

Every event the environment can deliver, and what the relay does with it. What the
environment decides inside a callback (whether a call of the simulator throws, what
the clock reads) comes with the event. Timers fire in any order, and sockets deliver
their events at any later time.
-/

namespace InfinityBridge.Relay

/-- An event of the environment. -/
inductive RelayEvent where
  | init (socketThrows onThrows : Bool)
  | destroy (offThrows unregisterThrows : Bool)
  /-- The registration continuation of a CommBus handle, after `RegisterViewListener`
  has returned; a continuation that runs before that does nothing. -/
  | continuation (bus : ℕ) (onThrows : Bool)
  | timer (id : ℕ) (onThrows socketThrows : Bool)
  | socketOpen (i : ℕ) (now : TimeValue)
  /-- A frame; `none` when it is not text. -/
  | socketMessage (i : ℕ) (data : Option Text) (now : TimeValue) (onThrows callThrows : Bool)
  | socketError (i : ℕ)
  | socketClose (i : ℕ)
  /-- A socket stops being usable; its events follow later, or not at all. -/
  | socketDrop (i : ℕ)
  | wasmMessage (raw : Text)
  | callRejected (n : ℕ) (reason : Rejection)

namespace State

variable (impl : Impl) (cfg : ResolvedConfig)

/-- The frame sent when a socket opens. -/
def helloFrame (now : TimeValue) : Value :=
  .obj ([("t", .str "hello"), ("client", .str (cfg.hello.client.getD "msfs-gauge"))] ++
    member "aircraft" (cfg.hello.aircraft.map .str) ++ member "tail" (cfg.hello.tail.map .str) ++
    [("session", .str (cfg.hello.session.getD (toString now.millis))),
      ("v", .num cfg.protocolVersion)] ++
    member "meta" cfg.hello.metadata)

/-- The `onopen` handler. -/
def onOpen (now : TimeValue) (s : State) : State :=
  (s.wsSend .hello (.doc (helloFrame cfg now))).sendReady

/-- The `onerror` and `onclose` handlers, which are the same. -/
def onLost (s : State) : State := { s with ws := none }.scheduleWsReconnect cfg

/-- `onHostCommand` for a command the ring holds. -/
def onDuplicate (id : Option Value) (s : State) : State :=
  { s with copies := s.copies ++ [id] }.wsSend .duplicate (.doc (duplicateAck id))

/-- `onHostCommand` up to the CommBus: draw a request id, arm the timer and enter the
request. -/
def openRequest (id : Option Value) (now : TimeValue) (s : State) : String × State :=
  let r := s.nextRequestId impl now
  let u := r.2.setTimeout (.request r.1 id) cfg.requestTimeoutMs
  (r.1, { u.2 with
    pending := u.2.pending.insert r.1 (PendingRequest.mk id u.1)
    accepted := u.2.accepted ++ [(r.1, id)] })

/-- `onHostCommand` from the CommBus on. -/
def forwardCommand (requestId : String) (frame : Value) (onThrows callThrows : Bool) (s : State) :
    State :=
  match s.commBus with
  | none =>
    match s.pending.lookup requestId with
    | none => s
    | some p => (s.take requestId p).refuse requestId p.cmdId commBusNotReady
  | some bus => (s.bindCommBus cfg bus onThrows).call cfg bus requestId frame true callThrows

/-- `onHostCommand`; `none` when the ring's eviction loop never ends. -/
def onHostCommand (id : Option Value) (frame : Value) (now : TimeValue)
    (onThrows callThrows : Bool) (s : State) : Option State :=
  let key := Key.of s.nextRef id
  let s := { s with nextRef := s.nextRef + 1 }
  if s.dedup.has key then some (s.onDuplicate id)
  else
    (s.dedup.mark key).map fun dedup =>
      let r := { s with dedup }.openRequest impl cfg id now
      r.2.forwardCommand cfg r.1 frame onThrows callThrows

def onHostEvent (frame : Value) (now : TimeValue) (callThrows : Bool) (s : State) : State :=
  match s.commBus with
  | none => s
  | some bus =>
    let r := s.nextRequestId impl now
    r.2.call cfg bus r.1 frame false callThrows

/-- The pong of a host ping. -/
def pongFrame (now : TimeValue) : Value := .obj [("t", .str "pong"), ("ts", .num now.toNumber)]

def onHostMessage (data : Option Text) (now : TimeValue) (onThrows callThrows : Bool) (s : State) :
    Option State :=
  match data.bind Text.jsonParse with
  | none => some s
  | some j =>
    match hostMessage impl j with
    | .ping => some (s.wsSend .pong (.doc (pongFrame now)))
    | .cmd id frame => s.onHostCommand impl cfg id frame now onThrows callThrows
    | .event frame => some (s.onHostEvent impl cfg frame now callThrows)
    | .ignored => some s

/-- `onWasmMessage`. A response whose error has no string form throws after its request
has been taken out. -/
def onWasmMessage (raw : Text) (s : State) : State :=
  match raw.jsonParse with
  | none => s
  | some j =>
    match wasmMessage impl j with
    | .response requestId ok response error =>
      match s.pending.lookup requestId with
      | none => s
      | some p =>
        match responseAck impl numberText p.cmdId ok response error with
        | none => { s.take requestId p with lost := s.lost ++ [requestId] }
        | some ack => (s.take requestId p).sendAnswer requestId ack
    | .forward => s.wsSend .forwarded raw
    | .ignored => s

/-- The timer of a request. -/
def onRequestTimeout (requestId : String) (cmdId : Option Value) (s : State) : State :=
  { s with pending := s.pending.erase requestId }.refuse requestId cmdId
    (if s.commBusBound then wasmTimeout else commBusNotBound)

/-- The `catch` of a CommBus call. A rejection whose message cannot be read throws after the
request has been taken out. -/
def onCallRejected (c : BusCall) (reason : Rejection) (s : State) : State :=
  if c.command then
    match s.pending.lookup c.requestId with
    | none => s
    | some p =>
      match reason.message impl with
      | none => { s.take c.requestId p with lost := s.lost ++ [c.requestId] }
      | some message => (s.take c.requestId p).refuse c.requestId p.cmdId message
  else s

/-- `init`. -/
def init (socketThrows onThrows : Bool) (s : State) : State :=
  let s := s.connectWs cfg socketThrows
  let s := match impl with
    | .typescript => s
    | .rescript => { s with onWasmHandler := some s.nextHandler, nextHandler := s.nextHandler + 1 }
  let bus := s.nextBus
  let s := { s with nextBus := bus + 1, commBus := some bus }
  (s.bindCommBus cfg bus onThrows).scheduleBindRetry cfg

/-- Refuse the pending requests, oldest first. -/
def rejectAll : List (Sigma fun _ : String => PendingRequest) → State → State
  | [], s => s
  | e :: es, s =>
    rejectAll es ((s.clearTimeout e.2.timerId).refuse e.1 e.2.cmdId relayDestroyed)

/-- `bus.off`, when it does not throw. -/
def off (bus : ℕ) (s : State) : State :=
  match s.onWasmHandler with
  | none => s
  | some h => { s with listeners := s.listeners.filter (· ≠ ⟨bus, cfg.responseEvent, h⟩) }

/-- `bus.unregister`, when it does not throw. -/
def unregister (bus : ℕ) (s : State) : State :=
  { s with listeners := s.listeners.filter (·.bus ≠ bus) }

/-- `ws.close`. -/
def close (i : ℕ) (s : State) : State :=
  match (s.sockets i).readyState with
  | .connecting | .open =>
    { s with sockets := Function.update s.sockets i { s.sockets i with readyState := .closing } }
  | _ => s

/-- Cancel the reconnect timer, close the socket and forget it. -/
def cleanupWs (s : State) : State :=
  let s := { s.clearTimeout? s.wsRetryTimerId with wsRetryTimerId := none }
  { s.ws.elim s s.close with ws := none }

/-- Cancel the bind timer. -/
def cleanupBindRetry (s : State) : State :=
  { s.clearTimeout? s.bindRetryTimerId with bindRetryTimerId := none }

/-- Refuse and forget the pending requests. -/
def rejectPending (s : State) : State :=
  { s.rejectAll s.pending.entries.reverse with pending := ∅ }

/-- `bus.off` under a `try`. -/
def tryOff (bus : ℕ) (offThrows : Bool) (s : State) : State :=
  if offThrows then s else s.off cfg bus

/-- `bus.unregister` under a `try`. -/
def tryUnregister (bus : ℕ) (unregisterThrows : Bool) (s : State) : State :=
  if unregisterThrows then s else s.unregister bus

/-- Detach from the CommBus, swallowing what the simulator throws. -/
def unhook (offThrows unregisterThrows : Bool) (s : State) : State :=
  match s.commBus, s.onWasmHandler with
  | some bus, some _ => (s.tryOff cfg bus offThrows).tryUnregister bus unregisterThrows
  | _, _ => s

/-- `destroy`. In the TypeScript relay `unregister` may throw and cut the rest off; the
ReScript relay goes on, and forgets its handler. -/
def destroy (offThrows unregisterThrows : Bool) (s : State) : State :=
  match impl with
  | .typescript =>
    let s := s.rejectPending.cleanupBindRetry
    match s.commBus with
    | none => { s with commBus := none, commBusBound := false }.cleanupWs
    | some bus =>
      let s := s.tryOff cfg bus offThrows
      if unregisterThrows then s
      else { s.unregister bus with commBus := none, commBusBound := false }.cleanupWs
  | .rescript =>
    let s := s.rejectPending.unhook cfg offThrows unregisterThrows
    { s with
      commBus := none, commBusBound := false, onWasmHandler := none }.cleanupBindRetry.cleanupWs

/-- Change socket `i`. -/
def setSocket (i : ℕ) (f : Socket → Socket) (s : State) : State :=
  { s with sockets := Function.update s.sockets i (f (s.sockets i)) }

/-- Bind on the current handle, if there is one. -/
def rebind (onThrows : Bool) (s : State) : State :=
  match s.commBus with
  | none => s
  | some bus => s.bindCommBus cfg bus onThrows

/-- The callback of a timer that has just fired. -/
def onTimer (callback : TimerCallback) (onThrows socketThrows : Bool) (s : State) : State :=
  match callback with
  | .bindRetry =>
    ({ s with bindRetryTimerId := none }.rebind cfg onThrows).scheduleBindRetry cfg
  | .wsRetry => { s with wsRetryTimerId := none }.connectWs cfg socketThrows
  | .request requestId cmdId => s.onRequestTimeout requestId cmdId

/-- The steps of a relay; `none` when the event cannot happen, or its callback never
returns. -/
def step (s : State) : RelayEvent → Option State
  | .init socketThrows onThrows => some (s.init impl cfg socketThrows onThrows)
  | .destroy offThrows unregisterThrows => some (s.destroy impl cfg offThrows unregisterThrows)
  | .continuation bus onThrows =>
    if bus < s.nextBus then some (s.bindCommBus cfg bus onThrows) else none
  | .timer id onThrows socketThrows =>
    (s.timers.lookup id).map fun t =>
      (s.clearTimeout id).onTimer cfg t.callback onThrows socketThrows
  | .socketOpen i now =>
    if i < s.nextSocket ∧ (s.sockets i).opened = false then
      some ((s.setSocket i fun k => { k with
        opened := true
        readyState := if k.readyState = .connecting then .open else k.readyState }).onOpen cfg now)
    else none
  | .socketMessage i data now onThrows callThrows =>
    if i < s.nextSocket ∧ (s.sockets i).opened = true then
      s.onHostMessage impl cfg data now onThrows callThrows
    else none
  | .socketError i =>
    if i < s.nextSocket ∧ (s.sockets i).readyState = .closed ∧ (s.sockets i).errored = false then
      some ((s.setSocket i fun k => { k with errored := true }).onLost cfg)
    else none
  | .socketClose i =>
    if i < s.nextSocket ∧ (s.sockets i).readyState = .closed ∧ (s.sockets i).closed = false then
      some ((s.setSocket i fun k => { k with closed := true }).onLost cfg)
    else none
  | .socketDrop i =>
    if i < s.nextSocket ∧ (s.sockets i).readyState ≠ .closed then
      some (s.setSocket i fun k => { k with readyState := .closed })
    else none
  | .wasmMessage raw =>
    if s.listeners = [] then none
    else some ({ s with heard := s.heard ++ [raw] }.onWasmMessage impl raw)
  | .callRejected n reason =>
    (s.calls.lookup n).map fun c => { s with calls := s.calls.erase n }.onCallRejected impl c reason

end State

end InfinityBridge.Relay
