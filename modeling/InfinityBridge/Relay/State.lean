import InfinityBridge.Library.Table
import InfinityBridge.Relay.Dedup
import InfinityBridge.Relay.Messages

/-!
# The relay and its runtime

The fields of a relay object beside the parts of the script runtime that it uses:
timers, sockets, CommBus handles and calls. The last fields record the history. A
callback runs to its end before the next one starts; the functions here are the
parts callbacks are made of.
-/

namespace InfinityBridge.Relay

/-- The `hello` member of the configuration. -/
structure HelloConfig where
  client : Option String
  aircraft : Option String
  tail : Option String
  session : Option String
  metadata : Option Value

/-- `BridgeRelayConfig`. -/
structure Config where
  wsUrl : String
  callEvent : String
  responseEvent : String
  hello : Option HelloConfig
  dedupCapacity : Option ℤ
  reconnectMs : Option ℤ
  protocolVersion : Option Number
  requestTimeoutMs : Option ℤ
  bindRetryMs : Option ℤ

/-- The configuration with its defaults. -/
structure ResolvedConfig where
  wsUrl : String
  callEvent : String
  responseEvent : String
  hello : HelloConfig
  dedupCapacity : ℤ
  reconnectMs : ℤ
  protocolVersion : Number
  requestTimeoutMs : ℤ
  bindRetryMs : ℤ

def resolveConfig (c : Config) : ResolvedConfig where
  wsUrl := c.wsUrl
  callEvent := c.callEvent
  responseEvent := c.responseEvent
  hello := c.hello.getD ⟨some "msfs-gauge", none, none, none, none⟩
  dedupCapacity := c.dedupCapacity.getD 128
  reconnectMs := c.reconnectMs.getD 1000
  protocolVersion := c.protocolVersion.getD (.posInt 1 (by decide))
  requestTimeoutMs := c.requestTimeoutMs.getD 2500
  bindRetryMs := c.bindRetryMs.getD 1000

/-- The configuration of a relay that keeps every default. -/
def defaultConfig : ResolvedConfig :=
  resolveConfig ⟨"ws://127.0.0.1", "call", "response", none, none, none, none, none, none⟩

/-- What a timer runs. -/
inductive TimerCallback where
  | bindRetry
  | wsRetry
  | request (requestId : String) (cmdId : Option Value)

structure Timer where
  callback : TimerCallback
  delay : ℤ

inductive ReadyState where
  | connecting
  | open
  | closing
  | closed
  deriving DecidableEq

/-- A socket, and which of its events have been delivered. -/
structure Socket where
  url : String
  readyState : ReadyState
  opened : Bool
  errored : Bool
  closed : Bool

/-- An entry of `pending`; `resolve` and `reject` close over the command's id. -/
structure PendingRequest where
  cmdId : Option Value
  timerId : ℕ

/-- A CommBus call whose promise is not settled. -/
structure BusCall where
  bus : ℕ
  event : String
  text : Text
  requestId : String
  /-- Whether a rejection is answered, as it is for commands. -/
  command : Bool

/-- A handler registered on a CommBus handle. -/
structure Listener where
  bus : ℕ
  event : String
  handler : ℕ
  deriving DecidableEq

/-- What a frame was sent for. -/
inductive Origin where
  | hello
  | ready
  | pong
  | forwarded
  | duplicate
  /-- The answer to the command with this request id, and whether it is a refusal of
  the relay's own and not what a WASM module responded. -/
  | answer (requestId : String) (own : Bool)
  deriving DecidableEq

/-- A frame handed to `wsSend`, and the socket that took it. -/
structure Sent where
  origin : Origin
  frame : Text
  socket : Option ℕ

/-- A relay with its runtime and its history. -/
structure State where
  commBus : Option ℕ
  commBusBound : Bool
  bindRetryTimerId : Option ℕ
  ws : Option ℕ
  wsRetryTimerId : Option ℕ
  pending : Table String PendingRequest
  requestSeq : ℤ
  dedup : DedupRing Key
  onWasmHandler : Option ℕ
  timers : Table ℕ Timer
  nextTimer : ℕ
  sockets : ℕ → Socket
  nextSocket : ℕ
  nextBus : ℕ
  nextHandler : ℕ
  listeners : List Listener
  calls : Table ℕ BusCall
  nextCall : ℕ
  nextRef : ℕ
  /-- Everything handed to `wsSend`, oldest first. -/
  sent : List Sent
  /-- The commands that were not duplicates, with their request ids. -/
  accepted : List (String × Option Value)
  /-- The ids of the duplicates. -/
  copies : List (Option Value)
  /-- The requests whose answer could not be turned into an ack. -/
  lost : List String
  /-- How many request ids have been drawn. -/
  requests : ℕ
  /-- The texts received on the CommBus. -/
  heard : List Text

/-- The constructor. The ReScript relay has no handler before `init`. -/
def make (impl : Impl) (cfg : ResolvedConfig) : State where
  commBus := none
  commBusBound := false
  bindRetryTimerId := none
  ws := none
  wsRetryTimerId := none
  pending := ∅
  requestSeq := 0
  dedup := .make cfg.dedupCapacity
  onWasmHandler := match impl with
    | .typescript => some 0
    | .rescript => none
  timers := ∅
  nextTimer := 1
  sockets := fun _ => ⟨"", .closed, false, false, false⟩
  nextSocket := 0
  nextBus := 0
  nextHandler := 1
  listeners := []
  calls := ∅
  nextCall := 0
  nextRef := 0
  sent := []
  accepted := []
  copies := []
  lost := []
  requests := 0
  heard := []

namespace State

/-- The socket that would take a frame. -/
def openSocket (s : State) : Option ℕ :=
  s.ws.filter fun i => (s.sockets i).readyState = .open

def wsSend (s : State) (origin : Origin) (frame : Text) : State :=
  { s with sent := s.sent ++ [Sent.mk origin frame s.openSocket] }

def setTimeout (s : State) (callback : TimerCallback) (delay : ℤ) : ℕ × State :=
  (s.nextTimer, { s with
    timers := s.timers.insert s.nextTimer (Timer.mk callback delay)
    nextTimer := s.nextTimer + 1 })

def clearTimeout (s : State) (id : ℕ) : State := { s with timers := s.timers.erase id }

/-- `clearTimeout` of an id that may be missing. -/
def clearTimeout? (s : State) (id : Option ℕ) : State := id.elim s s.clearTimeout

/-- The event that announces whether the listener is attached. -/
def readyFrame (bound : Bool) : Json Number :=
  .obj [("t", .str "event"), ("name", .str "__bridge_ready"),
    ("data", .obj [("ready", .bool bound)])]

def sendReady (s : State) : State := s.wsSend .ready (.doc (readyFrame s.commBusBound))

/-- `bindCommBus`; `onThrows` says whether `bus.on` throws. -/
def bindCommBus (cfg : ResolvedConfig) (bus : ℕ) (onThrows : Bool) (s : State) : State :=
  if s.commBusBound then s
  else
    match s.onWasmHandler with
    | none => s
    | some h =>
      if onThrows then s
      else { s with
        listeners := s.listeners ++ [Listener.mk bus cfg.responseEvent h]
        commBusBound := true }.sendReady

def scheduleBindRetry (cfg : ResolvedConfig) (s : State) : State :=
  if s.commBusBound then s
  else
    match s.bindRetryTimerId with
    | some _ => s
    | none =>
      let r := s.setTimeout .bindRetry cfg.bindRetryMs
      { r.2 with bindRetryTimerId := some r.1 }

def scheduleWsReconnect (cfg : ResolvedConfig) (s : State) : State :=
  match s.wsRetryTimerId with
  | some _ => s
  | none =>
    let r := s.setTimeout .wsRetry cfg.reconnectMs
    { r.2 with wsRetryTimerId := some r.1 }

/-- Whether `ws` is connecting or open. -/
def alreadyActive (s : State) : Bool :=
  match s.ws with
  | some i => (s.sockets i).readyState = .open || (s.sockets i).readyState = .connecting
  | none => false

/-- `connectWs`; `socketThrows` says whether `new WebSocket` throws. -/
def connectWs (cfg : ResolvedConfig) (socketThrows : Bool) (s : State) : State :=
  if s.alreadyActive then s
  else if socketThrows then { s with ws := none }.scheduleWsReconnect cfg
  else { s with
    sockets := Function.update s.sockets s.nextSocket ⟨cfg.wsUrl, .connecting, false, false, false⟩
    nextSocket := s.nextSocket + 1
    ws := some s.nextSocket }

/-- `nextRequestId`: the clock reading and the counter. -/
def nextRequestId (impl : Impl) (now : TimeValue) (s : State) : String × State :=
  let seq := impl.succ s.requestSeq
  (toString now.millis ++ "-" ++ toString seq,
    { s with requestSeq := seq, requests := s.requests + 1 })

/-- `bus.call`, which throws or returns a promise. -/
def call (cfg : ResolvedConfig) (bus : ℕ) (requestId : String) (payload : Value) (command : Bool)
    (callThrows : Bool) (s : State) : State :=
  if callThrows then s
  else { s with
    calls := s.calls.insert s.nextCall
      (BusCall.mk bus cfg.callEvent (.doc (envelope requestId payload)) requestId command)
    nextCall := s.nextCall + 1 }

/-- Take a request out of `pending` and disarm its timer. -/
def take (requestId : String) (p : PendingRequest) (s : State) : State :=
  { s with pending := s.pending.erase requestId }.clearTimeout p.timerId

/-- Send the answer that a WASM module has given to a command. -/
def sendAnswer (requestId : String) (ack : Value) (s : State) : State :=
  s.wsSend (.answer requestId false) (.doc ack)

/-- Refuse a command. -/
def refuse (requestId : String) (cmdId : Option Value) (message : String) (s : State) : State :=
  s.wsSend (.answer requestId true) (.doc (rejectAck cmdId (.str message)))

end State

end InfinityBridge.Relay
