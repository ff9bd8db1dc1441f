import InfinityBridge.Host.Frames
import InfinityBridge.Relay.Traffic
import InfinityBridge.Wasm.Bridge

/-!
# Host, relay and WASM gauge together

One hub, one relay and one WASM bridge, with the WebSockets and the CommBus between
them. Socket `i` of the relay becomes a connection of the host at some time, which then
owns channel `i` of the hub. A WebSocket is a queue in each direction, and is cut at any
time with all that is in it. The CommBus hands over what is on it in any order, each
text once at most, and may lose it. The relay receives frames on its current socket only.
The texts carry their values unchanged, floating-point numbers included: what scripts and
`serde_json` make of a number is the subject of `EndToEnd.Fidelity`.

A frame of the relay that is no ack concerns no call; what it changes in the client
table of the host is an event of the host like any other.
-/

namespace InfinityBridge.EndToEnd

open Relay Wasm

/-- A run of the handler, and the CommBus text that made the bridge run it. -/
structure Invocation where
  raw : Text
  requestId : String
  name : Option String
  payload : Value
  result : Except String Value

structure World where
  host : Host.Calls
  relay : Relay.State
  /-- Which sockets have become connections of the host. -/
  connected : ℕ → Bool
  cut : ℕ → Bool
  /-- The frames on the way to the relay, by socket. -/
  down : ℕ → List Text
  /-- The frames on the way to the host, by socket. -/
  up : ℕ → List Text
  toWasm : List Text
  fromWasm : List Text
  invocations : List Invocation
  /-- The events of the host so far. -/
  history : List Host.CallEvent

def World.init (impl : Impl) (cfg : ResolvedConfig) : World where
  host := Host.Calls.init
  relay := Relay.make impl cfg
  connected := fun _ => false
  cut := fun _ => false
  down := fun _ => []
  up := fun _ => []
  toWasm := []
  fromWasm := []
  invocations := []
  history := []

inductive WorldEvent where
  /-- A step of the host that does not touch a socket. -/
  | host (e : Host.CallEvent)
  | ping (id : ℕ) (ts : Option UInt64)
  | pong (id : ℕ) (ts : Option UInt64)
  /-- The host accepts socket `i` and registers its client. -/
  | accept (i : ℕ)
  /-- The writer task of socket `i` sends the next frame of its channel. -/
  | send (i : ℕ)
  /-- The host receives the next frame on socket `i`; an ack is dispatched as `d`. -/
  | receive (i d : ℕ)
  | cut (i : ℕ)
  /-- A callback of the relay that nothing from outside causes. -/
  | relay (e : RelayEvent)
  /-- The relay receives the next frame on socket `i`. -/
  | deliver (i : ℕ) (now : TimeValue) (onThrows callThrows : Bool)
  /-- The bridge receives the `k`-th CommBus call; `result` is what the handler returns if
  it is run. -/
  | handle (k : ℕ) (result : Except String Value)
  | loseCall (k : ℕ)
  /-- The relay receives the `k`-th text on the response event. -/
  | respond (k : ℕ)
  | loseResponse (k : ℕ)
  /-- `Bridge::emit`. -/
  | emit (name : String) (data : Value)

/-- The events of the host that the world does not take apart. -/
def isInternal : Host.CallEvent → Bool
  | .takeAck .. | .register _ | .writerSends _ | .sendTo .. => false
  | _ => true

/-- Put texts at the end of queue `i`. -/
def push (q : ℕ → List Text) (i : ℕ) (ts : List Text) : ℕ → List Text :=
  Function.update q i (q i ++ ts)

/-- The frames of a callback that socket `i` took. -/
def uploads (s t : Relay.State) (i : ℕ) : List Text :=
  ((t.sent.drop s.sent.length).filter (·.socket = some i)).map (·.frame)

/-- The frames that a step puts on a socket are among those it sends. -/
theorem uploads_append {s t : Relay.State} {fs : List Sent} (hsent : t.sent = s.sent ++ fs)
    (i : ℕ) : uploads s t i = (fs.filter (·.socket = some i)).map (·.frame) := by
  rw [uploads, hsent, List.drop_left]

namespace World

variable (uuid : ℕ → String) (impl : Impl) (cfg : ResolvedConfig)

/-- A step of the host. -/
def hostStep (w : World) (e : Host.CallEvent) : Option World :=
  (Host.Calls.step uuid w.host e).map fun host => { w with host, history := w.history ++ [e] }

/-- A callback of the relay: its frames go on their sockets and its calls on the CommBus. -/
def relayStep (w : World) (e : RelayEvent) : Option World :=
  (State.step impl cfg w.relay e).map fun relay => { w with
    relay
    up := fun i => w.up i ++ if w.cut i then [] else uploads w.relay relay i
    toWasm := w.toWasm ++ State.newCalls w.relay relay }

/-- The bridge dispatches a text, and what it answers goes on the CommBus. -/
def handle (w : World) (raw : Text) (result : Except String Value) : World :=
  match dispatch .exact raw with
  | .command requestId name payload => { w with
      invocations := w.invocations ++ [Invocation.mk raw requestId name payload result]
      fromWasm := w.fromWasm ++ (sendResponse .exact requestId result).toList }
  | .failed requestId message => { w with
      fromWasm := w.fromWasm ++ (sendResponse .exact requestId (.error message)).toList }
  | .event _ | .dropped => w

/-- The steps of the world. -/
def step (w : World) : WorldEvent → Option World
  | .host e => if isInternal e then w.hostStep uuid e else none
  | .ping id ts => w.hostStep uuid (.sendTo id (WireMsg.ping ts).toJson)
  | .pong id ts => w.hostStep uuid (.sendTo id (WireMsg.pong ts).toJson)
  | .accept i =>
    if i < w.relay.nextSocket ∧ w.connected i = false then
      ({ w with connected := Function.update w.connected i true }).hostStep uuid (.register i)
    else none
  | .send i =>
    match (w.host.hub.channels i).queue with
    | [] => none
    | frame :: _ =>
      ({ w with down := push w.down i (if w.cut i then [] else [frame]) }).hostStep uuid
        (.writerSends i)
  | .receive i d =>
    match w.up i with
    | [] => none
    | frame :: frames =>
      let v := { w with up := Function.update w.up i frames }
      match WireMsg.fromJson frame with
      | some (.ack a) => v.hostStep uuid (.takeAck d a)
      | _ => some v
  | .cut i => some { w with
      cut := Function.update w.cut i true
      down := Function.update w.down i []
      up := Function.update w.up i [] }
  | .relay e => if State.isArrival e then none else w.relayStep impl cfg e
  | .deliver i now onThrows callThrows =>
    match w.down i with
    | [] => none
    | frame :: frames =>
      if w.relay.ws = some i then
        ({ w with down := Function.update w.down i frames }).relayStep impl cfg
          (.socketMessage i (some frame) now onThrows callThrows)
      else none
  | .handle k result =>
    w.toWasm[k]?.map fun raw => ({ w with toWasm := w.toWasm.eraseIdx k }).handle raw result
  | .loseCall k => some { w with toWasm := w.toWasm.eraseIdx k }
  | .respond k =>
    w.fromWasm[k]?.bind fun raw =>
      ({ w with fromWasm := w.fromWasm.eraseIdx k }).relayStep impl cfg (.wasmMessage raw)
  | .loseResponse k => some { w with fromWasm := w.fromWasm.eraseIdx k }
  | .emit name data => some { w with
      fromWasm := w.fromWasm ++ [(WireMsg.event ⟨name, data⟩).toJson] }

end World

/-! ### What the texts are -/

/-- The id of a command frame. -/
def commandId (j : Value) : Option String :=
  match WireMsg.fromValue j with
  | some (.cmd p) => some p.id
  | _ => none

/-- The id of the command in a frame. -/
def frameId (t : Text) : Option String := t.jsonParse.bind commandId

/-- The id of the command in a CommBus call. -/
def callId (t : Text) : Option String :=
  (t.jsonParse.bind CommBusEnvelope.fromValue).bind fun envelope => commandId envelope.payload

/-- An envelope is read unless it is nested too deep. -/
theorem fromStr_exact (rid : String) (v : Value) :
    CommBusEnvelope.fromStr .exact (.doc (envelope rid v)) =
      if (envelope rid v).depth < recursionLimit then some ⟨rid, v⟩ else none := by
  have hfields : SerdeJson.exact.fields ["requestId", "payload"] (.doc (envelope rid v)) =
      if v.depth + 1 < recursionLimit then some (.map [("requestId", .str rid), ("payload", v)])
      else none := ofFields_envelope rid v
  simp only [CommBusEnvelope.fromStr, hfields, depth_envelope]
  split_ifs
  · exact CommBusEnvelope.fromBody_map rid v
  · rfl

/-- What the bridge does with an envelope, by the kind of the message in it. -/
theorem dispatch_exact (rid : String) (v : Value) :
    dispatch .exact (.doc (envelope rid v)) =
      if (envelope rid v).depth < recursionLimit then
        match WireMsg.fromValue v with
        | some (.cmd p) => .command rid p.name p.payload
        | some (.event e) => .event e
        | _ => .command rid none v
      else .dropped := by
  by_cases hlimit : (envelope rid v).depth < recursionLimit
  · have hlimit' : v.depth < recursionLimit := by
      rw [depth_envelope] at hlimit
      omega
    have henvelope : CommBusEnvelope.fromStr .exact (.doc (envelope rid v)) = some ⟨rid, v⟩ := by
      rw [fromStr_exact, if_pos hlimit]
    have hpayload : (Text.parse (.doc v)).bind WireMsg.fromValue = WireMsg.fromValue v := by
      rw [Text.parse, if_pos hlimit', Option.bind_some]
    rw [if_pos hlimit, dispatch, henvelope]
    cases hmsg : WireMsg.fromValue v with
    | none => simp only [SerdeJson.exact, hpayload, hmsg]
    | some m => cases m <;> simp only [SerdeJson.exact, hpayload, hmsg]
  · rw [if_neg hlimit, dispatch, fromStr_exact, if_neg hlimit]

/-- The frame of a command carries its id. -/
theorem frameId_cmd (p : CmdPayload) : frameId (WireMsg.cmd p).toJson = some p.id := by
  simp only [frameId, WireMsg.toJson, Text.jsonParse_doc, Option.bind_some, commandId,
    WireMsg.fromValue_toValue, WireMsg.canonical]

/-- A CommBus call carries the id of the command in its payload. -/
theorem callId_envelope (rid : String) (v : Value) :
    callId (.doc (envelope rid v)) = commandId v := by
  simp only [callId, Text.jsonParse_doc, Option.bind_some, envelope,
    CommBusEnvelope.fromValue_obj]

/-- The message of a command has its id. -/
theorem commandId_cmd (p : CmdPayload) : commandId (WireMsg.cmd p).toValue = some p.id := by
  simp only [commandId, WireMsg.fromValue_toValue, WireMsg.canonical]

end InfinityBridge.EndToEnd
