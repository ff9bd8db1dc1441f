import InfinityBridge.Library.Table
import InfinityBridge.Wire.Error
import InfinityBridge.Wire.Msg

/-!
# The hub

The state shared by all connections and callers of the host, and the operations
on it. Each definition here is one locked section of `hub.rs`, or a part of one
between two await points; how the sections of concurrent tasks interleave is
the subject of the files that use them. The channel behind a client's `tx` is kept
beside the client table, since it outlives the client's entry.
-/

namespace InfinityBridge.Host

/-- `std::time::Duration`, in nanoseconds. -/
abbrev Duration := ℕ

/-- `tokio::time::Instant`, in nanoseconds from the start of the process. -/
abbrev Instant := ℕ

/-- `Client`. -/
structure Client where
  /-- The outbound channel. -/
  tx : ℕ
  hello : Option HelloPayload
  lastSeen : Instant
  ready : Bool

/-- An unbounded mpsc channel whose receiver is a connection's writer task. -/
structure Channel where
  queue : List Text
  /-- The receiver has been dropped, so that `send` fails. -/
  closed : Bool

/-- `Hub`. -/
structure Hub where
  nextId : ℕ
  clients : Table ℕ Client
  /-- The oneshot senders by command id; a sender is named by its call. -/
  pending : Table String ℕ
  /-- What has been sent on `event_tx`, oldest first. -/
  events : List EventPayload
  /-- The value of the `connection_tx` watch channel. -/
  connection : Bool
  channels : ℕ → Channel

/-- `Hub::new`. -/
def Hub.new : Hub where
  nextId := 1
  clients := ∅
  pending := ∅
  events := []
  connection := false
  channels := fun _ => ⟨[], false⟩

/-- `next_id.fetch_add(1)` on an `AtomicU64`: the id taken, and the hub after it. -/
def Hub.fetchAddId (h : Hub) : ℕ × Hub := (h.nextId, { h with nextId := (h.nextId + 1) % 2 ^ 64 })

/-- The locked section of `register_client`. -/
def Hub.insertClient (h : Hub) (id tx : ℕ) (now : Instant) : Hub :=
  { h with
    clients := h.clients.insert id { tx, hello := none, lastSeen := now, ready := false }
    connection := true }

def Hub.setClientHello (h : Hub) (id : ℕ) (hello : HelloPayload) : Hub :=
  { h with clients := h.clients.adjust id fun c => { c with hello := some hello } }

def Hub.unregisterClient (h : Hub) (id : ℕ) : Hub :=
  { h with
    clients := h.clients.erase id
    connection := !Table.isEmpty (h.clients.erase id) }

def Hub.touchClient (h : Hub) (id : ℕ) (now : Instant) : Hub :=
  { h with clients := h.clients.adjust id fun c => { c with lastSeen := now } }

/-- The clients `reap_dead_clients` finds dead; `duration_since` saturates at zero,
as subtraction of natural numbers does. -/
def Hub.deadClients (h : Hub) (now : Instant) (timeout : Duration) : List ℕ :=
  (h.clients.entries.filter fun e => decide (timeout < now - e.2.lastSeen)).map Sigma.fst

/-- The locked section of `reap_dead_clients`; `now` was sampled before it. -/
def Hub.reapDeadClients (h : Hub) (now : Instant) (timeout : Duration) : List ℕ × Hub :=
  let dead := h.deadClients now timeout
  let clients := h.clients.eraseAll dead
  (dead, { h with
    clients
    connection := if dead.isEmpty then h.connection else !clients.isEmpty })

def Hub.setClientReady (h : Hub) (id : ℕ) (ready : Bool) : Hub :=
  { h with clients := h.clients.adjust id fun c => { c with ready } }

def Hub.isConnected (h : Hub) : Bool := !h.clients.isEmpty

def Hub.isReady (h : Hub) : Bool := h.clients.values.any (·.ready)

def Hub.dispatchEvent (h : Hub) (event : EventPayload) : Hub :=
  { h with events := h.events ++ [event] }

/-- `tx.send(json)`: `none` when the receiver is gone. -/
def Hub.send (h : Hub) (tx : ℕ) (json : Text) : Option Hub :=
  if (h.channels tx).closed then none
  else some { h with
    channels := Function.update h.channels tx
      { h.channels tx with queue := (h.channels tx).queue ++ [json] } }

/-- The receiver of a channel is dropped, and what is queued with it: its writer task ends. The
frame that the task could not send counts as queued. -/
def Hub.closeChannel (h : Hub) (tx : ℕ) : Hub :=
  { h with channels := Function.update h.channels tx ⟨[], true⟩ }

/-- The writer task takes the next frame off its channel. -/
def Hub.popChannel (h : Hub) (tx : ℕ) : Hub :=
  { h with
    channels := Function.update h.channels tx
      { h.channels tx with queue := (h.channels tx).queue.tail } }

/-- The loop of `emit`: enqueue on every client and count the failures. -/
def Hub.sendAll (json : Text) : List Client → Hub × ℕ → Hub × ℕ
  | [], r => r
  | c :: cs, (h, failures) =>
    match h.send c.tx json with
    | some h' => sendAll json cs (h', failures)
    | none => sendAll json cs (h, failures + 1)

/-- `Hub::emit`. -/
def Hub.emit (h : Hub) (name : String) (data : Value) : Except BridgeError Unit × Hub :=
  if h.clients.isEmpty then (.error (.noClients "no gauges connected — event dropped"), h)
  else
    let r := Hub.sendAll (WireMsg.event ⟨name, data⟩).toJson h.clients.values (h, 0)
    if r.2 > 0 ∧ r.2 = h.clients.values.length then
      (.error (.transport "all gauge connections failed to accept event"), r.1)
    else (.ok (), r.1)

/-- `Hub::send_to`. -/
def Hub.sendTo (h : Hub) (clientId : ℕ) (json : Text) : Except BridgeError Hub :=
  match h.clients.lookup clientId with
  | none => .error (.transport ("client " ++ toString clientId ++ " not found"))
  | some client =>
    match h.send client.tx json with
    | none => .error (.transport ("client " ++ toString clientId ++ " channel closed"))
    | some h' => .ok h'

/-! ### The sections of `command` -/

/-- The frame of a command. -/
def commandFrame (id : String) (name : Option String) (payload : Value) : Text :=
  (WireMsg.cmd ⟨id, name, payload⟩).toJson

/-- Insert the oneshot sender of a call. -/
def Hub.insertPending (h : Hub) (id : String) (call : ℕ) : Hub :=
  { h with pending := h.pending.insert id call }

/-- Remove a oneshot sender. -/
def Hub.removePending (h : Hub) (id : String) : Hub := { h with pending := h.pending.erase id }

/-- The delivery loop: enqueue on every client, passing over clients that are not
ready when some client is, and count the deliveries. -/
def Hub.deliverAll (json : Text) (anyReady : Bool) : List Client → Hub × ℕ → Hub × ℕ
  | [], r => r
  | c :: cs, (h, delivered) =>
    if anyReady && !c.ready then deliverAll json anyReady cs (h, delivered)
    else
      match h.send c.tx json with
      | some h' => deliverAll json anyReady cs (h', delivered + 1)
      | none => deliverAll json anyReady cs (h, delivered)

/-- The block of `command` under the clients lock, up to its early returns. -/
def Hub.deliver (h : Hub) (json : Text) : Except BridgeError Hub :=
  if h.clients.isEmpty then .error (.noClients "no gauges connected — cannot send command")
  else
    let r := Hub.deliverAll json h.isReady h.clients.values (h, 0)
    if r.2 = 0 then .error (.transport "no gauge connection accepted the command") else .ok r.1

/-- What awaiting the oneshot receiver under a timeout returns. -/
inductive AckResult where
  | ack (a : AckPayload)
  /-- The sender was dropped without a value. -/
  | dropped
  | elapsed

/-- The digits of a fraction, cut after the last one that is not zero. -/
def fractionDigits (fraction width : ℕ) : String :=
  let digits := (toString fraction).toList
  let padded := List.replicate (width - digits.length) '0' ++ digits
  String.ofList (padded.reverse.dropWhile (· == '0')).reverse

/-- A whole part, a fraction of `width` digits unless it is zero, and a unit. -/
def formatDecimal (whole fraction width : ℕ) (unit : String) : String :=
  if fraction = 0 then toString whole ++ unit
  else toString whole ++ "." ++ fractionDigits fraction width ++ unit

/-- The `Debug` form of a duration, such as `3s` or `2.5ms`. -/
def debugDuration (d : Duration) : String :=
  if 10 ^ 9 ≤ d then formatDecimal (d / 10 ^ 9) (d % 10 ^ 9) 9 "s"
  else if 10 ^ 6 ≤ d then formatDecimal (d / 10 ^ 6) (d % 10 ^ 6) 6 "ms"
  else if 10 ^ 3 ≤ d then formatDecimal (d / 10 ^ 3) (d % 10 ^ 3) 3 "µs"
  else formatDecimal d 0 0 "ns"

/-- The error of a command that nobody acked in time. -/
def timeoutError (timeout : Duration) : BridgeError :=
  .timeout ("no ack received within " ++ debugDuration timeout)

/-- What `command` makes of the first ack. -/
def ackOutcome (a : AckPayload) : Except BridgeError Value :=
  if a.ok then .ok (a.response.getD .null)
  else .error (.application (a.error.getD "unknown error"))

/-- The final match of `command`. -/
def commandOutcome (timeout : Duration) : AckResult → Except BridgeError Value
  | .ack a => ackOutcome a
  | .dropped => .error (.transport "all gauge connections dropped before ack")
  | .elapsed => .error (timeoutError timeout)

/-! ### What the operations leave alone -/

/-- The hub differs in the queues of its channels only. -/
structure Hub.OnlyQueues (h h' : Hub) : Prop where
  nextId : h'.nextId = h.nextId
  clients : h'.clients = h.clients
  pending : h'.pending = h.pending
  events : h'.events = h.events
  connection : h'.connection = h.connection
  closed : ∀ tx, (h'.channels tx).closed = (h.channels tx).closed

/-- Nothing changes where nothing happens. -/
theorem Hub.OnlyQueues.refl (h : Hub) : h.OnlyQueues h := ⟨rfl, rfl, rfl, rfl, rfl, fun _ => rfl⟩

/-- Two steps in a row that change queues only. -/
theorem Hub.OnlyQueues.trans {h₁ h₂ h₃ : Hub} (h : h₁.OnlyQueues h₂)
    (h' : h₂.OnlyQueues h₃) : h₁.OnlyQueues h₃ :=
  ⟨h'.nextId.trans h.nextId, h'.clients.trans h.clients, h'.pending.trans h.pending,
    h'.events.trans h.events, h'.connection.trans h.connection,
    fun tx => (h'.closed tx).trans (h.closed tx)⟩

/-- Enqueuing one frame. -/
theorem Hub.send_frame {h h' : Hub} {tx : ℕ} {json : Text} (hsend : h.send tx json = some h') :
    h.OnlyQueues h' := by
  unfold Hub.send at hsend
  split_ifs at hsend
  cases hsend
  refine ⟨rfl, rfl, rfl, rfl, rfl, fun tx' => ?_⟩
  by_cases htx : tx' = tx
  · subst htx
    simp
  · simp [htx]

/-- Enqueuing a frame on several channels. -/
theorem Hub.sendAll_frame (json : Text) (cs : List Client) (r : Hub × ℕ) :
    r.1.OnlyQueues (Hub.sendAll json cs r).1 := by
  induction cs generalizing r with
  | nil => exact .refl _
  | cons c cs ih =>
    obtain ⟨h, n⟩ := r
    cases hsend : h.send c.tx json with
    | none =>
      simp only [sendAll, hsend]
      exact ih (h, n + 1)
    | some h' =>
      simp only [sendAll, hsend]
      exact (Hub.send_frame hsend).trans (ih (h', n))

/-- The delivery loop of a command. -/
theorem Hub.deliverAll_frame (json : Text) (anyReady : Bool) (cs : List Client) (r : Hub × ℕ) :
    r.1.OnlyQueues (Hub.deliverAll json anyReady cs r).1 := by
  induction cs generalizing r with
  | nil => exact .refl _
  | cons c cs ih =>
    obtain ⟨h, n⟩ := r
    by_cases hskip : (anyReady && !c.ready) = true
    · simp only [deliverAll, hskip, if_true]
      exact ih (h, n)
    · cases hsend : h.send c.tx json with
      | none =>
        simp only [deliverAll, if_neg hskip, hsend]
        exact ih (h, n)
      | some h' =>
        simp only [deliverAll, if_neg hskip, hsend]
        exact (Hub.send_frame hsend).trans (ih (h', n + 1))

/-- A delivery that succeeds. -/
theorem Hub.deliver_frame {h h' : Hub} {json : Text} (hok : h.deliver json = .ok h') :
    h.OnlyQueues h' := by
  unfold Hub.deliver at hok
  dsimp only at hok
  split_ifs at hok
  cases hok
  exact Hub.deliverAll_frame json h.isReady h.clients.values (h, 0)

/-- `emit`, whatever it returns. -/
theorem Hub.emit_frame (h : Hub) (name : String) (data : Value) :
    h.OnlyQueues (h.emit name data).2 := by
  unfold Hub.emit
  dsimp only
  split_ifs
  · exact .refl _
  all_goals exact Hub.sendAll_frame _ h.clients.values (h, 0)

/-- `send_to`. -/
theorem Hub.sendTo_frame {h h' : Hub} {id : ℕ} {json : Text} (hok : h.sendTo id json = .ok h') :
    h.OnlyQueues h' := by
  unfold Hub.sendTo at hok
  split at hok
  · cases hok
  · split at hok
    · cases hok
    · next hsend =>
      cases hok
      exact Hub.send_frame hsend

/-- A send whose result is not looked at. -/
theorem Hub.onlyQueues_getD {h : Hub} {r : Except BridgeError Hub}
    (hr : ∀ h', r = .ok h' → h.OnlyQueues h') : h.OnlyQueues (r.toOption.getD h) := by
  cases r with
  | error e => exact .refl _
  | ok h' => exact hr h' rfl

end InfinityBridge.Host
