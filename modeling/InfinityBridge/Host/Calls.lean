import InfinityBridge.Library.Transition
import InfinityBridge.Host.Hub

/-!
# Concurrent commands

Any number of `Hub::command` calls run next to acks being dispatched and to every
other hub operation. A call is at one of its await points, and each step takes
one task from one await point to the next: a locked section, a poll of the timeout
or the send of an ack. A future can be dropped wherever it awaits.

`dispatch_ack` removes the sender under the lock and sends after releasing it, so
a dispatch takes two steps. A call that gives up after it has taken the clients
lock keeps the guard while it waits for the pending lock.
-/

namespace InfinityBridge.Host

/-- Where a `command` call is. -/
inductive Pc where
  | idle
  /-- About to lock `pending` to insert the sender. -/
  | created
  /-- About to lock `clients` to deliver the frame. -/
  | inserted
  /-- Holding the clients guard, about to lock `pending` to give up. -/
  | refusing (e : BridgeError)
  /-- Awaiting the ack until the deadline. -/
  | waiting (deadline : Instant)
  /-- About to lock `pending` for the final removal. -/
  | removing (r : AckResult)
  | finished (r : Except BridgeError Value)
  /-- The caller dropped the future. -/
  | cancelled

/-- The local variables of a `command` call. -/
structure Call where
  name : Option String
  payload : Value
  timeout : Duration
  /-- The value in the oneshot channel. -/
  rx : Option AckPayload
  pc : Pc

/-- The calls, the dispatches between their two steps, and the hub. -/
structure Calls where
  hub : Hub
  calls : ℕ → Call
  /-- The sender a dispatch has taken out of `pending`, and the ack it will send. -/
  dispatching : Table ℕ (ℕ × AckPayload)
  /-- The call that holds the clients guard across an await. -/
  guard : Option ℕ
  now : Instant

def Calls.init : Calls where
  hub := Hub.new
  calls := fun _ => ⟨none, .null, 0, none, .idle⟩
  dispatching := ∅
  guard := none
  now := 0

/-- One step of one task. The client operations are those of any connection. -/
inductive CallEvent where
  | start (c : ℕ) (name : Option String) (payload : Value) (timeout : Duration)
  | insert (c : ℕ)
  | deliver (c : ℕ)
  | refuse (c : ℕ)
  | poll (c : ℕ)
  | remove (c : ℕ)
  | drop (c : ℕ)
  | takeAck (d : ℕ) (a : AckPayload)
  | sendAck (d : ℕ)
  | register (tx : ℕ)
  | unregister (id : ℕ)
  | touch (id : ℕ)
  | hello (id : ℕ) (h : HelloPayload)
  | ready (id : ℕ) (b : Bool)
  | reap (now : Instant) (timeout : Duration)
  | event (e : EventPayload)
  | emit (name : String) (data : Value)
  | sendTo (id : ℕ) (json : Text)
  | writerEnds (tx : ℕ)
  | writerSends (tx : ℕ)
  | tick (d : Duration)

namespace Calls

/-- Put call `c` at a program point. -/
def setPc (s : Calls) (c : ℕ) (pc : Pc) : Calls :=
  { s with calls := Function.update s.calls c { s.calls c with pc } }

/-- Whether the sender of call `c` has been dropped: it is neither in `pending` nor
held by a dispatch. -/
def senderGone (s : Calls) (c : ℕ) : Bool :=
  !s.hub.pending.values.contains c && !(s.dispatching.values.map Prod.fst).contains c

/-- A poll of the timeout future: the oneshot first, then the delay. -/
def pollResult (s : Calls) (c : ℕ) (deadline : Instant) : Option AckResult :=
  match (s.calls c).rx with
  | some a => some (.ack a)
  | none =>
    if s.senderGone c then some .dropped
    else if deadline ≤ s.now then some .elapsed
    else none

/-- Sending on the oneshot of call `c` has an effect while its receiver lives. -/
def receiverAlive (s : Calls) (c : ℕ) : Bool :=
  match (s.calls c).pc with
  | .inserted | .refusing _ | .waiting _ => true
  | _ => false

/-- The client operations need the clients lock. -/
def locked (s : Calls) (f : Hub → Hub) : Option Calls :=
  if s.guard = none then some { s with hub := f s.hub } else none

variable (uuid : ℕ → String)

/-- The steps of the system; `uuid c` is the id that call `c` draws. -/
def step (s : Calls) : CallEvent → Option Calls
  | .start c name payload timeout =>
    match (s.calls c).pc with
    | .idle => some { s with
        calls := Function.update s.calls c ⟨name, payload, timeout, none, .created⟩ }
    | _ => none
  | .insert c =>
    match (s.calls c).pc with
    | .created => some ({ s with hub := s.hub.insertPending (uuid c) c }.setPc c .inserted)
    | _ => none
  | .deliver c =>
    match (s.calls c).pc with
    | .inserted =>
      if s.guard = none then
        match s.hub.deliver (commandFrame (uuid c) (s.calls c).name (s.calls c).payload) with
        | .error e => some ({ s with guard := some c }.setPc c (.refusing e))
        | .ok hub => some ({ s with hub }.setPc c (.waiting (s.now + (s.calls c).timeout)))
      else none
    | _ => none
  | .refuse c =>
    match (s.calls c).pc with
    | .refusing e => some
        ({ s with hub := s.hub.removePending (uuid c), guard := none }.setPc c
          (.finished (.error e)))
    | _ => none
  | .poll c =>
    match (s.calls c).pc with
    | .waiting deadline => (s.pollResult c deadline).map fun r => s.setPc c (.removing r)
    | _ => none
  | .remove c =>
    match (s.calls c).pc with
    | .removing r => some
        ({ s with hub := s.hub.removePending (uuid c) }.setPc c
          (.finished (commandOutcome (s.calls c).timeout r)))
    | _ => none
  | .drop c =>
    match (s.calls c).pc with
    | .refusing _ => some ({ s with guard := none }.setPc c .cancelled)
    | .created | .inserted | .waiting _ | .removing _ => some (s.setPc c .cancelled)
    | _ => none
  | .takeAck d a =>
    if d ∈ s.dispatching then none
    else
      match s.hub.pending.lookup a.id with
      | none => some s
      | some c => some { s with
          hub := s.hub.removePending a.id
          dispatching := s.dispatching.insert d (c, a) }
  | .sendAck d =>
    match s.dispatching.lookup d with
    | none => none
    | some (c, a) => some { s with
        dispatching := s.dispatching.erase d
        calls := if s.receiverAlive c then
            Function.update s.calls c { s.calls c with rx := some a }
          else s.calls }
  | .register tx => s.locked fun h => h.fetchAddId.2.insertClient h.fetchAddId.1 tx s.now
  | .unregister id => s.locked (·.unregisterClient id)
  | .touch id => s.locked (·.touchClient id s.now)
  | .hello id h => s.locked (·.setClientHello id h)
  | .ready id b => s.locked (·.setClientReady id b)
  | .reap now timeout =>
    if now ≤ s.now then s.locked fun h => (h.reapDeadClients now timeout).2 else none
  | .event e => some { s with hub := s.hub.dispatchEvent e }
  | .emit name data => s.locked fun h => (h.emit name data).2
  | .sendTo id json => s.locked fun h => (h.sendTo id json).toOption.getD h
  | .writerEnds tx => some { s with hub := s.hub.closeChannel tx }
  | .writerSends tx => some { s with hub := s.hub.popChannel tx }
  | .tick d => some { s with now := s.now + d }

variable {uuid : ℕ → String} {s t : Calls}

/-- A call that moves on is otherwise the same. -/
@[simp] theorem setPc_calls_self (s : Calls) (c : ℕ) (pc : Pc) :
    (s.setPc c pc).calls c = { s.calls c with pc } := by
  simp [setPc]

/-- The other calls stay where they are. -/
theorem setPc_calls_ne (s : Calls) {c c' : ℕ} (h : c' ≠ c) (pc : Pc) :
    (s.setPc c pc).calls c' = s.calls c' := by
  simp [setPc, h]

/-- A call that moves on does not touch the hub. -/
@[simp] theorem setPc_hub (s : Calls) (c : ℕ) (pc : Pc) : (s.setPc c pc).hub = s.hub := rfl

/-- Nor the acks that are being dispatched. -/
@[simp] theorem setPc_dispatching (s : Calls) (c : ℕ) (pc : Pc) :
    (s.setPc c pc).dispatching = s.dispatching := rfl

/-- The part of the state that carries acks: the pending map, the dispatches and
the calls. -/
def SameCalls (s t : Calls) : Prop :=
  t.hub.pending = s.hub.pending ∧ t.dispatching = s.dispatching ∧ t.calls = s.calls

/-- A client operation that leaves the pending map alone leaves the calls alone. -/
theorem sameCalls_of_locked {f : Hub → Hub} (hstep : s.locked f = some t)
    (hf : ∀ h, (f h).pending = h.pending) : SameCalls s t := by
  unfold locked at hstep
  split_ifs at hstep
  cases hstep
  exact ⟨hf s.hub, rfl, rfl⟩

/-- The events that are neither a step of a call nor of a dispatch. -/
def isOther : CallEvent → Bool
  | .start .. | .insert _ | .deliver _ | .refuse _ | .poll _ | .remove _ | .drop _
  | .takeAck .. | .sendAck _ => false
  | _ => true

/-- Everything but the steps of calls and dispatches leaves the calls alone. -/
theorem sameCalls_of_isOther {e : CallEvent} (he : isOther e) (hstep : step uuid s e = some t) :
    SameCalls s t := by
  cases e with
  | start | insert | deliver | refuse | poll | remove | drop | takeAck | sendAck => cases he
  | reap now timeout =>
    simp only [step] at hstep
    split_ifs at hstep
    exact sameCalls_of_locked hstep fun _ => rfl
  | emit name data =>
    simp only [step] at hstep
    exact sameCalls_of_locked hstep fun h => (h.emit_frame name data).pending
  | sendTo id json =>
    simp only [step] at hstep
    exact sameCalls_of_locked hstep fun h =>
      (Hub.onlyQueues_getD fun _ hok => Hub.sendTo_frame hok).pending
  | register | unregister | touch | hello | ready =>
    simp only [step] at hstep
    exact sameCalls_of_locked hstep fun _ => rfl
  | event | writerEnds | writerSends | tick =>
    simp only [step, Option.some.injEq] at hstep
    subst hstep
    exact ⟨rfl, rfl, rfl⟩

/-- The pending map after an event, given the one before it. -/
def pendingAfter (uuid : ℕ → String) (m : Table String ℕ) : CallEvent → Table String ℕ
  | .insert c => m.insert (uuid c) c
  | .refuse c | .remove c => m.erase (uuid c)
  | .takeAck _ a => m.erase a.id
  | _ => m

/-- The dispatches between their two steps after an event. -/
def dispatchingAfter (s : Calls) : CallEvent → Table ℕ (ℕ × AckPayload)
  | .takeAck d a =>
    match s.hub.pending.lookup a.id with
    | none => s.dispatching
    | some c => s.dispatching.insert d (c, a)
  | .sendAck d => s.dispatching.erase d
  | _ => s.dispatching

/-- The channel of a call after an event that is not a step of the call. -/
def rxAfter (s : Calls) (c : ℕ) : CallEvent → Option AckPayload
  | .sendAck d =>
    match s.dispatching.lookup d with
    | some (c', a) => if c' = c ∧ s.receiverAlive c then some a else (s.calls c).rx
    | none => (s.calls c).rx
  | _ => (s.calls c).rx

/-- What a step does to the pending map. -/
theorem pending_step {e : CallEvent} (hstep : step uuid s e = some t) :
    t.hub.pending = pendingAfter uuid s.hub.pending e := by
  cases e with
  | start | insert | refuse | remove | drop =>
    simp only [step] at hstep
    split at hstep <;> cases hstep <;> rfl
  | deliver c =>
    simp only [step] at hstep
    split at hstep
    · split_ifs at hstep
      split at hstep <;> cases hstep
      · rfl
      · next hok => exact (Hub.deliver_frame hok).pending
    · cases hstep
  | poll c =>
    simp only [step] at hstep
    split at hstep
    · obtain ⟨r, _, rfl⟩ := Option.map_eq_some_iff.mp hstep
      rfl
    · cases hstep
  | takeAck d a =>
    simp only [step] at hstep
    split_ifs at hstep
    split at hstep <;> cases hstep
    · next hnone => exact (Table.erase_of_lookup_eq_none hnone).symm
    · rfl
  | sendAck d =>
    simp only [step] at hstep
    split at hstep <;> cases hstep
    rfl
  | _ => exact (sameCalls_of_isOther rfl hstep).1

/-- What a step does to the dispatches. -/
theorem dispatching_step {e : CallEvent} (hstep : step uuid s e = some t) :
    t.dispatching = s.dispatchingAfter e := by
  cases e with
  | start | insert | refuse | remove | drop =>
    simp only [step] at hstep
    split at hstep <;> cases hstep <;> rfl
  | deliver c =>
    simp only [step] at hstep
    split at hstep
    · split_ifs at hstep
      split at hstep <;> cases hstep <;> rfl
    · cases hstep
  | poll c =>
    simp only [step] at hstep
    split at hstep
    · obtain ⟨r, _, rfl⟩ := Option.map_eq_some_iff.mp hstep
      rfl
    · cases hstep
  | takeAck d a =>
    simp only [step] at hstep
    split_ifs at hstep
    split at hstep <;> cases hstep <;> simp only [dispatchingAfter, *]
  | sendAck d =>
    simp only [step] at hstep
    split at hstep <;> cases hstep
    rfl
  | _ => exact (sameCalls_of_isOther rfl hstep).2.1

/-- The call an event belongs to, if it is a step of a call. -/
def caller : CallEvent → Option ℕ
  | .start c .. | .insert c | .deliver c | .refuse c | .poll c | .remove c | .drop c => some c
  | _ => none

/-- Other tasks change nothing in call `c` but its channel. -/
theorem call_step_other {c : ℕ} {e : CallEvent} (hstep : step uuid s e = some t)
    (hcaller : caller e ≠ some c) : t.calls c = { s.calls c with rx := s.rxAfter c e } := by
  cases e with
  | start c' =>
    have hc : c ≠ c' := fun h => hcaller (by rw [h, caller])
    simp only [step] at hstep
    split at hstep <;> cases hstep
    exact Function.update_of_ne hc _ _
  | insert c' | refuse c' | remove c' | drop c' =>
    have hc : c ≠ c' := fun h => hcaller (by rw [h, caller])
    simp only [step] at hstep
    split at hstep <;> cases hstep <;> exact setPc_calls_ne _ hc _
  | deliver c' =>
    have hc : c ≠ c' := fun h => hcaller (by rw [h, caller])
    simp only [step] at hstep
    split at hstep
    · split_ifs at hstep
      split at hstep <;> cases hstep <;> exact setPc_calls_ne _ hc _
    · cases hstep
  | poll c' =>
    have hc : c ≠ c' := fun h => hcaller (by rw [h, caller])
    simp only [step] at hstep
    split at hstep
    · obtain ⟨r, _, rfl⟩ := Option.map_eq_some_iff.mp hstep
      exact setPc_calls_ne _ hc _
    · cases hstep
  | takeAck d a =>
    simp only [step] at hstep
    split_ifs at hstep
    split at hstep <;> cases hstep <;> rfl
  | sendAck d =>
    simp only [step] at hstep
    split at hstep
    · cases hstep
    · next c' a hlook =>
      cases hstep
      by_cases hc : c = c'
      · subst hc
        by_cases halive : s.receiverAlive c = true <;> simp [rxAfter, hlook, halive]
      · by_cases halive : s.receiverAlive c' = true <;>
          simp [rxAfter, hlook, halive, hc, Ne.symm hc]
  | _ =>
    rw [(sameCalls_of_isOther rfl hstep).2.2]
    rfl

end Calls

end InfinityBridge.Host
