import InfinityBridge.Library.Transition
import InfinityBridge.Host.Hub

/-!
# Waiting for a connection

`wait_connected` looks at the client table under the lock, releases the lock, and
only then creates the future on which it waits. `register_client` inserts its client
and calls `notify_waiters` while it holds the lock; a notification reaches the
futures that exist at that moment and is not kept for later ones.
-/

namespace InfinityBridge.Host

/-- Where a `wait_connected` caller is. -/
inductive Waiter where
  | idle
  /-- About to lock the clients and look. -/
  | checking
  /-- Has seen an empty table, and holds neither the lock nor a future. -/
  | sawEmpty
  /-- Awaits its `Notified` future, which has been notified or not. -/
  | waiting (notified : Bool)
  | returned

/-- Where a `register_client` call is. -/
inductive Registration where
  | idle
  | gotId (id : ℕ)
  /-- Has inserted its client and holds the lock; `notify_waiters` comes next. -/
  | inserted (id : ℕ)
  /-- Has called `notify_waiters` and still holds the lock. -/
  | notified (id : ℕ)
  | returned (id : ℕ)

/-- The callers, the registrations and the hub. -/
structure Waits where
  hub : Hub
  waiters : ℕ → Waiter
  registrations : ℕ → Registration
  /-- The registration that holds the clients lock. -/
  guard : Option ℕ
  now : Instant

def Waits.init : Waits where
  hub := Hub.new
  waiters := fun _ => .idle
  registrations := fun _ => .idle
  guard := none
  now := 0

/-- One step of one task. -/
inductive WaitEvent where
  | call (w : ℕ)
  | check (w : ℕ)
  /-- Create the `Notified` future. -/
  | create (w : ℕ)
  | wake (w : ℕ)
  | drop (w : ℕ)
  | fetchId (r : ℕ)
  | insert (r tx : ℕ)
  | notify (r : ℕ)
  | release (r : ℕ)
  | unregister (id : ℕ)
  | reap (now : Instant) (timeout : Duration)
  | tick (d : Duration)

/-- `notify_waiters`: every future that exists is notified. -/
def Waiter.notify : Waiter → Waiter
  | .waiting _ => .waiting true
  | w => w

namespace Waits

/-- Put caller `w` at a program point. -/
def setWaiter (s : Waits) (w : ℕ) (pc : Waiter) : Waits :=
  { s with waiters := Function.update s.waiters w pc }

/-- Put registration `r` at a program point. -/
def setRegistration (s : Waits) (r : ℕ) (pc : Registration) : Waits :=
  { s with registrations := Function.update s.registrations r pc }

/-- The steps of the system. -/
def step (s : Waits) : WaitEvent → Option Waits
  | .call w =>
    match s.waiters w with
    | .idle => some (s.setWaiter w .checking)
    | _ => none
  | .check w =>
    match s.waiters w with
    | .checking =>
      if s.guard = none then
        some (s.setWaiter w (if s.hub.isConnected then .returned else .sawEmpty))
      else none
    | _ => none
  | .create w =>
    match s.waiters w with
    | .sawEmpty => some (s.setWaiter w (.waiting false))
    | _ => none
  | .wake w =>
    match s.waiters w with
    | .waiting true => some (s.setWaiter w .checking)
    | _ => none
  | .drop w => some (s.setWaiter w .returned)
  | .fetchId r =>
    match s.registrations r with
    | .idle => some ({ s with hub := s.hub.fetchAddId.2 }.setRegistration r
        (.gotId s.hub.fetchAddId.1))
    | _ => none
  | .insert r tx =>
    match s.registrations r with
    | .gotId id =>
      if s.guard = none then
        some ({ s with hub := s.hub.insertClient id tx s.now, guard := some r }.setRegistration r
          (.inserted id))
      else none
    | _ => none
  | .notify r =>
    match s.registrations r with
    | .inserted id => some ({ s with waiters := fun w => (s.waiters w).notify }.setRegistration r
        (.notified id))
    | _ => none
  | .release r =>
    match s.registrations r with
    | .notified id => some ({ s with guard := none }.setRegistration r (.returned id))
    | _ => none
  | .unregister id =>
    if s.guard = none then some { s with hub := s.hub.unregisterClient id } else none
  | .reap now timeout =>
    if s.guard = none ∧ now ≤ s.now then
      some { s with hub := (s.hub.reapDeadClients now timeout).2 }
    else none
  | .tick d => some { s with now := s.now + d }

/-- Some registration has inserted its client and not yet called `notify_waiters`. -/
def Notifying (s : Waits) : Prop := ∃ r id, s.registrations r = .inserted id

/-- A caller waits on a future that has not been notified only while the table is
empty or a notification is still to come. -/
def NoLostWakeUp (s : Waits) : Prop :=
  ∀ w, s.waiters w = .waiting false → s.hub.isConnected = true → s.Notifying

/-- A caller creates its future while the table is still empty, or while a
registration is between its insertion and its notification. -/
def CreatesInTime (s : Waits) : WaitEvent → Prop
  | .create _ => s.hub.isConnected = true → s.Notifying
  | _ => True

variable {s t : Waits} {e : WaitEvent}

/-- A table with a client after a removal had one before it. -/
theorem isConnected_of_eraseAll {h : Hub} (ids : List ℕ) {c : Bool}
    (hc : ({ h with
      clients := h.clients.eraseAll ids, connection := c } : Hub).isConnected = true) :
    h.isConnected = true := by
  by_contra hempty
  simp only [Hub.isConnected, Bool.not_eq_true', Bool.not_eq_false] at hc hempty
  have hall := Table.isEmpty_iff.mp hempty
  have : Table.isEmpty (h.clients.eraseAll ids) = true := by
    rw [Table.isEmpty_iff]
    intro k
    rw [Table.lookup_eraseAll, hall k, ite_self]
  rw [this] at hc
  cases hc

/-- The same for the removal of one client. -/
theorem isConnected_of_unregister {h : Hub} {id : ℕ}
    (hc : (h.unregisterClient id).isConnected = true) : h.isConnected = true :=
  isConnected_of_eraseAll [id] hc

/-- Moving one caller keeps the property when the caller does not come to wait for
a notification that is over. -/
theorem NoLostWakeUp.setWaiter (hs : s.NoLostWakeUp) {w : ℕ} {pc : Waiter}
    (hpc : pc = .waiting false → s.hub.isConnected = true → s.Notifying) :
    (s.setWaiter w pc).NoLostWakeUp := by
  intro w' hw'
  simp only [Waits.setWaiter] at hw'
  by_cases hww : w' = w
  · subst hww
    rw [Function.update_self] at hw'
    exact hpc hw'
  · rw [Function.update_of_ne hww] at hw'
    exact hs w' hw'

/-- A registration that moves on without leaving the place before its notification
keeps the property. -/
theorem NoLostWakeUp.setRegistration (hs : s.NoLostWakeUp) {r : ℕ} {pc : Registration}
    (hpc : ∀ id, s.registrations r ≠ .inserted id) : (s.setRegistration r pc).NoLostWakeUp := by
  intro w hw hconnected
  obtain ⟨r', id, hr'⟩ := hs w hw hconnected
  refine ⟨r', id, ?_⟩
  have hne : r' ≠ r := by
    rintro rfl
    exact hpc id hr'
  simp only [Waits.setRegistration, Function.update_of_ne hne, hr']

/-- A step whose futures are created in time loses no wake-up. -/
theorem noLostWakeUp_step (hs : s.NoLostWakeUp) (hcreate : s.CreatesInTime e)
    (hstep : step s e = some t) : t.NoLostWakeUp := by
  cases e with
  | call w | wake w =>
    simp only [step] at hstep
    split at hstep <;> cases hstep
    exact hs.setWaiter fun h => by cases h
  | check w =>
    simp only [step] at hstep
    split at hstep
    · split_ifs at hstep <;> cases hstep <;> exact hs.setWaiter fun h => by cases h
    · cases hstep
  | create w =>
    simp only [step] at hstep
    split at hstep <;> cases hstep
    exact hs.setWaiter fun _ => hcreate
  | drop w =>
    cases hstep
    exact hs.setWaiter fun h => by cases h
  | fetchId r =>
    simp only [step] at hstep
    split at hstep <;> cases hstep
    next hr => exact NoLostWakeUp.setRegistration (s := { s with hub := _ }) hs (by simp [hr])
  | insert r tx =>
    simp only [step] at hstep
    split at hstep
    · next id hr =>
      split_ifs at hstep
      cases hstep
      exact fun _ _ _ => ⟨r, id, by simp [Waits.setRegistration]⟩
    · cases hstep
  | notify r =>
    simp only [step] at hstep
    split at hstep <;> cases hstep
    intro w hw
    simp only [Waits.setRegistration] at hw
    cases hwait : s.waiters w <;> simp [hwait, Waiter.notify] at hw
  | release r =>
    simp only [step] at hstep
    split at hstep <;> cases hstep
    next hr => exact NoLostWakeUp.setRegistration (s := { s with guard := none }) hs (by simp [hr])
  | unregister id =>
    simp only [step] at hstep
    split_ifs at hstep
    cases hstep
    exact fun w hw hconnected => hs w hw (isConnected_of_unregister hconnected)
  | reap now timeout =>
    simp only [step] at hstep
    split_ifs at hstep
    cases hstep
    exact fun w hw hconnected => hs w hw (isConnected_of_eraseAll _ hconnected)
  | tick d =>
    cases hstep
    exact hs

/-- A future created after the last notification waits for nothing. -/
theorem lost_of_create (hcreate : ¬s.CreatesInTime e) (hstep : step s e = some t) :
    ¬t.NoLostWakeUp := by
  cases e with
  | create w =>
    simp only [CreatesInTime, Classical.not_imp] at hcreate
    simp only [step] at hstep
    split at hstep <;> cases hstep
    intro h
    exact hcreate.2 (h w (by simp [Waits.setWaiter]) hcreate.1)
  | _ => exact absurd trivial hcreate

/-- No wake-up is lost in any state of a run exactly when every caller of the run
creates its future in time. -/
theorem noLostWakeUp_iff (es : List WaitEvent) :
    Transition.Always step NoLostWakeUp init es ↔ Transition.Meets step CreatesInTime init es :=
  Transition.always_iff_meets (I := NoLostWakeUp) (fun _ h => h)
    (fun _ _ _ hs hcreate hstep => noLostWakeUp_step hs hcreate hstep)
    (fun _ _ _ _ hcreate hstep => lost_of_create hcreate hstep)
    (fun w hw => by cases hw) es

/-- A registration that runs between the look at the table and the creation of the
future. -/
def registrationBetween : List WaitEvent :=
  [.call 0, .check 0, .fetchId 0, .insert 0 0, .notify 0, .release 0, .create 0]

/-- The caller then waits with a client connected and no notification to come. -/
theorem wake_up_lost : ¬Transition.Always step NoLostWakeUp init registrationBetween := by
  rw [Transition.always_iff]
  intro h
  have hrun : Transition.run step init registrationBetween =
      some ((Transition.run step init registrationBetween).get (by decide)) := by simp
  obtain ⟨r, id, hr⟩ := h _ _ (List.prefix_refl _) hrun 0 rfl (by decide)
  cases r with
  | zero => cases hr
  | succ r => cases hr

end Waits

end InfinityBridge.Host
