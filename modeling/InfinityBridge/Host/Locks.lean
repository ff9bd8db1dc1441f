import InfinityBridge.Library.Locks
import InfinityBridge.Host.Calls

/-!
# The locks of the hub

The operations of the hub as what they do with the two mutexes `clients` and `pending`. A
`command` locks `pending`, then `clients`, then `pending` again; on its two error exits it
locks `pending` while it still holds the guard of `clients`. Nothing is locked while
`pending` is, so the operations never wait for one another.
-/

namespace InfinityBridge.Host

open Locks (Stmt)

/-- The mutexes of `Hub`. -/
inductive Mutex where
  | clients
  | pending
  deriving DecidableEq

/-- The operations of `Hub` that lock a mutex. -/
inductive Operation where
  | registerClient | setClientHello | unregisterClient | touchClient | reapDeadClients
  | setClientReady | isConnected | isReady | waitConnected | connectedClients | emit | command
  | dispatchAck | sendTo | broadcast

namespace Operation

/-- An early return, or not. -/
def mayReturn : Stmt Mutex := .branch .ret .skip

/-- A section without an await. -/
def locked (m : Mutex) : Stmt Mutex := .lock m .skip

/-- An error exit from the section with the clients: the sender is removed first. -/
def mayRefuse : Stmt Mutex := .branch (.seq (locked .pending) .ret) .skip

/-- What each operation does with the mutexes. -/
def program : Operation → Stmt Mutex
  | registerClient => locked .clients
  | setClientHello => locked .clients
  | unregisterClient => locked .clients
  | touchClient => locked .clients
  | reapDeadClients => locked .clients
  | setClientReady => locked .clients
  | isConnected => locked .clients
  | isReady => locked .clients
  -- the guard of the query is dropped before the notification is awaited
  | waitConnected => .loop (.seq (locked .clients) (.seq mayReturn .await))
  | connectedClients => locked .clients
  -- the first return is that of a failed serialization
  | emit => .seq mayReturn (.lock .clients (.seq mayReturn mayReturn))
  -- no client is there, or no client accepts the frame
  | command =>
    .seq mayReturn (.seq (locked .pending) (.seq (.lock .clients (.seq mayRefuse mayRefuse))
      (.seq .await (locked .pending))))
  -- the ack is sent after the guard has been dropped
  | dispatchAck => .seq (locked .pending) .skip
  | sendTo => .lock .clients mayReturn
  | broadcast => .lock .clients mayReturn

end Operation

/-- A mutex may be locked inside the guard of another one: `pending` inside `clients`. -/
def Mutex.Inside (m held : Mutex) : Prop := m = .pending ∧ held = .clients

/-- There is nothing inside `pending`. -/
theorem Mutex.inside_wellFounded : WellFounded Mutex.Inside := by
  have hpending : Acc Mutex.Inside .pending := ⟨_, fun m hm => by cases hm.2⟩
  constructor
  intro held
  cases held with
  | pending => exact hpending
  | clients => exact ⟨_, fun m hm => hm.1 ▸ hpending⟩

/-- Every operation nests its guards. -/
theorem Operation.program_nested (operation : Operation) :
    operation.program.Nested Mutex.Inside [] := by
  cases operation <;>
    simp [Operation.program, Operation.mayReturn, Operation.locked, Operation.mayRefuse,
      Stmt.Nested, Mutex.Inside]

/-- Any number of operations of any kind, in any order and with any of them cancelled where it
awaits, never come to wait for one another, and whoever has finished or been cancelled
holds no mutex. -/
theorem lock_discipline {ι : Type*} [DecidableEq ι] {es : List (Locks.Event Operation ι)}
    {s : Locks.State Mutex ι}
    (hrun : Transition.run (Locks.State.step Operation.program) Locks.State.init es = some s) :
    (∀ D : Set ι, D.Nonempty → ¬s.Deadlock D) ∧
    ∀ i, (s.tasks i).ended = true → ∀ m, s.owner m ≠ some i := by
  have howned := Locks.owned_run hrun
  constructor
  · intro D hD hdeadlock
    have hnested := Locks.nested_run Operation.program_nested hrun
    have hempty := Locks.no_deadlock Mutex.inside_wellFounded howned hnested hdeadlock
    exact hD.ne_empty hempty
  · intro i hended m
    exact howned.not_of_ended hended m

/-- A command gives up while an ack is dispatched: it holds the guard of `clients` and waits for
`pending`, and there it is cancelled. -/
def cancelledInside : List (Locks.Event Operation ℕ) :=
  [.start 0 .command] ++ List.replicate 10 (.run 0 false) ++ [.run 0 true, .run 0 false] ++
    [.start 1 .dispatchAck, .run 1 false, .run 1 false, .cancel 0, .run 0 false, .run 0 false]

/-- The cancelled command has dropped its guard, and the dispatch still has its own. -/
theorem lock_discipline_cancelledInside :
    ∃ s : Locks.State Mutex ℕ, Transition.run (Locks.State.step Operation.program)
        Locks.State.init cancelledInside = some s ∧
      (s.tasks 0).ended = true ∧ s.owner .pending = some 1 ∧ (∀ m, s.owner m ≠ some 0) ∧
      ¬s.Deadlock {0, 1} := by
  refine ⟨_, rfl, rfl, rfl, ?_⟩
  have h := lock_discipline (show Transition.run (Locks.State.step Operation.program)
    Locks.State.init cancelledInside = some _ from rfl)
  exact ⟨h.2 0 rfl, h.1 {0, 1} ⟨0, by simp⟩⟩

/-! ### The calls run the program of `command` -/

open Operation in
/-- Where the program of `command` is when a call is at a program point. -/
def AtPc (task : Locks.Task Mutex) : Pc → Prop
  | .idle => task = .idle
  | .created => task = .running [.stmt (locked .pending),
      .stmt (.seq (.lock .clients (.seq mayRefuse mayRefuse)) (.seq .await (locked .pending)))]
  | .inserted => task = .running [.stmt (.lock .clients (.seq mayRefuse mayRefuse)),
      .stmt (.seq .await (locked .pending))]
  | .refusing _ => ∃ k, Locks.guards k = [.clients] ∧
      task = .running (.stmt (locked .pending) :: .stmt .ret :: k)
  | .waiting _ => task = .running [.stmt .await, .stmt (locked .pending)]
  | .removing _ => task = .running [.stmt (locked .pending)]
  | .finished _ => task = .finished
  | .cancelled => task = .cancelled

/-- The calls and their programs: every program is where its call is, and between two steps of
the calls nobody has locked a mutex but who holds the guard of the clients. -/
structure Locked (s : Calls) (l : Locks.State Mutex ℕ) : Prop where
  tasks : ∀ c, AtPc (l.tasks c) (s.calls c).pc
  clients : l.owner .clients = s.guard
  pending : l.owner .pending = none

/-- At first no call has been made. -/
theorem locked_init : Locked Calls.init Locks.State.init :=
  ⟨fun _ => rfl, rfl, rfl⟩

variable {uuid : ℕ → String} {s t : Calls} {e : CallEvent} {l : Locks.State Mutex ℕ}

/-- The other tasks leave the guard alone. -/
theorem guard_step_other (hstep : Calls.step uuid s e = some t) (hcaller : Calls.caller e = none) :
    t.guard = s.guard := by
  cases e <;> simp only [Calls.caller, reduceCtorEq] at hcaller <;>
    simp only [Calls.step, Calls.locked] at hstep <;>
    (repeat' split at hstep) <;> cases hstep <;> rfl

/-- The other tasks need no step of the programs. -/
theorem Locked.other (h : Locked s l) (hstep : Calls.step uuid s e = some t)
    (hcaller : Calls.caller e = none) : Locked t l := by
  constructor
  · intro c
    rw [Calls.call_step_other (c := c) hstep (by simp [hcaller])]
    exact h.tasks c
  · rw [guard_step_other hstep hcaller]
    exact h.clients
  · exact h.pending

/-- A call and its program have moved. -/
theorem Locked.moved (h : Locked s l) {l' : Locks.State Mutex ℕ} {c : ℕ}
    {task : Locks.Task Mutex} (hstep : Calls.step uuid s e = some t)
    (hcaller : Calls.caller e = some c) (htasks : l'.tasks = l.tasks)
    (hpc : AtPc task (t.calls c).pc) (hclients : l'.owner .clients = t.guard)
    (hpending : l'.owner .pending = none) : Locked t (l'.setTask c task) := by
  constructor
  · intro c'
    by_cases hc : c' = c
    · rw [hc, Locks.State.setTask_self]
      exact hpc
    · rw [Locks.State.setTask_ne _ hc, htasks,
        Calls.call_step_other (c := c') hstep (by simpa [hcaller] using Ne.symm hc)]
      exact h.tasks c'
  · exact hclients
  · exact hpending

section Runs

open Operation Locks.State

variable {c : ℕ}

/-- A call that starts runs up to its first lock. -/
theorem run_start (htask : l.tasks c = .idle) :
    ∃ task, Transition.run (step program) l (.start c .command :: List.replicate 4 (.run c false)) =
      some (l.setTask c task) ∧ AtPc task .created := by
  refine ⟨_, ?_, rfl⟩
  simp [Transition.run, step, htask, program, mayReturn, exec]

/-- A call inserts its sender and runs up to the lock of the clients. -/
theorem run_insert (hpending : l.owner .pending = none) (htask : AtPc (l.tasks c) .created) :
    ∃ task, Transition.run (step program) l (List.replicate 4 (.run c false)) =
      some (l.setTask c task) ∧ AtPc task .inserted := by
  refine ⟨_, ?_, rfl⟩
  simp only [AtPc] at htask
  simp [Transition.run, step, htask, hpending, locked, exec, setOwner_eq_self]

/-- A call that no client refuses drops the guard of the clients and runs up to its await. -/
theorem run_deliver (hclients : l.owner .clients = none) (htask : AtPc (l.tasks c) .inserted)
    (deadline : Instant) :
    ∃ task, Transition.run (step program) l (List.replicate 8 (.run c false)) =
      some (l.setTask c task) ∧ AtPc task (.waiting deadline) := by
  refine ⟨_, ?_, rfl⟩
  simp only [AtPc] at htask
  simp [Transition.run, step, htask, hclients, mayRefuse, exec, setOwner_eq_self]

/-- A call that gives up runs up to the lock inside the guard of the clients. -/
theorem run_giveUp (hclients : l.owner .clients = none) (htask : AtPc (l.tasks c) .inserted)
    (err : BridgeError) :
    ∃ task, Transition.run (step program) l
      [.run c false, .run c false, .run c true, .run c false] =
      some ((l.setOwner .clients (some c)).setTask c task) ∧ AtPc task (.refusing err) := by
  let k : List (Locks.Frame Mutex) :=
    [.stmt mayRefuse, .guard .clients, .stmt (.seq .await (locked .pending))]
  refine ⟨.running (.stmt (locked .pending) :: .stmt .ret :: k), ?_, k, rfl, rfl⟩
  simp only [AtPc] at htask
  simp [Transition.run, step, htask, hclients, mayRefuse, exec, k]

/-- It removes its sender there, and returns with the guard dropped. -/
theorem run_refuse {err : BridgeError} (hpending : l.owner .pending = none)
    (htask : AtPc (l.tasks c) (.refusing err)) (r : Except BridgeError Value) :
    ∃ task, Transition.run (step program) l (List.replicate 6 (.run c false)) =
      some ((l.setOwner .clients none).setTask c task) ∧ AtPc task (.finished r) := by
  obtain ⟨k, hk, htask⟩ := htask
  refine ⟨_, ?_, rfl⟩
  simp [Transition.run, step, htask, hpending, locked, exec, hk, setOwner_eq_self]

/-- A call whose await is over runs up to its last lock. -/
theorem run_poll {deadline : Instant} (htask : AtPc (l.tasks c) (.waiting deadline))
    (r : AckResult) :
    ∃ task, Transition.run (step program) l [.run c false] = some (l.setTask c task) ∧
      AtPc task (.removing r) := by
  refine ⟨_, ?_, rfl⟩
  simp only [AtPc] at htask
  simp [Transition.run, step, htask, exec]

/-- It removes its sender and returns. -/
theorem run_remove {result : AckResult} (hpending : l.owner .pending = none)
    (htask : AtPc (l.tasks c) (.removing result)) (r : Except BridgeError Value) :
    ∃ task, Transition.run (step program) l (List.replicate 4 (.run c false)) =
      some (l.setTask c task) ∧ AtPc task (.finished r) := by
  refine ⟨_, ?_, rfl⟩
  simp only [AtPc] at htask
  simp [Transition.run, step, htask, hpending, locked, exec, setOwner_eq_self]

/-- A call that is dropped without a guard. -/
theorem run_drop {frame : Locks.Frame Mutex} {k : List (Locks.Frame Mutex)}
    (hawaits : frame = .stmt .await ∨ ∃ m body, frame = .stmt (.lock m body))
    (hk : Locks.guards k = []) (htask : l.tasks c = .running (frame :: k)) :
    ∃ task, Transition.run (step program) l [.cancel c, .run c false] =
      some (l.setTask c task) ∧ AtPc task .cancelled := by
  refine ⟨_, ?_, rfl⟩
  rcases hawaits with rfl | ⟨m, body, rfl⟩ <;> simp [Transition.run, step, htask, hk]

/-- A call that is dropped while it gives up drops the guard of the clients. -/
theorem run_dropInside {err : BridgeError} (htask : AtPc (l.tasks c) (.refusing err)) :
    ∃ task, Transition.run (step program) l [.cancel c, .run c false, .run c false] =
      some ((l.setOwner .clients none).setTask c task) ∧ AtPc task .cancelled := by
  obtain ⟨k, hk, htask⟩ := htask
  refine ⟨_, ?_, rfl⟩
  simp [Transition.run, step, htask, locked, Locks.guards, hk]

end Runs

/-- A call has moved, and its program can be run to where the call is. -/
theorem Locked.run (h : Locked s l) (hstep : Calls.step uuid s e = some t)
    (hcaller : Calls.caller e = some c) {les : List (Locks.Event Operation ℕ)}
    {l' : Locks.State Mutex ℕ} {pc : Pc}
    (hrun : ∃ task, Transition.run (Locks.State.step Operation.program) l les =
      some (l'.setTask c task) ∧ AtPc task pc) (hpc : (t.calls c).pc = pc)
    (htasks : l'.tasks = l.tasks) (hclients : l'.owner .clients = t.guard)
    (hpending : l'.owner .pending = none) :
    ∃ les l', Transition.run (Locks.State.step Operation.program) l les = some l' ∧
      Locked t l' := by
  obtain ⟨task, hrun, hat⟩ := hrun
  exact ⟨les, _, hrun, h.moved hstep hcaller htasks (hpc ▸ hat) hclients hpending⟩

/-- The delivery of a command runs the program up to its await, or up to the lock inside the
guard of the clients. -/
theorem locked_deliver (h : Locked s l) (hstep : Calls.step uuid s (.deliver c) = some t) :
    ∃ les l', Transition.run (Locks.State.step Operation.program) l les = some l' ∧
      Locked t l' := by
  have htask := h.tasks c
  have hmoved := hstep
  simp only [Calls.step] at hmoved
  split at hmoved
  · next hpc =>
    rw [hpc] at htask
    split_ifs at hmoved with hguard
    have hclients := h.clients.trans hguard
    split at hmoved <;> cases hmoved
    · next err herr =>
      exact h.run hstep rfl (run_giveUp hclients htask err) (by rw [Calls.setPc_calls_self]) rfl
        rfl h.pending
    · exact h.run hstep rfl (run_deliver hclients htask _) (by rw [Calls.setPc_calls_self]) rfl
        h.clients h.pending
  · cases hmoved

/-- A call is dropped where it waits for a lock or for its ack. -/
theorem locked_drop (h : Locked s l) (hstep : Calls.step uuid s (.drop c) = some t) :
    ∃ les l', Transition.run (Locks.State.step Operation.program) l les = some l' ∧
      Locked t l' := by
  have htask := h.tasks c
  have hmoved := hstep
  simp only [Calls.step] at hmoved
  split at hmoved
  · next err hpc =>
    cases hmoved
    rw [hpc] at htask
    exact h.run hstep rfl (run_dropInside htask)
      (by rw [Calls.setPc_calls_self]) rfl rfl h.pending
  case h_6 => cases hmoved
  all_goals
    next hpc =>
    cases hmoved
    rw [hpc] at htask
    refine h.run hstep rfl (run_drop ?_ ?_ htask)
      (by rw [Calls.setPc_calls_self]) rfl h.clients h.pending
    · first
      | exact .inl rfl
      | exact .inr ⟨_, _, rfl⟩
    · rfl

/-- Each step of the calls is a run of the programs. -/
theorem locked_step (h : Locked s l) (hstep : Calls.step uuid s e = some t) :
    ∃ les l', Transition.run (Locks.State.step Operation.program) l les = some l' ∧
      Locked t l' := by
  cases hcaller : Calls.caller e with
  | none => exact ⟨[], l, rfl, h.other hstep hcaller⟩
  | some c =>
    have htask := h.tasks c
    have hmoved := hstep
    cases e <;> simp only [Calls.caller, Option.some.injEq, reduceCtorEq] at hcaller <;>
      subst hcaller <;> simp only [Calls.step] at hmoved
    case deliver => exact locked_deliver h hstep
    case drop => exact locked_drop h hstep
    case start name payload timeout =>
      split at hmoved <;> cases hmoved
      next hpc =>
      rw [hpc] at htask
      exact h.run hstep rfl (run_start htask) (by simp only [Function.update_self]) rfl h.clients
        h.pending
    case insert =>
      split at hmoved <;> cases hmoved
      next hpc =>
      rw [hpc] at htask
      exact h.run hstep rfl (run_insert h.pending htask) (by rw [Calls.setPc_calls_self]) rfl
        h.clients h.pending
    case refuse =>
      split at hmoved <;> cases hmoved
      next err hpc =>
      rw [hpc] at htask
      exact h.run hstep rfl (run_refuse h.pending htask (.error err))
        (by rw [Calls.setPc_calls_self]) rfl rfl h.pending
    case poll =>
      split at hmoved
      · next deadline hpc =>
        rw [hpc] at htask
        obtain ⟨r, _, rfl⟩ := Option.map_eq_some_iff.mp hmoved
        exact h.run hstep rfl (run_poll htask r) (by rw [Calls.setPc_calls_self]) rfl h.clients
          h.pending
      · cases hmoved
    case remove =>
      split at hmoved <;> cases hmoved
      next r hpc =>
      rw [hpc] at htask
      exact h.run hstep rfl (run_remove h.pending htask (commandOutcome (s.calls _).timeout r))
        (by rw [Calls.setPc_calls_self]) rfl h.clients h.pending

/-- Every run of the calls is one of the programs. -/
theorem locked_run {es : List CallEvent}
    (hrun : Transition.run (Calls.step uuid) Calls.init es = some s) :
    ∃ les l, Transition.run (Locks.State.step Operation.program) Locks.State.init les = some l ∧
      Locked s l := by
  refine Transition.run_invariant (I := fun s => ∃ les l,
    Transition.run (Locks.State.step Operation.program) Locks.State.init les = some l ∧
      Locked s l) ?_ hrun ⟨[], _, rfl, locked_init⟩
  rintro s e t ⟨les, l, hles, h⟩ hstep
  obtain ⟨les', l', hles', h'⟩ := locked_step h hstep
  exact ⟨les ++ les', l', Transition.run_append_eq_some.mpr ⟨l, hles, hles'⟩, h'⟩

/-- Only a call that is giving up holds the guard of the clients across an await. -/
theorem refusing_of_guard {es : List CallEvent}
    (hrun : Transition.run (Calls.step uuid) Calls.init es = some s) {c : ℕ}
    (hguard : s.guard = some c) : ∃ err, (s.calls c).pc = .refusing err := by
  obtain ⟨les, l, hles, h⟩ := locked_run hrun
  have hholds := ((Locks.owned_run hles).owner .clients c).mp (h.clients.trans hguard)
  have htask := h.tasks c
  cases hpc : (s.calls c).pc with
  | refusing err => exact ⟨err, rfl⟩
  | _ =>
    rw [hpc] at htask
    simp only [AtPc] at htask
    rw [htask] at hholds
    cases hholds

end InfinityBridge.Host
