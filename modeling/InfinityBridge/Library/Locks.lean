import InfinityBridge.Library.Transition

/-!
# Tasks and the mutexes they lock

A program is what it does with mutexes: a guard lives as long as the scope it was taken in,
also across an await, and a return drops the guards of all scopes it leaves. Any number of
tasks run such programs, one step at a time and in any order, and a task that awaits can be
cancelled, which drops its guards too.

If the guards are nested along a well-founded relation, no tasks wait for one another.
Tasks, mutexes and kinds of programs are arbitrary.
-/

namespace Locks

variable {μ ι κ : Type*}

/-- What a program does with mutexes. -/
inductive Stmt (μ : Type*) where
  /-- Runs on without awaiting. -/
  | skip
  /-- Awaits something other than a mutex. -/
  | await
  /-- Returns from the program. -/
  | ret
  /-- Awaits the mutex, and holds its guard for the body. -/
  | lock (m : μ) (body : Stmt μ)
  | seq (first rest : Stmt μ)
  | branch (yes no : Stmt μ)
  | loop (body : Stmt μ)

/-- What is left to do in a task: a statement, or the end of the scope of a guard. -/
inductive Frame (μ : Type*) where
  | stmt (s : Stmt μ)
  | guard (m : μ)

/-- The guards that live in a stack, the innermost one first. -/
def guards : List (Frame μ) → List μ
  | [] => []
  | .stmt _ :: k => guards k
  | .guard m :: k => m :: guards k

/-- Where a task is. -/
inductive Task (μ : Type*) where
  | idle
  | running (k : List (Frame μ))
  /-- Drops the guards that are left, on a return or after it has been cancelled. -/
  | unwinding (cancelled : Bool) (left : List μ)
  | finished
  | cancelled

/-- The guards a task has. -/
def Task.holding : Task μ → List μ
  | .running k => guards k
  | .unwinding _ left => left
  | _ => []

/-- The task has come to its end. -/
def Task.ended : Task μ → Bool
  | .finished | .cancelled => true
  | _ => false

/-- The tasks, and who has locked each mutex. -/
structure State (μ ι : Type*) where
  tasks : ι → Task μ
  owner : μ → Option ι

/-- One step of one task. -/
inductive Event (κ ι : Type*) where
  | start (i : ι) (kind : κ)
  /-- The next step of a task; the choice is for a branch. -/
  | run (i : ι) (choice : Bool)
  /-- The task is dropped where it awaits. -/
  | cancel (i : ι)

namespace State

def init : State μ ι := ⟨fun _ => .idle, fun _ => none⟩

/-- Task `i` awaits the mutex. -/
def Waits (s : State μ ι) (i : ι) (m : μ) : Prop :=
  ∃ body k, s.tasks i = .running (.stmt (.lock m body) :: k)

/-- Everyone in the set awaits a mutex that someone in the set has locked. -/
def Deadlock (s : State μ ι) (D : Set ι) : Prop :=
  ∀ i ∈ D, ∃ m, s.Waits i m ∧ ∃ j ∈ D, s.owner m = some j

section Changes

variable [DecidableEq μ]

/-- Change who has locked a mutex. -/
def setOwner (s : State μ ι) (m : μ) (owner : Option ι) : State μ ι :=
  { s with owner := Function.update s.owner m owner }

/-- A lock changes hands without the tasks. -/
@[simp] theorem setOwner_tasks (s : State μ ι) (m : μ) (owner : Option ι) :
    (s.setOwner m owner).tasks = s.tasks := rfl

/-- Only this lock has another owner. -/
theorem setOwner_owner (s : State μ ι) (m n : μ) (owner : Option ι) :
    (s.setOwner m owner).owner n = if n = m then owner else s.owner n := Function.update_apply ..

/-- Who had locked a mutex before does not matter. -/
@[simp] theorem setOwner_setOwner (s : State μ ι) (m : μ) (owner owner' : Option ι) :
    (s.setOwner m owner).setOwner m owner' = s.setOwner m owner' := by
  simp [setOwner]

/-- A mutex that stays with its owner. -/
theorem setOwner_eq_self {s : State μ ι} {m : μ} {owner : Option ι} (h : s.owner m = owner) :
    s.setOwner m owner = s := by
  simp [setOwner, ← h]

end Changes

section Changes

variable [DecidableEq ι]

/-- Put task `i` at a place. -/
def setTask (s : State μ ι) (i : ι) (task : Task μ) : State μ ι :=
  { s with tasks := Function.update s.tasks i task }

/-- The task is set. -/
@[simp] theorem setTask_self (s : State μ ι) (i : ι) (task : Task μ) :
    (s.setTask i task).tasks i = task := Function.update_self ..

/-- The other tasks stay as they are. -/
theorem setTask_ne (s : State μ ι) {i j : ι} (hj : j ≠ i) (task : Task μ) :
    (s.setTask i task).tasks j = s.tasks j := Function.update_of_ne hj ..

/-- A task changes without the locks. -/
@[simp] theorem setTask_owner (s : State μ ι) (i : ι) (task : Task μ) :
    (s.setTask i task).owner = s.owner := rfl

/-- Where a task was put before does not matter. -/
@[simp] theorem setTask_setTask (s : State μ ι) (i : ι) (task task' : Task μ) :
    (s.setTask i task).setTask i task' = s.setTask i task' := by
  simp [setTask]

/-- The guards of the tasks after one of them has been put somewhere. -/
theorem holding_setTask (s : State μ ι) (i j : ι) (task : Task μ) :
    ((s.setTask i task).tasks j).holding = if j = i then task.holding else (s.tasks j).holding := by
  split_ifs with hj
  · rw [hj, setTask_self]
  · rw [setTask_ne s hj]

end Changes

variable [DecidableEq μ] [DecidableEq ι]

/-- The owners can be changed first. -/
@[simp] theorem setOwner_setTask (s : State μ ι) (i : ι) (task : Task μ) (m : μ)
    (owner : Option ι) :
    (s.setTask i task).setOwner m owner = (s.setOwner m owner).setTask i task := rfl

/-- The next step of a statement with the rest of the stack. -/
def exec (s : State μ ι) (i : ι) (choice : Bool) (k : List (Frame μ)) : Stmt μ → Option (State μ ι)
  | .skip | .await => some (s.setTask i (.running k))
  | .ret => some (s.setTask i (.unwinding false (guards k)))
  | .lock m body =>
    if s.owner m = none then
      some ((s.setOwner m (some i)).setTask i (.running (.stmt body :: .guard m :: k)))
    else none
  | .seq first rest => some (s.setTask i (.running (.stmt first :: .stmt rest :: k)))
  | .branch yes no => some (s.setTask i (.running (.stmt (if choice then yes else no) :: k)))
  | .loop body => some (s.setTask i (.running (.stmt body :: .stmt (.loop body) :: k)))

/-- The steps of tasks that run the programs. -/
def step (program : κ → Stmt μ) (s : State μ ι) : Event κ ι → Option (State μ ι)
  | .start i kind =>
    match s.tasks i with
    | .idle => some (s.setTask i (.running [.stmt (program kind)]))
    | _ => none
  | .run i choice =>
    match s.tasks i with
    | .running [] => some (s.setTask i .finished)
    | .running (.stmt stmt :: k) => s.exec i choice k stmt
    | .running (.guard m :: k) => some ((s.setOwner m none).setTask i (.running k))
    | .unwinding cancelled [] => some (s.setTask i (if cancelled then .cancelled else .finished))
    | .unwinding cancelled (m :: left) =>
      some ((s.setOwner m none).setTask i (.unwinding cancelled left))
    | _ => none
  | .cancel i =>
    match s.tasks i with
    | .running (.stmt (.lock _ _) :: k) | .running (.stmt .await :: k) =>
      some (s.setTask i (.unwinding true (guards k)))
    | _ => none

end State

/-! ### Nesting -/

/-- Every mutex is taken inside the guards that live then. -/
def Stmt.Nested (inside : μ → μ → Prop) : List μ → Stmt μ → Prop
  | held, .lock m body => (∀ h ∈ held, inside m h) ∧ body.Nested inside (m :: held)
  | held, .seq first rest => first.Nested inside held ∧ rest.Nested inside held
  | held, .branch yes no => yes.Nested inside held ∧ no.Nested inside held
  | held, .loop body => body.Nested inside held
  | _, _ => True

/-- So is every mutex in a stack. -/
def Stacked (inside : μ → μ → Prop) : List (Frame μ) → Prop
  | [] => True
  | .stmt s :: k => s.Nested inside (guards k) ∧ Stacked inside k
  | .guard _ :: k => Stacked inside k

/-- So is every mutex that the task has still to take. -/
def Task.Nested (inside : μ → μ → Prop) : Task μ → Prop
  | .running k => Stacked inside k
  | _ => True

/-! ### What a step does -/

/-- A step takes one task on: its guards stay, or it takes a free mutex, or it drops its
innermost guard. What it has still to take stays nested. -/
inductive Moves [DecidableEq μ] [DecidableEq ι] (program : κ → Stmt μ) (s t : State μ ι) : Prop
  | keeps (i : ι) (task : Task μ) (ht : t = s.setTask i task)
      (hholding : task.holding = (s.tasks i).holding)
      (hnested : ∀ inside, (∀ kind, (program kind).Nested inside []) →
        (s.tasks i).Nested inside → task.Nested inside)
  | acquires (i : ι) (task : Task μ) (m : μ) (ht : t = (s.setOwner m (some i)).setTask i task)
      (hfree : s.owner m = none) (hholding : task.holding = m :: (s.tasks i).holding)
      (hnested : ∀ inside, (s.tasks i).Nested inside → task.Nested inside)
  | releases (i : ι) (task : Task μ) (m : μ) (ht : t = (s.setOwner m none).setTask i task)
      (hholding : (s.tasks i).holding = m :: task.holding)
      (hnested : ∀ inside, (s.tasks i).Nested inside → task.Nested inside)

section Steps

variable [DecidableEq μ] [DecidableEq ι] {program : κ → Stmt μ} {s t : State μ ι} {e : Event κ ι}

/-- The next step of a statement moves its task. -/
theorem moves_exec {i : ι} {choice : Bool} {stmt : Stmt μ} {k : List (Frame μ)}
    (htask : s.tasks i = .running (.stmt stmt :: k)) (hstep : s.exec i choice k stmt = some t) :
    Moves program s t := by
  have hkeeps {task : Task μ} (ht : s.setTask i task = t) (hholding : task.holding = guards k)
      (hnested : ∀ inside, stmt.Nested inside (guards k) → Stacked inside k →
        task.Nested inside) : Moves program s t := by
    refine .keeps i task ht.symm ?_ fun inside _ h => ?_
    · rw [hholding, htask]
      rfl
    · rw [htask] at h
      exact hnested inside h.1 h.2
  cases stmt <;> simp only [State.exec, Option.some.injEq] at hstep
  case lock m body =>
    split_ifs at hstep with hfree
    cases hstep
    refine .acquires i _ m rfl hfree ?_ fun inside hnested => ?_
    · rw [htask]
      rfl
    · rw [htask] at hnested
      exact ⟨hnested.1.2, hnested.2⟩
  case skip => exact hkeeps hstep rfl fun _ _ hk => hk
  case await => exact hkeeps hstep rfl fun _ _ hk => hk
  case ret => exact hkeeps hstep rfl fun _ _ _ => trivial
  case seq first rest => exact hkeeps hstep rfl fun _ h hk => ⟨h.1, h.2, hk⟩
  case branch yes no =>
    refine hkeeps hstep rfl fun _ h hk => ⟨?_, hk⟩
    cases choice with
    | true => exact h.1
    | false => exact h.2
  case loop body => exact hkeeps hstep rfl fun _ h hk => ⟨h, h, hk⟩

/-- Every step moves a task. -/
theorem moves_step (hstep : State.step program s e = some t) : Moves program s t := by
  cases e with
  | start i kind =>
    simp only [State.step] at hstep
    split at hstep <;> cases hstep
    next htask =>
    refine .keeps i _ rfl ?_ fun inside hprogram _ => ⟨hprogram kind, trivial⟩
    rw [htask]
    rfl
  | run i choice =>
    simp only [State.step] at hstep
    split at hstep
    · next htask =>
      cases hstep
      refine .keeps i _ rfl ?_ fun _ _ _ => trivial
      rw [htask]
      rfl
    · next htask => exact moves_exec htask hstep
    · next m k htask =>
      cases hstep
      refine .releases i _ m rfl ?_ fun inside hnested => ?_
      · rw [htask]
        rfl
      · rw [htask] at hnested
        exact hnested
    · next cancelled htask =>
      cases hstep
      refine .keeps i _ rfl ?_ fun _ _ _ => ?_
      · rw [htask]
        cases cancelled <;> rfl
      · cases cancelled <;> trivial
    · next m left htask =>
      cases hstep
      refine .releases i _ m rfl ?_ fun _ _ => trivial
      rw [htask]
      rfl
    · cases hstep
  | cancel i =>
    simp only [State.step] at hstep
    split at hstep
    case h_3 => cases hstep
    all_goals
      next htask =>
      cases hstep
      refine .keeps i _ rfl ?_ fun _ _ _ => trivial
      rw [htask]
      rfl

end Steps

/-! ### Guards and owners -/

/-- A mutex is locked by the task that has its guard, and no task has a guard twice. -/
structure Owned (s : State μ ι) : Prop where
  owner : ∀ m i, s.owner m = some i ↔ m ∈ (s.tasks i).holding
  nodup : ∀ i, (s.tasks i).holding.Nodup

/-- Nothing is locked at first. -/
theorem owned_init : Owned (State.init : State μ ι) := by
  constructor
  · intro m i
    simp [State.init, Task.holding]
  · intro i
    exact List.nodup_nil

/-- A task that has ended has locked nothing. -/
theorem Owned.not_of_ended {s : State μ ι} (h : Owned s) {i : ι}
    (hended : (s.tasks i).ended = true) (m : μ) : s.owner m ≠ some i := by
  rw [ne_eq, h.owner]
  cases htask : s.tasks i <;> simp_all [Task.ended, Task.holding]

section Owned

variable [DecidableEq ι] {program : κ → Stmt μ} {s t : State μ ι} {e : Event κ ι}

/-- A task that keeps its guards. -/
theorem Owned.keeps (h : Owned s) {i : ι} {task : Task μ}
    (hholding : task.holding = (s.tasks i).holding) : Owned (s.setTask i task) := by
  have hsame (j : ι) : ((s.setTask i task).tasks j).holding = (s.tasks j).holding := by
    rw [State.holding_setTask]
    split_ifs with hj
    · rw [hholding, hj]
    · rfl
  constructor
  · intro m j
    rw [hsame]
    exact h.owner m j
  · intro j
    rw [hsame]
    exact h.nodup j

variable [DecidableEq μ]

/-- A task that takes a free mutex. -/
theorem Owned.acquires (h : Owned s) {i : ι} {task : Task μ} {m : μ} (hfree : s.owner m = none)
    (hholding : task.holding = m :: (s.tasks i).holding) :
    Owned ((s.setOwner m (some i)).setTask i task) := by
  have hnobody (j : ι) : m ∉ (s.tasks j).holding := by
    intro hm
    rw [(h.owner m j).mpr hm] at hfree
    cases hfree
  constructor
  · intro n j
    have howner := h.owner n j
    rw [State.holding_setTask, State.setTask_owner, State.setOwner_owner, State.setOwner_tasks]
    by_cases hj : j = i <;> by_cases hm : n = m
    · simp [hj, hm, hholding]
    · rw [if_neg hm, if_pos hj, hholding, List.mem_cons, howner, hj]
      simp [hm]
    · have hother : ¬i = j := fun hi => hj hi.symm
      simp [hj, hm, hother, hnobody]
    · rw [if_neg hm, if_neg hj]
      exact howner
  · intro j
    rw [State.holding_setTask]
    split_ifs with hj
    · rw [hholding]
      exact List.nodup_cons.mpr ⟨hnobody i, h.nodup i⟩
    · exact h.nodup j

/-- A task that drops its innermost guard. -/
theorem Owned.releases (h : Owned s) {i : ι} {task : Task μ} {m : μ}
    (hholding : (s.tasks i).holding = m :: task.holding) :
    Owned ((s.setOwner m none).setTask i task) := by
  have hnodup := h.nodup i
  rw [hholding, List.nodup_cons] at hnodup
  have hmine : s.owner m = some i := by
    rw [h.owner, hholding]
    exact List.mem_cons_self
  constructor
  · intro n j
    have howner := h.owner n j
    rw [State.holding_setTask, State.setTask_owner, State.setOwner_owner, State.setOwner_tasks]
    by_cases hj : j = i <;> by_cases hm : n = m
    · simp [hj, hm, hnodup.1]
    · rw [if_neg hm, if_pos hj, howner, hj, hholding, List.mem_cons]
      simp [hm]
    · rw [if_pos hm, if_neg hj]
      have hnot : n ∉ (s.tasks j).holding := by
        rw [← howner, hm, hmine, Option.some.injEq]
        exact fun hi => hj hi.symm
      simp [hnot]
    · rw [if_neg hm, if_neg hj]
      exact howner
  · intro j
    rw [State.holding_setTask]
    split_ifs with hj
    · exact hnodup.2
    · exact h.nodup j

/-- A step keeps the guards and the owners together. -/
theorem owned_step (h : Owned s) (hstep : State.step program s e = some t) : Owned t := by
  cases moves_step hstep with
  | keeps i task ht hholding _ => exact ht ▸ h.keeps hholding
  | acquires i task m ht hfree hholding _ => exact ht ▸ h.acquires hfree hholding
  | releases i task m ht hholding _ => exact ht ▸ h.releases hholding

/-- In every run the guards and the owners are together. -/
theorem owned_run {es : List (Event κ ι)}
    (hrun : Transition.run (State.step program) State.init es = some s) : Owned s :=
  Transition.run_invariant (fun _ _ _ h hs => owned_step h hs) hrun owned_init

end Owned

/-! ### Deadlocks -/

/-- The mutex that a task awaits goes inside all its guards. -/
theorem inside_of_waits {s : State μ ι} {inside : μ → μ → Prop} {i : ι} {m m' : μ}
    (hnested : (s.tasks i).Nested inside) (hwaits : s.Waits i m)
    (hholds : m' ∈ (s.tasks i).holding) : inside m m' := by
  obtain ⟨body, k, htask⟩ := hwaits
  rw [htask] at hnested hholds
  exact hnested.1.1 m' hholds

/-- Tasks whose guards are nested along a well-founded relation never wait for one
another: the innermost of the mutexes they wait for would have to be inside itself. -/
theorem no_deadlock {s : State μ ι} {inside : μ → μ → Prop} (hinside : WellFounded inside)
    (howned : Owned s) (hnested : ∀ i, (s.tasks i).Nested inside) {D : Set ι}
    (hD : s.Deadlock D) : D = ∅ := by
  by_contra hne
  obtain ⟨i, hi⟩ := Set.nonempty_iff_ne_empty.mpr hne
  obtain ⟨m, hm, _⟩ := hD i hi
  have hnonempty : {m | ∃ i ∈ D, s.Waits i m}.Nonempty := ⟨m, i, hi, hm⟩
  obtain ⟨least, ⟨i, hi, hwaits⟩, hleast⟩ := hinside.has_min _ hnonempty
  obtain ⟨m, hm, j, hj, howner⟩ := hD i hi
  have hsame : m = least := by
    obtain ⟨_, _, htask⟩ := hm
    obtain ⟨_, _, htask'⟩ := hwaits
    rw [htask] at htask'
    cases htask'
    rfl
  rw [hsame] at howner
  obtain ⟨next, hnext, _⟩ := hD j hj
  refine hleast next ⟨j, hj, hnext⟩ ?_
  exact inside_of_waits (hnested j) hnext ((howned.owner least j).mp howner)

section Runs

variable [DecidableEq μ] [DecidableEq ι] {program : κ → Stmt μ} {s t : State μ ι} {e : Event κ ι}
  {inside : μ → μ → Prop}

/-- A step of nested programs keeps every task nested. -/
theorem nested_step (hprogram : ∀ kind, (program kind).Nested inside [])
    (h : ∀ i, (s.tasks i).Nested inside) (hstep : State.step program s e = some t) (i : ι) :
    (t.tasks i).Nested inside := by
  have hmoved (s' : State μ ι) (j : ι) (task : Task μ) (hs' : s'.tasks = s.tasks)
      (htask : task.Nested inside) : ((s'.setTask j task).tasks i).Nested inside := by
    by_cases hi : i = j
    · rw [hi, State.setTask_self]
      exact htask
    · rw [State.setTask_ne s' hi, hs']
      exact h i
  cases moves_step hstep with
  | keeps j task ht _ hnested => exact ht ▸ hmoved s j task rfl (hnested inside hprogram (h j))
  | acquires j task m ht _ _ hnested => exact ht ▸ hmoved _ j task rfl (hnested inside (h j))
  | releases j task m ht _ hnested => exact ht ▸ hmoved _ j task rfl (hnested inside (h j))

/-- In every run of nested programs every task is nested. -/
theorem nested_run (hprogram : ∀ kind, (program kind).Nested inside []) {es : List (Event κ ι)}
    (hrun : Transition.run (State.step program) State.init es = some s) (i : ι) :
    (s.tasks i).Nested inside :=
  Transition.run_invariant (I := fun s => ∀ i, (s.tasks i).Nested inside)
    (fun _ _ _ h hs => nested_step hprogram h hs) hrun (fun _ => trivial) i

end Runs

end Locks
