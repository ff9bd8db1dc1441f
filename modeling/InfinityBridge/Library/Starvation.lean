import InfinityBridge.Library.Execution
import InfinityBridge.Library.Locks

/-!
# No task starves

Tasks whose guards are nested along a well-founded relation do not only avoid deadlocks. If
nothing but mutexes is awaited inside a guard, and every task that can go on again and again
goes on again and again, then every mutex is free again and again, and every task without a
loop comes to its end or awaits for ever something that is not a mutex.
Tasks, mutexes and kinds of programs are arbitrary.
-/

namespace Locks

variable {μ ι κ : Type*}

/-! ### Programs that come to an end -/

/-- There is no loop, and nothing but mutexes is awaited unless `awaits` says so. -/
def Stmt.Straight (awaits : Bool) : Stmt μ → Prop
  | .skip | .ret => True
  | .await => awaits = true
  | .lock _ body => body.Straight awaits
  | .seq first rest => first.Straight awaits ∧ rest.Straight awaits
  | .branch yes no => yes.Straight awaits ∧ no.Straight awaits
  | .loop _ => False

/-- What runs inside a guard comes to its end. -/
def Stmt.Brief : Stmt μ → Prop
  | .skip | .ret | .await => True
  | .lock _ body => body.Straight false
  | .seq first rest => first.Brief ∧ rest.Brief
  | .branch yes no => yes.Brief ∧ no.Brief
  | .loop body => body.Brief

/-- How many steps a statement takes at most, but for its loops. -/
def Stmt.size : Stmt μ → ℕ
  | .skip | .ret | .await => 1
  | .lock _ body => body.size + 2
  | .seq first rest => first.size + rest.size + 1
  | .branch yes no => yes.size + no.size + 1
  | .loop body => body.size + 1

/-- A statement takes a step. -/
theorem Stmt.size_pos (s : Stmt μ) : 0 < s.size := by
  cases s <;> simp [Stmt.size]

/-- Every statement of a stack is straight. -/
def StraightStack (awaits : Bool) : List (Frame μ) → Prop
  | [] => True
  | .stmt s :: k => s.Straight awaits ∧ StraightStack awaits k
  | .guard _ :: k => StraightStack awaits k

/-- The statements of a stack are brief, and come to their end inside a guard. -/
def BriefStack : List (Frame μ) → Prop
  | [] => True
  | .stmt s :: k => s.Brief ∧ (guards k ≠ [] → s.Straight false) ∧ BriefStack k
  | .guard _ :: k => BriefStack k

/-- How many steps a stack takes at most. -/
def stackSize : List (Frame μ) → ℕ
  | [] => 0
  | .stmt s :: k => s.size + stackSize k
  | .guard _ :: k => stackSize k + 1

/-- How many steps a stack takes at most until it has no guard. -/
def heldSize : List (Frame μ) → ℕ
  | [] => 0
  | .stmt s :: k => if (guards k).isEmpty then 0 else s.size + heldSize k
  | .guard _ :: k => heldSize k + 1

/-- A guard takes a step. -/
theorem length_guards_le_stackSize (k : List (Frame μ)) : (guards k).length ≤ stackSize k := by
  induction k with
  | nil => exact le_rfl
  | cons frame k ih =>
    cases frame with
    | stmt s => exact ih.trans (Nat.le_add_left _ _)
    | guard m => exact Nat.succ_le_succ ih

/-- A guard takes a step before there is no guard. -/
theorem length_guards_le_heldSize (k : List (Frame μ)) : (guards k).length ≤ heldSize k := by
  induction k with
  | nil => exact le_rfl
  | cons frame k ih =>
    cases frame with
    | stmt s =>
      simp only [guards, heldSize]
      split_ifs with hempty
      · rw [List.isEmpty_iff.mp hempty, List.length_nil]
      · exact ih.trans (Nat.le_add_left _ _)
    | guard m => exact Nat.succ_le_succ ih

namespace Task

/-- So is every statement that the task has still to run. -/
def Straight (awaits : Bool) : Task μ → Prop
  | .running k => StraightStack awaits k
  | _ => True

/-- So are the statements of the task. -/
def Brief : Task μ → Prop
  | .running k => BriefStack k
  | _ => True

/-- How many steps the task takes at most. -/
def left : Task μ → ℕ
  | .running k => stackSize k + 1
  | .unwinding _ left => left.length + 1
  | _ => 0

/-- How many steps the task takes at most until it has no guard. -/
def heldLeft : Task μ → ℕ
  | .running k => heldSize k
  | .unwinding _ left => left.length
  | _ => 0

/-- What a step of its own makes of a task. -/
inductive Next : Task μ → Task μ → Prop
  | skip (k) : Next (.running (.stmt .skip :: k)) (.running k)
  | await (k) : Next (.running (.stmt .await :: k)) (.running k)
  | ret (k) : Next (.running (.stmt .ret :: k)) (.unwinding false (guards k))
  | lock (m body k) :
    Next (.running (.stmt (.lock m body) :: k)) (.running (.stmt body :: .guard m :: k))
  | seq (first rest k) :
    Next (.running (.stmt (.seq first rest) :: k)) (.running (.stmt first :: .stmt rest :: k))
  | yes (yes no k) : Next (.running (.stmt (.branch yes no) :: k)) (.running (.stmt yes :: k))
  | no (yes no k) : Next (.running (.stmt (.branch yes no) :: k)) (.running (.stmt no :: k))
  | loop (body k) :
    Next (.running (.stmt (.loop body) :: k)) (.running (.stmt body :: .stmt (.loop body) :: k))
  | release (m k) : Next (.running (.guard m :: k)) (.running k)
  | done : Next (.running []) .finished
  | unwind (cancelled m left) : Next (.unwinding cancelled (m :: left)) (.unwinding cancelled left)
  | unwound (cancelled) :
    Next (.unwinding cancelled []) (if cancelled then .cancelled else .finished)
  | cancel (s k) : Next (.running (.stmt s :: k)) (.unwinding true (guards k))

variable {task task' : Task μ} {awaits : Bool}

/-- A straight task stays straight. -/
theorem Next.straight (h : Next task task') (hstraight : task.Straight awaits) :
    task'.Straight awaits := by
  cases h with
  | skip k | await k | release m k => simp_all [Straight, StraightStack]
  | lock m body k => exact hstraight
  | seq first rest k => exact ⟨hstraight.1.1, hstraight.1.2, hstraight.2⟩
  | yes yes no k => exact ⟨hstraight.1.1, hstraight.2⟩
  | no yes no k => exact ⟨hstraight.1.2, hstraight.2⟩
  | loop body k => exact hstraight.1.elim
  | ret | done | unwind | cancel => trivial
  | unwound cancelled => cases cancelled <;> trivial

/-- A step of its own takes a straight task further. -/
theorem Next.left_lt (h : Next task task') (hstraight : task.Straight awaits) :
    task'.left < task.left := by
  cases h with
  | skip k | await k => simp [left, stackSize, Stmt.size]
  | lock m body k =>
    simp only [left, stackSize, Stmt.size]
    omega
  | seq first rest k =>
    simp only [left, stackSize, Stmt.size]
    omega
  | yes yes no k | no yes no k =>
    simp only [left, stackSize, Stmt.size]
    omega
  | loop body k => exact hstraight.1.elim
  | release m k => simp [left, stackSize]
  | done => simp [left]
  | unwind cancelled m rest => simp [left]
  | unwound cancelled => cases cancelled <;> simp [left]
  | ret k =>
    have hguards := length_guards_le_stackSize k
    simp only [left, stackSize, Stmt.size]
    omega
  | cancel s k =>
    have hguards := length_guards_le_stackSize k
    have hpos := s.size_pos
    simp only [left, stackSize]
    omega

/-- A straight statement is brief. -/
theorem brief_of_straight (s : Stmt μ) (h : s.Straight false) : s.Brief := by
  induction s with
  | skip | ret | await => trivial
  | lock m body _ => exact h
  | seq first rest ihfirst ihrest => exact ⟨ihfirst h.1, ihrest h.2⟩
  | branch yes no ihyes ihno => exact ⟨ihyes h.1, ihno h.2⟩
  | loop body _ => exact h.elim

/-- A brief task stays brief. -/
theorem Next.brief (h : Next task task') (hbrief : task.Brief) : task'.Brief := by
  cases h with
  | skip k | await k => exact hbrief.2.2
  | release m k => exact hbrief
  | lock m body k =>
    obtain ⟨hbody, -, hstack⟩ := hbrief
    exact ⟨brief_of_straight body hbody, fun _ => hbody, hstack⟩
  | seq first rest k =>
    obtain ⟨hbrief, hinside, hstack⟩ := hbrief
    exact ⟨hbrief.1, fun h => (hinside h).1, hbrief.2, fun h => (hinside h).2, hstack⟩
  | yes yes no k =>
    obtain ⟨hbrief, hinside, hstack⟩ := hbrief
    exact ⟨hbrief.1, fun h => (hinside h).1, hstack⟩
  | no yes no k =>
    obtain ⟨hbrief, hinside, hstack⟩ := hbrief
    exact ⟨hbrief.2, fun h => (hinside h).2, hstack⟩
  | loop body k =>
    obtain ⟨hbrief, hinside, hstack⟩ := hbrief
    exact ⟨hbrief, fun h => (hinside h).elim, hbrief, hinside, hstack⟩
  | ret | done | unwind | cancel => trivial
  | unwound cancelled => cases cancelled <;> trivial

/-- A step of its own takes a brief task closer to letting go of its guards. -/
theorem Next.heldLeft_lt (h : Next task task') (hbrief : task.Brief) (hholds : task.holding ≠ []) :
    task'.heldLeft < task.heldLeft := by
  have hinside {s : Stmt μ} {k : List (Frame μ)}
      (hstack : (Task.running (.stmt s :: k)).holding ≠ []) : (guards k).isEmpty = false := by
    rw [← Bool.not_eq_true, List.isEmpty_iff]
    exact hstack
  cases h with
  | skip k | await k => simp [heldLeft, heldSize, hinside hholds, Stmt.size]
  | lock m body k =>
    simp only [heldLeft, heldSize, guards, hinside hholds, List.isEmpty_cons, Bool.false_eq_true,
      if_false, Stmt.size]
    omega
  | seq first rest k =>
    simp only [heldLeft, heldSize, guards, hinside hholds, Bool.false_eq_true, if_false, Stmt.size]
    omega
  | yes yes no k | no yes no k =>
    simp only [heldLeft, heldSize, hinside hholds, Bool.false_eq_true, if_false, Stmt.size]
    omega
  | loop body k =>
    exact (hbrief.2.1 hholds).elim
  | release m k => simp [heldLeft, heldSize]
  | done => exact absurd rfl hholds
  | unwind cancelled m rest => simp [heldLeft]
  | unwound cancelled => exact absurd rfl hholds
  | ret k =>
    have hguards := length_guards_le_heldSize k
    simp only [heldLeft, heldSize, hinside hholds, Bool.false_eq_true, if_false, Stmt.size]
    omega
  | cancel s k =>
    have hguards := length_guards_le_heldSize k
    have hpos := s.size_pos
    simp only [heldLeft, heldSize, hinside hholds, Bool.false_eq_true, if_false]
    omega

/-- A task does not become one that has not been started. -/
theorem Next.ne_idle (h : Next task task') : task' ≠ .idle := by
  intro hidle
  cases h with
  | unwound cancelled => cases cancelled <;> cases hidle
  | _ => cases hidle

end Task

/-! ### Steps -/

/-- The task that takes a step. -/
def Event.actor : Event κ ι → ι
  | .start i _ | .run i _ | .cancel i => i

namespace State

/-- Task `i` awaits something other than a mutex. -/
def Awaits (s : State μ ι) (i : ι) : Prop := ∃ k, s.tasks i = .running (.stmt .await :: k)

/-- Task `i` goes on. Whether something other than a mutex comes is not up to the tasks. -/
def GoesOn (i : ι) (s : State μ ι) (e : Event κ ι) : Prop :=
  (∃ choice, e = .run i choice) ∧ ¬s.Awaits i

/-- Nothing but mutexes is awaited inside a guard. -/
theorem not_awaits_of_holding {s : State μ ι} {i : ι} (hbrief : (s.tasks i).Brief)
    (hholds : (s.tasks i).holding ≠ []) : ¬s.Awaits i := by
  rintro ⟨k, htask⟩
  rw [htask] at hbrief hholds
  exact Bool.false_ne_true (hbrief.2.1 hholds)

variable [DecidableEq μ] [DecidableEq ι] {program : κ → Stmt μ} {s t : State μ ι} {e : Event κ ι}
  {i : ι} {m : μ}

/-- The next step of a statement. -/
theorem next_exec {choice : Bool} {stmt : Stmt μ} {k : List (Frame μ)}
    (htask : s.tasks i = .running (.stmt stmt :: k)) (hstep : s.exec i choice k stmt = some t) :
    ∃ (s' : State μ ι) (task : Task μ), s'.tasks = s.tasks ∧ t = s'.setTask i task ∧
      (s.tasks i).Next task := by
  rw [htask]
  cases stmt <;> simp only [exec, Option.some.injEq] at hstep
  case lock m body =>
    split_ifs at hstep
    cases hstep
    exact ⟨s.setOwner m (some i), _, rfl, rfl, .lock m body k⟩
  case skip => exact ⟨s, _, rfl, hstep.symm, .skip k⟩
  case await => exact ⟨s, _, rfl, hstep.symm, .await k⟩
  case ret => exact ⟨s, _, rfl, hstep.symm, .ret k⟩
  case seq first rest => exact ⟨s, _, rfl, hstep.symm, .seq first rest k⟩
  case loop body => exact ⟨s, _, rfl, hstep.symm, .loop body k⟩
  case branch yes no =>
    refine ⟨s, _, rfl, hstep.symm, ?_⟩
    cases choice with
    | true => exact .yes yes no k
    | false => exact .no yes no k

/-- A step starts its task or takes it on, and leaves the other tasks where they are. -/
theorem next_step (hstep : step program s e = some t) :
    ∃ (s' : State μ ι) (task : Task μ), s'.tasks = s.tasks ∧ t = s'.setTask e.actor task ∧
      ((∃ kind, e = .start e.actor kind ∧ task = .running [.stmt (program kind)]) ∨
        (s.tasks e.actor).Next task) := by
  cases e with
  | start i kind =>
    simp only [step] at hstep
    split at hstep <;> cases hstep
    exact ⟨s, _, rfl, rfl, .inl ⟨kind, rfl, rfl⟩⟩
  | run i choice =>
    simp only [step, Event.actor] at hstep ⊢
    split at hstep
    · next htask =>
      cases hstep
      exact ⟨s, _, rfl, rfl, .inr (htask ▸ .done)⟩
    · next stmt k htask =>
      obtain ⟨s', task, htasks, ht, hnext⟩ := next_exec htask hstep
      exact ⟨s', task, htasks, ht, .inr hnext⟩
    · next m k htask =>
      cases hstep
      exact ⟨s.setOwner m none, _, rfl, rfl, .inr (htask ▸ .release m k)⟩
    · next cancelled htask =>
      cases hstep
      exact ⟨s, _, rfl, rfl, .inr (htask ▸ .unwound cancelled)⟩
    · next cancelled m left htask =>
      cases hstep
      exact ⟨s.setOwner m none, _, rfl, rfl, .inr (htask ▸ .unwind cancelled m left)⟩
    · cases hstep
  | cancel i =>
    simp only [step, Event.actor] at hstep ⊢
    split at hstep
    case h_3 => cases hstep
    all_goals
      next htask =>
      cases hstep
      exact ⟨s, _, rfl, rfl, .inr (htask ▸ .cancel _ _)⟩

/-- A task that has been started stays where it is or takes a step of its own. -/
theorem tasks_step (hstep : step program s e = some t) (hstarted : s.tasks i ≠ .idle) :
    t.tasks i = s.tasks i ∨ (s.tasks i).Next (t.tasks i) := by
  obtain ⟨s', task, htasks, rfl, hnext⟩ := next_step hstep
  by_cases hi : i = e.actor
  · subst hi
    rw [setTask_self]
    refine .inr (hnext.resolve_left ?_)
    rintro ⟨kind, he, -⟩
    rw [he] at hstep
    simp only [step] at hstep
    cases hstep
  · rw [setTask_ne s' hi, htasks]
    exact .inl rfl

/-- A task that goes on takes a step of its own. -/
theorem next_of_goesOn (hstep : step program s e = some t) (hgoes : GoesOn i s e) :
    (s.tasks i).Next (t.tasks i) := by
  obtain ⟨⟨choice, rfl⟩, -⟩ := hgoes
  obtain ⟨s', task, htasks, rfl, hnext⟩ := next_step hstep
  rw [Event.actor, setTask_self]
  refine hnext.resolve_left ?_
  rintro ⟨kind, he, -⟩
  cases he

/-- A brief task stays brief, also when it is started. -/
theorem brief_step (hprogram : ∀ kind, (program kind).Brief) (hbrief : (s.tasks i).Brief)
    (hstep : step program s e = some t) : (t.tasks i).Brief := by
  obtain ⟨s', task, htasks, rfl, hnext⟩ := next_step hstep
  by_cases hi : i = e.actor
  · subst hi
    rw [setTask_self]
    rcases hnext with ⟨kind, -, rfl⟩ | hnext
    · exact ⟨hprogram kind, fun h => absurd rfl h, trivial⟩
    · exact hnext.brief hbrief
  · rw [setTask_ne s' hi, htasks]
    exact hbrief

/-- A mutex stays with its owner until it is free. -/
theorem owner_step (hstep : step program s e = some t) (howner : s.owner m = some i) :
    t.owner m = some i ∨ t.owner m = none := by
  cases moves_step hstep with
  | keeps j task ht _ _ => exact .inl (ht ▸ howner)
  | acquires j task m' ht hfree _ _ =>
    have hm : m ≠ m' := by
      rintro rfl
      rw [hfree] at howner
      cases howner
    left
    rw [ht, setTask_owner, setOwner_owner, if_neg hm]
    exact howner
  | releases j task m' ht _ _ =>
    rw [ht, setTask_owner, setOwner_owner]
    split_ifs
    · exact .inr rfl
    · exact .inl howner

/-- A task can go on unless it has not been started, has ended, or awaits something that is not
there. -/
theorem enabled_of_free (hstarted : s.tasks i ≠ .idle) (hended : (s.tasks i).ended = false)
    (hawaits : ¬s.Awaits i) (hfree : ∀ m, s.Waits i m → s.owner m = none) :
    Transition.Enabled (step program) (GoesOn i) s := by
  suffices hstep : ∃ t, step program s (.run i false) = some t by
    obtain ⟨t, hstep⟩ := hstep
    exact ⟨_, t, ⟨⟨false, rfl⟩, hawaits⟩, hstep⟩
  cases htask : s.tasks i with
  | idle => exact absurd htask hstarted
  | finished | cancelled =>
    rw [htask] at hended
    cases hended
  | unwinding cancelled left =>
    cases left <;> simp [step, htask]
  | running k =>
    rcases k with _ | ⟨stmt | m, k⟩
    · simp [step, htask]
    · cases stmt with
      | lock m body =>
        have howner := hfree m ⟨body, k, htask⟩
        simp [step, htask, exec, howner]
      | _ => simp [step, htask, exec]
    · simp [step, htask]

end State

/-! ### Executions -/

section Executions

open State
open Transition (Execution)

variable [DecidableEq μ] [DecidableEq ι] {program : κ → Stmt μ} {inside : μ → μ → Prop}
  {x : Execution (State.step program) (State.init : State μ ι)} {i : ι} {n : ℕ}

/-- Every task that can go on again and again goes on again and again. -/
def GoOn (x : Execution (State.step program) (State.init : State μ ι)) : Prop :=
  ∀ i, x.Fair (GoesOn i)

/-- A task that has been started has been started from there on. -/
theorem started_persists (hstarted : (x.state n).tasks i ≠ .idle) :
    ∀ m ≥ n, (x.state m).tasks i ≠ .idle :=
  x.persists (P := fun s => s.tasks i ≠ .idle) (fun m _ hm => by
    rcases tasks_step (x.next m) hm with hsame | hnext
    · rw [hsame]
      exact hm
    · exact hnext.ne_idle) hstarted

/-- A task that has come to rest can no longer go on. -/
theorem not_enabled_of_settled (hgo : GoOn x) (hsettled : x.Settled (fun s => s.tasks i) n)
    (hnext : ∀ m ≥ n, ∀ task, ((x.state m).tasks i).Next task → task ≠ (x.state m).tasks i) :
    ∃ k ≥ n, ∀ m ≥ k, ¬Transition.Enabled (State.step program) (GoesOn i) (x.state m) :=
  (hgo i).not_enabled hsettled fun m hm hgoes => hnext m hm _ (next_of_goesOn (x.next m) hgoes)

/-- Every task is brief all along. -/
theorem brief_execution (x : Execution (State.step program) (State.init : State μ ι))
    (hbrief : ∀ kind, (program kind).Brief) (n : ℕ) (i : ι) : ((x.state n).tasks i).Brief :=
  x.invariant (I := fun s => ∀ i, (s.tasks i).Brief)
    (fun _ _ hrun => Transition.run_invariant (I := fun s => ∀ i, (s.tasks i).Brief)
      (fun _ _ _ h hs i => brief_step hbrief (h i) hs) hrun fun _ => trivial) n i

/-- Every mutex is free again and again: whoever has locked it can only wait for mutexes inside
it, which are free again and again themselves. -/
theorem free_again (hinside : WellFounded inside)
    (hnested : ∀ kind, (program kind).Nested inside []) (hbrief : ∀ kind, (program kind).Brief)
    (hgo : GoOn x) (m : μ) :
    ∀ n, ∃ k ≥ n, (x.state k).owner m = none := by
  induction m using hinside.induction with
  | _ m ih =>
  intro n
  by_contra hlocked
  push Not at hlocked
  obtain ⟨i, hi⟩ := Option.ne_none_iff_exists'.mp (hlocked n le_rfl)
  have howner : ∀ k ≥ n, (x.state k).owner m = some i :=
    x.persists (P := fun s => s.owner m = some i) (fun k hk h =>
      (owner_step (x.next k) h).resolve_right (hlocked _ (hk.trans k.le_succ))) hi
  have hholds (k : ℕ) (hk : k ≥ n) : m ∈ ((x.state k).tasks i).holding :=
    ((owned_run (x.run_eventsTo k)).owner m i).mp (howner k hk)
  have hsome (k : ℕ) (hk : k ≥ n) : ((x.state k).tasks i).holding ≠ [] :=
    List.ne_nil_of_mem (hholds k hk)
  have hstarted (k : ℕ) (hk : k ≥ n) : (x.state k).tasks i ≠ .idle := by
    intro hidle
    refine hsome k hk ?_
    rw [hidle]
    rfl
  have hcloser (k : ℕ) (hk : k ≥ n) {task : Task μ} (hnext : ((x.state k).tasks i).Next task) :
      task.heldLeft < ((x.state k).tasks i).heldLeft :=
    hnext.heldLeft_lt (brief_execution x hbrief k i) (hsome k hk)
  obtain ⟨p, hp, hsettled⟩ := x.exists_settled (f := fun s => s.tasks i) Task.heldLeft n
    fun k hk => (tasks_step (x.next k) (hstarted k hk)).imp_right (hcloser k hk)
  obtain ⟨q, hq, hnot⟩ := not_enabled_of_settled hgo hsettled fun k hk task hnext hsame => by
    have hlt := hcloser k (hp.trans hk) hnext
    rw [hsame] at hlt
    exact lt_irrefl _ hlt
  have hqn : q ≥ n := hp.trans hq
  -- at rest it waits for a mutex, and once that is free it could go on
  have hwaits : ∃ m', (x.state q).Waits i m' := by
    by_contra hfree
    push Not at hfree
    refine hnot q le_rfl (enabled_of_free (hstarted q hqn) ?_
      (not_awaits_of_holding (brief_execution x hbrief q i) (hsome q hqn))
      fun m' hm' => absurd hm' (hfree m'))
    rw [← Bool.not_eq_true]
    intro hended
    exact (owned_run (x.run_eventsTo q)).not_of_ended hended m (howner q hqn)
  obtain ⟨m', hm'⟩ := hwaits
  have hm := inside_of_waits (nested_run hnested (x.run_eventsTo q) i) hm' (hholds q hqn)
  obtain ⟨k, hk, hfree⟩ := ih m' hm q
  have hkn : k ≥ n := hqn.trans hk
  have hsame : (x.state k).tasks i = (x.state q).tasks i :=
    (hsettled k (hq.trans hk)).trans (hsettled q hq).symm
  refine hnot k hk (enabled_of_free (hstarted k hkn) ?_
    (not_awaits_of_holding (brief_execution x hbrief k i) (hsome k hkn)) fun m'' hm'' => ?_)
  · rw [← Bool.not_eq_true]
    intro hended
    exact (owned_run (x.run_eventsTo k)).not_of_ended hended m (howner k hkn)
  · obtain ⟨body, rest, htask⟩ := hm'
    obtain ⟨body', rest', htask'⟩ := hm''
    rw [hsame, htask] at htask'
    cases htask'
    exact hfree

/-- A task without loops comes to its end, or awaits for ever something that is not a mutex. -/
theorem ends_or_awaits (hinside : WellFounded inside)
    (hnested : ∀ kind, (program kind).Nested inside []) (hbrief : ∀ kind, (program kind).Brief)
    (hgo : GoOn x) {kind : κ} {awaits : Bool} (hstraight : (program kind).Straight awaits)
    (hstart : x.event n = .start i kind) :
    ∃ m ≥ n, ((x.state m).tasks i).Straight awaits ∧
      (((x.state m).tasks i).ended = true ∨ ∀ k ≥ m, (x.state k).Awaits i) := by
  have hfirst : (x.state (n + 1)).tasks i = .running [.stmt (program kind)] := by
    have hstep := x.next n
    rw [hstart] at hstep
    simp only [State.step] at hstep
    split at hstep
    · rw [← Option.some.inj hstep, setTask_self]
    · cases hstep
  have hstarted : ∀ m ≥ n + 1, (x.state m).tasks i ≠ .idle := by
    refine started_persists ?_
    rw [hfirst]
    exact fun h => by cases h
  have hstays : ∀ m ≥ n + 1, ((x.state m).tasks i).Straight awaits := by
    refine fun m hm => x.persists
      (P := fun s => s.tasks i ≠ .idle ∧ (s.tasks i).Straight awaits) (n := n + 1)
      (fun k hk h => ⟨hstarted _ (hk.trans k.le_succ), ?_⟩) ⟨hstarted _ le_rfl, ?_⟩ m hm |>.2
    · rcases tasks_step (x.next k) h.1 with hsame | hnext
      · rw [hsame]
        exact h.2
      · exact hnext.straight h.2
    · rw [hfirst]
      exact ⟨hstraight, trivial⟩
  obtain ⟨p, hp, hsettled⟩ := x.exists_settled (f := fun s => s.tasks i) Task.left (n + 1)
    fun k hk => (tasks_step (x.next k) (hstarted k hk)).imp_right fun h => h.left_lt (hstays k hk)
  obtain ⟨q, hq, hnot⟩ := not_enabled_of_settled hgo hsettled fun k hk task hnext hsame => by
    have hlt := hnext.left_lt (hstays k (hp.trans hk))
    rw [hsame] at hlt
    exact lt_irrefl _ hlt
  have hqn : q ≥ n + 1 := hp.trans hq
  have hsame (k : ℕ) (hk : k ≥ q) : (x.state k).tasks i = (x.state q).tasks i :=
    (hsettled k (hq.trans hk)).trans (hsettled q hq).symm
  refine ⟨q, n.le_succ.trans hqn, hstays q hqn, ?_⟩
  by_contra hgoesOn
  rw [not_or, Bool.not_eq_true] at hgoesOn
  obtain ⟨hended, hawaits⟩ := hgoesOn
  have hawaits' (k : ℕ) (hk : k ≥ q) : ¬(x.state k).Awaits i := by
    rintro ⟨rest, htask⟩
    refine hawaits fun k' hk' => ⟨rest, ?_⟩
    rw [hsame k' hk', ← hsame k hk, htask]
  -- the only thing it could wait for is a mutex
  by_cases hwaits : ∃ m, (x.state q).Waits i m
  · obtain ⟨m, body, rest, htask⟩ := hwaits
    obtain ⟨k, hk, hfree⟩ := free_again hinside hnested hbrief hgo m q
    refine hnot k hk (enabled_of_free (hstarted k (hqn.trans hk)) ?_ (hawaits' k hk) ?_)
    · rw [hsame k hk, hended]
    · rintro m' ⟨body', rest', htask'⟩
      rw [hsame k hk, htask] at htask'
      cases htask'
      exact hfree
  · exact hnot q le_rfl (enabled_of_free (hstarted q hqn) hended (hawaits' q le_rfl)
      fun m hm => absurd ⟨m, hm⟩ hwaits)

/-- A task that awaits nothing but mutexes, and has no loops, comes to its end. -/
theorem ends_of_straight (hinside : WellFounded inside)
    (hnested : ∀ kind, (program kind).Nested inside []) (hbrief : ∀ kind, (program kind).Brief)
    (hgo : GoOn x) {kind : κ} (hstraight : (program kind).Straight false)
    (hstart : x.event n = .start i kind) : ∃ m ≥ n, ((x.state m).tasks i).ended = true := by
  obtain ⟨m, hm, hstays, hend⟩ := ends_or_awaits hinside hnested hbrief hgo hstraight hstart
  refine ⟨m, hm, hend.resolve_right fun hawaits => ?_⟩
  obtain ⟨k, htask⟩ := hawaits m le_rfl
  rw [htask] at hstays
  exact Bool.false_ne_true hstays.1

end Executions

end Locks
