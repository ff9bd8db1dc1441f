import InfinityBridge.Host.Locks
import InfinityBridge.Host.Pending
import InfinityBridge.Library.Starvation

/-!
# Every command returns

A call takes a handful of steps of its own. It may have to wait for the guard of the clients,
which another call holds while it gives up, and it waits for an ack until its deadline.
If the runtime resumes every task that can go on again and again, and the clock goes on,
no call waits for ever: it returns, whatever the gauges do, and leaves nothing in the pending map.
-/

namespace InfinityBridge.Host

/-- How many steps a call can still take. -/
def Pc.left : Pc → ℕ
  | .idle => 5
  | .created => 4
  | .inserted => 3
  | .waiting _ => 2
  | .refusing _ | .removing _ => 1
  | .finished _ | .cancelled => 0

namespace Calls

variable {uuid : ℕ → String} {s t : Calls} {e : CallEvent} {c : ℕ}

/-- The call that the runtime resumes: to start and to drop a future is up to its caller. -/
def resumed : CallEvent → Option ℕ
  | .insert c | .deliver c | .refuse c | .poll c | .remove c => some c
  | _ => none

/-- Who is resumed takes a step of its own. -/
theorem caller_of_resumed (hresumed : resumed e = some c) : caller e = some c := by
  cases e <;> simp only [resumed, reduceCtorEq] at hresumed <;> exact hresumed

/-- A step of its own takes a call further. -/
theorem left_lt_of_caller (hstep : step uuid s e = some t) (hcaller : caller e = some c) :
    (t.calls c).pc.left < (s.calls c).pc.left := by
  cases e <;> simp only [caller, Option.some.injEq, reduceCtorEq] at hcaller <;> subst hcaller
  case start | insert | refuse | remove | drop =>
    simp only [step] at hstep
    split at hstep <;> cases hstep <;> simp [*, Pc.left]
  case deliver c =>
    simp only [step] at hstep
    split at hstep
    · next hpc =>
      split_ifs at hstep
      split at hstep <;> cases hstep <;> simp [hpc, Pc.left]
    · cases hstep
  case poll c =>
    simp only [step] at hstep
    split at hstep
    · next deadline hpc =>
      obtain ⟨r, _, rfl⟩ := Option.map_eq_some_iff.mp hstep
      simp [hpc, Pc.left]
    · cases hstep

/-- The steps of the others leave a call where it is. -/
theorem pc_step_other (hstep : step uuid s e = some t) (hcaller : caller e ≠ some c) :
    (t.calls c).pc = (s.calls c).pc := by
  rw [call_step_other hstep hcaller]

/-- A call only goes on. -/
theorem pc_step (hstep : step uuid s e = some t) :
    (t.calls c).pc = (s.calls c).pc ∨ (t.calls c).pc.left < (s.calls c).pc.left := by
  by_cases hcaller : caller e = some c
  · exact .inr (left_lt_of_caller hstep hcaller)
  · exact .inl (pc_step_other hstep hcaller)

/-- A call that has not been dropped is never cancelled. -/
theorem not_cancelled_step (hstep : step uuid s e = some t) (hdrop : e ≠ .drop c)
    (hpc : (s.calls c).pc ≠ .cancelled) : (t.calls c).pc ≠ .cancelled := by
  by_cases hcaller : caller e = some c
  · cases e <;> simp only [caller, Option.some.injEq, reduceCtorEq] at hcaller <;> subst hcaller
    case drop c => exact absurd rfl hdrop
    case start | insert | refuse | remove =>
      simp only [step] at hstep
      split at hstep <;> cases hstep
      simp
    case deliver c =>
      simp only [step] at hstep
      split at hstep
      · split_ifs at hstep
        split at hstep <;> cases hstep <;> simp
      · cases hstep
    case poll c =>
      simp only [step] at hstep
      split at hstep
      · obtain ⟨r, _, rfl⟩ := Option.map_eq_some_iff.mp hstep
        simp
      · cases hstep
  · rw [pc_step_other hstep hcaller]
    exact hpc

/-! ### What a call can wait for -/

/-- A call that has come to its first lock goes on. -/
theorem enabled_created (hpc : (s.calls c).pc = .created) :
    ∃ t, step uuid s (.insert c) = some t := by
  simp [step, hpc]

/-- A call goes on to its clients when nobody holds their guard. -/
theorem enabled_inserted (hpc : (s.calls c).pc = .inserted) (hguard : s.guard = none) :
    ∃ t, step uuid s (.deliver c) = some t := by
  simp only [step, hpc, hguard, if_true]
  split <;> exact ⟨_, rfl⟩

/-- A call that gives up goes on. -/
theorem enabled_refusing {err : BridgeError} (hpc : (s.calls c).pc = .refusing err) :
    ∃ t, step uuid s (.refuse c) = some t ∧ t.guard = none := by
  simp only [step, hpc]
  exact ⟨_, rfl, rfl⟩

/-- A call goes on when its deadline has passed. -/
theorem enabled_waiting {deadline : Instant} (hpc : (s.calls c).pc = .waiting deadline)
    (hdeadline : deadline ≤ s.now) : ∃ t, step uuid s (.poll c) = some t := by
  simp only [step, hpc, pollResult, hdeadline, if_true]
  split
  · exact ⟨_, rfl⟩
  · split_ifs <;> exact ⟨_, rfl⟩

/-- A call that has its result goes on. -/
theorem enabled_removing {r : AckResult} (hpc : (s.calls c).pc = .removing r) :
    ∃ t, step uuid s (.remove c) = some t := by
  simp [step, hpc]

/-- The clock does not go back. -/
theorem now_le_step (hstep : step uuid s e = some t) : s.now ≤ t.now := by
  cases e <;> simp only [step, locked] at hstep
  case poll c =>
    split at hstep
    · obtain ⟨r, _, rfl⟩ := Option.map_eq_some_iff.mp hstep
      rfl
    · cases hstep
  case tick d =>
    cases hstep
    exact le_self_add
  all_goals (repeat' split at hstep) <;> cases hstep <;> rfl

/-- The guard of the clients stays with its call until that call lets go of it. -/
theorem guard_step_holder (hstep : step uuid s e = some t) (hguard : s.guard = some c) :
    t.guard = some c ∨ t.guard = none := by
  cases hcaller : caller e with
  | none => exact .inl ((guard_step_other hstep hcaller).trans hguard)
  | some c' =>
    cases e <;> simp only [caller, reduceCtorEq] at hcaller <;> simp only [step] at hstep
    case start | insert | remove =>
      split at hstep <;> cases hstep
      exact .inl hguard
    case deliver =>
      rw [hguard] at hstep
      split at hstep <;> simp at hstep
    case poll =>
      split at hstep
      · obtain ⟨r, _, rfl⟩ := Option.map_eq_some_iff.mp hstep
        exact .inl hguard
      · cases hstep
    case refuse =>
      split at hstep <;> cases hstep
      exact .inr rfl
    case drop =>
      split at hstep <;> cases hstep
      · exact .inr rfl
      all_goals exact .inl hguard

/-- An entry of the pending map stands for a call that is on its way, as long as that call is
not dropped. -/
theorem owns_step (hcons : Consistent uuid s) (hdrop : e ≠ .drop c)
    (howns : ∀ id, s.hub.pending.lookup id = some c → (s.calls c).pc.inProgress = true)
    (hstep : step uuid s e = some t) (id : String) (h : t.hub.pending.lookup id = some c) :
    (t.calls c).pc.inProgress = true := by
  have hkeep (hold : s.hub.pending.lookup id = some c) (hrefuse : e ≠ .refuse c)
      (hremove : e ≠ .remove c) : (t.calls c).pc.inProgress = true :=
    inProgress_step hstep (howns id hold) hrefuse hremove hdrop
  rw [pending_step hstep] at h
  cases e with
  | insert c' =>
    simp only [pendingAfter, Table.lookup_insert_eq] at h
    split_ifs at h
    · cases h
      simp only [step] at hstep
      split at hstep <;> cases hstep
      simp [Pc.inProgress]
    · exact hkeep h (by simp) (by simp)
  | refuse c' | remove c' =>
    simp only [pendingAfter, Table.lookup_erase_eq] at h
    split_ifs at h with hid
    have hc : c' ≠ c := by
      rintro rfl
      exact hid (hcons.pending id c' h).symm
    exact hkeep h (by simp [hc]) (by simp [hc])
  | takeAck d a =>
    simp only [pendingAfter, Table.lookup_erase_eq] at h
    split_ifs at h
    exact hkeep h (by simp) (by simp)
  | _ => exact hkeep h (by simp) (by simp)

section Executions

open Transition (Execution)

variable {x : Execution (step uuid) init} {n : ℕ}

/-- The runtime resumes each call again and again if that call can go on again and again. -/
def Resumes (x : Execution (step uuid) init) : Prop :=
  ∀ c, x.Fair fun _ e => resumed e = some c

/-- The guard of the clients is let go of again and again. -/
theorem guard_released (hresumes : Resumes x) (n : ℕ) : ∃ m ≥ n, (x.state m).guard = none := by
  by_contra hheld
  push Not at hheld
  obtain ⟨g, hg⟩ := Option.ne_none_iff_exists'.mp (hheld n le_rfl)
  have hstays : ∀ m ≥ n, (x.state m).guard = some g :=
    x.persists (P := fun s => s.guard = some g) (fun m hm hguard =>
      (guard_step_holder (x.next m) hguard).resolve_right (hheld _ (hm.trans m.le_succ))) hg
  have hrefusing (m : ℕ) (hm : m ≥ n) : ∃ err, ((x.state m).calls g).pc = .refusing err :=
    refusing_of_guard (x.run_eventsTo m) (hstays m hm)
  -- its holder could go on all the time, so it does
  obtain ⟨m, hm, hresumed⟩ := (hresumes g).taken fun m hm => by
    obtain ⟨err, hpc⟩ := hrefusing m hm
    obtain ⟨t, ht, _⟩ : ∃ t, step uuid (x.state m) (.refuse g) = some t ∧ t.guard = none :=
      enabled_refusing hpc
    exact ⟨.refuse g, t, rfl, ht⟩
  obtain ⟨err, hpc⟩ := hrefusing m hm
  have hleft := left_lt_of_caller (x.next m) (caller_of_resumed hresumed)
  obtain ⟨err', hpc'⟩ := hrefusing (m + 1) (hm.trans m.le_succ)
  rw [hpc, hpc'] at hleft
  exact absurd hleft (lt_irrefl _)

/-- A call comes to rest. -/
theorem pc_settles (x : Execution (step uuid) init) (c n : ℕ) :
    ∃ m ≥ n, x.Settled (fun s => (s.calls c).pc) m :=
  x.exists_settled Pc.left n fun m _ => pc_step (x.next m)

/-- At rest the call cannot go on any more. -/
theorem not_enabled_of_settled (hresumes : Resumes x)
    (hsettled : x.Settled (fun s => (s.calls c).pc) n) :
    ∃ k ≥ n, ∀ m ≥ k, ∀ e t, resumed e = some c → step uuid (x.state m) e ≠ some t := by
  obtain ⟨k, hk, hnot⟩ := (hresumes c).not_enabled hsettled fun m _ hresumed hsame => by
    have hleft := left_lt_of_caller (x.next m) (caller_of_resumed hresumed)
    rw [hsame] at hleft
    exact lt_irrefl _ hleft
  exact ⟨k, hk, fun m hm e t hresumed hstep => hnot m hm ⟨e, t, hresumed, hstep⟩⟩

/-- The clock reaches every instant and stays past it. -/
theorem now_reaches (hclock : ∀ τ, ∃ n, τ ≤ (x.state n).now) (τ : Instant) (n : ℕ) :
    ∃ m ≥ n, τ ≤ (x.state m).now := by
  obtain ⟨m, hm⟩ := hclock τ
  have hlater := x.persists (P := fun s => τ ≤ s.now)
    (fun k _ hk => hk.trans (now_le_step (x.next k))) hm
  exact ⟨max n m, le_max_left _ _, hlater _ (le_max_right _ _)⟩

/-- At rest a call has not been made or has come to its end. -/
theorem ended_of_settled (hresumes : Resumes x) (hclock : ∀ τ, ∃ n, τ ≤ (x.state n).now)
    (hsettled : x.Settled (fun s => (s.calls c).pc) n) :
    ((x.state n).calls c).pc = .idle ∨ ((x.state n).calls c).pc = .cancelled ∨
      ∃ r, ((x.state n).calls c).pc = .finished r := by
  obtain ⟨k, hk, hnot⟩ := not_enabled_of_settled hresumes hsettled
  have hpc (m : ℕ) (hm : m ≥ k) : ((x.state m).calls c).pc = ((x.state n).calls c).pc :=
    hsettled m (hk.trans hm)
  cases hat : ((x.state n).calls c).pc with
  | idle => exact .inl rfl
  | cancelled => exact .inr (.inl rfl)
  | finished r => exact .inr (.inr ⟨r, rfl⟩)
  | created =>
    obtain ⟨t, ht⟩ := enabled_created ((hpc k le_rfl).trans hat)
    exact absurd ht (hnot k le_rfl _ t rfl)
  | inserted =>
    obtain ⟨m, hm, hguard⟩ := guard_released hresumes k
    obtain ⟨t, ht⟩ := enabled_inserted ((hpc m hm).trans hat) hguard
    exact absurd ht (hnot m hm _ t rfl)
  | refusing err =>
    obtain ⟨t, ht, _⟩ := enabled_refusing ((hpc k le_rfl).trans hat)
    exact absurd ht (hnot k le_rfl _ t rfl)
  | waiting deadline =>
    obtain ⟨m, hm, hlate⟩ := now_reaches hclock deadline k
    obtain ⟨t, ht⟩ := enabled_waiting ((hpc m hm).trans hat) hlate
    exact absurd ht (hnot m hm _ t rfl)
  | removing r =>
    obtain ⟨t, ht⟩ := enabled_removing ((hpc k le_rfl).trans hat)
    exact absurd ht (hnot k le_rfl _ t rfl)

/-- A call that has been made comes to its end. -/
theorem ends_of_started (hresumes : Resumes x) (hclock : ∀ τ, ∃ n, τ ≤ (x.state n).now)
    (hstarted : ((x.state n).calls c).pc ≠ .idle) :
    ∃ m ≥ n, x.Settled (fun s => (s.calls c).pc) m ∧
      (((x.state m).calls c).pc = .cancelled ∨ ∃ r, ((x.state m).calls c).pc = .finished r) := by
  obtain ⟨m, hm, hsettled⟩ := pc_settles x c n
  refine ⟨m, hm, hsettled, (ended_of_settled hresumes hclock hsettled).resolve_left ?_⟩
  have hleft : ((x.state n).calls c).pc.left ≤ 4 := by
    cases hpc : ((x.state n).calls c).pc with
    | idle => exact absurd hpc hstarted
    | _ => simp [Pc.left]
  have hlater := x.persists (P := fun s => (s.calls c).pc.left ≤ 4) (fun k _ hk => by
    rcases pc_step (c := c) (x.next k) with hsame | hlower
    · rw [hsame]
      exact hk
    · exact hlower.le.trans hk) hleft m hm
  intro hidle
  simp [hidle, Pc.left] at hlater

/-- Senders are kept under the id of their call all along. -/
theorem consistent_execution (x : Execution (step uuid) init) : ∀ n, Consistent uuid (x.state n) :=
  x.invariant fun _ _ hrun => Transition.run_invariant (fun _ _ _ h hs => consistent_step h hs)
    hrun consistent_init

/-- The pending map has entries only of calls that are on their way, but for those of
calls that have been dropped. -/
theorem owns_execution (hkept : ∀ m, x.event m ≠ .drop c) (n : ℕ) {id : String}
    (hpending : (x.state n).hub.pending.lookup id = some c) :
    ((x.state n).calls c).pc.inProgress = true := by
  induction n generalizing id with
  | zero =>
    rw [x.first] at hpending
    cases hpending
  | succ n ih =>
    exact owns_step (consistent_execution x n) (hkept n) (fun _ hid => ih hid) (x.next n) id
      hpending

/-- If the runtime resumes every call that can go on again and again, and the clock goes on, then
a call that is not dropped returns and stays returned, and its id is not pending any more.
Nothing is asked of the gauges, of their connections or of the other callers. -/
theorem commands_return (huuid : Function.Injective uuid) (hresumes : Resumes x)
    (hclock : ∀ τ, ∃ n, τ ≤ (x.state n).now) (hstarted : ((x.state n).calls c).pc ≠ .idle)
    (hkept : ∀ m, x.event m ≠ .drop c) :
    ∃ m ≥ n, ∃ r, ∀ k ≥ m, ((x.state k).calls c).pc = .finished r ∧
      uuid c ∉ (x.state k).hub.pending := by
  obtain ⟨m, hm, hsettled, hend⟩ := ends_of_started hresumes hclock hstarted
  have hlive : ((x.state m).calls c).pc ≠ .cancelled := by
    refine x.persists (P := fun s => (s.calls c).pc ≠ .cancelled) (n := 0)
      (fun k _ hk => not_cancelled_step (x.next k) (hkept k) hk) ?_ m m.zero_le
    rw [x.first]
    exact Pc.noConfusion
  obtain ⟨r, hr⟩ := hend.resolve_left hlive
  refine ⟨m, hm, r, fun k hk => ?_⟩
  have hpc : ((x.state k).calls c).pc = .finished r := (hsettled k hk).trans hr
  refine ⟨hpc, fun hmem => ?_⟩
  obtain ⟨c', hc'⟩ := Option.isSome_iff_exists.mp (AList.lookup_isSome.mpr hmem)
  -- the entry would be that of the call itself, which has returned
  obtain rfl := huuid ((consistent_execution x k).pending _ _ hc')
  have hprogress := owns_execution hkept k hc'
  rw [hpc] at hprogress
  cases hprogress

/-- The clock goes on, and nobody does anything. -/
def ticking (uuid : ℕ → String) (s : Calls) : Execution (step uuid) s where
  state n := { s with now := s.now + n }
  event _ := .tick 1
  first := rfl
  next _ := rfl

/-- Nothing resumes a call that has not been made or has come to its end. -/
theorem step_eq_none_of_ended (hended : (s.calls c).pc.left = 5 ∨ (s.calls c).pc.left = 0)
    (hresumed : resumed e = some c) : step uuid s e = none := by
  cases e <;> simp only [resumed, Option.some.injEq, reduceCtorEq] at hresumed <;>
    subst hresumed <;> simp only [step] <;> split
  all_goals
    first
    | rfl
    | (next hpc => simp [hpc, Pc.left] at hended)

end Executions

section Contended

open Transition (Execution)

/-- Three commands: the first waits for an ack that never comes, the second gives up and holds
the guard of the clients for which the third waits, and the third is dropped. -/
def contended : List CallEvent :=
  [.register 0, .start 0 none .null 5, .insert 0, .deliver 0, .writerEnds 0,
    .start 1 none .null 5, .insert 1, .deliver 1, .start 2 none .null 5, .insert 2, .refuse 1,
    .deliver 2, .drop 2, .tick 5, .poll 0, .remove 0]

/-- The run exists. -/
theorem contended_isSome : (Transition.run (step wordId) init contended).isSome = true := by rfl

/-- The three calls, after which the clock goes on. -/
theorem exists_contended : ∃ x : Execution (step wordId) init, Resumes x ∧
    (∀ τ, ∃ n, τ ≤ (x.state n).now) ∧ (∀ m, x.event m ≠ .drop 0) ∧
    Transition.run (step wordId) init (contended.take 4) = some (x.state 4) := by
  let s := (Transition.run (step wordId) init contended).get contended_isSome
  have hrun : Transition.run (step wordId) init contended = some s := (Option.some_get _).symm
  obtain ⟨x, hstate, hafter, hevent⟩ := Transition.Execution.exists_append hrun (ticking wordId s)
  refine ⟨x, fun c => ?_, fun τ => ?_, fun m hm => ?_, ?_⟩
  · have hended : (s.calls c).pc.left = 5 ∨ (s.calls c).pc.left = 0 := by
      rcases c with _ | _ | _ | c
      · exact .inr rfl
      · exact .inr rfl
      · exact .inr rfl
      · exact .inl rfl
    refine Transition.Execution.fair_of_not_enabled (n := contended.length) fun m hm => ?_
    rintro ⟨e, t, hresumed, hstep⟩
    obtain ⟨k, rfl⟩ := Nat.exists_eq_add_of_le hm
    have hended' : (((ticking wordId s).state k).calls c).pc.left = 5 ∨
        (((ticking wordId s).state k).calls c).pc.left = 0 := hended
    rw [hstate k, step_eq_none_of_ended hended' hresumed] at hstep
    cases hstep
  · refine ⟨contended.length + τ, ?_⟩
    rw [hstate]
    exact Nat.le_add_left τ s.now
  · rcases Nat.lt_or_ge m contended.length with hlt | hge
    · have hmem := List.getElem_mem hlt
      rw [← hevent m hlt, hm] at hmem
      simp [contended] at hmem
    · obtain ⟨k, rfl⟩ := Nat.exists_eq_add_of_le hge
      rw [hafter] at hm
      cases hm
  · rw [← Transition.Execution.eventsTo_of_append hevent (by decide)]
    exact x.run_eventsTo 4

/-- The first call returns. -/
theorem commands_return_contended : ∃ x : Execution (step wordId) init,
    ((x.state 4).calls 0).pc ≠ .idle ∧
    ∃ m ≥ 4, ∃ r, ∀ k ≥ m, ((x.state k).calls 0).pc = .finished r ∧
      wordId 0 ∉ (x.state k).hub.pending := by
  obtain ⟨x, hresumes, hclock, hkept, hrun⟩ := exists_contended
  have hstarted : ((x.state 4).calls 0).pc ≠ .idle := by
    rw [← Option.some.inj hrun]
    exact Pc.noConfusion
  exact ⟨x, hstarted, commands_return wordId_injective hresumes hclock hstarted hkept⟩

end Contended

end Calls

/-! ### No operation starves -/

section Operations

open Locks (Event State Stmt)
open Transition (Execution)

variable {ι : Type*} [DecidableEq ι]

/-- Nothing but a mutex is awaited while a mutex is held. -/
theorem Operation.program_brief (operation : Operation) : operation.program.Brief := by
  cases operation <;>
    simp [Operation.program, Operation.mayReturn, Operation.locked, Operation.mayRefuse,
      Stmt.Brief, Stmt.Straight]

/-- Only `wait_connected` has a loop, and of the others only `command` awaits something that is
not a mutex. -/
theorem Operation.program_straight {operation : Operation} (hloop : operation ≠ .waitConnected)
    {awaits : Bool} (hawaits : operation = .command → awaits = true) :
    operation.program.Straight awaits := by
  cases operation <;>
    simp_all [Operation.program, Operation.mayReturn, Operation.locked, Operation.mayRefuse,
      Stmt.Straight]

/-- If every operation that can go on again and again does so, then each of the two mutexes is
free again and again, and every operation other than `wait_connected` comes to its end, but
for a `command` that awaits its ack for ever. -/
theorem operations_progress {x : Execution (State.step Operation.program)
      (State.init : State Mutex ι)} (hgo : Locks.GoOn x) :
    (∀ m n, ∃ k ≥ n, (x.state k).owner m = none) ∧
    ∀ n i operation, x.event n = .start i operation → operation ≠ .waitConnected →
      ∃ m ≥ n, ((x.state m).tasks i).ended = true ∨
        operation = .command ∧ ∀ k ≥ m, (x.state k).Awaits i := by
  refine ⟨Locks.free_again Mutex.inside_wellFounded Operation.program_nested
    Operation.program_brief hgo, fun n i operation hstart hloop => ?_⟩
  by_cases hcommand : operation = .command
  · obtain ⟨m, hm, -, hend⟩ := Locks.ends_or_awaits Mutex.inside_wellFounded
      Operation.program_nested Operation.program_brief hgo
      (Operation.program_straight hloop fun _ => rfl) hstart
    exact ⟨m, hm, hend.imp_right fun hawaits => ⟨hcommand, hawaits⟩⟩
  · obtain ⟨m, hm, hended⟩ := Locks.ends_of_straight Mutex.inside_wellFounded
      Operation.program_nested Operation.program_brief hgo
      (Operation.program_straight hloop fun h => absurd h hcommand) hstart
    exact ⟨m, hm, .inl hended⟩

/-- A command gives up and waits for `pending` with the guard of the clients, which a caller of
`wait_connected` waits for. An ack is dispatched, and both go on. -/
def crowded : List (Event Operation ℕ) :=
  List.flatten [[.start 1 .command], List.replicate 10 (.run 1 false), [.run 1 true, .run 1 false],
    [.start 2 .dispatchAck, .run 2 false, .run 2 false, .start 0 .waitConnected],
    List.replicate 4 (.run 2 false), List.replicate 6 (.run 1 false)]

/-- Once round the loop of `wait_connected`. -/
def onceRound : List (Event Operation ℕ) := List.replicate 9 (.run 0 false)

/-- The loop of `wait_connected` comes back to where it was. -/
theorem run_onceRound {l : State Mutex ℕ} (hclients : l.owner .clients = none)
    (htask : l.tasks 0 = .running [.stmt Operation.waitConnected.program]) :
    Transition.run (State.step Operation.program) l onceRound = some l := by
  have hself : l.setTask 0 (.running [.stmt Operation.waitConnected.program]) = l := by
    rw [← htask]
    exact congrArg (fun tasks => (⟨tasks, l.owner⟩ : State Mutex ℕ)) (Function.update_eq_self ..)
  conv_rhs => rw [← hself]
  simp [onceRound, Transition.run, State.step, htask, hclients, Operation.program,
    Operation.locked, Operation.mayReturn, State.exec, State.setOwner_eq_self]

/-- The run exists. -/
theorem crowded_isSome :
    (Transition.run (State.step Operation.program) State.init crowded).isSome = true := by rfl

/-- The three operations, after which `wait_connected` goes on for ever. -/
theorem exists_crowded :
    ∃ x : Execution (State.step Operation.program) (State.init : State Mutex ℕ),
      Locks.GoOn x ∧ x.event 0 = .start 1 .command := by
  let l := (Transition.run (State.step Operation.program) State.init crowded).get crowded_isSome
  have hrun : Transition.run (State.step Operation.program) State.init crowded = some l :=
    (Option.some_get _).symm
  have htask : l.tasks 0 = .running [.stmt Operation.waitConnected.program] := rfl
  obtain ⟨x, hround, hstate⟩ := Transition.Execution.exists_cycle
    (run_onceRound (l := l) rfl htask) (by decide)
  obtain ⟨y, hlater, hafter, hevent⟩ := Transition.Execution.exists_append hrun x
  have hrun0 (n : ℕ) : x.event n = .run 0 false := List.eq_of_mem_replicate (hround n)
  refine ⟨y, fun i => ?_, hevent 0 (by decide)⟩
  by_cases hi : i = 0
  · -- the loop goes on each time it has come round
    intro _ n
    refine ⟨crowded.length + onceRound.length * n, ?_, ⟨false, ?_⟩, ?_⟩
    · exact (Nat.le_mul_of_pos_left n (by decide)).trans (Nat.le_add_left _ _)
    · rw [hafter, hrun0, hi]
    · rw [hlater, hstate _ (Nat.mul_mod_right _ _), hi]
      rintro ⟨k, hk⟩
      rw [htask] at hk
      cases hk
  · -- the other tasks have ended or have not been started
    have hstays (n : ℕ) : (x.state n).tasks i = l.tasks i := by
      refine x.persists (P := fun s => s.tasks i = l.tasks i) (n := 0) (fun m _ hm => ?_) ?_ n
        n.zero_le
      · have hstep := x.next m
        rw [hrun0] at hstep
        obtain ⟨s', task, htasks, ht, -⟩ := State.next_step hstep
        rw [ht, Event.actor, State.setTask_ne s' hi, htasks, hm]
      · rw [x.first]
    have hended : ∀ task, ¬(l.tasks i).Next task := by
      rcases i with _ | _ | _ | i
      · exact absurd rfl hi
      all_goals
        intro task hnext
        cases hnext
    refine Transition.Execution.fair_of_not_enabled (n := crowded.length) fun m hm => ?_
    rintro ⟨e, t, hgoes, hstep⟩
    obtain ⟨k, rfl⟩ := Nat.exists_eq_add_of_le hm
    have hnext := State.next_of_goesOn hstep hgoes
    rw [hlater, hstays] at hnext
    exact hended _ hnext

/-- The command comes to its end or to its await. -/
theorem operations_progress_crowded :
    ∃ x : Execution (State.step Operation.program) (State.init : State Mutex ℕ),
      x.event 0 = .start 1 .command ∧ (∀ m n, ∃ k ≥ n, (x.state k).owner m = none) ∧
      ∃ m ≥ 0, ((x.state m).tasks 1).ended = true ∨ ∀ k ≥ m, (x.state k).Awaits 1 := by
  obtain ⟨x, hgo, hstart⟩ := exists_crowded
  obtain ⟨hfree, hend⟩ := operations_progress hgo
  obtain ⟨m, hm, hend⟩ := hend 0 1 .command hstart Operation.noConfusion
  exact ⟨x, hstart, hfree, m, hm, hend.imp_right And.right⟩

end Operations

end InfinityBridge.Host
