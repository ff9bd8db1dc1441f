import InfinityBridge.Library.Transition

/-!
# Executions that go on for ever

An execution takes one event after another and never stops. It is fair to a kind of events
if it takes such events again and again whenever they can happen again and again. What
becomes of a system under fairness is shown in two steps: a component that only changes
downwards comes to rest, and at rest the events that would change it can no longer happen.
States and events are arbitrary.
-/

namespace Transition

variable {σ ε : Type*} {step : σ → ε → Option σ} {start : σ}

/-- The states and the events of a system that goes on for ever. -/
structure Execution (step : σ → ε → Option σ) (start : σ) where
  state : ℕ → σ
  event : ℕ → ε
  first : state 0 = start
  next : ∀ n, step (state n) (event n) = some (state (n + 1))

/-- An event of the kind can happen. -/
def Enabled (step : σ → ε → Option σ) (kind : σ → ε → Prop) (s : σ) : Prop :=
  ∃ e t, kind s e ∧ step s e = some t

namespace Execution

/-- The events up to a point. -/
def eventsTo (x : Execution step start) (n : ℕ) : List ε := (List.range n).map x.event

/-- Up to any point an execution is a run. -/
theorem run_eventsTo (x : Execution step start) (n : ℕ) :
    run step start (x.eventsTo n) = some (x.state n) := by
  induction n with
  | zero => rw [x.first, eventsTo, List.range_zero, List.map_nil, run_nil]
  | succ n ih =>
    rw [eventsTo, List.range_succ, List.map_append]
    exact run_concat_eq_some.mpr ⟨x.state n, ih, x.next n⟩

/-- What holds after every run holds all along. -/
theorem invariant (x : Execution step start) {I : σ → Prop}
    (hI : ∀ es s, run step start es = some s → I s) (n : ℕ) : I (x.state n) :=
  hI _ _ (x.run_eventsTo n)

/-- Events of the kind that can happen again and again happen again and again. -/
def Fair (x : Execution step start) (kind : σ → ε → Prop) : Prop :=
  (∀ n, ∃ m ≥ n, Enabled step kind (x.state m)) → ∀ n, ∃ m ≥ n, kind (x.state m) (x.event m)

/-- An execution with one more event before it. -/
def cons {t : σ} (s : σ) (e : ε) (h : step s e = some t) (x : Execution step t) :
    Execution step s where
  state n := n.casesOn s x.state
  event n := n.casesOn e x.event
  first := rfl
  next n := by
    cases n with
    | zero =>
      rw [← x.first] at h
      exact h
    | succ n => exact x.next n

/-- An execution with a run before it. -/
theorem exists_append {s t : σ} {es : List ε} (hrun : run step s es = some t)
    (x : Execution step t) :
    ∃ y : Execution step s, (∀ n, y.state (es.length + n) = x.state n) ∧
      (∀ n, y.event (es.length + n) = x.event n) ∧ ∀ n (h : n < es.length), y.event n = es[n] := by
  induction es generalizing s with
  | nil =>
    rw [run_nil, Option.some.injEq] at hrun
    subst hrun
    refine ⟨x, fun n => ?_, fun n => ?_, fun n hn => absurd hn n.not_lt_zero⟩
    · rw [List.length_nil, Nat.zero_add]
    · rw [List.length_nil, Nat.zero_add]
  | cons e es ih =>
    obtain ⟨u, hstep, hrest⟩ := run_cons_eq_some.mp hrun
    obtain ⟨y, hstate, hafter, hevent⟩ := ih hrest
    refine ⟨y.cons s e hstep, fun n => ?_, fun n => ?_, fun n hn => ?_⟩
    · rw [List.length_cons, Nat.add_right_comm]
      exact hstate n
    · rw [List.length_cons, Nat.add_right_comm]
      exact hafter n
    · cases n with
      | zero => rfl
      | succ n => exact hevent n (Nat.lt_of_succ_lt_succ hn)

/-- The events up to a point of the run are those of the run. -/
theorem eventsTo_of_append {s : σ} {es : List ε} {y : Execution step s}
    (hevent : ∀ n (h : n < es.length), y.event n = es[n]) {n : ℕ} (hn : n ≤ es.length) :
    y.eventsTo n = es.take n := by
  apply List.ext_getElem
  · simp [eventsTo, hn]
  · intro i hi hi'
    have hlt : i < es.length := by
      rw [List.length_take] at hi'
      omega
    simp [eventsTo, hevent i hlt]

/-- A run that comes back to where it was can be repeated for ever. -/
theorem exists_cycle {s : σ} {es : List ε} (hrun : run step s es = some s) (hne : es ≠ []) :
    ∃ x : Execution step s, (∀ n, x.event n ∈ es) ∧
      ∀ n, n % es.length = 0 → x.state n = s := by
  have hpos : 0 < es.length := List.length_pos_iff.mpr hne
  have hbegin (n : ℕ) : ∃ t, run step s (es.take n) = some t := by
    rw [← List.take_append_drop n es] at hrun
    obtain ⟨t, ht, -⟩ := run_append_eq_some.mp hrun
    exact ⟨t, ht⟩
  choose state hstate using hbegin
  have hzero : state 0 = s := (Option.some.inj (hstate 0)).symm
  have hnext (n : ℕ) : step (state (n % es.length))
      (es.get ⟨n % es.length, n.mod_lt hpos⟩) = some (state ((n + 1) % es.length)) := by
    have hlt := n.mod_lt hpos
    have hlast := hstate (n % es.length + 1)
    rw [List.take_succ_eq_append_getElem hlt] at hlast
    obtain ⟨t, ht, hstep⟩ := run_concat_eq_some.mp hlast
    rw [hstate, Option.some.injEq] at ht
    rw [ht, List.get_eq_getElem, hstep, Option.some.injEq]
    rcases Nat.lt_or_ge (n % es.length + 1) es.length with hinner | hend
    · rw [Nat.add_mod, Nat.mod_eq_of_lt (a := 1) (by omega), Nat.mod_eq_of_lt hinner]
    · have hlength : n % es.length + 1 = es.length := by omega
      have hround : (n + 1) % es.length = 0 := by
        rw [← Nat.mod_add_mod, hlength, Nat.mod_self]
      have hall := hstate es.length
      rw [List.take_length, hrun] at hall
      rw [hround, hlength, hzero]
      exact (Option.some.inj hall).symm
  let x : Execution step s :=
    { state := fun n => state (n % es.length)
      event := fun n => es.get ⟨n % es.length, n.mod_lt hpos⟩
      first := by rw [Nat.zero_mod, hzero]
      next := hnext }
  refine ⟨x, fun n => List.get_mem es _, fun n hn => ?_⟩
  have hstart : state (n % es.length) = s := by rw [hn, hzero]
  exact hstart

/-- A run that ends where an event changes nothing goes on with that event for ever. -/
theorem exists_idling {s t : σ} {es : List ε} {e : ε} (hrun : run step s es = some t)
    (hidle : step t e = some t) :
    ∃ x : Execution step s, (∀ n ≥ es.length, x.state n = t) ∧ (∀ n, x.event n ∈ es ++ [e]) ∧
      ∀ n (h : n < es.length), x.event n = es[n] := by
  have hround : run step t [e] = some t := run_cons_eq_some.mpr ⟨t, hidle, rfl⟩
  obtain ⟨x, hafter, hstate⟩ := exists_cycle hround (List.cons_ne_nil e [])
  obtain ⟨y, hlater, hevents, hevent⟩ := exists_append hrun x
  refine ⟨y, fun n hn => ?_, fun n => ?_, hevent⟩
  · obtain ⟨k, rfl⟩ := Nat.exists_eq_add_of_le hn
    rw [hlater]
    exact hstate k (Nat.mod_one k)
  · rcases Nat.lt_or_ge n es.length with hlt | hge
    · rw [hevent n hlt]
      exact List.mem_append_left _ (List.getElem_mem hlt)
    · obtain ⟨k, rfl⟩ := Nat.exists_eq_add_of_le hge
      rw [hevents]
      exact List.mem_append_right _ (hafter k)

/-- An execution is fair to what can no longer happen from some point on. -/
theorem fair_of_not_enabled {x : Execution step start} {kind : σ → ε → Prop} {n : ℕ}
    (hnot : ∀ m ≥ n, ¬Enabled step kind (x.state m)) : x.Fair kind := by
  intro hoften
  obtain ⟨m, hm, henabled⟩ := hoften n
  exact absurd henabled (hnot m hm)

/-- What no longer happens can at some point no longer happen. -/
theorem Fair.not_enabled_of_not_taken {x : Execution step start} {kind : σ → ε → Prop}
    (hfair : x.Fair kind) {n : ℕ} (hnot : ∀ m ≥ n, ¬kind (x.state m) (x.event m)) :
    ∃ k ≥ n, ∀ m ≥ k, ¬Enabled step kind (x.state m) := by
  by_contra hagain
  push Not at hagain
  have hoften (m : ℕ) : ∃ k ≥ m, Enabled step kind (x.state k) := by
    obtain ⟨k, hk, henabled⟩ := hagain (max n m) (le_max_left _ _)
    exact ⟨k, (le_max_right _ _).trans hk, henabled⟩
  obtain ⟨m, hm, hkind⟩ := hfair hoften n
  exact hnot m hm hkind

/-- What can happen from some point on happens. -/
theorem Fair.taken {x : Execution step start} {kind : σ → ε → Prop} (hfair : x.Fair kind) {n : ℕ}
    (henabled : ∀ m ≥ n, Enabled step kind (x.state m)) :
    ∃ m ≥ n, kind (x.state m) (x.event m) :=
  hfair (fun m => ⟨max n m, le_max_right _ _, henabled _ (le_max_left _ _)⟩) n

/-- What every step keeps is kept from any point on. -/
theorem persists (x : Execution step start) {P : σ → Prop} {n : ℕ}
    (hstep : ∀ m ≥ n, P (x.state m) → P (x.state (m + 1))) (hn : P (x.state n)) :
    ∀ m ≥ n, P (x.state m) := by
  intro m hm
  induction m, hm using Nat.le_induction with
  | base => exact hn
  | succ m hm ih => exact hstep m hm ih

section Settles

variable {β α : Type*} (f : σ → β)

/-- The component has its last value. -/
def Settled (x : Execution step start) (n : ℕ) : Prop :=
  ∀ m ≥ n, f (x.state m) = f (x.state n)

variable {f}

/-- It has it from there on. -/
theorem Settled.mono {x : Execution step start} {n m : ℕ} (h : x.Settled f n) (hm : n ≤ m) :
    x.Settled f m :=
  fun k hk => (h k (hm.trans hk)).trans (h m hm).symm

/-- A component that only changes downwards settles. -/
theorem exists_settled (x : Execution step start) [LT α] [WellFoundedLT α] (rank : β → α) (n : ℕ)
    (hstep : ∀ m ≥ n, f (x.state (m + 1)) = f (x.state m) ∨
      rank (f (x.state (m + 1))) < rank (f (x.state m))) :
    ∃ m ≥ n, x.Settled f m := by
  -- take the point with the least rank
  let ranks : Set α := {a | ∃ m ≥ n, rank (f (x.state m)) = a}
  have hnonempty : ranks.Nonempty := ⟨_, n, le_rfl, rfl⟩
  obtain ⟨least, ⟨m, hm, hrank⟩, hleast⟩ := wellFounded_lt.has_min ranks hnonempty
  refine ⟨m, hm, ?_⟩
  refine x.persists (P := fun s => f s = f (x.state m)) (fun k hk hsame => ?_) rfl
  rcases hstep k (hm.trans hk) with heq | hlower
  · exact heq.trans hsame
  · rw [hsame, hrank] at hlower
    exact absurd hlower (hleast _ ⟨k + 1, (hm.trans hk).trans k.le_succ, rfl⟩)

/-- Once the component has settled, the events that change it can no longer happen. -/
theorem Fair.not_enabled {x : Execution step start} {kind : σ → ε → Prop} (hfair : x.Fair kind)
    {n : ℕ} (hsettled : x.Settled f n)
    (hchange : ∀ m ≥ n, kind (x.state m) (x.event m) → f (x.state (m + 1)) ≠ f (x.state m)) :
    ∃ k ≥ n, ∀ m ≥ k, ¬Enabled step kind (x.state m) := by
  refine hfair.not_enabled_of_not_taken fun m hm hkind => hchange m hm hkind ?_
  rw [hsettled (m + 1) (hm.trans m.le_succ), hsettled m hm]

end Settles

end Execution

end Transition
