import Mathlib.Tactic

/-!
# Runs of a step function

A system is a partial step function: `step s e` is the state after the event
`e`, and `none` when `e` cannot happen in `s`. A run is a finite list of events
taken one after another. This file has the induction rules for runs: what every
step preserves holds at the end of a run, and a condition on the states in which
the events are taken can be carried along. States and events are arbitrary.
-/

namespace Transition

variable {σ ε : Type*} (step : σ → ε → Option σ)

/-- Take the events in order; `none` as soon as one of them cannot happen. -/
def run : σ → List ε → Option σ
  | s, [] => some s
  | s, e :: es => (step s e).bind fun t => run t es

/-- Every event of the run is taken in a state that admits it under `P`. -/
def Meets (P : σ → ε → Prop) : σ → List ε → Prop
  | _, [] => True
  | s, e :: es => ∀ t, step s e = some t → P s e ∧ Meets P t es

/-- Every state of the run, the first one included, satisfies `Q`. -/
def Always (Q : σ → Prop) : σ → List ε → Prop
  | s, [] => Q s
  | s, e :: es => Q s ∧ ∀ t, step s e = some t → Always Q t es

/-- What is observed at the events of a run, in order. -/
def trace {ω : Type*} (obs : σ → ε → List ω) : σ → List ε → List ω
  | _, [] => []
  | s, e :: es =>
    match step s e with
    | none => []
    | some t => obs s e ++ trace obs t es

/-- The observation that keeps everything: the event, and the state in which it is taken. -/
def taken (s : σ) (e : ε) : List (σ × ε) := [(s, e)]

variable {step}

/-- A run without events stays where it is. -/
@[simp] theorem run_nil (s : σ) : run step s [] = some s := rfl

/-- A run that starts with `e` takes `e` and then the rest. -/
theorem run_cons_eq_some {s u : σ} {e : ε} {es : List ε} :
    run step s (e :: es) = some u ↔ ∃ t, step s e = some t ∧ run step t es = some u := by
  simp only [run, Option.bind_eq_some_iff]

/-- A run over a concatenation passes through one intermediate state. -/
theorem run_append_eq_some {s u : σ} {es₁ es₂ : List ε} :
    run step s (es₁ ++ es₂) = some u ↔
      ∃ t, run step s es₁ = some t ∧ run step t es₂ = some u := by
  induction es₁ generalizing s with
  | nil => simp
  | cons e es ih =>
    simp only [List.cons_append, run_cons_eq_some, ih]
    constructor
    · rintro ⟨v, hv, t, ht, hu⟩
      exact ⟨t, ⟨v, hv, ht⟩, hu⟩
    · rintro ⟨t, ⟨v, hv, ht⟩, hu⟩
      exact ⟨v, hv, t, ht, hu⟩

/-- A run goes on from the state that any beginning of it reaches. -/
theorem run_of_prefix {s t u : σ} {es es' : List ε} (hinitial : es' <+: es)
    (hrun' : run step s es' = some t) (hrun : run step s es = some u) :
    ∃ es'', es = es' ++ es'' ∧ run step t es'' = some u := by
  obtain ⟨es'', rfl⟩ := hinitial
  obtain ⟨v, hv, hrest⟩ := run_append_eq_some.mp hrun
  rw [hrun', Option.some.injEq] at hv
  exact ⟨es'', rfl, hv ▸ hrest⟩

/-- A run that ends with `e` reaches the state in which `e` is taken. -/
theorem run_concat_eq_some {s u : σ} {es : List ε} {e : ε} :
    run step s (es ++ [e]) = some u ↔ ∃ t, run step s es = some t ∧ step t e = some u := by
  simp only [run_append_eq_some, run_cons_eq_some, run_nil, Option.some.injEq, exists_eq_right]

/-- What every step preserves holds at the end of every run. -/
theorem run_invariant {I : σ → Prop}
    (hstep : ∀ s e t, I s → step s e = some t → I t)
    {s t : σ} {es : List ε} (hrun : run step s es = some t) (hs : I s) : I t := by
  induction es generalizing s with
  | nil =>
    rw [run_nil, Option.some.injEq] at hrun
    exact hrun ▸ hs
  | cons e es ih =>
    obtain ⟨u, hu, hrest⟩ := run_cons_eq_some.mp hrun
    exact ih hrest (hstep s e u hs hu)

/-- A reflexive and transitive relation that every step respects relates the
two ends of every run. -/
theorem run_relation {R : σ → σ → Prop} (hrefl : ∀ s, R s s)
    (htrans : ∀ s t u, R s t → R t u → R s u)
    (hstep : ∀ s e t, step s e = some t → R s t)
    {s t : σ} {es : List ε} (hrun : run step s es = some t) : R s t := by
  induction es generalizing s with
  | nil =>
    rw [run_nil, Option.some.injEq] at hrun
    exact hrun ▸ hrefl s
  | cons e es ih =>
    obtain ⟨u, hu, hrest⟩ := run_cons_eq_some.mp hrun
    exact htrans s u t (hstep s e u hu) (ih hrest)

/-- A run whose events meet `P` preserves what every step that meets `P`
preserves. -/
theorem run_invariant_of_meets {I : σ → Prop} {P : σ → ε → Prop}
    (hstep : ∀ s e t, I s → P s e → step s e = some t → I t)
    {s t : σ} {es : List ε} (hmeets : Meets step P s es)
    (hrun : run step s es = some t) (hs : I s) : I t := by
  induction es generalizing s with
  | nil =>
    rw [run_nil, Option.some.injEq] at hrun
    exact hrun ▸ hs
  | cons e es ih =>
    obtain ⟨u, hu, hrest⟩ := run_cons_eq_some.mp hrun
    obtain ⟨hP, hmeets'⟩ := hmeets u hu
    exact ih hmeets' hrest (hstep s e u hs hP hu)

section Trace

variable {ω : Type*} {obs : σ → ε → List ω}

/-- The trace of a run that starts with `e`. -/
theorem trace_cons {s t : σ} {e : ε} (es : List ε) (hstep : step s e = some t) :
    trace step obs s (e :: es) = obs s e ++ trace step obs t es := by
  simp only [trace, hstep]

/-- The trace of a run that ends with `e`. -/
theorem trace_concat {s t u : σ} {es : List ε} {e : ε} (hrun : run step s es = some t)
    (hstep : step t e = some u) :
    trace step obs s (es ++ [e]) = trace step obs s es ++ obs t e := by
  induction es generalizing s with
  | nil =>
    rw [run_nil, Option.some.injEq] at hrun
    subst hrun
    rw [List.nil_append, trace_cons [] hstep]
    simp only [trace, List.append_nil, List.nil_append]
  | cons e' es ih =>
    obtain ⟨v, hv, hrest⟩ := run_cons_eq_some.mp hrun
    rw [List.cons_append, trace_cons _ hv, trace_cons _ hv, ih hrest, List.append_assoc]

/-- A property of a state and of what has been observed on the way to it, which
every step extends, holds at the end of every run. -/
theorem run_trace {I : σ → List ω → Prop}
    (hstep : ∀ s l e t, I s l → step s e = some t → I t (l ++ obs s e))
    {s t : σ} {es : List ε} (hrun : run step s es = some t) (hs : I s []) :
    I t (trace step obs s es) := by
  induction es using List.reverseRecOn generalizing t with
  | nil =>
    rw [run_nil, Option.some.injEq] at hrun
    exact hrun ▸ hs
  | append_singleton es e ih =>
    obtain ⟨u, hu, hlast⟩ := run_concat_eq_some.mp hrun
    rw [trace_concat hu hlast]
    exact hstep u _ e t (ih hu) hlast

/-- The same for two observations side by side, in a run whose events satisfy `P`. -/
theorem run_traces_of_forall {ω' : Type*} {obs' : σ → ε → List ω'}
    {I : σ → List ω → List ω' → Prop} {P : ε → Prop}
    (hstep : ∀ s l l' e t, I s l l' → P e → step s e = some t →
      I t (l ++ obs s e) (l' ++ obs' s e))
    {s t : σ} {es : List ε} (hP : ∀ e ∈ es, P e) (hrun : run step s es = some t)
    (hs : I s [] []) : I t (trace step obs s es) (trace step obs' s es) := by
  induction es using List.reverseRecOn generalizing t with
  | nil =>
    rw [run_nil, Option.some.injEq] at hrun
    exact hrun ▸ hs
  | append_singleton es e ih =>
    obtain ⟨u, hu, hlast⟩ := run_concat_eq_some.mp hrun
    have hbefore := ih (fun e' he' => hP e' (List.mem_append_left _ he')) hu
    rw [trace_concat hu hlast, trace_concat hu hlast]
    exact hstep u _ _ e t hbefore (hP e (List.mem_append_right _ (List.mem_singleton_self e))) hlast

/-- The same in every run. -/
theorem run_traces {ω' : Type*} {obs' : σ → ε → List ω'} {I : σ → List ω → List ω' → Prop}
    (hstep : ∀ s l l' e t, I s l l' → step s e = some t → I t (l ++ obs s e) (l' ++ obs' s e))
    {s t : σ} {es : List ε} (hrun : run step s es = some t) (hs : I s [] []) :
    I t (trace step obs s es) (trace step obs' s es) :=
  run_traces_of_forall (P := fun _ => True) (fun s l l' e t h _ => hstep s l l' e t h)
    (fun _ _ => trivial) hrun hs

end Trace

/-- The first state of a run satisfies what every state does. -/
theorem Always.head {Q : σ → Prop} {s : σ} {es : List ε} (h : Always step Q s es) : Q s := by
  cases es with
  | nil => exact h
  | cons e es => exact h.1

section Simulation

variable {τ : Type*} {stepA : σ → ε → Option σ} {stepB : τ → ε → Option τ} {R : σ → τ → Prop}
  {Q : σ → Prop} {P : ε → Prop}

/-- Related outcomes are both missing or both there. -/
theorem rel_cases {a : Option σ} {b : Option τ} (h : Option.Rel R a b) :
    (a = none ∧ b = none) ∨ ∃ s t, a = some s ∧ b = some t ∧ R s t := by
  cases h with
  | none => exact .inl ⟨rfl, rfl⟩
  | some hR => exact .inr ⟨_, _, rfl, rfl, hR⟩

/-- Two systems that stay related step by step, as long as the states of the first one
satisfy `Q`, stay related. -/
theorem run_simulation
    (hstep : ∀ s t e, R s t → P e → (∀ s', stepA s e = some s' → Q s') →
      Option.Rel R (stepA s e) (stepB t e))
    {s : σ} {t : τ} {es : List ε} (hR : R s t) (hP : ∀ e ∈ es, P e)
    (hQ : Always stepA Q s es) : Option.Rel R (run stepA s es) (run stepB t es) := by
  induction es generalizing s t with
  | nil => exact .some hR
  | cons e es ih =>
    have hnext := hstep s t e hR (hP e List.mem_cons_self) fun s' hs' => (hQ.2 s' hs').head
    simp only [run]
    rcases rel_cases hnext with ⟨hA, hB⟩ | ⟨s', t', hA, hB, hR'⟩
    · rw [hA, hB]
      exact .none
    · rw [hA, hB]
      exact ih hR' (fun e' he' => hP e' (List.mem_cons_of_mem _ he')) (hQ.2 s' hA)

/-- What they show on the way is the same if it is at every step. -/
theorem trace_simulation {ω : Type*} {obsA : σ → ε → List ω} {obsB : τ → ε → List ω}
    (hstep : ∀ s t e, R s t → P e → (∀ s', stepA s e = some s' → Q s') →
      Option.Rel R (stepA s e) (stepB t e) ∧ obsA s e = obsB t e)
    {s : σ} {t : τ} {es : List ε} (hR : R s t) (hP : ∀ e ∈ es, P e)
    (hQ : Always stepA Q s es) : trace stepA obsA s es = trace stepB obsB t es := by
  induction es generalizing s t with
  | nil => rfl
  | cons e es ih =>
    obtain ⟨hnext, hobs⟩ :=
      hstep s t e hR (hP e List.mem_cons_self) fun s' hs' => (hQ.2 s' hs').head
    simp only [trace]
    rcases rel_cases hnext with ⟨hA, hB⟩ | ⟨s', t', hA, hB, hR'⟩
    · rw [hA, hB]
    · rw [hA, hB]
      dsimp only
      rw [hobs, ih hR' (fun e' he' => hP e' (List.mem_cons_of_mem _ he')) (hQ.2 s' hA)]

end Simulation

/-- A condition on the events alone. -/
theorem meets_of_forall {P : ε → Prop} {es : List ε} (h : ∀ e ∈ es, P e) (s : σ) :
    Meets step (fun _ e => P e) s es := by
  induction es generalizing s with
  | nil => trivial
  | cons e es ih =>
    exact fun t _ =>
      ⟨h e List.mem_cons_self, ih (fun e' he' => h e' (List.mem_cons_of_mem _ he')) t⟩

/-- `Always` is a statement about the state after each prefix of the run. -/
theorem always_iff {Q : σ → Prop} {s : σ} {es : List ε} :
    Always step Q s es ↔ ∀ es' t, es' <+: es → run step s es' = some t → Q t := by
  induction es generalizing s with
  | nil =>
    simp only [Always, List.prefix_nil]
    constructor
    · rintro hs es' t rfl hrun
      rw [run_nil, Option.some.injEq] at hrun
      exact hrun ▸ hs
    · intro h
      exact h [] s rfl rfl
  | cons e es ih =>
    simp only [Always, ih]
    constructor
    · rintro ⟨hs, h⟩ es' t hinitial hrun
      cases es' with
      | nil =>
        rw [run_nil, Option.some.injEq] at hrun
        exact hrun ▸ hs
      | cons e' es' =>
        obtain ⟨rfl, htail⟩ := List.cons_prefix_cons.mp hinitial
        obtain ⟨u, hu, hrest⟩ := run_cons_eq_some.mp hrun
        exact h u hu es' t htail hrest
    · intro h
      refine ⟨h [] s List.nil_prefix rfl, fun u hu es' t hinitial hrun => ?_⟩
      exact h (e :: es') t (List.cons_prefix_cons.mpr ⟨rfl, hinitial⟩)
        (run_cons_eq_some.mpr ⟨u, hu, hrun⟩)

/-- What holds in every state holds throughout every run. -/
theorem always_of_forall {Q : σ → Prop} (hQ : ∀ s, Q s) (s : σ) (es : List ε) :
    Always step Q s es := by
  induction es generalizing s with
  | nil => exact hQ s
  | cons e es ih => exact ⟨hQ s, fun t _ => ih t⟩

/-- In a run that meets `P` throughout, what implies `Q` and is kept by the steps that meet
`P` makes `Q` hold throughout. -/
theorem always_of_meets {I Q : σ → Prop} {P : σ → ε → Prop} (hQ : ∀ s, I s → Q s)
    (hstep : ∀ s e t, I s → P s e → step s e = some t → I t)
    {s : σ} {es : List ε} (hmeets : Meets step P s es) (hs : I s) : Always step Q s es := by
  induction es generalizing s with
  | nil => exact hQ s hs
  | cons e es ih =>
    refine ⟨hQ s hs, fun t ht => ?_⟩
    obtain ⟨hP, hrest⟩ := hmeets t ht
    exact ih hrest (hstep s e t hs hP ht)

/-- A run meets a condition when its two parts do. -/
theorem meets_append {P : σ → ε → Prop} {s : σ} {es₁ es₂ : List ε} :
    Meets step P s (es₁ ++ es₂) ↔
      Meets step P s es₁ ∧ ∀ t, run step s es₁ = some t → Meets step P t es₂ := by
  induction es₁ generalizing s with
  | nil => simp [Meets]
  | cons e es ih =>
    simp only [List.cons_append, Meets, ih, run_cons_eq_some]
    constructor
    · intro h
      refine ⟨fun t ht => ⟨(h t ht).1, (h t ht).2.1⟩, ?_⟩
      rintro u ⟨t, ht, hu⟩
      exact (h t ht).2.2 u hu
    · rintro ⟨h, hrest⟩ t ht
      exact ⟨(h t ht).1, (h t ht).2, fun u hu => hrest u ⟨t, ht, hu⟩⟩

/-- Whether a run meets a condition can be computed. -/
instance decidableMeets {P : σ → ε → Prop} [∀ s e, Decidable (P s e)] :
    ∀ s es, Decidable (Meets step P s es)
  | _, [] => .isTrue trivial
  | s, e :: es =>
    match hs : step s e with
    | none => .isTrue fun t ht => by
      rw [hs] at ht
      cases ht
    | some t =>
      have := decidableMeets (P := P) t es
      decidable_of_iff (P s e ∧ Meets step P t es) <| by
        simp only [Meets, hs, Option.some.injEq, forall_eq']

/-- When steps that meet `P` preserve an invariant that implies `Q`, and every
other step leads to a state without `Q`, the runs with `Q` throughout are
exactly the runs that meet `P` throughout. -/
theorem always_iff_meets {I Q : σ → Prop} {P : σ → ε → Prop}
    (hQ : ∀ s, I s → Q s)
    (hgood : ∀ s e t, I s → P s e → step s e = some t → I t)
    (hbad : ∀ s e t, I s → ¬P s e → step s e = some t → ¬Q t)
    {s : σ} (hs : I s) (es : List ε) :
    Always step Q s es ↔ Meets step P s es := by
  induction es generalizing s with
  | nil => simp only [Always, Meets, hQ s hs]
  | cons e es ih =>
    simp only [Always, Meets, hQ s hs, true_and]
    refine forall_congr' fun t => forall_congr' fun ht => ?_
    by_cases hP : P s e
    · simp only [hP, true_and, ih (hgood s e t hs hP ht)]
    · have hfail : ¬Always step Q t es := fun h => hbad s e t hs hP ht h.head
      simp only [hP, false_and, hfail]

end Transition
