import Mathlib.Tactic

/-!
# While loops

A loop `while guard { body }` over a state. A loop that ends is a finite chain of
iterations up to the first state without the guard; an invariant is carried along the
chain, and a loop whose guard holds in every state it reaches never ends. States are
arbitrary.
-/

namespace Loop

variable {σ : Type*} (guard : σ → Prop) (body : σ → σ)

/-- The loop started in the first state ends in the second one. -/
inductive Ends : σ → σ → Prop
  | done {s : σ} (hguard : ¬guard s) : Ends s s
  | next {s t : σ} (hguard : guard s) (hrest : Ends (body s) t) : Ends s t

variable {guard body} {s t u : σ}

/-- A loop ends in a state without the guard. -/
theorem Ends.not_guard (h : Ends guard body s t) : ¬guard t := by
  induction h with
  | done hguard => exact hguard
  | next _ _ ih => exact ih

/-- A loop ends in one state at most. -/
theorem Ends.unique (h : Ends guard body s t) (h' : Ends guard body s u) : t = u := by
  induction h with
  | done hguard =>
    cases h' with
    | done => rfl
    | next hguard' => exact absurd hguard' hguard
  | next hguard _ ih =>
    cases h' with
    | done hguard' => exact absurd hguard hguard'
    | next _ hrest' => exact ih hrest'

/-- Without the guard the loop ends where it is. -/
theorem ends_iff_of_not_guard (hguard : ¬guard s) : Ends guard body s t ↔ t = s := by
  constructor
  · intro h
    exact h.unique (.done hguard)
  · rintro rfl
    exact .done hguard

/-- With the guard the loop goes on after one iteration. -/
theorem ends_iff_of_guard (hguard : guard s) :
    Ends guard body s t ↔ Ends guard body (body s) t := by
  constructor
  · intro h
    cases h with
    | done hguard' => exact absurd hguard hguard'
    | next _ hrest => exact hrest
  · exact .next hguard

/-- What every iteration preserves holds at the end. -/
theorem Ends.invariant {I : σ → Prop} (h : Ends guard body s t)
    (hbody : ∀ v, I v → guard v → I (body v)) (hs : I s) : I t := by
  induction h with
  | done => exact hs
  | next hguard _ ih => exact ih (hbody _ hs hguard)

/-- A loop whose guard holds wherever its invariant does never ends. -/
theorem not_ends_of_invariant {I : σ → Prop} (hguard : ∀ v, I v → guard v)
    (hbody : ∀ v, I v → I (body v)) (hs : I s) : ¬Ends guard body s t := by
  intro h
  exact h.not_guard (hguard t (h.invariant (fun v hv _ => hbody v hv) hs))

end Loop
