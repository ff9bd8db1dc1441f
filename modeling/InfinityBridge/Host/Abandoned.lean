import InfinityBridge.Host.Correlation
import InfinityBridge.Host.Delivery

/-!
# Commands whose connections are gone

`command` has an error for the case that its oneshot sender is dropped. The sender is
kept in the pending map, which no operation on the client table looks at, so that a call
whose clients have all been removed waits for its timeout like any other.
-/

namespace InfinityBridge.Host

namespace Calls

variable {uuid : ℕ → String} {s t : Calls} {c : ℕ} {es : List CallEvent}

/-- The error of a call whose sender has been dropped. -/
def droppedError : BridgeError := .transport "all gauge connections dropped before ack"

/-- A poll never finds the sender of a call dropped. -/
theorem pollResult_ne_dropped (huuid : Function.Injective uuid)
    (hrun : Transition.run (step uuid) init es = some s) {deadline : Instant} {r : AckResult}
    (hpc : (s.calls c).pc = .waiting deadline) (hpoll : s.pollResult c deadline = some r) :
    r ≠ .dropped := by
  have hexpl := explained_run huuid hrun c
  simp only [Explained, hpc] at hexpl
  obtain ⟨before, after, -, hphase⟩ := hexpl
  rw [pollResult_eq hphase hpoll]
  cases ackPhase (uuid c) after <;> exact AckResult.noConfusion

/-- A call that has come to its wait, and has not found its sender dropped. -/
def Undropped (s : Calls) (c : ℕ) : Prop :=
  match (s.calls c).pc with
  | .waiting _ | .cancelled => True
  | .removing r => r ≠ .dropped
  | .finished r => r ≠ .error droppedError
  | _ => False

/-- What `command` returns is the error of a dropped sender only when it found it dropped. -/
theorem commandOutcome_ne_dropped {timeout : Duration} {r : AckResult} (hr : r ≠ .dropped) :
    commandOutcome timeout r ≠ .error droppedError := by
  intro h
  cases r with
  | ack a =>
    rw [commandOutcome, ackOutcome] at h
    split_ifs at h
    cases h
  | dropped => exact hr rfl
  | elapsed => cases h

/-- One step of any task. -/
theorem undropped_step (huuid : Function.Injective uuid)
    (hrun : Transition.run (step uuid) init es = some s) {e : CallEvent} (h : Undropped s c)
    (hstep : step uuid s e = some t) : Undropped t c := by
  by_cases hcaller : caller e = some c
  · cases e <;> simp only [caller, Option.some.injEq, reduceCtorEq] at hcaller <;> subst hcaller
    case poll c =>
      simp only [step] at hstep
      split at hstep
      · next deadline hpc =>
        obtain ⟨r, hpoll, rfl⟩ := Option.map_eq_some_iff.mp hstep
        simp only [Undropped, setPc_calls_self]
        exact pollResult_ne_dropped huuid hrun hpc hpoll
      · cases hstep
    case remove c =>
      simp only [step] at hstep
      split at hstep <;> cases hstep
      next r hpc =>
      simp only [Undropped, hpc, setPc_calls_self] at h ⊢
      exact commandOutcome_ne_dropped h
    case drop c =>
      simp only [step] at hstep
      split at hstep <;> cases hstep <;> simp only [Undropped, setPc_calls_self]
    case start c | insert c | refuse c =>
      simp only [step] at hstep
      split at hstep <;> cases hstep
      next hpc => simp [Undropped, hpc] at h
    case deliver c =>
      simp only [step] at hstep
      split at hstep
      · next hpc => simp [Undropped, hpc] at h
      · cases hstep
  · rw [Undropped, call_step_other hstep hcaller]
    exact h

/-- A whole run. -/
theorem undropped_run (huuid : Function.Injective uuid)
    (hrun : Transition.run (step uuid) init es = some s) (h : Undropped s c)
    {es' : List CallEvent} (hrun' : Transition.run (step uuid) s es' = some t) :
    Undropped t c := by
  induction es' using List.reverseRecOn generalizing t with
  | nil =>
    rw [Transition.run_nil, Option.some.injEq] at hrun'
    exact hrun' ▸ h
  | append_singleton es' e ih =>
    obtain ⟨u, hu, hstep⟩ := Transition.run_concat_eq_some.mp hrun'
    exact undropped_step huuid (Transition.run_append_eq_some.mpr ⟨s, hrun, hu⟩) (ih hu) hstep

/-- The frame of a call has gone to some clients, all of which have been removed since,
and neither has an ack with its id been dispatched nor its timeout elapsed. -/
structure Abandoned (uuid : ℕ → String) (es : List CallEvent) (s : Calls) (c : ℕ) : Prop where
  run : Transition.run (step uuid) init es = some s
  waiting : ∃ deadline, (s.calls c).pc = .waiting deadline ∧ s.now < deadline
  removed : ∃ before after u, es = before ++ .deliver c :: after ∧
    Transition.run (step uuid) init before = some u ∧
    ∀ id k, u.hub.clients.lookup id = some k → k ∈ u.hub.targets →
      s.hub.clients.lookup id = none
  unacked : ∀ d a, .takeAck d a ∈ es → a.id ≠ uuid c

/-- Whatever happens next, the call returns the error of a dropped sender and no other
result. -/
def ReturnsDropped (uuid : ℕ → String) (s : Calls) (c : ℕ) : Prop :=
  ∀ es' t r, Transition.run (step uuid) s es' = some t → (t.calls c).pc = .finished r →
    r = .error droppedError

/-- Without an ack, the sender of a waiting call is in the pending map. -/
theorem pollResult_of_unacked (huuid : Function.Injective uuid)
    (hrun : Transition.run (step uuid) init es = some s) {deadline : Instant}
    (hpc : (s.calls c).pc = .waiting deadline)
    (hunacked : ∀ d a, .takeAck d a ∈ es → a.id ≠ uuid c) :
    (s.calls c).rx = none ∧ s.senderGone c = false := by
  have hexpl := explained_run huuid hrun c
  simp only [Explained, hpc] at hexpl
  obtain ⟨before, after, rfl, hphase⟩ := hexpl
  have htaken {d : ℕ} {a : AckPayload} {rest : List CallEvent}
      (hfirst : FirstTaken (uuid c) after d a rest) : False := by
    obtain ⟨first, rfl, hid, _⟩ := hfirst
    exact hunacked d a (by simp) hid
  have hdescribes := ackPhase_describes (uuid c) after
  cases hp : ackPhase (uuid c) after with
  | none =>
    rw [hp] at hphase
    have hmem := Table.mem_values_iff.mpr ⟨_, hphase.1⟩
    exact ⟨hphase.2.2, by simp [senderGone, hmem]⟩
  | taken d a =>
    rw [hp] at hdescribes
    obtain ⟨rest, hfirst, _⟩ := hdescribes
    exact (htaken hfirst).elim
  | handed a =>
    rw [hp] at hdescribes
    obtain ⟨d, rest, hfirst, _⟩ := hdescribes
    exact (htaken hfirst).elim

/-- A call that nobody acks returns the timeout error once its deadline has passed. -/
theorem times_out_of_unacked (huuid : Function.Injective uuid)
    (hrun : Transition.run (step uuid) init es = some s) {deadline : Instant}
    (hpc : (s.calls c).pc = .waiting deadline)
    (hunacked : ∀ d a, .takeAck d a ∈ es → a.id ≠ uuid c) :
    ∃ es' t, Transition.run (step uuid) s es' = some t ∧
      (t.calls c).pc = .finished (.error (timeoutError (s.calls c).timeout)) := by
  obtain ⟨hrx, hgone⟩ := pollResult_of_unacked huuid hrun hpc hunacked
  let u : Calls := { s with now := s.now + (deadline - s.now) }
  have hlate : deadline ≤ u.now := le_add_tsub
  have hpoll : u.pollResult c deadline = some .elapsed := by
    have hrx' : (u.calls c).rx = none := hrx
    have hgone' : u.senderGone c = false := hgone
    simp only [pollResult, hrx', hgone', hlate, Bool.false_eq_true, if_false, if_true]
  have hpolled : step uuid u (.poll c) = some (u.setPc c (.removing .elapsed)) := by
    have hpc' : (u.calls c).pc = .waiting deadline := hpc
    simp only [step, hpc', hpoll, Option.map_some]
  have hremoved : step uuid (u.setPc c (.removing .elapsed)) (.remove c) =
      some ({ u.setPc c (.removing .elapsed) with hub := u.hub.removePending (uuid c) }.setPc c
        (.finished (.error (timeoutError (s.calls c).timeout)))) := by
    simp only [step, setPc_calls_self, setPc_hub, commandOutcome]
    rfl
  refine ⟨[.tick (deadline - s.now), .poll c, .remove c], _, Transition.run_cons_eq_some.mpr
    ⟨u, rfl, Transition.run_cons_eq_some.mpr ⟨_, hpolled, Transition.run_cons_eq_some.mpr
      ⟨_, hremoved, rfl⟩⟩⟩, ?_⟩
  rw [setPc_calls_self]

/-- A call whose clients are all gone never returns the error that says so, and returns
the timeout error when nothing else happens. -/
theorem abandoned_not_dropped (huuid : Function.Injective uuid) (h : Abandoned uuid es s c) :
    ¬ReturnsDropped uuid s c ∧
      (∀ es' t, Transition.run (step uuid) s es' = some t →
        (t.calls c).pc ≠ .finished (.error droppedError)) ∧
      ∃ es' t, Transition.run (step uuid) s es' = some t ∧
        (t.calls c).pc = .finished (.error (timeoutError (s.calls c).timeout)) := by
  obtain ⟨deadline, hpc, _⟩ := h.waiting
  have htimeout := times_out_of_unacked huuid h.run hpc h.unacked
  refine ⟨fun hreturns => ?_, fun es' t hrun hfinished => ?_, htimeout⟩
  · obtain ⟨es', t, hrun, hfinished⟩ := htimeout
    have := hreturns es' t _ hrun hfinished
    cases this
  · have hstart : Undropped s c := by simp only [Undropped, hpc]
    have hend := undropped_run huuid h.run hstart hrun
    simp only [Undropped, hfinished] at hend
    exact hend rfl

/-- The only client takes the command, and its connection closes. -/
def closed : List CallEvent :=
  [.register 0, .start 0 none .null 5, .insert 0, .deliver 0, .unregister 1]

/-- The run exists. -/
theorem closed_isSome : (Transition.run (step wordId) init closed).isSome = true := by rfl

/-- The command of the run is abandoned. -/
theorem abandoned_closed : Abandoned wordId closed
    ((Transition.run (step wordId) init closed).get closed_isSome) 0 where
  run := (Option.some_get closed_isSome).symm
  waiting := ⟨5, rfl, by decide⟩
  removed := by
    refine ⟨[.register 0, .start 0 none .null 5, .insert 0], [.unregister 1], _, rfl, rfl, ?_⟩
    intro id k hk _
    by_cases hid : id = 1
    · subst hid
      rfl
    · have hk' : AList.lookup id (AList.insert 1 ⟨0, none, 0, false⟩ (∅ : Table ℕ Client)) =
        some k := hk
      rw [Table.lookup_insert_eq, if_neg hid] at hk'
      cases hk'
  unacked d a hmem := by simp [closed] at hmem

/-- The call of the example times out instead. -/
theorem closed_not_dropped : ¬ReturnsDropped wordId
    ((Transition.run (step wordId) init closed).get closed_isSome) 0 := by
  intro hreturns
  obtain ⟨es', t, hrun, hfinished⟩ := times_out_of_unacked wordId_injective
    abandoned_closed.run rfl abandoned_closed.unacked
  have := hreturns es' t _ hrun hfinished
  cases this

/-- It does not return the error that says that its connections are gone, and can return
the timeout error. -/
theorem abandoned_not_dropped_closed :
    ¬ReturnsDropped wordId ((Transition.run (step wordId) init closed).get closed_isSome) 0 ∧
      ∃ es' t, Transition.run (step wordId)
        ((Transition.run (step wordId) init closed).get closed_isSome) es' = some t ∧
        (t.calls 0).pc = .finished (.error (timeoutError 5)) := by
  obtain ⟨hreturns, -, htimeout⟩ := abandoned_not_dropped wordId_injective abandoned_closed
  exact ⟨hreturns, htimeout⟩

end Calls

end InfinityBridge.Host
