import InfinityBridge.Host.Correlation

/-!
# Pending entries and the calls that own them

Every exit of `command` that the code spells out removes the call's entry from
`pending`. A caller can also drop the future, which runs none of this code: when
it does so while the entry is there, the entry stays.
-/

namespace InfinityBridge.Host

/-- The call has been inserted and has not come to an end. -/
def Pc.inProgress : Pc → Bool
  | .inserted | .refusing _ | .waiting _ | .removing _ => true
  | _ => false

namespace Calls

/-- Every id in `pending` is the id of a call in progress. -/
def PendingInProgress (uuid : ℕ → String) (s : Calls) : Prop :=
  ∀ id, id ∈ s.hub.pending → ∃ c, uuid c = id ∧ (s.calls c).pc.inProgress = true

/-- A caller that drops a future does so when its id is not in `pending`: before the
insertion, or after an ack or the call itself has removed it. -/
def DropsAfterRemoval (uuid : ℕ → String) (s : Calls) : CallEvent → Prop
  | .drop c => uuid c ∉ s.hub.pending
  | _ => True

variable {uuid : ℕ → String} {s t : Calls} {e : CallEvent}

/-- Who owns an entry is a call in progress. -/
structure Owned (uuid : ℕ → String) (s : Calls) : Prop extends Consistent uuid s where
  inProgress : ∀ id c, s.hub.pending.lookup id = some c → (s.calls c).pc.inProgress = true

/-- Nothing is pending at the start. -/
theorem owned_init : Owned uuid init := by
  refine ⟨consistent_init, fun id c h => ?_⟩
  cases h

/-- An entry found under an id belongs to a call in progress with that id. -/
theorem Owned.pendingInProgress (howned : Owned uuid s) : PendingInProgress uuid s := by
  intro id hid
  obtain ⟨c, hc⟩ := Option.isSome_iff_exists.mp (AList.lookup_isSome.mpr hid)
  exact ⟨c, howned.pending id c hc, howned.inProgress id c hc⟩

/-- A call leaves the calls in progress only by a step that removes its entry, or
by being dropped. -/
theorem inProgress_step {c : ℕ} (hstep : step uuid s e = some t)
    (hpc : (s.calls c).pc.inProgress = true) (hrefuse : e ≠ .refuse c) (hremove : e ≠ .remove c)
    (hdrop : e ≠ .drop c) : (t.calls c).pc.inProgress = true := by
  by_cases hcaller : caller e = some c
  · cases e <;> simp only [caller, Option.some.injEq, reduceCtorEq] at hcaller <;>
      subst hcaller
    case start c | insert c =>
      simp only [step] at hstep
      split at hstep <;> cases hstep
      next h => simp [h, Pc.inProgress] at hpc
    case deliver c =>
      simp only [step] at hstep
      split at hstep
      · split_ifs at hstep
        split at hstep <;> cases hstep <;> simp [Pc.inProgress]
      · cases hstep
    case poll c =>
      simp only [step] at hstep
      split at hstep
      · obtain ⟨r, _, rfl⟩ := Option.map_eq_some_iff.mp hstep
        simp [Pc.inProgress]
      · cases hstep
    case refuse c => exact absurd rfl hrefuse
    case remove c => exact absurd rfl hremove
    case drop c => exact absurd rfl hdrop
  · rw [call_step_other hstep hcaller]
    exact hpc

/-- Unless a future is dropped with its id in `pending`, entries stay owned. -/
theorem owned_step (howned : Owned uuid s) (hdrops : DropsAfterRemoval uuid s e)
    (hstep : step uuid s e = some t) : Owned uuid t := by
  refine ⟨consistent_step howned.toConsistent hstep, fun id c h => ?_⟩
  rw [pending_step hstep] at h
  have hkeep (hold : s.hub.pending.lookup id = some c) (hrefuse : e ≠ .refuse c)
      (hremove : e ≠ .remove c) : (t.calls c).pc.inProgress = true := by
    refine inProgress_step hstep (howned.inProgress id c hold) hrefuse hremove ?_
    rintro rfl
    have hid := howned.pending id c hold
    refine hdrops ?_
    rw [hid, ← AList.lookup_isSome, hold, Option.isSome_some]
  cases e with
  | insert c' =>
    simp only [pendingAfter, Table.lookup_insert_eq] at h
    split_ifs at h
    · cases h
      simp only [step] at hstep
      split at hstep <;> cases hstep
      simp [Pc.inProgress]
    · exact hkeep h (by simp) (by simp)
  | refuse c' | remove c' =>
    simp only [pendingAfter, Table.lookup_erase_eq] at h
    split_ifs at h with hid
    have hc : c' ≠ c := by
      rintro rfl
      exact hid (howned.pending id c' h).symm
    exact hkeep h (by simp [hc]) (by simp [hc])
  | takeAck d a =>
    simp only [pendingAfter, Table.lookup_erase_eq] at h
    split_ifs at h
    exact hkeep h (by simp) (by simp)
  | _ => exact hkeep h (by simp) (by simp)

/-- A future that is dropped with its id in `pending` leaves an entry that no call
in progress owns. -/
theorem leak_of_drop (huuid : Function.Injective uuid) (hdrops : ¬DropsAfterRemoval uuid s e)
    (hstep : step uuid s e = some t) : ¬PendingInProgress uuid t := by
  cases e with
  | drop c =>
    simp only [DropsAfterRemoval, not_not] at hdrops
    have hmem : uuid c ∈ t.hub.pending := by
      rw [pending_step hstep]
      exact hdrops
    have hpc : (t.calls c).pc = .cancelled := by
      simp only [step] at hstep
      split at hstep <;> cases hstep <;> simp
    intro h
    obtain ⟨c', hid, hprogress⟩ := h (uuid c) hmem
    cases huuid hid
    rw [hpc] at hprogress
    cases hprogress
  | _ => exact absurd trivial hdrops

/-- The ids in `pending` are ids of calls in progress in every state of a run exactly
when no caller of the run drops its future while its id is in `pending`. -/
theorem pending_inProgress_iff (huuid : Function.Injective uuid) (es : List CallEvent) :
    Transition.Always (step uuid) (PendingInProgress uuid) init es ↔
      Transition.Meets (step uuid) (DropsAfterRemoval uuid) init es :=
  Transition.always_iff_meets (fun _ => Owned.pendingInProgress)
    (fun _ _ _ howned hdrops hstep => owned_step howned hdrops hstep)
    (fun _ _ _ _ hdrops hstep => leak_of_drop huuid hdrops hstep) owned_init es

/-- A command that is dropped after an ack has come. -/
theorem pending_inProgress_iff_acked :
    Transition.Always (step wordId) (PendingInProgress wordId) init
        [.start 0 none .null 5, .insert 0, .takeAck 0 ⟨wordId 0, true, none, none, none⟩,
          .drop 0] ↔
      Transition.Meets (step wordId) (DropsAfterRemoval wordId) init
        [.start 0 none .null 5, .insert 0, .takeAck 0 ⟨wordId 0, true, none, none, none⟩,
          .drop 0] :=
  pending_inProgress_iff wordId_injective _

/-- A command dropped at its first await after the insertion leaves its id behind. -/
theorem dropped_command_leaks :
    ¬Transition.Always (step wordId) (PendingInProgress wordId) init
      [.start 0 none .null 5, .insert 0, .drop 0] := by
  rw [Transition.always_iff]
  intro h
  have hrun : Transition.run (step wordId) init [.start 0 none .null 5, .insert 0, .drop 0] =
      some ((Transition.run (step wordId) init
        [.start 0 none .null 5, .insert 0, .drop 0]).get (by decide)) := by simp
  obtain ⟨c, hid, hprogress⟩ := h _ _ (List.prefix_refl _) hrun (wordId 0) (by decide)
  cases wordId_injective hid
  exact absurd hprogress (by decide)

end Calls

end InfinityBridge.Host
