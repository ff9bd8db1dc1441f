import InfinityBridge.Host.Calls

/-!
# What the host enqueues

The frames that each step of the host puts on the outbound channels, and how often. A
command is put at most once on each channel, as long as no two clients share one; its
name and payload do not change any more once it has been delivered.
-/

namespace InfinityBridge.Host

/-- Sending enqueues one frame on one channel. -/
theorem Hub.send_queue {h h' : Hub} {tx : ℕ} {json : Text} (hsend : h.send tx json = some h')
    (tx' : ℕ) : (h'.channels tx').queue =
      (h.channels tx').queue ++ if tx' = tx then [json] else [] := by
  unfold Hub.send at hsend
  split_ifs at hsend
  cases hsend
  by_cases htx : tx' = tx
  · subst htx
    simp
  · simp [htx]

/-- The channel got copies of a frame, at most `k` of them. -/
def Hub.Enqueued (json : Text) (tx k : ℕ) (h h' : Hub) : Prop :=
  ∃ n ≤ k, (h'.channels tx).queue = (h.channels tx).queue ++ List.replicate n json

/-- Nothing is enqueued where nothing happens. -/
theorem Hub.Enqueued.refl (json : Text) (tx k : ℕ) (h : Hub) : h.Enqueued json tx k h :=
  ⟨0, Nat.zero_le k, by simp⟩

/-- The copies of two steps in a row add up. -/
theorem Hub.Enqueued.trans {json : Text} {tx k k' : ℕ} {h₁ h₂ h₃ : Hub}
    (h : Hub.Enqueued json tx k h₁ h₂) (h' : Hub.Enqueued json tx k' h₂ h₃) :
    Hub.Enqueued json tx (k + k') h₁ h₃ := by
  obtain ⟨n, hn, hqueue⟩ := h
  obtain ⟨n', hn', hqueue'⟩ := h'
  refine ⟨n + n', by omega, ?_⟩
  rw [hqueue', hqueue, List.append_assoc, List.replicate_add]

/-- The number of copies is a bound. -/
theorem Hub.Enqueued.mono {json : Text} {tx k k' : ℕ} {h h' : Hub}
    (hq : Hub.Enqueued json tx k h h') (hk : k ≤ k') : Hub.Enqueued json tx k' h h' := by
  obtain ⟨n, hn, hqueue⟩ := hq
  exact ⟨n, hn.trans hk, hqueue⟩

/-- A send enqueues one copy, on its own channel. -/
theorem Hub.send_enqueued {h h' : Hub} {tx : ℕ} {json : Text} (hsend : h.send tx json = some h')
    (tx' : ℕ) : Hub.Enqueued json tx' (if tx = tx' then 1 else 0) h h' := by
  have hqueue := Hub.send_queue hsend tx'
  by_cases htx : tx' = tx
  · exact ⟨1, by simp [htx], by simpa [htx] using hqueue⟩
  · exact ⟨0, Nat.zero_le _, by simpa [htx] using hqueue⟩

/-- One frame for each client in the list, and fewer where a channel is closed. -/
theorem Hub.sendAll_enqueued (json : Text) (tx : ℕ) (cs : List Client) (r : Hub × ℕ) :
    Hub.Enqueued json tx ((cs.map (·.tx)).count tx) r.1 (Hub.sendAll json cs r).1 := by
  induction cs generalizing r with
  | nil => exact .refl _ _ _ _
  | cons c cs ih =>
    obtain ⟨h, n⟩ := r
    simp only [List.map_cons, List.count_cons, beq_iff_eq]
    cases hsend : h.send c.tx json with
    | none =>
      simp only [sendAll, hsend]
      exact (ih (h, n + 1)).mono (Nat.le_add_right _ _)
    | some h' =>
      simp only [sendAll, hsend]
      exact ((Hub.send_enqueued hsend tx).trans (ih (h', n))).mono (Nat.add_comm _ _).le

/-- One frame for each client that the delivery loop does not pass over. -/
theorem Hub.deliverAll_enqueued (json : Text) (anyReady : Bool) (tx : ℕ) (cs : List Client)
    (r : Hub × ℕ) : Hub.Enqueued json tx ((cs.map (·.tx)).count tx) r.1
      (Hub.deliverAll json anyReady cs r).1 := by
  induction cs generalizing r with
  | nil => exact .refl _ _ _ _
  | cons c cs ih =>
    obtain ⟨h, n⟩ := r
    simp only [List.map_cons, List.count_cons, beq_iff_eq]
    by_cases hskip : (anyReady && !c.ready) = true
    · simp only [deliverAll, hskip, if_true]
      exact (ih (h, n)).mono (Nat.le_add_right _ _)
    · cases hsend : h.send c.tx json with
      | none =>
        simp only [deliverAll, if_neg hskip, hsend]
        exact (ih (h, n)).mono (Nat.le_add_right _ _)
      | some h' =>
        simp only [deliverAll, if_neg hskip, hsend]
        exact ((Hub.send_enqueued hsend tx).trans (ih (h', n + 1))).mono (Nat.add_comm _ _).le

/-- How many clients have this channel. -/
def Hub.holders (h : Hub) (tx : ℕ) : ℕ := (h.clients.values.map (·.tx)).count tx

/-- A delivery enqueues a copy for each holder of a channel at most. -/
theorem Hub.deliver_enqueued {h h' : Hub} {json : Text} (hok : h.deliver json = .ok h') (tx : ℕ) :
    Hub.Enqueued json tx (h.holders tx) h h' := by
  unfold Hub.deliver at hok
  dsimp only at hok
  split_ifs at hok
  cases hok
  exact Hub.deliverAll_enqueued json h.isReady tx h.clients.values (h, 0)

/-- So does an emission. -/
theorem Hub.emit_enqueued (h : Hub) (name : String) (data : Value) (tx : ℕ) :
    Hub.Enqueued (WireMsg.event ⟨name, data⟩).toJson tx (h.holders tx) h (h.emit name data).2 := by
  unfold Hub.emit
  dsimp only
  split_ifs
  · exact .refl _ _ _ _
  all_goals exact Hub.sendAll_enqueued _ tx h.clients.values (h, 0)

/-- And so does a frame for one client. -/
theorem Hub.sendTo_enqueued (h : Hub) (id : ℕ) (json : Text) (tx : ℕ) :
    Hub.Enqueued json tx (h.holders tx) h ((h.sendTo id json).toOption.getD h) := by
  unfold Hub.sendTo
  split
  · exact .refl _ _ _ _
  · next client hclient =>
    split
    · exact .refl _ _ _ _
    · next hsend =>
      refine (Hub.send_enqueued hsend tx).mono ?_
      split_ifs with htx
      · have hmem : client ∈ h.clients.values := Table.mem_values_iff.mpr ⟨id, hclient⟩
        exact List.one_le_count_iff.mpr (htx ▸ List.mem_map_of_mem hmem)
      · exact Nat.zero_le _

/-- No two clients have the same channel. -/
def Hub.Distinct (h : Hub) : Prop := ∀ id id' k k', h.clients.lookup id = some k →
  h.clients.lookup id' = some k' → k.tx = k'.tx → id = id'

/-- A channel that no client has. -/
theorem Hub.holders_eq_zero {h : Hub} {tx : ℕ}
    (hnone : ∀ id k, h.clients.lookup id = some k → k.tx ≠ tx) : h.holders tx = 0 := by
  refine List.count_eq_zero.mpr fun hmem => ?_
  obtain ⟨k, hk, htx⟩ := List.mem_map.mp hmem
  obtain ⟨id, hid⟩ := Table.mem_values_iff.mp hk
  exact hnone id k hid htx

/-- A channel of distinct clients has one holder at most. -/
theorem Hub.Distinct.holders_le {h : Hub} (hdistinct : h.Distinct) (tx : ℕ) : h.holders tx ≤ 1 := by
  have hnodup : (h.clients.values.map (·.tx)).Nodup := by
    rw [Table.values, List.map_map]
    refine List.Nodup.map_on ?_ (List.Nodup.of_map _ h.clients.nodupKeys)
    intro e he e' he' heq
    obtain ⟨id, k⟩ := e
    obtain ⟨id', k'⟩ := e'
    have hlook := Table.lookup_eq_some_iff.mpr he
    have hlook' := Table.lookup_eq_some_iff.mpr he'
    obtain rfl := hdistinct id id' k k' hlook hlook' heq
    rw [hlook, Option.some.injEq] at hlook'
    rw [hlook']
  exact List.nodup_iff_count_le_one.mp hnodup tx

namespace Calls

variable {uuid : ℕ → String} {s t : Calls} {c : ℕ} {e : CallEvent}

/-- The frame a step sends, if it sends one. -/
def sends (uuid : ℕ → String) (s : Calls) : CallEvent → Option Text
  | .deliver c => some (commandFrame (uuid c) (s.calls c).name (s.calls c).payload)
  | .emit name data => some (WireMsg.event ⟨name, data⟩).toJson
  | .sendTo _ json => some json
  | _ => none

/-- A step under the clients lock. -/
theorem eq_of_locked {f : Hub → Hub} (hstep : s.locked f = some t) :
    t = { s with hub := f s.hub } := by
  unfold locked at hstep
  split_ifs at hstep
  cases hstep
  rfl

/-- A step puts nothing on a channel but the frame it sends, and not more often than the
channel has holders. -/
theorem queue_step (hstep : step uuid s e = some t) (tx : ℕ) (he : e ≠ .writerSends tx)
    (hends : e ≠ .writerEnds tx) :
    ∃ n ≤ s.hub.holders tx, (t.hub.channels tx).queue =
      (s.hub.channels tx).queue ++ (sends uuid s e).elim [] (List.replicate n) := by
  have hsame (hsends : sends uuid s e = none)
      (hqueue : (t.hub.channels tx).queue = (s.hub.channels tx).queue) :
      ∃ n ≤ s.hub.holders tx, (t.hub.channels tx).queue =
        (s.hub.channels tx).queue ++ (sends uuid s e).elim [] (List.replicate n) :=
    ⟨0, Nat.zero_le _, by rw [hsends, hqueue, Option.elim_none, List.append_nil]⟩
  cases e with
  | deliver c =>
    simp only [step] at hstep
    split at hstep
    · split_ifs at hstep
      split at hstep
      · cases hstep
        exact ⟨0, Nat.zero_le _, by simp [setPc, sends]⟩
      · next hok =>
        cases hstep
        exact Hub.deliver_enqueued hok tx
    · cases hstep
  | emit name data =>
    simp only [step] at hstep
    rw [eq_of_locked hstep]
    exact Hub.emit_enqueued s.hub name data tx
  | sendTo id json =>
    simp only [step] at hstep
    rw [eq_of_locked hstep]
    exact Hub.sendTo_enqueued s.hub id json tx
  | start | insert | refuse | remove | drop =>
    simp only [step] at hstep
    split at hstep <;> cases hstep <;> exact hsame rfl rfl
  | poll =>
    simp only [step] at hstep
    split at hstep
    · obtain ⟨r, _, rfl⟩ := Option.map_eq_some_iff.mp hstep
      exact hsame rfl rfl
    · cases hstep
  | takeAck =>
    simp only [step] at hstep
    split_ifs at hstep
    split at hstep <;> cases hstep <;> exact hsame rfl rfl
  | sendAck =>
    simp only [step] at hstep
    split at hstep <;> cases hstep
    exact hsame rfl rfl
  | reap =>
    simp only [step] at hstep
    split_ifs at hstep
    exact hsame rfl (by rw [eq_of_locked hstep]; rfl)
  | register | unregister | touch | hello | ready =>
    simp only [step] at hstep
    exact hsame rfl (by rw [eq_of_locked hstep]; rfl)
  | event | tick =>
    simp only [step, Option.some.injEq] at hstep
    subst hstep
    exact hsame rfl rfl
  | writerEnds tx' =>
    have htx : tx ≠ tx' := fun h => hends (by rw [h])
    simp only [step, Option.some.injEq] at hstep
    refine hsame rfl ?_
    rw [← hstep]
    simp [Hub.closeChannel, htx]
  | writerSends tx' =>
    have htx : tx ≠ tx' := fun h => he (by rw [h])
    simp only [step, Option.some.injEq] at hstep
    refine hsame rfl ?_
    rw [← hstep]
    simp [Hub.popChannel, htx]

/-- A writer that ends drops what is queued for it. -/
theorem queue_writerEnds {tx : ℕ} (hstep : step uuid s (.writerEnds tx) = some t) :
    (t.hub.channels tx).queue = [] := by
  simp only [step, Option.some.injEq] at hstep
  rw [← hstep]
  simp [Hub.closeChannel]

/-- The clients after a step are clients of before, apart from one that is registered. -/
theorem clients_step (hstep : step uuid s e = some t) {id : ℕ} {k : Client}
    (hk : t.hub.clients.lookup id = some k) :
    (∃ k', s.hub.clients.lookup id = some k' ∧ k'.tx = k.tx) ∨
      (e = .register k.tx ∧ id = s.hub.fetchAddId.1) := by
  have hsame (hclients : t.hub.clients = s.hub.clients) :
      ∃ k', s.hub.clients.lookup id = some k' ∧ k'.tx = k.tx :=
    ⟨k, by rw [← hclients]; exact hk, rfl⟩
  have hadjust (id' : ℕ) (f : Client → Client)
      (hclients : t.hub.clients = s.hub.clients.adjust id' f) (hf : ∀ k, (f k).tx = k.tx) :
      ∃ k', s.hub.clients.lookup id = some k' ∧ k'.tx = k.tx := by
    rw [hclients, Table.lookup_adjust] at hk
    split_ifs at hk with hid
    · obtain ⟨k', hk', rfl⟩ := Option.map_eq_some_iff.mp hk
      exact ⟨k', hk', (hf k').symm⟩
    · exact ⟨k, hk, rfl⟩
  cases e with
  | deliver c =>
    simp only [step] at hstep
    split at hstep
    · split_ifs at hstep
      split at hstep
      · cases hstep
        exact .inl (hsame rfl)
      · next hok =>
        cases hstep
        exact .inl (hsame (Hub.deliver_frame hok).clients)
    · cases hstep
  | emit name data =>
    simp only [step] at hstep
    exact .inl (hsame (by rw [eq_of_locked hstep]; exact (s.hub.emit_frame name data).clients))
  | sendTo id' json =>
    simp only [step] at hstep
    refine .inl (hsame ?_)
    rw [eq_of_locked hstep]
    exact (Hub.onlyQueues_getD fun _ hok => Hub.sendTo_frame hok).clients
  | start | insert | refuse | remove | drop =>
    simp only [step] at hstep
    split at hstep <;> cases hstep <;> exact .inl (hsame rfl)
  | poll =>
    simp only [step] at hstep
    split at hstep
    · obtain ⟨r, _, rfl⟩ := Option.map_eq_some_iff.mp hstep
      exact .inl (hsame rfl)
    · cases hstep
  | takeAck =>
    simp only [step] at hstep
    split_ifs at hstep
    split at hstep <;> cases hstep <;> exact .inl (hsame rfl)
  | sendAck =>
    simp only [step] at hstep
    split at hstep <;> cases hstep
    exact .inl (hsame rfl)
  | register tx =>
    simp only [step] at hstep
    rw [eq_of_locked hstep] at hk
    simp only [Hub.insertClient, Hub.fetchAddId, Table.lookup_insert_eq] at hk
    split_ifs at hk with hid
    · cases hk
      exact .inr ⟨rfl, hid⟩
    · exact .inl ⟨k, hk, rfl⟩
  | unregister id' =>
    simp only [step] at hstep
    rw [eq_of_locked hstep] at hk
    simp only [Hub.unregisterClient, Table.lookup_erase_eq] at hk
    split_ifs at hk
    exact .inl ⟨k, hk, rfl⟩
  | reap now timeout =>
    simp only [step] at hstep
    split_ifs at hstep
    rw [eq_of_locked hstep] at hk
    simp only [Hub.reapDeadClients, Table.lookup_eraseAll] at hk
    split_ifs at hk
    exact .inl ⟨k, hk, rfl⟩
  | touch id' | hello id' | ready id' =>
    simp only [step] at hstep
    have hclients : t.hub.clients = _ := congrArg (·.hub.clients) (eq_of_locked hstep)
    exact .inl (hadjust id' _ hclients fun _ => rfl)
  | event | tick | writerEnds | writerSends =>
    simp only [step, Option.some.injEq] at hstep
    subst hstep
    exact .inl (hsame rfl)

/-- A call that has not come to the delivery of its frame. -/
def BeforeDelivery (s : Calls) (c : ℕ) : Prop :=
  (s.calls c).pc = .idle ∨ (s.calls c).pc = .created ∨ (s.calls c).pc = .inserted

/-- The name and the payload of a call that is past the delivery stay as they are. -/
theorem delivered_step (hstep : step uuid s e = some t)
    (h : ¬s.BeforeDelivery c ∨ e = .deliver c) :
    ¬t.BeforeDelivery c ∧ (t.calls c).name = (s.calls c).name ∧
      (t.calls c).payload = (s.calls c).payload := by
  by_cases hcaller : caller e = some c
  · cases e <;> simp only [caller, Option.some.injEq, reduceCtorEq] at hcaller <;>
      subst hcaller
    case start c | insert c =>
      simp only [step] at hstep
      split at hstep <;> cases hstep
      next hpc => simp [BeforeDelivery, hpc] at h
    case refuse c | remove c | drop c =>
      simp only [step] at hstep
      split at hstep <;> cases hstep <;> simp [BeforeDelivery]
    case deliver c =>
      simp only [step] at hstep
      split at hstep
      · split_ifs at hstep
        split at hstep <;> cases hstep <;> simp [BeforeDelivery]
      · cases hstep
    case poll c =>
      simp only [step] at hstep
      split at hstep
      · obtain ⟨r, _, rfl⟩ := Option.map_eq_some_iff.mp hstep
        simp [BeforeDelivery]
      · cases hstep
  · have hdeliver : e ≠ .deliver c := fun he => hcaller (by rw [he, caller])
    rw [BeforeDelivery, call_step_other hstep hcaller]
    exact ⟨h.resolve_right hdeliver, rfl, rfl⟩

/-- A delivery takes place once: the call has not come to it before. -/
theorem beforeDelivery_of_deliver (hstep : step uuid s (.deliver c) = some t) :
    s.BeforeDelivery c := by
  simp only [step] at hstep
  split at hstep
  · next hpc => exact .inr (.inr hpc)
  · cases hstep

end Calls

end InfinityBridge.Host
