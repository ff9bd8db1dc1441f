import InfinityBridge.Host.Calls
import InfinityBridge.Host.Frames

/-!
# Whom a command reaches

Whether a client has reported ready and whether its channel still has a receiver are
independent facts. The delivery loop looks at the first one for the whole table, before
it finds out about the second one client by client: a client that is ready and gone
hides the clients that are not known to be ready and still there.
-/

namespace InfinityBridge.Host

namespace Hub

/-- The channel of a client still has its receiver. -/
def live (h : Hub) (k : Client) : Bool := !(h.channels k.tx).closed

/-- The delivery loop enqueues on this client. -/
def accepts (h : Hub) (anyReady : Bool) (k : Client) : Bool := (!anyReady || k.ready) && h.live k

/-- The clients a command is enqueued on. -/
def targets (h : Hub) : List Client := h.clients.values.filter (h.accepts h.isReady)

/-- `command` up to the await of the ack: the error it returns before that, if it does. -/
def beginCommand (h : Hub) (id : String) (call : ℕ) (name : Option String) (payload : Value) :
    Option BridgeError × Hub :=
  match (h.insertPending id call).deliver (commandFrame id name payload) with
  | .error e => (some e, (h.insertPending id call).removePending id)
  | .ok h' => (none, h')

/-- Sending to one client does not change which clients are live. -/
theorem accepts_of_onlyQueues {h h' : Hub} (hframe : h.OnlyQueues h') (anyReady : Bool) :
    h'.accepts anyReady = h.accepts anyReady := by
  funext k
  rw [accepts, accepts, live, live, hframe.closed]

/-- The delivery loop counts the clients it enqueues on, and enqueues once on each. -/
theorem deliverAll_spec (json : Text) (anyReady : Bool) (cs : List Client) (h : Hub) (n : ℕ) :
    (deliverAll json anyReady cs (h, n)).2 = n + (cs.filter (h.accepts anyReady)).length ∧
      ∀ tx, ((deliverAll json anyReady cs (h, n)).1.channels tx).queue = (h.channels tx).queue ++
        List.replicate (((cs.filter (h.accepts anyReady)).map (·.tx)).count tx) json := by
  induction cs generalizing h n with
  | nil => simp [deliverAll]
  | cons k cs ih =>
    by_cases hskip : (anyReady && !k.ready) = true
    · have haccepts : h.accepts anyReady k = false := by
        simp only [Bool.and_eq_true, Bool.not_eq_true'] at hskip
        simp [accepts, hskip.1, hskip.2]
      simp only [deliverAll, hskip, if_true, List.filter_cons, haccepts, Bool.false_eq_true,
        if_false]
      exact ih h n
    · have hready : (!anyReady || k.ready) = true := by
        cases anyReady <;> cases hr : k.ready <;> simp_all
      cases hsend : h.send k.tx json with
      | none =>
        have haccepts : h.accepts anyReady k = false := by
          unfold send at hsend
          split_ifs at hsend with hclosed
          simp [accepts, live, hclosed]
        simp only [deliverAll, if_neg hskip, hsend, List.filter_cons, haccepts, Bool.false_eq_true,
          if_false]
        exact ih h n
      | some h' =>
        have haccepts : h.accepts anyReady k = true := by
          unfold send at hsend
          split_ifs at hsend with hclosed
          simp [accepts, live, hclosed, hready]
        obtain ⟨hcount, hqueue⟩ := ih h' (n + 1)
        rw [accepts_of_onlyQueues (send_frame hsend)] at hcount hqueue
        simp only [deliverAll, if_neg hskip, hsend, List.filter_cons, haccepts, if_true,
          List.length_cons, List.map_cons, List.count_cons]
        refine ⟨by omega, fun tx => ?_⟩
        rw [hqueue tx, send_queue hsend tx, List.append_assoc]
        by_cases htx : tx = k.tx
        · subst htx
          simp [List.replicate_succ]
        · simp [htx, Ne.symm htx]

/-- What a delivery does, by the clients it can enqueue on. -/
theorem deliver_cases (h : Hub) (json : Text) :
    (h.clients.isEmpty = true ∧
      h.deliver json = .error (.noClients "no gauges connected — cannot send command")) ∨
    (h.clients.isEmpty = false ∧ h.targets = [] ∧
      h.deliver json = .error (.transport "no gauge connection accepted the command")) ∨
    (h.clients.isEmpty = false ∧ h.targets ≠ [] ∧ ∃ h', h.deliver json = .ok h' ∧
      ∀ tx, (h'.channels tx).queue =
        (h.channels tx).queue ++ List.replicate ((h.targets.map (·.tx)).count tx) json) := by
  obtain ⟨hcount, hqueue⟩ := deliverAll_spec json h.isReady h.clients.values h 0
  rw [Nat.zero_add] at hcount
  cases hempty : h.clients.isEmpty with
  | true => exact .inl ⟨rfl, by simp [deliver, hempty]⟩
  | false =>
    by_cases htargets : h.targets = []
    · have hzero : (deliverAll json h.isReady h.clients.values (h, 0)).2 = 0 := by
        rw [hcount, ← targets, htargets, List.length_nil]
      exact .inr (.inl ⟨rfl, htargets, by simp [deliver, hempty, hzero]⟩)
    · have hpos : (deliverAll json h.isReady h.clients.values (h, 0)).2 ≠ 0 := by
        rw [hcount, ← targets]
        exact mt List.length_eq_zero_iff.mp htargets
      exact .inr (.inr ⟨rfl, htargets, _, by simp [deliver, hempty, hpos], hqueue⟩)

/-- A command whose preference for ready clients costs it no live one: it fails at once
only when there is no client, or none that is live; otherwise its frame goes once to each
of some live clients, to ready ones only if a ready one is live. A failure leaves no trace
in the pending map. -/
structure ReadyPreferred (h : Hub) (id : String) (call : ℕ) (name : Option String)
    (payload : Value) : Prop where
  noClients : (∃ e, (h.beginCommand id call name payload).1 = some e ∧ e.kind = .noClients) ↔
    h.clients.isEmpty = true
  rejected : (h.beginCommand id call name payload).1 =
    some (.transport "no gauge connection accepted the command") →
      ∀ k ∈ h.clients.values, h.live k = false
  enqueued : (¬∃ e, (h.beginCommand id call name payload).1 = some e ∧ e.kind = .noClients) →
    (h.beginCommand id call name payload).1 ≠
      some (.transport "no gauge connection accepted the command") →
    (h.beginCommand id call name payload).1 = none ∧
      ∃ ks : List Client, ks.Sublist h.clients.values ∧ ks ≠ [] ∧ (∀ k ∈ ks, h.live k = true) ∧
        ((∃ k ∈ h.clients.values, k.ready = true ∧ h.live k = true) → ∀ k ∈ ks, k.ready = true) ∧
        ∀ tx, ((h.beginCommand id call name payload).2.channels tx).queue = (h.channels tx).queue ++
          List.replicate ((ks.map (·.tx)).count tx) (commandFrame id name payload)
  pending : (h.beginCommand id call name payload).1.isSome = true →
    (h.beginCommand id call name payload).2.pending = h.pending

/-- Some clients are ready and none of these is live, while another client is. -/
def HidesLive (h : Hub) : Prop :=
  (∃ k ∈ h.clients.values, k.ready = true) ∧
    (∀ k ∈ h.clients.values, k.ready = true → h.live k = false) ∧
    ∃ k ∈ h.clients.values, h.live k = true

/-- The hub is ready when some client is. -/
theorem isReady_iff {h : Hub} : h.isReady = true ↔ ∃ k ∈ h.clients.values, k.ready = true := by
  simp [isReady]

/-- Nothing is enqueued exactly when nobody is live, or the ready clients hide who is. -/
theorem targets_eq_nil_iff {h : Hub} :
    h.targets = [] ↔ (∀ k ∈ h.clients.values, h.live k = false) ∨ h.HidesLive := by
  rw [targets, List.filter_eq_nil_iff]
  constructor
  · intro hnone
    by_cases hdead : ∀ k ∈ h.clients.values, h.live k = false
    · exact .inl hdead
    · push Not at hdead
      obtain ⟨k, hk, hlive⟩ := hdead
      rw [ne_eq, Bool.not_eq_false] at hlive
      have hready : h.isReady = true := by
        by_contra hnot
        have := hnone k hk
        simp [accepts, hlive, hnot] at this
      refine .inr ⟨isReady_iff.mp hready, fun k' hk' hr => ?_, k, hk, hlive⟩
      have := hnone k' hk'
      simpa [accepts, hr] using this
  · rintro (hdead | ⟨hready, hdead, -⟩) k hk
    · simp [accepts, hdead k hk]
    · have hany := isReady_iff.mpr hready
      cases hr : k.ready with
      | true => simp [accepts, hdead k hk hr]
      | false => simp [accepts, hany, hr]

/-- What `command` does before it waits, by the clients it can enqueue on. -/
theorem beginCommand_cases (h : Hub) (id : String) (call : ℕ) (name : Option String)
    (payload : Value) (hfresh : h.pending.lookup id = none) :
    (h.clients.isEmpty = true ∧ h.beginCommand id call name payload =
      (some (.noClients "no gauges connected — cannot send command"), h)) ∨
    (h.clients.isEmpty = false ∧ h.targets = [] ∧ h.beginCommand id call name payload =
      (some (.transport "no gauge connection accepted the command"), h)) ∨
    (h.clients.isEmpty = false ∧ h.targets ≠ [] ∧ ∃ h',
      h.beginCommand id call name payload = (none, h') ∧
      ∀ tx, (h'.channels tx).queue = (h.channels tx).queue ++
        List.replicate ((h.targets.map (·.tx)).count tx) (commandFrame id name payload)) := by
  have hundo : (h.insertPending id call).removePending id = h := by
    simp only [insertPending, removePending, Table.erase_insert hfresh]
  have htargets : (h.insertPending id call).targets = h.targets := rfl
  rcases (h.insertPending id call).deliver_cases (commandFrame id name payload) with
    ⟨hempty, hdeliver⟩ | ⟨hempty, hnone, hdeliver⟩ | ⟨hempty, hsome, h', hdeliver, hqueue⟩
  · exact .inl ⟨hempty, by simp only [beginCommand, hdeliver, hundo]⟩
  · exact .inr (.inl ⟨hempty, htargets ▸ hnone, by simp only [beginCommand, hdeliver, hundo]⟩)
  · exact .inr (.inr ⟨hempty, htargets ▸ hsome, h', by simp only [beginCommand, hdeliver], hqueue⟩)

/-- The preference for ready clients costs a command no live client exactly when no ready
clients, all of them gone, hide one. -/
theorem readyPreferred_iff (h : Hub) (id : String) (call : ℕ) (name : Option String)
    (payload : Value) (hfresh : h.pending.lookup id = none) :
    h.ReadyPreferred id call name payload ↔ ¬h.HidesLive := by
  have hkind : (BridgeError.transport "no gauge connection accepted the command").kind ≠
      .noClients := by decide
  rcases h.beginCommand_cases id call name payload hfresh with
    ⟨hempty, hbegin⟩ | ⟨hempty, hnone, hbegin⟩ | ⟨hempty, hsome, h', hbegin, hqueue⟩
  · have hnobody (k : Client) : k ∉ h.clients.values := by
      intro hk
      obtain ⟨i, hi⟩ := Table.mem_values_iff.mp hk
      rw [Table.isEmpty_iff.mp hempty i] at hi
      cases hi
    refine iff_of_true ⟨?_, ?_, ?_, ?_⟩ fun hides => ?_
    · exact iff_of_true ⟨_, by rw [hbegin], rfl⟩ hempty
    · exact fun _ k hk => absurd hk (hnobody k)
    · exact fun hnot => absurd ⟨_, by rw [hbegin], rfl⟩ hnot
    · exact fun _ => by rw [hbegin]
    · obtain ⟨k, hk, _⟩ := hides.1
      exact hnobody k hk
  · constructor
    · rintro hpreferred ⟨-, -, k, hk, hlive⟩
      rw [hpreferred.rejected (by rw [hbegin]) k hk] at hlive
      cases hlive
    · intro hnot
      have hdead := (targets_eq_nil_iff.mp hnone).resolve_right hnot
      refine ⟨?_, fun _ => hdead, fun _ hne => ?_, fun _ => by rw [hbegin]⟩
      · rw [hbegin, hempty]
        refine iff_of_false ?_ (by simp)
        rintro ⟨e, he, hek⟩
        cases he
        exact hkind hek
      · exact absurd (by rw [hbegin]) hne
  · have hnot : ¬h.HidesLive := fun hides => hsome (targets_eq_nil_iff.mpr (.inr hides))
    refine iff_of_true ⟨?_, ?_, fun _ _ => ⟨by rw [hbegin], h.targets, List.filter_sublist, hsome,
      ?_, ?_, ?_⟩, ?_⟩ hnot
    · rw [hbegin, hempty]
      exact iff_of_false (fun ⟨_, he, _⟩ => by cases he) (by simp)
    · intro he
      rw [hbegin] at he
      cases he
    · intro k hk
      have haccepts := (List.mem_filter.mp hk).2
      simp only [accepts, Bool.and_eq_true] at haccepts
      exact haccepts.2
    · rintro ⟨k', hk', hready, -⟩ k hk
      have haccepts := (List.mem_filter.mp hk).2
      have hany := isReady_iff.mpr ⟨k', hk', hready⟩
      simp only [accepts, hany, Bool.not_true, Bool.false_or, Bool.and_eq_true] at haccepts
      exact haccepts.1
    · rw [hbegin]
      exact hqueue
    · intro he
      rw [hbegin] at he
      cases he

/-- Two clients after a reconnect: the first one was ready and is gone, the second one has
not reported yet. -/
def reconnected : Hub :=
  ((((Hub.new.insertClient 1 0 0).setClientReady 1 true).closeChannel 0).insertClient 2 1 0)

/-- The command fails although the second client would take it. -/
theorem reconnected_hidden : ¬reconnected.ReadyPreferred "a" 0 none .null := by
  intro h
  have hdead := h.rejected rfl ⟨1, none, 0, false⟩ (Table.mem_values_iff.mpr ⟨2, rfl⟩)
  exact absurd hdead (by decide)

/-- Without the stale client the preference is harmless. -/
theorem readyPreferred_iff_unhidden :
    (reconnected.unregisterClient 1).ReadyPreferred "a" 0 none .null := by
  refine (readyPreferred_iff _ "a" 0 none .null rfl).mpr fun hides => ?_
  exact absurd (isReady_iff.mpr hides.1) (by decide)

end Hub

namespace Calls

variable {uuid : ℕ → String} {s : Calls} {c : ℕ}

/-- The steps of a call up to its wait, with no other task in between, do what `command`
does on the hub. -/
theorem run_beginCommand (hpc : (s.calls c).pc = .created) (hguard : s.guard = none) :
    match s.hub.beginCommand (uuid c) c (s.calls c).name (s.calls c).payload with
    | (some e, hub) =>
      ∃ t, Transition.run (step uuid) s [.insert c, .deliver c, .refuse c] = some t ∧
        t.hub = hub ∧ (t.calls c).pc = .finished (.error e)
    | (none, hub) => ∃ t, Transition.run (step uuid) s [.insert c, .deliver c] = some t ∧
        t.hub = hub ∧ (t.calls c).pc = .waiting (s.now + (s.calls c).timeout) := by
  cases hdeliver : (s.hub.insertPending (uuid c) c).deliver
      (commandFrame (uuid c) (s.calls c).name (s.calls c).payload) with
  | error e =>
    simp only [Hub.beginCommand, hdeliver]
    refine ⟨_, by simp [Transition.run, step, hpc, hguard, setPc, hdeliver]; rfl, ?_⟩
    simp
  | ok h' =>
    simp only [Hub.beginCommand, hdeliver]
    refine ⟨_, by simp [Transition.run, step, hpc, hguard, setPc, hdeliver]; rfl, ?_⟩
    simp

end Calls

end InfinityBridge.Host
