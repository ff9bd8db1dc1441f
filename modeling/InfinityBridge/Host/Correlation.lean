import InfinityBridge.Host.Calls

/-!
# A command gets its own first ack

A run is a list of events, so what a call should return can be read off the
events: the first ack with its id whose dispatch began after the insertion, if
that dispatch has come to its send when the call polls. The invariant follows the
oneshot of each call through the same three places: in `pending`, in the hands of
a dispatch, in the channel.
-/

namespace InfinityBridge.Host

/-- Where the first ack of an id is: none has been dispatched, its dispatch `d` is
between its two steps, or it has been handed over. -/
inductive AckPhase where
  | none
  | taken (d : ℕ) (a : AckPayload)
  | handed (a : AckPayload)

/-- One event seen by the call with this id. -/
def AckPhase.next (id : String) : AckPhase → CallEvent → AckPhase
  | .none, .takeAck d a => if a.id = id then .taken d a else .none
  | .taken d a, .sendAck d' => if d' = d then .handed a else .taken d a
  | p, _ => p

/-- A delivery is nothing to the acks of a command. -/
theorem AckPhase.next_deliver (id : String) (p : AckPhase) (c : ℕ) :
    p.next id (.deliver c) = p := by
  cases p <;> rfl

/-- Where the first ack of an id is after the events. -/
def ackPhase (id : String) (es : List CallEvent) : AckPhase := es.foldl (AckPhase.next id) .none

/-- What a poll past the deadline sees. -/
def AckPhase.result : AckPhase → AckResult
  | .handed a => .ack a
  | _ => .elapsed

/-- `a` is the first ack with this id whose dispatch takes the lock, dispatch `d`
takes it, and `rest` follows. -/
def FirstTaken (id : String) (es : List CallEvent) (d : ℕ) (a : AckPayload)
    (rest : List CallEvent) : Prop :=
  ∃ before, es = before ++ .takeAck d a :: rest ∧ a.id = id ∧
    ∀ d' a', .takeAck d' a' ∈ before → a'.id ≠ id

/-- The first ack stays the first one when more events follow. -/
theorem FirstTaken.concat {id : String} {es rest : List CallEvent} {d : ℕ} {a : AckPayload}
    (h : FirstTaken id es d a rest) (e : CallEvent) :
    FirstTaken id (es ++ [e]) d a (rest ++ [e]) := by
  obtain ⟨before, rfl, hid, hbefore⟩ := h
  exact ⟨before, by simp, hid, hbefore⟩

/-- What the phase says about the events it was computed from. -/
def AckPhase.Describes (id : String) (es : List CallEvent) : AckPhase → Prop
  | .none => ∀ d a, .takeAck d a ∈ es → a.id ≠ id
  | .taken d a => ∃ rest, FirstTaken id es d a rest ∧ .sendAck d ∉ rest
  | .handed a => ∃ d rest, FirstTaken id es d a rest ∧ .sendAck d ∈ rest

/-- The last event decides on top of the others. -/
theorem ackPhase_concat (id : String) (es : List CallEvent) (e : CallEvent) :
    ackPhase id (es ++ [e]) = (ackPhase id es).next id e := by
  simp only [ackPhase, List.foldl_append, List.foldl_cons, List.foldl_nil]

/-- The phase is the history of the first ack with the id. -/
theorem ackPhase_describes (id : String) (es : List CallEvent) :
    (ackPhase id es).Describes id es := by
  induction es using List.reverseRecOn with
  | nil =>
    intro d a h
    cases h
  | append_singleton es e ih =>
    rw [ackPhase_concat]
    cases hphase : ackPhase id es with
    | none =>
      rw [hphase] at ih
      by_cases htake : ∃ d a, e = .takeAck d a ∧ a.id = id
      · obtain ⟨d, a, rfl, hid⟩ := htake
        simp only [AckPhase.next, hid, if_true]
        exact ⟨[], ⟨es, rfl, hid, ih⟩, List.not_mem_nil⟩
      · have hnext : AckPhase.next id .none e = .none := by
          cases e with
          | takeAck d a => exact if_neg fun h => htake ⟨d, a, rfl, h⟩
          | _ => rfl
        rw [hnext]
        intro d a hmem
        rcases List.mem_append.mp hmem with h | h
        · exact ih d a h
        · exact fun hid => htake ⟨d, a, (List.mem_singleton.mp h).symm, hid⟩
    | taken d a =>
      rw [hphase] at ih
      obtain ⟨rest, hfirst, hnot⟩ := ih
      by_cases hsend : e = .sendAck d
      · subst hsend
        simp only [AckPhase.next, if_true]
        exact ⟨d, rest ++ [.sendAck d], hfirst.concat _, by simp⟩
      · have hnext : AckPhase.next id (.taken d a) e = .taken d a := by
          cases e with
          | sendAck d' => exact if_neg fun h => hsend (by rw [h])
          | _ => rfl
        rw [hnext]
        refine ⟨rest ++ [e], hfirst.concat e, fun hmem => ?_⟩
        rcases List.mem_append.mp hmem with h | h
        · exact hnot h
        · exact hsend (List.mem_singleton.mp h).symm
    | handed a =>
      rw [hphase] at ih
      obtain ⟨d, rest, hfirst, hmem⟩ := ih
      have hnext : AckPhase.next id (.handed a) e = .handed a := by cases e <;> rfl
      rw [hnext]
      exact ⟨d, rest ++ [e], hfirst.concat e, List.mem_append_left _ hmem⟩

namespace Calls

/-- Senders are kept, and dispatched, under the id of their call. -/
structure Consistent (uuid : ℕ → String) (s : Calls) : Prop where
  pending : ∀ id c, s.hub.pending.lookup id = some c → uuid c = id
  dispatching : ∀ d c a, s.dispatching.lookup d = some (c, a) → a.id = uuid c

/-- No oneshot sender of call `c` exists yet. -/
structure Fresh (uuid : ℕ → String) (s : Calls) (c : ℕ) : Prop where
  pending : s.hub.pending.lookup (uuid c) = none
  dispatching : ∀ d a, s.dispatching.lookup d ≠ some (c, a)
  rx : (s.calls c).rx = none

/-- The oneshot of call `c` is where the phase says. -/
def InPhase (uuid : ℕ → String) (s : Calls) (c : ℕ) : AckPhase → Prop
  | .none => s.hub.pending.lookup (uuid c) = some c ∧
      (∀ d a, s.dispatching.lookup d ≠ some (c, a)) ∧ (s.calls c).rx = none
  | .taken d a => s.hub.pending.lookup (uuid c) = none ∧
      (∀ d' a', s.dispatching.lookup d' = some (c, a') ↔ d' = d ∧ a' = a) ∧
      (s.calls c).rx = none
  | .handed a => s.hub.pending.lookup (uuid c) = none ∧
      (∀ d a', s.dispatching.lookup d ≠ some (c, a')) ∧ (s.calls c).rx = some a

variable {uuid : ℕ → String} {s t : Calls} {c : ℕ} {e : CallEvent}

/-- The initial state is consistent. -/
theorem consistent_init : Consistent uuid init := by
  constructor
  · intro id c h
    cases h
  · intro d c a h
    cases h

/-- Every step keeps senders under the id of their call. -/
theorem consistent_step (hcons : Consistent uuid s) (hstep : step uuid s e = some t) :
    Consistent uuid t := by
  constructor
  · intro id c h
    rw [pending_step hstep] at h
    cases e with
    | insert c' =>
      simp only [pendingAfter, Table.lookup_insert_eq] at h
      split_ifs at h with hid
      · cases h
        exact hid.symm
      · exact hcons.pending id c h
    | refuse | remove | takeAck =>
      simp only [pendingAfter, Table.lookup_erase_eq] at h
      split_ifs at h
      exact hcons.pending id c h
    | _ => exact hcons.pending id c h
  · intro d c a h
    rw [dispatching_step hstep] at h
    cases e with
    | takeAck d' a' =>
      simp only [dispatchingAfter] at h
      split at h
      · exact hcons.dispatching d c a h
      · next c' hc' =>
        rw [Table.lookup_insert_eq] at h
        split_ifs at h
        · cases h
          exact (hcons.pending a.id c hc').symm
        · exact hcons.dispatching d c a h
    | sendAck d' =>
      simp only [dispatchingAfter, Table.lookup_erase_eq] at h
      split_ifs at h
      exact hcons.dispatching d c a h
    | _ => exact hcons.dispatching d c a h

/-- The oneshot of call `c` is where it was, and so is the call. -/
def SameOneshot (uuid : ℕ → String) (s t : Calls) (c : ℕ) : Prop :=
  t.hub.pending.lookup (uuid c) = s.hub.pending.lookup (uuid c) ∧
    (∀ d a, t.dispatching.lookup d = some (c, a) ↔ s.dispatching.lookup d = some (c, a)) ∧
    t.calls c = s.calls c

/-- The oneshot of a call is touched by the call's own steps, by the dispatch of
an ack with its id, and by nothing else. -/
theorem sameOneshot_step (huuid : Function.Injective uuid) (hcons : Consistent uuid s)
    (hstep : step uuid s e = some t) (hcaller : caller e ≠ some c)
    (htake : ∀ d a, e = .takeAck d a → a.id ≠ uuid c)
    (hsend : ∀ d a, e = .sendAck d → s.dispatching.lookup d ≠ some (c, a)) :
    SameOneshot uuid s t c := by
  have hne (c' : ℕ) (h : caller e = some c') : uuid c ≠ uuid c' :=
    fun hid => hcaller (by rw [h, huuid hid])
  refine ⟨?_, fun d a => ?_, ?_⟩
  · rw [pending_step hstep]
    cases e with
    | insert c' => rw [pendingAfter, Table.lookup_insert_eq, if_neg (hne c' rfl)]
    | refuse c' | remove c' => rw [pendingAfter, Table.lookup_erase_eq, if_neg (hne c' rfl)]
    | takeAck d a => rw [pendingAfter, Table.lookup_erase_eq, if_neg (htake d a rfl).symm]
    | _ => rfl
  · rw [dispatching_step hstep]
    cases e with
    | takeAck d' a' =>
      have hfree : s.dispatching.lookup d' = none := by
        simp only [step] at hstep
        split_ifs at hstep with hd
        exact AList.lookup_eq_none.mpr hd
      simp only [dispatchingAfter]
      split
      · exact Iff.rfl
      · next c' hc' =>
        have hc : c' ≠ c := fun h => htake d' a' rfl (by rw [← h, hcons.pending _ c' hc'])
        rw [Table.lookup_insert_eq]
        split_ifs with hdd
        · subst hdd
          simp [hfree, hc]
        · rfl
    | sendAck d' =>
      rw [dispatchingAfter, Table.lookup_erase_eq]
      split_ifs with hdd
      · subst hdd
        simp [hsend d a rfl]
      · rfl
    | _ => exact Iff.rfl
  · have hcall := call_step_other hstep hcaller
    have hrx : s.rxAfter c e = (s.calls c).rx := by
      cases e with
      | sendAck d =>
        simp only [rxAfter]
        split
        · next c' a hlook =>
          exact if_neg fun h => hsend d a rfl (by rw [hlook, h.1])
        · rfl
      | _ => rfl
    rw [hcall, hrx]

/-- No sender before the insertion, and the same oneshot after a step. -/
theorem Fresh.of_same (hfresh : Fresh uuid s c) (hsame : SameOneshot uuid s t c) :
    Fresh uuid t c := by
  obtain ⟨hpending, hdispatching, hcalls⟩ := hsame
  refine ⟨hpending.trans hfresh.pending, fun d a h => ?_, by rw [hcalls, hfresh.rx]⟩
  exact hfresh.dispatching d a ((hdispatching d a).mp h)

/-- The phase depends on the sender, the dispatches and the channel only. -/
theorem InPhase.congr {p : AckPhase} (hphase : InPhase uuid s c p)
    (hpending : t.hub.pending.lookup (uuid c) = s.hub.pending.lookup (uuid c))
    (hdispatching : ∀ d a, t.dispatching.lookup d = some (c, a) ↔
      s.dispatching.lookup d = some (c, a))
    (hrx : (t.calls c).rx = (s.calls c).rx) : InPhase uuid t c p := by
  cases p <;>
    simpa only [InPhase, hpending, hdispatching, hrx, ne_eq] using hphase

/-- The same oneshot is in the same phase. -/
theorem InPhase.of_same {p : AckPhase} (hphase : InPhase uuid s c p)
    (hsame : SameOneshot uuid s t c) : InPhase uuid t c p :=
  hphase.congr hsame.1 hsame.2.1 (by rw [hsame.2.2])

/-- Before the insertion, the steps of others and the acks of others leave call
`c` without a sender. -/
theorem fresh_step (huuid : Function.Injective uuid) (hcons : Consistent uuid s)
    (hfresh : Fresh uuid s c) (hstep : step uuid s e = some t) (hcaller : caller e ≠ some c) :
    Fresh uuid t c := by
  by_cases htake : ∀ d a, e = .takeAck d a → a.id ≠ uuid c
  · have hsame := sameOneshot_step huuid hcons hstep hcaller htake
      fun d a _ => hfresh.dispatching d a
    exact hfresh.of_same hsame
  · simp only [not_forall, not_not] at htake
    obtain ⟨d, a, rfl, hid⟩ := htake
    have hlook : s.hub.pending.lookup a.id = none := hid ▸ hfresh.pending
    simp only [step, hlook] at hstep
    split_ifs at hstep
    cases hstep
    exact hfresh

/-- While its receiver lives, the oneshot of call `c` moves on with the events of
others exactly as the phase does. -/
theorem inPhase_step (huuid : Function.Injective uuid) (hcons : Consistent uuid s)
    {p : AckPhase} (hphase : InPhase uuid s c p) (halive : s.receiverAlive c = true)
    (hstep : step uuid s e = some t) (hcaller : caller e ≠ some c) :
    InPhase uuid t c (p.next (uuid c) e) := by
  by_cases htake : ∀ d a, e = .takeAck d a → a.id ≠ uuid c
  · by_cases hsend : ∀ d a, e = .sendAck d → s.dispatching.lookup d ≠ some (c, a)
    · -- nobody touches the oneshot, and the phase does not move either
      have hsame := sameOneshot_step huuid hcons hstep hcaller htake hsend
      have hnext : p.next (uuid c) e = p := by
        cases p with
        | none =>
          cases e with
          | takeAck d a => exact if_neg (htake d a rfl)
          | _ => rfl
        | taken d a =>
          cases e with
          | sendAck d' =>
            refine if_neg fun h => ?_
            exact hsend d' a rfl ((hphase.2.1 d' a).mpr ⟨h, rfl⟩)
          | _ => rfl
        | handed a => cases e <;> rfl
      rw [hnext]
      exact hphase.of_same hsame
    · -- the dispatch that holds the sender hands the ack over
      simp only [not_forall, not_not] at hsend
      obtain ⟨d, a, rfl, hlook⟩ := hsend
      cases p with
      | none => exact absurd hlook (hphase.2.1 d a)
      | handed a' => exact absurd hlook (hphase.2.1 d a)
      | taken d' a' =>
        obtain ⟨rfl, rfl⟩ := (hphase.2.1 d a).mp hlook
        simp only [step, hlook, Option.some.injEq] at hstep
        subst hstep
        simp only [AckPhase.next, if_true, InPhase, halive]
        refine ⟨hphase.1, fun d' a' h => ?_, by simp⟩
        rw [Table.lookup_erase_eq] at h
        split_ifs at h with hd
        exact hd ((hphase.2.1 d' a').mp h).1
  · -- an ack with the id of the call: the first one takes the sender
    simp only [not_forall, not_not] at htake
    obtain ⟨d, a, rfl, hid⟩ := htake
    simp only [step] at hstep
    split_ifs at hstep with hd
    cases p with
    | none =>
      have hlook : s.hub.pending.lookup a.id = some c := hid ▸ hphase.1
      simp only [hlook, Option.some.injEq] at hstep
      subst hstep
      simp only [AckPhase.next, hid, if_true, InPhase]
      refine ⟨?_, fun d' a' => ?_, hphase.2.2⟩
      · simp [Hub.removePending]
      · rw [Table.lookup_insert_eq]
        split_ifs with hdd
        · simp [hdd, eq_comm]
        · simp [hdd, hphase.2.1 d' a']
    | taken d' a' =>
      have hlook : s.hub.pending.lookup a.id = none := hid ▸ hphase.1
      simp only [hlook, Option.some.injEq] at hstep
      exact hstep ▸ hphase
    | handed a' =>
      have hlook : s.hub.pending.lookup a.id = none := hid ▸ hphase.1
      simp only [hlook, Option.some.injEq] at hstep
      exact hstep ▸ hphase

/-- Between the insertion of call `c` and its poll lie these events. -/
def Polled (es : List CallEvent) (c : ℕ) (between : List CallEvent) : Prop :=
  ∃ before after, es = before ++ .insert c :: (between ++ .poll c :: after)

/-- How call `c` came where it is, read off the events so far. -/
def Explained (uuid : ℕ → String) (s : Calls) (es : List CallEvent) (c : ℕ) : Prop :=
  match (s.calls c).pc with
  | .idle | .created => Fresh uuid s c
  | .inserted | .waiting _ => ∃ before after, es = before ++ .insert c :: after ∧
      InPhase uuid s c (ackPhase (uuid c) after)
  | .refusing e => (e.kind = .noClients ∨ e.kind = .transport) ∧
      ∃ before after, es = before ++ .insert c :: after ∧
        InPhase uuid s c (ackPhase (uuid c) after)
  | .removing r => ∃ between, Polled es c between ∧ r = (ackPhase (uuid c) between).result
  | .finished r => (.refuse c ∈ es ∧ ∃ e, r = .error e ∧
        (e.kind = .noClients ∨ e.kind = .transport)) ∨
      ∃ between, Polled es c between ∧
        r = commandOutcome (s.calls c).timeout (ackPhase (uuid c) between).result
  | .cancelled => True

/-- What has been polled stays polled. -/
theorem Polled.concat {es between : List CallEvent} (h : Polled es c between) (e : CallEvent) :
    Polled (es ++ [e]) c between := by
  obtain ⟨before, after, rfl⟩ := h
  exact ⟨before, after ++ [e], by simp⟩

/-- A poll returns what the phase says, or nothing. -/
theorem pollResult_eq {p : AckPhase} {deadline : Instant} {r : AckResult}
    (hphase : InPhase uuid s c p) (hpoll : s.pollResult c deadline = some r) : r = p.result := by
  have hgone : (∃ d a, s.dispatching.lookup d = some (c, a)) ∨
      (∃ id, s.hub.pending.lookup id = some c) → s.senderGone c = false := by
    rintro (⟨d, a, h⟩ | ⟨id, h⟩)
    · have hmem := Table.mem_values_iff.mpr ⟨d, h⟩
      have hfst : c ∈ s.dispatching.values.map Prod.fst := List.mem_map.mpr ⟨_, hmem, rfl⟩
      simp [senderGone, hfst]
    · have hmem := Table.mem_values_iff.mpr ⟨id, h⟩
      simp [senderGone, hmem]
  unfold pollResult at hpoll
  cases p with
  | none =>
    simp only [hphase.2.2, hgone (.inr ⟨_, hphase.1⟩), Bool.false_eq_true, if_false] at hpoll
    split_ifs at hpoll
    cases hpoll
    rfl
  | taken d a =>
    have hheld := (hphase.2.1 d a).mpr ⟨rfl, rfl⟩
    simp only [hphase.2.2, hgone (.inl ⟨d, a, hheld⟩), Bool.false_eq_true, if_false] at hpoll
    split_ifs at hpoll
    cases hpoll
    rfl
  | handed a =>
    simp only [hphase.2.2, Option.some.injEq] at hpoll
    exact hpoll.symm

/-- The errors with which `command` gives up before it waits. -/
theorem deliver_error {h : Hub} {json : Text} {e : BridgeError} (herr : h.deliver json = .error e) :
    e.kind = .noClients ∨ e.kind = .transport := by
  unfold Hub.deliver at herr
  dsimp only at herr
  split_ifs at herr <;> cases herr
  · exact .inl rfl
  · exact .inr rfl

/-- A step of another task, or of a dispatch, keeps the explanation of call `c`. -/
theorem explained_step_other (huuid : Function.Injective uuid) (hcons : Consistent uuid s)
    {es : List CallEvent} (hexpl : Explained uuid s es c) (hstep : step uuid s e = some t)
    (hcaller : caller e ≠ some c) : Explained uuid t (es ++ [e]) c := by
  have hinPhase {after : List CallEvent} (halive : s.receiverAlive c = true)
      (hphase : InPhase uuid s c (ackPhase (uuid c) after)) :
      InPhase uuid t c (ackPhase (uuid c) (after ++ [e])) := by
    rw [ackPhase_concat]
    exact inPhase_step huuid hcons hphase halive hstep hcaller
  have hcall := call_step_other hstep hcaller
  have hpc : (t.calls c).pc = (s.calls c).pc := by rw [hcall]
  have htimeout : (t.calls c).timeout = (s.calls c).timeout := by rw [hcall]
  unfold Explained at hexpl ⊢
  rw [hpc, htimeout]
  cases hpcs : (s.calls c).pc with
  | idle | created =>
    simp only [hpcs] at hexpl ⊢
    exact fresh_step huuid hcons hexpl hstep hcaller
  | inserted | waiting =>
    simp only [hpcs] at hexpl ⊢
    obtain ⟨before, after, rfl, hphase⟩ := hexpl
    exact ⟨before, after ++ [e], by simp, hinPhase (by simp [receiverAlive, hpcs]) hphase⟩
  | refusing err =>
    simp only [hpcs] at hexpl ⊢
    obtain ⟨hkind, before, after, rfl, hphase⟩ := hexpl
    exact ⟨hkind, before, after ++ [e], by simp, hinPhase (by simp [receiverAlive, hpcs]) hphase⟩
  | removing r =>
    simp only [hpcs] at hexpl ⊢
    obtain ⟨between, hpolled, hr⟩ := hexpl
    exact ⟨between, hpolled.concat e, hr⟩
  | finished r =>
    simp only [hpcs] at hexpl ⊢
    rcases hexpl with ⟨hmem, hr⟩ | ⟨between, hpolled, hr⟩
    · exact .inl ⟨List.mem_append_left _ hmem, hr⟩
    · exact .inr ⟨between, hpolled.concat e, hr⟩
  | cancelled => trivial

/-- A step of call `c` itself keeps the explanation. -/
theorem explained_step_own {es : List CallEvent} (hexpl : Explained uuid s es c)
    (hstep : step uuid s e = some t) (hcaller : caller e = some c) :
    Explained uuid t (es ++ [e]) c := by
  cases e <;> simp only [caller, Option.some.injEq, reduceCtorEq] at hcaller <;>
    subst hcaller
  case start c name payload timeout =>
    simp only [step] at hstep
    split at hstep <;> cases hstep
    next hpc =>
    simp only [Explained, hpc, Function.update_self] at hexpl ⊢
    exact ⟨hexpl.pending, hexpl.dispatching, by simp⟩
  case insert c =>
    simp only [step] at hstep
    split at hstep <;> cases hstep
    next hpc =>
    simp only [Explained, hpc, setPc_calls_self] at hexpl ⊢
    refine ⟨es, [], rfl, ?_, hexpl.dispatching, ?_⟩
    · simp [Hub.insertPending]
    · simpa using hexpl.rx
  case deliver c =>
    simp only [step] at hstep
    split at hstep
    · next hpc =>
      split_ifs at hstep
      simp only [Explained, hpc] at hexpl
      obtain ⟨before, after, rfl, hphase⟩ := hexpl
      split at hstep
      · next err herr =>
        cases hstep
        simp only [Explained, setPc_calls_self]
        refine ⟨deliver_error herr, before, after ++ [.deliver c], by simp, ?_⟩
        rw [ackPhase_concat, AckPhase.next_deliver]
        exact hphase.congr rfl (fun _ _ => Iff.rfl) (by simp)
      · next hub hok =>
        cases hstep
        simp only [Explained, setPc_calls_self]
        refine ⟨before, after ++ [.deliver c], by simp, ?_⟩
        rw [ackPhase_concat, AckPhase.next_deliver]
        exact hphase.congr (by rw [setPc_hub, (Hub.deliver_frame hok).pending])
          (fun _ _ => Iff.rfl) (by simp)
    · cases hstep
  case refuse c =>
    simp only [step] at hstep
    split at hstep <;> cases hstep
    next err hpc =>
    simp only [Explained, hpc, setPc_calls_self] at hexpl ⊢
    exact .inl ⟨by simp, err, rfl, hexpl.1⟩
  case poll c =>
    simp only [step] at hstep
    split at hstep
    · next deadline hpc =>
      obtain ⟨r, hpoll, rfl⟩ := Option.map_eq_some_iff.mp hstep
      simp only [Explained, hpc, setPc_calls_self] at hexpl ⊢
      obtain ⟨before, after, rfl, hphase⟩ := hexpl
      exact ⟨after, ⟨before, [], by simp⟩, pollResult_eq hphase hpoll⟩
    · cases hstep
  case remove c =>
    simp only [step] at hstep
    split at hstep <;> cases hstep
    next r hpc =>
    simp only [Explained, hpc, setPc_calls_self] at hexpl ⊢
    obtain ⟨between, hpolled, rfl⟩ := hexpl
    exact .inr ⟨between, hpolled.concat _, rfl⟩
  case drop c =>
    simp only [step] at hstep
    split at hstep <;> cases hstep <;> simp only [Explained, setPc_calls_self]

/-- Every call of every run is explained by the events of the run. -/
theorem explained_run (huuid : Function.Injective uuid) {es : List CallEvent}
    (hrun : Transition.run (step uuid) init es = some s) (c : ℕ) : Explained uuid s es c := by
  induction es using List.reverseRecOn generalizing s with
  | nil =>
    rw [Transition.run_nil, Option.some.injEq] at hrun
    subst hrun
    refine ⟨rfl, fun d a h => ?_, rfl⟩
    cases h
  | append_singleton es e ih =>
    obtain ⟨u, hu, hstep⟩ := Transition.run_concat_eq_some.mp hrun
    by_cases hcaller : caller e = some c
    · exact explained_step_own (ih hu) hstep hcaller
    · have hcons := Transition.run_invariant (fun _ _ _ h hs => consistent_step h hs) hu
        consistent_init
      exact explained_step_other huuid hcons (ih hu) hstep hcaller

/-- The call is past its insertion. -/
def Past (s : Calls) (c : ℕ) : Prop := (s.calls c).pc ≠ .idle ∧ (s.calls c).pc ≠ .created

/-- Once a call is past its insertion, an id that has left `pending` does not come
back. -/
theorem gone_step (huuid : Function.Injective uuid) (hstep : step uuid s e = some t)
    (hpast : s.Past c) (hgone : s.hub.pending.lookup (uuid c) = none) :
    t.hub.pending.lookup (uuid c) = none := by
  rw [pending_step hstep]
  cases e with
  | insert c' =>
    have hne : uuid c ≠ uuid c' := by
      intro h
      cases huuid h
      simp only [step] at hstep
      split at hstep <;> cases hstep
      next hpc => exact hpast.2 hpc
    rw [pendingAfter, Table.lookup_insert_eq, if_neg hne, hgone]
  | refuse | remove | takeAck => rw [pendingAfter, Table.lookup_erase_eq, hgone, ite_self]
  | _ => exact hgone

/-- What a finished call returned: it gave up before it waited, or it returned what
the first ack of its id carried, or it timed out with no such ack dispatched, or
with the first one still between its two steps. -/
theorem finished_outcome (huuid : Function.Injective uuid) {es : List CallEvent}
    (hrun : Transition.run (step uuid) init es = some s) {r : Except BridgeError Value}
    (hpc : (s.calls c).pc = .finished r) :
    (.refuse c ∈ es ∧ ∃ e, r = .error e ∧ (e.kind = .noClients ∨ e.kind = .transport)) ∨
    ∃ between, Polled es c between ∧
      ((∃ d a rest, FirstTaken (uuid c) between d a rest ∧ .sendAck d ∈ rest ∧
          r = ackOutcome a) ∨
        (((∀ d a, .takeAck d a ∈ between → a.id ≠ uuid c) ∨
            ∃ d a rest, FirstTaken (uuid c) between d a rest ∧ .sendAck d ∉ rest) ∧
          r = .error (timeoutError (s.calls c).timeout))) := by
  have hexpl := explained_run huuid hrun c
  simp only [Explained, hpc] at hexpl
  refine hexpl.imp_right ?_
  rintro ⟨between, hpolled, hr⟩
  refine ⟨between, hpolled, ?_⟩
  have hdescribes := ackPhase_describes (uuid c) between
  cases hphase : ackPhase (uuid c) between with
  | none =>
    rw [hphase] at hr hdescribes
    exact .inr ⟨.inl hdescribes, hr⟩
  | taken d a =>
    rw [hphase] at hr hdescribes
    obtain ⟨rest, hfirst, hnot⟩ := hdescribes
    exact .inr ⟨.inr ⟨d, a, rest, hfirst, hnot⟩, hr⟩
  | handed a =>
    rw [hphase] at hr hdescribes
    obtain ⟨d, rest, hfirst, hmem⟩ := hdescribes
    exact .inl ⟨d, a, rest, hfirst, hmem, hr⟩

/-- The ids of the examples: a word of one letter for each call. -/
def wordId (c : ℕ) : String := String.ofList (List.replicate c 'a')

/-- These ids are distinct. -/
theorem wordId_injective : Function.Injective wordId := by
  intro c c' h
  simpa [wordId] using congrArg (fun s => s.toList.length) h

end Calls

end InfinityBridge.Host
