import InfinityBridge.Host.Registry
import InfinityBridge.Wire.RoundTrip

/-!
# What comes in on a connection

A read loop works through the texts of its connection one after another. What it has
passed to `dispatch_event`, followed by what it is still to pass on, are the events in
the texts it has received; and what the texts say about readiness is the last flag among
them. Only an event or a command says anything of either kind.
-/

namespace InfinityBridge.Host

/-- The work that the read loop has before it. -/
def Reader.todo : Reader → List ReaderOp
  | .serving todo => todo
  | _ => []

/-- The event a call passes to `dispatch_event`. -/
def ReaderOp.event? : ReaderOp → Option EventPayload
  | .dispatchEvent e => some e
  | _ => none

/-- The events in a text. -/
def eventsOf (text : Text) : List EventPayload := (handleText text).filterMap ReaderOp.event?

/-- The readiness of a client after a call. -/
def ReaderOp.readiness (ready : Bool) : ReaderOp → Bool
  | .setReady b => b
  | _ => ready

/-- The readiness of a client after several calls. -/
def readiness (ready : Bool) (ops : List ReaderOp) : Bool := ops.foldl ReaderOp.readiness ready

/-- Without operations the readiness stays. -/
@[simp] theorem readiness_nil (ready : Bool) : readiness ready [] = ready := rfl

/-- The operations set the readiness one after the other. -/
@[simp] theorem readiness_cons (ready : Bool) (op : ReaderOp) (ops : List ReaderOp) :
    readiness ready (op :: ops) = readiness (op.readiness ready) ops := rfl

/-- The last operations set the readiness on top of the first ones. -/
@[simp] theorem readiness_append (ready : Bool) (ops ops' : List ReaderOp) :
    readiness ready (ops ++ ops') = readiness (readiness ready ops) ops' := List.foldl_append

/-- The record of a client after a call is as ready as the call makes it. -/
theorem onClient_ready (op : ReaderOp) (now : Instant) (client : Client) :
    (op.onClient now client).ready = op.readiness client.ready := by
  cases op <;> rfl

/-- A call that neither reports readiness nor passes an event on. -/
def ReaderOp.Inert (op : ReaderOp) : Prop := (∀ b, op ≠ .setReady b) ∧ ∀ e, op ≠ .dispatchEvent e

/-- Calls that report nothing leave the readiness as it is. -/
theorem readiness_eq_self {ops : List ReaderOp} (h : ∀ b, .setReady b ∉ ops) (ready : Bool) :
    readiness ready ops = ready := by
  induction ops generalizing ready with
  | nil => rfl
  | cons op ops ih =>
    have hop : op.readiness ready = ready := by
      cases op with
      | setReady b => exact absurd List.mem_cons_self (h b)
      | _ => rfl
    rw [readiness_cons, hop]
    exact ih (fun b hb => h b (List.mem_cons_of_mem _ hb)) ready

/-- A message that was read under another tag is neither an event nor a command. -/
theorem fromTagged_ne {tag : String} (hevent : tag ≠ "event") (hcmd : tag ≠ "cmd")
    {b : Body Number} {m : WireMsg} (h : WireMsg.fromTagged tag b = some m) :
    (∀ e, m ≠ .event e) ∧ ∀ p, m ≠ .cmd p := by
  unfold WireMsg.fromTagged at h
  split at h
  case h_4 => exact absurd rfl hcmd
  case h_6 => exact absurd rfl hevent
  case h_7 => cases h
  all_goals
    obtain ⟨_, _, rfl⟩ := Option.map_eq_some_iff.mp h
    constructor <;> intro _ hm <;> cases hm

/-- An object with another tag causes inert calls only, whether it is a message or not. -/
theorem inert_of_tag (tag : String) {ms : List (String × Value)}
    (htag : Json.named "t" ms = [.str tag]) (hevent : tag ≠ "event") (hcmd : tag ≠ "cmd") :
    ∀ op ∈ handleText (.doc (.obj ms)), op.Inert := by
  intro op hop
  have hnotMsg (m : WireMsg) (hm : WireMsg.fromJson (.doc (.obj ms)) = some m) :
      (∀ e, m ≠ .event e) ∧ ∀ p, m ≠ .cmd p := by
    obtain ⟨j, hparse, hvalue⟩ := Option.bind_eq_some_iff.mp hm
    cases Text.eq_doc_of_parse hparse
    simp only [WireMsg.fromValue, htag] at hvalue
    exact fromTagged_ne hevent hcmd hvalue
  unfold handleText at hop
  rcases List.mem_cons.mp hop with rfl | hop
  · constructor <;> intro _ h <;> cases h
  · cases hm : WireMsg.fromJson (.doc (.obj ms)) with
    | none =>
      rw [hm] at hop
      cases hop
    | some m =>
      rw [hm] at hop
      cases m with
      | event e => exact absurd rfl ((hnotMsg _ hm).1 e)
      | cmd p => exact absurd rfl ((hnotMsg _ hm).2 p)
      | pong ts => cases hop
      | _ =>
        rw [List.mem_singleton.mp hop]
        constructor <;> intro _ h <;> cases h

/-- Calls among which there is no event pass none on. -/
theorem events_eq_nil {ops : List ReaderOp} (h : ∀ e, .dispatchEvent e ∉ ops) :
    ops.filterMap ReaderOp.event? = [] := by
  refine List.filterMap_eq_nil_iff.mpr fun op hop => ?_
  cases op with
  | dispatchEvent e => exact absurd hop (h e)
  | _ => rfl

/-- A text that is no reserved event reports nothing. -/
theorem setReady_notMem {text : Text}
    (h : ∀ e, WireMsg.fromJson text = some (.event e) → e.name ≠ readyEvent) (b : Bool) :
    .setReady b ∉ handleText text := by
  intro hmem
  unfold handleText at hmem
  cases hm : WireMsg.fromJson text with
  | none => simp [hm] at hmem
  | some m =>
    cases m with
    | event e => simp [hm, h e hm] at hmem
    | _ => simp [hm] at hmem

/-- The calls for an event that is not the reserved one. -/
theorem handleText_event {e : EventPayload} (hname : e.name ≠ readyEvent)
    (hdepth : e.data.depth + 1 < recursionLimit) :
    handleText (WireMsg.event e).toJson = [.touch, .dispatchEvent e] := by
  have hmsg : WireMsg.fromJson (WireMsg.event e).toJson = some (.event e) := by
    rw [WireMsg.fromJson, WireMsg.toJson, Text.parse_doc, Option.bind_some,
      WireMsg.fromValue_toValue]
    · rfl
    · simpa [WireMsg.toValue, Json.depth, Json.depthMembers] using hdepth
  simp only [handleText, hmsg, if_neg hname]

namespace Server

variable {cfg : ServerConfig} {s t : Server} {e : ServerEvent}

/-- How the work before a read loop changes: by the arrival of a text when there is none,
and by the next call. -/
theorem todo_step (c : ℕ) (hstep : step cfg s e = some t) :
    (∃ text, e = .receive c (.text text) ∧ (s.conns c).reader.todo = [] ∧
      (t.conns c).reader.todo = handleText text) ∨
    (∃ op, e = .readerOp c ∧ (s.conns c).reader = .serving (op :: (t.conns c).reader.todo)) ∨
    ((∀ text, e ≠ .receive c (.text text)) ∧ e ≠ .readerOp c ∧
      (t.conns c).reader.todo = (s.conns c).reader.todo) := by
  rcases conn_step c hstep with ⟨hactor, hsame⟩ | hown
  · refine .inr (.inr ⟨?_, ?_, by rw [hsame]⟩)
    · rintro text rfl
      exact hactor rfl
    · rintro rfl
      exact hactor rfl
  · generalize t.conns c = k at hown ⊢
    cases hown with
    | receives text hreader =>
      refine .inl ⟨text, rfl, ?_⟩
      simp [hreader, Reader.todo]
    | readerOp op ops hreader =>
      refine .inr (.inl ⟨op, rfl, ?_⟩)
      simp [hreader, Reader.todo]
    | closes item hreader hitem =>
      refine .inr (.inr ⟨?_, by simp, by simp [hreader, Reader.todo]⟩)
      rcases hitem with rfl | rfl <;> simp
    | _ =>
      refine .inr (.inr ⟨by simp, by simp, ?_⟩)
      simp_all [Reader.todo]

/-- Where a record comes from: it is new, or it is what it was, or the call of its own
connection has made it of what it was. -/
theorem record_step (hs : Sound cfg s) (hbound : s.registrations ≤ 2 ^ 64)
    (hstep : step cfg s e = some t) {id : ℕ} {client : Client}
    (hclient : t.hub.clients.lookup id = some client) :
    (e = .insert client.tx ∧ (s.conns client.tx).reader = .gotId ∧
      client = ⟨client.tx, none, s.now, false⟩) ∨
    (s.hub.clients.lookup id = some client ∧ e ≠ .readerOp client.tx) ∨
    (∃ old op ops, s.hub.clients.lookup id = some old ∧ client = op.onClient s.now old ∧
      e = .readerOp client.tx ∧ (s.conns client.tx).reader = .serving (op :: ops)) := by
  rcases clients_step hstep with ⟨c, rfl, hreader, _, hlookup⟩ | ⟨c, rfl, _, _, hlookup⟩ |
    ⟨c, now, rfl, _, _, hlookup⟩ | ⟨c, op, ops, rfl, hreader, _, hlookup⟩ | ⟨hclients, _, hnotes⟩
  · rw [hlookup] at hclient
    split_ifs at hclient
    · cases hclient
      exact .inl ⟨rfl, hreader, rfl⟩
    · exact .inr (.inl ⟨hclient, by simp⟩)
  · rw [hlookup] at hclient
    split_ifs at hclient
    exact .inr (.inl ⟨hclient, by simp⟩)
  · rw [hlookup] at hclient
    split_ifs at hclient
    exact .inr (.inl ⟨hclient, by simp⟩)
  · have hregistered : (s.conns c).reader.registered = true := by
      rw [hreader]
      rfl
    rw [hlookup] at hclient
    split_ifs at hclient with hid
    · obtain ⟨old, hold, rfl⟩ := Option.map_eq_some_iff.mp hclient
      obtain ⟨hidold, hregold⟩ := hs.owner id old hold
      have htx : old.tx = c := hs.id_injective hbound (Reader.drawn_of_registered hregold)
        (Reader.drawn_of_registered hregistered) (hidold.trans hid)
      have hkept : (op.onClient s.now old).tx = old.tx := by cases op <;> rfl
      refine .inr (.inr ⟨old, op, ops, hold, rfl, ?_, ?_⟩)
      · rw [hkept, htx]
      · rw [hkept, htx]
        exact hreader
    · refine .inr (.inl ⟨hclient, fun heq => hid ?_⟩)
      cases heq
      exact (hs.owner id client hclient).1.symm
  · rw [hclients] at hclient
    refine .inr (.inl ⟨hclient, ?_⟩)
    rintro rfl
    obtain ⟨c, text, hnote⟩ := hnotes _ (List.mem_singleton_self _)
    cases hnote

/-- Where the readiness of a record comes from: it is false in a new record, and else it
is what it was, or what the call of its own connection has made of it. -/
theorem ready_step (hs : Sound cfg s) (hbound : s.registrations ≤ 2 ^ 64)
    (hstep : step cfg s e = some t) {id : ℕ} {client : Client}
    (hclient : t.hub.clients.lookup id = some client) :
    (e = .insert client.tx ∧ (s.conns client.tx).reader = .gotId ∧ client.ready = false) ∨
    (∃ old, s.hub.clients.lookup id = some old ∧ client.tx = old.tx ∧ client.ready = old.ready ∧
      e ≠ .readerOp client.tx) ∨
    (∃ old op ops, s.hub.clients.lookup id = some old ∧ client.tx = old.tx ∧
      client.ready = op.readiness old.ready ∧ e = .readerOp client.tx ∧
      (s.conns client.tx).reader = .serving (op :: ops)) := by
  rcases record_step hs hbound hstep hclient with ⟨he, hreader, hnew⟩ | ⟨hold, he⟩ |
    ⟨old, op, ops, hold, rfl, he, hreader⟩
  · exact .inl ⟨he, hreader, by rw [hnew]⟩
  · exact .inr (.inl ⟨client, hold, rfl, rfl, he⟩)
  · exact .inr (.inr ⟨old, op, ops, hold, by cases op <;> rfl, onClient_ready op s.now old, he,
      hreader⟩)

/-- The text that connection `c` receives at an event. -/
def receivedBy (c : ℕ) (_ : Server) : ServerEvent → List Text
  | .receive c' (.text t) => if c' = c then [t] else []
  | _ => []

/-- The event that connection `c` passes to `dispatch_event` at an event. -/
def dispatchedBy (c : ℕ) (s : Server) : ServerEvent → List EventPayload
  | .readerOp c' =>
    if c' = c then ((s.conns c).reader.todo.head?.bind ReaderOp.event?).toList else []
  | _ => []

/-- A step passes on the first of what was to be passed on, or adds the events of a text. -/
theorem dispatched_step (c : ℕ) (hstep : step cfg s e = some t) :
    dispatchedBy c s e ++ (t.conns c).reader.todo.filterMap ReaderOp.event? =
      (s.conns c).reader.todo.filterMap ReaderOp.event? ++ (receivedBy c s e).flatMap eventsOf := by
  rcases todo_step c hstep with ⟨text, rfl, hbefore, hafter⟩ | ⟨op, rfl, hreader⟩ |
    ⟨htext, hop, htodo⟩
  · simp [dispatchedBy, receivedBy, hbefore, hafter, eventsOf]
  · cases hevent : op.event? <;>
      simp [dispatchedBy, receivedBy, hreader, Reader.todo, hevent]
  · have hnone : dispatchedBy c s e = [] ∧ receivedBy c s e = [] := by
      constructor
      · cases e with
        | readerOp c' =>
          refine if_neg ?_
          rintro rfl
          exact hop rfl
        | _ => rfl
      · cases e with
        | receive c' item =>
          cases item with
          | text text =>
            refine if_neg ?_
            rintro rfl
            exact htext text rfl
          | _ => rfl
        | _ => rfl
    rw [hnone.1, hnone.2, htodo]
    simp

/-- What a connection passes on, followed by what it is to pass on, is what it was to pass
on before, followed by the events of the texts it receives. -/
theorem dispatched_run (c : ℕ) {es : List ServerEvent}
    (hrun : Transition.run (step cfg) s es = some t) :
    Transition.trace (step cfg) (dispatchedBy c) s es ++
        (t.conns c).reader.todo.filterMap ReaderOp.event? =
      (s.conns c).reader.todo.filterMap ReaderOp.event? ++
        (Transition.trace (step cfg) (receivedBy c) s es).flatMap eventsOf := by
  induction es using List.reverseRecOn generalizing t with
  | nil =>
    rw [Transition.run_nil, Option.some.injEq] at hrun
    subst hrun
    simp [Transition.trace]
  | append_singleton es e ih =>
    obtain ⟨u, hu, hstep⟩ := Transition.run_concat_eq_some.mp hrun
    rw [Transition.trace_concat hu hstep, Transition.trace_concat hu hstep, List.append_assoc,
      dispatched_step c hstep, ← List.append_assoc, ih hu, List.flatMap_append, List.append_assoc]

/-- A read loop can always work through what is before it. -/
theorem run_ops (cfg : ServerConfig) {c : ℕ} {ops : List ReaderOp}
    (hreader : (s.conns c).reader = .serving ops) :
    ∃ t, Transition.run (step cfg) s (List.replicate ops.length (.readerOp c)) = some t ∧
      (t.conns c).reader = .serving [] ∧ (t.conns c).id = (s.conns c).id ∧
      (∀ c', c' ≠ c → t.conns c' = s.conns c') ∧
      ∀ client, s.hub.clients.lookup (s.conns c).id = some client →
        ∃ client', t.hub.clients.lookup (s.conns c).id = some client' ∧
          client'.tx = client.tx ∧ client'.ready = readiness client.ready ops := by
  induction ops generalizing s with
  | nil => exact ⟨s, rfl, hreader, rfl, fun _ _ => rfl, fun client h => ⟨client, h, rfl, rfl⟩⟩
  | cons op ops ih =>
    have hstep : step cfg s (.readerOp c) =
        some ((s.perform c op).act c fun k => { k with reader := .serving ops }) := by
      simp only [step, hreader]
    obtain ⟨t, hrun, hdone, hid, hothers, hrecord⟩ :=
      ih (s := (s.perform c op).act c fun k => { k with reader := .serving ops }) (by simp)
    have hid' : (((s.perform c op).act c fun k => { k with reader := .serving ops }).conns c).id =
        (s.conns c).id := by simp
    refine ⟨t, Transition.run_cons_eq_some.mpr ⟨_, hstep, hrun⟩, hdone, hid.trans hid',
      fun c' hc' => ?_, fun client hclient => ?_⟩
    · rw [hothers c' hc', act_conns_ne _ hc', perform_conns]
    · have hafter : AList.lookup (s.conns c).id (s.perform c op).hub.clients =
          some (op.onClient s.now client) := by
        rw [lookup_perform, if_pos rfl, hclient, Option.map_some]
      rw [hid'] at hrecord
      obtain ⟨client', hclient', htx, hready⟩ := hrecord _ hafter
      refine ⟨client', hclient', htx.trans (by cases op <;> rfl), ?_⟩
      rw [hready, onClient_ready, readiness_cons]

end Server

end InfinityBridge.Host
