import InfinityBridge.Host.Reaping

/-!
# The client registry

The client table is changed by seven operations from three tasks of each connection.
Here it is compared with the notes an observer of the clients lock would take: which
connection registered under which id, which texts a connection received and when its
read loop called the hub, who was unregistered and who was reaped. The table holds the
ids that were registered and not removed, and each record is a fold of the notes of its
own connection.
-/

namespace InfinityBridge.Host

/-- What an observer of the clients lock notes down. -/
inductive Note where
  | registered (c id : ℕ) (now : Instant)
  /-- The read loop of `c` has received a text frame. -/
  | received (c : ℕ) (text : Text)
  /-- The read loop of `c` has made its next call on the hub. -/
  | ran (c : ℕ) (now : Instant)
  | unregistered (c id : ℕ)
  /-- A call of `reap_dead_clients` has returned these ids. -/
  | reaped (ids : List ℕ)

/-- The connection whose read loop a note is about. -/
def Note.connection : Note → Option ℕ
  | .registered c _ _ | .received c _ | .ran c _ | .unregistered c _ => some c
  | .reaped _ => none

/-- The id a note registers. -/
def Note.registers : Note → Option ℕ
  | .registered _ id _ => some id
  | _ => none

/-- The ids a note removes. -/
def Note.removes : Note → List ℕ
  | .unregistered _ id => [id]
  | .reaped ids => ids
  | _ => []

/-- What the next call of a read loop is for. -/
inductive Stage where
  | idle
  /-- A frame has been received: the touch comes first, whatever the text is. -/
  | touching (text : Text)
  /-- The message of the frame takes its effect. -/
  | acting (m : WireMsg)

/-- A connection as its own notes describe it. -/
structure Session where
  client : Client
  stage : Stage

/-- The effect of a message on the record of the client that sent it. -/
def WireMsg.effect (m : WireMsg) (client : Client) : Client :=
  match m with
  | .hello h => { client with hello := some h }
  | .event e =>
    if e.name = readyEvent then { client with ready := readyFlag e.data } else client
  | _ => client

/-- The stage after the touch: a text that is no message has no effect, nor has a pong. -/
def Stage.afterTouch (text : Text) : Stage :=
  match WireMsg.fromJson text with
  | none | some (.pong _) => .idle
  | some m => .acting m

/-- A session after a note about its connection. -/
def Session.next (σ : Session) : Note → Session
  | .registered c _ now => ⟨⟨c, none, now, false⟩, .idle⟩
  | .received _ text => { σ with stage := .touching text }
  | .ran _ now =>
    match σ.stage with
    | .idle => σ
    | .touching text => ⟨{ σ.client with lastSeen := now }, .afterTouch text⟩
    | .acting m => ⟨WireMsg.effect m σ.client, .idle⟩
  | _ => σ

/-- The notes about connection `c`, folded from an empty record. -/
def session (c : ℕ) (notes : List Note) : Session :=
  (notes.filter fun n => n.connection = some c).foldl Session.next ⟨⟨c, none, 0, false⟩, .idle⟩

/-- The ids that were registered, in order. -/
def registeredIds (notes : List Note) : List ℕ := notes.filterMap Note.registers

/-- The ids that were unregistered or reaped. -/
def removedIds (notes : List Note) : List ℕ := notes.flatMap Note.removes

/-- What a call of the read loop does to the record of its client. -/
def ReaderOp.onClient (op : ReaderOp) (now : Instant) (client : Client) : Client :=
  match op with
  | .touch => { client with lastSeen := now }
  | .setHello h => { client with hello := some h }
  | .setReady b => { client with ready := b }
  | _ => client

/-- The calls a stage stands for. -/
def Stage.todo : Stage → List ReaderOp
  | .idle => []
  | .touching text => handleText text
  | .acting m =>
    match m with
    | .hello h => [.setHello h]
    | .ack a => [.dispatchAck a]
    | .event e =>
      if e.name = readyEvent then [.setReady (readyFlag e.data)] else [.dispatchEvent e]
    | .pong _ => []
    | .cmd p => [.dispatchEvent ⟨p.name.getD "cmd", p.payload⟩]
    | .ping ts => [.sendTo (WireMsg.pong ts).toJson]

/-- A frame is a touch and then the effect of its message. -/
theorem handleText_eq (text : Text) : handleText text = .touch :: (Stage.afterTouch text).todo := by
  unfold handleText Stage.afterTouch
  cases WireMsg.fromJson text with
  | none => rfl
  | some m => cases m <;> rfl

/-- A call of the read loop takes the session to its next stage, and changes the
record as the call does. -/
theorem Session.next_ran {σ : Session} {op : ReaderOp} {ops : List ReaderOp}
    (htodo : σ.stage.todo = op :: ops) (c : ℕ) (now : Instant) :
    (σ.next (.ran c now)).stage.todo = ops ∧
      (σ.next (.ran c now)).client = op.onClient now σ.client := by
  obtain ⟨client, stage⟩ := σ
  cases stage with
  | idle => cases htodo
  | touching text =>
    have hhead : ReaderOp.touch :: (Stage.afterTouch text).todo = op :: ops :=
      (handleText_eq text).symm.trans htodo
    obtain ⟨rfl, hops⟩ := List.cons.inj hhead
    exact ⟨hops, rfl⟩
  | acting m =>
    cases m with
    | pong ts => cases htodo
    | event e =>
      by_cases hname : e.name = readyEvent
      · simp only [Stage.todo, if_pos hname, List.cons.injEq] at htodo
        obtain ⟨rfl, rfl⟩ := htodo
        simp only [Session.next, WireMsg.effect, if_pos hname, Stage.todo, ReaderOp.onClient,
          and_self]
      · simp only [Stage.todo, if_neg hname, List.cons.injEq] at htodo
        obtain ⟨rfl, rfl⟩ := htodo
        simp only [Session.next, WireMsg.effect, if_neg hname, Stage.todo, ReaderOp.onClient,
          and_self]
    | _ =>
      simp only [Stage.todo, List.cons.injEq] at htodo
      obtain ⟨rfl, rfl⟩ := htodo
      exact ⟨rfl, rfl⟩

/-- A note about a connection moves its session on. -/
theorem session_concat {c : ℕ} {n : Note} (hn : n.connection = some c) (notes : List Note) :
    session c (notes ++ [n]) = (session c notes).next n := by
  simp only [session, List.filter_append, List.foldl_append]
  simp [hn]

/-- Notes about other connections leave a session alone. -/
theorem session_append {c : ℕ} {new : List Note} (hnew : ∀ n ∈ new, n.connection ≠ some c)
    (notes : List Note) : session c (notes ++ new) = session c notes := by
  have hnone : (new.filter fun n => decide (n.connection = some c)) = [] := by
    refine List.filter_eq_nil_iff.mpr fun n hn h => ?_
    exact hnew n hn (of_decide_eq_true h)
  simp only [session, List.filter_append, hnone, List.append_nil]

/-- A note about another connection leaves a session alone. -/
theorem session_concat_ne {c c' : ℕ} {n : Note} (hn : n.connection = some c') (hne : c' ≠ c)
    (notes : List Note) : session c (notes ++ [n]) = session c notes := by
  refine session_append (fun n' hn' h => hne ?_) notes
  rw [List.mem_singleton.mp hn', hn] at h
  exact Option.some.inj h

/-- The receipt of texts leaves the record alone. -/
theorem session_client_of_received {new : List Note}
    (hnew : ∀ n ∈ new, ∃ c text, n = .received c text) (c : ℕ) (notes : List Note) :
    (session c (notes ++ new)).client = (session c notes).client := by
  induction new using List.reverseRecOn with
  | nil => rw [List.append_nil]
  | append_singleton new n ih =>
    rw [← List.append_assoc, ← ih fun n hn => hnew n (List.mem_append_left _ hn)]
    by_cases hn : n.connection = some c
    · obtain ⟨c', text, rfl⟩ := hnew n (List.mem_append_right _ (List.mem_singleton_self n))
      rw [session_concat hn]
      rfl
    · rw [session_append fun n' hn' => by rwa [List.mem_singleton.mp hn']]

/-- The id that one step registers, if it does. -/
@[simp] theorem registeredIds_singleton (n : Note) : registeredIds [n] = n.registers.toList := by
  cases n <;> rfl

/-- The ids that one step removes. -/
@[simp] theorem removedIds_singleton (n : Note) : removedIds [n] = n.removes := by
  simp [removedIds]

/-- An id is registered by the earlier steps or by the new ones. -/
theorem mem_registeredIds_append {id : ℕ} {notes new : List Note} :
    id ∈ registeredIds (notes ++ new) ↔ id ∈ registeredIds notes ∨ id ∈ registeredIds new := by
  simp only [registeredIds, List.filterMap_append, List.mem_append]

/-- An id is removed by the earlier steps or by the new ones. -/
theorem mem_removedIds_append {id : ℕ} {notes new : List Note} :
    id ∈ removedIds (notes ++ new) ↔ id ∈ removedIds notes ∨ id ∈ removedIds new := by
  simp only [removedIds, List.flatMap_append, List.mem_append]

/-- Texts that are received register and remove nothing. -/
theorem ids_of_received {new : List Note} (hnew : ∀ n ∈ new, ∃ c text, n = .received c text) :
    registeredIds new = [] ∧ removedIds new = [] := by
  constructor
  · refine List.filterMap_eq_nil_iff.mpr fun n hn => ?_
    obtain ⟨c, text, rfl⟩ := hnew n hn
    rfl
  · refine List.flatMap_eq_nil_iff.mpr fun n hn => ?_
    obtain ⟨c, text, rfl⟩ := hnew n hn
    rfl

/-- Who has registered under an id. -/
theorem mem_registeredIds {id : ℕ} {notes : List Note} :
    id ∈ registeredIds notes ↔ ∃ c now, Note.registered c id now ∈ notes := by
  simp only [registeredIds, List.mem_filterMap]
  constructor
  · rintro ⟨n, hn, hid⟩
    cases n with
    | registered c id' now =>
      cases hid
      exact ⟨c, now, hn⟩
    | _ => cases hid
  · rintro ⟨c, now, hn⟩
    exact ⟨_, hn, rfl⟩

namespace Server

variable {cfg : ServerConfig} {s t : Server} {e : ServerEvent}

/-- The notes taken at an event. -/
def note (cfg : ServerConfig) (s : Server) : ServerEvent → List Note
  | .insert c => [.registered c (s.conns c).id s.now]
  | .receive c (.text t) => [.received c t]
  | .readerOp c => [.ran c s.now]
  | .unregister c => [.unregistered c (s.conns c).id]
  | .reap c =>
    match (s.conns c).ping with
    | .sampled now => [.reaped (s.hub.reapDeadClients now cfg.pingTimeout).1]
    | _ => []
  | _ => []

/-- The note of a reaper. -/
theorem note_reap {c : ℕ} {now : Instant} (hping : (s.conns c).ping = .sampled now) :
    note cfg s (.reap c) = [.reaped (s.hub.deadClients now cfg.pingTimeout)] := by
  simp only [note, hping, Hub.reapDeadClients]

/-- A call of the read loop changes the record of its own client. -/
theorem lookup_perform (s : Server) (c id : ℕ) (op : ReaderOp) :
    (s.perform c op).hub.clients.lookup id =
      if id = (s.conns c).id then (s.hub.clients.lookup id).map (op.onClient s.now)
      else s.hub.clients.lookup id := by
  have hsame (hub : Hub) (hclients : hub.clients = s.hub.clients) :
      hub.clients.lookup id =
        if id = (s.conns c).id then (s.hub.clients.lookup id).map (fun client => client)
        else s.hub.clients.lookup id := by
    rw [hclients, Option.map_id_fun', id_eq, ite_self]
  cases op with
  | touch => exact Table.lookup_adjust _ id _ _
  | setHello h => exact Table.lookup_adjust _ id _ _
  | setReady b => exact Table.lookup_adjust _ id _ _
  | dispatchAck a => exact hsame _ rfl
  | dispatchEvent e => exact hsame _ rfl
  | sendTo json => exact hsame _ (Hub.onlyQueues_getD fun _ hok => Hub.sendTo_frame hok).clients

/-- What a step does to the client table and to the watch channel. -/
theorem clients_step (hstep : step cfg s e = some t) :
    (∃ c, e = .insert c ∧ (s.conns c).reader = .gotId ∧ t.hub.connection = true ∧
      ∀ id, t.hub.clients.lookup id = if id = (s.conns c).id then some ⟨c, none, s.now, false⟩
        else s.hub.clients.lookup id) ∨
    (∃ c, e = .unregister c ∧ (s.conns c).reader = .leaving ∧
      t.hub.connection = t.hub.isConnected ∧
      ∀ id, t.hub.clients.lookup id = if id = (s.conns c).id then none
        else s.hub.clients.lookup id) ∨
    (∃ c now, e = .reap c ∧ (s.conns c).ping = .sampled now ∧
      t.hub.connection = (if (s.hub.deadClients now cfg.pingTimeout).isEmpty
        then s.hub.connection else t.hub.isConnected) ∧
      ∀ id, t.hub.clients.lookup id = if id ∈ s.hub.deadClients now cfg.pingTimeout then none
        else s.hub.clients.lookup id) ∨
    (∃ c op ops, e = .readerOp c ∧ (s.conns c).reader = .serving (op :: ops) ∧
      t.hub.connection = s.hub.connection ∧
      ∀ id, t.hub.clients.lookup id = if id = (s.conns c).id
        then (s.hub.clients.lookup id).map (op.onClient s.now) else s.hub.clients.lookup id) ∨
    (t.hub.clients = s.hub.clients ∧ t.hub.connection = s.hub.connection ∧
      ∀ n ∈ note cfg s e, ∃ c text, n = .received c text) := by
  have hqueues {hub : Hub} (hframe : s.hub.OnlyQueues hub) (hhub : t.hub = hub)
      (hnote : note cfg s e = []) :
      t.hub.clients = s.hub.clients ∧ t.hub.connection = s.hub.connection ∧
        ∀ n ∈ note cfg s e, ∃ c text, n = .received c text := by
    rw [hhub, hnote]
    exact ⟨hframe.clients, hframe.connection, fun n hn => by cases hn⟩
  cases e <;> simp only [step] at hstep
  case insert c =>
    split at hstep <;> cases hstep
    next hreader =>
    refine .inl ⟨c, rfl, hreader, rfl, fun id => ?_⟩
    simp only [act_hub, Hub.insertClient, Table.lookup_insert_eq]
  case unregister c =>
    split at hstep <;> cases hstep
    next hreader =>
    refine .inr (.inl ⟨c, rfl, hreader, rfl, fun id => ?_⟩)
    simp only [act_hub, Hub.unregisterClient, Table.lookup_erase_eq]
  case reap c =>
    split at hstep
    · next now hping =>
      refine .inr (.inr (.inl ⟨c, now, rfl, hping, ?_⟩))
      have hhub : t.hub = (s.hub.reapDeadClients now cfg.pingTimeout).2 := by
        split at hstep <;> cases hstep <;> rfl
      rw [hhub]
      exact ⟨rfl, fun id => Table.lookup_eraseAll _ id _⟩
    · cases hstep
  case readerOp c =>
    split at hstep <;> cases hstep
    next op ops hreader =>
    refine .inr (.inr (.inr (.inl
      ⟨c, op, ops, rfl, hreader, ?_, fun id => lookup_perform s c id op⟩)))
    cases op with
    | sendTo json => exact (Hub.onlyQueues_getD fun _ hok => Hub.sendTo_frame hok).connection
    | _ => rfl
  all_goals refine .inr (.inr (.inr (.inr ?_)))
  case sendPing c ts =>
    split at hstep
    · split at hstep <;> cases hstep
      · next hub hok => exact hqueues (Hub.sendTo_frame hok) rfl rfl
      · exact hqueues (.refl _) rfl rfl
    · cases hstep
  case emit name data =>
    cases hstep
    exact hqueues (s.hub.emit_frame name data) rfl rfl
  case deliver json =>
    cases hstep
    exact hqueues (Hub.onlyQueues_getD fun _ hok => Hub.deliver_frame hok) rfl rfl
  case receive c item =>
    split at hstep <;> cases hstep
    refine ⟨rfl, rfl, fun n hn => ?_⟩
    cases item with
    | text t => exact ⟨c, t, List.mem_singleton.mp hn⟩
    | _ => cases hn
  all_goals
    (repeat' split at hstep) <;> cases hstep <;> exact ⟨rfl, rfl, fun n hn => by cases hn⟩

/-- A connection that is registered has inserted its client. -/
theorem Reader.entered_of_registered {r : Reader} (h : r.registered = true) :
    r.entered = true := by
  cases r <;> simp_all [Reader.registered, Reader.entered]

/-- Only an insertion makes a connection enter. -/
theorem entered_of_step {c : ℕ} (hstep : step cfg s e = some t)
    (hentered : (t.conns c).reader.entered = true) :
    (s.conns c).reader.entered = true ∨ e = .insert c := by
  rcases conn_step c hstep with ⟨-, hsame⟩ | hown
  · rw [hsame] at hentered
    exact .inl hentered
  · generalize t.conns c = k at hown hentered
    cases hown <;> simp_all [Reader.entered]

/-- How a read loop comes to have the rest of a frame's work before it. -/
theorem serving_step {c : ℕ} {todo : List ReaderOp} (hstep : step cfg s e = some t)
    (hserving : (t.conns c).reader = .serving todo) :
    (e = .insert c ∧ todo = []) ∨ (∃ text, e = .receive c (.text text) ∧ todo = handleText text) ∨
      (∃ op, e = .readerOp c ∧ (s.conns c).reader = .serving (op :: todo)) ∨
      ((s.conns c).reader = .serving todo ∧ ∀ n ∈ note cfg s e, n.connection ≠ some c) := by
  rcases conn_step c hstep with ⟨hactor, hsame⟩ | hown
  · rw [hsame] at hserving
    refine .inr (.inr (.inr ⟨hserving, fun n hn hconnection => hactor ?_⟩))
    cases e
    case receive c' item =>
      cases item with
      | text text =>
        rw [List.mem_singleton.mp hn] at hconnection
        exact hconnection
      | _ => cases hn
    case reap c' =>
      simp only [note] at hn
      split at hn
      · rw [List.mem_singleton.mp hn] at hconnection
        cases hconnection
      · cases hn
    case insert | readerOp | unregister =>
      rw [List.mem_singleton.mp hn] at hconnection
      exact hconnection
    all_goals cases hn
  · generalize t.conns c = k at hown hserving
    cases hown with
    | insert => exact .inl ⟨rfl, by cases hserving; rfl⟩
    | receives text =>
      cases hserving
      exact .inr (.inl ⟨text, rfl, rfl⟩)
    | readerOp op ops hreader =>
      cases hserving
      exact .inr (.inr (.inl ⟨op, rfl, hreader⟩))
    | isDead now hping | reaps now hping =>
      refine .inr (.inr (.inr ⟨hserving, fun n hn => ?_⟩))
      rw [note_reap hping, List.mem_singleton] at hn
      rw [hn]
      intro h
      cases h
    | _ => simp_all [note]

/-- What the notes say about a state: which connections have registered and under
which ids, what the table holds, what the read loops have left to do, the records and
the watch channel. -/
structure Recorded (s : Server) (notes : List Note) : Prop where
  registered : ∀ c id, (∃ now, Note.registered c id now ∈ notes) ↔
    (s.conns c).reader.entered = true ∧ id = (s.conns c).id
  nodup : (registeredIds notes).Nodup
  member : ∀ id, id ∈ s.hub.clients ↔ id ∈ registeredIds notes ∧ id ∉ removedIds notes
  removed : ∀ id ∈ removedIds notes, id ∈ registeredIds notes
  stage : ∀ c todo, (s.conns c).reader = .serving todo → (session c notes).stage.todo = todo
  record : ∀ id client, s.hub.clients.lookup id = some client →
    client = (session client.tx notes).client
  connection : s.hub.connection = s.hub.isConnected

/-- An empty hub has no notes. -/
theorem recorded_init : Recorded init [] where
  registered := by
    intro c id
    constructor
    · rintro ⟨now, hn⟩
      cases hn
    · rintro ⟨hentered, _⟩
      cases hentered
  nodup := List.nodup_nil
  member := by
    intro id
    constructor <;> intro h
    · exact absurd h (List.not_mem_nil)
    · cases h.1
  removed := by
    intro id h
    cases h
  stage := by
    intro c todo h
    cases h
  record := by
    intro id client h
    cases h
  connection := rfl

/-- The watch channel keeps saying whether the table is empty. -/
theorem connection_step (hconnection : s.hub.connection = s.hub.isConnected)
    (hstep : step cfg s e = some t) : t.hub.connection = t.hub.isConnected := by
  have hempty (h : ∀ id, (t.hub.clients.lookup id).isSome = (s.hub.clients.lookup id).isSome) :
      t.hub.isConnected = s.hub.isConnected := by
    simp only [Hub.isConnected, Bool.not_inj_iff]
    rw [Bool.eq_iff_iff, Table.isEmpty_iff, Table.isEmpty_iff]
    refine forall_congr' fun id => ?_
    rw [← Option.not_isSome_iff_eq_none, ← Option.not_isSome_iff_eq_none, h id]
  rcases clients_step hstep with ⟨c, rfl, _, hconn, hlookup⟩ | ⟨c, rfl, _, hconn, _⟩ |
    ⟨c, now, rfl, _, hconn, hlookup⟩ | ⟨c, op, ops, rfl, _, hconn, hlookup⟩ | ⟨hclients, hconn, _⟩
  · have hfound := (hlookup (s.conns c).id).trans (if_pos rfl)
    rw [hconn, Hub.isConnected, Table.isEmpty_eq_false hfound]
    rfl
  · exact hconn
  · rw [hconn]
    split_ifs with hdead
    · rw [hconnection, hempty]
      intro id
      rw [hlookup, List.isEmpty_iff.mp hdead, if_neg List.not_mem_nil]
    · rfl
  · rw [hconn, hconnection, hempty]
    intro id
    rw [hlookup]
    split_ifs <;> simp
  · rw [hconn, hconnection, hempty]
    intro id
    rw [hclients]

/-- The ids a step registers and removes, by what it does to the table. -/
theorem note_ids (hstep : step cfg s e = some t) :
    (∃ c, e = .insert c ∧ (s.conns c).reader = .gotId ∧
      registeredIds (note cfg s e) = [(s.conns c).id] ∧ removedIds (note cfg s e) = []) ∨
    registeredIds (note cfg s e) = [] ∧ (∀ c, e ≠ .insert c) := by
  rcases clients_step hstep with ⟨c, rfl, hreader, _, _⟩ | ⟨c, rfl, _, _, _⟩ |
    ⟨c, now, rfl, hping, _, _⟩ | ⟨c, op, ops, rfl, _, _, _⟩ | ⟨_, _, hnotes⟩
  · exact .inl ⟨c, rfl, hreader, rfl, rfl⟩
  · exact .inr ⟨rfl, fun _ h => by cases h⟩
  · refine .inr ⟨?_, fun _ h => by cases h⟩
    rw [note_reap hping, registeredIds_singleton]
    rfl
  · exact .inr ⟨rfl, fun _ h => by cases h⟩
  · refine .inr ⟨(ids_of_received hnotes).1, ?_⟩
    · rintro c rfl
      obtain ⟨c', text, h⟩ := hnotes _ (List.mem_singleton_self _)
      cases h

section Step

variable {notes : List Note}

/-- An id about to be inserted has not been registered before. -/
theorem Recorded.fresh (h : Recorded s notes) (hs : Sound cfg s) (hbound : s.registrations ≤ 2 ^ 64)
    {c : ℕ} (hreader : (s.conns c).reader = .gotId) : (s.conns c).id ∉ registeredIds notes := by
  intro hmem
  obtain ⟨c', now, hn⟩ := mem_registeredIds.mp hmem
  obtain ⟨hentered, hid⟩ := (h.registered c' _).mp ⟨now, hn⟩
  have hdrawn : (s.conns c).reader.drawn = true := by
    rw [hreader]
    rfl
  have hc := hs.id_injective hbound hdrawn (Reader.drawn_of_entered hentered) hid
  rw [← hc, hreader] at hentered
  cases hentered

/-- A connection that has entered has registered its id. -/
theorem Recorded.mem_of_entered (h : Recorded s notes) {c : ℕ}
    (hentered : (s.conns c).reader.entered = true) : (s.conns c).id ∈ registeredIds notes := by
  obtain ⟨now, hn⟩ := (h.registered c _).mpr ⟨hentered, rfl⟩
  exact mem_registeredIds.mpr ⟨c, now, hn⟩

/-- The registrations after a step. -/
theorem Recorded.registered_step (h : Recorded s notes) (hstep : step cfg s e = some t) (c id : ℕ) :
    (∃ now, Note.registered c id now ∈ notes ++ note cfg s e) ↔
      (t.conns c).reader.entered = true ∧ id = (t.conns c).id := by
  constructor
  · rintro ⟨now, hn⟩
    rcases List.mem_append.mp hn with hn | hn
    · obtain ⟨hentered, hid⟩ := (h.registered c id).mp ⟨now, hn⟩
      exact ⟨entered_step hstep hentered,
        hid.trans (id_step hstep (Reader.drawn_of_entered hentered)).1.symm⟩
    · have hmem : id ∈ registeredIds (note cfg s e) := mem_registeredIds.mpr ⟨c, now, hn⟩
      rcases note_ids hstep with ⟨c', rfl, hreader, _, _⟩ | ⟨hnone, _⟩
      · cases List.mem_singleton.mp hn
        have hdrawn : (s.conns c).reader.drawn = true := by
          rw [hreader]
          rfl
        refine ⟨?_, (id_step hstep hdrawn).1.symm⟩
        simp only [step, hreader, Option.some.injEq] at hstep
        subst hstep
        simp [Reader.entered]
      · rw [hnone] at hmem
        cases hmem
  · rintro ⟨hentered, rfl⟩
    rcases entered_of_step hstep hentered with hbefore | rfl
    · obtain ⟨now, hn⟩ := (h.registered c _).mpr ⟨hbefore, rfl⟩
      rw [(id_step hstep (Reader.drawn_of_entered hbefore)).1]
      exact ⟨now, List.mem_append_left _ hn⟩
    · rcases note_ids hstep with ⟨c', he, hreader, _, _⟩ | ⟨_, hne⟩
      · have hdrawn : (s.conns c).reader.drawn = true := by
          cases he
          rw [hreader]
          rfl
        rw [(id_step hstep hdrawn).1]
        exact ⟨s.now, List.mem_append_right _ (List.mem_singleton_self _)⟩
      · exact absurd rfl (hne c)

/-- No id is registered twice. -/
theorem Recorded.nodup_step (h : Recorded s notes) (hs : Sound cfg s)
    (hbound : s.registrations ≤ 2 ^ 64) (hstep : step cfg s e = some t) :
    (registeredIds (notes ++ note cfg s e)).Nodup := by
  rw [registeredIds, List.filterMap_append]
  rcases note_ids hstep with ⟨c, _, hreader, hnew, _⟩ | ⟨hnew, _⟩
  · rw [registeredIds] at hnew
    rw [hnew]
    refine List.nodup_append.mpr ⟨h.nodup, List.nodup_singleton _, ?_⟩
    rintro id hid id' hid' rfl
    rw [List.mem_singleton.mp hid'] at hid
    exact h.fresh hs hbound hreader hid
  · rw [registeredIds] at hnew
    rw [hnew, List.append_nil]
    exact h.nodup

/-- What the table holds after a step. -/
theorem Recorded.member_step (h : Recorded s notes) (hs : Sound cfg s)
    (hbound : s.registrations ≤ 2 ^ 64) (hstep : step cfg s e = some t) (id : ℕ) :
    id ∈ t.hub.clients ↔ id ∈ registeredIds (notes ++ note cfg s e) ∧
      id ∉ removedIds (notes ++ note cfg s e) := by
  have hbefore := h.member id
  rw [mem_registeredIds_append, mem_removedIds_append, ← AList.lookup_isSome]
  rw [← AList.lookup_isSome] at hbefore
  rcases clients_step hstep with ⟨c, rfl, hreader, _, hlookup⟩ | ⟨c, rfl, _, _, hlookup⟩ |
    ⟨c, now, rfl, hping, _, hlookup⟩ | ⟨c, op, ops, rfl, _, _, hlookup⟩ | ⟨hclients, _, hnotes⟩
  · have hfresh := h.fresh hs hbound hreader
    have hkept : (s.conns c).id ∉ removedIds notes := fun hmem => hfresh (h.removed _ hmem)
    rw [hlookup, note, registeredIds_singleton, removedIds_singleton]
    by_cases hid : id = (s.conns c).id
    · simp [hid, hkept, Note.registers, Note.removes]
    · simp [hid, hbefore, Note.registers, Note.removes]
  · rw [hlookup, note, registeredIds_singleton, removedIds_singleton]
    by_cases hid : id = (s.conns c).id
    · simp [hid, Note.removes]
    · simp [hid, hbefore, Note.registers, Note.removes]
  · rw [hlookup, note_reap hping, registeredIds_singleton, removedIds_singleton]
    by_cases hid : id ∈ s.hub.deadClients now cfg.pingTimeout
    · simp [hid, Note.removes]
    · simp [hid, hbefore, Note.registers, Note.removes]
  · have hsome : (t.hub.clients.lookup id).isSome = (s.hub.clients.lookup id).isSome := by
      rw [hlookup]
      split_ifs <;> simp
    rw [hsome, note, registeredIds_singleton, removedIds_singleton]
    simp [hbefore, Note.registers, Note.removes]
  · rw [hclients, (ids_of_received hnotes).1, (ids_of_received hnotes).2]
    simp [hbefore]

/-- Only registered ids are removed. -/
theorem Recorded.removed_step (h : Recorded s notes) (hstep : step cfg s e = some t) {id : ℕ}
    (hid : id ∈ removedIds (notes ++ note cfg s e)) :
    id ∈ registeredIds (notes ++ note cfg s e) := by
  rw [mem_removedIds_append] at hid
  rw [mem_registeredIds_append]
  refine .inl (hid.elim (h.removed id) fun hnew => ?_)
  rcases clients_step hstep with ⟨c, rfl, _, _, _⟩ | ⟨c, rfl, hreader, _, _⟩ |
    ⟨c, now, rfl, hping, _, _⟩ | ⟨c, op, ops, rfl, _, _, _⟩ | ⟨_, _, hnotes⟩
  · cases hnew
  · rw [List.mem_singleton.mp hnew]
    refine h.mem_of_entered ?_
    rw [hreader]
    rfl
  · have hdead : id ∈ s.hub.deadClients now cfg.pingTimeout := by
      rwa [note_reap hping, removedIds_singleton] at hnew
    obtain ⟨client, hclient, _⟩ := mem_deadClients hdead
    refine ((h.member id).mp ?_).1
    rw [← AList.lookup_isSome, hclient]
    rfl
  · cases hnew
  · rw [(ids_of_received hnotes).2] at hnew
    cases hnew

/-- What a read loop has left to do after a step is what its session says. -/
theorem Recorded.stage_step (h : Recorded s notes) (hstep : step cfg s e = some t) {c : ℕ}
    {todo : List ReaderOp} (hserving : (t.conns c).reader = .serving todo) :
    (session c (notes ++ note cfg s e)).stage.todo = todo := by
  rcases serving_step hstep hserving with ⟨rfl, rfl⟩ | ⟨text, rfl, rfl⟩ | ⟨op, rfl, hreader⟩ |
    ⟨hreader, hnew⟩
  · rw [note, session_concat rfl]
    rfl
  · rw [note, session_concat rfl]
    rfl
  · rw [note, session_concat rfl]
    exact (Session.next_ran (h.stage c _ hreader) c s.now).1
  · rw [session_append hnew]
    exact h.stage c todo hreader

/-- Each record after a step is the one its own notes describe. -/
theorem Recorded.record_step (h : Recorded s notes) (hs : Sound cfg s)
    (hbound : s.registrations ≤ 2 ^ 64) (hstep : step cfg s e = some t) {id : ℕ} {client : Client}
    (hclient : t.hub.clients.lookup id = some client) :
    client = (session client.tx (notes ++ note cfg s e)).client := by
  rcases clients_step hstep with ⟨c, rfl, hreader, _, hlookup⟩ | ⟨c, rfl, _, _, hlookup⟩ |
    ⟨c, now, rfl, hping, _, hlookup⟩ | ⟨c, op, ops, rfl, hreader, _, hlookup⟩ |
    ⟨hclients, _, hnotes⟩
  · rw [hlookup] at hclient
    split_ifs at hclient with hid
    · cases hclient
      rw [note, session_concat rfl]
      rfl
    · have hne : c ≠ client.tx := by
        rintro rfl
        have hreg := (hs.owner id client hclient).2
        rw [hreader] at hreg
        cases hreg
      rw [note, session_concat_ne rfl hne]
      exact h.record id client hclient
  · rw [hlookup] at hclient
    split_ifs at hclient with hid
    have hne : c ≠ client.tx := by
      rintro rfl
      exact hid (hs.owner id client hclient).1.symm
    rw [note, session_concat_ne rfl hne]
    exact h.record id client hclient
  · rw [hlookup] at hclient
    split_ifs at hclient
    rw [note_reap hping, session_append (by simp [Note.connection])]
    exact h.record id client hclient
  · have hregistered : (s.conns c).reader.registered = true := by
      rw [hreader]
      rfl
    rw [hlookup] at hclient
    split_ifs at hclient with hid
    · obtain ⟨old, hold, rfl⟩ := Option.map_eq_some_iff.mp hclient
      obtain ⟨hidold, hregold⟩ := hs.owner id old hold
      have htx : old.tx = c := hs.id_injective hbound (Reader.drawn_of_registered hregold)
        (Reader.drawn_of_registered hregistered) (hidold.trans hid)
      have hkept : (op.onClient s.now old).tx = c := by
        rw [← htx]
        cases op <;> rfl
      rw [hkept, note, session_concat rfl]
      rw [(Session.next_ran (h.stage c _ hreader) c s.now).2, ← htx, ← h.record id old hold]
    · have hne : c ≠ client.tx := by
        rintro rfl
        exact hid (hs.owner id client hclient).1.symm
      rw [note, session_concat_ne rfl hne]
      exact h.record id client hclient
  · rw [hclients] at hclient
    rw [session_client_of_received hnotes]
    exact h.record id client hclient

/-- Every step keeps the notes true. -/
theorem Recorded.step (h : Recorded s notes) (hs : Sound cfg s) (hbound : s.registrations ≤ 2 ^ 64)
    (hstep : step cfg s e = some t) : Recorded t (notes ++ note cfg s e) where
  registered := h.registered_step hstep
  nodup := h.nodup_step hs hbound hstep
  member := h.member_step hs hbound hstep
  removed _ := h.removed_step hstep
  stage _ _ := h.stage_step hstep
  record _ _ := h.record_step hs hbound hstep
  connection := connection_step h.connection hstep

end Step

/-- The notes of a run describe its last state, as long as the counter has not wrapped. -/
theorem recorded_run {es : List ServerEvent}
    (hrun : Transition.run (Server.step cfg) init es = some s) (hbound : s.registrations ≤ 2 ^ 64) :
    Recorded s (Transition.trace (Server.step cfg) (note cfg) init es) := by
  refine (Transition.run_trace
    (I := fun s notes => Sound cfg s ∧ (s.registrations ≤ 2 ^ 64 → Recorded s notes))
    ?_ hrun ⟨sound_init, fun _ => recorded_init⟩).2 hbound
  intro s notes e t h hstep
  refine ⟨sound_step h.1 hstep, fun hbound => ?_⟩
  have hbefore := (registrations_step hstep).trans hbound
  exact (h.2 hbefore).step h.1 hbefore hstep

/-- The client registry is what its history says. With fewer than `2 ^ 64` registrations,
in every state: no id was registered twice, and the table holds the ids that were
registered and neither unregistered nor reaped, so that no frame brings a removed id
back; the record of an id was registered under it by the connection that owns the
record, and is the fold of this connection's own notes; and the watch channel says
whether the table is empty. -/
theorem registry_refines {es : List ServerEvent}
    (hrun : Transition.run (Server.step cfg) init es = some s) (hbound : s.registrations < 2 ^ 64) :
    let notes := Transition.trace (Server.step cfg) (note cfg) init es
    (registeredIds notes).Nodup ∧
    (∀ id, id ∈ s.hub.clients ↔ id ∈ registeredIds notes ∧ id ∉ removedIds notes) ∧
    (∀ id client, s.hub.clients.lookup id = some client →
      (∃ now, Note.registered client.tx id now ∈ notes) ∧
        client = (session client.tx notes).client) ∧
    s.hub.connection = s.hub.isConnected := by
  have h := recorded_run hrun hbound.le
  have hs := sound_run hrun
  refine ⟨h.nodup, h.member, fun id client hclient => ⟨?_, h.record id client hclient⟩,
    h.connection⟩
  obtain ⟨hid, hregistered⟩ := hs.owner id client hclient
  refine (h.registered client.tx id).mpr ⟨Reader.entered_of_registered hregistered, hid.symm⟩

/-- A gauge says hello and reports its readiness. -/
def readyGauge : List ServerEvent :=
  [.accept 0, .fetchId 0, .insert 0, .tick 5,
    .receive 0 (.text (WireMsg.event ⟨readyEvent, .obj []⟩).toJson), .readerOp 0, .tick 2,
    .readerOp 0]

/-- Its record is ready, and was last seen at the touch. -/
theorem registry_refines_readyGauge : ∃ s client,
    Transition.run (step defaultConfig) init readyGauge = some s ∧
      s.hub.clients.lookup 1 = some client ∧ client.lastSeen = 5 ∧ client.ready = true ∧
      client = (session client.tx
        (Transition.trace (step defaultConfig) (note defaultConfig) init readyGauge)).client := by
  have hisSome : (Transition.run (step defaultConfig) init readyGauge).isSome = true := by
    decide +kernel
  have hrun := (Option.some_get hisSome).symm
  have hbound : ((Transition.run (step defaultConfig) init readyGauge).get
      hisSome).registrations < 2 ^ 64 := Nat.one_lt_two_pow (by decide)
  have hclient : ((Transition.run (step defaultConfig) init readyGauge).get
      hisSome).hub.clients.lookup 1 = some ⟨0, none, 5, true⟩ := rfl
  refine ⟨_, _, hrun, hclient, rfl, rfl, ?_⟩
  exact ((registry_refines hrun hbound).2.2.1 1 _ hclient).2

end Server

end InfinityBridge.Host
