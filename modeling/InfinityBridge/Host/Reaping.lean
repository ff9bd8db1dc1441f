import InfinityBridge.Host.Server

/-!
# The reaper and the connections it reaps

A reaper samples the clock before it takes the lock, so it can only underestimate
the silence of a client. Whoever is removed by another connection's reaper is not
named to its own ping task, which notices at its next ping instead: `send_to` finds
no client.

Ids are drawn from a 64-bit counter, so two connections can share one when more than
`2 ^ 64` have been registered.
-/

namespace InfinityBridge.Host

namespace Server

variable {cfg : ServerConfig} {s t : Server} {e : ServerEvent}

/-- The connection an event belongs to. -/
def actor : ServerEvent → Option ℕ
  | .accept c | .fetchId c | .insert c | .startPing c | .sample c | .reap c | .sendPing c _
  | .abortTakes c | .receive c _ | .readerOp c | .leave c | .unregister c | .abortPing c
  | .finish c => some c
  | _ => none

/-- A step of one connection leaves the others' tasks alone. -/
theorem conn_step_other {c : ℕ} (hstep : step cfg s e = some t) (hactor : actor e ≠ some c) :
    t.conns c = s.conns c := by
  have hne (c' : ℕ) (h : actor e = some c') : c ≠ c' := fun hc => hactor (by rw [h, hc])
  cases e <;> simp only [step] at hstep
  case writerSends | emit | deliver | tick => cases hstep; rfl
  case readerOp c' =>
    split at hstep <;> cases hstep
    rw [act_conns_ne _ (hne c' rfl), perform_conns]
  case writerEnds =>
    split at hstep <;> cases hstep
    rfl
  all_goals
    (repeat' split at hstep) <;> cases hstep <;> exact act_conns_ne _ (hne _ rfl) _

/-- What a step of connection `c` makes of it, with what the step looks at. -/
inductive OwnStep (cfg : ServerConfig) (s : Server) (c : ℕ) : ServerEvent → Conn → Prop
  | accept (hreader : (s.conns c).reader = .absent) :
      OwnStep cfg s c (.accept c) { s.conns c with reader := .accepted }
  | fetchId (hreader : (s.conns c).reader = .accepted) :
      OwnStep cfg s c (.fetchId c)
        { s.conns c with id := s.hub.nextId, serial := s.registrations, reader := .gotId }
  | insert (hreader : (s.conns c).reader = .gotId) :
      OwnStep cfg s c (.insert c) { s.conns c with reader := .serving [], ping := .starting }
  | panics (hping : (s.conns c).ping = .starting) (hzero : cfg.pingInterval = 0) :
      OwnStep cfg s c (.startPing c) { s.conns c with ping := .ended, signal := .dropped }
  | starts (hping : (s.conns c).ping = .starting) (hpositive : cfg.pingInterval ≠ 0) :
      OwnStep cfg s c (.startPing c) { s.conns c with ping := .ticking }
  | sample (hping : (s.conns c).ping = .ticking) :
      OwnStep cfg s c (.sample c) { s.conns c with ping := .sampled s.now }
  | isDead (now : Instant) (hping : (s.conns c).ping = .sampled now)
      (hdead : (s.conns c).id ∈ s.hub.deadClients now cfg.pingTimeout) :
      OwnStep cfg s c (.reap c)
        { s.conns c with ping := .ended, signal := .sent, ticks := (s.conns c).ticks + 1 }
  | reaps (now : Instant) (hping : (s.conns c).ping = .sampled now)
      (halive : (s.conns c).id ∉ s.hub.deadClients now cfg.pingTimeout) :
      OwnStep cfg s c (.reap c) { s.conns c with ping := .pinging }
  | pings (ts : UInt64) (hping : (s.conns c).ping = .pinging) (hub : Hub)
      (hok : s.hub.sendTo (s.conns c).id (WireMsg.ping (some ts)).toJson = .ok hub) :
      OwnStep cfg s c (.sendPing c ts)
        { s.conns c with ping := .ticking, ticks := (s.conns c).ticks + 1 }
  | pingFails (ts : UInt64) (hping : (s.conns c).ping = .pinging) (err : BridgeError)
      (herr : s.hub.sendTo (s.conns c).id (WireMsg.ping (some ts)).toJson = .error err) :
      OwnStep cfg s c (.sendPing c ts)
        { s.conns c with ping := .ended, signal := .sent, ticks := (s.conns c).ticks + 1 }
  | aborted (habort : (s.conns c).abortRequested = true) (habsent : (s.conns c).ping ≠ .absent)
      (hended : (s.conns c).ping ≠ .ended) :
      OwnStep cfg s c (.abortTakes c) { s.conns c with ping := .ended, signal := .dropped }
  | receives (text : Text) (hreader : (s.conns c).reader = .serving []) :
      OwnStep cfg s c (.receive c (.text text))
        { s.conns c with reader := .serving (handleText text) }
  | ignores (hreader : (s.conns c).reader = .serving []) :
      OwnStep cfg s c (.receive c .other) (s.conns c)
  | closes (item : SocketItem) (hreader : (s.conns c).reader = .serving [])
      (hitem : item = .close ∨ item = .ended) :
      OwnStep cfg s c (.receive c item) { s.conns c with reader := .leaving }
  | readerOp (op : ReaderOp) (ops : List ReaderOp)
      (hreader : (s.conns c).reader = .serving (op :: ops)) :
      OwnStep cfg s c (.readerOp c) { s.conns c with reader := .serving ops }
  | leave (hreader : (s.conns c).reader = .serving []) (hsignal : (s.conns c).signal ≠ .pending) :
      OwnStep cfg s c (.leave c) { s.conns c with reader := .leaving }
  | unregister (hreader : (s.conns c).reader = .leaving) :
      OwnStep cfg s c (.unregister c) { s.conns c with reader := .unregistered }
  | abortPing (hreader : (s.conns c).reader = .unregistered) :
      OwnStep cfg s c (.abortPing c) { s.conns c with reader := .closing, abortRequested := true }
  | finish (hreader : (s.conns c).reader = .closing) :
      OwnStep cfg s c (.finish c) { s.conns c with reader := .returned }

/-- The steps of a connection are these. -/
theorem own_step {c : ℕ} (hstep : step cfg s e = some t) (hactor : actor e = some c) :
    OwnStep cfg s c e (t.conns c) := by
  cases e <;> simp only [actor, Option.some.injEq, reduceCtorEq] at hactor <;> subst hactor <;>
    simp only [step] at hstep
  case startPing =>
    split at hstep
    · next hping =>
      split_ifs at hstep with hzero <;> cases hstep <;> rw [act_conns_self]
      · exact .panics hping hzero
      · exact .starts hping hzero
    · cases hstep
  case reap =>
    split at hstep
    · next now hping =>
      split_ifs at hstep with hdead <;> cases hstep <;> rw [act_conns_self]
      · exact .isDead now hping hdead
      · exact .reaps now hping hdead
    · cases hstep
  case sendPing ts =>
    split at hstep
    · next hping =>
      split at hstep <;> cases hstep <;> rw [act_conns_self]
      · next hub hok => exact .pings ts hping hub hok
      · next err herr => exact .pingFails ts hping err herr
    · cases hstep
  case abortTakes =>
    split at hstep <;> cases hstep <;>
      (next habort hping =>
        rw [act_conns_self]
        exact .aborted habort (by simp [hping]) (by simp [hping]))
  case receive c item =>
    split at hstep <;> cases hstep
    next hreader =>
    rw [act_conns_self]
    cases item with
    | text t => exact .receives t hreader
    | other =>
      have hsame : { s.conns c with reader := .serving [] } = s.conns c := by rw [← hreader]
      rw [hsame]
      exact .ignores hreader
    | close => exact .closes .close hreader (.inl rfl)
    | ended => exact .closes .ended hreader (.inr rfl)
  case readerOp =>
    split at hstep <;> cases hstep
    next op ops hreader =>
    rw [act_conns_self, perform_conns]
    exact .readerOp op ops hreader
  case leave =>
    split at hstep
    · next hreader =>
      split_ifs at hstep with hsignal
      cases hstep
      rw [act_conns_self]
      exact .leave hreader hsignal
    · cases hstep
  case finish =>
    split at hstep
    · next hreader =>
      split_ifs at hstep
      cases hstep
      rw [act_conns_self]
      exact .finish hreader
    · cases hstep
  all_goals
    split at hstep <;> cases hstep
    next hreader =>
    rw [act_conns_self]
    constructor
    exact hreader

/-- A step is one of the connection's own, or leaves it alone. -/
theorem conn_step (c : ℕ) (hstep : step cfg s e = some t) :
    (actor e ≠ some c ∧ t.conns c = s.conns c) ∨ OwnStep cfg s c e (t.conns c) := by
  by_cases hactor : actor e = some c
  · exact .inr (own_step hstep hactor)
  · exact .inl ⟨hactor, conn_step_other hstep hactor⟩

/-- Once drawn, the id of a connection stays. -/
theorem id_step {c : ℕ} (hstep : step cfg s e = some t) (hdrawn : (s.conns c).reader.drawn = true) :
    (t.conns c).id = (s.conns c).id ∧ (t.conns c).serial = (s.conns c).serial ∧
      (t.conns c).reader.drawn = true := by
  rcases conn_step c hstep with ⟨-, hsame⟩ | hown
  · rw [hsame]
    exact ⟨rfl, rfl, hdrawn⟩
  · generalize t.conns c = k at hown ⊢
    cases hown <;> simp_all [Reader.drawn]

/-- A connection stays registered until it unregisters itself. -/
theorem registered_step {c : ℕ} (hstep : step cfg s e = some t)
    (hregistered : (s.conns c).reader.registered = true) (hunregister : e ≠ .unregister c) :
    (t.conns c).reader.registered = true := by
  rcases conn_step c hstep with ⟨-, hsame⟩ | hown
  · rwa [hsame]
  · generalize t.conns c = k at hown ⊢
    cases hown <;> simp_all [Reader.registered]

/-- What has been signalled stays signalled. -/
theorem signal_step {c : ℕ} (hstep : step cfg s e = some t)
    (hsignal : (s.conns c).signal ≠ .pending) : (t.conns c).signal ≠ .pending := by
  rcases conn_step c hstep with ⟨-, hsame⟩ | hown
  · rwa [hsame]
  · generalize t.conns c = k at hown ⊢
    cases hown <;> simp_all

/-- A ping task ends by signalling, unless its period is zero or it is aborted, which
drops the sender; and it is aborted only after the connection has unregistered. -/
def EndsBySignal (cfg : ServerConfig) (k : Conn) : Prop :=
  (k.ping = .ended → k.signal = .sent ∨
    k.signal = .dropped ∧ (cfg.pingInterval = 0 ∨ k.abortRequested = true)) ∧
  (k.abortRequested = true → k.reader = .closing ∨ k.reader = .returned)

/-- In every step a ping task that ends does so in one of these ways. -/
theorem endsBySignal_step {c : ℕ} (h : EndsBySignal cfg (s.conns c))
    (hstep : step cfg s e = some t) : EndsBySignal cfg (t.conns c) := by
  rcases conn_step c hstep with ⟨-, hsame⟩ | hown
  · rwa [hsame]
  · generalize t.conns c = k at hown ⊢
    cases hown <;> simp_all [EndsBySignal]
    all_goals grind

/-- Changing some fields of a client, but not its channel, leaves every other entry
as it is. -/
theorem lookup_adjust_client {m : Table ℕ Client} {id id' : ℕ} {f : Client → Client}
    {client : Client} (h : (Table.adjust id f m).lookup id' = some client)
    (hf : ∀ k, (f k).tx = k.tx) :
    ∃ old, m.lookup id' = some old ∧ client.tx = old.tx ∧
      client.lastSeen = if id' = id then (f old).lastSeen else old.lastSeen := by
  rw [Table.lookup_adjust] at h
  split_ifs at h with hid
  · obtain ⟨old, hold, rfl⟩ := Option.map_eq_some_iff.mp h
    exact ⟨old, hold, hf old, (if_pos hid).symm⟩
  · exact ⟨client, h, rfl, (if_neg hid).symm⟩

/-- An operation of a read loop removes no entry, and touches one when something was heard. -/
theorem entry_readerOp {id c : ℕ} {client : Client} (hstep : step cfg s (.readerOp c) = some t)
    (h : t.hub.clients.lookup id = some client) :
    ∃ old, s.hub.clients.lookup id = some old ∧ client.tx = old.tx ∧
      (old.lastSeen = s.lastHeard id → client.lastSeen = t.lastHeard id) := by
  have hsame {u : Server} (hu : u.hub.clients.lookup id = some client)
      (hclients : u.hub.clients = s.hub.clients) (hheard : u.lastHeard = s.lastHeard) :
      ∃ old, s.hub.clients.lookup id = some old ∧ client.tx = old.tx ∧
        (old.lastSeen = s.lastHeard id → client.lastSeen = u.lastHeard id) :=
    ⟨client, hclients ▸ hu, rfl, fun hold => by rw [hheard, hold]⟩
  simp only [step] at hstep
  split at hstep <;> cases hstep
  next op ops hreader =>
  cases op with
  | touch =>
    simp only [act_hub, perform, Hub.touchClient] at h
    obtain ⟨old, hold, htx, hseen⟩ := lookup_adjust_client h fun _ => rfl
    refine ⟨old, hold, htx, fun hheard => ?_⟩
    rw [hseen]
    by_cases hid : id = (s.conns c).id
    · simp [act, perform, hid]
    · simp [act, perform, hid, hheard]
  | setHello | setReady =>
    simp only [act_hub, perform, Hub.setClientHello, Hub.setClientReady] at h
    obtain ⟨old, hold, htx, hseen⟩ := lookup_adjust_client h fun _ => rfl
    refine ⟨old, hold, htx, fun hheard => ?_⟩
    rw [hseen, ite_self]
    exact hheard
  | dispatchAck | dispatchEvent => exact hsame h rfl rfl
  | sendTo json =>
    exact hsame h (Hub.onlyQueues_getD fun _ hok => Hub.sendTo_frame hok).clients rfl

/-- Where an entry of the client table comes from: an insertion, or the entry that
was there before the step, touched or not. -/
theorem entry_step {id : ℕ} {client : Client} (hstep : step cfg s e = some t)
    (h : t.hub.clients.lookup id = some client) :
    (∃ c, e = .insert c ∧ (s.conns c).reader = .gotId ∧ id = (s.conns c).id ∧ client.tx = c ∧
        client.lastSeen = t.lastHeard id) ∨
      ∃ old, s.hub.clients.lookup id = some old ∧ client.tx = old.tx ∧
        (old.lastSeen = s.lastHeard id → client.lastSeen = t.lastHeard id) ∧
        ∀ c, e = .unregister c → id ≠ (s.conns c).id := by
  have hsame (hclients : t.hub.clients = s.hub.clients) (hheard : t.lastHeard = s.lastHeard)
      (hunregister : ∀ c, e ≠ .unregister c) :
      ∃ old, s.hub.clients.lookup id = some old ∧ client.tx = old.tx ∧
        (old.lastSeen = s.lastHeard id → client.lastSeen = t.lastHeard id) ∧
        ∀ c, e = .unregister c → id ≠ (s.conns c).id := by
    rw [hclients] at h
    exact ⟨client, h, rfl, fun hold => by rw [hheard, hold],
      fun c he => absurd he (hunregister c)⟩
  cases e
  case readerOp c =>
    obtain ⟨old, hold, htx, hseen⟩ := entry_readerOp hstep h
    exact .inr ⟨old, hold, htx, hseen, fun c he => by cases he⟩
  all_goals simp only [step] at hstep
  case insert c =>
    split at hstep <;> cases hstep
    next hreader =>
    simp only [act_hub, Hub.insertClient, Table.lookup_insert_eq] at h
    split_ifs at h with hid
    · cases h
      refine .inl ⟨c, rfl, hreader, hid, rfl, ?_⟩
      simp [act, hid]
    · refine .inr ⟨client, h, rfl, fun hold => ?_, fun c he => by cases he⟩
      simp [act, Function.update_of_ne hid, hold]
  case unregister c =>
    split at hstep <;> cases hstep
    simp only [act_hub, Hub.unregisterClient, Table.lookup_erase_eq] at h
    split_ifs at h with hid
    refine .inr ⟨client, h, rfl, fun hold => hold, fun c' he => ?_⟩
    cases he
    exact hid
  case reap c =>
    split at hstep
    · next now hping =>
      have hclients :
          t.hub.clients = s.hub.clients.eraseAll (s.hub.deadClients now cfg.pingTimeout) ∧
          t.lastHeard = s.lastHeard := by
        split at hstep <;> cases hstep <;> exact ⟨rfl, rfl⟩
      rw [hclients.1, Table.lookup_eraseAll] at h
      split_ifs at h
      exact .inr ⟨client, h, rfl, fun hold => by rw [hclients.2, hold], fun c he => by cases he⟩
    · cases hstep
  case sendPing c ts =>
    refine .inr ?_
    split at hstep
    · split at hstep <;> cases hstep
      · next hub hok => exact hsame (Hub.sendTo_frame hok).clients rfl fun _ h => by cases h
      · exact hsame rfl rfl fun _ h => by cases h
    · cases hstep
  case emit name data =>
    cases hstep
    exact .inr (hsame (s.hub.emit_frame name data).clients rfl fun _ h => by cases h)
  case deliver json =>
    cases hstep
    exact .inr (hsame (Hub.onlyQueues_getD fun _ hok => Hub.deliver_frame hok).clients rfl
      fun _ h => by cases h)
  all_goals
    (repeat' split at hstep) <;> cases hstep <;> exact .inr (hsame rfl rfl fun _ h => by cases h)

/-- What holds in every state: an entry remembers the last time its id was heard and
belongs to the connection that registered it, samples of the clock are past, ids are
the serial numbers of their connections, and ping tasks end by signalling. -/
structure Sound (cfg : ServerConfig) (s : Server) : Prop where
  lastSeen : ∀ id client, s.hub.clients.lookup id = some client → client.lastSeen = s.lastHeard id
  owner : ∀ id client, s.hub.clients.lookup id = some client →
    (s.conns client.tx).id = id ∧ (s.conns client.tx).reader.registered = true
  sampled : ∀ c now, (s.conns c).ping = .sampled now → now ≤ s.now
  nextId : s.hub.nextId = (s.registrations + 1) % 2 ^ 64
  id : ∀ c, (s.conns c).reader.drawn = true →
    (s.conns c).id = ((s.conns c).serial + 1) % 2 ^ 64 ∧ (s.conns c).serial < s.registrations
  serial : ∀ c c', (s.conns c).reader.drawn = true → (s.conns c').reader.drawn = true →
    (s.conns c).serial = (s.conns c').serial → c = c'
  ends : ∀ c, EndsBySignal cfg (s.conns c)

/-- A connection that has inserted its client has drawn an id. -/
theorem Reader.drawn_of_entered {r : Reader} (h : r.entered = true) : r.drawn = true := by
  cases r <;> simp_all [Reader.entered, Reader.drawn]

/-- So has one that is registered. -/
theorem Reader.drawn_of_registered {r : Reader} (h : r.registered = true) : r.drawn = true := by
  cases r <;> simp_all [Reader.registered, Reader.drawn]

/-- The initial state is sound. -/
theorem sound_init : Sound cfg init := by
  constructor
  case nextId => rfl
  case id =>
    intro c h
    cases h
  case ends =>
    intro c
    constructor <;> intro h <;> cases h
  all_goals
    intro _ _ h
    cases h

/-- The hub's counter and the number of registrations move together, with the draw
of an id. -/
theorem nextId_step (hstep : step cfg s e = some t) :
    (∃ c, e = .fetchId c ∧ (s.conns c).reader = .accepted ∧ (t.conns c).reader = .gotId ∧
        (t.conns c).id = s.hub.nextId ∧ (t.conns c).serial = s.registrations ∧
        t.hub.nextId = (s.hub.nextId + 1) % 2 ^ 64 ∧ t.registrations = s.registrations + 1) ∨
      ((∀ c, e ≠ .fetchId c) ∧ t.hub.nextId = s.hub.nextId ∧
        t.registrations = s.registrations) := by
  cases e <;> simp only [step] at hstep
  case fetchId c =>
    split at hstep <;> cases hstep
    next hreader => exact .inl ⟨c, rfl, hreader, by simp [Hub.fetchAddId, act]⟩
  case readerOp c =>
    split at hstep <;> cases hstep
    next op ops hreader =>
    refine .inr ⟨fun _ h => (by cases h), ?_, by cases op <;> rfl⟩
    cases op with
    | sendTo json => exact (Hub.onlyQueues_getD fun _ hok => Hub.sendTo_frame hok).nextId
    | _ => rfl
  case sendPing c ts =>
    refine .inr ⟨fun _ h => (by cases h), ?_⟩
    split at hstep
    · split at hstep <;> cases hstep
      · next hub hok => exact ⟨(Hub.sendTo_frame hok).nextId, rfl⟩
      · exact ⟨rfl, rfl⟩
    · cases hstep
  case emit name data =>
    cases hstep
    exact .inr ⟨fun _ h => (by cases h), (s.hub.emit_frame name data).nextId, rfl⟩
  case deliver json =>
    cases hstep
    exact .inr ⟨fun _ h => (by cases h),
      (Hub.onlyQueues_getD fun _ hok => Hub.deliver_frame hok).nextId, rfl⟩
  all_goals
    (repeat' split at hstep) <;> cases hstep <;>
      exact .inr ⟨fun _ h => (by cases h), rfl, rfl⟩

/-- Without a wrap of the counter, connections have different ids. -/
theorem Sound.id_injective (hs : Sound cfg s) (hbound : s.registrations ≤ 2 ^ 64) {c c' : ℕ}
    (hc : (s.conns c).reader.drawn = true) (hc' : (s.conns c').reader.drawn = true)
    (hid : (s.conns c).id = (s.conns c').id) : c = c' := by
  obtain ⟨hidc, hlt⟩ := hs.id c hc
  obtain ⟨hidc', hlt'⟩ := hs.id c' hc'
  refine hs.serial c c' hc hc' ?_
  omega

/-- Only the draw of an id gives a connection its id. -/
theorem drawn_of_step {c : ℕ} (hstep : step cfg s e = some t)
    (hdrawn : (t.conns c).reader.drawn = true) :
    (s.conns c).reader.drawn = true ∨ e = .fetchId c := by
  rcases conn_step c hstep with ⟨-, hsame⟩ | hown
  · rw [hsame] at hdrawn
    exact .inl hdrawn
  · generalize t.conns c = k at hown hdrawn
    cases hown <;> simp_all [Reader.drawn]

/-- The clock does not go back. -/
theorem now_step (hstep : step cfg s e = some t) : s.now ≤ t.now := by
  cases e <;> simp only [step] at hstep
  case tick d =>
    cases hstep
    exact Nat.le_add_right s.now d
  case readerOp c =>
    split at hstep <;> cases hstep
    next op ops hreader => cases op <;> exact le_refl s.now
  all_goals
    (repeat' split at hstep) <;> cases hstep <;> exact le_refl s.now

/-- A sample in the hands of a ping task was there before or is of this moment. -/
theorem sampled_of_step {c : ℕ} {now : Instant} (hstep : step cfg s e = some t)
    (h : (t.conns c).ping = .sampled now) : (s.conns c).ping = .sampled now ∨ now = s.now := by
  rcases conn_step c hstep with ⟨-, hsame⟩ | hown
  · rw [hsame] at h
    exact .inl h
  · generalize t.conns c = k at hown h
    cases hown <;> simp_all

/-- Every step keeps the state sound. -/
theorem sound_step (hs : Sound cfg s) (hstep : step cfg s e = some t) : Sound cfg t := by
  have hregistered (c : ℕ) : (s.conns c).reader.registered = true →
      (s.conns c).reader.drawn = true := Reader.drawn_of_registered
  constructor
  case lastSeen =>
    intro id client h
    rcases entry_step hstep h with ⟨c, _, _, _, _, hseen⟩ | ⟨old, hold, _, hseen, _⟩
    · exact hseen
    · exact hseen (hs.lastSeen id old hold)
  case owner =>
    intro id client h
    rcases entry_step hstep h with ⟨c, rfl, hreader, hid, htx, _⟩ | ⟨old, hold, htx, _, hne⟩
    · have hdrawn : (s.conns c).reader.drawn = true := by
        rw [hreader]
        rfl
      rw [htx, (id_step hstep hdrawn).1]
      refine ⟨hid.symm, ?_⟩
      simp only [step, hreader, Option.some.injEq] at hstep
      subst hstep
      simp [Reader.registered]
    · obtain ⟨hid, hreg⟩ := hs.owner id old hold
      rw [htx, (id_step hstep (hregistered _ hreg)).1]
      refine ⟨hid, registered_step hstep hreg ?_⟩
      rintro rfl
      exact hne _ rfl hid.symm
  case sampled =>
    intro c now h
    rcases sampled_of_step hstep h with h | rfl
    · exact (hs.sampled c now h).trans (now_step hstep)
    · exact now_step hstep
  case nextId =>
    rcases nextId_step hstep with ⟨c, _, _, _, _, _, hnext, hreg⟩ | ⟨_, hnext, hreg⟩
    · rw [hnext, hreg, hs.nextId]
      omega
    · rw [hnext, hreg, hs.nextId]
  case id =>
    intro c h
    rcases nextId_step hstep with ⟨c', rfl, haccepted, _, hid, hserial, _, hreg⟩ | ⟨hne, _, hreg⟩
    · by_cases hc : c = c'
      · subst hc
        rw [hid, hserial, hreg, hs.nextId]
        exact ⟨rfl, Nat.lt_succ_self _⟩
      · have hdrawn := (drawn_of_step hstep h).resolve_right fun he => hc (by cases he; rfl)
        rw [(id_step hstep hdrawn).1, (id_step hstep hdrawn).2.1, hreg]
        exact ⟨(hs.id c hdrawn).1, (hs.id c hdrawn).2.trans (Nat.lt_succ_self _)⟩
    · have hdrawn := (drawn_of_step hstep h).resolve_right (hne c)
      rw [(id_step hstep hdrawn).1, (id_step hstep hdrawn).2.1, hreg]
      exact hs.id c hdrawn
  case serial =>
    intro c c' h h' hserial
    rcases nextId_step hstep with ⟨d, rfl, haccepted, _, _, hnew, _, hreg⟩ | ⟨hne, _, hreg⟩
    · have hold (b : ℕ) (hb : b ≠ d) (h : (t.conns b).reader.drawn = true) :
          (t.conns b).serial = (s.conns b).serial ∧ (s.conns b).serial < s.registrations ∧
            (s.conns b).reader.drawn = true := by
        have hdrawn := (drawn_of_step hstep h).resolve_right fun he => hb (by cases he; rfl)
        exact ⟨(id_step hstep hdrawn).2.1, (hs.id b hdrawn).2, hdrawn⟩
      by_cases hc : c = d <;> by_cases hc' : c' = d
      · rw [hc, hc']
      · obtain ⟨heq, hlt, _⟩ := hold c' hc' h'
        rw [hc, hnew, heq] at hserial
        omega
      · obtain ⟨heq, hlt, _⟩ := hold c hc h
        rw [hc', hnew, heq] at hserial
        omega
      · obtain ⟨heq, _, hdrawn⟩ := hold c hc h
        obtain ⟨heq', _, hdrawn'⟩ := hold c' hc' h'
        exact hs.serial c c' hdrawn hdrawn' (by rw [← heq, ← heq', hserial])
    · have hdrawn := (drawn_of_step hstep h).resolve_right (hne c)
      have hdrawn' := (drawn_of_step hstep h').resolve_right (hne c')
      refine hs.serial c c' hdrawn hdrawn' ?_
      rw [← (id_step hstep hdrawn).2.1, ← (id_step hstep hdrawn').2.1, hserial]
  case ends => exact fun c => endsBySignal_step (hs.ends c) hstep

/-- Every reachable state is sound. -/
theorem sound_run {es : List ServerEvent} (hrun : Transition.run (step cfg) init es = some s) :
    Sound cfg s :=
  Transition.run_invariant (fun _ _ _ h hs => sound_step h hs) hrun sound_init

/-- Who is found dead has been silent for longer than the timeout. -/
theorem mem_deadClients {h : Hub} {now : Instant} {timeout : Duration} {id : ℕ}
    (hdead : id ∈ h.deadClients now timeout) :
    ∃ client, h.clients.lookup id = some client ∧ timeout < now - client.lastSeen := by
  simp only [Hub.deadClients, List.mem_map, List.mem_filter, decide_eq_true_eq] at hdead
  obtain ⟨entry, ⟨hentry, hsilent⟩, rfl⟩ := hdead
  exact ⟨entry.2, Table.lookup_eq_some_iff.mpr hentry, hsilent⟩

/-- A reaper removes a client only when more than the timeout lies between the last
time it was heard and the removal, although the clock was read before the lock. -/
theorem reap_precise (hs : Sound cfg s) {c id : ℕ} {client : Client}
    (hstep : step cfg s (.reap c) = some t) (hbefore : s.hub.clients.lookup id = some client)
    (hafter : t.hub.clients.lookup id = none) : s.lastHeard id + cfg.pingTimeout < s.now := by
  simp only [step] at hstep
  split at hstep
  · next now hping =>
    have hclients :
        t.hub.clients = s.hub.clients.eraseAll (s.hub.deadClients now cfg.pingTimeout) := by
      split at hstep <;> cases hstep <;> rfl
    rw [hclients, Table.lookup_eraseAll, hbefore] at hafter
    split_ifs at hafter with hdead
    obtain ⟨client', hclient', hsilent⟩ := mem_deadClients hdead
    rw [← hs.lastSeen id client' hclient']
    exact (Nat.add_lt_of_lt_sub' hsilent).trans_le (hs.sampled c now hping)
  · cases hstep

/-- The connection has registered, and has lost its entry or its writer. -/
def Lost (s : Server) (c : ℕ) : Prop :=
  (s.conns c).reader.entered = true ∧
    ((s.conns c).id ∉ s.hub.clients ∨ (s.hub.channels c).closed = true)

/-- A connection inserts its client once. -/
theorem entered_step {c : ℕ} (hstep : step cfg s e = some t)
    (hentered : (s.conns c).reader.entered = true) : (t.conns c).reader.entered = true := by
  rcases conn_step c hstep with ⟨-, hsame⟩ | hown
  · rwa [hsame]
  · generalize t.conns c = k at hown ⊢
    cases hown <;> simp_all [Reader.entered]

/-- A channel is closed by its writer's end and by nothing else. -/
theorem closed_eq_step {tx : ℕ} (hstep : step cfg s e = some t) (hwriter : e ≠ .writerEnds tx) :
    (t.hub.channels tx).closed = (s.hub.channels tx).closed := by
  cases e <;> simp only [step] at hstep
  case readerOp c =>
    split at hstep <;> cases hstep
    next op ops hreader =>
    cases op with
    | sendTo json => exact (Hub.onlyQueues_getD fun _ hok => Hub.sendTo_frame hok).closed tx
    | _ => rfl
  case sendPing c ts =>
    split at hstep
    · split at hstep <;> cases hstep
      · next hub hok => exact (Hub.sendTo_frame hok).closed tx
      · rfl
    · cases hstep
  case emit name data =>
    cases hstep
    exact (s.hub.emit_frame name data).closed tx
  case deliver json =>
    cases hstep
    exact (Hub.onlyQueues_getD fun _ hok => Hub.deliver_frame hok).closed tx
  case writerEnds c =>
    have htx : tx ≠ c := fun h => hwriter (by rw [h])
    split at hstep <;> cases hstep
    simp only [Hub.closeChannel, Function.update_of_ne htx]
  case writerSends c =>
    cases hstep
    simp only [Hub.popChannel]
    by_cases htx : tx = c
    · rw [htx, Function.update_self]
    · rw [Function.update_of_ne htx]
  all_goals
    (repeat' split at hstep) <;> cases hstep <;> rfl

/-- A channel that is closed stays closed. -/
theorem closed_step {tx : ℕ} (hstep : step cfg s e = some t)
    (hclosed : (s.hub.channels tx).closed = true) : (t.hub.channels tx).closed = true := by
  by_cases hwriter : e = .writerEnds tx
  · subst hwriter
    simp only [step] at hstep
    split at hstep <;> cases hstep
    simp [Hub.closeChannel]
  · rw [closed_eq_step hstep hwriter]
    exact hclosed

/-- Ids are only ever drawn. -/
theorem registrations_step (hstep : step cfg s e = some t) :
    s.registrations ≤ t.registrations := by
  rcases nextId_step hstep with ⟨_, _, _, _, _, _, _, hreg⟩ | ⟨_, _, hreg⟩ <;> omega

/-- Without a wrap of the counter, what is lost stays lost. -/
theorem lost_step (hs : Sound cfg s) {c : ℕ} (hstep : step cfg s e = some t)
    (hbound : t.registrations ≤ 2 ^ 64) (hlost : s.Lost c) : t.Lost c := by
  obtain ⟨hentered, hgone⟩ := hlost
  have hdrawn := Reader.drawn_of_entered hentered
  refine ⟨entered_step hstep hentered, hgone.imp (fun habsent hmem => ?_) (closed_step hstep)⟩
  obtain ⟨client, hclient⟩ := Option.isSome_iff_exists.mp (AList.lookup_isSome.mpr hmem)
  rcases entry_step hstep hclient with ⟨c', _, hreader, hid, _, _⟩ | ⟨old, hold, _, _, _⟩
  · have hdrawn' : (s.conns c').reader.drawn = true := by
      rw [hreader]
      rfl
    have hc := hs.id_injective ((registrations_step hstep).trans hbound) hdrawn hdrawn'
      (by rw [← hid, (id_step hstep hdrawn).1])
    rw [hc, hreader] at hentered
    cases hentered
  · rw [(id_step hstep hdrawn).1] at hold
    exact habsent (AList.lookup_isSome.mp (by rw [hold]; rfl))

/-- Without a wrap of the counter, a lost connection cannot be sent to. -/
theorem sendTo_lost (hs : Sound cfg s) {c : ℕ} (hbound : s.registrations ≤ 2 ^ 64)
    (hlost : s.Lost c) (json : Text) (hub : Hub) : s.hub.sendTo (s.conns c).id json ≠ .ok hub := by
  obtain ⟨hentered, hgone⟩ := hlost
  have hdrawn := Reader.drawn_of_entered hentered
  intro hok
  unfold Hub.sendTo at hok
  split at hok
  · cases hok
  · next client hclient =>
    obtain ⟨hid, hreg⟩ := hs.owner _ client hclient
    have hc := hs.id_injective hbound (Reader.drawn_of_registered hreg) hdrawn hid
    rcases hgone with habsent | hclosed
    · exact habsent (AList.lookup_isSome.mp (by rw [hclient]; rfl))
    · simp [Hub.send, hc, hclosed] at hok

/-- A tick that the ping task of a lost connection completes signals the reader. -/
theorem signal_of_tick (hs : Sound cfg s) {c : ℕ} (hbound : s.registrations ≤ 2 ^ 64)
    (hlost : s.Lost c) (hstep : step cfg s e = some t)
    (hticks : (s.conns c).ticks < (t.conns c).ticks) : (t.conns c).signal ≠ .pending := by
  rcases conn_step c hstep with ⟨-, hsame⟩ | hown
  · rw [hsame] at hticks
    exact absurd hticks (lt_irrefl _)
  · generalize t.conns c = k at hown hticks ⊢
    cases hown with
    | pings ts hping hub hok => exact absurd hok (sendTo_lost hs hbound hlost _ hub)
    | isDead | pingFails => simp
    | _ => exact absurd hticks (lt_irrefl _)

/-- From a state in which a connection is lost, any run in which its ping task
completes a tick signals its reader. -/
theorem signal_of_lost_run (hs : Sound cfg s) {c : ℕ} {es : List ServerEvent}
    (hrun : Transition.run (step cfg) s es = some t) (hbound : t.registrations ≤ 2 ^ 64)
    (hlost : s.Lost c) (hticks : (s.conns c).ticks < (t.conns c).ticks) :
    (t.conns c).signal ≠ .pending := by
  induction es generalizing s with
  | nil =>
    rw [Transition.run_nil, Option.some.injEq] at hrun
    subst hrun
    exact absurd hticks (lt_irrefl _)
  | cons e es ih =>
    obtain ⟨u, hu, hrest⟩ := Transition.run_cons_eq_some.mp hrun
    have hregs : u.registrations ≤ t.registrations :=
      Transition.run_relation (R := fun s t => s.registrations ≤ t.registrations)
        (fun _ => le_refl _) (fun _ _ _ => le_trans) (fun _ _ _ h => registrations_step h) hrest
    by_cases htick : (s.conns c).ticks < (u.conns c).ticks
    · have hsignal := signal_of_tick hs ((registrations_step hu).trans (hregs.trans hbound))
        hlost hu htick
      exact Transition.run_invariant (I := fun s => (s.conns c).signal ≠ .pending)
        (fun _ _ _ h hs => signal_step hs h) hrest hsignal
    · exact ih (sound_step hs hu) hrest (lost_step hs hu (hregs.trans hbound) hlost)
        (by omega)

/-- Reaping is precise and leaves no zombie connection. A reaper removes only clients
that have been silent for more than the timeout. With at most `2 ^ 64` registrations,
the next tick that the ping task of a lost connection completes signals its reader,
and a connection that has returned has no entry left. With any number of them, a ping
task that has ended under a serving reader has signalled it. -/
theorem reaping_leaves_no_zombie {es : List ServerEvent}
    (hrun : Transition.run (step cfg) init es = some s) :
    (∀ c t id client, step cfg s (.reap c) = some t → s.hub.clients.lookup id = some client →
      t.hub.clients.lookup id = none → s.lastHeard id + cfg.pingTimeout < s.now) ∧
    (∀ c es' t, s.Lost c → Transition.run (step cfg) s es' = some t → t.registrations ≤ 2 ^ 64 →
      (s.conns c).ticks < (t.conns c).ticks → (t.conns c).signal ≠ .pending) ∧
    (∀ c, (s.conns c).reader.isServing = true → (s.conns c).ping = .ended →
      (s.conns c).signal = .sent ∨ (s.conns c).signal = .dropped ∧ cfg.pingInterval = 0) ∧
    (∀ c, (s.conns c).reader = .returned → s.registrations ≤ 2 ^ 64 →
      (s.conns c).id ∉ s.hub.clients) := by
  have hs := sound_run hrun
  refine ⟨fun c t id client => reap_precise hs, ?_, ?_, ?_⟩
  · intro c es' t hlost hrun' hbound hticks
    exact signal_of_lost_run hs hrun' hbound hlost hticks
  · intro c hserving hended
    obtain ⟨hends, haborted⟩ := hs.ends c
    refine (hends hended).imp_right ?_
    rintro ⟨hdropped, hzero | habort⟩
    · exact ⟨hdropped, hzero⟩
    · rcases haborted habort with h | h <;> rw [h] at hserving <;> cases hserving
  · intro c hreturned hbound hmem
    obtain ⟨client, hclient⟩ := Option.isSome_iff_exists.mp (AList.lookup_isSome.mpr hmem)
    obtain ⟨hid, hreg⟩ := hs.owner _ client hclient
    have hdrawn : (s.conns c).reader.drawn = true := by
      rw [hreturned]
      rfl
    have hc := hs.id_injective hbound (Reader.drawn_of_registered hreg) hdrawn hid
    rw [hc, hreturned] at hreg
    cases hreg

/-- The intervals of `ServerConfig::new`. -/
def defaultConfig : ServerConfig := ⟨5 * 10 ^ 9, 15 * 10 ^ 9⟩

/-- Two connections; the second one reaps the silent first one, whose ping task then
finds no client to send to. -/
def reapedByOther : List ServerEvent :=
  [.accept 0, .fetchId 0, .insert 0, .startPing 0, .tick (16 * 10 ^ 9), .accept 1, .fetchId 1,
    .insert 1, .startPing 1, .sample 0, .sample 1, .reap 1, .reap 0]

/-- The ping of the reaped connection signals its reader. -/
theorem reaping_leaves_no_zombie_reapedByOther :
    ∃ s t, Transition.run (step defaultConfig) init reapedByOther = some s ∧
      step defaultConfig s (.sendPing 0 0) = some t ∧ (s.conns 0).signal = .pending ∧
      (t.conns 0).signal ≠ .pending := by
  have hrun : Transition.run (step defaultConfig) init reapedByOther =
      some ((Transition.run (step defaultConfig) init reapedByOther).get (by decide)) := by simp
  have hstep := (Option.some_get (show (step defaultConfig
    ((Transition.run (step defaultConfig) init reapedByOther).get (by decide))
    (.sendPing 0 0)).isSome by decide)).symm
  refine ⟨_, _, hrun, hstep, by decide, ?_⟩
  exact (reaping_leaves_no_zombie hrun).2.1 0 [.sendPing 0 0] _
    ⟨by decide, .inl (by decide)⟩ (Transition.run_cons_eq_some.mpr ⟨_, hstep, rfl⟩)
    (by decide) (by decide)

/-- A connection that has returned from `unregister_client`, and then returns. -/
def returned : List ServerEvent :=
  [.accept 0, .fetchId 0, .insert 0, .receive 0 .close, .unregister 0, .abortPing 0,
    .writerEnds 0, .finish 0]

/-- Connections `1` to `n` draw their ids. -/
def draws (n : ℕ) : List ServerEvent :=
  (List.range n).flatMap fun k => [.accept (k + 1), .fetchId (k + 1)]

/-- One connection draws its id. -/
theorem run_draw (cfg : ServerConfig) {k : ℕ} (habsent : (s.conns k).reader = .absent) :
    ∃ t, Transition.run (step cfg) s [.accept k, .fetchId k] = some t ∧
      t.hub.nextId = (s.hub.nextId + 1) % 2 ^ 64 ∧ (t.conns k).reader = .gotId ∧
      (t.conns k).id = s.hub.nextId ∧ ∀ k', k' ≠ k → t.conns k' = s.conns k' := by
  let accepted := s.act k fun c => { c with reader := .accepted }
  let drawn := ({ accepted with
    hub := s.hub.fetchAddId.2, registrations := s.registrations + 1 } : Server).act k fun c =>
      { c with id := s.hub.fetchAddId.1, serial := s.registrations, reader := .gotId }
  have haccept : step cfg s (.accept k) = some accepted := by simp only [step, habsent, accepted]
  have hfetch : step cfg accepted (.fetchId k) = some drawn := by
    simp only [step, accepted, act_conns_self]
    rfl
  refine ⟨drawn, Transition.run_cons_eq_some.mpr ⟨accepted, haccept,
    Transition.run_cons_eq_some.mpr ⟨drawn, hfetch, rfl⟩⟩, rfl, ?_, ?_, ?_⟩
  · simp [drawn]
  · simp [drawn, Hub.fetchAddId]
  · intro k' hk'
    have hdrawn : drawn.conns k' = accepted.conns k' := act_conns_ne _ hk' _
    rw [hdrawn]
    exact act_conns_ne s hk' _

/-- After `n` draws the counter has gone `n` further, and the last connection holds
the id before it. -/
theorem run_draws (cfg : ServerConfig) (hnextId : s.hub.nextId < 2 ^ 64)
    (hfresh : ∀ k, 0 < k → (s.conns k).reader = .absent) (n : ℕ) :
    ∃ t, Transition.run (step cfg) s (draws n) = some t ∧ t.conns 0 = s.conns 0 ∧
      (∀ k, n < k → (t.conns k).reader = .absent) ∧
      t.hub.nextId = (s.hub.nextId + n) % 2 ^ 64 ∧
      (0 < n → (t.conns n).reader = .gotId ∧
        (t.conns n).id = (s.hub.nextId + n - 1) % 2 ^ 64) := by
  induction n with
  | zero =>
    exact ⟨s, rfl, rfl, hfresh, (Nat.mod_eq_of_lt hnextId).symm, fun h => absurd h (lt_irrefl 0)⟩
  | succ n ih =>
    obtain ⟨t, hrun, hzero, habsent, hnext, _⟩ := ih
    obtain ⟨u, hdraw, hcounter, hgotId, hid, hothers⟩ :=
      run_draw cfg (habsent (n + 1) (Nat.lt_succ_self n))
    have hdraws : draws (n + 1) = draws n ++ [.accept (n + 1), .fetchId (n + 1)] := by
      simp [draws, List.range_succ]
    refine ⟨u, ?_, ?_, fun k hk => ?_, ?_, fun _ => ⟨hgotId, ?_⟩⟩
    · rw [hdraws]
      exact Transition.run_append_eq_some.mpr ⟨t, hrun, hdraw⟩
    · rw [hothers 0 (Nat.succ_ne_zero n).symm, hzero]
    · rw [hothers k (by omega)]
      exact habsent k (by omega)
    · rw [hcounter, hnext]
      omega
    · rw [hid, hnext]
      rfl

/-- A connection that has drawn its id inserts its client under it. -/
theorem step_insert (cfg : ServerConfig) {k : ℕ} (hgotId : (s.conns k).reader = .gotId) :
    ∃ t, step cfg s (.insert k) = some t ∧ (s.conns k).id ∈ t.hub.clients := by
  refine ⟨_, by simp only [step, hgotId]; rfl, ?_⟩
  rw [act_hub, ← AList.lookup_isSome, Hub.insertClient, Table.lookup_insert_eq, if_pos rfl]
  rfl

/-- After `2 ^ 64` further registrations the id of a connection that has returned is
in the table again. -/
theorem returned_id_reused :
    ¬∀ es s c, Transition.run (step defaultConfig) init es = some s →
      (s.conns c).reader = .returned → (s.conns c).id ∉ s.hub.clients := by
  intro h
  have hreturned : Transition.run (step defaultConfig) init returned =
      some ((Transition.run (step defaultConfig) init returned).get (by decide)) := by simp
  obtain ⟨t, hrun, hzero, _, _, hlast⟩ := run_draws defaultConfig
    (s := (Transition.run (step defaultConfig) init returned).get (by decide)) (by decide)
    (fun k hk => by
      cases k with
      | zero => cases hk
      | succ k => rfl) (2 ^ 64)
  obtain ⟨hgotId, hid⟩ := hlast (by decide)
  obtain ⟨u, hu, hmem⟩ := step_insert defaultConfig hgotId
  have hconn : u.conns 0 = t.conns 0 := conn_step_other hu (by simp [actor])
  refine h (returned ++ (draws (2 ^ 64) ++ [.insert (2 ^ 64)])) u 0 ?_ ?_ ?_
  · exact Transition.run_append_eq_some.mpr ⟨_, hreturned,
      Transition.run_concat_eq_some.mpr ⟨t, hrun, hu⟩⟩
  · rw [hconn, hzero]
    rfl
  · rw [hconn, hzero]
    rwa [hid] at hmem

end Server

end InfinityBridge.Host
