import InfinityBridge.Host.Registry

/-!
# Gauges that answer

The connections on a clock. An interval ticks when its deadline has come, first at
once and then period by period, and whoever is pinged owes an answer. A gauge that has
answered every ping before the clock advances is kept by all the reapers exactly when the
interval is positive and fits into the timeout together with what the ping task can be
late: by its start, which comes some time after the registration, and by a tick. Within a
tick the reaper runs before the ping, and the first ping comes a whole interval after the
start.
-/

namespace InfinityBridge.Host

/-- Is about to touch its client. -/
def Reader.touches : Reader → Bool
  | .serving (.touch :: _) => true
  | _ => false

/-- The connections with their intervals and the pings that have not been answered. -/
structure Timed where
  server : Server
  /-- When each connection registered its client. -/
  entered : ℕ → Instant
  /-- The next tick of the interval of each ping task. -/
  deadline : ℕ → Instant
  /-- Who has been pinged and not been heard since. -/
  asked : ℕ → Bool

namespace Timed

def init : Timed := ⟨Server.init, fun _ => 0, fun _ => 0, fun _ => false⟩

/-- An interval does not tick before its deadline. -/
def due (s : Timed) : ServerEvent → Bool
  | .sample c => s.deadline c ≤ s.server.now
  | _ => true

/-- A connection is entered when it inserts its client. -/
def entries (s : Timed) : ServerEvent → ℕ → Instant
  | .insert c => Function.update s.entered c s.server.now
  | _ => s.entered

/-- The first tick of an interval is immediate, and each tick moves the deadline by one
period, also when it was late. -/
def deadlines (cfg : ServerConfig) (s : Timed) : ServerEvent → ℕ → Instant
  | .startPing c => Function.update s.deadline c (s.server.now + cfg.pingInterval)
  | .sample c => Function.update s.deadline c (s.deadline c + cfg.pingInterval)
  | _ => s.deadline

/-- A ping asks for an answer, and a touch is one. -/
def unanswered (s : Timed) : ServerEvent → ℕ → Bool
  | .sendPing c _ => Function.update s.asked c true
  | .readerOp c =>
    if (s.server.conns c).reader.touches then Function.update s.asked c false else s.asked
  | _ => s.asked

/-- The steps of the connections on the clock. -/
def step (cfg : ServerConfig) (s : Timed) (e : ServerEvent) : Option Timed :=
  if s.due e then
    (Server.step cfg s.server e).map fun t => ⟨t, s.entries e, s.deadlines cfg e, s.unanswered e⟩
  else none

/-- Connection `c` has nothing to do before `now`: its gauge has answered, and its ping task
starts within `delay` of the registration and has sent the ping of a tick within `late` of
the tick's deadline. -/
def Settled (cfg : ServerConfig) (delay late : Duration) (s : Timed) (c : ℕ) (now : Instant) :
    Prop :=
  (s.server.conns c).reader.registered = true → s.asked c = false ∧
    match (s.server.conns c).ping with
    | .starting => now ≤ s.entered c + delay
    | .ticking => now ≤ s.deadline c + late
    | .sampled _ | .pinging => now + cfg.pingInterval ≤ s.deadline c + late
    | .absent | .ended => False

/-- The ping task of `c` is as late as it may be at most, and its gauge answers each ping before
the clock advances. The other connections may do as they like. -/
def Responsive (cfg : ServerConfig) (delay late : Duration) (c : ℕ) (s : Timed) :
    ServerEvent → Prop
  | .tick d => 0 < d → s.Settled cfg delay late c (s.server.now + d)
  | _ => True

end Timed

/-- No reaper removes the client of `c`, and its reader is not signalled unless the writer
has ended. -/
structure Server.Unreaped (cfg : ServerConfig) (c : ℕ) (s : Server) : Prop where
  kept : ∀ c' t client, Server.step cfg s (.reap c') = some t → client.tx = c →
    s.hub.clients.lookup (s.conns c).id = some client →
    t.hub.clients.lookup (s.conns c).id = some client
  unsignalled : (s.conns c).reader.isServing = true → (s.conns c).signal ≠ .pending →
    (s.hub.channels c).closed = true

namespace Timed

variable {cfg : ServerConfig} {s t : Timed} {e : ServerEvent}

/-- A step on the clock is a step of the connections. -/
theorem step_eq_some : step cfg s e = some t ↔ s.due e = true ∧
    Server.step cfg s.server e = some t.server ∧ t.entered = s.entries e ∧
    t.deadline = s.deadlines cfg e ∧ t.asked = s.unanswered e := by
  unfold step
  cases hdue : s.due e with
  | false => simp
  | true =>
    simp only [if_true, Option.map_eq_some_iff, true_and]
    constructor
    · rintro ⟨server, hserver, rfl⟩
      exact ⟨hserver, rfl, rfl, rfl⟩
    · rintro ⟨hserver, hentered, hdeadline, hasked⟩
      refine ⟨t.server, hserver, ?_⟩
      rw [← hentered, ← hdeadline, ← hasked]

/-- A run on the clock is a run of the connections. -/
theorem run_server {es : List ServerEvent} (hrun : Transition.run (step cfg) s es = some t) :
    Transition.run (Server.step cfg) s.server es = some t.server := by
  induction es generalizing s with
  | nil =>
    rw [Transition.run_nil, Option.some.injEq] at hrun
    rw [hrun, Transition.run_nil]
  | cons e es ih =>
    obtain ⟨u, hu, hrest⟩ := Transition.run_cons_eq_some.mp hrun
    exact Transition.run_cons_eq_some.mpr ⟨u.server, (step_eq_some.mp hu).2.1, ih hrest⟩

end Timed

namespace Server

variable {cfg : ServerConfig} {s t : Server} {e : ServerEvent}

/-- The last time an id was heard only moves on, and is never ahead of the clock. -/
theorem heard_step (hpast : ∀ id, s.lastHeard id ≤ s.now) (hstep : step cfg s e = some t) (id : ℕ) :
    s.lastHeard id ≤ t.lastHeard id ∧ t.lastHeard id ≤ t.now := by
  have hsame (hheard : t.lastHeard = s.lastHeard) :
      s.lastHeard id ≤ t.lastHeard id ∧ t.lastHeard id ≤ t.now := by
    rw [hheard]
    exact ⟨le_refl _, (hpast id).trans (now_step hstep)⟩
  have hnow (id' : ℕ) (hheard : t.lastHeard = Function.update s.lastHeard id' s.now) :
      s.lastHeard id ≤ t.lastHeard id ∧ t.lastHeard id ≤ t.now := by
    have hclock := now_step hstep
    have hold := hpast id
    rw [hheard]
    by_cases hid : id = id'
    · subst hid
      rw [Function.update_self]
      exact ⟨hold, hclock⟩
    · rw [Function.update_of_ne hid]
      exact ⟨le_refl _, hold.trans hclock⟩
  cases e with
  | insert c =>
    apply hnow (s.conns c).id
    simp only [step] at hstep
    split at hstep <;> cases hstep
    rfl
  | readerOp c =>
    simp only [step] at hstep
    split at hstep <;> cases hstep
    next op ops hreader =>
    cases op with
    | touch => exact hnow (s.conns c).id rfl
    | _ => exact hsame rfl
  | _ =>
    apply hsame
    simp only [step] at hstep
    (repeat' split at hstep) <;> cases hstep <;> rfl

/-- How an entry of the client table can go: another one is inserted in its place, or its
connection unregisters, or a reaper finds it dead. -/
theorem entry_goes_step {id : ℕ} {client : Client} (hstep : step cfg s e = some t)
    (h : s.hub.clients.lookup id = some client) :
    (∃ new, t.hub.clients.lookup id = some new ∧ new.tx = client.tx) ∨
    (∃ c, e = .insert c ∧ (s.conns c).reader = .gotId ∧ (s.conns c).id = id) ∨
    (∃ c, e = .unregister c ∧ (s.conns c).reader = .leaving ∧ (s.conns c).id = id) ∨
    ∃ c now, e = .reap c ∧ (s.conns c).ping = .sampled now ∧
      id ∈ s.hub.deadClients now cfg.pingTimeout := by
  rcases clients_step hstep with ⟨c, rfl, hreader, _, hlookup⟩ | ⟨c, rfl, hreader, _, hlookup⟩ |
    ⟨c, now, rfl, hping, _, hlookup⟩ | ⟨c, op, ops, _, _, _, hlookup⟩ | ⟨hclients, _, _⟩
  · by_cases hid : id = (s.conns c).id
    · exact .inr (.inl ⟨c, rfl, hreader, hid.symm⟩)
    · exact .inl ⟨client, by rw [hlookup, if_neg hid, h], rfl⟩
  · by_cases hid : id = (s.conns c).id
    · exact .inr (.inr (.inl ⟨c, rfl, hreader, hid.symm⟩))
    · exact .inl ⟨client, by rw [hlookup, if_neg hid, h], rfl⟩
  · by_cases hdead : id ∈ s.hub.deadClients now cfg.pingTimeout
    · exact .inr (.inr (.inr ⟨c, now, rfl, hping, hdead⟩))
    · exact .inl ⟨client, by rw [hlookup, if_neg hdead, h], rfl⟩
  · by_cases hid : id = (s.conns c).id
    · have hkept : (op.onClient s.now client).tx = client.tx := by cases op <;> rfl
      exact .inl ⟨op.onClient s.now client, by rw [hlookup, if_pos hid, h]; rfl, hkept⟩
    · exact .inl ⟨client, by rw [hlookup, if_neg hid, h], rfl⟩
  · exact .inl ⟨client, by rw [hclients, h], rfl⟩

/-- A connection is registered by inserting its client. -/
theorem registered_of_step {c : ℕ} (hstep : step cfg s e = some t)
    (hregistered : (t.conns c).reader.registered = true) :
    (s.conns c).reader.registered = true ∨ e = .insert c := by
  rcases conn_step c hstep with ⟨-, hsame⟩ | hown
  · rw [hsame] at hregistered
    exact .inl hregistered
  · generalize t.conns c = k at hown hregistered
    cases hown <;> simp_all [Reader.registered]

/-- Before a connection has entered, nothing happens to its ping task. -/
theorem early_step {c : ℕ}
    (hearly : (s.conns c).reader.entered = false →
      (s.conns c).ping = .absent ∧ (s.conns c).signal = .pending)
    (hstep : step cfg s e = some t) (hentered : (t.conns c).reader.entered = false) :
    (t.conns c).ping = .absent ∧ (t.conns c).signal = .pending := by
  have hbefore : (s.conns c).reader.entered = false := by
    by_contra hnot
    rw [entered_step hstep (by simpa using hnot)] at hentered
    cases hentered
  obtain ⟨hping, hsignal⟩ := hearly hbefore
  rcases conn_step c hstep with ⟨-, hsame⟩ | hown
  · rw [hsame]
    exact ⟨hping, hsignal⟩
  · generalize t.conns c = k at hown hentered ⊢
    cases hown <;> simp_all [Reader.entered]

/-- Only a closed channel refuses a frame for a client that is in the table. -/
theorem closed_of_sendTo {h : Hub} {id : ℕ} {client : Client} {json : Text} {err : BridgeError}
    (hclient : h.clients.lookup id = some client) (herr : h.sendTo id json = .error err) :
    (h.channels client.tx).closed = true := by
  rw [Hub.sendTo, hclient] at herr
  by_contra hopen
  simp [Hub.send, hopen] at herr

/-- Who has been silent for longer than the timeout is found dead. -/
theorem dead_of_silent {h : Hub} {now : Instant} {timeout : Duration} {id : ℕ} {client : Client}
    (hclient : h.clients.lookup id = some client) (hsilent : timeout < now - client.lastSeen) :
    id ∈ h.deadClients now timeout := by
  simp only [Hub.deadClients, List.mem_map, List.mem_filter, decide_eq_true_eq]
  exact ⟨⟨id, client⟩, ⟨Table.lookup_eq_some_iff.mp hclient, hsilent⟩, rfl⟩

/-- What moves the ping task of a connection. -/
theorem ping_step {c : ℕ} (hstep : step cfg s e = some t) :
    (t.conns c).ping = (s.conns c).ping ∨ e = .insert c ∨ e = .startPing c ∨ e = .sample c ∨
    e = .reap c ∨ (∃ ts, e = .sendPing c ts) ∨
    (e = .abortTakes c ∧ (s.conns c).abortRequested = true) := by
  rcases conn_step c hstep with ⟨-, hsame⟩ | hown
  · rw [hsame]
    exact .inl rfl
  · generalize t.conns c = k at hown ⊢
    cases hown <;> simp_all

/-- What signals the reader of a connection. -/
theorem signalled_step {c : ℕ} (hstep : step cfg s e = some t) :
    (t.conns c).signal = (s.conns c).signal ∨ (e = .startPing c ∧ cfg.pingInterval = 0) ∨
    (∃ now, e = .reap c ∧ (s.conns c).ping = .sampled now ∧
      (s.conns c).id ∈ s.hub.deadClients now cfg.pingTimeout) ∨
    (∃ ts err, e = .sendPing c ts ∧
      s.hub.sendTo (s.conns c).id (WireMsg.ping (some ts)).toJson = .error err) ∨
    (e = .abortTakes c ∧ (s.conns c).abortRequested = true) := by
  rcases conn_step c hstep with ⟨-, hsame⟩ | hown
  · rw [hsame]
    exact .inl rfl
  · generalize t.conns c = k at hown ⊢
    cases hown with
    | panics hping hzero => exact .inr (.inl ⟨rfl, hzero⟩)
    | isDead now hping hdead => exact .inr (.inr (.inl ⟨now, rfl, hping, hdead⟩))
    | pingFails ts hping err herr => exact .inr (.inr (.inr (.inl ⟨ts, err, rfl, herr⟩)))
    | aborted habort => exact .inr (.inr (.inr (.inr ⟨rfl, habort⟩)))
    | _ => exact .inl rfl

end Server

namespace Timed

variable {cfg : ServerConfig} {delay late : Duration} {s t : Timed} {e : ServerEvent} {c : ℕ}

/-- When the gauge of `c` was last heard. -/
def heard (s : Timed) (c : ℕ) : Instant := s.server.lastHeard (s.server.conns c).id

/-- How far the clock may be from the last answer and from the next tick. The first tick comes
an interval after the start, the others an interval after the tick before, and whoever has
been pinged at a tick answers at once. -/
def Paced (cfg : ServerConfig) (delay late : Duration) (c : ℕ) (s : Timed) : Prop :=
  match (s.server.conns c).ping with
  | .absent => False
  | .starting => s.server.now ≤ s.entered c + delay ∧ s.entered c ≤ s.heard c
  | .ticking =>
    s.server.now ≤ s.deadline c + late ∧
      if s.asked c then
        s.deadline c ≤ s.server.now + cfg.pingInterval ∧
          s.server.now ≤ s.heard c + (delay + cfg.pingInterval + late)
      else s.deadline c ≤ s.heard c + (delay + cfg.pingInterval)
  | .sampled _ | .pinging =>
    s.server.now + cfg.pingInterval ≤ s.deadline c + late ∧
      s.deadline c ≤ s.server.now + cfg.pingInterval ∧
      s.server.now ≤ s.heard c + (delay + cfg.pingInterval + late) ∧
      (s.asked c = false → s.deadline c ≤ s.heard c + (delay + cfg.pingInterval) + cfg.pingInterval)
  | .ended => s.server.now ≤ s.heard c + (delay + cfg.pingInterval + late)

/-- A gauge that is paced has been silent for at most one interval and what the ping task is
late. -/
theorem Paced.silence (h : s.Paced cfg delay late c) :
    s.server.now ≤ s.heard c + (delay + cfg.pingInterval + late) := by
  unfold Paced at h
  split at h
  · exact h.elim
  · grind
  · split_ifs at h <;> grind
  · exact h.2.2.1
  · exact h.2.2.1
  · exact h

/-- Being heard is all that can happen to a pace from outside. -/
theorem Paced.of_heard (h : s.Paced cfg delay late c)
    (hping : (t.server.conns c).ping = (s.server.conns c).ping)
    (hentered : t.entered c = s.entered c) (hdeadline : t.deadline c = s.deadline c)
    (hasked : t.asked c = s.asked c) (hnow : t.server.now = s.server.now)
    (hheard : s.heard c ≤ t.heard c) : t.Paced cfg delay late c := by
  unfold Paced at h ⊢
  rw [hping, hentered, hdeadline, hasked, hnow]
  split at h
  · exact h
  · exact ⟨h.1, h.2.trans hheard⟩
  · split_ifs at h ⊢ <;> grind
  · grind
  · grind
  · grind

/-- What holds of a connection whose gauge is responsive: before it has entered nothing has
happened, and then its client is in the table, its reader is not signalled unless the
writer has ended, and it is paced. -/
structure Lively (cfg : ServerConfig) (delay late : Duration) (c : ℕ) (s : Timed) : Prop where
  past : ∀ id, s.server.lastHeard id ≤ s.server.now
  early : (s.server.conns c).reader.entered = false →
    (s.server.conns c).ping = .absent ∧ (s.server.conns c).signal = .pending
  present : (s.server.conns c).reader.registered = true →
    ∃ client, s.server.hub.clients.lookup (s.server.conns c).id = some client ∧ client.tx = c
  signal : (s.server.conns c).reader.registered = true →
    (s.server.conns c).signal = .pending ∨ (s.server.hub.channels c).closed = true
  paced : (s.server.conns c).reader.registered = true → s.Paced cfg delay late c

/-- No reaper finds a responsive gauge dead. -/
theorem Lively.alive (h : s.Lively cfg delay late c) (hs : s.server.Sound cfg)
    (hfits : delay + cfg.pingInterval + late ≤ cfg.pingTimeout)
    (hregistered : (s.server.conns c).reader.registered = true) {c' : ℕ} {now : Instant}
    (hsampled : (s.server.conns c').ping = .sampled now) :
    (s.server.conns c).id ∉ s.server.hub.deadClients now cfg.pingTimeout := by
  intro hdead
  obtain ⟨client, hclient, hsilent⟩ := Server.mem_deadClients hdead
  have hseen := hs.lastSeen _ client hclient
  have hnow := hs.sampled c' now hsampled
  have hsilence := (h.paced hregistered).silence
  unfold heard at hsilence
  grind

/-- A step keeps the client of a responsive gauge in the table. -/
theorem present_step (h : s.Lively cfg delay late c) (hs : s.server.Sound cfg)
    (hfits : delay + cfg.pingInterval + late ≤ cfg.pingTimeout)
    (hbound : s.server.registrations ≤ 2 ^ 64)
    (hstep : Server.step cfg s.server e = some t.server)
    (hregistered : (t.server.conns c).reader.registered = true) :
    ∃ client, t.server.hub.clients.lookup (t.server.conns c).id = some client ∧
      client.tx = c := by
  rcases Server.registered_of_step hstep hregistered with hold | rfl
  · have hdrawn := Server.Reader.drawn_of_registered hold
    obtain ⟨client, hclient, htx⟩ := h.present hold
    rw [(Server.id_step hstep hdrawn).1]
    rcases Server.entry_goes_step hstep hclient with ⟨new, hnew, hkept⟩ |
      ⟨c', rfl, hreader, hid⟩ | ⟨c', rfl, hreader, hid⟩ | ⟨c', now, rfl, hping, hdead⟩
    · exact ⟨new, hnew, hkept.trans htx⟩
    · have hc := hs.id_injective hbound (c := c') (by rw [hreader]; rfl) hdrawn hid
      rw [← hc, hreader] at hold
      cases hold
    · have hc := hs.id_injective hbound (c := c') (by rw [hreader]; rfl) hdrawn hid
      subst hc
      simp only [Server.step, hreader, Option.some.injEq] at hstep
      rw [← hstep, Server.act_conns_self] at hregistered
      cases hregistered
    · exact absurd hdead (h.alive hs hfits hold hping)
  · simp only [Server.step] at hstep
    split at hstep
    · rw [Option.some.injEq] at hstep
      rw [← hstep, Server.act_conns_self, Server.act_hub, Hub.insertClient,
        Table.lookup_insert_eq, if_pos rfl]
      exact ⟨_, rfl, rfl⟩
    · cases hstep

/-- Only a tick of the clock advances it. -/
theorem now_eq_step {s t : Server} (hstep : Server.step cfg s e = some t)
    (htick : ∀ d, e ≠ .tick d) : t.now = s.now := by
  cases e <;> simp only [Server.step] at hstep
  case tick d => exact absurd rfl (htick d)
  case readerOp c =>
    split at hstep <;> cases hstep
    next op ops hreader => cases op <;> rfl
  all_goals
    (repeat' split at hstep) <;> cases hstep <;> rfl

/-- The other connections move neither the interval of `c` nor the answers its gauge owes. -/
theorem pace_other (cfg : ServerConfig) (s : Timed) (hactor : Server.actor e ≠ some c) :
    s.entries e c = s.entered c ∧ s.deadlines cfg e c = s.deadline c ∧
      s.unanswered e c = s.asked c := by
  have hne (c' : ℕ) (h : Server.actor e = some c') : c ≠ c' := fun hc => hactor (by rw [h, hc])
  cases e with
  | insert c' => exact ⟨Function.update_of_ne (hne c' rfl) _ _, rfl, rfl⟩
  | startPing c' => exact ⟨rfl, Function.update_of_ne (hne c' rfl) _ _, rfl⟩
  | sample c' => exact ⟨rfl, Function.update_of_ne (hne c' rfl) _ _, rfl⟩
  | sendPing c' ts => exact ⟨rfl, rfl, Function.update_of_ne (hne c' rfl) _ _⟩
  | readerOp c' =>
    refine ⟨rfl, rfl, ?_⟩
    simp only [unanswered]
    split_ifs
    · exact Function.update_of_ne (hne c' rfl) _ _
    · rfl
  | _ => exact ⟨rfl, rfl, rfl⟩

/-- A step that leaves the ping task, the interval and the answers alone leaves the pace
alone. -/
theorem Lively.paced_of_ping (h : s.Lively cfg delay late c) (hstep : step cfg s e = some t)
    (hregistered : (s.server.conns c).reader.registered = true)
    (hping : (t.server.conns c).ping = (s.server.conns c).ping)
    (hentered : t.entered c = s.entered c) (hdeadline : t.deadline c = s.deadline c)
    (hasked : t.asked c = s.asked c) (hnow : t.server.now = s.server.now) :
    t.Paced cfg delay late c := by
  have hserver := (step_eq_some.mp hstep).2.1
  refine (h.paced hregistered).of_heard hping hentered hdeadline hasked hnow ?_
  unfold heard
  rw [(Server.id_step hserver (Server.Reader.drawn_of_registered hregistered)).1]
  exact (Server.heard_step h.past hserver _).1

/-- The clock waits for the gauge. -/
theorem paced_tick {d : Duration} (h : s.Lively cfg delay late c)
    (hresponsive : s.Responsive cfg delay late c (.tick d)) (hstep : step cfg s (.tick d) = some t)
    (hregistered : (s.server.conns c).reader.registered = true) : t.Paced cfg delay late c := by
  obtain ⟨_, hserver, hentered, hdeadline, hasked⟩ := step_eq_some.mp hstep
  simp only [Server.step, Option.some.injEq] at hserver
  rcases Nat.eq_zero_or_pos d with rfl | hpositive
  · apply h.paced_of_ping hstep hregistered (by rw [← hserver]) (congrFun hentered c)
      (congrFun hdeadline c) (congrFun hasked c)
    rw [← hserver]
    rfl
  · obtain ⟨hanswered, hbefore⟩ := hresponsive hpositive hregistered
    have hpaced := h.paced hregistered
    unfold Paced heard at hpaced ⊢
    rw [hentered, hdeadline, hasked, ← hserver]
    dsimp only [entries, deadlines, unanswered]
    cases hping : (s.server.conns c).ping with
    | absent | ended =>
      rw [hping] at hbefore
      exact hbefore.elim
    | starting =>
      rw [hping] at hbefore hpaced
      exact ⟨hbefore, hpaced.2⟩
    | ticking =>
      rw [hping] at hbefore hpaced
      simp only [hanswered, Bool.false_eq_true, if_false] at hpaced ⊢
      exact ⟨hbefore, hpaced.2⟩
    | sampled now | pinging =>
      rw [hping] at hbefore hpaced
      dsimp only at hbefore hpaced ⊢
      have hdue := hpaced.2.2.2 hanswered
      refine ⟨hbefore, ?_, ?_, fun _ => hdue⟩ <;> grind

/-- The other connections leave the gauge paced. -/
theorem paced_other (h : s.Lively cfg delay late c)
    (hresponsive : s.Responsive cfg delay late c e) (hstep : step cfg s e = some t)
    (hactor : Server.actor e ≠ some c)
    (hregistered : (s.server.conns c).reader.registered = true) : t.Paced cfg delay late c := by
  by_cases htick : ∃ d, e = .tick d
  · obtain ⟨d, rfl⟩ := htick
    exact paced_tick h hresponsive hstep hregistered
  · obtain ⟨_, hserver, hentered, hdeadline, hasked⟩ := step_eq_some.mp hstep
    obtain ⟨hentries, hdeadlines, hunanswered⟩ := pace_other cfg s hactor
    apply h.paced_of_ping hstep hregistered
    · rw [Server.conn_step_other hserver hactor]
    · rw [hentered, hentries]
    · rw [hdeadline, hdeadlines]
    · rw [hasked, hunanswered]
    · exact now_eq_step hserver fun d hd => htick ⟨d, hd⟩

/-- A connection starts its pace when its client is inserted. -/
theorem paced_insert (hstep : step cfg s (.insert c) = some t) : t.Paced cfg delay late c := by
  obtain ⟨_, hserver, hentered, _, _⟩ := step_eq_some.mp hstep
  simp only [Server.step] at hserver
  split at hserver
  · rw [Option.some.injEq] at hserver
    unfold Paced heard
    rw [hentered, ← hserver, Server.act_conns_self]
    simp [Server.act, entries]
  · cases hserver

/-- The first tick of the interval comes at once, so the second one is an interval after the
start. -/
theorem paced_startPing (hpaced : s.Paced cfg delay late c) (hpositive : 0 < cfg.pingInterval)
    (hstep : step cfg s (.startPing c) = some t) : t.Paced cfg delay late c := by
  obtain ⟨_, hserver, _, hdeadline, _⟩ := step_eq_some.mp hstep
  simp only [Server.step] at hserver
  split at hserver
  · next hping =>
    rw [if_neg hpositive.ne', Option.some.injEq] at hserver
    unfold Paced heard at hpaced ⊢
    rw [hping] at hpaced
    rw [hdeadline, ← hserver, Server.act_conns_self]
    simp only [deadlines, Function.update_self, Server.act]
    split_ifs <;> grind
  · cases hserver

/-- A tick that is due comes when the ping before has been sent. -/
theorem paced_sample (hpaced : s.Paced cfg delay late c)
    (hstep : step cfg s (.sample c) = some t) : t.Paced cfg delay late c := by
  obtain ⟨hdue, hserver, _, hdeadline, hasked⟩ := step_eq_some.mp hstep
  simp only [due, decide_eq_true_eq] at hdue
  simp only [Server.step] at hserver
  split at hserver
  · next hping =>
    rw [Option.some.injEq] at hserver
    unfold Paced heard at hpaced ⊢
    rw [hping] at hpaced
    rw [hdeadline, hasked, ← hserver, Server.act_conns_self]
    simp only [deadlines, Function.update_self, Server.act, unanswered]
    dsimp only at hpaced
    split_ifs at hpaced <;> grind
  · cases hserver

/-- Its own reaper does not find it dead and goes on to the ping. -/
theorem paced_reap (h : s.Lively cfg delay late c) (hs : s.server.Sound cfg)
    (hfits : delay + cfg.pingInterval + late ≤ cfg.pingTimeout)
    (hregistered : (s.server.conns c).reader.registered = true)
    (hstep : step cfg s (.reap c) = some t) : t.Paced cfg delay late c := by
  have hpaced := h.paced hregistered
  obtain ⟨_, hserver, _, hdeadline, hasked⟩ := step_eq_some.mp hstep
  simp only [Server.step] at hserver
  split at hserver
  · next now hping =>
    rw [Hub.reapDeadClients, if_neg (h.alive hs hfits hregistered hping),
      Option.some.injEq] at hserver
    unfold Paced heard at hpaced ⊢
    rw [hping] at hpaced
    rw [hdeadline, hasked, ← hserver, Server.act_conns_self]
    exact hpaced
  · cases hserver

/-- The ping is sent in time. -/
theorem paced_sendPing (hpaced : s.Paced cfg delay late c) {ts : UInt64}
    (hstep : step cfg s (.sendPing c ts) = some t) : t.Paced cfg delay late c := by
  obtain ⟨_, hserver, _, hdeadline, hasked⟩ := step_eq_some.mp hstep
  simp only [Server.step] at hserver
  split at hserver
  · next hping =>
    unfold Paced heard at hpaced ⊢
    rw [hping] at hpaced
    rw [hdeadline, hasked]
    split at hserver <;> rw [Option.some.injEq] at hserver <;>
      rw [← hserver, Server.act_conns_self]
    · simp only [unanswered, Function.update_self, if_true]
      exact ⟨(Nat.le_add_right _ _).trans hpaced.1, hpaced.2.1, hpaced.2.2.1⟩
    · exact hpaced.2.2.1
  · cases hserver

/-- The read loop can only make the gauge heard. -/
theorem paced_readerOp (h : s.Lively cfg delay late c)
    (hregistered : (s.server.conns c).reader.registered = true)
    (hstep : step cfg s (.readerOp c) = some t) : t.Paced cfg delay late c := by
  have hpaced := h.paced hregistered
  obtain ⟨_, hserver, hentered, hdeadline, hasked⟩ := step_eq_some.mp hstep
  simp only [Server.step] at hserver
  split at hserver
  · next op ops hreader =>
    rw [Option.some.injEq] at hserver
    cases op with
    | touch =>
      have hnow := h.past (s.server.conns c).id
      unfold Paced heard at hpaced ⊢
      rw [hentered, hdeadline, hasked, ← hserver, Server.act_conns_self]
      simp only [unanswered, hreader, Reader.touches, if_true, Function.update_self, Server.act,
        Server.perform, deadlines, entries] at hpaced ⊢
      split at hpaced <;> (try split_ifs at hpaced) <;> grind
    | _ =>
      apply h.paced_of_ping hstep hregistered
      · rw [← hserver, Server.act_conns_self, Server.perform_conns]
      · rw [hentered]
        rfl
      · rw [hdeadline]
        rfl
      · rw [hasked]
        simp only [unanswered, hreader, Reader.touches, Bool.false_eq_true, if_false]
      · rw [← hserver]
        rfl
  · cases hserver

/-- An abort of the ping task is asked for after the connection has unregistered. -/
theorem not_aborted (hs : s.server.Sound cfg)
    (hregistered : (s.server.conns c).reader.registered = true) :
    (s.server.conns c).abortRequested = false := by
  by_contra habort
  rcases (hs.ends c).2 (by simpa using habort) with h | h <;> rw [h] at hregistered <;>
    cases hregistered

/-- Its own tasks leave a connection paced. -/
theorem paced_own (h : s.Lively cfg delay late c) (hs : s.server.Sound cfg)
    (hpositive : 0 < cfg.pingInterval) (hfits : delay + cfg.pingInterval + late ≤ cfg.pingTimeout)
    (hstep : step cfg s e = some t) (hactor : Server.actor e = some c)
    (hregistered : (s.server.conns c).reader.registered = true) : t.Paced cfg delay late c := by
  obtain ⟨_, hserver, hentered, hdeadline, hasked⟩ := step_eq_some.mp hstep
  have hnow : t.server.now = s.server.now := by
    apply now_eq_step hserver
    rintro d rfl
    cases hactor
  cases e <;> simp only [Server.actor, Option.some.injEq, reduceCtorEq] at hactor <;> subst hactor
  case insert => exact paced_insert hstep
  case startPing => exact paced_startPing (h.paced hregistered) hpositive hstep
  case sample => exact paced_sample (h.paced hregistered) hstep
  case reap => exact paced_reap h hs hfits hregistered hstep
  case sendPing ts => exact paced_sendPing (h.paced hregistered) hstep
  case readerOp => exact paced_readerOp h hregistered hstep
  all_goals
    apply h.paced_of_ping hstep hregistered ?_ (congrFun hentered _) (congrFun hdeadline _)
      (congrFun hasked _) hnow
    apply (Server.ping_step hserver).resolve_right
    simp [not_aborted hs hregistered]

/-- The writer's end is all that can signal the reader of a responsive gauge. -/
theorem unsignalled_step (h : s.Lively cfg delay late c) (hs : s.server.Sound cfg)
    (hpositive : 0 < cfg.pingInterval) (hfits : delay + cfg.pingInterval + late ≤ cfg.pingTimeout)
    (hserver : Server.step cfg s.server e = some t.server)
    (hregistered : (s.server.conns c).reader.registered = true) :
    (t.server.conns c).signal = .pending ∨ (t.server.hub.channels c).closed = true := by
  rcases h.signal hregistered with hpending | hclosed
  · rcases Server.signalled_step (c := c) hserver with hsignal | ⟨_, hzero⟩ |
      ⟨now, _, hsampled, hdead⟩ | ⟨ts, err, rfl, herr⟩ | ⟨_, habort⟩
    · exact .inl (hsignal.trans hpending)
    · exact absurd hzero hpositive.ne'
    · exact absurd hdead (h.alive hs hfits hregistered hsampled)
    · obtain ⟨client, hclient, rfl⟩ := h.present hregistered
      exact .inr (Server.closed_step hserver (Server.closed_of_sendTo hclient herr))
    · rw [not_aborted hs hregistered] at habort
      cases habort
  · exact .inr (Server.closed_step hserver hclosed)

/-- A step in which the gauge is responsive keeps it lively. -/
theorem lively_step (h : s.Lively cfg delay late c) (hs : s.server.Sound cfg)
    (hpositive : 0 < cfg.pingInterval) (hfits : delay + cfg.pingInterval + late ≤ cfg.pingTimeout)
    (hbound : s.server.registrations ≤ 2 ^ 64) (hresponsive : s.Responsive cfg delay late c e)
    (hstep : step cfg s e = some t) : t.Lively cfg delay late c := by
  have hserver := (step_eq_some.mp hstep).2.1
  constructor
  · exact fun id => (Server.heard_step h.past hserver id).2
  · exact Server.early_step h.early hserver
  · exact present_step h hs hfits hbound hserver
  · intro hregistered
    rcases Server.registered_of_step hserver hregistered with hold | rfl
    · exact unsignalled_step h hs hpositive hfits hserver hold
    · left
      simp only [Server.step] at hserver
      split at hserver
      · next hreader =>
        rw [Option.some.injEq] at hserver
        rw [← hserver, Server.act_conns_self]
        exact (h.early (by rw [hreader]; rfl)).2
      · cases hserver
  · intro hregistered
    rcases Server.registered_of_step hserver hregistered with hold | rfl
    · by_cases hactor : Server.actor e = some c
      · exact paced_own h hs hpositive hfits hstep hactor hold
      · exact paced_other h hresponsive hstep hactor hold
    · exact paced_insert hstep

/-- Nobody has come yet. -/
theorem lively_init : init.Lively cfg delay late c := by
  constructor
  · intro id
    exact le_refl 0
  · intro _
    exact ⟨rfl, rfl⟩
  all_goals
    intro hregistered
    cases hregistered

/-- A run in which the gauge is responsive, and the counter of the ids does not wrap, keeps
it lively. -/
theorem lively_run {es : List ServerEvent} (hpositive : 0 < cfg.pingInterval)
    (hfits : delay + cfg.pingInterval + late ≤ cfg.pingTimeout)
    (hrun : Transition.run (step cfg) init es = some s)
    (hresponsive : Transition.Meets (step cfg) (Responsive cfg delay late c) init es) :
    s.server.Sound cfg ∧ (s.server.registrations ≤ 2 ^ 64 → s.Lively cfg delay late c) := by
  refine Transition.run_invariant_of_meets
    (I := fun s =>
      s.server.Sound cfg ∧ (s.server.registrations ≤ 2 ^ 64 → s.Lively cfg delay late c))
    ?_ hresponsive hrun ⟨Server.sound_init, fun _ => lively_init⟩
  intro s e t ⟨hs, h⟩ hP hstep
  have hserver := (step_eq_some.mp hstep).2.1
  refine ⟨Server.sound_step hs hserver, fun hbound => ?_⟩
  have hbefore := (Server.registrations_step hserver).trans hbound
  exact lively_step (h hbefore) hs hpositive hfits hbefore hP hstep

/-- A lively gauge is not reaped. -/
theorem Lively.unreaped (h : s.Lively cfg delay late c) (hs : s.server.Sound cfg)
    (hfits : delay + cfg.pingInterval + late ≤ cfg.pingTimeout) : s.server.Unreaped cfg c := by
  constructor
  · intro c' t client hstep htx hclient
    have hregistered : (s.server.conns c).reader.registered = true := by
      have howner := (hs.owner _ client hclient).2
      rwa [htx] at howner
    simp only [Server.step] at hstep
    split at hstep
    · next now hping =>
      have hclients : t.hub.clients =
          s.server.hub.clients.eraseAll (s.server.hub.deadClients now cfg.pingTimeout) := by
        split at hstep <;> cases hstep <;> rfl
      rw [hclients, Table.lookup_eraseAll, if_neg (h.alive hs hfits hregistered hping), hclient]
    · cases hstep
  · intro hserving hsignal
    apply (h.signal ?_).resolve_left hsignal
    cases hreader : (s.server.conns c).reader <;> simp_all [Reader.isServing, Reader.registered]

/-! ### Runs in which a responsive gauge is lost -/

/-- The clock and the intervals have no part in the event, nobody is asked or answers, and
no writer ends. -/
def untimed : ServerEvent → Bool
  | .startPing _ | .sample _ | .sendPing _ _ | .readerOp _ | .tick _ | .writerEnds _ => false
  | _ => true

/-- A run of such events needs no time and closes no channel. -/
theorem run_untimed (delay late : Duration) {es : List ServerEvent} {u : Server} (c : ℕ)
    (huntimed : ∀ e ∈ es, untimed e = true)
    (hrun : Transition.run (Server.step cfg) s.server es = some u) :
    ∃ entered, Transition.run (step cfg) s es = some ⟨u, entered, s.deadline, s.asked⟩ ∧
      Transition.Meets (step cfg) (Responsive cfg delay late c) s es ∧
      (u.hub.channels c).closed = (s.server.hub.channels c).closed := by
  induction es generalizing s with
  | nil =>
    rw [Transition.run_nil, Option.some.injEq] at hrun
    subst hrun
    exact ⟨s.entered, rfl, trivial, rfl⟩
  | cons e es ih =>
    obtain ⟨v, hv, hrest⟩ := Transition.run_cons_eq_some.mp hrun
    have he := huntimed e List.mem_cons_self
    have hstep : step cfg s e = some ⟨v, s.entries e, s.deadline, s.asked⟩ := by
      refine step_eq_some.mpr ⟨?_, hv, rfl, ?_, ?_⟩
      all_goals
        cases e <;> first | rfl | cases he
    have hresponsive : s.Responsive cfg delay late c e := by
      cases e <;> trivial
    have hwriter : e ≠ .writerEnds c := by
      rintro rfl
      cases he
    obtain ⟨entered, hrun', hmeets, hclosed⟩ := ih (s := ⟨v, s.entries e, s.deadline, s.asked⟩)
      (fun e' he' => huntimed e' (List.mem_cons_of_mem _ he')) hrest
    refine ⟨entered, Transition.run_cons_eq_some.mpr ⟨_, hstep, hrun'⟩, fun t ht => ?_,
      hclosed.trans (Server.closed_eq_step hv hwriter)⟩
    rw [hstep, Option.some.injEq] at ht
    subst ht
    exact ⟨hresponsive, hmeets⟩

/-- A ping task starts after a time, and samples the clock at its first tick after the immediate
one, which is late. -/
def ticksFirst (cfg : ServerConfig) (wait overdue : Duration) (c : ℕ) : List ServerEvent :=
  [.tick wait, .startPing c, .tick (cfg.pingInterval + overdue), .sample c]

/-- Until then nobody is asked, so the gauge is responsive. -/
theorem run_ticksFirst (delay wait : Duration) (cfg : ServerConfig) {overdue : Duration}
    (hpositive : 0 < cfg.pingInterval) (hping : (s.server.conns c).ping = .starting)
    (hasked : s.asked c = false)
    (hwait : 0 < wait → s.server.now + wait ≤ s.entered c + delay) (hoverdue : overdue ≤ late) :
    ∃ t, Transition.run (step cfg) s (ticksFirst cfg wait overdue c) = some t ∧
      Transition.Meets (step cfg) (Responsive cfg delay late c) s
        (ticksFirst cfg wait overdue c) ∧
      t.server.conns c = { s.server.conns c with
        ping := .sampled (s.server.now + wait + (cfg.pingInterval + overdue)) } ∧
      t.server.hub = s.server.hub ∧ t.server.registrations = s.server.registrations := by
  let waited : Timed := { s with server := { s.server with now := s.server.now + wait } }
  let started : Timed :=
    ⟨waited.server.act c fun k => { k with ping := .ticking }, s.entered,
      Function.update s.deadline c (waited.server.now + cfg.pingInterval), s.asked⟩
  let later : Timed := { started with
    server := { started.server with now := waited.server.now + (cfg.pingInterval + overdue) } }
  let ticked : Timed :=
    ⟨later.server.act c fun k => { k with ping := .sampled later.server.now }, s.entered,
      Function.update later.deadline c (later.deadline c + cfg.pingInterval), s.asked⟩
  have hwaited : step cfg s (.tick wait) = some waited := by
    rw [step_eq_some]
    exact ⟨rfl, rfl, rfl, rfl, rfl⟩
  have hstart : step cfg waited (.startPing c) = some started := by
    rw [step_eq_some]
    simp [Server.step, hping, hpositive.ne', due, entries, deadlines, unanswered, started, waited]
  have htick : step cfg started (.tick (cfg.pingInterval + overdue)) = some later := by
    rw [step_eq_some]
    exact ⟨rfl, rfl, rfl, rfl, rfl⟩
  have hsample : step cfg later (.sample c) = some ticked := by
    rw [step_eq_some]
    have hdue : waited.server.now + cfg.pingInterval ≤
        waited.server.now + (cfg.pingInterval + overdue) := by
      grind
    simp [Server.step, due, entries, deadlines, unanswered, started, later, ticked, Server.act,
      hdue]
  refine ⟨ticked, Transition.run_cons_eq_some.mpr ⟨waited, hwaited,
    Transition.run_cons_eq_some.mpr ⟨started, hstart, Transition.run_cons_eq_some.mpr
      ⟨later, htick, Transition.run_cons_eq_some.mpr ⟨ticked, hsample, rfl⟩⟩⟩⟩, ?_, ?_, rfl, rfl⟩
  · intro u hu
    rw [hwaited, Option.some.injEq] at hu
    subst hu
    refine ⟨fun hpos _ => ⟨hasked, ?_⟩, fun u hu => ?_⟩
    · rw [hping]
      exact hwait hpos
    rw [hstart, Option.some.injEq] at hu
    subst hu
    refine ⟨trivial, fun v hv => ⟨fun _ _ => ⟨hasked, ?_⟩, fun w hw => ⟨trivial, trivial⟩⟩⟩
    have hbefore : waited.server.now + (cfg.pingInterval + overdue) ≤
        waited.server.now + cfg.pingInterval + late := by
      grind
    simpa [started, Server.act] using hbefore
  · simp [ticked, later, started, waited, Server.act]

/-- A gauge connects. -/
def connects : List ServerEvent := [.accept 0, .fetchId 0, .insert 0]

/-- The state of the hub and of the connection of a gauge that connects. -/
theorem run_connects (cfg : ServerConfig) (delay late : Duration) :
    ∃ s client, Transition.run (step cfg) init connects = some s ∧
      Transition.Meets (step cfg) (Responsive cfg delay late 0) init connects ∧
      s.server.conns 0 = ⟨1, .serving [], .starting, .pending, false, 0, 0⟩ ∧
      s.server.now = 0 ∧ s.entered 0 = 0 ∧ s.server.registrations = 1 ∧
      s.server.hub.nextId = 2 ∧ (s.server.hub.channels 0).closed = false ∧ s.asked 0 = false ∧
      s.server.hub.clients.lookup 1 = some client ∧ client.tx = 0 ∧ client.lastSeen = 0 ∧
      ∀ k, 0 < k → (s.server.conns k).reader = .absent := by
  refine ⟨_, _, rfl, fun _ _ => ⟨trivial, fun _ _ => ⟨trivial, fun _ _ => ⟨trivial, trivial⟩⟩⟩,
    rfl, rfl, rfl, rfl, rfl, rfl, rfl, rfl, rfl, rfl, fun k hk => ?_⟩
  cases k with
  | zero => cases hk
  | succ k => rfl

/-- With an interval of zero the ping task drops the signal when it starts. -/
theorem reaped_of_zero (hzero : cfg.pingInterval = 0) :
    ∃ es s, Transition.run (step cfg) init es = some s ∧
      Transition.Meets (step cfg) (Responsive cfg delay late 0) init es ∧
      s.server.registrations ≤ 2 ^ 64 ∧ ¬s.server.Unreaped cfg 0 := by
  obtain ⟨s, client, hrun, hmeets, hconn, _, _, hregistrations, _, hopen, _⟩ :=
    run_connects cfg delay late
  let dropped : Timed :=
    ⟨s.server.act 0 fun k => { k with ping := .ended, signal := .dropped }, s.entered,
      Function.update s.deadline 0 (s.server.now + cfg.pingInterval), s.asked⟩
  have hstart : step cfg s (.startPing 0) = some dropped := by
    rw [step_eq_some]
    simp [Server.step, hconn, hzero, due, entries, deadlines, unanswered, dropped]
  refine ⟨connects ++ [.startPing 0], dropped,
    Transition.run_concat_eq_some.mpr ⟨s, hrun, hstart⟩,
    Transition.meets_append.mpr ⟨hmeets, fun _ _ => ?_⟩, ?_, fun h => ?_⟩
  · exact fun _ _ => ⟨trivial, trivial⟩
  · have hsame : dropped.server.registrations = 1 := hregistrations
    omega
  · have hclosed := h.unsignalled (by simp [dropped, hconn, Reader.isServing])
      (by simp [dropped])
    rw [Server.act_hub, hopen] at hclosed
    cases hclosed

/-- When the interval and what the ping task is late are longer than the timeout together, the
first tick of a connection finds its own client dead, before a ping has been sent. -/
theorem reaped_of_timeout_lt (hpositive : 0 < cfg.pingInterval)
    (hlonger : cfg.pingTimeout < delay + cfg.pingInterval + late) :
    ∃ es s, Transition.run (step cfg) init es = some s ∧
      Transition.Meets (step cfg) (Responsive cfg delay late 0) init es ∧
      s.server.registrations ≤ 2 ^ 64 ∧ ¬s.server.Unreaped cfg 0 := by
  obtain ⟨s, client, hrun, hmeets, hconn, hnow, hentered, hregistrations, _, hopen, hasked,
    hclient, htx, hseen, _⟩ := run_connects cfg delay late
  obtain ⟨t, hticks, hmeets', hsampled, hhub, hregs⟩ :=
    run_ticksFirst (c := 0) (s := s) delay delay cfg hpositive
      (by rw [hconn]) hasked (fun _ => by rw [hnow, hentered]) (le_refl late)
  have hid : (t.server.conns 0).id = 1 := by rw [hsampled, hconn]
  have hfound : t.server.hub.clients.lookup 1 = some client := by rw [hhub, hclient]
  have hsilent : cfg.pingTimeout < s.server.now + delay + (cfg.pingInterval + late) -
      client.lastSeen := by
    rw [hseen, hnow]
    grind
  have hdead := Server.dead_of_silent hfound hsilent
  obtain ⟨u, hreap, hclients⟩ : ∃ u, Server.step cfg t.server (.reap 0) = some u ∧
      u.hub.clients = t.server.hub.clients.eraseAll (t.server.hub.deadClients
        (s.server.now + delay + (cfg.pingInterval + late)) cfg.pingTimeout) := by
    simp only [Server.step, hsampled]
    split <;> exact ⟨_, rfl, rfl⟩
  refine ⟨connects ++ ticksFirst cfg delay late 0, t,
    Transition.run_append_eq_some.mpr ⟨s, hrun, hticks⟩,
    Transition.meets_append.mpr ⟨hmeets, fun u hu => ?_⟩, ?_, fun h => ?_⟩
  · rw [hrun, Option.some.injEq] at hu
    exact hu ▸ hmeets'
  · rw [hregs, hregistrations]
    omega
  · have hkept := h.kept 0 u client hreap htx (by rw [hid, hfound])
    rw [hid, hclients, Table.lookup_eraseAll, if_pos hdead] at hkept
    cases hkept

/-- The ping task of a connection that has lost its client signals the reader. -/
theorem run_lostPing (cfg : ServerConfig) (delay late : Duration) {now : Instant}
    (hsampled : (s.server.conns c).ping = .sampled now)
    (hlost : s.server.hub.clients.lookup (s.server.conns c).id = none) :
    ∃ t, Transition.run (step cfg) s [.reap c, .sendPing c 0] = some t ∧
      Transition.Meets (step cfg) (Responsive cfg delay late c) s [.reap c, .sendPing c 0] ∧
      (t.server.conns c).reader = (s.server.conns c).reader ∧
      (t.server.conns c).signal = .sent ∧ t.server.hub.channels = s.server.hub.channels := by
  have halive : (s.server.conns c).id ∉ s.server.hub.deadClients now cfg.pingTimeout := by
    intro hdead
    obtain ⟨client, hclient, _⟩ := Server.mem_deadClients hdead
    rw [hlost] at hclient
    cases hclient
  let reaped : Timed :=
    { s with server := ({ s.server with
      hub := (s.server.hub.reapDeadClients now cfg.pingTimeout).2 } : Server).act c fun k =>
        { k with ping := .pinging } }
  let signalled : Timed :=
    ⟨reaped.server.act c fun k => { k with ping := .ended, signal := .sent, ticks := k.ticks + 1 },
      s.entered, s.deadline, Function.update s.asked c true⟩
  have hreap : step cfg s (.reap c) = some reaped := by
    rw [step_eq_some]
    refine ⟨rfl, ?_, rfl, rfl, rfl⟩
    simp only [Server.step, hsampled]
    exact if_neg halive
  have hid : (reaped.server.conns c).id = (s.server.conns c).id := by
    simp only [reaped, Server.act_conns_self]
  have hgone : reaped.server.hub.clients.lookup (reaped.server.conns c).id = none := by
    rw [hid, Server.act_hub, Hub.reapDeadClients, Table.lookup_eraseAll, hlost, ite_self]
  have hsend : step cfg reaped (.sendPing c 0) = some signalled := by
    rw [step_eq_some]
    refine ⟨rfl, ?_, rfl, rfl, rfl⟩
    simp only [Server.step, Hub.sendTo, hgone]
    simp only [reaped, Server.act_conns_self, signalled]
  refine ⟨signalled, Transition.run_cons_eq_some.mpr ⟨reaped, hreap,
    Transition.run_cons_eq_some.mpr ⟨signalled, hsend, rfl⟩⟩,
    fun _ _ => ⟨trivial, fun _ _ => ⟨trivial, trivial⟩⟩, ?_, ?_, rfl⟩
  · simp only [signalled, reaped, Server.act_conns_self]
  · simp only [signalled, Server.act_conns_self]

/-- Gauges `1` to `n` draw their ids, and the last one registers and goes. -/
def overdraws (n : ℕ) : List ServerEvent :=
  Server.draws n ++ [.insert n, .receive n .close, .unregister n]

/-- Nobody needs the clock for it. -/
theorem overdraws_untimed (n : ℕ) : ∀ e ∈ overdraws n, untimed e = true := by
  intro e he
  simp only [overdraws, Server.draws, List.mem_append, List.mem_flatMap, List.mem_cons,
    List.not_mem_nil, or_false] at he
  rcases he with ⟨_, _, rfl | rfl⟩ | rfl | rfl | rfl <;> rfl

/-- If the last one has drawn the id of gauge `0`, the client of gauge `0` goes with it. -/
theorem run_overdraws (cfg : ServerConfig) {s : Server} {n : ℕ} (hn : 0 < n)
    (hnextId : s.hub.nextId < 2 ^ 64) (hwrap : (s.hub.nextId + n - 1) % 2 ^ 64 = (s.conns 0).id)
    (hfresh : ∀ k, 0 < k → (s.conns k).reader = .absent) :
    ∃ u, Transition.run (Server.step cfg) s (overdraws n) = some u ∧ u.conns 0 = s.conns 0 ∧
      u.hub.clients.lookup (s.conns 0).id = none := by
  obtain ⟨t, hrun, hzero, _, _, hlast⟩ := Server.run_draws cfg hnextId hfresh n
  obtain ⟨hgotId, hid⟩ := hlast hn
  rw [hwrap] at hid
  let inserted := ({ t with
    hub := t.hub.insertClient (t.conns n).id n t.now
    lastHeard := Function.update t.lastHeard (t.conns n).id t.now } : Server).act n fun k =>
      { k with reader := .serving [], ping := .starting }
  let closed := inserted.act n fun k => { k with reader := .leaving }
  let gone := ({ closed with
    hub := closed.hub.unregisterClient (closed.conns n).id } : Server).act n fun k =>
      { k with reader := .unregistered }
  have hinsert : Server.step cfg t (.insert n) = some inserted := by
    simp only [Server.step, hgotId, inserted]
  have hclose : Server.step cfg inserted (.receive n .close) = some closed := by
    simp only [Server.step, inserted, Server.act_conns_self, closed]
  have hgone : Server.step cfg closed (.unregister n) = some gone := by
    simp only [Server.step, closed, Server.act_conns_self, gone]
  have hother {u v : Server} {e : ServerEvent} (hstep : Server.step cfg u e = some v)
      (hactor : Server.actor e = some n) : v.conns 0 = u.conns 0 := by
    apply Server.conn_step_other hstep
    rw [hactor, ne_eq, Option.some.injEq]
    exact hn.ne'
  refine ⟨gone, Transition.run_append_eq_some.mpr ⟨t, hrun, Transition.run_cons_eq_some.mpr
    ⟨inserted, hinsert, Transition.run_cons_eq_some.mpr ⟨closed, hclose,
      Transition.run_cons_eq_some.mpr ⟨gone, hgone, rfl⟩⟩⟩⟩, ?_, ?_⟩
  · rw [hother hgone rfl, hother hclose rfl, hother hinsert rfl, hzero]
  · have hlast : (closed.conns n).id = (s.conns 0).id := by
      simp only [closed, inserted, Server.act_conns_self, hid]
    rw [Server.act_hub, Hub.unregisterClient, Table.lookup_erase_eq, hlast, if_pos rfl]

/-- When the counter of the ids wraps, another connection can take the client of a gauge
with it, and the next tick of the gauge signals its reader. -/
theorem reaped_of_overdraws (delay late : Duration) (hpositive : 0 < cfg.pingInterval) :
    ∃ es s, Transition.run (step cfg) init es = some s ∧
      Transition.Meets (step cfg) (Responsive cfg delay late 0) init es ∧
      ¬s.server.Unreaped cfg 0 := by
  obtain ⟨s, client, hrun, hmeets, hconn, _, _, _, hnextId, hopen, hasked, _, _, _, hfresh⟩ :=
    run_connects cfg delay late
  obtain ⟨n, hn, hwrap⟩ : ∃ n, 0 < n ∧ (2 + n - 1) % 2 ^ 64 = 1 :=
    ⟨2 ^ 64, by norm_num, by norm_num⟩
  obtain ⟨u, hdraws, hsame, hlost⟩ := run_overdraws cfg hn
    (by rw [hnextId]; norm_num) (by rw [hnextId, hconn, hwrap]) hfresh
  obtain ⟨entered, hdraws', hmeets₁, hclosed⟩ :=
    run_untimed delay late 0 (overdraws_untimed n) hdraws
  obtain ⟨t, hticks, hmeets₂, hsampled, hhub, _⟩ :=
    run_ticksFirst (c := 0) (s := ⟨u, entered, s.deadline, s.asked⟩) delay 0 cfg hpositive
      (by rw [hsame, hconn]) hasked (fun h => absurd h (lt_irrefl 0))
      (Nat.zero_le late)
  rw [hsame, hconn] at hsampled
  obtain ⟨v, hping, hmeets₃, hreader, hsignal, hchannels⟩ :=
    run_lostPing cfg delay late (c := 0) (s := t) (by rw [hsampled])
      (by rw [hsampled, hhub]; rwa [hconn] at hlost)
  refine ⟨connects ++ overdraws n ++ ticksFirst cfg 0 0 0 ++ [.reap 0, .sendPing 0 0], v,
    ?_, ?_, fun h => ?_⟩
  · exact Transition.run_append_eq_some.mpr ⟨t, Transition.run_append_eq_some.mpr
      ⟨_, Transition.run_append_eq_some.mpr ⟨s, hrun, hdraws'⟩, hticks⟩, hping⟩
  · refine Transition.meets_append.mpr ⟨Transition.meets_append.mpr
      ⟨Transition.meets_append.mpr ⟨hmeets, fun s' hs' => ?_⟩, fun u' hu' => ?_⟩, fun t' ht' => ?_⟩
    · rw [hrun, Option.some.injEq] at hs'
      exact hs' ▸ hmeets₁
    · rw [Transition.run_append_eq_some.mpr ⟨s, hrun, hdraws'⟩, Option.some.injEq] at hu'
      exact hu' ▸ hmeets₂
    · rw [Transition.run_append_eq_some.mpr
        ⟨_, Transition.run_append_eq_some.mpr ⟨s, hrun, hdraws'⟩, hticks⟩,
        Option.some.injEq] at ht'
      exact ht' ▸ hmeets₃
  · have hchannel := h.unsignalled (by rw [hreader, hsampled]; rfl) (by rw [hsignal]; decide)
    rw [hchannels, hhub, hclosed, hopen] at hchannel
    cases hchannel

/-- A gauge that answers each ping before the clock advances is never reaped in a run with at
most `2 ^ 64` registrations, whatever the other connections do, exactly when the interval is
positive and fits into the timeout together with the delay of the start of the gauge's ping
task and the lateness of its ticks. -/
theorem responsive_unreaped_iff (cfg : ServerConfig) (delay late : Duration) :
    (∀ es s c, Transition.run (step cfg) init es = some s →
      Transition.Meets (step cfg) (Responsive cfg delay late c) init es →
      s.server.registrations ≤ 2 ^ 64 → s.server.Unreaped cfg c) ↔
    0 < cfg.pingInterval ∧ delay + cfg.pingInterval + late ≤ cfg.pingTimeout := by
  constructor
  · intro h
    have hcontra {P : Prop} (hreaped : ∃ es s, Transition.run (step cfg) init es = some s ∧
        Transition.Meets (step cfg) (Responsive cfg delay late 0) init es ∧
        s.server.registrations ≤ 2 ^ 64 ∧ ¬s.server.Unreaped cfg 0) : P := by
      obtain ⟨es, s, hrun, hmeets, hbound, hnot⟩ := hreaped
      exact absurd (h es s 0 hrun hmeets hbound) hnot
    rcases Nat.eq_zero_or_pos cfg.pingInterval with hzero | hpositive
    · exact hcontra (reaped_of_zero hzero)
    · refine ⟨hpositive, ?_⟩
      by_contra hlonger
      exact hcontra (reaped_of_timeout_lt hpositive (not_le.mp hlonger))
  · rintro ⟨hpositive, hfits⟩ es s c hrun hresponsive hbound
    obtain ⟨hs, hlively⟩ := lively_run hpositive hfits hrun hresponsive
    exact (hlively hbound).unreaped hs hfits

/-- A configuration whose interval is longer than its timeout. -/
def slowPings : ServerConfig := ⟨20 * 10 ^ 9, 15 * 10 ^ 9⟩

/-- A gauge can be reaped although it is responsive, in a run with few registrations. -/
def ReapedEarly (cfg : ServerConfig) (delay late : Duration) : Prop :=
  ¬∀ es s c, Transition.run (step cfg) init es = some s →
    Transition.Meets (step cfg) (Responsive cfg delay late c) init es →
    s.server.registrations ≤ 2 ^ 64 → s.server.Unreaped cfg c

/-- That is so when the timeout is too short. -/
theorem reapedEarly_of_timeout_lt (hpositive : 0 < cfg.pingInterval)
    (hlonger : cfg.pingTimeout < delay + cfg.pingInterval + late) : ReapedEarly cfg delay late := by
  intro h
  obtain ⟨es, s, hrun, hmeets, hbound, hnot⟩ := reaped_of_timeout_lt hpositive hlonger
  exact hnot (h es s 0 hrun hmeets hbound)

/-- A responsive gauge is reaped when the interval is longer than the timeout, when its ping
task starts eleven seconds late under the default configuration or ticks that late, and,
under the default configuration, when the counter of the ids wraps. -/
theorem responsive_reaped :
    ReapedEarly slowPings 0 0 ∧ ReapedEarly Server.defaultConfig (11 * 10 ^ 9) 0 ∧
    ReapedEarly Server.defaultConfig 0 (11 * 10 ^ 9) ∧
    ¬∀ es s c, Transition.run (step Server.defaultConfig) init es = some s →
      Transition.Meets (step Server.defaultConfig) (Responsive Server.defaultConfig 0 0 c) init es →
      s.server.Unreaped Server.defaultConfig c := by
  refine ⟨reapedEarly_of_timeout_lt (by decide) (by decide),
    reapedEarly_of_timeout_lt (by decide) (by decide),
    reapedEarly_of_timeout_lt (by decide) (by decide), fun h => ?_⟩
  have hpositive : 0 < Server.defaultConfig.pingInterval := by decide
  obtain ⟨es, s, hrun, hmeets, hnot⟩ := reaped_of_overdraws 0 0 hpositive
  exact hnot (h es s 0 hrun hmeets)

end Timed

end InfinityBridge.Host
