import InfinityBridge.Host.Delivery
import InfinityBridge.Host.Responsive
import InfinityBridge.Library.Execution

/-!
# What is written to each connection

Every connection has a writer that takes the frames off its channel one by one. As long as it
goes on, what has been written on a connection and what is still queued for it is exactly what
was addressed to it, in order: an event and a command once to each client they reach, a ping
and a pong to their own connection only. A writer whose socket refuses a frame drops that one
and all that is queued, and nothing is addressed to its connection from then on.

Once a connection has unregistered, nobody holds its channel any more and its writer has only to
drain it, so that the wait for the writer ends.
-/

namespace InfinityBridge.Host

open Transition (Execution)

namespace Hub

variable {h : Hub} {p : Client → Bool} {tx : ℕ}

/-- A client of this kind has this channel. -/
def reaches (h : Hub) (p : Client → Bool) (tx : ℕ) : Bool :=
  h.clients.values.any fun k => p k && k.tx == tx

/-- A channel is reached when a client that is chosen has it. -/
theorem reaches_iff : h.reaches p tx = true ↔ ∃ k ∈ h.clients.values, p k = true ∧ k.tx = tx := by
  simp [reaches]

/-- A kind of clients is empty when it reaches no channel. -/
theorem exists_reaches_iff :
    (∃ tx, h.reaches p tx = true) ↔ ∃ k ∈ h.clients.values, p k = true := by
  simp only [reaches_iff]
  constructor
  · rintro ⟨tx, k, hk, hp, _⟩
    exact ⟨k, hk, hp⟩
  · rintro ⟨k, hk, hp⟩
    exact ⟨k.tx, k, hk, hp, rfl⟩

/-- Among distinct clients one has a channel at most. -/
theorem Distinct.replicate_count (hdistinct : h.Distinct) (p : Client → Bool) (tx : ℕ)
    (json : Text) : List.replicate (((h.clients.values.filter p).map (·.tx)).count tx) json =
      if h.reaches p tx then [json] else [] := by
  have hle : ((h.clients.values.filter p).map (·.tx)).count tx ≤ 1 :=
    ((List.filter_sublist.map _).count_le tx).trans (hdistinct.holders_le tx)
  split_ifs with hreaches
  · obtain ⟨k, hk, hp, htx⟩ := reaches_iff.mp hreaches
    have hmem : tx ∈ (h.clients.values.filter p).map (·.tx) :=
      List.mem_map.mpr ⟨k, List.mem_filter.mpr ⟨hk, hp⟩, htx⟩
    rw [le_antisymm hle (List.one_le_count_iff.mpr hmem)]
    rfl
  · rw [List.count_eq_zero.mpr]
    · rfl
    · intro hmem
      obtain ⟨k, hk, htx⟩ := List.mem_map.mp hmem
      obtain ⟨hk, hp⟩ := List.mem_filter.mp hk
      exact hreaches (reaches_iff.mpr ⟨k, hk, hp, htx⟩)

/-- `emit` enqueues as the delivery loop does when it passes over nobody, and counts the rest. -/
theorem sendAll_eq (json : Text) (cs : List Client) (h : Hub) (n m : ℕ) :
    (sendAll json cs (h, n)).1 = (deliverAll json false cs (h, m)).1 ∧
      (sendAll json cs (h, n)).2 + (deliverAll json false cs (h, m)).2 = n + m + cs.length := by
  induction cs generalizing h n m with
  | nil => exact ⟨rfl, rfl⟩
  | cons k cs ih =>
    cases hsend : h.send k.tx json with
    | none =>
      obtain ⟨hhub, hcount⟩ := ih h (n + 1) m
      simp only [sendAll, deliverAll, hsend, Bool.false_and, Bool.false_eq_true, if_false,
        List.length_cons]
      exact ⟨hhub, by omega⟩
    | some h' =>
      obtain ⟨hhub, hcount⟩ := ih h' n (m + 1)
      simp only [sendAll, deliverAll, hsend, Bool.false_and, Bool.false_eq_true, if_false,
        List.length_cons]
      exact ⟨hhub, by omega⟩

/-- When no client is ready, all live ones are chosen. -/
theorem accepts_false (h : Hub) : h.accepts false = h.live := by
  funext k
  simp [accepts]

/-- `emit` succeeds when a client is live, and enqueues the event on every live client. -/
theorem emit_spec (h : Hub) (name : String) (data : Value) :
    ((h.emit name data).1 = .ok () ↔ ∃ k ∈ h.clients.values, h.live k = true) ∧
      ∀ tx, ((h.emit name data).2.channels tx).queue = (h.channels tx).queue ++
        List.replicate (((h.clients.values.filter h.live).map (·.tx)).count tx)
          (WireMsg.event ⟨name, data⟩).toJson := by
  obtain ⟨hhub, hcount⟩ := sendAll_eq (WireMsg.event ⟨name, data⟩).toJson h.clients.values h 0 0
  obtain ⟨hlive, hqueue⟩ :=
    deliverAll_spec (WireMsg.event ⟨name, data⟩).toJson false h.clients.values h 0
  rw [accepts_false, Nat.zero_add] at hlive
  rw [accepts_false, ← hhub] at hqueue
  have hany : (∃ k ∈ h.clients.values, h.live k = true) ↔
      (h.clients.values.filter h.live).length ≠ 0 := by
    rw [ne_eq, List.length_eq_zero_iff, List.filter_eq_nil_iff]
    push Not
    rfl
  have hle := List.length_filter_le h.live h.clients.values
  rw [hany]
  unfold emit
  dsimp only
  split_ifs with hempty hfailed
  · have hnone := Table.values_eq_nil.mpr hempty
    refine ⟨iff_of_false (fun hok => by cases hok) (by simp [hnone]), fun tx => ?_⟩
    simp [hnone]
  · refine ⟨iff_of_false (fun hok => by cases hok) (by omega), hqueue⟩
  · have hpos : h.clients.values.length ≠ 0 := fun hzero =>
      hempty (Table.values_eq_nil.mp (List.length_eq_zero_iff.mp hzero))
    exact ⟨iff_of_true rfl (by omega), hqueue⟩

/-- A delivery succeeds when there is someone to enqueue on, and enqueues on all of them. -/
theorem deliver_spec (h : Hub) (json : Text) :
    ((∃ h', h.deliver json = .ok h') ↔ ∃ k ∈ h.clients.values, h.accepts h.isReady k = true) ∧
      ∀ tx, (((h.deliver json).toOption.getD h).channels tx).queue = (h.channels tx).queue ++
        List.replicate ((h.targets.map (·.tx)).count tx) json := by
  have htargets : (∃ k ∈ h.clients.values, h.accepts h.isReady k = true) ↔ h.targets ≠ [] := by
    rw [targets, ne_eq, List.filter_eq_nil_iff]
    push Not
    rfl
  rw [htargets]
  rcases h.deliver_cases json with ⟨hempty, herr⟩ | ⟨_, hnone, herr⟩ | ⟨_, hsome, h', hok, hqueue⟩
  · have hnone : h.targets = [] := by
      rw [targets, Table.values_eq_nil.mpr hempty, List.filter_nil]
    refine ⟨iff_of_false ?_ (not_not_intro hnone), fun tx => ?_⟩
    · rintro ⟨h', hok⟩
      rw [herr] at hok
      cases hok
    · simp [herr, hnone, Except.toOption]
  · refine ⟨iff_of_false ?_ (not_not_intro hnone), fun tx => ?_⟩
    · rintro ⟨h', hok⟩
      rw [herr] at hok
      cases hok
    · simp [herr, hnone, Except.toOption]
  · refine ⟨iff_of_true ⟨h', hok⟩ hsome, fun tx => ?_⟩
    rw [hok]
    exact hqueue tx

end Hub

namespace Server

variable {cfg : ServerConfig} {s t : Server} {e : ServerEvent} {c : ℕ}

/-- What a step addresses to connection `c`. -/
def addressed (c : ℕ) (s : Server) : ServerEvent → List Text
  | .emit name data =>
    if s.hub.reaches s.hub.live c then [(WireMsg.event ⟨name, data⟩).toJson] else []
  | .deliver json => if s.hub.reaches (s.hub.accepts s.hub.isReady) c then [json] else []
  | .sendPing c' ts =>
    if c' = c ∧ s.hub.reaches s.hub.live c then [(WireMsg.ping (some ts)).toJson] else []
  | .readerOp c' =>
    match (s.conns c').reader with
    | .serving (.sendTo json :: _) =>
      if c' = c ∧ s.hub.reaches s.hub.live c then [json] else []
    | _ => []
  | _ => []

/-- What the writer of connection `c` takes off its channel. -/
def written (c : ℕ) (s : Server) : ServerEvent → List Text
  | .writerSends c' => if c' = c then (s.hub.channels c).queue.head?.toList else []
  | _ => []

/-- Two clients have two channels, since a channel is its connection's own. -/
theorem Sound.distinct (hs : Sound cfg s) : s.hub.Distinct := by
  intro id id' k k' hk hk' htx
  have hid := (hs.owner id k hk).1
  have hid' := (hs.owner id' k' hk').1
  rw [← hid, ← hid', htx]

/-- A frame for the id of a connection goes to that connection. -/
theorem sendTo_queue (hs : Sound cfg s) (hbound : s.registrations ≤ 2 ^ 64) {c' : ℕ}
    (hdrawn : (s.conns c').reader.drawn = true) (json : Text) (c : ℕ) :
    (((s.hub.sendTo (s.conns c').id json).toOption.getD s.hub).channels c).queue =
      (s.hub.channels c).queue ++
        if c' = c ∧ s.hub.reaches s.hub.live c then [json] else [] := by
  have hown {id : ℕ} {k : Client} (hk : s.hub.clients.lookup id = some k) :
      id = (s.conns c').id ↔ k.tx = c' := by
    obtain ⟨hid, hregistered⟩ := hs.owner id k hk
    constructor
    · rintro rfl
      exact hs.id_injective hbound (Reader.drawn_of_registered hregistered) hdrawn hid
    · rintro rfl
      exact hid.symm
  cases hlookup : s.hub.clients.lookup (s.conns c').id with
  | none =>
    have hnobody : ¬(c' = c ∧ s.hub.reaches s.hub.live c = true) := by
      rintro ⟨rfl, hreaches⟩
      obtain ⟨k, hk, _, htx⟩ := Hub.reaches_iff.mp hreaches
      obtain ⟨id, hid⟩ := Table.mem_values_iff.mp hk
      rw [(hown hid).mpr htx, hlookup] at hid
      cases hid
    simp [Hub.sendTo, hlookup, Except.toOption, hnobody]
  | some k =>
    have htx : k.tx = c' := (hown hlookup).mp rfl
    have hreaches : c' = c → (s.hub.reaches s.hub.live c = true ↔ s.hub.live k = true) := by
      rintro rfl
      rw [Hub.reaches_iff]
      constructor
      · rintro ⟨k', _, hlive, htx'⟩
        rw [Hub.live, htx, ← htx']
        exact hlive
      · exact fun hlive => ⟨k, Table.mem_values_iff.mpr ⟨_, hlookup⟩, hlive, htx⟩
    cases hsend : s.hub.send k.tx json with
    | none =>
      have hclosed : s.hub.live k = false := by
        unfold Hub.send at hsend
        split_ifs at hsend with hclosed
        simp [Hub.live, hclosed]
      have hnobody : ¬(c' = c ∧ s.hub.reaches s.hub.live c = true) := by
        rintro ⟨hc, hany⟩
        rw [hreaches hc, hclosed] at hany
        cases hany
      simp [Hub.sendTo, hlookup, hsend, Except.toOption, hnobody]
    | some hub =>
      have hopen : s.hub.live k = true := by
        unfold Hub.send at hsend
        split_ifs at hsend with hclosed
        simp [Hub.live, hclosed]
      have hok : s.hub.sendTo (s.conns c').id json = .ok hub := by
        simp only [Hub.sendTo, hlookup, hsend]
      have hqueue := Hub.send_queue hsend c
      rw [htx] at hqueue
      simp only [hok, Except.toOption, Option.getD_some, hqueue]
      by_cases hc : c' = c
      · simp [hc, (hreaches hc).mpr hopen]
      · simp [hc, Ne.symm hc]

/-- Nothing is addressed to a connection whose writer has ended. -/
theorem addressed_eq_nil (hclosed : (s.hub.channels c).closed = true) (e : ServerEvent) :
    s.addressed c e = [] := by
  have hlive : s.hub.reaches s.hub.live c = false := by
    rw [Bool.eq_false_iff, ne_eq, Hub.reaches_iff]
    rintro ⟨k, _, hlive, rfl⟩
    simp [Hub.live, hclosed] at hlive
  have haccepts : s.hub.reaches (s.hub.accepts s.hub.isReady) c = false := by
    rw [Bool.eq_false_iff, ne_eq, Hub.reaches_iff]
    rintro ⟨k, _, haccepts, rfl⟩
    simp [Hub.accepts, Hub.live, hclosed] at haccepts
  cases e <;> simp [addressed, hlive, haccepts]
  split <;> rfl

/-- What a step writes is taken off the channel, and what it addresses is put on it, unless
the writer ends. -/
theorem queue_step (hs : Sound cfg s) (hbound : s.registrations ≤ 2 ^ 64)
    (hearly : ∀ c, (s.conns c).reader.entered = false → (s.conns c).ping = .absent)
    (hstep : step cfg s e = some t) (c : ℕ) (hwriter : e ≠ .writerEnds c) :
    s.written c e ++ (t.hub.channels c).queue = (s.hub.channels c).queue ++ s.addressed c e := by
  cases e <;> simp only [step] at hstep
  case emit name data =>
    cases hstep
    simp only [written, addressed, List.nil_append]
    rw [(s.hub.emit_spec name data).2, hs.distinct.replicate_count]
  case deliver json =>
    cases hstep
    simp only [written, addressed, List.nil_append]
    rw [(s.hub.deliver_spec json).2, Hub.targets, hs.distinct.replicate_count]
  case sendPing c' ts =>
    split at hstep
    case h_2 => cases hstep
    next hping =>
    have hdrawn : (s.conns c').reader.drawn = true := by
      refine Reader.drawn_of_entered ?_
      by_contra hnot
      rw [hearly c' (by simpa using hnot)] at hping
      cases hping
    have hqueue := sendTo_queue hs hbound hdrawn (WireMsg.ping (some ts)).toJson c
    simp only [written, addressed, List.nil_append, ← hqueue]
    split at hstep
    · next hub hok =>
      cases hstep
      simp [hok, Except.toOption]
    · next err herr =>
      cases hstep
      simp [herr, Except.toOption]
  case readerOp c' =>
    split at hstep
    case h_2 => cases hstep
    next op ops hreader =>
    cases hstep
    have hdrawn : (s.conns c').reader.drawn = true := by
      rw [hreader]
      rfl
    simp only [written, addressed, hreader, List.nil_append]
    cases op with
    | sendTo json => exact sendTo_queue hs hbound hdrawn json c
    | _ => exact (List.append_nil _).symm
  case writerSends c' =>
    cases hstep
    simp only [written, addressed, Hub.popChannel, List.append_nil]
    by_cases hc : c = c'
    · subst hc
      cases (s.hub.channels c).queue <;> simp
    · simp [hc, Ne.symm hc]
  case writerEnds c' =>
    have hc : c ≠ c' := fun h => hwriter (by rw [h])
    split at hstep <;> cases hstep
    simp [written, addressed, Hub.closeChannel, hc]
  all_goals
    (repeat' split at hstep) <;> cases hstep <;> exact (List.append_nil _).symm

/-! ### Runs -/

/-- A writer that ends drops what is queued for it. -/
theorem channel_of_writerEnds (hstep : step cfg s (.writerEnds c) = some t) :
    t.hub.channels c = ⟨[], true⟩ := by
  simp only [step] at hstep
  split at hstep <;> cases hstep
  simp [Hub.closeChannel]

/-- What was addressed to a connection has been written on it, is queued for it, or was dropped
with its writer, in every state of a run without a wrap of the ids. -/
structure Balanced (cfg : ServerConfig) (c : ℕ) (s : Server) (writes addresses : List Text) :
    Prop where
  sound : Sound cfg s
  early : ∀ c, (s.conns c).reader.entered = false →
    (s.conns c).ping = .absent ∧ (s.conns c).signal = .pending
  balance : s.registrations ≤ 2 ^ 64 → ∃ dropped,
    writes ++ (s.hub.channels c).queue ++ dropped = addresses ∧
    ((s.hub.channels c).closed = false → dropped = []) ∧
    ((s.hub.channels c).closed = true → (s.hub.channels c).queue = [])

/-- At the start nothing has been addressed. -/
theorem balanced_init (cfg : ServerConfig) (c : ℕ) : Balanced cfg c init [] [] where
  sound := sound_init
  early _ _ := ⟨rfl, rfl⟩
  balance _ := ⟨[], rfl, fun _ => rfl, fun _ => rfl⟩

/-- Every step keeps the balance. -/
theorem balanced_step {writes addresses : List Text} (h : Balanced cfg c s writes addresses)
    (hstep : step cfg s e = some t) :
    Balanced cfg c t (writes ++ s.written c e) (addresses ++ s.addressed c e) := by
  refine ⟨sound_step h.sound hstep, fun c => early_step (h.early c) hstep, fun hbound => ?_⟩
  have hbound' := (registrations_step hstep).trans hbound
  obtain ⟨dropped, hbalance, hopen, hclosed⟩ := h.balance hbound'
  by_cases hwriter : e = .writerEnds c
  · -- the queue goes with the writer
    subst hwriter
    rw [channel_of_writerEnds hstep]
    refine ⟨(s.hub.channels c).queue ++ dropped, ?_, nofun, fun _ => rfl⟩
    simp [written, addressed, ← hbalance]
  have hqueue := queue_step h.sound hbound' (fun c hc => (h.early c hc).1) hstep c hwriter
  rw [closed_eq_step hstep hwriter]
  cases hchannel : (s.hub.channels c).closed with
  | false =>
    obtain rfl := hopen hchannel
    refine ⟨[], ?_, fun _ => rfl, nofun⟩
    rw [List.append_nil] at hbalance ⊢
    rw [List.append_assoc, hqueue, ← List.append_assoc, hbalance]
  | true =>
    rw [hclosed hchannel, addressed_eq_nil hchannel, List.append_nil,
      List.append_eq_nil_iff] at hqueue
    refine ⟨dropped, ?_, nofun, fun _ => hqueue.2⟩
    rw [hqueue.1, hqueue.2, addressed_eq_nil hchannel, List.append_nil, List.append_nil,
      List.append_nil, ← hbalance, hclosed hchannel, List.append_nil]

/-- What is written in a run that ends in `s` is what was addressed. -/
structure WrittenAsAddressed (cfg : ServerConfig) (es : List ServerEvent) (s : Server) : Prop where
  /-- Nothing is made up, doubled or out of order. -/
  initial : ∀ c, Transition.trace (step cfg) (written c) init es <+:
    Transition.trace (step cfg) (addressed c) init es
  /-- As long as the writer goes on, what is not yet written is queued. -/
  queued : ∀ c, (s.hub.channels c).closed = false →
    Transition.trace (step cfg) (written c) init es ++ (s.hub.channels c).queue =
      Transition.trace (step cfg) (addressed c) init es
  /-- After that the queue is gone, and nothing more is addressed to the connection. -/
  ended : ∀ c, (s.hub.channels c).closed = true →
    (s.hub.channels c).queue = [] ∧ ∀ e, s.addressed c e = []
  /-- An emission succeeds when it is addressed to some connection, and so does a delivery. -/
  emitted : ∀ name data, (s.hub.emit name data).1 = .ok () ↔
    ∃ c, s.addressed c (.emit name data) ≠ []
  delivered : ∀ json, (∃ hub, s.hub.deliver json = .ok hub) ↔
    ∃ c, s.addressed c (.deliver json) ≠ []

/-- With at most `2 ^ 64` registrations, what is written on each connection is what was
addressed to it, up to what a broken writer drops. -/
theorem outbound_exact {es : List ServerEvent}
    (hrun : Transition.run (step cfg) init es = some s) (hbound : s.registrations ≤ 2 ^ 64) :
    WrittenAsAddressed cfg es s := by
  have hbalanced (c : ℕ) := (Transition.run_traces
    (I := fun s writes addresses => Balanced cfg c s writes addresses)
    (fun _ _ _ _ _ h hstep => balanced_step h hstep) hrun (balanced_init cfg c)).balance hbound
  constructor
  case initial =>
    intro c
    obtain ⟨dropped, hbalance, _⟩ := hbalanced c
    exact ⟨(s.hub.channels c).queue ++ dropped, by rw [← List.append_assoc, hbalance]⟩
  case queued =>
    intro c hchannel
    obtain ⟨dropped, hbalance, hopen, _⟩ := hbalanced c
    rwa [hopen hchannel, List.append_nil] at hbalance
  case ended =>
    intro c hchannel
    obtain ⟨_, _, _, hclosed⟩ := hbalanced c
    exact ⟨hclosed hchannel, addressed_eq_nil hchannel⟩
  case emitted =>
    intro name data
    rw [(s.hub.emit_spec name data).1, ← Hub.exists_reaches_iff]
    refine exists_congr fun c => ?_
    cases hreaches : s.hub.reaches s.hub.live c <;> simp [addressed, hreaches]
  case delivered =>
    intro json
    rw [(s.hub.deliver_spec json).1, ← Hub.exists_reaches_iff]
    refine exists_congr fun c => ?_
    cases hreaches : s.hub.reaches (s.hub.accepts s.hub.isReady) c <;> simp [addressed, hreaches]

/-- The writer of connection `c` takes a frame off its channel. -/
def isWrite (c : ℕ) : ServerEvent → Bool
  | .writerSends c' => c' == c
  | _ => false

/-- Nothing is put on a channel that no client has. -/
theorem unheld_step (hunheld : s.hub.holders c = 0) (hstep : step cfg s e = some t)
    (hwriter : e ≠ .writerEnds c) :
    (t.hub.channels c).queue = (s.hub.channels c).queue.drop (if isWrite c e then 1 else 0) := by
  have hnone {json : Text} {hub : Hub}
      (h : Hub.Enqueued json c (s.hub.holders c) s.hub hub) :
      (hub.channels c).queue = (s.hub.channels c).queue := by
    obtain ⟨n, hn, hqueue⟩ := h
    rw [hunheld, Nat.le_zero] at hn
    rw [hqueue, hn, List.replicate_zero, List.append_nil]
  cases e <;> simp only [step] at hstep
  case emit name data =>
    cases hstep
    exact hnone (s.hub.emit_enqueued name data c)
  case deliver json =>
    cases hstep
    cases hok : s.hub.deliver json with
    | error err => rfl
    | ok hub => exact hnone (Hub.deliver_enqueued hok c)
  case sendPing c' ts =>
    have hqueue := hnone (s.hub.sendTo_enqueued (s.conns c').id (WireMsg.ping (some ts)).toJson c)
    split at hstep
    · split at hstep
      · next hub hok =>
        cases hstep
        rw [hok] at hqueue
        exact hqueue
      · cases hstep
        rfl
    · cases hstep
  case readerOp c' =>
    split at hstep
    case h_2 => cases hstep
    next op ops hreader =>
    cases hstep
    cases op with
    | sendTo json => exact hnone (s.hub.sendTo_enqueued (s.conns c').id json c)
    | _ => rfl
  case writerSends c' =>
    cases hstep
    by_cases hc : c = c'
    · subst hc
      simp [Hub.popChannel, isWrite]
    · simp [Hub.popChannel, isWrite, hc, Ne.symm hc]
  case writerEnds c' =>
    have hc : c ≠ c' := fun h => hwriter (by rw [h])
    split at hstep <;> cases hstep
    simp [Hub.closeChannel, isWrite, hc]
  all_goals
    (repeat' split at hstep) <;> cases hstep <;> rfl

/-- A connection has unregistered. -/
def Gone (c : ℕ) (s : Server) : Prop :=
  (s.conns c).reader.entered = true ∧ (s.conns c).reader.registered = false

/-- A connection that has unregistered does not come back. -/
theorem gone_step (h : s.Gone c) (hstep : step cfg s e = some t) : t.Gone c := by
  refine ⟨entered_step hstep h.1, ?_⟩
  by_contra hnot
  rcases registered_of_step hstep (by simpa using hnot) with hbefore | rfl
  · rw [h.2] at hbefore
    cases hbefore
  · have hentered := h.1
    simp only [step] at hstep
    split at hstep
    · next hreader =>
      rw [hreader] at hentered
      cases hentered
    · cases hstep

/-- No client has the channel of a connection that has unregistered. -/
theorem Sound.ne_of_gone (hs : Sound cfg s) (hgone : s.Gone c) {id : ℕ} {k : Client}
    (hk : s.hub.clients.lookup id = some k) : k.tx ≠ c := by
  rintro rfl
  have hregistered := hgone.2
  rw [(hs.owner id k hk).2] at hregistered
  cases hregistered

/-- Nothing is put on the channel of a connection that has unregistered. -/
theorem Sound.gone_queue (hs : Sound cfg s) (hgone : s.Gone c) (hstep : step cfg s e = some t)
    (hwriter : e ≠ .writerEnds c) : (t.hub.channels c).queue =
      (s.hub.channels c).queue.drop (if isWrite c e then 1 else 0) :=
  unheld_step (Hub.holders_eq_zero fun _ _ hk => hs.ne_of_gone hgone hk) hstep hwriter

/-- Once a connection has unregistered, nobody has its channel, and it only becomes shorter. As
long as the writer goes on, it is shorter by what the writer has taken off it. -/
theorem gone_run {es : List ServerEvent} (hs : Sound cfg s) (hgone : s.Gone c)
    (hrun : Transition.run (step cfg) s es = some t) :
    Sound cfg t ∧ t.Gone c ∧ (t.hub.channels c).queue <:+ (s.hub.channels c).queue ∧
      ((t.hub.channels c).closed = false →
        (t.hub.channels c).queue = (s.hub.channels c).queue.drop (es.countP (isWrite c))) := by
  induction es generalizing s with
  | nil =>
    rw [Transition.run_nil, Option.some.injEq] at hrun
    subst hrun
    exact ⟨hs, hgone, List.suffix_refl _, fun _ => rfl⟩
  | cons e es ih =>
    obtain ⟨u, hu, hrest⟩ := Transition.run_cons_eq_some.mp hrun
    obtain ⟨hs', hgone', hsuffix, hqueue⟩ := ih (sound_step hs hu) (gone_step hgone hu) hrest
    refine ⟨hs', hgone', ?_, fun hopen => ?_⟩
    · refine hsuffix.trans ?_
      by_cases hwriter : e = .writerEnds c
      · subst hwriter
        rw [channel_of_writerEnds hu]
        exact List.nil_suffix
      · rw [hs.gone_queue hgone hu hwriter]
        exact List.drop_suffix _ _
    · have hwriter : e ≠ .writerEnds c := by
        rintro rfl
        have hclosed := Transition.run_invariant
          (I := fun s : Server => (s.hub.channels c).closed = true)
          (fun _ _ _ h hstep => closed_step hstep h) hrest (by rw [channel_of_writerEnds hu])
        rw [hopen] at hclosed
        cases hclosed
      rw [hqueue hopen, hs.gone_queue hgone hu hwriter, List.drop_drop, List.countP_cons,
        Nat.add_comm]

/-! ### The wait for the writer -/

/-- `out_rx.recv()` returns `None`: nothing is queued, and the senders are dropped, those in
the table of the clients and that of the read loop. -/
def Drained (c : ℕ) (s : Server) : Prop :=
  (s.hub.channels c).queue = [] ∧ (∀ id k, s.hub.clients.lookup id = some k → k.tx ≠ c) ∧
    (s.conns c).reader = .closing

/-- The writer has a frame in hand, which its socket takes or refuses, or it ends because
nothing can come any more. -/
def WriterMoves (c : ℕ) (s : Server) (e : ServerEvent) : Prop :=
  (e = .writerSends c ∧ (s.hub.channels c).queue ≠ []) ∨
    (e = .writerEnds c ∧ ((s.hub.channels c).queue ≠ [] ∨ s.Drained c))

/-- What the read loop does once it has unregistered. -/
def Leaves (c : ℕ) (_ : Server) (e : ServerEvent) : Prop := e = .abortPing c ∨ e = .finish c

/-- After it has unregistered, the read loop aborts its ping task, and then returns. -/
theorem gone_cases (h : s.Gone c) : (s.conns c).reader = .unregistered ∨
    (s.conns c).reader = .closing ∨ (s.conns c).reader = .returned := by
  obtain ⟨hentered, hregistered⟩ := h
  cases hreader : (s.conns c).reader <;>
    simp_all [Reader.entered, Reader.registered]

/-- The read loop leaves the state in which it is by a step of its own. -/
theorem reader_of_gone_step (h : s.Gone c) (hstep : step cfg s e = some t) :
    (t.conns c).reader = (s.conns c).reader ∨
      (e = .abortPing c ∧ (t.conns c).reader = .closing) ∨
      (e = .finish c ∧ (t.conns c).reader = .returned) := by
  rcases conn_step c hstep with ⟨-, hsame⟩ | hown
  · exact .inl (by rw [hsame])
  · have hcases := gone_cases h
    generalize t.conns c = k at hown ⊢
    cases hown <;> simp_all

/-- The read loop can abort its ping task when it has unregistered. -/
theorem exists_abortPing (cfg : ServerConfig) (h : (s.conns c).reader = .unregistered) :
    ∃ t, step cfg s (.abortPing c) = some t ∧ (t.conns c).reader = .closing :=
  ⟨s.act c fun k => { k with reader := .closing, abortRequested := true }, by simp only [step, h],
    by rw [act_conns_self]⟩

/-- The read loop can return when its writer has ended. -/
theorem exists_finish (cfg : ServerConfig) (h : (s.conns c).reader = .closing)
    (hclosed : (s.hub.channels c).closed = true) :
    ∃ t, step cfg s (.finish c) = some t ∧ (t.conns c).reader = .returned :=
  ⟨s.act c fun k => { k with reader := .returned }, by simp only [step, h, hclosed, if_true],
    by rw [act_conns_self]⟩

section Waiting

variable {x : Execution (step cfg) s} {n : ℕ}

/-- A connection that has unregistered comes to wait for its writer, or has returned. -/
theorem exists_closing (hgone : ∀ n, (x.state n).Gone c) (hleaves : x.Fair (Leaves c))
    (hnot : ∀ n, ((x.state n).conns c).reader ≠ .returned) :
    ∃ n, ((x.state n).conns c).reader = .closing := by
  by_contra hnone
  push Not at hnone
  have hwaits (n : ℕ) : ((x.state n).conns c).reader = .unregistered :=
    (gone_cases (hgone n)).resolve_right (not_or.mpr ⟨hnone n, hnot n⟩)
  obtain ⟨m, -, heq | heq⟩ := hleaves.taken (n := 0) fun m _ => by
    obtain ⟨t, ht, _⟩ := exists_abortPing cfg (hwaits m)
    exact ⟨.abortPing c, t, .inl rfl, ht⟩
  · obtain ⟨t, ht, hreader⟩ := exists_abortPing cfg (hwaits m)
    have hnext := x.next m
    rw [heq, ht, Option.some.injEq] at hnext
    exact hnone (m + 1) (hnext ▸ hreader)
  · have hnext := x.next m
    rw [heq] at hnext
    simp [step, hwaits m] at hnext

/-- The writer of a connection that waits for it ends: it is there no longer once it has sent
what is queued, or its socket has refused a frame. -/
theorem exists_closed (hs : ∀ n, Sound cfg (x.state n)) (hgone : ∀ n, (x.state n).Gone c)
    (hwriter : x.Fair (WriterMoves c))
    (hclosing : ∀ m ≥ n, ((x.state m).conns c).reader = .closing) :
    ∃ m ≥ n, ((x.state m).hub.channels c).closed = true := by
  by_contra hnone
  push Not at hnone
  have hgoes (m : ℕ) (hm : m ≥ n) : x.event m ≠ .writerEnds c := by
    intro heq
    have hnext := x.next m
    rw [heq] at hnext
    exact hnone (m + 1) (hm.le.trans m.le_succ) (by rw [channel_of_writerEnds hnext])
  have hqueue (m : ℕ) (hm : m ≥ n) := (hs m).gone_queue (hgone m) (x.next m) (hgoes m hm)
  obtain ⟨m, hm, hsettled⟩ := x.exists_settled
    (f := fun s : Server => (s.hub.channels c).queue.length) id n fun m hm => by
      simp only [hqueue m hm, List.length_drop, id]
      omega
  -- from here on the queue stays as it is, though the writer can go on
  obtain ⟨k, hk, hmoves⟩ := hwriter.taken (n := m) fun k hk => by
    by_cases hempty : ((x.state k).hub.channels c).queue = []
    · have hreader := hclosing k (hm.le.trans hk)
      have hends : step cfg (x.state k) (.writerEnds c) =
          some { x.state k with hub := (x.state k).hub.closeChannel c } := by
        simp only [step, hreader]
      exact ⟨.writerEnds c, _, .inr ⟨rfl, .inr ⟨hempty,
        fun _ _ h => (hs k).ne_of_gone (hgone k) h, hreader⟩⟩, hends⟩
    · exact ⟨.writerSends c, _, .inl ⟨rfl, hempty⟩, rfl⟩
  rcases hmoves with ⟨heq, hne⟩ | ⟨heq, -⟩
  · have hsame := (hsettled (k + 1) (hk.le.trans k.le_succ)).trans (hsettled k hk).symm
    have hpos := List.length_pos_iff.mpr hne
    simp only [hqueue k (hm.le.trans hk), heq, isWrite, List.length_drop, BEq.rfl, if_true] at hsame
    omega
  · exact hgoes k (hm.le.trans hk) heq

/-- The read loop of a connection that has unregistered returns. -/
theorem exists_returned (hs : ∀ n, Sound cfg (x.state n)) (hgone : ∀ n, (x.state n).Gone c)
    (hleaves : x.Fair (Leaves c)) (hwriter : x.Fair (WriterMoves c)) :
    ∃ n, ((x.state n).conns c).reader = .returned := by
  by_contra hnot
  push Not at hnot
  obtain ⟨n, hn⟩ := exists_closing hgone hleaves hnot
  have hclosing := x.persists (P := fun s : Server => (s.conns c).reader = .closing) (n := n)
    (fun m _ h => by
      rcases reader_of_gone_step (hgone m) (x.next m) with hsame | ⟨_, hnext⟩ | ⟨_, hnext⟩
      · exact hsame.trans h
      · exact hnext
      · exact absurd hnext (hnot (m + 1))) hn
  obtain ⟨m, hm, hclosed⟩ := exists_closed hs hgone hwriter hclosing
  have hstays := x.persists (P := fun s : Server => (s.hub.channels c).closed = true) (n := m)
    (fun k _ h => closed_step (x.next k) h) hclosed
  have hfinish (k : ℕ) (hk : k ≥ m) :=
    exists_finish cfg (hclosing k (hm.le.trans hk)) (hstays k hk)
  obtain ⟨k, hk, heq | heq⟩ := hleaves.taken (n := m) fun k hk => by
    obtain ⟨t, ht, _⟩ := hfinish k hk
    exact ⟨.finish c, t, .inr rfl, ht⟩
  · have hnext := x.next k
    rw [heq] at hnext
    simp [step, hclosing k (hm.le.trans hk)] at hnext
  · obtain ⟨t, ht, hreader⟩ := hfinish k hk
    have hnext := x.next k
    rw [heq, ht, Option.some.injEq] at hnext
    exact hnot (k + 1) (hnext ▸ hreader)

end Waiting

/-- Once a connection has unregistered, no client holds its channel, in any run and whatever its
ping task still does: nothing is put on it any more, and as long as the writer goes on it
has taken off it what is missing. When the writer and the read loop go on as they can, the
wait for the writer ends. -/
theorem writer_drains {es : List ServerEvent}
    (hrun : Transition.run (step cfg) init es = some s) (hgone : s.Gone c) :
    (∀ es' t, Transition.run (step cfg) s es' = some t →
      (∀ id k, t.hub.clients.lookup id = some k → k.tx ≠ c) ∧
      (t.hub.channels c).queue <:+ (s.hub.channels c).queue ∧
      ((t.hub.channels c).closed = false →
        (t.hub.channels c).queue = (s.hub.channels c).queue.drop (es'.countP (isWrite c)))) ∧
    ∀ x : Execution (step cfg) s, x.Fair (Leaves c) → x.Fair (WriterMoves c) →
      ∃ n, ((x.state n).conns c).reader = .returned := by
  have hs := sound_run hrun
  refine ⟨fun es' t hrest => ?_, fun x hleaves hwriter => ?_⟩
  · obtain ⟨hs', hgone', hsuffix, hqueue⟩ := gone_run hs hgone hrest
    exact ⟨fun id k hk => hs'.ne_of_gone hgone' hk, hsuffix, hqueue⟩
  · have hlater (n : ℕ) := gone_run hs hgone (x.run_eventsTo n)
    exact exists_returned (fun n => (hlater n).1) (fun n => (hlater n).2.1) hleaves hwriter

/-- Two gauges, the second one ready. An event goes to both, a command to the second one, and
the first one asks for a pong and leaves. -/
def twoGauges : List ServerEvent :=
  [.accept 0, .fetchId 0, .insert 0, .accept 1, .fetchId 1, .insert 1,
    .receive 1 (.text (WireMsg.event ⟨readyEvent, .null⟩).toJson), .readerOp 1, .readerOp 1,
    .emit "pause" .null, .deliver (commandFrame "a" none .null),
    .receive 0 (.text (WireMsg.ping none).toJson), .readerOp 0, .readerOp 0, .writerSends 0,
    .receive 0 .close, .unregister 0]

/-- What comes after the first gauge has left. -/
def afterwards : List ServerEvent :=
  [.emit "resume" .null, .writerSends 0, .abortPing 0, .writerEnds 0, .finish 0]

/-- The run exists. -/
theorem twoGauges_isSome : (Transition.run (step defaultConfig) init twoGauges).isSome = true := by
  decide +kernel

/-- The event and the pong were addressed to the first gauge, the event and the command to the
second one. -/
theorem outbound_exact_twoGauges : ∃ s,
    Transition.run (step defaultConfig) init twoGauges = some s ∧
    (Transition.trace (step defaultConfig) (addressed 0) init twoGauges).length = 2 ∧
    (Transition.trace (step defaultConfig) (addressed 1) init twoGauges).length = 2 ∧
    WrittenAsAddressed defaultConfig twoGauges s := by
  have hrun := (Option.some_get twoGauges_isSome).symm
  exact ⟨_, hrun, by decide +kernel, by decide +kernel, outbound_exact hrun (by decide +kernel)⟩

/-- The pong is still written, the second event is not addressed to the first gauge, and its
connection has returned at the end. -/
theorem writer_drains_afterwards : ∃ s t,
    Transition.run (step defaultConfig) init twoGauges = some s ∧
    Transition.run (step defaultConfig) s afterwards = some t ∧
    (s.hub.channels 0).queue.length = 1 ∧
    (∀ id k, t.hub.clients.lookup id = some k → k.tx ≠ 0) ∧
    ∃ x : Execution (step defaultConfig) s, x.Fair (Leaves 0) ∧ x.Fair (WriterMoves 0) ∧
      ∃ n, ((x.state n).conns 0).reader = .returned := by
  have hrun := (Option.some_get twoGauges_isSome).symm
  have hrest : (Transition.run (step defaultConfig)
      ((Transition.run (step defaultConfig) init twoGauges).get twoGauges_isSome)
      afterwards).isSome = true := by
    decide +kernel
  have hafter := (Option.some_get hrest).symm
  obtain ⟨hdrains, hreturns⟩ := writer_drains hrun (c := 0) ⟨by decide +kernel, by decide +kernel⟩
  refine ⟨_, _, hrun, hafter, by decide +kernel, (hdrains _ _ hafter).1, ?_⟩
  -- afterwards time stands still
  obtain ⟨x, hrests, -, -⟩ := Execution.exists_idling hafter (e := .tick 0) rfl
  have hreturned (n : ℕ) (hn : n ≥ afterwards.length) :
      ((x.state n).conns 0).reader = .returned := by
    rw [hrests n hn]
    rfl
  have hleaves : x.Fair (Leaves 0) := by
    refine Execution.fair_of_not_enabled (n := afterwards.length) fun n hn => ?_
    rintro ⟨e, t, rfl | rfl, hstep⟩ <;> simp [step, hreturned n hn] at hstep
  have hwriter : x.Fair (WriterMoves 0) := by
    refine Execution.fair_of_not_enabled (n := afterwards.length) fun n hn => ?_
    have hempty : ((x.state n).hub.channels 0).queue = [] := by
      rw [hrests n hn]
      rfl
    rintro ⟨e, t, ⟨_, hne⟩ | ⟨_, hne | hdrained⟩, _⟩
    · exact hne hempty
    · exact hne hempty
    · have hreader := hdrained.2.2
      rw [hreturned n hn] at hreader
      cases hreader
  exact ⟨x, hleaves, hwriter, hreturns x hleaves hwriter⟩

end Server

end InfinityBridge.Host
