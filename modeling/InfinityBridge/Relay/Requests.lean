import InfinityBridge.Relay.Acks
import InfinityBridge.Relay.Traffic

/-!
# What a callback does to the requests

A frame of the host may make a relay draw a request id and put an envelope on the
CommBus under it. No other callback does, but for the arrival of a CommBus text, which
may settle a request: the rest only take requests out of `pending`, and the acks they
send are refusals and copies.
-/

namespace InfinityBridge.Relay

/-- An envelope that a relay is about to put on the CommBus. -/
structure Draw where
  requestId : String
  /-- The id of the command that is accepted; `none` for an event. -/
  command : Option (Option Value)
  message : Value
  /-- Whether the CommBus call throws. -/
  thrown : Bool

/-- The text of the call. -/
def Draw.text (d : Draw) : Text := .doc (envelope d.requestId d.message)

namespace State

variable {impl : Impl} {cfg : ResolvedConfig} {s t : State} {e : RelayEvent}

/-- The envelope that an event makes a relay send, if it has a CommBus handle. -/
def drawn (impl : Impl) (s : State) : RelayEvent → Option Draw
  | .socketMessage _ data now _ callThrows =>
    if s.commBus = none then none
    else
      match (data.bind Text.jsonParse).map (hostMessage impl) with
      | some (.cmd id frame) =>
        if s.dedup.has (Key.of s.nextRef id) then none
        else some ⟨requestIdText now (impl.succ s.requestSeq), some id, frame, callThrows⟩
      | some (.event frame) =>
        some ⟨requestIdText now (impl.succ s.requestSeq), none, frame, callThrows⟩
      | _ => none
  | _ => none

/-- A frame that passes on nothing that a WASM module has reported, but what it emits. -/
def Unreported (cfg : ResolvedConfig) (heard : List Text) (f : Sent) : Prop :=
  Plain cfg heard f ∨ (∃ id, f.frame = .doc (duplicateAck id)) ∨
    ∃ id message, f.frame = .doc (rejectAck id (.str message))

/-- Requests are only taken out of `pending`, and nothing is reported. -/
structure Refuses (cfg : ResolvedConfig) (s t : State) : Prop where
  pending : ∀ rid p, t.pending.lookup rid = some p → s.pending.lookup rid = some p
  sent : ∃ es, t.sent = s.sent ++ es ∧ ∀ f ∈ es, Unreported cfg t.heard f

/-- Nothing is reported where nothing happens. -/
theorem Refuses.refl (s : State) : Refuses cfg s s := ⟨fun _ _ h => h, [], by simp⟩

/-- What keeps the books refuses nothing. -/
theorem SameBooks.refuses (h : SameBooks cfg s t) : Refuses cfg s t := by
  obtain ⟨es, hsent, hes⟩ := h.sent
  exact ⟨fun rid p hp => h.pending rid ▸ hp, es, hsent, fun f hf => .inl (hes f hf)⟩

/-- Two such steps in a row are one. -/
theorem Refuses.trans {u : State} (h : Refuses cfg s t) (h' : Refuses cfg t u)
    (hheard : t.heard ⊆ u.heard) : Refuses cfg s u := by
  obtain ⟨es, hsent, hes⟩ := h.sent
  obtain ⟨es', hsent', hes'⟩ := h'.sent
  refine ⟨fun rid p hp => h.pending rid p (h'.pending rid p hp), es ++ es', ?_, ?_⟩
  · rw [hsent', hsent, List.append_assoc]
  · intro f hf
    rcases List.mem_append.mp hf with hf | hf
    · exact (hes f hf).imp_left fun hplain => hplain.mono hheard
    · exact hes' f hf

/-- Taking a request out without an answer. -/
theorem refuses_drop {rid : String} (hpending : t.pending = s.pending.erase rid)
    (hsent : t.sent = s.sent) : Refuses cfg s t := by
  refine ⟨fun rid' p hp => ?_, [], by rw [hsent, List.append_nil], by simp⟩
  rw [hpending, Table.lookup_erase_eq] at hp
  split_ifs at hp
  exact hp

/-- Refusing a command that was pending. -/
theorem refuses_erase {rid : String} {id : Option Value} {message : String}
    {socket : Option ℕ} (hpending : t.pending = s.pending.erase rid)
    (hsent : t.sent = s.sent ++ [⟨.answer rid true, .doc (rejectAck id (.str message)), socket⟩]) :
    Refuses cfg s t := by
  refine ⟨fun rid' p hp => ?_, _, hsent, fun f hf => ?_⟩
  · rw [hpending, Table.lookup_erase_eq] at hp
    split_ifs at hp
    exact hp
  · rw [List.mem_singleton.mp hf]
    exact .inr (.inr ⟨id, message, rfl⟩)

/-- The frames with which the pending requests are refused. -/
theorem unreported_rejectAll (cfg : ResolvedConfig)
    (es : List (Sigma fun _ : String => PendingRequest)) (s : State) :
    ∃ fs, (s.rejectAll es).sent = s.sent ++ fs ∧
      ∀ f ∈ fs, Unreported cfg (s.rejectAll es).heard f := by
  induction es generalizing s with
  | nil => exact ⟨[], by simp [rejectAll], by simp⟩
  | cons e es ih =>
    obtain ⟨fs, hsent, hfs⟩ :=
      ih ((s.clearTimeout e.2.timerId).refuse e.1 e.2.cmdId relayDestroyed)
    refine ⟨_ :: fs, hsent.trans (List.append_assoc _ _ _), fun f hf => ?_⟩
    rcases List.mem_cons.mp hf with rfl | hf
    · exact .inr (.inr ⟨e.2.cmdId, relayDestroyed, rfl⟩)
    · exact hfs f hf

/-- Refusing all that is pending reports nothing. -/
theorem refuses_rejectPending (s : State) : Refuses cfg s s.rejectPending := by
  obtain ⟨fs, hsent, hfs⟩ := unreported_rejectAll cfg s.pending.entries.reverse s
  exact ⟨fun _ _ hp => (by cases hp), fs, hsent, hfs⟩

/-- The rejection of a call reports nothing. -/
theorem refuses_onCallRejected (impl : Impl) (s : State) (c : BusCall) (reason : Rejection) :
    Refuses cfg s (s.onCallRejected impl c reason) := by
  unfold onCallRejected
  split_ifs
  · split
    · exact .refl s
    split
    · exact refuses_drop rfl rfl
    · exact refuses_erase rfl rfl
  · exact .refl s

/-- Every event but the arrival of a frame or of a CommBus text refuses at most. -/
theorem refuses_step (h : TimersOk s) (he : isArrival e = false)
    (hstep : step impl cfg s e = some t) : Refuses cfg s t := by
  rcases books_step h he hstep with
    hsame | hsame | ⟨id, rid, cmdId, delay, _, rfl⟩ | ⟨_, u, c, reason, -, hsame, rfl⟩
  · exact hsame.refuses
  · exact (refuses_rejectPending s).trans hsame.refuses hsame.heard
  · exact refuses_erase rfl rfl
  · refine hsame.refuses.trans (refuses_onCallRejected impl u c reason) ?_
    rw [(calm_onCallRejected impl u c reason).heard]
    exact fun _ hraw => hraw

/-- A callback that sends no envelope. -/
structure DrawsNothing (cfg : ResolvedConfig) (s t : State) : Prop extends Refuses cfg s t where
  accepted : s.accepted ⊆ t.accepted
  heard : t.heard = s.heard
  newCalls : newCalls s t = []

/-- A callback that sends an envelope, and enters the request if it is for a command. -/
structure Draws (cfg : ResolvedConfig) (d : Draw) (s t : State) : Prop where
  accepted : t.accepted = s.accepted ++ (d.command.map (d.requestId, ·)).toList
  heard : t.heard = s.heard
  newCalls : newCalls s t = if d.thrown then [] else [d.text]
  pending : ∀ rid p, t.pending.lookup rid = some p →
    (rid = d.requestId ∧ d.command = some p.cmdId) ∨
      ((rid = d.requestId → d.command = none) ∧ s.pending.lookup rid = some p)
  sent : ∃ es, t.sent = s.sent ++ es ∧ ∀ f ∈ es, Unreported cfg t.heard f

/-- What a calm callback that refuses at most does. -/
theorem Calm.drawsNothing (h : Calm s t) (h' : Refuses cfg s t) : DrawsNothing cfg s t :=
  ⟨h', fun _ hmem => h.accepted ▸ hmem, h.heard, h.newCalls⟩

/-- A copy of a command draws nothing. -/
theorem drawsNothing_onDuplicate (s : State) (id : Option Value) :
    DrawsNothing cfg s (s.onDuplicate id) := by
  refine ⟨⟨fun _ _ hp => hp, _, rfl, fun f hf => ?_⟩, fun _ hmem => hmem, rfl, ?_⟩
  · rw [List.mem_singleton.mp hf]
    exact .inr (.inl ⟨id, rfl⟩)
  · exact (Calm.refl s).newCalls

/-- A command that is accepted without a CommBus handle is refused at once. -/
theorem drawsNothing_openRequest {id : Option Value} {now : TimeValue} {frame : Value}
    {onThrows callThrows : Bool} (hbus : s.commBus = none) :
    DrawsNothing cfg s ((s.openRequest impl cfg id now).2.forwardCommand cfg
      (s.openRequest impl cfg id now).1 frame onThrows callThrows) := by
  let u := (s.openRequest impl cfg id now).2
  let rid := (s.openRequest impl cfg id now).1
  have hlook : u.pending.lookup rid = some ⟨id, s.nextTimer⟩ := AList.lookup_insert _
  have hrefused : u.forwardCommand cfg rid frame onThrows callThrows =
      (u.take rid ⟨id, s.nextTimer⟩).refuse rid id commBusNotReady := by
    have hnone : u.commBus = none := hbus
    simp only [forwardCommand, hnone, hlook]
  show DrawsNothing cfg s (u.forwardCommand cfg rid frame onThrows callThrows)
  rw [hrefused]
  refine ⟨⟨fun rid' p hp => ?_, _, rfl, fun f hf => ?_⟩, List.subset_append_left _ _, rfl, ?_⟩
  · have herase : (u.pending.erase rid).lookup rid' = some p := hp
    have hinsert : u.pending = s.pending.insert rid ⟨id, s.nextTimer⟩ := rfl
    rw [hinsert, Table.lookup_erase_eq, Table.lookup_insert_eq] at herase
    split_ifs at herase with hrid
    exact herase
  · rw [List.mem_singleton.mp hf]
    exact .inr (.inr ⟨id, commBusNotReady, rfl⟩)
  · exact ((calm_take u rid _).trans (calm_wsSend _ _ _)).newCalls

/-- A command that is accepted with a CommBus handle is entered and forwarded. -/
theorem draws_openRequest {bus : ℕ} (id : Option Value) (now : TimeValue) (frame : Value)
    (onThrows callThrows : Bool) (hbus : s.commBus = some bus) :
    Draws cfg ⟨requestIdText now (impl.succ s.requestSeq), some id, frame, callThrows⟩ s
      ((s.openRequest impl cfg id now).2.forwardCommand cfg (s.openRequest impl cfg id now).1 frame
        onThrows callThrows) := by
  let u := (s.openRequest impl cfg id now).2
  let rid := requestIdText now (impl.succ s.requestSeq)
  have hforward : u.forwardCommand cfg rid frame onThrows callThrows =
      (u.bindCommBus cfg bus onThrows).call cfg bus rid frame true callThrows := by
    have hsome : u.commBus = some bus := hbus
    simp only [forwardCommand, hsome]
  have hsame : SameBooks cfg u ((u.bindCommBus cfg bus onThrows).call cfg bus rid frame true
      callThrows) := (sameBooks_bindCommBus _ _ _ _).trans (sameBooks_call _ _ _ _ _ _ _)
  have hcalm := (mayCall_forwardCommand cfg u rid frame onThrows callThrows).calm
  show Draws cfg _ s (u.forwardCommand cfg rid frame onThrows callThrows)
  rw [hforward] at hcalm ⊢
  obtain ⟨es, hsent, hes⟩ := hsame.sent
  refine ⟨hcalm.accepted, hcalm.heard, ?_, fun rid' p hp => ?_, es, hsent,
    fun f hf => .inl (hes f hf)⟩
  · have hnext : (u.bindCommBus cfg bus onThrows).nextCall = s.nextCall :=
      (calm_bindCommBus cfg u bus onThrows).nextCall
    rw [← newCalls_congr _ hnext]
    exact newCalls_call _ _ _ _ _ _ _
  · rw [hsame.pending] at hp
    have hinsert : u.pending = s.pending.insert rid ⟨id, s.nextTimer⟩ := rfl
    rw [hinsert, Table.lookup_insert_eq] at hp
    split_ifs at hp with hrid
    · rw [Option.some.injEq] at hp
      subst hp
      exact .inl ⟨hrid, rfl⟩
    · exact .inr ⟨fun heq => absurd heq hrid, hp⟩

/-- An event that arrives with a CommBus handle is forwarded. -/
theorem draws_onHostEvent {bus : ℕ} (frame : Value) (now : TimeValue) (callThrows : Bool)
    (hbus : s.commBus = some bus) :
    Draws cfg ⟨requestIdText now (impl.succ s.requestSeq), none, frame, callThrows⟩ s
      (s.onHostEvent impl cfg frame now callThrows) := by
  let u := (s.nextRequestId impl now).2
  let rid := requestIdText now (impl.succ s.requestSeq)
  have hevent : s.onHostEvent impl cfg frame now callThrows =
      u.call cfg bus rid frame false callThrows := by
    simp only [onHostEvent, hbus]
    rfl
  have hsame : SameBooks cfg u (u.call cfg bus rid frame false callThrows) :=
    sameBooks_call _ _ _ _ _ _ _
  have hcalm := (mayCall_call cfg u bus rid frame false callThrows).calm
  rw [hevent]
  obtain ⟨es, hsent, hes⟩ := hsame.sent
  refine ⟨?_, hcalm.heard, ?_, fun rid' p hp => .inr ⟨fun _ => rfl, ?_⟩, es, hsent,
    fun f hf => .inl (hes f hf)⟩
  · exact hcalm.accepted.trans (List.append_nil _).symm
  · rw [← newCalls_congr (s := s) (u := u) _ rfl]
    exact newCalls_call _ _ _ _ _ _ _
  · rw [hsame.pending] at hp
    exact hp

/-- Marking a command in the ring is no part of what is drawn. -/
theorem DrawsNothing.marked {nextRef : ℕ} {dedup : DedupRing Key}
    (h : DrawsNothing cfg { s with nextRef, dedup } t) : DrawsNothing cfg s t :=
  ⟨⟨h.pending, h.sent⟩, h.accepted, h.heard, h.newCalls⟩

/-- What a command is marked with does not matter for the request that it draws. -/
theorem Draws.marked {nextRef : ℕ} {dedup : DedupRing Key} {d : Draw}
    (h : Draws cfg d { s with nextRef, dedup } t) : Draws cfg d s t :=
  ⟨h.accepted, h.heard, h.newCalls, h.pending, h.sent⟩

/-- A command that arrives is drawn for, or nothing is. -/
theorem draws_onHostCommand {id : Option Value} {frame : Value} {now : TimeValue}
    {onThrows callThrows : Bool}
    (hstep : s.onHostCommand impl cfg id frame now onThrows callThrows = some t) :
    (s.commBus = none ∨ s.dedup.has (Key.of s.nextRef id) = true → DrawsNothing cfg s t) ∧
      (s.commBus ≠ none → s.dedup.has (Key.of s.nextRef id) = false →
        Draws cfg ⟨requestIdText now (impl.succ s.requestSeq), some id, frame, callThrows⟩
          s t) := by
  unfold onHostCommand at hstep
  dsimp only at hstep
  split_ifs at hstep with hhas
  · cases hstep
    refine ⟨fun _ => ?_, fun _ hnew => ?_⟩
    · exact (drawsNothing_onDuplicate { s with nextRef := s.nextRef + 1 } id).marked
    · rw [hhas] at hnew
      cases hnew
  · obtain ⟨dedup, _, rfl⟩ := Option.map_eq_some_iff.mp hstep
    refine ⟨fun h => ?_, fun hbus _ => ?_⟩
    · have hbus := h.resolve_right hhas
      exact (drawsNothing_openRequest (s := { s with nextRef := s.nextRef + 1, dedup }) hbus).marked
    · obtain ⟨bus, hbus⟩ := Option.ne_none_iff_exists'.mp hbus
      exact (draws_openRequest (s := { s with nextRef := s.nextRef + 1, dedup }) id now frame
        onThrows callThrows hbus).marked

/-- What every callback but the arrival of a CommBus text does, by what it draws. -/
theorem draws_step (htimers : TimersOk s) (he : ∀ raw, e ≠ .wasmMessage raw)
    (hstep : step impl cfg s e = some t) :
    match drawn impl s e with
    | none => DrawsNothing cfg s t
    | some d => Draws cfg d s t := by
  by_cases hmessage : isArrival e = false
  · have hnone : drawn impl s e = none := by
      cases e <;> first | rfl | cases hmessage
    rw [hnone]
    exact (calm_step hmessage hstep).drawsNothing (refuses_step htimers hmessage hstep)
  · cases e with
    | socketMessage i data now onThrows callThrows =>
      simp only [step] at hstep
      split_ifs at hstep
      simp only [onHostMessage] at hstep
      simp only [drawn]
      have hsame : DrawsNothing cfg s s := (Calm.refl s).drawsNothing (.refl s)
      cases hdata : data.bind Text.jsonParse with
      | none =>
        simp only [hdata, Option.some.injEq] at hstep
        subst hstep
        split_ifs <;> exact hsame
      | some j =>
        simp only [hdata] at hstep
        simp only [Option.map_some]
        cases hj : hostMessage impl j with
        | ping =>
          simp only [hj, Option.some.injEq] at hstep
          subst hstep
          have hpong : SameBooks cfg s (s.wsSend .pong (.doc (pongFrame now))) :=
            sameBooks_wsSend ⟨now, rfl⟩
          have hping := (calm_wsSend s .pong (.doc (pongFrame now))).drawsNothing hpong.refuses
          split_ifs <;> exact hping
        | ignored =>
          simp only [hj, Option.some.injEq] at hstep
          subst hstep
          split_ifs <;> exact hsame
        | event frame =>
          simp only [hj, Option.some.injEq] at hstep
          subst hstep
          split_ifs with hbus
          · simp only [onHostEvent, hbus]
            exact hsame
          · obtain ⟨bus, hbus⟩ := Option.ne_none_iff_exists'.mp hbus
            exact draws_onHostEvent frame now callThrows hbus
        | cmd id frame =>
          simp only [hj] at hstep
          obtain ⟨hnothing, hdraws⟩ := draws_onHostCommand hstep
          by_cases hbus : s.commBus = none
          · rw [if_pos hbus]
            exact hnothing (.inl hbus)
          · rw [if_neg hbus]
            by_cases hhas : s.dedup.has (Key.of s.nextRef id) = true
            · simp only [if_pos hhas]
              exact hnothing (.inr hhas)
            · simp only [if_neg hhas]
              exact hdraws hbus (Bool.eq_false_iff.mpr hhas)
    | wasmMessage raw => exact absurd rfl (he raw)
    | _ => exact absurd rfl hmessage

/-- The message that is sent for a command has the id of the command. -/
theorem property_id_of_drawn {d : Draw} {id : Option Value} (hdrawn : drawn impl s e = some d)
    (hid : d.command = some id) : d.message.property "id" = id := by
  cases e <;> simp only [drawn, reduceCtorEq] at hdrawn
  case socketMessage i data now onThrows callThrows =>
    split_ifs at hdrawn
    split at hdrawn
    · next id' frame hmessage =>
      split_ifs at hdrawn
      rw [Option.some.injEq] at hdrawn
      subst hdrawn
      obtain ⟨j, _, hj⟩ := Option.map_eq_some_iff.mp hmessage
      have hshape := hostMessage_shape impl j
      rw [hj] at hshape
      obtain ⟨_, rfl, rfl, _⟩ := hshape
      exact Option.some.inj hid
    · rw [Option.some.injEq] at hdrawn
      subst hdrawn
      cases hid
    · cases hdrawn

/-- An ack with `ok` that reports nothing is the ack of a copy, or one that was heard. -/
theorem Unreported.eq_duplicateAck {heard : List Text} {f : Sent} (h : Unreported cfg heard f)
    {id : Option Value} (hok : AcksOk id f.frame) :
    f.frame = .doc (duplicateAck id) ∨ f.frame ∈ heard := by
  rcases h with hplain | ⟨id', hframe⟩ | ⟨id', message, hframe⟩
  · exact .inr (hplain.not_acksOk hok).2
  · rw [hframe] at hok ⊢
    obtain ⟨-, rfl⟩ := acksOk_ackFrame hok
    exact .inl rfl
  · rw [hframe] at hok
    cases (acksOk_ackFrame hok).1

end State

end InfinityBridge.Relay
