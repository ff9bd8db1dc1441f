import InfinityBridge.Relay.Traffic

/-!
# Retransmitted commands

The ring of a relay is a window over the commands that it has accepted, whatever copies
of these have arrived in between. A copy is recognised as long as its command is in the
window.
-/

namespace InfinityBridge.Relay

namespace State

variable {impl : Impl} {cfg : ResolvedConfig} {s t : State} {e : RelayEvent}

/-! ### The ring is touched by commands only -/

/-- Refusing requests leaves the ring alone. -/
theorem dedup_rejectAll (es : List (Sigma fun _ : String => PendingRequest)) (s : State) :
    (s.rejectAll es).dedup = s.dedup := by
  induction es generalizing s with
  | nil => rfl
  | cons e es ih =>
    rw [rejectAll, ih]
    rfl

/-- A message of the module leaves the ring alone. -/
theorem dedup_onWasmMessage (impl : Impl) (raw : Text) (s : State) :
    (s.onWasmMessage impl raw).dedup = s.dedup := by
  unfold onWasmMessage
  split
  · rfl
  · split
    · split
      · rfl
      · split <;> rfl
    · rfl
    · rfl

/-- The rejection of a call leaves the ring alone. -/
theorem dedup_onCallRejected (impl : Impl) (c : BusCall) (reason : Rejection) (s : State) :
    (s.onCallRejected impl c reason).dedup = s.dedup := by
  unfold onCallRejected
  split
  · split
    · rfl
    · split <;> rfl
  · rfl

/-- Every event but the arrival of a frame leaves the ring alone. -/
theorem dedup_step (htimers : TimersOk s) (he : ∀ i data now onThrows callThrows,
      e ≠ .socketMessage i data now onThrows callThrows)
    (hstep : step impl cfg s e = some t) : t.dedup = s.dedup := by
  cases harrival : isArrival e with
  | false =>
    rcases books_step htimers harrival hstep with
      hsame | hsame | ⟨_, _, _, _, _, rfl⟩ | ⟨_, u, c, reason, -, hsame, rfl⟩
    · exact hsame.dedup
    · exact hsame.dedup.trans (dedup_rejectAll s.pending.entries.reverse s)
    · rfl
    · exact (dedup_onCallRejected impl c reason u).trans hsame.dedup
  | true =>
    cases e with
    | socketMessage => exact absurd rfl (he _ _ _ _ _)
    | wasmMessage raw =>
      simp only [step] at hstep
      split_ifs at hstep
      cases hstep
      exact dedup_onWasmMessage _ _ _
    | _ => cases harrival

/-! ### The ring as a window -/

/-- The ids of the commands that an event brings. -/
def commandIds (impl : Impl) : RelayEvent → List (Option Value)
  | .socketMessage _ data _ _ _ =>
    match (data.bind Text.jsonParse).map (hostMessage impl) with
    | some (.cmd id _) => [id]
    | _ => []
  | _ => []

/-- An event of the host leaves the ring alone. -/
theorem dedup_onHostEvent (impl : Impl) (cfg : ResolvedConfig) (frame : Value) (now : TimeValue)
    (callThrows : Bool) (s : State) :
    (s.onHostEvent impl cfg frame now callThrows).dedup = s.dedup := by
  unfold onHostEvent
  split
  · rfl
  · exact (sameBooks_call cfg (s.nextRequestId impl now).2 _ _ _ _ _).dedup

/-- A command is recognised by the ring, or accepted and marked. -/
theorem ring_onHostCommand {id : Option Value} {frame : Value} {now : TimeValue}
    {onThrows callThrows : Bool}
    (hstep : s.onHostCommand impl cfg id frame now onThrows callThrows = some t) :
    (s.dedup.has (Key.of s.nextRef id) = true ∧ t.accepted = s.accepted ∧ t.dedup = s.dedup) ∨
    ∃ rid, s.dedup.has (Key.of s.nextRef id) = false ∧
      s.dedup.mark (Key.of s.nextRef id) = some t.dedup ∧
      t.accepted = s.accepted ++ [(rid, id)] := by
  unfold onHostCommand at hstep
  dsimp only at hstep
  split at hstep
  · next hhas =>
    cases hstep
    exact .inl ⟨hhas, rfl, rfl⟩
  · next hnew =>
    obtain ⟨dedup, hmark, rfl⟩ := Option.map_eq_some_iff.mp hstep
    refine .inr ⟨(s.nextRequestId impl now).1, eq_false_of_ne_true hnew, ?_, ?_⟩
    · rw [(forwardCommand_books _ _ _ _).2.2.2.2]
      exact hmark
    · exact (mayCall_forwardCommand cfg _ _ frame onThrows callThrows).calm.accepted

/-- Commands are recognised by the ring, or accepted and marked; nothing else touches the
ring or the accepted commands. -/
theorem ring_step (htimers : TimersOk s) (hstep : step impl cfg s e = some t) :
    (t.accepted = s.accepted ∧ t.dedup = s.dedup ∧
      ∀ id ∈ commandIds impl e, s.dedup.has (Key.of s.nextRef id) = true) ∨
    ∃ rid id, commandIds impl e = [id] ∧ s.dedup.has (Key.of s.nextRef id) = false ∧
      s.dedup.mark (Key.of s.nextRef id) = some t.dedup ∧
      t.accepted = s.accepted ++ [(rid, id)] := by
  by_cases hmessage : ∃ i data now onThrows callThrows,
      e = .socketMessage i data now onThrows callThrows
  · obtain ⟨i, data, now, onThrows, callThrows, rfl⟩ := hmessage
    simp only [step] at hstep
    split_ifs at hstep
    simp only [onHostMessage] at hstep
    simp only [commandIds]
    cases hdata : data.bind Text.jsonParse with
    | none =>
      simp only [hdata, Option.some.injEq] at hstep
      subst hstep
      exact .inl ⟨rfl, rfl, by simp⟩
    | some j =>
      simp only [hdata] at hstep
      simp only [Option.map_some]
      cases hj : hostMessage impl j with
      | ping | ignored =>
        simp only [hj, Option.some.injEq] at hstep
        subst hstep
        exact .inl ⟨rfl, rfl, by simp⟩
      | event frame =>
        simp only [hj, Option.some.injEq] at hstep
        subst hstep
        obtain ⟨rid, hcall⟩ := mayCall_onHostEvent impl cfg s frame now callThrows
        exact .inl ⟨hcall.calm.accepted, dedup_onHostEvent _ _ _ _ _ _, by simp⟩
      | cmd id frame =>
        simp only [hj] at hstep
        rcases ring_onHostCommand hstep with ⟨hhas, haccepted, hdedup⟩ | ⟨rid, hnew, hmark, hmore⟩
        · exact .inl ⟨haccepted, hdedup, by simpa using hhas⟩
        · exact .inr ⟨rid, id, rfl, hnew, hmark, hmore⟩
  · push Not at hmessage
    have hnone : commandIds impl e = [] := by
      cases e <;> first | rfl | exact absurd rfl (hmessage _ _ _ _ _)
    refine .inl ⟨?_, dedup_step htimers hmessage hstep, by simp [hnone]⟩
    by_cases hwasm : ∃ raw, e = .wasmMessage raw
    · obtain ⟨raw, rfl⟩ := hwasm
      exact (calm_wasmMessage hstep).accepted
    · push Not at hwasm
      refine (calm_step ?_ hstep).accepted
      cases e <;> first | rfl | exact absurd rfl (hmessage _ _ _ _ _) | exact absurd rfl (hwasm _)

/-- The ring is the window over the accepted commands. -/
def RingOk (c : ℕ) (s : State) : Prop :=
  ∃ marked : List ((String × Option Value) × Key), s.accepted = marked.map Prod.fst ∧
    (∀ m ∈ marked, ∃ ref, m.2 = Key.of ref m.1.2) ∧
    DedupRing.Window c (marked.map Prod.snd) s.dedup

/-- At first the ring is empty, and nothing has been accepted. -/
theorem ringOk_make {c : ℕ} (hc : cfg.dedupCapacity = c) : RingOk c (make impl cfg) := by
  refine ⟨[], rfl, by simp, ?_⟩
  show DedupRing.Window c [] (.make cfg.dedupCapacity)
  rw [hc]
  exact DedupRing.window_make c

/-- Every step keeps the window. -/
theorem RingOk.step {c : ℕ} (h : RingOk c s) (htimers : TimersOk s)
    (hstep : State.step impl cfg s e = some t) : RingOk c t := by
  obtain ⟨marked, haccepted, hkeys, hwindow⟩ := h
  rcases ring_step htimers hstep with
    ⟨hsame, hdedup, _⟩ | ⟨rid, id, _, hnew, hmark, hmore⟩
  · exact ⟨marked, hsame.trans haccepted, hkeys, hdedup ▸ hwindow⟩
  · have hid : Key.of s.nextRef id ∉ s.dedup.set := of_decide_eq_false hnew
    obtain ⟨ring, hring, hwindow'⟩ := hwindow.mark hid
    rw [hmark, Option.some.injEq] at hring
    subst hring
    refine ⟨marked ++ [((rid, id), Key.of s.nextRef id)], ?_, ?_, ?_⟩
    · rw [hmore, haccepted, List.map_append]
      rfl
    · intro m hm
      rcases List.mem_append.mp hm with hm | hm
      · exact hkeys m hm
      · rw [List.mem_singleton.mp hm]
        exact ⟨s.nextRef, rfl⟩
    · rw [List.map_append]
      exact hwindow'

/-- A command with this id. -/
def isFor (id : String) : Option Value → Bool
  | some (.str id') => id' = id
  | _ => false

/-- A command is for an id when it carries that string. -/
theorem isFor_iff {id : String} {v : Option Value} : isFor id v = true ↔ v = some (.str id) := by
  unfold isFor
  split
  · simp
  · next hne => simpa using fun h => hne id h

/-- Only a string has the key of a string. -/
theorem eq_str_of_key {ref : ℕ} {v : Option Value} {id : String} (h : Key.of ref v = .str id) :
    v = some (.str id) := by
  cases v with
  | none => cases h
  | some v =>
    cases v <;> cases h
    rfl

/-- The last `c` commands that were accepted. -/
def recent (c : ℕ) (s : State) : List (String × Option Value) :=
  s.accepted.drop (s.accepted.length - c)

/-- The ring holds an id just when one of the last `c` accepted commands has it. -/
theorem RingOk.has_iff {c : ℕ} (h : RingOk c s) (id : String) :
    s.dedup.has (.str id) = true ↔ (s.recent c).any (fun a => isFor id a.2) = true := by
  obtain ⟨marked, haccepted, hkeys, hwindow⟩ := h
  rw [hwindow.has_iff rfl, recent, haccepted, List.length_map, List.length_map, ← List.map_drop,
    ← List.map_drop, List.any_eq_true, List.mem_map]
  constructor
  · rintro ⟨m, hm, hkey⟩
    obtain ⟨ref, href⟩ := hkeys m (List.mem_of_mem_drop hm)
    exact ⟨m.1, List.mem_map.mpr ⟨m, hm, rfl⟩, isFor_iff.mpr (eq_str_of_key (href ▸ hkey))⟩
  · rintro ⟨a, ha, hfor⟩
    obtain ⟨m, hm, rfl⟩ := List.mem_map.mp ha
    obtain ⟨ref, href⟩ := hkeys m (List.mem_of_mem_drop hm)
    refine ⟨m, hm, ?_⟩
    rw [href, isFor_iff.mp hfor]
    rfl

/-! ### Commands that are accepted once -/

/-- How often a command with this id has been accepted. -/
def acceptances (id : String) (s : State) : ℕ := s.accepted.countP fun a => isFor id a.2

/-- A copy of a command comes while the command is among the last ones accepted. -/
def InTime (cfg : ResolvedConfig) (impl : Impl) (id : String) (s : State) (e : RelayEvent) : Prop :=
  some (.str id) ∈ commandIds impl e → 0 < s.acceptances id →
    (s.recent cfg.dedupCapacity.toNat).any (fun a => isFor id a.2) = true

/-- A command is accepted once in a run just when all its copies come in time. -/
theorem accepted_once_iff (hcapacity : 1 ≤ cfg.dedupCapacity) (id : String)
    (es : List RelayEvent) :
    Transition.Always (step impl cfg) (fun s => s.acceptances id ≤ 1) (make impl cfg) es ↔
      Transition.Meets (step impl cfg) (InTime cfg impl id) (make impl cfg) es := by
  have hc : cfg.dedupCapacity = cfg.dedupCapacity.toNat := by omega
  refine Transition.always_iff_meets
    (I := fun s => TimersOk s ∧ RingOk cfg.dedupCapacity.toNat s ∧ s.acceptances id ≤ 1)
    (fun s h => h.2.2) ?_ ?_ ⟨timersOk_make, ringOk_make hc, Nat.zero_le 1⟩ es
  · rintro s e t ⟨htimers, hring, honce⟩ hintime hstep
    refine ⟨timersOk_step htimers hstep, hring.step htimers hstep, ?_⟩
    rcases ring_step htimers hstep with ⟨hsame, _⟩ | ⟨rid, id', hids, hnew, _, hmore⟩
    · rw [acceptances, hsame]
      exact honce
    · rw [acceptances, hmore, List.countP_append, List.countP_singleton]
      split
      · next hfor =>
        have hid := isFor_iff.mp hfor
        subst hid
        have hnone : ¬0 < s.acceptances id := fun hsome => by
          have hhas := (hring.has_iff id).mpr (hintime (by simp [hids]) hsome)
          exact Bool.false_ne_true (hnew.symm.trans hhas)
        have hzero : s.accepted.countP (fun a => isFor id a.2) = 0 := Nat.eq_zero_of_not_pos hnone
        omega
      · exact honce
  · rintro s e t ⟨htimers, hring, _⟩ hlate hstep honce
    simp only [InTime, not_forall] at hlate
    obtain ⟨hmem, hsome, hrecent⟩ := hlate
    have hnew : s.dedup.has (.str id) = false :=
      eq_false_of_ne_true fun hhas => hrecent ((hring.has_iff id).mp hhas)
    rcases ring_step htimers hstep with ⟨_, _, hhas⟩ | ⟨rid, id', hids, _, _, hmore⟩
    · exact Bool.false_ne_true (hnew.symm.trans (hhas _ hmem))
    · rw [hids, List.mem_singleton] at hmem
      subst hmem
      rw [acceptances, hmore, List.countP_append, List.countP_singleton,
        if_pos (isFor_iff.mpr rfl)] at honce
      have hsome' : 0 < s.accepted.countP fun a => isFor id a.2 := hsome
      omega

/-! ### CommBus calls for a command -/

/-- The texts of the CommBus calls that an event leads to. -/
def callsOf (impl : Impl) (cfg : ResolvedConfig) (s : State) (e : RelayEvent) : List Text :=
  match step impl cfg s e with
  | none => []
  | some t => newCalls s t

/-- The envelope of a command with this id. -/
def carries (id : String) (text : Text) : Bool :=
  match text.jsonParse.bind (Json.property "payload") with
  | none => false
  | some payload =>
    match payload.property "t" with
    | some (.str "cmd") => isFor id (payload.property "id")
    | _ => false

/-- An envelope carries the id of the command in it. -/
theorem carries_envelope (id rid : String) (payload : Value) :
    carries id (.doc (envelope rid payload)) =
      match payload.property "t" with
      | some (.str "cmd") => isFor id (payload.property "id")
      | _ => false := by
  simp [carries, envelope, Json.property, Json.named]

/-- No more calls for a command were made than acceptances of it were recorded. -/
def CallsAccepted (id : String) (s t : State) : Prop :=
  (newCalls s t).countP (carries id) + s.acceptances id ≤ t.acceptances id

/-- A calm callback makes no call. -/
theorem callsAccepted_of_calm {u : State} (h : Calm u t) (hcall : u.nextCall = s.nextCall)
    (haccepted : u.accepted = s.accepted) (id : String) : CallsAccepted id s t := by
  have hnone : newCalls s t = [] := by
    rw [newCalls, ← hcall]
    exact h.newCalls
  rw [CallsAccepted, hnone, List.countP_nil, acceptances, acceptances, h.accepted, haccepted]
  omega

/-- A message of the host leads to no more calls for a command than acceptances of it. -/
theorem callsAccepted_document (id : String) {i : ℕ} {frame : Text} {j : Value} {now : TimeValue}
    {onThrows callThrows : Bool} (hparse : frame.jsonParse = some j)
    (hstep : step impl cfg s (.socketMessage i (some frame) now onThrows callThrows) = some t) :
    CallsAccepted id s t := by
  have htraffic := socketMessage_traffic hparse hstep
  have hshape := hostMessage_shape impl j
  cases hj : hostMessage impl j with
  | ping | ignored =>
    simp only [hj] at htraffic
    exact callsAccepted_of_calm htraffic rfl rfl id
  | event msg =>
    simp only [hj] at htraffic
    rw [hj] at hshape
    obtain ⟨htag, rfl⟩ := hshape
    obtain ⟨rid, hcall⟩ := htraffic
    have haccepted : t.accepted = s.accepted := hcall.calm.accepted
    rw [CallsAccepted, acceptances, acceptances, haccepted]
    rcases hcall.newCalls with hnew | hnew
    · simp [hnew]
    · simp [hnew, carries_envelope, htag]
  | cmd id' msg =>
    simp only [hj] at htraffic
    rw [hj] at hshape
    obtain ⟨htag, rfl, rfl, _⟩ := hshape
    rcases htraffic with ⟨_, hcalm⟩ | ⟨rid, hcall⟩
    · exact callsAccepted_of_calm hcalm rfl rfl id
    · have haccepted : t.accepted = s.accepted ++ [(rid, msg.property "id")] :=
        hcall.calm.accepted
      have hnew : newCalls s t = [] ∨ newCalls s t = [.doc (envelope rid msg)] := hcall.newCalls
      rw [CallsAccepted, acceptances, acceptances, haccepted, List.countP_append,
        List.countP_singleton]
      rcases hnew with hnew | hnew
      · rw [hnew, List.countP_nil]
        omega
      · have hcarries : carries id (.doc (envelope rid msg)) = isFor id (msg.property "id") := by
          simp [carries_envelope, htag]
        rw [hnew, List.countP_singleton, hcarries, Nat.add_comm]

/-- No more calls are made for a command than it has been accepted. -/
theorem callsAccepted_step (id : String) (hstep : step impl cfg s e = some t) :
    CallsAccepted id s t := by
  cases he : isArrival e with
  | false => exact callsAccepted_of_calm (calm_step he hstep) rfl rfl id
  | true =>
    cases e with
    | socketMessage i data now onThrows callThrows =>
      cases hparse : data.bind Text.jsonParse with
      | none =>
        simp only [step] at hstep
        split_ifs at hstep
        simp only [onHostMessage, hparse, Option.some.injEq] at hstep
        subst hstep
        exact callsAccepted_of_calm (.refl s) rfl rfl id
      | some j =>
        obtain ⟨frame, rfl, hj⟩ := Option.bind_eq_some_iff.mp hparse
        exact callsAccepted_document id hj hstep
    | wasmMessage raw => exact callsAccepted_of_calm (calm_wasmMessage hstep) rfl rfl id
    | _ => cases he

/-- In a run no more calls are made for a command than it has been accepted. -/
theorem countP_trace_le (id : String) {es : List RelayEvent}
    (hrun : Transition.run (step impl cfg) (make impl cfg) es = some s) :
    (Transition.trace (step impl cfg) (callsOf impl cfg) (make impl cfg) es).countP (carries id) ≤
      s.acceptances id :=
  Transition.run_trace
    (I := fun s calls => calls.countP (carries id) ≤ s.acceptances id)
    (fun s calls e t h hstep => by
      have hcalls : (newCalls s t).countP (carries id) + s.acceptances id ≤ t.acceptances id :=
        callsAccepted_step id hstep
      have hobserved : callsOf impl cfg s e = newCalls s t := by rw [callsOf, hstep]
      rw [List.countP_append, hobserved]
      omega) hrun (Nat.zero_le _)

/-- Between two consecutive copies of an id come fewer than `c` distinct other ids. -/
def CloseCopies (c : ℤ) (id : Option Value) (ids : List (Option Value)) : Prop :=
  ∀ older between newer, ids = older ++ id :: (between ++ id :: newer) → id ∉ between →
    ∀ others : List (Option Value), others.Nodup → others ⊆ between → others.length < c

/-- At most one CommBus call is made for a command whose copies come closely enough. -/
def CalledOnce (impl : Impl) (cfg : ResolvedConfig) (id : String) (es : List RelayEvent) : Prop :=
  CloseCopies cfg.dedupCapacity (some (.str id)) (es.flatMap (commandIds impl)) →
    (Transition.trace (step impl cfg) (callsOf impl cfg) (make impl cfg) es).countP (carries id) ≤ 1

/-- Copies that come closely enough come in time. -/
def CopiesInTime (impl : Impl) (cfg : ResolvedConfig) (id : String) (es : List RelayEvent) : Prop :=
  CloseCopies cfg.dedupCapacity (some (.str id)) (es.flatMap (commandIds impl)) →
    Transition.Meets (step impl cfg) (InTime cfg impl id) (make impl cfg) es

/-- In a run in which the copies come in time, a command is called at most once. -/
theorem called_once (hcapacity : 1 ≤ cfg.dedupCapacity) {es : List RelayEvent}
    (hrun : Transition.run (step impl cfg) (make impl cfg) es = some s) {id : String}
    (hcopies : CopiesInTime impl cfg id es) : CalledOnce impl cfg id es := by
  intro hclose
  have honce := (accepted_once_iff hcapacity id es).mpr (hcopies hclose)
  have hend := Transition.always_iff.mp honce es s List.prefix_rfl hrun
  exact (countP_trace_le id hrun).trans hend

/-- Commands are only ever accepted. -/
theorem acceptances_le_of_run (id : String) {es : List RelayEvent}
    (hrun : Transition.run (step impl cfg) s es = some t) :
    s.acceptances id ≤ t.acceptances id := by
  refine Transition.run_relation (R := fun s t => s.acceptances id ≤ t.acceptances id)
    (fun _ => le_rfl) (fun _ _ _ => le_trans) (fun s e t hstep => ?_) hrun
  have hcalls : (newCalls s t).countP (carries id) + s.acceptances id ≤ t.acceptances id :=
    callsAccepted_step id hstep
  omega

/-- What has been accepted once at the end was never accepted twice. -/
theorem accepted_once_of_run {id : String} {es : List RelayEvent}
    (hrun : Transition.run (step impl cfg) s es = some t) (honce : t.acceptances id ≤ 1) :
    Transition.Always (step impl cfg) (fun s => s.acceptances id ≤ 1) s es := by
  refine Transition.always_iff.mpr ?_
  rintro es' u ⟨rest, rfl⟩ hinitial
  obtain ⟨v, hv, hrest⟩ := Transition.run_append_eq_some.mp hrun
  rw [hinitial, Option.some.injEq] at hv
  subst hv
  exact (acceptances_le_of_run id hrest).trans honce

/-- A relay with a ring of two ids. -/
def smallRing : ResolvedConfig := { defaultConfig with dedupCapacity := 2 }

/-- The arrival of a command. -/
def command (id : String) : RelayEvent :=
  .socketMessage 0 (some (.doc (.obj [("t", .str "cmd"), ("id", .str id), ("payload", .null)])))
    .epoch false false

/-- Commands that arrive after the relay has started. -/
def commands (ids : List String) : List RelayEvent :=
  [.init false false, .socketOpen 0 .epoch] ++ ids.map command

/-- The frames carry the ids they were made of. -/
theorem commandIds_commands (impl : Impl) (ids : List String) :
    (commands ids).flatMap (commandIds impl) = ids.map fun id => some (.str id) := by
  have hcommand (id : String) : commandIds impl (command id) = [some (.str id)] := by
    cases impl <;> rfl
  rw [commands, List.flatMap_append, List.flatMap_map, List.flatMap_congr fun id _ => hcommand id,
    List.map_eq_flatMap]
  rfl

/-- Copies are close when every stretch without one is short. -/
theorem closeCopies_of_length_lt {c : ℤ} {id : Option Value} {ids : List (Option Value)}
    (h : ∀ older between newer, ids = older ++ id :: (between ++ id :: newer) → id ∉ between →
      between.length < c) : CloseCopies c id ids := by
  intro older between newer hids hbetween others hnodup hsub
  have hlength := h older between newer hids hbetween
  have hothers := (List.subperm_of_subset hnodup hsub).length_le
  omega

/-- The copy of a command, and then one of it after it has been evicted. -/
theorem evicted_called_twice :
    (Transition.run (step .typescript smallRing) (make .typescript smallRing)
      (commands ["a", "b", "a", "c", "a"])).isSome = true ∧
    ¬CalledOnce .typescript smallRing "a" (commands ["a", "b", "a", "c", "a"]) := by
  refine ⟨by decide +kernel, fun h => ?_⟩
  have htwice : (Transition.trace (step .typescript smallRing) (callsOf .typescript smallRing)
      (make .typescript smallRing) (commands ["a", "b", "a", "c", "a"])).countP
        (carries "a") = 2 := by
    decide +kernel
  have honce := h ?_
  · omega
  · rw [commandIds_commands]
    refine closeCopies_of_length_lt fun older between newer hids hbetween => ?_
    show (between.length : ℤ) < 2
    rcases older with _ | ⟨o₁, _ | ⟨o₂, _ | ⟨o₃, _ | ⟨o₄, _ | ⟨o₅, older⟩⟩⟩⟩⟩ <;>
      rcases between with _ | ⟨x, _ | ⟨y, between⟩⟩ <;>
      simp at hids hbetween ⊢
    exact absurd hids.2.1 hbetween.2.1

/-- The state after a copy of a command that is still in the window. -/
theorem recognised_isSome : (Transition.run (step .rescript smallRing) (make .rescript smallRing)
    (commands ["a", "b", "a"])).isSome = true := by
  decide +kernel

/-- The command was accepted once. -/
theorem recognised_accepted_once : ((Transition.run (step .rescript smallRing)
    (make .rescript smallRing) (commands ["a", "b", "a"])).get recognised_isSome).acceptances "a" =
      1 := by
  decide +kernel

/-- It was called at most once. -/
theorem called_once_recognised :
    (Transition.trace (step .rescript smallRing) (callsOf .rescript smallRing)
      (make .rescript smallRing) (commands ["a", "b", "a"])).countP (carries "a") ≤ 1 := by
  refine called_once (by decide) (Option.some_get recognised_isSome).symm (fun _ => ?_) ?_
  · exact (accepted_once_iff (by decide) "a" _).mp (accepted_once_of_run
      (Option.some_get recognised_isSome).symm recognised_accepted_once.le)
  · rw [commandIds_commands]
    refine closeCopies_of_length_lt fun older between newer hids hbetween => ?_
    show (between.length : ℤ) < 2
    rcases older with _ | ⟨o₁, _ | ⟨o₂, _ | ⟨o₃, older⟩⟩⟩ <;>
      rcases between with _ | ⟨x, _ | ⟨y, between⟩⟩ <;>
      simp at hids hbetween ⊢

end State

end InfinityBridge.Relay
