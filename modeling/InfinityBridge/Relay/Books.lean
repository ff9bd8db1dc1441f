import InfinityBridge.Relay.Timers

/-!
# The books of a relay

The requests that are pending, their timers, and the acks that have been generated.
Most of what a relay does leaves the books as they are; this file says what it means
that they are in order, and which callbacks do not touch them.
-/

namespace InfinityBridge.Relay

/-- The text of a request id. -/
def requestIdText (now : TimeValue) (seq : ℤ) : String := toString now.millis ++ "-" ++ toString seq

/-- No digit is a hyphen. -/
theorem hyphen_notMem_repr (n : ℕ) : '-' ∉ (toString (n : ℤ)).toList := by
  intro h
  have hdigit := Nat.isDigit_of_mem_toDigits (b := 10) (n := n) (c := '-') (by decide) (by decide)
    (by simpa [Int.repr, Nat.repr, Int.toString_eq_repr] using h)
  exact absurd hdigit (by decide)

/-- A counter is determined by its text. -/
theorem toString_natCast_injective {n n' : ℕ} (h : toString (n : ℤ) = toString (n' : ℤ)) :
    n = n' := by
  have hrepr : Nat.repr n = Nat.repr n' := by simpa [Int.toString_eq_repr, Int.repr] using h
  rw [← Nat.ofDigitChars_ten_toDigits (n := n), ← Nat.ofDigitChars_ten_toDigits (n := n'),
    ← Nat.toList_repr, ← Nat.toList_repr, hrepr]

/-- What stands before the first hyphen. -/
theorem takeWhile_hyphen {cs cs' : List Char} (h : '-' ∉ cs) :
    (cs ++ '-' :: cs').takeWhile (· ≠ '-') = cs := by
  rw [List.takeWhile_append_of_pos fun c hc => by simpa using ne_of_mem_of_not_mem hc h]
  simp

/-- Request ids drawn with different counters differ, whatever the clock read. -/
theorem requestIdText_injective {now now' : TimeValue} {n n' : ℕ}
    (h : requestIdText now n = requestIdText now' n') : n = n' := by
  have hlist := congrArg (fun s => s.toList.reverse.takeWhile (· ≠ '-')) h
  have hyphen : "-".toList.reverse = ['-'] := rfl
  simp only [requestIdText, String.toList_append, List.reverse_append, hyphen,
    List.singleton_append] at hlist
  rw [takeWhile_hyphen fun hmem => hyphen_notMem_repr n (List.mem_reverse.mp hmem),
    takeWhile_hyphen fun hmem => hyphen_notMem_repr n' (List.mem_reverse.mp hmem),
    List.reverse_inj, String.toList_inj] at hlist
  exact toString_natCast_injective hlist

/-- Whether a frame answers the command with this request id. -/
def Sent.answers (requestId : String) (e : Sent) : Bool :=
  match e.origin with
  | .answer rid _ => rid = requestId
  | _ => false

namespace State

variable {impl : Impl} {cfg : ResolvedConfig} {s t : State} {e : RelayEvent}

/-- How many acks have been generated for a request. -/
def answers (rid : String) (sent : List Sent) : ℕ := sent.countP (·.answers rid)

/-- The acks for duplicates. -/
def duplicateFrames (sent : List Sent) : List Text :=
  (sent.filter fun e => e.origin = .duplicate).map (·.frame)

/-- The command a request id was drawn for has been answered with what a WASM module
has responded to that request id. -/
def Responded (impl : Impl) (s : State) (rid : String) (frame : Text) : Prop :=
  ∃ id raw j ok response error ack, (rid, id) ∈ s.accepted ∧ raw ∈ s.heard ∧
    raw.jsonParse = some j ∧ wasmMessage impl j = .response rid ok response error ∧
    responseAck impl numberText id ok response error = some ack ∧ frame = .doc ack

/-- The command a request id was drawn for has been refused. -/
def Refused (s : State) (rid : String) (frame : Text) : Prop :=
  ∃ id message, (rid, id) ∈ s.accepted ∧ frame = .doc (rejectAck id (.str message))

/-- A frame that is no ack of the relay's own making. -/
def Plain (cfg : ResolvedConfig) (heard : List Text) (e : Sent) : Prop :=
  match e.origin with
  | .hello => ∃ now, e.frame = .doc (helloFrame cfg now)
  | .ready => ∃ bound, e.frame = .doc (readyFrame bound)
  | .pong => ∃ now, e.frame = .doc (pongFrame now)
  | .forwarded => e.frame ∈ heard
  | .duplicate | .answer _ _ => False

/-- Two ids that are the same key, whenever they were seen. -/
def SameKey (id id' : Option Value) : Prop := ∃ ref, Key.of ref id = Key.of ref id'

/-- The books of a relay: what holds while fewer than `2 ^ 31` request ids have been
drawn. -/
structure Accounted (impl : Impl) (cfg : ResolvedConfig) (s : State) : Prop where
  seq : s.requestSeq = s.requests
  drawn : ∀ rid id, (rid, id) ∈ s.accepted → ∃ now n, rid = requestIdText now (n : ℕ) ∧
    n ≤ s.requests
  nodup : (s.accepted.map Prod.fst).Nodup
  pending : ∀ rid p, s.pending.lookup rid = some p → (rid, p.cmdId) ∈ s.accepted
  armed : ∀ rid id tid, (∃ d, s.timers.lookup tid = some ⟨.request rid id, d⟩) ↔
    s.pending.lookup rid = some ⟨id, tid⟩
  answered : ∀ rid id, (rid, id) ∈ s.accepted →
    answers rid s.sent + (if (s.pending.lookup rid).isSome then 1 else 0) + s.lost.count rid = 1
  lostAccepted : ∀ rid ∈ s.lost, ∃ id, (rid, id) ∈ s.accepted
  responded : ∀ e ∈ s.sent, ∀ rid, e.origin = .answer rid false → Responded impl s rid e.frame
  refused : ∀ e ∈ s.sent, ∀ rid, e.origin = .answer rid true → Refused s rid e.frame
  duplicates : duplicateFrames s.sent = s.copies.map fun id => .doc (duplicateAck id)
  plain : ∀ e ∈ s.sent, e.origin ≠ .duplicate → (∀ rid own, e.origin ≠ .answer rid own) →
    Plain cfg s.heard e
  ring : ∀ k ∈ s.dedup.set, ∃ rid id ref, (rid, id) ∈ s.accepted ∧ ref < s.nextRef ∧
    k = Key.of ref id
  copies : ∀ id ∈ s.copies, ∃ rid id', (rid, id') ∈ s.accepted ∧ SameKey id' id

/-- The books are in order at the start. -/
theorem accounted_make : Accounted impl cfg (make impl cfg) where
  seq := rfl
  drawn _ _ h := by cases h
  nodup := List.nodup_nil
  pending _ _ h := by cases h
  armed _ _ _ := ⟨fun ⟨_, h⟩ => (by cases h), fun h => (by cases h)⟩
  answered _ _ h := by cases h
  lostAccepted _ h := by cases h
  responded _ h := by cases h
  refused _ h := by cases h
  duplicates := rfl
  plain _ h := by cases h
  ring _ h := by cases h
  copies _ h := by cases h

/-- The books of two states are the same: what is not shown may differ. -/
structure SameBooks (cfg : ResolvedConfig) (s t : State) : Prop where
  requestSeq : t.requestSeq = s.requestSeq
  requests : t.requests = s.requests
  accepted : t.accepted = s.accepted
  copies : t.copies = s.copies
  lost : t.lost = s.lost
  dedup : t.dedup = s.dedup
  nextRef : t.nextRef = s.nextRef
  heard : s.heard ⊆ t.heard
  pending : ∀ rid, t.pending.lookup rid = s.pending.lookup rid
  armed : ∀ rid id tid, (∃ d, t.timers.lookup tid = some ⟨.request rid id, d⟩) ↔
    ∃ d, s.timers.lookup tid = some ⟨.request rid id, d⟩
  sent : ∃ es, t.sent = s.sent ++ es ∧
    ∀ e ∈ es, Plain cfg t.heard e

/-- A plain frame remains plain when more has been heard. -/
theorem Plain.mono {heard heard' : List Text} {e : Sent} (h : Plain cfg heard e)
    (hsub : heard ⊆ heard') : Plain cfg heard' e := by
  obtain ⟨origin, frame, socket⟩ := e
  cases origin with
  | forwarded => exact hsub h
  | _ => exact h

/-- A plain frame is no ack for a duplicate. -/
theorem Plain.ne_duplicate {heard : List Text} {e : Sent} (h : Plain cfg heard e) :
    e.origin ≠ .duplicate := by
  intro horigin
  simp only [Plain, horigin] at h

/-- A plain frame is no answer. -/
theorem Plain.ne_answer {heard : List Text} {e : Sent} (h : Plain cfg heard e) (rid : String)
    (own : Bool) : e.origin ≠ .answer rid own := by
  intro horigin
  simp only [Plain, horigin] at h

/-- Doing nothing keeps the books. -/
theorem SameBooks.refl (s : State) : SameBooks cfg s s :=
  ⟨rfl, rfl, rfl, rfl, rfl, rfl, rfl, fun _ h => h, fun _ => rfl, fun _ _ _ => Iff.rfl, [], by simp⟩

/-- Two steps in a row that keep the books keep them. -/
theorem SameBooks.trans {u : State} (h : SameBooks cfg s t) (h' : SameBooks cfg t u) :
    SameBooks cfg s u := by
  obtain ⟨es, hsent, hes⟩ := h.sent
  obtain ⟨es', hsent', hes'⟩ := h'.sent
  refine ⟨h'.requestSeq.trans h.requestSeq, h'.requests.trans h.requests,
    h'.accepted.trans h.accepted, h'.copies.trans h.copies, h'.lost.trans h.lost,
    h'.dedup.trans h.dedup, h'.nextRef.trans h.nextRef, fun _ hraw => h'.heard (h.heard hraw),
    fun rid => (h'.pending rid).trans (h.pending rid),
    fun rid id tid => (h'.armed rid id tid).trans (h.armed rid id tid), es ++ es', ?_, ?_⟩
  · rw [hsent', hsent, List.append_assoc]
  · intro e he
    exact (List.mem_append.mp he).elim (fun he => (hes e he).mono h'.heard) (hes' e)

/-- An answer that was called for remains so. -/
theorem Responded.mono {rid : String} {frame : Text} (h : Responded impl s rid frame)
    (haccepted : s.accepted ⊆ t.accepted) (hheard : s.heard ⊆ t.heard) :
    Responded impl t rid frame := by
  obtain ⟨id, raw, j, ok, response, error, ack, hmem, hraw, hrest⟩ := h
  exact ⟨id, raw, j, ok, response, error, ack, haccepted hmem, hheard hraw, hrest⟩

/-- A refusal that was called for remains so. -/
theorem Refused.mono {rid : String} {frame : Text} (h : Refused s rid frame)
    (haccepted : s.accepted ⊆ t.accepted) : Refused t rid frame := by
  obtain ⟨id, message, hmem, hframe⟩ := h
  exact ⟨id, message, haccepted hmem, hframe⟩

/-- No answer is among frames that are no acks. -/
theorem answers_eq_zero {rid : String} {es : List Sent}
    (hes : ∀ e ∈ es, ∀ own, e.origin ≠ .answer rid own) : answers rid es = 0 := by
  rw [answers, List.countP_eq_zero]
  intro e he hanswers
  unfold Sent.answers at hanswers
  split at hanswers
  · next rid' own horigin =>
    exact hes e he own (by rw [horigin, of_decide_eq_true hanswers])
  · cases hanswers

/-- The answers among frames add up. -/
@[simp] theorem answers_append (rid : String) (es es' : List Sent) :
    answers rid (es ++ es') = answers rid es + answers rid es' := List.countP_append

/-- The duplicate acks among frames, in order. -/
@[simp] theorem duplicateFrames_append (es es' : List Sent) :
    duplicateFrames (es ++ es') = duplicateFrames es ++ duplicateFrames es' := by
  simp only [duplicateFrames, List.filter_append, List.map_append]

/-- The books are in order when those of the state before are. -/
theorem Accounted.same (h : Accounted impl cfg s) (hsame : SameBooks cfg s t) :
    Accounted impl cfg t := by
  obtain ⟨es, hsent, hes⟩ := hsame.sent
  have hanswers (rid : String) : answers rid t.sent = answers rid s.sent := by
    rw [hsent, answers_append]
    exact Nat.add_eq_left.mpr (answers_eq_zero fun e he => (hes e he).ne_answer rid)
  constructor
  case seq => rw [hsame.requestSeq, hsame.requests, h.seq]
  case drawn => rw [hsame.accepted, hsame.requests]; exact h.drawn
  case nodup => rw [hsame.accepted]; exact h.nodup
  case pending =>
    intro rid p hp
    rw [hsame.pending] at hp
    rw [hsame.accepted]
    exact h.pending rid p hp
  case armed => exact fun rid id tid => by rw [hsame.armed, hsame.pending, h.armed]
  case answered =>
    intro rid id hmem
    rw [hsame.accepted] at hmem
    rw [hanswers, hsame.pending, hsame.lost]
    exact h.answered rid id hmem
  case lostAccepted => rw [hsame.lost, hsame.accepted]; exact h.lostAccepted
  case responded =>
    intro e he rid horigin
    rw [hsent] at he
    rcases List.mem_append.mp he with he | he
    · exact (h.responded e he rid horigin).mono (fun _ hmem => hsame.accepted ▸ hmem) hsame.heard
    · exact absurd horigin ((hes e he).ne_answer rid false)
  case refused =>
    intro e he rid horigin
    rw [hsent] at he
    rcases List.mem_append.mp he with he | he
    · exact (h.refused e he rid horigin).mono fun _ hmem => hsame.accepted ▸ hmem
    · exact absurd horigin ((hes e he).ne_answer rid true)
  case duplicates =>
    have hnone : duplicateFrames es = [] := by
      rw [duplicateFrames, List.map_eq_nil_iff, List.filter_eq_nil_iff]
      exact fun e he => by simpa using (hes e he).ne_duplicate
    rw [hsent, hsame.copies, duplicateFrames_append, hnone, List.append_nil]
    exact h.duplicates
  case plain =>
    intro e he hduplicate hanswer
    rw [hsent] at he
    rcases List.mem_append.mp he with he | he
    · exact (h.plain e he hduplicate hanswer).mono hsame.heard
    · exact hes e he
  case ring => rw [hsame.dedup, hsame.accepted, hsame.nextRef]; exact h.ring
  case copies => rw [hsame.copies, hsame.accepted]; exact h.copies

/-- What only sends plain frames keeps the books. -/
theorem Emits.sameBooks {P : Sent → Prop} (h : Emits P s t)
    (hP : ∀ e, P e → Plain cfg t.heard e) : SameBooks cfg s t := by
  obtain ⟨es, hsent, hes⟩ := h.sent
  exact ⟨h.requestSeq, h.requests, h.accepted, h.copies, h.lost, h.dedup, h.nextRef,
    fun _ hraw => h.heard ▸ hraw, fun rid => by rw [h.pending],
    fun rid id tid => by rw [h.timers], es, hsent, fun e he => hP _ (hes e he).1⟩

/-- Sending a plain frame keeps the books. -/
theorem sameBooks_wsSend {origin : Origin} {frame : Text}
    (h : Plain cfg s.heard ⟨origin, frame, none⟩) : SameBooks cfg s (s.wsSend origin frame) := by
  refine (wsSend_emits s origin frame).sameBooks fun e he => ?_
  obtain ⟨origin', frame', socket⟩ := e
  obtain ⟨rfl, rfl⟩ := he
  exact h

/-- A readiness event is plain. -/
theorem IsReady.plain {e : Sent} (h : IsReady e) (heard : List Text) : Plain cfg heard e := by
  simp only [Plain, h.1]
  exact h.2

/-- The fields that the books are made of. -/
def books (s : State) :=
  (s.requestSeq, s.requests, s.accepted, s.copies, s.lost, s.dedup, s.nextRef, s.pending,
    s.timers, s.sent)

/-- What leaves the books alone. -/
theorem sameBooks_of_eq (h : t.books = s.books) (hheard : s.heard ⊆ t.heard) :
    SameBooks cfg s t := by
  simp only [books, Prod.mk.injEq] at h
  obtain ⟨hseq, hrequests, haccepted, hcopies, hlost, hdedup, hnextRef, hpending, htimers,
    hsent⟩ := h
  exact ⟨hseq, hrequests, haccepted, hcopies, hlost, hdedup, hnextRef, hheard,
    fun rid => by rw [hpending], fun rid id tid => by rw [htimers], [], by simp [hsent]⟩

/-- Arming a retry timer keeps the books. -/
theorem sameBooks_setTimeout (h : TimersOk s) (callback : TimerCallback) (delay : ℤ)
    (hcallback : ∀ rid id, .request rid id ≠ callback) :
    SameBooks cfg s (s.setTimeout callback delay).2 :=
  ⟨rfl, rfl, rfl, rfl, rfl, rfl, rfl, fun _ hraw => hraw, fun _ => rfl,
    fun rid id tid => exists_lookup_setTimeout h (hcallback rid id) tid, [], by simp [setTimeout]⟩

/-- Disarming a retry timer keeps the books. -/
theorem sameBooks_clearTimeout {id : ℕ}
    (hid : ∀ t, s.timers.lookup id = some t → ∀ rid cmdId, t.callback ≠ .request rid cmdId) :
    SameBooks cfg s (s.clearTimeout id) :=
  ⟨rfl, rfl, rfl, rfl, rfl, rfl, rfl, fun _ hraw => hraw, fun _ => rfl,
    fun rid cmdId tid => exists_lookup_clear (fun t ht => hid t ht rid cmdId) tid, [],
    by simp [clearTimeout]⟩

/-- Arming the bind timer keeps the books. -/
theorem sameBooks_scheduleBindRetry (h : TimersOk s) :
    SameBooks cfg s (s.scheduleBindRetry cfg) := by
  unfold State.scheduleBindRetry
  split_ifs
  · exact .refl s
  split
  · exact .refl s
  · have harm : SameBooks cfg s (s.setTimeout .bindRetry cfg.bindRetryMs).2 :=
      sameBooks_setTimeout h .bindRetry _ (by simp)
    exact harm.trans (sameBooks_of_eq rfl (List.Subset.refl _))

/-- Arming the reconnect timer keeps the books. -/
theorem sameBooks_scheduleWsReconnect (h : TimersOk s) :
    SameBooks cfg s (s.scheduleWsReconnect cfg) := by
  unfold State.scheduleWsReconnect
  split
  · exact .refl s
  · have harm : SameBooks cfg s (s.setTimeout .wsRetry cfg.reconnectMs).2 :=
      sameBooks_setTimeout h .wsRetry _ (by simp)
    exact harm.trans (sameBooks_of_eq rfl (List.Subset.refl _))

/-- A new socket keeps the books. -/
theorem sameBooks_connectWs (cfg : ResolvedConfig) (h : TimersOk s) (socketThrows : Bool) :
    SameBooks cfg s (s.connectWs cfg socketThrows) := by
  unfold State.connectWs
  split_ifs
  · exact .refl s
  · have hnone : SameBooks cfg s { s with ws := none } :=
      sameBooks_of_eq rfl (List.Subset.refl _)
    exact hnone.trans (sameBooks_scheduleWsReconnect (h.congr rfl))
  · exact sameBooks_of_eq rfl (List.Subset.refl _)

/-- Attaching the listener keeps the books. -/
theorem sameBooks_bindCommBus (cfg : ResolvedConfig) (s : State) (bus : ℕ) (onThrows : Bool) :
    SameBooks cfg s (s.bindCommBus cfg bus onThrows) :=
  (bindCommBus_emits cfg bus onThrows s).sameBooks fun _ he => he.plain _

/-- A retry of the binding keeps the books. -/
theorem sameBooks_rebind (onThrows : Bool) : SameBooks cfg s (s.rebind cfg onThrows) :=
  (rebind_emits cfg onThrows s).sameBooks fun _ he => he.plain _

/-- A CommBus call keeps the books. -/
theorem sameBooks_call (cfg : ResolvedConfig) (s : State) (bus : ℕ) (rid : String)
    (payload : Value) (command callThrows : Bool) :
    SameBooks cfg s (s.call cfg bus rid payload command callThrows) :=
  (call_emits (fun _ => False) cfg bus rid payload command callThrows s).sameBooks (by simp)

/-- A change of one socket keeps the books. -/
theorem sameBooks_setSocket (i : ℕ) (f : Socket → Socket) : SameBooks cfg s (s.setSocket i f) :=
  sameBooks_of_eq rfl (List.Subset.refl _)

/-- An open event keeps the books. -/
theorem sameBooks_onOpen (now : TimeValue) : SameBooks cfg s (s.onOpen cfg now) := by
  have hhello : SameBooks cfg s (s.wsSend .hello (.doc (helloFrame cfg now))) :=
    sameBooks_wsSend ⟨now, rfl⟩
  exact hhello.trans (sameBooks_wsSend ⟨_, rfl⟩)

/-- The end of a socket keeps the books. -/
theorem sameBooks_onLost (h : TimersOk s) : SameBooks cfg s (s.onLost cfg) := by
  have hnone : SameBooks cfg s { s with ws := none } :=
    sameBooks_of_eq rfl (List.Subset.refl _)
  exact hnone.trans (sameBooks_scheduleWsReconnect (h.congr rfl))

/-- Initialising keeps the books. -/
theorem sameBooks_init (h : TimersOk s) (socketThrows onThrows : Bool) :
    SameBooks cfg s (s.init impl cfg socketThrows onThrows) := by
  have hbind (u : State) (hu : TimersOk u) (bus : ℕ) :
      SameBooks cfg u ((u.bindCommBus cfg bus onThrows).scheduleBindRetry cfg) :=
    (sameBooks_bindCommBus _ _ bus onThrows).trans
      (sameBooks_scheduleBindRetry (hu.emits (bindCommBus_emits cfg bus onThrows u)))
  have hconnect := sameBooks_connectWs cfg h socketThrows
  have hok : TimersOk (s.connectWs cfg socketThrows) := h.connectWs socketThrows
  refine SameBooks.trans ?_ (hbind _ ?_ _)
  · cases impl <;>
      exact hconnect.trans
        (sameBooks_of_eq rfl (List.Subset.refl _))
  · cases impl <;> exact hok.congr rfl

/-- Closing a socket keeps the books. -/
theorem sameBooks_close (i : ℕ) : SameBooks cfg s (s.close i) := by
  unfold State.close
  split
  · exact sameBooks_of_eq rfl (List.Subset.refl _)
  · exact sameBooks_of_eq rfl (List.Subset.refl _)
  · exact .refl s

/-- Closing the current socket keeps the books. -/
theorem sameBooks_cleanupWs (h : TimersOk s) : SameBooks cfg s s.cleanupWs := by
  have hforget :
      SameBooks cfg s { s.clearTimeout? s.wsRetryTimerId with wsRetryTimerId := none } := by
    unfold State.clearTimeout?
    cases hid : s.wsRetryTimerId with
    | none => exact sameBooks_of_eq rfl (List.Subset.refl _)
    | some id =>
      have hclear : SameBooks cfg s (s.clearTimeout id) := by
        refine sameBooks_clearTimeout fun t ht => ?_
        obtain ⟨d, hd⟩ := (h.wsRetry id).mpr hid
        rw [hd] at ht
        cases ht
        simp
      exact hclear.trans
        (sameBooks_of_eq rfl (List.Subset.refl _))
  have hclose (u : State) : SameBooks cfg u { u.ws.elim u u.close with ws := none } := by
    cases u.ws with
    | none => exact sameBooks_of_eq rfl (List.Subset.refl _)
    | some i =>
      exact (sameBooks_close i).trans
        (sameBooks_of_eq rfl (List.Subset.refl _))
  exact hforget.trans (hclose _)

/-- Clearing the bind timer keeps the books. -/
theorem sameBooks_cleanupBindRetry (h : TimersOk s) : SameBooks cfg s s.cleanupBindRetry := by
  unfold State.cleanupBindRetry State.clearTimeout?
  cases hid : s.bindRetryTimerId with
  | none => exact sameBooks_of_eq rfl (List.Subset.refl _)
  | some id =>
    have hclear : SameBooks cfg s (s.clearTimeout id) := by
      refine sameBooks_clearTimeout fun t ht => ?_
      obtain ⟨d, hd⟩ := (h.bindRetry id).mpr hid
      rw [hd] at ht
      cases ht
      simp
    exact hclear.trans
      (sameBooks_of_eq rfl (List.Subset.refl _))

/-- Detaching the listener keeps the books. -/
theorem sameBooks_tryOff (cfg : ResolvedConfig) (bus : ℕ) (offThrows : Bool) :
    SameBooks cfg s (s.tryOff cfg bus offThrows) :=
  (tryOff_emits (fun _ => False) cfg bus offThrows s).sameBooks (by simp)

/-- Giving the CommBus handle back keeps the books. -/
theorem sameBooks_unregister (bus : ℕ) : SameBooks cfg s (s.unregister bus) :=
  (unregister_emits (fun _ => False) bus s).sameBooks (by simp)

/-- Leaving the CommBus keeps the books. -/
theorem sameBooks_unhook (cfg : ResolvedConfig) (offThrows unregisterThrows : Bool) :
    SameBooks cfg s (s.unhook cfg offThrows unregisterThrows) :=
  (unhook_emits (fun _ => False) cfg offThrows unregisterThrows s).sameBooks (by simp)

/-- What `destroy` does after the pending requests are refused keeps the books. -/
theorem sameBooks_destroy (h : TimersOk s) (offThrows unregisterThrows : Bool) :
    SameBooks cfg s.rejectPending (s.destroy impl cfg offThrows unregisterThrows) := by
  have hforget (u : State) (handler : Option ℕ) :
      SameBooks cfg u { u with commBus := none, commBusBound := false, onWasmHandler := handler } :=
    sameBooks_of_eq rfl (List.Subset.refl _)
  have hok (u : State) (hu : TimersOk u) (handler : Option ℕ) :
      TimersOk { u with commBus := none, commBusBound := false, onWasmHandler := handler } :=
    hu.congr rfl
  unfold State.destroy
  cases impl with
  | typescript =>
    have hbind : SameBooks cfg s.rejectPending s.rejectPending.cleanupBindRetry :=
      sameBooks_cleanupBindRetry h.rejectPending
    have hbindOk := h.rejectPending.cleanupBindRetry
    dsimp only
    split
    · exact (hbind.trans (hforget _ _)).trans (sameBooks_cleanupWs (hok _ hbindOk _))
    · next bus _ =>
      have hoff := hbind.trans (sameBooks_tryOff cfg bus offThrows)
      split
      · exact hoff
      · have hoffOk := (hbindOk.emits (tryOff_emits (fun _ => False) cfg bus offThrows _)).emits
          (unregister_emits (fun _ => False) bus _)
        exact ((hoff.trans (sameBooks_unregister bus)).trans (hforget _ _)).trans
          (sameBooks_cleanupWs (hok _ hoffOk _))
  | rescript =>
    have hunhook := (sameBooks_unhook (s := s.rejectPending) cfg offThrows unregisterThrows).trans
      (hforget _ none)
    have hunhookOk : TimersOk (s.rejectPending.unhook cfg offThrows unregisterThrows) :=
      h.rejectPending.emits (unhook_emits (fun _ => False) cfg offThrows unregisterThrows _)
    have hforgetOk := hok _ hunhookOk none
    exact (hunhook.trans (sameBooks_cleanupBindRetry hforgetOk)).trans
      (sameBooks_cleanupWs hforgetOk.cleanupBindRetry)

end State

end InfinityBridge.Relay
