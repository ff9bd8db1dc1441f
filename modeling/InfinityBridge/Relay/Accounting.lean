import InfinityBridge.Relay.Books

/-!
# Every command is answered once

A command that is not a duplicate is entered in `pending` under a request id of its
own, with a timer. Whatever takes it out (the answer, the timer, the rejection of
the CommBus call, a missing CommBus, `destroy`) disarms the timer and sends one ack.
-/

namespace InfinityBridge.Relay

namespace State

variable {impl : Impl} {cfg : ResolvedConfig} {s t : State} {e : RelayEvent}

/-- How many of the answers to one request are answers to `rid'`. -/
theorem answers_of_origin {rid : String} {es : List Sent}
    (hes : ∀ e ∈ es, ∃ own, e.origin = .answer rid own) (rid' : String) :
    answers rid' es = if rid' = rid then es.length else 0 := by
  split_ifs with hrid
  · rw [answers, List.countP_eq_length]
    intro e he
    obtain ⟨own, horigin⟩ := hes e he
    simp only [Sent.answers, horigin, hrid, decide_true]
  · refine answers_eq_zero fun e he own horigin => hrid ?_
    obtain ⟨own', horigin'⟩ := hes e he
    rw [horigin, Origin.answer.injEq] at horigin'
    exact horigin'.1

/-- How often one request id occurs among copies of another. -/
theorem count_of_forall_eq {rid : String} {lost : List String} (hlost : ∀ rid' ∈ lost, rid' = rid)
    (rid' : String) : lost.count rid' = if rid' = rid then lost.length else 0 := by
  split_ifs with hrid
  · exact List.count_eq_length.mpr fun rid'' hmem => hrid.trans (hlost rid'' hmem).symm
  · exact List.count_eq_zero.mpr fun hmem => hrid (hlost rid' hmem)

/-- Taking a request out leaves the others pending, with their timers armed. -/
theorem Accounted.armed_take (h : Accounted impl cfg s) {rid : String} {p : PendingRequest}
    (hp : s.pending.lookup rid = some p) (rid' : String) (id : Option Value) (tid : ℕ) :
    (∃ d, (s.take rid p).timers.lookup tid = some ⟨.request rid' id, d⟩) ↔
      rid' ≠ rid ∧ s.pending.lookup rid' = some ⟨id, tid⟩ := by
  constructor
  · rintro ⟨d, hd⟩
    obtain ⟨hne, hd⟩ := lookup_of_clear hd
    have hlook := (h.armed rid' id tid).mp ⟨d, hd⟩
    refine ⟨fun hrid => hne ?_, hlook⟩
    rw [hrid, hp, Option.some.injEq] at hlook
    rw [hlook]
  · rintro ⟨hne, hlook⟩
    obtain ⟨d, hd⟩ := (h.armed rid' id tid).mpr hlook
    obtain ⟨d', hd'⟩ := (h.armed rid p.cmdId p.timerId).mpr hp
    refine ⟨d, ?_⟩
    have htid : tid ≠ p.timerId := by
      rintro rfl
      rw [hd', Option.some.injEq, Timer.mk.injEq, TimerCallback.request.injEq] at hd
      exact hne hd.1.1.symm
    exact (Table.lookup_erase_eq _ _ _).trans ((if_neg htid).trans hd)

/-- A request id that is not accepted has no answer, and lost none. -/
theorem Accounted.unanswered (h : Accounted impl cfg s) {rid : String}
    (hnew : ∀ id, (rid, id) ∉ s.accepted) :
    answers rid s.sent = 0 ∧ s.lost.count rid = 0 := by
  constructor
  · refine answers_eq_zero fun e he own horigin => ?_
    cases own with
    | true =>
      obtain ⟨id, _, hacc, _⟩ := h.refused e he rid horigin
      exact hnew id hacc
    | false =>
      obtain ⟨id, _, _, _, _, _, _, hacc, _⟩ := h.responded e he rid horigin
      exact hnew id hacc
  · refine List.count_eq_zero.mpr fun hlost => ?_
    obtain ⟨id, hacc⟩ := h.lostAccepted rid hlost
    exact hnew id hacc

/-- Settling a pending request: it is taken out, its timer is disarmed, and either one
frame is sent for it, or its answer is lost. -/
theorem Accounted.settle (h : Accounted impl cfg s) {rid : String} {p : PendingRequest}
    (hp : s.pending.lookup rid = some p) (es : List Sent) (lost : List String)
    (hes : ∀ e ∈ es, ∃ own, e.origin = .answer rid own ∧
      if own then Refused s rid e.frame else Responded impl s rid e.frame)
    (hlost : ∀ rid' ∈ lost, rid' = rid) (hone : es.length + lost.length = 1) :
    Accounted impl cfg { s.take rid p with sent := s.sent ++ es, lost := s.lost ++ lost } := by
  have hpending (rid' : String) (q : PendingRequest) :
      (s.pending.erase rid).lookup rid' = some q ↔ rid' ≠ rid ∧ s.pending.lookup rid' = some q := by
    rw [Table.lookup_erase_eq]
    split_ifs with hrid <;> simp [hrid]
  have horigins : ∀ e ∈ es, ∃ own, e.origin = .answer rid own := by
    intro e he
    obtain ⟨own, horigin, _⟩ := hes e he
    exact ⟨own, horigin⟩
  constructor
  case seq => exact h.seq
  case drawn => exact h.drawn
  case nodup => exact h.nodup
  case pending => exact fun rid' q hq => h.pending rid' q ((hpending rid' q).mp hq).2
  case armed =>
    intro rid' id tid
    exact (h.armed_take hp rid' id tid).trans (hpending rid' ⟨id, tid⟩).symm
  case answered =>
    intro rid' id hacc
    have hbefore := h.answered rid' id hacc
    have hlook : (s.take rid p).pending.lookup rid' =
        if rid' = rid then none else s.pending.lookup rid' := Table.lookup_erase_eq _ _ _
    rw [hlook, List.count_append, answers_append, answers_of_origin horigins rid',
      count_of_forall_eq hlost rid']
    by_cases hrid : rid' = rid
    · rw [hrid, hp] at hbefore
      simp only [Option.isSome_some, if_true] at hbefore
      simp only [hrid, if_true, Option.isSome_none, Bool.false_eq_true, if_false]
      omega
    · simp only [if_neg hrid]
      exact hbefore
  case lostAccepted =>
    intro rid' hmem
    rcases List.mem_append.mp hmem with hmem | hmem
    · exact h.lostAccepted rid' hmem
    · rw [hlost rid' hmem]
      exact ⟨p.cmdId, h.pending rid p hp⟩
  case responded =>
    intro e he rid' horigin
    rcases List.mem_append.mp he with he | he
    · exact h.responded e he rid' horigin
    · obtain ⟨own, horigin', hframe⟩ := hes e he
      obtain ⟨rfl, rfl⟩ := Origin.answer.inj (horigin.symm.trans horigin')
      exact hframe
  case refused =>
    intro e he rid' horigin
    rcases List.mem_append.mp he with he | he
    · exact h.refused e he rid' horigin
    · obtain ⟨own, horigin', hframe⟩ := hes e he
      obtain ⟨rfl, rfl⟩ := Origin.answer.inj (horigin.symm.trans horigin')
      exact hframe
  case duplicates =>
    have hnone : duplicateFrames es = [] := by
      rw [duplicateFrames, List.map_eq_nil_iff, List.filter_eq_nil_iff]
      intro e he
      obtain ⟨own, horigin⟩ := horigins e he
      simp [horigin]
    rw [duplicateFrames_append, hnone, List.append_nil]
    exact h.duplicates
  case plain =>
    intro e he hduplicate hanswer
    rcases List.mem_append.mp he with he | he
    · exact h.plain e he hduplicate hanswer
    · obtain ⟨own, horigin⟩ := horigins e he
      exact absurd horigin (hanswer rid own)
  case ring => exact h.ring
  case copies => exact h.copies

/-- Sending the answer to a pending request. -/
theorem Accounted.answer (h : Accounted impl cfg s) {rid : String} {p : PendingRequest}
    (hp : s.pending.lookup rid = some p) (own : Bool) {frame : Text}
    (hframe : if own then Refused s rid frame else Responded impl s rid frame) :
    Accounted impl cfg ((s.take rid p).wsSend (.answer rid own) frame) := by
  have hsettle := h.settle hp [⟨.answer rid own, frame, (s.take rid p).openSocket⟩] []
    (fun e he => ⟨own, by rw [List.mem_singleton.mp he], List.mem_singleton.mp he ▸ hframe⟩)
    (by simp) rfl
  rw [List.append_nil] at hsettle
  exact hsettle

/-- Losing the answer to a pending request. -/
theorem Accounted.lose (h : Accounted impl cfg s) {rid : String} {p : PendingRequest}
    (hp : s.pending.lookup rid = some p) :
    Accounted impl cfg { s.take rid p with lost := s.lost ++ [rid] } := by
  have hsettle := h.settle hp [] [rid] (by simp) (by simp) rfl
  rw [List.append_nil] at hsettle
  exact hsettle

/-- Refusing a pending request. -/
theorem Accounted.refuse (h : Accounted impl cfg s) {rid : String} {p : PendingRequest}
    (hp : s.pending.lookup rid = some p) (message : String) :
    Accounted impl cfg ((s.take rid p).refuse rid p.cmdId message) :=
  h.answer hp true ⟨p.cmdId, message, h.pending rid p hp, rfl⟩

/-- The counter below its bound. -/
theorem succ_natCast (impl : Impl) {n : ℕ} (hn : n + 1 < 2 ^ 31) :
    impl.succ n = (n + 1 : ℕ) := by
  cases impl with
  | typescript =>
    rw [Impl.succ, if_pos (by omega), Nat.cast_succ]
  | rescript =>
    rw [Impl.succ, Nat.cast_succ]
    exact Int.bmod_eq_of_le (by omega) (by omega)

/-- Drawing a request id. -/
theorem Accounted.nextRequestId (h : Accounted impl cfg s) (now : TimeValue)
    (hbound : s.requests + 1 < 2 ^ 31) : Accounted impl cfg (s.nextRequestId impl now).2 := by
  have hseq : (s.nextRequestId impl now).2.requestSeq = (s.requests + 1 : ℕ) := by
    simp only [State.nextRequestId, h.seq, succ_natCast impl hbound]
  exact { h with
    seq := hseq
    drawn := fun rid id hmem => by
      obtain ⟨now', n, hrid, hn⟩ := h.drawn rid id hmem
      exact ⟨now', n, hrid, Nat.le_succ_of_le hn⟩ }

/-- The request id that is drawn is new. -/
theorem Accounted.notMem_accepted (h : Accounted impl cfg s) (now : TimeValue)
    (hbound : s.requests + 1 < 2 ^ 31) (id : Option Value) :
    ((s.nextRequestId impl now).1, id) ∉ s.accepted := by
  intro hmem
  obtain ⟨now', n, hrid, hn⟩ := h.drawn _ _ hmem
  have hown : (s.nextRequestId impl now).1 = requestIdText now (s.requests + 1 : ℕ) := by
    simp only [State.nextRequestId, h.seq, succ_natCast impl hbound, requestIdText]
  have := requestIdText_injective (hown.symm.trans hrid)
  omega

/-- The timer of a new entry is that of its request and of no other one. -/
theorem Accounted.armed_enter (h : Accounted impl cfg s) (htimers : TimersOk s) {rid : String}
    (hpending : s.pending.lookup rid = none) (id : Option Value) (delay : ℤ) (rid' : String)
    (id' : Option Value) (tid : ℕ) :
    (∃ d, (s.setTimeout (.request rid id) delay).2.timers.lookup tid =
        some ⟨.request rid' id', d⟩) ↔
      (s.pending.insert rid ⟨id, s.nextTimer⟩).lookup rid' = some ⟨id', tid⟩ := by
  rw [Table.lookup_insert_eq]
  simp only [lookup_setTimeout]
  by_cases htid : tid = s.nextTimer
  · simp only [htid, if_true, Option.some.injEq, Timer.mk.injEq, TimerCallback.request.injEq,
      exists_and_left, exists_eq', and_true]
    split_ifs with hrid
    · simp [hrid]
    · refine ⟨fun heq => absurd heq.1.symm hrid, fun hlook => ?_⟩
      exact absurd (htimers.pending rid' _ hlook).1 (lt_irrefl _)
  · simp only [htid, if_false]
    split_ifs with hrid
    · subst hrid
      rw [h.armed, hpending]
      simp [Ne.symm htid]
    · exact h.armed rid' id' tid

/-- Entering a request under a new request id and a new timer, with its command marked. -/
theorem Accounted.enter (h : Accounted impl cfg s) (htimers : TimersOk s) {rid : String}
    (hdrawn : ∃ now n, rid = requestIdText now (n : ℕ) ∧ n ≤ s.requests)
    (hnew : ∀ id, (rid, id) ∉ s.accepted) (id : Option Value) (delay : ℤ)
    {dedup : DedupRing Key} (hdedup : s.dedup.mark (Key.of s.nextRef id) = some dedup) :
    Accounted impl cfg { (s.setTimeout (.request rid id) delay).2 with
      pending := s.pending.insert rid ⟨id, s.nextTimer⟩
      accepted := s.accepted ++ [(rid, id)]
      dedup
      nextRef := s.nextRef + 1 } := by
  have hpending : s.pending.lookup rid = none := by
    cases hlook : s.pending.lookup rid with
    | none => rfl
    | some p => exact absurd (h.pending rid p hlook) (hnew p.cmdId)
  have hsub : s.accepted ⊆ s.accepted ++ [(rid, id)] := List.subset_append_left _ _
  constructor
  case seq => exact h.seq
  case drawn =>
    intro rid' id' hmem
    rcases List.mem_append.mp hmem with hmem | hmem
    · exact h.drawn rid' id' hmem
    · cases List.mem_singleton.mp hmem
      exact hdrawn
  case nodup =>
    rw [List.map_append, List.nodup_append]
    refine ⟨h.nodup, List.nodup_singleton _, ?_⟩
    rintro rid' hrid' _ hlast rfl
    obtain ⟨⟨rid'', id'⟩, hmem, rfl⟩ := List.mem_map.mp hrid'
    have hrid'' : rid'' = rid := List.mem_singleton.mp hlast
    exact hnew id' (hrid'' ▸ hmem)
  case pending =>
    intro rid' p hp
    rw [Table.lookup_insert_eq] at hp
    split_ifs at hp with hrid
    · cases hp
      exact List.mem_append_right _ (by simp [hrid])
    · exact hsub (h.pending rid' p hp)
  case armed => exact h.armed_enter htimers hpending id delay
  case answered =>
    intro rid' id' hmem
    have hlook := Table.lookup_insert_eq rid rid' ⟨id, s.nextTimer⟩ s.pending
    rw [hlook]
    by_cases hrid : rid' = rid
    · obtain ⟨hzero, hcount⟩ := h.unanswered hnew
      rw [hrid]
      simpa [setTimeout, hzero] using hcount
    · rcases List.mem_append.mp hmem with hmem | hmem
      · simpa [hrid, setTimeout] using h.answered rid' id' hmem
      · cases List.mem_singleton.mp hmem
        exact absurd rfl hrid
  case lostAccepted =>
    intro rid' hlost
    obtain ⟨id', hacc⟩ := h.lostAccepted rid' hlost
    exact ⟨id', hsub hacc⟩
  case responded => exact fun e he rid' horigin =>
    (h.responded e he rid' horigin).mono hsub fun _ hraw => hraw
  case refused => exact fun e he rid' horigin => (h.refused e he rid' horigin).mono hsub
  case duplicates => exact h.duplicates
  case plain => exact h.plain
  case ring =>
    intro k hk
    rcases Finset.mem_insert.mp (DedupRing.mark_set_subset hdedup hk) with rfl | hk
    · exact ⟨rid, id, s.nextRef, List.mem_append_right _ (List.mem_singleton.mpr rfl),
        Nat.lt_succ_self _, rfl⟩
    · obtain ⟨rid', id', ref, hacc, href, hkey⟩ := h.ring k hk
      exact ⟨rid', id', ref, hsub hacc, Nat.lt_succ_of_lt href, hkey⟩
  case copies =>
    intro id' hcopy
    obtain ⟨rid', id'', hacc, hkey⟩ := h.copies id' hcopy
    exact ⟨rid', id'', hsub hacc, hkey⟩

/-- A command that is no duplicate: its request id is new, and so is its timer. -/
theorem Accounted.openRequest (h : Accounted impl cfg s) (htimers : TimersOk s)
    (id : Option Value) (now : TimeValue) (hbound : s.requests + 1 < 2 ^ 31)
    {dedup : DedupRing Key} (hdedup : s.dedup.mark (Key.of s.nextRef id) = some dedup) :
    Accounted impl cfg
      ({ s with nextRef := s.nextRef + 1, dedup }.openRequest impl cfg id now).2 := by
  have htimers' : TimersOk (s.nextRequestId impl now).2 := htimers.congr rfl
  have hown : (s.nextRequestId impl now).1 = requestIdText now (s.requests + 1 : ℕ) := by
    simp only [State.nextRequestId, h.seq, succ_natCast impl hbound, requestIdText]
  exact (h.nextRequestId now hbound).enter htimers' ⟨now, _, hown, le_rfl⟩
    (h.notMem_accepted now hbound) id _ hdedup

/-- A key that is held is the key of an accepted command, whatever identity a new object
is given. -/
theorem Accounted.sameKey_of_has (h : Accounted impl cfg s) {id : Option Value}
    (hhas : s.dedup.has (Key.of s.nextRef id) = true) :
    ∃ rid id', (rid, id') ∈ s.accepted ∧ SameKey id' id := by
  obtain ⟨rid, id', ref, hacc, href, hkey⟩ := h.ring _ (of_decide_eq_true hhas)
  refine ⟨rid, id', hacc, ref, ?_⟩
  rcases id with _ | ⟨_ | _ | _ | _ | _ | _⟩
  case some.arr | some.obj =>
    -- the identity of a new object is in no ring
    exfalso
    rcases id' with _ | ⟨_ | _ | _ | _ | _ | _⟩ <;> simp only [Key.of, reduceCtorEq] at hkey
    all_goals
      rw [Key.ref.injEq] at hkey
      omega
  all_goals exact hkey.symm

/-- A parsed message takes identities for its objects. -/
theorem Accounted.nextRef (h : Accounted impl cfg s) :
    Accounted impl cfg { s with nextRef := s.nextRef + 1 } :=
  { h with
    ring := fun k hk => by
      obtain ⟨rid, id, ref, hacc, href, hkey⟩ := h.ring k hk
      exact ⟨rid, id, ref, hacc, Nat.lt_succ_of_lt href, hkey⟩ }

/-- A duplicate is answered at once. -/
theorem Accounted.onDuplicate (h : Accounted impl cfg s) {id : Option Value}
    (hcopy : ∃ rid id', (rid, id') ∈ s.accepted ∧ SameKey id' id) :
    Accounted impl cfg (s.onDuplicate id) := by
  have hmem {e : Sent} (he : e ∈ (s.onDuplicate id).sent) :
      e ∈ s.sent ∨ e.origin = .duplicate := by
    rcases List.mem_append.mp he with he | he
    · exact .inl he
    · exact .inr (List.mem_singleton.mp he ▸ rfl)
  constructor
  case seq => exact h.seq
  case drawn => exact h.drawn
  case nodup => exact h.nodup
  case pending => exact h.pending
  case armed => exact h.armed
  case answered =>
    intro rid id' hacc
    have hzero : answers rid [⟨.duplicate, .doc (duplicateAck id), s.openSocket⟩] = 0 :=
      answers_eq_zero fun e he own horigin => by
        rw [List.mem_singleton.mp he] at horigin
        cases horigin
    have happend : answers rid (s.onDuplicate id).sent = answers rid s.sent :=
      (answers_append _ _ _).trans (Nat.add_eq_left.mpr hzero)
    rw [happend]
    exact h.answered rid id' hacc
  case lostAccepted => exact h.lostAccepted
  case responded =>
    intro e he rid horigin
    rcases hmem he with he | hdup
    · exact (h.responded e he rid horigin).mono (fun _ hacc => hacc) fun _ hraw => hraw
    · rw [hdup] at horigin
      cases horigin
  case refused =>
    intro e he rid horigin
    rcases hmem he with he | hdup
    · exact (h.refused e he rid horigin).mono fun _ hacc => hacc
    · rw [hdup] at horigin
      cases horigin
  case duplicates =>
    have hsent : (s.onDuplicate id).sent =
        s.sent ++ [⟨.duplicate, .doc (duplicateAck id), s.openSocket⟩] := rfl
    have hcopies : (s.onDuplicate id).copies = s.copies ++ [id] := rfl
    have hlast : duplicateFrames [⟨.duplicate, .doc (duplicateAck id), s.openSocket⟩] =
        [.doc (duplicateAck id)] := by simp [duplicateFrames]
    rw [hsent, hcopies, duplicateFrames_append, hlast, h.duplicates, List.map_append,
      List.map_singleton]
  case plain =>
    intro e he hduplicate hanswer
    rcases hmem he with he | hdup
    · exact h.plain e he hduplicate hanswer
    · exact absurd hdup hduplicate
  case ring => exact h.ring
  case copies =>
    intro id' hmem'
    rcases List.mem_append.mp hmem' with hmem' | hmem'
    · exact h.copies id' hmem'
    · exact List.mem_singleton.mp hmem' ▸ hcopy

/-- A command that cannot be forwarded is refused, and so answered. -/
theorem Accounted.forwardCommand (h : Accounted impl cfg s) (rid : String) (frame : Value)
    (onThrows callThrows : Bool) :
    Accounted impl cfg (s.forwardCommand cfg rid frame onThrows callThrows) := by
  unfold State.forwardCommand
  cases s.commBus with
  | none =>
    cases hp : s.pending.lookup rid with
    | none => exact h
    | some p => exact h.refuse hp commBusNotReady
  | some bus =>
    exact h.same ((sameBooks_bindCommBus _ _ bus onThrows).trans
      (sameBooks_call _ _ bus rid frame _ _))

/-- Forwarding draws no request id and records no command. -/
theorem forwardCommand_books (rid : String) (frame : Value) (onThrows callThrows : Bool) :
    (s.forwardCommand cfg rid frame onThrows callThrows).requests = s.requests ∧
      (s.forwardCommand cfg rid frame onThrows callThrows).copies = s.copies ∧
      (s.forwardCommand cfg rid frame onThrows callThrows).accepted = s.accepted ∧
      (s.forwardCommand cfg rid frame onThrows callThrows).lost = s.lost ∧
      (s.forwardCommand cfg rid frame onThrows callThrows).dedup = s.dedup := by
  unfold State.forwardCommand
  split
  · split
    · exact ⟨rfl, rfl, rfl, rfl, rfl⟩
    · exact ⟨rfl, rfl, rfl, rfl, rfl⟩
  · next bus _ =>
    have hsame := (sameBooks_bindCommBus cfg s bus onThrows).trans
      (sameBooks_call cfg _ bus rid frame true callThrows)
    exact ⟨hsame.requests, hsame.copies, hsame.accepted, hsame.lost, hsame.dedup⟩

/-- Whether the ring holds the id or not. -/
theorem Accounted.onHostCommand (h : Accounted impl cfg s) (htimers : TimersOk s)
    {id : Option Value} {frame : Value} {now : TimeValue} {onThrows callThrows : Bool}
    (hstep : s.onHostCommand impl cfg id frame now onThrows callThrows = some t)
    (hbound : t.requests < 2 ^ 31) : Accounted impl cfg t := by
  unfold State.onHostCommand at hstep
  dsimp only at hstep
  split_ifs at hstep with hhas
  · cases hstep
    exact h.nextRef.onDuplicate (h.sameKey_of_has hhas)
  · obtain ⟨dedup, hdedup, rfl⟩ := Option.map_eq_some_iff.mp hstep
    rw [(forwardCommand_books _ _ _ _).1] at hbound
    exact (h.openRequest htimers id now hbound hdedup).forwardCommand _ _ _ _

/-- A message of the host keeps the account. -/
theorem Accounted.onHostMessage (h : Accounted impl cfg s) (htimers : TimersOk s)
    {data : Option Text} {now : TimeValue} {onThrows callThrows : Bool}
    (hstep : s.onHostMessage impl cfg data now onThrows callThrows = some t)
    (hbound : t.requests < 2 ^ 31) : Accounted impl cfg t := by
  unfold State.onHostMessage at hstep
  split at hstep
  · cases hstep
    exact h
  · split at hstep
    · cases hstep
      exact h.same (sameBooks_wsSend ⟨now, rfl⟩)
    · exact h.onHostCommand htimers hstep hbound
    · cases hstep
      unfold State.onHostEvent at hbound ⊢
      split at hbound
      · exact h
      · next bus _ =>
        dsimp only at hbound ⊢
        rw [(sameBooks_call _ _ _ _ _ _ _).requests] at hbound
        exact (h.nextRequestId now hbound).same (sameBooks_call _ _ _ _ _ _ _)
    · cases hstep
      exact h

/-- A message of the module keeps the account: it answers its request, or loses the answer. -/
theorem Accounted.onWasmMessage (h : Accounted impl cfg s) {raw : Text}
    (hheard : raw ∈ s.heard) : Accounted impl cfg (s.onWasmMessage impl raw) := by
  unfold State.onWasmMessage
  split
  · exact h
  · next j hparse =>
    split
    · next rid ok response error hj =>
      split
      · exact h
      · next p hp =>
        split
        · exact h.lose hp
        · next ack hack =>
          exact h.answer hp false ⟨p.cmdId, raw, j, ok, response, error, ack,
            h.pending rid p hp, hheard, hparse, hj, hack, rfl⟩
    · exact h.same (sameBooks_wsSend hheard)
    · exact h

/-- The rejection of a call keeps the account in the same way. -/
theorem Accounted.onCallRejected (h : Accounted impl cfg s) (c : BusCall) (reason : Rejection) :
    Accounted impl cfg (s.onCallRejected impl c reason) := by
  unfold State.onCallRejected
  split_ifs
  · split
    · exact h
    · next p hp =>
      split
      · exact h.lose hp
      · exact h.refuse hp _
  · exact h

/-- A request whose timer fires is still pending. -/
theorem Accounted.onRequestTimeout (h : Accounted impl cfg s) {id : ℕ} {rid : String}
    {cmdId : Option Value} {delay : ℤ}
    (htimer : s.timers.lookup id = some ⟨.request rid cmdId, delay⟩) :
    Accounted impl cfg ((s.clearTimeout id).onRequestTimeout rid cmdId) :=
  h.refuse ((h.armed rid cmdId id).mp ⟨delay, htimer⟩) _

/-- Refusing the pending requests one after the other, `pending` being cleared at the
end, is as good as taking each one out. -/
theorem Accounted.rejectAll {es : List (Sigma fun _ : String => PendingRequest)}
    (pending : Table String PendingRequest) (h : Accounted impl cfg { s with pending })
    (hes : ∀ rid p, pending.lookup rid = some p ↔ ⟨rid, p⟩ ∈ es)
    (hnodup : (es.map fun e => e.1).Nodup) :
    Accounted impl cfg { s.rejectAll es with pending := ∅ } := by
  induction es generalizing s pending with
  | nil =>
    refine h.same ⟨rfl, rfl, rfl, rfl, rfl, rfl, rfl, fun _ hraw => hraw, fun rid => ?_,
      fun _ _ _ => Iff.rfl, [], by simp [State.rejectAll]⟩
    cases hlook : pending.lookup rid with
    | none => rfl
    | some p => cases (hes rid p).mp hlook
  | cons e es ih =>
    have hlook := (hes e.1 e.2).mpr List.mem_cons_self
    rw [List.map_cons, List.nodup_cons] at hnodup
    refine ih (pending.erase e.1) (h.refuse hlook relayDestroyed) ?_ hnodup.2
    intro rid p
    rw [Table.lookup_erase_eq]
    split_ifs with hrid
    · refine ⟨fun hnone => (by cases hnone), fun hmem => ?_⟩
      exact absurd (List.mem_map.mpr ⟨⟨rid, p⟩, hmem, hrid⟩) hnodup.1
    · rw [hes, List.mem_cons]
      refine ⟨fun hmem => hmem.resolve_left ?_, .inr⟩
      rintro rfl
      exact hrid rfl

/-- Refusing all that is pending answers each request. -/
theorem Accounted.rejectPending (h : Accounted impl cfg s) :
    Accounted impl cfg s.rejectPending := by
  refine Accounted.rejectAll s.pending h (fun rid p => ?_) ?_
  · rw [Table.lookup_eq_some_iff, List.mem_reverse]
  · rw [List.map_reverse, List.nodup_reverse]
    exact s.pending.nodupKeys

/-- A retry timer that fires keeps the books. -/
theorem sameBooks_onTimer (h : TimersOk s) {id : ℕ} {callback : TimerCallback} {delay : ℤ}
    (ht : s.timers.lookup id = some ⟨callback, delay⟩)
    (hcallback : ∀ rid cmdId, callback ≠ .request rid cmdId) (onThrows socketThrows : Bool) :
    SameBooks cfg s ((s.clearTimeout id).onTimer cfg callback onThrows socketThrows) := by
  have hclear : SameBooks cfg s (s.clearTimeout id) := by
    refine sameBooks_clearTimeout fun t ht' => ?_
    rw [ht] at ht'
    cases ht'
    exact hcallback
  cases callback with
  | bindRetry =>
    have hforgetOk := h.forgetBindRetry ((h.bindRetry id).mp ⟨delay, ht⟩)
    have hforget : SameBooks cfg s { s.clearTimeout id with bindRetryTimerId := none } :=
      hclear.trans (sameBooks_of_eq rfl (List.Subset.refl _))
    exact (hforget.trans (sameBooks_rebind onThrows)).trans
      (sameBooks_scheduleBindRetry (hforgetOk.emits (rebind_emits cfg onThrows _)))
  | wsRetry =>
    have hforgetOk := h.forgetWsRetry ((h.wsRetry id).mp ⟨delay, ht⟩)
    have hforget : SameBooks cfg s { s.clearTimeout id with wsRetryTimerId := none } :=
      hclear.trans (sameBooks_of_eq rfl (List.Subset.refl _))
    exact hforget.trans (sameBooks_connectWs cfg hforgetOk socketThrows)
  | request rid cmdId => exact absurd rfl (hcallback rid cmdId)

/-- The events by which something reaches the relay from outside. -/
def isArrival : RelayEvent → Bool
  | .socketMessage .. | .wasmMessage _ => true
  | _ => false

/-- What the other events do to the books: nothing, or they refuse the pending requests, the
one whose timer has fired, or the one whose call was rejected. -/
theorem books_step (h : TimersOk s) (he : isArrival e = false)
    (hstep : step impl cfg s e = some t) :
    SameBooks cfg s t ∨ SameBooks cfg s.rejectPending t ∨
      (∃ id rid cmdId delay, s.timers.lookup id = some ⟨.request rid cmdId, delay⟩ ∧
        t = (s.clearTimeout id).onRequestTimeout rid cmdId) ∨
      ∃ n u c reason, e = .callRejected n reason ∧ SameBooks cfg s u ∧
        t = u.onCallRejected impl c reason := by
  cases e <;> simp only [step] at hstep
  case init =>
    cases hstep
    exact .inl (sameBooks_init h _ _)
  case destroy =>
    cases hstep
    exact .inr (.inl (sameBooks_destroy h _ _))
  case continuation bus onThrows =>
    split_ifs at hstep
    cases hstep
    exact .inl (sameBooks_bindCommBus cfg s bus onThrows)
  case timer id onThrows socketThrows =>
    obtain ⟨⟨callback, delay⟩, ht, rfl⟩ := Option.map_eq_some_iff.mp hstep
    cases callback with
    | request rid cmdId => exact .inr (.inr (.inl ⟨id, rid, cmdId, delay, ht, rfl⟩))
    | bindRetry | wsRetry => exact .inl (sameBooks_onTimer h ht (by simp) _ _)
  case socketOpen i now =>
    split_ifs at hstep
    cases hstep
    exact .inl ((sameBooks_setSocket i _).trans (sameBooks_onOpen now))
  case socketMessage => cases he
  case socketError | socketClose =>
    split_ifs at hstep
    cases hstep
    exact .inl ((sameBooks_setSocket _ _).trans (sameBooks_onLost (h.setSocket _ _)))
  case socketDrop =>
    split_ifs at hstep
    cases hstep
    exact .inl (sameBooks_setSocket _ _)
  case wasmMessage => cases he
  case callRejected n reason =>
    obtain ⟨c, _, rfl⟩ := Option.map_eq_some_iff.mp hstep
    refine .inr (.inr (.inr ⟨n, { s with calls := s.calls.erase n }, c, reason, rfl, ?_, rfl⟩))
    exact sameBooks_of_eq rfl (List.Subset.refl _)

/-- Whatever the step answers can be turned into an ack: the error of a response to a pending
request has a string form, and the rejection of the call of a pending command has a message. -/
def Answerable (impl : Impl) (s : State) : RelayEvent → Prop
  | .wasmMessage raw => ∀ j rid response error, raw.jsonParse = some j →
      wasmMessage impl j = .response rid false response error →
      s.pending.lookup rid ≠ none → refusal impl numberText error ≠ none
  | .callRejected n reason => ∀ c, s.calls.lookup n = some c → c.command = true →
      s.pending.lookup c.requestId ≠ none → reason.message impl ≠ none
  | _ => True

/-- A callback that loses no answer. -/
structure Grows (s t : State) : Prop where
  requests : s.requests ≤ t.requests
  lost : t.lost = s.lost

/-- Nothing is lost where nothing happens. -/
theorem Grows.refl (s : State) : Grows s s := ⟨le_rfl, rfl⟩

/-- What keeps the books loses no answer. -/
theorem SameBooks.grows (h : SameBooks cfg s t) : Grows s t := ⟨h.requests.ge, h.lost⟩

/-- Refusals lose no answer. -/
theorem grows_rejectAll (es : List (Sigma fun _ : String => PendingRequest)) :
    Grows s (s.rejectAll es) := by
  induction es generalizing s with
  | nil => exact .refl s
  | cons e es ih =>
    have hrest := ih (s := (s.clearTimeout e.2.timerId).refuse e.1 e.2.cmdId relayDestroyed)
    exact ⟨hrest.requests, hrest.lost⟩

/-- A message of the host loses no answer. -/
theorem grows_onHostMessage {data : Option Text} {now : TimeValue} {onThrows callThrows : Bool}
    (hstep : s.onHostMessage impl cfg data now onThrows callThrows = some t) : Grows s t := by
  unfold State.onHostMessage State.onHostCommand State.onHostEvent at hstep
  split at hstep
  · cases hstep
    exact .refl s
  · split at hstep
    · cases hstep
      exact ⟨le_rfl, rfl⟩
    · dsimp only at hstep
      split_ifs at hstep
      · cases hstep
        exact ⟨le_rfl, rfl⟩
      · obtain ⟨dedup, _, rfl⟩ := Option.map_eq_some_iff.mp hstep
        refine ⟨?_, (forwardCommand_books _ _ _ _).2.2.2.1⟩
        rw [(forwardCommand_books _ _ _ _).1]
        exact Nat.le_succ _
    · cases hstep
      split
      · exact .refl s
      · have hcall := sameBooks_call cfg (s.nextRequestId impl now).2
        exact ⟨(hcall _ _ _ _ _).requests.symm ▸ Nat.le_succ _, (hcall _ _ _ _ _).lost⟩
    · cases hstep
      exact .refl s

/-- A callback that loses no answer exactly when `P` holds. -/
structure LosesUnless (P : Prop) (s t : State) : Prop where
  requests : s.requests ≤ t.requests
  lost : ∃ rids, t.lost = s.lost ++ rids ∧ (rids = [] ↔ P)

/-- A callback that never loses an answer. -/
theorem Grows.losesUnless {P : Prop} (h : Grows s t) (hP : P) : LosesUnless P s t :=
  ⟨h.requests, [], by rw [h.lost, List.append_nil], by simp [hP]⟩

/-- Taking out a request that is not answered. -/
theorem losesUnless_of_lost {P : Prop} {rid : String} (hrequests : t.requests = s.requests)
    (hlost : t.lost = s.lost ++ [rid]) (hP : ¬P) : LosesUnless P s t :=
  ⟨hrequests.ge, [rid], hlost, by simp [hP]⟩

/-- A response is lost if it is for a pending request and there is no ack for it. -/
theorem losesUnless_onWasmMessage (impl : Impl) (raw : Text) :
    LosesUnless (Answerable impl s (.wasmMessage raw)) s (s.onWasmMessage impl raw) := by
  unfold State.onWasmMessage
  split
  · next hparse =>
    refine (Grows.refl s).losesUnless fun j rid response error hj => ?_
    rw [hparse] at hj
    cases hj
  · next j hparse =>
    have hanswerable (h : ∀ rid response error,
        wasmMessage impl j = .response rid false response error →
        s.pending.lookup rid ≠ none → refusal impl numberText error ≠ none) :
        Answerable impl s (.wasmMessage raw) := by
      intro j' rid response error hj
      rw [hparse, Option.some.injEq] at hj
      exact hj ▸ h rid response error
    split
    · next rid ok response error hj =>
      split
      · next hnone =>
        refine (Grows.refl s).losesUnless (hanswerable fun rid' response' error' hj' => ?_)
        rw [hj] at hj'
        cases hj'
        simp [hnone]
      · next p hp =>
        split
        · next hnone =>
          refine losesUnless_of_lost rfl rfl fun h => ?_
          cases ok with
          | true => simp [responseAck] at hnone
          | false =>
            have hmessage := h j rid response error hparse hj (by simp [hp])
            simp [responseAck, hmessage] at hnone
        · next ack hack =>
          refine Grows.losesUnless ⟨le_rfl, rfl⟩ (hanswerable fun rid' response' error' hj' => ?_)
          rw [hj] at hj'
          cases hj'
          intro _ hmessage
          simp [responseAck, hmessage] at hack
    · next hj =>
      refine Grows.losesUnless ⟨le_rfl, rfl⟩ (hanswerable fun _ _ _ hj' => ?_)
      rw [hj] at hj'
      cases hj'
    · next hj =>
      refine (Grows.refl s).losesUnless (hanswerable fun _ _ _ hj' => ?_)
      rw [hj] at hj'
      cases hj'

/-- A rejection is lost if it has no message and the command of the call is pending. -/
theorem losesUnless_onCallRejected (impl : Impl) (c : BusCall) (reason : Rejection) :
    LosesUnless
      (c.command = true → s.pending.lookup c.requestId ≠ none → reason.message impl ≠ none)
      s (s.onCallRejected impl c reason) := by
  unfold State.onCallRejected
  split_ifs with hcommand
  · split
    · next hnone => exact (Grows.refl s).losesUnless fun _ h => absurd hnone h
    · next p hp =>
      split
      · next hmessage =>
        exact losesUnless_of_lost rfl rfl fun h => h hcommand (by simp [hp]) hmessage
      · next message hmessage =>
        exact Grows.losesUnless ⟨le_rfl, rfl⟩ fun _ _ => by simp [hmessage]
  · exact (Grows.refl s).losesUnless fun h => absurd h hcommand

/-- The requests drawn and the lost answers are never fewer, and an answer is lost exactly when
the event cannot be answered. -/
theorem losesUnless_step (h : TimersOk s) (hstep : step impl cfg s e = some t) :
    LosesUnless (Answerable impl s e) s t := by
  cases e
  case socketMessage =>
    simp only [step] at hstep
    split_ifs at hstep
    exact (grows_onHostMessage hstep).losesUnless trivial
  case wasmMessage raw =>
    simp only [step] at hstep
    split_ifs at hstep
    cases hstep
    have hmessage := losesUnless_onWasmMessage impl
      (s := { s with heard := s.heard ++ [raw] }) raw
    exact ⟨hmessage.requests, hmessage.lost⟩
  case callRejected n reason =>
    obtain ⟨c, hc, rfl⟩ := Option.map_eq_some_iff.mp hstep
    obtain ⟨hrequests, rids, hlost, hiff⟩ := losesUnless_onCallRejected impl
      (s := { s with calls := s.calls.erase n }) c reason
    refine ⟨hrequests, rids, hlost, hiff.trans ⟨fun h c' hc' => ?_, fun h => h c hc⟩⟩
    rw [hc, Option.some.injEq] at hc'
    exact hc' ▸ h
  all_goals
    rcases books_step h rfl hstep with
      hsame | hsame | ⟨_, _, _, _, _, rfl⟩ | ⟨_, _, _, _, heq, _, _⟩
    · exact hsame.grows.losesUnless trivial
    · have hreject := grows_rejectAll (s := s) s.pending.entries.reverse
      have hrest : Grows s.rejectPending t := hsame.grows
      exact Grows.losesUnless
        ⟨hreject.requests.trans hrest.requests, hrest.lost.trans hreject.lost⟩ trivial
    · exact Grows.losesUnless ⟨le_rfl, rfl⟩ trivial
    · cases heq

/-- No answer is lost in a run exactly when every event can be answered. -/
theorem losesUnless_run {es : List RelayEvent} (h : TimersOk s)
    (hrun : Transition.run (step impl cfg) s es = some t) :
    LosesUnless (Transition.Meets (step impl cfg) (Answerable impl) s es) s t := by
  induction es generalizing s with
  | nil =>
    rw [Transition.run_nil, Option.some.injEq] at hrun
    exact hrun ▸ (Grows.refl s).losesUnless trivial
  | cons e es ih =>
    obtain ⟨u, hstep, hrest⟩ := Transition.run_cons_eq_some.mp hrun
    obtain ⟨hrequests, rids, hlost, hiff⟩ := losesUnless_step h hstep
    obtain ⟨hrequests', rids', hlost', hiff'⟩ := ih (timersOk_step h hstep) hrest
    refine ⟨hrequests.trans hrequests', rids ++ rids', ?_, ?_⟩
    · rw [hlost', hlost, List.append_assoc]
    · rw [List.append_eq_nil_iff, hiff, hiff']
      simp only [Transition.Meets, hstep, Option.some.injEq, forall_eq']

/-- Nothing is lost by an event that can be answered. -/
theorem lost_of_answerable (h : TimersOk s) (hanswerable : Answerable impl s e)
    (hstep : step impl cfg s e = some t) : t.lost = s.lost := by
  obtain ⟨_, rids, hlost, hiff⟩ := losesUnless_step h hstep
  rw [hlost, hiff.mpr hanswerable, List.append_nil]

/-- No answer is lost in a run from the start exactly when every event can be answered. -/
theorem lost_eq_nil_iff {es : List RelayEvent}
    (hrun : Transition.run (step impl cfg) (make impl cfg) es = some s) :
    s.lost = [] ↔ Transition.Meets (step impl cfg) (Answerable impl) (make impl cfg) es := by
  obtain ⟨_, rids, hlost, hiff⟩ := losesUnless_run timersOk_make hrun
  rw [← hiff, hlost]
  rfl

/-- Every step keeps the books in order. -/
theorem accounted_step (h : Accounted impl cfg s) (htimers : TimersOk s)
    (hstep : step impl cfg s e = some t)
    (hbound : t.requests < 2 ^ 31) : Accounted impl cfg t := by
  cases he : isArrival e with
  | false =>
    rcases books_step htimers he hstep with
      hsame | hsame | ⟨_, _, _, _, htimer, rfl⟩ | ⟨_, u, c, reason, -, hsame, rfl⟩
    · exact h.same hsame
    · exact h.rejectPending.same hsame
    · exact h.onRequestTimeout htimer
    · exact (h.same hsame).onCallRejected c reason
  | true =>
    cases e with
    | socketMessage =>
      simp only [step] at hstep
      split_ifs at hstep
      exact h.onHostMessage htimers hstep hbound
    | wasmMessage raw =>
      simp only [step] at hstep
      split_ifs at hstep
      cases hstep
      have hheard : SameBooks cfg s { s with heard := s.heard ++ [raw] } :=
        sameBooks_of_eq rfl (List.subset_append_left _ _)
      exact (h.same hheard).onWasmMessage (by simp)
    | _ => cases he

/-- The books are in order in every state that is reached with fewer than `2 ^ 31`
request ids. -/
theorem accounted_run {es : List RelayEvent}
    (hrun : Transition.run (step impl cfg) (make impl cfg) es = some s)
    (hbound : s.requests < 2 ^ 31) : Accounted impl cfg s := by
  have hinvariant := Transition.run_invariant
    (I := fun s => TimersOk s ∧ (s.requests < 2 ^ 31 → Accounted impl cfg s)) ?_ hrun
    ⟨timersOk_make, fun _ => accounted_make⟩
  · exact hinvariant.2 hbound
  · rintro s e t ⟨htimers, h⟩ hstep
    refine ⟨timersOk_step htimers hstep, fun hlt => ?_⟩
    have hrequests := (losesUnless_step htimers hstep).requests
    exact accounted_step (h (hrequests.trans_lt hlt)) htimers hstep hlt

/-- A command frame is recorded as a duplicate, or as accepted under a new request id. -/
theorem onHostCommand_recorded {id : Option Value} {frame : Value} {now : TimeValue}
    {onThrows callThrows : Bool}
    (hstep : s.onHostCommand impl cfg id frame now onThrows callThrows = some t) :
    (s.dedup.has (Key.of s.nextRef id) = true ∧ t.copies = s.copies ++ [id] ∧
        t.accepted = s.accepted) ∨
      (s.dedup.has (Key.of s.nextRef id) = false ∧ t.copies = s.copies ∧
        t.accepted = s.accepted ++ [((s.nextRequestId impl now).1, id)]) := by
  unfold State.onHostCommand at hstep
  dsimp only at hstep
  split_ifs at hstep with hhas
  · cases hstep
    exact .inl ⟨hhas, rfl, rfl⟩
  · obtain ⟨dedup, _, rfl⟩ := Option.map_eq_some_iff.mp hstep
    refine .inr ⟨Bool.eq_false_iff.mpr hhas, ?_, ?_⟩
    · exact (forwardCommand_books _ _ _ _).2.1
    · exact (forwardCommand_books _ _ _ _).2.2.1

/-- An ack that answers a command carries the id of that command. -/
theorem Accounted.frame (h : Accounted impl cfg s) {f : Sent} (hf : f ∈ s.sent) {rid : String}
    {own : Bool} (horigin : f.origin = .answer rid own) : ∃ id ok error response,
      (rid, id) ∈ s.accepted ∧ f.frame = .doc (ackFrame id ok error response none) := by
  cases own with
  | true =>
    obtain ⟨id, message, hmem, hframe⟩ := h.refused f hf rid horigin
    exact ⟨id, false, _, none, hmem, hframe⟩
  | false =>
    obtain ⟨id, _, j, ok, response, error, ack, hmem, _, _, _, hack, hframe⟩ :=
      h.responded f hf rid horigin
    obtain ⟨error', response', rfl⟩ := responseAck_eq_ackFrame hack
    exact ⟨id, ok, error', response', hmem, hframe⟩

/-- A response for a request that is not pending sends nothing. -/
theorem sent_onWasmMessage_of_late {raw : Text} {j : Value} {rid : String} {ok : Bool}
    {response error : Option Value} (hparse : raw.jsonParse = some j)
    (hj : wasmMessage impl j = .response rid ok response error)
    (hlate : s.pending.lookup rid = none) : (s.onWasmMessage impl raw).sent = s.sent := by
  simp only [State.onWasmMessage, hparse, hj, hlate]

/-- The rejection of a call whose request is not pending sends nothing. -/
theorem sent_onCallRejected_of_late {c : BusCall} {reason : Rejection}
    (hlate : s.pending.lookup c.requestId = none) :
    (s.onCallRejected impl c reason).sent = s.sent := by
  simp only [State.onCallRejected, hlate, ite_self]

/-- Nothing is pending after `destroy`. -/
theorem destroy_pending (h : TimersOk s) (offThrows unregisterThrows : Bool) (rid : String) :
    (s.destroy impl cfg offThrows unregisterThrows).pending.lookup rid = none := by
  rw [(sameBooks_destroy h _ _).pending]
  rfl

/-- Every command gets one ack, and every copy of a command one more. -/
structure AnsweredOnce (impl : Impl) (cfg : ResolvedConfig) (s : State) : Prop where
  /-- A command frame is recorded as a copy, or as accepted under a request id. -/
  recorded : ∀ i data j id frame now onThrows callThrows t, data.jsonParse = some j →
    hostMessage impl j = .cmd id frame →
    step impl cfg s (.socketMessage i (some data) now onThrows callThrows) = some t →
    (t.copies = s.copies ++ [id] ∧ t.accepted = s.accepted) ∨
      (t.copies = s.copies ∧ ∃ rid, t.accepted = s.accepted ++ [(rid, id)])
  /-- Request ids are not used twice. -/
  nodup : (s.accepted.map Prod.fst).Nodup
  /-- An accepted command has been answered once, or is pending. -/
  answered : ∀ rid id, (rid, id) ∈ s.accepted →
    answers rid s.sent + (if (s.pending.lookup rid).isSome then 1 else 0) = 1
  /-- The armed request timers are those of the pending requests. -/
  armed : ∀ rid id tid, (∃ d, s.timers.lookup tid = some ⟨.request rid id, d⟩) ↔
    s.pending.lookup rid = some ⟨id, tid⟩
  /-- The ack carries the id of the command. -/
  frame : ∀ f ∈ s.sent, ∀ rid own, f.origin = .answer rid own → ∃ id ok error response,
    (rid, id) ∈ s.accepted ∧ f.frame = .doc (ackFrame id ok error response none)
  /-- The copies are acked one by one. -/
  duplicates : duplicateFrames s.sent = s.copies.map fun id => .doc (duplicateAck id)
  /-- A response to a request that is not pending generates nothing. -/
  lateResponse : ∀ raw j rid ok response error t, raw.jsonParse = some j →
    wasmMessage impl j = .response rid ok response error → s.pending.lookup rid = none →
    step impl cfg s (.wasmMessage raw) = some t → t.sent = s.sent
  /-- The rejection of a call whose request is not pending generates nothing. -/
  lateRejection : ∀ n reason c t, s.calls.lookup n = some c →
    s.pending.lookup c.requestId = none →
    step impl cfg s (.callRejected n reason) = some t → t.sent = s.sent
  /-- No request timer is armed after `destroy`. -/
  destroyed : ∀ offThrows unregisterThrows t,
    step impl cfg s (.destroy offThrows unregisterThrows) = some t →
    ∀ tid rid id d, t.timers.lookup tid ≠ some ⟨.request rid id, d⟩

/-- Where no answer has been lost, every command is answered once, whatever has happened
between and after: by the response, by its timer, by the rejection of its call, or because
there is no CommBus or the relay is destroyed. -/
theorem Accounted.answeredOnce (h : Accounted impl cfg s) (htimers : TimersOk s)
    (hlost : s.lost = []) : AnsweredOnce impl cfg s := by
  have hanswered (rid : String) (id : Option Value) (hmem : (rid, id) ∈ s.accepted) :
      answers rid s.sent + (if (s.pending.lookup rid).isSome then 1 else 0) = 1 := by
    have hcount := h.answered rid id hmem
    rwa [hlost, List.count_nil, Nat.add_zero] at hcount
  refine ⟨?_, h.nodup, hanswered, h.armed, ?_, h.duplicates, ?_, ?_, ?_⟩
  · intro i data j id frame now onThrows callThrows t hparse hj hstep
    simp only [step] at hstep
    split_ifs at hstep
    simp only [State.onHostMessage, Option.bind_some, hparse, hj] at hstep
    rcases onHostCommand_recorded hstep with ⟨_, hcopies, haccepted⟩ | ⟨_, hcopies, haccepted⟩
    · exact .inl ⟨hcopies, haccepted⟩
    · exact .inr ⟨hcopies, _, haccepted⟩
  · exact fun f hf rid own horigin => h.frame hf horigin
  · intro raw j rid ok response error t hparse hj hlate hstep
    simp only [step] at hstep
    split_ifs at hstep
    cases hstep
    exact sent_onWasmMessage_of_late (s := { s with heard := s.heard ++ [raw] }) hparse hj hlate
  · intro n reason c t hlook hlate hstep
    simp only [step, hlook, Option.map_some, Option.some.injEq] at hstep
    rw [← hstep]
    exact sent_onCallRejected_of_late (s := { s with calls := s.calls.erase n }) hlate
  · intro offThrows unregisterThrows t hstep tid rid id d hlook
    have hgone : t.pending.lookup rid = none := by
      simp only [step, Option.some.injEq] at hstep
      rw [← hstep, destroy_pending htimers]
    have hbooks' : Accounted impl cfg t := by
      simp only [step, Option.some.injEq] at hstep
      rw [← hstep]
      exact h.rejectPending.same (sameBooks_destroy htimers _ _)
    have hpending := (hbooks'.armed rid id tid).mp ⟨d, hlook⟩
    rw [hgone] at hpending
    cases hpending

/-- A command whose answer has been lost is neither answered nor pending. -/
theorem Accounted.lost_eq_nil (h : Accounted impl cfg s) (honce : AnsweredOnce impl cfg s) :
    s.lost = [] := by
  by_contra hlost
  obtain ⟨rid, hrid⟩ := List.exists_mem_of_ne_nil _ hlost
  obtain ⟨id, hmem⟩ := h.lostAccepted rid hrid
  have hcount := h.answered rid id hmem
  have hone := honce.answered rid id hmem
  have hpositive : 0 < s.lost.count rid := List.count_pos_iff.mpr hrid
  omega

/-- After a run with fewer than `2 ^ 31` requests every command is answered once exactly when
each event of the run could be answered. -/
theorem commands_answered_once_iff {es : List RelayEvent}
    (hrun : Transition.run (step impl cfg) (make impl cfg) es = some s)
    (hbound : s.requests < 2 ^ 31) :
    AnsweredOnce impl cfg s ↔
      Transition.Meets (step impl cfg) (Answerable impl) (make impl cfg) es := by
  have hbooks := accounted_run hrun hbound
  rw [← lost_eq_nil_iff hrun]
  exact ⟨hbooks.lost_eq_nil, hbooks.answeredOnce (timersOk_run hrun)⟩

/-- The command frame of the examples. -/
def exampleCommand : Text := .doc (.obj [("t", .str "cmd"), ("id", .str "a")])

/-- A relay that has forwarded the command. -/
def forwarding : List RelayEvent :=
  [.init false false, .socketOpen 0 .epoch,
    .socketMessage 0 (some exampleCommand) .epoch false false]

/-- The command is answered, and after that its call is rejected, with no value at all. -/
def answeredOnce : List RelayEvent := forwarding ++
  [.wasmMessage (.doc (.obj [("requestId", .str "0-1"), ("ok", .bool true)])),
    .callRejected 0 .undefined]

/-- The rejection comes too late to lose the answer. -/
theorem commands_answered_once_answeredOnce : ∃ s,
    Transition.run (step .rescript defaultConfig) (make .rescript defaultConfig) answeredOnce =
      some s ∧ AnsweredOnce .rescript defaultConfig s ∧ answers "0-1" s.sent = 1 := by
  have hsome : (Transition.run (step .rescript defaultConfig) (make .rescript defaultConfig)
    answeredOnce).isSome := by rfl
  refine ⟨_, (Option.some_get hsome).symm, ?_, by rfl⟩
  refine (commands_answered_once_iff (Option.some_get hsome).symm
    (lt_of_eq_of_lt (show _ = 1 from rfl) (by norm_num))).mpr ?_
  -- when the call is rejected its command is no longer pending
  refine fun s₁ h₁ => ⟨trivial, fun s₂ h₂ => ⟨trivial, fun s₃ h₃ => ⟨trivial, fun s₄ h₄ =>
    ⟨?_, fun s₅ h₅ => ⟨?_, trivial⟩⟩⟩⟩⟩
  · intro j rid response error hparse hj
    rw [Text.jsonParse_doc, Option.some.injEq] at hparse
    subst hparse
    cases hj
  · cases h₁
    cases h₂
    cases h₃
    cases h₄
    intro c hc _ hpending
    cases hc
    exact absurd rfl hpending

/-- A call that is rejected with a value that the handler cannot read. -/
def rejected : Impl → List RelayEvent
  | .typescript => forwarding ++ [.callRejected 0 (.other none none)]
  | .rescript => forwarding ++ [.callRejected 0 .undefined]

/-- The command is not answered. -/
theorem exists_unanswered (impl : Impl) : ∃ s,
    Transition.run (step impl defaultConfig) (make impl defaultConfig) (rejected impl) = some s ∧
      s.requests < 2 ^ 31 ∧ ¬AnsweredOnce impl defaultConfig s := by
  have hsome : (Transition.run (step impl defaultConfig) (make impl defaultConfig)
    (rejected impl)).isSome := by cases impl <;> rfl
  refine ⟨_, (Option.some_get hsome).symm, ?_, fun h => ?_⟩
  · cases impl <;> exact lt_of_eq_of_lt (show _ = 1 from rfl) (by norm_num)
  · have hone := h.answered "0-1" (some (.str "a"))
      (by cases impl <;> exact List.mem_singleton_self _)
    cases impl <;> cases hone

/-- In either relay a command can remain without an answer. -/
theorem rejected_unanswered :
    (∃ s, Transition.run (step .typescript defaultConfig) (make .typescript defaultConfig)
        (rejected .typescript) = some s ∧
      s.requests < 2 ^ 31 ∧ ¬AnsweredOnce .typescript defaultConfig s) ∧
    ∃ s, Transition.run (step .rescript defaultConfig) (make .rescript defaultConfig)
        (rejected .rescript) = some s ∧
      s.requests < 2 ^ 31 ∧ ¬AnsweredOnce .rescript defaultConfig s :=
  ⟨exists_unanswered .typescript, exists_unanswered .rescript⟩

end State

end InfinityBridge.Relay
