import InfinityBridge.Relay.Callbacks
import InfinityBridge.Wire.Msg

/-!
# Malformed input

What the relays do with texts that the decoder of the wire crate rejects. They look at
the tag alone, so that such a text can still be taken for a message; and one of them
reads properties off a parsed `null`, which throws.
-/

namespace InfinityBridge.Relay

variable {ν : Type*}

/-- A response envelope: a string `requestId` and a boolean `ok`. -/
def IsResponse (j : Json ν) : Prop :=
  ∃ i ok, j.property "requestId" = some (.str i) ∧ j.property "ok" = some (.bool ok)

namespace State

variable (impl : Impl) (cfg : ResolvedConfig)

/-- Whether `onHostMessage` throws: a property is read off `null`, or `bus.call` throws
and does not return a promise. -/
def onHostMessageThrows (data : Option Text) (callThrows : Bool) (s : State) : Bool :=
  match data.bind Text.jsonParse with
  | none => false
  | some .null => impl = .typescript
  | some j =>
    match hostMessage impl j with
    | .cmd id _ => !s.dedup.has (Key.of s.nextRef id) && s.commBus.isSome && callThrows
    | .event _ => s.commBus.isSome && callThrows
    | _ => false

/-- Whether `onWasmMessage` throws: a property is read off `null`, or the error of a
response has no string form. -/
def onWasmMessageThrows (raw : Text) (s : State) : Bool :=
  match raw.jsonParse with
  | none => false
  | some .null => impl = .typescript
  | some j =>
    match wasmMessage impl j with
    | .response requestId ok response error =>
      match s.pending.lookup requestId with
      | none => false
      | some p => (responseAck impl numberText p.cmdId ok response error).isNone
    | _ => false

/-- The frames that a socket has taken. -/
def taken (s : State) : List Sent := s.sent.filter fun f => f.socket.isSome

/-- Nothing was sent, and no request, no id of the ring and no timer has changed. -/
structure Inert (s t : State) : Prop where
  taken : t.taken = s.taken
  calls : t.calls = s.calls
  nextCall : t.nextCall = s.nextCall
  pending : t.pending = s.pending
  dedup : t.dedup = s.dedup
  requestSeq : t.requestSeq = s.requestSeq
  timers : t.timers = s.timers
  nextTimer : t.nextTimer = s.nextTimer

/-- `onHostMessage` returns, does not throw and does nothing. -/
def HostInert (raw : Text) (now : TimeValue) (onThrows callThrows : Bool) (s : State) : Prop :=
  s.onHostMessageThrows impl (some raw) callThrows = false ∧
    ∃ t, s.onHostMessage impl cfg (some raw) now onThrows callThrows = some t ∧ Inert s t

/-- `onWasmMessage` does not throw, sends nothing and changes nothing. -/
def WasmInert (raw : Text) (s : State) : Prop :=
  s.onWasmMessageThrows impl raw = false ∧ (s.onWasmMessage impl raw).taken = s.taken ∧
    s.onWasmMessage impl raw = { s with sent := (s.onWasmMessage impl raw).sent }

/-- The relay finds nothing to act on in a document from the host. -/
structure HostIgnores (s : State) (j : Value) : Prop where
  notNull : impl = .typescript → j ≠ .null
  ping : j.property "t" = some (.str "ping") → s.openSocket = none
  /-- A command is a copy, and no socket would take its ack. -/
  cmd : j.property "t" = some (.str "cmd") →
    (impl = .typescript → ∃ i, j.property "id" = some (.str i)) →
      s.dedup.has (Key.of s.nextRef (j.property "id")) = true ∧ s.openSocket = none
  event : j.property "t" = some (.str "event") → s.commBus = none

/-- The relay finds nothing to act on in a document from the CommBus that is no
response. -/
structure WasmIgnores (s : State) (j : Value) : Prop where
  notNull : impl = .typescript → j ≠ .null
  /-- The TypeScript relay takes what has a request id for a response. -/
  response : impl = .typescript → ∀ i, j.property "requestId" = some (.str i) →
    s.pending.lookup i = none
  forward : (impl = .typescript → ∀ i, j.property "requestId" ≠ some (.str i)) →
    j.property "t" = some (.str "event") ∨ j.property "t" = some (.str "ack") →
      s.openSocket = none

variable {impl cfg} {s t : State} {raw : Text} {j : Value}

/-- Doing nothing is inert. -/
theorem Inert.refl (s : State) : Inert s s := ⟨rfl, rfl, rfl, rfl, rfl, rfl, rfl, rfl⟩

/-- What the relay sends is taken by a socket just when one is open. -/
theorem taken_wsSend (origin : Origin) (frame : Text) :
    (s.wsSend origin frame).taken = s.taken ↔ s.openSocket = none := by
  cases hopen : s.openSocket <;> simp [wsSend, taken, hopen]

/-- Attaching the listener arms no timer. -/
theorem nextTimer_bindCommBus (bus : ℕ) (onThrows : Bool) :
    (s.bindCommBus cfg bus onThrows).nextTimer = s.nextTimer := by
  unfold bindCommBus
  split
  · rfl
  · split
    · rfl
    · split <;> rfl

/-- Forwarding arms no timer. -/
theorem nextTimer_forwardCommand (requestId : String) (frame : Value) (onThrows callThrows : Bool) :
    (s.forwardCommand cfg requestId frame onThrows callThrows).nextTimer = s.nextTimer := by
  unfold forwardCommand
  split
  · split <;> rfl
  · next bus _ =>
    have hbind : (s.bindCommBus cfg bus onThrows).nextTimer = s.nextTimer :=
      nextTimer_bindCommBus bus onThrows
    rw [← hbind, call]
    split <;> rfl

/-- A command that is no copy arms a timer. -/
theorem nextTimer_onHostCommand {id : Option Value} {frame : Value} {now : TimeValue}
    {onThrows callThrows : Bool} (hnew : s.dedup.has (Key.of s.nextRef id) = false)
    (ht : s.onHostCommand impl cfg id frame now onThrows callThrows = some t) :
    t.nextTimer = s.nextTimer + 1 := by
  simp only [onHostCommand, hnew, Bool.false_eq_true, if_false, Option.map_eq_some_iff] at ht
  obtain ⟨dedup, _, rfl⟩ := ht
  rw [nextTimer_forwardCommand]
  rfl

/-- The relay has nothing to do for a message of the host. -/
def IgnoresHost (s : State) : HostMessage Number → Prop
  | .ping => s.openSocket = none
  | .cmd id _ => s.dedup.has (Key.of s.nextRef id) = true ∧ s.openSocket = none
  | .event _ => s.commBus = none
  | .ignored => True

/-- Whether the relay ignores a document is a question about the message it is read as. -/
theorem hostIgnores_iff :
    s.HostIgnores impl j ↔
      (impl = .typescript → j ≠ .null) ∧ s.IgnoresHost (hostMessage impl j) := by
  have hshape := hostMessage_shape impl j
  constructor
  · refine fun h => ⟨h.notNull, ?_⟩
    cases hmessage : hostMessage impl j with
    | ping =>
      rw [hmessage] at hshape
      exact h.ping hshape
    | cmd id frame =>
      rw [hmessage] at hshape
      obtain ⟨htag, rfl, -, hid⟩ := hshape
      exact h.cmd htag hid
    | event frame =>
      rw [hmessage] at hshape
      exact h.event hshape.1
    | ignored => trivial
  · rintro ⟨hnull, h⟩
    cases hmessage : hostMessage impl j with
    | ping =>
      rw [hmessage] at hshape h
      have htag : j.property "t" = some (.str "ping") := hshape
      exact ⟨hnull, fun _ => h, by simp [htag], by simp [htag]⟩
    | cmd id frame =>
      rw [hmessage] at hshape h
      obtain ⟨htag, rfl, -⟩ := hshape
      exact ⟨hnull, by simp [htag], fun _ _ => h, by simp [htag]⟩
    | event frame =>
      rw [hmessage] at hshape h
      have htag : j.property "t" = some (.str "event") := hshape.1
      exact ⟨hnull, by simp [htag], by simp [htag], fun _ => h⟩
    | ignored =>
      rw [hmessage] at hshape
      obtain ⟨hping, hevent, hcmd⟩ := hshape
      refine ⟨hnull, fun htag => absurd htag hping, fun htag hid => ?_,
        fun htag => absurd htag hevent⟩
      obtain ⟨himpl, hstr⟩ := hcmd htag
      obtain ⟨i, hi⟩ := hid himpl
      exact absurd hi (hstr i)

/-- A message of the host is inert just when the relay has nothing to do for it. -/
theorem hostInert_iff_ignoresHost (hj : raw.jsonParse = some j) (hnull : j ≠ .null)
    {now : TimeValue} {onThrows callThrows : Bool} :
    s.HostInert impl cfg raw now onThrows callThrows ↔ s.IgnoresHost (hostMessage impl j) := by
  have hthrows : s.onHostMessageThrows impl (some raw) callThrows =
      match hostMessage impl j with
      | .cmd id _ => !s.dedup.has (Key.of s.nextRef id) && s.commBus.isSome && callThrows
      | .event _ => s.commBus.isSome && callThrows
      | _ => false := by
    cases j <;>
      first | exact absurd rfl hnull | simp only [onHostMessageThrows, Option.bind_some, hj]
  simp only [HostInert, hthrows, onHostMessage, Option.bind_some, hj]
  cases hmessage : hostMessage impl j with
  | ping =>
    simp only [true_and, Option.some.injEq, exists_eq_left', IgnoresHost]
    constructor
    · exact fun h => (taken_wsSend _ _).mp h.taken
    · exact fun h => ⟨(taken_wsSend _ _).mpr h, rfl, rfl, rfl, rfl, rfl, rfl, rfl⟩
  | cmd id frame =>
    cases hhas : s.dedup.has (Key.of s.nextRef id) with
    | true =>
      simp only [Bool.not_true, Bool.false_and, true_and, onHostCommand, hhas, if_true,
        Option.some.injEq, exists_eq_left', IgnoresHost]
      constructor
      · exact fun h => (taken_wsSend _ _).mp h.taken
      · exact fun h => ⟨(taken_wsSend _ _).mpr h, rfl, rfl, rfl, rfl, rfl, rfl, rfl⟩
    | false =>
      simp only [IgnoresHost, hhas, Bool.false_eq_true, false_and, iff_false]
      rintro ⟨-, t, ht, hinert⟩
      have htimer := nextTimer_onHostCommand hhas ht
      have hsame := hinert.nextTimer
      omega
  | event frame =>
    simp only [IgnoresHost, onHostEvent]
    cases hbus : s.commBus with
    | none =>
      simp only [Option.isSome_none, Bool.false_and, true_and, Option.some.injEq, exists_eq_left',
        iff_true]
      exact .refl s
    | some bus =>
      simp only [Option.isSome_some, Bool.true_and, reduceCtorEq, iff_false]
      rintro ⟨rfl, t, ht, hinert⟩
      simp only [Option.some.injEq] at ht
      subst ht
      have hsame := hinert.nextCall
      simp only [call, Bool.false_eq_true, if_false] at hsame
      exact absurd hsame (Nat.succ_ne_self _)
  | ignored =>
    simp only [true_and, Option.some.injEq, exists_eq_left', IgnoresHost, iff_true]
    exact .refl s

/-- A document from the host is inert just when the relay finds nothing to act on. -/
theorem hostInert_iff (hj : raw.jsonParse = some j) {now : TimeValue}
    {onThrows callThrows : Bool} :
    s.HostInert impl cfg raw now onThrows callThrows ↔ s.HostIgnores impl j := by
  by_cases hnull : j = .null
  · subst hnull
    have hmessage : hostMessage impl (.null : Value) = .ignored := by cases impl <;> rfl
    rw [hostIgnores_iff, hmessage]
    simp only [HostInert, onHostMessageThrows, onHostMessage, Option.bind_some, hj, hmessage,
      decide_eq_false_iff_not, Option.some.injEq, exists_eq_left', IgnoresHost, and_true, ne_eq,
      not_true, imp_false, and_iff_left_iff_imp]
    exact fun _ => .refl s
  · rw [hostInert_iff_ignoresHost hj hnull, hostIgnores_iff, and_iff_right fun _ => hnull]

/-- The relay has nothing to do for a message on the CommBus. -/
def IgnoresWasm (s : State) : WasmMessage Number → Prop
  | .response requestId _ _ _ => s.pending.lookup requestId = none
  | .forward => s.openSocket = none
  | .ignored => True

/-- Whether the relay ignores a document is a question about the message it is read as. -/
theorem wasmIgnores_iff (hresponse : ¬IsResponse j) :
    s.WasmIgnores impl j ↔
      (impl = .typescript → j ≠ .null) ∧ s.IgnoresWasm (wasmMessage impl j) := by
  have hshape := wasmMessage_shape impl j
  have htypescript {i : String} (hi : j.property "requestId" = some (.str i))
      (hok : impl = .rescript → ∃ ok, j.property "ok" = some (.bool ok)) : impl = .typescript := by
    cases impl with
    | typescript => rfl
    | rescript =>
      obtain ⟨ok, hok⟩ := hok rfl
      exact absurd ⟨i, ok, hi, hok⟩ hresponse
  constructor
  · refine fun h => ⟨h.notNull, ?_⟩
    cases hmessage : wasmMessage impl j with
    | response requestId ok response error =>
      rw [hmessage] at hshape
      obtain ⟨hid, hok⟩ := hshape
      exact h.response (htypescript hid hok) requestId hid
    | forward =>
      rw [hmessage] at hshape
      obtain ⟨htag, hid⟩ := hshape
      exact h.forward hid htag
    | ignored => trivial
  · rintro ⟨hnull, h⟩
    cases hmessage : wasmMessage impl j with
    | response requestId ok response error =>
      rw [hmessage] at hshape h
      obtain ⟨hid, hok⟩ := hshape
      refine ⟨hnull, fun _ i hi => ?_, fun hnone => absurd hid (hnone (htypescript hid hok) _)⟩
      rw [hid, Option.some.injEq, Json.str.injEq] at hi
      exact hi ▸ h
    | forward =>
      rw [hmessage] at hshape h
      obtain ⟨htag, hid⟩ := hshape
      exact ⟨hnull, fun himpl i hi => absurd hi (hid himpl i), fun _ _ => h⟩
    | ignored =>
      rw [hmessage] at hshape
      obtain ⟨htag, hid⟩ := hshape
      exact ⟨hnull, fun himpl i hi => absurd hi (hid himpl i), fun _ h => absurd h htag⟩

/-- A message on the CommBus is inert just when the relay has nothing to do for it. -/
theorem wasmInert_iff_ignoresWasm (hj : raw.jsonParse = some j) (hnull : j ≠ .null) :
    s.WasmInert impl raw ↔ s.IgnoresWasm (wasmMessage impl j) := by
  have hthrows : s.onWasmMessageThrows impl raw =
      match wasmMessage impl j with
      | .response requestId ok response error =>
        match s.pending.lookup requestId with
        | none => false
        | some p => (responseAck impl numberText p.cmdId ok response error).isNone
      | _ => false := by
    cases j <;> first | exact absurd rfl hnull | simp only [onWasmMessageThrows, hj]
  simp only [WasmInert, hthrows, onWasmMessage, hj]
  cases hmessage : wasmMessage impl j with
  | response requestId ok response error =>
    simp only [IgnoresWasm]
    cases hp : s.pending.lookup requestId with
    | none => simp only [and_self]
    | some p =>
      simp only [reduceCtorEq, iff_false]
      rintro ⟨hthrows, -, hsame⟩
      cases hack : responseAck impl numberText p.cmdId ok response error with
      | none => simp [hack] at hthrows
      | some ack =>
        simp only [hack] at hsame
        have hpending : s.pending.erase requestId = s.pending := congrArg State.pending hsame
        rw [← hpending, Table.lookup_erase_eq, if_pos rfl] at hp
        cases hp
  | forward =>
    simp only [true_and, IgnoresWasm]
    constructor
    · exact fun h => (taken_wsSend _ _).mp h.1
    · exact fun h => ⟨(taken_wsSend _ _).mpr h, rfl⟩
  | ignored => simp only [and_self, IgnoresWasm]

/-- A document from the CommBus that is no response is inert just when the relay finds
nothing to act on. -/
theorem wasmInert_iff (hj : raw.jsonParse = some j) (hresponse : ¬IsResponse j) :
    s.WasmInert impl raw ↔ s.WasmIgnores impl j := by
  by_cases hnull : j = .null
  · subst hnull
    have hmessage : wasmMessage impl (.null : Value) = .ignored := by cases impl <;> rfl
    rw [wasmIgnores_iff hresponse, hmessage]
    simp only [WasmInert, onWasmMessageThrows, onWasmMessage, hj, hmessage,
      decide_eq_false_iff_not, and_self, and_true, IgnoresWasm, ne_eq, not_true, imp_false]
  · rw [wasmInert_iff_ignoresWasm hj hnull, wasmIgnores_iff hresponse,
      and_iff_right fun _ => hnull]

/-- A text that is no JSON is inert as a message of the host. -/
theorem hostInert_of_junk (hraw : raw.jsonParse = none) (now : TimeValue)
    (onThrows callThrows : Bool) : s.HostInert impl cfg raw now onThrows callThrows := by
  refine ⟨?_, s, ?_, .refl s⟩
  · simp only [onHostMessageThrows, Option.bind_some, hraw]
  · simp only [onHostMessage, Option.bind_some, hraw]

/-- A text that is no JSON is inert as a message on the CommBus. -/
theorem wasmInert_of_junk (hraw : raw.jsonParse = none) : s.WasmInert impl raw := by
  simp only [WasmInert, onWasmMessageThrows, onWasmMessage, hraw, and_self]

/-- A text that the decoder rejects is inert, as a message of the host and, if it is no
response, as a message on the CommBus. -/
def MalformedInert (impl : Impl) (cfg : ResolvedConfig) (s : State) (raw : Text) : Prop :=
  WireMsg.fromJson raw = none →
    (∀ now onThrows callThrows, s.HostInert impl cfg raw now onThrows callThrows) ∧
      ((∀ j, raw.jsonParse = some j → ¬IsResponse j) → s.WasmInert impl raw)

/-- The relay finds nothing to act on in a text that the decoder rejects. -/
def MalformedIgnored (impl : Impl) (s : State) (raw : Text) : Prop :=
  WireMsg.fromJson raw = none → ∀ j, raw.jsonParse = some j →
    s.HostIgnores impl j ∧ (¬IsResponse j → s.WasmIgnores impl j)

/-- A rejected text is inert in a state just when the relay finds nothing to act on. -/
theorem malformedInert_iff : MalformedInert impl cfg s raw ↔ MalformedIgnored impl s raw := by
  refine imp_congr_right fun _ => ?_
  cases hraw : raw.jsonParse with
  | none =>
    simp only [reduceCtorEq, false_imp_iff, implies_true, iff_true]
    exact ⟨hostInert_of_junk hraw, fun _ => wasmInert_of_junk hraw⟩
  | some j =>
    simp only [Option.some.injEq, forall_eq']
    refine and_congr ?_ (imp_congr_right fun hresponse => wasmInert_iff hraw hresponse)
    constructor
    · exact fun h => (hostInert_iff hraw).mp (h ⟨0, by decide⟩ false false)
    · exact fun h now onThrows callThrows => (hostInert_iff hraw).mpr h

/-- In every state of every run, the rejected texts that are inert are the ones in which
the relay finds nothing to act on. -/
theorem malformed_inert_iff (impl : Impl) (cfg : ResolvedConfig) (es : List RelayEvent) :
    Transition.Always (step impl cfg)
      (fun s => ∀ raw, MalformedInert impl cfg s raw ↔ MalformedIgnored impl s raw)
      (make impl cfg) es :=
  Transition.always_of_forall (fun _ _ => malformedInert_iff) (make impl cfg) es

/-- A command without its payload. -/
def truncatedCommand : Text := .doc (.obj [("t", .str "cmd"), ("id", .str "a")])

/-- Both relays take it for a command. -/
theorem truncatedCommand_not_inert :
    ¬MalformedInert .typescript defaultConfig
      ((make .typescript defaultConfig).init .typescript defaultConfig false false)
      truncatedCommand ∧
    ¬MalformedInert .rescript defaultConfig
      ((make .rescript defaultConfig).init .rescript defaultConfig false false)
      truncatedCommand := by
  constructor
  · intro h
    have hignored := (malformedInert_iff.mp h (by decide +kernel) _ rfl).1.cmd rfl
    have hhas := (hignored fun _ => ⟨"a", rfl⟩).1
    exact absurd hhas (by decide)
  · intro h
    have hignored := (malformedInert_iff.mp h (by decide +kernel) _ rfl).1.cmd rfl
    have hhas := (hignored fun _ => ⟨"a", rfl⟩).1
    exact absurd hhas (by decide)

end State

end InfinityBridge.Relay
