import InfinityBridge.Relay.Script

/-!
# Frames and envelopes

What the relays read off a parsed message, and the messages they build. One relay
looks at the members it needs, the other one checks the shape of the message and
then casts it. The type of numbers is a parameter, since nothing here looks at them
but the text of an error.
-/

namespace InfinityBridge.Relay

variable {ν : Type*}

/-- A message of the host. -/
inductive HostMessage (ν : Type*) where
  | ping
  /-- A command and its id; only the ReScript relay takes an id that is no string. -/
  | cmd (id : Option (Json ν)) (frame : Json ν)
  | event (frame : Json ν)
  | ignored

/-- The dispatch of `onHostMessage`. -/
def hostMessage (impl : Impl) (j : Json ν) : HostMessage ν :=
  match impl, j with
  | .typescript, j =>
    match j.property "t" with
    | some (.str "ping") => .ping
    | some (.str "cmd") =>
      match j.property "id" with
      | some (.str id) => .cmd (some (.str id)) j
      | _ => .ignored
    | some (.str "event") => .event j
    | _ => .ignored
  | .rescript, .obj ms =>
    match (Json.obj ms).property "t" with
    | some (.str "ping") => .ping
    | some (.str "cmd") => .cmd ((Json.obj ms).property "id") (.obj ms)
    | some (.str "event") => .event (.obj ms)
    | _ => .ignored
  | .rescript, _ => .ignored

/-- A message on the CommBus response event. -/
inductive WasmMessage (ν : Type*) where
  | response (requestId : String) (ok : Bool) (response error : Option (Json ν))
  /-- A bare event or ack, forwarded verbatim. -/
  | forward
  | ignored

/-- The dispatch of `onWasmMessage`. -/
def wasmMessage (impl : Impl) (j : Json ν) : WasmMessage ν :=
  let bare := match j.property "t" with
    | some (.str "event") | some (.str "ack") => WasmMessage.forward
    | _ => .ignored
  match impl with
  | .typescript =>
    match j.property "requestId" with
    | some (.str requestId) =>
      let ok := match j.property "ok" with
        | some (.bool false) => false
        | _ => true
      .response requestId ok (j.property "response") (j.property "error")
    | _ => bare
  | .rescript =>
    match j.property "requestId", j.property "ok" with
    | some (.str requestId), some (.bool ok) =>
      .response requestId ok (j.property "response") (j.property "error")
    | _, _ => bare

/-- The shape of a document that is read as this host message. -/
def HostMessage.Shape (impl : Impl) (j : Json ν) : HostMessage ν → Prop
  | .ping => j.property "t" = some (.str "ping")
  | .cmd id frame => j.property "t" = some (.str "cmd") ∧ id = j.property "id" ∧ frame = j ∧
      (impl = .typescript → ∃ i, j.property "id" = some (.str i))
  | .event frame => j.property "t" = some (.str "event") ∧ frame = j
  | .ignored => j.property "t" ≠ some (.str "ping") ∧ j.property "t" ≠ some (.str "event") ∧
      (j.property "t" = some (.str "cmd") →
        impl = .typescript ∧ ∀ i, j.property "id" ≠ some (.str i))

/-- What a relay reads as a message of the host has its shape. -/
theorem hostMessage_shape (impl : Impl) (j : Json ν) : (hostMessage impl j).Shape impl j := by
  cases impl with
  | typescript =>
    simp only [hostMessage]
    split
    · assumption
    · split <;> simp_all [HostMessage.Shape]
    · exact ⟨by assumption, rfl⟩
    · simp_all [HostMessage.Shape]
  | rescript =>
    cases j with
    | obj ms =>
      simp only [hostMessage]
      split <;> simp_all [HostMessage.Shape]
    | _ => simp [hostMessage, Json.property, HostMessage.Shape]

/-- The shape of a document that is read as this CommBus message. -/
def WasmMessage.Shape (impl : Impl) (j : Json ν) : WasmMessage ν → Prop
  | .response requestId _ _ _ => j.property "requestId" = some (.str requestId) ∧
      (impl = .rescript → ∃ ok, j.property "ok" = some (.bool ok))
  | .forward => (j.property "t" = some (.str "event") ∨ j.property "t" = some (.str "ack")) ∧
      (impl = .typescript → ∀ i, j.property "requestId" ≠ some (.str i))
  | .ignored => ¬(j.property "t" = some (.str "event") ∨ j.property "t" = some (.str "ack")) ∧
      (impl = .typescript → ∀ i, j.property "requestId" ≠ some (.str i))

/-- What a relay reads as a message of the module has its shape. -/
theorem wasmMessage_shape (impl : Impl) (j : Json ν) : (wasmMessage impl j).Shape impl j := by
  cases impl with
  | typescript =>
    simp only [wasmMessage]
    split
    · simp_all [WasmMessage.Shape]
    · split <;> simp_all [WasmMessage.Shape]
  | rescript =>
    simp only [wasmMessage]
    split
    · simp_all [WasmMessage.Shape]
    · split <;> simp_all [WasmMessage.Shape]

/-- A member that is left out when its value is undefined. -/
def member (k : String) : Option (Json ν) → List (String × Json ν)
  | none => []
  | some v => [(k, v)]

/-- A member is found under its own name only. -/
theorem named_member (k k' : String) (o : Option (Json ν)) :
    Json.named k (member k' o) = if k' = k then o.toList else [] := by
  cases o with
  | none => simp [member]
  | some v => simp [member, Json.named]

/-- An ack frame. -/
def ackFrame (id : Option (Json ν)) (ok : Bool) (error response : Option (Json ν))
    (duplicate : Option Bool) : Json ν :=
  .obj ([("t", .str "ack")] ++ member "id" id ++ [("ok", .bool ok)] ++ member "error" error ++
    member "response" response ++ member "duplicate" (duplicate.map .bool))

/-- An ack carries its tag. -/
theorem ackFrame_property_t (id error response : Option (Json ν)) (ok : Bool)
    (duplicate : Option Bool) :
    (ackFrame id ok error response duplicate).property "t" = some (.str "ack") := by
  simp [ackFrame, Json.property, Json.named_append, named_member, Json.named]

/-- An ack says whether the command succeeded. -/
theorem ackFrame_property_ok (id error response : Option (Json ν)) (ok : Bool)
    (duplicate : Option Bool) :
    (ackFrame id ok error response duplicate).property "ok" = some (.bool ok) := by
  simp [ackFrame, Json.property, Json.named_append, named_member, Json.named]

/-- An ack carries the id it was made with, if there is one. -/
theorem ackFrame_property_id (id error response : Option (Json ν)) (ok : Bool)
    (duplicate : Option Bool) : (ackFrame id ok error response duplicate).property "id" = id := by
  cases id <;> simp [ackFrame, Json.property, Json.named_append, named_member, Json.named]

/-- The ack of a command that the ring holds. -/
def duplicateAck (id : Option (Json ν)) : Json ν := ackFrame id true none (some .null) (some true)

/-- The ack with which `resolve` answers a command. -/
def resolveAck (impl : Impl) (id response : Option (Json ν)) : Json ν :=
  match impl with
  | .typescript => ackFrame id true none response none
  | .rescript => ackFrame id true none (some (response.getD .null)) none

/-- The ack with which a command is refused. -/
def rejectAck (id : Option (Json ν)) (message : Json ν) : Json ν :=
  ackFrame id false (some message) none none

/-- The message of a response that is not ok. The TypeScript relay turns the error
into a string, which throws when it has no string form. -/
def refusal (impl : Impl) (text : ν → String) (error : Option (Json ν)) : Option (Json ν) :=
  let default := Json.str "[msfs-bridge] WASM returned error"
  match impl, error with
  | _, none => some default
  | .typescript, some .null => some default
  | .typescript, some e => (scriptString text e).map .str
  | .rescript, some e => some e

/-- The ack a response is turned into; `none` when this throws. -/
def responseAck (impl : Impl) (text : ν → String) (id : Option (Json ν)) (ok : Bool)
    (response error : Option (Json ν)) : Option (Json ν) :=
  if ok then some (resolveAck impl id response)
  else (refusal impl text error).map (rejectAck id)

/-- The ack for a response carries the id of the command and the response's `ok`. -/
theorem responseAck_eq_ackFrame {impl : Impl} {text : ν → String} {id : Option (Json ν)} {ok : Bool}
    {response error : Option (Json ν)} {ack : Json ν}
    (h : responseAck impl text id ok response error = some ack) :
    ∃ error' response', ack = ackFrame id ok error' response' none := by
  unfold responseAck at h
  split_ifs at h with hok
  · rw [Option.some.injEq] at h
    subst h hok
    cases impl with
    | typescript => exact ⟨none, response, rfl⟩
    | rescript => exact ⟨none, some (response.getD .null), rfl⟩
  · obtain ⟨message, _, rfl⟩ := Option.map_eq_some_iff.mp h
    rw [Bool.not_eq_true] at hok
    subst hok
    exact ⟨some message, none, rfl⟩

/-- The envelope of a host message on the CommBus. -/
def envelope (requestId : String) (payload : Json ν) : Json ν :=
  .obj [("requestId", .str requestId), ("payload", payload)]

/-- An envelope is one level deeper than its payload. -/
theorem depth_envelope (requestId : String) (payload : Json ν) :
    (envelope requestId payload).depth = payload.depth + 1 := by
  simp [envelope, Json.depth, Json.depthMembers]

def wasmTimeout : String := "WASM_TIMEOUT: no response from WASM gauge"

def commBusNotBound : String :=
  "COMMBUS_NOT_BOUND: response listener never attached — no WASM module is reachable"

def commBusNotReady : String := "COMMBUS_NOT_READY: CommBus not initialized"

def relayDestroyed : String := "[msfs-bridge] Relay destroyed"

/-- What a CommBus call is rejected with. -/
inductive Rejection where
  /-- An `Error` and its message. -/
  | error (message : String)
  | undefined
  | null
  /-- Any other value: its `message`, if it has one, and its string form, which objects
  may lack. -/
  | other (message string : Option String)

/-- The message of the ack for a rejected call; `none` when the handler throws. One relay
reads `message` off any value, which `undefined` and `null` do not let it do; the other one
turns what is no `Error` into a string. -/
def Rejection.message (impl : Impl) (reason : Rejection) : Option String :=
  match impl, reason with
  | _, .error message => some message
  | .typescript, .undefined => some "undefined"
  | .typescript, .null => some "null"
  | .typescript, .other _ string => string
  | .rescript, .undefined | .rescript, .null => none
  | .rescript, .other message _ => some (message.getD "unknown")

end InfinityBridge.Relay
