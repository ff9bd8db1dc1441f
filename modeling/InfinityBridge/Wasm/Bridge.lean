import InfinityBridge.Wire.Msg

/-!
# The WASM bridge

`Bridge::dispatch` up to the call of the handler, and `send_response` after it. Both
go through texts, whose form is a parameter: a text that carries a value unchanged is
one case, the printed numbers of the real texts are another.
-/

namespace InfinityBridge.Wasm

/-- `CommBusEnvelope`. -/
structure CommBusEnvelope where
  requestId : String
  payload : Value

def CommBusEnvelope.fromBody (b : Body Number) : Option CommBusEnvelope := do
  guard (b.fits 2)
  let requestId ← required asString (b.field 0 "requestId")
  let payload ← required some (b.field 1 "payload")
  some { requestId, payload }

/-- The derived deserialisation, from an object or from an array. -/
def CommBusEnvelope.fromValue : Value → Option CommBusEnvelope
  | .obj ms => fromBody (.map ms)
  | .arr vs => fromBody (.seq vs)
  | _ => none

/-- `CommBusResponse`. -/
structure CommBusResponse where
  requestId : String
  ok : Bool
  response : Option Value
  error : Option String

def CommBusResponse.toValue (r : CommBusResponse) : Value :=
  .obj ([("requestId", .str r.requestId), ("ok", .bool r.ok)] ++
    unlessNone "response" id r.response ++ unlessNone "error" .str r.error)

/-- What `dispatch` does with a text. -/
inductive Dispatched where
  /-- The text is no envelope. -/
  | dropped
  | event (e : EventPayload)
  /-- The handler is called, and its result answers the request. -/
  | command (requestId : String) (name : Option String) (payload : Value)
  /-- The request is answered with an error of the bridge itself. -/
  | failed (requestId : String) (message : String)

variable {τ : Type*}

/-- `serde_json::from_str::<CommBusEnvelope>`. -/
def CommBusEnvelope.fromStr (json : SerdeJson τ) (raw : τ) : Option CommBusEnvelope :=
  (json.fields ["requestId", "payload"] raw).bind fromBody

/-- `Bridge::dispatch`. A payload that is neither a command nor an event is handed to
the handler as it is, without a name. -/
def dispatch (json : SerdeJson τ) (raw : τ) : Dispatched :=
  match CommBusEnvelope.fromStr json raw with
  | none => .dropped
  | some envelope =>
    match json.toString envelope.payload with
    | none => .failed envelope.requestId "internal: re-serialize failed"
    | some payload =>
      match (json.fromStr payload).bind WireMsg.fromValue with
      | some (.cmd cmd) => .command envelope.requestId cmd.name cmd.payload
      | some (.event evt) => .event evt
      | _ => .command envelope.requestId none envelope.payload

/-- The response for a handler's result. -/
def CommBusResponse.ofResult (requestId : String) (result : Except String Value) :
    CommBusResponse where
  requestId := requestId
  ok := result.isOk
  response := result.toOption
  error := match result with
    | .ok _ => none
    | .error e => some e

/-- `Bridge::send_response`: the text handed to the backend, if there is one. -/
def sendResponse (json : SerdeJson τ) (requestId : String) (result : Except String Value) :
    Option τ :=
  json.toString (CommBusResponse.ofResult requestId result).toValue

/-- `Bridge::emit`: the text handed to the backend, if there is one. -/
def emit (json : SerdeJson τ) (name : String) (data : Value) : Option τ :=
  json.toString (WireMsg.event ⟨name, data⟩).toValue

/-- The fields of an envelope as the relays write it. -/
theorem ofFields_envelope {ν : Type*} (requestId : String) (payload : Json ν) :
    Body.ofFields ["requestId", "payload"]
        (.obj [("requestId", .str requestId), ("payload", payload)]) =
      if payload.depth + 1 < recursionLimit then
        some (.map [("requestId", .str requestId), ("payload", payload)])
      else none := by
  simp [Body.ofFields, Json.depthMembers, Json.depth]

/-- The members of an envelope: its id and its payload, each of them once. -/
theorem CommBusEnvelope.fromBody_map_iff {ms : List (String × Value)} {e : CommBusEnvelope} :
    fromBody (.map ms) = some e ↔
      Json.named "requestId" ms = [.str e.requestId] ∧ Json.named "payload" ms = [e.payload] := by
  constructor
  · intro h
    simp only [fromBody, bind, Option.bind_eq_some_iff] at h
    obtain ⟨_, _, id, hid, payload, hpayload, heq⟩ := h
    cases heq
    obtain ⟨v, hv, hstr⟩ := named_of_required hid
    obtain ⟨w, hw, heq⟩ := named_of_required hpayload
    cases heq
    exact ⟨by rw [hv, eq_str_of_asString hstr], hw⟩
  · rintro ⟨hid, hpayload⟩
    simp [fromBody, required, Body.field, Body.fits, hid, hpayload, asString]

/-- An envelope is read from the fields it was made of. -/
theorem CommBusEnvelope.fromBody_map (requestId : String) (payload : Value) :
    fromBody (.map [("requestId", .str requestId), ("payload", payload)]) =
      some ⟨requestId, payload⟩ :=
  fromBody_map_iff.mpr ⟨rfl, rfl⟩

/-- An envelope reads back as what it was made of. -/
theorem CommBusEnvelope.fromValue_obj (requestId : String) (payload : Value) :
    fromValue (.obj [("requestId", .str requestId), ("payload", payload)]) =
      some ⟨requestId, payload⟩ :=
  fromBody_map requestId payload

/-- The handler's result answers the request of the envelope. -/
theorem requestId_of_dispatch {json : SerdeJson τ} {raw : τ} {requestId : String}
    {name : Option String} {payload : Value}
    (h : dispatch json raw = .command requestId name payload) :
    ∃ p, CommBusEnvelope.fromStr json raw = some ⟨requestId, p⟩ := by
  unfold dispatch at h
  split at h
  · cases h
  · next envelope henvelope =>
    have hid : envelope.requestId = requestId := by
      split at h
      · cases h
      · split at h <;> cases h <;> rfl
    exact ⟨envelope.payload, by rw [henvelope, ← hid]⟩

end InfinityBridge.Wasm
