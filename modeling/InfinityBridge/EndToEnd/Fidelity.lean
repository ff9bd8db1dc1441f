import InfinityBridge.Host.Hub
import InfinityBridge.Relay.Messages
import InfinityBridge.Wasm.Bridge
import InfinityBridge.Wire.Literal

/-!
# The journey of a command

One command from the host through a relay to the handler of the WASM gauge, and its
result on the way back. Every text in between is the document that was printed, with
its numbers as literals. Only numbers and the nesting limit decide what arrives: the
frames and envelopes around a value are the same on both sides of every crossing.
-/

namespace InfinityBridge.EndToEnd

open Relay Wasm

/-- A text with its numbers as they are written. -/
abbrev Doc := Json NumberLiteral

/-- `JSON.parse`. -/
def jsonParse : Doc → Option (Json Double) := Json.traverse Double.ofLiteral

/-- `JSON.stringify`. -/
def jsonStringify : Json Double → Option Doc := Json.traverse (some ∘ Double.scriptLiteral)

/-- The relay turns a command frame into a CommBus call: the id it keeps, and the text. -/
def relayCommand (impl : Impl) (requestId : String) (frame : Doc) :
    Option (Option (Json Double) × Doc) :=
  (jsonParse frame).bind fun j =>
    match hostMessage impl j with
    | .cmd id msg => (jsonStringify (envelope requestId msg)).map (id, ·)
    | _ => none

/-- The relay turns a response into an ack frame for the id it has kept. -/
def relayResponse (impl : Impl) (cmdId : Option (Json Double)) (requestId : String) (raw : Doc) :
    Option Doc :=
  (jsonParse raw).bind fun j =>
    match wasmMessage impl j with
    | .response rid ok response error =>
      if rid = requestId then
        (responseAck impl (fun d => numberText (.float d)) cmdId ok response error).bind
          jsonStringify
      else none
    | _ => none

/-- The host turns an ack frame into the result of the call with this id. -/
def hostOutcome (json : SerdeJson Doc) (id : String) (frame : Doc) :
    Option (Except BridgeError Value) :=
  match (json.fromStr frame).bind WireMsg.fromValue with
  | some (.ack a) => if a.id = id then some (Host.ackOutcome a) else none
  | _ => none

/-- What a command did: what the handler was called with, and what the caller got. -/
structure Journey where
  handled : Option (Option String × Value)
  returned : Option (Except BridgeError Value)

section

variable (impl : Impl) (readFloat : NumberLiteral → Option Double) (id requestId : String)
  (name : Option String) (payload : Value) (handler : Option String → Value → Except String Value)

/-- The way back of a result. -/
def deliverResult (cmdId : Option (Json Double)) (rid : String) (result : Except String Value) :
    Option (Except BridgeError Value) :=
  (sendResponse (.ofReading readFloat) rid result).bind fun raw =>
    (relayResponse impl cmdId requestId raw).bind (hostOutcome (.ofReading readFloat) id)

/-- The whole way of a command. -/
def journey : Journey :=
  match ((SerdeJson.ofReading readFloat).toString (WireMsg.cmd ⟨id, name, payload⟩).toValue).bind
      (relayCommand impl requestId) with
  | none => ⟨none, none⟩
  | some (cmdId, call) =>
    match dispatch (.ofReading readFloat) call with
    | .command rid n p =>
      ⟨some (n, p), deliverResult impl readFloat id requestId cmdId rid (handler n p)⟩
    | .failed rid message =>
      ⟨none, deliverResult impl readFloat id requestId cmdId rid (.error message)⟩
    | .event _ | .dropped => ⟨none, none⟩

/-- What the caller should get for a result of the handler. -/
def expected : Except String Value → Except BridgeError Value
  | .ok v => .ok v
  | .error e => .error (.application e)

/-- The handler got the command as it was given, and the caller got its result. -/
def Journey.Faithful (j : Journey) : Prop :=
  j.handled = some (name, payload) ∧ j.returned = some (expected (handler name payload))

end

/-! ### Frames around a value -/

section Frames

variable {ν μ : Type*}

/-- The frame of a command over any type of numbers. -/
def commandDoc (id : String) (name : Option String) (payload : Json ν) : Json ν :=
  .obj ([("t", .str "cmd"), ("id", .str id)] ++ member "name" (name.map .str) ++
    [("payload", payload)])

/-- The response to a request over any type of numbers. -/
def responseDoc (requestId : String) : Except String (Json ν) → Json ν
  | .ok v => .obj [("requestId", .str requestId), ("ok", .bool true), ("response", v)]
  | .error e => .obj [("requestId", .str requestId), ("ok", .bool false), ("error", .str e)]

/-- The ack with which a relay answers a command of its own with a result. -/
def resultAck (id : Option (Json ν)) : Except String (Json ν) → Json ν
  | .ok v => ackFrame id true none (some v) none
  | .error e => rejectAck id (.str e)

/-- The ack frame for a result over any type of numbers. -/
def ackDoc (id : String) : Except String (Json ν) → Json ν
  | .ok v => ackFrame (some (.str id)) true none (some v) none
  | .error e => ackFrame (some (.str id)) false (some (.str e)) none none

/-- The frame of a command, as a document over any numbers. -/
theorem toValue_cmd (id : String) (name : Option String) (payload : Value) :
    (WireMsg.cmd ⟨id, name, payload⟩).toValue = commandDoc id name payload := by
  cases name <;> rfl

/-- The response for a result, as a document over any numbers. -/
theorem toValue_ofResult (requestId : String) (result : Except String Value) :
    (CommBusResponse.ofResult requestId result).toValue = responseDoc requestId result := by
  cases result <;> rfl

/-- The payload is the only part of a command frame that has numbers. -/
theorem traverse_commandDoc (f : ν → Option μ) (id : String) (name : Option String)
    (payload : Json ν) :
    (commandDoc id name payload).traverse f = (payload.traverse f).map (commandDoc id name) := by
  cases name <;> cases hp : payload.traverse f <;>
    simp [commandDoc, member, Json.traverse, Json.traverseMembers, hp]

/-- The payload is the only part of an envelope that has numbers. -/
theorem traverse_envelope (f : ν → Option μ) (requestId : String) (payload : Json ν) :
    (envelope requestId payload).traverse f = (payload.traverse f).map (envelope requestId) := by
  cases hp : payload.traverse f <;>
    simp [envelope, Json.traverse, Json.traverseMembers, hp]

/-- A pass over a result leaves an error alone. -/
def traverseResult (f : ν → Option μ) :
    Except String (Json ν) → Option (Except String (Json μ))
  | .ok v => (v.traverse f).map .ok
  | .error e => some (.error e)

/-- Two passes over the numbers of a result are one. -/
theorem traverseResult_bind {κ : Type*} (f : ν → Option μ) (g : μ → Option κ)
    (result : Except String (Json ν)) :
    (traverseResult f result).bind (traverseResult g) =
      traverseResult (fun n => (f n).bind g) result := by
  cases result with
  | ok v =>
    rw [traverseResult, traverseResult, ← Json.traverse_bind]
    cases v.traverse f <;> rfl
  | error e => rfl

/-- The numbers of a response are those of its result. -/
theorem traverse_responseDoc (f : ν → Option μ) (requestId : String)
    (result : Except String (Json ν)) :
    (responseDoc requestId result).traverse f =
      (traverseResult f result).map (responseDoc requestId) := by
  cases result with
  | ok v =>
    cases hv : v.traverse f <;>
      simp [responseDoc, traverseResult, Json.traverse, Json.traverseMembers, hv]
  | error e => rfl

/-- The numbers of an ack are those of its result. -/
theorem traverse_ackDoc (f : ν → Option μ) (id : String) (result : Except String (Json ν)) :
    (ackDoc id result).traverse f = (traverseResult f result).map (ackDoc id) := by
  cases result with
  | ok v =>
    cases hv : v.traverse f <;>
      simp [ackDoc, ackFrame, member, traverseResult, Json.traverse, Json.traverseMembers, hv]
  | error e => rfl

/-- A command is one level deeper than its payload. -/
theorem depth_commandDoc (id : String) (name : Option String) (payload : Json ν) :
    (commandDoc id name payload).depth = payload.depth + 1 := by
  cases name <;> simp [commandDoc, member, Json.depth, Json.depthMembers]

/-- An ack is one level deeper than the value in it. -/
theorem depth_ackDoc_ok (id : String) (v : Json ν) :
    (ackDoc id (.ok v)).depth = v.depth + 1 := by
  simp [ackDoc, ackFrame, member, Json.depth, Json.depthMembers]

/-- Both relays read the frame of a command as the command. -/
theorem hostMessage_commandDoc (impl : Impl) (id : String) (name : Option String)
    (payload : Json ν) :
    hostMessage impl (commandDoc id name payload) =
      .cmd (some (.str id)) (commandDoc id name payload) := by
  cases impl <;> cases name <;> simp [hostMessage, commandDoc, member, Json.property, Json.named]

/-- A relay turns the response to a request into the ack of its command, with the result. -/
theorem responseAck_result (impl : Impl) (text : ν → String) (id : Option (Json ν))
    (requestId : String) (result : Except String (Json ν)) :
    ∃ ok response error,
      wasmMessage impl (responseDoc requestId result) = .response requestId ok response error ∧
        responseAck impl text id ok response error = some (resultAck id result) := by
  cases result with
  | ok v =>
    refine ⟨true, some v, none, ?_, ?_⟩
    · cases impl <;> simp [wasmMessage, responseDoc, Json.property, Json.named]
    · cases impl <;> rfl
  | error e =>
    refine ⟨false, none, some (.str e), ?_, ?_⟩
    · cases impl <;> simp [wasmMessage, responseDoc, Json.property, Json.named]
    · cases impl <;> rfl

/-- Both relays make the ack for a result of the response for it. -/
theorem responseAck_responseDoc (impl : Impl) (text : ν → String) (id requestId : String)
    (result : Except String (Json ν)) :
    ∃ ok response error,
      wasmMessage impl (responseDoc requestId result) = .response requestId ok response error ∧
        responseAck impl text (some (.str id)) ok response error = some (ackDoc id result) := by
  obtain ⟨ok, response, error, hresponse, hack⟩ :=
    responseAck_result impl text (some (.str id)) requestId result
  refine ⟨ok, response, error, hresponse, hack.trans ?_⟩
  cases result <;> rfl

/-- A response has no tag and is no message of the wire protocol. -/
theorem fromValue_responseDoc (requestId : String) (result : Except String Value) :
    WireMsg.fromValue (responseDoc requestId result) = none := by
  cases result <;> simp [responseDoc, WireMsg.fromValue, Json.named]

/-- The host reads from an ack frame the id and the result it was made for. -/
theorem fromValue_ackDoc (id : String) (result : Except String Value) : ∃ a : AckPayload,
    WireMsg.fromValue (ackDoc id result) = some (.ack a) ∧ a.id = id ∧
      Host.ackOutcome a = expected result := by
  cases result with
  | ok v =>
    have hread := WireMsg.fromValue_toValue (.ack ⟨id, true, none, some v, none⟩)
    refine ⟨_, hread, rfl, ?_⟩
    cases v <;> rfl
  | error e => exact ⟨_, WireMsg.fromValue_toValue (.ack ⟨id, false, some e, none, none⟩), rfl, rfl⟩

end Frames

/-! ### One crossing after the other -/

section Crossings

variable {impl : Impl} {readFloat : NumberLiteral → Option Double} {id requestId : String}
  {name : Option String}

/-- A number as the relay prints it after it has read it. -/
def relayedLiteral (n : Number) : Option NumberLiteral :=
  (Double.ofLiteral n.literal).map Double.scriptLiteral

/-- What a relay makes of a printed number: it reads a double and prints it. -/
theorem relayedLiteral_eq : relayedLiteral = fun n => ((some ∘ Number.literal) n).bind fun l =>
    (Double.ofLiteral l).bind (some ∘ Double.scriptLiteral) := by
  funext n
  simp [relayedLiteral, Option.map_eq_bind]

/-- Read again, it is the number as relays hand it on. -/
theorem relayedLiteral_bind (n : Number) :
    (relayedLiteral n).bind (Number.ofLiteral readFloat) = n.relayed readFloat := by
  rw [relayedLiteral, Option.bind_map]
  rfl

/-- Printed by `serde_json`, then read and printed by the relay. -/
theorem traverse_relayedLiteral (j : Value) :
    ((j.traverse (some ∘ Number.literal)).bind jsonParse).bind jsonStringify =
      j.traverse relayedLiteral := by
  rw [jsonParse, Json.traverse_bind, jsonStringify, Json.traverse_bind]
  simp only [relayedLiteral_eq, Option.bind_assoc]

/-- The CommBus call the relay makes for the frame of a command. -/
theorem relayCommand_toString (payload : Value) :
    ((SerdeJson.ofReading readFloat).toString (WireMsg.cmd ⟨id, name, payload⟩).toValue).bind
        (relayCommand impl requestId) =
      (payload.traverse relayedLiteral).map fun t =>
        (some (.str id), envelope requestId (commandDoc id name t)) := by
  rw [← traverse_relayedLiteral, toValue_cmd]
  simp only [SerdeJson.ofReading, traverse_commandDoc]
  cases payload.traverse (some ∘ Number.literal) with
  | none => rfl
  | some t =>
    simp only [Option.map_some, Option.bind_some, relayCommand, jsonParse, traverse_commandDoc]
    cases t.traverse Double.ofLiteral with
    | none => rfl
    | some j =>
      simp only [Option.map_some, Option.bind_some, hostMessage_commandDoc, jsonStringify,
        traverse_envelope, traverse_commandDoc, Option.map_map]
      rfl

/-- An envelope around a command frame, as the bridge reads it. -/
theorem fromStr_envelope (t : Doc) :
    CommBusEnvelope.fromStr (.ofReading readFloat) (envelope requestId (commandDoc id name t)) =
      if t.depth + 2 < recursionLimit then
        (t.traverse (Number.ofLiteral readFloat)).map fun p => ⟨requestId, commandDoc id name p⟩
      else none := by
  simp only [CommBusEnvelope.fromStr, SerdeJson.ofReading, envelope, ofFields_envelope,
    depth_commandDoc]
  split_ifs
  · have hbody : Body.traverse (Number.ofLiteral readFloat)
        (.map [("requestId", .str requestId), ("payload", commandDoc id name t)]) =
          (t.traverse (Number.ofLiteral readFloat)).map fun p =>
            .map [("requestId", .str requestId), ("payload", commandDoc id name p)] := by
      simp only [Body.traverse, Json.traverseMembers, Json.traverse, Option.bind_some,
        traverse_commandDoc]
      cases t.traverse (Number.ofLiteral readFloat) <;> rfl
    rw [Option.bind_some, hbody]
    cases t.traverse (Number.ofLiteral readFloat) with
    | none => rfl
    | some p => exact CommBusEnvelope.fromBody_map requestId _
  · rfl

/-- The frame of a command, as the bridge reads it. -/
theorem fromStr_commandDoc (t : Doc) :
    ((SerdeJson.ofReading readFloat).fromStr (commandDoc id name t)).bind WireMsg.fromValue =
      if t.depth + 1 < recursionLimit then
        (t.traverse (Number.ofLiteral readFloat)).map fun p => .cmd ⟨id, name, p⟩
      else none := by
  simp only [SerdeJson.ofReading, depth_commandDoc, traverse_commandDoc]
  split_ifs
  · cases t.traverse (Number.ofLiteral readFloat) with
    | none => rfl
    | some p =>
      have hcmd := WireMsg.fromValue_toValue (.cmd ⟨id, name, p⟩)
      rw [toValue_cmd] at hcmd
      exact hcmd
  · rfl

/-- The frame of an ack, as the host reads it. -/
theorem hostOutcome_ackDoc (result : Except String Doc) :
    hostOutcome (.ofReading readFloat) id (ackDoc id result) =
      if (ackDoc id result).depth < recursionLimit then
        (traverseResult (Number.ofLiteral readFloat) result).map expected
      else none := by
  simp only [hostOutcome, SerdeJson.ofReading, traverse_ackDoc]
  split_ifs
  · cases traverseResult (Number.ofLiteral readFloat) result with
    | none => rfl
    | some r =>
      obtain ⟨a, hread, hid, houtcome⟩ := fromValue_ackDoc id r
      simp only [Option.map_some, Option.bind_some, hread, hid, if_true, houtcome]
  · rfl

/-- Whatever the handler is called with, its result answers the request of the envelope. -/
theorem requestId_of_dispatch_envelope {t : Doc} {rid : String} {n : Option String} {p : Value}
    (h : dispatch (.ofReading readFloat) (envelope requestId (commandDoc id name t)) =
      .command rid n p) : rid = requestId := by
  obtain ⟨q, hq⟩ := requestId_of_dispatch h
  rw [fromStr_envelope] at hq
  split_ifs at hq
  obtain ⟨_, _, heq⟩ := Option.map_eq_some_iff.mp hq
  cases heq
  rfl

/-- The handler is called with the name and a given payload exactly when the nesting of the
call is within the limit and the payload is what reading the call twice gives. -/
theorem dispatch_envelope_iff {t : Doc} {payload : Value} (hdepth : payload.depth = t.depth) :
    dispatch (.ofReading readFloat) (envelope requestId (commandDoc id name t)) =
        .command requestId name payload ↔
      t.depth + 2 < recursionLimit ∧
        (t.traverse (Number.ofLiteral readFloat)).bind (Json.traverse (Number.reread readFloat)) =
          some payload := by
  rw [dispatch, fromStr_envelope]
  by_cases hlimit : t.depth + 2 < recursionLimit
  · rw [if_pos hlimit]
    cases hfirst : t.traverse (Number.ofLiteral readFloat) with
    | none => simp
    | some p =>
      have hp : p.depth = t.depth := Json.depth_of_traverse _ t hfirst
      have hreread : (p.traverse (some ∘ Number.literal)).bind
          (Json.traverse (Number.ofLiteral readFloat)) = p.traverse (Number.reread readFloat) := by
        rw [Json.traverse_bind]
        rfl
      simp only [hlimit, true_and, Option.map_some, Option.bind_some, ← hreread]
      rw [show (SerdeJson.ofReading readFloat).toString (commandDoc id name p) =
        (p.traverse (some ∘ Number.literal)).map (commandDoc id name) from traverse_commandDoc ..]
      cases hprint : p.traverse (some ∘ Number.literal) with
      | none => simp
      | some u =>
        have hu : u.depth = t.depth := (Json.depth_of_traverse _ p hprint).trans hp
        simp only [Option.map_some, Option.bind_some, fromStr_commandDoc]
        rw [if_pos (by omega)]
        cases hsecond : u.traverse (Number.ofLiteral readFloat) with
        | some q => simp
        | none =>
          -- the frame itself would be the payload, and it is one level deeper
          simp only [Option.map_none, reduceCtorEq, iff_false, Dispatched.command.injEq, true_and,
            not_and]
          rintro - rfl
          rw [depth_commandDoc] at hdepth
          omega
  · simp [hlimit]

/-- The ack frame the relay makes of the response for a result. -/
theorem relayResponse_sendResponse (result : Except String Value) :
    (sendResponse (.ofReading readFloat) requestId result).bind
        (relayResponse impl (some (.str id)) requestId) =
      (traverseResult relayedLiteral result).map (ackDoc id) := by
  have hrelay : ∀ r : Except String Doc,
      relayResponse impl (some (.str id)) requestId (responseDoc requestId r) =
        ((traverseResult Double.ofLiteral r).bind
          (traverseResult (some ∘ Double.scriptLiteral))).map (ackDoc id) := by
    intro r
    simp only [relayResponse, jsonParse, traverse_responseDoc]
    cases traverseResult Double.ofLiteral r with
    | none => rfl
    | some r' =>
      obtain ⟨ok, response, error, hresponse, hack⟩ := responseAck_responseDoc impl
        (fun d => numberText (.float d)) id requestId r'
      simp only [Option.map_some, Option.bind_some, hresponse, if_true, hack, jsonStringify,
        traverse_ackDoc]
  simp only [sendResponse, SerdeJson.ofReading, toValue_ofResult, traverse_responseDoc]
  rw [relayedLiteral_eq, ← traverseResult_bind (some ∘ Number.literal)]
  cases traverseResult (some ∘ Number.literal) result with
  | none => rfl
  | some r =>
    simp only [Option.map_some, Option.bind_some, hrelay, traverseResult_bind]

/-- The result of the handler comes back as it is exactly when it is an error, or a value
that the relay hands on and that is not nested too deeply for the host. -/
theorem deliverResult_eq_iff (result : Except String Value) :
    deliverResult impl readFloat id requestId (some (.str id)) requestId result =
        some (expected result) ↔
      ∀ v, result = .ok v → v.depth + 1 < recursionLimit ∧ ∀ n ∈ v.nums, n.Intact readFloat := by
  rw [deliverResult, ← Option.bind_assoc, relayResponse_sendResponse, Option.bind_map]
  simp only [Function.comp_def, hostOutcome_ackDoc]
  cases result with
  | error e =>
    constructor
    · rintro - v hv
      cases hv
    · intro _
      rfl
  | ok v =>
    simp only [Except.ok.injEq, forall_eq', ← Number.relayed_eq_self_iff,
      ← Json.traverse_eq_self_iff, traverseResult, ← relayedLiteral_bind, ← Json.traverse_bind]
    cases hv : v.traverse relayedLiteral with
    | none => simp
    | some t =>
      have ht : t.depth = v.depth := Json.depth_of_traverse _ v hv
      simp only [Option.map_some, Option.bind_some, depth_ackDoc_ok, ht]
      split_ifs with hlimit
      · simp [expected, hlimit]
      · simp [hlimit]

/-- The handler is called with the name and the payload of the command exactly when the
payload survives. -/
theorem journey_handled_iff (payload : Value)
    (handler : Option String → Value → Except String Value) :
    (journey impl readFloat id requestId name payload handler).handled = some (name, payload) ↔
      payload.depth + 2 < recursionLimit ∧ ∀ n ∈ payload.nums,
        n.Intact fun t => (readFloat t).bind fun d => readFloat d.literal := by
  have hback : payload.traverse (fun n => (n.relayed readFloat).bind (Number.reread readFloat)) =
      ((payload.traverse relayedLiteral).bind (Json.traverse (Number.ofLiteral readFloat))).bind
        (Json.traverse (Number.reread readFloat)) := by
    rw [Json.traverse_bind, Json.traverse_bind]
    simp only [relayedLiteral_bind]
  simp only [← Number.relayed_reread_eq_self_iff, ← Json.traverse_eq_self_iff, hback, journey,
    relayCommand_toString]
  cases ht : payload.traverse relayedLiteral with
  | none => simp
  | some t =>
    have hdepth : payload.depth = t.depth := (Json.depth_of_traverse _ payload ht).symm
    rw [hdepth, Option.bind_some,
      ← @dispatch_envelope_iff readFloat id requestId name t payload hdepth]
    simp only [Option.map_some]
    split
    · next rid n p hdispatch =>
      obtain rfl := requestId_of_dispatch_envelope hdispatch
      simp [hdispatch]
    all_goals
      next hdispatch => simp [hdispatch]

/-- What the caller gets is the handler's result on its way back. -/
theorem journey_returned {payload : Value}
    {handler : Option String → Value → Except String Value}
    (h : (journey impl readFloat id requestId name payload handler).handled =
      some (name, payload)) :
    (journey impl readFloat id requestId name payload handler).returned =
      deliverResult impl readFloat id requestId (some (.str id)) requestId
        (handler name payload) := by
  simp only [journey, relayCommand_toString] at h ⊢
  cases ht : payload.traverse relayedLiteral with
  | none => simp [ht] at h
  | some t =>
    simp only [ht, Option.map_some] at h ⊢
    split at h
    · next rid n p hdispatch =>
      obtain rfl := requestId_of_dispatch_envelope hdispatch
      rw [Option.some.injEq, Prod.mk.injEq] at h
      obtain ⟨rfl, rfl⟩ := h
      rfl
    all_goals cases h

end Crossings

/-- A command goes through unchanged, from the caller's arguments to the caller's result,
exactly when the payload and the value of the result are not nested too deeply and hold
only numbers that the texts between the programs preserve. -/
theorem journey_faithful_iff (impl : Impl) (readFloat : NumberLiteral → Option Double)
    (id requestId : String) (name : Option String) (payload : Value)
    (handler : Option String → Value → Except String Value) :
    (journey impl readFloat id requestId name payload handler).Faithful name payload handler ↔
      (payload.depth ≤ 125 ∧ ∀ n ∈ payload.nums,
        n.Intact fun t => (readFloat t).bind fun d => readFloat d.literal) ∧
      ∀ v, handler name payload = .ok v → v.depth ≤ 126 ∧ ∀ n ∈ v.nums, n.Intact readFloat := by
  have hpayload : payload.depth + 2 < recursionLimit ↔ payload.depth ≤ 125 := by
    unfold recursionLimit
    omega
  have hvalue : ∀ v : Value, v.depth + 1 < recursionLimit ↔ v.depth ≤ 126 := by
    intro v
    unfold recursionLimit
    omega
  rw [Journey.Faithful, journey_handled_iff, hpayload]
  refine and_congr_right fun hsurvives => ?_
  have hhandled := @journey_handled_iff impl readFloat id requestId name payload handler
  rw [journey_returned (hhandled.mpr ⟨hpayload.mpr hsurvives.1, hsurvives.2⟩),
    deliverResult_eq_iff]
  simp only [hvalue]

/-- The integer `2 ^ 53 + 1`, which is no double. -/
def largeInteger : Number := .posInt 9007199254740993 (by decide)

/-- The double `1.0`. -/
def oneFloat : Double where
  neg := false
  mag := 1
  nonneg := by decide
  exact := by decide +kernel
  finite := one_lt_pow₀ (by norm_num) (by norm_num)

/-- A large integer does not reach the handler, and a whole double does not come back,
even when `serde_json` reads every double exactly. -/
theorem numbers_altered :
    ¬(journey .typescript Double.ofLiteral "c" "r" none (.num largeInteger)
        (fun _ _ => .ok .null)).Faithful none (.num largeInteger) (fun _ _ => .ok .null) ∧
      ¬(journey .typescript Double.ofLiteral "c" "r" none .null
        (fun _ _ => .ok (.num (.float oneFloat)))).Faithful none .null
          (fun _ _ => .ok (.num (.float oneFloat))) := by
  constructor
  · rintro ⟨hhandled, _⟩
    have hintact := (journey_handled_iff (.num largeInteger) _).mp hhandled
    have hdecimal : Rounding.shortestDecimal binary64 17
        (Rounding.nearest binary64 (9007199254740993 : ℕ)) = (9007199254740993 : ℕ) :=
      hintact.2 largeInteger (by simp [Json.nums])
    exact absurd hdecimal (by decide +kernel)
  · rintro ⟨hhandled, hreturned⟩
    rw [journey_returned hhandled, deliverResult_eq_iff] at hreturned
    have hintact := (hreturned _ rfl).2 (.float oneFloat) (by simp [Json.nums])
    exact hintact.1 (by decide +kernel)

end InfinityBridge.EndToEnd
