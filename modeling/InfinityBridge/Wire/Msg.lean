import InfinityBridge.Wire.Value

/-!
# Wire messages

The six messages of the wire protocol and their JSON form. `toValue` is serde's
internally tagged serialisation: the tag `t` first, then the fields in their
order of declaration, with the fields marked `skip_serializing_if` left out when
absent. `fromValue` is the derived deserialisation, which takes the members of an
object in any order, or the elements of an array by position.
-/

namespace InfinityBridge

/-- `HelloPayload`. -/
structure HelloPayload where
  client : Option String
  aircraft : Option String
  tail : Option String
  session : Option String
  v : Option UInt32
  metadata : Option Value

/-- `CmdPayload`. -/
structure CmdPayload where
  id : String
  name : Option String
  payload : Value

/-- `AckPayload`. -/
structure AckPayload where
  id : String
  ok : Bool
  error : Option String
  response : Option Value
  duplicate : Option Bool

/-- `EventPayload`. -/
structure EventPayload where
  name : String
  data : Value

/-- `WireMsg`. -/
inductive WireMsg where
  | hello (p : HelloPayload)
  | ping (ts : Option UInt64)
  | pong (ts : Option UInt64)
  | cmd (p : CmdPayload)
  | ack (p : AckPayload)
  | event (p : EventPayload)

/-- An optional field that is written as `null` when absent. -/
def orNull {α : Type*} (f : α → Value) : Option α → Value
  | none => .null
  | some a => f a

/-- An optional field under `skip_serializing_if = "Option::is_none"`. -/
def unlessNone {α : Type*} (k : String) (f : α → Value) : Option α → List (String × Value)
  | none => []
  | some a => [(k, f a)]

/-- The JSON form of a message. -/
def WireMsg.toValue : WireMsg → Value
  | .hello p => .obj ([("t", .str "hello"), ("client", orNull .str p.client),
      ("aircraft", orNull .str p.aircraft), ("tail", orNull .str p.tail),
      ("session", orNull .str p.session), ("v", orNull (.num ∘ Number.ofUInt32) p.v)] ++
      unlessNone "meta" id p.metadata)
  | .ping ts => .obj [("t", .str "ping"), ("ts", orNull (.num ∘ Number.ofUInt64) ts)]
  | .pong ts => .obj [("t", .str "pong"), ("ts", orNull (.num ∘ Number.ofUInt64) ts)]
  | .cmd p => .obj ([("t", .str "cmd"), ("id", .str p.id)] ++ unlessNone "name" .str p.name ++
      [("payload", p.payload)])
  | .ack p => .obj ([("t", .str "ack"), ("id", .str p.id), ("ok", .bool p.ok)] ++
      unlessNone "error" .str p.error ++ unlessNone "response" id p.response ++
      unlessNone "duplicate" .bool p.duplicate)
  | .event p => .obj [("t", .str "event"), ("name", .str p.name), ("data", p.data)]

/-- The value of the `i`-th field, named `k`. The outer `none` is the error of a
name that occurs twice, the inner one an absent field. -/
def Body.field {ν : Type*} (b : Body ν) (i : ℕ) (k : String) : Option (Option (Json ν)) :=
  match b with
  | .map ms =>
    match Json.named k ms with
    | [] => some none
    | [v] => some (some v)
    | _ => none
  | .seq vs => some vs[i]?

/-- A sequence may not be longer than the struct has fields. -/
def Body.fits {ν : Type*} (b : Body ν) (n : ℕ) : Bool :=
  match b with
  | .map _ => true
  | .seq vs => vs.length ≤ n

/-- A field that has to be there. -/
def required {ν α : Type*} (conv : Json ν → Option α) (f : Option (Option (Json ν))) : Option α :=
  f.bind fun v => v.bind conv

/-- An `Option` field under `#[serde(default)]`: absent and `null` are both `None`. -/
def optional {ν α : Type*} (conv : Json ν → Option α) :
    Option (Option (Json ν)) → Option (Option α)
  | none => none
  | some none => some none
  | some (some .null) => some none
  | some (some v) => (conv v).map some

def asString {ν : Type*} : Json ν → Option String
  | .str s => some s
  | _ => none

def asBool {ν : Type*} : Json ν → Option Bool
  | .bool b => some b
  | _ => none

def asUInt64 : Value → Option UInt64
  | .num n => n.toUInt64?
  | _ => none

def asUInt32 : Value → Option UInt32
  | .num n => n.toUInt32?
  | _ => none

def HelloPayload.fromBody (b : Body Number) : Option HelloPayload := do
  guard (b.fits 6)
  let client ← optional asString (b.field 0 "client")
  let aircraft ← optional asString (b.field 1 "aircraft")
  let tail ← optional asString (b.field 2 "tail")
  let session ← optional asString (b.field 3 "session")
  let v ← optional asUInt32 (b.field 4 "v")
  let metadata ← optional some (b.field 5 "meta")
  some { client, aircraft, tail, session, v, metadata }

def CmdPayload.fromBody (b : Body Number) : Option CmdPayload := do
  guard (b.fits 3)
  let id ← required asString (b.field 0 "id")
  let name ← optional asString (b.field 1 "name")
  let payload ← required some (b.field 2 "payload")
  some { id, name, payload }

def AckPayload.fromBody (b : Body Number) : Option AckPayload := do
  guard (b.fits 5)
  let id ← required asString (b.field 0 "id")
  let ok ← required asBool (b.field 1 "ok")
  let error ← optional asString (b.field 2 "error")
  let response ← optional some (b.field 3 "response")
  let duplicate ← optional asBool (b.field 4 "duplicate")
  some { id, ok, error, response, duplicate }

def EventPayload.fromBody (b : Body Number) : Option EventPayload := do
  guard (b.fits 2)
  let name ← required asString (b.field 0 "name")
  let data ← required some (b.field 1 "data")
  some { name, data }

/-- The `ts` field of a ping or pong. -/
def tsFromBody (b : Body Number) : Option (Option UInt64) := do
  guard (b.fits 1)
  optional asUInt64 (b.field 0 "ts")

/-- The variant a tag selects, read from the remaining content. -/
def WireMsg.fromTagged (tag : String) (b : Body Number) : Option WireMsg :=
  match tag with
  | "hello" => (HelloPayload.fromBody b).map .hello
  | "ping" => (tsFromBody b).map .ping
  | "pong" => (tsFromBody b).map .pong
  | "cmd" => (CmdPayload.fromBody b).map .cmd
  | "ack" => (AckPayload.fromBody b).map .ack
  | "event" => (EventPayload.fromBody b).map .event
  | _ => none

/-- The derived deserialisation: an object with exactly one member `t`, or an
array that starts with the tag. -/
def WireMsg.fromValue : Value → Option WireMsg
  | .obj ms =>
    match Json.named "t" ms with
    | [.str tag] => WireMsg.fromTagged tag (.map ms)
    | _ => none
  | .arr (.str tag :: vs) => WireMsg.fromTagged tag (.seq vs)
  | _ => none

/-- `WireMsg::to_json`. -/
def WireMsg.toJson (m : WireMsg) : Text := .doc m.toValue

/-- `WireMsg::from_json`. -/
def WireMsg.fromJson (t : Text) : Option WireMsg := t.parse.bind WireMsg.fromValue

/-- `Some(Value::Null)` and `None` have the same meaning in an optional field of
type `Option<Value>`: reading makes both of them `None`. -/
def dropNull : Option Value → Option Value
  | some .null => none
  | v => v

/-- A message as it comes back from its JSON form. -/
def WireMsg.canonical : WireMsg → WireMsg
  | .hello p => .hello { p with metadata := dropNull p.metadata }
  | .ack p => .ack { p with response := dropNull p.response }
  | m => m

section Fields

variable {ν : Type*}

/-- A required field that occurs once is read with its conversion. -/
theorem required_field_map {α : Type*} {conv : Json ν → Option α} {ms : List (String × Json ν)}
    {i : ℕ} {k : String} {v : Json ν} (h : Json.named k ms = [v]) :
    required conv ((Body.map ms).field i k) = conv v := by
  simp [required, Body.field, h]

end Fields

/-- An optional field that was left out or written reads back as it was. -/
theorem optional_unlessNone {α : Type*} {conv : Value → Option α} {f : α → Value}
    (hnull : ∀ a, f a ≠ .null) (hconv : ∀ a, conv (f a) = some a) {o : Option α}
    {ms : List (String × Value)} {i : ℕ} {k : String}
    (h : Json.named k ms = (unlessNone k f o).map Prod.snd) :
    optional conv ((Body.map ms).field i k) = some o := by
  cases o with
  | none => simp [optional, Body.field, h, unlessNone]
  | some a =>
    simp only [unlessNone, List.map_cons, List.map_nil] at h
    simp only [Body.field, h]
    cases hf : f a with
    | null => exact absurd hf (hnull a)
    | _ => simp [optional, ← hf, hconv]

/-- An optional value reads back as it was, except that `null` becomes absent. -/
theorem optional_value {o : Option Value} {ms : List (String × Value)} {i : ℕ} {k : String}
    (h : Json.named k ms = (unlessNone k id o).map Prod.snd) :
    optional some ((Body.map ms).field i k) = some (dropNull o) := by
  cases o with
  | none => simp [optional, Body.field, h, unlessNone, dropNull]
  | some a =>
    simp only [unlessNone, List.map_cons, List.map_nil, id_eq] at h
    simp only [Body.field, h]
    cases a <;> simp [optional, dropNull]

/-- An optional field written as `null` when absent reads back as it was. -/
theorem optional_orNull {α : Type*} {conv : Value → Option α} {f : α → Value}
    (hnull : ∀ a, f a ≠ .null) (hconv : ∀ a, conv (f a) = some a) {o : Option α}
    {ms : List (String × Value)} {i : ℕ} {k : String} (h : Json.named k ms = [orNull f o]) :
    optional conv ((Body.map ms).field i k) = some o := by
  cases o with
  | none => simp [optional, Body.field, h, orNull]
  | some a =>
    simp only [orNull] at h
    simp only [Body.field, h]
    cases hf : f a with
    | null => exact absurd hf (hnull a)
    | _ => simp [optional, ← hf, hconv]

/-- A field that may be left out is found under its own name only. -/
theorem named_unlessNone {α : Type*} (k k' : String) (f : α → Value) (o : Option α) :
    Json.named k (unlessNone k' f o) = if k' = k then (unlessNone k' f o).map Prod.snd else [] := by
  cases o with
  | none => simp [unlessNone]
  | some a => simp [unlessNone, Json.named]

/-- A required field is there once. -/
theorem named_of_required {α : Type*} {conv : Value → Option α} {ms : List (String × Value)}
    {i : ℕ} {k : String} {a : α} (h : required conv ((Body.map ms).field i k) = some a) :
    ∃ v, Json.named k ms = [v] ∧ conv v = some a := by
  simp only [required, Body.field] at h
  split at h
  · cases h
  · next v hv => exact ⟨v, hv, h⟩
  · cases h

/-- Only a string is read as a string. -/
theorem eq_str_of_asString {v : Value} {s : String} (h : asString v = some s) : v = .str s := by
  cases v <;> cases h
  rfl

/-- Only a boolean is read as a boolean. -/
theorem eq_bool_of_asBool {v : Value} {b : Bool} (h : asBool v = some b) : v = .bool b := by
  cases v <;> cases h
  rfl

/-- What is read as an ack has the id and the flag of the ack as its members. -/
theorem AckPayload.fromBody_map {ms : List (String × Value)} {a : AckPayload}
    (h : fromBody (.map ms) = some a) :
    Json.named "id" ms = [.str a.id] ∧ Json.named "ok" ms = [.bool a.ok] ∧
      optional some ((Body.map ms).field 3 "response") = some a.response ∧
      optional asBool ((Body.map ms).field 4 "duplicate") = some a.duplicate := by
  simp only [fromBody, bind, Option.bind_eq_some_iff] at h
  obtain ⟨_, _, id, hid, ok, hok, error, _, response, hresponse, duplicate, hduplicate, heq⟩ := h
  cases heq
  obtain ⟨v, hnamed, hv⟩ := named_of_required hid
  obtain ⟨w, hnamed', hw⟩ := named_of_required hok
  refine ⟨?_, ?_, hresponse, hduplicate⟩
  · rw [hnamed, eq_str_of_asString hv]
  · rw [hnamed', eq_bool_of_asBool hw]

/-- What is read as an ack has the tag of an ack. -/
theorem WireMsg.eq_ack_of_fromTagged {tag : String} {b : Body Number} {a : AckPayload}
    (h : fromTagged tag b = some (.ack a)) : tag = "ack" ∧ AckPayload.fromBody b = some a := by
  unfold fromTagged at h
  split at h
  case h_5 =>
    obtain ⟨a', ha', heq⟩ := Option.map_eq_some_iff.mp h
    cases heq
    exact ⟨rfl, ha'⟩
  case h_7 => cases h
  all_goals
    obtain ⟨_, _, heq⟩ := Option.map_eq_some_iff.mp h
    cases heq

/-- An object that is read as an ack. -/
theorem WireMsg.fromValue_obj_ack {ms : List (String × Value)} {a : AckPayload}
    (h : fromValue (.obj ms) = some (.ack a)) :
    Json.named "t" ms = [.str "ack"] ∧ AckPayload.fromBody (.map ms) = some a := by
  simp only [fromValue] at h
  split at h
  · next tag htag =>
    obtain ⟨rfl, hbody⟩ := eq_ack_of_fromTagged h
    exact ⟨htag, hbody⟩
  · cases h

/-- The tag of a message. -/
def WireMsg.tag : WireMsg → String
  | .hello _ => "hello"
  | .ping _ => "ping"
  | .pong _ => "pong"
  | .cmd _ => "cmd"
  | .ack _ => "ack"
  | .event _ => "event"

/-- A message is read under its own tag. -/
theorem WireMsg.tag_of_fromTagged {tag : String} {b : Body Number} {m : WireMsg}
    (h : fromTagged tag b = some m) : m.tag = tag := by
  unfold fromTagged at h
  split at h
  case h_7 => cases h
  all_goals
    obtain ⟨_, _, rfl⟩ := Option.map_eq_some_iff.mp h
    rfl

/-- A script reads off a message the tag it is read under. -/
theorem WireMsg.tag_of_property {j : Value} {m : WireMsg} {tag : String}
    (h : fromValue j = some m) (htag : j.property "t" = some (.str tag)) : m.tag = tag := by
  cases j with
  | obj ms =>
    simp only [fromValue] at h
    split at h
    · next tag' htag' =>
      rw [Json.property, htag', List.getLast?_singleton, Option.some.injEq, Json.str.injEq] at htag
      rw [tag_of_fromTagged h, htag]
    · cases h
  | _ => cases htag

/-- Every message reads back from its JSON form as its canonical form. -/
theorem WireMsg.fromValue_toValue (m : WireMsg) : fromValue m.toValue = some m.canonical := by
  cases m with
  | hello p =>
    have hstr : ∀ s : String, (Json.str s : Value) ≠ .null := fun _ h => by cases h
    have hnum : ∀ n, ((Json.num ∘ Number.ofUInt32) n : Value) ≠ .null := fun _ h => by cases h
    simp only [toValue, fromValue, fromTagged, HelloPayload.fromBody, named_unlessNone,
      Json.named_append]
    rw [optional_orNull (f := Json.str) (o := p.client) hstr (fun _ => rfl)
        (by simp [Json.named, named_unlessNone]),
      optional_orNull (f := Json.str) (o := p.aircraft) hstr (fun _ => rfl)
        (by simp [Json.named, named_unlessNone]),
      optional_orNull (f := Json.str) (o := p.tail) hstr (fun _ => rfl)
        (by simp [Json.named, named_unlessNone]),
      optional_orNull (f := Json.str) (o := p.session) hstr (fun _ => rfl)
        (by simp [Json.named, named_unlessNone]),
      optional_orNull (f := Json.num ∘ Number.ofUInt32) (o := p.v) hnum
        (fun n => by simp [asUInt32])
        (by simp [Json.named, named_unlessNone]),
      optional_value (o := p.metadata)
        (by simp [Json.named, named_unlessNone])]
    simp [Json.named, Body.fits, canonical]
  | ping ts => cases ts <;> simp [toValue, fromValue, fromTagged, tsFromBody, orNull, canonical,
      optional, Body.field, Body.fits, Json.named, asUInt64]
  | pong ts => cases ts <;> simp [toValue, fromValue, fromTagged, tsFromBody, orNull, canonical,
      optional, Body.field, Body.fits, Json.named, asUInt64]
  | cmd p =>
    simp only [toValue, fromValue, fromTagged, CmdPayload.fromBody, named_unlessNone,
      Json.named_append]
    rw [required_field_map (v := .str p.id)
        (by simp [Json.named, Json.named_append, named_unlessNone]),
      optional_unlessNone (f := Json.str) (o := p.name) (fun _ h => by cases h) (fun _ => rfl)
        (by simp [Json.named, Json.named_append, named_unlessNone]),
      required_field_map (v := p.payload)
        (by simp [Json.named, Json.named_append, named_unlessNone])]
    simp [Json.named, Body.fits, canonical, asString]
  | ack p =>
    simp only [toValue, fromValue, fromTagged, AckPayload.fromBody, named_unlessNone,
      Json.named_append]
    rw [required_field_map (v := .str p.id)
        (by simp [Json.named, Json.named_append, named_unlessNone]),
      required_field_map (v := .bool p.ok)
        (by simp [Json.named, Json.named_append, named_unlessNone]),
      optional_unlessNone (f := Json.str) (o := p.error) (fun _ h => by cases h) (fun _ => rfl)
        (by simp [Json.named, Json.named_append, named_unlessNone]),
      optional_value (o := p.response)
        (by simp [Json.named, Json.named_append, named_unlessNone]),
      optional_unlessNone (f := Json.bool) (o := p.duplicate) (fun _ h => by cases h)
        (fun _ => rfl) (by simp [Json.named, Json.named_append, named_unlessNone])]
    simp [Json.named, Body.fits, canonical, asString, asBool]
  | event p =>
    simp [toValue, fromValue, fromTagged, EventPayload.fromBody, required, Body.field, Body.fits,
      Json.named, asString, canonical]

end InfinityBridge
