import InfinityBridge.Library.Json
import InfinityBridge.Library.Rounding

/-!
# JSON values and texts

The host and the WASM gauge hold JSON as `serde_json::Value`, whose numbers are
64-bit integers or doubles; the relays hold it as JavaScript values, whose numbers
are all doubles. A text is the document it denotes, or something that is no JSON
at all.
-/

namespace InfinityBridge

/-- IEEE 754 binary64. -/
def binary64 : Rounding.Format := ⟨53, -1074, by decide⟩

/-- A finite double: a sign and a magnitude of the format. -/
structure Double where
  neg : Bool
  mag : ℚ
  nonneg : 0 ≤ mag
  exact : Rounding.nearest binary64 mag = mag
  finite : mag < 2 ^ 1024
  deriving DecidableEq

/-- `serde_json::Number`: a `u64`, a negative `i64` or a finite `f64`. -/
inductive Number where
  | posInt (n : ℕ) (h : n < 2 ^ 64)
  /-- The integer `-n`. -/
  | negInt (n : ℕ) (h : 0 < n ∧ n ≤ 2 ^ 63)
  | float (d : Double)
  deriving DecidableEq

/-- The magnitude of the double a number is read as by a script. -/
def Number.magnitude : Number → ℚ
  | .posInt n _ | .negInt n _ => Rounding.nearest binary64 n
  | .float d => d.mag

def Number.isNeg : Number → Bool
  | .posInt _ _ => false
  | .negInt _ _ => true
  | .float d => d.neg

/-- `serde_json::Value`. -/
abbrev Value := Json Number

/-- A text handed from one component to another. -/
inductive Text where
  | doc (j : Value)
  | junk (raw : String)

/-- The number of nested arrays and objects at which `serde_json` gives up. -/
def recursionLimit : ℕ := 128

/-- `serde_json::from_str` up to the document: it refuses what is no JSON and what
is nested as deep as its recursion limit. -/
def Text.parse : Text → Option Value
  | .doc j => if j.depth < recursionLimit then some j else none
  | .junk _ => none

/-- `JSON.parse`, which has no such limit. -/
def Text.jsonParse : Text → Option Value
  | .doc j => some j
  | .junk _ => none

/-- A script reads the document of a text. -/
@[simp] theorem Text.jsonParse_doc (j : Value) : (Text.doc j).jsonParse = some j := rfl

/-- A script reads nothing off what is no JSON. -/
@[simp] theorem Text.jsonParse_junk (raw : String) : (Text.junk raw).jsonParse = none := rfl

/-- What `serde_json` accepts is a document, the one a script reads as well. -/
theorem Text.eq_doc_of_parse {t : Text} {j : Value} (h : t.parse = some j) : t = .doc j := by
  cases t with
  | junk raw => cases h
  | doc j' =>
    rw [Text.parse] at h
    split_ifs at h
    rw [Option.some.injEq] at h
    rw [h]

/-- What a derived `Deserialize` reads its fields from. -/
inductive Body (ν : Type*) where
  | map (ms : List (String × Json ν))
  | seq (vs : List (Json ν))

namespace Body

variable {ν μ : Type*}

/-- The fields of a struct in a text. Of an object only the members with the names of the
fields are read, whatever the others hold; of an array all elements are. -/
def ofFields (names : List String) : Json ν → Option (Body ν)
  | .obj ms =>
    let known := ms.filter fun m => m.1 ∈ names
    if Json.depthMembers known + 1 < recursionLimit then some (.map known) else none
  | .arr vs => if Json.depthList vs + 1 < recursionLimit then some (.seq vs) else none
  | _ => none

/-- `Json.traverse` on the values of the fields. -/
def traverse (f : ν → Option μ) : Body ν → Option (Body μ)
  | .map ms => (Json.traverseMembers f ms).map .map
  | .seq vs => (Json.traverseList f vs).map .seq

/-- `Json.keepLast` on the values of the fields. The fields themselves stay, since a field
that occurs twice is an error. -/
def keepLast : Body ν → Body ν
  | .map ms => .map (ms.map fun m => (m.1, m.2.keepLast))
  | .seq vs => .seq (vs.map Json.keepLast)

end Body

/-- `serde_json::to_string` and `serde_json::from_str` on texts of some form. The latter
reads a whole document, or the fields of a struct that have the given names. -/
structure SerdeJson (τ : Type*) where
  toString : Value → Option τ
  fromStr : τ → Option Value
  fields : List String → τ → Option (Body Number)

/-- The texts that carry every value unchanged. -/
def SerdeJson.exact : SerdeJson Text where
  toString v := some (.doc v)
  fromStr := Text.parse
  fields names
    | .doc j => Body.ofFields names j
    | .junk _ => none

/-- A `Value` that is read as a field has the last of the members of each name. -/
def SerdeJson.keepingLast {τ : Type*} (json : SerdeJson τ) : SerdeJson τ :=
  { json with fields := fun names t => (json.fields names t).map Body.keepLast }

/-- The JSON form of a Rust `u64`. -/
def Number.ofUInt64 (n : UInt64) : Number := .posInt n.toNat n.toNat_lt

/-- Deserialising a `u64` takes a nonnegative integer only. -/
def Number.toUInt64? : Number → Option UInt64
  | .posInt n _ => some (UInt64.ofNat n)
  | _ => none

/-- Deserialising a `u32` also checks the range. -/
def Number.toUInt32? : Number → Option UInt32
  | .posInt n _ => if n < 2 ^ 32 then some (UInt32.ofNat n) else none
  | _ => none

/-- The JSON form of a Rust `u32`. -/
def Number.ofUInt32 (n : UInt32) : Number :=
  .posInt n.toNat (n.toNat_lt.trans (by decide))

/-- A `u64` is read back. -/
@[simp] theorem Number.toUInt64?_ofUInt64 (n : UInt64) :
    (Number.ofUInt64 n).toUInt64? = some n := by
  simp [Number.ofUInt64, Number.toUInt64?]

/-- A `u32` is read back. -/
@[simp] theorem Number.toUInt32?_ofUInt32 (n : UInt32) :
    (Number.ofUInt32 n).toUInt32? = some n := by
  simp [Number.ofUInt32, Number.toUInt32?, n.toNat_lt]

end InfinityBridge
