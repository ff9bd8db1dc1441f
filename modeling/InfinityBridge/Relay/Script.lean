import InfinityBridge.Wire.Value

/-!
# What the relays use of the script language

Both relays run on the same script engine. What differs is the language they were
written in, so that one definition with the implementation as a parameter serves
for each function they share, and branches where the two differ.
-/

namespace InfinityBridge.Relay

/-- The implementation of a relay. -/
inductive Impl where
  | typescript
  | rescript
  deriving DecidableEq

/-- A reading of `Date.now()`: milliseconds, within the range of dates. -/
structure TimeValue where
  millis : ℤ
  bounded : millis.natAbs ≤ 8640000000000000

/-- The moment from which clocks count. -/
def TimeValue.epoch : TimeValue := ⟨0, by decide⟩

/-- The number a clock reading is. -/
def TimeValue.toNumber (t : TimeValue) : Number :=
  if h : 0 ≤ t.millis then
    .posInt t.millis.toNat (by have := t.bounded; omega)
  else .negInt t.millis.natAbs (by have := t.bounded; omega)

/-- The next value of the request counter: a 32-bit integer in one implementation, a
double in the other. -/
def Impl.succ : Impl → ℤ → ℤ
  | .typescript, n => if n < 2 ^ 53 then n + 1 else n
  | .rescript, n => Int.bmod (n + 1) (2 ^ 32)

/-! ### Numbers and strings -/

/-- How many decimals a decimal fraction has. -/
def decimals (q : ℚ) : ℕ := ((List.range 400).find? fun k => (q * 10 ^ k).den = 1).getD 0

/-- Digits in exponential notation. -/
def exponential (digits : List Char) (exponent : ℤ) : String :=
  let significant := (digits.reverse.dropWhile (· == '0')).reverse
  let mantissa := match significant with
    | [] => []
    | [d] => [d]
    | d :: ds => d :: '.' :: ds
  String.ofList mantissa ++ (if exponent < 0 then "e-" else "e+") ++ toString exponent.natAbs

/-- The text of a magnitude: its shortest digits, with an exponent when it is
`1e21` or more, or less than `1e-6`. -/
def magnitudeText (v : ℚ) : String :=
  let q := Rounding.shortestDecimal binary64 17 v
  let f := decimals q
  let digits := (toString (q * 10 ^ f).num).toList
  let point : ℤ := digits.length - f
  if v = 0 then "0"
  else if point ≤ -6 ∨ 21 < point then exponential digits (point - 1)
  else if f = 0 then String.ofList digits
  else if 0 < point then
    String.ofList (digits.take point.toNat) ++ "." ++ String.ofList (digits.drop point.toNat)
  else "0." ++ String.ofList (List.replicate point.natAbs '0' ++ digits)

/-- `String` of a number. -/
def numberText (n : Number) : String :=
  if n.isNeg && n.magnitude != 0 then "-" ++ magnitudeText n.magnitude
  else magnitudeText n.magnitude

mutual

/-- `String` of a parsed value. An object with a member `toString` has no string form:
the member is not a function, so the conversion throws. -/
def scriptString {ν : Type*} (text : ν → String) : Json ν → Option String
  | .null => some "null"
  | .bool b => some (if b then "true" else "false")
  | .num n => some (text n)
  | .str s => some s
  | .arr xs => (scriptStrings text xs).map (String.intercalate ",")
  | .obj ms => if (Json.named "toString" ms).isEmpty then some "[object Object]" else none

/-- The elements of an array as they are joined: `null` becomes the empty string. -/
def scriptStrings {ν : Type*} (text : ν → String) : List (Json ν) → Option (List String)
  | [] => some []
  | .null :: xs => (scriptStrings text xs).map ("" :: ·)
  | x :: xs => (scriptString text x).bind fun s => (scriptStrings text xs).map (s :: ·)

end

example : scriptString numberText (.arr [.num (.posInt 5 (by decide)), .null, .str "x"]) =
    some "5,,x" := by decide +kernel

/-! ### Keys -/

/-- A value as a key of a script set: primitives are compared by value, and every
parsed object is a new one. -/
inductive Key where
  | undefined
  | null
  | bool (b : Bool)
  | num (q : ℚ)
  | str (s : String)
  | ref (n : ℕ)
  deriving DecidableEq

/-- The key of a parsed value; `ref` is the identity it has if it is an object. -/
def Key.of (ref : ℕ) : Option Value → Key
  | none => .undefined
  | some .null => .null
  | some (.bool b) => .bool b
  | some (.num n) => .num (if n.isNeg then -n.magnitude else n.magnitude)
  | some (.str s) => .str s
  | some (.arr _) | some (.obj _) => .ref ref

/-- Ids as the script handles them: one may be `undefined`. -/
class ScriptId (κ : Type*) where
  isUndefined : κ → Bool

/-- The ids the rings are declared for. -/
instance : ScriptId String := ⟨fun _ => false⟩

/-- The ids that a frame may bring. -/
instance : ScriptId Key := ⟨fun id => id = .undefined⟩

end InfinityBridge.Relay
