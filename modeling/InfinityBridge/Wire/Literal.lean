import InfinityBridge.Wire.Msg

/-!
# Numbers in JSON texts

How the Rust programs and the script engine of the relays write and read numbers. A
literal is an integer or has a fraction or an exponent; where it is written by either
side, its digits are those of its value, so that the value stands for the text. What
`serde_json` makes of a literal that is no 64-bit integer is a parameter: without its
feature `float_roundtrip` it promises an approximation only.
-/

namespace InfinityBridge

/-- A number in a JSON text: a sign and a magnitude. -/
inductive NumberLiteral where
  | int (neg : Bool) (n : ℕ)
  /-- With a fraction or an exponent. -/
  | dec (neg : Bool) (q : ℚ) (h : 0 ≤ q)

namespace Double

/-- The decimal that is printed for a double. -/
def decimal (d : Double) : ℚ := Rounding.shortestDecimal binary64 17 d.mag

/-- The decimal that is printed has no sign of its own. -/
theorem decimal_nonneg (d : Double) : 0 ≤ d.decimal := Rounding.shortestDecimal_nonneg d.nonneg

/-- Reading back the shortest decimal gives the double. -/
theorem nearest_decimal (d : Double) : Rounding.nearest binary64 d.decimal = d.mag :=
  Rounding.nearest_shortestDecimal d.exact

/-- A double as `serde_json` prints it, always with a fraction or an exponent. -/
def literal (d : Double) : NumberLiteral := .dec d.neg d.decimal d.decimal_nonneg

/-- A double as a script prints it: whole numbers below `1e21` in digits only, and zero
without its sign. -/
def scriptLiteral (d : Double) : NumberLiteral :=
  if d.mag = 0 then .int false 0
  else if d.decimal.den = 1 ∧ d.decimal < 10 ^ 21 then .int d.neg d.decimal.num.toNat
  else d.literal

/-- The double nearest to a magnitude with a sign; `none` when that is an infinity. -/
def ofMagnitude (neg : Bool) (x : ℚ) (h : 0 ≤ x) : Option Double :=
  if hfin : Rounding.nearest binary64 x < 2 ^ 1024 then
    some ⟨neg, Rounding.nearest binary64 x, Rounding.nearest_nonneg h,
      Rounding.nearest_nearest h, hfin⟩
  else none

/-- A literal as a script reads it. -/
def ofLiteral : NumberLiteral → Option Double
  | .int neg n => ofMagnitude neg n n.cast_nonneg
  | .dec neg q h => ofMagnitude neg q h

/-- What a script reads of the text `serde_json` prints for a double is that double. -/
theorem ofLiteral_literal (d : Double) : ofLiteral d.literal = some d := by
  have hmag := d.nearest_decimal
  simp only [literal, ofLiteral, ofMagnitude, hmag, dif_pos d.finite]

/-- The number is whole and fits the 64-bit integers of its sign. -/
def IsInteger (d : Double) : Prop :=
  d.mag.den = 1 ∧ d.mag < if d.neg then 2 ^ 63 else 2 ^ 64

instance (d : Double) : Decidable d.IsInteger := by
  unfold IsInteger
  infer_instance

/-- A magnitude without a denominator is a natural number. -/
theorem eq_toNat_num {x : ℚ} (hnonneg : 0 ≤ x) (hwhole : x.den = 1) : x = (x.num.toNat : ℕ) := by
  have hnum : 0 ≤ x.num := Rat.num_nonneg.mpr hnonneg
  rw [← Int.cast_natCast (R := ℚ), Int.toNat_of_nonneg hnum]
  exact ((Rat.den_eq_one_iff x).mp hwhole).symm

/-- A whole double has a whole decimal. -/
theorem exists_decimal_eq (d : Double) (hwhole : d.mag.den = 1) : ∃ q : ℕ, d.decimal = q := by
  have hmag := eq_toNat_num d.nonneg hwhole
  have hexact : Rounding.nearest binary64 (d.mag.num.toNat : ℕ) = (d.mag.num.toNat : ℕ) := by
    rw [← hmag]
    exact d.exact
  have hwholeDecimal : ∃ z : ℤ, Rounding.shortestDecimal binary64 17 (d.mag.num.toNat : ℕ) = z :=
    Rounding.shortestDecimal_isInt hexact
  obtain ⟨z, hz⟩ := hwholeDecimal
  rw [← hmag] at hz
  have hnonneg : 0 ≤ z := by
    have := d.decimal_nonneg
    rw [decimal, hz] at this
    exact_mod_cast this
  obtain ⟨q, rfl⟩ := Int.eq_ofNat_of_zero_le hnonneg
  exact ⟨q, hz⟩

/-- A double with a whole decimal is whole. -/
theorem den_eq_one_of_decimal (d : Double) {q : ℕ} (hq : d.decimal = q) : d.mag.den = 1 := by
  obtain ⟨z, hz⟩ := Rounding.isInt_of_shortestDecimal d.exact hq
  rw [hz]
  exact Rat.den_intCast z

/-- A script prints a whole double of a 64-bit size in digits only. -/
theorem scriptLiteral_of_whole (d : Double) (hwhole : d.mag.den = 1) (hle : d.mag ≤ 2 ^ 64) :
    ∃ q : ℕ, d.decimal = q ∧ d.scriptLiteral = .int (d.neg && d.mag != 0) q := by
  obtain ⟨q, hq⟩ := d.exists_decimal_eq hwhole
  refine ⟨q, hq, ?_⟩
  have hlt : d.decimal < 2 ^ (65 : ℤ) := by
    refine Rounding.shortestDecimal_lt_zpow d.exact (by decide) (hle.trans_lt ?_)
    norm_num
  have hbound : d.decimal < 10 ^ 21 := hlt.trans (by norm_num)
  by_cases hzero : d.mag = 0
  · have hdecimal : d.decimal = 0 := by
      have : Rounding.shortestDecimal binary64 17 (0 : ℕ) = (0 : ℕ) :=
        Rounding.shortestDecimal_natCast (by decide) (by decide)
      rw [decimal, hzero]
      exact_mod_cast this
    have hq0 : q = 0 := by
      rw [hdecimal] at hq
      exact_mod_cast hq.symm
    simp [scriptLiteral, hzero, hq0]
  · rw [hq] at hbound
    simp [scriptLiteral, hzero, hq, hbound]

/-- A whole double is below a power of two exactly when its decimal is, unless the
decimal of that power itself does not exceed it. -/
theorem mag_lt_two_pow_iff (d : Double) {a q : ℕ} (hq : d.decimal = q)
    (htop : (2 : ℚ) ^ (a : ℤ) < Rounding.shortestDecimal binary64 17 (2 ^ (a : ℤ))) :
    (d.mag < 2 ^ a ↔ q < 2 ^ a) ∧ (d.mag < 2 ^ a ↔ q ≤ 2 ^ a) := by
  have hmin : binary64.minExp ≤ (a : ℤ) := (show binary64.minExp ≤ 0 by decide).trans (by omega)
  have hlt : d.mag < 2 ^ a → q < 2 ^ a := by
    intro h
    have hdecimal : Rounding.shortestDecimal binary64 17 d.mag < 2 ^ (a : ℤ) :=
      Rounding.shortestDecimal_lt_zpow d.exact hmin (by exact_mod_cast h)
    rw [← decimal, hq] at hdecimal
    exact_mod_cast hdecimal
  have hle : q ≤ 2 ^ a → d.mag < 2 ^ a := by
    intro h
    have hdecimal : d.decimal ≤ 2 ^ (a : ℤ) := by
      rw [hq]
      exact_mod_cast h
    exact_mod_cast Rounding.lt_zpow_of_shortestDecimal_le d.exact d.nonneg hmin htop hdecimal
  exact ⟨⟨hlt, fun h => hle h.le⟩, ⟨fun h => (hlt h).le, hle⟩⟩

/-- The integers of 64 bits are told by their decimals as well. -/
theorem isInteger_iff (d : Double) :
    d.IsInteger ↔ ∃ q : ℕ, d.decimal = q ∧ if d.neg then q ≤ 2 ^ 63 else q < 2 ^ 64 := by
  have htop63 : (2 : ℚ) ^ ((63 : ℕ) : ℤ) <
      Rounding.shortestDecimal binary64 17 (2 ^ ((63 : ℕ) : ℤ)) := by
    decide +kernel
  have htop64 : (2 : ℚ) ^ ((64 : ℕ) : ℤ) <
      Rounding.shortestDecimal binary64 17 (2 ^ ((64 : ℕ) : ℤ)) := by
    decide +kernel
  constructor
  · rintro ⟨hwhole, hlt⟩
    obtain ⟨q, hq⟩ := d.exists_decimal_eq hwhole
    refine ⟨q, hq, ?_⟩
    split_ifs at hlt ⊢
    · exact (d.mag_lt_two_pow_iff hq htop63).2.mp hlt
    · exact (d.mag_lt_two_pow_iff hq htop64).1.mp hlt
  · rintro ⟨q, hq, hle⟩
    refine ⟨d.den_eq_one_of_decimal hq, ?_⟩
    split_ifs at hle ⊢
    · exact (d.mag_lt_two_pow_iff hq htop63).2.mpr hle
    · exact (d.mag_lt_two_pow_iff hq htop64).1.mpr hle

end Double

/-- A script reads what it has printed. -/
theorem Double.isSome_ofLiteral_scriptLiteral (d : Double) :
    (ofLiteral d.scriptLiteral).isSome = true := by
  rw [scriptLiteral]
  split_ifs with hzero hwhole
  · have hfin : Rounding.nearest binary64 ((0 : ℕ) : ℚ) < 2 ^ 1024 := by
      rw [Nat.cast_zero, Rounding.nearest_zero]
      positivity
    simp only [ofLiteral, ofMagnitude, dif_pos hfin, Option.isSome_some]
  · have hfin : Rounding.nearest binary64 (d.decimal.num.toNat : ℕ) < 2 ^ 1024 := by
      rw [← eq_toNat_num d.decimal_nonneg hwhole.1, d.nearest_decimal]
      exact d.finite
    simp only [ofLiteral, ofMagnitude, dif_pos hfin, Option.isSome_some]
  · rw [ofLiteral_literal]
    rfl

namespace Number

/-- A number as `serde_json` prints it. -/
def literal : Number → NumberLiteral
  | .posInt n _ => .int false n
  | .negInt n _ => .int true n
  | .float d => d.literal

/-- A literal as `serde_json` reads it: an integer when it is written as one and fits,
and otherwise the double that `readFloat` makes of it. -/
def ofLiteral (readFloat : NumberLiteral → Option Double) : NumberLiteral → Option Number
  | .int false n =>
    if h : n < 2 ^ 64 then some (.posInt n h) else (readFloat (.int false n)).map .float
  | .int true n =>
    if h : 0 < n ∧ n ≤ 2 ^ 63 then some (.negInt n h) else (readFloat (.int true n)).map .float
  | .dec neg q h => (readFloat (.dec neg q h)).map .float

/-- A number after a script has read and printed it and `serde_json` has read it again. -/
def relayed (readFloat : NumberLiteral → Option Double) (n : Number) : Option Number :=
  (Double.ofLiteral n.literal).bind fun d => ofLiteral readFloat d.scriptLiteral

/-- A number after `serde_json` has printed and read it. -/
def reread (readFloat : NumberLiteral → Option Double) (n : Number) : Option Number :=
  ofLiteral readFloat n.literal

/-- The numbers a script hands on as they are. An integer has to be the decimal printed
for the double nearest to it. A double may not be whole, unless it is beyond the 64-bit
integers, and `read` has to find it again in its text. -/
def Intact (read : NumberLiteral → Option Double) : Number → Prop
  | .posInt n _ | .negInt n _ =>
    Rounding.shortestDecimal binary64 17 (Rounding.nearest binary64 n) = n
  | .float d => ¬d.IsInteger ∧ read d.scriptLiteral = some d

instance (read : NumberLiteral → Option Double) : ∀ n, Decidable (Intact read n)
  | .posInt _ _ | .negInt _ _ => decEq _ _
  | .float _ => inferInstanceAs (Decidable (_ ∧ _))

variable {readFloat : NumberLiteral → Option Double}

/-- A script hands on a double as the text that is printed for it. -/
theorem relayed_float (d : Double) :
    (Number.float d).relayed readFloat = ofLiteral readFloat d.scriptLiteral := by
  rw [relayed, literal, Double.ofLiteral_literal, Option.bind_some]

/-- A double that is no 64-bit integer is read as a double again. -/
theorem ofLiteral_scriptLiteral {d : Double} (hd : ¬d.IsInteger) :
    ofLiteral readFloat d.scriptLiteral = (readFloat d.scriptLiteral).map .float := by
  have hzero : d.mag ≠ 0 := by
    intro hzero
    refine hd ⟨by rw [hzero]; rfl, ?_⟩
    rw [hzero]
    split_ifs <;> norm_num
  rw [Double.isInteger_iff] at hd
  push Not at hd
  rw [Double.scriptLiteral, if_neg hzero]
  split_ifs with hwhole
  · have hlarge := hd _ (Double.eq_toNat_num d.decimal_nonneg hwhole.1)
    cases hneg : d.neg with
    | true =>
      simp only [hneg, if_true] at hlarge
      exact dif_neg (by omega)
    | false =>
      simp only [hneg, Bool.false_eq_true, if_false] at hlarge
      exact dif_neg (by omega)
  · rfl

/-- A double that is a 64-bit integer is read as an integer. -/
theorem ofLiteral_scriptLiteral_of_isInteger {d : Double} (hd : d.IsInteger) :
    ∃ m, ofLiteral readFloat d.scriptLiteral = some m ∧ ∀ d', m ≠ .float d' := by
  have hle : d.mag ≤ 2 ^ 64 := by
    have hlt := hd.2
    split_ifs at hlt
    · exact hlt.le.trans (by norm_num)
    · exact hlt.le
  obtain ⟨q, hq, hliteral⟩ := d.scriptLiteral_of_whole hd.1 hle
  obtain ⟨q', hq', hbound⟩ := d.isInteger_iff.mp hd
  have heq : q' = q := by
    rw [hq'] at hq
    exact_mod_cast hq
  subst heq
  rw [hliteral]
  by_cases hsign : (d.neg && d.mag != 0) = true
  · obtain ⟨hneg, hzero⟩ := Bool.and_eq_true_iff.mp hsign
    rw [if_pos hneg] at hbound
    have hpos : 0 < q' := by
      refine Nat.pos_of_ne_zero fun h0 => ?_
      have hback := d.nearest_decimal
      rw [hq', h0, Nat.cast_zero, Rounding.nearest_zero] at hback
      simp [← hback] at hzero
    rw [hsign]
    exact ⟨.negInt q' ⟨hpos, hbound⟩, dif_pos ⟨hpos, hbound⟩, fun _ h => by cases h⟩
  · rw [Bool.not_eq_true] at hsign
    have hlt : q' < 2 ^ 64 := by
      split_ifs at hbound <;> omega
    rw [hsign]
    exact ⟨.posInt q' hlt, dif_pos hlt, fun _ h => by cases h⟩

/-- The 64-bit integers are far from the infinities. -/
theorem nearest_le_two_pow {n : ℕ} (hn : n ≤ 2 ^ 64) : Rounding.nearest binary64 n ≤ 2 ^ 64 := by
  rcases Nat.eq_zero_or_pos n with rfl | h
  · simp
  · have hn' : (n : ℚ) ≤ 2 ^ (64 : ℤ) := by exact_mod_cast hn
    exact_mod_cast Rounding.nearest_le_zpow hn'
      (Rounding.unitExp_le (by exact_mod_cast h) hn' (by decide))

/-- A script hands on an integer as the decimal that is printed for the nearest double. -/
theorem exists_ofLiteral_int {neg : Bool} {n : ℕ} (hn : n ≤ 2 ^ 64) (hpos : neg = true → 0 < n) :
    ∃ q : ℕ, Rounding.shortestDecimal binary64 17 (Rounding.nearest binary64 n) = q ∧
      (Double.ofLiteral (.int neg n)).bind (fun d => ofLiteral readFloat d.scriptLiteral) =
        ofLiteral readFloat (.int neg q) := by
  have hle := nearest_le_two_pow hn
  have hfin : Rounding.nearest binary64 n < 2 ^ 1024 :=
    hle.trans_lt (pow_lt_pow_right₀ (by norm_num) (by norm_num))
  have hread :
      Double.ofLiteral (.int neg n) = some ⟨neg, Rounding.nearest binary64 n, _, _, hfin⟩ :=
    dif_pos hfin
  have hwhole : (Rounding.nearest binary64 n).den = 1 := by
    obtain ⟨z, hz⟩ : ∃ z : ℤ, Rounding.nearest binary64 n = z := Rounding.nearest_natCast_isInt n
    rw [hz]
    exact Rat.den_intCast z
  obtain ⟨q, hq, hliteral⟩ := Double.scriptLiteral_of_whole
    ⟨neg, Rounding.nearest binary64 n, _, Rounding.nearest_nearest n.cast_nonneg, hfin⟩ hwhole hle
  refine ⟨q, hq, ?_⟩
  have hsign : (neg && Rounding.nearest binary64 n != 0) = neg := by
    cases neg with
    | false => rfl
    | true =>
      have hone : (2 : ℚ) ^ (0 : ℤ) ≤ n := by exact_mod_cast hpos rfl
      have hnear : (2 : ℚ) ^ (0 : ℤ) ≤ Rounding.nearest binary64 n :=
        Rounding.zpow_le_nearest hone (by decide)
      have hne : Rounding.nearest binary64 n ≠ 0 := by
        intro h0
        rw [h0] at hnear
        norm_num at hnear
      simp [hne]
  rw [hread, Option.bind_some, hliteral, hsign]

/-- A script reads every number. -/
theorem exists_ofLiteral_literal (n : Number) : ∃ d, Double.ofLiteral n.literal = some d := by
  have hint : ∀ (neg : Bool) (n : ℕ), n ≤ 2 ^ 64 → ∃ d, Double.ofLiteral (.int neg n) = some d :=
    fun neg n hn => ⟨_, dif_pos ((nearest_le_two_pow hn).trans_lt
      (pow_lt_pow_right₀ (by norm_num) (by norm_num)))⟩
  cases n with
  | posInt n h => exact hint false n h.le
  | negInt n h => exact hint true n (h.2.trans (by norm_num))
  | float d => exact ⟨d, d.ofLiteral_literal⟩

/-- Reading with correct rounding finds a number where a script does. -/
theorem isSome_ofLiteral {l : NumberLiteral} (h : (Double.ofLiteral l).isSome = true) :
    (ofLiteral Double.ofLiteral l).isSome = true := by
  cases l with
  | int neg n => cases neg <;> (rw [ofLiteral]; split_ifs <;> simp [h])
  | dec neg q hq => simpa [ofLiteral] using h

/-- A script may change a number, but it loses none. -/
theorem isSome_relayed (n : Number) : (n.relayed Double.ofLiteral).isSome = true := by
  obtain ⟨d, hd⟩ := n.exists_ofLiteral_literal
  rw [relayed, hd, Option.bind_some]
  exact isSome_ofLiteral d.isSome_ofLiteral_scriptLiteral

/-- Reading back a printed integer gives that integer only. -/
theorem ofLiteral_int_false {q n : ℕ} {h : n < 2 ^ 64} :
    ofLiteral readFloat (.int false q) = some (.posInt n h) ↔ q = n := by
  by_cases hq : q < 2 ^ 64
  · rw [ofLiteral, dif_pos hq]
    simp
  · rw [ofLiteral, dif_neg hq]
    constructor
    · intro heq
      obtain ⟨_, _, hcase⟩ := Option.map_eq_some_iff.mp heq
      cases hcase
    · omega

/-- Reading back a printed negative integer gives that integer only. -/
theorem ofLiteral_int_true {q n : ℕ} {h : 0 < n ∧ n ≤ 2 ^ 63} :
    ofLiteral readFloat (.int true q) = some (.negInt n h) ↔ q = n := by
  by_cases hq : 0 < q ∧ q ≤ 2 ^ 63
  · rw [ofLiteral, dif_pos hq]
    simp
  · rw [ofLiteral, dif_neg hq]
    constructor
    · intro heq
      obtain ⟨_, _, hcase⟩ := Option.map_eq_some_iff.mp heq
      cases hcase
    · rintro rfl
      exact absurd h hq

/-- A number that crosses a script once is the same afterwards exactly when it is intact. -/
theorem relayed_eq_self_iff (n : Number) :
    n.relayed readFloat = some n ↔ n.Intact readFloat := by
  cases n with
  | posInt n h =>
    obtain ⟨q, hq, hrelayed⟩ := @exists_ofLiteral_int readFloat false n h.le (by simp)
    rw [relayed, literal, hrelayed, ofLiteral_int_false, Intact, hq]
    exact Nat.cast_inj.symm
  | negInt n h =>
    obtain ⟨q, hq, hrelayed⟩ := @exists_ofLiteral_int readFloat true n (h.2.trans (by norm_num))
      (fun _ => h.1)
    rw [relayed, literal, hrelayed, ofLiteral_int_true, Intact, hq]
    exact Nat.cast_inj.symm
  | float d =>
    rw [relayed_float, Intact]
    by_cases hd : d.IsInteger
    · obtain ⟨m, hm, hne⟩ := @ofLiteral_scriptLiteral_of_isInteger readFloat d hd
      simp [hm, hd, hne]
    · simp [ofLiteral_scriptLiteral hd, hd]

/-- A nonnegative integer is read back as it is. -/
@[simp] theorem reread_posInt (n : ℕ) (h : n < 2 ^ 64) :
    (posInt n h).reread readFloat = some (posInt n h) :=
  dif_pos h

/-- A negative integer is read back as it is. -/
@[simp] theorem reread_negInt (n : ℕ) (h : 0 < n ∧ n ≤ 2 ^ 63) :
    (negInt n h).reread readFloat = some (negInt n h) :=
  dif_pos h

/-- What a double is read back as is up to the reader. -/
@[simp] theorem reread_float (d : Double) :
    (float d).reread readFloat = (readFloat d.literal).map .float :=
  rfl

/-- Printing and reading again changes doubles only. -/
theorem reread_eq_int {m n : Number} (hn : ∀ d, n ≠ .float d) :
    m.reread readFloat = some n ↔ m = n := by
  cases m with
  | posInt q h => simp
  | negInt q h => simp
  | float d =>
    rw [reread_float, Option.map_eq_some_iff]
    constructor
    · rintro ⟨d', _, rfl⟩
      exact absurd rfl (hn d')
    · rintro rfl
      exact absurd rfl (hn d)

/-- A number that crosses a script and is printed and read once more is the same
afterwards exactly when it is intact under both readings. -/
theorem relayed_reread_eq_self_iff (n : Number) :
    (n.relayed readFloat).bind (reread readFloat) = some n ↔
      n.Intact fun t => (readFloat t).bind fun d => readFloat d.literal := by
  cases n with
  | posInt n h =>
    have hself := @relayed_eq_self_iff readFloat (.posInt n h)
    simp only [Option.bind_eq_some_iff, reread_eq_int (n := .posInt n h) (by simp), exists_eq_right]
    exact hself
  | negInt n h =>
    have hself := @relayed_eq_self_iff readFloat (.negInt n h)
    simp only [Option.bind_eq_some_iff, reread_eq_int (n := .negInt n h) (by simp), exists_eq_right]
    exact hself
  | float d =>
    rw [relayed_float, Intact]
    by_cases hd : d.IsInteger
    · obtain ⟨m, hm, hne⟩ := @ofLiteral_scriptLiteral_of_isInteger readFloat d hd
      cases m with
      | float d' => exact absurd rfl (hne d')
      | posInt q h => simp [hm, hd]
      | negInt q h => simp [hm, hd]
    · rw [ofLiteral_scriptLiteral hd]
      cases hread : readFloat d.scriptLiteral <;> simp [hd]

/-- The integers below `2 ^ 53` are intact. -/
theorem intact_posInt {n : ℕ} {h : n < 2 ^ 64} (hn : n < 2 ^ 53) :
    (Number.posInt n h).Intact readFloat := by
  rw [Intact, Rounding.nearest_natCast (by decide) hn]
  exact Rounding.shortestDecimal_natCast (by decide) hn

end Number

/-- `serde_json` on texts. -/
def SerdeJson.ofReading (readFloat : NumberLiteral → Option Double) :
    SerdeJson (Json NumberLiteral) where
  toString := Json.traverse (some ∘ Number.literal)
  fromStr j := if j.depth < recursionLimit then j.traverse (Number.ofLiteral readFloat) else none
  fields names j := (Body.ofFields names j).bind (Body.traverse (Number.ofLiteral readFloat))

end InfinityBridge
