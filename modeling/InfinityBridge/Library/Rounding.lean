import Mathlib.Tactic
import Mathlib.Data.Int.Log
import Mathlib.Data.Rat.Floor

/-!
# Binary floating point and shortest decimals

A binary format is given by its precision and the exponent of its smallest unit.
`nearest` rounds a magnitude to the format, ties to even; a magnitude belongs to
the format when rounding leaves it alone. `shortestDecimal` is the decimal with
the fewest significant digits that rounds back to a given magnitude, the closest
one where several have that length. Magnitudes are nonnegative rationals, so
every definition evaluates.
-/

namespace Rounding

/-- A binary floating-point format without its largest exponent. -/
structure Format where
  /-- The number of significant bits. -/
  precision : ℕ
  /-- The exponent of the unit of the subnormal magnitudes. -/
  minExp : ℤ
  precision_pos : 0 < precision

/-- Round to an integer, a half to the even neighbour. -/
def roundHalfEven (x : ℚ) : ℤ :=
  if Int.fract x < 1 / 2 then ⌊x⌋
  else if 1 / 2 < Int.fract x then ⌊x⌋ + 1
  else if Even ⌊x⌋ then ⌊x⌋ else ⌊x⌋ + 1

/-- Integers are not rounded. -/
@[simp] theorem roundHalfEven_intCast (z : ℤ) : roundHalfEven (z : ℚ) = z := by
  simp [roundHalfEven]

/-- Rounding returns one of the two neighbouring integers. -/
theorem roundHalfEven_eq_or (x : ℚ) :
    roundHalfEven x = ⌊x⌋ ∨ (roundHalfEven x = ⌊x⌋ + 1 ∧ Int.fract x ≠ 0) := by
  unfold roundHalfEven
  by_cases h : Int.fract x < 1 / 2
  · exact Or.inl (if_pos h)
  · have hne : Int.fract x ≠ 0 := by
      intro h0
      rw [h0] at h
      norm_num at h
    rw [if_neg h]
    by_cases h₁ : 1 / 2 < Int.fract x
    · exact Or.inr ⟨if_pos h₁, hne⟩
    · rw [if_neg h₁]
      by_cases h₂ : Even ⌊x⌋
      · exact Or.inl (if_pos h₂)
      · exact Or.inr ⟨if_neg h₂, hne⟩

/-- Rounding does not cross an integer from above. -/
theorem le_roundHalfEven {x : ℚ} {z : ℤ} (h : (z : ℚ) ≤ x) : z ≤ roundHalfEven x := by
  have hfloor : z ≤ ⌊x⌋ := Int.le_floor.mpr h
  rcases roundHalfEven_eq_or x with hr | ⟨hr, _⟩ <;> omega

/-- Rounding does not cross an integer from below. -/
theorem roundHalfEven_le {x : ℚ} {z : ℤ} (h : x ≤ (z : ℚ)) : roundHalfEven x ≤ z := by
  rcases roundHalfEven_eq_or x with hr | ⟨hr, hfract⟩
  · rw [hr]
    exact_mod_cast (Int.floor_le x).trans h
  · have hlt : ((⌊x⌋ : ℤ) : ℚ) < x := by
      refine lt_of_le_of_ne (Int.floor_le x) fun heq => hfract ?_
      rw [Int.fract, heq, sub_self]
    have : ⌊x⌋ < z := by exact_mod_cast hlt.trans_le h
    omega

/-- The exponent of the unit in which a magnitude is represented. -/
def unitExp (fmt : Format) (x : ℚ) : ℤ := max (Int.log 2 x + 1 - fmt.precision) fmt.minExp

/-- The magnitude of the format nearest to `x`, the even one of two. -/
def nearest (fmt : Format) (x : ℚ) : ℚ :=
  roundHalfEven (x / 2 ^ unitExp fmt x) * 2 ^ unitExp fmt x

variable {fmt : Format}

/-- A magnitude that is a whole number of its units is left alone. -/
theorem nearest_eq_self {x : ℚ} {z : ℤ} (h : x = z * 2 ^ unitExp fmt x) : nearest fmt x = x := by
  have hdiv : x / 2 ^ unitExp fmt x = z := by
    rw [div_eq_iff (by positivity)]
    exact h
  rw [nearest, hdiv, roundHalfEven_intCast, ← h]

/-- Zero is in every format. -/
@[simp] theorem nearest_zero : nearest fmt 0 = 0 := by
  simp [nearest, roundHalfEven]

/-- A power of two is a whole number of any smaller power of two. -/
theorem exists_int_mul_zpow {a e : ℤ} (h : e ≤ a) : ∃ z : ℤ, (2 : ℚ) ^ a = z * 2 ^ e := by
  refine ⟨2 ^ (a - e).toNat, ?_⟩
  have hsplit : a = ((a - e).toNat : ℤ) + e := by omega
  conv_lhs => rw [hsplit, zpow_add₀ (by norm_num), zpow_natCast]
  push_cast
  rfl

/-- Rounding does not cross a power of two from below, unless that power is
finer than the unit. -/
theorem nearest_le_zpow {x : ℚ} {a : ℤ} (h : x ≤ 2 ^ a) (ha : unitExp fmt x ≤ a) :
    nearest fmt x ≤ 2 ^ a := by
  obtain ⟨z, hz⟩ := exists_int_mul_zpow ha
  have hpos : (0 : ℚ) < 2 ^ unitExp fmt x := by positivity
  have hle : x / 2 ^ unitExp fmt x ≤ (z : ℚ) := by
    rw [div_le_iff₀ hpos, ← hz]
    exact h
  rw [nearest, hz]
  have := roundHalfEven_le hle
  exact mul_le_mul_of_nonneg_right (by exact_mod_cast this) hpos.le

/-- A magnitude up to a power of two has no coarser unit than that power. -/
theorem unitExp_le {x : ℚ} {a : ℤ} (hpos : 0 < x) (h : x ≤ 2 ^ a) (ha : fmt.minExp ≤ a) :
    unitExp fmt x ≤ a := by
  have hlog : Int.log 2 x ≤ a := by
    rw [← Int.log_zpow (R := ℚ) (b := 2) (by norm_num) a]
    exact Int.log_mono_right hpos (by exact_mod_cast h)
  have := fmt.precision_pos
  rw [unitExp, max_le_iff]
  omega

/-- Rounding does not cross a power of two from above. -/
theorem zpow_le_nearest {x : ℚ} {a : ℤ} (h : 2 ^ a ≤ x) (ha : fmt.minExp ≤ a) :
    2 ^ a ≤ nearest fmt x := by
  have hx : 0 < x := lt_of_lt_of_le (by positivity) h
  have hlog : a ≤ Int.log 2 x := (Int.zpow_le_iff_le_log (by norm_num) hx).mp (by exact_mod_cast h)
  have hunit : unitExp fmt x ≤ Int.log 2 x := by
    have := fmt.precision_pos
    unfold unitExp
    omega
  obtain ⟨z, hz⟩ := exists_int_mul_zpow hunit
  have hpos : (0 : ℚ) < 2 ^ unitExp fmt x := by positivity
  have hself : (2 : ℚ) ^ Int.log 2 x ≤ x := by
    exact_mod_cast Int.zpow_log_le_self (b := 2) (by norm_num) hx
  have hle : (z : ℚ) ≤ x / 2 ^ unitExp fmt x := by
    rw [le_div_iff₀ hpos, ← hz]
    exact hself
  have hround := le_roundHalfEven hle
  calc (2 : ℚ) ^ a ≤ 2 ^ Int.log 2 x := zpow_le_zpow_right₀ (by norm_num) hlog
    _ = z * 2 ^ unitExp fmt x := hz
    _ ≤ nearest fmt x := mul_le_mul_of_nonneg_right (by exact_mod_cast hround) hpos.le

/-- Rounding does not make a number negative. -/
theorem nearest_nonneg {x : ℚ} (h : 0 ≤ x) : 0 ≤ nearest fmt x := by
  have hpos : (0 : ℚ) < 2 ^ unitExp fmt x := by positivity
  have hround : (0 : ℤ) ≤ roundHalfEven (x / 2 ^ unitExp fmt x) :=
    le_roundHalfEven (by rw [Int.cast_zero]; positivity)
  exact mul_nonneg (by exact_mod_cast hround) hpos.le

/-- Rounding a magnitude of the format changes nothing. -/
theorem nearest_nearest {x : ℚ} (hx : 0 ≤ x) : nearest fmt (nearest fmt x) = nearest fmt x := by
  rcases hx.eq_or_lt with rfl | hpos
  · simp
  have hnonneg : 0 ≤ nearest fmt x := nearest_nonneg hx
  rcases hnonneg.eq_or_lt with hzero | hnear
  · rw [← hzero]
    simp
  have hlogx : Int.log 2 x < unitExp fmt x + fmt.precision := by
    unfold unitExp
    omega
  -- the rounded magnitude lies in the binade of `x` or is the power of two above it
  by_cases htop : nearest fmt x < 2 ^ (unitExp fmt x + fmt.precision)
  · have hlog : Int.log 2 (nearest fmt x) < unitExp fmt x + fmt.precision :=
      (Int.lt_zpow_iff_log_lt (by norm_num) hnear).mp (by exact_mod_cast htop)
    have hunit : unitExp fmt (nearest fmt x) ≤ unitExp fmt x := by
      have : fmt.minExp ≤ unitExp fmt x := le_max_right _ _
      rw [unitExp, max_le_iff]
      omega
    obtain ⟨z, hz⟩ := exists_int_mul_zpow hunit
    refine nearest_eq_self (z := roundHalfEven (x / 2 ^ unitExp fmt x) * z) ?_
    push_cast
    rw [mul_assoc, ← hz]
    rfl
  · have hbelow : x ≤ 2 ^ (unitExp fmt x + fmt.precision) := by
      have h := (Int.lt_zpow_iff_log_lt (b := 2) (by norm_num) hpos).mpr hlogx
      exact_mod_cast h.le
    have heq : nearest fmt x = 2 ^ (unitExp fmt x + fmt.precision) :=
      le_antisymm (nearest_le_zpow hbelow (by omega)) (not_lt.mp htop)
    have hlog : Int.log 2 (nearest fmt x) = unitExp fmt x + fmt.precision := by
      rw [heq]
      exact_mod_cast Int.log_zpow (R := ℚ) (b := 2) (by norm_num) _
    have hunit : unitExp fmt (nearest fmt x) ≤ unitExp fmt x + fmt.precision := by
      have hp := fmt.precision_pos
      have : fmt.minExp ≤ unitExp fmt x := le_max_right _ _
      rw [unitExp, hlog, max_le_iff]
      omega
    obtain ⟨z, hz⟩ := exists_int_mul_zpow hunit
    exact nearest_eq_self (z := z) (by rw [← hz]; exact heq)

/-- A natural number below `2 ^ precision` belongs to the format. -/
theorem nearest_natCast {n : ℕ} (hmin : fmt.minExp ≤ 0) (hn : n < 2 ^ fmt.precision) :
    nearest fmt n = n := by
  rcases Nat.eq_zero_or_pos n with rfl | hpos
  · simp
  have hlog : Int.log 2 (n : ℚ) < fmt.precision := by
    rw [← Int.lt_zpow_iff_log_lt (by norm_num) (by exact_mod_cast hpos)]
    exact_mod_cast hn
  have hunit : unitExp fmt n ≤ 0 := by
    rw [unitExp, max_le_iff]
    omega
  obtain ⟨z, hz⟩ := exists_int_mul_zpow hunit
  refine nearest_eq_self (z := n * z) ?_
  push_cast
  rw [mul_assoc, ← hz]
  simp

/-- Rounding a natural number gives a whole number. -/
theorem nearest_natCast_isInt (n : ℕ) : ∃ z : ℤ, nearest fmt n = z := by
  by_cases h : 0 ≤ unitExp fmt n
  · obtain ⟨z, hz⟩ := exists_int_mul_zpow h
    refine ⟨roundHalfEven ((n : ℚ) / 2 ^ unitExp fmt n) * z, ?_⟩
    have hz' : (2 : ℚ) ^ unitExp fmt n = z := by simpa using hz
    rw [nearest]
    push_cast
    rw [← hz']
  · obtain ⟨z, hz⟩ := exists_int_mul_zpow (show unitExp fmt n ≤ 0 by omega)
    refine ⟨n, ?_⟩
    have hself : nearest fmt (n : ℚ) = n := by
      refine nearest_eq_self (z := n * z) ?_
      push_cast
      rw [mul_assoc, ← hz]
      simp
    simpa using hself

/-- The multiple of `u` closest to `v` among the two next to it that round back
to `v`, the even one of two at the same distance. -/
def decimalAt (fmt : Format) (v u : ℚ) : Option ℚ :=
  let lo := ⌊v / u⌋ * u
  let hi := ⌈v / u⌉ * u
  if nearest fmt lo = v then
    if nearest fmt hi = v ∧ (hi - v < v - lo ∨ hi - v = v - lo ∧ ¬Even ⌊v / u⌋) then some hi
    else some lo
  else if nearest fmt hi = v then some hi
  else none

/-- The shortest decimal that rounds back to `v`. It is sought among the
decimals of at most `digits` significant digits; `digits` is taken large enough
for every magnitude of the format to have one. -/
def shortestDecimal (fmt : Format) (digits : ℕ) (v : ℚ) : ℚ :=
  ((List.range digits).findSome? fun j : ℕ => decimalAt fmt v (10 ^ (Int.log 10 v - j))).getD v

/-- What `decimalAt` finds is a multiple of the unit and rounds back. -/
theorem decimalAt_spec {v u c : ℚ} (h : decimalAt fmt v u = some c) :
    nearest fmt c = v ∧ ∃ z : ℤ, c = z * u := by
  unfold decimalAt at h
  dsimp only at h
  split_ifs at h with hlo hhi hhi <;> cases h
  · exact ⟨hhi.1, _, rfl⟩
  · exact ⟨hlo, _, rfl⟩
  · exact ⟨hhi, _, rfl⟩

/-- An exact multiple of the unit is found. -/
theorem decimalAt_isSome {v u : ℚ} (hv : nearest fmt v = v) {z : ℤ} (hz : v / u = z) (hu : u ≠ 0) :
    (decimalAt fmt v u).isSome := by
  have hlo : nearest fmt (⌊v / u⌋ * u) = v := by
    rw [hz, Int.floor_intCast, ← hz, div_mul_cancel₀ v hu, hv]
  unfold decimalAt
  dsimp only
  rw [if_pos hlo]
  split_ifs <;> rfl

/-- The shortest decimal rounds back. -/
theorem nearest_shortestDecimal {digits : ℕ} {v : ℚ} (hv : nearest fmt v = v) :
    nearest fmt (shortestDecimal fmt digits v) = v := by
  unfold shortestDecimal
  cases hfind : (List.range digits).findSome?
      fun j : ℕ => decimalAt fmt v (10 ^ (Int.log 10 v - (j : ℤ))) with
  | none => exact hv
  | some c =>
    obtain ⟨j, _, hj⟩ := List.exists_of_findSome?_eq_some hfind
    exact (decimalAt_spec hj).1

/-- The shortest decimal of a whole magnitude is whole. -/
theorem shortestDecimal_isInt {digits n : ℕ} (hn : nearest fmt n = n) :
    ∃ z : ℤ, shortestDecimal fmt digits n = z := by
  unfold shortestDecimal
  cases hfind : (List.range digits).findSome?
      fun j : ℕ => decimalAt fmt n (10 ^ (Int.log 10 (n : ℚ) - (j : ℤ))) with
  | none => exact ⟨n, by simp⟩
  | some c =>
    obtain ⟨before, j, after, hrange, hj, hbefore⟩ := List.findSome?_eq_some_iff.mp hfind
    have hlog : Int.log 10 (n : ℚ) = Nat.log 10 n := by exact_mod_cast Int.log_natCast (R := ℚ) 10 n
    obtain ⟨z, hz⟩ := (decimalAt_spec hj).2
    by_cases hle : j ≤ Nat.log 10 n
    · -- the unit is a power of ten with a natural exponent
      refine ⟨z * 10 ^ (Nat.log 10 n - j), ?_⟩
      have hexp : (Nat.log 10 n : ℤ) - j = ((Nat.log 10 n - j : ℕ) : ℤ) := by omega
      simp only [Option.getD_some]
      rw [hz, hlog, hexp, zpow_natCast]
      push_cast
      rfl
    · -- the unit one comes earlier and already finds the magnitude itself
      exfalso
      have hlt : before.length < digits := by
        have hlen := congrArg List.length hrange
        simp only [List.length_range, List.length_append, List.length_cons] at hlen
        omega
      have hlen : before.length = j := by
        have hget := congrArg (fun l : List ℕ => l[before.length]?) hrange
        simpa [List.getElem?_range, hlt] using hget
      have hmem : Nat.log 10 n ∈ before := by
        have htake : before = (List.range digits).take before.length := by
          rw [hrange, List.take_left]
        rw [htake, hlen, List.take_range, List.mem_range]
        omega
      have hnone := hbefore _ hmem
      rw [hlog, sub_self, zpow_zero] at hnone
      have hsome := decimalAt_isSome (u := 1) hn (z := n) (by simp) one_ne_zero
      rw [hnone] at hsome
      exact absurd hsome (by simp)

/-- Only a whole magnitude has a whole shortest decimal. -/
theorem isInt_of_shortestDecimal {digits n : ℕ} {v : ℚ} (hv : nearest fmt v = v)
    (h : shortestDecimal fmt digits v = n) : ∃ z : ℤ, v = z := by
  have hback : nearest fmt (shortestDecimal fmt digits v) = v := nearest_shortestDecimal hv
  rw [h] at hback
  have hwhole : ∃ z : ℤ, nearest fmt n = z := nearest_natCast_isInt n
  obtain ⟨z, hz⟩ := hwhole
  exact ⟨z, hback ▸ hz⟩

/-- The shortest decimal of a nonnegative number is nonnegative. -/
theorem shortestDecimal_nonneg {digits : ℕ} {v : ℚ} (hv : 0 ≤ v) :
    0 ≤ shortestDecimal fmt digits v := by
  unfold shortestDecimal
  cases hfind : (List.range digits).findSome?
      fun j : ℕ => decimalAt fmt v (10 ^ (Int.log 10 v - (j : ℤ))) with
  | none => exact hv
  | some c =>
    obtain ⟨j, _, hj⟩ := List.exists_of_findSome?_eq_some hfind
    have hu : (0 : ℚ) < 10 ^ (Int.log 10 v - (j : ℤ)) := by positivity
    have hdiv : 0 ≤ v / 10 ^ (Int.log 10 v - (j : ℤ)) := by positivity
    have hlo : (0 : ℚ) ≤ ⌊v / 10 ^ (Int.log 10 v - (j : ℤ))⌋ := by
      exact_mod_cast Int.floor_nonneg.mpr hdiv
    have hhi : (0 : ℚ) ≤ ⌈v / 10 ^ (Int.log 10 v - (j : ℤ))⌉ := by
      exact_mod_cast Int.ceil_nonneg hdiv
    unfold decimalAt at hj
    dsimp only at hj
    split_ifs at hj <;> cases hj <;> simp only [Option.getD_some] <;> positivity

/-- A natural number below `2 ^ precision` is its own shortest decimal. -/
theorem shortestDecimal_natCast {digits n : ℕ} (hmin : fmt.minExp ≤ 0)
    (hn : n < 2 ^ fmt.precision) : shortestDecimal fmt digits n = n := by
  have hself := nearest_natCast hmin hn
  have hwhole : ∃ z : ℤ, shortestDecimal fmt digits (n : ℚ) = z := shortestDecimal_isInt hself
  obtain ⟨z, hz⟩ := hwhole
  have hback : nearest fmt (shortestDecimal fmt digits (n : ℚ)) = n :=
    nearest_shortestDecimal hself
  have hnonneg : 0 ≤ z := by
    have hdecimal : 0 ≤ shortestDecimal fmt digits (n : ℚ) := shortestDecimal_nonneg (by positivity)
    rw [hz] at hdecimal
    exact_mod_cast hdecimal
  obtain ⟨m, rfl⟩ := Int.eq_ofNat_of_zero_le hnonneg
  rw [hz] at hback ⊢
  push_cast at hback ⊢
  by_cases hm : m < 2 ^ fmt.precision
  · rw [nearest_natCast hmin hm] at hback
    exact hback
  · have hge : (2 : ℚ) ^ (fmt.precision : ℤ) ≤ m := by exact_mod_cast not_lt.mp hm
    have hround : (2 : ℚ) ^ (fmt.precision : ℤ) ≤ nearest fmt (m : ℚ) :=
      zpow_le_nearest hge (by omega)
    rw [hback] at hround
    have hlt : (n : ℚ) < 2 ^ (fmt.precision : ℤ) := by exact_mod_cast hn
    exact absurd hround (not_le.mpr hlt)

/-- A shortest decimal stays below the powers of two its magnitude is below. -/
theorem shortestDecimal_lt_zpow {digits : ℕ} {v : ℚ} {a : ℤ} (hv : nearest fmt v = v)
    (ha : fmt.minExp ≤ a) (h : v < 2 ^ a) : shortestDecimal fmt digits v < 2 ^ a := by
  by_contra hge
  have hround : 2 ^ a ≤ nearest fmt (shortestDecimal fmt digits v) :=
    zpow_le_nearest (not_lt.mp hge) ha
  rw [nearest_shortestDecimal hv] at hround
  exact absurd h (not_lt.mpr hround)

/-- A magnitude is below a power of two when its shortest decimal is, unless the
shortest decimal of that power itself does not exceed it. -/
theorem lt_zpow_of_shortestDecimal_le {digits : ℕ} {v : ℚ} {a : ℤ} (hv : nearest fmt v = v)
    (hnonneg : 0 ≤ v) (ha : fmt.minExp ≤ a)
    (htop : (2 : ℚ) ^ a < shortestDecimal fmt digits (2 ^ a))
    (h : shortestDecimal fmt digits v ≤ 2 ^ a) : v < 2 ^ a := by
  have hdecimal : 0 ≤ shortestDecimal fmt digits v := shortestDecimal_nonneg hnonneg
  have hback : nearest fmt (shortestDecimal fmt digits v) = v := nearest_shortestDecimal hv
  have hle : v ≤ 2 ^ a := by
    rcases hdecimal.eq_or_lt with hzero | hpos
    · rw [← hzero, nearest_zero] at hback
      rw [← hback]
      positivity
    · rw [← hback]
      exact nearest_le_zpow h (unitExp_le hpos h ha)
  refine lt_of_le_of_ne hle fun heq => ?_
  rw [heq] at h
  exact absurd htop (not_lt.mpr h)

end Rounding
