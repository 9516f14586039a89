import Mathlib.Data.Nat.Cast.Order.Field
import Mathlib.Tactic.FieldSimp
import Mathlib.Tactic.NormNum
import Playable.Number.Shortest
import Playable.Proofs.Number.Rounding

/-!
# Shortest digits read back

The digits of a number in shortest notation were tested to read back, unless no candidate
passed the test. One does: of the points of the decimal grid with seventeen digits, the nearer
one differs from the number by less than the 2⁻⁵⁴th part of it.
-/

namespace Playable

namespace Binary64

variable {x : Binary64} {m : Nat} {k : Int}

/-! ## The parts of a number -/

/-- A number has an exponent of its own, or it has the smallest one and few bits. -/
theorem parts (x : Binary64) :
    (fractions ≤ x.magnitudeBits ∧ x.mantissa = fractions + x.magnitudeBits % fractions ∧
      x.exponent = (x.magnitudeBits / fractions : Nat) - 1075) ∨
    (x.magnitudeBits < fractions ∧ x.mantissa = x.magnitudeBits ∧ x.exponent = -1074) := by
  by_cases h : x.magnitudeBits < fractions
  · have hdiv : x.magnitudeBits / fractions = 0 := Nat.div_eq_of_lt h
    exact .inr ⟨h, by rw [mantissa, if_pos h, Nat.mod_eq_of_lt h], by rw [exponent, hdiv]; rfl⟩
  · have hle : fractions ≤ x.magnitudeBits := Nat.le_of_not_lt h
    have hdiv : 1 ≤ x.magnitudeBits / fractions := Nat.div_pos hle (by decide)
    exact .inl ⟨hle, by rw [mantissa, if_neg h], by rw [exponent, max_eq_left hdiv]⟩

/-- A finite number is a number of units that the format can hold. -/
theorem isCanonical_of_isFinite (hx : x.isFinite = true) : IsCanonical x.mantissa x.exponent := by
  have hfinite : x.magnitudeBits < infinityBits := by simpa [isFinite] using hx
  have hparts := x.parts
  simp only [infinityBits, fractions] at hfinite hparts
  constructor <;> omega

/-- The bits of a number are those of its units. -/
theorem canonicalBits_eq (x : Binary64) :
    canonicalBits x.mantissa x.exponent = x.magnitudeBits := by
  have hparts := x.parts
  simp only [canonicalBits, fractions] at hparts ⊢
  omega

/-- A number is made of its sign and the bits below it. -/
theorem ofMagnitude_magnitudeBits (x : Binary64) :
    ofMagnitude x.isNegative x.magnitudeBits = x := by
  have hbits : x.bits.toNat < 2 * signBit := x.bits.toNat_lt
  have hsum : x.magnitudeBits + (if x.isNegative then signBit else 0) = x.bits.toNat := by
    by_cases h : signBit ≤ x.bits.toNat
    · rw [isNegative, decide_eq_true h, if_pos rfl, magnitudeBits, Nat.mod_eq_sub_mod h,
        Nat.mod_eq_of_lt (by omega), Nat.sub_add_cancel h]
    · rw [isNegative, decide_eq_false h, if_neg Bool.false_ne_true, magnitudeBits,
        Nat.mod_eq_of_lt (by omega), Nat.add_zero]
  rw [ofMagnitude, hsum, UInt64.ofNat_toNat]

/-- The bits below the sign are kept. -/
theorem toNat_ofMagnitude (h : m < signBit) : (ofMagnitude false m).bits.toNat = m := by
  rw [signBit] at h
  simp only [ofMagnitude, Bool.false_eq_true, if_false, Nat.add_zero, UInt64.toNat_ofNat']
  omega

/-! ## Decimal numbers -/

/-- The bits of a quotient do not exceed those of infinity. -/
theorem quotientBits_le (num den : Nat) : quotientBits num den ≤ infinityBits := by
  rw [quotientBits]
  split
  · exact Nat.zero_le _
  · exact Nat.min_le_right ..

/-- The bits of decimal digits, of which there are `count`, times a power of ten. -/
def decimalBits (digits count : Nat) (exponent : Int) : Nat :=
  if digits = 0 then 0
  else if 400 < exponent + count then infinityBits
  else if exponent + count < -400 then 0
  else quotientBits (digits * Nat.pow 10 exponent.toNat) (Nat.pow 10 (-exponent).toNat)

/-- The sign of a decimal number stands beside its bits. -/
theorem ofDecimal_eq (negative : Bool) (digits count : Nat) (exponent : Int) :
    ofDecimal negative digits count exponent =
      ofMagnitude negative (decimalBits digits count exponent) := by
  rw [ofDecimal, decimalBits]
  split_ifs <;> rfl

/-- The bits of a decimal number are less than the sign bit. -/
theorem decimalBits_lt (digits count : Nat) (exponent : Int) :
    decimalBits digits count exponent < signBit := by
  have hle : decimalBits digits count exponent ≤ infinityBits := by
    rw [decimalBits]
    split_ifs
    · exact Nat.zero_le _
    · exact Nat.le_refl _
    · exact Nat.zero_le _
    · exact quotientBits_le ..
  exact Nat.lt_of_le_of_lt hle (by decide)

variable {digits digits' count count' : Nat} {e e' : Int}

/-- Within the range of the format the power of ten is computed. -/
theorem decimalBits_of_range (hlow : -400 ≤ e + count) (hhigh : e + count ≤ 400) :
    decimalBits digits count e =
      quotientBits (digits * Nat.pow 10 e.toNat) (Nat.pow 10 (-e).toNat) := by
  rw [decimalBits, if_neg (Int.not_lt.mpr hhigh), if_neg (Int.not_lt.mpr hlow)]
  split
  · subst digits
    rw [Nat.zero_mul, quotientBits, if_pos (.inl rfl)]
  · rfl

/-- A number of powers of a base, as a quotient. -/
theorem units_div (base n : Nat) (e : Int) :
    ((n * Nat.pow base e.toNat : Nat) : ℚ) / (Nat.pow base (-e).toNat : Nat) = n * base ^ e := by
  simpa using scaled_div base n 1 (-e)

/-- Decimal digits with one value and one place of their first digit have the same bits. -/
theorem decimalBits_congr (hvalue : (digits * 10 ^ e : ℚ) = digits' * 10 ^ e')
    (hplace : e + count = e' + count') :
    decimalBits digits count e = decimalBits digits' count' e' := by
  have hbits : quotientBits (digits * Nat.pow 10 e.toNat) (Nat.pow 10 (-e).toNat) =
      quotientBits (digits' * Nat.pow 10 e'.toNat) (Nat.pow 10 (-e').toNat) := by
    refine quotientBits_congr (Nat.pow_pos (by decide)) (Nat.pow_pos (by decide)) ?_
    rw [units_div, units_div]
    exact_mod_cast hvalue
  have hzero : digits = 0 ↔ digits' = 0 := by
    have hpow : (10 : ℚ) ^ e ≠ 0 := by positivity
    have hpow' : (10 : ℚ) ^ e' ≠ 0 := by positivity
    rw [← Nat.cast_eq_zero (R := ℚ), ← mul_eq_zero_iff_right hpow, hvalue,
      mul_eq_zero_iff_right hpow', Nat.cast_eq_zero]
  simp only [decimalBits, hplace, hbits, hzero]

end Binary64

namespace Number

open Binary64

variable {x : Binary64} {m n n' num den : Nat} {k e e' : Int}

/-! ## Counting digits -/

/-- A positive number has the size of a power of ten that its digits tell. -/
theorem digitCount_bounds (h : 0 < n) :
    (10 : ℚ) ^ ((digitCount n : Int) - 1) ≤ n ∧ (n : ℚ) < 10 ^ (digitCount n : Int) := by
  have hpos : 0 < digitCount n := List.length_pos_of_ne_nil Nat.toDigits_ne_nil
  have hhigh : n < 10 ^ digitCount n :=
    (Nat.length_toDigits_le_iff (by decide) hpos).mp (Nat.le_refl _)
  have hlow : 10 ^ (digitCount n - 1) ≤ n := by
    rcases Nat.eq_or_lt_of_le hpos with hone | hmore
    · rw [← hone]
      exact h
    · refine Nat.le_of_not_lt fun hlt => ?_
      have hle := (Nat.length_toDigits_le_iff (b := 10) (by decide) (by omega)).mpr hlt
      rw [digitCount] at hle hpos
      omega
  constructor
  · rw [show (digitCount n : Int) - 1 = (digitCount n - 1 : Nat) by omega]
    exact_mod_cast hlow
  · exact_mod_cast hhigh

/-- Decimal digits have the size of a power of ten that the place of the first one tells. -/
theorem place_bounds (h : 0 < n) (e : Int) :
    (10 : ℚ) ^ (e + digitCount n - 1) ≤ n * 10 ^ e ∧
      (n * 10 ^ e : ℚ) < 10 ^ (e + digitCount n) := by
  obtain ⟨hlow, hhigh⟩ := digitCount_bounds h
  have hpow : (0 : ℚ) < 10 ^ e := by positivity
  constructor
  · rw [show e + digitCount n - 1 = (digitCount n : Int) - 1 + e by omega,
      zpow_add₀ (by norm_num)]
    gcongr
  · rw [add_comm, zpow_add₀ (by norm_num)]
    gcongr

/-- The value of decimal digits tells the place of the first one. -/
theorem place_eq (h : 0 < n) (h' : 0 < n') (hvalue : (n * 10 ^ e : ℚ) = n' * 10 ^ e') :
    e + digitCount n = e' + digitCount n' := by
  have hten : (1 : ℚ) < 10 := by norm_num
  obtain ⟨hlow, hhigh⟩ := place_bounds h e
  obtain ⟨hlow', hhigh'⟩ := place_bounds h' e'
  rw [hvalue] at hlow hhigh
  have hle := (zpow_lt_zpow_iff_right₀ hten).mp (hlow.trans_lt hhigh')
  have hge := (zpow_lt_zpow_iff_right₀ hten).mp (hlow'.trans_lt hhigh)
  omega

/-- A power of two is not greater than a power of ten with a third of the exponent. -/
theorem two_pow_le {i j : Nat} (h : i ≤ 3 * j) : Nat.pow 2 i ≤ Nat.pow 10 j :=
  calc 2 ^ i
    _ ≤ 2 ^ (3 * j) := Nat.pow_le_pow_right Nat.two_pos h
    _ = 8 ^ j := Nat.pow_mul 2 3 j
    _ ≤ 10 ^ j := Nat.pow_le_pow_left (by decide) j

/-- A quotient is not less than the power of ten below it. -/
theorem powerAbove_le {j : Nat} (hnum : 0 < num) (hden : 0 < den) (hj : j < 400)
    (hsmall : den ≤ Nat.pow 10 (j + 1)) : (10 : ℚ) ^ (powerAbove num den - 1) ≤ num / den := by
  have hden' : (0 : ℚ) < den := by exact_mod_cast hden
  rw [powerAbove]
  split
  · rename_i hle
    calc (10 : ℚ) ^ ((digitCount (num / den) : Int) - 1)
      _ ≤ (num / den : Nat) := (digitCount_bounds (Nat.div_pos hle hden)).1
      _ ≤ num / den := Nat.cast_div_le
  · split
    · rename_i i hi
      have hgrid : den ≤ num * Nat.pow 10 (i + 1) := by simpa using List.find?_some hi
      rw [show -(i : Int) - 1 = -((i + 1 : Nat) : Int) by omega, zpow_neg, zpow_natCast,
        le_div_iff₀ hden', inv_mul_le_iff₀ (by positivity), mul_comm]
      exact_mod_cast hgrid
    · rename_i hnone
      have hlast := List.find?_eq_none.mp hnone j (List.mem_range.mpr hj)
      rw [decide_eq_true_eq] at hlast
      exact absurd (hsmall.trans (Nat.le_mul_of_pos_left _ hnum)) hlast

/-! ## The nearest point of a grid -/

/-- The first point of a decimal grid that is tried is at most half a unit away. -/
theorem exists_gridPoints (num : Nat) (hden : 0 < den) (e : Int) :
    ∃ digits more, gridPoints num den e = ⟨digits, e⟩ :: more ∧
      |(digits : ℚ) - num / den / 10 ^ e| ≤ 1 / 2 := by
  have hscaled := scaled_div 10 num den e
  rw [Nat.cast_ofNat] at hscaled
  rw [gridPoints, ← hscaled]
  set n := num * Nat.pow 10 (-e).toNat
  set d := den * Nat.pow 10 e.toNat
  have hd : 0 < d := Nat.mul_pos hden (Nat.pow_pos (by decide))
  have hd' : (0 : ℚ) < d := by exact_mod_cast hd
  have hdiv : (d : ℚ) * (n / d : Nat) + (n % d : Nat) = n := by
    exact_mod_cast Nat.div_add_mod n d
  have hlow : (0 : ℚ) ≤ (n % d : Nat) := Nat.cast_nonneg _
  have hhigh : ((n % d : Nat) : ℚ) < d := by exact_mod_cast Nat.mod_lt n hd
  split
  · rename_i hnear
    have hhalf : (2 : ℚ) * (n % d : Nat) ≤ d := by
      have hle : 2 * (n % d) ≤ d := by omega
      exact_mod_cast hle
    refine ⟨n / d, _, rfl, ?_⟩
    rw [sub_div' hd'.ne', abs_div, abs_of_pos hd', div_le_iff₀ hd', abs_le]
    constructor <;> linarith
  · rename_i hfar
    have hhalf : (d : ℚ) ≤ 2 * (n % d : Nat) := by
      have hle : d ≤ 2 * (n % d) := by omega
      exact_mod_cast hle
    refine ⟨n / d + 1, _, rfl, ?_⟩
    rw [sub_div' hd'.ne', abs_div, abs_of_pos hd', div_le_iff₀ hd', abs_le]
    push_cast
    constructor <;> linarith

/-- What the format can hold is far from the powers of ten that are not computed. -/
theorem size_bounds (h : IsCanonical m k) (hm : 0 < m) :
    (10 : ℚ) ^ (-400 : Int) * 2 ≤ m * 2 ^ k ∧ (m * 2 ^ k * 2 : ℚ) ≤ 10 ^ (400 : Int) := by
  obtain ⟨hmlt, hlow, hhigh, -⟩ := h
  have hpow : ∀ i j : Nat, i ≤ 3 * j → (2 : ℚ) ^ (i : Int) ≤ 10 ^ (j : Int) := fun i j h => by
    exact_mod_cast two_pow_le h
  have hrange : (2 : ℚ) ^ (1075 : Int) ≤ 10 ^ (400 : Int) := by
    simpa only [Nat.cast_ofNat] using hpow 1075 400 (by decide)
  have hone : (1 : ℚ) ≤ m := by exact_mod_cast hm
  have hmle : (m : ℚ) ≤ 2 ^ (53 : Int) := by exact_mod_cast hmlt.le
  constructor
  · have hinv : (10 : ℚ) ^ (-400 : Int) ≤ 2 ^ (-1075 : Int) := by
      rw [zpow_neg, zpow_neg]
      exact inv_anti₀ (by positivity) hrange
    calc (10 : ℚ) ^ (-400 : Int) * 2
      _ ≤ 2 ^ (-1075 : Int) * 2 := by gcongr
      _ = 2 ^ (-1074 : Int) := by rw [← zpow_add_one₀ two_ne_zero]; rfl
      _ ≤ 2 ^ k := zpow_le_zpow_right₀ one_le_two hlow
      _ ≤ m * 2 ^ k := le_mul_of_one_le_left (by positivity) hone
  · calc (m * 2 ^ k * 2 : ℚ)
      _ ≤ 2 ^ (53 : Int) * 2 ^ (971 : Int) * 2 := by
        have hk : (2 : ℚ) ^ k ≤ 2 ^ (971 : Int) := zpow_le_zpow_right₀ one_le_two hhigh
        gcongr
      _ = 2 ^ (1025 : Int) := by rw [two_zpow_mul, ← zpow_add_one₀ two_ne_zero]; rfl
      _ ≤ 2 ^ (1075 : Int) := zpow_le_zpow_right₀ one_le_two (by decide)
      _ ≤ 10 ^ (400 : Int) := hrange

/-- Decimal digits near a finite number of the format are rounded to it. -/
theorem decimalBits_of_near (h : IsCanonical m k)
    (hnear : |(n * 10 ^ e : ℚ) - m * 2 ^ k| * 2 ^ 54 < m * 2 ^ k) :
    decimalBits n (digitCount n) e = canonicalBits m k := by
  set size : ℚ := m * 2 ^ k with hsize
  have hpos : 0 < size := lt_of_le_of_lt (by positivity) hnear
  have hm : 0 < m := by
    refine Nat.pos_of_ne_zero fun hzero => ?_
    simp [hsize, hzero] at hpos
  obtain ⟨hlow, hhigh⟩ := size_bounds h hm
  rw [← hsize] at hlow hhigh
  obtain ⟨hbelow, habove⟩ := abs_lt.mp (show |(n * 10 ^ e : ℚ) - size| < size / 2 by
    have hle := le_mul_of_one_le_right (abs_nonneg ((n * 10 ^ e : ℚ) - size))
      (show (1 : ℚ) ≤ 2 ^ 53 by norm_num)
    linarith)
  have hn : 0 < n := by
    refine Nat.pos_of_ne_zero fun hzero => ?_
    rw [hzero, Nat.cast_zero, zero_mul] at hbelow
    linarith
  obtain ⟨hplace, hplace'⟩ := place_bounds hn e
  have hrangeLow : -400 ≤ e + digitCount n := by
    by_contra hout
    have hle : (10 : ℚ) ^ (e + digitCount n) ≤ 10 ^ (-400 : Int) :=
      zpow_le_zpow_right₀ (by norm_num) (by omega)
    have hlt : (10 : ℚ) ^ (-400 : Int) * 2 < 10 ^ (e + digitCount n) * 2 := by linarith
    linarith
  have hrangeHigh : e + digitCount n ≤ 400 := by
    by_contra hout
    have hle : (10 : ℚ) ^ (400 : Int) ≤ 10 ^ (e + digitCount n - 1) :=
      zpow_le_zpow_right₀ (by norm_num) (by omega)
    have hlt : (n * 10 ^ e : ℚ) < size * 2 := by linarith only [habove, hpos]
    exact absurd ((hle.trans hplace).trans_lt hlt) (not_lt.mpr hhigh)
  rw [decimalBits_of_range hrangeLow hrangeHigh]
  refine quotientBits_of_near h (Nat.pow_pos (by decide)) ?_
  rw [units_div]
  exact_mod_cast hnear

/-! ## Reading back -/

/-- Digits read back exactly if they have the bits of the number. -/
theorem readsBack_iff {s : Scientific} :
    readsBack x s = true ↔
      decimalBits s.digits (digitCount s.digits) s.exponent = x.magnitudeBits := by
  rw [readsBack, decide_eq_true_eq, ofDecimal_eq, toNat_ofMagnitude (decimalBits_lt ..)]

/-- The size of a finite number is a quotient of positive numbers, unless it is zero. -/
theorem sizeQuotient_eq (x : Binary64) :
    ((sizeQuotient x).1 / (sizeQuotient x).2 : ℚ) = x.mantissa * 2 ^ x.exponent := by
  have h := units_div 2 x.mantissa x.exponent
  rw [Nat.cast_ofNat] at h
  exact h

/-- One of the candidates for the shortest digits reads back. -/
theorem exists_readsBack (hx : x.isFinite = true) :
    ∃ n : Nat, n < 17 ∧ ∃ s ∈ gridPoints (sizeQuotient x).1 (sizeQuotient x).2
      (powerAbove (sizeQuotient x).1 (sizeQuotient x).2 - (n + 1)), readsBack x s = true := by
  have hcanonical := isCanonical_of_isFinite hx
  obtain ⟨j, hj, hlimit⟩ : ∃ j, j < 400 ∧ 1074 ≤ 3 * (j + 1) := ⟨399, by decide, by decide⟩
  have hden : 0 < (sizeQuotient x).2 := Nat.pow_pos Nat.two_pos
  have hsmall : (sizeQuotient x).2 ≤ Nat.pow 10 (j + 1) :=
    two_pow_le (by have := hcanonical.le_exponent; omega)
  have hsize := sizeQuotient_eq x
  generalize (sizeQuotient x).1 = num at *
  generalize (sizeQuotient x).2 = den at *
  have hden' : (0 : ℚ) < den := by exact_mod_cast hden
  obtain ⟨digits, more, hgrid, hhalf⟩ := exists_gridPoints num hden (powerAbove num den - (16 + 1))
  refine ⟨16, by decide, ⟨digits, _⟩, hgrid ▸ List.mem_cons_self, readsBack_iff.mpr ?_⟩
  rw [← canonicalBits_eq]
  rcases Nat.eq_zero_or_pos num with rfl | hnum
  · -- Zero is the first point of every grid.
    have hdigits : digits = 0 := by
      rw [Nat.cast_zero, zero_div, zero_div, sub_zero, Nat.abs_cast] at hhalf
      have hlt : (digits : ℚ) < 1 := by linarith
      exact Nat.lt_one_iff.mp (by exact_mod_cast hlt)
    have hmantissa : x.mantissa = 0 := by
      rw [Nat.cast_zero, zero_div, eq_comm, mul_eq_zero] at hsize
      exact Nat.cast_eq_zero.mp (hsize.resolve_right (by positivity))
    have hfull := hcanonical.full
    rw [hmantissa] at hfull ⊢
    obtain hexponent : x.exponent = -1074 := by omega
    rw [hexponent, hdigits]
    rfl
  · -- The unit of the grid is less than the 2⁻⁵³th part of the number.
    have hpower := powerAbove_le hnum hden hj hsmall
    set grid : ℚ := 10 ^ (powerAbove num den - (16 + 1)) with hgridUnit
    have hunit : 0 < grid := by positivity
    have hfine : grid * 10 ^ 16 ≤ num / den := by
      refine le_of_eq_of_le ?_ hpower
      rw [hgridUnit, ← zpow_natCast, ← zpow_add₀ (by norm_num)]
      congr 1
      push_cast
      ring
    have hnear : |digits * grid - num / den| ≤ grid / 2 := by
      have hsplit : digits * grid - num / den = (digits - num / den / grid) * grid := by
        field_simp
      rw [hsplit, abs_mul, abs_of_pos hunit]
      linarith [mul_le_mul_of_nonneg_right hhalf hunit.le]
    refine decimalBits_of_near hcanonical ?_
    rw [← hsize]
    calc |digits * grid - num / den| * 2 ^ 54
      _ ≤ grid / 2 * 2 ^ 54 := by gcongr
      _ < grid * 10 ^ 16 := by linarith
      _ ≤ num / den := hfine

/-- The digits of a finite number in shortest notation read back. -/
theorem readsBack_shortest (hx : x.isFinite = true) : readsBack x (shortest x) = true := by
  obtain ⟨n, hn, s, hs, hread⟩ := exists_readsBack hx
  rw [shortest]
  dsimp only
  cases hfound : List.find? (readsBack x) _ with
  | some found => exact List.find?_some hfound
  | none =>
    exact absurd hread
      (List.find?_eq_none.mp hfound s (List.mem_flatMap.mpr ⟨n, List.mem_range.mpr hn, hs⟩))

/-- A finite number is the decimal number that its shortest digits are, with its sign. -/
theorem ofDecimal_shortest (hx : x.isFinite = true) :
    ofDecimal x.isNegative (shortest x).digits (digitCount (shortest x).digits)
      (shortest x).exponent = x := by
  rw [ofDecimal_eq, readsBack_iff.mp (readsBack_shortest hx), ofMagnitude_magnitudeBits]

end Number

end Playable
