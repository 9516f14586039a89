import Mathlib.Algebra.Order.Field.Power
import Mathlib.Data.Nat.Log
import Mathlib.Data.Rat.Cast.Order
import Mathlib.Tactic.Linarith
import Mathlib.Tactic.Positivity
import Mathlib.Tactic.Ring
import Playable.Number.Binary64

/-!
# Rounding near a number of the binary format

A quotient is rounded in units of a power of two: the unit is such that the quotient has
fifty-three bits, but never below the smallest one. So a quotient is rounded to a finite number
of the format if it differs from it by less than the 2⁻⁵⁴th part of it, which is less than half
a unit, and just below a power of two less than half of the smaller unit there.
-/

namespace Playable.Binary64

variable {num den n d m : Nat} {e k : Int} {q : ℚ}

/-- A quotient in units of a power of a base. -/
theorem scaled_div (base num den : Nat) (e : Int) :
    ((num * Nat.pow base (-e).toNat : Nat) : ℚ) / (den * Nat.pow base e.toNat : Nat) =
      num / den / base ^ e := by
  rcases Int.eq_nat_or_neg e with ⟨k, rfl | rfl⟩
  · simp [div_div]
  · simp [mul_div_right_comm]

/-- Rounding finds the whole number that is less than half a unit away. -/
theorem roundEven_eq (hd : 0 < d) (hlow : 2 * m * d < 2 * n + d) (hhigh : 2 * n < 2 * m * d + d) :
    roundEven (n / d) (n % d) d = m := by
  have hdiv : d * (n / d) + n % d = n := Nat.div_add_mod n d
  have hmod : n % d < d := Nat.mod_lt n hd
  generalize n / d = q at hdiv ⊢
  generalize n % d = r at hdiv hmod ⊢
  have hle : q ≤ m := by
    by_contra h
    have hmul : d * (m + 1) ≤ d * q := Nat.mul_le_mul_left d (Nat.lt_of_not_le h)
    nlinarith
  have hge : m ≤ q + 1 := by
    by_contra h
    have hmul : d * (q + 2) ≤ d * m := Nat.mul_le_mul_left d (Nat.lt_of_not_le h)
    nlinarith
  rw [roundEven]
  rcases Nat.eq_or_lt_of_le hle with rfl | hlt
  · have hless : 2 * r < d := by nlinarith
    rw [if_neg (by omega)]
  · obtain rfl : m = q + 1 := by omega
    have hmore : d < 2 * r := by nlinarith
    rw [if_pos (.inl hmore)]

/-! ## The unit -/

/-- The unit in which a quotient has fifty-three bits, as a power of two. -/
def fullPlace (num den : Nat) : Int :=
  let guess : Int := (num.log2 : Int) - den.log2 - 52
  if num * Nat.pow 2 (-guess).toNat < den * Nat.pow 2 guess.toNat * fractions then guess - 1
  else guess

/-- The bits of a quotient count its units, which are not below the smallest one. -/
theorem quotientBits_eq (hnum : 0 < num) (hden : 0 < den) :
    quotientBits num den =
      let e := max (fullPlace num den) (-1074)
      let n := num * Nat.pow 2 (-e).toNat
      let d := den * Nat.pow 2 e.toNat
      min ((e + 1074).toNat * fractions + roundEven (n / d) (n % d) d) infinityBits := by
  rw [quotientBits, if_neg (by omega)]
  rfl

/-- A positive number lies between two powers of two. -/
theorem log2_bounds (h : 0 < n) :
    (2 : ℚ) ^ (n.log2 : Int) ≤ n ∧ (n : ℚ) < 2 ^ ((n.log2 : Int) + 1) := by
  constructor
  · exact_mod_cast Nat.log2_self_le (Nat.ne_of_gt h)
  · exact_mod_cast Nat.lt_log2_self

/-- Powers of two are multiplied by adding their exponents. -/
theorem two_zpow_mul (a b : Int) : (2 : ℚ) ^ a * 2 ^ b = 2 ^ (a + b) :=
  (zpow_add₀ two_ne_zero a b).symm

/-- The bits of a quotient tell its size up to a factor of two. -/
theorem quotient_bounds (hnum : 0 < num) (hden : 0 < den) :
    (2 : ℚ) ^ ((num.log2 : Int) - den.log2 - 1) < num / den ∧
      (num / den : ℚ) < 2 ^ ((num.log2 : Int) - den.log2 + 1) := by
  obtain ⟨hnumLow, hnumHigh⟩ := log2_bounds hnum
  obtain ⟨hdenLow, hdenHigh⟩ := log2_bounds hden
  have hden' : (0 : ℚ) < den := by exact_mod_cast hden
  constructor
  · rw [lt_div_iff₀ hden']
    calc (2 : ℚ) ^ ((num.log2 : Int) - den.log2 - 1) * den
      _ < 2 ^ ((num.log2 : Int) - den.log2 - 1) * 2 ^ ((den.log2 : Int) + 1) := by gcongr
      _ = 2 ^ (num.log2 : Int) := by rw [two_zpow_mul]; congr 1; omega
      _ ≤ num := hnumLow
  · rw [div_lt_iff₀ hden']
    calc (num : ℚ)
      _ < 2 ^ ((num.log2 : Int) + 1) := hnumHigh
      _ = 2 ^ ((num.log2 : Int) - den.log2 + 1) * 2 ^ (den.log2 : Int) := by
        rw [two_zpow_mul]; congr 1; omega
      _ ≤ 2 ^ ((num.log2 : Int) - den.log2 + 1) * den := by gcongr

/-- In its unit, a quotient has fifty-three bits. -/
theorem fullPlace_spec (hnum : 0 < num) (hden : 0 < den) :
    (2 : ℚ) ^ 52 ≤ num / den / 2 ^ fullPlace num den ∧
      (num / den / 2 ^ fullPlace num den : ℚ) < 2 ^ 53 := by
  obtain ⟨hlow, hhigh⟩ := quotient_bounds hnum hden
  rw [fullPlace]
  set guess : Int := (num.log2 : Int) - den.log2 - 52 with hguess
  have hunit : (0 : ℚ) < 2 ^ guess := by positivity
  have hscaled := scaled_div 2 num den guess
  rw [Nat.cast_ofNat] at hscaled
  set n := num * Nat.pow 2 (-guess).toNat
  set d := den * Nat.pow 2 guess.toNat
  have hd : (0 : ℚ) < d := by
    exact_mod_cast Nat.mul_pos hden (Nat.pow_pos Nat.two_pos)
  have htest : n < d * fractions ↔ (num / den / 2 ^ guess : ℚ) < 2 ^ 52 := by
    rw [← hscaled, div_lt_iff₀ hd, mul_comm, show (2 : ℚ) ^ 52 = fractions by norm_num [fractions]]
    exact_mod_cast Iff.rfl
  have hlow' : (2 : ℚ) ^ 51 < num / den / 2 ^ guess := by
    rw [lt_div_iff₀ hunit, ← zpow_natCast, two_zpow_mul]
    exact lt_of_eq_of_lt (by congr 1; omega) hlow
  have hhigh' : (num / den / 2 ^ guess : ℚ) < 2 ^ 53 := by
    rw [div_lt_iff₀ hunit, ← zpow_natCast, two_zpow_mul]
    exact lt_of_lt_of_eq hhigh (by congr 1; omega)
  split
  · rename_i hsmall
    have hhalf : (num / den / 2 ^ (guess - 1) : ℚ) = num / den / 2 ^ guess * 2 := by
      rw [zpow_sub_one₀ two_ne_zero, ← div_div, div_inv_eq_mul]
    rw [hhalf]
    constructor
    · linarith
    · linarith [htest.mp hsmall]
  · rename_i hlarge
    exact ⟨not_lt.mp (mt htest.mpr hlarge), hhigh'⟩

/-- A quotient has at most fifty-three bits in no smaller unit than one in which it has as
many. -/
theorem place_le {e' : Int} (hlow : (2 : ℚ) ^ 52 ≤ q / 2 ^ e) (hhigh : q / 2 ^ e' < 2 ^ 53) :
    e ≤ e' := by
  have hunit : (0 : ℚ) < 2 ^ e := by positivity
  have hunit' : (0 : ℚ) < 2 ^ e' := by positivity
  rw [le_div_iff₀ hunit] at hlow
  rw [div_lt_iff₀ hunit'] at hhigh
  by_contra h
  have hpow : (2 : ℚ) ^ (e' + 1) ≤ 2 ^ e := zpow_le_zpow_right₀ (by norm_num) (by omega)
  rw [zpow_add_one₀ two_ne_zero] at hpow
  linarith

/-- The unit in which a quotient has fifty-three bits is the only one. -/
theorem fullPlace_eq (hlow : (2 : ℚ) ^ 52 ≤ num / den / 2 ^ e)
    (hhigh : (num / den / 2 ^ e : ℚ) < 2 ^ 53) (hnum : 0 < num) (hden : 0 < den) :
    fullPlace num den = e := by
  obtain ⟨hlow', hhigh'⟩ := fullPlace_spec hnum hden
  exact le_antisymm (place_le hlow' hhigh) (place_le hlow hhigh')

/-! ## Rounding -/

/-- The bits of a quotient that is less than half a unit away from a number of units. -/
theorem quotientBits_of_place (hnum : 0 < num) (hden : 0 < den)
    (he : max (fullPlace num den) (-1074) = e) (hlow : (m : ℚ) - 1 / 2 < num / den / 2 ^ e)
    (hhigh : (num / den / 2 ^ e : ℚ) < m + 1 / 2) :
    quotientBits num den = min ((e + 1074).toNat * fractions + m) infinityBits := by
  have hscaled := scaled_div 2 num den e
  rw [Nat.cast_ofNat] at hscaled
  rw [quotientBits_eq hnum hden, he]
  dsimp only
  set n := num * Nat.pow 2 (-e).toNat
  set d := den * Nat.pow 2 e.toNat
  have hd : 0 < d := Nat.mul_pos hden (Nat.pow_pos Nat.two_pos)
  have hd' : (0 : ℚ) < d := by exact_mod_cast hd
  rw [← hscaled, lt_div_iff₀ hd'] at hlow
  rw [← hscaled, div_lt_iff₀ hd'] at hhigh
  have hbelow : ((2 * m * d : Nat) : ℚ) < (2 * n + d : Nat) := by push_cast; linarith
  have habove : ((2 * n : Nat) : ℚ) < (2 * m * d + d : Nat) := by push_cast; linarith
  rw [roundEven_eq hd (by exact_mod_cast hbelow) (by exact_mod_cast habove)]

/-- A number of units that the format can hold. -/
structure IsCanonical (m : Nat) (k : Int) : Prop where
  /-- There are at most fifty-three bits. -/
  mantissa_lt : m < 2 ^ 53
  /-- The unit is not below the smallest one. -/
  le_exponent : -1074 ≤ k
  /-- The unit is not above the largest one. -/
  exponent_le : k ≤ 971
  /-- There are fifty-three bits, unless the unit is the smallest one. -/
  full : 2 ^ 52 ≤ m ∨ k = -1074

/-- The bits of a number of units. -/
def canonicalBits (m : Nat) (k : Int) : Nat :=
  (k + 1074).toNat * fractions + m

/-- What the format can hold is less than infinity. -/
theorem IsCanonical.bits_lt (h : IsCanonical m k) : canonicalBits m k < infinityBits := by
  have hm := h.mantissa_lt
  have hk := h.exponent_le
  have hexponent : (k + 1074).toNat ≤ 2045 := by omega
  rw [canonicalBits, infinityBits, fractions]
  omega

/-- A quotient near a finite number of the format is rounded to it. -/
theorem quotientBits_of_near (h : IsCanonical m k) (hden : 0 < den)
    (hnear : |(num / den : ℚ) - m * 2 ^ k| * 2 ^ 54 < m * 2 ^ k) :
    quotientBits num den = canonicalBits m k := by
  have hfinite := h.bits_lt
  obtain ⟨hm, hk, -, hnormal⟩ := h
  rw [canonicalBits] at hfinite ⊢
  have hunit : (0 : ℚ) < 2 ^ k := by positivity
  set y : ℚ := num / den / 2 ^ k with hy
  have hratio : (num / den : ℚ) = y * 2 ^ k := by rw [hy, div_mul_cancel₀ _ hunit.ne']
  have hclose : |y - m| * 2 ^ 54 < m := by
    rw [hratio, ← sub_mul, abs_mul, abs_of_pos hunit] at hnear
    nlinarith
  have hmpos : (0 : ℚ) < m := lt_of_le_of_lt (by positivity) hclose
  have hmle : (m : ℚ) + 1 ≤ 2 ^ 53 := by exact_mod_cast hm
  obtain ⟨hlow, hhigh⟩ := abs_lt.mp (show |y - m| < m / 2 ^ 54 by
    rw [lt_div_iff₀ (by positivity)]
    exact hclose)
  have hnum : 0 < num := by
    rcases Nat.eq_zero_or_pos num with rfl | h
    · norm_num [hy] at hlow
      linarith
    · exact h
  obtain ⟨hplaceLow, hplaceHigh⟩ := fullPlace_spec hnum hden
  by_cases hunits : (2 : ℚ) ^ 52 ≤ y ∨ k = -1074
  · -- The unit of the quotient is that of the number.
    have hplace : max (fullPlace num den) (-1074) = k := by
      have hhigh' : y < 2 ^ 53 := by linarith
      have hle : fullPlace num den ≤ k := place_le hplaceLow hhigh'
      rcases hunits with hunits | rfl
      · rw [fullPlace_eq hunits hhigh' hnum hden, max_eq_left hk]
      · rw [max_eq_right hle]
    have hbelow : (m : ℚ) - 1 / 2 < y := by linarith
    have habove : y < m + 1 / 2 := by linarith
    rw [quotientBits_of_place hnum hden hplace hbelow habove, min_eq_left hfinite.le]
  · -- The quotient lies just below a power of two, where the unit is half as large.
    obtain ⟨hsmall, hne⟩ := not_or.mp hunits
    have hmlow : 2 ^ 52 ≤ m := hnormal.resolve_right hne
    have hmhigh : m < 2 ^ 52 + 1 := by
      have h : (m : ℚ) < 2 ^ 52 + 1 := by linarith
      exact_mod_cast h
    obtain rfl : m = 2 ^ 52 := by omega
    have hhalf : (num / den / 2 ^ (k - 1) : ℚ) = y * 2 := by
      rw [zpow_sub_one₀ two_ne_zero, ← div_div, div_inv_eq_mul]
    have hlow' : ((2 ^ 53 : Nat) : ℚ) - 1 / 2 < num / den / 2 ^ (k - 1) := by
      rw [hhalf]
      push_cast at hlow ⊢
      linarith
    have hhigh' : (num / den / 2 ^ (k - 1) : ℚ) < 2 ^ 53 := by
      rw [hhalf]
      linarith
    have hplace : max (fullPlace num den) (-1074) = k - 1 := by
      rw [fullPlace_eq (by push_cast at hlow'; linarith) hhigh' hnum hden, max_eq_left (by omega)]
    have hbits : (k - 1 + 1074).toNat * fractions + 2 ^ 53 =
        (k + 1074).toNat * fractions + 2 ^ 52 := by
      have hsucc : (k + 1074).toNat = (k - 1 + 1074).toNat + 1 := by omega
      rw [hsucc, Nat.add_mul, fractions]
      omega
    rw [quotientBits_of_place hnum hden hplace hlow' (by push_cast; linarith), hbits,
      min_eq_left hfinite.le]

/-! ## Equal quotients -/

/-- Rounding does not change when both parts of a quotient grow alike. -/
theorem roundEven_mul {c : Nat} (hc : 0 < c) (n d : Nat) :
    roundEven (n * c / (d * c)) (n * c % (d * c)) (d * c) = roundEven (n / d) (n % d) d := by
  have hless : d * c < 2 * (n % d * c) ↔ d < 2 * (n % d) := by
    rw [← Nat.mul_assoc]
    exact Nat.mul_lt_mul_right hc
  have hsame : 2 * (n % d * c) = d * c ↔ 2 * (n % d) = d := by
    rw [← Nat.mul_assoc]
    exact Nat.mul_left_inj hc.ne'
  simp only [roundEven, Nat.mul_div_mul_right _ _ hc, Nat.mul_mod_mul_right, hless, hsame]

/-- The bits of a quotient do not change when both parts grow alike. -/
theorem quotientBits_mul {c : Nat} (hc : 0 < c) (hnum : 0 < num) (hden : 0 < den) :
    quotientBits (num * c) (den * c) = quotientBits num den := by
  have hratio : ((num * c : Nat) / (den * c : Nat) : ℚ) = num / den := by
    push_cast
    exact mul_div_mul_right _ _ (by exact_mod_cast hc.ne')
  have hplace : fullPlace (num * c) (den * c) = fullPlace num den := by
    obtain ⟨hlow, hhigh⟩ := fullPlace_spec hnum hden
    rw [← hratio] at hlow hhigh
    exact fullPlace_eq hlow hhigh (Nat.mul_pos hnum hc) (Nat.mul_pos hden hc)
  rw [quotientBits_eq (Nat.mul_pos hnum hc) (Nat.mul_pos hden hc), quotientBits_eq hnum hden,
    hplace]
  dsimp only
  rw [Nat.mul_right_comm num c, Nat.mul_right_comm den c, roundEven_mul hc]

/-- Equal quotients have the same bits. -/
theorem quotientBits_congr {num' den' : Nat} (hden : 0 < den) (hden' : 0 < den')
    (h : (num / den : ℚ) = num' / den') : quotientBits num den = quotientBits num' den' := by
  have hcross : num * den' = num' * den := by
    rw [div_eq_div_iff (by exact_mod_cast hden.ne') (by exact_mod_cast hden'.ne')] at h
    exact_mod_cast h
  rcases Nat.eq_zero_or_pos num with rfl | hnum
  · obtain rfl : num' = 0 := by
      rw [Nat.zero_mul] at hcross
      exact (Nat.mul_eq_zero.mp hcross.symm).resolve_right hden.ne'
    rw [quotientBits, quotientBits, if_pos (.inl rfl), if_pos (.inl rfl)]
  · have hnum' : 0 < num' := Nat.pos_of_mul_pos_right (hcross ▸ Nat.mul_pos hnum hden')
    rw [← quotientBits_mul hden' hnum hden, hcross, Nat.mul_comm den,
      quotientBits_mul hden hnum' hden']

end Playable.Binary64
