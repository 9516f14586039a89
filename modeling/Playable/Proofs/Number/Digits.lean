import Mathlib.Data.List.DropRight
import Playable.Proofs.Number.Printed
import Playable.Proofs.Number.Shortest

/-!
# Sequences of digits

The value of a sequence of digits, of a printed number, and of the digits of a decimal number
with a point among them. Zeros behind the digits only move their value to another power of ten,
so the decimal number is the same wherever its digits end.
-/

namespace Playable.Number

open Binary64

variable {s t whole part : Text} {n : Nat} {place : Int}

/-! ## Values -/

/-- Digits are read on behind a value. -/
theorem foldl_digits (n : Nat) (t : Text) :
    t.foldl (fun n c => n * 10 + (c.toNat - 48)) n = n * 10 ^ t.length + digitsValue t := by
  rw [digitsValue]
  induction t using List.reverseRecOn with
  | nil => simp
  | append_singleton t c ih =>
    rw [List.foldl_concat, List.foldl_concat, ih, List.length_append, List.length_singleton,
      Nat.pow_succ]
    ring

/-- Digits behind others move the value of those to a higher power of ten. -/
theorem digitsValue_append (s t : Text) :
    digitsValue (s ++ t) = digitsValue s * 10 ^ t.length + digitsValue t := by
  rw [digitsValue, List.foldl_append, foldl_digits]
  rfl

/-- Zeros have no value. -/
theorem digitsValue_zeros (n : Nat) : digitsValue (List.replicate n '0') = 0 := by
  induction n with
  | zero => rfl
  | succ n ih =>
    rw [List.replicate_succ', digitsValue_append, ih]
    rfl

/-- Zeros in front of digits do not count. -/
theorem digitsValue_zeros_append (n : Nat) (t : Text) :
    digitsValue (List.replicate n '0' ++ t) = digitsValue t := by
  rw [digitsValue_append, digitsValue_zeros, Nat.zero_mul, Nat.zero_add]

/-- Each zero behind digits multiplies by ten. -/
theorem digitsValue_append_zeros (t : Text) (n : Nat) :
    digitsValue (t ++ List.replicate n '0') = digitsValue t * 10 ^ n := by
  rw [digitsValue_append, digitsValue_zeros, List.length_replicate, Nat.add_zero]

/-- Digits have less value than one unit in front of them. -/
theorem digitsValue_lt (h : ∀ c ∈ t, c.isDigit = true) : digitsValue t < 10 ^ t.length := by
  induction t using List.reverseRecOn with
  | nil => decide
  | append_singleton t c ih =>
    have hc : c.toNat - 48 < 10 := by
      have hdigit := h c (List.mem_append_right _ List.mem_cons_self)
      simp only [Char.isDigit, Bool.and_eq_true, decide_eq_true_eq,
        UInt32.le_iff_toNat_le] at hdigit
      have hbounds : 48 ≤ c.toNat ∧ c.toNat ≤ 57 := hdigit
      omega
    have hmore := ih fun d hd => h d (List.mem_append_left _ hd)
    have hlast : digitsValue [c] = c.toNat - 48 := by simp [digitsValue]
    rw [digitsValue_append, hlast, List.length_append, List.length_singleton, Nat.pow_succ]
    omega

/-- Digits that do not begin with a zero have at least the value of one unit in the first
place. -/
theorem le_digitsValue {c : Char} (hc : c.isDigit = true) (hne : c ≠ '0') (t : Text) :
    10 ^ t.length ≤ digitsValue (c :: t) := by
  have hone : 1 ≤ digitsValue [c] := by
    simp only [Char.isDigit, Bool.and_eq_true, decide_eq_true_eq, UInt32.le_iff_toNat_le] at hc
    have hzero : c.toNat ≠ 48 := fun h => hne (Char.toNat_inj.mp h)
    have hbounds : 48 ≤ c.toNat ∧ c.toNat ≤ 57 := hc
    simp only [digitsValue, List.foldl_cons, List.foldl_nil]
    omega
  rw [← List.singleton_append, digitsValue_append]
  exact Nat.le_add_right_of_le (Nat.le_mul_of_pos_left _ hone)

/-- Digits that do not begin with a zero are as many as their value has. -/
theorem digitCount_digitsValue (h : ∀ c ∈ t, c.isDigit = true) (hne : t ≠ [])
    (hhead : t.head? ≠ some '0') : digitCount (digitsValue t) = t.length := by
  obtain ⟨c, more, rfl⟩ := List.exists_cons_of_ne_nil hne
  have hlow := le_digitsValue (h c List.mem_cons_self) (fun hc => hhead (congrArg some hc)) more
  have hcount : (Text.ofNat (digitsValue (c :: more))).length ≤ (c :: more).length :=
    (Nat.length_toDigits_le_iff (by decide) (Nat.succ_pos _)).mpr (digitsValue_lt h)
  refine Nat.le_antisymm hcount ?_
  rcases Nat.eq_zero_or_pos more.length with hnil | hpos
  · rw [List.length_cons, hnil]
    exact List.length_pos_of_ne_nil Nat.toDigits_ne_nil
  · refine Nat.lt_of_not_le fun hle => Nat.not_lt.mpr hlow ?_
    exact (Nat.length_toDigits_le_iff (by decide) hpos).mp hle

/-- Dropped zeros have no value. -/
theorem digitsValue_dropWhile (t : Text) :
    digitsValue (t.dropWhile (· = '0')) = digitsValue t := by
  have hzeros : t.takeWhile (· = '0') = List.replicate (t.takeWhile (· = '0')).length '0' :=
    List.eq_replicate_iff.mpr ⟨rfl, fun c hc => by simpa using List.mem_takeWhile_imp hc⟩
  conv_rhs => rw [← List.takeWhile_append_dropWhile (p := (· = '0')) (l := t), hzeros]
  exact (digitsValue_zeros_append ..).symm

/-- A printed positive number does not begin with a zero. -/
theorem head?_ofNat (h : 0 < n) : (Text.ofNat n).head? ≠ some '0' := by
  intro hzero
  obtain ⟨more, hmore⟩ := List.head?_eq_some_iff.mp hzero
  have hvalue : n = digitsValue more := by
    rw [← digitsValue_ofNat n, hmore, ← digitsValue_zeros_append 1 more]
    rfl
  have hlt : n < 10 ^ more.length := hvalue ▸ digitsValue_lt fun c hc =>
    isDigit_of_mem_ofNat (hmore ▸ List.mem_cons_of_mem _ hc : c ∈ Text.ofNat n)
  rcases Nat.eq_zero_or_pos more.length with hnil | hpos
  · rw [hnil] at hlt
    omega
  · have hle : (Text.ofNat n).length ≤ more.length :=
      (Nat.length_toDigits_le_iff (by decide) hpos).mpr hlt
    rw [hmore, List.length_cons] at hle
    omega

/-! ## Digits without the zeros behind them -/

/-- The digits of a number without the zeros at the end. -/
def significant (n : Nat) : Text :=
  (Text.ofNat n).rdropWhile (· = '0')

/-- A printed number ends in zeros behind its significant digits. -/
theorem exists_zeros (n : Nat) : ∃ k, Text.ofNat n = significant n ++ List.replicate k '0' := by
  refine ⟨((Text.ofNat n).rtakeWhile (· = '0')).length, ?_⟩
  have hzeros : (Text.ofNat n).rtakeWhile (· = '0') =
      List.replicate ((Text.ofNat n).rtakeWhile (· = '0')).length '0' :=
    List.eq_replicate_iff.mpr ⟨rfl, fun c hc => by simpa using List.mem_rtakeWhile_imp hc⟩
  rw [← hzeros]
  exact (List.rdropWhile_append_rtakeWhile ..).symm

/-- Only zero has no significant digits. -/
theorem significant_eq_nil_iff : significant n = [] ↔ n = 0 := by
  constructor
  · intro h
    obtain ⟨k, hk⟩ := exists_zeros n
    rw [← digitsValue_ofNat n, hk, h, List.nil_append, digitsValue_zeros]
  · rintro rfl
    rfl

/-- Significant digits are digits. -/
theorem isDigit_of_mem_significant {c : Char} (h : c ∈ significant n) : c.isDigit = true :=
  isDigit_of_mem_ofNat ((List.rdropWhile_prefix ..).subset h)

/-- Significant digits do not begin with a zero. -/
theorem head?_significant (h : 0 < n) : (significant n).head? ≠ some '0' := by
  obtain ⟨k, hk⟩ := exists_zeros n
  have hne : significant n ≠ [] := mt significant_eq_nil_iff.mp (Nat.ne_of_gt h)
  have hhead := head?_ofNat h
  rwa [hk, List.head?_append_of_ne_nil _ hne] at hhead

/-- A decimal number is given by its significant digits and the place of the first one. -/
theorem significant_value (n : Nat) (e : Int) :
    (n * 10 ^ e : ℚ) =
      digitsValue (significant n) * 10 ^ (e + digitCount n - (significant n).length) := by
  obtain ⟨k, hk⟩ := exists_zeros n
  have hcount : digitCount n = (significant n).length + k := by
    rw [digitCount, ← Text.ofNat, hk, List.length_append, List.length_replicate]
  have hvalue : n = digitsValue (significant n) * 10 ^ k := by
    rw [← digitsValue_append_zeros, ← hk, digitsValue_ofNat]
  have hpower : e + digitCount n - (significant n).length = k + e := by omega
  rw [hpower, zpow_add₀ (by norm_num), ← mul_assoc, zpow_natCast]
  exact_mod_cast congrArg (fun m : Nat => (m : ℚ) * 10 ^ e) hvalue

/-! ## Decimal numbers -/

/-- Digits with a point among them are the decimal number with their value, however many zeros
they begin with. -/
theorem nearest_eq {negative : Bool} {power e : Int} (hn : 0 < n)
    (hdigits : ∀ c ∈ whole ++ part, c.isDigit = true)
    (hvalue : (digitsValue (whole ++ part) * 10 ^ (power - part.length) : ℚ) = n * 10 ^ e) :
    nearest negative whole part power = ofDecimal negative n (digitCount n) e := by
  rw [← digitsValue_dropWhile] at hvalue
  rw [nearest]
  set digits := (whole ++ part).dropWhile (· = '0') with hdropped
  have hpos : 0 < digitsValue digits := by
    refine Nat.pos_of_ne_zero fun hzero => ?_
    rw [hzero, Nat.cast_zero, zero_mul] at hvalue
    exact (by positivity : (n * 10 ^ e : ℚ) ≠ 0) hvalue.symm
  have hne : digits ≠ [] := by
    intro hnil
    rw [hnil] at hpos
    exact Nat.lt_irrefl 0 hpos
  have hhead : digits.head? ≠ some '0' := by
    intro hzero
    have hstop := List.head?_dropWhile_not (· = '0') (whole ++ part)
    rw [← hdropped, hzero] at hstop
    simp at hstop
  have hcount := digitCount_digitsValue
    (fun c hc => hdigits c ((List.dropWhile_suffix _).subset hc)) hne hhead
  rw [ofDecimal_eq, ofDecimal_eq, ← hcount, decimalBits_congr hvalue (place_eq hpos hn hvalue)]

end Playable.Number
