import Mathlib.Data.List.Basic
import Mathlib.Data.List.TakeWhile
import Playable.Number.Integer
import Playable.Proofs.Text.Cut

/-!
# Numerals, and printed integers

A numeral is a run of digits of any script, perhaps behind a minus sign. It spells an integer
unless it has more digits than an integer may be written with. An integer is printed as a
numeral of ASCII digits, and reading the text gives the integer again.
-/

namespace Playable.Number

variable {c : Char} {digits : Text} {n : Nat}

/-- The value of an ASCII digit. -/
theorem digitValue?_of_isDigit (h : c.isDigit = true) :
    Text.digitValue? c = some (c.toNat - 48) := by
  rw [Text.digitValue?, if_pos h]

/-- An ASCII digit is a decimal digit. -/
theorem isDecimalDigit_of_isDigit (h : c.isDigit = true) : Text.isDecimalDigit c = true := by
  rw [Text.isDecimalDigit, digitValue?_of_isDigit h]
  rfl

/-- A digit is not blank. -/
theorem isBlank_of_isDigit (h : c.isDigit = true) : Text.isBlank c = false := by
  simp only [Char.isDigit, Bool.and_eq_true, decide_eq_true_eq, UInt32.le_iff_toNat_le] at h
  have hbounds : 48 ≤ c.toNat ∧ c.toNat ≤ 57 := h
  exact Text.isBlank_of_bounds (by omega) (by omega)

/-! ## Numerals -/

/-- No decimal digit is a wide blank. -/
theorem wideDigits_apart : Text.wideDigits.all (fun digits => Text.wideBlanks.all fun blanks =>
    digits.2 < blanks.1 || blanks.2 < digits.1) = true := by
  decide +kernel

/-- A decimal digit of any script is not blank. -/
theorem isBlank_of_isDecimalDigit (h : Text.isDecimalDigit c = true) : Text.isBlank c = false := by
  rw [Text.isDecimalDigit, Text.digitValue?] at h
  split at h
  · exact isBlank_of_isDigit ‹_›
  · split at h
    · cases h
    · rename_i hwide
      rw [Option.isSome_map, List.find?_isSome] at h
      obtain ⟨digits, hdigits, hin⟩ := h
      simp only [Bool.and_eq_true, decide_eq_true_eq] at hin
      have hblanks : Text.inRanges Text.wideBlanks c = false := by
        refine List.any_eq_false.mpr fun blanks hmem hblank => ?_
        have hapart := List.all_eq_true.mp (List.all_eq_true.mp wideDigits_apart digits hdigits)
          blanks hmem
        simp only [Bool.or_eq_true, Bool.and_eq_true, decide_eq_true_eq] at hapart hblank
        omega
      have hcontrol : ¬ c.toNat ≤ 13 := by omega
      have hspace : ¬ c.toNat ≤ 32 := by omega
      simp [Text.isBlank, hcontrol, hspace, hblanks]

/-- A numeral: digits of any script, perhaps behind a minus sign. -/
def numeral (negative : Bool) (digits : Text) : Text :=
  if negative then '-' :: digits else digits

/-- The sign of a numeral is cut off. -/
theorem sign_numeral (negative : Bool) (hne : digits ≠ [])
    (hd : ∀ c ∈ digits, Text.isDecimalDigit c = true) :
    sign (numeral negative digits) = (negative, digits) := by
  cases negative with
  | true => rfl
  | false =>
    obtain ⟨c, more, rfl⟩ := List.exists_cons_of_ne_nil hne
    have hc : Text.isDecimalDigit c = true := hd c List.mem_cons_self
    have hminus : c ≠ '-' := by
      rintro rfl
      cases hc
    have hplus : c ≠ '+' := by
      rintro rfl
      cases hc
    simp [numeral, sign, hminus, hplus]

/-- There is nothing to trim around a numeral. -/
theorem trim_numeral (negative : Bool) (hd : ∀ c ∈ digits, Text.isDecimalDigit c = true) :
    Text.trim Text.isWhiteSpace (numeral negative digits) = numeral negative digits := by
  have hdigit : ∀ c ∈ digits, Text.isWhiteSpace c = false := fun c hc => by
    rw [Text.isWhiteSpace, isBlank_of_isDecimalDigit (hd c hc), Bool.false_and]
  refine Text.trim_of_forall fun c hc => ?_
  cases negative with
  | true => exact (List.mem_cons.mp hc).elim (fun h => h ▸ rfl) (hdigit c)
  | false => exact hdigit c hc

/-- A numeral is read as the integer with its sign and its digits. -/
theorem integer_numeral (negative : Bool) (hne : digits ≠ [])
    (hd : ∀ c ∈ digits, Text.isDecimalDigit c = true) :
    integer (numeral negative digits) = ofDigits negative digits := by
  have hgrouped : digits.takeWhile (fun c => Text.isDecimalDigit c || c = '_') = digits :=
    List.takeWhile_eq_self_iff.mpr fun c hc => by rw [hd c hc, Bool.true_or]
  have hgroups : Text.split '_' digits = [digits] :=
    Text.split_of_not_mem fun hmem => by cases hd '_' hmem
  have hempty : digits.isEmpty = false := by
    simpa using hne
  simp only [integer, trim_numeral negative hd, sign_numeral negative hne hd, hgrouped, hgroups,
    List.any_cons, hempty, List.any_nil, Bool.or_self, Bool.false_eq_true, if_false,
    List.flatten_cons, List.flatten_nil, List.append_nil, Nat.lt_irrefl]
  cases ofDigits negative digits <;> rfl

/-- A numeral is refused exactly if it has too many digits. -/
theorem integer_numeral_eq_error_iff (negative : Bool) (hne : digits ≠ [])
    (hd : ∀ c ∈ digits, Text.isDecimalDigit c = true) {f : IntegerFault} :
    integer (numeral negative digits) = .error f ↔
      maxDigits < digits.length ∧ f = .tooLong digits.length := by
  rw [integer_numeral negative hne hd, ofDigits]
  split <;> simp [*, eq_comm]

/-! ## Printed integers -/

/-- A power of ten is printed with one digit more than its exponent. -/
theorem length_ofNat_pow (k : Nat) : (Text.ofNat (Nat.pow 10 k)).length = k + 1 := by
  have hbase : 1 < 10 := by decide
  refine Nat.le_antisymm ?_ (Nat.succ_le_of_lt (Nat.lt_of_not_le fun h => ?_))
  · exact (Nat.length_toDigits_le_iff hbase (Nat.succ_pos k)).mpr
      (Nat.pow_lt_pow_right hbase (Nat.lt_succ_self k))
  · rcases Nat.eq_zero_or_pos k with rfl | hk
    · exact absurd h (by decide)
    · exact Nat.lt_irrefl _ ((Nat.length_toDigits_le_iff hbase hk).mp h)

/-- A power of ten may not be written down if its exponent is too large. -/
theorem isWritable_pow {k : Nat} (h : maxDigits ≤ k) :
    isWritable (Int.ofNat (Nat.pow 10 k)) = false := by
  have hlong : ¬ (Text.ofNat (Nat.pow 10 k)).length ≤ maxDigits := by
    rw [length_ofNat_pow]
    exact Nat.not_le.mpr (Nat.lt_succ_of_le h)
  exact decide_eq_false hlong

/-- Every character of a printed number is a digit. -/
theorem isDigit_of_mem_ofNat (h : c ∈ Text.ofNat n) : c.isDigit = true :=
  Nat.isDigit_of_mem_toDigits (by decide) (by decide) h

/-- A printed number has at least one digit. -/
theorem ofNat_ne_nil (n : Nat) : Text.ofNat n ≠ [] :=
  Nat.toDigits_ne_nil

/-- A printed integer is made of digits and perhaps a minus sign. -/
theorem mem_ofInt {i : Int} (h : c ∈ Text.ofInt i) : c = '-' ∨ c.isDigit = true := by
  cases i with
  | ofNat n => exact .inr (isDigit_of_mem_ofNat h)
  | negSucc n => exact (List.mem_cons.mp h).imp_right isDigit_of_mem_ofNat

/-- A printed integer has at least one character. -/
theorem ofInt_ne_nil (i : Int) : Text.ofInt i ≠ [] := by
  cases i with
  | ofNat n => exact ofNat_ne_nil n
  | negSucc n => exact List.cons_ne_nil '-' _

/-- A printed integer holds no blanks. -/
theorem isBlank_of_mem_ofInt {i : Int} (h : c ∈ Text.ofInt i) : Text.isBlank c = false := by
  rcases mem_ofInt h with rfl | hdigit
  · rfl
  · exact isBlank_of_isDigit hdigit

/-- The digits of a printed number have its value. -/
theorem digitsValue_ofNat (n : Nat) : digitsValue (Text.ofNat n) = n := by
  have hstep : ∀ value, ∀ c ∈ Text.ofNat n,
      value * 10 + (c.toNat - 48) = 10 * value + (c.toNat - '0'.toNat) := by
    intro value c _
    rw [Nat.mul_comm]
    rfl
  rw [digitsValue, List.foldl_ext _ _ 0 hstep, ← Nat.ofDigitChars_eq_foldl]
  exact Nat.ofDigitChars_ten_toDigits

/-- ASCII digits have the same value among the digits of all scripts. -/
theorem decimalValue_of_isDigit (h : ∀ c ∈ digits, c.isDigit = true) :
    decimalValue digits = digitsValue digits := by
  refine List.foldl_ext _ _ 0 fun value c hc => ?_
  rw [digitValue?_of_isDigit (h c hc), Option.getD_some]

/-- Digits alone are one group, within the limit on their number. -/
theorem ofDigits_ofNat (negative : Bool) (h : (Text.ofNat n).length ≤ maxDigits) :
    ofDigits negative (Text.ofNat n) = .ok (if negative then -(n : Int) else n) := by
  rw [ofDigits, if_neg (Nat.not_lt.mpr h),
    decimalValue_of_isDigit fun c => isDigit_of_mem_ofNat, digitsValue_ofNat]

/-- A printed integer of not too many digits is read back. -/
theorem integer_ofInt (i : Int) (h : (Text.ofNat i.natAbs).length ≤ maxDigits) :
    integer (Text.ofInt i) = .ok i := by
  have hread : ∀ negative n, (Text.ofNat n).length ≤ maxDigits →
      integer (numeral negative (Text.ofNat n)) = .ok (if negative then -(n : Int) else n) :=
    fun negative n hlength => by
      rw [integer_numeral negative (ofNat_ne_nil n) fun c hc =>
        isDecimalDigit_of_isDigit (isDigit_of_mem_ofNat hc), ofDigits_ofNat negative hlength]
  cases i with
  | ofNat n => exact hread false n h
  | negSucc n => exact hread true (n + 1) h

end Playable.Number
