import Playable.Json.Writer
import Playable.Proofs.Json.Spelling
import Playable.Proofs.Number.Digits

/-!
# Numbers are read back

A number is read to its end wherever a text follows that cannot go on it. And a number is
written so that it is read back: an integer by its digits, and a number of the binary format
by digits that were tested to give the same bits, wherever the point is put among them.
-/

namespace Playable.Json

open Number Binary64

variable {whole digits part rest s : Text} {power : Option Int} {negative : Bool} {n : Nat}
  {e place : Int}

/-! ## Reading -/

/-- A text that cannot go on a number. -/
def EndsNumber (rest : Text) : Prop :=
  ∀ c, rest.head? = some c → c.isDigit = false ∧ c ∉ ['.', 'e', 'E']

/-- A run of digits ends there. -/
theorem EndsNumber.any_isDigit (h : EndsNumber rest) : rest.head?.any Char.isDigit = false := by
  cases hc : rest.head? with
  | none => rfl
  | some c => exact (h c hc).1

/-- Digits have no sign. -/
theorem sign_of_isDigits (h : IsDigits digits) (rest : Text) :
    sign (digits ++ rest) = (false, digits ++ rest) := by
  obtain ⟨c, more, rfl⟩ := List.exists_cons_of_ne_nil h.1
  have hc : c.isDigit = true := h.2 c List.mem_cons_self
  have hminus : c ≠ '-' := by
    rintro rfl
    cases hc
  have hplus : c ≠ '+' := by
    rintro rfl
    cases hc
  simp [sign, hminus, hplus]

/-- An exponent is read to its end. -/
theorem exponent_of_spells (h : SpellsPower power s) (hrest : EndsNumber rest) :
    Number.exponent (s ++ rest) = (power, rest) := by
  have hend := hrest.any_isDigit
  cases h with
  | none =>
    cases rest with
    | nil => rfl
    | cons c rest =>
      have hmark : ¬ (c = 'e' ∨ c = 'E') := by
        have hc := (hrest c rfl).2
        simp only [List.mem_cons, not_or] at hc
        simp [hc]
      simp [Number.exponent, hmark]
  | @positive mark plus digits hmark hplus hdigits =>
    have hsign : sign (plus ++ (digits ++ rest)) = (false, digits ++ rest) := by
      rcases hplus with rfl | rfl
      · exact sign_of_isDigits hdigits rest
      · rfl
    rw [List.append_assoc, List.cons_append]
    simp only [Number.exponent, hsign, Text.takeWhile_append_of_head? hdigits.2 hend,
      Text.dropWhile_append_of_head? hdigits.2 hend, if_pos (And.intro hmark hdigits.1),
      Bool.false_eq_true, if_false]
  | @negative mark digits hmark hdigits =>
    have hsign : sign ('-' :: (digits ++ rest)) = (true, digits ++ rest) := rfl
    rw [List.cons_append, List.cons_append]
    simp only [Number.exponent, hsign, Text.takeWhile_append_of_head? hdigits.2 hend,
      Text.dropWhile_append_of_head? hdigits.2 hend, if_pos (And.intro hmark hdigits.1), if_true]

/-- A fraction is read to its end. -/
theorem fraction_of_spells (h : SpellsFraction digits s) (hpoint : rest.head? ≠ some '.')
    (hend : rest.head?.any Char.isDigit = false) : fraction (s ++ rest) = (digits, rest) := by
  cases h with
  | none =>
    have hnone : Number.fraction rest = ([], rest) := by
      rw [Number.fraction]
      rintro more rfl
      exact hpoint rfl
    simp [fraction, hnone]
  | point hdigits =>
    have hread : Number.fraction ('.' :: (digits ++ rest)) = (digits, rest) := by
      rw [Number.fraction, Text.takeWhile_append_of_head? hdigits.2 hend,
        Text.dropWhile_append_of_head? hdigits.2 hend]
    have hne : digits.isEmpty = false := by simpa using hdigits.1
    rw [List.cons_append, fraction, hread]
    simp [hne]

/-- What may follow the whole digits of a number is no digit. -/
theorem head?_part (hfraction : SpellsFraction digits part) (hpower : SpellsPower power s)
    (hend : EndsNumber rest) : (part ++ (s ++ rest)).head?.any Char.isDigit = false := by
  have hmark : ∀ c : Char, c = 'e' ∨ c = 'E' → c.isDigit = false := by
    rintro c (rfl | rfl) <;> rfl
  cases hfraction with
  | point hdigits => rfl
  | none =>
    cases hpower with
    | none => exact hend.any_isDigit
    | positive h _ _ => exact hmark _ h
    | negative h _ => exact hmark _ h

/-- What may follow the fraction of a number is no point. -/
theorem head?_power (hpower : SpellsPower power s) (hend : EndsNumber rest) :
    (s ++ rest).head? ≠ some '.' := by
  have hmark : ∀ c : Char, c = 'e' ∨ c = 'E' → some c ≠ some '.' := by
    rintro c (rfl | rfl) <;> decide
  cases hpower with
  | none =>
    intro hpoint
    exact (hend '.' hpoint).2 (by decide)
  | positive h _ _ => exact hmark _ h
  | negative h _ => exact hmark _ h

/-- The whole digits at the start of a text: a zero alone, or a run of digits. -/
def wholeDigits (t : Text) : Text :=
  match t with
  | '0' :: _ => ['0']
  | _ => t.takeWhile Char.isDigit

/-- A number without its sign has whole digits, a fraction and an exponent. -/
theorem unsigned_eq (negative : Bool) (t : Text) :
    unsigned negative t =
      if (wholeDigits t).isEmpty then none
      else
        let part := fraction (t.drop (wholeDigits t).length)
        let power := Number.exponent part.2
        if part.1.isEmpty ∧ power.1.isNone then
          match ofDigits negative (wholeDigits t) with
          | .ok i => some (.int i, power.2)
          | .error _ => none
        else some (.float (nearest negative (wholeDigits t) part.1 (power.1.getD 0)), power.2) :=
  rfl

/-- Whole digits are read to their end. -/
theorem wholeDigits_append (h : IsWhole whole) (hend : rest.head?.any Char.isDigit = false) :
    wholeDigits (whole ++ rest) = whole := by
  rcases h with rfl | ⟨hdigits, hzero⟩
  · rfl
  · have hhead : ∀ more, whole ++ rest ≠ '0' :: more := by
      intro more h
      have hfirst := congrArg List.head? h
      rw [List.head?_append_of_ne_nil _ hdigits.1] at hfirst
      exact hzero hfirst
    rw [wholeDigits, Text.takeWhile_append_of_head? hdigits.2 hend]
    exact hhead

/-- A number without its sign is read to its end. -/
theorem unsigned_of_spells (negative : Bool) (hwhole : IsWhole whole)
    (hfraction : SpellsFraction digits part)
    (hpower : SpellsPower power s) (hend : EndsNumber rest) :
    unsigned negative (whole ++ (part ++ (s ++ rest))) =
      if digits.isEmpty ∧ power.isNone then
        match ofDigits negative whole with
        | .ok i => some (.int i, rest)
        | .error _ => none
      else some (.float (nearest negative whole digits (power.getD 0)), rest) := by
  have hrun := wholeDigits_append hwhole (head?_part hfraction hpower hend)
  have hne : whole.isEmpty = false := by simpa using hwhole.isDigits.1
  have hnoDigit : (s ++ rest).head?.any Char.isDigit = false := head?_part .none hpower hend
  simp only [unsigned_eq, hrun, hne, Bool.false_eq_true, if_false, List.drop_left,
    fraction_of_spells hfraction (head?_power hpower hend) hnoDigit,
    exponent_of_spells hpower hend]

/-- Every word begins with one of a few characters. -/
theorem words_find?_cons {c : Char} (hc : c ∉ ['n', 't', 'f', 'N', 'I', '-']) (rest : Text) :
    (words.find? fun w => w.1.isPrefixOf (c :: rest)) = none := by
  have hhead : ∀ d t, d ∈ ['n', 't', 'f', 'N', 'I', '-'] →
      (d :: t).isPrefixOf (c :: rest) = false := by
    intro d t hd
    have hne : d ≠ c := fun h => hc (h ▸ hd)
    rw [List.isPrefixOf, beq_false_of_ne hne, Bool.false_and]
  refine List.find?_eq_none.mpr fun w hw => ?_
  rw [Bool.not_eq_true]
  simp only [words, List.mem_cons, List.not_mem_nil, or_false] at hw
  rcases hw with rfl | rfl | rfl | rfl | rfl | rfl <;> exact hhead _ _ (by decide)

/-- The one word that begins with a minus sign goes on with a letter. -/
theorem words_find?_minus {c : Char} (hc : c ≠ 'I') (rest : Text) :
    (words.find? fun w => w.1.isPrefixOf ('-' :: c :: rest)) = none := by
  have hhead : ∀ d t, d ≠ '-' → (d :: t).isPrefixOf ('-' :: c :: rest) = false := by
    intro d t hd
    rw [List.isPrefixOf, beq_false_of_ne hd, Bool.false_and]
  have hnext : ∀ t, ('-' :: 'I' :: t).isPrefixOf ('-' :: c :: rest) = false := by
    intro t
    rw [List.isPrefixOf, List.isPrefixOf, beq_false_of_ne hc.symm, Bool.false_and, Bool.and_false]
  refine List.find?_eq_none.mpr fun w hw => ?_
  rw [Bool.not_eq_true]
  simp only [words, List.mem_cons, List.not_mem_nil, or_false] at hw
  rcases hw with rfl | rfl | rfl | rfl | rfl | rfl
  · exact hhead _ _ (by decide)
  · exact hhead _ _ (by decide)
  · exact hhead _ _ (by decide)
  · exact hhead _ _ (by decide)
  · exact hhead _ _ (by decide)
  · exact hnext _

/-- A number is read from behind its sign. -/
theorem scalar_minus (h : IsWhole whole) (negative : Bool) (rest : Text) :
    scalar (minus negative ++ (whole ++ rest)) = unsigned negative (whole ++ rest) := by
  obtain ⟨c, more, rfl⟩ := List.exists_cons_of_ne_nil h.isDigits.1
  have hc : c.isDigit = true := h.isDigits.2 c List.mem_cons_self
  have hne : ∀ d : Char, d.isDigit = false → c ≠ d := by
    rintro d hd rfl
    rw [hc] at hd
    cases hd
  cases negative with
  | true =>
    have hwords := words_find?_minus (hne 'I' rfl) (more ++ rest)
    have hminus : minus true ++ (c :: more ++ rest) = '-' :: c :: (more ++ rest) := rfl
    rw [hminus, scalar.eq_def, hwords]
    rfl
  | false =>
    have hfirst : c ∉ ['n', 't', 'f', 'N', 'I', '-'] := by
      simp only [List.mem_cons, List.not_mem_nil, or_false, not_or]
      exact ⟨hne _ rfl, hne _ rfl, hne _ rfl, hne _ rfl, hne _ rfl, hne _ rfl⟩
    have hwords := words_find?_cons hfirst (more ++ rest)
    have hplain : minus false ++ (c :: more ++ rest) = c :: (more ++ rest) := rfl
    rw [hplain, scalar.eq_def, hwords]
    simp [hne '"' rfl, hne '-' rfl]

/-- An integer of not too many digits is read to its end. -/
theorem scalar_int (negative : Bool) (h : IsWhole whole) (hlength : whole.length ≤ maxDigits)
    (hend : EndsNumber rest) :
    scalar (minus negative ++ whole ++ rest) =
      some (.int (if negative then -(digitsValue whole : Int) else digitsValue whole), rest) := by
  have hread := unsigned_of_spells negative h .none .none hend
  have hvalue : ofDigits negative whole =
      .ok (if negative then -(digitsValue whole : Int) else digitsValue whole) := by
    rw [ofDigits, if_neg (Nat.not_lt.mpr hlength), decimalValue_of_isDigit h.isDigits.2]
  rw [hvalue] at hread
  rw [List.append_assoc, scalar_minus h]
  exact hread

/-- A number of the binary format is read to its end. -/
theorem scalar_float (hwhole : IsWhole whole) (hfraction : SpellsFraction digits part)
    (hpower : SpellsPower power s) (hpart : part ++ s ≠ []) (hend : EndsNumber rest) :
    scalar (minus negative ++ whole ++ part ++ s ++ rest) =
      some (.float (nearest negative whole digits (power.getD 0)), rest) := by
  have hfloat : ¬ (digits.isEmpty = true ∧ power.isNone = true) := by
    rintro ⟨hdigits, hnone⟩
    cases hfraction with
    | none =>
      cases hpower with
      | none => exact hpart rfl
      | positive => cases hnone
      | negative => cases hnone
    | point h => exact h.1 (List.isEmpty_iff.mp hdigits)
  simp only [List.append_assoc]
  rw [scalar_minus hwhole, unsigned_of_spells negative hwhole hfraction hpower hend, if_neg hfloat]

/-- A spelled number of the binary format is read to its end. -/
theorem scalar_of_spellsNumber {x : Binary64} (h : SpellsNumber (.float x) s)
    (hend : EndsNumber rest) : scalar (s ++ rest) = some (.float x, rest) := by
  cases h with
  | float hwhole hfraction hpower hpart => exact scalar_float hwhole hfraction hpower hpart hend

/-- A spelled number begins with a digit or a minus sign. -/
theorem SpellsNumber.exists_cons {v : Value} (h : SpellsNumber v s) :
    ∃ c more, s = c :: more ∧ (c = '-' ∨ c.isDigit = true) := by
  have hfirst : ∀ negative {whole : Text}, IsWhole whole → ∀ rest,
      ∃ c more, minus negative ++ (whole ++ rest) = c :: more ∧ (c = '-' ∨ c.isDigit = true) := by
    intro negative whole hwhole rest
    cases negative with
    | true => exact ⟨'-', whole ++ rest, rfl, .inl rfl⟩
    | false =>
      obtain ⟨c, more, rfl⟩ := List.exists_cons_of_ne_nil hwhole.isDigits.1
      exact ⟨c, more ++ rest, rfl, .inr (hwhole.isDigits.2 c List.mem_cons_self)⟩
  cases h with
  | @int negative whole hwhole => simpa using hfirst negative hwhole []
  | @float negative whole digits fraction exponent power hwhole =>
    simpa only [List.append_assoc] using hfirst negative hwhole (fraction ++ exponent)

/-! ## Writing -/

/-- A printed number is a run of digits. -/
theorem isDigits_ofNat (n : Nat) : IsDigits (Text.ofNat n) :=
  ⟨ofNat_ne_nil n, fun _ => isDigit_of_mem_ofNat⟩

/-- A printed number is one of whole digits. -/
theorem isWhole_ofNat (n : Nat) : IsWhole (Text.ofNat n) := by
  rcases Nat.eq_zero_or_pos n with rfl | hn
  · exact .inl rfl
  · exact .inr ⟨isDigits_ofNat n, head?_ofNat hn⟩

/-- The significant digits of a number are one of whole digits. -/
theorem isWhole_significant (h : 0 < n) : IsDigits (significant n) ∧ IsWhole (significant n) := by
  have hdigits : IsDigits (significant n) :=
    ⟨mt significant_eq_nil_iff.mp (Nat.ne_of_gt h), fun _ => isDigit_of_mem_significant⟩
  exact ⟨hdigits, .inr ⟨hdigits, head?_significant h⟩⟩

/-- A printed integer is a printed number behind its sign. -/
theorem ofInt_eq (i : Int) : Text.ofInt i = minus (decide (i < 0)) ++ Text.ofNat i.natAbs := by
  cases i with
  | ofNat n => rfl
  | negSucc n =>
    rw [decide_eq_true (Int.negSucc_lt_zero n)]
    rfl

/-- An integer is its size with its sign. -/
theorem natAbs_sign (i : Int) :
    (if decide (i < 0) = true then -(i.natAbs : Int) else i.natAbs) = i := by
  simp only [decide_eq_true_eq]
  split <;> omega

/-- A printed integer spells it. -/
theorem spellsNumber_ofInt (i : Int) : SpellsNumber (.int i) (Text.ofInt i) := by
  have h := @SpellsNumber.int (decide (i < 0)) _ (isWhole_ofNat i.natAbs)
  rwa [digitsValue_ofNat, natAbs_sign, ← ofInt_eq] at h

/-- A printed integer of not too many digits is read to its end. -/
theorem scalar_ofInt {i : Int} (h : (Text.ofNat i.natAbs).length ≤ maxDigits)
    (hend : EndsNumber rest) : scalar (Text.ofInt i ++ rest) = some (.int i, rest) := by
  have hread := scalar_int (decide (i < 0)) (isWhole_ofNat i.natAbs) h hend
  rwa [digitsValue_ofNat, natAbs_sign, ← ofInt_eq] at hread

/-- The notation of digits, by their place. -/
theorem toText_eq (s : Scientific) :
    s.toText =
      let digits := significant s.digits
      let place : Int := digitCount s.digits + s.exponent
      if digits = [] then "0.0".toList
      else if -4 < place ∧ place ≤ 16 then
        if place ≤ 0 then "0.".toList ++ List.replicate (-place).toNat '0' ++ digits
        else if digits.length ≤ place.toNat then
          digits ++ List.replicate (place.toNat - digits.length) '0' ++ ".0".toList
        else digits.take place.toNat ++ '.' :: digits.drop place.toNat
      else
        let power := place - 1
        let size := Text.ofNat power.natAbs
        digits.take 1 ++ (if digits.length = 1 then [] else ['.']) ++ digits.drop 1 ++
          'e' :: (if power < 0 then '-' else '+') ::
            (if size.length < 2 then '0' :: size else size) :=
  rfl

/-- An exponent that is there is written. -/
theorem SpellsPower.ne_nil {i : Int} (h : SpellsPower power s) (hpower : power = some i) :
    s ≠ [] := by
  cases h with
  | none => cases hpower
  | positive => exact List.cons_ne_nil _ _
  | negative => exact List.cons_ne_nil _ _

/-- The digits of a fraction are digits. -/
theorem SpellsFraction.isDigit (h : SpellsFraction digits part) :
    ∀ c ∈ digits, c.isDigit = true := by
  cases h with
  | none => exact fun c hc => absurd hc List.not_mem_nil
  | point hdigits => exact hdigits.2

/-- Whole digits, a fraction and an exponent with the value of a decimal number spell it. -/
theorem spellsNumber_of_value (negative : Bool) (hn : 0 < n) (hwhole : IsWhole whole)
    (hfraction : SpellsFraction digits part)
    (hpower : SpellsPower power s) (hpart : part ++ s ≠ [])
    (hvalue : (digitsValue (whole ++ digits) * 10 ^ (power.getD 0 - digits.length) : ℚ) =
      n * 10 ^ e) :
    SpellsNumber (.float (ofDecimal negative n (digitCount n) e))
      (minus negative ++ whole ++ part ++ s) := by
  have hdigits := List.forall_mem_append.mpr ⟨hwhole.isDigits.2, hfraction.isDigit⟩
  rw [← nearest_eq hn hdigits hvalue]
  exact .float hwhole hfraction hpower hpart

/-- The exponent of a number far from one is written with at least two digits. -/
theorem spellsPower_of_size (power : Int) :
    SpellsPower (some power) ('e' :: (if power < 0 then '-' else '+') ::
      (if (Text.ofNat power.natAbs).length < 2 then '0' :: Text.ofNat power.natAbs
        else Text.ofNat power.natAbs)) := by
  set size := if (Text.ofNat power.natAbs).length < 2 then '0' :: Text.ofNat power.natAbs
    else Text.ofNat power.natAbs with hsize
  have hdigits : IsDigits size ∧ digitsValue size = power.natAbs := by
    rw [hsize]
    split
    · refine ⟨⟨List.cons_ne_nil _ _, fun c hc => ?_⟩, ?_⟩
      · exact (List.mem_cons.mp hc).elim (fun h => h ▸ rfl) isDigit_of_mem_ofNat
      · exact (digitsValue_zeros_append 1 _).trans (digitsValue_ofNat _)
    · exact ⟨isDigits_ofNat _, digitsValue_ofNat _⟩
  obtain ⟨hdigits, hvalue⟩ := hdigits
  split
  · have h := @SpellsPower.negative 'e' _ (.inl rfl) hdigits
    rwa [hvalue, show -((power.natAbs : Nat) : Int) = power by omega] at h
  · have h := @SpellsPower.positive 'e' ['+'] _ (.inl rfl) (.inr rfl) hdigits
    rwa [hvalue, show ((power.natAbs : Nat) : Int) = power by omega] at h

/-- The digits on both sides of a point have the value of the number. -/
theorem value_take_drop {k : Nat} {power : Int}
    (hplace : e + digitCount n = place) (hk : k ≤ (significant n).length)
    (hpower : power + k = place) :
    (digitsValue ((significant n).take k ++ (significant n).drop k) *
      10 ^ (power - ((significant n).drop k).length) : ℚ) = n * 10 ^ e := by
  have hshift : power - ((significant n).drop k).length = place - (significant n).length := by
    rw [List.length_drop]
    omega
  rw [List.take_append_drop, significant_value n e, hplace, hshift]

/-- The first digits in front of a point are whole digits. -/
theorem isWhole_take {k : Nat} (hn : 0 < n) (hk : 0 < k) : IsWhole ((significant n).take k) := by
  obtain ⟨hdigits, -⟩ := isWhole_significant hn
  refine .inr ⟨⟨?_, fun c hc => hdigits.2 c (List.mem_of_mem_take hc)⟩, ?_⟩
  · rw [Ne, List.take_eq_nil_iff]
    exact not_or.mpr ⟨Nat.ne_of_gt hk, hdigits.1⟩
  · rw [List.head?_take, if_neg (Nat.ne_of_gt hk)]
    exact head?_significant hn

/-- The digits behind a point are a run of digits. -/
theorem isDigits_drop {k : Nat} (hk : k < (significant n).length) :
    IsDigits ((significant n).drop k) :=
  ⟨mt List.drop_eq_nil_iff.mp (Nat.not_le.mpr hk),
    fun _ hc => isDigit_of_mem_significant (List.mem_of_mem_drop hc)⟩

section Places

variable (hn : 0 < n) (hplace : e + digitCount n = place)
include hn hplace

/-- A number just below one is written with zeros between the point and its digits. -/
theorem spellsNumber_zeros (hhigh : place ≤ 0) :
    SpellsNumber (.float (ofDecimal negative n (digitCount n) e))
      (minus negative ++ ("0.".toList ++ List.replicate (-place).toNat '0' ++ significant n)) := by
  have hdigits : IsDigits (List.replicate (-place).toNat '0' ++ significant n) := by
    refine ⟨List.append_ne_nil_of_right_ne_nil _ (isWhole_significant hn).1.1, fun c hc => ?_⟩
    rcases List.mem_append.mp hc with hc | hc
    · rw [(List.mem_replicate.mp hc).2]
      rfl
    · exact isDigit_of_mem_significant hc
  have hdigitsValue : digitsValue (['0'] ++ (List.replicate (-place).toNat '0' ++ significant n)) =
      digitsValue (significant n) := by
    rw [← List.append_assoc, show (['0'] : Text) = List.replicate 1 '0' from rfl,
      List.replicate_append_replicate, digitsValue_zeros_append]
  have hpower : (0 : Int) - (List.replicate (-place).toNat '0' ++ significant n).length =
      place - (significant n).length := by
    rw [List.length_append, List.length_replicate]
    omega
  have h := spellsNumber_of_value (n := n) (e := e) negative hn (.inl rfl)
    (.point hdigits) .none (List.append_ne_nil_of_left_ne_nil (List.cons_ne_nil _ _) _)
    (by rw [hdigitsValue, significant_value n e, hplace, Option.getD_none, hpower])
  simp only [List.append_assoc, List.append_nil] at h ⊢
  exact h

/-- A number that is whole is written with a zero behind the point. -/
theorem spellsNumber_whole (hlength : (significant n).length ≤ place.toNat) :
    SpellsNumber (.float (ofDecimal negative n (digitCount n) e))
      (minus negative ++ (significant n ++
        List.replicate (place.toNat - (significant n).length) '0' ++ ".0".toList)) := by
  set zeros := List.replicate (place.toNat - (significant n).length) '0' with hzeros
  obtain ⟨hdigits, hwhole⟩ := isWhole_significant hn
  have hpos : 0 < (significant n).length := List.length_pos_of_ne_nil hdigits.1
  have hwhole' : IsWhole (significant n ++ zeros) := by
    refine .inr ⟨⟨List.append_ne_nil_of_left_ne_nil hdigits.1 _, fun c hc => ?_⟩, ?_⟩
    · rcases List.mem_append.mp hc with hc | hc
      · exact hdigits.2 c hc
      · rw [(List.mem_replicate.mp hc).2]
        rfl
    · rw [List.head?_append_of_ne_nil _ hdigits.1]
      exact head?_significant hn
  have hdigitsValue : digitsValue (significant n ++ zeros ++ ['0']) =
      digitsValue (significant n) * 10 ^ (place.toNat - (significant n).length + 1) := by
    rw [List.append_assoc, show (['0'] : Text) = List.replicate 1 '0' from rfl, hzeros,
      List.replicate_append_replicate, digitsValue_append_zeros]
  have hvalue : (digitsValue (significant n ++ zeros ++ ['0']) * 10 ^ ((0 : Int) - 1) : ℚ) =
      n * 10 ^ e := by
    rw [hdigitsValue, significant_value n e, hplace, Nat.cast_mul, Nat.cast_pow, mul_assoc,
      Nat.cast_ofNat, ← zpow_natCast, ← zpow_add₀ (by norm_num)]
    congr 2
    omega
  have h := spellsNumber_of_value (n := n) (e := e) negative hn hwhole'
    (.point isDigits_zero) .none
    (List.append_ne_nil_of_left_ne_nil (List.cons_ne_nil _ _) _) hvalue
  simp only [List.append_assoc, List.append_nil] at h ⊢
  exact h

/-- A number in the middle of the range is written with the point among its digits. -/
theorem spellsNumber_point (hlow : 0 < place)
    (hlength : place.toNat < (significant n).length) :
    SpellsNumber (.float (ofDecimal negative n (digitCount n) e))
      (minus negative ++ ((significant n).take place.toNat ++
        '.' :: (significant n).drop place.toNat)) := by
  have h := spellsNumber_of_value (n := n) (e := e) negative hn
    (isWhole_take hn (k := place.toNat) (by omega)) (.point (isDigits_drop hlength))
    .none (List.append_ne_nil_of_left_ne_nil (List.cons_ne_nil _ _) _)
    (value_take_drop hplace hlength.le (by rw [Option.getD_none]; omega))
  simp only [List.append_assoc, List.append_nil] at h ⊢
  exact h

/-- A number far from one is written with one digit in front of the point. -/
theorem spellsNumber_exponent {size : Text} (hsize : SpellsPower (some (place - 1)) size) :
    SpellsNumber (.float (ofDecimal negative n (digitCount n) e))
      (minus negative ++ ((significant n).take 1 ++
        (if (significant n).length = 1 then [] else ['.']) ++ (significant n).drop 1 ++ size)) := by
  have hpos : 0 < (significant n).length := List.length_pos_of_ne_nil (isWhole_significant hn).1.1
  have hne : size ≠ [] := hsize.ne_nil rfl
  have hpart : SpellsFraction ((significant n).drop 1)
      ((if (significant n).length = 1 then [] else ['.']) ++ (significant n).drop 1) := by
    split
    · rename_i hone
      rw [List.drop_eq_nil_of_le hone.le]
      exact .none
    · exact .point (isDigits_drop (by omega))
  have h := spellsNumber_of_value (n := n) (e := e) negative hn
    (isWhole_take hn Nat.one_pos) hpart hsize (List.append_ne_nil_of_right_ne_nil _ hne)
    (value_take_drop hplace hpos (by rw [Option.getD_some]; omega))
  simp only [List.append_assoc] at h ⊢
  exact h

end Places

/-- Digits in shortest notation spell the decimal number that they are. -/
theorem spellsNumber_toText (negative : Bool) (s : Scientific) :
    SpellsNumber (.float (ofDecimal negative s.digits (digitCount s.digits) s.exponent))
      (minus negative ++ s.toText) := by
  rw [toText_eq]
  dsimp only
  have hplace : s.exponent + digitCount s.digits = digitCount s.digits + s.exponent :=
    Int.add_comm ..
  split
  · rename_i hnil
    have hzero : s.digits = 0 := significant_eq_nil_iff.mp hnil
    have hvalue : ofDecimal negative s.digits (digitCount s.digits) s.exponent =
        nearest negative ['0'] ['0'] 0 := by
      have hzeros : digitsValue ((['0'] ++ ['0']).dropWhile (· = '0')) = 0 := rfl
      simp only [hzero, nearest, hzeros, ofDecimal, if_true]
    rw [hvalue]
    have h := @SpellsNumber.float negative ['0'] _ _ _ _ (.inl rfl) (.point isDigits_zero) .none
      (List.cons_ne_nil _ _)
    simp only [List.append_assoc, List.append_nil] at h ⊢
    exact h
  · rename_i hne
    have hn : 0 < s.digits := Nat.pos_of_ne_zero (mt significant_eq_nil_iff.mpr hne)
    split
    · split
      · exact spellsNumber_zeros hn hplace ‹_›
      · split
        · exact spellsNumber_whole hn hplace ‹_›
        · exact spellsNumber_point hn hplace (by omega) (by omega)
    · exact spellsNumber_exponent hn hplace (spellsPower_of_size _)

/-- A finite number of the binary format is spelled by its shortest notation. -/
theorem spellsNumber_decimalText {x : Binary64} (hx : x.isFinite = true) :
    SpellsNumber (.float x) (decimalText x) := by
  have hnumber : x.isNaN = false := by
    simp only [isFinite, isNaN, decide_eq_true_eq, decide_eq_false_iff_not] at hx ⊢
    omega
  have h := spellsNumber_toText x.isNegative (shortest x)
  rw [ofDecimal_shortest hx] at h
  rw [decimalText, hnumber, hx]
  exact h

end Playable.Json
