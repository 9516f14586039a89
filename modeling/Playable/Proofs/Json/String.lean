import Playable.Json.Writer
import Playable.Proofs.Json.Spelling

/-!
# Strings are read back

A spelled string is read up to its closing quote, whatever stands behind it. A text is written
as such a string: the escape of one code unit is never the first half of a surrogate pair,
because no character has the number of one.
-/

namespace Playable.Json

variable {c : Char} {n : Nat} {s rest : Text} {t : RawText}

/-! ## Reading -/

/-- A character that stands for itself is read as it is. -/
theorem stringFrom_plain (hcontrol : 32 ≤ c.toNat) (hquote : c ≠ '"') (hescape : c ≠ '\\')
    (read : RawText) (rest : Text) :
    stringFrom read (c :: rest) = stringFrom (.char c :: read) rest := by
  have hplain : ¬ (c.toNat < 32 ∨ c = '\\') := not_or.mpr ⟨Nat.not_lt.mpr hcontrol, hescape⟩
  rw [stringFrom, if_neg hplain]
  · exact hquote
  · exact fun _ _ _ _ _ _ _ _ _ h _ => hescape h
  · exact fun _ _ _ _ _ h _ => hescape h
  · exact fun _ _ h _ => hescape h

/-- A short escape is read as the character that it stands for. -/
theorem stringFrom_short {e : Char} (he : shortEscape? e = some c) (read : RawText)
    (rest : Text) : stringFrom read ('\\' :: e :: rest) = stringFrom (.char c :: read) rest := by
  have hne : e ≠ 'u' := by
    rintro rfl
    cases he
  rw [stringFrom, he]
  · exact fun _ _ _ _ _ _ _ _ _ h _ => hne h
  · exact fun _ _ _ _ _ h _ => hne h

/-- Two escapes of a surrogate pair are read as one character. -/
theorem stringFrom_pair {a b c d a' b' c' d' : Char} {high low : Nat}
    (hhigh : hex4? a b c d = some high) (hlow : hex4? a' b' c' d' = some low)
    (hpair : isHighSurrogate high = true ∧ isLowSurrogate low = true) (read : RawText)
    (rest : Text) :
    stringFrom read
        ('\\' :: 'u' :: a :: b :: c :: d :: '\\' :: 'u' :: a' :: b' :: c' :: d' :: rest) =
      stringFrom (.char (ofSurrogates high low) :: read) rest := by
  have hboth : (isHighSurrogate high && isLowSurrogate low) = true := by
    rw [hpair.1, hpair.2, Bool.and_self]
  rw [stringFrom, hhigh, hlow]
  exact if_pos hboth

/-- The rest of a string begins with an escape of a code unit only if it is spelled with one. -/
theorem SpellsChars.unit_digits {a b c d : Char} {more : Text} (h : SpellsChars t s)
    (hrest : rest.head? ≠ some '\\')
    (hs : s ++ rest = '\\' :: 'u' :: a :: b :: c :: d :: more) :
    ∃ n tail, hex4? a b c d = some n ∧ s = '\\' :: 'u' :: a :: b :: c :: d :: tail := by
  cases h with
  | nil =>
    rw [List.nil_append] at hs
    exact absurd (congrArg List.head? hs) hrest
  | plain _ _ hescape _ =>
    rw [List.cons_append, List.cons.injEq] at hs
    exact absurd hs.1 hescape
  | short he _ =>
    simp only [List.cons_append, List.cons.injEq, true_and] at hs
    rw [hs.1] at he
    cases he
  | unit hn _ _ =>
    simp only [List.cons_append, List.cons.injEq, true_and] at hs
    obtain ⟨rfl, rfl, rfl, rfl, -⟩ := hs
    exact ⟨_, _, hn, rfl⟩
  | pair hhigh _ _ _ =>
    simp only [List.cons_append, List.cons.injEq, true_and] at hs
    obtain ⟨rfl, rfl, rfl, rfl, -⟩ := hs
    exact ⟨_, _, hhigh, rfl⟩

/-- The escape of a code unit is read as its code point, if it is not the first half of a pair. -/
theorem stringFrom_unit {a b c d : Char} (hn : hex4? a b c d = some n) (hs : SpellsChars t s)
    (hpair : isHighSurrogate n = true → ¬ ContinuesLow s) (hrest : rest.head? ≠ some '\\')
    (read : RawText) :
    stringFrom read ('\\' :: 'u' :: a :: b :: c :: d :: (s ++ rest)) =
      stringFrom (ofEscape n :: read) (s ++ rest) := by
  by_cases hnext : ∃ a' b' c' d' more, s ++ rest = '\\' :: 'u' :: a' :: b' :: c' :: d' :: more
  · obtain ⟨a', b', c', d', more, hmore⟩ := hnext
    obtain ⟨m, tail, hm, htail⟩ := hs.unit_digits hrest hmore
    have hnone : ¬ ((isHighSurrogate n && isLowSurrogate m) = true) := by
      rw [Bool.and_eq_true]
      rintro ⟨hhigh, hlow⟩
      exact hpair hhigh ⟨a', b', c', d', m, tail, htail, hm, hlow⟩
    rw [hmore, stringFrom, hn, hm]
    exact if_neg hnone
  · rw [stringFrom, hn]
    exact fun a' b' c' d' more h => hnext ⟨a', b', c', d', more, h⟩

/-- Spelled characters are read in front of whatever does not begin with another escape. -/
theorem stringFrom_append_of_spells (h : SpellsChars t s) (hrest : rest.head? ≠ some '\\')
    (read : RawText) : stringFrom read (s ++ rest) = stringFrom (t.reverse ++ read) rest := by
  have hreverse : ∀ (c : CodePoint) (read t : RawText),
      (c :: t).reverse ++ read = t.reverse ++ c :: read := fun c read t => by
    rw [List.reverse_cons, List.append_assoc, List.singleton_append]
  induction h generalizing read with
  | nil => rfl
  | plain hcontrol hquote hescape _ ih =>
    rw [List.cons_append, stringFrom_plain hcontrol hquote hescape, ih, hreverse]
  | short he _ ih =>
    rw [List.cons_append, List.cons_append, stringFrom_short he, ih, hreverse]
  | unit hn hpair hs ih =>
    simp only [List.cons_append]
    rw [stringFrom_unit hn hs hpair hrest, ih, hreverse]
  | pair hhigh hlow hpair _ ih =>
    simp only [List.cons_append]
    rw [stringFrom_pair hhigh hlow hpair, ih, hreverse]

/-- A spelled string is read up to its closing quote. -/
theorem stringFrom_of_spells (h : SpellsChars t s) (read : RawText) (rest : Text) :
    stringFrom read (s ++ '"' :: rest) = some (read.reverse ++ t, rest) := by
  have hclosed : ('"' :: rest).head? ≠ some '\\' := by simp
  rw [stringFrom_append_of_spells h hclosed, stringFrom, List.reverse_append, List.reverse_reverse]

/-- A string that is not closed is not read. -/
theorem stringFrom_of_unclosed (h : SpellsChars t s) (read : RawText) :
    stringFrom read s = none := by
  have hend : ([] : Text).head? ≠ some '\\' := nofun
  have hread := stringFrom_append_of_spells h hend read
  rwa [List.append_nil, stringFrom] at hread

/-! ## Writing -/

/-- A hexadecimal digit has its value. -/
theorem hexValue?_digitChar : ∀ d < 16, Text.hexValue? (Nat.digitChar d) = some d := by
  decide

/-- A code unit is written by four hexadecimal digits. -/
theorem exists_unitEscape (h : n < 65536) :
    ∃ a b c d, unitEscape n = ['\\', 'u', a, b, c, d] ∧ hex4? a b c d = some n := by
  refine ⟨_, _, _, _, rfl, ?_⟩
  have hdigit : ∀ m, Text.hexValue? (Nat.digitChar (m % 16)) = some (m % 16) :=
    fun m => hexValue?_digitChar _ (Nat.mod_lt _ (by decide))
  simp only [hex4?, hdigit, Option.pure_def, Option.bind_eq_bind, Option.bind_some,
    Option.some.injEq]
  rw [show Nat.pow 16 3 = 4096 from rfl, show Nat.pow 16 2 = 256 from rfl,
    show Nat.pow 16 1 = 16 from rfl, show Nat.pow 16 0 = 1 from rfl]
  omega

/-- The number of a character is not half of a surrogate pair. -/
theorem not_surrogate (c : Char) : c.toNat < 0xD800 ∨ 0xDFFF < c.toNat ∧ c.toNat < 0x110000 :=
  c.valid

/-- A character of one code unit is the one that its escape stands for. -/
theorem ofEscape_toNat (c : Char) : ofEscape c.toNat = .char c := by
  have hvalid : c.toNat.isValidChar := c.valid
  rw [ofEscape, if_pos hvalid, Char.ofNat_toNat]

/-- A character of two code units is the one that their escapes stand for. -/
theorem ofSurrogates_toNat (h : 0x10000 ≤ c.toNat) :
    ofSurrogates (0xD800 + (c.toNat - 0x10000) / 0x400)
      (0xDC00 + (c.toNat - 0x10000) % 0x400) = c := by
  have hsum : 0x10000 + (0xD800 + (c.toNat - 0x10000) / 0x400 - 0xD800) * 0x400 +
      (0xDC00 + (c.toNat - 0x10000) % 0x400 - 0xDC00) = c.toNat := by
    omega
  rw [ofSurrogates, hsum, Char.ofNat_toNat]

/-- The letters of the short escapes that are written. -/
def shortLetters : List Char :=
  ['"', '\\', 'n', 'r', 't', 'b', 'f']

/-- A character is written by a short escape, as itself, or by the escapes of its one or two code
units. -/
theorem writeChar_cases (c : Char) :
    (∃ e ∈ shortLetters, shortEscape? e = some c ∧ writeChar c = ['\\', e]) ∨
    (writeChar c = [c] ∧ 32 ≤ c.toNat ∧ c.toNat < 127 ∧ c ≠ '"' ∧ c ≠ '\\') ∨
    (writeChar c = unitEscape c.toNat ∧ c.toNat < 0x10000) ∨
    (writeChar c = unitEscape (0xD800 + (c.toNat - 0x10000) / 0x400) ++
      unitEscape (0xDC00 + (c.toNat - 0x10000) % 0x400) ∧ 0x10000 ≤ c.toNat) := by
  rw [writeChar]
  split
  · subst c
    exact .inl ⟨'"', by decide, rfl, rfl⟩
  split
  · subst c
    exact .inl ⟨'\\', by decide, rfl, rfl⟩
  split
  · subst c
    exact .inl ⟨'n', by decide, rfl, rfl⟩
  split
  · subst c
    exact .inl ⟨'r', by decide, rfl, rfl⟩
  split
  · subst c
    exact .inl ⟨'t', by decide, rfl, rfl⟩
  split
  · subst c
    exact .inl ⟨'b', by decide, rfl, rfl⟩
  split
  · subst c
    exact .inl ⟨'f', by decide, rfl, rfl⟩
  split
  · rename_i hplain
    exact .inr (.inl ⟨rfl, hplain.1, hplain.2, ‹_›, ‹_›⟩)
  split
  · exact .inr (.inr (.inl ⟨rfl, ‹_›⟩))
  · rename_i hunit
    exact .inr (.inr (.inr ⟨rfl, Nat.le_of_not_lt hunit⟩))

/-- Only a quote is written with a quote. -/
theorem quote_not_mem_writeChar (h : c ≠ '"') : '"' ∉ writeChar c := by
  have hunit (n : Nat) : '"' ∉ unitEscape n := by simp [unitEscape, Text.hexDigits]
  rcases writeChar_cases c with ⟨e, -, he, hwrite⟩ | ⟨hwrite, -⟩ | ⟨hwrite, -⟩ | ⟨hwrite, -⟩
  · have hletter : e ≠ '"' := by
      rintro rfl
      exact h (Option.some.inj he).symm
    simp [hwrite, hletter.symm]
  · simp [hwrite, h.symm]
  · rw [hwrite]
    exact hunit _
  · rw [hwrite]
    exact List.not_mem_append (hunit _) (hunit _)

/-- A text without quotes is written without quotes between the two around it. -/
theorem quote_not_mem_flatMap_writeChar (h : '"' ∉ s) : '"' ∉ s.flatMap writeChar := by
  rw [List.mem_flatMap]
  rintro ⟨c, hc, hmem⟩
  exact quote_not_mem_writeChar (fun heq => h (heq ▸ hc)) hmem

/-- A character is spelled by what is written for it. -/
theorem SpellsChars.write (c : Char) (h : SpellsChars t s) :
    SpellsChars (.char c :: t) (writeChar c ++ s) := by
  have hchar := not_surrogate c
  rcases writeChar_cases c with ⟨e, -, he, hwrite⟩ | ⟨hwrite, hcontrol, -, hquote, hescape⟩ |
    ⟨hwrite, hunit⟩ | ⟨hwrite, hunit⟩
  · rw [hwrite]
    exact .short he h
  · rw [hwrite]
    exact .plain hcontrol hquote hescape h
  · obtain ⟨a, b, c', d, hunits, hn⟩ := exists_unitEscape hunit
    have hhigh : isHighSurrogate c.toNat = false := by
      simp only [isHighSurrogate, Bool.and_eq_false_iff, decide_eq_false_iff_not]
      omega
    have hspelled := SpellsChars.unit hn (fun hhigh' => by rw [hhigh] at hhigh'; cases hhigh') h
    rw [ofEscape_toNat] at hspelled
    rw [hwrite, hunits]
    exact hspelled
  · set high := 0xD800 + (c.toNat - 0x10000) / 0x400 with hhigh
    set low := 0xDC00 + (c.toNat - 0x10000) % 0x400 with hlow
    obtain ⟨a, b, c', d, hunits, hn⟩ := exists_unitEscape (show high < 65536 by omega)
    obtain ⟨a', b', c'', d', hunits', hn'⟩ := exists_unitEscape (show low < 65536 by omega)
    have hpair : isHighSurrogate high = true ∧ isLowSurrogate low = true := by
      simp only [isHighSurrogate, isLowSurrogate, Bool.and_eq_true, decide_eq_true_eq]
      omega
    have hspelled := SpellsChars.pair hn hn' hpair h
    rw [hhigh, hlow, ofSurrogates_toNat hunit] at hspelled
    rw [hwrite, hunits, hunits']
    exact hspelled

/-- Characters are spelled by what is written for them. -/
theorem spellsChars_flatMap_writeChar (t : Text) : SpellsChars t.raw (t.flatMap writeChar) := by
  induction t with
  | nil => exact .nil
  | cons c t ih => exact ih.write c

/-- A text is spelled by the string that is written for it. -/
theorem spellsText_writeText (t : Text) : SpellsText t.raw (writeText t) :=
  ⟨t.flatMap writeChar, spellsChars_flatMap_writeChar t, rfl⟩

end Playable.Json
