import Mathlib.Tactic.Common
import Playable.Json.Reader
import Playable.Proofs.Text.Raw

/-!
# How structured values are spelled

The texts of a structured value, as a relation of its own that mentions no reader.
Between tokens any number of blanks may stand; a character of a string may be
written as itself or by any escape that stands for it; a number has many decimal
forms; and of fields with one name the last one counts.
-/

namespace Playable.Json

/-- Blanks that may stand between two tokens. -/
def IsGap (s : Text) : Prop :=
  ∀ c ∈ s, c ∈ [' ', '\t', '\n', '\r']

/-- A sequence of decimal digits that is not empty. -/
def IsDigits (s : Text) : Prop :=
  s ≠ [] ∧ ∀ c ∈ s, c.isDigit = true

/-- The text continues with the escape of the second half of a surrogate pair. -/
def ContinuesLow (s : Text) : Prop :=
  ∃ a b c d n rest, s = '\\' :: 'u' :: a :: b :: c :: d :: rest ∧ hex4? a b c d = some n ∧
    isLowSurrogate n = true

/-- The contents of a string, and how they are written between the quotes. -/
inductive SpellsChars : RawText → Text → Prop where
  /-- Nothing. -/
  | nil : SpellsChars [] []
  /-- A character that stands for itself. -/
  | plain {c : Char} {t : RawText} {s : Text} (hcontrol : 32 ≤ c.toNat) (hquote : c ≠ '"')
      (hescape : c ≠ '\\') (hs : SpellsChars t s) : SpellsChars (.char c :: t) (c :: s)
  /-- A short escape. -/
  | short {e c : Char} {t : RawText} {s : Text} (he : shortEscape? e = some c)
      (hs : SpellsChars t s) : SpellsChars (.char c :: t) ('\\' :: e :: s)
  /-- The escape of one code unit, which is not the first half of a pair. -/
  | unit {a b c d : Char} {n : Nat} {t : RawText} {s : Text} (hn : hex4? a b c d = some n)
      (hpair : isHighSurrogate n = true → ¬ ContinuesLow s) (hs : SpellsChars t s) :
      SpellsChars (ofEscape n :: t) ('\\' :: 'u' :: a :: b :: c :: d :: s)
  /-- The two escapes of a surrogate pair. -/
  | pair {a b c d a' b' c' d' : Char} {high low : Nat} {t : RawText}
      {s : Text} (hhigh : hex4? a b c d = some high) (hlow : hex4? a' b' c' d' = some low)
      (hpair : isHighSurrogate high = true ∧ isLowSurrogate low = true)
      (hs : SpellsChars t s) :
      SpellsChars (.char (ofSurrogates high low) :: t)
        ('\\' :: 'u' :: a :: b :: c :: d :: '\\' :: 'u' :: a' :: b' :: c' :: d' :: s)

/-- A string with its quotes. -/
def SpellsText (t : RawText) (s : Text) : Prop :=
  ∃ body, SpellsChars t body ∧ s = '"' :: body ++ ['"']

/-- The minus sign of a negative number. -/
def minus (negative : Bool) : Text :=
  if negative then ['-'] else []

/-- The digits of a whole number: a zero alone, or digits that begin with another
one. -/
def IsWhole (s : Text) : Prop :=
  s = ['0'] ∨ IsDigits s ∧ s.head? ≠ some '0'

/-- The digits of a fraction, and how they are written. -/
inductive SpellsFraction : Text → Text → Prop where
  /-- No fraction. -/
  | none : SpellsFraction [] []
  /-- A point and digits. -/
  | point {digits : Text} (hdigits : IsDigits digits) : SpellsFraction digits ('.' :: digits)

/-- An exponent, and how it is written. -/
inductive SpellsPower : Option Int → Text → Prop where
  /-- No exponent. -/
  | none : SpellsPower none []
  /-- A mark, perhaps a plus sign, and digits. -/
  | positive {mark : Char} {plus digits : Text} (hmark : mark = 'e' ∨ mark = 'E')
      (hplus : plus = [] ∨ plus = ['+']) (hdigits : IsDigits digits) :
      SpellsPower (some (Number.digitsValue digits)) (mark :: plus ++ digits)
  /-- A mark, a minus sign, and digits. -/
  | negative {mark : Char} {digits : Text} (hmark : mark = 'e' ∨ mark = 'E')
      (hdigits : IsDigits digits) :
      SpellsPower (some (-(Number.digitsValue digits : Int))) (mark :: '-' :: digits)

/-- A number, and how it is written: it is an integer if it has neither a fraction
nor an exponent. -/
inductive SpellsNumber : Value → Text → Prop where
  /-- An integer. -/
  | int {negative : Bool} {whole : Text} (hwhole : IsWhole whole) :
      SpellsNumber
        (.int (if negative then -(Number.digitsValue whole : Int) else Number.digitsValue whole))
        (minus negative ++ whole)
  /-- A number with a fraction, an exponent or both. -/
  | float {negative : Bool} {whole digits fraction exponent : Text} {power : Option Int}
      (hwhole : IsWhole whole) (hfraction : SpellsFraction digits fraction)
      (hpower : SpellsPower power exponent) (hpart : fraction ++ exponent ≠ []) :
      SpellsNumber (.float (Number.nearest negative whole digits (power.getD 0)))
        (minus negative ++ whole ++ fraction ++ exponent)

mutual

/-- A value, and how it is written. -/
inductive Spells : Value → Text → Prop where
  /-- The absent value. -/
  | null : Spells .null "null".toList
  /-- A truth value. -/
  | boolTrue : Spells (.bool true) "true".toList
  /-- The other truth value. -/
  | boolFalse : Spells (.bool false) "false".toList
  /-- A number. -/
  | number {v : Value} {s : Text} (hs : SpellsNumber v s) : Spells v s
  /-- A string. -/
  | text {t : RawText} {s : Text} (hs : SpellsText t s) : Spells (.ofRaw t) s
  /-- A list without items. -/
  | empty {gap : Text} (hgap : IsGap gap) : Spells (.list []) ('[' :: gap ++ [']'])
  /-- A list of items. -/
  | list {values : List Value} {s : Text} (hs : SpellsItems values s) :
      Spells (.list values) ('[' :: s ++ [']'])
  /-- An object without fields. -/
  | bare {gap : Text} (hgap : IsGap gap) : Spells (.object []) ('{' :: gap ++ ['}'])
  /-- An object; of two fields with one name the later one counts. -/
  | object {fields : List (Text × Value)} {s : Text} (hs : SpellsFields fields s) :
      Spells (.object (Register.ofPairs fields)) ('{' :: s ++ ['}'])

/-- Items with commas between them, and how they are written. -/
inductive SpellsItems : List Value → Text → Prop where
  /-- The last item. -/
  | last {v : Value} {front s back : Text} (hfront : IsGap front) (hv : Spells v s)
      (hback : IsGap back) : SpellsItems [v] (front ++ s ++ back)
  /-- An item in front of others. -/
  | cons {v : Value} {values : List Value} {front s back more : Text} (hfront : IsGap front)
      (hv : Spells v s) (hback : IsGap back) (hmore : SpellsItems values more) :
      SpellsItems (v :: values) (front ++ s ++ back ++ ',' :: more)

/-- Fields with commas between them, and how they are written. -/
inductive SpellsFields : List (Text × Value) → Text → Prop where
  /-- The last field. -/
  | last {name : RawText} {v : Value} {front n mid gap s back : Text} (hfront : IsGap front)
      (hname : SpellsText name n) (hmid : IsGap mid) (hgap : IsGap gap) (hv : Spells v s)
      (hback : IsGap back) :
      SpellsFields [(name.toText, v)] (front ++ n ++ mid ++ ':' :: gap ++ s ++ back)
  /-- A field in front of others. -/
  | cons {name : RawText} {v : Value} {fields : List (Text × Value)}
      {front n mid gap s back more : Text} (hfront : IsGap front) (hname : SpellsText name n)
      (hmid : IsGap mid) (hgap : IsGap gap) (hv : Spells v s) (hback : IsGap back)
      (hmore : SpellsFields fields more) :
      SpellsFields ((name.toText, v) :: fields)
        (front ++ n ++ mid ++ ':' :: gap ++ s ++ back ++ ',' :: more)

end

/-- A text is spelled by its string. -/
theorem Spells.ofText {t s : Text} (h : SpellsText t.raw s) : Spells (.text t) s := by
  rw [← Value.ofRaw_raw]
  exact .text h

/-! ## The characters of a number -/

/-- The characters that numbers are made of. -/
def isNumberChar (c : Char) : Bool :=
  c.isDigit || c ∈ ['-', '+', '.', 'e', 'E']

/-- Digits are characters of a number. -/
theorem IsDigits.isNumberChar {s : Text} (h : IsDigits s) : ∀ c ∈ s, isNumberChar c = true :=
  fun c hc => by rw [Json.isNumberChar, h.2 c hc, Bool.true_or]

/-- A zero is a run of digits. -/
theorem isDigits_zero : IsDigits ['0'] :=
  ⟨List.cons_ne_nil _ _, List.forall_mem_singleton.mpr rfl⟩

/-- Whole digits are digits. -/
theorem IsWhole.isDigits {s : Text} (h : IsWhole s) : IsDigits s := by
  rcases h with rfl | ⟨hdigits, _⟩
  · exact isDigits_zero
  · exact hdigits

/-- A fraction is made of characters of a number. -/
theorem SpellsFraction.isNumberChar {digits s : Text} (h : SpellsFraction digits s) :
    ∀ c ∈ s, isNumberChar c = true := by
  cases h with
  | none => simp
  | point hdigits => exact List.forall_mem_cons.mpr ⟨rfl, hdigits.isNumberChar⟩

/-- An exponent is made of characters of a number. -/
theorem SpellsPower.isNumberChar {power : Option Int} {s : Text} (h : SpellsPower power s) :
    ∀ c ∈ s, isNumberChar c = true := by
  have hmark : ∀ c : Char, c = 'e' ∨ c = 'E' → Json.isNumberChar c = true := by
    rintro c (rfl | rfl) <;> rfl
  cases h with
  | none => simp
  | @positive mark plus digits hm hplus hdigits =>
    have hsign : ∀ c ∈ plus, Json.isNumberChar c = true := by
      rcases hplus with rfl | rfl
      · simp
      · exact List.forall_mem_singleton.mpr rfl
    exact List.forall_mem_append.mpr
      ⟨List.forall_mem_cons.mpr ⟨hmark _ hm, hsign⟩, hdigits.isNumberChar⟩
  | negative hm hdigits =>
    exact List.forall_mem_cons.mpr ⟨hmark _ hm, List.forall_mem_cons.mpr
      ⟨rfl, hdigits.isNumberChar⟩⟩

/-- A number is made of its characters. -/
theorem SpellsNumber.isNumberChar {v : Value} {s : Text} (h : SpellsNumber v s) :
    ∀ c ∈ s, isNumberChar c = true := by
  have hminus : ∀ negative, ∀ c ∈ minus negative, Json.isNumberChar c = true := by
    rintro (_ | _)
    · simp [minus]
    · exact List.forall_mem_singleton.mpr rfl
  cases h with
  | int hwhole => exact List.forall_mem_append.mpr ⟨hminus _, hwhole.isDigits.isNumberChar⟩
  | float hwhole hfraction hpower _ =>
    exact List.forall_mem_append.mpr ⟨List.forall_mem_append.mpr ⟨List.forall_mem_append.mpr
      ⟨hminus _, hwhole.isDigits.isNumberChar⟩, hfraction.isNumberChar⟩, hpower.isNumberChar⟩

end Playable.Json
