import Playable.Proofs.Json.Spelling
import Playable.Proofs.Literal.Acceptance
import Playable.Proofs.Literal.Part

/-!
# Spelled values are literals

Reading a literal knows nothing of structured values: it also has regular
expressions, division and closers without an opener. A spelled value gives no
occasion for them, because a slash, a brace or a bracket can only stand inside a
string or belong to an object or a list. So every text of a value is a sequence of
items, whatever literal it stands in, and the text of an object or a list is one
literal.
-/

namespace Playable.Json

open Literal

variable {s : Text} {t : RawText}

/-- Blanks between tokens are quiet. -/
theorem IsGap.quiet (h : IsGap s) : ∀ c ∈ s, IsQuiet c := by
  intro c hc
  have hgap := h c hc
  simp only [List.mem_cons, List.not_mem_nil, or_false] at hgap
  rcases hgap with rfl | rfl | rfl | rfl <;> (unfold IsQuiet; decide)

/-- A hexadecimal digit is neither a quote nor a backslash. -/
theorem hexValue?_ne {c : Char} {n : Nat} (h : Text.hexValue? c = some n) :
    c ≠ '"' ∧ c ≠ '\\' := by
  have hquote : Text.hexValue? '"' = none := by decide
  have hescape : Text.hexValue? '\\' = none := by decide
  constructor <;> rintro rfl <;> simp_all

/-- Four hexadecimal digits are verbatim text. -/
theorem verbatim_of_hex4? {a b c d : Char} {n : Nat} (h : hex4? a b c d = some n)
    (hs : Verbatim '"' s) : Verbatim '"' (a :: b :: c :: d :: s) := by
  simp only [hex4?, Option.pure_def, Option.bind_eq_bind, Option.bind_eq_some_iff] at h
  obtain ⟨_, ha, _, hb, _, hc, _, hd, _⟩ := h
  exact .plain (hexValue?_ne ha).1 (hexValue?_ne ha).2 <|
    .plain (hexValue?_ne hb).1 (hexValue?_ne hb).2 <|
    .plain (hexValue?_ne hc).1 (hexValue?_ne hc).2 <|
    .plain (hexValue?_ne hd).1 (hexValue?_ne hd).2 hs

/-- Whatever a string holds, what is written between its quotes is verbatim text. -/
theorem SpellsChars.verbatim (h : SpellsChars t s) : Verbatim '"' s := by
  induction h with
  | nil => exact .nil
  | plain _ hquote hescape _ ih => exact .plain hquote hescape ih
  | short _ _ ih => exact .escape ih
  | unit hn _ _ ih => exact .escape (verbatim_of_hex4? hn ih)
  | pair hhigh hlow _ _ ih =>
    exact .escape (verbatim_of_hex4? hhigh (.escape (verbatim_of_hex4? hlow ih)))

/-- A string is one item. -/
theorem SpellsText.isPart (h : SpellsText t s) : IsPart s := by
  obtain ⟨body, hbody, rfl⟩ := h
  exact isPart_of_verbatim hbody.verbatim

/-- A number is quiet. -/
theorem SpellsNumber.quiet {v : Value} (h : SpellsNumber v s) : ∀ c ∈ s, IsQuiet c := by
  intro c hc
  have hnumber := h.isNumberChar c hc
  simp only [Json.isNumberChar, Bool.or_eq_true, decide_eq_true_eq, List.mem_cons,
    List.not_mem_nil, or_false] at hnumber
  rcases hnumber with hdigit | rfl | rfl | rfl | rfl | rfl
  · exact isQuiet_of_isDigit hdigit
  all_goals decide

/-- Blanks between tokens are a part of any literal. -/
theorem IsGap.isPart (h : IsGap s) : IsPart s :=
  isPart_of_quiet h.quiet

mutual

/-- The text of a value is a part of any literal. -/
theorem Spells.isPart {v : Value} {s : Text} (h : Spells v s) : IsPart s :=
  match h with
  | .null => isPart_of_quiet (by simp [IsQuiet])
  | .boolTrue => isPart_of_quiet (by simp [IsQuiet])
  | .boolFalse => isPart_of_quiet (by simp [IsQuiet])
  | .number hs => isPart_of_quiet hs.quiet
  | .text hs => hs.isPart
  | .empty hgap => isPart_of_isLiteral hgap.isPart.bracketed
  | .list hs => isPart_of_isLiteral hs.isPart.bracketed
  | .bare hgap => isPart_of_isLiteral hgap.isPart.braced
  | .object hs => isPart_of_isLiteral hs.isPart.braced

/-- The items of a list are a part of any literal. -/
theorem SpellsItems.isPart {values : List Value} {s : Text} (h : SpellsItems values s) :
    IsPart s :=
  match h with
  | .last hfront hv hback => (hfront.isPart.append hv.isPart).append hback.isPart
  | .cons hfront hv hback hmore =>
    ((hfront.isPart.append hv.isPart).append hback.isPart).append
      (hmore.isPart.cons (by simp [IsQuiet]))

/-- The fields of an object are a part of any literal. -/
theorem SpellsFields.isPart {fields : List (Text × Value)} {s : Text}
    (h : SpellsFields fields s) : IsPart s :=
  match h with
  | .last hfront hname hmid hgap hv hback =>
    ((((hfront.isPart.append hname.isPart).append hmid.isPart).append
      (hgap.isPart.cons (by simp [IsQuiet]))).append hv.isPart).append hback.isPart
  | .cons hfront hname hmid hgap hv hback hmore =>
    (((((hfront.isPart.append hname.isPart).append hmid.isPart).append
      (hgap.isPart.cons (by simp [IsQuiet]))).append hv.isPart).append hback.isPart).append
      (hmore.isPart.cons (by simp [IsQuiet]))

end

/-- Whether a value is an object or a list. -/
def Value.isCompound : Value → Bool
  | .list _ => true
  | .object _ => true
  | _ => false

/-- A raw text is neither an object nor a list. -/
theorem Value.isCompound_ofRaw (t : RawText) : (ofRaw t).isCompound = false := by
  obtain ⟨s, -, h⟩ | ⟨b, -, h⟩ := ofRaw_cases t <;> rw [h] <;> rfl

/-- A number is neither an object nor a list. -/
theorem SpellsNumber.not_isCompound {v : Value} (h : SpellsNumber v s) : v.isCompound = false := by
  cases h <;> rfl

/-- The text of an object or a list is a literal. -/
theorem Spells.isLiteral {v : Value} (h : Spells v s) (hv : v.isCompound = true)
    (before : Text) : IsLiteral before s := by
  cases h with
  | null => cases hv
  | boolTrue => cases hv
  | boolFalse => cases hv
  | number hs => rw [hs.not_isCompound] at hv; cases hv
  | text => rw [Value.isCompound_ofRaw] at hv; cases hv
  | empty hgap => exact hgap.isPart.bracketed before
  | list hs => exact hs.isPart.bracketed before
  | bare hgap => exact hgap.isPart.braced before
  | object hs => exact hs.isPart.braced before

/-- The text of an object or a list is read whole and never overrun, whatever stands
in front of it and behind it. -/
theorem readAt_of_spells {v : Value} {s : Text} (h : Spells v s) (hv : v.isCompound = true)
    (before rest : Text) : readAt (before ++ s ++ rest) before.length = .ok s := by
  rw [readAt_eq_ok_iff, List.append_assoc, List.drop_left, List.take_left]
  exact ⟨List.prefix_append s rest, h.isLiteral hv before⟩

/-- An object whose text holds an escaped quote, a bracket and an escaped slash in a
string, between an opening brace and closers that belong to nothing. -/
theorem readAt_of_spells_escaped_quote :
    Spells (.object [("k".toList, .list [.text "\"]/".toList, .int (-1)])])
      "\x7b\"k\" :[\"\\\"]\\/\", -1]\x7d".toList ∧
    readAt ("x=\x7b".toList ++ "\x7b\"k\" :[\"\\\"]\\/\", -1]\x7d".toList ++ "]\x7d".toList) 3 =
      .ok "\x7b\"k\" :[\"\\\"]\\/\", -1]\x7d".toList := by
  have hgap : IsGap [] := by simp [IsGap]
  have hspace : IsGap [' '] := by simp [IsGap]
  have hname : SpellsText (Text.raw ['k']) ['"', 'k', '"'] :=
    ⟨['k'], .plain (by decide) (by decide) (by decide) .nil, rfl⟩
  have htext : SpellsText (Text.raw ['"', ']', '/']) ['"', '\\', '"', ']', '\\', '/', '"'] := by
    refine ⟨['\\', '"', ']', '\\', '/'], ?_, rfl⟩
    exact .short (by decide) (.plain (by decide) (by decide) (by decide) (.short (by decide) .nil))
  have hnumber : SpellsNumber (.int (-1)) ['-', '1'] :=
    @SpellsNumber.int true ['1'] (.inr ⟨⟨by decide, Text.forall_mem_of_all (by decide)⟩, by decide⟩)
  have hitems : SpellsItems [.text ['"', ']', '/'], .int (-1)]
      ['"', '\\', '"', ']', '\\', '/', '"', ',', ' ', '-', '1'] :=
    .cons hgap (.ofText htext) hgap (.last hspace (.number hnumber) hgap)
  have hfields := SpellsFields.last hgap hname hspace hgap (Spells.list hitems) hgap
  exact ⟨Spells.object hfields,
    readAt_of_spells (Spells.object hfields) rfl "x=\x7b".toList "]\x7d".toList⟩

end Playable.Json
