import Mathlib.Tactic.Common
import Playable.Literal.Scan

/-!
# The grammar of balanced literals

A literal is an opening character, a sequence of items and the closing character
that belongs to the opening one. An item is a literal again, a quoted string, a
regular expression, a slash that divides, or one other character. Which of the
two a slash is depends on the text in front of it, so the text in front is an
argument of the grammar. Nothing here mentions the stack of contexts that a scan
keeps.
-/

namespace Playable.Literal

/-- The last character of a text that is not blank. -/
def lastSolid? (before : Text) : Option Char :=
  (before.filter (!Text.isBlank ·)).getLast?

/-- A slash behind this text opens a regular expression: the nearest character in
front of it that is not blank is an operator or an opening character. -/
def ExpectsValue (before : Text) : Prop :=
  ∃ c, lastSolid? before = some c ∧
    c ∈ ['(', ',', '=', ':', '[', '!', '&', '|', '?', '{', '}', ';']

/-- An opening character and the closing character that belongs to it. -/
inductive Paired : Char → Char → Prop where
  /-- Braces. -/
  | braces : Paired '{' '}'
  /-- Brackets. -/
  | brackets : Paired '[' ']'

/-- What may stand between two marks: a backslash with any character behind it, or
any other character than the mark. -/
inductive Verbatim (mark : Char) : Text → Prop where
  /-- Nothing. -/
  | nil : Verbatim mark []
  /-- A protected character. -/
  | escape {c : Char} {s : Text} (hs : Verbatim mark s) : Verbatim mark ('\\' :: c :: s)
  /-- A character that stands for itself. -/
  | plain {c : Char} {s : Text} (hmark : c ≠ mark) (hescape : c ≠ '\\')
      (hs : Verbatim mark s) : Verbatim mark (c :: s)

/-- A sequence of items of a literal that ends at `closer`, behind the text
`before`. -/
inductive Items : Char → Text → Text → Prop where
  /-- No items. -/
  | nil {closer : Char} {before : Text} : Items closer before []
  /-- A literal inside the literal. -/
  | nested {closer opener inner : Char} {before body rest : Text} (hpair : Paired opener inner)
      (hbody : Items inner (before ++ [opener]) body)
      (hrest : Items closer (before ++ (opener :: body ++ [inner])) rest) :
      Items closer before (opener :: body ++ inner :: rest)
  /-- A quoted string. -/
  | quoted {closer : Char} {before body rest : Text} (hbody : Verbatim '"' body)
      (hrest : Items closer (before ++ ('"' :: body ++ ['"'])) rest) :
      Items closer before ('"' :: body ++ '"' :: rest)
  /-- A regular expression, only where a value may stand. -/
  | regex {closer : Char} {before body rest : Text} (hvalue : ExpectsValue before)
      (hbody : Verbatim '/' body)
      (hrest : Items closer (before ++ ('/' :: body ++ ['/'])) rest) :
      Items closer before ('/' :: body ++ '/' :: rest)
  /-- A slash that divides, only where no value may stand. -/
  | division {closer : Char} {before rest : Text} (hvalue : ¬ ExpectsValue before)
      (hrest : Items closer (before ++ ['/']) rest) : Items closer before ('/' :: rest)
  /-- Any other character; a closer of the other kind is one of them. -/
  | plain {closer c : Char} {before rest : Text} (hcloser : c ≠ closer)
      (hopener : c ∉ ['{', '[', '"', '/']) (hrest : Items closer (before ++ [c]) rest) :
      Items closer before (c :: rest)

/-- A literal behind the text `before`. -/
def IsLiteral (before literal : Text) : Prop :=
  ∃ opener closer items, Paired opener closer ∧ Items closer (before ++ [opener]) items ∧
    literal = opener :: items ++ [closer]

/-- A text ends with its last character, unless that is blank. -/
@[simp] theorem lastSolid?_append_singleton (before : Text) (c : Char) :
    lastSolid? (before ++ [c]) = if Text.isBlank c then lastSolid? before else some c := by
  unfold lastSolid?
  rw [List.filter_append]
  cases hc : Text.isBlank c <;> simp [hc]

/-- Whether a value may stand is decided by the last solid character. -/
theorem expectsValue_iff {before : Text} {last : Char} (h : lastSolid? before = some last) :
    ExpectsValue before ↔ last ∈ regexPreceders := by
  unfold ExpectsValue
  rw [h]
  exact ⟨fun ⟨c, hc, hm⟩ => Option.some.inj hc ▸ hm, fun hm => ⟨last, rfl, hm⟩⟩

/-- The closing character of a pair is not blank. -/
theorem Paired.closer_solid {opener closer : Char} (h : Paired opener closer) :
    Text.isBlank closer = false := by
  cases h <;> decide

/-- The opening character of a pair is not blank. -/
theorem Paired.opener_solid {opener closer : Char} (h : Paired opener closer) :
    Text.isBlank opener = false := by
  cases h <;> decide

/-- Sequences of items stand one behind the other. -/
theorem Items.append {closer : Char} {before s t : Text} (hs : Items closer before s)
    (ht : Items closer (before ++ s) t) : Items closer before (s ++ t) := by
  induction hs with
  | nil => simpa using ht
  | nested hpair hbody _ _ ih =>
    simpa using Items.nested hpair hbody (ih (by simpa using ht))
  | quoted hbody _ ih => simpa using Items.quoted hbody (ih (by simpa using ht))
  | regex hvalue hbody _ ih => simpa using Items.regex hvalue hbody (ih (by simpa using ht))
  | division hvalue _ ih => exact Items.division hvalue (ih (by simpa using ht))
  | plain hcloser hopener _ ih => exact Items.plain hcloser hopener (ih (by simpa using ht))

/-- Characters that neither open nor close anything are items one by one. -/
theorem Items.ofPlain {closer : Char} {before s : Text}
    (h : ∀ c ∈ s, c ≠ closer ∧ c ∉ ['{', '[', '"', '/']) : Items closer before s := by
  induction s generalizing before with
  | nil => exact Items.nil
  | cons c s ih =>
    obtain ⟨hcloser, hopener⟩ := h c List.mem_cons_self
    exact Items.plain hcloser hopener (ih fun d hd => h d (List.mem_cons_of_mem c hd))

/-- A literal is an item of any literal around it. -/
theorem IsLiteral.items {closer : Char} {before literal : Text}
    (h : IsLiteral before literal) : Items closer before literal := by
  obtain ⟨opener, inner, body, hpair, hbody, rfl⟩ := h
  exact Items.nested hpair hbody Items.nil

end Playable.Literal
