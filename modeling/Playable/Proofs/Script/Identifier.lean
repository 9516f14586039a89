import Playable.Proofs.Literal.Part
import Playable.Proofs.Pattern.Take
import Playable.Proofs.Text.Cut
import Playable.Script.Entry

/-!
# Identifiers

The identifiers of a player script are made of ASCII letters, digits, underscores and
dollar signs. No such character is blank, opens or closes anything, or ends an identifier,
so an identifier in a text is read whole.
-/

namespace Playable.Script

open Pattern

variable {c d : Char} {t w before rest : Text} {labels : List (String × Text)}

/-- A character of an identifier. -/
def isIdentifierChar (c : Char) : Bool :=
  isIdentifierStart c || c.isDigit

/-- An identifier: the first character is no digit. -/
def IsIdentifier (t : Text) : Prop :=
  t.head?.any isIdentifierStart = true ∧ ∀ c ∈ t, isIdentifierChar c = true

instance (t : Text) : Decidable (IsIdentifier t) :=
  @instDecidableAnd _ _ inferInstance (List.decidableBAll (isIdentifierChar · = true) t)

/-- What starts an identifier is an identifier character. -/
theorem isIdentifierChar_of_isIdentifierStart (h : isIdentifierStart c = true) :
    isIdentifierChar c = true := by
  rw [isIdentifierChar, h, Bool.true_or]

/-- The code points of identifier characters lie between the dollar sign and the last
letter. -/
theorem isIdentifierChar_bounds (h : isIdentifierChar c = true) :
    36 ≤ c.toNat ∧ c.toNat ≤ 122 := by
  simp only [isIdentifierChar, isIdentifierStart, Bool.or_eq_true, decide_eq_true_eq] at h
  rcases h with ((halpha | rfl) | rfl) | hdigit
  · have hbounds := Text.bounds_of_isAlphanum (Bool.or_eq_true_iff.mpr (.inl halpha))
    omega
  · decide
  · decide
  · have hbounds := Text.bounds_of_isAlphanum (Bool.or_eq_true_iff.mpr (.inr hdigit))
    omega

/-- An identifier character is not blank. -/
theorem isBlank_of_isIdentifierChar (h : isIdentifierChar c = true) :
    Text.isBlank c = false := by
  obtain ⟨hlow, hhigh⟩ := isIdentifierChar_bounds h
  exact Text.isBlank_of_bounds (by omega) (by omega)

/-- An identifier character is a word character or the dollar sign. -/
theorem isWordOrDollar_of_isIdentifierChar (h : isIdentifierChar c = true) :
    Text.isWordOrDollar c = true := by
  simp only [isIdentifierChar, isIdentifierStart, Bool.or_eq_true, decide_eq_true_eq] at h
  simp only [Text.isWordOrDollar, Text.isWord, Char.isAlphanum, Bool.or_eq_true,
    decide_eq_true_eq]
  tauto

/-- An identifier character is none of the other characters. -/
theorem ne_of_isIdentifierChar (h : isIdentifierChar c = true)
    (hd : isIdentifierChar d = false) : c ≠ d := by
  rintro rfl
  exact absurd h (by simp [hd])

/-- No literal treats an identifier character specially. -/
theorem isQuiet_of_isIdentifierChar (h : isIdentifierChar c = true) : Literal.IsQuiet c := by
  simp only [Literal.IsQuiet, List.mem_cons, List.not_mem_nil, or_false, not_or]
  exact ⟨ne_of_isIdentifierChar h rfl, ne_of_isIdentifierChar h rfl,
    ne_of_isIdentifierChar h rfl, ne_of_isIdentifierChar h rfl, ne_of_isIdentifierChar h rfl,
    ne_of_isIdentifierChar h rfl⟩

namespace IsIdentifier

/-- An identifier is its first character and the others. -/
theorem exists_cons (h : IsIdentifier t) :
    ∃ c more, t = c :: more ∧ isIdentifierStart c = true := by
  cases t with
  | nil => simp [IsIdentifier] at h
  | cons c more => exact ⟨c, more, rfl, h.1⟩

/-- An identifier is not empty. -/
theorem ne_nil (h : IsIdentifier t) : t ≠ [] := by
  obtain ⟨c, more, rfl, _⟩ := h.exists_cons
  simp

/-- Other characters do not occur in an identifier. -/
theorem not_mem (h : IsIdentifier t) (hd : isIdentifierChar d = false) : d ∉ t :=
  fun hmem => ne_of_isIdentifierChar (h.2 d hmem) hd rfl

/-- An identifier holds no blank. -/
theorem not_blank (h : IsIdentifier t) : ∀ c ∈ t, Text.isBlank c = false :=
  fun c hc => isBlank_of_isIdentifierChar (h.2 c hc)

/-- An identifier is a part of any literal. -/
theorem isPart (h : IsIdentifier t) : Literal.IsPart t :=
  Literal.isPart_of_quiet fun c hc => isQuiet_of_isIdentifierChar (h.2 c hc)

/-- An identifier is read whole in front of a character that cannot belong to it. -/
theorem takes (h : IsIdentifier t) (hrest : rest.head?.any Text.isWordOrDollar = false) :
    identifier.Takes before t rest labels labels := by
  obtain ⟨c, more, rfl, hc⟩ := h.exists_cons
  refine Takes.append (u := [c]) (takes_one hc) (takes_many (fun d hd => ?_) hrest)
  exact isWordOrDollar_of_isIdentifierChar (h.2 d (List.mem_cons_of_mem c hd))

end IsIdentifier

/-- Whatever fits an identifier begins like one. -/
theorem exists_cons_of_fits_identifier (h : identifier.Fits before w rest) :
    ∃ c more, w = c :: more ∧ isIdentifierStart c = true ∧
      ∀ d ∈ more, Text.isWordOrDollar d = true := by
  obtain ⟨_, more, rfl, ⟨c, hc, rfl⟩, hmore⟩ := h
  exact ⟨c, more, rfl, hc, hmore⟩

/-- Whatever fits a text with optional blanks around is the text with blanks around. -/
theorem exists_gaps_of_fits_spaced {s : String} (h : (spaced s).Fits before w rest) :
    ∃ gap gap', w = gap ++ (s.toList ++ gap') ∧ (∀ c ∈ gap, Text.isBlank c = true) ∧
      ∀ c ∈ gap', Text.isBlank c = true := by
  obtain ⟨_, gap', rfl, ⟨gap, _, rfl, hgap, rfl⟩, hgap'⟩ := h
  exact ⟨gap, gap', List.append_assoc .., hgap, hgap'⟩

/-- Without blanks around it, a text with optional blanks around takes itself. -/
theorem takes_spaced (s : String) (hs : s.toList.head?.any Text.isBlank = false)
    (hne : s.toList ≠ []) (hrest : rest.head?.any Text.isBlank = false) :
    (spaced s).Takes before s.toList rest labels labels := by
  have hfront : (s.toList ++ rest).head?.any Text.isBlank = false := by
    obtain ⟨c, more, hcons⟩ := List.exists_cons_of_ne_nil hne
    rw [hcons] at hs ⊢
    exact hs
  exact Takes.append_nil (Takes.nil_append (takes_no_blanks hfront) (takes_lit s))
    (takes_no_blanks hrest)

end Playable.Script
