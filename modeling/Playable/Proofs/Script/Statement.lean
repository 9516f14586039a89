import Mathlib.Data.List.Basic
import Playable.Proofs.Text.Cut
import Playable.Script.Statement

/-!
# Statements in their normal layout

A statement without blanks, or with one space between two words, is in its normal layout
already. A body that is written from such statements has exactly these statements.
-/

namespace Playable.Script

variable {c d : Char} {s t u : Text} {ss : List Text}

/-- A word character is no symbol. -/
theorem isSymbol_of_isWordOrDollar (h : Text.isWordOrDollar c = true) :
    isSymbol c = false := by
  simp [isSymbol, h]

/-- A blank is no symbol. -/
theorem isSymbol_of_isBlank (h : Text.isBlank c = true) : isSymbol c = false := by
  simp [isSymbol, h]

/-- A symbol is no word character. -/
theorem isWordOrDollar_of_isSymbol (h : isSymbol c = true) : Text.isWordOrDollar c = false := by
  simpa using (Bool.and_eq_true_iff.mp h).1

/-- A symbol is not blank. -/
theorem isBlank_of_isSymbol (h : isSymbol c = true) : Text.isBlank c = false := by
  simpa using (Bool.and_eq_true_iff.mp h).2

/-- A character is a blank, a symbol, or belongs to a word. -/
theorem isBlank_or_isSymbol_or_isWordOrDollar (c : Char) :
    Text.isBlank c = true ∨ isSymbol c = true ∨ Text.isWordOrDollar c = true := by
  cases hblank : Text.isBlank c <;> cases hword : Text.isWordOrDollar c <;>
    simp [isSymbol, hblank, hword]

/-- Only blanks are collapsed. -/
theorem collapseBlanks_append (h : ∀ c ∈ u, Text.isBlank c = false) (t : Text) :
    collapseBlanks (u ++ t) = u ++ collapseBlanks t := by
  induction u with
  | nil => rfl
  | cons c u ih =>
    rw [List.cons_append, collapseBlanks, h c List.mem_cons_self,
      ih fun d hd => h d (List.mem_cons_of_mem c hd)]
    rfl

/-- What is not blank is kept, and decides about the next blank. -/
theorem tightenFrom_cons (hc : Text.isBlank c = false) (afterSymbol : Bool) (t : Text) :
    tightenFrom afterSymbol (c :: t) = c :: tightenFrom (isSymbol c) t := by
  rw [tightenFrom, hc, if_neg Bool.false_ne_true]

/-- Only blanks are dropped, and the last character decides about the next blank. -/
theorem tightenFrom_append (h : ∀ c ∈ u, Text.isBlank c = false) (hd : Text.isBlank d = false)
    (afterSymbol : Bool) (t : Text) :
    tightenFrom afterSymbol (u ++ d :: t) = u ++ d :: tightenFrom (isSymbol d) t := by
  induction u generalizing afterSymbol with
  | nil => exact tightenFrom_cons hd afterSymbol t
  | cons c u ih =>
    rw [List.cons_append, tightenFrom_cons (h c List.mem_cons_self),
      ih fun e he => h e (List.mem_cons_of_mem c he)]
    rfl

/-- A text without blanks is not tightened. -/
theorem tightenFrom_of_forall (h : ∀ c ∈ t, Text.isBlank c = false) (afterSymbol : Bool) :
    tightenFrom afterSymbol t = t := by
  rcases List.eq_nil_or_concat' t with rfl | ⟨u, d, rfl⟩
  · rfl
  · rw [tightenFrom_append (fun c hc => h c (List.mem_append_left _ hc)) (h d (by simp))]
    rfl

/-- A statement without blanks is in its normal layout. -/
theorem normalize_of_forall (h : ∀ c ∈ t, Text.isBlank c = false) : normalize t = t := by
  have hcollapse : collapseBlanks t = t := by
    simpa [collapseBlanks] using collapseBlanks_append h []
  rw [normalize, hcollapse, Text.strip, Text.trim_of_forall h, tightenFrom_of_forall h]

/-- The space between two words belongs to the normal layout. -/
theorem normalize_space (hu : ∀ e ∈ u, Text.isBlank e = false) (hc : Text.isWordOrDollar c = true)
    (hd : Text.isWordOrDollar d = true) (hcblank : Text.isBlank c = false)
    (ht : ∀ e ∈ d :: t, Text.isBlank e = false) :
    normalize (u ++ c :: ' ' :: d :: t) = u ++ c :: ' ' :: d :: t := by
  have hdblank : Text.isBlank d = false := ht d List.mem_cons_self
  have huc : ∀ e ∈ u ++ [c], Text.isBlank e = false := by
    intro e he
    rcases List.mem_append.mp he with he | he
    · exact hu e he
    · rwa [List.mem_singleton.mp he]
  have hcollapse : collapseBlanks (u ++ c :: ' ' :: d :: t) = u ++ c :: ' ' :: d :: t := by
    have hbehind : collapseBlanks (d :: t) = d :: t := by
      simpa [collapseBlanks] using collapseBlanks_append ht []
    have hspace : collapseBlanks (' ' :: d :: t) = ' ' :: d :: t := by
      rw [collapseBlanks, hbehind]
      simp [hdblank, show Text.isBlank ' ' = true from rfl]
    simpa [hspace] using collapseBlanks_append huc (' ' :: d :: t)
  have hstrip : Text.strip (u ++ c :: ' ' :: d :: t) = u ++ c :: ' ' :: d :: t := by
    refine Text.trim_eq_self ?_ ?_
    · cases u with
      | nil => exact hcblank
      | cons e u => exact hu e List.mem_cons_self
    · obtain ⟨front, e, he⟩ := (List.eq_nil_or_concat' (d :: t)).resolve_left (by simp)
      have hlast : Text.isBlank e = false := ht e (by simp [he])
      rw [he, show u ++ c :: ' ' :: (front ++ [e]) = (u ++ c :: ' ' :: front) ++ [e] by simp,
        List.getLast?_concat]
      exact hlast
  have hsymbol : isSymbol c = false := by simp [isSymbol, hc]
  have hnext : isSymbol d = false := by simp [isSymbol, hd]
  rw [normalize, hcollapse, hstrip, tightenFrom_append hu hcblank, hsymbol, tightenFrom,
    tightenFrom_of_forall ht]
  simp [hnext, show Text.isBlank ' ' = true from rfl]

/-- A body with the given statements. -/
def bodyText (ss : List Text) : Text :=
  '{' :: Text.join [';'] ss ++ ['}']

/-- A statement that a body can be written with: it is not empty, holds no semicolon, and
stands in its normal layout. -/
structure IsStatement (s : Text) : Prop where
  /-- There is something to do. -/
  ne_nil : s ≠ []
  /-- The statement ends nowhere inside. -/
  no_semicolon : ';' ∉ s
  /-- Normalizing changes nothing. -/
  normal : normalize s = s

/-- A body that is written from statements has these statements. -/
theorem statements_bodyText (hss : ss ≠ []) (h : ∀ s ∈ ss, IsStatement s) :
    statements (bodyText ss) = ss := by
  have hlast : (bodyText ss).getLast? = some '}' := List.getLast?_concat
  have hstrip : Text.strip (bodyText ss) = bodyText ss :=
    Text.trim_eq_self rfl (by rw [hlast]; rfl)
  have hunbrace : unbrace (bodyText ss) = Text.join [';'] ss := by
    simp only [unbrace, hstrip]
    rw [if_pos ⟨rfl, hlast⟩]
    exact List.dropLast_concat
  rw [statements, hunbrace, Text.split_join hss fun s hs => (h s hs).no_semicolon,
    List.map_congr_left fun s hs => (h s hs).normal, List.map_id', List.filter_eq_self]
  intro s hs
  simpa using (h s hs).ne_nil

end Playable.Script
