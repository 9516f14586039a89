import Mathlib.Tactic.Common
import Playable.Text.Lines

/-!
# Cutting a text into lines

A line is cut off at its end, whichever of the line ends that is, and what follows is cut
on its own. A text without the end of a line is one line.
-/

namespace Playable.Text

variable {line ending rest : Text}

/-- A text that ends a line: one of the characters that do, or a carriage return with its line
feed. -/
def IsLineEnd (ending : Text) : Prop :=
  ending = ['\r', '\n'] ∨ ∃ c, endsLine c = true ∧ ending = [c]

/-- A line feed ends a line. -/
theorem isLineEnd_newline : IsLineEnd ['\n'] :=
  .inr ⟨'\n', rfl, rfl⟩

/-- A character that does not end a line belongs to the line. -/
theorem linesFrom_cons {c : Char} (hc : endsLine c = false) (current rest : Text) :
    linesFrom current (c :: rest) = linesFrom (c :: current) rest := by
  have hreturn : c ≠ '\r' := by
    rintro rfl
    cases hc
  rw [linesFrom]
  · simp [hc]
  · exact fun _ h => absurd h hreturn

/-- A character that ends a line, and is not followed by a line feed, completes the line. -/
theorem linesFrom_end {c : Char} (hc : endsLine c = true) (hrest : rest.head? ≠ some '\n')
    (current : Text) : linesFrom current (c :: rest) = current.reverse :: linesFrom [] rest := by
  rw [linesFrom]
  · simp [hc]
  · rintro more rfl rfl
    exact hrest rfl

/-- A line is read up to its end. -/
theorem linesFrom_line (hline : ∀ c ∈ line, endsLine c = false) (hending : IsLineEnd ending)
    (hrest : rest.head? ≠ some '\n') (current : Text) :
    linesFrom current (line ++ ending ++ rest) =
      (current.reverse ++ line) :: linesFrom [] rest := by
  induction line generalizing current with
  | nil =>
    rcases hending with rfl | ⟨c, hc, rfl⟩
    · simp [linesFrom]
    · simpa using linesFrom_end hc hrest current
  | cons c line ih =>
    have hmore := ih (fun d hd => hline d (List.mem_cons_of_mem c hd)) (c :: current)
    rw [List.cons_append, List.cons_append, linesFrom_cons (hline c List.mem_cons_self), hmore]
    simp

/-- The first line of a text is cut off at its end. -/
theorem lines_line (hline : ∀ c ∈ line, endsLine c = false) (hending : IsLineEnd ending)
    (hrest : rest.head? ≠ some '\n') : lines (line ++ ending ++ rest) = line :: lines rest :=
  linesFrom_line hline hending hrest []

/-- A text that does not end a line is read to its end. -/
theorem linesFrom_last (hline : ∀ c ∈ line, endsLine c = false) (current : Text) :
    linesFrom current line = linesFrom (line.reverse ++ current) [] := by
  induction line generalizing current with
  | nil => rfl
  | cons c line ih =>
    rw [linesFrom_cons (hline c List.mem_cons_self),
      ih fun d hd => hline d (List.mem_cons_of_mem c hd)]
    simp

/-- A text in which no line ends is one line, unless it is empty. -/
theorem lines_last (hne : line ≠ []) (hline : ∀ c ∈ line, endsLine c = false) :
    lines line = [line] := by
  rw [lines, linesFrom_last hline]
  simp [linesFrom, hne]

end Playable.Text
