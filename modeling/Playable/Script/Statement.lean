import Playable.Text.Blank
import Playable.Text.Word

/-!
# Statements of a function body

A function body is compared with known shapes statement by statement, so its
layout must not matter. Blanks survive only as one space between two words;
every other character, the dollar sign apart, stands without blanks around it.
-/

namespace Playable.Script

/-- A character that separates words without being blank. -/
def isSymbol (c : Char) : Bool :=
  !Text.isWordOrDollar c && !Text.isBlank c

/-- Write every run of blanks as one space. -/
def collapseBlanks : Text → Text
  | [] => []
  | c :: rest =>
    if Text.isBlank c then
      if rest.head?.any Text.isBlank then collapseBlanks rest else ' ' :: collapseBlanks rest
    else c :: collapseBlanks rest

/-- Drop the blanks next to symbols, given whether a symbol comes right before. -/
def tightenFrom (afterSymbol : Bool) : Text → Text
  | [] => []
  | c :: rest =>
    if Text.isBlank c then
      if afterSymbol || rest.head?.any isSymbol then tightenFrom afterSymbol rest
      else c :: tightenFrom false rest
    else c :: tightenFrom (isSymbol c) rest

/-- One statement in its normal layout. -/
def normalize (statement : Text) : Text :=
  tightenFrom false (Text.strip (collapseBlanks statement))

/-- A function body without the braces around it, if it has both. -/
def unbrace (body : Text) : Text :=
  let body := Text.strip body
  if body.head? = some '{' ∧ body.getLast? = some '}' then body.tail.dropLast else body

/-- The statements of a function body in their normal layout. -/
def statements (body : Text) : List Text :=
  ((Text.split ';' (unbrace body)).map normalize).filter (!·.isEmpty)

end Playable.Script
