import Playable.Pattern.Search
import Playable.Script.Statement

/-!
# Shapes of operations

The members of a helper object have meaningless names; what a member does is seen
from the shape of its body. A shape is a pattern over the statements of the body
in which the names of the parameters are left open.
-/

namespace Playable.Script

open Pattern

/-- A pattern with the names of one or two parameters left open. -/
inductive Template where
  /-- Only the first parameter occurs. -/
  | unary (pattern : Text → Pattern)
  /-- Both parameters occur. -/
  | binary (pattern : Text → Text → Pattern)

/-- The pattern for the given parameters. The first name is empty if there is no
parameter, but the second one cannot be missing. -/
def Template.instantiate? (template : Template) (params : List Text) : Option Pattern :=
  match template, params with
  | unary pattern, params => some (pattern (params.head?.getD []))
  | binary pattern, a :: b :: _ => some (pattern a b)
  | binary _, _ => none

/-- A known shape of a member body, and the operation that such a body performs. -/
structure Shape where
  /-- The operation in the catalog. -/
  operation : Text
  /-- The number of statements. -/
  statementCount : Nat
  /-- How the statements look, with semicolons between them. -/
  template : Template

/-- Whether a body with the given parameters has a shape. -/
def Shape.fits (shape : Shape) (params : List Text) (statements : List Text) : Bool :=
  statements.length = shape.statementCount &&
    match shape.template.instantiate? params with
    | some pattern => pattern.matchesAll (Text.join [';'] statements)
    | none => false

/-- A word that may stand in front of a value. -/
def returned : Pattern :=
  optional (lit "return ")

/-- The start of an exchange of two array elements: the first element is saved and
then overwritten. -/
def saveFirst (a b : Text) : Pattern :=
  lit "var " ++ label "saved" (some1 Text.isWordOrDollar) ++ lit "=" ++ text a ++ lit "[0];"
    ++ text a ++ lit "[0]=" ++ text a ++ lit "[" ++ text b ++ lit "%" ++ text a ++ lit ".length];"

/-- The shapes of the standard operations. -/
def standardShapes : List Shape :=
  [⟨"reverse".toList, 1, .unary fun a => returned ++ text a ++ lit ".reverse()"⟩,
    ⟨"splice".toList, 1, .binary fun a b =>
      returned ++ text a ++ lit ".splice(0," ++ text b ++ lit ")"⟩,
    ⟨"swap".toList, 3, .binary fun a b =>
      saveFirst a b ++ text a ++ lit "[" ++ text b ++ lit "%" ++ text a ++ lit ".length]="
        ++ same "saved"⟩,
    ⟨"swap".toList, 3, .binary fun a b =>
      saveFirst a b ++ text a ++ lit "[" ++ text b ++ lit "]=" ++ same "saved"⟩]

/-- The shape of a member that moves the first character to the end. -/
def rotateShape : Shape :=
  ⟨"rotate".toList, 1, .unary fun a => text a ++ lit ".push(" ++ text a ++ lit ".shift())"⟩

/-- The operation of a member body: that of the first shape that fits. -/
def classify (shapes : List Shape) (params : List Text) (body : Text) : Option Text :=
  (shapes.find? (·.fits params (statements body))).map (·.operation)

end Playable.Script
