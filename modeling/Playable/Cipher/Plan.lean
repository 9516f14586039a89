import Playable.Cipher.Catalog

/-!
# Plans

A plan is the sequence of operations that turns the scrambled signature of a
player version into the valid one. It is never empty.
-/

namespace Playable.Cipher

/-- One step of a plan. -/
structure Step where
  /-- The name of the operation. -/
  operation : Text
  /-- Its argument, if one was given. -/
  argument : Option Int
  deriving DecidableEq, Repr

/-- A step as text: the operation, with its argument in parentheses if there is
one. -/
def Step.toText (step : Step) : Text :=
  match step.argument with
  | none => step.operation
  | some i => step.operation ++ '(' :: Text.ofInt i ++ [')']

/-- A sequence of at least one step. -/
structure Plan where
  /-- The steps in the order in which they are taken. -/
  steps : List Step
  /-- There is at least one step. -/
  steps_ne_nil : steps ≠ []
  deriving DecidableEq, Repr

namespace Plan

/-- The plan of the given steps, if there are any. -/
def ofSteps? (steps : List Step) : Option Plan :=
  if h : steps = [] then none else some ⟨steps, h⟩

/-- The wording for a plan without steps. -/
def emptyMessage : Text :=
  "A transform plan needs at least one operation".toList

/-- A plan as text, with an arrow between its steps. -/
def toText (plan : Plan) : Text :=
  Text.join " -> ".toList (plan.steps.map Step.toText)

/-- Run a sequence of steps on a signature. -/
def runSteps (catalog : Catalog) (steps : List Step) (signature : RawText) :
    Except UnknownOperation RawText :=
  steps.foldlM (fun chars step => catalog.apply step.operation step.argument chars) signature

/-- Run a plan on a scrambled signature. -/
def decrypt (catalog : Catalog) (plan : Plan) (signature : RawText) :
    Except UnknownOperation RawText :=
  runSteps catalog plan.steps signature

end Plan

/-- A plan together with the catalog that it runs against. -/
structure Engine where
  /-- The plan of the player version. -/
  plan : Plan
  /-- The operations that the plan may name. -/
  catalog : Catalog

/-- The valid signature for a scrambled one. -/
def Engine.decrypt (engine : Engine) (signature : RawText) :
    Except UnknownOperation RawText :=
  engine.plan.decrypt engine.catalog signature

end Playable.Cipher
