import Playable.Text.Quoted
import Playable.Number.Integer

/-!
# Failures of extraction

Why no plan is recovered from a player script. The declared faults belong to the
player version and may be remembered for it; an argument with too many digits is
an accident of the text and is kept apart.
-/

namespace Playable.Script

/-- A declared reason why a script yields no plan. -/
inductive ExtractionFault where
  /-- No known call shape occurs. -/
  | noEntryShape
  /-- None of the candidate entry routines has a readable definition. -/
  | unreadableEntry (tried : List Text)
  /-- The entry routine calls no helper object. -/
  | noHelperCall (entry : Text)
  /-- The helper object has no readable definition. -/
  | unreadableHelper (helper : Text)
  /-- The entry routine does not call this helper object. -/
  | noHelperUse (entry helper : Text)
  /-- A called member is not defined. -/
  | undefinedMember (helper member : Text)
  /-- A called member has no known shape. -/
  | unresolvedMember (helper member : Text)
  deriving DecidableEq, Repr

/-- The wording of a declared fault. -/
def ExtractionFault.message : ExtractionFault → Text
  | noEntryShape => "No signature entry routine matched the known call shapes".toList
  | unreadableEntry tried =>
    "Candidate entry routines ".toList ++ Text.quotedList tried
      ++ " have no readable definition".toList
  | noHelperCall entry =>
    "Entry routine ".toList ++ entry ++ " calls no helper object".toList
  | unreadableHelper helper =>
    "Helper object ".toList ++ helper ++ " has no readable definition".toList
  | noHelperUse entry helper =>
    "Entry routine ".toList ++ entry ++ " makes no calls into ".toList ++ helper
  | undefinedMember helper member =>
    helper ++ '.' :: member ++ " is called but not defined on the helper object".toList
  | unresolvedMember helper member =>
    helper ++ '.' :: member ++ " matches no known transform shape".toList

/-- Why reading a script stops. -/
inductive ScriptError where
  /-- A declared fault. -/
  | fault (f : ExtractionFault)
  /-- An argument of a helper call is no acceptable integer. -/
  | argument (f : Number.IntegerFault)
  deriving DecidableEq, Repr

/-- The wording of a failure to read a script. -/
def ScriptError.message : ScriptError → Text
  | fault f => f.message
  | argument f => f.message

end Playable.Script
