import Playable.Cipher.Plan
import Playable.Script.Helper

/-!
# Extraction of the plan

The script is never executed. The entry routine and the helper object are found
by their shapes, and the calls of the entry routine into the helper, in order,
are the steps of the plan.
-/

namespace Playable.Script

open Cipher

/-- The step of one call, or nothing for a call of another object. -/
def stepOf (helper : Text) (members : Members) (call : Call) :
    Except ScriptError (Option Step) := do
  let argument ← call.readArgument
  if call.object ≠ helper then return none
  match Register.get? members call.member with
  | none => .error (.fault (.undefinedMember helper call.member))
  | some none => .error (.fault (.unresolvedMember helper call.member))
  | some (some operation) => return some ⟨operation, argument⟩

/-- The plan of an entry routine that calls into a helper object. -/
def buildPlan (entry : Entry) (helper : Text) (members : Members) :
    Except ScriptError Plan := do
  let steps ← (calls entry).mapM (stepOf helper members)
  match Plan.ofSteps? (steps.filterMap id) with
  | some plan => return plan
  | none => .error (.fault (.noHelperUse entry.name helper))

/-- Turn a declared fault into a failure to read a script. -/
def declared {α : Type} : Except ExtractionFault α → Except ScriptError α
  | .ok a => .ok a
  | .error f => .error (.fault f)

/-- The plan of a player script. -/
def extract (shapes : List Shape) (script : Text) : Except ScriptError Plan := do
  let entry ← declared (findEntry script)
  let helper ← findHelper entry
  let members ← declared (findMembers shapes script helper)
  buildPlan entry helper members

end Playable.Script
