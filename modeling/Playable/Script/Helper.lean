import Playable.Register
import Playable.Script.Entry
import Playable.Script.Shape

/-!
# The helper object

The entry routine works by calling members of one helper object with its own
parameter and perhaps an integer. The calls tell the name of the object, and its
definition tells what each member does.
-/

namespace Playable.Script

open Pattern

/-- A call of an object member inside the entry routine. -/
structure Call where
  /-- The object. -/
  object : Text
  /-- The member. -/
  member : Text
  /-- The digits of the argument behind the parameter, perhaps with a minus sign. -/
  argument : Option Text
  deriving DecidableEq, Repr

/-- A call of an object member, by its identifier or by a quoted name, with the
parameter and perhaps an integer as arguments. -/
def callShape (param : Text) : Pattern :=
  notAfter continuesPath ++ label "object" identifier ++ blanks
    ++ either (lit "." ++ blanks ++ label "member" identifier)
        (lit "[" ++ blanks ++ label "quote" (anyOf "\"'") ++ label "member" (someBut "\"'")
          ++ same "quote" ++ blanks ++ lit "]")
    ++ spaced "(" ++ text param ++ blanks
    ++ optional (lit "," ++ blanks
        ++ label "argument" (optional (lit "-") ++ some1 Text.isDecimalDigit) ++ blanks)
    ++ lit ")"

/-- The member calls of an entry routine in order. Calls of members of the
parameter itself do not count. -/
def calls (entry : Entry) : List Call :=
  (((callShape entry.param).findAll entry.body).map fun m =>
    ⟨m.capture "object", m.capture "member", m.capture? "argument"⟩).filter
      (·.object ≠ entry.param)

/-- The integer argument of a call, if it has one. -/
def Call.readArgument (call : Call) : Except ScriptError (Option Int) :=
  match call.argument with
  | none => .ok none
  | some digits =>
    match Number.integer digits with
    | .ok i => .ok (some i)
    | .error f => .error (.argument f)

/-- The name of the helper object: the object of the first call. -/
def findHelper (entry : Entry) : Except ScriptError Text :=
  match calls entry with
  | [] => .error (.fault (.noHelperCall entry.name))
  | call :: _ => do
    let _ ← call.readArgument
    return call.object

/-- The definition of an object under a name, up to its literal. -/
def objectDefinition (name : Text) : Pattern :=
  notAfter continuesPath ++ text name ++ spaced "=" ++ ahead (· = '{')

/-- The literal of an object, read off its first readable definition. -/
def readObject? (script name : Text) : Option Text :=
  ((objectDefinition name).findAll script).findSome? fun m => Literal.read? m.rest

/-- A member of an object literal, up to its body. -/
def memberShape : Pattern :=
  label "name" (either identifier (either (lit "\"" ++ manyBut "\"" ++ lit "\"")
      (lit "'" ++ manyBut "'" ++ lit "'")))
    ++ spaced ":" ++ lit "function" ++ blanks ++ lit "(" ++ label "params" (manyBut ")")
    ++ lit ")" ++ blanks ++ ahead (· = '{')

/-- A function member of an object literal. -/
structure Member where
  /-- Its name, without quotes. -/
  name : Text
  /-- The names of its parameters. -/
  params : List Text
  /-- Its body, with the braces around it. -/
  body : Text
  deriving DecidableEq, Repr

/-- The names in a parameter list. -/
def paramNames (list : Text) : List Text :=
  ((Text.split ',' list).map Text.strip).filter (!·.isEmpty)

/-- The function members in a text, up to the first whose body is not readable.
Each takes at least one character, so `fuel` may be the length of the text. -/
def membersFrom (fuel : Nat) (t : Text) : List Member :=
  match fuel with
  | 0 => []
  | fuel + 1 =>
    match memberShape.find? t with
    | none => []
    | some m =>
      match Literal.read m.rest with
      | .error _ => []
      | .ok (body, behind) =>
        ⟨Text.trim (fun c => c = '"' || c = '\'') (m.capture "name"),
          paramNames (m.capture "params"), body⟩ :: membersFrom fuel behind

/-- The function members of an object literal. -/
def readMembers (literal : Text) : List Member :=
  membersFrom literal.length literal.tail

/-- What the members of a helper object do: the operation of each, or none if its
shape is unknown. -/
abbrev Members := Register (Option Text)

/-- What the members of a helper object do. -/
def findMembers (shapes : List Shape) (script helper : Text) :
    Except ExtractionFault Members :=
  match readObject? script helper with
  | none => .error (.unreadableHelper helper)
  | some literal => .ok (Register.ofPairs ((readMembers literal).map fun m =>
      (m.name, classify shapes m.params m.body)))

end Playable.Script
