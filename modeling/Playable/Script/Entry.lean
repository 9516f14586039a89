import Playable.Literal.Scan
import Playable.Pattern.Search
import Playable.Script.Fault

/-!
# The entry routine

A player script turns a scrambled signature into the valid one by calling one
routine, the entry routine. Its name is read off the places where players are
known to call or define it; its parameter and body are read off its definition.
-/

namespace Playable.Script

open Pattern

/-- The entry routine of a script. -/
structure Entry where
  /-- Its name. -/
  name : Text
  /-- The name of its parameter. -/
  param : Text
  /-- Its body, with the braces around it. -/
  body : Text
  deriving DecidableEq, Repr

/-- A character that may start an identifier. -/
def isIdentifierStart (c : Char) : Bool :=
  c.isAlpha || c = '_' || c = '$'

/-- A character in front of which a name would be part of a longer path. -/
def continuesPath (c : Char) : Bool :=
  Text.isWordOrDollar c || c = '.'

/-- An identifier. -/
def identifier : Pattern :=
  one isIdentifierStart ++ many Text.isWordOrDollar

/-- A name of letters, digits and dollar signs. -/
def plainName : Pattern :=
  some1 Text.isPlainName

/-- A text with any number of blanks before and behind it. -/
def spaced (s : String) : Pattern :=
  blanks ++ lit s ++ blanks

/-- A guarded call of a setter, up to and including its first argument. -/
def guardedSet (guard target : Pattern) : Pattern :=
  wordEdge ++ guard ++ spaced "&&" ++ target ++ lit ".set(" ++ someBut "," ++ spaced ","

/-- The name of the entry routine, right before its argument list. -/
def entryCall : Pattern :=
  label "sig" plainName ++ lit "("

/-- The list of one parameter and the opening brace behind it. -/
def parameterAndBrace (param : Pattern) : Pattern :=
  lit "(" ++ blanks ++ param ++ blanks ++ lit ")" ++ blanks ++ text ['{']
    ++ blanks

/-- The assignment that splits the parameter into characters. -/
def splitAssignment (param : Pattern) : Pattern :=
  param ++ spaced "=" ++ param ++ lit ".split(" ++ spaced "\"\"" ++ lit ")"

/-- A function of one parameter that starts by splitting it into characters. -/
def splittingFunction : Pattern :=
  parameterAndBrace (label "arg" plainName) ++ splitAssignment (same "arg")

/-- The places where players are known to call or define the entry routine. -/
def entryShapes : List Pattern :=
  [guardedSet (anyOf "cs") (anyOf "adf") ++ lit "encodeURIComponent" ++ spaced "(" ++ entryCall,
    guardedSet (some1 Char.isAlphanum) (some1 Char.isAlphanum) ++ lit "encodeURIComponent"
      ++ spaced "(" ++ entryCall,
    either wordEdge (one (!Text.isPlainName ·))
      ++ label "sig" (one Text.isPlainName ++ plainName) ++ spaced "=" ++ lit "function"
      ++ parameterAndBrace (lit "a") ++ splitAssignment (lit "a"),
    label "sig" plainName ++ spaced "=" ++ lit "function" ++ splittingFunction,
    lit "function" ++ some1 Text.isBlank ++ label "sig" plainName ++ splittingFunction,
    lit ".sig||" ++ entryCall,
    guardedSet (anyOf "cs") (anyOf "adf") ++ entryCall,
    guardedSet (lit "c") (lit "a") ++ lit "(" ++ manyBut ")" ++ lit ")" ++ spaced "("
      ++ entryCall]

/-- The names that may be the entry routine, in the order in which they are
tried. -/
def candidates (script : Text) : List Text :=
  ((entryShapes.flatMap (·.findAll script)).map (·.capture "sig")).eraseDups

/-- The definition of a function of one parameter under a name, up to its body. -/
def definition (name : Text) : Pattern :=
  either (lit "function" ++ some1 Text.isBlank ++ text name)
      (notAfter continuesPath ++ text name ++ spaced "=" ++ lit "function")
    ++ spaced "(" ++ label "param" identifier ++ blanks ++ lit ")" ++ blanks ++ ahead (· = '{')

/-- The function of a name, read off its first definition with a readable body. -/
def readFunction? (script name : Text) : Option Entry :=
  ((definition name).findAll script).findSome? fun m =>
    (Literal.read? m.rest).map fun body => ⟨name, m.capture "param", body⟩

/-- The entry routine of a script: the first candidate with a readable
definition. -/
def findEntry (script : Text) : Except ExtractionFault Entry :=
  let names := candidates script
  match names.findSome? (readFunction? script) with
  | some entry => .ok entry
  | none => .error (if names.isEmpty then .noEntryShape else .unreadableEntry names)

end Playable.Script
